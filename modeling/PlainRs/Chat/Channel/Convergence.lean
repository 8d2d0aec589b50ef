import PlainRs.Chat.Channel.Network

/-! When the members of a channel hold the owner's roster once nothing is in flight. -/
namespace PlainRs.Chat

open Keyed Runs PlainRs.Crypto PlainRs.Utils

def isJoinedIn (members : List ChannelMember) (p : String) : Bool :=
  members.any fun m => m.peerId = p && m.isJoined

/-- An update of channel `c` at a version. -/
def ChannelSystemMessage.updates (c : String) (v : Int) : ChannelSystemMessage → Bool
  | .update msg => msg.channelId = c && msg.version = v
  | _ => false

/-- Some post to the member carries the update of the channel at this version. -/
def Awaited (posts : List Post) (c p : String) (v : Int) : Prop :=
  ∃ post ∈ posts, post.peer.id = p ∧ post.message.updates c v = true

namespace Network

/-- The owner lists the member as joined and the member still has the channel joined. -/
def seated (s : Network) (c p : String) : Bool :=
  (s.ownerRow c).any (fun ch => isJoinedIn ch.members p) &&
    (s.row p c).any fun r => r.status = .joined

end Network

/-- With nothing in flight and nothing lost, every joined member holds the owner's view. -/
def Converged (s : Network) : Prop :=
  s.inFlight = [] → s.lost = false → ∀ c ch, s.ownerRow c = some ch → ∀ p, p ≠ s.ownerId →
    isJoinedIn ch.members p = true → ∀ r, s.row p c = some r → r.status = .joined →
      r.name = ch.name ∧ r.members = ch.members ∧ r.version = ch.version

/-- The two changes of the roster that are not broadcast, an add and a decline, happen only while
no other member is seated. -/
def OwnerInStep (members : List String) (s : Network) : DeviceAction → Prop
  | .addChannelMember c p _ => (s.ownerRow c).any (fun ch => !hasMember ch.members p) = true →
      ∀ q ∈ members, s.seated c q = false
  | .receive p (.inviteDecline msg) _ =>
      (s.ownerRow msg.channelId).any (fun ch => hasMember ch.members p) = true →
        ∀ q ∈ members, q ≠ p → s.seated msg.channelId q = false
  | _ => True

/-- An invite taken by a member that the owner lists as joined is at the owner's version, or the
update at that version is still to arrive. -/
def MemberInStep (s : Network) (p : String) : DeviceAction → Prop
  | .receive _ (.invite msg) _ => (s.row p msg.channelId).all (fun r => r.status ≠ .joined) = true →
      ∀ ch ∈ s.ownerRow msg.channelId, isJoinedIn ch.members p = true →
        msg.version = ch.version ∨ Awaited s.inFlight msg.channelId p ch.version
  | _ => True

def InStep (members : List String) (s : Network) : NetworkAction → Prop
  | .owner a => OwnerInStep members s a
  | .deliver i now => ∀ post ∈ s.inFlight[i]?,
      if post.peer.id = s.ownerId then
        OwnerInStep members s (.receive post.clientId post.message now)
      else MemberInStep s post.peer.id (.receive post.clientId post.message now)
  | _ => True

/-- A seated member is at the owner's version, or the update at that version is under way. -/
def UpToDate (members : List String) (posts : List Post) (s : Network) : Prop :=
  s.lost = false → ∀ c ch, s.ownerRow c = some ch → ∀ p ∈ members,
    isJoinedIn ch.members p = true → ∀ r, s.row p c = some r → r.status = .joined →
      r.version = ch.version ∨ Awaited posts c p ch.version

variable {d : Dalek} {members : List String} {svc owner member : ChatService} {a : DeviceAction}
  {s t : Network} {c p q fromId now : String} {ch ch' r r' : DChannel} {ms : List ChannelMember}
  {v : Int} {post : Post} {posts posts' : List Post} {b : NetworkAction} {i : Nat}
  {message : ChannelSystemMessage}

theorem isJoinedIn_iff : isJoinedIn ms p = true ↔ ∃ m ∈ ms, m.peerId = p ∧ m.isJoined = true := by
  simp [isJoinedIn]

theorem hasMember_of_isJoinedIn (h : isJoinedIn ms p = true) : hasMember ms p = true := by
  obtain ⟨m, hm, hp, -⟩ := isJoinedIn_iff.mp h
  exact hasMember_iff.mpr ⟨m, hm, hp⟩

theorem isJoinedIn_append_pending (h : isJoinedIn (ms ++ [.pending q]) p = true) :
    isJoinedIn ms p = true := by
  obtain ⟨m, hm, hp, hj⟩ := isJoinedIn_iff.mp h
  rcases List.mem_append.mp hm with hm | hm
  · exact isJoinedIn_iff.mpr ⟨m, hm, hp, hj⟩
  · obtain rfl := List.mem_singleton.mp hm
    simp [ChannelMember.isJoined, ChannelMember.pending] at hj

theorem isJoinedIn_withoutMember (h : isJoinedIn (withoutMember ms q) p = true) :
    p ≠ q ∧ isJoinedIn ms p = true := by
  obtain ⟨m, hm, rfl, hj⟩ := isJoinedIn_iff.mp h
  obtain ⟨hm, hne⟩ := mem_withoutMember.mp hm
  exact ⟨hne, isJoinedIn_iff.mpr ⟨m, hm, rfl, hj⟩⟩

theorem Awaited.left (h : Awaited posts c p v) : Awaited (posts ++ posts') c p v := by
  obtain ⟨post, hp, h⟩ := h
  exact ⟨post, List.mem_append_left _ hp, h⟩

theorem Awaited.right (h : Awaited posts' c p v) : Awaited (posts ++ posts') c p v := by
  obtain ⟨post, hp, h⟩ := h
  exact ⟨post, List.mem_append_right _ hp, h⟩

/-- What is awaited is the post taken out, or is still there. -/
theorem Awaited.eraseIdx (h : Awaited posts c p v) (hi : posts[i]? = some post) :
    (post.peer.id = p ∧ post.message.updates c v = true) ∨ Awaited (posts.eraseIdx i) c p v := by
  obtain ⟨post', hp, h⟩ := h
  obtain ⟨j, hj⟩ := List.mem_iff_getElem?.mp hp
  by_cases hij : j = i
  · subst hij
    obtain rfl : post' = post := Option.some.inj (hj.symm.trans hi)
    exact .inl h
  · exact .inr ⟨post', List.mem_eraseIdx_iff_getElem?.mpr ⟨j, hij, hj⟩, h⟩

theorem Awaited.eraseIdx_of_ne (h : Awaited posts c p v) (hi : posts[i]? = some post)
    (hu : ∀ msg, post.message ≠ .update msg) : Awaited (posts.eraseIdx i) c p v := by
  rcases h.eraseIdx hi with ⟨-, hup⟩ | h
  · cases hm : post.message with
    | update msg => exact absurd hm (hu msg)
    | _ => simp [hm, ChannelSystemMessage.updates] at hup
  · exact h

/-- A broadcast of the owner's row puts the update under way to each of its members. -/
theorem awaited_of_broadcast (h : Owns d members svc) (hid : ch.id = c)
    (hsub : ∀ post ∈ broadcastUpdate d svc ch, post ∈ posts) (hp : p ∈ members)
    (hm : hasMember ch.members p = true) : Awaited posts c p ch.version := by
  obtain ⟨pk, key, -, hpaired⟩ := h.paired p hp
  have hne : p ≠ svc.identity.clientId := by
    rintro rfl
    exact h.apart hp
  obtain ⟨post, hpost, hto, hmsg⟩ :=
    broadcast_reaches hpaired hm hne
  refine ⟨post, hsub post hpost, hto, ?_⟩
  simp [hmsg, ChannelSystemMessage.updates, updateMessage, hid]

theorem mem_spawnBroadcast_of_key (hk : base64Decode ch.key ≠ [])
    (h : post ∈ broadcastUpdate d svc ch) : post ∈ (ChatService.spawnBroadcast d svc ch).1 := by
  simpa [ChatService.spawnBroadcast, hk] using h

/-- An acceptance without a channel id changes no row. -/
theorem accepted_channelId {msg : ChannelInviteAccept}
    (hr : svc.db.getChannelById msg.channelId = some ch)
    (hr' : (svc.act d (.receive fromId (.inviteAccept msg) now)).1.db.getChannelById msg.channelId =
      some ch') (hne : ch' ≠ ch) : msg.channelId ≠ "" := by
  intro he
  rw [ChatService.act, ChatService.service_receive, ChatService.dispatch,
    ChatService.handleInviteAccept, if_pos he] at hr'
  exact hne (Option.some.inj (hr'.symm.trans hr))

/-- A change of the owner's row is broadcast, unless it comes of an add or a decline. -/
theorem owner_tells (h : Owns d members svc) (ha : OwnerInput members a)
    (hr : svc.db.getChannelById c = some ch) (hr' : (svc.act d a).1.db.getChannelById c = some ch')
    (hne : ch' ≠ ch) :
    (∀ p ∈ members, hasMember ch'.members p = true → Awaited (svc.act d a).2 c p ch'.version) ∨
    (∃ p now, a = .addChannelMember c p now ∧ hasMember ch.members p = false ∧
      ch'.members = ch.members ++ [.pending p]) ∨
    ∃ p msg now, a = .receive p (.inviteDecline msg) now ∧ msg.channelId = c ∧
      hasMember ch.members p = true ∧ ch'.members = withoutMember ch.members p := by
  have hid := ChatDb.id_of_getChannelById hr'
  have howns := owns_act h ha
  have hkey := (howns.rows c ch' hr').2.1
  have hown := (h.rows c ch hr).1
  have hs : svc.RowStep d a c (some ch) (some ch') := hr ▸ hr' ▸ ChatService.rowStep_act
  cases hs with
  | same => exact absurd rfl hne
  | renamed =>
    refine .inl fun p hp hm => awaited_of_broadcast howns hid (fun post hpost => ?_) hp hm
    simp only [ChatService.act, ChatService.updateChannelName, hr] at hpost ⊢
    exact (if_pos (c := (ChatService.renamed _ ch _).ownerId = svc.identity.clientId) hown).symm ▸ hpost
  | added ho hm => exact .inr (.inl ⟨_, _, rfl, hm, rfl⟩)
  | removed ho hm =>
    refine .inl fun p hp hmem => awaited_of_broadcast howns hid (fun post hpost => ?_) hp hmem
    simp only [ChatService.act, ChatService.removeChannelMember, hr, ho, hm, ne_eq,
      not_true_eq_false, if_false, Bool.true_eq_false] at hpost ⊢
    exact List.mem_append_right _ hpost
  | accepted hc ho =>
    subst hc
    refine .inl fun p hp hm => awaited_of_broadcast howns hid (fun post hpost => ?_) hp hm
    rw [ChatService.act, ChatService.posts_receive]
    rw [ChatService.act, ChatService.service_receive] at hpost
    have hcid := accepted_channelId hr hr' hne
    simp only [ChatService.dispatch, ChatService.handleInviteAccept, hr, ho, hcid, ne_eq,
      not_true_eq_false, if_false] at hpost ⊢
    exact mem_spawnBroadcast_of_key hkey hpost
  | declined hc ho hm => exact .inr (.inr ⟨_, _, _, rfl, hc, hm, rfl⟩)
  | memberLeft hc ho =>
    subst hc
    refine .inl fun p hp hm => awaited_of_broadcast howns hid (fun post hpost => ?_) hp hm
    rw [ChatService.act, ChatService.posts_receive]
    rw [ChatService.act, ChatService.service_receive] at hpost
    simp only [ChatService.dispatch, ChatService.handleLeave, hr, ho, ne_eq, not_true_eq_false,
      if_false] at hpost ⊢
    exact mem_spawnBroadcast_of_key hkey hpost
  | left => simp [OwnerInput, DeviceAction.isOwnerOp] at ha
  | reinvited | updated | kicked =>
    simp [OwnerInput, DeviceAction.isOwnerOp, ChatService.isReply] at ha

theorem seated_eq_true (hr : s.ownerRow c = some ch) (hj : isJoinedIn ch.members p = true)
    (hrow : s.row p c = some r) (hs : r.status = .joined) : s.seated c p = true := by
  simp [Network.seated, hr, hj, hrow, hs]

theorem upToDate_afterOwner (hc : Consistent d members s) (h : UpToDate members s.inFlight s)
    (ha : OwnerInput members a) (hg : OwnerInStep members s a) :
    UpToDate members (s.afterOwner d a).inFlight (s.afterOwner d a) := by
  intro hlost c ch' hr' p hp hj r hrow hs
  have hrow : s.row p c = some r := hrow
  obtain ⟨ch, hr, -⟩ := ((hc.follows p hp).rows c r hrow).2 hs
  by_cases he : ch' = ch
  · subst he
    rcases h hlost c ch' hr p hp hj r hrow hs with hv | haw
    · exact .inl hv
    · exact .inr haw.left
  · have hseat : isJoinedIn ch.members p = true → s.seated c p = true := fun hj =>
      seated_eq_true hr hj hrow hs
    rcases owner_tells hc.owns ha hr hr' he with htold | ⟨q, now, rfl, hm, hms⟩ |
      ⟨q, msg, now, rfl, rfl, hm, hms⟩
    · exact .inr (htold p hp (hasMember_of_isJoinedIn hj)).right
    · have hj := isJoinedIn_append_pending (hms ▸ hj)
      have hno := hg (by simp [Network.ownerRow, hr, hm]) p hp
      rw [hseat hj] at hno
      cases hno
    · obtain ⟨hne, hj⟩ := isJoinedIn_withoutMember (hms ▸ hj)
      have hno := hg (by simpa [Network.ownerRow, hr] using hm) p hp hne
      rw [hseat hj] at hno
      cases hno

/-- A joined row of a member was there before, comes of an invite, or follows an update. -/
theorem joined_rowStep (ha : MemberInput d owner a)
    (hr' : (member.act d a).1.db.getChannelById c = some r') (hs : r'.status = .joined) :
    member.db.getChannelById c = some r' ∨
    (∃ fromId msg now, a = .receive fromId (.invite msg) now ∧ msg.channelId = c ∧
      (member.db.getChannelById c).all (fun r => r.status ≠ .joined) = true ∧
      r'.version = msg.version) ∨
    ∃ fromId msg now, a = .receive fromId (.update msg) now := by
  have hstep : member.RowStep d a c (member.db.getChannelById c) (some r') :=
    hr' ▸ ChatService.rowStep_act
  generalize member.db.getChannelById c = r at hstep ⊢
  cases hstep with
  | same => exact .inl rfl
  | invited hc => exact .inr (.inl ⟨_, _, _, rfl, hc, rfl, rfl⟩)
  | reinvited hc _ _ hj => exact .inr (.inl ⟨_, _, _, rfl, hc, by simpa using hj, rfl⟩)
  | updated => exact .inr (.inr ⟨_, _, _, rfl⟩)
  | left => cases hs
  | kicked => cases hs
  | _ => simp [MemberInput, DeviceAction.isMemberOp, FromOwner] at ha

theorem row_afterMember : (s.afterMember d p a).row q c =
    if q = p then ((s.device p).act d a).1.db.getChannelById c else s.row q c := by
  by_cases he : q = p
  · subst he
    simp [Network.row, Network.afterMember]
  · simp [Network.row, Network.afterMember, he]

theorem upToDate_afterMember (h : UpToDate members s.inFlight s) (ha : MemberInput d s.owner a)
    (hg : MemberInStep s p a) (hu : ∀ fromId msg now, a ≠ .receive fromId (.update msg) now) :
    UpToDate members (s.afterMember d p a).inFlight (s.afterMember d p a) := by
  intro hlost c ch hr q hq hj r' hrow hs
  have hold : s.row q c = some r' → r'.version = ch.version ∨
      Awaited (s.afterMember d p a).inFlight c q ch.version := by
    intro hrow
    rcases h hlost c ch hr q hq hj r' hrow hs with hv | haw
    · exact .inl hv
    · exact .inr haw.left
  rw [row_afterMember] at hrow
  split at hrow
  · next he =>
    subst he
    rcases joined_rowStep ha hrow hs with hsame | ⟨fromId, msg, now, rfl, rfl, hnot, hv⟩ |
      ⟨fromId, msg, now, rfl⟩
    · exact hold hsame
    · rcases hg hnot ch hr hj with hcur | haw
      · exact .inl (hv.trans hcur)
      · exact .inr haw.left
    · exact absurd rfl (hu fromId msg now)
  · exact hold hrow

/-- An update of the owner's that verifies and is not applied is not ahead. -/
theorem version_le_of_same {msg : ChannelUpdate} {peer : DPeer}
    (hr : svc.db.getChannelById msg.channelId = some r) (ho : r.ownerId = fromId)
    (hp : svc.db.getPeerById fromId = some peer)
    (hs : ChatService.updateSigned d peer.publicKey msg = true)
    (hsame : (svc.act d (.receive fromId (.update msg) now)).1.db.getChannelById msg.channelId =
      some r) : msg.version ≤ r.version := by
  subst ho
  by_contra hv
  rw [ChatService.act, ChatService.service_receive] at hsame
  simp only [ChatService.dispatch, ChatService.handleUpdate, hr, ne_eq, not_true_eq_false, if_false,
    hp, hs, Bool.true_eq_false, hv] at hsame
  have hnew : ((createMissingPeers svc.db r.ownerId now msg.memberPeers).updateChannel
      (ChatService.updatedBy now r msg)).getChannelById msg.channelId =
        some (ChatService.updatedBy now r msg) :=
    ChatService.writeBack_self (fun _ => ChatService.getChannelById_createMissingPeers) hr rfl rfl
  exact ChatService.updatedBy_ne (not_le.mp hv) (Option.some.inj (hnew.symm.trans hsame))

/-- An update that arrives leaves its receiver up to date, or leaves the awaited one awaited. -/
theorem upToDate_update {msg : ChannelUpdate} (hc : Consistent d members s)
    (h : UpToDate members s.inFlight s) (hi : s.inFlight[i]? = some post)
    (hmsg : post.message = .update msg) :
    UpToDate members
      ((s.without i).afterMember d post.peer.id (.receive post.clientId post.message now)).inFlight
      ((s.without i).afterMember d post.peer.id (.receive post.clientId post.message now)) := by
  intro hlost c ch hr q hq hj r' hrow hs
  have hr : s.ownerRow c = some ch := hr
  have hrouted := hc.routed post (List.mem_of_getElem? hi)
  obtain ⟨hto, hfrom, ⟨hmsgrow, hsig⟩⟩ : post.peer.id ∈ members ∧ post.clientId = s.ownerId ∧
      FromOwner d s.owner (.update msg) := by
    rcases hrouted with ⟨-, -, hreply⟩ | hrouted
    · simp [hmsg, ChatService.isReply] at hreply
    · exact hmsg ▸ hrouted
  have haw : ∀ {v}, Awaited s.inFlight c q v → (post.peer.id = q ∧ msg.channelId = c ∧
      msg.version = v) ∨ Awaited ((s.without i).afterMember d post.peer.id
        (.receive post.clientId post.message now)).inFlight c q v := by
    intro v haw
    rcases haw.eraseIdx hi with ⟨hq, hu⟩ | haw
    · exact .inl ⟨hq, by simpa [hmsg, ChannelSystemMessage.updates] using hu⟩
    · exact .inr haw.left
  have hdev : (s.without i).row = s.row := rfl
  rw [row_afterMember, hdev] at hrow
  by_cases hqp : q = post.peer.id
  · subst hqp
    obtain ⟨key, -, peer, hpeer, -, hpk⟩ := (hc.follows _ hq).paired
    rw [if_pos rfl, hmsg, hfrom] at hrow
    rw [← hpk] at hsig
    have hstep : (s.device post.peer.id).RowStep d (.receive s.ownerId (.update msg) now) c
        (s.row post.peer.id c) (some r') := hrow ▸ ChatService.rowStep_act
    generalize hr0 : s.row post.peer.id c = r0 at hstep
    cases hstep with
    | same =>
      obtain ⟨ho, hbehind⟩ := (hc.follows _ hq).rows c r' hr0
      obtain ⟨_, hch, hle, -⟩ := hbehind hs
      obtain rfl : _ = ch := Option.some.inj (hch.symm.trans hr)
      rcases h hlost c _ hr _ hq hj r' hr0 hs with hv | hw
      · exact .inl hv
      · rcases haw hw with ⟨-, rfl, hv⟩ | hw
        · have := version_le_of_same hr0 ho hpeer hsig hrow
          exact .inl (by omega)
        · exact .inr hw
    | updated hcid ho _ _ hlt =>
      subst hcid
      rcases h hlost _ ch hr _ hq hj _ hr0 hs with hv | hw
      · obtain ⟨_, hch, hle, -⟩ := hmsgrow
        obtain rfl : _ = ch := Option.some.inj (hch.symm.trans hr)
        omega
      · rcases haw hw with ⟨-, -, hv⟩ | hw
        · exact .inl hv
        · exact .inr hw
  · rw [if_neg hqp] at hrow
    rcases h hlost c ch hr q hq hj r' hrow hs with hv | hw
    · exact .inl hv
    · rcases haw hw with ⟨he, -⟩ | hw
      · exact absurd he.symm hqp
      · exact .inr hw

theorem upToDate_without (h : UpToDate members s.inFlight s) (hi : s.inFlight[i]? = some post)
    (hu : ∀ msg, post.message ≠ .update msg) :
    UpToDate members (s.without i).inFlight (s.without i) := by
  intro hlost c ch hr p hp hj r hrow hs
  rcases h hlost c ch hr p hp hj r hrow hs with hv | hw
  · exact .inl hv
  · exact .inr (hw.eraseIdx_of_ne hi hu)

theorem memberInStep_without (h : MemberInStep s p a) (hi : s.inFlight[i]? = some post)
    (hu : ∀ msg, post.message ≠ .update msg) : MemberInStep (s.without i) p a := by
  cases a with
  | receive fromId m now =>
    cases m with
    | invite msg =>
      intro hnot ch hr hj
      rcases h hnot ch hr hj with hv | hw
      · exact .inl hv
      · exact .inr (hw.eraseIdx_of_ne hi hu)
    | _ => trivial
  | _ => trivial

theorem upToDate_step (hc : Consistent d members s) (h : UpToDate members s.inFlight s)
    (hg : InStep members s b) (ht : (network d members).next s b = some t) :
    UpToDate members t.inFlight t := by
  cases b with
  | owner a =>
    simp only [network, Option.ite_none_right_eq_some, Option.some.injEq] at ht
    obtain ⟨ha, rfl⟩ := ht
    exact upToDate_afterOwner hc h (.inl ha) hg
  | member p a =>
    simp only [network, Option.ite_none_right_eq_some, Option.some.injEq] at ht
    obtain ⟨⟨-, ha⟩, rfl⟩ := ht
    refine upToDate_afterMember h (.inl ha) ?_ ?_
    · cases a <;> simp_all [DeviceAction.isMemberOp, MemberInStep]
    · rintro fromId msg now rfl
      simp [DeviceAction.isMemberOp] at ha
  | lose i =>
    obtain ⟨post, -, rfl⟩ := Option.map_eq_some_iff.mp ht
    intro hlost
    cases hlost
  | deliver i now =>
    obtain ⟨post, hi, rfl⟩ := Option.map_eq_some_iff.mp ht
    have hg := hg post hi
    have hc' := consistent_without (i := i) hc
    have hrouted := hc.routed post (List.mem_of_getElem? hi)
    unfold Network.receive
    rcases input_of_routed hc hrouted with ⟨hto, ha⟩ | ⟨hto, -, ha⟩
    · rw [if_pos hto] at hg
      rw [if_pos (show post.peer.id = (s.without i).ownerId from hto)]
      have hu : ∀ msg, post.message ≠ .update msg := by
        intro msg hm
        simp [OwnerInput, DeviceAction.isOwnerOp, hm, ChatService.isReply] at ha
      exact upToDate_afterOwner hc' (upToDate_without h hi hu) ha hg
    · rw [if_neg hto] at hg
      rw [if_neg (show ¬post.peer.id = (s.without i).ownerId from hto)]
      by_cases hu : ∃ msg, post.message = .update msg
      · obtain ⟨msg, hm⟩ := hu
        exact upToDate_update hc h hi hm
      · push Not at hu
        refine upToDate_afterMember (upToDate_without h hi hu) ha (memberInStep_without hg hi hu) ?_
        intro fromId msg now' he
        exact hu msg (DeviceAction.receive.inj he).2.1

theorem upToDate_initial (h : (network d members).init s) : UpToDate members s.inFlight s := by
  obtain ⟨-, hempty, -⟩ := h
  intro _ c ch hr
  simp [Network.ownerRow, ChatDb.getChannelById, hempty] at hr

theorem upToDate_reachable (hd : d.Sound)
    (h : ReachableUnder (network d members) (InStep members) s) :
    UpToDate members s.inFlight s := by
  have := ReachableUnder.invariant
    (I := fun s => Consistent d members s ∧ UpToDate members s.inFlight s)
    (fun _ hs => ⟨consistent_initial hs, upToDate_initial hs⟩)
    (fun _ _ _ h hg ht => ⟨consistent_step hd h.1 ht, upToDate_step h.1 h.2 hg ht⟩) h
  exact this.2

instance : Decidable (Awaited posts c p v) :=
  inferInstanceAs (Decidable (∃ post ∈ posts, post.peer.id = p ∧ post.message.updates c v = true))

instance : (a : DeviceAction) → Decidable (OwnerInStep members s a)
  | .addChannelMember _ _ _ => inferInstanceAs (Decidable (_ → ∀ q ∈ members, _ = false))
  | .receive _ (.inviteDecline _) _ =>
    inferInstanceAs (Decidable (_ → ∀ q ∈ members, _ → _ = false))
  | .receive _ (.invite _) _ | .receive _ (.inviteAccept _) _ | .receive _ (.update _) _
  | .receive _ (.kick _) _ | .receive _ (.leave _) _ | .receive _ .unreadable _
  | .createChannel _ _ _ _ | .updateChannelName _ _ _ | .deleteChannel _ _ | .leaveChannel _ _
  | .removeChannelMember _ _ _ | .acceptChannelInvite _ | .declineChannelInvite _
  | .deletePeer _ _ => inferInstanceAs (Decidable True)

instance : (a : DeviceAction) → Decidable (MemberInStep s p a)
  | .receive _ (.invite msg) _ => inferInstanceAs (Decidable (_ →
      ∀ ch ∈ s.ownerRow msg.channelId, isJoinedIn ch.members p = true →
        msg.version = ch.version ∨ Awaited s.inFlight msg.channelId p ch.version))
  | .receive _ (.inviteDecline _) _ | .receive _ (.inviteAccept _) _ | .receive _ (.update _) _
  | .receive _ (.kick _) _ | .receive _ (.leave _) _ | .receive _ .unreadable _
  | .createChannel _ _ _ _ | .updateChannelName _ _ _ | .deleteChannel _ _ | .leaveChannel _ _
  | .addChannelMember _ _ _ | .removeChannelMember _ _ _ | .acceptChannelInvite _
  | .declineChannelInvite _ | .deletePeer _ _ => inferInstanceAs (Decidable True)

instance : (b : NetworkAction) → Decidable (InStep members s b)
  | .owner a => inferInstanceAs (Decidable (OwnerInStep members s a))
  | .deliver i now => inferInstanceAs (Decidable (∀ post ∈ s.inFlight[i]?,
      if post.peer.id = s.ownerId then
        OwnerInStep members s (.receive post.clientId post.message now)
      else MemberInStep s post.peer.id (.receive post.clientId post.message now)))
  | .member _ _ | .lose _ => inferInstanceAs (Decidable True)

/-- Alice, paired with Bob and Carol. -/
def demoNetwork : Network where
  owner := demoService "alice" 1 [demoPeer "bob" 2 9, demoPeer "carol" 3 8]
  device p := if p = "bob" then demoBob else demoService "carol" 3 [demoPeer "alice" 1 8]
  inFlight := []
  lost := false

/-- Bob joins: create, add, invite, accept, update. -/
def bobJoins : List NetworkAction :=
  [.owner (.createChannel "c" (List.replicate 32 7) "Team" "t1"),
    .owner (.addChannelMember "c" "bob" "t2"), .deliver 0 "t3",
    .member "bob" (.acceptChannelInvite "c"), .deliver 0 "t4", .deliver 0 "t5"]

/-- Carol is added once Bob is in, and takes her invite. -/
def carolInvited : List NetworkAction :=
  bobJoins ++ [.owner (.addChannelMember "c" "carol" "t6"), .deliver 0 "t7"]

theorem publicKey_demoService {clientId : String} {n : UInt8} {peers : List DPeer} :
    selfPublicKey (demoService clientId n peers).kpBytes =
      base64Encode ((demoKeypair n).drop 32) := by
  have h : (demoService clientId n peers).kpBytes = demoKeypair n := base64Decode_encode _
  rw [h]
  rfl

theorem paired_demo {clientId id : String} {m n key : UInt8} {peers others : List DPeer}
    (h : (demoService clientId m peers).db.getPeerById id = some (demoPeer id n key)) :
    Paired (demoService clientId m peers) id (selfPublicKey (demoService id n others).kpBytes)
      (List.replicate 32 key) :=
  ⟨peerKeyCache_demoService h, _, h, peerCacheEntry_demoPeer, publicKey_demoService.symm⟩

theorem getPeerById_bob : demoNetwork.owner.db.getPeerById "bob" = some (demoPeer "bob" 2 9) :=
  (ChatDb.getPeerById_upsertPeer_ne (by decide)).trans
    (@getPeerById_demoService "alice" "bob" 1 2 9)

theorem getPeerById_carol : demoNetwork.owner.db.getPeerById "carol" = some (demoPeer "carol" 3 8) :=
  (ChatDb.getPeerById_upsertPeer_self (show DeviceType.phone ≠ .nas by decide)).trans rfl

theorem demoNetwork_initial : (network checksumDalek ["bob", "carol"]).init demoNetwork := by
  refine ⟨keypair_demoService, channels_demoService, by decide +kernel, by decide, ?_, rfl, rfl⟩
  intro p hp
  rcases List.mem_cons.mp hp with rfl | hp
  · exact ⟨keypair_demoService, rfl, channels_demoService, List.replicate 32 9,
      paired_demo getPeerById_bob, paired_demo getPeerById_demoService⟩
  · obtain rfl := List.mem_singleton.mp hp
    exact ⟨keypair_demoService, rfl, channels_demoService, List.replicate 32 8,
      paired_demo getPeerById_carol,
      paired_demo getPeerById_demoService⟩

end PlainRs.Chat
