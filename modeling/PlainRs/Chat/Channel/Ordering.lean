import PlainRs.Base.Runs
import PlainRs.Chat.Channel.Posts

/-! One owner and one member of a channel: the order in which the owner's messages were sent
against the order in which the member applies them. -/
namespace PlainRs.Chat

open Keyed Runs PlainRs.Crypto

namespace ChannelSystemMessage

def versionOf : ChannelSystemMessage → Int
  | .invite msg => msg.version
  | .update msg => msg.version
  | .kick msg => msg.version
  | _ => 0

/-- A message of an owner about channel `c`. -/
def isOwners (c : String) : ChannelSystemMessage → Bool
  | .invite msg => msg.channelId = c
  | .update msg => msg.channelId = c
  | .kick msg => msg.channelId = c
  | _ => false

def isInvite : ChannelSystemMessage → Bool
  | .invite _ => true
  | _ => false

def isKick : ChannelSystemMessage → Bool
  | .kick _ => true
  | _ => false

end ChannelSystemMessage

/-- The two devices, the owner's messages to the member in the order of sending, whether the
channel was created, the places in that order of the messages the member applied, latest first,
and how often the member renamed the channel since its last applied invite or update. -/
structure Link where
  owner : ChatService
  member : ChatService
  sent : List ChannelSystemMessage
  created : Bool
  applied : List (Nat × ChannelSystemMessage)
  renames : Nat

inductive LinkAction
  | owner (a : DeviceAction)
  | member (a : DeviceAction)
  | deliver (i : Nat) (now : String)

namespace DeviceAction

def creates (c : String) : DeviceAction → Bool
  | .createChannel id _ _ _ => id = c
  | _ => false

/-- An operation of the device's own user. -/
def isLocal : DeviceAction → Bool
  | .receive _ _ _ => false
  | _ => true

def renamesChannel (c : String) : DeviceAction → Bool
  | .updateChannelName id _ _ => id = c
  | _ => false

end DeviceAction

namespace Link

def row (c : String) (s : Link) : Option DChannel := s.member.db.getChannelById c

/-- The place of the message of a kind that was applied last. -/
def latest (kind : ChannelSystemMessage → Bool) (s : Link) : Option Nat :=
  (s.applied.find? fun e => kind e.2).map (·.1)

/-- The owner's messages about `c` among what it posted to the member. -/
def toMember (c : String) (s : Link) (posts : List Post) : List ChannelSystemMessage :=
  (posts.filter fun post =>
    post.peer.id = s.member.identity.clientId && post.message.isOwners c).map (·.message)

def afterOwner (d : Dalek) (c : String) (s : Link) (a : DeviceAction) : Link :=
  { s with
    owner := (s.owner.act d a).1
    sent := s.sent ++ s.toMember c (s.owner.act d a).2
    created := s.created || a.creates c }

def afterMember (d : Dalek) (c : String) (s : Link) (a : DeviceAction) : Link :=
  let member := (s.member.act d a).1
  { s with
    member := member
    renames :=
      if a.renamesChannel c && member.db.getChannelById c ≠ s.row c then s.renames + 1
      else s.renames }

/-- A message that changes the row is applied. -/
def afterDelivery (d : Dalek) (c : String) (s : Link) (i : Nat) (m : ChannelSystemMessage)
    (now : String) : Link :=
  let member := (s.member.act d (.receive s.owner.identity.clientId m now)).1
  let changed := decide (member.db.getChannelById c ≠ s.row c)
  { s with
    member := member
    applied := if changed then (i, m) :: s.applied else s.applied
    renames := if changed && !m.isKick then 0 else s.renames }

end Link

/-- The owner does anything and hears from anyone; a channel id is drawn once. The member's user
does anything; the owner's messages arrive in any order and any number of times. -/
def link (d : Dalek) (c : String) : System Link LinkAction where
  init s := s.owner.db.channels = Table.empty ∧ s.member.db.channels = Table.empty ∧
    s.owner.identity.clientId ≠ s.member.identity.clientId ∧
    s.sent = [] ∧ s.created = false ∧ s.applied = [] ∧ s.renames = 0
  next s
    | .owner a =>
      if a.fromPeer s.owner.identity.clientId && !(a.creates c && s.created) then
        some (s.afterOwner d c a)
      else none
    | .member a => if a.isLocal && !a.creates c then some (s.afterMember d c a) else none
    | .deliver i now => s.sent[i]?.map fun m => s.afterDelivery d c i m now

/-- The member's view does not move back in a step: its version does not fall, and a kick sent
before the latest accepted invite, or a re-invite sent before the latest kick, changes nothing. -/
def ViewKept (c : String) (s : Link) (a : LinkAction) (t : Link) : Prop :=
  (∀ ch ch', s.row c = some ch → t.row c = some ch' → ch.version ≤ ch'.version) ∧
  (∀ i now msg j, a = .deliver i now → s.sent[i]? = some (.kick msg) →
    s.latest ChannelSystemMessage.isInvite = some j → i < j → t.row c = s.row c) ∧
  (∀ i now msg j, a = .deliver i now → s.sent[i]? = some (.invite msg) → (s.row c).isSome = true →
    s.latest ChannelSystemMessage.isKick = some j → i < j → t.row c = s.row c)

/-- A kick that finds the row was sent after the latest accepted invite; an invite that finds a
left or kicked row was sent no earlier than anything applied, and nothing was renamed since. -/
def ArrivesInOrder (c : String) (s : Link) (i : Nat) : ChannelSystemMessage → Prop
  | .kick _ => (s.row c).isSome = true → ∀ j ∈ s.latest ChannelSystemMessage.isInvite, j ≤ i
  | .invite _ => (s.row c).any (fun ch => ch.status ≠ .joined) = true →
    s.renames = 0 ∧ ∀ e ∈ s.applied, e.1 ≤ i
  | _ => True

def InOrder (c : String) (s : Link) : LinkAction → Prop
  | .deliver i _ => ∀ m ∈ s.sent[i]?, ArrivesInOrder c s i m
  | _ => True

instance (c : String) (s : Link) (i : Nat) :
    (m : ChannelSystemMessage) → Decidable (ArrivesInOrder c s i m)
  | .kick _ => inferInstanceAs (Decidable (_ → ∀ j ∈ s.latest ChannelSystemMessage.isInvite, j ≤ i))
  | .invite _ => inferInstanceAs (Decidable (_ → s.renames = 0 ∧ ∀ e ∈ s.applied, e.1 ≤ i))
  | .inviteAccept _ | .inviteDecline _ | .update _ | .leave _ | .unreadable =>
    inferInstanceAs (Decidable True)

instance (c : String) (s : Link) : (a : LinkAction) → Decidable (InOrder c s a)
  | .deliver i _ => inferInstanceAs (Decidable (∀ m ∈ s.sent[i]?, ArrivesInOrder c s i m))
  | .owner _ | .member _ => inferInstanceAs (Decidable True)

variable {d : Dalek} {c : String} {svc : ChatService} {a : DeviceAction} {post : Post}
  {ch ch' : DChannel} {r : Option DChannel} {s t : Link} {b : LinkAction}

/-- What an owner's action posts about a channel carries the version it left the row at, one up
from the row before, or the version of the row it deleted. -/
theorem versionOf_post (hp : svc.PostStep d a post) (hm : post.message.isOwners c = true) :
    ∃ ch, svc.db.getChannelById c = some ch ∧ ch.ownerId = svc.identity.clientId ∧
      (((svc.act d a).1.db.getChannelById c = none ∧ post.message.versionOf = ch.version) ∨
        ∃ ch', (svc.act d a).1.db.getChannelById c = some ch' ∧ ch'.version = ch.version + 1 ∧
          post.message.versionOf = ch'.version) := by
  cases hp with
  | invite hr ho hr' hp hmsg =>
    have hid := ChatDb.id_of_getChannelById hr
    obtain rfl : _ = c := by
      simpa [hmsg, ChannelSystemMessage.isOwners, inviteMessage, ChatService.withRoster, hid] using hm
    exact ⟨_, hr, ho, .inr ⟨_, hr', rfl, by rw [hmsg]; rfl⟩⟩
  | update hr ho hr' hv hmem hn hid hmsg =>
    have hid := ChatDb.id_of_getChannelById hr'
    obtain rfl : _ = c := by
      simpa [hmsg, ChannelSystemMessage.isOwners, updateMessage, hid] using hm
    exact ⟨_, hr, ho, .inr ⟨_, hr', hv, by rw [hmsg]; rfl⟩⟩
  | kick hr ho hr' hp hmsg =>
    obtain rfl : _ = c := by
      simpa [hmsg, ChannelSystemMessage.isOwners, kickMessage] using hm
    exact ⟨_, hr, ho, .inr ⟨_, hr', rfl, by rw [hmsg]; rfl⟩⟩
  | deleteKick hr ho hr' hmsg =>
    obtain rfl : _ = c := by
      simpa [hmsg, ChannelSystemMessage.isOwners, kickMessage] using hm
    exact ⟨_, hr, ho, .inl ⟨hr', by rw [hmsg]; rfl⟩⟩
  | reply _ _ _ h => cases hpm : post.message <;> simp_all [ChatService.isReply, ChannelSystemMessage.isOwners]

/-- A row of ours comes from a row of ours no newer, or was just created. -/
theorem owned_before (hs : svc.RowStep d a c r (some ch'))
    (hf : a.fromPeer svc.identity.clientId = true) (ho : ch'.ownerId = svc.identity.clientId) :
    (∃ ch, r = some ch ∧ ch.ownerId = svc.identity.clientId ∧ ch.version ≤ ch'.version) ∨
      a.creates c = true := by
  cases hs with
  | same => exact .inl ⟨_, rfl, ho, le_refl _⟩
  | created => exact .inr (by simp [DeviceAction.creates])
  | renamed => exact .inl ⟨_, rfl, ho, by simp [ChatService.renamed]⟩
  | left hn => exact absurd ho hn
  | added => exact .inl ⟨_, rfl, ho, by simp [ChatService.withRoster]⟩
  | removed => exact .inl ⟨_, rfl, ho, by simp [ChatService.withRoster]⟩
  | invited => simp_all [DeviceAction.fromPeer, ChatService.invitedChannel]
  | reinvited => simp_all [DeviceAction.fromPeer, ChatService.reinvited]
  | accepted => exact .inl ⟨_, rfl, ho, by simp [ChatService.withRoster]⟩
  | declined => exact .inl ⟨_, rfl, ho, by simp [ChatService.withRoster]⟩
  | updated hc hn => simp_all [DeviceAction.fromPeer, ChatService.updatedBy]
  | kicked hc hn => simp_all [DeviceAction.fromPeer, ChatService.kicked]
  | memberLeft => exact .inl ⟨_, rfl, ho, by simp [ChatService.withRoster]⟩

/-- The owner's messages carry versions in the order of sending, none past the row it keeps. -/
structure SentRising (c : String) (s : Link) : Prop where
  rising : (s.sent.map ChannelSystemMessage.versionOf).Pairwise (· ≤ ·)
  below : ∀ ch, s.owner.db.getChannelById c = some ch → ch.ownerId = s.owner.identity.clientId →
    s.created = true ∧ ∀ m ∈ s.sent, m.versionOf ≤ ch.version
  fresh : s.created = false → s.sent = []

/-- The member's version counts the last applied invite or update and the local renames since. -/
structure ViewCounted (c : String) (s : Link) : Prop where
  ids : s.owner.identity.clientId ≠ s.member.identity.clientId
  places : ∀ e ∈ s.applied, s.sent[e.1]? = some e.2
  counted : ∀ ch, s.row c = some ch → ch.ownerId = s.owner.identity.clientId ∧
    ∃ e, s.applied.find? (fun e => !e.2.isKick) = some e ∧ ch.version = e.2.versionOf + s.renames

theorem mem_toMember {m : ChannelSystemMessage} {posts : List Post} (h : m ∈ s.toMember c posts) :
    ∃ post ∈ posts, post.message.isOwners c = true ∧ post.message = m := by
  obtain ⟨post, hp, rfl⟩ := List.mem_map.mp h
  obtain ⟨hmem, ht⟩ := List.mem_filter.mp hp
  rw [Bool.and_eq_true] at ht
  exact ⟨post, hmem, ht.2, rfl⟩

theorem sentRising_afterOwner (h : SentRising c s)
    (hf : a.fromPeer s.owner.identity.clientId = true) (hc : (a.creates c && s.created) = false) :
    SentRising c (s.afterOwner d c a) := by
  have hnew : ∀ m ∈ s.toMember c (s.owner.act d a).2, ∃ ch,
      s.owner.db.getChannelById c = some ch ∧ ch.ownerId = s.owner.identity.clientId ∧
        (((s.owner.act d a).1.db.getChannelById c = none ∧ m.versionOf = ch.version) ∨
          ∃ ch', (s.owner.act d a).1.db.getChannelById c = some ch' ∧
            ch'.version = ch.version + 1 ∧ m.versionOf = ch'.version) := by
    intro m hm
    obtain ⟨post, hp, hown, rfl⟩ := mem_toMember hm
    exact versionOf_post (ChatService.postStep_act hp) hown
  refine ⟨?_, ?_, ?_⟩
  · simp only [Link.afterOwner, List.map_append, List.pairwise_append]
    refine ⟨h.rising, ?_, ?_⟩
    · rw [List.pairwise_map]
      refine List.pairwise_of_forall_mem_list fun m hm n hn => ?_
      obtain ⟨ch, hr, -, hm⟩ := hnew m hm
      obtain ⟨ch', hr', -, hn⟩ := hnew n hn
      obtain rfl : ch = ch' := Option.some.inj (hr.symm.trans hr')
      rcases hm with ⟨-, hm⟩ | ⟨_, hrow, -, hm⟩ <;> rcases hn with ⟨-, hn⟩ | ⟨_, hrow', -, hn⟩ <;>
        simp_all
    · intro v hv w hw
      obtain ⟨m, hm, rfl⟩ := List.mem_map.mp hv
      obtain ⟨n, hn, rfl⟩ := List.mem_map.mp hw
      obtain ⟨ch, hr, ho, hn⟩ := hnew n hn
      have hle := (h.below ch hr ho).2 m hm
      rcases hn with ⟨-, hn⟩ | ⟨_, -, hv, hn⟩ <;> omega
  · intro ch' hr' ho'
    simp only [Link.afterOwner, ChatService.identity_act] at hr' ho' ⊢
    have hs : s.owner.RowStep d a c (s.owner.db.getChannelById c) (some ch') :=
      hr' ▸ ChatService.rowStep_act
    rcases owned_before hs hf ho' with ⟨ch, hr, ho, hle⟩ | hcr
    · obtain ⟨hcreated, hold⟩ := h.below ch hr ho
      refine ⟨by simp [hcreated], fun m hm => ?_⟩
      rcases List.mem_append.mp hm with hm | hm
      · exact le_trans (hold m hm) hle
      · obtain ⟨_, -, -, ⟨hnone, -⟩ | ⟨_, hsome, -, hv⟩⟩ := hnew m hm
        · simp [hr'] at hnone
        · rw [hv, Option.some.inj (hr'.symm.trans hsome)]
    · refine ⟨by simp [hcr], fun m hm => ?_⟩
      have hfresh : s.created = false := by simpa [hcr] using hc
      rcases List.mem_append.mp hm with hm | hm
      · simp [h.fresh hfresh] at hm
      · obtain ⟨ch, hr, ho, -⟩ := hnew m hm
        simp [(h.below ch hr ho).1] at hfresh
  · intro hfresh
    simp only [Link.afterOwner, Bool.or_eq_false_iff] at hfresh ⊢
    rw [h.fresh hfresh.1, List.nil_append, List.eq_nil_iff_forall_not_mem]
    intro m hm
    obtain ⟨ch, hr, ho, -⟩ := hnew m hm
    simp [(h.below ch hr ho).1] at hfresh

theorem SentRising.congr (h : SentRising c s)
    (ht : t.owner = s.owner ∧ t.sent = s.sent ∧ t.created = s.created) : SentRising c t := by
  obtain ⟨ho, hs, hc⟩ := ht
  refine ⟨by rw [hs]; exact h.rising, ?_, ?_⟩
  · rw [ho, hs, hc]
    exact h.below
  · rw [hs, hc]
    exact h.fresh

theorem viewCounted_afterOwner (h : ViewCounted c s) : ViewCounted c (s.afterOwner d c a) := by
  refine ⟨?_, ?_, ?_⟩
  · simpa [Link.afterOwner] using h.ids
  · intro e he
    have hp := h.places e he
    have hlt := (List.getElem?_eq_some_iff.mp hp).1
    rw [Link.afterOwner, List.getElem?_append_left hlt, hp]
  · intro ch hr
    obtain ⟨ho, e, he, hv⟩ := h.counted ch hr
    exact ⟨by simpa [Link.afterOwner] using ho, e, he, hv⟩

theorem viewCounted_afterMember (h : ViewCounted c s) (hl : a.isLocal = true)
    (hc : a.creates c = false) : ViewCounted c (s.afterMember d c a) := by
  have hs : s.member.RowStep d a c (s.row c) ((s.member.act d a).1.db.getChannelById c) :=
    ChatService.rowStep_act
  refine ⟨by simpa [Link.afterMember] using h.ids, h.places, ?_⟩
  intro ch hr
  simp only [Link.afterMember, Link.row] at hr
  rw [hr] at hs
  simp only [Link.afterMember, hr]
  generalize hr0 : s.row c = r at hs ⊢
  cases hs with
  | same => simpa using h.counted ch hr0
  | created => simp [DeviceAction.creates] at hc
  | renamed =>
    obtain ⟨ho, e, he, hv⟩ := h.counted _ hr0
    refine ⟨ho, e, he, ?_⟩
    rw [if_pos (by simpa [DeviceAction.renamesChannel] using ChatService.renamed_ne)]
    simp only [ChatService.renamed, hv]
    omega
  | left =>
    obtain ⟨ho, e, he, hv⟩ := h.counted _ hr0
    exact ⟨ho, e, he, by simpa [DeviceAction.renamesChannel, ChatService.leftBy] using hv⟩
  | added ho => exact absurd ((h.counted _ hr0).1.symm.trans ho) h.ids
  | removed ho => exact absurd ((h.counted _ hr0).1.symm.trans ho) h.ids
  | _ => simp [DeviceAction.isLocal] at hl

theorem viewCounted_afterDelivery {i : Nat} {m : ChannelSystemMessage} {now : String}
    (h : ViewCounted c s) (hm : s.sent[i]? = some m) :
    ViewCounted c (s.afterDelivery d c i m now) := by
  have hs : s.member.RowStep d (.receive s.owner.identity.clientId m now) c (s.row c)
      ((s.member.act d (.receive s.owner.identity.clientId m now)).1.db.getChannelById c) :=
    ChatService.rowStep_act
  refine ⟨by simpa [Link.afterDelivery] using h.ids, ?_, ?_⟩
  · intro e he
    simp only [Link.afterDelivery] at he ⊢
    split at he
    · rcases List.mem_cons.mp he with rfl | he
      · exact hm
      · exact h.places e he
    · exact h.places e he
  · intro ch hr
    simp only [Link.afterDelivery, Link.row] at hr
    rw [hr] at hs
    simp only [Link.afterDelivery, hr]
    generalize hr0 : s.row c = r at hs ⊢
    cases hs with
    | same => simpa using h.counted ch hr0
    | invited => simp [ChatService.invitedChannel, ChannelSystemMessage.isKick,
        ChannelSystemMessage.versionOf]
    | reinvited hc ho hsig hj =>
      simp only [ne_eq, Option.some.injEq, ChatService.reinvited_ne hj, not_false_eq_true]
      simp [ChatService.reinvited, ChannelSystemMessage.isKick, ChannelSystemMessage.versionOf]
    | updated hc ho hp hsig hv =>
      simp only [ne_eq, Option.some.injEq, ChatService.updatedBy_ne hv, not_false_eq_true]
      simp [ChatService.updatedBy, ChannelSystemMessage.isKick, ChannelSystemMessage.versionOf, ho]
    | kicked =>
      obtain ⟨ho, e, he, hv⟩ := h.counted _ hr0
      refine ⟨ho, e, ?_, by simpa [ChannelSystemMessage.isKick, ChatService.kicked] using hv⟩
      split <;> simpa [ChannelSystemMessage.isKick] using he
    | accepted hc ho => exact absurd ((h.counted _ hr0).1.symm.trans ho) h.ids
    | declined hc ho => exact absurd ((h.counted _ hr0).1.symm.trans ho) h.ids
    | memberLeft hc ho => exact absurd ((h.counted _ hr0).1.symm.trans ho) h.ids

theorem link_step (h : SentRising c s ∧ ViewCounted c s) (ht : (link d c).next s b = some t) :
    SentRising c t ∧ ViewCounted c t := by
  cases b with
  | owner a =>
    simp only [link] at ht
    split at ht
    · next hg =>
      cases ht
      simp only [Bool.and_eq_true, Bool.not_eq_true'] at hg
      exact ⟨sentRising_afterOwner h.1 hg.1 hg.2, viewCounted_afterOwner h.2⟩
    · cases ht
  | member a =>
    simp only [link] at ht
    split at ht
    · next hg =>
      cases ht
      simp only [Bool.and_eq_true, Bool.not_eq_true'] at hg
      exact ⟨h.1.congr ⟨rfl, rfl, rfl⟩, viewCounted_afterMember h.2 hg.1 hg.2⟩
    · cases ht
  | deliver i now =>
    obtain ⟨m, hm, rfl⟩ := Option.map_eq_some_iff.mp ht
    exact ⟨h.1.congr ⟨rfl, rfl, rfl⟩, viewCounted_afterDelivery h.2 hm⟩

theorem link_initial (h : (link d c).init s) : SentRising c s ∧ ViewCounted c s := by
  obtain ⟨ho, hm, hids, hsent, hcr, happ, -⟩ := h
  constructor
  · refine ⟨by simp [hsent], ?_, fun _ => hsent⟩
    intro ch hr
    simp [ChatDb.getChannelById, ho] at hr
  · refine ⟨hids, by simp [happ], ?_⟩
    intro ch hr
    simp [Link.row, ChatDb.getChannelById, hm] at hr

theorem link_reachable (h : Reachable (link d c) s) : SentRising c s ∧ ViewCounted c s :=
  Reachable.invariant (I := fun s => SentRising c s ∧ ViewCounted c s)
    (fun _ => link_initial) (fun _ _ _ => link_step) h

/-- Of two messages sent, the later one carries no lower version. -/
theorem SentRising.le {i j : Nat} {m n : ChannelSystemMessage} (h : SentRising c s)
    (hm : s.sent[i]? = some m) (hn : s.sent[j]? = some n) (hij : i ≤ j) :
    m.versionOf ≤ n.versionOf := by
  rcases Nat.lt_or_eq_of_le hij with hlt | rfl
  · obtain ⟨hi, rfl⟩ := List.getElem?_eq_some_iff.mp hm
    obtain ⟨hj, rfl⟩ := List.getElem?_eq_some_iff.mp hn
    have := List.pairwise_iff_getElem.mp h.rising i j (by simpa using hi) (by simpa using hj) hlt
    simpa using this
  · exact le_of_eq (congrArg _ (Option.some.inj (hm.symm.trans hn)))

/-- Only a re-invite can set a version below the stored one. -/
theorem version_le_or_reinvited (hs : svc.RowStep d a c (some ch) (some ch')) :
    ch.version ≤ ch'.version ∨ ∃ fromId msg now, a = .receive fromId (.invite msg) now ∧
      ch.status ≠ .joined ∧ ch'.version = msg.version := by
  cases hs with
  | same => exact .inl (le_refl _)
  | renamed => exact .inl (by simp [ChatService.renamed])
  | left => exact .inl (le_refl _)
  | added => exact .inl (by simp [ChatService.withRoster])
  | removed => exact .inl (by simp [ChatService.withRoster])
  | reinvited _ _ _ hj => exact .inr ⟨_, _, _, rfl, hj, rfl⟩
  | accepted => exact .inl (by simp [ChatService.withRoster])
  | declined => exact .inl (by simp [ChatService.withRoster])
  | updated _ _ _ _ hv => exact .inl (le_of_lt hv)
  | kicked => exact .inl (le_refl _)
  | memberLeft => exact .inl (by simp [ChatService.withRoster])

theorem mem_of_latest {kind : ChannelSystemMessage → Bool} {j : Nat} (h : s.latest kind = some j) :
    ∃ e ∈ s.applied, e.1 = j := by
  obtain ⟨e, he, rfl⟩ := Option.map_eq_some_iff.mp h
  exact ⟨e, List.mem_of_find?_eq_some he, rfl⟩

/-- A re-invite that arrives in order is no older than what the member has. -/
theorem version_le_of_inOrder {i : Nat} {now : String} {msg : ChannelInvite}
    (hinv : SentRising c s ∧ ViewCounted c s) (hg : InOrder c s (.deliver i now))
    (hm : s.sent[i]? = some (.invite msg)) (hr : s.row c = some ch) (hj : ch.status ≠ .joined) :
    ch.version ≤ msg.version := by
  have hg := hg _ hm
  simp only [ArrivesInOrder, hr, Option.any_some, decide_eq_true_eq] at hg
  obtain ⟨hz, happ⟩ := hg hj
  obtain ⟨-, e, he, hv⟩ := hinv.2.counted ch hr
  have hmem := List.mem_of_find?_eq_some he
  have hle := hinv.1.le (hinv.2.places e hmem) hm (happ e hmem)
  rw [hv, hz]
  simpa [ChannelSystemMessage.versionOf] using hle

def demoLink : Link := ⟨demoAlice, demoBob, [], false, [], 0⟩

theorem demoLink_initial : (link d "c").init demoLink :=
  ⟨channels_demoService, channels_demoService, by decide, rfl, rfl, rfl, rfl⟩

/-- Alice invites Bob, removes him and invites him again. -/
def invitedTwice : List LinkAction :=
  [.owner (.createChannel "c" (List.replicate 32 7) "Team" "t1"),
    .owner (.addChannelMember "c" "bob" "t2"), .owner (.removeChannelMember "c" "bob" "t3"),
    .owner (.addChannelMember "c" "bob" "t4")]

/-- The kick and then the second invite reach Bob in the order of sending. -/
def inTurn : List LinkAction := invitedTwice ++ [.deliver 0 "t5", .deliver 1 "t6"]

/-- Bob leaves and takes the second invite while the kick is still on its way. -/
def kickDelayed : List LinkAction :=
  invitedTwice ++ [.deliver 0 "t5", .member (.leaveChannel "c" "t6"), .deliver 2 "t7"]

end PlainRs.Chat
