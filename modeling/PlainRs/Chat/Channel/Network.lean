import PlainRs.Base.Runs
import PlainRs.Chat.Channel.Paired
import PlainRs.Chat.Channel.Signatures

/-! One owner and its paired members, with their messages in flight between them. -/
namespace PlainRs.Chat

open Keyed Runs PlainRs.Crypto PlainRs.Utils

/-- The owner, the device of each id, what was posted and has not arrived, and whether anything
posted was lost. -/
structure Network where
  owner : ChatService
  device : String → ChatService
  inFlight : List Post
  lost : Bool

inductive NetworkAction
  | owner (a : DeviceAction)
  | member (p : String) (a : DeviceAction)
  | deliver (i : Nat) (now : String)
  | lose (i : Nat)

namespace DeviceAction

/-- A drawn channel key has 32 bytes, and only a paired member is added. -/
def isOwnerOp (members : List String) : DeviceAction → Bool
  | .createChannel _ key _ _ => key.length = 32
  | .addChannelMember _ peerId _ => peerId ∈ members
  | .removeChannelMember _ _ _ | .updateChannelName _ _ _ => true
  | _ => false

end DeviceAction

namespace Network

def ownerId (s : Network) : String := s.owner.identity.clientId

def ownerRow (s : Network) (c : String) : Option DChannel := s.owner.db.getChannelById c

def row (s : Network) (p c : String) : Option DChannel := (s.device p).db.getChannelById c

def afterOwner (d : Dalek) (s : Network) (a : DeviceAction) : Network :=
  { s with
    owner := (s.owner.act d a).1
    inFlight := s.inFlight ++ (s.owner.act d a).2 }

def afterMember (d : Dalek) (s : Network) (p : String) (a : DeviceAction) : Network :=
  { s with
    device := Function.update s.device p ((s.device p).act d a).1
    inFlight := s.inFlight ++ ((s.device p).act d a).2 }

def without (s : Network) (i : Nat) : Network := { s with inFlight := s.inFlight.eraseIdx i }

/-- A post arrives at the device it is addressed to, from the device its `c-id` names. -/
def receive (d : Dalek) (s : Network) (post : Post) (now : String) : Network :=
  if post.peer.id = s.ownerId then s.afterOwner d (.receive post.clientId post.message now)
  else s.afterMember d post.peer.id (.receive post.clientId post.message now)

end Network

/-- Each of the two devices has a paired row for the other under one key, with its public key. -/
def PairedDevices (a b : ChatService) : Prop :=
  ∃ key, Paired a b.identity.clientId (selfPublicKey b.kpBytes) key ∧
    Paired b a.identity.clientId (selfPublicKey a.kpBytes) key

/-- Posts arrive at most once and in any order, or are lost. -/
def network (d : Dalek) (members : List String) : System Network NetworkAction where
  init s := d.Keypair s.owner.kpBytes ∧ s.owner.db.channels = Table.empty ∧
    s.owner.db.getPeerById s.ownerId = none ∧ s.ownerId ∉ members ∧
    (∀ p ∈ members, d.Keypair (s.device p).kpBytes ∧ (s.device p).identity.clientId = p ∧
      (s.device p).db.channels = Table.empty ∧ PairedDevices s.owner (s.device p)) ∧
    s.inFlight = [] ∧ s.lost = false
  next s
    | .owner a => if a.isOwnerOp members then some (s.afterOwner d a) else none
    | .member p a => if p ∈ members ∧ a.isMemberOp then some (s.afterMember d p a) else none
    | .deliver i now => s.inFlight[i]?.map fun post => (s.without i).receive d post now
    | .lose i => s.inFlight[i]?.map fun _ => { s.without i with lost := true }

/-- A view of the owner's row: no newer than it, and equal to it at the same version. -/
def Behind (ch : DChannel) (name : String) (members : List ChannelMember) (version : Int) : Prop :=
  version ≤ ch.version ∧ (version = ch.version → name = ch.name ∧ members = ch.members)

/-- The owner's row stays as it is or moves to a later version. -/
def Advances (r r' : Option DChannel) : Prop :=
  ∀ ch, r = some ch → ∃ ch', r' = some ch' ∧ (ch' = ch ∨ ch.version < ch'.version)

/-- An operation of the owner's, or an answer of a member that reaches it. -/
def OwnerInput (members : List String) (a : DeviceAction) : Prop :=
  a.isOwnerOp members = true ∨ ∃ fromId message now, a = .receive fromId message now ∧
    fromId ∈ members ∧ ChatService.isReply message = true

/-- What the owner's messages about its channels say. -/
def FromOwner (d : Dalek) (owner : ChatService) : ChannelSystemMessage → Prop
  | .invite msg => ∃ ch, owner.db.getChannelById msg.channelId = some ch ∧
      Behind ch msg.channelName msg.members msg.version
  | .update msg => (∃ ch, owner.db.getChannelById msg.channelId = some ch ∧
      Behind ch msg.channelName msg.members msg.version) ∧
      ChatService.updateSigned d (selfPublicKey owner.kpBytes) msg = true
  | .kick _ => True
  | _ => False

/-- An operation of a member's, or a message of the owner's that reaches it. -/
def MemberInput (d : Dalek) (owner : ChatService) (a : DeviceAction) : Prop :=
  a.isMemberOp = true ∨ ∃ message now, a = .receive owner.identity.clientId message now ∧
    FromOwner d owner message

/-- The owner's database: every channel is its own, can be broadcast and lists only members. -/
structure Owns (d : Dalek) (members : List String) (svc : ChatService) : Prop where
  keypair : d.Keypair svc.kpBytes
  noSelf : svc.db.getPeerById svc.identity.clientId = none
  apart : svc.identity.clientId ∉ members
  paired : ∀ p ∈ members, ∃ pk key, pk ≠ "" ∧ Paired svc p pk key
  rows : ∀ c ch, svc.db.getChannelById c = some ch → ch.ownerId = svc.identity.clientId ∧
    base64Decode ch.key ≠ [] ∧
    ∀ p, hasMember ch.members p = true → p = svc.identity.clientId ∨ p ∈ members

/-- A member's database: the owner's row, and no joined channel ahead of the owner's. -/
structure Follows (owner member : ChatService) (p : String) : Prop where
  identity : member.identity.clientId = p
  paired : ∃ key, Paired member owner.identity.clientId (selfPublicKey owner.kpBytes) key
  rows : ∀ c r, member.db.getChannelById c = some r → r.ownerId = owner.identity.clientId ∧
    (r.status = .joined → ∃ ch, owner.db.getChannelById c = some ch ∧
      Behind ch r.name r.members r.version)

/-- A post in flight is an answer to the owner or a message of the owner's. -/
def Routed (d : Dalek) (members : List String) (owner : ChatService) (post : Post) : Prop :=
  (post.peer.id = owner.identity.clientId ∧ post.clientId ∈ members ∧
    ChatService.isReply post.message = true) ∨
  (post.peer.id ∈ members ∧ post.clientId = owner.identity.clientId ∧ FromOwner d owner post.message)

structure Consistent (d : Dalek) (members : List String) (s : Network) : Prop where
  owns : Owns d members s.owner
  follows : ∀ p ∈ members, Follows s.owner (s.device p) p
  routed : ∀ post ∈ s.inFlight, Routed d members s.owner post

variable {d : Dalek} {members : List String} {svc owner member : ChatService} {a : DeviceAction}
  {s t : Network} {c p name : String} {ch ch' r : DChannel} {ms : List ChannelMember} {v : Int}
  {post : Post} {b : NetworkAction} {message : ChannelSystemMessage}

theorem Behind.self : Behind ch ch.name ch.members ch.version := ⟨le_refl _, fun _ => ⟨rfl, rfl⟩⟩

theorem Behind.mono (h : Behind ch name ms v) (ha : ch' = ch ∨ ch.version < ch'.version) :
    Behind ch' name ms v := by
  rcases ha with rfl | hlt
  · exact h
  · refine ⟨le_trans h.1 (le_of_lt hlt), fun he => ?_⟩
    have := h.1
    omega

theorem selfPublicKey_ne_empty (hk : d.Keypair svc.kpBytes) : selfPublicKey svc.kpBytes ≠ "" :=
  selfPublicKey_eq hk ▸ publicKey_ne_empty hk

theorem OwnerInput.not_deletesPeer (h : OwnerInput members a) : a.deletesPeer = false := by
  rcases h with h | ⟨_, _, _, rfl, -⟩
  · cases a <;> simp_all [DeviceAction.isOwnerOp, DeviceAction.deletesPeer]
  · rfl

theorem MemberInput.not_deletesPeer (h : MemberInput d owner a) : a.deletesPeer = false := by
  rcases h with h | ⟨_, _, rfl, -⟩
  · cases a <;> simp_all [DeviceAction.isMemberOp, DeviceAction.deletesPeer]
  · rfl

/-- Every step of the owner's row: nothing, a new row, or one version up. -/
theorem owner_rowStep (svc : ChatService) (ha : OwnerInput members a) :
    svc.db.getChannelById c = (svc.act d a).1.db.getChannelById c ∨
    (svc.db.getChannelById c = none ∧ ∃ key name now, a = .createChannel c key name now ∧
      (svc.act d a).1.db.getChannelById c = some (svc.newChannel now c key name)) ∨
    ∃ ch ch', svc.db.getChannelById c = some ch ∧
      (svc.act d a).1.db.getChannelById c = some ch' ∧ ch'.version = ch.version + 1 ∧
      ch'.ownerId = ch.ownerId ∧ ch'.key = ch.key ∧
      ∀ p, hasMember ch'.members p = true → hasMember ch.members p = true ∨ p ∈ members := by
  have hs : svc.RowStep d a c (svc.db.getChannelById c) ((svc.act d a).1.db.getChannelById c) :=
    ChatService.rowStep_act
  generalize hr : svc.db.getChannelById c = r at hs ⊢
  generalize (svc.act d a).1.db.getChannelById c = r' at hs ⊢
  cases hs with
  | same => exact .inl rfl
  | created => exact .inr (.inl ⟨rfl, _, _, _, rfl, rfl⟩)
  | renamed => exact .inr (.inr ⟨_, _, rfl, rfl, rfl, rfl, rfl, fun _ hm => .inl hm⟩)
  | deleted => simp [OwnerInput, DeviceAction.isOwnerOp] at ha
  | declinedInvite => simp [OwnerInput, DeviceAction.isOwnerOp] at ha
  | left => simp [OwnerInput, DeviceAction.isOwnerOp] at ha
  | @added _ p _ _ =>
    refine .inr (.inr ⟨_, _, rfl, rfl, rfl, rfl, rfl, fun q hm => ?_⟩)
    have hp : p ∈ members := by simpa [OwnerInput, DeviceAction.isOwnerOp] using ha
    obtain ⟨m, hmem, rfl⟩ := hasMember_iff.mp hm
    rcases List.mem_append.mp hmem with hmem | hmem
    · exact .inl (hasMember_iff.mpr ⟨m, hmem, rfl⟩)
    · obtain rfl := List.mem_singleton.mp hmem
      exact .inr hp
  | removed =>
    refine .inr (.inr ⟨_, _, rfl, rfl, rfl, rfl, rfl, fun q hm => .inl ?_⟩)
    obtain ⟨m, hmem, rfl⟩ := hasMember_iff.mp hm
    exact hasMember_iff.mpr ⟨m, (mem_withoutMember.mp hmem).1, rfl⟩
  | accepted =>
    refine .inr (.inr ⟨_, _, rfl, rfl, rfl, rfl, rfl, fun q hm => ?_⟩)
    obtain ⟨m, hmem, rfl⟩ := hasMember_iff.mp hm
    rcases mem_joinMember hmem with hmem | rfl
    · exact .inl (hasMember_iff.mpr ⟨m, hmem, rfl⟩)
    · rcases ha with ha | ⟨_, _, _, heq, hfrom, -⟩
      · simp [DeviceAction.isOwnerOp] at ha
      · obtain ⟨rfl, -, -⟩ := DeviceAction.receive.inj heq
        exact .inr hfrom
  | declined =>
    refine .inr (.inr ⟨_, _, rfl, rfl, rfl, rfl, rfl, fun q hm => .inl ?_⟩)
    obtain ⟨m, hmem, rfl⟩ := hasMember_iff.mp hm
    exact hasMember_iff.mpr ⟨m, (mem_withoutMember.mp hmem).1, rfl⟩
  | memberLeft =>
    refine .inr (.inr ⟨_, _, rfl, rfl, rfl, rfl, rfl, fun q hm => .inl ?_⟩)
    obtain ⟨m, hmem, rfl⟩ := hasMember_iff.mp hm
    exact hasMember_iff.mpr ⟨m, (mem_withoutMember.mp hmem).1, rfl⟩
  | invited | reinvited | updated | kicked =>
    simp [OwnerInput, DeviceAction.isOwnerOp, ChatService.isReply] at ha

theorem owner_advances (ha : OwnerInput members a) :
    Advances (svc.db.getChannelById c) ((svc.act d a).1.db.getChannelById c) := by
  intro ch hr
  rcases owner_rowStep (d := d) (c := c) svc ha with he | ⟨hn, -⟩ | ⟨ch₁, ch', hr₁, hr', hv, -⟩
  · exact ⟨ch, he ▸ hr, .inl rfl⟩
  · rw [hr] at hn
    cases hn
  · obtain rfl : ch₁ = ch := Option.some.inj (hr₁.symm.trans hr)
    exact ⟨ch', hr', .inr (by omega)⟩

theorem noSelf_act (h : Owns d members svc) (ha : OwnerInput members a) :
    (svc.act d a).1.db.getPeerById svc.identity.clientId = none := by
  rcases ha with hop | ⟨fromId, message, now, rfl, hfrom, hreply⟩
  · rw [getPeerById_act_local ?_ (OwnerInput.not_deletesPeer (.inl hop)), h.noSelf]
    rintro fromId message now rfl
    simp [DeviceAction.isOwnerOp] at hop
  · have hne : svc.identity.clientId ≠ fromId := by
      rintro he
      exact h.apart (he ▸ hfrom)
    rw [ChatService.act, ChatService.service_receive]
    cases message with
    | inviteAccept msg =>
      simp only [ChatService.dispatch, ChatService.handleInviteAccept]
      repeat' split
      all_goals try exact h.noSelf
      exact (getPeerById_recordAccepter_ne hne).trans h.noSelf
    | inviteDecline msg =>
      simp only [ChatService.dispatch, ChatService.handleInviteDecline]
      repeat' split
      all_goals exact h.noSelf
    | leave msg =>
      simp only [ChatService.dispatch, ChatService.handleLeave]
      repeat' split
      all_goals exact h.noSelf
    | _ => simp [ChatService.isReply] at hreply

theorem kpBytes_act : (svc.act d a).1.kpBytes = svc.kpBytes := by
  simp only [ChatService.kpBytes, ChatService.identity_act]

theorem owns_act (h : Owns d members svc) (ha : OwnerInput members a) :
    Owns d members (svc.act d a).1 := by
  refine ⟨?_, ?_, ?_, ?_, ?_⟩
  · rw [kpBytes_act]
    exact h.keypair
  · rw [ChatService.identity_act]
    exact noSelf_act h ha
  · rw [ChatService.identity_act]
    exact h.apart
  · intro p hp
    obtain ⟨pk, key, hpk, hpaired⟩ := h.paired p hp
    exact ⟨pk, key, hpk, paired_act hpaired hpk ha.not_deletesPeer⟩
  · intro c ch' hr'
    rw [ChatService.identity_act]
    rcases owner_rowStep (d := d) (c := c) svc ha with he | ⟨-, key, name, now, rfl, hnew⟩ |
      ⟨ch, ch₁, hr, hr₁, -, ho, hkey, hm⟩
    · exact h.rows c ch' (he.trans hr')
    · obtain rfl : _ = ch' := Option.some.inj (hnew.symm.trans hr')
      have hlen : key.length = 32 := by simpa [OwnerInput, DeviceAction.isOwnerOp] using ha
      refine ⟨rfl, ?_, fun p hp => .inl ?_⟩
      · simp only [ChatService.newChannel, base64Decode_encode]
        rintro rfl
        cases hlen
      · simpa [ChatService.newChannel, hasMember, ChannelMember.new, eq_comm] using hp
    · obtain rfl : ch₁ = ch' := Option.some.inj (hr₁.symm.trans hr')
      obtain ⟨hown, hk, hroster⟩ := h.rows c ch hr
      refine ⟨ho.trans hown, hkey ▸ hk, fun p hp => ?_⟩
      rcases hm p hp with hp | hp
      · exact hroster p hp
      · exact .inr hp

theorem fromOwner_act (ha : OwnerInput members a)
    (hf : FromOwner d owner message) : FromOwner d (owner.act d a).1 message := by
  have hadv : ∀ {c n m v}, (∃ ch, owner.db.getChannelById c = some ch ∧ Behind ch n m v) →
      ∃ ch, (owner.act d a).1.db.getChannelById c = some ch ∧ Behind ch n m v := by
    rintro c n m v ⟨ch, hr, hb⟩
    obtain ⟨ch', hr', hle⟩ := owner_advances ha ch hr
    exact ⟨ch', hr', hb.mono hle⟩
  cases message with
  | invite msg => exact hadv hf
  | update msg => exact ⟨hadv hf.1, by
      rw [kpBytes_act]
      exact hf.2⟩
  | kick msg => trivial
  | _ => exact hf

theorem follows_ownerAct (ha : OwnerInput members a)
    (hf : Follows owner member p) : Follows (owner.act d a).1 member p := by
  refine ⟨hf.identity, ?_, ?_⟩
  · rw [ChatService.identity_act, kpBytes_act]
    exact hf.paired
  · intro c r hr
    obtain ⟨ho, hj⟩ := hf.rows c r hr
    refine ⟨by rw [ChatService.identity_act, ho], fun hs => ?_⟩
    obtain ⟨ch, hch, hb⟩ := hj hs
    obtain ⟨ch', hch', hle⟩ := owner_advances ha ch hch
    exact ⟨ch', hch', hb.mono hle⟩

theorem routed_ownerAct (ha : OwnerInput members a)
    (hp : Routed d members owner post) : Routed d members (owner.act d a).1 post := by
  unfold Routed at hp ⊢
  rw [ChatService.identity_act]
  rcases hp with hp | ⟨hto, hfrom, hmsg⟩
  · exact .inl hp
  · exact .inr ⟨hto, hfrom, fromOwner_act ha hmsg⟩

/-- What the owner posts goes to members and describes the row it left. -/
theorem routed_ownerPost (hd : d.Sound) (h : Owns d members svc) (ha : OwnerInput members a)
    (hp : post ∈ (svc.act d a).2) : Routed d members (svc.act d a).1 post := by
  right
  rw [ChatService.identity_act]
  have hrows := (owns_act h ha).rows
  cases ChatService.postStep_act hp with
  | invite hr ho hr' hto hmsg hfrom =>
    refine ⟨?_, hfrom, ?_⟩
    · simpa [OwnerInput, DeviceAction.isOwnerOp, hto] using ha
    · have hid := ChatDb.id_of_getChannelById hr'
      rw [hmsg]
      exact ⟨_, by simpa only [inviteMessage, hid] using hr', .self⟩
  | update hr ho hr' hv hm hne hid hmsg hfrom =>
    have hkp : ∀ svc' : ChatService, svc'.identity = svc.identity →
        svc'.kpBytes = (svc.act d a).1.kpBytes := by
      intro svc' hi
      rw [kpBytes_act, ChatService.kpBytes, hi, ChatService.kpBytes]
    refine ⟨?_, hfrom, ?_⟩
    · rcases (hrows _ _ hr').2.2 _ hm with he | hmem
      · rw [ChatService.identity_act] at he
        exact absurd he hne
      · exact hmem
    · have hcid := ChatDb.id_of_getChannelById hr'
      rw [hmsg]
      refine ⟨⟨_, by simpa only [updateMessage, hcid] using hr', .self⟩, ?_⟩
      rw [← hkp _ hid]
      exact signedAction_passes hd (hkp _ hid ▸ (owns_act h ha).keypair)
  | kick hr ho hr' hto hmsg hfrom hm hpeer =>
    refine ⟨?_, hfrom, hmsg ▸ trivial⟩
    rcases (h.rows _ _ hr).2.2 _ hm with rfl | hmem
    · rw [h.noSelf] at hpeer
      cases hpeer
    · exact hto ▸ hmem
  | deleteKick => simp [OwnerInput, DeviceAction.isOwnerOp] at ha
  | reply hop =>
    rcases ha with ha | ⟨_, _, _, rfl, -⟩
    · cases a <;> simp_all [DeviceAction.isOwnerOp, DeviceAction.isMemberOp]
    · simp [DeviceAction.isMemberOp] at hop

/-- A member's row after a step of its own: as it was, gone, not joined, or what an invite or an
update of the owner's says. -/
theorem member_rowStep (h : Follows owner member p)
    (ha : MemberInput d owner a) :
    (member.act d a).1.db.getChannelById c = member.db.getChannelById c ∨
    ∀ r', (member.act d a).1.db.getChannelById c = some r' →
      r'.ownerId = owner.identity.clientId ∧ (r'.status = .joined →
        ∃ ch, owner.db.getChannelById c = some ch ∧ Behind ch r'.name r'.members r'.version) := by
  have hs : member.RowStep d a c (member.db.getChannelById c)
      ((member.act d a).1.db.getChannelById c) := ChatService.rowStep_act
  have hrows := h.rows c
  have hid := h.identity
  generalize member.db.getChannelById c = r at hs hrows ⊢
  generalize (member.act d a).1.db.getChannelById c = r' at hs ⊢
  cases hs with
  | same => exact .inl rfl
  | declinedInvite => exact .inr nofun
  | left =>
    refine .inr fun r' hr' => ?_
    obtain rfl := Option.some.inj hr'
    exact ⟨(hrows _ rfl).1, nofun⟩
  | invited hc =>
    obtain ⟨rfl, hmsg⟩ : _ = owner.identity.clientId ∧ _ := by
      simpa [MemberInput, DeviceAction.isMemberOp, FromOwner] using ha
    refine .inr fun r' hr' => ?_
    obtain rfl := Option.some.inj hr'
    exact ⟨rfl, fun _ => hc ▸ hmsg⟩
  | reinvited hc =>
    obtain ⟨rfl, hmsg⟩ : _ = owner.identity.clientId ∧ _ := by
      simpa [MemberInput, DeviceAction.isMemberOp, FromOwner] using ha
    refine .inr fun r' hr' => ?_
    obtain rfl := Option.some.inj hr'
    exact ⟨rfl, fun _ => hc ▸ hmsg⟩
  | updated hc ho =>
    obtain ⟨rfl, hmsg, -⟩ : _ = owner.identity.clientId ∧ _ := by
      simpa [MemberInput, DeviceAction.isMemberOp, FromOwner] using ha
    refine .inr fun r' hr' => ?_
    obtain rfl := Option.some.inj hr'
    exact ⟨ho, fun _ => hc ▸ hmsg⟩
  | kicked =>
    refine .inr fun r' hr' => ?_
    obtain rfl := Option.some.inj hr'
    exact ⟨(hrows _ rfl).1, nofun⟩
  | _ => simp [MemberInput, DeviceAction.isMemberOp, FromOwner] at ha

theorem follows_memberAct (hk : d.Keypair owner.kpBytes) (h : Follows owner member p)
    (ha : MemberInput d owner a) : Follows owner (member.act d a).1 p := by
  refine ⟨?_, ?_, ?_⟩
  · rw [ChatService.identity_act, h.identity]
  · obtain ⟨key, hp⟩ := h.paired
    exact ⟨key, paired_act hp (selfPublicKey_ne_empty hk) ha.not_deletesPeer⟩
  · intro c r' hr'
    rcases member_rowStep (c := c) h ha with he | hnew
    · exact h.rows c r' (he ▸ hr')
    · exact hnew r' hr'

/-- What a member posts is an answer to the owner. -/
theorem routed_memberPost (h : Follows owner member p) (hp : p ∈ members)
    (hne : owner.identity.clientId ≠ p) (ha : MemberInput d owner a) (hpost : post ∈ (member.act d a).2) :
    Routed d members owner post := by
  left
  cases ChatService.postStep_act hpost with
  | reply hop hr hto hmsg hfrom =>
    exact ⟨hto.trans (h.rows _ _ hr).1, hfrom.trans h.identity ▸ hp, hmsg⟩
  | update hr ho => exact absurd ((h.rows _ _ hr).1.symm.trans (ho.trans h.identity)) hne
  | _ => simp [MemberInput, DeviceAction.isMemberOp] at ha

theorem consistent_afterOwner (hd : d.Sound) (h : Consistent d members s)
    (ha : OwnerInput members a) : Consistent d members (s.afterOwner d a) := by
  refine ⟨owns_act h.owns ha, fun p hp => follows_ownerAct ha (h.follows p hp), ?_⟩
  intro post hpost
  rcases List.mem_append.mp hpost with hpost | hpost
  · exact routed_ownerAct ha (h.routed post hpost)
  · exact routed_ownerPost hd h.owns ha hpost

theorem consistent_afterMember (h : Consistent d members s) (hp : p ∈ members)
    (ha : MemberInput d s.owner a) : Consistent d members (s.afterMember d p a) := by
  refine ⟨h.owns, ?_, ?_⟩
  · intro q hq
    by_cases he : q = p
    · subst he
      simpa [Network.afterMember] using follows_memberAct h.owns.keypair (h.follows q hq) ha
    · simpa [Network.afterMember, he] using h.follows q hq
  · intro post hpost
    rcases List.mem_append.mp hpost with hpost | hpost
    · exact h.routed post hpost
    · have hne : s.owner.identity.clientId ≠ p := by
        rintro rfl
        exact h.owns.apart hp
      exact routed_memberPost (h.follows p hp) hp hne ha hpost

theorem consistent_without {i : Nat} (h : Consistent d members s) :
    Consistent d members (s.without i) :=
  ⟨h.owns, h.follows, fun post hp => h.routed post (List.mem_of_mem_eraseIdx hp)⟩

/-- A post that arrives is an input of the device it is addressed to. -/
theorem input_of_routed (h : Consistent d members s) (hp : Routed d members s.owner post)
    {now : String} :
    (post.peer.id = s.ownerId ∧ OwnerInput members (.receive post.clientId post.message now)) ∨
    (post.peer.id ≠ s.ownerId ∧ post.peer.id ∈ members ∧
      MemberInput d s.owner (.receive post.clientId post.message now)) := by
  rcases hp with ⟨hto, hfrom, hmsg⟩ | ⟨hto, hfrom, hmsg⟩
  · exact .inl ⟨hto, .inr ⟨_, _, _, rfl, hfrom, hmsg⟩⟩
  · refine .inr ⟨?_, hto, .inr ⟨_, _, by rw [hfrom], hmsg⟩⟩
    intro he
    have hself : s.ownerId ∈ members := he ▸ hto
    exact h.owns.apart hself

theorem consistent_receive (hd : d.Sound) (h : Consistent d members s)
    (hp : Routed d members s.owner post) {now : String} :
    Consistent d members (s.receive d post now) := by
  unfold Network.receive
  rcases input_of_routed h hp with ⟨hto, ha⟩ | ⟨hto, hmem, ha⟩
  · rw [if_pos hto]
    exact consistent_afterOwner hd h ha
  · rw [if_neg hto]
    exact consistent_afterMember h hmem ha

theorem consistent_step (hd : d.Sound) (h : Consistent d members s)
    (ht : (network d members).next s b = some t) : Consistent d members t := by
  cases b with
  | owner a =>
    simp only [network, Option.ite_none_right_eq_some, Option.some.injEq] at ht
    obtain ⟨ha, rfl⟩ := ht
    exact consistent_afterOwner hd h (.inl ha)
  | member p a =>
    simp only [network, Option.ite_none_right_eq_some, Option.some.injEq] at ht
    obtain ⟨⟨hp, ha⟩, rfl⟩ := ht
    exact consistent_afterMember h hp (.inl ha)
  | deliver i now =>
    obtain ⟨post, hpost, rfl⟩ := Option.map_eq_some_iff.mp ht
    exact consistent_receive hd (consistent_without h)
      (h.routed post (List.mem_of_getElem? hpost))
  | lose i =>
    obtain ⟨post, hpost, rfl⟩ := Option.map_eq_some_iff.mp ht
    obtain ⟨ho, hf, hr⟩ := consistent_without (i := i) h
    exact ⟨ho, hf, hr⟩

theorem consistent_initial (h : (network d members).init s) : Consistent d members s := by
  obtain ⟨hk, hempty, hself, hapart, hm, hflight, -⟩ := h
  refine ⟨⟨hk, hself, hapart, ?_, ?_⟩, ?_, by simp [hflight]⟩
  · intro p hp
    obtain ⟨hkp, hid, -, key, hpaired, -⟩ := hm p hp
    rw [hid] at hpaired
    exact ⟨_, key, selfPublicKey_ne_empty hkp, hpaired⟩
  · intro c ch hr
    simp [ChatDb.getChannelById, hempty] at hr
  · intro p hp
    obtain ⟨-, hid, hchannels, key, -, hpaired⟩ := hm p hp
    refine ⟨hid, ⟨key, hpaired⟩, fun c r hr => ?_⟩
    simp [ChatDb.getChannelById, hchannels] at hr

theorem consistent_reachable (hd : d.Sound) (h : Reachable (network d members) s) :
    Consistent d members s :=
  Reachable.invariant (fun _ => consistent_initial) (fun _ _ _ => consistent_step hd) h

end PlainRs.Chat
