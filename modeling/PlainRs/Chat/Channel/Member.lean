import PlainRs.Base.Runs
import PlainRs.Chat.Channel.Device

/-! The version a member keeps for a channel, against what it applied and what its user did. -/
namespace PlainRs.Chat

open Keyed Runs PlainRs.Crypto

/-- A device with its record for one channel: the owner and version of each invite or update it
applied, latest first, and how often the channel was renamed here since. -/
structure Member where
  service : ChatService
  applied : List (String × Int)
  renames : Nat

namespace Member

/-- The record after an action that changed the row of the channel. -/
def noted (s : Member) : DeviceAction → Member
  | .receive fromId (.invite msg) _ =>
    { s with applied := (fromId, msg.version) :: s.applied, renames := 0 }
  | .receive fromId (.update msg) _ =>
    { s with applied := (fromId, msg.version) :: s.applied, renames := 0 }
  | .updateChannelName _ _ _ => { s with renames := s.renames + 1 }
  | _ => s

def lastApplied (s : Member) : Int := (s.applied.head?.map (·.2)).getD 0

end Member

/-- A device that starts without channels, recording what happens to channel `c`. -/
def memberDevice (d : Dalek) (c : String) : System Member DeviceAction where
  init s := s.service.db.channels = Table.empty ∧ s.applied = [] ∧ s.renames = 0
  next s a :=
    let t := { s with service := (s.service.act d a).1 }
    if t.service.db.getChannelById c = s.service.db.getChannelById c then some t
    else some (t.noted a)

/-- The stored version of another device's channel counts the last applied message and the local
renames since. -/
def VersionCounts (c : String) (s : Member) : Prop :=
  ∀ ch, s.service.db.getChannelById c = some ch → ch.ownerId ≠ s.service.identity.clientId →
    ∃ v rest, s.applied = (ch.ownerId, v) :: rest ∧ ch.version = v + s.renames

variable {d : Dalek} {c : String} {s t : Member} {a : DeviceAction} {ch : DChannel}
  {msg : ChannelUpdate} {now : String}

@[simp] theorem service_noted : (s.noted a).service = s.service := by
  unfold Member.noted
  split <;> rfl

theorem service_memberDevice (h : (memberDevice d c).next s a = some t) :
    t.service = (s.service.act d a).1 := by
  simp only [memberDevice] at h
  split at h <;> cases h <;> simp

theorem versionCounts_step (h : VersionCounts c s) (ht : (memberDevice d c).next s a = some t) :
    VersionCounts c t := by
  intro ch hrow hown
  have hsvc := service_memberDevice ht
  rw [hsvc] at hrow hown
  rw [ChatService.identity_act] at hown
  have hs : s.service.RowStep d a c (s.service.db.getChannelById c) (some ch) :=
    hrow ▸ ChatService.rowStep_act
  simp only [memberDevice, hrow] at ht
  generalize hr : s.service.db.getChannelById c = r at hs ht
  cases hs with
  | same =>
    rw [if_pos rfl] at ht
    cases ht
    exact h ch hr hown
  | created => exact absurd rfl hown
  | renamed =>
    obtain ⟨v, rest, happ, hv⟩ := h _ hr hown
    rw [if_neg (by simpa using ChatService.renamed_ne)] at ht
    cases ht
    refine ⟨v, rest, happ, ?_⟩
    simp only [ChatService.renamed, Member.noted, hv]
    omega
  | left =>
    obtain ⟨v, rest, happ, hv⟩ := h _ hr hown
    split at ht <;> cases ht <;> exact ⟨v, rest, happ, hv⟩
  | kicked =>
    obtain ⟨v, rest, happ, hv⟩ := h _ hr hown
    split at ht <;> cases ht <;> exact ⟨v, rest, happ, hv⟩
  | invited =>
    rw [if_neg (by simp)] at ht
    cases ht
    exact ⟨_, _, rfl, by simp [Member.noted, ChatService.invitedChannel]⟩
  | reinvited hc ho hsig hj =>
    rw [if_neg (by simpa using ChatService.reinvited_ne hj)] at ht
    cases ht
    exact ⟨_, _, rfl, by simp [Member.noted, ChatService.reinvited]⟩
  | updated hc ho hp hsig hv =>
    rw [if_neg (by simpa using ChatService.updatedBy_ne hv)] at ht
    cases ht
    exact ⟨_, _, by rw [← ho]; rfl, by simp [Member.noted, ChatService.updatedBy]⟩
  | added ho => exact absurd ho hown
  | removed ho => exact absurd ho hown
  | accepted hc ho => exact absurd ho hown
  | declined hc ho => exact absurd ho hown
  | memberLeft hc ho => exact absurd ho hown

theorem versionCounts_initial (h : (memberDevice d c).init s) : VersionCounts c s := by
  intro ch hg
  simp only [ChatDb.getChannelById, h.1, Table.find?_empty] at hg
  cases hg

theorem versionCounts_reachable (h : Reachable (memberDevice d c) s) : VersionCounts c s :=
  h.invariant (fun _ => versionCounts_initial) fun _ _ _ => versionCounts_step

/-- The update is taken and the row has its name, members and version. -/
def UpdateApplied (d : Dalek) (svc : ChatService) (fromId now : String) (msg : ChannelUpdate) :
    Prop :=
  let out := svc.receivePeerChannelSystemMessage d fromId now (.update msg)
  out.result = true ∧ ∃ ch, out.service.db.getChannelById msg.channelId = some ch ∧
    ch.name = msg.channelName ∧ ch.members = msg.members ∧ ch.version = msg.version

/-- The signature passes under the key stored for the owner, if one is stored. -/
def CorrectlySigned (d : Dalek) (svc : ChatService) (ownerId : String) (msg : ChannelUpdate) : Prop :=
  ∀ owner, svc.db.getPeerById ownerId = some owner →
    ChatService.updateSigned d owner.publicKey msg = true

variable {svc : ChatService}

/-- A signed update from the stored owner is measured by the stored version alone. -/
theorem updateApplied_iff_version (hrow : svc.db.getChannelById msg.channelId = some ch)
    (hsig : CorrectlySigned d svc ch.ownerId msg) :
    UpdateApplied d svc ch.ownerId now msg ↔
      (svc.db.getPeerById ch.ownerId).isSome = true ∧ ch.version < msg.version := by
  simp only [UpdateApplied, ChatService.result_receive, ChatService.service_receive,
    ChatService.dispatch]
  cases hp : svc.db.getPeerById ch.ownerId with
  | none => simp [ChatService.handleUpdate, hrow, hp]
  | some owner =>
    have hs := hsig owner hp
    by_cases hv : msg.version ≤ ch.version
    · simp [ChatService.handleUpdate, hrow, hp, hs, hv]
    · have hw : ((createMissingPeers svc.db ch.ownerId now msg.memberPeers).updateChannel
          (ChatService.updatedBy now ch msg)).getChannelById msg.channelId =
            some (ChatService.updatedBy now ch msg) :=
        ChatService.writeBack_self (fun _ => ChatService.getChannelById_createMissingPeers) hrow
          rfl rfl
      simp [ChatService.handleUpdate, hrow, hp, hs, hv, hw]
      simp [ChatService.updatedBy, not_le.mp hv]

/-- An update ahead of everything the member applied from the owner is applied. -/
def UpdatesKept (d : Dalek) (c : String) : Prop :=
  ∀ s, Reachable (memberDevice d c) s → ∀ ch msg now, msg.channelId = c →
    s.service.db.getChannelById c = some ch → ch.ownerId ≠ s.service.identity.clientId →
    CorrectlySigned d s.service ch.ownerId msg →
    (∀ v, (ch.ownerId, v) ∈ s.applied → v < msg.version) →
    UpdateApplied d s.service ch.ownerId now msg

def demoMember : Member := ⟨demoBob, [], 0⟩

theorem demoMember_initial : (memberDevice d "c").init demoMember :=
  ⟨channels_demoService, rfl, rfl⟩

/-- Bob takes an invite at version 2 and renames the channel on his side. -/
def localRename : List DeviceAction :=
  [.receive "alice" (.invite (inviteMessage checksumDalek demoAlice (demoTeam 2) (demoPeer "bob" 2 9)))
    "t2", .updateChannelName "c" "My team" "t3"]

def demoUpdate (version : Int) : ChannelUpdate := updateMessage checksumDalek demoAlice (demoTeam version)

/-- The state `msg` arrives in, with its signature good and its version ahead of all applied. -/
def aheadOfApplied (msg : ChannelUpdate) (s : Member) : Bool :=
  (s.service.db.getChannelById "c").any (fun ch => ch.ownerId = "alice") &&
    s.service.identity.clientId = "bob" &&
    (s.service.db.getPeerById "alice").all (fun p => ChatService.updateSigned checksumDalek p.publicKey msg) &&
    s.applied.all (fun e => e.2 < msg.version)

theorem aheadOfApplied_spec (h : aheadOfApplied msg s = true) :
    ∃ ch, s.service.db.getChannelById "c" = some ch ∧ ch.ownerId = "alice" ∧
      ch.ownerId ≠ s.service.identity.clientId ∧
      CorrectlySigned checksumDalek s.service ch.ownerId msg ∧
      ∀ v, (ch.ownerId, v) ∈ s.applied → v < msg.version := by
  simp only [aheadOfApplied, Bool.and_eq_true, Option.any_eq_true, decide_eq_true_eq,
    Option.all_eq_true, List.all_eq_true] at h
  obtain ⟨⟨⟨⟨ch, hch, ho⟩, hid⟩, hsig⟩, happ⟩ := h
  refine ⟨ch, hch, ho, ?_, ?_, fun v hv => happ _ hv⟩
  · rw [ho, hid]
    decide
  · intro owner hp
    exact hsig owner (ho ▸ hp)

theorem localRename_reached : ∃ s, Reachable (memberDevice checksumDalek "c") s ∧
    aheadOfApplied (demoUpdate 4) s = true ∧ aheadOfApplied (demoUpdate 3) s = true ∧
    (s.service.receivePeerChannelSystemMessage checksumDalek "alice" "t4"
      (.update (demoUpdate 3))).result = false := by
  have hr : ((memberDevice checksumDalek "c").run (fun _ _ => True) demoMember localRename).any
      (fun s => aheadOfApplied (demoUpdate 4) s && aheadOfApplied (demoUpdate 3) s &&
        !(s.service.receivePeerChannelSystemMessage checksumDalek "alice" "t4"
          (.update (demoUpdate 3))).result) = true := by decide +kernel
  obtain ⟨s, hs, hp⟩ := ReachableUnder.of_run demoMember_initial hr
  simp only [Bool.and_eq_true, Bool.not_eq_true'] at hp
  exact ⟨s, hs, hp.1.1, hp.1.2, hp.2⟩

end PlainRs.Chat
