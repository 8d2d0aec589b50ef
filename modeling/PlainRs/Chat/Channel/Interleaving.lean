import PlainRs.Base.ReadWrite
import PlainRs.Chat.Channel.Device

/-! The owner's roster operations run concurrently, their database reads and writes interleaved. -/
namespace PlainRs.Chat

open ReadWrite Runs PlainRs.Crypto ChatService

inductive RosterOp
  | inviteAccept (fromId publicKey name : String) (deviceType : DeviceType) (now : String)
  | inviteDecline (fromId now : String)
  | leave (fromId now : String)
  | addMember (peerId now : String)
  | removeMember (peerId now : String)
  | rename (name now : String)

namespace RosterOp

/-- The operation on channel `c`, as the device runs it. -/
def action (c : String) : RosterOp → DeviceAction
  | inviteAccept fromId publicKey name deviceType now =>
    .receive fromId (.inviteAccept ⟨c, publicKey, name, deviceType⟩) now
  | inviteDecline fromId now => .receive fromId (.inviteDecline ⟨c⟩) now
  | leave fromId now => .receive fromId (.leave ⟨c⟩) now
  | addMember peerId now => .addChannelMember c peerId now
  | removeMember peerId now => .removeChannelMember c peerId now
  | rename name now => .updateChannelName c name now

/-- What the operation hands to `update_channel`, given the row that `get_channel_by_id` returned;
`none` where it returns before that. -/
def write (clientId : String) : RosterOp → DChannel → Option DChannel
  | inviteAccept fromId _ _ _ now, ch =>
    if ch.ownerId ≠ clientId then none else some (withRoster now ch (joinMember ch.members fromId))
  | inviteDecline fromId now, ch =>
    if ch.ownerId ≠ clientId then none
    else if hasMember ch.members fromId = false then none
    else some (withRoster now ch (withoutMember ch.members fromId))
  | leave fromId now, ch =>
    if ch.ownerId ≠ clientId then none
    else some (withRoster now ch (withoutMember ch.members fromId))
  | addMember peerId now, ch =>
    if ch.ownerId ≠ clientId then none
    else if hasMember ch.members peerId then none
    else some (withRoster now ch (ch.members ++ [.pending peerId]))
  | removeMember peerId now, ch =>
    if ch.ownerId ≠ clientId then none
    else if hasMember ch.members peerId = false then none
    else some (withRoster now ch (withoutMember ch.members peerId))
  | rename name now, ch => some (renamed now ch name)

end RosterOp

variable {d : Dalek} {svc : ChatService} {c clientId : String} {ch ch' : DChannel} {op : RosterOp}

/-- Every write is of the row read, one version up. -/
theorem version_write (h : op.write clientId ch = some ch') :
    ch'.id = ch.id ∧ ch'.createdAt = ch.createdAt ∧ ch'.version = ch.version + 1 := by
  cases op <;> simp only [RosterOp.write] at h <;> (repeat' split at h) <;> cases h <;>
    exact ⟨rfl, rfl, rfl⟩

/-- Run alone, an operation of the device is its read followed by its write. -/
theorem action_eq_write (hc : c ≠ "") (hrow : svc.db.getChannelById c = some ch) :
    (svc.act d (op.action c)).1.db.getChannelById c =
      some ((op.write svc.identity.clientId ch).getD ch) := by
  cases op with
  | inviteAccept fromId publicKey name deviceType now =>
    simp only [RosterOp.action, act, service_receive, dispatch, handleInviteAccept, hc, if_false,
      hrow, RosterOp.write]
    split
    · exact hrow
    · exact writeBack_self (fun _ => getChannelById_recordAccepter) hrow rfl rfl
  | inviteDecline fromId now =>
    simp only [RosterOp.action, act, service_receive, dispatch, handleInviteDecline, hrow,
      RosterOp.write]
    split
    · exact hrow
    · split
      · exact hrow
      · exact writeBack_self (fun _ => rfl) hrow rfl rfl
  | leave fromId now =>
    simp only [RosterOp.action, act, service_receive, dispatch, handleLeave, hrow, RosterOp.write]
    split
    · exact hrow
    · exact writeBack_self (fun _ => rfl) hrow rfl rfl
  | addMember peerId now =>
    simp only [RosterOp.action, act, addChannelMember, hrow, RosterOp.write]
    split
    · exact hrow
    · split
      · exact hrow
      · exact writeBack_self (fun _ => rfl) hrow rfl rfl
  | removeMember peerId now =>
    simp only [RosterOp.action, act, removeChannelMember, hrow, RosterOp.write]
    split
    · exact hrow
    · split
      · exact hrow
      · exact writeBack_self (fun _ => rfl) hrow rfl rfl
  | rename name now =>
    simp only [RosterOp.action, act, updateChannelName, hrow, RosterOp.write]
    exact writeBack_self (fun _ => rfl) hrow rfl rfl

/-- The device after the operations, one running to its end before the next begins. -/
def runSequentially (d : Dalek) (svc : ChatService) (as : List DeviceAction) : ChatService :=
  as.foldl (fun svc a => (svc.act d a).1) svc

theorem runSequentially_row {ι : Type} {ops : ι → RosterOp} {order : List ι} (hc : c ≠ "")
    (hrow : svc.db.getChannelById c = some ch) :
    (runSequentially d svc (order.map fun i => (ops i).action c)).db.getChannelById c =
      some (order.foldl (exec fun i => (ops i).write svc.identity.clientId) ch) := by
  induction order generalizing svc ch with
  | nil => exact hrow
  | cons i order ih =>
    have hstep : (svc.act d ((ops i).action c)).1.db.getChannelById c = _ :=
      action_eq_write hc hrow
    have hrest := ih hstep
    rw [identity_act] at hrest
    exact hrest

/-- Operation `i` of `ops` on channel `c` of the device, each split into its read and its write. -/
def concurrentOps {n : Nat} (clientId : String) (ops : Fin n → RosterOp) (ch : DChannel) :
    System (State (Fin n) DChannel) (Action (Fin n)) :=
  system (fun i => (ops i).write clientId) ch

/-- The final row has the roster, name and version of some sequential run of the same operations,
and no two of them wrote the same version. -/
def Linearizes (d : Dalek) (svc : ChatService) (c : String) {n : Nat} (ops : Fin n → RosterOp)
    (s : State (Fin n) DChannel) : Prop :=
  (∃ order : List (Fin n), order.Nodup ∧ (∀ i, i ∈ order) ∧
    ∃ ch, (runSequentially d svc (order.map fun i => (ops i).action c)).db.getChannelById c = some ch ∧
      s.value.members = ch.members ∧ s.value.name = ch.name ∧ s.value.version = ch.version) ∧
    (s.written.map DChannel.version).Nodup

/-- Roster operations whose writes do not fall between each other's read and write linearize. -/
theorem undisturbed_linearizes {n : Nat} {ops : Fin n → RosterOp} {s : State (Fin n) DChannel}
    (hc : c ≠ "") (hrow : svc.db.getChannelById c = some ch)
    (h : ReachableUnder (concurrentOps svc.identity.clientId ops ch) Undisturbed s)
    (hf : Finished s) : Linearizes d svc c ops s := by
  have hclock : ∀ i v w, (ops i).write svc.identity.clientId v = some w → v.version < w.version := by
    intro i v w hw
    have := (version_write hw).2.2
    omega
  obtain ⟨-, ho, hs, hr⟩ := undisturbed_invariant hclock h
  refine ⟨⟨s.order, ho.1, fun i => (ho.2 i).mpr (hf i), s.value, ?_, rfl, rfl, rfl⟩, ?_⟩
  · rw [runSequentially_row hc hrow, hs]
  · exact hr.1.imp fun hgt => ne_of_gt hgt

/-- Two acceptances that both read the roster before either writes it. -/
def twoAcceptances : Fin 2 → RosterOp
  | 0 => .inviteAccept "bob" "" "Bob" .phone "t2"
  | 1 => .inviteAccept "carol" "" "Carol" .phone "t3"

def demoInvited : DChannel :=
  { demoTeam 3 with members := [.new "alice", .pending "bob", .pending "carol"] }

def demoAliceWith (ch : DChannel) : ChatService :=
  { demoAlice with db := demoAlice.db.insertChannel ch }

theorem demoAliceWith_row : (demoAliceWith ch).db.getChannelById ch.id = some ch := by
  have h : demoAlice.db.getChannelById ch.id = none := by
    simp [ChatDb.getChannelById, demoAlice, channels_demoService]
  rw [demoAliceWith, ChatDb.getChannelById_insertChannel h, if_pos rfl]

def overlapping : List (Action (Fin 2)) := [.get 0, .get 1, .put 0, .put 1]

def oneByOne : List (Action (Fin 2)) := [.get 0, .put 0, .get 1, .put 1]

/-- The test of a run's end: both operations are done, and the row is at version `v`. -/
def doneAt (v : Int) (s : State (Fin 2) DChannel) : Bool :=
  (s.phase 0).isDone && (s.phase 1).isDone && s.value.version = v

theorem finished_of_doneAt {v : Int} {s : State (Fin 2) DChannel} (h : doneAt v s = true) :
    Finished s ∧ s.value.version = v := by
  simp only [doneAt, Bool.and_eq_true, decide_eq_true_eq] at h
  exact ⟨finished_iff.mpr (Fin.forall_fin_two.mpr h.1), h.2⟩

theorem oneByOne_linearizes : ∃ s, ReachableUnder
    (concurrentOps "alice" twoAcceptances demoInvited) Undisturbed s ∧ s.value.version = 5 ∧
      Linearizes checksumDalek (demoAliceWith demoInvited) "c" twoAcceptances s := by
  have hr : ((concurrentOps "alice" twoAcceptances demoInvited).run Undisturbed
      ⟨demoInvited, fun _ => .idle, [], []⟩ oneByOne).any (doneAt 5) = true := by decide
  obtain ⟨s, hs, hp⟩ := ReachableUnder.of_run rfl hr
  obtain ⟨hf, hv⟩ := finished_of_doneAt hp
  have hrow : (demoAliceWith demoInvited).db.getChannelById "c" = some demoInvited :=
    demoAliceWith_row
  exact ⟨s, hs, hv, undisturbed_linearizes (by decide) hrow hs hf⟩

/-- Alone, each of the two acceptances moves the version up by one. -/
theorem twoAcceptances_version {order : List (Fin 2)} (hn : order.Nodup) (hall : ∀ i, i ∈ order) :
    (order.foldl (exec fun i => (twoAcceptances i).write "alice") demoInvited).version = 5 := by
  have hperm : order.Perm (List.finRange 2) :=
    (List.perm_ext_iff_of_nodup hn (List.nodup_finRange 2)).mpr (by simp [hall])
  obtain ⟨i, j, rfl⟩ := List.length_eq_two.mp hperm.length_eq
  have hij : i ≠ j := by simpa using hn
  revert i j
  decide

/-- The second write undoes the first acceptance. -/
theorem overlapping_not_linearizable : ¬ ∀ (svc : ChatService) (c : String) (ch : DChannel) (n : Nat)
    (ops : Fin n → RosterOp) (s : State (Fin n) DChannel), c ≠ "" →
      svc.db.getChannelById c = some ch →
      Reachable (concurrentOps svc.identity.clientId ops ch) s → Finished s →
      Linearizes checksumDalek svc c ops s := by
  intro h
  have hr : ((concurrentOps "alice" twoAcceptances demoInvited).run (fun _ _ => True)
      ⟨demoInvited, fun _ => .idle, [], []⟩ overlapping).any (doneAt 4) = true := by decide
  obtain ⟨s, hs, hp⟩ := ReachableUnder.of_run rfl hr
  obtain ⟨hf, hv⟩ := finished_of_doneAt hp
  have hrow : (demoAliceWith demoInvited).db.getChannelById "c" = some demoInvited :=
    demoAliceWith_row
  obtain ⟨⟨order, hn, hall, ch, hseq, -, -, hver⟩, -⟩ :=
    h (demoAliceWith demoInvited) "c" demoInvited 2 twoAcceptances s (by decide) hrow hs hf
  rw [runSequentially_row (by decide) hrow] at hseq
  have hfive := twoAcceptances_version hn hall
  have hch := congrArg DChannel.version (Option.some.inj hseq)
  rw [show (demoAliceWith demoInvited).identity.clientId = "alice" from rfl, hfive, ← hver, hv] at hch
  exact absurd hch (by decide)

end PlainRs.Chat
