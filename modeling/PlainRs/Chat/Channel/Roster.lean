import PlainRs.Base.Runs
import PlainRs.Chat.Channel.Device

/-! Who is in the roster of a channel, on its owner, against what the owner did. -/
namespace PlainRs.Chat

open Keyed Runs PlainRs.Crypto

/-- A device and everything it did and received, latest first. -/
structure Traced where
  service : ChatService
  log : List DeviceAction

namespace DeviceAction

/-- The action takes `p` out of channel `c`. -/
def takesOut (c p : String) : DeviceAction → Bool
  | .removeChannelMember id peerId _ => id = c ∧ peerId = p
  | .receive fromId (.inviteDecline msg) _ => msg.channelId = c ∧ fromId = p
  | .receive fromId (.leave msg) _ => msg.channelId = c ∧ fromId = p
  | _ => false

/-- The owner invites `p` into channel `c`. -/
def adds (c p : String) : DeviceAction → Bool
  | .addChannelMember id peerId _ => id = c ∧ peerId = p
  | _ => false

/-- An acceptance from `p` for channel `c` arrives. -/
def accepts (c p : String) : DeviceAction → Bool
  | .receive fromId (.inviteAccept msg) _ => msg.channelId = c ∧ fromId = p
  | _ => false

def addsOrAccepts (c p : String) (a : DeviceAction) : Bool := a.adds c p || a.accepts c p

end DeviceAction

/-- A device that starts without channels. -/
def tracedDevice (d : Dalek) : System Traced DeviceAction where
  init s := s.service.db.channels = Table.empty ∧ s.log = []
  next s a :=
    if a.fromPeer s.service.identity.clientId then some ⟨(s.service.act d a).1, a :: s.log⟩
    else none

/-- Every other peer in the roster of a channel of ours was put there by an action that meets
`Q`, and by none that took it out since. -/
def RosterFrom (Q : String → String → DeviceAction → Bool) (s : Traced) : Prop :=
  ∀ c ch p, s.service.db.getChannelById c = some ch →
    ch.ownerId = s.service.identity.clientId → hasMember ch.members p = true →
    p ≠ s.service.identity.clientId → since (Q c p) (DeviceAction.takesOut c p) s.log = true

variable {d : Dalek} {svc : ChatService} {a : DeviceAction} {c p : String} {ch : DChannel}
  {s t : Traced}

@[simp] theorem hasMember_withoutMember {ms : List ChannelMember} :
    hasMember (withoutMember ms p) p = false := by
  simp [Bool.eq_false_iff]

theorem hasMember_of_withoutMember {ms : List ChannelMember} {q : String}
    (h : hasMember (withoutMember ms q) p = true) : hasMember ms p = true := by
  obtain ⟨m, hm, hp⟩ := hasMember_iff.mp h
  exact hasMember_iff.mpr ⟨m, (mem_withoutMember.mp hm).1, hp⟩

theorem hasMember_append_pending {ms : List ChannelMember} {q : String}
    (h : hasMember (ms ++ [.pending q]) p = true) : hasMember ms p = true ∨ p = q := by
  obtain ⟨m, hm, hp⟩ := hasMember_iff.mp h
  rcases List.mem_append.mp hm with hm | hm
  · exact .inl (hasMember_iff.mpr ⟨m, hm, hp⟩)
  · obtain rfl := List.mem_singleton.mp hm
    exact .inr hp.symm

theorem hasMember_joinMember {ms : List ChannelMember} {q : String}
    (h : hasMember (joinMember ms q) p = true) : hasMember ms p = true ∨ p = q := by
  obtain ⟨m, hm, hp⟩ := hasMember_iff.mp h
  rcases mem_joinMember hm with hm | rfl
  · exact .inl (hasMember_iff.mpr ⟨m, hm, hp⟩)
  · exact .inr hp.symm

section

variable (hg : svc.db.getChannelById c = some ch) (ho : ch.ownerId = svc.identity.clientId)

include hg ho

theorem row_remove {now : String} :
    ((svc.removeChannelMember d now c p).service.db.getChannelById c) =
      some (if hasMember ch.members p then
        ChatService.withRoster now ch (withoutMember ch.members p) else ch) := by
  simp only [ChatService.removeChannelMember, hg, ho, ne_eq, not_true_eq_false, if_false]
  split
  · next hm => simp [hm, hg]
  · next hm =>
    rw [if_pos (by simpa using hm)]
    exact ChatService.writeBack_self (fun _ => rfl) hg rfl rfl

theorem row_decline {now : String} {msg : ChannelInviteDecline} (hc : msg.channelId = c) :
    ((svc.handleInviteDecline p now msg).service.db.getChannelById c) =
      some (if hasMember ch.members p then
        ChatService.withRoster now ch (withoutMember ch.members p) else ch) := by
  subst hc
  simp only [ChatService.handleInviteDecline, hg, ho, ne_eq, not_true_eq_false, if_false]
  split
  · next hm => simp [hm, hg]
  · next hm =>
    rw [if_pos (by simpa using hm)]
    exact ChatService.writeBack_self (fun _ => rfl) hg rfl rfl

theorem row_leave {now : String} {msg : ChannelLeave} (hc : msg.channelId = c) :
    ((svc.handleLeave d p now msg).service.db.getChannelById c) =
      some (ChatService.withRoster now ch (withoutMember ch.members p)) := by
  subst hc
  simp only [ChatService.handleLeave, hg, ho, ne_eq, not_true_eq_false, if_false]
  exact ChatService.writeBack_self (fun _ => rfl) hg rfl rfl

end

/-- What takes a peer out leaves it out. -/
theorem not_hasMember_of_takesOut (ha : a.takesOut c p = true)
    (hg : (svc.act d a).1.db.getChannelById c = some ch)
    (ho : ch.ownerId = svc.identity.clientId) : hasMember ch.members p = false := by
  have hs : svc.RowStep d a c (svc.db.getChannelById c) (some ch) := hg ▸ ChatService.rowStep_act
  generalize hr : svc.db.getChannelById c = r at hs
  cases a with
  | removeChannelMember id peerId now =>
    obtain ⟨rfl, rfl⟩ : id = c ∧ peerId = p := by simpa [DeviceAction.takesOut] using ha
    cases hs with
    | removed => simp [ChatService.withRoster]
    | same =>
      have hrow : some ch = _ := hg.symm.trans (row_remove hr ho)
      split at hrow
      · rw [Option.some.inj hrow]
        exact hasMember_withoutMember
      · next hm => exact Bool.eq_false_iff.mpr hm
  | receive fromId m now =>
    cases m with
    | inviteDecline msg =>
      obtain ⟨hc, rfl⟩ : msg.channelId = c ∧ fromId = p := by
        simpa [DeviceAction.takesOut] using ha
      cases hs with
      | declined => simp [ChatService.withRoster]
      | same =>
        rw [ChatService.act, ChatService.service_receive] at hg
        have hrow : some ch = _ := hg.symm.trans (row_decline hr ho hc)
        split at hrow
        · rw [Option.some.inj hrow]
          exact hasMember_withoutMember
        · next hm => exact Bool.eq_false_iff.mpr hm
    | leave msg =>
      obtain ⟨hc, rfl⟩ : msg.channelId = c ∧ fromId = p := by
        simpa [DeviceAction.takesOut] using ha
      cases hs with
      | memberLeft => simp [ChatService.withRoster]
      | same =>
        rw [ChatService.act, ChatService.service_receive] at hg
        rw [Option.some.inj (hg.symm.trans (row_leave hr ho hc))]
        exact hasMember_withoutMember
    | _ => simp [DeviceAction.takesOut] at ha
  | _ => simp [DeviceAction.takesOut] at ha

/-- A peer in the roster after an action was there before, unless the action put it in. -/
theorem hasMember_before {r : Option DChannel} (hs : svc.RowStep d a c r (some ch))
    (hf : a.fromPeer svc.identity.clientId = true) (ho : ch.ownerId = svc.identity.clientId)
    (hm : hasMember ch.members p = true) (hp : p ≠ svc.identity.clientId)
    (hq : a.addsOrAccepts c p = false) :
    ∃ ch', r = some ch' ∧ ch'.ownerId = svc.identity.clientId ∧ hasMember ch'.members p = true := by
  cases hs with
  | same => exact ⟨ch, rfl, ho, hm⟩
  | created =>
    obtain ⟨m, hmem, hmp⟩ := hasMember_iff.mp hm
    obtain rfl := List.mem_singleton.mp hmem
    exact absurd hmp.symm hp
  | renamed => exact ⟨_, rfl, ho, hm⟩
  | left hn => exact absurd ho hn
  | added =>
    rcases hasMember_append_pending hm with hm | rfl
    · exact ⟨_, rfl, ho, hm⟩
    · simp [DeviceAction.addsOrAccepts, DeviceAction.adds] at hq
  | removed => exact ⟨_, rfl, ho, hasMember_of_withoutMember hm⟩
  | invited => simp [DeviceAction.fromPeer, ChatService.invitedChannel] at hf ho; exact absurd ho hf
  | reinvited => simp [DeviceAction.fromPeer, ChatService.reinvited] at hf ho; exact absurd ho hf
  | accepted hc =>
    rcases hasMember_joinMember hm with hm | rfl
    · exact ⟨_, rfl, ho, hm⟩
    · simp [DeviceAction.addsOrAccepts, DeviceAction.accepts, hc] at hq
  | declined => exact ⟨_, rfl, ho, hasMember_of_withoutMember hm⟩
  | updated hc hn => simp_all [DeviceAction.fromPeer, ChatService.updatedBy]
  | kicked hc hn => simp_all [DeviceAction.fromPeer, ChatService.kicked]
  | memberLeft => exact ⟨_, rfl, ho, hasMember_of_withoutMember hm⟩

theorem rosterFrom_step (h : RosterFrom DeviceAction.addsOrAccepts s)
    (ht : (tracedDevice d).next s a = some t) : RosterFrom DeviceAction.addsOrAccepts t := by
  simp only [tracedDevice] at ht
  split at ht
  · next hf =>
    cases ht
    intro c ch p hg ho hm hp
    rw [ChatService.identity_act] at ho hp
    have hout : a.takesOut c p = false := by
      by_contra hout
      have := not_hasMember_of_takesOut (by simpa using hout) hg ho
      simp [this] at hm
    cases hq : a.addsOrAccepts c p with
    | true => exact since_head hq
    | false =>
      have hs : s.service.RowStep d a c (s.service.db.getChannelById c) (some ch) :=
        hg ▸ ChatService.rowStep_act
      obtain ⟨ch', hr, ho', hm'⟩ := hasMember_before hs hf ho hm hp hq
      exact since_tail (h c ch' p hr ho' hm' hp) hout
  · cases ht

theorem rosterFrom_initial (h : (tracedDevice d).init s) : RosterFrom DeviceAction.addsOrAccepts s := by
  intro c ch p hg
  simp only [ChatDb.getChannelById, h.1, Table.find?_empty] at hg
  cases hg

/-- A peer is in the roster of a channel of ours only if, after it was last taken out, we added
it or it accepted. -/
theorem roster_granted_or_accepted (h : Reachable (tracedDevice d) s) :
    RosterFrom DeviceAction.addsOrAccepts s :=
  h.invariant (fun _ => rosterFrom_initial) fun _ _ _ => rosterFrom_step

/-- The end of a run shows `p` in the roster of a channel of ours. -/
def listsMember (c p : String) (s : Traced) : Bool :=
  (s.service.db.getChannelById c).any (fun ch =>
    ch.ownerId = s.service.identity.clientId && hasMember ch.members p) &&
    p ≠ s.service.identity.clientId

theorem RosterFrom.since_of_lists {Q : String → String → DeviceAction → Bool}
    (h : RosterFrom Q s) (hl : listsMember c p s = true) :
    since (Q c p) (DeviceAction.takesOut c p) s.log = true := by
  simp only [listsMember, Bool.and_eq_true, Option.any_eq_true, decide_eq_true_eq] at hl
  obtain ⟨⟨ch, hg, ho, hm⟩, hp⟩ := hl
  exact h c ch p hg ho hm hp

def demoOwner : Traced := ⟨demoAlice, []⟩

theorem demoOwner_initial : (tracedDevice d).init demoOwner := ⟨channels_demoService, rfl⟩

/-- Bob is invited and removed, and an acceptance from him then arrives. -/
def lateAcceptance : List DeviceAction :=
  [.createChannel "c" (List.replicate 32 7) "Team" "t1", .addChannelMember "c" "bob" "t2",
    .removeChannelMember "c" "bob" "t3",
    .receive "bob" (.inviteAccept ⟨"c", "", "Bob", .phone⟩) "t4"]

theorem lateAcceptance_granted_or_accepted : ∃ s, Reachable (tracedDevice checksumDalek) s ∧
    RosterFrom DeviceAction.addsOrAccepts s ∧ listsMember "c" "bob" s = true := by
  have hr : ((tracedDevice checksumDalek).run (fun _ _ => True) demoOwner lateAcceptance).any
      (listsMember "c" "bob") = true := by decide
  obtain ⟨s, hs, hl⟩ := ReachableUnder.of_run demoOwner_initial hr
  exact ⟨s, hs, roster_granted_or_accepted hs, hl⟩

/-- An acceptance alone brings back a peer the owner removed. -/
theorem lateAcceptance_not_granted :
    ¬ ∀ s, Reachable (tracedDevice checksumDalek) s → RosterFrom DeviceAction.adds s := by
  intro h
  have hr : ((tracedDevice checksumDalek).run (fun _ _ => True) demoOwner lateAcceptance).any
      (fun s => listsMember "c" "bob" s &&
        !since (DeviceAction.adds "c" "bob") (DeviceAction.takesOut "c" "bob") s.log) = true := by
    decide
  obtain ⟨s, hs, hl⟩ := ReachableUnder.of_run demoOwner_initial hr
  rw [Bool.and_eq_true] at hl
  simp [(h s hs).since_of_lists hl.1] at hl

end PlainRs.Chat
