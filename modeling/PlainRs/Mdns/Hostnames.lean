import PlainRs.Base.Along
import PlainRs.Mdns.Merged
import PlainRs.Mdns.PacketWriter

/-! Whether a hostname is mapped to the instance whose SRV target it is. -/
namespace PlainRs.Mdns

open Runs

inductive BrowserAction
  | packet (data : Bytes) (sender : String) (now : Nat)
  | clearInstances

/-- The browser under packets from the network, as far as it handles them, and under
`clear_instances`. -/
def browserRuns (inner : Inner) : System BrowserState BrowserAction where
  init s := s = .default
  next s a := match a with
    | .packet data sender now => (handlePacket inner s data sender now).toOption.map Handled.state
    | .clearInstances => some .default

/-- Each hostname leads to an instance that is there and whose target it is. -/
def HostsFollow (inner : Inner) (s : BrowserState) : Prop :=
  ∀ h k, s.hostnameToInstance h = some k →
    ∃ i, s.instances k = some i ∧ inner.toLowercase i.targetHostname = h

/-- The last SRV record of an instance names each hostname that stays mapped to the instance. -/
def KeepsTargets (inner : Inner) (hosts : String → Option String) (es : List Entry) : Prop :=
  ∀ h k, hostAfter inner hosts es h = some k → ∀ port target,
    es.reverse.findSome? (·.srvOf k) = some (port, target) → inner.toLowercase target = h

def PacketKeepsTargets (inner : Inner) (s : BrowserState) : BrowserAction → Prop
  | .packet data sender _ => ∀ records, response inner data sender = some records →
      KeepsTargets inner (s.withdraw (goodbyeKeys inner records)).hostnameToInstance
        (liveEntries inner records)
  | .clearInstances => True

/-- An instance's addresses are as before, or those the packet carries for its target. -/
def AddressesFollow (inner : Inner) (s t : BrowserState) : BrowserAction → Prop
  | .packet data sender _ => ∀ records, response inner data sender = some records → ∀ k i,
      t.instances k = some i →
      let known := (s.withdraw (goodbyeKeys inner records)).instances k
      (i.ips = known.elim ∅ (·.ips) ∨ ∀ ip, ip ∈ i.ips ↔
        .a (inner.toLowercase i.targetHostname) ip ∈ liveEntries inner records) ∧
      (i.addrsV6 = known.elim ∅ (·.addrsV6) ∨ ∀ addr, addr ∈ i.addrsV6 ↔
        .aaaa (inner.toLowercase i.targetHostname) addr ∈ liveEntries inner records)
  | .clearInstances => ∀ k, t.instances k = none

variable {inner : Inner} {s t : BrowserState} {a : BrowserAction} {as : List BrowserAction}
  {e : Entry} {es : List Entry} {h k : String} {i : Instance} {goodbye : Finset String} {now : Nat}
  {hosts : String → Option String} {hs : List String} {known : Option Instance}

theorem mapsTo_eq_some (he : e.mapsTo inner h = some k) : ∃ name port target,
    e = .srv k name port target ∧ target ≠ "" ∧ inner.toLowercase target = h := by
  cases e with
  | srv key name port target =>
    simp only [Entry.mapsTo] at he
    split at he
    · next ht =>
      cases he
      exact ⟨name, port, target, rfl, ht⟩
    · cases he
  | _ => cases he

theorem target_handled {t : Instance} (ht : (handled inner s goodbye es now).state.instances k = some t) :
    ∃ i, ((s.withdraw goodbye).instances k).or ((es.findSome? (·.nameFor k)).map (.new k)) = some i ∧
      t.targetHostname = ((es.reverse.findSome? (·.srvOf k)).getD (i.port, i.targetHostname)).2 := by
  rw [instances_handled, instances_merged_eq] at ht
  obtain ⟨i, hi, rfl⟩ := Option.map_eq_some_iff.mp ht
  exact ⟨i, hi, congrArg Prod.snd (@srv_told es k i)⟩

/-- An instance that a hostname leads to after the packet was named in it, or was known. -/
theorem known_of_hostAfter (hs : HostsFollow inner s)
    (hh : hostAfter inner (s.withdraw goodbye).hostnameToInstance es h = some k) :
    (∃ e ∈ es, e.mapsTo inner h = some k) ∨
      ∃ i, (s.withdraw goodbye).instances k = some i ∧ inner.toLowercase i.targetHostname = h := by
  rw [hostAfter, Option.or_eq_some_iff] at hh
  rcases hh with hsrv | ⟨-, hstate⟩
  · obtain ⟨e, he, hk⟩ := List.exists_of_findSome?_eq_some hsrv
    exact .inl ⟨e, List.mem_reverse.mp he, hk⟩
  · right
    simp only [BrowserState.withdraw, Option.filter_eq_some_iff, decide_eq_true_eq] at hstate
    obtain ⟨i, hi, hl⟩ := hs h k hstate.1
    exact ⟨i, by simp [BrowserState.withdraw, hstate.2, hi], hl⟩

theorem hostsFollow_handled (hs : HostsFollow inner s) :
    HostsFollow inner (handled inner s goodbye es now).state ↔
      KeepsTargets inner (s.withdraw goodbye).hostnameToInstance es := by
  constructor
  · intro ht h k hh port target hsrv
    rw [← hosts_merged, ← @hosts_handled _ _ _ _ now] at hh
    obtain ⟨t, hti, hl⟩ := ht h k hh
    obtain ⟨i, -, htarget⟩ := target_handled hti
    rw [hsrv, Option.getD_some] at htarget
    rw [htarget] at hl
    exact hl
  · intro hkeep h k hh
    rw [hosts_handled, hosts_merged] at hh
    have hknown : (((s.withdraw goodbye).instances k).or
        ((es.findSome? (·.nameFor k)).map (.new k))).isSome = true := by
      rcases known_of_hostAfter hs hh with ⟨e, he, hm⟩ | ⟨i, hi, -⟩
      · obtain ⟨name, port, target, rfl, -, -⟩ := mapsTo_eq_some hm
        have hname : (es.findSome? (·.nameFor k)).isSome = true :=
          List.findSome?_isSome_iff.mpr ⟨_, he, by simp [Entry.nameFor, Entry.names]⟩
        rw [Option.isSome_or, Option.isSome_map, hname, Bool.or_true]
      · simp [hi]
    obtain ⟨i, hi⟩ := Option.isSome_iff_exists.mp hknown
    have hti : ∃ t, (handled inner s goodbye es now).state.instances k = some t := by
      rw [instances_handled, instances_merged_eq, hi]
      exact ⟨_, rfl⟩
    obtain ⟨t, hti⟩ := hti
    refine ⟨t, hti, ?_⟩
    obtain ⟨i', hi', htarget⟩ := target_handled hti
    rw [htarget]
    cases hsrv : es.reverse.findSome? (·.srvOf k) with
    | some srv => exact hkeep h k hh srv.1 srv.2 hsrv
    | none =>
      rcases known_of_hostAfter hs hh with ⟨e, he, hm⟩ | ⟨j, hj, hl⟩
      · obtain ⟨name, port, target, rfl, -, -⟩ := mapsTo_eq_some hm
        have hnone := List.findSome?_eq_none_iff.mp hsrv _ (List.mem_reverse.mpr he)
        simp [Entry.srvOf] at hnone
      · rw [hj] at hi'
        cases hi'
        exact hl

theorem handlePacket_of_next {data : Bytes} {sender : String}
    (ht : (browserRuns inner).next s (.packet data sender now) = some t) :
    ∃ out, handlePacket inner s data sender now = .ok out ∧ out.state = t := by
  obtain ⟨out, hout, rfl⟩ := Option.map_eq_some_iff.mp ht
  cases hp : handlePacket inner s data sender now with
  | error e => simp [hp, Except.toOption] at hout
  | ok o =>
    simp only [hp, Except.toOption, Option.some.injEq] at hout
    exact ⟨o, rfl, by rw [hout]⟩

theorem hostsFollow_step (hs : HostsFollow inner s) (ht : (browserRuns inner).next s a = some t) :
    HostsFollow inner t ↔ PacketKeepsTargets inner s a := by
  cases a with
  | clearInstances =>
    cases ht
    exact iff_of_true (fun h k hh => by cases hh) trivial
  | packet data sender now =>
    obtain ⟨out, hout, rfl⟩ := handlePacket_of_next ht
    rw [handlePacket_eq hout, PacketKeepsTargets]
    cases hr : response inner data sender with
    | none => exact iff_of_true hs nofun
    | some records =>
      simp only [Option.elim_some, Option.some.injEq, forall_eq']
      exact hostsFollow_handled hs

theorem mem_a? {ip : String} : (∃ e ∈ es, e.a? = some (h, ip)) ↔ Entry.a h ip ∈ es := by
  constructor
  · rintro ⟨e, he, ha⟩
    cases e with
    | a host ip' =>
      cases ha
      exact he
    | _ => cases ha
  · intro he
    exact ⟨_, he, rfl⟩

theorem mem_aaaa? {addr : String} : (∃ e ∈ es, e.aaaa? = some (h, addr)) ↔ Entry.aaaa h addr ∈ es := by
  constructor
  · rintro ⟨e, he, ha⟩
    cases e with
    | aaaa host addr' =>
      cases ha
      exact he
    | _ => cases ha
  · intro he
    exact ⟨_, he, rfl⟩

theorem hosts_of_lastHost (hl : lastHost hosts hs k = some h) : hosts h = some k := by
  simpa using List.find?_some hl

/-- Where each hostname leads to the instance whose target it is, only the addresses carried for its
target reach an instance. -/
theorem addressesFollow_step (hf : HostsFollow inner t)
    (ht : (browserRuns inner).next s a = some t) : AddressesFollow inner s t a := by
  cases a with
  | clearInstances =>
    cases ht
    exact fun _ => rfl
  | packet data sender now =>
    obtain ⟨out, hout, rfl⟩ := handlePacket_of_next ht
    intro records hr k j hj
    rw [handlePacket_eq hout, hr, Option.elim_some] at hj hf
    have hj' := hj
    rw [instances_handled, instances_merged_eq] at hj'
    obtain ⟨i, hi, rfl⟩ := Option.map_eq_some_iff.mp hj'
    have hips : ((s.withdraw (goodbyeKeys inner records)).instances k).elim ∅ (·.ips) = i.ips ∧
        ((s.withdraw (goodbyeKeys inner records)).instances k).elim ∅ (·.addrsV6) = i.addrsV6 := by
      rcases Option.or_eq_some_iff.mp hi with hknown | ⟨hnone, hnew⟩
      · simp [hknown]
      · obtain ⟨name, -, rfl⟩ := Option.map_eq_some_iff.mp hnew
        simp [hnone, Instance.new]
    have htarget : ∀ {hs h}, lastHost (hostAfter inner
        (s.withdraw (goodbyeKeys inner records)).hostnameToInstance (liveEntries inner records)) hs k =
          some h → inner.toLowercase ((liveEntries inner records).foldl (·.told k) i).targetHostname = h := by
      intro hs h hlast
      have hh := hosts_of_lastHost hlast
      rw [← hosts_merged, ← @hosts_handled _ _ _ _ now] at hh
      obtain ⟨j', hj', hl⟩ := hf h k hh
      cases hj.symm.trans hj'
      exact hl
    dsimp only
    rw [hips.1, hips.2]
    constructor
    · cases hlast : lastHost _ (inner.order (grouped Entry.a? (liveEntries inner records)).1) k with
      | none => exact .inl rfl
      | some h =>
        right
        intro ip
        rw [htarget hlast, Option.elim_some, mem_ips_grouped, mem_a?]
    · cases hlast : lastHost _ (inner.order (grouped Entry.aaaa? (liveEntries inner records)).1) k with
      | none => exact .inl rfl
      | some h =>
        right
        intro addr
        rw [htarget hlast, Option.elim_some, mem_ips_grouped, mem_aaaa?]

/-- Along every run from a fresh browser, each hostname leads to the instance whose target it is in
every state exactly if no packet takes an instance's target away from a hostname that stays mapped
to it; and every step into such a state changes an instance's addresses to those carried for its
target, if at all. -/
theorem hosts_follow_targets :
    ((browserRuns inner).StatesAlong (HostsFollow inner) .default as ↔
        (browserRuns inner).StepsAlong (PacketKeepsTargets inner) .default as) ∧
      ∀ s a t, HostsFollow inner t → (browserRuns inner).next s a = some t →
        AddressesFollow inner s t a :=
  ⟨System.statesAlong_iff (J := fun _ => True) (fun _ _ _ _ _ => trivial)
      (fun _ _ _ _ hs ht => hostsFollow_step hs ht) trivial (fun _ _ hh => by cases hh),
    fun _ _ _ hf ht => addressesFollow_step hf ht⟩

/-- A response with one SRV record of the instance `x`. -/
def srvPacket (target : String) (port : UInt16) : Bytes :=
  writeHeader 1 0 ++ writeRecord (encodeName s!"x.{plainappServiceType}") typeSrv dnsCacheFlushClassIn
    ttlSeconds (writeU16 0 ++ writeU16 0 ++ writeU16 port ++ encodeName target)

/-- An instance that moves to another hostname leaves the old one mapped to it. -/
theorem movedInstance_staleHost :
    ¬ ∀ as, (browserRuns demoInner).StatesAlong (HostsFollow demoInner) .default as := by
  intro h
  have hrun : ((browserRuns demoInner).run (fun _ _ => True) .default
      [.packet (srvPacket "h1.local" 8443) "10.0.0.2" 0,
        .packet (srvPacket "h2.local" 8443) "10.0.0.2" 1]).any (fun s =>
      s.hostnameToInstance "h1.local" = some "x._plainapp._tcp.local" &&
        (s.instances "x._plainapp._tcp.local").all (·.targetHostname = "h2.local")) = true := by
    decide +kernel
  obtain ⟨s, hs, hp⟩ := (Option.any_eq_true _ _).mp hrun
  simp only [Bool.and_eq_true, decide_eq_true_eq] at hp
  obtain ⟨i, hi, hl⟩ := (h _).last hs _ _ hp.1
  rw [hi, Option.all_some, decide_eq_true_eq] at hp
  rw [hp.2] at hl
  exact absurd hl (by decide +kernel)

end PlainRs.Mdns
