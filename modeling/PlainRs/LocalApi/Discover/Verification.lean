import PlainRs.LocalApi.Discover.NearbyDiscoverManager

/-! What a verification of old records can still do to a device announced after its snapshot. -/
namespace PlainRs.LocalApi.Nearby

open Keyed PlainRs.Chat PlainRs.Mdns

variable {clientId id : String} {s t : State} {a : Action} {c : Section} {run : Nat}
  {d : DNearbyDeviceCache}

/-- An announcement of `id` was saved after `run` read the table. -/
def announcedSince (s : State) (run : Nat) (id : String) : Bool :=
  Runs.since (fun e => decide (e = .saved id)) (fun e => decide (e = .snapshot run)) s.history

/-- The section is about to refresh or to delete a record of the run, if it is still as read. -/
def Section.Settles (run : Nat) (d : DNearbyDeviceCache) : Section → Prop
  | .verifyLocked r device false => r = run ∧ device = d
  | .verifyRead r device _ => r = run ∧ device = d
  | _ => False

/-- The section works on a record that the run read. -/
def Section.Holds (run : Nat) (d : DNearbyDeviceCache) : Section → Prop
  | .verifyLocked r device _ | .verifyRead r device _ => r = run ∧ device = d
  | _ => False

/-- The record was read by the run and is still to be settled. -/
def Held (s : State) (run : Nat) (d : DNearbyDeviceCache) : Prop :=
  (∃ v, s.verifications run = some v ∧ d ∈ v.devices) ∨ ∃ c, s.lock = some c ∧ c.Holds run d

/-- It was also found old by the run. -/
def HeldOld (s : State) (run : Nat) (d : DNearbyDeviceCache) : Prop :=
  (∃ l, s.verifications run = some (.pinged l) ∧ d ∈ l) ∨ ∃ c, s.lock = some c ∧ c.Holds run d

/-- No record that a run still holds comes back as the row of its id once the row was rewritten. -/
structure Guarded (s : State) : Prop where
  rewritten : ∀ run d row, Held s run d → s.cache.find? d.id = some row →
    d.lastSeen ≤ row.lastSeen ∧ (announcedSince s run d.id = true → d.lastSeen < row.lastSeen)
  gone : ∀ run d, Held s run d → s.cache.find? d.id = none → d.lastSeen < s.clock
  goneAtRead : ∀ device now run d, s.lock = some (.processRead device now) → Held s run d →
    d.id = device.id → s.cache.find? d.id = none → d.lastSeen < now
  old : ∀ run d, HeldOld s run d → d.lastSeen < s.clock

theorem HeldOld.held (h : HeldOld s run d) : Held s run d := by
  rcases h with ⟨l, hl, hd⟩ | h
  · exact .inl ⟨_, hl, hd⟩
  · exact .inr h

theorem Section.Settles.holds (h : c.Settles run d) : c.Holds run d := by
  unfold Section.Settles at h
  split at h
  · exact h
  · exact h
  · exact h.elim

theorem guarded_initial (h : Initial s) : Guarded s := by
  have hheld : ∀ run d, ¬ Held s run d := by
    rintro run d (⟨v, hv, -⟩ | ⟨c, hc, -⟩)
    · simp [h.verifications] at hv
    · simp [h.lock] at hc
  exact ⟨fun run d _ hh => absurd hh (hheld run d), fun run d hh => absurd hh (hheld run d),
    fun _ _ run d _ hh => absurd hh (hheld run d), fun run d hh => absurd hh.held (hheld run d)⟩

/-- A step that leaves the table and its history alone, gives no run a record and reads no clock. -/
theorem Guarded.of_frame (h : Guarded s) (hcache : t.cache = s.cache)
    (hhistory : t.history = s.history) (hclock : s.clock ≤ t.clock)
    (hheld : ∀ run d, Held t run d → Held s run d)
    (hold : ∀ run d, HeldOld t run d → HeldOld s run d)
    (hread : ∀ device now, t.lock = some (.processRead device now) → s.lock = t.lock) :
    Guarded t := by
  refine ⟨?_, ?_, ?_, ?_⟩
  · intro run d row hd hrow
    rw [hcache] at hrow
    simpa only [announcedSince, hhistory] using h.rewritten run d row (hheld run d hd) hrow
  · intro run d hd hrow
    rw [hcache] at hrow
    exact lt_of_lt_of_le (h.gone run d (hheld run d hd) hrow) hclock
  · intro device now run d hlock hd hid hrow
    rw [hcache] at hrow
    exact h.goneAtRead device now run d ((hread device now hlock).trans hlock) (hheld run d hd) hid hrow
  · intro run d hd
    exact lt_of_lt_of_le (h.old run d (hold run d hd)) hclock

/-- A section that works on no record of the run leaves what the run holds to its list. -/
theorem held_of_lock (hv : t.verifications = s.verifications)
    (hl : ∀ c, t.lock = some c → ¬ c.Holds run d) (h : Held t run d) : Held s run d := by
  rcases h with ⟨v, hv', hd⟩ | ⟨c, hc, hd⟩
  · exact .inl ⟨v, hv ▸ hv', hd⟩
  · exact absurd hd (hl c hc)

theorem heldOld_of_lock (hv : t.verifications = s.verifications)
    (hl : ∀ c, t.lock = some c → ¬ c.Holds run d) (h : HeldOld t run d) : HeldOld s run d := by
  rcases h with ⟨l, hl', hd⟩ | ⟨c, hc, hd⟩
  · exact .inl ⟨l, hv ▸ hl', hd⟩
  · exact absurd hd (hl c hc)

/-- A saved announcement is later than every record of the device that a run holds. -/
theorem guarded_save {device : FoundDevice} {now : Int} (h : Guarded s)
    (hlock : s.lock = some (.processRead device now))
    (hcache : t.cache = s.cache.save (cachedDevice device now))
    (hhistory : t.history = .saved device.id :: s.history) (hclock : t.clock = s.clock)
    (hv : t.verifications = s.verifications) (ht : t.lock = some (.processSaved device)) :
    Guarded t := by
  have hfree : ∀ c, t.lock = some c → ∀ run d, ¬ c.Holds run d := by
    intro c hc run d
    rw [ht] at hc
    cases hc
    exact id
  have hheld : ∀ run d, Held t run d → Held s run d := fun run d =>
    held_of_lock hv fun c hc => hfree c hc run d
  have hid : (cachedDevice device now).id = device.id := rfl
  refine ⟨?_, ?_, ?_, ?_⟩
  · intro run d row hd hrow
    have hs := hheld run d hd
    rw [hcache, NearbyDeviceTable.find?_save, hid] at hrow
    split at hrow
    · next he =>
      cases hrow
      cases hold : s.cache.find? d.id with
      | none =>
        have := h.goneAtRead device now run d hlock hs he hold
        simp only [Option.elim_none, cachedDevice]
        omega
      | some row =>
        have := h.rewritten run d row hs hold
        simp only [Option.elim_some, cachedDevice]
        omega
    · next he =>
      have hne : ¬ TableEvent.saved device.id = TableEvent.saved d.id := by
        intro hs
        exact he (TableEvent.saved.inj hs).symm
      have := h.rewritten run d row hs hrow
      simpa [announcedSince, hhistory, Runs.since, hne] using this
  · intro run d hd hrow
    rw [hcache, NearbyDeviceTable.find?_save, hid] at hrow
    rw [hclock]
    split at hrow
    · cases hrow
    · exact h.gone run d (hheld run d hd) hrow
  · intro device' now' run d hl
    rw [ht] at hl
    cases hl
  · intro run d hd
    rw [hclock]
    exact h.old run d (heldOld_of_lock hv (fun c hc => hfree c hc run d) hd)

/-- A delete that goes through removes what every run holds of the device to records of the past. -/
theorem guarded_delete {device : DNearbyDeviceCache} {r : Nat} (h : Guarded s)
    (hlock : s.lock = some (.verifyLocked r device false))
    (hcache : t.cache = (s.cache.deleteIfLastSeenMatches device.id device.lastSeen).1)
    (hhistory : t.history = s.history) (hclock : t.clock = s.clock)
    (hv : t.verifications = s.verifications)
    (ht : ∀ c, t.lock = some c → c = .verifyDeleted device.id) : Guarded t := by
  have hfree : ∀ c, t.lock = some c → ∀ run d, ¬ c.Holds run d := by
    intro c hc run d
    rw [ht c hc]
    exact id
  have hheld : ∀ run d, Held t run d → Held s run d := fun run d =>
    held_of_lock hv fun c hc => hfree c hc run d
  have hheldOld : ∀ run d, HeldOld t run d → HeldOld s run d := fun run d =>
    heldOld_of_lock hv fun c hc => hfree c hc run d
  have hread : ∀ device now, t.lock ≠ some (.processRead device now) := by
    intro device now hl
    cases ht _ hl
  have hold := h.old r device (.inr ⟨_, hlock, rfl, rfl⟩)
  by_cases hm : (s.cache.matching device.id device.lastSeen).isSome
  · obtain ⟨row, hrow, hseen⟩ := NearbyDeviceTable.isSome_matching.mp hm
    rw [NearbyDeviceTable.deleteIfLastSeenMatches_of_isSome hm] at hcache
    refine ⟨?_, ?_, ?_, ?_⟩
    · intro run d row' hd hrow'
      rw [hcache, Table.find?_erase] at hrow'
      split at hrow'
      · cases hrow'
      · simpa only [announcedSince, hhistory] using h.rewritten run d row' (hheld run d hd) hrow'
    · intro run d hd hrow'
      rw [hcache, Table.find?_erase] at hrow'
      rw [hclock]
      split at hrow'
      · next he =>
        have := (h.rewritten run d row (hheld run d hd) (he ▸ hrow)).1
        omega
      · exact h.gone run d (hheld run d hd) hrow'
    · intro device' now run d hl
      exact absurd hl (hread device' now)
    · intro run d hd
      rw [hclock]
      exact h.old run d (hheldOld run d hd)
  · rw [NearbyDeviceTable.deleteIfLastSeenMatches_of_not hm] at hcache
    exact h.of_frame hcache hhistory (le_of_eq hclock.symm) hheld hheldOld
      fun device' now hl => absurd hl (hread device' now)

/-- A refresh makes the row later than it was. -/
theorem guarded_refresh {device : DNearbyDeviceCache} {now : Int} (h : Guarded s)
    (hcache : t.cache = (s.cache.refreshIfLastSeenMatches device.id device.lastSeen now).1)
    (hhistory : t.history = s.history) (hclock : t.clock = s.clock)
    (hv : t.verifications = s.verifications) (ht : t.lock = none) : Guarded t := by
  have hfree : ∀ c, t.lock = some c → ∀ run d, ¬ c.Holds run d := by
    intro c hc
    rw [ht] at hc
    cases hc
  have hheld : ∀ run d, Held t run d → Held s run d := fun run d =>
    held_of_lock hv fun c hc => hfree c hc run d
  refine ⟨?_, ?_, ?_, ?_⟩
  · intro run d row hd hrow
    have hs := hheld run d hd
    rw [hcache, NearbyDeviceTable.find?_refresh] at hrow
    simp only [announcedSince, hhistory]
    split at hrow
    · obtain ⟨row', hrow', rfl⟩ := Option.map_eq_some_iff.mp hrow
      have := h.rewritten run d row' hs hrow'
      simp only [announcedSince] at this
      split
      · simp only
        omega
      · exact this
    · exact h.rewritten run d row hs hrow
  · intro run d hd hrow
    rw [hcache, NearbyDeviceTable.find?_refresh] at hrow
    rw [hclock]
    refine h.gone run d (hheld run d hd) ?_
    split at hrow
    · simpa using hrow
    · exact hrow
  · intro device' now' run d hl
    rw [ht] at hl
    cases hl
  · intro run d hd
    rw [hclock]
    exact h.old run d (heldOld_of_lock hv (fun c hc => hfree c hc run d) hd)

/-- A clock reading of an announcement comes after all that was seen of a row that is gone. -/
theorem guarded_readClock {device : FoundDevice} (h : Guarded s) :
    Guarded (s.hold (.processRead device s.clock)) := by
  have hheld : ∀ run d, Held (s.hold (.processRead device s.clock)) run d → Held s run d :=
    fun run d => held_of_lock rfl fun c hc => by cases hc; exact id
  have hheldOld : ∀ run d, HeldOld (s.hold (.processRead device s.clock)) run d → HeldOld s run d :=
    fun run d => heldOld_of_lock rfl fun c hc => by cases hc; exact id
  refine ⟨fun run d row hd => h.rewritten run d row (hheld run d hd),
    fun run d hd => h.gone run d (hheld run d hd), ?_, fun run d hd => h.old run d (hheldOld run d hd)⟩
  intro device' now run d hl hd _ hrow
  cases hl
  exact h.gone run d (hheld run d hd) hrow

/-- What is found after an update is the new entry or an old one of another key. -/
theorem update_eq_some {f : Nat → Option Verification} {r : Nat} {v w : Verification}
    (h : Function.update f r (some v) run = some w) : (run = r ∧ w = v) ∨ f run = some w := by
  by_cases hr : run = r
  · subst hr
    rw [Function.update_self, Option.some.injEq] at h
    exact .inl ⟨rfl, h.symm⟩
  · rw [Function.update_of_ne hr] at h
    exact .inr h

/-- A run that has just read the table holds its rows, and nothing was announced since. -/
theorem guarded_snapshot (h : Guarded s) (ht : next clientId s .snapshot = some t) : Guarded t := by
  simp only [next, Option.some.injEq] at ht
  subst ht
  have hheld : ∀ {run d}, Held { s with
      verifications := Function.update s.verifications s.nextRun (some (.snapshot s.cache.getCached))
      nextRun := s.nextRun + 1
      history := .snapshot s.nextRun :: s.history } run d →
      (run = s.nextRun ∧ d ∈ s.cache.getCached) ∨ Held s run d := by
    rintro run d (⟨v, hv, hd⟩ | hl)
    · rcases update_eq_some hv with ⟨rfl, rfl⟩ | hv
      · exact .inl ⟨rfl, hd⟩
      · exact .inr (.inl ⟨v, hv, hd⟩)
    · exact .inr (.inr hl)
  have hsince : ∀ run id, Runs.since (fun e => decide (e = .saved id))
      (fun e => decide (e = .snapshot run)) (.snapshot s.nextRun :: s.history) = true →
      run ≠ s.nextRun ∧ announcedSince s run id = true := by
    intro run id hs
    have hcons : ¬ s.nextRun = run ∧ announcedSince s run id = true := by
      simpa [Runs.since, announcedSince] using hs
    exact ⟨fun hr => hcons.1 hr.symm, hcons.2⟩
  have hrow : ∀ {d : DNearbyDeviceCache}, d ∈ s.cache.getCached →
      ∃ row, s.cache.find? d.id = some row ∧ row.lastSeen = d.lastSeen := by
    intro d hd
    obtain ⟨row, hrow, rfl⟩ := NearbyDeviceTable.mem_getCached.mp hd
    exact ⟨row, hrow, rfl⟩
  refine ⟨?_, ?_, ?_, ?_⟩
  · intro run d row hd hfind
    rcases hheld hd with ⟨hr, hd⟩ | hd
    · obtain ⟨row', hrow', hseen⟩ := hrow hd
      have he : row' = row := Option.some.inj (hrow'.symm.trans hfind)
      subst he
      exact ⟨hseen.ge, fun ha => absurd hr (hsince _ _ ha).1⟩
    · have := h.rewritten run d row hd hfind
      exact ⟨this.1, fun ha => this.2 (hsince _ _ ha).2⟩
  · intro run d hd hfind
    rcases hheld hd with ⟨-, hd⟩ | hd
    · obtain ⟨row', hrow', -⟩ := hrow hd
      exact absurd (hrow'.symm.trans hfind) (by simp)
    · exact h.gone run d hd hfind
  · intro device now run d hl hd hid hfind
    rcases hheld hd with ⟨-, hd⟩ | hd
    · obtain ⟨row', hrow', -⟩ := hrow hd
      exact absurd (hrow'.symm.trans hfind) (by simp)
    · exact h.goneAtRead device now run d hl hd hid hfind
  · rintro run d (⟨l, hl, hd⟩ | hl)
    · rcases update_eq_some hl with ⟨-, hl⟩ | hl
      · cases hl
      · exact h.old run d (.inl ⟨l, hl, hd⟩)
    · exact h.old run d (.inr hl)

/-- Only records from before the clock reading pass the cutoff. -/
theorem guarded_cutoff (h : Guarded s) (ht : next clientId s (.cutoff run) = some t) :
    Guarded t := by
  simp only [next] at ht
  split at ht
  · next devices hv =>
    cases ht
    have hheld : ∀ r d, Held { s with
        verifications := Function.update s.verifications run
          (some (.pinged (devices.filter fun d => d.lastSeen < s.clock - 60000))) } r d →
        Held s r d := by
      rintro r d (⟨v, hv', hd⟩ | hl)
      · rcases update_eq_some hv' with ⟨rfl, rfl⟩ | hv'
        · exact .inl ⟨_, hv, List.mem_of_mem_filter hd⟩
        · exact .inl ⟨v, hv', hd⟩
      · exact .inr hl
    refine ⟨fun r d row hd => h.rewritten r d row (hheld r d hd),
      fun r d hd => h.gone r d (hheld r d hd),
      fun device now r d hl hd => h.goneAtRead device now r d hl (hheld r d hd), ?_⟩
    rintro r d (⟨l, hl, hd⟩ | hl)
    · rcases update_eq_some hl with ⟨-, he⟩ | hl
      · cases he
        have hlt := (List.mem_filter.mp hd).2
        simp only [decide_eq_true_eq] at hlt
        show d.lastSeen < s.clock
        omega
      · exact h.old r d (.inl ⟨l, hl, hd⟩)
    · exact h.old r d (.inr hl)
  · cases ht

/-- A run that takes the lock takes one of its records along. -/
theorem guarded_lockVerify {ok : Bool} (h : Guarded s)
    (ht : next clientId s (.lockVerify run ok) = some t) : Guarded t := by
  simp only [next] at ht
  split at ht
  · next device rest hv =>
    split at ht
    · cases ht
      refine h.of_frame rfl rfl le_rfl ?_ ?_ fun device now hl => by cases hl
      · rintro r d (⟨v, hv', hd⟩ | ⟨c, hc, hd⟩)
        · rcases update_eq_some hv' with ⟨rfl, rfl⟩ | hv'
          · exact .inl ⟨_, hv, List.mem_cons_of_mem _ hd⟩
          · exact .inl ⟨v, hv', hd⟩
        · cases hc
          obtain ⟨rfl, rfl⟩ := hd
          exact .inl ⟨_, hv, List.mem_cons_self⟩
      · rintro r d (⟨l, hl, hd⟩ | ⟨c, hc, hd⟩)
        · rcases update_eq_some hl with ⟨rfl, he⟩ | hl
          · cases he
            exact .inl ⟨_, hv, List.mem_cons_of_mem _ hd⟩
          · exact .inl ⟨l, hl, hd⟩
        · cases hc
          obtain ⟨rfl, rfl⟩ := hd
          exact .inl ⟨_, hv, List.mem_cons_self⟩
    · cases ht
  · cases ht

/-- A step of the lock's holder that touches neither the table nor a record of a run. -/
theorem Guarded.of_section (h : Guarded s) (hcache : t.cache = s.cache)
    (hhistory : t.history = s.history) (hclock : t.clock = s.clock)
    (hv : t.verifications = s.verifications)
    (hl : ∀ c, t.lock = some c → (∀ run d, c.Holds run d → ∃ e, s.lock = some e ∧ e.Holds run d) ∧
      ∀ device now, c ≠ .processRead device now) : Guarded t := by
  refine h.of_frame hcache hhistory (le_of_eq hclock.symm) ?_ ?_ ?_
  · rintro run d (⟨v, hv', hd⟩ | ⟨c, hc, hd⟩)
    · exact .inl ⟨v, hv ▸ hv', hd⟩
    · exact .inr ((hl c hc).1 run d hd)
  · rintro run d (⟨l, hl', hd⟩ | ⟨c, hc, hd⟩)
    · exact .inl ⟨l, hv ▸ hl', hd⟩
    · exact .inr ((hl c hc).1 run d hd)
  · intro device now hc
    exact absurd rfl ((hl _ hc).2 device now)

theorem guarded_advance {env : Environment} (h : Guarded s) (hc : s.lock = some c) :
    Guarded (s.advance env c) := by
  cases c with
  | processLocked device => exact guarded_readClock h
  | processRead device now => exact guarded_save h hc rfl rfl rfl rfl rfl
  | processSaved device =>
    simp only [State.advance]
    split
    · exact h.of_section rfl rfl rfl rfl fun c hc => by cases hc
    · refine h.of_section rfl rfl rfl rfl fun c hc => ?_
      cases hc
      exact ⟨fun _ _ hd => hd.elim, fun _ _ => by simp⟩
  | startSending devices =>
    cases devices with
    | nil => exact h.of_section rfl rfl rfl rfl fun c hc => by cases hc
    | cons device devices =>
      refine h.of_section rfl rfl rfl rfl fun c hc => ?_
      cases hc
      exact ⟨fun _ _ hd => hd.elim, fun _ _ => by simp⟩
  | verifyLocked run device ok =>
    cases ok with
    | true =>
      refine h.of_section rfl rfl rfl rfl fun c hc' => ?_
      cases hc'
      exact ⟨fun _ _ hd => ⟨_, hc, hd⟩, fun _ _ => by simp⟩
    | false =>
      refine guarded_delete h hc rfl rfl rfl rfl fun c hc' => ?_
      simp only [State.advance] at hc'
      split at hc'
      · exact (Option.some.inj hc').symm
      · cases hc'
  | verifyRead run device now => exact guarded_refresh h rfl rfl rfl rfl rfl
  | processChanged | verifyRemoved => exact h.of_section rfl rfl rfl rfl fun c hc => by cases hc
  | startLocked | startCleared | startEmitted | verifyDeleted =>
    refine h.of_section rfl rfl rfl rfl fun c hc => ?_
    cases hc
    exact ⟨fun _ _ hd => hd.elim, fun _ _ => by simp⟩

theorem guarded_step (h : Guarded s) (ht : next clientId s a = some t) : Guarded t := by
  cases a with
  | tick millis =>
    cases ht
    refine h.of_frame rfl rfl ?_ (fun _ _ => id) (fun _ _ => id) fun _ _ _ => rfl
    show s.clock ≤ s.clock + millis
    omega
  | lockProcess | lockStart =>
    simp only [next] at ht
    split at ht
    · cases ht
      refine h.of_section rfl rfl rfl rfl fun c hc => ?_
      cases hc
      exact ⟨fun _ _ hd => hd.elim, fun _ _ => by simp⟩
    · cases ht
  | lockVerify run ok => exact guarded_lockVerify h ht
  | advance env =>
    obtain ⟨c, hc, rfl⟩ := Option.map_eq_some_iff.mp ht
    exact guarded_advance h hc
  | snapshot => exact guarded_snapshot h ht
  | cutoff run => exact guarded_cutoff h ht
  | stopClear | stopEmit =>
    cases ht
    exact h.of_frame rfl rfl le_rfl (fun _ _ => id) (fun _ _ => id) fun _ _ _ => rfl

theorem guarded_reachable (h : Runs.Reachable (system clientId) s) : Guarded s :=
  h.invariant (fun _ => guarded_initial) fun _ _ _ => guarded_step

/-- A row leaves the table in one step only: the delete of a verification that finds it as read. -/
theorem removed_step (ht : next clientId s a = some t) (hs : (s.cache.find? id).isSome)
    (hid : t.cache.find? id = none) :
    ∃ run d row, s.lock = some (.verifyLocked run d false) ∧ d.id = id ∧
      s.cache.find? id = some row ∧ row.lastSeen = d.lastSeen := by
  have keep : t.cache = s.cache → False := by
    intro he
    rw [he] at hid
    simp [hid] at hs
  cases a with
  | advance env =>
    obtain ⟨c, hc, rfl⟩ := Option.map_eq_some_iff.mp ht
    cases c with
    | processRead device now =>
      have hf : (s.cache.save (cachedDevice device now)).find? id = none := hid
      rw [NearbyDeviceTable.find?_save] at hf
      split at hf
      · cases hf
      · simp [hf] at hs
    | verifyRead run device now =>
      have hf : (s.cache.refreshIfLastSeenMatches device.id device.lastSeen now).1.find? id = none :=
        hid
      rw [NearbyDeviceTable.find?_refresh] at hf
      split at hf <;> simp_all
    | verifyLocked run device ok =>
      cases ok with
      | true => exact (keep rfl).elim
      | false =>
        have hf : (s.cache.deleteIfLastSeenMatches device.id device.lastSeen).1.find? id = none := hid
        by_cases hm : (s.cache.matching device.id device.lastSeen).isSome
        · rw [NearbyDeviceTable.deleteIfLastSeenMatches_of_isSome hm, Table.find?_erase] at hf
          obtain ⟨row, hrow, hseen⟩ := NearbyDeviceTable.isSome_matching.mp hm
          by_cases he : id = device.id
          · subst he
            exact ⟨run, device, row, hc, rfl, hrow, hseen⟩
          · rw [if_neg he] at hf
            simp [hf] at hs
        · rw [NearbyDeviceTable.deleteIfLastSeenMatches_of_not hm] at hf
          simp [hf] at hs
    | processSaved device =>
      simp only [State.advance] at keep
      split at keep <;> exact (keep rfl).elim
    | startSending devices => cases devices <;> exact (keep rfl).elim
    | _ => exact (keep rfl).elim
  | lockProcess | lockStart =>
    simp only [next] at ht
    split at ht <;> cases ht
    exact (keep rfl).elim
  | lockVerify run ok =>
    simp only [next] at ht
    split at ht
    · split at ht <;> cases ht
      exact (keep rfl).elim
    · cases ht
  | cutoff run =>
    simp only [next] at ht
    split at ht <;> cases ht
    exact (keep rfl).elim
  | tick | snapshot | stopClear | stopEmit =>
    cases ht
    exact (keep rfl).elim

/-- Once an announcement of a device is saved, a run that read the table before it changes nothing
of the device any more; so a device is removed only by a run since whose snapshot it was not
announced. -/
theorem announced_survives (hr : Runs.Reachable (system clientId) s) :
    (∀ c run d env, s.lock = some c → c.Settles run d → announcedSince s run d.id = true →
      (s.advance env c).cache = s.cache) ∧
    (∀ a t id, (system clientId).next s a = some t → (s.cache.find? id).isSome →
      t.cache.find? id = none → ∃ run d, s.lock = some (.verifyLocked run d false) ∧ d.id = id ∧
        announcedSince s run id = false) := by
  have hg := guarded_reachable hr
  have later : ∀ {c run d}, s.lock = some c → c.Holds run d → announcedSince s run d.id = true →
      ¬ (s.cache.matching d.id d.lastSeen).isSome := by
    intro c run d hc hd ha hm
    obtain ⟨row, hrow, hseen⟩ := NearbyDeviceTable.isSome_matching.mp hm
    have := (hg.rewritten run d row (.inr ⟨c, hc, hd⟩) hrow).2 ha
    omega
  constructor
  · intro c run d env hc hd ha
    have hm := later hc hd.holds ha
    unfold Section.Settles at hd
    split at hd
    · obtain ⟨rfl, rfl⟩ := hd
      simp only [State.advance, NearbyDeviceTable.deleteIfLastSeenMatches_of_not hm]
    · obtain ⟨rfl, rfl⟩ := hd
      simp only [State.advance, NearbyDeviceTable.refreshIfLastSeenMatches, if_neg hm]
    · exact hd.elim
  · intro a t id ht hs hid
    obtain ⟨run, d, row, hc, rfl, hrow, hseen⟩ := removed_step ht hs hid
    refine ⟨run, d, hc, rfl, ?_⟩
    cases ha : announcedSince s run d.id with
    | false => rfl
    | true =>
      have := (hg.rewritten run d row (.inr ⟨_, hc, rfl, rfl⟩) hrow).2 ha
      omega

/-- A phone announces itself between the snapshot of a run and its unanswered ping. -/
def announcedPhone : FoundDevice := ⟨"phone", "Phone", ["10.0.0.2"], [], 8443, "PHONE", "1", "android"⟩

def phoneCache : NearbyDeviceTable :=
  NearbyDeviceTable.save Table.empty (cachedDevice announcedPhone 0)

def phoneSeen : State where
  cache := phoneCache
  seenInSession := fun _ => none
  lock := none
  clock := 100000
  verifications := fun _ => none
  nextRun := 0
  events := []
  history := []

def nobody : Environment := ⟨fun _ => false, fun _ => none⟩

/-- The first run is about to save what it found of the phone unanswered. -/
def verifiesPhone (s : State) : Bool :=
  match s.lock with
  | some (.verifyLocked 0 d false) => decide (d = cachedDevice announcedPhone 0)
  | _ => false

theorem announced_survives_phone :
    ∃ s, Runs.Reachable (system "desktop") s ∧
      s.lock = some (.verifyLocked 0 (cachedDevice announcedPhone 0) false) ∧
      (s.advance nobody (.verifyLocked 0 (cachedDevice announcedPhone 0) false)).cache = s.cache := by
  have hinit : (system "desktop").init phoneSeen := ⟨rfl, rfl, rfl, rfl, rfl⟩
  have hrun : ((system "desktop").run (fun _ _ => True) phoneSeen
      [.snapshot, .cutoff 0, .lockProcess announcedPhone, .advance nobody, .advance nobody,
        .advance nobody, .advance nobody, .lockVerify 0 false]).any
      (fun s => verifiesPhone s && announcedSince s 0 "phone") = true := by decide +kernel
  obtain ⟨s, hs, hp⟩ := Runs.ReachableUnder.of_run hinit hrun
  simp only [Bool.and_eq_true] at hp
  have hl : s.lock = some (.verifyLocked 0 (cachedDevice announcedPhone 0) false) := by
    have hv := hp.1
    unfold verifiesPhone at hv
    split at hv
    · next d hd => rw [hd, of_decide_eq_true hv]
    · cases hv
  exact ⟨s, hs, hl, (announced_survives hs).1 _ 0 _ nobody hl ⟨rfl, rfl⟩ hp.2⟩

end PlainRs.LocalApi.Nearby
