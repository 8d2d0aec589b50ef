import PlainRs.LocalApi.Discover.NearbyDiscoverManager

/-! The list a client rebuilds from the nearby events, against the device cache. -/
namespace PlainRs.LocalApi.Nearby

open Keyed PlainRs.Chat PlainRs.Mdns

variable {clientId id : String} {s t : State} {a : Action} {c : Section} {env : Environment}
  {d : DiscoveredDevice} {row : NearbyDeviceRow} {device : FoundDevice}

/-- The device a client shows under an id: the latest event about it, if that is a found one. -/
def lastFound : List NearbyEvent → String → Option DiscoveredDevice
  | [], _ => none
  | .deviceFound d :: events, id => if d.id = id then some d else lastFound events id
  | .deviceUnreachable u :: events, id => if u = id then none else lastFound events id
  | .discoveryStarted :: events, id | .discoveryStopped :: events, id => lastFound events id

/-- What is shown is the cached device, the order of its addresses apart. -/
structure DiscoveredDevice.Shows (d : DiscoveredDevice) (device : DNearbyDeviceCache) : Prop where
  id : d.id = device.id
  name : d.name = device.name
  ips : ∀ ip, ip ∈ d.ips ↔ ip ∈ device.ips
  port : d.port = device.port
  deviceType : d.deviceType = device.deviceType
  version : d.version = device.version
  platform : d.platform = device.platform

/-- The addresses of an announcement are texts that the cache gives back as they are. -/
def Action.PlainIps : Action → Prop
  | .lockProcess device => ∀ ip ∈ device.ips, Text.CommaFree ip
  | _ => True

/-- The id whose row is ahead of its events. -/
def Section.WorksOn (id : String) : Section → Prop
  | .processSaved device => device.id = id
  | .processChanged d => d.id = id
  | .verifyDeleted u | .verifyRemoved u => u = id
  | _ => False

/-- The id whose entry in `seen_in_session` is ahead of its events, or still to be removed. -/
def Section.Unseen (id : String) : Section → Prop
  | .processChanged d => d.id = id
  | .verifyDeleted u => u = id
  | _ => False

/-- The row is still to be emitted by `start_discovery`. -/
def Section.Sends (row : NearbyDeviceRow) : Section → Prop
  | .startEmitted => True
  | .startSending devices => rowToNearbyDevice row ∈ devices
  | _ => False

/-- What holds while a section works. -/
def Section.Working (s : State) : Section → Prop
  | .processLocked device | .processRead device _ => ∀ ip ∈ device.ips, Text.CommaFree ip
  | .processSaved device => ∃ row now, s.cache.find? device.id = some row ∧
      rowToNearbyDevice row = cachedDevice device now
  | .processChanged d => (∃ row, s.cache.find? d.id = some row ∧ d.Shows (rowToNearbyDevice row)) ∧
      ∀ e, s.seenInSession d.id = some e → e = d
  | .startCleared | .startEmitted => ∀ id e, s.seenInSession id ≠ some e
  | .startSending devices => (∀ device ∈ devices, ∃ row, s.cache.find? device.id = some row ∧
      rowToNearbyDevice row = device) ∧ ∀ id e, s.seenInSession id ≠ some e
  | .verifyDeleted u => s.cache.find? u = none
  | .verifyRemoved u => s.cache.find? u = none ∧ ∀ e, s.seenInSession u ≠ some e
  | _ => True

/-- Cache, `seen_in_session` and events agree on every id but the one being worked on. -/
structure Mirroring (s : State) : Prop where
  sound : ∀ id d, (∀ c, s.lock = some c → ¬ c.WorksOn id) → lastFound s.events id = some d →
    ∃ row, s.cache.find? id = some row ∧ d.Shows (rowToNearbyDevice row)
  seen : ∀ id d, (∀ c, s.lock = some c → ¬ c.Unseen id) → s.seenInSession id = some d →
    lastFound s.events id = some d
  shown : .discoveryStarted ∈ s.events → ∀ id row, (∀ c, s.lock = some c → ¬ c.WorksOn id) →
    s.cache.find? id = some row → (∀ c, s.lock = some c → ¬ c.Sends row) →
    (lastFound s.events id).isSome
  working : ∀ c, s.lock = some c → c.Working s

@[simp] theorem lastFound_deviceFound {events : List NearbyEvent} :
    lastFound (.deviceFound d :: events) id = if d.id = id then some d else lastFound events id :=
  rfl

@[simp] theorem lastFound_deviceUnreachable {u : String} {events : List NearbyEvent} :
    lastFound (.deviceUnreachable u :: events) id =
      if u = id then none else lastFound events id := rfl

theorem sameSnapshot_shows {e : DiscoveredDevice} {cached : DNearbyDeviceCache}
    (h : sameSnapshot d e = true) (he : e.Shows cached) : d.Shows cached := by
  simp only [sameSnapshot, Bool.and_eq_true, decide_eq_true_eq] at h
  obtain ⟨⟨⟨⟨⟨⟨⟨hid, hname⟩, hips⟩, hport⟩, htype⟩, hversion⟩, hplatform⟩, -⟩ := h
  exact ⟨hid.trans he.id, hname.trans he.name, fun ip => hips ▸ he.ips ip, hport.trans he.port,
    htype.trans he.deviceType, hversion.trans he.version, hplatform.trans he.platform⟩

theorem discoveredDevice_shows (env : Environment) (now seen : Int) :
    (discoveredDevice env device now).Shows (cachedDevice device seen) :=
  ⟨rfl, rfl, fun _ => (List.mergeSort_perm device.ips _).mem_iff, rfl, rfl, rfl, rfl⟩

theorem discoveredDeviceFromCachedRecord_shows (env : Environment) (cached : DNearbyDeviceCache) :
    (discoveredDeviceFromCachedRecord env cached).Shows cached :=
  ⟨rfl, rfl, fun _ => Iff.rfl, rfl, rfl, rfl, rfl⟩

theorem mirroring_initial (h : Initial s) : Mirroring s := by
  refine ⟨?_, ?_, ?_, ?_⟩
  · intro id d _ hl
    simp [h.events, lastFound] at hl
  · intro id d _ hs
    simp [h.seenInSession] at hs
  · intro hst
    simp [h.events] at hst
  · intro c hc
    simp [h.lock] at hc

/-- A section that has changed nothing yet, or nothing that shows. -/
def Section.Quiet : Section → Prop
  | .processLocked _ | .processRead _ _ | .startLocked | .startCleared | .verifyLocked _ _ _
  | .verifyRead _ _ _ => True
  | _ => False

theorem Section.Quiet.not_worksOn (h : c.Quiet) : ¬ c.WorksOn id := by
  cases c <;> first | exact fun hw => hw | exact h.elim

theorem Section.Quiet.not_unseen (h : c.Quiet) : ¬ c.Unseen id := by
  cases c <;> first | exact fun hw => hw | exact h.elim

theorem Section.Quiet.not_sends (h : c.Quiet) : ¬ c.Sends row := by
  cases c <;> first | exact fun hw => hw | exact h.elim

/-- Where no section shows, the three agree on every id. -/
structure Agreed (s : State) : Prop where
  sound : ∀ id d, lastFound s.events id = some d →
    ∃ row, s.cache.find? id = some row ∧ d.Shows (rowToNearbyDevice row)
  seen : ∀ id d, s.seenInSession id = some d → lastFound s.events id = some d
  shown : .discoveryStarted ∈ s.events → ∀ id row, s.cache.find? id = some row →
    (lastFound s.events id).isSome

theorem Mirroring.agreed (h : Mirroring s) (hq : ∀ c, s.lock = some c → c.Quiet) : Agreed s where
  sound id d := h.sound id d fun c hc => (hq c hc).not_worksOn
  seen id d := h.seen id d fun c hc => (hq c hc).not_unseen
  shown hst id row hrow :=
    h.shown hst id row (fun c hc => (hq c hc).not_worksOn) hrow fun c hc => (hq c hc).not_sends

theorem Agreed.mirroring (h : Agreed s) (hw : ∀ c, s.lock = some c → c.Working s) :
    Mirroring s where
  sound id d _ := h.sound id d
  seen id d _ := h.seen id d
  shown hst id row _ hrow _ := h.shown hst id row hrow
  working := hw

/-- Agreement reads the cache, the events and `seen_in_session` only. -/
theorem Agreed.congr (h : Agreed s) (hcache : t.cache = s.cache) (hevents : t.events = s.events)
    (hseen : t.seenInSession = s.seenInSession) : Agreed t where
  sound := by rw [hcache, hevents]; exact h.sound
  seen := by rw [hseen, hevents]; exact h.seen
  shown := by rw [hcache, hevents]; exact h.shown

/-- What a section needs of the state is in the cache and `seen_in_session`. -/
theorem Section.Working.congr (h : c.Working s) (hcache : t.cache = s.cache)
    (hseen : ∀ id e, t.seenInSession id = some e → s.seenInSession id = some e) :
    c.Working t := by
  cases c with
  | verifyRemoved u => exact ⟨hcache ▸ h.1, fun e he => h.2 e (hseen u e he)⟩
  | processChanged d => exact ⟨hcache ▸ h.1, fun e he => h.2 e (hseen d.id e he)⟩
  | startCleared | startEmitted => exact fun id e he => h id e (hseen id e he)
  | startSending devices => exact ⟨hcache ▸ h.1, fun id e he => h.2 id e (hseen id e he)⟩
  | processSaved | verifyDeleted =>
    simpa only [Section.Working, hcache] using h
  | _ => exact h

/-- Threads without the lock leave the three alone, or clear `seen_in_session`. -/
theorem Mirroring.of_unlocked (h : Mirroring s) (hcache : t.cache = s.cache)
    (hevents : t.events = s.events) (hlock : t.lock = s.lock)
    (hseen : t.seenInSession = s.seenInSession ∨ t.seenInSession = fun _ => none) :
    Mirroring t := by
  refine ⟨?_, ?_, ?_, ?_⟩
  · rw [hcache, hevents, hlock]
    exact h.sound
  · rw [hevents, hlock]
    rcases hseen with hseen | hseen
    · rw [hseen]
      exact h.seen
    · intro id d _ hd
      simp [hseen] at hd
  · rw [hcache, hevents, hlock]
    exact h.shown
  · intro c hc
    refine (h.working c (hlock ▸ hc)).congr hcache ?_
    intro id e he
    rcases hseen with hseen | hseen
    · exact hseen ▸ he
    · simp [hseen] at he

theorem mirroring_save {now : Int} (h : Mirroring s)
    (hlock : s.lock = some (.processRead device now)) :
    Mirroring (s.advance env (.processRead device now)) := by
  have ha := h.agreed fun c hc => by
    rw [hlock] at hc
    cases hc
    trivial
  have hips : ∀ ip ∈ (cachedDevice device now).ips, Text.CommaFree ip := h.working _ hlock
  have hfind : ∀ {id}, ¬ device.id = id →
      (s.cache.save (cachedDevice device now)).find? id = s.cache.find? id := by
    intro id hne
    rw [NearbyDeviceTable.find?_save]
    exact if_neg fun he => hne he.symm
  refine ⟨?_, fun id d _ => ha.seen id d, ?_, ?_⟩
  · intro id d hid hl
    obtain ⟨row, hrow, hd⟩ := ha.sound id d hl
    exact ⟨row, (hfind (hid _ rfl)).trans hrow, hd⟩
  · intro hst id row hid hrow _
    exact ha.shown hst id row ((hfind (hid _ rfl)).symm.trans hrow)
  · intro c hc
    cases hc
    have hself := @NearbyDeviceTable.find?_save s.cache (cachedDevice device now) device.id
    have hid : (cachedDevice device now).id = device.id := rfl
    rw [if_pos hid.symm] at hself
    refine ⟨_, (s.cache.find? device.id).elim now fun row => max (row.lastSeen + 1) now, hself, ?_⟩
    have hread := rowToNearbyDevice_toRow hips
    simp only [rowToNearbyDevice, nearbyDeviceToRow, cachedDevice,
      DNearbyDeviceCache.mk.injEq] at hread ⊢
    simp only [hread, and_self]

/-- An announcement that is not emitted again is what the client shows already. -/
theorem mirroring_compare (h : Mirroring s) (hlock : s.lock = some (.processSaved device)) :
    Mirroring (s.advance env (.processSaved device)) := by
  obtain ⟨row, now, hrow, hdev⟩ := h.working _ hlock
  have hshows : (discoveredDevice env device s.clock).Shows (rowToNearbyDevice row) :=
    hdev ▸ discoveredDevice_shows env s.clock now
  have hother : ∀ {id}, ¬ device.id = id → ∀ c, s.lock = some c → ¬ c.WorksOn id := by
    intro id hne c hc
    rw [hlock] at hc
    cases hc
    exact hne
  have hsends : ∀ row c, s.lock = some c → ¬ c.Sends row := by
    intro row c hc
    rw [hlock] at hc
    cases hc
    exact fun hs => hs
  have hseen : ∀ id d, s.seenInSession id = some d → lastFound s.events id = some d := by
    intro id d
    apply h.seen
    intro c hc
    rw [hlock] at hc
    cases hc
    exact fun hs => hs
  have hid : (discoveredDevice env device s.clock).id = device.id := rfl
  simp only [State.advance, hid]
  split
  · next hany =>
    obtain ⟨prev, hprev, hsame⟩ := (Option.any_eq_true _ _).mp hany
    have hlast := hseen _ _ hprev
    refine Agreed.mirroring ⟨?_, hseen, ?_⟩ fun c hc => by cases hc
    · intro id d hl
      by_cases he : device.id = id
      · subst he
        have hd : d = prev := Option.some.inj (hl.symm.trans hlast)
        exact ⟨row, hrow, hd ▸ sameSnapshot_shows hsame hshows⟩
      · exact h.sound id d (hother he) hl
    · intro hst id row' hrow'
      by_cases he : device.id = id
      · subst he
        show (lastFound s.events device.id).isSome
        rw [hlast]
        rfl
      · exact h.shown hst id row' (hother he) hrow' (hsends row')
  · refine ⟨?_, ?_, ?_, ?_⟩
    · intro id d hne hl
      exact h.sound id d (hother (hne _ rfl)) hl
    · intro id d hne hd
      have hne' : ¬ device.id = id := hne _ rfl
      simp only [Function.update_of_ne (Ne.symm hne')] at hd
      exact hseen id d hd
    · intro hst id row' hne hrow' _
      exact h.shown hst id row' (hother (hne _ rfl)) hrow' (hsends row')
    · intro c hc
      cases hc
      refine ⟨⟨row, hrow, hshows⟩, fun e he => ?_⟩
      simp only [hid, Function.update_self] at he
      exact (Option.some.inj he).symm

theorem mirroring_emitFound (h : Mirroring s) (hlock : s.lock = some (.processChanged d)) :
    Mirroring (s.advance env (.processChanged d)) := by
  obtain ⟨⟨row, hrow, hshows⟩, hseen⟩ := h.working _ hlock
  have hother : ∀ {id}, ¬ d.id = id →
      (∀ c, s.lock = some c → ¬ c.WorksOn id) ∧ ∀ c, s.lock = some c → ¬ c.Unseen id := by
    intro id hne
    constructor <;>
    · intro c hc
      rw [hlock] at hc
      cases hc
      exact hne
  have hsends : ∀ row c, s.lock = some c → ¬ c.Sends row := by
    intro row c hc
    rw [hlock] at hc
    cases hc
    exact fun hs => hs
  have hlast : ∀ id, lastFound (s.advance env (.processChanged d)).events id =
      if d.id = id then some d else lastFound s.events id := fun _ => rfl
  refine Agreed.mirroring ⟨?_, ?_, ?_⟩ fun c hc => by cases hc
  · intro id e hl
    rw [hlast] at hl
    split at hl
    · next he =>
      cases hl
      exact ⟨row, he ▸ hrow, hshows⟩
    · next he => exact h.sound id e (hother he).1 hl
  · intro id e hs
    rw [hlast]
    split
    · next he => rw [hseen e (he ▸ hs)]
    · next he => exact h.seen id e (hother he).2 hs
  · intro hst id row' hrow'
    rw [hlast]
    split
    · rfl
    · next he =>
      have hst' : NearbyEvent.discoveryStarted ∈ s.events := by
        rcases List.mem_cons.mp hst with hst | hst
        · cases hst
        · exact hst
      exact h.shown hst' id row' (hother he).1 hrow' (hsends row')

/-- The records of the query are the rows, and stay so while the lock is held. -/
theorem mirroring_send {devices : List DNearbyDeviceCache} (h : Mirroring s)
    (hlock : s.lock = some (.startSending devices)) :
    Mirroring (s.advance env (.startSending devices)) := by
  obtain ⟨hworking, hcleared⟩ := h.working _ hlock
  have hquiet : ∀ id c, s.lock = some c → ¬ c.WorksOn id ∧ ¬ c.Unseen id := by
    intro id c hc
    rw [hlock] at hc
    cases hc
    exact ⟨fun hs => hs, fun hs => hs⟩
  have hsound := fun id d => h.sound id d fun c hc => (hquiet id c hc).1
  have hseen := fun id d => h.seen id d fun c hc => (hquiet id c hc).2
  have hshown := fun hst id row => h.shown hst id row fun c hc => (hquiet id c hc).1
  cases devices with
  | nil =>
    refine Agreed.mirroring ⟨hsound, hseen, ?_⟩ fun c hc => by cases hc
    intro hst id row hrow
    refine hshown hst id row hrow fun c hc => ?_
    rw [hlock] at hc
    cases hc
    exact List.not_mem_nil
  | cons device devices =>
    obtain ⟨row, hrow, hdev⟩ := hworking device List.mem_cons_self
    have hlast : ∀ id, lastFound (s.advance env (.startSending (device :: devices))).events id =
        if device.id = id then some (discoveredDeviceFromCachedRecord env device)
        else lastFound s.events id := fun _ => rfl
    refine ⟨?_, ?_, ?_, ?_⟩
    · intro id d _ hl
      rw [hlast] at hl
      split at hl
      · next he =>
        cases hl
        exact ⟨row, he ▸ hrow, hdev ▸ discoveredDeviceFromCachedRecord_shows env _⟩
      · exact hsound id d hl
    · intro id d _ hd
      exact absurd hd (hcleared id d)
    · intro hst id row' _ hrow' hsends
      rw [hlast]
      split
      · rfl
      · next he =>
        have hst' : NearbyEvent.discoveryStarted ∈ s.events := by
          rcases List.mem_cons.mp hst with hst | hst
          · cases hst
          · exact hst
        refine hshown hst' id row' hrow' fun c hc => ?_
        rw [hlock] at hc
        cases hc
        intro hmem
        rcases List.mem_cons.mp hmem with rfl | hmem
        · have hid : row'.id = id := Table.key_of_find? hrow'
          exact he hid
        · exact hsends _ rfl hmem
    · intro c hc
      cases hc
      exact ⟨fun e he => hworking e (List.mem_cons_of_mem _ he), hcleared⟩

/-- `start_discovery` forgets what it emitted and emits what is cached. -/
theorem mirroring_start (h : Mirroring s) (hlock : s.lock = some c) :
    (c = .startLocked ∨ c = .startCleared ∨ c = .startEmitted) → Mirroring (s.advance env c) := by
  have hquiet : c.Quiet → Agreed s := by
    intro hq
    apply h.agreed
    intro e he
    rw [hlock] at he
    cases he
    exact hq
  rintro (rfl | rfl | rfl)
  · have ha := hquiet trivial
    refine Agreed.mirroring ⟨ha.sound, fun id d hd => ?_, ha.shown⟩ fun c hc => ?_
    · cases hd
    · cases hc
      exact fun id e he => by cases he
  · have ha := hquiet trivial
    refine ⟨fun id d _ => ha.sound id d, fun id d _ => ha.seen id d, ?_, ?_⟩
    · intro _ id row _ _ hsends
      exact absurd trivial (hsends .startEmitted rfl)
    · intro c hc
      cases hc
      exact h.working _ hlock
  · have hfree : ∀ id c, s.lock = some c → ¬ c.WorksOn id ∧ ¬ c.Unseen id := by
      intro id c hc
      rw [hlock] at hc
      cases hc
      exact ⟨fun hs => hs, fun hs => hs⟩
    refine ⟨fun id d _ => h.sound id d fun c hc => (hfree id c hc).1,
      fun id d _ => h.seen id d fun c hc => (hfree id c hc).2, ?_, ?_⟩
    · intro _ id row _ hrow hsends
      refine absurd ?_ (hsends _ rfl)
      have hid : row.id = id := Table.key_of_find? hrow
      have hrow' : s.cache.find? (rowToNearbyDevice row).id = some row := by
        rw [show (rowToNearbyDevice row).id = id from hid]
        exact hrow
      exact NearbyDeviceTable.mem_getCached.mpr ⟨row, hrow', rfl⟩
    · intro c hc
      cases hc
      exact ⟨fun device hd => NearbyDeviceTable.mem_getCached.mp hd, h.working _ hlock⟩

/-- A verification that deletes a row takes it from `seen_in_session` and from the client too. -/
theorem mirroring_verify (h : Mirroring s) (hlock : s.lock = some c) :
    (∃ run device, c = .verifyLocked run device false) ∨
      (∃ u, c = .verifyDeleted u ∨ c = .verifyRemoved u) → Mirroring (s.advance env c) := by
  rintro (⟨run, device, rfl⟩ | ⟨u, rfl | rfl⟩)
  · have ha : Agreed s := by
      apply h.agreed
      intro e he
      rw [hlock] at he
      cases he
      trivial
    simp only [State.advance]
    by_cases hm : (s.cache.matching device.id device.lastSeen).isSome
    · rw [NearbyDeviceTable.deleteIfLastSeenMatches_of_isSome hm]
      have hfind : ∀ {id}, ¬ device.id = id → (s.cache.erase device.id).find? id = s.cache.find? id :=
        fun hne => Table.find?_erase_ne (Ne.symm hne)
      refine ⟨?_, fun id d _ => ha.seen id d, ?_, ?_⟩
      · intro id d hid hl
        obtain ⟨row, hrow, hd⟩ := ha.sound id d hl
        exact ⟨row, (hfind (hid _ rfl)).trans hrow, hd⟩
      · intro hst id row hid hrow _
        exact ha.shown hst id row ((hfind (hid _ rfl)).symm.trans hrow)
      · intro c hc
        cases hc
        exact Table.find?_erase_self
    · rw [NearbyDeviceTable.deleteIfLastSeenMatches_of_not hm]
      refine Agreed.mirroring (ha.congr rfl rfl rfl) ?_
      intro c hc
      simp at hc
  · have hgone := h.working _ hlock
    have hother : ∀ {id}, ¬ u = id →
        (∀ c, s.lock = some c → ¬ c.WorksOn id) ∧ ∀ c, s.lock = some c → ¬ c.Unseen id := by
      intro id hne
      constructor <;>
      · intro c hc
        rw [hlock] at hc
        cases hc
        exact hne
    have hsends : ∀ row c, s.lock = some c → ¬ c.Sends row := by
      intro row c hc
      rw [hlock] at hc
      cases hc
      exact fun hs => hs
    refine ⟨?_, ?_, ?_, ?_⟩
    · intro id d hid
      exact h.sound id d (hother (hid _ rfl)).1
    · intro id d _ hd
      change Function.update s.seenInSession u none id = some d at hd
      by_cases he : id = u
      · subst he
        simp at hd
      · rw [Function.update_of_ne he] at hd
        exact h.seen id d (hother (Ne.symm he)).2 hd
    · intro hst id row hid hrow _
      exact h.shown hst id row (hother (hid _ rfl)).1 hrow (hsends row)
    · intro c hc
      cases hc
      refine ⟨hgone, fun e he => ?_⟩
      change Function.update s.seenInSession u none u = some e at he
      simp at he
  · obtain ⟨hgone, hunseen⟩ := h.working _ hlock
    have hother : ∀ {id}, ¬ u = id → ∀ c, s.lock = some c → ¬ c.WorksOn id := by
      intro id hne c hc
      rw [hlock] at hc
      cases hc
      exact hne
    have hfree : ∀ id row c, s.lock = some c → ¬ c.Unseen id ∧ ¬ c.Sends row := by
      intro id row c hc
      rw [hlock] at hc
      cases hc
      exact ⟨fun hs => hs, fun hs => hs⟩
    have hlast : ∀ id, lastFound (s.advance env (.verifyRemoved u)).events id =
        if u = id then none else lastFound s.events id := fun _ => rfl
    refine Agreed.mirroring ⟨?_, ?_, ?_⟩ fun c hc => by cases hc
    · intro id d hl
      rw [hlast] at hl
      split at hl
      · cases hl
      · next he => exact h.sound id d (hother he) hl
    · intro id d hd
      rw [hlast]
      split
      · next he => exact absurd (he ▸ hd) (hunseen d)
      · next he =>
        exact h.seen id d (fun c hc => by rw [hlock] at hc; cases hc; exact fun hs => hs) hd
    · intro hst id row hrow
      rw [hlast]
      split
      · next he =>
        have hrow' : s.cache.find? u = some row := he ▸ hrow
        simp [hgone] at hrow'
      · next he =>
        have hst' : NearbyEvent.discoveryStarted ∈ s.events := by
          rcases List.mem_cons.mp hst with hst | hst
          · cases hst
          · exact hst
        exact h.shown hst' id row (hother he) hrow fun c hc => (hfree id row c hc).2

/-- A refresh changes no field that is shown. -/
theorem mirroring_refresh {run : Nat} {record : DNearbyDeviceCache} {now : Int} (h : Mirroring s)
    (hlock : s.lock = some (.verifyRead run record now)) :
    Mirroring (s.advance env (.verifyRead run record now)) := by
  have ha : Agreed s := by
    apply h.agreed
    intro e he
    rw [hlock] at he
    cases he
    trivial
  have hfind : ∀ id, (s.advance env (.verifyRead run record now)).cache.find? id =
      if id = record.id then (s.cache.find? id).map fun row =>
        if row.lastSeen = record.lastSeen then { row with lastSeen := max (row.lastSeen + 1) now }
        else row
      else s.cache.find? id := fun _ => NearbyDeviceTable.find?_refresh
  refine Agreed.mirroring ⟨?_, ha.seen, ?_⟩ fun c hc => by cases hc
  · intro id d hl
    obtain ⟨row, hrow, hd⟩ := ha.sound id d hl
    rw [hfind, hrow]
    split
    · refine ⟨_, rfl, ?_⟩
      beta_reduce
      split
      · exact ⟨hd.id, hd.name, hd.ips, hd.port, hd.deviceType, hd.version, hd.platform⟩
      · exact hd
    · exact ⟨row, rfl, hd⟩
  · intro hst id row hrow
    rw [hfind] at hrow
    split at hrow
    · obtain ⟨row', hrow', -⟩ := Option.map_eq_some_iff.mp hrow
      exact ha.shown hst id row' hrow'
    · exact ha.shown hst id row hrow

/-- A step from one place that does not show to another. -/
theorem Mirroring.of_quiet (h : Mirroring s) (hq : ∀ c, s.lock = some c → c.Quiet)
    (hcache : t.cache = s.cache) (hevents : t.events = s.events)
    (hseen : t.seenInSession = s.seenInSession) (hw : ∀ c, t.lock = some c → c.Working t) :
    Mirroring t :=
  ((h.agreed hq).congr hcache hevents hseen).mirroring hw

theorem mirroring_advance (h : Mirroring s) (hlock : s.lock = some c) :
    Mirroring (s.advance env c) := by
  have hquiet : c.Quiet → ∀ e, s.lock = some e → e.Quiet := by
    intro hq e he
    rw [hlock] at he
    cases he
    exact hq
  cases c with
  | processLocked device =>
    refine h.of_quiet (hquiet trivial) rfl rfl rfl fun c hc => ?_
    cases hc
    exact h.working _ hlock
  | processRead device now => exact mirroring_save h hlock
  | processSaved device => exact mirroring_compare h hlock
  | processChanged d => exact mirroring_emitFound h hlock
  | startLocked => exact mirroring_start h hlock (.inl rfl)
  | startCleared => exact mirroring_start h hlock (.inr (.inl rfl))
  | startEmitted => exact mirroring_start h hlock (.inr (.inr rfl))
  | startSending devices => exact mirroring_send h hlock
  | verifyLocked run device ok =>
    cases ok with
    | true =>
      refine h.of_quiet (hquiet trivial) rfl rfl rfl fun c hc => ?_
      cases hc
      trivial
    | false => exact mirroring_verify h hlock (.inl ⟨run, device, rfl⟩)
  | verifyRead run device now => exact mirroring_refresh h hlock
  | verifyDeleted u => exact mirroring_verify h hlock (.inr ⟨u, .inl rfl⟩)
  | verifyRemoved u => exact mirroring_verify h hlock (.inr ⟨u, .inr rfl⟩)

theorem mirroring_step (h : Mirroring s) (hp : a.PlainIps) (ht : next clientId s a = some t) :
    Mirroring t := by
  have hfree : s.lock.isNone = true → ∀ c, s.lock = some c → c.Quiet := by
    intro hn c hc
    simp [hc] at hn
  cases a with
  | tick | snapshot | stopClear =>
    cases ht
    refine h.of_unlocked rfl rfl rfl ?_
    first | exact .inl rfl | exact .inr rfl
  | stopEmit =>
    cases ht
    refine ⟨h.sound, h.seen, fun hst => h.shown ?_, fun c hc => (h.working c hc).congr rfl ?_⟩
    · rcases List.mem_cons.mp hst with hst | hst
      · cases hst
      · exact hst
    · exact fun _ _ => id
  | lockProcess device =>
    simp only [next] at ht
    split at ht
    · next hl =>
      cases ht
      refine h.of_quiet (hfree hl.2) rfl rfl rfl fun c hc => ?_
      cases hc
      exact hp
    · cases ht
  | lockStart =>
    simp only [next] at ht
    split at ht
    · next hl =>
      cases ht
      refine h.of_quiet (hfree hl) rfl rfl rfl fun c hc => ?_
      cases hc
      trivial
    · cases ht
  | lockVerify run ok =>
    simp only [next] at ht
    split at ht
    · split at ht
      · next hl =>
        cases ht
        refine h.of_quiet (hfree hl) rfl rfl rfl fun c hc => ?_
        cases hc
        trivial
      · cases ht
    · cases ht
  | cutoff run =>
    simp only [next] at ht
    split at ht
    · cases ht
      exact h.of_unlocked rfl rfl rfl (.inl rfl)
    · cases ht
  | advance env =>
    obtain ⟨c, hc, rfl⟩ := Option.map_eq_some_iff.mp ht
    exact mirroring_advance h hc

theorem mirroring_reachable
    (h : Runs.ReachableUnder (system clientId) (fun _ a => a.PlainIps) s) : Mirroring s :=
  h.invariant (fun _ => mirroring_initial) fun _ _ _ hs hp ht => mirroring_step hs hp ht

/-- After the first `start_discovery`, whenever no section is in progress, a client shows exactly
the cached devices, each as it is cached. -/
theorem nearbyEvents_mirror_cache
    (h : Runs.ReachableUnder (system clientId) (fun _ a => a.PlainIps) s)
    (hstarted : .discoveryStarted ∈ s.events) (hidle : s.lock = none) (id : String) :
    ((lastFound s.events id).isSome ↔ (s.cache.find? id).isSome) ∧
      ∀ d row, lastFound s.events id = some d → s.cache.find? id = some row →
        d.Shows (rowToNearbyDevice row) := by
  have ha : Agreed s := (mirroring_reachable h).agreed fun c hc => by simp [hidle] at hc
  refine ⟨⟨?_, ?_⟩, ?_⟩
  · intro hl
    obtain ⟨d, hd⟩ := Option.isSome_iff_exists.mp hl
    obtain ⟨row, hrow, -⟩ := ha.sound id d hd
    simp [hrow]
  · intro hc
    obtain ⟨row, hrow⟩ := Option.isSome_iff_exists.mp hc
    exact ha.shown hstarted id row hrow
  · intro d row hd hrow
    obtain ⟨row', hrow', hshows⟩ := ha.sound id d hd
    cases hrow.symm.trans hrow'
    exact hshows

/-- A tablet announced before the scan starts, and shown by it. -/
def announcedTablet : FoundDevice :=
  ⟨"tablet", "Tablet", ["10.0.0.9", "10.0.0.3"], [], 8443, "TABLET", "2", "android"⟩

def freshManager : State where
  cache := Table.empty
  seenInSession := fun _ => none
  lock := none
  clock := 100000
  verifications := fun _ => none
  nextRun := 0
  events := []
  history := []

def noPeers : Environment := ⟨fun _ => false, fun _ => none⟩

instance (s : String) : Decidable (Text.CommaFree s) :=
  decidable_of_iff (s ≠ "" ∧ ',' ∉ s.toList ∧ Text.trim s = s)
    ⟨fun ⟨h, k, l⟩ => ⟨h, k, l⟩, fun ⟨h, k, l⟩ => ⟨h, k, l⟩⟩

instance (a : Action) : Decidable a.PlainIps :=
  match a with
  | .lockProcess device => inferInstanceAs (Decidable (∀ ip ∈ device.ips, Text.CommaFree ip))
  | .tick _ | .lockStart | .lockVerify _ _ | .advance _ | .snapshot | .cutoff _ | .stopClear
  | .stopEmit => .isTrue trivial

theorem nearbyEvents_mirror_tablet : ∃ s,
    Runs.ReachableUnder (system "desktop") (fun _ a => a.PlainIps) s ∧
      (s.cache.find? "tablet").isSome ∧ (lastFound s.events "tablet").isSome := by
  have hinit : (system "desktop").init freshManager := ⟨rfl, rfl, rfl, rfl, rfl⟩
  have hrun : ((system "desktop").run (fun _ a => a.PlainIps) freshManager
      (.lockProcess announcedTablet :: List.replicate 4 (.advance noPeers) ++
        .lockStart :: List.replicate 5 (.advance noPeers))).any
      (fun s => s.lock.isNone && s.events.contains .discoveryStarted &&
        (s.cache.find? "tablet").isSome) = true := by decide +kernel
  obtain ⟨s, hs, hp⟩ := Runs.ReachableUnder.of_run hinit hrun
  simp only [Bool.and_eq_true, Option.isNone_iff_eq_none, List.contains_iff_mem] at hp
  exact ⟨s, hs, hp.2, ((nearbyEvents_mirror_cache hs hp.1.2 hp.1.1 "tablet").1).mpr hp.2⟩

end PlainRs.LocalApi.Nearby
