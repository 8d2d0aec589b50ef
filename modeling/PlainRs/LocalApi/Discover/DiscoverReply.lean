import PlainRs.LocalApi.Discover.PeerCoverage

/-! `reconnect_peer` and the discovery answers that arrive while it waits. -/
namespace PlainRs.LocalApi.PeerStatus

open PlainRs.Chat PlainRs.Mdns PlainRs.Utils

/-- What an announcement says of a peer. -/
def told (device : FoundDevice) : String × String × UInt16 × DeviceType :=
  (device.name, ",".intercalate device.ips, device.port,
    (DeviceType.fromStr device.deviceType).getD .other)

/-- What a row says of it. -/
def shown (peer : DPeer) : String × String × UInt16 × DeviceType :=
  (peer.name, peer.ip, peer.port, peer.deviceType)

/-- The clock of the last answer that says something else than what was said before it. -/
def lastNews : String × String × UInt16 × DeviceType → List (FoundDevice × Int) → Option Int
  | _, [] => none
  | said, (device, now) :: answers =>
    (lastNews (told device) answers).or (if told device = said then none else some now)

/-- The answer of a peer that the action handles, with the clock it is handled at. -/
def Action.answer (id : String) : Action → Option (FoundDevice × Int)
  | .discovered device now => if device.id = id then some (device, now) else none
  | _ => none

def answersOf (id : String) (as : List Action) : List (FoundDevice × Int) :=
  as.filterMap (·.answer id)

/-- What may happen while the call waits: it stands still and its peer is not withdrawn. -/
def Action.duringWait (n : Nat) (id : String) : Action → Bool
  | .step m _ => m ≠ n
  | .unpair _ peerId _ | .delete _ peerId _ => peerId ≠ id
  | _ => true

/-- The wait ends with a call of `open_socket` for the address of the answer. -/
def OpensAt (clientId : String) (t : State) (n : Nat) (device : FoundDevice) : Prop :=
  ∃ u c refreshed, next clientId t (.step n true) = some u ∧
    u.calls n = some c ∧ c.pc = .opening refreshed ∧
    refreshed.ip = ",".intercalate device.ips ∧ refreshed.port = device.port

/-- The peer's last news came in another second than the row's last change, and the last answer has
an address and a port. -/
def Noticed (peer : DPeer) (answers : List (FoundDevice × Int)) (device : FoundDevice) : Prop :=
  (lastNews (shown peer) answers).any (fun clock => isoFromUnixMillis clock ≠ peer.updatedAt) = true ∧
    ",".intercalate device.ips ≠ "" ∧ device.port ≠ 0

variable {clientId id : String} {s t u : State} {a : Action} {as : List Action} {n : Nat}
  {peer : DPeer} {device : FoundDevice} {now : Int}

theorem answered_eq : answered device now peer = if shown peer = told device then none else
    some { peer with
      name := device.name
      ip := ",".intercalate device.ips
      port := device.port
      deviceType := (DeviceType.fromStr device.deviceType).getD .other
      updatedAt := isoFromUnixMillis now } := by
  simp only [answered, shown, told, Prod.mk.injEq]

/-- After an answer the row says what it says, and has changed only if that was news. -/
theorem shown_answered : shown ((answered device now peer).getD peer) = told device := by
  rw [answered_eq]
  split
  · next h => exact h
  · rfl

theorem updatedAt_answered : ((answered device now peer).getD peer).updatedAt =
    if told device = shown peer then peer.updatedAt else isoFromUnixMillis now := by
  rw [answered_eq]
  by_cases h : told device = shown peer
  · rw [if_pos h, if_pos h.symm]
    rfl
  · rw [if_neg h, if_neg fun he => h he.symm]
    rfl

theorem isPaired_answered :
    ((answered device now peer).getD peer).isPaired = peer.isPaired := by
  rw [answered_eq]
  split <;> rfl

theorem getPeerById_unpairPeer_ne {svc : ChatService} {peerId stamp : String} (h : id ≠ peerId) :
    (svc.unpairPeer peerId stamp).service.db.getPeerById id = svc.db.getPeerById id := by
  unfold ChatService.unpairPeer
  split
  · rfl
  · simp [ChatDb.getPeerById, ChatDb.updatePeerStatus, h]

theorem getPeerById_deletePeer_ne {svc : ChatService} {peerId stamp : String} (h : id ≠ peerId) :
    (svc.deletePeer peerId stamp).service.db.getPeerById id = svc.db.getPeerById id := by
  unfold ChatService.deletePeer
  split
  · rfl
  · dsimp only [ChatService.db_refreshPeerKeyCache]
    split <;> simp [ChatDb.getPeerById, ChatDb.updatePeerStatusAndKey, ChatDb.deletePeer, h]

/-- A waiting call stays where it is. -/
theorem calls_duringWait {c : Call} (hc : s.calls n = some c) (hw : a.duringWait n id = true)
    (ht : next clientId s a = some t) : t.calls n = some c := by
  have hne : a.call ≠ some n := by
    intro he
    cases a with
    | start | reconnectNow | discovered | stopFlag | stopStates => cases he
    | step m built =>
      cases he
      simp [Action.duringWait] at hw
    | force | fire | setOnline =>
      cases he
      simp [next, hc] at ht
    | authenticate | close =>
      cases he
      simp only [next] at ht
      split at ht <;> simp [hc] at ht
    | unpair | delete =>
      cases he
      simp [next, hc] at ht
  rw [calls_next_of_ne ht hne, hc]

/-- A call's step changes no row. -/
theorem service_step {c : Call} {built : Bool} : (s.step clientId n c built).service = s.service := by
  obtain ⟨peerId, thread, pc⟩ := c
  cases pc <;> simp only [State.step] <;> (try split) <;> (try split) <;> (try split) <;> rfl

/-- The row of a peer after an action of the wait. -/
def rowAfter (id : String) (peer : DPeer) (a : Action) : DPeer :=
  (a.answer id).elim peer fun (device, now) => (answered device now peer).getD peer

/-- Only an answer of the peer changes its row. -/
theorem row_duringWait (hrow : s.service.db.getPeerById id = some peer)
    (hpaired : peer.isPaired = true) (hid : id ≠ clientId) (hw : a.duringWait n id = true)
    (ht : next clientId s a = some t) :
    t.service.db.getPeerById id = some (rowAfter id peer a) := by
  cases a with
  | start | stopFlag | stopStates =>
    cases ht
    exact hrow
  | reconnectNow | force | fire | setOnline =>
    simp only [next] at ht
    split at ht <;> cases ht
    exact hrow
  | authenticate | close =>
    simp only [next] at ht
    split at ht
    · split at ht <;> cases ht
      exact hrow
    · cases ht
  | unpair m peerId stamp =>
    simp only [next, State.withdraw] at ht
    split at ht
    · cases ht
      have hne : id ≠ peerId := by
        rintro rfl
        simp [Action.duringWait] at hw
      split <;> exact (getPeerById_unpairPeer_ne hne).trans hrow
    · cases ht
  | delete m peerId stamp =>
    simp only [next, State.withdraw] at ht
    split at ht
    · cases ht
      have hne : id ≠ peerId := by
        rintro rfl
        simp [Action.duringWait] at hw
      split <;> exact (getPeerById_deletePeer_ne hne).trans hrow
    · cases ht
  | discovered device now =>
    simp only [next] at ht
    split at ht <;> cases ht
    · next he => rw [rowAfter, Action.answer, if_neg (he ▸ hid.symm), hrow, Option.elim_none]
    · change (updateKnownPeer s.service.db device now).getPeerById id = _
      rw [getPeerById_updateKnownPeer, hrow, Option.map_some]
      by_cases he : device.id = id
      · rw [if_pos ⟨he.symm, .inl hpaired⟩, rowAfter, Action.answer, if_pos he, Option.elim_some]
      · rw [if_neg fun h => he h.1.symm, rowAfter, Action.answer, if_neg he, Option.elim_none]
  | step m built =>
    obtain ⟨c, -, rfl⟩ := Option.map_eq_some_iff.mp ht
    rw [service_step, hrow]
    rfl

/-- At the end of the wait the row says what the last answer said, and it is as old as the last
news. -/
theorem row_run {c : Call} (hid : id ≠ clientId) (hc : s.calls n = some c)
    (hrow : s.service.db.getPeerById id = some peer) (hpaired : peer.isPaired = true)
    (hrun : (system clientId).run (fun _ a => a.duringWait n id = true) s as = some t) :
    t.calls n = some c ∧ ∃ refreshed, t.service.db.getPeerById id = some refreshed ∧
      shown refreshed = ((answersOf id as).getLast?.map (told ·.1)).getD (shown peer) ∧
      refreshed.updatedAt =
        ((lastNews (shown peer) (answersOf id as)).map isoFromUnixMillis).getD peer.updatedAt := by
  induction as generalizing s peer with
  | nil =>
    simp only [Runs.System.run, Option.some.injEq] at hrun
    subst hrun
    exact ⟨hc, peer, hrow, rfl, rfl⟩
  | cons a as ih =>
    simp only [Runs.System.run] at hrun
    split at hrun
    · next hw =>
      obtain ⟨u, hu, hrun⟩ := Option.bind_eq_some_iff.mp hrun
      have hcu := calls_duringWait hc hw hu
      have hrowu := row_duringWait hrow hpaired hid hw hu
      cases ha : a.answer id with
      | none =>
        rw [rowAfter, ha, Option.elim_none] at hrowu
        rw [answersOf, List.filterMap_cons_none ha]
        exact ih hcu hrowu hpaired hrun
      | some answer =>
        obtain ⟨device, now⟩ := answer
        rw [rowAfter, ha, Option.elim_some] at hrowu
        obtain ⟨hct, refreshed, hr, hsaid, hat⟩ :=
          ih hcu hrowu (isPaired_answered.trans hpaired) hrun
        rw [answersOf, List.filterMap_cons_some ha]
        refine ⟨hct, refreshed, hr, ?_, ?_⟩
        · rw [hsaid, shown_answered, List.getLast?_cons, answersOf]
          cases (as.filterMap (·.answer id)).getLast? <;> rfl
        · rw [hat, shown_answered, updatedAt_answered, answersOf, lastNews]
          cases lastNews (told device) (as.filterMap (·.answer id)) with
          | some clock => rfl
          | none => by_cases hnews : told device = shown peer <;> simp [hnews]
    · cases hrun

/-- `reconnect_peer` opens a socket at the address of the last answer of the wait exactly when that
answer has an address and a port and the last news fell in another second than the row's last
change. -/
theorem answered_opens {thread : Thread} {last : FoundDevice × Int}
    (hlooking : s.calls n = some ⟨id, thread, .looking⟩)
    (hrow : s.service.db.getPeerById id = some peer) (hconnect : shouldConnect clientId peer = true)
    (hkey : hasKey peer = true)
    (hbrowse : next clientId s (.step n true) = some u)
    (hrun : (system clientId).run (fun _ a => a.duringWait n id = true) u as = some t)
    (hlast : (answersOf id as).getLast? = some last) :
    OpensAt clientId t n last.1 ↔ Noticed peer (answersOf id as) last.1 := by
  have hid : id ≠ clientId := by
    rintro rfl
    have hpid := ChatDb.id_of_getPeerById hrow
    simp [shouldConnect, hpid] at hconnect
  have hpaired : peer.isPaired = true := by
    simp only [shouldConnect, Bool.and_eq_true] at hconnect
    exact hconnect.1.1
  have hpid : peer.id = id := ChatDb.id_of_getPeerById hrow
  have hu : u = s.goto n ⟨id, thread, .browsing peer⟩ := by
    simp only [next, hlooking, Option.map_some, Option.some.injEq, State.step, hrow, hconnect, hkey,
      Bool.and_self, if_true] at hbrowse
    exact hbrowse.symm
  subst hu
  have hbrowsing : (s.goto n ⟨id, thread, .browsing peer⟩).service.db.getPeerById id = some peer := hrow
  obtain ⟨hcall, refreshed, hread, hsaid, hat⟩ :=
    row_run hid (Function.update_self ..) hbrowsing hpaired hrun
  rw [hlast, Option.map_some, Option.getD_some] at hsaid
  have hip : refreshed.ip = ",".intercalate last.1.ips := congrArg (·.2.1) hsaid
  have hport : refreshed.port = last.1.port := congrArg (·.2.2.1) hsaid
  have hstep : next clientId t (.step n true) =
      some (t.goto n ⟨id, thread, afterBrowse peer refreshed⟩) := by
    simp only [next, hcall, Option.map_some, State.step, hpid, hread, Option.getD_some]
  have hopens : OpensAt clientId t n last.1 ↔ ∃ r, afterBrowse peer refreshed = .opening r ∧
      r.ip = ",".intercalate last.1.ips ∧ r.port = last.1.port := by
    constructor
    · rintro ⟨v, c, r, hv, hc, hpc, hr⟩
      cases hstep.symm.trans hv
      cases (Function.update_self ..).symm.trans hc
      exact ⟨r, hpc, hr⟩
    · rintro ⟨r, hpc, hr⟩
      exact ⟨_, _, r, hstep, Function.update_self .., hpc, hr⟩
  have hnews : (lastNews (shown peer) (answersOf id as)).any
        (fun clock => isoFromUnixMillis clock ≠ peer.updatedAt) = true ↔
      refreshed.updatedAt ≠ peer.updatedAt := by
    rw [hat]
    cases lastNews (shown peer) (answersOf id as) <;> simp
  rw [hopens, Noticed, hnews, afterBrowse, hip, hport]
  split
  · next he => simp [he]
  · next he =>
    split
    · next hempty =>
      refine iff_of_false (by simp) fun hn => ?_
      exact hempty.elim hn.2.1 hn.2.2
    · next hfull =>
      rw [not_or] at hfull
      exact iff_of_true ⟨refreshed, rfl, hip, hport⟩ ⟨he, hfull⟩

/-- Whatever a connectable peer answers during the wait, a socket is opened where it answered from. -/
def AnswersReconnect : Prop :=
  ∀ clientId s u t id n thread peer as last, Runs.Reachable (system clientId) s →
    s.calls n = some ⟨id, thread, .looking⟩ → s.service.db.getPeerById id = some peer →
    shouldConnect clientId peer = true → hasKey peer = true →
    next clientId s (.step n true) = some u →
    (system clientId).run (fun _ a => a.duringWait n id = true) u as = some t →
    (answersOf id as).getLast? = some last → OpensAt clientId t n last.1

/-- Alice's first request to Bob could not be built; the timer has run out. -/
def retryBob : List Action :=
  [.start, .force 0 bob .runtime, .step 0 true, .step 0 false, .step 0 true, .step 0 true,
    .fire 1 "bob" 1000, .step 1 true]

def Call.isLooking (id : String) (c : Call) : Bool :=
  c.peerId = id && c.thread = .plain && match c.pc with
    | .looking => true
    | _ => false

theorem Call.isLooking_iff {c : Call} : c.isLooking id = true ↔ c = ⟨id, .plain, .looking⟩ := by
  obtain ⟨peerId, thread, pc⟩ := c
  cases pc <;> simp [Call.isLooking]

theorem call_of_isLooking (h : (s.calls n).any (·.isLooking id) = true) :
    s.calls n = some ⟨id, .plain, .looking⟩ := by
  obtain ⟨c, hc, hl⟩ := (Option.any_eq_true _ _).mp h
  rw [hc, Call.isLooking_iff.mp hl]

def waiting : State := ((system "alice").run (fun _ _ => True) freshAlice retryBob).getD freshAlice

/-- Bob as he announces himself from the address `ip`. -/
def bobAt (ip : String) : FoundDevice := ⟨"bob", "Bob", [ip], [], 8443, "PHONE", "", ""⟩

/-- Alice browses for him. -/
def browsing : State := waiting.step "alice" 1 ⟨"bob", .plain, .looking⟩ true

def afterAnswer (ip : String) : Option State :=
  (system "alice").run (fun _ a => a.duringWait 1 "bob" = true) browsing [.discovered (bobAt ip) 0]

/-- What the runs come to. -/
theorem retryBob_runs :
    ((system "alice").run (fun _ _ => True) freshAlice retryBob).isSome = true ∧
    (waiting.calls 1).any (·.isLooking "bob") = true ∧
    waiting.service.db.getPeerById "bob" = some bob ∧ (afterAnswer "10.0.0.9").isSome = true ∧
    Noticed bob [(bobAt "10.0.0.9", 0)] (bobAt "10.0.0.9") := by
  unfold Noticed
  exact ⟨by decide +kernel, by decide +kernel, by decide +kernel, by decide +kernel,
    by decide +kernel⟩

theorem waiting_looking : waiting.calls 1 = some ⟨"bob", .plain, .looking⟩ :=
  call_of_isLooking retryBob_runs.2.1

theorem waiting_bob : waiting.service.db.getPeerById "bob" = some bob := retryBob_runs.2.2.1

theorem waiting_reachable : Runs.Reachable (system "alice") waiting := by
  obtain ⟨s, hs⟩ := Option.isSome_iff_exists.mp retryBob_runs.1
  have hw : waiting = s := by rw [waiting, hs, Option.getD_some]
  exact hw ▸ Runs.ReachableUnder.run (.init freshAlice_initial) hs

theorem browsing_next : next "alice" waiting (.step 1 true) = some browsing := by
  rw [next, waiting_looking, Option.map_some, browsing]

/-- Bob answers from the address he had: the row is not written, and the retry is put off. -/
theorem unchangedAnswer_missed : ¬ AnswersReconnect := by
  intro h
  have hopens : (afterAnswer "10.0.0.2").any (fun t =>
      ((next "alice" t (.step 1 true)).bind (·.calls 1)).any fun c => match c.pc with
        | .opening _ => false
        | _ => true) = true := by
    decide +kernel
  obtain ⟨t, ht, hp⟩ := (Option.any_eq_true _ _).mp hopens
  obtain ⟨u, c, refreshed, hu, hc, hpc, -⟩ := h "alice" waiting browsing t "bob" 1 .plain bob _ _
    waiting_reachable waiting_looking waiting_bob (by decide) hasKey_bob browsing_next ht rfl
  simp [hu, hc, hpc] at hp

/-- Bob answers from another address. -/
theorem answered_opens_bob :
    ∃ t, afterAnswer "10.0.0.9" = some t ∧ OpensAt "alice" t 1 (bobAt "10.0.0.9") := by
  obtain ⟨t, ht⟩ := Option.isSome_iff_exists.mp retryBob_runs.2.2.2.1
  exact ⟨t, ht, (answered_opens waiting_looking waiting_bob (by decide) hasKey_bob
    browsing_next ht rfl).mpr retryBob_runs.2.2.2.2⟩

end PlainRs.LocalApi.PeerStatus
