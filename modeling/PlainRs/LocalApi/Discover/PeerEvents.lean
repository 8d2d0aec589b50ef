import PlainRs.Base.Along
import PlainRs.LocalApi.Discover.PeerCoverage

/-! Whether the peer status events tell a client what `is_online` says. -/
namespace PlainRs.LocalApi.PeerStatus

open PlainRs.Chat

variable {clientId : String} {s t : State} {a : Action} {as : List Action} {n : Nat} {c : Call}
  {p : String} {v built : Bool}

def isOnline (s : State) (p : String) : Bool := (s.states p).online

/-- What the last event about a peer says; offline when there was none. -/
def lastEvent (events : List (String × Bool)) (p : String) : Bool :=
  ((events.find? fun e => e.1 = p).map (·.2)).getD false

/-- The event that the next step of a call emits. -/
def Pc.emits : Pc → Option Bool
  | .closed _ => some false
  | .emitting online => some online
  | _ => none

/-- Call `n` has an event about the peer to emit. -/
def Announces (s : State) (p : String) (n : Nat) : Prop :=
  ∃ c, s.calls n = some c ∧ c.peerId = p ∧ c.pc.emits.isSome = true

/-- A peer that no event is to come about shows as it is. -/
def Mirrors (s : State) : Prop :=
  ∀ p, (∀ n, ¬ Announces s p n) → lastEvent s.events p = isOnline s p

/-- An event emitted as the only one to come says what the flag says. -/
def TellsFlag (s : State) : Action → Prop
  | .step n _ => ∀ c v, s.calls n = some c → c.pc.emits = some v →
      (∀ m, m ≠ n → ¬ Announces s c.peerId m) → v = isOnline s c.peerId
  | _ => True

theorem lastEvent_self {events : List (String × Bool)} : lastEvent ((p, v) :: events) p = v := by
  simp [lastEvent]

theorem lastEvent_ne {events : List (String × Bool)} {q : String} (h : q ≠ p) :
    lastEvent ((p, v) :: events) q = lastEvent events q := by
  simp [lastEvent, Ne.symm h]

theorem mirrors_initial (h : Initial s) : Mirrors s := by
  intro p _
  rw [isOnline, h.states, h.events]
  rfl

/-- A step that emits nothing and announces every flag it changes. -/
theorem Mirrors.of_quiet (h : Mirrors s) (hevents : t.events = s.events)
    (hkeep : ∀ q m, Announces s q m → ∃ m, Announces t q m)
    (honline : ∀ q, (∀ m, ¬ Announces t q m) → isOnline t q = isOnline s q) : Mirrors t := by
  intro q hq
  have hs : ∀ m, ¬ Announces s q m := by
    intro m hm
    obtain ⟨m', hm'⟩ := hkeep q m hm
    exact hq m' hm'
  rw [hevents, honline q hq]
  exact h q hs

/-- An emission shows the peer as it is exactly if another event is to come or it says what the
flag says. -/
theorem mirrors_emit (h : Mirrors s) (hc : s.calls n = some c)
    (hevents : t.events = (c.peerId, v) :: s.events) (hstates : t.states = s.states)
    (hcalls : ∀ m, m ≠ n → t.calls m = s.calls m) (hn : ∀ q, ¬ Announces t q n) :
    Mirrors t ↔ ((∀ m, m ≠ n → ¬ Announces s c.peerId m) → v = isOnline s c.peerId) := by
  have hother : ∀ q m, m ≠ n → (Announces t q m ↔ Announces s q m) := by
    intro q m hm
    rw [Announces, hcalls m hm, Announces]
  have honline : ∀ q, isOnline t q = isOnline s q := by
    intro q
    rw [isOnline, hstates, isOnline]
  constructor
  · intro ht hlast
    have hsilent : ∀ m, ¬ Announces t c.peerId m := by
      intro m hm
      by_cases he : m = n
      · exact hn _ (he ▸ hm)
      · exact hlast m he ((hother _ m he).mp hm)
    have hshown := ht c.peerId hsilent
    rwa [hevents, lastEvent_self, honline] at hshown
  · intro hlast q hq
    rw [hevents, honline]
    by_cases he : q = c.peerId
    · rw [he, lastEvent_self]
      refine hlast fun m hm hs => hq m ?_
      rw [he]
      exact (hother _ m hm).mpr hs
    · rw [lastEvent_ne he]
      refine h q fun m hm => ?_
      by_cases hmn : m = n
      · obtain ⟨c', hc', hp, -⟩ := hmn ▸ hm
        cases hc.symm.trans hc'
        exact he hp.symm
      · exact hq m ((hother q m hmn).mpr hm)

/-- A call that begins or moves without an event of its own to emit. -/
theorem Mirrors.of_call (h : Mirrors s) (hn : ∀ q, ¬ Announces s q n)
    (hcalls : ∀ m, m ≠ n → t.calls m = s.calls m) (hevents : t.events = s.events)
    (honline : ∀ q, isOnline t q = isOnline s q ∨ Announces t q n) : Mirrors t := by
  refine h.of_quiet hevents ?_ ?_
  · intro q m hm
    have hmn : m ≠ n := by
      rintro rfl
      exact hn q hm
    refine ⟨m, ?_⟩
    rwa [Announces, hcalls m hmn]
  · intro q hq
    exact (honline q).resolve_right (hq n)

theorem not_announces_of_none (hn : s.calls n = none) (q : String) : ¬ Announces s q n := by
  rintro ⟨c, hc, -⟩
  simp [hn] at hc

theorem not_announces_of_silent (hc : s.calls n = some c) (he : c.pc.emits = none) (q : String) :
    ¬ Announces s q n := by
  rintro ⟨c', hc', -, hs⟩
  cases hc.symm.trans hc'
  simp [he] at hs

theorem isOnline_update {st : PeerState} {q : String} (ht : t.states = Function.update s.states p st)
    (hst : st.online = (s.states p).online) : isOnline t q = isOnline s q := by
  rw [isOnline, ht, isOnline]
  by_cases he : q = p
  · rw [he, Function.update_self, hst]
  · rw [Function.update_of_ne he]

/-- A flag is changed in the step that leaves the call with its event. -/
theorem isOnline_or_announces {st : PeerState} (q : String)
    (ht : t.states = Function.update s.states p st) (hp : Announces t p n) :
    isOnline t q = isOnline s q ∨ Announces t q n := by
  by_cases he : q = p
  · exact .inr (he ▸ hp)
  · left
    rw [isOnline, ht, Function.update_of_ne he, isOnline]

/-- Only `set_online` and `connection_closed` change a flag, and they announce it. -/
theorem online_step (he : c.pc.emits = none) (q : String) :
    isOnline (s.step clientId n c built) q = isOnline s q ∨
      Announces (s.step clientId n c built) q n := by
  obtain ⟨peerId, thread, pc⟩ := c
  cases pc with
  | closed | emitting => cases he
  | setting online =>
    simp only [State.step]
    split
    · exact .inl rfl
    · exact isOnline_or_announces q rfl ⟨_, Function.update_self .., rfl, rfl⟩
  | closing taskId task =>
    simp only [State.step]
    split
    · exact isOnline_or_announces q rfl ⟨_, Function.update_self .., rfl, rfl⟩
    · exact .inl rfl
  | _ =>
    left
    simp only [State.step]
    (try split) <;> (try split) <;> (try split) <;>
      first | rfl | exact isOnline_update rfl rfl

theorem events_step (he : c.pc.emits = none) :
    (s.step clientId n c built).events = s.events := by
  obtain ⟨peerId, thread, pc⟩ := c
  cases pc <;> (try cases he) <;> simp only [State.step] <;> (try split) <;> (try split) <;>
    (try split) <;> rfl

theorem events_emit (hv : c.pc.emits = some v) :
    (s.step clientId n c built).events = (c.peerId, v) :: s.events := by
  obtain ⟨peerId, thread, pc⟩ := c
  cases pc <;> cases hv <;> simp only [State.step] <;> (try split) <;> rfl

theorem states_emit (hv : c.pc.emits = some v) : (s.step clientId n c built).states = s.states := by
  obtain ⟨peerId, thread, pc⟩ := c
  cases pc <;> cases hv <;> simp only [State.step] <;> (try split) <;> rfl

theorem not_announces_emit (hv : c.pc.emits = some v) (q : String) :
    ¬ Announces (s.step clientId n c built) q n := by
  rintro ⟨c', hc', -, hs⟩
  obtain ⟨peerId, thread, pc⟩ := c
  cases pc with
  | closed shouldReconnect =>
    simp only [State.step] at hc'
    split at hc'
    · cases (Function.update_self ..).symm.trans hc'
      simp [Pc.emits] at hs
    · cases (Function.update_self ..).symm.trans hc'
  | emitting online => cases (Function.update_self ..).symm.trans hc'
  | _ => cases hv

theorem mirrors_step (h : Mirrors s) (ht : next clientId s a = some t) :
    Mirrors t ↔ TellsFlag s a := by
  cases a with
  | start | stopFlag | stopStates =>
    cases ht
    exact iff_of_true h trivial
  | reconnectNow | discovered =>
    simp only [next] at ht
    split at ht <;> cases ht <;> exact iff_of_true h trivial
  | force n peer thread =>
    simp only [next] at ht
    split at ht
    · next hn =>
      cases ht
      exact iff_of_true (h.of_call (not_announces_of_none (by simpa using hn.1))
        (fun m hm => Function.update_of_ne hm ..) rfl fun _ => .inl rfl) trivial
    · cases ht
  | fire n peerId delayMs =>
    simp only [next] at ht
    split at ht
    · next hn =>
      cases ht
      exact iff_of_true (h.of_call (not_announces_of_none (by simpa using hn.1))
        (fun m hm => Function.update_of_ne hm ..) rfl fun _ => .inl rfl) trivial
    · cases ht
  | setOnline n peerId online =>
    simp only [next] at ht
    split at ht
    · next hn =>
      cases ht
      exact iff_of_true (h.of_call (not_announces_of_none (by simpa using hn))
        (fun m hm => Function.update_of_ne hm ..) rfl fun _ => .inl rfl) trivial
    · cases ht
  | authenticate n task | close n task =>
    simp only [next] at ht
    split at ht
    · split at ht
      · next hn =>
        cases ht
        exact iff_of_true (h.of_call (not_announces_of_none (by simpa using hn))
          (fun m hm => Function.update_of_ne hm ..) rfl fun _ => .inl rfl) trivial
      · cases ht
    · cases ht
  | unpair n peerId now | delete n peerId now =>
    simp only [next, State.withdraw] at ht
    split at ht
    · next hn =>
      cases ht
      refine iff_of_true ?_ trivial
      split
      · exact h.of_call (not_announces_of_none (by simpa using hn))
          (fun m hm => Function.update_of_ne hm ..) rfl fun _ => .inl rfl
      · exact h
    · cases ht
  | step n built =>
    obtain ⟨c, hc, rfl⟩ := Option.map_eq_some_iff.mp ht
    cases hv : c.pc.emits with
    | none =>
      refine iff_of_true (h.of_call (not_announces_of_silent hc hv)
        (fun m hm => calls_step_of_ne hm) (events_step hv) (online_step hv)) ?_
      intro c' v hc' hv'
      cases hc.symm.trans hc'
      simp [hv] at hv'
    | some v =>
      rw [mirrors_emit h hc (events_emit hv) (states_emit hv) (fun m hm => calls_step_of_ne hm)
        (not_announces_emit hv)]
      constructor
      · intro hlast c' v' hc' hv'
        cases hc.symm.trans hc'
        cases hv.symm.trans hv'
        exact hlast
      · intro htells
        exact htells c v hc hv

/-- With no call in progress, a client that follows the events never shows a stale status. -/
def EventsMirror : Prop :=
  ∀ clientId s, Runs.Reachable (system clientId) s → (∀ n, s.calls n = none) →
    ∀ p, lastEvent s.events p = isOnline s p

/-- Bob is seen online. -/
def seeBob : List Action := [.setOnline 0 "bob" true, .step 0 true, .step 0 true]

end PlainRs.LocalApi.PeerStatus
