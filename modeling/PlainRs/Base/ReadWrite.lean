import PlainRs.Base.Runs

/-! Operations on one shared value, each a read and a later write of what it made of the value it
read, with no lock across the two. -/
namespace ReadWrite

open Runs

/-- Where an operation is; `holding` keeps the value it read and how many writes came before. -/
inductive Phase (σ : Type*)
  | idle
  | holding (seen : σ) (writes : Nat)
  | done

def Phase.isDone {σ : Type*} : Phase σ → Bool
  | .done => true
  | _ => false

/-- What the operation holds, if anything, was read after `n` writes. -/
def Phase.holdsAt {σ : Type*} (n : Nat) : Phase σ → Bool
  | .holding _ writes => writes = n
  | _ => true

/-- The value, each operation's phase, the operations in the order in which they took effect, and
the values written, latest first. -/
structure State (ι σ : Type*) where
  value : σ
  phase : ι → Phase σ
  order : List ι
  written : List σ

inductive Action (ι : Type*)
  | get (i : ι)
  | put (i : ι)

section

variable {ι σ : Type*} [DecidableEq ι] (f : ι → σ → Option σ)

/-- What operation `i` alone makes of a value; an operation that refuses writes nothing. -/
def exec (v : σ) (i : ι) : σ := (f i v).getD v

def next (s : State ι σ) : Action ι → Option (State ι σ)
  | .get i =>
    match s.phase i, f i s.value with
    | .idle, none =>
      some { s with phase := Function.update s.phase i .done, order := s.order ++ [i] }
    | .idle, some _ =>
      some { s with phase := Function.update s.phase i (.holding s.value s.written.length) }
    | _, _ => none
  | .put i =>
    match s.phase i with
    | .holding seen _ =>
      (f i seen).map fun v =>
        { value := v
          phase := Function.update s.phase i .done
          order := s.order ++ [i]
          written := v :: s.written }
    | _ => none

def system (start : σ) : System (State ι σ) (Action ι) where
  init s := s = ⟨start, fun _ => .idle, [], []⟩
  next := next f

/-- No other write falls between an operation's read and its write. -/
def Undisturbed (s : State ι σ) : Action ι → Prop
  | .get _ => True
  | .put i => (s.phase i).holdsAt s.written.length = true

instance (s : State ι σ) : (a : Action ι) → Decidable (Undisturbed s a)
  | .get _ => inferInstanceAs (Decidable True)
  | .put _ => inferInstanceAs (Decidable (_ = true))

/-- Each operation took effect once. -/
def Finished (s : State ι σ) : Prop := ∀ i, s.phase i = .done

end

variable {ι σ : Type*} [DecidableEq ι] {f : ι → σ → Option σ} {start : σ} {s t : State ι σ}
  {a : Action ι} {i : ι} {clock : σ → Int}

omit [DecidableEq ι] in
theorem finished_iff : Finished s ↔ ∀ i, (s.phase i).isDone = true := by
  refine forall_congr' fun i => ?_
  cases s.phase i <;> simp [Phase.isDone]

/-- A value held since the last write is the current one. -/
def Current (s : State ι σ) : Prop :=
  ∀ i seen n, s.phase i = .holding seen n → n ≤ s.written.length ∧
    (n = s.written.length → seen = s.value)

/-- The order lists the finished operations, each once. -/
def Ordered (s : State ι σ) : Prop := s.order.Nodup ∧ ∀ i, i ∈ s.order ↔ s.phase i = .done

/-- The value is what the operations make of it one after the other. -/
def Sequential (f : ι → σ → Option σ) (start : σ) (s : State ι σ) : Prop :=
  s.value = s.order.foldl (exec f) start

/-- Written values carry rising clocks, up to that of the value. -/
def Rising (clock : σ → Int) (s : State ι σ) : Prop :=
  (s.written.map clock).Pairwise (· > ·) ∧ ∀ v ∈ s.written, clock v ≤ clock s.value

theorem next_get (h : next f s (.get i) = some t) :
    s.phase i = .idle ∧
      ((f i s.value = none ∧
          t = { s with phase := Function.update s.phase i .done, order := s.order ++ [i] }) ∨
        t = { s with phase := Function.update s.phase i (.holding s.value s.written.length) }) := by
  simp only [next] at h
  split at h
  · next hp hf => exact ⟨hp, .inl ⟨hf, (Option.some.inj h).symm⟩⟩
  · next hp hf => exact ⟨hp, .inr (Option.some.inj h).symm⟩
  · cases h

theorem next_put (h : next f s (.put i) = some t) :
    ∃ seen n v, s.phase i = .holding seen n ∧ f i seen = some v ∧
      t = ⟨v, Function.update s.phase i .done, s.order ++ [i], v :: s.written⟩ := by
  simp only [next] at h
  split at h
  · next seen n hp =>
    obtain ⟨v, hv, rfl⟩ := Option.map_eq_some_iff.mp h
    exact ⟨seen, n, v, hp, hv, rfl⟩
  · cases h

theorem ordered_append {v : σ} {w : List σ} (h : Ordered s) (hi : s.phase i ≠ .done) :
    Ordered ⟨v, Function.update s.phase i .done, s.order ++ [i], w⟩ := by
  have hmem : i ∉ s.order := fun hm => hi ((h.2 i).mp hm)
  constructor
  · rw [List.nodup_append]
    refine ⟨h.1, by simp, ?_⟩
    rintro a ha b hb rfl
    exact hmem (List.mem_singleton.mp hb ▸ ha)
  · intro j
    by_cases hj : j = i
    · subst hj
      simp
    · simp [h.2 j, hj]

theorem ordered_step (h : Ordered s) (ht : next f s a = some t) : Ordered t := by
  cases a with
  | get i =>
    obtain ⟨hp, ⟨-, rfl⟩ | rfl⟩ := next_get ht
    · exact ordered_append h (by simp [hp])
    · refine ⟨h.1, fun j => ?_⟩
      by_cases hj : j = i
      · subst hj
        simp [h.2 j, hp]
      · simp [h.2 j, hj]
  | put i =>
    obtain ⟨seen, n, v, hp, -, rfl⟩ := next_put ht
    exact ordered_append h (by simp [hp])

theorem current_step (h : Current s) (ht : next f s a = some t) : Current t := by
  cases a with
  | get i =>
    obtain ⟨-, ⟨-, rfl⟩ | rfl⟩ := next_get ht <;> intro j seen n hj <;> by_cases hji : j = i
    · simp [hji] at hj
    · exact h j seen n (by simpa [hji] using hj)
    · subst hji
      obtain ⟨rfl, rfl⟩ : s.value = seen ∧ s.written.length = n := by simpa using hj
      exact ⟨le_refl _, fun _ => rfl⟩
    · exact h j seen n (by simpa [hji] using hj)
  | put i =>
    obtain ⟨seen, n, v, -, -, rfl⟩ := next_put ht
    intro j seen' n' hj
    by_cases hji : j = i
    · simp [hji] at hj
    · have hn := (h j seen' n' (by simpa [hji] using hj)).1
      simp only [List.length_cons]
      exact ⟨by omega, by omega⟩

theorem sequential_step (hc : Current s) (h : Sequential f start s) (hg : Undisturbed s a)
    (ht : next f s a = some t) : Sequential f start t := by
  cases a with
  | get i =>
    obtain ⟨-, ⟨hf, rfl⟩ | rfl⟩ := next_get ht
    · simp only [Sequential, List.foldl_append, List.foldl_cons, List.foldl_nil]
      rw [← h, exec, hf]
      rfl
    · exact h
  | put i =>
    obtain ⟨seen, n, v, hp, hv, rfl⟩ := next_put ht
    have hseen : seen = s.value := (hc i seen n hp).2 (by simpa [Undisturbed, hp, Phase.holdsAt] using hg)
    simp only [Sequential, List.foldl_append, List.foldl_cons, List.foldl_nil]
    rw [← h, exec, ← hseen, hv]
    rfl

theorem rising_step (hf : ∀ i v w, f i v = some w → clock v < clock w) (hc : Current s)
    (h : Rising clock s) (hg : Undisturbed s a) (ht : next f s a = some t) : Rising clock t := by
  cases a with
  | get i =>
    obtain ⟨-, ⟨-, rfl⟩ | rfl⟩ := next_get ht <;> exact h
  | put i =>
    obtain ⟨seen, n, v, hp, hv, rfl⟩ := next_put ht
    have hseen : seen = s.value := (hc i seen n hp).2 (by simpa [Undisturbed, hp, Phase.holdsAt] using hg)
    have hlt : clock s.value < clock v := hf i _ _ (hseen ▸ hv)
    constructor
    · simp only [List.map_cons, List.pairwise_cons]
      refine ⟨fun k hk => ?_, h.1⟩
      obtain ⟨w, hw, rfl⟩ := List.mem_map.mp hk
      have := h.2 w hw
      omega
    · intro w hw
      rcases List.mem_cons.mp hw with rfl | hw
      · exact le_refl _
      · have := h.2 w hw
        simp only
        omega

/-- Undisturbed operations take effect one after the other, each at its write. -/
theorem undisturbed_invariant (hf : ∀ i v w, f i v = some w → clock v < clock w)
    (h : ReachableUnder (system f start) Undisturbed s) :
    Current s ∧ Ordered s ∧ Sequential f start s ∧ Rising clock s := by
  refine ReachableUnder.invariant
    (I := fun s => Current s ∧ Ordered s ∧ Sequential f start s ∧ Rising clock s) ?_ ?_ h
  · rintro s rfl
    exact ⟨nofun, ⟨List.nodup_nil, by simp⟩, rfl, List.Pairwise.nil, by simp⟩
  · rintro s a t ⟨hc, ho, hs, hr⟩ hg ht
    exact ⟨current_step hc ht, ordered_step ho ht, sequential_step hc hs hg ht,
      rising_step hf hc hr hg ht⟩

end ReadWrite
