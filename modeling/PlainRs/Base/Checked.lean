import Mathlib

/-! Computations that can panic, and the reads of slices and strings by position that do. -/

inductive Panic
  | outOfBounds
  | notCharBoundary
  | overflow
  deriving DecidableEq

abbrev Checked (α : Type) := Except Panic α

namespace Checked

variable {α β : Type} {x : Checked α} {f : α → Checked β} {P Q : α → Prop} {R : β → Prop}
  {data : List α} {i j : ℕ} {a : α}

/-- No panic, and a result that meets `P`. -/
def Spec (x : Checked α) (P : α → Prop) : Prop := ∃ a, x = .ok a ∧ P a

theorem Spec.pure (h : P a) : Spec (.ok a) P := ⟨a, rfl, h⟩

theorem Spec.bind (h : Spec x P) (hf : ∀ a, P a → Spec (f a) R) : Spec (x >>= f) R := by
  obtain ⟨a, rfl, ha⟩ := h
  exact hf a ha

theorem Spec.mono (h : Spec x P) (hPQ : ∀ a, P a → Q a) : Spec x Q := by
  obtain ⟨a, ha, hp⟩ := h
  exact ⟨a, ha, hPQ a hp⟩

theorem ok_bind : (Except.ok a : Checked α) >>= f = f a := rfl

theorem bind_eq_ok {b : β} : x >>= f = .ok b ↔ ∃ a, x = .ok a ∧ f a = .ok b := by
  cases x with
  | error e => simp [Bind.bind, Except.bind]
  | ok a => simp [Bind.bind, Except.bind]

/-- A loop over a list that goes on as long as nothing panics. -/
theorem foldlM_spec {γ : Type} {I : β → Prop} {step : β → γ → Checked β} {l : List γ} {b : β}
    (hb : I b) (hstep : ∀ b, I b → ∀ c ∈ l, Spec (step b c) I) : Spec (l.foldlM step b) I := by
  induction l generalizing b with
  | nil => exact .pure hb
  | cons c l ih =>
    rw [List.foldlM_cons]
    refine (hstep b hb c List.mem_cons_self).bind fun b' hb' => ?_
    exact ih hb' fun b hb c hc => hstep b hb c (List.mem_cons_of_mem _ hc)

/-- No panic. -/
def Ok (x : Checked α) : Prop := ∃ a, x = .ok a

theorem Spec.ok (h : Spec x P) : Ok x := by
  obtain ⟨a, ha, -⟩ := h
  exact ⟨a, ha⟩

theorem ok_pure : Ok (.ok a : Checked α) := ⟨a, rfl⟩

theorem ok_bind_of_spec (h : Spec x P) (hf : ∀ a, P a → Ok (f a)) : Ok (x >>= f) := by
  obtain ⟨a, rfl, ha⟩ := h
  exact hf a ha

theorem ok_bind_iff (hf : ∀ a, Ok (f a)) : Ok (x >>= f) ↔ Ok x := by
  constructor
  · rintro ⟨b, hb⟩
    obtain ⟨a, ha, -⟩ := bind_eq_ok.mp hb
    exact ⟨a, ha⟩
  · rintro ⟨a, ha⟩
    obtain ⟨b, hb⟩ := hf a
    exact ⟨b, bind_eq_ok.mpr ⟨a, ha, hb⟩⟩

/-- Where each step panics or not whatever the state, the loop panics unless no step does. -/
theorem ok_foldlM_iff {γ : Type} {step : β → γ → Checked β} {l : List γ} {b : β} {P : γ → Prop}
    (hstep : ∀ b, ∀ c ∈ l, Ok (step b c) ↔ P c) : Ok (l.foldlM step b) ↔ ∀ c ∈ l, P c := by
  induction l generalizing b with
  | nil => exact iff_of_true ok_pure nofun
  | cons c l ih =>
    have hc := hstep b c List.mem_cons_self
    have hl := fun b' => ih (b := b') fun b c hc => hstep b c (List.mem_cons_of_mem _ hc)
    rw [List.foldlM_cons, List.forall_mem_cons, ← hc]
    constructor
    · rintro ⟨r, hr⟩
      obtain ⟨b', hb', hr⟩ := bind_eq_ok.mp hr
      exact ⟨⟨b', hb'⟩, (hl b').mp ⟨r, hr⟩⟩
    · rintro ⟨⟨b', hb'⟩, hrest⟩
      obtain ⟨r, hr⟩ := (hl b').mpr hrest
      exact ⟨r, bind_eq_ok.mpr ⟨b', hb', hr⟩⟩

/-- `data[i]`. -/
def get (data : List α) (i : ℕ) : Checked α :=
  match data[i]? with
  | some a => .ok a
  | none => .error .outOfBounds

/-- `&data[i..j]`. -/
def slice (data : List α) (i j : ℕ) : Checked (List α) :=
  if i ≤ j ∧ j ≤ data.length then .ok ((data.drop i).take (j - i)) else .error .outOfBounds

theorem get_spec (h : i < data.length) : Spec (get data i) fun a => data[i]? = some a := by
  refine ⟨data[i], ?_, List.getElem?_eq_getElem h⟩
  simp [get, List.getElem?_eq_getElem h]

theorem slice_spec (hij : i ≤ j) (hj : j ≤ data.length) :
    Spec (slice data i j) fun l => l.length = j - i := by
  refine ⟨_, if_pos ⟨hij, hj⟩, ?_⟩
  simp only [List.length_take, List.length_drop]
  omega

/-- A `usize` sum that is checked for overflow. -/
def fits (n : ℕ) : Checked Unit := if n < 2 ^ 64 then .ok () else .error .overflow

theorem fits_bind {f : Unit → Checked β} {n : ℕ} (h : n < 2 ^ 64) : fits n >>= f = f () := by
  rw [fits, if_pos h, ok_bind]

/-- The operator `?` on an option, in a computation that gives one. -/
def orNone (x : Checked (Option α)) (f : α → Checked (Option β)) : Checked (Option β) := do
  match ← x with
  | none => pure none
  | some a => f a

theorem orNone_some {f : α → Checked (Option β)} : orNone (pure (some a)) f = f a := rfl

/-- No panic, and what is given, if anything, meets `P`. -/
def Gives (x : Checked (Option α)) (P : α → Prop) : Prop := Spec x fun r => ∀ a ∈ r, P a

theorem Gives.none : Gives (.ok none : Checked (Option α)) P := .pure nofun

theorem Gives.some (h : P a) : Gives (.ok (some a)) P := .pure fun _ ha => Option.some.inj ha ▸ h

theorem Gives.orNone {x : Checked (Option α)} {f : α → Checked (Option β)} (h : Gives x P)
    (hf : ∀ a, P a → Gives (f a) R) : Gives (orNone x f) R := by
  refine h.bind fun r hr => ?_
  cases r with
  | none => exact Gives.none
  | some a => exact hf a (hr a rfl)

/-- A slice of a string, which panics off a character boundary. -/
def ofBoundary (s : Option α) : Checked α :=
  match s with
  | some a => .ok a
  | none => .error .notCharBoundary

theorem ofBoundary_spec {s : Option α} (h : s = some a) : Spec (ofBoundary s) (· = a) := by
  subst h
  exact .pure rfl

end Checked
