import Mathlib

/-! Systems with executable steps: runs, the states they reach, and their invariants. -/
namespace Runs

/-- A step function over states and actions; `none` is an action that is not enabled. -/
structure System (σ α : Type*) where
  init : σ → Prop
  next : σ → α → Option σ

/-- Reached by steps that each meet `G` in the state they start from. -/
inductive ReachableUnder {σ α : Type*} (S : System σ α) (G : σ → α → Prop) : σ → Prop
  | init {s : σ} (hs : S.init s) : ReachableUnder S G s
  | step {s t : σ} {a : α} (hr : ReachableUnder S G s) (hg : G s a) (ht : S.next s a = some t) :
      ReachableUnder S G t

variable {σ α : Type*} {S : System σ α} {G H : σ → α → Prop} {I : σ → Prop}
  {s t : σ} {a : α} {as : List α}

/-- Reached by any steps at all. -/
def Reachable (S : System σ α) : σ → Prop := ReachableUnder S fun _ _ => True

theorem ReachableUnder.mono (h : ReachableUnder S G s) (hgh : ∀ s a, G s a → H s a) :
    ReachableUnder S H s := by
  induction h with
  | init hs => exact .init hs
  | step _ hg ht ih => exact .step ih (hgh _ _ hg) ht

theorem ReachableUnder.reachable (h : ReachableUnder S G s) : Reachable S s :=
  h.mono fun _ _ _ => trivial

theorem Reachable.init (hs : S.init s) : Reachable S s := ReachableUnder.init hs

theorem Reachable.step (hr : Reachable S s) (ht : S.next s a = some t) : Reachable S t :=
  ReachableUnder.step hr trivial ht

/-- What holds at the start and is kept by every step that meets `G` holds in every state
reached under `G`. -/
theorem ReachableUnder.invariant (hi : ∀ s, S.init s → I s)
    (hs : ∀ s a t, I s → G s a → S.next s a = some t → I t) (h : ReachableUnder S G s) : I s := by
  induction h with
  | init h => exact hi _ h
  | step _ hg ht ih => exact hs _ _ _ ih hg ht

theorem Reachable.invariant (hi : ∀ s, S.init s → I s)
    (hs : ∀ s a t, I s → S.next s a = some t → I t) (h : Reachable S s) : I s :=
  ReachableUnder.invariant hi (fun s a t h _ ht => hs s a t h ht) h

/-- The state after the actions in order, each enabled and each meeting `G`. -/
def System.run (S : System σ α) (G : σ → α → Prop) [∀ s a, Decidable (G s a)] :
    σ → List α → Option σ
  | s, [] => some s
  | s, a :: as => if G s a then (S.next s a).bind (S.run G · as) else none

theorem ReachableUnder.run [∀ s a, Decidable (G s a)] (h : ReachableUnder S G s)
    (hr : S.run G s as = some t) : ReachableUnder S G t := by
  induction as generalizing s with
  | nil =>
    simp only [System.run, Option.some.injEq] at hr
    exact hr ▸ h
  | cons a as ih =>
    simp only [System.run] at hr
    split at hr
    · next hg =>
      obtain ⟨u, hu, hr⟩ := Option.bind_eq_some_iff.mp hr
      exact ih (.step h hg hu) hr
    · cases hr

/-- A run whose end state passes the test `p` reaches a state that does. -/
theorem ReachableUnder.of_run [∀ s a, Decidable (G s a)] {p : σ → Bool} (h : S.init s)
    (hr : (S.run G s as).any p = true) : ∃ t, ReachableUnder S G t ∧ p t = true := by
  cases ht : S.run G s as with
  | none => simp [ht] at hr
  | some t => exact ⟨t, ReachableUnder.run (.init h) ht, by simpa [ht] using hr⟩

/-- In a log with the latest action first: some action meets `Q` and none after it meets `E`. -/
def since (Q E : α → Bool) : List α → Bool
  | [] => false
  | a :: as => Q a || (!E a && since Q E as)

variable {Q R E : α → Bool}

theorem since_head (h : Q a = true) : since Q E (a :: as) = true := by
  simp [since, h]

theorem since_tail (h : since Q E as = true) (he : E a = false) : since Q E (a :: as) = true := by
  simp [since, h, he]

end Runs
