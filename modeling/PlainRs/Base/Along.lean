import PlainRs.Base.Runs

/-! A property of every state of a run against a condition on every step of it. -/
namespace Runs

variable {σ α : Type*} {S : System σ α} {G : σ → α → Prop} {I J : σ → Prop} {s t : σ} {a : α}
  {as : List α}

/-- `I` holds in every state that the actions lead through, as far as they are enabled. -/
def System.StatesAlong (S : System σ α) (I : σ → Prop) : σ → List α → Prop
  | s, [] => I s
  | s, a :: as => I s ∧ ∀ t, S.next s a = some t → S.StatesAlong I t as

/-- `G` holds of every step that the actions take, as far as they are enabled. -/
def System.StepsAlong (S : System σ α) (G : σ → α → Prop) : σ → List α → Prop
  | _, [] => True
  | s, a :: as => ∀ t, S.next s a = some t → G s a ∧ S.StepsAlong G t as

theorem System.StatesAlong.head (h : S.StatesAlong I s as) : I s := by
  cases as with
  | nil => exact h
  | cons a as => exact h.1

theorem System.StatesAlong.last [∀ s a, Decidable (G s a)] (h : S.StatesAlong I s as)
    (hr : S.run G s as = some t) : I t := by
  induction as generalizing s with
  | nil =>
    simp only [System.run, Option.some.injEq] at hr
    exact hr ▸ h
  | cons a as ih =>
    simp only [System.run] at hr
    split at hr
    · obtain ⟨u, hu, hr⟩ := Option.bind_eq_some_iff.mp hr
      exact ih (h.2 u hu) hr
    · cases hr

/-- Where `I` survives a step exactly if `G` holds of it, `I` holds along a run exactly if `G`
does; `J` is what every run keeps. -/
theorem System.statesAlong_iff (hJ : ∀ s a t, J s → S.next s a = some t → J t)
    (hstep : ∀ s a t, J s → I s → S.next s a = some t → (I t ↔ G s a)) (hj : J s) (hi : I s) :
    S.StatesAlong I s as ↔ S.StepsAlong G s as := by
  induction as generalizing s with
  | nil => exact iff_of_true hi trivial
  | cons a as ih =>
    constructor
    · intro h t ht
      have hit := (h.2 t ht).head
      exact ⟨(hstep s a t hj hi ht).mp hit, (ih (hJ s a t hj ht) hit).mp (h.2 t ht)⟩
    · intro h
      refine ⟨hi, fun t ht => ?_⟩
      have hit := (hstep s a t hj hi ht).mpr (h t ht).1
      exact (ih (hJ s a t hj ht) hit).mpr (h t ht).2

/-- Where a step meets `P` exactly if it meets `G` and then keeps `I`, all steps of a run meet `P`
exactly if all meet `G`. -/
theorem System.stepsAlong_iff {P : σ → α → Prop} (hi : I s)
    (hstep : ∀ s a t, I s → S.next s a = some t → (P s a ↔ G s a) ∧ (P s a → I t)) :
    S.StepsAlong P s as ↔ S.StepsAlong G s as := by
  induction as generalizing s with
  | nil => exact Iff.rfl
  | cons a as ih =>
    refine forall₂_congr fun t ht => ?_
    obtain ⟨hiff, hkeep⟩ := hstep s a t hi ht
    constructor
    · rintro ⟨hp, has⟩
      exact ⟨hiff.mp hp, (ih (hkeep hp)).mp has⟩
    · rintro ⟨hg, has⟩
      have hp := hiff.mpr hg
      exact ⟨hp, (ih (hkeep hp)).mpr has⟩

end Runs
