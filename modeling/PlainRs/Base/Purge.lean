import Mathlib

/-! Runs of a system that answers its inputs, and the same runs without the inputs that are to be
hidden. -/
namespace Purge

variable {σ α β : Type*} (step : σ → α → σ × β) (hidden : σ → α → Prop)

/-- Every hidden input meets `G` in the state in which it comes. -/
def HiddenMeet (G : σ → α → Prop) : σ → List α → Prop
  | _, [] => True
  | s, a :: as => (hidden s a → G s a) ∧ HiddenMeet G (step s a).1 as

theorem HiddenMeet.of_prefix {step : σ → α → σ × β} {hidden G : σ → α → Prop} {s : σ}
    {part as : List α} (h : HiddenMeet step hidden G s as) (hp : part <+: as) :
    HiddenMeet step hidden G s part := by
  induction part generalizing s as with
  | nil => trivial
  | cons a part ih =>
    obtain ⟨rest, rfl⟩ := hp
    exact ⟨h.1, ih h.2 (List.prefix_append part rest)⟩

variable [∀ s a, Decidable (hidden s a)]

/-- Where the inputs lead, and the answers to those of them that are not hidden. -/
def observed : σ → List α → σ × List β
  | s, [] => (s, [])
  | s, a :: as =>
    let rest := observed (step s a).1 as
    (rest.1, if hidden s a then rest.2 else (step s a).2 :: rest.2)

/-- The inputs without those that are hidden where they come. -/
def purge : σ → List α → List α
  | _, [] => []
  | s, a :: as =>
    if hidden s a then purge (step s a).1 as else a :: purge (step s a).1 as

/-- After every part of the inputs the others see what they would see without the hidden ones. -/
def Undetected (s : σ) (as : List α) : Prop :=
  ∀ part, part <+: as → observed step hidden s part = observed step hidden s (purge step hidden s part)

variable {step hidden} {G : σ → α → Prop} {J : σ → Prop} {s : σ} {a : α} {as : List α}

theorem observed_hidden (h : hidden s a) (hs : (step s a).1 = s) :
    observed step hidden s (a :: as) = observed step hidden s as := by
  simp only [observed, if_pos h, hs]

theorem observed_purge (hG : ∀ s a, J s → hidden s a → ((step s a).1 = s ↔ G s a))
    (hJ : ∀ s a, J s → J (step s a).1) (hs : J s) (h : HiddenMeet step hidden G s as) :
    observed step hidden s as = observed step hidden s (purge step hidden s as) := by
  induction as generalizing s with
  | nil => rfl
  | cons a as ih =>
    have hrest := ih (hJ s a hs) h.2
    by_cases ha : hidden s a
    · have hsame := (hG s a hs ha).mpr (h.1 ha)
      rw [hsame] at hrest
      rw [observed_hidden ha hsame, hrest, purge, if_pos ha, hsame]
    · rw [purge, if_neg ha]
      simp only [observed, if_neg ha]
      rw [hrest]

/-- Where a hidden input changes nothing exactly if it meets `G`, the hidden inputs of a run go
undetected exactly if they all meet `G`. -/
theorem undetected_iff (hG : ∀ s a, J s → hidden s a → ((step s a).1 = s ↔ G s a))
    (hJ : ∀ s a, J s → J (step s a).1) (hs : J s) :
    Undetected step hidden s as ↔ HiddenMeet step hidden G s as := by
  constructor
  · intro h
    induction as generalizing s with
    | nil => trivial
    | cons a as ih =>
      by_cases ha : hidden s a
      · have hone := congrArg Prod.fst (h [a] ⟨as, rfl⟩)
        have hsame : (step s a).1 = s := by simpa [observed, purge, ha] using hone
        refine ⟨fun _ => (hG s a hs ha).mp hsame, ?_⟩
        rw [hsame]
        refine ih hs fun part hp => ?_
        have hpart := h (a :: part) (List.cons_prefix_cons.mpr ⟨rfl, hp⟩)
        rwa [observed_hidden ha hsame, purge, if_pos ha, hsame] at hpart
      · refine ⟨fun hh => absurd hh ha, ih (hJ s a hs) fun part hp => ?_⟩
        have hpart := h (a :: part) (List.cons_prefix_cons.mpr ⟨rfl, hp⟩)
        rw [purge, if_neg ha] at hpart
        simp only [observed, if_neg ha, Prod.mk.injEq, List.cons.injEq, true_and] at hpart
        exact Prod.ext hpart.1 hpart.2
  · intro h part hp
    exact observed_purge hG hJ hs (h.of_prefix hp)

end Purge
