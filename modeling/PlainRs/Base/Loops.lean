import Mathlib

/-! Loops that may not end, and walks around a cycle of places. -/
namespace Loops

variable {σ ρ : Type*} {body : σ → σ ⊕ ρ} {s t : σ} {r : ρ}

/-- Runs a loop body on its own results until it gives an answer, or the fuel is used up. -/
def run (body : σ → σ ⊕ ρ) : ℕ → σ → Option ρ
  | 0, _ => none
  | fuel + 1, s =>
    match body s with
    | .inl t => run body fuel t
    | .inr r => some r

/-- Some fuel is enough. -/
def Halts (body : σ → σ ⊕ ρ) (s : σ) : Prop := ∃ fuel r, run body fuel s = some r

theorem halts_of_inr (h : body s = .inr r) : Halts body s := ⟨1, r, by simp [run, h]⟩

theorem halts_inl (h : body s = .inl t) : Halts body s ↔ Halts body t := by
  constructor
  · rintro ⟨fuel, r, hr⟩
    cases fuel with
    | zero => cases hr
    | succ n => exact ⟨n, r, by simpa [run, h] using hr⟩
  · rintro ⟨fuel, r, hr⟩
    exact ⟨fuel + 1, r, by simpa [run, h] using hr⟩

/-- A loop that never leaves `I` and always goes on within it does not halt. -/
theorem not_halts_of_invariant {I : σ → Prop} (hI : ∀ s, I s → ∃ t, body s = .inl t ∧ I t)
    (hs : I s) : ¬ Halts body s := by
  rintro ⟨fuel, r, hr⟩
  induction fuel generalizing s with
  | zero => cases hr
  | succ n ih =>
    obtain ⟨t, ht, hI'⟩ := hI s hs
    exact ih hI' (by simpa [run, ht] using hr)

/-- A loop that does not halt runs through an endless sequence of states. -/
theorem exists_run_of_not_halts (h : ¬ Halts body s) :
    ∃ f : ℕ → σ, f 0 = s ∧ ∀ k, body (f k) = .inl (f (k + 1)) := by
  have hstep : ∀ s : {s // ¬ Halts body s}, ∃ t : {t // ¬ Halts body t}, body s = .inl t := by
    rintro ⟨s, hs⟩
    generalize hb : body s = out
    cases out with
    | inl t => exact ⟨⟨t, fun ht => hs ((halts_inl hb).mpr ht)⟩, rfl⟩
    | inr r => exact absurd (halts_of_inr hb) hs
  choose g hg using hstep
  refine ⟨fun k => (g^[k] ⟨s, h⟩).1, rfl, fun k => ?_⟩
  simp only [Function.iterate_succ_apply']
  exact hg _

variable {n δ : ℤ} {f : ℕ → ℤ} {p : ℤ}

/-- A walk that goes one place forward, or one back, at each step comes to every place. -/
theorem exists_step_eq (hδ : δ * δ = 1) (hf0 : 0 ≤ f 0 ∧ f 0 < n)
    (hf : ∀ k, f (k + 1) = (f k + δ) % n) (hp : 0 ≤ p ∧ p < n) : ∃ k, f k = p := by
  have hat : ∀ k, f k = (f 0 + δ * k) % n := by
    intro k
    induction k with
    | zero => simp [Int.emod_eq_of_lt hf0.1 hf0.2]
    | succ k ih =>
      rw [hf, ih, Int.emod_add_emod]
      congr 1
      push_cast
      ring
  have hn : n ≠ 0 := by omega
  have hk : (((δ * (p - f 0)) % n).toNat : ℤ) = (δ * (p - f 0)) % n :=
    Int.toNat_of_nonneg (Int.emod_nonneg _ hn)
  refine ⟨((δ * (p - f 0)) % n).toNat, ?_⟩
  have hmod : f 0 + δ * ((δ * (p - f 0)) % n) ≡ f 0 + δ * (δ * (p - f 0)) [ZMOD n] :=
    ((Int.mod_modEq _ _).mul_left δ).add_left (f 0)
  rw [hat, hk, hmod, ← mul_assoc, hδ, one_mul, add_sub_cancel, Int.emod_eq_of_lt hp.1 hp.2]

end Loops
