import PlainRs.Utils.Paths

/-! A sibling name for a target that already exists. -/
namespace PlainRs.Utils

/-- `stem_N.ext`; a name that only begins with a dot is all stem. -/
def siblingName (base : String) (n : Nat) : String :=
  ((splitAtLastDot base).filter (·.1 ≠ "")).elim s!"{base}_{n}" fun (stem, ext) =>
    s!"{stem}_{n}.{ext}"

/-- The last candidate that is tried. -/
def lastSibling : Nat := 9999

/-- `unique_sibling`, by the names that exist in the parent: a target that does not exist, the first
sibling that does not, or else the target as it is. -/
def uniqueSibling (taken : String → Bool) (base : String) : String :=
  if !taken base then base
  else ((List.range' 1 lastSibling).find? fun n => !taken (siblingName base n)).elim base
    (siblingName base)

/-- A name that does not exist, unless the target and all its siblings do. -/
theorem uniqueSibling_free {taken : String → Bool} {base : String} :
    taken (uniqueSibling taken base) = false ∨ uniqueSibling taken base = base ∧
      taken base = true ∧ ∀ n ∈ List.range' 1 lastSibling, taken (siblingName base n) = true := by
  unfold uniqueSibling
  split
  · next h => exact .inl (by simpa using h)
  · next h =>
    cases hf : (List.range' 1 lastSibling).find? fun n => !taken (siblingName base n) with
    | none =>
      refine .inr ⟨rfl, by simpa using h, fun n hn => ?_⟩
      simpa using List.find?_eq_none.mp hf n hn
    | some n => exact .inl (by simpa using List.find?_some hf)

example : siblingName "a.txt" 2 = "a_2.txt" := by decide +kernel

example : siblingName ".gitignore" 1 = ".gitignore_1" := by decide +kernel

end PlainRs.Utils
