import Mathlib

/-! Tables of rows under a primary key, as an SQL store keeps them. -/
namespace Keyed

/-- Rows in insertion order, no two of them under one key. -/
structure Table (ρ : Type*) {κ : Type*} (key : ρ → κ) where
  rows : List ρ
  nodup : (rows.map key).Nodup

variable {ρ κ : Type*} {key : ρ → κ} [DecidableEq κ] {T : Table ρ key} {r s : ρ} {k l : κ}

namespace Table

def empty : Table ρ key := ⟨[], List.nodup_nil⟩

/-- `SELECT .. WHERE key = k`. -/
def find? (T : Table ρ key) (k : κ) : Option ρ := T.rows.find? fun r => key r = k

theorem find?_eq_some : T.find? k = some r ↔ r ∈ T.rows ∧ key r = k := by
  constructor
  · intro h
    exact ⟨List.mem_of_find?_eq_some h, by simpa using List.find?_some h⟩
  · rintro ⟨hr, rfl⟩
    cases hs : T.find? (key r) with
    | none => exact absurd (List.find?_eq_none.mp hs r hr) (by simp)
    | some s =>
      have hsr : key s = key r := by simpa using List.find?_some hs
      rw [List.inj_on_of_nodup_map T.nodup (List.mem_of_find?_eq_some hs) hr hsr]

theorem key_of_find? (h : T.find? k = some r) : key r = k := (find?_eq_some.mp h).2

theorem find?_eq_none : T.find? k = none ↔ k ∉ T.rows.map key := by
  simp [find?]

/-- `INSERT`; a row whose key is taken is refused and the table stays as it was. -/
def insert (T : Table ρ key) (r : ρ) : Table ρ key :=
  if h : T.find? (key r) = none then
    ⟨T.rows ++ [r], by
      rw [List.map_append, List.nodup_append]
      refine ⟨T.nodup, by simp, ?_⟩
      intro a ha b hb hab
      obtain rfl : b = key r := by simpa using hb
      exact find?_eq_none.mp h (hab ▸ ha)⟩
  else T

/-- `UPDATE .. WHERE key = k`, by a change `f` that leaves the key alone. -/
def modify (T : Table ρ key) (k : κ) (f : ρ → ρ) (hf : ∀ r, key (f r) = key r) : Table ρ key :=
  ⟨T.rows.map fun r => if key r = k then f r else r, by
    have he : (key ∘ fun r => if key r = k then f r else r) = key := by
      funext r
      simp only [Function.comp_apply]
      split
      · exact hf r
      · rfl
    rw [List.map_map, he]
    exact T.nodup⟩

/-- `INSERT .. ON CONFLICT(key) DO UPDATE`, merging into the stored row by `f`. -/
def upsert (T : Table ρ key) (r : ρ) (f : ρ → ρ) (hf : ∀ r, key (f r) = key r) : Table ρ key :=
  if T.find? (key r) = none then T.insert r else T.modify (key r) f hf

/-- `DELETE` of the rows that fail a test. -/
def filter (T : Table ρ key) (p : ρ → Bool) : Table ρ key :=
  ⟨T.rows.filter p, (List.filter_sublist.map key).nodup T.nodup⟩

/-- `DELETE .. WHERE key = k`. -/
def erase (T : Table ρ key) (k : κ) : Table ρ key := T.filter fun r => key r ≠ k

@[simp] theorem find?_empty : (empty : Table ρ key).find? k = none := rfl

theorem find?_insert_of_none (h : T.find? (key r) = none) :
    (T.insert r).find? l = if l = key r then some r else T.find? l := by
  have hi : (T.insert r).rows = T.rows ++ [r] := by simp [insert, h]
  simp only [find?, hi, List.find?_append]
  split
  · next hl =>
    subst hl
    have hn : T.rows.find? (fun s => key s = key r) = none := h
    simp [hn]
  · next hl => simp [Ne.symm hl]

theorem insert_of_some (h : T.find? (key r) = some s) : T.insert r = T := by
  simp [insert, h]

@[simp] theorem find?_insert_ne (hl : l ≠ key r) : (T.insert r).find? l = T.find? l := by
  cases h : T.find? (key r) with
  | none => rw [find?_insert_of_none h, if_neg hl]
  | some s => rw [insert_of_some h]

theorem find?_modify {f : ρ → ρ} {hf : ∀ r, key (f r) = key r} :
    (T.modify k f hf).find? l = if l = k then (T.find? l).map f else T.find? l := by
  have hkey : ∀ r, key (if key r = k then f r else r) = key r := by
    intro r
    split
    · exact hf r
    · rfl
  simp only [find?, modify, List.find?_map, Function.comp_def, hkey]
  cases h : T.rows.find? (fun r => key r = l) with
  | none => simp
  | some r =>
    have hr : key r = l := by simpa using List.find?_some h
    by_cases hl : l = k <;> simp [hr, hl]

@[simp] theorem find?_modify_self {f : ρ → ρ} {hf : ∀ r, key (f r) = key r} :
    (T.modify k f hf).find? k = (T.find? k).map f := by
  rw [find?_modify, if_pos rfl]

@[simp] theorem find?_modify_ne {f : ρ → ρ} {hf : ∀ r, key (f r) = key r} (h : l ≠ k) :
    (T.modify k f hf).find? l = T.find? l := by
  rw [find?_modify, if_neg h]

theorem find?_upsert {f : ρ → ρ} {hf : ∀ r, key (f r) = key r} :
    (T.upsert r f hf).find? l =
      if l = key r then some ((T.find? l).elim r f) else T.find? l := by
  unfold upsert
  split
  · next h =>
    rw [find?_insert_of_none h]
    split
    · next hl => simp [hl, h]
    · rfl
  · next h =>
    rw [find?_modify]
    split
    · next hl =>
      obtain ⟨s, hs⟩ := Option.ne_none_iff_exists'.mp h
      simp [hl, hs]
    · rfl

theorem find?_erase : (T.erase k).find? l = if l = k then none else T.find? l := by
  simp only [find?, erase, filter, List.find?_filter]
  split
  · next h =>
    subst h
    simp
  · next h =>
    congr 1
    funext r
    by_cases hr : key r = l
    · simp [hr, h]
    · simp [hr]

@[simp] theorem find?_erase_self : (T.erase k).find? k = none := by
  rw [find?_erase, if_pos rfl]

@[simp] theorem find?_erase_ne (h : l ≠ k) : (T.erase k).find? l = T.find? l := by
  rw [find?_erase, if_neg h]

/-- The map a loop over all rows builds when it keeps `f row` under the row's key. -/
def toMap {β : Type*} (T : Table ρ key) (f : ρ → Option β) (k : κ) : Option β :=
  (T.find? k).bind f

end Table

end Keyed
