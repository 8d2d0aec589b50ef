import Mathlib

/-! Named files that several writers hold open: what a writer has written is what the file under its
name holds, as long as no other writer opens the name. -/
namespace Files

/-- Which node each name stands for, and what each node holds. -/
structure Store (ν κ β : Type*) where
  names : κ → Option ν
  data : ν → List β

/-- Bytes put at an offset; a gap is filled. -/
def writeAt {β : Type*} (fill : β) (data : List β) (offset : Nat) (bytes : List β) : List β :=
  data.takeD offset fill ++ bytes ++ data.drop (offset + bytes.length)

variable {ν κ β : Type*}

namespace Store

def empty : Store ν κ β := ⟨fun _ => none, fun _ => []⟩

def read? (s : Store ν κ β) (name : κ) : Option (List β) := (s.names name).map s.data

/-- The node that a `create` opens; `n` if the name stands for none. -/
def opened (s : Store ν κ β) (name : κ) (n : ν) : ν := (s.names name).getD n

variable [DecidableEq ν] [DecidableEq κ]

/-- Creates or truncates. -/
def create (s : Store ν κ β) (name : κ) (n : ν) : Store ν κ β where
  names := Function.update s.names name (some (s.opened name n))
  data := Function.update s.data (s.opened name n) []

def write (fill : β) (s : Store ν κ β) (n : ν) (offset : Nat) (bytes : List β) : Store ν κ β :=
  { s with data := Function.update s.data n (writeAt fill (s.data n) offset bytes) }

def unlink (s : Store ν κ β) (name : κ) : Store ν κ β :=
  { s with names := Function.update s.names name none }

end Store

/-- What the writers hold open: the node, and what was written to it. A node has the name of the
writer that made it. -/
structure Tidy (path : ν → κ) (writer : ν → Option (ν × List β)) (s : Store ν κ β) : Prop where
  named : ∀ p n, s.names p = some n → path n = p
  node : ∀ i n b, writer i = some (n, b) → path n = path i ∧ s.data n = b ∧
    (s.names (path i) = none ∨ s.names (path i) = some n)
  apart : ∀ i j, (writer i).isSome → (writer j).isSome → path i = path j → i = j

variable {path : ν → κ} {writer : ν → Option (ν × List β)} {s : Store ν κ β} {i j n m : ν} {p q : κ}
  {b c : List β} {fill : β}

theorem writeAt_end : writeAt fill b b.length c = b ++ c := by
  have hdrop : b.drop (b.length + c.length) = [] := List.drop_eq_nil_of_le (by omega)
  have htake : b.takeD b.length fill = b := by
    rw [List.takeD_eq_take fill le_rfl, List.take_length]
  rw [writeAt, hdrop, htake, List.append_nil]

theorem tidy_empty : Tidy path (fun _ => none) (Store.empty : Store ν κ β) where
  named p n h := by cases h
  node i n b h := by cases h
  apart i j h := by cases h

/-- The file under a writer's name holds what the writer wrote. -/
theorem Tidy.read (h : Tidy path writer s) (hi : writer i = some (n, b))
    (hc : s.read? (path i) = some c) : c = b := by
  obtain ⟨-, hdata, hname⟩ := h.node i n b hi
  unfold Store.read? at hc
  rcases hname with hname | hname
  · rw [hname] at hc
    cases hc
  · rw [hname, Option.map_some, Option.some.injEq] at hc
    exact hc.symm.trans hdata

/-- Two writers have two nodes. -/
theorem Tidy.node_ne (h : Tidy path writer s) (hi : writer i = some (n, b))
    (hj : writer j = some (m, c)) (hij : i ≠ j) : n ≠ m := by
  rintro rfl
  have hpath : path i = path j := (h.node i n b hi).1.symm.trans (h.node j n c hj).1
  exact hij (h.apart i j (by simp [hi]) (by simp [hj]) hpath)

theorem Tidy.path_opened (h : Tidy path writer s) : path (s.opened (path j) j) = path j := by
  unfold Store.opened
  cases hn : s.names (path j) with
  | none => rfl
  | some n => exact h.named _ n hn

variable [DecidableEq ν] [DecidableEq κ]

theorem names_create : (s.create p n).names q = if q = p then some (s.opened p n) else s.names q := by
  by_cases hq : q = p
  · simp [Store.create, hq]
  · simp [Store.create, hq]

omit [DecidableEq ν] in
theorem names_unlink : (s.unlink p).names q = if q = p then none else s.names q := by
  by_cases hq : q = p
  · simp [Store.unlink, hq]
  · simp [Store.unlink, hq]

/-- A new writer of a name that no writer has open. -/
theorem Tidy.create (h : Tidy path writer s) (hfree : ∀ i, (writer i).isSome → path i ≠ path j) :
    Tidy path (Function.update writer j (some (s.opened (path j) j, []))) (s.create (path j) j) := by
  have hopened : path (s.opened (path j) j) = path j := h.path_opened
  refine ⟨?_, ?_, ?_⟩
  · intro p n hn
    rw [names_create] at hn
    split at hn
    · next hp => rw [hp, ← hopened, Option.some.inj hn]
    · exact h.named p n hn
  · intro i n b hi
    by_cases hij : i = j
    · subst hij
      rw [Function.update_self, Option.some.injEq, Prod.mk.injEq] at hi
      obtain ⟨rfl, rfl⟩ := hi
      refine ⟨hopened, Function.update_self _ _ _, .inr ?_⟩
      rw [names_create, if_pos rfl]
    · rw [Function.update_of_ne hij] at hi
      obtain ⟨hpath, hdata, hname⟩ := h.node i n b hi
      have hp : path i ≠ path j := hfree i (by simp [hi])
      have hne : n ≠ s.opened (path j) j := by
        intro he
        exact hp (hpath.symm.trans (he ▸ hopened))
      refine ⟨hpath, (Function.update_of_ne hne _ _).trans hdata, ?_⟩
      rw [names_create, if_neg hp]
      exact hname
  · intro i k hi hk hik
    by_cases hij : i = j
    · by_cases hkj : k = j
      · exact hij.trans hkj.symm
      · rw [Function.update_of_ne hkj] at hk
        exact (hfree k hk (hik.symm.trans (congrArg path hij))).elim
    · rw [Function.update_of_ne hij] at hi
      by_cases hkj : k = j
      · exact (hfree i hi (hik.trans (congrArg path hkj))).elim
      · rw [Function.update_of_ne hkj] at hk
        exact h.apart i k hi hk hik

omit [DecidableEq κ] in
/-- A writer goes on where it stopped. -/
theorem Tidy.write (h : Tidy path writer s) (hi : writer i = some (n, b)) (fill : β)
    (c : List β) :
    Tidy path (Function.update writer i (some (n, b ++ c))) (s.write fill n b.length c) := by
  have hsome : ∀ k, (Function.update writer i (some (n, b ++ c)) k).isSome → (writer k).isSome := by
    intro k hk
    by_cases hki : k = i
    · rw [hki, hi]
      rfl
    · rwa [Function.update_of_ne hki] at hk
  refine ⟨h.named, ?_, fun k l hk hl => h.apart k l (hsome k hk) (hsome l hl)⟩
  intro k m d hk
  by_cases hki : k = i
  · subst hki
    rw [Function.update_self, Option.some.injEq, Prod.mk.injEq] at hk
    obtain ⟨rfl, rfl⟩ := hk
    obtain ⟨hpath, hdata, hname⟩ := h.node k n b hi
    refine ⟨hpath, ?_, hname⟩
    simp only [Store.write, Function.update_self, hdata, writeAt_end]
  · rw [Function.update_of_ne hki] at hk
    obtain ⟨hpath, hdata, hname⟩ := h.node k m d hk
    exact ⟨hpath, (Function.update_of_ne (h.node_ne hk hi hki) _ _).trans hdata, hname⟩

omit [DecidableEq ν] in
theorem Tidy.unlink (h : Tidy path writer s) : Tidy path writer (s.unlink p) := by
  refine ⟨fun q n hq => ?_, fun i n b hi => ?_, h.apart⟩
  · rw [names_unlink] at hq
    split at hq
    · cases hq
    · exact h.named q n hq
  · obtain ⟨hpath, hdata, hname⟩ := h.node i n b hi
    refine ⟨hpath, hdata, ?_⟩
    rw [names_unlink]
    split
    · exact .inl rfl
    · exact hname

omit [DecidableEq κ] in
/-- A writer stops. -/
theorem Tidy.close (h : Tidy path writer s) : Tidy path (Function.update writer i none) s := by
  have hkept : ∀ k v, Function.update writer i none k = some v → writer k = some v := by
    intro k v hk
    by_cases hki : k = i
    · rw [hki, Function.update_self] at hk
      cases hk
    · rwa [Function.update_of_ne hki] at hk
  refine ⟨h.named, fun k n b hk => h.node k n b (hkept k _ hk), fun k l hk hl => ?_⟩
  obtain ⟨v, hv⟩ := Option.isSome_iff_exists.mp hk
  obtain ⟨w, hw⟩ := Option.isSome_iff_exists.mp hl
  exact h.apart k l (by simp [hkept k v hv]) (by simp [hkept l w hw])

/-- The file of every writer is there under its name. -/
def Present (path : ν → κ) (writer : ν → Option (ν × List β)) (s : Store ν κ β) : Prop :=
  ∀ i, (writer i).isSome → (s.names (path i)).isSome

theorem Present.create (h : Present path writer s) {v : ν × List β} :
    Present path (Function.update writer j (some v)) (s.create (path j) j) := by
  intro i hi
  rw [names_create]
  split
  · rfl
  · next hp =>
    have hij : i ≠ j := fun he => hp (congrArg path he)
    rw [Function.update_of_ne hij] at hi
    exact h i hi

omit [DecidableEq κ] in
theorem Present.write (h : Present path writer s) (hi : (writer i).isSome) {v : ν × List β}
    {k : Nat} :
    Present path (Function.update writer i (some v)) (s.write fill n k b) := by
  intro j hj
  by_cases hji : j = i
  · subst hji
    exact h j hi
  · rw [Function.update_of_ne hji] at hj
    exact h j hj

omit [DecidableEq κ] in
theorem Present.close (h : Present path writer s) :
    Present path (Function.update writer i none) s := by
  intro j hj
  by_cases hji : j = i
  · rw [hji, Function.update_self] at hj
    cases hj
  · rw [Function.update_of_ne hji] at hj
    exact h j hj

omit [DecidableEq ν] in
/-- A name that no writer has open goes. -/
theorem Present.unlink (h : Present path writer s) (hp : ∀ i, (writer i).isSome → path i ≠ p) :
    Present path writer (s.unlink p) := by
  intro i hi
  rw [names_unlink, if_neg (hp i hi)]
  exact h i hi

end Files
