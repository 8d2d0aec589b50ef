import PlainRs.Base.FilteredPages

/-! A list whose ranks may be empty, read in chunks of ranks. -/
namespace Gaps

variable {α : Type} {B A : List α} {a b e e' q w o l n i j c : ℕ} {y : α} {R : List (Option α)}
  {p : α → Bool}

section Creeps

/-- Each element read stands at most one place past the one before it, and the first one at most at
`e`. -/
inductive Creeps (B : List α) : ℕ → List α → Prop
  | nil {e : ℕ} : Creeps B e []
  | cons {e i : ℕ} {x : α} {A : List α} (hi : i ≤ e) (hx : B[i]? = some x) (h : Creeps B (i + 1) A) :
    Creeps B e (x :: A)

theorem Creeps.mono (h : Creeps B e A) (he : e ≤ e') : Creeps B e' A := by
  cases h with
  | nil => exact .nil
  | cons hi hx h => exact .cons (hi.trans he) hx h

/-- A stretch that begins early enough can be put before what creeps on from its end. -/
theorem Creeps.stretch (ha : a ≤ e) (hab : a ≤ b) (hb : b ≤ B.length) (h : Creeps B b A) :
    Creeps B e ((B.drop a).take (b - a) ++ A) := by
  induction hn : b - a generalizing a e with
  | zero =>
    rw [List.take_zero, List.nil_append]
    exact h.mono (by omega)
  | succ n ih =>
    have hlt : a < B.length := by omega
    rw [List.drop_eq_getElem_cons hlt, List.take_succ_cons, List.cons_append]
    exact .cons ha (List.getElem?_eq_getElem hlt) (ih le_rfl (by omega) (by omega))

theorem Creeps.bound (h : Creeps B e A) (hq : A[q]? = some y) : ∃ i ≤ e + q, B[i]? = some y := by
  induction h generalizing q with
  | nil => cases hq
  | @cons e i x A hi hx _ ih =>
    cases q with
    | zero => exact ⟨i, hi, hx.trans (by simpa using hq)⟩
    | succ q =>
      rw [List.getElem?_cons_succ] at hq
      obtain ⟨j, hj, hy⟩ := ih hq
      exact ⟨j, by omega, hy⟩

/-- Who is at the place where he would be without going back has never gone back. -/
theorem Creeps.take_eq (hB : B.Nodup) (h : Creeps B e A) (hq : A[q]? = some y)
    (hy : B[e + q]? = some y) : A.take (q + 1) = (B.drop e).take (q + 1) := by
  induction h generalizing q with
  | nil => cases hq
  | @cons e i x A hi hx h ih =>
    have hie : i = e := by
      cases q with
      | zero =>
        have hxy : x = y := by simpa using hq
        exact FilteredPages.index_unique hB (hxy ▸ hx) hy
      | succ q =>
        rw [List.getElem?_cons_succ] at hq
        obtain ⟨j, hj, hjy⟩ := h.bound hq
        have := FilteredPages.index_unique hB hjy hy
        omega
    subst hie
    obtain ⟨hlt, hget⟩ := List.getElem?_eq_some_iff.mp hx
    rw [List.drop_eq_getElem_cons hlt, hget, List.take_succ_cons, List.take_succ_cons]
    cases q with
    | zero => rfl
    | succ q =>
      rw [List.getElem?_cons_succ] at hq
      rw [ih hq (by rw [← hy]; congr 1; omega)]

theorem drop_take_add (l : List α) (o n : ℕ) : (l.drop o).take n = (l.take (o + n)).drop o := by
  rw [List.drop_take]
  congr 1
  omega

/-- A page of what was read is that page of the list just when it is empty in both or has no rows
asked for, or nothing was read twice up to its end and nothing left out. -/
theorem Creeps.page_iff (hB : B.Nodup) (h : Creeps B 0 A) :
    (A.drop o).take l = (B.drop o).take l ↔
      l = 0 ∨ (A.length ≤ o ∧ B.length ≤ o) ∨ A.take (o + l) = B.take (o + l) := by
  constructor
  · intro heq
    by_cases hl : l = 0
    · exact .inl hl
    by_cases hlen : A.length ≤ o ∧ B.length ≤ o
    · exact .inr (.inl hlen)
    refine .inr (.inr ?_)
    have hget : A[o]? = B[o]? := by
      have h0 := congrArg (·[0]?) heq
      simpa [List.getElem?_take, Nat.pos_of_ne_zero hl] using h0
    have hsome : ∃ y, A[o]? = some y := by
      by_contra hnone
      have hA : A[o]? = none := Option.eq_none_iff_forall_ne_some.mpr fun y hy => hnone ⟨y, hy⟩
      exact hlen ⟨List.getElem?_eq_none_iff.mp hA, List.getElem?_eq_none_iff.mp (hget ▸ hA)⟩
    obtain ⟨y, hy⟩ := hsome
    have hfirst := h.take_eq hB hy (by rw [Nat.zero_add, ← hget, hy])
    have hbefore : A.take o = B.take o := by
      have := congrArg (List.take o) hfirst
      simpa [List.take_take] using this
    rw [List.take_add, List.take_add, hbefore, heq]
  · rintro (rfl | ⟨hA, hB'⟩ | heq)
    · rw [List.take_zero, List.take_zero]
    · rw [List.drop_eq_nil_of_le hA, List.drop_eq_nil_of_le hB']
    · rw [drop_take_add, drop_take_add, heq]

end Creeps

section Chunks

/-- Chunks of `c` ranks one behind the other hold all that the ranks below their end show. -/
theorem flatMap_chunks (R : List (Option α)) (c n : ℕ) :
    (List.range n).flatMap (fun i => ((R.drop (i * c)).take c).reduceOption) =
      (R.take (n * c)).reduceOption := by
  induction n with
  | zero => simp
  | succ n ih =>
    rw [List.range_succ, List.flatMap_append, ih, Nat.succ_mul, List.take_add,
      List.reduceOption_append, List.flatMap_singleton]

variable (R : List (Option α)) (p : α → Bool) (c : ℕ)

/-- The rank at which each chunk begins, where the next one is taken to begin as many ranks on as
the one before showed rows. -/
def start : ℕ → ℕ
  | 0 => 0
  | i + 1 => start i + ((R.drop (start i)).take c).reduceOption.length

/-- How many hits there are below a rank. -/
def hits (rank : ℕ) : ℕ := ((R.take rank).reduceOption.filter p).length

/-- The hits of the first `n` chunks. -/
def found (n : ℕ) : List α :=
  (List.range n).flatMap fun i => ((R.drop (start R c i)).take c).reduceOption.filter p

/-- While fewer than `want` hits lie below the end of a chunk, none of them lies behind the start of
the next one, and a chunk that shows nothing has no hit behind it. -/
def KeepsUp (want : ℕ) : Prop :=
  ∀ i, hits R p (start R c i + c) < want →
    hits R p (start R c (i + 1)) = hits R p (start R c i + c) ∧
      (start R c (i + 1) = start R c i →
        hits R p (start R c i + c) = (R.reduceOption.filter p).length)

end Chunks

section Stretches

variable {R : List (Option α)} {p : α → Bool} {c : ℕ}

theorem hits_split (R : List (Option α)) (p : α → Bool) (a n : ℕ) :
    (R.take (a + n)).reduceOption.filter p =
      (R.take a).reduceOption.filter p ++ ((R.drop a).take n).reduceOption.filter p := by
  rw [List.take_add, List.reduceOption_append, List.filter_append]

theorem hits_add (R : List (Option α)) (p : α → Bool) (a n : ℕ) :
    hits R p (a + n) = hits R p a + (((R.drop a).take n).reduceOption.filter p).length := by
  rw [hits, hits_split, List.length_append, hits]

theorem hits_mono (h : a ≤ b) : hits R p a ≤ hits R p b := by
  obtain ⟨n, rfl⟩ := Nat.exists_eq_add_of_le h
  rw [hits_add]
  exact Nat.le_add_right ..

/-- The hits below a rank are the first ones. -/
theorem hits_initial (R : List (Option α)) (p : α → Bool) (a : ℕ) :
    (R.take a).reduceOption.filter p <+: R.reduceOption.filter p := by
  refine ⟨(R.drop a).reduceOption.filter p, ?_⟩
  rw [← List.filter_append, ← List.reduceOption_append, List.take_append_drop]

theorem hits_le (R : List (Option α)) (p : α → Bool) (a : ℕ) :
    hits R p a ≤ (R.reduceOption.filter p).length := (hits_initial R p a).length_le

theorem take_hits (R : List (Option α)) (p : α → Bool) (a : ℕ) :
    (R.reduceOption.filter p).take (hits R p a) = (R.take a).reduceOption.filter p :=
  (List.prefix_iff_eq_take.mp (hits_initial R p a)).symm

/-- The hits of a stretch of ranks are a stretch of the hits. -/
theorem hits_stretch (R : List (Option α)) (p : α → Bool) (a n : ℕ) :
    ((R.drop a).take n).reduceOption.filter p =
      ((R.reduceOption.filter p).drop (hits R p a)).take (hits R p (a + n) - hits R p a) := by
  have hsplit := hits_split R p a n
  rw [← take_hits, ← take_hits] at hsplit
  have hdrop := congrArg (List.drop (hits R p a)) hsplit
  rw [List.drop_left' (by rw [List.length_take, Nat.min_eq_left (hits_le R p a)])] at hdrop
  rw [← hdrop, List.drop_take]

theorem start_le_succ (R : List (Option α)) (c i : ℕ) : start R c i ≤ start R c (i + 1) :=
  Nat.le_add_right ..

theorem start_succ_le (R : List (Option α)) (c i : ℕ) : start R c (i + 1) ≤ start R c i + c := by
  have hlen := List.reduceOption_length_le ((R.drop (start R c i)).take c)
  rw [List.length_take] at hlen
  rw [start]
  omega

theorem start_mono (R : List (Option α)) (c : ℕ) (h : i ≤ j) : start R c i ≤ start R c j :=
  monotone_nat_of_le_succ (start_le_succ R c) h

/-- Once a chunk shows nothing, all that follow begin where it begins. -/
theorem start_stuck (h : start R c (n + 1) = start R c n) (hj : n ≤ j) :
    start R c j = start R c n := by
  induction j, hj using Nat.le_induction with
  | base => rfl
  | succ j _ ih => rw [start, ih, ← start, h]

theorem found_succ (R : List (Option α)) (p : α → Bool) (c n : ℕ) :
    found R p c (n + 1) = found R p c n ++ ((R.reduceOption.filter p).drop
      (hits R p (start R c n))).take (hits R p (start R c n + c) - hits R p (start R c n)) := by
  rw [found, List.range_succ, List.flatMap_append, List.flatMap_singleton, hits_stretch, found]

theorem found_initial (R : List (Option α)) (p : α → Bool) (c : ℕ) (h : i ≤ j) :
    found R p c i <+: found R p c j := by
  induction j, h using Nat.le_induction with
  | base => exact List.prefix_rfl
  | succ j _ ih =>
    rw [found_succ]
    exact ih.trans (List.prefix_append ..)

/-- The chunks find the hits in order, but may go back to some of them. -/
theorem creeps_found (R : List (Option α)) (p : α → Bool) (c n : ℕ) :
    Creeps (R.reduceOption.filter p) 0 (found R p c n) := by
  have hfrom : ∀ k m, Creeps (R.reduceOption.filter p) (hits R p (start R c m))
      ((List.range' m k).flatMap fun i =>
        ((R.drop (start R c i)).take c).reduceOption.filter p) := by
    intro k
    induction k with
    | zero =>
      intro m
      exact .nil
    | succ k ih =>
      intro m
      rw [List.range'_succ, List.flatMap_cons, hits_stretch]
      refine .stretch le_rfl (hits_mono (Nat.le_add_right ..)) (hits_le ..) ?_
      exact (ih (m + 1)).mono (hits_mono (start_succ_le R c m))
  have h0 := hfrom n 0
  rwa [← List.range_eq_range', start, hits, List.take_zero] at h0

end Stretches

section Stops

variable {R : List (Option α)} {p : α → Bool} {c want : ℕ}

/-- Where no hit so far lies behind the start of its next chunk, the chunks have found the first
hits, up to the end of the last one. -/
theorem found_succ_of_exact (hfound : found R p c i = (R.reduceOption.filter p).take
    (hits R p (start R c i))) :
    found R p c (i + 1) = (R.reduceOption.filter p).take (hits R p (start R c i + c)) := by
  have hle : hits R p (start R c i) ≤ hits R p (start R c i + c) :=
    hits_mono (Nat.le_add_right ..)
  rw [found_succ, hfound, ← List.take_add]
  congr 1
  omega

/-- While the chunks keep up they find the first hits: all below the start of the next chunk, or as
many as are wanted. -/
theorem found_of_keepsUp (h : KeepsUp R p c want) (n : ℕ) :
    found R p c n = (R.reduceOption.filter p).take (hits R p (start R c n)) ∨
      (want ≤ (found R p c n).length ∧
        (found R p c n).take want = (R.reduceOption.filter p).take want) := by
  induction n with
  | zero =>
    left
    rw [start, hits, List.take_zero]
    rfl
  | succ n ih =>
    rcases ih with hfound | ⟨hlen, htake⟩
    · have hnext := found_succ_of_exact hfound
      rcases Nat.lt_or_ge (hits R p (start R c n + c)) want with hlt | hge
      · left
        rw [hnext, (h n hlt).1]
      · right
        have hle := hits_le R p (start R c n + c)
        rw [hnext, List.length_take, List.take_take, Nat.min_eq_left hge]
        exact ⟨by omega, rfl⟩
    · right
      obtain ⟨more, hmore⟩ := found_initial R p c (Nat.le_succ n)
      rw [← hmore, List.take_append_of_le_length hlen, List.length_append]
      exact ⟨by omega, htake⟩

/-- What is found by the first empty chunk, or by the first one with as many hits as are wanted. -/
structure StopsAt (R : List (Option α)) (p : α → Bool) (c want n : ℕ) : Prop where
  stops : want ≤ (found R p c n).length ∨ start R c (n + 1) = start R c n
  goesOn : ∀ i < n, (found R p c i).length < want ∧ start R c (i + 1) ≠ start R c i

/-- Each chunk that shows something moves on, so one of them is empty in the end. -/
theorem exists_stopsAt (R : List (Option α)) (p : α → Bool) (c want : ℕ) :
    ∃ n, StopsAt R p c want n := by
  have hstuck : ∃ n, start R c (n + 1) = start R c n := by
    by_contra hnever
    have hgrows : ∀ n, n ≤ start R c n := by
      intro n
      induction n with
      | zero => exact Nat.zero_le _
      | succ n ih =>
        have := start_le_succ R c n
        have : start R c (n + 1) ≠ start R c n := fun h => hnever ⟨n, h⟩
        omega
    refine hnever ⟨R.length, ?_⟩
    rw [start, List.drop_eq_nil_of_le (hgrows R.length), List.take_nil, List.reduceOption_nil]
    rfl
  have hstop : ∃ n, want ≤ (found R p c n).length ∨ start R c (n + 1) = start R c n :=
    hstuck.imp fun _ => .inr
  classical
  refine ⟨Nat.find hstop, Nat.find_spec hstop, fun i hi => ?_⟩
  have hnot := Nat.find_min hstop hi
  exact ⟨by omega, fun h => hnot (.inr h)⟩

theorem StopsAt.found_length (hn : StopsAt R p c want n) (hlen : (found R p c n).length < want)
    (i : ℕ) : (found R p c i).length ≤ (found R p c n).length := by
  have hstuck : start R c (n + 1) = start R c n := hn.stops.resolve_left (by omega)
  rcases Nat.le_total i n with hle | hle
  · exact (found_initial R p c hle).length_le
  · refine (congrArg List.length ?_).le
    induction i, hle using Nat.le_induction with
    | base => rfl
    | succ i hi ih =>
      have hsame : start R c i = start R c n := start_stuck hstuck hi
      have hempty : ((R.drop (start R c n)).take c).reduceOption = [] := by
        rw [start] at hstuck
        exact List.length_eq_zero_iff.mp (by omega)
      rw [found, List.range_succ, List.flatMap_append, List.flatMap_singleton, hsame, hempty,
        List.filter_nil, List.append_nil, ← found, ih]

theorem keepsUp_of_found (hB : (R.reduceOption.filter p).Nodup) (hn : StopsAt R p c want n)
    (h : (found R p c n).take want = (R.reduceOption.filter p).take want) : KeepsUp R p c want := by
  intro i hi
  -- By strong induction the chunks before this one have found the first hits.
  induction i using Nat.strong_induction_on with
  | _ i ih =>
  have hends : ∀ {j}, j ≤ i → hits R p (start R c j + c) ≤ hits R p (start R c i + c) :=
    fun hj => hits_mono (Nat.add_le_add_right (start_mono R c hj) c)
  have hexact : ∀ {j}, j ≤ i →
      found R p c j = (R.reduceOption.filter p).take (hits R p (start R c j)) := by
    intro j hj
    induction j with
    | zero =>
      rw [start, hits, List.take_zero]
      rfl
    | succ j ihj =>
      rw [found_succ_of_exact (ihj (by omega)),
        (ih j (by omega) ((hends (by omega)).trans_lt hi)).1]
  have hwidth := hits_mono (R := R) (p := p) (Nat.le_add_right (start R c i) c)
  have hback : hits R p (start R c (i + 1)) ≤ hits R p (start R c i + c) :=
    hits_mono (start_succ_le R c i)
  have htotal := hits_le R p (start R c i + c)
  rcases Nat.lt_or_ge i n with hlt | hge
  · refine ⟨?_, fun hstuck => absurd hstuck (hn.goesOn i hlt).2⟩
    by_contra hne
    -- A hit behind the start of the next chunk is found by that one once more.
    have hagain : hits R p (start R c i + c) ≤ hits R p (start R c (i + 1) + c) :=
      hits_mono (Nat.add_le_add_right (start_le_succ R c i) c)
    have hfound := found_succ_of_exact (hexact le_rfl)
    have hlen : (found R p c (i + 1)).length = hits R p (start R c i + c) := by
      rw [hfound, List.length_take, Nat.min_eq_left htotal]
    have hgo : i + 1 < n := by
      rcases Nat.lt_or_ge (i + 1) n with hgo | hend
      · exact hgo
      have hin : i + 1 = n := by omega
      rcases hn.stops with hwant | hstuck
      · rw [← hin, hlen] at hwant
        omega
      · have hempty : ((R.drop (start R c n)).take c).reduceOption = [] := by
          have := hstuck
          rw [start] at this
          exact List.length_eq_zero_iff.mp (by omega)
        have hnone := hits_add R p (start R c n) c
        rw [hempty, List.filter_nil, List.length_nil, ← hin] at hnone
        omega
    obtain ⟨hit, hhit⟩ : ∃ hit, (R.reduceOption.filter p)[hits R p (start R c (i + 1))]? =
        some hit := ⟨_, List.getElem?_eq_getElem (by omega)⟩
    have htwice : (found R p c (i + 2))[hits R p (start R c i + c)]? = some hit := by
      rw [found_succ, List.getElem?_append_right hlen.le, hlen, Nat.sub_self,
        List.getElem?_take_of_lt (by omega), List.getElem?_drop, Nat.add_zero, hhit]
    have hin : (found R p c n)[hits R p (start R c i + c)]? = some hit := by
      obtain ⟨hlt', -⟩ := List.getElem?_eq_some_iff.mp htwice
      obtain ⟨more, hmore⟩ := found_initial R p c (show i + 2 ≤ n by omega)
      rw [← hmore, List.getElem?_append_left hlt', htwice]
    have hplace : (R.reduceOption.filter p)[hits R p (start R c i + c)]? = some hit := by
      rw [← hin, ← List.getElem?_take_of_lt hi, ← h, List.getElem?_take_of_lt hi]
    exact hne (FilteredPages.index_unique hB hhit hplace)
  · have hfound := hexact hge
    have hbefore : hits R p (start R c n) ≤ hits R p (start R c i) := hits_mono (start_mono R c hge)
    have hstuck : start R c (n + 1) = start R c n := by
      rcases hn.stops with hwant | hstuck
      · rw [hfound, List.length_take] at hwant
        omega
      · exact hstuck
    have hsame : start R c i = start R c n := start_stuck hstuck hge
    have hsame' : start R c (i + 1) = start R c n := start_stuck hstuck (by omega)
    have hempty : ((R.drop (start R c n)).take c).reduceOption = [] := by
      rw [start] at hstuck
      exact List.length_eq_zero_iff.mp (by omega)
    have hnone := hits_add R p (start R c n) c
    rw [hempty, List.filter_nil, List.length_nil, Nat.add_zero] at hnone
    rw [hsame] at hi ⊢
    rw [hsame', hnone]
    refine ⟨rfl, fun _ => ?_⟩
    have hlen := congrArg List.length h
    rw [hfound, List.length_take, List.length_take, List.length_take] at hlen
    omega

/-- The chunks find as many of the first hits as are wanted just when they keep up. -/
theorem found_take_iff (hB : (R.reduceOption.filter p).Nodup) (hn : StopsAt R p c want n) :
    (found R p c n).take want = (R.reduceOption.filter p).take want ↔ KeepsUp R p c want := by
  refine ⟨keepsUp_of_found hB hn, fun h => ?_⟩
  rcases found_of_keepsUp h n with hfound | ⟨-, htake⟩
  · rw [hfound, List.take_take]
    have htotal := hits_le R p (start R c n)
    rcases hn.stops with hwant | hstuck
    · rw [hfound, List.length_take] at hwant
      rw [Nat.min_eq_left (by omega)]
    · have hempty : ((R.drop (start R c n)).take c).reduceOption = [] := by
        rw [start] at hstuck
        exact List.length_eq_zero_iff.mp (by omega)
      have hnone := hits_add R p (start R c n) c
      rw [hempty, List.filter_nil, List.length_nil, Nat.add_zero] at hnone
      rcases Nat.lt_or_ge (hits R p (start R c n)) want with hlt | hge
      · have hall := (h n (by omega)).2 hstuck
        rw [Nat.min_eq_right hlt.le, List.take_of_length_le (by omega),
          List.take_of_length_le (by omega)]
      · rw [Nat.min_eq_left hge]
  · exact htake

/-- The page of what was found is that page of the hits just when it is empty in both, or no rows
are asked for, or the chunks keep up to its end. -/
theorem page_found_iff (hB : (R.reduceOption.filter p).Nodup) (hn : StopsAt R p c (o + l) n) :
    ((found R p c n).drop o).take l = ((R.reduceOption.filter p).drop o).take l ↔
      l = 0 ∨ ((∀ i, (found R p c i).length ≤ o) ∧ (R.reduceOption.filter p).length ≤ o) ∨
        KeepsUp R p c (o + l) := by
  rw [(creeps_found R p c n).page_iff hB, found_take_iff hB hn]
  by_cases hl : l = 0
  · exact iff_of_true (.inl hl) (.inl hl)
  have hall : (found R p c n).length ≤ o ↔ ∀ i, (found R p c i).length ≤ o :=
    ⟨fun h i => (hn.found_length (by omega) i).trans h, fun h => h n⟩
  rw [hall]

/-- Where every rank shows something, each chunk begins where the one before ends. -/
theorem keepsUp_of_full (hc : 0 < c) (hR : ∀ row ∈ R, row.isSome) : KeepsUp R p c want := by
  have hlen : ∀ i, start R c (i + 1) = start R c i + min c (R.length - start R c i) := by
    intro i
    rw [start, List.reduceOption_length_eq_iff.mpr fun row hrow =>
      hR row (List.mem_of_mem_drop (List.mem_of_mem_take hrow)), List.length_take, List.length_drop]
  have hle : ∀ i, start R c i ≤ R.length := by
    intro i
    induction i with
    | zero => exact Nat.zero_le _
    | succ i ih =>
      rw [hlen]
      omega
  intro i _
  have hnext := hlen i
  have hin := hle i
  constructor
  · rcases Nat.le_total c (R.length - start R c i) with hmore | hend
    · rw [hnext, Nat.min_eq_left hmore]
    · rw [hits, hits, List.take_of_length_le (by omega), List.take_of_length_le (by omega)]
  · intro hstuck
    rw [hits, List.take_of_length_le (by omega)]

end Stops

end Gaps
