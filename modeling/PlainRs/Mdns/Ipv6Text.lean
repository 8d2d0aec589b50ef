import PlainRs.Base.Ipv6
import PlainRs.Mdns.PacketCodec

/-! The IPv6 texts: the run of zeros that is left out, and the address that a text stands for. -/
namespace PlainRs.Mdns

open Checked Ipv6

variable {groups left right : List UInt16} {s l i n fuel : ℕ} {best : Option (ℕ × ℕ)}
  {bytes : Bytes}

section Runs

/-- Zeros in a row, at `s` and the `l - 1` places behind it. -/
def ZeroRun (groups : List UInt16) (s l : ℕ) : Prop :=
  ∀ i, s ≤ i → i < s + l → groups[i]? = some 0

/-- None is longer, and none of the same length begins before it. -/
def FirstLongest (groups : List UInt16) (s l : ℕ) : Prop :=
  ZeroRun groups s l ∧ ∀ s' l', ZeroRun groups s' l' → 1 ≤ l' → l' < l ∨ (l' = l ∧ s ≤ s')

/-- What is found in the first `i` groups. -/
def Found (groups : List UInt16) (i : ℕ) : Option (ℕ × ℕ) → Prop
  | none => ∀ s' l', ZeroRun groups s' l' → s' + l' ≤ i → l' = 0
  | some (s, l) => 1 ≤ l ∧ ZeroRun groups s l ∧ s + l ≤ i ∧
      ∀ s' l', ZeroRun groups s' l' → 1 ≤ l' → s' + l' ≤ i → l' < l ∨ (l' = l ∧ s ≤ s')

/-- No run goes on over the place. -/
def Apart (groups : List UInt16) (i : ℕ) : Prop :=
  ∀ s' l', ZeroRun groups s' l' → s' < i → s' + l' ≤ i

/-- The zeros from a place on. -/
theorem zeros_at (groups : List UInt16) (i : ℕ) :
    ZeroRun groups i ((groups.drop i).takeWhile (· = 0)).length ∧
      groups[i + ((groups.drop i).takeWhile (· = 0)).length]? ≠ some 0 := by
  have hsplit := List.takeWhile_append_dropWhile (p := fun h => decide (h = 0)) (l := groups.drop i)
  constructor
  · intro j hij hj
    obtain ⟨k, rfl⟩ := Nat.exists_eq_add_of_le hij
    have hk : k < ((groups.drop i).takeWhile (· = 0)).length := by omega
    have hget : (groups.drop i)[k]? = some ((groups.drop i).takeWhile (· = 0))[k] := by
      rw [← List.getElem?_eq_getElem hk]
      conv_lhs => rw [← hsplit]
      rw [List.getElem?_append_left hk]
    have hzero := List.mem_takeWhile_imp (List.getElem_mem hk)
    rw [List.getElem?_drop] at hget
    rw [hget, of_decide_eq_true hzero]
  · intro hzero
    have hnot := List.head?_dropWhile_not (fun h => decide (h = 0)) (groups.drop i)
    rw [← List.getElem?_drop] at hzero
    generalize (groups.drop i).takeWhile (· = 0) = zeros at *
    rw [← hsplit, List.getElem?_append_right le_rfl, Nat.sub_self,
      ← List.head?_eq_getElem?] at hzero
    rw [hzero] at hnot
    simp at hnot

/-- Nor does one begin at it and go on. -/
theorem apart_succ (hi : groups[i]? ≠ some 0) : Apart groups (i + 1) := by
  intro s' l' hrun hs
  rcases Nat.lt_or_ge i (s' + l') with hin | hle
  · exact absurd (hrun i (by omega) hin) hi
  · omega

theorem Found.succ (h : Found groups i best) (hi : groups[i]? ≠ some 0) :
    Found groups (i + 1) best := by
  have hend : ∀ s' l', ZeroRun groups s' l' → 1 ≤ l' → s' + l' ≤ i + 1 → s' + l' ≤ i := by
    intro s' l' hrun hl hle
    by_contra hnot
    exact hi (hrun i (by omega) (by omega))
  cases best with
  | none =>
    intro s' l' hrun hle
    rcases Nat.eq_zero_or_pos l' with hzero | hpos
    · exact hzero
    · exact h s' l' hrun (hend s' l' hrun hpos hle)
  | some b =>
    obtain ⟨hpos, hrun, hle, hbest⟩ := h
    exact ⟨hpos, hrun, by omega, fun s' l' hrun' hl' hle' =>
      hbest s' l' hrun' hl' (hend s' l' hrun' hl' hle')⟩

/-- No run goes on over a place without a zero. -/
theorem apart_of_end (hend : groups[i]? ≠ some 0) : Apart groups i := by
  intro s' l' hrun hs
  rcases Nat.lt_or_ge i (s' + l') with hin | hle
  · exact absurd (hrun i (by omega) hin) hend
  · exact hle

/-- A run of zeros is taken if it is longer than those before it. -/
theorem Found.add (h : Found groups i best) (hapart : Apart groups i) (hpos : 1 ≤ n)
    (hrun : ZeroRun groups i n) :
    Found groups (i + n) (if best.all fun b => b.2 < n then some (i, n) else best) := by
  have hbehind : ∀ s' l', ZeroRun groups s' l' → ¬ s' + l' ≤ i → i ≤ s' := by
    intro s' l' hrun' hnot
    by_contra hlt
    exact hnot (hapart s' l' hrun' (by omega))
  cases best with
  | none =>
    rw [Option.all_none, if_pos rfl]
    refine ⟨hpos, hrun, le_rfl, fun s' l' hrun' hl' hle' => ?_⟩
    have hs := hbehind s' l' hrun' fun hle => by
      have hnone := h s' l' hrun' hle
      omega
    omega
  | some b =>
    obtain ⟨s, l⟩ := b
    obtain ⟨hl, hbest, hle, hfirst⟩ := h
    split
    · next hlonger =>
      have hlt : l < n := by simpa using hlonger
      refine ⟨hpos, hrun, le_rfl, fun s' l' hrun' hl' hle' => ?_⟩
      by_cases hbefore : s' + l' ≤ i
      · have hold := hfirst s' l' hrun' hl' hbefore
        omega
      · have hs := hbehind s' l' hrun' hbefore
        omega
    · next hlonger =>
      have hge : n ≤ l := by simpa using hlonger
      refine ⟨hl, hbest, by omega, fun s' l' hrun' hl' hle' => ?_⟩
      by_cases hbefore : s' + l' ≤ i
      · exact hfirst s' l' hrun' hl' hbefore
      · have hs := hbehind s' l' hrun' hbefore
        omega

/-- The scan finds the first of the longest runs. -/
theorem zeroRun_found (hfuel : groups.length ≤ i + fuel) (hapart : Apart groups i)
    (h : Found groups i best) : ∃ i', groups.length ≤ i' ∧
      Found groups i' (zeroRun groups fuel i best) := by
  induction fuel generalizing i best with
  | zero => exact ⟨i, hfuel, h⟩
  | succ fuel ih =>
    rw [zeroRun]
    by_cases hi : i < groups.length
    · rw [if_pos hi]
      dsimp only
      obtain ⟨hrun, hend⟩ := zeros_at groups i
      generalize ((groups.drop i).takeWhile (· = 0)).length = n at *
      by_cases hn : n = 0
      · rw [if_pos hn]
        subst hn
        exact ih (by omega) (apart_succ hend) (h.succ hend)
      · rw [if_neg hn]
        have hpos := Nat.one_le_iff_ne_zero.mpr hn
        exact ih (by omega) (apart_of_end hend) (h.add hapart hpos hrun)
    · rw [if_neg hi]
      exact ⟨i, by omega, h⟩

/-- A run is within the groups. -/
theorem ZeroRun.le (h : ZeroRun groups s l) (hpos : 1 ≤ l) : s + l ≤ groups.length := by
  have hlast := h (s + l - 1) (by omega) (by omega)
  obtain ⟨hlt, -⟩ := List.getElem?_eq_some_iff.mp hlast
  omega

/-- What is found in the end: no zero, or the first longest run. -/
theorem zeroRun_eq (groups : List UInt16) :
    match zeroRun groups groups.length 0 none with
    | none => ∀ s l, ZeroRun groups s l → l = 0
    | some (s, l) => 1 ≤ l ∧ FirstLongest groups s l := by
  have hnone : Found groups 0 none := by
    intro s' l' _ hle
    omega
  have hapart : Apart groups 0 := by
    intro s' l' _ hlt
    omega
  obtain ⟨i, hi, hfound⟩ := zeroRun_found (Nat.zero_add _).ge hapart hnone
  have hin : ∀ s' l', ZeroRun groups s' l' → 1 ≤ l' → s' + l' ≤ i := by
    intro s' l' hrun hl
    exact (hrun.le hl).trans hi
  cases hbest : zeroRun groups groups.length 0 none with
  | none =>
    rw [hbest] at hfound
    intro s l hrun
    rcases Nat.eq_zero_or_pos l with hzero | hpos
    · exact hzero
    · exact hfound s l hrun (hin s l hrun hpos)
  | some b =>
    rw [hbest] at hfound
    obtain ⟨hpos, hrun, -, hfirst⟩ := hfound
    exact ⟨hpos, hrun, fun s' l' hrun' hl' => hfirst s' l' hrun' hl' (hin s' l' hrun' hl')⟩

end Runs

section Texts

theorem length_hextetsOf (h : bytes.length = 2 * n) : (hextetsOf bytes).length = n := by
  induction n generalizing bytes with
  | zero =>
    rw [List.length_eq_zero_iff.mp h]
    rfl
  | succ n ih =>
    match bytes, h with
    | hi :: lo :: rest, h =>
      rw [hextetsOf, List.length_cons, ih]
      simpa [Nat.mul_add] using h

theorem toNat_hextet (hi lo : UInt8) :
    (hi.toUInt16 <<< 8 ||| lo.toUInt16).toNat = 256 * hi.toNat + lo.toNat := by
  have hhi := hi.toNat_lt
  have hlo := lo.toNat_lt
  have hshift : (hi.toUInt16 <<< 8).toNat = hi.toNat <<< 8 := by
    rw [UInt16.toNat_shiftLeft]
    have height : (8 : UInt16).toNat % 16 = 8 := by decide
    rw [height, UInt8.toNat_toUInt16, Nat.shiftLeft_eq]
    omega
  rw [UInt16.toNat_or, hshift, UInt8.toNat_toUInt16, ← Nat.shiftLeft_add_eq_or_of_lt hlo,
    Nat.shiftLeft_eq]
  omega

/-- The groups are those of the bytes. -/
theorem bytesOf_hextetsOf (h : bytes.length = 2 * n) : bytesOf (hextetsOf bytes) = bytes := by
  induction n generalizing bytes with
  | zero =>
    rw [List.length_eq_zero_iff.mp h]
    rfl
  | succ n ih =>
    match bytes, h with
    | hi :: lo :: rest, h =>
      have hrest : bytesOf (hextetsOf rest) = rest := ih (by simpa [Nat.mul_add] using h)
      have hvalue := toNat_hextet hi lo
      have hhi := hi.toNat_lt
      have hlo := lo.toNat_lt
      rw [bytesOf] at hrest
      rw [hextetsOf, bytesOf, List.flatMap_cons, hrest]
      generalize hi.toUInt16 <<< 8 ||| lo.toUInt16 = group at hvalue
      have hupper : (group >>> 8).toUInt8 = hi := by
        apply UInt8.toNat_inj.mp
        rw [UInt16.toNat_toUInt8, UInt16.toNat_shiftRight, hvalue]
        have height : (8 : UInt16).toNat % 16 = 8 := by decide
        rw [height, Nat.shiftRight_eq_div_pow]
        omega
      have hlower : group.toUInt8 = lo := by
        apply UInt8.toNat_inj.mp
        rw [UInt16.toNat_toUInt8, hvalue]
        omega
      rw [hupper, hlower]
      rfl

/-- Groups in hexadecimal digits, with colons between them. -/
def joinedHex (groups : List UInt16) : List Char :=
  [':'].intercalate (groups.map fun h => Nat.toDigits 16 h.toNat)

theorem toList_hextetsText (groups : List UInt16) :
    (hextetsText groups).toList = joinedHex groups := by
  have hcolon : ":".toList = [':'] := rfl
  rw [hextetsText, String.toList_intercalate, hcolon, joinedHex, List.map_map]
  exact congrArg _ (List.map_congr_left fun h _ => String.toList_ofList)

theorem groups_hex (groups : List UInt16) :
    List.Forall₂ IsGroup (groups.map fun h => Nat.toDigits 16 h.toNat) groups := by
  induction groups with
  | nil => exact .nil
  | cons h groups ih => exact .cons (isGroup_toDigits h) ih

/-- The text with a run left out. -/
theorem denotes_compressed (hlen : groups.length = 8) (hl : 2 ≤ l) (hrun : ZeroRun groups s l) :
    Denotes (joinedHex (groups.take s) ++ ':' :: ':' :: joinedHex (groups.drop (s + l)))
      groups := by
  have hle := hrun.le (by omega)
  have hzeros : List.replicate l 0 = (groups.drop s).take l := by
    refine List.ext_getElem? fun i => ?_
    by_cases hi : i < l
    · rw [List.getElem?_replicate_of_lt hi, List.getElem?_take_of_lt hi, List.getElem?_drop,
        hrun (s + i) (by omega) (by omega)]
    · rw [List.getElem?_eq_none (by rw [List.length_replicate]; omega),
        List.getElem?_eq_none (by rw [List.length_take]; omega)]
  have hwhole : groups.take s ++ (List.replicate l 0 ++ groups.drop (s + l)) = groups := by
    rw [hzeros, ← List.drop_drop, List.take_append_drop, List.take_append_drop]
  have hdenotes := Denotes.compressed (groups_hex (groups.take s))
    (tail_of_groups (groups_hex (groups.drop (s + l)))) (show 1 ≤ l by omega)
    (by rw [List.length_take, List.length_drop]; omega)
  rwa [hwhole] at hdenotes

/-- The text without a run left out. -/
theorem denotes_full (hlen : groups.length = 8) : Denotes (joinedHex groups) groups :=
  .full (tail_of_groups (groups_hex groups)) hlen

/-- The four shapes of a text with a run left out are one. -/
theorem toList_shape (left right : List UInt16) :
    (match left.isEmpty, right.isEmpty with
      | true, true => "::"
      | true, false => "::" ++ hextetsText right
      | false, true => hextetsText left ++ "::"
      | false, false => hextetsText left ++ "::" ++ hextetsText right).toList =
      joinedHex left ++ ':' :: ':' :: joinedHex right := by
  have hcolons : "::".toList = [':', ':'] := rfl
  have hnil : joinedHex [] = [] := rfl
  cases left with
  | nil =>
    cases right with
    | nil => rfl
    | cons h right =>
      show ("::" ++ hextetsText (h :: right)).toList = _
      rw [String.toList_append, toList_hextetsText, hcolons, hnil]
      rfl
  | cons g left =>
    cases right with
    | nil =>
      show (hextetsText (g :: left) ++ "::").toList = _
      rw [String.toList_append, toList_hextetsText, hcolons, hnil]
    | cons h right =>
      show (hextetsText (g :: left) ++ "::" ++ hextetsText (h :: right)).toList = _
      rw [String.toList_append, String.toList_append, toList_hextetsText, toList_hextetsText,
        hcolons, List.append_assoc]
      rfl

/-- What the text is, of sixteen bytes. -/
theorem ipv6ToString_eq (h : bytes.length = 16) : ∃ text, ipv6ToString bytes = .ok (some text) ∧
    ((∃ s l, 2 ≤ l ∧ FirstLongest (hextetsOf bytes) s l ∧
        text.toList = joinedHex ((hextetsOf bytes).take s) ++
          ':' :: ':' :: joinedHex ((hextetsOf bytes).drop (s + l))) ∨
      ((∀ s l, ZeroRun (hextetsOf bytes) s l → l < 2) ∧
        text.toList = joinedHex (hextetsOf bytes))) := by
  have hbest := zeroRun_eq (hextetsOf bytes)
  rw [ipv6ToString, if_neg (not_not.mpr h)]
  dsimp only
  generalize hextetsOf bytes = groups at *
  cases hrun : zeroRun groups groups.length 0 none with
  | none =>
    rw [hrun] at hbest
    refine ⟨_, rfl, .inr ⟨fun s l hzeros => ?_, toList_hextetsText groups⟩⟩
    have hnone := hbest s l hzeros
    omega
  | some b =>
    obtain ⟨s, l⟩ := b
    rw [hrun] at hbest
    obtain ⟨hpos, hfirst⟩ := hbest
    dsimp only
    by_cases hl : 2 ≤ l
    · have hle := hfirst.1.le hpos
      have hleft : slice groups 0 s = .ok (groups.take s) := if_pos ⟨Nat.zero_le _, by omega⟩
      have hright : slice groups (s + l) groups.length = .ok (groups.drop (s + l)) := by
        rw [slice, if_pos ⟨hle, le_rfl⟩, List.take_of_length_le]
        rw [List.length_drop]
      rw [if_pos hl, hleft, ok_bind, hright, ok_bind]
      exact ⟨_, rfl, .inl ⟨s, l, hl, hfirst, toList_shape _ _⟩⟩
    · rw [if_neg hl]
      refine ⟨_, rfl, .inr ⟨fun s' l' hzeros => ?_, toList_hextetsText groups⟩⟩
      rcases Nat.eq_zero_or_pos l' with hzero | hpos'
      · omega
      · have hmost := hfirst.2 s' l' hzeros hpos'
        omega

abbrev Address := {bytes : Bytes // bytes.length = 16}

/-- The text of an address stands for its bytes and for no others, and what is left out is the first
of the longest runs of zeros, if it is of two groups at least. -/
theorem ipv6_text_faithful (a : Address) : ∃ text, ipv6ToString a = .ok (some text) ∧
    (∀ bytes, (∃ groups, Denotes text.toList groups ∧ bytesOf groups = bytes) ↔ bytes = a) ∧
    ((∃ s l, 2 ≤ l ∧ FirstLongest (hextetsOf a) s l ∧
        text.toList = joinedHex ((hextetsOf a).take s) ++
          ':' :: ':' :: joinedHex ((hextetsOf a).drop (s + l))) ∨
      ((∀ s l, ZeroRun (hextetsOf a) s l → l < 2) ∧ text.toList = joinedHex (hextetsOf a))) := by
  obtain ⟨text, htext, hform⟩ := ipv6ToString_eq a.property
  refine ⟨text, htext, fun bytes => ?_, hform⟩
  have heven : a.val.length = 2 * 8 := a.property
  have hlen := length_hextetsOf heven
  have hdenotes : Denotes text.toList (hextetsOf a) := by
    rcases hform with ⟨s, l, hl, hrun, hform⟩ | ⟨-, hform⟩
    · rw [hform]
      exact denotes_compressed hlen hl hrun.1
    · rw [hform]
      exact denotes_full hlen
  constructor
  · rintro ⟨groups, hgroups, rfl⟩
    rw [hgroups.eq hdenotes, bytesOf_hextetsOf heven]
  · rintro rfl
    exact ⟨_, hdenotes, bytesOf_hextetsOf heven⟩

end Texts

end PlainRs.Mdns
