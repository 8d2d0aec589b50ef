import PlainRs.Utils.ExifGps

/-! The header readers as a build with overflow checks runs them, and the sizes that they give. -/
namespace PlainRs.Utils

open Checked Endian

namespace OverflowChecked

/-- The loop of `jpeg` from `i` on. -/
def jpegFrom (b : List UInt8) (i : ℕ) : Checked (Option (Int × Int)) := do
  fits (i + 1)
  if i + 1 < b.length then
    if (← get b i) ≠ 0xFF then jpegFrom b (i + 1)
    else
      if b.length ≤ skipFills b i then pure none
      else
        let m ← get b (skipFills b i)
        fits (skipFills b i + 1)
        let j := skipFills b i + 1
        if isFrameMarker m then
          fits (j + 7)
          if b.length < j + 7 then pure none
          else
            let h := beNat [← get b (j + 3), ← get b (j + 4)]
            let w := beNat [← get b (j + 5), ← get b (j + 6)]
            pure (some (w, h))
        else if m = 0xDA ∨ m = 0xD9 then pure none
        else
          fits (j + 2)
          if b.length < j + 2 then pure none
          else
            let seg := beNat [← get b j, ← get b (j + 1)]
            if seg < 2 then pure none
            else
              fits (j + (2 + (seg - 2)))
              jpegFrom b (j + (2 + (seg - 2)))
  else pure none
termination_by b.length - i
decreasing_by
  · omega
  · have : i ≤ skipFills b i := Nat.le_add_right _ _
    omega

def jpeg (b : List UInt8) : Checked (Option (Int × Int)) := jpegFrom b 2

def abs (n : Int) : Checked Int := if n = -2 ^ 31 then .error .overflow else .ok |n|

def bmp (b : List UInt8) : Checked (Option (Int × Int)) :=
  if b.length < 26 then pure none
  else do
    let w := asI32 (leNat (← slice b 18 22))
    let h := asI32 (leNat (← slice b 22 26))
    pure (some (← abs w, ← abs h))

def tiffIfdValueI32 (tiff : List UInt8) (entry : ℕ) (le : Bool) : Checked (Option Int) := do
  fits (entry + 2)
  orNone (readU16 tiff (entry + 2) le) fun typ =>
    if typ = 3 then do
      fits (entry + 8)
      orNone (readU16 tiff (entry + 8) le) fun n => pure (some n)
    else if typ = 4 then do
      fits (entry + 8)
      orNone (readU32 tiff (entry + 8) le) fun n => pure (some (asI32 n))
    else pure none

/-- The loop of `tiff` from the entry `i` on. -/
def tiffEntries (b : List UInt8) (le : Bool) (base : ℕ) :
    ℕ → ℕ → Option Int → Option Int → Checked (Option (Int × Int))
  | 0, _, width, height => pure (width.bind fun w => height.map fun h => (w, h))
  | left + 1, i, width, height =>
    orNone (entryAt b base i) fun entry =>
      orNone (readU16 b entry le) fun tag => do
        let width ← (if tag = 0x0100 then tiffIfdValueI32 b entry le else pure width)
        let height ← (if tag = 0x0101 then tiffIfdValueI32 b entry le else pure height)
        if width.isSome ∧ height.isSome then
          pure (width.bind fun w => height.map fun h => (w, h))
        else tiffEntries b le base left (i + 1) width height

def tiff (b : List UInt8) : Checked (Option (Int × Int)) :=
  orNone (pure (parseTiffHeader b)) fun (le, ifdOff) =>
    orNone (readU16 b ifdOff le) fun count => do
      fits (ifdOff + 2)
      tiffEntries b le (ifdOff + 2) count 0 none none

/-- The readers of the other formats add fixed numbers only. -/
def dimensions (bytes : List UInt8) : Checked (Option (Int × Int)) :=
  if [0xFF, 0xD8] <+: bytes then jpeg bytes
  else if [0x89, 0x50, 0x4E, 0x47, 0x0D, 0x0A, 0x1A, 0x0A] <+: bytes then png bytes
  else if ascii ['G', 'I', 'F', '8', '7', 'a'] <+: bytes ∨
      ascii ['G', 'I', 'F', '8', '9', 'a'] <+: bytes then gif bytes
  else if ascii ['B', 'M'] <+: bytes then bmp bytes
  else if 12 ≤ bytes.length ∧ bytes.take 4 = ascii ['R', 'I', 'F', 'F'] ∧
      (bytes.drop 8).take 4 = ascii ['W', 'E', 'B', 'P'] then webp bytes
  else if ascii ['I', 'I'] <+: bytes ∨ ascii ['M', 'M'] <+: bytes then tiff bytes
  else if 8 ≤ bytes.length ∧ [0x00, 0x00, 0x01] <+: bytes then ico bytes
  else pure none

end OverflowChecked

variable {b bytes : List UInt8} {i left base entry : ℕ} {le : Bool} {m : UInt8}
  {width height : Option Int}

section Sums

namespace OverflowChecked

/-- No position of the walk is out of range of a word, and it ends before its count does. -/
theorem jpegFrom_eq (hlen : b.length < 2 ^ 63) (hi : i ≤ b.length + 2 ^ 16)
    (hleft : b.length ≤ i + left) : jpegFrom b i = Utils.jpegFrom b left i := by
  induction left generalizing i with
  | zero =>
    rw [jpegFrom, Utils.jpegFrom, fits_bind (by omega), if_neg (by omega)]
  | succ left ih =>
    have hfills : i ≤ skipFills b i := Nat.le_add_right _ _
    rw [jpegFrom, Utils.jpegFrom, fits_bind (by omega)]
    by_cases hnext : i + 1 < b.length
    · rw [if_pos hnext, if_pos hnext]
      refine bind_congr fun first => ?_
      by_cases hfirst : first = 0xFF
      · rw [if_neg (not_not.mpr hfirst), if_neg (not_not.mpr hfirst)]
        dsimp only
        by_cases hend : b.length ≤ skipFills b i
        · rw [if_pos hend, if_pos hend]
        · rw [if_neg hend, if_neg hend]
          refine bind_congr fun m => ?_
          rw [fits_bind (by omega), jpegMarker]
          by_cases hframe : isFrameMarker m = true
          · rw [if_pos hframe, if_pos hframe, fits_bind (by omega)]
          rw [if_neg hframe, if_neg hframe]
          by_cases hlast : m = 0xDA ∨ m = 0xD9
          · rw [if_pos hlast, if_pos hlast]
          rw [if_neg hlast, if_neg hlast, fits_bind (by omega)]
          by_cases hshort : b.length < skipFills b i + 1 + 2
          · rw [if_pos hshort, if_pos hshort]
          rw [if_neg hshort, if_neg hshort]
          refine bind_congr fun hi => bind_congr fun lo => ?_
          have hseg : beNat [hi, lo] < 256 ^ 2 := beNat_lt [hi, lo]
          by_cases hsmall : beNat [hi, lo] < 2
          · rw [if_pos hsmall, if_pos hsmall]
          rw [if_neg hsmall, if_neg hsmall, fits_bind (by omega)]
          exact ih (by omega) (by omega)
      · rw [if_pos hfirst, if_pos hfirst]
        exact ih (by omega) (by omega)
    · rw [if_neg hnext, if_neg hnext]

theorem jpeg_eq (hlen : b.length < 2 ^ 63) : jpeg b = Utils.jpeg b :=
  jpegFrom_eq hlen (by omega) (by omega)

theorem tiffIfdValueI32_eq (h : entry < 2 ^ 34) :
    tiffIfdValueI32 b entry le = .ok (Utils.tiffIfdValueI32 b entry le) := by
  rw [tiffIfdValueI32, Utils.tiffIfdValueI32, fits_bind (by omega), readU16, fits_bind (by omega)]
  cases tiffReadU16 b (entry + 2) le with
  | none => rfl
  | some typ =>
    rw [orNone_some, Option.bind_eq_bind, Option.bind_some]
    by_cases hshort : typ = 3
    · rw [if_pos hshort, if_pos hshort, fits_bind (by omega), readU16, fits_bind (by omega)]
      cases tiffReadU16 b (entry + 8) le <;> rfl
    rw [if_neg hshort, if_neg hshort]
    by_cases hlong : typ = 4
    · rw [if_pos hlong, if_pos hlong, fits_bind (by omega), readU32, fits_bind (by omega)]
      cases tiffReadU32 b (entry + 8) le <;> rfl
    · rw [if_neg hlong, if_neg hlong]
      rfl

theorem tiffEntries_eq (hbase : base < 2 ^ 33) (hi : i + left ≤ 2 ^ 16) :
    tiffEntries b le base left i width height =
      .ok (Utils.tiffEntries b le left (base + i * 12) width height) := by
  induction left generalizing i width height with
  | zero => cases width <;> cases height <;> rfl
  | succ left ih =>
    have hnext : base + i * 12 + 12 = base + (i + 1) * 12 := by omega
    rw [tiffEntries, Utils.tiffEntries, entryAt, fits_bind (by omega), fits_bind (by omega),
      fits_bind (by omega)]
    by_cases hlen : b.length < base + i * 12 + 12
    · rw [if_pos hlen, if_pos hlen]
      rfl
    rw [if_neg hlen, if_neg hlen, orNone_some, readU16, fits_bind (by omega)]
    cases tiffReadU16 b (base + i * 12) le with
    | none => rfl
    | some tag =>
      have hvalue : ∀ (p : Prop) [Decidable p] (found : Option Int),
          (if p then tiffIfdValueI32 b (base + i * 12) le else pure found) =
            .ok (if p then Utils.tiffIfdValueI32 b (base + i * 12) le else found) := by
        intro p hp found
        split
        · exact tiffIfdValueI32_eq (by omega)
        · rfl
      rw [orNone_some, hvalue, ok_bind, hvalue, ok_bind, Option.bind_eq_bind, Option.bind_some]
      dsimp only
      generalize (if tag = 0x0100 then
        Utils.tiffIfdValueI32 b (base + i * 12) le else width) = width
      generalize (if tag = 0x0101 then
        Utils.tiffIfdValueI32 b (base + i * 12) le else height) = height
      by_cases hboth : width.isSome ∧ height.isSome
      · rw [if_pos hboth, if_pos hboth]
        cases width <;> cases height <;> rfl
      · rw [if_neg hboth, if_neg hboth, hnext]
        exact ih (by omega)

theorem tiff_eq : tiff b = .ok (Utils.tiff b) := by
  rw [tiff, Utils.tiff]
  cases hheader : parseTiffHeader b with
  | none => rfl
  | some header =>
    have hoff := parseTiffHeader_lt hheader
    obtain ⟨le, ifdOff⟩ := header
    dsimp only at hoff
    rw [orNone_some, Option.bind_eq_bind, Option.bind_some]
    dsimp only
    rw [readU16, fits_bind (by omega)]
    cases hcount : tiffReadU16 b ifdOff le with
    | none => rfl
    | some count =>
      have hlt := tiffReadU16_lt hcount
      rw [orNone_some, fits_bind (by omega), Option.bind_eq_bind, Option.bind_some]
      exact tiffEntries_eq (by omega) (by omega)

end OverflowChecked

end Sums

section Sizes

/-- Neither side is negative. -/
def NonNegative (size : Int × Int) : Prop := 0 ≤ size.1 ∧ 0 ≤ size.2

theorem gives_some_iff {α : Type} {P : α → Prop} {a : α} :
    Gives (.ok (some a)) P ↔ P a := by
  constructor
  · rintro ⟨r, hr, h⟩
    cases hr
    exact h a rfl
  · exact Gives.some

theorem asI32_eq {n : ℕ} (h : n < 2 ^ 32) :
    asI32 n = if n < 2 ^ 31 then (n : ℤ) else n - 2 ^ 32 := by
  unfold asI32
  have hbmod := Int.bmod_def (n : ℤ) (2 ^ 32)
  generalize (n : ℤ).bmod (2 ^ 32) = x at hbmod ⊢
  push_cast at hbmod
  split at hbmod
  · split
    · omega
    · omega
  · split
    · omega
    · omega

theorem asI32_nonneg_iff {n : ℕ} (h : n < 2 ^ 32) : 0 ≤ asI32 n ↔ n < 2 ^ 31 := by
  have heq := asI32_eq h
  split at heq
  · omega
  · omega

/-- Wherever the walk stands it reads in range, and a frame's sides are words of 16 bits. -/
theorem jpegFrom_gives : Gives (jpegFrom b left i) NonNegative := by
  induction left generalizing i with
  | zero => exact .none
  | succ left ih =>
    rw [jpegFrom]
    split
    · refine (get_spec (by omega)).bind fun first _ => ?_
      split
      · exact ih
      · dsimp only
        split
        · exact Gives.none
        · refine (get_spec (by omega)).bind fun m _ => ?_
          rw [jpegMarker]
          split
          · split
            · exact Gives.none
            · refine (get_spec (by omega)).bind fun _ _ => ?_
              refine (get_spec (by omega)).bind fun _ _ => ?_
              refine (get_spec (by omega)).bind fun _ _ => ?_
              refine (get_spec (by omega)).bind fun _ _ => ?_
              exact Gives.some ⟨Int.natCast_nonneg _, Int.natCast_nonneg _⟩
          split
          · exact Gives.none
          split
          · exact Gives.none
          refine (get_spec (by omega)).bind fun _ _ => ?_
          refine (get_spec (by omega)).bind fun _ _ => ?_
          dsimp only
          split
          · exact Gives.none
          · exact ih
    · exact .none

theorem gif_gives : Gives (gif b) NonNegative := by
  rw [gif]
  split
  · exact .none
  · refine (get_spec (by omega)).bind fun _ _ => ?_
    refine (get_spec (by omega)).bind fun _ _ => ?_
    refine (get_spec (by omega)).bind fun _ _ => ?_
    refine (get_spec (by omega)).bind fun _ _ => ?_
    exact Gives.some ⟨Int.natCast_nonneg _, Int.natCast_nonneg _⟩

theorem ico_gives (h : 8 ≤ b.length) : Gives (ico b) NonNegative := by
  refine (get_spec (by omega)).bind fun _ _ => ?_
  refine (get_spec (by omega)).bind fun _ _ => ?_
  dsimp only
  split
  · exact Gives.none
  · refine (get_spec (by omega)).bind fun w _ => ?_
    refine (get_spec (by omega)).bind fun h _ => ?_
    refine Gives.some ⟨?_, ?_⟩
    · dsimp only
      split <;> omega
    · dsimp only
      split <;> omega

theorem webp_gives : Gives (webp b) NonNegative := by
  rw [webp]
  split
  · exact .none
  refine (slice_spec (by omega) (by omega)).bind fun fourcc _ => ?_
  split
  · split
    · exact Gives.none
    · refine (get_spec (by omega)).bind fun _ _ => ?_
      refine (get_spec (by omega)).bind fun _ _ => ?_
      refine (get_spec (by omega)).bind fun _ _ => ?_
      refine (get_spec (by omega)).bind fun _ _ => ?_
      exact Gives.some ⟨Int.natCast_nonneg _, Int.natCast_nonneg _⟩
  split
  · split
    · exact Gives.none
    · refine (slice_spec (by omega) (by omega)).bind fun d hd => ?_
      refine (get_spec (by omega)).bind fun _ _ => ?_
      refine (get_spec (by omega)).bind fun _ _ => ?_
      refine (get_spec (by omega)).bind fun _ _ => ?_
      refine (get_spec (by omega)).bind fun _ _ => ?_
      refine (get_spec (by omega)).bind fun _ _ => ?_
      exact Gives.some ⟨Int.natCast_nonneg _, Int.natCast_nonneg _⟩
  split
  · split
    · exact Gives.none
    · refine (slice_spec (by omega) (by omega)).bind fun d hd => ?_
      refine (get_spec (by omega)).bind fun _ _ => ?_
      refine (get_spec (by omega)).bind fun _ _ => ?_
      refine (get_spec (by omega)).bind fun _ _ => ?_
      refine (get_spec (by omega)).bind fun _ _ => ?_
      refine (get_spec (by omega)).bind fun _ _ => ?_
      refine (get_spec (by omega)).bind fun _ _ => ?_
      exact Gives.some ⟨Int.natCast_nonneg _, Int.natCast_nonneg _⟩
  · exact Gives.none

/-- The bytes of a PNG header, of which the sides are the last two words. -/
theorem png_gives_iff : Gives (png b) NonNegative ↔
    (24 ≤ b.length → (b.drop 12).take 4 = ascii ['I', 'H', 'D', 'R'] →
      beNat ((b.drop 16).take 4) < 2 ^ 31 ∧ beNat ((b.drop 20).take 4) < 2 ^ 31) := by
  rw [png]
  by_cases hlen : b.length < 24
  · rw [if_pos hlen]
    exact iff_of_true Gives.none fun h => absurd h (by omega)
  have hword : ∀ i, i + 4 ≤ b.length → beNat ((b.drop i).take 4) < 2 ^ 32 := by
    intro i hi
    have hlt := beNat_lt ((b.drop i).take 4)
    rw [List.length_take, List.length_drop, Nat.min_eq_left (by omega)] at hlt
    exact hlt
  rw [if_neg hlen, slice, if_pos (by omega), ok_bind]
  by_cases hmark : (b.drop 12).take 4 = ascii ['I', 'H', 'D', 'R']
  · rw [if_neg (not_not.mpr hmark), slice, if_pos (by omega), ok_bind, slice, if_pos (by omega),
      ok_bind]
    refine gives_some_iff.trans ?_
    rw [NonNegative, asI32_nonneg_iff (hword 16 (by omega)), asI32_nonneg_iff (hword 20 (by omega))]
    exact ⟨fun h _ _ => h, fun h => h (by omega) hmark⟩
  · rw [if_pos hmark]
    exact iff_of_true Gives.none fun _ h => absurd h hmark

/-- The fields of a BMP header, whose least number has no absolute value. -/
def BmpFits (b : List UInt8) : Prop :=
  26 ≤ b.length → leNat ((b.drop 18).take 4) ≠ 2 ^ 31 ∧ leNat ((b.drop 22).take 4) ≠ 2 ^ 31

theorem asI32_eq_iff {n : ℕ} (h : n < 2 ^ 32) : asI32 n = -2 ^ 31 ↔ n = 2 ^ 31 := by
  have heq := asI32_eq h
  split at heq
  · omega
  · omega

theorem absI32_asI32_nonneg_iff {n : ℕ} (h : n < 2 ^ 32) :
    0 ≤ absI32 (asI32 n) ↔ n ≠ 2 ^ 31 := by
  have heq := asI32_eq h
  generalize asI32 n = x at heq
  unfold absI32
  have hbmod := Int.bmod_def |x| (2 ^ 32)
  generalize |x|.bmod (2 ^ 32) = y at hbmod ⊢
  push_cast at hbmod
  rcases abs_cases x with ⟨habs, hsign⟩ | ⟨habs, hsign⟩
  · rw [habs] at hbmod
    split at heq
    · split at hbmod <;> omega
    · split at hbmod <;> omega
  · rw [habs] at hbmod
    split at heq
    · split at hbmod <;> omega
    · split at hbmod <;> omega

theorem leWord_lt (hi : i + 4 ≤ b.length) : leNat ((b.drop i).take 4) < 2 ^ 32 := by
  have hlt := leNat_lt ((b.drop i).take 4)
  rw [List.length_take, List.length_drop, Nat.min_eq_left (by omega)] at hlt
  exact hlt

theorem bmp_gives_iff : Gives (bmp b) NonNegative ↔ BmpFits b := by
  rw [bmp, BmpFits]
  by_cases hlen : b.length < 26
  · rw [if_pos hlen]
    exact iff_of_true Gives.none fun h => absurd h (by omega)
  rw [if_neg hlen, slice, if_pos (by omega), ok_bind, slice, if_pos (by omega), ok_bind]
  refine gives_some_iff.trans ?_
  rw [NonNegative, absI32_asI32_nonneg_iff (leWord_lt (by omega)),
    absI32_asI32_nonneg_iff (leWord_lt (by omega))]
  exact ⟨fun h _ => h, fun h => h (by omega)⟩

theorem checked_bmp_gives_iff : Gives (OverflowChecked.bmp b) NonNegative ↔ BmpFits b := by
  rw [OverflowChecked.bmp, BmpFits]
  by_cases hlen : b.length < 26
  · rw [if_pos hlen]
    exact iff_of_true Gives.none fun h => absurd h (by omega)
  have hw := asI32_eq_iff (leWord_lt (b := b) (i := 18) (by omega))
  have hh := asI32_eq_iff (leWord_lt (b := b) (i := 22) (by omega))
  rw [if_neg hlen, slice, if_pos (by omega), ok_bind, slice, if_pos (by omega), ok_bind]
  dsimp only [Nat.reduceSub]
  generalize asI32 (leNat ((b.drop 18).take 4)) = w at hw ⊢
  generalize asI32 (leNat ((b.drop 22).take 4)) = h at hh ⊢
  rw [ne_eq, ne_eq, ← hw, ← hh]
  constructor
  · rintro ⟨r, hr, -⟩ -
    obtain ⟨w', hw', hr⟩ := bind_eq_ok.mp hr
    obtain ⟨h', hh', -⟩ := bind_eq_ok.mp hr
    constructor
    · rintro rfl
      cases hw'
    · rintro rfl
      cases hh'
  · intro hfits
    obtain ⟨hw, hh⟩ := hfits (by omega)
    rw [OverflowChecked.abs, if_neg hw, ok_bind, OverflowChecked.abs, if_neg hh, ok_bind]
    exact Gives.some ⟨abs_nonneg w, abs_nonneg h⟩

end Sizes

section Directories

/-- The number that an entry holds in itself; neither SHORT nor LONG has a sign. -/
def tiffField (b : List UInt8) (entry : ℕ) (le : Bool) : Option ℕ :=
  (tiffReadU16 b (entry + 2) le).bind fun typ =>
    if typ = 3 then tiffReadU16 b (entry + 8) le
    else if typ = 4 then tiffReadU32 b (entry + 8) le
    else none

/-- The width and the height that the entries tell, as numbers without a sign. -/
def tiffFields (b : List UInt8) (le : Bool) :
    ℕ → ℕ → Option ℕ → Option ℕ → Option (ℕ × ℕ)
  | 0, _, width, height => width.bind fun w => height.map fun h => (w, h)
  | left + 1, entry, width, height =>
    if b.length < entry + 12 then none
    else
      (tiffReadU16 b entry le).bind fun tag =>
        let width := if tag = 0x0100 then tiffField b entry le else width
        let height := if tag = 0x0101 then tiffField b entry le else height
        if width.isSome ∧ height.isSome then width.bind fun w => height.map fun h => (w, h)
        else tiffFields b le left (entry + 12) width height

def directoryFields (b : List UInt8) : Option (ℕ × ℕ) :=
  (parseTiffHeader b).bind fun (le, ifdOff) =>
    (tiffReadU16 b ifdOff le).bind fun count => tiffFields b le count (ifdOff + 2) none none

theorem tiffField_lt {n : ℕ} (h : tiffField b entry le = some n) : n < 2 ^ 32 := by
  obtain ⟨typ, -, h⟩ := Option.bind_eq_some_iff.mp h
  split at h
  · exact (tiffReadU16_lt h).trans (by decide)
  split at h
  · exact tiffReadU32_lt h
  · cases h

theorem tiffIfdValueI32_eq_map :
    tiffIfdValueI32 b entry le = (tiffField b entry le).map asI32 := by
  rw [tiffIfdValueI32, tiffField]
  cases tiffReadU16 b (entry + 2) le with
  | none => rfl
  | some typ =>
    rw [Option.bind_eq_bind, Option.bind_some, Option.bind_some]
    by_cases hshort : typ = 3
    · rw [if_pos hshort, if_pos hshort]
      cases hread : tiffReadU16 b (entry + 8) le with
      | none => rfl
      | some n =>
        have hlt := tiffReadU16_lt hread
        have heq := asI32_eq (n := n) (by omega)
        rw [if_pos (by omega)] at heq
        rw [Option.map_some, heq]
        rfl
    rw [if_neg hshort, if_neg hshort]
    by_cases hlong : typ = 4
    · rw [if_pos hlong, if_pos hlong]
      cases tiffReadU32 b (entry + 8) le <;> rfl
    · rw [if_neg hlong, if_neg hlong]
      rfl

variable {rawWidth rawHeight : Option ℕ}

theorem tiffEntries_eq_map :
    tiffEntries b le left entry (rawWidth.map asI32) (rawHeight.map asI32) =
      (tiffFields b le left entry rawWidth rawHeight).map (Prod.map asI32 asI32) := by
  induction left generalizing entry rawWidth rawHeight with
  | zero => cases rawWidth <;> cases rawHeight <;> rfl
  | succ left ih =>
    rw [tiffEntries, tiffFields]
    by_cases hlen : b.length < entry + 12
    · rw [if_pos hlen, if_pos hlen]
      rfl
    rw [if_neg hlen, if_neg hlen]
    cases tiffReadU16 b entry le with
    | none => rfl
    | some tag =>
      have hvalue : ∀ (p : Prop) [Decidable p] (raw : Option ℕ),
          (if p then tiffIfdValueI32 b entry le else raw.map asI32) =
            (if p then tiffField b entry le else raw).map asI32 := by
        intro p hp raw
        split
        · exact tiffIfdValueI32_eq_map
        · rfl
      rw [Option.bind_eq_bind, Option.bind_some, Option.bind_some, hvalue, hvalue]
      dsimp only
      generalize (if tag = 0x0100 then tiffField b entry le else rawWidth) = rawWidth
      generalize (if tag = 0x0101 then tiffField b entry le else rawHeight) = rawHeight
      rw [Option.isSome_map, Option.isSome_map]
      by_cases hboth : rawWidth.isSome ∧ rawHeight.isSome
      · rw [if_pos hboth, if_pos hboth]
        cases rawWidth <;> cases rawHeight <;> rfl
      · rw [if_neg hboth, if_neg hboth]
        exact ih

theorem tiffFields_lt {w h : ℕ} (hwidth : ∀ n ∈ rawWidth, n < 2 ^ 32)
    (hheight : ∀ n ∈ rawHeight, n < 2 ^ 32)
    (hfields : tiffFields b le left entry rawWidth rawHeight = some (w, h)) :
    w < 2 ^ 32 ∧ h < 2 ^ 32 := by
  have hboth : ∀ {rawWidth rawHeight : Option ℕ}, (∀ n ∈ rawWidth, n < 2 ^ 32) →
      (∀ n ∈ rawHeight, n < 2 ^ 32) →
      (rawWidth.bind fun w => rawHeight.map fun h => (w, h)) = some (w, h) →
      w < 2 ^ 32 ∧ h < 2 ^ 32 := by
    intro rawWidth rawHeight hwidth hheight hsome
    obtain ⟨w', hw', hsome⟩ := Option.bind_eq_some_iff.mp hsome
    obtain ⟨h', hh', hsome⟩ := Option.map_eq_some_iff.mp hsome
    cases hsome
    exact ⟨hwidth w hw', hheight h hh'⟩
  induction left generalizing entry rawWidth rawHeight with
  | zero => exact hboth hwidth hheight hfields
  | succ left ih =>
    rw [tiffFields] at hfields
    split at hfields
    · cases hfields
    obtain ⟨tag, -, hfields⟩ := Option.bind_eq_some_iff.mp hfields
    have hread : ∀ (p : Prop) [Decidable p] (raw : Option ℕ), (∀ n ∈ raw, n < 2 ^ 32) →
        ∀ n ∈ (if p then tiffField b entry le else raw), n < 2 ^ 32 := by
      intro p hp raw hraw n hn
      split at hn
      · exact tiffField_lt hn
      · exact hraw n hn
    have hwidth' := hread (tag = 0x0100) rawWidth hwidth
    have hheight' := hread (tag = 0x0101) rawHeight hheight
    dsimp only at hfields
    generalize (if tag = 0x0100 then tiffField b entry le else rawWidth) = rawWidth
      at hwidth' hfields
    generalize (if tag = 0x0101 then tiffField b entry le else rawHeight) = rawHeight
      at hheight' hfields
    by_cases hstop : rawWidth.isSome ∧ rawHeight.isSome
    · rw [if_pos hstop] at hfields
      exact hboth hwidth' hheight' hfields
    · rw [if_neg hstop] at hfields
      exact ih hwidth' hheight' hfields

/-- The sides of a directory's fields without a sign have none as signed words either, just when
they are below the highest bit. -/
theorem tiff_gives_iff : Gives (.ok (tiff b)) NonNegative ↔
    ∀ w h, directoryFields b = some (w, h) → w < 2 ^ 31 ∧ h < 2 ^ 31 := by
  have hmap : tiff b = (directoryFields b).map (Prod.map asI32 asI32) := by
    rw [tiff, directoryFields]
    cases parseTiffHeader b with
    | none => rfl
    | some header =>
      obtain ⟨le, ifdOff⟩ := header
      rw [Option.bind_eq_bind, Option.bind_some, Option.bind_some]
      dsimp only
      cases tiffReadU16 b ifdOff le with
      | none => rfl
      | some count =>
        have hwalk : tiffEntries b le count (ifdOff + 2) (Option.map asI32 none)
            (Option.map asI32 none) = _ := tiffEntries_eq_map
        exact hwalk
  have hlt : ∀ w h, directoryFields b = some (w, h) → w < 2 ^ 32 ∧ h < 2 ^ 32 := by
    intro w h hfields
    obtain ⟨header, -, hfields⟩ := Option.bind_eq_some_iff.mp hfields
    obtain ⟨count, -, hfields⟩ := Option.bind_eq_some_iff.mp hfields
    exact tiffFields_lt (by simp) (by simp) hfields
  rw [hmap]
  cases hfields : directoryFields b with
  | none => exact iff_of_true Gives.none nofun
  | some size =>
    obtain ⟨w, h⟩ := size
    obtain ⟨hw, hh⟩ := hlt w h hfields
    refine gives_some_iff.trans ?_
    rw [NonNegative, Prod.map_fst, Prod.map_snd, asI32_nonneg_iff hw, asI32_nonneg_iff hh]
    constructor
    · rintro hfit _ _ ⟨⟩
      exact hfit
    · intro hfit
      exact hfit w h rfl

end Directories

section Formats

/-- Each side that the header tells fits a signed word of 32 bits, with its absolute value where
that is taken. -/
structure FieldsFit (bytes : List UInt8) : Prop where
  png : [0x89, 0x50, 0x4E, 0x47, 0x0D, 0x0A, 0x1A, 0x0A] <+: bytes → 24 ≤ bytes.length →
    (bytes.drop 12).take 4 = ascii ['I', 'H', 'D', 'R'] →
    beNat ((bytes.drop 16).take 4) < 2 ^ 31 ∧ beNat ((bytes.drop 20).take 4) < 2 ^ 31
  bmp : ascii ['B', 'M'] <+: bytes → BmpFits bytes
  tiff : ascii ['I', 'I'] <+: bytes ∨ ascii ['M', 'M'] <+: bytes →
    ∀ w h, directoryFields bytes = some (w, h) → w < 2 ^ 31 ∧ h < 2 ^ 31

theorem head?_of_prefix {c : UInt8} {cs : List UInt8} (h : c :: cs <+: bytes) :
    bytes.head? = some c := by
  obtain ⟨tail, rfl⟩ := h
  rfl

/-- A size is given without a sign, whatever the build, just when the fields fit. -/
theorem dimensions_gives_iff {bmpReader : List UInt8 → Checked (Option (Int × Int))}
    (hbmp : Gives (bmpReader bytes) NonNegative ↔ BmpFits bytes) :
    Gives (if [0xFF, 0xD8] <+: bytes then jpeg bytes
      else if [0x89, 0x50, 0x4E, 0x47, 0x0D, 0x0A, 0x1A, 0x0A] <+: bytes then png bytes
      else if ascii ['G', 'I', 'F', '8', '7', 'a'] <+: bytes ∨
          ascii ['G', 'I', 'F', '8', '9', 'a'] <+: bytes then gif bytes
      else if ascii ['B', 'M'] <+: bytes then bmpReader bytes
      else if 12 ≤ bytes.length ∧ bytes.take 4 = ascii ['R', 'I', 'F', 'F'] ∧
          (bytes.drop 8).take 4 = ascii ['W', 'E', 'B', 'P'] then webp bytes
      else if ascii ['I', 'I'] <+: bytes ∨ ascii ['M', 'M'] <+: bytes then .ok (tiff bytes)
      else if 8 ≤ bytes.length ∧ [0x00, 0x00, 0x01] <+: bytes then ico bytes
      else pure none) NonNegative ↔ FieldsFit bytes := by
  have hp : [0x89, 0x50, 0x4E, 0x47, 0x0D, 0x0A, 0x1A, 0x0A] <+: bytes →
      bytes.head? = some 0x89 := head?_of_prefix
  have hb : ascii ['B', 'M'] <+: bytes → bytes.head? = some 0x42 := head?_of_prefix
  have ht : ascii ['I', 'I'] <+: bytes ∨ ascii ['M', 'M'] <+: bytes →
      bytes.head? = some 0x49 ∨ bytes.head? = some 0x4D := Or.imp head?_of_prefix head?_of_prefix
  -- Bytes that begin as no PNG, BMP or TIFF file does have no field that could fail to fit.
  have hother : ¬ [0x89, 0x50, 0x4E, 0x47, 0x0D, 0x0A, 0x1A, 0x0A] <+: bytes →
      ¬ ascii ['B', 'M'] <+: bytes → ¬ (ascii ['I', 'I'] <+: bytes ∨ ascii ['M', 'M'] <+: bytes) →
      FieldsFit bytes :=
    fun hpng hbm htiff => ⟨fun h => absurd h hpng, fun h => absurd h hbm, fun h => absurd h htiff⟩
  by_cases hjpeg : [0xFF, 0xD8] <+: bytes
  · rw [if_pos hjpeg]
    have hhead := head?_of_prefix hjpeg
    simp only [hhead, Option.some.injEq] at hp hb ht
    exact iff_of_true jpegFrom_gives (hother (fun h => absurd (hp h) (by decide))
      (fun h => absurd (hb h) (by decide)) fun h => absurd (ht h) (by decide))
  rw [if_neg hjpeg]
  by_cases hpng : [0x89, 0x50, 0x4E, 0x47, 0x0D, 0x0A, 0x1A, 0x0A] <+: bytes
  · rw [if_pos hpng, png_gives_iff]
    have hhead := hp hpng
    simp only [hhead, Option.some.injEq] at hb ht
    constructor
    · intro h
      exact ⟨fun _ => h, fun h => absurd (hb h) (by decide), fun h => absurd (ht h) (by decide)⟩
    · intro h
      exact h.png hpng
  rw [if_neg hpng]
  by_cases hgif : ascii ['G', 'I', 'F', '8', '7', 'a'] <+: bytes ∨
      ascii ['G', 'I', 'F', '8', '9', 'a'] <+: bytes
  · rw [if_pos hgif]
    have hhead : bytes.head? = some 0x47 := hgif.elim head?_of_prefix head?_of_prefix
    simp only [hhead, Option.some.injEq] at hb ht
    exact iff_of_true gif_gives (hother hpng (fun h => absurd (hb h) (by decide))
      fun h => absurd (ht h) (by decide))
  rw [if_neg hgif]
  by_cases hbm : ascii ['B', 'M'] <+: bytes
  · rw [if_pos hbm, hbmp]
    have hhead := hb hbm
    simp only [hhead, Option.some.injEq] at ht
    constructor
    · intro h
      exact ⟨fun h => absurd h hpng, fun _ => h, fun h => absurd (ht h) (by decide)⟩
    · intro h
      exact h.bmp hbm
  rw [if_neg hbm]
  by_cases hwebp : 12 ≤ bytes.length ∧ bytes.take 4 = ascii ['R', 'I', 'F', 'F'] ∧
      (bytes.drop 8).take 4 = ascii ['W', 'E', 'B', 'P']
  · rw [if_pos hwebp]
    have hriff : ascii ['R', 'I', 'F', 'F'] <+: bytes := hwebp.2.1 ▸ List.take_prefix 4 bytes
    have hhead : bytes.head? = some 0x52 := head?_of_prefix hriff
    simp only [hhead, Option.some.injEq] at ht
    exact iff_of_true webp_gives (hother hpng hbm fun h => absurd (ht h) (by decide))
  rw [if_neg hwebp]
  by_cases htiff : ascii ['I', 'I'] <+: bytes ∨ ascii ['M', 'M'] <+: bytes
  · rw [if_pos htiff, tiff_gives_iff]
    constructor
    · intro h
      exact ⟨fun h => absurd h hpng, fun h => absurd h hbm, fun _ => h⟩
    · intro h
      exact h.tiff htiff
  rw [if_neg htiff]
  refine iff_of_true ?_ (hother hpng hbm htiff)
  split
  · next h => exact ico_gives h.1
  · exact Gives.none

end Formats

/-- A byte slice, of which no memory holds 2⁶³ bytes or more. -/
structure ByteSlice where
  bytes : List UInt8
  length_lt : bytes.length < 2 ^ 63

/-- The search for coordinates never panics. Neither do the header readers, in either build, and the
sizes that they give are not negative, just when the fields fit. -/
theorem headers_total_iff (F : Type) [NatCast F] [Add F] [Div F] [Neg F] (b : ByteSlice) :
    Ok (exifGps b.bytes : Checked (Option (F × F))) ∧
      (Gives (OverflowChecked.dimensions b.bytes) NonNegative ↔ FieldsFit b.bytes) ∧
      (Gives (dimensions b.bytes) NonNegative ↔ FieldsFit b.bytes) := by
  refine ⟨(exifGps_gives b.length_lt).ok, ?_, dimensions_gives_iff bmp_gives_iff⟩
  rw [OverflowChecked.dimensions, OverflowChecked.jpeg_eq b.length_lt, OverflowChecked.tiff_eq]
  exact dimensions_gives_iff checked_bmp_gives_iff

/-- A PNG header of a width that has the highest bit. -/
theorem png_negative : ¬ ∀ bytes, Gives (dimensions bytes) NonNegative := by
  intro h
  obtain ⟨size, hsize, hnonneg⟩ := h ([0x89, 0x50, 0x4E, 0x47, 0x0D, 0x0A, 0x1A, 0x0A] ++
    [0, 0, 0, 13] ++ ascii ['I', 'H', 'D', 'R'] ++ [0x80, 0, 0, 0] ++ [0, 0, 0, 1])
  have hread : dimensions ([0x89, 0x50, 0x4E, 0x47, 0x0D, 0x0A, 0x1A, 0x0A] ++ [0, 0, 0, 13] ++
      ascii ['I', 'H', 'D', 'R'] ++ [0x80, 0, 0, 0] ++ [0, 0, 0, 1]) =
      .ok (some (-2147483648, 1)) := by
    decide +kernel
  rw [hread] at hsize
  cases hsize
  exact absurd (hnonneg _ rfl).1 (by decide)

end PlainRs.Utils
