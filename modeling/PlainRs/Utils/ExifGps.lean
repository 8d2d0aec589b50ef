import PlainRs.Base.Utf8
import PlainRs.Utils.ImageDimensions

/-! `exif_gps`, with each sum of positions checked for overflow. -/
namespace PlainRs.Utils

open Checked Endian

structure TiffRational where
  n : ℕ
  d : ℕ

/-- `TiffRational::to_f64`, over any type with the operations used of `f64`. -/
def TiffRational.toF64 {F : Type} [NatCast F] [Div F] (r : TiffRational) : F :=
  if r.d = 0 then ((0 : ℕ) : F) else (r.n : F) / (r.d : F)

/-- `tiff_read_u16` with its sum. -/
def readU16 (tiff : List UInt8) (off : ℕ) (le : Bool) : Checked (Option ℕ) := do
  fits (off + 2)
  pure (tiffReadU16 tiff off le)

/-- `tiff_read_u32` with its sum. -/
def readU32 (tiff : List UInt8) (off : ℕ) (le : Bool) : Checked (Option ℕ) := do
  fits (off + 4)
  pure (tiffReadU32 tiff off le)

/-- Entry `i` of a directory whose entries begin at `base`, if the file has it all. -/
def entryAt (tiff : List UInt8) (base i : ℕ) : Checked (Option ℕ) := do
  fits (i * 12)
  fits (base + i * 12)
  fits (base + i * 12 + 12)
  pure (if tiff.length < base + i * 12 + 12 then none else some (base + i * 12))

/-- The loop of `tiff_find_sub_ifd` from the entry `i` on. -/
def subIfdFrom (tiff : List UInt8) (le : Bool) (subTag base : ℕ) : ℕ → ℕ → Checked (Option ℕ)
  | 0, _ => pure none
  | left + 1, i =>
    orNone (entryAt tiff base i) fun entry =>
      orNone (readU16 tiff entry le) fun tag =>
        if tag = subTag then do
          fits (entry + 8)
          readU32 tiff (entry + 8) le
        else subIfdFrom tiff le subTag base left (i + 1)

def tiffFindSubIfd (tiff : List UInt8) (ifdOff : ℕ) (le : Bool) (subTag : ℕ) :
    Checked (Option ℕ) :=
  orNone (readU16 tiff ifdOff le) fun count => do
    fits (ifdOff + 2)
    subIfdFrom tiff le subTag (ifdOff + 2) count 0

/-- The loop of `tiff_read_rationals` from the number `i` on. -/
def rationalsFrom (tiff : List UInt8) (off : ℕ) (le : Bool) :
    ℕ → ℕ → List TiffRational → Checked (Option (List TiffRational))
  | 0, _, out => pure (some out)
  | left + 1, i, out => do
    fits (i * 8)
    fits (off + i * 8)
    let p := off + i * 8
    fits (p + 8)
    if tiff.length < p + 8 then pure none
    else
      orNone (readU32 tiff p le) fun n => do
        fits (p + 4)
        orNone (readU32 tiff (p + 4) le) fun d =>
          rationalsFrom tiff off le left (i + 1) (out ++ [⟨n, d⟩])

def tiffReadRationals (tiff : List UInt8) (off : ℕ) (le : Bool) (count : ℕ) :
    Checked (Option (List TiffRational)) :=
  rationalsFrom tiff off le count 0 []

/-- The bytes of a reference: inline, or where the value points to. -/
def refBytes (tiff : List UInt8) (entry : ℕ) (le : Bool) : Checked (Option (List UInt8)) := do
  fits (entry + 4)
  orNone (readU32 tiff (entry + 4) le) fun countBytes =>
    if countBytes ≤ 4 then do
      fits (entry + 8 + countBytes)
      let buf ← slice tiff (entry + 8) (entry + 8 + countBytes)
      pure (some buf)
    else do
      fits (entry + 8)
      orNone (readU32 tiff (entry + 8) le) fun off => do
        fits (off + countBytes)
        pure (if off + countBytes ≤ tiff.length then some ((tiff.drop off).take countBytes)
          else none)

/-- What the loop of `tiff_find_dms_and_ref` has found so far. -/
structure DmsAndRef where
  dms : Option (List TiffRational) := none
  refMarker : Option (List Char) := none

/-- What the loop does about one entry. -/
def dmsEntry (tiff : List UInt8) (le : Bool) (dmsTag refTag entry : ℕ) (found : DmsAndRef) :
    Checked (Option DmsAndRef) :=
  orNone (readU16 tiff entry le) fun tag => do
    fits (entry + 2)
    orNone (readU16 tiff (entry + 2) le) fun typ =>
      if tag = dmsTag ∧ typ = 5 then do
        fits (entry + 8)
        orNone (readU32 tiff (entry + 8) le) fun off =>
          orNone (tiffReadRationals tiff off le 3) fun dms =>
            pure (some { found with dms := some dms })
      else if tag = refTag ∧ typ = 2 then
        orNone (refBytes tiff entry le) fun buf =>
          pure (some { found with
            refMarker := some ((Text.lossyChars buf).rdropWhile (· = Char.ofNat 0)) })
      else pure (some found)

/-- The loop of `tiff_find_dms_and_ref` from the entry `i` on. -/
def dmsFrom (tiff : List UInt8) (le : Bool) (dmsTag refTag base : ℕ) :
    ℕ → ℕ → DmsAndRef → Checked (Option (List TiffRational × List Char))
  | 0, _, found => pure (found.dms.map fun dms => (dms, found.refMarker.getD []))
  | left + 1, i, found =>
    orNone (entryAt tiff base i) fun entry =>
      orNone (dmsEntry tiff le dmsTag refTag entry found) fun found =>
        if found.dms.isSome ∧ found.refMarker.isSome then
          pure (found.dms.map fun dms => (dms, found.refMarker.getD []))
        else dmsFrom tiff le dmsTag refTag base left (i + 1) found

def tiffFindDmsAndRef (tiff : List UInt8) (ifdOff : ℕ) (le : Bool) (dmsTag refTag : ℕ) :
    Checked (Option (List TiffRational × List Char)) :=
  orNone (readU16 tiff ifdOff le) fun count => do
    fits (ifdOff + 2)
    dmsFrom tiff le dmsTag refTag (ifdOff + 2) count 0 {}

section Reals

variable {F : Type} [NatCast F] [Add F] [Div F] [Neg F]

def tiffReadDms (tiff : List UInt8) (ifdOff : ℕ) (le : Bool) (dmsTag refTag : ℕ) :
    Checked (Option F) :=
  orNone (tiffFindDmsAndRef tiff ifdOff le dmsTag refTag) fun (dms, refMarker) =>
    match dms with
    | d :: m :: s :: _ =>
      let decimal : F := d.toF64 + m.toF64 / ((60 : ℕ) : F) + s.toF64 / ((3600 : ℕ) : F)
      pure (some (if 'S' ∈ refMarker ∨ 'W' ∈ refMarker then -decimal else decimal))
    | _ => pure none

end Reals

/-- Past 0xFF padding: where the marker stands behind, and the marker. -/
def skipPadding (jpeg : List UInt8) (i : ℕ) (marker : UInt8) :
    Checked ({j : ℕ // i ≤ j} × UInt8) := do
  fits (i + 2)
  if marker = 0xFF ∧ i + 2 < jpeg.length then do
    let (j, marker) ← skipPadding jpeg (i + 1) (← get jpeg (i + 1 + 1))
    pure (⟨j.val, Nat.le_of_succ_le j.property⟩, marker)
  else pure (⟨i, Nat.le_refl i⟩, marker)
termination_by jpeg.length - i

/-- The loop of `exif_tiff_from_jpeg` from `i` on. -/
def exifFrom (jpeg : List UInt8) (i : ℕ) : Checked (Option (List UInt8)) := do
  fits (i + 4)
  if i + 4 ≤ jpeg.length then
    if (← get jpeg i) ≠ 0xFF then pure none
    else
      let (j, marker) ← skipPadding jpeg i (← get jpeg (i + 1))
      fits (j + 2)
      let k := j.val + 2
      if marker = 0xD9 ∨ marker = 0xDA then pure none
      else
        fits (k + 2)
        if jpeg.length < k + 2 then pure none
        else
          let segLen := beNat [← get jpeg k, ← get jpeg (k + 1)]
          fits (k + segLen)
          if segLen < 2 ∨ jpeg.length < k + segLen then pure none
          else
            let payload ← slice jpeg (k + 2) (k + segLen)
            if marker = 0xE1 ∧ ascii ['E', 'x', 'i', 'f'] ++ [0, 0] <+: payload then do
              let tiff ← slice payload 6 payload.length
              pure (some tiff)
            else exifFrom jpeg (k + segLen)
  else pure none
termination_by jpeg.length - i
decreasing_by
  have := j.property
  omega

def exifTiffFromJpeg (jpeg : List UInt8) : Checked (Option (List UInt8)) :=
  if jpeg.length < 4 ∨ ¬ [0xFF, 0xD8] <+: jpeg then pure none else exifFrom jpeg 2

def exifGps {F : Type} [NatCast F] [Add F] [Div F] [Neg F] (bytes : List UInt8) :
    Checked (Option (F × F)) :=
  orNone (if [0xFF, 0xD8] <+: bytes then exifTiffFromJpeg bytes else pure (some bytes)) fun tiff =>
    orNone (pure (parseTiffHeader tiff)) fun (le, ifd0Off) =>
      orNone (tiffFindSubIfd tiff ifd0Off le 0x8825) fun gpsOff =>
        orNone (tiffReadDms tiff gpsOff le 0x0002 0x0001) fun (lat : F) =>
          orNone (tiffReadDms tiff gpsOff le 0x0004 0x0003) fun (lon : F) =>
            pure (some (lat, lon))

variable {tiff jpeg bytes : List UInt8} {off base left i entry ifdOff dmsTag refTag subTag : ℕ}
  {le : Bool} {out : List TiffRational} {found : DmsAndRef} {marker : UInt8}

section Directories

theorem ordered_lt (le : Bool) (bytes : List UInt8) : ordered le bytes < 256 ^ bytes.length := by
  rw [ordered]
  split
  · exact leNat_lt bytes
  · exact beNat_lt bytes

theorem tiffReadU16_lt {n : ℕ} (h : tiffReadU16 tiff off le = some n) : n < 2 ^ 16 := by
  rw [tiffReadU16] at h
  split at h
  · next hlen =>
    cases h
    have hlt := ordered_lt le ((tiff.drop off).take 2)
    rw [List.length_take, List.length_drop, Nat.min_eq_left (by omega)] at hlt
    exact hlt
  · cases h

theorem tiffReadU32_lt {n : ℕ} (h : tiffReadU32 tiff off le = some n) : n < 2 ^ 32 := by
  rw [tiffReadU32] at h
  split at h
  · next hlen =>
    cases h
    have hlt := ordered_lt le ((tiff.drop off).take 4)
    rw [List.length_take, List.length_drop, Nat.min_eq_left (by omega)] at hlt
    exact hlt
  · cases h

theorem parseTiffHeader_lt {header : Bool × ℕ} (h : parseTiffHeader tiff = some header) :
    header.2 < 2 ^ 32 := by
  have hlt : 8 ≤ tiff.length → ∀ le, ordered le ((tiff.drop 4).take 4) < 2 ^ 32 := by
    intro hlen le
    have hlt := ordered_lt le ((tiff.drop 4).take 4)
    rw [List.length_take, List.length_drop, Nat.min_eq_left (by omega)] at hlt
    exact hlt
  rw [parseTiffHeader] at h
  split at h
  · cases h
  · next hlen =>
    have hread : ∀ le, (guard (ordered le ((tiff.drop 2).take 2) = 0x002A) >>= fun _ =>
        some (le, ordered le ((tiff.drop 4).take 4))) = some header → header.2 < 2 ^ 32 := by
      intro le hread
      obtain ⟨-, -, hread⟩ := Option.bind_eq_some_iff.mp hread
      cases hread
      exact hlt (by omega) le
    dsimp only at h
    split at h
    · exact hread true h
    · split at h
      · exact hread false h
      · cases h

theorem readU16_gives (h : off + 2 < 2 ^ 64) : Gives (readU16 tiff off le) (· < 2 ^ 16) := by
  rw [readU16, fits_bind h]
  exact .pure fun n hn => tiffReadU16_lt hn

theorem readU32_gives (h : off + 4 < 2 ^ 64) : Gives (readU32 tiff off le) (· < 2 ^ 32) := by
  rw [readU32, fits_bind h]
  exact .pure fun n hn => tiffReadU32_lt hn

theorem entryAt_gives (h : base + i * 12 + 12 < 2 ^ 64) :
    Gives (entryAt tiff base i) fun entry => entry = base + i * 12 ∧ entry + 12 ≤ tiff.length := by
  rw [entryAt, fits_bind (by omega), fits_bind (by omega), fits_bind h]
  refine .pure fun entry hentry => ?_
  split at hentry
  · cases hentry
  · cases hentry
    omega

theorem subIfdFrom_gives (hbase : base < 2 ^ 33) (hi : i + left ≤ 2 ^ 16) :
    Gives (subIfdFrom tiff le subTag base left i) (· < 2 ^ 32) := by
  induction left generalizing i with
  | zero => exact .none
  | succ left ih =>
    rw [subIfdFrom]
    refine (entryAt_gives (by omega)).orNone fun entry hentry => ?_
    refine (readU16_gives (by omega)).orNone fun tag _ => ?_
    split
    · rw [fits_bind (by omega)]
      exact readU32_gives (by omega)
    · exact ih (by omega)

theorem tiffFindSubIfd_gives (h : ifdOff < 2 ^ 32) :
    Gives (tiffFindSubIfd tiff ifdOff le subTag) (· < 2 ^ 32) := by
  refine (readU16_gives (by omega)).orNone fun count hcount => ?_
  rw [fits_bind (by omega)]
  exact subIfdFrom_gives (by omega) (by omega)

theorem rationalsFrom_gives (hoff : off < 2 ^ 32) (hi : i + left ≤ 3) :
    Gives (rationalsFrom tiff off le left i out) fun _ => True := by
  induction left generalizing i out with
  | zero => exact .some trivial
  | succ left ih =>
    rw [rationalsFrom, fits_bind (by omega), fits_bind (by omega)]
    dsimp only
    rw [fits_bind (by omega)]
    split
    · exact .none
    · refine (readU32_gives (by omega)).orNone fun n _ => ?_
      rw [fits_bind (by omega)]
      refine (readU32_gives (by omega)).orNone fun d _ => ?_
      exact ih (by omega)

theorem refBytes_gives (hentry : entry + 12 ≤ tiff.length) (hlt : entry < 2 ^ 34) :
    Gives (refBytes tiff entry le) fun _ => True := by
  rw [refBytes, fits_bind (by omega)]
  refine (readU32_gives (by omega)).orNone fun countBytes hcount => ?_
  split
  · rw [fits_bind (by omega)]
    refine (slice_spec (by omega) (by omega)).bind fun buf _ => ?_
    exact Gives.some trivial
  · rw [fits_bind (by omega)]
    refine (readU32_gives (by omega)).orNone fun off hoff => ?_
    rw [fits_bind (by omega)]
    exact .pure fun _ _ => trivial

theorem dmsEntry_gives (hentry : entry + 12 ≤ tiff.length) (hlt : entry < 2 ^ 34) :
    Gives (dmsEntry tiff le dmsTag refTag entry found) fun _ => True := by
  refine (readU16_gives (by omega)).orNone fun tag _ => ?_
  rw [fits_bind (by omega)]
  refine (readU16_gives (by omega)).orNone fun typ _ => ?_
  split
  · rw [fits_bind (by omega)]
    refine (readU32_gives (by omega)).orNone fun off hoff => ?_
    refine (rationalsFrom_gives hoff (by omega)).orNone fun dms _ => ?_
    exact .some trivial
  · split
    · refine (refBytes_gives hentry hlt).orNone fun buf _ => ?_
      exact .some trivial
    · exact .some trivial

theorem dmsFrom_gives (hbase : base < 2 ^ 33) (hi : i + left ≤ 2 ^ 16) :
    Gives (dmsFrom tiff le dmsTag refTag base left i found) fun _ => True := by
  induction left generalizing i found with
  | zero => exact .pure fun _ _ => trivial
  | succ left ih =>
    rw [dmsFrom]
    refine (entryAt_gives (by omega)).orNone fun entry hentry => ?_
    refine (dmsEntry_gives hentry.2 (by omega)).orNone fun found _ => ?_
    split
    · exact .pure fun _ _ => trivial
    · exact ih (by omega)

theorem tiffReadDms_gives {F : Type} [NatCast F] [Add F] [Div F] [Neg F] (h : ifdOff < 2 ^ 32) :
    Gives (tiffReadDms tiff ifdOff le dmsTag refTag : Checked (Option F)) fun _ => True := by
  have hfind : Gives (tiffFindDmsAndRef tiff ifdOff le dmsTag refTag) fun _ => True := by
    refine (readU16_gives (by omega)).orNone fun count hcount => ?_
    rw [fits_bind (by omega)]
    exact dmsFrom_gives (by omega) (by omega)
  refine hfind.orNone fun found _ => ?_
  obtain ⟨dms, refMarker⟩ := found
  dsimp only
  split
  · exact Gives.some trivial
  · exact Gives.none

end Directories

section Segments

theorem skipPadding_spec (hi : i + 2 ≤ jpeg.length) (hlen : jpeg.length < 2 ^ 63) :
    Spec (skipPadding jpeg i marker) fun found => found.1.val + 2 ≤ jpeg.length := by
  induction i, marker using skipPadding.induct jpeg with
  | case1 i marker ih =>
    rw [skipPadding, fits_bind (by omega)]
    split
    · next h =>
      refine (get_spec (by omega)).bind fun next _ => ?_
      refine (ih h next (by omega)).bind fun found hfound => ?_
      exact .pure hfound
    · exact .pure hi

/-- From any place the loop ends without a panic. -/
theorem exifFrom_gives (hi : i ≤ jpeg.length) (hlen : jpeg.length < 2 ^ 63) :
    Gives (exifFrom jpeg i) fun _ => True := by
  induction hn : jpeg.length - i using Nat.strong_induction_on generalizing i with
  | _ n ih =>
    subst hn
    rw [exifFrom, fits_bind (by omega)]
    split
    · refine (get_spec (by omega)).bind fun first _ => ?_
      split
      · exact Gives.none
      · refine (get_spec (by omega)).bind fun next _ => ?_
        refine (skipPadding_spec (by omega) hlen).bind fun found hfound => ?_
        obtain ⟨⟨j, hj⟩, marker⟩ := found
        dsimp only at hfound ⊢
        rw [fits_bind (by omega)]
        split
        · exact Gives.none
        rw [fits_bind (by omega)]
        split
        · exact Gives.none
        refine (get_spec (by omega)).bind fun hi _ => ?_
        refine (get_spec (by omega)).bind fun lo _ => ?_
        have hseg : beNat [hi, lo] < 256 ^ 2 := beNat_lt [hi, lo]
        rw [fits_bind (by omega)]
        split
        · exact Gives.none
        · refine (slice_spec (by omega) (by omega)).bind fun payload _ => ?_
          split
          · next hmark =>
            refine (slice_spec hmark.2.length_le (Nat.le_refl _)).bind fun tiff _ => ?_
            exact Gives.some trivial
          · exact ih _ (by omega) (by omega) rfl
    · exact .none

/-- The search for coordinates ends without a panic, whatever the bytes are. -/
theorem exifGps_gives {F : Type} [NatCast F] [Add F] [Div F] [Neg F]
    (hlen : bytes.length < 2 ^ 63) :
    Gives (exifGps bytes : Checked (Option (F × F))) fun _ => True := by
  have htiff : Gives (if [0xFF, 0xD8] <+: bytes then exifTiffFromJpeg bytes
      else pure (some bytes)) fun _ => True := by
    split
    · rw [exifTiffFromJpeg]
      split
      · exact .none
      · exact exifFrom_gives (by omega) hlen
    · exact .some trivial
  refine htiff.orNone fun tiff _ => ?_
  have hheader : Gives (pure (parseTiffHeader tiff)) fun header => header.2 < 2 ^ 32 :=
    .pure fun header h => parseTiffHeader_lt h
  refine hheader.orNone fun header hoff => ?_
  refine (tiffFindSubIfd_gives hoff).orNone fun gpsOff hgps => ?_
  refine (tiffReadDms_gives hgps).orNone fun lat _ => ?_
  refine (tiffReadDms_gives hgps).orNone fun lon _ => ?_
  exact .some trivial

end Segments

end PlainRs.Utils
