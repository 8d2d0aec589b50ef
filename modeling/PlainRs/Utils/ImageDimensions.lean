import PlainRs.Base.Endian

/-! `utils/image_dimensions.rs`: width and height as the header fields of an image tell them. -/
namespace PlainRs.Utils

open Checked Endian

def ascii (text : List Char) : List UInt8 := text.map (·.toNat.toUInt8)

/-- `as i32` of a `u32`. -/
def asI32 (n : ℕ) : Int := (n : Int).bmod (2 ^ 32)

/-- `i32::abs`; the least number is its own. -/
def absI32 (n : Int) : Int := Int.bmod |n| (2 ^ 32)

/-- Past the run of 0xFF bytes at `i`. -/
def skipFills (b : List UInt8) (i : ℕ) : ℕ := i + ((b.drop i).takeWhile (· = 0xFF)).length

/-- A frame header's marker, and that of DAC with them. -/
def isFrameMarker (m : UInt8) : Bool := 0xC0 ≤ m ∧ m ≤ 0xCF ∧ m ≠ 0xC4 ∧ m ≠ 0xC8

/-- What the loop of `jpeg` does about the marker `m`, which ends before `i`. -/
def jpegMarker (b : List UInt8) (m : UInt8) (i : ℕ) (walk : ℕ → Checked (Option (Int × Int))) :
    Checked (Option (Int × Int)) :=
  if isFrameMarker m then
    if b.length < i + 7 then pure none
    else do
      -- Precision (1), height (2) and width (2) follow the segment length.
      let h := beNat [← get b (i + 3), ← get b (i + 4)]
      let w := beNat [← get b (i + 5), ← get b (i + 6)]
      pure (some (w, h))
  else if m = 0xDA ∨ m = 0xD9 then pure none
  else if b.length < i + 2 then pure none
  else do
    let seg := beNat [← get b i, ← get b (i + 1)]
    if seg < 2 then pure none else walk (i + (2 + (seg - 2)))

/-- The loop of `jpeg` from `i` on. It runs at most once for each byte left. -/
def jpegFrom (b : List UInt8) : ℕ → ℕ → Checked (Option (Int × Int))
  | 0, _ => pure none
  | left + 1, i =>
    if i + 1 < b.length then do
      if (← get b i) ≠ 0xFF then jpegFrom b left (i + 1)
      else
        let i := skipFills b i
        if b.length ≤ i then pure none
        else
          let m ← get b i
          jpegMarker b m (i + 1) (jpegFrom b left)
    else pure none

def jpeg (b : List UInt8) : Checked (Option (Int × Int)) := jpegFrom b b.length 2

def png (b : List UInt8) : Checked (Option (Int × Int)) :=
  if b.length < 24 then pure none
  else do
    if (← slice b 12 16) ≠ ascii ['I', 'H', 'D', 'R'] then pure none
    else
      let w := asI32 (beNat (← slice b 16 20))
      let h := asI32 (beNat (← slice b 20 24))
      pure (some (w, h))

def gif (b : List UInt8) : Checked (Option (Int × Int)) :=
  if b.length < 10 then pure none
  else do
    let w := leNat [← get b 6, ← get b 7]
    let h := leNat [← get b 8, ← get b 9]
    pure (some (w, h))

def bmp (b : List UInt8) : Checked (Option (Int × Int)) :=
  if b.length < 26 then pure none
  else do
    let w := asI32 (leNat (← slice b 18 22))
    let h := asI32 (leNat (← slice b 22 26))
    pure (some (absI32 w, absI32 h))

def webp (b : List UInt8) : Checked (Option (Int × Int)) :=
  if b.length < 16 then pure none
  else do
    let fourcc ← slice b 12 16
    if fourcc = ascii ['V', 'P', '8', ' '] then
      if b.length < 30 then pure none
      else
        let i := 16 + 10
        let w := leNat [← get b i, ← get b (i + 1)] &&& 0x3FFF
        let h := leNat [← get b (i + 2), ← get b (i + 3)] &&& 0x3FFF
        pure (some (w, h))
    else if fourcc = ascii ['V', 'P', '8', 'L'] then
      if b.length < 21 then pure none
      else
        let i := 16 + 1
        let d ← slice b i (i + 4)
        let w := 1 + (((← get d 1) &&& 0x3F).toNat <<< 8 ||| (← get d 0).toNat)
        let h := 1 + (((← get d 3) &&& 0x0F).toNat <<< 10 ||| (← get d 2).toNat <<< 2 |||
          ((← get d 1) &&& 0xC0).toNat >>> 6)
        pure (some (w, h))
    else if fourcc = ascii ['V', 'P', '8', 'X'] then
      if b.length < 30 then pure none
      else
        let i := 16 + 8
        let d ← slice b i (i + 6)
        -- The sum binds more tightly than the "or".
        let w := (← get d 0).toNat ||| (← get d 1).toNat <<< 8 ||| ((← get d 2).toNat <<< 16 + 1)
        let h := (← get d 3).toNat ||| (← get d 4).toNat <<< 8 ||| ((← get d 5).toNat <<< 16 + 1)
        pure (some (w, h))
    else pure none

/-- The first entry's width and height, where 0 stands for 256. -/
def ico (b : List UInt8) : Checked (Option (Int × Int)) := do
  let count := leNat [← get b 4, ← get b 5]
  if count = 0 then pure none
  else
    let w := (← get b 6).toNat
    let h := (← get b 7).toNat
    pure (some ((if w = 0 then 256 else w), (if h = 0 then 256 else h)))

/-- A number in the byte order of a TIFF file. -/
def ordered (le : Bool) (bytes : List UInt8) : ℕ := if le then leNat bytes else beNat bytes

def tiffReadU16 (tiff : List UInt8) (off : ℕ) (le : Bool) : Option ℕ :=
  if off + 2 ≤ tiff.length then some (ordered le ((tiff.drop off).take 2)) else none

def tiffReadU32 (tiff : List UInt8) (off : ℕ) (le : Bool) : Option ℕ :=
  if off + 4 ≤ tiff.length then some (ordered le ((tiff.drop off).take 4)) else none

/-- Byte order and first directory, behind the magic 42. -/
def parseTiffHeader (tiff : List UInt8) : Option (Bool × ℕ) :=
  if tiff.length < 8 then none
  else do
    let le ←
      if tiff.take 2 = ascii ['I', 'I'] then some true
      else if tiff.take 2 = ascii ['M', 'M'] then some false
      else none
    guard (ordered le ((tiff.drop 2).take 2) = 0x002A)
    return (le, ordered le ((tiff.drop 4).take 4))

def tiffIfdValueI32 (tiff : List UInt8) (entry : ℕ) (le : Bool) : Option Int := do
  let typ ← tiffReadU16 tiff (entry + 2) le
  if typ = 3 then return (← tiffReadU16 tiff (entry + 8) le)
  else if typ = 4 then return asI32 (← tiffReadU32 tiff (entry + 8) le)
  else none

/-- The loop of `tiff` over the entries from `entry` on. -/
def tiffEntries (b : List UInt8) (le : Bool) : ℕ → ℕ → Option Int → Option Int → Option (Int × Int)
  | 0, _, width, height => return (← width, ← height)
  | left + 1, entry, width, height =>
    if b.length < entry + 12 then none
    else do
      let tag ← tiffReadU16 b entry le
      let width := if tag = 0x0100 then tiffIfdValueI32 b entry le else width
      let height := if tag = 0x0101 then tiffIfdValueI32 b entry le else height
      if width.isSome ∧ height.isSome then return (← width, ← height)
      else tiffEntries b le left (entry + 12) width height

def tiff (b : List UInt8) : Option (Int × Int) := do
  let (le, ifdOff) ← parseTiffHeader b
  let count ← tiffReadU16 b ifdOff le
  tiffEntries b le count (ifdOff + 2) none none

def dimensions (bytes : List UInt8) : Checked (Option (Int × Int)) :=
  if [0xFF, 0xD8] <+: bytes then jpeg bytes
  else if [0x89, 0x50, 0x4E, 0x47, 0x0D, 0x0A, 0x1A, 0x0A] <+: bytes then png bytes
  else if ascii ['G', 'I', 'F', '8', '7', 'a'] <+: bytes ∨
      ascii ['G', 'I', 'F', '8', '9', 'a'] <+: bytes then gif bytes
  else if ascii ['B', 'M'] <+: bytes then bmp bytes
  else if 12 ≤ bytes.length ∧ bytes.take 4 = ascii ['R', 'I', 'F', 'F'] ∧
      (bytes.drop 8).take 4 = ascii ['W', 'E', 'B', 'P'] then webp bytes
  else if ascii ['I', 'I'] <+: bytes ∨ ascii ['M', 'M'] <+: bytes then .ok (tiff bytes)
  else if 8 ≤ bytes.length ∧ [0x00, 0x00, 0x01] <+: bytes then ico bytes
  else pure none

example : dimensions [0xFF, 0xD8, 0xFF, 0xC0, 0x00, 0x11, 0x08, 0x00, 0x20, 0x01, 0x00] =
    .ok (some (256, 32)) := by decide

end PlainRs.Utils
