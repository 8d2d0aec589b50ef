import PlainRs.Utils.ImageDimensions

/-! WebP files as their format lays them out, and the sizes that are read back from them. -/
namespace PlainRs.Utils

open Checked Endian

/-- A size whose sides lie between bounds. -/
structure Extent (lo hi : ℕ) where
  width : ℕ
  height : ℕ
  width_mem : lo ≤ width ∧ width ≤ hi
  height_mem : lo ≤ height ∧ height ≤ hi

/-- The first chunk of a WebP file, with the bits beside those of its size. -/
inductive WebpChunk
  | vp8 (frameTag : Fin (2 ^ 24)) (extent : Extent 0 (2 ^ 14 - 1)) (xScale yScale : Fin 4)
  | vp8l (extent : Extent 1 (2 ^ 14)) (alpha : Fin 2) (version : Fin 8)
  | vp8x (flags : UInt8) (reserved : Fin (2 ^ 24)) (extent : Extent 1 (2 ^ 24))

namespace WebpChunk

def fourcc : WebpChunk → List UInt8
  | vp8 .. => ascii ['V', 'P', '8', ' ']
  | vp8l .. => ascii ['V', 'P', '8', 'L']
  | vp8x .. => ascii ['V', 'P', '8', 'X']

def width : WebpChunk → ℕ
  | vp8 _ extent _ _ => extent.width
  | vp8l extent _ _ => extent.width
  | vp8x _ _ extent => extent.width

def height : WebpChunk → ℕ
  | vp8 _ extent _ _ => extent.height
  | vp8l extent _ _ => extent.height
  | vp8x _ _ extent => extent.height

/-- The payload up to the size: a lossy frame keeps the sides above a start code, the other two keep
them less one. -/
def payload : WebpChunk → List UInt8
  | vp8 frameTag extent xScale yScale =>
    leBytes 3 frameTag ++ [0x9D, 0x01, 0x2A] ++ leBytes 2 (extent.width + 2 ^ 14 * xScale) ++
      leBytes 2 (extent.height + 2 ^ 14 * yScale)
  | vp8l extent alpha version =>
    0x2F :: leBytes 4
      (extent.width - 1 + 2 ^ 14 * (extent.height - 1) + 2 ^ 28 * alpha + 2 ^ 29 * version)
  | vp8x flags reserved extent =>
    flags :: leBytes 3 reserved ++ leBytes 3 (extent.width - 1) ++ leBytes 3 (extent.height - 1)

end WebpChunk

/-- A file with its first chunk, the sizes it gives for itself and for that chunk, and whatever
follows. -/
structure WebpFile where
  riffSize : Fin (2 ^ 32)
  chunkSize : Fin (2 ^ 32)
  chunk : WebpChunk
  rest : List UInt8

def WebpFile.bytes (f : WebpFile) : List UInt8 :=
  ascii ['R', 'I', 'F', 'F'] ++ leBytes 4 f.riffSize ++ ascii ['W', 'E', 'B', 'P'] ++
    f.chunk.fourcc ++ leBytes 4 f.chunkSize ++ f.chunk.payload ++ f.rest

/-- A lossy frame always fits. A lossless one fits if its sides are what the chunk's own size gives
four bytes before them, an extended file if its sides are odd. -/
def WebpFile.Fits (f : WebpFile) : Prop :=
  match f.chunk with
  | .vp8 .. => True
  | .vp8l extent _ _ =>
    extent.width = f.chunkSize / 2 ^ 8 % 2 ^ 14 + 1 ∧ extent.height = 15361 + f.chunkSize / 2 ^ 22
  | .vp8x _ _ extent => extent.width % 2 = 1 ∧ extent.height % 2 = 1

variable {f : WebpFile} {n k : ℕ} {b : List UInt8}

theorem webp_vp8 {x₀ x₁ y₀ y₁ : UInt8} (hfour : (b.drop 12).take 4 = ascii ['V', 'P', '8', ' '])
    (hread : (b.drop 26).take 4 = [x₀, x₁, y₀, y₁]) :
    webp b = .ok (some ((leNat [x₀, x₁] &&& 0x3FFF : ℕ), (leNat [y₀, y₁] &&& 0x3FFF : ℕ))) := by
  have hlen := le_length_of_take hread rfl (by omega)
  rw [webp, if_neg (by omega), slice_of_take (n := 4) hfour rfl (by omega)]
  simp only [ok_bind, if_neg (show ¬ b.length < 30 by omega), if_true, Nat.reduceAdd,
    get_of_take (k := 0) hread rfl, get_of_take (k := 1) hread rfl,
    get_of_take (k := 2) hread rfl, get_of_take (k := 3) hread rfl]
  rfl

theorem webp_vp8l {s₁ s₂ s₃ s₄ : UInt8} (hfour : (b.drop 12).take 4 = ascii ['V', 'P', '8', 'L'])
    (hread : (b.drop 17).take 4 = [s₁, s₂, s₃, s₄]) :
    webp b = .ok (some ((1 + ((s₂ &&& 0x3F).toNat <<< 8 ||| s₁.toNat) : ℕ),
      (1 + ((s₄ &&& 0x0F).toNat <<< 10 ||| s₃.toNat <<< 2 |||
        (s₂ &&& 0xC0).toNat >>> 6) : ℕ))) := by
  have hlen := le_length_of_take hread rfl (by omega)
  rw [webp, if_neg (by omega), slice_of_take (n := 4) hfour rfl (by omega)]
  simp only [ok_bind, if_neg (show ¬ b.length < 21 by omega), Nat.reduceAdd,
    slice_of_take (n := 4) hread rfl (by omega)]
  rfl

theorem webp_vp8x {x₀ x₁ x₂ y₀ y₁ y₂ : UInt8}
    (hfour : (b.drop 12).take 4 = ascii ['V', 'P', '8', 'X'])
    (hread : (b.drop 24).take 6 = [x₀, x₁, x₂, y₀, y₁, y₂]) :
    webp b = .ok (some ((x₀.toNat ||| x₁.toNat <<< 8 ||| (x₂.toNat <<< 16 + 1) : ℕ),
      (y₀.toNat ||| y₁.toNat <<< 8 ||| (y₂.toNat <<< 16 + 1) : ℕ))) := by
  have hlen := le_length_of_take hread rfl (by omega)
  rw [webp, if_neg (by omega), slice_of_take (n := 4) hfour rfl (by omega)]
  simp only [ok_bind, if_neg (show ¬ b.length < 30 by omega), Nat.reduceAdd,
    slice_of_take (n := 6) hread rfl (by omega)]
  rfl

theorem toNat_ofNat_byte (n : ℕ) : (UInt8.ofNat n).toNat = n % 256 := UInt8.toNat_ofNat'

/-- The side of a lossy frame, without its scale. -/
theorem lossySide_eq (hn : n < 2 ^ 14) (hk : k < 4) :
    leNat [UInt8.ofNat (n + 2 ^ 14 * k), UInt8.ofNat ((n + 2 ^ 14 * k) / 256)] &&& 0x3FFF = n := by
  show leNat (leBytes 2 (n + 2 ^ 14 * k)) &&& (2 ^ 14 - 1) = n
  rw [leNat_leBytes (by omega), Nat.and_two_pow_sub_one_eq_mod]
  omega

/-- Added before the "or", the one is lost on an odd side less one. -/
theorem extendedSide_eq (hn : n < 2 ^ 24) :
    (UInt8.ofNat n).toNat ||| (UInt8.ofNat (n / 256)).toNat <<< 8 |||
      ((UInt8.ofNat (n / 256 / 256)).toNat <<< 16 + 1) = 2 * (n / 2) + 1 := by
  simp only [toNat_ofNat_byte]
  have hlow : n % 256 ||| (n / 256 % 256) <<< 8 = n % 2 ^ 16 := by
    rw [or_shiftLeft (by omega)]
    omega
  have htop : (n / 256 / 256 % 256) <<< 16 + 1 = 1 ||| (n / 256 / 256 % 256) <<< 16 := by
    rw [or_shiftLeft (by omega), Nat.shiftLeft_eq, Nat.add_comm]
  rw [hlow, htop, ← Nat.or_assoc, or_one_eq, or_shiftLeft (by omega)]
  omega

/-- What a lossless file's width is read from are two bytes of the chunk's size. -/
theorem losslessWidth_eq (a b : UInt8) :
    1 + ((b &&& 0x3F).toNat <<< 8 ||| a.toNat) = leNat [a, b] % 2 ^ 14 + 1 := by
  have ha := a.toNat_lt
  have hmask : (b &&& 0x3F).toNat = b.toNat % 2 ^ 6 := by
    rw [UInt8.toNat_and]
    exact Nat.and_two_pow_sub_one_eq_mod b.toNat 6
  rw [Nat.or_comm, or_shiftLeft (by omega), hmask, leNat, leNat, leNat]
  omega

/-- What its height is read from are the same two bytes' highest bits and the signature. -/
theorem losslessHeight_eq (b c : UInt8) :
    1 + (((0x2F : UInt8) &&& 0x0F).toNat <<< 10 ||| c.toNat <<< 2 ||| (b &&& 0xC0).toNat >>> 6) =
      15361 + leNat [b, c] / 2 ^ 6 := by
  have hb := b.toNat_lt
  have hc := c.toNat_lt
  have hsign : ((0x2F : UInt8) &&& 0x0F).toNat = 15 := rfl
  have hmask : (b &&& 0xC0).toNat >>> 6 = b.toNat / 2 ^ 6 := by
    rw [UInt8.toNat_and, Nat.shiftRight_and_distrib, Nat.shiftRight_eq_div_pow]
    exact (Nat.and_two_pow_sub_one_eq_mod _ 2).trans (Nat.mod_eq_of_lt (by omega))
  rw [hsign, hmask, Nat.or_assoc, Nat.or_comm (c.toNat <<< 2), or_shiftLeft (by omega), Nat.or_comm,
    or_shiftLeft (by omega), leNat, leNat, leNat]
  omega

theorem dimensions_bytes (f : WebpFile) : dimensions f.bytes = webp f.bytes := by
  simp [dimensions, WebpFile.bytes, ascii, leBytes]

theorem drop_bytes (f : WebpFile) :
    f.bytes.drop 12 = f.chunk.fourcc ++ (leBytes 4 f.chunkSize ++ (f.chunk.payload ++ f.rest)) := by
  simp [WebpFile.bytes, ascii, leBytes]

theorem fourcc_bytes (f : WebpFile) : (f.bytes.drop 12).take 4 = f.chunk.fourcc := by
  rw [drop_bytes]
  cases f.chunk <;> rfl

theorem drop_payload (f : WebpFile) (i : ℕ) :
    f.bytes.drop (20 + i) = (f.chunk.payload ++ f.rest).drop i := by
  rw [show 20 + i = 12 + (8 + i) by omega, ← List.drop_drop, drop_bytes, ← List.drop_drop]
  cases f.chunk <;> rfl

/-- A lossy file's size comes back as it is. -/
theorem dimensions_vp8 {frameTag : Fin (2 ^ 24)} {extent : Extent 0 (2 ^ 14 - 1)}
    {xScale yScale : Fin 4} (h : f.chunk = .vp8 frameTag extent xScale yScale) :
    dimensions f.bytes = .ok (some (extent.width, extent.height)) := by
  have hw := extent.width_mem.2
  have hh := extent.height_mem.2
  have hfour := fourcc_bytes f
  have hread := congrArg (List.take 4) (drop_payload f 6)
  rw [h] at hfour hread
  rw [dimensions_bytes, webp_vp8 hfour hread, lossySide_eq (by omega) xScale.isLt,
    lossySide_eq (by omega) yScale.isLt]

/-- What is read in a lossless file is what its chunk's size leaves in front of the signature. -/
theorem dimensions_vp8l {extent : Extent 1 (2 ^ 14)} {alpha : Fin 2} {version : Fin 8}
    (h : f.chunk = .vp8l extent alpha version) : dimensions f.bytes =
      .ok (some ((f.chunkSize / 2 ^ 8 % 2 ^ 14 + 1 : ℕ), (15361 + f.chunkSize / 2 ^ 22 : ℕ))) := by
  have hsize := f.chunkSize.isLt
  have hfour := fourcc_bytes f
  have hread := congrArg (List.drop 5) (drop_bytes f)
  rw [h] at hfour hread
  rw [List.drop_drop] at hread
  rw [dimensions_bytes, webp_vp8l hfour (congrArg (List.take 4) hread), losslessWidth_eq,
    losslessHeight_eq]
  simp only [leNat, toNat_ofNat_byte, Except.ok.injEq, Option.some.injEq, Prod.mk.injEq,
    Nat.cast_inj]
  constructor <;> omega

/-- An extended file's sides are read one too small where they are even. -/
theorem dimensions_vp8x {flags : UInt8} {reserved : Fin (2 ^ 24)} {extent : Extent 1 (2 ^ 24)}
    (h : f.chunk = .vp8x flags reserved extent) : dimensions f.bytes =
      .ok (some ((2 * ((extent.width - 1) / 2) + 1 : ℕ),
        (2 * ((extent.height - 1) / 2) + 1 : ℕ))) := by
  have hw := extent.width_mem
  have hh := extent.height_mem
  have hfour := fourcc_bytes f
  have hread := congrArg (List.take 6) (drop_payload f 4)
  rw [h] at hfour hread
  rw [dimensions_bytes, webp_vp8x hfour hread, extendedSide_eq (by omega),
    extendedSide_eq (by omega)]

/-- The size a file's first chunk tells is found just when the file fits. -/
theorem webp_dimensions_iff (f : WebpFile) :
    dimensions f.bytes = .ok (some (f.chunk.width, f.chunk.height)) ↔ f.Fits := by
  cases h : f.chunk with
  | vp8 frameTag extent xScale yScale =>
    simp [dimensions_vp8 h, WebpFile.Fits, h, WebpChunk.width, WebpChunk.height]
  | vp8l extent alpha version =>
    have hw := extent.width_mem
    rw [dimensions_vp8l h, WebpFile.Fits, h]
    simp only [Except.ok.injEq, Option.some.injEq, Prod.mk.injEq, WebpChunk.width,
      WebpChunk.height, Nat.cast_inj]
    omega
  | vp8x flags reserved extent =>
    have hw := extent.width_mem
    have hh := extent.height_mem
    rw [dimensions_vp8x h, WebpFile.Fits, h]
    simp only [Except.ok.injEq, Option.some.injEq, Prod.mk.injEq, WebpChunk.width,
      WebpChunk.height, Nat.cast_inj]
    omega

/-- An extended file of two pixels by one is taken for one pixel. -/
theorem webp_even_side : ¬ ∀ f : WebpFile,
    dimensions f.bytes = .ok (some (f.chunk.width, f.chunk.height)) := by
  intro h
  have h := h ⟨22, 10, .vp8x 0 0 ⟨2, 1, by decide, by decide⟩, []⟩
  rw [dimensions_vp8x rfl] at h
  exact absurd h (by decide)

end PlainRs.Utils
