import PlainRs.Base.Lists
import PlainRs.Base.Text

/-! `utils/base64.rs`: the padded RFC 4648 encoder and the lenient decoder. -/
namespace PlainRs.Utils

open Text Lists

def base64Alphabet : List Char :=
  "ABCDEFGHIJKLMNOPQRSTUVWXYZabcdefghijklmnopqrstuvwxyz0123456789+/".toList

/-- `T[i] as char`. -/
def base64Char (i : Nat) : Char := base64Alphabet.getD i 'A'

def base64EncodeChunk (chunk : List UInt8) : List Char :=
  let b0 := (chunk.getD 0 0).toNat
  let b1 := if chunk.length > 1 then (chunk.getD 1 0).toNat else 0
  let b2 := if chunk.length > 2 then (chunk.getD 2 0).toNat else 0
  [base64Char (b0 >>> 2),
    base64Char (((b0 &&& 3) <<< 4) ||| (b1 >>> 4)),
    if chunk.length > 1 then base64Char (((b1 &&& 0xf) <<< 2) ||| (b2 >>> 6)) else '=',
    if chunk.length > 2 then base64Char (b2 &&& 0x3f) else '=']

def base64Encode (bytes : List UInt8) : String :=
  String.ofList ((chunks 3 bytes).flatMap base64EncodeChunk)

/-- The sextet of a byte; what is not in the alphabet counts as zero. -/
def base64Val (c : UInt8) : UInt8 :=
  if 65 ≤ c ∧ c ≤ 90 then c - 65
  else if 97 ≤ c ∧ c ≤ 122 then c - 97 + 26
  else if 48 ≤ c ∧ c ≤ 57 then c - 48 + 52
  else if c = 43 then 62
  else if c = 47 then 63
  else 0

def base64DecodeChunk (chunk : List UInt8) : List UInt8 :=
  let v0 := base64Val (chunk.getD 0 0)
  let v1 := if chunk.length > 1 then base64Val (chunk.getD 1 0) else 0
  let v2 := if chunk.length > 2 then base64Val (chunk.getD 2 0) else 0
  let v3 := if chunk.length > 3 then base64Val (chunk.getD 3 0) else 0
  [(v0 <<< 2) ||| (v1 >>> 4)] ++
    (if chunk.length > 2 then [((v1 &&& 0xf) <<< 4) ||| (v2 >>> 2)] else []) ++
    (if chunk.length > 3 then [((v2 &&& 3) <<< 6) ||| v3] else [])

/-- The bytes the decoder looks at: padding is dropped wherever it stands. -/
def base64Cleaned (s : String) : List UInt8 := (bytes s).filter (· ≠ 61)

def base64Decode (s : String) : List UInt8 := (chunks 4 (base64Cleaned s)).flatMap base64DecodeChunk

/-! The four sextets of three bytes, and back. -/

theorem shiftLeft_or {a b k : Nat} (h : b < 2 ^ k) : (a <<< k) ||| b = a * 2 ^ k + b := by
  rw [← Nat.shiftLeft_add_eq_or_of_lt h, Nat.shiftLeft_eq]

theorem sextet_first (x : UInt8) : x.toNat >>> 2 = x.toNat / 4 := by
  simp [Nat.shiftRight_eq_div_pow]

theorem sextet_second (x y : UInt8) :
    ((x.toNat &&& 3) <<< 4) ||| (y.toNat >>> 4) = x.toNat % 4 * 16 + y.toNat / 16 := by
  have hy := y.toNat_lt
  rw [shiftLeft_or (by simp [Nat.shiftRight_eq_div_pow]; omega), Nat.shiftRight_eq_div_pow,
    show (3 : Nat) = 2 ^ 2 - 1 by rfl, Nat.and_two_pow_sub_one_eq_mod]
  norm_num

theorem sextet_third (y z : UInt8) :
    ((y.toNat &&& 0xf) <<< 2) ||| (z.toNat >>> 6) = y.toNat % 16 * 4 + z.toNat / 64 := by
  have hz := z.toNat_lt
  rw [shiftLeft_or (by simp [Nat.shiftRight_eq_div_pow]; omega), Nat.shiftRight_eq_div_pow,
    show (0xf : Nat) = 2 ^ 4 - 1 by rfl, Nat.and_two_pow_sub_one_eq_mod]
  norm_num

theorem sextet_fourth (z : UInt8) : z.toNat &&& 0x3f = z.toNat % 64 := by
  rw [show (0x3f : Nat) = 2 ^ 6 - 1 by rfl, Nat.and_two_pow_sub_one_eq_mod]

/-- The byte of an alphabet character. -/
def base64Byte (i : Nat) : UInt8 := (base64Char i).toNat.toUInt8

/-- Every sextet decodes to itself, and none is padding. -/
theorem base64Val_byte : ∀ i < 64, (base64Val (base64Byte i)).toNat = i ∧
    base64Byte i ≠ 61 ∧ (base64Char i).toNat < 128 := by
  decide +kernel

theorem decode_first {v w x : UInt8} (hv : v.toNat = x.toNat / 4)
    (hw : w.toNat / 16 = x.toNat % 4) :
    (v <<< 2) ||| (w >>> 4) = x := by
  have hx := x.toNat_lt
  apply UInt8.toNat_inj.mp
  have hs : (v <<< 2).toNat = v.toNat <<< 2 := by
    simp [Nat.shiftLeft_eq, hv]
    omega
  have hr : (w >>> 4).toNat = x.toNat % 4 := by simp [Nat.shiftRight_eq_div_pow, hw]
  rw [UInt8.toNat_or, hs, hr, shiftLeft_or (by omega)]
  omega

theorem decode_second {v w y : UInt8} (hv : v.toNat % 16 = y.toNat / 16)
    (hw : w.toNat / 4 = y.toNat % 16) : ((v &&& 0xf) <<< 4) ||| (w >>> 2) = y := by
  have hy := y.toNat_lt
  apply UInt8.toNat_inj.mp
  have ha : (v &&& 0xf).toNat = y.toNat / 16 := by
    rw [UInt8.toNat_and, show (0xf : UInt8).toNat = 2 ^ 4 - 1 by rfl,
      Nat.and_two_pow_sub_one_eq_mod, ← hv]
  have hs : ((v &&& 0xf) <<< 4).toNat = (y.toNat / 16) <<< 4 := by
    rw [UInt8.toNat_shiftLeft, ha]
    simp [Nat.shiftLeft_eq]
    omega
  have hr : (w >>> 2).toNat = y.toNat % 16 := by simp [Nat.shiftRight_eq_div_pow, hw]
  rw [UInt8.toNat_or, hs, hr, shiftLeft_or (by omega)]
  omega

theorem decode_third {v w z : UInt8} (hv : v.toNat % 4 = z.toNat / 64)
    (hw : w.toNat = z.toNat % 64) : ((v &&& 3) <<< 6) ||| w = z := by
  have hz := z.toNat_lt
  apply UInt8.toNat_inj.mp
  have ha : (v &&& 3).toNat = z.toNat / 64 := by
    rw [UInt8.toNat_and, show (3 : UInt8).toNat = 2 ^ 2 - 1 by rfl,
      Nat.and_two_pow_sub_one_eq_mod, ← hv]
  have hs : ((v &&& 3) <<< 6).toNat = (z.toNat / 64) <<< 6 := by
    rw [UInt8.toNat_shiftLeft, ha]
    simp [Nat.shiftLeft_eq]
    omega
  rw [UInt8.toNat_or, hs, hw, shiftLeft_or (by omega)]
  omega

theorem encodeChunk_one (x : UInt8) : base64EncodeChunk [x] =
    [base64Char (x.toNat / 4), base64Char (x.toNat % 4 * 16), '=', '='] := by
  have h := sextet_second x 0
  simp only [UInt8.toNat_zero, Nat.zero_div, Nat.add_zero] at h
  simp [base64EncodeChunk, sextet_first, ← h]

theorem encodeChunk_two (x y : UInt8) : base64EncodeChunk [x, y] =
    [base64Char (x.toNat / 4), base64Char (x.toNat % 4 * 16 + y.toNat / 16),
      base64Char (y.toNat % 16 * 4), '='] := by
  have h := sextet_third y 0
  simp only [UInt8.toNat_zero, Nat.zero_div, Nat.add_zero] at h
  simp [base64EncodeChunk, sextet_first, sextet_second, ← h]

theorem encodeChunk_three (x y z : UInt8) : base64EncodeChunk [x, y, z] =
    [base64Char (x.toNat / 4), base64Char (x.toNat % 4 * 16 + y.toNat / 16),
      base64Char (y.toNat % 16 * 4 + z.toNat / 64), base64Char (z.toNat % 64)] := by
  simp [base64EncodeChunk, sextet_first, sextet_second, sextet_third, sextet_fourth]

theorem decodeChunk_one (x : UInt8) :
    base64DecodeChunk [base64Byte (x.toNat / 4), base64Byte (x.toNat % 4 * 16)] = [x] := by
  have hx := x.toNat_lt
  have h0 := (base64Val_byte (x.toNat / 4) (by omega)).1
  have h1 := (base64Val_byte (x.toNat % 4 * 16) (by omega)).1
  have hf := decode_first (w := base64Val (base64Byte (x.toNat % 4 * 16))) h0 (by omega)
  simp [base64DecodeChunk, hf]

theorem decodeChunk_two (x y : UInt8) :
    base64DecodeChunk [base64Byte (x.toNat / 4), base64Byte (x.toNat % 4 * 16 + y.toNat / 16),
      base64Byte (y.toNat % 16 * 4)] = [x, y] := by
  have hx := x.toNat_lt
  have hy := y.toNat_lt
  have h0 := (base64Val_byte (x.toNat / 4) (by omega)).1
  have h1 := (base64Val_byte (x.toNat % 4 * 16 + y.toNat / 16) (by omega)).1
  have h2 := (base64Val_byte (y.toNat % 16 * 4) (by omega)).1
  have hf := decode_first (w := base64Val (base64Byte (x.toNat % 4 * 16 + y.toNat / 16))) h0
    (by omega)
  have hs := decode_second (y := y)
    (v := base64Val (base64Byte (x.toNat % 4 * 16 + y.toNat / 16)))
    (w := base64Val (base64Byte (y.toNat % 16 * 4))) (by omega) (by omega)
  simp [base64DecodeChunk, hf, hs]

theorem decodeChunk_three (x y z : UInt8) :
    base64DecodeChunk [base64Byte (x.toNat / 4), base64Byte (x.toNat % 4 * 16 + y.toNat / 16),
      base64Byte (y.toNat % 16 * 4 + z.toNat / 64), base64Byte (z.toNat % 64)] = [x, y, z] := by
  have hx := x.toNat_lt
  have hy := y.toNat_lt
  have hz := z.toNat_lt
  have h0 := (base64Val_byte (x.toNat / 4) (by omega)).1
  have h1 := (base64Val_byte (x.toNat % 4 * 16 + y.toNat / 16) (by omega)).1
  have h2 := (base64Val_byte (y.toNat % 16 * 4 + z.toNat / 64) (by omega)).1
  have h3 := (base64Val_byte (z.toNat % 64) (by omega)).1
  have hf := decode_first (w := base64Val (base64Byte (x.toNat % 4 * 16 + y.toNat / 16))) h0
    (by omega)
  have hs := decode_second (y := y)
    (v := base64Val (base64Byte (x.toNat % 4 * 16 + y.toNat / 16)))
    (w := base64Val (base64Byte (y.toNat % 16 * 4 + z.toNat / 64))) (by omega) (by omega)
  have ht := decode_third (z := z)
    (v := base64Val (base64Byte (y.toNat % 16 * 4 + z.toNat / 64))) (by omega) h3
  simp [base64DecodeChunk, hf, hs, ht]

/-- What is left of the encoded characters once the padding is dropped. -/
def cleanedChars (cs : List Char) : List UInt8 :=
  (cs.map fun c => c.toNat.toUInt8).filter (· ≠ 61)

theorem cleanedChars_append (cs ds : List Char) :
    cleanedChars (cs ++ ds) = cleanedChars cs ++ cleanedChars ds := by
  simp [cleanedChars]

theorem cleanedChars_cons {i : Nat} (h : i < 64) (cs : List Char) :
    cleanedChars (base64Char i :: cs) = base64Byte i :: cleanedChars cs := by
  have hb := (base64Val_byte i h).2.1
  unfold base64Byte at hb
  simp [cleanedChars, base64Byte, hb]

theorem cleanedChars_pad (cs : List Char) : cleanedChars ('=' :: cs) = cleanedChars cs := by
  simp [cleanedChars]

/-- Decoding undoes encoding, piece by piece. -/
theorem decode_encodeChunks : ∀ bs : List UInt8,
    (chunks 4 (cleanedChars ((chunks 3 bs).flatMap base64EncodeChunk))).flatMap
      base64DecodeChunk = bs
  | [] => rfl
  | [x] => by
    have hx := x.toNat_lt
    have hc : chunks 3 [x] = [[x]] := chunks_short (by simp) (by simp)
    rw [hc, List.flatMap_singleton, encodeChunk_one, cleanedChars_cons (by omega),
      cleanedChars_cons (by omega), cleanedChars_pad, cleanedChars_pad,
      chunks_short (by simp [cleanedChars]) (by simp), List.flatMap_singleton]
    exact decodeChunk_one x
  | [x, y] => by
    have hx := x.toNat_lt
    have hy := y.toNat_lt
    have hc : chunks 3 [x, y] = [[x, y]] := chunks_short (by simp) (by simp)
    rw [hc, List.flatMap_singleton, encodeChunk_two, cleanedChars_cons (by omega),
      cleanedChars_cons (by omega), cleanedChars_cons (by omega), cleanedChars_pad,
      chunks_short (by simp [cleanedChars]) (by simp), List.flatMap_singleton]
    exact decodeChunk_two x y
  | x :: y :: z :: bs => by
    have hx := x.toNat_lt
    have hy := y.toNat_lt
    have hz := z.toNat_lt
    have hc : chunks 3 (x :: y :: z :: bs) = [x, y, z] :: chunks 3 bs :=
      chunks_append (a := [x, y, z]) (by omega) rfl
    rw [hc, List.flatMap_cons, cleanedChars_append, encodeChunk_three,
      cleanedChars_cons (by omega), cleanedChars_cons (by omega), cleanedChars_cons (by omega),
      cleanedChars_cons (by omega), chunks_append (by omega) (by simp [cleanedChars]),
      List.flatMap_cons, decode_encodeChunks bs]
    show base64DecodeChunk [_, _, _, _] ++ bs = _
    rw [decodeChunk_three]
    rfl

theorem encodeChunks_ascii : ∀ bs : List UInt8,
    ∀ c ∈ (chunks 3 bs).flatMap base64EncodeChunk, c.toNat < 128
  | [] => by simp
  | [x] => by
    have hx := x.toNat_lt
    have hc : chunks 3 [x] = [[x]] := chunks_short (by simp) (by simp)
    rw [hc, List.flatMap_singleton, encodeChunk_one]
    simp [(base64Val_byte _ (by omega : x.toNat / 4 < 64)).2.2,
      (base64Val_byte _ (by omega : x.toNat % 4 * 16 < 64)).2.2]
  | [x, y] => by
    have hx := x.toNat_lt
    have hy := y.toNat_lt
    have hc : chunks 3 [x, y] = [[x, y]] := chunks_short (by simp) (by simp)
    rw [hc, List.flatMap_singleton, encodeChunk_two]
    simp [(base64Val_byte _ (by omega : x.toNat / 4 < 64)).2.2,
      (base64Val_byte _ (by omega : x.toNat % 4 * 16 + y.toNat / 16 < 64)).2.2,
      (base64Val_byte _ (by omega : y.toNat % 16 * 4 < 64)).2.2]
  | x :: y :: z :: bs => by
    have hx := x.toNat_lt
    have hy := y.toNat_lt
    have hz := z.toNat_lt
    have hc : chunks 3 (x :: y :: z :: bs) = [x, y, z] :: chunks 3 bs :=
      chunks_append (a := [x, y, z]) (by omega) rfl
    intro c h
    rw [hc, List.flatMap_cons, encodeChunk_three, List.mem_append] at h
    rcases h with h | h
    · simp only [List.mem_cons, List.not_mem_nil, or_false] at h
      rcases h with rfl | rfl | rfl | rfl <;> exact (base64Val_byte _ (by omega)).2.2
    · exact encodeChunks_ascii bs c h

theorem bytes_base64Encode (bs : List UInt8) : bytes (base64Encode bs) =
    ((chunks 3 bs).flatMap base64EncodeChunk).map fun c => c.toNat.toUInt8 :=
  bytes_ofList_ascii (encodeChunks_ascii bs)

/-- The decoder undoes the encoder on every byte string. -/
@[simp] theorem base64Decode_encode (bs : List UInt8) : base64Decode (base64Encode bs) = bs := by
  have h := decode_encodeChunks bs
  unfold base64Decode base64Cleaned
  rw [bytes_base64Encode]
  exact h

theorem base64Encode_injective : Function.Injective base64Encode := by
  intro a b h
  rw [← base64Decode_encode a, h, base64Decode_encode]

/-- What is stored or sent as base64 is recovered, so that different bytes have different texts. -/
theorem base64_faithful : Function.LeftInverse base64Decode base64Encode ∧
    Function.Injective base64Encode :=
  ⟨base64Decode_encode, base64Encode_injective⟩

theorem base64Encode_eq_empty {bs : List UInt8} : base64Encode bs = "" ↔ bs = [] := by
  constructor
  · intro h
    have := base64Decode_encode bs
    rw [h] at this
    exact this.symm
  · rintro rfl
    rfl

theorem length_encodeChunk (chunk : List UInt8) : (base64EncodeChunk chunk).length = 4 := rfl

theorem length_encodeChunks (bs : List UInt8) :
    ((chunks 3 bs).flatMap base64EncodeChunk).length = 4 * (chunks 3 bs).length := by
  simp [List.length_flatMap, length_encodeChunk, mul_comm]

/-- Three bytes make four characters, and an incomplete group counts as a full one. -/
theorem length_bytes_base64Encode (bs : List UInt8) :
    (bytes (base64Encode bs)).length = 4 * ((bs.length + 2) / 3) := by
  rw [bytes_base64Encode, List.length_map, length_encodeChunks, length_chunks (by omega)]

theorem length_decodeChunk (chunk : List UInt8) : (base64DecodeChunk chunk).length =
    1 + (if chunk.length > 2 then 1 else 0) + (if chunk.length > 3 then 1 else 0) := by
  simp only [base64DecodeChunk, List.length_append, apply_ite List.length, List.length_singleton,
    List.length_nil]

theorem length_decodeChunks (l : List UInt8) :
    4 * ((chunks 4 l).flatMap base64DecodeChunk).length ≤ 3 * l.length + 3 := by
  induction hn : l.length using Nat.strong_induction_on generalizing l with
  | h n ih =>
    subst hn
    by_cases hl : l = []
    · simp [hl]
    · have hpos := List.length_pos_iff.mpr hl
      by_cases hs : l.length ≤ 4
      · rw [chunks_short hs hl, List.flatMap_singleton, length_decodeChunk]
        split <;> split <;> omega
      · have hcut := chunks_append (n := 4) (a := l.take 4) (l := l.drop 4) (by omega)
          (by rw [List.length_take]; omega)
        rw [List.take_append_drop] at hcut
        have hrest := ih (l.drop 4).length (by rw [List.length_drop]; omega) (l.drop 4) rfl
        rw [List.length_drop] at hrest
        have hfull : (base64DecodeChunk (l.take 4)).length = 3 := by
          have htake : (l.take 4).length = 4 := by
            rw [List.length_take]
            omega
          rw [length_decodeChunk, htake]
          rfl
        rw [hcut, List.flatMap_cons, List.length_append, hfull]
        omega

/-- A text of `k` bytes decodes to at most three quarters as many, rounded up. -/
theorem length_base64Decode (s : String) :
    4 * (base64Decode s).length ≤ 3 * (bytes s).length + 3 := by
  have hf : (base64Cleaned s).length ≤ (bytes s).length := List.length_filter_le _ _
  have hd := length_decodeChunks (base64Cleaned s)
  unfold base64Decode
  omega

end PlainRs.Utils
