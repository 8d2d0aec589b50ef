import PlainRs.LocalApi.Dlna.SoapPanics
import PlainRs.Utils.QueryStrings

/-! Where the decoder of media titles reads what the decoder of queries reads. -/
namespace PlainRs.Dlna

open Checked Text

/-- What the two decoders see alike: a character, an escaped byte, or a `%` and a `+` before a hex
digit, which only one of them takes for an escape. -/
inductive Token
  | plain (c : Char)
  | code (b : UInt8)
  | signed (lo : Char) (h : (hexDigit lo).isSome)

def Token.titleChar : Token → Char
  | plain c => c
  | code b => Char.ofNat b.toNat
  | signed lo h => Char.ofNat ((hexDigit lo).get h)

def Token.queryBytes : Token → List UInt8
  | plain c => String.utf8EncodeChar c
  | code b => [b]
  | signed lo _ => 37 :: 32 :: String.utf8EncodeChar lo

/-- The two decoders make the same of it. -/
def Token.Same : Token → Prop
  | plain _ => True
  | code b => b.toNat < 128
  | signed _ _ => False

def tokens : List Char → List Token
  | [] => []
  | '+' :: cs => .plain ' ' :: tokens cs
  | '%' :: hi :: lo :: cs =>
    if h : (hexDigit lo).isSome then
      match hexDigit hi with
      | some n => .code (n * 16 + (hexDigit lo).get h).toUInt8 :: tokens cs
      | none =>
        if hi = '+' then .signed lo h :: tokens cs else .plain '%' :: tokens (hi :: lo :: cs)
    else .plain '%' :: tokens (hi :: lo :: cs)
  | c :: cs => .plain c :: tokens cs

/-- No `%` is followed by what the decoders take differently: a cut through a character, a sign and
a digit, or a byte that is not ASCII. -/
def PercentsAgree (raw : List Char) : Prop :=
  PercentsFit raw ∧ ∀ pre hi lo post, raw = pre ++ '%' :: hi :: lo :: post → (hexDigit lo).isSome →
    hi ≠ '+' ∧ ∀ n ∈ hexDigit hi, n < 8

variable {cs raw input out : List Char} {c hi lo : Char} {i n : Nat} {t : Token} {ts : List Token}
  {bs rest : List UInt8}

/-- Hex digits are ASCII, and the same to both decoders. -/
theorem hexDigit_ascii (hc : c.toNat < 128) :
    Utils.hexNibble c.toNat.toUInt8 = (hexDigit c).map Nat.toUInt8 ∧
      ∀ n ∈ hexDigit c, n < 16 ∧ c ≠ '%' ∧ c ≠ '+' := by
  have hall : ∀ k : Fin 128, Utils.hexNibble k.val.toUInt8 =
      (hexDigit (Char.ofNat k.val)).map Nat.toUInt8 ∧
      ∀ n ∈ hexDigit (Char.ofNat k.val),
        n < 16 ∧ Char.ofNat k.val ≠ '%' ∧ Char.ofNat k.val ≠ '+' := by
    decide
  have hk := hall ⟨c.toNat, hc⟩
  rwa [Char.ofNat_toNat] at hk

theorem hexDigit_eq_none (hc : 128 ≤ c.toNat) : hexDigit c = none := by
  have hle : ∀ d : Char, c ≤ d → c.toNat ≤ d.toNat := fun d h => h
  have hnot : ∀ d : Char, d.toNat < 128 → ¬ c ≤ d := fun d hd h => by
    have := hle d h
    omega
  rw [hexDigit, if_neg fun h => hnot '9' (by decide) h.2, if_neg fun h => hnot 'f' (by decide) h.2,
    if_neg fun h => hnot 'F' (by decide) h.2]

theorem hexDigit_eq_some (h : hexDigit c = some n) :
    c.toNat < 128 ∧ n < 16 ∧ c ≠ '%' ∧ c ≠ '+' := by
  have hc : c.toNat < 128 := by
    by_contra hc
    rw [hexDigit_eq_none (by omega)] at h
    cases h
  exact ⟨hc, (hexDigit_ascii hc).2 n h⟩

section Titles

theorem utf8Size_ascii (hc : c.toNat < 128) : c.utf8Size = 1 := by
  rw [← String.length_utf8EncodeChar, bytes_char_ascii hc, List.length_singleton]

theorem standsAt_ascii (hc : c.toNat < 128) (h : StandsAt (c :: cs) i input) :
    StandsAt cs (i + 1) input := by
  have htail := h.tail
  rwa [utf8Size_ascii hc] at htail

theorem percentsFit_plain (hc : c ≠ '%') : PercentsFit (c :: cs) ↔ PercentsFit cs := by
  rw [percentsFit_cons]
  simp [hc]

/-- One turn of the loop, by what stands where it is. -/
theorem percentDecodeFrom_cons (h : StandsAt (c :: cs) i input) :
    percentDecodeFrom input i out =
      if c = '+' then percentDecodeFrom input (i + 1) (out ++ [' '])
      else if c = '%' ∧ 2 ≤ String.utf8Len cs then
        ofBoundary (takeBytes 2 cs) >>= fun hex =>
          (u8OfHex hex).elim (percentDecodeFrom input (i + 1) (out ++ [c])) fun code =>
            percentDecodeFrom input (i + 3) (out ++ [Char.ofNat code])
      else percentDecodeFrom input (i + c.utf8Size) (out ++ [c]) := by
  have hlen := h.length_le
  have hsize := c.utf8Size_pos
  rw [String.utf8Len_cons] at hlen
  rw [percentDecodeFrom, if_pos (by omega)]
  obtain ⟨rest, hcut, rfl⟩ := cutFrom_spec h
  rw [hcut, ok_bind]
  dsimp only [List.headD_cons]
  by_cases hpercent : c = '%' ∧ 2 ≤ String.utf8Len cs
  · obtain ⟨rfl, hroom⟩ := hpercent
    rw [utf8Size_ascii (by decide)] at hlen
    have hcut : cut input (i + 1) (i + 3) = ofBoundary (takeBytes 2 cs) := by
      simp [cut, (standsAt_ascii (by decide) h).dropBytes_eq, show i + 3 - (i + 1) = 2 by omega]
    rw [if_neg (by decide), if_pos ⟨rfl, by omega⟩, if_neg (by decide), if_pos ⟨rfl, hroom⟩, hcut]
    congr 1
    funext hex
    cases u8OfHex hex <;> rfl
  · have hno : ¬ (c = '%' ∧ i + 2 < String.utf8Len input) := by
      rintro ⟨rfl, hroom⟩
      rw [utf8Size_ascii (by decide)] at hlen
      exact hpercent ⟨rfl, by omega⟩
    rw [if_neg hpercent, if_neg hno]

/-- A `%` that begins no escape stands for itself. -/
theorem percentDecodeFrom_percent (h : StandsAt ('%' :: cs) i input) (hfit : TwoFit cs)
    (hcs : ∀ hi lo post, cs = hi :: lo :: post → u8OfHex [hi, lo] = none) :
    percentDecodeFrom input i out = percentDecodeFrom input (i + 1) (out ++ ['%']) := by
  rw [percentDecodeFrom_cons h, if_neg (by decide)]
  split
  · next hroom =>
    obtain ⟨hex, hhex⟩ := Option.isSome_iff_exists.mp (hfit.resolve_left (by omega))
    have hnone : u8OfHex hex = none := by
      by_contra hsome
      obtain ⟨code, hcode⟩ := Option.ne_none_iff_exists'.mp hsome
      obtain ⟨a, b, rfl, -⟩ := u8OfHex_eq_some hcode
      obtain ⟨post, rfl, -⟩ := takeBytes_eq_some hhex
      exact hsome (hcs a b post rfl)
    rw [hhex, ofBoundary, ok_bind, hnone, Option.elim_none]
  · rfl

theorem u8OfHex_pair (hi lo : Char) : u8OfHex [hi, lo] =
    if hi = '+' then hexDigit lo
    else (hexDigit hi).bind fun h => (hexDigit lo).map fun l => h * 16 + l := by
  by_cases hplus : hi = '+'
  · subst hplus
    rfl
  · rw [if_neg hplus, u8OfHex]
    · cases hexDigit hi <;> cases hexDigit lo <;> rfl
    · exact hplus

theorem percentDecodeFrom_escape {post : List Char} {code : ℕ}
    (h : StandsAt ('%' :: hi :: lo :: post) i input) (hhi : hi.toNat < 128) (hlo : lo.toNat < 128)
    (hcode : u8OfHex [hi, lo] = some code) :
    percentDecodeFrom input i out = percentDecodeFrom input (i + 3) (out ++ [Char.ofNat code]) := by
  have htwo : String.utf8Len [hi, lo] = 2 := by
    simp [String.utf8Len, utf8Size_ascii hhi, utf8Size_ascii hlo]
  have htake : takeBytes 2 (hi :: lo :: post) = some [hi, lo] := by
    rw [← htwo]
    exact takeBytes_append
  have hroom : 2 ≤ String.utf8Len (hi :: lo :: post) := by
    rw [String.utf8Len_cons, String.utf8Len_cons, utf8Size_ascii hhi, utf8Size_ascii hlo]
    omega
  rw [percentDecodeFrom_cons h, if_neg (by decide), if_pos ⟨rfl, hroom⟩, htake, ofBoundary, ok_bind,
    hcode, Option.elim_some]

/-- Where every `%` fits, a title is read token by token. -/
theorem percentDecodeFrom_eq {rest : List Char} (h : StandsAt rest i input)
    (hfit : PercentsFit rest) :
    percentDecodeFrom input i out = .ok (out ++ (tokens rest).map Token.titleChar) := by
  have happend : ∀ (out : List Char) (t : Token) (ts : List Token),
      out ++ (t :: ts).map Token.titleChar = out ++ [t.titleChar] ++ ts.map Token.titleChar := by
    simp
  fun_induction tokens rest generalizing i out
  case case1 =>
    have hlen := h.length_le
    rw [percentDecodeFrom, if_neg (by simp [String.utf8Len] at hlen; omega)]
    simp
    rfl
  case case2 cs ih =>
    rw [percentDecodeFrom_cons h, if_pos rfl, ih (standsAt_ascii (by decide) h)
      ((percentsFit_plain (by decide)).mp hfit), happend]
    rfl
  case case3 hi lo cs hlo n hhi ih =>
    obtain ⟨l, hl⟩ := Option.isSome_iff_exists.mp hlo
    obtain ⟨hhi', hn, hne, hplus⟩ := hexDigit_eq_some hhi
    obtain ⟨hlo', hlt, hne', -⟩ := hexDigit_eq_some hl
    have hcode : u8OfHex [hi, lo] = some (n * 16 + l) := by
      rw [u8OfHex_pair, if_neg hplus, hhi, hl]
      rfl
    have hstand := standsAt_ascii hlo' (standsAt_ascii hhi' (standsAt_ascii (by decide) h))
    have hrest := (percentsFit_plain hne').mp
      ((percentsFit_plain hne).mp (percentsFit_cons.mp hfit).2)
    have hchar : Char.ofNat (n * 16 + l) =
        (Token.code (n * 16 + (hexDigit lo).get hlo).toUInt8).titleChar := by
      simp only [Token.titleChar, hl, Option.get_some]
      rw [Nat.toUInt8_eq, UInt8.toNat_ofNat', Nat.mod_eq_of_lt (by omega)]
    rw [percentDecodeFrom_escape h hhi' hlo' hcode, ih hstand hrest, happend, hchar]
  case case4 lo cs hlo hhi ih =>
    obtain ⟨l, hl⟩ := Option.isSome_iff_exists.mp hlo
    obtain ⟨hlo', hlt, hne', -⟩ := hexDigit_eq_some hl
    have hcode : u8OfHex ['+', lo] = some l := by rw [u8OfHex_pair, if_pos rfl, hl]
    have hstand := standsAt_ascii hlo' (standsAt_ascii (by decide) (standsAt_ascii (by decide) h))
    have hrest := (percentsFit_plain hne').mp
      ((percentsFit_plain (by decide)).mp (percentsFit_cons.mp hfit).2)
    have hchar : Char.ofNat l = (Token.signed lo hlo).titleChar := by
      simp only [Token.titleChar, hl, Option.get_some]
    rw [percentDecodeFrom_escape h (by decide) hlo' hcode, ih hstand hrest, happend, hchar]
  case case5 hi lo cs hlo hhi hplus ih =>
    obtain ⟨htwo, hrest⟩ := percentsFit_cons.mp hfit
    rw [percentDecodeFrom_percent h (htwo rfl), ih (standsAt_ascii (by decide) h) hrest, happend]
    · rfl
    · rintro _ _ _ ⟨⟩
      rw [u8OfHex_pair, if_neg hplus, hhi]
      rfl
  case case6 hi lo cs hlo ih =>
    obtain ⟨htwo, hrest⟩ := percentsFit_cons.mp hfit
    rw [percentDecodeFrom_percent h (htwo rfl), ih (standsAt_ascii (by decide) h) hrest, happend]
    · rfl
    · rintro _ _ _ ⟨⟩
      rw [u8OfHex_pair, Option.not_isSome_iff_eq_none.mp hlo]
      split
      · rfl
      · cases hexDigit hi <;> rfl
  case case7 c cs hplus hshort ih =>
    by_cases hpercent : c = '%'
    · subst hpercent
      obtain ⟨htwo, hrest⟩ := percentsFit_cons.mp hfit
      rw [percentDecodeFrom_percent h (htwo rfl), ih (standsAt_ascii (by decide) h) hrest, happend]
      · rfl
      · intro hi lo post hcs
        exact (hshort hi lo post rfl hcs).elim
    · rw [percentDecodeFrom_cons h, if_neg hplus, if_neg (by simp [hpercent]), ih h.tail
        ((percentsFit_plain hpercent).mp hfit), happend]
      rfl

end Titles

section Queries

/-- What is not ASCII goes through. -/
theorem percentDecodeBytes_high (h : ∀ b ∈ bs, 128 ≤ b.toNat) :
    Utils.percentDecodeBytes (bs ++ rest) = bs ++ Utils.percentDecodeBytes rest := by
  induction bs with
  | nil => rfl
  | cons b bs ih =>
    have hb := h b List.mem_cons_self
    have hplain : b ≠ 43 ∧ b ≠ 37 := by
      constructor <;> rintro rfl <;> revert hb <;> decide
    rw [List.cons_append, Utils.percentDecodeBytes_plain hplain,
      ih fun b hb => h b (List.mem_cons_of_mem _ hb), List.cons_append]

theorem percentDecodeBytes_char (hplus : c ≠ '+') (hpercent : c ≠ '%') :
    Utils.percentDecodeBytes (String.utf8EncodeChar c ++ rest) =
      String.utf8EncodeChar c ++ Utils.percentDecodeBytes rest := by
  by_cases hc : c.toNat < 128
  · have hbyte : ∀ d : Char, d.toNat < 128 → c ≠ d → c.toNat.toUInt8 ≠ d.toNat.toUInt8 := by
      intro d hd hne heq
      have := congrArg UInt8.toNat heq
      simp only [Nat.toUInt8_eq, UInt8.toNat_ofNat'] at this
      exact hne (Char.toNat_inj.mp (by omega))
    rw [bytes_char_ascii hc, List.singleton_append, Utils.percentDecodeBytes_plain
      ⟨hbyte '+' (by decide) hplus, hbyte '%' (by decide) hpercent⟩, List.singleton_append]
  · exact percentDecodeBytes_high fun b hb => le_of_mem_utf8EncodeChar (by omega) hb

/-- The first byte of a text is a hex digit to the one where its first character is to the other. -/
theorem hexNibble_first {b : UInt8} (h : String.utf8EncodeChar c ++ rest = b :: bs) :
    Utils.hexNibble b = (hexDigit c).map Nat.toUInt8 := by
  by_cases hc : c.toNat < 128
  · rw [bytes_char_ascii hc] at h
    obtain ⟨rfl, -⟩ := List.cons.inj h
    exact (hexDigit_ascii hc).1
  · have hb : 128 ≤ b.toNat := by
      cases hcs : String.utf8EncodeChar c with
      | nil =>
        have := c.utf8Size_pos
        rw [← String.length_utf8EncodeChar, hcs] at this
        cases this
      | cons d ds =>
        rw [hcs] at h
        obtain ⟨rfl, -⟩ := List.cons.inj h
        exact le_of_mem_utf8EncodeChar (by omega) (hcs ▸ List.mem_cons_self)
    rw [hexDigit_eq_none (by omega), Option.map_none, Utils.hexNibble, if_neg, if_neg, if_neg]
    all_goals
      simp only [UInt8.le_iff_toNat_le, UInt8.reduceToNat]
      omega

/-- A `%` that begins no escape stands for itself. -/
theorem percentDecodeBytes_percent (h : ∀ hi lo post, cs = hi :: lo :: post →
      hexDigit hi = none ∨ hexDigit lo = none) :
    Utils.percentDecodeBytes (37 :: cs.flatMap String.utf8EncodeChar) =
      37 :: Utils.percentDecodeBytes (cs.flatMap String.utf8EncodeChar) := by
  cases hcs : cs.flatMap String.utf8EncodeChar with
  | nil => simp [Utils.percentDecodeBytes]
  | cons x bs =>
    cases bs with
    | nil => simp [Utils.percentDecodeBytes]
    | cons y bs =>
      have hnone : Utils.hexNibble x = none ∨ Utils.hexNibble y = none := by
        cases cs with
        | nil => cases hcs
        | cons hi cs =>
          rw [List.flatMap_cons] at hcs
          have hx := hexNibble_first hcs
          cases hhi : hexDigit hi with
          | none => exact .inl (by rw [hx, hhi]; rfl)
          | some n =>
            right
            obtain ⟨hascii, -⟩ := hexDigit_eq_some hhi
            rw [bytes_char_ascii hascii, List.singleton_append] at hcs
            obtain ⟨-, hcs⟩ := List.cons.inj hcs
            cases cs with
            | nil => cases hcs
            | cons lo cs =>
              rw [List.flatMap_cons] at hcs
              rw [hexNibble_first hcs, (h hi lo cs rfl).resolve_left (by rw [hhi]; simp)]
              rfl
      rw [Utils.percentDecodeBytes]
      rcases hnone with hx | hy
      · rw [hx]
      · rw [hy]
        cases Utils.hexNibble x <;> rfl

/-- A query is read token by token. -/
theorem percentDecodeBytes_eq : Utils.percentDecodeBytes (cs.flatMap String.utf8EncodeChar) =
    (tokens cs).flatMap Token.queryBytes := by
  have hchar : ∀ d : Char, d.toNat < 128 → ∀ cs : List Char,
      (d :: cs).flatMap String.utf8EncodeChar =
        d.toNat.toUInt8 :: cs.flatMap String.utf8EncodeChar := by
    intro d hd cs
    rw [List.flatMap_cons, bytes_char_ascii hd, List.singleton_append]
  fun_induction tokens cs
  case case1 => rfl
  case case2 cs ih =>
    rw [hchar '+' (by decide)]
    exact congrArg (32 :: ·) ih
  case case3 hi lo cs hlo n hhi ih =>
    obtain ⟨l, hl⟩ := Option.isSome_iff_exists.mp hlo
    obtain ⟨hhi', hn, -⟩ := hexDigit_eq_some hhi
    obtain ⟨hlo', hlt, -⟩ := hexDigit_eq_some hl
    have hbyte : (n.toUInt8 <<< 4) ||| l.toUInt8 = (n * 16 + l).toUInt8 := by
      have hall : ∀ n l : Fin 16, (n.val.toUInt8 <<< 4) ||| l.val.toUInt8 =
          (n.val * 16 + l.val).toUInt8 := by decide
      exact hall ⟨n, hn⟩ ⟨l, hlt⟩
    rw [hchar '%' (by decide), hchar hi hhi', hchar lo hlo']
    have hpercent : '%'.toNat.toUInt8 = 37 := rfl
    have hhi'' := (hexDigit_ascii hhi').1
    have hlo'' := (hexDigit_ascii hlo').1
    rw [hhi, Option.map_some] at hhi''
    rw [hl, Option.map_some] at hlo''
    rw [hpercent, Utils.percentDecodeBytes, hhi'', hlo'']
    dsimp only
    rw [hbyte, ih, List.flatMap_cons]
    simp only [Token.queryBytes, hl, Option.get_some, List.singleton_append]
  case case4 lo cs hlo hhi ih =>
    obtain ⟨l, hl⟩ := Option.isSome_iff_exists.mp hlo
    obtain ⟨hlo', hlt, hne, hplus⟩ := hexDigit_eq_some hl
    have hnot : ∀ hi lo' post, '+' :: lo :: cs = hi :: lo' :: post →
        hexDigit hi = none ∨ hexDigit lo' = none := by
      rintro _ _ _ ⟨⟩
      exact .inl hhi
    rw [hchar '%' (by decide)]
    refine (percentDecodeBytes_percent hnot).trans ?_
    rw [hchar '+' (by decide)]
    refine congrArg (37 :: 32 :: ·) ?_
    rw [List.flatMap_cons, percentDecodeBytes_char hplus hne, ih]
    rfl
  case case5 hi lo cs hlo hhi hplus ih =>
    have hnot : ∀ hi' lo' post, hi :: lo :: cs = hi' :: lo' :: post →
        hexDigit hi' = none ∨ hexDigit lo' = none := by
      rintro _ _ _ ⟨⟩
      exact .inl hhi
    rw [hchar '%' (by decide)]
    exact (percentDecodeBytes_percent hnot).trans (congrArg (37 :: ·) ih)
  case case6 hi lo cs hlo ih =>
    have hnot : ∀ hi' lo' post, hi :: lo :: cs = hi' :: lo' :: post →
        hexDigit hi' = none ∨ hexDigit lo' = none := by
      rintro _ _ _ ⟨⟩
      exact .inr (Option.not_isSome_iff_eq_none.mp hlo)
    rw [hchar '%' (by decide)]
    exact (percentDecodeBytes_percent hnot).trans (congrArg (37 :: ·) ih)
  case case7 c cs hplus hshort ih =>
    by_cases hpercent : c = '%'
    · subst hpercent
      rw [hchar '%' (by decide)]
      refine (percentDecodeBytes_percent fun hi lo post hcs => ?_).trans (congrArg (37 :: ·) ih)
      exact (hshort hi lo post rfl hcs).elim
    · rw [List.flatMap_cons, percentDecodeBytes_char hplus hpercent, ih]
      rfl

end Queries

section Tokens

theorem isContinuation_first (c : Char) :
    ∀ b ∈ (String.utf8EncodeChar c ++ rest).head?, isContinuation b = false := by
  intro b hb
  have hlead : b.toNat < 128 ∨ 192 ≤ b.toNat := by
    unfold String.utf8EncodeChar at hb
    simp only at hb
    split at hb
    · obtain rfl := Option.some.inj hb
      rw [UInt8.toNat_ofNat']
      omega
    · right
      split at hb
      · obtain rfl := Option.some.inj hb
        rw [UInt8.toNat_ofNat']
        omega
      · split at hb
        · obtain rfl := Option.some.inj hb
          rw [UInt8.toNat_ofNat']
          omega
        · obtain rfl := Option.some.inj hb
          rw [UInt8.toNat_ofNat']
          omega
  by_contra h
  rw [Bool.not_eq_false, isContinuation_iff] at h
  omega

/-- A character is read as it is, whatever stands before it. -/
theorem lossyChars_char (c : Char) :
    lossyChars (bs ++ (String.utf8EncodeChar c ++ rest)) =
      lossyChars bs ++ c :: lossyChars rest := by
  rw [lossyChars_append (isContinuation_first c), lossyChars_encodeChar]

theorem toNat_ofNat (h : n < 256) : (Char.ofNat n).toNat = n := by
  have hvalid : n.isValidChar := .inl (by omega)
  simp [Char.ofNat, hvalid, Char.toNat, Char.ofNatAux]

theorem encode_byte {b : UInt8} (hb : b.toNat < 128) :
    String.utf8EncodeChar (Char.ofNat b.toNat) = [b] := by
  have hnat : (Char.ofNat b.toNat).toNat = b.toNat := toNat_ofNat (by omega)
  rw [bytes_char_ascii (by omega), hnat, Nat.toUInt8_eq, UInt8.ofNat_toNat]

/-- Where every token is the same to both, so is the text. -/
theorem lossyChars_same (h : ∀ t ∈ ts, t.Same) :
    lossyChars (ts.flatMap Token.queryBytes) = ts.map Token.titleChar := by
  induction ts with
  | nil => rw [List.flatMap_nil, lossyChars.eq_def]; rfl
  | cons t ts ih =>
    have ht := h t List.mem_cons_self
    have hrest := ih fun t ht => h t (List.mem_cons_of_mem _ ht)
    have hbytes : t.queryBytes = String.utf8EncodeChar t.titleChar := by
      cases t with
      | plain c => rfl
      | code b => exact (encode_byte ht).symm
      | signed lo h => exact ht.elim
    rw [List.flatMap_cons, hbytes, lossyChars_encodeChar, hrest, List.map_cons]

/-- A control character, or one that is neither ASCII nor a replacement. -/
def counted (c : Char) : Bool := c.toNat < 16 || (128 ≤ c.toNat && c ≠ replacementChar)

theorem counted_hexDigit (h : hexDigit c = some n) :
    counted c = false ∧ counted (Char.ofNat n) = true := by
  obtain ⟨hc, hn, -⟩ := hexDigit_eq_some h
  constructor
  · have hall : ∀ k : Fin 128, (hexDigit (Char.ofNat k.val)).isSome →
        counted (Char.ofNat k.val) = false := by decide
    have hk := hall ⟨c.toNat, hc⟩
    rw [Char.ofNat_toNat, h] at hk
    exact hk rfl
  · simp [counted, toNat_ofNat (show n < 256 by omega), hn]

theorem counted_high {b : UInt8} (hb : 128 ≤ b.toNat) : counted (Char.ofNat b.toNat) = true := by
  have hlt := b.toNat_lt
  have hne : Char.ofNat b.toNat ≠ replacementChar := by
    intro heq
    have hnat := congrArg Char.toNat heq
    rw [toNat_ofNat hlt] at hnat
    have hrep : replacementChar.toNat = 0xFFFD := by decide
    omega
  simp [counted, toNat_ofNat hlt, hb, hne]

/-- The query has fewer of these than the title unless every token is the same to both; `bs` are the
escaped bytes that still wait for what follows them. -/
theorem countP_lt (hbs : ∀ b ∈ bs, 128 ≤ b.toNat) :
    (lossyChars (bs ++ ts.flatMap Token.queryBytes)).countP counted ≤
        (ts.map Token.titleChar).countP counted + bs.length ∧
      ((lossyChars (bs ++ ts.flatMap Token.queryBytes)).countP counted =
        (ts.map Token.titleChar).countP counted + bs.length → bs = [] ∧ ∀ t ∈ ts, t.Same) := by
  have hhigh : ∀ {bs : List UInt8}, (∀ b ∈ bs, 128 ≤ b.toNat) →
      2 * (lossyChars bs).countP counted ≤ bs.length := countP_lossyChars (by decide)
  have hb := hhigh hbs
  induction ts generalizing bs with
  | nil =>
    rw [List.flatMap_nil, List.append_nil, List.map_nil, List.countP_nil]
    refine ⟨by omega, fun heq => ⟨?_, nofun⟩⟩
    rw [← List.length_eq_zero_iff]
    omega
  | cons t ts ih =>
    have hnone : ∀ b ∈ ([] : List UInt8), 128 ≤ b.toNat := nofun
    obtain ⟨hle, heq⟩ := ih hnone (hhigh hnone)
    rw [List.nil_append, List.length_nil, Nat.add_zero] at hle heq
    have hsame : t.queryBytes = String.utf8EncodeChar t.titleChar → t.Same →
        (lossyChars (bs ++ (t :: ts).flatMap Token.queryBytes)).countP counted ≤
            ((t :: ts).map Token.titleChar).countP counted + bs.length ∧
          ((lossyChars (bs ++ (t :: ts).flatMap Token.queryBytes)).countP counted =
            ((t :: ts).map Token.titleChar).countP counted + bs.length →
            bs = [] ∧ ∀ u ∈ t :: ts, u.Same) := by
      intro hbytes ht
      rw [List.flatMap_cons, hbytes, lossyChars_char, List.countP_append, List.countP_cons,
        List.map_cons, List.countP_cons]
      refine ⟨by omega, fun htotal => ⟨?_, ?_⟩⟩
      · rw [← List.length_eq_zero_iff]
        omega
      · exact List.forall_mem_cons.mpr ⟨ht, (heq (by omega)).2⟩
    cases t with
    | plain c => exact hsame rfl trivial
    | code b =>
      by_cases hascii : b.toNat < 128
      · exact hsame (encode_byte hascii).symm hascii
      · have hmore : ∀ b' ∈ bs ++ [b], 128 ≤ b'.toNat := by
          intro b' hb'
          rcases List.mem_append.mp hb' with hb' | hb'
          · exact hbs b' hb'
          · obtain rfl := List.mem_singleton.mp hb'
            omega
        obtain ⟨hle', heq'⟩ := ih hmore (hhigh hmore)
        rw [List.append_assoc, List.length_append, List.length_singleton] at hle' heq'
        rw [List.flatMap_cons, List.map_cons, List.countP_cons, Token.titleChar, Token.queryBytes,
          if_pos (counted_high (by omega))]
        refine ⟨by omega, fun htotal => ?_⟩
        exact absurd (heq' (by omega)).1 (by simp)
    | signed lo hlo =>
      obtain ⟨n, hn⟩ := Option.isSome_iff_exists.mp hlo
      obtain ⟨hlo', hn'⟩ := counted_hexDigit hn
      have hbytes : (Token.signed lo hlo :: ts).flatMap Token.queryBytes =
          String.utf8EncodeChar '%' ++ ([] ++ (String.utf8EncodeChar ' ' ++ ([] ++
            (String.utf8EncodeChar lo ++ ts.flatMap Token.queryBytes)))) := rfl
      have hnil : lossyChars [] = [] := lossyChars.eq_def []
      rw [hbytes, lossyChars_char, lossyChars_char, lossyChars_char, hnil, List.nil_append,
        List.nil_append, List.countP_append, List.countP_cons, List.countP_cons, List.countP_cons,
        List.map_cons, List.countP_cons, Token.titleChar]
      have hpercent : counted '%' = false ∧ counted ' ' = false := by decide
      simp only [hn, Option.get_some, hlo', hn', hpercent.1, hpercent.2, Bool.false_eq_true,
        if_true, if_false]
      exact ⟨by omega, fun htotal => by omega⟩

theorem lossyChars_same_iff : lossyChars (ts.flatMap Token.queryBytes) = ts.map Token.titleChar ↔
    ∀ t ∈ ts, t.Same := by
  constructor
  · intro h
    have hnone : ∀ b ∈ ([] : List UInt8), 128 ≤ b.toNat := nofun
    refine ((countP_lt hnone).2 ?_).2
    rw [List.nil_append, h]
    rfl
  · exact lossyChars_same

end Tokens

section Agreement

/-- What may follow a `%`. -/
def Follows (cs : List Char) : Prop :=
  ∀ hi lo post, cs = hi :: lo :: post → (hexDigit lo).isSome → hi ≠ '+' ∧ ∀ n ∈ hexDigit hi, n < 8

theorem percentsAgree_cons : PercentsAgree (c :: cs) ↔
    (c = '%' → TwoFit cs ∧ Follows cs) ∧ PercentsAgree cs := by
  unfold PercentsAgree
  rw [percentsFit_cons]
  constructor
  · rintro ⟨⟨hc, hfit⟩, h⟩
    refine ⟨fun hpercent => ⟨hc hpercent, ?_⟩, hfit, ?_⟩
    · rintro hi lo post rfl
      exact h [] hi lo post (by rw [hpercent]; rfl)
    · rintro pre hi lo post rfl
      exact h (c :: pre) hi lo post rfl
  · rintro ⟨hc, hfit, h⟩
    refine ⟨⟨fun hpercent => (hc hpercent).1, hfit⟩, ?_⟩
    intro pre hi lo post hraw
    cases pre with
    | nil =>
      obtain ⟨rfl, rfl⟩ := List.cons.inj hraw
      exact (hc rfl).2 hi lo post rfl
    | cons d pre =>
      obtain ⟨rfl, rfl⟩ := List.cons.inj hraw
      exact h pre hi lo post rfl

theorem percentsAgree_plain (hc : c ≠ '%') : PercentsAgree (c :: cs) ↔ PercentsAgree cs := by
  rw [percentsAgree_cons]
  simp [hc]

/-- Token by token. -/
theorem percentsAgree_iff (hfit : PercentsFit raw) :
    PercentsAgree raw ↔ ∀ t ∈ tokens raw, t.Same := by
  have hpair : ∀ {hi lo post}, Follows (hi :: lo :: post) ↔
      ((hexDigit lo).isSome → hi ≠ '+' ∧ ∀ n ∈ hexDigit hi, n < 8) := by
    intro hi lo post
    constructor
    · intro h
      exact h hi lo post rfl
    · rintro h _ _ _ ⟨⟩
      exact h
  fun_induction tokens raw
  case case1 =>
    refine iff_of_true ⟨hfit, ?_⟩ nofun
    intro pre hi lo post h
    simp at h
  case case2 cs ih =>
    have hrest : PercentsAgree cs ↔ ∀ t ∈ tokens cs, t.Same :=
      ih ((percentsFit_plain (by decide)).mp hfit)
    rw [percentsAgree_plain (by decide), hrest, List.forall_mem_cons, and_iff_right]
    trivial
  case case3 hi lo cs hlo n hhi ih =>
    obtain ⟨l, hl⟩ := Option.isSome_iff_exists.mp hlo
    obtain ⟨-, hn, hne, hplus⟩ := hexDigit_eq_some hhi
    obtain ⟨-, hlt, hne', -⟩ := hexDigit_eq_some hl
    obtain ⟨htwo, hrest⟩ := percentsFit_cons.mp hfit
    rw [percentsFit_plain hne, percentsFit_plain hne'] at hrest
    have hrest : PercentsAgree cs ↔ ∀ t ∈ tokens cs, t.Same := ih hrest
    rw [percentsAgree_cons, percentsAgree_plain hne, percentsAgree_plain hne', hrest,
      List.forall_mem_cons, hpair]
    have hsame : (Token.code (n * 16 + (hexDigit lo).get hlo).toUInt8).Same ↔ n < 8 := by
      simp only [Token.Same, hl, Option.get_some]
      rw [Nat.toUInt8_eq, UInt8.toNat_ofNat', Nat.mod_eq_of_lt (by omega)]
      omega
    rw [hsame]
    simp [htwo, hlo, hhi, hplus]
  case case4 lo cs hlo hhi ih =>
    rw [percentsAgree_cons, hpair]
    refine iff_of_false ?_ ?_
    · rintro ⟨h, -⟩
      exact ((h rfl).2 hlo).1 rfl
    · intro h
      exact h _ List.mem_cons_self
  case case5 hi lo cs hlo hhi hplus ih =>
    obtain ⟨htwo, hrest⟩ := percentsFit_cons.mp hfit
    have hrest : PercentsAgree (hi :: lo :: cs) ↔ ∀ t ∈ tokens (hi :: lo :: cs), t.Same := ih hrest
    rw [percentsAgree_cons, hrest, List.forall_mem_cons, hpair]
    simp [htwo, hhi, hplus, Token.Same]
  case case6 hi lo cs hlo ih =>
    obtain ⟨htwo, hrest⟩ := percentsFit_cons.mp hfit
    have hrest : PercentsAgree (hi :: lo :: cs) ↔ ∀ t ∈ tokens (hi :: lo :: cs), t.Same := ih hrest
    rw [percentsAgree_cons, hrest, List.forall_mem_cons, hpair]
    simp [htwo, hlo, Token.Same]
  case case7 c cs hplus hshort ih =>
    obtain ⟨htwo, hrest⟩ := percentsFit_cons.mp hfit
    have hrest : PercentsAgree cs ↔ ∀ t ∈ tokens cs, t.Same := ih hrest
    rw [percentsAgree_cons, hrest, List.forall_mem_cons]
    have hfollows : c = '%' → Follows cs := by
      intro hc hi lo post hcs
      exact (hshort hi lo post hc hcs).elim
    simp only [Token.Same, true_and, and_iff_right_iff_imp]
    intro _ hc
    exact ⟨htwo hc, hfollows hc⟩

end Agreement

/-- The two decoders agree on exactly these texts; on others they differ, or one of them panics. -/
theorem decoders_agree_iff (raw : List Char) :
    percentDecode raw = .ok (Utils.percentDecode raw).toList ↔ PercentsAgree raw := by
  have hquery : (Utils.percentDecode raw).toList =
      lossyChars ((tokens raw).flatMap Token.queryBytes) := by
    rw [Utils.percentDecode, fromUtf8Lossy, String.toList_ofList, bytes_ofList,
      percentDecodeBytes_eq]
  rw [hquery]
  constructor
  · intro h
    have hfit : PercentsFit raw := (percentDecodeFrom_ok_iff standsAt_zero).mp ⟨_, h⟩
    rw [percentDecode, percentDecodeFrom_eq standsAt_zero hfit, Except.ok.injEq,
      List.nil_append] at h
    exact (percentsAgree_iff hfit).mpr (lossyChars_same_iff.mp h.symm)
  · intro h
    rw [percentDecode, percentDecodeFrom_eq standsAt_zero h.1, List.nil_append,
      lossyChars_same_iff.mpr ((percentsAgree_iff h.1).mp h)]

/-- An `é` escaped as its two bytes is two characters in a title. -/
theorem escaped_bytes_differ :
    percentDecode "%C3%A9".toList ≠ .ok (Utils.percentDecode "%C3%A9".toList).toList := by
  have htitle : percentDecode "%C3%A9".toList = .ok [Char.ofNat 0xC3, Char.ofNat 0xA9] := by
    decide +kernel
  have hquery : (Utils.percentDecode "%C3%A9".toList).toList = ['é'] := by decide +kernel
  rw [htitle, hquery]
  decide

end PlainRs.Dlna
