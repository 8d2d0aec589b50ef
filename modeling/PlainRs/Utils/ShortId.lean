import PlainRs.Base.Checked

/-! `utils/shortid.rs`: 16 bytes as a number in base 57, written with 22 characters. -/
namespace PlainRs.ShortId

open Checked

def alphabet : List Char :=
  ['2', '3', '4', '5', '6', '7', '8', '9', 'A', 'B', 'C', 'D', 'E', 'F', 'G', 'H', 'J', 'K', 'L',
    'M', 'N', 'P', 'Q', 'R', 'S', 'T', 'U', 'V', 'W', 'X', 'Y', 'Z', 'a', 'b', 'c', 'd', 'e', 'f',
    'g', 'h', 'i', 'j', 'k', 'm', 'n', 'o', 'p', 'q', 'r', 's', 't', 'u', 'v', 'w', 'x', 'y', 'z']

/-- The loop over the digits, least first: the new digits and the carry that is left. -/
def shiftDigits : UInt32 → List UInt32 → List UInt32 × UInt32
  | carry, [] => ([], carry)
  | carry, digit :: num =>
    let v := digit <<< 8 ||| carry
    let (rest, left) := shiftDigits (v / 57) num
    (v % 57 :: rest, left)

/-- The digits that are pushed for the carry. -/
def pushCarry (carry : UInt32) : List UInt32 :=
  if carry = 0 then [] else carry % 57 :: pushCarry (carry / 57)
termination_by carry.toNat
decreasing_by
  have hpos : carry.toNat ≠ 0 := fun h0 => ‹¬ carry = 0› (UInt32.toNat_inj.mp h0)
  rw [UInt32.toNat_div]
  exact Nat.div_lt_self (Nat.pos_of_ne_zero hpos) (by decide)

def pushByte (num : List UInt32) (b : UInt8) : List UInt32 :=
  let (digits, carry) := shiftDigits b.toUInt32 num
  digits ++ pushCarry carry

/-- The digits of the number that the bytes are read as, least first. -/
def digitsOf (uuidBytes : List UInt8) : List UInt32 := uuidBytes.foldl pushByte [0]

/-- All characters are ASCII, so that they are counted as the bytes are. -/
def encode (uuidBytes : List UInt8) : Checked (List Char) := do
  let encoded ← (digitsOf uuidBytes).reverse.mapM fun d => get alphabet d.toNat
  let pad ← get alphabet 0
  pure (if encoded.length < 22 then List.replicate (22 - encoded.length) pad ++ encoded
    else encoded)

/-- The digits and carries that the loop puts together. -/
def shifted : UInt32 → List UInt32 → List (UInt32 × UInt32)
  | _, [] => []
  | carry, digit :: num => (digit, carry) :: shifted ((digit <<< 8 ||| carry) / 57) num

variable {num : List UInt32} {carry digit : UInt32} {b : UInt8} {bs bs' : List UInt8}

section Digits

/-- The number with these digits, least first. -/
def value (num : List UInt32) : ℕ := Nat.ofDigits 57 (num.map UInt32.toNat)

/-- The digits are digits. -/
def Small (num : List UInt32) : Prop := ∀ d ∈ num, d.toNat < 57

theorem value_cons (digit : UInt32) (num : List UInt32) :
    value (digit :: num) = digit.toNat + 57 * value num := by
  simp [value, Nat.ofDigits_cons]

theorem value_append (num rest : List UInt32) :
    value (num ++ rest) = value num + 57 ^ num.length * value rest := by
  simp [value, Nat.ofDigits_append]

/-- The carry stands below the shifted digit. -/
theorem or_eq_add (hd : digit.toNat < 57) (hc : carry.toNat < 256) :
    (digit <<< 8 ||| carry).toNat = 256 * digit.toNat + carry.toNat := by
  have hshift : (digit <<< 8).toNat = digit.toNat <<< 8 := by
    rw [UInt32.toNat_shiftLeft]
    simp only [Nat.shiftLeft_eq]
    refine Nat.mod_eq_of_lt ?_
    have height : (8 : UInt32).toNat % 32 = 8 := by decide
    rw [height]
    omega
  rw [UInt32.toNat_or, hshift, ← Nat.shiftLeft_add_eq_or_of_lt hc, Nat.shiftLeft_eq]
  omega

theorem carry_lt (hd : digit.toNat < 57) (hc : carry.toNat < 256) :
    ((digit <<< 8 ||| carry) / 57).toNat < 256 := by
  rw [UInt32.toNat_div, or_eq_add hd hc]
  have h57 : (57 : UInt32).toNat = 57 := rfl
  rw [h57]
  omega

theorem shiftDigits_cons (carry digit : UInt32) (num : List UInt32) :
    shiftDigits carry (digit :: num) =
      ((digit <<< 8 ||| carry) % 57 :: (shiftDigits ((digit <<< 8 ||| carry) / 57) num).1,
        (shiftDigits ((digit <<< 8 ||| carry) / 57) num).2) := rfl

/-- What the loop over the digits does to the number. -/
theorem shiftDigits_spec (hnum : Small num) (hc : carry.toNat < 256) :
    Small (shiftDigits carry num).1 ∧ (shiftDigits carry num).1.length = num.length ∧
      (shiftDigits carry num).2.toNat < 256 ∧
      value (shiftDigits carry num).1 + 57 ^ num.length * (shiftDigits carry num).2.toNat =
        256 * value num + carry.toNat := by
  induction num generalizing carry with
  | nil => exact ⟨nofun, rfl, hc, by simp [shiftDigits, value]⟩
  | cons digit num ih =>
    have hd := hnum digit List.mem_cons_self
    obtain ⟨hsmall, hlen, hleft, hvalue⟩ :=
      ih (fun d hd => hnum d (List.mem_cons_of_mem _ hd)) (carry_lt hd hc)
    have hv := or_eq_add hd hc
    have h57 : (57 : UInt32).toNat = 57 := rfl
    rw [shiftDigits_cons]
    refine ⟨?_, by simpa using hlen, hleft, ?_⟩
    · rintro d (_ | ⟨_, hmem⟩)
      · rw [UInt32.toNat_mod, h57]
        exact Nat.mod_lt _ (by omega)
      · exact hsmall d hmem
    · dsimp only
      rw [value_cons, value_cons, List.length_cons, pow_succ', UInt32.toNat_mod, h57, hv]
      rw [UInt32.toNat_div, h57, hv] at hvalue
      rw [Nat.mul_assoc 57]
      omega

/-- In the loop the bitwise or is an addition. -/
theorem or_of_mem_shifted (hnum : Small num) (hc : carry.toNat < 256) :
    ∀ p ∈ shifted carry num, p.2.toNat < 256 ∧
      (p.1 <<< 8 ||| p.2).toNat = 256 * p.1.toNat + p.2.toNat := by
  induction num generalizing carry with
  | nil => exact nofun
  | cons digit num ih =>
    have hd := hnum digit List.mem_cons_self
    rintro p (_ | ⟨_, hp⟩)
    · exact ⟨hc, or_eq_add hd hc⟩
    · exact ih (fun d hd => hnum d (List.mem_cons_of_mem _ hd)) (carry_lt hd hc) p hp

/-- The digits that are pushed for a carry are those of its number. -/
theorem pushCarry_spec (carry : UInt32) : Small (pushCarry carry) ∧
    value (pushCarry carry) = carry.toNat ∧
      (carry ≠ 0 → 57 ^ ((pushCarry carry).length - 1) ≤ carry.toNat) := by
  induction carry using pushCarry.induct with
  | case1 =>
    rw [pushCarry, if_pos rfl]
    exact ⟨nofun, rfl, fun h => absurd rfl h⟩
  | case2 carry hne ih =>
    obtain ⟨hsmall, hvalue, hlen⟩ := ih
    have h57 : (57 : UInt32).toNat = 57 := rfl
    have hpos : carry.toNat ≠ 0 := fun h0 => hne (UInt32.toNat_inj.mp h0)
    rw [pushCarry, if_neg hne]
    refine ⟨?_, ?_, fun _ => ?_⟩
    · rintro d (_ | ⟨_, hmem⟩)
      · rw [UInt32.toNat_mod, h57]
        exact Nat.mod_lt _ (by omega)
      · exact hsmall d hmem
    · rw [value_cons, hvalue, UInt32.toNat_mod, UInt32.toNat_div, h57]
      omega
    · rw [List.length_cons, Nat.add_sub_cancel]
      by_cases hzero : carry / 57 = 0
      · rw [hzero, pushCarry, if_pos rfl, List.length_nil, pow_zero]
        omega
      · have hmore := hlen hzero
        have hsize : (pushCarry (carry / 57)).length ≠ 0 := by
          rw [pushCarry, if_neg hzero]
          exact Nat.succ_ne_zero _
        obtain ⟨k, hk⟩ := Nat.exists_eq_succ_of_ne_zero hsize
        rw [hk, Nat.succ_sub_one] at hmore
        rw [hk, pow_succ]
        rw [UInt32.toNat_div, h57] at hmore
        omega

/-- No digit too many: the number reaches the place of the first one. -/
structure Reading (num : List UInt32) (n : ℕ) : Prop where
  small : Small num
  value_eq : value num = n
  ne_nil : num ≠ []
  width : 57 ^ (num.length - 1) ≤ max 1 n

theorem reading_zero : Reading [0] 0 where
  small := by simp [Small]
  value_eq := by simp [value]
  ne_nil := List.cons_ne_nil _ _
  width := by simp

theorem Reading.pushByte {n : ℕ} (h : Reading num n) (b : UInt8) :
    Reading (pushByte num b) (256 * n + b.toNat) := by
  have hb : b.toUInt32.toNat < 256 := by simpa using b.toNat_lt
  obtain ⟨hsmall, hlen, hleft, hvalue⟩ := shiftDigits_spec h.small hb
  obtain ⟨hpush, hcarry, hwidth⟩ := pushCarry_spec (shiftDigits b.toUInt32 num).2
  have hbyte : b.toUInt32.toNat = b.toNat := by simp
  rw [h.value_eq, hbyte] at hvalue
  have hpos := List.length_pos_iff.mpr h.ne_nil
  refine ⟨?_, ?_, ?_, ?_⟩
  · intro d hd
    rcases List.mem_append.mp hd with hd | hd
    · exact hsmall d hd
    · exact hpush d hd
  · rw [ShortId.pushByte, value_append, hlen, hcarry, hvalue]
  · refine List.append_ne_nil_of_left_ne_nil ?_ _
    exact List.length_pos_iff.mp (hlen ▸ hpos)
  · rw [ShortId.pushByte, List.length_append, hlen]
    by_cases hzero : (shiftDigits b.toUInt32 num).2 = 0
    · rw [hzero, pushCarry, if_pos rfl, List.length_nil, Nat.add_zero]
      exact h.width.trans (max_le_max le_rfl (by omega))
    · -- The pushed digits stand above all the others.
      have hmore := hwidth hzero
      have hsize : (pushCarry (shiftDigits b.toUInt32 num).2).length ≠ 0 := by
        rw [pushCarry, if_neg hzero]
        exact Nat.succ_ne_zero _
      have hexp : num.length + (pushCarry (shiftDigits b.toUInt32 num).2).length - 1 =
          num.length + ((pushCarry (shiftDigits b.toUInt32 num).2).length - 1) := by omega
      rw [hexp, pow_add]
      refine ((Nat.mul_le_mul_left _ hmore).trans ?_).trans (le_max_right _ _)
      omega

/-- The number that the bytes are, most significant first. -/
def number (bs : List UInt8) : ℕ := Nat.ofDigits 256 (bs.reverse.map UInt8.toNat)

theorem number_concat (bs : List UInt8) (b : UInt8) :
    number (bs ++ [b]) = 256 * number bs + b.toNat := by
  simp [number, Nat.ofDigits_cons, Nat.add_comm]

/-- After any number of bytes the digits are those of the number read so far. -/
theorem reading (bs : List UInt8) : Reading (digitsOf bs) (number bs) := by
  induction bs using List.reverseRecOn with
  | nil => exact reading_zero
  | append_singleton bs b ih =>
    rw [digitsOf, List.foldl_append, number_concat]
    exact ih.pushByte b

theorem number_lt (bs : List UInt8) : number bs < 256 ^ bs.length := by
  have hlt := Nat.ofDigits_lt_base_pow_length (b := 256) (l := bs.reverse.map UInt8.toNat)
    (by omega) ?_
  · simpa [number] using hlt
  · intro x hx
    obtain ⟨b, -, rfl⟩ := List.mem_map.mp hx
    exact b.toNat_lt

theorem number_inj (hlen : bs.length = bs'.length) (h : number bs = number bs') : bs = bs' := by
  have hbytes : ∀ cs : List UInt8, ∀ x ∈ cs.reverse.map UInt8.toNat, x < 256 := by
    intro cs x hx
    obtain ⟨b, -, rfl⟩ := List.mem_map.mp hx
    exact b.toNat_lt
  have hmap := Nat.ofDigits_inj_of_len_eq (by omega) (by simpa using hlen) (hbytes bs)
    (hbytes bs') h
  have hinj : Function.Injective UInt8.toNat := fun _ _ => UInt8.toNat_inj.mp
  exact List.reverse_injective (List.map_injective_iff.mpr hinj hmap)

end Digits

section Ids

abbrev UuidBytes := {bs : List UInt8 // bs.length = 16}

theorem nodup_alphabet : alphabet.Nodup := by decide

/-- The number that an id stands for. -/
def idNumber (id : List Char) : ℕ := Nat.ofDigits 57 (id.reverse.map alphabet.idxOf)

theorem length_digitsOf_le (h : bs.length = 16) : (digitsOf bs).length ≤ 22 := by
  have hread := reading bs
  have hlt := number_lt bs
  have hpow : (256 : ℕ) ^ 16 < 57 ^ 22 := by norm_num
  rw [h] at hlt
  have hwidth : 57 ^ ((digitsOf bs).length - 1) < 57 ^ 22 :=
    hread.width.trans_lt (max_lt (by norm_num) (hlt.trans hpow))
  have hexp := (Nat.pow_lt_pow_iff_right (by omega)).mp hwidth
  omega

/-- The character of a digit. -/
theorem get_alphabet (hd : digit.toNat < 57) :
    ∃ c ∈ alphabet, get alphabet digit.toNat = .ok c ∧ alphabet.idxOf c = digit.toNat := by
  have hlt : digit.toNat < alphabet.length := hd
  refine ⟨alphabet[digit.toNat], List.getElem_mem hlt, ?_, nodup_alphabet.idxOf_getElem _ hlt⟩
  rw [Checked.get, List.getElem?_eq_getElem hlt]

/-- The characters of the digits. -/
theorem mapM_get (h : Small num) : ∃ cs : List Char,
    num.mapM (fun d => get alphabet d.toNat) = .ok cs ∧ (∀ c ∈ cs, c ∈ alphabet) ∧
      cs.map alphabet.idxOf = num.map UInt32.toNat := by
  induction num with
  | nil => exact ⟨[], rfl, nofun, rfl⟩
  | cons digit num ih =>
    obtain ⟨c, hc, hget, hidx⟩ := get_alphabet (h digit List.mem_cons_self)
    obtain ⟨cs, hcs, hmem, hmap⟩ := ih fun d hd => h d (List.mem_cons_of_mem _ hd)
    refine ⟨c :: cs, ?_, List.forall_mem_cons.mpr ⟨hc, hmem⟩, ?_⟩
    · rw [List.mapM_cons, hget, ok_bind, hcs]
      rfl
    · rw [List.map_cons, List.map_cons, hidx, hmap]

/-- An id has 22 characters, and it stands for the number of the bytes. -/
theorem encode_spec (h : bs.length = 16) : Spec (encode bs) fun id =>
    id.length = 22 ∧ (∀ c ∈ id, c ∈ alphabet) ∧ idNumber id = number bs := by
  have hread := reading bs
  have hle := length_digitsOf_le h
  have hsmall : Small (digitsOf bs).reverse := fun d hd => hread.small d (List.mem_reverse.mp hd)
  obtain ⟨cs, hcs, hmem, hmap⟩ := mapM_get hsmall
  have hlen : cs.length = (digitsOf bs).length := by
    have hsize := congrArg List.length hmap
    simpa using hsize
  have hpad : get alphabet 0 = .ok '2' := rfl
  rw [encode, hcs, ok_bind, hpad, ok_bind]
  have hwhole : (if cs.length < 22 then List.replicate (22 - cs.length) '2' ++ cs else cs) =
      List.replicate (22 - cs.length) '2' ++ cs := by
    split
    · rfl
    · next hge =>
      have hzero : 22 - cs.length = 0 := by omega
      rw [hzero, List.replicate_zero, List.nil_append]
  rw [hwhole]
  refine .pure ⟨?_, ?_, ?_⟩
  · rw [List.length_append, List.length_replicate]
    omega
  · intro c hc
    rcases List.mem_append.mp hc with hc | hc
    · rw [List.eq_of_mem_replicate hc]
      simp [alphabet]
    · exact hmem c hc
  · have hzero : alphabet.idxOf '2' = 0 := by decide
    rw [idNumber, List.reverse_append, List.map_append, List.reverse_replicate, List.map_replicate,
      hzero, List.map_reverse, hmap, List.map_reverse, List.reverse_reverse,
      Nat.ofDigits_append_replicate_zero, ← hread.value_eq, value]

/-- Ids are of one width and different for different bytes, and in the loop no carry reaches the
digits, so that the bitwise or adds. -/
theorem encode_faithful (a b : UuidBytes) :
    (∃ id, encode a = .ok id ∧ id.length = 22 ∧ ∀ c ∈ id, c ∈ alphabet) ∧
      (encode a = encode b → a = b) ∧
      ∀ bs x, ∀ p ∈ shifted (UInt8.toUInt32 x) (digitsOf bs),
        p.2.toNat < 256 ∧ (p.1 <<< 8 ||| p.2).toNat = 256 * p.1.toNat + p.2.toNat := by
  obtain ⟨id, hid, hlen, hmem, hnumber⟩ := encode_spec a.property
  refine ⟨⟨id, hid, hlen, hmem⟩, ?_, ?_⟩
  · intro heq
    obtain ⟨id', hid', -, -, hnumber'⟩ := encode_spec b.property
    obtain rfl : id = id' := Except.ok.inj (hid.symm.trans (heq.trans hid'))
    exact Subtype.ext (number_inj (a.property.trans b.property.symm) (hnumber.symm.trans hnumber'))
  · intro bs x
    exact or_of_mem_shifted (reading bs).small (by simpa using x.toNat_lt)

end Ids

end PlainRs.ShortId
