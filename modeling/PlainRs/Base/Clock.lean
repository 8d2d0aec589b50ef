import PlainRs.Base.Text

/-! Millisecond clocks as `i64`: written, read back, and the distance of two readings. -/
namespace Text

/-- A run of digits is read as what it stands for. -/
theorem natOfDigits_of_isDigit {cs : List Char} (hne : cs ≠ []) (h : ∀ c ∈ cs, c.isDigit = true) :
    natOfDigits cs = some (Nat.ofDigitChars 10 cs 0) := by
  have hfold : ∀ (cs : List Char) (a : Nat), (∀ c ∈ cs, c.isDigit = true) →
      cs.foldlM (fun acc c => if c.isDigit then some (acc * 10 + (c.toNat - 48)) else none) a =
        some (Nat.ofDigitChars 10 cs a) := by
    intro cs
    induction cs with
    | nil => intro a _; simp
    | cons c cs ih =>
      intro a h
      rw [List.foldlM_cons, if_pos (h c (by simp)), Nat.ofDigitChars_cons, Nat.mul_comm 10 a]
      exact ih _ fun x hx => h x (by simp [hx])
  rw [natOfDigits, if_neg hne]
  exact hfold cs 0 h

theorem natOfDigits_repr (n : Nat) : natOfDigits n.repr.toList = some n := by
  rw [Nat.toList_repr, natOfDigits_of_isDigit Nat.toDigits_ne_nil
    fun c hc => Nat.isDigit_of_mem_toDigits (by omega) (by omega) hc,
    Nat.ofDigitChars_ten_toDigits]

/-- A timestamp is read back as it was written. -/
theorem parseI64_toString (t : Int64) : parseI64 (toString t).toList = some t.toInt := by
  have hlo := t.le_toInt
  have hhi := t.toInt_lt
  have hstr : toString t = toString t.toInt := rfl
  rw [hstr, Int.toString_eq_repr]
  cases ht : t.toInt with
  | ofNat n =>
    rw [ht] at hhi
    have hdigit : ∀ c ∈ n.repr.toList, c.isDigit = true := by
      intro c hc
      rw [Nat.toList_repr] at hc
      exact Nat.isDigit_of_mem_toDigits (by omega) (by omega) hc
    show parseI64 n.repr.toList = _
    unfold parseI64
    split
    · next ds hds => exact absurd (hdigit '-' (by simp [hds])) (by decide)
    · next ds hds => exact absurd (hdigit '+' (by simp [hds])) (by decide)
    · have hn : n < 2 ^ 63 := by
        simp only [Int.ofNat_eq_natCast] at hhi
        omega
      rw [natOfDigits_repr, Option.bind_some, if_pos hn]
      rfl
  | negSucc n =>
    rw [ht] at hlo
    have hn : n + 1 ≤ 2 ^ 63 := by
      simp only [Int.negSucc_eq] at hlo
      omega
    have hrepr : (Int.negSucc n).repr.toList = '-' :: (n + 1).repr.toList := by
      simp [Int.repr]
    rw [hrepr, parseI64, natOfDigits_repr, Option.bind_some, if_pos hn]
    simp [Int.negSucc_eq]

end Text

namespace Clock

/-- A reading of a clock set after 1970 and far from where `i64` milliseconds wrap. -/
structure UnixMillis where
  ms : Nat
  lt : ms < 2 ^ 62

/-- `as_millis() as i64`. -/
def UnixMillis.toInt64 (t : UnixMillis) : Int64 := Int64.ofNat t.ms

/-- `(now - timestamp).abs() <= window`, with the arithmetic of `i64`. -/
def within (window now timestamp : Int64) : Bool := (now - timestamp).abs ≤ window

variable {t : UnixMillis} {a b w : Int64} {n : Nat}

theorem UnixMillis.toInt_toInt64 : t.toInt64.toInt = t.ms := by
  have := t.lt
  exact Int64.toInt_ofNat_of_lt (by omega)

theorem UnixMillis.toString_toInt64 : toString t.toInt64 = toString (t.ms : Int) := by
  show toString t.toInt64.toInt = _
  rw [UnixMillis.toInt_toInt64]

/-- Where the difference fits an `i64`, the distance is the real one. -/
theorem toInt_abs_sub (hlo : -2 ^ 63 < a.toInt - b.toInt) (hhi : a.toInt - b.toInt < 2 ^ 63) :
    (a - b).abs.toInt = |a.toInt - b.toInt| := by
  have hsub : (a - b).toInt = a.toInt - b.toInt := by
    rw [Int64.toInt_sub, Int.bmod_eq_of_le (by norm_num; omega) (by norm_num; omega)]
  have hne : (a - b).toBitVec ≠ BitVec.intMin 64 := by
    intro h
    have := congrArg BitVec.toInt h
    rw [Int64.toInt_toBitVec, hsub] at this
    norm_num [BitVec.toInt_intMin] at this
    omega
  have habs : (a - b).abs.toInt = (a - b).toBitVec.abs.toInt := rfl
  rw [habs, BitVec.toInt_abs_eq_natAbs, if_neg hne, Int64.toInt_toBitVec, hsub, Int.abs_eq_natAbs]

theorem within_iff (hlo : -2 ^ 63 < a.toInt - b.toInt) (hhi : a.toInt - b.toInt < 2 ^ 63) :
    within w a b = true ↔ |a.toInt - b.toInt| ≤ w.toInt := by
  rw [within, decide_eq_true_eq, Int64.le_iff_toInt_le, toInt_abs_sub hlo hhi]

end Clock
