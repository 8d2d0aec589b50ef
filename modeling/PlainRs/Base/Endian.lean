import PlainRs.Base.Checked

/-! Numbers as bytes, the least or the greatest byte first, fields of bits joined by "or", and
reads at places where the bytes are known. -/
namespace Checked

variable {α : Type} {data l : List α} {i n k : ℕ} {a : α}

theorem le_length_of_take (h : (data.drop i).take n = l) (hn : l.length = n) (hpos : 0 < n) :
    i + n ≤ data.length := by
  rw [← h, List.length_take, List.length_drop] at hn
  omega

theorem get_of_take (h : (data.drop i).take n = l) (hk : l[k]? = some a) :
    get data (i + k) = .ok a := by
  rw [← h, List.getElem?_take] at hk
  split at hk
  · rw [get, ← List.getElem?_drop, hk]
  · cases hk

theorem get_of_drop (h : data.drop i = l) (hk : l[k]? = some a) : get data (i + k) = .ok a := by
  rw [get, ← List.getElem?_drop, h, hk]

theorem slice_of_take (h : (data.drop i).take n = l) (hn : l.length = n) (hpos : 0 < n) :
    slice data i (i + n) = .ok l := by
  have hle := le_length_of_take h hn hpos
  rw [slice, if_pos ⟨Nat.le_add_right i n, hle⟩, Nat.add_sub_cancel_left, h]

end Checked

namespace Endian

def leBytes : ℕ → ℕ → List UInt8
  | 0, _ => []
  | width + 1, n => n.toUInt8 :: leBytes width (n / 256)

def leNat : List UInt8 → ℕ
  | [] => 0
  | b :: bs => b.toNat + 256 * leNat bs

def beBytes (width n : ℕ) : List UInt8 := (leBytes width n).reverse

def beNat (bs : List UInt8) : ℕ := leNat bs.reverse

variable {width n a b c k : ℕ} {bs : List UInt8}

@[simp] theorem length_leBytes (width n : ℕ) : (leBytes width n).length = width := by
  induction width generalizing n with
  | zero => rfl
  | succ width ih => simp [leBytes, ih]

@[simp] theorem length_beBytes (width n : ℕ) : (beBytes width n).length = width := by
  simp [beBytes]

theorem leNat_leBytes (h : n < 256 ^ width) : leNat (leBytes width n) = n := by
  induction width generalizing n with
  | zero =>
    rw [pow_zero] at h
    rw [leBytes, leNat]
    omega
  | succ width ih =>
    have hrest : n / 256 < 256 ^ width := by
      apply Nat.div_lt_of_lt_mul
      rw [← pow_succ']
      exact h
    have hbyte : n.toUInt8.toNat = n % 256 := UInt8.toNat_ofNat'
    rw [leBytes, leNat, ih hrest, hbyte]
    omega

theorem beNat_beBytes (h : n < 256 ^ width) : beNat (beBytes width n) = n := by
  rw [beNat, beBytes, List.reverse_reverse, leNat_leBytes h]

theorem leNat_lt (bs : List UInt8) : leNat bs < 256 ^ bs.length := by
  induction bs with
  | nil => simp [leNat]
  | cons b bs ih =>
    have hb := b.toNat_lt
    rw [leNat, List.length_cons, pow_succ]
    omega

theorem beNat_lt (bs : List UInt8) : beNat bs < 256 ^ bs.length := by
  have h := leNat_lt bs.reverse
  rwa [List.length_reverse] at h

theorem leBytes_leNat (bs : List UInt8) : leBytes bs.length (leNat bs) = bs := by
  induction bs with
  | nil => rfl
  | cons b bs ih =>
    have hb := b.toNat_lt
    have hlow : (b.toNat + 256 * leNat bs).toUInt8 = b := by
      refine UInt8.toNat_inj.mp ?_
      have hmod : (b.toNat + 256 * leNat bs).toUInt8.toNat = (b.toNat + 256 * leNat bs) % 256 :=
        UInt8.toNat_ofNat'
      omega
    have hrest : (b.toNat + 256 * leNat bs) / 256 = leNat bs := by omega
    rw [List.length_cons, leNat, leBytes, hlow, hrest, ih]

theorem beBytes_beNat (h : bs.length = width) : beBytes width (beNat bs) = bs := by
  rw [beBytes, beNat, ← h, ← List.length_reverse, leBytes_leNat, List.reverse_reverse]

/-- A field below bit `k` and one from there on. -/
theorem or_shiftLeft (h : a < 2 ^ k) : a ||| b <<< k = a + b * 2 ^ k := by
  rw [Nat.or_comm, ← Nat.shiftLeft_add_eq_or_of_lt h, Nat.shiftLeft_eq, Nat.add_comm]

/-- Setting the lowest bit of an even field adds one to it, of an odd one nothing. -/
theorem or_one_eq : a ||| 1 = 2 * (a / 2) + 1 := by
  have h : a = (a / 2) <<< 1 + a % 2 := by
    rw [Nat.shiftLeft_eq]
    omega
  have hbit : a % 2 < 2 ^ 1 := by omega
  have hor : a % 2 ||| 1 = 1 := by
    rcases Nat.mod_two_eq_zero_or_one a with h | h <;> rw [h] <;> rfl
  have hlow : (a / 2) <<< 1 ||| 1 = (a / 2) <<< 1 + 1 :=
    (Nat.shiftLeft_add_eq_or_of_lt (by omega) _).symm
  rw [show a ||| 1 = ((a / 2) <<< 1 ||| a % 2) ||| 1 by
    rw [← Nat.shiftLeft_add_eq_or_of_lt hbit, ← h], Nat.or_assoc, hor, hlow, Nat.shiftLeft_eq]
  omega

end Endian
