import Mathlib

/-! A bounded channel whose sends overwrite the oldest value, as its receivers see it. -/
namespace Broadcast

/-- The values kept, from position `first` on. -/
structure Channel (α : Type*) where
  capacity : Nat
  first : Nat
  kept : List α

/-- What a receiver gets: the value at its position, how many were overwritten before it came to
them, or nothing yet. -/
inductive Received (α : Type*)
  | value (v : α)
  | lagged (missed : Nat)
  | empty

namespace Channel

variable {α : Type*} {c : Channel α} {log : List α} {v : α} {next : Nat}

/-- The capacity is rounded up to a power of two. -/
def new (capacity : Nat) : Channel α := ⟨capacity.nextPowerOfTwo, 0, []⟩

def send (c : Channel α) (v : α) : Channel α :=
  if c.kept.length < c.capacity then { c with kept := c.kept ++ [v] }
  else { c with first := c.first + 1, kept := (c.kept ++ [v]).tail }

/-- A receiver at position `next`, and where it stands afterwards: one that was overtaken is told
so once and goes on with the oldest value kept. -/
def recv (c : Channel α) (next : Nat) : Received α × Nat :=
  if next < c.first then (.lagged (c.first - next), c.first)
  else match c.kept[next - c.first]? with
    | some v => (.value v, next + 1)
    | none => (.empty, next)

/-- The channel keeps the end of what was sent. -/
structure Holds (c : Channel α) (log : List α) : Prop where
  first : c.first = log.length - c.capacity
  kept : c.kept = log.drop c.first

theorem holds_new {capacity : Nat} : (new capacity : Channel α).Holds [] := by
  refine ⟨?_, rfl⟩
  simp [new]

@[simp] theorem capacity_send : (c.send v).capacity = c.capacity := by
  unfold send
  split <;> rfl

theorem Holds.send (h : c.Holds log) : (c.send v).Holds (log ++ [v]) := by
  have hlen : c.kept.length = log.length - c.first := by rw [h.kept, List.length_drop]
  have hfirst := h.first
  unfold Channel.send
  split
  · next hroom =>
    refine ⟨?_, ?_⟩
    · simp only [List.length_append, List.length_singleton]
      omega
    · dsimp only
      rw [h.kept, List.drop_append_of_le_length (by omega)]
  · next hfull =>
    refine ⟨?_, ?_⟩
    · simp only [List.length_append, List.length_singleton]
      omega
    · dsimp only
      rw [h.kept, ← List.drop_append_of_le_length (by omega), List.tail_drop]

theorem recv_lagged (h : next < c.first) : c.recv next = (.lagged (c.first - next), c.first) :=
  if_pos h

theorem Holds.recv_value (h : c.Holds log) (hn : c.first ≤ next) (hl : log[next]? = some v) :
    c.recv next = (.value v, next + 1) := by
  have hk : c.kept[next - c.first]? = some v := by
    rw [h.kept, List.getElem?_drop, Nat.add_sub_cancel' hn, hl]
  rw [recv, if_neg (Nat.not_lt.mpr hn), hk]

theorem Holds.recv_empty (h : c.Holds log) (hn : c.first ≤ next) (hl : log[next]? = none) :
    c.recv next = (.empty, next) := by
  have hk : c.kept[next - c.first]? = none := by
    rw [h.kept, List.getElem?_drop, Nat.add_sub_cancel' hn, hl]
  rw [recv, if_neg (Nat.not_lt.mpr hn), hk]

/-- A receiver is overtaken exactly when it is more than the capacity behind. -/
theorem Holds.lagging_iff (h : c.Holds log) : next < c.first ↔ next + c.capacity < log.length := by
  rw [h.first]
  omega

end Channel

end Broadcast
