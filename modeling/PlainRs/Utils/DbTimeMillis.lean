import PlainRs.Utils.DbTimeOrder

/-! Timestamps in milliseconds, as the library tables keep them, and the order of their texts. -/
namespace PlainRs.Utils

open Digits

variable {millis millis' : ℕ}

def unixMillisToIso8601 (millis : ℕ) : String :=
  let (date, hh, mm, ss) := splitUnixSecs (millis / 1000)
  s!"{date}T{padded 2 hh}:{padded 2 mm}:{padded 2 ss}.{padded 3 (millis % 1000)}Z"

/-- The clock reads `millis` milliseconds since the epoch. -/
def nowIsoMillis (millis : ℕ) : String := unixMillisToIso8601 (millis % 2 ^ 64)

theorem unixMillisToIso8601_toList (h : millis < 253402300800000) :
    (unixMillisToIso8601 millis).toList =
      stampOfSecs (millis / 1000) ++ '.' :: (fixed 3 (millis % 1000) ++ ['Z']) := by
  have hstr : ∀ s : String, toString s = s := fun _ => rfl
  have hsecs := unixSecsToIso8601_toList (show millis / 1000 < 253402300800 by omega)
  rcases hsplit : splitUnixSecs (millis / 1000) with ⟨date, hh, mm, ss⟩
  simp only [unixSecsToIso8601, hsplit, hstr] at hsecs
  -- Both texts are the same up to the seconds.
  have hstamp : (s!"{date}T{padded 2 hh}:{padded 2 mm}:{padded 2 ss}").toList =
      stampOfSecs (millis / 1000) := by
    rw [← List.append_left_inj ['Z'], ← hsecs]
    simp [hstr]
  rw [← hstamp]
  simp only [unixMillisToIso8601, hsplit, hstr, String.toList_append,
    padded_toList (show 0 < 3 by omega) (show millis % 1000 < 10 ^ 3 by omega)]
  simp

/-- Up to the year 9999 a later millisecond has a later text. -/
theorem nowIsoMillis_lt (h : millis < millis') (hlast : millis' < 253402300800000) :
    nowIsoMillis millis < nowIsoMillis millis' := by
  rw [nowIsoMillis, nowIsoMillis, Nat.mod_eq_of_lt (by omega), Nat.mod_eq_of_lt (by omega),
    String.lt_iff, unixMillisToIso8601_toList hlast, unixMillisToIso8601_toList (h.trans hlast)]
  rcases Nat.lt_or_ge (millis / 1000) (millis' / 1000) with hsecs | hsecs
  · exact append_lt_append (stampOfSecs_lt hsecs (by omega)) (by simp)
  · have heq : millis / 1000 = millis' / 1000 := by omega
    rw [heq]
    refine List.append_left_lt (List.cons_lt_cons_iff.mpr (.inr ⟨rfl, ?_⟩))
    exact append_lt_append (fixed_lt (by omega) (by omega)) (by simp)

end PlainRs.Utils
