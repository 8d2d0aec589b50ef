import Mathlib.Data.List.DropRight
import PlainRs.Utils.Http

/-! Texts without white space at their ends. -/
namespace PlainRs.Utils

variable {p : List Char} {c : Char}

theorem trimmed_eq_rdropWhile (p : List Char) :
    trimmed p = (p.dropWhile Text.isWhitespace).rdropWhile Text.isWhitespace := by
  rw [trimmed, Text.trim, String.toList_ofList, String.toList_ofList, List.rdropWhile]

theorem trimmed_eq_nil_iff : trimmed p = [] ↔ ∀ c ∈ p, Text.isWhitespace c = true := by
  rw [trimmed_eq_rdropWhile, List.rdropWhile_eq_nil_iff]
  constructor
  · intro h c hc
    rw [← List.takeWhile_append_dropWhile (p := Text.isWhitespace) (l := p)] at hc
    rcases List.mem_append.mp hc with hc | hc
    · exact List.mem_takeWhile_imp hc
    · exact h c hc
  · intro h c hc
    exact h c ((List.dropWhile_sublist _).mem hc)

theorem trimmed_sublist (p : List Char) : (trimmed p).Sublist p := by
  rw [trimmed_eq_rdropWhile]
  exact (List.rdropWhile_prefix _ _).sublist.trans (List.dropWhile_sublist _)

theorem head?_trimmed (hc : c ∈ (trimmed p).head?) : Text.isWhitespace c = false := by
  rw [trimmed_eq_rdropWhile] at hc
  obtain ⟨tail, htail⟩ := List.rdropWhile_prefix Text.isWhitespace (p.dropWhile Text.isWhitespace)
  have hfront : (p.dropWhile Text.isWhitespace).head? = some c := by
    rw [← htail]
    cases h : (p.dropWhile Text.isWhitespace).rdropWhile Text.isWhitespace with
    | nil => simp [h] at hc
    | cons d ds => simpa [h] using hc
  have hnot := List.head?_dropWhile_not Text.isWhitespace p
  rw [hfront] at hnot
  simpa using hnot

theorem getLast?_trimmed (hc : c ∈ (trimmed p).getLast?) : Text.isWhitespace c = false := by
  rw [trimmed_eq_rdropWhile] at hc
  have hne : (p.dropWhile Text.isWhitespace).rdropWhile Text.isWhitespace ≠ [] := by
    intro h
    rw [h] at hc
    cases hc
  have hlast := List.rdropWhile_last_not Text.isWhitespace _ hne
  rw [List.getLast?_eq_some_getLast hne, Option.mem_some_iff] at hc
  rw [← hc]
  simpa using hlast

theorem trimmed_eq_self (hhead : ∀ c ∈ p.head?, Text.isWhitespace c = false)
    (hlast : ∀ c ∈ p.getLast?, Text.isWhitespace c = false) : trimmed p = p := by
  have hfront : p.dropWhile Text.isWhitespace = p := by
    cases p with
    | nil => rfl
    | cons c p => rw [List.dropWhile_cons_of_neg (by simp [hhead c rfl])]
  rw [trimmed_eq_rdropWhile, hfront, List.rdropWhile_eq_self_iff]
  intro hne
  simp [hlast _ (List.getLast?_eq_some_getLast hne)]

theorem trimmed_trimmed (p : List Char) : trimmed (trimmed p) = trimmed p :=
  trimmed_eq_self (fun _ => head?_trimmed) fun _ => getLast?_trimmed

end PlainRs.Utils
