import PlainRs.Utils.Base64
import PlainRs.Utils.Trimmed

/-! What a first run draws: the short id, the device's name and the label of its mDNS name. -/
namespace PlainRs.Prefs

open Utils

/-- `char::from_digit` in base 36. -/
def base36Digit (digit : ℕ) : Char :=
  if digit < 10 then Char.ofNat (48 + digit) else Char.ofNat (87 + digit)

/-- The digits of a number that is not zero, least first. -/
def base36Digits (n : ℕ) : List Char :=
  if n = 0 then [] else base36Digit (n % 36) :: base36Digits (n / 36)
termination_by n
decreasing_by exact Nat.div_lt_self (by omega) (by decide)

def encodeBase36 (n : UInt64) : String :=
  if n = 0 then "0" else String.ofList (base36Digits n.toNat).reverse

/-- The id of a random UUID, of whose text the first eight bytes are read as `n`. -/
def shortUuid (n : UInt64) : String := encodeBase36 n

theorem shortUuid_ne_empty (n : UInt64) : shortUuid n ≠ "" := by
  rw [shortUuid, encodeBase36]
  split
  · decide
  · next hn =>
    have hne : n.toNat ≠ 0 := fun h => hn (UInt64.toNat_inj.mp h)
    rw [base36Digits, if_neg hne]
    simp

/-- `trim_end_matches(".local")`, of a text read from its end. -/
def dropLocals : List Char → List Char
  | 'l' :: 'a' :: 'c' :: 'o' :: 'l' :: '.' :: cs => dropLocals cs
  | cs => cs

/-- `v.trim().trim_end_matches('.').trim_end_matches(".local")`. -/
def trimName (v : String) : String :=
  String.ofList (dropLocals ((trimmed v.toList).rdropWhile (· = '.')).reverse).reverse

/-- `default_device_name`, for the host name and the id that is drawn when it is empty. -/
def defaultDeviceName (host : String) (n : UInt64) : String :=
  if trimName host = "" then "Plain-" ++ shortUuid n else trimName host

def mdnsHostnameChars : List Char := "abcdefghjkmnpqrstuwxyz".toList

def randomMdnsHostnameLabel (draws : Fin 22 × Fin 22) : String :=
  String.ofList [mdnsHostnameChars.getD draws.1 'a', mdnsHostnameChars.getD draws.2 'a']

/-- A host name without white space and without two dots in a row. -/
def PlainHost (host : String) : Prop :=
  (∀ c ∈ host.toList, Text.isWhitespace c = false) ∧ ¬ ['.', '.'] <:+: host.toList

theorem dropLocals_spec (cs : List Char) : dropLocals (dropLocals cs) = dropLocals cs ∧
    (dropLocals cs = cs ∨ '.' :: dropLocals cs <:+ cs) := by
  fun_induction dropLocals cs with
  | case1 cs ih =>
    refine ⟨ih.1, .inr ?_⟩
    have hsuffix : '.' :: cs <:+ 'l' :: 'a' :: 'c' :: 'o' :: 'l' :: '.' :: cs :=
      ⟨['l', 'a', 'c', 'o', 'l'], rfl⟩
    rcases ih.2 with h | h
    · rwa [h]
    · exact h.trans ((List.suffix_cons _ _).trans hsuffix)
  | case2 cs hcs => exact ⟨dropLocals.eq_2 cs hcs, .inl rfl⟩

/-- A plain host's name without its dot and its `.local` has neither again. -/
theorem trimName_trimName {host : String} (h : PlainHost host) :
    trimName (trimName host) = trimName host := by
  have htrim : trimmed host.toList = host.toList := by
    refine trimmed_eq_self ?_ ?_
    · intro c hc
      exact h.1 c (List.mem_of_mem_head? hc)
    · intro c hc
      exact h.1 c (List.mem_of_mem_getLast? hc)
  generalize hdots : host.toList.rdropWhile (· = '.') = front
  have hfront : front <+: host.toList := by
    rw [← hdots]
    exact List.rdropWhile_prefix _ _
  have hname : trimName host = String.ofList (dropLocals front.reverse).reverse := by
    rw [trimName, htrim, hdots]
  obtain ⟨hidem, hcases⟩ := dropLocals_spec front.reverse
  generalize dropLocals front.reverse = name at hname hidem hcases
  have hinit : name.reverse <+: front := by
    rw [← List.reverse_suffix, List.reverse_reverse]
    rcases hcases with h | h
    · rw [h]
    · exact (List.suffix_cons _ _).trans h
  have hblank : trimmed name.reverse = name.reverse := by
    have hmem : ∀ c ∈ name.reverse, Text.isWhitespace c = false := fun c hc =>
      h.1 c ((hinit.trans hfront).subset hc)
    refine trimmed_eq_self ?_ ?_
    · intro c hc
      exact hmem c (List.mem_of_mem_head? hc)
    · intro c hc
      exact hmem c (List.mem_of_mem_getLast? hc)
  have hdot : name.reverse.rdropWhile (· = '.') = name.reverse := by
    rw [List.rdropWhile_eq_self_iff]
    intro hne hlast
    have hlast : name.reverse.getLast hne = '.' := by
      simpa using hlast
    rcases hcases with hsame | hlocal
    · -- nothing was dropped after the dots
      have hrev : name.reverse = front := by
        rw [hsame, List.reverse_reverse]
      subst hrev
      have hnot := List.rdropWhile_last_not (· = '.') host.toList (by rwa [hdots])
      simp only [hdots, hlast, decide_true, not_true_eq_false] at hnot
    · -- the dot of the name and that of `.local`
      refine h.2 ?_
      have hdotted : name.reverse ++ ['.'] <+: front := by
        rw [← List.reverse_suffix]
        simpa using hlocal
      have hends : ['.', '.'] <:+ name.reverse ++ ['.'] := by
        rw [← List.dropLast_append_getLast hne, hlast]
        exact ⟨name.reverse.dropLast, by simp⟩
      exact hends.isInfix.trans (hdotted.trans hfront).isInfix
  rw [hname, trimName, String.toList_ofList, hblank, hdot, List.reverse_reverse, hidem]

/-- With two dots in a row, what is left ends in a dot again. -/
example : trimName "nas..local" = "nas." ∧ trimName "nas." = "nas" := by decide

theorem defaultDeviceName_ne_empty (host : String) (n : UInt64) : defaultDeviceName host n ≠ "" := by
  rw [defaultDeviceName]
  split
  · intro h
    have hlen := congrArg String.length h
    simp at hlen
  · assumption

theorem trimName_eq_self {name : String}
    (h : ∀ c ∈ name.toList, Text.isWhitespace c = false ∧ c ≠ '.') : trimName name = name := by
  have htrim : trimmed name.toList = name.toList := by
    refine trimmed_eq_self ?_ ?_
    · intro c hc
      exact (h c (List.mem_of_mem_head? hc)).1
    · intro c hc
      exact (h c (List.mem_of_mem_getLast? hc)).1
  have hdots : name.toList.rdropWhile (· = '.') = name.toList := by
    rw [List.rdropWhile_eq_self_iff]
    intro hne
    simpa using (h _ (List.getLast_mem hne)).2
  have hlocal : dropLocals name.toList.reverse = name.toList.reverse := by
    rcases (dropLocals_spec name.toList.reverse).2 with heq | hdot
    · exact heq
    · have hmem := hdot.subset List.mem_cons_self
      exact absurd rfl (h '.' (List.mem_reverse.mp hmem)).2
  rw [trimName, htrim, hdots, hlocal, List.reverse_reverse, String.ofList_toList]

theorem base36Digit_plain : ∀ digit < 36,
    Text.isWhitespace (base36Digit digit) = false ∧ base36Digit digit ≠ '.' := by decide

theorem base36Digits_plain (n : ℕ) :
    ∀ c ∈ base36Digits n, Text.isWhitespace c = false ∧ c ≠ '.' := by
  fun_induction base36Digits n with
  | case1 => simp
  | case2 n hn ih =>
    intro c hc
    rcases List.mem_cons.mp hc with rfl | hc
    · exact base36Digit_plain _ (Nat.mod_lt n (by decide))
    · exact ih c hc

theorem shortUuid_plain (n : UInt64) :
    ∀ c ∈ (shortUuid n).toList, Text.isWhitespace c = false ∧ c ≠ '.' := by
  rw [shortUuid, encodeBase36]
  split
  · rintro c hc
    have hzero : c = '0' := by simpa using hc
    subst hzero
    decide
  · intro c hc
    rw [String.toList_ofList, List.mem_reverse] at hc
    exact base36Digits_plain _ c hc

/-- What a plain host draws for its name is shown as it is. -/
theorem trimName_defaultDeviceName {host : String} (h : PlainHost host) (n : UInt64) :
    trimName (defaultDeviceName host n) = defaultDeviceName host n := by
  rw [defaultDeviceName]
  split
  · have hplain : ∀ c ∈ ['P', 'l', 'a', 'i', 'n', '-'],
        Text.isWhitespace c = false ∧ c ≠ '.' := by simp [Text.isWhitespace]
    refine trimName_eq_self ?_
    intro c hc
    rw [String.toList_append] at hc
    rcases List.mem_append.mp hc with hc | hc
    · exact hplain c hc
    · exact shortUuid_plain n c hc
  · exact trimName_trimName h

end PlainRs.Prefs
