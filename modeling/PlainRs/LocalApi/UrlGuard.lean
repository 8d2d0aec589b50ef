import PlainRs.LocalApi.LinkPreview

/-! Which URLs the guard of the link previews keeps from local hosts. It cuts the host out at the
first slash or colon; an authority also ends at a question mark or a hash, and may begin with
userinfo. -/
namespace PlainRs.LocalApi

open Text Uri PlainRs.Utils

/-- ASCII is lowered letter by letter, whatever stands behind it. -/
def AsciiLowering (toLowercase : List Char → List Char) : Prop :=
  ∀ a s : List Char, (∀ c ∈ a, c.toNat < 128) →
    ∃ t, toLowercase (a ++ s) = a.map Char.toLower ++ t ∧ (s = [] → t = [])

/-- If the host of the authority at the start of the text is local, the guard turns it away. With
userinfo it looks at that instead. -/
def AuthorityFits (toLowercase : List Char → List Char) (text : List Char) : Prop :=
  IsLocal (host (leading text)) →
    if '@' ∈ leading text then isRefusedHost (toLowercase (urlHost text)) = true
    else ¬ (IsLocalhost (leading text) ∧ ∃ c ∈ (behind text).head?, c = '?' ∨ c = '#')

variable {toLowercase : List Char → List Char} {scheme rest h t r x y : List Char} {c : Char}

theorem splitOnceAt_scheme (hs : ∀ c ∈ scheme, schemeEnd c = false) :
    splitOnceAt [':', '/', '/'] (behindScheme scheme rest) = some (scheme, rest) := by
  induction scheme with
  | nil => simp [splitOnceAt]
  | cons c cs ih =>
    have hc : ':' ≠ c := by
      rintro rfl
      exact absurd (hs ':' (by simp)) (by decide)
    have hcons : behindScheme (c :: cs) rest = c :: behindScheme cs rest := rfl
    rw [hcons, splitOnceAt, if_neg (by simp [hc]), ih fun d hd => hs d (by simp [hd])]
    rfl

theorem lowered_nil (hl : AsciiLowering toLowercase) : toLowercase [] = [] := by
  obtain ⟨t, ht, hnil⟩ := hl [] [] (by simp)
  rw [hnil rfl] at ht
  exact ht

theorem isValidUrl_scheme (hs : Scheme scheme) (hl : AsciiLowering toLowercase) :
    isValidUrl toLowercase (behindScheme scheme rest) =
      ! isRefusedHost (toLowercase (urlHost rest)) := by
  rw [isValidUrl, splitOnceAt_scheme hs.2]
  cases rest with
  | nil => simp [urlHost, lowered_nil hl, isRefusedHost]
  | cons c cs => simp

theorem remote_scheme (hs : Scheme scheme) :
    Remote (behindScheme scheme rest) ↔ ¬ IsLocal (host (leading rest)) := by
  rw [Remote, authority_of_scheme hs]
  simp

theorem notMem_of_isLocal (hloc : IsLocal h) : '[' ∉ h := by
  intro hb
  rcases hloc with hloc | ⟨i, j, k, l, -, -, -, -, rfl⟩
  · have hmem : Char.toLower '[' ∈ h.map Char.toLower := List.mem_map_of_mem hb
    rw [hloc] at hmem
    exact absurd hmem (by decide)
  · rcases mem_dottedQuad hb with hd | hd
    · exact absurd hd (by decide)
    · exact absurd hd (by decide)

/-- A local host without userinfo stands before the first colon. -/
theorem host_of_isLocal (hat : '@' ∉ x) (hloc : IsLocal (host x)) :
    host x = x.takeWhile (· ≠ ':') := by
  refine host_of_notMem hat ?_
  intro hb
  obtain ⟨xs, rfl⟩ : ∃ xs, x = '[' :: xs := by
    cases x with
    | nil => cases hb
    | cons c xs => exact ⟨xs, by rw [Option.some.inj hb]⟩
  apply notMem_of_isLocal hloc
  rw [host, withoutUserinfo_of_notMem hat]
  exact List.mem_cons_self

/-- Without userinfo the guard cuts out the host, with what follows it up to a slash or colon. -/
theorem urlHost_eq (hat : '@' ∉ leading r) (hloc : IsLocal (host (leading r))) :
    urlHost r = host (leading r) ++ urlHost ((leading r).dropWhile (· ≠ ':') ++ behind r) := by
  have hhost := host_of_isLocal hat hloc
  have hr : r = host (leading r) ++ ((leading r).dropWhile (· ≠ ':') ++ behind r) := by
    rw [hhost, ← List.append_assoc, List.takeWhile_append_dropWhile, leading_append_behind]
  have hpos : ∀ c ∈ host (leading r), decide (c ≠ '/' ∧ c ≠ ':') = true := by
    intro c hc
    rw [hhost] at hc
    have hslash := mem_leading ((List.takeWhile_prefix _).subset hc)
    have hcolon := List.mem_takeWhile_imp hc
    refine decide_eq_true ⟨?_, by simpa using hcolon⟩
    rintro rfl
    exact absurd hslash (by decide)
  conv_lhs => rw [hr]
  exact List.takeWhile_append_of_pos hpos

theorem toNat_of_toLower (h : c.toLower.toNat < 128) : c.toNat < 128 := by
  rw [Char.toLower] at h
  split at h
  · next hupper =>
    have hhigh : c.val ≤ (90 : UInt32) := hupper.2
    rw [UInt32.le_iff_toNat_le] at hhigh
    exact Nat.lt_of_le_of_lt hhigh (by decide)
  · exact h

theorem ascii_of_isLocalhost (hh : IsLocalhost h) : ∀ c ∈ h, c.toNat < 128 := by
  intro c hc
  apply toNat_of_toLower
  have hmem : c.toLower ∈ h.map Char.toLower := List.mem_map_of_mem hc
  rw [hh] at hmem
  have hname : ∀ d ∈ "localhost".toList, d.toNat < 128 := by simp
  exact hname _ hmem

theorem refused_localhost (hl : AsciiLowering toLowercase) (hh : IsLocalhost h) :
    isRefusedHost (toLowercase h) = true := by
  obtain ⟨t, ht, hnil⟩ := hl h [] (ascii_of_isLocalhost hh)
  rw [List.append_nil, hnil rfl, List.append_nil, hh] at ht
  rw [ht]
  decide

/-- Behind a question mark or a hash the name is no longer found. -/
theorem not_refused_localhost (hl : AsciiLowering toLowercase) (hh : IsLocalhost h)
    (hc : c = '?' ∨ c = '#') : isRefusedHost (toLowercase (h ++ c :: t)) = false := by
  have hascii : ∀ d ∈ h ++ [c], d.toNat < 128 := by
    intro d hd
    rcases List.mem_append.mp hd with hd | hd
    · exact ascii_of_isLocalhost hh d hd
    · rw [List.mem_singleton.mp hd]
      rcases hc with rfl | rfl <;> decide
  obtain ⟨s, hs, -⟩ := hl (h ++ [c]) t hascii
  rw [List.append_assoc, List.singleton_append, List.map_append, hh] at hs
  rw [hs]
  rcases hc with rfl | rfl <;> simp [isRefusedHost, List.isPrefixOf]

/-- The second number of a dotted quad is found, whatever stands behind it. -/
theorem secondOctet_dottedQuad {i j k l : ℕ} (hj : j ≤ 255) :
    secondOctet (dottedQuad i j k l ++ t) = j.toUInt16 := by
  have hparse : parseU16 (Nat.toDigits 10 j) = some j.toUInt16 := by
    have hplus : (Nat.toDigits 10 j).head? ≠ some '+' := by
      intro he
      have hd : '+'.isDigit = true := isDigit_of_mem_toDigits (List.mem_of_mem_head? he)
      exact absurd hd (by decide)
    have hnum := Text.natOfDigits_repr j
    rw [Nat.toList_repr] at hnum
    rw [parseU16, if_neg hplus, hnum, Option.bind_some, if_pos (by omega)]
  rw [secondOctet, splitOn_dottedQuad]
  simp [hparse]

theorem refused_of_prefix (h : "127.".toList <+: x ∨ "192.168.".toList <+: x ∨ "10.".toList <+: x ∨
    ("172.".toList <+: x ∧ 16 ≤ secondOctet x ∧ secondOctet x ≤ 31)) : isRefusedHost x = true := by
  simp only [isRefusedHost, Bool.or_eq_true, Bool.and_eq_true, List.isPrefixOf_iff_prefix,
    decide_eq_true_eq]
  tauto

theorem refused_quad (hl : AsciiLowering toLowercase) (hq : IsLocalQuad h) :
    isRefusedHost (toLowercase (h ++ t)) = true := by
  obtain ⟨i, j, k, l, hj, -, -, hoctets, rfl⟩ := hq
  have hdigit : ∀ c ∈ dottedQuad i j k l, c.toNat < 128 ∧ c.toLower = c := by
    intro c hc
    rcases mem_dottedQuad hc with hd | rfl
    · simp only [Char.isDigit, Bool.and_eq_true, decide_eq_true_eq] at hd
      have hhigh : c.val ≤ (57 : UInt32) := hd.2
      rw [UInt32.le_iff_toNat_le] at hhigh
      refine ⟨Nat.lt_of_le_of_lt hhigh (by decide), ?_⟩
      rw [Char.toLower, dif_neg]
      rintro ⟨hlow, -⟩
      have hlow : (65 : UInt32) ≤ c.val := hlow
      rw [UInt32.le_iff_toNat_le] at hlow
      have := Nat.le_trans hlow hhigh
      exact absurd this (by decide)
    · exact ⟨by simp, by simp⟩
  obtain ⟨s, hs, -⟩ := hl (dottedQuad i j k l) t fun c hc => (hdigit c hc).1
  have hsame : (dottedQuad i j k l).map Char.toLower = dottedQuad i j k l :=
    (List.map_congr_left fun c hc => (hdigit c hc).2).trans (List.map_id _)
  rw [hsame] at hs
  have hsecond := secondOctet_dottedQuad (i := i) (k := k) (l := l) (t := s) hj
  rw [hs]
  apply refused_of_prefix
  have hdot : ∀ n m : ℕ, (Nat.toDigits 10 n ++ ['.'] ++ (Nat.toDigits 10 m ++ ['.'])) <+:
      dottedQuad n m k l ++ s := by
    intro n m
    exact ⟨Nat.toDigits 10 k ++ '.' :: (Nat.toDigits 10 l ++ s), by simp [dottedQuad]⟩
  have hfirst : ∀ n m : ℕ, Nat.toDigits 10 n ++ ['.'] <+: dottedQuad n m k l ++ s :=
    fun n m => (List.prefix_append _ _).trans (hdot n m)
  rcases hoctets with rfl | rfl | ⟨rfl, hlow, hhigh⟩ | ⟨rfl, rfl⟩
  · exact .inl (hfirst 127 j)
  · exact .inr (.inr (.inl (hfirst 10 j)))
  · refine .inr (.inr (.inr ⟨hfirst 172 j, ?_, ?_⟩))
    · rw [hsecond, UInt16.le_iff_toNat_le, Nat.toUInt16_eq, UInt16.toNat_ofNat']
      exact le_of_le_of_eq hlow (Nat.mod_eq_of_lt (by omega)).symm
    · rw [hsecond, UInt16.le_iff_toNat_le, Nat.toUInt16_eq, UInt16.toNat_ofNat']
      exact le_of_eq_of_le (Nat.mod_eq_of_lt (by omega)) hhigh
  · exact .inr (.inl (hdot 192 168))

/-- Nothing but letters is in the name of the own machine. -/
theorem not_isLocalhost_of_mem (hc : c ∈ x) (hname : c.toLower ∉ "localhost".toList) :
    ¬ IsLocalhost x := by
  intro hx
  have hmem : c.toLower ∈ x.map Char.toLower := List.mem_map_of_mem hc
  rw [hx] at hmem
  exact hname hmem

/-- Without userinfo the guard fails only on the own machine's name before a question mark or a
hash. -/
theorem refused_iff (hl : AsciiLowering toLowercase) (hat : '@' ∉ leading r)
    (hloc : IsLocal (host (leading r))) : isRefusedHost (toLowercase (urlHost r)) = true ↔
      ¬ (IsLocalhost (leading r) ∧ ∃ c ∈ (behind r).head?, c = '?' ∨ c = '#') := by
  have hhost := host_of_isLocal hat hloc
  have hcut := urlHost_eq hat hloc
  rcases hloc with hname | hquad
  · have hstop := stops_dropWhile (· ≠ ':') (leading r)
    have hwhole := List.takeWhile_append_dropWhile (p := (· ≠ ':')) (l := leading r)
    rw [← hhost] at hwhole
    generalize (leading r).dropWhile (· ≠ ':') = port at hcut hstop hwhole
    cases port with
    | cons d port =>
      -- The port begins with the colon that the guard stops at.
      have hd : d = ':' := by simpa using hstop d rfl
      have hnil : urlHost (d :: port ++ behind r) = [] := by simp [urlHost, hd]
      rw [hcut, hnil, List.append_nil]
      refine iff_of_true (refused_localhost hl hname) ?_
      rintro ⟨hall, -⟩
      have hmem : d ∈ leading r := by
        rw [← hwhole]
        simp
      exact not_isLocalhost_of_mem hmem (by simp [hd]) hall
    | nil =>
      rw [List.append_nil] at hwhole
      rw [List.nil_append, hwhole] at hcut
      rw [hwhole] at hname
      have hend := stops_dropWhile (! authorityEnd ·) r
      change Stops (! authorityEnd ·) (behind r) at hend
      rw [hcut]
      cases hb : behind r with
      | nil =>
        have hnil : urlHost [] = [] := rfl
        rw [hnil, List.append_nil]
        refine iff_of_true (refused_localhost hl hname) ?_
        rintro ⟨-, c, hc, -⟩
        cases hc
      | cons c b =>
        have hc : authorityEnd c = true := by simpa using hend c (by rw [hb]; rfl)
        by_cases hslash : c = '/'
        · have hnil : urlHost (c :: b) = [] := by simp [urlHost, hslash]
          rw [hnil, List.append_nil]
          refine iff_of_true (refused_localhost hl hname) ?_
          rintro ⟨-, d, hd, hmark⟩
          rw [← Option.some.inj hd, hslash] at hmark
          exact absurd hmark (by decide)
        · have hmark : c = '?' ∨ c = '#' := by simpa [authorityEnd, hslash] using hc
          have hcons : urlHost (c :: b) = c :: urlHost b := by
            rcases hmark with rfl | rfl <;> simp [urlHost]
          rw [hcons, not_refused_localhost hl hname hmark]
          refine iff_of_false Bool.false_ne_true (not_not_intro ⟨hname, c, rfl, hmark⟩)
  · rw [hcut]
    refine iff_of_true (refused_quad hl hquad) ?_
    rintro ⟨hname, -⟩
    have hdot : '.' ∈ host (leading r) := by
      obtain ⟨i, j, k, l, -, -, -, -, hq⟩ := hquad
      rw [hq]
      simp [dottedQuad]
    rw [hhost] at hdot
    exact not_isLocalhost_of_mem ((List.takeWhile_prefix _).subset hdot) (by simp) hname

/-- A URL that the guard lets through is remote, unless its authority misleads the guard. -/
theorem remote_of_valid_iff (hs : Scheme scheme) (hl : AsciiLowering toLowercase) :
    (isValidUrl toLowercase (behindScheme scheme r) = true →
      Remote (behindScheme scheme r)) ↔ AuthorityFits toLowercase r := by
  rw [isValidUrl_scheme hs hl, remote_scheme hs, AuthorityFits]
  by_cases hloc : IsLocal (host (leading r))
  · by_cases hat : '@' ∈ leading r
    · simp [hloc, hat]
    · have hiff := refused_iff hl hat hloc
      simp only [hloc, hat, if_false, ← hiff]
      simp
  · simp [hloc]

/-- What comes behind the first slash makes no difference. -/
theorem fits_append (hy : ∀ c ∈ y.head?, c = '/') :
    AuthorityFits toLowercase (h ++ y) ↔ AuthorityFits toLowercase h := by
  have hstops : ∀ p : Char → Bool, p '/' = false → Stops p y := by
    intro p hp c hc
    rw [hy c hc, hp]
  have hleading : leading (h ++ y) = leading h := takeWhile_append_stops (hstops _ rfl)
  have hcut : urlHost (h ++ y) = urlHost h := takeWhile_append_stops (hstops _ (by simp))
  have hmark : (∃ c ∈ (behind (h ++ y)).head?, c = '?' ∨ c = '#') ↔
      ∃ c ∈ (behind h).head?, c = '?' ∨ c = '#' := by
    have hwhole : leading h ++ behind (h ++ y) = leading h ++ (behind h ++ y) := by
      rw [← List.append_assoc, leading_append_behind h, ← hleading, leading_append_behind]
    rw [List.append_cancel_left hwhole]
    cases hb : behind h with
    | nil =>
      rw [List.nil_append]
      refine iff_of_false ?_ (by simp)
      rintro ⟨c, hc, hmark⟩
      rw [hy c hc] at hmark
      exact absurd hmark (by decide)
    | cons c b => rfl
  unfold AuthorityFits
  rw [hleading, hcut, hmark]

theorem fits_of_notMem (hx : ∀ c ∈ x, c ≠ '@' ∧ c ≠ '?' ∧ c ≠ '#') :
    AuthorityFits toLowercase x := by
  intro _
  have hat : '@' ∉ leading x := fun hat => (hx '@' ((List.takeWhile_prefix _).subset hat)).1 rfl
  rw [if_neg hat]
  rintro ⟨-, c, hc, hmark⟩
  have hmem : c ∈ x := (List.dropWhile_suffix _).subset (List.mem_of_mem_head? hc)
  rcases hmark with rfl | rfl
  · exact (hx '?' hmem).2.1 rfl
  · exact (hx '#' hmem).2.2 rfl

end PlainRs.LocalApi
