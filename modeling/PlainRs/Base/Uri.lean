import PlainRs.Base.DottedQuads

/-! The authority of a URI after RFC 3986, its host, and the hosts that name the own machine or a
private network. -/
namespace Uri

open Text

/-- Ends a scheme. -/
def schemeEnd (c : Char) : Bool := c = ':' || c = '/' || c = '?' || c = '#'

/-- Ends an authority. -/
def authorityEnd (c : Char) : Bool := c = '/' || c = '?' || c = '#'

def Scheme (s : List Char) : Prop := s ≠ [] ∧ ∀ c ∈ s, schemeEnd c = false

/-- A text behind a scheme. -/
abbrev behindScheme (scheme rest : List Char) : List Char := scheme ++ ':' :: '/' :: '/' :: rest

/-- What follows the scheme and its colon, if there is one. -/
def afterScheme (uri : List Char) : List Char :=
  match uri.takeWhile (! schemeEnd ·), uri.dropWhile (! schemeEnd ·) with
  | _ :: _, ':' :: rest => rest
  | _, _ => uri

/-- The authority at the start of a text. -/
def leading (text : List Char) : List Char := text.takeWhile (! authorityEnd ·)

/-- What comes behind it. -/
def behind (text : List Char) : List Char := text.dropWhile (! authorityEnd ·)

def authority (uri : List Char) : Option (List Char) :=
  match afterScheme uri with
  | '/' :: '/' :: rest => some (leading rest)
  | _ => none

/-- What follows the last `@`. -/
def withoutUserinfo (a : List Char) : List Char := (a.reverse.takeWhile (· ≠ '@')).reverse

/-- Without the userinfo and the port. -/
def host (a : List Char) : List Char :=
  match withoutUserinfo a with
  | '[' :: rest => '[' :: rest.takeWhile (· ≠ ']')
  | h => h.takeWhile (· ≠ ':')

/-- The octets begin an address in 127/8, 10/8, 172.16/12 or 192.168/16. -/
def LocalOctets (a b : ℕ) : Prop :=
  a = 127 ∨ a = 10 ∨ (a = 172 ∧ 16 ≤ b ∧ b ≤ 31) ∨ (a = 192 ∧ b = 168)

def IsLocalhost (h : List Char) : Prop := h.map Char.toLower = "localhost".toList

/-- A literal address of the own machine or of a private network. -/
def IsLocalQuad (h : List Char) : Prop :=
  ∃ a b c d, b ≤ 255 ∧ c ≤ 255 ∧ d ≤ 255 ∧ LocalOctets a b ∧ h = dottedQuad a b c d

def IsLocal (h : List Char) : Prop := IsLocalhost h ∨ IsLocalQuad h

/-- The URI has an authority, with a host that is none of these. -/
def Remote (uri : List Char) : Prop := ∃ a, authority uri = some a ∧ ¬ IsLocal (host a)

variable {scheme rest a h x y : List Char} {p : Char → Bool}

/-- The text `y` is empty or begins with an end of the run. -/
def Stops (p : Char → Bool) (y : List Char) : Prop := ∀ c ∈ y.head?, p c = false

theorem takeWhile_stops (hy : Stops p y) : y.takeWhile p = [] := by
  cases y with
  | nil => rfl
  | cons c y => rw [List.takeWhile_cons_of_neg]; simp [hy c rfl]

theorem stops_dropWhile (p : Char → Bool) (x : List Char) : Stops p (x.dropWhile p) := by
  intro c hc
  have hstop := List.head?_dropWhile_not p x
  rw [hc] at hstop
  exact hstop

/-- A run that ends where a text ends is the run of the text. -/
theorem takeWhile_append_stops (hy : Stops p y) : (x ++ y).takeWhile p = x.takeWhile p := by
  rw [List.takeWhile_append, takeWhile_stops hy]
  split
  · next hall =>
    rw [List.append_nil, (List.takeWhile_prefix p).eq_of_length hall]
  · rfl

theorem takeWhile_whole (hx : ∀ c ∈ x, p c = true) (hy : Stops p y) :
    (x ++ y).takeWhile p = x := by
  rw [takeWhile_append_stops hy, List.takeWhile_eq_self_iff.mpr hx]

theorem dropWhile_whole (hx : ∀ c ∈ x, p c = true) (hy : Stops p y) :
    (x ++ y).dropWhile p = y := by
  rw [List.dropWhile_append_of_pos hx]
  cases y with
  | nil => rfl
  | cons c y => rw [List.dropWhile_cons_of_neg]; simp [hy c rfl]

theorem leading_append_behind (x : List Char) : leading x ++ behind x = x :=
  List.takeWhile_append_dropWhile

theorem mem_leading {c : Char} (hc : c ∈ leading x) : authorityEnd c = false := by
  have := List.mem_takeWhile_imp hc
  simpa using this

/-- The authority behind a scheme. -/
theorem authority_of_scheme (hs : Scheme scheme) :
    authority (behindScheme scheme rest) = some (leading rest) := by
  have hall : ∀ c ∈ scheme, (! schemeEnd c) = true := by
    intro c hc
    rw [hs.2 c hc, Bool.not_false]
  have hstop : Stops (! schemeEnd ·) (':' :: '/' :: '/' :: rest) := by
    intro c hc
    cases hc
    rfl
  have hafter : afterScheme (behindScheme scheme rest) = '/' :: '/' :: rest := by
    unfold afterScheme
    rw [takeWhile_whole hall hstop, dropWhile_whole hall hstop]
    obtain ⟨c, cs, rfl⟩ := List.exists_cons_of_ne_nil hs.1
    rfl
  simp [authority, hafter]

theorem withoutUserinfo_of_notMem (h : '@' ∉ a) : withoutUserinfo a = a := by
  have hall : ∀ c ∈ a.reverse, decide (c ≠ '@') = true := by
    intro c hc
    refine decide_eq_true ?_
    rintro rfl
    exact h (List.mem_reverse.mp hc)
  rw [withoutUserinfo, List.takeWhile_eq_self_iff.mpr hall, List.reverse_reverse]

/-- Without userinfo and brackets the host ends at the first colon. -/
theorem host_of_notMem (hat : '@' ∉ a) (hb : a.head? ≠ some '[') :
    host a = a.takeWhile (· ≠ ':') := by
  rw [host, withoutUserinfo_of_notMem hat]
  split
  · exact absurd rfl hb
  · rfl

end Uri
