import PlainRs.Base.Clock
import PlainRs.Base.Slices
import PlainRs.Base.Uri
import PlainRs.Utils.Trimmed

/-! `utils/http_url.rs`: absolute URLs taken apart, and references resolved against them. -/
namespace PlainRs.HttpUrl

open Checked PlainRs.Utils Text

structure ParsedHttpUrl where
  scheme : List Char
  host : List Char
  port : Option ℕ
  path : List Char
  query : List Char
  deriving DecidableEq

def lower (cs : List Char) : List Char := cs.map Char.toLower

def http : List Char := ['h', 't', 't', 'p']

def https : List Char := ['h', 't', 't', 'p', 's']

/-- `str::parse::<u16>`: a sign may stand before the digits. -/
def parseU16 (cs : List Char) : Option ℕ :=
  (natOfDigits (if cs.head? = some '+' then cs.tail else cs)).filter (· < 2 ^ 16)

def splitHostPort (authority : List Char) : Checked (Option (List Char × Option ℕ)) :=
  if authority.head? = some '[' then
    let stripped := authority.tail
    orNone (pure (findByte ']' stripped)) fun rb => do
      let host ← cut stripped 0 rb
      let rest ← cutFrom stripped (rb + 1)
      if rest = [] then pure (some (host, none))
      else if rest.head? = some ':' then
        pure ((parseU16 rest.tail).map fun port => (host, some port))
      else pure none
  else
    (rfindByte ':' authority).elim (pure (some (authority, none))) fun idx => do
      let host ← cut authority 0 idx
      let portStr ← cutFrom authority (idx + 1)
      if portStr = [] then pure (some (authority, none))
      else pure ((parseU16 portStr).map fun port => (host, some port))

/-- What ends the authority. -/
def authorityEnds (c : Char) : Bool := c = '/' || c = '?' || c = '#'

def parseHttpUrl (input : List Char) : Checked (Option ParsedHttpUrl) :=
  let s := trimmed input
  orNone (pure (findStr [':', '/', '/'] s)) fun sep => do
    let scheme ← cut s 0 sep
    if lower scheme ≠ http ∧ lower scheme ≠ https then pure none
    else do
      let after ← cutFrom s (sep + 3)
      let authEnd := (findWhere authorityEnds after).getD (String.utf8Len after)
      let authority ← cut after 0 authEnd
      if authority = [] then pure none
      else do
        let rest ← cutFrom after authEnd
        orNone (splitHostPort authority) fun (host, port) => do
          if host = [] then pure none
          else do
            let (path, query) ← (findByte '?' rest).elim (pure (rest, [])) fun qi => do
              pure (← cut rest 0 qi, ← cutFrom rest (qi + 1))
            let query ← (findByte '#' query).elim (pure query) fun fi => cut query 0 fi
            if path.head? = some '/' then
              pure (some { scheme := lower scheme, host := lower host, port, path, query })
            else pure none

/-- One segment of the walk; `..` takes the last segment away unless it is empty. -/
def enterSegment (out : List (List Char)) (seg : List Char) : List (List Char) :=
  if seg = ['.'] then out
  else if seg = ['.', '.'] then
    if (out.getLast?.map fun s => decide (s ≠ [])).getD false then out.dropLast else out
  else out ++ [seg]

def collapseDotSegments (path : List Char) : List Char :=
  let out := (path.splitOn '/').foldl enterSegment []
  let joined := ['/'].intercalate out
  if path.head? = some '/' ∧ joined.head? ≠ some '/' then '/' :: joined else joined

/-- The host, and the port unless it is the default of the scheme. -/
def ParsedHttpUrl.hostPort (u : ParsedHttpUrl) : List Char :=
  u.port.elim u.host fun p =>
    if (u.scheme = http ∧ p = 80) ∨ (u.scheme = https ∧ p = 443) then u.host
    else u.host ++ ':' :: Nat.toDigits 10 p

def join (base reference : List Char) : Checked (Option (List Char)) :=
  let refTrim := trimmed reference
  if refTrim = [] then pure (some base)
  else do
    if (← parseHttpUrl refTrim).isSome then pure (some refTrim)
    else orNone (parseHttpUrl base) fun baseUrl => do
      let (refPath, refQuery) ← (findByte '?' refTrim).elim (pure (refTrim, [])) fun qi => do
        pure (← cut refTrim 0 qi, ← cutFrom refTrim (qi + 1))
      let path ← if refPath.head? = some '/' then pure refPath
        else do
          let dirEnd := (rfindByte '/' baseUrl.path).getD 0
          let dir ← cut baseUrl.path 0 (dirEnd + 1)
          pure (collapseDotSegments (dir ++ refPath))
      let query := if '?' ∈ refTrim then refQuery else baseUrl.query
      pure (some (baseUrl.scheme ++ ':' :: '/' :: '/' :: baseUrl.hostPort ++ path ++
        if query = [] then [] else '?' :: query))

variable {input base reference s scheme host authority after rest path x y : List Char}
  {c d : Char} {port : Option ℕ} {p : ℕ}

section Pieces

theorem findByte_none (h : c ∉ s) : findByte c s = none := by
  induction s with
  | nil => rfl
  | cons d s ih =>
    rw [List.mem_cons, not_or] at h
    rw [findByte, if_neg (Ne.symm h.1), ih h.2]
    rfl

theorem takeWhile_ne (h : c ∉ x) (y : List Char) :
    (x ++ c :: y).takeWhile (· ≠ c) = x ∧ (x ++ c :: y).dropWhile (· ≠ c) = c :: y := by
  have hx : ∀ d ∈ x, decide (d ≠ c) = true := by
    intro d hd
    rw [decide_eq_true_eq]
    rintro rfl
    exact h hd
  rw [List.takeWhile_append_of_pos hx, List.dropWhile_append_of_pos hx,
    List.takeWhile_cons_of_neg (by simp), List.dropWhile_cons_of_neg (by simp), List.append_nil]
  exact ⟨rfl, rfl⟩

theorem takeWhile_ne_self (h : c ∉ x) :
    x.takeWhile (· ≠ c) = x ∧ x.dropWhile (· ≠ c) = [] := by
  have hx : ∀ d ∈ x, decide (d ≠ c) = true := by
    intro d hd
    rw [decide_eq_true_eq]
    rintro rfl
    exact h hd
  exact ⟨List.takeWhile_eq_self_iff.mpr hx, List.dropWhile_eq_nil_iff.mpr hx⟩

theorem takeWhile_ne_append (h : c ∉ x) (hy : ∀ d ∈ y.head?, d = c) :
    (x ++ y).takeWhile (· ≠ c) = x := by
  cases y with
  | nil => rw [List.append_nil, (takeWhile_ne_self h).1]
  | cons d y =>
    rw [hy d rfl]
    exact (takeWhile_ne h y).1

/-- A text cut at the first place of a character, which is left out. -/
theorem cutAround (hc : c.utf8Size = 1) (s : List Char) :
    ((findByte c s).elim (pure (s, [])) fun i => do pure (← cut s 0 i, ← cutFrom s (i + 1)) :
      Checked (List Char × List Char)) =
      .ok (s.takeWhile (· ≠ c), (s.dropWhile (· ≠ c)).tail) := by
  by_cases h : c ∈ s
  · obtain ⟨x, y, rfl, hx⟩ := List.eq_append_cons_of_mem h
    obtain ⟨htake, hdrop⟩ := takeWhile_ne hx y
    rw [findByte_append hx, Option.elim_some, cut_append, ok_bind, cutFrom_behind hc, ok_bind,
      htake, hdrop]
    rfl
  · obtain ⟨htake, hdrop⟩ := takeWhile_ne_self h
    rw [findByte_none h, htake, hdrop]
    rfl

/-- A text up to the first place of a character. -/
theorem cutBefore (s : List Char) :
    ((findByte c s).elim (pure s) fun i => cut s 0 i : Checked (List Char)) =
      .ok (s.takeWhile (· ≠ c)) := by
  by_cases h : c ∈ s
  · obtain ⟨x, y, rfl, hx⟩ := List.eq_append_cons_of_mem h
    rw [findByte_append hx, Option.elim_some, cut_append, (takeWhile_ne hx y).1]
  · rw [findByte_none h, (takeWhile_ne_self h).1]
    rfl

end Pieces

section Hosts

theorem splitHostPort_plain (hhead : host.head? ≠ some '[') (h : ':' ∉ host) :
    splitHostPort host = .ok (some (host, none)) := by
  rw [splitHostPort, if_neg hhead, rfindByte_none h]
  rfl

/-- The port is behind the last colon. -/
theorem splitHostPort_colon (hhead : (x ++ ':' :: y).head? ≠ some '[') (hy : ':' ∉ y) :
    splitHostPort (x ++ ':' :: y) = .ok (if y = [] then some (x ++ ':' :: y, none)
      else (parseU16 y).map fun port => (x, some port)) := by
  rw [splitHostPort, if_neg hhead, rfindByte_append hy, Option.elim_some, cut_append, ok_bind,
    cutFrom_behind (by decide), ok_bind]
  split <;> rfl

theorem splitHostPort_open (h : ']' ∉ x) : splitHostPort ('[' :: x) = .ok none := by
  rw [splitHostPort, if_pos List.head?_cons]
  dsimp only
  rw [List.tail_cons, findByte_none h]
  rfl

theorem splitHostPort_bracket (hx : ']' ∉ x) (y : List Char) :
    splitHostPort ('[' :: (x ++ ']' :: y)) = .ok (if y = [] then some (x, none)
      else if y.head? = some ':' then (parseU16 y.tail).map fun port => (x, some port)
      else none) := by
  rw [splitHostPort, if_pos List.head?_cons]
  dsimp only
  rw [List.tail_cons, findByte_append hx]
  have hone : ']'.utf8Size = 1 := rfl
  simp only [orNone, pure, Except.pure, ok_bind, cut_append, cutFrom_behind hone]
  split_ifs <;> rfl

theorem parseU16_lt (h : parseU16 s = some p) : p < 2 ^ 16 := by
  rw [parseU16, Option.filter_eq_some_iff] at h
  simpa using h.2

/-- An authority is read as a host in it and a port. -/
theorem splitHostPort_spec (authority : List Char) : Spec (splitHostPort authority) fun r =>
    ∀ h p, r = some (h, p) → (∀ c ∈ h, c ∈ authority) ∧ (h.head? = some '[' → ']' ∉ h) ∧
      ∀ n ∈ p, n < 2 ^ 16 := by
  by_cases hhead : authority.head? = some '['
  · obtain ⟨stripped, rfl⟩ : ∃ stripped, authority = '[' :: stripped := by
      cases authority with
      | nil => cases hhead
      | cons c stripped => exact ⟨stripped, by rw [Option.some.inj hhead]⟩
    by_cases hclose : ']' ∈ stripped
    · obtain ⟨x, y, rfl, hx⟩ := List.eq_append_cons_of_mem hclose
      rw [splitHostPort_bracket hx]
      refine .pure fun h p heq => ?_
      have hfacts : h = x ∧ ∀ n ∈ p, n < 2 ^ 16 := by
        split_ifs at heq
        · cases heq
          exact ⟨rfl, nofun⟩
        · obtain ⟨n, hn, heq⟩ := Option.map_eq_some_iff.mp heq
          cases heq
          exact ⟨rfl, fun k hk => Option.some.inj hk ▸ parseU16_lt hn⟩
      obtain ⟨rfl, hp⟩ := hfacts
      exact ⟨fun c hc => List.mem_cons_of_mem _ (List.mem_append_left _ hc), fun _ => hx, hp⟩
    · rw [splitHostPort_open hclose]
      exact .pure nofun
  · by_cases hcolon : ':' ∈ authority
    · obtain ⟨x, y, rfl, hy⟩ := exists_last hcolon
      rw [splitHostPort_colon hhead hy]
      refine .pure fun h p heq => ?_
      split_ifs at heq
      · cases heq
        exact ⟨fun c hc => hc, fun hopen => absurd hopen hhead, nofun⟩
      · obtain ⟨n, hn, heq⟩ := Option.map_eq_some_iff.mp heq
        cases heq
        refine ⟨fun c hc => List.mem_append_left _ hc, fun hopen => ?_,
          fun k hk => Option.some.inj hk ▸ parseU16_lt hn⟩
        refine absurd ?_ hhead
        rw [List.head?_append, hopen]
        rfl
    · rw [splitHostPort_plain hhead hcolon]
      refine .pure fun h p heq => ?_
      cases heq
      exact ⟨fun c hc => hc, fun hopen => absurd hopen hhead, nofun⟩

end Hosts

section Urls

/-- An absolute URL with something in the place of the authority. -/
structure AbsoluteUrl where
  scheme : List Char
  authority : List Char
  rest : List Char
  scheme_http : lower scheme = http ∨ lower scheme = https
  authority_ne : authority ≠ []
  authority_chars : ∀ c ∈ authority, authorityEnds c = false
  rest_head : ∀ c ∈ rest.head?, authorityEnds c = true

def AbsoluteUrl.text (u : AbsoluteUrl) : List Char :=
  u.scheme ++ ':' :: '/' :: '/' :: (u.authority ++ u.rest)

/-- What is made of the parts; a path has to be there. -/
def assemble (scheme rest : List Char) (hostPort : List Char × Option ℕ) : Option ParsedHttpUrl :=
  if hostPort.1 ≠ [] ∧ rest.head? = some '/' then
    some { scheme := lower scheme, host := lower hostPort.1, port := hostPort.2,
           path := rest.takeWhile (· ≠ '?'),
           query := ((rest.dropWhile (· ≠ '?')).tail).takeWhile (· ≠ '#') }
  else none

theorem notMem_scheme (h : lower scheme = http ∨ lower scheme = https) (hc : c.toLower ∉ https) :
    c ∉ scheme := by
  intro hmem
  have hlow : c.toLower ∈ lower scheme := List.mem_map_of_mem hmem
  rcases h with h | h
  · rw [h] at hlow
    exact hc (List.mem_append_left ['s'] hlow)
  · rw [h] at hlow
    exact hc hlow

theorem colon_notMem_scheme (h : lower scheme = http ∨ lower scheme = https) : ':' ∉ scheme :=
  notMem_scheme h (by decide)

theorem head?_takeWhile_ne (rest : List Char) :
    (rest.takeWhile (· ≠ '?')).head? = some '/' ↔ rest.head? = some '/' := by
  cases rest with
  | nil => rfl
  | cons c rest =>
    by_cases hc : c = '?'
    · rw [List.takeWhile_cons_of_neg (by simpa using hc)]
      simp [hc]
    · rw [List.takeWhile_cons_of_pos (by simpa using hc)]
      rfl

/-- What the text behind the first `://` is read as. -/
theorem parse_found (hs : trimmed input = x ++ ':' :: '/' :: '/' :: y)
    (hfind : findStr [':', '/', '/'] (trimmed input) = some (String.utf8Len x)) :
    parseHttpUrl input = if lower x ≠ http ∧ lower x ≠ https then .ok none
      else if y.takeWhile (!authorityEnds ·) = [] then .ok none
      else orNone (splitHostPort (y.takeWhile (!authorityEnds ·))) fun hostPort =>
        .ok (assemble x (y.dropWhile (!authorityEnds ·)) hostPort) := by
  have hscheme : cut (trimmed input) 0 (String.utf8Len x) = .ok x := by
    rw [hs]
    exact cut_append
  have hafter : cutFrom (trimmed input) (String.utf8Len x + 3) = .ok y := by
    have hlen : String.utf8Len (x ++ [':', '/', '/']) = String.utf8Len x + 3 := by
      rw [String.utf8Len_append]
      rfl
    have happ : x ++ ':' :: '/' :: '/' :: y = (x ++ [':', '/', '/']) ++ y := by simp
    rw [hs, happ, ← hlen]
    exact cutFrom_append
  have hparts : ∀ front back, y = front ++ back →
      cut y 0 (String.utf8Len front) = .ok front ∧
        cutFrom y (String.utf8Len front) = .ok back := by
    rintro front back rfl
    exact ⟨cut_append, cutFrom_append⟩
  obtain ⟨hauth, hrest⟩ := hparts (y.takeWhile (!authorityEnds ·)) (y.dropWhile (!authorityEnds ·))
    List.takeWhile_append_dropWhile.symm
  unfold parseHttpUrl
  dsimp only
  rw [hfind, orNone_some, hscheme, ok_bind]
  by_cases hhttp : lower x ≠ http ∧ lower x ≠ https
  · rw [if_pos hhttp, if_pos hhttp]
    rfl
  · rw [if_neg hhttp, if_neg hhttp, hafter, ok_bind]
    rw [findWhere_getD, hauth, ok_bind]
    by_cases hnil : y.takeWhile (!authorityEnds ·) = []
    · rw [if_pos hnil, if_pos hnil]
      rfl
    · rw [if_neg hnil, if_neg hnil, hrest, ok_bind]
      generalize y.dropWhile (!authorityEnds ·) = rest
      refine congrArg (orNone _) (funext fun hostPort => ?_)
      obtain ⟨host, port⟩ := hostPort
      dsimp only
      rw [assemble]
      by_cases hhost : host = []
      · rw [if_pos hhost, if_neg fun h => h.1 hhost]
        rfl
      · rw [if_neg hhost, cutAround (by decide), ok_bind]
        dsimp only
        rw [cutBefore, ok_bind]
        simp only [head?_takeWhile_ne, hhost, ne_eq, not_false_eq_true, true_and]
        split_ifs <;> rfl

theorem span_authority (hx : ∀ c ∈ x, authorityEnds c = false)
    (hy : ∀ c ∈ y.head?, authorityEnds c = true) :
    (x ++ y).takeWhile (!authorityEnds ·) = x ∧ (x ++ y).dropWhile (!authorityEnds ·) = y := by
  have hin : ∀ c ∈ x, (!authorityEnds c) = true := by
    intro c hc
    rw [hx c hc]
    rfl
  have hstop : y.takeWhile (!authorityEnds ·) = [] ∧ y.dropWhile (!authorityEnds ·) = y := by
    cases y with
    | nil => exact ⟨rfl, rfl⟩
    | cons c y =>
      have hc := hy c rfl
      exact ⟨List.takeWhile_cons_of_neg (by simp [hc]), List.dropWhile_cons_of_neg (by simp [hc])⟩
  rw [List.takeWhile_append_of_pos hin, List.dropWhile_append_of_pos hin, hstop.1, hstop.2,
    List.append_nil]
  exact ⟨rfl, rfl⟩

/-- A URL is read by its parts. -/
theorem parse_absolute (u : AbsoluteUrl) (h : trimmed input = u.text) : parseHttpUrl input =
    orNone (splitHostPort u.authority) fun hostPort => .ok (assemble u.scheme u.rest hostPort) := by
  have hfind : findStr [':', '/', '/'] (trimmed input) = some (String.utf8Len u.scheme) := by
    rw [h]
    exact findStr_append (colon_notMem_scheme u.scheme_http)
  obtain ⟨htake, hdrop⟩ := span_authority u.authority_chars u.rest_head
  have hhttp : ¬ (lower u.scheme ≠ http ∧ lower u.scheme ≠ https) := by
    rintro ⟨h1, h2⟩
    exact u.scheme_http.elim h1 h2
  rw [parse_found h hfind, if_neg hhttp, htake, if_neg u.authority_ne, hdrop]

/-- Nothing else is read. -/
theorem parse_other (h : ¬ ∃ u : AbsoluteUrl, u.text = trimmed input) :
    parseHttpUrl input = .ok none := by
  cases hfind : findStr [':', '/', '/'] (trimmed input) with
  | none =>
    unfold parseHttpUrl
    dsimp only
    rw [hfind]
    rfl
  | some n =>
    obtain ⟨y, x, hs, rfl⟩ := standsAt_of_findStr hfind
    have hs : trimmed input = x ++ ':' :: '/' :: '/' :: y := hs
    rw [parse_found hs hfind]
    split
    · rfl
    · next hhttp =>
      split
      · rfl
      · next hne =>
        have hscheme : lower x = http ∨ lower x = https := by
          by_contra hnot
          exact hhttp (not_or.mp hnot)
        refine absurd ?_ h
        refine ⟨{ scheme := x, authority := y.takeWhile (!authorityEnds ·),
                  rest := y.dropWhile (!authorityEnds ·), scheme_http := hscheme,
                  authority_ne := hne, authority_chars := fun c hc => ?_,
                  rest_head := fun c hc => ?_ }, ?_⟩
        · simpa using List.mem_takeWhile_imp hc
        · have hnot := List.head?_dropWhile_not (!authorityEnds ·) y
          rw [Option.mem_def.mp hc] at hnot
          simpa using hnot
        · rw [AbsoluteUrl.text, List.takeWhile_append_dropWhile, hs]

end Urls

end PlainRs.HttpUrl
