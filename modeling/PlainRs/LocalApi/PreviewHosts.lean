import PlainRs.LocalApi.UrlGuard

/-! Which link previews are kept from local hosts. -/
namespace PlainRs.LocalApi

open Uri PlainRs.Utils

/-- The text that begins with the authority of what a reference on a page is resolved to; `rest` is
the page without its scheme. -/
def authorityText (rest ref : List Char) : List Char :=
  if "http://".toList <+: ref then ref.drop 7
  else if "https://".toList <+: ref then ref.drop 8
  else if "//".toList <+: ref then ref.drop 2
  else rest

variable {toLowercase : List Char → List Char} {wordChar : Char → Bool}
  {scheme rest text x y ref url : List Char}

theorem schemeEnd_of_isLetter {letter : Char} (hletter : letter ∈ ['h', 't', 'p', 's'])
    (hc : isLetter letter c = true) : schemeEnd c = false := by
  by_contra hend
  have hmark : c = ':' ∨ c = '/' ∨ c = '?' ∨ c = '#' := by
    simp only [schemeEnd, Bool.not_eq_false, Bool.or_eq_true, decide_eq_true_eq] at hend
    tauto
  have hsame : c = letter := by
    rcases hmark with rfl | rfl | rfl | rfl <;> simpa [isLetter, Char.toLower] using hc
  rw [← hsame] at hletter
  rcases hmark with rfl | rfl | rfl | rfl <;> simp at hletter

theorem matchScheme_spec (hm : matchScheme text = some (scheme, rest)) :
    text = scheme ++ rest ∧ Scheme scheme := by
  unfold matchScheme at hm
  split at hm
  · next a b c d tail =>
    split at hm
    · next hletters =>
      simp only [Bool.and_eq_true] at hletters
      obtain ⟨⟨⟨ha, hb⟩, hc⟩, hd⟩ := hletters
      have hend : ∀ x ∈ [a, b, c, d], schemeEnd x = false := by
        simp [schemeEnd_of_isLetter (by simp) ha, schemeEnd_of_isLetter (by simp) hb,
          schemeEnd_of_isLetter (by simp) hc, schemeEnd_of_isLetter (by simp) hd]
      split at hm
      · next e tail =>
        split at hm
        · next he =>
          cases hm
          refine ⟨rfl, by simp, ?_⟩
          intro x hx
          rcases List.mem_append.mp (show x ∈ [a, b, c, d] ++ [e] from hx) with hx | hx
          · exact hend x hx
          · rw [List.mem_singleton.mp hx]
            exact schemeEnd_of_isLetter (by simp) he
        · cases hm
          exact ⟨rfl, by simp, hend⟩
      · cases hm
        exact ⟨rfl, by simp, hend⟩
    · cases hm
  · cases hm

theorem matchMarked_spec {mark : Char} {p : Char → Bool} (text : List Char) :
    (matchMarked mark p text).1 ++ (matchMarked mark p text).2 = text ∧
      ((matchMarked mark p text).1 = [] ∨
        ∃ t, (matchMarked mark p text).1 = mark :: t ∧ ∀ c ∈ t, p c = true) := by
  cases text with
  | nil => exact ⟨rfl, .inl rfl⟩
  | cons c text =>
    rw [matchMarked]
    split
    · next hc =>
      refine ⟨?_, .inr ⟨text.takeWhile p, by rw [hc], fun d hd => List.mem_takeWhile_imp hd⟩⟩
      rw [List.cons_append, List.takeWhile_append_dropWhile]
    · exact ⟨rfl, .inl rfl⟩

theorem matchPort_spec (text : List Char) :
    (matchPort text).1 ++ (matchPort text).2 = text ∧
      ((matchPort text).1 = [] ∨
        ∃ t, (matchPort text).1 = ':' :: t ∧ ∀ c ∈ t, c.isDigit = true) := by
  unfold matchPort
  dsimp only
  split
  · exact ⟨rfl, .inl rfl⟩
  · exact matchMarked_spec text

theorem matchPath_spec (text : List Char) :
    (matchPath wordChar text).1 ++ (matchPath wordChar text).2 = text ∧
      ∀ c ∈ (matchPath wordChar text).1.head?, c = '/' := by
  unfold matchPath
  dsimp only
  split
  · exact ⟨rfl, by simp⟩
  · next hne =>
    obtain ⟨hwhole, hnil | ⟨t, ht, -⟩⟩ :=
      @matchMarked_spec '/' (fun c => wordChar c || c ∈ ['/', '_', '.', '-']) text
    · exact absurd hnil hne
    · refine ⟨?_, ?_⟩
      · rw [List.append_assoc, List.append_assoc, (matchMarked_spec _).1, (matchMarked_spec _).1,
          hwhole]
      · rw [ht]
        intro c hc
        exact (Option.some.inj hc).symm

theorem eq_of_slashes {tail : List Char} (hslashes : ['/', '/'] <+: tail.tail)
    (hcolon : tail.head? = some ':') : tail = ':' :: '/' :: '/' :: tail.drop 3 := by
  cases tail with
  | nil => cases hcolon
  | cons c tail =>
    obtain ⟨rest, rfl⟩ : ∃ rest, '/' :: '/' :: rest = tail := hslashes
    rw [Option.some.inj hcolon]
    rfl

theorem matchUrl_spec (hm : matchUrl wordChar text = some (url, rest)) :
    text = url ++ rest ∧ ∃ scheme name port path,
      url = behindScheme scheme (name ++ (port ++ path)) ∧ Scheme scheme ∧
      (∀ c ∈ name, hostChar wordChar c = true) ∧
      (∀ c ∈ port, c = ':' ∨ c.isDigit = true) ∧ ∀ c ∈ path.head?, c = '/' := by
  unfold matchUrl at hm
  simp only [Option.bind_eq_bind, Option.bind_eq_some_iff, Prod.exists, Option.guard_eq_some',
    Option.pure_def, Option.some.injEq, Prod.mk.injEq] at hm
  obtain ⟨scheme, tail, hscheme, -, ⟨hslashes, hcolon⟩, -, -, rfl, rfl⟩ := hm
  obtain ⟨rfl, hs⟩ := matchScheme_spec hscheme
  have hname := List.takeWhile_append_dropWhile (p := hostChar wordChar) (l := tail.drop 3)
  obtain ⟨hport, hports⟩ := matchPort_spec ((tail.drop 3).dropWhile (hostChar wordChar))
  obtain ⟨hpath, hslash⟩ := @matchPath_spec wordChar
    (matchPort ((tail.drop 3).dropWhile (hostChar wordChar))).2
  refine ⟨?_, scheme, _, _, _, rfl, hs, fun c hc => List.mem_takeWhile_imp hc, ?_, hslash⟩
  · rw [← hpath] at hport
    rw [← hport] at hname
    nth_rewrite 1 [eq_of_slashes hslashes hcolon]
    nth_rewrite 1 [← hname]
    simp only [List.append_assoc, List.cons_append]
  · intro c hc
    rcases hports with hnil | ⟨ds, hds, hdigits⟩
    · rw [hnil] at hc
      cases hc
    · rw [hds] at hc
      rcases List.mem_cons.mp hc with rfl | hc
      · exact .inl rfl
      · exact .inr (hdigits c hc)

theorem length_of_matchUrl (hm : matchUrl wordChar text = some (url, rest)) :
    rest.length < text.length := by
  obtain ⟨htext, scheme, name, port, path, hurl, -⟩ := matchUrl_spec hm
  rw [htext, hurl]
  simp only [List.length_append, List.length_cons]
  omega

/-- More fuel than characters finds nothing more. -/
theorem findUrls_of_length_le {n : ℕ} (h : text.length ≤ n) :
    findUrls wordChar n text = findUrls wordChar text.length text := by
  induction n using Nat.strong_induction_on generalizing text with
  | _ n ih =>
    cases text with
    | nil => cases n <;> rfl
    | cons c text =>
      rw [List.length_cons] at h
      obtain ⟨m, rfl⟩ : ∃ m, n = m + 1 := ⟨n - 1, by omega⟩
      rw [List.length_cons, findUrls, findUrls]
      cases hm : matchUrl wordChar (c :: text) with
      | none => exact ih m (by omega) (by omega)
      | some found =>
        have hlen := length_of_matchUrl hm
        rw [List.length_cons] at hlen
        have hrest : found.2.length ≤ text.length := by omega
        dsimp only
        rw [ih m (by omega) (hrest.trans (by omega)), ih text.length (by omega) hrest]

/-- The guard sees the host of every URL that the expression finds. -/
theorem fits_of_matchUrl (hw : ∀ c ∈ ['@', '?', '#'], wordChar c = false)
    (hm : matchUrl wordChar text = some (url, rest)) :
    ∃ scheme r, Scheme scheme ∧ url = behindScheme scheme r ∧
      AuthorityFits toLowercase r := by
  obtain ⟨-, scheme, name, port, path, hurl, hs, hname, hport, hslash⟩ := matchUrl_spec hm
  refine ⟨scheme, _, hs, hurl, ?_⟩
  rw [← List.append_assoc, fits_append hslash]
  apply fits_of_notMem
  have hhost : ∀ c ∈ ['@', '?', '#'], hostChar wordChar c = false := by
    intro c hc
    have hne : ∀ d ∈ ['@', '?', '#'], d ≠ '-' ∧ d ≠ '.' := by simp
    simp [hostChar, hw c hc, hne c hc]
  intro c hc
  rcases List.mem_append.mp hc with hc | hc
  · have hchar := hname c hc
    refine ⟨?_, ?_, ?_⟩ <;> rintro rfl <;> rw [hhost _ (by simp)] at hchar <;> cases hchar
  · rcases hport c hc with rfl | hd
    · decide
    · refine ⟨?_, ?_, ?_⟩ <;> rintro rfl <;> exact absurd hd (by decide)

theorem exists_match_of_mem {n : ℕ} (h : url ∈ findUrls wordChar n text) :
    ∃ text rest, matchUrl wordChar text = some (url, rest) := by
  induction n generalizing text with
  | zero =>
    rw [findUrls] at h
    cases h
  | succ n ih =>
    cases text with
    | nil => cases h
    | cons c text =>
      rw [findUrls] at h
      split at h
      · next found rest hm =>
        rcases List.mem_cons.mp h with rfl | h
        · exact ⟨_, _, hm⟩
        · exact ih h
      · exact ih h

theorem mem_collectUrls {urls found : List (List Char)}
    (h : url ∈ collectUrls toLowercase urls found) :
    url ∈ urls ∨ (url ∈ found ∧ isValidUrl toLowercase url = true) := by
  induction found generalizing urls with
  | nil => exact .inl h
  | cons u found ih =>
    have hadd : url ∈ urls ++ [u] → isValidUrl toLowercase u = true →
        url ∈ urls ∨ (url ∈ u :: found ∧ isValidUrl toLowercase url = true) := by
      intro hmem hvalid
      rcases List.mem_append.mp hmem with hmem | hmem
      · exact .inl hmem
      · rw [List.mem_singleton.mp hmem]
        exact .inr ⟨List.mem_cons_self, hvalid⟩
    rw [collectUrls] at h
    split at h
    · next hu =>
      split at h
      · exact hadd h hu.1
      · rcases ih h with hmem | ⟨hmem, hvalid⟩
        · exact hadd hmem hu.1
        · exact .inr ⟨List.mem_cons_of_mem _ hmem, hvalid⟩
    · rcases ih h with hmem | ⟨hmem, hvalid⟩
      · exact .inl hmem
      · exact .inr ⟨List.mem_cons_of_mem _ hmem, hvalid⟩

theorem extracted (hw : ∀ c ∈ ['@', '?', '#'], wordChar c = false)
    (h : url ∈ extractUrls toLowercase wordChar text) :
    isValidUrl toLowercase url = true ∧ ∃ scheme r, Scheme scheme ∧
      url = behindScheme scheme r ∧ AuthorityFits toLowercase r := by
  rcases mem_collectUrls h with hmem | ⟨hmem, hvalid⟩
  · cases hmem
  · obtain ⟨_, _, hm⟩ := exists_match_of_mem hmem
    exact ⟨hvalid, fits_of_matchUrl hw hm⟩

theorem splitOnce_eq_some {sep : Char} (hs : splitOnce sep text = some (x, y)) :
    text = x ++ sep :: y := by
  have hwhole := List.takeWhile_append_dropWhile (p := (· ≠ sep)) (l := text)
  have hstop := stops_dropWhile (· ≠ sep) text
  rw [splitOnce] at hs
  split at hs
  · cases hs
  · next c rest hdrop =>
    cases hs
    rw [hdrop] at hwhole hstop
    have hc : c = sep := by simpa using hstop c rfl
    rw [hc] at hwhole
    exact hwhole.symm

/-- The host and the port that `resolve_url` cuts apart are the host and the port again. -/
theorem split_port (host : List Char) :
    ((splitOnce ':' host).elim (host, []) fun (h, port) => (h, ':' :: port)).1 ++
      ((splitOnce ':' host).elim (host, []) fun (h, port) => (h, ':' :: port)).2 = host := by
  cases hs : splitOnce ':' host with
  | none => simp
  | some p => exact (splitOnce_eq_some hs).symm

theorem splitOnceAt_prefix (h : x <+: text) :
    splitOnceAt x text = some ([], text.drop x.length) := by
  cases text with
  | nil =>
    rw [List.prefix_nil.mp h]
    rfl
  | cons c text => rw [splitOnceAt, if_pos h]

/-- The directory of a page is its host and the path up to the last slash. -/
theorem dir_eq (rest : List Char) : ∃ path,
    (rsplitOnce '/' rest).elim rest (·.1) = rest.takeWhile (· ≠ '/') ++ path ∧
      ∀ c ∈ path.head?, c = '/' := by
  have hwhole := List.takeWhile_append_dropWhile (p := (· ≠ '/')) (l := rest)
  have hstop := stops_dropWhile (· ≠ '/') rest
  cases hs : rsplitOnce '/' rest with
  | none =>
    refine ⟨rest.dropWhile (· ≠ '/'), hwhole.symm, ?_⟩
    intro c hc
    simpa using hstop c hc
  | some p =>
    obtain ⟨⟨l, r⟩, hsplit, rfl⟩ := Option.map_eq_some_iff.mp hs
    have hrest : rest = r.reverse ++ '/' :: l.reverse := by
      rw [← List.reverse_reverse rest, splitOnce_eq_some hsplit]
      simp
    refine ⟨r.reverse.dropWhile (· ≠ '/'), ?_, ?_⟩
    · have hsame : rest.takeWhile (· ≠ '/') = r.reverse.takeWhile (· ≠ '/') := by
        rw [hrest]
        refine takeWhile_append_stops ?_
        intro c hc
        rw [← Option.some.inj hc]
        rfl
      rw [hsame, List.takeWhile_append_dropWhile]
      rfl
    · intro c hc
      simpa using stops_dropWhile (· ≠ '/') r.reverse c hc

/-- A reference is resolved to a URL whose authority stands at the start of `authorityText`. -/
theorem resolveUrl_scheme (hs : Scheme scheme) : ∃ scheme' r, Scheme scheme' ∧
    resolveUrl (behindScheme scheme rest) ref = behindScheme scheme' r ∧
      (AuthorityFits toLowercase r ↔ AuthorityFits toLowercase (authorityText rest ref)) := by
  unfold resolveUrl authorityText
  rw [splitOnceAt_scheme hs.2]
  dsimp only [Option.elim_some]
  by_cases hhttp : "http://".toList <+: ref
  · rw [if_pos (.inl hhttp), if_pos hhttp]
    obtain ⟨r, rfl⟩ := hhttp
    exact ⟨"http".toList, r, ⟨by simp, by simp [schemeEnd]⟩, rfl, Iff.rfl⟩
  by_cases hhttps : "https://".toList <+: ref
  · rw [if_pos (.inr hhttps), if_neg hhttp, if_pos hhttps]
    obtain ⟨r, rfl⟩ := hhttps
    exact ⟨"https".toList, r, ⟨by simp, by simp [schemeEnd]⟩, rfl, Iff.rfl⟩
  rw [if_neg (not_or.mpr ⟨hhttp, hhttps⟩), if_neg hhttp, if_neg hhttps]
  by_cases hslashes : "//".toList <+: ref
  · rw [if_pos hslashes, if_pos hslashes]
    obtain ⟨r, rfl⟩ := hslashes
    exact ⟨scheme, r, hs, rfl, Iff.rfl⟩
  rw [if_neg hslashes, if_neg hslashes]
  -- The other references keep the host of the page, and begin a path behind it.
  have hwhole := List.takeWhile_append_dropWhile (p := (· ≠ '/')) (l := rest)
  have hrest : AuthorityFits toLowercase (rest.takeWhile (· ≠ '/')) ↔
      AuthorityFits toLowercase rest := by
    nth_rewrite 2 [← hwhole]
    refine (fits_append ?_).symm
    intro c hc
    simpa using stops_dropWhile (· ≠ '/') rest c hc
  have hport := split_port (rest.takeWhile (· ≠ '/'))
  by_cases hslash : "/".toList <+: ref
  · rw [if_pos hslash]
    refine ⟨scheme, _, hs, rfl, ?_⟩
    rw [← List.append_assoc, hport, fits_append, hrest]
    obtain ⟨r, rfl⟩ := hslash
    intro c hc
    exact (Option.some.inj hc).symm
  · rw [if_neg hslash]
    refine ⟨scheme, _, hs, rfl, ?_⟩
    obtain ⟨path, hdir, hpath⟩ := dir_eq rest
    rw [hdir, splitOnceAt_prefix (List.prefix_append _ _), ← List.append_assoc, hport, fits_append,
      hrest]
    dsimp only [Option.elim_some]
    rw [List.drop_left]
    cases path with
    | nil =>
      intro c hc
      exact (Option.some.inj hc).symm
    | cons d path => exact hpath

/-- Exactly when link previews are kept from local hosts: always for the URLs found in a message and
for the icon of a parsed host, for other URLs and references if their authority does not mislead the
guard. -/
theorem link_previews_remote_iff (hw : ∀ c ∈ ['@', '?', '#'], wordChar c = false)
    (hl : AsciiLowering toLowercase) :
    (∀ text, ∀ url ∈ extractUrls toLowercase wordChar text, Remote url ∧
      ∃ scheme rest, Scheme scheme ∧ url = behindScheme scheme rest ∧
        AuthorityFits toLowercase rest) ∧
    ∀ scheme rest, Scheme scheme →
      ((isValidUrl toLowercase (behindScheme scheme rest) = true →
        Remote (behindScheme scheme rest)) ↔ AuthorityFits toLowercase rest) ∧
      (∀ ref, (isValidUrl toLowercase (resolveUrl (behindScheme scheme rest) ref) = true →
        Remote (resolveUrl (behindScheme scheme rest) ref)) ↔
          AuthorityFits toLowercase (authorityText rest ref)) ∧
      ((∀ c ∈ rest, c ≠ '@' ∧ c ≠ '?' ∧ c ≠ '#') →
        isValidUrl toLowercase (faviconUrl scheme rest) = true →
          Remote (faviconUrl scheme rest)) := by
  refine ⟨?_, ?_⟩
  · intro text url hmem
    obtain ⟨hvalid, scheme, r, hs, rfl, hfits⟩ := extracted hw hmem
    exact ⟨(remote_of_valid_iff hs hl).mpr hfits hvalid, scheme, r, hs, rfl, hfits⟩
  · intro scheme rest hs
    refine ⟨remote_of_valid_iff hs hl, ?_, ?_⟩
    · intro ref
      obtain ⟨scheme', r, hs', hurl, hfits⟩ := resolveUrl_scheme hs
      rw [hurl, remote_of_valid_iff hs' hl, hfits]
    · intro hhost
      refine (remote_of_valid_iff hs hl).mpr ?_
      refine (fits_append ?_).mpr (fits_of_notMem hhost)
      intro c hc
      exact (Option.some.inj hc).symm

/-- The word characters of ASCII. -/
def asciiWord (c : Char) : Bool := c.isAlphanum || c = '_'

theorem asciiLowering_map : AsciiLowering (List.map Char.toLower) := by
  intro a s _
  refine ⟨s.map Char.toLower, List.map_append, ?_⟩
  rintro rfl
  rfl

theorem link_previews_remote_icon :
    Remote "http://example.com".toList ∧
      Remote (resolveUrl "http://example.com".toList "/icon.png".toList) := by
  have hword : ∀ c ∈ ['@', '?', '#'], asciiWord c = false := by simp [asciiWord]
  obtain ⟨hfound, hrefs⟩ := link_previews_remote_iff hword asciiLowering_map
  obtain ⟨hpage, -⟩ := hfound "see http://example.com".toList "http://example.com".toList
    (by decide +kernel)
  refine ⟨hpage, ?_⟩
  have hscheme : Scheme "http".toList := ⟨by simp, by simp [schemeEnd]⟩
  obtain ⟨-, hresolved, -⟩ := hrefs "http".toList "example.com".toList hscheme
  refine (hresolved "/icon.png".toList).mpr ?_ (by decide +kernel)
  have htext : authorityText "example.com".toList "/icon.png".toList = "example.com".toList := by
    decide +kernel
  rw [htext]
  exact fits_of_notMem (by simp)

/-- The guard looks at the userinfo. -/
theorem link_preview_userinfo :
    "http://example.com".toList ∈
        extractUrls (List.map Char.toLower) asciiWord "see http://example.com".toList ∧
      isValidUrl (List.map Char.toLower)
        (resolveUrl "http://example.com".toList "http://a@127.0.0.1/".toList) = true ∧
      ¬ Remote (resolveUrl "http://example.com".toList "http://a@127.0.0.1/".toList) := by
  refine ⟨by decide +kernel, by decide +kernel, ?_⟩
  have hresolved : resolveUrl "http://example.com".toList "http://a@127.0.0.1/".toList =
      behindScheme "http".toList "a@127.0.0.1/".toList := by decide +kernel
  rw [hresolved, remote_scheme ⟨by simp, by simp [schemeEnd]⟩, not_not]
  exact .inr ⟨127, 0, 0, 1, by omega, by omega, by omega, .inl rfl, by decide +kernel⟩

end PlainRs.LocalApi
