import PlainRs.Base.Components
import PlainRs.Base.Separators
import PlainRs.Utils.HttpUrl

/-! What of the base a reference that is resolved against it keeps. -/
namespace PlainRs.HttpUrl

open Checked PlainRs.Utils Text

variable {input base reference s scheme host authority rest path x y : List Char}
  {c d : Char} {port : Option ℕ} {p : ℕ} {b : ParsedHttpUrl} {segs out : List (List Char)}

section Lowering

/-- A character that no letter is made is itself. -/
theorem eq_of_toLower {c d : Char} (h : c.toLower = d) (hd : d.toNat < 97 ∨ 122 < d.toNat) :
    c = d := by
  rw [Char.toLower] at h
  split at h
  · next hupper =>
    have hval : c.val + 32 = d.val := congrArg Char.val h
    have hlow : (65 : UInt32) ≤ c.val := hupper.1
    have hhigh : c.val ≤ (90 : UInt32) := hupper.2
    have hnat := congrArg UInt32.toNat hval
    rw [UInt32.le_iff_toNat_le] at hlow hhigh
    rw [UInt32.toNat_add] at hnat
    have h65 : (65 : UInt32).toNat = 65 := rfl
    have h90 : (90 : UInt32).toNat = 90 := rfl
    have h32 : (32 : UInt32).toNat = 32 := rfl
    simp only [Char.toNat] at hd
    omega
  · exact h

theorem mem_lower (hc : c.toNat < 97 ∨ 122 < c.toNat) (h : c ∈ lower s) : c ∈ s := by
  obtain ⟨d, hd, hlow⟩ := List.mem_map.mp h
  rwa [← eq_of_toLower hlow hc]

theorem lower_lower (s : List Char) : lower (lower s) = lower s := by
  rw [lower, lower, List.map_map]
  exact List.map_congr_left fun c _ => c.toLower_toLower_eq_toLower

end Lowering

/-- What a URL that is accepted is. -/
structure Accepted (b : ParsedHttpUrl) : Prop where
  scheme : b.scheme = http ∨ b.scheme = https
  host_ne : b.host ≠ []
  host_chars : ∀ c ∈ b.host, authorityEnds c = false
  host_bracket : b.host.head? = some '[' → ']' ∉ b.host
  host_lower : lower b.host = b.host
  port_lt : ∀ n ∈ b.port, n < 2 ^ 16
  path_head : b.path.head? = some '/'
  path_chars : '?' ∉ b.path

/-- The port unless it is the default of the scheme. -/
def ParsedHttpUrl.writtenPort (b : ParsedHttpUrl) : Option ℕ :=
  b.port.filter fun p => ¬ ((b.scheme = http ∧ p = 80) ∨ (b.scheme = https ∧ p = 443))

def defaultPort (scheme : List Char) : ℕ := if scheme = http then 80 else 443

def ParsedHttpUrl.effectivePort (b : ParsedHttpUrl) : ℕ := b.port.getD (defaultPort b.scheme)

/-- The host is read again where it is written without brackets. -/
def ParsedHttpUrl.HostKept (b : ParsedHttpUrl) : Prop :=
  b.host.head? ≠ some '[' ∧
    (b.writtenPort ≠ none ∨ ':' ∉ b.host ∨ b.host.getLast? = some ':')

section Accepting

theorem accepted_of_parse (h : parseHttpUrl input = .ok (some b)) : Accepted b := by
  by_cases hu : ∃ u : AbsoluteUrl, u.text = trimmed input
  · obtain ⟨u, hu⟩ := hu
    obtain ⟨r, hr, hfacts⟩ := splitHostPort_spec u.authority
    rw [parse_absolute u hu.symm, hr] at h
    cases r with
    | none => cases h
    | some hostPort =>
      obtain ⟨host, port⟩ := hostPort
      obtain ⟨hmem, hbracket, hport⟩ := hfacts host port rfl
      have h : assemble u.scheme u.rest (host, port) = some b := Except.ok.inj h
      rw [assemble] at h
      split_ifs at h with hread
      obtain ⟨hne, hslash⟩ := hread
      cases h
      have hclose : ∀ c : Char, c.toNat < 97 ∨ 122 < c.toNat → c ∈ lower host → c ∈ host :=
        fun c hc hlow => mem_lower hc hlow
      refine ⟨u.scheme_http, ?_, ?_, ?_, lower_lower host, hport, ?_, ?_⟩
      · exact fun hnil => hne (List.map_eq_nil_iff.mp hnil)
      · intro c hc
        by_contra hends
        rw [Bool.not_eq_false] at hends
        have hlow : c.toNat < 97 ∨ 122 < c.toNat := by
          simp only [authorityEnds, Bool.or_eq_true, decide_eq_true_eq] at hends
          rcases hends with (rfl | rfl) | rfl <;> decide
        have hin := u.authority_chars c (hmem c (hclose c hlow hc))
        rw [hends] at hin
        cases hin
      · intro hhead hmem'
        cases hhost : host with
        | nil => exact hne hhost
        | cons d rest =>
          rw [hhost] at hhead
          have hd : d = '[' := eq_of_toLower (Option.some.inj hhead) (by decide)
          refine hbracket ?_ (hclose ']' (by decide) hmem')
          rw [hhost, hd]
          rfl
      · exact (head?_takeWhile_ne u.rest).mpr hslash
      · intro hq
        simpa using List.mem_takeWhile_imp hq
  · rw [parse_other hu] at h
    cases h

/-- The host and the port as they are written. -/
theorem hostPort_eq (b : ParsedHttpUrl) :
    b.hostPort = b.writtenPort.elim b.host fun p => b.host ++ ':' :: Nat.toDigits 10 p := by
  rw [ParsedHttpUrl.hostPort, ParsedHttpUrl.writtenPort]
  cases b.port with
  | none => rfl
  | some p =>
    rw [Option.filter_some, Option.elim_some]
    by_cases hdefault : (b.scheme = http ∧ p = 80) ∨ (b.scheme = https ∧ p = 443)
    · simp [hdefault]
    · simp [hdefault]

/-- No port is written just when the default is meant. -/
theorem effectivePort_of_none (h : b.writtenPort = none) :
    b.effectivePort = defaultPort b.scheme := by
  rw [ParsedHttpUrl.effectivePort]
  cases hport : b.port with
  | none => rfl
  | some p =>
    rw [ParsedHttpUrl.writtenPort, hport, Option.filter_some] at h
    have hdefault : (b.scheme = http ∧ p = 80) ∨ (b.scheme = https ∧ p = 443) := by
      by_contra hnot
      simp [hnot] at h
    have hne : https ≠ http := by decide
    rcases hdefault with ⟨hs, rfl⟩ | ⟨hs, rfl⟩
    · rw [Option.getD_some, defaultPort, if_pos hs]
    · rw [Option.getD_some, defaultPort, if_neg (hs ▸ hne)]

theorem parseU16_toDigits (hp : p < 2 ^ 16) : parseU16 (Nat.toDigits 10 p) = some p := by
  have hdigits : ∀ c ∈ Nat.toDigits 10 p, c.isDigit = true :=
    fun c hc => Nat.isDigit_of_mem_toDigits (by omega) le_rfl hc
  have hplus : (Nat.toDigits 10 p).head? ≠ some '+' := by
    intro hhead
    have hplus := hdigits '+' (List.mem_of_mem_head? hhead)
    simp at hplus
  rw [parseU16, if_neg hplus, natOfDigits_of_isDigit Nat.toDigits_ne_nil hdigits,
    Nat.ofDigitChars_ten_toDigits, Option.filter_some, if_pos (by simpa using hp)]

/-- What is written for host and port is read back just when the host is kept. -/
theorem reread_iff (hb : Accepted b) : (∃ h q, splitHostPort b.hostPort = .ok (some (h, q)) ∧
      h ≠ [] ∧ lower h = b.host ∧ q.getD (defaultPort b.scheme) = b.effectivePort) ↔
    b.HostKept := by
  have hdigits : ∀ n, ∀ c ∈ Nat.toDigits 10 n, c.isDigit = true :=
    fun n c hc => Nat.isDigit_of_mem_toDigits (by omega) le_rfl hc
  rw [hostPort_eq, ParsedHttpUrl.HostKept]
  by_cases hhead : b.host.head? = some '['
  · refine iff_of_false ?_ fun h => h.1 hhead
    obtain ⟨rest, hrest⟩ : ∃ rest, b.host = '[' :: rest := by
      cases hhost : b.host with
      | nil => exact absurd hhost hb.host_ne
      | cons c rest =>
        rw [hhost] at hhead
        exact ⟨rest, by rw [Option.some.inj hhead]⟩
    have hclose : ']' ∉ rest := fun hmem =>
      hb.host_bracket hhead (hrest ▸ List.mem_cons_of_mem _ hmem)
    have hnone : splitHostPort (b.writtenPort.elim b.host fun p =>
        b.host ++ ':' :: Nat.toDigits 10 p) = .ok none := by
      cases b.writtenPort with
      | none => rw [Option.elim_none, hrest, splitHostPort_open hclose]
      | some n =>
        rw [Option.elim_some, hrest, List.cons_append, splitHostPort_open]
        rw [List.mem_append, List.mem_cons, not_or, not_or]
        refine ⟨hclose, by decide, fun hmem => ?_⟩
        have hdigit := hdigits n ']' hmem
        simp at hdigit
    rintro ⟨h, q, hsplit, -⟩
    rw [hnone] at hsplit
    cases hsplit
  · cases hport : b.writtenPort with
    | some n =>
      refine iff_of_true ?_ ⟨hhead, .inl (Option.some_ne_none n)⟩
      have hb' : b.port = some n := by
        rw [ParsedHttpUrl.writtenPort, Option.filter_eq_some_iff] at hport
        exact hport.1
      have hopen : (b.host ++ ':' :: Nat.toDigits 10 n).head? ≠ some '[' := by
        rw [List.head?_append]
        cases hhost : b.host with
        | nil => exact absurd hhost hb.host_ne
        | cons c rest => rwa [hhost] at hhead
      have hcolon : ':' ∉ Nat.toDigits 10 n := by
        intro hmem
        have hdigit := hdigits n ':' hmem
        simp at hdigit
      refine ⟨b.host, some n, ?_, hb.host_ne, hb.host_lower, ?_⟩
      · rw [Option.elim_some, splitHostPort_colon hopen hcolon, if_neg Nat.toDigits_ne_nil,
          parseU16_toDigits (hb.port_lt n hb')]
        rfl
      · rw [ParsedHttpUrl.effectivePort, hb']
    | none =>
      rw [Option.elim_none, effectivePort_of_none hport]
      by_cases hcolon : ':' ∈ b.host
      · obtain ⟨x, y, hhost, hy⟩ := exists_last hcolon
        have hopen : (x ++ ':' :: y).head? ≠ some '[' := hhost ▸ hhead
        have hsplit := splitHostPort_colon hopen hy
        rw [← hhost] at hsplit
        by_cases hnil : y = []
        · rw [if_pos hnil] at hsplit
          refine iff_of_true ⟨_, _, hsplit, hb.host_ne, hb.host_lower, rfl⟩
            ⟨hhead, .inr (.inr ?_)⟩
          rw [hhost, hnil]
          exact List.getLast?_concat
        · rw [if_neg hnil] at hsplit
          refine iff_of_false ?_ ?_
          · rintro ⟨h, q, hread, -, hlow, -⟩
            rw [hsplit] at hread
            obtain ⟨n, -, heq⟩ := Option.map_eq_some_iff.mp (Except.ok.inj hread)
            cases heq
            -- The host that is read is shorter.
            have hlen := congrArg List.length hlow
            rw [lower, List.length_map, hhost, List.length_append, List.length_cons] at hlen
            omega
          · rintro ⟨-, hwritten | hnone | hlast⟩
            · exact hwritten rfl
            · exact hnone hcolon
            · rw [hhost, List.getLast?_append, List.getLast?_cons] at hlast
              have hmem : ':' ∈ y := by
                obtain ⟨z, hz⟩ := Option.ne_none_iff_exists'.mp
                  (fun h => hnil (List.getLast?_eq_none_iff.mp h))
                rw [hz, Option.getD_some, Option.some_or, Option.some_inj] at hlast
                rw [← hlast]
                exact List.mem_of_getLast? hz
              exact hy hmem
      · exact iff_of_true ⟨_, _, splitHostPort_plain hhead hcolon, hb.host_ne, hb.host_lower, rfl⟩
          ⟨hhead, .inr (.inl hcolon)⟩

end Accepting

section Segments

theorem foldl_enter_append (out segs : List (List Char)) (h : ∀ seg ∈ segs, seg ≠ ['.'] ∧
    seg ≠ ['.', '.']) : segs.foldl enterSegment out = out ++ segs := by
  induction segs generalizing out with
  | nil => exact (List.append_nil out).symm
  | cons seg segs ih =>
    rw [List.forall_mem_cons] at h
    rw [List.foldl_cons, enterSegment, if_neg h.1.1, if_neg h.1.2, ih _ h.2, List.append_assoc,
      List.singleton_append]

/-- What is left are segments that were there and are not dots. -/
theorem mem_foldl_enter {seg : List Char} (h : seg ∈ segs.foldl enterSegment out) :
    seg ∈ out ∨ (seg ∈ segs ∧ seg ≠ ['.'] ∧ seg ≠ ['.', '.']) := by
  induction segs generalizing out with
  | nil => exact .inl h
  | cons first segs ih =>
    rcases ih h with h | ⟨h, hdots⟩
    · rw [enterSegment] at h
      split_ifs at h with hdot hdots hpop
      · exact .inl h
      · exact .inl (List.mem_of_mem_dropLast h)
      · exact .inl h
      · rcases List.mem_append.mp h with h | h
        · exact .inl h
        · rw [List.mem_singleton.mp h]
          exact .inr ⟨List.mem_cons_self, hdot, hdots⟩
    · exact .inr ⟨List.mem_cons_of_mem _ h, hdots⟩

/-- No empty segment is taken away. -/
theorem count_enter (out : List (List Char)) (seg : List Char) :
    (enterSegment out seg).count [] = out.count [] + [seg].count [] := by
  have hother : seg ≠ [] → [seg].count [] = 0 := by
    intro hne
    rw [List.count_eq_zero, List.mem_singleton]
    exact Ne.symm hne
  rw [enterSegment]
  split_ifs with hdot hdots hpop
  · rw [hother (by simp [hdot]), Nat.add_zero]
  · rw [hother (by simp [hdots]), Nat.add_zero]
    obtain ⟨last, hlast⟩ : ∃ last, out.getLast? = some last := by
      cases hlast : out.getLast? with
      | none => simp [hlast] at hpop
      | some last => exact ⟨last, rfl⟩
    have hne : last ≠ [] := by simpa [hlast] using hpop
    obtain ⟨front, rfl⟩ := List.getLast?_eq_some_iff.mp hlast
    have hzero : [last].count [] = 0 := by
      rw [List.count_eq_zero, List.mem_singleton]
      exact Ne.symm hne
    rw [List.dropLast_concat, List.count_append, hzero, Nat.add_zero]
  · rw [hother (by simp [hdots]), Nat.add_zero]
  · rw [List.count_append]

theorem count_foldl_enter (out segs : List (List Char)) :
    (segs.foldl enterSegment out).count [] = out.count [] + segs.count [] := by
  induction segs generalizing out with
  | nil => rfl
  | cons seg segs ih =>
    have hcons : (seg :: segs).count [] = [seg].count [] + segs.count [] := by
      rw [← List.count_append, List.singleton_append]
    rw [List.foldl_cons, ih, count_enter, hcons, Nat.add_assoc]

/-- The first segment stays if it is empty. -/
theorem head?_foldl_enter (h : out.head? = some []) :
    (segs.foldl enterSegment out).head? = some [] := by
  induction segs generalizing out with
  | nil => exact h
  | cons seg segs ih =>
    refine ih ?_
    obtain ⟨rest, rfl⟩ : ∃ rest, out = [] :: rest := by
      cases out with
      | nil => cases h
      | cons first rest => exact ⟨rest, by rw [Option.some.inj h]⟩
    rw [enterSegment]
    split_ifs with hdot hdots hpop
    · rfl
    · cases rest with
      | nil => simp at hpop
      | cons second rest => rfl
    · rfl
    · rfl

/-- A path that begins at the root is resolved to one. -/
theorem head?_collapse (h : path.head? = some '/') :
    (collapseDotSegments path).head? = some '/' := by
  rw [collapseDotSegments]
  split_ifs with hjoined
  · rfl
  · by_contra hnot
    exact hjoined ⟨h, hnot⟩

theorem mem_collapse (h : c ∈ collapseDotSegments path) : c = '/' ∨ c ∈ path := by
  have hsegs : ∀ out : List (List Char), (∀ seg ∈ out, seg ∈ path.splitOn '/') →
      c ∈ ['/'].intercalate out → c = '/' ∨ c ∈ path := by
    intro out hout hc
    rcases Separators.mem_intercalate hc with hc | ⟨seg, hseg, hc⟩
    · exact .inl hc
    · have hmem : c ∈ ['/'].intercalate (path.splitOn '/') :=
        Separators.mem_intercalate_of_mem (hout seg hseg) hc
      rw [List.intercalate_splitOn] at hmem
      exact .inr hmem
  have hout : ∀ seg ∈ (path.splitOn '/').foldl enterSegment [], seg ∈ path.splitOn '/' := by
    intro seg hseg
    rcases mem_foldl_enter hseg with hnil | ⟨hmem, -⟩
    · cases hnil
    · exact hmem
  rw [collapseDotSegments] at h
  split_ifs at h
  · rcases List.mem_cons.mp h with h | h
    · exact .inl h
    · exact hsegs _ hout h
  · exact hsegs _ hout h

/-- What stands behind two slashes is not all that is left of a path. -/
theorem collapse_ne {front auth p : List Char} (hfront : front.head? = some '/') :
    collapseDotSegments (front ++ '/' :: '/' :: (auth ++ '/' :: p)) ≠ '/' :: p := by
  obtain ⟨f, rfl⟩ : ∃ f, front = '/' :: f := by
    cases front with
    | nil => cases hfront
    | cons c f => exact ⟨f, by rw [Option.some.inj hfront]⟩
  have hslash : ∀ l : List Char, ('/' :: l).splitOn '/' = [] :: l.splitOn '/' :=
    fun l => List.splitOn_append_cons_self [] l
  -- The segments in front of the path, two of which are empty.
  generalize hlead : [] :: f.splitOn '/' ++ ([] :: auth.splitOn '/') = lead
  have hsplit : ('/' :: f ++ '/' :: '/' :: (auth ++ '/' :: p)).splitOn '/' =
      lead ++ p.splitOn '/' := by
    rw [← hlead, List.cons_append, hslash, List.splitOn_append_cons_self, hslash,
      List.splitOn_append_cons_self]
    simp
  have htwo : 2 ≤ lead.count [] := by
    rw [← hlead, List.count_append, List.count_cons_self, List.count_cons_self]
    omega
  have hfold : (lead ++ p.splitOn '/').foldl enterSegment [] =
      (p.splitOn '/').foldl enterSegment (lead.foldl enterSegment []) := List.foldl_append
  generalize houtput : (lead ++ p.splitOn '/').foldl enterSegment [] = output at hfold
  have hhead : output.head? = some [] := by
    rw [← houtput, ← hlead]
    have hfirst : enterSegment [] [] = [[]] := rfl
    rw [List.cons_append, List.cons_append, List.foldl_cons, hfirst]
    exact head?_foldl_enter rfl
  have hlen : 2 ≤ output.length := by
    have hcount := count_foldl_enter [] (lead ++ p.splitOn '/')
    rw [houtput, List.count_append] at hcount
    have hle := List.count_le_length (a := ([] : List Char)) (l := output)
    omega
  have hmem : ∀ seg ∈ output, '/' ∉ seg ∧ seg ≠ ['.'] ∧ seg ≠ ['.', '.'] := by
    intro seg hseg
    rw [← houtput, ← hsplit] at hseg
    rcases mem_foldl_enter hseg with hnil | ⟨hin, hdots⟩
    · cases hnil
    · exact ⟨Components.not_mem_of_mem_splitOn hin, hdots⟩
  intro heq
  obtain ⟨second, others, rfl⟩ : ∃ second others, output = [] :: second :: others := by
    match output, hhead, hlen with
    | first :: second :: others, hhead, _ => exact ⟨second, others, by rw [Option.some.inj hhead]⟩
  have hroot : (['/'].intercalate ([] :: second :: others)).head? = some '/' := rfl
  rw [collapseDotSegments, hsplit, houtput, if_neg fun h => h.2 hroot] at heq
  have hsegs := congrArg (List.splitOn '/') heq
  rw [List.splitOn_intercalate '/' (fun seg hseg => (hmem seg hseg).1) (List.cons_ne_nil _ _),
    hslash] at hsegs
  have hrest := (List.cons_eq_cons.mp hsegs).2
  -- No segment of the rest is a dot, so that all of it stands behind the segments in front.
  rw [foldl_enter_append _ _ fun seg hseg =>
    (hmem seg (List.mem_cons_of_mem _ (hrest ▸ hseg))).2] at hfold
  have hsize := congrArg List.length hfold
  have hcount := count_foldl_enter [] lead
  have hle := List.count_le_length (a := ([] : List Char)) (l := lead.foldl enterSegment [])
  rw [List.length_append, ← hrest, List.length_cons] at hsize
  have hzero : ([] : List (List Char)).count [] = 0 := rfl
  omega

end Segments

section Joining

theorem trimmed_keeps (hx : ∀ c ∈ x.head?, isWhitespace c = false) (hne : x ≠ []) (y : List Char) :
    ∃ y', trimmed (x ++ '/' :: y) = x ++ '/' :: y' := by
  have hfront : (x ++ '/' :: y).dropWhile isWhitespace = x ++ '/' :: y := by
    cases x with
    | nil => exact absurd rfl hne
    | cons c x => exact List.dropWhile_cons_of_neg (by simp [hx c rfl])
  have hslash : isWhitespace '/' = false := by decide
  have hback : (x ++ '/' :: y).reverse = y.reverse ++ '/' :: x.reverse := by simp
  refine ⟨(y.reverse.dropWhile isWhitespace).reverse, ?_⟩
  rw [trimmed_eq_rdropWhile, hfront, List.rdropWhile, hback, List.dropWhile_append]
  split
  · next hnil =>
    rw [List.isEmpty_iff.mp hnil, List.dropWhile_cons_of_neg (by simp [hslash])]
    simp
  · simp

theorem join_empty (h : trimmed reference = []) : join base reference = .ok (some base) := by
  rw [join]
  dsimp only
  rw [if_pos h]
  rfl

theorem join_read (hne : trimmed reference ≠ [])
    (hread : parseHttpUrl (trimmed reference) = .ok (some b)) :
    join base reference = .ok (some (trimmed reference)) := by
  rw [join]
  dsimp only
  rw [if_neg hne, hread, ok_bind, if_pos Option.isSome_some]
  rfl

/-- The path and the query that a reference is resolved to. -/
theorem join_eq (hb : parseHttpUrl base = .ok (some b)) (hne : trimmed reference ≠ [])
    (hnone : parseHttpUrl (trimmed reference) = .ok none) :
    ∃ query, join base reference = (do
      let path ← if ((trimmed reference).takeWhile (· ≠ '?')).head? = some '/' then
          pure ((trimmed reference).takeWhile (· ≠ '?'))
        else do
          let dir ← cut b.path 0 ((rfindByte '/' b.path).getD 0 + 1)
          pure (collapseDotSegments (dir ++ (trimmed reference).takeWhile (· ≠ '?')))
      pure (some (b.scheme ++ ':' :: '/' :: '/' :: b.hostPort ++ path ++
        if query = [] then [] else '?' :: query))) := by
  have hread : ∀ k : ParsedHttpUrl → Checked (Option (List Char)),
      orNone (.ok (some b)) k = k b := fun k => rfl
  have hunread : ¬ (none : Option ParsedHttpUrl).isSome = true := Bool.false_ne_true
  unfold join
  dsimp only
  rw [if_neg hne, hnone, ok_bind, if_neg hunread, hb, hread, cutAround rfl, ok_bind]
  refine ⟨if '?' ∈ trimmed reference then ((trimmed reference).dropWhile (· ≠ '?')).tail
    else b.query, ?_⟩
  with_reducible rfl

theorem cut_dir (hpath : b.path = x ++ '/' :: y) (hy : '/' ∉ y) :
    cut b.path 0 ((rfindByte '/' b.path).getD 0 + 1) = .ok (x ++ ['/']) := by
  have happ : x ++ '/' :: y = (x ++ ['/']) ++ y := by simp
  have hlen : String.utf8Len (x ++ ['/']) = String.utf8Len x + 1 := by
    rw [String.utf8Len_append]
    rfl
  rw [hpath, rfindByte_append hy, Option.getD_some, happ, ← hlen]
  exact cut_append

/-- A reference that is not read as a URL gives a path, behind the host and the port. -/
theorem join_relative (hb : parseHttpUrl base = .ok (some b)) (hne : trimmed reference ≠ [])
    (hnone : parseHttpUrl (trimmed reference) = .ok none) : ∃ path tail,
    join base reference =
      .ok (some (b.scheme ++ ':' :: '/' :: '/' :: (b.hostPort ++ (path ++ tail)))) ∧
    path.head? = some '/' ∧ '?' ∉ path ∧ (∀ c ∈ tail.head?, c = '?') ∧
    (path = (trimmed reference).takeWhile (· ≠ '?') ∨ ∃ dir, dir.head? = some '/' ∧
      path = collapseDotSegments (dir ++ (trimmed reference).takeWhile (· ≠ '?'))) := by
  have hacc := accepted_of_parse hb
  have hmark : '?' ∉ (trimmed reference).takeWhile (· ≠ '?') := by
    intro hmem
    simpa using List.mem_takeWhile_imp hmem
  obtain ⟨query, hjoin⟩ := join_eq hb hne hnone
  have htail : ∀ c ∈ (if query = [] then [] else '?' :: query).head?, c = '?' := by
    intro c hc
    split at hc
    · cases hc
    · exact (Option.some.inj hc).symm
  have happ : ∀ path : List Char,
      b.scheme ++ ':' :: '/' :: '/' :: b.hostPort ++ path ++
        (if query = [] then [] else '?' :: query) =
      b.scheme ++ ':' :: '/' :: '/' :: (b.hostPort ++ (path ++
        if query = [] then [] else '?' :: query)) := by
    intro path
    simp
  by_cases hroot : ((trimmed reference).takeWhile (· ≠ '?')).head? = some '/'
  · rw [if_pos hroot, pure_bind] at hjoin
    dsimp only at hjoin
    rw [happ] at hjoin
    exact ⟨_, _, hjoin, hroot, hmark, htail, .inl rfl⟩
  · obtain ⟨x, y, hpath, hy⟩ := exists_last (List.mem_of_mem_head? hacc.path_head)
    rw [if_neg hroot, cut_dir hpath hy, ok_bind, pure_bind] at hjoin
    dsimp only at hjoin
    rw [happ] at hjoin
    have hdir : (x ++ ['/']).head? = some '/' := by
      have hhead := hacc.path_head
      rw [hpath] at hhead
      cases x with
      | nil => rfl
      | cons c x => exact hhead
    have hfull : (x ++ ['/'] ++ (trimmed reference).takeWhile (· ≠ '?')).head? = some '/' := by
      rw [List.head?_append, hdir]
      rfl
    refine ⟨_, _, hjoin, head?_collapse hfull, fun hmem => ?_, htail, .inr ⟨_, hdir, rfl⟩⟩
    rcases mem_collapse hmem with hslash | hmem
    · cases hslash
    · rcases List.mem_append.mp hmem with hmem | hmem
      · refine hacc.path_chars ?_
        rw [hpath]
        rcases List.mem_append.mp hmem with hmem | hmem
        · exact List.mem_append_left _ hmem
        · simp at hmem
      · exact hmark hmem

end Joining

section Keeping

variable {u : AbsoluteUrl}

/-- It has a path, and a host and a port are read from its authority. -/
def AbsoluteUrl.Readable (u : AbsoluteUrl) : Prop :=
  u.rest.head? = some '/' ∧
    ∃ host port, splitHostPort u.authority = .ok (some (host, port)) ∧ host ≠ []

theorem parse_split {r : Option (List Char × Option ℕ)} (h : trimmed input = u.text)
    (hsplit : splitHostPort u.authority = .ok r) :
    parseHttpUrl input = .ok (r.bind (assemble u.scheme u.rest)) := by
  rw [parse_absolute u h, hsplit]
  cases r <;> rfl

theorem parse_readable (h : trimmed input = u.text) (hread : u.Readable) :
    ∃ p, parseHttpUrl input = .ok (some p) := by
  obtain ⟨hslash, host, port, hsplit, hne⟩ := hread
  rw [parse_split h hsplit, Option.bind_some, assemble, if_pos ⟨hne, hslash⟩]
  exact ⟨_, rfl⟩

theorem parse_unreadable (h : trimmed input = u.text) (hread : ¬ u.Readable) :
    parseHttpUrl input = .ok none := by
  obtain ⟨r, hsplit, -⟩ := splitHostPort_spec u.authority
  rw [parse_split h hsplit]
  cases r with
  | none => rfl
  | some hostPort =>
    have hparts : ¬ (hostPort.1 ≠ [] ∧ u.rest.head? = some '/') := by
      rintro ⟨hne, hslash⟩
      exact hread ⟨hslash, hostPort.1, hostPort.2, hsplit, hne⟩
    rw [Option.bind_some, assemble, if_neg hparts]

theorem hostPort_chars (hacc : Accepted b) : ∀ c ∈ b.hostPort, authorityEnds c = false := by
  rw [hostPort_eq]
  cases b.writtenPort with
  | none => exact hacc.host_chars
  | some n =>
    intro c hc
    rw [Option.elim_some, List.mem_append, List.mem_cons] at hc
    rcases hc with hc | rfl | hc
    · exact hacc.host_chars c hc
    · rfl
    · by_contra hends
      rw [Bool.not_eq_false] at hends
      have hdigit : c.isDigit = true := Nat.isDigit_of_mem_toDigits (by omega) le_rfl hc
      simp only [authorityEnds, Bool.or_eq_true, decide_eq_true_eq] at hends
      rcases hends with (rfl | rfl) | rfl <;> simp at hdigit

theorem hostPort_ne (hacc : Accepted b) : b.hostPort ≠ [] := by
  rw [hostPort_eq]
  cases b.writtenPort with
  | none => exact hacc.host_ne
  | some n =>
    intro hnil
    exact hacc.host_ne (List.append_eq_nil_iff.mp hnil).1

theorem lower_scheme (hacc : Accepted b) : lower b.scheme = b.scheme := by
  rcases hacc.scheme with h | h <;> rw [h] <;> decide

/-- A path behind the host and the port is read with them just when the host is kept. -/
theorem parse_joined (hacc : Accepted b) (hpath : path.head? = some '/') :
    (∃ p, parseHttpUrl (b.scheme ++ ':' :: '/' :: '/' :: (b.hostPort ++ path)) = .ok (some p) ∧
      p.scheme = b.scheme ∧ p.host = b.host ∧ p.effectivePort = b.effectivePort) ↔
      b.HostKept := by
  obtain ⟨more, rfl⟩ : ∃ more, path = '/' :: more := by
    cases path with
    | nil => cases hpath
    | cons c more => exact ⟨more, by rw [Option.some.inj hpath]⟩
  have hfirst : ∀ c ∈ (b.scheme ++ ':' :: '/' :: '/' :: b.hostPort).head?,
      isWhitespace c = false := by
    intro c hc
    rcases hacc.scheme with h | h
    · rw [h] at hc
      rw [← Option.some.inj hc]
      decide
    · rw [h] at hc
      rw [← Option.some.inj hc]
      decide
  obtain ⟨kept, htrim⟩ := trimmed_keeps hfirst (by simp) more
  have happ : ∀ l, b.scheme ++ ':' :: '/' :: '/' :: b.hostPort ++ l =
      b.scheme ++ ':' :: '/' :: '/' :: (b.hostPort ++ l) := by
    intro l
    simp
  rw [happ, happ] at htrim
  have hscheme := lower_scheme hacc
  let u : AbsoluteUrl :=
    { scheme := b.scheme, authority := b.hostPort, rest := '/' :: kept,
      scheme_http := by rw [hscheme]; exact hacc.scheme,
      authority_ne := hostPort_ne hacc, authority_chars := hostPort_chars hacc,
      rest_head := fun c hc => by rw [← Option.some.inj hc]; rfl }
  obtain ⟨r, hsplit, -⟩ := splitHostPort_spec u.authority
  rw [← reread_iff hacc, parse_split htrim hsplit, show b.hostPort = u.authority from rfl, hsplit]
  constructor
  · rintro ⟨p, hp, -, hhost, hport⟩
    obtain ⟨⟨host, port⟩, rfl, hmade⟩ := Option.bind_eq_some_iff.mp (Except.ok.inj hp)
    rw [assemble] at hmade
    split_ifs at hmade with hparts
    cases hmade
    have hport : port.getD (defaultPort (lower b.scheme)) = b.effectivePort := hport
    rw [hscheme] at hport
    exact ⟨host, port, rfl, hparts.1, hhost, hport⟩
  · rintro ⟨host, port, hr, hne, hhost, hport⟩
    cases hr
    have hslash : u.rest.head? = some '/' := rfl
    rw [Option.bind_some, assemble, if_pos ⟨hne, hslash⟩]
    refine ⟨_, rfl, hscheme, hhost, ?_⟩
    rw [← hport, ← hscheme]
    rfl

theorem mark_notMem (h : ∀ c ∈ x, authorityEnds c = false) : '?' ∉ x := by
  intro hmem
  cases h '?' hmem

/-- A URL that is not read is not what it is resolved to. -/
theorem joined_ne {tail : List Char} (hacc : Accepted b) (hpath : path.head? = some '/')
    (hmark : '?' ∉ path) (htail : ∀ c ∈ tail.head?, c = '?')
    (hfrom : path = u.text.takeWhile (· ≠ '?') ∨ ∃ dir : List Char, dir.head? = some '/' ∧
      path = collapseDotSegments (dir ++ u.text.takeWhile (· ≠ '?'))) :
    b.scheme ++ ':' :: '/' :: '/' :: (b.hostPort ++ (path ++ tail)) ≠ u.text := by
  intro heq
  obtain ⟨p, rfl⟩ : ∃ p, path = '/' :: p := by
    cases path with
    | nil => cases hpath
    | cons c p => exact ⟨p, by rw [Option.some.inj hpath]⟩
  have hcolon : ':' ∉ b.scheme := colon_notMem_scheme (by rw [lower_scheme hacc]; exact hacc.scheme)
  rw [AbsoluteUrl.text, Separators.append_sep_inj hcolon (colon_notMem_scheme u.scheme_http)] at heq
  have hbehind : b.hostPort ++ ('/' :: p ++ tail) = u.authority ++ u.rest :=
    (List.cons_eq_cons.mp (List.cons_eq_cons.mp heq.2).2).2
  have hends : ∀ c ∈ ('/' :: p ++ tail).head?, authorityEnds c = true := by
    intro c hc
    rw [← Option.some.inj hc]
    rfl
  have hhost := span_authority (hostPort_chars hacc) hends
  rw [hbehind, (span_authority u.authority_chars u.rest_head).2] at hhost
  have hrest : u.rest = '/' :: p ++ tail := hhost.2
  -- What stands before the query is all that the path is made of.
  have hfront : u.text.takeWhile (· ≠ '?') =
      u.scheme ++ ':' :: '/' :: '/' :: (u.authority ++ '/' :: p) := by
    have htext : u.text = u.scheme ++ ':' :: '/' :: '/' :: (u.authority ++ '/' :: p) ++ tail := by
      rw [AbsoluteUrl.text, hrest]
      simp
    rw [htext, takeWhile_ne_append _ htail]
    simp only [List.mem_append, List.mem_cons, not_or]
    rw [List.mem_cons, not_or] at hmark
    exact ⟨notMem_scheme u.scheme_http (by decide), by decide, by decide, by decide,
      mark_notMem u.authority_chars, hmark⟩
  rw [hfront] at hfrom
  rcases hfrom with hsame | ⟨dir, hdir, hmade⟩
  · have hlen := congrArg List.length hsame
    simp only [List.length_append, List.length_cons] at hlen
    omega
  · have happ : dir ++ (u.scheme ++ ':' :: '/' :: '/' :: (u.authority ++ '/' :: p)) =
        dir ++ u.scheme ++ [':'] ++ '/' :: '/' :: (u.authority ++ '/' :: p) := by simp
    have hdir' : (dir ++ u.scheme ++ [':']).head? = some '/' := by
      rw [List.head?_append, List.head?_append, hdir]
      rfl
    rw [happ] at hmade
    exact collapse_ne hdir' hmade.symm

/-- A URL is returned as it is; what else a reference gives is read with the base's authority. -/
def KeepsAuthority (b : ParsedHttpUrl) (reference : List Char)
    (result : Checked (Option (List Char))) : Prop :=
  ∃ out, result = .ok (some out) ∧
    ((∃ u : AbsoluteUrl, u.text = trimmed reference) → out = trimmed reference) ∧
    ((¬ ∃ u : AbsoluteUrl, u.text = trimmed reference) → ∃ p, parseHttpUrl out = .ok (some p) ∧
      p.scheme = b.scheme ∧ p.host = b.host ∧ p.effectivePort = b.effectivePort)

theorem join_keeps_iff (hb : parseHttpUrl base = .ok (some b)) (reference : List Char) :
    KeepsAuthority b reference (join base reference) ↔
      (∀ u : AbsoluteUrl, u.text = trimmed reference → u.Readable) ∧
      ((¬ ∃ u : AbsoluteUrl, u.text = trimmed reference) →
        trimmed reference = [] ∨ b.HostKept) := by
  have hacc := accepted_of_parse hb
  by_cases hu : ∃ u : AbsoluteUrl, u.text = trimmed reference
  · obtain ⟨u, htext⟩ := hu
    have htrim : trimmed (trimmed reference) = u.text := by rw [trimmed_trimmed, htext]
    have hne : trimmed reference ≠ [] := by
      rw [← htext]
      simp [AbsoluteUrl.text]
    by_cases hread : u.Readable
    · obtain ⟨p, hparse⟩ := parse_readable htrim hread
      refine iff_of_true ⟨_, join_read hne hparse, fun _ => rfl, fun h => absurd ⟨u, htext⟩ h⟩
        ⟨fun v hv => ?_, fun h => absurd ⟨u, htext⟩ h⟩
      by_contra hnot
      rw [parse_unreadable (by rw [trimmed_trimmed, hv]) hnot] at hparse
      cases hparse
    · obtain ⟨path, tail, hjoin, hpath, hmark, htail, hfrom⟩ :=
        join_relative hb hne (parse_unreadable htrim hread)
      refine iff_of_false ?_ fun h => hread (h.1 u htext)
      rintro ⟨out, hout, hsame, -⟩
      rw [hjoin] at hout
      cases hout
      rw [← htext] at hfrom hsame
      exact joined_ne hacc hpath hmark htail hfrom (hsame ⟨u, rfl⟩)
  · have hvoid : ∀ u : AbsoluteUrl, u.text = trimmed reference → u.Readable :=
      fun u htext => absurd ⟨u, htext⟩ hu
    by_cases hnil : trimmed reference = []
    · exact iff_of_true ⟨base, join_empty hnil, fun h => absurd h hu,
        fun _ => ⟨b, hb, rfl, rfl, rfl⟩⟩ ⟨hvoid, fun _ => .inl hnil⟩
    · have hnone : parseHttpUrl (trimmed reference) = .ok none := by
        refine parse_other ?_
        rwa [trimmed_trimmed]
      obtain ⟨path, tail, hjoin, hpath, -⟩ := join_relative hb hnil hnone
      have hfull : (path ++ tail).head? = some '/' := by
        rw [List.head?_append, hpath]
        rfl
      constructor
      · rintro ⟨out, hout, -, hkept⟩
        rw [hjoin] at hout
        cases hout
        exact ⟨hvoid, fun _ => .inr ((parse_joined hacc hfull).mp (hkept hu))⟩
      · rintro ⟨-, hkept⟩
        have hkept := (hkept hu).resolve_left hnil
        exact ⟨_, hjoin, fun h => absurd h hu, fun _ => (parse_joined hacc hfull).mpr hkept⟩

theorem join_keeps_sibling :
    KeepsAuthority ⟨http, ['e', '.', 'c'], none, ['/', 'a', '/', 'b'], []⟩
        ['.', '.', '/', 'c', '/', 'd']
        (join ['h', 't', 't', 'p', ':', '/', '/', 'e', '.', 'c', '/', 'a', '/', 'b']
          ['.', '.', '/', 'c', '/', 'd']) ↔
      (∀ u : AbsoluteUrl, u.text = trimmed ['.', '.', '/', 'c', '/', 'd'] → u.Readable) ∧
      ((¬ ∃ u : AbsoluteUrl, u.text = trimmed ['.', '.', '/', 'c', '/', 'd']) →
        trimmed ['.', '.', '/', 'c', '/', 'd'] = [] ∨
        ParsedHttpUrl.HostKept ⟨http, ['e', '.', 'c'], none, ['/', 'a', '/', 'b'], []⟩) :=
  join_keeps_iff (by decide +kernel) _

/-- A URL without a path is taken for a path, and an address loses its brackets. -/
theorem join_buries_url :
    (∃ b, parseHttpUrl ['h', 't', 't', 'p', ':', '/', '/', 'e', '/', 'a', '/'] = .ok (some b) ∧
      ¬ KeepsAuthority b ['h', 't', 't', 'p', ':', '/', '/', 'x', '.', 'c']
        (join ['h', 't', 't', 'p', ':', '/', '/', 'e', '/', 'a', '/']
          ['h', 't', 't', 'p', ':', '/', '/', 'x', '.', 'c'])) ∧
    join ['h', 't', 't', 'p', ':', '/', '/', '[', ':', ':', '1', ']', '/'] ['c'] =
      .ok (some ['h', 't', 't', 'p', ':', '/', '/', ':', ':', '1', '/', 'c']) ∧
    (parseHttpUrl ['h', 't', 't', 'p', ':', '/', '/', '[', ':', ':', '1', ']', '/'] =
        .ok (some ⟨http, [':', ':', '1'], none, ['/'], []⟩)) ∧
    (parseHttpUrl ['h', 't', 't', 'p', ':', '/', '/', ':', ':', '1', '/', 'c'] =
        .ok (some ⟨http, [':'], some 1, ['/', 'c'], []⟩)) := by
  refine ⟨⟨⟨http, ['e'], none, ['/', 'a', '/'], []⟩, by decide +kernel, ?_⟩, by decide +kernel,
    by decide +kernel, by decide +kernel⟩
  have hout : join ['h', 't', 't', 'p', ':', '/', '/', 'e', '/', 'a', '/']
      ['h', 't', 't', 'p', ':', '/', '/', 'x', '.', 'c'] =
      .ok (some (['h', 't', 't', 'p', ':', '/', '/', 'e', '/', 'a', '/'] ++
        ['h', 't', 't', 'p', ':', '/', '/', 'x', '.', 'c'])) := by decide +kernel
  have htrim : trimmed ['h', 't', 't', 'p', ':', '/', '/', 'x', '.', 'c'] =
      ['h', 't', 't', 'p', ':', '/', '/', 'x', '.', 'c'] := by decide +kernel
  rintro ⟨out, hjoin, hsame, -⟩
  rw [hout] at hjoin
  cases hjoin
  rw [htrim] at hsame
  let u : AbsoluteUrl :=
    { scheme := http, authority := ['x', '.', 'c'], rest := [], scheme_http := by decide,
      authority_ne := by decide, authority_chars := by simp [authorityEnds], rest_head := nofun }
  have heq := congrArg List.length (hsame ⟨u, rfl⟩)
  simp at heq

end Keeping

end PlainRs.HttpUrl
