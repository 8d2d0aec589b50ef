import PlainRs.Base.Keyed
import PlainRs.LocalApi.Dlna.SoapPanics
import PlainRs.LocalApi.Dlna.XmlEntities

/-! SOAP requests as controllers write them, and the parameters that are read from them. -/
namespace PlainRs.Dlna

open Checked Text

section Requests

/-- White space between elements. -/
abbrev Gap := {cs : List Char // ∀ c ∈ cs, c ∈ [' ', '\t', '\n', '\r']}

/-- The characters that end a name, or make another kind of tag of one that they begin. -/
def notInNames : List Char := [' ', '\t', '\n', '\r', '/', '>', '<', '!', '?', '#', '"']

def IsName (cs : List Char) : Prop := cs ≠ [] ∧ ∀ c ∈ cs, c ∉ notInNames

/-- The attributes of a tag, behind white space. -/
abbrev Attributes := {cs : List Char // (∀ c ∈ cs.head?, c ∈ [' ', '\t', '\n', '\r']) ∧
  '<' ∉ cs ∧ '>' ∉ cs ∧ cs.getLast? ≠ some '/'}

/-- A prefix with its colon, or nothing. -/
abbrev Qualifier := {cs : List Char // (∀ c ∈ cs, c ∉ notInNames) ∧ ∀ c ∈ cs.getLast?, c = ':'}

/-- The prefix and the attributes of an element that is not a parameter. -/
structure SoapTag where
  qualifier : Qualifier
  attributes : Attributes

def SoapTag.qname (t : SoapTag) (name : List Char) : List Char := t.qualifier ++ name

structure SoapParam where
  gap : Gap
  name : {cs : List Char // IsName cs}
  value : List Char

/-- A request for an action, in an envelope with any prefixes, attributes and white space. -/
structure SoapRequest where
  action : {cs : List Char // IsName cs ∧ ':' ∉ cs}
  params : List SoapParam
  distinct : (params.map (·.name)).Nodup
  declaration : Option {cs : List Char // '>' ∉ cs}
  envelope : SoapTag
  body : SoapTag
  call : SoapTag
  beforeEnvelope : Gap
  beforeBody : Gap
  beforeCall : Gap
  afterParams : Gap
  afterCall : Gap
  afterBody : Gap
  afterEnvelope : Gap

def tag (content rest : List Char) : List Char := '<' :: (content ++ '>' :: rest)

def SoapTag.opening (t : SoapTag) (name rest : List Char) : List Char :=
  tag (t.qname name ++ t.attributes) rest

def SoapTag.closing (t : SoapTag) (name rest : List Char) : List Char :=
  tag ('/' :: t.qname name) rest

def SoapParam.text (p : SoapParam) (rest : List Char) : List Char :=
  p.gap ++ tag p.name (escapeXml p.value ++ tag ('/' :: p.name) rest)

def envelopeName : List Char := ['E', 'n', 'v', 'e', 'l', 'o', 'p', 'e']

def bodyName : List Char := ['B', 'o', 'd', 'y']

/-- What follows the parameters. -/
def SoapRequest.ending (r : SoapRequest) : List Char :=
  r.afterParams ++ r.call.closing r.action (r.afterCall ++ r.body.closing bodyName
    (r.afterBody ++ r.envelope.closing envelopeName r.afterEnvelope))

/-- What follows the tag of the body. -/
def SoapRequest.inBody (r : SoapRequest) : List Char :=
  r.beforeCall ++ r.call.opening r.action (r.params.foldr SoapParam.text r.ending)

def SoapRequest.text (r : SoapRequest) : List Char :=
  r.declaration.elim id (fun d => tag ('?' :: d)) (r.beforeEnvelope ++
    r.envelope.opening envelopeName (r.beforeBody ++ r.body.opening bodyName r.inBody))

/-- The names with their values. -/
def valuesOf (params : List SoapParam) : SoapParams := fun key =>
  (params.find? fun p => String.ofList p.name = key).map fun p => String.ofList p.value

end Requests

variable {xml : String} {action pre post content name attributes junk text : List Char} {pos : Nat}
  {params : SoapParams} {ps : List SoapParam} {p : SoapParam} {r : SoapRequest}

section Tags

theorem length_bytes_of_standsAt {c : Char} (h : StandsAt (pre ++ c :: post) pos xml.toList) :
    pos < (bytes xml).length := by
  have hlen := h.length_le
  have hbytes := length_bytes xml.toList
  have hc := c.utf8Size_pos
  rw [String.ofList_toList] at hbytes
  rw [String.utf8Len_append, String.utf8Len_cons] at hlen
  omega

/-- The next tag is the one that stands behind what has no tag. -/
theorem nextTag_found (h : StandsAt (junk ++ tag content post) pos xml.toList) (hjunk : '<' ∉ junk)
    (hcontent : '>' ∉ content) : ∃ (next : Nat) (hlt : pos < next),
      nextTag xml pos = .ok (some (content, ⟨next, hlt⟩)) ∧ StandsAt post next xml.toList := by
  have hopen := position_found (by decide) h hjunk
  have htag : StandsAt (('<' :: content) ++ '>' :: post) (pos + String.utf8Len junk) xml.toList :=
    h.append
  have hclose := position_found (by decide) htag (by simp [hcontent])
  rw [String.ofList_toList] at hopen hclose
  have hinside : StandsAt (content ++ '>' :: post) (pos + String.utf8Len junk + 1) xml.toList :=
    htag.tail
  have hlen : String.utf8Len ('<' :: content) = String.utf8Len content + 1 := String.utf8Len_cons ..
  have hend : pos + String.utf8Len junk + String.utf8Len ('<' :: content) =
      pos + String.utf8Len junk + 1 + String.utf8Len content := by omega
  obtain ⟨_, hcut, hsame⟩ := cut_spec hinside hend
  rw [hsame] at hcut
  refine ⟨pos + String.utf8Len junk + String.utf8Len ('<' :: content) + 1, by omega, ?_, ?_⟩
  · rw [nextTag, hopen, ok_bind]
    simp only [hclose, ok_bind, hcut]
    rfl
  · have hpost : StandsAt post (pos + String.utf8Len junk + 1 + String.utf8Len content + 1)
        xml.toList := hinside.append.tail
    convert hpost using 1
    omega

/-- What a scan sees of an opening tag: a name, and that the tag is of no other kind. -/
theorem opening_facts (hname : IsName name)
    (ha : (∀ c ∈ attributes.head?, c ∈ [' ', '\t', '\n', '\r']) ∧
      '<' ∉ attributes ∧ '>' ∉ attributes ∧ attributes.getLast? ≠ some '/') :
    ('<' ∉ name ++ attributes ∧ '>' ∉ name ++ attributes) ∧
      (name ++ attributes).head? ∉ [some '/', some '!', some '?'] ∧
      (name ++ attributes).getLast? ≠ some '/' ∧
      firstPiece [' ', '\t', '\n', '\r', '/', '>'] (name ++ attributes) = name := by
  obtain ⟨hne, hchars⟩ := hname
  obtain ⟨hhead, hopen, hclose, hlast⟩ := ha
  have hnot : ∀ c ∈ notInNames, c ∉ name := fun c hc hmem => hchars c hmem hc
  refine ⟨⟨?_, ?_⟩, ?_, ?_, ?_⟩
  · rw [List.mem_append, not_or]
    exact ⟨hnot '<' (by simp [notInNames]), hopen⟩
  · rw [List.mem_append, not_or]
    exact ⟨hnot '>' (by simp [notInNames]), hclose⟩
  · obtain ⟨c, name, rfl⟩ := List.exists_cons_of_ne_nil hne
    have hc := hchars c List.mem_cons_self
    simp only [notInNames, List.mem_cons, List.not_mem_nil, or_false, not_or] at hc
    simp [hc]
  · by_cases hnil : attributes = []
    · rw [hnil, List.append_nil]
      intro hslash
      exact hnot '/' (by simp [notInNames]) (List.mem_of_getLast? hslash)
    · rwa [List.getLast?_append_of_ne_nil _ hnil]
  · have hall : ∀ c ∈ name, decide (c ∉ [' ', '\t', '\n', '\r', '/', '>']) = true := by
      intro c hc
      have hc := hchars c hc
      simp only [notInNames, List.mem_cons, List.not_mem_nil, or_false, not_or] at hc
      simp [hc]
    have hstop : attributes.takeWhile (· ∉ [' ', '\t', '\n', '\r', '/', '>']) = [] := by
      cases attributes with
      | nil => rfl
      | cons c attributes =>
        have hc := hhead c rfl
        rw [List.takeWhile_cons_of_neg]
        simp only [List.mem_cons, List.not_mem_nil, or_false] at hc
        rcases hc with rfl | rfl | rfl | rfl <;> simp
    rw [firstPiece, List.takeWhile_append_of_pos hall, hstop, List.append_nil]

theorem isName_qname (t : SoapTag) (hname : IsName name) : IsName (t.qname name) := by
  refine ⟨List.append_ne_nil_of_right_ne_nil _ hname.1, ?_⟩
  intro c hc
  rcases List.mem_append.mp hc with hc | hc
  · exact t.qualifier.property.1 c hc
  · exact hname.2 c hc

theorem isAttributes_nil : (∀ c ∈ ([] : List Char).head?, c ∈ [' ', '\t', '\n', '\r']) ∧
    '<' ∉ ([] : List Char) ∧ '>' ∉ ([] : List Char) ∧ ([] : List Char).getLast? ≠ some '/' := by
  simp

/-- A prefix does not make a name end with a name that has no colon. -/
theorem suffix_qname_iff (t : SoapTag) (hcolon : ':' ∉ action) :
    action <:+ t.qname name ↔ action <:+ name := by
  constructor
  · intro h
    rcases List.suffix_or_suffix_of_suffix h (List.suffix_append _ _) with h' | ⟨front, rfl⟩
    · exact h'
    · obtain ⟨before, hbefore⟩ := h
      rw [← List.append_assoc] at hbefore
      have hfront : before ++ front = t.qualifier := List.append_cancel_right hbefore
      by_cases hnil : front = []
      · rw [hnil]
        exact List.suffix_rfl
      · have hlast : t.qualifier.val.getLast? = some (front.getLast hnil) := by
          rw [← hfront, List.getLast?_append_of_ne_nil _ hnil, List.getLast?_eq_some_getLast hnil]
        have hc := t.qualifier.property.2 _ hlast
        exact absurd (List.mem_append_left name (hc ▸ List.getLast_mem hnil)) hcolon
  · intro h
    exact h.trans (List.suffix_append _ _)

end Tags

section Scan

theorem findAction_step (action : List Char)
    (h : StandsAt (junk ++ tag content post) pos xml.toList) (hjunk : '<' ∉ junk)
    (hcontent : '>' ∉ content) :
    ∃ next, StandsAt post next xml.toList ∧ findAction xml action pos =
      if content.head? ∉ [some '/', some '!', some '?'] ∧
          action <:+ firstPiece [' ', '\t', '\n', '\r', '/', '>'] content then .ok (some next)
      else findAction xml action next := by
  obtain ⟨next, hlt, htag, hpost⟩ := nextTag_found h hjunk hcontent
  refine ⟨next, hpost, ?_⟩
  rw [findAction, if_pos (length_bytes_of_standsAt h), htag, ok_bind]
  rfl

/-- A closing tag ends the loop or is passed over. -/
theorem readParams_closing (h : StandsAt (junk ++ tag ('/' :: name) post) pos xml.toList)
    (hjunk : '<' ∉ junk) (hname : IsName name) :
    ∃ next, StandsAt post next xml.toList ∧ readParams xml action pos params =
      if action <:+ name then .ok params else readParams xml action next params := by
  have hnot : ∀ c ∈ notInNames, c ∉ name := fun c hc hmem => hname.2 c hmem hc
  have hcontent : '>' ∉ '/' :: name := by
    simp [hnot '>' (by simp [notInNames])]
  obtain ⟨next, hlt, htag, hpost⟩ := nextTag_found h hjunk hcontent
  refine ⟨next, hpost, ?_⟩
  have hpiece : firstPiece [' ', '\t', '\n', '\r', '>'] name = name := by
    rw [firstPiece, List.takeWhile_eq_self_iff]
    intro c hc
    have hc := hname.2 c hc
    simp only [notInNames, List.mem_cons, List.not_mem_nil, or_false, not_or] at hc
    simp [hc]
  rw [readParams, if_pos (length_bytes_of_standsAt h), htag, ok_bind]
  simp only [hpiece]
  rfl

/-- An element is read with the text up to the next tag, of which the bracket is lost. -/
theorem readParams_element
    (h : StandsAt (junk ++ tag (name ++ attributes) (text ++ '<' :: post)) pos xml.toList)
    (hjunk : '<' ∉ junk) (hname : IsName name)
    (ha : (∀ c ∈ attributes.head?, c ∈ [' ', '\t', '\n', '\r']) ∧
      '<' ∉ attributes ∧ '>' ∉ attributes ∧ attributes.getLast? ≠ some '/') (htext : '<' ∉ text) :
    ∃ next, StandsAt post next xml.toList ∧ readParams xml action pos params =
      readParams xml action next (Function.update params (String.ofList name)
        (some (String.ofList (decodeXmlEntities text)))) := by
  obtain ⟨⟨-, hcontent⟩, hhead, hlast, hpiece⟩ := opening_facts hname ha
  obtain ⟨next, hlt, htag, hpost⟩ := nextTag_found h hjunk hcontent
  have hend := position_found (by decide) hpost htext
  rw [String.ofList_toList] at hend
  obtain ⟨_, hcut, rfl⟩ := cut_spec hpost rfl
  refine ⟨_, hpost.append.tail, ?_⟩
  have hone : Char.utf8Size '<' = 1 := by decide
  rw [readParams, if_pos (length_bytes_of_standsAt h), htag, ok_bind]
  dsimp only
  generalize hcs : name ++ attributes = content at hhead hlast hpiece
  split
  · exact absurd List.mem_cons_self hhead
  · have hkind : ¬ (content.getLast? = some '/' ∨ content.head? ∈ [some '!', some '?']) := by
      rintro (h | h)
      · exact hlast h
      · exact hhead (List.mem_cons_of_mem _ h)
    rw [if_neg hkind, hend, ok_bind]
    dsimp only
    rw [hcut, ok_bind, hpiece, hone]

end Scan

section Reading

/-- What the loop over the parameters has stored when it was through them. -/
def stored (params : SoapParams) (ps : List SoapParam) : SoapParams :=
  ps.foldl (fun params p => Function.update params (String.ofList p.name)
    (some (String.ofList (decodeXmlEntities (escapeXml p.value))))) params

theorem open_notMem_escapeXml (v : List Char) : '<' ∉ escapeXml v := by
  intro h
  obtain ⟨c, -, hc⟩ := List.mem_flatMap.mp h
  split at hc
  · simp at hc
  · cases hent : xmlEntity c with
    | none =>
      rw [hent, Option.elim_none, List.mem_singleton] at hc
      rw [← hc] at hent
      cases hent
    | some body =>
      rw [hent, Option.elim_some] at hc
      rcases xmlEntity_cases hent with ⟨-, rfl⟩ | ⟨-, rfl⟩ | ⟨-, rfl⟩ | ⟨-, rfl⟩ <;> simp at hc

theorem open_notMem_gap (gap : Gap) : '<' ∉ gap.val := by
  intro h
  have hmem := gap.property '<' h
  simp at hmem

theorem open_notMem_name (h : IsName name) : '<' ∉ name := by
  intro hmem
  exact h.2 '<' hmem (by simp [notInNames])

/-- From before the parameters on, all of them are stored up to the closing tag of the action. -/
theorem readParams_params (hname : IsName name) (haction : action <:+ name)
    (h : StandsAt (junk ++ ps.foldr SoapParam.text (pre ++ tag ('/' :: name) post)) pos xml.toList)
    (hjunk : '<' ∉ junk) (hpre : '<' ∉ pre) :
    readParams xml action pos params = .ok (stored params ps) := by
  induction ps generalizing junk pos params with
  | nil =>
    rw [List.foldr_nil, ← List.append_assoc] at h
    obtain ⟨next, -, hread⟩ := readParams_closing h (by simp [hjunk, hpre]) hname
    rw [hread, if_pos haction]
    rfl
  | cons p ps ih =>
    have htag : junk ++ (p :: ps).foldr SoapParam.text (pre ++ tag ('/' :: name) post) =
        (junk ++ p.gap.val) ++ tag (p.name.val ++ []) (escapeXml p.value ++ '<' ::
          (('/' :: p.name.val ++ ['>']) ++
            ps.foldr SoapParam.text (pre ++ tag ('/' :: name) post))) := by
      simp [SoapParam.text, tag]
    rw [htag] at h
    obtain ⟨next, hnext, hread⟩ := readParams_element h
      (by simp [hjunk, open_notMem_gap]) p.name.property isAttributes_nil (open_notMem_escapeXml _)
    rw [hread]
    refine ih hnext ?_
    simp [open_notMem_name p.name.property]

/-- The values are stored under their names; the rest stays. -/
theorem stored_apply (hdistinct : (ps.map (·.name)).Nodup) (key : String) :
    stored params ps key = (ps.find? fun p => String.ofList p.name = key).elim (params key)
      fun p => some (String.ofList (decodeXmlEntities (escapeXml p.value))) := by
  induction ps generalizing params with
  | nil => rfl
  | cons p ps ih =>
    rw [List.map_cons, List.nodup_cons] at hdistinct
    rw [stored, List.foldl_cons]
    refine (ih hdistinct.2).trans ?_
    by_cases hkey : String.ofList p.name = key
    · have hnone : ps.find? (fun p => String.ofList p.name = key) = none := by
        rw [List.find?_eq_none]
        intro q hq
        rw [decide_eq_true_eq]
        rintro rfl
        have hsame : q.name = p.name := Subtype.ext (String.ofList_injective hkey).symm
        exact hdistinct.1 (List.mem_map.mpr ⟨q, hq, hsame⟩)
      rw [hnone, List.find?_cons_of_pos (by simpa using hkey), Option.elim_none, Option.elim_some,
        ← hkey, Function.update_self]
    · rw [List.find?_cons_of_neg (by simpa using hkey), Function.update_of_ne (Ne.symm hkey)]

/-- What is read of a request: an action whose name ends that of the envelope or of the body is
looked for inside too early, where the tag of the next element is taken for a parameter. -/
def SoapRequest.read (r : SoapRequest) : SoapParams :=
  if r.action.val <:+ envelopeName then
    stored (Function.update (fun _ => none) (String.ofList (r.body.qname bodyName))
      (some (String.ofList (decodeXmlEntities r.beforeCall)))) r.params
  else if r.action.val <:+ bodyName then
    let found := fun gap : Gap => Function.update (fun _ => none)
      (String.ofList (r.call.qname r.action)) (some (String.ofList (decodeXmlEntities gap)))
    match r.params with
    | [] => found r.afterParams
    | p :: ps => if r.action.val <:+ p.name then found p.gap else stored (found p.gap) ps
  else stored (fun _ => none) r.params

end Reading

section Documents

theorem isName_envelopeName : IsName envelopeName := by
  simp [IsName, envelopeName, notInNames]

theorem isName_bodyName : IsName bodyName := by
  simp [IsName, bodyName, notInNames]

/-- At an opening tag the search ends or goes on behind it. -/
theorem findAction_opening {gap : Gap} {t : SoapTag} (hname : IsName name) (hcolon : ':' ∉ action)
    (h : StandsAt (gap.val ++ t.opening name post) pos xml.toList) :
    ∃ next, StandsAt post next xml.toList ∧ findAction xml action pos =
      if action <:+ name then .ok (some next) else findAction xml action next := by
  obtain ⟨⟨-, hclose⟩, hhead, -, hpiece⟩ :=
    opening_facts (isName_qname t hname) t.attributes.property
  obtain ⟨next, hpost, hfind⟩ := findAction_step action h (open_notMem_gap gap) hclose
  refine ⟨next, hpost, ?_⟩
  rw [hfind, hpiece]
  simp only [hhead, not_false_eq_true, true_and, suffix_qname_iff t hcolon]

/-- The declaration is passed over. -/
theorem findAction_declaration (action : List Char)
    {declaration : Option {cs : List Char // '>' ∉ cs}}
    (h : StandsAt (declaration.elim id (fun d => tag ('?' :: d)) post) pos xml.toList) :
    ∃ next, StandsAt post next xml.toList ∧
      findAction xml action pos = findAction xml action next := by
  cases declaration with
  | none => exact ⟨pos, h, rfl⟩
  | some d =>
    have hstand : StandsAt ([] ++ tag ('?' :: d) post) pos xml.toList := h
    obtain ⟨next, hpost, hfind⟩ := findAction_step action hstand List.not_mem_nil
      (by simp [d.property])
    refine ⟨next, hpost, ?_⟩
    rw [hfind, if_neg]
    simp

/-- An element that is no parameter is taken for one, with the white space in it for its value. -/
theorem readParams_opening {gap inner : Gap} {t : SoapTag} (action : List Char)
    (params : SoapParams) (hname : IsName name)
    (h : StandsAt (gap.val ++ t.opening name (inner.val ++ '<' :: post)) pos xml.toList) :
    ∃ next, StandsAt post next xml.toList ∧ readParams xml action pos params =
      readParams xml action next (Function.update params (String.ofList (t.qname name))
        (some (String.ofList (decodeXmlEntities inner)))) :=
  readParams_element h (open_notMem_gap gap) (isName_qname t hname) t.attributes.property
    (open_notMem_gap inner)

theorem SoapRequest.parse (r : SoapRequest) (hxml : xml.toList = r.text) :
    parseBodyParams xml r.action = .ok r.read := by
  obtain ⟨hname, hcolon⟩ := r.action.property
  have hcall := isName_qname r.call hname
  have hself : r.action.val <:+ r.call.qname r.action := List.suffix_append _ _
  have hstart : StandsAt r.text 0 xml.toList := hxml ▸ standsAt_zero
  obtain ⟨pos₁, h₁, hfind₁⟩ := findAction_declaration r.action hstart
  obtain ⟨pos₂, h₂, hfind₂⟩ := findAction_opening isName_envelopeName hcolon h₁
  rw [parseBodyParams, hfind₁, hfind₂, SoapRequest.read]
  by_cases henvelope : r.action.val <:+ envelopeName
  · rw [if_pos henvelope, if_pos henvelope, ok_bind]
    dsimp only
    obtain ⟨pos₃, h₃, hread⟩ := readParams_opening r.action (fun _ => none) isName_bodyName h₂
    rw [hread]
    have hopen := (opening_facts hcall r.call.attributes.property).1.1
    have hstand : StandsAt ((r.call.qname r.action ++ r.call.attributes.val ++ ['>']) ++
        r.params.foldr SoapParam.text r.ending) pos₃ xml.toList := by
      rw [List.append_assoc]
      exact h₃
    refine readParams_params hcall hself hstand ?_ (open_notMem_gap _)
    rw [List.mem_append, not_or]
    exact ⟨hopen, by simp⟩
  rw [if_neg henvelope, if_neg henvelope]
  obtain ⟨pos₃, h₃, hfind₃⟩ := findAction_opening isName_bodyName hcolon h₂
  rw [hfind₃]
  by_cases hbody : r.action.val <:+ bodyName
  · rw [if_pos hbody, if_pos hbody, ok_bind]
    dsimp only
    cases hparams : r.params with
    | nil =>
      rw [SoapRequest.inBody, hparams] at h₃
      have hbodyName := isName_qname r.body isName_bodyName
      have hsuffix : r.action.val <:+ r.body.qname bodyName := hbody.trans (List.suffix_append _ _)
      obtain ⟨pos₄, h₄, hread⟩ := readParams_opening r.action (fun _ => none) hname h₃
      have hstand : StandsAt (('/' :: r.call.qname r.action ++ '>' :: r.afterCall.val) ++
          tag ('/' :: r.body.qname bodyName) (r.afterBody ++
            r.envelope.closing envelopeName r.afterEnvelope)) pos₄ xml.toList := by
        simpa [SoapTag.closing] using h₄
      obtain ⟨pos₅, -, hend⟩ := readParams_closing hstand
        (by simp [open_notMem_name hcall, open_notMem_gap]) hbodyName
      rw [hread, hend, if_pos hsuffix]
    | cons p ps =>
      rw [SoapRequest.inBody, hparams] at h₃
      obtain ⟨pos₄, h₄, hread⟩ := readParams_opening r.action (fun _ => none) hname h₃
      have hstand : StandsAt ((p.name.val ++ '>' :: escapeXml p.value) ++
          tag ('/' :: p.name.val) (ps.foldr SoapParam.text r.ending)) pos₄ xml.toList := by
        simpa using h₄
      obtain ⟨pos₅, h₅, hend⟩ := readParams_closing hstand
        (by simp [open_notMem_name p.name.property, open_notMem_escapeXml]) p.name.property
      rw [hread, hend]
      dsimp only
      split
      · rfl
      · have hrest : StandsAt ([] ++ ps.foldr SoapParam.text r.ending) pos₅ xml.toList := h₅
        exact readParams_params hcall hself hrest List.not_mem_nil (open_notMem_gap _)
  rw [if_neg hbody, if_neg hbody]
  obtain ⟨pos₄, h₄, hfind₄⟩ := findAction_opening hname hcolon h₃
  rw [hfind₄, if_pos List.suffix_rfl, ok_bind]
  have hparams : StandsAt ([] ++ r.params.foldr SoapParam.text r.ending) pos₄ xml.toList := h₄
  exact readParams_params hcall hself hparams List.not_mem_nil (open_notMem_gap _)

/-- The action is what follows the last `#`, but for the quotes around it all. -/
theorem action_header (r : SoapRequest) (service quotes : List Char) (hq : ∀ c ∈ quotes, c = '"') :
    lastPiece '#' (trimMatches '"' (service ++ '#' :: (r.action.val ++ quotes))) = r.action := by
  obtain ⟨⟨hne, hchars⟩, -⟩ := r.action.property
  generalize r.action.val = action at hne hchars
  have hquote : '"' ∉ action := fun h => hchars '"' h (by simp [notInNames])
  have hhash : '#' ∉ action := fun h => hchars '#' h (by simp [notInNames])
  have hfront : (service ++ '#' :: (action ++ quotes)).dropWhile (· = '"') =
      service.dropWhile (· = '"') ++ '#' :: (action ++ quotes) := by
    rw [List.dropWhile_append]
    split
    · next hnil =>
      rw [List.isEmpty_iff.mp hnil, List.dropWhile_cons_of_neg (by simp), List.nil_append]
    · rfl
  have hback : (quotes.reverse ++
      (action.reverse ++ '#' :: (service.dropWhile (· = '"')).reverse)).dropWhile (· = '"') =
      action.reverse ++ '#' :: (service.dropWhile (· = '"')).reverse := by
    rw [List.dropWhile_append_of_pos (by simpa using hq)]
    obtain ⟨c, cs, hcs⟩ := List.exists_cons_of_ne_nil (List.reverse_ne_nil_iff.mpr hne)
    have hc : c ≠ '"' := by
      rintro rfl
      exact hquote (List.mem_reverse.mp (hcs ▸ List.mem_cons_self))
    rw [hcs, List.cons_append, List.dropWhile_cons_of_neg (by simpa using hc)]
  have hreverse : (service.dropWhile (· = '"') ++ '#' :: (action ++ quotes)).reverse =
      quotes.reverse ++ (action.reverse ++ '#' :: (service.dropWhile (· = '"')).reverse) := by
    simp
  rw [lastPiece, trimMatches, hfront, hreverse, hback, List.reverse_reverse,
    List.takeWhile_append_of_pos, List.takeWhile_cons_of_neg (by simp), List.append_nil,
    List.reverse_reverse]
  intro c hc
  have hne : c ≠ '#' := by
    rintro rfl
    exact hhash (List.mem_reverse.mp hc)
  simpa using hne

end Documents

section RoundTrip

/-- No value has a text that is decoded twice, and the action's element is the one that is found,
or what is read in its place comes to the same. -/
def SoapRequest.Fits (r : SoapRequest) : Prop :=
  if r.action.val <:+ envelopeName then
    (∀ p ∈ r.params, Unambiguous p.value) ∧ ∃ p ∈ r.params, p.name.val = r.body.qname bodyName
  else if r.action.val <:+ bodyName then
    ∃ p, r.params = [p] ∧ p.name.val = r.call.qname r.action ∧ p.value = p.gap
  else ∀ p ∈ r.params, Unambiguous p.value

theorem find?_name (hdistinct : (ps.map (·.name)).Nodup) (hp : p ∈ ps) :
    ps.find? (fun q => String.ofList q.name = String.ofList p.name) = some p := by
  have hkey : ∀ q : SoapParam, String.ofList q.name = String.ofList p.name ↔ q.name = p.name := by
    intro q
    exact ⟨fun h => Subtype.ext (String.ofList_injective h), fun h => by rw [h]⟩
  simp only [hkey]
  exact (Keyed.Table.find?_eq_some (T := ⟨ps, hdistinct⟩)).mpr ⟨hp, rfl⟩

/-- All values are stored as they are, and no others, just when none is decoded twice and there was
nothing under another name. -/
theorem stored_eq_valuesOf_iff (hdistinct : (ps.map (·.name)).Nodup) :
    stored params ps = valuesOf ps ↔ (∀ p ∈ ps, Unambiguous p.value) ∧
      ∀ key, (∀ p ∈ ps, String.ofList p.name ≠ key) → params key = none := by
  constructor
  · intro h
    constructor
    · intro p hp
      have hkey := congrFun h (String.ofList p.name)
      rw [stored_apply hdistinct, valuesOf, find?_name hdistinct hp] at hkey
      exact (decode_escape_iff p.value).mp (String.ofList_injective (Option.some.inj hkey))
    · intro key hkey
      have hnone : ps.find? (fun p => String.ofList p.name = key) = none := by
        simpa using hkey
      have hat := congrFun h key
      rw [stored_apply hdistinct, valuesOf, hnone] at hat
      exact hat
  · rintro ⟨hplain, hother⟩
    funext key
    rw [stored_apply hdistinct, valuesOf]
    cases hfind : ps.find? (fun p => String.ofList p.name = key) with
    | none => exact hother key (by simpa using hfind)
    | some p =>
      have hdecode := (decode_escape_iff p.value).mpr (hplain p (List.mem_of_find?_eq_some hfind))
      rw [Option.elim_some, hdecode]
      rfl

theorem decode_gap (gap : Gap) : decodeXmlEntities gap = gap := by
  have hnot : ∀ c, c ∉ [' ', '\t', '\n', '\r'] → c ∉ gap.val := fun c hc h => hc (gap.property c h)
  have hamp := hnot '&' (by simp)
  have hescape : escapeXml gap = gap := by
    have hself : ∀ c ∈ gap.val, (if c = '&' then ['&', 'a', 'm', 'p', ';']
        else (xmlEntity c).elim [c] ('&' :: ·)) = [c] := by
      intro c hc
      have hgap := gap.property c hc
      simp only [List.mem_cons, List.not_mem_nil, or_false] at hgap
      rcases hgap with rfl | rfl | rfl | rfl <;> simp [xmlEntity]
    rw [escapeXml, List.flatMap_congr hself]
    simp
  have hplain : Unambiguous gap := by
    intro c body _ h
    exact hamp (h.subset List.mem_cons_self)
  have h := (decode_escape_iff gap).mpr hplain
  rwa [hescape] at h

/-- One value under one name is what a list of parameters comes to if it has no other. -/
theorem update_eq_valuesOf_iff {key value : List Char}
    (hdistinct : ((p :: ps).map (·.name)).Nodup) :
    Function.update (fun _ => none) (String.ofList key) (some (String.ofList value)) =
      valuesOf (p :: ps) ↔ ps = [] ∧ p.name.val = key ∧ p.value = value := by
  have hvalue : ∀ q ∈ p :: ps,
      valuesOf (p :: ps) (String.ofList q.name) = some (String.ofList q.value) := by
    intro q hq
    rw [valuesOf, find?_name hdistinct hq]
    rfl
  constructor
  · intro h
    have hname : ∀ q ∈ p :: ps, q.name.val = key := by
      intro q hq
      by_contra hne
      have hat := congrFun h (String.ofList q.name)
      rw [hvalue q hq, Function.update_of_ne fun heq => hne (String.ofList_injective heq)] at hat
      cases hat
    refine ⟨?_, hname p List.mem_cons_self, ?_⟩
    · rw [List.eq_nil_iff_forall_not_mem]
      intro q hq
      have hsame := (hname q (List.mem_cons_of_mem _ hq)).trans (hname p List.mem_cons_self).symm
      rw [List.map_cons, List.nodup_cons] at hdistinct
      exact hdistinct.1 (List.mem_map.mpr ⟨q, hq, Subtype.ext hsame⟩)
    · have hat := congrFun h (String.ofList p.name)
      rw [hvalue p List.mem_cons_self, hname p List.mem_cons_self, Function.update_self] at hat
      exact (String.ofList_injective (Option.some.inj hat)).symm
  · rintro ⟨rfl, hname, rfl⟩
    funext other
    by_cases hother : String.ofList p.name = other
    · rw [← hother, hvalue p List.mem_cons_self, hname, Function.update_self]
    · rw [valuesOf, List.find?_cons_of_neg (by simpa using hother), ← hname,
        Function.update_of_ne (Ne.symm hother)]
      rfl

theorem SoapRequest.read_eq_iff (r : SoapRequest) : r.read = valuesOf r.params ↔ r.Fits := by
  have hdistinct := r.distinct
  rw [SoapRequest.read, SoapRequest.Fits]
  by_cases henvelope : r.action.val <:+ envelopeName
  · rw [if_pos henvelope, if_pos henvelope, stored_eq_valuesOf_iff hdistinct]
    refine and_congr_right fun _ => ?_
    constructor
    · intro h
      by_contra hnone
      have hfree := h (String.ofList (r.body.qname bodyName)) fun p hp hkey =>
        hnone ⟨p, hp, String.ofList_injective hkey⟩
      rw [Function.update_self] at hfree
      cases hfree
    · rintro ⟨p, hp, hname⟩ key hkey
      rw [Function.update_of_ne]
      rintro rfl
      exact hkey p hp (congrArg String.ofList hname)
  rw [if_neg henvelope, if_neg henvelope]
  by_cases hbody : r.action.val <:+ bodyName
  · rw [if_pos hbody, if_pos hbody]
    simp only [decode_gap]
    cases hparams : r.params with
    | nil =>
      refine iff_of_false (fun h => ?_) (by simp)
      have hat := congrFun h (String.ofList (r.call.qname r.action))
      dsimp only at hat
      rw [Function.update_self] at hat
      cases hat
    | cons p ps =>
      rw [hparams] at hdistinct
      have hself : r.action.val <:+ r.call.qname r.action := List.suffix_append _ _
      dsimp only
      by_cases hsuffix : r.action.val <:+ p.name
      · rw [if_pos hsuffix, update_eq_valuesOf_iff hdistinct]
        constructor
        · rintro ⟨rfl, hp⟩
          exact ⟨p, rfl, hp⟩
        · rintro ⟨q, hq, hname⟩
          obtain ⟨rfl, rfl⟩ := List.cons.inj hq
          exact ⟨rfl, hname⟩
      · have hnot : p.name.val ≠ r.call.qname r.action := fun h => hsuffix (h ▸ hself)
        rw [if_neg hsuffix]
        refine iff_of_false (fun h => ?_) ?_
        · -- The name of the parameter that was passed over is not among those read.
          have hat := congrFun h (String.ofList p.name)
          have hfirst : valuesOf (p :: ps) (String.ofList p.name) =
              some (String.ofList p.value) := by
            rw [valuesOf, find?_name hdistinct List.mem_cons_self]
            rfl
          rw [List.map_cons, List.nodup_cons] at hdistinct
          have hnone : ps.find? (fun q => String.ofList q.name = String.ofList p.name) = none := by
            rw [List.find?_eq_none]
            intro q hq
            rw [decide_eq_true_eq]
            intro hname
            have hsame := Subtype.ext (String.ofList_injective hname)
            exact hdistinct.1 (List.mem_map.mpr ⟨q, hq, hsame⟩)
          rw [hfirst, stored_apply hdistinct.2, hnone, Option.elim_none,
            Function.update_of_ne fun heq => hnot (String.ofList_injective heq)] at hat
          cases hat
        · rintro ⟨q, hq, hname, -⟩
          obtain ⟨rfl, -⟩ := List.cons.inj hq
          exact hnot hname
  · rw [if_neg hbody, if_neg hbody, stored_eq_valuesOf_iff hdistinct]
    exact and_iff_left fun _ _ => rfl

end RoundTrip

/-- The action and the parameters of a request come back just when it fits. -/
theorem soap_round_trip_iff (r : SoapRequest) (service : List Char) (quoted : Bool) :
    parseSoapAction
        (String.ofList (service ++ '#' :: (r.action.val ++ if quoted then ['"'] else [])))
        (String.ofList r.text) = .ok (String.ofList r.action, valuesOf r.params) ↔ r.Fits := by
  have hheader := action_header r service (if quoted then ['"'] else []) (by cases quoted <;> simp)
  rw [parseSoapAction, String.toList_ofList, hheader, r.parse (String.toList_ofList), ok_bind,
    ← r.read_eq_iff]
  constructor
  · intro h
    exact (Prod.mk.inj (Except.ok.inj h)).2
  · intro h
    rw [h]
    rfl

/-- A tag without prefix and attributes. -/
def bareTag : SoapTag := ⟨⟨[], by simp⟩, ⟨[], by simp⟩⟩

/-- Without white space: a request to play what the one parameter says. -/
def playRequest (value : List Char) : SoapRequest where
  action := ⟨['P', 'l', 'a', 'y'], by simp [IsName, notInNames]⟩
  params := [⟨⟨[], by simp⟩, ⟨['U', 'R', 'I'], by simp [IsName, notInNames]⟩, value⟩]
  distinct := by simp
  declaration := none
  envelope := bareTag
  body := bareTag
  call := bareTag
  beforeEnvelope := ⟨[], by simp⟩
  beforeBody := ⟨[], by simp⟩
  beforeCall := ⟨[], by simp⟩
  afterParams := ⟨[], by simp⟩
  afterCall := ⟨[], by simp⟩
  afterBody := ⟨[], by simp⟩
  afterEnvelope := ⟨[], by simp⟩

/-- A value that is the text of an entity comes back as the character. -/
theorem entity_text_decoded : ¬ ∀ (r : SoapRequest) (service : List Char),
    parseSoapAction (String.ofList (service ++ '#' :: r.action.val)) (String.ofList r.text) =
      .ok (String.ofList r.action, valuesOf r.params) := by
  intro h
  have hparse := h (playRequest ['&', 'l', 't', ';']) []
  have hheader := action_header (playRequest ['&', 'l', 't', ';']) [] [] nofun
  rw [List.append_nil] at hheader
  rw [parseSoapAction, String.toList_ofList, hheader, SoapRequest.parse _ String.toList_ofList,
    ok_bind] at hparse
  have hread := (SoapRequest.read_eq_iff _).mp (Prod.mk.inj (Except.ok.inj hparse)).2
  have hplain : ¬ Unambiguous ['&', 'l', 't', ';'] := by
    intro hplain
    exact hplain '<' _ rfl List.infix_rfl
  rw [SoapRequest.Fits, if_neg (by decide), if_neg (by decide)] at hread
  exact hplain (hread _ List.mem_cons_self)

end PlainRs.Dlna
