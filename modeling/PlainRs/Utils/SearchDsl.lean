import PlainRs.Utils.Trimmed

/-! The search queries: how a text is split into groups, and the fields that the groups are read
as. -/
namespace PlainRs.SearchDsl

open PlainRs.Utils

structure FilterField where
  name : List Char
  op : List Char
  value : List Char
  deriving DecidableEq

def notType : List Char := ['N', 'O', 'T']

def invertOp (op : List Char) : List Char :=
  if op = ['='] then ['!', '=']
  else if op = ['>', '='] then ['<']
  else if op = ['>'] then ['<', '=']
  else if op = ['!', '='] then ['=']
  else if op = ['<', '='] then ['>']
  else if op = ['<'] then ['>', '=']
  else if op = ['i', 'n'] then ['n', 'i', 'n']
  else if op = ['n', 'i', 'n'] then ['i', 'n']
  else if op = notType then []
  else op

def orderedGroupOps : List (List Char) :=
  [['<', '='], ['>', '='], ['!', '='], ['='], ['>'], ['<']]

def blanks : List Char := [' ', '\t', '\n', '\r']

/-- What `split_in_group` holds between two characters; a quote of 0 is none. -/
structure Scan where
  result : List (List Char) := []
  buf : List Char := []
  quote : UInt8 := 0
  escape : Bool := false
  deriving DecidableEq

def Scan.step (s : Scan) (c : Char) : Scan :=
  if s.escape then { s with buf := s.buf ++ [c], escape := false }
  else if c = '\\' then { s with escape := true }
  else if s.quote ≠ 0 then
    -- The character is cut down to its lowest byte before it is compared.
    { s with buf := s.buf ++ [c], quote := if c.toUInt8 = s.quote then 0 else s.quote }
  else if c = '"' ∨ c = Char.ofNat 39 then { s with buf := s.buf ++ [c], quote := c.toUInt8 }
  else if c ∈ blanks then
    if s.buf = [] then s else { s with result := s.result ++ [s.buf], buf := [] }
  else { s with buf := s.buf ++ [c] }

def Scan.finish (s : Scan) : List (List Char) :=
  if s.buf = [] then s.result else s.result ++ [s.buf]

def splitInGroup (input : List Char) : List (List Char) := (input.foldl Scan.step {}).finish

/-- A quote is one byte, so that the bytes at both ends are looked at by their characters. -/
def removeQuotation (s : List Char) : List Char :=
  if 2 ≤ s.length ∧ ((s.head? = some '"' ∧ s.getLast? = some '"') ∨
      (s.head? = some (Char.ofNat 39) ∧ s.getLast? = some (Char.ofNat 39))) then
    s.tail.dropLast
  else s

def detectGroupType (group : List Char) : List Char :=
  ((orderedGroupOps.find? (· <+: group)).or (orderedGroupOps.find? (· <:+: group))).getD ['=']

structure QueryGroup where
  length : ℕ
  field : List Char
  query : List Char
  op : List Char
  value : List Char
  deriving DecidableEq

def splitGroup (q : List Char) : QueryGroup :=
  let (fieldPart, queryPart) := (splitOnce ':' q).elim (removeQuotation q, [])
    fun (f, rest) => (removeQuotation f, removeQuotation rest)
  let length := if ':' ∈ q then 2 else 1
  let typ := detectGroupType queryPart
  let typ := if typ = [] then ['='] else typ
  let value := if typ ≠ [] ∧ typ <+: queryPart then queryPart.drop typ.length else queryPart
  { length, field := fieldPart, query := queryPart, op := typ, value }

def isName : List Char := ['i', 's']

def textName : List Char := ['t', 'e', 'x', 't']

def trueValue : List Char := ['t', 'r', 'u', 'e']

def parseGroup (group : List Char) : FilterField :=
  if group = notType then { name := [], op := notType, value := [] }
  else
    let parts := splitGroup group
    if parts.field = isName then { name := parts.query, op := [], value := trueValue }
    else if parts.length = 1 then { name := textName, op := [], value := parts.field }
    else { name := parts.field, op := parts.op, value := parts.value }

/-- The walk that turns the field behind a `NOT` around. -/
def invertFields : Bool → List FilterField → List FilterField
  | _, [] => []
  | invertNext, f :: fs =>
    if f.op = notType then f :: invertFields true fs
    else (if invertNext then { f with op := invertOp f.op } else f) :: invertFields false fs

def parse (q : List Char) : List FilterField :=
  if trimmed q = [] then []
  else (invertFields false ((splitInGroup q).map parseGroup)).filter (·.op ≠ notType)

def fieldValue (q name : List Char) : Option (List Char) :=
  ((parse q).find? (·.name = name)).map (·.value)

example : fieldValue "a:<b text:'c d'".toList textName = some ['c', ' ', 'd'] := by decide

variable {r : List (List Char)} {s : Scan} {c : Char} {cs buf group q : List Char}
  {gs hs : List (List Char)}

section Scanning

/-- The groups that were read before do not matter. -/
theorem step_result (r : List (List Char)) (s : Scan) (c : Char) :
    Scan.step { s with result := r ++ s.result } c =
      { s.step c with result := r ++ (s.step c).result } := by
  simp only [Scan.step]
  split_ifs <;> simp

theorem foldl_result (r : List (List Char)) (s : Scan) (cs : List Char) :
    cs.foldl Scan.step { s with result := r ++ s.result } =
      { cs.foldl Scan.step s with result := r ++ (cs.foldl Scan.step s).result } := by
  induction cs generalizing s with
  | nil => rfl
  | cons c cs ih =>
    rw [List.foldl_cons, List.foldl_cons, step_result, ih]

theorem finish_result (r : List (List Char)) (s : Scan) :
    Scan.finish { s with result := r ++ s.result } = r ++ s.finish := by
  simp only [Scan.finish]
  split_ifs
  · rfl
  · exact List.append_assoc ..

/-- Behind a blank the text is read as if it began there. -/
theorem finish_blank (hc : c ∈ blanks) (hbuf : buf ≠ []) (cs : List Char) :
    ((c :: cs).foldl Scan.step { buf }).finish = buf :: splitInGroup cs := by
  have hstep : Scan.step { buf } c =
      { ({} : Scan) with result := [buf] ++ ({} : Scan).result } := by
    simp only [blanks, List.mem_cons, List.not_mem_nil, or_false] at hc
    rcases hc with rfl | rfl | rfl | rfl <;> simp [Scan.step, blanks, hbuf]
  rw [List.foldl_cons, hstep, foldl_result, finish_result, splitInGroup, List.singleton_append]

theorem mem_buf_step (h : c ∈ (s.step d).buf) : c ∈ s.buf ∨ c = d := by
  simp only [Scan.step] at h
  split_ifs at h <;> simp_all

theorem mem_buf_foldl (h : c ∈ (cs.foldl Scan.step s).buf) : c ∈ s.buf ∨ c ∈ cs := by
  induction cs generalizing s with
  | nil => exact .inl h
  | cons d cs ih =>
    rcases ih h with h | h
    · rcases mem_buf_step h with h | rfl
      · exact .inl h
      · exact .inr List.mem_cons_self
    · exact .inr (List.mem_cons_of_mem _ h)

/-- What is in the buffer stays the beginning of the next group. -/
theorem first_group (hresult : s.result = []) (hbuf : s.buf ≠ []) (cs : List Char) :
    ∃ g gs, (cs.foldl Scan.step s).finish = g :: gs ∧ s.buf <+: g := by
  induction cs generalizing s with
  | nil =>
    refine ⟨s.buf, [], ?_, List.prefix_rfl⟩
    rw [List.foldl_nil, Scan.finish, if_neg hbuf, hresult, List.nil_append]
  | cons c cs ih =>
    by_cases hblank : s.escape = false ∧ s.quote = 0 ∧ c ∈ blanks
    · obtain ⟨hescape, hquote, hc⟩ := hblank
      obtain ⟨result, buf, quote, escape⟩ := s
      cases hresult
      cases hescape
      cases hquote
      exact ⟨buf, _, finish_blank hc hbuf cs, List.prefix_rfl⟩
    · have hmore : (s.step c).result = [] ∧ s.buf <+: (s.step c).buf := by
        simp only [Scan.step]
        split_ifs <;> simp_all
      obtain ⟨hsame, hprefix⟩ := hmore
      have hne : (s.step c).buf ≠ [] := fun h => hbuf (List.prefix_nil.mp (h ▸ hprefix))
      obtain ⟨g, gs, hfinish, hg⟩ := ih hsame hne
      exact ⟨g, gs, hfinish, hprefix.trans hg⟩

end Scanning

end PlainRs.SearchDsl
