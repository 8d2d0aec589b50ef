import PlainRs.Utils.Http

/-! Files served whole, or the part of them that a request asks for. -/
namespace PlainRs.FileServer

open PlainRs.Utils

structure Response where
  status : ℕ
  headers : List (String × String)
  body : List UInt8
  deriving DecidableEq

def corsHeaders : List (String × String) :=
  [("access-control-allow-origin", "*"),
    ("access-control-allow-methods", "GET, POST, PUT, DELETE, OPTIONS"),
    ("access-control-allow-headers", "*")]

def respond (status : ℕ) (body : List UInt8) (contentType : String) : Response :=
  ⟨status, ("content-type", contentType) :: corsHeaders, body⟩

def streamingCommonHeaders : List (String × String) :=
  [("accept-ranges", "bytes"),
    ("access-control-expose-headers", "content-disposition, accept-ranges, content-range")]

/-- What is read from `offset` on, capped at `length` bytes. -/
def openSeekingReader (file : List UInt8) (offset length : ℕ) : List UInt8 :=
  (if 0 < offset then file.drop offset else file).take length

def fullResponse (file : List UInt8) (fileSize : ℕ) (mime disposition : String) : Response :=
  { status := 200
    headers := [("content-type", mime), ("content-length", toString fileSize),
      ("content-disposition", disposition)] ++ streamingCommonHeaders ++ corsHeaders
    body := openSeekingReader file 0 fileSize }

/-- `end - start + 1` in `u64`, nothing where it does not fit. -/
def rangeLength (start stop : ℕ) : Option ℕ :=
  if start ≤ stop ∧ stop - start + 1 < 2 ^ 64 then some (stop - start + 1) else none

def partialResponse (file : List UInt8) (start stop fileSize : ℕ) (mime disposition : String) :
    Option Response :=
  (rangeLength start stop).map fun length =>
    { status := 206
      headers := [("content-type", mime), ("content-length", toString length),
        ("content-range", s!"bytes {start}-{stop}/{fileSize}"),
        ("content-disposition", disposition)] ++ streamingCommonHeaders ++ corsHeaders
      body := openSeekingReader file start length }

def unsatisfiableRangeResponse (fileSize : ℕ) : Response :=
  { status := 416
    headers := [("content-length", "0"), ("content-range", s!"bytes */{fileSize}")] ++
      streamingCommonHeaders ++ corsHeaders
    body := [] }

def rangeRawResponse (file : List UInt8) (offset length : ℕ) : Response :=
  { status := 200
    headers := [("content-type", "application/octet-stream"),
      ("content-length", toString length)] ++ corsHeaders
    body := openSeekingReader file offset length }

/-- The part of the file that the query itself asks for. -/
def askedRange (params : String → Option String) : Option (ℕ × ℕ) := do
  let offset ← (params "offset").bind fun s => parseU64 s.toList
  let length ← (params "length").bind fun s => parseU64 s.toList
  guard (0 < length)
  return (offset, length)

/-- `serve_file` once the file is found. -/
def serveFile (params : String → Option String) (rangeHeader : String) (file : List UInt8)
    (mime disposition : String) : Option Response :=
  let fileSize := file.length
  match askedRange params with
  | some (offset, length) =>
    if fileSize ≤ offset then some (respond 404 [] "text/plain")
    else some (rangeRawResponse file offset (min length (fileSize - offset)))
  | none =>
    match parseRangeHeader rangeHeader fileSize with
    | .partialRange start stop => partialResponse file start stop fileSize mime disposition
    | .unsatisfiable => some (unsatisfiableRangeResponse fileSize)
    | .full => some (fullResponse file fileSize mime disposition)

variable {file : List UInt8} {offset length start stop fileSize : ℕ} {mime disposition : String}

theorem getElem?_openSeekingReader (i : ℕ) :
    (openSeekingReader file offset length)[i]? = if i < length then file[offset + i]? else none := by
  have hdrop : (if 0 < offset then file.drop offset else file) = file.drop offset := by
    split
    · rfl
    · next h =>
      obtain rfl : offset = 0 := by omega
      rfl
  rw [openSeekingReader, hdrop, List.getElem?_take]
  simp only [List.getElem?_drop]

theorem length_openSeekingReader (h : offset + length ≤ file.length) :
    (openSeekingReader file offset length).length = length := by
  rw [openSeekingReader]
  split <;> simp <;> omega

/-- The body is the bytes between the bounds, and as long as its header says. -/
theorem partialResponse_eq (mime disposition : String) (fileSize : ℕ) (hle : start ≤ stop)
    (hlt : stop < file.length) (hsize : file.length < 2 ^ 64) :
    ∃ r, partialResponse file start stop fileSize mime disposition = some r ∧ r.status = 206 ∧
      ("content-length", toString r.body.length) ∈ r.headers ∧
      ("content-range", s!"bytes {start}-{stop}/{fileSize}") ∈ r.headers ∧
      ∀ i, r.body[i]? = if start + i ≤ stop then file[start + i]? else none := by
  have hfit : rangeLength start stop = some (stop - start + 1) := if_pos ⟨hle, by omega⟩
  rw [partialResponse, hfit, Option.map_some]
  refine ⟨_, rfl, rfl, ?_, by simp, ?_⟩
  · dsimp only
    rw [length_openSeekingReader (by omega)]
    simp
  · intro i
    dsimp only
    rw [getElem?_openSeekingReader]
    have hiff : i < stop - start + 1 ↔ start + i ≤ stop := by omega
    simp only [hiff]

/-- What a range header asks for is what RFC 7233 has it mean, and is what is sent. -/
theorem ranges_served :
    (∀ (r : ByteRange) (text more : List Char), r.Written text → (∀ c ∈ more.head?, c = ',') →
      ∀ size, r.Answered size
        (parseRangeHeader (String.ofList ("bytes=".toList ++ text ++ more)) size)) ∧
    ∀ (range : String) (size start stop : ℕ),
      parseRangeHeader range size = .partialRange start stop →
      start ≤ stop ∧ stop < size ∧
      ∀ (params : String → Option String) (file : List UInt8) (mime disposition : String),
        askedRange params = none → file.length = size → size < 2 ^ 64 →
        ∃ r, serveFile params range file mime disposition = some r ∧ r.status = 206 ∧
          ("content-length", toString r.body.length) ∈ r.headers ∧
          ("content-range", s!"bytes {start}-{stop}/{size}") ∈ r.headers ∧
          ∀ i, r.body[i]? = if start + i ≤ stop then file[start + i]? else none := by
  refine ⟨fun r text more hr hmore size => parseRangeHeader_written hr hmore size, ?_⟩
  intro range size start stop h
  obtain ⟨hle, hlt⟩ := parseRangeHeader_bounds h
  refine ⟨hle, hlt, ?_⟩
  rintro params file mime disposition hasked rfl hsize
  obtain ⟨r, hr, hrest⟩ := partialResponse_eq mime disposition file.length hle hlt hsize
  refine ⟨r, ?_, hrest⟩
  rw [serveFile, hasked]
  simp only [h, hr]

theorem ranges_served_ending :
    (ByteRange.ending 2).Answered 5 (parseRangeHeader (String.ofList
        ("bytes=".toList ++ ['-', '2'] ++ [',', '0', '-'])) 5) ∧
      ∃ r, serveFile (fun _ => none) "bytes=-2" [1, 2, 3, 4, 5] "text/plain" "inline" = some r ∧
        r.body[0]? = some 4 := by
  have htwo : ByteRange.Numeral ['2'] 2 := ⟨by simp, by simp, by simp [Nat.ofDigitChars], by omega⟩
  have hread : parseRangeHeader "bytes=-2" 5 = .partialRange 3 4 := by decide +kernel
  obtain ⟨r, hr, -, -, -, hbody⟩ := (ranges_served.2 _ _ _ _ hread).2.2 (fun _ => none)
    [1, 2, 3, 4, 5] "text/plain" "inline" rfl rfl (by decide)
  exact ⟨ranges_served.1 (.ending 2) ['-', '2'] [',', '0', '-'] (.ending htwo) (by simp) 5,
    r, hr, hbody 0⟩

end PlainRs.FileServer
