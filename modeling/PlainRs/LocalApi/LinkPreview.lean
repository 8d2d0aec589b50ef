import PlainRs.Base.Clock
import PlainRs.Base.Uri
import PlainRs.Utils.Url

/-! The URLs of link previews: those found in a message, and those that a page refers to. -/
namespace PlainRs.LocalApi

open Uri PlainRs.Utils

/-- `str::split_once` at a text. -/
def splitOnceAt (pat : List Char) : List Char → Option (List Char × List Char)
  | [] => if pat = [] then some ([], []) else none
  | c :: cs =>
    if pat <+: c :: cs then some ([], (c :: cs).drop pat.length)
    else (splitOnceAt pat cs).map fun (l, r) => (c :: l, r)

/-- `str::rsplit_once` at a character. -/
def rsplitOnce (c : Char) (s : List Char) : Option (List Char × List Char) :=
  (splitOnce c s.reverse).map fun (l, r) => (r.reverse, l.reverse)

/-- `str::parse::<u16>`: digits, with or without a plus sign before them. -/
def parseU16 (part : List Char) : Option UInt16 :=
  (Text.natOfDigits (if part.head? = some '+' then part.tail else part)).bind fun n =>
    if n < 65536 then some n.toUInt16 else none

/-- A letter in any case; `ſ` is an `s`. -/
def isLetter (letter c : Char) : Bool := c.toLower = letter || (letter = 's' && c = 'ſ')

/-- `https?` at the start of a text, and what follows it. -/
def matchScheme : List Char → Option (List Char × List Char)
  | h :: t :: u :: p :: rest =>
    if isLetter 'h' h && isLetter 't' t && isLetter 't' u && isLetter 'p' p then
      match rest with
      | s :: rest => if isLetter 's' s then some ([h, t, u, p, s], rest)
          else some ([h, t, u, p], s :: rest)
      | [] => some ([h, t, u, p], [])
    else none
  | _ => none

/-- What a mark begins, if it is there, and what follows it. -/
def matchMarked (mark : Char) (p : Char → Bool) : List Char → List Char × List Char
  | [] => ([], [])
  | c :: rest => if c = mark then (c :: rest.takeWhile p, rest.dropWhile p) else ([], c :: rest)

/-- `(?:\:[0-9]+)?` -/
def matchPort (text : List Char) : List Char × List Char :=
  let (port, rest) := matchMarked ':' Char.isDigit text
  if port.length < 2 then ([], text) else (port, rest)

section

variable (wordChar : Char → Bool)

/-- A character of the host: `[-\w.]`. -/
def hostChar (c : Char) : Bool := c = '-' || wordChar c || c = '.'

/-- `(?:/(?:[\w/_.-]*(?:\?[\w&=%.+-]*)?(?:#[\w.-]*)?)?)?` -/
def matchPath (text : List Char) : List Char × List Char :=
  let (path, rest) := matchMarked '/' (fun c => wordChar c || c ∈ ['/', '_', '.', '-']) text
  if path = [] then ([], text)
  else
    let (query, rest) :=
      matchMarked '?' (fun c => wordChar c || c ∈ ['&', '=', '%', '.', '+', '-']) rest
    let (fragment, rest) := matchMarked '#' (fun c => wordChar c || c ∈ ['.', '-']) rest
    (path ++ (query ++ fragment), rest)

/-- The match of `url_regex` at the start of a text, and what follows it. -/
def matchUrl (text : List Char) : Option (List Char × List Char) := do
  let (scheme, rest) ← matchScheme text
  guard (['/', '/'] <+: rest.tail ∧ rest.head? = some ':')
  let rest := rest.drop 3
  let host := rest.takeWhile (hostChar wordChar)
  guard (host ≠ [])
  let (port, rest) := matchPort (rest.dropWhile (hostChar wordChar))
  let (path, rest) := matchPath wordChar rest
  return (scheme ++ ':' :: '/' :: '/' :: (host ++ (port ++ path)), rest)

/-- `find_iter`. -/
def findUrls : ℕ → List Char → List (List Char)
  | 0, _ | _, [] => []
  | fuel + 1, c :: text =>
    match matchUrl wordChar (c :: text) with
    | some (url, rest) => url :: findUrls fuel rest
    | none => findUrls fuel text

end

section

variable (toLowercase : List Char → List Char)

/-- `split(['/', ':']).next()` -/
def urlHost (withoutProtocol : List Char) : List Char :=
  withoutProtocol.takeWhile fun c => c ≠ '/' ∧ c ≠ ':'

/-- The number between the first two dots, zero when there is none. -/
def secondOctet (host : List Char) : UInt16 :=
  (((host.splitOn '.')[1]?).bind parseU16).getD 0

/-- The hosts that `is_valid_url` turns away. -/
def isRefusedHost (host : List Char) : Bool :=
  host = [] || host = "localhost".toList || "127.".toList.isPrefixOf host ||
    "192.168.".toList.isPrefixOf host || "10.".toList.isPrefixOf host ||
    ("172.".toList.isPrefixOf host && 16 ≤ secondOctet host && secondOctet host ≤ 31)

def isValidUrl (url : List Char) : Bool :=
  let withoutProtocol := (splitOnceAt [':', '/', '/'] url).elim [] (·.2)
  withoutProtocol ≠ [] && ! isRefusedHost (toLowercase (urlHost withoutProtocol))

/-- The loop of `extract_urls`; it ends at the fifth URL. -/
def collectUrls (urls : List (List Char)) : List (List Char) → List (List Char)
  | [] => urls
  | url :: found =>
    if isValidUrl toLowercase url ∧ url ∉ urls then
      if (urls ++ [url]).length = 5 then urls ++ [url] else collectUrls (urls ++ [url]) found
    else collectUrls urls found

def extractUrls (wordChar : Char → Bool) (text : List Char) : List (List Char) :=
  collectUrls toLowercase [] (findUrls wordChar text.length text)

def resolveUrl (base url : List Char) : List Char :=
  if "http://".toList <+: url ∨ "https://".toList <+: url then url
  else
    let protocol := (splitOnceAt [':', '/', '/'] base).elim "https".toList (·.1)
    let rest := (splitOnceAt [':', '/', '/'] base).elim [] (·.2)
    if "//".toList <+: url then protocol ++ ':' :: url
    else
      let host := rest.takeWhile (· ≠ '/')
      let (hostOnly, portPart) :=
        (splitOnce ':' host).elim (host, []) fun (h, port) => (h, ':' :: port)
      if "/".toList <+: url then protocol ++ ':' :: '/' :: '/' :: (hostOnly ++ (portPart ++ url))
      else
        let dir := (rsplitOnce '/' rest).elim rest (·.1)
        let basePath := (splitOnceAt host dir).elim dir (·.2)
        protocol ++ ':' :: '/' :: '/' :: (hostOnly ++ (portPart ++ (basePath ++ '/' :: url)))

/-- The icon that is tried where a page names no image; the host is that of a parsed URL. -/
def faviconUrl (scheme host : List Char) : List Char :=
  scheme ++ ':' :: '/' :: '/' :: (host ++ "/favicon.ico".toList)

end

end PlainRs.LocalApi
