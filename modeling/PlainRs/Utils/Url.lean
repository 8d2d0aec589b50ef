import PlainRs.Base.Text
import PlainRs.Base.Utf8

/-! `utils/build_url.rs` and the reading side of `utils/query.rs`. -/
namespace PlainRs.Utils

/-- The port is left out when it is the default of the scheme. -/
def buildUrl (scheme host : String) (port : UInt16) (path : String) : String :=
  let omitPort := ((scheme = "http" ∨ scheme = "ws") ∧ port = 80) ∨
    ((scheme = "https" ∨ scheme = "wss") ∧ port = 443)
  let portPart := if omitPort then "" else s!":{port}"
  s!"{scheme}://{host}{portPart}{path}"

def hexNibble (b : UInt8) : Option UInt8 :=
  if 48 ≤ b ∧ b ≤ 57 then some (b - 48)
  else if 97 ≤ b ∧ b ≤ 102 then some (b - 97 + 10)
  else if 65 ≤ b ∧ b ≤ 70 then some (b - 65 + 10)
  else none

/-- The bytes `percent_decode` collects: `+` is a space, and a triplet that is cut short or not
hexadecimal stays as it is. -/
def percentDecodeBytes : List UInt8 → List UInt8
  | [] => []
  | 43 :: rest => 32 :: percentDecodeBytes rest
  | 37 :: hi :: lo :: rest =>
    match hexNibble hi, hexNibble lo with
    | some h, some l => ((h <<< 4) ||| l) :: percentDecodeBytes rest
    | _, _ => 37 :: percentDecodeBytes (hi :: lo :: rest)
  | b :: rest => b :: percentDecodeBytes rest

def percentDecode (input : List Char) : String :=
  Text.fromUtf8Lossy (percentDecodeBytes (Text.bytes (String.ofList input)))

/-- `str::split_once` at a character. -/
def splitOnce (c : Char) (s : List Char) : Option (List Char × List Char) :=
  match s.dropWhile (· ≠ c) with
  | [] => none
  | _ :: rest => some (s.takeWhile (· ≠ c), rest)

/-- Of two parameters of one name the later one counts. -/
def parseQuery (q : List Char) : String → Option String :=
  (q.splitOn '&').foldl
    (fun out kv =>
      if kv = [] then out
      else
        let (k, v) := (splitOnce '=' kv).getD (kv, [])
        Function.update out (percentDecode k) (some (percentDecode v)))
    fun _ => none

def queryGet (path key : String) : Option String :=
  (splitOnce '?' path.toList).bind fun (_, query) => parseQuery query key

example : queryGet "/status?cid=abc%20def&&x" "cid" = some "abc def" := by decide +kernel

end PlainRs.Utils
