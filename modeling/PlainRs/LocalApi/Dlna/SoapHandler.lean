import PlainRs.Base.Slices
import PlainRs.LocalApi.Dlna.ReceiverEngine

/-! Reading SOAP requests and the DIDL metadata in them, and when that panics. -/
namespace PlainRs.Dlna

open Checked Text

/-- `split(..).next()`. -/
def firstPiece (separators cs : List Char) : List Char := cs.takeWhile (· ∉ separators)

/-- `rsplit(c).next()`. -/
def lastPiece (c : Char) (cs : List Char) : List Char := (cs.reverse.takeWhile (· ≠ c)).reverse

/-- `str::trim_matches`. -/
def trimMatches (c : Char) (cs : List Char) : List Char :=
  ((cs.dropWhile (· = c)).reverse.dropWhile (· = c)).reverse

/-- `str::replace` of a text, once the first characters have been passed over. -/
def replaceAfter (pat by' : List Char) : Nat → List Char → List Char
  | _, [] => []
  | skip + 1, _ :: cs => replaceAfter pat by' skip cs
  | 0, c :: cs =>
    if pat <+: c :: cs then by' ++ replaceAfter pat by' (pat.length - 1) cs
    else c :: replaceAfter pat by' 0 cs

def replace (cs : List Char) (pat by' : String) : List Char :=
  replaceAfter pat.toList by'.toList 0 cs

/-- The entities in the order in which they are replaced. -/
def decodeXmlEntities (text : List Char) : List Char :=
  [("&amp;", "&"), ("&lt;", "<"), ("&gt;", ">"), ("&quot;", "\""), ("&apos;", "'")].foldl
    (fun text entity => replace text entity.1 entity.2) text

abbrev SoapParams := String → Option String

/-- What stands between the next `<` and the `>` after it, and the place past it. -/
def nextTag (xml : String) (pos : Nat) : Checked (Option (List Char × {next // pos < next})) := do
  let some ⟨tagStart, hs⟩ ← position (bytes xml) pos '<' | pure none
  let some ⟨tagEnd, he⟩ ← position (bytes xml) tagStart '>' | pure none
  let content ← cut xml.toList (tagStart + 1) tagEnd
  pure (some (content, ⟨tagEnd + 1, by omega⟩))

/-- The loop that looks for the opening tag of the action's element, and where it is left. -/
def findAction (xml : String) (action : List Char) (pos : Nat) : Checked (Option Nat) :=
  if pos < (bytes xml).length then do
    let some (content, ⟨next, _⟩) ← nextTag xml pos | pure none
    if content.head? ∉ [some '/', some '!', some '?'] ∧
        action <:+ firstPiece [' ', '\t', '\n', '\r', '/', '>'] content then
      pure (some next)
    else findAction xml action next
  else pure none
termination_by (bytes xml).length - pos

/-- The loop over the elements inside the action's element. -/
def readParams (xml : String) (action : List Char) (pos : Nat) (params : SoapParams) :
    Checked SoapParams :=
  if pos < (bytes xml).length then do
    let some (content, ⟨next, _⟩) ← nextTag xml pos | pure params
    match content with
    | '/' :: stripped =>
      if action <:+ firstPiece [' ', '\t', '\n', '\r', '>'] stripped then pure params
      else readParams xml action next params
    | _ =>
      if content.getLast? = some '/' ∨ content.head? ∈ [some '!', some '?'] then
        readParams xml action next params
      else do
        let tagName := firstPiece [' ', '\t', '\n', '\r', '/', '>'] content
        let some ⟨textEnd, _⟩ ← position (bytes xml) next '<' | pure params
        let text ← cut xml.toList next textEnd
        readParams xml action (textEnd + 1) (Function.update params (String.ofList tagName)
          (some (String.ofList (decodeXmlEntities text))))
  else pure params
termination_by (bytes xml).length - pos

def parseBodyParams (xml : String) (action : List Char) : Checked SoapParams := do
  match ← findAction xml action 0 with
  | none => pure fun _ => none
  | some pos => readParams xml action pos fun _ => none

def parseSoapAction (soapActionHeader body : String) : Checked (String × SoapParams) := do
  let action := lastPiece '#' (trimMatches '"' soapActionHeader.toList)
  let params ← parseBodyParams body action
  pure (String.ofList action, params)

def extractTitleFromDidlMeta (didl : List Char) : Checked (List Char) := do
  match findStr "<dc:title>".toList didl, findStr "</dc:title>".toList didl with
  | some s, some e =>
    if s < e then do
      let title ← cut didl (s + 10) e
      pure (decodeXmlEntities (trim (String.ofList title)).toList)
    else pure []
  | _, _ => pure []

def extractAlbumArtUriFromDidlMeta (didl : List Char) : Checked String := do
  let some start := findStr "<upnp:albumArtURI".toList didl | pure ""
  let fromTag ← cutFrom didl start
  let some tagEndRel := findByte '>' fromTag | pure ""
  let tagEnd := start + tagEndRel
  let fromEnd ← cutFrom didl tagEnd
  let some closeRel := findStr "</upnp:albumArtURI>".toList fromEnd | pure ""
  let uri ← cut didl (tagEnd + 1) (tagEnd + closeRel)
  pure (trim (String.ofList uri))

/-- `char::to_digit(16)`. -/
def hexDigit (c : Char) : Option Nat :=
  if '0' ≤ c ∧ c ≤ '9' then some (c.toNat - 48)
  else if 'a' ≤ c ∧ c ≤ 'f' then some (c.toNat - 87)
  else if 'A' ≤ c ∧ c ≤ 'F' then some (c.toNat - 55)
  else none

/-- `u8::from_str_radix(.., 16)` of a text of two bytes, which may begin with a `+`. -/
def u8OfHex : List Char → Option Nat
  | ['+', lo] => hexDigit lo
  | [hi, lo] => do
    let hi ← hexDigit hi
    let lo ← hexDigit lo
    pure (hi * 16 + lo)
  | _ => none

/-- The loop of `percent_decode` from byte `i` on. -/
def percentDecodeFrom (input : List Char) (i : Nat) (out : List Char) : Checked (List Char) :=
  if i < String.utf8Len input then do
    let rest ← cutFrom input i
    let c := rest.headD ' '
    if c = '+' then percentDecodeFrom input (i + 1) (out ++ [' '])
    else if c = '%' ∧ i + 2 < String.utf8Len input then do
      let hex ← cut input (i + 1) (i + 3)
      match u8OfHex hex with
      | some code => percentDecodeFrom input (i + 3) (out ++ [Char.ofNat code])
      | none => percentDecodeFrom input (i + 1) (out ++ [c])
    else percentDecodeFrom input (i + c.utf8Size) (out ++ [c])
  else pure out
termination_by String.utf8Len input - i
decreasing_by
  · omega
  · omega
  · omega
  · have hc : 0 < (rest.headD ' ').utf8Size := Char.utf8Size_pos _
    omega

def percentDecode (input : List Char) : Checked (List Char) := percentDecodeFrom input 0 []

/-- `split(':')`. -/
def pieces (c : Char) (cs : List Char) : List (List Char) := cs.splitOn c

def extractProtocolInfoMime (didl : List Char) : Checked (Option String) := do
  let some tagStart := findStr "<res".toList didl | pure none
  let fromTag ← cutFrom didl tagStart
  let some tagEndRel := findByte '>' fromTag | pure none
  let tagAttrs ← cut didl tagStart (tagStart + tagEndRel)
  let some piStart := findStr "protocolInfo=\"".toList tagAttrs | pure none
  let after ← cutFrom tagAttrs (piStart + 15)
  let some piEnd := findByte '"' after | pure none
  let pi ← cut after 0 piEnd
  pure ((pieces ':' pi)[2]?.map String.ofList)

def classifyByMime (mime : String) : DlnaMediaType :=
  if "video/".toList <+: mime.toList then .video
  else if "audio/".toList <+: mime.toList then .audio
  else if "image/".toList <+: mime.toList then .image
  else .unknown

section

variable (toLowercase : String → String)

def mediaExtensions : List String :=
  ["mp3", "flac", "aac", "ogg", "m4a", "wav", "opus", "wma", "mp4", "mkv", "avi", "mov", "wmv",
    "flv", "ts", "webm", "jpg", "jpeg", "png", "gif", "webp", "bmp", "heic", "heif"]

/-- What `rsplitn(2, '.').last()` leaves is everything before the last dot, where there is one. -/
def beforeLastDot (cs : List Char) : List Char :=
  if '.' ∈ cs then cs.take (cs.length - (lastPiece '.' cs).length - 1) else cs

def cleanMediaTitle (raw : List Char) : Checked String := do
  let decoded ← percentDecode raw
  let ext := toLowercase (String.ofList (lastPiece '.' decoded))
  if ext ∈ mediaExtensions then pure (String.ofList (beforeLastDot decoded))
  else pure (String.ofList decoded)

def classifyByClass (cls : List Char) : DlnaMediaType :=
  let contains (word : String) : Bool := word.toList <:+: cls
  if contains "audioitem" || contains "musictrack" then .audio
  else if contains "imageitem" || contains "photo" then .image
  else if contains "videoitem" then .video
  else .unknown

def classifyByExtension (ext : String) : DlnaMediaType :=
  if ext ∈ ["mp3", "flac", "aac", "ogg", "m4a", "wav", "opus", "wma"] then .audio
  else if ext ∈ ["jpg", "jpeg", "png", "gif", "webp", "bmp", "heic", "heif"] then .image
  else if ext ∈ ["mp4", "mkv", "avi", "mov", "wmv", "flv", "ts", "webm"] then .video
  else .unknown

/-- The second and the third tier: the class of the item, and the extension of its url. -/
def extractClass (didl : List Char) (fallbackUri : String) : Checked DlnaMediaType :=
  let byUrl := classifyByExtension (toLowercase (String.ofList
    (firstPiece ['?'] (lastPiece '.' fallbackUri.toList))))
  match findStr "<upnp:class>".toList didl, findStr "</upnp:class>".toList didl with
  | some cs, some ce =>
    if cs < ce then do
      let cls ← cut didl (cs + 12) ce
      pure (classifyByClass (toLowercase (String.ofList cls)).toList)
    else pure byUrl
  | _, _ => pure byUrl

def extractMediaTypeFromDidlMeta (didl : List Char) (fallbackUri : String) :
    Checked DlnaMediaType := do
  match (← extractProtocolInfoMime didl).map classifyByMime with
  | some .unknown | none => extractClass toLowercase didl fallbackUri
  | some cls => pure cls

end

end PlainRs.Dlna
