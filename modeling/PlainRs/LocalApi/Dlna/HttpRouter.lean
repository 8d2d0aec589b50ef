import PlainRs.LocalApi.Dlna.CastRequests
import PlainRs.LocalApi.Dlna.SoapHandler

/-! SOAP requests to the renderer: what they do to it and what they are answered. -/
namespace PlainRs.Dlna

open Checked

structure DlnaHttpResponse where
  status : Nat
  contentType : Option String := none
  headers : List (String × String) := []
  body : String := ""
  deriving DecidableEq

def httpOk (body contentType : String) : DlnaHttpResponse where
  status := 200
  contentType := some contentType
  body := body

def httpOkSubscribe : DlnaHttpResponse where
  status := 200
  headers := [("SID", "uuid:dlna-plain-sub"), ("TIMEOUT", "Second-3600")]

section Responses

def buildResponse (action elements : String) : String :=
  "<?xml version=\"1.0\" encoding=\"utf-8\"?>\n" ++
  "<s:Envelope xmlns:s=\"http://schemas.xmlsoap.org/soap/envelope/\" " ++
  "s:encodingStyle=\"http://schemas.xmlsoap.org/soap/encoding/\">\n  <s:Body>\n" ++
  s!"    <u:{action}Response xmlns:u=\"urn:schemas-upnp-org:service:AVTransport:1\">\n" ++
  s!"      {elements}\n    </u:{action}Response>\n  </s:Body>\n</s:Envelope>"

def upnpTransportState : DlnaPlaybackState → String
  | .playing => "PLAYING"
  | .pausedPlayback => "PAUSED_PLAYBACK"
  | .stopped => "STOPPED"
  | .transitioning => "TRANSITIONING"
  | .noMediaPresent => "NO_MEDIA_PRESENT"

def buildTransportInfoResponse (transportState : String) : String :=
  buildResponse "GetTransportInfo"
    (s!"<CurrentTransportState>{transportState}</CurrentTransportState>" ++
      "<CurrentTransportStatus>OK</CurrentTransportStatus><CurrentSpeed>1</CurrentSpeed>")

def xmlEscape (s : String) : String :=
  String.ofList (replace (replace (replace s.toList "&" "&amp;") "<" "&lt;") ">" "&gt;")

def buildPositionInfoResponse (relTime trackDuration trackUri : String) : String :=
  buildResponse "GetPositionInfo"
    (s!"<Track>1</Track><TrackDuration>{trackDuration}</TrackDuration>" ++
      s!"<TrackMetaData>NOT_IMPLEMENTED</TrackMetaData><TrackURI>{xmlEscape trackUri}</TrackURI>" ++
      s!"<RelTime>{relTime}</RelTime><AbsTime>NOT_IMPLEMENTED</AbsTime>" ++
      "<RelCount>2147483647</RelCount><AbsCount>2147483647</AbsCount>")

def buildMediaInfoResponse : String :=
  buildResponse "GetMediaInfo"
    ("<NrTracks>1</NrTracks><MediaDuration>00:00:00</MediaDuration>" ++
      "<CurrentURI></CurrentURI><CurrentURIMetaData></CurrentURIMetaData>" ++
      "<PlayMedium>NONE</PlayMedium><RecordMedium>NOT_IMPLEMENTED</RecordMedium>" ++
      "<WriteStatus>NOT_IMPLEMENTED</WriteStatus>")

/-- `{:02}`. -/
def twoDigits (n : Int) : String := if 0 ≤ n ∧ n < 10 then s!"0{n}" else s!"{n}"

def formatPositionMs (ms : Int) : String :=
  let totalSecs := ms.tdiv 1000
  let h := totalSecs.tdiv 3600
  let m := (totalSecs.tmod 3600).tdiv 60
  let s := totalSecs.tmod 60
  s!"{twoDigits h}:{twoDigits m}:{twoDigits s}"

end Responses

/-- The milliseconds wrap as 64-bit arithmetic does. -/
def parseDlnaTimeToMs (time : String) : Int :=
  match pieces ':' time.toList with
  | h :: m :: s :: _ =>
    let h := (Text.parseI64 h).getD (-1)
    let m := (Text.parseI64 m).getD (-1)
    let s := (Text.parseI64 (firstPiece ['.'] s)).getD (-1)
    if 0 ≤ h ∧ 0 ≤ m ∧ 0 ≤ s then ((h * 3600 + m * 60 + s) * 1000).bmod (2 ^ 64) else -1
  | _ => -1

abbrev Headers := String → Option String

def resolveSenderName (headers : Headers) (senderIp : String) : String :=
  ((headers "c-name").filter (· ≠ "")).getD senderIp

section HandleSoap

variable (toLowercase : String → String)

/-- The request that `SetAVTransportURI` reads from its headers and parameters. -/
def castRequest (headers : Headers) (params : SoapParams) : Checked PendingCastRequest := do
  let senderIp := (headers "c-ip").getD ""
  let uri := (params "CurrentURI").getD ""
  let didl := ((params "CurrentURIMetaData").getD "").toList
  let rawTitle ← extractTitleFromDidlMeta didl
  let title := if rawTitle = [] then firstPiece ['?'] (lastPiece '/' uri.toList) else rawTitle
  let title ← cleanMediaTitle toLowercase title
  let mediaType ← extractMediaTypeFromDidlMeta toLowercase didl uri
  let albumArtUri ← extractAlbumArtUriFromDidlMeta didl
  pure ⟨senderIp, resolveSenderName headers senderIp, uri, title, mediaType, albumArtUri⟩

/-- What an action does to the renderer, and the body of its answer. -/
def handleAction (r : Renderer) (headers : Headers) (allowed denied : List String)
    (action : String) (params : SoapParams) : Checked (Renderer × String) :=
  if action = "SetAVTransportURI" then do
    let request ← castRequest toLowercase headers params
    pure (((CastOp.setAvTransportUri request allowed denied).whole r).2,
      buildResponse "SetAVTransportURI" "")
  else if action = "Play" then .ok ((CastOp.play.whole r).2, buildResponse "Play" "")
  else if action = "Pause" then .ok (r.send .pause, buildResponse "Pause" "")
  else if action = "Stop" then .ok (r.send .stop, buildResponse "Stop" "")
  else if action = "Seek" then
    let posMs := parseDlnaTimeToMs ((params "Target").getD "")
    .ok (if 0 ≤ posMs then r.send (.seek posMs) else r, buildResponse "Seek" "")
  else if action = "GetTransportInfo" then
    .ok (r, buildTransportInfoResponse (upnpTransportState r.state.playbackState))
  else if action = "GetPositionInfo" then
    let dur := if 0 < r.state.durationMs then formatPositionMs r.state.durationMs else "00:00:00"
    .ok (r, buildPositionInfoResponse (formatPositionMs r.state.currentPositionMs) dur
      r.state.mediaUri)
  else if action = "GetMediaInfo" then .ok (r, buildMediaInfoResponse)
  else if action = "GetDeviceCapabilities" then
    .ok (r, buildResponse "GetDeviceCapabilities"
      ("<PlayMedia>NETWORK</PlayMedia><RecMedia>NOT_IMPLEMENTED</RecMedia>" ++
        "<RecQualityModes>NOT_IMPLEMENTED</RecQualityModes>"))
  else .ok (r, buildResponse action "")

/-- The action and the parameters of a SOAP request, where it names an action. -/
def soapAction? (headers : Headers) (body : String) : Option (Checked (String × SoapParams)) :=
  ((headers "soapaction").or (headers "SOAPACTION")).map fun v => parseSoapAction v body

/-- A request whose handler panics changes nothing, since it is read before anything is written,
and has no answer. -/
def handleSoap (r : Renderer) (headers : Headers) (body : String) (allowed denied : List String) :
    Renderer × Option DlnaHttpResponse :=
  match soapAction? headers body with
  | none => (r, some { status := 500 })
  | some soap =>
    match soap.bind fun (action, params) =>
      handleAction toLowercase r headers allowed denied action params with
    | .ok (r, body) => (r, some (httpOk body "text/xml; charset=\"utf-8\""))
    | .error _ => (r, none)

end HandleSoap

section Route

/-- The documents that are served as they are, and what they are made with. -/
structure DlnaDocuments where
  deviceDescription : String
  scpdXml : String

variable (toLowercase : String → String) (documents : DlnaDocuments)

def endsWith (path suffix : String) : Bool := suffix.toList <:+ path.toList

def containsStr (path part : String) : Bool := part.toList <:+: path.toList

def route (r : Renderer) (method path : String) (headers : Headers) (body : String)
    (allowed denied : List String) : Renderer × Option DlnaHttpResponse :=
  if endsWith path "description.xml" then
    (r, some (httpOk documents.deviceDescription "text/xml; charset=\"utf-8\""))
  else if endsWith path "scpd.xml" then
    (r, some (httpOk documents.scpdXml "text/xml; charset=\"utf-8\""))
  else if method = "POST" ∧ (endsWith path "control" ∨ containsStr path "AVTransport") then
    handleSoap toLowercase r headers body allowed denied
  else if method = "POST" ∧ containsStr path "RenderingControl" then
    (r, some (httpOk (buildResponse "GetVolume" "<CurrentVolume>100</CurrentVolume>")
      "text/xml; charset=\"utf-8\""))
  else if method = "SUBSCRIBE" then (r, some httpOkSubscribe)
  else if method = "UNSUBSCRIBE" then (r, some (httpOk "" "text/plain"))
  else (r, some { status := 404 })

/-- An HTTP request for the renderer, and the address that it comes from. -/
structure DlnaHttpRequest where
  remote : String
  method : String
  path : String
  headers : Headers
  body : List UInt8

/-- The headers that `dlna_route` hands on. -/
def dlnaHeaders (headers : Headers) : Headers
  | "soapaction" => headers "soapaction"
  | "c-name" => headers "c-name"
  | _ => none

/-- With the receiver enabled and running. -/
def dlnaRoute (r : Renderer) (request : DlnaHttpRequest) (allowed denied : List String) :
    Renderer × Option DlnaHttpResponse :=
  if 1024 * 1024 < request.body.length then
    (r, some { status := 400, contentType := some "text/plain", body := "bad dlna body" })
  else route toLowercase documents r request.method request.path (dlnaHeaders request.headers)
    (Text.fromUtf8Lossy request.body) allowed denied

end Route

end PlainRs.Dlna
