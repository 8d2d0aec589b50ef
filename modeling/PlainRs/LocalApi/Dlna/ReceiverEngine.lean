import PlainRs.Base.Runs

/-! The renderer's state and the operations on a cast request, section by section under its lock. -/
namespace PlainRs.Dlna

open Runs

inductive DlnaMediaType
  | video
  | audio
  | image
  | unknown
  deriving DecidableEq

inductive DlnaPlaybackState
  | noMediaPresent
  | stopped
  | playing
  | pausedPlayback
  | transitioning
  deriving DecidableEq

inductive DlnaCommand
  | setUri (uri title : String) (mediaType : DlnaMediaType) (albumArtUri : String)
  | play
  | pause
  | stop
  | seek (positionMs : Int)
  deriving DecidableEq

structure PendingCastRequest where
  senderIp : String
  senderName : String
  mediaUri : String
  mediaTitle : String
  mediaType : DlnaMediaType
  albumArtUri : String
  deriving DecidableEq

/-- The fields that the operations read or write. -/
structure DlnaRendererState where
  mediaUri : String
  mediaTitle : String
  mediaAlbumArtUri : String
  mediaType : DlnaMediaType
  playbackState : DlnaPlaybackState
  currentPositionMs : Int
  durationMs : Int
  seekTargetMs : Option Int
  rawPendingCastRequest : Option PendingCastRequest
  pendingCastRequest : Option PendingCastRequest
  pendingPlayQueued : Bool
  deriving DecidableEq

def DlnaRendererState.default : DlnaRendererState where
  mediaUri := ""
  mediaTitle := ""
  mediaAlbumArtUri := ""
  mediaType := .unknown
  playbackState := .noMediaPresent
  currentPositionMs := 0
  durationMs := 0
  seekTargetMs := none
  rawPendingCastRequest := none
  pendingCastRequest := none
  pendingPlayQueued := false

inductive SenderList
  | dlnaAllowedSenders
  | dlnaDeniedSenders
  deriving DecidableEq

/-- A change of the remembered senders. -/
inductive SenderCall
  | removeSender (key : SenderList) (ip : String)
  | addSender (key : SenderList) (ip name : String)
  deriving DecidableEq

/-- The renderer with the commands that were sent to it and the changes of the remembered senders,
in order. -/
structure Renderer where
  state : DlnaRendererState
  commands : List DlnaCommand
  senderCalls : List SenderCall
  deriving DecidableEq

/-- `senders_contain_ip`; an entry is `ip|name`. -/
def sendersContainIp (list : List String) (ip : String) : Bool :=
  list.any fun entry => String.ofList (entry.toList.takeWhile (· ≠ '|')) = ip

namespace DlnaRendererState

/-- The media of an accepted request; nothing is pending any more. -/
def load (s : DlnaRendererState) (pending : PendingCastRequest) (playQueued : Bool) :
    DlnaRendererState :=
  { s with
    mediaUri := pending.mediaUri
    mediaTitle := pending.mediaTitle
    mediaAlbumArtUri := pending.albumArtUri
    mediaType := pending.mediaType
    playbackState := if playQueued then .playing else .transitioning
    rawPendingCastRequest := none
    pendingCastRequest := none
    pendingPlayQueued := false }

end DlnaRendererState

namespace Renderer

def send (r : Renderer) (command : DlnaCommand) : Renderer :=
  { r with commands := r.commands ++ [command] }

def remember (r : Renderer) (remember : Bool) (pending : PendingCastRequest) (out into : SenderList) :
    Renderer :=
  if remember ∧ pending.senderIp ≠ "" then
    { r with senderCalls := r.senderCalls ++
        [.removeSender out pending.senderIp, .addSender into pending.senderIp pending.senderName] }
  else r

/-- The write section of `SetAVTransportURI`. -/
def setRaw (r : Renderer) (request : PendingCastRequest) : Renderer :=
  { r with state := { r.state with
      rawPendingCastRequest := some request
      pendingPlayQueued := false } }

/-- The write section of `check_rules`. -/
def applyRules (r : Renderer) (allowed denied : List String) (pending : PendingCastRequest)
    (playQueued : Bool) : Renderer :=
  if sendersContainIp allowed pending.senderIp then
    { r with
      state := r.state.load pending playQueued
      commands := r.commands ++ .setUri pending.mediaUri pending.mediaTitle pending.mediaType
        pending.albumArtUri :: if playQueued then [.play] else [] }
  else if sendersContainIp denied pending.senderIp then
    { r with state := { r.state with
        rawPendingCastRequest := none
        pendingPlayQueued := false } }
  else
    { r with state := { r.state with
        pendingCastRequest := some pending
        rawPendingCastRequest := none } }

def queuePlay (r : Renderer) : Renderer :=
  { r with state := { r.state with pendingPlayQueued := true } }

def hasPending (r : Renderer) : Bool :=
  r.state.rawPendingCastRequest.isSome || r.state.pendingCastRequest.isSome

/-- `dispatch_accept`. -/
def dispatchAccept (r : Renderer) (pending : PendingCastRequest) (playQueued : Bool) : Renderer :=
  { r with state := r.state.load pending playQueued }

/-- The write section of `reject_cast`. -/
def clearPending (r : Renderer) : Renderer :=
  { r with state := { r.state with
      pendingCastRequest := none
      pendingPlayQueued := false } }

end Renderer

/-- The operations; the sender lists are read before `SetAVTransportURI` is routed. -/
inductive CastOp
  | setAvTransportUri (request : PendingCastRequest) (allowed denied : List String)
  | play
  | acceptCast (remember : Bool)
  | rejectCast (remember : Bool)

/-- Where an operation is between its sections, with what it has read, or the request that it
looked at. -/
inductive CastPhase
  | idle
  | wrote
  | read (pending : PendingCastRequest) (playQueued : Bool)
  | sawPending
  | done (pending : Option PendingCastRequest)
  deriving DecidableEq

/-- The next section of an operation. -/
def CastOp.nextSection (r : Renderer) : CastOp → CastPhase → Option (CastPhase × Renderer)
  | .setAvTransportUri request _ _, .idle =>
    if request.mediaUri = "" then some (.done none, r) else some (.wrote, r.setRaw request)
  | .setAvTransportUri _ _ _, .wrote =>
    some (r.state.rawPendingCastRequest.elim (.done none) (.read · r.state.pendingPlayQueued), r)
  | .setAvTransportUri _ allowed denied, .read pending playQueued =>
    some (.done (some pending), r.applyRules allowed denied pending playQueued)
  | .play, .idle => if r.hasPending then some (.sawPending, r) else some (.done none, r.send .play)
  | .play, .sawPending => some (.done none, r.queuePlay)
  | .acceptCast _, .idle | .rejectCast _, .idle =>
    some (r.state.pendingCastRequest.elim (.done none) (.read · r.state.pendingPlayQueued), r)
  | .acceptCast remember, .read pending playQueued =>
    some (.done (some pending), (r.dispatchAccept pending playQueued).remember remember pending
      .dlnaDeniedSenders .dlnaAllowedSenders)
  | .rejectCast remember, .read pending _ =>
    some (.done (some pending), r.clearPending.remember remember pending
      .dlnaAllowedSenders .dlnaDeniedSenders)
  | _, _ => none

structure CastState (ι : Type) where
  renderer : Renderer
  phase : ι → CastPhase

variable {ι : Type} [DecidableEq ι]

/-- Operations that interleave section by section. -/
def castRuns (op : ι → CastOp) (start : DlnaRendererState) : System (CastState ι) ι where
  init s := s = ⟨⟨start, [], []⟩, fun _ => .idle⟩
  next s i := ((op i).nextSection s.renderer (s.phase i)).map fun out =>
    ⟨out.2, Function.update s.phase i out.1⟩

end PlainRs.Dlna
