import PlainRs.Base.Overwrites
import PlainRs.LocalApi.Dlna.CastRequests

/-! The command queue of the renderer, and where it leads after an accepted request. -/
namespace PlainRs.Dlna

open Overwrites

namespace DlnaRendererState

/-- The body of the loop of `run_command_processor`. -/
def process (s : DlnaRendererState) : DlnaCommand → DlnaRendererState
  | .setUri uri title mediaType albumArtUri =>
    { s with
      mediaUri := uri
      mediaTitle := title
      mediaAlbumArtUri := albumArtUri
      mediaType := mediaType
      playbackState := .transitioning }
  | .play => { s with playbackState := .playing }
  | .pause => { s with playbackState := .pausedPlayback }
  | .stop => { s with
      seekTargetMs := some 0
      mediaUri := ""
      playbackState := .noMediaPresent }
  | .seek positionMs => { s with seekTargetMs := some positionMs }

end DlnaRendererState

namespace Renderer

/-- `run_command_processor` until the queue is empty. -/
def drain (r : Renderer) : Renderer :=
  { r with
    state := r.commands.foldl DlnaRendererState.process r.state
    commands := [] }

/-- `check_rules` with no other operation between its sections. -/
def checkRules (r : Renderer) (allowed denied : List String) : Renderer :=
  r.state.rawPendingCastRequest.elim r fun pending =>
    r.applyRules allowed denied pending r.state.pendingPlayQueued

/-- The renderer with a request staged for the rule check. -/
def stage (r : Renderer) (request : PendingCastRequest) : Renderer :=
  { r with state := { r.state with rawPendingCastRequest := some request } }

end Renderer

namespace DlnaCommand

/-- The media uri that a command writes. -/
def uri? : DlnaCommand → Option String
  | .setUri uri _ _ _ => some uri
  | .stop => some ""
  | _ => none

/-- The title, the cover and the type that a command writes. -/
def media? : DlnaCommand → Option (String × String × DlnaMediaType)
  | .setUri _ title mediaType albumArtUri => some (title, albumArtUri, mediaType)
  | _ => none

/-- The playback state that a command writes. -/
def playback? : DlnaCommand → Option DlnaPlaybackState
  | .setUri .. => some .transitioning
  | .play => some .playing
  | .pause => some .pausedPlayback
  | .stop => some .noMediaPresent
  | .seek _ => none

end DlnaCommand

/-- The commands that wait leave the media and the playback of an accepted request as they are:
the last of them to write a uri, a title with what belongs to it or a playback state writes the one
of the request. -/
structure Harmless (commands : List DlnaCommand) (pending : PendingCastRequest)
    (playQueued : Bool) : Prop where
  uri : ∀ uri ∈ last DlnaCommand.uri? commands, uri = pending.mediaUri
  media : ∀ media ∈ last DlnaCommand.media? commands,
    media = (pending.mediaTitle, pending.albumArtUri, pending.mediaType)
  playback : ∀ playback ∈ last DlnaCommand.playback? commands,
    playback = if playQueued then .playing else .transitioning

variable {s t : DlnaRendererState} {commands : List DlnaCommand} {pending : PendingCastRequest}
  {playQueued : Bool} {r : Renderer} {allowed denied : List String}

section Process

/-- Title, cover and type, which are only written together. -/
def DlnaRendererState.media (s : DlnaRendererState) : String × String × DlnaMediaType :=
  (s.mediaTitle, s.mediaAlbumArtUri, s.mediaType)

theorem mediaUri_process (s : DlnaRendererState) (c : DlnaCommand) :
    (s.process c).mediaUri = c.uri?.getD s.mediaUri := by
  cases c <;> rfl

theorem media_process (s : DlnaRendererState) (c : DlnaCommand) :
    (s.process c).media = c.media?.getD s.media := by
  cases c <;> rfl

theorem playbackState_process (s : DlnaRendererState) (c : DlnaCommand) :
    (s.process c).playbackState = c.playback?.getD s.playbackState := by
  cases c <;> rfl

/-- What is pending. -/
def DlnaRendererState.requests (s : DlnaRendererState) :
    Option PendingCastRequest × Option PendingCastRequest × Bool :=
  (s.rawPendingCastRequest, s.pendingCastRequest, s.pendingPlayQueued)

/-- The position in the media: as far as it is played, as long as it is, and where to seek. -/
def DlnaRendererState.place (s : DlnaRendererState) : Int × Int × Option Int :=
  (s.currentPositionMs, s.durationMs, s.seekTargetMs)

theorem state_ext (huri : s.mediaUri = t.mediaUri) (hmedia : s.media = t.media)
    (hplay : s.playbackState = t.playbackState) (hplace : s.place = t.place)
    (hreq : s.requests = t.requests) : s = t := by
  cases s
  cases t
  simp_all [DlnaRendererState.media, DlnaRendererState.place, DlnaRendererState.requests]

end Process

section Accepted

variable (s commands pending playQueued)

/-- The state once a loaded request has been followed by the waiting commands. -/
def played : DlnaRendererState := commands.foldl DlnaRendererState.process (s.load pending playQueued)

/-- The commands of an accepted request. -/
def acceptCommands : List DlnaCommand :=
  .setUri pending.mediaUri pending.mediaTitle pending.mediaType pending.albumArtUri ::
    if playQueued then [.play] else []

/-- The commands of an accepted request write its media and playback, and nothing else. -/
def settled : DlnaRendererState :=
  { played s commands pending playQueued with
    mediaUri := pending.mediaUri
    mediaTitle := pending.mediaTitle
    mediaAlbumArtUri := pending.albumArtUri
    mediaType := pending.mediaType
    playbackState := if playQueued then .playing else .transitioning }

theorem foldl_acceptCommands :
    (commands ++ acceptCommands pending playQueued).foldl DlnaRendererState.process
      (s.load pending playQueued) = settled s commands pending playQueued := by
  rw [List.foldl_append]
  cases playQueued <;> rfl

/-- What waits in the queue makes no difference just when it is harmless. -/
theorem played_eq_settled_iff :
    played s commands pending playQueued = settled s commands pending playQueued ↔
      Harmless commands pending playQueued := by
  have huri : (played s commands pending playQueued).mediaUri =
      (last DlnaCommand.uri? commands).getD pending.mediaUri := field_foldl mediaUri_process
  have hmedia : (played s commands pending playQueued).media =
      (last DlnaCommand.media? commands).getD
        (pending.mediaTitle, pending.albumArtUri, pending.mediaType) := field_foldl media_process
  have hplay : (played s commands pending playQueued).playbackState =
      (last DlnaCommand.playback? commands).getD (if playQueued then .playing else .transitioning) :=
    field_foldl playbackState_process
  constructor
  · intro h
    have huri' := congrArg DlnaRendererState.mediaUri h
    have hmedia' := congrArg DlnaRendererState.media h
    have hplay' := congrArg DlnaRendererState.playbackState h
    rw [huri] at huri'
    rw [hmedia] at hmedia'
    rw [hplay] at hplay'
    refine ⟨fun uri hu => ?_, fun media hm => ?_, fun playback hp => ?_⟩
    · simpa [Option.mem_def.mp hu, settled] using huri'
    · simpa [Option.mem_def.mp hm, settled, DlnaRendererState.media] using hmedia'
    · simpa [Option.mem_def.mp hp, settled] using hplay'
  · rintro ⟨hu, hm, hp⟩
    apply state_ext
    · rw [huri]
      cases h : last DlnaCommand.uri? commands with
      | none => rfl
      | some uri => exact hu uri h
    · rw [hmedia]
      cases h : last DlnaCommand.media? commands with
      | none => rfl
      | some media => exact hm media h
    · rw [hplay]
      cases h : last DlnaCommand.playback? commands with
      | none => rfl
      | some playback => exact hp playback h
    · rfl
    · rfl

end Accepted

/-- Accepting by hand comes to the same state as an allowed sender does, once the queue is drained,
just when what waits in the queue is harmless: only the allowed request is queued behind it. -/
theorem accept_agrees_iff (remember : Bool) (hp : r.state.pendingCastRequest = some pending)
    (ha : sendersContainIp allowed pending.senderIp) :
    ((CastOp.acceptCast remember).whole r).2.drain.state =
        ((r.stage pending).checkRules allowed denied).drain.state ↔
      Harmless r.commands pending r.state.pendingPlayQueued := by
  have hhand : ((CastOp.acceptCast remember).whole r).2.drain.state =
      played r.state r.commands pending r.state.pendingPlayQueued := by
    simp only [CastOp.whole, hp, Option.elim_some, Renderer.remember]
    split <;> rfl
  have hauto : ((r.stage pending).checkRules allowed denied).drain.state =
      settled r.state r.commands pending r.state.pendingPlayQueued := by
    rw [← foldl_acceptCommands]
    simp only [Renderer.checkRules, Renderer.stage, Option.elim_some, Renderer.applyRules, if_pos ha]
    rfl
  rw [hhand, hauto]
  exact played_eq_settled_iff _ _ _ _

/-- A request with a queued Play is pending, and commands wait in the queue. -/
def waiting (commands : List DlnaCommand) : Renderer where
  state := { DlnaRendererState.default with
    pendingCastRequest := some ⟨"10.0.0.7", "TV", "http://x/y.mp4", "Y", .video, ""⟩
    pendingPlayQueued := true }
  commands := commands
  senderCalls := []

/-- A Pause that a Play follows does not show. -/
theorem accept_agrees_run :
    ((CastOp.acceptCast false).whole (waiting [.pause, .seek 5, .play])).2.drain.state =
      (((waiting [.pause, .seek 5, .play]).stage
        ⟨"10.0.0.7", "TV", "http://x/y.mp4", "Y", .video, ""⟩).checkRules
          ["10.0.0.7|TV"] []).drain.state :=
  (accept_agrees_iff false rfl (by decide +kernel)).mpr
    ⟨by decide +kernel, by decide +kernel, by decide +kernel⟩

/-- A Stop that waits clears the media that was accepted by hand. -/
theorem stop_clears_accepted :
    ((CastOp.acceptCast false).whole (waiting [.stop])).2.drain.state ≠
      (((waiting [.stop]).stage
        ⟨"10.0.0.7", "TV", "http://x/y.mp4", "Y", .video, ""⟩).checkRules
          ["10.0.0.7|TV"] []).drain.state := by
  decide +kernel

end PlainRs.Dlna
