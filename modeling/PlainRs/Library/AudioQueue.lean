import PlainRs.Base.Loops
import PlainRs.Library.Db

/-! The audio queue: its source, its manual queue and the resolution of the next track. -/
namespace PlainRs.Library

/-- A track as the queue and the playlists serve it. -/
structure AudioTrack where
  title : String
  artist : String
  path : String
  durationSecs : Int
  deriving DecidableEq

namespace AudioTrack

def ofQueueItem (q : QueueItem) : AudioTrack := ⟨q.title, q.artist, q.path, q.durationSecs⟩

def ofPlaylistItem (i : PlaylistItem) : AudioTrack := ⟨i.title, i.artist, i.audioPath, i.durationSecs⟩

end AudioTrack

inductive LibraryError
  | sqlite (message : String)
  | other (message : String)

/-- The media library behind the `LIBRARY` source, as it answers during one call. -/
structure LibraryTracks where
  libraryCount : Except LibraryError Nat
  libraryPathAt : Nat → String → Except LibraryError (Option String)
  libraryTracksPage : Nat → Nat → String → Except LibraryError (List AudioTrack)
  libraryLocate : String → String → Except LibraryError Int
  libraryContains : String → Except LibraryError Bool

/-- `NoLibrary`, of consumers without a media index. -/
def noLibrary : LibraryTracks where
  libraryCount := .ok 0
  libraryPathAt _ _ := .ok none
  libraryTracksPage _ _ _ := .ok []
  libraryLocate _ _ := .ok (-1)
  libraryContains _ := .ok false

section Playing

variable (db : LibraryDb) (now : String)

def recordHistory (path title artist : String) (durationSecs : Int) : LibraryDb :=
  let row := match db.historyByPath path with
    | some h => { h with
        playCount := h.playCount + 1
        playedAt := now
        title := title
        artist := artist
        durationSecs := durationSecs }
    | none => ⟨path, title, artist, durationSecs, 1, now⟩
  let db := db.upsertHistory row
  if db.allHistory.length > historyKeep * 5 / 4 then db.trimHistory historyKeep else db

def recordPlay (a : AudioTrack) : LibraryDb :=
  recordHistory db now a.path a.title a.artist a.durationSecs

/-- Overwrites the current track on the source row. -/
def saveAudioCurrent (path : String) : LibraryDb :=
  db.saveSource { db.getSource with currentPath := path }

/-- A jump in a library source marks the cached position as unknown. -/
def onPlaying (path title artist : String) (durationSecs : Int) : LibraryDb :=
  if path = "" then db
  else
    let src := db.getSource
    let newIndex := if src.source = .library ∧ path ≠ src.currentPath then -1 else src.currentIndex
    let db := if src.currentPath ≠ path ∨ newIndex ≠ src.currentIndex then
        db.saveSource { src with currentPath := path, currentIndex := newIndex }
      else db
    recordHistory db now path title artist durationSecs

end Playing

section ManualQueue

variable (db : LibraryDb)

/-- The incoming tracks go to the front or the back; older entries of their paths go. -/
def enqueue (items : List AudioTrack) (playNext : Bool) : LibraryDb :=
  if items = [] then db
  else
    let incoming := items.map AudioTrack.path
    let queued := db.allQueueItems.filter fun q => q.path ∉ incoming
    let rows := items.map fun a => ⟨a.path, 0, a.title, a.artist, a.durationSecs⟩
    db.replaceQueueItems (if playNext then rows ++ queued else queued ++ rows)

def removeQueued (path : String) : LibraryDb := db.removeQueueItem path

/-- Unknown paths keep their order at the end. -/
def reorderQueued (paths : List String) : LibraryDb :=
  if paths = [] then db
  else
    let all := db.allQueueItems
    if all = [] then db
    else db.replaceQueueItems ((paths.filterMap fun p => all.find? fun i => i.path = p) ++
      all.filter fun i => i.path ∉ paths)

def removePaths (paths : List String) : LibraryDb :=
  if paths = [] then db
  else
    let db := ((db.removeQueueItemsByPaths paths).removeHistory paths).removePlaylistItemsByPaths paths
    let src := db.getSource
    if src.currentPath ≠ "" ∧ src.currentPath ∈ paths then
      db.saveSource { src with currentPath := "", currentIndex := -1 }
    else db

def clearQueue : LibraryDb := (db.replaceQueueItems []).saveSource {}

end ManualQueue

section Playlists

variable (db : LibraryDb) (now : String)

/-- `id` is the random draw. -/
def createPlaylist (id name : String) : LibraryDb := db.insertPlaylist ⟨id, name, now, now⟩

def renamePlaylist (id name : String) : LibraryDb :=
  match db.playlistById id with
  | some pl => db.updatePlaylist { pl with name := name, updatedAt := now }
  | none => db

def touchPlaylist (id : String) : LibraryDb :=
  match db.playlistById id with
  | some pl => db.updatePlaylist { pl with updatedAt := now }
  | none => db

def deletePlaylist (id : String) : LibraryDb :=
  let db := (db.deletePlaylist id).deletePlaylistItems id
  let src := db.getSource
  if src.source = .playlist ∧ src.playlistId = id then
    db.saveSource { src with source := .none, playlistId := "" }
  else db

/-- One track of the loop that adds tracks: the database, the items so far and the next place. -/
def addPlaylistItem (playlistId : String) :
    LibraryDb × List PlaylistItem × Int → String × AudioTrack → LibraryDb × List PlaylistItem × Int
  | (db, existing, next), (id, a) =>
    if existing.any fun i => i.audioPath = a.path then (db, existing, next)
    else
      let row : PlaylistItem :=
        ⟨id, playlistId, a.path, a.title, a.artist, a.durationSecs, next, now⟩
      (db.insertPlaylistItem row, existing ++ [row], next + 1)

/-- Tracks whose path the playlist has are ignored; each comes with the random draw for its id. -/
def addPlaylistItems (playlistId : String) (items : List (String × AudioTrack)) : LibraryDb :=
  let existing := db.playlistItems playlistId
  let next := (existing.getLast?.map fun i => i.sortOrder + 1).getD 0
  touchPlaylist (items.foldl (addPlaylistItem now playlistId) (db, existing, next)).1 now playlistId

def removePlaylistItem (playlistId path : String) : LibraryDb :=
  touchPlaylist (db.removePlaylistItem playlistId path) now playlistId

end Playlists

section SetSource

variable (db : LibraryDb) (now : String)

def setPlaylistSource (playlistId : String) (startPath : Option String) :
    LibraryDb × Option AudioTrack :=
  let db := db.replaceQueueItems []
  match db.playlistItems playlistId with
  | [] => (db.saveSource {}, none)
  | first :: rest =>
    let start := match startPath with
      | some p => ((first :: rest).find? fun i => i.audioPath = p).getD first
      | none => first
    let db := db.saveSource {
      source := .playlist
      playlistId := playlistId
      currentPath := start.audioPath
      currentIndex := start.sortOrder }
    let track := AudioTrack.ofPlaylistItem start
    (recordPlay db now track, some track)

/-- The track a library source starts with and its index; `shuffle` is the random draw. -/
def libraryStart (lib : LibraryTracks) (size : Nat) (sort : String) (startPath : Option String)
    (shuffle : Option Nat) : Except LibraryError (Option AudioTrack × Int) :=
  match shuffle, startPath with
  | some draw, _ => do
    let page ← lib.libraryTracksPage (draw % size) 1 sort
    pure (page.head?, (draw % size : Nat))
  | none, some p => do
    let index ← lib.libraryLocate p sort
    if 0 ≤ index then
      let page ← lib.libraryTracksPage index.toNat 1 sort
      pure (page.head?, index)
    else pure (none, index)
  | none, none => do
    let page ← lib.libraryTracksPage 0 1 sort
    pure (page.head?, 0)

def setLibrarySource (lib : LibraryTracks) (startPath : Option String) (shuffle : Option Nat) :
    LibraryDb × Except LibraryError (Option AudioTrack) :=
  let db := db.replaceQueueItems []
  match lib.libraryCount with
  | .error e => (db, .error e)
  | .ok size =>
    if size = 0 then (db.saveSource {}, .ok none)
    else match libraryStart lib size "DATE_DESC" startPath shuffle with
    | .error e => (db, .error e)
    | .ok (none, _) => (db.saveSource {}, .ok none)
    | .ok (some start, index) =>
      let db := db.saveSource {
        source := .library
        currentPath := start.path
        currentIndex := index
        sortBy := "DATE_DESC" }
      (recordPlay db now start, .ok (some start))

end SetSource

/-- The playback order: `source[0 .. currentPos]`, the manual queue, `source[currentPos + 1 ..]`. -/
structure Order where
  src : QueueSource
  manualCount : Nat
  sourceSize : Nat
  currentPos : Int

def Order.total (order : Order) : Nat := order.manualCount + order.sourceSize

section PlaybackOrder

variable (lib : LibraryTracks) (db : LibraryDb)

def sourceSizeOf (src : QueueSource) : Except LibraryError Nat :=
  match src.source with
  | .playlist => .ok (db.playlistItems src.playlistId).length
  | .library => lib.libraryCount
  | .none => .ok 0

/-- The place of a path in a playlist, -1 when it has none. -/
def playlistPosition (playlistId path : String) : Int :=
  ((db.playlistItems playlistId).findIdx? fun i => i.audioPath = path).elim (-1) (↑)

/-- A cached position of a library source is checked, and located again where it is wrong. -/
def currentPosInSource (src : QueueSource) (sourceSize : Nat) :
    Except LibraryError (LibraryDb × QueueSource × Int) :=
  if src.currentPath = "" ∨ sourceSize = 0 then .ok (db, src, -1)
  else match src.source with
  | .playlist => .ok (db, src, playlistPosition db src.playlistId src.currentPath)
  | .library => do
    let cached := src.currentIndex
    let hit ←
      if 0 ≤ cached ∧ cached.toNat < sourceSize then do
        let p ← lib.libraryPathAt cached.toNat src.sortBy
        pure (decide (p = some src.currentPath))
      else pure false
    if hit then pure (db, src, cached)
    else
      let found ← lib.libraryLocate src.currentPath src.sortBy
      if 0 ≤ found then
        let src := { src with currentIndex := found }
        pure (db.saveSource src, src, found)
      else pure (db, src, found)
  | .none => .ok (db, src, -1)

def playbackOrder : Except LibraryError (LibraryDb × Order) := do
  let src := db.getSource
  let manualCount := db.allQueueItems.length
  let sourceSize ← sourceSizeOf lib db src
  let (db, src, currentPos) ← currentPosInSource lib db src sourceSize
  pure (db, ⟨src, manualCount, sourceSize, currentPos⟩)

/-- Rank of the current track in the playback order, -1 if unknown. -/
def currentRank (order : Order) (queued : List QueueItem) : Int :=
  if order.src.currentPath = "" then -1
  else match queued.findIdx? fun q => q.path = order.src.currentPath with
  | some pos => order.currentPos + 1 + pos
  | none => order.currentPos

def sourceTrackAt (src : QueueSource) (rank : Int) : Except LibraryError (Option AudioTrack) :=
  match src.source with
  | .playlist => .ok ((db.playlistItems src.playlistId)[rank.toNat]?.map AudioTrack.ofPlaylistItem)
  | .library => do
    let page ← lib.libraryTracksPage rank.toNat 1 src.sortBy
    pure page.head?
  | .none => .ok none

def trackAt (order : Order) (queued : List QueueItem) (rank : Int) :
    Except LibraryError (Option AudioTrack) :=
  if rank < 0 ∨ (order.total : Int) ≤ rank then .ok none
  else if rank ≤ order.currentPos then sourceTrackAt lib db order.src rank
  else if rank ≤ order.currentPos + order.manualCount then
    .ok (queued[(rank - order.currentPos - 1).toNat]?.map AudioTrack.ofQueueItem)
  else sourceTrackAt lib db order.src (rank - order.manualCount)

/-- Paths that the source and the manual queue both have: they play from the manual slot. -/
def supersededSourcePaths (order : Order) (queued : List QueueItem) :
    Except LibraryError (Finset String) :=
  if order.manualCount = 0 then .ok ∅
  else match order.src.source with
  | .playlist => .ok (((db.playlistItems order.src.playlistId).map PlaylistItem.audioPath).filter
      fun p => p ∈ queued.map QueueItem.path).toFinset
  | .library => queued.foldlM (fun out q => do
      let found ← lib.libraryContains q.path
      pure (if found then insert q.path out else out)) ∅
  | .none => .ok ∅

def saveCurrent (order : Order) (queued : List QueueItem) (rank : Int) :
    Except LibraryError LibraryDb := do
  match ← trackAt lib db order queued rank with
  | none => pure db
  | some a =>
    let sourcePos : Int := match order.src.source with
      | .playlist => playlistPosition db order.src.playlistId a.path
      | .library =>
        if 0 ≤ order.currentPos ∧ rank ≤ order.currentPos then rank
        else if 0 ≤ order.currentPos ∧ rank ≤ order.currentPos + order.manualCount then -1
        else rank - order.manualCount
      | .none => -1
    pure (db.saveSource { order.src with currentPath := a.path, currentIndex := sourcePos })

end PlaybackOrder

section ResolveNext

variable (lib : LibraryTracks) (db : LibraryDb) (order : Order) (queued : List QueueItem)
  (superseded : Finset String) (isNext : Bool)

/-- The first rank tried; `shuffle` is the random draw. -/
def firstTarget (total : Nat) (shuffle : Option Nat) : Int :=
  match shuffle with
  | some draw => (draw % total : Nat)
  | none =>
    let current := currentRank order queued
    let origin := if current < 0 then (if isNext then -1 else 0) else current
    if isNext then (origin + 1) % total else (origin - 1 + total) % total

def nextTarget (target : Int) : Int :=
  if isNext then (target + 1) % order.total else (target - 1 + order.total) % order.total

/-- The body of the loop past superseded ranks: it stops at a track that is not superseded, at no
track, and at a second track of the same path in a row. -/
def skipSuperseded : Int × Option AudioTrack →
    (Int × Option AudioTrack) ⊕ Except LibraryError (Int × Option AudioTrack)
  | (target, none) => .inr (.ok (target, none))
  | (target, some a) =>
    if a.path ∉ superseded then .inr (.ok (target, some a))
    else
      let target := nextTarget order isNext target
      match trackAt lib db order queued target with
      | .error e => .inr (.error e)
      | .ok next =>
        if next.any fun n => n.path = a.path then .inr (.ok (target, some a)) else .inl (target, next)

/-- What follows the loop: a track that is still superseded is none at all. -/
def afterSkip (now : String) : Except LibraryError (Int × Option AudioTrack) →
    LibraryDb × Except LibraryError (Option AudioTrack)
  | .error e => (db, .error e)
  | .ok (_, none) => (db, .ok none)
  | .ok (target, some a) =>
    if a.path ∈ superseded then (db, .ok none)
    else match saveCurrent lib db order queued target with
    | .error e => (db, .error e)
    | .ok db => (recordPlay db now a, .ok (some a))

/-- `resolve_next` with the clock reading and the random draw given; none when the fuel does not
reach the end of its loop. -/
def resolveNext (shuffle : Option Nat) (now : String) (fuel : Nat) :
    Option (LibraryDb × Except LibraryError (Option AudioTrack)) :=
  match playbackOrder lib db with
  | .error e => some (db, .error e)
  | .ok (db, order) =>
    if order.total = 0 then some (db, .ok none)
    else
      let queued := db.allQueueItems
      match supersededSourcePaths lib db order queued with
      | .error e => some (db, .error e)
      | .ok superseded =>
        let total := order.total - superseded.card
        if total = 0 then some (db, .ok none)
        else
          let target := firstTarget order queued isNext total shuffle
          match trackAt lib db order queued target with
          | .error e => some (db, .error e)
          | .ok audio =>
            (Loops.run (skipSuperseded lib db order queued superseded isNext) fuel
              (target, audio)).map (afterSkip lib db order queued superseded now)

end ResolveNext

end PlainRs.Library
