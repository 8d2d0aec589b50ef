import PlainRs.Base.Statements

/-! The audio tables of the library database and their queries. -/
namespace PlainRs.Library

open Keyed

inductive QueueSourceKind
  | none | playlist | library
  deriving DecidableEq, Repr

/-- The single row of the queue's source. -/
structure QueueSource where
  source : QueueSourceKind := .none
  playlistId : String := ""
  currentPath : String := ""
  currentIndex : Int := -1
  sortBy : String := ""
  deriving DecidableEq

/-- A row of the manual queue. -/
structure QueueItem where
  path : String
  sortOrder : Int
  title : String
  artist : String
  durationSecs : Int
  deriving DecidableEq

structure Playlist where
  id : String
  name : String
  createdAt : String
  updatedAt : String

structure PlaylistItem where
  id : String
  playlistId : String
  audioPath : String
  title : String
  artist : String
  durationSecs : Int
  sortOrder : Int
  addedAt : String
  deriving DecidableEq

structure PlayHistory where
  path : String
  title : String
  artist : String
  durationSecs : Int
  playCount : Int
  playedAt : String

/-- The rows of each table stand in the order of their row ids. -/
structure LibraryDb where
  queueSource : Option QueueSource
  queueItems : Table QueueItem QueueItem.path
  playlists : Table Playlist Playlist.id
  playlistItemRows : Table PlaylistItem PlaylistItem.id
  history : Table PlayHistory PlayHistory.path

def historyKeep : Nat := 200

/-- `remove_by_paths`. -/
def removeByPaths {ρ κ : Type} {key : ρ → κ} (T : Table ρ key) (column : ρ → String)
    (paths : List String) : Table ρ key := T.deleteIn column paths

namespace LibraryDb

def empty : LibraryDb := ⟨none, Table.empty, Table.empty, Table.empty, Table.empty⟩

variable (db : LibraryDb)

def getSource : QueueSource := db.queueSource.getD {}

def saveSource (src : QueueSource) : LibraryDb := { db with queueSource := some src }

def allQueueItems : List QueueItem :=
  db.queueItems.rows.insertionSort fun a b => a.sortOrder ≤ b.sortOrder

/-- A transaction: a path that comes twice fails an insert and the old rows stay. -/
def replaceQueueItems (items : List QueueItem) : LibraryDb :=
  let rows := items.mapIdx fun i item => { item with sortOrder := i }
  if h : (rows.map QueueItem.path).Nodup then { db with queueItems := ⟨rows, h⟩ } else db

def removeQueueItem (path : String) : LibraryDb :=
  { db with queueItems := db.queueItems.erase path }

def playlistById (id : String) : Option Playlist := db.playlists.find? id

def insertPlaylist (pl : Playlist) : LibraryDb := { db with playlists := db.playlists.insert pl }

def updatePlaylist (pl : Playlist) : LibraryDb :=
  { db with
    playlists := db.playlists.modify pl.id
      (fun row => { row with name := pl.name, updatedAt := pl.updatedAt }) fun _ => rfl }

def deletePlaylist (id : String) : LibraryDb := { db with playlists := db.playlists.erase id }

def playlistItems (playlistId : String) : List PlaylistItem :=
  (db.playlistItemRows.rows.filter fun i => i.playlistId = playlistId).insertionSort
    fun a b => a.sortOrder ≤ b.sortOrder

def insertPlaylistItem (item : PlaylistItem) : LibraryDb :=
  { db with playlistItemRows := db.playlistItemRows.insert item }

def deletePlaylistItems (playlistId : String) : LibraryDb :=
  { db with playlistItemRows := db.playlistItemRows.filter fun i => i.playlistId ≠ playlistId }

def removePlaylistItem (playlistId path : String) : LibraryDb :=
  { db with
    playlistItemRows := db.playlistItemRows.filter fun i =>
      ¬ (i.playlistId = playlistId ∧ i.audioPath = path) }

def removePlaylistItemsByPaths (paths : List String) : LibraryDb :=
  { db with playlistItemRows := removeByPaths db.playlistItemRows PlaylistItem.audioPath paths }

/-- Newest first; of the rows of one moment the later row id comes first. -/
def allHistory : List PlayHistory :=
  db.history.rows.reverse.insertionSort fun a b => b.playedAt ≤ a.playedAt

def historyByPath (path : String) : Option PlayHistory := db.history.find? path

def upsertHistory (row : PlayHistory) : LibraryDb :=
  { db with history := db.history.upsert row (fun old => { row with path := old.path }) fun _ => rfl }

def trimHistory (keep : Nat) : LibraryDb :=
  { db with
    history := db.history.filter fun h => h.path ∈ (db.allHistory.take keep).map PlayHistory.path }

def removeHistory (paths : List String) : LibraryDb :=
  { db with history := removeByPaths db.history PlayHistory.path paths }

def removeQueueItemsByPaths (paths : List String) : LibraryDb :=
  { db with queueItems := removeByPaths db.queueItems QueueItem.path paths }

end LibraryDb

end PlainRs.Library
