import PlainRs.Base.Text
import PlainRs.Library.AudioQueue

/-! Pages of the playback order, and their total. -/
namespace PlainRs.Library

section

variable (lib : LibraryTracks) (db : LibraryDb)

def queueTotal : LibraryDb × Except LibraryError Nat :=
  match playbackOrder lib db with
  | .error e => (db, .error e)
  | .ok (db, order) =>
    (db, do
      let superseded ← supersededSourcePaths lib db order db.allQueueItems
      pure (order.total - superseded.card))

def sourcePage (src : QueueSource) (offset limit : Int) : Except LibraryError (List AudioTrack) :=
  if limit ≤ 0 then .ok []
  else match src.source with
  | .playlist =>
    .ok ((((db.playlistItems src.playlistId).drop offset.toNat).take limit.toNat).map
      AudioTrack.ofPlaylistItem)
  | .library => lib.libraryTracksPage offset.toNat limit.toNat src.sortBy
  | .none => .ok []

section

variable (order : Order) (queued : List QueueItem) (superseded : Finset String) (stop : Int)

/-- One turn of the loop of a page: where the next one starts, and the rows up to there. -/
def pageSegment (rank : Int) : Except LibraryError (Int × List AudioTrack) :=
  if rank ≤ order.currentPos then do
    let segEnd := min stop (order.currentPos + 1)
    let rows ← sourcePage lib db order.src rank (segEnd - rank)
    pure (segEnd, rows.filter fun a => a.path ∉ superseded)
  else if rank ≤ order.currentPos + order.manualCount then
    let segEnd := min stop (order.currentPos + 1 + order.manualCount)
    pure (segEnd, ((queued.drop (rank - order.currentPos - 1).toNat).take
      (segEnd - rank).toNat).map AudioTrack.ofQueueItem)
  else do
    let rows ← sourcePage lib db order.src (rank - order.manualCount) (stop - rank)
    pure (stop, rows.filter fun a => a.path ∉ superseded)

/-- The loop; each turn moves the rank on, so `stop - rank` turns reach the end. -/
def pageRows : Nat → Int → List AudioTrack → Except LibraryError (List AudioTrack)
  | 0, _, out => pure out
  | turns + 1, rank, out =>
    if rank < stop then do
      let (next, rows) ← pageSegment lib db order queued superseded stop rank
      pageRows turns next (out ++ rows)
    else pure out

end

def queuePageUnfiltered (offset limit : Int) : LibraryDb × Except LibraryError (List AudioTrack) :=
  match playbackOrder lib db with
  | .error e => (db, .error e)
  | .ok (db, order) =>
    (db, do
      let queued := db.allQueueItems
      let superseded ← supersededSourcePaths lib db order queued
      let stop := min (offset + limit) order.total
      pageRows lib db order queued superseded stop (stop - max offset 0).toNat (max offset 0) [])

end

/-- `str::contains`. -/
def contains (s needle : String) : Bool := needle.toList <:+: s.toList

section

variable (lib : LibraryTracks) (toLowercase : String → String)

/-- Case-insensitive substring match over the fields a track renders. -/
def audioMatchesText (a : AudioTrack) (needle : String) : Bool :=
  contains (toLowercase a.title) needle || contains (toLowercase a.artist) needle ||
    contains (toLowercase a.path) needle

/-- One chunk of the filtered order: the rank moves on by the rows that the chunk returned. -/
def matchChunk (needle : String) (want : Nat) : LibraryDb × Int × List AudioTrack →
    (LibraryDb × Int × List AudioTrack) ⊕ (LibraryDb × Except LibraryError (List AudioTrack))
  | (db, rank, matched) =>
    if matched.length < want then
      match queuePageUnfiltered lib db rank 500 with
      | (db, .error e) => .inr (db, .error e)
      | (db, .ok page) =>
        if page = [] then .inr (db, .ok matched)
        else .inl (db, rank + page.length,
          matched ++ page.filter fun a => audioMatchesText toLowercase a needle)
    else .inr (db, .ok matched)

/-- `queue_page`; none when the fuel does not reach the end of its loop. -/
def queuePage (db : LibraryDb) (offset limit : Int) (text : String) (fuel : Nat) :
    Option (LibraryDb × Except LibraryError (List AudioTrack)) :=
  let needle := toLowercase (Text.trim text)
  if needle = "" then some (queuePageUnfiltered lib db offset limit)
  else (Loops.run (matchChunk lib toLowercase needle (max offset 0 + max limit 0).toNat) fuel
    (db, 0, [])).map fun out =>
      (out.1, out.2.map fun matched => (matched.drop offset.toNat).take limit.toNat)

end

end PlainRs.Library
