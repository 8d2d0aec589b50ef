import PlainRs.Base.Recent
import PlainRs.Base.Runs
import PlainRs.Library.Paging
import PlainRs.Utils.DbTimeMillis

/-! The play history, under every run of plays and removals. -/
namespace PlainRs.Library

open Keyed Recent Runs PlainRs.Utils

def historyMatchesText (toLowercase : String → String) (needle : String) (h : PlayHistory) : Bool :=
  needle = "" || contains (toLowercase h.title) needle ||
    contains (toLowercase h.artist) needle || contains (toLowercase h.path) needle

def historyPage (toLowercase : String → String) (db : LibraryDb) (offset limit : Int)
    (text : String) : List PlayHistory :=
  let needle := toLowercase (Text.trim text)
  ((db.allHistory.filter (historyMatchesText toLowercase needle)).drop offset.toNat).take
    limit.toNat

/-- The calls that record a play. -/
inductive PlayCall
  | onPlaying (path title artist : String) (durationSecs : Int)
  | setPlaylistSource (playlistId : String) (startPath : Option String)
  | setLibrarySource (lib : LibraryTracks) (startPath : Option String) (shuffle : Option Nat)
  | resolveNext (lib : LibraryTracks) (isNext : Bool) (shuffle : Option Nat) (fuel : Nat)

/-- The database after a call, and the path of the play it records; none for a skip that is not
done with its fuel. -/
def PlayCall.perform (db : LibraryDb) (now : String) :
    PlayCall → Option (LibraryDb × Option String)
  | onPlaying path title artist durationSecs =>
    some (Library.onPlaying db now path title artist durationSecs,
      if path = "" then none else some path)
  | setPlaylistSource playlistId startPath =>
    let (db, track) := Library.setPlaylistSource db now playlistId startPath
    some (db, track.map AudioTrack.path)
  | setLibrarySource lib startPath shuffle =>
    let (db, track) := Library.setLibrarySource db now lib startPath shuffle
    some (db, track.toOption.join.map AudioTrack.path)
  | resolveNext lib isNext shuffle fuel =>
    (Library.resolveNext lib db isNext shuffle now fuel).map fun (db, track) =>
      (db, track.toOption.join.map AudioTrack.path)

inductive HistoryAction
  | play (clock : ℕ) (call : PlayCall)
  | removePaths (paths : List String)

/-- A play that was recorded, and whether it inserted the row of its path. -/
structure Play where
  clock : ℕ
  path : String
  inserted : Bool

/-- A device that plays, with its recorded plays, the latest one first. -/
structure Player where
  db : LibraryDb
  plays : List Play

/-- The clock has moved on since the last recorded play. -/
def historyNext (s : Player) : HistoryAction → Option Player
  | .play clock call =>
    if ∀ e ∈ s.plays.head?, e.clock < clock then
      (call.perform s.db (nowIsoMillis clock)).map fun
        | (db, none) => ⟨db, s.plays⟩
        | (db, some path) => ⟨db, ⟨clock, path, (s.db.historyByPath path).isNone⟩ :: s.plays⟩
    else none
  | .removePaths paths => some ⟨removePaths s.db paths, s.plays⟩

/-- It begins without a history. -/
def historySystem : System Player HistoryAction where
  init s := s.db.history.rows = [] ∧ s.plays = []
  next := historyNext

def lastPlay (plays : List Play) (path : String) : Option Play :=
  plays.find? fun e => e.path = path

/-- The plays of a path since its row was last inserted. -/
def playsSinceInsert : List Play → String → ℕ
  | [], _ => 0
  | e :: plays, path =>
    if e.path = path then if e.inserted then 1 else playsSinceInsert plays path + 1
    else playsSinceInsert plays path

/-- The last play of `h` is later than that of `k`. -/
def LaterPlayed (plays : List Play) (h k : PlayHistory) : Prop :=
  ∃ e ∈ lastPlay plays h.path, ∃ f ∈ lastPlay plays k.path, f.clock < e.clock

/-- What the full page without a text lists. -/
structure HistoryExact (plays : List Play) (rows page : List PlayHistory) : Prop where
  all : page.Perm rows
  distinct : (page.map PlayHistory.path).Nodup
  newestFirst : page.Pairwise (LaterPlayed plays)
  counts : ∀ h ∈ page, h.playCount = playsSinceInsert plays h.path
  bound : page.length ≤ 250

/-- The reading of a play is written as a later text than that of the play before. -/
def WrittenLater (s : Player) : HistoryAction → Prop
  | .play clock _ => ∀ e ∈ s.plays.head?, nowIsoMillis e.clock < nowIsoMillis clock
  | .removePaths _ => True

/-- A recorded play comes to the front of the paths, and a history that has grown over 250 keeps
the first 200. -/
def KeepsRecent (s t : Player) : Prop :=
  ∀ e, t.plays = e :: s.plays →
    t.db.allHistory.map PlayHistory.path =
      push 200 250 id e.path (s.db.allHistory.map PlayHistory.path)

variable {db db' : LibraryDb} {now path title artist : String} {durationSecs : Int}
  {toLowercase : String → String} {s t : Player} {call : PlayCall}

section Calls

/-- A call records a play as `record_history` does, or leaves the history alone. -/
def Records (db db' : LibraryDb) (now : String) : Option String → Prop
  | none => db'.history = db.history
  | some path => ∃ (at_ : LibraryDb) (title artist : String) (durationSecs : Int),
    at_.history = db.history ∧ db' = recordHistory at_ now path title artist durationSecs

theorem history_saveSource {src : QueueSource} : (db.saveSource src).history = db.history := rfl

theorem history_ite_saveSource {p : Prop} [Decidable p] {src : QueueSource} :
    (if p then db.saveSource src else db).history = db.history := by
  split <;> rfl

theorem history_replaceQueueItems {items : List QueueItem} :
    (db.replaceQueueItems items).history = db.history := by
  simp only [LibraryDb.replaceQueueItems]
  split <;> rfl

theorem records_onPlaying : Records db (onPlaying db now path title artist durationSecs) now
    (if path = "" then none else some path) := by
  unfold onPlaying
  split
  · exact rfl
  · refine ⟨_, title, artist, durationSecs, ?_, rfl⟩
    exact history_ite_saveSource

theorem records_setPlaylistSource {playlistId : String} {startPath : Option String} :
    Records db (setPlaylistSource db now playlistId startPath).1 now
      ((setPlaylistSource db now playlistId startPath).2.map AudioTrack.path) := by
  unfold setPlaylistSource
  simp only
  split
  · exact history_replaceQueueItems
  · refine ⟨_, _, _, _, ?_, rfl⟩
    exact history_replaceQueueItems

theorem records_setLibrarySource {lib : LibraryTracks} {startPath : Option String}
    {shuffle : Option Nat} :
    Records db (setLibrarySource db now lib startPath shuffle).1 now
      ((setLibrarySource db now lib startPath shuffle).2.toOption.join.map AudioTrack.path) := by
  unfold setLibrarySource
  simp only
  split
  · exact history_replaceQueueItems
  · split
    · exact history_replaceQueueItems
    · split
      · exact history_replaceQueueItems
      · exact history_replaceQueueItems
      · refine ⟨_, _, _, _, ?_, rfl⟩
        exact history_replaceQueueItems

theorem except_bind_eq_ok {ε α β : Type} {x : Except ε α} {f : α → Except ε β} {b : β} :
    x >>= f = .ok b ↔ ∃ a, x = .ok a ∧ f a = .ok b := by
  cases x with
  | error e => exact ⟨nofun, nofun⟩
  | ok a => simp [bind, Except.bind]

theorem history_currentPosInSource {lib : LibraryTracks} {src src' : QueueSource} {size : Nat}
    {pos : Int} (h : currentPosInSource lib db src size = .ok (db', src', pos)) :
    db'.history = db.history := by
  -- What follows the check of the cached position.
  have hlocate : ∀ hit : Bool, (if hit then pure (db, src, src.currentIndex)
      else do
        let found ← lib.libraryLocate src.currentPath src.sortBy
        if 0 ≤ found then
          pure (db.saveSource { src with currentIndex := found },
            { src with currentIndex := found }, found)
        else pure (db, src, found)) = Except.ok (db', src', pos) → db'.history = db.history := by
    intro hit h
    split at h
    · obtain ⟨rfl, -⟩ := Prod.mk.inj (Except.ok.inj h)
      rfl
    · obtain ⟨found, -, h⟩ := except_bind_eq_ok.mp h
      split at h
      · obtain ⟨rfl, -⟩ := Prod.mk.inj (Except.ok.inj h)
        rfl
      · obtain ⟨rfl, -⟩ := Prod.mk.inj (Except.ok.inj h)
        rfl
  unfold currentPosInSource at h
  split at h
  · obtain ⟨rfl, -⟩ := Prod.mk.inj (Except.ok.inj h)
    rfl
  · split at h
    · obtain ⟨rfl, -⟩ := Prod.mk.inj (Except.ok.inj h)
      rfl
    · simp only at h
      split at h
      · obtain ⟨p, -, h⟩ := except_bind_eq_ok.mp h
        exact hlocate _ h
      · exact hlocate false h
    · obtain ⟨rfl, -⟩ := Prod.mk.inj (Except.ok.inj h)
      rfl

theorem history_playbackOrder {lib : LibraryTracks} {order : Order}
    (h : playbackOrder lib db = .ok (db', order)) : db'.history = db.history := by
  obtain ⟨size, -, h⟩ := except_bind_eq_ok.mp h
  obtain ⟨⟨at_, src, pos⟩, hpos, h⟩ := except_bind_eq_ok.mp h
  obtain ⟨rfl, -⟩ := Prod.mk.inj (Except.ok.inj h)
  exact history_currentPosInSource hpos

theorem history_saveCurrent {lib : LibraryTracks} {order : Order} {queued : List QueueItem}
    {rank : Int} (h : saveCurrent lib db order queued rank = .ok db') :
    db'.history = db.history := by
  obtain ⟨track, -, h⟩ := except_bind_eq_ok.mp h
  cases track with
  | none =>
    obtain rfl := Except.ok.inj h
    rfl
  | some a =>
    obtain rfl := Except.ok.inj h
    rfl

theorem records_afterSkip {lib : LibraryTracks} {order : Order} {queued : List QueueItem}
    {superseded : Finset String} {out : Except LibraryError (Int × Option AudioTrack)} :
    Records db (afterSkip lib db order queued superseded now out).1 now
      ((afterSkip lib db order queued superseded now out).2.toOption.join.map AudioTrack.path) := by
  unfold afterSkip
  split
  · exact rfl
  · exact rfl
  · split
    · exact rfl
    · split
      · exact rfl
      · rename_i at_ hsave
        exact ⟨at_, _, _, _, history_saveCurrent hsave, rfl⟩

theorem Records.of_history {at_ : LibraryDb} {played : Option String}
    (h : Records at_ db' now played) (hat : at_.history = db.history) :
    Records db db' now played := by
  cases played with
  | none => exact Eq.trans h hat
  | some path =>
    obtain ⟨mid, title, artist, durationSecs, hmid, rfl⟩ := h
    exact ⟨mid, title, artist, durationSecs, hmid.trans hat, rfl⟩

theorem records_resolveNext {lib : LibraryTracks} {isNext : Bool} {shuffle : Option Nat}
    {fuel : Nat} {track : Except LibraryError (Option AudioTrack)}
    (h : resolveNext lib db isNext shuffle now fuel = some (db', track)) :
    Records db db' now (track.toOption.join.map AudioTrack.path) := by
  unfold resolveNext at h
  split at h
  · obtain ⟨rfl, rfl⟩ := Prod.mk.inj (Option.some.inj h)
    exact rfl
  · rename_i at_ order horder
    have hhist := history_playbackOrder horder
    split at h
    · obtain ⟨rfl, rfl⟩ := Prod.mk.inj (Option.some.inj h)
      exact hhist
    · simp only at h
      split at h
      · obtain ⟨rfl, rfl⟩ := Prod.mk.inj (Option.some.inj h)
        exact hhist
      · split at h
        · obtain ⟨rfl, rfl⟩ := Prod.mk.inj (Option.some.inj h)
          exact hhist
        · split at h
          · obtain ⟨rfl, rfl⟩ := Prod.mk.inj (Option.some.inj h)
            exact hhist
          · obtain ⟨out, -, hout⟩ := Option.map_eq_some_iff.mp h
            refine Records.of_history ?_ hhist
            rw [← (Prod.mk.inj hout).1, ← (Prod.mk.inj hout).2]
            exact records_afterSkip

theorem records_perform {played : Option String}
    (h : call.perform db now = some (db', played)) : Records db db' now played := by
  cases call with
  | onPlaying path title artist durationSecs =>
    obtain ⟨rfl, rfl⟩ := Prod.mk.inj (Option.some.inj h)
    exact records_onPlaying
  | setPlaylistSource playlistId startPath =>
    obtain ⟨rfl, rfl⟩ := Prod.mk.inj (Option.some.inj h)
    exact records_setPlaylistSource
  | setLibrarySource lib startPath shuffle =>
    obtain ⟨rfl, rfl⟩ := Prod.mk.inj (Option.some.inj h)
    exact records_setLibrarySource
  | resolveNext lib isNext shuffle fuel =>
    obtain ⟨⟨at_, track⟩, hresolve, hout⟩ := Option.map_eq_some_iff.mp h
    obtain ⟨rfl, rfl⟩ := Prod.mk.inj hout
    exact records_resolveNext hresolve

end Calls

section Rows

variable {rows : List PlayHistory} {plays : List Play} {h k : PlayHistory} {e : Play}

/-- What `record_history` writes. -/
def playedRow (db : LibraryDb) (now path title artist : String) (durationSecs : Int) :
    PlayHistory where
  path := path
  title := title
  artist := artist
  durationSecs := durationSecs
  playCount := (db.historyByPath path).elim 1 (·.playCount + 1)
  playedAt := now

theorem allHistory_perm : db.allHistory.Perm db.history.rows :=
  (List.perm_insertionSort ..).trans (List.reverse_perm _)

theorem historyByPath_path (h : db.historyByPath path = some k) : k.path = path :=
  Table.key_of_find? h

theorem recordHistory_eq : recordHistory db now path title artist durationSecs =
    let at_ := db.upsertHistory (playedRow db now path title artist durationSecs)
    if at_.allHistory.length > historyKeep * 5 / 4 then at_.trimHistory historyKeep else at_ := by
  cases hfind : db.historyByPath path with
  | none => simp only [recordHistory, hfind, playedRow, Option.elim]
  | some k =>
    obtain rfl := historyByPath_path hfind
    simp only [recordHistory, hfind, playedRow, Option.elim]

theorem desc_allHistory (hnodup : (db.history.rows.map PlayHistory.playedAt).Nodup) :
    db.allHistory.Pairwise fun a b => b.playedAt < a.playedAt := by
  refine pairwise_insertionSort_of_nodup ?_
  rwa [List.map_reverse, List.nodup_reverse]

/-- A row of a later text than those of the others stands in front of them. -/
theorem desc_cons (hnodup : (db.history.rows.map PlayHistory.playedAt).Nodup)
    (hlater : ∀ k ∈ db.history.rows, k.playedAt < h.playedAt) :
    (h :: db.allHistory.filter fun k => k.path ≠ h.path).Pairwise
      fun a b => b.playedAt < a.playedAt := by
  refine List.pairwise_cons.mpr ⟨fun k hk => ?_, (desc_allHistory hnodup).filter _⟩
  exact hlater k (allHistory_perm.mem_iff.mp (List.mem_filter.mp hk).1)

theorem upsertHistory_perm : (db.upsertHistory h).history.rows.Perm
    (h :: db.allHistory.filter fun k => k.path ≠ h.path) := by
  refine (upsert_perm _ fun old hold => ?_).trans ?_
  · rw [hold]
  · exact (allHistory_perm.symm.filter _).cons _

theorem allHistory_upsert (hnodup : (db.history.rows.map PlayHistory.playedAt).Nodup)
    (hlater : ∀ k ∈ db.history.rows, k.playedAt < h.playedAt) :
    (db.upsertHistory h).allHistory = h :: db.allHistory.filter fun k => k.path ≠ h.path :=
  insertionSort_eq_of_perm ((List.reverse_perm _).trans upsertHistory_perm)
    (desc_cons hnodup hlater)

theorem allHistory_trim {keep : ℕ} (hnodup : (db.history.rows.map PlayHistory.playedAt).Nodup) :
    (db.trimHistory keep).allHistory = db.allHistory.take keep := by
  have hpaths : (db.allHistory.map PlayHistory.path).Nodup :=
    (allHistory_perm.map _).nodup_iff.mpr db.history.nodup
  refine insertionSort_eq_of_perm ?_
    ((desc_allHistory hnodup).sublist (List.take_sublist ..))
  refine (List.reverse_perm _).trans ?_
  rw [← filter_mem_take hpaths]
  exact allHistory_perm.symm.filter _

/-- A play comes to the front of the history, which is cut when it has grown too long. -/
theorem allHistory_record (hnodup : (db.history.rows.map PlayHistory.playedAt).Nodup)
    (hlater : ∀ k ∈ db.history.rows, k.playedAt < now) :
    (recordHistory db now path title artist durationSecs).allHistory =
      push 200 250 PlayHistory.path (playedRow db now path title artist durationSecs)
        db.allHistory := by
  have hupsert := allHistory_upsert (h := playedRow db now path title artist durationSecs) hnodup
    hlater
  have hdesc := desc_cons (h := playedRow db now path title artist durationSecs) hnodup hlater
  have hnodup' := (upsertHistory_perm.map PlayHistory.playedAt).nodup_iff.mpr (nodup_of_desc hdesc)
  rw [recordHistory_eq]
  simp only
  rw [push, ← hupsert]
  split
  · next hlen => exact (allHistory_trim hnodup').trans (if_pos hlen).symm
  · next hlen => exact (if_neg hlen).symm

theorem historyRows_removePaths {paths : List String} :
    (removePaths db paths).history.rows.Sublist db.history.rows := by
  have hdelete : (db.history.deleteIn PlayHistory.path paths).rows.Sublist db.history.rows := by
    rw [Table.rows_deleteIn]
    exact List.filter_sublist
  unfold removePaths
  split
  · exact List.Sublist.refl _
  · simp only
    split
    · exact hdelete
    · exact hdelete

end Rows

section Plays

variable {plays : List Play} {e f : Play} {p : String} {h : PlayHistory}

/-- Later plays have later readings, and those later texts. -/
def InOrder (plays : List Play) : Prop :=
  plays.Pairwise fun e f => f.clock < e.clock ∧ nowIsoMillis f.clock < nowIsoMillis e.clock

/-- What every run keeps whose readings are written as later and later texts. -/
structure HistoryInv (s : Player) : Prop where
  order : InOrder s.plays
  rows : ∀ h ∈ s.db.history.rows, ∃ e ∈ lastPlay s.plays h.path,
    h.playedAt = nowIsoMillis e.clock ∧ h.playCount = playsSinceInsert s.plays h.path
  bound : s.db.history.rows.length ≤ 250

theorem mem_of_lastPlay (h : e ∈ lastPlay plays p) : e ∈ plays ∧ e.path = p := by
  have hfind : plays.find? (fun e => e.path = p) = some e := h
  exact ⟨List.mem_of_find?_eq_some hfind, by simpa using List.find?_some hfind⟩

theorem lastPlay_cons_self : lastPlay (e :: plays) e.path = some e :=
  List.find?_cons_of_pos (by simp)

theorem lastPlay_cons_of_ne (h : p ≠ e.path) : lastPlay (e :: plays) p = lastPlay plays p :=
  List.find?_cons_of_neg (by simpa using h.symm)

theorem playsSinceInsert_cons_of_ne (h : p ≠ e.path) :
    playsSinceInsert (e :: plays) p = playsSinceInsert plays p := by
  rw [playsSinceInsert, if_neg h.symm]

/-- Of two plays, one is later in both. -/
theorem InOrder.cases (h : InOrder plays) (he : e ∈ plays) (hf : f ∈ plays) : e = f ∨
    (f.clock < e.clock ∧ nowIsoMillis f.clock < nowIsoMillis e.clock) ∨
      (e.clock < f.clock ∧ nowIsoMillis e.clock < nowIsoMillis f.clock) := by
  induction h with
  | nil => cases he
  | cons hhead _ ih =>
    rcases List.mem_cons.mp he with rfl | he'
    · rcases List.mem_cons.mp hf with rfl | hf'
      · exact .inl rfl
      · exact .inr (.inl (hhead _ hf'))
    · rcases List.mem_cons.mp hf with rfl | hf'
      · exact .inr (.inr (hhead _ he'))
      · exact ih he' hf'

theorem InOrder.cons (h : InOrder plays) (hclock : ∀ f ∈ plays.head?, f.clock < e.clock)
    (htext : ∀ f ∈ plays.head?, nowIsoMillis f.clock < nowIsoMillis e.clock) :
    InOrder (e :: plays) := by
  refine List.pairwise_cons.mpr ⟨fun g hg => ?_, h⟩
  cases h with
  | nil => cases hg
  | @cons f plays hhead _ =>
    have hf := And.intro (hclock f rfl) (htext f rfl)
    rcases List.mem_cons.mp hg with rfl | hg
    · exact hf
    · have hgf := hhead g hg
      exact ⟨hgf.1.trans hf.1, hgf.2.trans hf.2⟩

theorem HistoryInv.nodup (h : HistoryInv s) :
    (s.db.history.rows.map PlayHistory.playedAt).Nodup := by
  refine List.pairwise_map.mpr ((List.pairwise_map.mp s.db.history.nodup).imp_of_mem ?_)
  intro a b ha hb hab heq
  obtain ⟨e, he, hea, -⟩ := h.rows a ha
  obtain ⟨f, hf, hfb, -⟩ := h.rows b hb
  obtain ⟨he, hep⟩ := mem_of_lastPlay he
  obtain ⟨hf, hfp⟩ := mem_of_lastPlay hf
  have htext : nowIsoMillis e.clock = nowIsoMillis f.clock := hea.symm.trans (heq.trans hfb)
  rcases h.order.cases he hf with rfl | ⟨-, hlt⟩ | ⟨-, hlt⟩
  · exact hab (hep.symm.trans hfp)
  · exact hlt.ne' htext
  · exact hlt.ne htext

theorem HistoryInv.exact (h : HistoryInv s) :
    HistoryExact s.plays s.db.history.rows s.db.allHistory where
  all := allHistory_perm
  distinct := (allHistory_perm.map _).nodup_iff.mpr s.db.history.nodup
  newestFirst := by
    refine (desc_allHistory h.nodup).imp_of_mem ?_
    intro a b ha hb hlt
    obtain ⟨e, he, hea, -⟩ := h.rows a (allHistory_perm.mem_iff.mp ha)
    obtain ⟨f, hf, hfb, -⟩ := h.rows b (allHistory_perm.mem_iff.mp hb)
    refine ⟨e, he, f, hf, ?_⟩
    rw [hea, hfb] at hlt
    rcases h.order.cases (mem_of_lastPlay he).1 (mem_of_lastPlay hf).1 with rfl | ⟨hc, -⟩ | ⟨-, hc⟩
    · exact absurd hlt (lt_irrefl _)
    · exact hc
    · exact absurd hlt hc.asymm
  counts := by
    intro a ha
    obtain ⟨e, -, -, hcount⟩ := h.rows a (allHistory_perm.mem_iff.mp ha)
    exact hcount
  bound := by
    rw [allHistory_perm.length_eq]
    exact h.bound

end Plays

section Steps

variable {clock : ℕ}

/-- What a step of a play comes to. -/
theorem next_play (h : historyNext s (.play clock call) = some t) :
    (∀ e ∈ s.plays.head?, e.clock < clock) ∧
      ((t.plays = s.plays ∧ t.db.history = s.db.history) ∨
        ∃ (at_ : LibraryDb) (path title artist : String) (durationSecs : Int),
          at_.history = s.db.history ∧
          t.db = recordHistory at_ (nowIsoMillis clock) path title artist durationSecs ∧
          t.plays = ⟨clock, path, (s.db.historyByPath path).isNone⟩ :: s.plays) := by
  simp only [historyNext] at h
  split at h
  · rename_i hclock
    refine ⟨hclock, ?_⟩
    obtain ⟨⟨db', played⟩, hcall, hout⟩ := Option.map_eq_some_iff.mp h
    have hrecords := records_perform hcall
    cases played with
    | none =>
      obtain rfl : Player.mk db' s.plays = t := hout
      exact .inl ⟨rfl, hrecords⟩
    | some path =>
      obtain rfl : Player.mk db' (⟨clock, path, (s.db.historyByPath path).isNone⟩ :: s.plays) = t :=
        hout
      obtain ⟨at_, title, artist, durationSecs, hat, hdb⟩ := hrecords
      exact .inr ⟨at_, path, title, artist, durationSecs, hat, hdb, rfl⟩
  · cases h

/-- After a recorded play the history is the one before with the played row in front. -/
theorem HistoryInv.record {at_ : LibraryDb} (hi : HistoryInv s)
    (htext : ∀ e ∈ s.plays.head?, nowIsoMillis e.clock < nowIsoMillis clock)
    (hclock : ∀ e ∈ s.plays.head?, e.clock < clock) (hat : at_.history = s.db.history) :
    (recordHistory at_ (nowIsoMillis clock) path title artist durationSecs).allHistory =
      push 200 250 PlayHistory.path
        (playedRow s.db (nowIsoMillis clock) path title artist durationSecs) s.db.allHistory := by
  have horder := hi.order.cons (e := ⟨clock, path, true⟩) hclock htext
  have hall : at_.allHistory = s.db.allHistory := by
    rw [LibraryDb.allHistory, hat, LibraryDb.allHistory]
  have hrow : playedRow at_ (nowIsoMillis clock) path title artist durationSecs =
      playedRow s.db (nowIsoMillis clock) path title artist durationSecs := by
    rw [playedRow, playedRow, LibraryDb.historyByPath, LibraryDb.historyByPath, hat]
  rw [allHistory_record, hall, hrow]
  · rw [hat]
    exact hi.nodup
  · intro k hk
    rw [hat] at hk
    obtain ⟨e, he, hke, -⟩ := hi.rows k hk
    rw [hke]
    exact (List.rel_of_pairwise_cons horder (mem_of_lastPlay he).1).2

/-- The played row has the play that was just recorded, and one play more than the row before. -/
theorem playedRow_counts (hi : HistoryInv s) :
    (playedRow s.db now path title artist durationSecs).playCount = playsSinceInsert
      (⟨clock, path, (s.db.historyByPath path).isNone⟩ :: s.plays) path := by
  rw [playsSinceInsert, if_pos rfl]
  cases hfind : s.db.historyByPath path with
  | none => simp [playedRow, hfind]
  | some k =>
    obtain ⟨-, -, -, hcount⟩ := hi.rows k (Table.find?_eq_some.mp hfind).1
    rw [historyByPath_path hfind] at hcount
    simp [playedRow, hfind, hcount]

theorem HistoryInv.next {a : HistoryAction} (hi : HistoryInv s) (hw : WrittenLater s a)
    (h : historySystem.next s a = some t) : HistoryInv t := by
  cases a with
  | play clock call =>
    obtain ⟨hclock, ⟨hplays, hdb⟩ | ⟨at_, path, title, artist, durationSecs, hat, hdb, hplays⟩⟩ :=
      next_play h
    · constructor
      · rw [hplays]
        exact hi.order
      · rw [hplays, hdb]
        exact hi.rows
      · rw [hdb]
        exact hi.bound
    · have hall : t.db.allHistory = push 200 250 PlayHistory.path
          (playedRow s.db (nowIsoMillis clock) path title artist durationSecs) s.db.allHistory := by
        rw [hdb]
        exact hi.record hw hclock hat
      constructor
      · rw [hplays]
        exact hi.order.cons hclock hw
      · intro k hk
        have hk := (push_sublist.mem (hall ▸ allHistory_perm.mem_iff.mpr hk))
        rw [hplays]
        rcases List.mem_cons.mp hk with rfl | hk
        · exact ⟨_, lastPlay_cons_self, rfl, playedRow_counts hi⟩
        · obtain ⟨hk, hne⟩ := List.mem_filter.mp hk
          have hne : k.path ≠ path := of_decide_eq_true hne
          obtain ⟨e, he, htext, hcount⟩ := hi.rows k (allHistory_perm.mem_iff.mp hk)
          refine ⟨e, ?_, htext, ?_⟩
          · rwa [lastPlay_cons_of_ne hne]
          · rwa [playsSinceInsert_cons_of_ne hne]
      · rw [← allHistory_perm.length_eq, hall]
        exact length_push_le (by omega)
  | removePaths paths =>
    obtain rfl := Option.some.inj h
    constructor
    · exact hi.order
    · intro k hk
      exact hi.rows k (historyRows_removePaths.mem hk)
    · exact historyRows_removePaths.length_le.trans hi.bound

theorem historyInv_initial (h : historySystem.init s) : HistoryInv s where
  order := by
    rw [InOrder, h.2]
    exact .nil
  rows := by
    intro k hk
    rw [h.1] at hk
    cases hk
  bound := by
    rw [h.1]
    exact Nat.zero_le _

theorem HistoryInv.keepsRecent {a : HistoryAction} (hi : HistoryInv s) (hw : WrittenLater s a)
    (h : historySystem.next s a = some t) : KeepsRecent s t := by
  intro e he
  cases a with
  | play clock call =>
    obtain ⟨hclock, ⟨hplays, -⟩ | ⟨at_, path, title, artist, durationSecs, hat, hdb, hplays⟩⟩ :=
      next_play h
    · exact absurd (hplays.symm.trans he) (by simp)
    · obtain ⟨rfl, -⟩ := List.cons.inj (hplays.symm.trans he)
      rw [hdb, hi.record hw hclock hat, map_push]
      rfl
  | removePaths paths =>
    obtain rfl := Option.some.inj h
    exact absurd he (by simp)

theorem historyPage_full {limit : Int} (hl : toLowercase "" = "")
    (h : (db.history.rows.length : Int) ≤ limit) :
    historyPage toLowercase db 0 limit "" = db.allHistory := by
  have htrim : Text.trim "" = "" := by decide
  have hall : ∀ k ∈ db.allHistory, historyMatchesText toLowercase "" k = true := by
    intro k _
    simp [historyMatchesText]
  simp only [historyPage, htrim, hl, List.filter_eq_self.mpr hall]
  refine List.take_of_length_le ?_
  rw [← allHistory_perm.length_eq] at h
  simp only [Int.toNat_zero, List.drop_zero]
  omega

end Steps

theorem next_onPlaying (s : Player) (clock : ℕ) (path title artist : String) (durationSecs : Int)
    (hpath : path ≠ "") (hclock : ∀ e ∈ s.plays.head?, e.clock < clock) :
    historySystem.next s (.play clock (.onPlaying path title artist durationSecs)) =
      some ⟨onPlaying s.db (nowIsoMillis clock) path title artist durationSecs,
        ⟨clock, path, (s.db.historyByPath path).isNone⟩ :: s.plays⟩ := by
  refine (if_pos hclock).trans ?_
  simp only [PlayCall.perform, if_neg hpath, Option.map_some]

/-- One track, played in the first seconds of a clock. -/
def onePlay : Player :=
  ⟨onPlaying .empty (nowIsoMillis 5000) "/a.mp3" "A" "X" 1, [⟨5000, "/a.mp3", true⟩]⟩

/-- A second track, played in the first millisecond of the year 10000 after one in the last of the
year 9999. -/
def twoPlays : Player :=
  ⟨onPlaying (onPlaying .empty (nowIsoMillis 253402300799999) "/a.mp3" "A" "X" 1)
      (nowIsoMillis 253402300800000) "/b.mp3" "B" "X" 1,
    [⟨253402300800000, "/b.mp3", true⟩, ⟨253402300799999, "/a.mp3", true⟩]⟩

end PlainRs.Library
