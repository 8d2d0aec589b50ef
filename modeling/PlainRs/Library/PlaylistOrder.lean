import PlainRs.Base.Along
import PlainRs.Base.Numbered
import PlainRs.Library.AudioQueue

/-! The order of the items of each playlist, under every run of the playlist operations. -/
namespace PlainRs.Library

open Keyed Lists Runs

/-- The playlist operations; the random ids they draw come with them. -/
inductive PlaylistAction
  | createPlaylist (id name now : String)
  | addPlaylistItems (playlistId : String) (items : List (String × AudioTrack)) (now : String)
  | removePlaylistItem (playlistId path now : String)
  | removePaths (paths : List String)
  | deletePlaylist (id : String)

/-- The ids drawn for new items are new. -/
def NewIds (db : LibraryDb) (items : List (String × AudioTrack)) : Prop :=
  (items.map Prod.fst).Nodup ∧
    ∀ id ∈ items.map Prod.fst, id ∉ db.playlistItemRows.rows.map PlaylistItem.id

instance {db : LibraryDb} {items : List (String × AudioTrack)} : Decidable (NewIds db items) :=
  inferInstanceAs (Decidable (_ ∧ _))

def playlistNext (db : LibraryDb) : PlaylistAction → Option LibraryDb
  | .createPlaylist id name now => some (createPlaylist db now id name)
  | .addPlaylistItems playlistId items now =>
    if NewIds db items then some (addPlaylistItems db now playlistId items) else none
  | .removePlaylistItem playlistId path now => some (removePlaylistItem db now playlistId path)
  | .removePaths paths => some (removePaths db paths)
  | .deletePlaylist id => some (deletePlaylist db id)

/-- It begins with no item in any playlist. -/
def playlistSystem : System LibraryDb PlaylistAction where
  init db := db.playlistItemRows.rows = []
  next := playlistNext

/-- Unique paths and dense sort orders in every playlist, so that the index of a playlist that is
set as the source is the place of its track. -/
structure PlaylistsInOrder (db : LibraryDb) : Prop where
  unique : ∀ playlistId, ((db.playlistItems playlistId).map PlaylistItem.audioPath).Nodup
  dense : ∀ playlistId, Numbered PlaylistItem.sortOrder (db.playlistItems playlistId)
  index : ∀ now playlistId startPath track,
    (setPlaylistSource db now playlistId startPath).2 = some track →
      (setPlaylistSource db now playlistId startPath).1.getSource.currentIndex =
        playlistPosition db playlistId track.path

/-- Whether an operation takes a playlist's item away. -/
def Removes : PlaylistAction → PlaylistItem → Prop
  | .createPlaylist .., _ => False
  | .addPlaylistItems .., _ => False
  | .removePlaylistItem playlistId path _, i => i.playlistId = playlistId ∧ i.audioPath = path
  | .removePaths paths, i => paths.length ≤ maxVariableNumber ∧ i.audioPath ∈ paths
  | .deletePlaylist id, i => i.playlistId = id

instance : ∀ a, DecidablePred (Removes a)
  | .createPlaylist .., _ => inferInstanceAs (Decidable False)
  | .addPlaylistItems .., _ => inferInstanceAs (Decidable False)
  | .removePlaylistItem .., _ => inferInstanceAs (Decidable (_ ∧ _))
  | .removePaths .., _ => inferInstanceAs (Decidable (_ ∧ _))
  | .deletePlaylist .., _ => inferInstanceAs (Decidable (_ = _))

/-- An item that goes takes every later item of its playlist along. -/
def RemovesFromEnd (db : LibraryDb) (a : PlaylistAction) : Prop :=
  ∀ playlistId, (db.playlistItems playlistId).Pairwise fun i j => Removes a i → Removes a j

namespace LibraryDb

/-- The items of a playlist in the order of their row ids. -/
def itemRows (db : LibraryDb) (playlistId : String) : List PlaylistItem :=
  db.playlistItemRows.rows.filter fun i => i.playlistId = playlistId

end LibraryDb

/-- What every operation keeps: paths are unique in each playlist, and later rows have later sort
orders. -/
structure ItemsSorted (db : LibraryDb) : Prop where
  sorted : ∀ playlistId, (db.itemRows playlistId).Pairwise fun i j => i.sortOrder < j.sortOrder
  unique : ∀ playlistId, ((db.itemRows playlistId).map PlaylistItem.audioPath).Nodup

variable {db s t : LibraryDb} {playlistId now : String} {a : PlaylistAction}
  {items : List (String × AudioTrack)} {listed : List PlaylistItem} {next : Int}

theorem ItemsSorted.playlistItems_eq (h : ItemsSorted db) (playlistId : String) :
    db.playlistItems playlistId = db.itemRows playlistId :=
  ((h.sorted playlistId).imp fun hij => hij.le).insertionSort_eq

theorem itemsSorted_initial (h : playlistSystem.init db) : ItemsSorted db := by
  have hnil : ∀ playlistId, db.itemRows playlistId = [] := by
    intro playlistId
    rw [LibraryDb.itemRows, show db.playlistItemRows.rows = [] from h, List.filter_nil]
  exact ⟨fun p => by simp [hnil p], fun p => by simp [hnil p]⟩

section Source

@[simp] theorem getSource_saveSource {src : QueueSource} : (db.saveSource src).getSource = src := rfl

@[simp] theorem getSource_recordPlay {track : AudioTrack} :
    (recordPlay db now track).getSource = db.getSource := by
  simp only [recordPlay, recordHistory]
  split <;> split <;> rfl

@[simp] theorem playlistItems_replaceQueueItems {queued : List QueueItem} :
    (db.replaceQueueItems queued).playlistItems playlistId = db.playlistItems playlistId := by
  simp only [LibraryDb.replaceQueueItems]
  split <;> rfl

/-- The track that a playlist starts with is one of its items, and the sort order of that item is
kept as its index. -/
theorem setPlaylistSource_some {startPath : Option String} {track : AudioTrack}
    (h : (setPlaylistSource db now playlistId startPath).2 = some track) :
    ∃ start ∈ db.playlistItems playlistId, track = .ofPlaylistItem start ∧
      (setPlaylistSource db now playlistId startPath).1.getSource.currentIndex =
        start.sortOrder := by
  simp only [setPlaylistSource, playlistItems_replaceQueueItems] at h ⊢
  cases hl : db.playlistItems playlistId with
  | nil => simp [hl] at h
  | cons first rest =>
    simp only [hl, Option.some.injEq] at h
    refine ⟨_, ?_, h.symm, by simp⟩
    cases startPath with
    | none => exact List.mem_cons_self
    | some p =>
      change ((first :: rest).find? fun i => i.audioPath = p).getD first ∈ first :: rest
      cases hf : (first :: rest).find? fun i => i.audioPath = p with
      | none => exact List.mem_cons_self
      | some i => exact List.mem_of_find?_eq_some hf

/-- In a list of unique paths and dense sort orders the sort order of an item is its place. -/
theorem sortOrder_eq_position {start : PlaylistItem}
    (hu : ((db.playlistItems playlistId).map PlaylistItem.audioPath).Nodup)
    (hd : Numbered PlaylistItem.sortOrder (db.playlistItems playlistId))
    (h : start ∈ db.playlistItems playlistId) :
    start.sortOrder = playlistPosition db playlistId start.audioPath := by
  obtain ⟨i, hi, rfl⟩ := List.mem_iff_getElem.mp h
  have hfind : (db.playlistItems playlistId).findIdx?
      (fun j => j.audioPath = (db.playlistItems playlistId)[i].audioPath) = some i := by
    rw [List.findIdx?_eq_some_iff_getElem]
    refine ⟨hi, by simp, fun j hj => ?_⟩
    have hne := List.pairwise_iff_getElem.mp hu j i (by simp; omega) (by simpa using hi) hj
    simpa using hne
  rw [hd i hi, playlistPosition, hfind]
  rfl

theorem ItemsSorted.inOrder_iff (h : ItemsSorted db) :
    PlaylistsInOrder db ↔ ∀ playlistId, Numbered PlaylistItem.sortOrder (db.itemRows playlistId) := by
  constructor
  · intro ho playlistId
    exact h.playlistItems_eq playlistId ▸ ho.dense playlistId
  · intro hn
    have hu : ∀ playlistId,
        ((db.playlistItems playlistId).map PlaylistItem.audioPath).Nodup := fun playlistId =>
      (h.playlistItems_eq playlistId).symm ▸ h.unique playlistId
    have hd : ∀ playlistId, Numbered PlaylistItem.sortOrder (db.playlistItems playlistId) :=
      fun playlistId => (h.playlistItems_eq playlistId).symm ▸ hn playlistId
    refine ⟨hu, hd, fun now playlistId startPath track ht => ?_⟩
    obtain ⟨start, hs, rfl, hi⟩ := setPlaylistSource_some ht
    exact hi.trans (sortOrder_eq_position (hu playlistId) (hd playlistId) hs)

end Source

section Add

@[simp] theorem itemRows_touchPlaylist {id : String} :
    (touchPlaylist db now id).itemRows playlistId = db.itemRows playlistId := by
  unfold touchPlaylist
  split <;> rfl

theorem rows_insertPlaylistItem {row : PlaylistItem}
    (h : row.id ∉ db.playlistItemRows.rows.map PlaylistItem.id) :
    (db.insertPlaylistItem row).playlistItemRows.rows = db.playlistItemRows.rows ++ [row] := by
  have hn : db.playlistItemRows.find? row.id = none := Table.find?_eq_none.mpr h
  simp [LibraryDb.insertPlaylistItem, Table.insert, hn]

theorem itemRows_insertPlaylistItem (row : PlaylistItem)
    (h : row.id ∉ db.playlistItemRows.rows.map PlaylistItem.id) (other : String) :
    (db.insertPlaylistItem row).itemRows other =
      if row.playlistId = other then db.itemRows other ++ [row] else db.itemRows other := by
  rw [LibraryDb.itemRows, rows_insertPlaylistItem h, List.filter_append]
  split
  · next ho => simp [LibraryDb.itemRows, ho]
  · next ho => simp [LibraryDb.itemRows, ho]

/-- Between two tracks of an addition: the list that is carried along is the playlist as it has
become, and the next sort order is past its end. -/
structure Adding (db : LibraryDb) (playlistId : String) (listed : List PlaylistItem) (next : Int) :
    Prop where
  sorted : ItemsSorted db
  whole : listed = db.itemRows playlistId
  past : ∀ i ∈ listed, i.sortOrder < next

/-- Every playlist is dense so far, and the next sort order continues the one added to. -/
structure Counted (db : LibraryDb) (listed : List PlaylistItem) (next : Int) : Prop where
  dense : ∀ playlistId, Numbered PlaylistItem.sortOrder (db.itemRows playlistId)
  next : next = listed.length

theorem adding_start (h : ItemsSorted db) :
    Adding db playlistId (db.playlistItems playlistId)
      (nextNumber PlaylistItem.sortOrder (db.playlistItems playlistId)) := by
  have heq := h.playlistItems_eq playlistId
  refine ⟨h, heq, fun i hi => ?_⟩
  exact lt_nextNumber (heq ▸ h.sorted playlistId) hi

theorem adding_step {id : String} {track : AudioTrack} (h : Adding db playlistId listed next)
    (hid : id ∉ db.playlistItemRows.rows.map PlaylistItem.id)
    (hnew : ∀ i ∈ listed, i.audioPath ≠ track.path) {row : PlaylistItem}
    (hrow : row = ⟨id, playlistId, track.path, track.title, track.artist, track.durationSecs, next,
      now⟩) :
    Adding (db.insertPlaylistItem row) playlistId (listed ++ [row]) (next + 1) ∧
      (Counted db listed next →
        Counted (db.insertPlaylistItem row) (listed ++ [row]) (next + 1)) := by
  subst hrow
  obtain ⟨hs, rfl, hpast⟩ := h
  have hrows := itemRows_insertPlaylistItem ⟨id, playlistId, track.path,
    track.title, track.artist, track.durationSecs, next, now⟩ hid
  refine ⟨⟨⟨fun other => ?_, fun other => ?_⟩, by simp [hrows], ?_⟩, ?_⟩
  · rw [hrows other]
    split
    · next ho =>
      obtain rfl : playlistId = other := ho
      rw [List.pairwise_append]
      exact ⟨hs.sorted _, by simp, by simpa using hpast⟩
    · exact hs.sorted other
  · rw [hrows other]
    split
    · next ho =>
      obtain rfl : playlistId = other := ho
      rw [List.map_append, List.nodup_append]
      refine ⟨hs.unique _, by simp, ?_⟩
      simpa using hnew
    · exact hs.unique other
  · intro i hi
    rcases List.mem_append.mp hi with hl | hr
    · have := hpast i hl
      omega
    · obtain rfl := List.mem_singleton.mp hr
      simp
  · rintro ⟨hd, hn⟩
    refine ⟨fun other => ?_, by simp [hn]⟩
    rw [hrows other]
    split
    · next ho =>
      obtain rfl : playlistId = other := ho
      exact numbered_concat.mpr ⟨hd _, hn⟩
    · exact hd other

theorem adding_fold (now : String) (h : Adding db playlistId listed next) (hids : NewIds db items) :
    ∃ out, items.foldl (addPlaylistItem now playlistId) (db, listed, next) = out ∧
      Adding out.1 playlistId out.2.1 out.2.2 ∧
      (Counted db listed next → Counted out.1 out.2.1 out.2.2) := by
  induction items generalizing db listed next with
  | nil => exact ⟨_, rfl, h, id⟩
  | cons item items ih =>
    obtain ⟨id, track⟩ := item
    obtain ⟨hnodup, hfresh⟩ := hids
    obtain ⟨hid, hrest⟩ := List.nodup_cons.mp hnodup
    by_cases hold : listed.any fun i => i.audioPath = track.path
    · have hskip : addPlaylistItem now playlistId (db, listed, next) (id, track) =
          (db, listed, next) := if_pos hold
      rw [List.foldl_cons, hskip]
      exact ih h ⟨hrest, fun id hi => hfresh id (List.mem_cons_of_mem _ hi)⟩
    · set row : PlaylistItem := ⟨id, playlistId, track.path, track.title, track.artist,
        track.durationSecs, next, now⟩ with hrow
      have hadd : addPlaylistItem now playlistId (db, listed, next) (id, track) =
          (db.insertPlaylistItem row, listed ++ [row], next + 1) := if_neg hold
      have hfirst := hfresh id (by simp)
      obtain ⟨hstep, hcount⟩ := adding_step h hfirst (by simpa using hold) hrow
      have hids : NewIds (db.insertPlaylistItem row) items := by
        refine ⟨hrest, fun other ho => ?_⟩
        rw [rows_insertPlaylistItem hfirst, List.map_append, List.mem_append]
        rintro (hm | hm)
        · exact hfresh other (List.mem_cons_of_mem _ ho) hm
        · obtain rfl : other = id := by simpa [hrow] using hm
          exact hid ho
      obtain ⟨out, hout, hadding, hc⟩ := ih hstep hids
      exact ⟨out, by rw [List.foldl_cons, hadd, hout], hadding, hc ∘ hcount⟩

/-- Adding keeps the sort orders rising, and dense where they all were. -/
theorem itemsSorted_addPlaylistItems (h : ItemsSorted db) (hids : NewIds db items) :
    ItemsSorted (addPlaylistItems db now playlistId items) ∧
      ((∀ other, Numbered PlaylistItem.sortOrder (db.itemRows other)) →
        ∀ other, Numbered PlaylistItem.sortOrder
          ((addPlaylistItems db now playlistId items).itemRows other)) := by
  obtain ⟨out, hout, hadding, hcount⟩ := adding_fold now (adding_start h) hids
  have hrows : ∀ other, (addPlaylistItems db now playlistId items).itemRows other =
      out.1.itemRows other := by
    intro other
    rw [addPlaylistItems, itemRows_touchPlaylist, ← hout]
    rfl
  refine ⟨⟨fun other => ?_, fun other => ?_⟩, fun hd other => ?_⟩
  · exact hrows other ▸ hadding.sorted.sorted other
  · exact hrows other ▸ hadding.sorted.unique other
  · have hlen := (h.playlistItems_eq playlistId ▸ hd playlistId).nextNumber_eq
    exact hrows other ▸ (hcount ⟨hd, hlen⟩).dense other

end Add

section Remove

theorem rows_removePaths (paths : List String) :
    (removePaths db paths).playlistItemRows.rows = db.playlistItemRows.rows.filter fun i =>
      ¬ (paths.length ≤ maxVariableNumber ∧ i.audioPath ∈ paths) := by
  simp only [removePaths]
  split
  · next h => simp [h]
  · split
    all_goals exact Table.rows_deleteIn

theorem rows_deletePlaylist (id : String) :
    (deletePlaylist db id).playlistItemRows.rows =
      db.playlistItemRows.rows.filter fun i => i.playlistId ≠ id := by
  simp only [deletePlaylist]
  split <;> rfl

/-- What any operation but an addition does to the items: it filters them. -/
theorem itemRows_next (ht : playlistNext s a = some t)
    (ha : ∀ playlistId items now, a ≠ .addPlaylistItems playlistId items now) (other : String) :
    t.itemRows other = (s.itemRows other).filter fun i => ¬ Removes a i := by
  have hcomm : ∀ p q : PlaylistItem → Bool, (s.playlistItemRows.rows.filter p).filter q =
      (s.playlistItemRows.rows.filter q).filter p := by
    intro p q
    simp only [List.filter_filter, Bool.and_comm]
  cases a with
  | createPlaylist id name now =>
    cases ht
    simp [Removes, createPlaylist, LibraryDb.insertPlaylist, LibraryDb.itemRows]
  | addPlaylistItems playlistId items now => exact absurd rfl (ha playlistId items now)
  | removePlaylistItem playlistId path now =>
    cases ht
    rw [removePlaylistItem, itemRows_touchPlaylist]
    exact hcomm _ _
  | removePaths paths =>
    cases ht
    rw [LibraryDb.itemRows, rows_removePaths]
    exact hcomm _ _
  | deletePlaylist id =>
    cases ht
    rw [LibraryDb.itemRows, rows_deletePlaylist]
    exact hcomm _ _

end Remove

/-- The paths stay unique and the sort orders rising, whatever is added and removed. -/
theorem itemsSorted_next (h : ItemsSorted s) (ht : playlistNext s a = some t) : ItemsSorted t := by
  by_cases ha : ∃ playlistId items now, a = .addPlaylistItems playlistId items now
  · obtain ⟨playlistId, items, now, rfl⟩ := ha
    simp only [playlistNext] at ht
    split at ht
    · next hids =>
      cases ht
      exact (itemsSorted_addPlaylistItems h hids).1
    · cases ht
  · push Not at ha
    refine ⟨fun other => ?_, fun other => ?_⟩
    · rw [itemRows_next ht ha]
      exact (h.sorted other).filter _
    · rw [itemRows_next ht ha]
      exact (List.filter_sublist.map _).nodup (h.unique other)

/-- From playlists in order, a step leaves them in order just when it removes from the end. -/
theorem inOrder_next_iff (h : ItemsSorted s) (hi : PlaylistsInOrder s)
    (ht : playlistNext s a = some t) : PlaylistsInOrder t ↔ RemovesFromEnd s a := by
  have hdense := h.inOrder_iff.mp hi
  rw [(itemsSorted_next h ht).inOrder_iff]
  by_cases ha : ∃ playlistId items now, a = .addPlaylistItems playlistId items now
  · obtain ⟨playlistId, items, now, rfl⟩ := ha
    simp only [playlistNext] at ht
    split at ht
    · next hids =>
      cases ht
      refine iff_of_true ((itemsSorted_addPlaylistItems h hids).2 hdense) fun other => ?_
      exact List.pairwise_of_forall fun _ _ hr => hr.elim
    · cases ht
  · push Not at ha
    apply forall_congr'
    intro other
    rw [itemRows_next ht ha, (hdense other).filter_iff, h.playlistItems_eq]
    simp

/-- Along a run of playlist operations the playlists stay in order exactly if every removal takes
items from the end of their playlists. -/
theorem playlists_in_order_iff (db : LibraryDb) (as : List PlaylistAction)
    (h : playlistSystem.init db) :
    playlistSystem.StatesAlong PlaylistsInOrder db as ↔
      playlistSystem.StepsAlong RemovesFromEnd db as := by
  have hs := itemsSorted_initial h
  have hi : PlaylistsInOrder db := by
    rw [hs.inOrder_iff]
    intro playlistId
    rw [LibraryDb.itemRows, show db.playlistItemRows.rows = [] from h, List.filter_nil]
    exact numbered_nil
  exact System.statesAlong_iff (fun _ _ _ => itemsSorted_next) (fun _ _ _ => inOrder_next_iff) hs hi

/-- The later one of two items comes off and its playlist stays in order. -/
theorem playlists_in_order_run :
    playlistSystem.StatesAlong PlaylistsInOrder LibraryDb.empty
      [.createPlaylist "p" "Mix" "1",
        .addPlaylistItems "p" [("i", ⟨"A", "", "/a.mp3", 1⟩), ("j", ⟨"B", "", "/b.mp3", 2⟩)] "2",
        .removePlaylistItem "p" "/b.mp3" "3"] := by
  refine (playlists_in_order_iff _ _ (by rfl)).mpr ?_
  rintro _ ⟨⟩
  refine ⟨fun _ => List.pairwise_of_forall fun _ _ h => h.elim, ?_⟩
  intro t ht
  refine ⟨fun _ => List.pairwise_of_forall fun _ _ h => h.elim, ?_⟩
  obtain rfl := Option.some.inj ht
  rintro _ ⟨⟩
  refine ⟨fun playlistId => ?_, trivial⟩
  by_cases hp : playlistId = "p"
  · subst hp
    decide +kernel
  · have hall : ∀ i ∈ (addPlaylistItems (createPlaylist LibraryDb.empty "1" "p" "Mix") "2" "p"
        [("i", ⟨"A", "", "/a.mp3", 1⟩), ("j", ⟨"B", "", "/b.mp3", 2⟩)]).playlistItemRows.rows,
        i.playlistId = "p" := by decide +kernel
    rw [LibraryDb.playlistItems, List.filter_eq_nil_iff.mpr fun i hi => by
      simpa [hall i hi] using Ne.symm hp]
    exact .nil

/-- Once the first of two items is removed, the other keeps its sort order. -/
theorem removal_leaves_gap :
    ¬ playlistSystem.StatesAlong PlaylistsInOrder LibraryDb.empty
      [.addPlaylistItems "p" [("i", ⟨"A", "", "/a.mp3", 1⟩), ("j", ⟨"B", "", "/b.mp3", 2⟩)] "1",
        .removePlaylistItem "p" "/a.mp3" "2"] := by
  intro h
  have hlast := (h.2 _ rfl).2 _ rfl
  exact absurd (hlast.head.dense "p") (by decide +kernel)

end PlainRs.Library
