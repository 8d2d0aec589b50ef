import PlainRs.Library.ManualQueue
import PlainRs.Library.Paging

/-! The playback order read off one list of the source's tracks. -/
namespace PlainRs.Library

/-- The place of a path among tracks, -1 when it has none. -/
def place (tracks : List AudioTrack) (path : String) : Int :=
  (tracks.findIdx? fun a => a.path = path).elim (-1) (↑)

/-- The library answers consistently: out of one list of tracks for each sorting. -/
structure LibraryTracks.Lists (lib : LibraryTracks) (listing : String → List AudioTrack) :
    Prop where
  count : ∀ sortBy, lib.libraryCount = .ok (listing sortBy).length
  pathAt : ∀ i sortBy, lib.libraryPathAt i sortBy = .ok ((listing sortBy)[i]?.map AudioTrack.path)
  page : ∀ offset limit sortBy,
    lib.libraryTracksPage offset limit sortBy = .ok (((listing sortBy).drop offset).take limit)
  locate : ∀ path sortBy, lib.libraryLocate path sortBy = .ok (place (listing sortBy) path)
  contains : ∀ path sortBy,
    lib.libraryContains path = .ok (decide (path ∈ (listing sortBy).map AudioTrack.path))

theorem lists_noLibrary : noLibrary.Lists fun _ => [] := by
  constructor
  · intro sortBy
    rfl
  · intro i sortBy
    rfl
  · intro offset limit sortBy
    simp [noLibrary]
  · intro path sortBy
    rfl
  · intro path sortBy
    rfl

section Order

variable (listing : String → List AudioTrack) (db : LibraryDb)

def sourceTracks : List AudioTrack :=
  match db.getSource.source with
  | .playlist => (db.playlistItems db.getSource.playlistId).map AudioTrack.ofPlaylistItem
  | .library => listing db.getSource.sortBy
  | .none => []

def queuedTracks : List AudioTrack := db.allQueueItems.map AudioTrack.ofQueueItem

/-- How many tracks of the source come before the manual queue: those up to the current one. -/
def headLength : Nat :=
  if db.getSource.currentPath = "" then 0
  else (place (sourceTracks listing db) db.getSource.currentPath + 1).toNat

/-- The head of the source, the manual queue and the rest of the source, without the source's copies
of queued tracks. -/
def playableOrder : List AudioTrack :=
  let notQueued (a : AudioTrack) : Bool := a.path ∉ (queuedTracks db).map AudioTrack.path
  ((sourceTracks listing db).take (headLength listing db)).filter notQueued ++ queuedTracks db ++
    ((sourceTracks listing db).drop (headLength listing db)).filter notQueued

end Order

/-- A track of the source, where no queued copy hides it. -/
def shown (queued : List AudioTrack) (a : AudioTrack) : Option AudioTrack :=
  if a.path ∈ queued.map AudioTrack.path then none else some a

/-- The ranks of an order, with nothing at those that the rendered queue leaves out. -/
def ranksAt (tracks queued : List AudioTrack) (head : Nat) : List (Option AudioTrack) :=
  (tracks.take head).map (shown queued) ++
    (queued.map some ++ (tracks.drop head).map (shown queued))

def ranks (listing : String → List AudioTrack) (db : LibraryDb) : List (Option AudioTrack) :=
  ranksAt (sourceTracks listing db) (queuedTracks db) (headLength listing db)

variable {lib : LibraryTracks} {listing : String → List AudioTrack} {db db' : LibraryDb}
  {order : Order} {tracks queued : List AudioTrack} {path : String} {head r n : Nat} {cp : Int}

section Ranks

theorem reduceOption_shown : (tracks.map (shown queued)).reduceOption =
    tracks.filter fun a => a.path ∉ queued.map AudioTrack.path := by
  induction tracks with
  | nil => rfl
  | cons a tracks ih =>
    by_cases ha : a.path ∈ queued.map AudioTrack.path
    · rw [List.map_cons, shown, if_pos ha, List.reduceOption_cons_of_none, ih,
        List.filter_cons_of_neg (by simpa using ha)]
    · rw [List.map_cons, shown, if_neg ha, List.reduceOption_cons_of_some, ih,
        List.filter_cons_of_pos (by simpa using ha)]

theorem reduceOption_map_some (queued : List AudioTrack) :
    (queued.map some).reduceOption = queued := by
  induction queued with
  | nil => rfl
  | cons a queued ih => rw [List.map_cons, List.reduceOption_cons_of_some, ih]

theorem reduceOption_ranksAt (tracks queued : List AudioTrack) (head : Nat) :
    (ranksAt tracks queued head).reduceOption =
      (tracks.take head).filter (fun a => a.path ∉ queued.map AudioTrack.path) ++ queued ++
        (tracks.drop head).filter fun a => a.path ∉ queued.map AudioTrack.path := by
  rw [ranksAt, List.reduceOption_append, List.reduceOption_append, reduceOption_shown,
    reduceOption_shown, reduceOption_map_some, List.append_assoc]

theorem reduceOption_ranks : (ranks listing db).reduceOption = playableOrder listing db :=
  reduceOption_ranksAt ..

theorem length_ranksAt : (ranksAt tracks queued head).length = tracks.length + queued.length := by
  simp only [ranksAt, List.length_append, List.length_map, List.length_take, List.length_drop]
  omega

/-- A stretch of the head. -/
theorem stretch_head (hh : head ≤ tracks.length) (h : r + n ≤ head) :
    ((ranksAt tracks queued head).drop r).take n = ((tracks.drop r).take n).map (shown queued) := by
  have hlen : ((tracks.take head).map (shown queued)).length = head := by
    rw [List.length_map, List.length_take, Nat.min_eq_left hh]
  rw [ranksAt, List.drop_append_of_le_length (by omega),
    List.take_append_of_le_length (by rw [List.length_drop]; omega), List.map_take, List.drop_take,
    List.take_take, Nat.min_eq_left (by omega), ← List.map_drop, ← List.map_take]

/-- A stretch of the manual queue. -/
theorem stretch_queue (hh : head ≤ tracks.length) (hr : head ≤ r) (h : r + n ≤ head + queued.length) :
    ((ranksAt tracks queued head).drop r).take n = ((queued.drop (r - head)).take n).map some := by
  have hlen : ((tracks.take head).map (shown queued)).length = head := by
    rw [List.length_map, List.length_take, Nat.min_eq_left hh]
  rw [ranksAt, List.drop_append, List.drop_eq_nil_of_le (by omega), List.nil_append, hlen,
    List.drop_append_of_le_length (by rw [List.length_map]; omega),
    List.take_append_of_le_length (by rw [List.length_drop, List.length_map]; omega),
    ← List.map_drop, ← List.map_take]

/-- A stretch of the rest of the source. -/
theorem stretch_tail (hh : head ≤ tracks.length) (hr : head + queued.length ≤ r) (n : Nat) :
    ((ranksAt tracks queued head).drop r).take n =
      ((tracks.drop (r - queued.length)).take n).map (shown queued) := by
  have hlen : ((tracks.take head).map (shown queued)).length = head := by
    rw [List.length_map, List.length_take, Nat.min_eq_left hh]
  rw [ranksAt, List.drop_append, List.drop_eq_nil_of_le (by omega), List.nil_append, hlen,
    List.drop_append, List.drop_eq_nil_of_le (by rw [List.length_map]; omega), List.nil_append,
    List.length_map, ← List.map_drop, List.drop_drop, ← List.map_take]
  congr 3
  omega

end Ranks

section Opened

/-- The current track stands at `cp` in the source; at -1 where it is unset or not there. -/
inductive CurrentAt (tracks : List AudioTrack) (path : String) : Int → Prop
  | nowhere (h : path = "" ∨ path ∉ tracks.map AudioTrack.path) : CurrentAt tracks path (-1)
  | rank {i : Nat} {a : AudioTrack} (hset : path ≠ "") (h : tracks[i]? = some a)
    (hpath : a.path = path) : CurrentAt tracks path i

theorem CurrentAt.bounds (h : CurrentAt tracks path cp) : -1 ≤ cp ∧ cp < tracks.length := by
  cases h with
  | nowhere => omega
  | rank hset h hpath =>
    obtain ⟨hlt, -⟩ := List.getElem?_eq_some_iff.mp h
    omega

theorem currentAt_place (hset : path ≠ "") : CurrentAt tracks path (place tracks path) := by
  cases hf : tracks.findIdx? fun a => a.path = path with
  | none =>
    have hplace : place tracks path = -1 := by rw [place, hf]; rfl
    rw [hplace]
    refine .nowhere (.inr ?_)
    rw [List.mem_map]
    rintro ⟨a, ha, hp⟩
    exact absurd hp (by simpa using List.findIdx?_eq_none_iff.mp hf a ha)
  | some i =>
    have hplace : place tracks path = i := by rw [place, hf]; rfl
    rw [hplace]
    obtain ⟨hlt, hp, -⟩ := List.findIdx?_eq_some_iff_getElem.mp hf
    exact .rank hset (List.getElem?_eq_getElem hlt) (by simpa using hp)

/-- Among tracks with different paths there is one place only. -/
theorem CurrentAt.unique {cp' : Int} (hn : (tracks.map AudioTrack.path).Nodup)
    (h : CurrentAt tracks path cp) (h' : CurrentAt tracks path cp') : cp = cp' := by
  cases h with
  | nowhere hno =>
    cases h' with
    | nowhere => rfl
    | rank hset hi hpath =>
      rcases hno with hno | hno
      · exact absurd hno hset
      · exact absurd (hpath ▸ List.mem_map_of_mem (List.mem_of_getElem? hi)) hno
  | @rank i _ hset hi hpath =>
    cases h' with
    | nowhere hno =>
      rcases hno with hno | hno
      · exact absurd hno hset
      · exact absurd (hpath ▸ List.mem_map_of_mem (List.mem_of_getElem? hi)) hno
    | @rank j _ hset' hj hpath' =>
      obtain ⟨hlt, -⟩ := List.getElem?_eq_some_iff.mp hi
      have hsame : (tracks.map AudioTrack.path)[i]? = (tracks.map AudioTrack.path)[j]? := by
        rw [List.getElem?_map, List.getElem?_map, hi, hj, Option.map_some, Option.map_some, hpath,
          hpath']
      rw [(List.getElem?_inj (by simpa using hlt) hn).mp hsame]

/-- What an order read off a database is: the state it leaves reads as the same order again, and
differs at most in the cached index of the source. -/
structure Opened (lib : LibraryTracks) (listing : String → List AudioTrack) (db db' : LibraryDb)
    (order : Order) : Prop where
  opens : playbackOrder lib db = .ok (db', order)
  again : playbackOrder lib db' = .ok (db', order)
  source : db'.getSource = order.src
  current : order.src.currentPath = db.getSource.currentPath
  tracks : sourceTracks listing db' = sourceTracks listing db
  queue : db'.allQueueItems = db.allQueueItems
  manual : order.manualCount = db.allQueueItems.length
  size : order.sourceSize = (sourceTracks listing db).length
  place : CurrentAt (sourceTracks listing db) db.getSource.currentPath order.currentPos

theorem sourceSizeOf_eq (hl : lib.Lists listing) (db : LibraryDb) :
    sourceSizeOf lib db db.getSource = .ok (sourceTracks listing db).length := by
  unfold sourceSizeOf sourceTracks
  cases db.getSource.source with
  | playlist => simp
  | library => exact hl.count _
  | none => rfl

theorem playlistPosition_eq (db : LibraryDb) (playlistId path : String) :
    playlistPosition db playlistId path =
      PlainRs.Library.place ((db.playlistItems playlistId).map AudioTrack.ofPlaylistItem) path := by
  rw [playlistPosition, PlainRs.Library.place, List.findIdx?_map]
  rfl

/-- The cached index of a library source holds the current track. -/
def CachedAt (tracks : List AudioTrack) (src : QueueSource) : Prop :=
  0 ≤ src.currentIndex ∧ tracks[src.currentIndex.toNat]?.map AudioTrack.path = some src.currentPath

instance (tracks : List AudioTrack) (src : QueueSource) : Decidable (CachedAt tracks src) :=
  inferInstanceAs (Decidable (_ ∧ _))

theorem currentPosInSource_library (hl : lib.Lists listing) (db : LibraryDb) {src : QueueSource}
    (hsource : src.source = .library) (hlist : listing src.sortBy = tracks)
    (hset : ¬ (src.currentPath = "" ∨ tracks.length = 0)) :
    currentPosInSource lib db src tracks.length = .ok (
      if CachedAt tracks src then (db, src, src.currentIndex)
      else if 0 ≤ place tracks src.currentPath then
        (db.saveSource { src with currentIndex := place tracks src.currentPath },
          { src with currentIndex := place tracks src.currentPath }, place tracks src.currentPath)
      else (db, src, place tracks src.currentPath)) := by
  unfold currentPosInSource
  rw [if_neg hset, hsource]
  simp only [hl.pathAt, hl.locate, hlist]
  by_cases hrange : 0 ≤ src.currentIndex ∧ src.currentIndex.toNat < tracks.length
  · rw [if_pos hrange]
    by_cases hhit : tracks[src.currentIndex.toNat]?.map AudioTrack.path = some src.currentPath
    · rw [if_pos ⟨hrange.1, hhit⟩]
      simp [hhit, bind, Except.bind, pure, Except.pure]
    · have hmiss : ¬ CachedAt tracks src := fun h => hhit h.2
      rw [if_neg hmiss]
      simp only [hhit, decide_false, bind, Except.bind, pure, Except.pure, Bool.false_eq_true,
        if_false]
      split <;> rfl
  · have hmiss : ¬ CachedAt tracks src := by
      rintro ⟨h0, hhit⟩
      refine hrange ⟨h0, ?_⟩
      obtain ⟨a, ha, -⟩ := Option.map_eq_some_iff.mp hhit
      exact (List.getElem?_eq_some_iff.mp ha).1
    rw [if_neg hrange, if_neg hmiss]
    simp only [bind, Except.bind, pure, Except.pure, Bool.false_eq_true, if_false]
    split <;> rfl

theorem CachedAt.currentAt {src : QueueSource} (h : CachedAt tracks src)
    (hset : src.currentPath ≠ "") : CurrentAt tracks src.currentPath src.currentIndex := by
  obtain ⟨h0, hhit⟩ := h
  obtain ⟨i, hi⟩ := Int.eq_ofNat_of_zero_le h0
  obtain ⟨a, ha, hpath⟩ := Option.map_eq_some_iff.mp hhit
  rw [hi] at ha ⊢
  exact .rank hset ha hpath

/-- The place of the current track is found again where it was found; at most the cached index of
the source is saved anew. -/
theorem currentPosInSource_eq (hl : lib.Lists listing) (db : LibraryDb) :
    ∃ index cp, let src := { db.getSource with currentIndex := index }
      ∃ db', (db' = db ∧ index = db.getSource.currentIndex ∨ db' = db.saveSource src) ∧
        currentPosInSource lib db db.getSource (sourceTracks listing db).length =
          .ok (db', src, cp) ∧
        currentPosInSource lib db' src (sourceTracks listing db).length = .ok (db', src, cp) ∧
        CurrentAt (sourceTracks listing db) db.getSource.currentPath cp := by
  generalize htracks : sourceTracks listing db = tracks
  by_cases hunset : db.getSource.currentPath = "" ∨ tracks.length = 0
  · refine ⟨db.getSource.currentIndex, -1, db, .inl ⟨rfl, rfl⟩, if_pos hunset, if_pos hunset, ?_⟩
    refine .nowhere (hunset.imp_right fun h => ?_)
    simp [List.length_eq_zero_iff.mp h]
  have hset : db.getSource.currentPath ≠ "" := fun h => hunset (.inl h)
  cases hsource : db.getSource.source with
  | none =>
    have hnil : tracks = [] := by rw [← htracks, sourceTracks, hsource]
    exact absurd (.inr (by rw [hnil]; rfl)) hunset
  | playlist =>
    have hat : CurrentAt tracks db.getSource.currentPath
        (playlistPosition db db.getSource.playlistId db.getSource.currentPath) := by
      rw [playlistPosition_eq, ← htracks, sourceTracks, hsource]
      exact currentAt_place hset
    refine ⟨db.getSource.currentIndex, _, db, .inl ⟨rfl, rfl⟩, ?_, ?_, hat⟩
    all_goals
      unfold currentPosInSource
      rw [if_neg hunset, hsource]
  | library =>
    have hlist : listing db.getSource.sortBy = tracks := by rw [← htracks, sourceTracks, hsource]
    have hfirst := currentPosInSource_library hl db hsource hlist hunset
    by_cases hhit : CachedAt tracks db.getSource
    · rw [if_pos hhit] at hfirst
      exact ⟨_, _, db, .inl ⟨rfl, rfl⟩, hfirst, hfirst, hhit.currentAt hset⟩
    rw [if_neg hhit] at hfirst
    have hat : CurrentAt tracks db.getSource.currentPath (place tracks db.getSource.currentPath) :=
      currentAt_place hset
    generalize hcp : place tracks db.getSource.currentPath = cp at hfirst hat
    by_cases h0 : 0 ≤ cp
    · rw [if_pos h0] at hfirst
      refine ⟨cp, cp, _, .inr rfl, hfirst, ?_, hat⟩
      have hagain := currentPosInSource_library hl
        (db.saveSource { db.getSource with currentIndex := cp })
        (show ({ db.getSource with currentIndex := cp } : QueueSource).source = .library
          from hsource) hlist hunset
      have hhit' : CachedAt tracks { db.getSource with currentIndex := cp } := by
        cases hat with
        | nowhere => omega
        | rank _ ha hpath => exact ⟨h0, by simp [ha, hpath]⟩
      rw [if_pos hhit'] at hagain
      exact hagain
    · rw [if_neg h0] at hfirst
      exact ⟨_, cp, db, .inl ⟨rfl, rfl⟩, hfirst, hfirst, hat⟩

theorem exists_opened (hl : lib.Lists listing) (db : LibraryDb) :
    ∃ db' order, Opened lib listing db db' order := by
  obtain ⟨index, cp, db', hdb, hfirst, hagain, hat⟩ := currentPosInSource_eq hl db
  set src := { db.getSource with currentIndex := index } with hsrc
  have hsource : db'.getSource = src := by
    rcases hdb with ⟨rfl, rfl⟩ | rfl
    · rfl
    · rfl
  have hqueue : db'.allQueueItems = db.allQueueItems := by
    rcases hdb with ⟨rfl, -⟩ | rfl
    · rfl
    · rfl
  have htracks : sourceTracks listing db' = sourceTracks listing db := by
    have hitems : db'.playlistItems = db.playlistItems := by
      rcases hdb with ⟨rfl, -⟩ | rfl
      · rfl
      · rfl
    rw [sourceTracks, sourceTracks, hsource, hitems]
  have hsize := sourceSizeOf_eq hl db
  have hsize' := sourceSizeOf_eq hl db'
  rw [htracks] at hsize'
  refine ⟨db', ⟨src, db.allQueueItems.length, (sourceTracks listing db).length, cp⟩, ?_, ?_,
    hsource, rfl, htracks, hqueue, rfl, rfl, hat⟩
  · rw [playbackOrder, hsize]
    simp only [bind, Except.bind, hfirst]
    rfl
  · rw [playbackOrder, hsize']
    simp only [bind, Except.bind, hsource, hagain, hqueue]
    rfl

end Opened

section Pages

/-- The paths that the source and the manual queue both have. -/
def supersededPaths (tracks queued : List AudioTrack) : Finset String :=
  ((tracks.map AudioTrack.path).filter (· ∈ queued.map AudioTrack.path)).toFinset

theorem mem_supersededPaths : path ∈ supersededPaths tracks queued ↔
    path ∈ tracks.map AudioTrack.path ∧ path ∈ queued.map AudioTrack.path := by
  rw [supersededPaths, List.mem_toFinset, List.mem_filter, decide_eq_true_eq]

theorem paths_queuedTracks (db : LibraryDb) :
    (queuedTracks db).map AudioTrack.path = db.allQueueItems.map QueueItem.path := by
  rw [queuedTracks, List.map_map]
  rfl

theorem nodup_queuedTracks (db : LibraryDb) : ((queuedTracks db).map AudioTrack.path).Nodup := by
  rw [paths_queuedTracks]
  exact allQueueItems_unique db

/-- One look-up for each queued path collects those that the library has. -/
theorem foldlM_contains (hl : lib.Lists listing) (sortBy : String) (items : List QueueItem)
    (out : Finset String) :
    (items.foldlM (fun out q => do
      let found ← lib.libraryContains q.path
      pure (if found then insert q.path out else out)) out : Except LibraryError (Finset String)) =
      .ok (out ∪ ((items.map QueueItem.path).filter
        (· ∈ (listing sortBy).map AudioTrack.path)).toFinset) := by
  induction items generalizing out with
  | nil => simp [pure, Except.pure]
  | cons q items ih =>
    rw [List.foldlM_cons, hl.contains q.path sortBy]
    refine (ih (if decide (q.path ∈ (listing sortBy).map AudioTrack.path) = true then
      insert q.path out else out)).trans ?_
    by_cases hq : q.path ∈ (listing sortBy).map AudioTrack.path
    · rw [if_pos (decide_eq_true hq), List.map_cons, List.filter_cons_of_pos (by simpa using hq),
        List.toFinset_cons, Finset.insert_union, Finset.union_insert]
    · rw [if_neg (by simpa using hq), List.map_cons, List.filter_cons_of_neg (by simpa using hq)]

theorem Opened.superseded (hl : lib.Lists listing) (ho : Opened lib listing db db' order) :
    supersededSourcePaths lib db' order db'.allQueueItems =
      .ok (supersededPaths (sourceTracks listing db) (queuedTracks db)) := by
  have htracks := ho.tracks
  rw [sourceTracks, ho.source] at htracks
  unfold supersededSourcePaths
  rw [ho.manual, ho.queue]
  by_cases hempty : db.allQueueItems.length = 0
  · have hqueued : queuedTracks db = [] := by
      rw [queuedTracks, List.length_eq_zero_iff.mp hempty, List.map_nil]
    rw [if_pos hempty, hqueued]
    simp [supersededPaths]
  rw [if_neg hempty, ← htracks, supersededPaths, paths_queuedTracks]
  cases order.src.source with
  | playlist =>
    simp only [List.map_map]
    rfl
  | library =>
    simp only
    rw [foldlM_contains hl order.src.sortBy, Finset.empty_union]
    refine congrArg _ (Finset.ext fun path => ?_)
    simp only [List.mem_toFinset, List.mem_filter, decide_eq_true_eq]
    exact and_comm
  | none => rfl

/-- `queue_total` counts each rank but those of the superseded paths. -/
theorem queueTotal_eq (hl : lib.Lists listing) (ho : Opened lib listing db db' order) :
    queueTotal lib db = (db', .ok ((sourceTracks listing db).length + (queuedTracks db).length -
      (supersededPaths (sourceTracks listing db) (queuedTracks db)).card)) := by
  have htotal : order.total = (sourceTracks listing db).length + (queuedTracks db).length := by
    rw [Order.total, ho.manual, ho.size, queuedTracks, List.length_map, Nat.add_comm]
  unfold queueTotal
  rw [ho.opens]
  simp only [ho.superseded hl, bind, Except.bind, pure, Except.pure, htotal]

theorem sourcePage_eq (hl : lib.Lists listing) (db : LibraryDb) (offset : Nat) (limit : Nat) :
    sourcePage lib db db.getSource offset limit =
      .ok (((sourceTracks listing db).drop offset).take limit) := by
  unfold sourcePage sourceTracks
  by_cases h0 : (limit : Int) ≤ 0
  · rw [if_pos h0, show limit = 0 by omega, List.take_zero]
  rw [if_neg h0, Int.toNat_natCast, Int.toNat_natCast]
  cases db.getSource.source with
  | playlist => simp [List.map_drop, List.map_take]
  | library => exact hl.page offset limit _
  | none => simp

/-- The ranks of an order that was opened. -/
def Order.ranks (order : Order) (tracks queued : List AudioTrack) : List (Option AudioTrack) :=
  ranksAt tracks queued (order.currentPos + 1).toNat

theorem filter_superseded {rows : List AudioTrack} (h : rows ⊆ tracks) :
    (rows.filter fun a => a.path ∉ supersededPaths tracks queued) =
      (rows.map (shown queued)).reduceOption := by
  rw [reduceOption_shown]
  refine List.filter_congr fun a ha => ?_
  have hin : a.path ∈ tracks.map AudioTrack.path := List.mem_map_of_mem (h ha)
  rw [decide_eq_decide, mem_supersededPaths]
  simp only [hin, true_and]

/-- One turn of the loop of a page takes the visible rows of a stretch of the ranks. -/
theorem pageSegment_eq (hl : lib.Lists listing) (ho : Opened lib listing db db' order)
    {stop : Nat} (hr : r < stop) :
    ∃ next : Nat, r < next ∧ next ≤ stop ∧
      pageSegment lib db' order db'.allQueueItems
        (supersededPaths (sourceTracks listing db) (queuedTracks db)) stop r = .ok (next,
          (((order.ranks (sourceTracks listing db) (queuedTracks db)).drop r).take
            (next - r)).reduceOption) := by
  obtain ⟨hlow, hhigh⟩ := ho.place.bounds
  have hpage := sourcePage_eq hl db'
  rw [ho.source, ho.tracks] at hpage
  have hqueue : order.manualCount = (queuedTracks db).length := by
    rw [ho.manual, queuedTracks, List.length_map]
  have hhead : (order.currentPos + 1).toNat ≤ (sourceTracks listing db).length := by omega
  unfold pageSegment
  by_cases hfirst : (r : Int) ≤ order.currentPos
  · obtain ⟨next, hnext⟩ : ∃ next, next = min stop (order.currentPos + 1).toNat := ⟨_, rfl⟩
    have hend : min (stop : Int) (order.currentPos + 1) = (next : Int) := by omega
    have hlimit : (next : Int) - r = ((next - r : Nat) : Int) := by omega
    refine ⟨next, by omega, by omega, ?_⟩
    rw [if_pos hfirst]
    dsimp only
    rw [hend, hlimit, hpage, Order.ranks, stretch_head hhead (by omega),
      ← filter_superseded fun a ha => List.mem_of_mem_drop (List.mem_of_mem_take ha)]
    rfl
  rw [if_neg hfirst]
  by_cases hsecond : (r : Int) ≤ order.currentPos + order.manualCount
  · obtain ⟨next, hnext⟩ : ∃ next,
        next = min stop ((order.currentPos + 1).toNat + (queuedTracks db).length) := ⟨_, rfl⟩
    have hend : min (stop : Int) (order.currentPos + 1 + order.manualCount) = (next : Int) := by omega
    have hskip : ((r : Int) - order.currentPos - 1).toNat = r - (order.currentPos + 1).toNat := by
      omega
    have hlimit : ((next : Int) - r).toNat = next - r := by omega
    refine ⟨next, by omega, by omega, ?_⟩
    rw [if_pos hsecond]
    dsimp only
    rw [hend, hskip, hlimit, ho.queue, List.map_take, List.map_drop, ← queuedTracks, Order.ranks,
      stretch_queue hhead (by omega) (by omega), reduceOption_map_some]
    rfl
  · refine ⟨stop, hr, le_rfl, ?_⟩
    have hskip : (r : Int) - order.manualCount = ((r - (queuedTracks db).length : Nat) : Int) := by
      omega
    have hlimit : (stop : Int) - r = ((stop - r : Nat) : Int) := by omega
    rw [if_neg hsecond, hskip, hlimit, hpage, Order.ranks, stretch_tail hhead (by omega),
      ← filter_superseded fun a ha => List.mem_of_mem_drop (List.mem_of_mem_take ha)]
    rfl

theorem pageRows_eq (hl : lib.Lists listing) (ho : Opened lib listing db db' order) {stop : Nat}
    (turns : Nat) (hturns : stop - r ≤ turns) (out : List AudioTrack) :
    pageRows lib db' order db'.allQueueItems
      (supersededPaths (sourceTracks listing db) (queuedTracks db)) stop turns r out =
      .ok (out ++ (((order.ranks (sourceTracks listing db) (queuedTracks db)).drop r).take
        (stop - r)).reduceOption) := by
  induction turns generalizing r out with
  | zero =>
    rw [show stop - r = 0 by omega, List.take_zero, List.reduceOption_nil, List.append_nil]
    rfl
  | succ turns ih =>
    unfold pageRows
    by_cases hlt : r < stop
    · obtain ⟨next, hnext, hle, hseg⟩ := pageSegment_eq hl ho hlt
      rw [if_pos (by omega), hseg]
      refine (ih (r := next) (by omega) _).trans ?_
      rw [List.append_assoc, ← List.reduceOption_append,
        show stop - r = (next - r) + (stop - next) by omega, List.take_add, List.drop_drop,
        show r + (next - r) = next by omega]
    · rw [if_neg (by omega), show stop - r = 0 by omega, List.take_zero, List.reduceOption_nil,
        List.append_nil]
      rfl

/-- A page holds the visible rows of its ranks. -/
theorem queuePageUnfiltered_eq (hl : lib.Lists listing) (ho : Opened lib listing db db' order)
    (offset limit : Nat) :
    queuePageUnfiltered lib db offset limit = (db', .ok
      (((order.ranks (sourceTracks listing db) (queuedTracks db)).drop offset).take
        limit).reduceOption) := by
  have htotal : order.total = (sourceTracks listing db).length + (queuedTracks db).length := by
    rw [Order.total, ho.manual, ho.size, queuedTracks, List.length_map, Nat.add_comm]
  have hlen : (order.ranks (sourceTracks listing db) (queuedTracks db)).length = order.total := by
    rw [Order.ranks, length_ranksAt, htotal]
  have hstop : min ((offset : Int) + limit) order.total = ((min (offset + limit) order.total : Nat) :
      Int) := by omega
  unfold queuePageUnfiltered
  rw [ho.opens]
  simp only [ho.superseded hl, bind, Except.bind, hstop, show max (offset : Int) 0 = offset by omega]
  refine congrArg _ ((pageRows_eq hl ho _ (by omega) []).trans ?_)
  rw [List.nil_append]
  congr 2
  by_cases hle : offset + limit ≤ order.total
  · rw [Nat.min_eq_left hle, Nat.add_sub_cancel_left]
  · rw [Nat.min_eq_right (by omega), List.take_of_length_le (by rw [List.length_drop]; omega),
      List.take_of_length_le (by rw [List.length_drop]; omega)]

end Pages

end PlainRs.Library
