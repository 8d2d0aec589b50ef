import PlainRs.Library.QueuePages
import PlainRs.Library.Skips

/-! Skipping against the rendered queue. -/
namespace PlainRs.Library

/-- The row of the current track, -1 when it is unset or in no row. -/
def currentRow (rows : List AudioTrack) (path : String) : Int :=
  if path = "" then -1 else place rows path

/-- The row after the current one or before it, around the ends; the first row or the last one when
there is no current row. -/
def neighbour (rows : List AudioTrack) (path : String) (isNext : Bool) : Option AudioTrack :=
  let row := currentRow rows path
  rows[((if isNext then row + 1 else if row < 0 then rows.length - 1 else row - 1) %
    rows.length).toNat]?

/-- The head of the source, the manual queue and the rest of the source. -/
def fullOrder (tracks queued : List AudioTrack) (head : Nat) : List AudioTrack :=
  tracks.take head ++ (queued ++ tracks.drop head)

variable {lib : LibraryTracks} {listing : String → List AudioTrack} {db db' : LibraryDb}
  {order : Order} {tracks queued rows : List AudioTrack} {path now : String} {head r k : Nat}
  {isNext : Bool} {a : AudioTrack}

section Rows

theorem length_fullOrder : (fullOrder tracks queued head).length = tracks.length + queued.length := by
  simp only [fullOrder, List.length_append, List.length_take, List.length_drop]
  omega

/-- Where no track of the source is queued, the rows are the order itself. -/
theorem playableOrder_eq (hout : ∀ a ∈ sourceTracks listing db,
      a.path ∉ (queuedTracks db).map AudioTrack.path) :
    playableOrder listing db =
      fullOrder (sourceTracks listing db) (queuedTracks db) (headLength listing db) := by
  have hall : ∀ l ⊆ sourceTracks listing db,
      l.filter (fun a => a.path ∉ (queuedTracks db).map AudioTrack.path) = l := fun l hl =>
    List.filter_eq_self.mpr fun a ha => decide_eq_true (hout a (hl ha))
  rw [← reduceOption_ranks, ranks, reduceOption_ranksAt, hall _ (List.take_subset ..),
    hall _ (List.drop_subset ..), List.append_assoc, fullOrder]

theorem supersededPaths_eq_empty (hout : ∀ a ∈ tracks, a.path ∉ queued.map AudioTrack.path) :
    supersededPaths tracks queued = ∅ := by
  rw [Finset.eq_empty_iff_forall_notMem]
  intro path hpath
  obtain ⟨hin, hqueued⟩ := mem_supersededPaths.mp hpath
  obtain ⟨a, ha, rfl⟩ := List.mem_map.mp hin
  exact hout a ha hqueued

/-- A rank of the order is one of the head, of the manual queue or of the rest of the source. -/
theorem getElem?_fullOrder (hh : head ≤ tracks.length) (r : Nat) :
    (fullOrder tracks queued head)[r]? =
      if r < head then tracks[r]?
      else if r < head + queued.length then queued[r - head]?
      else tracks[r - queued.length]? := by
  have hlen : (tracks.take head).length = head := by rw [List.length_take, Nat.min_eq_left hh]
  unfold fullOrder
  by_cases hfirst : r < head
  · rw [if_pos hfirst, List.getElem?_append_left (by omega), List.getElem?_take_of_lt hfirst]
  rw [if_neg hfirst, List.getElem?_append_right (by omega), hlen]
  by_cases hsecond : r < head + queued.length
  · rw [if_pos hsecond, List.getElem?_append_left (by omega)]
  · rw [if_neg hsecond, List.getElem?_append_right (by omega), List.getElem?_drop]
    congr 1
    omega

theorem nodup_fullOrder (hn : (tracks.map AudioTrack.path).Nodup)
    (hq : (queued.map AudioTrack.path).Nodup) (hout : ∀ a ∈ tracks, a.path ∉ queued.map AudioTrack.path)
    (head : Nat) : ((fullOrder tracks queued head).map AudioTrack.path).Nodup := by
  have hperm : (fullOrder tracks queued head).Perm (tracks ++ queued) := by
    conv_rhs => rw [← List.take_append_drop head tracks, List.append_assoc]
    exact List.perm_append_comm.append_left _
  rw [(hperm.map _).nodup_iff, List.map_append]
  refine hn.append hq fun path hin hqueued => ?_
  obtain ⟨a, ha, rfl⟩ := List.mem_map.mp hin
  exact hout a ha hqueued

theorem currentAt_currentRow (rows : List AudioTrack) (path : String) :
    CurrentAt rows path (currentRow rows path) := by
  unfold currentRow
  by_cases hset : path = ""
  · rw [if_pos hset]
    exact .nowhere (.inl hset)
  · rw [if_neg hset]
    exact currentAt_place hset

end Rows

section TrackAt

theorem sourceTrackAt_eq (hl : lib.Lists listing) (db : LibraryDb) (r : Nat) :
    sourceTrackAt lib db db.getSource r = .ok (sourceTracks listing db)[r]? := by
  unfold sourceTrackAt sourceTracks
  cases db.getSource.source with
  | playlist => simp
  | library =>
    simp only [Int.toNat_natCast, hl.page]
    simp [bind, Except.bind, pure, Except.pure, List.head?_take, List.head?_drop]
  | none => rfl

/-- The track at a rank is the row of the order. -/
theorem Opened.trackAt_eq (hl : lib.Lists listing) (ho : Opened lib listing db db' order) (r : Nat) :
    trackAt lib db' order db'.allQueueItems r = .ok (fullOrder (sourceTracks listing db)
      (queuedTracks db) (order.currentPos + 1).toNat)[r]? := by
  obtain ⟨hlow, hhigh⟩ := ho.place.bounds
  have htrack := sourceTrackAt_eq hl db'
  rw [ho.source, ho.tracks] at htrack
  have hqueue : order.manualCount = (queuedTracks db).length := by
    rw [ho.manual, queuedTracks, List.length_map]
  have htotal : order.total = (sourceTracks listing db).length + (queuedTracks db).length := by
    rw [Order.total, hqueue, ho.size, Nat.add_comm]
  unfold trackAt
  rw [getElem?_fullOrder (by omega)]
  by_cases hend : order.total ≤ r
  · rw [if_pos (by omega), if_neg (by omega), if_neg (by omega),
      List.getElem?_eq_none (by omega)]
  rw [if_neg (by omega)]
  by_cases hfirst : r < (order.currentPos + 1).toNat
  · rw [if_pos (by omega), if_pos hfirst, htrack]
  rw [if_neg (by omega), if_neg hfirst]
  by_cases hsecond : r < (order.currentPos + 1).toNat + (queuedTracks db).length
  · have hrank : ((r : Int) - order.currentPos - 1).toNat = r - (order.currentPos + 1).toNat := by
      omega
    rw [if_pos (by omega), if_pos hsecond, hrank, ho.queue, queuedTracks, List.getElem?_map]
  · have hrank : (r : Int) - order.manualCount = ((r - (queuedTracks db).length : Nat) : Int) := by
      omega
    rw [if_neg (by omega), if_neg hsecond, hrank, htrack]

/-- The rank of the current track is its row. -/
theorem Opened.currentRank_eq (ho : Opened lib listing db db' order)
    (hn : ((sourceTracks listing db).map AudioTrack.path).Nodup)
    (hout : ∀ a ∈ sourceTracks listing db, a.path ∉ (queuedTracks db).map AudioTrack.path) :
    currentRank order db'.allQueueItems =
      currentRow (playableOrder listing db) db.getSource.currentPath := by
  obtain ⟨hlow, hhigh⟩ := ho.place.bounds
  have hhead : (order.currentPos + 1).toNat ≤ (sourceTracks listing db).length := by omega
  have hrows := playableOrder_eq hout
  rw [← ho.headLength_eq hn] at hrows
  have hnodup := nodup_fullOrder hn (nodup_queuedTracks db) hout (order.currentPos + 1).toNat
  rw [← hrows] at hnodup
  refine CurrentAt.unique hnodup ?_ (currentAt_currentRow ..)
  unfold currentRank
  rw [ho.current]
  by_cases hset : db.getSource.currentPath = ""
  · rw [if_pos hset]
    exact .nowhere (.inl hset)
  rw [if_neg hset, ho.queue, hrows]
  cases hfind : db.allQueueItems.findIdx? fun q => q.path = db.getSource.currentPath with
  | some pos =>
    obtain ⟨hlt, hpath, -⟩ := List.findIdx?_eq_some_iff_getElem.mp hfind
    have hlen : (queuedTracks db).length = db.allQueueItems.length := List.length_map ..
    have hrank : order.currentPos + 1 + pos = (((order.currentPos + 1).toNat + pos : Nat) : Int) := by
      omega
    dsimp only
    rw [hrank]
    refine .rank hset (a := AudioTrack.ofQueueItem (db.allQueueItems[pos])) ?_
      (of_decide_eq_true hpath)
    rw [getElem?_fullOrder hhead, if_neg (by omega), if_pos (by omega), Nat.add_sub_cancel_left,
      queuedTracks, List.getElem?_map, List.getElem?_eq_getElem hlt]
    rfl
  | none =>
    dsimp only
    have hnot : db.getSource.currentPath ∉ (queuedTracks db).map AudioTrack.path := by
      rw [paths_queuedTracks, List.mem_map]
      rintro ⟨q, hq, hpath⟩
      exact absurd hpath (by simpa using List.findIdx?_eq_none_iff.mp hfind q hq)
    have hplace := ho.place
    clear hrows
    generalize order.currentPos = cp at hplace hhead
    cases hplace with
    | nowhere hno =>
      refine .nowhere (.inr ?_)
      rw [show (-1 + 1 : Int).toNat = 0 from rfl, fullOrder, List.take_zero, List.nil_append,
        List.drop_zero, List.map_append, List.mem_append]
      exact fun h => h.elim hnot (hno.resolve_left hset)
    | @rank i a _ hat hpath =>
      refine .rank hset ?_ hpath
      rw [getElem?_fullOrder hhead, if_pos (by omega), hat]

end TrackAt

section Skip

theorem currentRow_bounds (rows : List AudioTrack) (path : String) :
    -1 ≤ currentRow rows path ∧ currentRow rows path < rows.length :=
  (currentAt_currentRow rows path).bounds

/-- The row of a track that is set. -/
theorem currentRow_of_getElem? (hn : (rows.map AudioTrack.path).Nodup) (h : rows[r]? = some a)
    (hset : a.path ≠ "") : currentRow rows a.path = r :=
  (currentAt_currentRow rows a.path).unique hn (.rank hset h rfl)

theorem recordPlay_queue (db : LibraryDb) (now : String) (a : AudioTrack) :
    (recordPlay db now a).getSource = db.getSource ∧
      (recordPlay db now a).allQueueItems = db.allQueueItems ∧
        (recordPlay db now a).playlistItems = db.playlistItems := by
  unfold recordPlay recordHistory
  dsimp only
  split <;> split <;> exact ⟨rfl, rfl, rfl⟩

/-- The current track that is saved is the one at the rank; the source stays otherwise. -/
theorem saveCurrent_eq {queued : List QueueItem} {rank : Int}
    (h : trackAt lib db order queued rank = .ok (some a)) :
    ∃ index, saveCurrent lib db order queued rank =
      .ok (db.saveSource { order.src with currentPath := a.path, currentIndex := index }) := by
  unfold saveCurrent
  rw [h]
  exact ⟨_, rfl⟩

theorem firstTarget_eq {queued : List QueueItem} (h : -1 ≤ currentRank order queued) (n : Nat) :
    firstTarget order queued isNext n none =
      (if isNext then currentRank order queued + 1
        else if currentRank order queued < 0 then (n : Int) - 1
        else currentRank order queued - 1) % n := by
  unfold firstTarget
  dsimp only
  by_cases hlow : currentRank order queued < 0
  · have hnone : currentRank order queued = -1 := by omega
    rw [if_pos hlow, if_pos hlow, hnone]
    cases isNext with
    | true => rfl
    | false =>
      simp only [Bool.false_eq_true, if_false]
      congr 1
  · rw [if_neg hlow, if_neg hlow]
    cases isNext with
    | true => rfl
    | false =>
      simp only [Bool.false_eq_true, if_false]
      rw [Int.add_emod_right]

/-- Where each path stands once in the source and none of its tracks is queued, a skip plays the
neighbour of the current row in the rendered queue and makes it the current track; the source and
the manual queue stay as they are. -/
theorem skip_follows_rows (hl : lib.Lists listing) (db : LibraryDb)
    (hn : ((sourceTracks listing db).map AudioTrack.path).Nodup)
    (hout : ∀ a ∈ sourceTracks listing db, a.path ∉ (queuedTracks db).map AudioTrack.path)
    (isNext : Bool) (now : String) :
    let track := neighbour (playableOrder listing db) db.getSource.currentPath isNext
    ∃ db', (∀ fuel, resolveNext lib db isNext none now (fuel + 1) = some (db', .ok track)) ∧
      sourceTracks listing db' = sourceTracks listing db ∧ queuedTracks db' = queuedTracks db ∧
      db'.getSource.currentPath = track.elim db.getSource.currentPath AudioTrack.path := by
  intro track
  obtain ⟨opened, order, ho⟩ := exists_opened hl db
  have hrows := playableOrder_eq hout
  rw [← ho.headLength_eq hn] at hrows
  have htotal : order.total = (playableOrder listing db).length := by
    rw [hrows, length_fullOrder, Order.total, ho.manual, ho.size, queuedTracks, List.length_map,
      Nat.add_comm]
  have hnone : supersededSourcePaths lib opened order opened.allQueueItems = .ok ∅ := by
    rw [ho.superseded hl, supersededPaths_eq_empty hout]
  have hrank := ho.currentRank_eq hn hout
  by_cases h0 : order.total = 0
  · have hnil : playableOrder listing db = [] := List.length_eq_zero_iff.mp (by omega)
    have htrack : track = none := by
      rw [show track = neighbour (playableOrder listing db) _ isNext from rfl, hnil]
      rfl
    refine ⟨opened, fun fuel => ?_, ho.tracks, ho.queuedTracks_eq, ?_⟩
    · simp only [resolveNext, ho.opens, if_pos h0, htrack]
    · rw [htrack, ho.source, ho.current]
      rfl
  have hpos : 0 < order.total := Nat.pos_of_ne_zero h0
  have hbounds := currentRow_bounds (playableOrder listing db) db.getSource.currentPath
  obtain ⟨hge, hlt⟩ : 0 ≤ firstTarget order opened.allQueueItems isNext order.total none ∧
      firstTarget order opened.allQueueItems isNext order.total none < order.total :=
    firstTarget_mem hpos
  have hfirst : firstTarget order opened.allQueueItems isNext order.total none = _ :=
    firstTarget_eq (hrank ▸ hbounds.1) order.total
  obtain ⟨t, ht⟩ := Int.eq_ofNat_of_zero_le hge
  have htrack : track = (playableOrder listing db)[t]? := by
    rw [ht, hrank] at hfirst
    rw [show track = neighbour (playableOrder listing db) _ isNext from rfl, neighbour]
    rw [← htotal, ← hfirst, Int.toNat_natCast]
  have hat : trackAt lib opened order opened.allQueueItems t = .ok track := by
    rw [htrack, hrows, ho.trackAt_eq hl]
  obtain ⟨a, ha⟩ : ∃ a, track = some a := by
    rw [htrack]
    exact ⟨_, List.getElem?_eq_getElem (by omega)⟩
  rw [ha] at hat ⊢
  obtain ⟨index, hsave⟩ := saveCurrent_eq hat
  set saved := opened.saveSource { order.src with currentPath := a.path, currentIndex := index }
  obtain ⟨hsource, hqueue, hitems⟩ := recordPlay_queue saved now a
  refine ⟨recordPlay saved now a, fun fuel => ?_, ?_, ?_, ?_⟩
  · simp only [resolveNext, ho.opens, if_neg h0, hnone, Finset.card_empty, Nat.sub_zero, ht, hat]
    rw [Loops.run, skipSuperseded, if_pos (Finset.notMem_empty _), Option.map_some, afterSkip,
      if_neg (Finset.notMem_empty _), hsave]
  · rw [← ho.tracks, sourceTracks, sourceTracks, hsource, hitems, ho.source]
    rfl
  · rw [queuedTracks, hqueue, ← ho.queuedTracks_eq]
    rfl
  · rw [hsource]
    rfl

/-- Behind the first track of a playlist comes the second. -/
theorem skip_follows_rows_playlist : ∃ db',
    (∀ fuel, resolveNext noLibrary threeTracks true none "3" (fuel + 1) =
      some (db', .ok (some ⟨"B", "", "/b.mp3", 2⟩))) ∧ db'.getSource.currentPath = "/b.mp3" := by
  obtain ⟨hrows, hranks, hempty, hcurrent⟩ := threeTracks_order
  obtain ⟨db', hrun, -, -, hnow⟩ := skip_follows_rows lists_noLibrary threeTracks
    (by rw [hrows]; decide) (by simp [hempty]) true "3"
  have hnext : neighbour threeRows "/a.mp3" true = some ⟨"B", "", "/b.mp3", 2⟩ := by decide
  have horder : (threeRows.map some).reduceOption = threeRows := reduceOption_map_some threeRows
  rw [← reduceOption_ranks, hranks, hcurrent, horder, hnext] at hrun hnow
  exact ⟨db', hrun, hnow⟩

end Skip

section Tour

/-- `k` skips in one direction, each from the database that the one before left, and what they
play. -/
def skips (lib : LibraryTracks) (isNext : Bool) (now : String) (fuel : Nat) :
    Nat → LibraryDb → Option (LibraryDb × List (Option AudioTrack))
  | 0, db => some (db, [])
  | k + 1, db =>
    match resolveNext lib db isNext none now fuel with
    | some (db, .ok track) => (skips lib isNext now fuel k db).map fun out => (out.1, track :: out.2)
    | _ => none

/-- Without a manual queue the rows are the source. -/
theorem playableOrder_of_empty (h : queuedTracks db = []) :
    playableOrder listing db = sourceTracks listing db := by
  rw [playableOrder_eq (by simp [h]), fullOrder, h, List.nil_append, List.take_append_drop]

theorem neighbour_next (rows : List AudioTrack) (path : String) :
    neighbour rows path true = rows[(currentRow rows path + 1).toNat % rows.length]? := by
  have hlow := (currentRow_bounds rows path).1
  rw [neighbour, if_pos rfl, Int.toNat_emod (by omega) (by omega), Int.toNat_natCast]

/-- Behind a row comes one, and before that one comes the row. -/
theorem neighbour_back (hn : (rows.map AudioTrack.path).Nodup) (h : rows[r]? = some a) {b : AudioTrack}
    (hset : a.path ≠ "") (hset' : b.path ≠ "") (hnext : neighbour rows a.path true = some b) :
    neighbour rows b.path false = some a := by
  obtain ⟨hlt, -⟩ := List.getElem?_eq_some_iff.mp h
  rw [neighbour_next, currentRow_of_getElem? hn h hset] at hnext
  have hrow := currentRow_of_getElem? hn hnext hset'
  rw [neighbour, hrow, if_neg Bool.false_ne_true, if_neg (by omega), ← h]
  congr 1
  rcases Nat.lt_or_ge (r + 1) rows.length with hin | hend
  · have hmod : ((r : Int) + 1).toNat % rows.length = r + 1 := Nat.mod_eq_of_lt (by omega)
    rw [hmod, show ((r + 1 : Nat) : Int) - 1 = r by omega, Int.emod_eq_of_lt (by omega) (by omega),
      Int.toNat_natCast]
  · have hmod : ((r : Int) + 1).toNat % rows.length = 0 := by
      rw [show ((r : Int) + 1).toNat = rows.length by omega, Nat.mod_self]
    rw [hmod, ← Int.add_emod_right, Int.emod_eq_of_lt (by omega) (by omega)]
    omega

/-- `k` nexts play the `k` rows behind the current one, around the end. -/
theorem skips_next (hl : lib.Lists listing) (hrows : sourceTracks listing db = rows)
    (hn : (rows.map AudioTrack.path).Nodup) (hset : ∀ a ∈ rows, a.path ≠ "")
    (hempty : queuedTracks db = []) (hpos : 0 < rows.length) (now : String) (fuel k : Nat) :
    ∃ db', skips lib true now (fuel + 1) k db = some (db', (List.range k).map fun i =>
        rows[((currentRow rows db.getSource.currentPath + 1).toNat + i) % rows.length]?) := by
  induction k generalizing db with
  | zero => exact ⟨db, rfl⟩
  | succ k ih =>
    obtain ⟨next, hrun, htracks, hqueue, hcurrent⟩ :=
      skip_follows_rows hl db (hrows ▸ hn) (by simp [hempty]) true now
    rw [playableOrder_of_empty hempty, hrows, neighbour_next] at hrun hcurrent
    set row := (currentRow rows db.getSource.currentPath + 1).toNat
    have hlt : row % rows.length < rows.length := Nat.mod_lt _ hpos
    have hat := List.getElem?_eq_getElem hlt
    rw [hat, Option.elim_some] at hcurrent
    obtain ⟨db', hrest⟩ := ih (htracks.trans hrows) (hqueue.trans hempty)
    rw [hcurrent, currentRow_of_getElem? hn hat (hset _ (List.getElem_mem hlt))] at hrest
    refine ⟨db', ?_⟩
    rw [skips, hrun]
    dsimp only
    rw [hrest, List.range_succ_eq_map, List.map_cons, List.map_map, Option.map_some, Nat.add_zero]
    congr 3
    refine List.map_congr_left fun i _ => ?_
    rw [Function.comp_apply, show ((row % rows.length : Nat) + 1 : Int).toNat + i =
      row % rows.length + (i + 1) by omega, Nat.mod_add_mod]

/-- Where each path stands once in the source, none is empty and nothing is queued, as many nexts as
the source has tracks play each of them once, from the one behind the current one on, and previous
takes a next back. -/
theorem skip_tour (hl : lib.Lists listing) (db : LibraryDb) (hrows : sourceTracks listing db = rows)
    (hn : (rows.map AudioTrack.path).Nodup) (hset : ∀ a ∈ rows, a.path ≠ "")
    (hempty : queuedTracks db = []) (now : String) (fuel : Nat) :
    (∃ db', skips lib true now (fuel + 1) rows.length db = some (db',
        (rows.rotate (currentRow rows db.getSource.currentPath + 1).toNat).map some)) ∧
      ∀ a ∈ rows, db.getSource.currentPath = a.path →
        ∃ between db' next, resolveNext lib db true none now (fuel + 1) = some (between, .ok next) ∧
          resolveNext lib between false none now (fuel + 1) = some (db', .ok (some a)) ∧
            db'.getSource.currentPath = a.path := by
  constructor
  · rcases Nat.eq_zero_or_pos rows.length with h0 | hpos
    · rw [h0, List.length_eq_zero_iff.mp h0]
      exact ⟨db, rfl⟩
    obtain ⟨db', hrun⟩ := skips_next hl hrows hn hset hempty hpos now fuel rows.length
    refine ⟨db', hrun.trans ?_⟩
    congr 2
    refine List.ext_getElem? fun i => ?_
    rw [List.getElem?_map, List.getElem?_map]
    by_cases hi : i < rows.length
    · rw [List.getElem?_range hi, List.getElem?_rotate hi, Option.map_some, Nat.add_comm i,
        List.getElem?_eq_getElem (Nat.mod_lt _ hpos)]
      rfl
    · rw [List.getElem?_eq_none (by simpa using hi),
        List.getElem?_eq_none (by simpa using hi)]
      rfl
  · intro a ha hcurrent
    obtain ⟨r, hr⟩ := List.mem_iff_getElem?.mp ha
    obtain ⟨between, hrun, htracks, hqueue, hnow⟩ :=
      skip_follows_rows hl db (hrows ▸ hn) (by simp [hempty]) true now
    obtain ⟨db', hrun', -, -, hnow'⟩ := skip_follows_rows hl between
      (by rw [htracks, hrows]; exact hn) (by rw [hqueue]; simp [hempty]) false now
    rw [playableOrder_of_empty hempty, hrows, hcurrent] at hrun hnow
    rw [playableOrder_of_empty (hqueue.trans hempty), htracks, hrows] at hrun' hnow'
    obtain ⟨hlt, -⟩ := List.getElem?_eq_some_iff.mp hr
    obtain ⟨b, hb⟩ : ∃ b, neighbour rows a.path true = some b := by
      rw [neighbour_next]
      exact ⟨_, List.getElem?_eq_getElem (Nat.mod_lt _ (by omega))⟩
    have hset' : b.path ≠ "" := by
      rw [neighbour_next] at hb
      exact hset b (List.mem_of_getElem? hb)
    rw [hb] at hrun hnow
    rw [hnow, Option.elim_some, neighbour_back hn hr (hset a ha) hset' hb] at hrun' hnow'
    exact ⟨between, db', some b, hrun fuel, hrun' fuel, hnow'⟩

/-- Three nexts from the first track of a playlist come back to it. -/
theorem skip_tour_playlist : ∃ db', skips noLibrary true "3" 1 3 threeTracks =
    some (db', [some ⟨"B", "", "/b.mp3", 2⟩, some ⟨"C", "", "/c.mp3", 3⟩,
      some ⟨"A", "", "/a.mp3", 1⟩]) := by
  obtain ⟨hrows, -, hempty, hcurrent⟩ := threeTracks_order
  obtain ⟨⟨db', hrun⟩, -⟩ := skip_tour lists_noLibrary threeTracks hrows (by decide) (by decide)
    hempty "3" 0
  have hrow : currentRow threeRows "/a.mp3" = 0 := by decide
  rw [hcurrent, hrow] at hrun
  exact ⟨db', hrun⟩

end Tour

end PlainRs.Library
