import PlainRs.Base.Gaps
import PlainRs.Library.SourceTracks

/-! The queue read page by page, and searched. -/
namespace PlainRs.Library

section

variable (lib : LibraryTracks) (db : LibraryDb) (k : Nat)

/-- The pages at some offsets one behind the other, each from the database that the one before
left. -/
def queuePages (db : LibraryDb) : List Nat → Except LibraryError (List AudioTrack)
  | [] => .ok []
  | offset :: offsets =>
    match queuePageUnfiltered lib db offset k with
    | (_, .error e) => .error e
    | (db, .ok page) => do
      let rest ← queuePages db offsets
      pure (page ++ rest)

/-- The total, and the pages of `k` ranks that begin below it. -/
def pagedQueue : Except LibraryError (Nat × List AudioTrack) :=
  match queueTotal lib db with
  | (_, .error e) => .error e
  | (db, .ok total) => do
    let rows ← queuePages lib k db ((List.range ((total + k - 1) / k)).map (· * k))
    pure (total, rows)

end

variable {lib : LibraryTracks} {listing : String → List AudioTrack} {db db' : LibraryDb}
  {order : Order} {tracks queued : List AudioTrack} {head k : Nat}

/-- A playlist of three tracks that plays its first one. -/
def threeTracks : LibraryDb :=
  (setPlaylistSource (addPlaylistItems LibraryDb.empty "1" "p" [("i", ⟨"A", "", "/a.mp3", 1⟩),
    ("j", ⟨"B", "", "/b.mp3", 2⟩), ("k", ⟨"C", "", "/c.mp3", 3⟩)]) "2" "p" none).1

section Opened

/-- The database that was left opens to the same order again. -/
theorem Opened.next (ho : Opened lib listing db db' order) : Opened lib listing db' db' order where
  opens := ho.again
  again := ho.again
  source := ho.source
  current := by rw [ho.source]
  tracks := rfl
  queue := rfl
  manual := by rw [ho.queue, ho.manual]
  size := by rw [ho.tracks, ho.size]
  place := by
    rw [ho.tracks, ho.source, ho.current]
    exact ho.place

theorem Opened.queuedTracks_eq (ho : Opened lib listing db db' order) :
    queuedTracks db' = queuedTracks db := by rw [queuedTracks, ho.queue, queuedTracks]

/-- Where each path stands once in the source, the head ends at the current track. -/
theorem Opened.headLength_eq (ho : Opened lib listing db db' order)
    (hn : ((sourceTracks listing db).map AudioTrack.path).Nodup) :
    (order.currentPos + 1).toNat = headLength listing db := by
  unfold headLength
  by_cases hset : db.getSource.currentPath = ""
  · have hnowhere : order.currentPos = -1 := ho.place.unique hn (.nowhere (.inl hset))
    rw [if_pos hset, hnowhere]
    rfl
  · rw [if_neg hset, ho.place.unique hn (currentAt_place hset)]

theorem Opened.ranks_eq (ho : Opened lib listing db db' order)
    (hn : ((sourceTracks listing db).map AudioTrack.path).Nodup) :
    order.ranks (sourceTracks listing db) (queuedTracks db) = ranks listing db := by
  rw [Order.ranks, ho.headLength_eq hn, ranks]

end Opened

section Order

/-- What an order shows, in another order: the source without the copies, and the manual queue. -/
theorem reduceOption_ranksAt_perm (tracks queued : List AudioTrack) (head : Nat) :
    (ranksAt tracks queued head).reduceOption.Perm
      (tracks.filter (fun a => a.path ∉ queued.map AudioTrack.path) ++ queued) := by
  rw [reduceOption_ranksAt]
  conv_rhs => rw [← List.take_append_drop head tracks, List.filter_append, List.append_assoc]
  rw [List.append_assoc]
  exact List.perm_append_comm.append_left _

theorem length_shown (tracks queued : List AudioTrack) (head : Nat) :
    (ranksAt tracks queued head).reduceOption.length + ((tracks.map AudioTrack.path).filter
      (· ∈ queued.map AudioTrack.path)).length = tracks.length + queued.length := by
  have hsplit := List.length_eq_length_filter_add
    (fun a : AudioTrack => decide (a.path ∈ queued.map AudioTrack.path)) (l := tracks)
  rw [(reduceOption_ranksAt_perm tracks queued head).length_eq, List.length_append,
    List.filter_map, List.length_map]
  simp only [← decide_not, Function.comp_def] at hsplit ⊢
  omega

/-- The total counts the rows just when no path of the source that is queued stands there twice. -/
theorem length_eq_total_iff (tracks queued : List AudioTrack) (head : Nat) :
    (ranksAt tracks queued head).reduceOption.length =
        tracks.length + queued.length - (supersededPaths tracks queued).card ↔
      ((tracks.map AudioTrack.path).filter (· ∈ queued.map AudioTrack.path)).Nodup := by
  have hlen := length_shown tracks queued head
  have hcard : (supersededPaths tracks queued).card = ((tracks.map AudioTrack.path).filter
      (· ∈ queued.map AudioTrack.path)).dedup.length := List.card_toFinset _
  have hle := (List.dedup_sublist ((tracks.map AudioTrack.path).filter
    (· ∈ queued.map AudioTrack.path))).length_le
  rw [hcard, ← List.dedup_eq_self]
  constructor
  · intro h
    exact (List.dedup_sublist _).eq_of_length (by omega)
  · intro h
    rw [h]
    omega

/-- Rows that are as many as the total, each path once, come from a source with each path once. -/
theorem nodup_source_iff (hq : (queued.map AudioTrack.path).Nodup) (head : Nat) :
    (tracks.map AudioTrack.path).Nodup ↔
      (ranksAt tracks queued head).reduceOption.length =
          tracks.length + queued.length - (supersededPaths tracks queued).card ∧
        ((ranksAt tracks queued head).reduceOption.map AudioTrack.path).Nodup := by
  rw [length_eq_total_iff, ((reduceOption_ranksAt_perm tracks queued head).map _).nodup_iff,
    List.map_append]
  have hpaths : (tracks.filter fun a => a.path ∉ queued.map AudioTrack.path).map AudioTrack.path =
      (tracks.map AudioTrack.path).filter (fun x => ! decide (x ∈ queued.map AudioTrack.path)) := by
    rw [List.filter_map]
    exact congrArg _ (List.filter_congr fun a _ => decide_not)
  rw [hpaths]
  have hperm := List.filter_append_perm (fun x => decide (x ∈ queued.map AudioTrack.path))
    (tracks.map AudioTrack.path)
  constructor
  · intro hn
    refine ⟨hn.filter _, List.Nodup.append (hn.filter _) hq ?_⟩
    intro x hx hx'
    have hnot := (List.mem_filter.mp hx).2
    simp only [hx', decide_true, Bool.not_true, Bool.false_eq_true] at hnot
  · rintro ⟨hin, hout⟩
    refine hperm.nodup_iff.mp (List.Nodup.append hin (List.nodup_append.mp hout).1 ?_)
    intro x hx hx'
    have hyes := (List.mem_filter.mp hx).2
    have hnot := (List.mem_filter.mp hx').2
    rw [hyes] at hnot
    cases hnot

end Order

section Pages

theorem queuePages_eq (hl : lib.Lists listing) (ho : Opened lib listing db db order) (k : Nat)
    (offsets : List Nat) :
    queuePages lib k db offsets = .ok (offsets.flatMap fun offset =>
      (((order.ranks (sourceTracks listing db) (queuedTracks db)).drop offset).take
        k).reduceOption) := by
  induction offsets with
  | nil => rfl
  | cons offset offsets ih =>
    rw [queuePages, queuePageUnfiltered_eq hl ho]
    dsimp only
    rw [ih]
    rfl

theorem pagedQueue_eq (hl : lib.Lists listing) (ho : Opened lib listing db db' order) (k : Nat) :
    let total := (sourceTracks listing db).length + (queuedTracks db).length -
      (supersededPaths (sourceTracks listing db) (queuedTracks db)).card
    pagedQueue lib db k = .ok (total, ((order.ranks (sourceTracks listing db) (queuedTracks db)).take
      ((total + k - 1) / k * k)).reduceOption) := by
  intro total
  unfold pagedQueue
  rw [queueTotal_eq hl ho]
  dsimp only
  rw [queuePages_eq hl ho.next, ho.tracks, ho.queuedTracks_eq, List.flatMap_map]
  rw [Gaps.flatMap_chunks]
  rfl

/-- Ranks up to some end show all that the order shows just when there is nothing at the others. -/
theorem take_ranks_iff (rows : List (Option AudioTrack)) (stop : Nat) :
    (rows.take stop).reduceOption = rows.reduceOption ↔ ∀ row ∈ rows.drop stop, row = none := by
  have hsplit := List.reduceOption_append (rows.take stop) (rows.drop stop)
  rw [List.take_append_drop] at hsplit
  rw [hsplit, List.self_eq_append_right, List.reduceOption, List.filterMap_eq_nil_iff]
  rfl

/-- The pages that begin below the total make up the whole queue, each path once and as many rows as
the total says, just when each path stands once in the source and the ranks behind the last of these
pages show nothing. -/
theorem pages_whole_iff (hl : lib.Lists listing) (db : LibraryDb) (k : Nat) :
    (∃ total rows, pagedQueue lib db k = .ok (total, rows) ∧ rows = playableOrder listing db ∧
        rows.length = total ∧ (rows.map AudioTrack.path).Nodup) ↔
      ((sourceTracks listing db).map AudioTrack.path).Nodup ∧
        ∀ row ∈ (ranks listing db).drop
          (((playableOrder listing db).length + k - 1) / k * k), row = none := by
  obtain ⟨db', order, ho⟩ := exists_opened hl db
  have hrun := pagedQueue_eq hl ho k
  have hsource := @nodup_source_iff (sourceTracks listing db) _ (nodup_queuedTracks db)
    (headLength listing db)
  rw [← ranks, reduceOption_ranks] at hsource
  rw [← take_ranks_iff, reduceOption_ranks]
  constructor
  · rintro ⟨total, rows, hpaged, rfl, hlen, hpaths⟩
    obtain ⟨htotal, hrows⟩ := Prod.mk.inj (Except.ok.inj (hpaged.symm.trans hrun))
    have hn := hsource.mpr ⟨hlen.trans htotal, hpaths⟩
    rw [← htotal, ← hlen, ho.ranks_eq hn] at hrows
    exact ⟨hn, hrows.symm⟩
  · rintro ⟨hn, hrest⟩
    obtain ⟨htotal, hpaths⟩ := hsource.mp hn
    dsimp only at hrun
    rw [← htotal, ho.ranks_eq hn, hrest] at hrun
    exact ⟨_, _, hrun, rfl, rfl, hpaths⟩

def threeRows : List AudioTrack :=
  [⟨"A", "", "/a.mp3", 1⟩, ⟨"B", "", "/b.mp3", 2⟩, ⟨"C", "", "/c.mp3", 3⟩]

theorem threeTracks_order : sourceTracks (fun _ => []) threeTracks = threeRows ∧
    ranks (fun _ => []) threeTracks = threeRows.map some ∧ queuedTracks threeTracks = [] ∧
      threeTracks.getSource.currentPath = "/a.mp3" := by decide +kernel

/-- Nothing of a playlist is queued, and a page of two tracks is followed by one of the third. -/
theorem pages_whole_playlist :
    ∃ total rows, pagedQueue noLibrary threeTracks 2 = .ok (total, rows) ∧
      rows = playableOrder (fun _ => []) threeTracks ∧ rows.length = total ∧
      (rows.map AudioTrack.path).Nodup :=
  (pages_whole_iff lists_noLibrary threeTracks 2).mpr <| by
    rw [← reduceOption_ranks, threeTracks_order.1, threeTracks_order.2.1]
    exact ⟨by decide, by decide⟩

end Pages

section Search

variable {toLowercase : String → String} {needle : String} {want n i : Nat}

/-- One turn of the search, at the start of a chunk. -/
theorem matchChunk_eq (hl : lib.Lists listing) (ho : Opened lib listing db db' order)
    {R : List (Option AudioTrack)}
    (hR : R = order.ranks (sourceTracks listing db) (queuedTracks db)) {p : AudioTrack → Bool}
    (hp : p = fun a => audioMatchesText toLowercase a needle)
    (hlt : (Gaps.found R p 500 i).length < want) :
    matchChunk lib toLowercase needle want (db, Gaps.start R 500 i, Gaps.found R p 500 i) =
      if Gaps.start R 500 (i + 1) = Gaps.start R 500 i then
        .inr (db', .ok (Gaps.found R p 500 i))
      else .inl (db', Gaps.start R 500 (i + 1), Gaps.found R p 500 (i + 1)) := by
  have hpage : queuePageUnfiltered lib db (Gaps.start R 500 i) 500 =
      (db', .ok ((R.drop (Gaps.start R 500 i)).take 500).reduceOption) := by
    rw [hR]
    exact queuePageUnfiltered_eq hl ho _ 500
  have hnext : Gaps.start R 500 (i + 1) = Gaps.start R 500 i +
      ((R.drop (Gaps.start R 500 i)).take 500).reduceOption.length := rfl
  have hfound : Gaps.found R p 500 (i + 1) = Gaps.found R p 500 i ++
      ((R.drop (Gaps.start R 500 i)).take 500).reduceOption.filter p := by
    rw [Gaps.found, List.range_succ, List.flatMap_append, List.flatMap_singleton, Gaps.found]
  simp only [matchChunk]
  rw [if_pos hlt, hpage]
  dsimp only
  by_cases hempty : ((R.drop (Gaps.start R 500 i)).take 500).reduceOption = []
  · rw [if_pos hempty, if_pos (by rw [hnext, hempty, List.length_nil, Nat.add_zero])]
  · have hpos := List.length_pos_of_ne_nil hempty
    rw [if_neg hempty, if_neg (by omega), hnext, hfound, hp]
    rfl

/-- The search ends at the first chunk that shows nothing or follows enough hits. -/
theorem search_run (hl : lib.Lists listing) (ho : Opened lib listing db db' order)
    {R : List (Option AudioTrack)}
    (hR : R = order.ranks (sourceTracks listing db) (queuedTracks db)) {p : AudioTrack → Bool}
    (hp : p = fun a => audioMatchesText toLowercase a needle)
    (hn : Gaps.StopsAt R p 500 want n) (hi : i ≤ n) :
    ∃ db'', Loops.run (matchChunk lib toLowercase needle want) (n - i + 1)
      (db, Gaps.start R 500 i, Gaps.found R p 500 i) = some (db'', .ok (Gaps.found R p 500 n)) := by
  induction h : n - i generalizing i db with
  | zero =>
    obtain rfl : i = n := by omega
    rw [Loops.run]
    by_cases hwant : want ≤ (Gaps.found R p 500 i).length
    · refine ⟨db, ?_⟩
      simp only [matchChunk]
      rw [if_neg (by omega)]
    · refine ⟨db', ?_⟩
      rw [matchChunk_eq hl ho hR hp (by omega), if_pos (hn.stops.resolve_left hwant)]
  | succ turns ih =>
    have hgo := hn.goesOn i (by omega)
    rw [Loops.run, matchChunk_eq hl ho hR hp hgo.1, if_neg hgo.2]
    exact ih ho.next (by rw [ho.tracks, ho.queuedTracks_eq, hR]) (by omega) (by omega)

/-- A search ends. Where each path stands once in the source, it gives the page of the hits just when
no rows are asked for, or the page lies behind all hits and all that is found, or the chunks keep up
to the end of the page. -/
theorem search_filters_first_iff (hl : lib.Lists listing) (toLowercase : String → String)
    (db : LibraryDb) (hn : ((sourceTracks listing db).map AudioTrack.path).Nodup) (text : String)
    (hneedle : toLowercase (Text.trim text) ≠ "") (offset limit : Nat) :
    let p (a : AudioTrack) := audioMatchesText toLowercase a (toLowercase (Text.trim text))
    let matching := (playableOrder listing db).filter p
    ∃ fuel db' found, queuePage lib toLowercase db offset limit text fuel = some (db', .ok found) ∧
      (found = (matching.drop offset).take limit ↔
        limit = 0 ∨
          ((∀ n, (Gaps.found (ranks listing db) p 500 n).length ≤ offset) ∧
            matching.length ≤ offset) ∨
          Gaps.KeepsUp (ranks listing db) p 500 (offset + limit)) := by
  intro p matching
  obtain ⟨db', order, ho⟩ := exists_opened hl db
  have hranks := ho.ranks_eq hn
  obtain ⟨n, hstop⟩ := Gaps.exists_stopsAt (ranks listing db) p 500 (offset + limit)
  obtain ⟨db'', hrun⟩ := search_run (i := 0) hl ho hranks.symm
    (show p = fun a => audioMatchesText toLowercase a (toLowercase (Text.trim text)) from rfl)
    hstop (Nat.zero_le n)
  have hunique : (matching.map AudioTrack.path).Nodup := by
    have hnodup := ((nodup_source_iff (nodup_queuedTracks db) (headLength listing db)).mp hn).2
    rw [← ranks, reduceOption_ranks] at hnodup
    exact hnodup.sublist (List.filter_sublist.map _)
  have hmatching : (ranks listing db).reduceOption.filter p = matching := by
    rw [reduceOption_ranks]
  refine ⟨n - 0 + 1, db'', ((Gaps.found (ranks listing db) p 500 n).drop offset).take limit, ?_, ?_⟩
  · have hwant : (max (offset : Int) 0 + max (limit : Int) 0).toNat = offset + limit := by omega
    unfold queuePage
    simp only []
    rw [if_neg hneedle, hwant]
    have hstart : ((db, 0, []) : LibraryDb × Int × List AudioTrack) =
      (db, (Gaps.start (ranks listing db) 500 0 : Int), Gaps.found (ranks listing db) p 500 0) := rfl
    rw [hstart, hrun]
    rfl
  · rw [← hmatching]
    exact Gaps.page_found_iff (by rw [hmatching]; exact hunique.of_map _) hstop

/-- The second track of a playlist is found. -/
theorem search_filters_first_playlist : ∃ fuel db' found,
    queuePage noLibrary id threeTracks 0 1 "/b" fuel = some (db', .ok found) ∧
      found = [⟨"B", "", "/b.mp3", 2⟩] := by
  obtain ⟨fuel, db', found, hrun, hiff⟩ := search_filters_first_iff lists_noLibrary id threeTracks
    (by rw [threeTracks_order.1]; decide) "/b" (by decide) 0 1
  refine ⟨fuel, db', found, hrun, ?_⟩
  rw [← reduceOption_ranks, threeTracks_order.2.1] at hiff
  exact (hiff.mpr (.inr (.inr (Gaps.keepsUp_of_full (by decide) (by decide))))).trans (by decide)

end Search

end PlainRs.Library
