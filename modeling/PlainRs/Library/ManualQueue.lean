import PlainRs.Base.Numbered
import PlainRs.Library.AudioQueue

/-! The manual queue as enqueueing and reordering leave it. -/
namespace PlainRs.Library

open Keyed Lists

variable {db : LibraryDb} {old new items : List QueueItem} {tracks : List AudioTrack}
  {paths order : List String} {playNext : Bool} {kept : QueueItem → Prop}

/-- The queue `new` has the paths of `order` in that order, once each, under dense sort orders, and
the kept entries of `old` as they were. -/
structure Requeued (old new : List QueueItem) (order : List String) (kept : QueueItem → Prop) :
    Prop where
  order : new.map QueueItem.path = order
  unique : (new.map QueueItem.path).Nodup
  dense : Numbered QueueItem.sortOrder new
  kept : ∀ q ∈ old, kept q → .ofQueueItem q ∈ new.map AudioTrack.ofQueueItem

/-- The incoming paths by first occurrence at one end, the other old paths as they stood. -/
def enqueuedOrder (old : List QueueItem) (tracks : List AudioTrack) (playNext : Bool) :
    List String :=
  let incoming := (tracks.map AudioTrack.path).eraseDups
  let others := (old.map QueueItem.path).filter (· ∉ incoming)
  if playNext then incoming ++ others else others ++ incoming

/-- The listed paths that the queue has by first occurrence, then its other paths. -/
def reorderedOrder (old : List QueueItem) (paths : List String) : List String :=
  let listed := (paths.filter (· ∈ old.map QueueItem.path)).eraseDups
  listed ++ (old.map QueueItem.path).filter (· ∉ listed)

theorem allQueueItems_unique (db : LibraryDb) : (db.allQueueItems.map QueueItem.path).Nodup :=
  ((List.perm_insertionSort _ _).map _).nodup_iff.mpr db.queueItems.nodup

/-- A queue that stays as it is meets a demand for an order just when it stands in it, densely. -/
theorem requeued_self (order : List String) (kept : QueueItem → Prop)
    (h : (old.map QueueItem.path).Nodup) :
    Requeued old old order kept ↔
      old.map QueueItem.path = order ∧ Numbered QueueItem.sortOrder old := by
  constructor
  · intro hq
    exact ⟨hq.order, hq.dense⟩
  · rintro ⟨ho, hd⟩
    exact ⟨ho, h, hd, fun q hq _ => List.mem_map_of_mem hq⟩

section Replaced

/-- The rows that a replacement writes. -/
def renumbered (items : List QueueItem) : List QueueItem :=
  items.mapIdx fun i item => { item with sortOrder := i }

theorem numbered_renumbered : Numbered QueueItem.sortOrder (renumbered items) := by
  intro i hi
  simp [renumbered]

theorem map_renumbered {β : Type} {f : QueueItem → β}
    (hf : ∀ item order, f { item with sortOrder := order } = f item) :
    (renumbered items).map f = items.map f := by
  apply List.ext_getElem (by simp [renumbered])
  intro i _ _
  simp [renumbered, hf]

theorem replaceQueueItems_of_repeat (h : ¬ (items.map QueueItem.path).Nodup) :
    db.replaceQueueItems items = db := by
  have hr : (renumbered items).map QueueItem.path = items.map QueueItem.path :=
    map_renumbered fun _ _ => rfl
  exact dif_neg (by rw [← renumbered, hr]; exact h)

theorem allQueueItems_replace (h : (items.map QueueItem.path).Nodup) :
    (db.replaceQueueItems items).allQueueItems = renumbered items := by
  have hr : (renumbered items).map QueueItem.path = items.map QueueItem.path :=
    map_renumbered fun _ _ => rfl
  have hrows : (db.replaceQueueItems items).queueItems.rows = renumbered items := by
    rw [LibraryDb.replaceQueueItems, dif_pos (by rw [← renumbered, hr]; exact h)]
    rfl
  rw [LibraryDb.allQueueItems, hrows]
  exact numbered_renumbered.insertionSort_eq

/-- A replacement whose paths are all different is the queue afterwards. -/
theorem requeued_replace (ho : items.map QueueItem.path = order) (hn : order.Nodup)
    (hk : ∀ q ∈ old, kept q → .ofQueueItem q ∈ items.map AudioTrack.ofQueueItem) :
    Requeued old (db.replaceQueueItems items).allQueueItems order kept := by
  subst ho
  rw [allQueueItems_replace hn]
  have hpath : (renumbered items).map QueueItem.path = items.map QueueItem.path :=
    map_renumbered fun _ _ => rfl
  refine ⟨hpath, hpath ▸ hn, numbered_renumbered, ?_⟩
  rw [map_renumbered fun _ _ => rfl]
  exact hk

end Replaced

section Enqueue

/-- The rows that `enqueue` asks for. -/
def enqueuedRows (old : List QueueItem) (tracks : List AudioTrack) (playNext : Bool) :
    List QueueItem :=
  let queued := old.filter fun q => q.path ∉ tracks.map AudioTrack.path
  let rows := tracks.map fun a => ⟨a.path, 0, a.title, a.artist, a.durationSecs⟩
  if playNext then rows ++ queued else queued ++ rows

theorem enqueue_eq (h : tracks ≠ []) :
    enqueue db tracks playNext =
      db.replaceQueueItems (enqueuedRows db.allQueueItems tracks playNext) := if_neg h

theorem paths_enqueuedRows :
    (enqueuedRows old tracks playNext).map QueueItem.path =
      let incoming := tracks.map AudioTrack.path
      let others := (old.map QueueItem.path).filter (· ∉ incoming)
      if playNext then incoming ++ others else others ++ incoming := by
  cases playNext <;> simp [enqueuedRows, List.filter_map, Function.comp_def]

theorem mem_enqueuedRows {q : QueueItem} (hq : q ∈ old)
    (h : q.path ∉ tracks.map AudioTrack.path) : q ∈ enqueuedRows old tracks playNext := by
  have hf : q ∈ old.filter fun q => q.path ∉ tracks.map AudioTrack.path :=
    List.mem_filter.mpr ⟨hq, by simpa using h⟩
  cases playNext with
  | true => exact List.mem_append_right _ hf
  | false => exact List.mem_append_left _ hf

theorem nodup_enqueuedRows (tracks : List AudioTrack) (playNext : Bool)
    (h : (old.map QueueItem.path).Nodup) :
    ((enqueuedRows old tracks playNext).map QueueItem.path).Nodup ↔
      (tracks.map AudioTrack.path).Nodup := by
  rw [paths_enqueuedRows]
  cases playNext with
  | true => exact nodup_append_filter h
  | false => exact nodup_filter_append h

/-- The incoming paths already stand at the end of the queue they are asked for. -/
def StandsAt (old : List QueueItem) (tracks : List AudioTrack) (playNext : Bool) : Prop :=
  let incoming := (tracks.map AudioTrack.path).eraseDups
  if playNext then incoming <+: old.map QueueItem.path else incoming <:+ old.map QueueItem.path

theorem standsAt_iff (h : (old.map QueueItem.path).Nodup) :
    StandsAt old tracks playNext ↔ old.map QueueItem.path = enqueuedOrder old tracks playNext := by
  cases playNext with
  | true => exact prefix_iff_filter h
  | false => exact suffix_iff_filter h

theorem enqueue_requeued_iff :
    Requeued db.allQueueItems (enqueue db tracks playNext).allQueueItems
        (enqueuedOrder db.allQueueItems tracks playNext)
        (fun q => q.path ∉ tracks.map AudioTrack.path) ↔
      tracks ≠ [] ∧ (tracks.map AudioTrack.path).Nodup ∨
        Numbered QueueItem.sortOrder db.allQueueItems ∧
          StandsAt db.allQueueItems tracks playNext := by
  have hu := allQueueItems_unique db
  have hself := requeued_self (enqueuedOrder db.allQueueItems tracks playNext)
    (fun q => q.path ∉ tracks.map AudioTrack.path) hu
  rw [standsAt_iff hu, and_comm (a := Numbered _ _), ← hself]
  by_cases ht : tracks = []
  · have hsame : enqueue db tracks playNext = db := if_pos ht
    rw [hsame]
    exact ⟨.inr, fun h => h.resolve_left fun hl => hl.1 ht⟩
  · rw [enqueue_eq ht]
    have hrows := nodup_enqueuedRows tracks playNext hu
    by_cases hn : (tracks.map AudioTrack.path).Nodup
    · have horder : (enqueuedRows db.allQueueItems tracks playNext).map QueueItem.path =
          enqueuedOrder db.allQueueItems tracks playNext := by
        rw [paths_enqueuedRows, enqueuedOrder, eraseDups_of_nodup hn]
      refine ⟨fun _ => .inl ⟨ht, hn⟩, fun _ => ?_⟩
      exact requeued_replace horder (horder ▸ hrows.mpr hn) fun q hq hk =>
        List.mem_map_of_mem (mem_enqueuedRows hq hk)
    · rw [replaceQueueItems_of_repeat (hrows.not.mpr hn)]
      exact ⟨.inr, fun h => h.resolve_left fun hl => hn hl.2⟩

end Enqueue

section Reorder

/-- The rows that `reorder_queued` asks for. -/
def reorderedRows (old : List QueueItem) (paths : List String) : List QueueItem :=
  (paths.filterMap fun p => old.find? fun i => i.path = p) ++ old.filter fun i => i.path ∉ paths

theorem paths_found :
    (paths.filterMap fun p => old.find? fun i => i.path = p).map QueueItem.path =
      paths.filter (· ∈ old.map QueueItem.path) := by
  induction paths with
  | nil => rfl
  | cons p paths ih =>
    cases hf : old.find? fun i => i.path = p with
    | none =>
      have hp : p ∉ old.map QueueItem.path := by simpa using hf
      rw [List.filterMap_cons, hf, ih, List.filter_cons_of_neg (by simpa using hp)]
    | some q =>
      have hq : q.path = p := by simpa using List.find?_some hf
      have hp : p ∈ old.map QueueItem.path := hq ▸ List.mem_map_of_mem (List.mem_of_find?_eq_some hf)
      rw [List.filterMap_cons, hf, List.map_cons, ih, hq,
        List.filter_cons_of_pos (by simpa using hp)]

theorem paths_reorderedRows :
    (reorderedRows old paths).map QueueItem.path =
      paths.filter (· ∈ old.map QueueItem.path) ++
        (old.map QueueItem.path).filter
          (· ∉ paths.filter (· ∈ old.map QueueItem.path)) := by
  rw [reorderedRows, List.map_append, paths_found, List.filter_map]
  congr 2
  apply List.filter_congr
  intro q hq
  have hm : q.path ∈ old.map QueueItem.path := List.mem_map_of_mem hq
  simp only [Function.comp_apply, List.mem_filter, decide_eq_true_eq, hm, and_true]

theorem nodup_reorderedRows (paths : List String) (h : (old.map QueueItem.path).Nodup) :
    ((reorderedRows old paths).map QueueItem.path).Nodup ↔
      (paths.filter (· ∈ old.map QueueItem.path)).Nodup := by
  rw [paths_reorderedRows]
  exact nodup_append_filter h

theorem mem_reorderedRows {q : QueueItem} (h : (old.map QueueItem.path).Nodup) (hq : q ∈ old) :
    q ∈ reorderedRows old paths := by
  by_cases hp : q.path ∈ paths
  · refine List.mem_append_left _ (List.mem_filterMap.mpr ⟨q.path, hp, ?_⟩)
    exact (Table.find?_eq_some (T := ⟨old, h⟩)).mpr ⟨hq, rfl⟩
  · exact List.mem_append_right _ (List.mem_filter.mpr ⟨hq, by simpa using hp⟩)

/-- The listed paths that the queue has already stand at its front. -/
def Leads (old : List QueueItem) (paths : List String) : Prop :=
  (paths.filter (· ∈ old.map QueueItem.path)).eraseDups <+: old.map QueueItem.path

theorem leads_iff (h : (old.map QueueItem.path).Nodup) :
    Leads old paths ↔ old.map QueueItem.path = reorderedOrder old paths := prefix_iff_filter h

theorem reorderQueued_eq (db : LibraryDb) (h : paths ≠ []) :
    reorderQueued db paths = db ∧ db.allQueueItems = [] ∨
      reorderQueued db paths = db.replaceQueueItems (reorderedRows db.allQueueItems paths) := by
  by_cases ha : db.allQueueItems = []
  · exact .inl ⟨by simp [reorderQueued, ha], ha⟩
  · exact .inr (by simp [reorderQueued, h, ha, reorderedRows])

theorem reorder_requeued_iff :
    Requeued db.allQueueItems (reorderQueued db paths).allQueueItems
        (reorderedOrder db.allQueueItems paths) (fun _ => True) ↔
      paths ≠ [] ∧ (paths.filter (· ∈ db.allQueueItems.map QueueItem.path)).Nodup ∨
        Numbered QueueItem.sortOrder db.allQueueItems ∧ Leads db.allQueueItems paths := by
  have hu := allQueueItems_unique db
  have hself := requeued_self (reorderedOrder db.allQueueItems paths) (fun _ => True) hu
  rw [leads_iff hu, and_comm (a := Numbered _ _), ← hself]
  by_cases hp : paths = []
  · have hsame : reorderQueued db paths = db := if_pos hp
    rw [hsame]
    exact ⟨.inr, fun h => h.resolve_left fun hl => hl.1 hp⟩
  · obtain ⟨hsame, hnil⟩ | hrep := reorderQueued_eq db hp
    · have hall : Requeued db.allQueueItems db.allQueueItems
          (reorderedOrder db.allQueueItems paths) fun _ => True := by
        rw [hself, hnil]
        simp [reorderedOrder]
      rw [hsame]
      exact ⟨.inr, fun _ => hall⟩
    · rw [hrep]
      have hrows := nodup_reorderedRows paths hu
      by_cases hn : (paths.filter (· ∈ db.allQueueItems.map QueueItem.path)).Nodup
      · have horder : (reorderedRows db.allQueueItems paths).map QueueItem.path =
            reorderedOrder db.allQueueItems paths := by
          rw [paths_reorderedRows, reorderedOrder, eraseDups_of_nodup hn]
        refine ⟨fun _ => .inl ⟨hp, hn⟩, fun _ => ?_⟩
        exact requeued_replace horder (horder ▸ hrows.mpr hn) fun q hq _ =>
          List.mem_map_of_mem (mem_reorderedRows hu hq)
      · rw [replaceQueueItems_of_repeat (hrows.not.mpr hn)]
        exact ⟨.inr, fun h => h.resolve_left fun hl => hn hl.2⟩

end Reorder

/-- Enqueueing and reordering leave the queue that was asked for just when no path is repeated among
those that count, or the queue stood so before. -/
theorem manual_queue_as_asked_iff (db : LibraryDb) (tracks : List AudioTrack) (playNext : Bool)
    (paths : List String) :
    (Requeued db.allQueueItems (enqueue db tracks playNext).allQueueItems
        (enqueuedOrder db.allQueueItems tracks playNext)
        (fun q => q.path ∉ tracks.map AudioTrack.path) ↔
      tracks ≠ [] ∧ (tracks.map AudioTrack.path).Nodup ∨
        Numbered QueueItem.sortOrder db.allQueueItems ∧
          StandsAt db.allQueueItems tracks playNext) ∧
    (Requeued db.allQueueItems (reorderQueued db paths).allQueueItems
        (reorderedOrder db.allQueueItems paths) (fun _ => True) ↔
      paths ≠ [] ∧ (paths.filter (· ∈ db.allQueueItems.map QueueItem.path)).Nodup ∨
        Numbered QueueItem.sortOrder db.allQueueItems ∧ Leads db.allQueueItems paths) :=
  ⟨enqueue_requeued_iff, reorder_requeued_iff⟩

/-- A track that comes twice fails the insert: it is not queued at all. -/
theorem enqueue_repeat_refused :
    ¬ Requeued LibraryDb.empty.allQueueItems
      (enqueue LibraryDb.empty [⟨"A", "", "/a.mp3", 1⟩, ⟨"A", "", "/a.mp3", 1⟩] false).allQueueItems
      (enqueuedOrder LibraryDb.empty.allQueueItems
        [⟨"A", "", "/a.mp3", 1⟩, ⟨"A", "", "/a.mp3", 1⟩] false)
      fun q => q.path ∉ ["/a.mp3", "/a.mp3"] := by
  intro h
  exact absurd h.order (by decide +kernel)

end PlainRs.Library
