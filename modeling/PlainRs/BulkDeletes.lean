import PlainRs.Chat.Chats
import PlainRs.Library.AudioQueue

/-! Deletions of many paths or chats at once, against the limit on statement parameters. -/
namespace PlainRs

open Keyed

section Paths

open Library

variable {db : LibraryDb} {paths : List String}

/-- Nothing in the audio tables has one of the paths any more. -/
structure PathsGone (db : LibraryDb) (paths : List String) : Prop where
  queue : ∀ q ∈ db.queueItems.rows, q.path ∉ paths
  history : ∀ h ∈ db.history.rows, h.path ∉ paths
  playlists : ∀ i ∈ db.playlistItemRows.rows, i.audioPath ∉ paths
  current : db.getSource.currentPath ≠ "" → db.getSource.currentPath ∉ paths

/-- No stored row has one of the paths. -/
def NoneStored (db : LibraryDb) (paths : List String) : Prop :=
  (∀ q ∈ db.queueItems.rows, q.path ∉ paths) ∧ (∀ h ∈ db.history.rows, h.path ∉ paths) ∧
    ∀ i ∈ db.playlistItemRows.rows, i.audioPath ∉ paths

/-- What `remove_paths` does to each table; the current track is let go in any case. -/
theorem removePaths_tables (db : LibraryDb) (h : paths ≠ []) :
    (removePaths db paths).queueItems = db.queueItems.deleteIn QueueItem.path paths ∧
      (removePaths db paths).history = db.history.deleteIn PlayHistory.path paths ∧
      (removePaths db paths).playlistItemRows =
        db.playlistItemRows.deleteIn PlaylistItem.audioPath paths ∧
      ((removePaths db paths).getSource.currentPath ≠ "" →
        (removePaths db paths).getSource.currentPath ∉ paths) := by
  simp only [removePaths, if_neg h]
  split
  · exact ⟨rfl, rfl, rfl, fun hne => absurd rfl hne⟩
  · next hcur => exact ⟨rfl, rfl, rfl, fun hne hmem => hcur ⟨hne, hmem⟩⟩

theorem removePaths_gone_iff :
    PathsGone (removePaths db paths) paths ↔
      paths.length ≤ maxVariableNumber ∨ NoneStored db paths := by
  by_cases hp : paths = []
  · subst hp
    exact iff_of_true ⟨by simp, by simp, by simp, by simp⟩ (.inl (Nat.zero_le _))
  obtain ⟨hq, hh, hi, hc⟩ := removePaths_tables db hp
  have hqueue := Table.deleteIn_clears_iff db.queueItems QueueItem.path paths
  have hhistory := Table.deleteIn_clears_iff db.history PlayHistory.path paths
  have hitems := Table.deleteIn_clears_iff db.playlistItemRows PlaylistItem.audioPath paths
  constructor
  · intro hg
    by_cases hl : paths.length ≤ maxVariableNumber
    · exact .inl hl
    · refine .inr ⟨?_, ?_, ?_⟩
      · exact (hqueue.mp (hq ▸ hg.queue)).resolve_left hl
      · exact (hhistory.mp (hh ▸ hg.history)).resolve_left hl
      · exact (hitems.mp (hi ▸ hg.playlists)).resolve_left hl
  · intro hs
    refine ⟨?_, ?_, ?_, hc⟩
    · exact hq ▸ hqueue.mpr (hs.imp_right fun h => h.1)
    · exact hh ▸ hhistory.mpr (hs.imp_right fun h => h.2.1)
    · exact hi ▸ hitems.mpr (hs.imp_right fun h => h.2.2)

end Paths

section Chats

open Chat

variable {m : Messenger} {query : String}

/-- No chat with one of the ids is left. -/
def ChatsGone (m : Messenger) (ids : List String) : Prop := ∀ c ∈ m.chats.rows, c.id ∉ ids

theorem deleteChatItems_gone_iff :
    ((m.deleteChatItems query).2.2.isSome →
        ChatsGone (m.deleteChatItems query).1 (m.resolveChatIds query)) ↔
      (m.resolveChatIds query).length ≤ maxVariableNumber ∨
        ChatsGone m (m.resolveChatIds query) := by
  by_cases hids : m.resolveChatIds query = []
  · exact iff_of_true (fun _ => by simp [ChatsGone, hids]) (.inl (by simp [hids]))
  · have hdel : m.deleteChatItems query = (m.deleteChatsByIds (m.resolveChatIds query),
        ((m.resolveChatIds query).length : Int).bmod (2 ^ 32),
        some ("ids=" ++ ",".intercalate (m.resolveChatIds query))) := if_neg hids
    rw [hdel, Option.isSome_some, forall_prop_of_true rfl, Messenger.deleteChatsByIds]
    simp only [ChatsGone]
    rw [Table.deleteIn_clears_iff]

end Chats

open Library Chat

/-- A bulk deletion takes everything it was given just when its statement is not refused, or there
was nothing to take. -/
theorem bulk_deletes_complete_iff (db : LibraryDb) (paths : List String) (m : Messenger)
    (query : String) :
    (PathsGone (removePaths db paths) paths ↔
      paths.length ≤ maxVariableNumber ∨ NoneStored db paths) ∧
    (((m.deleteChatItems query).2.2.isSome →
        ChatsGone (m.deleteChatItems query).1 (m.resolveChatIds query)) ↔
      (m.resolveChatIds query).length ≤ maxVariableNumber ∨
        ChatsGone m (m.resolveChatIds query)) :=
  ⟨removePaths_gone_iff, deleteChatItems_gone_iff⟩

/-- With one path more than a statement binds, the queue keeps the track. -/
theorem removePaths_refused :
    ¬ PathsGone
      (removePaths (enqueue LibraryDb.empty [⟨"A", "", "0", 1⟩] false)
        ((List.range 32767).map fun i => toString i))
      ((List.range 32767).map fun i => toString i) := by
  have hrows : (enqueue LibraryDb.empty [⟨"A", "", "0", 1⟩] false).queueItems.rows =
      [⟨"0", 0, "A", "", 1⟩] := by decide +kernel
  rw [removePaths_gone_iff]
  rintro (hl | ⟨hq, -, -⟩)
  · simp [maxVariableNumber] at hl
  · have hmem : "0" ∈ (List.range 32767).map fun i => toString i :=
      List.mem_map.mpr ⟨0, by simp, rfl⟩
    exact absurd hmem (hq ⟨"0", 0, "A", "", 1⟩ (by simp [hrows]))

end PlainRs
