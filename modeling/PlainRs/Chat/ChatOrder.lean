import PlainRs.Base.Pages
import PlainRs.Chat.ChatPages
import PlainRs.Utils.DbTimeOrder

/-! The pages of a conversation put together again, against the order in which its messages came. -/
namespace PlainRs.Chat

open Keyed Sql PlainRs.Utils

/-- `now_iso` on a clock in milliseconds. -/
def nowIso (clock : ℕ) : String := unixSecsToIso8601 (clock / 1000)

/-- A message as it is inserted: what `DChat::new` is given, its random id and its clock reading. -/
structure NewChat where
  clock : ℕ
  id : String
  fromId : String
  toId : String
  channelId : String
  content : String

def NewChat.row (c : NewChat) : DChat :=
  DChat.new (nowIso c.clock) c.id c.fromId c.toId c.channelId c.content

def insertAll (chats : Table DChat DChat.id) (news : List NewChat) : Table DChat DChat.id :=
  news.foldl (fun chats c => chats.insert c.row) chats

/-- The pages of `k` chats at offsets (m - 1) * k, ..., k, 0, one after another. -/
def pagesFromEnd (chats : Table DChat DChat.id) (id : String) (k m : ℕ) : List DChat :=
  (List.range m).reverse.flatMap fun j => getChatsPage chats id "" ((j * k : ℕ) : Int) (k : Int)

variable {chats : Table DChat DChat.id} {id : String} {news : List NewChat} {k m : ℕ}

theorem getChatsPage_all {offset limit : Int} : getChatsPage chats id "" offset limit =
    (slice limit offset (orderDesc DChat.createdAt (chats.rows.filter (targeted id)))).reverse := by
  have htrim : Text.trim "" = "" := by decide
  rw [getChatsPage, htrim]
  simp [textClause]

/-- Pages that cover the conversation are its chats from the newest on, turned round. -/
theorem pagesFromEnd_eq (hm : (chats.rows.filter (targeted id)).length ≤ m * k) :
    pagesFromEnd chats id k m =
      (orderDesc DChat.createdAt (chats.rows.filter (targeted id))).reverse := by
  simp only [pagesFromEnd, getChatsPage_all, slice_natCast, flatMap_reverse_pages]
  rw [List.take_of_length_le]
  rwa [orderDesc_perm.length_eq]

/-- Messages whose ids are new come behind the rows there are. -/
theorem rows_insertAll (hnodup : (news.map NewChat.id).Nodup)
    (hnew : ∀ c ∈ news, chats.find? c.id = none) :
    (insertAll chats news).rows = chats.rows ++ news.map NewChat.row := by
  induction news generalizing chats with
  | nil => simp [insertAll]
  | cons c news ih =>
    rw [List.map_cons, List.nodup_cons] at hnodup
    have hc : chats.find? (DChat.id c.row) = none := hnew c List.mem_cons_self
    have hrows : (chats.insert c.row).rows = chats.rows ++ [c.row] := by
      simp [Table.insert, hc]
    have hrest : ∀ d ∈ news, (chats.insert c.row).find? d.id = none := by
      intro d hd
      rw [Table.find?_insert_ne]
      · exact hnew d (List.mem_cons_of_mem _ hd)
      · intro hid
        have hmem : d.id ∈ news.map NewChat.id := List.mem_map_of_mem hd
        rw [hid] at hmem
        exact hnodup.1 hmem
    have hih := ih hnodup.2 hrest
    rw [hrows, List.append_assoc] at hih
    exact hih

/-- The messages of a conversation among those inserted. -/
def inConversation (id : String) (news : List NewChat) : List NewChat :=
  news.filter fun c => targeted id c.row

theorem nowIso_lt {s t : ℕ} (h : s / 1000 < t / 1000) (ht : t < 253402300800000) :
    nowIso s < nowIso t := unixSecsToIso8601_lt h (by omega)

/-- In clocks that never go back, before the year 10000, texts ascend just when no two readings
share a second. -/
theorem pairwise_nowIso_iff (hclock : news.Pairwise fun a b => a.clock ≤ b.clock)
    (hyear : ∀ c ∈ news, c.clock < 253402300800000) :
    (news.Pairwise fun a b => nowIso a.clock < nowIso b.clock) ↔
      news.Pairwise fun a b => a.clock / 1000 ≠ b.clock / 1000 := by
  constructor
  · refine List.Pairwise.imp fun {a b} h he => ?_
    rw [nowIso, nowIso, he] at h
    exact lt_irrefl _ h
  · intro h
    refine (List.pairwise_and_iff.mpr ⟨hclock, h⟩).imp_of_mem ?_
    rintro a b - hb ⟨hle, hne⟩
    exact nowIso_lt (by omega) (hyear b hb)

/-- The pages give the messages in order just when the texts of their seconds ascend. -/
theorem pagesFromEnd_insertAll_iff (hothers : ∀ c ∈ chats.rows, targeted id c = false)
    (hnodup : (news.map NewChat.id).Nodup) (hnew : ∀ c ∈ news, chats.find? c.id = none)
    (hm : (inConversation id news).length ≤ m * k) :
    pagesFromEnd (insertAll chats news) id k m = (inConversation id news).map NewChat.row ↔
      (inConversation id news).Pairwise fun a b => nowIso a.clock < nowIso b.clock := by
  have hrows : (insertAll chats news).rows.filter (targeted id) =
      (inConversation id news).map NewChat.row := by
    rw [rows_insertAll hnodup hnew, List.filter_append, List.filter_eq_nil_iff.mpr, List.nil_append,
      List.filter_map]
    · rfl
    · intro c hc
      simp [hothers c hc]
  have hids : ((inConversation id news).map NewChat.row).Nodup := by
    have hsub : ((inConversation id news).map NewChat.id).Nodup :=
      (List.filter_sublist.map NewChat.id).nodup hnodup
    refine List.Nodup.of_map DChat.id ?_
    rwa [List.map_map]
  rw [pagesFromEnd_eq (by rwa [hrows, List.length_map]), hrows, reverse_orderDesc_iff hids,
    List.pairwise_map]
  rfl

/-- Of messages inserted for a conversation, the pages from the last to the first give all in the
order they were inserted just when the texts of their seconds ascend; before the year 10000, when no
two of them came in one second. -/
theorem chat_pages_iff (hothers : ∀ c ∈ chats.rows, targeted id c = false)
    (hnodup : (news.map NewChat.id).Nodup) (hnew : ∀ c ∈ news, chats.find? c.id = none)
    (hclock : news.Pairwise fun a b => a.clock ≤ b.clock)
    (hm : (inConversation id news).length ≤ m * k) :
    (pagesFromEnd (insertAll chats news) id k m = (inConversation id news).map NewChat.row ↔
      (inConversation id news).Pairwise fun a b => nowIso a.clock < nowIso b.clock) ∧
    ((∀ c ∈ news, c.clock < 253402300800000) →
      (pagesFromEnd (insertAll chats news) id k m = (inConversation id news).map NewChat.row ↔
        (inConversation id news).Pairwise fun a b => a.clock / 1000 ≠ b.clock / 1000)) := by
  have hpages := pagesFromEnd_insertAll_iff hothers hnodup hnew hm
  refine ⟨hpages, fun hyear => ?_⟩
  rw [hpages]
  exact pairwise_nowIso_iff (hclock.sublist List.filter_sublist)
    fun c hc => hyear c (List.mem_filter.mp hc).1

/-- Two messages of one conversation. -/
def twoChats (clock : ℕ) : List NewChat :=
  [⟨1790000000000, "a", "me", "p1", "", "hello"⟩, ⟨clock, "b", "p1", "me", "", "hi"⟩]

theorem inConversation_twoChats (clock : ℕ) :
    inConversation "p1" (twoChats clock) = twoChats clock := by
  simp [inConversation, twoChats, NewChat.row, DChat.new, targeted, stripPrefix]

theorem targeted_empty (id : String) :
    ∀ c ∈ (Table.empty : Table DChat DChat.id).rows, targeted id c = false := nofun

theorem chat_pages_apart :
    pagesFromEnd (insertAll Table.empty (twoChats 1790000001000)) "p1" 1 2 =
      (inConversation "p1" (twoChats 1790000001000)).map NewChat.row := by
  refine ((chat_pages_iff (targeted_empty "p1") (by decide) (fun _ _ => rfl) (by decide)
    (k := 1) (m := 2) ?_).2 (by decide)).mpr ?_
  · rw [inConversation_twoChats]
    decide
  · rw [inConversation_twoChats]
    decide

/-- Half a second apart, two messages come back in the other order. -/
theorem chat_pages_one_second :
    ¬ ∀ (chats : Table DChat DChat.id) (id : String) (news : List NewChat) (k m : ℕ),
      (∀ c ∈ chats.rows, targeted id c = false) → (news.map NewChat.id).Nodup →
      (∀ c ∈ news, chats.find? c.id = none) → (news.Pairwise fun a b => a.clock ≤ b.clock) →
      0 < k → (inConversation id news).length ≤ m * k →
        pagesFromEnd (insertAll chats news) id k m = (inConversation id news).map NewChat.row := by
  intro h
  have hm : (inConversation "p1" (twoChats 1790000000500)).length ≤ 1 * 50 := by
    rw [inConversation_twoChats]
    decide
  have hpages := h Table.empty "p1" (twoChats 1790000000500) 50 1 nofun (by decide)
    (fun _ _ => rfl) (by decide) (by decide) hm
  have hascend := (pagesFromEnd_insertAll_iff (targeted_empty "p1") (by decide)
    (fun _ _ => rfl) hm).mp hpages
  rw [inConversation_twoChats] at hascend
  have hlt := List.rel_of_pairwise_cons hascend (List.mem_singleton_self _)
  exact absurd hlt (lt_irrefl _)

end PlainRs.Chat
