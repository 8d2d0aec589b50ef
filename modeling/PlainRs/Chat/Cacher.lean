import PlainRs.Base.Latest
import PlainRs.Chat.Chats

/-! The cache of the latest chat of each conversation. -/
namespace PlainRs.Chat

open Keyed Latest

/-- A row of the groups that the chats are joined with. -/
structure LatestRow where
  fromId : String
  toId : String
  channelId : String
  maxCreatedAt : Option String

/-- `MAX(created_at)`. -/
def maxCreatedAt (chats : List DChat) : Option String := (chats.map DChat.createdAt).max?

/-- `.. WHERE channel_id != '' GROUP BY channel_id`. -/
def latestOfChannels (chats : List DChat) : List LatestRow :=
  ((chats.filter (·.channelId ≠ "")).map DChat.channelId).dedup.map fun id =>
    ⟨"", "", id, maxCreatedAt (chats.filter (·.channelId = id))⟩

/-- `.. WHERE channel_id = '' GROUP BY from_id, to_id`. -/
def latestOfPairs (chats : List DChat) : List LatestRow :=
  ((chats.filter (·.channelId = "")).map fun c => (c.fromId, c.toId)).dedup.map fun p =>
    ⟨p.1, p.2, "", maxCreatedAt
      (chats.filter fun c => c.channelId = "" ∧ c.fromId = p.1 ∧ c.toId = p.2)⟩

/-- The condition of the join. -/
def LatestRow.joins (latest : LatestRow) (c : DChat) : Bool :=
  (c.channelId ≠ "" ∧ c.channelId = latest.channelId ∧ some c.createdAt = latest.maxCreatedAt) ∨
    (c.channelId = "" ∧ c.fromId = latest.fromId ∧ c.toId = latest.toId ∧
      some c.createdAt = latest.maxCreatedAt)

def joinLatest (chats : List DChat) : List DChat :=
  chats.flatMap fun c =>
    ((latestOfChannels chats ++ latestOfPairs chats).filter (·.joins c)).map fun _ => c

/-- What `get_all_latest_chats` may answer; the order of chats of one time is left to SQLite. -/
def GetAllLatestChats (chats : Table DChat DChat.id) (latestChats : List DChat) : Prop :=
  latestChats.Perm (joinLatest chats.rows) ∧
    latestChats.Pairwise fun a b => b.createdAt ≤ a.createdAt

/-- The conversation that `load` counts a chat to. -/
def chatIdOf (peerIds channelIds : List String) (chat : DChat) : Option String :=
  if chat.channelId ≠ "" ∧ chat.channelId ∈ channelIds then some chat.channelId
  else if (chat.fromId = "me" ∧ chat.toId = "local") ∨ (chat.fromId = "local" ∧ chat.toId = "me") then
    some "local"
  else if chat.fromId = "me" ∧ chat.toId ∈ peerIds then some chat.toId
  else if chat.toId = "me" ∧ chat.fromId ∈ peerIds then some chat.fromId
  else none

def peerIds (db : ChatDb) : List String := db.getPeers.map DPeer.id

def channelIds (db : ChatDb) : List String := db.channels.rows.map DChannel.id

/-- The map of the cache. -/
def load (db : ChatDb) (latestChats : List DChat) : String → Option DChat :=
  latestChats.foldl (keep (chatIdOf (peerIds db) (channelIds db)) DChat.updatedAt) fun _ => none

def getLatestChat (cache : String → Option DChat) (chatId : String) : Option DChat := cache chatId

/-- A conversation as a user sees it. -/
inductive Conversation
  | channel (id : String)
  | peer (id : String)
  | notes

namespace Conversation

/-- What the cache knows it by. -/
def chatId : Conversation → String
  | channel id => id
  | peer id => id
  | notes => "local"

def Known (db : ChatDb) : Conversation → Prop
  | channel id => id ∈ channelIds db
  | peer id => id ∈ peerIds db
  | notes => True

/-- The chat goes from this device to the other, or back. -/
def Between (id : String) (c : DChat) : Prop :=
  (c.fromId = "me" ∧ c.toId = id) ∨ (c.fromId = id ∧ c.toId = "me")

/-- A chat of a known channel is of no other conversation. -/
def Has (db : ChatDb) (c : DChat) : Conversation → Prop
  | channel id => c.channelId = id ∧ id ≠ ""
  | peer id => ¬ (c.channelId ≠ "" ∧ c.channelId ∈ channelIds db) ∧ Between id c
  | notes => ¬ (c.channelId ≠ "" ∧ c.channelId ∈ channelIds db) ∧ Between "local" c

end Conversation

/-- No chat of its channel, or of its sender and receiver, was created later. -/
def LastCreated (chats : List DChat) (c : DChat) : Prop :=
  ∀ d ∈ chats, d.channelId = c.channelId →
    (c.channelId = "" → d.fromId = c.fromId ∧ d.toId = c.toId) → d.createdAt ≤ c.createdAt

variable {db : ChatDb} {chats : Table DChat DChat.id} {rows latestChats : List DChat} {c d : DChat}
  {u v : Conversation} {k : String}

theorem some_eq_maxCreatedAt (hc : c ∈ rows) :
    some c.createdAt = maxCreatedAt rows ↔ ∀ d ∈ rows, d.createdAt ≤ c.createdAt := by
  rw [maxCreatedAt, eq_comm, List.max?_eq_some_iff]
  constructor
  · intro h d hd
    exact h.2 _ (List.mem_map_of_mem hd)
  · intro h
    refine ⟨List.mem_map_of_mem hc, fun t ht => ?_⟩
    obtain ⟨d, hd, rfl⟩ := List.mem_map.mp ht
    exact h d hd

theorem mem_joinLatest : c ∈ joinLatest rows ↔ c ∈ rows ∧
    ((∃ l ∈ latestOfChannels rows, l.joins c = true) ∨
      ∃ l ∈ latestOfPairs rows, l.joins c = true) := by
  simp only [joinLatest, List.mem_flatMap, List.mem_map, List.mem_filter, List.mem_append]
  constructor
  · rintro ⟨e, he, l, ⟨hl | hl, hjoin⟩, rfl⟩
    · exact ⟨he, .inl ⟨l, hl, hjoin⟩⟩
    · exact ⟨he, .inr ⟨l, hl, hjoin⟩⟩
  · rintro ⟨hc, ⟨l, hl, hjoin⟩ | ⟨l, hl, hjoin⟩⟩
    · exact ⟨c, hc, l, ⟨.inl hl, hjoin⟩, rfl⟩
    · exact ⟨c, hc, l, ⟨.inr hl, hjoin⟩, rfl⟩

/-- A chat of a channel is joined with the group of the channel alone. -/
theorem mem_joinLatest_channel (hc : c ∈ rows) (hch : c.channelId ≠ "") :
    c ∈ joinLatest rows ↔ LastCreated rows c := by
  have hgroup : some c.createdAt = maxCreatedAt (rows.filter (·.channelId = c.channelId)) ↔
      LastCreated rows c := by
    rw [some_eq_maxCreatedAt (List.mem_filter.mpr ⟨hc, by simp⟩)]
    constructor
    · intro h d hd hdc _
      exact h d (List.mem_filter.mpr ⟨hd, by simpa using hdc⟩)
    · intro h d hd
      obtain ⟨hd, hdc⟩ := List.mem_filter.mp hd
      exact h d hd (of_decide_eq_true hdc) fun h0 => absurd h0 hch
  rw [mem_joinLatest, ← hgroup, and_iff_right hc]
  constructor
  · rintro (⟨l, hl, hjoin⟩ | ⟨l, hl, hjoin⟩)
    · obtain ⟨id, -, rfl⟩ := List.mem_map.mp hl
      rcases of_decide_eq_true hjoin with ⟨-, hid, hmax⟩ | ⟨h0, -⟩
      · subst hid
        exact hmax
      · exact absurd h0 hch
    · obtain ⟨p, -, rfl⟩ := List.mem_map.mp hl
      rcases of_decide_eq_true hjoin with ⟨-, hid, -⟩ | ⟨h0, -⟩
      · exact absurd hid hch
      · exact absurd h0 hch
  · intro hmax
    refine .inl ⟨_, List.mem_map_of_mem (a := c.channelId) ?_, ?_⟩
    · rw [List.mem_dedup]
      exact List.mem_map_of_mem (List.mem_filter.mpr ⟨hc, by simpa using hch⟩)
    · exact decide_eq_true (.inl ⟨hch, rfl, hmax⟩)

/-- A chat that names a sender or a receiver is joined with the group of the two alone. -/
theorem mem_joinLatest_pair (hc : c ∈ rows) (hch : c.channelId = "")
    (hids : c.fromId ≠ "" ∨ c.toId ≠ "") : c ∈ joinLatest rows ↔ LastCreated rows c := by
  have hgroup : some c.createdAt = maxCreatedAt (rows.filter fun d =>
      d.channelId = "" ∧ d.fromId = c.fromId ∧ d.toId = c.toId) ↔ LastCreated rows c := by
    rw [some_eq_maxCreatedAt (List.mem_filter.mpr ⟨hc, by simpa using hch⟩)]
    constructor
    · intro h d hd hdc hids
      exact h d (List.mem_filter.mpr ⟨hd, decide_eq_true ⟨hdc.trans hch, hids hch⟩⟩)
    · intro h d hd
      obtain ⟨hd, hdc⟩ := List.mem_filter.mp hd
      obtain ⟨hdc, hids⟩ := of_decide_eq_true hdc
      exact h d hd (hdc.trans hch.symm) fun _ => hids
  rw [mem_joinLatest, ← hgroup, and_iff_right hc]
  constructor
  · rintro (⟨l, hl, hjoin⟩ | ⟨l, hl, hjoin⟩)
    · obtain ⟨id, -, rfl⟩ := List.mem_map.mp hl
      rcases of_decide_eq_true hjoin with ⟨h0, -⟩ | ⟨-, hfrom, hto, -⟩
      · exact absurd hch h0
      · rcases hids with h0 | h0
        · exact absurd hfrom h0
        · exact absurd hto h0
    · obtain ⟨⟨sender, receiver⟩, -, rfl⟩ := List.mem_map.mp hl
      rcases of_decide_eq_true hjoin with ⟨h0, -⟩ | ⟨-, hfrom, hto, hmax⟩
      · exact absurd hch h0
      · have hfrom : c.fromId = sender := hfrom
        have hto : c.toId = receiver := hto
        subst hfrom hto
        exact hmax
  · intro hmax
    refine .inr ⟨_, List.mem_map_of_mem (a := (c.fromId, c.toId)) ?_, ?_⟩
    · rw [List.mem_dedup]
      refine List.mem_map_of_mem (f := fun c : DChat => (c.fromId, c.toId)) ?_
      exact List.mem_filter.mpr ⟨hc, decide_eq_true hch⟩
    · exact decide_eq_true (.inr ⟨hch, rfl, rfl, hmax⟩)

/-- A chat is counted to the conversations it is of. -/
theorem chatIdOf_of_has (hu : u.Known db) (h : u.Has db c) :
    chatIdOf (peerIds db) (channelIds db) c = some u.chatId := by
  unfold chatIdOf
  cases u with
  | channel id =>
    obtain ⟨rfl, hne⟩ := h
    exact if_pos ⟨hne, hu⟩
  | peer id =>
    obtain ⟨hch, h⟩ := h
    rw [if_neg hch]
    split
    · rename_i hlocal
      rcases h with ⟨hfrom, rfl⟩ | ⟨rfl, hto⟩
      · rcases hlocal with ⟨-, hto⟩ | ⟨hfrom', hto⟩
        · rw [hto]
          rfl
        · rw [hfrom] at hfrom'
          exact absurd hfrom' (by decide)
      · rcases hlocal with ⟨-, hto'⟩ | ⟨hfrom, -⟩
        · rw [hto] at hto'
          exact absurd hto' (by decide)
        · rw [hfrom]
          rfl
    · split
      · rename_i hme
        rcases h with ⟨-, rfl⟩ | ⟨rfl, hto⟩
        · rfl
        · rw [hto, ← hme.1]
          rfl
      · rename_i hme
        rcases h with ⟨hfrom, rfl⟩ | ⟨rfl, hto⟩
        · exact absurd ⟨hfrom, hu⟩ hme
        · exact if_pos ⟨hto, hu⟩
  | notes =>
    obtain ⟨hch, h⟩ := h
    rw [if_neg hch]
    exact if_pos h

theorem has_of_chatIdOf (h : chatIdOf (peerIds db) (channelIds db) c = some k) :
    ∃ u : Conversation, u.Known db ∧ u.chatId = k ∧ u.Has db c := by
  unfold chatIdOf at h
  split at h
  · rename_i hch
    exact ⟨.channel k, Option.some.inj h ▸ hch.2, rfl, Option.some.inj h, Option.some.inj h ▸ hch.1⟩
  · rename_i hch
    split at h
    · rename_i hlocal
      exact ⟨.notes, trivial, Option.some.inj h, hch, hlocal⟩
    · split at h
      · rename_i hme
        exact ⟨.peer k, Option.some.inj h ▸ hme.2, rfl, hch, .inl ⟨hme.1, Option.some.inj h⟩⟩
      · split at h
        · rename_i hme
          exact ⟨.peer k, Option.some.inj h ▸ hme.2, rfl, hch, .inr ⟨Option.some.inj h, hme.1⟩⟩
        · cases h

/-- Conversations that share an id and a chat have the same chats. -/
theorem has_of_shared (hid : u.chatId = v.chatId) (hu : u.Known db) (hv : v.Known db)
    (hud : u.Has db d) (hvd : v.Has db d) (hc : u.Has db c) : v.Has db c := by
  cases u with
  | channel id =>
    cases v with
    | channel id' =>
      obtain rfl : id = id' := hid
      exact hc
    | peer id' =>
      obtain ⟨rfl, hne⟩ := hud
      exact absurd ⟨hne, hu⟩ hvd.1
    | notes =>
      obtain ⟨rfl, hne⟩ := hud
      exact absurd ⟨hne, hu⟩ hvd.1
  | peer id =>
    cases v with
    | channel id' =>
      obtain ⟨rfl, hne⟩ := hvd
      exact absurd ⟨hne, hv⟩ hud.1
    | peer id' =>
      obtain rfl : id = id' := hid
      exact hc
    | notes =>
      obtain rfl : id = "local" := hid
      exact hc
  | notes =>
    cases v with
    | channel id' =>
      obtain ⟨rfl, hne⟩ := hvd
      exact absurd ⟨hne, hv⟩ hud.1
    | peer id' =>
      obtain rfl : "local" = id' := hid
      exact hc
    | notes => exact hc

theorem mem_joinLatest_of_has (hc : c ∈ rows) (h : u.Has db c) :
    c ∈ joinLatest rows ↔ LastCreated rows c := by
  rcases eq_or_ne c.channelId "" with hch | hch
  · refine mem_joinLatest_pair hc hch ?_
    have hme : ∀ id, Conversation.Between id c → c.fromId ≠ "" ∨ c.toId ≠ "" := by
      rintro id (⟨hfrom, -⟩ | ⟨-, hto⟩)
      · exact .inl (by rw [hfrom]; decide)
      · exact .inr (by rw [hto]; decide)
    cases u with
    | channel id => exact absurd (h.1.symm.trans hch) h.2
    | peer id => exact hme _ h.2
    | notes => exact hme _ h.2
  · exact mem_joinLatest_channel hc hch

/-- Of the chats of a conversation, those created last stand in the answer. -/
theorem mem_latestChats (h : GetAllLatestChats chats latestChats) (hk : u.Has db c) :
    c ∈ latestChats ↔ c ∈ chats.rows ∧ LastCreated chats.rows c := by
  rw [h.1.mem_iff]
  constructor
  · intro hc
    have hrow := (mem_joinLatest.mp hc).1
    exact ⟨hrow, (mem_joinLatest_of_has hrow hk).mp hc⟩
  · rintro ⟨hrow, hlast⟩
    exact (mem_joinLatest_of_has hrow hk).mpr hlast

/-- A chat of the conversation that none of its chats was updated after, or nothing where it has
none. -/
def IsLatest (db : ChatDb) (chats : List DChat) (u : Conversation) : Option DChat → Prop
  | none => ∀ c ∈ chats, ¬ u.Has db c
  | some c => c ∈ chats ∧ u.Has db c ∧ ∀ d ∈ chats, u.Has db d → d.updatedAt ≤ c.updatedAt

/-- Some chat that was updated last is among those that were created last. -/
def LastIsNewest (db : ChatDb) (chats : List DChat) (u : Conversation) : Prop :=
  (∃ c ∈ chats, u.Has db c) → ∃ c ∈ chats, u.Has db c ∧ LastCreated chats c ∧
    ∀ d ∈ chats, u.Has db d → d.updatedAt ≤ c.updatedAt

/-- Conversations of one id have the same chats. -/
def IdsApart (db : ChatDb) (chats : List DChat) : Prop :=
  ∀ u v : Conversation, u.Known db → v.Known db → u.chatId = v.chatId →
    ∀ c ∈ chats, u.Has db c → v.Has db c

/-- What the cache has for a conversation is the greatest of what it is loaded from. -/
theorem greatest_load (k : String) :
    Greatest (chatIdOf (peerIds db) (channelIds db)) DChat.updatedAt latestChats k
      (getLatestChat (load db latestChats) k) := greatest_foldl

theorem idsApart_of_isLatest (h : ∀ u : Conversation, u.Known db →
      IsLatest db chats.rows u (getLatestChat (load db latestChats) u.chatId)) :
    IdsApart db chats.rows := by
  intro u v hu hv hid c hc huc
  have hlu := h u hu
  have hlv := h v hv
  rw [← hid] at hlv
  cases hget : getLatestChat (load db latestChats) u.chatId with
  | none =>
    rw [hget] at hlu
    exact absurd huc (hlu c hc)
  | some d =>
    rw [hget] at hlu hlv
    exact has_of_shared hid hu hv hlu.2.1 hlv.2.1 huc

theorem lastIsNewest_of_isLatest (hanswer : GetAllLatestChats chats latestChats)
    (h : IsLatest db chats.rows u (getLatestChat (load db latestChats) u.chatId)) :
    LastIsNewest db chats.rows u := by
  rintro ⟨c, hc, huc⟩
  have hgreatest : Greatest (chatIdOf (peerIds db) (channelIds db)) DChat.updatedAt latestChats
      u.chatId (getLatestChat (load db latestChats) u.chatId) := greatest_load _
  cases hget : getLatestChat (load db latestChats) u.chatId with
  | none =>
    rw [hget] at h
    exact absurd huc (h c hc)
  | some d =>
    rw [hget] at h hgreatest
    obtain ⟨hd, hud, hmax⟩ := h
    exact ⟨d, hd, hud, ((mem_latestChats hanswer hud).mp hgreatest.1).2, hmax⟩

theorem isLatest_of_lastIsNewest (hanswer : GetAllLatestChats chats latestChats)
    (hapart : IdsApart db chats.rows) (hnewest : LastIsNewest db chats.rows u) (hu : u.Known db) :
    IsLatest db chats.rows u (getLatestChat (load db latestChats) u.chatId) := by
  have hgreatest : Greatest (chatIdOf (peerIds db) (channelIds db)) DChat.updatedAt latestChats
      u.chatId (getLatestChat (load db latestChats) u.chatId) := greatest_load _
  cases hget : getLatestChat (load db latestChats) u.chatId with
  | none =>
    rw [hget] at hgreatest
    intro c hc huc
    obtain ⟨d, hd, hud, hlast, -⟩ := hnewest ⟨c, hc, huc⟩
    exact hgreatest d ((mem_latestChats hanswer hud).mpr ⟨hd, hlast⟩) (chatIdOf_of_has hu hud)
  | some d =>
    rw [hget] at hgreatest
    obtain ⟨hd, hkey, hmax⟩ := hgreatest
    obtain ⟨v, hv, hid, hvd⟩ := has_of_chatIdOf hkey
    have hdrow := ((mem_latestChats hanswer hvd).mp hd).1
    have hud := hapart v u hv hu hid d hdrow hvd
    obtain ⟨e, he, hue, hlast, hnew⟩ := hnewest ⟨d, hdrow, hud⟩
    refine ⟨hdrow, hud, fun c hc huc => (hnew c hc huc).trans ?_⟩
    exact hmax e ((mem_latestChats hanswer hue).mpr ⟨he, hlast⟩) (chatIdOf_of_has hu hue)

def note (id createdAt updatedAt : String) : DChat :=
  { DChat.new createdAt id "me" "local" "" "{}" with updatedAt := updatedAt }

def noConversations : ChatDb := ⟨.empty, .empty⟩

/-- The first note was sent again after the second was written. -/
def twoNotes : Table DChat DChat.id where
  rows := [note "a" "2026-01-01T10:00:00Z" "2026-01-01T10:02:00Z",
    note "b" "2026-01-01T10:01:00Z" "2026-01-01T10:01:00Z"]
  nodup := by decide

theorem getAllLatestChats_twoNotes :
    GetAllLatestChats twoNotes [note "b" "2026-01-01T10:01:00Z" "2026-01-01T10:01:00Z"] := by
  have hjoin : joinLatest twoNotes.rows =
      [note "b" "2026-01-01T10:01:00Z" "2026-01-01T10:01:00Z"] := by
    decide +kernel
  refine ⟨?_, List.pairwise_singleton ..⟩
  rw [hjoin]

def oneNote : Table DChat DChat.id where
  rows := [note "b" "2026-01-01T10:01:00Z" "2026-01-01T10:01:00Z"]
  nodup := by decide

end PlainRs.Chat
