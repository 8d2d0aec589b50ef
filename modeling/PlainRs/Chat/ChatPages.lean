import PlainRs.Base.Like
import PlainRs.Chat.Chats

/-! `get_chats_page`: a page of the chats with a peer or in a channel, and the texts it can search
for. -/
namespace PlainRs.Chat

open Keyed Sql

/-- A chat in the channel or with the peer that `id` names. -/
def targeted (id : String) (chat : DChat) : Bool :=
  match stripPrefix "channel:" id with
  | some cid => chat.channelId = cid
  | none =>
    let pid := (stripPrefix "peer:" id).getD id
    chat.channelId = "" ∧ (chat.toId = pid ∨ chat.fromId = pid)

/-- What follows the literal of the text clause. -/
def orderClause : List Char := ' ' :: "ORDER BY created_at DESC LIMIT ?2 OFFSET ?3".toList

/-- The pattern of the text clause as SQLite reads it. A statement ends at a NUL, which leaves the
literal open, and a pattern of more than 50000 bytes is an error. -/
def likePattern (text : List Char) : Option (List Char) :=
  let sql := '%' :: (escapeQuotes text ++ '%' :: quote :: orderClause)
  (readLiteral (sql.takeWhile (· ≠ Char.ofNat 0))).bind fun (pattern, _) =>
    if String.utf8Len pattern ≤ 50000 then some pattern else none

/-- The test of a content by the text clause, if the statement runs. -/
def textClause (text : String) : Option (String → Bool) :=
  if text = "" then some fun _ => true
  else (likePattern text.toList).map fun pattern content => like pattern content.toList

/-- Oldest first. A statement that fails gives no rows. -/
def getChatsPage (chats : Table DChat DChat.id) (id text : String) (offset limit : Int) :
    List DChat :=
  match textClause (Text.trim text) with
  | none => []
  | some matching =>
    (slice limit offset (orderDesc DChat.createdAt
      (chats.rows.filter fun chat => targeted id chat && matching chat.content))).reverse

/-- The page of the chats whose content has the text in it. -/
def searchPage (chats : Table DChat DChat.id) (id text : String) (offset limit : Int) :
    List DChat :=
  (slice limit offset (orderDesc DChat.createdAt
    (chats.rows.filter fun chat =>
      targeted id chat && decide (Contains text.toList chat.content.toList)))).reverse

/-- No character of the text stands for others, and the text fits into a statement. -/
structure Searchable (text : String) : Prop where
  plain : Plain text.toList
  noNul : Char.ofNat 0 ∉ text.toList
  fits : String.utf8Len text.toList ≤ 49998

variable {chats : Table DChat DChat.id} {id text : String} {offset limit : Int} {t : List Char}

theorem nul_mem_escapeQuotes : Char.ofNat 0 ∈ escapeQuotes t ↔ Char.ofNat 0 ∈ t := by
  rw [escapeQuotes, List.mem_flatMap]
  constructor
  · rintro ⟨c, hc, h⟩
    split at h
    · exact absurd h (by decide)
    · rwa [List.mem_singleton.mp h]
  · intro h
    exact ⟨_, h, by decide⟩

theorem escapeQuotes_percent {rest : List Char} : '%' :: (escapeQuotes t ++ '%' :: rest) =
    escapeQuotes ('%' :: (t ++ ['%'])) ++ rest := by
  rw [escapeQuotes_cons, if_neg (by decide), escapeQuotes, escapeQuotes, List.flatMap_append]
  simp [quote]

/-- The text clause is read as the text between percent signs. -/
theorem likePattern_of_noNul (h : Char.ofNat 0 ∉ t) : likePattern t =
    if String.utf8Len t ≤ 49998 then some ('%' :: (t ++ ['%'])) else none := by
  have hnul : Char.ofNat 0 ∉ quote :: orderClause := by simp [orderClause, quote]
  have hall : ∀ c ∈ escapeQuotes ('%' :: (t ++ ['%'])) ++ quote :: orderClause,
      decide (c ≠ Char.ofNat 0) = true := by
    intro c hc
    rw [decide_eq_true_eq]
    rintro rfl
    rcases List.mem_append.mp hc with hc | hc
    · simpa [h] using nul_mem_escapeQuotes.mp hc
    · exact hnul hc
  have hlen : String.utf8Len ('%' :: (t ++ ['%'])) = String.utf8Len t + 2 := by
    rw [String.utf8Len_cons, String.utf8Len_append]
    rfl
  simp only [likePattern, escapeQuotes_percent]
  rw [List.takeWhile_eq_self_iff.mpr hall, orderClause, readLiteral_escape (by decide)]
  simp only [Option.bind_some, hlen]
  by_cases hfits : String.utf8Len t ≤ 49998
  · rw [if_pos hfits, if_pos (by omega)]
  · rw [if_neg hfits, if_neg (by omega)]

/-- A NUL ends the statement within its literal. -/
theorem likePattern_of_nul (h : Char.ofNat 0 ∈ t) : likePattern t = none := by
  obtain ⟨a, b, rfl, ha⟩ := List.eq_append_cons_of_mem h
  have hsplit : escapeQuotes (a ++ Char.ofNat 0 :: b) =
      escapeQuotes a ++ Char.ofNat 0 :: escapeQuotes b := by
    simp [escapeQuotes, quote]
  have hall : ∀ c ∈ escapeQuotes ('%' :: a), decide (c ≠ Char.ofNat 0) = true := by
    intro c hc
    rw [decide_eq_true_eq]
    rintro rfl
    simpa [ha] using nul_mem_escapeQuotes.mp hc
  have hopen : ∀ rest, '%' :: (escapeQuotes a ++ rest) = escapeQuotes ('%' :: a) ++ rest := by
    intro rest
    rw [escapeQuotes_cons, if_neg (by decide), List.cons_append]
  simp only [likePattern, hsplit, List.append_assoc, List.cons_append]
  rw [hopen, List.takeWhile_append_of_pos hall, List.takeWhile_cons_of_neg (by simp),
    List.append_nil, readLiteral_open]
  rfl

/-- The contents that the text clause lets through. -/
def accepts (text content : String) : Bool := ((textClause text).map (· content)).getD false

theorem getChatsPage_eq : getChatsPage chats id text offset limit =
    (slice limit offset (orderDesc DChat.createdAt (chats.rows.filter fun chat =>
      targeted id chat && accepts (Text.trim text) chat.content))).reverse := by
  rw [getChatsPage]
  cases h : textClause (Text.trim text) with
  | none => simp [accepts, h, orderDesc, slice]
  | some matching => simp [accepts, h]

theorem mem_orderDesc {ρ : Type} {key : ρ → String} {rows : List ρ} {r : ρ} :
    r ∈ orderDesc key rows ↔ r ∈ rows := List.mem_mergeSort

/-- Pages agree with a search just when, of the chats there are with the target, the text clause
lets through those whose content has the text in it. -/
theorem getChatsPage_eq_searchPage_iff {sought : String} :
    (∀ offset limit, getChatsPage chats id text offset limit =
        searchPage chats id sought offset limit) ↔
      ∀ chat ∈ chats.rows, targeted id chat = true →
        (accepts (Text.trim text) chat.content = true ↔
          Contains sought.toList chat.content.toList) := by
  constructor
  · intro h chat hchat htarget
    have hall := h 0 (-1)
    rw [getChatsPage_eq, searchPage] at hall
    have hmem : ∀ p : DChat → Bool,
        chat ∈ (slice (-1) 0 (orderDesc DChat.createdAt (chats.rows.filter p))).reverse ↔
          p chat = true := by
      intro p
      simp [slice, mem_orderDesc, hchat]
    have hboth := (hmem _).symm.trans ((Eq.to_iff (congrArg (chat ∈ ·) hall)).trans (hmem _))
    simpa [htarget] using hboth
  · intro h offset limit
    rw [getChatsPage_eq, searchPage]
    congr 3
    refine List.filter_congr fun chat hchat => ?_
    cases htarget : targeted id chat with
    | false => rfl
    | true =>
      rw [Bool.true_and, Bool.true_and, Bool.eq_iff_iff, decide_eq_true_eq]
      exact h chat hchat htarget

theorem accepts_of_searchable {content : String} (h : Searchable text) :
    accepts text content = true ↔ Contains text.toList content.toList := by
  rw [accepts, textClause]
  split
  · next hempty =>
    subst hempty
    exact iff_of_true rfl List.nil_infix
  · rw [likePattern_of_noNul h.noNul, if_pos h.fits]
    exact like_iff_contains h.plain

/-- A statement that does not run lets nothing through. -/
theorem accepts_of_unreadable {content : String} (hne : text ≠ "")
    (h : likePattern text.toList = none) : accepts text content = false := by
  rw [accepts, textClause, if_neg hne, h]
  rfl

theorem accepts_filled (hnul : Char.ofNat 0 ∉ text.toList)
    (hfits : String.utf8Len text.toList ≤ 49998) :
    accepts text (String.ofList (filled text.toList)) = true := by
  rw [accepts, textClause]
  split
  · rfl
  · rw [likePattern_of_noNul hnul, if_pos hfits]
    simpa using like_filled text.toList

/-- For a text that cannot be searched for, or is cut out of the one that is sought, there is a
content that is let through though the text is not in it, or the other way round. -/
theorem exists_accepts_ne {sought : String} (hpart : text.toList <:+: sought.toList)
    (h : ¬ (text = sought ∧ Searchable sought)) : ∃ content,
      ¬ (accepts text content = true ↔ Contains sought.toList content.toList) := by
  by_cases hread : Char.ofNat 0 ∉ text.toList ∧ String.utf8Len text.toList ≤ 49998
  · obtain ⟨hnul, hfits⟩ := hread
    refine ⟨String.ofList (filled text.toList), fun hiff => h ?_⟩
    have hin := hiff.mp (accepts_filled hnul hfits)
    rw [String.toList_ofList] at hin
    have hplain := plain_filled.of_contains hin
    have htext : Plain text.toList :=
      ⟨fun hc => hplain.1 (hpart.subset hc), fun hc => hplain.2 (hpart.subset hc)⟩
    rw [filled_of_plain htext] at hin
    have he := String.toList_inj.mp (hpart.eq_of_length_le hin.length_le)
    subst he
    exact ⟨rfl, htext, hnul, hfits⟩
  · have hne : text ≠ "" := by
      rintro rfl
      exact hread ⟨by simp, by simp⟩
    have hclause : likePattern text.toList = none := by
      by_cases hnul : Char.ofNat 0 ∈ text.toList
      · exact likePattern_of_nul hnul
      · rw [likePattern_of_noNul hnul, if_neg fun hfits => hread ⟨hnul, hfits⟩]
    refine ⟨sought, fun hiff => ?_⟩
    rw [accepts_of_unreadable hne hclause] at hiff
    exact absurd (hiff.mpr (contains_self _)) (by simp)

theorem trim_within (text : String) : (Text.trim text).toList <:+: text.toList := by
  rw [Text.trim, String.toList_ofList]
  have hback := List.dropWhile_suffix Text.isWhitespace
    (l := (text.toList.dropWhile Text.isWhitespace).reverse)
  have hfront := List.dropWhile_suffix Text.isWhitespace (l := text.toList)
  have hprefix : ((text.toList.dropWhile Text.isWhitespace).reverse.dropWhile
      Text.isWhitespace).reverse <+: text.toList.dropWhile Text.isWhitespace := by
    simpa using List.reverse_prefix.mpr hback
  exact hprefix.isInfix.trans hfront.isInfix

/-- A chat with a peer, of the content given. -/
def peerChat (content : String) : DChat := DChat.new "t1" "m1" "me" "p1" "" content

theorem targeted_peerChat (content : String) : targeted "p1" (peerChat content) = true := by
  simp [targeted, stripPrefix, peerChat, DChat.new]

/-- What is sought is found in every set of chats just when the text is sought as it is, plainly. -/
theorem search_iff {sought : String} (hin : (Text.trim text).toList <:+: sought.toList) :
    (∀ (chats : Table DChat DChat.id) (id : String) (offset limit : Int),
        getChatsPage chats id text offset limit = searchPage chats id sought offset limit) ↔
      Text.trim text = sought ∧ Searchable sought := by
  constructor
  · intro h
    by_contra hnot
    obtain ⟨content, hne⟩ := exists_accepts_ne hin hnot
    refine hne (getChatsPage_eq_searchPage_iff.mp (h ⟨[peerChat content], by simp⟩ "p1")
      (peerChat content) (List.mem_singleton_self _) (targeted_peerChat content))
  · rintro ⟨rfl, hs⟩ chats id offset limit
    exact getChatsPage_eq_searchPage_iff.mpr
      (fun chat _ _ => accepts_of_searchable hs) offset limit

/-- The search for a text is right in every set of chats just when no character of the trimmed text
stands for others and it fits into a statement; and for the text untrimmed, if it also has no space
around it. In one set of chats, all pages are right just when the text clause tells the chats with
the target apart as their contents do. -/
theorem chat_search_iff (text : String) :
    ((∀ (chats : Table DChat DChat.id) (id : String) (offset limit : Int),
        getChatsPage chats id text offset limit =
          searchPage chats id (Text.trim text) offset limit) ↔ Searchable (Text.trim text)) ∧
    ((∀ (chats : Table DChat DChat.id) (id : String) (offset limit : Int),
        getChatsPage chats id text offset limit = searchPage chats id text offset limit) ↔
      Text.trim text = text ∧ Searchable text) ∧
    ∀ (chats : Table DChat DChat.id) (id sought : String),
      (∀ offset limit, getChatsPage chats id text offset limit =
          searchPage chats id sought offset limit) ↔
        ∀ chat ∈ chats.rows, targeted id chat = true →
          (accepts (Text.trim text) chat.content = true ↔
            Contains sought.toList chat.content.toList) := by
  refine ⟨?_, search_iff (trim_within text), fun _ _ _ => getChatsPage_eq_searchPage_iff⟩
  rw [search_iff List.infix_rfl]
  exact and_iff_right rfl

/-- The search for 100% finds a chat that says 100. -/
theorem chat_search_percent : ¬ ∀ (chats : Table DChat DChat.id) (id text : String)
    (offset limit : Int),
    getChatsPage chats id text offset limit = searchPage chats id text offset limit := by
  intro h
  have hiff := getChatsPage_eq_searchPage_iff.mp (h ⟨[peerChat "100"], by simp⟩ "p1" "100%")
    (peerChat "100") (List.mem_singleton_self _) (targeted_peerChat "100")
  have htrim : Text.trim "100%" = "100%" := by decide
  rw [htrim] at hiff
  have haccepts : accepts "100%" (String.ofList (filled "100%".toList)) = true :=
    accepts_filled (by decide) (by decide)
  have hin := hiff.mp haccepts
  exact absurd hin.length_le (by decide)

end PlainRs.Chat
