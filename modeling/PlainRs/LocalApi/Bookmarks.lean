import PlainRs.Base.Runs
import PlainRs.Base.Updates
import PlainRs.Base.Text

/-! Bookmarks and their groups: the tables of `chat/db/bookmark.rs`, and the mutations of
`local_api/schema/bookmark.rs`, section by section under the database's lock. -/
namespace PlainRs.LocalApi.Bookmarks

open Keyed Runs

structure DBookmark where
  id : String
  url : String
  title : String
  faviconPath : String
  groupId : String
  pinned : Bool
  clickCount : Int32
  lastClickedAt : Option String
  sortOrder : Int
  createdAt : String
  updatedAt : String
  deriving DecidableEq

def DBookmark.new (id now url groupId : String) : DBookmark where
  id := id
  url := url
  title := url
  faviconPath := ""
  groupId := groupId
  pinned := false
  clickCount := 0
  lastClickedAt := none
  sortOrder := 0
  createdAt := now
  updatedAt := now

structure DBookmarkGroup where
  id : String
  name : String
  collapsed : Bool
  sortOrder : Int
  createdAt : String
  updatedAt : String
  deriving DecidableEq

def DBookmarkGroup.new (id now name : String) : DBookmarkGroup := ⟨id, name, false, 0, now, now⟩

structure BookmarkInput where
  url : String
  title : String
  groupId : String
  pinned : Bool
  sortOrder : Int

/-- What `update_bookmark` makes of the bookmark it read. -/
def DBookmark.updated (b : DBookmark) (input : BookmarkInput) (now : String) : DBookmark :=
  { b with
    url := input.url
    title := input.title
    groupId := input.groupId
    pinned := input.pinned
    sortOrder := input.sortOrder
    updatedAt := now }

/-- What `record_bookmark_click` makes of it. -/
def DBookmark.clicked (b : DBookmark) (now : String) : DBookmark :=
  { b with clickCount := b.clickCount + 1, lastClickedAt := some now, updatedAt := now }

def DBookmark.ungrouped (b : DBookmark) (now : String) : DBookmark :=
  { b with groupId := "", updatedAt := now }

def DBookmarkGroup.updated (g : DBookmarkGroup) (name : String) (collapsed : Bool) (sortOrder : Int)
    (now : String) : DBookmarkGroup :=
  { g with name := name, collapsed := collapsed, sortOrder := sortOrder, updatedAt := now }

/-- The order of the listings: pinned first, then by `sort_order` and by age. -/
def DBookmark.before (a b : DBookmark) : Bool :=
  (a.pinned && !b.pinned) || (a.pinned == b.pinned && (a.sortOrder < b.sortOrder ||
    (a.sortOrder == b.sortOrder && a.createdAt ≤ b.createdAt)))

structure Db where
  bookmarks : Table DBookmark DBookmark.id
  groups : Table DBookmarkGroup DBookmarkGroup.id

namespace Db

variable (db : Db)

def getBookmarksByGroupId (groupId : String) : List DBookmark :=
  (db.bookmarks.rows.filter (·.groupId = groupId)).mergeSort DBookmark.before

def insertBookmark (b : DBookmark) : Db := { db with bookmarks := db.bookmarks.insert b }

/-- Every column but `id` and `created_at` is written. -/
def updateBookmark (b : DBookmark) : Db :=
  { db with
    bookmarks := db.bookmarks.modify b.id
      (fun row => { b with id := row.id, createdAt := row.createdAt }) fun _ => rfl }

def deleteBookmarks (ids : List String) : Db :=
  if ids = [] then db else { db with bookmarks := db.bookmarks.deleteIn DBookmark.id ids }

def insertBookmarkGroup (g : DBookmarkGroup) : Db := { db with groups := db.groups.insert g }

def updateBookmarkGroup (g : DBookmarkGroup) : Db :=
  { db with
    groups := db.groups.modify g.id
      (fun row => { g with id := row.id, createdAt := row.createdAt }) fun _ => rfl }

/-- Both statements under one lock. -/
def deleteBookmarkGroup (id now : String) : Db where
  bookmarks := db.bookmarks.mapRows (fun b => if b.groupId = id then b.ungrouped now else b) (by
    intro b
    split <;> rfl)
  groups := db.groups.erase id

end Db

/-- A mutation, with the ids it draws and the times it reads. -/
inductive Call
  /-- One turn of the loop of `add_bookmarks`. -/
  | addBookmark (id now url groupId : String)
  | updateBookmark (id : String) (input : BookmarkInput) (now : String)
  | deleteBookmarks (ids : List String)
  | recordBookmarkClick (id now : String)
  | createBookmarkGroup (id now name : String)
  | updateBookmarkGroup (id name : String) (collapsed : Bool) (sortOrder : Int) (now : String)
  /-- `shown` are the times that go into the event, row by row. -/
  | deleteBookmarkGroup (id now : String) (shown : ℕ → String)

/-- The turns of `add_bookmarks`. -/
def addBookmarks (ids times : ℕ → String) (urls : List String) (groupId : String) : List Call :=
  ((urls.map Text.trim).filter (· ≠ "")).mapIdx fun i url =>
    .addBookmark (ids i) (times i) url groupId

/-- A mutation between its two sections, with what it read. -/
inductive Flight
  | update (row : DBookmark) (input : BookmarkInput) (now : String)
  | click (row : DBookmark) (now : String)
  | group (row : DBookmarkGroup) (name : String) (collapsed : Bool) (sortOrder : Int) (now : String)
  | ungroup (id now : String) (shown : ℕ → String) (affected : List DBookmark)

/-- The tables, the mutations on their way, what they emitted, and the mutations that took effect,
latest first. -/
structure Store where
  db : Db
  flights : ℕ → Option Flight
  events : List (List DBookmark)
  done : List Call

inductive Action
  /-- A mutation, or its first section. -/
  | call (i : ℕ) (c : Call)
  | finish (i : ℕ)

namespace Store

variable (s : Store)

/-- `emit_bookmark_updated`. -/
def emit (items : List DBookmark) : Store :=
  if items = [] then s else { s with events := s.events ++ [items] }

def commit (c : Call) (db : Db) : Store := { s with db := db, done := c :: s.done }

def hold (i : ℕ) (f : Option Flight) : Store := { s with flights := Function.update s.flights i f }

def call (i : ℕ) (c : Call) : Store :=
  match c with
  | .addBookmark id now url groupId => s.commit c (s.db.insertBookmark (.new id now url groupId))
  | .updateBookmark id input now =>
    match s.db.bookmarks.find? id with
    | none => s.commit c s.db
    | some row => s.hold i (some (.update row input now))
  | .deleteBookmarks ids => s.commit c (s.db.deleteBookmarks ids)
  | .recordBookmarkClick id now =>
    match s.db.bookmarks.find? id with
    | none => s.commit c s.db
    | some row => s.hold i (some (.click row now))
  | .createBookmarkGroup id now name =>
    s.commit c (s.db.insertBookmarkGroup (.new id now (Text.trim name)))
  | .updateBookmarkGroup id name collapsed sortOrder now =>
    match s.db.groups.find? id with
    | none => s.commit c s.db
    | some row => s.hold i (some (.group row name collapsed sortOrder now))
  | .deleteBookmarkGroup id now shown =>
    s.hold i (some (.ungroup id now shown (s.db.getBookmarksByGroupId id)))

def write : Flight → Store
  | .update row input now =>
    (s.commit (.updateBookmark row.id input now) (s.db.updateBookmark (row.updated input now))).emit
      [row.updated input now]
  | .click row now =>
    s.commit (.recordBookmarkClick row.id now) (s.db.updateBookmark (row.clicked now))
  | .group row name collapsed sortOrder now =>
    s.commit (.updateBookmarkGroup row.id name collapsed sortOrder now)
      (s.db.updateBookmarkGroup (row.updated name collapsed sortOrder now))
  | .ungroup id now shown affected =>
    (s.commit (.deleteBookmarkGroup id now shown) (s.db.deleteBookmarkGroup id now)).emit
      (affected.mapIdx fun k b => b.ungrouped (shown k))

def next : Action → Option Store
  | .call i c => if (s.flights i).isNone then some (s.call i c) else none
  | .finish i => (s.flights i).map fun f => (s.write f).hold i none

end Store

def store (start : Db) : System Store Action where
  init s := s = ⟨start, fun _ => none, [], []⟩
  next := Store.next

/-- A mutation that is alone. -/
def exec (c : Call) (db : Db) : Db :=
  match c with
  | .addBookmark id now url groupId => db.insertBookmark (.new id now url groupId)
  | .updateBookmark id input now =>
    (db.bookmarks.find? id).elim db fun row => db.updateBookmark (row.updated input now)
  | .deleteBookmarks ids => db.deleteBookmarks ids
  | .recordBookmarkClick id now =>
    (db.bookmarks.find? id).elim db fun row => db.updateBookmark (row.clicked now)
  | .createBookmarkGroup id now name => db.insertBookmarkGroup (.new id now (Text.trim name))
  | .updateBookmarkGroup id name collapsed sortOrder now =>
    (db.groups.find? id).elim db fun row =>
      db.updateBookmarkGroup (row.updated name collapsed sortOrder now)
  | .deleteBookmarkGroup id now _ => db.deleteBookmarkGroup id now

/-- What a mutation does to the row of an id. -/
def Call.effect (id : String) : Call → Option DBookmark → Option DBookmark
  | .addBookmark id' now url groupId, row =>
    if id' = id then row.or (some (.new id' now url groupId)) else row
  | .updateBookmark id' input now, row => if id' = id then row.map (·.updated input now) else row
  | .deleteBookmarks ids, row => if ids.length ≤ maxVariableNumber ∧ id ∈ ids then none else row
  | .recordBookmarkClick id' now, row => if id' = id then row.map (·.clicked now) else row
  | .deleteBookmarkGroup g now _, row =>
    row.map fun b => if b.groupId = g then b.ungrouped now else b
  | _, row => row

def Flight.call : Flight → Call
  | .update row input now => .updateBookmark row.id input now
  | .click row now => .recordBookmarkClick row.id now
  | .group row name collapsed sortOrder now =>
    .updateBookmarkGroup row.id name collapsed sortOrder now
  | .ungroup id now shown _ => .deleteBookmarkGroup id now shown

/-- The row that is to be written back is still as it was read, or gone. -/
def Flight.Current (db : Db) : Flight → Prop
  | .update row _ _ | .click row _ => ∀ b ∈ db.bookmarks.find? row.id, b = row
  | .group row _ _ _ _ => ∀ g ∈ db.groups.find? row.id, g = row
  | .ungroup _ _ _ _ => True

/-- A bookmark that is added has an id of its own. -/
def Call.Fresh (db : Db) : Call → Prop
  | .addBookmark id _ _ _ => db.bookmarks.find? id = none
  | _ => True

/-- No other write of the row falls between a mutation's read and its write. -/
def Undisturbed (s : Store) : Action → Prop
  | .call _ c => c.Fresh s.db
  | .finish i => ∀ f ∈ s.flights i, f.Current s.db

instance (db : Db) : (f : Flight) → Decidable (f.Current db)
  | .update row _ _ | .click row _ =>
    inferInstanceAs (Decidable (∀ b ∈ db.bookmarks.find? row.id, b = row))
  | .group row _ _ _ _ => inferInstanceAs (Decidable (∀ g ∈ db.groups.find? row.id, g = row))
  | .ungroup _ _ _ _ => inferInstanceAs (Decidable True)

instance (db : Db) : (c : Call) → Decidable (c.Fresh db)
  | .addBookmark id _ _ _ => inferInstanceAs (Decidable (db.bookmarks.find? id = none))
  | .updateBookmark _ _ _ | .deleteBookmarks _ | .recordBookmarkClick _ _
  | .createBookmarkGroup _ _ _ | .updateBookmarkGroup _ _ _ _ _ | .deleteBookmarkGroup _ _ _ =>
    inferInstanceAs (Decidable True)

instance (s : Store) : (a : Action) → Decidable (Undisturbed s a)
  | .call _ c => inferInstanceAs (Decidable (c.Fresh s.db))
  | .finish i => inferInstanceAs (Decidable (∀ f ∈ s.flights i, f.Current s.db))

def Call.adds (id : String) : Call → Bool
  | .addBookmark id' _ _ _ => id' = id
  | _ => false

def Call.deletes (id : String) : Call → Bool
  | .deleteBookmarks ids => ids.length ≤ maxVariableNumber ∧ id ∈ ids
  | _ => false

/-- The mutation puts the bookmark into the group. -/
def Call.names (id g : String) : Call → Bool
  | .addBookmark id' _ _ groupId => id' = id ∧ groupId = g
  | .updateBookmark id' input _ => id' = id ∧ input.groupId = g
  | _ => false

def Call.dissolves (g : String) : Call → Bool
  | .deleteBookmarkGroup g' _ _ => g' = g
  | _ => false

def Call.creates (g : String) : Call → Bool
  | .createBookmarkGroup g' _ _ => g' = g
  | _ => false

/-- Whether a row is there after the mutations, latest first. -/
def present (adds deletes : Call → Bool) (first : Bool) : List Call → Bool
  | [] => first
  | c :: cs => adds c || (!deletes c && present adds deletes first cs)

/-- The count that the bookmark came with, and one for each click since. -/
def clicks (id : String) (start : Int32) : List Call → Int32
  | [] => start
  | .addBookmark id' _ _ _ :: cs => if id' = id then 0 else clicks id start cs
  | .recordBookmarkClick id' _ :: cs =>
    if id' = id then clicks id start cs + 1 else clicks id start cs
  | _ :: cs => clicks id start cs

/-- What the mutations, latest first, tell of the row of an id. -/
structure Told (first : Option DBookmark) (id : String) (cs : List Call) (row : Option DBookmark) :
    Prop where
  counted : ∀ b ∈ row, b.clickCount = clicks id (first.elim 0 (·.clickCount)) cs
  group : ∀ b ∈ row, ∀ g, g ≠ "" → since (Call.dissolves g) (Call.names id g) cs = true →
    b.groupId ≠ g
  deleted : since (Call.deletes id) (Call.adds id) cs = true → row = none

variable {s t : Store} {start db : Db} {c : Call} {cs : List Call} {f : Flight} {a : Action}
  {id g : String} {b row : DBookmark} {i : ℕ}

theorem updateBookmark_of_none (h : db.bookmarks.find? b.id = none) : db.updateBookmark b = db := by
  rw [Db.updateBookmark, Table.modify_of_none h]

theorem updateBookmarkGroup_of_none {group : DBookmarkGroup} (h : db.groups.find? group.id = none) :
    db.updateBookmarkGroup group = db := by
  rw [Db.updateBookmarkGroup, Table.modify_of_none h]

theorem find?_updateBookmark (new : DBookmark) (hrow : db.bookmarks.find? id = some row)
    (hid : new.id = row.id) (hcreated : new.createdAt = row.createdAt) (k : String) :
    (db.updateBookmark new).bookmarks.find? k =
      if k = id then some new else db.bookmarks.find? k := by
  have hkey : new.id = id := hid.trans (Table.key_of_find? hrow)
  rw [Db.updateBookmark]
  dsimp only
  rw [Table.find?_modify, hkey]
  by_cases hk : k = id
  · rw [if_pos hk, if_pos hk, hk, hrow, Option.map_some, ← hid, ← hcreated]
  · rw [if_neg hk, if_neg hk]

/-- A row that is read and written back at once, with its id and its `created_at`. -/
theorem find?_readWrite {f : DBookmark → DBookmark} (hid : ∀ b, (f b).id = b.id)
    (hcreated : ∀ b, (f b).createdAt = b.createdAt) (db : Db) (id k : String) :
    ((db.bookmarks.find? id).elim db fun row => db.updateBookmark (f row)).bookmarks.find? k =
      if id = k then (db.bookmarks.find? k).map f else db.bookmarks.find? k := by
  cases hrow : db.bookmarks.find? id with
  | none =>
    by_cases hk : id = k
    · subst hk
      rw [if_pos rfl, hrow]
      exact hrow
    · rw [if_neg hk]
      rfl
  | some row =>
    rw [Option.elim_some, find?_updateBookmark (f row) hrow (hid row) (hcreated row)]
    by_cases hk : k = id
    · rw [if_pos hk, if_pos hk.symm, hk, hrow, Option.map_some]
    · rw [if_neg hk, if_neg (Ne.symm hk)]

/-- Written back later, a row that is as it was read, or gone. -/
theorem updateBookmark_current {f : DBookmark → DBookmark} (hid : (f row).id = row.id)
    (hrow : ∀ b ∈ db.bookmarks.find? row.id, b = row) :
    db.updateBookmark (f row) =
      (db.bookmarks.find? row.id).elim db fun b => db.updateBookmark (f b) := by
  cases hfind : db.bookmarks.find? row.id with
  | none => exact updateBookmark_of_none (hid.symm ▸ hfind)
  | some b =>
    have hb : b = row := hrow b hfind
    rw [hb]
    rfl

/-- A mutation that is alone does to each row what it does to rows of that id. -/
theorem find?_exec (c : Call) (db : Db) (k : String) :
    (exec c db).bookmarks.find? k = c.effect k (db.bookmarks.find? k) := by
  cases c with
  | addBookmark id now url groupId =>
    rw [exec, Db.insertBookmark, Call.effect]
    dsimp only
    generalize hb : DBookmark.new id now url groupId = b
    have hid : b.id = id := by rw [← hb]; rfl
    by_cases hk : id = k
    · rw [if_pos hk, ← hk, ← hid]
      cases hrow : db.bookmarks.find? b.id with
      | none => rw [Table.find?_insert_of_none hrow, if_pos rfl, Option.none_or]
      | some row => rw [Table.insert_of_some hrow, hrow, Option.some_or]
    · rw [if_neg hk, Table.find?_insert_ne (by rw [hid]; exact Ne.symm hk)]
  | updateBookmark id input now =>
    exact find?_readWrite (f := (·.updated input now)) (fun _ => rfl) (fun _ => rfl) db id k
  | deleteBookmarks ids =>
    rw [exec, Db.deleteBookmarks, Call.effect]
    split
    · next hnil =>
      rw [if_neg]
      rintro ⟨-, hmem⟩
      rw [hnil] at hmem
      cases hmem
    · exact Table.find?_deleteIn
  | recordBookmarkClick id now =>
    exact find?_readWrite (f := (·.clicked now)) (fun _ => rfl) (fun _ => rfl) db id k
  | createBookmarkGroup id now name => rfl
  | updateBookmarkGroup id name collapsed sortOrder now =>
    rw [exec]
    cases db.groups.find? id <;> rfl
  | deleteBookmarkGroup g now shown =>
    rw [exec, Db.deleteBookmarkGroup, Call.effect, Table.find?_mapRows]

theorem emit_db (s : Store) (items : List DBookmark) : (s.emit items).db = s.db := by
  unfold Store.emit
  split <;> rfl

theorem emit_done (s : Store) (items : List DBookmark) : (s.emit items).done = s.done := by
  unfold Store.emit
  split <;> rfl

theorem write_done (s : Store) (f : Flight) : (s.write f).done = f.call :: s.done := by
  cases f with
  | update row input now => exact emit_done ..
  | click row now => rfl
  | group row name collapsed sortOrder now => rfl
  | ungroup id now shown affected => exact emit_done ..

/-- A write of a row that is as it was read, or gone, is its mutation alone. -/
theorem write_current (hf : f.Current s.db) : (s.write f).db = exec f.call s.db := by
  cases f with
  | update row input now =>
    exact (emit_db ..).trans (updateBookmark_current (f := (·.updated input now)) rfl hf)
  | click row now =>
    exact updateBookmark_current (f := (·.clicked now)) rfl hf
  | group row name collapsed sortOrder now =>
    rw [Flight.call, exec]
    change s.db.updateBookmarkGroup (row.updated name collapsed sortOrder now) = _
    cases hrow : s.db.groups.find? row.id with
    | none => exact updateBookmarkGroup_of_none hrow
    | some g =>
      have hg : g = row := hf g hrow
      rw [hg]
      rfl
  | ungroup id now shown affected => exact emit_db ..

/-- A mutation's first section takes effect, and is the whole of it, or holds what it read. -/
theorem call_cases (s : Store) (i : ℕ) (c : Call) :
    ((s.call i c).db = exec c s.db ∧ (s.call i c).done = c :: s.done) ∨
      ∃ f, s.call i c = s.hold i (some f) := by
  cases c with
  | addBookmark id now url groupId => exact .inl ⟨rfl, rfl⟩
  | deleteBookmarks ids => exact .inl ⟨rfl, rfl⟩
  | createBookmarkGroup id now name => exact .inl ⟨rfl, rfl⟩
  | updateBookmark id input now =>
    rw [Store.call, exec]
    cases s.db.bookmarks.find? id with
    | none => exact .inl ⟨rfl, rfl⟩
    | some row => exact .inr ⟨_, rfl⟩
  | recordBookmarkClick id now =>
    rw [Store.call, exec]
    cases s.db.bookmarks.find? id with
    | none => exact .inl ⟨rfl, rfl⟩
    | some row => exact .inr ⟨_, rfl⟩
  | updateBookmarkGroup id name collapsed sortOrder now =>
    rw [Store.call, exec]
    cases s.db.groups.find? id with
    | none => exact .inl ⟨rfl, rfl⟩
    | some row => exact .inr ⟨_, rfl⟩
  | deleteBookmarkGroup g now shown => exact .inr ⟨_, rfl⟩

/-- A step holds what a mutation read, or has the tables changed by one mutation: by all of it at
once, or by what it read before. -/
theorem step_cases (ht : s.next a = some t) :
    (t.db = s.db ∧ t.done = s.done) ∨
    (∃ i c, a = .call i c ∧ t.db = exec c s.db ∧ t.done = c :: s.done) ∨
    ∃ i f, a = .finish i ∧ f ∈ s.flights i ∧ t.db = (s.write f).db ∧ t.done = f.call :: s.done := by
  cases a with
  | call i c =>
    change (if (s.flights i).isNone then some (s.call i c) else none) = some t at ht
    split at ht
    · cases ht
      rcases call_cases s i c with ⟨hdb, hdone⟩ | ⟨f, hhold⟩
      · exact .inr (.inl ⟨i, c, rfl, hdb, hdone⟩)
      · rw [hhold]
        exact .inl ⟨rfl, rfl⟩
    · cases ht
  | finish i =>
    obtain ⟨f, hf, rfl⟩ := Option.map_eq_some_iff.mp ht
    exact .inr (.inr ⟨i, f, rfl, hf, rfl, write_done s f⟩)

theorem since_cons_iff {Q E : Call → Bool} :
    since Q E (c :: cs) = true ↔ Q c = true ∨ (E c = false ∧ since Q E cs = true) := by
  simp [since]

section Rows

variable {first o : Option DBookmark}

theorem told_start : Told first id [] first := by
  refine ⟨?_, ?_, ?_⟩
  · intro b hb
    cases hb
    rfl
  · intro b hb g hg hsince
    cases hsince
  · intro hsince
    cases hsince

/-- A mutation that leaves the row, and says nothing of it. -/
theorem Told.of_same (h : Told first id cs o)
    (hclicks : clicks id (first.elim 0 (·.clickCount)) (c :: cs) =
      clicks id (first.elim 0 (·.clickCount)) cs)
    (hdissolves : ∀ g, c.dissolves g = false) (hdeletes : c.deletes id = false) :
    Told first id (c :: cs) o := by
  refine ⟨?_, ?_, ?_⟩
  · intro b hb
    rw [hclicks]
    exact h.counted b hb
  · intro b hb g hg hsince
    rcases since_cons_iff.mp hsince with hc | ⟨-, hcs⟩
    · rw [hdissolves] at hc
      cases hc
    · exact h.group b hb g hg hcs
  · intro hsince
    rcases since_cons_iff.mp hsince with hc | ⟨-, hcs⟩
    · rw [hdeletes] at hc
      cases hc
    · exact h.deleted hcs

theorem told_add {k now url groupId : String} (h : Told first id cs o)
    (hfresh : k = id → o = none) :
    Told first id (.addBookmark k now url groupId :: cs)
      ((Call.addBookmark k now url groupId).effect id o) := by
  rw [Call.effect]
  by_cases hid : k = id
  · rw [if_pos hid, hfresh hid, Option.none_or]
    refine ⟨?_, ?_, ?_⟩
    · intro x hx
      cases hx
      rw [clicks, if_pos hid]
      rfl
    · intro x hx g hg hsince
      cases hx
      rcases since_cons_iff.mp hsince with hc | ⟨hnames, -⟩
      · cases hc
      · simpa [Call.names, hid, DBookmark.new] using hnames
    · intro hsince
      rcases since_cons_iff.mp hsince with hc | ⟨hadds, -⟩
      · cases hc
      · simp [Call.adds, hid] at hadds
  · rw [if_neg hid]
    refine h.of_same ?_ (fun _ => rfl) rfl
    rw [clicks, if_neg hid]

theorem told_update {input : BookmarkInput} {now : String} {k : String} (h : Told first id cs o) :
    Told first id (.updateBookmark k input now :: cs)
      ((Call.updateBookmark k input now).effect id o) := by
  rw [Call.effect]
  by_cases hid : k = id
  · rw [if_pos hid]
    refine ⟨?_, ?_, ?_⟩
    · intro x hx
      obtain ⟨b, hb, rfl⟩ := Option.map_eq_some_iff.mp hx
      exact h.counted b hb
    · intro x hx g hg hsince
      obtain ⟨b, hb, rfl⟩ := Option.map_eq_some_iff.mp hx
      rcases since_cons_iff.mp hsince with hc | ⟨hnames, -⟩
      · cases hc
      · simpa [Call.names, hid, DBookmark.updated] using hnames
    · intro hsince
      rcases since_cons_iff.mp hsince with hc | ⟨-, hcs⟩
      · cases hc
      · rw [h.deleted hcs]
        rfl
  · rw [if_neg hid]
    exact h.of_same rfl (fun _ => rfl) rfl

theorem told_delete {ids : List String} (h : Told first id cs o) :
    Told first id (.deleteBookmarks ids :: cs) ((Call.deleteBookmarks ids).effect id o) := by
  rw [Call.effect]
  by_cases hid : ids.length ≤ maxVariableNumber ∧ id ∈ ids
  · rw [if_pos hid]
    refine ⟨?_, ?_, fun _ => rfl⟩
    · intro b hb
      cases hb
    · intro b hb
      cases hb
  · rw [if_neg hid]
    exact h.of_same rfl (fun _ => rfl) (decide_eq_false hid)

theorem told_click {k now : String} (h : Told first id cs o) :
    Told first id (.recordBookmarkClick k now :: cs)
      ((Call.recordBookmarkClick k now).effect id o) := by
  rw [Call.effect]
  by_cases hid : k = id
  · rw [if_pos hid]
    refine ⟨?_, ?_, ?_⟩
    · intro x hx
      obtain ⟨b, hb, rfl⟩ := Option.map_eq_some_iff.mp hx
      rw [clicks, if_pos hid, ← h.counted b hb]
      rfl
    · intro x hx g hg hsince
      obtain ⟨b, hb, rfl⟩ := Option.map_eq_some_iff.mp hx
      rcases since_cons_iff.mp hsince with hc | ⟨-, hcs⟩
      · cases hc
      · exact h.group b hb g hg hcs
    · intro hsince
      rcases since_cons_iff.mp hsince with hc | ⟨-, hcs⟩
      · cases hc
      · rw [h.deleted hcs]
        rfl
  · rw [if_neg hid]
    refine h.of_same ?_ (fun _ => rfl) rfl
    rw [clicks, if_neg hid]

theorem told_dissolve {k now : String} {shown : ℕ → String} (h : Told first id cs o) :
    Told first id (.deleteBookmarkGroup k now shown :: cs)
      ((Call.deleteBookmarkGroup k now shown).effect id o) := by
  rw [Call.effect]
  refine ⟨?_, ?_, ?_⟩
  · intro x hx
    obtain ⟨b, hb, rfl⟩ := Option.map_eq_some_iff.mp hx
    refine Eq.trans ?_ (h.counted b hb)
    split <;> rfl
  · intro x hx g hg hsince
    obtain ⟨b, hb, rfl⟩ := Option.map_eq_some_iff.mp hx
    by_cases hk : b.groupId = k
    · rw [if_pos hk]
      exact Ne.symm hg
    · rw [if_neg hk]
      rcases since_cons_iff.mp hsince with hc | ⟨-, hcs⟩
      · rintro rfl
        exact hk (of_decide_eq_true hc).symm
      · exact h.group b hb g hg hcs
  · intro hsince
    rcases since_cons_iff.mp hsince with hc | ⟨-, hcs⟩
    · cases hc
    · rw [h.deleted hcs]
      rfl

theorem told_effect (h : Told first id cs o)
    (hfresh : ∀ now url groupId, c = .addBookmark id now url groupId → o = none) :
    Told first id (c :: cs) (c.effect id o) := by
  cases c with
  | addBookmark k now url groupId =>
    exact told_add h fun hk => hfresh now url groupId (by rw [hk])
  | updateBookmark k input now => exact told_update h
  | deleteBookmarks ids => exact told_delete h
  | recordBookmarkClick k now => exact told_click h
  | createBookmarkGroup k now name => exact h.of_same rfl (fun _ => rfl) rfl
  | updateBookmarkGroup k name collapsed sortOrder now => exact h.of_same rfl (fun _ => rfl) rfl
  | deleteBookmarkGroup k now shown => exact told_dissolve h

end Rows

/-- Where no other write of a row falls between a mutation's read of it and its write, the tables are
what the mutations make of them one after the other: each bookmark has as many clicks as were
recorded, is in no group that was dissolved since it was last put there, and is gone if it was
deleted and not added since. -/
theorem undisturbed_in_order (h : ReachableUnder (store start) Undisturbed s) :
    s.db = s.done.foldr exec start ∧
      ∀ id, Told (start.bookmarks.find? id) id s.done (s.db.bookmarks.find? id) := by
  refine ReachableUnder.invariant (I := fun s => s.db = s.done.foldr exec start ∧
    ∀ id, Told (start.bookmarks.find? id) id s.done (s.db.bookmarks.find? id)) ?_ ?_ h
  · rintro s rfl
    exact ⟨rfl, fun id => told_start⟩
  · intro s a t ⟨hfold, htold⟩ hg ht
    rcases step_cases ht with ⟨hdb, hdone⟩ | ⟨i, c, rfl, hdb, hdone⟩ | ⟨i, f, rfl, hf, hdb, hdone⟩
    · rw [hdb, hdone]
      exact ⟨hfold, htold⟩
    · rw [hdb, hdone]
      refine ⟨by rw [List.foldr_cons, ← hfold], fun id => ?_⟩
      rw [find?_exec]
      refine told_effect (htold id) ?_
      rintro now url groupId rfl
      exact hg
    · rw [hdb, hdone, write_current (hg f hf)]
      refine ⟨by rw [List.foldr_cons, ← hfold], fun id => ?_⟩
      rw [find?_exec]
      refine told_effect (htold id) ?_
      intro now url groupId hadd
      cases f <;> cases hadd

/-- One bookmark, from two texts of which one is blank, and two clicks one after the other. -/
def twoClicks : List Action :=
  (addBookmarks (fun _ => "b") (fun _ => "1") ["  ", " u"] "").map (.call 0) ++
    [.call 0 (.recordBookmarkClick "b" "2"), .finish 0, .call 1 (.recordBookmarkClick "b" "3"),
      .finish 1]

def noBookmarks : Db := ⟨.empty, .empty⟩

theorem two_clicks_run : (((store noBookmarks).run Undisturbed ⟨noBookmarks, fun _ => none, [], []⟩
    twoClicks).any fun s => s.done.length = 3 && (s.db.bookmarks.find? "b").any fun b =>
      b.clickCount = 2) = true := by
  decide +kernel

theorem undisturbed_in_order_two : ∃ (s : Store) (b : DBookmark),
    s.db.bookmarks.find? "b" = some b ∧ b.clickCount = 2 ∧ clicks "b" 0 s.done = 2 := by
  obtain ⟨s, hs, hdemo⟩ := ReachableUnder.of_run rfl two_clicks_run
  obtain ⟨b, hb, hcount⟩ := (Option.any_eq_true _ _).mp (Bool.and_eq_true_iff.mp hdemo).2
  have htwo : b.clickCount = 2 := of_decide_eq_true hcount
  refine ⟨s, b, hb, htwo, ?_⟩
  rw [← htwo]
  exact (((undisturbed_in_order hs).2 "b").counted b hb).symm

/-- Two clicks at once. -/
def overlappingClicks : List Action :=
  [.call 0 (.addBookmark "b" "1" "u" ""), .call 0 (.recordBookmarkClick "b" "2"),
    .call 1 (.recordBookmarkClick "b" "3"), .finish 0, .finish 1]

theorem overlapping_clicks_run : (((store noBookmarks).run (fun _ _ => True)
    ⟨noBookmarks, fun _ => none, [], []⟩ overlappingClicks).any fun s => clicks "b" 0 s.done = 2 &&
      (s.db.bookmarks.find? "b").any fun b => b.clickCount = 1) = true := by
  decide +kernel

/-- Disturbed, a recorded click is lost. -/
theorem overlapping_clicks : ∃ s b, Reachable (store noBookmarks) s ∧ clicks "b" 0 s.done = 2 ∧
    s.db.bookmarks.find? "b" = some b ∧ b.clickCount = 1 := by
  obtain ⟨s, hs, hdemo⟩ := ReachableUnder.of_run rfl overlapping_clicks_run
  obtain ⟨hclicks, hrow⟩ := Bool.and_eq_true_iff.mp hdemo
  obtain ⟨b, hb, hcount⟩ := (Option.any_eq_true _ _).mp hrow
  exact ⟨s, b, hs, of_decide_eq_true hclicks, hb, of_decide_eq_true hcount⟩

section Presence

theorem isSome_updateBookmark (db : Db) (b : DBookmark) (k : String) :
    ((db.updateBookmark b).bookmarks.find? k).isSome = (db.bookmarks.find? k).isSome := by
  rw [Db.updateBookmark]
  dsimp only
  rw [Table.find?_modify]
  split
  · next hk => rw [Option.isSome_map, hk]
  · rfl

theorem isSome_updateBookmarkGroup (db : Db) (group : DBookmarkGroup) (k : String) :
    ((db.updateBookmarkGroup group).groups.find? k).isSome = (db.groups.find? k).isSome := by
  rw [Db.updateBookmarkGroup]
  dsimp only
  rw [Table.find?_modify]
  split
  · next hk => rw [Option.isSome_map, hk]
  · rfl

/-- A write changes no table's ids but by the deletion of a group. -/
theorem isSome_write (s : Store) (f : Flight) (k : String) :
    (((s.write f).db.bookmarks.find? k).isSome = (s.db.bookmarks.find? k).isSome) ∧
    (((s.write f).db.groups.find? k).isSome =
      (!f.call.dissolves k && (s.db.groups.find? k).isSome)) := by
  cases f with
  | update row input now =>
    change ((s.db.updateBookmark (row.updated input now)).bookmarks.find? k).isSome = _ ∧ _
    rw [isSome_updateBookmark]
    exact ⟨rfl, rfl⟩
  | click row now =>
    change ((s.db.updateBookmark (row.clicked now)).bookmarks.find? k).isSome = _ ∧ _
    rw [isSome_updateBookmark]
    exact ⟨rfl, rfl⟩
  | group row name collapsed sortOrder now =>
    refine ⟨rfl, ?_⟩
    exact isSome_updateBookmarkGroup s.db _ k
  | ungroup g now shown affected =>
    rw [show (s.write (.ungroup g now shown affected)).db = s.db.deleteBookmarkGroup g now from
      emit_db ..]
    refine ⟨?_, ?_⟩
    · rw [Db.deleteBookmarkGroup, Table.find?_mapRows, Option.isSome_map]
    · rw [Db.deleteBookmarkGroup, Table.find?_erase]
      by_cases hk : k = g
      · simp [hk, Flight.call, Call.dissolves]
      · simp [hk, Ne.symm hk, Flight.call, Call.dissolves]

theorem isSome_effect (c : Call) (k : String) (o : Option DBookmark) :
    (c.effect k o).isSome = (c.adds k || (!c.deletes k && o.isSome)) := by
  cases c with
  | addBookmark id now url groupId =>
    rw [Call.effect]
    by_cases hk : id = k
    · simp [hk, Call.adds]
    · simp [hk, Call.adds, Call.deletes]
  | updateBookmark id input now =>
    rw [Call.effect]
    split <;> simp [Call.adds, Call.deletes]
  | deleteBookmarks ids =>
    rw [Call.effect]
    split
    · next hk => simp [Call.adds, Call.deletes, hk]
    · next hk => simp only [Call.adds, Call.deletes, hk, decide_false, Bool.not_false,
        Bool.true_and, Bool.false_or]
  | recordBookmarkClick id now =>
    rw [Call.effect]
    split <;> simp [Call.adds, Call.deletes]
  | createBookmarkGroup id now name => simp [Call.effect, Call.adds, Call.deletes]
  | updateBookmarkGroup id name collapsed sortOrder now =>
    simp [Call.effect, Call.adds, Call.deletes]
  | deleteBookmarkGroup g now shown => simp [Call.effect, Call.adds, Call.deletes]

theorem isSome_groups_exec (c : Call) (db : Db) (k : String) :
    ((exec c db).groups.find? k).isSome =
      (c.creates k || (!c.dissolves k && (db.groups.find? k).isSome)) := by
  cases c with
  | addBookmark id now url groupId => rfl
  | updateBookmark id input now =>
    rw [exec]
    cases db.bookmarks.find? id <;> rfl
  | deleteBookmarks ids =>
    rw [exec, Db.deleteBookmarks]
    split <;> rfl
  | recordBookmarkClick id now =>
    rw [exec]
    cases db.bookmarks.find? id <;> rfl
  | createBookmarkGroup id now name =>
    rw [exec, Db.insertBookmarkGroup]
    dsimp only
    generalize hgroup : DBookmarkGroup.new id now (Text.trim name) = group
    have hid : group.id = id := by rw [← hgroup]; rfl
    by_cases hk : id = k
    · rw [← hk, ← hid]
      cases hrow : db.groups.find? group.id with
      | none => simp [Table.find?_insert_of_none hrow, Call.creates]
      | some row => simp [Table.insert_of_some hrow, hrow, Call.creates]
    · rw [Table.find?_insert_ne (by rw [hid]; exact Ne.symm hk)]
      simp [hk, Call.creates, Call.dissolves]
  | updateBookmarkGroup id name collapsed sortOrder now =>
    rw [exec]
    cases db.groups.find? id with
    | none => rfl
    | some row =>
      rw [Option.elim_some, isSome_updateBookmarkGroup]
      rfl
  | deleteBookmarkGroup g now shown =>
    rw [exec, Db.deleteBookmarkGroup, Table.find?_erase]
    by_cases hk : k = g
    · simp [hk, Call.creates, Call.dissolves]
    · simp [hk, Ne.symm hk, Call.creates, Call.dissolves]

end Presence

/-- However the mutations interleave, which rows there are is decided by the additions and deletions
alone: a write of a row read before never brings back a row that is gone. -/
theorem rows_any_order (h : Reachable (store start) s) :
    (∀ id, (s.db.bookmarks.find? id).isSome =
      present (Call.adds id) (Call.deletes id) (start.bookmarks.find? id).isSome s.done) ∧
    ∀ g, (s.db.groups.find? g).isSome =
      present (Call.creates g) (Call.dissolves g) (start.groups.find? g).isSome s.done := by
  refine Reachable.invariant (I := fun s => (∀ id, (s.db.bookmarks.find? id).isSome =
      present (Call.adds id) (Call.deletes id) (start.bookmarks.find? id).isSome s.done) ∧
    ∀ g, (s.db.groups.find? g).isSome =
      present (Call.creates g) (Call.dissolves g) (start.groups.find? g).isSome s.done) ?_ ?_ h
  · rintro s rfl
    exact ⟨fun id => rfl, fun g => rfl⟩
  · intro s a t ⟨hrows, hgroups⟩ ht
    rcases step_cases ht with ⟨hdb, hdone⟩ | ⟨i, c, rfl, hdb, hdone⟩ | ⟨i, f, rfl, hf, hdb, hdone⟩
    · rw [hdb, hdone]
      exact ⟨hrows, hgroups⟩
    · rw [hdb, hdone]
      refine ⟨fun id => ?_, fun g => ?_⟩
      · rw [find?_exec, isSome_effect, hrows id]
        rfl
      · rw [isSome_groups_exec, hgroups g]
        rfl
    · rw [hdb, hdone]
      refine ⟨fun id => ?_, fun g => ?_⟩
      · rw [(isSome_write s f id).1, hrows id, present]
        cases f <;> rfl
      · rw [(isSome_write s f g).2, hgroups g, present]
        cases f <;> rfl

/-- A click that comes back from its read after the bookmark was deleted. -/
def lateClick : List Action :=
  [.call 0 (.addBookmark "b" "1" "u" ""), .call 0 (.recordBookmarkClick "b" "2"),
    .call 1 (.deleteBookmarks ["b"]), .finish 0]

theorem late_click_run : (((store noBookmarks).run (fun _ _ => True)
    ⟨noBookmarks, fun _ => none, [], []⟩ lateClick).any fun s => s.done.length = 3 &&
      !present (Call.adds "b") (Call.deletes "b") false s.done) = true := by
  decide +kernel

theorem rows_any_order_late : ∃ s : Store, s.done.length = 3 ∧
    (s.db.bookmarks.find? "b").isSome = false := by
  obtain ⟨s, hs, hdemo⟩ := ReachableUnder.of_run rfl late_click_run
  obtain ⟨hlength, hgone⟩ := Bool.and_eq_true_iff.mp hdemo
  refine ⟨s, of_decide_eq_true hlength, ?_⟩
  rw [(rows_any_order hs).1 "b"]
  exact Bool.not_eq_true' _ ▸ hgone

end PlainRs.LocalApi.Bookmarks
