import PlainRs.Base.Overwrites
import PlainRs.Base.Statements
import PlainRs.Utils.ImageDimensions
import PlainRs.Utils.SearchDsl

/-! The tags of the library: the rows, the mutations that change them and the queries that read
them. -/
namespace PlainRs.Library

open Keyed Utils

inductive DataType
  | default | audio | video | image | sms | contact | note | feedEntry | call | package | file
  | appFile | doc
  deriving DecidableEq

/-- The ordinal that the column `type` holds. -/
def kindOf : DataType → Int
  | .default => 0
  | .audio => 1
  | .video => 2
  | .image => 3
  | .sms => 4
  | .contact => 5
  | .note => 6
  | .feedEntry => 7
  | .call => 8
  | .package => 9
  | .file => 10
  | .appFile => 11
  | .doc => 12

structure StoredTag where
  id : String
  name : String
  kind : Int

/-- A tag with the count of its relations, which no table holds. -/
structure TagRow where
  id : String
  name : String
  kind : Int
  count : Int
  deriving DecidableEq

structure TagRelationRow where
  tagId : String
  key : String
  deriving DecidableEq

/-- The tables `tags` and `tag_relations`; a relation is its own primary key. -/
structure TagDb where
  tags : Table StoredTag StoredTag.id
  relations : Table TagRelationRow id

namespace TagDb

def empty : TagDb := ⟨.empty, .empty⟩

section Queries

variable (db : TagDb)

/-- `SELECT COUNT(*)` as the subquery of a tag, cut to an `i32`. -/
def countOf (tagId : String) : Int :=
  asI32 (db.relations.rows.countP (·.tagId = tagId))

def rowToTag (t : StoredTag) : TagRow := ⟨t.id, t.name, t.kind, db.countOf t.id⟩

def tagsByType (kind : Int) : List TagRow :=
  (db.tags.rows.filter (·.kind = kind)).map db.rowToTag

def tagById (id : String) : Option TagRow := (db.tags.find? id).map db.rowToTag

/-- Relations of one key, in the order of their tags. -/
def relationsForKey (key : String) : List TagRelationRow :=
  (db.relations.rows.filter (·.key = key)).mergeSort fun a b => a.tagId ≤ b.tagId

/-- One statement for each key, which asks for no order: `scan` is the one its rows come in. -/
def relationsForKeysOfKind (scan : List TagRelationRow → List TagRelationRow) (keys : List String)
    (kind : Int) : List TagRelationRow :=
  keys.flatMap fun key => scan (db.relations.rows.filter fun r =>
    r.key = key ∧ ∃ t ∈ db.tags.find? r.tagId, t.kind = kind)

def tagsForKeyOfKind (key : String) (kind : Int) : List TagRow :=
  ((db.relationsForKey key).filterMap fun r => db.tagById r.tagId).filter (·.kind = kind)

end Queries

def insertTag (db : TagDb) (t : TagRow) : TagDb :=
  { db with tags := db.tags.insert ⟨t.id, t.name, t.kind⟩ }

def updateTagName (db : TagDb) (id name : String) : TagDb × Bool :=
  ({ db with tags := db.tags.modify id (fun t => { t with name := name }) fun _ => rfl },
    (db.tags.find? id).isSome)

/-- Delete a tag and all of its relations. -/
def deleteTag (db : TagDb) (id : String) : TagDb :=
  { tags := db.tags.erase id, relations := db.relations.filter (·.tagId ≠ id) }

/-- `INSERT OR IGNORE` of each relation without an empty part. -/
def insertRelations (db : TagDb) (rels : List TagRelationRow) : TagDb :=
  { db with relations := rels.foldl (fun table r =>
      if r.tagId = "" ∨ r.key = "" then table else table.insert r) db.relations }

/-- Remove the cross product; a statement with too many parameters is refused and the error
dropped. -/
def removeRelations (db : TagDb) (keys tagIds : List String) : TagDb :=
  if keys = [] ∨ tagIds = [] then db
  else if keys.length + tagIds.length ≤ maxVariableNumber then
    { db with relations := db.relations.filter fun r => ¬ (r.key ∈ keys ∧ r.tagId ∈ tagIds) }
  else db

def removeRelationsForKeys (db : TagDb) (keys : List String) : TagDb :=
  if keys = [] then db else { db with relations := db.relations.deleteIn TagRelationRow.key keys }

end TagDb

def idsName : List Char := ['i', 'd', 's']

/-- The explicit selection `ids:a,b,c`; any other query names nothing. -/
def parseIdsQuery (query : String) : Option (List String) :=
  (SearchDsl.fieldValue query.toList idsName).bind fun ids =>
    if trimmed ids = [] then none
    else some (((ids.splitOn ',').map trimmed).filter (· ≠ []) |>.map String.ofList)

def trimmedIds (tagIds : List String) : List String := (tagIds.map Text.trim).filter (· ≠ "")

/-- A tag as the schema shows it. -/
structure Tag where
  id : String
  name : String
  count : Int
  deriving DecidableEq

def tagToGql (t : TagRow) : Tag := ⟨t.id, t.name, t.count⟩

/-- The mutations; the id of a new tag is drawn. -/
inductive TagMutation
  | createTag (id : String) (type : DataType) (name : String)
  | updateTag (id name : String)
  | deleteTag (id : String)
  | addToTags (tagIds : List String) (query : String)
  | updateTagRelations (key : String) (addTagIds removeTagIds : List String)
  | removeFromTags (tagIds : List String) (query : String)
  | mediaDeleted (keys : List String)

namespace TagDb

def createTag (db : TagDb) (id : String) (type : DataType) (name : String) : TagDb × Tag :=
  let tag : TagRow := ⟨id, name, kindOf type, 0⟩
  (db.insertTag tag, tagToGql tag)

def updateTag (db : TagDb) (id name : String) : TagDb × Except String Tag :=
  let out := db.updateTagName id name
  (out.1, match if out.2 then out.1.tagById id else none with
    | some t => .ok (tagToGql t)
    | none => .error s!"tag not found: {id}")

def addToTags (db : TagDb) (tagIds : List String) (query : String) : TagDb :=
  match parseIdsQuery query with
  | none => db
  | some keys => db.insertRelations ((trimmedIds tagIds).flatMap fun tid => keys.map fun k => ⟨tid, k⟩)

def updateTagRelations (db : TagDb) (key : String) (addTagIds removeTagIds : List String) : TagDb :=
  let add := (addTagIds.filter (· ≠ "")).map fun t => TagRelationRow.mk t key
  let added := if add = [] then db else db.insertRelations add
  if removeTagIds = [] then added else added.removeRelations [key] removeTagIds

def removeFromTags (db : TagDb) (tagIds : List String) (query : String) : TagDb :=
  match parseIdsQuery query with
  | none => db
  | some keys => db.removeRelations keys (trimmedIds tagIds)

def apply (db : TagDb) : TagMutation → TagDb
  | .createTag id type name => (db.createTag id type name).1
  | .updateTag id name => (db.updateTag id name).1
  | .deleteTag id => db.deleteTag id
  | .addToTags tagIds query => db.addToTags tagIds query
  | .updateTagRelations key add remove => db.updateTagRelations key add remove
  | .removeFromTags tagIds query => db.removeFromTags tagIds query
  | .mediaDeleted keys => db.removeRelationsForKeys keys

end TagDb

/-- What a mutation writes to the relation of a tag and a key: there, gone, or nothing. Where it adds
and removes the same relation, it is gone. -/
def effect (t k : String) : TagMutation → Option Bool
  | .createTag .. | .updateTag .. => none
  | .deleteTag id => if t = id then some false else none
  | .addToTags tagIds query =>
    if t ∈ trimmedIds tagIds ∧ k ∈ (parseIdsQuery query).getD [] then some true else none
  | .updateTagRelations key add remove =>
    if k = key ∧ t ∈ remove ∧ remove.length < maxVariableNumber then some false
    else if k = key ∧ t ∈ add ∧ t ≠ "" ∧ k ≠ "" then some true
    else none
  | .removeFromTags tagIds query =>
    let keys := (parseIdsQuery query).getD []
    if t ∈ trimmedIds tagIds ∧ k ∈ keys ∧
        keys.length + (trimmedIds tagIds).length ≤ maxVariableNumber then some false
    else none
  | .mediaDeleted keys => if k ∈ keys ∧ keys.length ≤ maxVariableNumber then some false else none

/-- The last mutation to touch the relation put it there. -/
def Related (mutations : List TagMutation) (t k : String) : Prop :=
  Overwrites.last (effect t k) mutations = some true

section Relations

variable {db : TagDb} {T : Table TagRelationRow id} {rels : List TagRelationRow} {r : TagRelationRow}
  {t k key : String} {keys tagIds : List String}

theorem mem_insert : r ∈ (T.insert s).rows ↔ r = s ∨ r ∈ T.rows := by
  have h : ∀ {T : Table TagRelationRow id} {r}, r ∈ T.rows ↔ T.find? r = some r := fun {T r} =>
    ⟨fun h => Table.find?_eq_some.mpr ⟨h, rfl⟩, fun h => (Table.find?_eq_some.mp h).1⟩
  by_cases hr : r = s
  · subst hr
    refine iff_of_true (h.mpr ?_) (.inl rfl)
    cases hf : T.find? (id r) with
    | none => exact (Table.find?_insert_of_none hf).trans (if_pos rfl)
    | some s =>
      obtain ⟨-, rfl⟩ := Table.find?_eq_some.mp hf
      rwa [Table.insert_of_some hf]
  · rw [h, Table.find?_insert_ne hr, ← h, or_iff_right hr]

theorem mem_insertRelations : r ∈ (db.insertRelations rels).relations.rows ↔
    r ∈ db.relations.rows ∨ r ∈ rels ∧ r.tagId ≠ "" ∧ r.key ≠ "" := by
  unfold TagDb.insertRelations
  generalize db.relations = T
  induction rels generalizing T with
  | nil => simp
  | cons s rels ih =>
    rw [List.foldl_cons, ih]
    by_cases hs : s.tagId = "" ∨ s.key = ""
    · rw [if_pos hs, List.mem_cons]
      refine or_congr_right (and_congr_left fun hr => (or_iff_right ?_).symm)
      rintro rfl
      exact hs.elim hr.1 hr.2
    · rw [if_neg hs, mem_insert, List.mem_cons]
      rw [not_or] at hs
      constructor
      · rintro ((rfl | h) | ⟨h, hr⟩)
        · exact .inr ⟨.inl rfl, hs⟩
        · exact .inl h
        · exact .inr ⟨.inr h, hr⟩
      · rintro (h | ⟨rfl | h, hr⟩)
        · exact .inl (.inr h)
        · exact .inl (.inl rfl)
        · exact .inr ⟨h, hr⟩

theorem mem_removeRelations : r ∈ (db.removeRelations keys tagIds).relations.rows ↔
    r ∈ db.relations.rows ∧ ¬ (r.key ∈ keys ∧ r.tagId ∈ tagIds ∧
      keys.length + tagIds.length ≤ maxVariableNumber) := by
  unfold TagDb.removeRelations
  split
  · next h =>
    rcases h with rfl | rfl <;> simp
  split
  · next hl =>
    rw [Table.filter, List.mem_filter, decide_eq_true_eq]
    tauto
  · next hl => simp [hl]

theorem mem_removeRelationsForKeys : r ∈ (db.removeRelationsForKeys keys).relations.rows ↔
    r ∈ db.relations.rows ∧ ¬ (r.key ∈ keys ∧ keys.length ≤ maxVariableNumber) := by
  unfold TagDb.removeRelationsForKeys
  split
  · next h => simp [h]
  · rw [Table.mem_deleteIn]
    tauto

theorem mem_trimmedIds (h : t ∈ trimmedIds tagIds) : t ≠ "" := by
  simpa using List.of_mem_filter h

theorem mem_parseIdsQuery {query : String} (h : k ∈ (parseIdsQuery query).getD []) : k ≠ "" := by
  unfold parseIdsQuery at h
  cases hf : SearchDsl.fieldValue query.toList idsName with
  | none => simp [hf] at h
  | some ids =>
    rw [hf, Option.bind_some] at h
    split at h
    · simp at h
    · obtain ⟨p, hp, rfl⟩ := List.mem_map.mp h
      have hne : p ≠ [] := by simpa using List.of_mem_filter hp
      exact fun he => hne (by simpa using congrArg String.toList he)

theorem mem_updateTagRelations {add remove : List String} :
    ⟨t, k⟩ ∈ (db.updateTagRelations key add remove).relations.rows ↔
      (⟨t, k⟩ ∈ db.relations.rows ∨ k = key ∧ t ∈ add ∧ t ≠ "" ∧ k ≠ "") ∧
        ¬ (k = key ∧ t ∈ remove ∧ remove.length < maxVariableNumber) := by
  unfold TagDb.updateTagRelations
  generalize hrels : (add.filter (· ≠ "")).map (fun t => TagRelationRow.mk t key) = rels
  have hadded : ⟨t, k⟩ ∈ (if rels = [] then db else db.insertRelations rels).relations.rows ↔
      ⟨t, k⟩ ∈ db.relations.rows ∨ k = key ∧ t ∈ add ∧ t ≠ "" ∧ k ≠ "" := by
    have hrel : ⟨t, k⟩ ∈ rels ↔ k = key ∧ t ∈ add ∧ t ≠ "" := by
      rw [← hrels]
      simp only [List.mem_map, List.mem_filter, decide_eq_true_eq, TagRelationRow.mk.injEq]
      grind
    split
    · next h =>
      simp only [h, List.not_mem_nil, false_iff] at hrel
      tauto
    · rw [mem_insertRelations, hrel]
      tauto
  dsimp only
  split
  · next h => simp [hadded, h]
  · rw [mem_removeRelations, hadded, List.mem_singleton, List.length_singleton, Nat.add_comm,
      Nat.add_one_le_iff]

/-- What one mutation does to each relation. -/
theorem related_apply (m : TagMutation) : ⟨t, k⟩ ∈ (db.apply m).relations.rows ↔
    (effect t k m).getD (decide (⟨t, k⟩ ∈ db.relations.rows)) = true := by
  cases m with
  | createTag id type name => simp [TagDb.apply, TagDb.createTag, TagDb.insertTag, effect]
  | updateTag id name => simp [TagDb.apply, TagDb.updateTag, TagDb.updateTagName, effect]
  | deleteTag id =>
    by_cases h : t = id
    · simp [TagDb.apply, TagDb.deleteTag, Table.filter, effect, h]
    · simp [TagDb.apply, TagDb.deleteTag, Table.filter, effect, h]
  | addToTags tagIds query =>
    have hmem : (⟨t, k⟩ ∈ ((db.addToTags tagIds query).relations).rows) ↔
        ⟨t, k⟩ ∈ db.relations.rows ∨ t ∈ trimmedIds tagIds ∧ k ∈ (parseIdsQuery query).getD [] := by
      unfold TagDb.addToTags
      cases hq : parseIdsQuery query with
      | none => simp
      | some keys =>
        have hk : k ∈ keys → k ≠ "" := fun h => mem_parseIdsQuery (by rw [hq]; exact h)
        have ht : t ∈ trimmedIds tagIds → t ≠ "" := mem_trimmedIds
        simp only [mem_insertRelations, List.mem_flatMap, List.mem_map, TagRelationRow.mk.injEq,
          Option.getD_some]
        grind
    rw [show db.apply (.addToTags tagIds query) = db.addToTags tagIds query from rfl, hmem]
    exact Overwrites.put_iff
  | updateTagRelations key add remove =>
    exact mem_updateTagRelations.trans Overwrites.put_drop_iff
  | removeFromTags tagIds query =>
    have hmem : (⟨t, k⟩ ∈ ((db.removeFromTags tagIds query).relations).rows) ↔
        ⟨t, k⟩ ∈ db.relations.rows ∧ ¬ (t ∈ trimmedIds tagIds ∧
          k ∈ (parseIdsQuery query).getD [] ∧
          ((parseIdsQuery query).getD []).length + (trimmedIds tagIds).length ≤
            maxVariableNumber) := by
      unfold TagDb.removeFromTags
      cases parseIdsQuery query with
      | none => simp
      | some keys =>
        rw [mem_removeRelations, Option.getD_some]
        tauto
    rw [show db.apply (.removeFromTags tagIds query) = db.removeFromTags tagIds query from rfl, hmem]
    exact Overwrites.drop_iff
  | mediaDeleted keys => exact mem_removeRelationsForKeys.trans Overwrites.drop_iff

/-- A run leaves a relation just when the last mutation to touch it put it there. -/
theorem mem_foldl_apply {mutations : List TagMutation} :
    ⟨t, k⟩ ∈ (mutations.foldl TagDb.apply .empty).relations.rows ↔ Related mutations t k := by
  have hrun := @Overwrites.field_foldl _ _ _ TagDb.apply
    (fun db : TagDb => decide (⟨t, k⟩ ∈ db.relations.rows)) (effect t k) .empty mutations
    (fun db m => by rw [Bool.eq_iff_iff, decide_eq_true_iff, related_apply])
  refine decide_eq_true_iff.symm.trans ?_
  rw [hrun, Related]
  cases Overwrites.last (effect t k) mutations with
  | none => simp [TagDb.empty, Table.empty]
  | some b => simp

/-- The count of a tag is that of the keys it is related to. -/
theorem countP_relations :
    db.relations.rows.countP (·.tagId = t) = {k | ⟨t, k⟩ ∈ db.relations.rows}.ncard := by
  have hnodup : db.relations.rows.Nodup := by simpa using db.relations.nodup
  have hset : {k | ⟨t, k⟩ ∈ db.relations.rows} =
      (((db.relations.rows.filter (·.tagId = t)).map TagRelationRow.key).toFinset : Set String) := by
    ext k
    simp only [Set.mem_ofPred_eq, List.coe_toFinset, List.mem_map, List.mem_filter,
      decide_eq_true_eq]
    constructor
    · intro h
      exact ⟨_, ⟨h, rfl⟩, rfl⟩
    · rintro ⟨⟨t', k'⟩, ⟨h, rfl⟩, rfl⟩
      exact h
  have hinj : ((db.relations.rows.filter (·.tagId = t)).map TagRelationRow.key).Nodup := by
    refine List.Nodup.map_on ?_ (hnodup.filter _)
    rintro ⟨t₁, k₁⟩ h₁ ⟨t₂, k₂⟩ h₂ hk
    obtain rfl : t₁ = t := by simpa using List.of_mem_filter h₁
    obtain rfl : t₂ = t₁ := by simpa using List.of_mem_filter h₂
    exact congrArg _ hk
  rw [hset, Set.ncard_coe_finset, List.toFinset_card_of_nodup hinj, List.length_map,
    List.countP_eq_length_filter]

theorem ids_tagsOf (rows : List TagRelationRow) (kind : Int) :
    ((rows.filterMap fun r => db.tagById r.tagId).filter (·.kind = kind)).map TagRow.id =
      (rows.filter fun r : TagRelationRow => ∃ t ∈ db.tags.find? r.tagId, t.kind = kind).map
        TagRelationRow.tagId := by
  induction rows with
  | nil => rfl
  | cons r rows ih =>
    cases hf : db.tags.find? r.tagId with
    | none => simpa [TagDb.tagById, hf] using ih
    | some stored =>
      obtain ⟨-, hid⟩ := Table.find?_eq_some.mp hf
      by_cases hk : stored.kind = kind
      · simpa [TagDb.tagById, hf, hk, TagDb.rowToTag, hid] using ih
      · simpa [TagDb.tagById, hf, hk, TagDb.rowToTag] using ih

end Relations

/-- Whatever mutations are made, the tags of a type count the keys that the last mutations left them,
and the relations asked for by keys, and the tags of one key, are those same ones. -/
theorem tags_follow_mutations {scan : List TagRelationRow → List TagRelationRow}
    (hscan : ∀ rows, (scan rows).Perm rows) (mutations : List TagMutation) (kind : Int) :
    let db := mutations.foldl TagDb.apply .empty
    (∀ tag ∈ db.tagsByType kind,
      tag.count = asI32 {k | Related mutations tag.id k}.ncard) ∧
    (∀ keys r, r ∈ db.relationsForKeysOfKind scan keys kind ↔
      r.key ∈ keys ∧ Related mutations r.tagId r.key ∧
        ∃ tag ∈ db.tagsByType kind, tag.id = r.tagId) ∧
    ∀ key, ((db.tagsForKeyOfKind key kind).map TagRow.id).Perm
      ((db.relationsForKeysOfKind scan [key] kind).map TagRelationRow.tagId) := by
  intro db
  have hrelated : ∀ t k, ⟨t, k⟩ ∈ db.relations.rows ↔ Related mutations t k := fun _ _ =>
    mem_foldl_apply
  clear_value db
  have htag : ∀ t, (∃ tag ∈ db.tagsByType kind, tag.id = t) ↔
      ∃ stored ∈ db.tags.find? t, stored.kind = kind := by
    intro t
    simp only [TagDb.tagsByType, List.mem_map, List.mem_filter, decide_eq_true_eq]
    constructor
    · rintro ⟨_, ⟨stored, ⟨hmem, hkind⟩, rfl⟩, rfl⟩
      exact ⟨stored, Table.find?_eq_some.mpr ⟨hmem, rfl⟩, hkind⟩
    · rintro ⟨stored, hfind, hkind⟩
      obtain ⟨hmem, rfl⟩ := Table.find?_eq_some.mp hfind
      exact ⟨_, ⟨stored, ⟨hmem, hkind⟩, rfl⟩, rfl⟩
  refine ⟨?_, ?_, ?_⟩
  · intro tag h
    obtain ⟨stored, -, rfl⟩ := List.mem_map.mp h
    simp only [TagDb.rowToTag, TagDb.countOf, countP_relations, hrelated]
  · rintro keys ⟨t, k⟩
    simp only [TagDb.relationsForKeysOfKind, List.mem_flatMap, (hscan _).mem_iff, List.mem_filter,
      decide_eq_true_eq, htag, hrelated]
    constructor
    · rintro ⟨key, hkey, hr, rfl, hkind⟩
      exact ⟨hkey, hr, hkind⟩
    · rintro ⟨hkey, hr, hkind⟩
      exact ⟨k, hkey, hr, rfl, hkind⟩
  · intro key
    have hperm : (db.relationsForKey key).Perm (db.relations.rows.filter (·.key = key)) :=
      List.mergeSort_perm ..
    have hkeys : (db.relations.rows.filter fun r : TagRelationRow =>
        r.key = key ∧ ∃ t ∈ db.tags.find? r.tagId, t.kind = kind) =
        (db.relations.rows.filter (·.key = key)).filter fun r : TagRelationRow =>
          ∃ t ∈ db.tags.find? r.tagId, t.kind = kind := by
      rw [List.filter_filter]
      exact List.filter_congr fun r _ => by simp [Bool.and_comm]
    rw [TagDb.relationsForKeysOfKind, List.flatMap_singleton, hkeys]
    refine (((hperm.filterMap _).filter _).map _).trans ?_
    rw [ids_tagsOf]
    exact ((hscan _).map _).symm

def photoMutations : List TagMutation :=
  [.createTag "t" .image "Trips", .addToTags [" t "] "ids:7,8", .updateTagRelations "7" [] ["t"]]

/-- Two photos on one tag, one of them taken off again. -/
theorem tags_follow_mutations_photos :
    let db := photoMutations.foldl TagDb.apply .empty
    (∀ tag ∈ db.tagsByType (kindOf .image),
      tag.count = asI32 {k | Related photoMutations tag.id k}.ncard) ∧
    ∀ keys r, r ∈ db.relationsForKeysOfKind id keys (kindOf .image) ↔
      r.key ∈ keys ∧ Related photoMutations r.tagId r.key ∧
        ∃ tag ∈ db.tagsByType (kindOf .image), tag.id = r.tagId := by
  intro db
  have hscan : ∀ rows : List TagRelationRow, (id rows).Perm rows := .refl
  obtain ⟨hcount, hrows, -⟩ := tags_follow_mutations hscan photoMutations (kindOf .image)
  exact ⟨hcount, hrows⟩

end PlainRs.Library
