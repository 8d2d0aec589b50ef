import PlainRs.Base.FilteredPages
import PlainRs.Base.Pages
import PlainRs.Chat.AppFileStore
import PlainRs.Chat.Chats
import PlainRs.Utils.ImageDimensions

/-! The `appFiles` and `appFileCount` queries, and the names that app files are shown under. -/
namespace PlainRs.LocalApi

open Keyed Sql PlainRs.Chat PlainRs.Utils

inductive Json
  | null
  | bool (b : Bool)
  | number (text : String)
  | string (s : String)
  | array (items : List Json)
  | object (fields : List (String × Json))

namespace Json

def get : Json → String → Option Json
  | object fields, key => fields.lookup key
  | _, _ => none

def asArray : Json → Option (List Json)
  | array items => some items
  | _ => none

def asStr : Json → Option String
  | string s => some s
  | _ => none

end Json

/-- A row of `app_files` with its timestamps. -/
structure StampedFile extends DAppFile where
  createdAt : String
  updatedAt : String

def StampedFile.key (f : StampedFile) : String := f.id

/-- What the queries answer for a file. -/
structure AppFile where
  id : String
  size : ℕ
  mimeType : String
  realPath : String
  fileName : String
  createdAt : String
  updatedAt : String

def AppFile.fromDappfile (f : StampedFile) (fileName : String) : AppFile :=
  ⟨f.id, f.size, f.mimeType, f.realPath, fileName, f.createdAt, f.updatedAt⟩

/-- Oldest first. -/
def getAllChats (chats : Table DChat DChat.id) : List DChat :=
  chats.rows.mergeSort fun a b => decide (a.createdAt ≤ b.createdAt)

section

variable (fromStr : String → Option Json) (files : Table StampedFile StampedFile.key)
  (chats : Table DChat DChat.id)

/-- The hash and the name of an uploaded file that an item of a chat refers to. -/
def namedItem (item : Json) : Option (String × String) := do
  let uri ← (item.get "uri").bind Json.asStr
  let name ← (item.get "fileName").bind Json.asStr
  guard ("fid:".toList <+: uri.toList ∧ name ≠ "")
  let hash := (stripPrefix "fid:" uri).getD uri
  return (String.ofList (hash.toList.takeWhile (· ≠ '.')), name)

/-- The files a chat refers to, as far as its content is what the scan expects. -/
def namedItems (chat : DChat) : List (String × String) :=
  match (((fromStr chat.content).bind (·.get "value")).bind (·.get "items")).bind Json.asArray with
  | none => []
  | some items => items.filterMap namedItem

/-- The names in the newest chats that refer to the files. -/
def fileNameMap (chats : List DChat) (key : String) : Option String :=
  ((orderDesc DChat.createdAt chats).flatMap (namedItems fromStr)).lookup key

def displayName (f : StampedFile) (nameMap : String → Option String) : String :=
  let fromChat := Text.trim ((nameMap f.id).getD "")
  if fromChat ≠ "" then fromChat
  else if mimeExtension f.mimeType = "bin" then "file"
  else s!"file.{mimeExtension f.mimeType}"

def getAppFilePage (limit offset : Int) : List StampedFile :=
  slice limit offset (orderDesc StampedFile.createdAt files.rows)

def getAllAppFiles : List StampedFile := orderDesc StampedFile.createdAt files.rows

def countAppFiles : Int := asI32 files.rows.length

/-- The file as it is answered, under the name it is shown by. -/
def shownFile (f : StampedFile) : AppFile :=
  .fromDappfile f (displayName f (fileNameMap fromStr (getAllChats chats)))

def appFiles (offset limit : Int) (query : String) : List AppFile :=
  let text := Text.trim query
  ((getAppFilePage files limit offset).map (shownFile fromStr chats)).filter
    fun f => text = "" ∨ text.toList <:+: f.fileName.toList

def appFileCount (query : String) : Int :=
  let text := Text.trim query
  if text = "" then countAppFiles files
  else asI32 ((getAllAppFiles files).filter fun f =>
    text.toList <:+: (displayName f (fileNameMap fromStr (getAllChats chats))).toList).length

/-- The files, newest first. -/
def newestFiles : List AppFile := (getAllAppFiles files).map (shownFile fromStr chats)

/-- The name a file is shown by has the trimmed text in it. -/
def named (query : String) (f : AppFile) : Bool := (Text.trim query).toList <:+: f.fileName.toList

end

variable {fromStr : String → Option Json} {files : Table StampedFile StampedFile.key}
  {chats : Table DChat DChat.id} {query : String} {offset limit : ℕ}

theorem newestFiles_nodup : (newestFiles fromStr files chats).Nodup := by
  refine List.Nodup.of_map AppFile.id ?_
  rw [newestFiles, List.map_map]
  exact (orderDesc_perm.map StampedFile.key).nodup_iff.mpr files.nodup

theorem appFiles_eq : appFiles fromStr files chats offset limit query =
    (((newestFiles fromStr files chats).drop offset).take limit).filter (named query) := by
  have hnamed : ∀ f : AppFile, (decide (Text.trim query = "" ∨
      (Text.trim query).toList <:+: f.fileName.toList)) = named query f := by
    intro f
    rw [named, decide_eq_decide]
    constructor
    · rintro (h | h)
      · rw [h]
        exact List.nil_infix
      · exact h
    · exact .inr
  simp only [appFiles, getAppFilePage, newestFiles, getAllAppFiles, slice_natCast, List.map_take,
    List.map_drop, hnamed]

theorem fileName_shownFile (f : StampedFile) : (shownFile fromStr chats f).fileName =
    displayName f (fileNameMap fromStr (getAllChats chats)) := by
  rw [shownFile, AppFile.fromDappfile]

theorem appFileCount_eq : appFileCount fromStr files chats query =
    asI32 ((newestFiles fromStr files chats).filter (named query)).length := by
  simp only [appFileCount]
  split
  · rename_i hempty
    -- Without a text the rows are counted, and every name has nothing in it.
    have hall : ∀ f ∈ newestFiles fromStr files chats, named query f = true := by
      intro f _
      simp [named, hempty]
    rw [countAppFiles, List.filter_eq_self.mpr hall, newestFiles, List.length_map, getAllAppFiles,
      orderDesc_perm.length_eq]
  · have hnamed : ∀ f : StampedFile, (decide ((Text.trim query).toList <:+:
        (displayName f (fileNameMap fromStr (getAllChats chats))).toList)) =
        (named query ∘ shownFile fromStr chats) f := by
      intro f
      rw [Function.comp_apply, named, fileName_shownFile]
    rw [List.filter_congr fun f _ => hnamed f, newestFiles, List.filter_map, List.length_map]

theorem asI32_eq_iff {n : ℕ} : asI32 n = n ↔ n < 2 ^ 31 := by
  unfold asI32
  generalize hm : (2 : ℕ) ^ 32 = m
  have hm' : m = 4294967296 := by rw [← hm]; norm_num
  rw [Int.bmod_eq_iff (by omega), sub_self]
  subst hm'
  norm_num

def pictureOverPaper : Table StampedFile StampedFile.key where
  rows := [⟨⟨"2", 8, "image/png", "/f/2", 1, ""⟩, "2024-05-02T10:00:00Z", ""⟩,
    ⟨⟨"1", 4, "application/pdf", "/f/1", 1, ""⟩, "2024-05-01T10:00:00Z", ""⟩]
  nodup := by decide

/-- The newest file is a picture, so the first page of one has no paper in it. -/
theorem app_files_page_misses :
    ¬ (appFiles (fun _ => none) pictureOverPaper .empty 0 1 "pdf" =
        (((newestFiles (fun _ => none) pictureOverPaper .empty).filter (named "pdf")).drop 0).take 1 ∧
      appFileCount (fun _ => none) pictureOverPaper .empty "pdf" =
        ((newestFiles (fun _ => none) pictureOverPaper .empty).filter (named "pdf")).length) := by
  rintro ⟨h, -⟩
  rw [show (0 : Int) = (0 : ℕ) from rfl, show (1 : Int) = (1 : ℕ) from rfl, appFiles_eq] at h
  have haligned := (FilteredPages.filter_page_iff newestFiles_nodup).mp h
  have hnewest : getAllAppFiles pictureOverPaper = pictureOverPaper.rows :=
    List.mergeSort_of_pairwise (by decide)
  have hshown : shownFile (fun _ => none) .empty =
      fun f => .fromDappfile f (displayName f fun _ => none) := by
    funext f
    have hmap : fileNameMap (fun _ => none) [] = fun _ => none := by
      funext key
      simp [fileNameMap, orderDesc]
    simp [shownFile, getAllChats, Table.empty, hmap]
  rw [newestFiles, hnewest, hshown] at haligned
  revert haligned
  decide +kernel

/-- A page and the count are those of the files with the text in their names just when the page is
aligned with them and their number is an `i32`. -/
theorem app_files_iff (fromStr : String → Option Json) (files : Table StampedFile StampedFile.key)
    (chats : Table DChat DChat.id) (query : String) (offset limit : ℕ) :
    (appFiles fromStr files chats offset limit query =
        (((newestFiles fromStr files chats).filter (named query)).drop offset).take limit ∧
      appFileCount fromStr files chats query =
        ((newestFiles fromStr files chats).filter (named query)).length) ↔
      FilteredPages.Aligned (named query) (newestFiles fromStr files chats) offset limit ∧
        ((newestFiles fromStr files chats).filter (named query)).length < 2 ^ 31 := by
  rw [appFiles_eq, appFileCount_eq, asI32_eq_iff,
    FilteredPages.filter_page_iff newestFiles_nodup]

end PlainRs.LocalApi
