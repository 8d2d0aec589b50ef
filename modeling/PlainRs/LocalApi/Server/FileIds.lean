import PlainRs.Crypto.Symmetric
import PlainRs.LocalApi.AppFiles
import PlainRs.LocalApi.Server.FileServer
import PlainRs.LocalApi.Server.Uri
import PlainRs.Utils.QueryStrings

/-! The ids of files in chats, as `chat/content.rs` makes them and as `/fs` reads them. -/
namespace PlainRs.FileServer

open Checked Components Crypto FileUpload LocalApi PlainRs.Chat Utils

/-- `serde_json`: a text as a value, and the text of a value. -/
structure JsonText where
  fromStr : String → Option Json
  toText : Json → String

/-- `json!` of an object of strings. -/
def stringObject (fields : List (String × String)) : Json :=
  .object (fields.map fun (key, s) => (key, .string s))

/-- The text of an object begins with its brace, and is read back with the same fields. -/
structure JsonText.Sound (json : JsonText) : Prop where
  brace : ∀ fields, '{' ∈ (json.toText (.object fields)).toList.head?
  read : ∀ fields : List (String × String), (fields.map Prod.fst).Nodup →
    ∃ v, json.fromStr (json.toText (stringObject fields)) = some v ∧
      ∀ key, (v.get key).bind Json.asStr = fields.lookup key

/-- The typed payload of a chat's content. -/
inductive ChatItemData
  | images (ids : List String)
  | files (ids : List String)
  | text (linkPreviewImageIds : List String)

section

variable (c : Aead) (json : JsonText)

def xchachaEncrypt (nonce : Nonce 24) (tokenB64 : String) (plaintext : Bytes) : Option Bytes :=
  xchachaEncryptRaw c nonce (base64Decode tokenB64) plaintext

def xchachaDecrypt (tokenB64 : String) (data : Bytes) : Option Bytes :=
  xchachaDecryptRaw c (base64Decode tokenB64) data

/-- Empty where the token is no key. -/
def makeFileId (nonce : Nonce 24) (path token : String) : String :=
  ((xchachaEncrypt c nonce token (Text.bytes path)).map base64Encode).getD ""

def makeFileIdJson (nonce : Nonce 24) (path name token : String) : String :=
  makeFileId c nonce (json.toText (stringObject [("path", path), ("name", name)])) token

/-- The URI of an item, and its name; an item without a URI is left out. -/
def itemRef (item : Json) : Option (String × String) :=
  ((item.get "uri").bind Json.asStr).map fun uri =>
    (uri, ((item.get "fileName").bind Json.asStr).getD "")

def itemRefs (value : Json) : Option (List (String × String)) :=
  ((value.get "items").bind Json.asArray).map (List.filterMap itemRef)

/-- The images of the link previews of a text. -/
def previewPaths (value : Json) : Option (List String) :=
  ((value.get "linkPreviews").bind Json.asArray).map fun previews =>
    (previews.filterMap fun p => (p.get "imageLocalPath").bind Json.asStr).filter (· ≠ "")

def itemIds (nonces : ℕ → Nonce 24) (token : String) (refs : List (String × String)) : List String :=
  refs.mapIdx fun i (uri, name) => makeFileIdJson c json (nonces i) uri name token

/-- The arms of `chat_item_data_from_content`, with the nonces that are drawn for the ids. -/
def chatItemData (nonces : ℕ → Nonce 24) (token msgType : String) (value : Json) :
    Option ChatItemData :=
  if msgType = "IMAGES" then (itemRefs value).map fun refs => .images (itemIds c json nonces token refs)
  else if msgType = "FILES" then
    (itemRefs value).map fun refs => .files (itemIds c json nonces token refs)
  else if msgType = "TEXT" then
    (previewPaths value).map fun paths =>
      .text (paths.mapIdx fun i path => makeFileId c (nonces i) path token)
  else none

def chatItemDataFromContent (nonces : ℕ → Nonce 24) (content token : String) :
    Option ChatItemData := do
  let v ← json.fromStr content
  let msgType ← (v.get "type").bind Json.asStr
  let value ← v.get "value"
  chatItemData c json nonces token msgType value

/-- The path and the name that a decrypted id gives. -/
def parseDecryptedId (plaintext : String) : String × String :=
  if '{' ∈ plaintext.toList.head? then
    match json.fromStr plaintext with
    | some v => (((v.get "path").bind Json.asStr).getD "", ((v.get "name").bind Json.asStr).getD "")
    | none => (plaintext, "")
  else (plaintext, "")

/-- The first steps of `serve_file`: what the request names, or the answer to one that names
nothing. -/
def namedFile (token : String) (params : String → Option String) :
    Except Response (String × String) :=
  match (params "id").filter (· ≠ "") with
  | none => .error (respond 400 (Text.bytes "missing id") "text/plain")
  | some idEncoded =>
    match xchachaDecrypt c token (base64Decode idEncoded) with
    | none => .error (respond 401 [] "text/plain")
    | some plaintext =>
      match Text.ofBytes? plaintext with
      | none => .error (respond 400 (Text.bytes "decrypted id is not valid utf-8") "text/plain")
      | some plaintext => .ok (parseDecryptedId json plaintext)

end

/-- What is found under a path. -/
inductive Node
  | missing
  | notFile
  | file (content : List UInt8)

def contentDisposition (kind name : String) : String :=
  let encoded := String.ofList (urlEncode name)
  s!"{kind}; filename=\"{encoded}\"; filename*=utf-8''{encoded}"

/-- The rest of `serve_file`, for the path and the name that were named; `none` is a panic. -/
def serveNamed (data : DataDir) (disk : List Component → Node) (mimeFromExt : String → String)
    (params : String → Option String) (rangeHeader : String) (path jsonName : String) :
    Option Response :=
  match resolveUri data path with
  | .error _ => none
  | .ok resolved =>
    match disk resolved with
    | .missing => some (respond 404 [] "text/plain")
    | .notFile => some (respond 400 (Text.bytes "not a file") "text/plain")
    | .file content =>
      let displayName := if jsonName ≠ "" then jsonName else (fileNameOf resolved).getD "file"
      let dispositionKind := if params "dl" = some "1" then "attachment" else "inline"
      serveFile params rangeHeader content (mimeFromExt displayName)
        (contentDisposition dispositionKind displayName)

section

variable (c : Aead) (json : JsonText) (data : DataDir) (disk : List Component → Node)
  (mimeFromExt : String → String) (token : String)

/-- `serve_file` of a query and a `Range` header. -/
def serveFs (query : List Char) (rangeHeader : String) : Option Response :=
  match namedFile c json token (parseQuery query) with
  | .error response => some response
  | .ok (path, name) =>
    serveNamed data disk mimeFromExt (parseQuery query) rangeHeader path name

/-- A request with this id, and whatever else beside it, gets what the path and the name ask for. -/
def LeadsTo (id : String) (file : String × String) : Prop :=
  ∀ rest rangeHeader, (("id", id) :: rest |>.map Prod.fst).Nodup →
    serveFs c json data disk mimeFromExt token (joinQuery (("id", id) :: rest)) rangeHeader =
      serveNamed data disk mimeFromExt (parseQuery (joinQuery (("id", id) :: rest))) rangeHeader
        file.1 file.2

end

def ChatItemData.ids : ChatItemData → List String
  | .images ids | .files ids => ids
  | .text linkPreviewImageIds => linkPreviewImageIds

/-- What the ids stand for. The image of a link preview has no name, and its path stands for itself. -/
def ChatItemData.refs (value : Json) : ChatItemData → Option (List (String × String))
  | .images _ | .files _ => itemRefs value
  | .text _ => (previewPaths value).map (List.map (·, ""))

def ChatItemData.isText : ChatItemData → Bool
  | .text _ => true
  | _ => false

variable {c : Aead} {json : JsonText} {data : DataDir} {disk : List Component → Node}
  {mimeFromExt : String → String} {token id path name content : String} {nonce : Nonce 24}
  {nonces : ℕ → Nonce 24} {params : String → Option String} {payload : ChatItemData} {value : Json}

theorem makeFileId_eq (hkey : (base64Decode token).length = 32) : makeFileId c nonce path token =
    base64Encode (nonce ++ c.encrypt (base64Decode token) nonce (Text.bytes path)) := by
  rw [makeFileId, xchachaEncrypt, xchachaEncryptRaw, encryptFramed_eq hkey]
  rfl

/-- Exactly what was sealed under the token's key is unsealed. -/
theorem xchachaDecrypt_iff (hc : c.Sound) (hkey : (base64Decode token).length = 32)
    {sealed plaintext : Bytes} : xchachaDecrypt c token sealed = some plaintext ↔
      ∃ nonce : Nonce 24, sealed = nonce ++ c.encrypt (base64Decode token) nonce plaintext := by
  rw [xchachaDecrypt, xchachaDecryptRaw_iff hc]
  refine exists_congr ?_
  intro nonce
  rw [xchachaEncryptRaw, encryptFramed_eq hkey, Option.some.injEq, eq_comm]

/-- A request names a file exactly if its id is a text sealed under the token's key. -/
theorem namedFile_iff (hc : c.Sound) (hkey : (base64Decode token).length = 32)
    {named : String × String} : namedFile c json token params = .ok named ↔
      ∃ id plaintext, ∃ nonce : Nonce 24, params "id" = some id ∧ base64Decode id =
        nonce ++ c.encrypt (base64Decode token) nonce (Text.bytes plaintext) ∧
        parseDecryptedId json plaintext = named := by
  constructor
  · intro h
    rw [namedFile] at h
    split at h
    · cases h
    · next id hid =>
      split at h
      · cases h
      · next sealed hsealed =>
        split at h
        · cases h
        · next plaintext hplain =>
          obtain ⟨nonce, hnonce⟩ := (xchachaDecrypt_iff hc hkey).mp hsealed
          refine ⟨id, plaintext, nonce, (Option.filter_eq_some_iff.mp hid).1, ?_, Except.ok.inj h⟩
          rw [hnonce, Text.bytes_of_ofBytes? hplain]
  · rintro ⟨id, plaintext, nonce, hid, hsealed, rfl⟩
    have hne : id ≠ "" := by
      rintro rfl
      have hlen := congrArg List.length hsealed
      rw [List.length_append, nonce.2] at hlen
      have hempty : (base64Decode "").length = 0 := rfl
      omega
    rw [namedFile, hid, Option.filter_some_pos (by simpa using hne)]
    simp only [(xchachaDecrypt_iff hc hkey).mpr ⟨nonce, hsealed⟩, Text.ofBytes?_bytes]

theorem namedFile_makeFileId (hc : c.Sound) (hkey : (base64Decode token).length = 32)
    (hid : params "id" = some (makeFileId c nonce path token)) :
    namedFile c json token params = .ok (parseDecryptedId json path) := by
  refine (namedFile_iff hc hkey).mpr ⟨_, path, nonce, hid, ?_, rfl⟩
  rw [makeFileId_eq hkey, base64_faithful.1]

theorem parseDecryptedId_json (hj : json.Sound) : parseDecryptedId json
    (json.toText (stringObject [("path", path), ("name", name)])) = (path, name) := by
  obtain ⟨v, hv, hfields⟩ := hj.read [("path", path), ("name", name)] (by simp)
  have hbrace : '{' ∈ (json.toText (stringObject [("path", path), ("name", name)])).toList.head? :=
    hj.brace _
  rw [parseDecryptedId, if_pos hbrace, hv]
  simp only [hfields]
  rfl

theorem parseDecryptedId_plain (h : '{' ∉ path.toList.head?) :
    parseDecryptedId json path = (path, "") := by
  rw [parseDecryptedId, if_neg h]

theorem leadsTo_of_parse (hc : c.Sound) (hkey : (base64Decode token).length = 32)
    {plaintext : String} (h : parseDecryptedId json plaintext = (path, name)) :
    LeadsTo c json data disk mimeFromExt token (makeFileId c nonce plaintext token) (path, name) := by
  intro rest rangeHeader hkeys
  have hid : parseQuery (joinQuery (("id", makeFileId c nonce plaintext token) :: rest)) "id" =
      some (makeFileId c nonce plaintext token) :=
    (query_round_trip.2 _ hkeys _ _).mpr List.mem_cons_self
  rw [serveFs, namedFile_makeFileId hc hkey hid, h]

theorem forall₂_mapIdx {α β : Type} {R : β → α → Prop} {f : ℕ → α → β} {l : List α}
    (h : ∀ i, ∀ x ∈ l, R (f i x) x) : List.Forall₂ R (l.mapIdx f) l := by
  induction l generalizing f with
  | nil => exact .nil
  | cons x l ih =>
    rw [List.mapIdx_cons]
    refine .cons (h 0 x List.mem_cons_self) (ih ?_)
    intro i y hy
    exact h (i + 1) y (List.mem_cons_of_mem _ hy)

theorem of_forall₂_singleton {α β : Type} {R : β → α → Prop} {l : List β} {x : α} {y : β}
    (h : List.Forall₂ R l [x]) (hy : y ∈ l) : R y x := by
  obtain ⟨z, rest, hz, hrest, rfl⟩ := List.forall₂_cons_right_iff.mp h
  rw [List.forall₂_nil_right_iff.mp hrest] at hy
  rw [List.mem_singleton.mp hy]
  exact hz

theorem itemIds_lead (hc : c.Sound) (hj : json.Sound) (hkey : (base64Decode token).length = 32)
    (refs : List (String × String)) :
    List.Forall₂ (LeadsTo c json data disk mimeFromExt token) (itemIds c json nonces token refs)
      refs := by
  refine forall₂_mapIdx ?_
  rintro i ⟨uri, name⟩ -
  exact leadsTo_of_parse hc hkey (parseDecryptedId_json hj)

/-- The files of a chat are served under the ids that its content was given, and nothing is named by
an id that was not sealed under the token's key. -/
theorem ids_lead_to_files (hc : c.Sound) (hj : json.Sound) (hkey : (base64Decode token).length = 32) :
    (chatItemDataFromContent c json nonces content token = some payload →
      ∃ v value refs, json.fromStr content = some v ∧ v.get "value" = some value ∧
        payload.refs value = some refs ∧
        List.Forall₂ (fun id ref => (payload.isText = true → '{' ∉ ref.1.toList.head?) →
          LeadsTo c json data disk mimeFromExt token id ref) payload.ids refs) ∧
    ∀ query rangeHeader, (∀ (id plaintext : String) (nonce : Nonce 24),
        parseQuery query "id" = some id → base64Decode id ≠
          nonce ++ c.encrypt (base64Decode token) nonce (Text.bytes plaintext)) →
      ∃ response, serveFs c json data disk mimeFromExt token query rangeHeader = some response ∧
        (response.status = 400 ∨ response.status = 401) := by
  refine ⟨?_, ?_⟩
  · intro hdata
    obtain ⟨v, hv, hdata⟩ := Option.bind_eq_some_iff.mp hdata
    obtain ⟨msgType, -, hdata⟩ := Option.bind_eq_some_iff.mp hdata
    obtain ⟨value, hvalue, hdata⟩ := Option.bind_eq_some_iff.mp hdata
    have himage : ∀ refs : List (String × String), List.Forall₂ (fun id ref =>
        (false = true → '{' ∉ ref.1.toList.head?) →
          LeadsTo c json data disk mimeFromExt token id ref) (itemIds c json nonces token refs)
        refs := by
      intro refs
      refine (@itemIds_lead c json data disk mimeFromExt token nonces hc hj hkey refs).imp ?_
      intro id ref h _
      exact h
    rw [chatItemData] at hdata
    split at hdata
    · obtain ⟨refs, hrefs, rfl⟩ := Option.map_eq_some_iff.mp hdata
      exact ⟨v, value, refs, hv, hvalue, hrefs, himage refs⟩
    · split at hdata
      · obtain ⟨refs, hrefs, rfl⟩ := Option.map_eq_some_iff.mp hdata
        exact ⟨v, value, refs, hv, hvalue, hrefs, himage refs⟩
      · split at hdata
        · obtain ⟨paths, hpaths, rfl⟩ := Option.map_eq_some_iff.mp hdata
          refine ⟨v, value, paths.map (·, ""), hv, hvalue, ?_, ?_⟩
          · rw [ChatItemData.refs, hpaths]
            rfl
          · refine List.forall₂_map_right_iff.mpr (forall₂_mapIdx ?_)
            intro i path _ hplain
            exact leadsTo_of_parse hc hkey (parseDecryptedId_plain (hplain rfl))
        · cases hdata
  · intro query rangeHeader hforeign
    cases hnamed : namedFile c json token (parseQuery query) with
    | ok named =>
      obtain ⟨id, plaintext, nonce, hid, hsealed, -⟩ := (namedFile_iff hc hkey).mp hnamed
      exact absurd hsealed (hforeign id plaintext nonce hid)
    | error response =>
      refine ⟨response, by rw [serveFs, hnamed], ?_⟩
      rw [namedFile] at hnamed
      split at hnamed
      · cases hnamed
        exact .inl rfl
      · split at hnamed
        · cases hnamed
          exact .inr rfl
        · split at hnamed
          · cases hnamed
            exact .inl rfl
          · cases hnamed

/-! A chat with one image, and objects of strings as texts. -/

def demoContent : Json :=
  .object [("type", .string "IMAGES"), ("value", .object [("items", .array
    [.object [("uri", .string "fid:00112233.jpg"), ("fileName", .string "first.jpg")]])])]

def demoChat : String :=
  "\x7b\"type\":\"IMAGES\",\"value\":\x7b\"items\":[\x7b\"uri\":\"fid:00112233.jpg\",\"fileName\":\"first.jpg\"\x7d]\x7d\x7d"

def writeText (s : String) : List Char := s.toList.flatMap (fun c => ['+', c]) ++ ['.']

def readTexts : List Char → List String
  | '+' :: c :: cs => (readTexts cs).modifyHead fun s => String.ofList (c :: s.toList)
  | '.' :: cs => "" :: readTexts cs
  | _ => []

def pairUp : List String → List (String × Json)
  | key :: s :: rest => (key, .string s) :: pairUp rest
  | _ => []

def demoJson : JsonText where
  fromStr text :=
    if text = demoChat then some demoContent else some (.object (pairUp (readTexts text.toList.tail)))
  toText
    | .object fields => String.ofList ('{' :: fields.flatMap fun (key, v) =>
        writeText key ++ writeText (v.asStr.getD ""))
    | _ => ""

theorem readTexts_writeText (s : String) (rest : List Char) :
    readTexts (writeText s ++ rest) = s :: readTexts rest := by
  have hchars : ∀ cs : List Char, readTexts (cs.flatMap (fun c => ['+', c]) ++ ['.'] ++ rest) =
      String.ofList cs :: readTexts rest := by
    intro cs
    induction cs with
    | nil => rfl
    | cons c cs ih =>
      simp only [List.flatMap_cons, List.cons_append, List.nil_append, readTexts]
      rw [ih, List.modifyHead_cons, String.toList_ofList]
  rw [writeText, hchars, String.ofList_toList]

theorem lookup_strings (fields : List (String × String)) (key : String) :
    (fields.map fun (key, s) => (key, Json.string s)).lookup key =
      (fields.lookup key).map Json.string := by
  induction fields with
  | nil => rfl
  | cons field fields ih =>
    obtain ⟨first, s⟩ := field
    by_cases hkey : key = first
    · subst hkey
      simp
    · have hbeq : (key == first) = false := beq_eq_false_iff_ne.mpr hkey
      simp only [List.map_cons, List.lookup_cons, hbeq]
      exact ih

theorem demoJson_sound : demoJson.Sound where
  brace fields := by
    simp [demoJson]
  read fields _ := by
    have hpairs : ∀ fields : List (String × String), pairUp (readTexts (fields.flatMap fun (key, s) =>
        writeText key ++ writeText s)) = fields.map fun (key, s) => (key, .string s) := by
      intro fields
      induction fields with
      | nil => rfl
      | cons field fields ih =>
        rw [List.flatMap_cons, List.append_assoc, readTexts_writeText, readTexts_writeText, pairUp,
          ih, List.map_cons]
    have hchars : demoJson.toText (stringObject fields) = String.ofList ('{' :: fields.flatMap
        fun (key, s) => writeText key ++ writeText s) := by
      simp [demoJson, stringObject, List.flatMap_map, Json.asStr]
    have hother : demoJson.toText (stringObject fields) ≠ demoChat := by
      rw [hchars]
      intro h
      have hsecond := congrArg (fun s => s.toList[1]?) h
      cases fields with
      | nil => simp [demoChat] at hsecond
      | cons field fields =>
        cases hkey : field.1.toList <;> simp [demoChat, writeText, hkey] at hsecond
    have hread : demoJson.fromStr (demoJson.toText (stringObject fields)) = some (.object (pairUp
        (readTexts (demoJson.toText (stringObject fields)).toList.tail))) := if_neg hother
    refine ⟨stringObject fields, ?_, ?_⟩
    · rw [hread, hchars, String.toList_ofList, List.tail_cons, hpairs]
      rfl
    · intro key
      have hlookup := lookup_strings fields key
      simp only [stringObject, Json.get, hlookup]
      cases fields.lookup key <;> rfl

theorem ids_lead_to_files_image : ∃ ids, chatItemDataFromContent checksumAead demoJson
      (fun _ => ⟨List.replicate 24 7, rfl⟩) demoChat (base64Encode (List.replicate 32 1)) =
        some (.images ids) ∧ ids.length = 1 ∧ ∀ id ∈ ids, ∀ data disk mimeFromExt,
      LeadsTo checksumAead demoJson data disk mimeFromExt (base64Encode (List.replicate 32 1)) id
        ("fid:00112233.jpg", "first.jpg") := by
  have hkey : (base64Decode (base64Encode (List.replicate 32 1))).length = 32 := by
    rw [base64_faithful.1, List.length_replicate]
  have hread : demoJson.fromStr demoChat = some demoContent := by simp [demoJson]
  have hitems : demoContent.get "value" = some (.object [("items", .array [.object
      [("uri", .string "fid:00112233.jpg"), ("fileName", .string "first.jpg")]])]) := rfl
  have hdata : chatItemDataFromContent checksumAead demoJson (fun _ => ⟨List.replicate 24 7, rfl⟩)
      demoChat (base64Encode (List.replicate 32 1)) = some (.images (itemIds checksumAead demoJson
        (fun _ => ⟨List.replicate 24 7, rfl⟩) (base64Encode (List.replicate 32 1))
        [("fid:00112233.jpg", "first.jpg")])) := by
    rw [chatItemDataFromContent, hread]
    rfl
  refine ⟨_, hdata, rfl, ?_⟩
  intro id hid data disk mimeFromExt
  obtain ⟨v, value, refs, hv, hvalue, hrefs, hlead⟩ := (@ids_lead_to_files _ _ data disk mimeFromExt
    _ _ _ _ checksumAead_sound demoJson_sound hkey).1 hdata
  obtain rfl : demoContent = v := Option.some.inj (hread.symm.trans hv)
  obtain rfl := Option.some.inj (hitems.symm.trans hvalue)
  obtain rfl : [("fid:00112233.jpg", "first.jpg")] = refs := Option.some.inj hrefs
  exact of_forall₂_singleton hlead hid (fun htext => Bool.noConfusion htext)

end PlainRs.FileServer
