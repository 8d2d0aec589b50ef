import PlainRs.LocalApi.Server.Uri

/-! Whether the URI that an import answers leads to the imported content. -/
namespace PlainRs.Chat

open Checked Components FileUpload Keyed Utils

def hexDigits : List Char :=
  ['0', '1', '2', '3', '4', '5', '6', '7', '8', '9', 'a', 'b', 'c', 'd', 'e', 'f']

def bytesToHex (bytes : List UInt8) : String := String.ofList (bytes.flatMap fun b : UInt8 =>
  [hexDigits.getD (b >>> 4).toNat '0', hexDigits.getD (b &&& 0x0f).toNat '0'])

/-- SHA-256. -/
abbrev Digest := Content → Vector UInt8 32

def hexSha (digest : Digest) : Sha := fun content => bytesToHex (digest content).toList

/-- What fails of an import, and how much is copied or written if that fails after its destination
is opened. -/
structure ImportFaults where
  weakHash : Option IoError
  strongHash : Option IoError
  createDir : Option IoError
  store : Option IoError
  storeLeft : Option Nat

def noImportFaults : ImportFaults := ⟨none, none, none, none, none⟩

/-- An `ImportResult` with its `real_path`. -/
structure Imported where
  result : ImportResult
  realPath : List Component

/-- The file at a path. -/
def locate (path : List Component) : FilePath := directoryPath (path.foldl Component.enter [])

section

variable (data : DataDir) (digest : Digest) (fs : FileTree) (T : AppFileTable)
  (faults : ImportFaults)

def rowPath (row : DAppFile) : List Component := join data.dirs row.realPath

/-- What is answered for a content that has a row. -/
def reuse (hash : String) (row : DAppFile) : Imported where
  result := ⟨hash, (fileNameOf (rowPath data row)).getD hash, row.mimeType, true⟩
  realPath := rowPath data row

def newPath (src : ImportSource) : List Component :=
  join data.dirs (relativeDestPath (src.strongHash (hexSha digest)) src.ext)

def copyTo (src dst : FilePath) : FileTree × Option IoError :=
  match faults.createDir with
  | some e => (fs, some e)
  | none => (fs.createDirAll dst.1).copy src dst faults.store faults.storeLeft

def ensureCanonicalExists (realPath src : FilePath) : FileTree × Option IoError :=
  if (fs realPath).isSome then (fs, none) else copyTo fs faults src realPath

/-- `import_file`. -/
def importFile (src : FilePath) (fileName mimeType : String) :
    FileTree × AppFileTable × Except IoError Imported :=
  match faults.weakHash, faults.strongHash, fs.content? src with
  | some e, _, _ | none, some e, _ => (fs, T, .error e)
  | none, none, none => (fs, T, .error noSuchFile)
  | none, none, some content =>
    let source : ImportSource := ⟨content, some fileName, mimeType⟩
    let hash := source.strongHash (hexSha digest)
    match foundRow (hexSha digest) T source with
    | some row =>
      match ensureCanonicalExists fs faults (locate (rowPath data row)) src with
      | (fs, some e) => (fs, T.increment hash, .error e)
      | (fs, none) => (fs, T.increment hash, .ok (reuse data hash row))
    | none =>
      match copyTo fs faults src (locate (newPath data digest source)) with
      | (fs, some e) => (fs, T, .error e)
      | (fs, none) => (fs, T.insert (source.record (hexSha digest)),
          .ok ⟨source.inserted (hexSha digest), newPath data digest source⟩)

/-- `import_bytes`. -/
def importBytes (bytes : Content) (mimeType : String) :
    FileTree × AppFileTable × Except IoError Imported :=
  let source : ImportSource := ⟨bytes, none, mimeType⟩
  let hash := source.strongHash (hexSha digest)
  match T.find? hash with
  | some row => (fs, T.increment hash, .ok (reuse data hash row))
  | none =>
    let path := locate (newPath data digest source)
    match faults.createDir with
    | some e => (fs, T, .error e)
    | none =>
      match (fs.createDirAll path.1).write path bytes (faults.store.map (·, faults.storeLeft)) with
      | (fs, some e) => (fs, T, .error e)
      | (fs, none) => (fs, T.insert (source.record (hexSha digest)),
          .ok ⟨source.inserted (hexSha digest), newPath data digest source⟩)

/-- The URI that is answered leads to the path that is answered, and the content is there. -/
def Resolves (content : Content) (imported : Imported) : Prop :=
  resolveUri data ("fid:" ++ imported.result.fidSuffix) = .ok imported.realPath ∧
    fs (locate imported.realPath) = some (.file content)

/-- The row's path is a canonical one, and the content is there. -/
def Intact (content : Content) (row : DAppFile) : Prop :=
  Canonical data (rowPath data row) ∧ fs (locate (rowPath data row)) = some (.file content)

/-- The row's path is a canonical one, and the content is there or nothing is. -/
def Restorable (content : Content) (row : DAppFile) : Prop :=
  Canonical data (rowPath data row) ∧ (fs (locate (rowPath data row)) = none ∨
    fs (locate (rowPath data row)) = some (.file content))

/-- The row that is found can be restored from the source; without a row, the source is not at the
new path itself, unless it is empty. -/
def FileSound (src : FilePath) (source : ImportSource) : Prop :=
  match foundRow (hexSha digest) T source with
  | some row => Restorable data fs source.content row
  | none => src = locate (newPath data digest source) → source.content = []

/-- A row that is found is intact. -/
def BytesSound (bytes : Content) : Prop :=
  ∀ row ∈ T.find? (hexSha digest bytes), Intact data fs bytes row

end

section

variable {b : UInt8} {bytes : List UInt8} {c : Char}

theorem mem_hexDigits (n : Nat) : hexDigits.getD n '0' ∈ hexDigits := by
  rw [List.getD_eq_getElem?_getD]
  cases h : hexDigits[n]? with
  | none => decide
  | some c => exact List.mem_of_getElem? h

theorem mem_of_mem_bytesToHex (h : c ∈ (bytesToHex bytes).toList) : c ∈ hexDigits := by
  rw [bytesToHex, String.toList_ofList, List.mem_flatMap] at h
  obtain ⟨b, -, hc⟩ := h
  rcases List.mem_cons.mp hc with rfl | hc
  · exact mem_hexDigits _
  · obtain rfl := List.mem_singleton.mp hc
    exact mem_hexDigits _

theorem length_bytesToHex : (bytesToHex bytes).toList.length = 2 * bytes.length := by
  rw [bytesToHex, String.toList_ofList]
  induction bytes with
  | nil => rfl
  | cons b bytes ih =>
    rw [List.flatMap_cons, List.length_append, ih, List.length_cons]
    simp
    omega

theorem plain_hexSha (digest : Digest) (content : Content) :
    Plain (hexSha digest content) ∧ '.' ∉ (hexSha digest content).toList := by
  have hnot : ∀ c, c ∉ hexDigits → c ∉ (hexSha digest content).toList :=
    fun c hc h => hc (mem_of_mem_bytesToHex h)
  have hdot := hnot '.' (by decide)
  refine ⟨⟨fun h => ?_, fun h => ?_, fun h => ?_, hnot '/' (by decide)⟩, hdot⟩
  · have hlen : (hexSha digest content).toList.length = 2 * (digest content).toList.length :=
      length_bytesToHex
    rw [h] at hlen
    simp at hlen
  · rw [h] at hdot
    exact hdot (by decide)
  · rw [h] at hdot
    exact hdot (by decide)

/-- The slices of a hash are those of its digits. -/
theorem relativeDest_hexSha (digest : Digest) (content : Content) (ext : String) :
    relativeDest (hexSha digest content) ext = .ok (relativeDestPath (hexSha digest content) ext) := by
  have hlen : (hexSha digest content).toList.length = 2 * (digest content).toList.length :=
    length_bytesToHex
  have hsize : ∀ c ∈ (hexSha digest content).toList, c.utf8Size = 1 := by
    intro c hc
    have hall : ∀ c ∈ hexDigits, c.utf8Size = 1 := by simp [hexDigits, Char.utf8Size]
    exact hall c (mem_of_mem_bytesToHex hc)
  unfold relativeDest relativeDestPath
  split
  · rfl
  · rcases hs : (hexSha digest content).toList with _ | ⟨a, _ | ⟨b, _ | ⟨c, _ | ⟨d, rest⟩⟩⟩⟩
    iterate 4
      rw [hs] at hlen
      simp at hlen
    rw [hs] at hsize
    have hone : ∀ x ∈ [a, b, c, d], x.utf8Size = 1 := fun x hx =>
      hsize x (List.mem_append_left rest hx)
    have hab : String.utf8Len [a, b] = 2 := by simp [String.utf8Len, hone]
    have hcd : String.utf8Len [c, d] = 2 := by simp [String.utf8Len, hone]
    have hstart : Text.StandsAt ([a, b] ++ c :: d :: rest) 0 (a :: b :: c :: d :: rest) :=
      Text.standsAt_zero
    have hnext : Text.StandsAt ([c, d] ++ rest) 2 (a :: b :: c :: d :: rest) := by
      have hdrop := hstart.append
      rwa [hab] at hdrop
    obtain ⟨_, hfirst, rfl⟩ := Text.cut_spec hstart (show 2 = _ by rw [hab])
    obtain ⟨_, hsecond, rfl⟩ := Text.cut_spec hnext (show 4 = _ by rw [hcd])
    simp only [hfirst, hsecond, ok_bind]
    rfl

end

section

variable {data : DataDir} {digest : Digest} {fs fs' : FileTree} {T T' : AppFileTable}
  {faults : ImportFaults} {src dst : FilePath} {content : Content} {imported : Imported}
  {row : DAppFile}

/-- What is answered with a row leads back to it just when its path is canonical. -/
theorem reuse_leadsBack_iff : resolveUri data ("fid:" ++
      (reuse data (hexSha digest content) row).result.fidSuffix) = .ok (rowPath data row) ↔
    Canonical data (rowPath data row) :=
  leadsBack_iff (plain_hexSha digest content).1 fun _ hn => plain_of_mem_join data.plain hn

/-- What is answered for a new row leads to its path. -/
theorem inserted_leadsBack (source : ImportSource) : resolveUri data ("fid:" ++
      (source.inserted (hexSha digest)).fidSuffix) = .ok (newPath data digest source) := by
  have hsplit : splitFid (source.inserted (hexSha digest)).fidSuffix =
      (source.strongHash (hexSha digest), source.ext) :=
    splitFid_canonicalName (plain_hexSha digest source.content).2
  have hdest : relativeDest (source.strongHash (hexSha digest)) source.ext =
      .ok (relativeDestPath (source.strongHash (hexSha digest)) source.ext) :=
    relativeDest_hexSha digest source.content source.ext
  rw [resolveUri_fid, hsplit, destPath, hdest]
  rfl

theorem resolves_reuse_iff : Resolves data fs content (reuse data (hexSha digest content) row) ↔
    Canonical data (rowPath data row) ∧ fs (locate (rowPath data row)) = some (.file content) := by
  have hpath : (reuse data (hexSha digest content) row).realPath = rowPath data row := by
    rw [reuse]
  unfold Resolves
  rw [hpath, reuse_leadsBack_iff]

theorem resolves_inserted {source : ImportSource}
    (h : fs (locate (newPath data digest source)) = some (.file content)) :
    Resolves data fs content ⟨source.inserted (hexSha digest), newPath data digest source⟩ := by
  unfold Resolves
  dsimp only
  exact ⟨inserted_leadsBack source, h⟩

theorem content?_createDirAll (dir : List String) (h : fs.content? src = some content) :
    (fs.createDirAll dir).content? src = some content :=
  content?_eq.mpr (createDirAll_at dir (content?_eq.mp h))

theorem write_ok {fault : Option (IoError × Option Nat)}
    (h : fs.write dst content fault = (fs', none)) : fs' dst = some (.file content) := by
  unfold FileTree.write at h
  split at h
  · simp at h
  · obtain rfl := congrArg Prod.fst h
    exact Function.update_self _ _ _
  · simp at h

/-- A copy that succeeds leaves the content, unless the file is copied onto itself. -/
theorem copyTo_ok (h : fs.content? src = some content)
    (hc : copyTo fs faults src dst = (fs', none)) :
    fs' dst = some (.file (if src = dst then [] else content)) := by
  have hsrc := content?_createDirAll dst.1 h
  unfold copyTo at hc
  cases hd : faults.createDir with
  | some e => simp [hd] at hc
  | none =>
    simp only [hd] at hc
    unfold FileTree.copy at hc
    have hput : ∀ data, (fs.createDirAll dst.1).put dst data dst = some (.file data) :=
      fun data => Function.update_self _ _ _
    rcases he : fs.createDirAll dst.1 dst with _ | c | _
    · cases hs : faults.store with
      | none =>
        simp only [hsrc, he, hs, Prod.mk.injEq, and_true] at hc
        rw [← hc, hput]
      | some e => simp [hsrc, he, hs] at hc
    · cases hs : faults.store with
      | none =>
        simp only [hsrc, he, hs, Prod.mk.injEq, and_true] at hc
        rw [← hc, hput]
      | some e => simp [hsrc, he, hs] at hc
    · simp [hsrc, he] at hc

/-- Where nothing is, or a file, a copy can succeed. -/
theorem exists_copyTo (h : fs.content? src = some content) (hd : fs dst ≠ some .directory) :
    ∃ fs', copyTo fs noImportFaults src dst = (fs', none) := by
  have hsrc := content?_createDirAll dst.1 h
  have hdst : fs.createDirAll dst.1 dst = fs dst := createDirAll_beside dst.2
  unfold copyTo noImportFaults FileTree.copy
  rw [hsrc, hdst]
  cases he : fs dst with
  | none => exact ⟨_, rfl⟩
  | some entry =>
    cases entry with
    | file c => exact ⟨_, rfl⟩
    | directory => exact absurd he hd

/-- What an import of a file that can be read answers. -/
theorem importFile_ok {fileName mimeType : String} (h : fs.content? src = some content)
    (hi : importFile data digest fs T faults src fileName mimeType = (fs', T', .ok imported)) :
    match foundRow (hexSha digest) T ⟨content, some fileName, mimeType⟩ with
    | some row => imported = reuse data (hexSha digest content) row ∧
        ensureCanonicalExists fs faults (locate (rowPath data row)) src = (fs', none)
    | none => imported = ⟨ImportSource.inserted (hexSha digest) ⟨content, some fileName, mimeType⟩,
        newPath data digest ⟨content, some fileName, mimeType⟩⟩ ∧
        copyTo fs faults src (locate (newPath data digest ⟨content, some fileName, mimeType⟩)) =
          (fs', none) := by
  unfold importFile at hi
  cases hw : faults.weakHash with
  | some e => simp [hw] at hi
  | none =>
    cases hs : faults.strongHash with
    | some e => simp [hw, hs] at hi
    | none =>
      simp only [hw, hs, h] at hi
      cases hrow : foundRow (hexSha digest) T ⟨content, some fileName, mimeType⟩ with
      | some row =>
        simp only [hrow] at hi ⊢
        rcases he : ensureCanonicalExists fs faults (locate (rowPath data row)) src with ⟨fs₁, _ | e⟩
        · simp only [he, Prod.mk.injEq, Except.ok.injEq] at hi
          obtain ⟨rfl, -, rfl⟩ := hi
          exact ⟨rfl, rfl⟩
        · simp [he] at hi
      | none =>
        simp only [hrow] at hi ⊢
        rcases he : copyTo fs faults src
          (locate (newPath data digest ⟨content, some fileName, mimeType⟩)) with ⟨fs₁, _ | e⟩
        · simp only [he, Prod.mk.injEq, Except.ok.injEq] at hi
          obtain ⟨rfl, -, rfl⟩ := hi
          exact ⟨rfl, rfl⟩
        · simp [he] at hi

theorem importFile_found {fileName mimeType : String} (h : fs.content? src = some content)
    (hrow : foundRow (hexSha digest) T ⟨content, some fileName, mimeType⟩ = some row)
    (he : ensureCanonicalExists fs noImportFaults (locate (rowPath data row)) src = (fs', none)) :
    importFile data digest fs T noImportFaults src fileName mimeType = (fs',
      T.increment (hexSha digest content), .ok (reuse data (hexSha digest content) row)) := by
  unfold importFile
  simp only [noImportFaults, h, hrow] at he ⊢
  rw [he]
  rfl

theorem importFile_new {fileName mimeType : String} (h : fs.content? src = some content)
    (hrow : foundRow (hexSha digest) T ⟨content, some fileName, mimeType⟩ = none)
    (he : copyTo fs noImportFaults src
      (locate (newPath data digest ⟨content, some fileName, mimeType⟩)) = (fs', none)) :
    ∃ T' imported, importFile data digest fs T noImportFaults src fileName mimeType =
      (fs', T', .ok imported) := by
  unfold importFile
  simp only [noImportFaults, h, hrow] at he ⊢
  rw [he]
  exact ⟨_, _, rfl⟩

/-- A file's imports resolve just when the row that is found can be restored. -/
theorem importFile_resolves_iff {fileName mimeType : String} (h : fs.content? src = some content) :
    (∀ faults fs' T' imported,
      importFile data digest fs T faults src fileName mimeType = (fs', T', .ok imported) →
        Resolves data fs' content imported) ↔
      FileSound data digest fs T src ⟨content, some fileName, mimeType⟩ := by
  unfold FileSound
  have hsrc := content?_eq.mp h
  cases hrow : foundRow (hexSha digest) T ⟨content, some fileName, mimeType⟩ with
  | some row =>
    constructor
    · intro hall
      by_cases hp : fs (locate (rowPath data row)) = none
      · have hd : fs (locate (rowPath data row)) ≠ some .directory := by simp [hp]
        obtain ⟨fs', hcopy⟩ := exists_copyTo h hd
        have he : ensureCanonicalExists fs noImportFaults (locate (rowPath data row)) src =
            (fs', none) := by simp [ensureCanonicalExists, hp, hcopy]
        have hres := hall _ _ _ _ (importFile_found h hrow he)
        exact ⟨(resolves_reuse_iff.mp hres).1, .inl hp⟩
      · have he : ensureCanonicalExists fs noImportFaults (locate (rowPath data row)) src =
            (fs, none) := if_pos (Option.isSome_iff_ne_none.mpr hp)
        have hres := hall _ _ _ _ (importFile_found h hrow he)
        exact ⟨(resolves_reuse_iff.mp hres).1, .inr (resolves_reuse_iff.mp hres).2⟩
    · rintro ⟨hcanonical, hthere⟩ faults fs' T' imported hi
      have hok := importFile_ok h hi
      rw [hrow] at hok
      obtain ⟨rfl, he⟩ := hok
      refine resolves_reuse_iff.mpr ⟨hcanonical, ?_⟩
      unfold ensureCanonicalExists at he
      split at he
      · next hsome =>
        obtain rfl := congrArg Prod.fst he
        rcases hthere with hnone | hfile
        · simp [hnone] at hsome
        · exact hfile
      · next hnone =>
        have hne : src ≠ locate (rowPath data row) := by
          intro heq
          rw [← heq, hsrc] at hnone
          exact hnone rfl
        have hcopied := copyTo_ok h he
        rwa [if_neg hne] at hcopied
  | none =>
    constructor
    · intro hall hsame
      have hd : fs (locate (newPath data digest ⟨content, some fileName, mimeType⟩)) ≠
          some .directory := by
        rw [← hsame, hsrc]
        simp
      obtain ⟨fs', hcopy⟩ := exists_copyTo h hd
      obtain ⟨T', imported, hi⟩ := importFile_new h hrow hcopy
      have hok := importFile_ok h hi
      rw [hrow] at hok
      obtain ⟨rfl, -⟩ := hok
      have hcopied := copyTo_ok h hcopy
      rw [if_pos hsame] at hcopied
      have hres := (hall _ _ _ _ hi).2
      dsimp only at hres
      simpa using hcopied.symm.trans hres
    · intro hself faults fs' T' imported hi
      have hok := importFile_ok h hi
      rw [hrow] at hok
      obtain ⟨rfl, hcopy⟩ := hok
      refine resolves_inserted ?_
      have hcopied := copyTo_ok h hcopy
      split at hcopied
      · next hsame =>
        have hempty : content = [] := hself hsame
        rwa [← hempty] at hcopied
      · exact hcopied

/-- Imports of bytes resolve just when the row that is found is intact. -/
theorem importBytes_resolves_iff {bytes : Content} {mimeType : String} :
    (∀ faults fs' T' imported,
      importBytes data digest fs T faults bytes mimeType = (fs', T', .ok imported) →
        Resolves data fs' bytes imported) ↔ BytesSound data digest fs T bytes := by
  unfold BytesSound
  cases hrow : T.find? (hexSha digest bytes) with
  | some row =>
    have hi : ∀ faults, importBytes data digest fs T faults bytes mimeType =
        (fs, T.increment (hexSha digest bytes), .ok (reuse data (hexSha digest bytes) row)) := by
      intro faults
      unfold importBytes
      simp only [ImportSource.strongHash, hrow]
    constructor
    · rintro hall row' ⟨⟩
      have hres := hall noImportFaults _ _ _ (hi _)
      exact resolves_reuse_iff.mp hres
    · intro hsound faults fs' T' imported himport
      rw [hi] at himport
      obtain ⟨rfl, -, himp⟩ : fs = fs' ∧ _ ∧ _ := by simpa using himport
      obtain ⟨hcanonical, hfile⟩ := hsound row rfl
      subst himp
      exact resolves_reuse_iff.mpr ⟨hcanonical, hfile⟩
  | none =>
    refine iff_of_true ?_ (by simp)
    intro faults fs' T' imported hi
    unfold importBytes at hi
    simp only [ImportSource.strongHash, hrow] at hi
    cases hd : faults.createDir with
    | some e => simp [hd] at hi
    | none =>
      simp only [hd] at hi
      split at hi
      · simp at hi
      · next hwrite =>
        simp only [Prod.mk.injEq, Except.ok.injEq] at hi
        obtain ⟨rfl, -, rfl⟩ := hi
        exact resolves_inserted (write_ok hwrite)

/-- The URIs that imports answer lead to the returned path and the imported content, just when a row
that is found has a canonical path with the content there, or, for a file, with nothing there. -/
theorem imports_resolve_iff (data : DataDir) (digest : Digest) (fs : FileTree) (T : AppFileTable) :
    (∀ (src : FilePath) (fileName mimeType : String),
      (∀ content faults fs' T' imported, fs.content? src = some content →
        importFile data digest fs T faults src fileName mimeType = (fs', T', .ok imported) →
          Resolves data fs' content imported) ↔
        ∀ content ∈ fs.content? src,
          FileSound data digest fs T src ⟨content, some fileName, mimeType⟩) ∧
    ∀ (bytes : Content) (mimeType : String),
      (∀ faults fs' T' imported,
        importBytes data digest fs T faults bytes mimeType = (fs', T', .ok imported) →
          Resolves data fs' bytes imported) ↔ BytesSound data digest fs T bytes := by
  refine ⟨fun src fileName mimeType => ⟨?_, ?_⟩, fun _ _ => importBytes_resolves_iff⟩
  · intro h content hc
    exact (importFile_resolves_iff hc).mp fun faults fs' T' imported hi =>
      h content faults fs' T' imported hc hi
  · intro h content faults fs' T' imported hc hi
    exact (importFile_resolves_iff hc).mpr (h content hc) faults fs' T' imported hi

/-- SHA-256 of the empty content. -/
def emptyDigest : Digest := fun _ => #v[0xe3, 0xb0, 0xc4, 0x42, 0x98, 0xfc, 0x1c, 0x14, 0x9a, 0xfb,
  0xf4, 0xc8, 0x99, 0x6f, 0xb9, 0x24, 0x27, 0xae, 0x41, 0xe4, 0x64, 0x9b, 0x93, 0x4c, 0xa4, 0x95,
  0x99, 0x1b, 0x78, 0x52, 0xb8, 0x55]

/-- The row of the empty content is there, but no file is. -/
theorem wiped_unresolved : ¬ ∀ (data : DataDir) (digest : Digest) (fs : FileTree)
    (T : AppFileTable) (bytes : Content) (mimeType : String) (faults : ImportFaults)
    (fs' : FileTree) (T' : AppFileTable) (imported : Imported),
    importBytes data digest fs T faults bytes mimeType = (fs', T', .ok imported) →
      Resolves data fs' bytes imported := by
  intro h
  let source : ImportSource := ⟨[], none, "text/plain"⟩
  let row := source.record (hexSha emptyDigest)
  have hrow : (Table.empty.insert row : AppFileTable).find? (hexSha emptyDigest []) = some row := by
    rw [Table.find?_insert_of_none rfl]
    exact if_pos rfl
  have hi : importBytes ⟨["data"], by decide⟩ emptyDigest (fun _ => none) (Table.empty.insert row)
      noImportFaults [] "text/plain" = (fun _ => none,
        AppFileTable.increment (Table.empty.insert row) (hexSha emptyDigest []),
          .ok (reuse ⟨["data"], by decide⟩ (hexSha emptyDigest []) row)) := by
    unfold importBytes
    simp only [ImportSource.strongHash, hrow]
  have hres := h _ _ _ _ _ _ _ _ _ _ hi
  exact absurd hres.2 (by simp)

end

end PlainRs.Chat
