import PlainRs.Mdns.Goodbyes
import PlainRs.Mdns.WireRecords

/-! What the response for a published service tells a browser. -/
namespace PlainRs.Mdns

open Checked

namespace MdnsServiceInfo

variable (s : MdnsServiceInfo)

def ptr : WireRecord :=
  ⟨s.serviceType, typePtr, dnsClassIn, ttlSeconds, encodeName s.instanceFqdn⟩

def srv : WireRecord :=
  ⟨s.instanceFqdn, typeSrv, dnsCacheFlushClassIn, ttlSeconds,
    writeU16 0 ++ writeU16 0 ++ writeU16 s.port ++ encodeName s.targetHostname⟩

def txt : WireRecord :=
  ⟨s.instanceFqdn, typeTxt, dnsCacheFlushClassIn, ttlSeconds, s.txtRecords.flatMap withLength⟩

def a (ip : String) : WireRecord :=
  ⟨s.targetHostname, typeA, dnsCacheFlushClassIn, ttlSeconds, ipToBytes ip⟩

/-- The answers to a query that wants the PTR record. -/
def answers (w : Wanted) : List WireRecord :=
  s.ptr :: ((if w.srv then [s.srv] else []) ++ (if w.txt then [s.txt] else []) ++
    (if w.a then s.ips.map s.a else []))

/-- The records it did not ask for. -/
def additional (w : Wanted) : List WireRecord :=
  (if w.srv then [] else [s.srv]) ++ (if w.txt then [] else [s.txt]) ++
    (if w.a then [] else s.ips.map s.a)

/-- The lengths and counts of the response are within what its fields hold and the reader takes. -/
structure Sendable (w : Wanted) : Prop where
  name : ∀ label ∈ splitLabels s.instanceName, (Text.bytes label).length ≤ 191
  hostname : ∀ label ∈ splitLabels s.targetHostname, (Text.bytes label).length ≤ 191
  txt : ∀ text ∈ s.txtRecords, (Text.bytes text).length ≤ 255
  ips : ∀ ip ∈ s.ips, DottedQuad ip
  ptrData : s.ptr.rdata.length ≤ 65535
  srvData : s.srv.rdata.length ≤ 65535
  counts : (s.answers w).length ≤ 65535 ∧ (s.additional w).length ≤ 65535

end MdnsServiceInfo

/-- Lowercase, an instance of the service type still ends with it. -/
def KeepsServiceType (toLowercase : String → String) : Prop :=
  ∀ name, (toLowercase plainappServiceType).toList <:+
    (toLowercase (name ++ "." ++ plainappServiceType)).toList

variable {inner : Inner} {s : MdnsServiceInfo} {w : Wanted} {query : Bytes}
  {questions : List MdnsQuestion} {r : WireRecord} {m : MdnsRecord} {name host ip : String}
  {f : String → String → Entry}

theorem splitLabels_append (x y : String) :
    splitLabels (x ++ "." ++ y) = splitLabels x ++ splitLabels y := by
  have hdot : ".".toList = ['.'] := by decide
  rw [splitLabels, String.toList_append, String.toList_append, hdot, List.append_assoc,
    List.singleton_append, List.splitOn_append_cons_self, List.filter_append, List.map_append]
  rfl

theorem splitLabels_serviceType :
    splitLabels plainappServiceType = ["_plainapp", "_tcp", "local"] := by
  decide +kernel

theorem readBack_serviceType : readBack plainappServiceType = plainappServiceType := by
  rw [readBack, splitLabels_serviceType]
  decide +kernel

theorem readBack_fqdn (h : splitLabels name ≠ []) :
    readBack (name ++ "." ++ plainappServiceType) = readBack name ++ "." ++ plainappServiceType := by
  have htype := readBack_serviceType
  rw [readBack] at htype
  rw [readBack, splitLabels_append, String.intercalate_append_of_ne_nil h
    (by rw [splitLabels_serviceType]; simp), htype]
  rfl

theorem readBack_fqdn_nil (h : splitLabels name = []) :
    readBack (name ++ "." ++ plainappServiceType) = plainappServiceType := by
  rw [readBack, splitLabels_append, h, List.nil_append]
  exact readBack_serviceType

theorem readBack_eq_empty : readBack name = "" ↔ splitLabels name = [] := by
  constructor
  · intro he
    have hpos : ∀ label ∈ splitLabels name, 1 ≤ (Text.bytes label).length :=
      fun _ => length_pos_of_mem_splitLabels
    rw [readBack] at he
    cases hl : splitLabels name with
    | nil => rfl
    | cons label labels =>
      rw [hl] at he hpos
      obtain ⟨rest, hrest⟩ : ∃ rest, ".".intercalate (label :: labels) = label ++ rest := by
        cases labels with
        | nil => exact ⟨"", by simp⟩
        | cons next labels => exact ⟨_, String.intercalate_cons_cons.trans (String.append_assoc ..)⟩
      rw [hrest, String.append_eq_empty_iff] at he
      have hlen := hpos label List.mem_cons_self
      rw [he.1] at hlen
      exact absurd hlen (by decide)
  · intro h
    rw [readBack, h]
    rfl

theorem instanceNameLen_fqdn (x : String) :
    instanceNameLen (x ++ "." ++ plainappServiceType) = x.utf8ByteSize := by
  have hdot : ".".utf8ByteSize = 1 := by decide
  rw [instanceNameLen, String.utf8ByteSize_append, String.utf8ByteSize_append, hdot]
  omega

theorem sliceTo_fqdn (x : String) :
    Text.sliceTo (x ++ "." ++ plainappServiceType) x.utf8ByteSize = some x := by
  have hsize := String.utf8ByteSize_ofList x.toList
  rw [String.ofList_toList] at hsize
  rw [Text.sliceTo, hsize, String.toList_append, String.toList_append, List.append_assoc,
    Text.takeBytes_append, Option.map_some, String.ofList_toList]

theorem instanceKeyOf_serviceType : instanceKeyOf inner plainappServiceType = none := by
  have hlen : instanceNameLen plainappServiceType = 0 := by
    rw [instanceNameLen]
    omega
  rw [instanceKeyOf, hlen, if_pos rfl]
  split <;> rfl

/-- The key and the name of an instance are found again. -/
theorem namedEntry_fqdn (hkeeps : KeepsServiceType inner.toLowercase) (h : splitLabels name ≠ []) :
    namedEntry inner (readBack (name ++ "." ++ plainappServiceType)) f =
      f (inner.toLowercase (readBack name ++ "." ++ plainappServiceType)) (readBack name) := by
  have hne : (readBack name).utf8ByteSize ≠ 0 := by
    rw [Ne, String.utf8ByteSize_eq_zero_iff, readBack_eq_empty]
    exact h
  have hkey : instanceKeyOf inner (readBack name ++ "." ++ plainappServiceType) =
      some (inner.toLowercase (readBack name ++ "." ++ plainappServiceType)) := by
    rw [instanceKeyOf, List.isSuffixOf_iff_suffix.mpr (hkeeps _), instanceNameLen_fqdn,
      if_neg (by simp), if_neg hne]
  rw [readBack_fqdn h, namedEntry, hkey, instanceNameLen_fqdn, sliceTo_fqdn]

/-- Without a name there is no instance. -/
theorem namedEntry_fqdn_nil (h : splitLabels name = []) :
    namedEntry inner (readBack (name ++ "." ++ plainappServiceType)) f = .other := by
  rw [readBack_fqdn_nil h, namedEntry, instanceKeyOf_serviceType]

/-- A name of the service can be cut before its type. -/
theorem cuttable_fqdn : Cuttable inner (readBack (name ++ "." ++ plainappServiceType)) := by
  intro hkey
  by_cases h : splitLabels name = []
  · rw [readBack_fqdn_nil h] at hkey
    exact absurd instanceKeyOf_serviceType hkey
  · rw [readBack_fqdn h, instanceNameLen_fqdn, sliceTo_fqdn]
    rfl

/-- What a TXT record of `key=value` strings gives for the key. -/
theorem txtValue_append {key other value : String} (hne : key ≠ "") (heq : '=' ∉ key.toList) :
    txtValue other (key ++ "=" ++ value) = if key = other then some value else none := by
  have hbyte : ∀ pre post : List Char, '=' ∉ pre →
      Text.findByte '=' (pre ++ '=' :: post) = some (String.utf8Len pre) := by
    intro pre post hpre
    induction pre with
    | nil => rfl
    | cons c pre ih =>
      rw [List.mem_cons, not_or] at hpre
      rw [List.cons_append, Text.findByte, if_neg (Ne.symm hpre.1), ih hpre.2, Option.map_some,
        String.utf8Len_cons, Nat.add_comm]
  have hlist : (key ++ "=" ++ value).toList = key.toList ++ '=' :: value.toList := by
    have hmark : "=".toList = ['='] := by decide
    rw [String.toList_append, String.toList_append, hmark, List.append_assoc]
    rfl
  have hpos : String.utf8Len key.toList ≠ 0 := by
    rw [Ne, String.utf8Len_eq_zero, String.toList_eq_nil_iff]
    exact hne
  have hnext : String.utf8Len key.toList + 1 = String.utf8Len (key.toList ++ ['=']) := by
    rw [String.utf8Len_append]
    rfl
  have hpair : txtPair (key ++ "=" ++ value) = some (key, value) := by
    have hto : Text.sliceTo (key ++ "=" ++ value) (String.utf8Len key.toList) = some key := by
      rw [Text.sliceTo, hlist, Text.takeBytes_append, Option.map_some, String.ofList_toList]
    have hfrom : Text.sliceFrom (key ++ "=" ++ value) (String.utf8Len key.toList + 1) =
        some value := by
      rw [Text.sliceFrom, hlist, hnext, List.append_cons key.toList '=' value.toList,
        Text.dropBytes_append, Option.map_some, String.ofList_toList]
    rw [txtPair, Text.find, hlist, hbyte _ _ heq]
    simp only [if_neg hpos, hto, hfrom]
  rw [txtValue, hpair]
  rfl

/-- The response to a query that wants the PTR record, as its records. -/
theorem buildResponseIfMatch_eq (hips : s.ips ≠ [])
    (hquery : readQuestions query = .ok (some questions)) (hptr : (wanted s questions).ptr = true) :
    buildResponseIfMatch s query = .ok (some (
      writeHeader (s.answers (wanted s questions)).length (s.additional (wanted s questions)).length ++
        (s.answers (wanted s questions) ++ s.additional (wanted s questions)).flatMap
          WireRecord.bytes)) := by
  generalize hw : wanted s questions = w at hptr ⊢
  have hptrBytes : ptrRecord s ttlSeconds = s.ptr.bytes := rfl
  have hsrvBytes : srvRecord s ttlSeconds = s.srv.bytes := rfl
  have htxtBytes : txtRecord s ttlSeconds = s.txt.bytes := rfl
  have haBytes : aRecords s = (s.ips.map s.a).flatMap WireRecord.bytes := by
    rw [List.flatMap_map]
    rfl
  have hne : s.ptr.bytes ≠ [] := by
    rw [s.ptr.bytes_eq]
    simp [encodeName]
  unfold buildResponseIfMatch
  rw [if_neg hips, hquery, ok_bind]
  simp only [hw, hptr, hptrBytes, hsrvBytes, htxtBytes, haBytes]
  unfold MdnsServiceInfo.answers MdnsServiceInfo.additional
  cases w.srv <;> cases w.txt <;> cases w.a <;> 
    simp [hne, pure, Except.pure, Nat.add_comm, Nat.add_left_comm]

theorem mem_records : r ∈ s.answers w ++ s.additional w ↔
    r = s.ptr ∨ r = s.srv ∨ r = s.txt ∨ r ∈ s.ips.map s.a := by
  unfold MdnsServiceInfo.answers MdnsServiceInfo.additional
  cases w.srv <;> cases w.txt <;> cases w.a <;>
    simp only [Bool.false_eq_true, if_false, if_true, List.mem_append, List.mem_cons,
      List.not_mem_nil, or_false, false_or] <;>
    tauto

theorem length_txtData {strings : List String}
    (h : ∀ text ∈ strings, (Text.bytes text).length ≤ 255) :
    (strings.flatMap withLength).length ≤ 256 * strings.length := by
  induction strings with
  | nil => simp
  | cons text strings ih =>
    obtain ⟨hone, hrest⟩ := List.forall_mem_cons.mp h
    have hcons : (withLength text).length = (Text.bytes text).length + 1 := rfl
    have hle := ih hrest
    rw [List.flatMap_cons, List.length_append, List.length_cons]
    omega

theorem serviceType_fits :
    ∀ label ∈ splitLabels plainappServiceType, (Text.bytes label).length ≤ 191 := by
  rw [splitLabels_serviceType]
  decide +kernel

theorem fqdn_fits (htype : s.serviceType = plainappServiceType) (hs : s.Sendable w) :
    ∀ label ∈ splitLabels s.instanceFqdn, (Text.bytes label).length ≤ 191 := by
  intro label hl
  rw [MdnsServiceInfo.instanceFqdn, htype, splitLabels_append] at hl
  rcases List.mem_append.mp hl with hl | hl
  · exact hs.name label hl
  · exact serviceType_fits label hl

theorem fits_of_sendable (htype : s.serviceType = plainappServiceType)
    (htxt : s.txtRecords.length ≤ 6) (hs : s.Sendable w) :
    ∀ r ∈ s.answers w ++ s.additional w, r.Fits := by
  have hfqdn := fqdn_fits htype hs
  intro r hr
  rcases mem_records.mp hr with rfl | rfl | rfl | hr
  · refine ⟨?_, hs.ptrData⟩
    rw [MdnsServiceInfo.ptr, htype]
    exact serviceType_fits
  · exact ⟨hfqdn, hs.srvData⟩
  · exact ⟨hfqdn, (length_txtData hs.txt).trans (by omega)⟩
  · obtain ⟨ip, hip, rfl⟩ := List.mem_map.mp hr
    obtain ⟨a, b, c, d, hquad⟩ := hs.ips ip hip
    refine ⟨hs.hostname, ?_⟩
    have hlen : (s.a ip).rdata.length = 4 := congrArg List.length (ipToBytes_eq hquad)
    omega

/-- The browser takes in the records that the service sent. -/
theorem response_published (htype : s.serviceType = plainappServiceType)
    (htxt : s.txtRecords.length ≤ 6) (hs : s.Sendable w) {sender : String}
    (hremote : inner.isLocalIp sender = false) :
    ∃ ms, response inner (writeHeader (s.answers w).length (s.additional w).length ++
        (s.answers w ++ s.additional w).flatMap WireRecord.bytes) sender = some ms ∧
      List.Forall₂ WireRecord.ReadAs (s.answers w ++ s.additional w) ms := by
  have hfits := fits_of_sendable htype htxt hs
  generalize hdata : writeHeader (s.answers w).length (s.additional w).length ++
    (s.answers w ++ s.additional w).flatMap WireRecord.bytes = data
  have hheader : At data 0 (writeHeader (s.answers w).length (s.additional w).length) :=
    ⟨[], (s.answers w ++ s.additional w).flatMap WireRecord.bytes, hdata.symm, rfl⟩
  have hlen : (writeHeader (s.answers w).length (s.additional w).length).length = 12 := rfl
  have hrecords : At data 12 ((s.answers w).flatMap WireRecord.bytes ++
      (s.additional w).flatMap WireRecord.bytes) := by
    rw [← hlen, ← List.flatMap_append, ← hdata]
    exact .of_append
  obtain ⟨answers, hanswers, hreadAnswers⟩ := readRecords_wire
    (fun r hr => hfits r (List.mem_append_left _ hr)) hrecords.left
  obtain ⟨additional, hadditional, hreadAdditional⟩ := readRecords_wire
    (fun r hr => hfits r (List.mem_append_right _ hr)) hrecords.right
  have hparsed := parseResponse_sections hs.counts.1 hs.counts.2 hheader hanswers hadditional
  have hflag : MdnsParsedResponse.isResponse ⟨dnsResponseFlags, answers, additional⟩ = true := by
    have hbit : dnsResponseFlags &&& 0x8000 ≠ 0 := by decide
    exact decide_eq_true hbit
  refine ⟨answers ++ additional, ?_, List.rel_append hreadAnswers hreadAdditional⟩
  rw [response, if_neg (by simp [hremote]), hparsed]
  exact if_pos hflag

theorem mem_pairs {α β : Type} {R : α → β → Prop} {xs : List α} {ys : List β}
    (h : List.Forall₂ R xs ys) :
    (∀ x ∈ xs, ∃ y ∈ ys, R x y) ∧ ∀ y ∈ ys, ∃ x ∈ xs, R x y := by
  induction h with
  | nil => exact ⟨nofun, nofun⟩
  | cons hone _ ih =>
    refine ⟨?_, ?_⟩
    · intro x hx
      rcases List.mem_cons.mp hx with rfl | hx
      · exact ⟨_, List.mem_cons_self, hone⟩
      · obtain ⟨y, hy, hr⟩ := ih.1 x hx
        exact ⟨y, List.mem_cons_of_mem _ hy, hr⟩
    · intro y hy
      rcases List.mem_cons.mp hy with rfl | hy
      · exact ⟨_, List.mem_cons_self, hone⟩
      · obtain ⟨x, hx, hr⟩ := ih.2 y hy
        exact ⟨x, List.mem_cons_of_mem _ hx, hr⟩

namespace MdnsServiceInfo

/-- What the records tell a browser. -/
inductive Tells (s : MdnsServiceInfo) (inner : Inner) : Entry → Prop
  | ptr : Tells s inner (namedEntry inner (readBack s.instanceFqdn) .ptr)
  | srv : Tells s inner (namedEntry inner (readBack s.instanceFqdn)
      (.srv · · s.port (readBack s.targetHostname)))
  | txt : Tells s inner (namedEntry inner (readBack s.instanceFqdn) (.txt · · s.txtRecords))
  | a {ip : String} (h : ip ∈ s.ips) :
      Tells s inner (.a (inner.toLowercase (readBack s.targetHostname)) ip)

end MdnsServiceInfo

theorem entryOf_ptr (h : s.ptr.ReadAs m)
    (hfqdn : ∀ label ∈ splitLabels s.instanceFqdn, (Text.bytes label).length ≤ 191) :
    entryOf inner m = namedEntry inner (readBack s.instanceFqdn) .ptr := by
  have ht : m.recordType = typePtr := h.recordType
  rw [entryOf, if_pos ht, ptrTarget_read h rfl rfl hfqdn]
  rfl

theorem entryOf_srv (h : s.srv.ReadAs m)
    (hhost : ∀ label ∈ splitLabels s.targetHostname, (Text.bytes label).length ≤ 191) :
    entryOf inner m = namedEntry inner (readBack s.instanceFqdn)
      (.srv · · s.port (readBack s.targetHostname)) := by
  have ht : m.recordType = typeSrv := h.recordType
  have hp : m.recordType ≠ typePtr := by rw [ht]; decide
  rw [entryOf, if_neg hp, if_pos ht, srv_read h rfl rfl hhost, h.name]
  rfl

theorem entryOf_txt (h : s.txt.ReadAs m)
    (htxt : ∀ text ∈ s.txtRecords, (Text.bytes text).length ≤ 255) :
    entryOf inner m = namedEntry inner (readBack s.instanceFqdn) (.txt · · s.txtRecords) := by
  have ht : m.recordType = typeTxt := h.recordType
  have hp : m.recordType ≠ typePtr := by rw [ht]; decide
  have hs : m.recordType ≠ typeSrv := by rw [ht]; decide
  rw [entryOf, if_neg hp, if_neg hs, if_pos ht, txtStrings_read h rfl rfl htxt, h.name]
  rfl

theorem entryOf_a (h : (s.a ip).ReadAs m) (hip : DottedQuad ip) :
    entryOf inner m = .a (inner.toLowercase (readBack s.targetHostname)) ip := by
  have ht : m.recordType = typeA := h.recordType
  have hp : m.recordType ≠ typePtr := by rw [ht]; decide
  have hs : m.recordType ≠ typeSrv := by rw [ht]; decide
  have hx : m.recordType ≠ typeTxt := by rw [ht]; decide
  rw [entryOf, if_neg hp, if_neg hs, if_neg hx, if_pos ht, ip_read h rfl rfl hip, h.name]
  rfl

/-- The browser is told just this. -/
theorem mem_entries (htype : s.serviceType = plainappServiceType) (hs : s.Sendable w)
    {ms : List MdnsRecord}
    (hms : List.Forall₂ WireRecord.ReadAs (s.answers w ++ s.additional w) ms) (e : Entry) :
    e ∈ ms.map (entryOf inner) ↔ s.Tells inner e := by
  obtain ⟨hsent, hread⟩ := mem_pairs hms
  have hfqdn := fqdn_fits htype hs
  constructor
  · intro he
    obtain ⟨m, hm, rfl⟩ := List.mem_map.mp he
    obtain ⟨r, hr, hone⟩ := hread m hm
    rcases mem_records.mp hr with rfl | rfl | rfl | hr
    · rw [entryOf_ptr hone hfqdn]
      exact .ptr
    · rw [entryOf_srv hone hs.hostname]
      exact .srv
    · rw [entryOf_txt hone hs.txt]
      exact .txt
    · obtain ⟨ip, hip, rfl⟩ := List.mem_map.mp hr
      rw [entryOf_a hone (hs.ips ip hip)]
      exact .a hip
  · intro he
    cases he with
    | ptr =>
      obtain ⟨m, hm, hone⟩ := hsent s.ptr (mem_records.mpr (.inl rfl))
      exact List.mem_map.mpr ⟨m, hm, entryOf_ptr hone hfqdn⟩
    | srv =>
      obtain ⟨m, hm, hone⟩ := hsent s.srv (mem_records.mpr (.inr (.inl rfl)))
      exact List.mem_map.mpr ⟨m, hm, entryOf_srv hone hs.hostname⟩
    | txt =>
      obtain ⟨m, hm, hone⟩ := hsent s.txt (mem_records.mpr (.inr (.inr (.inl rfl))))
      exact List.mem_map.mpr ⟨m, hm, entryOf_txt hone hs.txt⟩
    | a hip =>
      obtain ⟨m, hm, hone⟩ := hsent (s.a _)
        (mem_records.mpr (.inr (.inr (.inr (List.mem_map_of_mem hip)))))
      exact List.mem_map.mpr ⟨m, hm, entryOf_a hone (hs.ips _ hip)⟩

/-- Nothing the service sends makes the browser panic, and nothing withdraws an instance. -/
theorem harmless_records (htype : s.serviceType = plainappServiceType) (hs : s.Sendable w)
    {ms : List MdnsRecord}
    (hms : List.Forall₂ WireRecord.ReadAs (s.answers w ++ s.additional w) ms) :
    (∀ m ∈ ms, m.ttl ≠ 0) ∧ ∀ m ∈ ms, ∀ x, lookedUp m = some x → Cuttable inner x := by
  have hfqdn := fqdn_fits htype hs
  have hcut : Cuttable inner (readBack s.instanceFqdn) := by
    rw [MdnsServiceInfo.instanceFqdn, htype]
    exact cuttable_fqdn
  obtain ⟨-, hread⟩ := mem_pairs hms
  refine ⟨?_, ?_⟩
  · intro m hm
    obtain ⟨r, hr, hone⟩ := hread m hm
    have httl : r.ttl = ttlSeconds := by
      rcases mem_records.mp hr with rfl | rfl | rfl | hr
      · rfl
      · rfl
      · rfl
      · obtain ⟨ip, -, rfl⟩ := List.mem_map.mp hr
        rfl
    rw [hone.ttl, httl]
    decide
  · intro m hm x hx
    obtain ⟨r, hr, hone⟩ := hread m hm
    have hrtype := hone.recordType
    unfold lookedUp at hx
    rcases mem_records.mp hr with rfl | rfl | rfl | hr
    · have ht : m.recordType = typePtr := hrtype
      rw [if_pos ht, ptrTarget_read hone rfl rfl hfqdn] at hx
      rwa [← Option.some.inj hx]
    · have ht : m.recordType = typeSrv := hrtype
      have hp : m.recordType ≠ typePtr := by rw [ht]; decide
      rw [if_neg hp, if_pos ht] at hx
      split at hx
      · rw [← Option.some.inj hx, hone.name]
        exact hcut
      · cases hx
    · have ht : m.recordType = typeTxt := hrtype
      have hp : m.recordType ≠ typePtr := by rw [ht]; decide
      have hv : m.recordType ≠ typeSrv := by rw [ht]; decide
      rw [if_neg hp, if_neg hv, if_pos ht] at hx
      rw [← Option.some.inj hx, hone.name]
      exact hcut
    · obtain ⟨ip, -, rfl⟩ := List.mem_map.mp hr
      have ht : m.recordType = typeA := hrtype
      have hp : m.recordType ≠ typePtr := by rw [ht]; decide
      have hv : m.recordType ≠ typeSrv := by rw [ht]; decide
      have hn : m.recordType ≠ typeTxt := by rw [ht]; decide
      rw [if_neg hp, if_neg hv, if_neg hn] at hx
      cases hx

end PlainRs.Mdns
