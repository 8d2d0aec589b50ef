import PlainRs.Mdns.Written

/-! Messages: the records that are written are the records that are read, also with names whose
tails are pointers to where they stand already. -/
namespace PlainRs.Mdns

open Checked

/-- A name of one or more labels. -/
structure DnsName where
  labels : List String
  nonempty : labels ≠ []
  fits : ∀ label ∈ labels, LabelFits label

def DnsName.text (n : DnsName) : String := ".".intercalate n.labels

structure DnsRecord where
  name : DnsName
  recordType : UInt16
  cls : UInt16
  ttl : UInt32
  rdata : Bytes
  rdata_le : rdata.length ≤ 65535

/-- How the name of a record is written: as it is, or with the labels behind the first `kept` as a
pointer to offset `p`. -/
inductive NameField
  | whole
  | cut (kept p : Nat)

namespace NameField

def bytes (n : DnsName) : NameField → Bytes
  | whole => encodeName n.text
  | cut kept p => (n.labels.take kept).flatMap withLength ++ pointerTo p

/-- The pointer of a field at `i` goes to an earlier place, within the first 16384 bytes, where the
labels it stands for occur; it is one of at most eight in a chain. -/
def PlacedAt (data : Bytes) (i : Nat) (n : DnsName) : NameField → Prop
  | whole => True
  | cut kept p => p < 16384 ∧ p < i + ((n.labels.take kept).flatMap withLength).length ∧
      ∃ k stop, k ≤ 7 ∧ Occurs data p (n.labels.drop kept) k stop

end NameField

/-- A record with the form its name is written in. -/
structure SentRecord where
  field : NameField
  record : DnsRecord

namespace SentRecord

def bytes (r : SentRecord) : Bytes :=
  writeRecord (r.field.bytes r.record.name) r.record.recordType r.record.cls r.record.ttl
    r.record.rdata

end SentRecord

/-- `write_header`, then `write_record` for each. -/
def message (answers additional : List SentRecord) : Bytes :=
  writeHeader answers.length additional.length ++ (answers ++ additional).flatMap SentRecord.bytes

/-- The pointers of the records from offset `i` on are in place. -/
def Placed (data : Bytes) : Nat → List SentRecord → Prop
  | _, [] => True
  | i, r :: rs => r.field.PlacedAt data i r.record.name ∧ Placed data (i + r.bytes.length) rs

/-- Name, type, TTL and data of a record. -/
def DnsRecord.contents (r : DnsRecord) : String × UInt16 × UInt32 × Bytes :=
  (r.name.text, r.recordType, r.ttl, r.rdata)

def MdnsRecord.contents (r : MdnsRecord) : String × UInt16 × UInt32 × Bytes :=
  (r.name, r.recordType, r.ttl, (r.packet.drop r.rdataStart).take r.rdataLength)

/-- The packet is read as these records in these sections. -/
def ReadsAs (data : Bytes) (answers additional : List DnsRecord) : Prop :=
  ∃ p, parseResponse data = .ok (some p) ∧
    p.answers.map MdnsRecord.contents = answers.map DnsRecord.contents ∧
    p.additional.map MdnsRecord.contents = additional.map DnsRecord.contents

variable {data : Bytes} {i k n stop : Nat} {labels tail : List String} {name : DnsName}
  {field : NameField} {rs ss : List SentRecord}

theorem encodeName_text (name : DnsName) :
    encodeName name.text = name.labels.flatMap withLength ++ [0] := by
  rw [encodeName, DnsName.text, splitLabels_intercalate name.fits]

/-- Labels in front of labels that occur. -/
theorem occurs_append (hfits : ∀ label ∈ labels, LabelFits label)
    (h : At data i (labels.flatMap withLength))
    (htail : Occurs data (i + (labels.flatMap withLength).length) tail k stop) :
    Occurs data i (labels ++ tail) k stop := by
  induction labels generalizing i with
  | nil => exact htail
  | cons label labels ih =>
    obtain ⟨hlabel, hfits⟩ := List.forall_mem_cons.mp hfits
    rw [List.flatMap_cons] at h htail
    rw [List.length_append, ← Nat.add_assoc] at htail
    exact .label hlabel h.left (ih hfits h.right htail)

/-- The name occurs where its field is written. -/
theorem occurs_field (h : At data i (field.bytes name)) (hp : field.PlacedAt data i name) :
    ∃ k ≤ 8, Occurs data i name.labels k (i + (field.bytes name).length) := by
  cases field with
  | whole =>
    rw [NameField.bytes, encodeName_text] at h
    refine ⟨0, by omega, ?_⟩
    have hlabels := occurs_append name.fits h.left (.root h.right)
    rw [List.append_nil] at hlabels
    rwa [NameField.bytes, encodeName_text, List.length_append, ← Nat.add_assoc]
  | cut kept p =>
    obtain ⟨hlt, hearlier, k, stop, hk, htail⟩ := hp
    rw [NameField.bytes] at h
    refine ⟨k + 1, by omega, ?_⟩
    have hlabels := occurs_append (fun label hl => name.fits label (List.mem_of_mem_take hl)) h.left
      (.pointer hlt hearlier h.right htail)
    rw [List.take_append_drop] at hlabels
    rwa [NameField.bytes, List.length_append, ← Nat.add_assoc]

theorem placed_append (h : Placed data i (rs ++ ss)) :
    Placed data i rs ∧ Placed data (i + (rs.flatMap SentRecord.bytes).length) ss := by
  induction rs generalizing i with
  | nil => exact ⟨trivial, h⟩
  | cons r rs ih =>
    obtain ⟨hr, hrest⟩ := ih h.2
    refine ⟨⟨h.1, hr⟩, ?_⟩
    rwa [List.flatMap_cons, List.length_append, ← Nat.add_assoc]

/-- What follows the name of a record. -/
def recordTail (r : DnsRecord) : Bytes :=
  writeU16 r.recordType ++ (writeU16 r.cls ++ (writeU32 r.ttl ++
    (writeU16 (lengthU16 r.rdata.length) ++ r.rdata)))

theorem SentRecord.bytes_eq (r : SentRecord) :
    r.bytes = r.field.bytes r.record.name ++ recordTail r.record := by
  simp [SentRecord.bytes, writeRecord, recordTail]

/-- Records that stand in a packet with their pointers in place are read as they are. -/
theorem readRecords_written (h : At data i (rs.flatMap SentRecord.bytes)) (hp : Placed data i rs) :
    ∃ records, readRecords data rs.length i =
        .ok (some (records, i + (rs.flatMap SentRecord.bytes).length)) ∧
      records.map MdnsRecord.contents = rs.map (·.record.contents) := by
  induction rs generalizing i with
  | nil => exact ⟨[], rfl, rfl⟩
  | cons r rs ih =>
    rw [List.flatMap_cons] at h
    obtain ⟨records, hread, hcontents⟩ := ih h.right hp.2
    have hrecord := h.left
    rw [r.bytes_eq] at hrecord
    obtain ⟨k, hk, hname⟩ := occurs_field hrecord.left hp.1
    obtain ⟨-, -, -, hdata⟩ := read_afterName hrecord.right
    have hlen : (recordTail r.record).length = 10 + r.record.rdata.length := length_afterName
    have hstop : i + r.bytes.length =
        i + (r.field.bytes r.record.name).length + 10 + r.record.rdata.length := by
      rw [r.bytes_eq, List.length_append, hlen]
      omega
    rw [hstop] at hread
    refine ⟨⟨r.record.name.text, r.record.recordType, r.record.ttl, data,
      i + (r.field.bytes r.record.name).length + 10, r.record.rdata.length⟩ :: records, ?_, ?_⟩
    · rw [List.length_cons, readRecords_cons (readName_occurs hname hk) r.record.rdata_le
        hrecord.right, hread, List.flatMap_cons, List.length_append, ← Nat.add_assoc, hstop]
      rfl
    · rw [List.map_cons, List.map_cons, hcontents, MdnsRecord.contents, DnsRecord.contents,
        hdata.take_drop]

/-- The counts of a header, and where its flags are. -/
theorem read_header {a b : Nat} (h : At data 0 (writeHeader a b)) :
    readU16 data 2 = .ok dnsResponseFlags ∧ readU16 data 4 = .ok 0 ∧
      readU16 data 6 = .ok (lengthU16 a) ∧ readU16 data 8 = .ok 0 ∧
        readU16 data 10 = .ok (lengthU16 b) := by
  rw [writeHeader] at h
  simp only [List.append_assoc] at h
  have h₂ := h.right
  have h₄ := h₂.right
  have h₆ := h₄.right
  have h₈ := h₆.right
  have h₁₀ := h₈.right
  simp only [length_writeU16, Nat.zero_add, Nat.reduceAdd] at h₂ h₄ h₆ h₈ h₁₀
  exact ⟨readU16_written h₂.left, readU16_written h₄.left, readU16_written h₆.left,
    readU16_written h₈.left, readU16_written h₁₀⟩

/-- A response is parsed section by section. -/
theorem parseResponse_sections {a b j : Nat} {answers additional : List MdnsRecord}
    (ha : a ≤ 65535) (hb : b ≤ 65535) (hheader : At data 0 (writeHeader a b))
    (hanswers : readRecords data a 12 = .ok (some (answers, j)))
    (hadditional : readRecords data b j = .ok (some (additional, k))) :
    parseResponse data = .ok (some ⟨dnsResponseFlags, answers, additional⟩) := by
  obtain ⟨hflags, hqd, han, hns, har⟩ := read_header hheader
  have hle : 12 ≤ data.length := hheader.le
  have hskip : skipQuestions data (0 : UInt16).toNat 12 = .ok (some 12) := rfl
  have hauthority : ∀ i, readRecords data (0 : UInt16).toNat i = .ok (some ([], i)) := fun _ => rfl
  rw [parseResponse, if_neg (by omega), hflags, ok_bind, hqd, ok_bind, han, ok_bind, hns, ok_bind,
    har, ok_bind, hskip, ok_bind]
  simp only [readSections, toNat_lengthU16 ha, toNat_lengthU16 hb, hanswers, hauthority,
    hadditional, ok_bind]
  rfl

/-- A message with its pointers in place is read as the records it is made of. -/
theorem parseResponse_message (hr : rs.length ≤ 65535) (hs : ss.length ≤ 65535)
    (hp : Placed (message rs ss) 12 (rs ++ ss)) :
    ReadsAs (message rs ss) (rs.map SentRecord.record) (ss.map SentRecord.record) := by
  have hheader : At (message rs ss) 0 (writeHeader rs.length ss.length) :=
    ⟨[], (rs ++ ss).flatMap SentRecord.bytes, rfl, rfl⟩
  have hlen : (writeHeader rs.length ss.length).length = 12 := rfl
  have hrecords : At (message rs ss) 12 (rs.flatMap SentRecord.bytes ++
      ss.flatMap SentRecord.bytes) := by
    rw [← hlen, ← List.flatMap_append]
    exact .of_append
  obtain ⟨hpr, hps⟩ := placed_append hp
  obtain ⟨answers, hanswers, hac⟩ := readRecords_written hrecords.left hpr
  obtain ⟨additional, hadditional, hbc⟩ := readRecords_written hrecords.right hps
  refine ⟨⟨dnsResponseFlags, answers, additional⟩,
    parseResponse_sections hr hs hheader hanswers hadditional, ?_, ?_⟩
  · rw [hac, List.map_map]
    rfl
  · rw [hbc, List.map_map]
    rfl

theorem placed_whole {records : List DnsRecord} :
    Placed data i (records.map (SentRecord.mk .whole)) := by
  induction records generalizing i with
  | nil => trivial
  | cons r records ih => exact ⟨trivial, ih⟩

/-- Written and parsed, the records are the same in the same sections; and so they are in any form
of the message in which names or tails of names are pointers to where those labels occur earlier. -/
theorem mdns_round_trip (answers additional : List DnsRecord) (hanswers : answers.length ≤ 65535)
    (hadditional : additional.length ≤ 65535) :
    ReadsAs (message (answers.map (.mk .whole)) (additional.map (.mk .whole))) answers additional ∧
      ∀ rs ss : List SentRecord, rs.map SentRecord.record = answers →
        ss.map SentRecord.record = additional → Placed (message rs ss) 12 (rs ++ ss) →
          ReadsAs (message rs ss) answers additional := by
  have hcut : ∀ rs ss : List SentRecord, rs.map SentRecord.record = answers →
      ss.map SentRecord.record = additional → Placed (message rs ss) 12 (rs ++ ss) →
        ReadsAs (message rs ss) answers additional := by
    rintro rs ss rfl rfl hp
    rw [List.length_map] at hanswers hadditional
    exact parseResponse_message hanswers hadditional hp
  refine ⟨hcut _ _ ?_ ?_ ?_, hcut⟩
  · rw [List.map_map]
    exact List.map_id _
  · rw [List.map_map]
    exact List.map_id _
  · rw [← List.map_append]
    exact placed_whole

def hostRecord (label : String) (h : LabelFits label) : DnsRecord where
  name := ⟨[label, "local"], by simp, by simp [h]; decide +kernel⟩
  recordType := typeA
  cls := dnsCacheFlushClassIn
  ttl := ttlSeconds
  rdata := [10, 0, 0, 1]
  rdata_le := by decide

def hostX : DnsRecord := hostRecord "x" (by decide +kernel)

def hostY : DnsRecord := hostRecord "y" (by decide +kernel)

/-- The second host writes `local` as a pointer into the name of the first. -/
def twoHosts : Bytes := message [⟨.whole, hostX⟩] [⟨.cut 1 14, hostY⟩]

theorem twoHosts_eq : twoHosts = twoHosts.take 14 ++ withLength "local" ++ twoHosts.drop 20 ∧
    twoHosts = twoHosts.take 20 ++ [0] ++ twoHosts.drop 21 := by
  decide +kernel

theorem mdns_round_trip_hosts : ReadsAs twoHosts [hostX] [hostY] := by
  refine (mdns_round_trip [hostX] [hostY] (by decide) (by decide)).2 [⟨.whole, hostX⟩]
    [⟨.cut 1 14, hostY⟩] rfl rfl ⟨trivial, ⟨?_, trivial⟩⟩
  refine ⟨by decide, by decide +kernel, 0, 21, by decide, ?_⟩
  refine .label (by decide +kernel) ⟨_, _, twoHosts_eq.1, by decide +kernel⟩ ?_
  exact .root ⟨_, _, twoHosts_eq.2, by decide +kernel⟩

end PlainRs.Mdns
