import PlainRs.Mdns.PacketCodec

/-! Parsed records, their accessors, and the parsing of a response. -/
namespace PlainRs.Mdns

open Checked

/-- The service type PlainApp devices advertise. -/
def plainappServiceType : String := "_plainapp._tcp.local"

structure MdnsSrvRecord where
  port : UInt16
  target : String

/-- A resource record, with the packet it was read from. -/
structure MdnsRecord where
  name : String
  recordType : UInt16
  ttl : UInt32
  packet : Bytes
  rdataStart : Nat
  rdataLength : Nat

structure MdnsParsedResponse where
  flags : UInt16
  answers : List MdnsRecord
  additional : List MdnsRecord

namespace MdnsRecord

variable (r : MdnsRecord)

def ptrTarget : Checked (Option String) :=
  if r.recordType = typePtr then (·.map Prod.fst) <$> readName r.packet r.rdataStart 0
  else pure none

/-- A target that cannot be read is empty. -/
def srv : Checked (Option MdnsSrvRecord) :=
  if r.recordType = typeSrv ∧ 6 ≤ r.rdataLength then do
    let port ← readU16 r.packet (r.rdataStart + 4)
    let target ← readName r.packet (r.rdataStart + 6) 0
    pure (some ⟨port, (target.map Prod.fst).getD ""⟩)
  else pure none

/-- The loop of `parse_txt_strings`; it runs at most once for each byte left. -/
def txtStringsFrom (packet : Bytes) (stop : Nat) : Nat → Nat → List String → Checked (List String)
  | 0, _, strings => pure strings
  | left + 1, offset, strings =>
    if offset < stop then do
      let len ← get packet offset
      if stop < offset + 1 + len.toNat then pure strings
      else do
        let text ← slice packet (offset + 1) (offset + 1 + len.toNat)
        txtStringsFrom packet stop left (offset + 1 + len.toNat)
          (strings ++ [Text.fromUtf8Lossy text])
    else pure strings

def parseTxtStrings : Checked (List String) :=
  txtStringsFrom r.packet (r.rdataStart + r.rdataLength) r.rdataLength r.rdataStart []

def txtStrings : Checked (Option (List String)) :=
  if r.recordType = typeTxt then some <$> r.parseTxtStrings else pure none

def ip : Checked (Option String) :=
  if r.recordType = typeA ∧ r.rdataLength = 4 then do
    let a ← get r.packet r.rdataStart
    let b ← get r.packet (r.rdataStart + 1)
    let c ← get r.packet (r.rdataStart + 2)
    let d ← get r.packet (r.rdataStart + 3)
    pure (some s!"{a.toNat}.{b.toNat}.{c.toNat}.{d.toNat}")
  else pure none

def ipv6 : Checked (Option String) :=
  if r.recordType = typeAaaa ∧ r.rdataLength = 16 then do
    let bytes ← slice r.packet r.rdataStart (r.rdataStart + 16)
    ipv6ToString bytes
  else pure none

/-- The record data lies within the packet. -/
def Fits : Prop := r.rdataStart + r.rdataLength ≤ r.packet.length

end MdnsRecord

namespace MdnsParsedResponse

def isResponse (p : MdnsParsedResponse) : Bool := p.flags &&& 0x8000 ≠ 0

def allRecords (p : MdnsParsedResponse) : List MdnsRecord := p.answers ++ p.additional

end MdnsParsedResponse

def readRecords (data : Bytes) : Nat → Nat → Checked (Option (List MdnsRecord × Nat))
  | 0, offset => pure (some ([], offset))
  | count + 1, start => do
    match ← readName data start 0 with
    | none => pure none
    | some (name, offset) =>
      if data.length < offset + 10 then pure none
      else do
        let recordType ← readU16 data offset
        let ttl ← readU32 data (offset + 4)
        let rdlen ← readU16 data (offset + 8)
        if data.length < offset + 10 + rdlen.toNat then pure none
        else
          let record : MdnsRecord := ⟨name, recordType, ttl, data, offset + 10, rdlen.toNat⟩
          match ← readRecords data count (offset + 10 + rdlen.toNat) with
          | none => pure none
          | some (records, last) => pure (some (record :: records, last))

/-- The loop that skips the questions. -/
def skipQuestions (data : Bytes) : Nat → Nat → Checked (Option Nat)
  | 0, offset => pure (some offset)
  | count + 1, start => do
    match ← readName data start 0 with
    | none => pure none
    | some (_, next) =>
      if data.length < next + 4 then pure none else skipQuestions data count (next + 4)

/-- The three sections after the questions; the authority section is read and dropped. -/
def readSections (data : Bytes) (flags anCount nsCount arCount : UInt16) (offset : Nat) :
    Checked (Option MdnsParsedResponse) := do
  match ← readRecords data anCount.toNat offset with
  | none => pure none
  | some (answers, offset) =>
    match ← readRecords data nsCount.toNat offset with
    | none => pure none
    | some (_, offset) =>
      match ← readRecords data arCount.toNat offset with
      | none => pure none
      | some (additional, _) => pure (some ⟨flags, answers, additional⟩)

def parseResponse (data : Bytes) : Checked (Option MdnsParsedResponse) :=
  if data.length < 12 then pure none
  else do
    let flags ← readU16 data 2
    let qdCount ← readU16 data 4
    let anCount ← readU16 data 6
    let nsCount ← readU16 data 8
    let arCount ← readU16 data 10
    match ← skipQuestions data qdCount.toNat 12 with
    | none => pure none
    | some offset => readSections data flags anCount nsCount arCount offset

variable {data : Bytes} {count start offset left stop : Nat} {r : MdnsRecord} {strings : List String}

/-- Every record read lies within the packet. -/
theorem readRecords_spec : Spec (readRecords data count start) fun out =>
    ∀ records last, out = some (records, last) → ∀ r ∈ records, r.Fits := by
  induction count generalizing start with
  | zero =>
    refine .pure ?_
    rintro _ _ he r hr
    cases he
    cases hr
  | succ count ih =>
    unfold readRecords
    refine readName_spec.bind fun out hname => ?_
    cases out with
    | none => exact .pure nofun
    | some out =>
      obtain ⟨name, offset⟩ := out
      dsimp only
      split
      · exact .pure nofun
      · refine (readU16_spec (by omega)).bind fun recordType _ => ?_
        refine (readU32_spec (by omega)).bind fun ttl _ => ?_
        refine (readU16_spec (by omega)).bind fun rdlen _ => ?_
        split
        · exact .pure nofun
        · next hfit =>
          refine ih.bind fun out hout => ?_
          cases out with
          | none => exact .pure nofun
          | some out =>
            obtain ⟨records, last⟩ := out
            refine .pure ?_
            rintro _ _ he r hr
            cases he
            rcases List.mem_cons.mp hr with rfl | hr
            · exact not_lt.mp hfit
            · exact hout records last rfl r hr

theorem skipQuestions_spec : Spec (skipQuestions data count start) fun _ => True := by
  induction count generalizing start with
  | zero => exact .pure trivial
  | succ count ih =>
    unfold skipQuestions
    refine readName_spec.bind fun out _ => ?_
    cases out with
    | none => exact .pure trivial
    | some out =>
      dsimp only
      split
      · exact .pure trivial
      · exact ih

theorem readSections_spec {flags anCount nsCount arCount : UInt16} :
    Spec (readSections data flags anCount nsCount arCount offset) fun out =>
      ∀ p, out = some p → ∀ r ∈ p.allRecords, r.Fits := by
  unfold readSections
  refine readRecords_spec.bind fun out hans => ?_
  cases out with
  | none => exact .pure nofun
  | some answers =>
    refine readRecords_spec.bind fun out _ => ?_
    cases out with
    | none => exact .pure nofun
    | some authority =>
      refine readRecords_spec.bind fun out hadd => ?_
      cases out with
      | none => exact .pure nofun
      | some additional =>
        refine .pure ?_
        rintro p he r hr
        cases he
        rcases List.mem_append.mp hr with hr | hr
        · exact hans _ _ rfl r hr
        · exact hadd _ _ rfl r hr

/-- Parsing any bytes reads within them, and so do the records it gives. -/
theorem parseResponse_spec : Spec (parseResponse data) fun out =>
    ∀ p, out = some p → ∀ r ∈ p.allRecords, r.Fits := by
  unfold parseResponse
  split
  · exact .pure nofun
  · refine (readU16_spec (by omega)).bind fun _ _ => ?_
    refine (readU16_spec (by omega)).bind fun _ _ => ?_
    refine (readU16_spec (by omega)).bind fun _ _ => ?_
    refine (readU16_spec (by omega)).bind fun _ _ => ?_
    refine (readU16_spec (by omega)).bind fun _ _ => ?_
    refine skipQuestions_spec.bind fun out _ => ?_
    cases out with
    | none => exact .pure nofun
    | some offset => exact readSections_spec

namespace MdnsRecord

theorem ptrTarget_spec : Spec r.ptrTarget fun _ => True := by
  unfold ptrTarget
  split
  · obtain ⟨out, hout, -⟩ := readName_spec
    exact ⟨out.map Prod.fst, by rw [hout]; rfl, trivial⟩
  · exact .pure trivial

theorem srv_spec (h : r.Fits) : Spec r.srv fun out =>
    out.isSome = true ↔ r.recordType = typeSrv ∧ 6 ≤ r.rdataLength := by
  unfold srv
  unfold Fits at h
  split
  · next hs =>
    refine (readU16_spec (by omega)).bind fun _ _ => ?_
    exact readName_spec.bind fun _ _ => .pure (iff_of_true rfl hs)
  · next hs => exact .pure (iff_of_false (by simp) hs)

theorem txtStringsFrom_spec {packet : Bytes} (h : stop ≤ packet.length) :
    Spec (txtStringsFrom packet stop left offset strings) fun _ => True := by
  induction left generalizing offset strings with
  | zero => exact .pure trivial
  | succ left ih =>
    unfold txtStringsFrom
    split
    · refine (get_spec (by omega)).bind fun len _ => ?_
      split
      · exact .pure trivial
      · exact (slice_spec (by omega) (by omega)).bind fun _ _ => ih
    · exact .pure trivial

theorem txtStrings_spec (h : r.Fits) : Spec r.txtStrings fun out =>
    out.isSome = true ↔ r.recordType = typeTxt := by
  unfold txtStrings
  split
  · next ht =>
    obtain ⟨out, hout, -⟩ := txtStringsFrom_spec
      h
    exact ⟨some out, by rw [parseTxtStrings, hout]; rfl, iff_of_true rfl ht⟩
  · next ht => exact .pure (iff_of_false (by simp) ht)

theorem ip_spec (h : r.Fits) : Spec r.ip fun _ => True := by
  unfold ip
  unfold Fits at h
  split
  · refine (get_spec (by omega)).bind fun _ _ => ?_
    refine (get_spec (by omega)).bind fun _ _ => ?_
    refine (get_spec (by omega)).bind fun _ _ => ?_
    refine (get_spec (by omega)).bind fun _ _ => ?_
    exact .pure trivial
  · exact .pure trivial

theorem ipv6_spec (h : r.Fits) : Spec r.ipv6 fun _ => True := by
  unfold ipv6
  unfold Fits at h
  split
  · exact (slice_spec (by omega) (by omega)).bind fun _ _ => ipv6ToString_spec
  · exact .pure trivial

end MdnsRecord

end PlainRs.Mdns
