import PlainRs.Base.DottedQuads
import PlainRs.Mdns.RoundTrip
import PlainRs.Mdns.ServiceResponse

/-! Records as a service sends them, and what is read of each. -/
namespace PlainRs.Mdns

open Checked

/-- A record that is written with its whole name. -/
structure WireRecord where
  name : String
  recordType : UInt16
  cls : UInt16
  ttl : UInt32
  rdata : Bytes

namespace WireRecord

def bytes (r : WireRecord) : Bytes :=
  writeRecord (encodeName r.name) r.recordType r.cls r.ttl r.rdata

/-- The labels have lengths that are not read as pointers, and the data a length of 16 bits. -/
def Fits (r : WireRecord) : Prop :=
  (∀ label ∈ splitLabels r.name, (Text.bytes label).length ≤ 191) ∧ r.rdata.length ≤ 65535

/-- What is read of the record. -/
structure ReadAs (r : WireRecord) (m : MdnsRecord) : Prop where
  name : m.name = readBack r.name
  recordType : m.recordType = r.recordType
  ttl : m.ttl = r.ttl
  rdataLength : m.rdataLength = r.rdata.length
  rdata : At m.packet m.rdataStart r.rdata

end WireRecord

/-- Four numbers in decimal, without leading zeros. -/
def DottedQuad (ip : String) : Prop :=
  ∃ a b c d : UInt8, ip.toList = Text.dottedQuad a.toNat b.toNat c.toNat d.toNat

variable {data : Bytes} {i n a b : Nat} {rs : List WireRecord} {r : WireRecord} {m : MdnsRecord}
  {name host ip : String} {port : UInt16} {strings : List String}

theorem WireRecord.bytes_eq (r : WireRecord) :
    r.bytes = encodeName r.name ++ afterName r.recordType r.cls r.ttl r.rdata := by
  simp [WireRecord.bytes, writeRecord, afterName]

/-- Records that fit are read where they stand. -/
theorem readRecords_wire (hfits : ∀ r ∈ rs, r.Fits) (h : At data i (rs.flatMap WireRecord.bytes)) :
    ∃ ms, readRecords data rs.length i =
        .ok (some (ms, i + (rs.flatMap WireRecord.bytes).length)) ∧
      List.Forall₂ WireRecord.ReadAs rs ms := by
  induction rs generalizing i with
  | nil => exact ⟨[], rfl, .nil⟩
  | cons r rs ih =>
    obtain ⟨hr, hfits⟩ := List.forall_mem_cons.mp hfits
    rw [List.flatMap_cons] at h
    obtain ⟨ms, hread, hms⟩ := ih hfits h.right
    have hrecord := h.left
    rw [r.bytes_eq] at hrecord
    obtain ⟨-, -, -, hdata⟩ := read_afterName hrecord.right
    have hstop : i + r.bytes.length = i + (encodeName r.name).length + 10 + r.rdata.length := by
      rw [r.bytes_eq, List.length_append, length_afterName]
      omega
    rw [hstop] at hread
    refine ⟨⟨readBack r.name, r.recordType, r.ttl, data, i + (encodeName r.name).length + 10,
      r.rdata.length⟩ :: ms, ?_, .cons ⟨rfl, rfl, rfl, rfl, hdata⟩ hms⟩
    rw [List.length_cons, readRecords_cons (readName_encodeName hr.1 hrecord.left) hr.2
      hrecord.right, hread, List.flatMap_cons, List.length_append, ← Nat.add_assoc, hstop]
    rfl

theorem ptrTarget_read (h : r.ReadAs m) (ht : r.recordType = typePtr)
    (hdata : r.rdata = encodeName name)
    (hmax : ∀ label ∈ splitLabels name, (Text.bytes label).length ≤ 191) :
    m.ptrTarget = .ok (some (readBack name)) := by
  have hat := h.rdata
  rw [hdata] at hat
  rw [MdnsRecord.ptrTarget, if_pos (h.recordType.trans ht), readName_encodeName hmax hat]
  rfl

theorem srv_read (h : r.ReadAs m) (ht : r.recordType = typeSrv)
    (hdata : r.rdata = writeU16 0 ++ writeU16 0 ++ writeU16 port ++ encodeName host)
    (hmax : ∀ label ∈ splitLabels host, (Text.bytes label).length ≤ 191) :
    m.srv = .ok (some ⟨port, readBack host⟩) := by
  have hat := h.rdata
  have hlen := h.rdataLength
  rw [hdata] at hat hlen
  simp only [List.length_append, length_writeU16] at hlen
  simp only [List.append_assoc] at hat
  have hport := hat.right.right.left
  have htarget := hat.right.right.right
  simp only [length_writeU16, Nat.add_assoc, Nat.reduceAdd] at hport htarget
  rw [MdnsRecord.srv, if_pos ⟨h.recordType.trans ht, by omega⟩, readU16_written hport, ok_bind,
    readName_encodeName hmax htarget]
  rfl

/-- The loop takes a string of up to 255 bytes at a time. -/
theorem txtStringsFrom_read {left : Nat} {acc : List String} {stop : Nat}
    (hmax : ∀ s ∈ strings, (Text.bytes s).length ≤ 255)
    (h : At data i (strings.flatMap withLength))
    (hstop : stop = i + (strings.flatMap withLength).length) (hleft : stop ≤ i + left) :
    MdnsRecord.txtStringsFrom data stop left i acc = .ok (acc ++ strings) := by
  induction strings generalizing i left acc with
  | nil =>
    rw [List.append_nil]
    cases left with
    | zero => rfl
    | succ left =>
      rw [MdnsRecord.txtStringsFrom, if_neg (by simp [hstop])]
      rfl
  | cons s strings ih =>
    obtain ⟨hs, hmax⟩ := List.forall_mem_cons.mp hmax
    rw [List.flatMap_cons] at h hstop
    rw [List.length_append] at hstop
    have hcons : (withLength s).length = (Text.bytes s).length + 1 := rfl
    obtain ⟨left, rfl⟩ : ∃ n, left = n + 1 := ⟨left - 1, by omega⟩
    have hbyte : ((Text.bytes s).length.toUInt8).toNat = (Text.bytes s).length := by
      rw [UInt8.toNat_ofNat']
      omega
    have hlen : i + 1 + (Text.bytes s).length = i + (withLength s).length := by omega
    have hthis : At data i ((Text.bytes s).length.toUInt8 :: Text.bytes s) := h.left
    rw [MdnsRecord.txtStringsFrom, if_pos (by omega), hthis.get, ok_bind, hbyte, if_neg (by omega),
      hthis.tail.slice, ok_bind, Text.fromUtf8Lossy_bytes, hlen,
      ih hmax h.right (by omega) (by omega), List.append_assoc]
    rfl

theorem txtStrings_read (h : r.ReadAs m) (ht : r.recordType = typeTxt)
    (hdata : r.rdata = strings.flatMap withLength)
    (hmax : ∀ s ∈ strings, (Text.bytes s).length ≤ 255) :
    m.txtStrings = .ok (some strings) := by
  have hat := h.rdata
  have hlen := h.rdataLength
  rw [hdata] at hat hlen
  rw [MdnsRecord.txtStrings, if_pos (h.recordType.trans ht), MdnsRecord.parseTxtStrings,
    txtStringsFrom_read hmax hat (by omega) le_rfl]
  rfl

theorem parseU8_toDigits (a : UInt8) : parseU8 (Nat.toDigits 10 a.toNat) = some a := by
  have hplus : (Nat.toDigits 10 a.toNat).head? ≠ some '+' := by
    intro he
    have hd : '+'.isDigit = true := Text.isDigit_of_mem_toDigits (List.mem_of_mem_head? he)
    exact absurd hd (by decide)
  have hdigits : (Nat.toDigits 10 a.toNat).all (·.isDigit) = true :=
    List.all_eq_true.mpr fun _ hc => Text.isDigit_of_mem_toDigits hc
  have hvalue : (Nat.toDigits 10 a.toNat).foldl (fun n d => 10 * n + (d.toNat - '0'.toNat)) 0 =
      a.toNat := by
    rw [← Nat.ofDigitChars_eq_foldl, Nat.ofDigitChars_ten_toDigits]
  rw [parseU8]
  simp only [if_neg hplus, Nat.toDigits_ne_nil, hdigits, not_true, or_self, if_false, hvalue]
  rw [if_pos a.toNat_lt, Nat.toUInt8_eq, UInt8.ofNat_toNat]

theorem ipToBytes_eq {a b c d : UInt8}
    (hip : ip.toList = Text.dottedQuad a.toNat b.toNat c.toNat d.toNat) :
    ipToBytes ip = [a, b, c, d] := by
  have hsplit := Text.splitOn_dottedQuad (i := a.toNat) (j := b.toNat) (k := c.toNat)
    (l := d.toNat) []
  rw [List.append_nil, List.append_nil, List.splitOn_eq_singleton Text.dot_notMem_toDigits] at hsplit
  rw [ipToBytes, hip, hsplit]
  simp [parseU8_toDigits]

theorem ip_read (h : r.ReadAs m) (ht : r.recordType = typeA) (hdata : r.rdata = ipToBytes ip)
    (hip : DottedQuad ip) : m.ip = .ok (some ip) := by
  obtain ⟨a, b, c, d, hip⟩ := hip
  have hat := h.rdata
  have hlen := h.rdataLength
  rw [hdata, ipToBytes_eq hip] at hat hlen
  rw [MdnsRecord.ip, if_pos ⟨h.recordType.trans ht, hlen⟩, hat.get, ok_bind, hat.tail.get, ok_bind,
    hat.tail.tail.get, ok_bind, hat.tail.tail.tail.get, ok_bind]
  refine congrArg (Except.ok ∘ some) (String.toList_inj.mp ?_)
  have hdot : (toString ".").toList = ['.'] := by decide
  rw [hip]
  simp [Text.dottedQuad, String.toList_append, Nat.toList_repr, hdot]

end PlainRs.Mdns
