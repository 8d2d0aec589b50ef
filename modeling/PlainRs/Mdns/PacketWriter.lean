import PlainRs.Base.Text
import PlainRs.Mdns.ServiceInfo

/-! Writing the DNS wire format: integers, names, records and queries; and the questions of a
query. -/
namespace PlainRs.Mdns

open Checked

def dnsResponseFlags : UInt16 := 0x8400
def dnsCacheFlushClassIn : UInt16 := 0x8001
def typeAny : UInt16 := 0x00FF
def ttlSeconds : UInt32 := 120

def writeU16 (value : UInt16) : Bytes := [(value >>> 8).toUInt8, (value &&& 0xFF).toUInt8]

def writeU32 (value : UInt32) : Bytes :=
  [(value >>> 24).toUInt8, (value >>> 16).toUInt8, (value >>> 8).toUInt8, (value &&& 0xFF).toUInt8]

/-- `as u16` of a length. -/
def lengthU16 (n : Nat) : UInt16 := n.toUInt16

def writeHeader (answers additional : Nat) : Bytes :=
  writeU16 0 ++ writeU16 dnsResponseFlags ++ writeU16 0 ++ writeU16 (lengthU16 answers) ++ writeU16 0 ++
    writeU16 (lengthU16 additional)

def writeRecord (name : Bytes) (recordType cls : UInt16) (ttl : UInt32) (rdata : Bytes) : Bytes :=
  name ++ writeU16 recordType ++ writeU16 cls ++ writeU32 ttl ++ writeU16 (lengthU16 rdata.length) ++ rdata

/-- A text behind its length, `as u8`. -/
def withLength (text : String) : Bytes := (Text.bytes text).length.toUInt8 :: Text.bytes text

def encodeName (name : String) : Bytes := (splitLabels name).flatMap withLength ++ [0]

/-- `str::parse::<u8>`: digits, with or without a plus sign before them. -/
def parseU8 (part : List Char) : Option UInt8 :=
  let digits := if part.head? = some '+' then part.tail else part
  if digits = [] ∨ ¬ digits.all (·.isDigit) then none
  else
    let n := digits.foldl (fun n d => 10 * n + (d.toNat - '0'.toNat)) 0
    if n < 256 then some n.toUInt8 else none

def ipToBytes (ip : String) : Bytes := (ip.toList.splitOn '.').filterMap parseU8

def buildQuery (name : String) (qtype : UInt16) (unicastResponse : Bool) : Bytes :=
  writeU16 0 ++ writeU16 0 ++ writeU16 1 ++ writeU16 0 ++ writeU16 0 ++ writeU16 0 ++
    encodeName name ++ writeU16 qtype ++ writeU16 (if unicastResponse then 0x8001 else dnsClassIn)

def buildPtrQuery (serviceType : String) : Bytes := buildQuery serviceType typePtr false

structure MdnsQuestion where
  name : String
  qtype : UInt16
  qclass : UInt16
  unicastResponseRequested : Bool

def readQuestionsFrom (data : Bytes) : Nat → Nat → Checked (Option (List MdnsQuestion))
  | 0, _ => pure (some [])
  | count + 1, start => do
    match ← readName data start 0 with
    | none => pure none
    | some (name, offset) =>
      if data.length < offset + 4 then pure none
      else do
        let qtype ← readU16 data offset
        let qclass ← readU16 data (offset + 2)
        let question : MdnsQuestion := ⟨name, qtype, qclass &&& 0x7FFF, qclass &&& 0x8000 ≠ 0⟩
        return (← readQuestionsFrom data count (offset + 4)).map (question :: ·)

/-- The questions of a query; a response has none. -/
def readQuestions (data : Bytes) : Checked (Option (List MdnsQuestion)) :=
  if data.length < 12 then pure none
  else do
    if (← readU16 data 2) &&& 0x8000 ≠ 0 then pure none
    else do
      let qdCount ← readU16 data 4
      if qdCount = 0 then pure none else readQuestionsFrom data qdCount.toNat 12

end PlainRs.Mdns
