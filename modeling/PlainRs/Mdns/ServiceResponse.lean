import PlainRs.Mdns.PacketWriter

/-! The published service, and the response to a query for it. -/
namespace PlainRs.Mdns

open Checked

structure MdnsServiceInfo where
  instanceName : String
  serviceType : String
  targetHostname : String
  port : UInt16
  txtRecords : List String
  ips : List String

def MdnsServiceInfo.instanceFqdn (s : MdnsServiceInfo) : String :=
  s.instanceName ++ "." ++ s.serviceType

def buildServiceInfo (instanceName hostname : String) (port : UInt16)
    (id deviceType version platform : String) (ips : List String) : MdnsServiceInfo where
  instanceName := instanceName
  serviceType := plainappServiceType
  targetHostname := hostname
  port := port
  txtRecords := ["id=" ++ id, "dv=" ++ deviceType, "ver=" ++ version, "pf=" ++ platform, "aw=0", "ar=0"]
  ips := ips

/-- `str::eq_ignore_ascii_case`. -/
def eqIgnoreAsciiCase (a b : String) : Bool := a.toList.map Char.toLower = b.toList.map Char.toLower

/-- The records that a query asks for. -/
structure Wanted where
  ptr : Bool
  srv : Bool
  txt : Bool
  a : Bool

section

variable (service : MdnsServiceInfo)

/-- One question of the query. -/
def wantedBy (w : Wanted) (q : MdnsQuestion) : Wanted :=
  if q.qclass ≠ dnsClassIn then w
  else
    let matchesType := eqIgnoreAsciiCase q.name service.serviceType
    let matchesInstance := eqIgnoreAsciiCase q.name service.instanceFqdn
    let matchesHostname := eqIgnoreAsciiCase q.name service.targetHostname
    if q.qtype = typePtr && matchesType then { w with ptr := true }
    else if q.qtype = typeSrv && matchesInstance then { w with srv := true }
    else if q.qtype = typeTxt && matchesInstance then { w with txt := true }
    else if q.qtype = typeA && matchesHostname then { w with a := true }
    else if q.qtype = typeAny && (matchesType || matchesInstance || matchesHostname) then
      ⟨w.ptr || matchesType, w.srv || matchesInstance, w.txt || matchesInstance, w.a || matchesHostname⟩
    else w

def wanted (questions : List MdnsQuestion) : Wanted :=
  questions.foldl (wantedBy service) ⟨false, false, false, false⟩

def ptrRecord (ttl : UInt32) : Bytes :=
  writeRecord (encodeName service.serviceType) typePtr dnsClassIn ttl
    (encodeName service.instanceFqdn)

def srvRecord (ttl : UInt32) : Bytes :=
  writeRecord (encodeName service.instanceFqdn) typeSrv dnsCacheFlushClassIn ttl
    (writeU16 0 ++ writeU16 0 ++ writeU16 service.port ++ encodeName service.targetHostname)

def txtRecord (ttl : UInt32) : Bytes :=
  writeRecord (encodeName service.instanceFqdn) typeTxt dnsCacheFlushClassIn ttl
    (service.txtRecords.flatMap withLength)

def aRecords : Bytes :=
  service.ips.flatMap fun ip => writeRecord (encodeName service.targetHostname) typeA
    dnsCacheFlushClassIn ttlSeconds (ipToBytes ip)

/-- A PTR answer carries what was not asked for as additional records. -/
def buildResponseIfMatch (query : Bytes) : Checked (Option Bytes) :=
  if service.ips = [] then pure none
  else do
    match ← readQuestions query with
    | none => pure none
    | some questions =>
      let w := wanted service questions
      if !w.ptr && !w.srv && !w.txt && !w.a then pure none
      else
        let answers := (if w.ptr then ptrRecord service ttlSeconds else []) ++
          (if w.srv then srvRecord service ttlSeconds else []) ++
          (if w.txt then txtRecord service ttlSeconds else []) ++
          (if w.a then aRecords service else [])
        let (additional, additionalCount) :=
          if w.ptr then
            ((if w.srv then [] else srvRecord service ttlSeconds) ++
              (if w.txt then [] else txtRecord service ttlSeconds) ++
              (if w.a then [] else aRecords service),
            (if w.srv then 0 else 1) + (if w.txt then 0 else 1) +
              (if w.a then 0 else service.ips.length))
          else if (w.srv || w.txt) && !w.a then (aRecords service, service.ips.length)
          else ([], 0)
        if answers = [] then pure none
        else
          let answerCount := (if w.ptr then 1 else 0) + (if w.srv then 1 else 0) +
            (if w.txt then 1 else 0) + (if w.a then service.ips.length else 0)
          pure (some (writeHeader answerCount additionalCount ++ answers ++ additional))

end

end PlainRs.Mdns
