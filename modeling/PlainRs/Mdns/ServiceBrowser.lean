import PlainRs.Mdns.ServiceInfo

/-! The service browser: what it keeps of each instance, and what a packet does to it. -/
namespace PlainRs.Mdns

open Checked

/-- A service instance, accumulated across packets. -/
structure Instance where
  instanceFqdn : String
  instanceName : String
  id : String
  port : UInt16
  deviceType : String
  version : String
  platform : String
  targetHostname : String
  ips : Finset String
  addrsV6 : Finset String
  txtRecords : List String

namespace Instance

def new (instanceFqdn instanceName : String) : Instance where
  instanceFqdn := instanceFqdn
  instanceName := instanceName
  id := ""
  port := 0
  deviceType := ""
  version := ""
  platform := ""
  targetHostname := ""
  ips := ∅
  addrsV6 := ∅
  txtRecords := []

def complete (i : Instance) : Bool := i.id ≠ "" && 0 < i.port && (i.ips ≠ ∅ || i.addrsV6 ≠ ∅)

end Instance

structure FoundDevice where
  id : String
  name : String
  ips : List String
  ipv6 : List String
  port : UInt16
  deviceType : String
  version : String
  platform : String

/-- Maps from lowercase names, and when each instance was last asked about. -/
structure BrowserState where
  instances : String → Option Instance
  hostnameToInstance : String → Option String
  srvTxtQueriedAt : String → Option Nat
  aQueriedAt : String → Option Nat

def BrowserState.default : BrowserState :=
  ⟨fun _ => none, fun _ => none, fun _ => none, fun _ => none⟩

/-- What the browser is given: its own id, `str::to_lowercase`, whether an address is one of the
device's own, and the order in which a hash map or set yields its keys. -/
structure Inner where
  clientId : String
  toLowercase : String → String
  isLocalIp : String → Bool
  order : Finset String → List String

/-- The state under the mutex in the loop over the records, with the instances touched and those
first seen in this packet. -/
structure Merge where
  state : BrowserState
  touched : Finset String
  discovered : List String

/-- What a packet leaves: the state, the instances asked about, and the devices reported. -/
structure Handled where
  state : BrowserState
  queries : List String
  found : List FoundDevice

section

variable (inner : Inner)

/-- `name.len().saturating_sub(PLAINAPP_SERVICE_TYPE.len() + 1)`. -/
def instanceNameLen (name : String) : Nat :=
  name.utf8ByteSize - (plainappServiceType.utf8ByteSize + 1)

def instanceKeyOf (fqdn : String) : Option String :=
  if (inner.toLowercase plainappServiceType).toList.isSuffixOf (inner.toLowercase fqdn).toList = false
  then none
  else if instanceNameLen fqdn = 0 then none
  else some (inner.toLowercase fqdn)

/-- The slice of the name panics off a character boundary. -/
def findInstance (current : String → Option Instance) (name : String) :
    Checked (Option (String × Instance)) :=
  match instanceKeyOf inner name with
  | none => pure none
  | some key => do
    let instanceName ← ofBoundary (Text.sliceTo name (instanceNameLen name))
    pure (some (key, (current key).getD (Instance.new key instanceName)))

/-- The name a goodbye record withdraws. -/
def goodbyeFqdn (r : MdnsRecord) : Checked (Option String) :=
  if r.recordType = typePtr then r.ptrTarget
  else pure (if r.recordType = typeSrv ∨ r.recordType = typeTxt then some r.name else none)

/-- One record of `goodbye_instance_keys`. -/
def goodbyeKey (keys : Finset String) (r : MdnsRecord) : Checked (Finset String) :=
  if r.ttl ≠ 0 then pure keys
  else do
    let fqdn ← goodbyeFqdn r
    match fqdn.bind (instanceKeyOf inner) with
    | some key => pure (insert key keys)
    | none => pure keys

def goodbyeInstanceKeys (records : List MdnsRecord) : Checked (Finset String) :=
  records.foldlM (goodbyeKey inner) ∅

/-- The addresses of one record type by lowercase hostname, and the hostnames. -/
def groupByHostname (recordType : UInt16) (address : MdnsRecord → Checked (Option String))
    (records : List MdnsRecord) : Checked (Finset String × (String → Finset String)) :=
  records.foldlM (fun (grouped : Finset String × (String → Finset String)) r =>
    if r.recordType = recordType then do
      match ← address r with
      | some ip =>
        let host := inner.toLowercase r.name
        pure (insert host grouped.1, Function.update grouped.2 host (insert ip (grouped.2 host)))
      | none => pure grouped
    else pure grouped) (∅, fun _ => ∅)

/-- One `key=value` entry of a TXT record; the entry is cut around the first `=`. -/
def txtEntry (updated : Instance) (entry : String) : Checked Instance :=
  match Text.find entry '=' with
  | none => pure updated
  | some eq =>
    if eq = 0 then pure updated
    else do
      let value ← ofBoundary (Text.sliceFrom entry (eq + 1))
      let key ← ofBoundary (Text.sliceTo entry eq)
      pure (if key = "id" then { updated with id := value }
        else if key = "dv" then { updated with deviceType := value }
        else if key = "ver" then { updated with version := value }
        else if key = "pf" then { updated with platform := value }
        else updated)

namespace Merge

def setInstance (m : Merge) (key : String) (i : Instance) : Merge :=
  { m with
    state := { m.state with instances := Function.update m.state.instances key (some i) }
    touched := insert key m.touched }

def ptr (m : Merge) (r : MdnsRecord) : Checked Merge := do
  match ← r.ptrTarget with
  | none => pure m
  | some target =>
    match ← findInstance inner m.state.instances target with
    | none => pure m
    | some (key, i) =>
      let discovered := if (m.state.instances key).isNone then m.discovered ++ [key] else m.discovered
      pure { m.setInstance key i with discovered := discovered }

def srv (m : Merge) (r : MdnsRecord) : Checked Merge := do
  match ← r.srv with
  | none => pure m
  | some srv =>
    match ← findInstance inner m.state.instances r.name with
    | none => pure m
    | some (key, i) =>
      let hosts := if srv.target = "" then m.state.hostnameToInstance
        else Function.update m.state.hostnameToInstance (inner.toLowercase srv.target) (some key)
      let m := { m with state := { m.state with hostnameToInstance := hosts } }
      pure (m.setInstance key { i with port := srv.port, targetHostname := srv.target })

def txt (m : Merge) (r : MdnsRecord) : Checked Merge := do
  match ← r.txtStrings with
  | none => pure m
  | some strings =>
    match ← findInstance inner m.state.instances r.name with
    | none => pure m
    | some (key, i) =>
      let updated ← strings.foldlM txtEntry { i with txtRecords := strings }
      pure (m.setInstance key updated)

def record (m : Merge) (r : MdnsRecord) : Checked Merge :=
  if r.recordType = typePtr then m.ptr inner r
  else if r.recordType = typeSrv then m.srv inner r
  else if r.recordType = typeTxt then m.txt inner r
  else pure m

/-- The packet's addresses of a hostname replace those of the instance it is mapped to. -/
def addresses (set : Instance → Finset String → Instance) (ips : String → Finset String)
    (m : Merge) (hostname : String) : Merge :=
  match m.state.hostnameToInstance hostname with
  | none => m
  | some key =>
    let instances := match m.state.instances key with
      | none => m.state.instances
      | some i => Function.update m.state.instances key (some (set i (ips hostname)))
    { m with
      state := { m.state with instances := instances }
      touched := if (m.state.instances key).isSome then insert key m.touched else m.touched }

end Merge

/-- Withdrawn instances are dropped, with the hostnames mapped to them. -/
def BrowserState.withdraw (s : BrowserState) (goodbye : Finset String) : BrowserState :=
  { s with
    instances := fun k => if k ∈ goodbye then none else s.instances k
    hostnameToInstance := fun h => (s.hostnameToInstance h).filter (· ∉ goodbye) }

/-- So are the times of their last queries. -/
def BrowserState.forgetQueries (s : BrowserState) (goodbye : Finset String) : BrowserState :=
  { s with
    srvTxtQueriedAt := fun k => if k ∈ goodbye then none else s.srvTxtQueriedAt k
    aQueriedAt := fun k => if k ∈ goodbye then none else s.aQueriedAt k }

/-- An instance first seen in this packet and not complete yet is asked about at once. -/
def followUp (now : Nat) (acc : BrowserState × List String) (key : String) :
    BrowserState × List String :=
  match acc.1.instances key with
  | none => acc
  | some i =>
    if i.complete then acc
    else ({ acc.1 with srvTxtQueriedAt := Function.update acc.1.srvTxtQueriedAt key (some now) },
      acc.2 ++ [i.instanceName])

/-- Texts are sorted by their order. -/
instance textsTrans : IsTrans String fun a b => a ≤ b := ⟨fun _ _ _ => le_trans⟩

instance textsAntisymm : Std.Antisymm fun a b : String => a ≤ b := ⟨fun _ _ => le_antisymm⟩

def foundDevice (i : Instance) : FoundDevice where
  id := i.id
  name := i.instanceName
  ips := i.ips.sort
  ipv6 := i.addrsV6.sort
  port := i.port
  deviceType := i.deviceType
  version := i.version
  platform := i.platform

/-- A complete instance is reported, unless it is this device itself. -/
def reported (state : BrowserState) (key : String) : Option FoundDevice :=
  (state.instances key).bind fun i =>
    if i.id ≠ inner.clientId ∧ i.complete then some (foundDevice i) else none

/-- The records of a response that are merged: withdrawn ones only where nothing is withdrawn. -/
def liveRecords (goodbye : Finset String) (all : List MdnsRecord) : List MdnsRecord :=
  if goodbye = ∅ then all else all.filter fun r => r.ttl ≠ 0

/-- A parsed response; `now` is the clock reading. -/
def handleRecords (state : BrowserState) (all : List MdnsRecord) (now : Nat) : Checked Handled := do
  let goodbye ← goodbyeInstanceKeys inner all
  let records := liveRecords goodbye all
  let aByHostname ← groupByHostname inner typeA MdnsRecord.ip records
  let aaaaByHostname ← groupByHostname inner typeAaaa MdnsRecord.ipv6 records
  let merged ← records.foldlM (Merge.record inner) ⟨state.withdraw goodbye, ∅, []⟩
  let merged := (inner.order aByHostname.1).foldl
    (Merge.addresses (fun i ips => { i with ips := ips }) aByHostname.2) merged
  let merged := (inner.order aaaaByHostname.1).foldl
    (Merge.addresses (fun i addrs => { i with addrsV6 := addrs }) aaaaByHostname.2) merged
  let (state, queries) := merged.discovered.foldl (followUp now)
    (merged.state.forgetQueries goodbye, [])
  pure ⟨state, queries, (inner.order merged.touched).filterMap (reported inner state)⟩

def handlePacket (state : BrowserState) (data : Bytes) (sender : String) (now : Nat) :
    Checked Handled :=
  if inner.isLocalIp sender then pure ⟨state, [], []⟩
  else do
    match ← parseResponse data with
    | none => pure ⟨state, [], []⟩
    | some parsed =>
      if parsed.isResponse then handleRecords inner state parsed.allRecords now
      else pure ⟨state, [], []⟩

end

end PlainRs.Mdns
