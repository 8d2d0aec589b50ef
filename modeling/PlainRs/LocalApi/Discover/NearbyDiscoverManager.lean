import PlainRs.Base.Runs
import PlainRs.Chat.NearbyDevice
import PlainRs.Mdns.ServiceBrowser
import PlainRs.Utils.DbTime

/-! `local_api/discover/nearby_discover_manager.rs`: the device cache, the events the front end
rebuilds its list from, and the threads that work on both. -/
namespace PlainRs.LocalApi.Nearby

open Keyed PlainRs.Chat PlainRs.Mdns PlainRs.Utils

structure DiscoveredDevice where
  id : String
  name : String
  ips : List String
  port : UInt16
  deviceType : String
  version : String
  platform : String
  lastSeen : String
  status : String
  discoveryMethods : List String
  deriving DecidableEq

/-- The nearby events of the WebSocket bus. -/
inductive NearbyEvent
  | discoveryStarted
  | discoveryStopped
  | deviceFound (device : DiscoveredDevice)
  | deviceUnreachable (id : String)
  deriving DecidableEq

/-- What a status depends on: the pairing sessions and the peer rows. -/
structure Environment where
  isPairing : String → Bool
  getPeerById : String → Option DPeer

def getDeviceStatus (env : Environment) (deviceId : String) : String :=
  if env.isPairing deviceId then "PAIRING"
  else match env.getPeerById deviceId with
    | some peer => if peer.isPaired then "PAIRED" else "UNPAIRED"
    | none => "UNPAIRED"

/-- Everything but `last_seen`, so that an unchanged announcement is emitted once. -/
def sameSnapshot (a b : DiscoveredDevice) : Bool :=
  a.id = b.id && a.name = b.name && a.ips = b.ips && a.port = b.port &&
    a.deviceType = b.deviceType && a.version = b.version && a.platform = b.platform &&
    a.status = b.status

def discoveredDeviceFromCachedRecord (env : Environment) (device : DNearbyDeviceCache) :
    DiscoveredDevice where
  id := device.id
  name := device.name
  ips := device.ips
  port := device.port
  deviceType := device.deviceType
  version := device.version
  platform := device.platform
  lastSeen := isoFromUnixMillis device.lastSeen
  status := getDeviceStatus env device.id
  discoveryMethods := ["LAN"]

/-- The record `process_discovered_device` saves. -/
def cachedDevice (device : FoundDevice) (now : Int) : DNearbyDeviceCache where
  id := device.id
  name := device.name
  ips := device.ips
  port := device.port
  deviceType := device.deviceType
  version := device.version
  platform := device.platform
  lastSeen := now

/-- The snapshot it compares and emits, the addresses in order. -/
def discoveredDevice (env : Environment) (device : FoundDevice) (now : Int) : DiscoveredDevice where
  id := device.id
  name := device.name
  ips := device.ips.mergeSort
  port := device.port
  deviceType := device.deviceType
  version := device.version
  platform := device.platform
  lastSeen := isoFromUnixMillis now
  status := getDeviceStatus env device.id
  discoveryMethods := ["LAN"]

/-- Where the holder of `nearby_update_lock` stands. -/
inductive Section
  /-- `process_discovered_device`: before the clock reading, the save, the comparison with
  `seen_in_session`, and the event. -/
  | processLocked (device : FoundDevice)
  | processRead (device : FoundDevice) (now : Int)
  | processSaved (device : FoundDevice)
  | processChanged (discovered : DiscoveredDevice)
  /-- `start_discovery`: before `seen.clear()`, the started event, the query, and the events of the
  records left. -/
  | startLocked
  | startCleared
  | startEmitted
  | startSending (devices : List DNearbyDeviceCache)
  /-- `verify_old_nearby_records`, one result: before the clock reading or the delete, the refresh,
  the removal from `seen_in_session`, and the event. -/
  | verifyLocked (run : Nat) (device : DNearbyDeviceCache) (discoveryPingSucceeded : Bool)
  | verifyRead (run : Nat) (device : DNearbyDeviceCache) (now : Int)
  | verifyDeleted (id : String)
  | verifyRemoved (id : String)

/-- A run of `verify_old_nearby_records`: with the records it read, or with the old ones among them
whose results are still to be settled. -/
inductive Verification
  | snapshot (devices : List DNearbyDeviceCache)
  | pinged (oldRecords : List DNearbyDeviceCache)

def Verification.devices : Verification → List DNearbyDeviceCache
  | snapshot devices => devices
  | pinged oldRecords => oldRecords

/-- What is remembered of the table's history: which run read it when, and which saves followed. -/
inductive TableEvent
  | snapshot (run : Nat)
  | saved (id : String)
  deriving DecidableEq

structure State where
  cache : NearbyDeviceTable
  seenInSession : String → Option DiscoveredDevice
  lock : Option Section
  clock : Int
  verifications : Nat → Option Verification
  nextRun : Nat
  /-- Both histories have the latest entry first. -/
  events : List NearbyEvent
  history : List TableEvent

inductive Action
  | tick (millis : Nat)
  | lockProcess (device : FoundDevice)
  | lockStart
  | lockVerify (run : Nat) (discoveryPingSucceeded : Bool)
  | advance (env : Environment)
  | snapshot
  | cutoff (run : Nat)
  | stopClear
  | stopEmit

namespace State

def emit (s : State) (e : NearbyEvent) : State := { s with events := e :: s.events }

def hold (s : State) (c : Section) : State := { s with lock := some c }

def release (s : State) : State := { s with lock := none }

/-- The next step of the section that holds the lock. -/
def advance (s : State) (env : Environment) : Section → State
  | .processLocked device => s.hold (.processRead device s.clock)
  | .processRead device now =>
    { s with
      cache := s.cache.save (cachedDevice device now)
      history := .saved device.id :: s.history
      lock := some (.processSaved device) }
  | .processSaved device =>
    let discovered := discoveredDevice env device s.clock
    if (s.seenInSession discovered.id).any (sameSnapshot · discovered) then s.release
    else
      { s with
        seenInSession := Function.update s.seenInSession discovered.id (some discovered)
        lock := some (.processChanged discovered) }
  | .processChanged discovered => (s.emit (.deviceFound discovered)).release
  | .startLocked => { s with seenInSession := fun _ => none, lock := some .startCleared }
  | .startCleared => (s.emit .discoveryStarted).hold .startEmitted
  | .startEmitted => s.hold (.startSending s.cache.getCached)
  | .startSending [] => s.release
  | .startSending (device :: devices) =>
    (s.emit (.deviceFound (discoveredDeviceFromCachedRecord env device))).hold (.startSending devices)
  | .verifyLocked run device true => s.hold (.verifyRead run device s.clock)
  | .verifyLocked _ device false =>
    let (cache, deleted) := s.cache.deleteIfLastSeenMatches device.id device.lastSeen
    { s with cache := cache, lock := if deleted then some (.verifyDeleted device.id) else none }
  | .verifyRead _ device now =>
    { s with
      cache := (s.cache.refreshIfLastSeenMatches device.id device.lastSeen now).1
      lock := none }
  | .verifyDeleted id =>
    { s with
      seenInSession := Function.update s.seenInSession id none
      lock := some (.verifyRemoved id) }
  | .verifyRemoved id => (s.emit (.deviceUnreachable id)).release

end State

/-- One step of one thread. `stop_discovery` takes no lock and can come at any time, and so can a
verification, which the running scan only makes rarer. -/
def next (clientId : String) (s : State) : Action → Option State
  | .tick millis => some { s with clock := s.clock + millis }
  | .lockProcess device =>
    if device.id ≠ clientId ∧ s.lock.isNone then some (s.hold (.processLocked device)) else none
  | .lockStart => if s.lock.isNone then some (s.hold .startLocked) else none
  | .lockVerify run discoveryPingSucceeded =>
    match s.verifications run with
    | some (.pinged (device :: rest)) =>
      if s.lock.isNone then
        some { s with
          verifications := Function.update s.verifications run (some (.pinged rest))
          lock := some (.verifyLocked run device discoveryPingSucceeded) }
      else none
    | _ => none
  | .advance env => s.lock.map (s.advance env)
  | .snapshot =>
    some { s with
      verifications := Function.update s.verifications s.nextRun (some (.snapshot s.cache.getCached))
      nextRun := s.nextRun + 1
      history := .snapshot s.nextRun :: s.history }
  | .cutoff run =>
    match s.verifications run with
    | some (.snapshot devices) =>
      some { s with
        verifications := Function.update s.verifications run
          (some (.pinged (devices.filter fun d => d.lastSeen < s.clock - 60000))) }
    | _ => none
  | .stopClear => some { s with seenInSession := fun _ => none }
  | .stopEmit => some (s.emit .discoveryStopped)

/-- A fresh manager over whatever cache earlier sessions left. -/
structure Initial (s : State) : Prop where
  seenInSession : s.seenInSession = fun _ => none
  lock : s.lock = none
  verifications : s.verifications = fun _ => none
  events : s.events = []
  history : s.history = []

def system (clientId : String) : Runs.System State Action where
  init := Initial
  next := next clientId

end PlainRs.LocalApi.Nearby
