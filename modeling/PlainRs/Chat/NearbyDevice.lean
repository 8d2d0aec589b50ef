import PlainRs.Base.Commas
import PlainRs.Chat.Db

/-! `chat/db/nearby_device.rs`: the cache of devices seen nearby, and its statements. -/
namespace PlainRs.Chat

open Keyed

structure DNearbyDeviceCache where
  id : String
  name : String
  ips : List String
  port : UInt16
  deviceType : String
  version : String
  platform : String
  lastSeen : Int
  deriving DecidableEq

/-- A row of `nearby_device_cache`: the addresses with commas between them, the port as an SQL
integer. -/
structure NearbyDeviceRow where
  id : String
  name : String
  ips : String
  port : Int
  deviceType : String
  version : String
  platform : String
  lastSeen : Int
  deriving DecidableEq

def rowToNearbyDevice (row : NearbyDeviceRow) : DNearbyDeviceCache :=
  { row with ips := Text.commaPieces row.ips, port := UInt16.ofInt row.port }

def nearbyDeviceToRow (device : DNearbyDeviceCache) : NearbyDeviceRow :=
  { device with ips := ",".intercalate device.ips, port := device.port.toNat }

abbrev NearbyDeviceTable := Table NearbyDeviceRow NearbyDeviceRow.id

variable {T : NearbyDeviceTable} {device : DNearbyDeviceCache} {row : NearbyDeviceRow}
  {id : String} {lastSeen now : Int}

namespace NearbyDeviceTable

/-- `get_cached_nearby_devices`, `ORDER BY last_seen DESC`. -/
def getCached (T : NearbyDeviceTable) : List DNearbyDeviceCache :=
  (T.rows.mergeSort fun a b => b.lastSeen ≤ a.lastSeen).map rowToNearbyDevice

/-- `save_cached_nearby_device`: the stored `last_seen` always grows. -/
def save (T : NearbyDeviceTable) (device : DNearbyDeviceCache) : NearbyDeviceTable :=
  T.upsert (nearbyDeviceToRow device)
    (fun row => { nearbyDeviceToRow device with
      id := row.id, lastSeen := max (row.lastSeen + 1) device.lastSeen })
    fun _ => rfl

/-- The row of an id, as long as it is the one seen then. -/
def matching (T : NearbyDeviceTable) (id : String) (lastSeen : Int) : Option NearbyDeviceRow :=
  (T.find? id).filter fun row => row.lastSeen = lastSeen

/-- `refresh_cached_nearby_device_if_last_seen_matches`. -/
def refreshIfLastSeenMatches (T : NearbyDeviceTable) (id : String) (lastSeen now : Int) :
    NearbyDeviceTable × Bool :=
  if (T.matching id lastSeen).isSome then
    (T.modify id (fun row => { row with lastSeen := max (row.lastSeen + 1) now }) fun _ => rfl, true)
  else (T, false)

/-- `delete_cached_nearby_device_if_last_seen_matches`. -/
def deleteIfLastSeenMatches (T : NearbyDeviceTable) (id : String) (lastSeen : Int) :
    NearbyDeviceTable × Bool :=
  if (T.matching id lastSeen).isSome then (T.erase id, true) else (T, false)

theorem isSome_matching :
    (T.matching id lastSeen).isSome ↔ ∃ row, T.find? id = some row ∧ row.lastSeen = lastSeen := by
  cases h : T.find? id <;> simp [matching, h, Option.filter]

theorem mem_getCached :
    device ∈ T.getCached ↔ ∃ row, T.find? device.id = some row ∧ rowToNearbyDevice row = device := by
  unfold getCached
  rw [List.mem_map]
  constructor
  · rintro ⟨row, hrow, rfl⟩
    exact ⟨row, Table.find?_eq_some.mpr ⟨by simpa using hrow, rfl⟩, rfl⟩
  · rintro ⟨row, hrow, hd⟩
    exact ⟨row, by simpa using (Table.find?_eq_some.mp hrow).1, hd⟩

/-- A saved device is found again, seen later than before. -/
theorem find?_save : (T.save device).find? id =
    if id = device.id then
      some { nearbyDeviceToRow device with
        lastSeen := (T.find? id).elim device.lastSeen fun row =>
          max (row.lastSeen + 1) device.lastSeen }
    else T.find? id := by
  have hid : (nearbyDeviceToRow device).id = device.id := rfl
  unfold save
  rw [Table.find?_upsert, hid]
  split
  · next h =>
    cases hrow : T.find? id with
    | none => rfl
    | some row =>
      have := Table.key_of_find? hrow
      simp only [Option.elim_some]
      rw [this, h]
      rfl
  · rfl

/-- A refresh changes nothing but `last_seen`, which grows. -/
theorem find?_refresh {l : String} :
    ((T.refreshIfLastSeenMatches id lastSeen now).1).find? l =
      if l = id then (T.find? l).map fun row =>
        if row.lastSeen = lastSeen then { row with lastSeen := max (row.lastSeen + 1) now } else row
      else T.find? l := by
  unfold refreshIfLastSeenMatches
  split
  · next h =>
    obtain ⟨row, hrow, hseen⟩ := isSome_matching.mp h
    rw [Table.find?_modify]
    split
    · next hl => simp [hl, hrow, hseen]
    · rfl
  · next h =>
    rw [isSome_matching] at h
    split
    · next hl =>
      subst hl
      cases hrow : T.find? l with
      | none => rfl
      | some row =>
        have : row.lastSeen ≠ lastSeen := fun he => h ⟨row, hrow, he⟩
        simp [this]
    · rfl

theorem deleteIfLastSeenMatches_of_isSome (h : (T.matching id lastSeen).isSome) :
    T.deleteIfLastSeenMatches id lastSeen = (T.erase id, true) := by
  rw [deleteIfLastSeenMatches, if_pos h]

theorem deleteIfLastSeenMatches_of_not (h : ¬ (T.matching id lastSeen).isSome) :
    T.deleteIfLastSeenMatches id lastSeen = (T, false) := by
  rw [deleteIfLastSeenMatches, if_neg h]

end NearbyDeviceTable

/-- A device reads back as it was written, when its addresses do. -/
theorem rowToNearbyDevice_toRow (h : ∀ ip ∈ device.ips, Text.CommaFree ip) :
    rowToNearbyDevice (nearbyDeviceToRow device) = device := by
  have hips : Text.commaPieces (",".intercalate device.ips) = device.ips :=
    Text.commaPieces_intercalate h
  simp only [rowToNearbyDevice, nearbyDeviceToRow, hips, ChatDb.ofInt_toNat]

end PlainRs.Chat
