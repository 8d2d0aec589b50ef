import PlainRs.Chat.Db
import PlainRs.Mdns.ServiceBrowser
import PlainRs.Utils.DbTime

/-! `update_known_peer`: what an announcement writes into the row of a known peer. -/
namespace PlainRs.LocalApi

open PlainRs.Chat PlainRs.Mdns PlainRs.Utils

/-- The row as an announcement rewrites it, unless it says nothing new. -/
def answered (device : FoundDevice) (now : Int) (peer : DPeer) : Option DPeer :=
  let ip := ",".intercalate device.ips
  let deviceType := (DeviceType.fromStr device.deviceType).getD .other
  if peer.name = device.name ∧ peer.ip = ip ∧ peer.port = device.port ∧ peer.deviceType = deviceType
  then none
  else some { peer with
    name := device.name
    ip := ip
    port := device.port
    deviceType := deviceType
    updatedAt := isoFromUnixMillis now }

/-- Paired peers and logged-in ones follow the address of their device. -/
def updateKnownPeer (db : ChatDb) (device : FoundDevice) (now : Int) : ChatDb :=
  match (db.getPeerById device.id).filter fun p => p.isPaired || p.token ≠ "" with
  | none => db
  | some peer => ((answered device now peer).map db.upsertPeer).getD db

theorem deviceType_of_fromStr_ne_nas {text : String} :
    (DeviceType.fromStr text).getD .other ≠ .nas := by
  intro h
  cases ht : DeviceType.fromStr text with
  | none => simp [ht] at h
  | some t =>
    rw [ht, Option.getD_some] at h
    exact DeviceType.fromStr_ne_nas (h ▸ ht)

/-- A peer read, changed and written back is the stored peer. -/
theorem getPeerById_upsertPeer_of_read {db : ChatDb} {known peer : DPeer}
    (hread : db.getPeerById peer.id = some known) (hcreated : peer.createdAt = known.createdAt)
    (hnas : peer.deviceType ≠ .nas) : (db.upsertPeer peer).getPeerById peer.id = some peer := by
  have hrow : (db.peers.find? peer.id).elim peer.createdAt (·.createdAt) = peer.createdAt := by
    obtain ⟨row, hrow, hpeer⟩ := Option.bind_eq_some_iff.mp hread
    obtain ⟨_, _, -, -, rfl⟩ := rowToPeer_eq_some.mp hpeer
    rw [hrow, hcreated]
    rfl
  rw [ChatDb.getPeerById_upsertPeer_self hnas, hrow]

theorem answered_eq_some {device : FoundDevice} {now : Int} {peer rewritten : DPeer}
    (h : answered device now peer = some rewritten) : rewritten = { peer with
      name := device.name
      ip := ",".intercalate device.ips
      port := device.port
      deviceType := (DeviceType.fromStr device.deviceType).getD .other
      updatedAt := isoFromUnixMillis now } := by
  unfold answered at h
  dsimp only at h
  split at h
  · cases h
  · exact (Option.some.inj h).symm

/-- Read back, the peer is the rewritten row; every other peer is as it was. -/
theorem getPeerById_updateKnownPeer {db : ChatDb} {device : FoundDevice} {now : Int} {id : String} :
    (updateKnownPeer db device now).getPeerById id = (db.getPeerById id).map fun peer =>
      if id = device.id ∧ (peer.isPaired ∨ peer.token ≠ "") then
        (answered device now peer).getD peer
      else peer := by
  unfold updateKnownPeer
  cases hp : db.getPeerById device.id with
  | none =>
    rw [Option.filter_none]
    cases hq : db.getPeerById id with
    | none => rfl
    | some peer =>
      rw [Option.map_some, if_neg]
      rintro ⟨rfl, -⟩
      simp [hp] at hq
  | some known =>
    have hid := ChatDb.id_of_getPeerById hp
    by_cases hk : known.isPaired = true ∨ known.token ≠ ""
    · rw [Option.filter_some, if_pos (by simpa using hk)]
      dsimp only
      cases ha : answered device now known with
      | none =>
        rw [Option.map_none, Option.getD_none]
        cases hq : db.getPeerById id with
        | none => simp
        | some peer =>
          by_cases he : id = device.id
          · rw [he, hp] at hq
            cases hq
            simp [ha, he]
          · simp [he]
      | some rewritten =>
        have hr := answered_eq_some ha
        have hrid : rewritten.id = device.id := by rw [hr]; exact hid
        rw [Option.map_some, Option.getD_some]
        by_cases he : id = device.id
        · have hself : (db.upsertPeer rewritten).getPeerById rewritten.id = some rewritten :=
            getPeerById_upsertPeer_of_read (by rw [hrid]; exact hp) (by rw [hr])
              (by rw [hr]; exact deviceType_of_fromStr_ne_nas)
          rw [hrid] at hself
          rw [he, hself, hp, Option.map_some, if_pos ⟨rfl, hk⟩, ha, Option.getD_some]
        · rw [ChatDb.getPeerById_upsertPeer_ne (by rw [hrid]; exact he)]
          cases hq : db.getPeerById id with
          | none => rfl
          | some peer => rw [Option.map_some, if_neg fun hc => he hc.1]
    · rw [Option.filter_some, if_neg (by simpa using hk)]
      cases hq : db.getPeerById id with
      | none => simp
      | some peer =>
        by_cases he : id = device.id
        · rw [he, hp] at hq
          cases hq
          simp only [he, Option.map_some, true_and, if_neg hk]
        · simp [he]

end PlainRs.LocalApi
