import PlainRs.Chat.Db

/-! The two writers of `peers` rows against the reader: which peers read back. -/
namespace PlainRs.Chat

open Keyed

/-- A write of one peer: `upsert_peer`, or `login_peer` at the time given. -/
inductive PeerWrite
  | upsert (peer : DPeer)
  | login (id name ip : String) (port : UInt16) (deviceType : DeviceType)
      (token signaturePublicKey chatKey now : String)

namespace PeerWrite

def apply (db : ChatDb) : PeerWrite → ChatDb
  | upsert peer => db.upsertPeer peer
  | login id name ip port deviceType token signaturePublicKey chatKey now =>
    db.loginPeer id name ip port deviceType token signaturePublicKey chatKey now

def id : PeerWrite → String
  | upsert peer => peer.id
  | login id .. => id

def deviceType : PeerWrite → DeviceType
  | upsert peer => peer.deviceType
  | login _ _ _ _ deviceType .. => deviceType

/-- The peer written. An existing row keeps its `created_at`; a login also keeps the name and the
public key it leaves empty and, without a chat key, the pairing. -/
def written (db : ChatDb) : PeerWrite → Option DPeer
  | upsert peer =>
    some { peer with createdAt := (db.peers.find? peer.id).elim peer.createdAt (·.createdAt) }
  | login id name ip port deviceType token signaturePublicKey chatKey now =>
    match db.peers.find? id with
    | none =>
      some ⟨id, name, ip, chatKey, signaturePublicKey,
        if chatKey ≠ "" then .paired else .unpaired, port, deviceType, token, now, now⟩
    | some row =>
      (if chatKey ≠ "" then some .paired else PeerStatus.fromStr row.status).map fun status =>
        ⟨id, if name ≠ "" then name else row.name, ip, if chatKey ≠ "" then chatKey else row.key,
          if signaturePublicKey ≠ "" then signaturePublicKey else row.publicKey, status, port,
          deviceType, token, row.createdAt, now⟩

/-- The peer comes back from both readers as it was written. -/
def ReadsBack (w : PeerWrite) (db : ChatDb) : Prop :=
  ∃ p, w.written db = some p ∧ (w.apply db).getPeerById w.id = some p ∧ p ∈ (w.apply db).getPeers

/-- A login without a chat key keeps the stored status, which is then one the code writes. -/
def KeepsStatus (db : ChatDb) : PeerWrite → Prop
  | upsert _ => True
  | login id _ _ _ _ _ _ chatKey _ =>
    chatKey = "" → ∀ row, db.peers.find? id = some row → (PeerStatus.fromStr row.status).isSome

/-- The row that is there after the write. -/
def row (db : ChatDb) : PeerWrite → PeerRow
  | upsert peer =>
    (db.peers.find? peer.id).elim (peerToRow peer) fun row =>
      { peerToRow peer with id := row.id, createdAt := row.createdAt }
  | login id name ip port deviceType token signaturePublicKey chatKey now =>
    let excluded := ChatDb.loginRow id name ip port deviceType token signaturePublicKey chatKey now
    (db.peers.find? id).elim excluded (ChatDb.loginMerge excluded)

end PeerWrite

open PeerWrite

variable {db : ChatDb} {w : PeerWrite} {row : PeerRow} {p : DPeer} {k : String}

theorem find?_apply : (w.apply db).peers.find? w.id = some (w.row db) := by
  cases w with
  | upsert peer => exact Table.find?_upsert.trans (if_pos rfl)
  | login => exact Table.find?_upsert.trans (if_pos rfl)

theorem mem_getPeers_of_find? (h : db.peers.find? k = some row) (hp : rowToPeer row = some p) :
    p ∈ db.getPeers := by
  have hmem := (Table.find?_eq_some.mp h).1
  refine List.mem_filterMap.mpr ⟨row, ?_, hp⟩
  exact (List.mem_insertionSort _).mpr hmem

/-- A device type column reads back unless it holds `NAS`. -/
theorem rowToPeer_of_deviceType {t : DeviceType} (h : row.deviceType = t.asStr) :
    rowToPeer row = if t = .nas then none else
      (PeerStatus.fromStr row.status).map fun s =>
        { row with status := s, port := UInt16.ofInt row.port, deviceType := t } := by
  rw [rowToPeer, h, DeviceType.fromStr_asStr]
  cases PeerStatus.fromStr row.status <;> split <;> rfl

theorem deviceType_row : (w.row db).deviceType = w.deviceType.asStr := by
  cases w with
  | upsert peer =>
    simp only [PeerWrite.row]
    cases db.peers.find? peer.id <;> rfl
  | login id name ip port deviceType token signaturePublicKey chatKey now =>
    simp only [PeerWrite.row]
    cases db.peers.find? id with
    | none => rfl
    | some row =>
      have hne : deviceType.asStr ≠ "" := by cases deviceType <;> decide
      exact if_pos hne

theorem rowToPeer_row : rowToPeer (w.row db) = if w.deviceType = .nas then none else w.written db := by
  rw [rowToPeer_of_deviceType deviceType_row]
  congr 1
  cases w with
  | upsert peer =>
    simp only [PeerWrite.row, PeerWrite.written]
    cases hr : db.peers.find? peer.id with
    | none => simp [peerToRow, ChatDb.ofInt_toNat, PeerWrite.deviceType]
    | some row =>
      have hid : row.id = peer.id := Table.key_of_find? hr
      simp [peerToRow, ChatDb.ofInt_toNat, PeerWrite.deviceType, hid]
  | login id name ip port deviceType token signaturePublicKey chatKey now =>
    simp only [PeerWrite.row, PeerWrite.written]
    cases hr : db.peers.find? id with
    | none =>
      by_cases hkey : chatKey = "" <;>
        simp [ChatDb.loginRow, ChatDb.ofInt_toNat, PeerWrite.deviceType, PeerStatus.fromStr, hkey]
    | some row =>
      have hid : row.id = id := Table.key_of_find? hr
      by_cases hkey : chatKey = "" <;>
        simp [ChatDb.loginRow, ChatDb.loginMerge, ChatDb.ofInt_toNat, PeerWrite.deviceType,
          PeerStatus.fromStr, hkey, hid]

theorem isSome_written : (w.written db).isSome ↔ w.KeepsStatus db := by
  cases w with
  | upsert peer => exact iff_of_true rfl trivial
  | login id name ip port deviceType token signaturePublicKey chatKey now =>
    simp only [PeerWrite.written, KeepsStatus]
    cases hr : db.peers.find? id with
    | none => simp
    | some row => by_cases hkey : chatKey = "" <;> simp [hkey]

/-- A peer written reads back with all its fields unless its device type is `nas`. -/
theorem readsBack_iff : w.ReadsBack db ↔ w.deviceType ≠ .nas ∧ w.KeepsStatus db := by
  have hget : (w.apply db).getPeerById w.id = rowToPeer (w.row db) := by
    rw [ChatDb.getPeerById, find?_apply, Option.bind_some]
  rw [← isSome_written]
  constructor
  · rintro ⟨p, hw, hp, -⟩
    rw [hget, rowToPeer_row] at hp
    refine ⟨fun hnas => ?_, by rw [hw]; rfl⟩
    rw [if_pos hnas] at hp
    cases hp
  · rintro ⟨hnas, hsome⟩
    obtain ⟨p, hw⟩ := Option.isSome_iff_exists.mp hsome
    have hp : rowToPeer (w.row db) = some p := by rw [rowToPeer_row, if_neg hnas, hw]
    exact ⟨p, hw, hget.trans hp, mem_getPeers_of_find? find?_apply hp⟩

/-- Whatever is written over whatever database, it reads back. -/
def PeersReadBack : Prop := ∀ (w : PeerWrite) (db : ChatDb), w.ReadsBack db

/-- A NAS that is stored vanishes from both readers. -/
theorem storedNas_not_readsBack : ¬ PeersReadBack := by
  intro h
  obtain ⟨p, -, hp, -⟩ := h (.upsert (DPeer.new "nas" "NAS" "10.0.0.9" 8443 .nas "t1"))
    ⟨Table.empty, Table.empty⟩
  have hnone : (ChatDb.upsertPeer ⟨Table.empty, Table.empty⟩
      (DPeer.new "nas" "NAS" "10.0.0.9" 8443 .nas "t1")).getPeerById "nas" = none := by
    decide +kernel
  exact absurd (hp.symm.trans hnone) (by simp)

end PlainRs.Chat
