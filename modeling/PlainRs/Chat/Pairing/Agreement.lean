import PlainRs.Base.Runs
import PlainRs.Chat.Pairing.Manager

/-! Any number of devices that pair with each other over messages that come late, in any order or
at the wrong device: whether two paired rows hold one key. -/
namespace PlainRs.Chat

open Runs PlainRs.Crypto PlainRs.Utils

/-- The stored key of a paired peer. -/
def PairingManager.pairedKey (mgr : PairingManager) (id : String) : Option String :=
  (mgr.db.getPeerById id).bind fun p => if p.isPaired then some p.key else none

/-- The devices by their ids, the messages under way and the requests on each screen. -/
structure PairingNet where
  devices : String → PairingManager
  inFlight : List NearbyMessage
  shown : List (String × PairingRequest)

inductive PairingAction
  | start (id : String) (env : Surroundings) (secret : Bytes)
      (deviceId deviceName deviceIp : String) (devicePort localPort : UInt16)
  | requestFailed (id deviceId deviceName : String)
  | responseTimeout (id deviceId deviceName : String)
  | cancel (id deviceId : String)
  | respond (id : String) (env : Surroundings) (secret : Bytes) (request : PairingRequest)
      (senderIp : String) (accepted : Bool) (localPort : UInt16)
  | deliver (i : Nat) (id : String) (env : Surroundings) (senderIp : String)
  | lose (i : Nat)

/-- The request an event puts on the screen of device `id`. -/
def incoming (id : String) (event : PairingEvent) : Option (String × PairingRequest) :=
  match event.kind with
  | .incomingRequest request _ => some (id, request)
  | _ => none

namespace PairingNet

section

variable (d : Dalek) (e : Ecdh) (s : PairingNet)

/-- Device `id` has made a call. -/
def after (id : String) (out : PairingOutcome) : PairingNet where
  devices := Function.update s.devices id out.manager
  inFlight := s.inFlight ++ out.posts.map (·.message)
  shown := s.shown ++ out.events.filterMap (incoming id)

/-- The message at a position is no longer under way. -/
def without (i : Nat) : PairingNet := { s with inFlight := s.inFlight.eraseIdx i }

def next : PairingAction → Option PairingNet
  | .start id env secret deviceId deviceName deviceIp devicePort localPort =>
    some (s.after id ((s.devices id).startPairing d e env secret deviceId deviceName deviceIp
      devicePort localPort))
  | .requestFailed id deviceId deviceName =>
    some (s.after id ((s.devices id).requestFailed deviceId deviceName))
  | .responseTimeout id deviceId deviceName =>
    some (s.after id ((s.devices id).responseTimeout deviceId deviceName))
  | .cancel id deviceId => some (s.after id ((s.devices id).cancelPairing deviceId))
  | .respond id env secret request senderIp accepted localPort =>
    if (id, request) ∈ s.shown then
      some (s.after id ((s.devices id).respondToPairing d e env secret request senderIp accepted
        localPort))
    else none
  | .deliver i id env senderIp =>
    s.inFlight[i]?.map fun message =>
      (s.without i).after id ((s.devices id).handleNearbyPost d e env senderIp message)
  | .lose i => s.inFlight[i]?.map fun _ => s.without i

/-- The two devices hold each other paired under different keys. -/
def Unsettled (a b : String) : Prop :=
  (s.devices a).pairedKey b ≠ none ∧ (s.devices b).pairedKey a ≠ none ∧
    (s.devices a).pairedKey b ≠ (s.devices b).pairedKey a

/-- The responses under way. -/
def responses : List PairingResponse :=
  s.inFlight.filterMap fun
    | .response resp => some resp
    | _ => none

/-- `b` has accepted under its present key for `a`, and its answer is on the way to the session of
`a` that it fits. -/
def Answers (a b : String) : Prop :=
  ∃ resp ∈ s.responses, resp.accepted = true ∧ resp.fromId = b ∧ resp.toId = a ∧
    ∃ shared ∈ (s.devices a).agreedKey e b resp.ecdhPublicKey,
      (s.devices b).pairedKey a = some (base64Encode shared)

/-- Two rows that differ are about to be made equal. -/
def Settling (a b : String) : Prop := s.Unsettled a b → Answers e s a b ∨ Answers e s b a

/-- The session of `a` for `b` is not what two rows that differ wait for. -/
def Spares (a b : String) : Prop := s.Unsettled a b → Answers e s b a

/-- The request is the one of the session that its sender has for the device `id`. -/
def Current (request : PairingRequest) (id : String) : Prop :=
  ∃ secret ∈ (s.devices request.fromId).secretFor id,
    base64Decode request.ecdhPublicKey = e.publicKey secret

/-- The delivery of a response to device `id`: it is taken only under the key its sender holds, and
the session and the answer that it uses up are not what two rows wait for. -/
def DeliversSafely (i : Nat) (id : String) (env : Surroundings) (resp : PairingResponse) : Prop :=
  (∀ shared ∈ (s.devices id).completedKey d e env resp,
    ∀ k ∈ (s.devices resp.fromId).pairedKey id, k = base64Encode shared) ∧
  ((s.devices id).completedKey d e env resp = none → PairingManager.Passes d env resp →
    Spares e (s.without i) id resp.fromId) ∧
  (resp.accepted = true →
    (id = resp.toId → (s.devices id).completedKey d e env resp = none) →
      Settling e (s.without i) resp.toId resp.fromId)

/-- What a message may do where it is delivered. -/
def Arrives (i : Nat) (id : String) (env : Surroundings) : NearbyMessage → Prop
  | .request _ => True
  | .cancel c => Spares e (s.without i) id c.fromId
  | .response resp => DeliversSafely d e s i id env resp

/-- An accepted response may get lost when no two rows wait for it. -/
def Expendable (i : Nat) : NearbyMessage → Prop
  | .response resp => resp.accepted = true → Settling e (s.without i) resp.toId resp.fromId
  | _ => True

/-- What a step must not do: accept a request whose session is gone while its sender holds the
accepter paired, take a response under a key that its sender does not hold, or drop the session or
the answer that two rows wait for. -/
def KeepsAgreement : PairingAction → Prop
  | .start id _ _ deviceId _ _ _ _ | .requestFailed id deviceId _ | .responseTimeout id deviceId _
  | .cancel id deviceId => Spares e s id deviceId
  | .respond id _ _ request _ accepted _ =>
    accepted = true → (s.devices request.fromId).pairedKey id = none ∨
      Current e s request id ∨ Answers e s id request.fromId
  | .deliver i id env _ => ∀ message ∈ s.inFlight[i]?, Arrives d e s i id env message
  | .lose i => ∀ message ∈ s.inFlight[i]?, Expendable e s i message

instance {a b : String} : Decidable (s.Unsettled a b) := inferInstanceAs (Decidable (_ ∧ _))

instance {a b : String} : Decidable (Answers e s a b) :=
  inferInstanceAs (Decidable (∃ resp ∈ s.responses, _))

instance {a b : String} : Decidable (Settling e s a b) := inferInstanceAs (Decidable (_ → _))

instance {a b : String} : Decidable (Spares e s a b) := inferInstanceAs (Decidable (_ → _))

instance {request : PairingRequest} {id : String} : Decidable (Current e s request id) :=
  inferInstanceAs (Decidable (∃ secret ∈ _, _))

instance {i : Nat} {id : String} {env : Surroundings} {resp : PairingResponse} :
    Decidable (DeliversSafely d e s i id env resp) := inferInstanceAs (Decidable (_ ∧ _))

instance {i : Nat} {id : String} {env : Surroundings} : ∀ {message : NearbyMessage},
    Decidable (Arrives d e s i id env message)
  | .request _ => inferInstanceAs (Decidable True)
  | .cancel _ => inferInstanceAs (Decidable (Spares e _ _ _))
  | .response _ => inferInstanceAs (Decidable (DeliversSafely d e s _ _ _ _))

instance {i : Nat} : ∀ {message : NearbyMessage}, Decidable (Expendable e s i message)
  | .response _ => inferInstanceAs (Decidable (_ → _))
  | .request _ | .cancel _ => inferInstanceAs (Decidable True)

instance : ∀ {act : PairingAction}, Decidable (KeepsAgreement d e s act)
  | .start .. | .requestFailed .. | .responseTimeout .. | .cancel .. =>
    inferInstanceAs (Decidable (Spares e s _ _))
  | .respond .. => inferInstanceAs (Decidable (_ → _))
  | .deliver .. | .lose .. => inferInstanceAs (Decidable (∀ message ∈ _, _))

end

/-- The start: nothing under way, and rows that agree where both are paired. -/
def system (d : Dalek) (e : Ecdh) : System PairingNet PairingAction where
  init s := (∀ id, (s.devices id).identity.clientId = id ∧ (s.devices id).sessions = fun _ => none) ∧
    s.inFlight = [] ∧ s.shown = [] ∧ ∀ a b, ¬ s.Unsettled a b
  next := next d e

variable {d : Dalek} {e : Ecdh} {s t : PairingNet} {a b x y id : String} {out : PairingOutcome}
  {db : ChatDb} {peer : DPeer} {mgr : PairingManager} {env : Surroundings}

theorem Unsettled.symm (h : s.Unsettled a b) : s.Unsettled b a := ⟨h.2.1, h.1, h.2.2.symm⟩

theorem Unsettled.ne (h : s.Unsettled a b) : a ≠ b := by
  rintro rfl
  exact h.2.2 rfl

theorem mem_responses {resp : PairingResponse} : resp ∈ s.responses ↔ .response resp ∈ s.inFlight := by
  simp only [responses, List.mem_filterMap]
  constructor
  · rintro ⟨m, hm, hr⟩
    cases m with
    | response r =>
      cases hr
      exact hm
    | _ => cases hr
  · exact fun h => ⟨_, h, rfl⟩

theorem Settling.symm (h : Settling e s a b) : Settling e s b a := by
  intro hu
  exact (h hu.symm).symm

/-- A call of device `a` that changes no more than the rows of the devices in `R` and the sessions
for those in `S`. -/
structure Touches (s t : PairingNet) (a : String) (R S : Set String) : Prop where
  others : ∀ c, c ≠ a → t.devices c = s.devices c
  rows : ∀ c, c ∉ R → (t.devices a).pairedKey c = (s.devices a).pairedKey c
  sessions : ∀ c, c ∉ S → (t.devices a).sessions c = (s.devices a).sessions c
  inFlight : ∀ m ∈ s.inFlight, m ∈ t.inFlight

section

variable {R S : Set String}

theorem devices_after : (s.after a out).devices a = out.manager := Function.update_self ..

theorem touches_after (hrows : ∀ c, c ∉ R → out.manager.pairedKey c = (s.devices a).pairedKey c)
    (hsessions : ∀ c, c ∉ S → out.manager.sessions c = (s.devices a).sessions c) :
    Touches s (s.after a out) a R S := by
  refine ⟨fun c hc => Function.update_of_ne hc .., fun c hc => ?_, fun c hc => ?_, fun m hm => ?_⟩
  · rw [devices_after, hrows c hc]
  · rw [devices_after, hsessions c hc]
  · exact List.mem_append_left _ hm

theorem pairedKey_of_db (h : out.manager.db = (s.devices a).db) :
    out.manager.pairedKey b = (s.devices a).pairedKey b := by
  rw [PairingManager.pairedKey, h, PairingManager.pairedKey]

theorem Touches.row (h : Touches s t a R S) (hR : x = a → y ∉ R) :
    (t.devices x).pairedKey y = (s.devices x).pairedKey y := by
  by_cases hx : x = a
  · subst hx
    exact h.rows y (hR rfl)
  · rw [h.others x hx]

theorem Touches.session (h : Touches s t a R S) (hS : x = a → y ∉ S) :
    (t.devices x).sessions y = (s.devices x).sessions y := by
  by_cases hx : x = a
  · subst hx
    exact h.sessions y (hS rfl)
  · rw [h.others x hx]

theorem Touches.unsettled (h : Touches s t a R S) (hxy : x = a → y ∉ R) (hyx : y = a → x ∉ R)
    (hu : t.Unsettled x y) : s.Unsettled x y := by
  rw [Unsettled, h.row hxy, h.row hyx] at hu
  exact hu

theorem Touches.secretFor (h : Touches s t a R S) (hS : x = a → y ∉ S) :
    (t.devices x).secretFor y = (s.devices x).secretFor y := by
  rw [PairingManager.secretFor, h.session hS, PairingManager.secretFor]

/-- An answer stays one where the session it fits and the row behind it stay. -/
theorem Touches.answers (h : Touches s t a R S) (hS : x = a → y ∉ S) (hR : y = a → x ∉ R)
    (ha : Answers e s x y) : Answers e t x y := by
  obtain ⟨resp, hm, hacc, hfrom, hto, shared, hk, hr⟩ := ha
  refine ⟨resp, mem_responses.mpr (h.inFlight _ (mem_responses.mp hm)), hacc, hfrom, hto, shared,
    ?_, (h.row hR).trans hr⟩
  rw [PairingManager.agreedKey, h.secretFor hS]
  exact hk

/-- A call about `b` alone keeps all pairs settled once it does its own. -/
theorem Touches.settled (h : Touches s t a R S) (hR : R ⊆ {b}) (hS : S ⊆ {b})
    (hs : ∀ x y, ¬ (x = a ∧ y = b) → ¬ (y = a ∧ x = b) → Settling e s x y)
    (hab : Settling e t a b) : ∀ x y, Settling e t x y := by
  intro x y hu
  by_cases hxy : x = a ∧ y = b
  · obtain ⟨rfl, rfl⟩ := hxy
    exact hab hu
  · by_cases hyx : y = a ∧ x = b
    · obtain ⟨rfl, rfl⟩ := hyx
      exact hab.symm hu
    · have hne : ∀ T : Set String, T ⊆ {b} → (x = a → y ∉ T) ∧ (y = a → x ∉ T) := by
        intro T hT
        exact ⟨fun hx hy => hxy ⟨hx, hT hy⟩, fun hy hx => hyx ⟨hy, hT hx⟩⟩
      rcases hs x y hxy hyx (h.unsettled (hne R hR).1 (hne R hR).2 hu) with ha | ha
      · exact .inl (h.answers (hne S hS).1 (hne R hR).2 ha)
      · exact .inr (h.answers (hne S hS).2 (hne R hR).1 ha)

end

/-- A call that leaves rows and sessions alone. -/
theorem settled_of_same (hdb : out.manager.db = (s.devices a).db)
    (hsessions : out.manager.sessions = (s.devices a).sessions) (hs : ∀ x y, Settling e s x y) :
    ∀ x y, Settling e (s.after a out) x y := by
  have ht : Touches s (s.after a out) a ∅ ∅ :=
    touches_after (fun c _ => pairedKey_of_db hdb) fun c _ => congrFun hsessions c
  intro x y hu
  have hno : ∀ u v : String, u = a → v ∉ (∅ : Set String) := fun u v _ => Set.notMem_empty v
  rcases hs x y (ht.unsettled (hno x y) (hno y x) hu) with ha | ha
  · exact .inl (ht.answers (hno x y) (hno y x) ha)
  · exact .inr (ht.answers (hno y x) (hno x y) ha)

/-- The end of a session that no two rows wait for. -/
theorem settled_of_end (hdb : out.manager.db = (s.devices a).db)
    (hsessions : ∀ c, c ≠ b → out.manager.sessions c = (s.devices a).sessions c)
    (hs : ∀ x y, ¬ (x = a ∧ y = b) → ¬ (y = a ∧ x = b) → Settling e s x y)
    (hspares : Spares e s a b) : ∀ x y, Settling e (s.after a out) x y := by
  have ht : Touches s (s.after a out) a ∅ {b} :=
    touches_after (fun c _ => pairedKey_of_db hdb) fun c hc => hsessions c hc
  refine ht.settled (Set.empty_subset _) subset_rfl hs fun hu => .inr ?_
  have hne := hu.ne
  refine ht.answers (fun hb => absurd hb.symm hne) (fun _ => Set.notMem_empty b) (hspares ?_)
  exact ht.unsettled (fun _ => Set.notMem_empty b) (fun _ => Set.notMem_empty a) hu

theorem pairedKey_upsertPeer_self (hs : peer.status = .paired) (hn : peer.deviceType ≠ .nas) :
    ({ mgr with db := mgr.db.upsertPeer peer } : PairingManager).pairedKey peer.id =
      some peer.key := by
  rw [PairingManager.pairedKey, ChatDb.getPeerById_upsertPeer_self hn, Option.bind_some]
  exact if_pos (by simp [DPeer.isPaired, hs])

theorem pairedKey_upsertPeer_ne (h : b ≠ peer.id) :
    ({ mgr with db := mgr.db.upsertPeer peer } : PairingManager).pairedKey b = mgr.pairedKey b := by
  rw [PairingManager.pairedKey, ChatDb.getPeerById_upsertPeer_ne h, PairingManager.pairedKey]

/-- A request that is accepted while the session behind it is there, or while its sender does not
hold the accepter paired. -/
theorem settled_of_accept {secret : Bytes} {request : PairingRequest} {senderIp : String}
    {localPort : UInt16} (he : e.Sound) (hs : ∀ x y, Settling e s x y)
    (hg : (s.devices request.fromId).pairedKey id = none ∨ Current e s request id ∨
      Answers e s id request.fromId)
    (hid : (s.devices id).identity.clientId = id) :
    ∀ x y, Settling e (s.after id ((s.devices id).respondToPairing d e env secret request senderIp
      true localPort)) x y := by
  cases hk : e.computeSharedKey secret (base64Decode request.ecdhPublicKey) with
  | none =>
    refine settled_of_same ?_ ?_ hs <;> simp [PairingManager.respondToPairing, hk,
      PairingManager.unchanged]
  | some shared =>
    generalize hout : (s.devices id).respondToPairing d e env secret request senderIp true
      localPort = out
    simp only [PairingManager.respondToPairing, hk, if_true] at hout
    have ht : Touches s (s.after id out) id {request.fromId} ∅ := by
      subst hout
      exact touches_after (fun c hc => pairedKey_upsertPeer_ne hc) fun c _ => rfl
    have hrow : ((s.after id out).devices id).pairedKey request.fromId =
        some (base64Encode shared) := by
      subst hout
      rw [devices_after]
      exact pairedKey_upsertPeer_self rfl PairingManager.fromStr_getD_ne_nas
    refine ht.settled subset_rfl (Set.empty_subset _) (fun x y _ _ => hs x y) fun hu => ?_
    have hne := hu.ne
    have hother : request.fromId = id → id ∉ ({request.fromId} : Set String) :=
      fun hf => absurd hf.symm hne
    rcases hg with hnone | hcur | hans
    · exact absurd ((ht.row hother).trans hnone) hu.2.1
    · right
      obtain ⟨own, hown, hpub⟩ := hcur
      obtain ⟨k, hks, hko⟩ := he.agrees secret own
      rw [hpub, hks] at hk
      cases hk
      refine ⟨(s.devices id).response d env request true (base64Encode (e.publicKey secret))
        env.localIps localPort, mem_responses.mpr (List.mem_append_right _ ?_), rfl, hid, rfl,
        shared, ?_, hrow⟩
      · subst hout
        exact List.mem_singleton_self _
      · rw [PairingManager.agreedKey, ht.secretFor fun _ => Set.notMem_empty id, hown]
        show e.computeSharedKey own (base64Decode (base64Encode (e.publicKey secret))) = _
        rw [base64Decode_encode]
        exact hko
    · exact .inl (ht.answers (fun _ => Set.notMem_empty _) hother hans)

/-- Without the message at `i` the pairs are settled that it is not about, or that are settled
without it. -/
theorem settling_without {i : Nat} {E : String → String → Prop} (hs : ∀ x y, Settling e s x y)
    (hd : ∀ resp, s.inFlight[i]? = some (.response resp) → resp.accepted = true →
      ¬ E resp.toId resp.fromId → Settling e (s.without i) resp.toId resp.fromId)
    (hxy : ¬ E x y) (hyx : ¬ E y x) : Settling e (s.without i) x y := by
  have hkept : ∀ {u v}, ¬ E u v → Answers e s u v → (s.without i).Unsettled u v →
      Answers e (s.without i) u v ∨ Answers e (s.without i) v u := by
    intro u v huv ha hu
    obtain ⟨resp, hm, hacc, rfl, rfl, hrest⟩ := ha
    by_cases hi : s.inFlight[i]? = some (.response resp)
    · exact hd resp hi hacc huv hu
    · obtain ⟨j, hj⟩ := List.getElem?_of_mem (mem_responses.mp hm)
      refine .inl ⟨resp, mem_responses.mpr ?_, hacc, rfl, rfl, hrest⟩
      refine List.mem_eraseIdx_iff_getElem?.mpr ⟨j, ?_, hj⟩
      rintro rfl
      exact hi hj
  intro hu
  rcases hs x y hu with ha | ha
  · exact hkept hxy ha hu
  · exact (hkept hyx ha hu.symm).symm

/-- A message that is no accepted response can go. -/
theorem settled_without {i : Nat} {message : NearbyMessage} (hm : s.inFlight[i]? = some message)
    (hno : ∀ resp, message ≠ .response resp) (hs : ∀ x y, Settling e s x y) :
    ∀ x y, Settling e (s.without i) x y := by
  intro x y
  refine settling_without (E := fun _ _ => False) hs (fun resp hr => ?_) id id
  exact absurd (Option.some.inj (hm.symm.trans hr)) (hno resp)

theorem settled_of_response {i : Nat} {resp : PairingResponse} {senderIp : String}
    (hs : ∀ x y, Settling e s x y) (hi : s.inFlight[i]? = some (.response resp))
    (hg : DeliversSafely d e s i id env resp) : ∀ x y,
      Settling e ((s.without i).after id ((s.devices id).onPairResponse d e env resp senderIp)) x y := by
  obtain ⟨htaken, hends, hdrops⟩ := hg
  have hresp : ∀ {resp'}, s.inFlight[i]? = some (.response resp') → resp' = resp := by
    intro resp' hi'
    cases hi.symm.trans hi'
    rfl
  have hothers : ∀ x y, ¬ (x = id ∧ y = resp.fromId) → ¬ (y = id ∧ x = resp.fromId) →
      Settling e (s.without i) x y := by
    intro x y hxy hyx
    refine settling_without (E := fun u v => u = id ∧ v = resp.fromId) hs ?_ hxy hyx
    intro resp' hi' hacc hne
    cases hresp hi'
    exact hdrops hacc fun hto => absurd ⟨hto.symm, rfl⟩ hne
  rcases PairingManager.onPairResponse_db with ⟨hno, hdb⟩ | ⟨session, shared, hc, hdb⟩
  · by_cases hp : PairingManager.Passes d env resp
    · exact settled_of_end hdb (fun c hc => PairingManager.sessions_onPairResponse_ne hc) hothers
        (hends hno hp)
    · refine settled_of_same hdb (PairingManager.sessions_onPairResponse_of_not_passes hp) ?_
      intro x y
      refine settling_without (E := fun _ _ => False) hs ?_ (fun h => h) (fun h => h)
      intro resp' hi' hacc _
      cases hresp hi'
      exact hdrops hacc fun _ => hno
  · generalize hout : (s.devices id).onPairResponse d e env resp senderIp = out at hdb
    have hkey : ∀ c, out.manager.pairedKey c = ({ s.devices id with db := out.manager.db } :
        PairingManager).pairedKey c := fun c => rfl
    have ht : Touches (s.without i) ((s.without i).after id out) id {resp.fromId} {resp.fromId} := by
      refine touches_after (fun c hc => ?_) fun c hc => ?_
      · rw [hkey, hdb]
        exact pairedKey_upsertPeer_ne hc
      · subst hout
        exact PairingManager.sessions_onPairResponse_ne hc
    refine ht.settled subset_rfl subset_rfl hothers fun hu => ?_
    have hne := hu.ne
    obtain ⟨-, hpaired, hdiffer⟩ := hu
    have hrow : ((((s.without i).after id out).devices id).pairedKey resp.fromId) =
        some (base64Encode shared) := by
      rw [devices_after, hkey, hdb]
      exact pairedKey_upsertPeer_self rfl PairingManager.fromStr_getD_ne_nas
    rw [hrow] at hdiffer
    rw [ht.row fun hf => absurd hf.symm hne] at hpaired hdiffer
    obtain ⟨l, hl⟩ := Option.ne_none_iff_exists'.mp hpaired
    exact absurd (by rw [hl, htaken shared hc l hl]) hdiffer

/-- Each device goes by its own id, and rows that differ are about to be made equal. -/
structure Invariant (e : Ecdh) (s : PairingNet) : Prop where
  identity : ∀ id, (s.devices id).identity.clientId = id
  settled : ∀ x y, Settling e s x y

theorem identity_after (h : ∀ id, (s.devices id).identity.clientId = id)
    (hout : out.manager.identity = (s.devices a).identity) (id : String) :
    ((s.after a out).devices id).identity.clientId = id := by
  by_cases hid : id = a
  · subst hid
    rw [devices_after, hout, h id]
  · have hsame : (s.after a out).devices id = s.devices id := Function.update_of_ne hid ..
    rw [hsame, h id]

theorem invariant_init (h : (system d e).init s) : Invariant e s := by
  obtain ⟨hdevices, -, -, hagree⟩ := h
  exact ⟨fun id => (hdevices id).1, fun x y hu => absurd hu (hagree x y)⟩

theorem sessions_responseTimeout_ne {deviceName : String} (h : a ≠ b) :
    (mgr.responseTimeout b deviceName).manager.sessions a = mgr.sessions a := by
  unfold PairingManager.responseTimeout
  split
  · rfl
  · exact Function.update_of_ne h ..

theorem sessions_cancelPairing_ne (h : a ≠ b) :
    (mgr.cancelPairing b).manager.sessions a = mgr.sessions a := by
  unfold PairingManager.cancelPairing
  split
  · rfl
  · exact Function.update_of_ne h ..

/-- A step that keeps to the condition keeps the rows that differ about to be made equal. -/
theorem settled_next {act : PairingAction} (he : e.Sound) (h : Invariant e s)
    (hg : KeepsAgreement d e s act) (ht : s.next d e act = some t) : ∀ x y, Settling e t x y := by
  cases act with
  | start id env secret deviceId deviceName deviceIp devicePort localPort =>
    cases ht
    exact settled_of_end rfl (fun c hc => Function.update_of_ne hc ..)
      (fun x y _ _ => h.settled x y) hg
  | requestFailed id deviceId deviceName =>
    cases ht
    exact settled_of_end rfl (fun c hc => Function.update_of_ne hc ..)
      (fun x y _ _ => h.settled x y) hg
  | responseTimeout id deviceId deviceName =>
    cases ht
    refine settled_of_end ?_ (fun c hc => sessions_responseTimeout_ne hc)
      (fun x y _ _ => h.settled x y) hg
    unfold PairingManager.responseTimeout
    split <;> rfl
  | cancel id deviceId =>
    cases ht
    refine settled_of_end ?_ (fun c hc => sessions_cancelPairing_ne hc)
      (fun x y _ _ => h.settled x y) hg
    unfold PairingManager.cancelPairing
    split <;> rfl
  | respond id env secret request senderIp accepted localPort =>
    simp only [next] at ht
    split at ht
    · cases ht
      cases accepted with
      | true => exact settled_of_accept he h.settled (hg rfl) (h.identity id)
      | false => exact settled_of_same rfl rfl h.settled
    · cases ht
  | deliver i id env senderIp =>
    obtain ⟨message, hm, rfl⟩ := Option.map_eq_some_iff.mp ht
    have hg := hg message hm
    cases message with
    | request req =>
      have hsame : ((s.devices id).onPairRequest d env req senderIp).manager = s.devices id := by
        unfold PairingManager.onPairRequest
        split <;> [rfl; split <;> rfl]
      exact settled_of_same (congrArg _ hsame) (congrArg _ hsame)
        (settled_without hm (by simp) h.settled)
    | cancel c =>
      exact settled_of_end rfl (fun k hk => Function.update_of_ne hk ..)
        (fun x y _ _ => settled_without hm (by simp) h.settled x y) hg
    | response resp => exact settled_of_response h.settled hm hg
  | lose i =>
    obtain ⟨message, hm, rfl⟩ := Option.map_eq_some_iff.mp ht
    intro x y
    exact settling_without (E := fun _ _ => False) h.settled
      (fun resp hr hacc _ => hg (.response resp) hr hacc) (fun h => h) (fun h => h)

theorem identity_next {act : PairingAction} (h : ∀ id, (s.devices id).identity.clientId = id)
    (ht : s.next d e act = some t) : ∀ id, (t.devices id).identity.clientId = id := by
  cases act with
  | start | requestFailed =>
    cases ht
    exact identity_after h rfl
  | responseTimeout id deviceId deviceName =>
    cases ht
    refine identity_after h ?_
    unfold PairingManager.responseTimeout
    split <;> rfl
  | cancel id deviceId =>
    cases ht
    refine identity_after h ?_
    unfold PairingManager.cancelPairing
    split <;> rfl
  | respond id env secret request senderIp accepted localPort =>
    simp only [next] at ht
    split at ht
    · cases ht
      refine identity_after h ?_
      unfold PairingManager.respondToPairing
      dsimp only
      split <;> [split <;> rfl; rfl]
    · cases ht
  | deliver i id env senderIp =>
    obtain ⟨message, hm, rfl⟩ := Option.map_eq_some_iff.mp ht
    refine identity_after h ?_
    cases message <;> simp only [PairingManager.handleNearbyPost, PairingManager.onPairRequest,
      PairingManager.onPairResponse, PairingManager.onPairCancel] <;> repeat' split
    all_goals rfl
  | lose i =>
    obtain ⟨message, hm, rfl⟩ := Option.map_eq_some_iff.mp ht
    exact h

theorem invariant_reachable (he : e.Sound)
    (h : ReachableUnder (system d e) (KeepsAgreement d e) s) : Invariant e s :=
  h.invariant (fun _ hi => invariant_init hi) fun _ _ _ hi hg ht =>
    ⟨identity_next hi.identity ht, settled_next he hi hg ht⟩

/-- An example device. -/
def demoDevice (id : String) : PairingManager where
  db := ⟨Keyed.Table.empty, Keyed.Table.empty⟩
  identity := ⟨id, id, base64Encode (demoKeypair (if id = "alice" then 1 else 2))⟩
  localDeviceType := "COMPUTER"
  sessions := fun _ => none

def demoNet : PairingNet where
  devices := demoDevice
  inFlight := []
  shown := []

def demoSurroundings : Surroundings := ⟨0, "t", []⟩

def demoStarts (id deviceId : String) (secret : UInt8) : PairingAction :=
  .start id demoSurroundings [secret] deviceId deviceId "10.0.0.1" 8443 8443

def demoDelivers (id : String) : PairingAction := .deliver 0 id demoSurroundings "10.0.0.1"

/-- The answer of `id` to the request that `fromId` has started with `secret`. -/
def demoAccepts (id fromId : String) (secret own : UInt8) : PairingAction :=
  .respond id demoSurroundings [own]
    { (demoDevice fromId).request checksumDalek productEcdh demoSurroundings [secret] 8443 with
      fromIp := "10.0.0.1" } "10.0.0.1" true 8443

theorem init_demoNet : (system d e).init demoNet := by
  refine ⟨fun id => ⟨rfl, rfl⟩, rfl, rfl, ?_⟩
  rintro a b ⟨hk, -⟩
  exact hk rfl

/-- Nothing is under way, and Alice and Bob hold each other paired: under one key, or not. -/
def demoPaired (same : Bool) (s : PairingNet) : Bool :=
  s.inFlight = [] ∧ (s.devices "alice").pairedKey "bob" ≠ none ∧
    (s.devices "bob").pairedKey "alice" ≠ none ∧
    ((s.devices "alice").pairedKey "bob" = (s.devices "bob").pairedKey "alice" ↔ same = true)

theorem demoPaired_spec {same : Bool} (h : demoPaired same s = true) : s.inFlight = [] ∧
    ∃ k l, (s.devices "alice").pairedKey "bob" = some k ∧
      (s.devices "bob").pairedKey "alice" = some l ∧ (k = l ↔ same = true) := by
  obtain ⟨hq, hk, hl, hsame⟩ := of_decide_eq_true h
  obtain ⟨k, hk⟩ := Option.ne_none_iff_exists'.mp hk
  obtain ⟨l, hl⟩ := Option.ne_none_iff_exists'.mp hl
  rw [hk, hl, Option.some.injEq] at hsame
  exact ⟨hq, k, l, hk, hl, hsame⟩

/-- Alice asks, Bob accepts. -/
def alicePairs : List PairingAction :=
  [demoStarts "alice" "bob" 2, demoDelivers "bob", demoAccepts "bob" "alice" 2 7,
    demoDelivers "alice"]

/-- Alice and Bob ask at once and both accept. -/
def bothPair : List PairingAction :=
  [demoStarts "alice" "bob" 2, demoStarts "bob" "alice" 3, demoDelivers "bob",
    demoDelivers "alice", demoAccepts "alice" "bob" 3 5, demoAccepts "bob" "alice" 2 7,
    demoDelivers "bob", demoDelivers "alice"]

end PairingNet

end PlainRs.Chat
