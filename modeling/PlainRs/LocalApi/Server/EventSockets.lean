import PlainRs.Base.Broadcast
import PlainRs.Base.Endian
import PlainRs.Base.Runs
import PlainRs.LocalApi.Server.Ws

/-! The sockets of the event bus: `ws_frame.rs`, and `chat_socket` of `local_api/server/ws.rs`. -/
namespace PlainRs.LocalApi.EventSockets

open Broadcast Endian PlainRs.Crypto PlainRs.Utils Runs

def typeLen : ℕ := 4

section Codec

variable (c : Aead)

/-- `msg_type || xchacha(key, payload)`, the type as four bytes with the greatest first. -/
def encode (nonce : Nonce 24) (msgType : Int32) (payload key : Bytes) : Option Bytes :=
  (xchachaEncryptRaw c nonce key payload).map (beBytes typeLen msgType.toUInt32.toNat ++ ·)

def decode (frame key : Bytes) : Option (Int32 × Bytes) :=
  if frame.length < typeLen + 24 then none
  else
    (xchachaDecryptRaw c key (frame.drop typeLen)).map
      ((UInt32.ofNat (beNat (frame.take typeLen))).toInt32, ·)

def encodeWithToken (nonce : Nonce 24) (msgType : Int32) (payload : Bytes) (tokenB64 : String) :
    Option Bytes := encode c nonce msgType payload (base64Decode tokenB64)

def decodeWithToken (frame : Bytes) (tokenB64 : String) : Option (Int32 × Bytes) :=
  decode c frame (base64Decode tokenB64)

end Codec

structure WsEvent where
  eventType : Int32
  payload : String

def encodeWsEvent (c : Aead) (nonce : Nonce 24) (ev : WsEvent) (token : String) : Option Bytes :=
  encodeWithToken c nonce ev.eventType (Text.bytes ev.payload) token

/-- What a socket's `recv` yields. -/
inductive Incoming
  | binary (bytes : Bytes)
  | close
  | other
  /-- An error, or the end of the stream. -/
  | broken

/-- Where a `chat_socket` is: waiting for its first binary frame; past it, and about to subscribe;
forwarding; or at its end. -/
inductive Phase
  | handshake
  | authenticated
  | streaming
  | ended
  deriving DecidableEq

/-- A `chat_socket` with its position in the bus, the frames that went out, and how many events its
lag notices counted. It subscribed at `since`; `shown` is the first binary frame that came in. -/
structure Socket where
  cid : String
  phase : Phase
  next : ℕ
  sent : List Bytes
  missed : ℕ
  since : ℕ
  shown : Option Bytes

/-- The bus, everything that was sent on it, and the sockets in the order of their connections. -/
structure Bus where
  channel : Channel WsEvent
  log : List WsEvent
  sockets : List Socket

inductive Action
  | emit (ev : WsEvent)
  | connect (path : String)
  | incoming (i : ℕ) (m : Incoming)
  | subscribe (i : ℕ)
  /-- The turn of the bus, with the nonce that is drawn and whether the send goes through. -/
  | forward (i : ℕ) (nonce : Nonce 24) (ok : Bool)

section

variable (c : Aead) (token : String)

def Socket.connect (path : String) : Socket :=
  let cid := (queryParam path "cid").getD ""
  ⟨cid, if cid = "" then .ended else .handshake, 0, [], 0, 0, none⟩

def Socket.incoming (k : Socket) (m : Incoming) : Option Socket :=
  match k.phase with
  | .handshake =>
    match m with
    | .binary bytes =>
      some { k with
        phase := if (xchachaDecryptRaw c (base64Decode token) bytes).isSome then .authenticated
          else .ended
        shown := some bytes }
    | .close | .broken => some { k with phase := .ended }
    | .other => some k
  | .streaming =>
    match m with
    | .close | .broken => some { k with phase := .ended }
    | _ => some k
  | _ => none

/-- `event_rx.recv` and what is made of it; nothing while there is no event. -/
def Socket.forward (k : Socket) (channel : Channel WsEvent) (nonce : Nonce 24) (ok : Bool) :
    Option Socket :=
  match channel.recv k.next with
  | (.value ev, next) =>
    match encodeWsEvent c nonce ev token with
    | some bytes =>
      if ok then some { k with next := next, sent := k.sent ++ [bytes] }
      else some { k with next := next, phase := .ended }
    | none => some { k with next := next }
  | (.lagged n, next) => some { k with next := next, missed := k.missed + n }
  | (.empty, _) => none

def Bus.put (s : Bus) (i : ℕ) (k : Socket) : Bus := { s with sockets := s.sockets.set i k }

def Bus.next (s : Bus) : Action → Option Bus
  | .emit ev => some { s with channel := s.channel.send ev, log := s.log ++ [ev] }
  | .connect path => some { s with sockets := s.sockets ++ [Socket.connect path] }
  | .incoming i m => (s.sockets[i]?.bind (·.incoming c token m)).map (s.put i)
  | .subscribe i =>
    match s.sockets[i]? with
    | some k =>
      if k.phase = .authenticated then
        some (s.put i { k with phase := .streaming, next := s.log.length, since := s.log.length })
      else none
    | none => none
  | .forward i nonce ok =>
    match s.sockets[i]? with
    | some k =>
      if k.phase = .streaming then (k.forward c token s.channel nonce ok).map (s.put i) else none
    | none => none

def bus (capacity : ℕ) : System Bus Action where
  init s := s = ⟨.new capacity, [], []⟩
  next := Bus.next c token

end

/-- What a client reads of an event. -/
def WsEvent.plain (ev : WsEvent) : Int32 × Bytes := (ev.eventType, Text.bytes ev.payload)

/-- The events from the socket's subscription up to its position. -/
def Bus.passed (s : Bus) (k : Socket) : List WsEvent := (s.log.drop k.since).take (k.next - k.since)

/-- What the client makes of the frames it gets. -/
def Socket.read (c : Aead) (token : String) (k : Socket) : List (Option (Int32 × Bytes)) :=
  k.sent.map (decodeWithToken c · token)

variable {c : Aead} {token : String} {s t : Bus} {a : Action} {i capacity : ℕ} {k k' : Socket}
  {key frame payload : Bytes} {msgType : Int32} {nonce : Nonce 24}

theorem beNat_type : (UInt32.ofNat (beNat (beBytes typeLen msgType.toUInt32.toNat))).toInt32 =
    msgType := by
  have hlt : msgType.toUInt32.toNat < 256 ^ typeLen := msgType.toUInt32.toNat_lt
  rw [beNat_beBytes hlt, UInt32.ofNat_toNat]
  exact Int32.toInt32_toUInt32 msgType

/-- A frame is read back as exactly what it was made of. -/
theorem decode_iff (hc : c.Sound) : decode c frame key = some (msgType, payload) ↔
    ∃ nonce : Nonce 24, encode c nonce msgType payload key = some frame := by
  constructor
  · intro h
    rw [decode] at h
    split at h
    · cases h
    · next hlen =>
      obtain ⟨pt, hpt, heq⟩ := Option.map_eq_some_iff.mp h
      obtain ⟨htype, rfl⟩ := Prod.mk.inj heq
      obtain ⟨nonce, hnonce⟩ := (xchachaDecryptRaw_iff hc).mp hpt
      refine ⟨nonce, ?_⟩
      have htake : (frame.take typeLen).length = typeLen := by
        rw [List.length_take]
        omega
      have hlt := beNat_lt (frame.take typeLen)
      rw [htake] at hlt
      rw [encode, hnonce, Option.map_some, ← htype, UInt32.toUInt32_toInt32,
        UInt32.toNat_ofNat_of_lt' hlt, beBytes_beNat htake, List.take_append_drop]
  · rintro ⟨nonce, h⟩
    obtain ⟨sealed, hsealed, rfl⟩ := Option.map_eq_some_iff.mp h
    have hdecrypt := (xchachaDecryptRaw_iff hc).mpr ⟨nonce, hsealed⟩
    have hlen : 24 ≤ sealed.length := by
      by_contra hlt
      rw [xchachaDecryptRaw, decryptFramed, if_pos (by omega)] at hdecrypt
      cases hdecrypt
    rw [decode, if_neg (by rw [List.length_append, length_beBytes]; omega),
      List.take_left' (length_beBytes ..), List.drop_left' (length_beBytes ..), hdecrypt, beNat_type]
    rfl

/-- A text that was sealed under the token's key. -/
def Sealed (c : Aead) (token : String) (frame : Bytes) : Prop :=
  ∃ pt, ∃ nonce : Nonce 24, xchachaEncryptRaw c nonce (base64Decode token) pt = some frame

theorem key_of_sealed (h : Sealed c token frame) : (base64Decode token).length = 32 := by
  obtain ⟨pt, nonce, h⟩ := h
  by_contra hne
  rw [xchachaEncryptRaw, encryptFramed, if_pos hne] at h
  cases h

theorem encodeWsEvent_read (hc : c.Sound) (hkey : (base64Decode token).length = 32) (ev : WsEvent) :
    ∃ bytes, encodeWsEvent c nonce ev token = some bytes ∧
      decodeWithToken c bytes token = some ev.plain := by
  have hbytes : encodeWsEvent c nonce ev token = some (beBytes typeLen ev.eventType.toUInt32.toNat ++
      (nonce ++ c.encrypt (base64Decode token) nonce (Text.bytes ev.payload))) := by
    rw [encodeWsEvent, encodeWithToken, encode, xchachaEncryptRaw, encryptFramed_eq hkey]
    rfl
  exact ⟨_, hbytes, (decode_iff hc).mpr ⟨nonce, hbytes⟩⟩

/-- What a socket has sent of the events since its subscription. -/
structure Serves (c : Aead) (token : String) (s : Bus) (k : Socket) : Prop where
  named : k.phase ≠ .ended → k.cid ≠ ""
  shown : k.phase = .authenticated ∨ k.phase = .streaming ∨ k.sent ≠ [] →
    k.cid ≠ "" ∧ ∃ frame, k.shown = some frame ∧ Sealed c token frame
  fresh : k.phase = .handshake ∨ k.phase = .authenticated → k.sent = [] ∧ k.missed = 0
  since_le : k.since ≤ k.next
  next_le : k.next ≤ s.log.length
  read : (k.read c token).Sublist ((s.passed k).map fun ev => some ev.plain)
  count : k.phase = .streaming → k.sent.length + k.missed = k.next - k.since
  missed : k.missed ≠ 0 → k.since + s.channel.capacity < s.log.length

/-- The channel keeps the end of what was sent on the bus. -/
structure Sound (c : Aead) (token : String) (capacity : ℕ) (s : Bus) : Prop where
  holds : s.channel.Holds s.log
  capacity : s.channel.capacity = capacity.nextPowerOfTwo
  serves : ∀ k ∈ s.sockets, Serves c token s k

theorem serves_connect (path : String) : Serves c token s (Socket.connect path) := by
  refine ⟨?_, ?_, fun _ => ⟨rfl, rfl⟩, Nat.le_refl 0, Nat.zero_le _, ?_, ?_, fun h => absurd rfl h⟩
  · intro hphase hcid
    simp only [Socket.connect] at hphase hcid
    rw [if_pos hcid] at hphase
    exact hphase rfl
  · intro h
    simp only [Socket.connect] at h
    split at h <;> simp at h
  · exact List.nil_sublist _
  · intro h
    simp only [Socket.connect] at h
    split at h <;> cases h

/-- A socket whose position and frames stay. -/
theorem Serves.of_same (h : Serves c token s k) (hnamed : k'.phase ≠ .ended → k.phase ≠ .ended)
    (hcid : k'.cid = k.cid) (hnext : k'.next = k.next) (hsent : k'.sent = k.sent)
    (hmissed : k'.missed = k.missed) (hsince : k'.since = k.since)
    (hshown : k'.phase = .authenticated ∨ k'.phase = .streaming ∨ k'.sent ≠ [] →
      k'.cid ≠ "" ∧ ∃ frame, k'.shown = some frame ∧ Sealed c token frame)
    (hfresh : k'.phase = .handshake ∨ k'.phase = .authenticated →
      k.phase = .handshake ∨ k.phase = .authenticated)
    (hstreaming : k'.phase = .streaming → k.phase = .streaming) : Serves c token s k' := by
  refine ⟨?_, hshown, ?_, ?_, ?_, ?_, ?_, ?_⟩
  · intro hphase
    rw [hcid]
    exact h.named (hnamed hphase)
  · intro hphase
    rw [hsent, hmissed]
    exact h.fresh (hfresh hphase)
  · rw [hsince, hnext]
    exact h.since_le
  · rw [hnext]
    exact h.next_le
  · rw [Socket.read, hsent, Bus.passed, hsince, hnext]
    exact h.read
  · intro hphase
    rw [hsent, hmissed, hnext, hsince]
    exact h.count (hstreaming hphase)
  · rw [hmissed, hsince]
    exact h.missed

theorem serves_incoming (hc : c.Sound) {m : Incoming} (h : Serves c token s k)
    (hk : k.incoming c token m = some k') : Serves c token s k' := by
  cases hphase : k.phase with
  | handshake =>
    have hsent : k.sent = [] := (h.fresh (.inl hphase)).1
    cases m with
    | binary bytes =>
      simp only [Socket.incoming, hphase, Option.some.injEq] at hk
      subst hk
      refine h.of_same (by simp [hphase]) rfl rfl rfl rfl rfl ?_ (fun _ => .inl hphase) ?_
      · intro hauth
        cases hplain : xchachaDecryptRaw c (base64Decode token) bytes with
        | none => simp [hplain, hsent] at hauth
        | some pt =>
          obtain ⟨nonce, hnonce⟩ := (xchachaDecryptRaw_iff hc).mp hplain
          exact ⟨h.named (by simp [hphase]), bytes, rfl, pt, nonce, hnonce⟩
      · intro hstreaming
        dsimp only at hstreaming
        split at hstreaming <;> cases hstreaming
    | close | broken =>
      simp only [Socket.incoming, hphase, Option.some.injEq] at hk
      subst hk
      refine h.of_same (by simp) rfl rfl rfl rfl rfl ?_ (by simp) (by simp)
      simp [hsent]
    | other =>
      simp only [Socket.incoming, hphase, Option.some.injEq] at hk
      subst hk
      exact h
  | streaming =>
    cases m with
    | close | broken =>
      simp only [Socket.incoming, hphase, Option.some.injEq] at hk
      subst hk
      refine h.of_same (by simp) rfl rfl rfl rfl rfl ?_ (by simp) (by simp)
      intro _
      exact h.shown (.inr (.inl hphase))
    | binary bytes | other =>
      simp only [Socket.incoming, hphase, Option.some.injEq] at hk
      subst hk
      exact h
  | authenticated | ended =>
    simp [Socket.incoming, hphase] at hk

theorem serves_subscribe (h : Serves c token s k) (hphase : k.phase = .authenticated) :
    Serves c token s { k with phase := .streaming, next := s.log.length, since := s.log.length } := by
  obtain ⟨hsent, hmissed⟩ := h.fresh (.inr hphase)
  refine ⟨fun _ => h.named (by simp [hphase]), fun _ => h.shown (.inl hphase), ?_, Nat.le_refl _,
    Nat.le_refl _, ?_, ?_, ?_⟩
  · simp
  · simp [Socket.read, hsent]
  · simp [hsent, hmissed]
  · simp [hmissed]

theorem passed_succ {ev : WsEvent} (hle : k.since ≤ k.next) (hev : s.log[k.next]? = some ev) :
    s.passed { k with next := k.next + 1 } = s.passed k ++ [ev] := by
  have hget : (s.log.drop k.since)[k.next - k.since]? = some ev := by
    rw [List.getElem?_drop, Nat.add_sub_cancel' hle, hev]
  rw [Bus.passed, Bus.passed]
  dsimp only
  rw [Nat.sub_add_comm hle, List.take_add_one, hget]
  rfl

theorem passed_mono {n : ℕ} (hle : k.next ≤ n) :
    (s.passed k).Sublist (s.passed { k with next := n }) :=
  List.take_sublist_take_left (by dsimp only; omega)

theorem serves_value (hc : c.Sound) {ev : WsEvent} {ok : Bool} (h : Serves c token s k)
    (hphase : k.phase = .streaming) (hev : s.log[k.next]? = some ev)
    (hrecv : s.channel.recv k.next = (.value ev, k.next + 1))
    (hk : k.forward c token s.channel nonce ok = some k') : Serves c token s k' := by
  obtain ⟨hcid, frame, hshown, hsealed⟩ := h.shown (.inr (.inl hphase))
  obtain ⟨bytes, hbytes, hread⟩ := @encodeWsEvent_read c token nonce hc (key_of_sealed hsealed) ev
  have hcount := h.count hphase
  have hle := h.since_le
  have hlt : k.next < s.log.length := (List.getElem?_eq_some_iff.mp hev).1
  rw [Socket.forward, hrecv] at hk
  simp only [hbytes] at hk
  split at hk
  · cases hk
    refine ⟨fun _ => hcid, fun _ => ⟨hcid, frame, hshown, hsealed⟩, ?_, Nat.le_succ_of_le hle, hlt,
      ?_, ?_, h.missed⟩
    · intro hearly
      simp [hphase] at hearly
    · change ((k.sent ++ [bytes]).map (decodeWithToken c · token)).Sublist
        ((s.passed { k with next := k.next + 1 }).map fun ev => some ev.plain)
      rw [passed_succ hle hev, List.map_append, List.map_append, List.map_singleton,
        List.map_singleton, hread]
      exact h.read.append (List.Sublist.refl _)
    · intro _
      simp only [List.length_append, List.length_singleton]
      omega
  · cases hk
    refine ⟨fun hne => absurd rfl hne, fun _ => ⟨hcid, frame, hshown, hsealed⟩, ?_,
      Nat.le_succ_of_le hle, hlt, ?_, ?_, h.missed⟩
    · intro hearly
      simp at hearly
    · exact h.read.trans ((passed_mono (Nat.le_succ k.next)).map _)
    · intro hstreaming
      cases hstreaming

theorem serves_forward (hc : c.Sound) (hholds : s.channel.Holds s.log) {ok : Bool}
    (h : Serves c token s k) (hphase : k.phase = .streaming)
    (hk : k.forward c token s.channel nonce ok = some k') : Serves c token s k' := by
  have hfirst := hholds.first
  by_cases hlag : k.next < s.channel.first
  · rw [Socket.forward, Channel.recv_lagged hlag] at hk
    cases hk
    have hcount := h.count hphase
    have hle := h.since_le
    refine ⟨h.named, h.shown, ?_, ?_, ?_, ?_, ?_, ?_⟩
    · intro hearly
      simp [hphase] at hearly
    · dsimp only
      omega
    · dsimp only
      omega
    · exact h.read.trans ((passed_mono (Nat.le_of_lt hlag)).map _)
    · intro _
      dsimp only
      omega
    · intro _
      dsimp only
      omega
  · have hge : s.channel.first ≤ k.next := Nat.le_of_not_lt hlag
    cases hev : s.log[k.next]? with
    | none =>
      rw [Socket.forward, hholds.recv_empty hge hev] at hk
      cases hk
    | some ev =>
      exact serves_value hc h hphase hev (hholds.recv_value hge hev) hk

/-- What was emitted since is ahead of the socket. -/
theorem serves_emit {ev : WsEvent} (h : Serves c token s k) :
    Serves c token { s with channel := s.channel.send ev, log := s.log ++ [ev] } k := by
  refine ⟨h.named, h.shown, h.fresh, h.since_le, ?_, ?_, h.count, ?_⟩
  · have hle := h.next_le
    simp only [List.length_append]
    omega
  · have hsame : ({ s with channel := s.channel.send ev, log := s.log ++ [ev] } : Bus).passed k =
        s.passed k := by
      have hnext := h.next_le
      have hsince := h.since_le
      rw [Bus.passed, Bus.passed]
      dsimp only
      rw [List.drop_append_of_le_length (by omega), List.take_append_of_le_length]
      rw [List.length_drop]
      omega
    rw [hsame]
    exact h.read
  · intro hmissed
    have hlt := h.missed hmissed
    simp only [List.length_append, List.length_singleton, Channel.capacity_send]
    omega

theorem Sound.put (h : Sound c token capacity s) (hk : Serves c token s k) :
    Sound c token capacity (s.put i k) := by
  refine ⟨h.holds, h.capacity, ?_⟩
  intro x hx
  rcases List.mem_or_eq_of_mem_set hx with hold | rfl
  · obtain ⟨hnamed, hshown, hfresh, hsince, hnext, hread, hcount, hmissed⟩ := h.serves x hold
    exact ⟨hnamed, hshown, hfresh, hsince, hnext, hread, hcount, hmissed⟩
  · obtain ⟨hnamed, hshown, hfresh, hsince, hnext, hread, hcount, hmissed⟩ := hk
    exact ⟨hnamed, hshown, hfresh, hsince, hnext, hread, hcount, hmissed⟩

theorem sound_next (hc : c.Sound) (h : Sound c token capacity s) (ht : s.next c token a = some t) :
    Sound c token capacity t := by
  cases a with
  | emit ev =>
    cases ht
    exact ⟨h.holds.send, Channel.capacity_send.trans h.capacity,
      fun k hk => serves_emit (h.serves k hk)⟩
  | connect path =>
    cases ht
    refine ⟨h.holds, h.capacity, ?_⟩
    intro k hk
    rcases List.mem_append.mp hk with hold | hnew
    · obtain ⟨hnamed, hshown, hfresh, hsince, hnext, hread, hcount, hmissed⟩ := h.serves k hold
      exact ⟨hnamed, hshown, hfresh, hsince, hnext, hread, hcount, hmissed⟩
    · rw [List.mem_singleton.mp hnew]
      exact serves_connect path
  | incoming i m =>
    obtain ⟨k', hk', rfl⟩ := Option.map_eq_some_iff.mp ht
    obtain ⟨k, hk, hincoming⟩ := Option.bind_eq_some_iff.mp hk'
    exact h.put (serves_incoming hc (h.serves k (List.mem_of_getElem? hk)) hincoming)
  | subscribe i =>
    simp only [Bus.next] at ht
    split at ht
    · next k hk =>
      split at ht
      · next hphase =>
        cases ht
        exact h.put (serves_subscribe (h.serves k (List.mem_of_getElem? hk)) hphase)
      · cases ht
    · cases ht
  | forward i nonce ok =>
    simp only [Bus.next] at ht
    split at ht
    · next k hk =>
      split at ht
      · next hphase =>
        obtain ⟨k', hk', rfl⟩ := Option.map_eq_some_iff.mp ht
        exact h.put (serves_forward hc h.holds (h.serves k (List.mem_of_getElem? hk)) hphase hk')
      · cases ht
    · cases ht

theorem sound_reachable (hc : c.Sound) (h : Reachable (bus c token capacity) s) :
    Sound c token capacity s := by
  refine Reachable.invariant ?_ (fun s a t hs ht => sound_next hc hs ht) h
  rintro s rfl
  exact ⟨Channel.holds_new, rfl, by simp⟩

/-- Only who shows a text sealed under the token's key is sent anything, and reads the events since
the subscription in their order; the others of these are just those that the lag notices count, and
there are none while no more was emitted than the channel holds. -/
theorem events_reach_clients (hc : c.Sound) (h : Reachable (bus c token capacity) s)
    (hk : k ∈ s.sockets) :
    (k.sent ≠ [] ∨ k.phase = .streaming →
      k.cid ≠ "" ∧ ∃ frame, k.shown = some frame ∧ Sealed c token frame) ∧
    (k.read c token).Sublist ((s.passed k).map fun ev => some ev.plain) ∧
    (s.log.length ≤ k.since + capacity.nextPowerOfTwo → k.missed = 0) ∧
    (k.phase = .streaming → k.sent.length + k.missed = (s.passed k).length ∧
      (k.missed = 0 → k.read c token = (s.passed k).map fun ev => some ev.plain)) := by
  have hs := sound_reachable hc h
  have hserves := hs.serves k hk
  have hlen : (s.passed k).length = k.next - k.since := by
    have hnext := hserves.next_le
    rw [Bus.passed, List.length_take, List.length_drop]
    omega
  refine ⟨?_, hserves.read, ?_, ?_⟩
  · rintro (hsent | hstreaming)
    · exact hserves.shown (.inr (.inr hsent))
    · exact hserves.shown (.inr (.inl hstreaming))
  · intro hfew
    by_contra hmissed
    have hmany := hserves.missed hmissed
    rw [hs.capacity] at hmany
    omega
  · intro hstreaming
    have hcount := hserves.count hstreaming
    refine ⟨by rw [hlen, hcount], ?_⟩
    intro hmissed
    refine hserves.read.eq_of_length ?_
    rw [Socket.read, List.length_map, List.length_map, hlen]
    omega

/-- One event before the client is let in, and three after it, on a bus of two. -/
def demoRun : List Action :=
  [.emit ⟨15, "a"⟩, .connect "/?cid=web", .incoming 0 .other,
    .incoming 0 (.binary (List.replicate 24 7 ++ checksumAead.encrypt (List.replicate 32 1)
      (List.replicate 24 7) [])), .subscribe 0, .emit ⟨16, "b"⟩, .emit ⟨16, "c"⟩, .emit ⟨16, "d"⟩,
    .forward 0 ⟨List.replicate 24 9, rfl⟩ true, .forward 0 ⟨List.replicate 24 9, rfl⟩ true]

theorem demo_forwards : (((bus checksumAead "AQEBAQEBAQEBAQEBAQEBAQEBAQEBAQEBAQEBAQEBAQE=" 2).run
    (fun _ _ => True) ⟨.new 2, [], []⟩ demoRun).any fun s =>
      s.sockets.any fun k => (k.phase = .streaming) && (k.sent.length = 1 && k.missed = 1)) = true := by
  decide +kernel

theorem events_reach_clients_lagging : ∃ (s : Bus) (k : Socket), k ∈ s.sockets ∧ k.missed = 1 ∧
    (k.sent.length + k.missed = (s.passed k).length) := by
  obtain ⟨s, hs, hdemo⟩ := ReachableUnder.of_run rfl demo_forwards
  obtain ⟨k, hk, hdemo⟩ := List.any_eq_true.mp hdemo
  obtain ⟨hphase, hdemo⟩ := Bool.and_eq_true_iff.mp hdemo
  have hmissed := of_decide_eq_true (Bool.and_eq_true_iff.mp hdemo).2
  exact ⟨s, k, hk, hmissed, ((events_reach_clients checksumAead_sound hs hk).2.2.2
    (of_decide_eq_true hphase)).1⟩

end PlainRs.LocalApi.EventSockets
