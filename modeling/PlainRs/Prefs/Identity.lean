import PlainRs.Prefs.DeviceName
import PlainRs.Prefs.Restarts

/-! `prefs/identity.rs`: what is read from the preferences, or drawn and kept in them. -/
namespace PlainRs.Prefs

open Runs Utils

/-- `serde_json`: the value of a string, and the string that a value is. -/
structure Strings (Value : Type) where
  ofString : String → Value
  asString : Value → Option String
  asString_ofString : ∀ s, asString (ofString s) = some s

/-- A map is turned into a text, which is read back. -/
def Faithful {Value : Type} (codec : PrefsCodec Value) (keys : Finset String) : Prop :=
  ∀ m, Within keys m →
    ∃ text, codec.toStringPretty m = some text ∧ codec.fromStr text = some m

structure AppIdentity where
  clientId : String
  deviceName : String
  ed25519Keypair : String

/-- What is drawn on a first run: a UUID for each id, and the bytes of the key pair. -/
structure IdentityDraws where
  clientId : UInt64
  hostname : String
  deviceName : UInt64
  keypair : Vector UInt8 64

structure IdentityFaults where
  clientId : Option SaveFault
  deviceName : Option SaveFault
  keypair : Option SaveFault

def zeroToken : String := base64Encode (List.replicate 32 0)

section

variable {Value : Type} [DecidableEq Value] (codec : PrefsCodec Value) (strings : Strings Value)

/-- `prefs.get::<String>(key).unwrap_or(None)`. -/
def getString (key : String) (p : Prefs Value) : Option String :=
  (p.inner key).bind strings.asString

/-- The error of a set that fails is dropped. -/
def ensureString (key draw : String) (fault : Option SaveFault) (p : Prefs Value) :
    String × Prefs Value :=
  match (getString strings key p).filter (· ≠ "") with
  | some v => (v, p)
  | none => (draw, (set codec key (some (strings.ofString draw)) fault p).2)

/-- The name as it is shown. A stored one of which nothing is left is looked up again, as it is. -/
def ensureDeviceName (draw : String) (fault : Option SaveFault) (p : Prefs Value) :
    String × Prefs Value :=
  match getString strings "device_name" p with
  | some v =>
    if trimName v = "" then ensureString codec strings "device_name" draw fault p
    else (trimName v, p)
  | none => ensureString codec strings "device_name" draw fault p

def ensureIdentity (draws : IdentityDraws) (faults : IdentityFaults) (p : Prefs Value) :
    AppIdentity × Prefs Value :=
  let (clientId, p) :=
    ensureString codec strings "client_id" (shortUuid draws.clientId) faults.clientId p
  let (deviceName, p) := ensureDeviceName codec strings
    (defaultDeviceName draws.hostname draws.deviceName) faults.deviceName p
  let (ed25519Keypair, p) := ensureString codec strings "signature_key_pair"
    (base64Encode draws.keypair.toList) faults.keypair p
  (⟨clientId, deviceName, ed25519Keypair⟩, p)

/-- The token of 32 zero bytes counts as absent. -/
def ensureUrlToken (bytes : Vector UInt8 32) (fault : Option SaveFault) (p : Prefs Value) :
    String × Prefs Value :=
  match (getString strings "url_token" p).filter fun t => t ≠ "" ∧ t ≠ zeroToken with
  | some t => (t, p)
  | none =>
    let token := base64Encode bytes.toList
    (token, (set codec "url_token" (some (strings.ofString token)) fault p).2)

def ensureMdnsHostname (draws : Fin 22 × Fin 22) (fault : Option SaveFault) (p : Prefs Value) :
    String × Prefs Value :=
  ensureString codec strings "mdns_hostname" (randomMdnsHostnameLabel draws ++ ".local") fault p

/-- What a host does with its preferences. -/
inductive Work (Value : Type)
  | call (c : Call Value)
  | ensureIdentity (draws : IdentityDraws) (faults : IdentityFaults)
  | ensureUrlToken (bytes : Vector UInt8 32) (fault : Option SaveFault)
  | ensureMdnsHostname (draws : Fin 22 × Fin 22) (fault : Option SaveFault)

/-- What is returned, each text with the key that it is kept under, and the store afterwards. -/
def Work.exec (p : Prefs Value) : Work Value → List (String × String) × Prefs Value
  | .call c => ([], (Prefs.exec codec p c).2)
  | .ensureIdentity draws faults =>
    let (id, q) := Prefs.ensureIdentity codec strings draws faults p
    ([("client_id", id.clientId), ("device_name", id.deviceName),
      ("signature_key_pair", id.ed25519Keypair)], q)
  | .ensureUrlToken bytes fault =>
    let (token, q) := Prefs.ensureUrlToken codec strings bytes fault p
    ([("url_token", token)], q)
  | .ensureMdnsHostname draws fault =>
    let (name, q) := Prefs.ensureMdnsHostname codec strings draws fault p
    ([("mdns_hostname", name)], q)

/-- A host: the map in the memory of its process, if one runs, its files, and everything that was
returned so far. -/
structure Host (Value : Type) where
  inner : Option (String → Option Value)
  disk : Disk
  answers : List (String × String)

inductive Event (Value : Type)
  | load
  | work (w : Work Value)
  /-- A kill between two steps. -/
  | kill
  /-- A kill in the midst of work: what its faults tell has not come to the file. -/
  | cut (w : Work Value)

def Host.next (s : Host Value) : Event Value → Option (Host Value)
  | .load =>
    if s.inner.isSome then none else some { s with inner := (load codec s.disk.file).toOption }
  | .work w => s.inner.map fun m =>
    let (log, q) := w.exec codec strings ⟨m, s.disk.file, s.disk.tmp⟩
    ⟨some q.inner, ⟨q.file, q.tmp⟩, s.answers ++ log⟩
  | .kill => some { s with inner := none }
  | .cut w => s.inner.map fun m =>
    let (_, q) := w.exec codec strings ⟨m, s.disk.file, s.disk.tmp⟩
    ⟨none, ⟨q.file, q.tmp⟩, s.answers⟩

/-- Hosts from before their first start, with a file that can be read or none. -/
def hosts (keys : Finset String) : System (Host Value) (Event Value) where
  init s := s.inner = none ∧ s.answers = [] ∧ ∃ m, load codec s.disk.file = .ok m ∧ Within keys m
  next := Host.next codec strings

end

/-- A key to be read or drawn: what is drawn, and the file operation that fails. -/
structure Ensure where
  key : String
  draw : String
  fault : Option SaveFault

def Work.ensures {Value : Type} : Work Value → List Ensure
  | .call _ => []
  | .ensureIdentity draws faults =>
    [⟨"client_id", shortUuid draws.clientId, faults.clientId⟩,
      ⟨"device_name", defaultDeviceName draws.hostname draws.deviceName, faults.deviceName⟩,
      ⟨"signature_key_pair", base64Encode draws.keypair.toList, faults.keypair⟩]
  | .ensureUrlToken bytes fault => [⟨"url_token", base64Encode bytes.toList, fault⟩]
  | .ensureMdnsHostname draws fault =>
    [⟨"mdns_hostname", randomMdnsHostnameLabel draws ++ ".local", fault⟩]

def Work.calls {Value : Type} : Work Value → List (Call Value)
  | .call c => [c]
  | _ => []

def faultOf {Value : Type} : Call Value → Option SaveFault
  | .set _ _ fault => fault
  | .remove _ fault => fault
  | .clear fault => fault

/-- The call is about other keys. -/
def Spares {Value : Type} (key : String) : Call Value → Prop
  | .set other _ _ => other ≠ key
  | .remove other _ => other ≠ key
  | .clear _ => False

/-- Work on these keys, in which the host does not write `key` on its own. -/
def Work.Leaves {Value : Type} (keys : Finset String) (key : String) (w : Work Value) : Prop :=
  (∀ e ∈ w.ensures, e.key ∈ keys) ∧ ∀ c ∈ w.calls, KeyIn keys c ∧ Spares key c

/-- No save fails. -/
def Work.Saved {Value : Type} (w : Work Value) : Prop :=
  (∀ e ∈ w.ensures, e.fault = none) ∧ ∀ c ∈ w.calls, faultOf c = none

/-- What is drawn for `key` will do: a name comes from a plain host, and the bytes of a token are
not all zero. -/
def Work.Draws {Value : Type} (key : String) : Work Value → Prop
  | .ensureIdentity draws _ => key = "device_name" → PlainHost draws.hostname
  | .ensureUrlToken bytes _ => key = "url_token" → bytes.toList ≠ List.replicate 32 0
  | _ => True

/-- Nobody else writes `key`, and what is done to the end is saved. -/
def Undisturbed {Value : Type} (keys : Finset String) (key : String) (_ : Host Value) :
    Event Value → Prop
  | .work w => w.Leaves keys key ∧ w.Saved ∧ w.Draws key
  | .cut w => w.Leaves keys key
  | _ => True

/-- What is returned for a stored string, if it is not to be drawn again. -/
def reading (key v : String) : Option String :=
  if v = "" then none
  else if key = "device_name" then some (if trimName v = "" then v else trimName v)
  else if key = "url_token" ∧ v = zeroToken then none
  else some v

section

variable {Value : Type} (strings : Strings Value)

/-- What is returned for the value that the map has, if it is not to be drawn again. -/
def answer (key : String) (m : String → Option Value) : Option String :=
  ((m key).bind strings.asString).bind (reading key)

/-- A map on these keys that gives what was `shown` for `key`. -/
def Shows (keys : Finset String) (key : String) (shown : Option String)
    (m : String → Option Value) : Prop :=
  Within keys m ∧ ∀ v ∈ shown, answer strings key m = some v

/-- Memory and file both give what was shown, whether or not they agree. -/
structure Held (codec : PrefsCodec Value) (keys : Finset String) (key : String)
    (shown : Option String) (p : Prefs Value) : Prop where
  inner : Shows strings keys key shown p.inner
  file : ∃ m, load codec p.file = .ok m ∧ Shows strings keys key shown m

/-- Read, or else drawn and set. -/
def Ensures [DecidableEq Value] (codec : PrefsCodec Value) (e : Ensure) (p : Prefs Value)
    (out : String × Prefs Value) : Prop :=
  answer strings e.key p.inner = some out.1 ∧ out.2 = p ∨
    answer strings e.key p.inner = none ∧ out.1 = e.draw ∧
      out.2 = (set codec e.key (some (strings.ofString e.draw)) e.fault p).2

/-- Keys ensured one after the other, with what is returned for each. -/
inductive Chain [DecidableEq Value] (codec : PrefsCodec Value) :
    Prefs Value → List Ensure → List (String × String) → Prefs Value → Prop
  | nil {p : Prefs Value} : Chain codec p [] [] p
  | cons {p q r : Prefs Value} {e : Ensure} {es : List Ensure} {a : String}
      {log : List (String × String)} (he : Ensures strings codec e p (a, q))
      (hr : Chain codec q es log r) : Chain codec p (e :: es) ((e.key, a) :: log) r

end

/-- The file holds the map in memory. -/
def Agreed {Value : Type} (codec : PrefsCodec Value) (keys : Finset String) (p : Prefs Value) :
    Prop :=
  Within keys p.inner ∧ load codec p.file = .ok p.inner

variable {Value : Type} [DecidableEq Value] {codec : PrefsCodec Value} {strings : Strings Value}
  {keys : Finset String} {key draw v : String} {fault : Option SaveFault}
  {m : String → Option Value} {p q : Prefs Value} {c : Call Value} {e : Ensure} {es : List Ensure}
  {a b : String} {log : List (String × String)} {shown : Option String} {w : Work Value}
  {s t : Host Value} {event : Event Value}

theorem readsBack_of_faithful {Value : Type} {codec : PrefsCodec Value} (h : Faithful codec keys) :
    ReadsBack codec keys := by
  intro m text hm ht
  obtain ⟨text', ht', hback⟩ := h m hm
  rw [ht] at ht'
  cases ht'
  exact hback

/-! What is drawn will do. -/

theorem reading_of_ne (hname : key ≠ "device_name") (htoken : key ≠ "url_token") (hv : v ≠ "") :
    reading key v = some v := by
  rw [reading, if_neg hv, if_neg hname, if_neg fun h => htoken h.1]

omit [DecidableEq Value] in
theorem reading_draw (hw : w.Draws key) (he : e ∈ w.ensures) (hkey : e.key = key) :
    reading e.key e.draw = some e.draw := by
  cases w with
  | call c => cases he
  | ensureIdentity draws faults =>
    simp only [Work.ensures, List.mem_cons, List.not_mem_nil, or_false] at he
    rcases he with rfl | rfl | rfl
    · exact reading_of_ne (by simp) (by simp) (shortUuid_ne_empty _)
    · rw [reading, if_neg (defaultDeviceName_ne_empty _ _), if_pos rfl,
        trimName_defaultDeviceName (hw hkey.symm), if_neg (defaultDeviceName_ne_empty _ _)]
    · refine reading_of_ne (by simp) (by simp) ?_
      rw [Ne, base64Encode_eq_empty]
      intro hnil
      simp [Vector.toList] at hnil
  | ensureUrlToken bytes fault =>
    rw [Work.ensures, List.mem_singleton] at he
    subst he
    have hne : base64Encode bytes.toList ≠ "" := by
      rw [Ne, base64Encode_eq_empty]
      intro hnil
      simp [Vector.toList] at hnil
    have hzero : base64Encode bytes.toList ≠ zeroToken := fun h =>
      hw hkey.symm (base64Encode_injective h)
    rw [reading, if_neg hne, if_neg (by simp), if_neg fun h => hzero h.2]
  | ensureMdnsHostname draws fault =>
    rw [Work.ensures, List.mem_singleton] at he
    subst he
    refine reading_of_ne (by simp) (by simp) ?_
    intro h
    have hlen := congrArg String.length h
    simp at hlen

/-! Each function reads its key, or draws for it. -/

theorem ensureString_ensures (hname : key ≠ "device_name") (htoken : key ≠ "url_token") :
    Ensures strings codec ⟨key, draw, fault⟩ p (ensureString codec strings key draw fault p) := by
  rw [ensureString, getString, Ensures, answer]
  cases hs : (p.inner key).bind strings.asString with
  | none => exact .inr ⟨rfl, rfl, rfl⟩
  | some v =>
    by_cases hv : v = ""
    · subst hv
      exact .inr ⟨rfl, rfl, rfl⟩
    · rw [Option.filter_some_pos (by simpa using hv)]
      exact .inl ⟨reading_of_ne hname htoken hv, rfl⟩

theorem ensureDeviceName_ensures : Ensures strings codec ⟨"device_name", draw, fault⟩ p
    (ensureDeviceName codec strings draw fault p) := by
  rw [ensureDeviceName, ensureString, getString, Ensures, answer]
  cases hs : (p.inner "device_name").bind strings.asString with
  | none => exact .inr ⟨rfl, rfl, rfl⟩
  | some v =>
    by_cases hv : v = ""
    · subst hv
      exact .inr ⟨rfl, rfl, rfl⟩
    · have hread : reading "device_name" v = some (if trimName v = "" then v else trimName v) := by
        rw [reading, if_neg hv, if_pos rfl]
      left
      simp only [Option.bind_some, hread]
      by_cases htrim : trimName v = ""
      · rw [if_pos htrim, if_pos htrim, Option.filter_some_pos (by simpa using hv)]
        exact ⟨rfl, rfl⟩
      · rw [if_neg htrim, if_neg htrim]
        exact ⟨rfl, rfl⟩

theorem ensureUrlToken_ensures {bytes : Vector UInt8 32} :
    Ensures strings codec ⟨"url_token", base64Encode bytes.toList, fault⟩ p
      (ensureUrlToken codec strings bytes fault p) := by
  rw [ensureUrlToken, getString, Ensures, answer]
  cases hs : (p.inner "url_token").bind strings.asString with
  | none => exact .inr ⟨rfl, rfl, rfl⟩
  | some t =>
    by_cases ht : t ≠ "" ∧ t ≠ zeroToken
    · rw [Option.filter_some_pos (by simpa using ht)]
      refine .inl ⟨?_, rfl⟩
      rw [Option.bind_some, reading, if_neg ht.1, if_neg (by simp), if_neg fun h => ht.2 h.2]
    · rw [Option.filter_some_neg (by simpa using ht)]
      refine .inr ⟨?_, rfl, rfl⟩
      rw [Option.bind_some, reading]
      by_cases hempty : t = ""
      · rw [if_pos hempty]
      · have hzero : t = zeroToken := by
          by_contra hne
          exact ht ⟨hempty, hne⟩
        rw [if_neg hempty, if_neg (by simp), if_pos ⟨rfl, hzero⟩]

/-- Work that is no call of the host is a chain of keys ensured. -/
theorem exec_chain (hw : w.calls = []) :
    Chain strings codec p w.ensures (w.exec codec strings p).1 (w.exec codec strings p).2 := by
  cases w with
  | call c => cases hw
  | ensureIdentity draws faults =>
    exact .cons (ensureString_ensures (by decide) (by decide))
      (.cons ensureDeviceName_ensures (.cons (ensureString_ensures (by decide) (by decide)) .nil))
  | ensureUrlToken bytes fault => exact .cons ensureUrlToken_ensures .nil
  | ensureMdnsHostname draws fault =>
    exact .cons (ensureString_ensures (by decide) (by decide)) .nil

/-! What was shown is kept, whichever saves fail. -/

omit [DecidableEq Value] in
theorem shows_update {other : String} {value : Option Value}
    (h : Shows strings keys key shown m) (hother : other ∈ keys)
    (hfree : other = key → ∀ v ∈ shown, False) :
    Shows strings keys key shown (Function.update m other value) := by
  refine ⟨within_update h.1 hother, ?_⟩
  intro v hv
  have hne : key ≠ other := by
    rintro rfl
    exact hfree rfl v hv
  rw [answer, Function.update_of_ne hne]
  exact h.2 v hv

theorem Held.exec (h : Held strings codec keys key shown p) (hcodec : Faithful codec keys)
    (hc : Shows strings keys key shown (effect p.inner c)) :
    Held strings codec keys key shown (Prefs.exec codec p c).2 := by
  generalize he : Prefs.exec codec p c = out
  obtain ⟨r, q⟩ := out
  obtain ⟨hq, hcases⟩ := exec_effect (readsBack_of_faithful hcodec) hc.1 he
  have hinner : Shows strings keys key shown q.inner := by
    rw [hq]
    exact hc
  rcases hcases with ⟨-, hf⟩ | ⟨-, hf, -⟩
  · exact ⟨hinner, q.inner, hf, hinner⟩
  · refine ⟨hinner, ?_⟩
    rw [hf]
    exact h.file

theorem Held.ensure (h : Held strings codec keys key shown p) (hcodec : Faithful codec keys)
    (hkey : e.key ∈ keys) (he : Ensures strings codec e p (a, q)) :
    Held strings codec keys key shown q := by
  rcases he with ⟨-, rfl⟩ | ⟨hnone, -, rfl⟩
  · exact h
  · refine Held.exec (c := .set e.key (some (strings.ofString e.draw)) e.fault) h hcodec ?_
    refine shows_update h.inner hkey ?_
    rintro rfl v hv
    rw [h.inner.2 v hv] at hnone
    cases hnone

theorem Held.chain (h : Held strings codec keys key shown p) (hcodec : Faithful codec keys)
    (hkeys : ∀ e ∈ es, e.key ∈ keys) (hc : Chain strings codec p es log q) :
    Held strings codec keys key shown q := by
  induction hc with
  | nil => exact h
  | cons he _ ih =>
    refine ih (h.ensure hcodec (hkeys _ List.mem_cons_self) he) ?_
    intro e' he'
    exact hkeys e' (List.mem_cons_of_mem _ he')

theorem Held.work (h : Held strings codec keys key shown p) (hcodec : Faithful codec keys)
    (hw : w.Leaves keys key) : Held strings codec keys key shown (w.exec codec strings p).2 := by
  by_cases hcall : w.calls = []
  · exact h.chain hcodec hw.1 (exec_chain hcall)
  · cases w with
    | call c =>
      refine h.exec hcodec ?_
      obtain ⟨hin, hleaves⟩ := hw.2 c (List.mem_singleton_self c)
      cases c with
      | set other value fault =>
        cases value with
        | none => exact h.inner
        | some new => exact shows_update h.inner hin fun heq => absurd heq hleaves
      | remove other fault => exact shows_update h.inner hin fun heq => absurd heq hleaves
      | clear fault => exact hleaves.elim
    | _ => exact absurd rfl hcall

/-! What is done to the end and saved is in the file. -/

theorem exec_saved (hin : KeyIn keys c) (hc : faultOf c = none) (h : Within keys p.inner)
    (hload : load codec p.file = .ok p.inner) (hcodec : Faithful codec keys) :
    load codec (Prefs.exec codec p c).2.file = .ok (Prefs.exec codec p c).2.inner := by
  rcases @exec_cases _ codec p c _ with ⟨m, fault, hs, he⟩ | ⟨-, he⟩
  · have hm : m = effect p.inner c := saved_effect.1 _ hs
    have hfault : fault = none := by
      cases c with
      | set other value fault' =>
        cases value with
        | none => cases hs
        | some new =>
          simp only [saved, Option.bind_some] at hs
          split at hs
          · cases hs
          · cases hs
            exact hc
      | remove other fault' =>
        obtain ⟨_, -, hsome⟩ := Option.map_eq_some_iff.mp hs
        cases hsome
        exact hc
      | clear fault' =>
        cases hs
        exact hc
    have hwithin : Within keys m := by
      rw [hm]
      exact within_effect h hin
    obtain ⟨text, ht, hback⟩ := hcodec m hwithin
    subst hfault
    rw [he, save, if_neg (by simp)]
    simp only [ht]
    rw [load_some]
    exact hback
  · rw [he]
    exact hload

theorem Agreed.exec (h : Agreed codec keys p) (hcodec : Faithful codec keys) (hin : KeyIn keys c)
    (hc : faultOf c = none) : Agreed codec keys (Prefs.exec codec p c).2 := by
  refine ⟨?_, exec_saved hin hc h.1 h.2 hcodec⟩
  generalize he : Prefs.exec codec p c = out
  obtain ⟨r, q⟩ := out
  have hwithin := within_effect h.1 hin
  rw [(exec_effect (readsBack_of_faithful hcodec) hwithin he).1]
  exact hwithin

omit [DecidableEq Value] in
theorem Agreed.held (h : Agreed codec keys p)
    (hshown : ∀ v ∈ shown, answer strings key p.inner = some v) :
    Held strings codec keys key shown p :=
  ⟨⟨h.1, hshown⟩, p.inner, h.2, h.1, hshown⟩

/-- What one key gives is returned again, once it was saved. -/
theorem Agreed.ensure (h : Agreed codec keys p) (hcodec : Faithful codec keys)
    (hkey : e.key ∈ keys) (hfault : e.fault = none) (he : Ensures strings codec e p (a, q)) :
    Agreed codec keys q ∧
      (reading e.key e.draw = some e.draw → answer strings e.key q.inner = some a) := by
  rcases he with ⟨hsome, rfl⟩ | ⟨-, rfl, rfl⟩
  · exact ⟨h, fun _ => hsome⟩
  · have hin : KeyIn keys (.set e.key (some (strings.ofString e.draw)) e.fault) := hkey
    have hq := h.exec hcodec hin hfault
    refine ⟨hq, ?_⟩
    intro hread
    generalize hx : Prefs.exec codec p (.set e.key (some (strings.ofString e.draw)) e.fault) = out
    obtain ⟨r, q⟩ := out
    have hinner := (exec_effect (readsBack_of_faithful hcodec) (within_effect h.1 hin) hx).1
    change answer strings e.key
      (Prefs.exec codec p (.set e.key (some (strings.ofString e.draw)) e.fault)).2.inner = _
    rw [hx, hinner, answer, effect, Option.elim_some, Function.update_self, Option.bind_some,
      strings.asString_ofString, Option.bind_some, hread]

theorem Agreed.chain (h : Agreed codec keys p) (hcodec : Faithful codec keys)
    (hkeys : ∀ e ∈ es, e.key ∈ keys) (hfaults : ∀ e ∈ es, e.fault = none)
    (hdraws : ∀ e ∈ es, e.key = key → reading e.key e.draw = some e.draw)
    (hc : Chain strings codec p es log q) :
    Agreed codec keys q ∧ ∀ a, (key, a) ∈ log → answer strings key q.inner = some a := by
  induction hc with
  | nil => exact ⟨h, by simp⟩
  | @cons p q r e es a log he hr ih =>
    obtain ⟨hq, hsame⟩ := h.ensure hcodec (hkeys e List.mem_cons_self)
      (hfaults e List.mem_cons_self) he
    obtain ⟨hlast, hrest⟩ := ih hq (fun e he => hkeys e (List.mem_cons_of_mem _ he))
      (fun e he => hfaults e (List.mem_cons_of_mem _ he))
      (fun e he => hdraws e (List.mem_cons_of_mem _ he))
    refine ⟨hlast, ?_⟩
    intro b hb
    rcases List.mem_cons.mp hb with heq | hb
    · cases heq
      -- the keys after it leave what this one gave
      have hshown := hsame (hdraws e List.mem_cons_self rfl)
      have hheld : Held strings codec keys e.key (some a) q := by
        refine hq.held ?_
        rintro v ⟨⟩
        exact hshown
      exact (hheld.chain hcodec (fun e he => hkeys e (List.mem_cons_of_mem _ he)) hr).inner.2 a rfl
    · exact hrest b hb

theorem Agreed.work (h : Agreed codec keys p) (hcodec : Faithful codec keys)
    (hleaves : w.Leaves keys key) (hsaved : w.Saved) (hdraws : w.Draws key) :
    Agreed codec keys (w.exec codec strings p).2 ∧ ∀ a, (key, a) ∈ (w.exec codec strings p).1 →
      answer strings key (w.exec codec strings p).2.inner = some a := by
  by_cases hcall : w.calls = []
  · exact h.chain hcodec hleaves.1 hsaved.1 (fun e he hkey => reading_draw hdraws he hkey)
      (exec_chain hcall)
  · cases w with
    | call c =>
      have hc := List.mem_singleton_self c
      exact ⟨h.exec hcodec (hleaves.2 c hc).1 (hsaved.2 c hc), by simp [Work.exec]⟩
    | _ => exact absurd rfl hcall

/-- The file gives everything that was returned for `key`, and the memory is as the file. -/
def Settled (strings : Strings Value) (codec : PrefsCodec Value) (keys : Finset String)
    (key : String) (s : Host Value) : Prop :=
  ∃ m, load codec s.disk.file = .ok m ∧ Within keys m ∧ (∀ inner ∈ s.inner, inner = m) ∧
    ∀ v, (key, v) ∈ s.answers → answer strings key m = some v

theorem settled_next (hcodec : Faithful codec keys) (h : Settled strings codec keys key s)
    (hg : Undisturbed keys key s event) (ht : s.next codec strings event = some t) :
    Settled strings codec keys key t := by
  obtain ⟨m, hload, hwithin, hinner, hanswers⟩ := h
  cases event with
  | load =>
    simp only [Host.next] at ht
    split at ht
    · cases ht
    · cases ht
      refine ⟨m, hload, hwithin, ?_, hanswers⟩
      intro inner hin
      rw [hload] at hin
      cases hin
      rfl
  | kill =>
    cases ht
    exact ⟨m, hload, hwithin, by simp, hanswers⟩
  | work w =>
    obtain ⟨m', hm', rfl⟩ := Option.map_eq_some_iff.mp ht
    obtain rfl := hinner m' hm'
    have hagreed : Agreed codec keys ⟨m', s.disk.file, s.disk.tmp⟩ := ⟨hwithin, hload⟩
    obtain ⟨hq, hlog⟩ := hagreed.work hcodec hg.1 hg.2.1 hg.2.2
    refine ⟨_, hq.2, hq.1, ?_, ?_⟩
    · rintro inner ⟨⟩
      rfl
    · intro v hv
      rcases List.mem_append.mp hv with hv | hv
      · have hheld : Held strings codec keys key (some v) ⟨m', s.disk.file, s.disk.tmp⟩ := by
          refine hagreed.held ?_
          rintro v' ⟨⟩
          exact hanswers v hv
        exact (hheld.work hcodec hg.1).inner.2 v rfl
      · exact hlog v hv
  | cut w =>
    obtain ⟨m', hm', rfl⟩ := Option.map_eq_some_iff.mp ht
    obtain rfl := hinner m' hm'
    have hagreed : Agreed codec keys ⟨m', s.disk.file, s.disk.tmp⟩ := ⟨hwithin, hload⟩
    have hheld : Held strings codec keys key (answer strings key m')
        ⟨m', s.disk.file, s.disk.tmp⟩ := hagreed.held fun v hv => hv
    obtain ⟨m'', hfile, hshows⟩ := (hheld.work hcodec hg).file
    refine ⟨m'', hfile, hshows.1, by simp, ?_⟩
    intro v hv
    exact hshows.2 v (hanswers v hv)

/-- Whatever is returned for a key is returned for it ever after, in all later processes and wherever
one is killed, if nobody else writes the key and no save of work that is done fails. -/
theorem identity_survives (hcodec : Faithful codec keys)
    (h : ReachableUnder (hosts codec strings keys) (Undisturbed keys key) s)
    (ha : (key, a) ∈ s.answers) (hb : (key, b) ∈ s.answers) : a = b := by
  have hsettled : Settled strings codec keys key s := by
    refine h.invariant ?_ ?_
    · rintro s ⟨hinner, hanswers, m, hload, hwithin⟩
      exact ⟨m, hload, hwithin, by simp [hinner], by simp [hanswers]⟩
    · intro s event t hs hg ht
      exact settled_next hcodec hs hg ht
  obtain ⟨m, -, -, -, hanswers⟩ := hsettled
  exact Option.some.inj ((hanswers a ha).symm.trans (hanswers b hb))

/-! Maps of strings as texts, an entry for each key. -/

def writeEntry : Option String → List Char
  | none => ['-']
  | some v => v.toList.flatMap (fun c => ['+', c]) ++ ['.']

def readEntry : List Char → Option String × List Char
  | '+' :: c :: cs => ((readEntry cs).1.map fun v => String.ofList (c :: v.toList), (readEntry cs).2)
  | '.' :: cs => (some "", cs)
  | cs => (none, cs.tail)

def readEntries : List String → List Char → String → Option String
  | [], _ => fun _ => none
  | key :: keys, cs => Function.update (readEntries keys (readEntry cs).2) key (readEntry cs).1

def entriesCodec (keys : List String) : PrefsCodec String where
  toStringPretty m := some (String.ofList (keys.flatMap fun key => writeEntry (m key)))
  fromStr text := some (readEntries keys text.toList)

theorem readEntry_writeEntry (value : Option String) (rest : List Char) :
    readEntry (writeEntry value ++ rest) = (value, rest) := by
  cases value with
  | none => rfl
  | some v =>
    have hchars : ∀ cs : List Char, readEntry (cs.flatMap (fun c => ['+', c]) ++ ['.'] ++ rest) =
        (some (String.ofList cs), rest) := by
      intro cs
      induction cs with
      | nil => rfl
      | cons c cs ih =>
        simp only [List.flatMap_cons, List.cons_append, List.nil_append, readEntry]
        rw [ih, Option.map_some, String.toList_ofList]
    rw [writeEntry, hchars, String.ofList_toList]

theorem readEntries_flatMap (names : List String) (m : String → Option String) (name : String) :
    readEntries names (names.flatMap fun key => writeEntry (m key)) name =
      if name ∈ names then m name else none := by
  induction names with
  | nil => rfl
  | cons first names ih =>
    rw [List.flatMap_cons, readEntries, readEntry_writeEntry]
    by_cases h : name = first
    · subst h
      rw [Function.update_self, if_pos List.mem_cons_self]
    · rw [Function.update_of_ne h, ih]
      simp [h]

theorem entriesCodec_faithful (names : List String) :
    Faithful (entriesCodec names) names.toFinset := by
  intro m hm
  refine ⟨_, rfl, congrArg some (funext fun name => ?_)⟩
  rw [String.toList_ofList, readEntries_flatMap]
  split
  · rfl
  · next hname => exact (hm name (by simpa using hname)).symm

def demoStrings : Strings String := ⟨id, some, fun _ => rfl⟩

def demoNames : List String := ["mdns_hostname", "device_name"]

/-- A first run, a second one that is killed as it renames the device, and a third. -/
def demoEvents : List (Event String) :=
  [.load, .work (.ensureMdnsHostname (0, 1) none), .kill, .load,
    .cut (.call (.set "device_name" (some "attic") (some .rename))), .load,
    .work (.ensureMdnsHostname (2, 3) none)]

theorem reachable_foldlM {events : List (Event Value)}
    (h : ReachableUnder (hosts codec strings keys) (Undisturbed keys key) s)
    (hg : ∀ event ∈ events, ∀ s, Undisturbed keys key s event)
    (ht : events.foldlM (Host.next codec strings) s = some t) :
    ReachableUnder (hosts codec strings keys) (Undisturbed keys key) t := by
  induction events generalizing s with
  | nil =>
    cases ht
    exact h
  | cons event events ih =>
    obtain ⟨u, hu, hrest⟩ := Option.bind_eq_some_iff.mp (List.foldlM_cons.symm.trans ht)
    refine ih (.step h (hg event List.mem_cons_self s) hu) ?_ hrest
    intro event' hevent'
    exact hg event' (List.mem_cons_of_mem _ hevent')

theorem identity_survives_restart : ∃ s, demoEvents.foldlM
      (Host.next (entriesCodec demoNames) demoStrings) ⟨none, ⟨none, none⟩, []⟩ = some s ∧
    s.answers.length = 2 ∧ s.answers[1]? = s.answers[0]? := by
  have hsome : (demoEvents.foldlM (Host.next (entriesCodec demoNames) demoStrings)
      ⟨none, ⟨none, none⟩, []⟩).any
      (fun s => s.answers.map Prod.fst = ["mdns_hostname", "mdns_hostname"]) = true := by
    decide
  cases hs : demoEvents.foldlM (Host.next (entriesCodec demoNames) demoStrings)
      ⟨none, ⟨none, none⟩, []⟩ with
  | none =>
    rw [hs] at hsome
    cases hsome
  | some s =>
    rw [hs, Option.any_some, decide_eq_true_eq] at hsome
    obtain ⟨⟨_, a⟩, rest, hanswers, rfl, hrest⟩ := List.map_eq_cons_iff.mp hsome
    obtain ⟨⟨_, b⟩, last, rfl, rfl, hlast⟩ := List.map_eq_cons_iff.mp hrest
    obtain rfl := List.map_eq_nil_iff.mp hlast
    have hreach : ReachableUnder (hosts (entriesCodec demoNames) demoStrings demoNames.toFinset)
        (Undisturbed demoNames.toFinset "mdns_hostname") s := by
      refine reachable_foldlM (.init ⟨rfl, rfl, _, rfl, fun _ _ => rfl⟩) ?_ hs
      simp [demoEvents, Undisturbed, Work.Leaves, Work.Saved, Work.Draws, Work.ensures, Work.calls,
        KeyIn, Spares, demoNames]
    have hsame : a = b := identity_survives (entriesCodec_faithful demoNames) hreach
      (by rw [hanswers]; exact List.mem_cons_self)
      (by rw [hanswers]; exact List.mem_cons_of_mem _ List.mem_cons_self)
    refine ⟨s, rfl, ?_, ?_⟩
    · rw [hanswers]
      rfl
    · rw [hanswers, hsame]
      rfl

/-- A save that fails loses what was returned. -/
example : (([.load, .work (.ensureMdnsHostname (0, 1) (some .rename)), .kill, .load,
      .work (.ensureMdnsHostname (2, 3) none)] : List (Event String)).foldlM
      (Host.next (entriesCodec demoNames) demoStrings) ⟨none, ⟨none, none⟩, []⟩).map
      (fun s => s.answers.map Prod.snd) = some ["ab.local", "cd.local"] := by
  decide

end PlainRs.Prefs
