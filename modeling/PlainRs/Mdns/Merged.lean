import PlainRs.Mdns.Entries

/-! What a packet's entries leave of each instance and of each hostname. -/
namespace PlainRs.Mdns

/-- The name an entry gives to the instance. -/
def Entry.nameFor (k : String) (e : Entry) : Option String :=
  e.names.bind fun named => if named.1 = k then some named.2 else none

/-- What an SRV entry says of the instance. -/
def Entry.srvOf (k : String) : Entry → Option (UInt16 × String)
  | .srv key _ port target => if key = k then some (port, target) else none
  | _ => none

/-- The instance an SRV entry maps the hostname to. -/
def Entry.mapsTo (inner : Inner) (host : String) : Entry → Option String
  | .srv key _ _ target =>
    if target ≠ "" ∧ inner.toLowercase target = host then some key else none
  | _ => none

/-- What an entry changes of the instance it is about. -/
def Instance.told (k : String) (i : Instance) : Entry → Instance
  | .srv key _ port target => if key = k then { i with port := port, targetHostname := target } else i
  | .txt key _ strings =>
    if key = k then strings.foldl txtField { i with txtRecords := strings } else i
  | _ => i

/-- The instance after the entries; one not known begins under the first name it is given. -/
def instanceAfter (k : String) (known : Option Instance) (es : List Entry) : Option Instance :=
  (known.or ((es.findSome? (·.nameFor k)).map (.new k))).map fun i => es.foldl (·.told k) i

/-- The instance of a hostname after the entries: the one its last SRV entry is for. -/
def hostAfter (inner : Inner) (hosts : String → Option String) (es : List Entry) (host : String) :
    Option String :=
  (es.reverse.findSome? (·.mapsTo inner host)).or (hosts host)

/-- The key and the value of a TXT entry. -/
def txtPair (entry : String) : Option (String × String) :=
  match Text.find entry '=' with
  | none => none
  | some eq =>
    if eq = 0 then none
    else
      match Text.sliceTo entry eq, Text.sliceFrom entry (eq + 1) with
      | some key, some value => some (key, value)
      | _, _ => none

def txtValue (key entry : String) : Option String :=
  (txtPair entry).bind fun pair => if pair.1 = key then some pair.2 else none

/-- The strings of a TXT entry about the instance. -/
def Entry.txtOf (k : String) : Entry → List String
  | .txt key _ strings => if key = k then strings else []
  | _ => []

/-- The last hostname of a list that is mapped to the instance. -/
def lastHost (hosts : String → Option String) (hs : List String) (k : String) : Option String :=
  hs.reverse.find? fun h => hosts h = some k

variable {inner : Inner} {m : Merge} {e : Entry} {es : List Entry} {k h ip name : String}
  {i : Instance} {state : BrowserState} {goodbye : Finset String} {now : Nat} {hs : List String}
  {known : Option Instance} {pick : Entry → Option (String × String)}
  {set : Instance → Finset String → Instance} {ips : String → Finset String}

theorem txtField_eq {entry : String} : txtField i entry = (txtPair entry).elim i fun pair =>
    if pair.1 = "id" then { i with id := pair.2 }
    else if pair.1 = "dv" then { i with deviceType := pair.2 }
    else if pair.1 = "ver" then { i with version := pair.2 }
    else if pair.1 = "pf" then { i with platform := pair.2 }
    else i := by
  unfold txtField txtEntry txtPair
  cases hfind : Text.find entry '=' with
  | none => rfl
  | some eq =>
    by_cases h0 : eq = 0
    · simp only [h0, if_true]
      rfl
    · obtain ⟨key, value, hkey, hvalue⟩ := Text.slices_of_find hfind (by decide)
      simp only [if_neg h0, hkey, hvalue]
      rfl

/-- The last entry with the key decides a field that only such entries set. -/
theorem txtFields_read {field : Instance → String} {key : String} {strings : List String}
    (hone : ∀ i entry, field (txtField i entry) = (txtValue key entry).getD (field i)) :
    field (strings.foldl txtField i) =
      (strings.reverse.findSome? (txtValue key)).getD (field i) := by
  induction strings generalizing i with
  | nil => rfl
  | cons entry strings ih =>
    rw [List.foldl_cons, ih, hone, List.reverse_cons, List.findSome?_append]
    cases strings.reverse.findSome? (txtValue key) with
    | some value => rfl
    | none => cases hv : txtValue key entry <;> simp [hv]

theorem txtField_fields (i : Instance) (entry : String) :
    (txtField i entry).id = (txtValue "id" entry).getD i.id ∧
      (txtField i entry).deviceType = (txtValue "dv" entry).getD i.deviceType ∧
      (txtField i entry).version = (txtValue "ver" entry).getD i.version ∧
      (txtField i entry).platform = (txtValue "pf" entry).getD i.platform := by
  simp only [txtField_eq, txtValue]
  cases txtPair entry with
  | none => exact ⟨rfl, rfl, rfl, rfl⟩
  | some pair =>
    simp only [Option.elim_some, Option.bind_some]
    split
    · next hid => simp [hid]
    · split
      · next hdv => simp [hdv]
      · split
        · next hver => simp [hver]
        · split <;> simp

/-- The rest of an instance is no concern of its TXT entries. -/
theorem txtField_rest (i : Instance) (entry : String) : { txtField i entry with
    id := i.id, deviceType := i.deviceType, version := i.version, platform := i.platform } = i := by
  rw [txtField_eq]
  cases txtPair entry with
  | none => rfl
  | some pair =>
    simp only [Option.elim_some]
    repeat' split
    all_goals rfl

theorem txtFields_rest {α : Type} {f : Instance → α} {strings : List String}
    (hrest : ∀ (i : Instance) (id dv ver pf : String), f { i with
      id := id, deviceType := dv, version := ver, platform := pf } = f i) :
    f (strings.foldl txtField i) = f i := by
  induction strings generalizing i with
  | nil => rfl
  | cons entry strings ih =>
    rw [List.foldl_cons, ih]
    exact (hrest (txtField i entry) i.id i.deviceType i.version i.platform).symm.trans
      (congrArg f (txtField_rest i entry))

theorem told_of_not_named (he : e.nameFor k = none) : i.told k e = i := by
  cases e with
  | srv key _ _ _ | txt key _ _ =>
    by_cases hk : key = k
    · simp [Entry.nameFor, Entry.names, hk] at he
    · simp [Instance.told, hk]
  | _ => rfl

theorem instances_apply : (m.apply inner e).state.instances k =
    match e.nameFor k with
    | some name => some (((m.state.instances k).getD (.new k name)).told k e)
    | none => m.state.instances k := by
  cases e with
  | ptr key name | srv key name _ _ | txt key name _ =>
    by_cases hk : key = k
    · subst hk
      simp [Merge.apply, Merge.setInstance, Entry.nameFor, Entry.names, Instance.told]
    · simp [Merge.apply, Merge.setInstance, Entry.nameFor, Entry.names, hk, Ne.symm hk]
  | _ => rfl

theorem instances_foldl : (es.foldl (Merge.apply inner) m).state.instances k =
    instanceAfter k (m.state.instances k) es := by
  induction es generalizing m with
  | nil => cases hk : m.state.instances k <;> simp [instanceAfter, hk]
  | cons e es ih =>
    rw [List.foldl_cons, ih, instances_apply]
    simp only [instanceAfter, List.findSome?_cons, List.foldl_cons]
    cases he : e.nameFor k with
    | none => simp only [told_of_not_named he]
    | some name => cases m.state.instances k <;> simp

/-- The last SRV entry of an instance decides its port and its target. -/
theorem srv_told : ((es.foldl (·.told k) i).port, (es.foldl (·.told k) i).targetHostname) =
    (es.reverse.findSome? (·.srvOf k)).getD (i.port, i.targetHostname) := by
  induction es generalizing i with
  | nil => rfl
  | cons e es ih =>
    rw [List.foldl_cons, ih, List.reverse_cons, List.findSome?_append]
    cases es.reverse.findSome? (·.srvOf k) with
    | some srv => rfl
    | none =>
      cases e with
      | srv key _ port target =>
        by_cases hk : key = k <;> simp [Instance.told, Entry.srvOf, hk]
      | txt key _ strings =>
        by_cases hk : key = k
        · have hport : (strings.foldl txtField { i with txtRecords := strings }).port = i.port :=
            txtFields_rest (f := (·.port)) fun _ _ _ _ _ => rfl
          have htarget : (strings.foldl txtField { i with txtRecords := strings }).targetHostname =
              i.targetHostname := txtFields_rest (f := (·.targetHostname)) fun _ _ _ _ _ => rfl
          simp [Instance.told, Entry.srvOf, hk, hport, htarget]
        · simp [Instance.told, Entry.srvOf, hk]
      | _ => simp [Instance.told, Entry.srvOf]

/-- The entries leave an instance its name and its addresses. -/
theorem told_rest {α : Type} {f : Instance → α}
    (hsrv : ∀ (i : Instance) port target, f { i with port := port, targetHostname := target } =
      f i)
    (htxt : ∀ (i : Instance) (strings : List String) (id dv ver pf : String), f { i with
      txtRecords := strings, id := id, deviceType := dv, version := ver, platform := pf } = f i) :
    f (es.foldl (·.told k) i) = f i := by
  induction es generalizing i with
  | nil => rfl
  | cons e es ih =>
    rw [List.foldl_cons, ih]
    cases e with
    | srv key _ port target =>
      by_cases hk : key = k <;> simp [Instance.told, hk, hsrv]
    | txt key _ strings =>
      by_cases hk : key = k
      · rw [Instance.told, if_pos hk]
        refine (txtFields_rest fun i id dv ver pf => htxt i i.txtRecords id dv ver pf).trans ?_
        exact htxt i strings i.id i.deviceType i.version i.platform
      · rw [Instance.told, if_neg hk]
    | _ => rfl

/-- The last of an instance's TXT strings with the key decides a field that only such strings set. -/
theorem told_read {field : Instance → String} {key : String}
    (hone : ∀ i entry, field (txtField i entry) = (txtValue key entry).getD (field i))
    (hrest : ∀ (i : Instance) port target strings, field { i with
      port := port, targetHostname := target, txtRecords := strings } = field i) :
    field (es.foldl (·.told k) i) =
      ((es.flatMap (·.txtOf k)).reverse.findSome? (txtValue key)).getD (field i) := by
  induction es generalizing i with
  | nil => rfl
  | cons e es ih =>
    have htold : field (i.told k e) =
        ((e.txtOf k).reverse.findSome? (txtValue key)).getD (field i) := by
      cases e with
      | srv key' _ port target =>
        by_cases hk : key' = k
        · simpa [Instance.told, Entry.txtOf, hk] using hrest i port target i.txtRecords
        · simp [Instance.told, Entry.txtOf, hk]
      | txt key' _ strings =>
        by_cases hk : key' = k
        · simp only [Instance.told, Entry.txtOf, hk, if_true]
          rw [txtFields_read hone]
          exact congrArg _ (hrest i i.port i.targetHostname strings)
        · simp [Instance.told, Entry.txtOf, hk]
      | _ => rfl
    rw [List.foldl_cons, ih, htold, List.flatMap_cons, List.reverse_append, List.findSome?_append]
    cases (es.flatMap (·.txtOf k)).reverse.findSome? (txtValue key) <;> rfl

theorem txtRecords_told : (es.foldl (·.told k) i).txtRecords = i.txtRecords ∨
    ∃ name, Entry.txt k name (es.foldl (·.told k) i).txtRecords ∈ es := by
  induction es generalizing i with
  | nil => exact .inl rfl
  | cons e es ih =>
    rw [List.foldl_cons]
    rcases ih (i := i.told k e) with hsame | ⟨name, hn⟩
    · rw [hsame]
      cases e with
      | txt key name strings =>
        by_cases hk : key = k
        · right
          have htxt : (strings.foldl txtField { i with txtRecords := strings }).txtRecords = strings :=
            txtFields_rest (f := (·.txtRecords)) fun _ _ _ _ _ => rfl
          exact ⟨name, by simp [Instance.told, hk, htxt]⟩
        · simp [Instance.told, hk]
      | srv key _ _ _ => by_cases hk : key = k <;> simp [Instance.told, hk]
      | _ => exact .inl rfl
    · exact .inr ⟨name, List.mem_cons_of_mem _ hn⟩

theorem hosts_apply : (m.apply inner e).state.hostnameToInstance h =
    (e.mapsTo inner h).or (m.state.hostnameToInstance h) := by
  cases e with
  | srv key name port target =>
    simp only [Merge.apply, Merge.setInstance, Entry.mapsTo]
    by_cases ht : target = ""
    · simp [ht]
    · by_cases hh : inner.toLowercase target = h
      · subst hh
        simp [ht]
      · simp [ht, hh, Ne.symm hh]
  | _ => rfl

theorem hosts_foldl : (es.foldl (Merge.apply inner) m).state.hostnameToInstance h =
    hostAfter inner m.state.hostnameToInstance es h := by
  induction es generalizing m with
  | nil => rfl
  | cons e es ih =>
    rw [List.foldl_cons, ih, hostAfter, hosts_apply, hostAfter, List.reverse_cons,
      List.findSome?_append, Option.or_assoc]
    congr 1
    cases he : e.mapsTo inner h <;> simp [he]

theorem mem_hosts_groupOne {g : Finset String × (String → Finset String)} :
    h ∈ (groupOne pick g e).1 ↔ h ∈ g.1 ∨ ∃ ip, pick e = some (h, ip) := by
  unfold groupOne
  cases hp : pick e with
  | none => simp
  | some p =>
    obtain ⟨host, ip⟩ := p
    simp [or_comm, eq_comm]

theorem mem_ips_groupOne {g : Finset String × (String → Finset String)} :
    ip ∈ (groupOne pick g e).2 h ↔ ip ∈ g.2 h ∨ pick e = some (h, ip) := by
  unfold groupOne
  cases hp : pick e with
  | none => simp
  | some p =>
    obtain ⟨host, ip'⟩ := p
    by_cases hh : host = h
    · subst hh
      simp [or_comm, eq_comm]
    · simp [Ne.symm hh, hh]

theorem mem_hosts_grouped : h ∈ (grouped pick es).1 ↔ ∃ e ∈ es, ∃ ip, pick e = some (h, ip) := by
  have hloop : ∀ g, h ∈ (es.foldl (groupOne pick) g).1 ↔
      h ∈ g.1 ∨ ∃ e ∈ es, ∃ ip, pick e = some (h, ip) := by
    induction es with
    | nil => simp
    | cons e es ih =>
      intro g
      rw [List.foldl_cons, ih, mem_hosts_groupOne, List.exists_mem_cons_iff, or_assoc]
  rw [grouped, hloop]
  simp

theorem mem_ips_grouped : ip ∈ (grouped pick es).2 h ↔ ∃ e ∈ es, pick e = some (h, ip) := by
  have hloop : ∀ g, ip ∈ (es.foldl (groupOne pick) g).2 h ↔
      ip ∈ g.2 h ∨ ∃ e ∈ es, pick e = some (h, ip) := by
    induction es with
    | nil => simp
    | cons e es ih =>
      intro g
      rw [List.foldl_cons, ih, mem_ips_groupOne, List.exists_mem_cons_iff, or_assoc]
  rw [grouped, hloop]
  simp

theorem hosts_addresses :
    (hs.foldl (Merge.addresses set ips) m).state.hostnameToInstance = m.state.hostnameToInstance := by
  induction hs generalizing m with
  | nil => rfl
  | cons h hs ih =>
    rw [List.foldl_cons, ih, Merge.addresses]
    split <;> rfl

/-- The addresses of the last hostname mapped to an instance are the ones it is left with. -/
theorem instances_addresses (hset : ∀ i a b, set (set i a) b = set i b) :
    (hs.foldl (Merge.addresses set ips) m).state.instances k = (m.state.instances k).map fun i =>
      (lastHost m.state.hostnameToInstance hs k).elim i fun h => set i (ips h) := by
  induction hs generalizing m with
  | nil => simp [lastHost]
  | cons h hs ih =>
    have hhosts : (m.addresses set ips h).state.hostnameToInstance = m.state.hostnameToInstance :=
      @hosts_addresses _ [h] _ _
    have hone : (m.addresses set ips h).state.instances k = (m.state.instances k).map fun i =>
        if m.state.hostnameToInstance h = some k then set i (ips h) else i := by
      unfold Merge.addresses
      split
      · next hnone => simp [hnone]
      · next key hkey =>
        by_cases hk : key = k
        · subst hk
          cases hi : m.state.instances key <;> simp [hkey, hi]
        · cases hi : m.state.instances key <;> simp [hkey, hk, Ne.symm hk]
    rw [List.foldl_cons, ih, hhosts, hone, Option.map_map]
    congr 1
    funext i
    simp only [Function.comp_apply, lastHost, List.reverse_cons, List.find?_append]
    cases hs.reverse.find? fun h => decide (m.state.hostnameToInstance h = some k) with
    | some h' => by_cases hk : m.state.hostnameToInstance h = some k <;> simp [hk, hset]
    | none => by_cases hk : m.state.hostnameToInstance h = some k <;> simp [hk]

theorem followUp_state {acc : BrowserState × List String} {key : String} :
    (followUp now acc key).1.instances = acc.1.instances ∧
      (followUp now acc key).1.hostnameToInstance = acc.1.hostnameToInstance := by
  unfold followUp
  split
  · exact ⟨rfl, rfl⟩
  · split <;> exact ⟨rfl, rfl⟩

theorem followUps_state {acc : BrowserState × List String} {ds : List String} :
    (ds.foldl (followUp now) acc).1.instances = acc.1.instances ∧
      (ds.foldl (followUp now) acc).1.hostnameToInstance = acc.1.hostnameToInstance := by
  induction ds generalizing acc with
  | nil => exact ⟨rfl, rfl⟩
  | cons d ds ih =>
    rw [List.foldl_cons]
    exact ⟨ih.1.trans followUp_state.1, ih.2.trans followUp_state.2⟩

theorem hosts_merged : (merged inner state goodbye es).state.hostnameToInstance =
    hostAfter inner (state.withdraw goodbye).hostnameToInstance es := by
  funext h
  rw [merged, hosts_addresses, hosts_addresses, hosts_foldl]

theorem instances_merged : (merged inner state goodbye es).state.instances k =
    (instanceAfter k ((state.withdraw goodbye).instances k) es).map fun i =>
      let hosts := hostAfter inner (state.withdraw goodbye).hostnameToInstance es
      let i := (lastHost hosts (inner.order (grouped Entry.a? es).1) k).elim i fun h =>
        withIps i ((grouped Entry.a? es).2 h)
      (lastHost hosts (inner.order (grouped Entry.aaaa? es).1) k).elim i fun h =>
        withAddrsV6 i ((grouped Entry.aaaa? es).2 h) := by
  have hhosts : ((es.foldl (Merge.apply inner) ⟨state.withdraw goodbye, ∅, []⟩)).state.hostnameToInstance
      = hostAfter inner (state.withdraw goodbye).hostnameToInstance es := funext fun _ => hosts_foldl
  have hips : ∀ i a b, withIps (withIps i a) b = withIps i b := fun _ _ _ => rfl
  have haddrs : ∀ i a b, withAddrsV6 (withAddrsV6 i a) b = withAddrsV6 i b := fun _ _ _ => rfl
  rw [merged, instances_addresses haddrs, hosts_addresses, hhosts, instances_addresses hips, hhosts,
    instances_foldl, Option.map_map]
  rfl

/-- What the merge makes of an instance it knows or is given a name for. -/
theorem instances_merged_eq : (merged inner state goodbye es).state.instances k =
    (((state.withdraw goodbye).instances k).or ((es.findSome? (·.nameFor k)).map (.new k))).map
      fun i =>
        let hosts := hostAfter inner (state.withdraw goodbye).hostnameToInstance es
        { es.foldl (·.told k) i with
          ips := (lastHost hosts (inner.order (grouped Entry.a? es).1) k).elim i.ips
            (grouped Entry.a? es).2
          addrsV6 := (lastHost hosts (inner.order (grouped Entry.aaaa? es).1) k).elim i.addrsV6
            (grouped Entry.aaaa? es).2 } := by
  rw [instances_merged, instanceAfter, Option.map_map]
  congr 1
  funext i
  have hips : (es.foldl (·.told k) i).ips = i.ips :=
    told_rest (f := (·.ips)) (fun _ _ _ => rfl) fun _ _ _ _ _ _ => rfl
  have haddrs : (es.foldl (·.told k) i).addrsV6 = i.addrsV6 :=
    told_rest (f := (·.addrsV6)) (fun _ _ _ => rfl) fun _ _ _ _ _ _ => rfl
  simp only [Function.comp_apply]
  generalize lastHost _ (inner.order (grouped Entry.a? es).1) k = lastA
  generalize lastHost _ (inner.order (grouped Entry.aaaa? es).1) k = lastAaaa
  cases lastA <;> cases lastAaaa <;> simp [withIps, withAddrsV6, ← hips, ← haddrs]

theorem instances_handled :
    (handled inner state goodbye es now).state.instances = (merged inner state goodbye es).state.instances :=
  followUps_state.1

theorem hosts_handled : (handled inner state goodbye es now).state.hostnameToInstance =
    (merged inner state goodbye es).state.hostnameToInstance :=
  followUps_state.2

/-- The records of a packet that the browser takes in: a response that is not its own. -/
def response (inner : Inner) (data : Bytes) (sender : String) : Option (List MdnsRecord) :=
  if inner.isLocalIp sender then none
  else (parseResponse data).toOption.join.bind fun p => if p.isResponse then some p.allRecords else none

/-- The entries that a response merges. -/
def liveEntries (inner : Inner) (records : List MdnsRecord) : List Entry :=
  (liveRecords (goodbyeKeys inner records) records).map (entryOf inner)

theorem handlePacket_response {data : Bytes} {sender : String} :
    handlePacket inner state data sender now =
      (response inner data sender).elim (.ok ⟨state, [], []⟩) fun records =>
        handleRecords inner state records now := by
  obtain ⟨parsed, hparsed, -⟩ := @parseResponse_spec data
  unfold handlePacket response
  rw [hparsed]
  by_cases hlocal : inner.isLocalIp sender = true
  · rw [if_pos hlocal, if_pos hlocal]
    rfl
  · rw [if_neg hlocal, if_neg hlocal]
    cases parsed with
    | none => rfl
    | some p =>
      change (if p.isResponse = true then handleRecords inner state p.allRecords now
        else .ok ⟨state, [], []⟩) = _
      by_cases hr : p.isResponse = true
      · simp [Except.toOption, hr]
      · simp [Except.toOption, hr]

/-- What a packet leaves: all as it was, or what its entries make of it. -/
theorem handlePacket_eq {data : Bytes} {sender : String} {out : Handled}
    (h : handlePacket inner state data sender now = .ok out) :
    out = (response inner data sender).elim ⟨state, [], []⟩ fun records =>
      handled inner state (goodbyeKeys inner records) (liveEntries inner records) now := by
  rw [handlePacket_response] at h
  cases hr : response inner data sender with
  | none =>
    rw [hr] at h
    exact (Except.ok.inj h).symm
  | some records =>
    rw [hr] at h
    exact handleRecords_eq h

end PlainRs.Mdns
