import PlainRs.Mdns.Hostnames

/-! Whether a record with TTL 0 sets anything in the browser's state. -/
namespace PlainRs.Mdns

open Checked

/-- The entries of the records that are not withdrawn. -/
def liveOf (inner : Inner) (records : List MdnsRecord) : List Entry :=
  (records.filter fun r => r.ttl ≠ 0).map (entryOf inner)

/-- What a state holds of an instance; nothing where there is none. -/
def BrowserState.known (s : BrowserState) (k : String) : Instance :=
  (s.instances k).getD (.new k "")

/-- What an instance begins a packet as: what the state holds of it, or a fresh one. -/
def BrowserState.Begins (s : BrowserState) (k : String) (j : Instance) : Prop :=
  j = s.known k ∨ ∃ name, j = .new k name

/-- All that is in the state after was there before, is empty, or was set by one of the entries. -/
structure SetBy (inner : Inner) (before after : BrowserState) (live : List Entry) : Prop where
  hosts : ∀ h k, after.hostnameToInstance h = some k →
    before.hostnameToInstance h = some k ∨ ∃ e ∈ live, e.mapsTo inner h = some k
  entry : ∀ k i, after.instances k = some i →
    (∃ j, before.instances k = some j ∧ i.instanceName = j.instanceName) ∨
      ∃ e ∈ live, e.nameFor k = some i.instanceName
  srv : ∀ k i, after.instances k = some i →
    (∃ j, before.Begins k j ∧ (i.port, i.targetHostname) = (j.port, j.targetHostname)) ∨
      ∃ e ∈ live, e.srvOf k = some (i.port, i.targetHostname)
  txtRecords : ∀ k i, after.instances k = some i →
    (∃ j, before.Begins k j ∧ i.txtRecords = j.txtRecords) ∨
      ∃ name, Entry.txt k name i.txtRecords ∈ live
  id : ∀ k i, after.instances k = some i → (∃ j, before.Begins k j ∧ i.id = j.id) ∨
    ∃ e ∈ live, ∃ text ∈ e.txtOf k, txtValue "id" text = some i.id
  deviceType : ∀ k i, after.instances k = some i →
    (∃ j, before.Begins k j ∧ i.deviceType = j.deviceType) ∨
      ∃ e ∈ live, ∃ text ∈ e.txtOf k, txtValue "dv" text = some i.deviceType
  version : ∀ k i, after.instances k = some i → (∃ j, before.Begins k j ∧ i.version = j.version) ∨
    ∃ e ∈ live, ∃ text ∈ e.txtOf k, txtValue "ver" text = some i.version
  platform : ∀ k i, after.instances k = some i →
    (∃ j, before.Begins k j ∧ i.platform = j.platform) ∨
      ∃ e ∈ live, ∃ text ∈ e.txtOf k, txtValue "pf" text = some i.platform
  ips : ∀ k i, after.instances k = some i → ∀ ip ∈ i.ips, ip ∈ (before.known k).ips ∨
    ∃ h, after.hostnameToInstance h = some k ∧ Entry.a h ip ∈ live
  addrsV6 : ∀ k i, after.instances k = some i → ∀ addr ∈ i.addrsV6,
    addr ∈ (before.known k).addrsV6 ∨
      ∃ h, after.hostnameToInstance h = some k ∧ Entry.aaaa h addr ∈ live

/-- A hash map or set yields each of its keys once. -/
def IsOrder (order : Finset String → List String) : Prop :=
  ∀ s, (order s).Nodup ∧ ∀ k, k ∈ order s ↔ k ∈ s

/-- In a packet that withdraws no instance, each TTL 0 address of a hostname that leads to an
instance there is one that the instance has already, or that a live record carries for it. -/
def GoodbyeAddressesKnown (inner : Inner) (s : BrowserState) (records : List MdnsRecord) : Prop :=
  goodbyeKeys inner records = ∅ → ∀ r ∈ records, r.ttl = 0 → ∀ host k,
    hostAfter inner s.hostnameToInstance (records.map (entryOf inner)) host = some k →
    ((s.instances k).isSome ∨ ∃ e ∈ liveOf inner records, (e.nameFor k).isSome) →
    (∀ ip, entryOf inner r = .a host ip → ip ∈ (s.known k).ips ∨
      ∃ h, hostAfter inner s.hostnameToInstance (records.map (entryOf inner)) h = some k ∧
        Entry.a h ip ∈ liveOf inner records) ∧
    ∀ addr, entryOf inner r = .aaaa host addr → addr ∈ (s.known k).addrsV6 ∨
      ∃ h, hostAfter inner s.hostnameToInstance (records.map (entryOf inner)) h = some k ∧
        Entry.aaaa h addr ∈ liveOf inner records

variable {inner : Inner} {s : BrowserState} {records : List MdnsRecord} {r : MdnsRecord} {e : Entry}
  {es live : List Entry} {goodbye : Finset String} {now : Nat} {k h ip : String} {i : Instance}

theorem instanceKeyOf_of_names {name : String} {named : String × String}
    {f : String → String → Entry} (hf : ∀ key cut, (f key cut).names = some (key, cut))
    (hn : (namedEntry inner name f).names = some named) : instanceKeyOf inner name = some named.1 := by
  unfold namedEntry at hn
  split at hn
  · next hkey _ =>
    rw [hf, Option.some.injEq] at hn
    rw [hkey, ← hn]
  · cases hn

/-- A goodbye record that names an instance withdraws it. -/
theorem withdrawn_of_names {named : String × String} (hn : (entryOf inner r).names = some named)
    (ht : r.ttl = 0) : withdrawn inner r = some named.1 := by
  unfold entryOf at hn
  rw [withdrawn, if_neg (by simpa using ht), goodbyeFqdn]
  split at hn
  · next hp =>
    rw [if_pos hp]
    cases hread : r.ptrTarget.toOption.join with
    | none =>
      rw [hread] at hn
      cases hn
    | some target =>
      rw [hread, Option.elim_some] at hn
      rw [Option.bind_some]
      exact instanceKeyOf_of_names (fun _ _ => rfl) hn
  · next hp =>
    rw [if_neg hp]
    split at hn
    · next hs =>
      rw [if_pos (.inl hs)]
      cases hread : r.srv.toOption.join with
      | none =>
        rw [hread] at hn
        cases hn
      | some srv =>
        rw [hread, Option.elim_some] at hn
        exact instanceKeyOf_of_names (fun _ _ => rfl) hn
    · split at hn
      · next htxt =>
        rw [if_pos (.inr htxt)]
        cases hread : r.txtStrings.toOption.join with
        | none =>
          rw [hread] at hn
          cases hn
        | some strings =>
          rw [hread, Option.elim_some] at hn
          exact instanceKeyOf_of_names (fun _ _ => rfl) hn
      · split at hn
        · cases hread : r.ip.toOption.join <;> rw [hread] at hn <;> cases hn
        · split at hn
          · cases hread : r.ipv6.toOption.join <;> rw [hread] at hn <;> cases hn
          · cases hn

/-- What is merged of a packet and is not live names no instance. -/
theorem mem_liveEntries (he : e ∈ liveEntries inner records) :
    e ∈ liveOf inner records ∨ goodbyeKeys inner records = ∅ ∧ e.names = none := by
  unfold liveEntries liveRecords at he
  split at he
  · next hempty =>
    obtain ⟨r, hr, rfl⟩ := List.mem_map.mp he
    by_cases ht : r.ttl = 0
    · right
      refine ⟨hempty, ?_⟩
      cases hn : (entryOf inner r).names with
      | none => rfl
      | some named =>
        have hk : named.1 ∈ goodbyeKeys inner records :=
          List.mem_toFinset.mpr (List.mem_filterMap.mpr ⟨r, hr, withdrawn_of_names hn ht⟩)
        simp [hempty] at hk
    · exact .inl (List.mem_map.mpr ⟨r, List.mem_filter.mpr ⟨hr, by simpa using ht⟩, rfl⟩)
  · exact .inl he

theorem names_of_nameFor {name : String} (hn : e.nameFor k = some name) : e.names = some (k, name) := by
  obtain ⟨named, hnamed, hk⟩ := Option.bind_eq_some_iff.mp hn
  split at hk
  · next he =>
    cases hk
    rw [hnamed, ← he]
  · cases hk

theorem names_of_srvOf {srv : UInt16 × String} (hn : e.srvOf k = some srv) : e.names ≠ none := by
  cases e with
  | srv => simp [Entry.names]
  | _ => cases hn

theorem names_of_txtOf {text : String} (hn : text ∈ e.txtOf k) : e.names ≠ none := by
  cases e with
  | txt => simp [Entry.names]
  | _ => cases hn

/-- What an instance begins as, what the entries tell it, and where its addresses come from. -/
theorem begun_of_handled (hlive : ∀ e ∈ es, e.names ≠ none → e ∈ live)
    (hi : (handled inner s goodbye es now).state.instances k = some i) : ∃ j,
      i = { es.foldl (·.told k) j with ips := i.ips, addrsV6 := i.addrsV6 } ∧
      (s.instances k = some j ∨ ∃ e ∈ live, ∃ name, e.nameFor k = some name ∧ j = .new k name) ∧
      (∀ ip ∈ i.ips, ip ∈ j.ips ∨ ∃ h, hostAfter inner (s.withdraw goodbye).hostnameToInstance es h =
        some k ∧ Entry.a h ip ∈ es) ∧
      ∀ addr ∈ i.addrsV6, addr ∈ j.addrsV6 ∨
        ∃ h, hostAfter inner (s.withdraw goodbye).hostnameToInstance es h = some k ∧
          Entry.aaaa h addr ∈ es := by
  rw [instances_handled, instances_merged_eq] at hi
  obtain ⟨j, hj, rfl⟩ := Option.map_eq_some_iff.mp hi
  refine ⟨j, rfl, ?_, ?_, ?_⟩
  · rcases Option.or_eq_some_iff.mp hj with hknown | ⟨-, hnew⟩
    · left
      simp only [BrowserState.withdraw] at hknown
      split at hknown
      · cases hknown
      · exact hknown
    · right
      obtain ⟨name, hname, rfl⟩ := Option.map_eq_some_iff.mp hnew
      obtain ⟨e, he, hn⟩ := List.exists_of_findSome?_eq_some hname
      exact ⟨e, hlive e he (by simp [names_of_nameFor hn]), name, hn, rfl⟩
  · intro ip hip
    dsimp only at hip
    cases hlast : lastHost (hostAfter inner (s.withdraw goodbye).hostnameToInstance es)
        (inner.order (grouped Entry.a? es).1) k with
    | none => exact .inl (by simpa [hlast] using hip)
    | some h =>
      rw [hlast, Option.elim_some, mem_ips_grouped, mem_a?] at hip
      exact .inr ⟨h, hosts_of_lastHost hlast, hip⟩
  · intro addr haddr
    dsimp only at haddr
    cases hlast : lastHost (hostAfter inner (s.withdraw goodbye).hostnameToInstance es)
        (inner.order (grouped Entry.aaaa? es).1) k with
    | none => exact .inl (by simpa [hlast] using haddr)
    | some h =>
      rw [hlast, Option.elim_some, mem_ips_grouped, mem_aaaa?] at haddr
      exact .inr ⟨h, hosts_of_lastHost hlast, haddr⟩

/-- A field that only TXT strings set is as it began, or a live string's. -/
theorem text_told {j : Instance} {key : String} {field : Instance → String}
    (hlive : ∀ e ∈ es, e.names ≠ none → e ∈ live)
    (hone : ∀ i entry, field (txtField i entry) = (txtValue key entry).getD (field i))
    (hrest : ∀ (i : Instance) port target strings, field { i with
      port := port, targetHostname := target, txtRecords := strings } = field i) :
    field (es.foldl (·.told k) j) = field j ∨
      ∃ e ∈ live, ∃ text ∈ e.txtOf k, txtValue key text = some (field (es.foldl (·.told k) j)) := by
  have hread := @told_read es k j _ _ hone hrest
  cases hv : (es.flatMap (·.txtOf k)).reverse.findSome? (txtValue key) with
  | none =>
    rw [hv, Option.getD_none] at hread
    exact .inl hread
  | some value =>
    rw [hv, Option.getD_some] at hread
    obtain ⟨text, htext, hvalue⟩ := List.exists_of_findSome?_eq_some hv
    obtain ⟨e, he, ht⟩ := List.mem_flatMap.mp (List.mem_reverse.mp htext)
    exact .inr ⟨e, hlive e he (names_of_txtOf ht), text, ht, by rw [hread, hvalue]⟩

/-- What the entries set is set by a live one, if each of them is live or names no instance; what is
left to show is where the addresses come from. -/
theorem setBy_handled (hes : ∀ e ∈ es, e ∈ live ∨ e.names = none)
    (hips : ∀ h k, hostAfter inner (s.withdraw goodbye).hostnameToInstance es h = some k →
      ((handled inner s goodbye es now).state.instances k).isSome → ∀ ip, Entry.a h ip ∈ es →
      ip ∈ (s.known k).ips ∨ ∃ h, hostAfter inner (s.withdraw goodbye).hostnameToInstance es h = some k ∧
        Entry.a h ip ∈ live)
    (haddrs : ∀ h k, hostAfter inner (s.withdraw goodbye).hostnameToInstance es h = some k →
      ((handled inner s goodbye es now).state.instances k).isSome → ∀ addr, Entry.aaaa h addr ∈ es →
      addr ∈ (s.known k).addrsV6 ∨
        ∃ h, hostAfter inner (s.withdraw goodbye).hostnameToInstance es h = some k ∧
          Entry.aaaa h addr ∈ live) :
    SetBy inner s (handled inner s goodbye es now).state live := by
  have hlive : ∀ e ∈ es, e.names ≠ none → e ∈ live := fun e he hn => (hes e he).resolve_right hn
  have hhosts : (handled inner s goodbye es now).state.hostnameToInstance =
      hostAfter inner (s.withdraw goodbye).hostnameToInstance es := by
    rw [hosts_handled, hosts_merged]
  have hbegins : ∀ {k j}, (s.instances k = some j ∨
      ∃ e ∈ live, ∃ name, e.nameFor k = some name ∧ j = .new k name) → s.Begins k j := by
    rintro k j (hj | ⟨-, -, name, -, rfl⟩)
    · exact .inl (by simp [BrowserState.known, hj])
    · exact .inr ⟨name, rfl⟩
  refine ⟨?_, ?_, ?_, ?_, ?_, ?_, ?_, ?_, ?_, ?_⟩
  · intro h k hh
    rw [hhosts, hostAfter, Option.or_eq_some_iff] at hh
    rcases hh with hsrv | ⟨-, hstate⟩
    · obtain ⟨e, he, hk⟩ := List.exists_of_findSome?_eq_some hsrv
      obtain ⟨name, port, target, rfl, -⟩ := mapsTo_eq_some hk
      exact .inr ⟨_, hlive _ (List.mem_reverse.mp he) (by simp [Entry.names]), hk⟩
    · simp only [BrowserState.withdraw, Option.filter_eq_some_iff] at hstate
      exact .inl hstate.1
  · intro k i hi
    obtain ⟨j, he, hj, -⟩ := begun_of_handled hlive hi
    have hname : i.instanceName = j.instanceName := by
      rw [he]
      exact told_rest (f := (·.instanceName)) (fun _ _ _ => rfl) fun _ _ _ _ _ _ => rfl
    rcases hj with hj | ⟨e, hel, name, hn, rfl⟩
    · exact .inl ⟨j, hj, hname⟩
    · exact .inr ⟨e, hel, by rw [hn, hname]; rfl⟩
  · intro k i hi
    obtain ⟨j, he, hj, -⟩ := begun_of_handled hlive hi
    have hsrv : (i.port, i.targetHostname) =
        (es.reverse.findSome? (·.srvOf k)).getD (j.port, j.targetHostname) := by
      rw [he]
      exact srv_told
    cases hv : es.reverse.findSome? (·.srvOf k) with
    | none =>
      rw [hv, Option.getD_none] at hsrv
      exact .inl ⟨j, hbegins hj, hsrv⟩
    | some srv =>
      rw [hv, Option.getD_some] at hsrv
      obtain ⟨e, hel, hs⟩ := List.exists_of_findSome?_eq_some hv
      exact .inr ⟨e, hlive e (List.mem_reverse.mp hel) (names_of_srvOf hs), by rw [hs, hsrv]⟩
  · intro k i hi
    obtain ⟨j, he, hj, -⟩ := begun_of_handled hlive hi
    rw [he]
    rcases @txtRecords_told es k j with hsame | ⟨name, hn⟩
    · exact .inl ⟨j, hbegins hj, hsame⟩
    · exact .inr ⟨name, hlive _ hn (by simp [Entry.names])⟩
  · intro k i hi
    obtain ⟨j, he, hj, -⟩ := begun_of_handled hlive hi
    rw [he]
    exact (text_told hlive (fun i entry => (txtField_fields i entry).1) fun _ _ _ _ => rfl).imp_left
      fun h => ⟨j, hbegins hj, h⟩
  · intro k i hi
    obtain ⟨j, he, hj, -⟩ := begun_of_handled hlive hi
    rw [he]
    exact (text_told hlive (fun i entry => (txtField_fields i entry).2.1) fun _ _ _ _ => rfl).imp_left
      fun h => ⟨j, hbegins hj, h⟩
  · intro k i hi
    obtain ⟨j, he, hj, -⟩ := begun_of_handled hlive hi
    rw [he]
    exact (text_told hlive (fun i entry => (txtField_fields i entry).2.2.1)
      fun _ _ _ _ => rfl).imp_left fun h => ⟨j, hbegins hj, h⟩
  · intro k i hi
    obtain ⟨j, he, hj, -⟩ := begun_of_handled hlive hi
    rw [he]
    exact (text_told hlive (fun i entry => (txtField_fields i entry).2.2.2)
      fun _ _ _ _ => rfl).imp_left fun h => ⟨j, hbegins hj, h⟩
  · intro k i hi ip hip
    obtain ⟨j, -, hj, hfrom, -⟩ := begun_of_handled hlive hi
    rw [hhosts]
    rcases hfrom ip hip with hin | ⟨h, hh, hcarried⟩
    · rcases hj with hj | ⟨-, -, name, -, rfl⟩
      · exact .inl (by simpa [BrowserState.known, hj] using hin)
      · exact absurd hin (by simp [Instance.new])
    · exact hips h k hh (by rw [hi]; rfl) ip hcarried
  · intro k i hi addr haddr
    obtain ⟨j, -, hj, -, hfrom⟩ := begun_of_handled hlive hi
    rw [hhosts]
    rcases hfrom addr haddr with hin | ⟨h, hh, hcarried⟩
    · rcases hj with hj | ⟨-, -, name, -, rfl⟩
      · exact .inl (by simpa [BrowserState.known, hj] using hin)
      · exact absurd hin (by simp [Instance.new])
    · exact haddrs h k hh (by rw [hi]; rfl) addr hcarried

theorem setBy_refl : SetBy inner s s [] := by
  have hbegins : ∀ {k i}, s.instances k = some i → s.Begins k i ∧ s.known k = i := fun hi =>
    ⟨.inl (by simp [BrowserState.known, hi]), by simp [BrowserState.known, hi]⟩
  refine ⟨fun _ _ h => .inl h, fun k i hi => .inl ⟨i, hi, rfl⟩, ?_, ?_, ?_, ?_, ?_, ?_, ?_, ?_⟩
  · exact fun k i hi => .inl ⟨i, (hbegins hi).1, rfl⟩
  · exact fun k i hi => .inl ⟨i, (hbegins hi).1, rfl⟩
  · exact fun k i hi => .inl ⟨i, (hbegins hi).1, rfl⟩
  · exact fun k i hi => .inl ⟨i, (hbegins hi).1, rfl⟩
  · exact fun k i hi => .inl ⟨i, (hbegins hi).1, rfl⟩
  · exact fun k i hi => .inl ⟨i, (hbegins hi).1, rfl⟩
  · exact fun k i hi ip hip => .inl ((hbegins hi).2 ▸ hip)
  · exact fun k i hi addr haddr => .inl ((hbegins hi).2 ▸ haddr)

theorem withdraw_empty : s.withdraw ∅ = s := by
  have hhosts : ∀ h, (s.hostnameToInstance h).filter (· ∉ (∅ : Finset String)) =
      s.hostnameToInstance h := by
    intro h
    cases s.hostnameToInstance h <;> rfl
  simp only [BrowserState.withdraw, hhosts]
  simp

theorem liveEntries_of_empty (h : goodbyeKeys inner records = ∅) :
    liveEntries inner records = records.map (entryOf inner) := by
  rw [liveEntries, liveRecords, if_pos h]

/-- An order that ends with a given key. -/
def orderEnding (host : String) (keys : Finset String) : List String :=
  (keys.erase host).sort ++ if host ∈ keys then [host] else []

theorem isOrder_orderEnding : IsOrder (orderEnding h) := by
  intro keys
  unfold orderEnding
  constructor
  · split
    · rw [List.nodup_append]
      refine ⟨Finset.sort_nodup .., List.nodup_singleton _, ?_⟩
      rintro k hk _ hh rfl
      rw [List.mem_singleton] at hh
      simp [hh] at hk
    · simp [Finset.sort_nodup]
  · intro k
    by_cases hk : k = h
    · subst hk
      by_cases hin : k ∈ keys <;> simp [hin]
    · split <;> simp [hk]

theorem lastHost_orderEnding {hosts : String → Option String} {keys : Finset String}
    (hin : h ∈ keys) (hh : hosts h = some k) : lastHost hosts (orderEnding h keys) k = some h := by
  rw [lastHost, orderEnding, if_pos hin, List.reverse_append]
  simp [hh]

/-- An instance that the state or a live entry names is there after the packet. -/
theorem isSome_handled (hknown : (s.instances k).isSome ∨ ∃ e ∈ es, (e.nameFor k).isSome) :
    ∃ i, (handled inner s ∅ es now).state.instances k = some i := by
  rw [instances_handled, instances_merged_eq, withdraw_empty]
  have hsome : ((s.instances k).or ((es.findSome? (·.nameFor k)).map (.new k))).isSome = true := by
    rcases hknown with hk | hk
    · rw [Option.isSome_or, hk, Bool.true_or]
    · rw [Option.isSome_or, Option.isSome_map, List.findSome?_isSome_iff.mpr hk, Bool.or_true]
  obtain ⟨j, hj⟩ := Option.isSome_iff_exists.mp hsome
  rw [hj]
  exact ⟨_, rfl⟩

/-- The browser with another order of its hash maps. -/
def Inner.reordered (inner : Inner) (order : Finset String → List String) : Inner :=
  { inner with order := order }

section

variable {order : Finset String → List String} {data : Bytes} {sender : String}

theorem entryOf_reordered : entryOf (inner.reordered order) = entryOf inner := rfl

theorem goodbyeKeys_reordered :
    goodbyeKeys (inner.reordered order) records = goodbyeKeys inner records := rfl

theorem liveEntries_reordered :
    liveEntries (inner.reordered order) records = liveEntries inner records := rfl

theorem response_reordered :
    response (inner.reordered order) data sender = response inner data sender := rfl

theorem hostAfter_reordered {hosts : String → Option String} :
    hostAfter (inner.reordered order) hosts es = hostAfter inner hosts es := rfl

theorem cuttable_reordered {name : String} :
    Cuttable (inner.reordered order) name ↔ Cuttable inner name := Iff.rfl

theorem setBy_reordered {t : BrowserState} :
    SetBy (inner.reordered order) s t live ↔ SetBy inner s t live :=
  ⟨fun h => ⟨h.1, h.2, h.3, h.4, h.5, h.6, h.7, h.8, h.9, h.10⟩,
    fun h => ⟨h.1, h.2, h.3, h.4, h.5, h.6, h.7, h.8, h.9, h.10⟩⟩

theorem ok_reordered (h : Ok (handlePacket inner s data sender now)) :
    Ok (handlePacket (inner.reordered order) s data sender now) := by
  refine handlePacket_ok_iff.mpr ((handlePacket_ok_iff.mp h).imp_right fun hc => ?_)
  intro parsed hp hresp r hr ht name hn
  exact cuttable_reordered.mpr (hc parsed hp hresp r hr ht name hn)

/-- In a packet whose TTL 0 addresses are known, or that withdraws an instance, all that is set is
set by live records. -/
theorem setBy_of_known (h : GoodbyeAddressesKnown inner s records) : SetBy inner s
    (handled inner s (goodbyeKeys inner records) (liveEntries inner records) now).state
    (liveOf inner records) := by
  have hlive : ∀ e ∈ liveEntries inner records, e.names ≠ none → e ∈ liveOf inner records :=
    fun e he hn => (mem_liveEntries he).resolve_right fun hd => hn hd.2
  have hsilent : ∀ e ∈ liveEntries inner records, e ∈ liveOf inner records ∨
      goodbyeKeys inner records = ∅ ∧ ∃ r ∈ records, r.ttl = 0 ∧ entryOf inner r = e := by
    intro e he
    rcases mem_liveEntries he with hin | ⟨hempty, -⟩
    · exact .inl hin
    · rw [liveEntries_of_empty hempty] at he
      obtain ⟨r, hr, rfl⟩ := List.mem_map.mp he
      by_cases ht : r.ttl = 0
      · exact .inr ⟨hempty, r, hr, ht, rfl⟩
      · exact .inl (List.mem_map.mpr ⟨r, List.mem_filter.mpr ⟨hr, by simpa using ht⟩, rfl⟩)
  have hthere : ∀ {k}, ((handled inner s (goodbyeKeys inner records) (liveEntries inner records)
      now).state.instances k).isSome → (s.instances k).isSome ∨
        ∃ e ∈ liveOf inner records, (e.nameFor k).isSome := by
    intro k hk
    obtain ⟨i, hi⟩ := Option.isSome_iff_exists.mp hk
    obtain ⟨j, -, hj, -⟩ := begun_of_handled hlive hi
    rcases hj with hj | ⟨e, he, name, hn, -⟩
    · exact .inl (by rw [hj]; rfl)
    · exact .inr ⟨e, he, by rw [hn]; rfl⟩
  refine setBy_handled (fun e he => (mem_liveEntries he).imp_right (·.2)) ?_ ?_
  · intro host k hh hk ip hip
    rcases hsilent _ hip with hin | ⟨hempty, r, hr, ht, he⟩
    · exact .inr ⟨host, hh, hin⟩
    · have hknown := h hempty r hr ht host k
      rw [hempty, withdraw_empty, liveEntries_of_empty hempty] at hh ⊢
      exact (hknown hh (hthere hk)).1 ip he
  · intro host k hh hk addr haddr
    rcases hsilent _ haddr with hin | ⟨hempty, r, hr, ht, he⟩
    · exact .inr ⟨host, hh, hin⟩
    · have hknown := h hempty r hr ht host k
      rw [hempty, withdraw_empty, liveEntries_of_empty hempty] at hh ⊢
      exact (hknown hh (hthere hk)).2 addr he

/-- With the hostname of a TTL 0 address last, its instance is left with the address. -/
theorem known_of_setBy (h : ∀ order, IsOrder order → SetBy inner s
      (handled (inner.reordered order) s (goodbyeKeys inner records) (liveEntries inner records)
        now).state (liveOf inner records)) : GoodbyeAddressesKnown inner s records := by
  intro hempty r hrec ht host k hh hknown
  have hset := h _ (isOrder_orderEnding (h := host))
  rw [hempty, liveEntries_of_empty hempty] at hset
  have hhosts : (handled (inner.reordered (orderEnding host)) s ∅ (records.map (entryOf inner))
      now).state.hostnameToInstance =
        hostAfter inner s.hostnameToInstance (records.map (entryOf inner)) := by
    rw [hosts_handled, hosts_merged, withdraw_empty, hostAfter_reordered]
  have hnamed : (s.instances k).isSome ∨
      ∃ e ∈ records.map (entryOf inner), (e.nameFor k).isSome := by
    refine hknown.imp_right ?_
    rintro ⟨e, he, hn⟩
    obtain ⟨r', hr', rfl⟩ := List.mem_map.mp he
    exact ⟨_, List.mem_map.mpr ⟨r', List.mem_of_mem_filter hr', rfl⟩, hn⟩
  obtain ⟨i, hi⟩ := @isSome_handled (inner.reordered (orderEnding host)) _ _ now _ hnamed
  have hi' := hi
  rw [instances_handled, instances_merged_eq, withdraw_empty, hostAfter_reordered] at hi'
  obtain ⟨j, -, he⟩ := Option.map_eq_some_iff.mp hi'
  have hlast : ∀ {keys : Finset String}, host ∈ keys → lastHost
      (hostAfter inner s.hostnameToInstance (records.map (entryOf inner)))
      ((inner.reordered (orderEnding host)).order keys) k = some host := fun hin =>
    lastHost_orderEnding hin hh
  constructor
  · intro ip hip
    have hcarried : Entry.a host ip ∈ records.map (entryOf inner) := List.mem_map.mpr ⟨r, hrec, hip⟩
    have hips : ip ∈ i.ips := by
      rw [← he]
      dsimp only
      rw [hlast (mem_hosts_grouped.mpr ⟨_, hcarried, ip, rfl⟩), Option.elim_some, mem_ips_grouped,
        mem_a?]
      exact hcarried
    have hfrom := hset.ips k i hi ip hips
    rwa [hhosts] at hfrom
  · intro addr haddr
    have hcarried : Entry.aaaa host addr ∈ records.map (entryOf inner) :=
      List.mem_map.mpr ⟨r, hrec, haddr⟩
    have haddrs : addr ∈ i.addrsV6 := by
      rw [← he]
      dsimp only
      rw [hlast (mem_hosts_grouped.mpr ⟨_, hcarried, addr, rfl⟩), Option.elim_some, mem_ips_grouped,
        mem_aaaa?]
      exact hcarried
    have hfrom := hset.addrsV6 k i hi addr haddrs
    rwa [hhosts] at hfrom

end

theorem ok_of_isOk {α : Type} {x : Checked α} (h : x.isOk = true) : Ok x := by
  cases x with
  | error e => cases h
  | ok a => exact ok_pure

/-- A response with one A record with TTL 0. -/
def goodbyeAPacket (host : String) (ip : String) : Bytes :=
  writeHeader 1 0 ++ writeRecord (encodeName host) typeA dnsCacheFlushClassIn 0 (ipToBytes ip)

/-- The browser after the SRV record of `x`. -/
def knownX : BrowserState :=
  ((browserRuns demoInner).run (fun _ _ => True) .default
    [.packet (srvPacket "h1.local" 8443) "10.0.0.2" 0]).getD .default

theorem knownX_reachable : Runs.Reachable (browserRuns demoInner) knownX := by
  have hrun : ((browserRuns demoInner).run (fun _ _ => True) .default
      [.packet (srvPacket "h1.local" 8443) "10.0.0.2" 0]).isSome = true := by
    decide +kernel
  obtain ⟨s, hs⟩ := Option.isSome_iff_exists.mp hrun
  have hw : knownX = s := by rw [knownX, hs, Option.getD_some]
  exact hw ▸ Runs.ReachableUnder.run (.init rfl) hs

def sortedOrder (keys : Finset String) : List String := keys.sort

theorem isOrder_sorted : IsOrder sortedOrder := fun keys =>
  ⟨keys.sort_nodup .., fun _ => keys.mem_sort ..⟩

end PlainRs.Mdns
