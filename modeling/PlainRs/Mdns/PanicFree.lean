import PlainRs.Base.Runs
import PlainRs.Mdns.ServiceBrowser

/-! When the browser panics on a packet. -/
namespace PlainRs.Mdns

open Checked Runs

/-- The browser's state under packets from the network, as far as it handles them. -/
def browser (inner : Inner) : System BrowserState (Bytes × String × Nat) where
  init s := s = .default
  next s a := (handlePacket inner s a.1 a.2.1 a.2.2).toOption.map Handled.state

/-- The name a record hands to `find_instance`. -/
def lookedUp (r : MdnsRecord) : Option String :=
  if r.recordType = typePtr then r.ptrTarget.toOption.join
  else if r.recordType = typeSrv then (if 6 ≤ r.rdataLength then some r.name else none)
  else if r.recordType = typeTxt then some r.name
  else none

/-- The name is not one of our instances, or can be cut before the service type. -/
def Cuttable (inner : Inner) (name : String) : Prop :=
  instanceKeyOf inner name ≠ none → (Text.sliceTo name (instanceNameLen name)).isSome

/-- Every name that a live record of a response hands to `find_instance` can be cut. -/
def CuttablePacket (inner : Inner) (data : Bytes) : Prop :=
  ∀ parsed, parseResponse data = .ok (some parsed) → parsed.isResponse = true →
    ∀ r ∈ parsed.allRecords, r.ttl ≠ 0 → ∀ name, lookedUp r = some name → Cuttable inner name

variable {inner : Inner} {data : Bytes} {name sender key entry : String} {r : MdnsRecord}
  {records : List MdnsRecord} {current : String → Option Instance} {keys goodbye : Finset String}
  {m : Merge} {i : Instance} {state : BrowserState} {now : Nat}

theorem findInstance_ok_iff (current : String → Option Instance) :
    Ok (findInstance inner current name) ↔ Cuttable inner name := by
  unfold findInstance Cuttable
  cases hk : instanceKeyOf inner name with
  | none => exact iff_of_true ok_pure (by simp)
  | some key =>
    cases hs : Text.sliceTo name (instanceNameLen name) with
    | none =>
      refine iff_of_false ?_ (by simp)
      rintro ⟨out, ho⟩
      cases ho
    | some cut => exact iff_of_true ⟨_, rfl⟩ (by simp)

theorem goodbyeFqdn_spec :
    Spec (goodbyeFqdn r) fun fqdn => ∀ name, lookedUp r = some name → fqdn = some name := by
  unfold goodbyeFqdn lookedUp
  split
  · obtain ⟨out, hout, -⟩ := r.ptrTarget_spec
    refine ⟨out, hout, fun name hn => ?_⟩
    simpa [hout, Except.toOption] using hn
  · refine .pure fun name hn => ?_
    split at hn
    · next hsrv =>
      rw [if_pos (.inl hsrv)]
      split at hn
      · exact hn
      · cases hn
    · split at hn
      · next htxt => rw [if_pos (.inr htxt), hn]
      · cases hn

theorem goodbyeKey_spec : Spec (goodbyeKey inner keys r) fun keys' =>
    keys ⊆ keys' ∧ (r.ttl = 0 → ∀ name key, lookedUp r = some name →
      instanceKeyOf inner name = some key → key ∈ keys') := by
  unfold goodbyeKey
  by_cases ht : r.ttl ≠ 0
  · rw [if_pos ht]
    exact .pure ⟨subset_rfl, fun h0 => absurd h0 ht⟩
  · rw [if_neg ht]
    refine goodbyeFqdn_spec.bind fun fqdn hfqdn => ?_
    cases hkey : fqdn.bind (instanceKeyOf inner) with
    | some key =>
      refine .pure ⟨Finset.subset_insert _ _, fun _ name key' hn hk => ?_⟩
      rw [hfqdn name hn, Option.bind_some, hk, Option.some.injEq] at hkey
      exact hkey ▸ Finset.mem_insert_self _ _
    | none =>
      refine .pure ⟨subset_rfl, fun _ name key' hn hk => ?_⟩
      rw [hfqdn name hn, Option.bind_some, hk] at hkey
      cases hkey

/-- Every instance that a record withdraws is among the keys. -/
theorem goodbyeKeys_spec : Spec (records.foldlM (goodbyeKey inner) keys) fun keys' =>
    keys ⊆ keys' ∧ ∀ r ∈ records, r.ttl = 0 → ∀ name key, lookedUp r = some name →
      instanceKeyOf inner name = some key → key ∈ keys' := by
  induction records generalizing keys with
  | nil => exact .pure ⟨subset_rfl, nofun⟩
  | cons r records ih =>
    rw [List.foldlM_cons]
    refine goodbyeKey_spec.bind fun keys₁ h₁ => ih.mono fun keys₂ h₂ => ?_
    refine ⟨h₁.1.trans h₂.1, fun r' hr' ht name key hn hk => ?_⟩
    rcases List.mem_cons.mp hr' with rfl | hr'
    · exact h₂.1 (h₁.2 ht name key hn hk)
    · exact h₂.2 r' hr' ht name key hn hk

theorem groupByHostname_spec {t : UInt16} {address : MdnsRecord → Checked (Option String)}
    (h : ∀ r ∈ records, Spec (address r) fun _ => True) :
    Spec (groupByHostname inner t address records) fun _ => True := by
  refine foldlM_spec trivial fun grouped _ r hr => ?_
  split
  · refine (h r hr).bind fun out _ => ?_
    cases out with
    | none => exact .pure trivial
    | some ip => exact .pure trivial
  · exact .pure trivial

/-- An entry with an `=` in it can be cut on both sides of it. -/
theorem txtEntry_spec : Spec (txtEntry i entry) fun _ => True := by
  unfold txtEntry
  split
  · exact .pure trivial
  · next eq hfind =>
    split
    · exact .pure trivial
    · obtain ⟨before, after, hb, ha⟩ := Text.slices_of_find hfind (by decide)
      refine (ofBoundary_spec ha).bind fun _ _ => ?_
      refine (ofBoundary_spec hb).bind fun _ _ => ?_
      exact .pure trivial

theorem ptr_ok_iff (ht : r.recordType = typePtr) :
    Ok (m.ptr inner r) ↔ ∀ name, lookedUp r = some name → Cuttable inner name := by
  obtain ⟨out, hout, -⟩ := r.ptrTarget_spec
  have hname : lookedUp r = out := by simp [lookedUp, ht, hout, Except.toOption]
  unfold Merge.ptr
  rw [hout, hname]
  cases out with
  | none => exact iff_of_true ok_pure nofun
  | some target =>
    simp only [ok_bind, Option.some.injEq, forall_eq', ← findInstance_ok_iff m.state.instances]
    refine ok_bind_iff fun found => ?_
    cases found <;> exact ok_pure

theorem srv_ok_iff (hr : r.Fits) (ht : r.recordType = typeSrv) :
    Ok (m.srv inner r) ↔ ∀ name, lookedUp r = some name → Cuttable inner name := by
  obtain ⟨out, hout, hsome⟩ := r.srv_spec hr
  have hname : lookedUp r = out.map fun _ => r.name := by
    simp only [lookedUp, ht, if_neg (by decide : typeSrv ≠ typePtr), if_true]
    cases out with
    | none => exact if_neg fun h6 => by simpa using hsome.mpr ⟨ht, h6⟩
    | some srv => exact if_pos (hsome.mp rfl).2
  unfold Merge.srv
  rw [hout, hname]
  cases out with
  | none => exact iff_of_true ok_pure nofun
  | some srv =>
    simp only [ok_bind, Option.map_some, Option.some.injEq, forall_eq',
      ← findInstance_ok_iff m.state.instances]
    refine ok_bind_iff fun found => ?_
    cases found <;> exact ok_pure

theorem txt_ok_iff (hr : r.Fits) (ht : r.recordType = typeTxt) :
    Ok (m.txt inner r) ↔ ∀ name, lookedUp r = some name → Cuttable inner name := by
  obtain ⟨out, hout, hsome⟩ := r.txtStrings_spec hr
  obtain ⟨strings, rfl⟩ := Option.isSome_iff_exists.mp (hsome.mpr ht)
  have hname : lookedUp r = some r.name := by
    simp [lookedUp, ht, typeTxt, typePtr, typeSrv]
  unfold Merge.txt
  rw [hout, hname]
  simp only [ok_bind, Option.some.injEq, forall_eq', ← findInstance_ok_iff m.state.instances]
  refine ok_bind_iff fun found => ?_
  cases found with
  | none => exact ok_pure
  | some found =>
    have hentries : Spec (strings.foldlM txtEntry { found.2 with txtRecords := strings }) fun _ =>
        True := foldlM_spec trivial fun _ _ _ _ => txtEntry_spec
    exact ok_bind_of_spec hentries fun _ _ => ok_pure

theorem record_ok_iff (hr : r.Fits) :
    Ok (m.record inner r) ↔ ∀ name, lookedUp r = some name → Cuttable inner name := by
  unfold Merge.record
  split
  · next ht => exact ptr_ok_iff ht
  · split
    · next ht => exact srv_ok_iff hr ht
    · split
      · next ht => exact txt_ok_iff hr ht
      · next hp hs ht => exact iff_of_true ok_pure (by simp [lookedUp, hp, hs, ht])

/-- A record withdrawn in a packet that withdraws no instance names none of ours. -/
theorem cuttable_of_no_goodbye (hkeys : ∀ r ∈ records, r.ttl = 0 → ∀ name key,
      lookedUp r = some name → instanceKeyOf inner name = some key → key ∈ goodbye) :
    (∀ r ∈ liveRecords goodbye records, ∀ name, lookedUp r = some name → Cuttable inner name) ↔
      ∀ r ∈ records, r.ttl ≠ 0 → ∀ name, lookedUp r = some name → Cuttable inner name := by
  unfold liveRecords
  split
  · next hempty =>
    refine forall₂_congr fun r hr => ⟨fun h _ => h, fun h name hn => ?_⟩
    by_cases ht : r.ttl = 0
    · intro hk
      obtain ⟨key, hkey⟩ := Option.ne_none_iff_exists'.mp hk
      have := hkeys r hr ht name key hn hkey
      simp [hempty] at this
    · exact h ht name hn
  · simp only [List.mem_filter, decide_eq_true_eq, and_imp]

theorem handleRecords_ok_iff (hfits : ∀ r ∈ records, r.Fits) :
    Ok (handleRecords inner state records now) ↔
      ∀ r ∈ records, r.ttl ≠ 0 → ∀ name, lookedUp r = some name → Cuttable inner name := by
  obtain ⟨goodbye, hgoodbye, -, hkeys⟩ := @goodbyeKeys_spec inner records ∅
  have hgoodbye : goodbyeInstanceKeys inner records = .ok goodbye := hgoodbye
  have hlive : ∀ r ∈ liveRecords goodbye records, r.Fits := by
    intro r hr
    unfold liveRecords at hr
    split at hr
    · exact hfits r hr
    · exact hfits r (List.mem_of_mem_filter hr)
  obtain ⟨a, ha, -⟩ := @groupByHostname_spec inner _ typeA MdnsRecord.ip
    fun r hr => r.ip_spec (hlive r hr)
  obtain ⟨aaaa, haaaa, -⟩ := @groupByHostname_spec inner _ typeAaaa MdnsRecord.ipv6
    fun r hr => r.ipv6_spec (hlive r hr)
  rw [← cuttable_of_no_goodbye hkeys]
  simp only [handleRecords, hgoodbye, ha, haaaa, ok_bind]
  refine (ok_bind_iff fun _ => ok_pure).trans ?_
  exact ok_foldlM_iff fun m r hr => record_ok_iff (hlive r hr)

/-- A packet is handled without a panic, in any state, exactly when it is one of our own or every
name its live records look up can be cut. -/
theorem handlePacket_ok_iff : (∃ out, handlePacket inner state data sender now = .ok out) ↔
    inner.isLocalIp sender = true ∨ CuttablePacket inner data := by
  obtain ⟨out, hout, hfits⟩ := parseResponse_spec
  unfold handlePacket CuttablePacket
  by_cases hl : inner.isLocalIp sender = true
  · rw [if_pos hl]
    exact iff_of_true ok_pure (.inl hl)
  · rw [if_neg hl, hout, ok_bind, or_iff_right hl]
    simp only [Except.ok.injEq]
    cases out with
    | none => exact iff_of_true ok_pure nofun
    | some parsed =>
      simp only [Option.some.injEq, forall_eq']
      by_cases hresp : parsed.isResponse = true
      · simp only [hresp, if_true, true_implies]
        exact handleRecords_ok_iff (hfits parsed rfl)
      · rw [if_neg hresp]
        exact iff_of_true ok_pure fun h => absurd h hresp

/-- The keys come in their order, and `é` is its own lowercase. -/
def demoInner : Inner where
  clientId := "me"
  toLowercase := String.toLower
  isLocalIp := fun ip => ip = "127.0.0.1"
  order := fun keys => keys.sort

/-- A response with one PTR record, whose target is `é_plainapp._tcp.local`. -/
def accentedPtr : Bytes :=
  [0, 0, 0x84, 0, 0, 0, 0, 1, 0, 0, 0, 0] ++ [0, 0, 0x0C, 0, 1, 0, 0, 0, 120, 0, 24] ++
    [11, 0xC3, 0xA9] ++ "_plainapp".toUTF8.toList ++ [4] ++ "_tcp".toUTF8.toList ++ [5] ++
    "local".toUTF8.toList ++ [0]

/-- Its 22 bytes are cut at byte 1, inside the `é`. -/
theorem accentedPtr_panics : ¬ ∀ state, Reachable (browser demoInner) state →
    ∀ data sender now, ∃ out, handlePacket demoInner state data sender now = .ok out := by
  intro h
  obtain ⟨out, hout⟩ := h .default (.init rfl) accentedPtr "10.0.0.9" 0
  have hpanic : (handlePacket demoInner .default accentedPtr "10.0.0.9" 0).isOk = false := by
    decide +kernel
  rw [hout] at hpanic
  cases hpanic

end PlainRs.Mdns
