import PlainRs.Base.Components
import PlainRs.Mdns.Published
import PlainRs.Mdns.RecordOrder

/-! A published service is discovered as it was published. -/
namespace PlainRs.Mdns

open Checked

variable {inner : Inner} {s : MdnsServiceInfo} {es : List Entry} {now : Nat} {k K N H L : String}
  {name hostname id deviceType version platform : String} {port : UInt16} {ips : List String}
  {state : BrowserState} {goodbye : Finset String}

theorem found_eq : (handled inner state goodbye es now).found =
    (inner.order (merged inner state goodbye es).touched).filterMap
      (reported inner (merged inner state goodbye es).state) := by
  have hreported : reported inner (handled inner state goodbye es now).state =
      reported inner (merged inner state goodbye es).state := by
    funext k
    rw [reported, instances_handled, reported]
  rw [← hreported]
  rfl

/-- The values that a function finds in a list agree. -/
theorem findSome?_of_all {α β : Type} {f : α → Option β} {l : List α} {v : β}
    (hall : ∀ a ∈ l, ∀ b, f a = some b → b = v) (hsome : ∃ a ∈ l, f a = some v) :
    l.findSome? f = some v := by
  obtain ⟨a, ha, hv⟩ := hsome
  cases hx : l.findSome? f with
  | none =>
    rw [List.findSome?_eq_none_iff.mp hx a ha] at hv
    cases hv
  | some b =>
    obtain ⟨c, hc, hb⟩ := List.exists_of_findSome?_eq_some hx
    rw [hall c hc b hb]

/-- A packet that names one instance, under one name, and gives the addresses of one hostname. -/
structure TellsOf (inner : Inner) (K N L : String) (port : UInt16) (H : String)
    (strings ips : List String) (es : List Entry) : Prop where
  mem : ∀ e, e ∈ es ↔ e = .ptr K N ∨ e = .srv K N port H ∨ e = .txt K N strings ∨
    ∃ ip ∈ ips, e = .a L ip

variable {strings : List String}

theorem TellsOf.nameFor (h : TellsOf inner K N L port H strings ips es) :
    es.findSome? (·.nameFor K) = some N ∧ ∀ k, k ≠ K → ∀ e ∈ es, e.nameFor k = none := by
  refine ⟨findSome?_of_all ?_ ?_, ?_⟩
  · intro e he n hn
    rcases (h.mem e).mp he with rfl | rfl | rfl | ⟨ip, -, rfl⟩ <;>
      simp [Entry.nameFor, Entry.names] at hn <;> exact hn.symm
  · exact ⟨_, (h.mem _).mpr (.inl rfl), by simp [Entry.nameFor, Entry.names]⟩
  · intro k hk e he
    rcases (h.mem e).mp he with rfl | rfl | rfl | ⟨ip, -, rfl⟩ <;>
      simp [Entry.nameFor, Entry.names, Ne.symm hk]

theorem TellsOf.srvOf (h : TellsOf inner K N L port H strings ips es) :
    es.reverse.findSome? (·.srvOf K) = some (port, H) := by
  refine findSome?_of_all ?_ ⟨_, List.mem_reverse.mpr ((h.mem _).mpr (.inr (.inl rfl))),
    by simp [Entry.srvOf]⟩
  intro e he v hv
  rcases (h.mem e).mp (List.mem_reverse.mp he) with rfl | rfl | rfl | ⟨ip, -, rfl⟩ <;>
    simp [Entry.srvOf] at hv
  exact hv.symm

/-- A field is the value of the one string with its key. -/
theorem TellsOf.txtOf (h : TellsOf inner K N L port H strings ips es) {key value : String}
    (hall : ∀ text ∈ strings, ∀ v, txtValue key text = some v → v = value)
    (hsome : ∃ text ∈ strings, txtValue key text = some value) :
    (es.flatMap (·.txtOf K)).reverse.findSome? (txtValue key) = some value := by
  obtain ⟨text, htext, hv⟩ := hsome
  have hmem : ∀ text, text ∈ (es.flatMap (·.txtOf K)).reverse ↔ text ∈ strings := by
    intro text
    rw [List.mem_reverse, List.mem_flatMap]
    constructor
    · rintro ⟨e, he, ht⟩
      rcases (h.mem e).mp he with rfl | rfl | rfl | ⟨ip, -, rfl⟩ <;> simp [Entry.txtOf] at ht
      exact ht
    · intro ht
      exact ⟨_, (h.mem _).mpr (.inr (.inr (.inl rfl))), by simpa [Entry.txtOf] using ht⟩
  exact findSome?_of_all (fun t ht => hall t ((hmem t).mp ht)) ⟨text, (hmem text).mpr htext, hv⟩

theorem TellsOf.grouped (h : TellsOf inner K N L port H strings ips es) (hips : ips ≠ []) :
    (grouped Entry.a? es).1 = {L} ∧ (grouped Entry.a? es).2 L = ips.toFinset ∧
      (Mdns.grouped Entry.aaaa? es).1 = ∅ := by
  refine ⟨?_, ?_, ?_⟩
  · ext host
    rw [mem_hosts_grouped, Finset.mem_singleton]
    constructor
    · rintro ⟨e, he, ip, hip⟩
      rcases (h.mem e).mp he with rfl | rfl | rfl | ⟨ip', -, rfl⟩ <;> simp [Entry.a?] at hip
      exact hip.1.symm
    · rintro rfl
      obtain ⟨ip, hip⟩ := List.exists_mem_of_ne_nil _ hips
      exact ⟨_, (h.mem _).mpr (.inr (.inr (.inr ⟨ip, hip, rfl⟩))), ip, rfl⟩
  · ext ip
    rw [mem_ips_grouped, List.mem_toFinset]
    constructor
    · rintro ⟨e, he, hip⟩
      rcases (h.mem e).mp he with rfl | rfl | rfl | ⟨ip', hip', rfl⟩ <;> simp [Entry.a?] at hip
      rwa [← hip]
    · intro hip
      exact ⟨_, (h.mem _).mpr (.inr (.inr (.inr ⟨ip, hip, rfl⟩))), rfl⟩
  · ext host
    rw [mem_hosts_grouped]
    refine iff_of_false ?_ (Finset.notMem_empty _)
    rintro ⟨e, he, ip, hip⟩
    rcases (h.mem e).mp he with rfl | rfl | rfl | ⟨ip', -, rfl⟩ <;> simp [Entry.aaaa?] at hip

theorem TellsOf.hostAfter (h : TellsOf inner K N L port H strings ips es)
    (hl : L = inner.toLowercase H) :
    hostAfter inner (fun _ => none) es L = if H = "" then none else some K := by
  rw [Mdns.hostAfter, Option.or_none]
  split
  · next hempty =>
    refine List.findSome?_eq_none_iff.mpr ?_
    intro e he
    rcases (h.mem e).mp (List.mem_reverse.mp he) with rfl | rfl | rfl | ⟨ip, -, rfl⟩ <;>
      simp [Entry.mapsTo, hempty]
  · next hne =>
    refine findSome?_of_all ?_ ⟨_, List.mem_reverse.mpr ((h.mem _).mpr (.inr (.inl rfl))),
      by simp [Entry.mapsTo, hne, hl]⟩
    intro e he v hv
    rcases (h.mem e).mp (List.mem_reverse.mp he) with rfl | rfl | rfl | ⟨ip, -, rfl⟩ <;>
      simp [Entry.mapsTo] at hv
    exact hv.2.symm

/-- The keys and values of the TXT strings of a service. -/
def txtPairs (id deviceType version platform : String) : List (String × String) :=
  [("id", id), ("dv", deviceType), ("ver", version), ("pf", platform), ("aw", "0"), ("ar", "0")]

theorem txtRecords_eq :
    (buildServiceInfo name hostname port id deviceType version platform ips).txtRecords =
      (txtPairs id deviceType version platform).map fun pair => pair.1 ++ "=" ++ pair.2 := by
  have hid : "id=" = "id" ++ "=" := by decide
  have hdv : "dv=" = "dv" ++ "=" := by decide
  have hver : "ver=" = "ver" ++ "=" := by decide
  have hpf : "pf=" = "pf" ++ "=" := by decide
  have haw : "aw=0" = "aw" ++ "=" ++ "0" := by decide
  have har : "ar=0" = "ar" ++ "=" ++ "0" := by decide
  rw [buildServiceInfo, hid, hdv, hver, hpf, haw, har]
  rfl

/-- Each field is read from its own string. -/
theorem TellsOf.txtValue (h : TellsOf inner K N L port H
      (buildServiceInfo name hostname port id deviceType version platform ips).txtRecords ips es)
    {key value : String} (hpair : (key, value) ∈ txtPairs id deviceType version platform) :
    (es.flatMap (·.txtOf K)).reverse.findSome? (txtValue key) = some value := by
  have hkeys : ∀ pair ∈ txtPairs id deviceType version platform, pair.1 ≠ "" ∧
      '=' ∉ pair.1.toList ∧ (pair.1 = key → pair.2 = value) := by
    simp only [txtPairs, List.mem_cons, Prod.mk.injEq, List.not_mem_nil, or_false] at hpair
    intro pair hin
    simp only [txtPairs, List.mem_cons, List.not_mem_nil, or_false] at hin
    rcases hin with rfl | rfl | rfl | rfl | rfl | rfl <;>
      rcases hpair with ⟨rfl, rfl⟩ | ⟨rfl, rfl⟩ | ⟨rfl, rfl⟩ | ⟨rfl, rfl⟩ | ⟨rfl, rfl⟩ | ⟨rfl, rfl⟩ <;>
      simp
  refine h.txtOf ?_ ?_
  · intro text htext v hv
    rw [txtRecords_eq] at htext
    obtain ⟨pair, hin, rfl⟩ := List.mem_map.mp htext
    obtain ⟨hne, heq, hvalue⟩ := hkeys pair hin
    rw [txtValue_append hne heq] at hv
    split at hv
    · next hk => rw [← Option.some.inj hv, hvalue hk]
    · cases hv
  · refine ⟨key ++ "=" ++ value, ?_, ?_⟩
    · rw [txtRecords_eq]
      exact List.mem_map.mpr ⟨(key, value), hpair, rfl⟩
    · obtain ⟨hne, heq, -⟩ := hkeys _ hpair
      rw [txtValue_append hne heq, if_pos rfl]

/-- In an empty state just the instances that the entries name are touched. -/
theorem touched_default (ho : IsOrder inner.order) :
    k ∈ (merged inner .default ∅ es).touched ↔ ∃ e ∈ es, (e.nameFor k).isSome := by
  have htouched : k ∈ (merged (inner.reordered inner.order) .default ∅ es).touched ↔ _ :=
    touched_merged ho
  refine htouched.trans (or_iff_left_of_imp ?_)
  rintro ⟨hsome, -⟩
  rw [withdraw_empty, instanceAfter, Option.isSome_map] at hsome
  have hnone : BrowserState.default.instances k = none := rfl
  rw [hnone, Option.none_or, Option.isSome_map] at hsome
  exact List.findSome?_isSome_iff.mp hsome

theorem order_singleton (ho : IsOrder inner.order) (k : String) : inner.order {k} = [k] := by
  obtain ⟨hnodup, hmem⟩ := ho {k}
  refine List.perm_singleton.mp ?_
  refine (List.perm_ext_iff_of_nodup hnodup (List.nodup_singleton k)).mpr ?_
  intro x
  rw [hmem, Finset.mem_singleton, List.mem_singleton]

theorem order_empty (ho : IsOrder inner.order) : inner.order ∅ = [] := by
  refine List.eq_nil_iff_forall_not_mem.mpr ?_
  intro x hx
  exact Finset.notMem_empty x (((ho ∅).2 x).mp hx)

/-- The addresses of the hostname go to the instance, unless the hostname is empty. -/
theorem TellsOf.lastHost (h : TellsOf inner K N L port H strings ips es) (hips : ips ≠ [])
    (hl : L = inner.toLowercase H) (ho : IsOrder inner.order) :
    (lastHost (Mdns.hostAfter inner (fun _ => none) es)
      (inner.order (Mdns.grouped Entry.a? es).1) K).elim ∅ (Mdns.grouped Entry.a? es).2 =
        if H = "" then ∅ else ips.toFinset := by
  obtain ⟨hhosts, hset, -⟩ := h.grouped hips
  rw [hhosts, order_singleton ho, Mdns.lastHost, List.reverse_singleton]
  split
  · next hempty =>
    rw [List.find?_cons_of_neg, List.find?_nil]
    · rfl
    · rw [h.hostAfter hl, if_pos hempty]
      simp
  · next hne =>
    rw [List.find?_cons_of_pos]
    · exact hset
    · rw [h.hostAfter hl, if_neg hne]
      simp

/-- The instance that a first packet of a published service leaves. -/
theorem TellsOf.instance (ho : IsOrder inner.order) (hips : ips ≠ [])
    (hl : L = inner.toLowercase H)
    (h : TellsOf inner K N L port H
      (buildServiceInfo name hostname port id deviceType version platform ips).txtRecords ips es) :
    ∃ i, (merged inner .default ∅ es).state.instances K = some i ∧ i.instanceName = N ∧
      i.port = port ∧ i.id = id ∧ i.deviceType = deviceType ∧ i.version = version ∧
      i.platform = platform ∧ (i.ips = if H = "" then ∅ else ips.toFinset) ∧ i.addrsV6 = ∅ := by
  have hknown : ((BrowserState.default.withdraw ∅).instances K).or
      ((es.findSome? (·.nameFor K)).map (.new K)) = some (.new K N) := by
    rw [withdraw_empty, h.nameFor.1]
    rfl
  have hmerged := @instances_merged_eq inner es K BrowserState.default ∅
  rw [hknown, withdraw_empty] at hmerged
  have hin : ∀ key value, (key, value) ∈ txtPairs id deviceType version platform →
      (es.flatMap (·.txtOf K)).reverse.findSome? (Mdns.txtValue key) = some value :=
    fun _ _ hpair => h.txtValue hpair
  refine ⟨_, hmerged, ?_, ?_, ?_, ?_, ?_, ?_, ?_, ?_⟩
  · exact told_rest (f := (·.instanceName)) (fun _ _ _ => rfl) fun _ _ _ _ _ _ => rfl
  · have htold := @srv_told es K (Instance.new K N)
    rw [h.srvOf] at htold
    exact congrArg Prod.fst htold
  · have htold := @told_read es K (Instance.new K N) (·.id) "id" (fun i e => (txtField_fields i e).1)
      fun _ _ _ _ => rfl
    rwa [hin "id" id (by simp [txtPairs])] at htold
  · have htold := @told_read es K (Instance.new K N) (·.deviceType) "dv"
      (fun i e => (txtField_fields i e).2.1) fun _ _ _ _ => rfl
    rwa [hin "dv" deviceType (by simp [txtPairs])] at htold
  · have htold := @told_read es K (Instance.new K N) (·.version) "ver"
      (fun i e => (txtField_fields i e).2.2.1) fun _ _ _ _ => rfl
    rwa [hin "ver" version (by simp [txtPairs])] at htold
  · have htold := @told_read es K (Instance.new K N) (·.platform) "pf"
      (fun i e => (txtField_fields i e).2.2.2) fun _ _ _ _ => rfl
    rwa [hin "pf" platform (by simp [txtPairs])] at htold
  · exact h.lastHost hips hl ho
  · obtain ⟨-, -, hnone⟩ := h.grouped hips
    simp only
    rw [hnone, order_empty ho]
    rfl

/-- The device that a service is reported as, if it is. -/
def announced (inner : Inner) (name hostname : String) (port : UInt16)
    (id deviceType version platform : String) (ips : List String) : Option FoundDevice :=
  if splitLabels name ≠ [] ∧ splitLabels hostname ≠ [] ∧ id ≠ "" ∧ id ≠ inner.clientId ∧
      0 < port then
    some ⟨id, readBack name, ips.toFinset.sort, [], port, deviceType, version, platform⟩
  else none

/-- A named service names one instance. -/
theorem tellsOf_published (hkeeps : KeepsServiceType inner.toLowercase)
    (hname : splitLabels name ≠ [])
    (hs : s = buildServiceInfo name hostname port id deviceType version platform ips)
    (hes : ∀ e, e ∈ es ↔ s.Tells inner e) :
    TellsOf inner (inner.toLowercase (readBack name ++ "." ++ plainappServiceType)) (readBack name)
      (inner.toLowercase (readBack hostname)) port (readBack hostname) s.txtRecords ips es := by
  have hentry : ∀ f, namedEntry inner (readBack s.instanceFqdn) f =
      f (inner.toLowercase (readBack name ++ "." ++ plainappServiceType)) (readBack name) := by
    intro f
    rw [hs]
    exact namedEntry_fqdn hkeeps hname
  have hport : s.port = port := by rw [hs]; rfl
  have htarget : s.targetHostname = hostname := by rw [hs]; rfl
  have hsips : s.ips = ips := by rw [hs]; rfl
  refine ⟨fun e => (hes e).trans ⟨?_, ?_⟩⟩
  · intro he
    cases he with
    | ptr => exact .inl (hentry _)
    | srv => exact .inr (.inl ((hentry _).trans (by rw [hport, htarget])))
    | txt => exact .inr (.inr (.inl (hentry _)))
    | a hip => exact .inr (.inr (.inr ⟨_, hsips ▸ hip, by rw [htarget]⟩))
  · rintro (rfl | rfl | rfl | ⟨ip, hip, rfl⟩)
    · rw [← hentry .ptr]
      exact .ptr
    · rw [← hentry (.srv · · port (readBack hostname)), ← hport, ← htarget]
      exact .srv
    · rw [← hentry (.txt · · s.txtRecords)]
      exact .txt
    · rw [← htarget]
      exact .a (hsips ▸ hip)

/-- A service without a name tells of no instance. -/
theorem touched_nameless (ho : IsOrder inner.order) (hname : splitLabels name = [])
    (hs : s = buildServiceInfo name hostname port id deviceType version platform ips)
    (hes : ∀ e, e ∈ es ↔ s.Tells inner e) : (merged inner .default ∅ es).touched = ∅ := by
  have hentry : ∀ f, namedEntry inner (readBack s.instanceFqdn) f = .other := by
    intro f
    rw [hs]
    exact namedEntry_fqdn_nil hname
  refine Finset.eq_empty_iff_forall_notMem.mpr ?_
  intro k hk
  obtain ⟨e, he, hnamed⟩ := (touched_default ho).mp hk
  cases (hes e).mp he with
  | ptr =>
    rw [hentry] at hnamed
    cases hnamed
  | srv =>
    rw [hentry] at hnamed
    cases hnamed
  | txt =>
    rw [hentry] at hnamed
    cases hnamed
  | a _ => cases hnamed

/-- What a browser in an empty state reports of the response for a service. -/
theorem found_published (ho : IsOrder inner.order) (hkeeps : KeepsServiceType inner.toLowercase)
    (hips : ips ≠ [])
    (hs : s = buildServiceInfo name hostname port id deviceType version platform ips)
    (hes : ∀ e, e ∈ es ↔ s.Tells inner e) :
    (handled inner .default ∅ es now).found =
      (announced inner name hostname port id deviceType version platform ips).toList := by
  rw [found_eq]
  by_cases hname : splitLabels name = []
  · rw [touched_nameless ho hname hs hes, order_empty ho, announced, if_neg (by simp [hname])]
    rfl
  · have htells := tellsOf_published hkeeps hname hs hes
    rw [hs] at htells
    obtain ⟨i, hi, hn, hp, hid, hdv, hver, hpf, hset, haddrs⟩ := htells.instance ho hips rfl
    have htouched : (merged inner .default ∅ es).touched =
        {inner.toLowercase (readBack name ++ "." ++ plainappServiceType)} := by
      ext k
      rw [touched_default ho, Finset.mem_singleton]
      constructor
      · rintro ⟨e, he, hnamed⟩
        by_contra hk
        rw [htells.nameFor.2 k hk e he] at hnamed
        cases hnamed
      · rintro rfl
        exact ⟨_, (htells.mem _).mpr (.inl rfl), by simp [Entry.nameFor, Entry.names]⟩
    have hreported : reported inner (merged inner .default ∅ es).state
        (inner.toLowercase (readBack name ++ "." ++ plainappServiceType)) =
          announced inner name hostname port id deviceType version platform ips := by
      rw [reported, hi, Option.bind_some, announced, Instance.complete, foundDevice, hn, hp, hid,
        hdv, hver, hpf, hset, haddrs]
      by_cases hhost : splitLabels hostname = []
      · simp [hhost, readBack_eq_empty]
      · rw [if_neg (mt readBack_eq_empty.mp hhost)]
        refine if_congr ?_ ?_ rfl
        · simp [hhost, hname, hips]
          tauto
        · simp
    rw [htouched, order_singleton ho, List.filterMap_cons, hreported]
    cases announced inner name hostname port id deviceType version platform ips <;> rfl

/-- Some question asks for the PTR record of the service type. -/
def AsksForType (questions : List MdnsQuestion) : Prop :=
  ∃ q ∈ questions, q.qclass = dnsClassIn ∧ q.qtype = typePtr ∧
    eqIgnoreAsciiCase q.name plainappServiceType = true

theorem wanted_ptr {questions : List MdnsQuestion} (htype : s.serviceType = plainappServiceType)
    (h : AsksForType questions) : (wanted s questions).ptr = true := by
  have hkeep : ∀ (w : Wanted) q, w.ptr = true → (wantedBy s w q).ptr = true := by
    intro w q hw
    unfold wantedBy
    split
    · exact hw
    · dsimp only
      split
      · rfl
      · split
        · exact hw
        · split
          · exact hw
          · split
            · exact hw
            · split
              · simp [hw]
              · exact hw
  have hloop : ∀ (qs : List MdnsQuestion) (w : Wanted), w.ptr = true →
      (qs.foldl (wantedBy s) w).ptr = true := by
    intro qs
    induction qs with
    | nil => exact fun w hw => hw
    | cons q qs ih => exact fun w hw => ih _ (hkeep w q hw)
  obtain ⟨q, hq, hclass, hqtype, hname⟩ := h
  obtain ⟨before, after, rfl⟩ := List.append_of_mem hq
  rw [wanted, List.foldl_append, List.foldl_cons]
  apply hloop
  rw [wantedBy, if_neg (not_not_intro hclass), htype]
  simp [hqtype, hname]

/-- The response to a PTR query is made and handled, and what it tells is reported. -/
theorem found_of_query {query : Bytes} {questions : List MdnsQuestion} {sender : String}
    (ho : IsOrder inner.order) (hkeeps : KeepsServiceType inner.toLowercase)
    (hremote : inner.isLocalIp sender = false) (hips : ips ≠ [])
    (hs : s = buildServiceInfo name hostname port id deviceType version platform ips)
    (hquery : readQuestions query = .ok (some questions)) (hasks : AsksForType questions)
    (hsend : s.Sendable (wanted s questions)) :
    ∃ packet out, buildResponseIfMatch s query = .ok (some packet) ∧
      handlePacket inner .default packet sender now = .ok out ∧
      out.found = (announced inner name hostname port id deviceType version platform ips).toList := by
  have htype : s.serviceType = plainappServiceType := by rw [hs]; rfl
  have htxt : s.txtRecords.length ≤ 6 := by rw [hs]; exact le_rfl
  have hsips : s.ips ≠ [] := by rw [hs]; exact hips
  obtain ⟨ms, hresponse, hms⟩ := @response_published inner s _ htype htxt hsend sender hremote
  obtain ⟨httl, hcut⟩ := @harmless_records inner s _ htype hsend ms hms
  have hkeys : goodbyeKeys inner ms = ∅ := by
    have hnone : ms.filterMap (withdrawn inner) = [] :=
      List.filterMap_eq_nil_iff.mpr fun m hm => if_pos (httl m hm)
    rw [goodbyeKeys, hnone]
    rfl
  have hok : Ok (handleRecords inner .default ms now) :=
    (handleRecords_ok_iff (fits_of_response hresponse)).mpr fun m hm _ => hcut m hm
  obtain ⟨out, hout⟩ := hok
  refine ⟨_, out, buildResponseIfMatch_eq hsips hquery (wanted_ptr htype hasks), ?_, ?_⟩
  · rw [handlePacket_response, hresponse]
    exact hout
  · rw [handleRecords_eq hout, hkeys]
    have hlive : (liveRecords ∅ ms).map (entryOf inner) = ms.map (entryOf inner) := by
      rw [liveRecords, if_pos rfl]
    rw [hlive]
    exact found_published ho hkeeps hips hs (mem_entries htype hsend hms)

/-- Just a name without empty labels is read back as it is. -/
theorem readBack_eq_self_iff : splitLabels name ≠ [] ∧ readBack name = name ↔
    ∀ label ∈ name.toList.splitOn '.', label ≠ [] := by
  have hlist : (splitLabels name).map String.toList =
      (name.toList.splitOn '.').filter (· ≠ []) := by
    rw [splitLabels, List.map_map]
    simp [Function.comp_def]
  have hback : (readBack name).toList =
      ['.'].intercalate ((name.toList.splitOn '.').filter (· ≠ [])) := by
    have hdot : ".".toList = ['.'] := by decide
    rw [readBack, String.toList_intercalate, hdot, hlist]
  constructor
  · rintro ⟨hne, hsame⟩
    rw [hsame] at hback
    have hsplit : name.toList.splitOn '.' = (name.toList.splitOn '.').filter (· ≠ []) := by
      conv_lhs => rw [hback]
      refine List.splitOn_intercalate '.' ?_ ?_
      · intro label hl
        exact Components.not_mem_of_mem_splitOn (List.mem_filter.mp hl).1
      · rw [← hlist]
        simpa using hne
    intro label hl
    rw [hsplit] at hl
    simpa using (List.mem_filter.mp hl).2
  · intro hall
    have hfilter : (name.toList.splitOn '.').filter (· ≠ []) = name.toList.splitOn '.' :=
      List.filter_eq_self.mpr fun label hl => decide_eq_true (hall label hl)
    refine ⟨?_, ?_⟩
    · intro hnil
      rw [hnil, List.map_nil, hfilter] at hlist
      exact List.splitOn_ne_nil '.' name.toList hlist.symm
    · refine String.toList_inj.mp ?_
      rw [hback, hfilter, List.intercalate_splitOn]

def publishedDevice (name : String) (port : UInt16) (id deviceType version platform : String)
    (ips : List String) : FoundDevice :=
  ⟨id, name, ips.toFinset.sort, [], port, deviceType, version, platform⟩

deriving instance DecidableEq for MdnsQuestion

/-- The query that a browser sends asks for the type, and nothing else. -/
theorem readQuestions_ptrQuery : readQuestions (buildPtrQuery plainappServiceType) =
    .ok (some [⟨plainappServiceType, typePtr, dnsClassIn, false⟩]) := by
  decide +kernel

theorem asksForType_ptrQuery : AsksForType [⟨plainappServiceType, typePtr, dnsClassIn, false⟩] :=
  ⟨_, List.mem_singleton_self _, rfl, rfl, by decide +kernel⟩

theorem keepsServiceType_toLower : KeepsServiceType String.toLower := by
  intro name
  rw [String.toLower, String.toLower, String.toList_map, String.toList_map, String.toList_append,
    List.map_append]
  exact List.suffix_append _ _

def pixel (port : UInt16) : MdnsServiceInfo :=
  buildServiceInfo "Pixel" "pixel.local" port "abc" "PHONE" "1.0" "android" ["10.0.0.7"]

theorem sendable_pixel (port : UInt16) : (pixel port).Sendable ⟨true, false, false, false⟩ := by
  have hname : ∀ label ∈ splitLabels "Pixel", (Text.bytes label).length ≤ 191 := by decide +kernel
  have hhost : ∀ label ∈ splitLabels "pixel.local", (Text.bytes label).length ≤ 191 := by
    decide +kernel
  have htxt : ∀ text ∈ (pixel 0).txtRecords, (Text.bytes text).length ≤ 255 := by decide +kernel
  have hptr : (pixel 0).ptr.rdata.length ≤ 65535 := by decide +kernel
  have hsrv : (encodeName "pixel.local").length ≤ 65529 := by decide +kernel
  have hcounts : (1 : ℕ) ≤ 65535 ∧ 3 ≤ 65535 := by omega
  refine ⟨hname, hhost, htxt, ?_, hptr, ?_, hcounts⟩
  · intro ip hip
    obtain rfl := List.mem_singleton.mp hip
    exact ⟨10, 0, 0, 7, by decide +kernel⟩
  · change (writeU16 0 ++ writeU16 0 ++ writeU16 port ++ encodeName "pixel.local").length ≤ 65535
    simp only [List.length_append, length_writeU16]
    omega

end PlainRs.Mdns
