import PlainRs.Mdns.Discovery
import PlainRs.Mdns.HostResponder

/-! A published service that is replaced, as a browser on the link hears of it. -/
namespace PlainRs.Mdns

open Checked

/-- The key under which a browser keeps the instance of a service. -/
def keyOf (inner : Inner) (s : MdnsServiceInfo) : String :=
  inner.toLowercase (readBack s.instanceName ++ "." ++ plainappServiceType)

/-- The query of an announcement wants the PTR record. -/
def announced₀ : Wanted := ⟨true, false, false, false⟩

/-- A PlainApp service with a name and a hostname, sent within the limits of the wire format. -/
structure Announceable (s : MdnsServiceInfo) (ip : String) : Prop where
  serviceType : s.serviceType = plainappServiceType
  name : splitLabels s.instanceName ≠ []
  hostname : splitLabels s.targetHostname ≠ []
  txt : s.txtRecords.length ≤ 6
  sendable : (s.withIps [ip]).Sendable announced₀

/-- What a browser is left with after some packets, each heard at its own time. -/
def hears (inner : Inner) (sender : String) (state : BrowserState) (heard : List (Bytes × Nat)) :
    Checked BrowserState :=
  heard.foldlM (fun state packet => do
    let out ← handlePacket inner state packet.1 sender packet.2
    pure out.state) state

/-- What goes out on the link of an interface. -/
def onLink (ip : String) (sent : Sent) : List Bytes := (sent.filter (·.1 = ip)).map Prod.snd

variable {inner : Inner} {s old : MdnsServiceInfo} {es : List Entry} {now : Nat} {ip sender k : String}
  {state state' : BrowserState} {ms : List MdnsRecord}

theorem hears_cons_of_ok {packet : Bytes} {out : Handled} {heard : List (Bytes × Nat)}
    (h : handlePacket inner state packet sender now = .ok out) :
    hears inner sender state ((packet, now) :: heard) = hears inner sender out.state heard := by
  rw [hears, List.foldlM_cons, h]
  rfl

theorem hears_append_of_ok {heard heard' : List (Bytes × Nat)}
    (h : hears inner sender state heard = .ok state') :
    hears inner sender state (heard ++ heard') = hears inner sender state' heard' := by
  rw [hears, List.foldlM_append, ← hears, h]
  rfl

theorem onLink_append (ip : String) (sent sent' : Sent) :
    onLink ip (sent ++ sent') = onLink ip sent ++ onLink ip sent' := by
  rw [onLink, List.filter_append, List.map_append, onLink, onLink]

section Goodbye

/-- The records of a goodbye. -/
def goodbyeRecords (s : MdnsServiceInfo) : List WireRecord :=
  [{ s.ptr with ttl := 0 }, { s.srv with ttl := 0 }, { s.txt with ttl := 0 }]

theorem buildGoodbye_eq (s : MdnsServiceInfo) : buildGoodbye s =
    writeHeader (goodbyeRecords s).length 0 ++ (goodbyeRecords s).flatMap WireRecord.bytes := by
  simp only [buildGoodbye, goodbyeRecords, List.flatMap_cons, List.flatMap_nil, List.append_nil,
    List.append_assoc]
  rfl

theorem Announceable.fits (h : Announceable s ip) : ∀ r ∈ goodbyeRecords s, r.Fits := by
  have hall := fits_of_sendable (s := s.withIps [ip]) h.serviceType h.txt h.sendable
  intro r hr
  simp only [goodbyeRecords, List.mem_cons, List.not_mem_nil, or_false] at hr
  rcases hr with rfl | rfl | rfl
  · exact hall (s.withIps [ip]).ptr (mem_records.mpr (.inl rfl))
  · exact hall (s.withIps [ip]).srv (mem_records.mpr (.inr (.inl rfl)))
  · exact hall (s.withIps [ip]).txt (mem_records.mpr (.inr (.inr (.inl rfl))))

/-- A response of answers only is read as they are. -/
theorem parseResponse_wire {rs : List WireRecord} (hfits : ∀ r ∈ rs, r.Fits)
    (hcount : rs.length ≤ 65535) :
    ∃ ms, parseResponse (writeHeader rs.length 0 ++ rs.flatMap WireRecord.bytes) =
        .ok (some ⟨dnsResponseFlags, ms, []⟩) ∧
      List.Forall₂ WireRecord.ReadAs rs ms := by
  generalize hdata : writeHeader rs.length 0 ++ rs.flatMap WireRecord.bytes = data
  have hheader : At data 0 (writeHeader rs.length 0) :=
    ⟨[], rs.flatMap WireRecord.bytes, hdata.symm, rfl⟩
  have hlen : (writeHeader rs.length 0).length = 12 := rfl
  have hrecords : At data 12 (rs.flatMap WireRecord.bytes ++ []) := by
    rw [← hlen, ← hdata, List.append_nil]
    exact .of_append
  obtain ⟨answers, hanswers, hread⟩ := readRecords_wire hfits hrecords.left
  have hadditional : ∀ j, readRecords data 0 j = .ok (some ([], j)) := fun _ => rfl
  exact ⟨answers, parseResponse_sections hcount (by decide) hheader hanswers (hadditional _), hread⟩

theorem isResponse_flags (ms : List MdnsRecord) :
    MdnsParsedResponse.isResponse ⟨dnsResponseFlags, ms, []⟩ = true := by
  have hbit : dnsResponseFlags &&& 0x8000 ≠ 0 := by decide
  exact decide_eq_true hbit

theorem response_goodbye (h : Announceable s ip) (hremote : inner.isLocalIp sender = false) :
    ∃ ms, response inner (buildGoodbye s) sender = some ms ∧
      List.Forall₂ WireRecord.ReadAs (goodbyeRecords s) ms := by
  obtain ⟨ms, hparsed, hread⟩ := parseResponse_wire h.fits (by decide : 3 ≤ 65535)
  refine ⟨ms ++ [], ?_, by rwa [List.append_nil]⟩
  rw [buildGoodbye_eq, response, if_neg (by simp [hremote]), hparsed]
  exact if_pos (isResponse_flags ms)

theorem readBack_instanceFqdn (h : Announceable s ip) : readBack s.instanceFqdn =
    readBack s.instanceName ++ "." ++ plainappServiceType := by
  rw [MdnsServiceInfo.instanceFqdn, h.serviceType, readBack_fqdn h.name]

theorem instanceKeyOf_instanceFqdn (hkeeps : KeepsServiceType inner.toLowercase)
    (h : Announceable s ip) : instanceKeyOf inner (readBack s.instanceFqdn) = some (keyOf inner s) := by
  have hne : (readBack s.instanceName).utf8ByteSize ≠ 0 := by
    rw [Ne, String.utf8ByteSize_eq_zero_iff, readBack_eq_empty]
    exact h.name
  rw [readBack_instanceFqdn h, instanceKeyOf, List.isSuffixOf_iff_suffix.mpr (hkeeps _),
    instanceNameLen_fqdn, if_neg (by simp), if_neg hne, keyOf]

/-- Each record of a goodbye withdraws the instance. -/
theorem withdrawn_goodbye (hkeeps : KeepsServiceType inner.toLowercase) (h : Announceable s ip)
    (hms : List.Forall₂ WireRecord.ReadAs (goodbyeRecords s) ms) :
    ∀ m ∈ ms, m.ttl = 0 ∧ withdrawn inner m = some (keyOf inner s) := by
  obtain ⟨-, hread⟩ := mem_pairs hms
  have hkey := instanceKeyOf_instanceFqdn hkeeps h
  have hfqdn := fqdn_fits (s := s.withIps [ip]) h.serviceType h.sendable
  intro m hm
  obtain ⟨r, hr, hone⟩ := hread m hm
  simp only [goodbyeRecords, List.mem_cons, List.not_mem_nil, or_false] at hr
  rcases hr with rfl | rfl | rfl
  · have httl : m.ttl = 0 := hone.ttl
    have ht : m.recordType = typePtr := hone.recordType
    refine ⟨httl, ?_⟩
    rw [withdrawn, if_neg (by simp [httl]), goodbyeFqdn, if_pos ht,
      ptrTarget_read hone rfl rfl hfqdn]
    exact hkey
  · have httl : m.ttl = 0 := hone.ttl
    have ht : m.recordType = typeSrv := hone.recordType
    have hp : m.recordType ≠ typePtr := by rw [ht]; decide
    refine ⟨httl, ?_⟩
    rw [withdrawn, if_neg (by simp [httl]), goodbyeFqdn, if_neg hp, if_pos (.inl ht), hone.name]
    exact hkey
  · have httl : m.ttl = 0 := hone.ttl
    have ht : m.recordType = typeTxt := hone.recordType
    have hp : m.recordType ≠ typePtr := by rw [ht]; decide
    refine ⟨httl, ?_⟩
    rw [withdrawn, if_neg (by simp [httl]), goodbyeFqdn, if_neg hp, if_pos (.inr ht), hone.name]
    exact hkey

/-- A goodbye takes the instance of its service out of a browser's state, with the hostnames that led
to it and the times of the queries about it, and does nothing else. -/
theorem goodbye_withdraws (ho : IsOrder inner.order) (hkeeps : KeepsServiceType inner.toLowercase)
    (hremote : inner.isLocalIp sender = false) (h : Announceable s ip) (state : BrowserState)
    (now : Nat) :
    handlePacket inner state (buildGoodbye s) sender now = .ok
      ⟨(state.withdraw {keyOf inner s}).forgetQueries {keyOf inner s}, [], []⟩ := by
  obtain ⟨ms, hresponse, hms⟩ := response_goodbye h hremote
  have hall := withdrawn_goodbye hkeeps h hms
  have hkeys : goodbyeKeys inner ms = {keyOf inner s} := by
    ext k
    rw [goodbyeKeys, List.mem_toFinset, List.mem_filterMap, Finset.mem_singleton]
    constructor
    · rintro ⟨m, hm, hk⟩
      rw [(hall m hm).2] at hk
      exact (Option.some.inj hk).symm
    · rintro rfl
      obtain ⟨m, hm, -⟩ := (mem_pairs hms).1 { s.ptr with ttl := 0 } List.mem_cons_self
      exact ⟨m, hm, (hall m hm).2⟩
  have hnone : ms.filter (fun m => m.ttl ≠ 0) = [] :=
    List.filter_eq_nil_iff.mpr fun m hm => by simp [(hall m hm).1]
  have hlive : liveRecords {keyOf inner s} ms = [] := by
    rw [liveRecords, if_neg (Finset.singleton_ne_empty _), hnone]
  have hok : Ok (handleRecords inner state ms now) :=
    (handleRecords_ok_iff (fits_of_response hresponse)).mpr fun m hm httl =>
      absurd (hall m hm).1 httl
  obtain ⟨out, hout⟩ := hok
  rw [handlePacket_response, hresponse, Option.elim_some, hout, handleRecords_eq hout, hkeys, hlive]
  simp only [handled, merged, grouped, List.map_nil, List.foldl_nil, order_empty ho,
    List.filterMap_nil]

theorem announceable_pixel (port : UInt16) : Announceable (pixel port) "10.0.0.7" := by
  have hlabels : splitLabels "Pixel" ≠ [] ∧ splitLabels "pixel.local" ≠ [] := by decide +kernel
  exact ⟨rfl, hlabels.1, hlabels.2, le_rfl, sendable_pixel port⟩

/-- A browser that knows nothing stays so. -/
theorem goodbye_withdraws_pixel :
    handlePacket (demoInner.reordered sortedOrder) .default (buildGoodbye (pixel 8443)) "10.0.0.7" 0 =
      .ok ⟨(BrowserState.default.withdraw {keyOf (demoInner.reordered sortedOrder)
        (pixel 8443)}).forgetQueries {keyOf (demoInner.reordered sortedOrder) (pixel 8443)}, [], []⟩ :=
  goodbye_withdraws isOrder_sorted keepsServiceType_toLower rfl (announceable_pixel 8443) .default 0

end Goodbye

section Announcement

variable {K N H L : String} {port : UInt16} {strings ips : List String}

/-- A service with a name tells of one instance. -/
theorem tellsOf_announceable (hkeeps : KeepsServiceType inner.toLowercase) (h : Announceable s ip)
    (hes : ∀ e, e ∈ es ↔ (s.withIps [ip]).Tells inner e) :
    TellsOf inner (keyOf inner s) (readBack s.instanceName) (inner.toLowercase (readBack s.targetHostname))
      s.port (readBack s.targetHostname) s.txtRecords [ip] es := by
  have hentry : ∀ f, namedEntry inner (readBack (s.withIps [ip]).instanceFqdn) f =
      f (keyOf inner s) (readBack s.instanceName) := by
    intro f
    have hfqdn : (s.withIps [ip]).instanceFqdn = s.instanceName ++ "." ++ plainappServiceType :=
      congrArg (s.instanceName ++ "." ++ ·) h.serviceType
    rw [hfqdn]
    exact namedEntry_fqdn hkeeps h.name
  refine ⟨fun e => (hes e).trans ⟨?_, ?_⟩⟩
  · intro he
    cases he with
    | ptr => exact .inl (hentry _)
    | srv => exact .inr (.inl (hentry _))
    | txt => exact .inr (.inr (.inl (hentry _)))
    | a hip => exact .inr (.inr (.inr ⟨_, hip, rfl⟩))
  · rintro (rfl | rfl | rfl | ⟨ip', hip, rfl⟩)
    · rw [← hentry .ptr]
      exact .ptr
    · rw [← hentry (.srv · · s.port (readBack s.targetHostname))]
      exact .srv
    · rw [← hentry (.txt · · s.txtRecords)]
      exact .txt
    · exact .a hip

/-- The hostname leads to the instance from then on. -/
theorem TellsOf.hostAfter_some (h : TellsOf inner K N L port H strings ips es)
    (hl : L = inner.toLowercase H) (hne : H ≠ "") (hosts : String → Option String) :
    Mdns.hostAfter inner hosts es L = some K := by
  have hfound : es.reverse.findSome? (·.mapsTo inner L) = some K := by
    refine findSome?_of_all ?_ ⟨_, List.mem_reverse.mpr ((h.mem _).mpr (.inr (.inl rfl))),
      by simp [Entry.mapsTo, hne, hl]⟩
    intro e he v hv
    rcases (h.mem e).mp (List.mem_reverse.mp he) with rfl | rfl | rfl | ⟨ip, -, rfl⟩ <;>
      simp [Entry.mapsTo] at hv
    exact hv.2.symm
  rw [Mdns.hostAfter, hfound]
  rfl

/-- An instance that is known keeps its name, a new one gets the one it is told; it is reached where
the packet says. The other instances stay as they are. -/
theorem TellsOf.instances (ho : IsOrder inner.order) (hips : ips ≠ []) (hl : L = inner.toLowercase H)
    (hne : H ≠ "") (h : TellsOf inner K N L port H strings ips es) (state : BrowserState) :
    (∃ i, (merged inner state ∅ es).state.instances K = some i ∧
        i.instanceName = ((state.instances K).map Instance.instanceName).getD N ∧
        i.port = port ∧ i.targetHostname = H ∧ i.ips = ips.toFinset) ∧
      ∀ k, k ≠ K → (merged inner state ∅ es).state.instances k = state.instances k := by
  obtain ⟨hhosts, hset, hnone⟩ := h.grouped hips
  have hafter := h.hostAfter_some hl hne state.hostnameToInstance
  constructor
  · have hK := @instances_merged_eq inner es K state ∅
    rw [withdraw_empty, h.nameFor.1, hhosts, order_singleton ho] at hK
    obtain ⟨i₀, hi₀, hname⟩ : ∃ i₀, (state.instances K).or ((some N).map (.new K)) = some i₀ ∧
        i₀.instanceName = ((state.instances K).map Instance.instanceName).getD N := by
      cases state.instances K with
      | none => exact ⟨_, rfl, rfl⟩
      | some i => exact ⟨i, rfl, rfl⟩
    rw [hi₀] at hK
    have hsrv := @srv_told es K i₀
    rw [h.srvOf] at hsrv
    refine ⟨_, hK, ?_, ?_, ?_, ?_⟩
    · exact (told_rest (f := (·.instanceName)) (fun _ _ _ => rfl) fun _ _ _ _ _ _ => rfl).trans hname
    · exact congrArg Prod.fst hsrv
    · exact congrArg Prod.snd hsrv
    · have hlast : Mdns.lastHost (Mdns.hostAfter inner state.hostnameToInstance es) [L] K = some L := by
        rw [Mdns.lastHost, List.reverse_singleton, List.find?_cons_of_pos]
        exact decide_eq_true hafter
      simp only
      rw [hlast, Option.elim_some, hset]
  · intro k hk
    have hother := @instances_merged_eq inner es k state ∅
    have hnone' : es.findSome? (·.nameFor k) = none :=
      List.findSome?_eq_none_iff.mpr (h.nameFor.2 k hk)
    have hfold : ∀ i : Instance, es.foldl (·.told k) i = i := by
      intro i
      have hall := h.nameFor.2 k hk
      clear h hhosts hset hnone hafter hother hnone'
      induction es with
      | nil => rfl
      | cons e es ih =>
        rw [List.foldl_cons, told_of_not_named (hall e List.mem_cons_self),
          ih fun e he => hall e (List.mem_cons_of_mem _ he)]
    have hlast : Mdns.lastHost (Mdns.hostAfter inner state.hostnameToInstance es) [L] k = none := by
      rw [Mdns.lastHost, List.reverse_singleton, List.find?_cons_of_neg, List.find?_nil]
      rw [hafter]
      simpa using Ne.symm hk
    rw [withdraw_empty, hnone', hhosts, order_singleton ho, hnone, order_empty ho] at hother
    rw [hother, Option.map_none, Option.or_none]
    simp only [hfold, hlast]
    cases state.instances k <;> rfl

theorem wanted_ptrQuery (htype : s.serviceType = plainappServiceType) :
    wanted s [⟨plainappServiceType, typePtr, dnsClassIn, false⟩] = announced₀ := by
  rw [wanted, List.foldl_cons, List.foldl_nil, wantedBy, htype]
  simp [eqIgnoreAsciiCase, announced₀]

/-- The announcement of a service on an interface. -/
def announcementOf (s : MdnsServiceInfo) (ip : String) : Bytes :=
  writeHeader ((s.withIps [ip]).answers announced₀).length
      ((s.withIps [ip]).additional announced₀).length ++
    ((s.withIps [ip]).answers announced₀ ++ (s.withIps [ip]).additional announced₀).flatMap
      WireRecord.bytes

theorem announcement_eq {r : HostResponder} (hinfo : r.serviceInfo = some s)
    (htype : s.serviceType = plainappServiceType) (ip : String) :
    r.announcement ip = .ok (some (announcementOf s ip)) := by
  have hwanted := wanted_ptrQuery (s := s.withIps [ip]) htype
  have hbuilt := buildResponseIfMatch_eq (s := s.withIps [ip]) (List.cons_ne_nil _ _)
    readQuestions_ptrQuery (by rw [hwanted]; rfl)
  rw [hwanted] at hbuilt
  rw [HostResponder.announcement, hinfo]
  exact hbuilt

theorem broadcastService_eq {r : HostResponder} (hinfo : r.serviceInfo = some s)
    (htype : s.serviceType = plainappServiceType) (interfaces : List String) :
    r.broadcastService interfaces = .ok (interfaces.map fun ip => (ip, announcementOf s ip)) := by
  induction interfaces with
  | nil => rfl
  | cons ip interfaces ih =>
    rw [HostResponder.broadcastService, announcement_eq hinfo htype, ok_bind, ih]
    rfl

/-- A browser that hears the announcement of a service reaches it where the announcement says. -/
structure Shows (inner : Inner) (ip : String) (before : BrowserState) (s : MdnsServiceInfo)
    (shown : String) (state : BrowserState) : Prop where
  listed : ∃ i, state.instances (keyOf inner s) = some i ∧ i.instanceName = shown ∧
    i.port = s.port ∧ i.targetHostname = readBack s.targetHostname ∧ i.ips = {ip}
  others : ∀ k, k ≠ keyOf inner s → state.instances k = before.instances k

theorem announcement_heard (ho : IsOrder inner.order) (hkeeps : KeepsServiceType inner.toLowercase)
    (hremote : inner.isLocalIp sender = false) (h : Announceable s ip) (state : BrowserState)
    (now : Nat) :
    ∃ out, handlePacket inner state (announcementOf s ip) sender now = .ok out ∧
      Shows inner ip state s (((state.instances (keyOf inner s)).map Instance.instanceName).getD
        (readBack s.instanceName)) out.state := by
  obtain ⟨ms, hresponse, hms⟩ := @response_published inner (s.withIps [ip]) _ h.serviceType h.txt
    h.sendable sender hremote
  obtain ⟨httl, hcut⟩ := @harmless_records inner (s.withIps [ip]) _ h.serviceType h.sendable ms hms
  have hkeys : goodbyeKeys inner ms = ∅ := by
    have hnone : ms.filterMap (withdrawn inner) = [] :=
      List.filterMap_eq_nil_iff.mpr fun m hm => if_pos (httl m hm)
    rw [goodbyeKeys, hnone]
    rfl
  have hok : Ok (handleRecords inner state ms now) :=
    (handleRecords_ok_iff (fits_of_response hresponse)).mpr fun m hm _ => hcut m hm
  obtain ⟨out, hout⟩ := hok
  have hlive : (liveRecords ∅ ms).map (entryOf inner) = ms.map (entryOf inner) := by
    rw [liveRecords, if_pos rfl]
  have htells := tellsOf_announceable hkeeps h
    (mem_entries (s := s.withIps [ip]) h.serviceType h.sendable hms)
  obtain ⟨hlisted, hothers⟩ := htells.instances ho (List.cons_ne_nil _ _) rfl
    (mt readBack_eq_empty.mp h.hostname) state
  refine ⟨out, ?_, ?_⟩
  · rw [announcementOf, handlePacket_response, hresponse]
    exact hout
  · rw [handleRecords_eq hout, hkeys, hlive]
    refine ⟨?_, ?_⟩
    · rw [instances_handled]
      exact hlisted
    · rw [instances_handled]
      exact hothers

end Announcement

section AsciiCase

theorem toLower_eq_dot {c : Char} : c.toLower = '.' ↔ c = '.' := by
  refine ⟨fun h => ?_, fun h => by rw [h]; rfl⟩
  rw [Char.toLower] at h
  split at h
  · next hupper =>
    have hval : c.val + 32 = '.'.val := congrArg Char.val h
    have hlow : (65 : UInt32) ≤ c.val := hupper.1
    have hhigh : c.val ≤ (90 : UInt32) := hupper.2
    have hnat := congrArg UInt32.toNat hval
    rw [UInt32.le_iff_toNat_le] at hlow hhigh
    rw [UInt32.toNat_add] at hnat
    simp at hnat hlow hhigh
    omega
  · exact h

theorem splitOn_map_toLower (l : List Char) :
    (l.map Char.toLower).splitOn '.' = (l.splitOn '.').map (List.map Char.toLower) := by
  induction l with
  | nil => rfl
  | cons c l ih =>
    rw [List.map_cons, List.splitOn_cons_eq_if_modifyHead, List.splitOn_cons_eq_if_modifyHead, ih]
    by_cases hc : c = '.'
    · rw [if_pos (by rw [hc]; rfl), if_pos (by rw [hc]; rfl), List.map_cons, List.map_nil]
    · rw [if_neg (by simpa [toLower_eq_dot] using hc), if_neg (by simpa using hc)]
      cases hs : l.splitOn '.' with
      | nil => exact absurd hs (List.splitOn_ne_nil '.' l)
      | cons piece pieces => rfl

theorem map_intercalate_dot (ls : List (List Char)) :
    (['.'].intercalate ls).map Char.toLower = ['.'].intercalate (ls.map (List.map Char.toLower)) := by
  induction ls with
  | nil => rfl
  | cons l ls ih =>
    cases ls with
    | nil => simp
    | cons l' ls =>
      rw [List.intercalate_cons_cons, List.map_append, List.map_append, ih]
      exact List.intercalate_cons_cons.symm

theorem lower_readBack (x : String) : (readBack x).toList.map Char.toLower =
    ['.'].intercalate (((x.toList.map Char.toLower).splitOn '.').filter (· ≠ [])) := by
  have hdot : ".".toList = ['.'] := by decide
  have hlabels : (splitLabels x).map String.toList = (x.toList.splitOn '.').filter (· ≠ []) := by
    rw [splitLabels, List.map_map]
    simp [Function.comp_def]
  rw [readBack, String.toList_intercalate, hdot, hlabels, map_intercalate_dot, splitOn_map_toLower,
    List.filter_map]
  congr 2
  refine List.filter_congr fun label _ => ?_
  simp

/-- Names that differ in the case of ASCII letters are read back as names that do. -/
theorem eqIgnoreAsciiCase_readBack {a b : String} (h : eqIgnoreAsciiCase a b = true) :
    eqIgnoreAsciiCase (readBack a) (readBack b) = true := by
  rw [eqIgnoreAsciiCase, decide_eq_true_eq] at h ⊢
  rw [lower_readBack, lower_readBack, h]

end AsciiCase

section Renames

/-- Several updates, one after the other. -/
def HostResponder.updates (r : HostResponder) (interfaces : List String) :
    List MdnsServiceInfo → Checked (HostResponder × Sent)
  | [] => pure (r, [])
  | service :: services => do
    let (r, _, sent) ← r.updateService service interfaces
    let (r, rest) ← r.updates interfaces services
    pure (r, sent ++ rest)

/-- The name a browser shows after some updates: an update that changes no more of the name than the
case of ASCII letters sends no goodbye, and the name that was shown stays. -/
def shownName (shown : String) (previous : MdnsServiceInfo) : List MdnsServiceInfo → String
  | [] => shown
  | s :: services =>
    shownName (if eqIgnoreAsciiCase previous.instanceFqdn s.instanceFqdn then shown
      else readBack s.instanceName) s services

variable {r r' : HostResponder} {interfaces : List String} {first : MdnsServiceInfo}
  {services : List MdnsServiceInfo} {shown : String} {before : BrowserState} {sent : Sent}

theorem onLink_map {f : String → Bytes} (hn : interfaces.Nodup) (hip : ip ∈ interfaces) :
    onLink ip (interfaces.map fun i => (i, f i)) = [f ip] := by
  have hfilter : interfaces.filter (fun i => decide (i = ip)) = [ip] := by
    rw [List.filter_eq, List.count_eq_one_of_mem hn hip, List.replicate_one]
  rw [onLink, List.filter_map, List.map_map, Function.comp_def, Function.comp_def, hfilter]
  rfl

/-- What an update sends out on a link: a goodbye of the old name, if it is another one, and the
announcement of the new one. -/
theorem updateService_eq (hr : r.running = true) (hinfo : r.serviceInfo = some old)
    (htype : s.serviceType = plainappServiceType) (hn : interfaces.Nodup) (hip : ip ∈ interfaces) :
    ∃ sent, r.updateService s interfaces = .ok ({ r with serviceInfo := some s }, true, sent) ∧
      onLink ip sent = (if eqIgnoreAsciiCase old.instanceFqdn s.instanceFqdn then []
        else [buildGoodbye old]) ++ [announcementOf s ip] := by
  unfold HostResponder.updateService
  rw [hinfo]
  dsimp only
  rw [if_neg (by simp [hr]), broadcastService_eq rfl htype, ok_bind]
  refine ⟨_, rfl, ?_⟩
  rw [onLink_append, onLink_map hn hip]
  congr 1
  split
  · rfl
  · exact onLink_map (f := fun _ => buildGoodbye old) hn hip

/-- One update, as it is heard. -/
theorem shows_update (ho : IsOrder inner.order) (hkeeps : KeepsServiceType inner.toLowercase)
    (hascii : ∀ a b, eqIgnoreAsciiCase a b = true → inner.toLowercase a = inner.toLowercase b)
    (hremote : inner.isLocalIp sender = false) (hold : Announceable old ip) (hs : Announceable s ip)
    (hfresh : ∀ k, k = keyOf inner old ∨ k = keyOf inner s → before.instances k = none)
    (hshows : Shows inner ip before old shown state) {heard : List (Bytes × Nat)}
    (hheard : heard.map Prod.fst = (if eqIgnoreAsciiCase old.instanceFqdn s.instanceFqdn then []
      else [buildGoodbye old]) ++ [announcementOf s ip]) :
    ∃ final, hears inner sender state heard = .ok final ∧
      Shows inner ip before s (if eqIgnoreAsciiCase old.instanceFqdn s.instanceFqdn then shown
        else readBack s.instanceName) final := by
  by_cases hcase : eqIgnoreAsciiCase old.instanceFqdn s.instanceFqdn = true
  · have hkeys : keyOf inner old = keyOf inner s := by
      have hlower := hascii _ _ (eqIgnoreAsciiCase_readBack hcase)
      rwa [readBack_instanceFqdn hold, readBack_instanceFqdn hs] at hlower
    rw [if_pos hcase, List.nil_append] at hheard
    obtain ⟨⟨packet, now⟩, rest, rfl, rfl, hrest⟩ := List.map_eq_cons_iff.mp hheard
    obtain rfl := List.map_eq_nil_iff.mp hrest
    obtain ⟨out, hout, hlisted, hothers⟩ := announcement_heard ho hkeeps hremote hs state now
    obtain ⟨i, hi, hname, -⟩ := hshows.listed
    rw [hkeys] at hi
    rw [hi, Option.map_some, Option.getD_some, hname] at hlisted
    refine ⟨out.state, hears_cons_of_ok hout, ?_⟩
    rw [if_pos hcase]
    exact ⟨hlisted, fun k hk => (hothers k hk).trans (hshows.others k (hkeys ▸ hk))⟩
  · rw [if_neg hcase, List.singleton_append] at hheard
    obtain ⟨⟨packet, now⟩, rest, rfl, rfl, hrest⟩ := List.map_eq_cons_iff.mp hheard
    obtain ⟨⟨packet', now'⟩, rest', rfl, rfl, hrest'⟩ := List.map_eq_cons_iff.mp hrest
    obtain rfl := List.map_eq_nil_iff.mp hrest'
    set between := (state.withdraw {keyOf inner old}).forgetQueries {keyOf inner old} with hbetween
    have hback : ∀ k, between.instances k = before.instances k := by
      intro k
      have hk : between.instances k = if k ∈ ({keyOf inner old} : Finset String) then none
        else state.instances k := rfl
      rw [hk]
      by_cases hsame : k = keyOf inner old
      · rw [if_pos (Finset.mem_singleton.mpr hsame), hfresh k (.inl hsame)]
      · rw [if_neg (by simpa using hsame), hshows.others k hsame]
    obtain ⟨out, hout, hlisted, hothers⟩ := announcement_heard ho hkeeps hremote hs between now'
    rw [hback, hfresh _ (.inr rfl)] at hlisted
    refine ⟨out.state, ?_, ?_⟩
    · rw [hears_cons_of_ok (goodbye_withdraws ho hkeeps hremote hold state now)]
      exact hears_cons_of_ok hout
    · rw [if_neg hcase]
      exact ⟨hlisted, fun k hk => (hothers k hk).trans (hback k)⟩

/-- The updates, as they are heard. -/
theorem updates_heard (ho : IsOrder inner.order) (hkeeps : KeepsServiceType inner.toLowercase)
    (hascii : ∀ a b, eqIgnoreAsciiCase a b = true → inner.toLowercase a = inner.toLowercase b)
    (hremote : inner.isLocalIp sender = false) (hr : r.running = true)
    (hinfo : r.serviceInfo = some first) (hn : interfaces.Nodup) (hip : ip ∈ interfaces)
    (hall : ∀ s ∈ first :: services, Announceable s ip)
    (hfresh : ∀ s ∈ first :: services, before.instances (keyOf inner s) = none) :
    ∃ r' sent, r.updates interfaces services = .ok (r', sent) ∧
      ∀ state shown heard, Shows inner ip before first shown state →
        heard.map Prod.fst = onLink ip sent →
        ∃ final, hears inner sender state heard = .ok final ∧
          Shows inner ip before ((first :: services).getLast (List.cons_ne_nil _ _))
            (shownName shown first services) final := by
  induction services generalizing r first with
  | nil =>
    refine ⟨r, [], rfl, fun state shown heard hshows hheard => ?_⟩
    obtain rfl := List.map_eq_nil_iff.mp hheard
    exact ⟨state, rfl, hshows⟩
  | cons s services ih =>
    obtain ⟨hfirst, hrest⟩ := List.forall_mem_cons.mp hall
    obtain ⟨hnone, hnones⟩ := List.forall_mem_cons.mp hfresh
    have hs := hrest s List.mem_cons_self
    obtain ⟨sent, hupdate, hlink⟩ := updateService_eq hr hinfo hs.serviceType hn hip
    obtain ⟨r', rest, hrun, hheard⟩ := ih (r := { r with serviceInfo := some s }) hr rfl hrest hnones
    refine ⟨r', sent ++ rest, ?_, ?_⟩
    · rw [HostResponder.updates, hupdate, ok_bind]
      dsimp only
      rw [hrun]
      rfl
    · intro state shown heard hshows hsplit
      rw [onLink_append] at hsplit
      obtain ⟨heard₁, heard₂, rfl, hfst, hsnd⟩ := List.map_eq_append_iff.mp hsplit
      obtain ⟨between, hbetween, hshows'⟩ := shows_update ho hkeeps hascii hremote hfirst hs
        (by rintro k (rfl | rfl)
            · exact hnone
            · exact hnones s List.mem_cons_self) hshows (hfst.trans hlink)
      obtain ⟨final, hfinal, hlast⟩ := hheard between _ heard₂ hshows' hsnd
      exact ⟨final, (hears_append_of_ok hbetween).trans hfinal, hlast⟩

/-- Whatever updates follow an announcement, a browser on the link that hears all of it knows just
one instance of the device, that of the last update and reached where that says, under the name of
the last update that changed more than the case of ASCII letters; the instances of other devices stay
as they were. -/
theorem renames_followed (ho : IsOrder inner.order) (hkeeps : KeepsServiceType inner.toLowercase)
    (hascii : ∀ a b, eqIgnoreAsciiCase a b = true → inner.toLowercase a = inner.toLowercase b)
    (hremote : inner.isLocalIp sender = false) (hr : r.running = true)
    (hinfo : r.serviceInfo = some first) (hn : interfaces.Nodup) (hip : ip ∈ interfaces)
    (hall : ∀ s ∈ first :: services, Announceable s ip) (state : BrowserState)
    (hfresh : ∀ s ∈ first :: services, state.instances (keyOf inner s) = none) :
    ∃ announced r' sent, r.broadcastService interfaces = .ok announced ∧
      r.updates interfaces services = .ok (r', sent) ∧
      ∀ heard, heard.map Prod.fst = onLink ip (announced ++ sent) →
        ∃ final, hears inner sender state heard = .ok final ∧
          Shows inner ip state ((first :: services).getLast (List.cons_ne_nil _ _))
            (shownName (readBack first.instanceName) first services) final := by
  have hfirst := hall first List.mem_cons_self
  obtain ⟨r', sent, hrun, hheard⟩ := updates_heard ho hkeeps hascii hremote hr hinfo hn hip hall hfresh
  refine ⟨_, r', sent, broadcastService_eq hinfo hfirst.serviceType interfaces, hrun, ?_⟩
  intro heard hsplit
  rw [onLink_append, onLink_map hn hip, List.singleton_append] at hsplit
  obtain ⟨⟨packet, now⟩, rest, rfl, rfl, hrest⟩ := List.map_eq_cons_iff.mp hsplit
  obtain ⟨out, hout, hshows⟩ := announcement_heard ho hkeeps hremote hfirst state now
  rw [hfresh first List.mem_cons_self] at hshows
  obtain ⟨final, hfinal, hlast⟩ := hheard out.state _ rest hshows hrest
  exact ⟨final, (hears_cons_of_ok hout).trans hfinal, hlast⟩

def tablet : MdnsServiceInfo :=
  buildServiceInfo "Tablet" "pixel.local" 8443 "abc" "PHONE" "1.0" "android" ["10.0.0.7"]

theorem announceable_tablet : Announceable tablet "10.0.0.7" := by
  have hfits : (splitLabels tablet.instanceName ≠ [] ∧
      ∀ label ∈ splitLabels tablet.instanceName, (Text.bytes label).length ≤ 191) ∧
      tablet.ptr.rdata.length ≤ 65535 := by decide +kernel
  have hpixel := announceable_pixel 8443
  have hsend := hpixel.sendable
  exact ⟨rfl, hfits.1.1, hpixel.hostname, le_rfl, hfits.1.2, hsend.hostname, hsend.txt, hsend.ips,
    hfits.2, hsend.srvData, hsend.counts⟩

theorem toLower_of_eqIgnoreAsciiCase {a b : String} (h : eqIgnoreAsciiCase a b = true) :
    a.toLower = b.toLower := by
  rw [eqIgnoreAsciiCase, decide_eq_true_eq] at h
  refine String.toList_inj.mp ?_
  rw [String.toLower, String.toLower, String.toList_map, String.toList_map, h]

/-- A device that is renamed is shown under its new name. -/
theorem renames_followed_tablet : ∃ announced r' sent,
    HostResponder.broadcastService ⟨"pixel.local", some (pixel 8443), true⟩ ["10.0.0.7"] =
      .ok announced ∧
    HostResponder.updates ⟨"pixel.local", some (pixel 8443), true⟩ ["10.0.0.7"] [tablet] =
      .ok (r', sent) ∧
    ∀ heard, heard.map Prod.fst = onLink "10.0.0.7" (announced ++ sent) →
      ∃ final, hears (demoInner.reordered sortedOrder) "10.0.0.7" .default heard = .ok final ∧
        Shows (demoInner.reordered sortedOrder) "10.0.0.7" .default tablet "Tablet" final := by
  have hname : shownName (readBack (pixel 8443).instanceName) (pixel 8443) [tablet] = "Tablet" := by
    decide +kernel
  rw [← hname]
  exact renames_followed (r := ⟨"pixel.local", some (pixel 8443), true⟩) isOrder_sorted
    keepsServiceType_toLower (fun _ _ => toLower_of_eqIgnoreAsciiCase) rfl rfl rfl (List.nodup_singleton _)
    (List.mem_singleton_self _)
    (List.forall_mem_cons.mpr
      ⟨announceable_pixel 8443, List.forall_mem_singleton.mpr announceable_tablet⟩)
    .default (fun _ _ => rfl)

end Renames

end PlainRs.Mdns
