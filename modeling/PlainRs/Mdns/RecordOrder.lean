import PlainRs.Mdns.Goodbyes

/-! Whether the order of a packet's records matters. -/
namespace PlainRs.Mdns

open Checked

/-- Neither record about the same instance or the same hostname as the other of its kind. -/
structure Entry.Apart (inner : Inner) (e e' : Entry) : Prop where
  srv : ∀ k, (e.srvOf k).isSome → e'.srvOf k = none
  txt : ∀ k name name' strings strings', ¬ (e = .txt k name strings ∧ e' = .txt k name' strings')
  host : ∀ h, (e.mapsTo inner h).isSome → e'.mapsTo inner h = none

/-- What the browser does with the entries does not hang on how hash maps are ordered or which entry
names an instance first. -/
structure Plain (inner : Inner) (s : BrowserState) (es : List Entry) : Prop where
  apart : es.Pairwise (Entry.Apart inner)
  names : ∀ k, s.instances k = none → ∀ e ∈ es, ∀ e' ∈ es, ∀ name name',
    e.nameFor k = some name → e'.nameFor k = some name' → name = name'
  ips : ∀ k, ∀ h ∈ (grouped Entry.a? es).1, ∀ h' ∈ (grouped Entry.a? es).1,
    hostAfter inner s.hostnameToInstance es h = some k →
    hostAfter inner s.hostnameToInstance es h' = some k →
    (grouped Entry.a? es).2 h = (grouped Entry.a? es).2 h'
  addrsV6 : ∀ k, ∀ h ∈ (grouped Entry.aaaa? es).1, ∀ h' ∈ (grouped Entry.aaaa? es).1,
    hostAfter inner s.hostnameToInstance es h = some k →
    hostAfter inner s.hostnameToInstance es h' = some k →
    (grouped Entry.aaaa? es).2 h = (grouped Entry.aaaa? es).2 h'

variable {inner : Inner} {s : BrowserState} {e e' : Entry} {es es' : List Entry} {k h : String}
  {i : Instance} {goodbye : Finset String} {now now' : Nat} {known : Option Instance} {m : Merge}
  {hosts : String → Option String} {order order' : Finset String → List String}
  {keys : Finset String} {hs : List String}

/-- Where all that is found is the same, the order of the search is of no matter. -/
theorem findSome?_perm {α β : Type} {f : α → Option β} {l l' : List α} (hp : l.Perm l')
    (hu : ∀ a ∈ l, ∀ b ∈ l, ∀ x y, f a = some x → f b = some y → x = y) :
    l.findSome? f = l'.findSome? f := by
  cases hx : l.findSome? f with
  | none =>
    rw [List.findSome?_eq_none_iff] at hx
    exact (List.findSome?_eq_none_iff.mpr fun a ha => hx a (hp.mem_iff.mpr ha)).symm
  | some x =>
    obtain ⟨a, ha, hfa⟩ := List.exists_of_findSome?_eq_some hx
    have hsome : (l'.findSome? f).isSome = true :=
      List.findSome?_isSome_iff.mpr ⟨a, hp.mem_iff.mp ha, by rw [hfa]; rfl⟩
    obtain ⟨y, hy⟩ := Option.isSome_iff_exists.mp hsome
    obtain ⟨b, hb, hfb⟩ := List.exists_of_findSome?_eq_some hy
    rw [hy, hu a ha b (hp.mem_iff.mpr hb) x y hfa hfb]

theorem Entry.Apart.symm (h : e.Apart inner e') : e'.Apart inner e := by
  refine ⟨?_, ?_, ?_⟩
  · intro k hk
    cases he : e.srvOf k with
    | none => rfl
    | some srv =>
      have hnone := h.srv k (by rw [he]; rfl)
      rw [hnone] at hk
      cases hk
  · rintro k name name' strings strings' ⟨h', h''⟩
    exact h.txt k name' name strings' strings ⟨h'', h'⟩
  · intro host hk
    cases he : e.mapsTo inner host with
    | none => rfl
    | some key =>
      have hnone := h.host host (by rw [he]; rfl)
      rw [hnone] at hk
      cases hk

theorem apart_of_ne (h : es.Pairwise (Entry.Apart inner)) (he : e ∈ es) (he' : e' ∈ es)
    (hne : e ≠ e') : e.Apart inner e' :=
  have : Std.Symm (Entry.Apart inner) := ⟨fun _ _ => Entry.Apart.symm⟩
  h.forall he he' hne

theorem hostAfter_perm (hp : es.Perm es') (hapart : es.Pairwise (Entry.Apart inner)) :
    hostAfter inner hosts es h = hostAfter inner hosts es' h := by
  unfold hostAfter
  congr 1
  refine findSome?_perm ((es.reverse_perm.trans hp).trans es'.reverse_perm.symm) ?_
  intro a ha b hb x y hx hy
  by_cases hab : a = b
  · rw [hab, hy] at hx
    exact (Option.some.inj hx).symm
  · have hnone := (apart_of_ne hapart (List.mem_reverse.mp ha) (List.mem_reverse.mp hb) hab).host h
      (by rw [hx]; rfl)
    rw [hnone] at hy
    cases hy

theorem txtFields_srv {strings : List String} {port : UInt16} {target : String} :
    strings.foldl txtField { i with port := port, targetHostname := target } =
      { strings.foldl txtField i with port := port, targetHostname := target } := by
  have hone : ∀ (i : Instance) entry, txtField { i with port := port, targetHostname := target } entry =
      { txtField i entry with port := port, targetHostname := target } := by
    intro i entry
    rw [txtField_eq, txtField_eq]
    cases txtPair entry with
    | none => rfl
    | some pair =>
      simp only [Option.elim_some]
      split
      · rfl
      · split
        · rfl
        · split
          · rfl
          · split <;> rfl
  induction strings generalizing i with
  | nil => rfl
  | cons entry strings ih => rw [List.foldl_cons, hone, ih, List.foldl_cons]

/-- What a port record and a text record say of an instance are different things. -/
theorem told_comm (h : e.Apart inner e') : (i.told k e).told k e' = (i.told k e').told k e := by
  cases e with
  | srv key name port target =>
    cases e' with
    | srv key' name' port' target' =>
      by_cases hk : key = k
      · have hnone := h.srv k (by simp [Entry.srvOf, hk])
        have hk' : key' ≠ k := by
          intro hk'
          simp [Entry.srvOf, hk'] at hnone
        simp [Instance.told, hk']
      · simp [Instance.told, hk]
    | txt key' name' strings =>
      by_cases hk : key = k
      · by_cases hk' : key' = k
        · simp only [Instance.told, hk, hk', if_true]
          exact txtFields_srv (i := { i with txtRecords := strings })
        · simp [Instance.told, hk']
      · simp [Instance.told, hk]
    | _ => rfl
  | txt key name strings =>
    cases e' with
    | srv key' name' port' target' =>
      by_cases hk : key = k
      · by_cases hk' : key' = k
        · simp only [Instance.told, hk, hk', if_true]
          exact (txtFields_srv (i := { i with txtRecords := strings })).symm
        · simp [Instance.told, hk']
      · simp [Instance.told, hk]
    | txt key' name' strings' =>
      by_cases hk : key = k
      · have hk' : key' ≠ k := by
          rintro rfl
          exact h.txt key' name name' strings strings' ⟨by rw [hk], rfl⟩
        simp [Instance.told, hk']
      · simp [Instance.told, hk]
    | _ => rfl
  | _ => rfl

theorem told_perm (hp : es.Perm es') (hapart : es.Pairwise (Entry.Apart inner)) :
    es.foldl (·.told k) i = es'.foldl (·.told k) i := by
  refine hp.foldl_eq' ?_ i
  intro a ha b hb i
  by_cases hab : a = b
  · rw [hab]
  · exact told_comm (apart_of_ne hapart ha hb hab)

theorem grouped_perm {pick : Entry → Option (String × String)} (hp : es.Perm es') :
    grouped pick es = grouped pick es' := by
  refine Prod.ext ?_ ?_
  · ext h
    rw [mem_hosts_grouped, mem_hosts_grouped]
    simp only [hp.mem_iff]
  · funext h
    ext ip
    rw [mem_ips_grouped, mem_ips_grouped]
    simp only [hp.mem_iff]

/-- Where the hostnames of an instance carry the same addresses, it does not matter which comes
last. -/
theorem lastHost_elim {ips : String → Finset String} {start : Finset String} (ho : IsOrder order)
    (ho' : IsOrder order') (hsame : ∀ h ∈ keys, ∀ h' ∈ keys, hosts h = some k → hosts h' = some k →
      ips h = ips h') :
    (lastHost hosts (order keys) k).elim start ips = (lastHost hosts (order' keys) k).elim start ips := by
  have hmem : ∀ {o : Finset String → List String}, IsOrder o → ∀ {h},
      lastHost hosts (o keys) k = some h → h ∈ keys := by
    intro o horder h hl
    exact ((horder keys).2 h).mp (List.mem_reverse.mp (List.mem_of_find?_eq_some hl))
  cases hl : lastHost hosts (order keys) k with
  | none =>
    have hnone : lastHost hosts (order' keys) k = none := by
      unfold lastHost at hl ⊢
      rw [List.find?_eq_none] at hl ⊢
      intro h hin
      exact hl h (List.mem_reverse.mpr (((ho keys).2 h).mpr
        (((ho' keys).2 h).mp (List.mem_reverse.mp hin))))
    rw [hnone]
  | some h =>
    have hin := hmem ho hl
    have hh := hosts_of_lastHost hl
    cases hl' : lastHost hosts (order' keys) k with
    | none =>
      unfold lastHost at hl'
      rw [List.find?_eq_none] at hl'
      have hnot := hl' h (List.mem_reverse.mpr (((ho' keys).2 h).mpr hin))
      simp [hh] at hnot
    | some h' => exact hsame h hin h' (hmem ho' hl') hh (hosts_of_lastHost hl')

theorem touched_foldl : k ∈ (es.foldl (Merge.apply inner) m).touched ↔
    k ∈ m.touched ∨ ∃ e ∈ es, (e.nameFor k).isSome := by
  induction es generalizing m with
  | nil => simp
  | cons e es ih =>
    have hone : k ∈ (m.apply inner e).touched ↔ k ∈ m.touched ∨ (e.nameFor k).isSome := by
      cases e with
      | ptr key name | srv key name _ _ | txt key name _ =>
        by_cases hk : key = k
        · simp [Merge.apply, Merge.setInstance, Entry.nameFor, Entry.names, hk]
        · simp [Merge.apply, Merge.setInstance, Entry.nameFor, Entry.names, hk, Ne.symm hk]
      | _ => simp [Merge.apply, Entry.nameFor, Entry.names]
    rw [List.foldl_cons, ih, hone, List.exists_mem_cons_iff, or_assoc]

theorem touched_addresses {set : Instance → Finset String → Instance}
    {ips : String → Finset String} :
    k ∈ (hs.foldl (Merge.addresses set ips) m).touched ↔ k ∈ m.touched ∨
      (m.state.instances k).isSome ∧ ∃ h ∈ hs, m.state.hostnameToInstance h = some k := by
  induction hs generalizing m with
  | nil => simp
  | cons h hs ih =>
    have hhosts : (m.addresses set ips h).state.hostnameToInstance = m.state.hostnameToInstance :=
      @hosts_addresses _ [h] _ _
    have hsome : ((m.addresses set ips h).state.instances k).isSome =
        (m.state.instances k).isSome := by
      unfold Merge.addresses
      split
      · rfl
      · next key hkey =>
        by_cases hk : key = k
        · subst hk
          cases hi : m.state.instances key <;> simp [hi]
        · cases hi : m.state.instances key <;> simp [Ne.symm hk]
    have hone : k ∈ (m.addresses set ips h).touched ↔ k ∈ m.touched ∨
        (m.state.instances k).isSome ∧ m.state.hostnameToInstance h = some k := by
      unfold Merge.addresses
      split
      · next hnone => simp [hnone]
      · next key hkey =>
        by_cases hk : key = k
        · subst hk
          cases m.state.instances key <;> simp [hkey]
        · cases hi : m.state.instances key <;> simp [hkey, hk, Ne.symm hk]
    rw [List.foldl_cons, ih, hhosts, hsome, hone, List.exists_mem_cons_iff, or_assoc, ← and_or_left]

theorem nameFor_perm (hp : es.Perm es') (hnames : ∀ e ∈ es, ∀ e' ∈ es, ∀ name name',
    e.nameFor k = some name → e'.nameFor k = some name' → name = name') :
    es.findSome? (·.nameFor k) = es'.findSome? (·.nameFor k) :=
  findSome?_perm hp hnames

/-- The merged state does not hang on the order of the entries. -/
theorem instances_perm (hp : es.Perm es') (hplain : Plain inner (s.withdraw goodbye) es)
    (ho : IsOrder order) (ho' : IsOrder order') :
    (merged (inner.reordered order) s goodbye es).state.instances k =
      (merged (inner.reordered order') s goodbye es').state.instances k := by
  rw [instances_merged_eq, instances_merged_eq]
  have hbegin : ((s.withdraw goodbye).instances k).or ((es.findSome? (·.nameFor k)).map (.new k)) =
      ((s.withdraw goodbye).instances k).or ((es'.findSome? (·.nameFor k)).map (.new k)) := by
    cases hk : (s.withdraw goodbye).instances k with
    | some i => rfl
    | none => rw [nameFor_perm hp (hplain.names k hk)]
  have hhosts : hostAfter inner (s.withdraw goodbye).hostnameToInstance es =
      hostAfter inner (s.withdraw goodbye).hostnameToInstance es' :=
    funext fun _ => hostAfter_perm hp hplain.apart
  rw [hbegin]
  congr 1
  funext i
  have hips := @lastHost_elim _ _ _ _ _ _ i.ips ho ho' (hplain.ips k)
  have haddrs := @lastHost_elim _ _ _ _ _ _ i.addrsV6 ho ho' (hplain.addrsV6 k)
  simp only [hostAfter_reordered]
  rw [← told_perm hp hplain.apart, ← hhosts, ← @grouped_perm _ _ Entry.a? hp,
    ← @grouped_perm _ _ Entry.aaaa? hp]
  congr 1

/-- The instances touched: those named, and those with a hostname that addresses are carried for. -/
theorem touched_merged (ho : IsOrder order) :
    k ∈ (merged (inner.reordered order) s goodbye es).touched ↔ (∃ e ∈ es, (e.nameFor k).isSome) ∨
      (instanceAfter k ((s.withdraw goodbye).instances k) es).isSome ∧
        ∃ h, (h ∈ (grouped Entry.a? es).1 ∨ h ∈ (grouped Entry.aaaa? es).1) ∧
          hostAfter inner (s.withdraw goodbye).hostnameToInstance es h = some k := by
  have hhosts : (es.foldl (Merge.apply (inner.reordered order))
      ⟨s.withdraw goodbye, ∅, []⟩).state.hostnameToInstance =
        hostAfter inner (s.withdraw goodbye).hostnameToInstance es := funext fun _ => hosts_foldl
  have hips : ∀ i a b, withIps (withIps i a) b = withIps i b := fun _ _ _ => rfl
  rw [merged, touched_addresses, hosts_addresses, hhosts, instances_addresses hips,
    Option.isSome_map, touched_addresses, hhosts, instances_foldl, touched_foldl]
  have horder : ∀ {keys h}, h ∈ (inner.reordered order).order keys ↔ h ∈ keys := fun {keys h} =>
    (ho keys).2 h
  simp only [horder, Finset.notMem_empty, false_or]
  constructor
  · rintro ((hn | ⟨hi, h, hin, hh⟩) | ⟨hi, h, hin, hh⟩)
    · exact .inl hn
    · exact .inr ⟨hi, h, .inl hin, hh⟩
    · exact .inr ⟨hi, h, .inr hin, hh⟩
  · rintro (hn | ⟨hi, h, hin | hin, hh⟩)
    · exact .inl (.inl hn)
    · exact .inl (.inr ⟨hi, h, hin, hh⟩)
    · exact .inr ⟨hi, h, hin, hh⟩

theorem touched_perm (hp : es.Perm es') (hplain : Plain inner (s.withdraw goodbye) es)
    (ho : IsOrder order) (ho' : IsOrder order') :
    k ∈ (merged (inner.reordered order) s goodbye es).touched ↔
      k ∈ (merged (inner.reordered order') s goodbye es').touched := by
  have hhosts : hostAfter inner (s.withdraw goodbye).hostnameToInstance es =
      hostAfter inner (s.withdraw goodbye).hostnameToInstance es' :=
    funext fun _ => hostAfter_perm hp hplain.apart
  have hsome : (instanceAfter k ((s.withdraw goodbye).instances k) es).isSome =
      (instanceAfter k ((s.withdraw goodbye).instances k) es').isSome := by
    rw [instanceAfter, Option.isSome_map, instanceAfter, Option.isSome_map]
    cases hk : (s.withdraw goodbye).instances k with
    | some i => rfl
    | none => rw [nameFor_perm hp (hplain.names k hk)]
  rw [touched_merged ho, touched_merged ho', hhosts, hsome, @grouped_perm _ _ Entry.a? hp,
    @grouped_perm _ _ Entry.aaaa? hp]
  simp only [hp.mem_iff]

/-- With other addresses for two hostnames of an instance, the order of the hash map decides which
it is left with. -/
theorem ips_of_order {h' : String}
    (hi : ((s.withdraw goodbye).instances k).or ((es.findSome? (·.nameFor k)).map (.new k)) = some i)
    (hin : h ∈ (grouped Entry.a? es).1) (hin' : h' ∈ (grouped Entry.a? es).1)
    (hh : hostAfter inner (s.withdraw goodbye).hostnameToInstance es h = some k)
    (hh' : hostAfter inner (s.withdraw goodbye).hostnameToInstance es h' = some k)
    (hne : (grouped Entry.a? es).2 h ≠ (grouped Entry.a? es).2 h') :
    ((handled (inner.reordered (orderEnding h)) s goodbye es now).state.instances k).map (·.ips) ≠
      ((handled (inner.reordered (orderEnding h')) s goodbye es now).state.instances k).map
        (·.ips) := by
  have hips : ∀ {h}, h ∈ (grouped Entry.a? es).1 →
      hostAfter inner (s.withdraw goodbye).hostnameToInstance es h = some k →
      ((handled (inner.reordered (orderEnding h)) s goodbye es now).state.instances k).map (·.ips) =
        some ((grouped Entry.a? es).2 h) := by
    intro h hin hh
    have hlast : lastHost
        (hostAfter (inner.reordered (orderEnding h)) (s.withdraw goodbye).hostnameToInstance es)
        ((inner.reordered (orderEnding h)).order (grouped Entry.a? es).1) k = some h :=
      lastHost_orderEnding hin hh
    rw [instances_handled, instances_merged_eq, hi, Option.map_some, Option.map_some]
    simp only [hlast, Option.elim_some]
  rw [hips hin hh, hips hin' hh']
  exact fun he => hne (Option.some.inj he)

/-- The same record, whatever packet it stands in. -/
def SameRecord (r r' : MdnsRecord) : Prop :=
  r.name = r'.name ∧ r.recordType = r'.recordType ∧ r.ttl = r'.ttl ∧
    r.ptrTarget.toOption.join = r'.ptrTarget.toOption.join ∧
    r.srv.toOption.join.map (fun srv => (srv.port, srv.target)) =
      r'.srv.toOption.join.map (fun srv => (srv.port, srv.target)) ∧
    r.txtStrings.toOption.join = r'.txtStrings.toOption.join ∧
    r.ip.toOption.join = r'.ip.toOption.join ∧ r.ipv6.toOption.join = r'.ipv6.toOption.join

instance : DecidableRel SameRecord := fun _ _ => inferInstanceAs (Decidable (_ ∧ _))

/-- Two lists of the same records, in some order each. -/
def Permuted (records records' : List MdnsRecord) : Prop :=
  ∃ l, l.Perm records ∧ List.Forall₂ SameRecord l records'

theorem entryOf_same {r r' : MdnsRecord} (h : SameRecord r r') : entryOf inner r = entryOf inner r' := by
  obtain ⟨hname, htype, -, hptr, hsrv, htxt, hip, hipv6⟩ := h
  have hinj : Function.Injective fun srv : MdnsSrvRecord => (srv.port, srv.target) := by
    rintro ⟨port, target⟩ ⟨port', target'⟩ he
    cases he
    rfl
  have hsrv := Option.map_injective hinj hsrv
  simp only [entryOf, hname, htype, hptr, hsrv, htxt, hip, hipv6]

theorem withdrawn_same {r r' : MdnsRecord} (h : SameRecord r r') :
    withdrawn inner r = withdrawn inner r' := by
  obtain ⟨hname, htype, httl, hptr, -⟩ := h
  rw [withdrawn, withdrawn, httl, goodbyeFqdn, goodbyeFqdn, htype, hname]
  by_cases ht : r'.recordType = typePtr
  · rw [if_pos ht, if_pos ht, hptr]
  · rw [if_neg ht, if_neg ht]

theorem goodbyeKeys_permuted {records records' : List MdnsRecord} (h : Permuted records records') :
    goodbyeKeys inner records = goodbyeKeys inner records' := by
  obtain ⟨l, hp, hsame⟩ := h
  have hmap : l.filterMap (withdrawn inner) = records'.filterMap (withdrawn inner) := by
    clear hp
    induction hsame with
    | nil => rfl
    | cons hr _ ih => rw [List.filterMap_cons, List.filterMap_cons, withdrawn_same hr, ih]
  ext k
  rw [goodbyeKeys, goodbyeKeys, List.mem_toFinset, List.mem_toFinset, ← hmap]
  exact (hp.filterMap _).mem_iff.symm

theorem liveEntries_permuted {records records' : List MdnsRecord} (h : Permuted records records') :
    (liveEntries inner records).Perm (liveEntries inner records') := by
  have hkeys := @goodbyeKeys_permuted inner _ _ h
  obtain ⟨l, hp, hsame⟩ := h
  have hmap : (liveRecords (goodbyeKeys inner records) l).map (entryOf inner) =
      (liveRecords (goodbyeKeys inner records) records').map (entryOf inner) := by
    clear hp hkeys
    unfold liveRecords
    split
    · induction hsame with
      | nil => rfl
      | cons hr _ ih => rw [List.map_cons, List.map_cons, entryOf_same hr, ih]
    · induction hsame with
      | nil => rfl
      | cons hr _ ih =>
        rw [List.filter_cons, List.filter_cons, hr.2.2.1]
        split
        · rw [List.map_cons, List.map_cons, entryOf_same hr, ih]
        · exact ih
  rw [liveEntries, liveEntries, ← hkeys, ← hmap]
  refine List.Perm.map _ ?_
  unfold liveRecords
  split
  · exact hp.symm
  · exact (hp.filter _).symm

theorem fits_of_response {data : Bytes} {sender : String} {records : List MdnsRecord}
    (hr : response inner data sender = some records) : ∀ r ∈ records, r.Fits := by
  obtain ⟨parsed, hparsed, hfits⟩ := @parseResponse_spec data
  unfold response at hr
  rw [hparsed] at hr
  split at hr
  · cases hr
  · obtain ⟨p, hp, hif⟩ := Option.bind_eq_some_iff.mp hr
    split at hif
    · cases hif
      exact hfits p hp
    · cases hif

theorem lookedUp_same {r r' : MdnsRecord} (h : SameRecord r r') (hr : r.Fits) (hr' : r'.Fits) :
    lookedUp r = lookedUp r' := by
  obtain ⟨hname, htype, -, hptr, hsrv, -⟩ := h
  obtain ⟨out, hout, hsome⟩ := r.srv_spec hr
  obtain ⟨out', hout', hsome'⟩ := r'.srv_spec hr'
  have hread : out.isSome = out'.isSome := by
    have hboth := congrArg Option.isSome hsrv
    rwa [hout, hout', Option.isSome_map, Option.isSome_map] at hboth
  unfold lookedUp
  rw [htype]
  split
  · exact hptr
  · split
    · next ht =>
      have hlen : 6 ≤ r.rdataLength ↔ 6 ≤ r'.rdataLength := by
        rw [hread] at hsome
        constructor
        · intro h6
          exact (hsome'.mp (hsome.mpr ⟨htype.trans ht, h6⟩)).2
        · intro h6
          exact (hsome.mp (hsome'.mpr ⟨ht, h6⟩)).2
      simp only [hlen, hname]
    · simp only [hname]

theorem exists_same {l records : List MdnsRecord} {r' : MdnsRecord}
    (hsame : List.Forall₂ SameRecord l records) (hr : r' ∈ records) : ∃ r ∈ l, SameRecord r r' := by
  induction hsame with
  | nil => cases hr
  | cons hone _ ih =>
    rcases List.mem_cons.mp hr with rfl | hr
    · exact ⟨_, List.mem_cons_self, hone⟩
    · obtain ⟨r, hin, hs⟩ := ih hr
      exact ⟨r, List.mem_cons_of_mem _ hin, hs⟩

/-- A panic on the records does not hang on their order either. -/
theorem handleRecords_ok_permuted {records records' : List MdnsRecord}
    (h : Permuted records records') (hfits : ∀ r ∈ records, r.Fits)
    (hfits' : ∀ r ∈ records', r.Fits) (hok : Ok (handleRecords inner s records now)) :
    Ok (handleRecords inner s records' now') := by
  obtain ⟨l, hp, hsame⟩ := h
  refine (handleRecords_ok_iff hfits').mpr ?_
  have hcut := (handleRecords_ok_iff hfits).mp hok
  intro r' hr' ht name hn
  obtain ⟨r, hr, hone⟩ := exists_same hsame hr'
  have hin : r ∈ records := hp.mem_iff.mp hr
  refine hcut r hin ?_ name ?_
  · rw [hone.2.2.1]
    exact ht
  · rw [lookedUp_same hone (hfits r hin) (hfits' r' hr')]
    exact hn

theorem found_handled {d : FoundDevice} (ho : IsOrder order) :
    d ∈ (handled (inner.reordered order) s goodbye es now).found ↔
      ∃ k ∈ (merged (inner.reordered order) s goodbye es).touched,
        reported inner (merged (inner.reordered order) s goodbye es).state k = some d := by
  have hreported : ∀ k, reported (inner.reordered order)
      (handled (inner.reordered order) s goodbye es now).state k =
        reported inner (merged (inner.reordered order) s goodbye es).state k := by
    intro k
    rw [reported, instances_handled, reported]
    rfl
  have hfound : (handled (inner.reordered order) s goodbye es now).found =
      (order (merged (inner.reordered order) s goodbye es).touched).filterMap
        (reported (inner.reordered order)
          (handled (inner.reordered order) s goodbye es now).state) := rfl
  rw [hfound, List.mem_filterMap]
  simp only [(ho _).2, hreported]

/-- What is left does not hang on the order of the entries either. -/
theorem handled_perm (hp : es.Perm es') (hplain : Plain inner (s.withdraw goodbye) es)
    (ho : IsOrder order) (ho' : IsOrder order') :
    let out := handled (inner.reordered order) s goodbye es now
    let out' := handled (inner.reordered order') s goodbye es' now'
    out.state.instances = out'.state.instances ∧
      out.state.hostnameToInstance = out'.state.hostnameToInstance ∧
      ∀ d, d ∈ out.found ↔ d ∈ out'.found := by
  have hinstances : (merged (inner.reordered order) s goodbye es).state.instances =
      (merged (inner.reordered order') s goodbye es').state.instances :=
    funext fun _ => instances_perm hp hplain ho ho'
  refine ⟨?_, ?_, ?_⟩
  · rw [instances_handled, instances_handled, hinstances]
  · rw [hosts_handled, hosts_handled, hosts_merged, hosts_merged, hostAfter_reordered,
      hostAfter_reordered]
    exact funext fun _ => hostAfter_perm hp hplain.apart
  · intro d
    rw [found_handled ho, found_handled ho']
    simp only [touched_perm hp hplain ho ho', reported, hinstances]

/-- A packet's records in another order, in another packet and with the hash maps ordered otherwise,
leave the same instances, the same hostnames and the same devices reported. -/
theorem records_in_any_order {data data' : Bytes} {sender : String} {out : Handled}
    (ho : IsOrder order) (ho' : IsOrder order')
    (hdata : Option.Rel Permuted (response inner data sender) (response inner data' sender))
    (hplain : ∀ records, response inner data sender = some records →
      Plain inner (s.withdraw (goodbyeKeys inner records)) (liveEntries inner records))
    (hout : handlePacket (inner.reordered order) s data sender now = .ok out) :
    ∃ out', handlePacket (inner.reordered order') s data' sender now' = .ok out' ∧
      out.state.instances = out'.state.instances ∧
      out.state.hostnameToInstance = out'.state.hostnameToInstance ∧
      ∀ d, d ∈ out.found ↔ d ∈ out'.found := by
  rw [handlePacket_response, response_reordered] at hout ⊢
  cases hr : response inner data sender with
  | none =>
    rw [hr] at hdata hout
    cases hr' : response inner data' sender with
    | some records' =>
      rw [hr'] at hdata
      cases hdata
    | none =>
      cases hout
      exact ⟨_, rfl, rfl, rfl, fun _ => Iff.rfl⟩
  | some records =>
    cases hr' : response inner data' sender with
    | none =>
      rw [hr, hr'] at hdata
      cases hdata
    | some records' =>
      rw [hr, hr'] at hdata
      rw [hr, Option.elim_some] at hout
      cases hdata with
      | some hperm =>
        have hcut := (handleRecords_ok_iff (fits_of_response hr)).mp ⟨out, hout⟩
        have hok : Ok (handleRecords (inner.reordered order') s records now') :=
          (handleRecords_ok_iff (fits_of_response hr)).mpr hcut
        obtain ⟨out', hout'⟩ : Ok (handleRecords (inner.reordered order') s records' now') :=
          handleRecords_ok_permuted hperm (fits_of_response hr) (fits_of_response hr') hok
        have hp : (liveEntries inner records).Perm (liveEntries inner records') :=
          liveEntries_permuted hperm
        refine ⟨out', hout', ?_⟩
        have he : out = handled (inner.reordered order) s (goodbyeKeys inner records)
            (liveEntries inner records) now := handleRecords_eq hout
        have he' : out' = handled (inner.reordered order') s (goodbyeKeys inner records')
            (liveEntries inner records') now' := handleRecords_eq hout'
        rw [he, he', ← goodbyeKeys_permuted hperm]
        exact handled_perm hp (hplain records hr) ho ho'

theorem instanceName_handled (hnone : (s.withdraw goodbye).instances k = none) :
    ((handled inner s goodbye es now).state.instances k).map (·.instanceName) =
      es.findSome? (·.nameFor k) := by
  rw [instances_handled, instances_merged_eq, hnone, Option.none_or, Option.map_map]
  cases es.findSome? (·.nameFor k) with
  | none => rfl
  | some name =>
    simp only [Option.map_some, Function.comp_apply]
    exact congrArg some (told_rest (f := (·.instanceName)) (fun _ _ _ => rfl)
      fun _ _ _ _ _ _ => rfl)

/-- The records of the one in the reverse order of the other. -/
theorem permuted_of_reverse {x y : Option (List MdnsRecord)} (hsome : x.isSome = y.isSome)
    (hsame : List.Forall₂ SameRecord (x.getD []).reverse (y.getD [])) :
    Option.Rel Permuted x y := by
  cases x with
  | none =>
    cases y with
    | none => exact .none
    | some records' => cases hsome
  | some records =>
    cases y with
    | none => cases hsome
    | some records' => exact .some ⟨records.reverse, records.reverse_perm, hsame⟩

/-- A PTR record of an instance spelled `name`, and an SRV record of `foo`, in either order. -/
def pairPacket (name : String) (srvFirst : Bool) : Bytes :=
  let ptr := writeRecord (encodeName plainappServiceType) typePtr dnsClassIn ttlSeconds
    (encodeName s!"{name}.{plainappServiceType}")
  let srv := writeRecord (encodeName s!"foo.{plainappServiceType}") typeSrv dnsCacheFlushClassIn
    ttlSeconds (writeU16 0 ++ writeU16 0 ++ writeU16 8443 ++ encodeName "h.local")
  writeHeader 2 0 ++ if srvFirst then srv ++ ptr else ptr ++ srv

/-- Both orders are read, the one as the reverse of the other, and every name can be cut. -/
theorem pairPacket_reads {name : String} (hname : name = "foo" ∨ name = "Foo") :
    (response demoInner (pairPacket name false) "10.0.0.2").isSome =
        (response demoInner (pairPacket name true) "10.0.0.2").isSome ∧
      List.Forall₂ SameRecord
        ((response demoInner (pairPacket name false) "10.0.0.2").getD []).reverse
        ((response demoInner (pairPacket name true) "10.0.0.2").getD []) ∧
      ∀ srvFirst, ((response demoInner (pairPacket name srvFirst) "10.0.0.2").getD []).all
        (fun r => (lookedUp r).all fun name =>
          (Text.sliceTo name (instanceNameLen name)).isSome) = true := by
  rcases hname with rfl | rfl <;> decide +kernel

theorem pairPacket_permuted {name : String} (hname : name = "foo" ∨ name = "Foo") :
    Option.Rel Permuted (response demoInner (pairPacket name false) "10.0.0.2")
      (response demoInner (pairPacket name true) "10.0.0.2") := by
  obtain ⟨hsome, hsame, -⟩ := pairPacket_reads hname
  exact permuted_of_reverse hsome hsame

/-- What the packet with `Foo` tells, the PTR record first. -/
def pairEntries : List Entry :=
  [.ptr "foo._plainapp._tcp.local" "Foo", .srv "foo._plainapp._tcp.local" "foo" 8443 "h.local"]

theorem pairPacket_apart {name : String} : [Entry.ptr "foo._plainapp._tcp.local" name,
    .srv "foo._plainapp._tcp.local" "foo" 8443 "h.local"].Pairwise (Entry.Apart demoInner) := by
  refine List.pairwise_pair.mpr ⟨?_, ?_, ?_⟩
  · intro k hk
    cases hk
  · rintro k name name' strings strings' ⟨he, -⟩
    cases he
  · intro h hk
    cases hk

theorem pairPacket_ok {name : String} (hname : name = "foo" ∨ name = "Foo") (srvFirst : Bool) :
    Ok (handlePacket demoInner s (pairPacket name srvFirst) "10.0.0.2" now) := by
  have hcut := (pairPacket_reads hname).2.2 srvFirst
  rw [handlePacket_response]
  cases hr : response demoInner (pairPacket name srvFirst) "10.0.0.2" with
  | none => exact ok_pure
  | some records =>
    rw [hr, Option.getD_some, List.all_eq_true] at hcut
    refine (handleRecords_ok_iff (fits_of_response hr)).mpr fun r hr _ name hn _ => ?_
    have hone := hcut r hr
    rwa [hn, Option.all_some] at hone

/-- Each order of a PTR and an SRV record of `foo`. -/
theorem records_in_any_order_foo : ∃ out out',
    handlePacket (demoInner.reordered sortedOrder) .default (pairPacket "foo" false)
        "10.0.0.2" 0 = .ok out ∧
      handlePacket (demoInner.reordered sortedOrder) .default (pairPacket "foo" true)
        "10.0.0.2" 0 = .ok out' ∧
      out.state.instances = out'.state.instances ∧
      out.state.hostnameToInstance = out'.state.hostnameToInstance ∧
      ∀ d, d ∈ out.found ↔ d ∈ out'.found := by
  obtain ⟨out, hout⟩ := @ok_reordered _ _ _ sortedOrder _ _
    (@pairPacket_ok .default 0 "foo" (.inl rfl) false)
  have hentries : ((response demoInner (pairPacket "foo" false) "10.0.0.2").map
      (liveEntries demoInner)) = some [.ptr "foo._plainapp._tcp.local" "foo",
        .srv "foo._plainapp._tcp.local" "foo" 8443 "h.local"] := by
    decide +kernel
  have hplain : ∀ records, response demoInner (pairPacket "foo" false) "10.0.0.2" = some records →
      Plain demoInner (BrowserState.default.withdraw (goodbyeKeys demoInner records))
        (liveEntries demoInner records) := by
    intro records hr
    rw [hr, Option.map_some, Option.some.injEq] at hentries
    rw [hentries]
    refine ⟨pairPacket_apart, ?_, ?_, ?_⟩
    · intro k _ e he e' he' name name' hn hn'
      have hfoo : ∀ e ∈ [Entry.ptr "foo._plainapp._tcp.local" "foo",
          .srv "foo._plainapp._tcp.local" "foo" 8443 "h.local"], ∀ name,
          e.nameFor k = some name → name = "foo" := by
        simp only [List.mem_cons, List.not_mem_nil, or_false, forall_eq_or_imp, forall_eq]
        constructor <;> intro name hn <;> cases names_of_nameFor hn <;> rfl
      rw [hfoo e he name hn, hfoo e' he' name' hn']
    · intro k h hh
      cases hh
    · intro k h hh
      cases hh
  obtain ⟨out', hout', h⟩ := records_in_any_order isOrder_sorted isOrder_sorted
    (pairPacket_permuted (.inl rfl)) hplain hout
  exact ⟨out, out', hout, hout', h⟩

/-- With the SRV record first, the instance is `foo`, and else it is `Foo`. -/
theorem firstSpelling_stays : ¬ ∀ s data data' sender now out out',
    Runs.Reachable (browserRuns demoInner) s →
    Option.Rel Permuted (response demoInner data sender) (response demoInner data' sender) →
    (∀ records, response demoInner data sender = some records →
      (records.map (entryOf demoInner)).Pairwise (Entry.Apart demoInner)) →
    handlePacket demoInner s data sender now = .ok out →
    handlePacket demoInner s data' sender now = .ok out' →
    out.state.instances = out'.state.instances ∧
      out.state.hostnameToInstance = out'.state.hostnameToInstance ∧
      ∀ d, d ∈ out.found ↔ d ∈ out'.found := by
  intro h
  have hentries : ∀ srvFirst, (response demoInner (pairPacket "Foo" srvFirst) "10.0.0.2").map
      (fun records => (goodbyeKeys demoInner records, records.map (entryOf demoInner))) =
        some (∅, if srvFirst then pairEntries.reverse else pairEntries) := by
    decide +kernel
  obtain ⟨out, hout⟩ : Ok (handlePacket demoInner .default (pairPacket "Foo" false) "10.0.0.2" 0) :=
    pairPacket_ok (.inr rfl) false
  obtain ⟨out', hout'⟩ : Ok (handlePacket demoInner .default (pairPacket "Foo" true) "10.0.0.2" 0) :=
    pairPacket_ok (.inr rfl) true
  have hapart : ∀ records, response demoInner (pairPacket "Foo" false) "10.0.0.2" = some records →
      (records.map (entryOf demoInner)).Pairwise (Entry.Apart demoInner) := by
    intro records hr
    have hentries := hentries false
    rw [hr, Option.map_some, Option.some.injEq, Prod.mk.injEq] at hentries
    rw [hentries.2]
    exact pairPacket_apart
  have hname : ∀ srvFirst out, handlePacket demoInner .default (pairPacket "Foo" srvFirst) "10.0.0.2"
      0 = .ok out → (out.state.instances "foo._plainapp._tcp.local").map (·.instanceName) =
        some (if srvFirst then "foo" else "Foo") := by
    intro srvFirst out hout
    have hentries := hentries srvFirst
    cases hr : response demoInner (pairPacket "Foo" srvFirst) "10.0.0.2" with
    | none =>
      rw [hr] at hentries
      cases hentries
    | some records =>
      rw [hr, Option.map_some, Option.some.injEq, Prod.mk.injEq] at hentries
      rw [handlePacket_eq hout, hr, Option.elim_some, hentries.1, liveEntries_of_empty hentries.1,
        hentries.2, instanceName_handled rfl]
      cases srvFirst <;> decide
  have hsame := (h .default _ _ _ _ out out' (.init rfl) (pairPacket_permuted (.inr rfl)) hapart hout
    hout').1
  have hFoo := hname false out hout
  rw [hsame, hname true out' hout'] at hFoo
  exact absurd hFoo (by decide)

end PlainRs.Mdns
