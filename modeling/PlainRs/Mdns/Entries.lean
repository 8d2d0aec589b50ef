import PlainRs.Mdns.PanicFree

/-! A packet's records as what they tell the browser, and what it makes of them when nothing
panics. -/
namespace PlainRs.Mdns

open Checked

/-- What a record tells the browser: about an instance by key and cut name, or an address of a
lowercase hostname. -/
inductive Entry
  | ptr (key name : String)
  | srv (key name : String) (port : UInt16) (target : String)
  | txt (key name : String) (strings : List String)
  | a (host ip : String)
  | aaaa (host addr : String)
  | other
  deriving DecidableEq

namespace Entry

/-- The instance an entry is about, with the name it gives. -/
def names : Entry → Option (String × String)
  | ptr key name | srv key name _ _ | txt key name _ => some (key, name)
  | _ => none

def a? : Entry → Option (String × String)
  | a host ip => some (host, ip)
  | _ => none

def aaaa? : Entry → Option (String × String)
  | aaaa host addr => some (host, addr)
  | _ => none

end Entry

section

variable (inner : Inner)

def namedEntry (name : String) (f : String → String → Entry) : Entry :=
  match instanceKeyOf inner name, Text.sliceTo name (instanceNameLen name) with
  | some key, some cut => f key cut
  | _, _ => .other

def entryOf (r : MdnsRecord) : Entry :=
  if r.recordType = typePtr then
    r.ptrTarget.toOption.join.elim .other fun target => namedEntry inner target .ptr
  else if r.recordType = typeSrv then
    r.srv.toOption.join.elim .other fun srv => namedEntry inner r.name (.srv · · srv.port srv.target)
  else if r.recordType = typeTxt then
    r.txtStrings.toOption.join.elim .other fun strings => namedEntry inner r.name (.txt · · strings)
  else if r.recordType = typeA then
    r.ip.toOption.join.elim .other fun ip => .a (inner.toLowercase r.name) ip
  else if r.recordType = typeAaaa then
    r.ipv6.toOption.join.elim .other fun addr => .aaaa (inner.toLowercase r.name) addr
  else .other

/-- The instance a goodbye record withdraws. -/
def withdrawn (r : MdnsRecord) : Option String :=
  if r.ttl ≠ 0 then none else ((goodbyeFqdn r).toOption.join).bind (instanceKeyOf inner)

def goodbyeKeys (records : List MdnsRecord) : Finset String :=
  (records.filterMap (withdrawn inner)).toFinset

/-- `txtEntry` where nothing panics. -/
def txtField (i : Instance) (entry : String) : Instance := (txtEntry i entry).toOption.getD i

/-- What one entry does to the state. -/
def Merge.apply (m : Merge) (e : Entry) : Merge :=
  let known (key name : String) : Instance := (m.state.instances key).getD (.new key name)
  match e with
  | .ptr key name =>
    { m.setInstance key (known key name) with
      discovered := if (m.state.instances key).isNone then m.discovered ++ [key] else m.discovered }
  | .srv key name port target =>
    let hosts := if target = "" then m.state.hostnameToInstance
      else Function.update m.state.hostnameToInstance (inner.toLowercase target) (some key)
    ({ m with state := { m.state with hostnameToInstance := hosts } } : Merge).setInstance key
      { known key name with port := port, targetHostname := target }
  | .txt key name strings =>
    m.setInstance key (strings.foldl txtField { known key name with txtRecords := strings })
  | .a _ _ | .aaaa _ _ | .other => m

def groupOne (pick : Entry → Option (String × String)) (g : Finset String × (String → Finset String))
    (e : Entry) : Finset String × (String → Finset String) :=
  match pick e with
  | some (host, ip) => (insert host g.1, Function.update g.2 host (insert ip (g.2 host)))
  | none => g

/-- The hostnames of the addresses picked, and the addresses of each. -/
def grouped (pick : Entry → Option (String × String)) (es : List Entry) :
    Finset String × (String → Finset String) :=
  es.foldl (groupOne pick) (∅, fun _ => ∅)

def withIps (i : Instance) (ips : Finset String) : Instance := { i with ips := ips }

def withAddrsV6 (i : Instance) (addrs : Finset String) : Instance := { i with addrsV6 := addrs }

/-- The state under the mutex after the merge, before the query times are forgotten. -/
def merged (state : BrowserState) (goodbye : Finset String) (es : List Entry) : Merge :=
  let m := es.foldl (Merge.apply inner) ⟨state.withdraw goodbye, ∅, []⟩
  let m := (inner.order (grouped Entry.a? es).1).foldl
    (Merge.addresses withIps (grouped Entry.a? es).2) m
  (inner.order (grouped Entry.aaaa? es).1).foldl (Merge.addresses withAddrsV6 (grouped Entry.aaaa? es).2) m

def handled (state : BrowserState) (goodbye : Finset String) (es : List Entry) (now : Nat) :
    Handled :=
  let m := merged inner state goodbye es
  let (state, queries) := m.discovered.foldl (followUp now) (m.state.forgetQueries goodbye, [])
  ⟨state, queries, (inner.order m.touched).filterMap (reported inner state)⟩

end

variable {inner : Inner} {r : MdnsRecord} {m m' : Merge} {records : List MdnsRecord} {name : String}
  {keys : Finset String} {state : BrowserState} {now : Nat} {out : Handled} {i j : Instance}
  {f : String → String → Entry} {es : List Entry}

theorem goodbyeKey_eq :
    goodbyeKey inner keys r = .ok (keys ∪ (withdrawn inner r).toFinset) := by
  obtain ⟨fqdn, h, -⟩ := @goodbyeFqdn_spec r
  unfold goodbyeKey withdrawn
  by_cases ht : r.ttl ≠ 0
  · simp [ht, pure, Except.pure]
  · rw [if_neg ht, if_neg ht, h, ok_bind]
    have hjoin : (Except.ok fqdn : Checked (Option String)).toOption.join = fqdn := rfl
    rw [hjoin]
    cases fqdn.bind (instanceKeyOf inner) with
    | none => simp [pure, Except.pure]
    | some key =>
      change Except.ok (insert key keys) = _
      rw [Option.toFinset_some, Finset.insert_eq, Finset.union_comm]

/-- The withdrawn instances never fail to be found. -/
theorem goodbyeInstanceKeys_eq :
    goodbyeInstanceKeys inner records = .ok (goodbyeKeys inner records) := by
  have hloop : ∀ keys, records.foldlM (goodbyeKey inner) keys =
      .ok (keys ∪ goodbyeKeys inner records) := by
    induction records with
    | nil =>
      intro keys
      simp [goodbyeKeys, pure, Except.pure]
    | cons r records ih =>
      intro keys
      rw [List.foldlM_cons, goodbyeKey_eq, ok_bind, ih, Finset.union_assoc]
      congr 2
      cases h : withdrawn inner r with
      | none => simp [goodbyeKeys, h]
      | some key =>
        ext k
        simp [goodbyeKeys, h]
  rw [goodbyeInstanceKeys, hloop, Finset.empty_union]

theorem txtEntry_eq {entry : String} : txtEntry i entry = .ok (txtField i entry) := by
  obtain ⟨j, h, -⟩ := @txtEntry_spec entry i
  rw [txtField, h]
  rfl

theorem txtEntries_eq {strings : List String} :
    strings.foldlM txtEntry i = .ok (strings.foldl txtField i) := by
  induction strings generalizing i with
  | nil => rfl
  | cons entry strings ih => rw [List.foldlM_cons, txtEntry_eq, ok_bind, ih, List.foldl_cons]

theorem namedEntry_of_find {current : String → Option Instance} {found : Option (String × Instance)}
    (h : findInstance inner current name = .ok found) :
    namedEntry inner name f = (found.elim .other fun p =>
        f p.1 ((Text.sliceTo name (instanceNameLen name)).getD "")) ∧
      ∀ p, found = some p → p.2 = (current p.1).getD
        (.new p.1 ((Text.sliceTo name (instanceNameLen name)).getD "")) := by
  unfold findInstance at h
  unfold namedEntry
  cases hk : instanceKeyOf inner name with
  | none =>
    rw [hk] at h
    cases h
    exact ⟨rfl, nofun⟩
  | some key =>
    cases hs : Text.sliceTo name (instanceNameLen name) with
    | none =>
      rw [hk, hs] at h
      cases h
    | some cut =>
      rw [hk, hs] at h
      cases h
      refine ⟨rfl, ?_⟩
      rintro p hp
      cases hp
      rfl

/-- A record merged without a panic does what its entry says. -/
theorem record_eq (h : m.record inner r = .ok m') : m' = m.apply inner (entryOf inner r) := by
  unfold Merge.record at h
  unfold entryOf
  split at h
  · next ht =>
    rw [if_pos ht]
    obtain ⟨target, hread, h⟩ := bind_eq_ok.mp h
    rw [hread]
    cases target with
    | none =>
      cases h
      rfl
    | some target =>
      obtain ⟨found, hfind, h⟩ := bind_eq_ok.mp h
      obtain ⟨hentry, hknown⟩ := namedEntry_of_find (f := .ptr) hfind
      change m' = m.apply inner (namedEntry inner target .ptr)
      rw [hentry]
      cases found with
      | none =>
        cases h
        rfl
      | some found =>
        cases h
        rw [hknown found rfl]
        rfl
  · next hp =>
    rw [if_neg hp]
    split at h
    · next ht =>
      rw [if_pos ht]
      obtain ⟨srv, hread, h⟩ := bind_eq_ok.mp h
      rw [hread]
      cases srv with
      | none =>
        cases h
        rfl
      | some srv =>
        obtain ⟨found, hfind, h⟩ := bind_eq_ok.mp h
        obtain ⟨hentry, hknown⟩ := namedEntry_of_find (f := (.srv · · srv.port srv.target)) hfind
        change m' = m.apply inner (namedEntry inner r.name (.srv · · srv.port srv.target))
        rw [hentry]
        cases found with
        | none =>
          cases h
          rfl
        | some found =>
          cases h
          rw [hknown found rfl]
          rfl
    · next hs =>
      rw [if_neg hs]
      split at h
      · next ht =>
        rw [if_pos ht]
        obtain ⟨strings, hread, h⟩ := bind_eq_ok.mp h
        rw [hread]
        cases strings with
        | none =>
          cases h
          rfl
        | some strings =>
          obtain ⟨found, hfind, h⟩ := bind_eq_ok.mp h
          obtain ⟨hentry, hknown⟩ := namedEntry_of_find (f := (.txt · · strings)) hfind
          change m' = m.apply inner (namedEntry inner r.name (.txt · · strings))
          rw [hentry]
          cases found with
          | none =>
            cases h
            rfl
          | some found =>
            obtain ⟨updated, hupdated, h⟩ := bind_eq_ok.mp h
            rw [txtEntries_eq] at hupdated
            cases hupdated
            cases h
            rw [hknown found rfl]
            rfl
      · next htxt =>
        rw [if_neg htxt]
        cases h
        split
        · cases r.ip.toOption.join <;> rfl
        · split
          · cases r.ipv6.toOption.join <;> rfl
          · rfl

theorem pick_named {pick : Entry → Option (String × String)} {α : Type} {x : Option α}
    {g : α → String} {f : α → String → String → Entry} (hother : pick .other = none)
    (hf : ∀ b key cut, pick (f b key cut) = none) :
    pick (x.elim .other fun b => namedEntry inner (g b) (f b)) = none := by
  cases x with
  | none => exact hother
  | some b =>
    simp only [Option.elim_some, namedEntry]
    split
    · exact hf ..
    · exact hother

theorem a?_entryOf : (entryOf inner r).a? = if r.recordType = typeA then
    r.ip.toOption.join.map (inner.toLowercase r.name, ·) else none := by
  unfold entryOf
  split
  · next ht =>
    rw [if_neg (by rw [ht]; decide)]
    exact pick_named rfl fun _ _ _ => rfl
  · split
    · next ht =>
      rw [if_neg (by rw [ht]; decide)]
      exact pick_named (g := fun _ => r.name) rfl fun _ _ _ => rfl
    · split
      · next ht =>
        rw [if_neg (by rw [ht]; decide)]
        exact pick_named (g := fun _ => r.name) rfl fun _ _ _ => rfl
      · split
        · cases r.ip.toOption.join <;> rfl
        · split
          · cases r.ipv6.toOption.join <;> rfl
          · rfl

theorem aaaa?_entryOf : (entryOf inner r).aaaa? = if r.recordType = typeAaaa then
    r.ipv6.toOption.join.map (inner.toLowercase r.name, ·) else none := by
  unfold entryOf
  split
  · next ht =>
    rw [if_neg (by rw [ht]; decide)]
    exact pick_named rfl fun _ _ _ => rfl
  · split
    · next ht =>
      rw [if_neg (by rw [ht]; decide)]
      exact pick_named (g := fun _ => r.name) rfl fun _ _ _ => rfl
    · split
      · next ht =>
        rw [if_neg (by rw [ht]; decide)]
        exact pick_named (g := fun _ => r.name) rfl fun _ _ _ => rfl
      · split
        · next ht =>
          rw [if_neg (by rw [ht]; decide)]
          cases r.ip.toOption.join <;> rfl
        · split
          · cases r.ipv6.toOption.join <;> rfl
          · rfl

theorem groupByHostname_eq {t : UInt16} {address : MdnsRecord → Checked (Option String)}
    {pick : Entry → Option (String × String)} {g : Finset String × (String → Finset String)}
    (hpick : ∀ r, pick (entryOf inner r) = if r.recordType = t then
      (address r).toOption.join.map (inner.toLowercase r.name, ·) else none)
    (h : groupByHostname inner t address records = .ok g) :
    g = grouped pick (records.map (entryOf inner)) := by
  unfold groupByHostname at h
  unfold grouped
  generalize ((∅, fun _ => ∅) : Finset String × (String → Finset String)) = start at h ⊢
  induction records generalizing start with
  | nil =>
    cases h
    rfl
  | cons r records ih =>
    rw [List.foldlM_cons] at h
    rw [List.map_cons, List.foldl_cons, groupOne, hpick r]
    by_cases ht : r.recordType = t
    · rw [if_pos ht] at h ⊢
      obtain ⟨next, hnext, h⟩ := bind_eq_ok.mp h
      obtain ⟨ip, hip, hnext⟩ := bind_eq_ok.mp hnext
      rw [hip]
      cases ip <;> cases hnext <;> exact ih _ h
    · rw [if_neg ht] at h ⊢
      exact ih _ h

/-- A packet handled without a panic does what its entries say. -/
theorem handleRecords_eq (h : handleRecords inner state records now = .ok out) :
    out = handled inner state (goodbyeKeys inner records)
      ((liveRecords (goodbyeKeys inner records) records).map (entryOf inner)) now := by
  unfold handleRecords at h
  rw [goodbyeInstanceKeys_eq, ok_bind] at h
  obtain ⟨a, ha, h⟩ := bind_eq_ok.mp h
  obtain ⟨aaaa, haaaa, h⟩ := bind_eq_ok.mp h
  obtain ⟨m, hm, h⟩ := bind_eq_ok.mp h
  have hmerge : m = ((liveRecords (goodbyeKeys inner records) records).map (entryOf inner)).foldl
      (Merge.apply inner) ⟨state.withdraw (goodbyeKeys inner records), ∅, []⟩ := by
    generalize liveRecords (goodbyeKeys inner records) records = live at hm ⊢
    generalize (⟨_, ∅, []⟩ : Merge) = start at hm ⊢
    induction live generalizing start with
    | nil =>
      cases hm
      rfl
    | cons r live ih =>
      rw [List.foldlM_cons] at hm
      obtain ⟨next, hnext, hm⟩ := bind_eq_ok.mp hm
      rw [List.map_cons, List.foldl_cons, ← record_eq hnext]
      exact ih _ hm
  rw [groupByHostname_eq (fun _ => a?_entryOf) ha, groupByHostname_eq (fun _ => aaaa?_entryOf) haaaa,
    hmerge] at h
  cases h
  rfl

end PlainRs.Mdns
