import PlainRs.Base.Grouped
import PlainRs.Base.Runs
import PlainRs.Mdns.ServiceBrowser

/-! The browser over the system's DNS-SD service: the thread that hears of services, and the threads
that look their details up. -/
namespace PlainRs.LocalApi.DnsSd

open Grouped PlainRs.Mdns Runs

structure ServiceName where
  name : String
  serviceType : String
  domain : String
  interface : UInt32
  deriving DecidableEq

def ServiceName.key (service : ServiceName) : String :=
  service.name ++ "|" ++ service.domain ++ "|" ++ toString service.interface

structure ResolvedService where
  fullname : String
  hostname : String
  port : UInt16
  txt : List String
  deriving DecidableEq

structure MdnsServiceSnapshot where
  serviceType : String
  instanceName : String
  instanceFqdn : String
  hostname : String
  port : UInt16
  txtRecords : List String
  ips : List String
  ipv6 : List String
  complete : Bool
  deriving DecidableEq

/-- `str::trim_end_matches`. -/
def trimEndMatches (c : Char) (s : String) : String := String.ofList (s.toList.rdropWhile (· = c))

def snapshotOf (service : ServiceName) (resolved : ResolvedService) (ips : List String) :
    MdnsServiceSnapshot where
  serviceType := trimEndMatches '.' service.serviceType ++ "." ++ trimEndMatches '.' service.domain
  instanceName := service.name
  instanceFqdn := resolved.fullname
  hostname := resolved.hostname
  port := resolved.port
  txtRecords := resolved.txt
  ips := ips
  ipv6 := []
  complete := 0 < resolved.port && ips ≠ [] && resolved.txt.any fun v => "id=".toList.isPrefixOf v.toList

/-- Where no address was found, those found before for the same host stay. -/
def MdnsServiceSnapshot.keepAddresses (snapshot : MdnsServiceSnapshot) :
    Option MdnsServiceSnapshot → MdnsServiceSnapshot
  | some previous =>
    if snapshot.ips = [] ∧ previous.hostname = snapshot.hostname then
      { snapshot with ips := previous.ips, complete := previous.complete }
    else snapshot
  | none => snapshot

/-- A later snapshot of a service is merged into the first one that the map yields. -/
def mergeSnapshot (existing snapshot : MdnsServiceSnapshot) : MdnsServiceSnapshot :=
  { existing with
    ips := sortDedup (existing.ips ++ snapshot.ips)
    ipv6 := sortDedup (existing.ipv6 ++ snapshot.ipv6)
    complete := existing.complete || snapshot.complete }

def mergedSnapshots (toLowercase : String → String) (snapshots : List MdnsServiceSnapshot) :
    String → Option MdnsServiceSnapshot :=
  grouped (fun snapshot => toLowercase snapshot.instanceFqdn) mergeSnapshot snapshots

/-- The `value` of a TXT key. -/
def ResolvedService.value (resolved : ResolvedService) (key : String) : String :=
  (resolved.txt.findSome? fun entry =>
    (entry.toList.dropPrefix? key.toList).map String.ofList).getD ""

def foundDevice (service : ServiceName) (resolved : ResolvedService) (ips : List String) :
    Option FoundDevice :=
  if resolved.value "id=" = "" ∨ resolved.port = 0 ∨ ips = [] then none
  else some
    { id := resolved.value "id="
      name := service.name
      ips := ips
      ipv6 := []
      port := resolved.port
      deviceType := resolved.value "dv="
      version := resolved.value "ver="
      platform := resolved.value "pf=" }

/-- Where a `resolve_loop` is: about to look at its flag; waiting for the details; past its second
look, about to write them; about to call `on_device`; asleep; or at its end. -/
inductive Phase
  | loading
  | resolving
  | storing (resolved : ResolvedService) (ips : List String)
  | announcing (device : Option FoundDevice)
  | sleeping
  | ended

def Phase.isStoring : Phase → Bool
  | .storing _ _ => true
  | _ => false

/-- After its write, as far as the next look at the flag. -/
def Phase.isPast : Phase → Bool
  | .announcing _ | .sleeping | .ended => true
  | _ => false

/-- A `resolve_loop` with the flag that it shares with the browsing thread. -/
structure Resolver where
  service : ServiceName
  flag : Bool
  phase : Phase

/-- The turns of a resolver that touch nothing but its flag. -/
inductive Turn
  | load
  | details (answer : Option (ResolvedService × List String))
  | wake

def Resolver.turn (r : Resolver) : Turn → Option Phase
  | .load =>
    match r.phase with
    | .loading => some (if r.flag then .resolving else .ended)
    | _ => none
  | .details answer =>
    match r.phase with
    | .resolving =>
      some (answer.elim .sleeping fun details =>
        if r.flag then .storing details.1 details.2 else .ended)
    | _ => none
  | .wake =>
    match r.phase with
    | .sleeping => some (if r.flag then .loading else .ended)
    | _ => none

/-- Where the browsing thread is. -/
inductive BrowsePc
  | listening
  | removing (key : String)
  | closing
  deriving DecidableEq

/-- A snapshot, and the resolver that wrote it. -/
structure Held where
  snapshot : MdnsServiceSnapshot
  writer : ℕ

/-- The resolvers in the order in which they were spawned; `late` lists those that wrote after their
flag was off. -/
structure Browser where
  pc : BrowsePc
  active : List (String × ℕ)
  resolvers : List Resolver
  snapshots : String → Option Held
  found : List FoundDevice
  late : List ℕ

inductive Action
  | add (service : ServiceName)
  /-- A removal, up to the snapshots' lock. -/
  | remove (service : ServiceName)
  | drop
  /-- The connection is closed: the flags are turned off one by one, then the snapshots go. -/
  | close
  | turnOff (key : String)
  | clear
  | turn (g : ℕ) (turn : Turn)
  /-- The write under the lock, with the keys as the map yields them. -/
  | store (g : ℕ) (keys : List String)
  | announce (g : ℕ)

namespace Browser

variable (toLowercase : String → String) (s : Browser)

def enter (g : ℕ) (p : Phase) : Browser :=
  { s with resolvers := s.resolvers.modify g fun r => { r with phase := p } }

/-- The flag of the key's resolver goes off, and the key out of `active`. -/
def deactivate (key : String) : Browser :=
  { s with
    active := s.active.filter fun entry => entry.1 ≠ key
    resolvers := (s.active.lookup key).elim s.resolvers fun g =>
      s.resolvers.modify g fun r => { r with flag := false } }

def store (g : ℕ) (keys : List String) (service : ServiceName) (flag : Bool)
    (resolved : ResolvedService) (ips : List String) : Browser :=
  let snapshot := (snapshotOf service resolved ips).keepAddresses
    ((s.snapshots service.key).map (·.snapshot))
  let snapshots := Function.update s.snapshots service.key (some ⟨snapshot, g⟩)
  let merged := mergedSnapshots toLowercase ((keys.filterMap snapshots).map (·.snapshot))
  let allIps := (merged (toLowercase snapshot.instanceFqdn)).elim [] (·.ips)
  { s with snapshots := snapshots, late := if flag then s.late else g :: s.late }.enter g
    (.announcing (foundDevice service resolved allIps))

def next : Action → Option Browser
  | .add service =>
    if s.pc = .listening then
      some (if (s.active.lookup service.key).isSome then s
        else { s with
          active := (service.key, s.resolvers.length) :: s.active
          resolvers := s.resolvers ++ [⟨service, true, .loading⟩] })
    else none
  | .remove service =>
    if s.pc = .listening then some { s.deactivate service.key with pc := .removing service.key }
    else none
  | .drop =>
    match s.pc with
    | .removing key =>
      some { s with snapshots := Function.update s.snapshots key none, pc := .listening }
    | _ => none
  | .close => if s.pc = .listening then some { s with pc := .closing } else none
  | .turnOff key => if s.pc = .closing then some (s.deactivate key) else none
  | .clear =>
    if s.pc = .closing ∧ s.active = [] then
      some { s with snapshots := fun _ => none, pc := .listening }
    else none
  | .turn g turn => (s.resolvers[g]?.bind (·.turn turn)).map (s.enter g)
  | .store g keys =>
    match s.resolvers[g]? with
    | some ⟨service, flag, .storing resolved ips⟩ =>
      some (s.store toLowercase g keys service flag resolved ips)
    | _ => none
  | .announce g =>
    match s.resolvers[g]? with
    | some ⟨_, _, .announcing device⟩ =>
      some ({ s with found := s.found ++ device.toList }.enter g .sleeping)
    | _ => none

end Browser

def browser (toLowercase : String → String) : System Browser Action where
  init s := s = ⟨.listening, [], [], fun _ => none, [], []⟩
  next := Browser.next toLowercase

/-- The keys of a map, in the order in which it yields them. -/
def Yields {α : Type} (m : String → Option α) (keys : List String) : Prop :=
  keys.Nodup ∧ ∀ key, key ∈ keys ↔ (m key).isSome = true

namespace Browser

variable (toLowercase : String → String) (s : Browser)

/-- The entries merged by instance, with the keys as the map yields them. -/
def merged (keys : List String) : String → Option MdnsServiceSnapshot :=
  mergedSnapshots toLowercase ((keys.filterMap s.snapshots).map (·.snapshot))

/-- `snapshot`, with the merged keys as their map yields them. -/
def snapshot (keys mergedKeys : List String) : List MdnsServiceSnapshot :=
  (mergedKeys.filterMap (s.merged toLowercase keys)).mergeSort fun a b =>
    decide (a.instanceFqdn ≤ b.instanceFqdn)

end Browser

section Snapshots

/-- What is shown of an instance, whichever of its entries came first. -/
def MdnsServiceSnapshot.summary (v : MdnsServiceSnapshot) : List String × List String × Bool :=
  (v.ips, v.ipv6, v.complete)

variable {toLowercase : String → String} {s : Browser} {l l' : List MdnsServiceSnapshot}
  {x v : MdnsServiceSnapshot} {key : String} {keys keys' mergedKeys mergedKeys' : List String}

theorem complete_foldl : (l.foldl mergeSnapshot x).complete = (x :: l).any (·.complete) := by
  induction l generalizing x with
  | nil => simp
  | cons y l ih =>
    rw [List.foldl_cons, ih]
    simp [mergeSnapshot, Bool.or_assoc]

theorem fqdn_foldl : (l.foldl mergeSnapshot x).instanceFqdn = x.instanceFqdn := by
  induction l generalizing x with
  | nil => rfl
  | cons y l ih =>
    rw [List.foldl_cons, ih]
    rfl

theorem summary_foldl {y : MdnsServiceSnapshot} (h : (x :: l).Perm (y :: l')) :
    (l.foldl mergeSnapshot x).summary = (l'.foldl mergeSnapshot y).summary := by
  have hmem : ∀ z, z ∈ x :: l ↔ z ∈ y :: l' := fun z => h.mem_iff
  have hcomplete : (l.foldl mergeSnapshot x).complete = (l'.foldl mergeSnapshot y).complete := by
    rw [complete_foldl, complete_foldl, Bool.eq_iff_iff, List.any_eq_true, List.any_eq_true]
    simp only [hmem]
  by_cases hl : l = []
  · -- A single entry is shown as it is.
    subst hl
    obtain ⟨rfl, rfl⟩ := List.cons.inj (List.perm_singleton.mp h.symm)
    rfl
  · have hl' : l' ≠ [] := by
      rintro rfl
      have hlen := h.length_eq
      have hpos : 0 < l.length := List.length_pos_iff.mpr hl
      simp only [List.length_cons, List.length_nil] at hlen
      omega
    have hgather : ∀ field : MdnsServiceSnapshot → List String,
        (∀ a b, field (mergeSnapshot a b) = sortDedup (field a ++ field b)) →
        field (l.foldl mergeSnapshot x) = field (l'.foldl mergeSnapshot y) := by
      intro field hfield
      rw [foldl_gather hfield hl, foldl_gather hfield hl']
      refine sortDedup_congr ?_
      intro a
      simp only [List.mem_flatMap, hmem]
    rw [MdnsServiceSnapshot.summary, MdnsServiceSnapshot.summary, hcomplete,
      hgather (·.ips) fun _ _ => rfl, hgather (·.ipv6) fun _ _ => rfl]

/-- The order of the entries does not matter. -/
theorem merged_perm (h : l.Perm l') (key : String) :
    (mergedSnapshots toLowercase l key).map (·.summary) =
      (mergedSnapshots toLowercase l' key).map (·.summary) := by
  rw [mergedSnapshots, mergedSnapshots, grouped_apply, grouped_apply]
  have hgroup := h.filter fun v => decide (toLowercase v.instanceFqdn = key)
  generalize l.filter (fun v => decide (toLowercase v.instanceFqdn = key)) = xs at hgroup ⊢
  generalize l'.filter (fun v => decide (toLowercase v.instanceFqdn = key)) = ys at hgroup ⊢
  cases xs with
  | nil =>
    rw [List.nil_perm.mp hgroup]
  | cons x xs =>
    cases ys with
    | nil => cases List.perm_nil.mp hgroup
    | cons y ys =>
      simp only [List.head?_cons, List.tail_cons, Option.map_some]
      rw [summary_foldl hgroup]

theorem mergedSnapshots_eq_some (h : mergedSnapshots toLowercase l key = some v) :
    toLowercase v.instanceFqdn = key ∧
      (∀ ip, ip ∈ v.ips ↔ ∃ x ∈ l, toLowercase x.instanceFqdn = key ∧ ip ∈ x.ips) ∧
      (v.complete = true ↔ ∃ x ∈ l, toLowercase x.instanceFqdn = key ∧ x.complete = true) := by
  rw [mergedSnapshots, grouped_apply] at h
  have hmem : ∀ x, x ∈ l.filter (fun v => decide (toLowercase v.instanceFqdn = key)) ↔
      x ∈ l ∧ toLowercase x.instanceFqdn = key := by
    intro x
    simp [List.mem_filter]
  generalize l.filter (fun v => decide (toLowercase v.instanceFqdn = key)) = group at h hmem
  cases group with
  | nil => cases h
  | cons x xs =>
    cases h
    refine ⟨?_, ?_, ?_⟩
    · change toLowercase (xs.foldl mergeSnapshot x).instanceFqdn = key
      rw [fqdn_foldl]
      exact ((hmem x).mp List.mem_cons_self).2
    · intro ip
      have hips : ∀ a b, (mergeSnapshot a b).ips = sortDedup (a.ips ++ b.ips) := fun _ _ => rfl
      have hgather := mem_foldl_gather hips x xs ip
      simp only [hmem, and_assoc] at hgather
      exact hgather
    · change (xs.foldl mergeSnapshot x).complete = true ↔ _
      rw [complete_foldl, List.any_eq_true]
      simp only [hmem, and_assoc]

theorem yields_perm {α : Type} {m : String → Option α} (h : Yields m keys) (h' : Yields m keys') :
    keys.Perm keys' := by
  refine (List.perm_ext_iff_of_nodup h.1 h'.1).mpr ?_
  intro key
  rw [h.2, h'.2]

/-- What is shown of the merged instances, under their keys, is the keys with what they have. -/
theorem filterMap_summary (l : List MdnsServiceSnapshot) (mergedKeys : List String) :
    (mergedKeys.filterMap (mergedSnapshots toLowercase l)).map
        (fun v => (toLowercase v.instanceFqdn, v.summary)) =
      mergedKeys.filterMap fun key =>
        ((mergedSnapshots toLowercase l key).map (·.summary)).map (key, ·) := by
  rw [List.map_filterMap]
  refine List.filterMap_congr ?_
  intro key _
  cases hv : mergedSnapshots toLowercase l key with
  | none => rfl
  | some v =>
    rw [Option.map_some, Option.map_some, Option.map_some, (mergedSnapshots_eq_some hv).1]

/-- Under its key, each instance is there once. -/
theorem merged_names (h : Yields (s.merged toLowercase keys) mergedKeys) :
    (mergedKeys.filterMap (s.merged toLowercase keys)).map (fun v => toLowercase v.instanceFqdn) =
      mergedKeys := by
  rw [List.map_filterMap]
  refine (List.filterMap_congr ?_).trans List.filterMap_some
  intro key hkey
  obtain ⟨v, hv⟩ := Option.isSome_iff_exists.mp ((h.2 key).mp hkey)
  rw [hv, Option.map_some, (mergedSnapshots_eq_some hv).1]

/-- However the maps yield their keys, the same instances are shown, each once and in the order of
their names, with the addresses of all their entries, and complete if any of these is. -/
theorem snapshot_any_order (hkeys : Yields s.snapshots keys) (hkeys' : Yields s.snapshots keys')
    (hmerged : Yields (s.merged toLowercase keys) mergedKeys)
    (hmerged' : Yields (s.merged toLowercase keys') mergedKeys') :
    ((s.snapshot toLowercase keys mergedKeys).map
        fun v => (toLowercase v.instanceFqdn, v.summary)).Perm
      ((s.snapshot toLowercase keys' mergedKeys').map
        fun v => (toLowercase v.instanceFqdn, v.summary)) ∧
    ((s.snapshot toLowercase keys mergedKeys).map fun v => toLowercase v.instanceFqdn).Nodup ∧
    (s.snapshot toLowercase keys mergedKeys).Pairwise (fun v w => v.instanceFqdn ≤ w.instanceFqdn) ∧
    ∀ v ∈ s.snapshot toLowercase keys mergedKeys,
      (∀ ip, ip ∈ v.ips ↔ ∃ key held, s.snapshots key = some held ∧ toLowercase
        held.snapshot.instanceFqdn = toLowercase v.instanceFqdn ∧ ip ∈ held.snapshot.ips) ∧
      (v.complete = true ↔ ∃ key held, s.snapshots key = some held ∧ toLowercase
        held.snapshot.instanceFqdn = toLowercase v.instanceFqdn ∧ held.snapshot.complete = true) := by
  have hentries : ((keys.filterMap s.snapshots).map (·.snapshot)).Perm
      ((keys'.filterMap s.snapshots).map (·.snapshot)) :=
    ((yields_perm hkeys hkeys').filterMap _).map _
  have hsame := @merged_perm toLowercase _ _ hentries
  refine ⟨?_, ?_, ?_, ?_⟩
  · have hyields : Yields (s.merged toLowercase keys') mergedKeys := by
      refine ⟨hmerged.1, ?_⟩
      intro key
      have hsome := congrArg Option.isSome (hsame key)
      rw [Option.isSome_map, Option.isSome_map] at hsome
      exact (hmerged.2 key).trans (by rw [Browser.merged, Browser.merged, hsome])
    refine ((List.mergeSort_perm _ _).map _).trans (List.Perm.trans ?_
      ((List.mergeSort_perm _ _).map _).symm)
    simp only [Browser.merged, filterMap_summary, hsame]
    exact (yields_perm hyields hmerged').filterMap _
  · refine (((List.mergeSort_perm _ _).map _).nodup_iff).mpr ?_
    rw [merged_names hmerged]
    exact hmerged.1
  · refine (List.pairwise_mergeSort ?_ ?_ _).imp of_decide_eq_true
    · intro a b c hab hbc
      exact decide_eq_true ((of_decide_eq_true hab).trans (of_decide_eq_true hbc))
    · intro a b
      simpa using le_total a.instanceFqdn b.instanceFqdn
  · intro v hv
    obtain ⟨key, -, hkey⟩ := List.mem_filterMap.mp (List.mem_mergeSort.mp hv)
    obtain ⟨rfl, hips, hcomplete⟩ := mergedSnapshots_eq_some hkey
    have hmem : ∀ x, x ∈ (keys.filterMap s.snapshots).map (·.snapshot) ↔
        ∃ key held, s.snapshots key = some held ∧ held.snapshot = x := by
      intro x
      rw [List.mem_map]
      constructor
      · rintro ⟨held, hheld, rfl⟩
        obtain ⟨key, -, hkey⟩ := List.mem_filterMap.mp hheld
        exact ⟨key, held, hkey, rfl⟩
      · rintro ⟨key, held, hheld, rfl⟩
        refine ⟨held, List.mem_filterMap.mpr ⟨key, (hkeys.2 key).mpr ?_, hheld⟩, rfl⟩
        rw [hheld]
        rfl
    refine ⟨?_, ?_⟩
    · intro ip
      rw [hips ip]
      constructor
      · rintro ⟨x, hx, hname, hip⟩
        obtain ⟨key, held, hheld, rfl⟩ := (hmem x).mp hx
        exact ⟨key, held, hheld, hname, hip⟩
      · rintro ⟨key, held, hheld, hname, hip⟩
        exact ⟨held.snapshot, (hmem _).mpr ⟨key, held, hheld, rfl⟩, hname, hip⟩
    · rw [hcomplete]
      constructor
      · rintro ⟨x, hx, hname, hx'⟩
        obtain ⟨key, held, hheld, rfl⟩ := (hmem x).mp hx
        exact ⟨key, held, hheld, hname, hx'⟩
      · rintro ⟨key, held, hheld, hname, hx'⟩
        exact ⟨held.snapshot, (hmem _).mpr ⟨key, held, hheld, rfl⟩, hname, hx'⟩

/-- One service on two interfaces. -/
def demoEntry (ip : String) : Held :=
  ⟨⟨"_plainapp._tcp.local", "Phone", "Phone.local.", "phone.local.", 8443, ["id=p1"], [ip], [], true⟩, 0⟩

def demoEntries : Browser where
  pc := .listening
  active := []
  resolvers := []
  snapshots := Function.update (Function.update (fun _ => none) "Phone|local.|4"
    (some (demoEntry "192.168.1.2"))) "Phone|local.|5" (some (demoEntry "10.0.0.2"))
  found := []
  late := []

theorem snapshot_any_order_two :
    ((demoEntries.snapshot id ["Phone|local.|5", "Phone|local.|4"] ["Phone.local."]).map
      fun v => (v.instanceFqdn, v.summary)).Perm
    ((demoEntries.snapshot id ["Phone|local.|4", "Phone|local.|5"] ["Phone.local."]).map
      fun v => (v.instanceFqdn, v.summary)) := by
  have hkeys : Yields demoEntries.snapshots ["Phone|local.|5", "Phone|local.|4"] := by
    refine ⟨by simp, ?_⟩
    intro key
    simp only [demoEntries, Function.update_apply, List.mem_cons, List.not_mem_nil, or_false]
    by_cases h5 : key = "Phone|local.|5" <;> by_cases h4 : key = "Phone|local.|4" <;> simp [h5, h4]
  have hkeys' : Yields demoEntries.snapshots ["Phone|local.|4", "Phone|local.|5"] := by
    refine ⟨by simp, ?_⟩
    intro key
    rw [← hkeys.2 key]
    simp only [List.mem_cons, List.not_mem_nil, or_false]
    exact or_comm
  have hmerged : ∀ keys, keys = ["Phone|local.|5", "Phone|local.|4"] ∨
      keys = ["Phone|local.|4", "Phone|local.|5"] →
      Yields (demoEntries.merged id keys) ["Phone.local."] := by
    intro keys hkeys
    refine ⟨by simp, ?_⟩
    intro key
    rw [← Option.ne_none_iff_isSome, Ne, Browser.merged, mergedSnapshots, grouped_eq_none_iff]
    rcases hkeys with rfl | rfl <;> simp [demoEntries, demoEntry, eq_comm]
  exact (snapshot_any_order hkeys hkeys' (hmerged _ (.inl rfl)) (hmerged _ (.inr rfl))).1

end Snapshots

end PlainRs.LocalApi.DnsSd
