import PlainRs.Mdns.Hostnames

/-! `browse_once` in the scan loops of a browser: when an instance that is not complete is asked about
again. -/
namespace PlainRs.Mdns

open Runs

def followUpRetryMs : ℕ := 10000

/-- What is asked about an instance: its SRV and TXT records, or the address of its target. -/
inductive Kind
  | srvTxt
  | a
  deriving DecidableEq

structure DueFollowUp where
  key : String
  instanceName : String
  targetHostname : String
  srvTxtDue : Bool
  aDue : Bool
  deriving DecidableEq

def DueFollowUp.due (d : DueFollowUp) : Kind → Bool
  | .srvTxt => d.srvTxtDue
  | .a => d.aDue

def BrowserState.queriedAt (s : BrowserState) : Kind → String → Option ℕ
  | .srvTxt => s.srvTxtQueriedAt
  | .a => s.aQueriedAt

def dueFollowUp (state : BrowserState) (now : ℕ) (i : Instance) : DueFollowUp where
  key := i.instanceFqdn
  instanceName := i.instanceName
  targetHostname := i.targetHostname
  srvTxtDue := followUpRetryMs ≤ now - (state.srvTxtQueriedAt i.instanceFqdn).getD 0
  aDue := i.targetHostname ≠ "" && followUpRetryMs ≤ now - (state.aQueriedAt i.instanceFqdn).getD 0

/-- The instances that are not complete, in the order in which the map yields its keys. -/
def dueFollowUps (state : BrowserState) (now : ℕ) (keys : List String) : List DueFollowUp :=
  ((keys.filterMap state.instances).filter fun i => !i.complete).map (dueFollowUp state now)

/-- The second time under the mutex: the state, and the names to ask for. -/
def markDue (now : ℕ) (acc : BrowserState × List String × List String) (d : DueFollowUp) :
    BrowserState × List String × List String :=
  let (state, srvTxtNames, aHostnames) := acc
  let (state, srvTxtNames) :=
    if d.srvTxtDue then
      ({ state with srvTxtQueriedAt := Function.update state.srvTxtQueriedAt d.key (some now) },
        srvTxtNames ++ [d.instanceName])
    else (state, srvTxtNames)
  if d.aDue then
    ({ state with aQueriedAt := Function.update state.aQueriedAt d.key (some now) }, srvTxtNames,
      aHostnames ++ [d.targetHostname])
  else (state, srvTxtNames, aHostnames)

/-- The queries for an instance that a packet brings to light. -/
def srvTxtQueries (instanceName : String) : List (String × UInt16) :=
  let name := instanceName ++ "." ++ plainappServiceType
  [(name, typeSrv), (name, typeTxt)]

/-- A scan loop: about to look at the flag, at first or after it slept; browsing; with the follow-ups
that it found due at a time; or at its end. -/
inductive LoopPhase
  | checking
  | browsing
  | due (now : ℕ) (ds : List DueFollowUp)
  | ended
  deriving DecidableEq

structure Ask where
  kind : Kind
  time : ℕ
  key : String

/-- The browser with its loops, in the order in which they were spawned, the queries that were sent,
and what was asked, latest first. -/
structure Browser where
  state : BrowserState
  running : Bool
  loops : List LoopPhase
  sent : List (String × UInt16)
  asks : List Ask

inductive BrowseAction
  | start
  | stop
  /-- The loop looks at the flag. -/
  | check (i : ℕ)
  /-- The first time under the mutex, after the PTR query. -/
  | scan (i : ℕ) (now : ℕ) (keys : List String)
  | mark (i : ℕ)
  | packet (data : Bytes) (sender : String) (now : ℕ)
  | clearInstances

/-- What the follow-ups that are due ask. -/
def asksOf (now : ℕ) (ds : List DueFollowUp) : List Ask :=
  ds.flatMap fun d => (if d.srvTxtDue then [⟨.srvTxt, now, d.key⟩] else []) ++
    if d.aDue then [⟨.a, now, d.key⟩] else []

/-- The instances that a packet brings to light and leaves incomplete. -/
def newlyAsked (inner : Inner) (state : BrowserState) (data : Bytes) (sender : String) :
    List String :=
  (response inner data sender).elim [] fun records =>
    let m := merged inner state (goodbyeKeys inner records) (liveEntries inner records)
    m.discovered.filter fun k => (m.state.instances k).any fun i => !i.complete

def Browser.next (inner : Inner) (s : Browser) : BrowseAction → Option Browser
  | .start =>
    some (if s.running then s else { s with running := true, loops := s.loops ++ [.checking] })
  | .stop => some { s with running := false }
  | .check i =>
    match s.loops[i]? with
    | some .checking =>
      some { s with loops := s.loops.set i (if s.running then .browsing else .ended) }
    | _ => none
  | .scan i now keys =>
    match s.loops[i]? with
    | some .browsing => some { s with
        loops := s.loops.set i (.due now (dueFollowUps s.state now keys))
        sent := s.sent ++ [(plainappServiceType, typePtr)] }
    | _ => none
  | .mark i =>
    match s.loops[i]? with
    | some (.due now ds) =>
      let (state, srvTxtNames, aHostnames) := ds.foldl (markDue now) (s.state, [], [])
      some { s with
        state := state
        loops := s.loops.set i .checking
        sent := s.sent ++ aHostnames.map (·, typeA) ++ srvTxtNames.flatMap srvTxtQueries
        asks := asksOf now ds ++ s.asks }
    | _ => none
  | .packet data sender now =>
    (handlePacket inner s.state data sender now).toOption.map fun out => { s with
      state := out.state
      sent := s.sent ++ out.queries.flatMap srvTxtQueries
      asks := (newlyAsked inner s.state data sender).map (⟨.srvTxt, now, ·⟩) ++ s.asks }
  | .clearInstances => some { s with state := .default }

def browsing (inner : Inner) : System Browser BrowseAction where
  init s := s = ⟨.default, false, [], [], []⟩
  next := Browser.next inner

/-- The keys of the instances, each once. -/
def Lists (keys : List String) (s : BrowserState) : Prop :=
  keys.Nodup ∧ ∀ k, k ∈ keys ↔ (s.instances k).isSome = true

/-- A loop is spawned where none is left, the map yields each key once, and the instance `key` is
never withdrawn. -/
def Steady (inner : Inner) (key : String) (s : Browser) : BrowseAction → Prop
  | .start => s.running = false → ∀ phase ∈ s.loops, phase = .ended
  | .scan _ _ keys => keys.Nodup
  | .packet data sender _ => ∀ records ∈ response inner data sender, key ∉ goodbyeKeys inner records
  | .clearInstances => False
  | _ => True

instance (inner : Inner) (key : String) (s : Browser) :
    (action : BrowseAction) → Decidable (Steady inner key s action)
  | .start => inferInstanceAs (Decidable (s.running = false → ∀ phase ∈ s.loops, phase = .ended))
  | .scan _ _ keys => inferInstanceAs (Decidable keys.Nodup)
  | .packet data sender _ => inferInstanceAs
      (Decidable (∀ records ∈ response inner data sender, key ∉ goodbyeKeys inner records))
  | .clearInstances => inferInstanceAs (Decidable False)
  | .stop => inferInstanceAs (Decidable True)
  | .check _ => inferInstanceAs (Decidable True)
  | .mark _ => inferInstanceAs (Decidable True)

/-- When an instance was asked about, latest first. -/
def times (kind : Kind) (key : String) (asks : List Ask) : List ℕ :=
  asks.filterMap fun ask => if ask.kind = kind ∧ ask.key = key then some ask.time else none

/-- One question comes at least the retry time after the other. -/
def Spaced (ts : List ℕ) : Prop := ts.Pairwise fun newer older => older + followUpRetryMs ≤ newer

variable {inner : Inner} {s t : Browser} {state : BrowserState} {key k : String} {kind : Kind}
  {now : ℕ} {i : ℕ} {keys ks : List String} {d : DueFollowUp} {ds : List DueFollowUp}
  {m : Merge} {e : Entry} {es : List Entry} {goodbye : Finset String} {data : Bytes}
  {sender : String} {asks : List Ask}

theorem times_append (asks rest : List Ask) :
    times kind key (asks ++ rest) = times kind key asks ++ times kind key rest :=
  List.filterMap_append

theorem spaced_cons {time : ℕ} {ts : List ℕ} (h : Spaced ts)
    (hts : ∀ older ∈ ts, older + followUpRetryMs ≤ time) : Spaced (time :: ts) :=
  List.pairwise_cons.mpr ⟨hts, h⟩

/-- The latest question says how long ago all of them were. -/
theorem spaced_le {ts : List ℕ} (h : Spaced ts)
    (hhead : followUpRetryMs ≤ now - ts.head?.getD 0) : ∀ time ∈ ts, time + followUpRetryMs ≤ now := by
  intro time htime
  cases ts with
  | nil => cases htime
  | cons latest ts =>
    simp only [List.head?_cons, Option.getD_some, followUpRetryMs] at hhead
    rcases List.mem_cons.mp htime with rfl | htime
    · simp only [followUpRetryMs]
      omega
    · have holder := (List.pairwise_cons.mp h).1 time htime
      simp only [followUpRetryMs] at holder ⊢
      omega

/-! What is marked is what is asked. -/

theorem mem_asksOf_key {ask : Ask} (h : ask ∈ asksOf now ds) : ask.key ∈ ds.map (·.key) := by
  obtain ⟨d, hd, hask⟩ := List.mem_flatMap.mp h
  have hkey : ask.key = d.key := by
    rcases List.mem_append.mp hask with hask | hask
    · split at hask
      · rw [List.mem_singleton.mp hask]
      · cases hask
    · split at hask
      · rw [List.mem_singleton.mp hask]
      · cases hask
  rw [hkey]
  exact List.mem_map_of_mem hd

theorem times_of_not_mem (h : ∀ ask ∈ asks, ask.key ≠ key) : times kind key asks = [] := by
  rw [times, List.filterMap_eq_nil_iff]
  intro ask hask
  rw [if_neg fun hand => h ask hask hand.2]

theorem times_asksOf_cons (hd : d.key ∉ ds.map (·.key)) : times kind key (asksOf now (d :: ds)) =
    if d.key = key ∧ d.due kind = true then [now] else times kind key (asksOf now ds) := by
  have hone : times kind key ((if d.srvTxtDue then [⟨.srvTxt, now, d.key⟩] else []) ++
      if d.aDue then [⟨.a, now, d.key⟩] else []) =
      if d.key = key ∧ d.due kind = true then [now] else [] := by
    cases kind <;> by_cases hkey : d.key = key <;> cases hs : d.srvTxtDue <;> cases ha : d.aDue <;>
      simp [times, DueFollowUp.due, hkey, hs, ha]
  rw [asksOf, List.flatMap_cons, times_append, hone]
  by_cases hdue : d.key = key ∧ d.due kind = true
  · have hrest : times kind key (asksOf now ds) = [] := by
      refine times_of_not_mem ?_
      intro ask hask hkey
      rw [← hdue.1] at hkey
      exact hd (hkey ▸ mem_asksOf_key hask)
    rw [if_pos hdue, if_pos hdue]
    exact congrArg _ hrest
  · rw [if_neg hdue, if_neg hdue, List.nil_append]
    rfl

theorem queriedAt_markDue {acc : BrowserState × List String × List String} :
    (markDue now acc d).1.queriedAt kind key =
      if d.key = key ∧ d.due kind = true then some now else acc.1.queriedAt kind key := by
  obtain ⟨state, names, hosts⟩ := acc
  rcases eq_or_ne d.key key with rfl | hkey
  · cases kind <;> cases hs : d.srvTxtDue <;> cases ha : d.aDue <;>
      simp [markDue, DueFollowUp.due, BrowserState.queriedAt, hs, ha]
  · cases kind <;> cases hs : d.srvTxtDue <;> cases ha : d.aDue <;>
      simp [markDue, BrowserState.queriedAt, hs, ha, hkey, hkey.symm]

theorem instances_markDue {acc : BrowserState × List String × List String} :
    (markDue now acc d).1.instances = acc.1.instances := by
  obtain ⟨state, names, hosts⟩ := acc
  simp only [markDue]
  split <;> split <;> rfl

theorem instances_markDues {acc : BrowserState × List String × List String} :
    (ds.foldl (markDue now) acc).1.instances = acc.1.instances := by
  induction ds generalizing acc with
  | nil => rfl
  | cons d ds ih => rw [List.foldl_cons, ih, instances_markDue]

theorem queriedAt_markDues {acc : BrowserState × List String × List String}
    (hds : (ds.map (·.key)).Nodup) : (ds.foldl (markDue now) acc).1.queriedAt kind key =
      (times kind key (asksOf now ds)).head?.or (acc.1.queriedAt kind key) := by
  induction ds generalizing acc with
  | nil => rfl
  | cons d ds ih =>
    rw [List.map_cons, List.nodup_cons] at hds
    rw [List.foldl_cons, ih hds.2, queriedAt_markDue, times_asksOf_cons hds.1]
    by_cases hdue : d.key = key ∧ d.due kind = true
    · have hrest : times kind key (asksOf now ds) = [] := by
        refine times_of_not_mem ?_
        intro ask hask hkey
        rw [← hdue.1] at hkey
        exact hds.1 (hkey ▸ mem_asksOf_key hask)
      rw [hrest, if_pos hdue, if_pos hdue]
      rfl
    · rw [if_neg hdue, if_neg hdue]

/-- One question, if a follow-up for the key is due. -/
theorem times_asksOf (hds : (ds.map (·.key)).Nodup) : times kind key (asksOf now ds) = [] ∨
    times kind key (asksOf now ds) = [now] ∧ ∃ d ∈ ds, d.key = key ∧ d.due kind = true := by
  induction ds with
  | nil => exact .inl rfl
  | cons d ds ih =>
    rw [List.map_cons, List.nodup_cons] at hds
    rw [times_asksOf_cons hds.1]
    by_cases hdue : d.key = key ∧ d.due kind = true
    · rw [if_pos hdue]
      exact .inr ⟨rfl, d, List.mem_cons_self, hdue⟩
    · rw [if_neg hdue]
      rcases ih hds.2 with h | ⟨h, d', hd', hdue'⟩
      · exact .inl h
      · exact .inr ⟨h, d', List.mem_cons_of_mem _ hd', hdue'⟩

/-! What a packet brings to light is asked about once. -/

theorem queriedAt_merged : (merged inner state goodbye es).state.queriedAt kind =
    state.queriedAt kind := by
  have haddresses : ∀ (set : Instance → Finset String → Instance) (ips : String → Finset String)
      (hosts : List String) (m : Merge),
      (hosts.foldl (Merge.addresses set ips) m).state.queriedAt kind = m.state.queriedAt kind := by
    intro set ips hosts
    induction hosts with
    | nil => exact fun _ => rfl
    | cons host hosts ih =>
      intro m
      rw [List.foldl_cons, ih, Merge.addresses]
      split <;> cases kind <;> rfl
  have happly : ∀ m : Merge, (es.foldl (Merge.apply inner) m).state.queriedAt kind =
      m.state.queriedAt kind := by
    induction es with
    | nil => exact fun _ => rfl
    | cons e es ih =>
      intro m
      rw [List.foldl_cons, ih]
      cases e <;> cases kind <;> rfl
  rw [merged, haddresses, haddresses, happly]
  cases kind <;> rfl

/-- The instances discovered were not there, each was discovered once, and none was lost. -/
structure Discovers (state : BrowserState) (m : Merge) : Prop where
  nodup : m.discovered.Nodup
  fresh : ∀ k ∈ m.discovered, state.instances k = none ∧ (m.state.instances k).isSome = true
  keeps : ∀ k, (state.instances k).isSome = true → (m.state.instances k).isSome = true

theorem Discovers.apply (h : Discovers state m) : Discovers state (m.apply inner e) := by
  have hkeeps : ∀ k, (m.state.instances k).isSome = true →
      ((m.apply inner e).state.instances k).isSome = true := by
    intro k hk
    rw [instances_apply]
    split
    · rfl
    · exact hk
  refine ⟨?_, ?_, fun k hk => hkeeps k (h.keeps k hk)⟩
  · cases e with
    | ptr key name =>
      simp only [Merge.apply]
      split
      · next hnone =>
        refine List.nodup_append.mpr ⟨h.nodup, List.nodup_singleton key, ?_⟩
        rintro k hk _ hkey rfl
        rw [List.mem_singleton] at hkey
        subst hkey
        have hsome := (h.fresh k hk).2
        simp [Option.isNone_iff_eq_none.mp hnone] at hsome
      · exact h.nodup
    | _ => exact h.nodup
  · intro k hk
    have hold : k ∈ m.discovered → state.instances k = none ∧
        ((m.apply inner e).state.instances k).isSome = true := fun hk =>
      ⟨(h.fresh k hk).1, hkeeps k (h.fresh k hk).2⟩
    cases e with
    | ptr key name =>
      by_cases hnone : (m.state.instances key).isNone = true
      · have hdisc : (m.apply inner (.ptr key name)).discovered = m.discovered ++ [key] := by
          simp [Merge.apply, hnone]
        rw [hdisc] at hk
        rcases List.mem_append.mp hk with hk | hk
        · exact hold hk
        · rw [List.mem_singleton] at hk
          subst hk
          refine ⟨?_, by simp [Merge.apply, Merge.setInstance]⟩
          by_contra hsome
          have hm := h.keeps k (Option.isSome_iff_ne_none.mpr hsome)
          simp [Option.isNone_iff_eq_none.mp hnone] at hm
      · have hdisc : (m.apply inner (.ptr key name)).discovered = m.discovered := by
          simp [Merge.apply, hnone]
        rw [hdisc] at hk
        exact hold hk
    | _ => exact hold hk

theorem Discovers.addresses {set : Instance → Finset String → Instance}
    {ips : String → Finset String} {host : String} (h : Discovers state m) :
    Discovers state (m.addresses set ips host) := by
  have hsome : ∀ k, ((m.addresses set ips host).state.instances k).isSome =
      (m.state.instances k).isSome := by
    intro k
    rw [Merge.addresses]
    split
    · rfl
    · next key _ =>
      by_cases hk : k = key
      · subst hk
        cases hi : m.state.instances k <;> simp [hi]
      · cases hi : m.state.instances key <;> simp [hk]
  have hdisc : (m.addresses set ips host).discovered = m.discovered := by
    rw [Merge.addresses]
    split <;> rfl
  refine ⟨hdisc ▸ h.nodup, ?_, fun k hk => (hsome k).trans (h.keeps k hk)⟩
  intro k hk
  rw [hdisc] at hk
  exact ⟨(h.fresh k hk).1, (hsome k).trans (h.fresh k hk).2⟩

theorem discovers_merged :
    Discovers (state.withdraw goodbye) (merged inner state goodbye es) := by
  have happly : ∀ m, Discovers (state.withdraw goodbye) m →
      Discovers (state.withdraw goodbye) (es.foldl (Merge.apply inner) m) := by
    induction es with
    | nil => exact fun _ h => h
    | cons e es ih => exact fun m h => ih _ h.apply
  have haddresses : ∀ (set : Instance → Finset String → Instance) (ips : String → Finset String)
      (hosts : List String) (m : Merge), Discovers (state.withdraw goodbye) m →
      Discovers (state.withdraw goodbye) (hosts.foldl (Merge.addresses set ips) m) := by
    intro set ips hosts
    induction hosts with
    | nil => exact fun _ h => h
    | cons host hosts ih => exact fun m h => ih _ h.addresses
  exact haddresses _ _ _ _ (haddresses _ _ _ _ (happly _ ⟨List.nodup_nil, by simp, fun _ h => h⟩))

theorem queriedAt_followUps {acc : BrowserState × List String} :
    (ks.foldl (followUp now) acc).1.queriedAt kind key =
      if kind = .srvTxt ∧ key ∈ ks ∧ ((acc.1.instances key).any fun i => !i.complete) = true then
        some now else acc.1.queriedAt kind key := by
  induction ks generalizing acc with
  | nil => simp
  | cons k ks ih =>
    have hone : (followUp now acc k).1.queriedAt kind key =
        if kind = .srvTxt ∧ key = k ∧ ((acc.1.instances key).any fun i => !i.complete) = true then
          some now else acc.1.queriedAt kind key := by
      rw [followUp]
      cases hk : acc.1.instances k with
      | none =>
        by_cases hkey : key = k
        · subst hkey
          simp [hk]
        · simp [hkey]
      | some i =>
        by_cases hkey : key = k
        · subst hkey
          cases hc : i.complete <;> cases kind <;> simp [hk, hc, BrowserState.queriedAt]
        · cases hc : i.complete <;> cases kind <;> simp [hkey, hc, BrowserState.queriedAt]
    rw [List.foldl_cons, ih, hone, followUp_state.1]
    by_cases hkey : key = k
    · by_cases hand : kind = .srvTxt ∧ ((acc.1.instances key).any fun i => !i.complete) = true
      · simp [hkey] at hand ⊢
        simp [hand]
      · simp only [hkey, true_and, List.mem_cons, true_or] at hand ⊢
        simp only [hand, if_false]
        rw [if_neg fun h => hand ⟨h.1, h.2.2⟩]
    · simp [hkey]

/-- Every instance is kept under its name. -/
def Named (state : BrowserState) : Prop :=
  ∀ k j, state.instances k = some j → j.instanceFqdn = k

theorem named_handled (h : Named state) : Named (handled inner state goodbye es now).state := by
  intro k j hj
  rw [instances_handled, instances_merged_eq] at hj
  obtain ⟨known, hknown, rfl⟩ := Option.map_eq_some_iff.mp hj
  have htold : (es.foldl (·.told k) known).instanceFqdn = known.instanceFqdn :=
    told_rest (f := (·.instanceFqdn)) (fun _ _ _ => rfl) fun _ _ _ _ _ _ => rfl
  refine htold.trans ?_
  rcases Option.or_eq_some_iff.mp hknown with hold | ⟨-, hnew⟩
  · simp only [BrowserState.withdraw] at hold
    split at hold
    · cases hold
    · exact h k known hold
  · obtain ⟨name, -, rfl⟩ := Option.map_eq_some_iff.mp hnew
    rfl

theorem isSome_after (hkey : key ∉ goodbye) (h : (state.instances key).isSome = true) :
    ((handled inner state goodbye es now).state.instances key).isSome = true := by
  rw [instances_handled]
  refine discovers_merged.keeps key ?_
  simpa [BrowserState.withdraw, hkey] using h

theorem times_map : times .srvTxt key (ks.map (⟨.srvTxt, now, ·⟩)) =
    List.replicate (ks.count key) now := by
  induction ks with
  | nil => rfl
  | cons k ks ih =>
    by_cases hk : k = key
    · simp only [List.map_cons, times, List.filterMap_cons, hk, and_self, if_true] at ih ⊢
      rw [ih, List.count_cons_self, List.replicate_succ]
    · simp only [List.map_cons, times, List.filterMap_cons, hk, and_false, if_false] at ih ⊢
      rw [ih, List.count_cons_of_ne hk]

/-- A packet asks about an instance that it brings to light, and about no other that it does not
withdraw. -/
theorem handled_asks (hkey : key ∉ goodbye) :
    let asked := (merged inner state goodbye es).discovered.filter fun k =>
      ((merged inner state goodbye es).state.instances k).any fun i => !i.complete
    let after := (handled inner state goodbye es now).state
    times kind key (asked.map (⟨.srvTxt, now, ·⟩)) = [] ∧
        after.queriedAt kind key = state.queriedAt kind key ∨
      times kind key (asked.map (⟨.srvTxt, now, ·⟩)) = [now] ∧
        after.queriedAt kind key = some now ∧ state.instances key = none ∧
        (after.instances key).isSome = true := by
  intro asked after
  have hd : Discovers (state.withdraw goodbye) (merged inner state goodbye es) := discovers_merged
  have hforget : ((merged inner state goodbye es).state.forgetQueries goodbye).queriedAt kind key =
      state.queriedAt kind key := by
    rw [← @queriedAt_merged inner state kind es goodbye]
    cases kind <;> simp [BrowserState.queriedAt, BrowserState.forgetQueries, hkey]
  have hafter : after.queriedAt kind key = if kind = .srvTxt ∧ key ∈ asked then some now
      else state.queriedAt kind key := by
    change (((merged inner state goodbye es).discovered.foldl (followUp now)
      ((merged inner state goodbye es).state.forgetQueries goodbye, [])).1).queriedAt kind key = _
    rw [queriedAt_followUps, hforget]
    simp only [asked, List.mem_filter]
    rfl
  by_cases hask : kind = .srvTxt ∧ key ∈ asked
  · right
    rw [if_pos hask] at hafter
    have hmem := List.mem_filter.mp hask.2
    obtain ⟨hnone, hsome⟩ := hd.fresh key hmem.1
    refine ⟨?_, hafter, ?_, ?_⟩
    · rw [hask.1, times_map, List.count_eq_one_of_mem (hd.nodup.filter _) hask.2]
      rfl
    · simpa [BrowserState.withdraw, hkey] using hnone
    · exact (congrArg (fun f => (f key).isSome) instances_handled).trans hsome
  · rw [if_neg hask] at hafter
    refine .inl ⟨?_, hafter⟩
    rw [times, List.filterMap_eq_nil_iff]
    intro ask hmem
    obtain ⟨k, hk, rfl⟩ := List.mem_map.mp hmem
    rw [if_neg]
    rintro ⟨rfl, rfl⟩
    exact hask ⟨rfl, hk⟩

/-! One loop at a time, and its follow-ups. -/

/-- At most one loop is not at its end. -/
def Single (loops : List LoopPhase) : Prop :=
  ∀ (i j : ℕ) (p q : LoopPhase), loops[i]? = some p → loops[j]? = some q → p ≠ .ended →
    q ≠ .ended → i = j

theorem Single.only {loops : List LoopPhase} {p p' q : LoopPhase} {j : ℕ} (h : Single loops)
    (hi : loops[i]? = some p) (hp : p ≠ .ended) (hj : (loops.set i p')[j]? = some q)
    (hq : q ≠ .ended) : j = i ∧ q = p' := by
  by_cases hji : i = j
  · subst hji
    rw [List.getElem?_set_self (List.getElem?_eq_some_iff.mp hi).1] at hj
    exact ⟨rfl, (Option.some.inj hj).symm⟩
  · rw [List.getElem?_set_ne hji] at hj
    exact absurd (h i j p q hi hj hp hq) hji

theorem Single.set {loops : List LoopPhase} {p p' : LoopPhase} (h : Single loops)
    (hi : loops[i]? = some p) (hp : p ≠ .ended) : Single (loops.set i p') := by
  intro j l q r hj hl hq hr
  exact (h.only hi hp hj hq).1.trans (h.only hi hp hl hr).1.symm

/-- The times in the state are those of the latest questions about `key`, and what a loop found due
has not been asked in the meantime. -/
structure Pacing (key : String) (s : Browser) : Prop where
  named : Named s.state
  single : Single s.loops
  queried : ∀ kind, s.state.queriedAt kind key = (times kind key s.asks).head?
  spaced : ∀ kind, Spaced (times kind key s.asks)
  known : ∀ kind, times kind key s.asks ≠ [] → (s.state.instances key).isSome = true
  due : ∀ (i now : ℕ) (ds : List DueFollowUp), s.loops[i]? = some (.due now ds) →
    (ds.map (·.key)).Nodup ∧
    ∀ d ∈ ds, d.key = key → (s.state.instances key).isSome = true ∧ ∀ kind, d.due kind = true →
      ∀ time ∈ times kind key s.asks, time + followUpRetryMs ≤ now

theorem keys_dueFollowUps (h : Named state) :
    ((dueFollowUps state now keys).map (·.key)).Sublist keys := by
  induction keys with
  | nil => exact List.Sublist.slnil
  | cons k keys ih =>
    have hcons : dueFollowUps state now (k :: keys) =
        ((state.instances k).toList.filter fun i => !i.complete).map (dueFollowUp state now) ++
          dueFollowUps state now keys := by
      cases hk : state.instances k with
      | none => simp [dueFollowUps, hk]
      | some j => cases hc : j.complete <;> simp [dueFollowUps, hk, hc]
    rw [hcons, List.map_append]
    cases hk : state.instances k with
    | none => exact ih.cons k
    | some j =>
      cases hc : j.complete with
      | true => simpa [hc] using ih.cons k
      | false => simpa [hc, dueFollowUp, h k j hk] using ih.cons_cons k

theorem mem_dueFollowUps (hd : d ∈ dueFollowUps state now keys) :
    ∃ k ∈ keys, ∃ j, state.instances k = some j ∧ j.complete = false ∧
      d = dueFollowUp state now j := by
  obtain ⟨j, hj, rfl⟩ := List.mem_map.mp hd
  obtain ⟨hj, hc⟩ := List.mem_filter.mp hj
  obtain ⟨k, hk, hkj⟩ := List.mem_filterMap.mp hj
  exact ⟨k, hk, j, hkj, by simpa using hc, rfl⟩

theorem due_dueFollowUp {j : Instance} (h : (dueFollowUp state now j).due kind = true) :
    followUpRetryMs ≤ now - (state.queriedAt kind j.instanceFqdn).getD 0 := by
  cases kind with
  | srvTxt => exact of_decide_eq_true h
  | a => exact of_decide_eq_true (Bool.and_eq_true_iff.mp h).2

theorem Pacing.scan {p : LoopPhase} (h : Pacing key s) (hkeys : keys.Nodup)
    (hi : s.loops[i]? = some p) (hp : p ≠ .ended) : Pacing key { s with
      loops := s.loops.set i (.due now (dueFollowUps s.state now keys))
      sent := s.sent ++ [(plainappServiceType, typePtr)] } := by
  refine ⟨h.named, h.single.set hi hp, h.queried, h.spaced, h.known, ?_⟩
  intro j now' ds hj
  obtain ⟨-, heq⟩ := h.single.only hi hp hj (by simp)
  cases heq
  refine ⟨(keys_dueFollowUps h.named).nodup hkeys, ?_⟩
  rintro d hd rfl
  obtain ⟨k, -, j, hj, -, rfl⟩ := mem_dueFollowUps hd
  have hk : j.instanceFqdn = k := h.named k j hj
  refine ⟨?_, ?_⟩
  · rw [dueFollowUp, hk, hj]
    rfl
  · intro kind hdue
    have hago : followUpRetryMs ≤ now - (s.state.queriedAt kind
        (dueFollowUp s.state now j).key).getD 0 := due_dueFollowUp hdue
    rw [h.queried kind] at hago
    exact spaced_le (h.spaced kind) hago

theorem Pacing.mark {sent : List (String × UInt16)} (h : Pacing key s)
    (hi : s.loops[i]? = some (.due now ds)) : Pacing key { s with
      state := (ds.foldl (markDue now) (s.state, [], [])).1
      loops := s.loops.set i .checking
      sent := sent
      asks := asksOf now ds ++ s.asks } := by
  obtain ⟨hnodup, hdue⟩ := h.due i now ds hi
  have hinstances : (ds.foldl (markDue now) (s.state, [], [])).1.instances = s.state.instances :=
    instances_markDues
  have htimes : ∀ kind, times kind key (asksOf now ds ++ s.asks) =
      times kind key (asksOf now ds) ++ times kind key s.asks := fun _ => times_append _ _
  refine ⟨?_, h.single.set hi (by simp), ?_, ?_, ?_, ?_⟩
  · intro k j hj
    rw [hinstances] at hj
    exact h.named k j hj
  · intro kind
    rw [queriedAt_markDues hnodup, h.queried kind, htimes, List.head?_append]
  · intro kind
    rw [htimes]
    rcases @times_asksOf key kind now ds hnodup with hnil | ⟨hone, d, hd, hkey, hkind⟩
    · rw [hnil]
      exact h.spaced kind
    · rw [hone]
      exact spaced_cons (h.spaced kind) ((hdue d hd hkey).2 kind hkind)
  · intro kind hne
    change ((ds.foldl (markDue now) (s.state, [], [])).1.instances key).isSome = true
    rw [htimes] at hne
    rw [hinstances]
    rcases @times_asksOf key kind now ds hnodup with hnil | ⟨-, d, hd, hkey, -⟩
    · rw [hnil] at hne
      exact h.known kind hne
    · exact (hdue d hd hkey).1
  · intro j now' ds' hj
    obtain ⟨-, heq⟩ := h.single.only hi (by simp) hj (by simp)
    cases heq

theorem Pacing.packet {sent : List (String × UInt16)} (h : Pacing key s) (hkey : key ∉ goodbye) :
    Pacing key { s with
      state := (handled inner s.state goodbye es now).state
      sent := sent
      asks := (((merged inner s.state goodbye es).discovered.filter fun k =>
          ((merged inner s.state goodbye es).state.instances k).any fun i => !i.complete).map
        (⟨.srvTxt, now, ·⟩)) ++ s.asks } := by
  have hasks : ∀ kind, _ := fun kind => @handled_asks inner s.state key kind now es goodbye hkey
  refine ⟨named_handled h.named, h.single, ?_, ?_, ?_, ?_⟩
  · intro kind
    rw [times_append]
    rcases hasks kind with ⟨hnil, hsame⟩ | ⟨hone, hnow, -, -⟩
    · rw [hnil, hsame]
      exact h.queried kind
    · rw [hone, hnow]
      rfl
  · intro kind
    rw [times_append]
    rcases hasks kind with ⟨hnil, -⟩ | ⟨hone, -, hnone, -⟩
    · rw [hnil]
      exact h.spaced kind
    · -- nothing was asked about an instance that was not there
      have hempty : times kind key s.asks = [] := by
        by_contra hne
        have hknown := h.known kind hne
        rw [hnone] at hknown
        cases hknown
      rw [hone, hempty]
      exact List.pairwise_singleton _ _
  · intro kind hne
    rw [times_append] at hne
    rcases hasks kind with ⟨hnil, -⟩ | ⟨-, -, -, hsome⟩
    · rw [hnil] at hne
      exact isSome_after hkey (h.known kind hne)
    · exact hsome
  · intro j now' ds hj
    obtain ⟨hnodup, hdue⟩ := h.due j now' ds hj
    refine ⟨hnodup, ?_⟩
    intro d hd hdkey
    obtain ⟨hsome, hold⟩ := hdue d hd hdkey
    refine ⟨isSome_after hkey hsome, ?_⟩
    intro kind hkind
    rw [times_append]
    rcases hasks kind with ⟨hnil, -⟩ | ⟨-, -, hnone, -⟩
    · rw [hnil]
      exact hold kind hkind
    · rw [hnone] at hsome
      cases hsome

theorem pacing_next {action : BrowseAction} (h : Pacing key s) (hg : Steady inner key s action)
    (ht : s.next inner action = some t) : Pacing key t := by
  cases action with
  | start =>
    simp only [Browser.next, Option.some.injEq] at ht
    cases hr : s.running with
    | true =>
      rw [if_pos hr] at ht
      exact ht ▸ h
    | false =>
      rw [if_neg (by simp [hr])] at ht
      subst ht
      have hended : ∀ (i : ℕ) (p : LoopPhase), (s.loops ++ [.checking])[i]? = some p → p ≠ .ended →
          i = s.loops.length ∧ p = .checking := by
        intro i p hi hp
        rcases Nat.lt_or_ge i s.loops.length with hlt | hge
        · rw [List.getElem?_append_left hlt] at hi
          exact absurd (hg hr p (List.mem_of_getElem? hi)) hp
        · rw [List.getElem?_append_right hge, List.getElem?_singleton] at hi
          split at hi
          · exact ⟨by omega, (Option.some.inj hi).symm⟩
          · cases hi
      refine ⟨h.named, ?_, h.queried, h.spaced, h.known, ?_⟩
      · intro i j p q hi hj hp hq
        exact (hended i p hi hp).1.trans (hended j q hj hq).1.symm
      · intro i now ds hi
        exact absurd (hended i _ hi (by simp)).2 (by simp)
  | stop =>
    cases ht
    exact ⟨h.named, h.single, h.queried, h.spaced, h.known, h.due⟩
  | check i =>
    simp only [Browser.next] at ht
    split at ht
    · next hi =>
      cases ht
      refine ⟨h.named, h.single.set hi (by simp), h.queried, h.spaced, h.known, ?_⟩
      intro j now ds hj
      obtain ⟨-, heq⟩ := h.single.only hi (by simp) hj (by simp)
      split at heq
      · cases heq
      · cases heq
    · cases ht
  | scan i now keys =>
    simp only [Browser.next] at ht
    split at ht
    · next hi =>
      cases ht
      exact h.scan hg hi (by simp)
    · cases ht
  | mark i =>
    simp only [Browser.next] at ht
    split at ht
    · next now ds hi =>
      cases ht
      exact h.mark hi
    · cases ht
  | packet data sender now =>
    obtain ⟨out, hout, rfl⟩ := Option.map_eq_some_iff.mp ht
    cases hp : handlePacket inner s.state data sender now with
    | error e => simp [hp, Except.toOption] at hout
    | ok o =>
      rw [hp] at hout
      obtain rfl : o = out := Option.some.inj hout
      rw [handlePacket_eq hp]
      cases hr : response inner data sender with
      | none => simpa [newlyAsked, hr] using h
      | some records =>
        simp only [newlyAsked, hr, Option.elim_some]
        exact h.packet (hg records hr)
  | clearInstances => exact hg.elim

/-- The SRV record of `x`, and two scans of one loop; and a loop that is started before the last one
looked at the flag, with both in a scan at once. -/
theorem demo_scans :
    (((browsing demoInner).run (Steady demoInner "x._plainapp._tcp.local") ⟨.default, false, [], [], []⟩
      [.start, .check 0, .packet (srvPacket "h1.local" 8443) "10.0.0.2" 0,
        .scan 0 100000 ["x._plainapp._tcp.local"], .mark 0, .check 0,
        .scan 0 110000 ["x._plainapp._tcp.local"], .mark 0]).any fun s =>
      times .srvTxt "x._plainapp._tcp.local" s.asks = [110000, 100000]) = true ∧
    (((browsing demoInner).run (fun _ _ => True) ⟨.default, false, [], [], []⟩
      [.start, .check 0, .packet (srvPacket "h1.local" 8443) "10.0.0.2" 0, .stop, .start, .check 1,
        .scan 0 100000 ["x._plainapp._tcp.local"], .scan 1 100000 ["x._plainapp._tcp.local"],
        .mark 0, .mark 1]).any fun s =>
      times .srvTxt "x._plainapp._tcp.local" s.asks = [100000, 100000]) = true := by
  decide +kernel

/-- Two loops ask at once. -/
example : ∃ s, Reachable (browsing demoInner) s ∧
    ¬ Spaced (times .srvTxt "x._plainapp._tcp.local" s.asks) := by
  obtain ⟨s, hs, htimes⟩ := ReachableUnder.of_run rfl demo_scans.2
  refine ⟨s, hs, ?_⟩
  rw [of_decide_eq_true htimes]
  intro h
  have hle := (List.pairwise_cons.mp h).1 100000 List.mem_cons_self
  exact absurd hle (by decide)

end PlainRs.Mdns
