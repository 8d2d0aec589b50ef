import PlainRs.LocalApi.Discover.DnsSd

/-! The threads of the DNS-SD browser: which resolver is on for a service, and whose entries are
held. -/
namespace PlainRs.LocalApi.DnsSd

open Grouped PlainRs.Mdns Runs

/-- The resolver works for the key, and its flag is on. -/
def Owns (resolvers : List Resolver) (key : String) (g : ℕ) : Prop :=
  ∃ r, resolvers[g]? = some r ∧ r.service.key = key ∧ r.flag = true

/-- What a step may make of a resolver. -/
structure Kept (r r' : Resolver) : Prop where
  service : r'.service = r.service
  flag : r'.flag = true → r.flag = true
  past : r.flag = false → r.phase.isPast = true → r'.phase.isPast = true

/-- The keys in `active` are those of the resolvers that are on. -/
structure Listed (s : Browser) : Prop where
  distinct : (s.active.map Prod.fst).Nodup
  active : ∀ key g, (key, g) ∈ s.active ↔ Owns s.resolvers key g

variable {toLowercase : String → String} {s t : Browser} {a : Action} {g i : ℕ} {p : Phase}
  {r r' : Resolver} {key k : String} {l : List Resolver} {f : Resolver → Resolver} {held : Held}

theorem Kept.rfl : Kept r r := ⟨Eq.refl _, id, fun _ h => h⟩

theorem kept_modify (hf : ∀ x, l[i]? = some x → Kept x (f x)) (hr : l[g]? = some r) :
    ∃ r', (l.modify i f)[g]? = some r' ∧ Kept r r' := by
  rw [List.getElem?_modify, hr]
  by_cases hi : i = g
  · subst hi
    exact ⟨f r, by simp, hf r hr⟩
  · exact ⟨r, by simp [hi], .rfl⟩

theorem getElem?_modify_self (hr : l[g]? = some r) : (l.modify g f)[g]? = some (f r) := by
  rw [List.getElem?_modify, hr]
  simp

theorem kept_off (x : Resolver) : Kept x { x with flag := false } := by
  refine ⟨rfl, ?_, fun _ h => h⟩
  intro h
  cases h

theorem kept_turn {turn : Turn} (h : r.turn turn = some p) : Kept r { r with phase := p } := by
  refine ⟨rfl, id, ?_⟩
  intro hoff hpast
  cases turn with
  | load =>
    cases hphase : r.phase <;> simp [Resolver.turn, hphase, Phase.isPast] at h hpast
  | details answer =>
    cases hphase : r.phase <;> simp [Resolver.turn, hphase, Phase.isPast] at h hpast
  | wake =>
    cases hphase : r.phase <;> simp [Resolver.turn, hphase, hoff] at h
    subst h
    rfl

theorem owns_modify (hservice : ∀ x, (f x).service = x.service) (hflag : ∀ x, (f x).flag = x.flag) :
    Owns (l.modify i f) key g ↔ Owns l key g := by
  unfold Owns
  rw [List.getElem?_modify]
  by_cases hi : i = g
  · subst hi
    cases l[i]? with
    | none => simp
    | some x => simp [hservice, hflag]
  · simp [hi]

theorem owns_unique (h : Listed s) (hg : Owns s.resolvers key g) (hi : Owns s.resolvers key i) :
    g = i := by
  have hlookup := (lookup_iff_mem h.distinct).mpr ((h.active _ _).mpr hg)
  rw [(lookup_iff_mem h.distinct).mpr ((h.active _ _).mpr hi)] at hlookup
  exact (Option.some.inj hlookup).symm

theorem listed_deactivate (h : Listed s) : Listed (s.deactivate key) := by
  refine ⟨h.distinct.sublist (List.filter_sublist.map _), ?_⟩
  intro k g
  have hmem : (k, g) ∈ (s.deactivate key).active ↔ (k, g) ∈ s.active ∧ k ≠ key := by
    simp [Browser.deactivate]
  rw [hmem, h.active]
  cases hlookup : s.active.lookup key with
  | none =>
    have hsame : (s.deactivate key).resolvers = s.resolvers := by simp [Browser.deactivate, hlookup]
    rw [hsame, and_iff_left_iff_imp]
    rintro howns rfl
    rw [(lookup_iff_mem h.distinct).mpr ((h.active _ _).mpr howns)] at hlookup
    cases hlookup
  | some i =>
    have hsame : (s.deactivate key).resolvers =
        s.resolvers.modify i fun r => { r with flag := false } := by
      simp [Browser.deactivate, hlookup]
    have hi : Owns s.resolvers key i := (h.active _ _).mp ((lookup_iff_mem h.distinct).mp hlookup)
    rw [hsame]
    constructor
    · rintro ⟨⟨r, hr, hk, hflag⟩, hne⟩
      have hgi : i ≠ g := by
        rintro rfl
        obtain ⟨x, hx, hkey, -⟩ := hi
        rw [hr] at hx
        cases hx
        exact hne (hk.symm.trans hkey)
      exact ⟨r, by rw [List.getElem?_modify, hr]; simp [hgi], hk, hflag⟩
    · rintro ⟨r, hr, hk, hflag⟩
      rw [List.getElem?_modify] at hr
      obtain ⟨x, hx, hxr⟩ := Option.map_eq_some_iff.mp hr
      by_cases hgi : i = g
      · rw [if_pos hgi] at hxr
        subst hxr
        cases hflag
      · rw [if_neg hgi] at hxr
        subst hxr
        refine ⟨⟨x, hx, hk, hflag⟩, ?_⟩
        rintro rfl
        exact hgi (owns_unique h hi ⟨x, hx, hk, hflag⟩)

/-- A step is one of the browsing thread's, or a resolver goes on to another phase. -/
theorem next_turn {turn : Turn} (h : s.next toLowercase (.turn g turn) = some t) :
    ∃ r p, s.resolvers[g]? = some r ∧ r.turn turn = some p ∧ t = s.enter g p := by
  obtain ⟨p, hp, rfl⟩ := Option.map_eq_some_iff.mp h
  obtain ⟨r, hr, hturn⟩ := Option.bind_eq_some_iff.mp hp
  exact ⟨r, p, hr, hturn, rfl⟩

theorem next_store {keys : List String} (h : s.next toLowercase (.store g keys) = some t) :
    ∃ r resolved ips, s.resolvers[g]? = some r ∧ r.phase = .storing resolved ips ∧
      t = s.store toLowercase g keys r.service r.flag resolved ips := by
  simp only [Browser.next] at h
  split at h
  · next service flag resolved ips hr => exact ⟨_, resolved, ips, hr, rfl, (Option.some.inj h).symm⟩
  · cases h

theorem next_announce (h : s.next toLowercase (.announce g) = some t) :
    ∃ r device, s.resolvers[g]? = some r ∧ r.phase = .announcing device ∧
      t = { s with found := s.found ++ device.toList }.enter g .sleeping := by
  simp only [Browser.next] at h
  split at h
  · next service flag device hr => exact ⟨_, device, hr, rfl, (Option.some.inj h).symm⟩
  · cases h

theorem kept_past (hp : p.isPast = true) : Kept r { r with phase := p } := ⟨rfl, id, fun _ _ => hp⟩

theorem kept_deactivate (hr : s.resolvers[g]? = some r) :
    ∃ r', (s.deactivate key).resolvers[g]? = some r' ∧ Kept r r' := by
  rw [Browser.deactivate]
  cases s.active.lookup key with
  | none => exact ⟨r, hr, .rfl⟩
  | some i => exact kept_modify (fun x _ => kept_off x) hr

theorem kept_next (h : s.next toLowercase a = some t) (hr : s.resolvers[g]? = some r) :
    ∃ r', t.resolvers[g]? = some r' ∧ Kept r r' := by
  cases a with
  | add service =>
    simp only [Browser.next] at h
    split at h
    · cases h
      split
      · exact ⟨r, hr, .rfl⟩
      · exact ⟨r, (List.getElem?_append_left (List.getElem?_eq_some_iff.mp hr).1).trans hr, .rfl⟩
    · cases h
  | remove service =>
    simp only [Browser.next] at h
    split at h
    · cases h
      exact kept_deactivate hr
    · cases h
  | drop =>
    simp only [Browser.next] at h
    split at h
    · cases h
      exact ⟨r, hr, .rfl⟩
    · cases h
  | close =>
    simp only [Browser.next] at h
    split at h
    · cases h
      exact ⟨r, hr, .rfl⟩
    · cases h
  | turnOff key =>
    simp only [Browser.next] at h
    split at h
    · cases h
      exact kept_deactivate hr
    · cases h
  | clear =>
    simp only [Browser.next] at h
    split at h
    · cases h
      exact ⟨r, hr, .rfl⟩
    · cases h
  | turn i turn =>
    obtain ⟨x, p, hx, hp, rfl⟩ := next_turn h
    refine kept_modify ?_ hr
    intro y hy
    rw [hx] at hy
    cases hy
    exact kept_turn hp
  | store i keys =>
    obtain ⟨x, resolved, ips, -, -, rfl⟩ := next_store h
    exact kept_modify (fun _ _ => kept_past rfl) hr
  | announce i =>
    obtain ⟨x, device, -, -, rfl⟩ := next_announce h
    exact kept_modify (fun _ _ => kept_past rfl) hr

theorem listed_enter (h : Listed s) : Listed (s.enter g p) := by
  refine ⟨h.distinct, ?_⟩
  intro key i
  rw [show (s.enter g p).active = s.active from rfl, h.active]
  exact (@owns_modify i g key s.resolvers (fun r => { r with phase := p }) (fun _ => rfl)
    fun _ => rfl).symm

theorem listed_add {service : ServiceName} (h : Listed s)
    (hnone : s.active.lookup service.key = none) : Listed { s with
      active := (service.key, s.resolvers.length) :: s.active
      resolvers := s.resolvers ++ [⟨service, true, .loading⟩] } := by
  refine ⟨?_, ?_⟩
  · refine List.nodup_cons.mpr ⟨?_, h.distinct⟩
    intro hmem
    obtain ⟨⟨k, i⟩, hentry, rfl⟩ := List.mem_map.mp hmem
    rw [(lookup_iff_mem h.distinct).mpr hentry] at hnone
    cases hnone
  · intro key i
    change (key, i) ∈ (service.key, s.resolvers.length) :: s.active ↔ _
    rw [List.mem_cons, h.active]
    constructor
    · rintro (hnew | ⟨r, hr, hk, hflag⟩)
      · obtain ⟨rfl, rfl⟩ := Prod.mk.inj hnew
        exact ⟨⟨service, true, .loading⟩, List.getElem?_concat_length, rfl, rfl⟩
      · exact ⟨r, (List.getElem?_append_left (List.getElem?_eq_some_iff.mp hr).1).trans hr, hk, hflag⟩
    · rintro ⟨r, hr, hk, hflag⟩
      by_cases hi : i < s.resolvers.length
      · exact .inr ⟨r, (List.getElem?_append_left hi).symm.trans hr, hk, hflag⟩
      · obtain ⟨hlt, -⟩ := List.getElem?_eq_some_iff.mp hr
        rw [List.length_append, List.length_singleton] at hlt
        obtain rfl : i = s.resolvers.length := by omega
        rw [List.getElem?_concat_length] at hr
        cases hr
        exact .inl (by rw [← hk])

theorem listed_next (h : Listed s) (ht : s.next toLowercase a = some t) : Listed t := by
  cases a with
  | add service =>
    simp only [Browser.next] at ht
    split at ht
    · cases ht
      split
      · exact h
      · next hnone => exact listed_add h (Option.not_isSome_iff_eq_none.mp hnone)
    · cases ht
  | remove service =>
    simp only [Browser.next] at ht
    split at ht
    · cases ht
      exact ⟨(listed_deactivate h).distinct, (listed_deactivate h).active⟩
    · cases ht
  | drop =>
    simp only [Browser.next] at ht
    split at ht
    · cases ht
      exact ⟨h.distinct, h.active⟩
    · cases ht
  | close =>
    simp only [Browser.next] at ht
    split at ht
    · cases ht
      exact ⟨h.distinct, h.active⟩
    · cases ht
  | turnOff key =>
    simp only [Browser.next] at ht
    split at ht
    · cases ht
      exact listed_deactivate h
    · cases ht
  | clear =>
    simp only [Browser.next] at ht
    split at ht
    · cases ht
      exact ⟨h.distinct, h.active⟩
    · cases ht
  | turn i turn =>
    obtain ⟨r, p, -, -, rfl⟩ := next_turn ht
    exact listed_enter h
  | store i keys =>
    obtain ⟨r, resolved, ips, -, -, rfl⟩ := next_store ht
    exact listed_enter ⟨h.distinct, h.active⟩
  | announce i =>
    obtain ⟨r, device, -, -, rfl⟩ := next_announce ht
    exact listed_enter ⟨h.distinct, h.active⟩

/-- The resolver that wrote an entry is on, or its entry is about to go, or it wrote late. -/
def Accounted (s : Browser) (key : String) (g : ℕ) : Prop :=
  ∃ r, s.resolvers[g]? = some r ∧ r.service.key = key ∧
    (r.flag = true ∨ s.pc = .removing key ∨ s.pc = .closing ∨ g ∈ s.late)

def Known (d : FoundDevice) : Prop := d.id ≠ "" ∧ d.port ≠ 0 ∧ d.ips ≠ []

structure Sound (s : Browser) : Prop where
  listed : Listed s
  writer : ∀ key held, s.snapshots key = some held → Accounted s key held.writer
  addressed : ∀ key held, s.snapshots key = some held → held.snapshot.complete = true →
    held.snapshot.ips ≠ []
  once : s.late.Nodup
  late : ∀ g ∈ s.late, ∃ r, s.resolvers[g]? = some r ∧ r.flag = false ∧ r.phase.isPast = true
  announcing : ∀ r ∈ s.resolvers, ∀ d, r.phase = .announcing (some d) → Known d
  found : ∀ d ∈ s.found, Known d

theorem Accounted.of_same (h : Accounted s key g) (hpc : t.pc = s.pc)
    (hlate : ∀ i ∈ s.late, i ∈ t.late) (hkept : ∀ r, s.resolvers[g]? = some r →
      ∃ r', t.resolvers[g]? = some r' ∧ r'.service = r.service ∧ r'.flag = r.flag) :
    Accounted t key g := by
  obtain ⟨r, hr, hk, hwhy⟩ := h
  obtain ⟨r', hr', hservice, hflag⟩ := hkept r hr
  refine ⟨r', hr', by rw [hservice, hk], ?_⟩
  rw [hflag, hpc]
  rcases hwhy with hon | hremoving | hclosing | hmem
  · exact .inl hon
  · exact .inr (.inl hremoving)
  · exact .inr (.inr (.inl hclosing))
  · exact .inr (.inr (.inr (hlate g hmem)))

theorem accounted_enter (h : Accounted s key g) : Accounted (s.enter i p) key g := by
  refine h.of_same rfl (fun _ hmem => hmem) ?_
  intro r hr
  rw [Browser.enter, List.getElem?_modify, hr]
  by_cases hi : i = g
  · exact ⟨{ r with phase := p }, by simp [hi], rfl, rfl⟩
  · exact ⟨r, by simp [hi], rfl, rfl⟩

/-- Turning a key off concerns its own entry only. -/
theorem accounted_deactivate (hl : Listed s) (hpc : s.pc = .listening) (h : Accounted s k g) :
    Accounted { s.deactivate key with pc := .removing key } k g := by
  obtain ⟨r, hr, hk, hwhy⟩ := h
  obtain ⟨r', hr', hkept⟩ := @kept_deactivate s g r key hr
  refine ⟨r', hr', by rw [hkept.service, hk], ?_⟩
  rw [hpc] at hwhy
  rcases hwhy with hon | hremoving | hclosing | hmem
  · by_cases hkey : k = key
    · exact .inr (.inl (by rw [hkey]))
    · have hactive := (hl.active k g).mpr ⟨r, hr, hk, hon⟩
      have hstays : (k, g) ∈ (s.deactivate key).active := by
        simp [Browser.deactivate, hactive, hkey]
      obtain ⟨x, hx, -, hxon⟩ := ((listed_deactivate hl).active k g).mp hstays
      rw [hr'] at hx
      cases hx
      exact .inl hxon
  · cases hremoving
  · cases hclosing
  · exact .inr (.inr (.inr hmem))

theorem known_of_foundDevice {service : ServiceName} {resolved : ResolvedService}
    {ips : List String} {d : FoundDevice} (h : foundDevice service resolved ips = some d) :
    Known d := by
  unfold foundDevice at h
  split at h
  · cases h
  · next hnone =>
    cases h
    exact ⟨fun hid => hnone (.inl hid), fun hport => hnone (.inr (.inl hport)),
      fun hips => hnone (.inr (.inr hips))⟩

theorem addressed_keepAddresses {snapshot : MdnsServiceSnapshot}
    {previous : Option MdnsServiceSnapshot}
    (hnew : snapshot.complete = true → snapshot.ips ≠ [])
    (hold : ∀ x ∈ previous, x.complete = true → x.ips ≠ []) :
    (snapshot.keepAddresses previous).complete = true →
      (snapshot.keepAddresses previous).ips ≠ [] := by
  cases previous with
  | none => exact hnew
  | some x =>
    rw [MdnsServiceSnapshot.keepAddresses]
    split
    · exact hold x rfl
    · exact hnew

theorem addressed_snapshotOf {service : ServiceName} {resolved : ResolvedService}
    {ips : List String} (h : (snapshotOf service resolved ips).complete = true) :
    (snapshotOf service resolved ips).ips ≠ [] := by
  simp only [snapshotOf, Bool.and_eq_true] at h
  exact of_decide_eq_true h.1.2

theorem late_next (h : Sound s) (ht : s.next toLowercase a = some t) (hg : g ∈ s.late) :
    ∃ r, t.resolvers[g]? = some r ∧ r.flag = false ∧ r.phase.isPast = true := by
  obtain ⟨r, hr, hoff, hpast⟩ := h.late g hg
  obtain ⟨r', hr', hkept⟩ := kept_next ht hr
  refine ⟨r', hr', ?_, hkept.past hoff hpast⟩
  by_contra hon
  rw [Bool.not_eq_false] at hon
  rw [hkept.flag hon] at hoff
  cases hoff

/-- A resolver in a new phase has a device to announce only if the phase does. -/
theorem announcing_modify (h : ∀ r ∈ l, ∀ d, r.phase = .announcing (some d) → Known d)
    (hf : ∀ x d, (f x).phase = .announcing (some d) → x.phase = .announcing (some d) ∨ Known d) :
    ∀ r ∈ l.modify i f, ∀ d, r.phase = .announcing (some d) → Known d := by
  intro r hr d hd
  obtain ⟨g, hg⟩ := List.mem_iff_getElem?.mp hr
  rw [List.getElem?_modify] at hg
  obtain ⟨x, hx, rfl⟩ := Option.map_eq_some_iff.mp hg
  by_cases hi : i = g
  · rw [if_pos hi] at hd
    rcases hf x d hd with hold | hknown
    · exact h x (List.mem_of_getElem? hx) d hold
    · exact hknown
  · rw [if_neg hi] at hd
    exact h x (List.mem_of_getElem? hx) d hd

theorem announcing_deactivate (h : ∀ r ∈ s.resolvers, ∀ d, r.phase = .announcing (some d) → Known d) :
    ∀ r ∈ (s.deactivate key).resolvers, ∀ d, r.phase = .announcing (some d) → Known d := by
  rw [Browser.deactivate]
  cases s.active.lookup key with
  | none => exact h
  | some i => exact announcing_modify h fun _ _ hd => .inl hd

theorem sound_add {service : ServiceName} (h : Sound s)
    (ht : s.next toLowercase (.add service) = some t) : Sound t := by
  have hlisted := listed_next h.listed ht
  have hlate := fun i (hi : i ∈ s.late) => late_next h ht hi
  simp only [Browser.next] at ht
  split at ht
  · cases ht
    split
    · exact h
    · next hnone =>
      rw [if_neg hnone] at hlisted hlate
      refine ⟨hlisted, ?_, h.addressed, h.once, hlate, ?_, h.found⟩
      · intro key held hheld
        refine (h.writer key held hheld).of_same rfl (fun _ hmem => hmem) ?_
        intro r hr
        exact ⟨r, (List.getElem?_append_left (List.getElem?_eq_some_iff.mp hr).1).trans hr, rfl, rfl⟩
      · intro r hr d hd
        rcases List.mem_append.mp hr with hold | hnew
        · exact h.announcing r hold d hd
        · rw [List.mem_singleton.mp hnew] at hd
          cases hd
  · cases ht

theorem sound_remove {service : ServiceName} (h : Sound s)
    (ht : s.next toLowercase (.remove service) = some t) : Sound t := by
  have hlisted := listed_next h.listed ht
  have hlate := fun i (hi : i ∈ s.late) => late_next h ht hi
  simp only [Browser.next] at ht
  split at ht
  · next hpc =>
    cases ht
    exact ⟨hlisted, fun key held hheld => accounted_deactivate h.listed hpc (h.writer key held hheld),
      h.addressed, h.once, hlate, announcing_deactivate h.announcing, h.found⟩
  · cases ht

theorem of_dropped {snapshots : String → Option Held}
    (h : Function.update snapshots key none k = some held) : k ≠ key ∧ snapshots k = some held := by
  by_cases hk : k = key
  · rw [hk, Function.update_self] at h
    cases h
  · rw [Function.update_of_ne hk] at h
    exact ⟨hk, h⟩

theorem sound_drop (h : Sound s) (ht : s.next toLowercase .drop = some t) : Sound t := by
  have hlisted := listed_next h.listed ht
  simp only [Browser.next] at ht
  split at ht
  · next key hpc =>
    cases ht
    refine ⟨hlisted, ?_, ?_, h.once, h.late, h.announcing, h.found⟩
    · intro k held hheld
      obtain ⟨hk, hheld⟩ := of_dropped hheld
      obtain ⟨r, hr, hkey, hwhy⟩ := h.writer k held hheld
      refine ⟨r, hr, hkey, ?_⟩
      rw [hpc] at hwhy
      rcases hwhy with hon | hremoving | hclosing | hmem
      · exact .inl hon
      · exact absurd (BrowsePc.removing.inj hremoving).symm hk
      · cases hclosing
      · exact .inr (.inr (.inr hmem))
    · intro k held hheld
      exact h.addressed k held (of_dropped hheld).2
  · cases ht

/-- While the connection closes, every entry is about to go. -/
theorem accounted_closing (hpc : t.pc = .closing) (h : Accounted s k g)
    (hkept : ∀ r, s.resolvers[g]? = some r → ∃ r', t.resolvers[g]? = some r' ∧ Kept r r') :
    Accounted t k g := by
  obtain ⟨r, hr, hk, -⟩ := h
  obtain ⟨r', hr', hkept⟩ := hkept r hr
  exact ⟨r', hr', by rw [hkept.service, hk], .inr (.inr (.inl hpc))⟩

theorem sound_close (h : Sound s) (ht : s.next toLowercase .close = some t) : Sound t := by
  have hlisted := listed_next h.listed ht
  simp only [Browser.next] at ht
  split at ht
  · cases ht
    refine ⟨hlisted, ?_, h.addressed, h.once, h.late, h.announcing, h.found⟩
    intro k held hheld
    exact accounted_closing rfl (h.writer k held hheld) fun r hr => ⟨r, hr, .rfl⟩
  · cases ht

theorem sound_turnOff (h : Sound s) (ht : s.next toLowercase (.turnOff key) = some t) : Sound t := by
  have hlisted := listed_next h.listed ht
  have hlate := fun i (hi : i ∈ s.late) => late_next h ht hi
  simp only [Browser.next] at ht
  split at ht
  · next hpc =>
    cases ht
    refine ⟨hlisted, ?_, h.addressed, h.once, hlate, announcing_deactivate h.announcing, h.found⟩
    intro k held hheld
    exact accounted_closing hpc (h.writer k held hheld) fun r hr => kept_deactivate hr
  · cases ht

theorem sound_clear (h : Sound s) (ht : s.next toLowercase .clear = some t) : Sound t := by
  have hlisted := listed_next h.listed ht
  simp only [Browser.next] at ht
  split at ht
  · cases ht
    refine ⟨hlisted, ?_, ?_, h.once, h.late, h.announcing, h.found⟩
    · intro k held hheld
      cases hheld
    · intro k held hheld
      cases hheld
  · cases ht

theorem sound_turn {turn : Turn} (h : Sound s) (ht : s.next toLowercase (.turn g turn) = some t) :
    Sound t := by
  have hlisted := listed_next h.listed ht
  have hlate := fun i (hi : i ∈ s.late) => late_next h ht hi
  obtain ⟨r, p, hr, hp, rfl⟩ := next_turn ht
  refine ⟨hlisted, fun key held hheld => accounted_enter (h.writer key held hheld), h.addressed,
    h.once, hlate, announcing_modify h.announcing ?_, h.found⟩
  rintro x d hd
  -- No turn leads to an announcement.
  change p = .announcing (some d) at hd
  subst hd
  cases turn with
  | load | wake =>
    cases hphase : r.phase <;> cases hflag : r.flag <;> simp [Resolver.turn, hphase, hflag] at hp
  | details answer =>
    cases answer <;> cases hphase : r.phase <;> cases hflag : r.flag <;>
      simp [Resolver.turn, hphase, hflag] at hp

theorem sound_announce (h : Sound s) (ht : s.next toLowercase (.announce g) = some t) : Sound t := by
  have hlisted := listed_next h.listed ht
  have hlate := fun i (hi : i ∈ s.late) => late_next h ht hi
  obtain ⟨r, device, hr, hphase, rfl⟩ := next_announce ht
  refine ⟨hlisted, fun key held hheld => accounted_enter (h.writer key held hheld), h.addressed,
    h.once, hlate, announcing_modify h.announcing ?_, ?_⟩
  · rintro x d hd
    cases hd
  · intro d hd
    rcases List.mem_append.mp hd with hold | hnew
    · exact h.found d hold
    · cases device with
      | none => cases hnew
      | some d' =>
        rw [List.mem_singleton.mp hnew]
        exact h.announcing r (List.mem_of_getElem? hr) d' hphase

theorem sound_store {keys : List String} (h : Sound s)
    (ht : s.next toLowercase (.store g keys) = some t) : Sound t := by
  have hlisted := listed_next h.listed ht
  have hlate := fun i (hi : i ∈ s.late) => late_next h ht hi
  obtain ⟨r, resolved, ips, hr, hphase, rfl⟩ := next_store ht
  have hnew : g ∉ s.late := by
    intro hmem
    obtain ⟨x, hx, -, hpast⟩ := h.late g hmem
    rw [hr] at hx
    cases hx
    rw [hphase] at hpast
    cases hpast
  obtain ⟨device, hafter⟩ : ∃ device, (s.store toLowercase g keys r.service r.flag resolved
      ips).resolvers[g]? = some { r with phase := .announcing device } :=
    ⟨_, getElem?_modify_self hr⟩
  refine ⟨hlisted, ?_, ?_, ?_, ?_, announcing_modify h.announcing ?_, h.found⟩
  · intro key held hheld
    by_cases hkey : key = r.service.key
    · subst hkey
      have hwriter : held.writer = g := by
        simp only [Browser.store, Browser.enter, Function.update_self, Option.some.injEq] at hheld
        rw [← hheld]
      refine ⟨{ r with phase := .announcing device }, ?_, rfl, ?_⟩
      · rw [hwriter]
        exact hafter
      cases hflag : r.flag with
      | true => exact .inl rfl
      | false =>
        refine .inr (.inr (.inr ?_))
        rw [hwriter]
        exact List.mem_cons_self
    · have hold : s.snapshots key = some held := by
        simpa only [Browser.store, Browser.enter, Function.update_of_ne hkey] using hheld
      refine accounted_enter ((h.writer key held hold).of_same rfl ?_ ?_)
      · intro i hi
        change i ∈ if r.flag = true then s.late else g :: s.late
        split
        · exact hi
        · exact List.mem_cons_of_mem g hi
      · intro x hx
        exact ⟨x, hx, rfl, rfl⟩
  · intro key held hheld
    by_cases hkey : key = r.service.key
    · subst hkey
      simp only [Browser.store, Browser.enter, Function.update_self, Option.some.injEq] at hheld
      subst hheld
      refine addressed_keepAddresses addressed_snapshotOf ?_
      intro x hx
      obtain ⟨previous, hprevious, rfl⟩ := Option.map_eq_some_iff.mp hx
      exact h.addressed _ previous hprevious
    · refine h.addressed key held ?_
      simpa only [Browser.store, Browser.enter, Function.update_of_ne hkey] using hheld
  · change (if r.flag = true then s.late else g :: s.late).Nodup
    split
    · exact h.once
    · exact List.nodup_cons.mpr ⟨hnew, h.once⟩
  · intro i hi
    change i ∈ if r.flag = true then s.late else g :: s.late at hi
    split at hi
    · exact hlate i hi
    · next hoff =>
      rcases List.mem_cons.mp hi with rfl | hi
      · exact ⟨_, hafter, Bool.eq_false_of_not_eq_true hoff, rfl⟩
      · exact hlate i hi
  · rintro x d hd
    exact .inr (known_of_foundDevice (Phase.announcing.inj hd))

theorem sound_next (h : Sound s) (ht : s.next toLowercase a = some t) : Sound t := by
  cases a with
  | add service => exact sound_add h ht
  | remove service => exact sound_remove h ht
  | drop => exact sound_drop h ht
  | close => exact sound_close h ht
  | turnOff key => exact sound_turnOff h ht
  | clear => exact sound_clear h ht
  | turn g turn => exact sound_turn h ht
  | store g keys => exact sound_store h ht
  | announce g => exact sound_announce h ht

theorem sound_reachable (h : Reachable (browser toLowercase) s) : Sound s := by
  refine Reachable.invariant ?_ (fun s a t hs ht => sound_next hs ht) h
  rintro s rfl
  refine ⟨⟨List.nodup_nil, by simp [Owns]⟩, ?_, ?_, List.nodup_nil, by simp, by simp, by simp⟩
  · intro k held hheld
    cases hheld
  · intro k held hheld
    cases hheld

def demoService : ServiceName := ⟨"Phone", "_plainapp._tcp.", "local.", 4⟩

def demoDetails : ResolvedService :=
  ⟨"Phone._plainapp._tcp.local.", "phone.local.", 8443, ["id=p1"]⟩

/-- The service goes between the second look of its resolver and the write. -/
def ghostRun : List Action :=
  [.add demoService, .turn 0 .load, .turn 0 (.details (some (demoDetails, ["10.0.0.2"]))),
    .remove demoService, .drop, .store 0 [demoService.key]]

/-- However the threads interleave, one resolver at most is on for a service, an entry was written by
a resolver of its own that is on, or whose entry is about to go, or that wrote after it was turned off,
which each does once at most, and what is complete or announced has an address. -/
theorem entries_accounted (h : Reachable (browser toLowercase) s) :
    (∀ key g i, Owns s.resolvers key g → Owns s.resolvers key i → g = i) ∧
    (∀ key held, s.snapshots key = some held → Accounted s key held.writer ∧
      (held.snapshot.complete = true → held.snapshot.ips ≠ [])) ∧
    (s.late.Nodup ∧ ∀ g ∈ s.late, ∃ r, s.resolvers[g]? = some r ∧ r.flag = false ∧
      r.phase.isPast = true) ∧
    ∀ d ∈ s.found, Known d := by
  have hs := sound_reachable h
  refine ⟨?_, ?_, ⟨hs.once, hs.late⟩, hs.found⟩
  · intro key g i hg hi
    exact owns_unique hs.listed hg hi
  · intro key held hheld
    exact ⟨hs.writer key held hheld, hs.addressed key held hheld⟩

section Ghosts

/-- The resolvers of a service are off, and none is about to write. -/
def Gone (key : String) (s : Browser) : Prop :=
  s.pc ≠ .removing key ∧ s.pc ≠ .closing ∧
    ∀ r ∈ s.resolvers, r.service.key = key → r.flag = false ∧ r.phase.isStoring = false

instance (key : String) (s : Browser) : Decidable (Gone key s) :=
  inferInstanceAs (Decidable (_ ∧ _ ∧ _))

/-- The service is not heard of, and the connection stays up. -/
def Action.leaves (key : String) : Action → Bool
  | .add service | .remove service => service.key ≠ key
  | .close => false
  | _ => true

theorem gone_modify (h : ∀ r ∈ l, r.service.key = key → r.flag = false ∧ r.phase.isStoring = false)
    (hservice : ∀ x, (f x).service = x.service)
    (hf : ∀ x ∈ l[i]?, x.flag = false → x.phase.isStoring = false →
      (f x).flag = false ∧ (f x).phase.isStoring = false) :
    ∀ r ∈ l.modify i f, r.service.key = key → r.flag = false ∧ r.phase.isStoring = false := by
  intro r hr hk
  obtain ⟨g, hg⟩ := List.mem_iff_getElem?.mp hr
  rw [List.getElem?_modify] at hg
  obtain ⟨x, hx, rfl⟩ := Option.map_eq_some_iff.mp hg
  by_cases hi : i = g
  · subst hi
    rw [if_pos rfl] at hk ⊢
    rw [hservice] at hk
    obtain ⟨hoff, hno⟩ := h x (List.mem_of_getElem? hx) hk
    exact hf x hx hoff hno
  · rw [if_neg hi] at hk ⊢
    exact h x (List.mem_of_getElem? hx) hk

theorem gone_deactivate
    (h : ∀ r ∈ s.resolvers, r.service.key = k → r.flag = false ∧ r.phase.isStoring = false) :
    ∀ r ∈ (s.deactivate key).resolvers, r.service.key = k →
      r.flag = false ∧ r.phase.isStoring = false := by
  rw [Browser.deactivate]
  cases s.active.lookup key with
  | none => exact h
  | some i => exact gone_modify h (fun _ => rfl) fun _ _ _ hno => ⟨rfl, hno⟩

theorem isStoring_turn {turn : Turn} (hoff : r.flag = false) (h : r.turn turn = some p) :
    p.isStoring = false := by
  cases turn with
  | load | wake =>
    cases hphase : r.phase <;> simp [Resolver.turn, hphase, hoff] at h
    rw [← h]
    rfl
  | details answer =>
    cases answer <;> cases hphase : r.phase <;> simp [Resolver.turn, hphase, hoff] at h
    all_goals
      rw [← h]
      rfl

theorem gone_next (h : Gone key s) (ha : a.leaves key = true)
    (ht : s.next toLowercase a = some t) : Gone key t ∧ t.snapshots key = s.snapshots key := by
  obtain ⟨hremoving, hclosing, hoff⟩ := h
  cases a with
  | add service =>
    simp only [Browser.next] at ht
    split at ht
    · cases ht
      split
      · exact ⟨⟨hremoving, hclosing, hoff⟩, rfl⟩
      · refine ⟨⟨hremoving, hclosing, ?_⟩, rfl⟩
        intro r hr hk
        rcases List.mem_append.mp hr with hold | hnew
        · exact hoff r hold hk
        · rw [List.mem_singleton.mp hnew] at hk
          exact absurd hk (of_decide_eq_true ha)
    · cases ht
  | remove service =>
    simp only [Browser.next] at ht
    split at ht
    · cases ht
      refine ⟨⟨?_, by simp, gone_deactivate hoff⟩, rfl⟩
      intro hpc
      exact absurd (BrowsePc.removing.inj hpc) (of_decide_eq_true ha)
    · cases ht
  | drop =>
    simp only [Browser.next] at ht
    split at ht
    · next key' hpc =>
      cases ht
      have hne : key ≠ key' := by
        rintro rfl
        exact hremoving hpc
      exact ⟨⟨by simp, by simp, hoff⟩, Function.update_of_ne hne ..⟩
    · cases ht
  | close => cases ha
  | turnOff key' =>
    simp only [Browser.next] at ht
    split at ht
    · next hpc => exact absurd hpc hclosing
    · cases ht
  | clear =>
    simp only [Browser.next] at ht
    split at ht
    · next hpc => exact absurd hpc.1 hclosing
    · cases ht
  | turn g turn =>
    obtain ⟨r, p, hr, hp, rfl⟩ := next_turn ht
    refine ⟨⟨hremoving, hclosing, gone_modify hoff (fun _ => rfl) ?_⟩, rfl⟩
    intro x hx hxoff _
    rw [hr] at hx
    cases hx
    exact ⟨hxoff, isStoring_turn hxoff hp⟩
  | store g keys =>
    obtain ⟨r, resolved, ips, hr, hphase, rfl⟩ := next_store ht
    have hne : key ≠ r.service.key := by
      intro hk
      have hno := (hoff r (List.mem_of_getElem? hr) hk.symm).2
      rw [hphase] at hno
      cases hno
    refine ⟨⟨hremoving, hclosing, gone_modify hoff (fun _ => rfl) ?_⟩, Function.update_of_ne hne ..⟩
    intro x _ hxoff _
    exact ⟨hxoff, rfl⟩
  | announce g =>
    obtain ⟨r, device, -, -, rfl⟩ := next_announce ht
    refine ⟨⟨hremoving, hclosing, gone_modify hoff (fun _ => rfl) ?_⟩, rfl⟩
    intro x _ hxoff _
    exact ⟨hxoff, rfl⟩

/-- What a late write left of a service that is gone stays as it is, through whatever else the
threads do, until the service is heard of again or the connection closes. -/
theorem entry_stays {as : List Action} (h : Gone key s)
    (hrun : (browser toLowercase).run (fun _ a => a.leaves key = true) s as = some t) :
    Gone key t ∧ t.snapshots key = s.snapshots key := by
  induction as generalizing s with
  | nil =>
    cases hrun
    exact ⟨h, rfl⟩
  | cons a as ih =>
    rw [System.run] at hrun
    split at hrun
    · next ha =>
      obtain ⟨u, hu, hrun⟩ := Option.bind_eq_some_iff.mp hrun
      obtain ⟨hgone, hsame⟩ := gone_next h ha hu
      obtain ⟨hend, hsnapshots⟩ := ih hgone hrun
      exact ⟨hend, hsnapshots.trans hsame⟩
    · cases hrun

/-- Another service comes, and the resolver of the one that is gone ends. -/
def laterRun : List Action := [.announce 0, .add ⟨"Tablet", "_plainapp._tcp.", "local.", 4⟩,
  .turn 1 .load, .turn 0 .wake]

theorem demo_ghost : (((browser id).run (fun _ _ => True) ⟨.listening, [], [], fun _ => none, [], []⟩
      ghostRun).any fun s => decide (Gone demoService.key s) &&
    ((s.snapshots demoService.key).isSome && (s.late = [0] && ((browser id).run
      (fun _ a => a.leaves demoService.key = true) s laterRun).isSome))) = true := by
  decide +kernel

theorem entry_stays_ghost : ∃ s t, Reachable (browser id) s ∧ (browser id).run
    (fun _ a => a.leaves demoService.key = true) s laterRun = some t ∧
      (t.snapshots demoService.key).isSome = true := by
  obtain ⟨s, hs, hdemo⟩ := ReachableUnder.of_run rfl demo_ghost
  obtain ⟨hgone, hdemo⟩ := Bool.and_eq_true_iff.mp hdemo
  obtain ⟨hsome, hdemo⟩ := Bool.and_eq_true_iff.mp hdemo
  obtain ⟨t, ht⟩ := Option.isSome_iff_exists.mp (Bool.and_eq_true_iff.mp hdemo).2
  refine ⟨s, t, hs, ht, ?_⟩
  rw [(entry_stays (of_decide_eq_true hgone) ht).2]
  exact hsome

theorem entries_accounted_ghost : ∃ s, s.late = [0] ∧
    ∀ held, s.snapshots demoService.key = some held → Accounted s demoService.key held.writer := by
  obtain ⟨s, hs, hdemo⟩ := ReachableUnder.of_run rfl demo_ghost
  obtain ⟨-, hdemo⟩ := Bool.and_eq_true_iff.mp hdemo
  obtain ⟨-, hdemo⟩ := Bool.and_eq_true_iff.mp hdemo
  refine ⟨s, of_decide_eq_true (Bool.and_eq_true_iff.mp hdemo).1, ?_⟩
  intro held hheld
  exact ((entries_accounted hs).2.1 _ held hheld).1

end Ghosts

end PlainRs.LocalApi.DnsSd
