import PlainRs.LocalApi.Discover.PeerConnections

/-! Whether a connectable peer always has a socket task or a timer that will try again. -/
namespace PlainRs.LocalApi.PeerStatus

open PlainRs.Chat PlainRs.Mdns

variable {clientId : String} {s t : State} {a : Action} {n : Nat} {c c' : Call} {p : String}
  {built : Bool}

/-- Paired, with a key of 32 bytes, and of an id above ours. -/
def Connectable (clientId : String) (s : State) (p : String) : Prop :=
  ∃ peer, s.service.db.getPeerById p = some peer ∧ shouldConnect clientId peer = true ∧
    hasKey peer = true

/-- No call works on the peer. -/
def Quiet (s : State) (p : String) : Prop := ∀ n c, s.calls n = some c → c.peerId ≠ p

/-- The stored task still runs and its end will be noticed. -/
def HasLiveTask (s : State) (p : String) : Prop :=
  ∃ h, (s.states p).task = some h ∧ s.tasks h = some ⟨p, (s.states p).taskId, .running⟩

/-- The calls that keep the sockets: no peer is withdrawn and nothing is stopped. -/
def Action.keepsPeers : Action → Bool
  | .unpair _ _ _ | .delete _ _ _ | .stopFlag | .stopStates => false
  | _ => true

/-- The call is about to store the handle of a task that has ended already. -/
def storesClosed (s : State) : Action → Bool
  | .step n _ => (s.calls n).any fun c => match c.pc with
    | .storing taskId task => decide ((s.states c.peerId).taskId = taskId) &&
        (s.tasks task).any fun t => decide (t.status = .closed)
    | _ => false
  | _ => false

/-- The call is about to spawn a task on a thread that has not entered the runtime. -/
def spawnsWithoutRuntime (s : State) : Action → Bool
  | .step n _ => (s.calls n).any fun c => match c.pc with
    | .spawning _ => decide (c.thread = .plain)
    | _ => false
  | _ => false

def KeepsCovered (s : State) (a : Action) : Prop :=
  a.keepsPeers = true ∧ storesClosed s a = false ∧ spawnsWithoutRuntime s a = false

instance (s : State) (a : Action) : Decidable (KeepsCovered s a) :=
  inferInstanceAs (Decidable (_ ∧ _ ∧ _))

/-- The call ends with the peer covered, as long as no other attempt has a later number. -/
def Pc.Committed (taskId : UInt64) : Pc → Prop
  | .reconnecting | .looking | .browsing _ | .opening _ | .numbering | .scheduling | .timing _ => True
  | .spawning id | .storing id _ => id = taskId
  | .closed shouldReconnect => shouldReconnect = true
  | _ => False

/-- The attempt and the task that a call knows. -/
def Pc.taskOf : Pc → Option (UInt64 × Nat)
  | .storing id task | .closing id task => some (id, task)
  | _ => none

/-- The peer has a task, a timer, or a call that ends with one of them. -/
def Attended (s : State) (p : String) : Prop :=
  (s.states p).task.isSome ∨ s.timers p ≠ [] ∨
    ∃ n c, s.calls n = some c ∧ c.peerId = p ∧ c.pc.Committed (s.states p).taskId

/-- A set flag stands for a timer, one about to start, or one just fired. -/
def HasTimer (s : State) (p : String) : Prop :=
  s.timers p ≠ [] ∨ ∃ n c, s.calls n = some c ∧ c.peerId = p ∧
    (c.pc = .reconnecting ∨ ∃ delayMs, c.pc = .timing delayMs)

structure Covering (clientId : String) (s : State) : Prop where
  fresh : ∀ h, s.nextTask ≤ h → s.tasks h = none
  stored : ∀ p h, (s.states p).task = some h →
    ∃ status, s.tasks h = some ⟨p, (s.states p).taskId, status⟩ ∧ status ≠ .closed
  closing : ∀ h p id, s.tasks h = some ⟨p, id, .closing⟩ →
    ∃ n thread, s.calls n = some ⟨p, thread, .closing id h⟩
  holds : ∀ n c id h, s.calls n = some c → c.pc.taskOf = some (id, h) →
    ∃ status, s.tasks h = some ⟨c.peerId, id, status⟩
  pending : ∀ p, (s.states p).pendingReconnect = true → HasTimer s p
  started : ∀ p, s.opened p = true ∨ (s.states p).pendingReconnect = true → s.started = true
  attended : ∀ p, Connectable clientId s p → s.opened p = true → Attended s p

theorem covering_initial (h : Initial s) : Covering clientId s := by
  refine ⟨?_, ?_, ?_, ?_, ?_, ?_, ?_⟩
  · simp [h.tasks]
  · simp [h.states, PeerState.default]
  · simp [h.tasks]
  · simp [h.calls]
  · simp [h.states, PeerState.default]
  · simp [h.opened, h.states, PeerState.default]
  · simp [h.opened]

/-- The call that moves is found under its number, every other one as before. -/
theorem update_call_eq_some {calls : Nat → Option Call} {v : Option Call} {m : Nat}
    (h : Function.update calls n v m = some c) : (m = n ∧ v = some c) ∨ (m ≠ n ∧ calls m = some c) := by
  by_cases hm : m = n
  · subst hm
    rw [Function.update_self] at h
    exact .inl ⟨rfl, h⟩
  · rw [Function.update_of_ne hm] at h
    exact .inr ⟨hm, h⟩

/-- A call of another number stays; what the moved one did for the peer is done otherwise. -/
theorem exists_call {calls : Nat → Option Call} {v : Option Call} {Q : Call → Prop} {R : Prop}
    (h : ∃ m c, calls m = some c ∧ Q c)
    (hn : ∀ c, calls n = some c → Q c → R ∨ ∃ c', v = some c' ∧ Q c') :
    R ∨ ∃ m c, Function.update calls n v m = some c ∧ Q c := by
  obtain ⟨m, c, hm, hq⟩ := h
  by_cases he : m = n
  · subst he
    rcases hn c hm hq with hr | ⟨c', rfl, hq'⟩
    · exact .inl hr
    · exact .inr ⟨m, c', by rw [Function.update_self], hq'⟩
  · exact .inr ⟨m, c, by rw [Function.update_of_ne he]; exact hm, hq⟩

/-- A call that moves without a change to tasks, handles or numbers. -/
theorem Covering.of_move {v : Option Call} (h : Covering clientId s)
    (hcalls : t.calls = Function.update s.calls n v) (htasks : t.tasks = s.tasks)
    (hnext : t.nextTask = s.nextTask)
    (hstates : ∀ p, (t.states p).task = (s.states p).task ∧
      (t.states p).taskId = (s.states p).taskId)
    (hold : ∀ c, s.calls n = some c → ∀ id h, c.pc ≠ .closing id h)
    (hnew : ∀ c, v = some c → c.pc.taskOf = none)
    (hpending : ∀ p, (t.states p).pendingReconnect = true → HasTimer t p)
    (hstarted : ∀ p, t.opened p = true ∨ (t.states p).pendingReconnect = true → t.started = true)
    (hattended : ∀ p, Connectable clientId t p → t.opened p = true → Attended t p) :
    Covering clientId t := by
  refine ⟨?_, ?_, ?_, ?_, hpending, hstarted, hattended⟩
  · rw [hnext, htasks]
    exact h.fresh
  · intro p k hk
    rw [(hstates p).1] at hk
    rw [(hstates p).2, htasks]
    exact h.stored p k hk
  · intro k p id hk
    rw [htasks] at hk
    obtain ⟨m, thread, hm⟩ := h.closing k p id hk
    refine ⟨m, thread, ?_⟩
    rw [hcalls, Function.update_of_ne]
    · exact hm
    · rintro rfl
      exact hold _ hm id k rfl
  · intro m c id k hm hk
    rw [hcalls] at hm
    rw [htasks]
    rcases update_call_eq_some hm with ⟨-, hv⟩ | ⟨-, hm⟩
    · simp [hnew _ hv] at hk
    · exact h.holds m c id k hm hk

/-- A call that also leaves the timers alone: what it did for its peer must be done otherwise. -/
theorem Covering.of_step {v : Option Call} (h : Covering clientId s) (hc : s.calls n = some c)
    (hcalls : t.calls = Function.update s.calls n v) (htasks : t.tasks = s.tasks)
    (hnext : t.nextTask = s.nextTask)
    (hstates : ∀ p, (t.states p).task = (s.states p).task ∧
      (t.states p).taskId = (s.states p).taskId)
    (htimers : t.timers = s.timers) (hservice : t.service = s.service)
    (hstarted : t.started = s.started)
    (hold : ∀ id h, c.pc ≠ .closing id h) (hnew : ∀ c, v = some c → c.pc.taskOf = none)
    (hpending : ∀ p, (t.states p).pendingReconnect = true → (t.started = true ∧ HasTimer t p) ∨
      ((s.states p).pendingReconnect = true ∧
        (p = c.peerId → c.pc ≠ .reconnecting ∧ ∀ delayMs, c.pc ≠ .timing delayMs)))
    (hopened : ∀ p, t.opened p = true → s.opened p = true ∨
      (t.started = true ∧ Attended t p))
    (hattended : s.started = true → c.pc.Committed (s.states c.peerId).taskId →
      Connectable clientId s c.peerId → Attended t c.peerId) : Covering clientId t := by
  refine h.of_move hcalls htasks hnext hstates ?_ hnew ?_ ?_ ?_
  · intro c' hc'
    cases hc.symm.trans hc'
    exact hold
  · intro p hp
    rcases hpending p hp with ⟨-, ht⟩ | ⟨hs, hne⟩
    · exact ht
    rcases h.pending p hs with ht | ht
    · exact .inl (htimers ▸ ht)
    · have hmoved : False ∨ ∃ m c, Function.update s.calls n v m = some c ∧ c.peerId = p ∧
          (c.pc = .reconnecting ∨ ∃ delayMs, c.pc = .timing delayMs) := by
        refine exists_call ht fun c' hc' hq => ?_
        cases hc.symm.trans hc'
        obtain ⟨hp', hpc⟩ := hq
        have hn := hne hp'.symm
        rcases hpc with hpc | ⟨delayMs, hpc⟩
        · exact absurd hpc hn.1
        · exact absurd hpc (hn.2 delayMs)
      rcases hmoved with hf | hm
      · exact hf.elim
      · exact .inr (hcalls ▸ hm)
  · rintro p (hp | hp)
    · rcases hopened p hp with hs | ⟨ht, -⟩
      · exact hstarted ▸ h.started p (.inl hs)
      · exact ht
    · rcases hpending p hp with ⟨ht, -⟩ | ⟨hs, -⟩
      · exact ht
      · exact hstarted ▸ h.started p (.inr hs)
  · intro p hconn hp
    rcases hopened p hp with hs | ⟨-, ht⟩
    · have hconn' : Connectable clientId s p := by
        simpa only [Connectable, hservice] using hconn
      rcases h.attended p hconn' hs with htask | htimer | hcall
      · exact .inl (by rw [(hstates p).1]; exact htask)
      · exact .inr (.inl (htimers ▸ htimer))
      · have hmoved : Attended t p ∨ ∃ m c, Function.update s.calls n v m = some c ∧
            c.peerId = p ∧ c.pc.Committed (s.states p).taskId := by
          refine exists_call hcall fun c' hc' hq => ?_
          cases hc.symm.trans hc'
          obtain ⟨rfl, hq⟩ := hq
          exact .inl (hattended (h.started _ (.inl hs)) hq hconn')
        rcases hmoved with ht | ⟨m, c', hm, hp', hq⟩
        · exact ht
        · exact .inr (.inr ⟨m, c', hcalls ▸ hm, hp', by rw [(hstates p).2]; exact hq⟩)
    · exact ht

theorem states_setPeer (s : State) (p : String) (st : PeerState)
    (htask : st.task = (s.states p).task) (hid : st.taskId = (s.states p).taskId) (q : String) :
    (Function.update s.states p st q).task = (s.states q).task ∧
      (Function.update s.states p st q).taskId = (s.states q).taskId := by
  by_cases hq : q = p
  · subst hq
    simpa using ⟨htask, hid⟩
  · simp [Function.update_of_ne hq]

/-- A section that clears the flag of one peer sets no other. -/
theorem pending_setPeer (s : State) (p : String) (st : PeerState) (hst : st.pendingReconnect = false)
    (q : String) (hq : (Function.update s.states p st q).pendingReconnect = true) :
    (s.states q).pendingReconnect = true ∧ q ≠ p := by
  by_cases he : q = p
  · subst he
    simp [hst] at hq
  · rw [Function.update_of_ne he] at hq
    exact ⟨hq, he⟩

/-- The moved call itself attends its peer. -/
theorem attended_of_call (hcalls : t.calls = Function.update s.calls n (some c))
    (hc : c.pc.Committed (t.states c.peerId).taskId) : Attended t c.peerId :=
  .inr (.inr ⟨n, c, by rw [hcalls, Function.update_self], rfl, hc⟩)

theorem knows_none (hc : c.pc.taskOf = none) : ∀ c', some c = some c' → c'.pc.taskOf = none := by
  intro c' he
  cases he
  exact hc

/-- `force_reconnect_peer` leaves a peer with a task to it, and opens a socket for any other. -/
theorem covering_forcing {thread : Thread} {peer : DPeer} (h : Covering clientId s)
    (hc : s.calls n = some ⟨p, thread, .forcing peer⟩) :
    Covering clientId (s.step clientId n ⟨p, thread, .forcing peer⟩ built) := by
  have hstates := states_setPeer s p { s.states p with pendingReconnect := false } rfl rfl
  have hpend := pending_setPeer s p { s.states p with pendingReconnect := false } rfl
  simp only [State.step]
  split
  · exact h.of_step hc rfl rfl rfl (fun _ => ⟨rfl, rfl⟩) rfl rfl rfl (by simp) (by simp)
      (fun q hq => .inr ⟨hq, by simp⟩) (fun q hq => .inl hq) (fun _ hq => hq.elim)
  · next hstarted =>
    split
    · exact h.of_step hc rfl rfl rfl hstates rfl rfl rfl (by simp) (by simp)
        (fun q hq => .inr ⟨(hpend q hq).1, by simp⟩) (fun q hq => .inl hq) (fun _ hq => hq.elim)
    · split
      · refine h.of_step hc rfl rfl rfl hstates rfl rfl rfl (by simp) (knows_none rfl)
          (fun q hq => .inr ⟨(hpend q hq).1, by simp⟩) ?_ (fun _ hq => hq.elim)
        intro q hq
        change Function.update s.opened p true q = true at hq
        by_cases he : q = p
        · subst he
          have hst : s.started = true := by simpa using hstarted
          exact .inr ⟨hst, attended_of_call (c := ⟨q, thread, .opening peer⟩) rfl trivial⟩
        · rw [Function.update_of_ne he] at hq
          exact .inl hq
      · exact h.of_step hc rfl rfl rfl hstates rfl rfl rfl (by simp) (by simp)
          (fun q hq => .inr ⟨(hpend q hq).1, by simp⟩) (fun q hq => .inl hq) (fun _ hq => hq.elim)

/-- `reconnect_peer` up to the row it reads. -/
theorem covering_reconnecting {thread : Thread} (h : Covering clientId s)
    (hc : s.calls n = some ⟨p, thread, .reconnecting⟩) :
    Covering clientId (s.step clientId n ⟨p, thread, .reconnecting⟩ built) := by
  have hstates := states_setPeer s p { s.states p with pendingReconnect := false } rfl rfl
  have hpend := pending_setPeer s p { s.states p with pendingReconnect := false } rfl
  have hpending : ∀ q, (Function.update s.states p { s.states p with pendingReconnect := false }
      q).pendingReconnect = true → (s.states q).pendingReconnect = true ∧
      (q = p → Pc.reconnecting ≠ .reconnecting ∧ ∀ delayMs, Pc.reconnecting ≠ .timing delayMs) :=
    fun q hq => ⟨(hpend q hq).1, fun he => absurd he (hpend q hq).2⟩
  simp only [State.step]
  split
  · next hstopped =>
    refine h.of_step hc rfl rfl rfl (fun _ => ⟨rfl, rfl⟩) rfl rfl rfl (by simp) (by simp) ?_
      (fun q hq => .inl hq) fun hst => by simp [hst] at hstopped
    intro q hq
    have hst := h.started q (.inr hq)
    simp [hst] at hstopped
  · split
    · next htask =>
      refine h.of_step hc rfl rfl rfl hstates rfl rfl rfl (by simp) (by simp)
        (fun q hq => .inr (hpending q hq)) (fun q hq => .inl hq) fun _ _ _ => .inl ?_
      rw [← (hstates p).1] at htask
      exact htask
    · exact h.of_step hc rfl rfl rfl hstates rfl rfl rfl (by simp) (knows_none rfl)
        (fun q hq => .inr (hpending q hq)) (fun q hq => .inl hq)
        fun _ _ _ => attended_of_call (c := ⟨p, thread, .looking⟩) rfl trivial

/-- A call that is neither a fired timer nor about to start one, nor in `connection_closed`. -/
def Pc.Plain (pc : Pc) : Prop :=
  pc ≠ .reconnecting ∧ (∀ delayMs, pc ≠ .timing delayMs) ∧ ∀ id h, pc ≠ .closing id h

/-- Such a call moves on or ends without a change to what coverage reads. -/
theorem covering_plain {v : Option Call} (h : Covering clientId s) (hc : s.calls n = some c)
    (hplain : c.pc.Plain) (hcalls : t.calls = Function.update s.calls n v)
    (htasks : t.tasks = s.tasks) (hnext : t.nextTask = s.nextTask)
    (hstates : ∀ q, (t.states q).task = (s.states q).task ∧
      (t.states q).taskId = (s.states q).taskId ∧
      ((t.states q).pendingReconnect = true → (s.states q).pendingReconnect = true))
    (htimers : t.timers = s.timers) (hservice : t.service = s.service)
    (hstarted : t.started = s.started) (hopened : t.opened = s.opened)
    (hnew : ∀ c, v = some c → c.pc.taskOf = none)
    (hattended : s.started = true → c.pc.Committed (s.states c.peerId).taskId →
      Connectable clientId s c.peerId → Attended t c.peerId) : Covering clientId t :=
  h.of_step hc hcalls htasks hnext (fun q => ⟨(hstates q).1, (hstates q).2.1⟩) htimers hservice
    hstarted hplain.2.2 hnew (fun q hq => .inr ⟨(hstates q).2.2 hq, fun _ => ⟨hplain.1, hplain.2.1⟩⟩)
    (fun _ hq => .inl (hopened ▸ hq)) hattended

/-- `reconnect_peer` from the row it reads to `open_socket`, and `open_socket` up to its section:
a connectable peer is not given up. -/
theorem covering_looking {thread : Thread} (h : Covering clientId s)
    (hc : s.calls n = some ⟨p, thread, .looking⟩) :
    Covering clientId (s.step clientId n ⟨p, thread, .looking⟩ built) := by
  have hplain : Pc.looking.Plain := by simp [Pc.Plain]
  simp only [State.step]
  split
  · next hnone =>
    refine covering_plain h hc hplain rfl rfl rfl (fun _ => ⟨rfl, rfl, id⟩) rfl rfl rfl rfl (by simp)
      fun _ _ hconn => ?_
    obtain ⟨peer, hp, -⟩ := hconn
    simp [hnone] at hp
  · next peer hsome =>
    split
    · exact covering_plain h hc hplain rfl rfl rfl (fun _ => ⟨rfl, rfl, id⟩) rfl rfl rfl rfl
        (knows_none rfl)
        fun _ _ _ => attended_of_call (c := ⟨p, thread, .browsing peer⟩) rfl trivial
    · next hno =>
      refine covering_plain h hc hplain rfl rfl rfl (fun _ => ⟨rfl, rfl, id⟩) rfl rfl rfl rfl
        (by simp) fun _ _ hconn => ?_
      obtain ⟨peer', hp, hs, hk⟩ := hconn
      cases hsome.symm.trans hp
      simp [hs, hk] at hno

theorem covering_browsing {thread : Thread} {peer : DPeer} (h : Covering clientId s)
    (hc : s.calls n = some ⟨p, thread, .browsing peer⟩) :
    Covering clientId (s.step clientId n ⟨p, thread, .browsing peer⟩ built) := by
  have hplain : (Pc.browsing peer).Plain := by simp [Pc.Plain]
  have hafter : ∀ refreshed id, (afterBrowse peer refreshed).taskOf = none ∧
      (afterBrowse peer refreshed).Committed id := by
    intro refreshed id
    unfold afterBrowse
    split
    · exact ⟨rfl, trivial⟩
    · split <;> exact ⟨rfl, trivial⟩
  exact covering_plain h hc hplain rfl rfl rfl (fun _ => ⟨rfl, rfl, id⟩) rfl rfl rfl rfl
    (knows_none (hafter _ 0).1)
    fun _ _ _ => attended_of_call (c := ⟨p, thread, afterBrowse peer _⟩) rfl (hafter _ _).2

theorem covering_opening {thread : Thread} {peer : DPeer} (h : Covering clientId s)
    (hc : s.calls n = some ⟨p, thread, .opening peer⟩) :
    Covering clientId (s.step clientId n ⟨p, thread, .opening peer⟩ built) := by
  have hplain : (Pc.opening peer).Plain := by simp [Pc.Plain]
  cases built with
  | false =>
    exact covering_plain h hc hplain rfl rfl rfl (fun _ => ⟨rfl, rfl, id⟩) rfl rfl rfl rfl
      (knows_none rfl)
      fun _ _ _ => attended_of_call (c := ⟨p, thread, .scheduling⟩) rfl trivial
  | true =>
    exact covering_plain h hc hplain rfl rfl rfl (fun _ => ⟨rfl, rfl, id⟩) rfl rfl rfl rfl
      (knows_none rfl)
      fun _ _ _ => attended_of_call (c := ⟨p, thread, .numbering⟩) rfl trivial

/-- A peer that is not scheduled again has a task, or a timer to come. -/
theorem covering_scheduling {thread : Thread} (h : Covering clientId s)
    (hc : s.calls n = some ⟨p, thread, .scheduling⟩) :
    Covering clientId (s.step clientId n ⟨p, thread, .scheduling⟩ built) := by
  have hplain : Pc.scheduling.Plain := by simp [Pc.Plain]
  simp only [State.step]
  split
  · next hstopped =>
    exact covering_plain h hc hplain rfl rfl rfl (fun _ => ⟨rfl, rfl, id⟩) rfl rfl rfl rfl (by simp)
      fun hst => by simp [hst] at hstopped
  · next hstarted =>
    have hst : s.started = true := by simpa using hstarted
    split
    · next hskip =>
      refine covering_plain h hc hplain rfl rfl rfl (fun _ => ⟨rfl, rfl, id⟩) rfl rfl rfl rfl
        (by simp) fun _ _ _ => ?_
      rcases Bool.or_eq_true _ _ |>.mp hskip with htask | hpend
      · exact .inl htask
      · rcases h.pending p hpend with htimer | ⟨m, c, hm, hp, hpc⟩
        · exact .inr (.inl htimer)
        · refine .inr (.inr ⟨m, c, ?_, hp, ?_⟩)
          · have hne : m ≠ n := by
              rintro rfl
              cases hc.symm.trans hm
              simp at hpc
            exact (Function.update_of_ne hne _ _).trans hm
          · rcases hpc with hpc | ⟨delayMs, hpc⟩ <;> rw [hpc] <;> trivial
    · refine h.of_step hc rfl rfl rfl (states_setPeer s p _ rfl rfl) rfl rfl rfl (by simp)
        (knows_none rfl) ?_ (fun q hq => .inl hq)
        fun _ _ _ => attended_of_call (c := ⟨p, thread, .timing _⟩) rfl trivial
      intro q hq
      by_cases he : q = p
      · subst he
        exact .inl ⟨hst, .inr ⟨n, _, Function.update_self .., rfl, .inr ⟨_, rfl⟩⟩⟩
      · refine .inr ⟨?_, by simp⟩
        simp only [State.goto_states, State.setPeer_states, Function.update_of_ne he] at hq
        exact hq

/-- A started timer covers its peer. -/
theorem covering_timing {thread : Thread} {delayMs : Nat} (h : Covering clientId s)
    (hc : s.calls n = some ⟨p, thread, .timing delayMs⟩) :
    Covering clientId (s.step clientId n ⟨p, thread, .timing delayMs⟩ built) := by
  have htimers : ∀ q, s.timers q ≠ [] ∨ q = p →
      Function.update s.timers p (delayMs :: s.timers p) q ≠ [] := by
    intro q hq
    by_cases he : q = p
    · simp [he]
    · rw [Function.update_of_ne he]
      exact hq.resolve_right he
  refine h.of_move rfl rfl rfl (fun _ => ⟨rfl, rfl⟩) ?_ (by simp) ?_ h.started ?_
  · intro c hc' id k
    cases hc.symm.trans hc'
    simp
  · intro q hq
    rcases h.pending q hq with htimer | hcall
    · exact .inl (htimers q (.inl htimer))
    · have hmoved : q = p ∨ ∃ m c, Function.update s.calls n none m = some c ∧ c.peerId = q ∧
          (c.pc = .reconnecting ∨ ∃ delayMs, c.pc = .timing delayMs) := by
        refine exists_call hcall fun c hc' hq => ?_
        cases hc.symm.trans hc'
        exact .inl hq.1.symm
      rcases hmoved with he | hm
      · exact .inl (htimers q (.inr he))
      · exact .inr hm
  · intro q hconn hq
    rcases h.attended q hconn hq with htask | htimer | hcall
    · exact .inl htask
    · exact .inr (.inl (htimers q (.inl htimer)))
    · have hmoved : q = p ∨ ∃ m c, Function.update s.calls n none m = some c ∧ c.peerId = q ∧
          c.pc.Committed (s.states q).taskId := by
        refine exists_call hcall fun c hc' hq => ?_
        cases hc.symm.trans hc'
        exact .inl hq.1.symm
      rcases hmoved with he | hm
      · exact .inr (.inl (htimers q (.inr he)))
      · exact .inr (.inr hm)

theorem covering_flags {thread : Thread} {pc : Pc} (h : Covering clientId s)
    (hc : s.calls n = some ⟨p, thread, pc⟩)
    (hpc : (∃ id, pc = .authenticating id) ∨ (∃ r, pc = .closed r) ∨ (∃ b, pc = .setting b) ∨
      ∃ b, pc = .emitting b) : Covering clientId (s.step clientId n ⟨p, thread, pc⟩ built) := by
  rcases hpc with ⟨id, rfl⟩ | ⟨r, rfl⟩ | ⟨b, rfl⟩ | ⟨b, rfl⟩
  · have hplain : (Pc.authenticating id).Plain := by simp [Pc.Plain]
    have hstates := states_setPeer s p
      { s.states p with pendingReconnect := false, reconnectAttempts := 0 } rfl rfl
    have hpend := pending_setPeer s p
      { s.states p with pendingReconnect := false, reconnectAttempts := 0 } rfl
    simp only [State.step]
    split
    · exact covering_plain h hc hplain rfl rfl rfl
        (fun q => ⟨(hstates q).1, (hstates q).2, fun hq => (hpend q hq).1⟩) rfl rfl rfl rfl
        (knows_none rfl) fun _ hq => hq.elim
    · exact covering_plain h hc hplain rfl rfl rfl (fun _ => ⟨rfl, rfl, fun hq => hq⟩) rfl rfl rfl rfl
        (by simp) fun _ hq => hq.elim
  · have hplain : (Pc.closed r).Plain := by simp [Pc.Plain]
    cases r with
    | false =>
      exact covering_plain h hc hplain rfl rfl rfl (fun _ => ⟨rfl, rfl, fun hq => hq⟩) rfl rfl rfl rfl
        (by simp) fun _ hq => by cases hq
    | true =>
      exact covering_plain h hc hplain rfl rfl rfl (fun _ => ⟨rfl, rfl, fun hq => hq⟩) rfl rfl rfl rfl
        (knows_none rfl)
        fun _ _ _ => attended_of_call (c := ⟨p, thread, .scheduling⟩) rfl trivial
  · have hplain : (Pc.setting b).Plain := by simp [Pc.Plain]
    simp only [State.step]
    split
    · exact covering_plain h hc hplain rfl rfl rfl (fun _ => ⟨rfl, rfl, fun hq => hq⟩) rfl rfl rfl rfl
        (by simp) fun _ hq => hq.elim
    · refine covering_plain h hc hplain rfl rfl rfl (fun q => ?_) rfl rfl rfl rfl
        (knows_none rfl) fun _ hq => hq.elim
      have hstates := states_setPeer s p { s.states p with online := b } rfl rfl q
      refine ⟨hstates.1, hstates.2, fun hq => ?_⟩
      by_cases he : q = p
      · subst he
        simpa using hq
      · simpa [Function.update_of_ne he] using hq
  · have hplain : (Pc.emitting b).Plain := by simp [Pc.Plain]
    exact covering_plain h hc hplain rfl rfl rfl (fun _ => ⟨rfl, rfl, fun hq => hq⟩) rfl rfl rfl rfl
      (by simp) fun _ hq => hq.elim

/-- The latest attempt is the one that counts: an earlier one stores nothing. -/
theorem covering_numbering {thread : Thread} (h : Covering clientId s)
    (hc : s.calls n = some ⟨p, thread, .numbering⟩) :
    Covering clientId (s.step clientId n ⟨p, thread, .numbering⟩ built) := by
  have hplain : Pc.numbering.Plain := by simp [Pc.Plain]
  simp only [State.step]
  split
  · next htask =>
    exact covering_plain h hc hplain rfl rfl rfl (fun _ => ⟨rfl, rfl, id⟩) rfl rfl rfl rfl (by simp)
      fun _ _ _ => .inl htask
  · next htask =>
    have hnone : (s.states p).task = none := by simpa using htask
    have hself : Function.update s.states p { s.states p with taskId := (s.states p).taskId + 1 } p =
        { s.states p with taskId := (s.states p).taskId + 1 } := Function.update_self ..
    have hother : ∀ {q}, q ≠ p → Function.update s.states p
        { s.states p with taskId := (s.states p).taskId + 1 } q = s.states q :=
      fun hq => Function.update_of_ne hq _ _
    refine ⟨h.fresh, ?_, ?_, ?_, ?_, ?_, ?_⟩
    · intro q k hk
      simp only [State.goto_states, State.setPeer_states] at hk ⊢
      by_cases hq : q = p
      · subst hq
        rw [hself] at hk
        simp [hnone] at hk
      · rw [hother hq] at hk ⊢
        exact h.stored q k hk
    · intro k q id hk
      obtain ⟨m, thread', hm⟩ := h.closing k q id hk
      refine ⟨m, thread', ?_⟩
      have hne : m ≠ n := by
        rintro rfl
        cases hc.symm.trans hm
      exact (Function.update_of_ne hne _ _).trans hm
    · intro m c id k hm hk
      rcases update_call_eq_some hm with ⟨-, hv⟩ | ⟨-, hm⟩
      · cases hv
        cases hk
      · exact h.holds m c id k hm hk
    · intro q hq
      have hq' : (s.states q).pendingReconnect = true := by
        simp only [State.goto_states, State.setPeer_states] at hq
        by_cases he : q = p
        · subst he
          rw [hself] at hq
          exact hq
        · rwa [hother he] at hq
      rcases h.pending q hq' with htimer | hcall
      · exact .inl htimer
      · have hmoved : False ∨ ∃ m c, Function.update s.calls n
            (some ⟨p, thread, .spawning ((s.states p).taskId + 1)⟩) m = some c ∧ c.peerId = q ∧
            (c.pc = .reconnecting ∨ ∃ delayMs, c.pc = .timing delayMs) := by
          refine exists_call hcall fun c hc' hpc => ?_
          cases hc.symm.trans hc'
          simp at hpc
        exact .inr (hmoved.resolve_left id)
    · rintro q (hq | hq)
      · exact h.started q (.inl hq)
      · simp only [State.goto_states, State.setPeer_states] at hq
        refine h.started q (.inr ?_)
        by_cases he : q = p
        · subst he
          rw [hself] at hq
          exact hq
        · rwa [hother he] at hq
    · intro q hconn hq
      by_cases he : q = p
      · subst he
        refine .inr (.inr ⟨n, _, Function.update_self .., rfl, ?_⟩)
        simp only [State.goto_states, State.setPeer_states, hself]
        rfl
      · rcases h.attended q hconn hq with htask | htimer | hcall
        · refine .inl ?_
          simp only [State.goto_states, State.setPeer_states, hother he]
          exact htask
        · exact .inr (.inl htimer)
        · have hmoved : False ∨ ∃ m c, Function.update s.calls n
              (some ⟨p, thread, .spawning ((s.states p).taskId + 1)⟩) m = some c ∧ c.peerId = q ∧
              c.pc.Committed (s.states q).taskId := by
            refine exists_call hcall fun c hc' hq' => ?_
            cases hc.symm.trans hc'
            exact absurd hq'.1.symm he
          obtain ⟨m, c, hm, hp, hpc⟩ := hmoved.resolve_left id
          refine .inr (.inr ⟨m, c, hm, hp, ?_⟩)
          simp only [State.goto_states, State.setPeer_states, hother he]
          exact hpc

/-- A call that moves elsewhere or not at all leaves what the others do for a peer. -/
theorem exists_other_call {v : Option Call} {Q : Call → Prop}
    (h : ∃ m c, s.calls m = some c ∧ Q c) (hn : ∀ c, s.calls n = some c → ¬ Q c) :
    ∃ m c, Function.update s.calls n v m = some c ∧ Q c :=
  (exists_call h fun c hc hq => absurd hq (hn c hc)).resolve_left id

/-- A spawned task is new, and so far only the call that spawned it knows it. -/
theorem covering_spawning {id : UInt64} (h : Covering clientId s)
    (hc : s.calls n = some ⟨p, .runtime, .spawning id⟩) :
    Covering clientId (s.step clientId n ⟨p, .runtime, .spawning id⟩ built) := by
  have hkeep : ∀ {k task}, s.tasks k = some task →
      Function.update s.tasks s.nextTask (some ⟨p, id, .running⟩) k = some task := by
    intro k task hk
    rw [Function.update_of_ne]
    · exact hk
    · rintro rfl
      simp [h.fresh _ le_rfl] at hk
  refine ⟨?_, ?_, ?_, ?_, ?_, h.started, ?_⟩
  · intro k hk
    change s.nextTask + 1 ≤ k at hk
    change Function.update s.tasks s.nextTask _ k = none
    rw [Function.update_of_ne (by omega)]
    exact h.fresh k (by omega)
  · intro q k hk
    obtain ⟨status, hs, hne⟩ := h.stored q k hk
    exact ⟨status, hkeep hs, hne⟩
  · intro k q id' hk
    change Function.update s.tasks s.nextTask _ k = _ at hk
    by_cases he : k = s.nextTask
    · subst he
      simp at hk
    · rw [Function.update_of_ne he] at hk
      obtain ⟨m, thread, hm⟩ := h.closing k q id' hk
      refine ⟨m, thread, ?_⟩
      have hne : m ≠ n := by
        rintro rfl
        cases hc.symm.trans hm
      exact (Function.update_of_ne hne _ _).trans hm
  · intro m c id' k hm hk
    rcases update_call_eq_some hm with ⟨-, hv⟩ | ⟨-, hm⟩
    · cases hv
      cases hk
      exact ⟨.running, Function.update_self ..⟩
    · obtain ⟨status, hs⟩ := h.holds m c id' k hm hk
      exact ⟨status, hkeep hs⟩
  · intro q hq
    rcases h.pending q hq with htimer | hcall
    · exact .inl htimer
    · refine .inr (exists_other_call hcall fun c hc' hpc => ?_)
      cases hc.symm.trans hc'
      simp at hpc
  · intro q hconn hq
    rcases h.attended q hconn hq with htask | htimer | hcall
    · exact .inl htask
    · exact .inr (.inl htimer)
    · have hmoved : False ∨ ∃ m c, Function.update s.calls n
          (some ⟨p, .runtime, .storing id s.nextTask⟩) m = some c ∧ c.peerId = q ∧
          c.pc.Committed (s.states q).taskId := by
        refine exists_call hcall fun c hc' hq' => ?_
        cases hc.symm.trans hc'
        exact .inr ⟨_, rfl, hq'⟩
      exact .inr (.inr (hmoved.resolve_left False.elim))

/-- A handle is stored for the latest attempt only, and here only while its task has not ended. -/
theorem covering_storing {thread : Thread} {id : UInt64} {task : Nat} (h : Covering clientId s)
    (hc : s.calls n = some ⟨p, thread, .storing id task⟩)
    (hlive : storesClosed s (.step n built) = false) :
    Covering clientId (s.step clientId n ⟨p, thread, .storing id task⟩ built) := by
  have hplain : (Pc.storing id task).Plain := by simp [Pc.Plain]
  simp only [State.step]
  split
  · next hid =>
    obtain ⟨status, hstatus⟩ := h.holds n _ id task hc rfl
    have hopen : status ≠ .closed := by
      rintro rfl
      simp [storesClosed, hc, hid, hstatus] at hlive
    have hself : Function.update s.states p { s.states p with task := some task } p =
        { s.states p with task := some task } := Function.update_self ..
    have hother : ∀ {q}, q ≠ p → Function.update s.states p
        { s.states p with task := some task } q = s.states q := fun hq => Function.update_of_ne hq _ _
    refine ⟨h.fresh, ?_, ?_, ?_, ?_, ?_, ?_⟩
    · intro q k hk
      simp only [State.finish_states, State.setPeer_states] at hk ⊢
      by_cases hq : q = p
      · subst hq
        rw [hself] at hk ⊢
        cases hk
        exact ⟨status, by rw [hid]; exact hstatus, hopen⟩
      · rw [hother hq] at hk ⊢
        exact h.stored q k hk
    · intro k q id' hk
      obtain ⟨m, thread', hm⟩ := h.closing k q id' hk
      refine ⟨m, thread', ?_⟩
      have hne : m ≠ n := by
        rintro rfl
        cases hc.symm.trans hm
      exact (Function.update_of_ne hne _ _).trans hm
    · intro m c id' k hm hk
      rcases update_call_eq_some hm with ⟨-, hv⟩ | ⟨-, hm⟩
      · cases hv
      · exact h.holds m c id' k hm hk
    · intro q hq
      have hq' : (s.states q).pendingReconnect = true := by
        simp only [State.finish_states, State.setPeer_states] at hq
        by_cases he : q = p
        · subst he
          rw [hself] at hq
          exact hq
        · rwa [hother he] at hq
      rcases h.pending q hq' with htimer | hcall
      · exact .inl htimer
      · refine .inr (exists_other_call hcall fun c hc' hpc => ?_)
        cases hc.symm.trans hc'
        simp at hpc
    · rintro q (hq | hq)
      · exact h.started q (.inl hq)
      · simp only [State.finish_states, State.setPeer_states] at hq
        refine h.started q (.inr ?_)
        by_cases he : q = p
        · subst he
          rw [hself] at hq
          exact hq
        · rwa [hother he] at hq
    · intro q hconn hq
      by_cases he : q = p
      · subst he
        refine .inl ?_
        simp only [State.finish_states, State.setPeer_states, hself]
        rfl
      · rcases h.attended q hconn hq with htask | htimer | hcall
        · refine .inl ?_
          simp only [State.finish_states, State.setPeer_states, hother he]
          exact htask
        · exact .inr (.inl htimer)
        · obtain ⟨m, c, hm, hp, hpc⟩ : ∃ m c, Function.update s.calls n none m = some c ∧
              c.peerId = q ∧ c.pc.Committed (s.states q).taskId := by
            refine exists_other_call hcall fun c hc' hq' => ?_
            cases hc.symm.trans hc'
            exact he hq'.1.symm
          refine .inr (.inr ⟨m, c, hm, hp, ?_⟩)
          simp only [State.finish_states, State.setPeer_states, hother he]
          exact hpc
  · next hid =>
    exact covering_plain h hc hplain rfl rfl rfl (fun _ => ⟨rfl, rfl, fun hq => hq⟩) rfl rfl rfl rfl
      (by simp) fun _ hq => absurd hq.symm hid

/-- The end of the stored task leaves its peer to the reconnect it schedules. -/
theorem covering_closing {thread : Thread} {id : UInt64} {task : Nat} (h : Covering clientId s)
    (hc : s.calls n = some ⟨p, thread, .closing id task⟩) :
    Covering clientId (s.step clientId n ⟨p, thread, .closing id task⟩ built) := by
  obtain ⟨status, hstatus⟩ := h.holds n _ id task hc rfl
  have hcall : ∀ {v m q thread' id' k}, k ≠ task → s.calls m = some ⟨q, thread', .closing id' k⟩ →
      Function.update s.calls n v m = some ⟨q, thread', .closing id' k⟩ := by
    intro v m q thread' id' k hk hm
    rw [Function.update_of_ne]
    · exact hm
    · rintro rfl
      cases hc.symm.trans hm
      exact hk rfl
  have hfresh : ∀ k, s.nextTask ≤ k →
      Function.update s.tasks task (some ⟨p, id, .closed⟩) k = none := by
    intro k hk
    rw [Function.update_of_ne]
    · exact h.fresh k hk
    · rintro rfl
      simp [h.fresh _ hk] at hstatus
  have hclosing : ∀ k q id', Function.update s.tasks task (some ⟨p, id, .closed⟩) k =
      some ⟨q, id', .closing⟩ → k ≠ task ∧ s.tasks k = some ⟨q, id', .closing⟩ := by
    intro k q id' hk
    by_cases he : k = task
    · subst he
      simp at hk
    · rw [Function.update_of_ne he] at hk
      exact ⟨he, hk⟩
  have hholds : ∀ c id' k, (∃ status, s.tasks k = some ⟨c, id', status⟩) →
      ∃ status, Function.update s.tasks task (some ⟨p, id, .closed⟩) k = some ⟨c, id', status⟩ := by
    rintro c id' k ⟨status', hs⟩
    by_cases he : k = task
    · subst he
      cases hstatus.symm.trans hs
      exact ⟨.closed, Function.update_self ..⟩
    · exact ⟨status', by rw [Function.update_of_ne he]; exact hs⟩
  have hpending : ∀ {v} q, (s.states q).pendingReconnect = true → s.timers q ≠ [] ∨
      ∃ m c, Function.update s.calls n v m = some c ∧ c.peerId = q ∧
        (c.pc = .reconnecting ∨ ∃ delayMs, c.pc = .timing delayMs) := by
    intro v q hq
    rcases h.pending q hq with htimer | hcall
    · exact .inl htimer
    · refine .inr (exists_other_call hcall fun c hc' hpc => ?_)
      cases hc.symm.trans hc'
      simp at hpc
  simp only [State.step]
  split
  · next hid =>
    change (s.states p).taskId = id at hid
    have hself : Function.update s.states p { s.states p with task := none, online := false } p =
        { s.states p with task := none, online := false } := Function.update_self ..
    have hother : ∀ {q}, q ≠ p → Function.update s.states p
        { s.states p with task := none, online := false } q = s.states q :=
      fun hq => Function.update_of_ne hq _ _
    have hpend : ∀ q, (Function.update s.states p { s.states p with task := none, online := false }
        q).pendingReconnect = true → (s.states q).pendingReconnect = true := by
      intro q hq
      by_cases he : q = p
      · subst he
        rw [hself] at hq
        exact hq
      · rwa [hother he] at hq
    refine ⟨hfresh, ?_, ?_, ?_, fun q hq => hpending q (hpend q hq), ?_, ?_⟩
    · intro q k hk
      change (Function.update s.states p { s.states p with task := none, online := false } q).task =
        some k at hk
      change ∃ status, Function.update s.tasks task _ k = some ⟨q, (Function.update s.states p
        { s.states p with task := none, online := false } q).taskId, status⟩ ∧ _
      by_cases hq : q = p
      · subst hq
        rw [hself] at hk
        cases hk
      · rw [hother hq] at hk ⊢
        obtain ⟨status', hs, hne⟩ := h.stored q k hk
        have hk' : k ≠ task := by
          rintro rfl
          have he := Option.some.inj (hstatus.symm.trans hs)
          simp only [Task.mk.injEq] at he
          exact hq he.1.symm
        exact ⟨status', (Function.update_of_ne hk' _ _).trans hs, hne⟩
    · intro k q id' hk
      obtain ⟨hne, hk⟩ := hclosing k q id' hk
      obtain ⟨m, thread', hm⟩ := h.closing k q id' hk
      exact ⟨m, thread', hcall hne hm⟩
    · intro m c id' k hm hk
      rcases update_call_eq_some hm with ⟨-, hv⟩ | ⟨-, hm⟩
      · cases hv
        cases hk
      · exact hholds _ _ _ (h.holds m c id' k hm hk)
    · rintro q (hq | hq)
      · exact h.started q (.inl hq)
      · exact h.started q (.inr (hpend q hq))
    · intro q hconn hq
      by_cases he : q = p
      · subst he
        exact .inr (.inr ⟨n, _, Function.update_self .., rfl, h.started q (.inl hq)⟩)
      · rcases h.attended q hconn hq with htask | htimer | hcall
        · refine .inl ?_
          change (Function.update s.states p { s.states p with task := none, online := false }
            q).task.isSome
          rw [hother he]
          exact htask
        · exact .inr (.inl htimer)
        · obtain ⟨m, c, hm, hp, hpc⟩ : ∃ m c, Function.update s.calls n
              (some ⟨p, thread, .closed s.started⟩) m = some c ∧ c.peerId = q ∧
              c.pc.Committed (s.states q).taskId := by
            refine exists_other_call hcall fun c hc' hq' => ?_
            cases hc.symm.trans hc'
            exact he hq'.1.symm
          refine .inr (.inr ⟨m, c, hm, hp, ?_⟩)
          change c.pc.Committed (Function.update s.states p
            { s.states p with task := none, online := false } q).taskId
          rw [hother he]
          exact hpc
  · next hid =>
    change ¬ (s.states p).taskId = id at hid
    refine ⟨hfresh, ?_, ?_, ?_, fun q hq => hpending q hq, h.started, ?_⟩
    · intro q k hk
      obtain ⟨status', hs, hne⟩ := h.stored q k hk
      have hk' : k ≠ task := by
        rintro rfl
        have he := Option.some.inj (hstatus.symm.trans hs)
        simp only [Task.mk.injEq] at he
        exact hid (by rw [he.1, he.2.1])
      exact ⟨status', (Function.update_of_ne hk' _ _).trans hs, hne⟩
    · intro k q id' hk
      obtain ⟨hne, hk⟩ := hclosing k q id' hk
      obtain ⟨m, thread', hm⟩ := h.closing k q id' hk
      exact ⟨m, thread', hcall hne hm⟩
    · intro m c id' k hm hk
      rcases update_call_eq_some hm with ⟨-, hv⟩ | ⟨-, hm⟩
      · cases hv
      · exact hholds _ _ _ (h.holds m c id' k hm hk)
    · intro q hconn hq
      rcases h.attended q hconn hq with htask | htimer | hcall
      · exact .inl htask
      · exact .inr (.inl htimer)
      · refine .inr (.inr (exists_other_call hcall fun c hc' hq' => ?_))
        cases hc.symm.trans hc'
        exact hq'.2

/-- A call that begins adds to what is done for a peer. -/
theorem covering_begin (h : Covering clientId s) (hn : s.calls n = none)
    (hcalls : t.calls = Function.update s.calls n (some c)) (htasks : t.tasks = s.tasks)
    (hnext : t.nextTask = s.nextTask) (hstates : t.states = s.states)
    (htimers : ∀ q, s.timers q ≠ [] → t.timers q ≠ [] ∨ (c.peerId = q ∧ c.pc = .reconnecting))
    (hservice : t.service = s.service) (hstarted : t.started = s.started)
    (hopened : t.opened = s.opened) (hc : c.pc.taskOf = none) : Covering clientId t := by
  have hkeep : ∀ {Q : Call → Prop}, (∃ m c, s.calls m = some c ∧ Q c) →
      ∃ m c, t.calls m = some c ∧ Q c := by
    intro Q hq
    rw [hcalls]
    exact exists_other_call hq fun c hc => by simp [hn] at hc
  have hmine : t.calls n = some c := by rw [hcalls, Function.update_self]
  refine h.of_move hcalls htasks hnext (fun _ => by rw [hstates]; exact ⟨rfl, rfl⟩)
    (fun c hc => by simp [hn] at hc) (knows_none hc) ?_ ?_ ?_
  · intro q hq
    rw [hstates] at hq
    rcases h.pending q hq with htimer | hcall
    · rcases htimers q htimer with ht | ⟨hp, hpc⟩
      · exact .inl ht
      · exact .inr ⟨n, c, hmine, hp, .inl hpc⟩
    · exact .inr (hkeep hcall)
  · rw [hstates, hstarted, hopened]
    exact h.started
  · intro q hconn hq
    have hconn' : Connectable clientId s q := by simpa only [Connectable, hservice] using hconn
    rcases h.attended q hconn' (hopened ▸ hq) with htask | htimer | hcall
    · exact .inl (by rw [hstates]; exact htask)
    · rcases htimers q htimer with ht | ⟨hp, hpc⟩
      · exact .inr (.inl ht)
      · exact .inr (.inr ⟨n, c, hmine, hp, by rw [hpc]; trivial⟩)
    · rw [Attended, hstates]
      exact .inr (.inr (hkeep hcall))

/-- A step outside the calls that changes only what was loaded, or rows without their keys. -/
theorem Covering.of_frame (h : Covering clientId s) (hcalls : t.calls = s.calls)
    (htasks : t.tasks = s.tasks) (hnext : t.nextTask = s.nextTask) (hstates : t.states = s.states)
    (htimers : t.timers = s.timers) (hstarted : s.started = true → t.started = true)
    (hopened : t.opened = s.opened) (hconn : ∀ q, Connectable clientId t q → Connectable clientId s q) :
    Covering clientId t := by
  refine ⟨by rw [hnext, htasks]; exact h.fresh, by rw [hstates, htasks]; exact h.stored,
    by rw [htasks, hcalls]; exact h.closing, by rw [hcalls, htasks]; exact h.holds, ?_, ?_, ?_⟩
  · intro q hq
    rw [hstates] at hq
    simpa only [HasTimer, htimers, hcalls] using h.pending q hq
  · intro q hq
    rw [hopened, hstates] at hq
    exact hstarted (h.started q hq)
  · intro q hc hq
    rw [hopened] at hq
    simpa only [Attended, hstates, htimers, hcalls] using h.attended q (hconn q hc) hq

/-- An announcement makes no peer connectable: it changes neither status nor key. -/
theorem connectable_of_discovered {device : FoundDevice} {now : Int} {q : String}
    (h : Connectable clientId { s with
      service := { s.service with db := updateKnownPeer s.service.db device now } } q) :
    Connectable clientId s q := by
  obtain ⟨peer, hp, hs, hk⟩ := h
  change (updateKnownPeer s.service.db device now).getPeerById q = some peer at hp
  rw [getPeerById_updateKnownPeer] at hp
  obtain ⟨known, hknown, he⟩ := Option.map_eq_some_iff.mp hp
  refine ⟨known, hknown, ?_⟩
  split at he
  · cases ha : answered device now known with
    | none =>
      rw [ha, Option.getD_none] at he
      exact he ▸ ⟨hs, hk⟩
    | some rewritten =>
      rw [ha, Option.getD_some] at he
      subst he
      rw [answered_eq_some ha] at hs hk
      exact ⟨hs, hk⟩
  · exact he ▸ ⟨hs, hk⟩

theorem covering_call (h : Covering clientId s) (hc : s.calls n = some c)
    (hg : KeepsCovered s (.step n built)) : Covering clientId (s.step clientId n c built) := by
  obtain ⟨peerId, thread, pc⟩ := c
  cases pc with
  | forcing peer => exact covering_forcing h hc
  | reconnecting => exact covering_reconnecting h hc
  | looking => exact covering_looking h hc
  | browsing peer => exact covering_browsing h hc
  | opening peer => exact covering_opening h hc
  | numbering => exact covering_numbering h hc
  | spawning id =>
    cases thread with
    | runtime => exact covering_spawning h hc
    | plain => simp [KeepsCovered, spawnsWithoutRuntime, hc] at hg
  | storing id task => exact covering_storing h hc hg.2.1
  | scheduling => exact covering_scheduling h hc
  | timing delayMs => exact covering_timing h hc
  | authenticating id => exact covering_flags h hc (.inl ⟨id, rfl⟩)
  | closing id task => exact covering_closing h hc
  | closed r => exact covering_flags h hc (.inr (.inl ⟨r, rfl⟩))
  | setting b => exact covering_flags h hc (.inr (.inr (.inl ⟨b, rfl⟩)))
  | emitting b => exact covering_flags h hc (.inr (.inr (.inr ⟨b, rfl⟩)))

/-- A task that begins `connection_closed` is in that call. -/
theorem covering_close {task : Nat} (h : Covering clientId s)
    (ht : next clientId s (.close n task) = some t) : Covering clientId t := by
  simp only [next] at ht
  split at ht
  · next peerId taskId hrunning =>
    split at ht
    · next hn =>
      have hn' : s.calls n = none := by simpa using hn
      cases ht
      have hkeep : ∀ {Q : Call → Prop} {v}, (∃ m c, s.calls m = some c ∧ Q c) →
          ∃ m c, Function.update s.calls n v m = some c ∧ Q c := fun hq =>
        exists_other_call hq fun c hc => by simp [hn'] at hc
      have hsome : ∀ {c id k status}, s.tasks k = some ⟨c, id, status⟩ → ∃ status',
          Function.update s.tasks task (some ⟨peerId, taskId, .closing⟩) k =
            some ⟨c, id, status'⟩ ∧ (status ≠ .closed → status' ≠ .closed) := by
        intro c id k status hk
        by_cases he : k = task
        · subst he
          cases hrunning.symm.trans hk
          exact ⟨.closing, Function.update_self .., by simp⟩
        · exact ⟨status, by rw [Function.update_of_ne he]; exact hk, fun hne => hne⟩
      refine ⟨?_, ?_, ?_, ?_, ?_, h.started, ?_⟩
      · intro k hk
        have hne : k ≠ task := by
          rintro rfl
          simp [h.fresh _ hk] at hrunning
        exact (Function.update_of_ne hne _ _).trans (h.fresh k hk)
      · intro q k hk
        obtain ⟨status, hs, hne⟩ := h.stored q k hk
        obtain ⟨status', hs', hne'⟩ := hsome hs
        exact ⟨status', hs', hne' hne⟩
      · intro k q id hk
        change Function.update s.tasks task _ k = _ at hk
        by_cases he : k = task
        · subst he
          rw [Function.update_self] at hk
          cases hk
          exact ⟨n, .runtime, Function.update_self ..⟩
        · rw [Function.update_of_ne he] at hk
          obtain ⟨m, thread, hm⟩ := h.closing k q id hk
          have hne : m ≠ n := by
            rintro rfl
            simp [hn'] at hm
          exact ⟨m, thread, (Function.update_of_ne hne _ _).trans hm⟩
      · intro m c id k hm hk
        rcases update_call_eq_some hm with ⟨-, hv⟩ | ⟨-, hm⟩
        · cases hv
          cases hk
          exact ⟨.closing, Function.update_self ..⟩
        · obtain ⟨status, hs⟩ := h.holds m c id k hm hk
          obtain ⟨status', hs', -⟩ := hsome hs
          exact ⟨status', hs'⟩
      · intro q hq
        exact (h.pending q hq).imp_right hkeep
      · intro q hconn hq
        exact (h.attended q hconn hq).imp_right (Or.imp_right hkeep)
    · cases ht
  · cases ht

theorem covering_step (h : Covering clientId s) (hg : KeepsCovered s a)
    (ht : next clientId s a = some t) : Covering clientId t := by
  cases a with
  | start =>
    cases ht
    exact h.of_frame rfl rfl rfl rfl rfl (fun _ => rfl) rfl fun _ => id
  | reconnectNow =>
    simp only [next] at ht
    split at ht <;> cases ht
    exact h.of_frame rfl rfl rfl rfl rfl id rfl fun _ => id
  | discovered device now =>
    simp only [next] at ht
    split at ht <;> cases ht
    · exact h
    · exact h.of_frame rfl rfl rfl rfl rfl id rfl fun _ => connectable_of_discovered
  | force n peer thread =>
    simp only [next] at ht
    split at ht
    · next hn =>
      cases ht
      exact covering_begin h (by simpa using hn.1) rfl rfl rfl rfl (fun _ => .inl) rfl rfl rfl rfl
    · cases ht
  | setOnline n p online =>
    simp only [next] at ht
    split at ht
    · next hn =>
      cases ht
      exact covering_begin h (by simpa using hn) rfl rfl rfl rfl (fun _ => .inl) rfl rfl rfl rfl
    · cases ht
  | fire n p delayMs =>
    simp only [next] at ht
    split at ht
    · next hn =>
      cases ht
      refine covering_begin h (by simpa using hn.1) rfl rfl rfl rfl ?_ rfl rfl rfl rfl
      intro q hq
      by_cases he : q = p
      · exact .inr ⟨he.symm, rfl⟩
      · exact .inl ((Function.update_of_ne he _ _).trans_ne hq)
    · cases ht
  | authenticate n task =>
    simp only [next] at ht
    split at ht
    · split at ht
      · next hn =>
        cases ht
        exact covering_begin h (by simpa using hn) rfl rfl rfl rfl (fun _ => .inl) rfl rfl rfl rfl
      · cases ht
    · cases ht
  | close n task => exact covering_close h ht
  | step n built =>
    obtain ⟨c, hc, rfl⟩ := Option.map_eq_some_iff.mp ht
    exact covering_call h hc hg
  | unpair | delete | stopFlag | stopStates => exact absurd hg.1 (by simp [Action.keepsPeers])

theorem covering_reachable (h : Runs.ReachableUnder (system clientId) KeepsCovered s) :
    Covering clientId s :=
  h.invariant (fun _ => covering_initial) fun _ _ _ hs hg ht => covering_step hs hg ht

/-- As long as no handle of an ended task is stored and no task is spawned outside the runtime, a
connectable peer whose socket was once opened has a live task or a timer, whenever no call works on
it. -/
theorem connectable_covered (h : Runs.ReachableUnder (system clientId) KeepsCovered s)
    (hconn : Connectable clientId s p) (hopened : s.opened p = true) (hquiet : Quiet s p) :
    HasLiveTask s p ∨ s.timers p ≠ [] := by
  have hcov := covering_reachable h
  rcases hcov.attended p hconn hopened with htask | htimer | ⟨n, c, hc, hp, -⟩
  · obtain ⟨k, hk⟩ := Option.isSome_iff_exists.mp htask
    obtain ⟨status, hs, hne⟩ := hcov.stored p k hk
    cases status with
    | running => exact .inl ⟨k, hk, hs⟩
    | closing =>
      obtain ⟨n, thread, hn⟩ := hcov.closing k p _ hs
      exact absurd rfl (hquiet n _ hn)
    | closed => exact absurd rfl hne
  · exact .inr htimer
  · exact absurd hp (hquiet n c hc)

/-- Every connectable peer whose socket was once opened stays covered, whatever the schedule. -/
def StaysCovered : Prop :=
  ∀ clientId s p, Runs.ReachableUnder (system clientId) (fun _ a => a.keepsPeers = true) s →
    Connectable clientId s p → s.opened p = true → Quiet s p → HasLiveTask s p ∨ s.timers p ≠ []

/-- Bob is paired, with a key of 32 zero bytes. -/
def bob : DPeer :=
  { DPeer.new "bob" "Bob" "10.0.0.2" 8443 .phone "t0" with
    key := "AAAAAAAAAAAAAAAAAAAAAAAAAAAAAAAAAAAAAAAAAAA=", status := .paired }

def aliceService : ChatService where
  db := ChatDb.upsertPeer ⟨Keyed.Table.empty, Keyed.Table.empty⟩ bob
  identity := ⟨"alice", "Alice", ""⟩
  wireDeviceType := .computer
  peerKeyCache := fun _ => none
  channelKeyCache := fun _ => none

def freshAlice : State where
  service := aliceService
  states := fun _ => PeerState.default
  started := false
  loaded := []
  tasks := fun _ => none
  nextTask := 0
  timers := fun _ => []
  calls := fun _ => none
  events := []
  opened := fun _ => false

theorem freshAlice_initial : Initial freshAlice := ⟨rfl, rfl, rfl, rfl, rfl, rfl, rfl, rfl⟩

/-- `open_socket` for Bob up to the spawn of the task; then the task runs. -/
def openBob : List Action :=
  [.start, .force 0 bob .runtime, .step 0 true, .step 0 true, .step 0 true, .step 0 true]

/-- The calls of a short run have small numbers. -/
def Action.callBelow (k : Nat) (a : Action) : Bool := a.call.all (· < k)

theorem calls_eq_none_of_below {k : Nat} {G : State → Action → Prop}
    (hg : ∀ s a, G s a → a.callBelow k = true)
    (h : Runs.ReachableUnder (system clientId) G s) : ∀ n, k ≤ n → s.calls n = none := by
  refine h.invariant (I := fun s => ∀ n, k ≤ n → s.calls n = none) ?_ ?_
  · intro s hs n _
    rw [hs.calls]
  · intro s a t hs ha ht n hn
    have hne : a.call ≠ some n := by
      intro he
      have hbelow := hg s a ha
      simp [Action.callBelow, he] at hbelow
      omega
    rw [calls_next_of_ne ht hne, hs n hn]

theorem hasKey_bob : hasKey bob = true := by decide +kernel

theorem connectable_bob (h : s.service.db.getPeerById "bob" = some bob) :
    Connectable "alice" s "bob" :=
  ⟨bob, h, by decide, hasKey_bob⟩

/-- A task fails before its handle is stored: the handle stays, the timer it left finds it, and
nobody tries again. -/
theorem failedTaskStored_silences : ¬ StaysCovered := by
  intro h
  have hrun : ((system "alice").run (fun _ a => a.keepsPeers = true ∧ a.callBelow 3 = true) freshAlice
      (openBob ++ [.close 1 0, .step 1 true, .step 1 true, .step 1 true, .step 1 true, .step 0 true,
        .fire 2 "bob" 1000, .step 2 true])).any
      (fun s => (s.service.db.getPeerById "bob" = some bob) && s.opened "bob" &&
        (s.calls 0).isNone && (s.calls 1).isNone && (s.calls 2).isNone && (s.timers "bob").isEmpty &&
        (s.states "bob").task = some 0 && (s.tasks 0).any (·.status = .closed)) = true := by
    decide +kernel
  obtain ⟨s, hs, hp⟩ := Runs.ReachableUnder.of_run freshAlice_initial hrun
  simp only [Bool.and_eq_true, decide_eq_true_eq, Option.isNone_iff_eq_none, List.isEmpty_iff] at hp
  obtain ⟨⟨⟨⟨⟨⟨⟨hbob, hopened⟩, h0⟩, h1⟩, h2⟩, htimers⟩, htask⟩, hclosed⟩ := hp
  have hquiet : Quiet s "bob" := by
    intro n c hc
    have hn : n < 3 := by
      by_contra hn
      simp [calls_eq_none_of_below (fun _ _ ha => ha.2) hs n (by omega)] at hc
    obtain rfl | rfl | rfl : n = 0 ∨ n = 1 ∨ n = 2 := by omega
    · simp [h0] at hc
    · simp [h1] at hc
    · simp [h2] at hc
  rcases h "alice" s "bob" (hs.mono fun _ _ ha => ha.1) (connectable_bob hbob) hopened hquiet with
    ⟨k, hk, hlive⟩ | ht
  · cases htask.symm.trans hk
    simp [hlive] at hclosed
  · exact ht htimers

/-- Bob's socket stays while its task runs. -/
theorem connectable_covered_bob : ∃ s, Runs.ReachableUnder (system "alice") KeepsCovered s ∧
    (HasLiveTask s "bob" ∨ s.timers "bob" ≠ []) := by
  have hrun : ((system "alice").run (fun s a => KeepsCovered s a ∧ a.callBelow 1 = true) freshAlice
      (openBob ++ [.step 0 true])).any
      (fun s => (s.service.db.getPeerById "bob" = some bob) && s.opened "bob" &&
        (s.calls 0).isNone) = true := by
    decide +kernel
  obtain ⟨s, hs, hp⟩ := Runs.ReachableUnder.of_run freshAlice_initial hrun
  simp only [Bool.and_eq_true, decide_eq_true_eq, Option.isNone_iff_eq_none] at hp
  have hquiet : Quiet s "bob" := by
    intro n c hc
    have hn : n < 1 := by
      by_contra hn
      simp [calls_eq_none_of_below (fun _ _ ha => ha.2) hs n (by omega)] at hc
    obtain rfl : n = 0 := by omega
    simp [hp.2] at hc
  have hs' := hs.mono fun _ _ ha => ha.1
  exact ⟨s, hs', connectable_covered hs' (connectable_bob hp.1.1) hp.1.2 hquiet⟩

end PlainRs.LocalApi.PeerStatus
