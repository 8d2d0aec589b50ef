import PlainRs.Base.Serial
import PlainRs.LocalApi.Dlna.ReceiverEngine

/-! Operations on cast requests that interleave, against the same operations one after the other. -/
namespace PlainRs.Dlna

open Runs

/-- A `SetAVTransportURI` between its write and the end of its rule check. -/
def CastOp.Setting : CastOp → CastPhase → Prop
  | .setAvTransportUri _ _ _, .wrote | .setAvTransportUri _ _ _, .read _ _ => True
  | _, _ => False

section

variable {ι : Type} (op : ι → CastOp)

/-- What a section finds is what the one before it left: a rule check its own request, without a
queued Play if the request is allowed at once or becomes pending; a Play a pending request; a reject
the request that it read; an accept also the flag, which no `SetAVTransportURI` has cleared for a
request that is not yet there. -/
def Undisturbed (s : CastState ι) (i : ι) : Prop :=
  match op i, s.phase i with
  | .setAvTransportUri request allowed _, .wrote =>
    s.renderer.state.rawPendingCastRequest = some request ∧
      (sendersContainIp allowed request.senderIp → s.renderer.state.pendingPlayQueued = false)
  | .setAvTransportUri request allowed denied, .read _ _ =>
    sendersContainIp allowed request.senderIp ∨ sendersContainIp denied request.senderIp ∨
      s.renderer.state.pendingPlayQueued = false
  | .play, .sawPending => s.renderer.state.pendingCastRequest.isSome
  | .acceptCast _, .read pending playQueued =>
    s.renderer.state.pendingCastRequest = some pending ∧
      s.renderer.state.pendingPlayQueued = playQueued ∧
      (playQueued ∨ ∀ j, ¬ (op j).Setting (s.phase j))
  | .rejectCast _, .read pending _ => s.renderer.state.pendingCastRequest = some pending
  | _, _ => True

omit op in
/-- No operation is between two sections. -/
def AtRest (s : CastState ι) : Prop := ∀ i, s.phase i = .idle ∨ ∃ looked, s.phase i = .done looked

end

/-- What an operation does alone. -/
def CastOp.whole (r : Renderer) : CastOp → CastPhase × Renderer
  | .setAvTransportUri request allowed denied =>
    if request.mediaUri = "" then (.done none, r)
    else (.done (some request), (r.setRaw request).applyRules allowed denied request false)
  | .play => (.done none, if r.hasPending then r.queuePlay else r.send .play)
  | .acceptCast remember => r.state.pendingCastRequest.elim (.done none, r) fun pending =>
    (.done (some pending), (r.dispatchAccept pending r.state.pendingPlayQueued).remember remember
      pending .dlnaDeniedSenders .dlnaAllowedSenders)
  | .rejectCast remember => r.state.pendingCastRequest.elim (.done none, r) fun pending =>
    (.done (some pending), r.clearPending.remember remember pending
      .dlnaAllowedSenders .dlnaDeniedSenders)

/-- A renderer without a request on its way, and with the given flag. -/
def Renderer.settle (r : Renderer) (queued : Bool) : Renderer :=
  { r with state := { r.state with
      rawPendingCastRequest := none
      pendingPlayQueued := queued } }

/-- The request that a `SetAVTransportURI` has read is its own. -/
def CastOp.Reads : CastOp → CastPhase → Prop
  | .setAvTransportUri request _ _, .wrote => request.mediaUri ≠ ""
  | .setAvTransportUri request allowed _, .read pending playQueued =>
    request.mediaUri ≠ "" ∧ pending = request ∧
      (sendersContainIp allowed request.senderIp → playQueued = false)
  | _, _ => True

def CastPhase.rest : CastPhase → CastPhase
  | .done looked => .done looked
  | _ => .idle

/-- What a state has in common with the sequential one: only the flag may differ, as long as a
`SetAVTransportURI` has cleared it for a request that is on its way. -/
structure Coupled {ι : Type} (op : ι → CastOp) (s v : CastState ι) : Prop where
  renderer : ∃ queued, v.renderer = s.renderer.settle queued ∧
    (queued = s.renderer.state.pendingPlayQueued ∨
      s.renderer.state.pendingPlayQueued = false ∧ ∃ i, (op i).Setting (s.phase i))
  raw : s.renderer.state.rawPendingCastRequest = none ∨ ∃ i, (op i).Setting (s.phase i)
  phase : ∀ i, v.phase i = (s.phase i).rest
  reads : ∀ i, (op i).Reads (s.phase i)

variable {ι : Type} [DecidableEq ι] {op : ι → CastOp} {start : DlnaRendererState}
  {s t v : CastState ι} {i : ι} {r : Renderer} {phase : CastPhase}

theorem alone_next (hv : v.phase i = .idle) : ((castRuns op start).alone 2).next v i =
    some ⟨((op i).whole v.renderer).2, Function.update v.phase i ((op i).whole v.renderer).1⟩ := by
  cases ho : op i with
  | setAvTransportUri request allowed denied =>
    by_cases hu : request.mediaUri = ""
    · simp [System.alone, System.complete, castRuns, CastOp.nextSection, CastOp.whole, ho, hv, hu]
    · simp [System.alone, System.complete, castRuns, CastOp.nextSection, CastOp.whole, ho, hv, hu,
        Renderer.setRaw]
  | play =>
    by_cases hp : v.renderer.hasPending
    · simp [System.alone, System.complete, castRuns, CastOp.nextSection, CastOp.whole, ho, hv, hp]
    · simp [System.alone, System.complete, castRuns, CastOp.nextSection, CastOp.whole, ho, hv, hp]
  | acceptCast remember =>
    cases hp : v.renderer.state.pendingCastRequest with
    | none =>
      simp [System.alone, System.complete, castRuns, CastOp.nextSection, CastOp.whole, ho, hv, hp]
    | some pending =>
      simp [System.alone, System.complete, castRuns, CastOp.nextSection, CastOp.whole, ho, hv, hp]
  | rejectCast remember =>
    cases hp : v.renderer.state.pendingCastRequest with
    | none =>
      simp [System.alone, System.complete, castRuns, CastOp.nextSection, CastOp.whole, ho, hv, hp]
    | some pending =>
      simp [System.alone, System.complete, castRuns, CastOp.nextSection, CastOp.whole, ho, hv, hp]

/-- The rule check of a request on its own, whatever the flag was. -/
theorem applyRules_settle {queued : Bool} {request : PendingCastRequest}
    {allowed denied : List String} :
    ((r.settle queued).setRaw request).applyRules allowed denied request false =
      (r.applyRules allowed denied request false).settle false := by
  unfold Renderer.applyRules
  split
  · rfl
  · split
    · rfl
    · rfl

theorem setting_update {phase : CastPhase} {j : ι} :
    (op j).Setting (Function.update s.phase i phase j) ↔
      if j = i then (op i).Setting phase else (op j).Setting (s.phase j) := by
  by_cases hj : j = i
  · subst hj
    simp
  · simp [hj]

/-- A step that ends no operation keeps the coupling. -/
theorem Coupled.silent (h : Coupled op s v) (hold : (s.phase i).rest = .idle)
    (hnew : phase.rest = .idle) (hreads : (op i).Reads phase)
    (hset : (op i).Setting (s.phase i) → (op i).Setting phase)
    (hr : r = s.renderer ∨ (op i).Setting phase ∧ r.state.pendingPlayQueued = false ∧
      ∀ queued, r.settle queued = s.renderer.settle queued) :
    Coupled op ⟨r, Function.update s.phase i phase⟩ v := by
  have hkept : (∃ j, (op j).Setting (s.phase j)) →
      ∃ j, (op j).Setting (Function.update s.phase i phase j) := by
    rintro ⟨j, hj⟩
    refine ⟨j, setting_update.mpr ?_⟩
    split
    · next hji => exact hset (hji ▸ hj)
    · exact hj
  have hmine : (op i).Setting phase → ∃ j, (op j).Setting (Function.update s.phase i phase j) :=
    fun hp => ⟨i, setting_update.mpr (by simpa using hp)⟩
  obtain ⟨queued, hv, hq⟩ := h.renderer
  refine ⟨⟨queued, ?_, ?_⟩, ?_, ?_, ?_⟩
  · rcases hr with rfl | ⟨-, -, hsame⟩
    · exact hv
    · exact hv.trans (hsame queued).symm
  · rcases hr with rfl | ⟨hp, hflag, -⟩
    · exact hq.imp_right fun ⟨hf, hex⟩ => ⟨hf, hkept hex⟩
    · exact .inr ⟨hflag, hmine hp⟩
  · rcases hr with rfl | ⟨hp, -, -⟩
    · exact h.raw.imp_right hkept
    · exact .inr (hmine hp)
  · intro j
    by_cases hj : j = i
    · subst hj
      rw [h.phase, hold]
      simp [hnew]
    · simpa [hj] using h.phase j
  · intro j
    by_cases hj : j = i
    · subst hj
      simpa using hreads
    · simpa [hj] using h.reads j

/-- A step that ends an operation is the whole operation in the sequential run. -/
theorem Coupled.ended {looked : Option PendingCastRequest} (h : Coupled op s v) (queued : Bool)
    (hold : (s.phase i).rest = .idle)
    (hwhole : (op i).whole v.renderer = (.done looked, r.settle queued))
    (hflag : queued = r.state.pendingPlayQueued ∨
      r.state.pendingPlayQueued = false ∧ ∃ j, j ≠ i ∧ (op j).Setting (s.phase j))
    (hraw : r.state.rawPendingCastRequest = none ∨ ∃ j, j ≠ i ∧ (op j).Setting (s.phase j)) :
    ∃ j w, ((castRuns op start).alone 2).next v j = some w ∧
      Coupled op ⟨r, Function.update s.phase i (.done looked)⟩ w := by
  have hkept : (∃ j, j ≠ i ∧ (op j).Setting (s.phase j)) →
      ∃ j, (op j).Setting (Function.update s.phase i (.done looked) j) := by
    rintro ⟨j, hj, hset⟩
    exact ⟨j, setting_update.mpr (by simpa [hj] using hset)⟩
  have hidle : v.phase i = .idle := (h.phase i).trans hold
  refine ⟨i, _, alone_next hidle, ?_⟩
  rw [hwhole]
  refine ⟨⟨queued, rfl, hflag.imp_right fun ⟨hf, hex⟩ => ⟨hf, hkept hex⟩⟩, hraw.imp_right hkept, ?_, ?_⟩
  · intro j
    by_cases hj : j = i
    · subst hj
      simp [CastPhase.rest]
    · simpa [hj] using h.phase j
  · intro j
    by_cases hj : j = i
    · subst hj
      simp [CastOp.Reads]
    · simpa [hj] using h.reads j

/-- What a step of the run is matched by. -/
def Matched (op : ι → CastOp) (start : DlnaRendererState) (v t : CastState ι) : Prop :=
  Coupled op t v ∨ ∃ j w, ((castRuns op start).alone 2).next v j = some w ∧ Coupled op t w

omit [DecidableEq ι] in
/-- A renderer that is left as it is keeps its flag and the request that is on its way. -/
theorem Coupled.others (h : Coupled op s v) (hset : ¬ (op i).Setting (s.phase i)) :
    (s.renderer.state.rawPendingCastRequest = none ∨ ∃ j, j ≠ i ∧ (op j).Setting (s.phase j)) ∧
      ∃ queued, v.renderer = s.renderer.settle queued ∧
        (queued = s.renderer.state.pendingPlayQueued ∨ s.renderer.state.pendingPlayQueued = false ∧
          ∃ j, j ≠ i ∧ (op j).Setting (s.phase j)) := by
  have hother : (∃ j, (op j).Setting (s.phase j)) → ∃ j, j ≠ i ∧ (op j).Setting (s.phase j) := by
    rintro ⟨j, hj⟩
    refine ⟨j, ?_, hj⟩
    rintro rfl
    exact hset hj
  obtain ⟨queued, hv, hq⟩ := h.renderer
  exact ⟨h.raw.imp_right hother, queued, hv, hq.imp_right fun ⟨hf, hex⟩ => ⟨hf, hother hex⟩⟩

theorem coupled_set {request : PendingCastRequest} {allowed denied : List String}
    (h : Coupled op s v) (ho : op i = .setAvTransportUri request allowed denied)
    (hg : Undisturbed op s i) (ht : (op i).nextSection s.renderer (s.phase i) = some (phase, r)) :
    Matched op start v ⟨r, Function.update s.phase i phase⟩ := by
  unfold Undisturbed at hg
  have hreads := h.reads i
  rw [ho] at hg ht hreads
  cases hp : s.phase i with
  | idle =>
    rw [hp] at hg ht
    simp only [CastOp.nextSection] at ht
    split at ht
    · next hu =>
      cases ht
      obtain ⟨hraw, queued, hv, hflag⟩ := h.others (i := i) (by simp [ho, hp, CastOp.Setting])
      exact .inr (h.ended queued (by rw [hp]; rfl) (by simp [ho, CastOp.whole, hu, hv]) hflag hraw)
    · next hu =>
      cases ht
      refine .inl (h.silent (by rw [hp]; rfl) rfl (by rw [ho]; exact hu) ?_ (.inr ⟨?_, rfl, ?_⟩))
      · intro hset
        rw [ho, hp] at hset
        exact hset.elim
      · rw [ho]
        trivial
      · intro queued
        rfl
  | wrote =>
    rw [hp] at hg ht hreads
    obtain ⟨hraw, hqueued⟩ := hg
    simp only [CastOp.nextSection, hraw, Option.elim_some] at ht
    cases ht
    refine .inl (h.silent (by rw [hp]; rfl) rfl ?_ ?_ (.inl rfl))
    · rw [ho]
      exact ⟨hreads, rfl, hqueued⟩
    · intro _
      rw [ho]
      trivial
  | read pending playQueued =>
    rw [hp] at hg ht hreads
    obtain ⟨hu, rfl, hallowed⟩ := hreads
    simp only [CastOp.nextSection] at ht
    cases ht
    obtain ⟨queued, hv, -⟩ := h.renderer
    have hrules : s.renderer.applyRules allowed denied pending playQueued =
        s.renderer.applyRules allowed denied pending false := by
      by_cases ha : sendersContainIp allowed pending.senderIp
      · rw [hallowed ha]
      · simp [Renderer.applyRules, ha]
    rw [hrules]
    refine .inr (h.ended false (by rw [hp]; rfl) ?_ (.inl ?_) (.inl ?_))
    · simp [ho, CastOp.whole, hu, hv, applyRules_settle]
    · unfold Renderer.applyRules
      split
      · rfl
      · next ha =>
        split
        · rfl
        · next hd => exact ((hg.resolve_left ha).resolve_left hd).symm
    · unfold Renderer.applyRules
      split
      · rfl
      · split
        · rfl
        · rfl
  | sawPending =>
    rw [hp] at ht
    cases ht
  | done looked =>
    rw [hp] at ht
    cases ht

theorem coupled_play (h : Coupled op s v) (ho : op i = .play) (hg : Undisturbed op s i)
    (ht : (op i).nextSection s.renderer (s.phase i) = some (phase, r)) :
    Matched op start v ⟨r, Function.update s.phase i phase⟩ := by
  unfold Undisturbed at hg
  have hset : ¬ (op i).Setting (s.phase i) := by simp [ho, CastOp.Setting]
  obtain ⟨hraw, queued, hv, hflag⟩ := h.others hset
  rw [ho] at hg ht
  cases hp : s.phase i with
  | idle =>
    rw [hp] at hg ht
    simp only [CastOp.nextSection] at ht
    split at ht
    · next hpending =>
      cases ht
      exact .inl (h.silent (by rw [hp]; rfl) rfl (by rw [ho]; trivial) (fun hs => (hset hs).elim)
        (.inl rfl))
    · next hpending =>
      cases ht
      refine .inr (h.ended queued (by rw [hp]; rfl) ?_ hflag hraw)
      have hnone : s.renderer.state.pendingCastRequest = none := by
        simp [Renderer.hasPending] at hpending
        exact hpending.2
      simp [ho, CastOp.whole, hv, Renderer.hasPending, Renderer.settle, Renderer.send, hnone]
  | sawPending =>
    rw [hp] at hg ht
    simp only [CastOp.nextSection] at ht
    cases ht
    refine .inr (h.ended true (by rw [hp]; rfl) ?_ (.inl rfl) hraw)
    have hpending : (s.renderer.settle queued).hasPending = true := by
      simpa [Renderer.hasPending, Renderer.settle] using hg
    rw [ho, hv]
    simp only [CastOp.whole, hpending, if_true]
    rfl
  | wrote =>
    rw [hp] at ht
    cases ht
  | read pending playQueued =>
    rw [hp] at ht
    cases ht
  | done looked =>
    rw [hp] at ht
    cases ht

theorem settle_remember {queued remember : Bool} {pending : PendingCastRequest}
    {out into : SenderList} : (r.settle queued).remember remember pending out into =
      (r.remember remember pending out into).settle queued := by
  unfold Renderer.remember
  split
  · rfl
  · rfl

@[simp] theorem state_remember {remember : Bool} {pending : PendingCastRequest}
    {out into : SenderList} : (r.remember remember pending out into).state = r.state := by
  unfold Renderer.remember
  split
  · rfl
  · rfl

theorem coupled_accept {remember : Bool} (h : Coupled op s v) (ho : op i = .acceptCast remember)
    (hg : Undisturbed op s i) (ht : (op i).nextSection s.renderer (s.phase i) = some (phase, r)) :
    Matched op start v ⟨r, Function.update s.phase i phase⟩ := by
  unfold Undisturbed at hg
  have hset : ¬ (op i).Setting (s.phase i) := by simp [ho, CastOp.Setting]
  obtain ⟨hraw, queued, hv, hflag⟩ := h.others hset
  rw [ho] at hg ht
  cases hp : s.phase i with
  | idle =>
    rw [hp] at ht
    cases hpending : s.renderer.state.pendingCastRequest with
    | none =>
      simp only [CastOp.nextSection, hpending, Option.elim_none] at ht
      cases ht
      refine .inr (h.ended queued (by rw [hp]; rfl) ?_ hflag hraw)
      simp [ho, CastOp.whole, hv, Renderer.settle, hpending]
    | some pending =>
      simp only [CastOp.nextSection, hpending, Option.elim_some] at ht
      cases ht
      exact .inl (h.silent (by rw [hp]; rfl) rfl (by rw [ho]; trivial) (fun hs => (hset hs).elim)
        (.inl rfl))
  | read pending playQueued =>
    rw [hp] at hg ht
    obtain ⟨hpending, hplay, hsetting⟩ := hg
    simp only [CastOp.nextSection] at ht
    cases ht
    have hqueued : queued = playQueued := by
      rcases hflag with hflag | ⟨hfalse, j, -, hj⟩
      · exact hflag.trans hplay
      · rcases hsetting with htrue | hnone
        · rw [hplay, htrue] at hfalse
          cases hfalse
        · exact (hnone j hj).elim
    refine .inr (h.ended false (by rw [hp]; rfl) ?_ (.inl ?_) (.inl ?_))
    · rw [← settle_remember]
      simp [ho, CastOp.whole, hv, Renderer.settle, hpending, hqueued, Renderer.dispatchAccept,
        DlnaRendererState.load]
    · rw [state_remember]
      rfl
    · rw [state_remember]
      rfl
  | sawPending =>
    rw [hp] at ht
    cases ht
  | wrote =>
    rw [hp] at ht
    cases ht
  | done looked =>
    rw [hp] at ht
    cases ht

theorem coupled_reject {remember : Bool} (h : Coupled op s v) (ho : op i = .rejectCast remember)
    (hg : Undisturbed op s i) (ht : (op i).nextSection s.renderer (s.phase i) = some (phase, r)) :
    Matched op start v ⟨r, Function.update s.phase i phase⟩ := by
  unfold Undisturbed at hg
  have hset : ¬ (op i).Setting (s.phase i) := by simp [ho, CastOp.Setting]
  obtain ⟨hraw, queued, hv, hflag⟩ := h.others hset
  rw [ho] at hg ht
  cases hp : s.phase i with
  | idle =>
    rw [hp] at ht
    cases hpending : s.renderer.state.pendingCastRequest with
    | none =>
      simp only [CastOp.nextSection, hpending, Option.elim_none] at ht
      cases ht
      refine .inr (h.ended queued (by rw [hp]; rfl) ?_ hflag hraw)
      simp [ho, CastOp.whole, hv, Renderer.settle, hpending]
    | some pending =>
      simp only [CastOp.nextSection, hpending, Option.elim_some] at ht
      cases ht
      exact .inl (h.silent (by rw [hp]; rfl) rfl (by rw [ho]; trivial) (fun hs => (hset hs).elim)
        (.inl rfl))
  | read pending playQueued =>
    rw [hp] at hg ht
    have hpending : s.renderer.state.pendingCastRequest = some pending := hg
    simp only [CastOp.nextSection] at ht
    cases ht
    refine .inr (h.ended false (by rw [hp]; rfl) ?_ (.inl ?_) ?_)
    · rw [← settle_remember]
      simp [ho, CastOp.whole, hv, Renderer.settle, hpending, Renderer.clearPending]
    · rw [state_remember]
      rfl
    · rw [state_remember]
      exact hraw
  | sawPending =>
    rw [hp] at ht
    cases ht
  | wrote =>
    rw [hp] at ht
    cases ht
  | done looked =>
    rw [hp] at ht
    cases ht

theorem coupled_step (h : Coupled op s v) (hg : Undisturbed op s i)
    (ht : (castRuns op start).next s i = some t) : Matched op start v t := by
  obtain ⟨⟨phase, r⟩, hsection, rfl⟩ := Option.map_eq_some_iff.mp ht
  cases ho : op i with
  | setAvTransportUri request allowed denied => exact coupled_set h ho hg hsection
  | play => exact coupled_play h ho hg hsection
  | acceptCast remember => exact coupled_accept h ho hg hsection
  | rejectCast remember => exact coupled_reject h ho hg hsection

theorem coupled_init (hs : start.rawPendingCastRequest = none)
    (h : (castRuns op start).init s) : Coupled op s s := by
  cases h
  refine ⟨⟨start.pendingPlayQueued, ?_, .inl rfl⟩, .inl hs, fun _ => rfl, ?_⟩
  · simp [Renderer.settle, ← hs]
  · intro i
    cases ho : op i with
    | setAvTransportUri request allowed denied => trivial
    | play => trivial
    | acceptCast remember => trivial
    | rejectCast remember => trivial

omit [DecidableEq ι] in
theorem not_setting_of_rest (hrest : AtRest s) (i : ι) : ¬ (op i).Setting (s.phase i) := by
  rcases hrest i with hp | ⟨looked, hp⟩
  · rw [hp]
    cases op i with
    | _ => exact fun hset => hset
  · rw [hp]
    cases op i with
    | _ => exact fun hset => hset

omit [DecidableEq ι] in
/-- At rest, coupled states are equal. -/
theorem Coupled.eq_of_rest (h : Coupled op s v) (hrest : AtRest s) : v = s := by
  have hnone : ¬ ∃ i, (op i).Setting (s.phase i) := fun ⟨i, hi⟩ => not_setting_of_rest hrest i hi
  obtain ⟨queued, hv, hq⟩ := h.renderer
  have hraw := h.raw.resolve_right hnone
  have hqueued := hq.resolve_right fun hex => hnone hex.2
  have hphase : v.phase = s.phase := by
    funext i
    rw [h.phase i]
    rcases hrest i with hp | ⟨looked, hp⟩
    · rw [hp]
      rfl
    · rw [hp]
      rfl
  have hrenderer : v.renderer = s.renderer := by
    rw [hv, hqueued]
    simp [Renderer.settle, ← hraw]
  obtain ⟨r, p⟩ := v
  cases hphase
  cases hrenderer
  rfl

/-- In a run that is undisturbed, what the operations leave once they are all at rest, the requests
that they looked at included, is what the same operations leave in some sequential run. -/
theorem casts_sequential (hs : start.rawPendingCastRequest = none)
    (h : ReachableUnder (castRuns op start) (Undisturbed op) s) (hrest : AtRest s) :
    Reachable ((castRuns op start).alone 2) s := by
  obtain ⟨v, hv, hc⟩ := ReachableUnder.matched (S := castRuns op start)
    (T := (castRuns op start).alone 2) (R := Coupled op)
    (fun s hinit => ⟨s, hinit, coupled_init hs hinit⟩)
    (fun s i t v hr hg ht => coupled_step hr hg ht) h
  rwa [← hc.eq_of_rest hrest]

def demoRequest : PendingCastRequest where
  senderIp := "10.0.0.2"
  senderName := "phone"
  mediaUri := "http://10.0.0.2/a.mp4"
  mediaTitle := "a"
  mediaType := .video
  albumArtUri := ""

/-- A request and a Play. -/
def castAndPlay (allowed : List String) : Bool → CastOp
  | true => .setAvTransportUri demoRequest allowed []
  | false => .play

/-- A Play that saw the request before the rule check ended is queued for it afterwards. -/
theorem casts_sequential_playAfter : ∃ s : CastState Bool,
    s.renderer.state.pendingCastRequest = some demoRequest ∧
    s.renderer.state.pendingPlayQueued = true ∧
    Reachable ((castRuns (castAndPlay []) .default).alone 2) s := by
  have hset : ReachableUnder (castRuns (castAndPlay []) .default) (Undisturbed (castAndPlay [])) _ :=
    .step (.step (.init rfl) (a := true) trivial rfl) (a := true) ⟨rfl, fun _ => rfl⟩ rfl
  have hboth := (hset.step (a := false) trivial rfl).step (a := true) (.inr (.inr rfl)) rfl
  have hdone := hboth.step (a := false) rfl rfl
  refine ⟨_, rfl, rfl, casts_sequential rfl hdone ?_⟩
  intro i
  cases i with
  | false => exact .inr ⟨_, rfl⟩
  | true => exact .inr ⟨_, rfl⟩

instance : DecidableEq (CastState Bool) := fun s t =>
  decidable_of_iff (s.renderer = t.renderer ∧ s.phase = t.phase) (by
    rw [CastState.mk.injEq])

/-- All that the two leave one after the other, when the sender is allowed. -/
def sequentialCasts : List (CastState Bool) :=
  let runs := (castRuns (castAndPlay ["10.0.0.2|phone"]) .default).alone 2
  let go s i := (runs.next s i).getD s
  let start : CastState Bool := ⟨⟨.default, [], []⟩, fun _ => .idle⟩
  [start, go start true, go start false, go (go start true) false, go (go start false) true]

/-- A Play between the rule check and its write is lost, though the request is accepted. -/
theorem play_lost : ∃ s, Reachable (castRuns (castAndPlay ["10.0.0.2|phone"]) .default) s ∧
    AtRest s ∧ ¬ Reachable ((castRuns (castAndPlay ["10.0.0.2|phone"]) .default).alone 2) s := by
  have hrun : ((castRuns (castAndPlay ["10.0.0.2|phone"]) .default).run (fun _ _ => True)
      ⟨⟨.default, [], []⟩, fun _ => .idle⟩ [true, true, false, false, true]).any (fun s =>
        s ∉ sequentialCasts ∧ s.phase = fun i => .done (if i then some demoRequest else none)) =
      true := by
    decide +kernel
  have hclosed : ∀ s ∈ sequentialCasts, ∀ i, (((castRuns (castAndPlay ["10.0.0.2|phone"])
      .default).alone 2).next s i).all (· ∈ sequentialCasts) = true := by
    decide +kernel
  obtain ⟨s, hs, hend⟩ := ReachableUnder.of_run rfl hrun
  simp only [decide_eq_true_eq] at hend
  refine ⟨s, hs, fun i => .inr ⟨_, by rw [hend.2]⟩, fun halone => hend.1 (halone.mem ?_ ?_)⟩
  · rintro s rfl
    exact List.mem_cons_self
  · intro s hs i t ht
    have hall := hclosed s hs i
    rw [ht] at hall
    simpa using hall

end PlainRs.Dlna
