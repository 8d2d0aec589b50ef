import PlainRs.Base.Along
import PlainRs.LocalApi.Dlna.DeniedSenders

/-! What becomes of the decisions about senders that a user has asked to remember. -/
namespace PlainRs.Dlna

open Runs

/-- A renderer with the address that its pending request came from, and the last decision that was
to be remembered about each address: `true` for an accept. -/
structure CastHost where
  renderer : Renderer
  pendingFrom : String
  decision : String → Option Bool

inductive HostEvent
  | http (request : DlnaHttpRequest)
  | acceptCast (remember : Bool)
  | rejectCast (remember : Bool)
  | process

section

variable (toLowercase : String → String) (documents : DlnaDocuments)
  (stored : SenderList → List String)

/-- The request that an HTTP request puts before the rules, if it is a `SetAVTransportURI` with a
uri. -/
def castOf (request : DlnaHttpRequest) : Option PendingCastRequest :=
  if 1024 * 1024 < request.body.length ∨ endsWith request.path "description.xml" = true ∨
      endsWith request.path "scpd.xml" = true ∨ ¬ (request.method = "POST" ∧
        (endsWith request.path "control" ∨ containsStr request.path "AVTransport")) then none
  else
    let headers := dlnaHeaders request.headers
    let body := Text.fromUtf8Lossy request.body
    if SetsUri headers body then stagedRequest toLowercase headers body else none

/-- The rules neither allow nor deny a sender. -/
def Undecided (r : Renderer) (ip : String) : Bool :=
  !sendersContainIp (r.senders stored .dlnaAllowedSenders) ip &&
    !sendersContainIp (r.senders stored .dlnaDeniedSenders) ip

/-- The renderer after an HTTP request, under the sender lists as they are. -/
def CastHost.routed (s : CastHost) (request : DlnaHttpRequest) : Renderer :=
  (dlnaRoute toLowercase documents s.renderer request
    (s.renderer.senders stored .dlnaAllowedSenders)
    (s.renderer.senders stored .dlnaDeniedSenders)).1

/-- A decision is about the address of the pending request, where there is one. -/
def CastHost.decide (s : CastHost) (remember accept : Bool) : String → Option Bool :=
  if remember ∧ s.renderer.state.pendingCastRequest.isSome then
    Function.update s.decision s.pendingFrom (some accept)
  else s.decision

def castHosts : System CastHost HostEvent where
  init s := s.renderer.AtRest ∧ s.renderer.state.pendingCastRequest = none ∧
    s.renderer.senderCalls = [] ∧ ∀ address, s.decision address = none
  next s
    | .http request => some { s with
        renderer := s.routed toLowercase documents stored request
        pendingFrom :=
          if (castOf toLowercase request).any fun cast => Undecided stored s.renderer cast.senderIp
          then request.remote else s.pendingFrom }
    | .acceptCast remember => some { s with
        renderer := ((CastOp.acceptCast remember).whole s.renderer).2
        decision := s.decide remember true }
    | .rejectCast remember => some { s with
        renderer := ((CastOp.rejectCast remember).whole s.renderer).2
        decision := s.decide remember false }
    | .process => some { s with renderer := s.renderer.processNext }

end

/-- The request is applied at once, and nothing is pending. -/
structure Applied (r r' : Renderer) (cast : PendingCastRequest) : Prop where
  state : r'.state = r.state.load cast false
  commands : r'.commands = r.commands ++
    [.setUri cast.mediaUri cast.mediaTitle cast.mediaType cast.albumArtUri]

/-- The request is neither applied nor pending. -/
structure Dropped (r r' : Renderer) : Prop where
  pending : r'.state.pendingCastRequest = r.state.pendingCastRequest
  uri : r'.state.mediaUri = r.state.mediaUri
  media : r'.state.media = r.state.media
  playback : r'.state.playbackState = r.state.playbackState
  commands : r'.commands = r.commands

section

variable (toLowercase : String → String) (documents : DlnaDocuments)
  (stored : SenderList → List String)

/-- A cast is treated as was decided about its address; without a decision, as if none had been made
about any. -/
def BindsSender (s : CastHost) : HostEvent → Prop
  | .http request => ∀ cast ∈ castOf toLowercase request,
    match s.decision request.remote with
    | some true => Applied s.renderer (s.routed toLowercase documents stored request) cast
    | some false => Dropped s.renderer (s.routed toLowercase documents stored request)
    | none => s.routed toLowercase documents stored request =
      (dlnaRoute toLowercase documents s.renderer request (stored .dlnaAllowedSenders)
        (stored .dlnaDeniedSenders)).1
  | _ => True

/-- No cast comes from an address that something was decided about, unless the lists that were
stored decide the same about the empty address. -/
def NothingToRemember (s : CastHost) : HostEvent → Prop
  | .http request => ∀ cast ∈ castOf toLowercase request,
    match s.decision request.remote with
    | some true => sendersContainIp (stored .dlnaAllowedSenders) "" = true
    | some false => sendersContainIp (stored .dlnaAllowedSenders) "" = false ∧
      (sendersContainIp (stored .dlnaDeniedSenders) "" = true ∨
        s.renderer.state.pendingCastRequest = some cast)
    | none => True
  | _ => True

end

/-- Requests come without an address, and so nothing is remembered. -/
structure Anonymous (s : CastHost) : Prop where
  calls : s.renderer.senderCalls = []
  pending : ∀ cast ∈ s.renderer.state.pendingCastRequest, cast.senderIp = ""

variable {toLowercase : String → String} {documents : DlnaDocuments}
  {stored : SenderList → List String} {s t : CastHost} {request : DlnaHttpRequest}
  {cast : PendingCastRequest} {e : HostEvent} {r : Renderer} {allowed denied : List String}

theorem routed_cast (r : Renderer) (documents : DlnaDocuments) (allowed denied : List String)
    (h : castOf toLowercase request = some cast) :
    (dlnaRoute toLowercase documents r request allowed denied).1 =
      (r.setRaw cast).applyRules allowed denied cast false ∧ cast.senderIp = "" := by
  unfold castOf at h
  split at h
  · cases h
  · next hroute =>
    push Not at hroute
    obtain ⟨hlen, hdesc, hscpd, hpost⟩ := hroute
    dsimp only at h
    split at h
    · next hsets =>
      refine ⟨?_, (stagedRequest_spec h).1⟩
      rw [dlnaRoute, if_neg (by omega), route, if_neg hdesc, if_neg hscpd, if_pos hpost,
        handleSoap_setsUri hsets, h, Option.elim_some]
    · cases h

section Anonymous

/-- The pending request and the calls about senders. -/
def Renderer.memory (r : Renderer) : Option PendingCastRequest × List SenderCall :=
  (r.state.pendingCastRequest, r.senderCalls)

theorem memory_handleAction {headers : Headers} {action body : String} {params : SoapParams}
    {r' : Renderer} (hact : action ≠ "SetAVTransportURI")
    (ha : handleAction toLowercase r headers allowed denied action params = .ok (r', body)) :
    r'.memory = r.memory := by
  have hplay : (CastOp.play.whole r).2.memory = r.memory := by
    simp only [CastOp.whole]
    split <;> rfl
  have hseek : ∀ posMs : Int,
      (if 0 ≤ posMs then r.send (.seek posMs) else r).memory = r.memory := by
    intro posMs
    split <;> rfl
  unfold handleAction at ha
  rw [if_neg hact] at ha
  repeat' split at ha
  all_goals cases ha
  all_goals first | rfl | exact hplay | exact hseek _

theorem memory_handleSoap {headers : Headers} {body : String}
    (h : SetsUri headers body = true → stagedRequest toLowercase headers body = none) :
    (handleSoap toLowercase r headers body allowed denied).1.memory = r.memory := by
  by_cases hs : SetsUri headers body = true
  · rw [handleSoap_setsUri hs, h hs, Option.elim_none]
  · unfold handleSoap
    unfold SetsUri at hs
    split
    · rfl
    · next soap hsoap =>
      split
      · next r' body' hout =>
        obtain ⟨⟨action, params⟩, rfl, ha⟩ := Checked.bind_eq_ok.mp hout
        refine memory_handleAction ?_ ha
        rintro rfl
        simp [hsoap] at hs
      · rfl

theorem memory_dlnaRoute (h : castOf toLowercase request = none) :
    (dlnaRoute toLowercase documents r request allowed denied).1.memory = r.memory := by
  unfold dlnaRoute
  split
  · rfl
  · next hlen =>
    unfold route
    repeat' split
    all_goals try rfl
    next hdesc hscpd hpost =>
      refine memory_handleSoap fun hs => ?_
      unfold castOf at h
      rw [if_neg (by push Not; exact ⟨by omega, hdesc, hscpd, hpost⟩)] at h
      dsimp only at h
      rwa [if_pos hs] at h

theorem memory_applyRules (r : Renderer) (cast : PendingCastRequest) (allowed denied : List String)
    (playQueued : Bool) :
    ((r.setRaw cast).applyRules allowed denied cast playQueued).senderCalls = r.senderCalls ∧
      (((r.setRaw cast).applyRules allowed denied cast playQueued).state.pendingCastRequest = none ∨
        ((r.setRaw cast).applyRules allowed denied cast playQueued).state.pendingCastRequest =
          some cast ∨
        ((r.setRaw cast).applyRules allowed denied cast playQueued).state.pendingCastRequest =
          r.state.pendingCastRequest) := by
  unfold Renderer.applyRules
  split
  · exact ⟨rfl, .inl rfl⟩
  · split
    · exact ⟨rfl, .inr (.inr rfl)⟩
    · exact ⟨rfl, .inr (.inl rfl)⟩

theorem anonymous_of_memory (h : Anonymous s) (hm : t.renderer.memory = s.renderer.memory) :
    Anonymous t := by
  obtain ⟨hp, hc⟩ := Prod.mk.inj hm
  exact ⟨hc.trans h.calls, fun cast hcast => h.pending cast (hp ▸ hcast)⟩

theorem anonymous_next (h : Anonymous s)
    (ht : (castHosts toLowercase documents stored).next s e = some t) : Anonymous t := by
  cases e with
  | http request =>
    obtain rfl := Option.some.inj ht
    cases hcast : castOf toLowercase request with
    | none => exact anonymous_of_memory h (memory_dlnaRoute hcast)
    | some cast =>
      obtain ⟨hr, hip⟩ := routed_cast s.renderer documents
        (s.renderer.senders stored .dlnaAllowedSenders)
        (s.renderer.senders stored .dlnaDeniedSenders) hcast
      obtain ⟨hcalls, hpending⟩ := memory_applyRules s.renderer cast
        (s.renderer.senders stored .dlnaAllowedSenders)
        (s.renderer.senders stored .dlnaDeniedSenders) false
      refine ⟨?_, fun c hc => ?_⟩
      · simp only [CastHost.routed, hr, hcalls, h.calls]
      · simp only [CastHost.routed, hr] at hc
        rcases hpending with hnone | hsome | hsame
        · rw [hnone] at hc
          cases hc
        · rw [hsome] at hc
          obtain rfl := Option.some.inj hc
          exact hip
        · rw [hsame] at hc
          exact h.pending c hc
  | acceptCast remember =>
    obtain rfl := Option.some.inj ht
    simp only [CastOp.whole]
    cases hp : s.renderer.state.pendingCastRequest with
    | none => exact anonymous_of_memory h rfl
    | some pending =>
      have hip := h.pending pending hp
      simp only [Option.elim_some, Renderer.remember, hip, ne_eq, not_true_eq_false, and_false,
        if_false]
      exact ⟨h.calls, fun _ hc => by cases hc⟩
  | rejectCast remember =>
    obtain rfl := Option.some.inj ht
    simp only [CastOp.whole]
    cases hp : s.renderer.state.pendingCastRequest with
    | none => exact anonymous_of_memory h rfl
    | some pending =>
      have hip := h.pending pending hp
      simp only [Option.elim_some, Renderer.remember, hip, ne_eq, not_true_eq_false, and_false,
        if_false]
      exact ⟨h.calls, fun _ hc => by cases hc⟩
  | process =>
    obtain rfl := Option.some.inj ht
    refine anonymous_of_memory h ?_
    simp only [Renderer.processNext]
    cases s.renderer.commands with
    | nil => rfl
    | cons command commands => cases command <;> rfl

end Anonymous

section Treated

theorem senders_of_anonymous (stored : SenderList → List String) (h : Anonymous s) (key : SenderList) :
    s.renderer.senders stored key = stored key := by
  rw [Renderer.senders, h.calls, List.foldl_nil]

theorem applied_iff (hip : cast.senderIp = "") :
    Applied r ((r.setRaw cast).applyRules allowed denied cast false) cast ↔
      sendersContainIp allowed "" = true := by
  constructor
  · intro h
    by_contra ha
    have hcommands := congrArg List.length h.commands
    rw [Renderer.applyRules, hip, if_neg ha] at hcommands
    split at hcommands <;> simp [Renderer.setRaw] at hcommands
  · intro ha
    rw [Renderer.applyRules, hip, if_pos ha]
    exact ⟨rfl, rfl⟩

theorem dropped_iff (hip : cast.senderIp = "") :
    Dropped r ((r.setRaw cast).applyRules allowed denied cast false) ↔
      sendersContainIp allowed "" = false ∧
        (sendersContainIp denied "" = true ∨ r.state.pendingCastRequest = some cast) := by
  cases ha : sendersContainIp allowed "" with
  | true =>
    refine iff_of_false (fun h => ?_) (by simp)
    have hcommands := congrArg List.length h.commands
    rw [Renderer.applyRules, hip, if_pos ha] at hcommands
    simp [Renderer.setRaw] at hcommands
  | false =>
    rw [Renderer.applyRules, hip, if_neg (by simp [ha])]
    cases hd : sendersContainIp denied "" with
    | true =>
      rw [if_pos rfl]
      exact iff_of_true ⟨rfl, rfl, rfl, rfl, rfl⟩ (by simp)
    | false =>
      rw [if_neg (by simp)]
      constructor
      · intro h
        exact ⟨rfl, .inr h.pending.symm⟩
      · rintro ⟨-, hp⟩
        exact ⟨(hp.resolve_left (by simp)).symm, rfl, rfl, rfl, rfl⟩

/-- A step treats its cast as was decided just when there is nothing that would have to be
remembered for it. -/
theorem bindsSender_iff (h : Anonymous s) :
    BindsSender toLowercase documents stored s e ↔ NothingToRemember toLowercase stored s e := by
  cases e with
  | http request =>
    refine forall₂_congr fun cast hcast => ?_
    have hr := fun allowed denied => routed_cast s.renderer documents allowed denied hcast
    have hlists := senders_of_anonymous stored h
    have hrouted : s.routed toLowercase documents stored request =
        (dlnaRoute toLowercase documents s.renderer request (stored .dlnaAllowedSenders)
          (stored .dlnaDeniedSenders)).1 := by
      rw [CastHost.routed, hlists, hlists]
    have hip := (hr [] []).2
    rw [hrouted, (hr _ _).1]
    cases s.decision request.remote with
    | none => exact iff_of_true rfl trivial
    | some accept =>
      cases accept with
      | true => exact applied_iff hip
      | false => exact dropped_iff hip
  | acceptCast remember => exact Iff.rfl
  | rejectCast remember => exact Iff.rfl
  | process => exact Iff.rfl

end Treated

section Runs

/-- A cast of the one uri from an address. -/
def castRequestFrom (remote : String) : DlnaHttpRequest where
  remote := remote
  method := "POST"
  path := "/AVTransport/control"
  headers := castFrom remote
  body := Text.bytes castBody

/-- A renderer in its default state, about whose senders nothing was decided. -/
def freshHost : CastHost := ⟨⟨.default, [], []⟩, "", fun _ => none⟩

end Runs

end PlainRs.Dlna
