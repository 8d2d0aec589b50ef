import PlainRs.Base.Purge
import PlainRs.LocalApi.Dlna.CommandProcessor
import PlainRs.LocalApi.Dlna.HttpRouter

/-! What a cast from a denied sender changes for the others. -/
namespace PlainRs.Dlna

open Checked Purge

/-- What `add_sender` and `remove_sender` make of the list under a key. -/
def SenderCall.apply (key : SenderList) (entries : List String) : SenderCall → List String
  | .removeSender list ip =>
    if list = key then entries.filter fun e => String.ofList (e.toList.takeWhile (· ≠ '|')) ≠ ip
    else entries
  | .addSender list ip name =>
    if list = key then
      (entries.filter fun e => String.ofList (e.toList.takeWhile (· ≠ '|')) ≠ ip) ++ [s!"{ip}|{name}"]
    else entries

/-- The list under a key, which was `stored key` at first. -/
def Renderer.senders (r : Renderer) (stored : SenderList → List String) (key : SenderList) :
    List String :=
  r.senderCalls.foldl (SenderCall.apply key) (stored key)

/-- What happens to a renderer, one event at a time. -/
inductive CastEvent
  | soap (headers : Headers) (body : String)
  | acceptCast (remember : Bool)
  | rejectCast (remember : Bool)
  | process

/-- The command processor takes the first command that waits. -/
def Renderer.processNext (r : Renderer) : Renderer :=
  match r.commands with
  | [] => r
  | command :: commands => { r with
      state := r.state.process command
      commands := commands }

section

variable (toLowercase : String → String) (stored : SenderList → List String)

def castAnswer (r : Renderer) : CastEvent → Renderer × Option DlnaHttpResponse
  | .soap headers body => handleSoap toLowercase r headers body
      (r.senders stored .dlnaAllowedSenders) (r.senders stored .dlnaDeniedSenders)
  | .acceptCast remember => (((CastOp.acceptCast remember).whole r).2, none)
  | .rejectCast remember => (((CastOp.rejectCast remember).whole r).2, none)
  | .process => (r.processNext, none)

/-- The request is a `SetAVTransportURI`. -/
def SetsUri (headers : Headers) (body : String) : Bool :=
  match soapAction? headers body with
  | some (.ok (action, _)) => action = "SetAVTransportURI"
  | _ => false

/-- The request that a `SetAVTransportURI` puts before the rules: none where it has no uri, or
cannot be read. -/
def stagedRequest (headers : Headers) (body : String) : Option PendingCastRequest :=
  match soapAction? headers body with
  | some (.ok (_, params)) =>
    (castRequest toLowercase headers params).toOption.filter fun request => request.mediaUri ≠ ""
  | _ => none

/-- The sender is denied, and not allowed. -/
def DeniedSender (allowed denied : List String) (headers : Headers) : Prop :=
  sendersContainIp denied ((headers "c-ip").getD "") = true ∧
    sendersContainIp allowed ((headers "c-ip").getD "") = false

instance {allowed denied : List String} {headers : Headers} :
    Decidable (DeniedSender allowed denied headers) := inferInstanceAs (Decidable (_ ∧ _))

/-- A `SetAVTransportURI` of a sender that is denied at the time. -/
def DeniedCast (r : Renderer) : CastEvent → Prop
  | .soap headers body => SetsUri headers body ∧
      DeniedSender (r.senders stored .dlnaAllowedSenders) (r.senders stored .dlnaDeniedSenders)
        headers
  | _ => False

instance : ∀ r e, Decidable (DeniedCast stored r e)
  | _, .soap .. => inferInstanceAs (Decidable (_ ∧ _))
  | _, .acceptCast _ | _, .rejectCast _ | _, .process => inferInstanceAs (Decidable False)

/-- It puts no request before the rules, or finds no queued Play that it would take away. -/
def TakesNothing (r : Renderer) : CastEvent → Prop
  | .soap headers body =>
    r.state.pendingPlayQueued = false ∨ stagedRequest toLowercase headers body = none
  | _ => True

end

/-- All that others can see of a renderer: the request before the rules is not. -/
def Renderer.visible (r : Renderer) : Renderer := r.settle r.state.pendingPlayQueued

variable {toLowercase : String → String} {stored : SenderList → List String} {r : Renderer}
  {headers : Headers} {body : String} {allowed denied : List String} {params : SoapParams}
  {request : PendingCastRequest}

theorem senderIp_castRequest (h : castRequest toLowercase headers params = .ok request) :
    request.senderIp = (headers "c-ip").getD "" := by
  obtain ⟨_, -, h⟩ := bind_eq_ok.mp h
  obtain ⟨_, -, h⟩ := bind_eq_ok.mp h
  obtain ⟨_, -, h⟩ := bind_eq_ok.mp h
  obtain ⟨_, -, h⟩ := bind_eq_ok.mp h
  obtain rfl := Except.ok.inj h
  rfl

theorem stagedRequest_spec (h : stagedRequest toLowercase headers body = some request) :
    request.senderIp = (headers "c-ip").getD "" ∧ request.mediaUri ≠ "" := by
  unfold stagedRequest at h
  split at h
  · next action params _ =>
    obtain ⟨hreq, huri⟩ := Option.filter_eq_some_iff.mp h
    cases hc : castRequest toLowercase headers params with
    | error e => simp [hc, Except.toOption] at hreq
    | ok out =>
      obtain rfl : out = request := by simpa [hc, Except.toOption] using hreq
      exact ⟨senderIp_castRequest hc, by simpa using huri⟩
  · cases h

/-- A `SetAVTransportURI` puts its request before the rules, or does nothing. -/
theorem handleSoap_setsUri (h : SetsUri headers body) :
    (handleSoap toLowercase r headers body allowed denied).1 =
      (stagedRequest toLowercase headers body).elim r fun request =>
        (r.setRaw request).applyRules allowed denied request false := by
  unfold SetsUri at h
  unfold handleSoap stagedRequest
  split at h
  · next action params hsoap =>
    obtain rfl : action = "SetAVTransportURI" := by simpa using h
    rw [hsoap]
    cases hc : castRequest toLowercase headers params with
    | error e => simp [handleAction, hc, Except.bind, Bind.bind, Except.toOption]
    | ok request =>
      by_cases huri : request.mediaUri = ""
      · simp [handleAction, hc, Except.bind, Bind.bind, Except.toOption, CastOp.whole, huri, pure,
          Except.pure, Option.filter]
      · simp [handleAction, hc, Except.bind, Bind.bind, Except.toOption, CastOp.whole, huri, pure,
          Except.pure, Option.filter]
  · cases h

/-- From a denied sender it clears the flag, whoever has set it. -/
theorem handleSoap_denied (h : SetsUri headers body) (hd : DeniedSender allowed denied headers) :
    (handleSoap toLowercase r headers body allowed denied).1 =
      if stagedRequest toLowercase headers body = none then r else r.settle false := by
  rw [handleSoap_setsUri h]
  cases hs : stagedRequest toLowercase headers body with
  | none => rfl
  | some request =>
    have hip := (stagedRequest_spec hs).1
    rw [Option.elim_some, Renderer.applyRules, hip, if_neg (by simp [hd.2]), if_pos hd.1]
    rfl

theorem visible_settle : (r.settle false).visible = r.visible ↔ r.state.pendingPlayQueued = false := by
  constructor
  · intro h
    exact (congrArg (fun r : Renderer => r.state.pendingPlayQueued) h).symm
  · intro h
    rw [Renderer.visible, Renderer.visible, h]
    rfl

theorem denied_visible_iff (toLowercase : String → String) (r : Renderer)
    (h : SetsUri headers body) (hd : DeniedSender allowed denied headers) :
    (handleSoap toLowercase r headers body allowed denied).1.visible = r.visible ↔
      r.state.pendingPlayQueued = false ∨ stagedRequest toLowercase headers body = none := by
  rw [handleSoap_denied h hd]
  split
  · next hs => exact iff_of_true rfl (.inr hs)
  · next hs => rw [visible_settle, or_iff_left hs]

section Raw

/-- Between two events no request is before the rules. -/
def Renderer.AtRest (r : Renderer) : Prop := r.state.rawPendingCastRequest = none

theorem AtRest.visible_eq (h : r.AtRest) : r.visible = r := by
  obtain ⟨⟨⟩⟩ := r
  cases h
  rfl

theorem atRest_applyRules {playQueued : Bool} :
    (r.applyRules allowed denied request playQueued).AtRest := by
  unfold Renderer.applyRules
  split
  · rfl
  · split <;> rfl

theorem atRest_whole_play (h : r.AtRest) : (CastOp.play.whole r).2.AtRest := by
  simp only [CastOp.whole]
  split <;> exact h

theorem atRest_handleAction {action body : String} {r' : Renderer} (h : r.AtRest)
    (ha : handleAction toLowercase r headers allowed denied action params = .ok (r', body)) :
    r'.AtRest := by
  have hseek : ∀ posMs : Int, (if 0 ≤ posMs then r.send (.seek posMs) else r).AtRest := by
    intro posMs
    split <;> exact h
  unfold handleAction at ha
  split at ha
  · obtain ⟨request, -, hw⟩ := bind_eq_ok.mp ha
    cases hw
    simp only [CastOp.whole]
    split
    · exact h
    · exact atRest_applyRules
  · split at ha
    · cases ha
      exact atRest_whole_play h
    · -- the other actions at most send a command
      repeat' split at ha
      all_goals cases ha
      all_goals first | exact h | exact hseek _

theorem atRest_handleSoap (h : r.AtRest) :
    (handleSoap toLowercase r headers body allowed denied).1.AtRest := by
  unfold handleSoap
  split
  · exact h
  · next soap _ =>
    split
    · next r' body' hout =>
      obtain ⟨⟨action, params⟩, -, ha⟩ := bind_eq_ok.mp hout
      exact atRest_handleAction h ha
    · exact h

theorem atRest_castAnswer (r : Renderer) (e : CastEvent) (h : r.AtRest) :
    (castAnswer toLowercase stored r e).1.AtRest := by
  cases e with
  | soap headers body => exact atRest_handleSoap h
  | acceptCast remember =>
    simp only [castAnswer, CastOp.whole, Renderer.remember]
    cases r.state.pendingCastRequest with
    | none => exact h
    | some pending =>
      simp only [Option.elim_some]
      split <;> rfl
  | rejectCast remember =>
    simp only [castAnswer, CastOp.whole, Renderer.remember]
    cases r.state.pendingCastRequest with
    | none => exact h
    | some pending =>
      simp only [Option.elim_some]
      split <;> exact h
  | process =>
    simp only [castAnswer, Renderer.processNext]
    cases r.commands with
    | nil => exact h
    | cons command commands => cases command <;> exact h

end Raw

/-- At rest, a cast of a denied sender leaves everything as it is just when it takes nothing. -/
theorem deniedCast_unchanged_iff {e : CastEvent} (h : r.AtRest) (hd : DeniedCast stored r e) :
    (castAnswer toLowercase stored r e).1 = r ↔ TakesNothing toLowercase r e := by
  cases e with
  | soap headers body =>
    have hvis := denied_visible_iff toLowercase r hd.1 hd.2
    rwa [AtRest.visible_eq (atRest_handleSoap h), AtRest.visible_eq h] at hvis
  | acceptCast remember => exact hd.elim
  | rejectCast remember => exact hd.elim
  | process => exact hd.elim

/-- The headers and the body of a cast from a sender. -/
def castFrom (ip : String) : Headers
  | "soapaction" => some "\"urn:schemas-upnp-org:service:AVTransport:1#SetAVTransportURI\""
  | "c-ip" => some ip
  | _ => none

def castBody : String :=
  "<u:SetAVTransportURI><CurrentURI>http://z/w.mp3</CurrentURI></u:SetAVTransportURI>"

def storedDenied : SenderList → List String
  | .dlnaAllowedSenders => []
  | .dlnaDeniedSenders => ["10.0.0.9|X"]

end PlainRs.Dlna
