import PlainRs.Chat.Channel.Handler

/-! What the four senders sign against what the three handlers verify. -/
namespace PlainRs.Chat

open PlainRs.Crypto PlainRs.Utils

/-- The senders of signed messages. -/
inductive SignedSender
  | sendInvite | broadcastUpdate | sendKick | broadcastKick
  deriving DecidableEq

def SignedSender.posts (d : Dalek) (svc : ChatService) (channel : DChannel) (peer : DPeer) :
    SignedSender → List Post
  | sendInvite => Chat.sendInvite d svc channel peer
  | broadcastUpdate => Chat.broadcastUpdate d svc channel
  | sendKick => Chat.sendKick d svc channel peer
  | broadcastKick => Chat.broadcastKick d svc channel

/-- The check of the handler that takes the message, the owner's key being the one stored. -/
def signaturePasses (d : Dalek) (member : ChatService) (ownerPubKey : String) :
    ChannelSystemMessage → Bool
  | .invite msg => ChatService.inviteOwnerKey msg ≠ "" && ChatService.inviteSigned d member msg
  | .update msg => ChatService.updateSigned d ownerPubKey msg
  | .kick msg => ChatService.kickSigned d member ownerPubKey msg
  | _ => true

variable {d : Dalek} {svc member : ChatService} {channel : DChannel} {peer : DPeer} {post : Post}
  {sender : SignedSender} {id p q : String} {v : Int} {action : ChannelSystemMessageAction}

theorem channelMessagePayload_inj :
    channelMessagePayload id v action p = channelMessagePayload id v action q ↔ p = q := by
  constructor
  · intro h
    have := congrArg String.toList h
    simpa [channelMessagePayload, String.ext_iff] using this
  · rintro rfl
    rfl

theorem selfPublicKey_eq (hk : d.Keypair svc.kpBytes) :
    selfPublicKey svc.kpBytes = base64Encode (svc.kpBytes.drop 32) := by
  simp [selfPublicKey, hk.1]

/-- A signature of ours passes over a payload exactly when signing that payload gives it. -/
theorem verify_signedAction (hd : d.Sound) (hk : d.Keypair svc.kpBytes) :
    verifyChannelSignature d (selfPublicKey svc.kpBytes) (channelMessagePayload id v action q)
        (signedAction d svc id v action p) = true ↔
      d.sign svc.kpBytes (Text.bytes (channelMessagePayload id v action p)) =
        d.sign svc.kpBytes (Text.bytes (channelMessagePayload id v action q)) := by
  have hpk := publicKey_ne_empty hk
  have hsig : signedAction d svc id v action p ≠ "" := ed25519Sign_ne_empty hd hk
  simp only [verifyChannelSignature, selfPublicKey_eq hk, hpk, hsig, decide_false, Bool.false_or]
  exact ed25519Verify_sign hd hk

theorem signedAction_passes (hd : d.Sound) (hk : d.Keypair svc.kpBytes) :
    verifyChannelSignature d (selfPublicKey svc.kpBytes) (channelMessagePayload id v action p)
      (signedAction d svc id v action p) = true :=
  (verify_signedAction hd hk).mpr rfl

theorem inviteOwnerKey_inviteMessage :
    ChatService.inviteOwnerKey (inviteMessage d svc channel peer) = selfPublicKey svc.kpBytes := by
  simp [ChatService.inviteOwnerKey, inviteMessage, buildMemberPeers]

/-- The signature over the delete kick's payload is no signature over the addressee's own one. -/
def KicksDistinct (d : Dalek) (svc : ChatService) (channel : DChannel) (addressee : String) : Prop :=
  d.sign svc.kpBytes (Text.bytes (channelMessagePayload channel.id channel.version .kick "")) =
      d.sign svc.kpBytes
        (Text.bytes (channelMessagePayload channel.id channel.version .kick addressee)) →
    channelMessagePayload channel.id channel.version .kick "" =
      channelMessagePayload channel.id channel.version .kick addressee

/-- The kick of a deleted channel names no target, which only the empty id matches. -/
theorem broadcastKick_passes (hd : d.Sound) (hk : d.Keypair svc.kpBytes)
    (hpost : post ∈ broadcastKick d svc channel) (hm : member.identity.clientId = post.peer.id)
    (hcol : KicksDistinct d svc channel post.peer.id) :
    signaturePasses d member (selfPublicKey svc.kpBytes) post.message = true ↔
      post.peer.id = "" := by
  obtain ⟨-, -, -, -, hmsg⟩ := mem_broadcast hpost
  simp only [hmsg, signaturePasses, ChatService.kickSigned, hm]
  refine (verify_signedAction hd hk).trans ⟨fun h => ?_, fun h => by rw [h]⟩
  exact (channelMessagePayload_inj.mp (hcol h)).symm

/-- A signed message passes at its addressee unless it is the kick of a deleted channel. -/
theorem signature_passes_iff (hd : d.Sound) (hk : d.Keypair svc.kpBytes)
    (hpost : post ∈ sender.posts d svc channel peer) (hm : member.identity.clientId = post.peer.id)
    (hcol : KicksDistinct d svc channel post.peer.id) :
    signaturePasses d member (selfPublicKey svc.kpBytes) post.message = true ↔
      (sender = .broadcastKick → post.peer.id = "") := by
  have hpk : selfPublicKey svc.kpBytes ≠ "" := by
    rw [selfPublicKey_eq hk]
    exact publicKey_ne_empty hk
  cases sender with
  | sendInvite =>
    obtain ⟨rfl, -, hmsg, -⟩ := mem_deliverType hpost
    refine iff_of_true ?_ nofun
    rw [hmsg, signaturePasses, ChatService.inviteSigned, inviteOwnerKey_inviteMessage, hm,
      Bool.and_eq_true]
    exact ⟨by simpa using hpk, signedAction_passes hd hk⟩
  | broadcastUpdate =>
    obtain ⟨-, -, -, -, hmsg⟩ := mem_broadcast hpost
    refine iff_of_true ?_ nofun
    rw [hmsg]
    exact signedAction_passes hd hk
  | sendKick =>
    obtain ⟨rfl, -, hmsg, -⟩ := mem_deliverType hpost
    refine iff_of_true ?_ nofun
    rw [hmsg, signaturePasses, ChatService.kickSigned, hm]
    exact signedAction_passes hd hk
  | broadcastKick => simpa using broadcastKick_passes hd hk hpost hm hcol

/-- A member that stores the owner's key ignores the kick of a deleted channel. -/
theorem broadcastKick_ignored {fromId now : String} {ch : DChannel} {owner : DPeer}
    (hd : d.Sound) (hk : d.Keypair svc.kpBytes)
    (hpost : post ∈ broadcastKick d svc channel) (hm : member.identity.clientId = post.peer.id)
    (hcol : KicksDistinct d svc channel post.peer.id) (hne : post.peer.id ≠ "")
    (hrow : member.db.getChannelById channel.id = some ch)
    (howner : member.db.getPeerById ch.ownerId = some owner)
    (hpk : owner.publicKey = selfPublicKey svc.kpBytes) :
    (member.dispatch d fromId now post.message).service = member := by
  have hfail := mt (broadcastKick_passes hd hk hpost hm hcol).mp hne
  obtain ⟨-, -, -, -, hmsg⟩ := mem_broadcast hpost
  have hs : ChatService.kickSigned d member owner.publicKey
      (kickMessage d svc channel.id channel.version "") = false := by
    simpa [hmsg, signaturePasses, hpk] using hfail
  have hid : (kickMessage d svc channel.id channel.version "").channelId = channel.id := rfl
  simp only [hmsg, ChatService.dispatch, ChatService.handleKick, hid, hrow, howner, hs, if_true]
  split <;> rfl

/-- Every signed message passes the check of the handler that takes it. -/
def SignaturesPass (d : Dalek) : Prop :=
  ∀ (sender : SignedSender) svc channel peer (member : ChatService), d.Keypair svc.kpBytes →
    ∀ post ∈ sender.posts d svc channel peer, member.identity.clientId = post.peer.id →
      signaturePasses d member (selfPublicKey svc.kpBytes) post.message = true

theorem demoKick_passes_iff :
    ∃ post ∈ sendKick checksumDalek demoAlice (demoTeam 3) (demoPeer "bob" 2 9),
      (signaturePasses checksumDalek demoBob (selfPublicKey demoAlice.kpBytes) post.message = true ↔
        (SignedSender.sendKick = .broadcastKick → post.peer.id = "")) := by
  have hany : (sendKick checksumDalek demoAlice (demoTeam 3) (demoPeer "bob" 2 9)).any
      (fun post => post.peer.id = "bob") = true := by decide +kernel
  obtain ⟨post, hpost, hid⟩ := List.any_eq_true.mp hany
  have hid : "bob" = post.peer.id := by simpa using Eq.symm (of_decide_eq_true hid)
  have hcol : KicksDistinct checksumDalek demoAlice (demoTeam 3) "bob" := by
    unfold KicksDistinct
    decide +kernel
  exact ⟨post, hpost, signature_passes_iff checksumDalek_sound
    keypair_demoService hpost hid (hid ▸ hcol)⟩

/-- The kick Alice broadcasts when she deletes the channel fails Bob's check. -/
theorem demoDelete_fails : ¬ SignaturesPass checksumDalek := by
  intro h
  have hany : (broadcastKick checksumDalek demoAlice (demoTeam 3)).any (fun post =>
      post.peer.id = "bob" && !signaturePasses checksumDalek demoBob (selfPublicKey demoAlice.kpBytes)
        post.message) = true := by decide +kernel
  obtain ⟨post, hpost, hp⟩ := List.any_eq_true.mp hany
  simp only [Bool.and_eq_true, decide_eq_true_eq, Bool.not_eq_true'] at hp
  have := h .broadcastKick demoAlice (demoTeam 3) (demoPeer "bob" 2 9) demoBob keypair_demoService
    post hpost hp.1.symm
  simp [this] at hp

end PlainRs.Chat
