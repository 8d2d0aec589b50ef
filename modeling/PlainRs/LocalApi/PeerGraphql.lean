import PlainRs.Chat.Chats
import PlainRs.Chat.PeerAuth

/-! `local_api/peer_graphql`: the endpoint that peers post to. -/
namespace PlainRs.LocalApi

open PlainRs.Chat PlainRs.Crypto

/-- What the peer schema makes of a request. -/
inductive PeerOperation
  | createChatItem (content : String)
  | channelSystemMessage (message : ChannelSystemMessage)
  | other

/-- The JSON and GraphQL libraries between the two ends, as texts. -/
structure Graphql where
  createChatItem : String → String
  execute : String → PeerOperation
  chatItemReply : DChat → String
  systemMessageReply : Bool → String
  otherReply : String → String
  /-- None of a text that is no JSON, else the `errors` in it, if any. -/
  readReply : Bytes → Option (Option String)

/-- A request for a chat item is executed as one, and its reply has no errors. -/
structure Graphql.Sound (g : Graphql) : Prop where
  execute_createChatItem : ∀ content, g.execute (g.createChatItem content) = .createChatItem content
  readReply_chatItem : ∀ chat, g.readReply (Text.bytes (g.chatItemReply chat)) = some none

/-- What the handling of one request finds around it: the clocks and the random draws. -/
structure Draw where
  nowMs : Int64
  now : String
  id : String
  nonce : Nonce 24

section

variable (c : Aead) (d : Dalek) (g : Graphql) (m : Messenger) (draw : Draw)

/-- The resolvers of the peer schema. -/
def execute (authed : AuthenticatedPeer) (headerChannelId : String) : Messenger × String :=
  match g.execute authed.graphqlJson with
  | .createChatItem content =>
    let (m, chat) :=
      m.receivePeerChat draw.now draw.id authed.peer.id headerChannelId content
    (m, g.chatItemReply chat)
  | .channelSystemMessage message =>
    let out := m.service.receivePeerChannelSystemMessage d authed.peer.id draw.now message
    ({ m with service := out.service }, g.systemMessageReply out.result)
  | .other => (m, g.otherReply authed.graphqlJson)

/-- `handle`: the answer is the reply under the key of the request, or the reason in the clear. -/
def handlePeerGraphql (headerClientId headerChannelId : String) (body : Bytes) :
    Messenger × Bytes :=
  match authenticate c d m.service headerClientId headerChannelId body draw.nowMs with
  | .error e => (m, Text.bytes e.reason)
  | .ok authed =>
    let (m, reply) := execute d g m draw authed headerChannelId
    (m, (xchachaEncryptRaw c draw.nonce authed.key (Text.bytes reply)).getD [])

end

variable {c : Aead} {d : Dalek} {g : Graphql} {m : Messenger} {draw : Draw}
  {clientId channelId content : String} {body : Bytes} {authed : AuthenticatedPeer}

/-- A request for a chat item that is let through is received as one. -/
theorem handlePeerGraphql_chat
    (ha : authenticate c d m.service clientId channelId body draw.nowMs = .ok authed)
    (hg : g.execute authed.graphqlJson = .createChatItem content) :
    handlePeerGraphql c d g m draw clientId channelId body =
      ((m.receivePeerChat draw.now draw.id authed.peer.id channelId content).1,
        (xchachaEncryptRaw c draw.nonce authed.key (Text.bytes (g.chatItemReply
          (m.receivePeerChat draw.now draw.id authed.peer.id channelId content).2))).getD []) := by
  simp only [handlePeerGraphql, ha, execute, hg]

theorem handlePeerGraphql_error {e : AuthError}
    (ha : authenticate c d m.service clientId channelId body draw.nowMs = .error e) :
    handlePeerGraphql c d g m draw clientId channelId body = (m, Text.bytes e.reason) := by
  simp only [handlePeerGraphql, ha]

end PlainRs.LocalApi
