import PlainRs.Chat.Db

/-! Wire types of the channel system messages and the payload their signatures cover. -/
namespace PlainRs.Chat

/-- `"{channel_id}|{version}|{action}|{target}"`. -/
def channelMessagePayload (channelId : String) (version : Int) (action : ChannelSystemMessageAction)
    (target : String) : String :=
  channelId ++ "|" ++ toString version ++ "|" ++ action.asStr ++ "|" ++ target

namespace ChannelMember

def new (id : String) : ChannelMember := ⟨id, .joined⟩

def pending (id : String) : ChannelMember := ⟨id, .pending⟩

def isJoined (m : ChannelMember) : Bool := m.status = .joined

def isPending (m : ChannelMember) : Bool := m.status = .pending

end ChannelMember

structure MemberPeerInfo where
  id : String
  name : String
  publicKey : String
  deviceType : DeviceType
  ip : String
  port : UInt16
  deriving DecidableEq

structure ChannelInvite where
  channelId : String
  channelName : String
  key : String
  owner : String
  members : List ChannelMember
  memberPeers : List MemberPeerInfo
  version : Int
  signature : String
  deriving DecidableEq

structure ChannelInviteAccept where
  channelId : String
  publicKey : String
  name : String
  deviceType : DeviceType
  deriving DecidableEq

structure ChannelInviteDecline where
  channelId : String
  deriving DecidableEq

structure ChannelUpdate where
  channelId : String
  channelName : String
  members : List ChannelMember
  memberPeers : List MemberPeerInfo
  version : Int
  signature : String
  deriving DecidableEq

structure ChannelKick where
  channelId : String
  version : Int
  signature : String
  deriving DecidableEq

structure ChannelLeave where
  channelId : String
  deriving DecidableEq

/-- A message by its type; `unreadable` is a payload that does not parse as its type. -/
inductive ChannelSystemMessage
  | invite (msg : ChannelInvite)
  | inviteAccept (msg : ChannelInviteAccept)
  | inviteDecline (msg : ChannelInviteDecline)
  | update (msg : ChannelUpdate)
  | kick (msg : ChannelKick)
  | leave (msg : ChannelLeave)
  | unreadable
  deriving DecidableEq

def hasMember (members : List ChannelMember) (peerId : String) : Bool :=
  members.any fun m => m.peerId = peerId

/-- The filter by which an id is taken out of a roster. -/
def withoutMember (members : List ChannelMember) (peerId : String) : List ChannelMember :=
  members.filter fun m => m.peerId ≠ peerId

/-- The first entry of the id becomes joined; an id that has none is appended as joined. -/
def joinMember : List ChannelMember → String → List ChannelMember
  | [], peerId => [.new peerId]
  | m :: ms, peerId =>
    if m.peerId = peerId then (if m.isPending then { m with status := .joined } else m) :: ms
    else m :: joinMember ms peerId

variable {ms : List ChannelMember} {m : ChannelMember} {p q : String}

@[simp] theorem hasMember_iff : hasMember ms p = true ↔ ∃ m ∈ ms, m.peerId = p := by
  simp [hasMember]

@[simp] theorem mem_withoutMember : m ∈ withoutMember ms p ↔ m ∈ ms ∧ m.peerId ≠ p := by
  simp [withoutMember]

theorem withoutMember_of_not_hasMember (h : hasMember ms p = false) : withoutMember ms p = ms := by
  simp only [withoutMember, List.filter_eq_self]
  intro m hm
  simp only [hasMember, List.any_eq_false, decide_eq_true_eq] at h
  simpa using h m hm

/-- Only the accepting id's entry is new or changed. -/
theorem mem_joinMember (h : m ∈ joinMember ms p) : m ∈ ms ∨ m = .new p := by
  induction ms with
  | nil => simpa [joinMember] using h
  | cons x xs ih =>
    rw [joinMember] at h
    split at h
    · next hx =>
      rcases List.mem_cons.mp h with rfl | h
      · split
        · right
          rw [← hx]
          rfl
        · exact .inl List.mem_cons_self
      · exact .inl (List.mem_cons_of_mem _ h)
    · rcases List.mem_cons.mp h with rfl | h
      · exact .inl List.mem_cons_self
      · rcases ih h with h | h
        · exact .inl (List.mem_cons_of_mem _ h)
        · exact .inr h

theorem map_peerId_joinMember : (joinMember ms p).map (·.peerId) =
    if hasMember ms p then ms.map (·.peerId) else ms.map (·.peerId) ++ [p] := by
  induction ms with
  | nil => rfl
  | cons x xs ih =>
    rw [joinMember]
    split
    · next hx =>
      have hh : hasMember (x :: xs) p = true := hasMember_iff.mpr ⟨x, by simp, hx⟩
      rw [hh]
      split <;> simp
    · next hx =>
      have hh : hasMember (x :: xs) p = hasMember xs p := by simp [hasMember, hx]
      rw [hh, List.map_cons, ih]
      split <;> rfl

theorem hasMember_eq_mem : hasMember ms p = decide (p ∈ ms.map (·.peerId)) := by
  rw [Bool.eq_iff_iff]
  simp

end PlainRs.Chat
