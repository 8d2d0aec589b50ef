import Mathlib

/-! The wire enums of the chat domain and their stored texts. -/
namespace PlainRs.Chat

inductive PeerStatus
  | paired | unpaired | channel
  deriving DecidableEq, Repr

namespace PeerStatus

def asStr : PeerStatus → String
  | paired => "PAIRED"
  | unpaired => "UNPAIRED"
  | channel => "CHANNEL"

def fromStr : String → Option PeerStatus
  | "PAIRED" => some paired
  | "UNPAIRED" => some unpaired
  | "CHANNEL" => some channel
  | _ => none

@[simp] theorem fromStr_asStr (s : PeerStatus) : fromStr s.asStr = some s := by
  cases s <;> rfl

end PeerStatus

inductive ChannelStatus
  | joined | left | kicked
  deriving DecidableEq, Repr

inductive MemberStatus
  | joined | pending
  deriving DecidableEq, Repr

inductive DeviceType
  | phone | tablet | computer | tv | nas | other | unknown
  deriving DecidableEq, Repr

namespace DeviceType

def asStr : DeviceType → String
  | phone => "PHONE"
  | tablet => "TABLET"
  | computer => "COMPUTER"
  | tv => "TV"
  | nas => "NAS"
  | other => "OTHER"
  | unknown => "UNKNOWN"

/-- Reads back every type but `nas`, which `asStr` writes and no branch takes. -/
def fromStr : String → Option DeviceType
  | "PHONE" => some phone
  | "TABLET" => some tablet
  | "COMPUTER" => some computer
  | "TV" => some tv
  | "OTHER" => some other
  | "UNKNOWN" => some unknown
  | _ => none

theorem fromStr_asStr (t : DeviceType) : fromStr t.asStr = if t = nas then none else some t := by
  cases t <;> rfl

theorem fromStr_ne_nas {s : String} : fromStr s ≠ some nas := by
  unfold fromStr
  split <;> simp

end DeviceType

inductive ChannelSystemMessageAction
  | invite | update | kick
  deriving DecidableEq, Repr

def ChannelSystemMessageAction.asStr : ChannelSystemMessageAction → String
  | invite => "INVITE"
  | update => "UPDATE"
  | kick => "KICK"

end PlainRs.Chat
