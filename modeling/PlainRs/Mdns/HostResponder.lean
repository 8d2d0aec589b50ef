import PlainRs.Mdns.ServiceResponse

/-! The host responder: what it answers and what it sends out on its own. -/
namespace PlainRs.Mdns

open Checked

structure MdnsResponse where
  bytes : Bytes
  matchedQuestions : List MdnsQuestion

def MdnsResponse.unicastResponseRequested (r : MdnsResponse) : Bool :=
  r.matchedQuestions.any MdnsQuestion.unicastResponseRequested

section

variable (query : Bytes)

def asksForHost (hostname : String) (q : MdnsQuestion) : Bool :=
  eqIgnoreAsciiCase q.name hostname && q.qclass = dnsClassIn && (q.qtype = typeA || q.qtype = typeAny)

/-- `packet_codec::build_response_if_match`. -/
def buildHostResponseIfMatch (hostname : String) (ips : List String) :
    Checked (Option MdnsResponse) :=
  if ips = [] then pure none
  else do
    match ← readQuestions query with
    | none => pure none
    | some questions =>
      let matchedQuestions := questions.filter (asksForHost hostname)
      if matchedQuestions.isEmpty then pure none
      else
        let bytes := writeHeader ips.length 0 ++ ips.flatMap fun ip =>
          writeRecord (encodeName hostname) typeA dnsCacheFlushClassIn ttlSeconds (ipToBytes ip)
        pure (some ⟨bytes, matchedQuestions⟩)

end

/-- What the responder is set up with, and whether its socket is up. -/
structure HostResponder where
  hostname : String
  serviceInfo : Option MdnsServiceInfo
  running : Bool

/-- Packets with the address of the interface that each goes out on. -/
abbrev Sent := List (String × Bytes)

def MdnsServiceInfo.withIps (s : MdnsServiceInfo) (ips : List String) : MdnsServiceInfo :=
  { s with ips := ips }

/-- The goodbye of an instance: its records with TTL 0. -/
def buildGoodbye (service : MdnsServiceInfo) : Bytes :=
  writeHeader 3 0 ++ ptrRecord service 0 ++ srvRecord service 0 ++ txtRecord service 0

namespace HostResponder

variable (r : HostResponder)

/-- The answer to a query: that of the published service, or that of the hostname. -/
def buildResponse (query : Bytes) (ips : List String) : Checked (Option MdnsResponse) :=
  match r.serviceInfo with
  | some service => do
    match ← buildResponseIfMatch (service.withIps ips) query with
    | none => pure none
    | some bytes =>
      match ← readQuestions query with
      | none => pure none
      | some matchedQuestions => pure (some ⟨bytes, matchedQuestions⟩)
  | none => buildHostResponseIfMatch query r.hostname ips

/-- The announcement that goes out on one interface. -/
def announcement (ip : String) : Checked (Option Bytes) :=
  match r.serviceInfo with
  | some service => buildResponseIfMatch (service.withIps [ip]) (buildPtrQuery plainappServiceType)
  | none => do
    let response ← buildHostResponseIfMatch (buildQuery r.hostname typeA false) r.hostname [ip]
    pure (response.map MdnsResponse.bytes)

def broadcastService : List String → Checked Sent
  | [] => pure []
  | ip :: interfaces => do
    let bytes ← r.announcement ip
    let rest ← broadcastService interfaces
    pure ((bytes.map (ip, ·)).toList ++ rest)

def sendGoodbye (previous : MdnsServiceInfo) (interfaces : List String) : Sent :=
  interfaces.map (·, buildGoodbye previous)

/-- The responder, whether the update went out, and what was sent. -/
def updateService (service : MdnsServiceInfo) (interfaces : List String) :
    Checked (HostResponder × Bool × Sent) :=
  match r.serviceInfo with
  | none => pure (r, false, [])
  | some previous =>
    let r := { r with serviceInfo := some service }
    if !r.running then pure (r, false, [])
    else do
      let goodbyes := if eqIgnoreAsciiCase previous.instanceFqdn service.instanceFqdn then []
        else sendGoodbye previous interfaces
      let announcements ← r.broadcastService interfaces
      pure (r, true, goodbyes ++ announcements)

end HostResponder

end PlainRs.Mdns
