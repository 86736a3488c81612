import Ipmb.Controller

namespace Ipmb.Loopback

open Labels Messages Time Backend Controller

/-- A message of the in-memory platform. -/
structure Mail where
  selector : Selector
  payload : List UInt8
  reply : Option Nat
deriving DecidableEq

/-- The outside world of the in-memory platform: the remotes that have hung up,
the number of identifiers given out, and whether the local receiver is gone. -/
structure Net where
  gone : List Nat
  issued : Nat
  dropped : Bool
deriving DecidableEq

def version : Version := ⟨0, 8, 5⟩

/-- An in-memory platform whose remotes accept everything until they hang up. -/
def loopback (decodeConnect : List UInt8 → Option ConnectMessage) : Platform Mail Nat Net where
  version := version
  selector mail := mail.selector
  payloadData mail := mail.payload
  extractRemote mail := (mail.reply, { mail with reply := none })
  sameRemote r s := r == s
  send net _ remote := (if remote ∈ net.gone then .error .disconnect else .ok (), net)
  isDead net remote := (decide (remote ∈ net.gone), net)
  encodeAck net selector _ :=
    (⟨{ selector with uuid := ConnectMessageAck.uuid }, [], none⟩, net)
  decodeConnect := decodeConnect
  newEndpointID net := (BitVec.ofNat 128 net.issued, { net with issued := net.issued + 1 })
  receiverDropped net := (net.dropped, net)
  platformMessage _ := none

theorem loopback_sendsOrDisconnects (decodeConnect : List UInt8 → Option ConnectMessage) :
    (loopback decodeConnect).SendsOrDisconnects := by
  intro net mail remote
  simp only [loopback]
  split
  · exact Or.inr rfl
  · exact Or.inl rfl

def quietNet : Net := ⟨[], 0, false⟩

/-- Every connect request is one of the same endpoint, with the right token. -/
def sameRequest (label : String) (_ : List UInt8) : Option ConnectMessage :=
  some ⟨version, "token", ⟨[label]⟩⟩

def connectMail (remote : Nat) : Mail :=
  ⟨{ Selector.unicast .true with uuid := ConnectMessage.uuid }, [], some remote⟩

/-- A message to the endpoints labelled `label` that may wait for `ttl`. -/
def mailTo (label : String) (mode : SelectorMode) (ttl : Duration) : Mail :=
  ⟨⟨.leaf label, mode, 1, 0, ttl⟩, [], none⟩

def receive (mail : Mail) (now : Instant) : Iteration Mail Nat Net := ⟨id, .ok mail, now⟩

end Ipmb.Loopback
