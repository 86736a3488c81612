import Ipmb.Messages

namespace Ipmb.Backend

open Messages

/-- What the bus controller uses of the platform it is compiled for: the encoded
messages `M`, the remotes `R`, and calls that act on the outside world `W`. -/
structure Platform (M R W : Type) where
  version : Version
  selector : M → Selector
  payloadData : M → List UInt8
  extractRemote : M → Option R × M
  sameRemote : R → R → Bool
  send : W → M → R → Except (Error R) Unit × W
  isDead : W → R → Bool × W
  /-- `Message::new(selector, ack).into_encoded()`. -/
  encodeAck : W → Selector → ConnectMessageAck → M × W
  decodeConnect : List UInt8 → Option ConnectMessage
  newEndpointID : W → EndpointID × W
  /-- Whether the endpoint has dropped the receiving half of the local channel by now. -/
  receiverDropped : W → Bool × W
  /-- The message handled by the platform itself instead of being routed, if it has one. -/
  platformMessage : Uuid → Option (W → M → W)

/-- Every failed send is reported as a lost connection. -/
def Platform.SendsOrDisconnects {M R W : Type} (p : Platform M R W) : Prop :=
  ∀ w msg remote, (p.send w msg remote).1 = .ok () ∨ (p.send w msg remote).1 = .error .disconnect

/-- The message is routed, rather than consumed by the controller itself. -/
def Platform.Routed {M R W : Type} (p : Platform M R W) (msg : M) : Prop :=
  (p.selector msg).uuid ≠ ConnectMessage.uuid ∧ p.platformMessage (p.selector msg).uuid = none

/-- The sending half of the channel to the controller's own endpoint. `queue`
lists everything the channel has ever accepted. -/
structure Sender (M : Type) where
  queue : List M
  receiverAlive : Bool

/-- `Sender::send`, when the receiver may have been dropped in the meantime. -/
def Sender.send {M : Type} (s : Sender M) (dropped : Bool) (msg : M) :
    Except M Unit × Sender M :=
  if s.receiverAlive && !dropped then (.ok (), { s with queue := s.queue ++ [msg] })
  else (.error msg, { s with receiverAlive := false })

theorem Sender.send_cases {M : Type} (s : Sender M) (dropped : Bool) (msg : M) :
    (s.send dropped msg).1 = .ok () ∨ (s.send dropped msg).1 = .error msg := by
  rw [Sender.send]
  split
  · exact Or.inl rfl
  · exact Or.inr rfl

end Ipmb.Backend
