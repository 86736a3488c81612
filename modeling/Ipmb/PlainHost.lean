import Ipmb.Linux
import Ipmb.Relay

namespace Ipmb.PlainHost

open Messages Time Buffers Encoding Decoding Reference Backend Controller Linux Attachments Relay

/-- A host whose world is the list of the remotes that have hung up. -/
def plainHost : Host (List RawFd) where
  kernel := anyRegion
  sendmsg hungUp remote iov control :=
    (if remote ∈ hungUp then some .epipe
    else if 212960 < iov.length then some .emsgsize
    else if (anyRegion.attachments control).isNone then some .einval
    else none, hungUp)
  socketError hungUp remote := (decide (remote ∈ hungUp), hungUp)
  heap hungUp := (zeroHeap, hungUp)
  newEndpointID hungUp := (1, hungUp)
  receiverDropped hungUp := (false, hungUp)

def HungUp (hungUp : List RawFd) (remote : RawFd) : Prop := remote ∈ hungUp

theorem plainHost_sendmsg {hungUp : List RawFd} {remote : RawFd} {iov control : List UInt8} {e : Errno}
    (h : (plainHost.sendmsg hungUp remote iov control).1 = some e) :
    e = .epipe ∧ HungUp hungUp remote ∨ e = .emsgsize ∧ 212960 < iov.length ∨
      e = .einval ∧ anyRegion.attachments control = none := by
  simp only [plainHost] at h
  split at h
  · rename_i hw
    exact Or.inl ⟨(Option.some.inj h).symm, hw⟩
  · split at h
    · rename_i hl
      exact Or.inr (Or.inl ⟨(Option.some.inj h).symm, hl⟩)
    · split at h
      · rename_i hc
        exact Or.inr (Or.inr ⟨(Option.some.inj h).symm, Option.isNone_iff_eq_none.mp hc⟩)
      · cases h

theorem plainHost_documented :
    plainHost.Documented HungUp (fun w r => ¬ HungUp w r) (fun _ => 212960) (fun _ _ => True)
      (fun _ => True) where
  peer h he := by
    obtain ⟨-, hgone⟩ | ⟨rfl, -⟩ | ⟨rfl, -⟩ := plainHost_sendmsg h
    · exact hgone
    · simp at he
    · simp at he
  size h := by simpa using plainHost_sendmsg h
  records {_ _ _ control} h := by
    have hrecords : anyRegion.attachments control = none := by simpa using plainHost_sendmsg h
    exact hrecords
  descriptors h := by simpa using plainHost_sendmsg h
  limits h he := by
    rcases plainHost_sendmsg h with ⟨rfl, -⟩ | ⟨rfl, -⟩ | ⟨rfl, -⟩ <;> simp at he
  stays_not_gone h := h
  gone_sendmsg h := h
  stays_sendmsg h := h
  gone_dropped h := h
  opened_sendmsg h := h
  calm_sendmsg h := h

def plainControl : Control := ⟨fun _ => [], fun _ => some ⟨⟨0, 8, 5⟩, "token", ⟨["a"]⟩⟩⟩

/-- The platform of a 0.8.5 controller on the plain host. -/
def plainLinux : Platform EncodedMessage RawFd (List RawFd) :=
  linux plainHost plainCodec plainControl ⟨0, 8, 5⟩

/-- A connect request that carries descriptor 7. -/
def request : EncodedMessage :=
  let msg := intoEncoded plainCodec ⟨0, 8, 5⟩ (withObjects [7]) zeroHeap
  { msg with selector := { msg.selector with uuid := ConnectMessage.uuid } }

def receive (msg : EncodedMessage) : Iteration EncodedMessage RawFd (List RawFd) :=
  ⟨id, .ok msg, .ofNanos 0⟩

end Ipmb.PlainHost
