import Ipmb.Controller
import Ipmb.Decoding

namespace Ipmb.Linux

open Messages Bytes Buffers Encoding Decoding Backend

/-- The errors of `sendmsg` on a connected socket. -/
inductive Errno where
  | epipe
  | econnreset
  | emsgsize
  | einval
  | ebadf
  | etoomanyrefs
  | eintr
deriving DecidableEq

/-- The process and the kernel around the controller. -/
structure Host (W : Type) where
  kernel : Kernel
  sendmsg : W → RawFd → List UInt8 → List UInt8 → Option Errno × W
  /-- `getsockopt(SO_ERROR)` fails or reports an error. -/
  socketError : W → RawFd → Bool × W
  heap : W → Heap × W
  newEndpointID : W → EndpointID × W
  receiverDropped : W → Bool × W

variable {W : Type}

/-- `EncodedMessage::send`: every error of `sendmsg` becomes `Disconnect`. -/
def send (host : Host W) (w : W) (msg : EncodedMessage) (remote : RawFd) :
    Except (Error RawFd) Unit × W :=
  match host.sendmsg w remote msg.iovData msg.controlData with
  | (none, w) => (.ok (), w)
  | (some _, w) => (.error .disconnect, w)

/-- `EncodedMessage::extract_remote` pops the last object. -/
def extractRemote (msg : EncodedMessage) : Option RawFd × EncodedMessage :=
  match msg.objects.getLast? with
  | none => (none, msg)
  | some reply => (some reply, { msg with objects := msg.objects.dropLast })

/-- The controller's own messages and their serialisation. -/
structure Control where
  encodeAck : ConnectMessageAck → List UInt8
  decodeConnect : List UInt8 → Option ConnectMessage

def linux (host : Host W) (codec : Codec) (control : Control) (version : Version) :
    Platform EncodedMessage RawFd W where
  version := version
  selector msg := msg.selector
  payloadData msg := msg.payload
  extractRemote := extractRemote
  sameRemote r s := r == s
  send := send host
  isDead := host.socketError
  encodeAck w selector ack :=
    let heap := host.heap w
    (intoEncoded codec version ⟨{ selector with uuid := ConnectMessageAck.uuid },
      control.encodeAck ack, [], []⟩ heap.1, heap.2)
  decodeConnect := control.decodeConnect
  newEndpointID := host.newEndpointID
  receiverDropped := host.receiverDropped
  platformMessage _ := none

theorem linux_sendsOrDisconnects (host : Host W) (codec : Codec) (control : Control)
    (version : Version) : (linux host codec control version).SendsOrDisconnects := by
  intro w msg remote
  simp only [linux, send]
  obtain ⟨_ | e, w'⟩ := host.sendmsg w remote msg.iovData msg.controlData
  · exact Or.inl rfl
  · exact Or.inr rfl

theorem send_disconnect {host : Host W} {w : W} {msg : EncodedMessage} {remote : RawFd}
    (h : (send host w msg remote).1 = .error .disconnect) :
    ∃ e, (host.sendmsg w remote msg.iovData msg.controlData).1 = some e := by
  rw [send] at h
  rcases hs : host.sendmsg w remote msg.iovData msg.controlData with ⟨_ | e, w'⟩
  · rw [hs] at h
    cases h
  · exact ⟨e, rfl⟩

theorem send_world (host : Host W) (w : W) (msg : EncodedMessage) (remote : RawFd) :
    (send host w msg remote).2 = (host.sendmsg w remote msg.iovData msg.controlData).2 := by
  rw [send]
  rcases host.sendmsg w remote msg.iovData msg.controlData with ⟨_ | e, w'⟩ <;> rfl

/-- The documented behaviour of `sendmsg`: `gone` are the remotes whose peer has closed
its reading end and `stays` those whose peer keeps it open until the next `recv`, `sndbuf`
the sizes of the send buffers, `opened` the descriptors that are open here, and `calm` a
world in which no signal and no limit on the descriptors in flight gets in the way. -/
structure Host.Documented (host : Host W) (gone stays : W → RawFd → Prop) (sndbuf : RawFd → Nat)
    (opened : W → RawFd → Prop) (calm : W → Prop) : Prop where
  peer : ∀ {w remote iov control e}, (host.sendmsg w remote iov control).1 = some e →
    e = .epipe ∨ e = .econnreset → gone (host.sendmsg w remote iov control).2 remote
  size : ∀ {w remote iov control}, (host.sendmsg w remote iov control).1 = some .emsgsize →
    sndbuf remote < iov.length
  records : ∀ {w remote iov control}, (host.sendmsg w remote iov control).1 = some .einval →
    host.kernel.attachments control = none
  descriptors : ∀ {w remote iov control fds},
    (host.sendmsg w remote iov control).1 = some .ebadf →
    host.kernel.attachments control = some fds → ∃ fd ∈ fds, ¬ opened w fd
  limits : ∀ {w remote iov control e}, (host.sendmsg w remote iov control).1 = some e →
    e = .etoomanyrefs ∨ e = .eintr → ¬ calm w
  stays_not_gone : ∀ {w r}, stays w r → ¬ gone w r
  gone_sendmsg : ∀ {w remote iov control r}, gone w r → gone (host.sendmsg w remote iov control).2 r
  stays_sendmsg : ∀ {w remote iov control r}, stays w r →
    stays (host.sendmsg w remote iov control).2 r
  gone_dropped : ∀ {w r}, gone w r → gone (host.receiverDropped w).2 r
  opened_sendmsg : ∀ {w remote iov control fd}, opened w fd →
    opened (host.sendmsg w remote iov control).2 fd
  calm_sendmsg : ∀ {w remote iov control}, calm w → calm (host.sendmsg w remote iov control).2

/-- Nothing but a closed peer keeps the message from being sent. -/
structure Sendable (host : Host W) (sndbuf : RawFd → Nat) (opened : W → RawFd → Prop)
    (calm : W → Prop) (w : W) (msg : EncodedMessage) (remote : RawFd) : Prop where
  calm : calm w
  fits : msg.iovData.length ≤ sndbuf remote
  records : ∃ fds, host.kernel.attachments msg.controlData = some fds ∧ ∀ fd ∈ fds, opened w fd

section Documented

variable {host : Host W} {gone stays : W → RawFd → Prop} {sndbuf : RawFd → Nat}
  {opened : W → RawFd → Prop} {calm : W → Prop} (hk : host.Documented gone stays sndbuf opened calm)
  {w : W} {msg : EncodedMessage} {remote : RawFd}
include hk

/-- A send that fails although the message can be sent finds the peer gone. -/
theorem Sendable.gone_of_error (hs : Sendable host sndbuf opened calm w msg remote)
    (h : (send host w msg remote).1 = .error .disconnect) :
    gone (send host w msg remote).2 remote := by
  obtain ⟨e, he⟩ := send_disconnect h
  obtain ⟨fds, hfds, hopen⟩ := hs.records
  rw [send_world]
  cases e with
  | epipe => exact hk.peer he (Or.inl rfl)
  | econnreset => exact hk.peer he (Or.inr rfl)
  | emsgsize => exact absurd (hk.size he) (Nat.not_lt.mpr hs.fits)
  | einval =>
    rw [hk.records he] at hfds
    cases hfds
  | ebadf =>
    obtain ⟨fd, hfd, hclosed⟩ := hk.descriptors he hfds
    exact absurd (hopen fd hfd) hclosed
  | etoomanyrefs => exact absurd hs.calm (hk.limits he (Or.inl rfl))
  | eintr => exact absurd hs.calm (hk.limits he (Or.inr rfl))

/-- Sending elsewhere does not get in the way. -/
theorem Sendable.send (hs : Sendable host sndbuf opened calm w msg remote) (other : RawFd) :
    Sendable host sndbuf opened calm (send host w msg other).2 msg remote := by
  rw [send_world]
  obtain ⟨fds, hfds, hopen⟩ := hs.records
  exact ⟨hk.calm_sendmsg hs.calm, hs.fits, fds, hfds, fun fd hfd => hk.opened_sendmsg (hopen fd hfd)⟩

theorem gone_send {r : RawFd} (h : gone w r) : gone (send host w msg remote).2 r := by
  rw [send_world]
  exact hk.gone_sendmsg h

theorem stays_send {r : RawFd} (h : stays w r) : stays (send host w msg remote).2 r := by
  rw [send_world]
  exact hk.stays_sendmsg h

end Documented

end Ipmb.Linux
