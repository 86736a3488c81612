import Ipmb.Encoding
import Ipmb.Faults

namespace Ipmb.Decoding

open Messages Bytes Buffers Encoding Faults

/-- A datagram at the head of a socket's queue; its descriptors are numbered as the
receiving process will see them. -/
structure Datagram where
  bytes : List UInt8
  fds : List RawFd
deriving DecidableEq

/-- What a `recvmsg` call returns and leaves in the buffers it was given. -/
structure Recvmsg where
  ret : Int
  iov : List UInt8
  control : List UInt8
  controllen : Nat
  trunc : Bool
  ctrunc : Bool

/-- `sendmsg` passes at most as many descriptors at once (`SCM_MAX_FD`). -/
def scmMaxFd : Nat := 253

/-- The calls of the operating system that parsing and sending rest on. A socket
without a datagram is one that has been shut down. -/
structure Kernel where
  /-- `recvmsg` with `MSG_PEEK | MSG_TRUNC` and empty buffers. -/
  peek : Option Datagram → Int
  recvmsg : Option Datagram → List UInt8 → List UInt8 → Recvmsg
  /-- The descriptors that `sendmsg` reads from a control buffer, unless it rejects it. -/
  attachments : List UInt8 → Option (List RawFd)
  /-- The buffer size in the header of a memory object, if it can be mapped and its header read.
  An empty object can be mapped, but reading its header ends the process. -/
  mapHeader : RawFd → Option UInt64

/-- The documented behaviour of these calls. -/
structure Kernel.Documented (k : Kernel) : Prop where
  peek_some : ∀ d, k.peek (some d) = d.bytes.length
  peek_none : k.peek none ≤ 0
  recvmsg_fits : ∀ d iov control, d.bytes.length ≤ iov.length →
    (k.recvmsg (some d) iov control).ret = d.bytes.length ∧
    (k.recvmsg (some d) iov control).iov = d.bytes ++ iov.drop d.bytes.length ∧
    (k.recvmsg (some d) iov control).trunc = false
  recvmsg_truncates : ∀ d iov control, iov.length < d.bytes.length →
    (k.recvmsg (some d) iov control).trunc = true
  control_none : ∀ d iov control, d.fds = [] →
    (k.recvmsg (some d) iov control).control = control ∧
    (k.recvmsg (some d) iov control).controllen = 0 ∧
    (k.recvmsg (some d) iov control).ctrunc = false
  /-- The receiver is below its limit of open descriptors; at the limit `recvmsg` sets `MSG_CTRUNC`. -/
  control_fits : ∀ d iov control, d.fds ≠ [] → cmsgLen (4 * d.fds.length) ≤ control.length →
    (k.recvmsg (some d) iov control).control =
      rightsRecord d.fds ++ control.drop (cmsgLen (4 * d.fds.length)) ∧
    0 < (k.recvmsg (some d) iov control).controllen ∧
    (k.recvmsg (some d) iov control).ctrunc = false
  control_truncates : ∀ d iov control, d.fds ≠ [] → control.length < cmsgLen (4 * d.fds.length) →
    (k.recvmsg (some d) iov control).ctrunc = true
  /-- A record whose padding leaves no room for another header is the only one. -/
  attachments_record : ∀ fds pad, fds.length ≤ scmMaxFd → pad.length < 16 →
    k.attachments (rightsRecord fds ++ pad) = some fds

/-- The ways of going wrong: an access outside a buffer, an arithmetic panic, a failed
`expect`. -/
inductive Fault where
  | outOfBounds
  | overflow
  | underflow
  | mapping
deriving DecidableEq

abbrev Parse := Except (Stop Fault (Error RawFd))

def readWord (buf : List UInt8) (ptr size : Nat) : Parse Nat :=
  match readAt buf ptr size with
  | some bytes => .ok (leValue bytes)
  | none => .error (.fault .outOfBounds)

def readFds (control : List UInt8) (ptr : Nat) : Nat → Parse (List RawFd)
  | 0 => .ok []
  | count + 1 =>
    (readWord control ptr 4).bind fun fd =>
      (readFds control (ptr + 4) count).map (BitVec.ofNat 32 fd :: ·)

/-- The objects described by the control buffer. -/
def readObjects (control : List UInt8) : Parse (List RawFd) :=
  (readWord control 0 8).bind fun cmsgLen =>
    if cmsgLen < cmsgAlign cmsghdrSize then .error (.fault .underflow)
    else readFds control (cmsgAlign cmsghdrSize) ((cmsgLen - cmsgAlign cmsghdrSize) / 4)

/-- The version word; the sender's version must be compatible with ours. -/
def readVersion (version : Version) (iovData : List UInt8) : Parse Version :=
  match readAt iovData 0 4 with
  | some [magic, major, minor, patch] =>
    if magic ≠ 0xFF then .error (.error (.versionMismatch ⟨0, 0, 0⟩ none))
    else if !version.compatible ⟨major, minor, patch⟩ then
      .error (.error (.versionMismatch ⟨major, minor, patch⟩ none))
    else .ok ⟨major, minor, patch⟩
  | _ => .error (.fault .outOfBounds)

/-- The selector and its size. -/
def readSelector (codec : Codec) (iovData : List UInt8) : Parse (Nat × Selector) :=
  (readWord iovData 4 4).bind fun selectorSize =>
    match readAt iovData 8 selectorSize with
    | none => .error (.fault .outOfBounds)
    | some bytes =>
      match codec.decode bytes with
      | none => .error (.error .decode)
      | some selector => .ok (selectorSize, selector)

/-- `MemoryRegion::from_object`, which panics when the header cannot be mapped, and faults when it
cannot be read. -/
def fromObject (k : Kernel) (obj : RawFd) : Parse MemoryRegion :=
  match k.mapHeader obj with
  | some size => .ok ⟨obj, size⟩
  | none => .error (.fault .mapping)

/-- The last `count` objects are memory regions. -/
def splitObjects (k : Kernel) (objects : List RawFd) (count : Nat) :
    Parse (List RawFd × List MemoryRegion) :=
  if objects.length < count then .error (.fault .underflow)
  else ((objects.drop (objects.length - count)).mapM (fromObject k)).map
    fun regions => (objects.take (objects.length - count), regions)

/-- The payload slice behind a selector of the given size. -/
def readPayload (iovData : List UInt8) (selectorSize : Nat) : Parse Span :=
  match align4U32 selectorSize with
  | none => .error (.fault .overflow)
  | some aligned =>
    (readWord iovData (8 + aligned) 4).bind fun payloadSize =>
      if 8 + aligned + 4 + payloadSize ≤ iovData.length then .ok ⟨8 + aligned + 4, payloadSize⟩
      else .error (.fault .outOfBounds)

/-- The data part of a message that came with the given objects. -/
def parseData (k : Kernel) (codec : Codec) (version : Version) (iovData controlData : List UInt8)
    (objects : List RawFd) : Parse EncodedMessage :=
  (readVersion version iovData).bind fun _ =>
  (readSelector codec iovData).bind fun selector =>
  (splitObjects k objects selector.2.memoryRegionCount.toNat).bind fun attached =>
  (readPayload iovData selector.1).map fun payloadData =>
    ⟨selector.2, payloadData, iovData, controlData, attached.1, attached.2⟩

def fromLocal (k : Kernel) (codec : Codec) (version : Version) (heap : Heap)
    (socket : Option Datagram) : Parse EncodedMessage :=
  let r := k.peek socket
  if r ≤ 0 then .error (.error .disconnect)
  else
    -- `r` is kept as a `u32`
    let iovData := allocBuffer 4 (r.toNat % 2 ^ 32) heap.iov
    let controlData := allocBuffer 8 32 heap.control
    let got := k.recvmsg socket iovData controlData
    if got.ret ≤ 0 ∨ got.trunc = true ∨ got.ctrunc = true then .error (.error .disconnect)
    else
      (if got.controllen > 0 then readObjects got.control else .ok []).bind
        (parseData k codec version got.iov got.control)

end Ipmb.Decoding
