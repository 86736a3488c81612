import Ipmb.Buffers
import Ipmb.Messages

namespace Ipmb.Encoding

open Messages Bytes Buffers

structure MemoryRegion where
  obj : RawFd
  bufferSize : UInt64
deriving DecidableEq

/-- A message whose payload has been serialised. -/
structure Message where
  selector : Selector
  payload : List UInt8
  objects : List RawFd
  memoryRegions : List MemoryRegion
deriving DecidableEq

/-- A slice into a buffer. -/
structure Span where
  start : Nat
  len : Nat
deriving DecidableEq

structure EncodedMessage where
  selector : Selector
  payloadData : Span
  iovData : List UInt8
  controlData : List UInt8
  objects : List RawFd
  memoryRegions : List MemoryRegion
deriving DecidableEq

/-- The bytes that `payload_data` points to. -/
def EncodedMessage.payload (msg : EncodedMessage) : List UInt8 :=
  (readAt msg.iovData msg.payloadData.start msg.payloadData.len).getD []

/-- `bincode` at the type `Selector`. -/
structure Codec where
  encode : Selector → List UInt8
  decode : List UInt8 → Option Selector

/-- What the two buffers of a message hold before they are written. -/
structure Heap where
  iov : Nat → UInt8
  control : Nat → UInt8

def Message.attachments (msg : Message) : List RawFd :=
  msg.objects ++ msg.memoryRegions.map MemoryRegion.obj

def versionBytes (v : Version) : List UInt8 := [0xFF, v.major, v.minor, v.patch]

/-- The first half of `encode_inner`: the payload slice and the data part. -/
def encodeIov (codec : Codec) (version : Version) (msg : Message) (heap : Nat → UInt8) :
    Span × List UInt8 :=
  let selectorData := codec.encode msg.selector
  let size := 4 + 4 + 4 + align4 selectorData.length + align4 msg.payload.length
  let iovData := allocBuffer 4 size heap
  let iovData := writeAt iovData 0 (versionBytes version)
  let iovData := writeAt iovData 4 (leBytes 4 selectorData.length)
  let iovData := writeAt iovData 8 selectorData
  let payloadLenPtr := 8 + align4 selectorData.length
  let iovData := writeAt iovData payloadLenPtr (leBytes 4 msg.payload.length)
  let payloadPtr := payloadLenPtr + 4
  (⟨payloadPtr, msg.payload.length⟩, writeAt iovData payloadPtr msg.payload)

def writeFds (control : List UInt8) (ptr : Nat) : List RawFd → List UInt8
  | [] => control
  | fd :: fds => writeFds (writeAt control ptr (fdBytes fd)) (ptr + 4) fds

/-- The second half of `encode_inner`: the control part. -/
def encodeControl (fds : List RawFd) (heap : Nat → UInt8) : List UInt8 :=
  let controlLen := 4 * fds.length % 2 ^ 32
  let controlData := allocBuffer 8 (cmsgSpace controlLen) heap
  let controlData := writeAt controlData 0 (leBytes 8 (cmsgLen controlLen))
  let controlData := writeAt controlData 8 (leBytes 4 solSocket)
  let controlData := writeAt controlData 12 (leBytes 4 scmRights)
  writeFds controlData (cmsgAlign cmsghdrSize) fds

def intoEncoded (codec : Codec) (version : Version) (msg : Message) (heap : Heap) : EncodedMessage :=
  let iov := encodeIov codec version msg heap.iov
  ⟨msg.selector, iov.1, iov.2, encodeControl msg.attachments heap.control, msg.objects,
    msg.memoryRegions⟩

/-- The data part, with its two runs of padding. -/
def layout (version : Version) (selectorData payload pad pad' : List UInt8) : List UInt8 :=
  versionBytes version ++ leBytes 4 selectorData.length ++ selectorData ++ pad ++
    leBytes 4 payload.length ++ payload ++ pad'

variable (codec : Codec) (version : Version) (msg : Message)

/-- `n` bytes of the heap. -/
def heapBytes (heap : Nat → UInt8) (start n : Nat) : List UInt8 := (List.range' start n).map heap

@[simp] theorem length_heapBytes (heap : Nat → UInt8) (start n : Nat) :
    (heapBytes heap start n).length = n := by
  rw [heapBytes, List.length_map, List.length_range']

theorem drop_allocBuffer_u32 (size : Nat) (heap : Nat → UInt8) (n : Nat) :
    (allocBuffer 4 size heap).drop n = heapBytes heap n (align4 size - n) := by
  have halloc : allocBuffer 4 size heap = heapBytes heap 0 (align4 size) := by
    rw [← length_allocBuffer_u32 size heap, allocBuffer, heapBytes, List.length_map, List.length_range,
      ← List.range_eq_range']
  rw [halloc, heapBytes, heapBytes, ← List.map_drop, List.drop_range', Nat.zero_add, Nat.mul_one]

theorem heapBytes_add (heap : Nat → UInt8) (start m n : Nat) :
    heapBytes heap start (m + n) = heapBytes heap start m ++ heapBytes heap (start + m) n := by
  rw [heapBytes, ← List.range'_append_1, List.map_append]
  rfl

/-- Every byte is written, but for those of the padding. -/
theorem encodeIov_eq (heap : Nat → UInt8) :
    (encodeIov codec version msg heap).2 =
      layout version (codec.encode msg.selector) msg.payload
        (heapBytes heap (8 + (codec.encode msg.selector).length)
          (align4 (codec.encode msg.selector).length - (codec.encode msg.selector).length))
        (heapBytes heap (12 + align4 (codec.encode msg.selector).length + msg.payload.length)
          (align4 msg.payload.length - msg.payload.length)) := by
  generalize hs : codec.encode msg.selector = sel
  have hle := le_align4 sel.length
  have hle' := le_align4 msg.payload.length
  rw [encodeIov]
  simp only [hs]
  generalize hbuf : allocBuffer 4 (4 + 4 + 4 + align4 sel.length + align4 msg.payload.length) heap = buf
  have hsize : align4 (4 + 4 + 4 + align4 sel.length + align4 msg.payload.length) =
      4 + 4 + 4 + align4 sel.length + align4 msg.payload.length := by
    apply align4_of_mod
    have := align4_mod sel.length
    have := align4_mod msg.payload.length
    omega
  have hdrop : ∀ n, buf.drop n =
      heapBytes heap n (4 + 4 + 4 + align4 sel.length + align4 msg.payload.length - n) := by
    intro n
    rw [← hbuf, drop_allocBuffer_u32, hsize]
  -- each write extends the part that is already known
  have h₀ : writeAt buf 0 (versionBytes version) = versionBytes version ++ buf.drop 4 := by
    simp [writeAt, versionBytes]
  have hrest : 4 + 4 + 4 + align4 sel.length + align4 msg.payload.length - (4 + 4 + sel.length) =
      (align4 sel.length - sel.length) + (4 + align4 msg.payload.length) := by
    omega
  have hlast : 4 + align4 msg.payload.length =
      (4 + msg.payload.length) + (align4 msg.payload.length - msg.payload.length) := by
    omega
  rw [h₀, writeAt_append _ _ _ (by rfl), length_leBytes, List.drop_drop,
    writeAt_append _ _ _ (by simp [versionBytes]), List.drop_drop, hdrop, hrest, heapBytes_add,
    ← List.append_assoc, writeAt_append, length_leBytes, writeAt_append, List.drop_drop]
  · rw [hlast, heapBytes_add, List.drop_left' (length_heapBytes _ _ _)]
    have hstart : 4 + 4 + sel.length + (align4 sel.length - sel.length) + (4 + msg.payload.length) =
        12 + align4 sel.length + msg.payload.length := by
      omega
    rw [hstart]
    rfl
  · simp only [List.length_append, length_heapBytes, length_leBytes, versionBytes, List.length_cons,
      List.length_nil]
    omega
  · simp only [List.length_append, length_heapBytes, length_leBytes, versionBytes, List.length_cons,
      List.length_nil]
    omega

/-- The heap shows through in the padding, and nowhere else. -/
theorem encodeIov_layout (heap : Nat → UInt8) :
    ∃ pad pad' : List UInt8,
      pad.length = align4 (codec.encode msg.selector).length - (codec.encode msg.selector).length ∧
      pad'.length = align4 msg.payload.length - msg.payload.length ∧
      (encodeIov codec version msg heap).2 =
        layout version (codec.encode msg.selector) msg.payload pad pad' :=
  ⟨_, _, length_heapBytes _ _ _, length_heapBytes _ _ _, encodeIov_eq codec version msg heap⟩

theorem length_layout (selectorData payload pad pad' : List UInt8) :
    (layout version selectorData payload pad pad').length =
      12 + (selectorData.length + pad.length) + (payload.length + pad'.length) := by
  simp only [layout, versionBytes, List.length_append, length_leBytes, List.length_cons, List.length_nil]
  omega

theorem length_encodeIov (heap : Nat → UInt8) :
    (encodeIov codec version msg heap).2.length =
      12 + align4 (codec.encode msg.selector).length + align4 msg.payload.length := by
  obtain ⟨pad, pad', hpad, hpad', heq⟩ := encodeIov_layout codec version msg heap
  rw [heq, length_layout, hpad, hpad']
  have := le_align4 (codec.encode msg.selector).length
  have := le_align4 msg.payload.length
  omega

theorem writeFds_append (pre buf : List UInt8) {ptr : Nat} (hp : pre.length = ptr)
    (fds : List RawFd) :
    writeFds (pre ++ buf) ptr fds = pre ++ fds.flatMap fdBytes ++ buf.drop (4 * fds.length) := by
  induction fds generalizing pre buf ptr with
  | nil => simp [writeFds]
  | cons fd fds ih =>
    rw [writeFds, writeAt_append _ _ _ hp, length_fdBytes,
      ih (pre ++ fdBytes fd) (buf.drop 4) (by simp [hp]), List.flatMap_cons, List.drop_drop,
      List.length_cons, List.append_assoc pre, Nat.mul_succ, Nat.add_comm 4]

/-- The control part is one record of all descriptors, and padding. -/
theorem encodeControl_eq {fds : List RawFd} (h : 4 * fds.length < 2 ^ 32) (heap : Nat → UInt8) :
    ∃ pad : List UInt8, pad.length < 8 ∧ encodeControl fds heap = rightsRecord fds ++ pad := by
  rw [encodeControl]
  simp only [Nat.mod_eq_of_lt h]
  generalize hbuf : allocBuffer 8 (cmsgSpace (4 * fds.length)) heap = buf
  have hlen : buf.length = cmsgSpace (4 * fds.length) := by
    rw [← hbuf, length_allocBuffer_usize (cmsgSpace_mod _)]
  have h₀ : writeAt buf 0 (leBytes 8 (cmsgLen (4 * fds.length))) =
      leBytes 8 (cmsgLen (4 * fds.length)) ++ buf.drop 8 := by
    simp [writeAt]
  rw [h₀, writeAt_append _ _ _ (by simp), length_leBytes, List.drop_drop,
    writeAt_append _ _ _ (by simp), length_leBytes, List.drop_drop,
    writeFds_append _ _ (by simp; rfl), List.drop_drop]
  refine ⟨_, ?_, rfl⟩
  have hspace := cmsgSpace_lt (4 * fds.length)
  rw [List.length_drop, hlen]
  omega

end Ipmb.Encoding
