import Ipmb.Decoding

namespace Ipmb.Windows

open Messages Bytes Buffers Faults
open Encoding (Codec Span versionBytes)
open Decoding (Fault)

/-- A `HANDLE`, as the bits of a `u64`. -/
abbrev Handle := BitVec 64

structure Remote where
  pipe : Handle
  process : Option Handle
deriving DecidableEq

structure MemoryRegion where
  obj : Handle
  bufferSize : UInt64
deriving DecidableEq

/-- A message whose payload has been serialised. -/
structure Message where
  selector : Selector
  payload : List UInt8
  objects : List Handle
  memoryRegions : List MemoryRegion
deriving DecidableEq

/-- `payload_data` is a slice of `pipe_msg`. -/
structure EncodedMessage where
  selector : Selector
  payloadData : Span
  pipeMsg : List UInt8
  msgSize : Nat
  objects : List Handle
  memoryRegions : List MemoryRegion
deriving DecidableEq

/-- The room for the objects is left as the heap has it. -/
def encodeInner (codec : Codec) (version : Version) (msg : Message) (heap : Nat → UInt8) :
    Span × List UInt8 × Nat :=
  let selectorBytes := codec.encode msg.selector
  let count := msg.objects.length + msg.memoryRegions.length
  let msgSize := 4 + 4 + count * 8 + 4 + align4 selectorBytes.length + 4 + align4 msg.payload.length
  let pipeMsg := (List.range msgSize).map heap
  let pipeMsg := writeAt pipeMsg 0 (versionBytes version)
  let pipeMsg := writeAt pipeMsg 4 (leBytes 4 count)
  let selectorSizePtr := 8 + count * 8
  let pipeMsg := writeAt pipeMsg selectorSizePtr (leBytes 4 selectorBytes.length)
  let selectorPtr := selectorSizePtr + 4
  let pipeMsg := writeAt pipeMsg selectorPtr selectorBytes
  let payloadSizePtr := selectorPtr + align4 selectorBytes.length
  let pipeMsg := writeAt pipeMsg payloadSizePtr (leBytes 4 msg.payload.length)
  let payloadPtr := payloadSizePtr + 4
  (⟨payloadPtr, msg.payload.length⟩, writeAt pipeMsg payloadPtr msg.payload, msgSize)

def intoEncoded (codec : Codec) (version : Version) (msg : Message) (heap : Nat → UInt8) :
    EncodedMessage :=
  let encoded := encodeInner codec version msg heap
  ⟨msg.selector, encoded.1, encoded.2.1, encoded.2.2, msg.objects, msg.memoryRegions⟩

def writeHandles (pipeMsg : List UInt8) (ptr : Nat) : List Handle → List UInt8
  | [] => pipeMsg
  | h :: handles => writeHandles (writeAt pipeMsg ptr (leBytes 8 h.toNat)) (ptr + 8) handles

/-- What `send_helper` writes to the pipe; `toRemote` duplicates a handle for the peer. -/
def sendHelper (toRemote : Handle → Handle) (msg : EncodedMessage) : List UInt8 :=
  (writeHandles msg.pipeMsg 8
    ((msg.objects ++ msg.memoryRegions.map MemoryRegion.obj).map toRemote)).take msg.msgSize

abbrev Parse := Except (Stop Fault (Error Remote))

def readWord (buf : List UInt8) (ptr size : Nat) : Parse Nat :=
  match readAt buf ptr size with
  | some bytes => .ok (leValue bytes)
  | none => .error (.fault .outOfBounds)

def readHandles (pipeMsg : List UInt8) (ptr : Nat) : Nat → Parse (List Handle)
  | 0 => .ok []
  | count + 1 =>
    (readWord pipeMsg ptr 8).bind fun h =>
      (readHandles pipeMsg (ptr + 8) count).map (BitVec.ofNat 64 h :: ·)

def fromObject (mapHeader : Handle → Option UInt64) (obj : Handle) : Parse MemoryRegion :=
  match mapHeader obj with
  | some size => .ok ⟨obj, size⟩
  | none => .error (.fault .mapping)

/-- What follows the objects: the selector, with its size, and the payload. -/
def parseData (mapHeader : Handle → Option UInt64) (codec : Codec) (pipeMsg : List UInt8)
    (objects : List Handle) (selectorSizePtr : Nat) : Parse EncodedMessage :=
  (readWord pipeMsg selectorSizePtr 4).bind fun selectorSize =>
    match readAt pipeMsg (selectorSizePtr + 4) selectorSize with
    | none => .error (.fault .outOfBounds)
    | some bytes =>
      match codec.decode bytes with
      | none => .error (.error .decode)
      | some selector =>
        let count := selector.memoryRegionCount.toNat
        if objects.length < count then .error (.fault .underflow)
        else
          ((objects.drop (objects.length - count)).mapM (fromObject mapHeader)).bind fun regions =>
            match align4U32 selectorSize with
            | none => .error (.fault .overflow)
            | some aligned =>
              let payloadSizePtr := selectorSizePtr + 4 + aligned
              (readWord pipeMsg payloadSizePtr 4).bind fun payloadSize =>
                if payloadSizePtr + 4 + payloadSize ≤ pipeMsg.length then
                  .ok ⟨selector, ⟨payloadSizePtr + 4, payloadSize⟩, pipeMsg, pipeMsg.length,
                    objects.take (objects.length - count), regions⟩
                else .error (.fault .outOfBounds)

/-- `EncodedMessage::new`: the objects are read before the version is compared. -/
def new (mapHeader : Handle → Option UInt64) (codec : Codec) (version : Version)
    (pipeMsg : List UInt8) : Parse EncodedMessage :=
  match readAt pipeMsg 0 4 with
  | some [magic, major, minor, patch] =>
    if magic ≠ 0xFF then .error (.error (.versionMismatch ⟨0, 0, 0⟩ none))
    else
      (readWord pipeMsg 4 4).bind fun objectCount =>
      (readHandles pipeMsg 8 objectCount).bind fun objects =>
        if !version.compatible ⟨major, minor, patch⟩ then
          .error (.error (.versionMismatch ⟨major, minor, patch⟩ none))
        else parseData mapHeader codec pipeMsg objects (8 + objectCount * 8)
  | _ => .error (.fault .outOfBounds)

theorem readHandles_ok {pipeMsg : List UInt8} {ptr count : Nat} (h : ptr + 8 * count ≤ pipeMsg.length) :
    ∃ handles, readHandles pipeMsg ptr count = .ok handles := by
  induction count generalizing ptr with
  | zero => exact ⟨[], rfl⟩
  | succ count ih =>
    obtain ⟨handles, hrest⟩ := @ih (ptr + 8) (by omega)
    rw [readHandles, readWord, readAt_eq_some (by omega)]
    simp only [Except.bind, hrest, Except.map]
    exact ⟨_, rfl⟩

/-- The buffer starts with `front`, and `n` more bytes follow. -/
def Starts (front : List UInt8) (n : Nat) (buf : List UInt8) : Prop :=
  ∃ rest, buf = front ++ rest ∧ rest.length = n

/-- Writing behind the front keeps it. -/
theorem Starts.writeAt {front buf data : List UInt8} {n off : Nat} (h : Starts front n buf)
    (hoff : front.length ≤ off) (hend : off + data.length ≤ front.length + n) :
    Starts front n (writeAt buf off data) := by
  obtain ⟨rest, rfl, hlen⟩ := h
  refine ⟨Bytes.writeAt rest (off - front.length) data, ?_, ?_⟩
  · rw [Bytes.writeAt, List.take_append, List.take_of_length_le hoff, List.drop_append,
      List.drop_of_length_le (by omega), List.nil_append, Bytes.writeAt]
    have hsub : off + data.length - front.length = off - front.length + data.length := by omega
    rw [hsub]
    simp only [List.append_assoc]
  · simp only [Bytes.writeAt, List.length_append, List.length_take, List.length_drop]
    omega

theorem Starts.writeHandles {front buf : List UInt8} {n ptr : Nat} (handles : List Handle)
    (h : Starts front n buf) (hptr : front.length ≤ ptr)
    (hend : ptr + 8 * handles.length ≤ front.length + n) :
    Starts front n (writeHandles buf ptr handles) := by
  induction handles generalizing buf ptr with
  | nil => exact h
  | cons handle handles ih =>
    rw [List.length_cons] at hend
    refine ih (h.writeAt hptr ?_) (by omega) (by omega)
    rw [length_leBytes]
    omega

theorem Starts.take {front buf : List UInt8} {n m : Nat} (h : Starts front n buf)
    (hm : front.length + n ≤ m) : Starts front n (buf.take m) := by
  obtain ⟨rest, rfl, hlen⟩ := h
  rw [List.take_of_length_le (by rw [List.length_append]; omega)]
  exact ⟨rest, rfl, hlen⟩

theorem sendHelper_starts (codec : Codec) (version : Version) (msg : Message) (heap : Nat → UInt8)
    (toRemote : Handle → Handle) :
    ∃ n, (msg.objects.length + msg.memoryRegions.length) * 8 ≤ n ∧
      Starts (versionBytes version ++ leBytes 4 (msg.objects.length + msg.memoryRegions.length)) n
        (sendHelper toRemote (intoEncoded codec version msg heap)) := by
  have hsel := le_align4 (codec.encode msg.selector).length
  have hpay := le_align4 msg.payload.length
  have hfront : (versionBytes version ++ leBytes 4 (msg.objects.length + msg.memoryRegions.length)).length =
      8 := rfl
  refine ⟨(msg.objects.length + msg.memoryRegions.length) * 8 + 4 +
    align4 (codec.encode msg.selector).length + 4 + align4 msg.payload.length, by omega, ?_⟩
  simp only [sendHelper, intoEncoded, encodeInner]
  generalize hcount : msg.objects.length + msg.memoryRegions.length = count at hfront ⊢
  generalize hbuf : (List.range (4 + 4 + count * 8 + 4 + align4 (codec.encode msg.selector).length + 4 +
    align4 msg.payload.length)).map heap = buf
  have hlen : buf.length = 4 + 4 + count * 8 + 4 + align4 (codec.encode msg.selector).length + 4 +
      align4 msg.payload.length := by
    rw [← hbuf, List.length_map, List.length_range]
  have h₀ : writeAt buf 0 (versionBytes version) = versionBytes version ++ buf.drop 4 := by
    simp [writeAt, versionBytes]
  rw [h₀, writeAt_append (versionBytes version) _ _ (show (versionBytes version).length = 4 from rfl),
    length_leBytes, List.drop_drop]
  have hstart : Starts (versionBytes version ++ leBytes 4 count) (count * 8 + 4 +
      align4 (codec.encode msg.selector).length + 4 + align4 msg.payload.length)
      (versionBytes version ++ leBytes 4 count ++ buf.drop (4 + 4)) :=
    ⟨_, rfl, by rw [List.length_drop, hlen]; omega⟩
  refine Starts.take (Starts.writeHandles _ ?_ (by omega) ?_) (by omega)
  · refine Starts.writeAt (Starts.writeAt (Starts.writeAt (Starts.writeAt hstart ?_ ?_) ?_ ?_) ?_ ?_) ?_ ?_
    all_goals
      simp only [hfront, length_leBytes]
      omega
  · rw [List.length_map, List.length_append, List.length_map, hcount, hfront]
    omega

/-- A message of an incompatible version is given up, with nobody to answer. -/
theorem new_sendHelper (mapHeader : Handle → Option UInt64) (codec : Codec) {ours version : Version}
    (msg : Message) (heap : Nat → UInt8) (hv : ours.compatible version = false)
    (toRemote : Handle → Handle) :
    new mapHeader codec ours (sendHelper toRemote (intoEncoded codec version msg heap)) =
      .error (.error (.versionMismatch version none)) := by
  obtain ⟨n, hn, rest, heq, hlen⟩ := sendHelper_starts codec version msg heap toRemote
  generalize msg.objects.length + msg.memoryRegions.length = count at hn heq
  have hversion : readAt (versionBytes version ++ leBytes 4 count ++ rest) 0 4 =
      some (versionBytes version) := by
    rw [List.append_assoc]
    exact readAt_append [] _ _ 0 4 rfl rfl
  have hcount : readWord (versionBytes version ++ leBytes 4 count ++ rest) 4 4 =
      .ok (count % 2 ^ 32) := by
    rw [readWord, readAt_append _ _ _ 4 4 rfl (length_leBytes 4 count)]
    simp only [leValue_leBytes]
    rfl
  obtain ⟨handles, hhandles⟩ : ∃ handles, readHandles (versionBytes version ++ leBytes 4 count ++ rest) 8
      (count % 2 ^ 32) = .ok handles := by
    apply readHandles_ok
    have hle := Nat.mod_le count (2 ^ 32)
    simp only [List.length_append, length_leBytes, versionBytes, List.length_cons, List.length_nil]
    omega
  rw [new, heq, hversion]
  simp only [versionBytes, ne_eq, not_true_eq_false, if_false] at hcount hhandles ⊢
  rw [hcount, Except.bind, hhandles, Except.bind]
  simp [hv]

end Ipmb.Windows
