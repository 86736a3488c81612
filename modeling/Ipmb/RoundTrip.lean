import Ipmb.Reception
import Ipmb.Reference

namespace Ipmb.RoundTrip

open Messages Bytes Buffers Encoding Faults Decoding Reception Reference

section Layout

variable {version ours : Version} {codec : Codec} {selector : Selector} {payload pad pad' : List UInt8}

/-- Only the first word counts. -/
theorem readVersion_append (post : List UInt8) :
    readVersion ours (versionBytes version ++ post) =
      if ours.compatible version = true then .ok version
      else .error (.error (.versionMismatch version none)) := by
  have hread : readAt (versionBytes version ++ post) 0 4 = some (versionBytes version) :=
    readAt_append [] (versionBytes version) post 0 4 rfl rfl
  rw [readVersion, hread]
  cases hv : ours.compatible version <;> simp [versionBytes, hv]

theorem readVersion_layout (sel : List UInt8) :
    readVersion ours (layout version sel payload pad pad') =
      if ours.compatible version = true then .ok version
      else .error (.error (.versionMismatch version none)) := by
  simp only [layout, List.append_assoc]
  exact readVersion_append _

theorem readSelector_layout (hdec : codec.decode (codec.encode selector) = some selector)
    (hlt : (codec.encode selector).length < 2 ^ 32) :
    readSelector codec (layout version (codec.encode selector) payload pad pad') =
      .ok ((codec.encode selector).length, selector) := by
  have hword := readWord_append (versionBytes version) (codec.encode selector ++ pad ++
    leBytes 4 payload.length ++ payload ++ pad') 4 (codec.encode selector).length 4 rfl hlt
  have hread := readAt_append (versionBytes version ++ leBytes 4 (codec.encode selector).length)
    (codec.encode selector) (pad ++ leBytes 4 payload.length ++ payload ++ pad')
    8 (codec.encode selector).length rfl rfl
  simp only [List.append_assoc] at hword hread
  rw [readSelector, layout]
  simp only [List.append_assoc]
  rw [hword, Except.bind, hread]
  simp only [hdec]

theorem readPayload_layout (sel : List UInt8) (hpad : sel.length + pad.length = align4 sel.length)
    (hlt : (layout version sel payload pad pad').length < 2 ^ 32) :
    readPayload (layout version sel payload pad pad') sel.length =
        .ok ⟨12 + align4 sel.length, payload.length⟩ ∧
      readAt (layout version sel payload pad pad') (12 + align4 sel.length) payload.length =
        some payload := by
  have hlen := length_layout version sel payload pad pad'
  have hpre : (versionBytes version ++ leBytes 4 sel.length ++ sel ++ pad).length =
      8 + align4 sel.length := by
    simp only [List.length_append, length_leBytes, versionBytes, List.length_cons, List.length_nil]
    omega
  have hword : readWord (layout version sel payload pad pad') (8 + align4 sel.length) 4 =
      .ok payload.length := by
    rw [layout, List.append_assoc _ payload]
    exact readWord_append _ _ 4 payload.length _ hpre (by omega)
  constructor
  · rw [readPayload, align4U32_eq_some (by omega)]
    simp only [hword, Except.bind]
    rw [if_pos (by omega), Nat.add_right_comm]
  · exact readAt_append _ payload pad' _ _ (by rw [List.length_append, hpre, length_leBytes]; omega) rfl

end Layout

/-- What the readers of `from_local` make of a data part, behind the version: the selector
and the payload. -/
structure Reads (codec : Codec) (iovData : List UInt8) (selector : Selector) (payloadData : Span)
    (payload : List UInt8) : Prop where
  fields : ∃ selectorSize, readSelector codec iovData = .ok (selectorSize, selector) ∧
    readPayload iovData selectorSize = .ok payloadData
  payload : readAt iovData payloadData.start payloadData.len = some payload

/-- Only the split of the objects can still stop the message. -/
theorem Reads.parseData {codec : Codec} {ours version : Version} {iovData payload : List UInt8}
    {selector : Selector} {payloadData : Span} (h : Reads codec iovData selector payloadData payload)
    (hv : readVersion ours iovData = .ok version) (k : Kernel) (controlData : List UInt8)
    (objects : List RawFd) :
    Decoding.parseData k codec ours iovData controlData objects =
      (splitObjects k objects selector.memoryRegionCount.toNat).map fun attached =>
        ⟨selector, payloadData, iovData, controlData, attached.1, attached.2⟩ := by
  obtain ⟨selectorSize, hselector, hpayload⟩ := h.fields
  rw [Decoding.parseData, hv, Except.bind, hselector, Except.bind]
  simp only [hpayload]
  cases splitObjects k objects selector.memoryRegionCount.toNat <;> rfl

variable (codec : Codec) (version ours : Version) (msg : Message) (heap : Heap)

theorem encodeIov_reads (hdec : codec.decode (codec.encode msg.selector) = some msg.selector)
    (hlt : (encodeIov codec version msg heap.iov).2.length < 2 ^ 32) :
    Reads codec (encodeIov codec version msg heap.iov).2 msg.selector
      (encodeIov codec version msg heap.iov).1 msg.payload := by
  obtain ⟨pad, pad', hpad, -, heq⟩ := encodeIov_layout codec version msg heap.iov
  have hspan : (encodeIov codec version msg heap.iov).1 =
      ⟨12 + align4 (codec.encode msg.selector).length, msg.payload.length⟩ := by
    simp only [encodeIov, Span.mk.injEq, and_true]
    omega
  have hle := le_align4 (codec.encode msg.selector).length
  rw [heq] at hlt
  rw [heq, hspan]
  obtain ⟨hpayload, hbytes⟩ := readPayload_layout (codec.encode msg.selector) (by omega) hlt
  rw [length_layout] at hlt
  exact ⟨⟨_, readSelector_layout hdec (by omega), hpayload⟩, hbytes⟩

theorem encodeIov_version :
    readVersion ours (encodeIov codec version msg heap.iov).2 =
      if ours.compatible version = true then .ok version
      else .error (.error (.versionMismatch version none)) := by
  obtain ⟨pad, pad', -, -, heq⟩ := encodeIov_layout codec version msg heap.iov
  rw [heq, readVersion_layout]

theorem encodeIov_mod : (encodeIov codec version msg heap.iov).2.length % 4 = 0 := by
  have hsel := align4_mod (codec.encode msg.selector).length
  have hpay := align4_mod msg.payload.length
  rw [length_encodeIov]
  omega

/-- No byte of the heap is received in addition. -/
theorem receivedIov_encodeIov (heap' : Heap) (fds : List RawFd) :
    receivedIov heap' ⟨(encodeIov codec version msg heap.iov).2, fds⟩ =
      (encodeIov codec version msg heap.iov).2 :=
  receivedIov_of_mod heap' (d := ⟨_, fds⟩) (encodeIov_mod codec version msg heap)

/-- What `encode_inner` writes, `from_local` reads back, whatever the padding holds: the
fields are those of the message that goes over the channel inside the process. -/
theorem data_round_trip (hv : ours.compatible version = true)
    (hdec : codec.decode (codec.encode msg.selector) = some msg.selector)
    (hlt : (intoEncoded codec version msg heap).iovData.length < 2 ^ 32) :
    (intoEncoded codec version msg heap).iovData.length % 4 = 0 ∧
      (intoEncoded codec version msg heap).selector = msg.selector ∧
      (intoEncoded codec version msg heap).payload = msg.payload ∧
      readVersion ours (intoEncoded codec version msg heap).iovData = .ok version ∧
      Reads codec (intoEncoded codec version msg heap).iovData msg.selector
        (intoEncoded codec version msg heap).payloadData msg.payload ∧
      ∀ k controlData objects attached,
        splitObjects k objects msg.selector.memoryRegionCount.toNat = .ok attached →
        parseData k codec ours (intoEncoded codec version msg heap).iovData controlData objects =
          .ok { intoEncoded codec version msg heap with
            controlData := controlData, objects := attached.1, memoryRegions := attached.2 } := by
  have hreads := encodeIov_reads codec version msg heap hdec hlt
  have hversion : readVersion ours (encodeIov codec version msg heap.iov).2 = .ok version := by
    rw [encodeIov_version, if_pos hv]
  refine ⟨encodeIov_mod codec version msg heap, rfl, ?_, hversion, hreads, ?_⟩
  · simp only [EncodedMessage.payload, intoEncoded, hreads.payload, Option.getD_some]
  · intro k controlData objects attached hs
    have hparse := hreads.parseData hversion k controlData objects
    rw [hs] at hparse
    exact hparse

theorem data_round_trip_plain :
    Reads plainCodec (intoEncoded plainCodec ⟨0, 8, 3⟩ ⟨plainSelector 1, [1, 2, 3], [], []⟩
      zeroHeap).iovData (plainSelector 1) ⟨36, 3⟩ [1, 2, 3] :=
  (data_round_trip plainCodec ⟨0, 8, 3⟩ ⟨0, 8, 5⟩ ⟨plainSelector 1, [1, 2, 3], [], []⟩ zeroHeap
    (by decide) (by decide) (by decide)).2.2.2.2.1

end Ipmb.RoundTrip
