import Ipmb.Reference
import Ipmb.Relay

namespace Ipmb.Padding

open Messages Buffers Encoding Reference Relay

theorem align4_eq_self {n : Nat} : align4 n = n ↔ n % 4 = 0 :=
  ⟨fun h => h ▸ align4_mod n, align4_of_mod⟩

/-- Two heaps that differ in every byte show in what is read from them. -/
theorem heapBytes_ne {heap heap' : Nat → UInt8} (h : ∀ i, heap i ≠ heap' i) {start n : Nat}
    (heq : heapBytes heap start n = heapBytes heap' start n) : n = 0 := by
  cases n with
  | zero => rfl
  | succ n =>
    rw [heapBytes, heapBytes, List.range'_succ, List.map_cons, List.map_cons] at heq
    exact absurd (List.cons.inj heq).1 (h start)

theorem layout_inj {version : Version} {sel payload pad pad' qad qad' : List UInt8}
    (hpad : pad.length = qad.length)
    (h : layout version sel payload pad pad' = layout version sel payload qad qad') :
    pad = qad ∧ pad' = qad' := by
  simp only [layout, List.append_assoc, List.append_cancel_left_eq] at h
  obtain ⟨hfirst, hrest⟩ := List.append_inj h hpad
  exact ⟨hfirst, by simpa only [List.append_cancel_left_eq] using hrest⟩

/-- The data part is a function of the message exactly when nothing is padded. -/
theorem data_part_determined_iff (codec : Codec) (version : Version) (msg : Message) :
    (∀ heap heap' : Heap, (intoEncoded codec version msg heap).iovData =
        (intoEncoded codec version msg heap').iovData) ↔
      (codec.encode msg.selector).length % 4 = 0 ∧ msg.payload.length % 4 = 0 := by
  simp only [intoEncoded, encodeIov_eq, ← align4_eq_self]
  have hle := le_align4 (codec.encode msg.selector).length
  have hle' := le_align4 msg.payload.length
  constructor
  · intro h
    obtain ⟨hpad, hpad'⟩ := layout_inj (by simp) (h ⟨fun _ => 0, fun _ => 0⟩ ⟨fun _ => 1, fun _ => 0⟩)
    have hne : (0 : UInt8) ≠ 1 := by decide
    have hnone := heapBytes_ne (fun _ => hne) hpad
    have hnone' := heapBytes_ne (fun _ => hne) hpad'
    omega
  · rintro ⟨hsel, hpayload⟩ heap heap'
    simp only [hsel, hpayload, Nat.sub_self]
    rfl

/-- With three bytes of payload, the last byte of the datagram is one of the heap. -/
theorem heap_byte_sent :
    ∃ heap heap' : Heap,
      (intoEncoded plainCodec ⟨0, 8, 5⟩ (withObjects []) heap).iovData.getLast? = some 0 ∧
      (intoEncoded plainCodec ⟨0, 8, 5⟩ (withObjects []) heap').iovData.getLast? = some 1 ∧
      ¬ ∀ heap heap' : Heap, (intoEncoded plainCodec ⟨0, 8, 5⟩ (withObjects []) heap).iovData =
        (intoEncoded plainCodec ⟨0, 8, 5⟩ (withObjects []) heap').iovData := by
  have hzero : (intoEncoded plainCodec ⟨0, 8, 5⟩ (withObjects []) zeroHeap).iovData.getLast? = some 0 := by
    decide
  have hone : (intoEncoded plainCodec ⟨0, 8, 5⟩ (withObjects [])
      ⟨fun _ => 1, fun _ => 0⟩).iovData.getLast? = some 1 := by
    decide
  refine ⟨zeroHeap, ⟨fun _ => 1, fun _ => 0⟩, hzero, hone, fun h => ?_⟩
  rw [h zeroHeap ⟨fun _ => 1, fun _ => 0⟩, hone] at hzero
  cases hzero

end Ipmb.Padding
