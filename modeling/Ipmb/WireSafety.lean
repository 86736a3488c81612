import Ipmb.Reception
import Ipmb.Reference

namespace Ipmb.WireSafety

open Messages Bytes Buffers Encoding Faults Decoding Reception Reference

/-- The word at an address, which must lie inside the buffer to be read. -/
def wordAt (buf : List UInt8) (ptr : Nat) : Nat := leValue ((buf.drop ptr).take 4)

theorem wordAt_lt (buf : List UInt8) (ptr : Nat) : wordAt buf ptr < 2 ^ 32 := by
  apply Nat.lt_of_lt_of_le (leValue_lt _)
  have hlen : ((buf.drop ptr).take 4).length ≤ 4 := List.length_take_le _ _
  exact Nat.pow_le_pow_right (by decide) hlen

/-- The buffer starts with the magic number and a version compatible with ours. -/
def Accepts (version : Version) (iovData : List UInt8) : Prop :=
  ∃ major minor patch, iovData.take 4 = [0xFF, major, minor, patch] ∧
    version.compatible ⟨major, minor, patch⟩ = true

/-- The sizes in the datagram agree with its length and with what came along. -/
def WellSized (k : Kernel) (codec : Codec) (version : Version) (heap : Heap) (d : Datagram) : Prop :=
  0 < d.bytes.length → d.bytes.length < 2 ^ 32 → d.fds.length ≤ 4 →
    Accepts version (receivedIov heap d) →
    8 + wordAt (receivedIov heap d) 4 ≤ (receivedIov heap d).length ∧
    ∀ selector, codec.decode (((receivedIov heap d).drop 8).take (wordAt (receivedIov heap d) 4)) =
        some selector →
      selector.memoryRegionCount.toNat ≤ d.fds.length ∧
      (∀ fd ∈ d.fds.drop (d.fds.length - selector.memoryRegionCount.toNat), k.mapHeader fd ≠ none) ∧
      12 + align4 (wordAt (receivedIov heap d) 4) +
        wordAt (receivedIov heap d) (8 + align4 (wordAt (receivedIov heap d) 4)) ≤ d.bytes.length

/-- No access is outside its buffer, no arithmetic panics, and the selector and the
payload of a message that is returned lie inside the `r` received bytes. -/
def Safe (r : Nat) : Parse EncodedMessage → Prop :=
  Settles fun msg => 8 + wordAt msg.iovData 4 ≤ r ∧ msg.payloadData.start + msg.payloadData.len ≤ r

theorem settles_readWord (P : Nat → Prop) (buf : List UInt8) (ptr : Nat) :
    Settles P (readWord buf ptr 4) ↔ ptr + 4 ≤ buf.length ∧ P (wordAt buf ptr) := by
  rw [readWord]
  by_cases h : ptr + 4 ≤ buf.length
  · rw [readAt_eq_some h]
    simp only [settles_ok, h, true_and, wordAt]
  · rw [readAt_eq_none.mpr (by omega)]
    simp only [settles_fault, h, false_and]

theorem settles_readVersion (P : Prop) (version : Version) {iovData : List UInt8}
    (h : 4 ≤ iovData.length) :
    Settles (fun _ => P) (readVersion version iovData) ↔ (Accepts version iovData → P) := by
  rw [readVersion, Accepts]
  rw [readAt_eq_some (by omega), List.drop_zero]
  match hb : iovData.take 4, (by rw [List.length_take]; omega : (iovData.take 4).length = 4) with
  | [magic, major, minor, patch], _ =>
    by_cases hm : magic = 0xFF
    · by_cases hv : version.compatible ⟨major, minor, patch⟩ = true
      · simp [hm, hv]
      · simp [hm, hv]
    · simp [hm]

theorem settles_readSelector (P : Nat × Selector → Prop) (codec : Codec) (iovData : List UInt8) :
    Settles P (readSelector codec iovData) ↔ 8 + wordAt iovData 4 ≤ iovData.length ∧
      ∀ selector, codec.decode ((iovData.drop 8).take (wordAt iovData 4)) = some selector →
        P (wordAt iovData 4, selector) := by
  rw [readSelector, settles_bind, settles_readWord]
  by_cases h : 8 + wordAt iovData 4 ≤ iovData.length
  · have hword : 4 + 4 ≤ iovData.length := by omega
    rw [readAt_eq_some h]
    cases hd : codec.decode ((iovData.drop 8).take (wordAt iovData 4)) with
    | none => simp [h, hword, hd]
    | some selector => simp [h, hword, hd]
  · rw [readAt_eq_none.mpr (by omega)]
    simp [h]

theorem settles_splitObjects (P : Prop) (k : Kernel) (objects : List RawFd) (count : Nat) :
    Settles (fun _ => P) (splitObjects k objects count) ↔ count ≤ objects.length ∧
      (∀ obj ∈ objects.drop (objects.length - count), k.mapHeader obj ≠ none) ∧ P := by
  rw [splitObjects]
  by_cases h : objects.length < count
  · simp [h]
  · rw [if_neg h, settles_map]
    have hle : count ≤ objects.length := by omega
    by_cases hmap : ∀ obj ∈ objects.drop (objects.length - count), k.mapHeader obj ≠ none
    · have hok := mapM_eq_ok (F := Fault) (E := Error RawFd) (f := fromObject k)
        (g := fun obj => ⟨obj, (k.mapHeader obj).getD 0⟩) (objects.drop (objects.length - count))
        (by
          intro obj hobj
          obtain ⟨size, hsize⟩ := Option.ne_none_iff_exists'.mp (hmap obj hobj)
          simp [fromObject, hsize])
      rw [hok]
      simp only [settles_ok, hle, true_and]
      exact ⟨fun hp => ⟨hmap, hp⟩, fun hp => hp.2⟩
    · obtain ⟨obj, hbad⟩ := not_forall.mp hmap
      obtain ⟨hobj, hnone⟩ := Classical.not_imp.mp hbad
      rw [not_not] at hnone
      have hfault := mapM_eq_fault (E := Error RawFd) (f := fromObject k) (x := Fault.mapping)
        (objects.drop (objects.length - count))
        (by
          intro obj _
          rw [fromObject]
          cases k.mapHeader obj <;> simp)
        hobj (by simp [fromObject, hnone])
      rw [hfault]
      simp [hmap]

theorem settles_readPayload (P : Span → Prop) (iovData : List UInt8) {selectorSize : Nat}
    (hs : selectorSize < 2 ^ 32) :
    Settles P (readPayload iovData selectorSize) ↔ align4 selectorSize < 2 ^ 32 ∧
      12 + align4 selectorSize + wordAt iovData (8 + align4 selectorSize) ≤ iovData.length ∧
      P ⟨12 + align4 selectorSize, wordAt iovData (8 + align4 selectorSize)⟩ := by
  rw [readPayload]
  by_cases h : align4 selectorSize < 2 ^ 32
  · rw [align4U32_eq_some h]
    have hptr : 8 + align4 selectorSize + 4 = 12 + align4 selectorSize := by omega
    simp only [settles_bind, settles_readWord, hptr, h, true_and]
    by_cases hin : 12 + align4 selectorSize + wordAt iovData (8 + align4 selectorSize) ≤
        iovData.length
    · simp only [hin, if_true, settles_ok, true_and]
      exact ⟨fun hp => hp.2, fun hp => ⟨by omega, hp⟩⟩
    · simp [hin]
  · rw [align4U32_eq_none (Nat.le_of_not_lt h) hs]
    simp only [settles_fault, h, false_and]

/-- Parsing a datagram is safe exactly when its sizes agree with each other. -/
theorem fromLocal_safe_iff {k : Kernel} (hk : k.Documented) (codec : Codec) (version : Version)
    (heap : Heap) (d : Datagram) :
    Safe d.bytes.length (fromLocal k codec version heap (some d)) ↔
      WellSized k codec version heap d := by
  rw [WellSized]
  by_cases hshape : 0 < d.bytes.length ∧ d.bytes.length < 2 ^ 32 ∧ d.fds.length ≤ 4
  · obtain ⟨hpos, hlt, hfds⟩ := hshape
    have hlen := length_receivedIov heap d
    have hle := le_align4 d.bytes.length
    have hfour := align4_mod d.bytes.length
    rw [fromLocal_parse hk codec version heap hpos hlt hfds]
    simp only [hpos, hlt, hfds, true_imp_iff]
    rw [Safe, parseData]
    rw [settles_bind, settles_readVersion _ _ (by omega)]
    have hpayload := fun P =>
      settles_readPayload P (receivedIov heap d) (wordAt_lt (receivedIov heap d) 4)
    simp only [settles_bind, settles_map, settles_readSelector, settles_splitObjects, hpayload]
    refine forall_congr' fun _ => and_congr_right fun hsel => forall₂_congr fun selector _ => ?_
    refine and_congr_right fun _ => and_congr_right fun _ => ?_
    have hss := le_align4 (wordAt (receivedIov heap d) 4)
    constructor
    · exact fun h => h.2.2.2
    · exact fun h => ⟨by omega, by omega, by omega, h⟩
  · rw [fromLocal_refused hk codec version heap (by omega)]
    simp only [Safe, settles_error, true_iff]
    intro h₁ h₂ h₃
    exact absurd ⟨h₁, h₂, h₃⟩ hshape

theorem fromLocal_safe_iff_plain :
    Safe 36 (fromLocal (reference fun _ => none) plainCodec ⟨0, 8, 5⟩ zeroHeap
        (some ⟨layout ⟨0, 8, 5⟩ (plainBytes 0) [] [0, 0, 0] [], []⟩)) ↔
      WellSized (reference fun _ => none) plainCodec ⟨0, 8, 5⟩ zeroHeap
        ⟨layout ⟨0, 8, 5⟩ (plainBytes 0) [] [0, 0, 0] [], []⟩ :=
  fromLocal_safe_iff (reference_documented _) plainCodec ⟨0, 8, 5⟩ zeroHeap
    ⟨layout ⟨0, 8, 5⟩ (plainBytes 0) [] [0, 0, 0] [], []⟩

/-- A datagram that consists of the version word only: the selector size is read from
behind the buffer. -/
theorem fromLocal_versionOnly :
    fromLocal (reference fun _ => none) plainCodec ⟨0, 8, 5⟩ zeroHeap (some ⟨[0xFF, 0, 8, 5], []⟩) =
        .error (.fault .outOfBounds) ∧
      ¬ Safe 4 (fromLocal (reference fun _ => none) plainCodec ⟨0, 8, 5⟩ zeroHeap
        (some ⟨[0xFF, 0, 8, 5], []⟩)) := by
  have h : fromLocal (reference fun _ => none) plainCodec ⟨0, 8, 5⟩ zeroHeap
      (some ⟨[0xFF, 0, 8, 5], []⟩) = .error (.fault .outOfBounds) := rfl
  rw [h]
  exact ⟨rfl, id⟩

end Ipmb.WireSafety
