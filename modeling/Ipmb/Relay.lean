import Ipmb.Attachments

namespace Ipmb.Relay

open Messages Bytes Buffers Encoding Faults Decoding Reception Reference RoundTrip Attachments

/-- Forwarding `got`, parsed from the datagram `d`, repeats the call of `sendmsg` that
brought it, and what an endpoint of a compatible version then parses agrees with it. -/
structure Transparent (k : Kernel) (codec : Codec) (version : Version) (d : Datagram)
    (got : EncodedMessage) : Prop where
  repeats : ∀ f, transmit k f got = some ⟨d.bytes, d.fds.map f⟩
  arrives : ∀ theirs heap f, theirs.compatible version = true →
    (∀ fd ∈ d.fds, k.mapHeader (f fd) = k.mapHeader fd) →
    ∃ copy, fromLocal k codec theirs heap (some ⟨d.bytes, d.fds.map f⟩) = .ok copy ∧
      copy.selector = got.selector ∧ copy.payload = got.payload ∧
      copy.objects = got.objects.map f ∧ copy.memoryRegions = got.memoryRegions.map (renumber f)

/-- Renumbering the descriptors renumbers the objects and the memory regions. -/
theorem splitObjects_map {k : Kernel} {f : RawFd → RawFd} {objects : List RawFd} {count : Nat}
    {attached : List RawFd × List MemoryRegion} (h : splitObjects k objects count = .ok attached)
    (hf : ∀ fd ∈ objects, k.mapHeader (f fd) = k.mapHeader fd) :
    splitObjects k (objects.map f) count =
      .ok (attached.1.map f, attached.2.map (renumber f)) := by
  rw [splitObjects] at h ⊢
  by_cases hlt : objects.length < count
  · rw [if_pos hlt] at h
    cases h
  · rw [if_neg hlt] at h
    rw [List.length_map, if_neg hlt, ← List.map_drop, ← List.map_take]
    cases hm : (objects.drop (objects.length - count)).mapM (fromObject k) with
    | error e =>
      rw [hm] at h
      cases h
    | ok regions =>
      rw [hm] at h
      cases h
      rw [mapM_map_of_ok (h := renumber f) hm]
      · rfl
      · intro fd hfd region hregion
        rw [fromObject] at hregion ⊢
        rw [hf fd (List.mem_of_mem_drop hfd)]
        cases hmap : k.mapHeader fd with
        | none =>
          rw [hmap] at hregion
          cases hregion
        | some size =>
          rw [hmap] at hregion
          cases hregion
          rfl

variable {k : Kernel} (hk : k.Documented) {codec : Codec} {version ours : Version} {msg : Message}

include hk

/-- A message that has been accepted, with all that is known of its parts. -/
theorem accepted_parts {heap heap' : Heap} {fds : List RawFd} {got : EncodedMessage}
    (hdec : codec.decode (codec.encode msg.selector) = some msg.selector)
    (hgot : fromLocal k codec ours heap' (some ⟨(encodeIov codec version msg heap.iov).2, fds⟩) =
      .ok got) :
    fds.length ≤ 4 ∧ ∃ attached,
      splitObjects k fds msg.selector.memoryRegionCount.toNat = .ok attached ∧
      got = ⟨msg.selector, (encodeIov codec version msg heap.iov).1,
        (encodeIov codec version msg heap.iov).2,
        receivedControl heap' ⟨(encodeIov codec version msg heap.iov).2, fds⟩,
        attached.1, attached.2⟩ := by
  obtain ⟨hpos, hlt, hfds⟩ := fromLocal_small hk hgot
  refine ⟨hfds, ?_⟩
  rw [fromLocal_parse (d := ⟨_, _⟩) hk codec ours heap' hpos hlt hfds, receivedIov_encodeIov] at hgot
  have hversion := encodeIov_version codec version ours msg heap
  by_cases hv : ours.compatible version = true
  · rw [if_pos hv] at hversion
    rw [(encodeIov_reads codec version msg heap hdec hlt).parseData hversion] at hgot
    cases hs : splitObjects k fds msg.selector.memoryRegionCount.toNat with
    | error e =>
      rw [hs] at hgot
      cases hgot
    | ok attached =>
      rw [hs] at hgot
      cases hgot
      exact ⟨attached, rfl, rfl⟩
  · rw [if_neg hv] at hversion
    simp only [parseData, hversion, Except.bind] at hgot
    cases hgot

/-- A relayed message is what it was exactly when it has attachments; without any, the
control area that is sent on was never written, and the kernel must happen to find no
descriptors in it. -/
theorem relay_transparent_iff {heap heap' : Heap} {fds : List RawFd} {got : EncodedMessage}
    (hdec : codec.decode (codec.encode msg.selector) = some msg.selector)
    (hlt : (intoEncoded codec version msg heap).iovData.length < 2 ^ 32)
    (hgot : fromLocal k codec ours heap'
      (some ⟨(intoEncoded codec version msg heap).iovData, fds⟩) = .ok got) :
    Transparent k codec version ⟨(intoEncoded codec version msg heap).iovData, fds⟩ got ↔
      fds ≠ [] ∨ k.attachments (allocBuffer 8 32 heap'.control) = some [] := by
  obtain ⟨hfds, attached, hsplit, rfl⟩ := accepted_parts hk hdec hgot
  have hreads := encodeIov_reads codec version msg heap hdec hlt
  constructor
  · intro h
    by_cases hnil : fds = []
    · have hread := h.repeats id
      simp only [transmit, receivedControl, hnil, if_true, Option.map_eq_some_iff,
        Datagram.mk.injEq, List.map_nil, List.map_id] at hread
      obtain ⟨found, hfound, -, rfl⟩ := hread
      exact Or.inr hfound
    · exact Or.inl hnil
  · intro h
    have hattachments : k.attachments
        (receivedControl heap' ⟨(encodeIov codec version msg heap.iov).2, fds⟩) = some fds := by
      by_cases hnil : fds = []
      · simp only [receivedControl, hnil, if_true]
        exact h.resolve_left (not_not.mpr hnil)
      · have hpos := List.length_pos_of_ne_nil hnil
        simp only [receivedControl, hnil, if_false]
        apply hk.attachments_record fds _ (show fds.length ≤ 253 by omega)
        rw [List.length_drop, length_allocBuffer_usize (by decide), cmsgLen_eq]
        omega
    refine ⟨?_, ?_⟩
    · intro f
      simp only [transmit, hattachments, Option.map_some, intoEncoded]
    · intro theirs heap'' f hv hf
      have hpos : 0 < (encodeIov codec version msg heap.iov).2.length := by
        rw [length_encodeIov]
        omega
      have hversion := encodeIov_version codec version theirs msg heap
      rw [if_pos hv] at hversion
      simp only [intoEncoded]
      rw [fromLocal_parse (d := ⟨_, fds.map f⟩) hk codec theirs heap'' hpos hlt (by simpa using hfds),
        receivedIov_encodeIov, hreads.parseData hversion, splitObjects_map hsplit hf]
      exact ⟨_, rfl, rfl, rfl, rfl, rfl⟩

omit hk

/-- Three bytes of payload and the given objects. -/
def withObjects (objects : List RawFd) : Message := ⟨plainSelector 0, [1, 2, 3], objects, []⟩

theorem relay_transparent_iff_object :
    ∃ got, fromLocal anyRegion plainCodec ⟨0, 8, 5⟩ zeroHeap
        (some ⟨(intoEncoded plainCodec ⟨0, 8, 5⟩ (withObjects [4]) zeroHeap).iovData, [9]⟩) = .ok got ∧
      (Transparent anyRegion plainCodec ⟨0, 8, 5⟩
        ⟨(intoEncoded plainCodec ⟨0, 8, 5⟩ (withObjects [4]) zeroHeap).iovData, [9]⟩ got ↔
        ([9] : List RawFd) ≠ [] ∨ anyRegion.attachments (allocBuffer 8 32 zeroHeap.control) = some []) := by
  obtain ⟨got, hgot⟩ : ∃ got, fromLocal anyRegion plainCodec ⟨0, 8, 5⟩ zeroHeap
    (some ⟨(intoEncoded plainCodec ⟨0, 8, 5⟩ (withObjects [4]) zeroHeap).iovData, [9]⟩) = .ok got :=
      ⟨_, rfl⟩
  refine ⟨got, hgot, relay_transparent_iff (reference_documented _) ?_ ?_ hgot⟩ <;> decide

/-- Without attachments the control area is sent on as the heap left it: all zero here,
which is no control record. -/
theorem relay_bare_rejected :
    ∃ got, fromLocal anyRegion plainCodec ⟨0, 8, 5⟩ zeroHeap
        (some ⟨(intoEncoded plainCodec ⟨0, 8, 5⟩ (withObjects []) zeroHeap).iovData, []⟩) = .ok got ∧
      transmit anyRegion id got = none ∧
      ¬ Transparent anyRegion plainCodec ⟨0, 8, 5⟩
        ⟨(intoEncoded plainCodec ⟨0, 8, 5⟩ (withObjects []) zeroHeap).iovData, []⟩ got := by
  refine ⟨_, rfl, rfl, ?_⟩
  intro h
  cases h.repeats id

end Ipmb.Relay
