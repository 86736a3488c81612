import Ipmb.RoundTrip

namespace Ipmb.Attachments

open Messages Bytes Buffers Encoding Faults Decoding Reception Reference RoundTrip

/-- `EndpointSender::send` first records the number of memory regions in the selector. -/
def counted (msg : Message) : Message :=
  { msg with selector :=
      { msg.selector with memoryRegionCount := UInt16.ofNat msg.memoryRegions.length } }

/-- The datagram a `sendmsg` of the message puts into the peer's queue, if the kernel
accepts it; `f` renumbers the descriptors for the peer. -/
def transmit (k : Kernel) (f : RawFd → RawFd) (msg : EncodedMessage) : Option Datagram :=
  (k.attachments msg.controlData).map fun fds => ⟨msg.iovData, fds.map f⟩

def renumber (f : RawFd → RawFd) (region : MemoryRegion) : MemoryRegion :=
  { region with obj := f region.obj }

theorem splitObjects_append {k : Kernel} {f : RawFd → RawFd} (objects : List RawFd)
    (regions : List MemoryRegion)
    (hmap : ∀ r ∈ regions, k.mapHeader (f r.obj) = some r.bufferSize) :
    splitObjects k (objects ++ regions.map (f ∘ MemoryRegion.obj)) regions.length =
      .ok (objects, regions.map (renumber f)) := by
  have hlen : (objects ++ regions.map (f ∘ MemoryRegion.obj)).length - regions.length =
      objects.length := by
    simp
  have hregions : (regions.map (f ∘ MemoryRegion.obj)).mapM (fromObject k) =
      .ok (regions.map (renumber f)) := by
    rw [List.mapM_map, mapM_eq_ok (g := renumber f) regions]
    intro r hr
    simp only [Function.comp_apply, fromObject, hmap r hr, renumber]
  rw [splitObjects]
  rw [if_neg (by simp), hlen, List.drop_left, List.take_left, hregions]
  rfl

theorem length_splitObjects {k : Kernel} {objects : List RawFd} {count : Nat}
    {attached : List RawFd × List MemoryRegion} (h : splitObjects k objects count = .ok attached) :
    attached.2.length = count := by
  rw [splitObjects] at h
  split at h
  · cases h
  · rename_i hle
    obtain ⟨regions, hregions, rfl⟩ := map_eq_ok.mp h
    rw [length_of_mapM hregions, List.length_drop]
    omega

variable {k : Kernel} (hk : k.Documented) {codec : Codec} {version ours : Version} {msg : Message}
  (heap heap' : Heap) {f : RawFd → RawFd}

include hk

/-- The kernel accepts what `encode_inner` writes, and reads all attachments from it. -/
theorem transmit_intoEncoded (hn : msg.attachments.length ≤ 253) :
    transmit k f (intoEncoded codec version msg heap) =
      some ⟨(intoEncoded codec version msg heap).iovData, msg.attachments.map f⟩ := by
  have hlt : 4 * msg.attachments.length < 2 ^ 32 := by omega
  obtain ⟨pad, hpad, hcontrol⟩ := encodeControl_eq hlt heap.control
  have hread := hk.attachments_record msg.attachments pad hn (by omega)
  rw [transmit]
  simp only [intoEncoded, hcontrol, hread, Option.map_some]

/-- The attachments of a message arrive, in order and split as they were, exactly when
there are at most as many as fit into the receiver's control area. -/
theorem attachments_survive_iff (hn : msg.objects.length + msg.memoryRegions.length ≤ 253)
    (hv : ours.compatible version = true)
    (hdec : codec.decode (codec.encode (counted msg).selector) = some (counted msg).selector)
    (hlt : (intoEncoded codec version (counted msg) heap).iovData.length < 2 ^ 32)
    (hmap : ∀ r ∈ msg.memoryRegions, k.mapHeader (f r.obj) = some r.bufferSize) :
    ∃ d, transmit k f (intoEncoded codec version (counted msg) heap) = some d ∧
      ((∃ got, fromLocal k codec ours heap' (some d) = .ok got ∧ got.objects = msg.objects.map f ∧
          got.memoryRegions = msg.memoryRegions.map (renumber f)) ↔
        msg.objects.length + msg.memoryRegions.length ≤ 4) := by
  have hlen : (counted msg).attachments.length = msg.objects.length + msg.memoryRegions.length := by
    simp [Message.attachments, counted]
  refine ⟨_, transmit_intoEncoded hk heap (by omega), ?_⟩
  constructor
  · rintro ⟨got, hgot, -⟩
    have hfds := (fromLocal_small hk hgot).2.2
    rwa [List.length_map, hlen] at hfds
  · intro hfew
    have hreads := encodeIov_reads codec version (counted msg) heap hdec hlt
    have hversion := encodeIov_version codec version ours (counted msg) heap
    rw [if_pos hv] at hversion
    have hcount : (counted msg).selector.memoryRegionCount.toNat = msg.memoryRegions.length := by
      simp only [counted, UInt16.toNat_ofNat']
      omega
    have hfds : (counted msg).attachments.map f =
        msg.objects.map f ++ msg.memoryRegions.map (f ∘ MemoryRegion.obj) := by
      simp [Message.attachments, counted]
    have hpos : 0 < (intoEncoded codec version (counted msg) heap).iovData.length := by
      have h := length_encodeIov codec version (counted msg) heap.iov
      simp only [intoEncoded]
      omega
    have hsplit := splitObjects_append (msg.objects.map f) msg.memoryRegions hmap
    rw [← hcount] at hsplit
    rw [fromLocal_parse (d := ⟨_, _⟩) hk codec ours heap' hpos hlt
        (by simp only [List.length_map]; omega),
      hfds]
    simp only [intoEncoded]
    rw [receivedIov_encodeIov, hreads.parseData hversion, hsplit]
    exact ⟨_, rfl, rfl, rfl⟩

omit hk

def anyRegion : Kernel := reference fun _ => some 64

theorem attachments_survive_iff_three :
    ∃ d, transmit anyRegion (· + 10) (intoEncoded plainCodec ⟨0, 8, 5⟩
        (counted ⟨plainSelector 0, [1], [3, 4], [⟨5, 64⟩]⟩) zeroHeap) = some d ∧
      ((∃ got, fromLocal anyRegion plainCodec ⟨0, 8, 5⟩ zeroHeap (some d) = .ok got ∧
          got.objects = [3, 4].map (· + 10) ∧
          got.memoryRegions = [⟨5, 64⟩].map (renumber (· + 10))) ↔ 2 + 1 ≤ 4) :=
  attachments_survive_iff (k := anyRegion) (reference_documented _) zeroHeap zeroHeap (by decide)
    (by decide) (by decide) (by decide) (by simp [anyRegion, reference])

/-- The kernel carries five objects, and the receiver drops the connection. -/
theorem five_objects_refused :
    ∃ d, transmit anyRegion id (intoEncoded plainCodec ⟨0, 8, 5⟩
        (counted ⟨plainSelector 0, [], [3, 4, 5, 6, 7], []⟩) zeroHeap) = some d ∧
      fromLocal anyRegion plainCodec ⟨0, 8, 5⟩ zeroHeap (some d) = .error (.error .disconnect) :=
  ⟨_, rfl, rfl⟩

end Ipmb.Attachments
