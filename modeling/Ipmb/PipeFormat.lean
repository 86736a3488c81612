import Ipmb.RoundTrip
import Ipmb.Windows

namespace Ipmb.Windows

open Messages Bytes Buffers Faults
open Encoding (Codec Span versionBytes heapBytes heapBytes_add length_heapBytes)
open Decoding (Fault)

/-- A message on the pipe: the version, the number of its objects, their slots, then the
selector and the payload with their padding. -/
def layout (version : Version) (count : Nat) (slots selectorBytes pad payload pad' : List UInt8) :
    List UInt8 :=
  versionBytes version ++ leBytes 4 count ++ slots ++ leBytes 4 selectorBytes.length ++ selectorBytes ++
    pad ++ leBytes 4 payload.length ++ payload ++ pad'

def handleBytes (handles : List Handle) : List UInt8 := handles.flatMap fun h => leBytes 8 h.toNat

@[simp] theorem length_handleBytes (handles : List Handle) :
    (handleBytes handles).length = 8 * handles.length := by
  induction handles with
  | nil => rfl
  | cons h handles ih =>
    rw [handleBytes, List.flatMap_cons, List.length_append, length_leBytes, List.length_cons, ← handleBytes,
      ih]
    omega

theorem length_versionBytes (version : Version) : (versionBytes version).length = 4 := rfl

theorem length_layout (version : Version) (count : Nat) (slots sel pad payload pad' : List UInt8) :
    (layout version count slots sel pad payload pad').length =
      16 + slots.length + (sel.length + pad.length) + (payload.length + pad'.length) := by
  simp only [layout, List.length_append, length_leBytes, length_versionBytes]
  omega

/-- Writing where the heap begins. -/
theorem writeAt_heapBytes (pre data : List UInt8) (heap : Nat → UInt8) (start m : Nat) {off : Nat}
    (ho : pre.length = off) :
    writeAt (pre ++ heapBytes heap start (data.length + m)) off data =
      pre ++ data ++ heapBytes heap (start + data.length) m := by
  rw [writeAt_append _ _ _ ho, heapBytes_add, List.drop_left' (length_heapBytes _ _ _)]

def EncodedMessage.attachments (msg : EncodedMessage) : List Handle :=
  msg.objects ++ msg.memoryRegions.map MemoryRegion.obj

theorem EncodedMessage.length_attachments (msg : EncodedMessage) :
    msg.attachments.length = msg.objects.length + msg.memoryRegions.length := by
  rw [attachments, List.length_append, List.length_map]

def Message.attachments (msg : Message) : List Handle :=
  msg.objects ++ msg.memoryRegions.map MemoryRegion.obj

/-- The bytes that `payload_data` points to. -/
def EncodedMessage.payload (msg : EncodedMessage) : List UInt8 :=
  (readAt msg.pipeMsg msg.payloadData.start msg.payloadData.len).getD []

/-- The buffer once `send_helper` has put these handles in its slots. -/
def filled (msg : EncodedMessage) (handles : List Handle) : EncodedMessage :=
  { msg with pipeMsg := writeHandles msg.pipeMsg 8 handles }

/-- What `WriteFile` is given. -/
def written (msg : EncodedMessage) (handles : List Handle) : List UInt8 :=
  (filled msg handles).pipeMsg.take msg.msgSize

/-- Where every handle can be duplicated, `send_helper` writes what is written handle by handle below. -/
theorem sendHelper_eq_written (toRemote : Handle → Handle) (msg : EncodedMessage) :
    sendHelper toRemote msg = written msg (msg.attachments.map toRemote) := rfl

/-- The objects that `new` owns when it gives the message up; the magic number is
compared before they are read. -/
def readObjects (pipeMsg : List UInt8) : List Handle :=
  match readAt pipeMsg 0 4 with
  | some (magic :: _) =>
    if magic ≠ 0xFF then []
    else
      match (readWord pipeMsg 4 4).bind (readHandles pipeMsg 8) with
      | .ok objects => objects
      | .error _ => []
  | _ => []

/-- The fields of a message are what its buffer says, but for the slots of the objects. -/
structure Shaped (codec : Codec) (version : Version) (payload : List UInt8) (msg : EncodedMessage) :
    Prop where
  buffer : ∃ slots sel pad pad', slots.length = 8 * msg.attachments.length ∧
    sel.length + pad.length = align4 sel.length ∧ codec.decode sel = some msg.selector ∧
    msg.payloadData = ⟨16 + slots.length + align4 sel.length, payload.length⟩ ∧
    msg.pipeMsg = layout version msg.attachments.length slots sel pad payload pad'
  size : msg.msgSize = msg.pipeMsg.length
  regions : msg.selector.memoryRegionCount.toNat = msg.memoryRegions.length
  small : msg.pipeMsg.length < 2 ^ 32

theorem encodeInner_layout (codec : Codec) (version : Version) (msg : Message) (heap : Nat → UInt8) :
    ∃ slots pad pad', slots.length = 8 * msg.attachments.length ∧
      (codec.encode msg.selector).length + pad.length = align4 (codec.encode msg.selector).length ∧
      encodeInner codec version msg heap =
        (⟨16 + slots.length + align4 (codec.encode msg.selector).length, msg.payload.length⟩,
          layout version msg.attachments.length slots (codec.encode msg.selector) pad msg.payload pad',
          (layout version msg.attachments.length slots (codec.encode msg.selector) pad msg.payload
            pad').length) := by
  generalize hs : codec.encode msg.selector = sel
  have hcount : msg.objects.length + msg.memoryRegions.length = msg.attachments.length := by
    simp [Message.attachments]
  obtain ⟨selPad, hselPad⟩ := Nat.le.dest (le_align4 sel.length)
  obtain ⟨payPad, hpayPad⟩ := Nat.le.dest (le_align4 msg.payload.length)
  simp only [encodeInner, hs, hcount]
  generalize hn : msg.attachments.length = count
  rw [← hselPad, ← hpayPad]
  have hsize : 4 + 4 + count * 8 + 4 + (sel.length + selPad) + 4 + (msg.payload.length + payPad) =
      (versionBytes version).length + ((leBytes 4 count).length + (8 * count +
        ((leBytes 4 sel.length).length + (sel.length + (selPad +
          ((leBytes 4 msg.payload.length).length + (msg.payload.length + payPad))))))) := by
    simp only [length_leBytes, length_versionBytes]
    omega
  -- each write extends the part that is already known, up to the next gap
  rw [hsize, List.range_eq_range', ← heapBytes, ← List.nil_append (heapBytes heap 0 _),
    writeAt_heapBytes [] (versionBytes version) heap _ _ (by rfl),
    writeAt_heapBytes _ (leBytes 4 count) heap _ _ (by rfl), heapBytes_add heap _ (8 * count),
      ← List.append_assoc,
    writeAt_heapBytes _ (leBytes 4 sel.length) heap _ _, writeAt_heapBytes _ sel heap _ _,
    heapBytes_add heap _ selPad, ← List.append_assoc,
    writeAt_heapBytes _ (leBytes 4 msg.payload.length) heap _ _, writeAt_heapBytes _ msg.payload heap _ _]
  · refine ⟨_, _, _, ?_, ?_, Prod.ext ?_ (Prod.ext rfl ?_)⟩
    · exact length_heapBytes _ _ _
    · rw [length_heapBytes]
    · simp only [length_heapBytes, Span.mk.injEq, and_true]
      omega
    · rw [length_layout]
      simp only [length_heapBytes, length_leBytes, length_versionBytes]
      omega
  all_goals
    simp only [List.length_append, length_heapBytes, length_leBytes, length_versionBytes, List.length_nil]
    omega

theorem readWord_append (pre post : List UInt8) (k n : Nat) {ptr : Nat} (ho : pre.length = ptr)
    (hn : n < 256 ^ k) : readWord (pre ++ leBytes k n ++ post) ptr k = .ok n := by
  rw [readWord, readAt_append pre _ post ptr k ho (length_leBytes k n)]
  simp only [leValue_leBytes, Nat.mod_eq_of_lt hn]

theorem readHandles_append (pre post : List UInt8) (handles : List Handle) (ptr : Nat)
    (ho : pre.length = ptr) :
    readHandles (pre ++ handleBytes handles ++ post) ptr handles.length = .ok handles := by
  induction handles generalizing pre ptr with
  | nil => rfl
  | cons h handles ih =>
    have hcut : pre ++ handleBytes (h :: handles) ++ post =
        pre ++ leBytes 8 h.toNat ++ (handleBytes handles ++ post) := by
      simp only [handleBytes, List.flatMap_cons, List.append_assoc]
    have hrest := ih (pre ++ leBytes 8 h.toNat) (ptr + 8)
      (by rw [List.length_append, ho, length_leBytes])
    rw [List.append_assoc _ (handleBytes handles)] at hrest
    rw [List.length_cons, readHandles, hcut, readWord_append pre _ 8 _ ho h.isLt, Except.bind, hrest,
      Except.map, BitVec.ofNat_toNat, BitVec.setWidth_eq]

theorem writeHandles_append (pre slots post : List UInt8) (handles : List Handle) (ptr : Nat)
    (ho : pre.length = ptr) (hroom : 8 * handles.length ≤ slots.length) :
    writeHandles (pre ++ slots ++ post) ptr handles =
      pre ++ (handleBytes handles ++ slots.drop (8 * handles.length)) ++ post := by
  induction handles generalizing pre slots ptr with
  | nil => rfl
  | cons h handles ih =>
    rw [List.length_cons] at hroom
    have hwrite : writeAt (pre ++ slots ++ post) ptr (leBytes 8 h.toNat) =
        pre ++ leBytes 8 h.toNat ++ slots.drop 8 ++ post := by
      rw [List.append_assoc, writeAt_append _ _ _ ho, length_leBytes,
        List.drop_append_of_le_length (by omega), List.append_assoc _ _ post]
    rw [writeHandles, hwrite, ih _ (slots.drop 8) (ptr + 8)
      (by rw [List.length_append, ho, length_leBytes])
      (by rw [List.length_drop]; omega), List.drop_drop, List.length_cons, Nat.mul_succ, Nat.add_comm _ 8]
    simp only [handleBytes, List.flatMap_cons, List.append_assoc]

section Shape

variable {codec : Codec} {version ours : Version} {payload : List UInt8} {msg : EncodedMessage}

theorem intoEncoded_shaped {msg : Message} (heap : Nat → UInt8)
    (hdec : codec.decode (codec.encode msg.selector) = some msg.selector)
    (hcount : msg.selector.memoryRegionCount.toNat = msg.memoryRegions.length)
    (hlt : (intoEncoded codec version msg heap).msgSize < 2 ^ 32) :
    Shaped codec version msg.payload (intoEncoded codec version msg heap) := by
  obtain ⟨slots, pad, pad', hslots, hpad, heq⟩ := encodeInner_layout codec version msg heap
  simp only [intoEncoded, heq] at hlt ⊢
  exact ⟨⟨slots, _, pad, pad', hslots, hpad, hdec, rfl, rfl⟩, rfl, hcount, hlt⟩

/-- The handles replace the first slots. -/
theorem Shaped.fill_layout (h : Shaped codec version payload msg) {handles : List Handle}
    (hlen : handles.length ≤ msg.attachments.length) :
    ∃ slots sel pad pad', slots.length = 8 * (msg.attachments.length - handles.length) ∧
      sel.length + pad.length = align4 sel.length ∧ codec.decode sel = some msg.selector ∧
      msg.payloadData = ⟨16 + 8 * msg.attachments.length + align4 sel.length, payload.length⟩ ∧
      (filled msg handles).pipeMsg = layout version msg.attachments.length (handleBytes handles ++ slots) sel
        pad payload pad' ∧
      (filled msg handles).pipeMsg.length = msg.pipeMsg.length := by
  obtain ⟨slots, sel, pad, pad', hslots, hpad, hdec, hspan, hmsg⟩ := h.buffer
  have hwrite := writeHandles_append (versionBytes version ++ leBytes 4 msg.attachments.length) slots
    (leBytes 4 sel.length ++ (sel ++ (pad ++ (leBytes 4 payload.length ++ (payload ++ pad'))))) handles
    8 rfl (by omega)
  have hbuf : writeHandles msg.pipeMsg 8 handles = layout version msg.attachments.length
      (handleBytes handles ++ slots.drop (8 * handles.length)) sel pad payload pad' := by
    rw [hmsg]
    simp only [layout, List.append_assoc] at hwrite ⊢
    exact hwrite
  refine ⟨slots.drop (8 * handles.length), sel, pad, pad', ?_, hpad, hdec, hslots ▸ hspan, hbuf, ?_⟩
  · rw [List.length_drop]
    omega
  · rw [filled, hbuf, hmsg, length_layout, length_layout, List.length_append, length_handleBytes,
      List.length_drop]
    omega

theorem Shaped.fill (h : Shaped codec version payload msg) {handles : List Handle}
    (hlen : handles.length ≤ msg.attachments.length) :
    Shaped codec version payload (filled msg handles) := by
  obtain ⟨slots, sel, pad, pad', hslots, hpad, hdec, hspan, hbuf, hsame⟩ := h.fill_layout hlen
  have hroom : (handleBytes handles ++ slots).length = 8 * msg.attachments.length := by
    rw [List.length_append, length_handleBytes]
    omega
  refine ⟨⟨_, sel, pad, pad', hroom, hpad, hdec, ?_, hbuf⟩, ?_, h.regions, ?_⟩
  · rw [hroom]
    exact hspan
  · exact h.size.trans hsame.symm
  · exact hsame ▸ h.small

/-- What the reader of the pipe makes of a message that carries these handles. -/
def received (msg : EncodedMessage) (handles : List Handle) : EncodedMessage :=
  { filled msg handles with
    objects := handles.take msg.objects.length
    memoryRegions := (handles.drop msg.objects.length).zipWith (fun h r => ⟨h, r.bufferSize⟩)
      msg.memoryRegions }

/-- The headers of the regions among these handles say what the message says. -/
def Mapped (mapHeader : Handle → Option UInt64) (msg : EncodedMessage) (handles : List Handle) : Prop :=
  ∀ x ∈ (handles.drop msg.objects.length).zip msg.memoryRegions, mapHeader x.1 = some x.2.bufferSize

theorem received_attachments {handles : List Handle} (hlen : handles.length = msg.attachments.length) :
    (received msg handles).attachments = handles := by
  have hrest : (handles.drop msg.objects.length).length = msg.memoryRegions.length := by
    rw [List.length_drop, hlen, EncodedMessage.length_attachments]
    omega
  rw [EncodedMessage.attachments, received, List.map_zipWith]
  have hfirst : (handles.drop msg.objects.length).zipWith (fun h _ => h) msg.memoryRegions =
      handles.drop msg.objects.length := by
    rw [← List.map_uncurry_zip_eq_zipWith]
    exact List.map_fst_zip hrest.le
  rw [hfirst, List.take_append_drop]

theorem length_received_regions {handles : List Handle} (hlen : handles.length = msg.attachments.length) :
    (received msg handles).memoryRegions.length = msg.memoryRegions.length := by
  rw [received, List.length_zipWith, List.length_drop, hlen, EncodedMessage.length_attachments]
  omega

theorem Shaped.receive (h : Shaped codec version payload msg) {handles : List Handle}
    (hlen : handles.length = msg.attachments.length) :
    Shaped codec version payload (received msg handles) := by
  have hfilled := h.fill hlen.le
  have hcount : (received msg handles).attachments.length = (filled msg handles).attachments.length := by
    rw [received_attachments hlen, hlen]
    rfl
  refine ⟨?_, hfilled.size, ?_, hfilled.small⟩
  · rw [hcount]
    exact hfilled.buffer
  · rw [length_received_regions hlen]
    exact h.regions

/-- The bytes that are written, with the handles in their slots. -/
theorem Shaped.written_layout (h : Shaped codec version payload msg) {handles : List Handle}
    (hlen : handles.length = msg.attachments.length) :
    ∃ sel pad pad', sel.length + pad.length = align4 sel.length ∧ codec.decode sel = some msg.selector ∧
      msg.payloadData = ⟨16 + 8 * handles.length + align4 sel.length, payload.length⟩ ∧
      (filled msg handles).pipeMsg = layout version handles.length (handleBytes handles) sel pad payload pad' ∧
      written msg handles = (filled msg handles).pipeMsg := by
  obtain ⟨slots, sel, pad, pad', hslots, hpad, hdec, hspan, hbuf, hsame⟩ := h.fill_layout hlen.le
  obtain rfl : slots = [] := List.eq_nil_of_length_eq_zero (by omega)
  rw [List.append_nil, ← hlen] at hbuf
  refine ⟨sel, pad, pad', hpad, hdec, hlen ▸ hspan, hbuf, ?_⟩
  rw [written, h.size, ← hsame, List.take_length]

/-- What a process with another version reads, before it gives the message up. -/
theorem Shaped.read_header (h : Shaped codec version payload msg) {handles : List Handle}
    (hlen : handles.length = msg.attachments.length) :
    readAt (written msg handles) 0 4 = some (versionBytes version) ∧
      readWord (written msg handles) 4 4 = .ok handles.length ∧
      readHandles (written msg handles) 8 handles.length = .ok handles := by
  obtain ⟨sel, pad, pad', -, -, -, hbuf, hwritten⟩ := h.written_layout hlen
  have hsmall := (h.fill hlen.le).small
  rw [hbuf, length_layout, length_handleBytes] at hsmall
  rw [hwritten, hbuf]
  simp only [layout, List.append_assoc]
  refine ⟨readAt_append [] _ _ 0 4 rfl rfl, ?_, ?_⟩
  · rw [← List.append_assoc]
    exact readWord_append _ _ 4 _ rfl (by omega)
  · have hread := readHandles_append (versionBytes version ++ leBytes 4 handles.length)
      (leBytes 4 sel.length ++ (sel ++ (pad ++ (leBytes 4 payload.length ++ (payload ++ pad'))))) handles
      8 rfl
    simp only [List.append_assoc] at hread
    exact hread

theorem mapM_fromObject {mapHeader : Handle → Option UInt64} {handles : List Handle}
    {regions : List MemoryRegion} (hlen : handles.length = regions.length)
    (hmap : ∀ x ∈ handles.zip regions, mapHeader x.1 = some x.2.bufferSize) :
    handles.mapM (fromObject mapHeader) = .ok (handles.zipWith (fun h r => ⟨h, r.bufferSize⟩) regions) := by
  induction handles generalizing regions with
  | nil => rfl
  | cons h handles ih =>
    obtain _ | ⟨r, regions⟩ := regions
    · cases hlen
    · have hr : mapHeader h = some r.bufferSize := hmap (h, r) (by simp)
      have hrest := ih (Nat.succ.inj hlen) fun x hx => hmap x (by
        rw [List.zip_cons_cons]
        exact List.mem_cons_of_mem _ hx)
      rw [List.mapM_cons, fromObject, hr, hrest]
      rfl

/-- The fields behind the objects. -/
theorem Shaped.read_fields (h : Shaped codec version payload msg) {handles : List Handle}
    (hlen : handles.length = msg.attachments.length) :
    ∃ sel, codec.decode sel = some msg.selector ∧
      msg.payloadData = ⟨8 + handles.length * 8 + 4 + align4 sel.length + 4, payload.length⟩ ∧
      8 + handles.length * 8 + 4 + align4 sel.length + 4 + payload.length ≤ (written msg handles).length ∧
      readWord (written msg handles) (8 + handles.length * 8) 4 = .ok sel.length ∧
      readAt (written msg handles) (8 + handles.length * 8 + 4) sel.length = some sel ∧
      readWord (written msg handles) (8 + handles.length * 8 + 4 + align4 sel.length) 4 = .ok payload.length ∧
      readAt (written msg handles) (8 + handles.length * 8 + 4 + align4 sel.length + 4) payload.length =
        some payload := by
  obtain ⟨sel, pad, pad', hpad, hdec, hspan, hbuf, hwritten⟩ := h.written_layout hlen
  have hsmall := (h.fill hlen.le).small
  rw [hbuf, length_layout, length_handleBytes] at hsmall
  have hfront : (versionBytes version ++ (leBytes 4 handles.length ++ handleBytes handles)).length =
      8 + handles.length * 8 := by
    simp only [List.length_append, length_leBytes, length_versionBytes, length_handleBytes]
    omega
  have hsel : (versionBytes version ++ (leBytes 4 handles.length ++ (handleBytes handles ++
      leBytes 4 sel.length))).length = 8 + handles.length * 8 + 4 := by
    simp only [List.length_append, length_leBytes, length_versionBytes, length_handleBytes]
    omega
  have hpaySize : (versionBytes version ++ (leBytes 4 handles.length ++ (handleBytes handles ++
      (leBytes 4 sel.length ++ (sel ++ pad))))).length = 8 + handles.length * 8 + 4 + align4 sel.length := by
    simp only [List.length_append, length_leBytes, length_versionBytes, length_handleBytes]
    omega
  have hpay : (versionBytes version ++ (leBytes 4 handles.length ++ (handleBytes handles ++
      (leBytes 4 sel.length ++ (sel ++ (pad ++ leBytes 4 payload.length)))))).length =
      8 + handles.length * 8 + 4 + align4 sel.length + 4 := by
    simp only [List.length_append, length_leBytes, length_versionBytes, length_handleBytes]
    omega
  have hselSize := readWord_append _ (sel ++ (pad ++ (leBytes 4 payload.length ++ (payload ++ pad')))) 4
    sel.length hfront (by omega)
  have hselBytes := readAt_append _ sel (pad ++ (leBytes 4 payload.length ++ (payload ++ pad'))) _ _ hsel rfl
  have hword := readWord_append _ (payload ++ pad') 4 payload.length hpaySize (by omega)
  have hbytes := readAt_append _ payload pad' _ _ hpay rfl
  refine ⟨sel, hdec, ?_, ?_, ?_, ?_, ?_, ?_⟩
  · rw [hspan, Span.mk.injEq]
    exact ⟨by omega, rfl⟩
  · rw [hwritten, hbuf, length_layout, length_handleBytes]
    omega
  all_goals
    rw [hwritten, hbuf]
    simp only [layout, List.append_assoc] at hselSize hselBytes hword hbytes ⊢
    assumption

/-- Whatever a message has gone through, its reader finds what its sender has put there. -/
theorem Shaped.new_written (h : Shaped codec version payload msg) {mapHeader : Handle → Option UInt64}
    {handles : List Handle} (hlen : handles.length = msg.attachments.length)
    (hv : ours.compatible version = true) (hmap : Mapped mapHeader msg handles) :
    new mapHeader codec ours (written msg handles) = .ok (received msg handles) := by
  obtain ⟨hversion, hcount, hhandles⟩ := h.read_header hlen
  obtain ⟨sel, hdec, hspan, hfits, hselSize, hsel, hpaySize, -⟩ := h.read_fields hlen
  obtain ⟨-, -, -, -, -, -, -, hwritten⟩ := h.written_layout hlen
  have hfill := h.fill hlen.le
  have hregions := h.regions
  have hlen' := hlen.trans msg.length_attachments
  have hsmall : (written msg handles).length < 2 ^ 32 := hwritten ▸ hfill.small
  have hobjects : handles.length - msg.selector.memoryRegionCount.toNat = msg.objects.length := by omega
  have hcut : (handles.drop msg.objects.length).length = msg.memoryRegions.length := by
    rw [List.length_drop]
    omega
  have hmapM := mapM_fromObject hcut hmap
  rw [new, hversion]
  simp only [versionBytes, ne_eq, not_true_eq_false, if_false]
  rw [hcount, Except.bind, hhandles, Except.bind, hv]
  simp only [Bool.not_true, Bool.false_eq_true, if_false, parseData]
  rw [hselSize, Except.bind, hsel]
  simp only [hdec]
  rw [if_neg (by omega), hobjects, hmapM, Except.bind, align4U32_eq_some (by omega)]
  simp only []
  rw [hpaySize, Except.bind, if_pos hfits, ← hspan]
  have hsize : (written msg handles).length = msg.msgSize := by rw [hwritten, ← hfill.size]; rfl
  rw [received, hsize, hwritten]
  rfl

theorem Shaped.readObjects_written (h : Shaped codec version payload msg) {handles : List Handle}
    (hlen : handles.length = msg.attachments.length) : readObjects (written msg handles) = handles := by
  obtain ⟨hversion, hcount, hhandles⟩ := h.read_header hlen
  rw [readObjects, hversion]
  simp only [versionBytes, ne_eq, not_true_eq_false, if_false]
  rw [hcount, Except.bind, hhandles]

theorem Shaped.new_incompatible (h : Shaped codec version payload msg)
    (mapHeader : Handle → Option UInt64) {handles : List Handle}
    (hlen : handles.length = msg.attachments.length) (hv : ours.compatible version = false) :
    new mapHeader codec ours (written msg handles) =
      .error (.error (.versionMismatch version none)) := by
  obtain ⟨hversion, hcount, hhandles⟩ := h.read_header hlen
  rw [new, hversion]
  simp only [versionBytes, ne_eq, not_true_eq_false, if_false]
  rw [hcount, Except.bind, hhandles, Except.bind, hv]
  rfl

/-- The payload is where the message says. -/
theorem Shaped.payload_eq (h : Shaped codec version payload msg) : msg.payload = payload := by
  obtain ⟨slots, sel, pad, pad', hslots, hpad, -, hspan, hmsg⟩ := h.buffer
  have hread := readAt_append (versionBytes version ++ leBytes 4 msg.attachments.length ++ slots ++
    leBytes 4 sel.length ++ sel ++ pad ++ leBytes 4 payload.length) payload pad'
    (16 + slots.length + align4 sel.length) payload.length (by
      simp only [List.length_append, length_leBytes, length_versionBytes]
      omega) rfl
  rw [EncodedMessage.payload, hspan, hmsg]
  simp only [layout, hread, Option.getD_some]

end Shape

end Ipmb.Windows
