import Ipmb.Decoding
import Mathlib.Data.List.Induction

namespace Ipmb.RegionMap

open Messages Faults Decoding

/-- One end of a `RangeBounds<usize>`. -/
inductive Bound where
  | included (bound : UInt64)
  | excluded (bound : UInt64)
  | unbounded

abbrev Checked := Except (Stop Fault (Error Empty))

/-- `a + b` of type `usize`. -/
def add (a b : Nat) : Checked Nat :=
  if a + b < 2 ^ 64 then .ok (a + b) else .error (.fault .overflow)

/-- `a - b` of type `usize`. -/
def sub (a b : Nat) : Checked Nat :=
  if b ≤ a then .ok (a - b) else .error (.fault .underflow)

def startOffset : Bound → Checked Nat
  | .included bound => .ok bound.toNat
  | .excluded bound => add bound.toNat 1
  | .unbounded => .ok 0

def sizeFrom (offset : Nat) : Bound → Checked (Option Nat)
  | .included bound => (add bound.toNat 1).bind fun stop => (sub stop offset).map some
  | .excluded bound => (sub bound.toNat offset).map some
  | .unbounded => .ok none

def rangeToOffsetSize (start stop : Bound) : Checked (Nat × Option Nat) :=
  (startOffset start).bind fun offset => (sizeFrom offset stop).map fun size => (offset, size)

/-- A `&mut [u8]`. -/
structure Slice where
  ptr : Nat
  len : Nat

/-- What `mmap` has mapped: `length` bytes of the object from `offset` on are at `addr`. -/
structure Mapping where
  addr : Nat
  offset : Nat
  length : Nat

structure MappedRegion where
  offset : Nat
  buffer : Slice

/-- A memory region, and what the system was asked for its buffer: `mapped` is what was
mapped so far, `unmapped` are the arguments of `munmap`. -/
structure MemoryRegion where
  /-- How many bytes `obj` has; no call changes it once `obj_new` has set it. -/
  objectLength : Nat
  bufferSize : UInt64
  buffer : Option MappedRegion
  mapped : List Mapping
  unmapped : List (Nat × Nat)

/-- `HEADER_REFERENCE_COUNT + HEADER_BUFFER_SIZE`. -/
def headerLength : Nat := 4 + 8

/-- The region that `new` and `from_object` return. An object that `new` has made is as long as
its header says; `from_object` believes any header. -/
def fresh (objectLength : Nat) (bufferSize : UInt64) : MemoryRegion :=
  ⟨objectLength, bufferSize, none, [], []⟩

/-- A call of `map`, and what `mmap` answers: `none` is `MAP_FAILED`. -/
structure Call where
  start : Bound
  stop : Bound
  mmap : Nat → Nat → Option Nat

section Map

variable (pageMask : UInt64)

/-- `size & !(page_mask())`. -/
def truncPage (size : Nat) : Nat := size &&& (~~~ pageMask).toNat

def fromObject (mmap : Nat → Nat → Option Nat) (offset size : Nat) :
    Checked (Mapping × MappedRegion) :=
  let alignedOffset := truncPage pageMask offset
  (sub offset alignedOffset).bind fun adjustment =>
  (add adjustment size).bind fun alignedSize =>
    match mmap alignedOffset alignedSize with
    | some addr => .ok (⟨addr, alignedOffset, alignedSize⟩, ⟨offset, ⟨addr + adjustment, size⟩⟩)
    | none => .error (.error .memoryRegionMapping)

/-- The `Drop` of a `MappedRegion`: the arguments of `munmap`. -/
def MappedRegion.drop (b : MappedRegion) : Checked (Nat × Nat) :=
  (sub b.offset (truncPage pageMask b.offset)).bind fun adjustment =>
  (sub b.buffer.ptr adjustment).bind fun addr =>
  (add adjustment b.buffer.len).map fun length => (addr, length)

/-- `self.buffer = Some(buffer)`. -/
def MemoryRegion.replace (r : MemoryRegion) (m : Mapping) (b : MappedRegion) : Checked MemoryRegion :=
  match r.buffer with
  | none => .ok { r with buffer := some b, mapped := r.mapped ++ [m] }
  | some old => (old.drop pageMask).map fun args =>
    { r with buffer := some b, mapped := r.mapped ++ [m], unmapped := r.unmapped ++ [args] }

/-- The buffer, if it need not be mapped again. -/
def MemoryRegion.cached (r : MemoryRegion) (realOffset size : Nat) : Option MappedRegion :=
  r.buffer.filter fun b => realOffset = b.offset ∧ size = b.buffer.len

/-- The offset and the size of the window. -/
def MemoryRegion.window (r : MemoryRegion) (start stop : Bound) : Checked (Nat × Nat) :=
  (rangeToOffsetSize start stop).bind fun x =>
    match x.2 with
    | some size => .ok (x.1, size)
    | none => (sub r.bufferSize.toNat x.1).map fun size => (x.1, size)

def map (r : MemoryRegion) (c : Call) : Checked (MemoryRegion × Slice) :=
  (r.window c.start c.stop).bind fun x =>
  (add headerLength x.1).bind fun realOffset =>
    match r.cached realOffset x.2 with
    | some b => .ok (r, b.buffer)
    | none =>
      (fromObject pageMask c.mmap realOffset x.2).bind fun new =>
      (r.replace pageMask new.1 new.2).map fun r => (r, new.2.buffer)

/-- The region after a call, which changes nothing unless it returns a slice. -/
def step (r : MemoryRegion) (c : Call) : MemoryRegion :=
  match map pageMask r c with
  | .ok x => x.1
  | .error _ => r

/-- `ipmb_memory_region_map`: the pointer and `real_size`; a null pointer is `none`. -/
def ipmbMemoryRegionMap (r : MemoryRegion) (offset : UInt64) (size : Int64)
    (mmap : Nat → Nat → Option Nat) : Checked (MemoryRegion × Option Slice) :=
  let called (stop : Bound) : Checked (MemoryRegion × Option Slice) :=
    match map pageMask r ⟨.included offset, stop, mmap⟩ with
    | .ok x => .ok (x.1, some x.2)
    | .error (.error _) => .ok (r, none)
    | .error (.fault f) => .error (.fault f)
  if size < 0 then called .unbounded
  else (add offset.toNat size.toUInt64.toNat).bind fun stop => called (.excluded (.ofNat stop))

end Map

/-- Where a range starts. -/
def Bound.first : Bound → Nat
  | .included bound => bound.toNat
  | .excluded bound => bound.toNat + 1
  | .unbounded => 0

/-- Where a range stops; the end of the buffer is at `size`. -/
def Bound.last (size : Nat) : Bound → Nat
  | .included bound => bound.toNat + 1
  | .excluded bound => bound.toNat
  | .unbounded => size

/-- Where the window of a call starts, behind the header. -/
def Call.realOffset (c : Call) : Nat := headerLength + c.start.first

/-- The size of the window of a call. -/
def Call.size (r : MemoryRegion) (c : Call) : Nat := c.stop.last r.bufferSize.toNat - c.start.first

/-- The slice shows the bytes from `start` to `stop` of the object that is mapped. -/
structure Shows (m : Mapping) (s : Slice) (start stop : Nat) : Prop where
  within : m.addr ≤ s.ptr ∧ s.ptr + s.len ≤ m.addr + m.length
  first : m.offset + (s.ptr - m.addr) = start
  last : start + s.len = stop

/-- What a call is to return: no fault, and a slice only if the range is within the buffer; and
then all of it are bytes of the object, as the mapping shows them. -/
def Bounded (pageMask : UInt64) (r : MemoryRegion) (c : Call) : Prop :=
  Settles (fun x => c.start.first ≤ c.stop.last r.bufferSize.toNat ∧
      c.stop.last r.bufferSize.toNat ≤ r.bufferSize.toNat ∧
      (∀ i, headerLength + c.start.first ≤ i → i < headerLength + c.stop.last r.bufferSize.toNat →
        i < r.objectLength) ∧
      ∃ m ∈ x.1.mapped.getLast?, Shows m x.2 (headerLength + c.start.first)
        (headerLength + c.stop.last r.bufferSize.toNat))
    (map pageMask r c)

section Checked

variable {P : Nat → Prop} {a b : Nat}

@[simp] theorem settles_add : Settles P (add a b) ↔ a + b < 2 ^ 64 ∧ P (a + b) := by
  rw [add]
  split
  · rename_i h
    exact (and_iff_right h).symm
  · rename_i h
    exact iff_of_false id fun hP => h hP.1

@[simp] theorem settles_sub : Settles P (sub a b) ↔ b ≤ a ∧ P (a - b) := by
  rw [sub]
  split
  · rename_i h
    exact (and_iff_right h).symm
  · rename_i h
    exact iff_of_false id fun hP => h hP.1

end Checked

theorem settles_startOffset (P : Nat → Prop) (start : Bound) :
    Settles P (startOffset start) ↔ start.first < 2 ^ 64 ∧ P start.first := by
  cases start with
  | included bound => simpa [startOffset, Bound.first] using fun _ => bound.toNat_lt
  | excluded bound => simp [startOffset, Bound.first]
  | unbounded => simp [startOffset, Bound.first]

/-- The range is given by numbers that can be represented, and not the wrong way round. -/
structure InOrder (r : MemoryRegion) (start stop : Bound) : Prop where
  first : start.first < 2 ^ 64
  last : stop.last r.bufferSize.toNat < 2 ^ 64
  le : start.first ≤ stop.last r.bufferSize.toNat

theorem settles_window (P : Nat × Nat → Prop) (r : MemoryRegion) (start stop : Bound) :
    Settles P (r.window start stop) ↔ InOrder r start stop ∧
      P (start.first, stop.last r.bufferSize.toNat - start.first) := by
  rw [MemoryRegion.window, rangeToOffsetSize, settles_bind, settles_bind, settles_startOffset]
  have horder : InOrder r start stop ↔ start.first < 2 ^ 64 ∧ stop.last r.bufferSize.toNat < 2 ^ 64 ∧
      start.first ≤ stop.last r.bufferSize.toNat := ⟨fun h => ⟨h.1, h.2, h.3⟩, fun h => ⟨h.1, h.2.1, h.2.2⟩⟩
  rw [horder, and_assoc, and_assoc, and_congr_right_iff]
  intro _
  have hsize := r.bufferSize.toNat_lt
  cases stop with
  | included bound => simp [sizeFrom, Bound.last, settles_bind, settles_map]
  | excluded bound =>
    have hlt := bound.toNat_lt
    simp [sizeFrom, Bound.last, settles_map, hlt]
  | unbounded => simp [sizeFrom, Bound.last, settles_map, hsize]

section Runs

variable {pageMask : UInt64} {r : MemoryRegion}

theorem truncPage_le (n : Nat) : truncPage pageMask n ≤ n := Nat.and_le_left

/-- How far an offset is behind the start of its page. -/
def adjustment (pageMask : UInt64) (offset : Nat) : Nat := offset - truncPage pageMask offset

theorem truncPage_add (offset : Nat) :
    truncPage pageMask offset + adjustment pageMask offset = offset := by
  have hle : truncPage pageMask offset ≤ offset := truncPage_le offset
  rw [adjustment]
  omega

/-- The buffer is in what `mmap` has mapped for it. -/
structure Backed (pageMask : UInt64) (m : Mapping) (b : MappedRegion) : Prop where
  offset : m.offset = truncPage pageMask b.offset
  ptr : b.buffer.ptr = m.addr + adjustment pageMask b.offset
  length : m.length = adjustment pageMask b.offset + b.buffer.len
  bounded : m.length < 2 ^ 64

theorem Backed.shows {m : Mapping} {b : MappedRegion} (h : Backed pageMask m b) :
    Shows m b.buffer b.offset (b.offset + b.buffer.len) where
  within := by
    rw [h.ptr, h.length]
    omega
  first := by
    rw [h.offset, h.ptr, Nat.add_sub_cancel_left, truncPage_add]
  last := rfl

/-- The arguments with which `munmap` undoes a mapping. -/
def Mapping.args (m : Mapping) : Nat × Nat := (m.addr, m.length)

theorem Backed.drop {m : Mapping} {b : MappedRegion} (h : Backed pageMask m b) :
    b.drop pageMask = .ok m.args := by
  have hbounded := h.bounded
  rw [h.length] at hbounded
  have hadj : sub b.offset (truncPage pageMask b.offset) = .ok (adjustment pageMask b.offset) :=
    if_pos (truncPage_le _)
  have hptr : sub b.buffer.ptr (adjustment pageMask b.offset) = .ok m.addr := by
    rw [sub, h.ptr, if_pos (Nat.le_add_left _ _), Nat.add_sub_cancel]
  have hlen : add (adjustment pageMask b.offset) b.buffer.len = .ok m.length := by
    rw [add, if_pos hbounded, h.length]
  rw [MappedRegion.drop, hadj, Except.bind, hptr, Except.bind, hlen]
  rfl

/-- All that was mapped is unmapped, but for what the buffer is in. -/
def Valid (pageMask : UInt64) (r : MemoryRegion) : Prop :=
  match r.buffer with
  | none => r.mapped = [] ∧ r.unmapped = []
  | some b => ∃ ms m, r.mapped = ms ++ [m] ∧ r.unmapped = ms.map Mapping.args ∧ Backed pageMask m b

/-- The region with a new buffer in the place of the one before. -/
def MemoryRegion.put (r : MemoryRegion) (m : Mapping) (b : MappedRegion) : MemoryRegion :=
  ⟨r.objectLength, r.bufferSize, some b, r.mapped ++ [m], r.mapped.map Mapping.args⟩

theorem Valid.put (m : Mapping) {b : MappedRegion} (hb : Backed pageMask m b) :
    Valid pageMask (r.put m b) := ⟨r.mapped, m, rfl, rfl, hb⟩

theorem Valid.replace (h : Valid pageMask r) (m : Mapping) (b : MappedRegion) :
    r.replace pageMask m b = .ok (r.put m b) := by
  rw [MemoryRegion.replace]
  cases hb : r.buffer with
  | none =>
    rw [Valid, hb] at h
    simp [MemoryRegion.put, h.1, h.2]
  | some old =>
    rw [Valid, hb] at h
    obtain ⟨ms, m', hm, hu, hold⟩ := h
    simp [MemoryRegion.put, hm, hu, hold.drop, Except.map]

/-- The mapping and the buffer for a window, when `mmap` answers `addr`. -/
def mappedAt (pageMask : UInt64) (offset size addr : Nat) : Mapping × MappedRegion :=
  (⟨addr, truncPage pageMask offset, adjustment pageMask offset + size⟩,
    ⟨offset, ⟨addr + adjustment pageMask offset, size⟩⟩)

theorem settles_fromObject (P : Mapping × MappedRegion → Prop) (mmap : Nat → Nat → Option Nat)
    (offset size : Nat) :
    Settles P (fromObject pageMask mmap offset size) ↔ adjustment pageMask offset + size < 2 ^ 64 ∧
      ∀ addr ∈ mmap (truncPage pageMask offset) (adjustment pageMask offset + size),
        P (mappedAt pageMask offset size addr) := by
  rw [fromObject, settles_bind, settles_sub, and_iff_right (truncPage_le offset), settles_bind,
    settles_add, ← adjustment, and_congr_right_iff]
  intro _
  cases mmap (truncPage pageMask offset) (adjustment pageMask offset + size) with
  | none => simp
  | some addr => simp [mappedAt]

/-- What `mmap` answers if it is called. -/
def Call.answer (pageMask : UInt64) (r : MemoryRegion) (c : Call) : Option Nat :=
  c.mmap (truncPage pageMask c.realOffset) (adjustment pageMask c.realOffset + c.size r)

/-- The window of a call, when `mmap` answers `addr`. -/
def Call.mappedAt (pageMask : UInt64) (r : MemoryRegion) (c : Call) (addr : Nat) :
    Mapping × MappedRegion :=
  RegionMap.mappedAt pageMask c.realOffset (c.size r) addr

/-- When `map` goes wrong, and what it returns otherwise. -/
theorem settles_map_iff (h : Valid pageMask r) (P : MemoryRegion × Slice → Prop) (c : Call) :
    Settles P (map pageMask r c) ↔ InOrder r c.start c.stop ∧ c.realOffset < 2 ^ 64 ∧
      match r.cached c.realOffset (c.size r) with
      | some b => P (r, b.buffer)
      | none => adjustment pageMask c.realOffset + c.size r < 2 ^ 64 ∧
          ∀ addr ∈ c.answer pageMask r,
            P (r.put (c.mappedAt pageMask r addr).1 (c.mappedAt pageMask r addr).2,
              (c.mappedAt pageMask r addr).2.buffer) := by
  rw [map, settles_bind, settles_window, settles_bind, settles_add, and_congr_right_iff]
  intro _
  rw [← Call.realOffset, ← Call.size, and_congr_right_iff]
  intro _
  cases r.cached c.realOffset (c.size r) with
  | some b => exact Iff.rfl
  | none =>
    simp only [settles_bind, settles_fromObject, h.replace, settles_map, settles_ok]
    exact Iff.rfl

theorem backed_mappedAt {offset size : Nat} (h : adjustment pageMask offset + size < 2 ^ 64) (addr : Nat) :
    Backed pageMask (mappedAt pageMask offset size addr).1 (mappedAt pageMask offset size addr).2 :=
  ⟨rfl, rfl, rfl, h⟩

theorem cached_eq_some {realOffset size : Nat} {b : MappedRegion} (h : r.cached realOffset size = some b) :
    r.buffer = some b ∧ realOffset = b.offset ∧ size = b.buffer.len := by
  obtain ⟨hb, hkey⟩ := Option.filter_eq_some_iff.mp h
  exact ⟨hb, of_decide_eq_true hkey⟩

theorem Valid.backed (h : Valid pageMask r) {b : MappedRegion} (hb : r.buffer = some b) :
    ∃ m ∈ r.mapped.getLast?, Backed pageMask m b := by
  rw [Valid, hb] at h
  obtain ⟨ms, m, hm, -, hback⟩ := h
  exact ⟨m, by rw [hm, List.getLast?_concat]; rfl, hback⟩

/-- What a call returns: the buffer as it is, or a new one. -/
inductive Returns (pageMask : UInt64) (r : MemoryRegion) (c : Call) : MemoryRegion × Slice → Prop
  | kept (b : MappedRegion) (hb : r.cached c.realOffset (c.size r) = some b) :
    Returns pageMask r c (r, b.buffer)
  | mapped (addr : Nat) (haddr : c.answer pageMask r = some addr)
    (haligned : adjustment pageMask c.realOffset + c.size r < 2 ^ 64) :
    Returns pageMask r c (r.put (c.mappedAt pageMask r addr).1 (c.mappedAt pageMask r addr).2,
      (c.mappedAt pageMask r addr).2.buffer)

theorem Valid.returns (h : Valid pageMask r) {c : Call} {x : MemoryRegion × Slice}
    (hm : map pageMask r c = .ok x) : Returns pageMask r c x := by
  -- the call does not go wrong, so that the arithmetic of the new mapping is fine
  have hsettles : Settles (fun _ => True) (map pageMask r c) := by
    rw [hm]
    trivial
  obtain ⟨horder, hheader, hrest⟩ := (settles_map_iff h _ c).mp hsettles
  have hreturns : Settles (Returns pageMask r c) (map pageMask r c) := by
    refine (settles_map_iff h _ c).mpr ⟨horder, hheader, ?_⟩
    cases hc : r.cached c.realOffset (c.size r) with
    | some b => exact .kept b hc
    | none =>
      rw [hc] at hrest
      exact ⟨hrest.1, fun addr haddr => .mapped addr haddr hrest.1⟩
  rw [hm] at hreturns
  exact hreturns

theorem Valid.step (h : Valid pageMask r) (c : Call) : Valid pageMask (step pageMask r c) := by
  rw [RegionMap.step]
  cases hm : map pageMask r c with
  | error e => exact h
  | ok x =>
    cases h.returns hm with
    | kept b hb => exact h
    | mapped addr haddr haligned => exact Valid.put _ (backed_mappedAt haligned addr)

theorem valid_fresh (objectLength : Nat) (bufferSize : UInt64) :
    Valid pageMask (fresh objectLength bufferSize) := ⟨rfl, rfl⟩

/-- The region after some calls. -/
def after (pageMask : UInt64) (objectLength : Nat) (bufferSize : UInt64) (calls : List Call) :
    MemoryRegion :=
  calls.foldl (step pageMask) (fresh objectLength bufferSize)

theorem valid_after (pageMask : UInt64) (objectLength : Nat) (bufferSize : UInt64) (calls : List Call) :
    Valid pageMask (after pageMask objectLength bufferSize calls) := by
  induction calls using List.reverseRecOn with
  | nil => exact valid_fresh objectLength bufferSize
  | append_singleton calls c ih =>
    rw [after, List.foldl_concat]
    exact ih.step c

/-- The range is within the buffer, and if it is not empty, then within the object too. -/
structure Call.Within (r : MemoryRegion) (c : Call) : Prop where
  buffer : c.stop.last r.bufferSize.toNat ≤ r.bufferSize.toNat
  object : c.start.first = c.stop.last r.bufferSize.toNat ∨
    headerLength + c.stop.last r.bufferSize.toNat ≤ r.objectLength

/-- The numbers of a call can be represented; the range is within the buffer and the object, or
it is not mapped yet and the system refuses to map it. -/
structure Fits (pageMask : UInt64) (r : MemoryRegion) (c : Call) : Prop where
  order : InOrder r c.start c.stop
  header : c.realOffset < 2 ^ 64
  aligned : adjustment pageMask c.realOffset + c.size r < 2 ^ 64
  within : c.Within r ∨ r.cached c.realOffset (c.size r) = none ∧ c.answer pageMask r = none

theorem InOrder.realOffset_add {c : Call} (h : InOrder r c.start c.stop) :
    c.realOffset + c.size r = headerLength + c.stop.last r.bufferSize.toNat := by
  have hle := h.le
  rw [Call.realOffset, Call.size]
  omega

/-- Each byte of the range is a byte of the object. -/
theorem bytes_iff {first last length : Nat} (hle : first ≤ last) :
    (∀ i, headerLength + first ≤ i → i < headerLength + last → i < length) ↔
      first = last ∨ headerLength + last ≤ length := by
  constructor
  · intro hbytes
    obtain heq | hlt := Nat.eq_or_lt_of_le hle
    · exact .inl heq
    · have hend := hbytes (headerLength + last - 1) (by omega) (by omega)
      exact .inr (by omega)
  · rintro (rfl | hlength) i hfirst hlast
    · omega
    · omega

theorem Valid.bounded_iff (h : Valid pageMask r) (c : Call) :
    Bounded pageMask r c ↔ Fits pageMask r c := by
  rw [Bounded, settles_map_iff h]
  cases hc : r.cached c.realOffset (c.size r) with
  | some b =>
    obtain ⟨hb, hoffset, hlen⟩ := cached_eq_some hc
    obtain ⟨m, hm, hback⟩ := h.backed hb
    constructor
    · rintro ⟨horder, hheader, -, hle, hbytes, -⟩
      refine ⟨horder, hheader, ?_, .inl ⟨hle, (bytes_iff horder.le).mp hbytes⟩⟩
      rw [hoffset, hlen, ← hback.length]
      exact hback.bounded
    · rintro ⟨horder, hheader, -, hwithin | ⟨hnone, -⟩⟩
      · have hbytes := (bytes_iff horder.le).mpr hwithin.object
        refine ⟨horder, hheader, horder.le, hwithin.buffer, hbytes, m, hm, ?_⟩
        rw [← horder.realOffset_add, ← Call.realOffset, hoffset, hlen]
        exact hback.shows
      · rw [hc] at hnone
        cases hnone
  | none =>
    constructor
    · rintro ⟨horder, hheader, haligned, hmmap⟩
      refine ⟨horder, hheader, haligned, ?_⟩
      cases ha : c.answer pageMask r with
      | none => exact .inr ⟨hc, rfl⟩
      | some addr =>
        obtain ⟨-, hle, hbytes, -⟩ := hmmap addr ha
        exact .inl ⟨hle, (bytes_iff horder.le).mp hbytes⟩
    · rintro ⟨horder, hheader, haligned, hwithin⟩
      refine ⟨horder, hheader, haligned, fun addr haddr => ?_⟩
      obtain hwithin | ⟨-, hnone⟩ := hwithin
      · have hbytes := (bytes_iff horder.le).mpr hwithin.object
        refine ⟨horder.le, hwithin.buffer, hbytes, _, List.getLast?_concat, ?_⟩
        rw [← horder.realOffset_add, ← Call.realOffset]
        exact (backed_mappedAt haligned addr).shows
      · rw [hnone] at haddr
        cases haddr

/-- Any call, on a region after any calls. -/
theorem bounded_after (pageMask : UInt64) (objectLength : Nat) (bufferSize : UInt64) (calls : List Call)
    (c : Call) :
    Bounded pageMask (after pageMask objectLength bufferSize calls) c ↔
      Fits pageMask (after pageMask objectLength bufferSize calls) c :=
  (valid_after pageMask objectLength bufferSize calls).bounded_iff c

/-- A region whose object is as long as the header says and can be mapped as a whole, as the
object of a region that `new` has made, and a range within its buffer. -/
theorem fits_of_le {c : Call} (hsize : headerLength + r.bufferSize.toNat < 2 ^ 64)
    (hlength : headerLength + r.bufferSize.toNat ≤ r.objectLength)
    (hfirst : c.start.first ≤ c.stop.last r.bufferSize.toNat)
    (hlast : c.stop.last r.bufferSize.toNat ≤ r.bufferSize.toNat) : Fits pageMask r c := by
  have horder : InOrder r c.start c.stop := ⟨by omega, by omega, hfirst⟩
  have hend := horder.realOffset_add
  have hadd : truncPage pageMask c.realOffset + adjustment pageMask c.realOffset = c.realOffset :=
    truncPage_add _
  exact ⟨horder, by omega, by omega, .inl ⟨hlast, .inr (by omega)⟩⟩

/-- The first 100 bytes of a region of 16 bytes, and of one whose header says that it has
`2 ^ 20`: in both the object has 28 bytes. -/
theorem window_past_buffer :
    let c : Call := ⟨.included 0, .excluded 100, fun _ _ => some 65536⟩
    (map 4095 (fresh 28 16) c).map (fun x => (x.2.ptr, x.2.len)) = .ok (65548, 100) ∧
      (ipmbMemoryRegionMap 4095 (fresh 28 16) 0 100 c.mmap).map
        (fun x => x.2.map fun slice => (slice.ptr, slice.len)) = .ok (some (65548, 100)) ∧
      ¬ Bounded 4095 (fresh 28 16) c ∧ ¬ Bounded 4095 (fresh 28 1048576) c := by
  refine ⟨by decide, by decide, fun h => ?_, fun h => ?_⟩
  · obtain hwithin | ⟨-, hnone⟩ := ((valid_fresh 28 16).bounded_iff _).mp h |>.within
    · exact absurd hwithin.buffer (by decide)
    · cases hnone
  · obtain hwithin | ⟨-, hnone⟩ := ((valid_fresh 28 1048576).bounded_iff _).mp h |>.within
    · exact absurd hwithin.object (by decide)
    · cases hnone

end Runs

end Ipmb.RegionMap
