import Ipmb.RegionMap
import Mathlib.Data.Nat.Bitwise

namespace Ipmb.RegionMap

open Faults Decoding

/-- `page_mask()` where a page has `2 ^ k` bytes. -/
def pageMaskOf (k : Nat) : UInt64 := .ofNat (2 ^ k - 1)

/-- A region with its header, and the mapping that was made for the header. -/
structure Region where
  header : MappedRegion
  headerMapping : Mapping
  inner : MemoryRegion

section Life

variable (pageMask : UInt64)

/-- What `new` and `from_object` do once there is an object: the header has to be mapped. -/
def openRegion (mmap : Nat → Nat → Option Nat) (objectLength : Nat) (bufferSize : UInt64) :
    Checked Region :=
  match fromObject pageMask mmap 0 headerLength with
  | .ok x => .ok ⟨x.2, x.1, fresh objectLength bufferSize⟩
  | .error (.error _) => .error (.fault .mapping)
  | .error (.fault f) => .error (.fault f)

def Region.step (r : Region) (c : Call) : Region :=
  { r with inner := RegionMap.step pageMask r.inner c }

def Region.after (r : Region) (calls : List Call) : Region := calls.foldl (Region.step pageMask) r

/-- The drop of the fields, the header first: the arguments of each `munmap`. -/
def Region.drop (r : Region) : Checked (List (Nat × Nat)) :=
  (r.header.drop pageMask).bind fun args =>
    match r.inner.buffer with
    | none => .ok [args]
    | some b => (b.drop pageMask).map fun last => [args, last]

end Life

/-- The offset and the size of a call, and what is computed from them, can be represented. -/
structure Representable (pageMask : UInt64) (r : MemoryRegion) (c : Call) : Prop where
  order : InOrder r c.start c.stop
  header : c.realOffset < 2 ^ 64
  aligned : adjustment pageMask c.realOffset + c.size r < 2 ^ 64

/-- A slice that `map` returned: where in the object it starts, how long it is, and which
mapping it is in, the last one or one that was made for it. -/
structure Window (k : Nat) (r : MemoryRegion) (c : Call) (x : MemoryRegion × Slice) : Prop where
  length : x.2.len = c.size r
  mapping : ∃ m ∈ x.1.mapped.getLast?, 2 ^ k ∣ m.offset ∧
    Shows m x.2 (headerLength + c.start.first) (headerLength + c.start.first + c.size r)
  made : x.1 = r ∨ ∃ m, x.1.mapped = r.mapped ++ [m] ∧ c.mmap m.offset m.length = some m.addr

section Pages

variable {k : Nat}

theorem testBit_not_pageMaskOf (hk : k < 64) (i : Nat) :
    (~~~ pageMaskOf k).toNat.testBit i = (decide (i < 64) && !decide (i < k)) := by
  have hlt : 2 ^ k < 2 ^ 64 := Nat.pow_lt_pow_right (by omega) hk
  have hmask : (pageMaskOf k).toNat = 2 ^ k - 1 := by
    rw [pageMaskOf, UInt64.toNat_ofNat']
    exact Nat.mod_eq_of_lt (by omega)
  have hnot : (~~~ pageMaskOf k).toNat = 2 ^ 64 - (2 ^ k - 1 + 1) := by
    rw [UInt64.toNat_not, hmask, UInt64.size]
    omega
  rw [hnot, Nat.testBit_two_pow_sub_succ (by omega), Nat.testBit_two_pow_sub_one]

/-- `trunc_page` is the start of the page of an offset. -/
theorem truncPage_eq (hk : k < 64) {n : Nat} (hn : n < 2 ^ 64) :
    truncPage (pageMaskOf k) n = n / 2 ^ k * 2 ^ k := by
  apply Nat.eq_of_testBit_eq
  intro i
  rw [truncPage, Nat.testBit_and, testBit_not_pageMaskOf hk, Nat.testBit_mul_two_pow]
  by_cases hi : k ≤ i
  · rw [Nat.testBit_div_two_pow, Nat.sub_add_cancel hi]
    by_cases h64 : i < 64
    · simp [hi, h64]
    · have hbit : n.testBit i = false :=
        Nat.testBit_lt_two_pow (Nat.lt_of_lt_of_le hn (Nat.pow_le_pow_right (by omega) (by omega)))
      simp [hbit]
  · have hlt : i < k := by omega
    simp [hi, hlt]

theorem dvd_truncPage (hk : k < 64) {n : Nat} (hn : n < 2 ^ 64) :
    2 ^ k ∣ truncPage (pageMaskOf k) n := by
  rw [truncPage_eq hk hn]
  exact Nat.dvd_mul_left _ _

end Pages

section Calls

variable {pageMask : UInt64} {r : MemoryRegion}

theorem step_bufferSize (h : Valid pageMask r) (c : Call) :
    (RegionMap.step pageMask r c).bufferSize = r.bufferSize := by
  rw [RegionMap.step]
  cases hm : map pageMask r c with
  | error e => rfl
  | ok x =>
    cases h.returns hm with
    | kept b hb => rfl
    | mapped addr haddr haligned => rfl

theorem Representable.runs (h : Valid pageMask r) {c : Call}
    (hc : Representable pageMask r c) : Settles (fun _ => True) (map pageMask r c) := by
  apply (settles_map_iff h _ c).mpr
  refine ⟨hc.order, hc.header, ?_⟩
  cases r.cached c.realOffset (c.size r) with
  | some b => trivial
  | none => exact ⟨hc.aligned, fun _ _ => trivial⟩

theorem bufferSize_after (pageMask : UInt64) (objectLength : Nat) (bufferSize : UInt64)
    (calls : List Call) : (after pageMask objectLength bufferSize calls).bufferSize = bufferSize := by
  induction calls using List.reverseRecOn with
  | nil => rfl
  | append_singleton calls c ih =>
    have hvalid := valid_after pageMask objectLength bufferSize calls
    rw [after, List.foldl_concat, ← after, step_bufferSize hvalid, ih]

/-- What can be represented depends on the size of the buffer only. -/
theorem Representable.congr {r' : MemoryRegion} {c : Call} (hc : Representable pageMask r c)
    (hsize : r'.bufferSize = r.bufferSize) : Representable pageMask r' c := by
  have hcall : c.size r' = c.size r := by rw [Call.size, Call.size, hsize]
  exact ⟨⟨hc.order.first, hsize ▸ hc.order.last, hsize ▸ hc.order.le⟩, hc.header, hcall ▸ hc.aligned⟩

end Calls

section Windows

variable {k : Nat} {r : MemoryRegion}

theorem Backed.dvd (hk : k < 64) {m : Mapping} {b : MappedRegion} (h : Backed (pageMaskOf k) m b)
    (hb : b.offset < 2 ^ 64) : 2 ^ k ∣ m.offset := by
  rw [h.offset]
  exact dvd_truncPage hk hb

theorem Valid.window (hk : k < 64) (h : Valid (pageMaskOf k) r) {c : Call}
    (hc : c.realOffset < 2 ^ 64) {x : MemoryRegion × Slice} (hm : map (pageMaskOf k) r c = .ok x) :
    Window k r c x := by
  cases h.returns hm with
  | kept b hb =>
    obtain ⟨hbuffer, hoffset, hsize⟩ := cached_eq_some hb
    obtain ⟨m, hlast, hback⟩ := h.backed hbuffer
    refine ⟨hsize.symm, ⟨m, hlast, ?_, ?_⟩, .inl rfl⟩
    · apply hback.dvd hk
      rwa [← hoffset]
    · rw [← Call.realOffset, hoffset, hsize]
      exact hback.shows
  | mapped addr haddr haligned =>
    have hback := backed_mappedAt haligned addr
    exact ⟨rfl, ⟨_, List.getLast?_concat, hback.dvd hk hc, hback.shows⟩, .inr ⟨_, rfl, haddr⟩⟩

/-- There is an error only if the system refuses the mapping. -/
theorem Valid.refused {pageMask : UInt64} (h : Valid pageMask r) {c : Call} {e : Messages.Error Empty}
    (hm : map pageMask r c = .error (.error e)) : c.answer pageMask r = none := by
  have hnone : Settles (fun _ => False) (map pageMask r c) := by
    rw [hm]
    trivial
  obtain ⟨-, -, hrest⟩ := (settles_map_iff h _ c).mp hnone
  cases hc : r.cached c.realOffset (c.size r) with
  | some b =>
    rw [hc] at hrest
    exact hrest.elim
  | none =>
    rw [hc] at hrest
    exact Option.eq_none_iff_forall_not_mem.mpr hrest.2

/-- A call returns a window, unless the system refuses the mapping. -/
def Answers (k : Nat) (r : MemoryRegion) (c : Call) : Prop :=
  (∃ x, map (pageMaskOf k) r c = .ok x ∧ Window k r c x) ∨
    c.answer (pageMaskOf k) r = none ∧ ∃ e, map (pageMaskOf k) r c = .error (.error e)

theorem Valid.answers (hk : k < 64) (h : Valid (pageMaskOf k) r) {c : Call}
    (hc : Representable (pageMaskOf k) r c) : Answers k r c := by
  have hruns := hc.runs h
  cases hm : map (pageMaskOf k) r c with
  | ok x => exact .inl ⟨x, hm, h.window hk hc.header hm⟩
  | error stop =>
    cases stop with
    | error e => exact .inr ⟨h.refused hm, e, hm⟩
    | fault f =>
      rw [hm] at hruns
      exact hruns.elim

end Windows

section Life

variable {pageMask : UInt64}

/-- What was unmapped so far, and what the drop unmaps, is what was mapped: each mapping once,
with the address and the length of its mapping. -/
def Region.Undone (pageMask : UInt64) (r : Region) : Prop :=
  ∃ done current, r.inner.mapped = done ++ current ∧ r.inner.unmapped = done.map Mapping.args ∧
    r.drop pageMask = .ok (r.headerMapping.args :: current.map Mapping.args)

theorem Region.undone {r : Region} (hheader : Backed pageMask r.headerMapping r.header)
    (h : Valid pageMask r.inner) : r.Undone pageMask := by
  rw [Region.Undone, Region.drop, hheader.drop, Except.bind]
  cases hb : r.inner.buffer with
  | none =>
    rw [Valid, hb] at h
    exact ⟨[], [], h.1, h.2, rfl⟩
  | some b =>
    rw [Valid, hb] at h
    obtain ⟨ms, m, hmapped, hunmapped, hback⟩ := h
    refine ⟨ms, [m], hmapped, hunmapped, ?_⟩
    simp only [hback.drop]
    rfl

/-- The header is in its own mapping, and there is no buffer yet. -/
structure Opened (pageMask : UInt64) (objectLength : Nat) (bufferSize : UInt64)
    (mmap : Nat → Nat → Option Nat) (r : Region) : Prop where
  inner : r.inner = fresh objectLength bufferSize
  backed : Backed pageMask r.headerMapping r.header
  whole : r.header.offset = 0 ∧ r.header.buffer.len = headerLength
  made : mmap r.headerMapping.offset r.headerMapping.length = some r.headerMapping.addr

theorem opened_of_ok {objectLength : Nat} {bufferSize : UInt64} {mmap : Nat → Nat → Option Nat}
    {r : Region} (h : openRegion pageMask mmap objectLength bufferSize = .ok r) :
    Opened pageMask objectLength bufferSize mmap r := by
  have hzero : adjustment pageMask 0 = 0 := Nat.zero_sub _
  have hlt : adjustment pageMask 0 + headerLength < 2 ^ 64 := by
    rw [hzero]
    decide
  have hnew : Settles
      (fun x => Opened pageMask objectLength bufferSize mmap ⟨x.2, x.1, fresh objectLength bufferSize⟩)
      (fromObject pageMask mmap 0 headerLength) :=
    (settles_fromObject _ mmap 0 headerLength).mpr
      ⟨hlt, fun addr haddr => ⟨rfl, backed_mappedAt hlt addr, ⟨rfl, rfl⟩, haddr⟩⟩
  rw [openRegion] at h
  cases hx : fromObject pageMask mmap 0 headerLength with
  | error stop =>
    rw [hx] at h
    cases stop with
    | fault f => cases h
    | error e => cases h
  | ok x =>
    rw [hx] at h hnew
    cases h
    exact hnew

theorem Region.after_inner (r : Region) (calls : List Call) :
    (r.after pageMask calls).header = r.header ∧
      (r.after pageMask calls).headerMapping = r.headerMapping ∧
      (r.after pageMask calls).inner = calls.foldl (RegionMap.step pageMask) r.inner := by
  induction calls generalizing r with
  | nil => exact ⟨rfl, rfl, rfl⟩
  | cons c calls ih => exact ih (r.step pageMask c)

end Life

/-- The window arithmetic of a region, whatever was mapped before: a slice starts behind the
header at the offset that was asked for and has the size that was asked for, the system is
given the start of a page and enough bytes, and every mapping is undone as it was made. -/
theorem windows_exact {k : Nat} (hk : k < 64) (objectLength : Nat) (bufferSize : UInt64)
    (mmap : Nat → Nat → Option Nat) (r : Region)
    (hopen : openRegion (pageMaskOf k) mmap objectLength bufferSize = .ok r) (calls : List Call)
    (hcalls : ∀ c ∈ calls, Representable (pageMaskOf k) r.inner c) :
    (2 ^ k ∣ r.headerMapping.offset ∧ Shows r.headerMapping r.header.buffer 0 headerLength ∧
      mmap r.headerMapping.offset r.headerMapping.length = some r.headerMapping.addr) ∧
    (∀ before c, before ++ [c] <+: calls →
      Answers k (r.after (pageMaskOf k) before).inner c) ∧
    (r.after (pageMaskOf k) calls).Undone (pageMaskOf k) := by
  obtain ⟨hinner, hback, ⟨hoffset, hlen⟩, hmade⟩ := opened_of_ok hopen
  have hafter (calls : List Call) : (r.after (pageMaskOf k) calls).inner =
      after (pageMaskOf k) objectLength bufferSize calls := by
    rw [(r.after_inner calls).2.2, hinner]
    rfl
  refine ⟨⟨?_, ?_, hmade⟩, ?_, ?_⟩
  · apply hback.dvd hk
    rw [hoffset]
    decide
  · have hshows := hback.shows
    rwa [hoffset, hlen, Nat.zero_add] at hshows
  · intro before c hfront
    have hc := hcalls c (hfront.subset (by simp))
    rw [hinner] at hc
    rw [hafter]
    exact (valid_after _ _ _ before).answers hk (hc.congr (bufferSize_after _ _ _ before))
  · apply Region.undone
    · rw [(r.after_inner calls).1, (r.after_inner calls).2.1]
      exact hback
    · rw [hafter]
      exact valid_after _ _ _ calls

/-- Pages of 4096 bytes: one window twice, and then one on another page. -/
theorem windows_exact_twoPages :
    let mmap : Nat → Nat → Option Nat := fun _ _ => some 65536
    let first : Call := ⟨.included 100, .excluded 200, mmap⟩
    let second : Call := ⟨.included 5000, .unbounded, mmap⟩
    ∃ r, openRegion (pageMaskOf 12) mmap 8204 8192 = .ok r ∧
      (r.after (pageMaskOf 12) [first, first, second]).Undone (pageMaskOf 12) := by
  intro mmap first second
  refine ⟨_, rfl, (windows_exact (by decide) 8204 8192 mmap _ rfl [first, first, second] ?_).2.2⟩
  have hfirst : Representable (pageMaskOf 12) (fresh 8204 8192) first :=
    ⟨⟨by decide, by decide, by decide⟩, by decide, by decide⟩
  have hsecond : Representable (pageMaskOf 12) (fresh 8204 8192) second :=
    ⟨⟨by decide, by decide, by decide⟩, by decide, by decide⟩
  intro c hc
  simp only [List.mem_cons, List.not_mem_nil, or_false, or_self_left] at hc
  obtain rfl | rfl := hc
  · exact hfirst
  · exact hsecond

end Ipmb.RegionMap
