import Mathlib.Algebra.Group.Nat.Defs
import Mathlib.Data.List.Count
import Mathlib.Data.List.Perm.Basic

namespace Ipmb.Counters

section Splice

variable {α β : Type}

/-- `new` in the place of the element at `i`. -/
def splice (l : List α) (i : Nat) (new : List α) : List α := l.take i ++ new ++ l.drop (i + 1)

theorem mem_splice {l new : List α} {i : Nat} {a : α} (h : a ∈ splice l i new) : a ∈ new ∨ a ∈ l := by
  obtain h | h := List.mem_append.mp h
  · obtain h | h := List.mem_append.mp h
    · exact Or.inr (List.mem_of_mem_take h)
    · exact Or.inl h
  · exact Or.inr (List.mem_of_mem_drop h)

theorem splice_perm {l : List α} {i : Nat} {a : α} (h : l[i]? = some a) (new : List α) :
    (a :: splice l i new).Perm (new ++ l) := by
  obtain ⟨hi, rfl⟩ := List.getElem?_eq_some_iff.mp h
  have hl : l.take i ++ l[i] :: l.drop (i + 1) = l := by simp
  have hcomm : (l.take i ++ new).Perm (new ++ l.take i) := List.perm_append_comm
  have hsplice : (splice l i new).Perm (new ++ (l.take i ++ l.drop (i + 1))) := by
    rw [splice, ← List.append_assoc]
    exact hcomm.append_right _
  have hback : (l[i] :: (new ++ (l.take i ++ l.drop (i + 1)))).Perm
      (new ++ (l.take i ++ l[i] :: l.drop (i + 1))) :=
    List.perm_middle.symm.trans (List.perm_middle.symm.append_left new)
  rw [hl] at hback
  exact (hsplice.cons _).trans hback

/-- What the elements hold in all, when one of them is replaced. -/
theorem flatMap_splice_perm {l : List α} {i : Nat} {a : α} (h : l[i]? = some a) (new : List α)
    (g : α → List β) : (g a ++ (splice l i new).flatMap g).Perm (new.flatMap g ++ l.flatMap g) := by
  have hperm := (splice_perm h new).flatMap_right g
  rwa [List.flatMap_cons, List.flatMap_append] at hperm

theorem flatMap_filter_perm (l : List α) (p : α → Bool) (g : α → List β) :
    ((l.filter p).flatMap g ++ (l.filter fun a => !p a).flatMap g).Perm (l.flatMap g) := by
  rw [← List.flatMap_append]
  exact (List.filter_append_perm p l).flatMap_right g

end Splice

variable {w : Nat}

/-- Each counter is the number of its units, up to overflow. -/
structure Balanced (counts : List (BitVec w)) (units : List Nat) : Prop where
  valid : ∀ f ∈ units, f < counts.length
  counted : ∀ f c, counts[f]? = some c → c = BitVec.ofNat w (units.count f)

/-- What may happen to the counters and the units at once: the units change hands, one is
added next to another one, one is given up, or a new counter starts with one. -/
inductive Effect (counts : List (BitVec w)) (units : List Nat) : List (BitVec w) → List Nat → Prop
  | keep {units' : List Nat} (h : units'.Perm units) : Effect counts units counts units'
  | take {f : Nat} {units' : List Nat} (hf : f ∈ units) (h : units'.Perm (f :: units)) :
    Effect counts units (counts.modify f (· + 1)) units'
  | give {f : Nat} {units' : List Nat} (h : units.Perm (f :: units')) :
    Effect counts units (counts.modify f (· - 1)) units'
  | make {units' : List Nat} (h : units'.Perm (counts.length :: units)) :
    Effect counts units (counts ++ [1]) units'

theorem Balanced.nil : Balanced ([] : List (BitVec w)) [] := ⟨by simp, by simp⟩

theorem Balanced.perm {counts : List (BitVec w)} {units units' : List Nat} (hb : Balanced counts units)
    (h : units'.Perm units) : Balanced counts units' :=
  ⟨fun f hf => hb.valid f (h.subset hf), fun f c hc => h.count_eq f ▸ hb.counted f c hc⟩

theorem Balanced.absent {counts : List (BitVec w)} {units : List Nat} (hb : Balanced counts units) :
    units.count counts.length = 0 :=
  List.count_eq_zero.mpr fun h => Nat.lt_irrefl _ (hb.valid _ h)

/-- A counter that is one has one unit, unless it has overflowed. -/
theorem Balanced.sole {counts : List (BitVec w)} {units : List Nat} {f : Nat} (hb : Balanced counts units)
    (hf : counts[f]? = some 1) (hmem : f ∈ units) (hlt : units.count f < 2 ^ w) :
    units.count f = 1 := by
  have hpos := List.count_pos_iff.mpr hmem
  have hone := congrArg BitVec.toNat (hb.counted f 1 hf)
  rw [BitVec.toNat_ofNat, Nat.mod_eq_of_lt hlt] at hone
  have hle : (1#w).toNat ≤ 1 := by
    rw [BitVec.toNat_ofNat]
    exact Nat.mod_le _ _
  have hle' : (1 : BitVec w).toNat ≤ 1 := hle
  omega

/-- The units of others do not matter. -/
theorem Effect.append {counts counts' : List (BitVec w)} {units units' : List Nat}
    (h : Effect counts units counts' units') (others : List Nat) :
    Effect counts (units ++ others) counts' (units' ++ others) := by
  cases h with
  | keep h => exact .keep (h.append_right _)
  | take hf h => exact .take (List.mem_append_left _ hf) (h.append_right _)
  | give h => exact .give (h.append_right _)
  | make h => exact .make (h.append_right _)

theorem Effect.perm {counts counts' : List (BitVec w)} {units units' all all' : List Nat}
    (h : Effect counts units counts' units') (hall : all.Perm units) (hall' : all'.Perm units') :
    Effect counts all counts' all' := by
  cases h with
  | keep h => exact .keep (hall'.trans (h.trans hall.symm))
  | take hf h => exact .take (hall.symm.subset hf) (hall'.trans (h.trans (hall.symm.cons _)))
  | give h => exact .give (hall.trans (h.trans (hall'.symm.cons _)))
  | make h => exact .make (hall'.trans (h.trans (hall.symm.cons _)))

/-- A counter changes with its units. -/
theorem Balanced.modify {counts : List (BitVec w)} {units units' : List Nat} (hb : Balanced counts units)
    {f : Nat} {g : BitVec w → BitVec w} (hvalid : ∀ f' ∈ units', f' < counts.length)
    (hf : g (BitVec.ofNat w (units.count f)) = BitVec.ofNat w (units'.count f))
    (hothers : ∀ f', f ≠ f' → units'.count f' = units.count f') :
    Balanced (counts.modify f g) units' := by
  refine ⟨by rwa [List.length_modify], fun f' c hc => ?_⟩
  rw [List.getElem?_modify] at hc
  obtain ⟨c', hc', rfl⟩ := Option.map_eq_some_iff.mp hc
  rw [hb.counted f' c' hc']
  split
  · rename_i hff'
    rw [← hff', hf]
  · rename_i hff'
    rw [hothers f' hff']

theorem Balanced.take {counts : List (BitVec w)} {units : List Nat} (hb : Balanced counts units)
    {f : Nat} (hf : f ∈ units) : Balanced (counts.modify f (· + 1)) (f :: units) := by
  refine hb.modify (List.forall_mem_cons.mpr ⟨hb.valid f hf, hb.valid⟩) ?_ fun f' hff' => ?_
  · rw [List.count_cons_self, BitVec.ofNat_add]
    rfl
  · exact List.count_cons_of_ne hff'

theorem Balanced.give {counts : List (BitVec w)} {units : List Nat} {f : Nat}
    (hb : Balanced counts (f :: units)) : Balanced (counts.modify f (· - 1)) units := by
  refine hb.modify (fun f' hf' => hb.valid f' (List.mem_cons_of_mem f hf')) ?_ fun f' hff' => ?_
  · rw [List.count_cons_self, BitVec.ofNat_add]
    exact BitVec.add_sub_cancel _ _
  · exact (List.count_cons_of_ne hff').symm

theorem Balanced.make {counts : List (BitVec w)} {units : List Nat} (hb : Balanced counts units) :
    Balanced (counts ++ [1]) (counts.length :: units) := by
  have hnone := hb.absent
  refine ⟨?_, fun f c hc => ?_⟩
  · rw [List.length_append, List.length_singleton]
    exact List.forall_mem_cons.mpr ⟨by omega, fun f hf => by have := hb.valid f hf; omega⟩
  · rw [List.count_cons]
    rcases Nat.lt_trichotomy f counts.length with hlt | rfl | hgt
    · rw [List.getElem?_append_left hlt] at hc
      rw [hb.counted f c hc]
      simp [Nat.ne_of_gt hlt]
    · rw [List.getElem?_append_right (Nat.le_refl _)] at hc
      simp only [Nat.sub_self, List.getElem?_cons_zero, Option.some.injEq] at hc
      simp [hnone, ← hc]
    · rw [List.getElem?_eq_none (by simp; omega)] at hc
      cases hc

theorem Effect.balanced {counts counts' : List (BitVec w)} {units units' : List Nat}
    (h : Effect counts units counts' units') (hb : Balanced counts units) : Balanced counts' units' := by
  cases h with
  | keep h => exact hb.perm h
  | take hf h => exact (hb.take hf).perm h
  | give h => exact (hb.perm h.symm).give
  | make h => exact hb.make.perm h

/-- What nobody has a unit of, nobody gets one of. -/
theorem Effect.absent {counts counts' : List (BitVec w)} {units units' : List Nat} {f : Nat}
    (h : Effect counts units counts' units') (hf : f < counts.length) (hnone : f ∉ units) :
    f < counts'.length ∧ f ∉ units' := by
  cases h with
  | keep h => exact ⟨hf, fun hmem => hnone (h.subset hmem)⟩
  | take hg h =>
    refine ⟨by rwa [List.length_modify], fun hmem => ?_⟩
    obtain rfl | hmem := List.mem_cons.mp (h.subset hmem)
    · exact hnone hg
    · exact hnone hmem
  | give h =>
    exact ⟨by rwa [List.length_modify], fun hmem => hnone (h.symm.subset (List.mem_cons_of_mem _ hmem))⟩
  | make h =>
    refine ⟨by rw [List.length_append]; omega, fun hmem => ?_⟩
    obtain rfl | hmem := List.mem_cons.mp (h.subset hmem)
    · exact Nat.lt_irrefl _ hf
    · exact hnone hmem

end Ipmb.Counters
