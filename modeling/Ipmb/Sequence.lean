import Mathlib.Data.List.Sort
import Ipmb.Ledger

namespace Ipmb.Sequence

open Ledger

variable {D : Type}

/-- An order-preserving store-and-forward queue. Items are numbered in order of
arrival; `wants d n` says that destination `d` is there and would take item `n`.
During a flush `pending` is still to be offered again and `kept` has been. -/
structure Ordered (wants : D → Nat → Prop) (accepted : D → List Nat) (kept pending : List Nat) :
    Prop where
  accepted_sorted : ∀ d, (accepted d).Pairwise (· < ·)
  waiting_sorted : (kept ++ pending).Pairwise (· < ·)
  kept_clear : ∀ n ∈ kept, ∀ d, ¬ wants d n
  pending_ahead : ∀ n ∈ pending, ∀ d, wants d n → ∀ k ∈ accepted d, k < n

variable {wants wants' : D → Nat → Prop} {accepted : D → List Nat} {kept pending : List Nat} {n : Nat}

theorem Ordered.initial : Ordered wants (fun _ => []) [] [] where
  accepted_sorted _ := List.Pairwise.nil
  waiting_sorted := List.Pairwise.nil
  kept_clear := by simp
  pending_ahead := by simp

theorem Ordered.shrink (h : Ordered wants accepted kept pending)
    (hw : ∀ d, ∀ n ∈ kept ++ pending, wants' d n → wants d n) :
    Ordered wants' accepted kept pending where
  accepted_sorted := h.accepted_sorted
  waiting_sorted := h.waiting_sorted
  kept_clear n hn d hd := h.kept_clear n hn d (hw d n (List.mem_append_left _ hn) hd)
  pending_ahead n hn d hd := h.pending_ahead n hn d (hw d n (List.mem_append_right _ hn) hd)

/-- A destination that joins starts with nothing accepted, so the whole queue may
be offered to it. -/
theorem Ordered.join (h : Ordered wants accepted kept [])
    (hw : ∀ d, ∀ n ∈ kept, wants' d n → wants d n ∨ accepted d = []) :
    Ordered wants' accepted [] kept where
  accepted_sorted := h.accepted_sorted
  waiting_sorted := by simpa using h.waiting_sorted
  kept_clear := by simp
  pending_ahead n hn d hd k hk := by
    obtain hd | he := hw d n hn hd
    · exact absurd hd (h.kept_clear n hn d)
    · rw [he] at hk
      cases hk

theorem Ordered.arrive (h : Ordered wants accepted kept [])
    (hk : ∀ k ∈ kept, k < n) (ha : ∀ d, ∀ k ∈ accepted d, k < n) :
    Ordered wants accepted kept [n] where
  accepted_sorted := h.accepted_sorted
  waiting_sorted := by
    refine List.pairwise_append.mpr ⟨by simpa using h.waiting_sorted, List.pairwise_singleton _ n, ?_⟩
    intro k hk' m hm
    rw [List.mem_singleton] at hm
    exact hm ▸ hk k hk'
  kept_clear := h.kept_clear
  pending_ahead m hm d _ k hk' := by
    rw [List.mem_singleton] at hm
    exact hm ▸ ha d k hk'

theorem Ordered.head_before (h : Ordered wants accepted kept (n :: pending)) :
    ∀ m ∈ pending, n < m :=
  (List.pairwise_cons.mp (List.pairwise_append.mp h.waiting_sorted).2.1).1

/-- The head of the queue is accepted by destinations that want it. -/
theorem Ordered.deliver [DecidableEq D] {ds : List D}
    (h : Ordered wants accepted kept (n :: pending)) (hds : ∀ d ∈ ds, wants d n) :
    Ordered wants (deliver accepted n ds) kept pending where
  accepted_sorted d := by
    by_cases hd : d ∈ ds
    · simp only [Ledger.deliver, hd, if_true]
      refine List.pairwise_append.mpr ⟨h.accepted_sorted d, List.pairwise_singleton _ n, ?_⟩
      intro k hk m hm
      rw [List.mem_singleton] at hm
      exact hm ▸ h.pending_ahead n (by simp) d (hds d hd) k hk
    · simpa only [Ledger.deliver, hd, if_false] using h.accepted_sorted d
  waiting_sorted := by
    refine h.waiting_sorted.sublist (List.Sublist.append_left ?_ kept)
    exact List.sublist_cons_self n pending
  kept_clear := h.kept_clear
  pending_ahead m hm d hd k hk := by
    obtain hk | ⟨rfl, -⟩ := (mem_deliver accepted n k ds d).mp hk
    · exact h.pending_ahead m (List.mem_cons_of_mem n hm) d hd k hk
    · exact h.head_before m hm

/-- The head of the queue is kept because no destination wants it. -/
theorem Ordered.hold (h : Ordered wants accepted kept (n :: pending)) (hn : ∀ d, ¬ wants d n) :
    Ordered wants accepted (kept ++ [n]) pending where
  accepted_sorted := h.accepted_sorted
  waiting_sorted := by
    simpa only [List.append_assoc, List.singleton_append] using h.waiting_sorted
  kept_clear m hm d := by
    obtain hm | hm := List.mem_append.mp hm
    · exact h.kept_clear m hm d
    · rw [List.mem_singleton] at hm
      exact hm ▸ hn d
  pending_ahead m hm := h.pending_ahead m (List.mem_cons_of_mem n hm)

/-- Waiting items may be dropped. -/
theorem Ordered.drop {kept' pending' : List Nat} (h : Ordered wants accepted kept pending)
    (hk : kept'.Sublist kept) (hp : pending'.Sublist pending) :
    Ordered wants accepted kept' pending' where
  accepted_sorted := h.accepted_sorted
  waiting_sorted := h.waiting_sorted.sublist (hk.append hp)
  kept_clear m hm := h.kept_clear m (hk.subset hm)
  pending_ahead m hm := h.pending_ahead m (hp.subset hm)

/-- Items taken in increasing order of their numbers form a subsequence of any
list that is numbered increasingly and contains them. -/
theorem sublist_of_increasing {α : Type} (number : α → Option Nat) {l m : List α}
    (hl : (l.filterMap number).Pairwise (· < ·)) (hm : (m.filterMap number).Pairwise (· < ·))
    (hnum : ∀ a ∈ m, number a ≠ none) (h : l ⊆ m) : l.Sublist m := by
  have hrel : ∀ k ⊆ m, (k.filterMap number).Pairwise (· < ·) →
      k.Pairwise (fun a b => ∃ i j, number a = some i ∧ number b = some j ∧ i < j) := by
    intro k hk hp
    apply (List.pairwise_filterMap.mp hp).imp_of_mem
    intro a b ha hb hab
    obtain ⟨i, hi⟩ := Option.ne_none_iff_exists'.mp (hnum a (hk ha))
    obtain ⟨j, hj⟩ := Option.ne_none_iff_exists'.mp (hnum b (hk hb))
    exact ⟨i, j, hi, hj, hab i hi j hj⟩
  have hl' := hrel l h hl
  have hm' := hrel m (List.Subset.refl m) hm
  have hnodup : l.Nodup := by
    apply hl'.imp
    rintro a b ⟨i, j, hi, hj, hij⟩ rfl
    rw [hi, Option.some.injEq] at hj
    exact absurd hij (hj ▸ Nat.lt_irrefl i)
  have hanti : Std.Antisymm
      (fun a b => ∃ i j, number a = some i ∧ number b = some j ∧ i < j) := by
    constructor
    rintro a b ⟨i, j, hi, hj, hij⟩ ⟨j', i', hj', hi', hji⟩
    rw [hi, Option.some.injEq] at hi'
    rw [hj, Option.some.injEq] at hj'
    omega
  exact List.sublist_of_subperm_of_pairwise (List.subperm_of_subset hnodup h) hl' hm'

end Ipmb.Sequence
