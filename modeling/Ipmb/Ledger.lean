import Mathlib.Data.List.Nodup

namespace Ipmb.Ledger

variable {D : Type} [DecidableEq D]

/-- What each destination has accepted, after those in `ds` have accepted `n` too. -/
def deliver (accepted : D → List Nat) (n : Nat) (ds : List D) : D → List Nat :=
  fun d => if d ∈ ds then accepted d ++ [n] else accepted d

theorem deliver_nil (accepted : D → List Nat) (n : Nat) : deliver accepted n [] = accepted := by
  funext d
  simp [deliver]

theorem mem_deliver (accepted : D → List Nat) (n k : Nat) (ds : List D) (d : D) :
    k ∈ deliver accepted n ds d ↔ k ∈ accepted d ∨ k = n ∧ d ∈ ds := by
  by_cases hd : d ∈ ds <;> simp [deliver, hd]

/-- A store-and-forward ledger: every item that has arrived is accepted, waiting
or lost, and nothing is accepted twice. Items in `single` have one destination. -/
structure Exact (arrived single lost : Nat → Prop) (accepted : D → List Nat)
    (waiting : List Nat) : Prop where
  accepted_arrived : ∀ d, ∀ n ∈ accepted d, arrived n
  accepted_nodup : ∀ d, (accepted d).Nodup
  accepted_single : ∀ n d d', single n → n ∈ accepted d → n ∈ accepted d' → d = d'
  waiting_arrived : ∀ n ∈ waiting, arrived n
  waiting_nodup : waiting.Nodup
  waiting_unaccepted : ∀ n ∈ waiting, ∀ d, n ∉ accepted d
  complete : ∀ n, arrived n → (∃ d, n ∈ accepted d) ∨ n ∈ waiting ∨ lost n

variable {arrived single lost : Nat → Prop} {accepted : D → List Nat} {waiting : List Nat}

omit [DecidableEq D] in
theorem Exact.initial (h : ∀ n, ¬ arrived n) :
    Exact arrived single lost (fun _ : D => []) [] where
  accepted_arrived := by simp
  accepted_nodup := by simp
  accepted_single := by simp
  waiting_arrived := by simp
  waiting_nodup := List.nodup_nil
  waiting_unaccepted := by simp
  complete n hn := absurd hn (h n)

omit [DecidableEq D] in
/-- The predicates may be replaced as long as what is arrived stays the same. -/
theorem Exact.congr {arrived' single' lost' : Nat → Prop}
    (h : Exact arrived single lost accepted waiting) (ha : ∀ n, arrived' n ↔ arrived n)
    (hs : ∀ n, arrived n → single' n → single n) (hl : ∀ n, arrived n → lost n → lost' n) :
    Exact arrived' single' lost' accepted waiting where
  accepted_arrived d n hn := (ha n).mpr (h.accepted_arrived d n hn)
  accepted_nodup := h.accepted_nodup
  accepted_single n d d' hn hd := h.accepted_single n d d' (hs n (h.accepted_arrived d n hd) hn) hd
  waiting_arrived n hn := (ha n).mpr (h.waiting_arrived n hn)
  waiting_nodup := h.waiting_nodup
  waiting_unaccepted := h.waiting_unaccepted
  complete n hn := by
    have hn' := (ha n).mp hn
    obtain hd | hw | hl' := h.complete n hn'
    · exact Or.inl hd
    · exact Or.inr (Or.inl hw)
    · exact Or.inr (Or.inr (hl n hn' hl'))

omit [DecidableEq D] in
/-- A new item is first of all waiting. -/
theorem Exact.arrive {arrived' : Nat → Prop} {n : Nat}
    (h : Exact arrived single lost accepted waiting) (hn : ¬ arrived n)
    (ha : ∀ k, arrived' k ↔ arrived k ∨ k = n) :
    Exact arrived' single lost accepted (waiting ++ [n]) where
  accepted_arrived d k hk := (ha k).mpr (Or.inl (h.accepted_arrived d k hk))
  accepted_nodup := h.accepted_nodup
  accepted_single := h.accepted_single
  waiting_arrived k hk := by
    obtain hk | hk := List.mem_append.mp hk
    · exact (ha k).mpr (Or.inl (h.waiting_arrived k hk))
    · exact (ha k).mpr (Or.inr (List.mem_singleton.mp hk))
  waiting_nodup := by
    refine List.nodup_append.mpr ⟨h.waiting_nodup, List.nodup_singleton n, ?_⟩
    intro a ha' b hb he
    rw [List.mem_singleton] at hb
    exact hn (h.waiting_arrived n (hb ▸ he ▸ ha'))
  waiting_unaccepted k hk d hd := by
    obtain hk | hk := List.mem_append.mp hk
    · exact h.waiting_unaccepted k hk d hd
    · exact hn (h.accepted_arrived d n (List.mem_singleton.mp hk ▸ hd))
  complete k hk := by
    obtain hk | rfl := (ha k).mp hk
    · obtain hd | hw | hl := h.complete k hk
      · exact Or.inl hd
      · exact Or.inr (Or.inl (List.mem_append_left _ hw))
      · exact Or.inr (Or.inr hl)
    · exact Or.inr (Or.inl (by simp))

omit [DecidableEq D] in
theorem nodup_remove {pre post : List Nat} {n : Nat} (h : (pre ++ n :: post).Nodup) :
    (pre ++ post).Nodup ∧ n ∉ pre ++ post := by
  rw [List.nodup_middle, List.nodup_cons] at h
  exact ⟨h.2, h.1⟩

/-- A waiting item leaves the store when it is accepted. -/
theorem Exact.deliver {pre post : List Nat} {n : Nat} {ds : List D}
    (h : Exact arrived single lost accepted (pre ++ n :: post)) (hne : ds ≠ [])
    (hs : single n → ∀ d ∈ ds, ∀ d' ∈ ds, d = d') :
    Exact arrived single lost (deliver accepted n ds) (pre ++ post) where
  accepted_arrived d k hk := by
    obtain hk | ⟨rfl, -⟩ := (mem_deliver accepted n k ds d).mp hk
    · exact h.accepted_arrived d k hk
    · exact h.waiting_arrived k (by simp)
  accepted_nodup d := by
    by_cases hd : d ∈ ds
    · have hn : n ∉ accepted d := h.waiting_unaccepted n (by simp) d
      simp only [Ledger.deliver, hd, if_true]
      refine List.nodup_append.mpr ⟨h.accepted_nodup d, List.nodup_singleton n, ?_⟩
      intro a ha b hb he
      rw [List.mem_singleton] at hb
      exact hn (hb ▸ he ▸ ha)
    · simpa only [Ledger.deliver, hd, if_false] using h.accepted_nodup d
  accepted_single k d d' hk hd hd' := by
    have hno : ∀ d, n ∉ accepted d := h.waiting_unaccepted n (by simp)
    obtain ho | ⟨hkn, ho⟩ := (mem_deliver accepted n k ds d).mp hd
    · obtain ho' | ⟨hkn, -⟩ := (mem_deliver accepted n k ds d').mp hd'
      · exact h.accepted_single k d d' hk ho ho'
      · exact absurd (hkn ▸ ho) (hno d)
    · obtain ho' | ⟨-, ho'⟩ := (mem_deliver accepted n k ds d').mp hd'
      · exact absurd (hkn ▸ ho') (hno d')
      · exact hs (hkn ▸ hk) d ho d' ho'
  waiting_arrived k hk := h.waiting_arrived k (by
    rcases List.mem_append.mp hk with hk | hk <;> simp [hk])
  waiting_nodup := (nodup_remove h.waiting_nodup).1
  waiting_unaccepted k hk d hd := by
    obtain hd | ⟨rfl, -⟩ := (mem_deliver accepted n k ds d).mp hd
    · exact h.waiting_unaccepted k (by
        rcases List.mem_append.mp hk with hk | hk <;> simp [hk]) d hd
    · exact (nodup_remove h.waiting_nodup).2 hk
  complete k hk := by
    obtain ⟨d, hd⟩ | hw | hl := h.complete k hk
    · exact Or.inl ⟨d, (mem_deliver accepted n k ds d).mpr (Or.inl hd)⟩
    · by_cases hkn : k = n
      · obtain ⟨d, hd⟩ := List.exists_mem_of_ne_nil ds hne
        exact Or.inl ⟨d, (mem_deliver accepted n k ds d).mpr (Or.inr ⟨hkn, hd⟩)⟩
      · refine Or.inr (Or.inl ?_)
        simpa [hkn] using hw
    · exact Or.inr (Or.inr hl)

omit [DecidableEq D] in
/-- Waiting items may be dropped if that counts as lost. -/
theorem Exact.drop {waiting' : List Nat} (h : Exact arrived single lost accepted waiting)
    (hw : waiting'.Sublist waiting) (hl : ∀ n ∈ waiting, n ∉ waiting' → lost n) :
    Exact arrived single lost accepted waiting' where
  accepted_arrived := h.accepted_arrived
  accepted_nodup := h.accepted_nodup
  accepted_single := h.accepted_single
  waiting_arrived k hk := h.waiting_arrived k (hw.subset hk)
  waiting_nodup := h.waiting_nodup.sublist hw
  waiting_unaccepted k hk := h.waiting_unaccepted k (hw.subset hk)
  complete k hk := by
    obtain hd | hk' | hl' := h.complete k hk
    · exact Or.inl hd
    · by_cases hkeep : k ∈ waiting'
      · exact Or.inr (Or.inl hkeep)
      · exact Or.inr (Or.inr (hl k hk' hkeep))
    · exact Or.inr (Or.inr hl')

/-- What can have become of an item. -/
inductive Fate where
  | accepted
  | buffered
  | discarded

omit [DecidableEq D] in
def Fate.Of (lost : Nat → Prop) (accepted : D → List Nat) (waiting : List Nat) (n : Nat) :
    Fate → Prop
  | .accepted => (∃ d, n ∈ accepted d) ∧ n ∉ waiting
  | .buffered => (∀ d, n ∉ accepted d) ∧ waiting.count n = 1
  | .discarded => (∀ d, n ∉ accepted d) ∧ n ∉ waiting ∧ lost n

omit [DecidableEq D] in
theorem Exact.existsUnique_fate (h : Exact arrived single lost accepted waiting) {n : Nat}
    (hn : arrived n) : ∃! f, Fate.Of lost accepted waiting n f := by
  by_cases hd : ∃ d, n ∈ accepted d
  · have hw : n ∉ waiting := fun hw => hd.elim (h.waiting_unaccepted n hw)
    refine ⟨.accepted, ⟨hd, hw⟩, ?_⟩
    intro f hf
    cases f with
    | accepted => rfl
    | buffered => exact absurd hd (not_exists.mpr hf.1)
    | discarded => exact absurd hd (not_exists.mpr hf.1)
  · have hd' := not_exists.mp hd
    by_cases hw : n ∈ waiting
    · refine ⟨.buffered, ⟨hd', List.count_eq_one_of_mem h.waiting_nodup hw⟩, ?_⟩
      intro f hf
      cases f with
      | accepted => exact absurd hf.1 hd
      | buffered => rfl
      | discarded => exact absurd hw hf.2.1
    · have hl : lost n := ((h.complete n hn).resolve_left hd).resolve_left hw
      refine ⟨.discarded, ⟨hd', hw, hl⟩, ?_⟩
      intro f hf
      cases f with
      | accepted => exact absurd hf.1 hd
      | buffered =>
        have hc := hf.2
        rw [List.count_eq_zero_of_not_mem hw] at hc
        cases hc
      | discarded => rfl

end Ipmb.Ledger
