import Mathlib.Data.List.Induction

namespace Ipmb.Run

variable {σ τ ι κ : Type}

/-- A run of a system whose step may fail, over a list of inputs. -/
def run (step : σ → ι → Option σ) (s : σ) (is : List ι) : Option σ := is.foldlM step s

@[simp] theorem run_nil (step : σ → ι → Option σ) (s : σ) : run step s [] = some s := rfl

theorem run_cons {step : σ → ι → Option σ} {s t : σ} {i : ι} (h : step s i = some t) (is : List ι) :
    run step s (i :: is) = run step t is := by
  simp only [run, List.foldlM_cons, h]
  rfl

theorem run_append (step : σ → ι → Option σ) (s : σ) (is js : List ι) :
    run step s (is ++ js) = (run step s is).bind (fun t => run step t js) := by
  simp only [run, List.foldlM_append]
  rfl

theorem run_concat (step : σ → ι → Option σ) (s : σ) (is : List ι) (i : ι) :
    run step s (is ++ [i]) = (run step s is).bind (fun t => step t i) := by
  rw [run_append]
  congr 1
  funext t
  simp only [run, List.foldlM_cons, List.foldlM_nil]
  cases step t i <;> rfl

theorem run_concat_some {step : σ → ι → Option σ} {s t : σ} {is : List ι} {i : ι}
    (h : run step s (is ++ [i]) = some t) :
    ∃ u, run step s is = some u ∧ step u i = some t := by
  rw [run_concat] at h
  exact Option.bind_eq_some_iff.mp h

theorem run_prefix {step : σ → ι → Option σ} {s t : σ} {is js : List ι}
    (h : run step s (is ++ js) = some t) :
    ∃ u, run step s is = some u ∧ run step u js = some t := by
  rw [run_append] at h
  exact Option.bind_eq_some_iff.mp h

/-- The invariant rule for runs: the invariant may speak of the inputs so far. -/
theorem run_invariant {step : σ → ι → Option σ} {s : σ} (I : List ι → σ → Prop)
    (h₀ : I [] s)
    (hstep : ∀ is t i u, run step s is = some t → I is t → step t i = some u → I (is ++ [i]) u)
    (is : List ι) (t : σ) (h : run step s is = some t) : I is t := by
  induction is using List.reverseRecOn generalizing t with
  | nil =>
    simp only [run_nil, Option.some.injEq] at h
    exact h ▸ h₀
  | append_singleton is i ih =>
    obtain ⟨u, hu, ht⟩ := run_concat_some h
    exact hstep is u i t hu (ih u hu) ht

/-- Every step of the run from `s` over these inputs satisfies `P`. -/
def Along (step : σ → ι → Option σ) (P : σ → ι → Prop) : σ → List ι → Prop
  | _, [] => True
  | s, i :: is => P s i ∧ ∀ t, step s i = some t → Along step P t is

/-- The invariant rule for runs whose steps all satisfy `P`. -/
theorem along_invariant {step : σ → ι → Option σ} {P : σ → ι → Prop} (I : σ → Prop)
    (hstep : ∀ s i t, I s → P s i → step s i = some t → I t) {s t : σ} {is : List ι} (h₀ : I s)
    (hP : Along step P s is) (h : run step s is = some t) : I t := by
  induction is generalizing s with
  | nil =>
    cases h
    exact h₀
  | cons i is ih =>
    cases hs : step s i with
    | none =>
      simp only [run, List.foldlM_cons, hs] at h
      cases h
    | some u =>
      rw [run_cons hs] at h
      exact ih (hstep s i u h₀ hP.1 hs) (hP.2 u hs) h

theorem Along.mono {step : σ → ι → Option σ} {P Q : σ → ι → Prop} {s : σ} {is : List ι}
    (h : Along step P s is) (hPQ : ∀ s i, P s i → Q s i) : Along step Q s is := by
  induction is generalizing s with
  | nil => trivial
  | cons i is ih => exact ⟨hPQ s i h.1, fun t ht => ih (h.2 t ht)⟩

theorem Along.and {step : σ → ι → Option σ} {P : σ → ι → Prop} {Q : ι → Prop} {s : σ} {is : List ι}
    (h : Along step P s is) (hQ : ∀ i ∈ is, Q i) : Along step (fun s i => Q i ∧ P s i) s is := by
  induction is generalizing s with
  | nil => trivial
  | cons i is ih =>
    exact ⟨⟨hQ i (by simp), h.1⟩, fun t ht => ih (h.2 t ht) fun j hj => hQ j (List.mem_cons_of_mem i hj)⟩

theorem along_of_forall {step : σ → ι → Option σ} {P : σ → ι → Prop} {is : List ι}
    (h : ∀ i ∈ is, ∀ s, P s i) (s : σ) : Along step P s is := by
  induction is generalizing s with
  | nil => trivial
  | cons i is ih =>
    exact ⟨h i (by simp) s, fun t _ => ih (fun j hj => h j (List.mem_cons_of_mem i hj)) t⟩

/-- `p` is true of every step of the run. -/
def passes (step : σ → ι → Option σ) (p : σ → ι → Bool) : σ → List ι → Bool
  | _, [] => true
  | s, i :: is => p s i && (step s i).all (passes step p · is)

theorem along_of_passes {step : σ → ι → Option σ} {P : σ → ι → Prop} {p : σ → ι → Bool}
    (hp : ∀ s i, p s i = true → P s i) {s : σ} {is : List ι} (h : passes step p s is = true) :
    Along step P s is := by
  induction is generalizing s with
  | nil => trivial
  | cons i is ih =>
    obtain ⟨hi, hrest⟩ := Bool.and_eq_true_iff.mp h
    refine ⟨hp s i hi, fun t ht => ih ?_⟩
    rwa [ht] at hrest

/-- A quantity that no step decreases is monotone along a run. -/
theorem run_monotone {step : σ → ι → Option σ} (r : σ → σ → Prop) (hrefl : ∀ s, r s s)
    (htrans : ∀ s t u, r s t → r t u → r s u) (hstep : ∀ s i t, step s i = some t → r s t)
    (s t : σ) (is : List ι) (h : run step s is = some t) : r s t :=
  run_invariant (fun _ u => r s u) (hrefl s)
    (fun _ _ i _ _ hr hs => htrans _ _ _ hr (hstep _ i _ hs)) is t h

/-- The response rule: until it is done, each step of its own brings the system nearer to being
done, and no other step takes it back. -/
theorem run_response {step : σ → ι → Option σ} (own : ι → Bool) (ok : ι → Prop) (done I : σ → Prop)
    (rank : σ → Nat) (hdone : ∀ s i t, done s → step s i = some t → done t)
    (hstep : ∀ s i t, I s → ok i → step s i = some t → done t ∨ I t ∧ rank t + (own i).toNat ≤ rank s)
    {s t : σ} {is : List ι} (hI : I s) (hok : ∀ i ∈ is, ok i) (h : run step s is = some t) :
    done t ∨ I t ∧ rank t + is.countP own ≤ rank s := by
  refine run_invariant (fun is t => (∀ i ∈ is, ok i) → done t ∨ I t ∧ rank t + is.countP own ≤ rank s)
    (fun _ => Or.inr ⟨hI, Nat.le_refl _⟩) (fun is t i u _ ht hu hok => ?_) is t h hok
  rw [List.forall_mem_append, List.forall_mem_singleton] at hok
  obtain ht | ⟨ht, hrank⟩ := ht hok.1
  · exact Or.inl (hdone t i u ht hu)
  · obtain hu | ⟨hu, hle⟩ := hstep t i u ht hok.2 hu
    · exact Or.inl hu
    · refine Or.inr ⟨hu, ?_⟩
      rw [List.countP_append, List.countP_singleton]
      cases hown : own i
      · simp only [hown, Bool.toNat_false] at hle
        simp only [Bool.false_eq_true, if_false]
        omega
      · simp only [hown, Bool.toNat_true] at hle
        simp only [if_true]
        omega

/-- Two systems whose steps agree through `f` have runs that agree, also when the
inputs of the second one carry their position. -/
theorem run_map {step : σ → ι → Option σ} {step' : τ → κ → Option τ} (f : τ → σ)
    (e : Nat → ι → κ) (hstep : ∀ n t i, step (f t) i = (step' t (e n i)).map f)
    (t : τ) (is : List ι) : run step (f t) is = (run step' t (is.mapIdx e)).map f := by
  induction is using List.reverseRecOn with
  | nil => rfl
  | append_singleton is i ih =>
    rw [run_concat, ih, List.mapIdx_concat, run_concat]
    cases run step' t (is.mapIdx e) with
    | none => rfl
    | some u => exact hstep is.length u i

/-- The invariant rule for runs whose inputs carry their position. -/
theorem run_mapIdx_invariant {step : τ → κ → Option τ} {e : Nat → ι → κ} {t : τ}
    (I : List ι → τ → Prop) (h₀ : I [] t)
    (hstep : ∀ is u i v, I is u → step u (e is.length i) = some v → I (is ++ [i]) v)
    (is : List ι) (u : τ) (h : run step t (is.mapIdx e) = some u) : I is u := by
  induction is using List.reverseRecOn generalizing u with
  | nil =>
    simp only [List.mapIdx_nil, run_nil, Option.some.injEq] at h
    exact h ▸ h₀
  | append_singleton is i ih =>
    rw [List.mapIdx_concat] at h
    obtain ⟨v, hv, hu⟩ := run_concat_some h
    exact hstep is v i u (ih v hv) hu

end Ipmb.Run
