import Ipmb.Run

namespace Ipmb.Simulation

open Run

variable {α β γ δ σ τ ι : Type}

theorem rel_bind {r : α → β → Prop} {q : γ → δ → Prop} {a : Option α} {b : Option β} {f : α → Option γ}
    {g : β → Option δ} (h : Option.Rel r a b) (hfg : ∀ x y, r x y → Option.Rel q (f x) (g y)) :
    Option.Rel q (a.bind f) (b.bind g) := by
  cases h with
  | none => exact .none
  | some h => exact hfg _ _ h

/-- The simulation rule for runs: two systems in step stay in step, and one of them stops when
the other one does. -/
theorem run_rel {step : σ → ι → Option σ} {step' : τ → ι → Option τ} {r : σ → τ → Prop}
    (hstep : ∀ s t i, r s t → Option.Rel r (step s i) (step' t i)) {s : σ} {t : τ} (h : r s t) (is : List ι) :
    Option.Rel r (run step s is) (run step' t is) := by
  induction is generalizing s t with
  | nil => exact .some h
  | cons i is ih =>
    simp only [run, List.foldlM_cons]
    exact rel_bind (hstep s t i h) fun _ _ hr => ih hr

/-- From related states the two programs fail together, or they return the same and end in
related states. -/
def Sim (r : σ → τ → Prop) (p : StateT σ Option α) (q : StateT τ Option α) : Prop :=
  ∀ s t, r s t → Option.Rel (fun x y => x.1 = y.1 ∧ r x.2 y.2) (p.run s) (q.run t)

variable {r : σ → τ → Prop}

theorem Sim.pure (x : α) : Sim r (Pure.pure x) (Pure.pure x) := fun _ _ h => .some ⟨rfl, h⟩

theorem Sim.bind {p : StateT σ Option α} {q : StateT τ Option α} {f : α → StateT σ Option β}
    {g : α → StateT τ Option β} (h : Sim r p q) (hfg : ∀ x, Sim r (f x) (g x)) :
    Sim r (p >>= f) (q >>= g) := by
  intro s t hst
  rw [StateT.run_bind, StateT.run_bind]
  refine rel_bind (h s t hst) ?_
  rintro ⟨x, s⟩ ⟨y, t⟩ ⟨hxy, hst⟩
  cases hxy
  exact hfg x s t hst

theorem Sim.map {p : StateT σ Option α} {q : StateT τ Option α} (f : α → β) (h : Sim r p q) :
    Sim r (f <$> p) (f <$> q) := by
  rw [map_eq_pure_bind, map_eq_pure_bind]
  exact h.bind fun x => .pure (f x)

/-- The system that runs a program for each input, and keeps what they return. -/
def logged (p : ι → StateT σ Option α) (s : σ × List α) (i : ι) : Option (σ × List α) :=
  ((p i).run s.1).map fun x => (x.2, s.2 ++ [x.1])

theorem logged_rel {p : ι → StateT σ Option α} {q : ι → StateT τ Option α}
    (h : ∀ i, Sim r (p i) (q i)) {s : σ} {t : τ}
    (hst : r s t) (is : List ι) :
    Option.Rel (fun (x : σ × List α) (y : τ × List α) => r x.1 y.1 ∧ x.2 = y.2) (run (logged p) (s, []) is)
      (run (logged q) (t, []) is) := by
  refine run_rel (r := fun (x : σ × List α) (y : τ × List α) => r x.1 y.1 ∧ x.2 = y.2) ?_ ⟨hst, rfl⟩ is
  rintro ⟨s, l⟩ ⟨t, l'⟩ i ⟨hst, hl⟩
  cases hl
  rw [logged, logged, Option.map_eq_bind, Option.map_eq_bind]
  refine rel_bind (h i s t hst) ?_
  rintro ⟨x, s⟩ ⟨y, t⟩ ⟨hxy, hst⟩
  cases hxy
  exact .some ⟨hst, rfl⟩

end Ipmb.Simulation
