import Mathlib.Data.List.Basic

namespace Ipmb.Retain

variable {α β σ τ : Type}

/-- In-place filtering whose closure also updates the variables it captures:
the elements are visited once each, in order. -/
def retain (f : α → σ → Bool × σ) : List α → σ → List α × σ
  | [], s => ([], s)
  | a :: as, s =>
    let r := f a s
    let rest := retain f as r.2
    (if r.1 then a :: rest.1 else rest.1, rest.2)

@[simp] theorem retain_nil (f : α → σ → Bool × σ) (s : σ) : retain f [] s = ([], s) := rfl

theorem retain_cons (f : α → σ → Bool × σ) (a : α) (as : List α) (s : σ) :
    retain f (a :: as) s =
      (if (f a s).1 then a :: (retain f as (f a s).2).1 else (retain f as (f a s).2).1,
        (retain f as (f a s).2).2) := rfl

theorem retain_sublist (f : α → σ → Bool × σ) (as : List α) (s : σ) :
    (retain f as s).1.Sublist as := by
  induction as generalizing s with
  | nil => exact List.Sublist.refl []
  | cons a as ih =>
    rw [retain_cons]
    by_cases hk : (f a s).1 = true
    · simpa only [hk, if_true] using (ih (f a s).2).cons_cons a
    · simpa only [hk, Bool.false_eq_true, if_false] using (ih (f a s).2).cons a

/-- The invariant rule. `I done kept s` speaks of the elements already visited,
those of them that stay, and the captured state. -/
theorem retain_invariant (f : α → σ → Bool × σ) (I : List α → List α → σ → Prop)
    (as done kept : List α) (s : σ) (h : I done kept s)
    (step : ∀ done kept a s, a ∈ as → I done kept s →
      I (done ++ [a]) (if (f a s).1 then kept ++ [a] else kept) (f a s).2) :
    I (done ++ as) (kept ++ (retain f as s).1) (retain f as s).2 := by
  induction as generalizing done kept s with
  | nil => simpa using h
  | cons a as ih =>
    have hs := step done kept a s (by simp) h
    have hr := ih _ _ _ hs (fun d k b t hb => step d k b t (List.mem_cons_of_mem a hb))
    rw [retain_cons]
    by_cases hk : (f a s).1 = true
    · simpa only [hk, if_true, List.append_assoc, List.singleton_append] using hr
    · simpa only [hk, Bool.false_eq_true, if_false, List.append_assoc, List.singleton_append] using hr

/-- Two closures that agree up to a map on the elements and a relation on the
captured state keep corresponding elements. -/
theorem retain_simulation (f : α → σ → Bool × σ) (g : β → τ → Bool × τ) (e : α → β)
    (R : σ → τ → Prop)
    (step : ∀ a s t, R s t → (f a s).1 = (g (e a) t).1 ∧ R (f a s).2 (g (e a) t).2)
    (as : List α) (s : σ) (t : τ) (h : R s t) :
    (retain f as s).1.map e = (retain g (as.map e) t).1 ∧
      R (retain f as s).2 (retain g (as.map e) t).2 := by
  induction as generalizing s t with
  | nil => exact ⟨rfl, h⟩
  | cons a as ih =>
    obtain ⟨hb, hr⟩ := step a s t h
    obtain ⟨hm, hn⟩ := ih _ _ hr
    rw [List.map_cons, retain_cons, retain_cons, ← hb]
    refine ⟨?_, hn⟩
    cases (f a s).1 with
    | false => exact hm
    | true => exact congrArg (e a :: ·) hm

end Ipmb.Retain
