import Mathlib.Data.List.Basic

namespace Ipmb.Faults

/-- Why a computation has no result: it returned an error, or it went wrong. -/
inductive Stop (F E : Type) where
  | fault (f : F)
  | error (e : E)
deriving DecidableEq

variable {F E α β : Type}

/-- The computation does not go wrong, and its result, if it has one, satisfies `P`. -/
def Settles (P : α → Prop) : Except (Stop F E) α → Prop
  | .ok a => P a
  | .error (.error _) => True
  | .error (.fault _) => False

@[simp] theorem settles_ok (P : α → Prop) (a : α) :
    Settles P (.ok a : Except (Stop F E) α) ↔ P a := Iff.rfl

@[simp] theorem settles_error (P : α → Prop) (e : E) :
    Settles P (.error (.error e) : Except (Stop F E) α) ↔ True := Iff.rfl

@[simp] theorem settles_fault (P : α → Prop) (f : F) :
    Settles P (.error (.fault f) : Except (Stop F E) α) ↔ False := Iff.rfl

theorem settles_bind (P : β → Prop) (r : Except (Stop F E) α) (f : α → Except (Stop F E) β) :
    Settles P (r.bind f) ↔ Settles (fun a => Settles P (f a)) r := by
  rcases r with (_ | _) | _ <;> exact Iff.rfl

/-- Every error that the computation returns satisfies `Q`. -/
def Fails (Q : E → Prop) : Except (Stop F E) α → Prop
  | .error (.error e) => Q e
  | .error (.fault _) => True
  | .ok _ => True

@[simp] theorem fails_ok (Q : E → Prop) (a : α) :
    Fails Q (.ok a : Except (Stop F E) α) ↔ True := Iff.rfl

@[simp] theorem fails_error (Q : E → Prop) (e : E) :
    Fails Q (.error (.error e) : Except (Stop F E) α) ↔ Q e := Iff.rfl

@[simp] theorem fails_fault (Q : E → Prop) (f : F) :
    Fails Q (.error (.fault f) : Except (Stop F E) α) ↔ True := Iff.rfl

theorem Fails.bind {Q : E → Prop} {r : Except (Stop F E) α} {f : α → Except (Stop F E) β}
    (h : Fails Q r) (hf : ∀ a, r = .ok a → Fails Q (f a)) : Fails Q (r.bind f) := by
  obtain (_ | _) | a := r
  · trivial
  · exact h
  · exact hf a rfl

theorem Fails.map {Q : E → Prop} {r : Except (Stop F E) α} (h : Fails Q r) (f : α → β) :
    Fails Q (r.map f) := by
  obtain (_ | _) | a := r
  · trivial
  · exact h
  · trivial

theorem Fails.mono {Q Q' : E → Prop} {r : Except (Stop F E) α} (h : Fails Q r)
    (hQ : ∀ e, Q e → Q' e) : Fails Q' r := by
  obtain (_ | _) | a := r
  · trivial
  · exact hQ _ h
  · trivial

/-- What a computation that does not go wrong returns. -/
def outcome : Except (Stop F E) α → Option (Except E α)
  | .ok a => some (.ok a)
  | .error (.error e) => some (.error e)
  | .error (.fault _) => none

theorem outcome_ok {r : Except (Stop F E) α} {a : α} : outcome r = some (.ok a) ↔ r = .ok a := by
  obtain (_ | _) | _ := r <;> simp [outcome]

theorem outcome_error {r : Except (Stop F E) α} {e : E} :
    outcome r = some (.error e) ↔ r = .error (.error e) := by
  obtain (_ | _) | _ := r <;> simp [outcome]

theorem Fails.outcome {Q : E → Prop} {r : Except (Stop F E) α} {e : E} (h : Fails Q r)
    (he : outcome r = some (.error e)) : Q e := by
  rw [outcome_error.mp he] at h
  exact h

theorem bind_eq_ok {r : Except (Stop F E) α} {f : α → Except (Stop F E) β} {b : β} :
    r.bind f = .ok b ↔ ∃ a, r = .ok a ∧ f a = .ok b := by
  cases r with
  | error e => simp [Except.bind]
  | ok a => simp [Except.bind]

theorem map_eq_ok {r : Except (Stop F E) α} {f : α → β} {b : β} :
    r.map f = .ok b ↔ ∃ a, r = .ok a ∧ f a = b := by
  cases r with
  | error e => simp [Except.map]
  | ok a => simp [Except.map]

theorem settles_map (P : β → Prop) (r : Except (Stop F E) α) (f : α → β) :
    Settles P (r.map f) ↔ Settles (fun a => P (f a)) r := by
  rcases r with (_ | _) | _ <;> exact Iff.rfl

/-- A computation on each element that can only go wrong or give `g`. -/
theorem mapM_eq_ok {f : α → Except (Stop F E) β} {g : α → β} (l : List α)
    (h : ∀ a ∈ l, f a = .ok (g a)) : l.mapM f = .ok (l.map g) := by
  induction l with
  | nil => rfl
  | cons a l ih =>
    rw [List.mapM_cons, h a (by simp), ih (fun b hb => h b (List.mem_cons_of_mem a hb))]
    rfl

/-- A computation that succeeds on every element of `l` succeeds, under a renaming `g`,
with the renamed results. -/
theorem mapM_map_of_ok {γ δ : Type} {f : α → Except (Stop F E) β} {f' : γ → Except (Stop F E) δ}
    {g : α → γ} {h : β → δ} {l : List α} {r : List β} (hl : l.mapM f = .ok r)
    (step : ∀ a ∈ l, ∀ b, f a = .ok b → f' (g a) = .ok (h b)) :
    (l.map g).mapM f' = .ok (r.map h) := by
  induction l generalizing r with
  | nil =>
    cases hl
    rfl
  | cons a l ih =>
    rw [List.mapM_cons] at hl
    cases hb : f a with
    | error e =>
      rw [hb] at hl
      cases hl
    | ok b =>
      cases hbs : l.mapM f with
      | error e =>
        rw [hb, hbs] at hl
        cases hl
      | ok bs =>
        rw [hb, hbs] at hl
        cases hl
        rw [List.map_cons, List.mapM_cons, step a (by simp) b hb,
          ih hbs (fun a' ha' => step a' (List.mem_cons_of_mem a ha'))]
        rfl

theorem length_of_mapM {f : α → Except (Stop F E) β} {l : List α} {r : List β} (h : l.mapM f = .ok r) :
    r.length = l.length := by
  have hunits : (l.map id).mapM (fun _ => (.ok () : Except (Stop F E) Unit)) = .ok (r.map fun _ => ()) :=
    mapM_map_of_ok h fun _ _ _ _ => rfl
  rw [mapM_eq_ok (g := fun _ => ()) (l.map id) fun _ _ => rfl] at hunits
  have hlen := congrArg List.length (Except.ok.inj hunits)
  rw [List.length_map, List.length_map, List.length_map] at hlen
  exact hlen.symm

theorem mapM_eq_fault {f : α → Except (Stop F E) β} {x : F} (l : List α)
    (h : ∀ a ∈ l, (∃ b, f a = .ok b) ∨ f a = .error (.fault x)) {a : α} (ha : a ∈ l)
    (hx : f a = .error (.fault x)) : l.mapM f = .error (.fault x) := by
  induction l with
  | nil => cases ha
  | cons b l ih =>
    rw [List.mapM_cons]
    obtain ⟨c, hc⟩ | hb := h b (by simp)
    · obtain rfl | ha := List.mem_cons.mp ha
      · rw [hx] at hc
        cases hc
      · rw [hc, ih (fun b hb => h b (List.mem_cons_of_mem _ hb)) ha]
        rfl
    · rw [hb]
      rfl

end Ipmb.Faults
