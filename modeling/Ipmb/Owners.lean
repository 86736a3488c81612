import Mathlib.Logic.Function.Basic

namespace Ipmb.Owners

open Function (update update_self update_of_ne)

variable {X A V : Type} [DecidableEq X] [DecidableEq A]

/-- Every owner that has a value has a cell of its own with that value, and no cell is without an
owner. -/
structure Owns (cell : A → Option V) (ptr : X → Option A) (val : X → Option V) : Prop where
  value : ∀ x, val x = (ptr x).bind cell
  live : ∀ x a, ptr x = some a → (cell a).isSome = true
  unique : ∀ x y a, ptr x = some a → ptr y = some a → x = y
  owned : ∀ a, (cell a).isSome = true → ∃ x, ptr x = some a

variable {cell : A → Option V} {ptr : X → Option A} {val : X → Option V} {x : X} {a : A} {v : V}

omit [DecidableEq X] [DecidableEq A] in
theorem owns_nothing : Owns (fun _ : A => (none : Option V)) (fun _ : X => none) fun _ => none where
  value _ := rfl
  live _ _ h := by cases h
  unique _ _ _ h := by cases h
  owned _ h := by cases h

namespace Owns

omit [DecidableEq X] [DecidableEq A] in
theorem null (h : Owns cell ptr val) (hx : ptr x = none) : val x = none := by
  rw [h.value, hx]
  rfl

omit [DecidableEq X] [DecidableEq A] in
theorem get (h : Owns cell ptr val) (hx : ptr x = some a) : val x = cell a := by
  rw [h.value, hx]
  rfl

/-- The owner gives its cell back. -/
theorem free (h : Owns cell ptr val) (hx : ptr x = some a) :
    Owns (update cell a none) (update ptr x none) (update val x none) where
  value y := by
    by_cases hy : y = x
    · subst hy
      simp only [update_self, Option.bind_none]
    · rw [update_of_ne hy, update_of_ne hy, h.value]
      cases hp : ptr y with
      | none => rfl
      | some b =>
        have hba : b ≠ a := fun hba => hy (h.unique y x a (hba ▸ hp) hx)
        simp only [Option.bind_some, update_of_ne hba]
  live y b hb := by
    by_cases hy : y = x
    · subst hy
      rw [update_self] at hb
      cases hb
    · rw [update_of_ne hy] at hb
      have hba : b ≠ a := fun hba => hy (h.unique y x a (hba ▸ hb) hx)
      rw [update_of_ne hba]
      exact h.live y b hb
  unique y z b hy hz := by
    by_cases hyx : y = x
    · subst hyx
      rw [update_self] at hy
      cases hy
    · by_cases hzx : z = x
      · subst hzx
        rw [update_self] at hz
        cases hz
      · rw [update_of_ne hyx] at hy
        rw [update_of_ne hzx] at hz
        exact h.unique y z b hy hz
  owned b hb := by
    by_cases hba : b = a
    · subst hba
      rw [update_self] at hb
      cases hb
    · rw [update_of_ne hba] at hb
      obtain ⟨y, hy⟩ := h.owned b hb
      have hyx : y ≠ x := fun hyx => hba (Option.some.inj (hy.symm.trans (hyx ▸ hx)))
      exact ⟨y, by rw [update_of_ne hyx, hy]⟩

/-- An owner without a cell gets a new one. -/
theorem alloc (h : Owns cell ptr val) (hx : ptr x = none) (ha : cell a = none) (v : V) :
    Owns (update cell a (some v)) (update ptr x (some a)) (update val x (some v)) where
  value y := by
    by_cases hy : y = x
    · subst hy
      simp only [update_self, Option.bind_some]
    · rw [update_of_ne hy, update_of_ne hy, h.value]
      cases hp : ptr y with
      | none => rfl
      | some b =>
        have hba : b ≠ a := fun hba => by
          have hlive := h.live y b hp
          rw [hba, ha] at hlive
          cases hlive
        simp only [Option.bind_some, update_of_ne hba]
  live y b hb := by
    by_cases hba : b = a
    · rw [hba, update_self]
      rfl
    · by_cases hy : y = x
      · subst hy
        rw [update_self, Option.some.injEq] at hb
        exact absurd hb.symm hba
      · rw [update_of_ne hy] at hb
        rw [update_of_ne hba]
        exact h.live y b hb
  unique y z b hy hz := by
    have hold : ∀ w, w ≠ x → update ptr x (some a) w = some a → False := by
      intro w hw hwa
      rw [update_of_ne hw] at hwa
      have hlive := h.live w a hwa
      rw [ha] at hlive
      cases hlive
    by_cases hyx : y = x
    · subst hyx
      rw [update_self, Option.some.injEq] at hy
      subst hy
      by_contra hne
      exact hold z (Ne.symm hne) hz
    · by_cases hzx : z = x
      · subst hzx
        rw [update_self, Option.some.injEq] at hz
        subst hz
        exact (hold y hyx hy).elim
      · rw [update_of_ne hyx] at hy
        rw [update_of_ne hzx] at hz
        exact h.unique y z b hy hz
  owned b hb := by
    by_cases hba : b = a
    · exact ⟨x, by rw [update_self, hba]⟩
    · rw [update_of_ne hba] at hb
      obtain ⟨y, hy⟩ := h.owned b hb
      have hyx : y ≠ x := by
        rintro rfl
        rw [hx] at hy
        cases hy
      exact ⟨y, by rw [update_of_ne hyx, hy]⟩

/-- The owner writes to its cell. -/
theorem write (h : Owns cell ptr val) (hx : ptr x = some a) (v : V) :
    Owns (update cell a (some v)) ptr (update val x (some v)) := by
  have hptr : update ptr x (some a) = ptr := Function.update_eq_self_iff.mpr hx.symm
  have hrest := (h.free hx).alloc (update_self ..) (update_self a none cell) v
  rwa [Function.update_idem, Function.update_idem, Function.update_idem, hptr] at hrest

/-- What `y` has goes to `x`, which has nothing. -/
theorem move (h : Owns cell ptr val) (hx : ptr x = none) (y : X) :
    Owns cell (update (update ptr y none) x (ptr y)) (update (update val y none) x (val y)) := by
  cases hy : ptr y with
  | none =>
    have hptr : update ptr y none = ptr := Function.update_eq_self_iff.mpr hy.symm
    have hval : update val y none = val := Function.update_eq_self_iff.mpr (h.null hy).symm
    rwa [hptr, hval, h.null hy, Function.update_eq_self_iff.mpr hx.symm,
      Function.update_eq_self_iff.mpr (h.null hx).symm]
  | some a =>
    obtain ⟨v, hv⟩ := Option.isSome_iff_exists.mp (h.live y a hy)
    have hxy : x ≠ y := by
      rintro rfl
      rw [hx] at hy
      cases hy
    have hrest := (h.free hy).alloc (x := x) (by rw [update_of_ne hxy, hx]) (update_self a none cell) v
    rwa [Function.update_idem, Function.update_eq_self_iff.mpr hv.symm, ← hv, ← h.get hy] at hrest

end Owns

end Ipmb.Owners
