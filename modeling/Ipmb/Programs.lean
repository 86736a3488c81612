import Mathlib.Init

namespace Ipmb.Programs

variable {Op : Type} {Ans : Op → Type} {α β : Type}

/-- A program: its result, or a call with what comes after each answer. -/
inductive Prog (Op : Type) (Ans : Op → Type) (α : Type) where
  | ret (a : α)
  | call (o : Op) (next : Ans o → Prog Op Ans α)

namespace Prog

def bind : Prog Op Ans α → (α → Prog Op Ans β) → Prog Op Ans β
  | .ret a, k => k a
  | .call o next, k => .call o fun x => (next x).bind k

instance : Monad (Prog Op Ans) where
  pure := .ret
  bind := .bind

def perform (o : Op) : Prog Op Ans (Ans o) := .call o .ret

end Prog

namespace Prog

theorem bind_assoc {γ : Type} (p : Prog Op Ans α) (k : α → Prog Op Ans β) (l : β → Prog Op Ans γ) :
    (p.bind k).bind l = p.bind fun a => (k a).bind l := by
  induction p with
  | ret a => rfl
  | call o next ih =>
    apply congrArg (Prog.call o)
    funext x
    exact ih x

theorem bind_ret (p : Prog Op Ans α) : p.bind .ret = p := by
  induction p with
  | ret a => rfl
  | call o next ih =>
    apply congrArg (Prog.call o)
    funext x
    exact ih x

variable {Op' : Type} {Ans' : Op' → Type}

/-- The program with other calls in the place of its own. -/
def interpret (h : (o : Op') → Prog Op Ans (Ans' o)) : Prog Op' Ans' α → Prog Op Ans α
  | .ret a => .ret a
  | .call o next => (h o).bind fun x => (next x).interpret h

variable {h : (o : Op') → Prog Op Ans (Ans' o)}

theorem interpret_bind (p : Prog Op' Ans' α) (k : α → Prog Op' Ans' β) :
    (p.bind k).interpret h = (p.interpret h).bind fun a => (k a).interpret h := by
  induction p with
  | ret a => rfl
  | call o next ih =>
    rw [bind, interpret, interpret, bind_assoc]
    apply congrArg (h o).bind
    funext x
    exact ih x

theorem interpret_perform (o : Op') : (perform o).interpret h = h o := bind_ret (h o)

/-- A program of which each call is carried out as itself. -/
theorem interpret_eq_self {h : (o : Op) → Prog Op Ans (Ans o)} (hself : ∀ o, h o = perform o)
    (p : Prog Op Ans α) : p.interpret h = p := by
  induction p with
  | ret a => rfl
  | call o next ih =>
    rw [interpret, hself, perform, bind]
    apply congrArg (Prog.call o)
    funext x
    exact ih x

theorem interpret_interpret {Op'' : Type} {Ans'' : Op'' → Type}
    (h' : (o : Op'') → Prog Op' Ans' (Ans'' o)) (p : Prog Op'' Ans'' α) :
    (p.interpret h').interpret h = p.interpret fun o => (h' o).interpret h := by
  induction p with
  | ret a => rfl
  | call o next ih =>
    rw [interpret, interpret_bind, interpret]
    apply congrArg ((h' o).interpret h).bind
    funext x
    exact ih x

end Prog

/-- What a program may know: when it may make a call, and what it may know after an answer. -/
structure Rules (Op : Type) (Ans : Op → Type) (G : Type) where
  pre : G → Op → Prop
  post : G → (o : Op) → Ans o → G → Prop

variable {G : Type}

/-- A program that knows `g` makes only calls that it may make, and knows `Q` in the end. -/
def Rules.Holds (R : Rules Op Ans G) (Q : α → G → Prop) : Prog Op Ans α → G → Prop
  | .ret a, g => Q a g
  | .call o next, g => R.pre g o ∧ ∀ x g', R.post g o x g' → R.Holds Q (next x) g'

variable {R : Rules Op Ans G} {Q Q' : α → G → Prop}

@[simp] theorem Rules.holds_pure (a : α) (g : G) : R.Holds Q (pure a) g ↔ Q a g := Iff.rfl

theorem Rules.Holds.mono {p : Prog Op Ans α} {g : G} (h : R.Holds Q p g) (hQ : ∀ a g, Q a g → Q' a g) :
    R.Holds Q' p g := by
  induction p generalizing g with
  | ret a => exact hQ a g h
  | call o next ih => exact ⟨h.1, fun x g' hx => ih x (h.2 x g' hx)⟩

theorem Rules.holds_bind {Q : β → G → Prop} {p : Prog Op Ans α} {k : α → Prog Op Ans β} {g : G} :
    R.Holds Q (p >>= k) g ↔ R.Holds (fun a g => R.Holds Q (k a) g) p g := by
  induction p generalizing g with
  | ret a => exact Iff.rfl
  | call o next ih =>
    refine and_congr_right fun _ => forall_congr' fun x => forall_congr' fun g' => ?_
    exact imp_congr_right fun _ => ih x

/-- The rule for sequences. -/
theorem Rules.Holds.bind {Q : β → G → Prop} {M : α → G → Prop} {p : Prog Op Ans α}
    {k : α → Prog Op Ans β} {g : G} (h : R.Holds M p g) (hk : ∀ a g, M a g → R.Holds Q (k a) g) :
    R.Holds Q (p >>= k) g := Rules.holds_bind.mpr (h.mono hk)

/-- A program whose calls may always be made. -/
theorem Rules.holds_of_pre (hpre : ∀ g o, R.pre g o) (p : Prog Op Ans α) (g : G) :
    R.Holds (fun _ _ => True) p g := by
  induction p generalizing g with
  | ret a => trivial
  | call o next ih => exact ⟨hpre g o, fun x g' _ => ih x g'⟩

/-- The rule for calls. -/
theorem Rules.holds_perform {o : Op} {Q : Ans o → G → Prop} {g : G} (hpre : R.pre g o)
    (hpost : ∀ x g', R.post g o x g' → Q x g') : R.Holds Q (Prog.perform o) g := ⟨hpre, hpost⟩

/-- The rule for a program with other calls in the place of its own, when these keep the rules
of the calls that they replace. -/
theorem Rules.Holds.interpret {Op' : Type} {Ans' : Op' → Type} {R' : Rules Op' Ans' G}
    {h : (o : Op') → Prog Op Ans (Ans' o)}
    (hkeeps : ∀ g o, R'.pre g o → R.Holds (fun x g' => R'.post g o x g') (h o) g)
    {p : Prog Op' Ans' α} {g : G} (hp : R'.Holds Q p g) : R.Holds Q (p.interpret h) g := by
  induction p generalizing g with
  | ret a => exact hp
  | call o next ih => exact Rules.Holds.bind (hkeeps g o hp.1) fun x g' hx => ih x (hp.2 x g' hx)

end Ipmb.Programs
