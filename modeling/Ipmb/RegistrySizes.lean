import Ipmb.RegionMap
import Ipmb.Registry

namespace Ipmb.RegistrySizes

open Time Programs Regions Registry

/-- What a registry does when its integers have the type `usize`: its other calls, the
arithmetic, and the range it asks its map for. -/
inductive Op where
  | call (c : Call)
  | mul (a b : UInt64)
  | add (a b : UInt64)
  | rangeMut (start stop : UInt64)

abbrev Op.Answer : Op → Type
  | .call c => c.Answer
  | .mul _ _ => UInt64
  | .add _ _ => UInt64
  | .rangeMut _ _ => Unit

abbrev Sized := Prog Op Op.Answer

def mul (a b : UInt64) : Sized UInt64 := .perform (Op.mul a b)

def add (a b : UInt64) : Sized UInt64 := .perform (Op.add a b)

def rangeMut (start stop : UInt64) : Sized Unit := .perform (Op.rangeMut start stop)

/-- A part of the registry without arithmetic. -/
def lift {α : Type} (p : Program α) : Sized α := p.interpret fun c => .perform (Op.call c)

/-- `MemoryRegion::new`: the object has room for the header. -/
def new (size : UInt64) : Sized (Option File) := do
  let _ ← add (.ofNat RegionMap.headerLength) size
  lift (Registry.new size.toNat)

section Alloc

variable (now : Instant) (tag : Option String) (free : Option Closure)

def allocInner (minSize : UInt64) (inner : Inner) : Sized (Inner × Option File) := do
  let stop ← mul minSize 2
  rangeMut minSize stop
  let found ← lift (searchRange now tag free minSize.toNat stop.toNat inner)
  match found with
  | some (inner, none) => pure (inner, none)
  | some (inner, some region) => do
    let inner ← lift (maintainInner now inner)
    pure (inner, some region)
  | none => do
    let inner ← lift (maintainInner now inner)
    let created ← new minSize
    match created with
    | none => pure (inner, none)
    | some r => do
      let cloned ← lift (clone r)
      if cloned then pure (extendEntry minSize.toNat [⟨r, now, tag, free⟩] inner, some r)
      else do
        lift (drop r none)
        pure (extendEntry minSize.toNat [] inner, none)

end Alloc

section Calls

variable (now : Instant) (minSize : UInt64) (tag : Option String) (inner : Inner)

def alloc : Sized (Inner × Option File) := allocInner now tag none minSize inner

def allocWithFree (free : Closure) : Sized (Inner × Option File) :=
  allocInner now tag (some free) minSize inner

def errorCodeSuccess : Int := 0

def errorCodeUnknown : Int := -1

/-- What the C functions make of a region: `out_region`, and the code they return. -/
def answer (x : Inner × Option File) : Inner × Option File × Int :=
  match x.2 with
  | some region => (x.1, some region, errorCodeSuccess)
  | none => (x.1, none, errorCodeUnknown)

def ipmbMemoryRegistryAlloc : Sized (Inner × Option File × Int) := do
  let x ← alloc now minSize tag inner
  pure (answer x)

def ipmbMemoryRegistryAllocWithFree (free : Option Closure) : Sized (Inner × Option File × Int) := do
  let x ← match free with
    | some free => allocWithFree now minSize tag inner free
    | none => alloc now minSize tag inner
  pure (answer x)

end Calls

/-- Whether a build stops at an arithmetic overflow, or wraps around. -/
inductive Build where
  | checked
  | wrapping

/-- A number that is too large for `usize` is not to be computed: a build with overflow checks
stops there. A range may not start behind its end in any build; that the standard library does not
look at the bounds where the map is empty is left out. -/
def rules (build : Build) : Rules Op Op.Answer Unit where
  pre _ o :=
    match o with
    | .call _ => True
    | .mul a b => build = .checked → a.toNat * b.toNat < 2 ^ 64
    | .add a b => build = .checked → a.toNat + b.toNat < 2 ^ 64
    | .rangeMut start stop => start.toNat ≤ stop.toNat
  post _ o x _ :=
    match o, x with
    | .call _, _ => True
    | .mul a b, x => x = a * b
    | .add a b, x => x = a + b
    | .rangeMut _ _, _ => True

/-- The calls that a build which wraps around makes. -/
def wrap : (o : Op) → Program o.Answer
  | .call c => .perform c
  | .mul a b => pure (a * b)
  | .add a b => pure (a + b)
  | .rangeMut _ _ => pure ()

/-- Neither an overflow nor a panic of the map, whatever the calls answer. -/
def Sound {α : Type} (build : Build) (p : Sized α) : Prop := (rules build).Holds (fun _ _ => True) p ()

theorem toNat_mul_two (minSize : UInt64) : (minSize * 2).toNat = minSize.toNat * 2 % 2 ^ 64 :=
  UInt64.toNat_mul minSize 2

section Checks

variable {α : Type} {build : Build} {g : Unit} (now : Instant) (tag : Option String)
  (free : Option Closure) {minSize : UInt64} (inner : Inner)

/-- Without arithmetic there is nothing to go wrong. -/
theorem lift_holds (p : Program α) : (rules build).Holds (fun _ _ => True) (lift p) g := by
  let anything : Rules Call Call.Answer Unit := ⟨fun _ _ => True, fun _ _ _ _ => True⟩
  have hp : anything.Holds (fun _ _ => True) p g := Rules.holds_of_pre (fun _ _ => trivial) p g
  rw [lift]
  refine Rules.Holds.interpret (fun _ c _ => ?_) hp
  exact ⟨trivial, fun _ _ _ => trivial⟩

theorem bind_lift_holds {β : Type} {k : α → Sized β} (p : Program α)
    (hk : ∀ a, (rules build).Holds (fun _ _ => True) (k a) ()) :
    (rules build).Holds (fun _ _ => True) (lift p >>= k) g :=
  (lift_holds p).bind fun a _ _ => hk a

theorem new_holds (h : minSize.toNat < 2 ^ 63) :
    (rules build).Holds (fun _ _ => True) (new minSize) g := by
  refine ⟨fun _ => ?_, fun _ _ _ => lift_holds _⟩
  have hheader : (UInt64.ofNat RegionMap.headerLength).toNat = 12 := rfl
  rw [hheader]
  omega

theorem sound_of_lt (h : minSize.toNat < 2 ^ 63) : Sound build (allocInner now tag free minSize inner) := by
  refine ⟨fun _ => ?_, ?_⟩
  · have htwo : (2 : UInt64).toNat = 2 := rfl
    rw [htwo]
    omega
  rintro _ _ rfl
  refine ⟨?_, fun _ _ _ => ?_⟩
  · show minSize.toNat ≤ (minSize * 2).toNat
    rw [toNat_mul_two]
    omega
  apply bind_lift_holds
  intro found
  match found with
  | some (inner, none) => trivial
  | some (inner, some region) => exact bind_lift_holds _ fun _ => trivial
  | none =>
    apply bind_lift_holds
    intro inner
    apply (new_holds h).bind
    intro created _ _
    cases created with
    | none => trivial
    | some r =>
      apply bind_lift_holds
      intro cloned
      cases cloned with
      | true => trivial
      | false => exact bind_lift_holds _ fun _ => trivial

/-- From `2 ^ 63` on the product overflows, and the range it leaves is the wrong way round. -/
theorem lt_of_sound (h : Sound build (allocInner now tag free minSize inner)) : minSize.toNat < 2 ^ 63 := by
  have hrange : minSize.toNat ≤ (minSize * 2).toNat := (h.2 (minSize * 2) () rfl).1
  have hlt := minSize.toNat_lt
  rw [toNat_mul_two] at hrange
  omega

theorem sound_iff : Sound build (allocInner now tag free minSize inner) ↔ minSize.toNat < 2 ^ 63 :=
  ⟨lt_of_sound now tag free inner, sound_of_lt now tag free inner⟩

end Checks

section Wrapping

variable {α : Type} (now : Instant) (tag : Option String) (free : Option Closure) {minSize : UInt64}
  (inner : Inner)

theorem interpret_lift (p : Program α) : (lift p).interpret wrap = p := by
  rw [lift, Prog.interpret_interpret]
  exact Prog.interpret_eq_self (fun c => Prog.interpret_perform (h := wrap) (Op.call c)) p

theorem interpret_bind_lift {β : Type} (p : Program α) (k : α → Sized β) :
    (lift p >>= k).interpret wrap = p >>= fun a => (k a).interpret wrap := by
  have hbind := Prog.interpret_bind (h := wrap) (lift p) k
  rw [interpret_lift] at hbind
  exact hbind

theorem interpret_new : (new minSize).interpret wrap = Registry.new minSize.toNat :=
  interpret_lift (Registry.new minSize.toNat)

/-- Where nothing overflows, the registry with machine integers does what it does with unbounded
ones, which is what the processes that share its regions run. -/
theorem allocInner_wrap (h : minSize.toNat < 2 ^ 63) :
    (allocInner now tag free minSize inner).interpret wrap =
      Registry.allocInner now tag free minSize.toNat inner := by
  have hstop : (minSize * 2).toNat = 2 * minSize.toNat := by
    rw [toNat_mul_two]
    omega
  have hsearch : (allocInner now tag free minSize inner).interpret wrap = _ :=
    interpret_bind_lift (searchRange now tag free minSize.toNat (minSize * 2).toNat inner) _
  rw [hsearch, hstop, Registry.allocInner]
  congr 1
  funext found
  match found with
  | some (inner, none) => rfl
  | some (inner, some region) => exact interpret_bind_lift _ _
  | none =>
    apply (interpret_bind_lift _ _).trans
    congr 1
    funext inner
    apply (Prog.interpret_bind (new minSize) _).trans
    rw [interpret_new]
    apply congrArg (Registry.new minSize.toNat >>= ·)
    funext created
    cases created with
    | none => rfl
    | some r =>
      apply (interpret_bind_lift _ _).trans
      apply congrArg (clone r >>= ·)
      funext cloned
      cases cloned with
      | true => rfl
      | false => exact interpret_bind_lift _ _

end Wrapping

section Calls

variable {build : Build} {now : Instant} {tag : Option String} {minSize : UInt64} {inner : Inner}

theorem sound_answer_iff {p : Sized (Inner × Option File)} :
    Sound build (p >>= fun x => pure (answer x)) ↔ Sound build p := Rules.holds_bind

/-- Half of `usize` is what can be asked for, by any of the functions and in any build. -/
theorem calls_sound_iff (build : Build) (now : Instant) (minSize : UInt64) (tag : Option String)
    (inner : Inner) :
    (Sound build (alloc now minSize tag inner) ↔ minSize.toNat < 2 ^ 63) ∧
    (∀ free, Sound build (allocWithFree now minSize tag inner free) ↔ minSize.toNat < 2 ^ 63) ∧
    (Sound build (ipmbMemoryRegistryAlloc now minSize tag inner) ↔ minSize.toNat < 2 ^ 63) ∧
    (∀ free, Sound build (ipmbMemoryRegistryAllocWithFree now minSize tag inner free) ↔
      minSize.toNat < 2 ^ 63) := by
  refine ⟨sound_iff now tag none inner, fun free => sound_iff now tag (some free) inner, ?_, ?_⟩
  · exact sound_answer_iff.trans (sound_iff now tag none inner)
  · intro free
    cases free with
    | none => exact sound_answer_iff.trans (sound_iff now tag none inner)
    | some free => exact sound_answer_iff.trans (sound_iff now tag (some free) inner)

/-- The product of `2 ^ 63` and 2 overflows; without overflow checks the range is from `2 ^ 63`
to 0. -/
theorem half_unsound :
    ¬ Sound .checked (alloc (.ofNanos 0) 9223372036854775808 none []) ∧
    ¬ Sound .wrapping (alloc (.ofNanos 1) 9223372036854775808 none
      [(16, [⟨0, .ofNanos 0, none, none⟩])]) := by
  constructor
  · intro h
    have hproduct : (9223372036854775808 : UInt64).toNat * (2 : UInt64).toNat < 2 ^ 64 := h.1 rfl
    exact absurd hproduct (by decide)
  · intro h
    have hrange : (9223372036854775808 : UInt64).toNat ≤ (9223372036854775808 * 2 : UInt64).toNat :=
      (h.2 (9223372036854775808 * 2) () rfl).1
    exact absurd hrange (by decide)

end Calls

end Ipmb.RegistrySizes
