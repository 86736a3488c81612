import Ipmb.Messages
import Mathlib.Data.Nat.Nth

namespace Ipmb.JoinLoop

open Messages Time

inductive JoinError where
  | versionMismatch (v : Version)
  | tokenMismatch
  | timeout
  | permissionDenied
deriving DecidableEq

/-- Which rule `join` returns. -/
inductive Joined where
  | client
  | server
deriving DecidableEq

/-- `timeout_count` and `permission_denied_count`. -/
structure Counts where
  timeout : Nat
  permissionDenied : Nat
deriving DecidableEq

/-- A turn of the loop: what `look_up` returns, and `register` if it is called, the time that
this takes, the time until the clock is read, and how much too long `thread::sleep` sleeps. -/
structure Attempt (R : Type) where
  lookUp : Except (Error R) Unit
  register : Except (Error R) Unit
  took : Nat
  delay : Nat
  overslept : Nat

/-- How a turn goes on. -/
inductive Turn where
  | done (r : Except JoinError Joined)
  | wait (counts : Counts)
  | again (counts : Counts)

def Counts.denied (counts : Counts) : Turn :=
  if counts.permissionDenied + 1 > 5 then .done (.error .permissionDenied)
  else .wait { counts with permissionDenied := counts.permissionDenied + 1 }

def Counts.timedOut (counts : Counts) : Turn :=
  if counts.timeout + 1 > 5 then .done (.error (.versionMismatch ⟨0, 0, 0⟩))
  else .wait { counts with timeout := counts.timeout + 1 }

section Turns

variable {R : Type}

def registered (counts : Counts) : Except (Error R) Unit → Turn
  | .ok _ => .done (.ok .server)
  | .error .identifierInUse => .again counts
  | .error .permissionDenied => counts.denied
  | .error _ => .wait counts

def turn (controllerAffinity : Bool) (counts : Counts) (a : Attempt R) : Turn :=
  match a.lookUp with
  | .ok _ => .done (.ok .client)
  | .error .identifierNotInUse =>
    if controllerAffinity then registered counts a.register else .wait counts
  | .error (.versionMismatch v _) => .done (.error (.versionMismatch v))
  | .error .tokenMismatch => .done (.error .tokenMismatch)
  | .error .permissionDenied => counts.denied
  | .error .timeout => counts.timedOut
  | .error _ => .wait counts

/-- `wait!`: how long it sleeps, unless the time is up. -/
def wait (deadline : Option Instant) (now : Int) : Except JoinError Nat :=
  match deadline with
  | none => .ok (2 * nanosPerSec)
  | some deadline =>
    let remain := (deadline.nanos - now).toNat
    if remain = 0 then .error .timeout else .ok (min (2 * nanosPerSec) remain)

inductive Progress where
  | looping (counts : Counts) (now : Int)
  | returned (r : Except JoinError Joined)
deriving DecidableEq

def iterate (controllerAffinity : Bool) (deadline : Option Instant) (a : Attempt R) :
    Progress → Progress
  | .returned r => .returned r
  | .looping counts now =>
    match turn controllerAffinity counts a with
    | .done r => .returned r
    | .again counts => .looping counts (now + a.took + a.delay)
    | .wait counts =>
      match wait deadline (now + a.took + a.delay) with
      | .error e => .returned (.error e)
      | .ok slept => .looping counts (now + a.took + a.delay + slept + a.overslept)

def progress (controllerAffinity : Bool) (deadline : Option Instant) (start : Instant)
    (attempts : Nat → Attempt R) : Nat → Progress
  | 0 => .looping ⟨0, 0⟩ start.nanos
  | n + 1 => iterate controllerAffinity deadline (attempts n)
    (progress controllerAffinity deadline start attempts n)

/-- `timeout.map(|timeout| Instant::now() + timeout)`: `none` is the panic. -/
def deadline (start : Instant) : Option Duration → Option (Option Instant)
  | none => some none
  | some timeout => (start.add timeout).map some

/-- `Rule::join` after `n` turns. -/
def join (controllerAffinity : Bool) (start : Instant) (timeout : Option Duration)
    (attempts : Nat → Attempt R) (n : Nat) : Option Progress :=
  (deadline start timeout).map fun deadline => progress controllerAffinity deadline start attempts n

/-- Neither has `look_up` found a controller nor has `register` made one. -/
def Attempt.failed (controllerAffinity : Bool) (a : Attempt R) : Bool :=
  match a.lookUp, a.register with
  | .ok _, _ => false
  | .error .identifierNotInUse, .ok _ => !controllerAffinity
  | .error _, _ => true

/-- Somebody else has taken the identifier after `look_up` has found it free. -/
def Attempt.lostRace (controllerAffinity : Bool) (a : Attempt R) : Bool :=
  match a.lookUp, a.register with
  | .error .identifierNotInUse, .error .identifierInUse => controllerAffinity
  | _, _ => false

/-- After an attempt that has failed when the time is up, there is no further one but an
error; and the loop ends. Where `start + timeout` overflows, `join` panics before the first
attempt, and there is nothing to honour. -/
structure Honours (controllerAffinity : Bool) (start : Instant) (timeout : Duration)
    (attempts : Nat → Attempt R) : Prop where
  prompt : ∀ n counts now,
    join controllerAffinity start (some timeout) attempts n = some (.looping counts now) →
    (attempts n).failed controllerAffinity = true →
    start.nanos + timeout.nanos ≤ now + (attempts n).took →
    ∃ e, join controllerAffinity start (some timeout) attempts (n + 1) = some (.returned (.error e))
  ends : ¬ ∀ n, ∃ counts now,
    join controllerAffinity start (some timeout) attempts n = some (.looping counts now)

variable {affinity : Bool} {a : Attempt R} {counts : Counts} {d : Instant} {now : Int}

theorem Attempt.lostRace_cases (h : a.lostRace affinity = true) :
    a.lookUp = .error .identifierNotInUse ∧ a.register = .error .identifierInUse ∧ affinity = true := by
  rw [Attempt.lostRace] at h
  split at h
  · rename_i hl hr
    exact ⟨hl, hr, h⟩
  · cases h

theorem turn_lostRace (h : a.lostRace affinity = true) : turn affinity counts a = .again counts := by
  obtain ⟨hl, hr, rfl⟩ := Attempt.lostRace_cases h
  rw [turn, hl, hr]
  rfl

theorem failed_of_lostRace (h : a.lostRace affinity = true) : a.failed affinity = true := by
  obtain ⟨hl, hr, -⟩ := Attempt.lostRace_cases h
  rw [Attempt.failed, hl, hr]

theorem Counts.denied_cases (counts : Counts) :
    counts.denied = .done (.error .permissionDenied) ∨ ∃ counts', counts.denied = .wait counts' := by
  rw [Counts.denied]
  split
  · exact .inl rfl
  · exact .inr ⟨_, rfl⟩

/-- Every turn but a lost race finds a rule, returns an error or comes to `wait!`. -/
theorem turn_cases (counts : Counts) (h : a.lostRace affinity = false) :
    (a.failed affinity = false ∧ ∃ j, turn affinity counts a = .done (.ok j)) ∨
      (∃ e, turn affinity counts a = .done (.error e)) ∨ ∃ counts', turn affinity counts a = .wait counts' := by
  obtain ⟨lookUp, register, took, delay, overslept⟩ := a
  have hdenied := counts.denied_cases
  cases lookUp with
  | ok _ => exact .inl ⟨rfl, .client, rfl⟩
  | error e =>
    cases e with
    | identifierNotInUse =>
      cases affinity with
      | false => exact .inr (.inr ⟨counts, rfl⟩)
      | true =>
        cases register with
        | ok _ => exact .inl ⟨rfl, .server, rfl⟩
        | error e =>
          cases e with
          | identifierInUse => cases h
          | permissionDenied => exact .inr (hdenied.imp_left fun hd => ⟨_, hd⟩)
          | _ => exact .inr (.inr ⟨counts, rfl⟩)
    | versionMismatch v _ => exact .inr (.inl ⟨_, rfl⟩)
    | tokenMismatch => exact .inr (.inl ⟨_, rfl⟩)
    | permissionDenied => exact .inr (hdenied.imp_left fun hd => ⟨_, hd⟩)
    | timeout =>
      simp only [turn, Counts.timedOut]
      split
      · exact .inr (.inl ⟨_, rfl⟩)
      · exact .inr (.inr ⟨_, rfl⟩)
    | _ => exact .inr (.inr ⟨counts, rfl⟩)

theorem wait_late (h : d.nanos ≤ now) : wait (some d) now = .error .timeout := by
  rw [wait, if_pos (by omega)]

theorem wait_early (h : now < d.nanos) :
    wait (some d) now = .ok (min (2 * nanosPerSec) (d.nanos - now).toNat) := by
  rw [wait, if_neg (by omega)]

theorem iterate_lostRace (deadline : Option Instant) (h : a.lostRace affinity = true) :
    iterate affinity deadline a (.looping counts now) = .looping counts (now + a.took + a.delay) := by
  rw [iterate, turn_lostRace h]

theorem iterate_late (hf : a.failed affinity = true) (hr : a.lostRace affinity = false)
    (hlate : d.nanos ≤ now + a.took) :
    ∃ e, iterate affinity (some d) a (.looping counts now) = .returned (.error e) := by
  obtain ⟨hok, -⟩ | ⟨e, he⟩ | ⟨counts', hw⟩ := turn_cases counts hr
  · rw [hf] at hok
    cases hok
  · exact ⟨e, by rw [iterate, he]⟩
  · exact ⟨.timeout, by rw [iterate, hw, wait_late (by omega)]⟩

/-- A turn that is not the last one, and no lost race, takes two seconds or until the deadline. -/
theorem iterate_looping {counts' : Counts} {now' : Int} (hr : a.lostRace affinity = false)
    (h : iterate affinity (some d) a (.looping counts now) = .looping counts' now') :
    now < d.nanos ∧ min (now + 2 * nanosPerSec) d.nanos ≤ now' := by
  rw [iterate] at h
  obtain ⟨-, j, hj⟩ | ⟨e, he⟩ | ⟨counts'', hw⟩ := turn_cases counts hr
  · rw [hj] at h
    cases h
  · rw [he] at h
    cases h
  · rw [hw] at h
    by_cases hlate : d.nanos ≤ now + a.took + a.delay
    · rw [wait_late hlate] at h
      cases h
    · rw [wait_early (by omega)] at h
      cases h
      omega

theorem iterate_le {counts' : Counts} {now' : Int}
    (h : iterate affinity (some d) a (.looping counts now) = .looping counts' now') :
    min now d.nanos ≤ now' := by
  cases hr : a.lostRace affinity with
  | true =>
    rw [iterate_lostRace _ hr] at h
    cases h
    omega
  | false =>
    have hle := (iterate_looping hr h).2
    have hpos : 0 < nanosPerSec := by decide
    omega

section Loop

variable {start : Instant} {attempts : Nat → Attempt R}

/-- The turns before `n` that have come to `wait!`. -/
def waits (affinity : Bool) (attempts : Nat → Attempt R) (n : Nat) : Nat :=
  Nat.count (fun n => (attempts n).lostRace affinity = false) n

theorem progress_of_looping {deadline : Option Instant} {n : Nat}
    (h : progress affinity deadline start attempts (n + 1) = .looping counts now) :
    ∃ counts' now', progress affinity deadline start attempts n = .looping counts' now' := by
  rw [progress] at h
  cases hp : progress affinity deadline start attempts n with
  | looping counts' now' => exact ⟨counts', now', rfl⟩
  | returned r =>
    rw [hp] at h
    cases h

theorem looping_of_le {deadline : Option Instant} {n m : Nat} (hle : m ≤ n)
    (h : ∃ counts now, progress affinity deadline start attempts n = .looping counts now) :
    ∃ counts now, progress affinity deadline start attempts m = .looping counts now := by
  induction n, hle using Nat.le_induction with
  | base => exact h
  | succ n _ ih =>
    obtain ⟨counts, now, hp⟩ := h
    exact ih (progress_of_looping hp)

/-- Two seconds pass at each `wait!`, up to the deadline. -/
theorem elapsed {n : Nat} (h : progress affinity (some d) start attempts n = .looping counts now) :
    min (start.nanos + 2 * nanosPerSec * waits affinity attempts n) d.nanos ≤ now := by
  induction n generalizing counts now with
  | zero =>
    cases h
    simp only [waits, Nat.count_zero]
    omega
  | succ n ih =>
    obtain ⟨counts', now', hp⟩ := progress_of_looping h
    have hle := ih hp
    rw [progress, hp] at h
    rw [waits, Nat.count_succ, ← waits]
    cases hr : (attempts n).lostRace affinity with
    | true =>
      have hnow := iterate_le h
      rw [if_neg (by simp), Nat.add_zero]
      omega
    | false =>
      have hnow := (iterate_looping hr h).2
      rw [if_pos rfl, Int.natCast_add, Int.mul_add]
      omega

theorem prompt_iff (d : Instant) :
    (∀ n counts now, progress affinity (some d) start attempts n = .looping counts now →
      (attempts n).failed affinity = true → d.nanos ≤ now + (attempts n).took →
      ∃ e, progress affinity (some d) start attempts (n + 1) = .returned (.error e)) ↔
    ∀ n counts now, progress affinity (some d) start attempts n = .looping counts now →
      (attempts n).lostRace affinity = true → now + (attempts n).took < d.nanos := by
  constructor
  · intro h n counts now hp hr
    by_contra hlate
    obtain ⟨e, he⟩ := h n counts now hp (failed_of_lostRace hr) (by omega)
    rw [progress, hp, iterate_lostRace _ hr] at he
    cases he
  · intro h n counts now hp hf hlate
    rw [progress, hp]
    cases hr : (attempts n).lostRace affinity with
    | true =>
      have hlt := h n counts now hp hr
      omega
    | false => exact iterate_late hf hr hlate

/-- The loop goes on for ever exactly if it comes to lost races only. -/
theorem forever_iff (d : Instant) :
    (∀ n, ∃ counts now, progress affinity (some d) start attempts n = .looping counts now) ↔
      ∃ m, (∃ counts now, progress affinity (some d) start attempts m = .looping counts now) ∧
        ∀ n ≥ m, (attempts n).lostRace affinity = true := by
  constructor
  · intro h
    by_contra hnever
    have hinf : {n | (attempts n).lostRace affinity = false}.Infinite := by
      refine Set.infinite_of_not_bddAbove fun ⟨m, hm⟩ => hnever ⟨m + 1, h _, fun n hn => ?_⟩
      by_contra hr
      have hle := hm (Bool.eq_false_iff.mpr hr)
      omega
    -- so many waits that the deadline is over
    obtain ⟨n, hn⟩ := Nat.surjective_count_of_infinite_setOfPred hinf ((d.nanos - start.nanos).toNat)
    obtain ⟨m, hr, hm⟩ := hinf.exists_gt n
    obtain ⟨counts, now, hp⟩ := h m
    obtain ⟨counts', now', hp'⟩ := h (m + 1)
    have hle := elapsed hp
    have hwaits : (d.nanos - start.nanos).toNat ≤ waits affinity attempts m := by
      rw [← hn]
      exact Nat.count_monotone _ hm.le
    rw [progress, hp] at hp'
    have hlt := (iterate_looping hr hp').1
    rw [show (nanosPerSec : Int) = 1000000000 from rfl] at hle
    omega
  · rintro ⟨m, hm, hr⟩ n
    obtain hle | hle := Nat.le_total n m
    · exact looping_of_le hle hm
    · induction n, hle using Nat.le_induction with
      | base => exact hm
      | succ n hle ih =>
        obtain ⟨counts, now, hp⟩ := ih
        exact ⟨counts, now + (attempts n).took + (attempts n).delay, by
          rw [progress, hp, iterate_lostRace _ (hr n hle)]⟩

/-- `join` honours the deadline exactly if no lost race that it comes to ends after it, and
there is another outcome after every one that it comes to. -/
theorem honours_iff (affinity : Bool) (start : Instant) (timeout : Duration) (attempts : Nat → Attempt R) :
    Honours affinity start timeout attempts ↔
      (∀ n counts now, join affinity start (some timeout) attempts n = some (.looping counts now) →
        (attempts n).lostRace affinity = true →
        now + (attempts n).took < start.nanos + timeout.nanos) ∧
      ¬ ∃ m, (∃ counts now, join affinity start (some timeout) attempts m = some (.looping counts now)) ∧
        ∀ n ≥ m, (attempts n).lostRace affinity = true := by
  have hsplit : Honours affinity start timeout attempts ↔ _ ∧ _ := ⟨fun h => ⟨h.1, h.2⟩, fun h => ⟨h.1, h.2⟩⟩
  rw [hsplit]
  cases hd : start.add timeout with
  | none => simp [join, deadline, hd]
  | some d =>
    have hnanos : start.nanos + timeout.nanos = d.nanos := by
      rw [Instant.add] at hd
      split at hd
      · cases hd
        rfl
      · cases hd
    have hjoin : ∀ n, join affinity start (some timeout) attempts n =
        some (progress affinity (some d) start attempts n) := fun n => by
      rw [join, deadline, hd]
      rfl
    simp only [hjoin, Option.some.injEq, hnanos]
    exact and_congr (prompt_iff d) (not_congr (forever_iff d))

/-- One attempt a second, each of which finds that another process has just bound the
identifier. -/
theorem race_forever :
    let attempts : Nat → Attempt Empty := fun _ =>
      ⟨.error .identifierNotInUse, .error .identifierInUse, nanosPerSec, 0, 0⟩
    (∀ n, join true (.ofNanos 0) (some (.ofNanos nanosPerSec)) attempts n =
      some (.looping ⟨0, 0⟩ (n * nanosPerSec))) ∧
      ¬ Honours true (.ofNanos 0) (.ofNanos nanosPerSec) attempts := by
  intro attempts
  have hjoin : ∀ n, join true (.ofNanos 0) (some (.ofNanos nanosPerSec)) attempts n =
      some (.looping ⟨0, 0⟩ (n * nanosPerSec)) := by
    intro n
    induction n with
    | zero => rfl
    | succ n ih =>
      obtain ⟨d, hd, hp⟩ := Option.map_eq_some_iff.mp ih
      have hnow : (n * nanosPerSec + nanosPerSec + (0 : Nat) : Int) = (n + 1 : Nat) * nanosPerSec := by
        rw [Int.natCast_add, Int.add_mul]
        omega
      rw [join, hd, Option.map_some, progress, hp, iterate_lostRace _ rfl, ← hnow]
  exact ⟨hjoin, fun h => h.ends fun n => ⟨_, _, hjoin n⟩⟩

end Loop

end Turns

end Ipmb.JoinLoop
