import Ipmb.EndpointSteps
import Ipmb.Run

namespace Ipmb.ReaderState

open Function Locks Run EndpointRule EndpointSteps

/-- `recv` finds the reader open. -/
def Open : Rule → Prop
  | .client c => c.readerClosed = false
  | .server receiver => receiver = true

def Closed : Rule → Prop
  | .client c => c.ioHub = false ∧ c.readerClosed = true
  | .server receiver => receiver = false

/-- The reader is open as long as the receiver exists, and closed from then on. -/
def Reader (rule : Rule) (receiver : Pc) : Prop :=
  (receiver ≠ .dropped → Open rule) ∧ (receiver = .dropped → Closed rule)

/-- A client that is being replaced has lost its hub, and keeps its flag. -/
def Joining (rule : Rule) (pc : Pc) : Prop :=
  ∀ o closed, pc = .joining o closed → ∃ c, rule = .client c ∧ c.ioHub = false ∧ c.readerClosed = closed

theorem closed_readerClose (rule : Rule) : Closed rule.readerClose := by
  cases rule with
  | client c => exact ⟨rfl, rfl⟩
  | server receiver => rfl

theorem open_join {j : Joined} {n : Nat} {e : BitVec 32} {rule : Rule} (hj : Rule.join j n e = some rule) :
    Open rule := by
  cases j with
  | client =>
    cases hj
    rfl
  | server =>
    cases hj
    rfl
  | err => cases hj

theorem reader_takeHub {c : Client} {receiver : Pc} (h : Reader (.client c) receiver) :
    Reader (.client { c with ioHub := false }) receiver :=
  ⟨h.1, fun hd => ⟨rfl, (h.2 hd).2⟩⟩

variable {T : Type} [DecidableEq T] {s s' : State T} {h : Half T}

/-- A step by which no half is dropped leaves the receiver where it is. -/
theorem reader_update {rule : Rule} {pc : Pc} (hr : Reader rule (s.pc .receiver))
    (hlive : s.pc h ≠ .dropped ∧ pc ≠ .dropped) : Reader rule (update s.pc h pc .receiver) := by
  by_cases hh : h = .receiver
  · subst hh
    rw [update_self]
    exact ⟨fun _ => hr.1 hlive.1, fun hd => absurd hd hlive.2⟩
  · rw [update_of_ne (Ne.symm hh)]
    exact hr

/-- What holds after every step, however often the epoch wraps. -/
structure Inv (s : State T) : Prop where
  lock : Follows s.lock (Pc.mode ∘ s.pc)
  joining : ∀ h, Joining s.rule (s.pc h)
  reader : Reader s.rule (s.pc .receiver)

/-- The rule a rejoin leaves is closed again when the one it replaces was. -/
theorem rejoin_reader {o : Observation} {closed : Bool} {j : Joined} (hi : Inv s)
    (hpc : s.pc h = .joining o closed) :
    Reader (s.rejoin h o closed j).rule ((s.rejoin h o closed j).pc .receiver) := by
  obtain ⟨c, hc, hhub, hclosed⟩ := hi.joining h o closed hpc
  rw [State.rejoin]
  cases hj : Rule.join j (s.replaced.length + 1) (o.epoch + 1) with
  | none => exact reader_update hi.reader (by simp [hpc])
  | some rule =>
    refine reader_update ?_ (by simp [hpc])
    have hr := hi.reader
    rw [hc] at hr
    cases closed with
    | false => exact ⟨fun _ => open_join hj, fun hd => by simpa [hclosed] using (hr.2 hd).2⟩
    | true => exact ⟨fun hn => by simpa [Open, hclosed] using hr.1 hn, fun _ => closed_readerClose rule⟩

theorem step_inv {a : Action} (hi : Inv s) (hs : step s (h, a) = some s') : Inv s' := by
  have hjoined : ∀ o closed, s.pc h = .joining o closed → Reader s'.rule (s'.pc .receiver) := by
    intro o closed hpc
    have hstep := hs
    simp only [step, hpc] at hstep
    cases a with
    | join j =>
      obtain rfl := Option.some.inj hstep
      exact rejoin_reader hi hpc
    | _ => cases hstep
  have hself : (s.pc h).mode = .exclusive → ∀ u o closed, s.pc u = .joining o closed → u = h :=
    fun hw u o closed hu => hi.lock.sole hw (by simp [hu, Pc.mode])
  cases step_stepped hs with
  | moved hfrom hto hlive hlock _ =>
    refine ⟨?_, ?_, reader_update hi.reader hlive⟩
    · simp only [State.go, comp_update]
      exact hlock hi.lock
    · exact (forall_update_iff s.pc fun _ => Joining s.rule).mpr
        ⟨fun o closed hpc => absurd hpc (hto o closed), fun u _ => hi.joining u⟩
  | @taken o c hpc hc he =>
    have hmode : (s.pc h).mode = .exclusive := by simp [hpc, Pc.mode]
    refine ⟨?_, ?_, reader_update (reader_takeHub (hc ▸ hi.reader)) (by simp [hpc])⟩
    · simp only [State.go, comp_update]
      exact hi.lock.unchanged hmode
    · refine (forall_update_iff s.pc fun _ => Joining (.client { c with ioHub := false })).mpr
        ⟨?_, fun u hu o' closed hpc' => absurd (hself hmode u o' closed hpc') hu⟩
      rintro o' closed ⟨⟩
      exact ⟨_, rfl, rfl, rfl⟩
  | @failed o closed hpc =>
    have hmode : (s.pc h).mode = .exclusive := by simp [hpc, Pc.mode]
    refine ⟨?_, ?_, hjoined o closed hpc⟩
    · simp only [State.go, comp_update]
      exact hi.lock.unlockWrite hmode
    · exact (forall_update_iff s.pc fun _ => Joining s.rule).mpr
        ⟨by simp [Joining], fun u _ => hi.joining u⟩
  | @rejoined o closed rule hpc _ _ =>
    have hmode : (s.pc h).mode = .exclusive := by simp [hpc, Pc.mode]
    refine ⟨?_, ?_, hjoined o closed hpc⟩
    · simp only [State.go, comp_update]
      exact hi.lock.unlockWrite hmode
    · exact (forall_update_iff s.pc fun _ => Joining rule).mpr
        ⟨by simp [Joining], fun u hu o' closed' hpc' => absurd (hself hmode u o' closed' hpc') hu⟩
  | dropped hh hpc hfree =>
    subst hh
    refine ⟨?_, ?_, by simp [State.go], fun _ => closed_readerClose s.rule⟩
    · simp only [State.go, comp_update]
      exact hi.lock.unchanged (by simp [hpc, Pc.mode])
    · refine (forall_update_iff s.pc fun _ => Joining s.rule.readerClose).mpr
        ⟨by simp [Joining], fun u _ o closed hu => ?_⟩
      have hw := (hi.lock.exclusive u).mp (by simp [hu, Pc.mode])
      rw [hfree.1] at hw
      cases hw

omit [DecidableEq T] in
theorem join_inv {j : Joined} {s₀ : State T} (h : join T j = some s₀) : Inv s₀ := by
  obtain ⟨rule, hj, rfl⟩ := Option.map_eq_some_iff.mp h
  exact ⟨Follows.free, by simp [Joining], fun _ => open_join hj, by simp⟩

omit [DecidableEq T] in
/-- `recv` gets past both of its `expect` calls. -/
theorem attempt_open {rule : Rule} (h : Open rule) : ∃ o,
    (attempt rule (.receiver : Half T) o).isSome = true := by
  cases rule with
  | client c =>
    obtain ⟨connection, ioHub, readerClosed, epoch⟩ := c
    obtain rfl : readerClosed = false := h
    cases ioHub with
    | false => exact ⟨.missing, rfl⟩
    | true => exact ⟨.done, rfl⟩
  | server receiver =>
    obtain rfl : receiver = true := h
    exact ⟨.done, rfl⟩

/-- As long as the receiver exists the reader is open, so that `recv` can go on; once it
has been dropped the reader is closed, whatever rejoins there are. -/
theorem reader_state {j : Joined} {s₀ : State T} {acts : List (Half T × Action)}
    (h₀ : join T j = some s₀) (hr : run step s₀ acts = some s) :
    (s.pc .receiver ≠ .dropped → Open s.rule) ∧
      (s.pc .receiver = .reading → ∃ o, (attempt s.rule (.receiver : Half T) o).isSome = true) ∧
      (s.pc .receiver = .dropped → Closed s.rule) := by
  have hi : Inv s := run_invariant (fun _ s => Inv s) (join_inv h₀)
    (fun _ _ _ _ _ hi hs => step_inv hi hs) acts s hr
  exact ⟨hi.reader.1, fun hpc => attempt_open (hi.reader.1 (by simp [hpc])), hi.reader.2⟩

/-- A sender rejoins after the receiver has been dropped. -/
def lateRejoin : List (Half Nat × Action) :=
  [(.receiver, .drop), (.sender 0, .call), (.sender 0, .readLock), (.sender 0, .attempt .disconnect),
    (.sender 0, .release), (.sender 0, .writeLock), (.sender 0, .check), (.sender 0, .join .client)]

theorem reader_state_lateRejoin :
    ∃ s₀ s, join Nat .client = some s₀ ∧ run step s₀ lateRejoin = some s ∧ s.replaced = [0] ∧
      (s.pc .receiver ≠ .dropped → Open s.rule) ∧
      (s.pc .receiver = .reading → ∃ o, (attempt s.rule (.receiver : Half Nat) o).isSome = true) ∧
      (s.pc .receiver = .dropped → Closed s.rule) := by
  have hrun : ((join Nat .client).bind fun s₀ => run step s₀ lateRejoin).map State.replaced = some [0] := by
    decide
  obtain ⟨s, hs, hreplaced⟩ := Option.map_eq_some_iff.mp hrun
  obtain ⟨s₀, h₀, hr⟩ := Option.bind_eq_some_iff.mp hs
  exact ⟨s₀, s, h₀, hr, hreplaced, reader_state h₀ hr⟩

end Ipmb.ReaderState
