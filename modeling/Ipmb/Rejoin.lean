import Mathlib.Algebra.Group.Nat.Defs
import Ipmb.EndpointSteps
import Ipmb.Run

namespace Ipmb.Rejoin

open Function Locks Run EndpointRule EndpointSteps

variable {T : Type} [DecidableEq T]

/-- What was seen is the connection that had this epoch. -/
def Seen (n : Nat) (pc : Pc) : Prop :=
  ∀ o, pc.observation = some o → o.epoch = BitVec.ofNat 32 o.connection ∧ o.connection ≤ n

/-- A client whose connection is being replaced has no hub. -/
def Joins (rule : Rule) (pc : Pc) : Prop :=
  ∀ o closed, pc = .joining o closed → rule = .client ⟨o.connection, false, closed, o.epoch⟩

/-- What holds after every step. The connections are numbered in the order in which they
are made, and the epoch is the number of the connection, as long as it does not wrap. -/
structure Inv (s : State T) : Prop where
  lock : Follows s.lock (Pc.mode ∘ s.pc)
  rule : ∀ c, s.rule = .client c →
    c.connection = s.replaced.length ∧ c.epoch = BitVec.ofNat 32 c.connection
  seen : ∀ h, Seen s.replaced.length (s.pc h)
  joining : ∀ h, Joins s.rule (s.pc h)
  replaced : s.replaced = List.range s.replaced.length
  readerOpen : s.rule.readerOpen = true ↔ s.pc .receiver ≠ .dropped

variable {s s' : State T} {h : Half T}

omit [DecidableEq T] in
/-- A lost connection is told from its successors by its epoch. -/
theorem Inv.connection_eq (hi : Inv s) (hlt : s.replaced.length < 2 ^ 32) {o : Observation}
    {c : Client} (ho : (s.pc h).observation = some o) (hc : s.rule = .client c)
    (he : o.epoch = c.epoch) : o.connection = c.connection := by
  obtain ⟨hepoch, hle⟩ := hi.seen h o ho
  obtain ⟨hlast, hepoch'⟩ := hi.rule c hc
  rw [hepoch, hepoch'] at he
  have hnat := congrArg BitVec.toNat he
  rwa [BitVec.toNat_ofNat, BitVec.toNat_ofNat, Nat.mod_eq_of_lt (by omega),
    Nat.mod_eq_of_lt (by omega)] at hnat

omit [DecidableEq T] in
/-- While a thread writes, no other is joining. -/
theorem Inv.joining_self (hi : Inv s) (hw : (s.pc h).mode = .exclusive) {u : Half T}
    {o : Observation} {closed : Bool} (hu : s.pc u = .joining o closed) : u = h :=
  hi.lock.sole hw (by simp [hu, Pc.mode])

/-- The reader is closed when the receiver is dropped, and by nothing else. -/
theorem Inv.readerOpen_update (hi : Inv s) {rule : Rule} {pc : Pc}
    (hrule : rule.readerOpen = s.rule.readerOpen) (hlive : s.pc h ≠ .dropped ∧ pc ≠ .dropped) :
    rule.readerOpen = true ↔ update s.pc h pc .receiver ≠ .dropped := by
  rw [hrule, hi.readerOpen]
  by_cases hh : h = .receiver
  · subst hh
    rw [update_self]
    exact iff_of_true hlive.1 hlive.2
  · rw [update_of_ne (Ne.symm hh)]

theorem Inv.moved (hi : Inv s) {pc : Pc} {l : RwLock (Half T)}
    (hlive : s.pc h ≠ .dropped ∧ pc ≠ .dropped) (hto : ∀ o closed, pc ≠ .joining o closed)
    (hlock : Follows l (update (Pc.mode ∘ s.pc) h pc.mode))
    (hseen : ∀ o, pc.observation = some o → (s.pc h).observation = some o ∨
      ∃ c, s.rule = .client c ∧ o = ⟨c.epoch, c.connection⟩) : Inv (s.go h pc l) where
  lock := by
    rw [State.go, comp_update]
    exact hlock
  rule := hi.rule
  seen := by
    refine (forall_update_iff s.pc fun _ => Seen s.replaced.length).mpr
      ⟨fun o ho => ?_, fun u _ => hi.seen u⟩
    obtain ho | ⟨c, hc, rfl⟩ := hseen o ho
    · exact hi.seen h o ho
    · exact ⟨(hi.rule c hc).2, Nat.le_of_eq (hi.rule c hc).1⟩
  joining := (forall_update_iff s.pc fun _ => Joins s.rule).mpr
    ⟨fun o closed hpc => absurd hpc (hto o closed), fun u _ => hi.joining u⟩
  replaced := hi.replaced
  readerOpen := hi.readerOpen_update rfl hlive

/-- The hub is taken from the connection that was seen lost. -/
theorem Inv.taken (hi : Inv s) (hlt : s.replaced.length < 2 ^ 32) {o : Observation} {c : Client}
    (hpc : s.pc h = .writing o) (hc : s.rule = .client c) (he : o.epoch = c.epoch) :
    Inv { s.go h (.joining o c.readerClosed) s.lock with rule := .client { c with ioHub := false } } := by
  have hmode : (s.pc h).mode = .exclusive := by simp [hpc, Pc.mode]
  have hobs : (s.pc h).observation = some o := by simp [hpc, Pc.observation]
  refine ⟨?_, ?_, ?_, ?_, hi.replaced, hi.readerOpen_update (by rw [hc]; rfl) (by simp [hpc])⟩
  · simp only [State.go, comp_update]
    exact hi.lock.unchanged hmode
  · rintro c' ⟨⟩
    exact hi.rule c hc
  · refine (forall_update_iff s.pc fun _ => Seen s.replaced.length).mpr ⟨?_, fun u _ => hi.seen u⟩
    rintro o' ⟨⟩
    exact hi.seen h o hobs
  · refine (forall_update_iff s.pc fun _ => Joins (.client { c with ioHub := false })).mpr
      ⟨?_, fun u hu o' closed hpc' => absurd (hi.joining_self hmode hpc') hu⟩
    rintro o' closed ⟨⟩
    rw [hi.connection_eq hlt hobs hc he, he]

/-- The connection that is replaced is the last one made. -/
theorem Inv.rejoined (hi : Inv s) {o : Observation} {closed : Bool} {rule : Rule}
    (hpc : s.pc h = .joining o closed)
    (hrule : ∀ c, rule = .client c → c.connection = s.replaced.length + 1 ∧ c.epoch = o.epoch + 1)
    (hopen : rule.readerOpen = !closed) :
    Inv { s.go h .looping s.lock.unlockWrite with
      rule := rule
      replaced := s.replaced ++ [o.connection] } := by
  have hmode : (s.pc h).mode = .exclusive := by simp [hpc, Pc.mode]
  have hold := hi.joining h o closed hpc
  obtain ⟨hconnection, hepoch⟩ := hi.rule _ hold
  simp only at hconnection hepoch
  have hlength : (s.replaced ++ [o.connection]).length = s.replaced.length + 1 := by simp
  refine ⟨?_, fun c hc => ?_, ?_, ?_, ?_,
    hi.readerOpen_update (by rw [hopen, hold]; rfl) (by simp [hpc])⟩
  · simp only [State.go, comp_update]
    exact hi.lock.unlockWrite hmode
  · obtain ⟨hnext, hnext'⟩ := hrule c hc
    refine ⟨by rw [hnext, hlength], ?_⟩
    rw [hnext', hnext, hepoch, hconnection]
    exact (BitVec.ofNat_add s.replaced.length 1).symm
  · refine (forall_update_iff s.pc fun _ => Seen (s.replaced ++ [o.connection]).length).mpr
      ⟨by simp [Seen, Pc.observation], fun u _ o' ho' => ?_⟩
    obtain ⟨he, hle⟩ := hi.seen u o' ho'
    exact ⟨he, hlength ▸ Nat.le_succ_of_le hle⟩
  · exact (forall_update_iff s.pc fun _ => Joins rule).mpr
      ⟨by simp [Joins], fun u hu o' closed hpc' => absurd (hi.joining_self hmode hpc') hu⟩
  · rw [hlength, List.range_succ, ← hi.replaced, hconnection]

theorem Inv.dropped (hi : Inv s) (hpc : s.pc .receiver = .idle) (hfree : s.lock.isFree) :
    Inv { s.go .receiver .dropped s.lock with rule := s.rule.readerClose } := by
  refine ⟨?_, fun c hc => ?_, ?_, ?_, hi.replaced, ?_⟩
  · simp only [State.go, comp_update]
    exact hi.lock.unchanged (by simp [hpc, Pc.mode])
  · cases hr : s.rule with
    | client c' =>
      simp only [hr, Rule.readerClose, Rule.client.injEq] at hc
      subst hc
      exact hi.rule c' hr
    | server r => simp [hr, Rule.readerClose] at hc
  · exact (forall_update_iff s.pc fun _ => Seen s.replaced.length).mpr
      ⟨by simp [Seen, Pc.observation], fun u _ => hi.seen u⟩
  · refine (forall_update_iff s.pc fun _ => Joins s.rule.readerClose).mpr
      ⟨by simp [Joins], fun u _ o closed hu => ?_⟩
    have hw := (hi.lock.exclusive u).mp (by simp [hu, Pc.mode])
    rw [hfree.1] at hw
    cases hw
  · cases s.rule <;> simp [Rule.readerClose, Rule.readerOpen, State.go]

theorem stepped_inv (hi : Inv s) (hlt : s.replaced.length < 2 ^ 32) (hs : Stepped s h s') : Inv s' := by
  cases hs with
  | moved _ hto hlive hlock hseen => exact hi.moved hlive hto (hlock hi.lock) hseen
  | taken hpc hc he => exact hi.taken hlt hpc hc he
  | failed hpc =>
    refine hi.moved (by simp [hpc]) (by simp) (hi.lock.unlockWrite ?_) (by simp [Pc.observation])
    simp [hpc, Pc.mode]
  | rejoined hpc hrule hopen => exact hi.rejoined hpc hrule hopen
  | dropped hh hpc hfree =>
    subst hh
    exact hi.dropped hpc hfree

theorem stepped_grows (hs : Stepped s h s') : s.replaced.length ≤ s'.replaced.length := by
  cases hs with
  | rejoined _ _ => simp
  | _ => exact Nat.le_refl _

omit [DecidableEq T] in
theorem join_inv {j : Joined} {s₀ : State T} (h : join T j = some s₀) : Inv s₀ := by
  obtain ⟨rule, hj, rfl⟩ := Option.map_eq_some_iff.mp h
  refine ⟨Follows.free, fun c hc => ?_, by simp [Seen, Pc.observation], by simp [Joins], rfl, ?_⟩
  · obtain ⟨hconnection, hepoch⟩ := join_client (b := false) hj c hc
    rw [hepoch, hconnection]
    exact ⟨rfl, rfl⟩
  · simpa using join_readerOpen (b := false) hj

/-- The invariant, in a run with fewer than 2^32 successful rejoins. -/
theorem run_inv {j : Joined} {s₀ : State T} {acts : List (Half T × Action)}
    (h₀ : join T j = some s₀) (hr : run step s₀ acts = some s)
    (hlt : s.replaced.length < 2 ^ 32) : Inv s :=
  run_invariant (fun _ s => s.replaced.length < 2 ^ 32 → Inv s) (fun _ => join_inv h₀)
    (fun _ _ _ _ _ hi hs hlt =>
      have hst := step_stepped hs
      have hlt' := Nat.lt_of_le_of_lt (stepped_grows hst) hlt
      stepped_inv (hi hlt') hlt' hst) acts s hr hlt

end Ipmb.Rejoin
