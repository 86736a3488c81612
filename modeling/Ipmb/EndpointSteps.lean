import Ipmb.EndpointRule

namespace Ipmb.EndpointSteps

open Function Locks EndpointRule

variable {T : Type} [DecidableEq T]

/-- What a step of `h` can be: only four kinds of step touch the rule, or leave a join. -/
inductive Stepped (s : State T) (h : Half T) : State T → Prop
  | moved {pc : Pc} {l : RwLock (Half T)} (hfrom : ∀ o closed, s.pc h ≠ .joining o closed)
    (hto : ∀ o closed, pc ≠ .joining o closed) (hlive : s.pc h ≠ .dropped ∧ pc ≠ .dropped)
    (hlock : Follows s.lock (Pc.mode ∘ s.pc) → Follows l (update (Pc.mode ∘ s.pc) h pc.mode))
    (hseen : ∀ o, pc.observation = some o → (s.pc h).observation = some o ∨
      ∃ c, s.rule = .client c ∧ o = ⟨c.epoch, c.connection⟩) :
    Stepped s h (s.go h pc l)
  | taken {o : Observation} {c : Client} (hpc : s.pc h = .writing o) (hc : s.rule = .client c)
    (he : o.epoch = c.epoch) :
    Stepped s h { s.go h (.joining o c.readerClosed) s.lock with
      rule := .client { c with ioHub := false } }
  | failed {o : Observation} {closed : Bool} (hpc : s.pc h = .joining o closed) :
    Stepped s h (s.go h .idle s.lock.unlockWrite)
  | rejoined {o : Observation} {closed : Bool} {rule : Rule} (hpc : s.pc h = .joining o closed)
    (hrule : ∀ c, rule = .client c → c.connection = s.replaced.length + 1 ∧ c.epoch = o.epoch + 1)
    (hopen : rule.readerOpen = !closed) :
    Stepped s h { s.go h .looping s.lock.unlockWrite with
      rule := rule
      replaced := s.replaced ++ [o.connection] }
  | dropped (hh : h = .receiver) (hpc : s.pc h = .idle) (hfree : s.lock.isFree) :
    Stepped s h { s.go h .dropped s.lock with rule := s.rule.readerClose }

omit [DecidableEq T] in
theorem attempt_cases {rule : Rule} {h : Half T} {o : Outcome} {pc : Pc}
    (ha : attempt rule h o = some pc) :
    pc = .idle ∨ pc = .looping ∨ ∃ c, rule = .client c ∧ pc = .observed ⟨c.epoch, c.connection⟩ := by
  unfold attempt at ha
  repeat' split at ha
  all_goals cases ha
  all_goals first
    | exact Or.inl rfl
    | exact Or.inr (Or.inl rfl)
    | exact Or.inr (Or.inr ⟨_, rfl, rfl⟩)

theorem join_client {j : Joined} {n : Nat} {e : BitVec 32} {rule : Rule} {b : Bool}
    (hj : Rule.join j n e = some rule) :
    ∀ c, (if b then rule.readerClose else rule) = .client c → c.connection = n ∧ c.epoch = e := by
  intro c hc
  cases j with
  | client =>
    cases hj
    cases b <;> cases hc <;> exact ⟨rfl, rfl⟩
  | server =>
    cases hj
    cases b <;> cases hc
  | err => cases hj

theorem join_readerOpen {j : Joined} {n : Nat} {e : BitVec 32} {rule : Rule} {b : Bool}
    (hj : Rule.join j n e = some rule) :
    (if b then rule.readerClose else rule).readerOpen = !b := by
  cases j with
  | client =>
    cases hj
    cases b <;> rfl
  | server =>
    cases hj
    cases b <;> rfl
  | err => cases hj

theorem step_stepped {s s' : State T} {h : Half T} {a : Action} (hs : step s (h, a) = some s') :
    Stepped s h s' := by
  rw [step] at hs
  simp only at hs
  split at hs
  · rename_i hpc
    cases hs
    refine .moved (by simp [hpc]) (by simp) (by simp [hpc]) (fun hl => ?_) (by simp [Pc.observation])
    exact hl.unchanged (by simp [hpc, Pc.mode])
  · rename_i hpc
    obtain ⟨l, hl, rfl⟩ := Option.map_eq_some_iff.mp hs
    exact .moved (by simp [hpc]) (by simp) (by simp [hpc]) (fun hf => hf.read hl)
      (by simp [Pc.observation])
  · rename_i o hpc
    obtain ⟨pc, ha, rfl⟩ := Option.map_eq_some_iff.mp hs
    have hshared : (Pc.mode ∘ s.pc) h = .shared := by simp [hpc, Pc.mode]
    obtain rfl | rfl | ⟨c, hc, rfl⟩ := attempt_cases ha
    · exact .moved (by simp [hpc]) (by simp) (by simp [hpc]) (fun hf => hf.unlockRead hshared)
        (by simp [Pc.observation])
    · exact .moved (by simp [hpc]) (by simp) (by simp [hpc]) (fun hf => hf.unlockRead hshared)
        (by simp [Pc.observation])
    · refine .moved (by simp [hpc]) (by simp) (by simp [hpc]) (fun hf => hf.unchanged hshared) ?_
      intro o ho
      exact Or.inr ⟨c, hc, (Option.some.inj ho).symm⟩
  · rename_i o hpc
    cases hs
    have hshared : (Pc.mode ∘ s.pc) h = .shared := by simp [hpc, Pc.mode]
    exact .moved (by simp [hpc]) (by simp) (by simp [hpc]) (fun hf => hf.unlockRead hshared)
      (by simp [hpc, Pc.observation])
  · rename_i o hpc
    obtain ⟨l, hl, rfl⟩ := Option.map_eq_some_iff.mp hs
    exact .moved (by simp [hpc]) (by simp) (by simp [hpc]) (fun hf => hf.write hl)
      (by simp [hpc, Pc.observation])
  · rename_i o hpc
    cases hs
    have hexclusive : (Pc.mode ∘ s.pc) h = .exclusive := by simp [hpc, Pc.mode]
    have hstale : Stepped s h (s.go h .looping s.lock.unlockWrite) :=
      .moved (by simp [hpc]) (by simp) (by simp [hpc]) (fun hf => hf.unlockWrite hexclusive)
        (by simp [Pc.observation])
    rw [State.check]
    split
    · rename_i c hc
      split
      · rename_i he
        exact .taken hpc hc he
      · exact hstale
    · exact hstale
  · rename_i o closed j hpc
    cases hs
    rw [State.rejoin]
    split
    · rename_i rule hj
      exact .rejoined hpc (join_client hj) (join_readerOpen hj)
    · exact .failed hpc
  · rename_i hpc
    split at hs
    · rename_i hd
      cases hs
      exact .dropped hd.1 hpc hd.2
    · cases hs
  · cases hs

end Ipmb.EndpointSteps
