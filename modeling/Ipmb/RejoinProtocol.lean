import Ipmb.Rejoin

namespace Ipmb.RejoinProtocol

open Function Locks Run EndpointRule EndpointSteps Rejoin

variable {T : Type} [DecidableEq T] {s s' : State T} {h : Half T}

/-- A thread that finds the connection lost, or its hub gone, can make a new one. -/
theorem can_rejoin {c : Client} {u : Half T} (hfree : s.lock.isFree) (hc : s.rule = .client c)
    (hidle : s.pc u = .idle) (hu : u = .receiver → c.ioHub = false ∧ c.readerClosed = false) :
    ∃ (acts : List Action) (s' : State T), run step s (acts.map (u, ·)) = some s' ∧
      s'.replaced = s.replaced ++ [c.connection] := by
  obtain ⟨o, hattempt⟩ : ∃ o, attempt s.rule u o = some (.observed ⟨c.epoch, c.connection⟩) := by
    rw [hc]
    cases u with
    | sender t => exact ⟨.disconnect, rfl⟩
    | receiver =>
      obtain ⟨connection, ioHub, readerClosed, epoch⟩ := c
      obtain ⟨rfl, rfl⟩ : ioHub = false ∧ readerClosed = false := hu rfl
      exact ⟨.missing, rfl⟩
  obtain ⟨l, hread, hunlock⟩ := hfree.read u
  obtain ⟨l', hwrite⟩ := hunlock.write u
  refine ⟨[.call, .readLock, .attempt o, .release, .writeLock, .check, .join .client], ?_⟩
  let s₁ := s.go u .looping s.lock
  let s₂ := s₁.go u .reading l
  let s₃ := s₂.go u (.observed ⟨c.epoch, c.connection⟩) l
  let s₄ := s₃.go u (.released ⟨c.epoch, c.connection⟩) (l.unlockRead u)
  let s₅ := s₄.go u (.writing ⟨c.epoch, c.connection⟩) l'
  let s₆ : State T := { s₅.go u (.joining ⟨c.epoch, c.connection⟩ c.readerClosed) l' with
    rule := .client { c with ioHub := false } }
  have h₁ : step s (u, .call) = some s₁ := by simp [step, hidle, s₁]
  have h₂ : step s₁ (u, .readLock) = some s₂ := by simp [step, s₁, s₂, State.go, hread]
  have h₃ : step s₂ (u, .attempt o) = some s₃ := by
    simp [step, s₁, s₂, s₃, State.go, hattempt, Pc.mode]
  have h₄ : step s₃ (u, .release) = some s₄ := by simp [step, s₃, s₄, State.go]
  have h₅ : step s₄ (u, .writeLock) = some s₅ := by simp [step, s₄, s₅, State.go, hwrite]
  have hcheck : s₅.check u ⟨c.epoch, c.connection⟩ = s₆ := by
    have hrule : s₅.rule = .client c := hc
    rw [State.check]
    rw [hrule]
    exact if_pos rfl
  have h₆ : step s₅ (u, .check) = some s₆ := by
    rw [← hcheck]
    simp [step, s₅, State.go]
  have h₇ : step s₆ (u, .join .client) =
      some (s₆.rejoin u ⟨c.epoch, c.connection⟩ c.readerClosed .client) := by
    simp [step, s₆, State.go]
  simp only [List.map_cons, List.map_nil]
  rw [run_cons h₁, run_cons h₂, run_cons h₃, run_cons h₄, run_cons h₅, run_cons h₆, run_cons h₇]
  exact ⟨_, rfl, rfl⟩

/-- The thread replaces the client on whose loss it has come to rejoin. -/
structure Replaces (h : Half T) (c : Client) (s s' : State T) : Prop where
  rule : s.rule = .client c
  observed : ∃ o closed, s.pc h = .joining o closed ∧ o.connection = c.connection
  once : s'.replaced = s.replaced ++ [c.connection]
  epoch : ∀ c', s'.rule = .client c' →
    c'.connection = c.connection + 1 ∧ c'.epoch.toNat = c.epoch.toNat + 1

/-- A failed join leaves the client, and whoever sends or receives next can rejoin. -/
structure Leaves (c : Client) (s s' : State T) : Prop where
  rule : s.rule = .client c
  same : s'.rule = .client c
  later : ∀ u, s'.pc u = .idle → ∃ (acts : List Action) (t : State T),
    run step s' (acts.map (u, ·)) = some t ∧ t.replaced = s'.replaced ++ [c.connection]

/-- What a step of `h` does to the rule. -/
structure Protocol (h : Half T) (s s' : State T) : Prop where
  replaces : s'.replaced = s.replaced ∧ s'.rule.connection = s.rule.connection ∨
    ∃ c, Replaces h c s s'
  /-- The hub goes when the connection that `h` saw lost is to be replaced, or with the receiver. -/
  tears : ∀ c c', s.rule = .client c → s'.rule = .client c' → c'.connection = c.connection →
    c.ioHub = true → c'.ioHub = false →
    (∃ o, s.pc h = .writing o ∧ o.connection = c.connection) ∨ h = .receiver ∧ s'.pc h = .dropped
  failed : ∀ o closed, s.pc h = .joining o closed → s'.replaced = s.replaced →
    ∃ c, c.connection = o.connection ∧ Leaves c s s'
  server : ∀ receiver, s.rule = .server receiver → ∃ receiver', s'.rule = .server receiver'
  /-- A thread goes by what it saw, which was the rule at that time. -/
  observes : ∀ o, (s'.pc h).observation = some o → (s.pc h).observation = some o ∨
    ∃ c, s.rule = .client c ∧ o = ⟨c.epoch, c.connection⟩

theorem stepped_protocol (hi : Inv s) (hlt : s'.replaced.length < 2 ^ 32) (hs : Stepped s h s') :
    Protocol h s s' := by
  have hlt₀ := Nat.lt_of_le_of_lt (stepped_grows hs) hlt
  have hi' := stepped_inv hi hlt₀ hs
  cases hs with
  | moved hfrom _ _ _ hseen =>
    refine ⟨Or.inl ⟨rfl, rfl⟩, ?_, fun o closed hpc => absurd hpc (hfrom o closed),
      fun receiver hr => ⟨receiver, hr⟩, by simpa [State.go] using hseen⟩
    intro c c' hc hc' _ hhub hno
    cases hc.symm.trans hc'
    exact absurd hhub (by simp [hno])
  | @taken o c hpc hc he =>
    refine ⟨Or.inl ⟨rfl, by rw [hc]; rfl⟩, ?_, by simp [hpc], by simp [hc],
      by simp [State.go, hpc, Pc.observation]⟩
    intro c₀ c' hc₀ _ _ _ _
    cases hc.symm.trans hc₀
    exact Or.inl ⟨o, hpc, hi.connection_eq (h := h) hlt₀ (by simp [hpc, Pc.observation]) hc he⟩
  | @failed o closed hpc =>
    have hold := hi.joining h o closed hpc
    refine ⟨Or.inl ⟨rfl, rfl⟩, ?_, ?_, by simp [hold], by simp [State.go, Pc.observation]⟩
    · intro c c' hc hc' _ hhub hno
      cases hc.symm.trans hc'
      exact absurd hhub (by simp [hno])
    · intro o' closed' hpc' _
      cases hpc.symm.trans hpc'
      refine ⟨_, rfl, hold, hold, fun u hu => ?_⟩
      refine can_rejoin (hi.lock.isFree_unlockWrite (t := h) (by simp [hpc, Pc.mode])) hold hu ?_
      rintro rfl
      refine ⟨rfl, ?_⟩
      have hopen := hi'.readerOpen.mpr (by rw [hu]; simp)
      simpa [State.go, hold, Rule.readerOpen] using hopen
  | @rejoined o closed rule hpc hrule hopen =>
    have hold := hi.joining h o closed hpc
    have hlast : o.connection = s.replaced.length := (hi.rule _ hold).1
    have hepoch : o.epoch = BitVec.ofNat 32 o.connection := (hi.rule _ hold).2
    refine ⟨Or.inr ⟨_, hold, ⟨o, closed, hpc, rfl⟩, rfl, fun c' hc' => ?_⟩, ?_, by simp, by simp [hold],
      by simp [State.go, Pc.observation]⟩
    · obtain ⟨hnext, -⟩ := hrule c' hc'
      refine ⟨by rw [hnext, hlast], ?_⟩
      rw [(hi'.rule c' hc').2, hepoch, BitVec.toNat_ofNat, BitVec.toNat_ofNat, hnext, hlast,
        Nat.mod_eq_of_lt hlt₀, Nat.mod_eq_of_lt (by simpa using hlt)]
    · intro c c' hc hc' hsame _ _
      cases hold.symm.trans hc
      have hnext := (hrule c' hc').1
      simp only at hsame
      omega
  | dropped hh hpc hfree =>
    refine ⟨Or.inl ⟨rfl, ?_⟩, ?_, by simp [hpc], ?_, by simp [State.go, Pc.observation]⟩
    · cases s.rule <;> rfl
    · intro _ _ _ _ _ _ _
      exact Or.inr ⟨hh, update_self ..⟩
    · intro receiver hr
      exact ⟨false, by simp [hr, Rule.readerClose]⟩

/-- In every run with fewer than 2^32 successful rejoins, each of them replaces the very
client on whose loss the thread acted, and no client is replaced twice. -/
theorem rejoin_protocol {j : Joined} {s₀ : State T} {acts : List (Half T × Action)}
    (h₀ : join T j = some s₀) (hr : run step s₀ acts = some s) (hlt : s.replaced.length < 2 ^ 32) :
    s.replaced.Nodup ∧ ∀ acts₁ h a acts₂ t t', acts = acts₁ ++ (h, a) :: acts₂ →
      run step s₀ acts₁ = some t → step t (h, a) = some t' → Protocol h t t' := by
  refine ⟨?_, ?_⟩
  · rw [(run_inv h₀ hr hlt).replaced]
    exact List.nodup_range
  · rintro acts₁ h a acts₂ t t' rfl ht ht'
    have hst := step_stepped ht'
    obtain ⟨u, hu, hrest⟩ := run_prefix hr
    cases ht.symm.trans hu
    rw [run_cons ht'] at hrest
    have hle := run_monotone (fun s s' : State T => s.replaced.length ≤ s'.replaced.length)
      (fun _ => Nat.le_refl _) (fun _ _ _ => Nat.le_trans)
      (fun _ _ _ hs => stepped_grows (step_stepped hs)) t' s acts₂ hrest
    have hlt' := Nat.lt_of_le_of_lt hle hlt
    exact stepped_protocol (run_inv h₀ ht (Nat.lt_of_le_of_lt (stepped_grows hst) hlt')) hlt' hst

/-- Two senders see the same connection lost. The second one finds it replaced. -/
def race : List (Half Nat × Action) :=
  [(.sender 0, .call), (.sender 1, .call), (.sender 0, .readLock), (.sender 1, .readLock),
    (.sender 0, .attempt .disconnect), (.sender 1, .attempt .disconnect), (.sender 0, .release),
    (.sender 1, .release), (.sender 0, .writeLock), (.sender 0, .check), (.sender 0, .join .client),
    (.sender 1, .writeLock), (.sender 1, .check)]

theorem rejoin_protocol_race :
    ∃ s₀ s, join Nat .client = some s₀ ∧ run step s₀ race = some s ∧ s.replaced = [0] ∧
      (s.replaced.Nodup ∧ ∀ acts₁ h a acts₂ t t', race = acts₁ ++ (h, a) :: acts₂ →
        run step s₀ acts₁ = some t → step t (h, a) = some t' → Protocol h t t') := by
  have hrun : ((join Nat .client).bind fun s₀ => run step s₀ race).map State.replaced = some [0] := by
    decide
  obtain ⟨s, hs, hreplaced⟩ := Option.map_eq_some_iff.mp hrun
  obtain ⟨s₀, h₀, hr⟩ := Option.bind_eq_some_iff.mp hs
  exact ⟨s₀, s, h₀, hr, hreplaced, rejoin_protocol h₀ hr (by rw [hreplaced]; decide)⟩

end Ipmb.RejoinProtocol
