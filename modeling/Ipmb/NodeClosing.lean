import Ipmb.NodeWorker

namespace Ipmb.NodeWorker

open NodeReceiver (DelegateAction LocalBuffer answered delegated)
open Messages Time Run

variable {M : Type} {w w' : World M}

/-- JavaScript asks for two messages and gets one, and then it closes the receiver. -/
def session : List (Action String) :=
  [.recv none (.ofNanos 0), .recv none (.ofNanos 0), .received (.ok "first"), .worker,
    .callback (.ofNanos 1), .close,
    .main]

/-- The worker takes the signal and stops, `close` returns, and `Close` is called back. -/
def closing : List (Action String) :=
  [.received (.error .timeout), .worker, .main, .main, .worker, .worker, .main, .main]

/-- The worker does not stop without a `Close`, nothing is called after it, and once the
thread-safe function is released nobody uses it any more. -/
theorem worker_destroys {actions : List (Action M)} (h : run World.step World.boot actions = some w) :
    w.worker ≠ .abandoning ∧
      (∃ before, (∀ a ∈ before, isClose a = false) ∧
        w.posted = before ++ if w.worker.over then [.close] else []) ∧
      (w.released = true → w.queue = [] ∧ w.worker.over = true) :=
  ⟨(run_sound h).kept, (run_sound h).closes, (run_sound h).released⟩

theorem worker_destroys_session :
    ∃ w, run World.step World.boot (session ++ closing ++ [.callback (.ofNanos 2)]) = some w ∧ w.queue = [] := by
  have hrun : (run World.step World.boot (session ++ closing ++ [.callback (.ofNanos 2)])).map World.released =
      some true := by
    decide +kernel
  obtain ⟨w, hw, hreleased⟩ := Option.map_eq_some_iff.mp hrun
  exact ⟨w, hw, ((worker_destroys hw).2.2 hreleased).1⟩

/-- What a step of the other thread leaves alone. -/
structure Kept (w w' : World M) : Prop where
  worker : w'.worker = w.worker
  received : w'.received = w.received
  posted : w'.posted = w.posted

theorem closeReturned_kept (w : World M) (caller : Caller) : Kept w (w.closeReturned caller) := by
  cases caller <;> exact ⟨rfl, rfl, rfl⟩

theorem closeCall_kept (w : World M) (caller : Caller) : Kept w (w.closeCall caller) := by
  rw [World.closeCall]
  split
  · exact closeReturned_kept w caller
  · exact ⟨rfl, rfl, posted_act w (by simp) _ _⟩

theorem mainStep_kept (hs : w.mainStep = some w') : Kept w w' := by
  simp only [World.mainStep] at hs
  split at hs
  · cases hs
  · cases hs
    exact ⟨rfl, rfl, rfl⟩
  · split at hs
    · cases hs
      exact ⟨rfl, rfl, rfl⟩
    · cases hs
  · cases hs
    exact ⟨rfl, rfl, rfl⟩
  · cases hs
    exact closeReturned_kept w _

def Action.isWorker : Action M → Bool
  | .received _ | .worker => true
  | _ => false

theorem step_kept {a : Action M} (ha : a.isWorker = false) (hs : w.step a = some w') : Kept w w' := by
  cases a with
  | received | worker => cases ha
  | main => exact mainStep_kept hs
  | recv timeout now =>
    simp only [World.step] at hs
    split at hs
    · obtain ⟨node, -, rfl⟩ := Option.map_eq_some_iff.mp hs
      exact ⟨rfl, rfl, posted_act w (by simp) node w.main⟩
    · cases hs
  | close =>
    simp only [World.step] at hs
    split at hs <;> cases hs
    exact closeCall_kept w _
  | drop holder =>
    simp only [World.step] at hs
    split at hs <;> cases hs
    exact closeCall_kept w _
  | callback now =>
    simp only [World.step] at hs
    split at hs
    · cases hs
    · rename_i hqueue
      split at hs <;> cases hs
      refine ⟨rfl, rfl, ?_⟩
      simp [World.posted, hqueue]

theorem step_over {a : Action M} (ho : w.worker.over = true) (hs : w.step a = some w') :
    w'.worker.over = true ∧ w'.received = w.received ∧ w'.posted = w.posted := by
  cases ha : a.isWorker with
  | false =>
    have hkept := step_kept ha hs
    exact ⟨by rw [hkept.worker, ho], hkept.received, hkept.posted⟩
  | true =>
    cases hw : w.worker with
    | receiving | received | cleaning | destroying | abandoning =>
      rw [hw] at ho
      cases ho
    | leaving =>
      cases a with
      | received r =>
        simp only [World.step, hw] at hs
        cases hs
      | worker =>
        simp only [World.step, World.workerStep, hw] at hs
        cases hs
        exact ⟨rfl, rfl, rfl⟩
      | main | recv | close | drop | callback => cases ha
    | stopped =>
      cases a with
      | received | worker =>
        simp only [World.step, World.workerStep, hw] at hs
        cases hs
      | main | recv | close | drop | callback => cases ha

/-- When `close` has returned, be it called by JavaScript or by a finalizer, the worker takes no
message from the bus any more, and nothing is called. -/
theorem close_stops {before after : List (Action M)} (hstart : run World.step World.boot before = some w)
    (hidle : w.main = .idle) (hclosed : w.closed = true) (hrun : run World.step w after = some w') :
    w'.received = w.received ∧ w'.posted = w.posted ∧ w'.worker.over = true := by
  have hover := (run_sound hstart).idle hidle hclosed
  have hend : w'.worker.over = true ∧ w'.received = w.received ∧ w'.posted = w.posted :=
    run_invariant (fun _ u => u.worker.over = true ∧ u.received = w.received ∧ u.posted = w.posted)
      ⟨hover, rfl, rfl⟩ (fun _ _ _ _ _ hu hs => by
        obtain ⟨ho, hreceived, hposted⟩ := step_over hu.1 hs
        exact ⟨ho, hreceived.trans hu.2.1, hposted.trans hu.2.2⟩) after w' hrun
  exact ⟨hend.2.1, hend.2.2, hend.1⟩

theorem close_stops_session :
    ∃ w w', run World.step World.boot (session ++ closing) = some w ∧
      run World.step w [.callback (.ofNanos 2), .close] = some w' ∧ w'.received = w.received := by
  have hrun : (run World.step World.boot (session ++ closing)).map (fun w => (w.idle, w.closed,
      (run World.step w [.callback (.ofNanos 2), .close]).isSome)) = some (true, true, true) := by
    decide +kernel
  obtain ⟨w, hw, hobs⟩ := Option.map_eq_some_iff.mp hrun
  simp only [Prod.mk.injEq] at hobs
  obtain ⟨hidle, hclosed, hafter⟩ := hobs
  obtain ⟨w', hw'⟩ := Option.isSome_iff_exists.mp hafter
  exact ⟨w, w', hw, hw', (close_stops hw (main_of_idle hidle) hclosed hw').1⟩

theorem delegated_eq (acts : List (NodeReceiver.Action M RecvError)) :
    delegated acts = (acts.filterMap fun a => match a with
      | .delegate action _ => some action
      | _ => none).filterMap resultOf := by
  rw [List.filterMap_filterMap, delegated]
  congr 1
  funext a
  cases a with
  | delegate action now => cases action <;> rfl
  | recv | close => rfl

/-- What the worker has got of the bus is, in its order, with the promises, in the buffer, in the
queue or with the worker, and the promises that have not timed out get it in their order. When the
worker is over and the queue is empty, each promise has been settled once. -/
theorem results_delivered {actions : List (Action M)} (h : run World.step World.boot actions = some w) :
    (answered w.node.settled).map Prod.snd ++ w.node.localBuffer.messages ++ w.queue.filterMap resultOf ++
        w.worker.results = w.received ∧
      (answered w.node.settled).map Prod.fst <+:
        (List.range w.node.created).filter (· ∉ NodeReceiver.failed .timeout w.node.settled) ∧
      (w.worker.over = true → w.queue = [] →
        (w.node.settled.map Prod.fst).Perm (List.range w.node.created)) := by
  have hsound := run_sound h
  have hinv := NodeReceiver.run_inv hsound.node
  refine ⟨?_, ?_, fun hover hqueue => ?_⟩
  · rw [hinv.served, delegated_eq, ← List.filterMap_append]
    exact hsound.results
  · rw [hinv.patient_eq, NodeReceiver.State.patient, List.append_assoc]
    exact List.prefix_append _ _
  · obtain ⟨before, -, hposted⟩ := hsound.closes
    have hmem : DelegateAction.close ∈ w.posted := by simp [hposted, hover]
    rw [World.posted, hqueue, List.append_nil] at hmem
    obtain ⟨a, ha, hclose⟩ := List.mem_filterMap.mp hmem
    obtain ⟨now, rfl⟩ : ∃ now, a = .delegate .close now := by
      cases a with
      | delegate action now =>
        cases hclose
        exact ⟨now, rfl⟩
      | recv | close => cases hclose
    obtain ⟨front, back, hsplit⟩ := List.append_of_mem ha
    obtain ⟨t, -, hnone, -⟩ := NodeReceiver.closed_run (hsplit ▸ hsound.node)
    have honce := hinv.once
    rwa [hnone, List.append_nil] at honce

theorem results_delivered_session :
    ∃ w, run World.step World.boot (session ++ closing ++ [.callback (.ofNanos 2)]) = some w ∧
      (w.node.settled.map Prod.fst).Perm (List.range 2) := by
  have hrun : (run World.step World.boot (session ++ closing ++ [.callback (.ofNanos 2)])).map
      (fun w => (w.worker.over, w.queue.length, w.node.created)) = some (true, 0, 2) := by
    decide +kernel
  obtain ⟨w, hw, hobs⟩ := Option.map_eq_some_iff.mp hrun
  simp only [Prod.mk.injEq] at hobs
  obtain ⟨hover, hqueue, hcreated⟩ := hobs
  refine ⟨w, hw, ?_⟩
  rw [← hcreated]
  exact (results_delivered hw).2.2 hover (List.eq_nil_of_length_eq_zero hqueue)

/-- The call of `recv` after which the worker looks for a signal, or stops. -/
def ends (r : Result M) : Bool := timedOut r || fatal r

def Action.quiet : Action M → Bool
  | .received r => ends r
  | _ => true

def Action.busy : Action M → Bool
  | .received r => !ends r
  | _ => true

/-- How many steps the worker has yet to take when the bus is quiet. -/
def WorkerPc.rank : WorkerPc M → Nat
  | .received r => if ends r then 4 else 6
  | .cleaning => 6
  | .receiving => 5
  | .destroying | .abandoning => 3
  | .leaving => 2
  | .stopped => 1

def MainPc.rank : MainPc → Nat
  | .closing _ .signal .entering => 6
  | .closing _ .signal .offered => 5
  | .closing _ .signal .returned => 4
  | .closing _ .wait .entering => 3
  | .closing _ .wait .offered => 2
  | .closing _ .wait .returned => 1
  | .idle => 0

def MainPc.signalled : MainPc → Bool
  | .closing _ .signal .offered => true
  | main => main.sent

/-- `close` has returned. -/
def World.Closed (w : World M) : Prop := w.main = .idle ∧ w.closed = true

theorem closeCall_closed (hc : w.closed = true) (caller : Caller) : (w.closeCall caller).Closed := by
  rw [World.closeCall, if_pos hc]
  cases caller <;> exact ⟨rfl, hc⟩

theorem workerStep_main (hs : w.workerStep = some w') (hm : w.main.take = none) :
    w'.main = w.main ∧ w'.node = w.node := by
  simp only [World.workerStep] at hs
  split at hs
  · cases hs
  · cases hs
  · split at hs
    · rw [hm] at hs
      simp only at hs
      split at hs <;> cases hs <;> exact ⟨rfl, rfl⟩
    · cases hs
      exact ⟨rfl, rfl⟩
  · cases hs
    exact ⟨rfl, rfl⟩
  · cases hs
    exact ⟨rfl, rfl⟩
  · cases hs
    exact ⟨rfl, rfl⟩
  · cases hs
    exact ⟨rfl, rfl⟩

theorem step_closed {a : Action M} (hd : w.Closed) (hs : w.step a = some w') : w'.Closed := by
  obtain ⟨hm, hc⟩ := hd
  cases a with
  | received r =>
    simp only [World.step] at hs
    split at hs <;> cases hs
    exact ⟨hm, hc⟩
  | worker =>
    obtain ⟨hmain, hnode⟩ := workerStep_main hs (by rw [hm]; rfl)
    exact ⟨hmain.trans hm, by rwa [World.closed, hnode]⟩
  | main =>
    simp only [World.step, World.mainStep, hm] at hs
    cases hs
  | recv timeout now =>
    simp only [World.step] at hs
    split at hs
    · obtain ⟨node, hnode, rfl⟩ := Option.map_eq_some_iff.mp hs
      exact ⟨hm, (recv_closed hnode).trans hc⟩
    · cases hs
  | close =>
    simp only [World.step] at hs
    split at hs <;> cases hs
    exact closeCall_closed hc _
  | drop holder =>
    simp only [World.step] at hs
    split at hs <;> cases hs
    exact closeCall_closed hc _
  | callback now =>
    simp only [World.step] at hs
    split at hs
    · cases hs
    · split at hs <;> cases hs
      refine ⟨hm, (delegate_closed w.node now _).trans ?_⟩
      rw [show w.node.localBuffer.closed = true from hc]
      rfl

def World.rank (w : World M) : Nat := w.worker.rank + w.main.rank

theorem workerStep_rank (h : Sound w) (hm : w.main.signalled = true) (hs : w.workerStep = some w') :
    w'.main.signalled = true ∧ w'.rank < w.rank := by
  simp only [World.workerStep] at hs
  cases hw : w.worker with
  | receiving | stopped =>
    rw [hw] at hs
    cases hs
  | received r =>
    simp only [hw] at hs
    split at hs
    · rename_i ht
      cases hmain : w.main with
      | idle =>
        rw [hmain] at hm
        cases hm
      | closing caller phase send =>
        cases phase with
        | wait =>
          have hfalse := h.sent (by rw [hmain]; rfl)
          rw [hw] at hfalse
          cases hfalse
        | signal =>
          cases send with
          | entering =>
            rw [hmain] at hm
            cases hm
          | returned =>
            have hfalse := h.sent (by rw [hmain]; rfl)
            rw [hw] at hfalse
            cases hfalse
          | offered =>
            simp only [hmain, MainPc.take] at hs
            cases hs
            refine ⟨rfl, ?_⟩
            simp [World.rank, WorkerPc.rank, MainPc.rank, hw, hmain, ends, ht]
    · rename_i ht
      cases hs
      refine ⟨hm, ?_⟩
      cases hf : fatal r <;> simp [World.rank, World.call, WorkerPc.rank, hw, ends, ht, hf]
  | cleaning | destroying | leaving | abandoning =>
    simp only [hw] at hs
    cases hs
    refine ⟨hm, ?_⟩
    simp [World.rank, World.call, WorkerPc.rank, hw]

theorem mainStep_rank (h : Sound w) (hm : w.main.signalled = true) (hs : w.mainStep = some w') :
    w'.Closed ∨ w'.main.signalled = true ∧ w'.rank < w.rank := by
  simp only [World.mainStep] at hs
  cases hmain : w.main with
  | idle =>
    rw [hmain] at hm
    cases hm
  | closing caller phase send =>
    have hclosed := (h.calling caller phase send hmain).2
    simp only [hmain] at hs
    cases send with
    | entering =>
      cases phase with
      | signal =>
        rw [hmain] at hm
        cases hm
      | wait =>
        cases hs
        refine Or.inr ⟨rfl, ?_⟩
        cases hg : w.gone <;> simp [World.rank, MainPc.rank, hmain]
    | offered =>
      simp only at hs
      split at hs
      · cases hs
        refine Or.inr ⟨by cases phase <;> rfl, ?_⟩
        cases phase <;> simp [World.rank, MainPc.rank, hmain]
      · cases hs
    | returned =>
      cases phase with
      | signal =>
        cases hs
        exact Or.inr ⟨rfl, by simp [World.rank, MainPc.rank, hmain]⟩
      | wait =>
        cases hs
        left
        cases caller <;> exact ⟨rfl, hclosed⟩

theorem not_idle (hm : w.main.signalled = true) : w.idle = false := by
  cases hmain : w.main with
  | idle =>
    rw [hmain] at hm
    cases hm
  | closing => simp [World.idle, hmain]

theorem step_rank {a : Action M} (h : Sound w) (hm : w.main.signalled = true) (ha : a.quiet = true)
    (hs : w.step a = some w') : w'.Closed ∨ w'.main.signalled = true ∧ w'.rank < w.rank := by
  have hidle := not_idle hm
  cases a with
  | received r =>
    simp only [World.step] at hs
    split at hs <;> cases hs
    rename_i hw
    refine Or.inr ⟨hm, ?_⟩
    rw [Action.quiet] at ha
    simp [World.rank, WorkerPc.rank, hw, ha]
  | worker => exact Or.inr (workerStep_rank h hm hs)
  | main => exact mainStep_rank h hm hs
  | recv | close | drop =>
    simp only [World.step, hidle] at hs
    cases hs
  | callback now =>
    simp only [World.step, hidle] at hs
    split at hs <;> cases hs

theorem Sound.enabled (h : Sound w) (hm : w.main.signalled = true) :
    ∃ a : Action M, a.quiet = true ∧ (w.step a).isSome = true := by
  cases hw : w.worker with
  | receiving => exact ⟨.received (.error .timeout), rfl, by simp [World.step, hw]⟩
  | received r =>
    refine ⟨.worker, rfl, ?_⟩
    simp only [World.step, World.workerStep, hw]
    split
    · split
      · rfl
      · split <;> rfl
    · rfl
  | cleaning | destroying | leaving => exact ⟨.worker, rfl, by simp [World.step, World.workerStep, hw]⟩
  | abandoning => exact absurd hw h.kept
  | stopped =>
    refine ⟨.main, rfl, ?_⟩
    have hg : w.gone = true := by simp [World.gone, hw]
    cases hmain : w.main with
    | idle =>
      rw [hmain] at hm
      cases hm
    | closing caller phase send =>
      cases phase <;> cases send <;> simp [World.step, World.mainStep, hmain, hg]

/-- The signal waits, and the worker has got a message or waits for one. -/
structure Busy (caller : Caller) (w : World M) : Prop where
  main : w.main = .closing caller .signal .offered
  worker : w.worker = .receiving ∨ ∃ r, w.worker = .received r ∧ ends r = false

theorem Busy.step {caller : Caller} (h : Busy caller w) {a : Action M} (ha : a.busy = true)
    (hs : w.step a = some w') : Busy caller w' := by
  have hidle : w.idle = false := by simp [World.idle, h.main]
  obtain ⟨hmain, hworker⟩ := h
  cases a with
  | received r =>
    simp only [World.step] at hs
    split at hs <;> cases hs
    exact ⟨hmain, Or.inr ⟨r, rfl, by simpa [Action.busy] using ha⟩⟩
  | worker =>
    simp only [World.step, World.workerStep] at hs
    obtain hw | ⟨r, hw, hr⟩ := hworker
    · rw [hw] at hs
      cases hs
    · obtain ⟨ht, hf⟩ := Bool.or_eq_false_iff.mp hr
      simp only [hw, ht, hf, Bool.false_eq_true, if_false] at hs
      cases hs
      exact ⟨hmain, Or.inl rfl⟩
  | main =>
    simp only [World.step, World.mainStep, hmain] at hs
    split at hs
    · rename_i hg
      obtain hw | ⟨r, hw, -⟩ := hworker <;> simp [World.gone, hw] at hg
    · cases hs
  | recv | close | drop =>
    simp only [World.step, hidle] at hs
    cases hs
  | callback now =>
    simp only [World.step, hidle] at hs
    split at hs <;> cases hs

/-- Once `close` has offered its signal, it returns when the bus is quiet, and not earlier: as long
as `recv` of the bus has a message each time, the thread of JavaScript waits. -/
theorem close_returns {before actions : List (Action M)} (hstart : run World.step World.boot before = some w)
    {caller : Caller} (hcalled : w.main = .closing caller .signal .offered)
    (hrun : run World.step w actions = some w') :
    ((∀ a ∈ actions, a.quiet = true) →
      w'.Closed ∨ actions.length ≤ 9 ∧ ∃ a : Action M, a.quiet = true ∧ (w'.step a).isSome = true) ∧
    (w.worker = .receiving → (∀ a ∈ actions, a.busy = true) → w'.main = w.main) := by
  have hsound := run_sound hstart
  have hsignalled : w.main.signalled = true := by rw [hcalled]; rfl
  refine ⟨fun hquiet => ?_, fun hw hbusy => ?_⟩
  · obtain hdone | ⟨⟨hend, hm⟩, hrank⟩ := run_response (fun _ => true) (fun a : Action M => a.quiet = true)
      World.Closed (fun w => Sound w ∧ w.main.signalled = true) World.rank (fun _ _ _ hd hs => step_closed hd hs)
      (fun _ _ _ hI ha hs => (step_rank hI.1 hI.2 ha hs).imp_right fun hnext => ⟨⟨hI.1.step hs, hnext.1⟩,
        hnext.2⟩)
      ⟨hsound, hsignalled⟩ hquiet hrun
    · exact Or.inl hdone
    · have hle : w.rank ≤ 11 := by
        rw [World.rank, hcalled]
        cases w.worker <;> simp only [WorkerPc.rank, MainPc.rank] <;> try split
        all_goals omega
      have hge : 2 ≤ w'.rank := by
        rw [World.rank]
        cases hmain : w'.main with
        | idle =>
          rw [hmain] at hm
          cases hm
        | closing caller phase send =>
          cases phase <;> cases send <;> cases w'.worker <;> simp only [WorkerPc.rank, MainPc.rank] <;> try split
          all_goals omega
      rw [List.countP_true] at hrank
      exact Or.inr ⟨by omega, hend.enabled hm⟩
  · have hbusy : Busy caller w' :=
      along_invariant (Busy caller) (fun _ _ _ hb ha hs => hb.step ha hs) ⟨hcalled, Or.inl hw⟩
        (along_of_forall (fun a ha _ => hbusy a ha) w) hrun
    rw [hbusy.main, hcalled]

theorem close_returns_session :
    ∃ w w', run World.step World.boot session = some w ∧
      run World.step w (closing ++ [.callback (.ofNanos 2), .drop .object]) = some w' ∧ w'.Closed := by
  have hrun : (run World.step World.boot session).map (fun w => (w.main,
      (run World.step w (closing ++ [.callback (.ofNanos 2), .drop .object])).isSome)) =
      some (.closing .call .signal .offered, true) := by
    decide +kernel
  obtain ⟨w, hw, hobs⟩ := Option.map_eq_some_iff.mp hrun
  obtain ⟨hmain, hsteps⟩ := Prod.mk.inj hobs
  obtain ⟨w', hw'⟩ := Option.isSome_iff_exists.mp hsteps
  have hreturns := (close_returns hw hmain hw').1 (by simp [closing, Action.quiet, ends, timedOut])
  exact ⟨w, w', hw, hw', hreturns.resolve_right fun hlong => absurd hlong.1 (by decide)⟩

end Ipmb.NodeWorker
