import Ipmb.Messages
import Ipmb.NodeReceiver

namespace Ipmb.NodeWorker

open NodeReceiver (DelegateAction LocalBuffer answered delegated delegateReceiver)
open Messages Time Run

/-- An error of `recv` of the bus. -/
inductive RecvError where
  | decode
  | timeout
  | versionMismatch (v : Version)
  | tokenMismatch
  | permissionDenied

variable {M : Type}

/-- What `recv` of the bus returns. -/
abbrev Result (M : Type) := Except RecvError M

/-- The worker stops after this one. -/
def fatal : Result M → Bool
  | .error (.versionMismatch _) | .error .tokenMismatch | .error .permissionDenied => true
  | _ => false

def timedOut : Result M → Bool
  | .error .timeout => true
  | _ => false

/-- Where the worker is: in `recv`, with its result, before `CleanTimeout` or `destroy`, or at the
end of the loop. `abandoning` is the end without `destroy`. -/
inductive WorkerPc (M : Type) where
  | receiving
  | received (r : Result M)
  | cleaning
  | destroying
  | leaving
  | abandoning
  | stopped

/-- A `Receiver` is in the object of JavaScript, the other one in the cleanup hook. -/
inductive Holder where
  | object
  | hook
deriving DecidableEq

/-- Who calls `Receiver::close`. -/
inductive Caller where
  | call
  | drop (holder : Holder)
deriving DecidableEq

def Caller.holder : Caller → Holder
  | .call => .object
  | .drop holder => holder

/-- The two `send`s of `close`. -/
inductive Phase where
  | signal
  | wait
deriving DecidableEq

/-- Where a `send` on the channel without a buffer is; it waits while it is `offered`. -/
inductive Send where
  | entering
  | offered
  | returned
deriving DecidableEq

/-- Where the thread of JavaScript is. -/
inductive MainPc where
  | idle
  | closing (caller : Caller) (phase : Phase) (send : Send)
deriving DecidableEq

/-- `queue` is the one of the thread-safe function, `node` the receiver on the side of JavaScript.
`received` is what the worker has got of the bus, timeouts apart, and `acts` what has been done
to `node`. -/
structure World (M : Type) where
  worker : WorkerPc M
  main : MainPc
  holds : Holder → Bool
  queue : List (DelegateAction M RecvError)
  released : Bool
  node : NodeReceiver.State M RecvError
  received : List (Result M)
  acts : List (NodeReceiver.Action M RecvError)

def World.boot : World M := ⟨.receiving, .idle, fun _ => true, [], false, NodeReceiver.start, [], []⟩

inductive Action (M : Type) where
  /-- `recv` of the bus returns. -/
  | received (r : Result M)
  | worker
  /-- JavaScript calls `recv` or `close`. -/
  | recv (timeout : Option UInt32) (now : Instant)
  | close
  /-- A finalizer, or the cleanup hook. -/
  | drop (holder : Holder)
  | main
  | callback (now : Instant)

/-- `try_recv` finds the `send` that waits. -/
def MainPc.take : MainPc → Option MainPc
  | .closing caller phase .offered => some (.closing caller phase .returned)
  | _ => none

def isClose : DelegateAction M RecvError → Bool
  | .close => true
  | _ => false

namespace World

variable (w : World M)

def closed : Bool := w.node.localBuffer.closed

/-- The end of the loop drops the other end of the channel. -/
def gone : Bool :=
  match w.worker with
  | .stopped => true
  | _ => false

def call (action : DelegateAction M RecvError) (pc : WorkerPc M) : World M :=
  { w with queue := w.queue ++ [action], worker := pc }

def workerStep : Option (World M) :=
  match w.worker with
  | .receiving | .stopped => none
  | .received r =>
    if timedOut r then
      match w.main.take with
      | some main => some { w with main := main, worker := .destroying }
      | none =>
        if w.holds .object || w.holds .hook then some { w with worker := .cleaning }
        else some { w with worker := .abandoning }
    else some (w.call (.recv r) (if fatal r then .destroying else .receiving))
  | .cleaning => some (w.call .cleanTimeout .receiving)
  | .destroying => some (w.call .close .leaving)
  | .leaving => some { w with worker := .stopped }
  | .abandoning => some { w with worker := .stopped, released := true }

def closeReturned : Caller → World M
  | .call => { w with main := .idle }
  | .drop holder => { w with main := .idle, holds := Function.update w.holds holder false }

/-- `Receiver::close` -/
def closeCall (caller : Caller) : World M :=
  if w.closed then w.closeReturned caller
  else
    { w with
      node := NodeReceiver.close w.node
      acts := w.acts ++ [.close]
      main := .closing caller .signal .entering }

def mainStep : Option (World M) :=
  match w.main with
  | .idle => none
  | .closing caller phase .entering =>
    some { w with main := .closing caller phase (if w.gone then .returned else .offered) }
  | .closing caller phase .offered =>
    if w.gone then some { w with main := .closing caller phase .returned } else none
  | .closing caller .signal .returned => some { w with main := .closing caller .wait .entering }
  | .closing caller .wait .returned => some (w.closeReturned caller)

def idle : Bool :=
  match w.main with
  | .idle => true
  | _ => false

def step : Action M → Option (World M)
  | .received r =>
    match w.worker with
    | .receiving =>
      some { w with worker := .received r, received := w.received ++ if timedOut r then [] else [r] }
    | _ => none
  | .worker => w.workerStep
  | .main => w.mainStep
  | .recv timeout now =>
    if w.idle && w.holds .object then
      (NodeReceiver.step w.node (.recv timeout now)).map fun node =>
        { w with node := node, acts := w.acts ++ [.recv timeout now] }
    else none
  | .close => if w.idle && w.holds .object then some (w.closeCall .call) else none
  | .drop holder => if w.idle && w.holds holder then some (w.closeCall (.drop holder)) else none
  | .callback now =>
    match w.queue with
    | [] => none
    | action :: queue =>
      if w.idle then
        some { w with
          queue := queue
          node := delegateReceiver w.node now action
          acts := w.acts ++ [.delegate action now]
          released := w.released || isClose action }
      else none

/-- All the calls of the thread-safe function. -/
def posted : List (DelegateAction M RecvError) :=
  (w.acts.filterMap fun a => match a with
    | .delegate action _ => some action
    | _ => none) ++ w.queue

end World

/-- The worker has more to do than to end. -/
def WorkerPc.serving : WorkerPc M → Bool
  | .receiving | .received _ | .cleaning => true
  | _ => false

/-- `destroy` has been called. -/
def WorkerPc.over : WorkerPc M → Bool
  | .leaving | .stopped => true
  | _ => false

/-- What the worker has got and not passed on. -/
def WorkerPc.results : WorkerPc M → List (Result M)
  | .received r => if timedOut r then [] else [r]
  | _ => []

def resultOf : DelegateAction M RecvError → Option (Result M)
  | .recv r => some r
  | _ => none

def MainPc.sent : MainPc → Bool
  | .closing _ .signal .returned | .closing _ .wait _ => true
  | _ => false

/-- What the two threads know of each other. -/
structure Sound (w : World M) : Prop where
  node : run NodeReceiver.step NodeReceiver.start w.acts = some w.node
  calling : ∀ caller phase send, w.main = .closing caller phase send →
    w.holds caller.holder = true ∧ w.closed = true
  dropped : ∀ holder, w.holds holder = false → w.closed = true
  idle : w.main = .idle → w.closed = true → w.worker.over = true
  sent : w.main.sent = true → w.worker.serving = false
  waited : ∀ caller, w.main = .closing caller .wait .returned → w.gone = true
  kept : w.worker ≠ .abandoning
  closes : ∃ before, (∀ a ∈ before, isClose a = false) ∧
    w.posted = before ++ if w.worker.over then [.close] else []
  results : w.posted.filterMap resultOf ++ w.worker.results = w.received
  released : w.released = true → w.queue = [] ∧ w.worker.over = true

theorem boot_sound : Sound (World.boot : World M) := by
  refine ⟨rfl, ?_, ?_, ?_, ?_, ?_, ?_, ⟨[], ?_, ?_⟩, ?_, ?_⟩ <;>
    simp [World.boot, World.closed, World.posted, NodeReceiver.start, LocalBuffer.default, MainPc.sent,
      WorkerPc.over, WorkerPc.results]

variable {w w' : World M}

theorem posted_call (action : DelegateAction M RecvError) (pc : WorkerPc M) :
    (w.call action pc).posted = w.posted ++ [action] := by
  simp only [World.posted, World.call, List.append_assoc]

/-- After `Close` nothing is called. -/
theorem Sound.not_released (h : Sound w) (ho : w.worker.over = false) : w.released = false := by
  cases hr : w.released with
  | false => rfl
  | true =>
    rw [(h.released hr).2] at ho
    cases ho

/-- The worker calls the thread-safe function and goes on. -/
theorem Sound.call (h : Sound w) {action : DelegateAction M RecvError} {pc : WorkerPc M}
    (ho : w.worker.over = false) (hclose : isClose action = pc.over) (hkept : pc ≠ .abandoning)
    (hserving : pc.serving = true → w.worker.serving = true) (hgone : (w.call action pc).gone = false)
    (hresults : (resultOf action).toList = w.worker.results) (hnone : pc.results = []) :
    Sound (w.call action pc) := by
  have hidle : w.main = .idle → w.closed = true → False := by
    intro hm hc
    rw [h.idle hm hc] at ho
    cases ho
  have hnotgone : w.gone = false := by
    cases hw : w.worker <;> simp [World.gone, hw, WorkerPc.over] at ho ⊢
  refine ⟨h.node, h.calling, h.dropped, fun hm hc => absurd (hidle hm hc) id, fun hs => ?_,
    fun c hc => ?_, hkept, ?_,
    ?_, fun hr => ?_⟩
  · rw [Bool.eq_false_iff]
    intro hpc
    have hfalse := h.sent hs
    rw [hserving hpc] at hfalse
    cases hfalse
  · have htrue := h.waited c hc
    rw [hnotgone] at htrue
    cases htrue
  · obtain ⟨before, hbefore, hposted⟩ := h.closes
    rw [ho, if_neg Bool.false_ne_true, List.append_nil] at hposted
    rw [posted_call, hposted]
    change ∃ before', _ ∧ _ = before' ++ if pc.over = true then _ else _
    cases hover : pc.over with
    | true =>
      rw [hover] at hclose
      obtain rfl : action = .close := by
        cases action <;> first | rfl | cases hclose
      exact ⟨before, hbefore, rfl⟩
    | false =>
      rw [hover] at hclose
      refine ⟨before ++ [action], fun a ha => ?_, by simp⟩
      obtain ha | ha := List.mem_append.mp ha
      · exact hbefore a ha
      · rw [List.mem_singleton.mp ha, hclose]
  · rw [posted_call, List.filterMap_append]
    change _ ++ pc.results = w.received
    rw [hnone, List.append_nil, ← h.results, ← hresults]
    cases action <;> simp [resultOf]
  · have hfalse := h.not_released ho
    rw [show w.released = true from hr] at hfalse
    cases hfalse

/-- The worker goes on without a call. -/
theorem Sound.goto (h : Sound w) {pc : WorkerPc M} (received : List (Result M))
    (hover : pc.over = w.worker.over) (hkept : pc ≠ .abandoning)
    (hserving : pc.serving = true → w.worker.serving = true)
    (hgone : w.gone = true → World.gone { w with worker := pc, received := received } = true)
    (hresults : ∀ l, l ++ w.worker.results = w.received → l ++ pc.results = received) :
    Sound { w with worker := pc, received := received } where
  node := h.node
  calling := h.calling
  dropped := h.dropped
  idle hm hc := hover.trans (h.idle hm hc)
  sent hs := Bool.eq_false_iff.mpr fun hpc => Bool.eq_false_iff.mp (h.sent hs) (hserving hpc)
  waited c hc := hgone (h.waited c hc)
  kept := hkept
  closes := by
    obtain ⟨before, hbefore, hposted⟩ := h.closes
    exact ⟨before, hbefore, by rw [hover]; exact hposted⟩
  results := hresults _ h.results
  released hr := ⟨(h.released hr).1, hover.trans (h.released hr).2⟩

theorem serving_of_gone (hgone : w.gone = true) : w.worker.serving = false ∧ w.worker.over = true := by
  cases hw : w.worker <;> simp [World.gone, hw, WorkerPc.serving, WorkerPc.over] at hgone ⊢

/-- The thread of JavaScript goes on in `close`. -/
theorem Sound.closing (h : Sound w) {caller : Caller} {phase phase' : Phase} {send send' : Send}
    (hmain : w.main = .closing caller phase send)
    (hsent : (MainPc.closing caller phase' send').sent = true → w.worker.serving = false)
    (hwaited : phase' = .wait → send' = .returned → w.gone = true) :
    Sound { w with main := .closing caller phase' send' } where
  node := h.node
  calling := by
    rintro _ _ _ ⟨⟩
    exact h.calling caller phase send hmain
  dropped := h.dropped
  idle hm := by cases hm
  sent := hsent
  waited := by
    rintro _ ⟨⟩
    exact hwaited rfl rfl
  kept := h.kept
  closes := h.closes
  results := h.results
  released := h.released

theorem Sound.closeReturned (h : Sound w) (hclosed : w.closed = true) (hover : w.worker.over = true)
    (caller : Caller) : Sound (w.closeReturned caller) := by
  cases caller with
  | call =>
    exact ⟨h.node, by rintro _ _ _ ⟨⟩, h.dropped, fun _ _ => hover, by rintro ⟨⟩, by rintro _ ⟨⟩, h.kept,
      h.closes,
      h.results, h.released⟩
  | drop holder =>
    exact ⟨h.node, by rintro _ _ _ ⟨⟩, fun _ _ => hclosed, fun _ _ => hover, by rintro ⟨⟩, by rintro _ ⟨⟩,
      h.kept,
      h.closes, h.results, h.released⟩

theorem main_of_idle (hm : w.idle = true) : w.main = .idle := by
  cases hmain : w.main with
  | idle => rfl
  | closing caller phase send => simp [World.idle, hmain] at hm

theorem Sound.acted (h : Sound w) {a : NodeReceiver.Action M RecvError}
    {node : NodeReceiver.State M RecvError}
    (hs : NodeReceiver.step w.node a = some node) :
    run NodeReceiver.step NodeReceiver.start (w.acts ++ [a]) = some node := by
  rw [run_concat, h.node]
  exact hs

theorem posted_act (w : World M) {a : NodeReceiver.Action M RecvError}
    (ha : ∀ action now, a ≠ .delegate action now)
    (node : NodeReceiver.State M RecvError) (main : MainPc) :
    World.posted { w with node := node, acts := w.acts ++ [a], main := main } = w.posted := by
  simp only [World.posted, List.filterMap_append]
  cases a with
  | delegate action now => exact absurd rfl (ha action now)
  | recv | close => simp

theorem Sound.closeCall (h : Sound w) {caller : Caller} (hm : w.main = .idle)
    (hholds : w.holds caller.holder = true) : Sound (w.closeCall caller) := by
  rw [World.closeCall]
  split
  · rename_i hclosed
    exact h.closeReturned hclosed (h.idle hm hclosed) caller
  · refine ⟨h.acted rfl, ?_, fun _ _ => rfl, by rintro ⟨⟩, by rintro ⟨⟩, by rintro _ ⟨⟩, h.kept, ?_, ?_,
    h.released⟩
    · rintro _ _ _ ⟨⟩
      exact ⟨hholds, rfl⟩
    · rw [posted_act w (by simp)]
      exact h.closes
    · rw [posted_act w (by simp)]
      exact h.results

/-- `recv` of JavaScript leaves the flag as it is. -/
theorem recv_closed {s s' : NodeReceiver.State M RecvError} {timeout : Option UInt32} {now : Instant}
    (hs : NodeReceiver.step s (.recv timeout now) = some s') :
    s'.localBuffer.closed = s.localBuffer.closed := by
  cases NodeReceiver.step_moved hs <;> rfl

theorem delegate_closed (s : NodeReceiver.State M RecvError) (now : Instant)
    (action : DelegateAction M RecvError) :
    (delegateReceiver s now action).localBuffer.closed = (s.localBuffer.closed || isClose action) := by
  cases action with
  | cleanTimeout => simp [delegateReceiver, NodeReceiver.cleanTimeout_eq, isClose]
  | close => simp [delegateReceiver, NodeReceiver.closeBuffer, isClose]
  | recv r =>
    simp only [delegateReceiver, isClose, Bool.or_false]
    split <;> rfl

/-- Nothing follows a `Close`. -/
theorem Sound.last (h : Sound w) (front : List (DelegateAction M RecvError))
    {rest : List (DelegateAction M RecvError)} {action : DelegateAction M RecvError}
    (hposted : w.posted = front ++ action :: rest) (hclose : isClose action = true) : rest = [] ∧ w.worker.over = true := by
  obtain ⟨before, hbefore, heq⟩ := h.closes
  rw [hposted] at heq
  cases hover : w.worker.over with
  | false =>
    rw [hover, if_neg Bool.false_ne_true, List.append_nil] at heq
    have hmem : action ∈ before := heq ▸ List.mem_append_right front List.mem_cons_self
    rw [hbefore action hmem] at hclose
    cases hclose
  | true =>
    rw [hover, if_pos rfl] at heq
    refine ⟨?_, rfl⟩
    obtain rfl | ⟨init, last, rfl⟩ := List.eq_nil_or_concat' rest
    · rfl
    · have hmem : action ∈ before := by
        have hsplit : front ++ action :: init ++ [last] = before ++ [.close] := by simpa using heq
        rw [← (List.append_inj' hsplit rfl).1]
        exact List.mem_append_right front List.mem_cons_self
      rw [hbefore action hmem] at hclose
      cases hclose

theorem Sound.callback (h : Sound w) {action : DelegateAction M RecvError}
    {queue : List (DelegateAction M RecvError)} (hqueue : w.queue = action :: queue) (hm : w.main = .idle)
    (now : Instant) :
    Sound { w with
      queue := queue
      node := delegateReceiver w.node now action
      acts := w.acts ++ [.delegate action now]
      released := w.released || isClose action } := by
  have hposted : World.posted { w with
      queue := queue
      node := delegateReceiver w.node now action
      acts := w.acts ++ [.delegate action now]
      released := w.released || isClose action } = w.posted := by
    simp only [World.posted, List.filterMap_append, hqueue]
    simp
  have hlast : isClose action = true → queue = [] ∧ w.worker.over = true := fun hclose =>
    h.last (w.acts.filterMap _) (by rw [World.posted, hqueue]) hclose
  have hclosed := delegate_closed w.node now action
  refine ⟨h.acted rfl, fun c p s hc => ?_, fun holder hd => ?_, fun _ hc => ?_, h.sent, h.waited, h.kept,
    ?_, ?_,
    fun hr => ?_⟩
  · rw [show w.main = _ from hc] at hm
    cases hm
  · have htrue : w.node.localBuffer.closed = true := h.dropped holder hd
    change LocalBuffer.closed _ = true
    rw [hclosed, htrue]
    rfl
  · have hor : (w.node.localBuffer.closed || isClose action) = true := hclosed ▸ hc
    obtain hc | hclose := Bool.or_eq_true_iff.mp hor
    · exact h.idle hm hc
    · exact (hlast hclose).2
  · rw [hposted]
    exact h.closes
  · rw [hposted]
    exact h.results
  · obtain hr | hclose := Bool.or_eq_true_iff.mp hr
    · obtain ⟨hnil, -⟩ := h.released hr
      rw [hqueue] at hnil
      cases hnil
    · exact hlast hclose

theorem main_of_take {main main' : MainPc} (ht : main.take = some main') :
    ∃ caller phase, main = .closing caller phase .offered ∧ main' = .closing caller phase .returned := by
  cases main with
  | idle => cases ht
  | closing caller phase send =>
    cases send with
    | entering | returned => cases ht
    | offered =>
      cases ht
      exact ⟨caller, phase, rfl, rfl⟩

/-- The worker takes the signal. -/
theorem Sound.taken (h : Sound w) {r : Result M} (hw : w.worker = .received r) (ht : timedOut r = true)
    {main : MainPc} (htake : w.main.take = some main) : Sound
    { w with main := main, worker := .destroying } := by
  have hserving : w.worker.serving = true := by rw [hw]; rfl
  have hover : w.worker.over = false := by rw [hw]; rfl
  obtain ⟨caller, phase, hmain, rfl⟩ := main_of_take htake
  have hnext : Sound { w with worker := .destroying } := by
    refine h.goto w.received hover.symm (by simp) (fun _ => hserving)
      (fun hg => absurd hg (by simp [World.gone, hw])) fun l hl => ?_
    rw [hw] at hl
    simpa [WorkerPc.results, ht] using hl
  have hcalled : World.main { w with worker := .destroying } = .closing caller phase .offered := hmain
  refine hnext.closing hcalled (fun _ => rfl) fun hp _ => ?_
  subst hp
  have hfalse := h.sent (by rw [hmain]; rfl)
  rw [hserving] at hfalse
  cases hfalse

/-- A `Receiver` is left until the worker has called `destroy`. -/
theorem Sound.connected (h : Sound w) (ho : w.worker.over = false) :
    (w.holds .object || w.holds .hook) = true := by
  cases hobject : w.holds .object with
  | true => rfl
  | false =>
    have hclosed := h.dropped .object hobject
    cases hmain : w.main with
    | idle =>
      rw [h.idle hmain hclosed] at ho
      cases ho
    | closing caller phase send =>
      have hheld := (h.calling caller phase send hmain).1
      cases hc : caller.holder with
      | object =>
        rw [hc, hobject] at hheld
        cases hheld
      | hook =>
        rw [hc] at hheld
        exact hheld

theorem Sound.workerStep (h : Sound w) (hs : w.workerStep = some w') : Sound w' := by
  simp only [World.workerStep] at hs
  cases hw : w.worker with
  | receiving | stopped =>
    rw [hw] at hs
    cases hs
  | received r =>
    simp only [hw] at hs
    have hserving : w.worker.serving = true := by rw [hw]; rfl
    have hover : w.worker.over = false := by rw [hw]; rfl
    split at hs
    · rename_i ht
      split at hs
      · rename_i main htake
        cases hs
        exact h.taken hw ht htake
      · rw [if_pos (h.connected hover)] at hs
        cases hs
        refine h.goto w.received hover.symm (by simp) (fun _ => hserving)
          (fun hg => absurd hg (by simp [World.gone, hw])) fun l hl => ?_
        rw [hw] at hl
        simpa [WorkerPc.results, ht] using hl
    · rename_i ht
      cases hs
      have hresults : (resultOf (.recv r)).toList = w.worker.results := by
        simp [resultOf, hw, WorkerPc.results, ht]
      cases hf : fatal r with
      | true => exact h.call hover rfl (by simp) (fun _ => hserving) rfl hresults rfl
      | false => exact h.call hover rfl (by simp) (fun _ => hserving) rfl hresults rfl
  | cleaning =>
    simp only [hw] at hs
    cases hs
    exact h.call (by rw [hw]; rfl) rfl (by simp) (fun _ => by rw [hw]; rfl) rfl (by rw [hw]; rfl) rfl
  | destroying =>
    simp only [hw] at hs
    cases hs
    exact h.call (by rw [hw]; rfl) rfl (by simp) (by simp [WorkerPc.serving]) rfl (by rw [hw]; rfl) rfl
  | leaving =>
    simp only [hw] at hs
    cases hs
    refine h.goto w.received (by rw [hw]; rfl) (by simp) (by simp [WorkerPc.serving]) (fun _ => rfl)
      fun l hl => ?_
    rw [hw] at hl
    exact hl
  | abandoning => exact absurd hw h.kept

theorem Sound.mainStep (h : Sound w) (hs : w.mainStep = some w') : Sound w' := by
  simp only [World.mainStep] at hs
  cases hm : w.main with
  | idle =>
    rw [hm] at hs
    cases hs
  | closing caller phase send =>
    have hafter : w.gone = true → w.worker.serving = false := fun hg => (serving_of_gone hg).1
    have hbefore : phase = .wait → w.worker.serving = false := by
      rintro rfl
      exact h.sent (by rw [hm]; rfl)
    simp only [hm] at hs
    cases send with
    | entering =>
      cases hs
      refine h.closing hm (fun hs => ?_) fun _ hr => ?_
      · cases hg : w.gone with
        | true => exact hafter hg
        | false =>
          cases phase with
          | signal =>
            rw [hg, if_neg Bool.false_ne_true] at hs
            cases hs
          | wait => exact hbefore rfl
      · by_contra hg
        rw [if_neg hg] at hr
        cases hr
    | offered =>
      simp only at hs
      split at hs
      · rename_i hg
        cases hs
        exact h.closing hm (fun _ => hafter hg) fun _ _ => hg
      · cases hs
    | returned =>
      cases phase with
      | signal =>
        cases hs
        exact h.closing hm (fun _ => h.sent (by rw [hm]; rfl)) (by rintro _ ⟨⟩)
      | wait =>
        cases hs
        exact h.closeReturned (h.calling caller .wait .returned hm).2 (serving_of_gone (h.waited caller hm)).2 caller

theorem Sound.step (h : Sound w) {a : Action M} (hs : w.step a = some w') : Sound w' := by
  cases a with
  | received r =>
    simp only [World.step] at hs
    cases hw : w.worker with
    | receiving =>
      simp only [hw] at hs
      cases hs
      refine h.goto _ (by rw [hw]; rfl) (by simp) (fun _ => by rw [hw]; rfl)
        (fun hg => absurd hg (by simp [World.gone, hw])) fun l hl => ?_
      rw [hw] at hl
      rw [← hl]
      simp [WorkerPc.results]
    | received | cleaning | destroying | leaving | abandoning | stopped =>
      simp only [hw] at hs
      cases hs
  | worker => exact h.workerStep hs
  | main => exact h.mainStep hs
  | recv timeout now =>
    simp only [World.step] at hs
    split at hs
    · obtain ⟨node, hnode, rfl⟩ := Option.map_eq_some_iff.mp hs
      have hclosed := recv_closed hnode
      refine ⟨h.acted hnode, fun c p s hc => ?_, fun holder hd => hclosed.trans (h.dropped holder hd),
        fun hm hc => h.idle hm (hclosed.symm.trans hc), h.sent, h.waited, h.kept, ?_, ?_, h.released⟩
      · exact ⟨(h.calling c p s hc).1, hclosed.trans (h.calling c p s hc).2⟩
      · have hposted := posted_act w (a := .recv timeout now) (by simp) node w.main
        rw [hposted]
        exact h.closes
      · have hposted := posted_act w (a := .recv timeout now) (by simp) node w.main
        rw [hposted]
        exact h.results
    · cases hs
  | close =>
    simp only [World.step] at hs
    split at hs
    · rename_i hok
      cases hs
      exact h.closeCall (main_of_idle (Bool.and_eq_true_iff.mp hok).1) (Bool.and_eq_true_iff.mp hok).2
    · cases hs
  | drop holder =>
    simp only [World.step] at hs
    split at hs
    · rename_i hok
      cases hs
      exact h.closeCall (main_of_idle (Bool.and_eq_true_iff.mp hok).1) (Bool.and_eq_true_iff.mp hok).2
    · cases hs
  | callback now =>
    simp only [World.step] at hs
    cases hqueue : w.queue with
    | nil =>
      rw [hqueue] at hs
      cases hs
    | cons action queue =>
      simp only [hqueue] at hs
      split at hs
      · rename_i hm
        cases hs
        exact h.callback hqueue (main_of_idle hm) now
      · cases hs

theorem run_sound {actions : List (Action M)} (h : run World.step World.boot actions = some w) : Sound w :=
  run_invariant (fun _ w => Sound w) boot_sound (fun _ _ _ _ _ hs hstep => hs.step hstep) actions w h

end Ipmb.NodeWorker
