import Ipmb.Run
import Ipmb.Time
import Mathlib.Data.List.Perm.Basic
import Mathlib.Data.List.Range

namespace Ipmb.NodeReceiver

open Time Run

variable {M E : Type}

/-- Why a promise is rejected that gets no result: an error of the status `GenericFailure`. -/
inductive Reason where
  | timeout
  | closed
deriving DecidableEq

def Reason.text : Reason → String
  | .timeout => "timeout"
  | .closed => "closed"

/-- How a promise was settled: by a result, which is a message or an error, or without one. -/
inductive Settlement (M E : Type) where
  | resolved (message : M)
  | rejected (err : E)
  | failed (reason : Reason)

/-- A promise by its number, and its deadline. -/
abbrev Deferred := Nat × Option Instant

structure LocalBuffer (M E : Type) where
  closed : Bool
  messages : List (Except E M)
  deferredList : List Deferred

def LocalBuffer.default : LocalBuffer M E := ⟨false, [], []⟩

inductive DelegateAction (M E : Type) where
  | cleanTimeout
  | close
  | recv (r : Except E M)

/-- The buffer, the number of promises that were created, and how promises were settled. -/
structure State (M E : Type) where
  localBuffer : LocalBuffer M E
  created : Nat
  settled : List (Nat × Settlement M E)

def start : State M E := ⟨.default, 0, []⟩

/-- `consume_deferred` -/
def consumeDeferred (deferred : Nat) : Except E M → Nat × Settlement M E
  | .ok message => (deferred, .resolved message)
  | .error err => (deferred, .rejected err)

def ofMillis (t : UInt32) : Duration := .ofNanos (t.toNat * 1000000)

/-- The deadline of a promise; `none` is the panic on overflow. -/
def deadline (now : Instant) : Option UInt32 → Option (Option Instant)
  | none => some none
  | some t => (now.add (ofMillis t)).map some

/-- `Receiver::recv`, which returns the promise. -/
def recv (s : State M E) (timeout : Option UInt32) (now : Instant) :
    Option (State M E × Except String Nat) :=
  if s.localBuffer.closed then some (s, .error Reason.closed.text)
  else
    match s.localBuffer.messages with
    | r :: messages => some (⟨{ s.localBuffer with messages := messages }, s.created + 1,
        s.settled ++ [consumeDeferred s.created r]⟩, .ok s.created)
    | [] => (deadline now timeout).map fun deadline =>
        (⟨{ s.localBuffer with deferredList := s.localBuffer.deferredList ++ [(s.created, deadline)] },
          s.created + 1, s.settled⟩, .ok s.created)

/-- The loop of `clean_timeout` from the index `i` on, for a number of passes: the list it
leaves, and the promises it rejects. -/
def cleanLoop (now : Instant) : Nat → Nat → List Deferred → List Deferred × List Nat
  | 0, _, deferredList => (deferredList, [])
  | passes + 1, i, deferredList =>
    match deferredList[i]? with
    | none => (deferredList, [])
    | some (_, none) => cleanLoop now passes (i + 1) deferredList
    | some (deferred, some deadline) =>
      if deadline < now then
        let rest := cleanLoop now passes i (deferredList.eraseIdx i)
        (rest.1, deferred :: rest.2)
      else cleanLoop now passes (i + 1) deferredList

/-- `LocalBuffer::clean_timeout`; as many passes as there are promises are enough. -/
def cleanTimeout (s : State M E) (now : Instant) : State M E :=
  if s.localBuffer.deferredList.isEmpty then s
  else
    let cleaned := cleanLoop now s.localBuffer.deferredList.length 0 s.localBuffer.deferredList
    ⟨{ s.localBuffer with deferredList := cleaned.1 }, s.created,
      s.settled ++ cleaned.2.map fun deferred => (deferred, .failed .timeout)⟩

/-- `LocalBuffer::close` -/
def closeBuffer (s : State M E) : State M E :=
  ⟨{ s.localBuffer with closed := true, deferredList := [] }, s.created,
    s.settled ++ s.localBuffer.deferredList.map fun d => (d.1, .failed .closed)⟩

def delegateReceiver (s : State M E) (now : Instant) : DelegateAction M E → State M E
  | .close => closeBuffer s
  | .cleanTimeout => cleanTimeout s now
  | .recv r =>
    match s.localBuffer.deferredList with
    | [] => { s with localBuffer := { s.localBuffer with messages := s.localBuffer.messages ++ [r] } }
    | (deferred, _) :: rest => ⟨{ s.localBuffer with deferredList := rest }, s.created,
        s.settled ++ [consumeDeferred deferred r]⟩

/-- `Receiver::close`, which only raises the flag. -/
def close (s : State M E) : State M E := { s with localBuffer := { s.localBuffer with closed := true } }

/-- What the two threads do, with the clock at that moment. -/
inductive Action (M E : Type) where
  | recv (timeout : Option UInt32) (now : Instant)
  | close
  | delegate (action : DelegateAction M E) (now : Instant)

def step (s : State M E) : Action M E → Option (State M E)
  | .recv timeout now => (recv s timeout now).map Prod.fst
  | .close => some (close s)
  | .delegate action now => some (delegateReceiver s now action)

section Cleaning

/-- The deadline has passed. -/
def expired (now : Instant) (d : Deferred) : Bool := d.2.any (· < now)

/-- What is in front of the index is kept, and what is behind it is sorted out. -/
theorem cleanLoop_eq (now : Instant) (kept rest : List Deferred) {passes : Nat}
    (h : rest.length ≤ passes) : cleanLoop now passes kept.length (kept ++ rest) =
      (kept ++ rest.filter (!expired now ·), (rest.filter (expired now)).map Prod.fst) := by
  induction rest generalizing kept passes with
  | nil =>
    cases passes with
    | zero => simp [cleanLoop]
    | succ passes => simp [cleanLoop]
  | cons d rest ih =>
    obtain _ | passes := passes
    · simp at h
    have hlen : rest.length ≤ passes := by simpa using h
    have hget : (kept ++ d :: rest)[kept.length]? = some d := by simp
    have hkeep := ih (kept ++ [d]) hlen
    rw [List.length_append, List.length_singleton, List.append_assoc, List.singleton_append] at hkeep
    obtain ⟨deferred, _ | deadline⟩ := d
    · simp only [cleanLoop, hget, hkeep]
      simp [expired]
    · by_cases hlt : deadline < now
      · have herase : (kept ++ (deferred, some deadline) :: rest).eraseIdx kept.length = kept ++ rest := by
          simp [List.eraseIdx_append_of_length_le]
        simp only [cleanLoop, hget, if_pos hlt, herase, ih kept hlen]
        simp [expired, hlt]
      · simp only [cleanLoop, hget, if_neg hlt, hkeep]
        simp [expired, hlt]

/-- Exactly the promises whose deadline has passed are rejected, and the others stay in order. -/
theorem cleanTimeout_eq (s : State M E) (now : Instant) :
    cleanTimeout s now =
      ⟨{ s.localBuffer with deferredList := s.localBuffer.deferredList.filter (!expired now ·) },
        s.created, s.settled ++ (s.localBuffer.deferredList.filter (expired now)).map
          fun d => (d.1, .failed .timeout)⟩ := by
  rw [cleanTimeout]
  split
  · rename_i hempty
    have hnil := List.isEmpty_iff.mp hempty
    obtain ⟨⟨closed, messages, deferredList⟩, created, settled⟩ := s
    cases hnil
    simp
  · have hloop := cleanLoop_eq now [] s.localBuffer.deferredList (Nat.le_refl _)
    rw [List.nil_append, List.length_nil, List.nil_append] at hloop
    simp only [hloop, List.map_map]
    rfl

end Cleaning

/-- All that an action can do. -/
inductive Moved (s : State M E) : Action M E → State M E → Prop
  | refused (timeout : Option UInt32) (now : Instant) (hclosed : s.localBuffer.closed = true) :
    Moved s (.recv timeout now) s
  | taken {r : Except E M} {messages : List (Except E M)} (timeout : Option UInt32) (now : Instant)
    (hopen : s.localBuffer.closed = false) (hmessages : s.localBuffer.messages = r :: messages) :
    Moved s (.recv timeout now) ⟨{ s.localBuffer with messages := messages }, s.created + 1,
      s.settled ++ [consumeDeferred s.created r]⟩
  | waits {timeout : Option UInt32} {now : Instant} {deadline : Option Instant}
    (hopen : s.localBuffer.closed = false) (hmessages : s.localBuffer.messages = [])
    (hdeadline : NodeReceiver.deadline now timeout = some deadline) :
    Moved s (.recv timeout now)
      ⟨{ s.localBuffer with deferredList := s.localBuffer.deferredList ++ [(s.created, deadline)] },
        s.created + 1, s.settled⟩
  | flagged : Moved s .close (close s)
  | closed (now : Instant) : Moved s (.delegate .close now) (closeBuffer s)
  | cleaned (now : Instant) : Moved s (.delegate .cleanTimeout now) (cleanTimeout s now)
  | stored (r : Except E M) (now : Instant) (hnone : s.localBuffer.deferredList = []) :
    Moved s (.delegate (.recv r) now)
      { s with localBuffer := { s.localBuffer with messages := s.localBuffer.messages ++ [r] } }
  | served {deferred : Nat} {deadline : Option Instant} {rest : List Deferred} (r : Except E M)
    (now : Instant) (hfirst : s.localBuffer.deferredList = (deferred, deadline) :: rest) :
    Moved s (.delegate (.recv r) now)
      ⟨{ s.localBuffer with deferredList := rest }, s.created, s.settled ++ [consumeDeferred deferred r]⟩

theorem step_moved {s s' : State M E} {a : Action M E} (h : step s a = some s') : Moved s a s' := by
  cases a with
  | recv timeout now =>
    rw [step, recv] at h
    cases hclosed : s.localBuffer.closed with
    | true =>
      rw [hclosed] at h
      cases h
      exact .refused timeout now hclosed
    | false =>
      rw [hclosed, if_neg Bool.false_ne_true] at h
      cases hmessages : s.localBuffer.messages with
      | cons r messages =>
        rw [hmessages] at h
        cases h
        exact .taken timeout now hclosed hmessages
      | nil =>
        rw [hmessages] at h
        simp only [Option.map_map] at h
        obtain ⟨deadline, hdeadline, rfl⟩ := Option.map_eq_some_iff.mp h
        exact .waits hclosed hmessages hdeadline
  | close =>
    cases h
    exact .flagged
  | delegate action now =>
    rw [step, Option.some.injEq] at h
    subst h
    cases action with
    | cleanTimeout => exact .cleaned now
    | close => exact .closed now
    | recv r =>
      rw [delegateReceiver]
      cases hlist : s.localBuffer.deferredList with
      | nil => exact .stored r now hlist
      | cons d rest => exact .served r now hlist

section Log

/-- The result that a promise was settled with. -/
def Settlement.result : Settlement M E → Option (Except E M)
  | .resolved message => some (.ok message)
  | .rejected err => some (.error err)
  | .failed _ => none

/-- Why a promise got no result. -/
def Settlement.reason : Settlement M E → Option Reason
  | .resolved _ => none
  | .rejected _ => none
  | .failed reason => some reason

/-- The promises that got a result, with that result. -/
def answered (settled : List (Nat × Settlement M E)) : List (Nat × Except E M) :=
  settled.filterMap fun x => x.2.result.map fun r => (x.1, r)

/-- The promises that were rejected for a reason. -/
def failed (reason : Reason) (settled : List (Nat × Settlement M E)) : List Nat :=
  settled.filterMap fun x => if x.2.reason = some reason then some x.1 else none

variable (settled : List (Nat × Settlement M E)) (n : Nat) (r : Except E M) (reason : Reason)
  (ds : List Deferred)

@[simp] theorem consumeDeferred_fst : (consumeDeferred (M := M) n r).1 = n := by
  cases r <;> rfl

@[simp] theorem answered_consume :
    answered (settled ++ [consumeDeferred n r]) = answered settled ++ [(n, r)] := by
  rw [answered, List.filterMap_append]
  cases r <;> rfl

@[simp] theorem failed_consume : failed reason (settled ++ [consumeDeferred n r]) = failed reason settled := by
  rw [failed, List.filterMap_append]
  cases r <;> simp [failed, consumeDeferred, Settlement.reason]

@[simp] theorem answered_fail :
    answered (settled ++ ds.map fun d => (d.1, .failed reason)) = answered settled := by
  simp [answered, Settlement.result, List.filterMap_map]

@[simp] theorem failed_fail : failed reason (settled ++ ds.map fun d => (d.1, .failed reason)) =
    failed reason settled ++ ds.map Prod.fst := by
  simp [failed, Settlement.reason, List.filterMap_map]

theorem failed_fail_of_ne {other : Reason} (h : other ≠ reason) :
    failed other (settled ++ ds.map fun d => (d.1, .failed reason)) = failed other settled := by
  simp [failed, Settlement.reason, List.filterMap_map, Ne.symm h]

/-- A promise was settled in one of three ways. -/
theorem settled_perm : (settled.map Prod.fst).Perm
    ((answered settled).map Prod.fst ++ (failed .closed settled ++ failed .timeout settled)) := by
  induction settled with
  | nil => exact .refl _
  | cons x settled ih =>
    obtain ⟨deferred, settlement⟩ := x
    cases settlement with
    | resolved message => exact ih.cons deferred
    | rejected err => exact ih.cons deferred
    | failed reason =>
      cases reason with
      | closed => exact (ih.cons deferred).trans List.perm_middle.symm
      | timeout =>
        refine (ih.cons deferred).trans ?_
        rw [← List.append_assoc]
        exact List.perm_middle.symm.trans (by rw [List.append_assoc]; exact .refl _)

end Log

/-- The results that were delegated, in order. -/
def delegated (as : List (Action M E)) : List (Except E M) :=
  as.filterMap fun a =>
    match a with
    | .delegate (.recv r) _ => some r
    | _ => none

def State.pending (s : State M E) : List Nat := s.localBuffer.deferredList.map Prod.fst

/-- The promises that did not time out, as long as they are in the order in which they were made. -/
def State.patient (s : State M E) : List Nat :=
  (answered s.settled).map Prod.fst ++ failed .closed s.settled ++ s.pending

/-- What holds after any actions. -/
structure Inv (as : List (Action M E)) (s : State M E) : Prop where
  apart : s.localBuffer.deferredList = [] ∨ s.localBuffer.messages = []
  once : (s.settled.map Prod.fst ++ s.pending).Perm (List.range s.created)
  served : (answered s.settled).map Prod.snd ++ s.localBuffer.messages = delegated as
  sorted : s.patient.Pairwise (· < ·)
  closing : failed .closed s.settled = [] ∨ s.localBuffer.closed = true ∧ s.localBuffer.deferredList = []

section Step

variable {as : List (Action M E)} {s s' : State M E} {a : Action M E}

theorem inv_start : Inv [] (start : State M E) := ⟨.inl rfl, .refl _, rfl, .nil, .inl rfl⟩

theorem Inv.lt (h : Inv as s) {n : Nat} (hn : n ∈ s.patient) : n < s.created := by
  apply List.mem_range.mp
  apply h.once.subset
  rw [List.mem_append, (settled_perm s.settled).mem_iff]
  rw [State.patient] at hn
  simp only [List.mem_append] at hn ⊢
  tauto

/-- Whether anything was delegated last. -/
theorem Inv.delegated_concat (h : Inv as s) (a : Action M E) :
    delegated (as ++ [a]) =
      (answered s.settled).map Prod.snd ++ s.localBuffer.messages ++ delegated [a] := by
  rw [h.served]
  exact List.filterMap_append

/-- A promise that is made last is patient longest. -/
theorem Inv.sorted_concat (h : Inv as s) : (s.patient ++ [s.created]).Pairwise (· < ·) := by
  refine List.pairwise_append.mpr ⟨h.sorted, List.pairwise_singleton _ _, fun n hn m hm => ?_⟩
  rw [List.mem_singleton.mp hm]
  exact h.lt hn

/-- The promises that have expired leave the list, and the others stay as patient as they were. -/
theorem Inv.cleanTimeout (h : Inv as s) (now : Instant) :
    Inv (as ++ [.delegate .cleanTimeout now]) (NodeReceiver.cleanTimeout s now) := by
  rw [cleanTimeout_eq]
  refine ⟨h.apart.imp_left fun hnone => ?_, ?_, ?_, ?_, ?_⟩
  · rw [hnone, List.filter_nil]
  · refine List.Perm.trans ?_ h.once
    rw [State.pending, State.pending, List.map_append, List.map_map, List.append_assoc]
    apply List.Perm.append_left
    have hperm := (List.filter_append_perm (expired now) s.localBuffer.deferredList).map Prod.fst
    rw [List.map_append] at hperm
    exact hperm
  · rw [h.delegated_concat]
    simp [delegated]
  · have hsub : (s.localBuffer.deferredList.filter (!expired now ·)).Sublist s.localBuffer.deferredList :=
      List.filter_sublist
    refine h.sorted.sublist ?_
    rw [State.patient, State.patient, answered_fail, failed_fail_of_ne _ _ _ (by decide)]
    exact (hsub.map Prod.fst).append_left _
  · rw [failed_fail_of_ne _ _ _ (by decide)]
    refine h.closing.imp_right fun hclosed => ⟨hclosed.1, ?_⟩
    rw [hclosed.2, List.filter_nil]

theorem Inv.step (h : Inv as s) (hm : Moved s a s') : Inv (as ++ [a]) s' := by
  cases hm with
  | refused timeout now hclosed =>
    refine ⟨h.apart, h.once, ?_, h.sorted, h.closing⟩
    rw [h.delegated_concat]
    exact (List.append_nil _).symm
  | @taken r messages timeout now hopen hmessages =>
    have hnone : s.localBuffer.deferredList = [] := h.apart.resolve_right (by simp [hmessages])
    have hfailed : failed .closed s.settled = [] := h.closing.resolve_right (by simp [hopen])
    refine ⟨.inl hnone, ?_, ?_, ?_, ?_⟩
    · have honce := h.once.append_right [s.created]
      rw [State.pending, hnone, List.map_nil, List.append_nil] at honce
      simpa [State.pending, hnone, List.range_succ] using honce
    · rw [h.delegated_concat, hmessages]
      simp [delegated]
    · have hsorted := h.sorted_concat
      simpa [State.patient, State.pending, hnone, hfailed] using hsorted
    · exact .inl (by simpa using hfailed)
  | @waits timeout now deadline hopen hmessages hdeadline =>
    have hfailed : failed .closed s.settled = [] := h.closing.resolve_right (by simp [hopen])
    refine ⟨.inr hmessages, ?_, ?_, ?_, .inl hfailed⟩
    · have honce := h.once.append_right [s.created]
      simpa [State.pending, List.range_succ] using honce
    · rw [h.delegated_concat]
      exact (List.append_nil _).symm
    · have hsorted := h.sorted_concat
      simpa [State.patient, State.pending] using hsorted
  | flagged =>
    refine ⟨h.apart, h.once, ?_, h.sorted, h.closing.imp_right fun hclosed => ⟨rfl, hclosed.2⟩⟩
    rw [h.delegated_concat]
    exact (List.append_nil _).symm
  | closed now =>
    refine ⟨.inl rfl, ?_, ?_, ?_, .inr ⟨rfl, rfl⟩⟩
    · have honce := h.once
      simpa [State.pending, closeBuffer, Function.comp_def] using honce
    · rw [h.delegated_concat]
      simp [closeBuffer, delegated]
    · have hsorted := h.sorted
      simpa [State.patient, State.pending, closeBuffer] using hsorted
  | cleaned now => exact h.cleanTimeout now
  | stored r now hnone =>
    refine ⟨.inl hnone, h.once, ?_, h.sorted, h.closing⟩
    rw [h.delegated_concat, List.append_assoc]
    rfl
  | @served deferred deadline rest r now hfirst =>
    have hmessages : s.localBuffer.messages = [] := h.apart.resolve_left (by simp [hfirst])
    have hfailed : failed .closed s.settled = [] := h.closing.resolve_right (by simp [hfirst])
    refine ⟨.inr hmessages, ?_, ?_, ?_, ?_⟩
    · have honce := h.once
      simpa [State.pending, hfirst] using honce
    · rw [h.delegated_concat, hmessages]
      simp [delegated]
    · have hsorted := h.sorted
      simpa [State.patient, State.pending, hfirst, hfailed] using hsorted
    · exact .inl (by simpa using hfailed)

theorem run_inv (h : run NodeReceiver.step start as = some s) : Inv as s :=
  run_invariant Inv inv_start (fun _ _ _ _ _ hinv hstep => hinv.step (step_moved hstep)) as s h

/-- The promises that did not time out, in the order in which they were made. -/
theorem Inv.patient_eq (h : Inv as s) :
    (List.range s.created).filter (· ∉ failed .timeout s.settled) = s.patient := by
  have hall : (List.range s.created).Perm (s.patient ++ failed .timeout s.settled) := by
    refine h.once.symm.trans (((settled_perm s.settled).append_right s.pending).trans ?_)
    simp only [State.patient, List.append_assoc]
    exact (List.perm_append_comm.append_left _).append_left _
  have hnodup : (s.patient ++ failed .timeout s.settled).Nodup := List.nodup_range.perm hall
  have hin : s.patient.filter (· ∉ failed .timeout s.settled) = s.patient := by
    refine List.filter_eq_self.mpr fun n hn => decide_eq_true fun hmem => ?_
    exact (List.nodup_append.mp hnodup).2.2 n hn n hmem rfl
  have hout : (failed .timeout s.settled).filter (· ∉ failed .timeout s.settled) = [] :=
    List.filter_eq_nil_iff.mpr fun n hn => by simpa using hn
  have hperm := hall.filter (· ∉ failed .timeout s.settled)
  rw [List.filter_append, hin, hout, List.append_nil] at hperm
  exact List.Perm.eq_of_pairwise (fun n m _ _ hlt hgt => absurd hgt (Nat.lt_asymm hlt))
    (List.pairwise_lt_range.filter _) h.sorted hperm

/-- Nothing is pending any more, and nothing will be. -/
def State.Quiet (s : State M E) : Prop := s.localBuffer.closed = true ∧ s.localBuffer.deferredList = []

theorem Moved.settled_grows (hm : Moved s a s') : s.settled <+: s'.settled := by
  cases hm with
  | refused | flagged | stored => exact List.prefix_refl _
  | waits => exact List.prefix_refl _
  | taken | closed | served => exact List.prefix_append _ _
  | cleaned now =>
    rw [cleanTimeout_eq]
    exact List.prefix_append _ _

theorem Moved.quiet (hm : Moved s a s') (h : s.Quiet) : s'.Quiet := by
  cases hm with
  | refused | stored => exact h
  | flagged => exact ⟨rfl, h.2⟩
  | closed => exact ⟨rfl, rfl⟩
  | taken timeout now hopen =>
    rw [h.1] at hopen
    cases hopen
  | waits hopen =>
    rw [h.1] at hopen
    cases hopen
  | cleaned now =>
    rw [cleanTimeout_eq]
    exact ⟨h.1, by rw [h.2, List.filter_nil]⟩
  | served r now hfirst =>
    rw [h.2] at hfirst
    cases hfirst

/-- What was pending when the buffer was closed is rejected, and nothing is pending afterwards. -/
theorem closed_run {before after : List (Action M E)} {now : Instant}
    (h : run NodeReceiver.step start (before ++ .delegate .close now :: after) = some s) :
    ∃ t, run NodeReceiver.step start before = some t ∧ s.pending = [] ∧
      ∀ n ∈ t.pending, (n, .failed .closed) ∈ s.settled := by
  obtain ⟨t, ht, hrest⟩ := run_prefix h
  rw [run_cons (t := closeBuffer t) rfl] at hrest
  have hend : s.Quiet ∧ (closeBuffer t).settled <+: s.settled :=
    run_invariant (fun _ u => u.Quiet ∧ (closeBuffer t).settled <+: u.settled)
      ⟨⟨rfl, rfl⟩, List.prefix_refl _⟩ (fun _ _ _ _ _ hu hstep =>
        ⟨(step_moved hstep).quiet hu.1, hu.2.trans (step_moved hstep).settled_grows⟩) after s hrest
  refine ⟨t, ht, by rw [State.pending, hend.1.2, List.map_nil], fun n hn => hend.2.subset ?_⟩
  obtain ⟨d, hd, rfl⟩ := List.mem_map.mp hn
  exact List.mem_append_right _ (List.mem_map_of_mem hd)

end Step

/-- What the queue is for, after some actions. A promise is settled once, if it is not pending,
and the n-th promise that does not time out gets the n-th result. -/
structure Served (as : List (Action M E)) (s : State M E) : Prop where
  apart : s.localBuffer.deferredList = [] ∨ s.localBuffer.messages = []
  once : (s.settled.map Prod.fst ++ s.pending).Nodup
  all : ∀ n, n ∈ s.settled.map Prod.fst ++ s.pending ↔ n < s.created
  closed : ∀ before now after, as = before ++ .delegate .close now :: after →
    ∃ t, run step start before = some t ∧ s.pending = [] ∧
      ∀ n ∈ t.pending, (n, .failed .closed) ∈ s.settled
  inTurn : (answered s.settled).map Prod.fst <+:
    (List.range s.created).filter (· ∉ failed .timeout s.settled)
  lossless : (answered s.settled).map Prod.snd ++ s.localBuffer.messages = delegated as
  cleaned : ∀ now, step s (.delegate .cleanTimeout now) =
    some ⟨{ s.localBuffer with deferredList := s.localBuffer.deferredList.filter (!expired now ·) },
      s.created, s.settled ++ (s.localBuffer.deferredList.filter (expired now)).map
        fun d => (d.1, .failed .timeout)⟩

theorem receiver_served {as : List (Action M E)} {s : State M E} (h : run step start as = some s) :
    Served as s := by
  have hinv := run_inv h
  refine ⟨hinv.apart, List.nodup_range.perm hinv.once.symm, fun n => ?_, ?_, ?_, hinv.served, fun now => ?_⟩
  · rw [hinv.once.mem_iff, List.mem_range]
  · rintro before now after rfl
    exact closed_run h
  · rw [hinv.patient_eq, State.patient, List.append_assoc]
    exact List.prefix_append _ _
  · rw [← cleanTimeout_eq]
    rfl

/-- One promise times out, two get results, and the last one is pending when the queue is closed. -/
def someActions : List (Action String Unit) :=
  [.recv (some 5) (.ofNanos 0), .recv none (.ofNanos 0), .delegate .cleanTimeout (.ofNanos 6000000),
    .delegate (.recv (.ok "first")) (.ofNanos 7000000), .delegate (.recv (.error ())) (.ofNanos 8000000),
    .recv none (.ofNanos 9000000), .recv none (.ofNanos 9000000), .close,
    .delegate .close (.ofNanos 10000000)]

theorem receiver_served_someActions :
    ∃ s, run step start someActions = some s ∧ Served someActions s :=
  ⟨_, rfl, receiver_served rfl⟩

end Ipmb.NodeReceiver
