import Ipmb.Attachments
import Ipmb.JoinLoop
import Ipmb.PlainHost
import Mathlib.Data.BitVec

namespace Ipmb.SendLoop

open Function Messages Buffers Encoding Attachments Reference Relay Linux PlainHost
open JoinLoop (JoinError)

/-- What `send` looks at in the rule of the endpoint. -/
inductive Rule where
  | client (remote : RawFd) (epoch : BitVec 32)
  | server
deriving DecidableEq

/-- Who has accepted a message. -/
inductive Transport where
  | socket (remote : RawFd)
  | bus
deriving DecidableEq

/-- An atomic addition to the reference count of a memory object. -/
abbrev CountOp := Nat × BitVec 32

/-- A turn of the loop: the rule under the read lock, the world around `sendmsg`, the rule
under the write lock, which others may have replaced, what `Rule::join` returns if it is
called, and whether the channel to the controller is still open. -/
structure Turn (W : Type) where
  rule : Rule
  world : W
  later : Rule
  join : Except JoinError Rule
  busOpen : Bool

inductive Outcome where
  | ok
  | err (e : JoinError)
  | panicked
deriving DecidableEq

/-- What the call has done to the reference counts, who has accepted the message, and what
the call has come to. -/
structure State where
  ops : List CountOp
  accepted : List Transport
  outcome : Option Outcome
deriving DecidableEq

variable {W : Type} (host : Host W) (file : RawFd → Nat) (msg : EncodedMessage)

/-- `ref_count_inner` for each region of the message. -/
def refCountInner (val : BitVec 32) : List CountOp :=
  msg.memoryRegions.map fun r => (file r.obj, val)

/-- `EncodedMessage::send`, with what it does to the reference counts. -/
def attempt (w : W) (remote : RawFd) : Except (Error RawFd) Unit × List CountOp :=
  match (Linux.send host w msg remote).1 with
  | .ok _ => (.ok (), refCountInner file msg 1)
  | .error e => (.error e, refCountInner file msg 1 ++ refCountInner file msg (-1))

/-- The message is dropped, and its regions are. -/
def dropMessage : List CountOp := refCountInner file msg (-1)

/-- One turn of the loop in `EndpointSender::send`. -/
def iterate (t : Turn W) (s : State) : State :=
  match s.outcome with
  | some _ => s
  | none =>
    match t.rule with
    | .server =>
      if t.busOpen then { s with accepted := s.accepted ++ [.bus], outcome := some .ok }
      else { s with ops := s.ops ++ dropMessage file msg, outcome := some .panicked }
    | .client remote epoch =>
      let sent := attempt host file msg t.world remote
      let ops := s.ops ++ sent.2
      match sent.1 with
      | .ok _ =>
        ⟨ops ++ dropMessage file msg, s.accepted ++ [.socket remote], some .ok⟩
      | .error .disconnect =>
        match t.later with
        | .server => { s with ops := ops }
        | .client _ epoch₁ =>
          if epoch = epoch₁ then
            match t.join with
            | .ok _ => { s with ops := ops }
            | .error e => { s with ops := ops ++ dropMessage file msg, outcome := some (.err e) }
          else { s with ops := ops }
      | .error _ => { s with ops := ops ++ dropMessage file msg, outcome := some .panicked }

/-- `EndpointSender::send` after `n` turns. -/
def progress (turns : Nat → Turn W) : Nat → State
  | 0 => ⟨[], [], none⟩
  | n + 1 => iterate host file msg (turns n) (progress turns n)

/-- What some additions do to a count. -/
def net (f : Nat) (ops : List CountOp) : BitVec 32 :=
  ((ops.filter fun op => op.1 = f).map Prod.snd).sum

/-- The counts after some additions, one after the other. -/
def apply (counts : Nat → BitVec 32) (ops : List CountOp) : Nat → BitVec 32 :=
  ops.foldl (fun counts op => update counts op.1 (counts op.1 + op.2)) counts

/-- How often the message holds a memory object. -/
def handles (f : Nat) : BitVec 32 := ((msg.memoryRegions.map fun r => file r.obj).count f : Nat)

section Net

@[simp] theorem net_nil (f : Nat) : net f [] = 0 := rfl

@[simp] theorem net_append (f : Nat) (ops ops' : List CountOp) :
    net f (ops ++ ops') = net f ops + net f ops' := by
  simp [net]

theorem net_cons (f : Nat) (op : CountOp) (ops : List CountOp) :
    net f (op :: ops) = (if op.1 = f then op.2 else 0) + net f ops := by
  rw [net, List.filter_cons]
  by_cases hf : op.1 = f <;> simp [hf, net]

theorem net_refCountInner (val : BitVec 32) (f : Nat) :
    net f (refCountInner file msg val) = handles file msg f * val := by
  rw [refCountInner, handles]
  induction msg.memoryRegions with
  | nil => simp
  | cons r regions ih =>
    rw [List.map_cons, net_cons, ih, List.map_cons, List.count_cons]
    by_cases hf : file r.obj = f
    · simp only [hf, if_true, beq_self_eq_true, Nat.cast_add, Nat.cast_one]
      ring
    · simp [hf]

theorem net_up (f : Nat) : net f (refCountInner file msg 1) = handles file msg f := by
  rw [net_refCountInner, mul_one]

theorem net_down (f : Nat) : net f (refCountInner file msg (-1)) = -handles file msg f := by
  rw [net_refCountInner, mul_neg_one]

end Net

section Loop

variable {host file msg}

/-- The regions that the call has given up so far. -/
def State.given (s : State) (file : RawFd → Nat) (msg : EncodedMessage) (f : Nat) : BitVec 32 :=
  if s.outcome.isSome then handles file msg f else 0

/-- What has been accepted is counted, and no failed attempt is. -/
structure Exact (file : RawFd → Nat) (msg : EncodedMessage) (s : State) : Prop where
  accepted : s.accepted.length = if s.outcome = some .ok then 1 else 0
  counts : ∀ f, net f s.ops = s.accepted.length * handles file msg f - s.given file msg f

theorem attempt_cases (host : Host W) (file : RawFd → Nat) (msg : EncodedMessage) (w : W) (remote : RawFd) :
    attempt host file msg w remote = (.ok (), refCountInner file msg 1) ∨
      attempt host file msg w remote =
        (.error .disconnect, refCountInner file msg 1 ++ refCountInner file msg (-1)) := by
  rw [attempt, Linux.send]
  obtain ⟨_ | e, w'⟩ := host.sendmsg w remote msg.iovData msg.controlData
  · exact .inl rfl
  · exact .inr rfl

/-- Everything a turn can do to a call that has not returned. -/
inductive Turned (host : Host W) (file : RawFd → Nat) (msg : EncodedMessage) (t : Turn W) (s : State) :
    State → Prop
  | bus (hr : t.rule = .server) : Turned host file msg t s ⟨s.ops, s.accepted ++ [.bus], some .ok⟩
  | closed (hr : t.rule = .server) (hb : t.busOpen = false) :
    Turned host file msg t s ⟨s.ops ++ dropMessage file msg, s.accepted, some .panicked⟩
  | sent {remote : RawFd} {epoch : BitVec 32} (hr : t.rule = .client remote epoch)
    (hs : (Linux.send host t.world msg remote).1 = .ok ()) :
    Turned host file msg t s ⟨s.ops ++ refCountInner file msg 1 ++ dropMessage file msg,
      s.accepted ++ [.socket remote], some .ok⟩
  | again {remote : RawFd} {epoch : BitVec 32} (hr : t.rule = .client remote epoch)
    (hs : (Linux.send host t.world msg remote).1 = .error .disconnect)
    (hleft : (∃ rule, t.join = .ok rule) ∨ ∀ remote', t.later ≠ .client remote' epoch) :
    Turned host file msg t s
      ⟨s.ops ++ (refCountInner file msg 1 ++ refCountInner file msg (-1)), s.accepted, none⟩
  | failed {remote remote' : RawFd} {epoch : BitVec 32} {e : JoinError}
    (hr : t.rule = .client remote epoch)
    (hs : (Linux.send host t.world msg remote).1 = .error .disconnect)
    (hl : t.later = .client remote' epoch) (hj : t.join = .error e) :
    Turned host file msg t s
      ⟨s.ops ++ (refCountInner file msg 1 ++ refCountInner file msg (-1)) ++ dropMessage file msg,
        s.accepted, some (.err e)⟩

theorem iterate_turned (t : Turn W) {s : State} (hs : s.outcome = none) :
    Turned host file msg t s (iterate host file msg t s) := by
  obtain ⟨ops, accepted, outcome⟩ := s
  obtain rfl : outcome = none := hs
  cases hr : t.rule with
  | server =>
    cases hb : t.busOpen with
    | true =>
      simp only [iterate, hr, hb, if_true]
      exact .bus hr
    | false =>
      simp only [iterate, hr, hb, Bool.false_eq_true, if_false]
      exact .closed hr hb
  | client remote epoch =>
    have hsend : (attempt host file msg t.world remote).1 = (Linux.send host t.world msg remote).1 := by
      rw [attempt]
      split <;> rename_i h <;> rw [h]
    obtain ha | ha := attempt_cases host file msg t.world remote
    · rw [ha] at hsend
      simp only [iterate, hr, ha]
      exact .sent hr hsend.symm
    · rw [ha] at hsend
      simp only [iterate, hr, ha]
      cases hl : t.later with
      | server => exact .again hr hsend.symm (.inr (by simp [hl]))
      | client remote' epoch' =>
        simp only
        split
        · rename_i he
          subst he
          cases hj : t.join with
          | ok rule => exact .again hr hsend.symm (.inl ⟨rule, hj⟩)
          | error e => exact .failed hr hsend.symm hl hj
        · rename_i he
          refine .again hr hsend.symm (.inr fun remote'' h => he ?_)
          rw [hl] at h
          cases h
          rfl

theorem Exact.turned {t : Turn W} {s s' : State} (h : Exact file msg s) (hs : s.outcome = none)
    (ht : Turned host file msg t s s') : Exact file msg s' := by
  have haccepted := h.accepted
  have hcounts := h.counts
  rw [hs, if_neg (by simp)] at haccepted
  simp only [State.given, hs, Option.isSome_none, Bool.false_eq_true, if_false] at hcounts
  simp only [haccepted, Nat.cast_zero, zero_mul, sub_zero] at hcounts
  refine ⟨by cases ht <;> simp [haccepted], fun f => ?_⟩
  cases ht with
  | bus hr =>
    simp only [State.given, haccepted, hcounts, List.length_append, List.length_singleton,
      Option.isSome_some, if_true]
    ring
  | closed hr hb =>
    simp only [State.given, haccepted, hcounts, net_append, dropMessage, net_down,
      Option.isSome_some, if_true]
    ring
  | sent hr hsend =>
    simp only [State.given, haccepted, hcounts, net_append, dropMessage, net_up, net_down,
      List.length_append, List.length_singleton, Option.isSome_some, if_true]
    ring
  | again hr hsend hleft =>
    simp only [State.given, haccepted, hcounts, net_append, net_up, net_down,
      Option.isSome_none, Bool.false_eq_true, if_false]
    ring
  | failed hr hsend hl hj =>
    simp only [State.given, haccepted, hcounts, net_append, dropMessage, net_up, net_down,
      Option.isSome_some, if_true]
    ring

end Loop

/-- A message with a memory region. -/
def parcel : EncodedMessage :=
  intoEncoded plainCodec ⟨0, 8, 5⟩ (counted ⟨plainSelector 0, [1, 2, 3], [], [⟨5, 100⟩]⟩) zeroHeap

/-- The controller behind remote 7 has hung up; the one behind remote 8 has not. -/
def rejoining : Nat → Turn (List RawFd)
  | 0 => ⟨.client 7 0, [7], .client 7 0, .ok (.client 8 1), true⟩
  | _ => ⟨.client 8 1, [7], .client 8 1, .ok .server, true⟩

end Ipmb.SendLoop
