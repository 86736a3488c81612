import Ipmb.Locks

namespace Ipmb.EndpointRule

open Function Locks

/-- `Rule::Client`. The connection, with its remote and its hub, is the one that the
initial join or the given successful rejoin has made; `ioHub` says whether the hub is
still there. -/
structure Client where
  connection : Nat
  ioHub : Bool
  readerClosed : Bool
  epoch : BitVec 32
deriving DecidableEq

/-- `receiver` says whether the receiving half of the local channel is still there. -/
inductive Rule where
  | client (c : Client)
  | server (receiver : Bool)
deriving DecidableEq

def Rule.readerClose : Rule → Rule
  | .client c => .client { c with ioHub := false, readerClosed := true }
  | .server _ => .server false

def Rule.connection : Rule → Option Nat
  | .client c => some c.connection
  | .server _ => none

def Rule.readerOpen : Rule → Bool
  | .client c => !c.readerClosed
  | .server receiver => receiver

inductive Joined where
  | client
  | server
  | err

/-- `Rule::join`, `none` when it fails. -/
def Rule.join (j : Joined) (connection : Nat) (epoch : BitVec 32) : Option Rule :=
  match j with
  | .client => some (.client ⟨connection, true, false, epoch⟩)
  | .server => some (.server true)
  | .err => none

/-- The threads that send through a clone of the sender, and the one that receives. -/
inductive Half (T : Type) where
  | sender (t : T)
  | receiver
deriving DecidableEq

/-- The epoch that a thread has copied, and the connection it has seen it with. -/
structure Observation where
  epoch : BitVec 32
  connection : Nat
deriving DecidableEq

/-- Where a thread is in `send` or `recv`. -/
inductive Pc where
  | idle
  | looping
  | reading
  | observed (o : Observation)
  | released (o : Observation)
  | writing (o : Observation)
  | joining (o : Observation) (readerClosed : Bool)
  | dropped
deriving DecidableEq

def Pc.mode : Pc → Mode
  | .reading | .observed _ => .shared
  | .writing _ | .joining _ _ => .exclusive
  | _ => .out

def Pc.observation : Pc → Option Observation
  | .observed o | .released o | .writing o | .joining o _ => some o
  | _ => none

/-- What a thread finds the connection to be good for while it reads the rule: the call
returns, it tries again, the connection is lost, or there is no hub. -/
inductive Outcome where
  | done
  | again
  | disconnect
  | missing

inductive Action where
  | call
  | readLock
  | attempt (o : Outcome)
  | release
  | writeLock
  | check
  | join (j : Joined)
  | drop

/-- `replaced` lists the connections on whose loss a rejoin has succeeded. -/
structure State (T : Type) where
  rule : Rule
  lock : RwLock (Half T)
  pc : Half T → Pc
  replaced : List Nat

variable {T : Type}

/-- The first `match` of `send` and of `recv`; `none` where that cannot happen, or panics. -/
def attempt (rule : Rule) (h : Half T) (o : Outcome) : Option Pc :=
  match h, rule with
  | .sender _, .client c =>
    match o with
    | .done => some .idle
    | .disconnect => some (.observed ⟨c.epoch, c.connection⟩)
    | _ => none
  | .sender _, .server _ =>
    match o with
    | .done => some .idle
    | _ => none
  | .receiver, .client c =>
    if !c.readerClosed && !c.ioHub then
      match o with
      | .missing => some (.observed ⟨c.epoch, c.connection⟩)
      | _ => none
    else if c.ioHub then
      match o with
      | .done => some .idle
      | .again => some .looping
      | .disconnect => some (.observed ⟨c.epoch, c.connection⟩)
      | .missing => none
    else none
  | .receiver, .server receiver =>
    match receiver, o with
    | true, .done => some .idle
    | true, .again => some .looping
    | _, _ => none

variable [DecidableEq T]

def State.go (s : State T) (h : Half T) (pc : Pc) (lock : RwLock (Half T)) : State T :=
  { s with lock := lock, pc := update s.pc h pc }

/-- The epoch is compared under the write lock: `send` and both places in `recv` do the same. -/
def State.check (s : State T) (h : Half T) (o : Observation) : State T :=
  match s.rule with
  | .client c =>
    if o.epoch = c.epoch then
      { s.go h (.joining o c.readerClosed) s.lock with rule := .client { c with ioHub := false } }
    else s.go h .looping s.lock.unlockWrite
  | .server _ => s.go h .looping s.lock.unlockWrite

def State.rejoin (s : State T) (h : Half T) (o : Observation) (readerClosed : Bool) (j : Joined) :
    State T :=
  match Rule.join j (s.replaced.length + 1) (o.epoch + 1) with
  | some rule =>
    { s.go h .looping s.lock.unlockWrite with
      rule := if readerClosed then rule.readerClose else rule
      replaced := s.replaced ++ [o.connection] }
  | none => s.go h .idle s.lock.unlockWrite

/-- One step of one thread; `none` where it cannot make that step. -/
def step (s : State T) (i : Half T × Action) : Option (State T) :=
  match s.pc i.1, i.2 with
  | .idle, .call => some (s.go i.1 .looping s.lock)
  | .looping, .readLock => (s.lock.read i.1).map (s.go i.1 .reading)
  | .reading, .attempt o =>
    (attempt s.rule i.1 o).map fun pc =>
      s.go i.1 pc (if pc.mode = .shared then s.lock else s.lock.unlockRead i.1)
  | .observed o, .release => some (s.go i.1 (.released o) (s.lock.unlockRead i.1))
  | .released o, .writeLock => (s.lock.write i.1).map (s.go i.1 (.writing o))
  | .writing o, .check => some (s.check i.1 o)
  | .joining o readerClosed, .join j => some (s.rejoin i.1 o readerClosed j)
  | .idle, .drop =>
    if i.1 = .receiver ∧ s.lock.isFree then
      some { s.go i.1 .dropped s.lock with rule := s.rule.readerClose }
    else none
  | _, _ => none

/-- `join`, and the two halves it returns. -/
def join (T : Type) (j : Joined) : Option (State T) :=
  (Rule.join j 0 0).map fun rule => ⟨rule, free, fun _ => .idle, []⟩

end Ipmb.EndpointRule
