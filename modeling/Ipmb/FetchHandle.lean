import Ipmb.HandleLedger

namespace Ipmb.FetchHandle

open Windows Custody Run
open HandleTables (Pid Object Entry closeAll currentProcess)
open Function (update)

/-- Why `fetch_remote_process_handle` fails. -/
inductive FetchError where
  | send
  | timeout
  | winError
deriving DecidableEq

/-- Where `fetch_remote_process_handle` is: before `send`, before `ConnectNamedPipe`, at the first
wait, before `ReadFile`, at the second wait, or about to drop the pipe and return an error. -/
inductive ClientPc where
  | sending
  | connecting
  | listening
  | opening
  | reading
  | leaving (e : FetchError)
  | done (r : Except FetchError Handle)
deriving DecidableEq

/-- Where `reply_current_process_handle` is: it has not begun, it has opened the client, it has
opened the pipe, it has a `RemoteHandle` to write, it is about to drop one, or it is over. -/
inductive ReplyPc where
  | waiting
  | opened
  | piped
  | duplicated (h : Handle)
  | unwinding (h : Handle)
  | ended
deriving DecidableEq

/-- One call of `fetch_remote_process_handle`, and its answer. `data` is in the pipe.
`written` and `early` are histories: what the server has written, and whether it had opened the pipe
before the client listened. -/
structure Fetch where
  server : Pid
  client : ClientPc
  reply : ReplyPc
  asked : Bool
  connected : Bool
  data : Option Handle
  written : Option Handle
  early : Bool

def Fetch.start (server : Pid) : Fetch := ⟨server, .sending, .waiting, false, false, none, none, false⟩

/-- The handle table of a process whose threads fetch handles of controllers. `lost` is open, with
nobody to close it. -/
structure World where
  table : Handle → Option Object
  owned : List Entry
  fetches : List Fetch
  lost : List Entry

def World.boot : World := ⟨fun _ => none, [], [], []⟩

/-- What the operating system says. -/
inductive Answer where
  | ok
  | timeout
  | error

inductive Action where
  /-- Other code of the process opens a handle. -/
  | create (h : Handle) (o : Object)
  | close (h : Handle)
  | begin (server : Pid)
  | client (i : Nat) (answer : Answer)
  /-- `h` is the handle that `DuplicateHandle` returns. -/
  | reply (i : Nat) (ok : Bool) (h : Handle)
  /-- The server dies while it answers. -/
  | die (i : Nat)

/-- `read_pipe` is dropped at the return. -/
def Fetch.listens (f : Fetch) : Bool :=
  match f.client with
  | .done _ => false
  | _ => true

/-- The server has dropped its end of the pipe. -/
def Fetch.hungUp (f : Fetch) : Bool := f.connected && f.reply == .ended

/-- A step of the client, and the handle that it gets. -/
def Fetch.clientStep (f : Fetch) (answer : Answer) : Option (Fetch × Option Handle) :=
  let goto (pc : ClientPc) : Option (Fetch × Option Handle) := some ({ f with client := pc }, none)
  match f.client, answer with
  | .sending, .ok => some ({ f with client := .connecting, asked := true }, none)
  | .sending, _ => goto (.leaving .send)
  | .connecting, .ok =>
    -- a pipe that has been opened already is an error as well
    if f.connected then goto (.leaving .winError) else goto .listening
  | .listening, .ok => if f.connected then goto .opening else none
  | .listening, .timeout => if f.connected then none else goto (.leaving .timeout)
  | .opening, .ok => if f.hungUp && f.data.isNone then goto (.leaving .winError) else goto .reading
  | .reading, .ok =>
    match f.data with
    | some h => some ({ f with client := .done (.ok h), data := none }, some h)
    | none =>
      -- nobody asks whether the read has succeeded
      if f.hungUp then goto (.done (.ok 0)) else none
  | .reading, .timeout => if f.data.isSome || f.hungUp then none else goto (.leaving .timeout)
  | .leaving e, _ => some ({ f with client := .done (.error e), data := none }, none)
  | .done _, _ => none
  | _, .error => goto (.leaving .winError)
  | _, .timeout => none

/-- What a call has opened in the client: it is guarded by the server, or in the pipe. -/
def Fetch.guarded (f : Fetch) : List Entry :=
  match f.reply with
  | .duplicated h | .unwinding h => [(h, .process f.server)]
  | _ => []

def Fetch.inPipe (f : Fetch) : List Entry := f.data.toList.map fun h => (h, .process f.server)

def Fetch.entries (f : Fetch) : List Entry := f.guarded ++ f.inPipe

/-- The client gives the pipe up. -/
def Fetch.leaves (f : Fetch) : Bool :=
  match f.client with
  | .leaving _ => true
  | _ => false

namespace World

variable (w : World)

/-- Who is responsible for the handles of the process. -/
def ledger : List Entry := w.owned ++ w.fetches.flatMap Fetch.entries ++ w.lost

def clientStep (i : Nat) (f : Fetch) (answer : Answer) : Option World :=
  (f.clientStep answer).map fun next =>
    { w with
      fetches := w.fetches.set i next.1
      owned := w.owned ++ next.2.toList.map fun h => (h, .process f.server)
      lost := w.lost ++ if f.leaves then f.inPipe else [] }

def replyStep (i : Nat) (f : Fetch) (ok : Bool) (h : Handle) : Option World :=
  let goto (pc : ReplyPc) : World := { w with fetches := w.fetches.set i { f with reply := pc } }
  match f.reply with
  | .waiting => if f.asked then some (goto (if ok then .opened else .ended)) else none
  | .opened =>
    if ok then
      if f.listens && !f.connected then
        some { w with
          fetches := w.fetches.set i
            { f with
              reply := .piped
              connected := true
              early := f.client == .sending || f.client == .connecting } }
      else none
    else some (goto .ended)
  | .piped =>
    if ok then
      if w.table h = none ∧ h ≠ currentProcess ∧ h ≠ 0 then
        some { w with
          table := update w.table h (some (.process f.server))
          fetches := w.fetches.set i { f with reply := .duplicated h } }
      else none
    else some (goto .ended)
  | .duplicated h =>
    if ok then
      if f.listens then
        some { w with
          fetches := w.fetches.set i { f with reply := .ended, data := some h, written := some h } }
      else none
    else some (goto (.unwinding h))
  | .unwinding h =>
    some { w with
      table := closeAll w.table [h]
      fetches := w.fetches.set i { f with reply := .ended } }
  | .ended => none

def step : Action → Option World
  | .create h o =>
    if w.table h = none ∧ h ≠ currentProcess ∧ h ≠ 0 then
      some { w with table := update w.table h (some o), owned := w.owned ++ [(h, o)] }
    else none
  | .close h =>
    (w.owned.find? fun e => e.1 == h).map fun e =>
      { w with table := closeAll w.table [h], owned := w.owned.erase e }
  | .begin server => some { w with fetches := w.fetches ++ [.start server] }
  | .client i answer => (w.fetches[i]?).bind fun f => w.clientStep i f answer
  | .reply i ok h => (w.fetches[i]?).bind fun f => w.replyStep i f ok h
  | .die i =>
    (w.fetches[i]?).map fun f =>
      { w with
        fetches := w.fetches.set i { f with reply := .ended }
        lost := w.lost ++ f.guarded }

end World

/-- All that the client can do. -/
inductive ClientMoved (f : Fetch) : Fetch → Option Handle → Prop
  | asked : f.client = .sending → ClientMoved f { f with client := .connecting, asked := true } none
  | listens : f.client = .connecting → f.connected = false →
    ClientMoved f { f with client := .listening } none
  | connected : f.client = .listening → f.connected = true → ClientMoved f { f with client := .opening } none
  | reads : f.client = .opening → ClientMoved f { f with client := .reading } none
  | fails {e} : f.listens = true → f.leaves = false → ClientMoved f { f with client := .leaving e } none
  | gets {h} : f.client = .reading → f.data = some h →
    ClientMoved f { f with client := .done (.ok h), data := none } (some h)
  | getsNothing : f.client = .reading → f.data = none → f.hungUp = true →
    ClientMoved f { f with client := .done (.ok 0) } none
  | leaves {e} : f.client = .leaving e → ClientMoved f { f with client := .done (.error e), data := none } none

theorem ClientMoved.failed {f f' : Fetch} {e : FetchError} {got : Option Handle} (hl : f.listens = true)
    (hn : f.leaves = false) (h : some (({ f with client := .leaving e } : Fetch), none) = some (f', got)) :
    ClientMoved f f' got := by
  cases h
  exact .fails hl hn

theorem client_moved {f f' : Fetch} {answer : Answer} {got : Option Handle}
    (h : f.clientStep answer = some (f', got)) : ClientMoved f f' got := by
  simp only [Fetch.clientStep] at h
  split at h
  · rename_i hc
    cases h
    exact .asked hc
  · rename_i hc _
    exact ClientMoved.failed (by simp [Fetch.listens, hc]) (by simp [Fetch.leaves, hc]) h
  · rename_i hc
    split at h
    · exact ClientMoved.failed (by simp [Fetch.listens, hc]) (by simp [Fetch.leaves, hc]) h
    · rename_i hunconnected
      cases h
      exact .listens hc (by simpa using hunconnected)
  · rename_i hc
    split at h
    · cases h
      exact .connected hc ‹_›
    · cases h
  · rename_i hc
    split at h
    · cases h
    · exact ClientMoved.failed (by simp [Fetch.listens, hc]) (by simp [Fetch.leaves, hc]) h
  · rename_i hc
    split at h
    · exact ClientMoved.failed (by simp [Fetch.listens, hc]) (by simp [Fetch.leaves, hc]) h
    · cases h
      exact .reads hc
  · rename_i hc
    split at h
    · cases h
      exact .gets hc ‹_›
    · split at h
      · cases h
        exact .getsNothing hc ‹_› ‹_›
      · cases h
  · rename_i hc
    split at h
    · cases h
    · exact ClientMoved.failed (by simp [Fetch.listens, hc]) (by simp [Fetch.leaves, hc]) h
  · rename_i hc
    cases h
    exact .leaves hc
  · cases h
  · rename_i _ hleaving hdone
    have hl : f.listens = true := by
      cases hc : f.client <;> simp [Fetch.listens, hc] at hdone ⊢
    have hn : f.leaves = false := by
      cases hc : f.client <;> simp [Fetch.leaves, hc] at hleaving ⊢
    exact ClientMoved.failed hl hn h
  · cases h

/-- All that the server can do, in the table of the client. -/
inductive ReplyMoved (table : Handle → Option Object) (f : Fetch) :
    (Handle → Option Object) → Fetch → Prop
  | opens : f.reply = .waiting → ReplyMoved table f table { f with reply := .opened }
  | fails : f.guarded = [] → f.reply ≠ .ended → ReplyMoved table f table { f with reply := .ended }
  | connects : f.reply = .opened → f.listens = true →
    ReplyMoved table f table
      { f with
        reply := .piped
        connected := true
        early := f.client == .sending || f.client == .connecting }
  | duplicates {h} : f.reply = .piped → table h = none → h ≠ currentProcess → h ≠ 0 →
    ReplyMoved table f (update table h (some (.process f.server))) { f with reply := .duplicated h }
  | writes {h} : f.reply = .duplicated h → f.listens = true →
    ReplyMoved table f table { f with reply := .ended, data := some h, written := some h }
  | unwinds {h} : f.reply = .duplicated h → ReplyMoved table f table { f with reply := .unwinding h }
  | closes {h} : f.reply = .unwinding h →
    ReplyMoved table f (closeAll table [h]) { f with reply := .ended }

theorem reply_moved {w w' : World} {i : Nat} {f : Fetch} {ok : Bool} {h : Handle}
    (hs : w.replyStep i f ok h = some w') :
    ∃ table f', ReplyMoved w.table f table f' ∧
      w' = { w with table := table, fetches := w.fetches.set i f' } := by
  simp only [World.replyStep] at hs
  cases hr : f.reply with
  | waiting =>
    simp only [hr] at hs
    split at hs
    · cases hs
      cases ok with
      | true => exact ⟨_, _, .opens hr, rfl⟩
      | false => exact ⟨_, _, .fails (by simp [Fetch.guarded, hr]) (by simp [hr]), rfl⟩
    · cases hs
  | opened =>
    simp only [hr] at hs
    cases ok with
    | true =>
      simp only [if_true] at hs
      split at hs
      · rename_i hopen
        cases hs
        exact ⟨_, _, .connects hr (Bool.and_eq_true_iff.mp hopen).1, rfl⟩
      · cases hs
    | false =>
      cases hs
      exact ⟨_, _, .fails (by simp [Fetch.guarded, hr]) (by simp [hr]), rfl⟩
  | piped =>
    simp only [hr] at hs
    cases ok with
    | true =>
      simp only [if_true] at hs
      split at hs
      · rename_i hfresh
        cases hs
        exact ⟨_, _, .duplicates hr hfresh.1 hfresh.2.1 hfresh.2.2, rfl⟩
      · cases hs
    | false =>
      cases hs
      exact ⟨_, _, .fails (by simp [Fetch.guarded, hr]) (by simp [hr]), rfl⟩
  | duplicated h =>
    simp only [hr] at hs
    cases ok with
    | true =>
      simp only [if_true] at hs
      split at hs
      · cases hs
        exact ⟨_, _, .writes hr ‹_›, rfl⟩
      · cases hs
    | false =>
      cases hs
      exact ⟨_, _, .unwinds hr, rfl⟩
  | unwinding h =>
    simp only [hr] at hs
    cases hs
    exact ⟨_, _, .closes hr, rfl⟩
  | ended =>
    simp only [hr] at hs
    cases hs

/-- The client has waited for the connection. -/
def ClientPc.connected : ClientPc → Bool
  | .opening | .reading => true
  | .done (.ok _) => true
  | _ => false

/-- The client has not listened, or has given up. -/
def ClientPc.turnedAway : ClientPc → Bool
  | .sending | .connecting | .leaving _ => true
  | .done (.error _) => true
  | _ => false

/-- What the two sides know of each other. -/
structure Coherent (f : Fetch) : Prop where
  connected : f.client.connected = true → f.connected = true
  unconnected : f.reply = .waiting ∨ f.reply = .opened → f.connected = false
  piped : f.reply = .piped → f.connected = true
  data : ∀ h, f.data = some h → f.written = some h ∧ f.listens = true
  written : ∀ h, f.written = some h → f.reply = .ended ∧ f.connected = true ∧ h ≠ 0 ∧
    (f.data = some h ∨ f.listens = false)
  guarded : ∀ h, f.reply = .duplicated h ∨ f.reply = .unwinding h → f.connected = true ∧ h ≠ 0
  early : f.early = true → f.connected = true ∧ f.client.turnedAway = true
  result : ∀ h, f.client = .done (.ok h) →
    f.written = some h ∨ f.written = none ∧ h = 0 ∧ f.hungUp = true

theorem start_coherent (server : Pid) : Coherent (Fetch.start server) := by
  constructor <;> simp [Fetch.start, ClientPc.connected]

variable {f f' : Fetch}

/-- The client goes on, and keeps the pipe. -/
theorem Coherent.goto (h : Coherent f) {pc : ClientPc} {asked : Bool} (hl : f.listens = true)
    (hpc : ∀ r, pc ≠ .done r) (hconnected : pc.connected = true → f.connected = true)
    (hearly : f.early = true → pc.turnedAway = true) :
    Coherent { f with client := pc, asked := asked } := by
  have hlistens : Fetch.listens { f with client := pc, asked := asked } = true := by
    cases pc <;> first | rfl | exact absurd rfl (hpc _)
  refine ⟨hconnected, h.unconnected, h.piped, fun x hx => ⟨(h.data x hx).1, hlistens⟩, fun x hx => ?_,
    h.guarded,
    fun he => ⟨(h.early he).1, hearly he⟩, fun x hx => absurd hx (hpc _)⟩
  obtain ⟨hreply, hconn, hne, hdata⟩ := h.written x hx
  refine ⟨hreply, hconn, hne, Or.inl (hdata.resolve_right ?_)⟩
  simp [hl]

theorem ClientMoved.coherent {got : Option Handle} (hm : ClientMoved f f' got) (h : Coherent f) :
    Coherent f' := by
  have hconnected : f.client.connected = true → f.connected = true := h.connected
  cases hm with
  | asked hc => exact h.goto (by simp [Fetch.listens, hc]) (by simp) (by simp [ClientPc.connected]) fun _ => rfl
  | listens hc hunconnected =>
    refine h.goto (by simp [Fetch.listens, hc]) (by simp) (by simp [ClientPc.connected]) fun he => ?_
    rw [(h.early he).1] at hunconnected
    cases hunconnected
  | connected hc hconn =>
    refine h.goto (by simp [Fetch.listens, hc]) (by simp) (fun _ => hconn) fun he => ?_
    have haway := (h.early he).2
    simp [hc, ClientPc.turnedAway] at haway
  | reads hc =>
    refine h.goto (by simp [Fetch.listens, hc]) (by simp) (fun _ => hconnected (by simp [hc, ClientPc.connected]))
      fun he => ?_
    have haway := (h.early he).2
    simp [hc, ClientPc.turnedAway] at haway
  | fails hl => exact h.goto hl (by simp) (by simp [ClientPc.connected]) fun _ => rfl
  | @gets x hc hdata =>
    have hconn := hconnected (by simp [hc, ClientPc.connected])
    refine ⟨fun _ => hconn, h.unconnected, h.piped, by simp, fun y hy => ?_, h.guarded, fun he => ?_, ?_⟩
    · obtain ⟨hreply, -, hne, -⟩ := h.written y hy
      exact ⟨hreply, hconn, hne, Or.inr rfl⟩
    · have haway := (h.early he).2
      simp [hc, ClientPc.turnedAway] at haway
    · rintro y ⟨⟩
      exact Or.inl (h.data x hdata).1
  | getsNothing hc hdata hhung =>
    have hconn := hconnected (by simp [hc, ClientPc.connected])
    have hnone : f.written = none := by
      cases hw : f.written with
      | none => rfl
      | some y =>
        obtain ⟨-, -, -, hsome | hclosed⟩ := h.written y hw
        · rw [hdata] at hsome
          cases hsome
        · simp [Fetch.listens, hc] at hclosed
    refine ⟨fun _ => hconn, h.unconnected, h.piped, ?_, ?_, h.guarded, fun he => ?_, ?_⟩
    · simp [hdata]
    · simp [hnone]
    · have haway := (h.early he).2
      simp [hc, ClientPc.turnedAway] at haway
    · rintro y ⟨⟩
      exact Or.inr ⟨hnone, rfl, hhung⟩
  | leaves hc =>
    refine ⟨by simp [ClientPc.connected], h.unconnected, h.piped, by simp, fun y hy => ?_, h.guarded,
      fun he => ⟨(h.early he).1, rfl⟩, by simp⟩
    obtain ⟨hreply, hconn, hne, -⟩ := h.written y hy
    exact ⟨hreply, hconn, hne, Or.inr rfl⟩

theorem Coherent.ends (h : Coherent f) : Coherent { f with reply := .ended } := by
  refine ⟨h.connected, by simp, by simp, h.data, fun x hx => ⟨rfl, (h.written x hx).2⟩, by simp, h.early,
    fun x hx => (h.result x hx).imp_right ?_⟩
  rintro ⟨hnone, hnull, hhung⟩
  exact ⟨hnone, hnull, by simp [Fetch.hungUp, (Bool.and_eq_true_iff.mp hhung).1]⟩

/-- Nothing has been written, and the client has not got anything. -/
theorem Coherent.unanswered (h : Coherent f) (hne : f.reply ≠ .ended) (x : Handle) :
    f.written ≠ some x ∧ f.client ≠ .done (.ok x) := by
  refine ⟨fun hx => hne (h.written x hx).1, fun hx => ?_⟩
  obtain hw | ⟨-, -, hhung⟩ := h.result x hx
  · exact hne (h.written x hw).1
  · exact hne (by simpa using (Bool.and_eq_true_iff.mp hhung).2)

theorem ReplyMoved.coherent {table table' : Handle → Option Object} (hm : ReplyMoved table f table' f')
    (h : Coherent f) : Coherent f' := by
  have hanswer := h.unanswered
  cases hm with
  | opens hr =>
    have hne : f.reply ≠ .ended := by simp [hr]
    exact ⟨h.connected, fun _ => h.unconnected (Or.inl hr), by simp, h.data,
      fun x hx => absurd hx (hanswer hne x).1, by simp, h.early, fun x hx => absurd hx (hanswer hne x).2⟩
  | fails => exact h.ends
  | connects hr hl =>
    have hne : f.reply ≠ .ended := by simp [hr]
    refine ⟨fun _ => rfl, by simp, fun _ => rfl, h.data, fun x hx => absurd hx (hanswer hne x).1, by simp,
      fun he => ⟨rfl, ?_⟩, fun x hx => absurd hx (hanswer hne x).2⟩
    obtain hc | hc := Bool.or_eq_true_iff.mp he
    · rw [beq_iff_eq.mp hc]
      rfl
    · rw [beq_iff_eq.mp hc]
      rfl
  | @duplicates x hr hfresh hreal hnull =>
    have hne : f.reply ≠ .ended := by simp [hr]
    refine ⟨h.connected, by simp, by simp, h.data, fun y hy => absurd hy (hanswer hne y).1, ?_, h.early,
      fun y hy => absurd hy (hanswer hne y).2⟩
    rintro y (hy | hy)
    · cases hy
      exact ⟨h.piped hr, hnull⟩
    · cases hy
  | @writes x hr hl =>
    obtain ⟨hconn, hnull⟩ := h.guarded x (Or.inl hr)
    refine ⟨h.connected, by simp, by simp, ?_, ?_, by simp, h.early, fun y hy => ?_⟩
    · rintro y ⟨⟩
      exact ⟨rfl, hl⟩
    · rintro y ⟨⟩
      exact ⟨rfl, hconn, hnull, Or.inl rfl⟩
    · simp only at hy
      simp [Fetch.listens, hy] at hl
  | @unwinds x hr =>
    have hne : f.reply ≠ .ended := by simp [hr]
    refine ⟨h.connected, by simp, by simp, h.data, fun y hy => absurd hy (hanswer hne y).1, ?_, h.early,
      fun y hy => absurd hy (hanswer hne y).2⟩
    rintro y (hy | hy)
    · cases hy
    · cases hy
      exact h.guarded x (Or.inl hr)
  | closes => exact h.ends

/-- The handles of the process are accounted for, and its calls are in order. -/
structure Sound (w : World) : Prop where
  covers : Covers (· ≠ currentProcess) w.table w.ledger
  real : ∀ e ∈ w.ledger, e.1 ≠ currentProcess
  coherent : ∀ f ∈ w.fetches, Coherent f

theorem count_ledger (w : World) (e : Entry) :
    w.ledger.count e = w.owned.count e + (w.fetches.flatMap Fetch.entries).count e + w.lost.count e := by
  simp only [World.ledger, List.count_append]

theorem count_entries (f : Fetch) (e : Entry) :
    f.entries.count e = f.guarded.count e + f.inPipe.count e := by
  rw [Fetch.entries, List.count_append]

/-- The handles change hands. -/
theorem Sound.moved {w w' : World} (h : Sound w) (ht : w'.table = w.table)
    (hc : ∀ e, w'.ledger.count e = w.ledger.count e) (hf : ∀ f ∈ w'.fetches, Coherent f) : Sound w' where
  covers := ht ▸ h.covers.moved fun e _ => hc e
  real e he := by
    rw [← List.count_pos_iff, hc, List.count_pos_iff] at he
    exact h.real e he
  coherent := hf

theorem Sound.opened {w w' : World} (h : Sound w) {k : Handle} {o : Object} (hk : w.table k = none)
    (hreal : k ≠ currentProcess) (ht : w'.table = update w.table k (some o))
    (hc : ∀ e, w'.ledger.count e = w.ledger.count e + [(k, o)].count e) (hf : ∀ f ∈ w'.fetches, Coherent f) :
    Sound w' where
  covers := ht ▸ h.covers.opened hk fun e _ => hc e
  real e he := by
    by_cases heq : (k, o) = e
    · rw [← heq]
      exact hreal
    · have hne : ((k, o) == e) = false := by simpa using heq
      rw [← List.count_pos_iff, hc, List.count_singleton, hne] at he
      exact h.real e (List.count_pos_iff.mp (by simpa using he))
  coherent := hf

theorem Sound.closed {w w' : World} (h : Sound w) {e : Entry} (ht : w'.table = closeAll w.table [e.1])
    (hc : ∀ x, w'.ledger.count x + [e].count x = w.ledger.count x) (hf : ∀ f ∈ w'.fetches, Coherent f) :
    Sound w' where
  covers := by
    refine ht ▸ h.covers.closed [e] (fun k hk => ?_) fun x _ => hc x
    simp only [closeAll, List.contains_iff_mem, ne_eq, hk, not_false_eq_true, and_true, List.map_cons,
      List.map_nil]
  real x hx := by
    have hsum := hc x
    rw [← List.count_pos_iff] at hx
    exact h.real x (List.count_pos_iff.mp (by omega))
  coherent := hf

theorem coherent_set {w : World} (h : Sound w) {i : Nat} (hf' : Coherent f') :
    ∀ f ∈ w.fetches.set i f', Coherent f := by
  intro f hf
  obtain hmem | rfl := List.mem_or_eq_of_mem_set hf
  · exact h.coherent f hmem
  · exact hf'

/-- What the client gets or leaves has been in the pipe. -/
theorem ClientMoved.entries {got : Option Handle} (hm : ClientMoved f f' got) (e : Entry) :
    f'.entries.count e + (got.toList.map fun h => ((h, .process f.server) : Entry)).count e +
      (if f.leaves then f.inPipe else []).count e = f.entries.count e := by
  cases hm with
  | asked hc | listens hc | connected hc | reads hc | getsNothing hc =>
    have hleaves : f.leaves = false := by simp [Fetch.leaves, hc]
    rw [hleaves]
    rfl
  | fails hl hleaves =>
    rw [hleaves]
    rfl
  | @gets x hc hdata =>
    have hleaves : f.leaves = false := by simp [Fetch.leaves, hc]
    have hpipe : f.inPipe = [(x, .process f.server)] := by simp [Fetch.inPipe, hdata]
    rw [hleaves, count_entries f, hpipe]
    simp [count_entries, Fetch.inPipe, Fetch.guarded]
  | leaves hc =>
    have hleaves : f.leaves = true := by simp [Fetch.leaves, hc]
    rw [hleaves, count_entries f]
    simp [count_entries, Fetch.inPipe, Fetch.guarded]

theorem count_set {w : World} {i : Nat} (hf : w.fetches[i]? = some f) (f' : Fetch) (e : Entry) :
    ((w.fetches.set i f').flatMap Fetch.entries).count e + f.entries.count e =
      (w.fetches.flatMap Fetch.entries).count e + f'.entries.count e :=
  count_flatMap_set Fetch.entries hf f' e

theorem ReplyMoved.sound {w : World} (h : Sound w) {i : Nat} (hf : w.fetches[i]? = some f)
    {table : Handle → Option Object} (hm : ReplyMoved w.table f table f') :
    Sound { w with table := table, fetches := w.fetches.set i f' } := by
  have hcoherent := h.coherent f (List.mem_of_getElem? hf)
  have hrest := coherent_set h (i := i) (hm.coherent hcoherent)
  have hsame : table = w.table → f'.entries = f.entries →
      Sound { w with table := table, fetches := w.fetches.set i f' } := by
    intro ht hentries
    refine h.moved ht (fun e => ?_) hrest
    have hset := count_set hf f' e
    rw [hentries] at hset
    simp only [count_ledger]
    omega
  cases hm with
  | opens hr | connects hr | unwinds hr =>
    exact hsame rfl (by simp [Fetch.entries, Fetch.guarded, Fetch.inPipe, hr])
  | fails hguarded =>
    refine hsame rfl ?_
    rw [Fetch.entries, Fetch.entries, hguarded]
    rfl
  | @duplicates x hr hfresh hreal =>
    refine h.opened hfresh hreal rfl (fun e => ?_) hrest
    have hset := count_set hf { f with reply := .duplicated x } e
    have hguarded : f.guarded = [] := by simp [Fetch.guarded, hr]
    have hnew : Fetch.guarded { f with reply := .duplicated x } = [(x, .process f.server)] := rfl
    have hpipe : Fetch.inPipe { f with reply := .duplicated x } = f.inPipe := rfl
    simp only [count_entries, hguarded, hnew, hpipe, List.count_nil] at hset
    simp only [count_ledger]
    omega
  | @writes x hr =>
    have hdata : f.data = none := by
      cases hd : f.data with
      | none => rfl
      | some y => exact absurd (hcoherent.data y hd).1 (hcoherent.unanswered (by simp [hr]) y).1
    exact hsame rfl (by simp [Fetch.entries, Fetch.guarded, Fetch.inPipe, hr, hdata])
  | @closes x hr =>
    refine h.closed (e := (x, .process f.server)) rfl (fun e => ?_) hrest
    have hset := count_set hf { f with reply := .ended } e
    have hguarded : f.guarded = [(x, .process f.server)] := by simp [Fetch.guarded, hr]
    have hnew : Fetch.guarded { f with reply := .ended } = [] := rfl
    have hpipe : Fetch.inPipe { f with reply := .ended } = f.inPipe := rfl
    simp only [count_entries, hguarded, hnew, hpipe, List.count_nil] at hset
    simp only [count_ledger]
    omega

theorem Sound.step {w w' : World} {a : Action} (h : Sound w) (hs : w.step a = some w') : Sound w' := by
  cases a with
  | create k o =>
    simp only [World.step] at hs
    split at hs
    · rename_i hfresh
      cases hs
      refine h.opened hfresh.1 hfresh.2.1 rfl (fun e => ?_) h.coherent
      simp only [count_ledger, List.count_append]
      omega
    · cases hs
  | close k =>
    obtain ⟨e, he, rfl⟩ := Option.map_eq_some_iff.mp hs
    obtain rfl : e.1 = k := by simpa using List.find?_some he
    refine h.closed (e := e) rfl (fun x => ?_) h.coherent
    have herase := count_map_erase id (List.mem_of_find?_eq_some he) x
    simp only [List.map_id, id] at herase
    simp only [count_ledger]
    omega
  | begin server =>
    cases hs
    refine h.moved rfl (fun e => ?_) ?_
    · simp [count_ledger, Fetch.start, Fetch.guarded, Fetch.inPipe, Fetch.entries]
    · intro f hf
      obtain hf | hf := List.mem_append.mp hf
      · exact h.coherent f hf
      · rw [List.mem_singleton.mp hf]
        exact start_coherent server
  | client i answer =>
    obtain ⟨f, hf, hs⟩ := Option.bind_eq_some_iff.mp hs
    obtain ⟨⟨f', got⟩, hstep, rfl⟩ := Option.map_eq_some_iff.mp hs
    have hm := client_moved hstep
    refine h.moved rfl (fun e => ?_)
      (coherent_set h (hm.coherent (h.coherent f (List.mem_of_getElem? hf))))
    have hset := count_set hf f' e
    have hentries := hm.entries e
    simp only [count_ledger, List.count_append]
    omega
  | reply i ok k =>
    obtain ⟨f, hf, hs⟩ := Option.bind_eq_some_iff.mp hs
    obtain ⟨table, f', hm, rfl⟩ := reply_moved hs
    exact hm.sound h hf
  | die i =>
    obtain ⟨f, hf, rfl⟩ := Option.map_eq_some_iff.mp hs
    refine h.moved rfl (fun e => ?_) (coherent_set h (h.coherent f (List.mem_of_getElem? hf)).ends)
    have hset := count_set hf { f with reply := .ended } e
    have hguarded : Fetch.guarded { f with reply := .ended } = [] := rfl
    have hpipe : Fetch.inPipe { f with reply := .ended } = f.inPipe := rfl
    simp only [count_entries, hguarded, hpipe, List.count_nil] at hset
    simp only [count_ledger, List.count_append]
    omega

theorem boot_sound : Sound World.boot :=
  ⟨fun e _ => by simp [World.boot, World.ledger], by simp [World.boot, World.ledger], by simp [World.boot]⟩

section Runs

variable {w w' : World}

theorem run_sound {actions : List Action} (h : run World.step World.boot actions = some w) : Sound w :=
  run_invariant (fun _ w => Sound w) boot_sound (fun _ _ _ _ _ hs hstep => hs.step hstep) actions w h

/-- The client drops the pipe with the answer in it, or the server dies with a guard. -/
def World.Loses (w : World) : Action → Prop
  | .client i _ => ∃ f, w.fetches[i]? = some f ∧ f.leaves = true ∧ f.inPipe ≠ []
  | .die i => ∃ f, w.fetches[i]? = some f ∧ f.guarded ≠ []
  | _ => False

theorem step_lost {a : Action} (hnone : w.lost = []) (ha : ¬ w.Loses a) (hs : w.step a = some w') :
    w'.lost = [] := by
  cases a with
  | create k o =>
    simp only [World.step] at hs
    split at hs <;> cases hs
    exact hnone
  | close k =>
    obtain ⟨e, -, rfl⟩ := Option.map_eq_some_iff.mp hs
    exact hnone
  | begin server =>
    cases hs
    exact hnone
  | client i answer =>
    obtain ⟨f, hf, hs⟩ := Option.bind_eq_some_iff.mp hs
    obtain ⟨next, -, rfl⟩ := Option.map_eq_some_iff.mp hs
    cases hl : f.leaves with
    | false => simp only [hnone, Bool.false_eq_true, if_false, List.append_nil]
    | true =>
      have hpipe : f.inPipe = [] := by_contra fun hne => ha ⟨f, hf, hl, hne⟩
      simp only [hnone, hpipe, ite_self, List.append_nil]
  | reply i ok k =>
    obtain ⟨f, hf, hs⟩ := Option.bind_eq_some_iff.mp hs
    obtain ⟨table, f', -, rfl⟩ := reply_moved hs
    exact hnone
  | die i =>
    obtain ⟨f, hf, rfl⟩ := Option.map_eq_some_iff.mp hs
    have hguarded : f.guarded = [] := by_contra fun hne => ha ⟨f, hf, hne⟩
    simp [hnone, hguarded]

/-- The client has returned, and the server has not begun or is over. -/
def Fetch.over (f : Fetch) : Bool := !f.listens && (f.reply == .waiting || f.reply == .ended)

theorem Coherent.entries_eq_nil (h : Coherent f) (ho : f.over = true) : f.entries = [] := by
  obtain ⟨hl, hr⟩ := Bool.and_eq_true_iff.mp ho
  have hdata : f.data = none := by
    cases hd : f.data with
    | none => rfl
    | some x =>
      rw [(h.data x hd).2] at hl
      cases hl
  obtain hr | hr := Bool.or_eq_true_iff.mp hr
  all_goals
    rw [beq_iff_eq] at hr
    simp [Fetch.entries, Fetch.guarded, Fetch.inPipe, hr, hdata]

/-- The process fetches a handle of process 1 and gets the handle 8. It has listened before process 1
opened the pipe. -/
def answered : List Action :=
  [.begin 1, .client 0 .ok, .client 0 .ok, .reply 0 true 0, .reply 0 true 0, .client 0 .ok, .client 0 .ok,
    .reply 0 true 8, .reply 0 true 0]

/-- Process 1 hangs up when the process reads. -/
def unanswered : List Action :=
  [.begin 1, .client 0 .ok, .client 0 .ok, .reply 0 true 0, .reply 0 true 0, .client 0 .ok, .client 0 .ok,
    .reply 0 false 0]

/-- What is open is owned once, by a caller, by the guard of a server, or in a pipe. Nothing gets
lost unless a client drops the pipe with the answer in it or a server dies with a guard, and then,
between the calls, the callers own all that is open. -/
theorem fetches_accounted {actions : List Action} (h : run World.step World.boot actions = some w) :
    (∀ e : Entry, e.1 ≠ currentProcess → w.ledger.count e = if w.table e.1 = some e.2 then 1 else 0) ∧
      (Along World.step (fun w a => ¬ w.Loses a) World.boot actions →
        w.lost = [] ∧
          ((∀ f ∈ w.fetches, f.over = true) → ∀ e : Entry, e.1 ≠ currentProcess →
            w.owned.count e = if w.table e.1 = some e.2 then 1 else 0)) := by
  have hsound := run_sound h
  refine ⟨hsound.covers, fun hsteps => ?_⟩
  have hlost : w.lost = [] :=
    along_invariant (fun w : World => w.lost = []) (fun _ _ _ hn ha hs => step_lost hn ha hs) rfl hsteps h
  refine ⟨hlost, fun hover e hreal => ?_⟩
  have hentries : w.fetches.flatMap Fetch.entries = [] := by
    rw [List.flatMap_eq_nil_iff]
    intro f hf
    exact (hsound.coherent f hf).entries_eq_nil (hover f hf)
  have hcount := hsound.covers e hreal
  rwa [count_ledger, hentries, hlost] at hcount

theorem fetches_accounted_answered :
    ∃ w, run World.step World.boot (answered ++ [.client 0 .ok]) = some w ∧ w.lost = [] ∧
      w.owned.count (8, .process 1) = 1 := by
  have hrun : (run World.step World.boot (answered ++ [.client 0 .ok])).map
      (fun w => (w.fetches.all Fetch.over, w.table 8)) = some (true, some (.process 1)) := by
    decide +kernel
  obtain ⟨w, hw, hobs⟩ := Option.map_eq_some_iff.mp hrun
  obtain ⟨hover, htable⟩ := Prod.mk.inj hobs
  have hsteps : Along World.step (fun w a => ¬ w.Loses a) World.boot (answered ++ [.client 0 .ok]) := by
    refine along_of_passes (p := fun w a => match a with
      | .client i _ => (w.fetches[i]?).all fun f => !f.leaves
      | .die _ => false
      | _ => true) (fun w a ha => ?_) (by decide +kernel)
    cases a with
    | client i answer =>
      rintro ⟨f, hf, hl, -⟩
      simp [hf, hl] at ha
    | die i => cases ha
    | create | close | begin | reply => exact id
  obtain ⟨hlost, howned⟩ := (fetches_accounted hw).2 hsteps
  refine ⟨w, hw, hlost, ?_⟩
  rw [howned (List.all_eq_true.mp hover) (8, .process 1) (by decide), if_pos htable]

theorem Sound.owned_once (h : Sound w) {e : Entry} (he : e ∈ w.owned) :
    w.table e.1 = some e.2 ∧ w.owned.count e = 1 := by
  have hmem : e ∈ w.ledger := List.mem_append_left w.lost (List.mem_append_left _ he)
  have hget := h.covers.get (h.real e hmem) hmem
  have hcount := h.covers e (h.real e hmem)
  rw [if_pos hget, count_ledger] at hcount
  have hpos := List.count_pos_iff.mpr he
  exact ⟨hget, by omega⟩

/-- The call that returns with a handle has got one of the process that it has asked, and its caller
alone owns it; or that process has hung up without an answer, and the handle is null. The server
has not been faster than the client: then the call fails. -/
theorem fetch_result {actions : List Action} (h : run World.step World.boot actions = some w) {i : Nat}
    {answer : Answer} (hs : w.step (.client i answer) = some w') {f : Fetch} (hf : w'.fetches[i]? = some f)
    {x : Handle} (hx : f.client = .done (.ok x)) :
    f.early = false ∧
      (x ≠ 0 ∧ w'.table x = some (.process f.server) ∧ w'.owned.count (x, .process f.server) = 1 ∨
        x = 0 ∧ f.written = none ∧ f.hungUp = true ∧ w'.table = w.table ∧ w'.owned = w.owned) := by
  have hsound' := (run_sound h).step hs
  have hcoherent := hsound'.coherent f (List.mem_of_getElem? hf)
  obtain ⟨f₀, hf₀, hs⟩ := Option.bind_eq_some_iff.mp hs
  obtain ⟨⟨f', got⟩, hstep, rfl⟩ := Option.map_eq_some_iff.mp hs
  obtain ⟨hlt, -⟩ := List.getElem?_eq_some_iff.mp hf₀
  obtain rfl : f' = f := by simpa [List.getElem?_set_self hlt] using hf
  refine ⟨Bool.eq_false_iff.mpr fun he => ?_, ?_⟩
  · have haway := (hcoherent.early he).2
    simp [hx, ClientPc.turnedAway] at haway
  have hm := client_moved hstep
  cases hm with
  | asked | listens | connected | reads | fails | leaves => cases hx
  | @gets y hc hdata =>
    cases hx
    left
    have hwritten := ((run_sound h).coherent f₀ (List.mem_of_getElem? hf₀)).data x hdata
    obtain ⟨-, -, hne, -⟩ := hcoherent.written x hwritten.1
    exact ⟨hne, hsound'.owned_once (e := (x, .process f₀.server)) (by simp)⟩
  | getsNothing hc hdata hhung =>
    cases hx
    right
    obtain hw | ⟨hnone, -, hhung'⟩ := hcoherent.result 0 rfl
    · exact absurd rfl (hcoherent.written 0 hw).2.2.1
    · exact ⟨rfl, hnone, hhung', rfl, List.append_nil _⟩

example : (run World.step World.boot (unanswered ++ [.client 0 .ok])).map
    (fun w => w.fetches.map Fetch.client == [.done (.ok 0)]) = some true := by
  decide +kernel

/-- Process 1 is faster than the process, and the call fails. -/
example : (run World.step World.boot [.begin 1, .client 0 .ok, .reply 0 true 0, .reply 0 true 0, .client 0 .ok,
    .client 0 .ok]).map (fun w => w.fetches.map Fetch.client == [.done (.error .winError)]) = some true := by
  decide +kernel

theorem fetch_result_answered :
    ∃ w w' f, run World.step World.boot answered = some w ∧ w.step (.client 0 .ok) = some w' ∧
      w'.fetches[0]? = some f ∧ f.early = false := by
  have hrun : (run World.step World.boot answered).map (fun w => (w.step (.client 0 .ok)).map
      fun w' => (w'.fetches[0]?).map Fetch.client) = some (some (some (.done (.ok 8)))) := by
    decide +kernel
  obtain ⟨w, hw, hstep⟩ := Option.map_eq_some_iff.mp hrun
  obtain ⟨w', hw', hclient⟩ := Option.map_eq_some_iff.mp hstep
  obtain ⟨f, hf, hx⟩ := Option.map_eq_some_iff.mp hclient
  exact ⟨w, w', f, hw, hw', hf, (fetch_result hw hw' hf hx).1⟩

/-- How many steps the call has yet to take. -/
def ClientPc.rank : ClientPc → Nat
  | .sending => 6
  | .connecting => 5
  | .listening => 4
  | .opening => 3
  | .reading => 2
  | .leaving _ => 1
  | .done _ => 0

theorem ClientMoved.rank_lt {got : Option Handle} (hm : ClientMoved f f' got) :
    f'.client.rank < f.client.rank := by
  cases hm with
  | asked hc | listens hc | connected hc | reads hc | gets hc | getsNothing hc | leaves hc =>
    simp [hc, ClientPc.rank]
  | fails hl hleaves =>
    cases hc : f.client <;> simp [hc, Fetch.listens, Fetch.leaves, ClientPc.rank] at hl hleaves ⊢

def Action.isClient (i : Nat) : Action → Bool
  | .client j _ => j == i
  | _ => false

/-- The call is where it was, unless this is a step of its own. -/
theorem step_client {a : Action} {i : Nat} (hf : w.fetches[i]? = some f) (hs : w.step a = some w') :
    ∃ f', w'.fetches[i]? = some f' ∧ f'.client.rank + (a.isClient i).toNat ≤ f.client.rank := by
  have hset : ∀ {j : Nat} {g g' : Fetch}, w.fetches[j]? = some g → g'.client = g.client →
      ∃ f', (w.fetches.set j g')[i]? = some f' ∧ f'.client.rank ≤ f.client.rank := by
    intro j g g' hg hc
    obtain ⟨hlt, -⟩ := List.getElem?_eq_some_iff.mp hg
    by_cases hji : j = i
    · subst hji
      rw [hf] at hg
      cases hg
      exact ⟨g', List.getElem?_set_self hlt, hc ▸ Nat.le_refl _⟩
    · exact ⟨f, by rw [List.getElem?_set_ne hji, hf], Nat.le_refl _⟩
  cases a with
  | create k o =>
    simp only [World.step] at hs
    split at hs <;> cases hs
    exact ⟨f, hf, Nat.le_refl _⟩
  | close k =>
    obtain ⟨e, -, rfl⟩ := Option.map_eq_some_iff.mp hs
    exact ⟨f, hf, Nat.le_refl _⟩
  | begin server =>
    cases hs
    obtain ⟨hlt, -⟩ := List.getElem?_eq_some_iff.mp hf
    exact ⟨f, by rw [List.getElem?_append_left hlt, hf], Nat.le_refl _⟩
  | client j answer =>
    obtain ⟨g, hg, hs⟩ := Option.bind_eq_some_iff.mp hs
    obtain ⟨⟨g', got⟩, hstep, rfl⟩ := Option.map_eq_some_iff.mp hs
    have hlt := (client_moved hstep).rank_lt
    by_cases hji : j = i
    · subst hji
      rw [hf] at hg
      cases hg
      refine ⟨g', List.getElem?_set_self (List.getElem?_eq_some_iff.mp hf).1, ?_⟩
      have hown : Action.isClient j (.client j answer) = true := by simp [Action.isClient]
      rw [hown]
      exact hlt
    · refine ⟨f, by rw [List.getElem?_set_ne hji, hf], ?_⟩
      simp [Action.isClient, hji]
  | reply j ok k =>
    obtain ⟨g, hg, hs⟩ := Option.bind_eq_some_iff.mp hs
    obtain ⟨table, g', hm, rfl⟩ := reply_moved hs
    have hc : g'.client = g.client := by cases hm <;> rfl
    simpa [Action.isClient] using hset hg hc
  | die j =>
    obtain ⟨g, hg, rfl⟩ := Option.map_eq_some_iff.mp hs
    have hc : ({ g with reply := .ended } : Fetch).client = g.client := rfl
    simpa [Action.isClient] using hset hg hc

/-- A wait ends, with an event or with its timeout. -/
theorem Fetch.enabled (hl : f.listens = true) :
    (f.clientStep .ok).isSome = true ∨ (f.clientStep .timeout).isSome = true := by
  cases hc : f.client with
  | sending => simp [Fetch.clientStep, hc]
  | connecting =>
    left
    simp only [Fetch.clientStep, hc]
    split <;> rfl
  | listening => cases hconn : f.connected <;> simp [Fetch.clientStep, hc, hconn]
  | opening =>
    left
    simp only [Fetch.clientStep, hc]
    split <;> rfl
  | reading =>
    cases hdata : f.data with
    | some x => simp [Fetch.clientStep, hc, hdata]
    | none => cases hhung : f.hungUp <;> simp [Fetch.clientStep, hc, hdata, hhung]
  | leaving e => simp [Fetch.clientStep, hc]
  | done r => simp [Fetch.listens, hc] at hl

/-- Whatever the server does, or if it does not exist, the call can go on until it has returned,
after at most six steps. -/
theorem fetch_returns {actions : List Action} (h : run World.step w actions = some w') {i : Nat}
    (hf : w.fetches[i]? = some f) :
    ∃ f', w'.fetches[i]? = some f' ∧ actions.countP (Action.isClient i) ≤ 6 ∧
      (f'.listens = true → (w'.step (.client i .ok)).isSome = true ∨
        (w'.step (.client i .timeout)).isSome = true) := by
  obtain ⟨f', hf', hrank⟩ : ∃ f', w'.fetches[i]? = some f' ∧
      f'.client.rank + actions.countP (Action.isClient i) ≤ f.client.rank := by
    refine run_invariant (fun is u => ∃ f', u.fetches[i]? = some f' ∧
      f'.client.rank + is.countP (Action.isClient i) ≤ f.client.rank) ⟨f, hf, Nat.le_refl _⟩
      (fun is t a u _ ⟨g, hg, hle⟩ hs => ?_) actions w' h
    obtain ⟨g', hg', hstep⟩ := step_client hg hs
    refine ⟨g', hg', ?_⟩
    rw [List.countP_append, List.countP_singleton]
    cases hown : a.isClient i <;> simp only [hown, Bool.toNat_false, Bool.toNat_true] at hstep <;>
      simp only [Bool.false_eq_true, if_false, if_true] <;> omega
  have hsix : f.client.rank ≤ 6 := by cases f.client <;> simp [ClientPc.rank]
  refine ⟨f', hf', by omega, fun hl => ?_⟩
  simpa [World.step, World.clientStep, hf'] using Fetch.enabled hl

theorem fetch_returns_unanswered :
    ∃ w w', run World.step World.boot [.begin 1] = some w ∧ run World.step w (unanswered.drop 1) = some w' ∧
      ∃ f, w'.fetches[0]? = some f ∧ (unanswered.drop 1).countP (Action.isClient 0) ≤ 6 := by
  have hrun : (run World.step World.boot [.begin 1]).map (fun w => (w.fetches[0]?.isSome,
      (run World.step w (unanswered.drop 1)).isSome)) = some (true, true) := by
    decide +kernel
  obtain ⟨w, hw, hobs⟩ := Option.map_eq_some_iff.mp hrun
  obtain ⟨hfetch, hsteps⟩ := Prod.mk.inj hobs
  obtain ⟨f, hf⟩ := Option.isSome_iff_exists.mp hfetch
  obtain ⟨w', hw'⟩ := Option.isSome_iff_exists.mp hsteps
  obtain ⟨f', hf', hle, -⟩ := fetch_returns hw' hf
  exact ⟨w, w', hw, hw', f', hf', hle⟩

end Runs

end Ipmb.FetchHandle
