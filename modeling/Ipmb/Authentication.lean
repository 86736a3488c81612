import Ipmb.Bus
import Ipmb.PlainHost
import Ipmb.Registration

namespace Ipmb.Authentication

open Labels Messages Time Buffers Encoding Decoding Reference Backend Run Controller Journal Routing
  Destinations Accounting Conservation Registration Linux Hub Bus Relay PlainHost

variable {W : Type} {host : Host W} {codec : Codec} {control : Control} {version : Version}
  {label : Label} {token : String} {now : Instant} {w : W}

/-- Every delivered message came over the controller's own channel, or over a connection
that had asked for an endpoint before, and could have it. -/
def Authenticated {M R : Type} (p : Platform M R W) (token : String)
    (received : List (Source × Iteration M R W)) (js : State M R W) : Prop :=
  ∀ d, ∀ n ∈ acceptedBy js d, ∃ e, received[n]? = some e ∧ (e.1 = .bus ∨
    ∃ m < n, ∃ e' msg label remote, received[m]? = some e' ∧ e'.1 = e.1 ∧ e'.2.received = .ok msg ∧
      Request p token msg label remote)

/-- Message number `n` is `msg`, and was vouched for. -/
def Origin (version : Version) (s : Thread W) (n : Nat) (msg : EncodedMessage) : Prop :=
  ∃ e, s.received[n]? = some e ∧ e.2.received = .ok msg ∧ Vouched version s.hub e.1 msg

theorem origin_of_received {s : Thread W} (h : Traced host codec control version label token now w s)
    {n : Nat} {it : Iteration EncodedMessage RawFd W} {msg : EncodedMessage}
    (hr : Received (s.received.map Prod.snd) n it msg) : Origin version s n msg := by
  obtain ⟨hit, hmsg⟩ := hr
  rw [List.getElem?_map] at hit
  obtain ⟨e, he, rfl⟩ := Option.map_eq_some_iff.mp hit
  exact ⟨e, he, hmsg, h.vouched e (List.mem_of_getElem? he) msg hmsg⟩

/-- A delivered message came over the controller's own channel, or over an accepted
connection with a version the controller accepts; other than over the local channel it
went to an endpoint that had been requested with the token and a compatible version. -/
theorem delivered_vouched {listener waker : RawFd} {inputs : List (Input W)} {s : Thread W}
    (h : run (step host codec control version) (boot label token now w listener waker) inputs =
      some s) :
    ∃ js, journalRun (linux host codec control version) (start label token now w)
        (s.received.map Prod.snd) = some js ∧ eraseState js = s.state ∧
      (∀ a ∈ js.2.2, ∀ n, a.message.tag = some n → Origin version s n a.message.val ∧
        ∃ ep, Requested (linux host codec control version) token (s.received.map Prod.snd) ep ∧
          a.remote = ep.remote) ∧
      ∀ msg ∈ js.1.sender.queue, ∃ n, msg.tag = some n ∧ Origin version s n msg.val := by
  have htraced := run_traced h
  obtain ⟨js, hjs, hstate⟩ := exists_journalRun htraced.ran
  have hacc := (journalRun_between hjs).accounts
  refine ⟨js, hjs, hstate, ?_, ?_⟩
  · intro a ha n hn
    obtain ⟨it, hr, -⟩ := hacc.log_genuine a ha n hn
    exact ⟨origin_of_received htraced hr,
      (journalRun_sentOnly hjs).sent a ha (by rw [hn]; exact Option.some_ne_none n)⟩
  · intro msg hm
    obtain ⟨hne, hgen⟩ := hacc.queue_known msg hm
    obtain ⟨n, hn⟩ := Option.ne_none_iff_exists'.mp hne
    obtain ⟨it, hr, -⟩ := hgen n hn
    exact ⟨n, hn, origin_of_received htraced hr⟩

/-- `plainCodec` with one more selector, that of a connect request. -/
def requestCodec : Codec where
  encode selector := if selector.uuid = ConnectMessage.uuid then [1] else plainCodec.encode selector
  decode bytes :=
    if bytes = [1] then some { plainSelector 0 with uuid := ConnectMessage.uuid }
    else plainCodec.decode bytes

def requestMessage : Message :=
  ⟨{ plainSelector 0 with uuid := ConnectMessage.uuid }, [], [7], []⟩

/-- The calls by which a connection is accepted as descriptor `fd`. -/
def connects (fd : RawFd) : List Call := [.tryRecv .empty, .wait [3], .accept (some fd)]

/-- The calls by which a message is read from a connection. -/
def reads (fd : RawFd) (msg : Message) : List Call :=
  [.tryRecv .empty, .wait [fd], .fromLocal zeroHeap
    (some ⟨(intoEncoded requestCodec ⟨0, 8, 5⟩ msg zeroHeap).iovData, msg.attachments⟩)]

/-- A controller with listener 3 and waker 4. -/
def plainThread (calls : List Call) : Option (Thread (List RawFd)) :=
  run (step plainHost requestCodec plainControl ⟨0, 8, 5⟩)
    (boot ⟨["c"]⟩ "token" (.ofNanos 0) [] 3 4) (calls.map (⟨·, id, .ofNanos 0⟩))

theorem delivered_vouched_object :
    ∃ s js, plainThread (connects 9 ++ reads 9 requestMessage ++ reads 9 (withObjects [8])) = some s ∧
      eraseState js = s.state ∧
      (∀ a ∈ js.2.2, ∀ n, a.message.tag = some n → Origin ⟨0, 8, 5⟩ s n a.message.val ∧
        ∃ ep, Requested (linux plainHost requestCodec plainControl ⟨0, 8, 5⟩) "token"
          (s.received.map Prod.snd) ep ∧ a.remote = ep.remote) ∧
      ∀ msg ∈ js.1.sender.queue, ∃ n, msg.tag = some n ∧ Origin ⟨0, 8, 5⟩ s n msg.val := by
  obtain ⟨s, hs⟩ := Option.isSome_iff_exists.mp (by decide : (plainThread
    (connects 9 ++ reads 9 requestMessage ++ reads 9 (withObjects [8]))).isSome = true)
  obtain ⟨js, -, hjs⟩ := delivered_vouched hs
  exact ⟨s, js, hs, hjs⟩

/-- A connection that never asks for an endpoint gets its message delivered. -/
theorem stranger_delivered :
    ∃ s js, plainThread (connects 9 ++ reads 9 (withObjects [])) = some s ∧
      journalRun (linux plainHost requestCodec plainControl ⟨0, 8, 5⟩)
        (start ⟨["c"]⟩ "token" (.ofNanos 0) []) (s.received.map Prod.snd) = some js ∧
      ¬ Authenticated (linux plainHost requestCodec plainControl ⟨0, 8, 5⟩) "token" s.received js := by
  refine ⟨_, _, rfl, rfl, ?_⟩
  intro h
  obtain ⟨e, he, hbus | ⟨m, hm, -⟩⟩ := h .own 0 (List.mem_cons_self ..)
  · cases he
    cases hbus
  · exact Nat.not_lt_zero m hm

end Ipmb.Authentication
