import Ipmb.Controller

namespace Ipmb.Calls

open Messages Time Backend Controller

variable {M R W : Type}

/-- The calls of `handle_message` in a flush. -/
def flushCalls (p : Platform M R W) (now : Instant) :
    BusController M R × W → List (Instant × M) → List (BusController M R × W × M)
  | _, [] => []
  | s, entry :: entries => (s.1, s.2, entry.2) :: flushCalls p now (flushOne p now s entry) entries

/-- The calls of `handle_message` in an iteration: the state each one starts from, and
its message. -/
def calls (p : Platform M R W) (s : BusController M R × W) (it : Iteration M R W) :
    List (BusController M R × W × M) :=
  match it.received with
  | .error _ => []
  | .ok msg =>
    let handled := handleMessage p s.1 (it.interfere s.2) msg
    (s.1, it.interfere s.2, msg) ::
      if handled.1.1.isNone && handled.1.2 && !handled.2.1.messageBuffer.isEmpty then
        flushCalls p it.now ({ handled.2.1 with messageBuffer := [] }, handled.2.2)
          handled.2.1.messageBuffer
      else []

/-- `P` holds of every call of `handle_message` in a run. -/
def EveryCall (p : Platform M R W) (P : BusController M R × W × M → Prop) :
    BusController M R × W → List (Iteration M R W) → Prop
  | _, [] => True
  | s, it :: its =>
    (∀ call ∈ calls p s it, P call) ∧ ∀ t, iterate p s it = some t → EveryCall p P t its

theorem EveryCall.imp {p : Platform M R W} {P Q : BusController M R × W × M → Prop}
    {s : BusController M R × W} {its : List (Iteration M R W)} (hpq : ∀ call, P call → Q call)
    (h : EveryCall p P s its) : EveryCall p Q s its := by
  induction its generalizing s with
  | nil => trivial
  | cons it its ih => exact ⟨fun call hc => hpq call (h.1 call hc), fun t ht => ih (h.2 t ht)⟩

end Ipmb.Calls
