import Ipmb.Backend
import Ipmb.Retain
import Ipmb.Run

namespace Ipmb.Controller

open Labels Messages Time Backend Retain

variable {M R W : Type}

structure Endpoint (R : Type) where
  id : EndpointID
  label : Label
  remote : R

structure BusController (M R : Type) where
  label : Label
  token : String
  sender : Sender M
  endpoints : List (Endpoint R)
  messageBuffer : List (Instant × M)
  messageBufferSwap : List (Instant × M)
  lastDetectReachable : Instant

def new (label : Label) (token : String) (now : Instant) : BusController M R :=
  ⟨label, token, ⟨[], true⟩, [], [], [], now⟩

/-- The closure that `handle_message` gives to `Vec::retain`: the captured state
is `routed` and the world. -/
def tryEndpoint (p : Platform M R W) (msg : M) (ep : Endpoint R) (s : Bool × W) :
    Bool × Bool × W :=
  if s.1 && (p.selector msg).mode == .unicast then (true, s)
  else if (p.selector msg).labelOp.validate ep.label then
    match p.send s.2 msg ep.remote with
    | (.ok _, w) => (true, true, w)
    | (.error .disconnect, w) => (false, s.1, w)
    | (.error _, w) => (true, s.1, w)
  else (true, s)

/-- The reply to a connect request, whose outcome only the successful case looks at. -/
def reply (p : Platform M R W) (w : W) (selector : Selector) (ack : ConnectMessageAck)
    (remote : R) : Except (Error R) Unit × W :=
  let encoded := p.encodeAck w selector ack
  p.send encoded.2 encoded.1 remote

/-- Returns whether an endpoint was registered. -/
def endpointConnect (p : Platform M R W) (c : BusController M R) (w : W) (msg : M) :
    Bool × BusController M R × W :=
  match p.extractRemote msg with
  | (none, _) => (false, c, w)
  | (some remote, msg) =>
    match p.decodeConnect (p.payloadData msg) with
    | none => (false, c, (reply p w (p.selector msg) (.errVersion p.version) remote).2)
    | some payload =>
      if !payload.version.compatible p.version then
        (false, c, (reply p w (p.selector msg) (.errVersion p.version) remote).2)
      else if payload.token ≠ c.token then
        (false, c, (reply p w (p.selector msg) .errToken remote).2)
      else
        let id := p.newEndpointID w
        match reply p id.2 (p.selector msg) (.ok id.1) remote with
        | (.error _, w) => (false, c, w)
        | (.ok _, w) =>
          let pair : Endpoint R := ⟨id.1, payload.label, remote⟩
          if c.endpoints.any (fun ep => ep.label == pair.label && p.sameRemote ep.remote pair.remote) then
            (false, c, w)
          else (true, { c with endpoints := c.endpoints ++ [pair] }, w)

/-- The last part of `handle_message`: the local channel, and what remains. -/
def offerLocal (p : Platform M R W) (c : BusController M R) (routed : Bool) (w : W) (msg : M) :
    Option M × BusController M R × W :=
  if (!routed || (p.selector msg).mode == .multicast) &&
      (p.selector msg).labelOp.validate c.label then
    let dropped := p.receiverDropped w
    match c.sender.send dropped.1 msg with
    | (.ok _, sender) => (none, { c with sender := sender }, dropped.2)
    | (.error msg, sender) =>
      (if routed then none else some msg, { c with sender := sender }, dropped.2)
  else (if routed then none else some msg, c, w)

/-- The last arm of `handle_message`: the endpoints in table order, then the local channel. -/
def route (p : Platform M R W) (c : BusController M R) (w : W) (msg : M) :
    Option M × BusController M R × W :=
  let tried := retain (tryEndpoint p msg) c.endpoints (false, w)
  offerLocal p { c with endpoints := tried.1 } tried.2.1 tried.2.2 msg

/-- Returns the message that found no destination, and whether an endpoint was
registered. -/
def handleMessage (p : Platform M R W) (c : BusController M R) (w : W) (msg : M) :
    (Option M × Bool) × BusController M R × W :=
  if (p.selector msg).uuid = ConnectMessage.uuid then
    let connect := endpointConnect p c w msg
    ((none, connect.1), connect.2)
  else match p.platformMessage (p.selector msg).uuid with
  | some act => ((none, false), c, act w msg)
  | none =>
    let routed := route p c w msg
    ((routed.1, false), routed.2)

/-- One element of the drained buffer, after an endpoint has been registered. -/
def flushOne (p : Platform M R W) (now : Instant) (s : BusController M R × W)
    (entry : Instant × M) : BusController M R × W :=
  let handled := handleMessage p s.1 s.2 entry.2
  match handled.1.1 with
  | some remain =>
    if entry.1 > now then
      ({ handled.2.1 with
          messageBufferSwap := handled.2.1.messageBufferSwap ++ [(entry.1, remain)] }, handled.2.2)
    else handled.2
  | none => handled.2

/-- `mem::take`, the loop over the drained buffer, and the swap with the vector
filled meanwhile. -/
def flush (p : Platform M R W) (now : Instant) (s : BusController M R × W) :
    BusController M R × W :=
  let drained := s.1.messageBuffer.foldl (flushOne p now) ({ s.1 with messageBuffer := [] }, s.2)
  ({ drained.1 with messageBuffer := drained.1.messageBufferSwap, messageBufferSwap := [] },
    drained.2)

def detectReachable (p : Platform M R W) (now : Instant) (s : BusController M R × W) :
    BusController M R × W :=
  if now.since s.1.lastDetectReachable > 30 * nanosPerSec then
    let alive := retain (fun ep w => (!(p.isDead w ep.remote).1, (p.isDead w ep.remote).2))
      s.1.endpoints s.2
    ({ s.1 with endpoints := alive.1, lastDetectReachable := now }, alive.2)
  else s

def maintain (now : Instant) (s : BusController M R × W) : BusController M R × W :=
  ({ s.1 with messageBuffer := s.1.messageBuffer.filter (fun entry => entry.1 > now) }, s.2)

/-- What `run` does with the message that remains, or after a registration.
`none` is the panic of `now + ttl`. -/
def settle (p : Platform M R W) (now : Instant) (remain : Option M) (connected : Bool)
    (s : BusController M R × W) : Option (BusController M R × W) :=
  match remain with
  | some remain =>
    if (p.selector remain).ttl.isZero then some s
    else (now.add (p.selector remain).ttl).map
      (fun expire => ({ s.1 with messageBuffer := s.1.messageBuffer ++ [(expire, remain)] }, s.2))
  | none => some (if connected && !s.1.messageBuffer.isEmpty then flush p now s else s)

/-- One turn of the loop in `run`, after `io_hub.recv` has returned a message and
the clock has been read. -/
def handle (p : Platform M R W) (now : Instant) (c : BusController M R) (w : W) (msg : M) :
    Option (BusController M R × W) :=
  let handled := handleMessage p c w msg
  (settle p now handled.1.1 handled.1.2 handled.2).map
    (fun s => maintain now (detectReachable p now s))

/-- One iteration of the loop: what the other threads and processes did in the
meantime, what `io_hub.recv` returned, and the clock reading. -/
structure Iteration (M R W : Type) where
  interfere : W → W
  received : Except (Error R) M
  now : Instant

def iterate (p : Platform M R W) (s : BusController M R × W) (it : Iteration M R W) :
    Option (BusController M R × W) :=
  let w := it.interfere s.2
  match it.received with
  | .error (.versionMismatch _ (some remote)) =>
    some (s.1, (reply p w (Selector.unicast .true) (.errVersion p.version) remote).2)
  | .error _ => some (s.1, w)
  | .ok msg => handle p it.now s.1 w msg

end Ipmb.Controller
