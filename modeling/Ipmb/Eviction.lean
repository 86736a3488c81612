import Ipmb.Admission
import Ipmb.Calls
import Ipmb.PlainHost

namespace Ipmb.Eviction

open Labels Messages Time Buffers Encoding Decoding Reference Backend Retain Controller Routing
  Calls Admission Relay Linux PlainHost

section Calls

variable {M R W : Type}

/-- The call removes only endpoints whose peer is gone. -/
def SparesLive (p : Platform M R W) (gone : W → R → Prop) (call : BusController M R × W × M) : Prop :=
  ∀ ep ∈ call.1.endpoints,
    ep ∈ (handleMessage p call.1 call.2.1 call.2.2).2.1.endpoints ∨
      gone (handleMessage p call.1 call.2.1 call.2.2).2.2 ep.remote

theorem offerLocal_endpoints (p : Platform M R W) (c : BusController M R) (routed : Bool) (w : W)
    (msg : M) : (offerLocal p c routed w msg).2.1.endpoints = c.endpoints := by
  cases h : offeredLocal p msg c routed with
  | true => rw [offerLocal_offered h]
  | false => rw [offerLocal_passed h]

/-- An endpoint that is tried stays, unless the connection is found lost. -/
theorem tryEndpoint_cases {p : Platform M R W} (hp : p.SendsOrDisconnects) {msg : M} {ep : Endpoint R}
    {b : Bool} {w : W} (ho : offered p msg ep b = true) :
    tryEndpoint p msg ep (b, w) = (true, true, (p.send w msg ep.remote).2) ∨
      (p.send w msg ep.remote).1 = .error .disconnect ∧
        tryEndpoint p msg ep (b, w) = (false, b, (p.send w msg ep.remote).2) := by
  have hout := hp w msg ep.remote
  rw [tryEndpoint_offered ho]
  generalize p.send w msg ep.remote = sent at hout ⊢
  obtain ⟨out, w'⟩ := sent
  obtain rfl | rfl := hout
  · exact Or.inl rfl
  · exact Or.inr ⟨rfl, rfl⟩

/-- A closed peer stays closed over the loop and the local channel. -/
theorem gone_retain {p : Platform M R W} {gone : W → R → Prop} {msg : M} {r : R}
    (hsend : ∀ w remote, gone w r → gone (p.send w msg remote).2 r) (eps : List (Endpoint R))
    {s : Bool × W} (h : gone s.2 r) : gone (retain (tryEndpoint p msg) eps s).2.2 r := by
  apply retain_invariant (tryEndpoint p msg) (fun _ _ s => gone s.2 r) eps [] [] s h
  rintro _ _ ep ⟨b, w⟩ _ hs
  cases ho : offered p msg ep b with
  | false => rwa [tryEndpoint_passed ho]
  | true =>
    have hg := hsend w ep.remote hs
    rw [tryEndpoint_offered ho]
    generalize p.send w msg ep.remote = sent at hg ⊢
    obtain ⟨e | u, w'⟩ := sent
    · cases e <;> exact hg
    · exact hg

theorem gone_offerLocal {p : Platform M R W} {gone : W → R → Prop} {r : R}
    (hdropped : ∀ w, gone w r → gone (p.receiverDropped w).2 r) (c : BusController M R) (routed : Bool)
    {w : W} (msg : M) (h : gone w r) : gone (offerLocal p c routed w msg).2.2 r := by
  cases hl : offeredLocal p msg c routed with
  | true =>
    rw [offerLocal_offered hl]
    exact hdropped w h
  | false => rwa [offerLocal_passed hl]

/-- The endpoints a message matches are tried in table order, so the ones behind a peer
that takes a unicast message are of no account. -/
def Deliverable (p : Platform M R W) (sendable : W → M → R → Prop) (stays : W → R → Prop)
    (w : W) (msg : M) : List (Endpoint R) → Prop
  | [] => True
  | ep :: eps =>
    if (p.selector msg).labelOp.validate ep.label = true then
      sendable w msg ep.remote ∧
        ((p.selector msg).mode = .unicast ∧ stays w ep.remote ∨ Deliverable p sendable stays w msg eps)
    else Deliverable p sendable stays w msg eps

end Calls

variable {W : Type} {host : Host W} {gone stays : W → RawFd → Prop} {sndbuf : RawFd → Nat}
  {opened : W → RawFd → Prop} {calm : W → Prop} (hk : host.Documented gone stays sndbuf opened calm)
  {codec : Codec} {control : Control} {version : Version}
include hk

theorem Deliverable.send {w : W} {msg : EncodedMessage} {eps : List (Endpoint RawFd)} (remote : RawFd)
    (h : Deliverable (linux host codec control version) (Sendable host sndbuf opened calm) stays w msg
      eps) :
    Deliverable (linux host codec control version) (Sendable host sndbuf opened calm) stays
      (Linux.send host w msg remote).2 msg eps := by
  induction eps with
  | nil => trivial
  | cons ep eps ih =>
    rw [Deliverable] at h ⊢
    split
    · rename_i hv
      rw [if_pos hv] at h
      exact ⟨h.1.send hk remote, h.2.imp (fun hu => ⟨hu.1, stays_send hk hu.2⟩) ih⟩
    · rename_i hv
      rw [if_neg hv] at h
      exact ih h

/-- The loop over the table evicts only what is gone. -/
theorem retain_spares {msg : EncodedMessage} {eps : List (Endpoint RawFd)} {b : Bool} {w : W}
    (h : (b && msg.selector.mode == .unicast) = true ∨
      Deliverable (linux host codec control version) (Sendable host sndbuf opened calm) stays w msg
        eps) :
    ∀ ep ∈ eps, ep ∈ (retain (tryEndpoint (linux host codec control version) msg) eps (b, w)).1 ∨
      gone (retain (tryEndpoint (linux host codec control version) msg) eps (b, w)).2.2 ep.remote := by
  induction eps generalizing b w with
  | nil => simp
  | cons ep eps ih =>
    rw [retain_cons, List.forall_mem_cons]
    by_cases hr : (b && msg.selector.mode == .unicast) = true
    · have htry : tryEndpoint (linux host codec control version) msg ep (b, w) = (true, b, w) :=
        tryEndpoint_passed (by simp [offered, linux, hr]) w
      rw [htry, if_pos rfl]
      exact ⟨Or.inl (List.mem_cons_self ..),
        fun x hx => (ih (Or.inl hr) x hx).imp (List.mem_cons_of_mem ep) id⟩
    · have hd := h.resolve_left hr
      rw [Deliverable] at hd
      by_cases hv : msg.selector.labelOp.validate ep.label = true
      · have hd' := (if_pos hv).mp hd
        obtain ⟨hs, hrest⟩ := hd'
        have hlater := hrest.imp_right (Deliverable.send hk ep.remote)
        have ho : offered (linux host codec control version) msg ep b = true := by
          simp [offered, matching, linux, hr, hv]
        rcases tryEndpoint_cases (linux_sendsOrDisconnects host codec control version) ho with
          htry | ⟨herr, htry⟩
        · rw [htry, if_pos rfl]
          refine ⟨Or.inl (List.mem_cons_self ..), ?_⟩
          intro x hx
          refine (ih (hlater.imp_left ?_) x hx).imp (List.mem_cons_of_mem ep) id
          rintro ⟨hu, -⟩
          exact decide_eq_true hu
        · have hgone := hs.gone_of_error hk herr
          rw [htry]
          refine ⟨Or.inr (gone_retain (fun _ _ => gone_send hk) eps hgone), ?_⟩
          exact ih (Or.inr (hlater.resolve_left fun hu =>
            hk.stays_not_gone (stays_send hk hu.2) hgone))
      · have htry : tryEndpoint (linux host codec control version) msg ep (b, w) = (true, b, w) :=
          tryEndpoint_passed (by simp [offered, matching, linux, hv]) w
        have hrest := (if_neg hv).mp hd
        rw [htry, if_pos rfl]
        exact ⟨Or.inl (List.mem_cons_self ..),
          fun x hx => (ih (Or.inr hrest) x hx).imp (List.mem_cons_of_mem ep) id⟩

theorem handleMessage_spares (call : BusController EncodedMessage RawFd × W × EncodedMessage)
    (h : call.2.2.selector.uuid ≠ ConnectMessage.uuid →
      Deliverable (linux host codec control version) (Sendable host sndbuf opened calm) stays
        call.2.1 call.2.2 call.1.endpoints) :
    SparesLive (linux host codec control version) gone call := by
  obtain ⟨c, w, msg⟩ := call
  intro ep hep
  rw [handleMessage]
  by_cases hc : ((linux host codec control version).selector msg).uuid = ConnectMessage.uuid
  · rw [if_pos hc]
    have hcases := endpointConnect_cases (linux host codec control version) c w msg hc
    obtain ⟨-, hkeep⟩ | ⟨new, -, -, hadd⟩ := hcases
    · exact Or.inl (hkeep.symm ▸ hep)
    · exact Or.inl (hadd.symm ▸ List.mem_append_left _ hep)
  · rw [if_neg hc]
    change ep ∈ (route _ c w msg).2.1.endpoints ∨ gone (route _ c w msg).2.2 ep.remote
    rw [route]
    rw [offerLocal_endpoints]
    exact (retain_spares hk (Or.inr (h hc)) ep hep).imp_right
      (gone_offerLocal (fun _ => hk.gone_dropped) _ _ msg)

/-- In every run, as long as nothing but a closed peer keeps a message from being sent to
the endpoints it is tried on, only endpoints whose peer is gone are removed. -/
theorem live_endpoints_spared (s : BusController EncodedMessage RawFd × W)
    (its : List (Iteration EncodedMessage RawFd W))
    (h : EveryCall (linux host codec control version) (fun call =>
      call.2.2.selector.uuid ≠ ConnectMessage.uuid →
        Deliverable (linux host codec control version) (Sendable host sndbuf opened calm) stays
          call.2.1 call.2.2 call.1.endpoints) s its) :
    EveryCall (linux host codec control version) (SparesLive (linux host codec control version) gone)
      s its :=
  h.imp (handleMessage_spares hk)

omit hk

theorem live_endpoints_spared_object :
    EveryCall plainLinux (SparesLive plainLinux HungUp) (new ⟨[]⟩ "token" (.ofNanos 0), [])
      [receive request,
        receive (intoEncoded plainCodec ⟨0, 8, 5⟩ (withObjects [4]) zeroHeap)] := by
  refine live_endpoints_spared plainHost_documented _ _ ⟨?_, fun t ht => ⟨?_, fun _ _ => trivial⟩⟩
  · intro call hc hne
    cases List.mem_singleton.mp hc
    exact absurd rfl hne
  · obtain rfl := Option.some.inj ht
    intro call hc _
    cases List.mem_singleton.mp hc
    refine (if_pos rfl).mpr ⟨⟨trivial, by decide, [4], rfl, fun _ _ => trivial⟩, Or.inr trivial⟩

/-- A message without attachments is received and passed on: the control area that comes
with it is no control record, and the endpoint is removed although its peer is there. -/
theorem bare_message_evicts :
    plainHost.Documented HungUp (fun w r => ¬ HungUp w r) (fun _ => 212960) (fun _ _ => True)
      (fun _ => True) ∧
    ∃ bare, fromLocal plainHost.kernel plainCodec ⟨0, 8, 5⟩ zeroHeap
        (some ⟨(intoEncoded plainCodec ⟨0, 8, 5⟩ (withObjects []) zeroHeap).iovData, []⟩) = .ok bare ∧
      ¬ EveryCall plainLinux (SparesLive plainLinux HungUp) (new ⟨[]⟩ "token" (.ofNanos 0), [])
        [receive request, receive bare] := by
  refine ⟨plainHost_documented, _, rfl, ?_⟩
  intro h
  have hcall := (h.2 _ rfl).1 _ (List.mem_cons_self ..) ⟨1, ⟨["a"]⟩, 7⟩ (List.mem_cons_self ..)
  obtain hstay | hgone := hcall
  · exact List.not_mem_nil hstay
  · exact List.not_mem_nil hgone

end Ipmb.Eviction
