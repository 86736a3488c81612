import Ipmb.Destinations

namespace Ipmb.Admission

open Messages Time Backend Controller Journal Destinations

variable {M R W : Type}

/-- The connect request `msg` is one that registers the endpoint `ep`. -/
structure Admits (p : Platform M R W) (c : BusController M R) (w : W) (msg : M) (ep : Endpoint R) :
    Prop where
  request : (p.selector msg).uuid = ConnectMessage.uuid
  remote : (p.extractRemote msg).1 = some ep.remote
  payload : ∃ payload, p.decodeConnect (p.payloadData (p.extractRemote msg).2) = some payload ∧
    payload.version.compatible p.version = true ∧ payload.token = c.token ∧ payload.label = ep.label
  id : ep.id = (p.newEndpointID w).1
  acked : (reply p (p.newEndpointID w).2 (p.selector (p.extractRemote msg).2) (.ok ep.id)
    ep.remote).1.isOk = true
  fresh : c.endpoints.any (fun e => e.label == ep.label && p.sameRemote e.remote ep.remote) = false

/-- Either nothing changes in the controller, or one admitted endpoint is appended. -/
theorem endpointConnect_cases (p : Platform M R W) (c : BusController M R) (w : W) (msg : M)
    (hc : (p.selector msg).uuid = ConnectMessage.uuid) :
    (endpointConnect p c w msg).1 = false ∧ (endpointConnect p c w msg).2.1 = c ∨
      ∃ ep, Admits p c w msg ep ∧ (endpointConnect p c w msg).1 = true ∧
        (endpointConnect p c w msg).2.1 = { c with endpoints := c.endpoints ++ [ep] } := by
  rw [endpointConnect]
  rcases hx : p.extractRemote msg with ⟨_ | remote, msg'⟩
  · exact Or.inl ⟨rfl, rfl⟩
  · cases hd : p.decodeConnect (p.payloadData msg') with
    | none =>
      simp only [hd]
      exact Or.inl ⟨trivial, trivial⟩
    | some payload =>
      simp only [hd]
      by_cases hv : payload.version.compatible p.version = true
      · by_cases ht : payload.token = c.token
        · simp only [hv, ht, Bool.not_true, Bool.false_eq_true, ne_eq, not_true, if_false]
          rcases hr : reply p (p.newEndpointID w).2 (p.selector msg') (.ok (p.newEndpointID w).1)
            remote with ⟨e | u, w'⟩
          · exact Or.inl ⟨rfl, rfl⟩
          · simp only
            by_cases hany : c.endpoints.any
              (fun ep => ep.label == payload.label && p.sameRemote ep.remote remote) = true
            · rw [if_pos hany]
              exact Or.inl ⟨rfl, rfl⟩
            · rw [if_neg hany]
              refine Or.inr ⟨⟨(p.newEndpointID w).1, payload.label, remote⟩, ?_, rfl, rfl⟩
              refine ⟨hc, by rw [hx], ⟨payload, by rw [hx]; exact hd, hv, ht, rfl⟩, rfl, ?_, ?_⟩
              · rw [hx, hr]
                rfl
              · exact Bool.not_eq_true _ ▸ hany
        · simp only [hv, ht, Bool.not_true, Bool.false_eq_true, ne_eq, not_false_iff, if_false, if_true]
          exact Or.inl ⟨trivial, trivial⟩
      · simp only [hv, Bool.not_false, if_true]
        exact Or.inl ⟨trivial, trivial⟩

variable {p : Platform M R W}

/-- Sends that carry an acknowledgement, not a received message. -/
def Acks (acks : List (Attempt M R)) : Prop := ∀ a ∈ acks, a.message.tag = none

theorem reply_log (w : W × List (Attempt M R)) (selector : Selector) (ack : ConnectMessageAck)
    (remote : Tagged R) :
    ∃ acks, (reply (journal p) w selector ack remote).2.2 = w.2 ++ acks ∧ Acks acks := by
  refine ⟨_, rfl, ?_⟩
  intro a ha
  rw [List.mem_singleton] at ha
  subst ha
  rfl

theorem endpointConnect_log (c : BusController (Tagged M) (Tagged R)) (w : W × List (Attempt M R))
    (msg : Tagged M) :
    ∃ acks, (endpointConnect (journal p) c w msg).2.2.2 = w.2 ++ acks ∧ Acks acks := by
  have hnil : ∃ acks : List (Attempt M R), w.2 = w.2 ++ acks ∧ Acks acks :=
    ⟨[], (List.append_nil _).symm, by simp [Acks]⟩
  rw [endpointConnect]
  obtain ⟨_ | remote, msg'⟩ := (journal p).extractRemote msg
  · exact hnil
  · cases hd : (journal p).decodeConnect ((journal p).payloadData msg') with
    | none =>
      simp only [hd]
      exact reply_log w _ _ remote
    | some payload =>
      simp only [hd]
      split
      · exact reply_log w _ _ remote
      · split
        · exact reply_log w _ _ remote
        · have hr := reply_log (p := p) ((journal p).newEndpointID w).2 ((journal p).selector msg')
            (.ok ((journal p).newEndpointID w).1) remote
          simp only [journal_newEndpointID] at hr ⊢
          rcases hs : reply (journal p) ((p.newEndpointID w.1).2, w.2) ((journal p).selector msg')
            (.ok (p.newEndpointID w.1).1) remote with ⟨e | u, w'⟩
          · rw [hs] at hr
            exact hr
          · rw [hs] at hr
            simp only
            split
            · exact hr
            · exact hr

/-- Acknowledgements deliver no message. -/
theorem acceptedBy_acks {s s' : State M R W} {acks : List (Attempt M R)} (h : Acks acks)
    (hlog : s'.2.2 = s.2.2 ++ acks) (hq : s'.1.sender = s.1.sender) :
    acceptedBy s' = acceptedBy s := by
  funext d
  cases d with
  | endpoint k =>
    have hnone : acks.filterMap (takenBy k) = [] := by
      rw [List.filterMap_eq_nil_iff]
      intro a ha
      simp [takenBy, h a ha]
    simp only [acceptedBy, hlog, List.filterMap_append, hnone, List.append_nil]
  | own => simp only [acceptedBy, hq]

/-- The endpoint a connect request registers carries the number of the request. -/
theorem Admits.stamp {c : BusController (Tagged M) (Tagged R)} {w : W × List (Attempt M R)}
    {msg : Tagged M} {ep : Endpoint (Tagged R)} (h : Admits (journal p) c w msg ep) :
    ep.remote.tag = msg.tag := by
  have hr := h.remote
  simp only [journal_extractRemote, Option.map_eq_some_iff] at hr
  obtain ⟨r, -, hr⟩ := hr
  rw [← hr]

theorem Admits.erase {c : BusController (Tagged M) (Tagged R)} {w : W × List (Attempt M R)}
    {msg : Tagged M} {ep : Endpoint (Tagged R)} (h : Admits (journal p) c w msg ep) :
    Admits p (erase c) w.1 msg.val (eraseEndpoint ep) where
  request := h.request
  remote := by
    have hr := h.remote
    simp only [journal_extractRemote, Option.map_eq_some_iff] at hr
    obtain ⟨r, hr, he⟩ := hr
    rw [hr, eraseEndpoint, ← he]
  payload := h.payload
  id := h.id
  acked := by
    have hr := reply_erase p ((p.newEndpointID w.1).2, w.2) (p.selector (p.extractRemote msg.val).2)
      (.ok ep.id) ep.remote
    exact hr.1.symm.trans h.acked
  fresh := by
    rw [← h.fresh, Journal.erase, List.any_map]
    rfl

end Ipmb.Admission
