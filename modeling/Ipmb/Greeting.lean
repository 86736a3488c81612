import Ipmb.Loopback
import Ipmb.Registration

namespace Ipmb.Greeting

open Messages Time Backend Run Controller Journal Routing Destinations Admission Accounting Turns
  Conservation Registration Loopback

variable {M R W : Type} {p : Platform M R W} {its : List (Iteration M R W)} {it : Iteration M R W}
  {token : String} {now : Instant} {s s' : State M R W}

/-- The attempts over the remote with this tag. -/
def sentOver (tag : Option Nat) (log : List (Attempt M R)) : List (Attempt M R) :=
  log.filter (fun a => a.remote.tag == tag)

/-- The remote has accepted the acknowledgement that carries the identifier of the endpoint. -/
structure Welcome (p : Platform M R W) (ep : Endpoint (Tagged R)) (a : Attempt M R) : Prop where
  remote : a.remote = ep.remote
  accepted : a.accepted = true
  message : ∃ w selector, a.message = ⟨none, (p.encodeAck w selector (.ok ep.id)).1⟩

/-- The first send over the `Remote` value of the endpoint is its acknowledgement. Only received
messages follow. -/
def Greeted (p : Platform M R W) (log : List (Attempt M R)) (ep : Endpoint (Tagged R)) : Prop :=
  ∃ ack rest, sentOver ep.remote.tag log = ack :: rest ∧ Welcome p ep ack ∧
    ∀ a ∈ rest, a.message.tag ≠ none

/-- The endpoints differ in their labels or in their remotes. -/
def Distinct (p : Platform M R W) (ep ep' : Endpoint (Tagged R)) : Prop :=
  (ep.label == ep'.label && p.sameRemote ep.remote.val ep'.remote.val) = false

theorem Greeted.append {log more : List (Attempt M R)} {ep : Endpoint (Tagged R)}
    (h : Greeted p log ep)
    (hmore : ∀ a ∈ more, a.remote.tag = ep.remote.tag → a.message.tag ≠ none) :
    Greeted p (log ++ more) ep := by
  obtain ⟨ack, rest, hover, hack, hrest⟩ := h
  refine ⟨ack, rest ++ sentOver ep.remote.tag more, ?_, hack, ?_⟩
  · rw [sentOver, List.filter_append, ← sentOver, hover]
    rfl
  · intro a ha
    obtain ha | ha := List.mem_append.mp ha
    · exact hrest a ha
    · obtain ⟨ha, htag⟩ := List.mem_filter.mp ha
      exact hmore a ha (beq_iff_eq.mp htag)

/-- The remote came with a message, or with the error that a message was given up with. -/
def Introduced (its : List (Iteration M R W)) : Option Nat → Prop
  | some k => ∃ it msg, Received its k it msg
  | none => ∃ it ∈ its, ∃ v remote, it.received = .error (.versionMismatch v (some remote))

theorem Introduced.append {tag : Option Nat} (h : Introduced its tag) (its' : List (Iteration M R W)) :
    Introduced (its ++ its') tag := by
  cases tag with
  | some k =>
    obtain ⟨it, msg, hr⟩ := h
    exact ⟨it, msg, hr.append its'⟩
  | none =>
    obtain ⟨it, hit, he⟩ := h
    exact ⟨it, List.mem_append_left _ hit, he⟩

/-- The endpoint that a received message is sent to has been requested, with a label that
the message is meant for. -/
def Meant (p : Platform M R W) (token : String) (its : List (Iteration M R W)) (a : Attempt M R) : Prop :=
  ∃ ep, Requested p token its ep ∧ a.remote = ep.remote ∧ matching p a.message.val ep.label = true

theorem Meant.append {a : Attempt M R} (h : Meant p token its a) (its' : List (Iteration M R W)) :
    Meant p token (its ++ its') a := by
  obtain ⟨ep, hep, hrem, hm⟩ := h
  exact ⟨ep, hep.append its', hrem, hm⟩

/-- What holds of the endpoints and the journal between two iterations. -/
structure Greetings (p : Platform M R W) (token : String) (its : List (Iteration M R W))
    (s : State M R W) : Prop where
  secret : s.1.token = token
  log : ∀ a ∈ s.2.2, Introduced its a.remote.tag
  meant : ∀ a ∈ s.2.2, a.message.tag ≠ none → Meant p token its a
  endpoints : ∀ ep ∈ s.1.endpoints, Requested p token its ep
  greeted : ∀ ep ∈ s.1.endpoints, Greeted p s.2.2 ep
  distinct : s.1.endpoints.Pairwise (Distinct p)

/-- More is sent: received messages to whom they are meant for, or anything else over
remotes with new tags. -/
theorem Greetings.frame {its' : List (Iteration M R W)} {more : List (Attempt M R)}
    (h : Greetings p token its s) (htoken : s'.1.token = s.1.token)
    (hends : s'.1.endpoints.Sublist s.1.endpoints) (hlog : s'.2.2 = s.2.2 ++ more)
    (hknown : ∀ a ∈ more, Introduced (its ++ its') a.remote.tag)
    (hmore : ∀ a ∈ more, a.message.tag ≠ none ∧ Meant p token (its ++ its') a ∨
      a.message.tag = none ∧ ∀ k, a.remote.tag = some k → its.length ≤ k) :
    Greetings p token (its ++ its') s' where
  secret := htoken.trans h.secret
  log a ha := by
    rw [hlog] at ha
    obtain ha | ha := List.mem_append.mp ha
    · exact (h.log a ha).append its'
    · exact hknown a ha
  meant a ha htag := by
    rw [hlog] at ha
    obtain ha | ha := List.mem_append.mp ha
    · exact (h.meant a ha htag).append its'
    · exact ((hmore a ha).resolve_right fun hnone => htag hnone.1).2
  endpoints ep hep := (h.endpoints ep (hends.subset hep)).append its'
  greeted ep hep := by
    rw [hlog]
    apply (h.greeted ep (hends.subset hep)).append
    intro a ha htag
    obtain ⟨k, it, msg, hep, hr, -⟩ := h.endpoints ep (hends.subset hep)
    obtain hm | hnew := hmore a ha
    · exact hm.1
    · exact absurd (hnew.2 k (htag.trans hep)) (Nat.not_le.mpr hr.lt)
  distinct := h.distinct.sublist hends

/-- Nothing is sent, and no endpoint is added. -/
theorem Greetings.extend (h : Greetings p token its s) (its' : List (Iteration M R W))
    (htoken : s'.1.token = s.1.token) (hends : s'.1.endpoints.Sublist s.1.endpoints)
    (hlog : s'.2.2 = s.2.2) : Greetings p token (its ++ its') s' :=
  h.frame htoken hends (hlog.trans (List.append_nil _).symm) (by simp) (by simp)

theorem Greetings.same (h : Greetings p token its s) (htoken : s'.1.token = s.1.token)
    (hends : s'.1.endpoints.Sublist s.1.endpoints) (hlog : s'.2.2 = s.2.2) :
    Greetings p token its s' := by
  have hs := h.extend [] htoken hends hlog
  rwa [List.append_nil] at hs

/-- Something is sent over a remote that has just come. -/
theorem Greetings.answer {a : Attempt M R} {msg : M} (h : Greetings p token its s)
    (hm : it.received = .ok msg) (hc : s'.1 = s.1) (hlog : s'.2.2 = s.2.2 ++ [a])
    (hnone : a.message.tag = none) (htag : a.remote.tag = some its.length) :
    Greetings p token (its ++ [it]) s' := by
  apply h.frame (by rw [hc]) (hc ▸ List.Sublist.refl _) hlog
  · intro b hb
    cases List.mem_singleton.mp hb
    rw [htag]
    exact ⟨it, msg, Received.last hm⟩
  · intro b hb
    cases List.mem_singleton.mp hb
    refine Or.inr ⟨hnone, fun k hk => ?_⟩
    cases htag.symm.trans hk
    exact Nat.le_refl _

/-- An endpoint is added with its acknowledgement. -/
theorem Greetings.register {ep : Endpoint (Tagged R)} {ack : Attempt M R} {msg : M} {w : W}
    (h : Greetings p token its s) (hm : it.received = .ok msg)
    (htag : ep.remote.tag = some its.length) (hreq : Request p token msg ep.label ep.remote.val)
    (hack : Welcome p ep ack) (hnew : ∀ e ∈ s.1.endpoints, Distinct p e ep) :
    Greetings p token (its ++ [it])
      ({ s.1 with endpoints := s.1.endpoints ++ [ep] }, w, s.2.2 ++ [ack]) := by
  have htag' : ack.remote.tag = some its.length := by rw [hack.remote, htag]
  have hnone : ack.message.tag = none := by
    obtain ⟨w, selector, hmsg⟩ := hack.message
    rw [hmsg]
  have hold : Greetings p token (its ++ [it]) (s.1, w, s.2.2 ++ [ack]) :=
    h.answer hm rfl rfl hnone htag'
  have hfirst : sentOver (some its.length) s.2.2 = [] := by
    rw [sentOver, List.filter_eq_nil_iff]
    intro a ha heq
    have hknown := h.log a ha
    rw [beq_iff_eq.mp heq] at hknown
    obtain ⟨it, msg, hr⟩ := hknown
    exact Nat.lt_irrefl _ hr.lt
  refine ⟨hold.secret, hold.log, hold.meant, ?_, ?_, ?_⟩
  · intro e he
    obtain he | he := List.mem_append.mp he
    · exact hold.endpoints e he
    · cases List.mem_singleton.mp he
      exact ⟨its.length, it, msg, htag, Received.last hm, hreq⟩
  · intro e he
    obtain he | he := List.mem_append.mp he
    · exact hold.greeted e he
    · cases List.mem_singleton.mp he
      refine ⟨ack, [], ?_, hack, by simp⟩
      rw [htag, sentOver, List.filter_append, ← sentOver, hfirst]
      simp [htag']
  · refine List.pairwise_append.mpr ⟨h.distinct, List.pairwise_singleton _ _, fun e he e' he' => ?_⟩
    cases List.mem_singleton.mp he'
    exact hnew e he

theorem route_greetings (h : Greetings p token its s) {msg : Tagged M} (htag : msg.tag ≠ none) :
    Greetings p token its (route (journal p) s.1 s.2 msg).2 := by
  obtain ⟨tries, sent, hr⟩ := route_spec p msg s.1 s.2
  generalize route (journal p) s.1 s.2 msg = r at hr ⊢
  have hmeant : ∀ a ∈ tries, Meant p token its a := by
    intro a ha
    obtain ⟨ep, hep, hrem, hm⟩ := hr.matched a ha
    exact ⟨ep, h.endpoints ep hep, hrem, hr.message a ha ▸ hm⟩
  rw [← List.append_nil its] at hmeant ⊢
  apply h.frame (by rw [hr.frame]) hr.kept hr.log_eq
  · intro a ha
    obtain ⟨ep, ⟨k, it, msg, hk, hrec, -⟩, hrem, -⟩ := hmeant a ha
    rw [hrem, hk]
    exact ⟨it, msg, hrec⟩
  · intro a ha
    exact Or.inl ⟨hr.message a ha ▸ htag, hmeant a ha⟩

theorem pass_greetings {e : Instant × Tagged M} (h : Greetings p token its s) (htag : e.2.tag ≠ none)
    (hpass : Pass p now s e s') : Greetings p token its s' := by
  have hr := route_greetings h htag
  cases hpass with
  | delivered _ => exact hr
  | kept _ _ => exact hr.same rfl (List.Sublist.refl _) rfl
  | expired _ _ => exact hr

theorem flush_greetings (hrouted : ∀ e ∈ s.1.messageBuffer, p.Routed e.2.val)
    (htag : ∀ e ∈ s.1.messageBuffer, e.2.tag ≠ none) (h : Greetings p token its s) :
    Greetings p token its (flush (journal p) now s) := by
  obtain ⟨u, hu, heq⟩ := flush_invariant (p := p) now (fun _ u => Greetings p token its u) s hrouted
    (h.same rfl (List.Sublist.refl _) rfl) (fun e _ _ _ he hu hpass => pass_greetings hu (htag e he) hpass)
  rw [heq]
  exact hu.same rfl (List.Sublist.refl _) rfl

theorem reply_attempt (p : Platform M R W) (w : W × List (Attempt M R)) (selector : Selector)
    (ack : ConnectMessageAck) (remote : Tagged R) :
    ∃ a : Attempt M R, (reply (journal p) w selector ack remote).2.2 = w.2 ++ [a] ∧
      a.remote = remote ∧ a.message = ⟨none, (p.encodeAck w.1 selector ack).1⟩ ∧
      a.accepted = (reply (journal p) w selector ack remote).1.isOk := by
  refine ⟨_, rfl, rfl, rfl, ?_⟩
  rw [(reply_erase p w selector ack remote).1]
  rfl

/-- A connect request is answered over its own remote, if at all, and registers an endpoint
only after a welcome. -/
theorem endpointConnect_greetings {msg : M} (h : Greetings p token its s) (hm : it.received = .ok msg)
    (hc : (p.selector msg).uuid = ConnectMessage.uuid) :
    Greetings p token (its ++ [it]) (endpointConnect (journal p) s.1 s.2 ⟨some its.length, msg⟩).2 := by
  rw [endpointConnect]
  simp only [journal_extractRemote]
  cases hx : (p.extractRemote msg).1 with
  | none => exact h.extend [it] rfl (List.Sublist.refl _) rfl
  | some remote =>
    simp only [Option.map_some]
    have hrejected : ∀ ack, Greetings p token (its ++ [it]) (s.1, (reply (journal p) s.2
        ((journal p).selector ⟨some its.length, (p.extractRemote msg).2⟩) ack
        ⟨some its.length, remote⟩).2) := by
      intro ack
      obtain ⟨a, hlog, hrem, hmsg, -⟩ := reply_attempt p s.2
        ((journal p).selector ⟨some its.length, (p.extractRemote msg).2⟩) ack ⟨some its.length, remote⟩
      exact h.answer hm rfl hlog (by rw [hmsg]) (by rw [hrem])
    cases hd : (journal p).decodeConnect
        ((journal p).payloadData ⟨some its.length, (p.extractRemote msg).2⟩) with
    | none => exact hrejected _
    | some payload =>
      simp only
      split
      · exact hrejected _
      · rename_i hv
        split
        · exact hrejected _
        · rename_i ht
          obtain ⟨a, hlog, hrem, hmsg, hok⟩ := reply_attempt p ((p.newEndpointID s.2.1).2, s.2.2)
            ((journal p).selector ⟨some its.length, (p.extractRemote msg).2⟩)
            (.ok (p.newEndpointID s.2.1).1) ⟨some its.length, remote⟩
          simp only [journal_newEndpointID]
          generalize reply (journal p) ((p.newEndpointID s.2.1).2, s.2.2) _ _ _ = r at hlog hok ⊢
          obtain ⟨e | u, w, log⟩ := r
          · exact h.answer hm rfl hlog (by rw [hmsg]) (by rw [hrem])
          · simp only
            split
            · exact h.answer hm rfl hlog (by rw [hmsg]) (by rw [hrem])
            · rename_i hany
              obtain rfl : log = s.2.2 ++ [a] := hlog
              refine h.register hm rfl ⟨hc, hx, payload, hd, by simpa using hv, ?_, rfl⟩
                ⟨hrem, hok, _, _, hmsg⟩ fun e he => ?_
              · rw [← h.secret]
                exact not_not.mp ht
              · exact Bool.eq_false_iff.mpr (List.any_eq_false.mp (Bool.eq_false_iff.mpr hany) e he)

theorem endpointConnect_buffer (c : BusController M R) (w : W) (msg : M)
    (hc : (p.selector msg).uuid = ConnectMessage.uuid) :
    (endpointConnect p c w msg).2.1.messageBuffer = c.messageBuffer := by
  obtain ⟨-, heq⟩ | ⟨ep, -, -, heq⟩ := endpointConnect_cases p c w msg hc
  · rw [heq]
  · rw [heq]

theorem turn_greetings {msg : M} (hb : Between p its s) (h : Greetings p token its s)
    (hm : it.received = .ok msg)
    (ht : settle (journal p) now (handleMessage (journal p) s.1 s.2 ⟨some its.length, msg⟩).1.1
      (handleMessage (journal p) s.1 s.2 ⟨some its.length, msg⟩).1.2
      (handleMessage (journal p) s.1 s.2 ⟨some its.length, msg⟩).2 = some s') :
    Greetings p token (its ++ [it]) s' := by
  have hsame : Greetings p token (its ++ [it]) s := h.extend [it] rfl (List.Sublist.refl _) rfl
  have hrouted : ∀ e ∈ s.1.messageBuffer, p.Routed e.2.val := fun e he => (hb.entries e he).routed
  have htagged : ∀ e ∈ s.1.messageBuffer, e.2.tag ≠ none := by
    intro e he
    obtain ⟨k, -, hk, -⟩ := hb.entries e he
    rw [hk]
    exact Option.some_ne_none k
  by_cases hp : p.Routed msg
  · have hr : Greetings p token (its ++ [it]) (route (journal p) s.1 s.2 ⟨some its.length, msg⟩).2 :=
      route_greetings hsame (Option.some_ne_none _)
    cases settle_turn ht with
    | quiet hn _ _ => exact absurd hp hn
    | admitted hn _ _ _ _ => exact absurd hp hn
    | flushed hn _ _ _ => exact absurd hp hn
    | delivered _ _ => exact hr
    | dropped _ _ _ => exact hr
    | kept _ _ _ _ => exact hr.same rfl (List.Sublist.refl _) rfl
  · by_cases hc : (p.selector msg).uuid = ConnectMessage.uuid
    · have hconnect : Greetings p token (its ++ [it])
          (endpointConnect (journal p) s.1 s.2 ⟨some its.length, msg⟩).2 :=
        endpointConnect_greetings h hm hc
      have hbuffer := endpointConnect_buffer (p := journal p) s.1 s.2 ⟨some its.length, msg⟩ hc
      simp only [handleMessage, journal_selector, hc, if_true, settle, Option.some.injEq] at ht
      rw [← ht]
      split
      · exact flush_greetings (hbuffer ▸ hrouted) (hbuffer ▸ htagged) hconnect
      · exact hconnect
    · cases hact : p.platformMessage (p.selector msg).uuid with
      | none => exact absurd ⟨hc, hact⟩ hp
      | some act =>
        simp only [handleMessage, journal_selector, hc, if_false, journal_platformMessage, hact,
          Option.map_some, settle, Bool.false_and, Bool.false_eq_true, Option.some.injEq] at ht
        rw [← ht]
        exact hsame.same rfl (List.Sublist.refl _) rfl

theorem iterate_greetings (hb : Between p its s) (h : Greetings p token its s)
    (hs : iterate (journal p) s (numbered its.length it) = some s') :
    Greetings p token (its ++ [it]) s' := by
  have hsame : ∀ w, Greetings p token (its ++ [it]) (s.1, w, s.2.2) := fun w =>
    h.extend [it] rfl (List.Sublist.refl _) rfl
  rw [iterate] at hs
  cases hr : it.received with
  | error e =>
    simp only [numbered, hr] at hs
    cases e with
    | versionMismatch v remote =>
      cases remote with
      | none => exact Option.some.inj hs ▸ hsame _
      | some remote =>
        -- the remote of a message that could not be parsed is nobody's
        obtain ⟨a, hlog, hrem, hmsg, -⟩ := reply_attempt p (it.interfere s.2.1, s.2.2)
          (Selector.unicast .true) (.errVersion p.version) ⟨none, remote⟩
        refine Option.some.inj hs ▸ h.frame rfl (List.Sublist.refl _) hlog ?_ ?_
        · intro b hb
          cases List.mem_singleton.mp hb
          rw [hrem]
          exact ⟨it, List.mem_append_right _ (List.mem_singleton_self it), v, remote, hr⟩
        · intro b hb
          cases List.mem_singleton.mp hb
          exact Or.inr ⟨by rw [hmsg], by simp [hrem]⟩
    | _ => exact Option.some.inj hs ▸ hsame _
  | ok msg =>
    simp only [numbered, hr, handle] at hs
    obtain ⟨v, hv, rfl⟩ := Option.map_eq_some_iff.mp hs
    have hu : Between p its (s.1, it.interfere s.2.1, s.2.2) :=
      hb.acks _ (List.append_nil _).symm (by simp [Acks])
    have hg : Greetings p token (its ++ [it]) v :=
      turn_greetings hu (h.same rfl (List.Sublist.refl _) rfl) hr hv
    obtain ⟨eps, w, t, hsub, heq⟩ := detectReachable_cases (p := p) it.now v
    rw [heq]
    exact hg.same rfl hsub rfl

theorem journalRun_greetings {label : Labels.Label} {w : W}
    (h : journalRun p (start label token now w) its = some s) : Greetings p token its s := by
  refine (run_mapIdx_invariant (fun its s => Between p its s ∧ Greetings p token its s)
    ⟨start_between label token now w, rfl, by simp [start], by simp [start], by simp [start, new],
      by simp [start, new], by simp [start, new]⟩ ?_ its s h).2
  rintro its u it v ⟨hb, hu⟩ hs
  exact ⟨iterate_between hb hs, iterate_greetings hb hu hs⟩

/-- The message asks to be registered, and may not be. -/
def Rejected (p : Platform M R W) (token : String) (w : W) (msg : M) : Prop :=
  (p.selector msg).uuid = ConnectMessage.uuid ∧
    ∀ remote, (p.extractRemote msg).1 = some remote →
      ∀ payload, p.decodeConnect (p.payloadData (p.extractRemote msg).2) = some payload →
        payload.version.compatible p.version = true → payload.token = token →
          (reply p (p.newEndpointID w).2 (p.selector (p.extractRemote msg).2)
            (.ok (p.newEndpointID w).1) remote).1.isOk = false

/-- A rejected request only makes the loop do what it does every time. -/
theorem iterate_rejected {c : BusController M R} {w : W} {it : Iteration M R W} {msg : M}
    (hm : it.received = .ok msg) (h : Rejected p c.token (it.interfere w) msg) :
    ∃ w', iterate p (c, w) it = some (maintain it.now (detectReachable p it.now (c, w'))) := by
  have hcases := endpointConnect_cases p c (it.interfere w) msg h.1
  have hnot : ∀ ep, ¬Admits p c (it.interfere w) msg ep := by
    intro ep hadm
    obtain ⟨payload, hd, hv, ht, -⟩ := hadm.payload
    have hacked := hadm.acked
    rw [hadm.id, h.2 ep.remote hadm.remote payload hd hv ht] at hacked
    cases hacked
  simp only [iterate, hm, handle, handleMessage, h.1, if_true]
  generalize endpointConnect p c (it.interfere w) msg = r at hcases ⊢
  obtain ⟨connected, c', w'⟩ := r
  obtain ⟨rfl, rfl⟩ | ⟨ep, hadm, -⟩ := hcases
  · exact ⟨w', rfl⟩
  · exact absurd hadm (hnot ep)

/-- The endpoint table after a run, and what a request that is turned down does to it. -/
structure Admitted (p : Platform M R W) (token : String) (its : List (Iteration M R W))
    (s : State M R W) : Prop where
  requested : ∀ ep ∈ s.1.endpoints, Requested p token its ep
  greeted : ∀ ep ∈ s.1.endpoints, Greeted p s.2.2 ep
  distinct : s.1.endpoints.Pairwise (Distinct p)
  routed : ∀ a ∈ s.2.2, a.message.tag ≠ none → ∃ ep, Requested p token its ep ∧ a.remote = ep.remote
  rejected : ∀ it msg, it.received = .ok msg → Rejected p token (it.interfere s.2.1) msg →
    ∃ w, iterate p (eraseState s) it =
      some (maintain it.now (detectReachable p it.now ((eraseState s).1, w)))
  unreadable : ∀ it e, it.received = .error e →
    ∃ w, iterate p (eraseState s) it = some ((eraseState s).1, w)

theorem iterate_unreadable {c : BusController M R} {w : W} {it : Iteration M R W} {e : Error R}
    (he : it.received = .error e) : ∃ w', iterate p (c, w) it = some (c, w') := by
  simp only [iterate, he]
  split
  · exact ⟨_, rfl⟩
  · exact ⟨_, rfl⟩
  · cases ‹Except.error e = Except.ok _›

/-- Only endpoints that have presented the token are in the table, each once, and each has
been welcomed before anything else. -/
theorem endpoints_admitted {label : Labels.Label} {w : W} {t : BusController M R × W}
    (h : run (iterate p) (new label token now, w) its = some t) :
    ∃ s, journalRun p (start label token now w) its = some s ∧ eraseState s = t ∧
      Admitted p token its s := by
  obtain ⟨s, hs, ht⟩ := exists_journalRun h
  have hg := journalRun_greetings hs
  refine ⟨s, hs, ht, hg.endpoints, hg.greeted, hg.distinct, fun a ha htag => ?_, fun it msg hm hr => ?_,
    fun it e he => iterate_unreadable he⟩
  · obtain ⟨ep, hep, hrem, -⟩ := hg.meant a ha htag
    exact ⟨ep, hep, hrem⟩
  · apply iterate_rejected (c := erase s.1) hm
    have htoken : (erase s.1).token = token := hg.secret
    rw [htoken]
    exact hr

/-- Of two requests for one label over different remotes, and a third one over a remote
that is already there. -/
def threeRequests : List (Iteration Mail Nat Net) :=
  [receive (connectMail 7) (.ofNanos 0), receive (connectMail 8) (.ofNanos 1),
    receive (connectMail 7) (.ofNanos 2), receive (mailTo "a" .multicast .zero) (.ofNanos 3)]

theorem endpoints_admitted_threeRequests :
    ∃ t s, run (iterate (loopback (sameRequest "a"))) (new ⟨["c"]⟩ "token" (.ofNanos 0), quietNet)
        threeRequests = some t ∧ t.1.endpoints.map Endpoint.remote = [7, 8] ∧
      journalRun (loopback (sameRequest "a")) (start ⟨["c"]⟩ "token" (.ofNanos 0) quietNet)
        threeRequests = some s ∧ eraseState s = t ∧
      Admitted (loopback (sameRequest "a")) "token" threeRequests s := by
  have hrun : (run (iterate (loopback (sameRequest "a"))) (new ⟨["c"]⟩ "token" (.ofNanos 0), quietNet)
      threeRequests).map (fun t => t.1.endpoints.map Endpoint.remote) = some [7, 8] := by decide
  obtain ⟨t, ht, hremotes⟩ := Option.map_eq_some_iff.mp hrun
  obtain ⟨s, hs⟩ := endpoints_admitted ht
  exact ⟨t, s, ht, hremotes, hs⟩

end Ipmb.Greeting
