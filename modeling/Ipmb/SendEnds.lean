import Ipmb.SendLoop

namespace Ipmb.SendEnds

open Messages Buffers Encoding Attachments Reference Relay Linux PlainHost SendLoop

variable {W : Type}

/-- What `sendmsg` is documented to refuse: data that do not fit into the send buffer, and
control data that it cannot read or that have too many descriptors. -/
structure Refuses (host : Host W) (sndbuf : Nat) : Prop where
  size : ∀ {w remote iov control}, sndbuf < iov.length →
    (host.sendmsg w remote iov control).1 ≠ none
  records : ∀ {w remote iov control}, host.kernel.attachments control = none →
    (host.sendmsg w remote iov control).1 ≠ none

/-- The message is none of these. -/
structure Fits (host : Host W) (sndbuf : Nat) (msg : EncodedMessage) : Prop where
  size : msg.iovData.length ≤ sndbuf
  records : host.kernel.attachments msg.controlData ≠ none

/-- A signal comes, or too many descriptors are in flight. -/
def Interrupted (host : Host W) (msg : EncodedMessage) (t : Turn W) : Prop :=
  ∃ remote epoch e, t.rule = .client remote epoch ∧
    (host.sendmsg t.world remote msg.iovData msg.controlData).1 = some e ∧
      (e = .etoomanyrefs ∨ e = .eintr)

/-- The endpoint is connected to the controller. -/
def Connected (stays : W → RawFd → Prop) (t : Turn W) : Prop :=
  ∃ remote epoch, t.rule = .client remote epoch ∧ stays t.world remote

/-- A turn is reached in which the endpoint is connected to the controller and `sendmsg` fails,
but not with a loss of the connection; and the call takes another turn. -/
def GoesRound (host : Host W) (file : RawFd → Nat) (msg : EncodedMessage) (stays : W → RawFd → Prop)
    (turns : Nat → Turn W) (n : Nat) : Prop :=
  (progress host file msg turns n).outcome = none ∧
    (∃ remote epoch e, (turns n).rule = .client remote epoch ∧ stays (turns n).world remote ∧
      (host.sendmsg (turns n).world remote msg.iovData msg.controlData).1 = some e ∧
      e ≠ .epipe ∧ e ≠ .econnreset) ∧
    (progress host file msg turns (n + 1)).outcome = none

/-- The rule that a turn leaves when the message has not been sent. -/
def left (t : Turn W) : Rule :=
  match t.rule, t.later, t.join with
  | .client _ epoch, .client remote epoch₁, .ok rule =>
    if epoch = epoch₁ then rule else .client remote epoch₁
  | _, later, _ => later

/-- Who is connected is so to the controller. -/
def Live (stays : W → RawFd → Prop) (t : Turn W) (rule : Rule) : Prop :=
  ∀ remote epoch, rule = .client remote epoch → stays t.world remote

/-- The controller is there from turn `m` on: whoever joins is connected to it. In between,
the rule stays, or is replaced by somebody who has joined; and each `join` returns `Ok`. -/
structure Reachable (stays : W → RawFd → Prop) (turns : Nat → Turn W) (m : Nat) : Prop where
  join : ∀ n, ∃ rule, (turns n).join = .ok rule
  joined : ∀ n ≥ m, ∀ rule, (turns n).join = .ok rule → Live stays (turns (n + 1)) rule
  later : ∀ n ≥ m, (turns n).later = (turns n).rule ∨ Live stays (turns (n + 1)) (turns n).later
  next : ∀ n ≥ m, (turns (n + 1)).rule = left (turns n) ∨
    Live stays (turns (n + 1)) (turns (n + 1)).rule

section Loop

variable {host : Host W} {file : RawFd → Nat} {msg : EncodedMessage} {turns : Nat → Turn W}

theorem outcome_succ {n : Nat} (h : (progress host file msg turns (n + 1)).outcome = none) :
    (progress host file msg turns n).outcome = none := by
  rw [progress, iterate] at h
  cases ho : (progress host file msg turns n).outcome with
  | none => rfl
  | some outcome =>
    rw [ho] at h
    exact ho.symm.trans h

theorem outcome_of_le {n m : Nat} (hle : m ≤ n) (h : (progress host file msg turns n).outcome = none) :
    (progress host file msg turns m).outcome = none := by
  induction n, hle using Nat.le_induction with
  | base => exact h
  | succ n _ ih => exact ih (outcome_succ h)

/-- The last turn of a call that returns. -/
theorem exists_last {n : Nat} (h : (progress host file msg turns n).outcome.isSome = true) :
    ∃ m, (progress host file msg turns m).outcome = none ∧
      (progress host file msg turns (m + 1)).outcome.isSome = true := by
  induction n with
  | zero => cases h
  | succ n ih =>
    cases ho : (progress host file msg turns n).outcome with
    | none => exact ⟨n, ho, h⟩
    | some outcome => exact ih (by rw [ho]; rfl)

theorem turned {n : Nat} (h : (progress host file msg turns n).outcome = none) :
    Turned host file msg (turns n) (progress host file msg turns n)
      (progress host file msg turns (n + 1)) := iterate_turned _ h

theorem sendmsg_of_send {w : W} {remote : RawFd} (h : (Linux.send host w msg remote).1 = .ok ()) :
    (host.sendmsg w remote msg.iovData msg.controlData).1 = none := by
  rw [Linux.send] at h
  rcases hs : host.sendmsg w remote msg.iovData msg.controlData with ⟨_ | e, w'⟩
  · rfl
  · rw [hs] at h
    cases h

/-- A turn from which the call does not return is an attempt that has failed. -/
theorem attempted {n : Nat} (h : (progress host file msg turns (n + 1)).outcome = none) :
    ∃ remote epoch, (turns n).rule = .client remote epoch ∧
      (Linux.send host (turns n).world msg remote).1 = .error .disconnect := by
  have ht := turned (outcome_succ h)
  generalize progress host file msg turns (n + 1) = s' at h ht
  cases ht with
  | again hr hs hleft => exact ⟨_, _, hr, hs⟩
  | _ => cases h

/-- The turn in which the call returns. -/
theorem last_turn (hjoin : ∀ n, ∃ rule, (turns n).join = .ok rule) {n : Nat}
    (hnone : (progress host file msg turns n).outcome = none)
    (hsome : (progress host file msg turns (n + 1)).outcome.isSome = true) :
    (turns n).rule = .server ∨ ∃ remote epoch, (turns n).rule = .client remote epoch ∧
      (Linux.send host (turns n).world msg remote).1 = .ok () := by
  have ht := turned hnone
  generalize progress host file msg turns (n + 1) = s' at hsome ht
  cases ht with
  | bus hr => exact .inl hr
  | closed hr hb => exact .inl hr
  | sent hr hs => exact .inr ⟨_, _, hr, hs⟩
  | again hr hs hleft => cases hsome
  | failed hr hs hl hj =>
    obtain ⟨rule, hok⟩ := hjoin n
    rw [hok] at hj
    cases hj

variable {stays gone : W → RawFd → Prop} {sndbuf : Nat} {opened : W → RawFd → Prop} {calm : W → Prop}

/-- After the first turn in which the controller is there, the endpoint is connected to it. -/
theorem Reachable.live {m : Nat} (hm : Reachable stays turns m) {n : Nat} (hn : m ≤ n)
    (h : (progress host file msg turns (n + 1)).outcome = none) :
    Live stays (turns (n + 1)) (turns (n + 1)).rule := by
  obtain ⟨remote, epoch, hr, -⟩ := attempted h
  obtain heq | hlive := hm.next n hn
  · rw [heq, left, hr]
    cases hl : (turns n).later with
    | server =>
      intro remote' epoch' hrule
      cases hrule
    | client remote₁ epoch₁ =>
      obtain ⟨rule, hj⟩ := hm.join n
      simp only [hj]
      split
      · exact hm.joined n hn rule hj
      · rename_i hne
        obtain hsame | hlive := hm.later n hn
        · rw [hl, hr] at hsame
          cases hsame
          exact absurd rfl hne
        · rwa [hl] at hlive
  · exact hlive

/-- Who is connected to the controller has not lost the connection. -/
theorem no_loss (hk : host.Documented gone stays (fun _ => sndbuf) opened calm) {w : W} {remote : RawFd}
    (hlive : stays w remote) {e : Errno}
    (he : (host.sendmsg w remote msg.iovData msg.controlData).1 = some e) :
    e ≠ .epipe ∧ e ≠ .econnreset := by
  have hthere : ¬ gone (host.sendmsg w remote msg.iovData msg.controlData).2 remote :=
    hk.stays_not_gone (hk.stays_sendmsg hlive)
  constructor
  · rintro rfl
    exact hthere (hk.peer he (.inl rfl))
  · rintro rfl
    exact hthere (hk.peer he (.inr rfl))

/-- Each error of `sendmsg` has its cause. -/
theorem interrupted_of_fits (hk : host.Documented gone stays (fun _ => sndbuf) opened calm)
    (hfits : Fits host sndbuf msg) {t : Turn W} {remote : RawFd} {epoch : BitVec 32}
    (hr : t.rule = .client remote epoch) (hlive : stays t.world remote)
    (howned : ∀ fds, host.kernel.attachments msg.controlData = some fds → ∀ fd ∈ fds, opened t.world fd)
    (hs : (Linux.send host t.world msg remote).1 = .error .disconnect) : Interrupted host msg t := by
  obtain ⟨e, he⟩ := send_disconnect hs
  obtain ⟨hpipe, hreset⟩ := no_loss hk hlive he
  refine ⟨remote, epoch, e, hr, he, ?_⟩
  cases e with
  | epipe => exact absurd rfl hpipe
  | econnreset => exact absurd rfl hreset
  | emsgsize => exact absurd (hk.size he) (Nat.not_lt.mpr hfits.size)
  | einval => exact absurd (hk.records he) hfits.records
  | ebadf =>
    obtain ⟨fds, hfds⟩ := Option.ne_none_iff_exists'.mp hfits.records
    obtain ⟨fd, hfd, hclosed⟩ := hk.descriptors he hfds
    exact absurd (howned fds hfds fd hfd) hclosed
  | etoomanyrefs => exact .inl rfl
  | eintr => exact .inr rfl

theorem send_of_sendmsg {w : W} {remote : RawFd} {e : Errno}
    (h : (host.sendmsg w remote msg.iovData msg.controlData).1 = some e) :
    (Linux.send host w msg remote).1 = .error .disconnect := by
  rw [Linux.send]
  rcases hs : host.sendmsg w remote msg.iovData msg.controlData with ⟨_ | e', w'⟩
  · rw [hs] at h
    cases h
  · rfl

/-- After a failed attempt there is another turn. -/
theorem round_of_failed (hjoin : ∀ n, ∃ rule, (turns n).join = .ok rule) {n : Nat}
    (hnone : (progress host file msg turns n).outcome = none) {remote : RawFd} {epoch : BitVec 32}
    (hr : (turns n).rule = .client remote epoch) {e : Errno}
    (he : (host.sendmsg (turns n).world remote msg.iovData msg.controlData).1 = some e) :
    (progress host file msg turns (n + 1)).outcome = none := by
  rw [← Option.not_isSome_iff_eq_none]
  intro hsome
  obtain hserver | ⟨remote', epoch', hr', hs⟩ := last_turn hjoin hnone hsome
  · rw [hr] at hserver
    cases hserver
  · rw [hr] at hr'
    cases hr'
    rw [send_of_sendmsg he] at hs
    cases hs

theorem fits_of_sent (hrefuses : Refuses host sndbuf) {w : W} {remote : RawFd}
    (hs : (Linux.send host w msg remote).1 = .ok ()) : Fits host sndbuf msg where
  size := Nat.le_of_not_lt fun hlt => hrefuses.size hlt (sendmsg_of_send hs)
  records hnone := hrefuses.records hnone (sendmsg_of_send hs)

/-- What does not fit is sent again and again. -/
theorem never_ends (hrefuses : Refuses host sndbuf) (hfits : ¬ Fits host sndbuf msg)
    (hclient : ∀ n, (turns n).rule ≠ .server) (hjoin : ∀ n, ∃ rule, (turns n).join = .ok rule) (n : Nat) :
    (progress host file msg turns n).outcome = none := by
  induction n with
  | zero => rfl
  | succ n ih =>
    rw [← Option.not_isSome_iff_eq_none]
    intro hsome
    obtain hr | ⟨remote, epoch, -, hs⟩ := last_turn hjoin ih hsome
    · exact hclient n hr
    · exact hfits (fits_of_sent hrefuses hs)

/-- No failure but a loss of the connection sends the call round again exactly if the message fits
and no attempt with a connection to the controller is interrupted. -/
theorem never_round_iff (hk : host.Documented gone stays (fun _ => sndbuf) opened calm)
    (hrefuses : Refuses host sndbuf) (hjoin : ∀ n, ∃ rule, (turns n).join = .ok rule)
    (howned : ∀ n fds, host.kernel.attachments msg.controlData = some fds →
      ∀ fd ∈ fds, opened (turns n).world fd) :
    (∀ n, ¬ GoesRound host file msg stays turns n) ↔
      ∀ n, (progress host file msg turns n).outcome = none → Connected stays (turns n) →
        Fits host sndbuf msg ∧ ¬ Interrupted host msg (turns n) := by
  constructor
  · rintro hnever n hnone ⟨remote, epoch, hr, hlive⟩
    have hsent : (host.sendmsg (turns n).world remote msg.iovData msg.controlData).1 = none := by
      rw [Option.eq_none_iff_forall_ne_some]
      intro e he
      exact hnever n ⟨hnone, ⟨remote, epoch, e, hr, hlive, he, no_loss hk hlive he⟩,
        round_of_failed hjoin hnone hr he⟩
    refine ⟨⟨?_, fun hrecords => hrefuses.records hrecords hsent⟩, ?_⟩
    · exact Nat.le_of_not_lt fun hlt => hrefuses.size hlt hsent
    · rintro ⟨remote', epoch', e, hr', he, -⟩
      rw [hr] at hr'
      cases hr'
      rw [hsent] at he
      cases he
  · rintro hcond n ⟨hnone, ⟨remote, epoch, e, hr, hlive, he, -⟩, -⟩
    obtain ⟨hfits, hcalm⟩ := hcond n hnone ⟨remote, epoch, hr, hlive⟩
    exact hcalm (interrupted_of_fits hk hfits hr hlive (howned n) (send_of_sendmsg he))

/-- Once the controller is there, `send` returns exactly if the endpoint is it, or the message
fits and is not interrupted in every attempt. -/
theorem returns_iff (hk : host.Documented gone stays (fun _ => sndbuf) opened calm)
    (hrefuses : Refuses host sndbuf) {m : Nat} (hm : Reachable stays turns m)
    (howned : ∀ n fds, host.kernel.attachments msg.controlData = some fds →
      ∀ fd ∈ fds, opened (turns n).world fd) :
    (∃ n, (progress host file msg turns n).outcome.isSome = true) ↔
      (∃ n, (progress host file msg turns n).outcome = none ∧ (turns n).rule = .server) ∨
      Fits host sndbuf msg ∧ ¬ ∃ m, (progress host file msg turns m).outcome = none ∧
        ∀ n ≥ m, Interrupted host msg (turns n) := by
  constructor
  · rintro ⟨n, hn⟩
    obtain ⟨l, hnone, hsome⟩ := exists_last hn
    obtain hr | ⟨remote, epoch, hr, hs⟩ := last_turn hm.join hnone hsome
    · exact .inl ⟨l, hnone, hr⟩
    · refine .inr ⟨fits_of_sent hrefuses hs, ?_⟩
      rintro ⟨k, hk', hint⟩
      have hle : k ≤ l := by
        by_contra hlt
        have hlast := outcome_of_le (show l + 1 ≤ k by omega) hk'
        rw [hlast] at hsome
        cases hsome
      obtain ⟨remote', epoch', e, hr', he, -⟩ := hint l hle
      rw [hr] at hr'
      cases hr'
      rw [sendmsg_of_send hs] at he
      cases he
  · intro hcond
    by_contra hnever
    have hall : ∀ n, (progress host file msg turns n).outcome = none := fun n => by
      rw [← Option.not_isSome_iff_eq_none]
      exact fun hsome => hnever ⟨n, hsome⟩
    obtain ⟨n, -, hr⟩ | ⟨hfits, hcalm⟩ := hcond
    · obtain ⟨remote, epoch, hr', -⟩ := attempted (hall (n + 1))
      rw [hr] at hr'
      cases hr'
    · refine hcalm ⟨m + 1, hall _, fun n hn => ?_⟩
      obtain ⟨n, rfl⟩ := Nat.exists_eq_add_of_le' hn
      obtain ⟨remote, epoch, hr, hs⟩ := attempted (hall (n + (m + 1) + 1))
      have hlive := hm.live (show m ≤ n + m by omega) (hall (n + m + 1)) remote epoch hr
      exact interrupted_of_fits hk hfits hr hlive (howned _) hs

/-- Once the controller is there, `send` returns and takes a further turn only after a loss of
the connection, exactly if the message fits and is not interrupted whenever the endpoint is
connected to the controller. It returns, whatever it takes, exactly if the endpoint is the
controller's, or the message fits and is not interrupted in every attempt. -/
theorem ends_iff (hk : host.Documented gone stays (fun _ => sndbuf) opened calm)
    (hrefuses : Refuses host sndbuf) {m : Nat} (hm : Reachable stays turns m)
    (howned : ∀ n fds, host.kernel.attachments msg.controlData = some fds →
      ∀ fd ∈ fds, opened (turns n).world fd) :
    ((∃ n, (progress host file msg turns n).outcome.isSome = true) ∧
        (∀ n, ¬ GoesRound host file msg stays turns n) ↔
      ∀ n, (progress host file msg turns n).outcome = none → Connected stays (turns n) →
        Fits host sndbuf msg ∧ ¬ Interrupted host msg (turns n)) ∧
    ((∃ n, (progress host file msg turns n).outcome.isSome = true) ↔
      (∃ n, (progress host file msg turns n).outcome = none ∧ (turns n).rule = .server) ∨
      Fits host sndbuf msg ∧ ¬ ∃ m, (progress host file msg turns m).outcome = none ∧
        ∀ n ≥ m, Interrupted host msg (turns n)) := by
  have hnever : (∀ n, ¬ GoesRound host file msg stays turns n) ↔ _ :=
    never_round_iff hk hrefuses hm.join howned
  refine ⟨⟨fun h => hnever.mp h.2, fun hcond => ⟨?_, hnever.mpr hcond⟩⟩,
    returns_iff hk hrefuses hm howned⟩
  -- the turn after the controller is there would fail for no reason
  by_contra hreturns
  have hall : ∀ n, (progress host file msg turns n).outcome = none := fun n => by
    rw [← Option.not_isSome_iff_eq_none]
    exact fun hsome => hreturns ⟨n, hsome⟩
  obtain ⟨remote, epoch, hr, hs⟩ := attempted (hall (m + 1 + 1))
  have hlive := hm.live (Nat.le_refl m) (hall (m + 1)) remote epoch hr
  obtain ⟨hfits, hcalm⟩ := hcond (m + 1) (hall _) ⟨remote, epoch, hr, hlive⟩
  exact hcalm (interrupted_of_fits hk hfits hr hlive (howned _) hs)

end Loop

/-- The control data of a message with at most 253 descriptors can be read. -/
theorem fits_of_few {host : Host W} {sndbuf : Nat} {codec : Codec} {version : Version} {msg : Message}
    {heap : Heap} (hk : host.kernel.Documented) (hfew : msg.attachments.length ≤ 253)
    (hsize : (intoEncoded codec version msg heap).iovData.length ≤ sndbuf) :
    Fits host sndbuf (intoEncoded codec version msg heap) := by
  refine ⟨hsize, fun hnone => ?_⟩
  have hread : transmit host.kernel id (intoEncoded codec version msg heap) = some _ :=
    transmit_intoEncoded hk heap hfew
  rw [transmit, hnone] at hread
  cases hread

theorem plainHost_refuses : Refuses plainHost 212960 where
  size := by
    intro w remote iov control h
    simp only [plainHost]
    split
    · simp
    · simp
  records := by
    intro w remote iov control h
    have hnone : anyRegion.attachments control = none := h
    simp only [plainHost]
    split
    · simp
    · split
      · simp
      · simp [hnone]

theorem plainHost_calm (msg : EncodedMessage) (t : Turn (List RawFd)) :
    ¬ Interrupted plainHost msg t := by
  rintro ⟨remote, epoch, e, -, he, hlimit⟩
  rcases plainHost_sendmsg he with ⟨rfl, -⟩ | ⟨rfl, -⟩ | ⟨rfl, -⟩ <;> simp at hlimit

/-- The controller behind remote 7 has hung up, and the one behind remote 8 stays. -/
theorem ends_rejoining :
    (∃ n, (progress plainHost BitVec.toNat parcel rejoining n).outcome.isSome = true) ∧
      ∀ n, ¬ GoesRound plainHost BitVec.toNat parcel (fun w r => ¬ HungUp w r) rejoining n := by
  have hlive : ∀ n, ¬ HungUp (rejoining (n + 1)).world 8 := fun n => by
    simp [HungUp, rejoining]
  have hreachable : Reachable (fun w r => ¬ HungUp w r) rejoining 1 := by
    refine ⟨fun n => ?_, fun n hn rule hj => ?_, fun n hn => .inl ?_, fun n hn => .inr ?_⟩
    · cases n <;> exact ⟨_, rfl⟩
    · obtain ⟨n, rfl⟩ := Nat.exists_eq_add_of_le' hn
      cases hj
      rintro remote epoch ⟨⟩
    · obtain ⟨n, rfl⟩ := Nat.exists_eq_add_of_le' hn
      rfl
    · rintro remote epoch ⟨⟩
      exact hlive n
  have hfits : Fits plainHost 212960 parcel := ⟨by decide, by decide⟩
  exact (ends_iff plainHost_documented plainHost_refuses hreachable fun _ _ _ _ _ => trivial).1.mpr
    fun n _ _ => ⟨hfits, plainHost_calm _ _⟩

theorem payload_lt_iovData (codec : Codec) (version : Version) (msg : Message) (heap : Heap) :
    msg.payload.length < (intoEncoded codec version msg heap).iovData.length := by
  rw [intoEncoded, length_encodeIov]
  have hpayload := le_align4 msg.payload.length
  omega

/-- A message with a payload as long as the send buffer. -/
def longMessage : EncodedMessage :=
  intoEncoded plainCodec ⟨0, 8, 5⟩ ⟨plainSelector 0, List.replicate 212960 0, [], []⟩ zeroHeap

/-- A controller that is there all the time, and joined again in every turn. -/
def reconnecting (n : Nat) : Turn (List RawFd) :=
  ⟨.client 8 (.ofNat 32 n), [], .client 8 (.ofNat 32 n), .ok (.client 8 (.ofNat 32 (n + 1))), true⟩

theorem longMessage_forever :
    Reachable (fun w r => ¬ HungUp w r) reconnecting 0 ∧
      ∀ n, (progress plainHost BitVec.toNat longMessage reconnecting n).outcome = none := by
  have hlive : ∀ n epoch, Live (fun w r => ¬ HungUp w r) (reconnecting n) (.client 8 epoch) := by
    rintro n epoch remote epoch' ⟨⟩
    simp [HungUp, reconnecting]
  refine ⟨⟨fun _ => ⟨_, rfl⟩, fun n _ rule hj => ?_, fun n _ => .inl rfl, fun n _ => .inr (hlive _ _)⟩, ?_⟩
  · cases hj
    exact hlive _ _
  · refine never_ends plainHost_refuses (fun hfits => ?_) (fun n => by simp [reconnecting])
      fun n => ⟨_, rfl⟩
    have hpayload := payload_lt_iovData plainCodec ⟨0, 8, 5⟩
      ⟨plainSelector 0, List.replicate 212960 0, [], []⟩ zeroHeap
    rw [List.length_replicate] at hpayload
    exact absurd hfits.size (Nat.not_le_of_lt hpayload)

end Ipmb.SendEnds
