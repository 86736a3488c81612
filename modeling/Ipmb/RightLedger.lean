import Ipmb.MachRights

namespace Ipmb.MachRights

open Messages Mach Custody Run
open Encoding (Codec Message)
open Decoding (Kernel)
open Function (update)

variable {kernel : Kernel} {codec : Codec} {crate : Task → Version} {w w' : World}

/-- No port is forgotten, and none rises from the dead. -/
structure Grows (w w' : World) : Prop where
  length : w.ports.length ≤ w'.ports.length
  dead : ∀ k < w.ports.length, w.portAlive k = false → w'.portAlive k = false

theorem Grows.of_eq (h : w'.ports = w.ports) : Grows w w' := by
  refine ⟨by rw [h], fun k _ hdead => ?_⟩
  rw [World.portAlive, h]
  exact hdead

theorem Grows.of_map {k : Nat} {f : PortState → PortState} (h : w'.ports = w.ports.modify k f)
    (hf : ∀ port, port.alive = false → (f port).alive = false) : Grows w w' := by
  refine ⟨by rw [h, List.length_modify], fun j hj hdead => ?_⟩
  rw [World.portAlive, List.getElem?_eq_getElem hj, Option.any_some] at hdead
  rw [World.portAlive, h, List.getElem?_modify, List.getElem?_eq_getElem hj]
  simp only [Option.map_eq_map, Option.map_some, Option.any_some]
  split
  · exact hf _ hdead
  · exact hdead

theorem leave_dead (p : Task) {port : PortState} (h : port.alive = false) :
    (port.leave p).alive = false := by
  rw [PortState.leave]
  split
  · rfl
  · exact h

theorem withoutReceiver_cases (w : World) (p : Task) (x : MachPort) :
    w.withoutReceiver p x = w.ports ∨ ∃ k n, x.receiveRight = true ∧ w.space p x.port = some (k, n) ∧
      w.withoutReceiver p x = w.ports.modify k (PortState.leave p) := by
  cases hspace : w.space p x.port with
  | none => simp [World.withoutReceiver, hspace]
  | some e =>
    obtain ⟨k, n⟩ := e
    cases hx : x.receiveRight with
    | false => simp [World.withoutReceiver, hspace, hx]
    | true => exact Or.inr ⟨k, n, rfl, rfl, by simp [World.withoutReceiver, hspace, hx]⟩

theorem Grows.of_append {port : PortState} (h : w'.ports = w.ports ++ [port]) : Grows w w' := by
  refine ⟨by simp [h], fun k hk hdead => ?_⟩
  rw [World.portAlive] at hdead ⊢
  rwa [h, List.getElem?_append_left hk]

theorem Grows.of_withoutReceiver {p : Task} {x : MachPort} (h : w'.ports = w.withoutReceiver p x) :
    Grows w w' := by
  obtain hsame | ⟨k', n, -, -, hmodified⟩ := withoutReceiver_cases w p x
  · exact Grows.of_eq (h.trans hsame)
  · exact Grows.of_map (h.trans hmodified) fun port => leave_dead p

theorem Grows.of_taken {k : Nat} {port : PortState} {queue : List Packet} (hport : w.ports[k]? = some port)
    (h : w'.ports = w.ports.set k { port with queue := queue }) : Grows w w' := by
  refine Grows.of_map (k := k) (f := fun port => { port with queue := queue }) ?_ fun port hdead => hdead
  simp [h, List.modify_eq_set_getElem?, hport]

theorem Grows.of_leave {p : Task} (h : w'.ports = w.ports.map (PortState.leave p)) : Grows w w' := by
  refine ⟨by simp [h], fun k hk hdead => ?_⟩
  rw [World.portAlive, List.getElem?_eq_getElem hk, Option.any_some] at hdead
  rw [World.portAlive, h, List.getElem?_map, List.getElem?_eq_getElem hk, Option.map_some, Option.any_some]
  exact leave_dead p hdead

theorem Moved.grows (hm : Moved kernel codec crate w w') : Grows w w' := by
  cases hm with
  | created => exact Grows.of_append rfl
  | dropped => exact Grows.of_withoutReceiver rfl
  | sent => exact Grows.of_map rfl fun port hdead => hdead
  | received hport => exact Grows.of_taken hport rfl
  | refused hport => exact Grows.of_taken hport rfl
  | died => exact Grows.of_leave rfl
  | _ => exact Grows.of_eq rfl

theorem Moved.made_subset (hm : Moved kernel codec crate w w') : w.made ⊆ w'.made := by
  cases hm with
  | made => exact List.subset_append_left _ _
  | _ => exact List.Subset.refl _

section Letters

/-- The message is a faithful copy of one that has been made. -/
structure Letter.Fine (codec : Codec) (made : List Origin) (letter : Letter) : Prop where
  shaped : Shaped codec letter.origin.version letter.origin.payload letter.origin.body letter.msg
  selector : letter.msg.selector = letter.origin.selector
  length : letter.msg.attachments.length = letter.origin.ports.length
  made : letter.origin ∈ made

theorem Letter.Fine.mono {made made' : List Origin} {letter : Letter} (h : letter.Fine codec made)
    (hsub : made ⊆ made') : letter.Fine codec made' :=
  ⟨h.shaped, h.selector, h.length, hsub h.made⟩

theorem Letter.Fine.address {made : List Origin} {letter : Letter} (h : letter.Fine codec made)
    (remote : Port) : (letter.address remote).Fine codec made :=
  ⟨⟨h.shaped.data, h.shaped.buffer, h.shaped.descriptors, h.shaped.size, h.shaped.regions, h.shaped.small⟩,
    h.selector, h.length, h.made⟩

/-- The port of the entry is known, and is dead if its name is the dead one. -/
def Named (w : World) (e : Entry) : Prop :=
  e.2 < w.ports.length ∧ (e.1 = machPortDead → w.portAlive e.2 = false)

theorem Named.mono {e : Entry} (h : Named w e) (hg : Grows w w') : Named w' e :=
  ⟨Nat.lt_of_lt_of_le h.1 hg.length, fun hdead => hg.dead e.2 h.1 (h.2 hdead)⟩

/-- What the kernel has of a right to a port. -/
def Carries (w : World) (right : Option Nat) (k : Nat) : Prop :=
  k < w.ports.length ∧ (right = some k ∨ right = none ∧ w.portAlive k = false)

theorem Carries.mono {right : Option Nat} {k : Nat} (h : Carries w right k) (hg : Grows w w') :
    Carries w' right k :=
  ⟨Nat.lt_of_lt_of_le h.1 hg.length, h.2.imp_right fun hnone => ⟨hnone.1, hg.dead k h.1 hnone.2⟩⟩

/-- The packet is a message as it has been sent. -/
structure Packet.Fine (codec : Codec) (w : World) (packet : Packet) : Prop where
  letter : ∃ msg, Letter.Fine codec w.made ⟨msg, packet.origin⟩ ∧ packet.machMsg = msg.machMsg.sent
  rights : List.Forall₂ (Carries w) packet.rights packet.origin.ports

theorem Packet.Fine.mono {packet : Packet} (h : packet.Fine codec w) (hm : w.made ⊆ w'.made)
    (hg : Grows w w') : packet.Fine codec w' := by
  obtain ⟨msg, hletter, hsent⟩ := h.letter
  exact ⟨⟨msg, hletter.mono hm, hsent⟩, h.rights.imp fun _ _ hcarries => hcarries.mono hg⟩

end Letters

/-- The names of a task are accounted for. -/
structure Accounted (w : World) (p : Task) : Prop where
  tallies : Tallies (· ≠ machPortDead) (w.space p) ((w.ledger p).count ·)
  named : ∀ e ∈ w.ledger p, Named w e

/-- The `MachPort`s of a task that have the receive right to this port. -/
def World.receivers (w : World) (p : Task) (k : Nat) : Nat :=
  (w.loose p).countP fun x => x.1.receiveRight && x.2 == k

/-- The port is alive, and the task receives from it. -/
def World.receives (w : World) (p : Task) (k : Nat) : Bool :=
  w.ports[k]?.any fun port => port.alive && port.home == some p

structure Sound (codec : Codec) (w : World) : Prop where
  accounted : ∀ p, Accounted w p
  letters : ∀ p, ∀ letter ∈ w.held p, letter.Fine codec w.made
  packets : ∀ port ∈ w.ports, ∀ packet ∈ port.queue, packet.Fine codec w
  receivers : ∀ p k, w.receivers p k = if w.receives p k then 1 else 0
  real : ∀ p, ∀ x ∈ w.loose p, x.1.receiveRight = true → x.1.port ≠ machPortDead

theorem boot_sound : Sound codec World.boot where
  accounted p := ⟨tallies_nil, by simp [World.boot, World.ledger]⟩
  letters p letter h := by simp [World.boot] at h
  packets port h := by simp [World.boot] at h
  receivers p k := by simp [World.boot, World.receivers, World.receives]
  real p x h := by simp [World.boot] at h

section Account

variable {p : Task}

theorem count_ledger (w : World) (p : Task) (e : Entry) :
    (w.ledger p).count e = ((w.loose p).map MachPort.entry).count e + (w.raw p).count e +
      ((w.held p).flatMap Letter.entries).count e := by
  simp only [World.ledger, List.count_append]

theorem mem_held {letter : Letter} {e : Entry} (h : letter ∈ w.held p) (he : e ∈ letter.entries) :
    e ∈ w.ledger p :=
  List.mem_append_right _ (List.mem_flatMap.mpr ⟨letter, h, he⟩)

theorem mem_loose {x : MachPort × Nat} (h : x ∈ w.loose p) : MachPort.entry x ∈ w.ledger p :=
  List.mem_append_left _ (List.mem_append_left _ (List.mem_map_of_mem h))

theorem Accounted.get (h : Accounted w p) {e : Entry} (he : e ∈ w.ledger p) (hreal : e.1 ≠ machPortDead) :
    w.space p e.1 = some (e.2, (w.ledger p).count e) :=
  h.tallies.get (k := e.1) (v := e.2) hreal (List.count_pos_iff.mpr he)

theorem Accounted.moved (h : Accounted w p) (hg : Grows w w') (hspace : w'.space p = w.space p)
    (hc : ∀ e, (w'.ledger p).count e = (w.ledger p).count e) : Accounted w' p where
  tallies := hspace ▸ h.tallies.moved fun e _ => hc e
  named e he := by
    rw [← List.count_pos_iff, hc, List.count_pos_iff] at he
    exact (h.named e he).mono hg

theorem Accounted.frame (h : Accounted w p) (hg : Grows w w') (hspace : w'.space p = w.space p)
    (hloose : w'.loose p = w.loose p) (hraw : w'.raw p = w.raw p) (hheld : w'.held p = w.held p) :
    Accounted w' p :=
  h.moved hg hspace fun e => by simp only [World.ledger, hloose, hraw, hheld]

/-- A task gives up some of its references. -/
theorem Accounted.lost (h : Accounted w p) (hg : Grows w w') (gone : List Entry)
    (hspace : w'.space p = (gone.map Prod.fst).foldl release (w.space p))
    (hc : ∀ e, (w'.ledger p).count e + gone.count e = (w.ledger p).count e) : Accounted w' p where
  tallies := hspace ▸ h.tallies.releasedAll fun e _ => hc e
  named e he := by
    rw [← List.count_pos_iff] at he
    have hsum := hc e
    exact (h.named e (List.count_pos_iff.mp (by omega))).mono hg

theorem Accounted.gained (h : Accounted w p) (hg : Grows w w') {name : Port} {k : Nat}
    (hspace : w'.space p = retain (w.space p) name k) (hreal : name ≠ machPortDead)
    (hname : ∀ k' n, w.space p name = some (k', n) → k' = k) (hk : k < w'.ports.length)
    (hc : ∀ e, (w'.ledger p).count e = (w.ledger p).count e + if (name, k) = e then 1 else 0) :
    Accounted w' p where
  tallies := hspace ▸ h.tallies.retained hname fun e _ => hc e
  named e he := by
    by_cases heq : (name, k) = e
    · subst heq
      exact ⟨hk, fun hdead => absurd hdead hreal⟩
    · rw [← List.count_pos_iff, hc, if_neg heq, Nat.add_zero, List.count_pos_iff] at he
      exact (h.named e he).mono hg

/-- The kernel finds the ports that the names have been given for. -/
theorem Accounted.copyin (h : Accounted w p) {names : List Port} {ports : List Nat}
    {rights : List (Option Nat)} (hlen : names.length = ports.length)
    (hmem : ∀ e ∈ names.zip ports, e ∈ w.ledger p) (hrights : w.copyin p names = some rights) :
    List.Forall₂ (Carries w) rights ports := by
  induction names generalizing ports rights with
  | nil =>
    cases hrights
    rw [List.eq_nil_of_length_eq_zero hlen.symm]
    exact .nil
  | cons name names ih =>
    obtain _ | ⟨k, ports⟩ := ports
    · cases hlen
    rw [List.zip_cons_cons] at hmem
    have hledger := hmem (name, k) List.mem_cons_self
    obtain ⟨hk, hdead⟩ := h.named _ hledger
    rw [World.copyin, List.mapM_cons] at hrights
    obtain ⟨right, hright, hrights⟩ := Option.bind_eq_some_iff.mp hrights
    obtain ⟨rest, hrest, hrights⟩ := Option.bind_eq_some_iff.mp hrights
    cases hrights
    refine .cons ⟨hk, ?_⟩ (ih (Nat.succ.inj hlen) (fun e he => hmem e (List.mem_cons_of_mem _ he)) hrest)
    split at hright
    · cases hright
      exact Or.inr ⟨rfl, hdead ‹_›⟩
    · rename_i hreal
      rw [h.get hledger hreal, Option.map_some] at hright
      cases hright
      cases halive : w.portAlive k <;> simp

/-- Each right gets a name for the port that it has been sent for, or the dead name. -/
theorem copyout_spec {space space' : Port → Option (Nat × Nat)} {rights : List (Option Nat)}
    {names : List Port} {ports : List Nat} {count : Entry → Nat}
    (hrights : List.Forall₂ (Carries w) rights ports) (ht : Tallies (· ≠ machPortDead) space count)
    (h : copyout w.portAlive space rights names = some space') :
    names.length = ports.length ∧
      Tallies (· ≠ machPortDead) space' (fun e => count e + (names.zip ports).count e) ∧
      ∀ e ∈ names.zip ports, Named w e := by
  induction hrights generalizing space names count with
  | nil =>
    obtain _ | ⟨name, names⟩ := names
    · cases h
      exact ⟨rfl, ht.moved fun e _ => by simp, by simp⟩
    · cases h
  | @cons right k rights ports hcarries _ ih =>
    obtain _ | ⟨name, names⟩ := names
    · cases h
    have hright : right.filter w.portAlive = if w.portAlive k then some k else none := by
      obtain ⟨-, rfl | ⟨rfl, hdead⟩⟩ := hcarries
      · cases halive : w.portAlive k <;> simp [halive]
      · simp [hdead]
    simp only [copyout, hright] at h
    cases halive : w.portAlive k with
    | true =>
      simp only [halive, if_true] at h
      split at h
      · rename_i hgrants
        obtain ⟨-, hreal, hname⟩ := grants_iff.mp hgrants
        obtain ⟨hlen, htallies, hnamed⟩ := ih (ht.retained hname fun e _ => rfl) h
        refine ⟨congrArg Nat.succ hlen, htallies.moved fun e _ => ?_, ?_⟩
        · rw [List.zip_cons_cons, List.count_cons]
          simp only [beq_iff_eq]
          omega
        · rw [List.zip_cons_cons, List.forall_mem_cons]
          exact ⟨⟨hcarries.1, fun hdead => absurd hdead hreal⟩, hnamed⟩
      · cases h
    | false =>
      simp only [halive, Bool.false_eq_true, if_false] at h
      split at h
      · rename_i hdead
        obtain ⟨hlen, htallies, hnamed⟩ := ih ht h
        refine ⟨congrArg Nat.succ hlen, htallies.moved fun e hreal => ?_, ?_⟩
        · have hne : ((name, k) == e) = false := by
            simp only [beq_eq_false_iff_ne]
            rintro rfl
            exact hreal hdead
          rw [List.zip_cons_cons, List.count_cons, hne]
          rfl
        · rw [List.zip_cons_cons, List.forall_mem_cons]
          exact ⟨⟨hcarries.1, fun _ => halive⟩, hnamed⟩
      · cases h

end Account

end Ipmb.MachRights
