import Ipmb.Reference
import Ipmb.RightLedger

namespace Ipmb.MachRights

open Messages Mach Custody Run
open Encoding (Codec Message)
open Decoding (Kernel)
open Function (update)

variable {kernel : Kernel} {codec : Codec} {crate : Task → Version} {w w' : World}

section Steps

theorem Letter.entries_fst {made : List Origin} {letter : Letter} (h : letter.Fine codec made) :
    letter.entries.map Prod.fst = letter.msg.attachments :=
  List.map_fst_zip h.length.le

theorem Letter.entries_intoEncoded {taken : List (MachPort × Nat)} {version : Version} {msg : Message}
    {heap : Nat → UInt8} (hkeys : taken.map Prod.fst = msg.attachments.map (⟨·, false⟩)) (body : List UInt8) :
    Letter.entries ⟨intoEncoded codec version msg heap,
      ⟨version, msg.selector, msg.payload, body, taken.map Prod.snd⟩⟩ = taken.map MachPort.entry := by
  have hattach : (intoEncoded codec version msg heap).attachments = taken.map fun x => x.1.port := by
    have hports := congrArg (List.map MachPort.port) hkeys
    rw [List.map_map, List.map_map] at hports
    exact (hports.trans (List.map_id _)).symm
  rw [Letter.entries, hattach, List.zip_map']
  rfl

/-- A new message says of itself what it is to carry. -/
theorem fine_made {p : Task} {msg : Message} {heap : Nat → UInt8} {taken rest : List (MachPort × Nat)}
    (hfits : Action.Fits codec crate (.make p msg heap))
    (htake : takeAll (w.loose p) (msg.attachments.map (⟨·, false⟩)) = some (taken, rest)) {made : List Origin}
    (hmade : ⟨crate p, msg.selector, msg.payload, (intoEncoded codec (crate p) msg heap).machMsg.data,
      taken.map Prod.snd⟩ ∈ made) :
    Letter.Fine codec made ⟨intoEncoded codec (crate p) msg heap, ⟨crate p, msg.selector, msg.payload,
      (intoEncoded codec (crate p) msg heap).machMsg.data, taken.map Prod.snd⟩⟩ := by
  obtain ⟨hdec, hregions, hlt⟩ := hfits
  have hlen := congrArg List.length (takeAll_spec htake).1
  rw [List.length_map, List.length_map] at hlen
  refine ⟨intoEncoded_shaped heap hdec hregions hlt, rfl, ?_, hmade⟩
  rw [List.length_map, hlen]
  rfl

/-- The descriptors carry the names the rights have got. -/
theorem Packet.Fine.names {packet : Packet} (h : packet.Fine codec w) {names : List Port}
    (hlen : names.length = packet.origin.ports.length) (header : Header) (trailer : List UInt8) :
    (arrive names header trailer packet.machMsg).descriptors.map PortDescriptor.name = names := by
  obtain ⟨msg, hletter, hsent⟩ := h.letter
  have hdescriptors : msg.machMsg.sent.descriptors = msg.attachments.map copySend :=
    hletter.shaped.descriptors
  rw [hsent, arrive, hdescriptors, zipWith_copySend (hlen.trans hletter.length.symm), List.map_map]
  exact List.map_id names

/-- What the receiver gets, if it gets the message. -/
theorem Packet.Fine.new {packet : Packet} (h : packet.Fine codec w) {k : Kernel} {ours : Version}
    {names : List Port} (hlen : names.length = packet.origin.ports.length) {header : Header}
    {trailer : List UInt8} {msg : EncodedMessage}
    (hnew : new k codec ours (arrive names header trailer packet.machMsg) = some (.ok msg)) :
    Letter.Fine codec w.made ⟨msg, packet.origin⟩ ∧ msg.attachments = names := by
  obtain ⟨sent, hletter, hsent⟩ := h.letter
  have hnames : names.length = sent.attachments.length := hlen.trans hletter.length.symm
  rw [hsent, hletter.shaped.new_arrive k hnames] at hnew
  split at hnew
  · cases hsplit : Decoding.splitObjects k names sent.selector.memoryRegionCount.toNat with
    | error e =>
      rw [hsplit] at hnew
      cases hnew
    | ok attached =>
      rw [hsplit] at hnew
      cases hnew
      obtain ⟨hshaped, hattach⟩ := hletter.shaped.receive hnames hsplit header trailer
      exact ⟨⟨hshaped, hletter.selector, by rw [hattach, hlen], hletter.made⟩, hattach⟩
  · cases hnew

/-- The packet at the head of a queue, when its rights have got their names. -/
theorem Sound.copyout (h : Sound codec w) {p : Task} {k : Nat} {port : PortState} {packet : Packet}
    {queue : List Packet} {names : List Port} {space : Port → Option (Nat × Nat)}
    (hport : w.ports[k]? = some port) (hqueue : port.queue = packet :: queue)
    (hspace : copyout w.portAlive (w.space p) packet.rights names = some space) :
    packet.Fine codec w ∧ names.length = packet.origin.ports.length ∧
      Tallies (· ≠ machPortDead) space
        (fun e => (w.ledger p).count e + (names.zip packet.origin.ports).count e) ∧
      ∀ e ∈ names.zip packet.origin.ports, Named w e := by
  have hfine := h.packets port (List.mem_of_getElem? hport) packet (hqueue ▸ List.mem_cons_self)
  exact ⟨hfine, copyout_spec hfine.rights (h.accounted p).tallies hspace⟩

section Account

variable {p q : Task}

/-- A task gets a reference, to a port that may be new. -/
theorem accounted_granted (hq : Accounted w q) {x : MachPort} {k : Nat} {ports : List PortState}
    (hg : Grows w { w.granted p x k with ports := ports }) (hreal : x.port ≠ machPortDead)
    (hname : ∀ k' n, w.space p x.port = some (k', n) → k' = k) (hk : k < ports.length) :
    Accounted { w.granted p x k with ports := ports } q := by
  by_cases heq : q = p
  · subst heq
    refine hq.gained hg (Function.update_self ..) hreal hname hk fun e => ?_
    simp only [count_ledger, World.granted, Function.update_self, List.map_append, List.count_append,
      List.map_cons, List.map_nil, List.count_singleton, MachPort.entry, beq_iff_eq]
    omega
  · exact hq.frame hg (Function.update_of_ne heq ..) (Function.update_of_ne heq ..) rfl rfl

theorem accounted_forgotten (hq : Accounted w q) {name : Port} {k : Nat}
    (hmem : (⟨name, false⟩, k) ∈ w.loose p) :
    Accounted { w with
      loose := update w.loose p ((w.loose p).erase (⟨name, false⟩, k))
      raw := update w.raw p (w.raw p ++ [(name, k)]) } q := by
  by_cases heq : q = p
  · subst heq
    refine hq.moved (.of_eq rfl) rfl fun e => ?_
    have herase := count_map_erase MachPort.entry hmem e
    simp only [count_ledger, Function.update_self, List.count_append]
    simp only [MachPort.entry] at herase ⊢
    omega
  · exact hq.frame (.of_eq rfl) rfl (Function.update_of_ne heq ..) (Function.update_of_ne heq ..) rfl

theorem accounted_adopted (hq : Accounted w q) {e : Entry} (hmem : e ∈ w.raw p) :
    Accounted { w with
      loose := update w.loose p (w.loose p ++ [(⟨e.1, false⟩, e.2)])
      raw := update w.raw p ((w.raw p).erase e) } q := by
  by_cases heq : q = p
  · subst heq
    refine hq.moved (.of_eq rfl) rfl fun x => ?_
    have herase := count_map_erase id hmem x
    simp only [List.map_id, id] at herase
    simp only [count_ledger, Function.update_self, List.map_append, List.count_append, List.map_cons,
      List.map_nil, MachPort.entry, Prod.mk.eta]
    omega
  · exact hq.frame (.of_eq rfl) rfl (Function.update_of_ne heq ..) (Function.update_of_ne heq ..) rfl

theorem accounted_dropped (hq : Accounted w q) {x : MachPort} {k : Nat} (hmem : (x, k) ∈ w.loose p) :
    Accounted { w with
      ports := w.withoutReceiver p x
      space := update w.space p (release (w.space p) x.port)
      loose := update w.loose p ((w.loose p).erase (x, k)) } q := by
  by_cases heq : q = p
  · subst heq
    refine hq.lost (.of_withoutReceiver rfl) [MachPort.entry (x, k)] (Function.update_self ..) fun e => ?_
    have herase := count_map_erase MachPort.entry hmem e
    simp only [count_ledger, Function.update_self]
    omega
  · exact hq.frame (.of_withoutReceiver rfl) (Function.update_of_ne heq ..) (Function.update_of_ne heq ..)
      rfl rfl

/-- The names of a new message are those that its task gives up for it. -/
theorem accounted_made (hq : Accounted w q) {msg : Message} (heap : Nat → UInt8)
    {taken rest : List (MachPort × Nat)}
    (htake : takeAll (w.loose p) (msg.attachments.map (⟨·, false⟩)) = some (taken, rest)) :
    Accounted { w with
      loose := update w.loose p rest
      held := update w.held p (w.held p ++ [⟨intoEncoded codec (crate p) msg heap, ⟨crate p,
        msg.selector, msg.payload, (intoEncoded codec (crate p) msg heap).machMsg.data,
        taken.map Prod.snd⟩⟩])
      made := w.made ++ [⟨crate p, msg.selector, msg.payload,
        (intoEncoded codec (crate p) msg heap).machMsg.data, taken.map Prod.snd⟩] } q := by
  by_cases heq : q = p
  · subst heq
    refine hq.moved (.of_eq rfl) rfl fun e => ?_
    have hperm := ((takeAll_perm htake).map MachPort.entry).count_eq e
    have hentries : Letter.entries ⟨intoEncoded codec (crate q) msg heap, _⟩ = _ :=
      Letter.entries_intoEncoded (takeAll_spec htake).1 (intoEncoded codec (crate q) msg heap).machMsg.data
    simp only [count_ledger, Function.update_self, List.flatMap_append, List.count_append,
      List.flatMap_cons, List.flatMap_nil, List.append_nil, hentries]
    rw [List.map_append, List.count_append] at hperm
    omega
  · exact hq.frame (.of_eq rfl) rfl (Function.update_of_ne heq ..) rfl (Function.update_of_ne heq ..)

theorem accounted_unpacked (hq : Accounted w q) {i : Nat} {letter : Letter}
    (hletter : (w.held p)[i]? = some letter) :
    Accounted { w with
      loose := update w.loose p (w.loose p ++ letter.entries.map fun e => (⟨e.1, false⟩, e.2))
      held := update w.held p ((w.held p).eraseIdx i) } q := by
  by_cases heq : q = p
  · subst heq
    refine hq.moved (.of_eq rfl) rfl fun e => ?_
    have herase := count_flatMap_eraseIdx Letter.entries hletter e
    have hmap : (letter.entries.map fun e => ((⟨e.1, false⟩ : MachPort), e.2)).map MachPort.entry =
        letter.entries := by
      rw [List.map_map]
      exact List.map_id _
    simp only [count_ledger, Function.update_self, List.map_append, List.count_append, hmap]
    omega
  · exact hq.frame (.of_eq rfl) rfl (Function.update_of_ne heq ..) rfl (Function.update_of_ne heq ..)

theorem accounted_discarded (h : Sound codec w) {i : Nat} {letter : Letter}
    (hletter : (w.held p)[i]? = some letter) :
    Accounted { w with
      space := update w.space p (letter.msg.attachments.foldl release (w.space p))
      held := update w.held p ((w.held p).eraseIdx i) } q := by
  have hfine := h.letters p letter (List.mem_of_getElem? hletter)
  by_cases heq : q = p
  · subst heq
    refine (h.accounted q).lost (.of_eq rfl) letter.entries ?_ fun e => ?_
    · rw [Letter.entries_fst hfine]
      exact Function.update_self ..
    · have herase := count_flatMap_eraseIdx Letter.entries hletter e
      simp only [count_ledger, Function.update_self]
      omega
  · exact (h.accounted q).frame (.of_eq rfl) (Function.update_of_ne heq ..) rfl rfl
      (Function.update_of_ne heq ..)

/-- The address of a message is not among its names. -/
theorem accounted_addressed (hq : Accounted w q) {i : Nat} {letter : Letter} (remote : Port)
    {ports : List PortState} (hletter : (w.held p)[i]? = some letter)
    (hg : Grows w { w with
      held := update w.held p ((w.held p).set i (letter.address remote))
      ports := ports }) :
    Accounted { w with
      held := update w.held p ((w.held p).set i (letter.address remote))
      ports := ports } q := by
  by_cases heq : q = p
  · subst heq
    refine hq.moved hg rfl fun e => ?_
    have hset := count_flatMap_set Letter.entries hletter (letter.address remote) e
    have hentries : (letter.address remote).entries = letter.entries := rfl
    rw [hentries] at hset
    simp only [count_ledger, Function.update_self]
    omega
  · exact hq.frame hg rfl rfl rfl (Function.update_of_ne heq ..)

section Arrivals

variable {k : Nat} {port : PortState} {packet : Packet} {queue : List Packet} {names : List Port}
  {space : Port → Option (Nat × Nat)}

/-- The names of a message that has arrived are those that its rights have got. -/
theorem accounted_received (h : Sound codec w) (hport : w.ports[k]? = some port)
    (hqueue : port.queue = packet :: queue)
    (hspace : copyout w.portAlive (w.space p) packet.rights names = some space) {msg : EncodedMessage}
    (hattach : msg.attachments = names) (hports' : w'.ports = w.ports.set k { port with queue := queue })
    (hspace' : w'.space = update w.space p space) (hloose' : w'.loose = w.loose) (hraw' : w'.raw = w.raw)
    (hheld' : w'.held = update w.held p (w.held p ++ [⟨msg, packet.origin⟩])) : Accounted w' q := by
  obtain ⟨-, -, htallies, hnamed⟩ := h.copyout hport hqueue hspace
  have hg : Grows w w' := .of_taken hport hports'
  by_cases heq : q = p
  · subst heq
    have hc : ∀ e, (w'.ledger q).count e = (w.ledger q).count e + (names.zip packet.origin.ports).count e := by
      intro e
      simp only [count_ledger, hloose', hraw', hheld', Function.update_self, List.flatMap_append,
        List.count_append, List.flatMap_cons, List.flatMap_nil, List.append_nil, Letter.entries, hattach]
      omega
    refine ⟨?_, fun e he => ?_⟩
    · rw [hspace', Function.update_self]
      exact htallies.moved fun e _ => hc e
    · rw [← List.count_pos_iff, hc] at he
      by_cases hold : e ∈ w.ledger q
      · exact ((h.accounted q).named e hold).mono hg
      · rw [List.count_eq_zero.mpr hold, Nat.zero_add, List.count_pos_iff] at he
        exact (hnamed e he).mono hg
  · refine (h.accounted q).frame hg ?_ (congrFun hloose' q) (congrFun hraw' q) ?_
    · rw [hspace', Function.update_of_ne heq]
    · rw [hheld', Function.update_of_ne heq]

/-- The names of a message that is refused are given back. -/
theorem accounted_refused (h : Sound codec w) (hport : w.ports[k]? = some port)
    (hqueue : port.queue = packet :: queue)
    (hspace : copyout w.portAlive (w.space p) packet.rights names = some space)
    (hports' : w'.ports = w.ports.set k { port with queue := queue })
    (hspace' : w'.space = update w.space p (names.foldl release space)) (hloose' : w'.loose = w.loose)
    (hraw' : w'.raw = w.raw) (hheld' : w'.held = w.held) : Accounted w' q := by
  obtain ⟨-, hlen, htallies, -⟩ := h.copyout hport hqueue hspace
  have hg : Grows w w' := .of_taken hport hports'
  have hledger : w'.ledger q = w.ledger q := by rw [World.ledger, World.ledger, hloose', hraw', hheld']
  by_cases heq : q = p
  · subst heq
    refine ⟨?_, fun x hx => ((h.accounted q).named x (hledger ▸ hx)).mono hg⟩
    have hreleased : Tallies (· ≠ machPortDead)
        (((names.zip packet.origin.ports).map Prod.fst).foldl release space)
        (fun e => (w.ledger q).count e) := htallies.releasedAll fun _ _ => rfl
    rw [List.map_fst_zip hlen.le] at hreleased
    rwa [hspace', Function.update_self, hledger]
  · refine (h.accounted q).moved hg ?_ fun e => by rw [hledger]
    rw [hspace', Function.update_of_ne heq]

end Arrivals

theorem accounted_died (hq : Accounted w q) (hports' : w'.ports = w.ports.map (PortState.leave p))
    (hspace' : w'.space = update w.space p fun _ => none) (hloose' : w'.loose = update w.loose p [])
    (hraw' : w'.raw = update w.raw p []) (hheld' : w'.held = update w.held p []) : Accounted w' q := by
  by_cases heq : q = p
  · subst heq
    have hledger : w'.ledger q = [] := by simp [World.ledger, hloose', hraw', hheld']
    refine ⟨?_, by simp [hledger]⟩
    rw [hledger, hspace', Function.update_self]
    exact tallies_nil
  · refine hq.frame (.of_leave hports') ?_ ?_ ?_ ?_
    · rw [hspace', Function.update_of_ne heq]
    · rw [hloose', Function.update_of_ne heq]
    · rw [hraw', Function.update_of_ne heq]
    · rw [hheld', Function.update_of_ne heq]

end Account

theorem portAlive_lt {k : Nat} (h : w.portAlive k = true) : k < w.ports.length := by
  by_contra hle
  rw [World.portAlive, List.getElem?_eq_none (Nat.le_of_not_lt hle)] at h
  cases h

theorem Moved.accounted (h : Sound codec w) (hm : Moved kernel codec crate w w') (q : Task) :
    Accounted w' q := by
  have hq := h.accounted q
  have hgrows := hm.grows
  cases hm with
  | idle => exact hq
  | created ha hgrants =>
    obtain ⟨-, hreal, hname⟩ := grants_iff.mp hgrants
    exact accounted_granted hq hgrows hreal hname (by simp)
  | granted ha hreal hname hk => exact accounted_granted hq hgrows hreal hname (portAlive_lt hk)
  | forgotten hmem => exact accounted_forgotten hq hmem
  | adopted hmem => exact accounted_adopted hq hmem
  | dropped hmem => exact accounted_dropped hq hmem
  | made hfits ha htake => exact accounted_made hq _ htake
  | unpacked hletter => exact accounted_unpacked hq hletter
  | discarded hletter => exact accounted_discarded h hletter
  | kept hletter => exact accounted_addressed hq _ hletter hgrows
  | sent hletter => exact accounted_addressed hq _ hletter hgrows
  | received hport hhome hqueue hspace hnew =>
    obtain ⟨hfine, hlen, -, -⟩ := h.copyout hport hqueue hspace
    exact accounted_received h hport hqueue hspace (hfine.new hlen hnew).2 rfl rfl rfl rfl rfl
  | @refused p k port packet queue header trailer names space e hport hhome hqueue hspace =>
    obtain ⟨hfine, hlen, -, -⟩ := h.copyout hport hqueue hspace
    have hspace' := congrArg (fun names => update w.space p (names.foldl release space))
      (hfine.names hlen header trailer)
    exact accounted_refused h hport hqueue hspace rfl hspace' rfl rfl rfl
  | died => exact accounted_died hq rfl rfl rfl rfl rfl

theorem Moved.letters (h : Sound codec w) (hm : Moved kernel codec crate w w') (q : Task) :
    ∀ letter ∈ w'.held q, letter.Fine codec w'.made := by
  have hsub := hm.made_subset
  have hold : ∀ {p : Task}, ∀ letter ∈ w.held p, letter.Fine codec w'.made :=
    fun letter hl => (h.letters _ letter hl).mono hsub
  have hupdate : ∀ {p : Task} {letters : List Letter}, (∀ letter ∈ letters, letter.Fine codec w'.made) →
      ∀ letter ∈ update w.held p letters q, letter.Fine codec w'.made := by
    intro p letters hletters
    by_cases hq : q = p
    · rw [hq, Function.update_self]
      exact hletters
    · rw [Function.update_of_ne hq]
      exact hold
  have hadd : ∀ {p : Task} {letter : Letter}, letter.Fine codec w'.made →
      ∀ letter' ∈ w.held p ++ [letter], letter'.Fine codec w'.made := by
    intro p letter hletter letter' hmem
    obtain hmem | hmem := List.mem_append.mp hmem
    · exact hold letter' hmem
    · rwa [List.mem_singleton.mp hmem]
  have herase : ∀ {p : Task} {i : Nat}, ∀ letter ∈ (w.held p).eraseIdx i, letter.Fine codec w'.made :=
    fun letter hmem => hold letter (List.mem_of_mem_eraseIdx hmem)
  have haddress : ∀ {p : Task} {i : Nat} {letter : Letter} {remote : Port}, (w.held p)[i]? = some letter →
      ∀ letter' ∈ (w.held p).set i (letter.address remote), letter'.Fine codec w'.made := by
    intro p i letter remote hletter letter' hmem
    obtain hmem | rfl := List.mem_or_eq_of_mem_set hmem
    · exact hold letter' hmem
    · exact (hold letter (List.mem_of_getElem? hletter)).address remote
  cases hm with
  | made hfits ha htake =>
    exact hupdate (hadd (fine_made hfits htake (List.mem_append_right _ List.mem_cons_self)))
  | unpacked | discarded => exact hupdate herase
  | kept hletter => exact hupdate (haddress hletter)
  | sent hletter => exact hupdate (haddress hletter)
  | received hport hhome hqueue hspace hnew =>
    obtain ⟨hfine, hlen, -, -⟩ := h.copyout hport hqueue hspace
    exact hupdate (hadd (hfine.new hlen hnew).1)
  | died =>
    refine hupdate ?_
    simp
  | _ => exact hold

theorem Moved.packets (h : Sound codec w) (hm : Moved kernel codec crate w w') :
    ∀ port ∈ w'.ports, ∀ packet ∈ port.queue, packet.Fine codec w' := by
  have hsub := hm.made_subset
  have hgrows := hm.grows
  have hold : ∀ port ∈ w.ports, ∀ packet ∈ port.queue, packet.Fine codec w' :=
    fun port hport packet hpacket => (h.packets port hport packet hpacket).mono hsub hgrows
  have hleave : ∀ {p : Task} {port : PortState}, port ∈ w.ports →
      ∀ packet ∈ (port.leave p).queue, packet.Fine codec w' := by
    intro p port hport packet hpacket
    rw [PortState.leave] at hpacket
    split at hpacket
    · cases hpacket
    · exact hold port hport packet hpacket
  have htaken : ∀ {k : Nat} {port : PortState} {packet : Packet} {queue : List Packet},
      w.ports[k]? = some port → port.queue = packet :: queue →
      ∀ port' ∈ w.ports.set k { port with queue := queue }, ∀ packet ∈ port'.queue,
        packet.Fine codec w' := by
    intro k port packet queue hport hqueue port' hport' packet' hpacket'
    obtain hmem | rfl := List.mem_or_eq_of_mem_set hport'
    · exact hold port' hmem packet' hpacket'
    · refine hold port (List.mem_of_getElem? hport) packet' ?_
      rw [hqueue]
      exact List.mem_cons_of_mem _ hpacket'
  have hmodify : ∀ {k : Nat} {f : PortState → PortState},
      (∀ port ∈ w.ports, ∀ packet ∈ (f port).queue, packet.Fine codec w') →
      ∀ port' ∈ w.ports.modify k f, ∀ packet ∈ port'.queue, packet.Fine codec w' := by
    intro k f hf port' hport'
    obtain ⟨i, hi⟩ := List.mem_iff_getElem?.mp hport'
    rw [List.getElem?_modify] at hi
    obtain ⟨port, hport, rfl⟩ := Option.map_eq_some_iff.mp hi
    have hmem := List.mem_of_getElem? hport
    split
    · exact hf port hmem
    · exact hold port hmem
  cases hm with
  | created ha hgrants hspace halive hqueue hhome =>
    intro port hport
    obtain hport | hport := List.mem_append.mp hport
    · exact hold port hport
    · rw [List.mem_singleton.mp hport, hqueue]
      simp
  | @dropped p x k =>
    intro port hport
    replace hport : port ∈ w.withoutReceiver p x := hport
    obtain hsame | ⟨k', n, -, -, hmodified⟩ := withoutReceiver_cases w p x
    · rw [hsame] at hport
      exact hold port hport
    · rw [hmodified] at hport
      exact hmodify (fun port => hleave) port hport
  | @sent p i letter remote k n rights hletter hspace hk hrights =>
    have hfine := (h.letters p letter (List.mem_of_getElem? hletter)).address remote
    refine hmodify fun port hport packet hpacket => ?_
    obtain hpacket | hpacket := List.mem_append.mp hpacket
    · exact hold port hport packet hpacket
    · rw [List.mem_singleton.mp hpacket]
      refine ⟨⟨_, hfine.mono hsub, rfl⟩, ?_⟩
      have hnames : (letter.address remote).msg.machMsg.descriptors.map PortDescriptor.name =
          letter.msg.attachments := by
        rw [hfine.shaped.descriptors, List.map_map]
        exact List.map_id _
      rw [hnames] at hrights
      refine ((h.accounted p).copyin hfine.length (fun e he => ?_) hrights).imp fun _ _ hc => hc.mono hgrows
      exact mem_held (List.mem_of_getElem? hletter) he
  | received hport hhome hqueue => exact htaken hport hqueue
  | refused hport hhome hqueue => exact htaken hport hqueue
  | died =>
    intro port' hport'
    obtain ⟨port, hport, rfl⟩ := List.mem_map.mp hport'
    exact hleave hport
  | _ => exact hold

theorem countP_receivers {l : List (MachPort × Nat)} (h : ∀ x ∈ l, x.1.receiveRight = false) (k : Nat) :
    l.countP (fun x => x.1.receiveRight && x.2 == k) = 0 := by
  rw [List.countP_eq_zero]
  intro x hx
  simp [h x hx]

theorem receives_leave (p q : Task) (port : PortState) :
    ((port.leave p).alive && (port.leave p).home == some q) =
      (port.alive && port.home == some q && !decide (q = p)) := by
  rw [PortState.leave]
  split
  · rename_i hhome
    by_cases hq : q = p
    · simp [hhome, hq]
    · have hne : (some p == some q) = false := by simpa using Ne.symm hq
      simp [hhome, hne]
  · rename_i hhome
    by_cases hq : q = p
    · subst hq
      simp [hhome]
    · simp [hq]

/-- The ports keep their tasks, and stay alive. -/
theorem receives_congr {q : Task} {k : Nat}
    (h : w'.ports[k]?.map (fun port => (port.alive, port.home)) =
      w.ports[k]?.map fun port => (port.alive, port.home)) : w'.receives q k = w.receives q k := by
  have hany : ∀ ports : List PortState, (ports[k]?.any fun port => port.alive && port.home == some q) =
      (ports[k]?.map fun port => (port.alive, port.home)).any fun x => x.1 && x.2 == some q := by
    intro ports
    cases ports[k]? <;> rfl
  rw [World.receives, World.receives, hany, hany, h]

theorem taken_status {k' : Nat} {port : PortState} (hport : w.ports[k']? = some port) (queue : List Packet)
    (k : Nat) :
    (w.ports.set k' { port with queue := queue })[k]?.map (fun port => (port.alive, port.home)) =
      w.ports[k]?.map fun port => (port.alive, port.home) := by
  by_cases hk : k' = k
  · subst hk
    rw [List.getElem?_set_self (List.getElem?_eq_some_iff.mp hport).1, hport]
    rfl
  · rw [List.getElem?_set_ne hk]

/-- A receive right is for the port that its name has been given for. -/
theorem Sound.withoutReceiver (h : Sound codec w) {p : Task} {x : MachPort} {k : Nat}
    (hmem : (x, k) ∈ w.loose p) :
    w.withoutReceiver p x = if x.receiveRight then w.ports.modify k (PortState.leave p) else w.ports := by
  obtain hsame | ⟨k', n, hx, hspace, hmodified⟩ := withoutReceiver_cases w p x
  · cases hx : x.receiveRight with
    | false => simpa using hsame
    | true =>
      have hget := (h.accounted p).get (mem_loose hmem) (h.real p _ hmem hx)
      simp only [MachPort.entry] at hget
      simp only [World.withoutReceiver, hget, hx]
  · have hget := (h.accounted p).get (mem_loose hmem) (h.real p _ hmem hx)
    simp only [MachPort.entry] at hget
    rw [hspace] at hget
    cases hget
    rw [hmodified, if_pos hx]

section Receivers

variable {p q : Task} {k : Nat}

theorem Sound.receivers_same (h : Sound codec w) (hreceivers : w'.receivers q k = w.receivers q k)
    (hreceives : w'.receives q k = w.receives q k) :
    w'.receivers q k = if w'.receives q k then 1 else 0 := by
  rw [hreceivers, hreceives, h.receivers q k]

theorem receivers_append {l : List (MachPort × Nat)} (hl : ∀ x ∈ l, x.1.receiveRight = false) :
    (update w.loose p (w.loose p ++ l) q).countP (fun x => x.1.receiveRight && x.2 == k) =
      w.receivers q k := by
  by_cases heq : q = p
  · subst heq
    rw [Function.update_self, List.countP_append, countP_receivers hl, World.receivers, Nat.add_zero]
  · rw [Function.update_of_ne heq, World.receivers]

theorem receivers_erase {x : MachPort × Nat} (hx : x ∈ w.loose p) :
    (update w.loose p ((w.loose p).erase x) q).countP (fun x => x.1.receiveRight && x.2 == k) +
      (if q = p ∧ x.1.receiveRight = true ∧ x.2 = k then 1 else 0) = w.receivers q k := by
  by_cases heq : q = p
  · subst heq
    have hperm := (List.perm_cons_erase hx).countP_eq fun x => x.1.receiveRight && x.2 == k
    rw [List.countP_cons] at hperm
    rw [Function.update_self, World.receivers, hperm]
    simp
  · rw [Function.update_of_ne heq, World.receivers, if_neg (by simp [heq])]
    rfl

theorem receives_append {port : PortState} (halive : port.alive = true)
    (hports' : w'.ports = w.ports ++ [port]) :
    w'.receives q k = if k = w.ports.length then port.home == some q else w.receives q k := by
  rw [World.receives, hports']
  split
  · rename_i hk
    subst hk
    simp [halive]
  · rename_i hk
    rw [World.receives]
    by_cases hlt : k < w.ports.length
    · rw [List.getElem?_append_left hlt]
    · rw [List.getElem?_eq_none (Nat.le_of_not_lt hlt), List.getElem?_eq_none (by simp; omega)]

/-- A new port is received from if it has come with its receive right. -/
theorem Sound.receivers_created (h : Sound codec w) {x : MachPort} {port : PortState}
    (halive : port.alive = true) (hhome : port.home = if x.receiveRight then some p else none)
    (hports' : w'.ports = w.ports ++ [port])
    (hloose' : w'.loose = update w.loose p (w.loose p ++ [(x, w.ports.length)])) :
    w'.receivers q k = if w'.receives q k then 1 else 0 := by
  have hq : (w.loose q).countP (fun x => x.1.receiveRight && x.2 == k) = if w.receives q k then 1 else 0 :=
    h.receivers q k
  have hnew : w.receives q w.ports.length = false := by simp [World.receives]
  rw [receives_append halive hports', hhome, World.receivers, hloose']
  cases hx : x.receiveRight with
  | false =>
    rw [receivers_append (by simpa using hx), h.receivers q k]
    by_cases hk : k = w.ports.length
    · subst hk
      simp [hnew]
    · simp [hk]
  | true =>
    by_cases heq : q = p
    · subst heq
      rw [Function.update_self, List.countP_append, hq]
      by_cases hk : k = w.ports.length
      · subst hk
        simp [hnew, hx]
      · have hne : (w.ports.length == k) = false := by simpa using Ne.symm hk
        simp [hk, hx, hne]
    · rw [Function.update_of_ne heq, hq]
      have hne : (some p == some q) = false := by simpa using Ne.symm heq
      by_cases hk : k = w.ports.length
      · subst hk
        simp [hnew, hne]
      · simp [hk]

theorem Sound.receives_dropped (h : Sound codec w) {x : MachPort} {k' : Nat} (hmem : (x, k') ∈ w.loose p)
    (hports' : w'.ports = w.withoutReceiver p x) :
    w'.receives q k = (w.receives q k && !decide (q = p ∧ x.receiveRight = true ∧ k' = k)) := by
  simp only [World.receives, hports', h.withoutReceiver hmem]
  cases hx : x.receiveRight with
  | false => simp
  | true =>
    simp only [if_true, List.getElem?_modify]
    by_cases hk : k' = k
    · cases w.ports[k]? <;> simp [hk, receives_leave]
    · cases w.ports[k]? <;> simp [hk]

/-- The port of a receive right dies with it. -/
theorem Sound.receivers_dropped (h : Sound codec w) {x : MachPort} {k' : Nat} (hmem : (x, k') ∈ w.loose p)
    (hports' : w'.ports = w.withoutReceiver p x)
    (hloose' : w'.loose = update w.loose p ((w.loose p).erase (x, k'))) :
    w'.receivers q k = if w'.receives q k then 1 else 0 := by
  have hq := h.receivers q k
  rw [← receivers_erase hmem] at hq
  rw [h.receives_dropped hmem hports', World.receivers, hloose']
  by_cases hthis : q = p ∧ x.receiveRight = true ∧ k' = k
  · rw [if_pos hthis] at hq
    cases hr : w.receives q k with
    | true =>
      simp only [hr, if_true] at hq
      rw [decide_eq_true hthis, if_neg (by simp)]
      omega
    | false => simp [hr] at hq
  · rw [if_neg hthis, Nat.add_zero] at hq
    simp only [hthis, decide_false, Bool.not_false, Bool.and_true]
    exact hq

/-- A message takes no receive right along. -/
theorem receivers_taken {names : List Port} {taken rest : List (MachPort × Nat)}
    (htake : takeAll (w.loose p) (names.map (⟨·, false⟩)) = some (taken, rest)) :
    (update w.loose p rest q).countP (fun x => x.1.receiveRight && x.2 == k) = w.receivers q k := by
  by_cases heq : q = p
  · subst heq
    have htaken : ∀ x ∈ taken, x.1.receiveRight = false := by
      intro x hx
      have hkey : x.1 ∈ names.map (⟨·, false⟩) := (takeAll_spec htake).1 ▸ List.mem_map_of_mem hx
      obtain ⟨name, -, hname⟩ := List.mem_map.mp hkey
      rw [← hname]
    have hperm := (takeAll_perm htake).countP_eq fun x => x.1.receiveRight && x.2 == k
    rw [List.countP_append, countP_receivers htaken, Nat.zero_add] at hperm
    rw [Function.update_self, World.receivers]
    exact hperm
  · rw [Function.update_of_ne heq, World.receivers]

theorem Sound.receivers_died (h : Sound codec w) (hports' : w'.ports = w.ports.map (PortState.leave p))
    (hloose' : w'.loose = update w.loose p []) : w'.receivers q k = if w'.receives q k then 1 else 0 := by
  have hreceives : w'.receives q k = (w.receives q k && !decide (q = p)) := by
    simp only [World.receives, hports', List.getElem?_map]
    cases w.ports[k]? with
    | none => rfl
    | some port => exact receives_leave p q port
  rw [hreceives, World.receivers, hloose']
  by_cases heq : q = p
  · simp [heq]
  · rw [Function.update_of_ne heq]
    simpa [World.receivers, heq] using h.receivers q k

end Receivers

/-- The receive right of a port is with one `MachPort`, which its task has as long as the port
lives. -/
theorem Moved.receivers (h : Sound codec w) (hm : Moved kernel codec crate w w') (q : Task) (k : Nat) :
    w'.receivers q k = if w'.receives q k then 1 else 0 := by
  cases hm with
  | idle => exact h.receivers q k
  | created ha hgrants hspace halive hqueue hhome => exact h.receivers_created halive hhome rfl rfl
  | granted => exact h.receivers_same (receivers_append (by simp)) rfl
  | forgotten hmem =>
    have hcount := receivers_erase (q := q) (k := k) hmem
    rw [if_neg (by simp), Nat.add_zero] at hcount
    exact h.receivers_same hcount rfl
  | adopted => exact h.receivers_same (receivers_append (by simp)) rfl
  | @unpacked p i letter =>
    refine h.receivers_same (receivers_append fun x hx => ?_) rfl
    obtain ⟨e, -, rfl⟩ := List.mem_map.mp hx
    rfl
  | discarded | kept => exact h.receivers_same rfl rfl
  | dropped hmem => exact h.receivers_dropped hmem rfl rfl
  | made hfits ha htake => exact h.receivers_same (receivers_taken htake) rfl
  | @sent p i letter remote k' n rights =>
    refine h.receivers_same rfl (receives_congr ?_)
    simp only [List.getElem?_modify]
    cases w.ports[k]? with
    | none => rfl
    | some port =>
      simp only [Option.map_eq_map, Option.map_some]
      split <;> rfl
  | @received p k' port packet queue header trailer names space msg hport =>
    exact h.receivers_same rfl (receives_congr (taken_status hport queue k))
  | @refused p k' port packet queue header trailer names space e hport =>
    exact h.receivers_same rfl (receives_congr (taken_status hport queue k))
  | died => exact h.receivers_died rfl rfl

theorem Moved.real (h : Sound codec w) (hm : Moved kernel codec crate w w') (q : Task) :
    ∀ x ∈ w'.loose q, x.1.receiveRight = true → x.1.port ≠ machPortDead := by
  have hold : ∀ {p : Task}, ∀ x ∈ w.loose p, x.1.receiveRight = true → x.1.port ≠ machPortDead := h.real _
  have hupdate : ∀ {p : Task} {l : List (MachPort × Nat)},
      (∀ x ∈ l, x ∈ w.loose p ∨ (x.1.receiveRight = true → x.1.port ≠ machPortDead)) →
      ∀ x ∈ update w.loose p l q, x.1.receiveRight = true → x.1.port ≠ machPortDead := by
    intro p l hl
    by_cases heq : q = p
    · subst heq
      rw [Function.update_self]
      exact fun x hx => (hl x hx).elim (hold x) id
    · rw [Function.update_of_ne heq]
      exact hold
  have hadd : ∀ {p : Task} {l : List (MachPort × Nat)},
      (∀ x ∈ l, x.1.receiveRight = true → x.1.port ≠ machPortDead) →
      ∀ x ∈ update w.loose p (w.loose p ++ l) q, x.1.receiveRight = true → x.1.port ≠ machPortDead :=
    fun hl => hupdate fun x hx => (List.mem_append.mp hx).imp id (hl x)
  cases hm with
  | created ha hgrants => exact hadd (by simpa using fun _ => (grants_iff.mp hgrants).2.1)
  | granted => exact hadd (by simp)
  | adopted => exact hadd (by simp)
  | @unpacked p i letter =>
    refine hadd fun x hx hreceive => ?_
    obtain ⟨e, -, rfl⟩ := List.mem_map.mp hx
    cases hreceive
  | forgotten | dropped => exact hupdate fun x hx => Or.inl (List.mem_of_mem_erase hx)
  | made hfits ha htake =>
    exact hupdate fun x hx => Or.inl ((takeAll_perm htake).subset (List.mem_append_right _ hx))
  | died => exact hupdate (by simp)
  | _ => exact hold

theorem Moved.sound (h : Sound codec w) (hm : Moved kernel codec crate w w') : Sound codec w' :=
  ⟨hm.accounted h, hm.letters h, hm.packets h, hm.receivers h, hm.real h⟩

end Steps

section Runs

open Reference

/-- Task 1 tells task 0 its port, task 2 sends a memory object to task 0, and task 0 relays it. -/
def relay : List Action :=
  [.withReceiveRight 0 5, .lookUp 1 7 0, .withReceiveRight 1 8, .clone 1 8,
    .make 1 ⟨plainSelector 0, [], [8], []⟩ (fun _ => 0), .send 1 0 7 true, .discard 1 0,
    .receive 0 ⟨0, 0, 0, 0⟩ [1, 2] [9], .unpack 0 0,
    .lookUp 2 4 0, .objNew 2 6 64, .make 2 ⟨plainSelector 1, [1, 2, 3], [], [⟨6, 64⟩]⟩ (fun _ => 0),
    .send 2 0 4 true, .die 2,
    .receive 0 ⟨0, 0, 0, 0⟩ [1, 2] [11], .send 0 0 9 true, .discard 0 0,
    .receive 1 ⟨0, 0, 0, 0⟩ [3] [12]]

def plainStep : World → Action → Option World :=
  World.step (reference fun _ => none) plainCodec fun _ => ⟨0, 8, 5⟩

theorem relay_fits : ∀ a ∈ relay, a.Fits plainCodec fun _ => ⟨0, 8, 5⟩ := by
  simp only [relay, List.forall_mem_cons, List.not_mem_nil, false_implies, implies_true, Action.Fits,
    and_true,
    true_and]
  decide +kernel

theorem run_sound {actions : List Action} (hfits : ∀ a ∈ actions, a.Fits codec crate)
    (h : run (World.step kernel codec crate) World.boot actions = some w) : Sound codec w :=
  along_invariant (Sound codec)
    (fun _ _ _ hs hfits hstep => Moved.sound hs (step_moved kernel codec crate _ hfits hstep)) boot_sound
    (along_of_forall (fun a ha _ => hfits a ha) World.boot) h

/-- A name is in use exactly as long as there is somebody to account for it, with one user
reference for each of them, and it names the port that it has been given for all the time. The
dead name stands for dead ports only, and a port is alive as long as its task has the one
`MachPort` with its receive right. -/
theorem rights_accounted {actions : List Action} (hfits : ∀ a ∈ actions, a.Fits codec crate)
    (h : run (World.step kernel codec crate) World.boot actions = some w) (p : Task) :
    (∀ name k n, name ≠ machPortDead →
      (w.space p name = some (k, n) ↔ (w.ledger p).count (name, k) = n ∧ 0 < n)) ∧
    (∀ e ∈ w.ledger p, e.1 = machPortDead → w.portAlive e.2 = false) ∧
    ∀ k, w.receivers p k = if w.receives p k then 1 else 0 := by
  have hsound := run_sound hfits h
  obtain ⟨htallies, hnamed⟩ := hsound.accounted p
  refine ⟨fun name k n hreal => ⟨fun hspace => ?_, fun ⟨hcount, hpos⟩ => ?_⟩, fun e he => (hnamed e he).2,
    hsound.receivers p⟩
  · refine ⟨?_, htallies.pos name k n hreal hspace⟩
    have hcount := htallies.count (name, k) hreal
    simpa [references, hspace] using hcount
  · have hget := htallies.get (k := name) (v := k) hreal (by omega)
    rw [hget, hcount]

example : (run plainStep World.boot relay).map (fun w => (w.space 0 11, w.space 1 12, w.space 1 8)) =
    some (none, some (2, 1), some (1, 1)) := by
  decide +kernel

theorem rights_accounted_relay :
    ∃ w, run plainStep World.boot relay = some w ∧ (w.ledger 1).count (12, 2) = 1 := by
  have hrun : (run plainStep World.boot relay).map (fun w => w.space 1 12) = some (some (2, 1)) := by
    decide +kernel
  obtain ⟨w, hw, hspace⟩ := Option.map_eq_some_iff.mp hrun
  exact ⟨w, hw, (((rights_accounted relay_fits hw 1).1 12 2 1 (by decide)).mp hspace).1⟩

/-- The name is for the port, or for no port because this one is dead. -/
def Denotes (w : World) (p : Task) (name : Port) (k : Nat) : Prop :=
  if name = machPortDead then w.portAlive k = false else (w.space p name).map Prod.fst = some k

theorem Accounted.denotes {p : Task} (h : Accounted w p) {names : List Port} {ports : List Nat}
    (hlen : names.length = ports.length) (hmem : ∀ e ∈ names.zip ports, e ∈ w.ledger p) :
    List.Forall₂ (Denotes w p) names ports := by
  rw [List.forall₂_iff_zip]
  refine ⟨hlen, fun {name k} hzip => ?_⟩
  have hledger := hmem _ hzip
  rw [Denotes]
  split
  · exact (h.named _ hledger).2 ‹_›
  · rw [h.get hledger ‹_›]
    rfl

/-- However often a message has been relayed, the tasks that hold it find the selector and the
payload it was made with, and names of their own for the same ports in the same order. What is
sent is the data part as it was made, without the trailer and the rest of a buffer. -/
theorem messages_relayed {actions : List Action} (hfits : ∀ a ∈ actions, a.Fits codec crate)
    (h : run (World.step kernel codec crate) World.boot actions = some w) :
    (∀ p, ∀ letter ∈ w.held p, letter.origin ∈ w.made ∧ letter.msg.selector = letter.origin.selector ∧
      letter.msg.payload = letter.origin.payload ∧ letter.msg.machMsg.sent.data = letter.origin.body ∧
      List.Forall₂ (Denotes w p) letter.msg.attachments letter.origin.ports) ∧
    ∀ port ∈ w.ports, ∀ packet ∈ port.queue, packet.origin ∈ w.made ∧
      packet.machMsg.data = packet.origin.body ∧
      List.Forall₂ (Carries w) packet.rights packet.origin.ports := by
  have hsound := run_sound hfits h
  refine ⟨fun p letter hletter => ?_, fun port hport packet hpacket => ?_⟩
  · have hfine := hsound.letters p letter hletter
    refine ⟨hfine.made, hfine.selector, hfine.shaped.payload_eq, hfine.shaped.sent_data, ?_⟩
    exact (hsound.accounted p).denotes hfine.length fun e he => mem_held hletter he
  · have hfine := hsound.packets port hport packet hpacket
    obtain ⟨msg, hletter, hsent⟩ := hfine.letter
    refine ⟨hletter.made, ?_, hfine.rights⟩
    rw [hsent]
    exact hletter.shaped.sent_data

theorem messages_relayed_relay :
    ∃ w letter, run plainStep World.boot relay = some w ∧ letter ∈ w.held 1 ∧
      letter.msg.payload = letter.origin.payload ∧
      List.Forall₂ (Denotes w 1) letter.msg.attachments letter.origin.ports := by
  have hrun : (run plainStep World.boot relay).map (fun w => (w.held 1).length) = some 1 := by
    decide +kernel
  obtain ⟨w, hw, hlen⟩ := Option.map_eq_some_iff.mp hrun
  obtain ⟨letter, hheld⟩ := List.length_eq_one_iff.mp hlen
  have hmem : letter ∈ w.held 1 := hheld ▸ List.mem_cons_self
  obtain ⟨-, -, hpayload, -, hports⟩ := (messages_relayed relay_fits hw).1 1 letter hmem
  exact ⟨w, letter, hw, hmem, hpayload, hports⟩

end Runs

end Ipmb.MachRights
