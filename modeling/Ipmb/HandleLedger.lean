import Ipmb.HandleTables

namespace Ipmb.HandleTables

open Messages Bytes Windows Faults Custody
open Encoding (Codec)
open Function (update)

variable {codec : Codec} {crate : Pid → Version} {w w' : World} {a : Action}

theorem count_ledger (w : World) (p : Pid) (e : Entry) :
    (w.ledger p).count e = (w.loose p).count e + ((w.held p).flatMap Letter.entries).count e +
      (w.sends.flatMap (Send.own p)).count e + (w.sends.flatMap (Send.guarded p)).count e +
      (w.pipes.flatMap (Pipe.flight p)).count e + (w.lost p).count e := by
  simp only [World.ledger, List.count_append]

theorem count_own (p : Pid) (s : Send) (e : Entry) :
    (Send.own p s).count e = if p = s.pid then s.letter.entries.count e else 0 := by
  by_cases hp : p = s.pid
  · simp [Send.own, hp]
  · simp [Send.own, hp, Ne.symm hp]

theorem count_guarded (p : Pid) (s : Send) (e : Entry) :
    (Send.guarded p s).count e = if p = s.target then s.guards.count e else 0 := by
  by_cases hp : p = s.target
  · simp [Send.guarded, hp]
  · simp [Send.guarded, hp, Ne.symm hp]

theorem count_flight (p : Pid) (pipe : Pipe) (e : Entry) :
    (Pipe.flight p pipe).count e =
      if p = pipe.home then (pipe.queue.flatMap Packet.entries).count e else 0 := by
  by_cases hp : p = pipe.home
  · simp [Pipe.flight, hp]
  · simp [Pipe.flight, hp, Ne.symm hp]

/-- The table of a living process has an entry for each handle in its ledger, and no other. -/
structure Balanced (w : World) : Prop where
  covers : ∀ p, w.alive p = true → Covers (· ≠ currentProcess) (w.table p) (w.ledger p)
  current : ∀ p, w.alive p = true → ∀ e ∈ w.ledger p, e.1 = currentProcess → e.2 = .process p

theorem Balanced.resolve (h : Balanced w) {p : Pid} (ha : w.alive p = true) {e : Entry}
    (he : e ∈ w.ledger p) : w.resolve p e.1 = some e.2 := by
  rw [World.resolve]
  split
  · rename_i hcur
    rw [h.current p ha e he hcur]
  · rename_i hreal
    exact (h.covers p ha).get hreal he

/-- The tables of the processes that live on are as they were, and entries change hands. -/
theorem Balanced.survive (h : Balanced w) (ha : ∀ p, w'.alive p = true → w.alive p = true)
    (ht : ∀ p, w'.alive p = true → w'.table p = w.table p)
    (hc : ∀ p, w'.alive p = true → ∀ e, (w'.ledger p).count e = (w.ledger p).count e) : Balanced w' where
  covers p hp := by
    rw [ht p hp]
    exact (h.covers p (ha p hp)).moved fun e _ => hc p hp e
  current p hp e he := by
    rw [← List.count_pos_iff, hc p hp, List.count_pos_iff] at he
    exact h.current p (ha p hp) e he

theorem Balanced.moved (h : Balanced w) (ha : w'.alive = w.alive) (ht : w'.table = w.table)
    (hc : ∀ p e, (w'.ledger p).count e = (w.ledger p).count e) : Balanced w' :=
  h.survive (fun _ hp => ha ▸ hp) (fun p _ => congrFun ht p) fun p _ => hc p

/-- A process gets its pseudo handle. -/
theorem Balanced.pseudo (h : Balanced w) {p : Pid} (ha : w'.alive = w.alive) (ht : w'.table = w.table)
    (hself : ∀ e, (w'.ledger p).count e = (w.ledger p).count e + [(currentProcess, .process p)].count e)
    (hother : ∀ q e, q ≠ p → (w'.ledger q).count e = (w.ledger q).count e) : Balanced w' where
  covers q hq := by
    rw [ht]
    refine (h.covers q (ha ▸ hq)).moved fun e hreal => ?_
    by_cases hqp : q = p
    · subst hqp
      have hne : (currentProcess, Object.process q) ≠ e := by
        rintro rfl
        exact hreal rfl
      simp [hself, hne]
    · exact hother q e hqp
  current q hq e he hcur := by
    by_cases hqp : q = p
    · subst hqp
      by_cases heq : (currentProcess, Object.process q) = e
      · rw [← heq]
      · rw [← List.count_pos_iff, hself] at he
        refine h.current q (ha ▸ hq) e (List.count_pos_iff.mp ?_) hcur
        simpa [List.count_singleton, heq] using he
    · rw [← List.count_pos_iff, hother q e hqp, List.count_pos_iff] at he
      exact h.current q (ha ▸ hq) e he hcur

theorem Balanced.opened (h : Balanced w) {p : Pid} {k : Handle} {o : Object}
    (hk : w.table p k = none) (hreal : k ≠ currentProcess) (ha : w'.alive = w.alive)
    (ht : w'.table = update w.table p (update (w.table p) k (some o)))
    (hself : ∀ e, (w'.ledger p).count e = (w.ledger p).count e + [(k, o)].count e)
    (hother : ∀ q e, q ≠ p → (w'.ledger q).count e = (w.ledger q).count e) : Balanced w' where
  covers q hq := by
    rw [ht]
    by_cases hqp : q = p
    · subst hqp
      rw [Function.update_self]
      exact (h.covers q (ha ▸ hq)).opened hk fun e _ => hself e
    · rw [Function.update_of_ne hqp]
      exact (h.covers q (ha ▸ hq)).moved fun e _ => hother q e hqp
  current q hq e he hcur := by
    rw [← List.count_pos_iff] at he
    refine h.current q (ha ▸ hq) e (List.count_pos_iff.mp ?_) hcur
    by_cases hqp : q = p
    · subst hqp
      rw [hself] at he
      have hne : (k, o) ≠ e := by
        rintro rfl
        exact hreal hcur
      simpa [List.count_singleton, hne] using he
    · rwa [hother q e hqp] at he

theorem Balanced.closed (h : Balanced w) {p : Pid} (gone : List Entry) (ha : w'.alive = w.alive)
    (ht : w'.table = update w.table p (closeAll (w.table p) (gone.map Prod.fst)))
    (hself : ∀ e, (w'.ledger p).count e + gone.count e = (w.ledger p).count e)
    (hother : ∀ q e, q ≠ p → (w'.ledger q).count e = (w.ledger q).count e) : Balanced w' where
  covers q hq := by
    rw [ht]
    by_cases hqp : q = p
    · subst hqp
      rw [Function.update_self]
      apply (h.covers q (ha ▸ hq)).closed gone
      · intro k hk
        simp only [closeAll, List.contains_iff_mem, ne_eq, hk, not_false_eq_true, and_true]
      · exact fun e _ => hself e
    · rw [Function.update_of_ne hqp]
      exact (h.covers q (ha ▸ hq)).moved fun e _ => hother q e hqp
  current q hq e he hcur := by
    rw [← List.count_pos_iff] at he
    refine h.current q (ha ▸ hq) e (List.count_pos_iff.mp ?_) hcur
    by_cases hqp : q = p
    · subst hqp
      have := hself e
      omega
    · rwa [hother q e hqp] at he

section Letters

variable {made made' : List Origin} {letter : Letter}

/-- The message is a faithful copy of one that has been made. -/
structure Letter.Fine (codec : Codec) (made : List Origin) (letter : Letter) : Prop where
  shaped : Shaped codec letter.origin.version letter.origin.payload letter.msg
  selector : letter.msg.selector = letter.origin.selector
  length : letter.msg.attachments.length = letter.origin.objects.length
  sizes : (letter.origin.objects.drop letter.msg.objects.length).map Object.bufferSize =
    letter.msg.memoryRegions.map fun r => some r.bufferSize
  made : letter.origin ∈ made

theorem Letter.Fine.mono (h : letter.Fine codec made) (hsub : made ⊆ made') :
    letter.Fine codec made' :=
  ⟨h.shaped, h.selector, h.length, h.sizes, hsub h.made⟩

theorem Letter.Fine.filled (h : letter.Fine codec made) {handles : List Handle}
    (hlen : handles.length ≤ letter.msg.attachments.length) :
    Letter.Fine codec made ⟨Windows.filled letter.msg handles, letter.origin⟩ :=
  ⟨h.shaped.fill hlen, h.selector, h.length, h.sizes, h.made⟩

theorem Letter.Fine.received (h : letter.Fine codec made) {handles : List Handle}
    (hlen : handles.length = letter.msg.attachments.length) :
    Letter.Fine codec made ⟨Windows.received letter.msg handles, letter.origin⟩ where
  shaped := h.shaped.receive hlen
  selector := h.selector
  length := by rw [received_attachments hlen, hlen, h.length]
  sizes := by
    have hobjects : (Windows.received letter.msg handles).objects.length = letter.msg.objects.length := by
      rw [Windows.received, List.length_take, hlen, EncodedMessage.length_attachments]
      omega
    have hregions : (handles.drop letter.msg.objects.length).length = letter.msg.memoryRegions.length := by
      rw [List.length_drop, hlen, EncodedMessage.length_attachments]
      omega
    rw [hobjects, h.sizes, Windows.received, List.map_zipWith, ← List.map_uncurry_zip_eq_zipWith]
    conv_lhs => rw [← List.map_snd_zip hregions.ge, List.map_map]
    rfl
  made := h.made

theorem Letter.Fine.entries_fst (h : letter.Fine codec made) :
    letter.entries.map Prod.fst = letter.msg.attachments :=
  List.map_fst_zip h.length.le

/-- The packet is what a call of `send_helper` has written. -/
def Packet.Fine (codec : Codec) (made : List Origin) (packet : Packet) : Prop :=
  ∃ msg handles, Letter.Fine codec made ⟨msg, packet.origin⟩ ∧
    handles.length = msg.attachments.length ∧ packet.bytes = written msg handles

theorem Packet.Fine.spec {packet : Packet} (h : packet.Fine codec made) :
    ∃ msg handles, Letter.Fine codec made ⟨msg, packet.origin⟩ ∧
      handles.length = msg.attachments.length ∧ packet.bytes = written msg handles ∧
      readObjects packet.bytes = handles ∧ packet.entries = handles.zip packet.origin.objects ∧
      packet.entries.map Prod.fst = handles := by
  obtain ⟨msg, handles, hletter, hlen, hbytes⟩ := h
  have hread : readObjects packet.bytes = handles := by rw [hbytes, hletter.shaped.readObjects_written hlen]
  have hentries : packet.entries = handles.zip packet.origin.objects := by rw [Packet.entries, hread]
  refine ⟨msg, handles, hletter, hlen, hbytes, hread, hentries, ?_⟩
  rw [hentries, List.map_fst_zip (hlen.trans hletter.length).le]

theorem Packet.Fine.mono {packet : Packet} (h : packet.Fine codec made) (hsub : made ⊆ made') :
    packet.Fine codec made' := by
  obtain ⟨msg, handles, hletter, hlen, hbytes⟩ := h
  exact ⟨msg, handles, hletter.mono hsub, hlen, hbytes⟩

structure Send.Fine (codec : Codec) (made : List Origin) (s : Send) : Prop where
  letter : s.letter.Fine codec made
  length : s.handles.length ≤ s.letter.msg.attachments.length
  guards_le : s.guards.length ≤ s.handles.length
  guards : s.failed = false → s.guards = s.handles.zip s.letter.origin.objects

theorem Send.Fine.mono {s : Send} (h : s.Fine codec made) (hsub : made ⊆ made') :
    s.Fine codec made' :=
  ⟨h.letter.mono hsub, h.length, h.guards_le, h.guards⟩

end Letters

/-- The values that a call borrows are there, and name its target. -/
structure Lent (w : World) (s : Send) : Prop where
  alive : w.alive s.pid = true
  pipe : ∃ k pipe, (s.remote.pipe, .writeEnd k) ∈ w.loose s.pid ∧ w.pipes[k]? = some pipe ∧
    pipe.home = s.target
  process : s.letter.msg.attachments = [] ∨
    ∃ h, s.remote.process = some h ∧ (h, .process s.target) ∈ w.loose s.pid

structure Sound (codec : Codec) (w : World) : Prop where
  balanced : Balanced w
  letters : ∀ p, ∀ letter ∈ w.held p, letter.Fine codec w.made
  sends : ∀ s ∈ w.sends, s.Fine codec w.made ∧ Lent w s
  packets : ∀ pipe ∈ w.pipes, ∀ packet ∈ pipe.queue, packet.Fine codec w.made

section Balance

theorem mem_loose {p : Pid} {e : Entry} (h : e ∈ w.loose p) : e ∈ w.ledger p := by
  simp only [World.ledger, List.mem_append]
  tauto

theorem mem_held {p : Pid} {letter : Letter} {e : Entry} (h : letter ∈ w.held p)
    (he : e ∈ letter.entries) : e ∈ w.ledger p := by
  have hmem := List.mem_flatMap.mpr ⟨letter, h, he⟩
  simp only [World.ledger, List.mem_append]
  tauto

theorem mem_own {s : Send} {e : Entry} (h : s ∈ w.sends) (he : e ∈ s.letter.entries) :
    e ∈ w.ledger s.pid := by
  have hmem := List.mem_flatMap.mpr ⟨s, h, (by rwa [Send.own, if_pos rfl] : e ∈ Send.own s.pid s)⟩
  simp only [World.ledger, List.mem_append]
  tauto

theorem mem_flight {k : Nat} {pipe : Pipe} {packet : Packet} {e : Entry} (h : w.pipes[k]? = some pipe)
    (hp : packet ∈ pipe.queue) (he : e ∈ packet.entries) : e ∈ w.ledger pipe.home := by
  have hflight : e ∈ Pipe.flight pipe.home pipe := by
    rw [Pipe.flight, if_pos rfl]
    exact List.mem_flatMap.mpr ⟨packet, hp, he⟩
  have hmem := List.mem_flatMap.mpr ⟨pipe, List.mem_of_getElem? h, hflight⟩
  simp only [World.ledger, List.mem_append]
  tauto

/-- The pipe that a call writes to is read by its target. -/
theorem Lent.home {s : Send} (hb : Balanced w) (hl : Lent w s) {k : Nat} {pipe : Pipe}
    (hk : w.resolve s.pid s.remote.pipe = some (.writeEnd k)) (hpipe : w.pipes[k]? = some pipe) :
    pipe.home = s.target := by
  obtain ⟨k', pipe', hmem, hpipe', hhome⟩ := hl.pipe
  rw [hb.resolve hl.alive (mem_loose hmem)] at hk
  cases hk
  rw [hpipe'] at hpipe
  cases hpipe
  exact hhome

/-- The process that a call duplicates its handles for is its target. -/
theorem Lent.target {s : Send} (hb : Balanced w) (hl : Lent w s)
    (hne : s.letter.msg.attachments ≠ []) :
    s.remote.process.bind (w.resolve s.pid) = some (.process s.target) := by
  obtain hnil | ⟨h, hprocess, hmem⟩ := hl.process
  · exact absurd hnil hne
  · rw [hprocess, Option.bind_some, hb.resolve hl.alive (mem_loose hmem)]

/-- A reader of a compatible version gets the message, the other one closes its handles. -/
theorem Balanced.new_packet (h : Balanced w) {k : Nat} {pipe : Pipe} {packet : Packet}
    {queue : List Packet} (hpipe : w.pipes[k]? = some pipe) (hqueue : pipe.queue = packet :: queue)
    (ha : w.alive pipe.home = true) {made : List Origin} {msg : EncodedMessage} {handles : List Handle}
    (hletter : Letter.Fine codec made ⟨msg, packet.origin⟩)
    (hlen : handles.length = msg.attachments.length) (hbytes : packet.bytes = written msg handles) :
    new (w.mapHeader pipe.home) codec (crate pipe.home) packet.bytes =
      if (crate pipe.home).compatible packet.origin.version then .ok (received msg handles)
      else .error (.error (.versionMismatch packet.origin.version none)) := by
  rw [hbytes]
  split
  · rename_i hv
    refine hletter.shaped.new_written hlen hv ?_
    rintro ⟨handle, r⟩ hx
    obtain ⟨j, hj⟩ := List.mem_iff_getElem?.mp hx
    obtain ⟨hhandle, hr⟩ := List.getElem?_zip_eq_some.mp hj
    have hsize := congrArg (fun l : List (Option UInt64) => l[j]?) hletter.sizes
    simp only [List.getElem?_map, List.getElem?_drop, hr, Option.map_some, Option.map_eq_some_iff] at hsize
    obtain ⟨o, ho, hsize⟩ := hsize
    rw [List.getElem?_drop] at hhandle
    have hmem : (handle, o) ∈ w.ledger pipe.home := by
      apply mem_flight hpipe (hqueue ▸ List.mem_cons_self)
      rw [Packet.entries, hbytes, hletter.shaped.readObjects_written hlen]
      exact List.mem_of_getElem? (List.getElem?_zip_eq_some.mpr ⟨hhandle, ho⟩)
    rw [World.mapHeader, h.resolve ha hmem]
    exact hsize
  · rename_i hv
    exact hletter.shaped.new_incompatible _ hlen (by simpa using hv)

section Tasks

theorem balanced_shut (hb : Balanced w) {k : Nat} {pipe : Pipe} (hpipe : w.pipes[k]? = some pipe) :
    Balanced { w with
      pipes := w.pipes.set k ⟨pipe.home, false, []⟩
      lost := update w.lost pipe.home (w.lost pipe.home ++ pipe.queue.flatMap Packet.entries) } := by
  refine hb.moved rfl rfl fun q e => ?_
  have hset := count_flatMap_set (Pipe.flight q) hpipe ⟨pipe.home, false, []⟩ e
  simp only [count_flight, List.flatMap_nil, List.count_nil, ite_self] at hset
  simp only [count_ledger]
  by_cases hq : q = pipe.home
  · subst hq
    simp only [if_true] at hset
    simp only [Function.update_self, List.count_append]
    omega
  · simp only [hq, if_false] at hset
    simp only [Function.update_of_ne hq]
    omega

theorem balanced_closed (hb : Balanced w) {p : Pid} {e : Entry} (hmem : e ∈ w.loose p) :
    Balanced { w with
      table := update w.table p (closeAll (w.table p) [e.1])
      loose := update w.loose p ((w.loose p).erase e) } := by
  refine hb.closed [e] rfl rfl (fun x => ?_) (fun q x hq => ?_)
  · have hpos := List.count_pos_iff.mpr hmem
    simp only [count_ledger, Function.update_self, List.count_erase, List.count_singleton]
    by_cases hx : e = x
    · subst hx
      simp only [beq_self_eq_true, if_true]
      omega
    · have hx' : (e == x) = false := by simpa using hx
      simp only [hx', Bool.false_eq_true, if_false]
      omega
  · simp only [count_ledger, Function.update_of_ne hq]

/-- The handles of a new message are those that its process gives up for it. -/
theorem balanced_made (hb : Balanced w) {p : Pid} {msg : Message} (heap : Nat → UInt8)
    {taken rest : List Entry} (htake : takeAll (w.loose p) msg.attachments = some (taken, rest)) :
    Balanced { w with
      loose := update w.loose p rest
      held := update w.held p (w.held p ++
        [⟨intoEncoded codec (crate p) msg heap,
          ⟨crate p, msg.selector, msg.payload, taken.map Prod.snd⟩⟩])
      made := w.made ++ [⟨crate p, msg.selector, msg.payload, taken.map Prod.snd⟩] } := by
  obtain ⟨hkeys, hcount⟩ := takeAll_spec htake
  refine hb.moved rfl rfl fun q e => ?_
  simp only [count_ledger]
  by_cases hq : q = p
  · subst hq
    have hentries : Letter.entries ⟨intoEncoded codec (crate q) msg heap,
        ⟨crate q, msg.selector, msg.payload, taken.map Prod.snd⟩⟩ = taken := by
      have hattach : (intoEncoded codec (crate q) msg heap).attachments = taken.map Prod.fst := hkeys.symm
      rw [Letter.entries, hattach, List.zip_map']
      exact List.map_id taken
    have hsum := hcount e
    simp only [Function.update_self, List.flatMap_append, List.count_append, List.flatMap_cons,
      List.flatMap_nil, List.append_nil, hentries]
    omega
  · simp only [Function.update_of_ne hq]

theorem balanced_unpacked (hb : Balanced w) {p : Pid} {i : Nat} {letter : Letter}
    (hletter : (w.held p)[i]? = some letter) :
    Balanced { w with
      loose := update w.loose p (w.loose p ++ letter.entries)
      held := update w.held p ((w.held p).eraseIdx i) } := by
  refine hb.moved rfl rfl fun q e => ?_
  simp only [count_ledger]
  by_cases hq : q = p
  · subst hq
    have herase := count_flatMap_eraseIdx Letter.entries hletter e
    simp only [Function.update_self, List.count_append]
    omega
  · simp only [Function.update_of_ne hq]

theorem balanced_discarded (h : Sound codec w) {p : Pid} {i : Nat} {letter : Letter}
    (hletter : (w.held p)[i]? = some letter) :
    Balanced { w with
      table := update w.table p (closeAll (w.table p) letter.msg.attachments)
      held := update w.held p ((w.held p).eraseIdx i) } := by
  have hfine := h.letters p letter (List.mem_of_getElem? hletter)
  refine h.balanced.closed (p := p) letter.entries rfl (by rw [hfine.entries_fst]) (fun e => ?_)
    (fun q e hq => ?_)
  · have herase := count_flatMap_eraseIdx Letter.entries hletter e
    simp only [count_ledger, Function.update_self]
    omega
  · simp only [count_ledger, Function.update_of_ne hq]

theorem flight_die {p q : Pid} (hq : q ≠ p) (pipes : List Pipe) :
    (pipes.map fun pipe => if pipe.home = p then ⟨p, false, []⟩ else pipe).flatMap (Pipe.flight q) =
      pipes.flatMap (Pipe.flight q) := by
  rw [List.flatMap_map]
  congr 1
  funext pipe
  by_cases hhome : pipe.home = p
  · simp only [hhome, if_true, Pipe.flight, Ne.symm hq, if_false]
  · simp only [hhome, if_false]

/-- What a dead process had opened in the others is lost there. -/
theorem balanced_died (hb : Balanced w) (p : Pid) :
    Balanced { w with
      alive := update w.alive p false
      table := update w.table p fun _ => none
      loose := update w.loose p []
      held := update w.held p []
      sends := w.sends.filter fun s => s.pid ≠ p
      pipes := w.pipes.map fun pipe => if pipe.home = p then ⟨p, false, []⟩ else pipe
      lost := fun q => w.lost q ++
        (w.sends.filter fun s => !decide (s.pid ≠ p)).flatMap (Send.guarded q) } := by
  have hother : ∀ q, update w.alive p false q = true → q ≠ p := by
    rintro q hq rfl
    simp at hq
  refine hb.survive (fun q hq => ?_) (fun q hq => ?_) (fun q hq e => ?_)
  · simpa [Function.update_of_ne (hother q hq)] using hq
  · exact Function.update_of_ne (hother q hq) _ _
  · have hqp := hother q hq
    have hown := count_flatMap_filter (Send.own q) (fun s => decide (s.pid ≠ p)) w.sends e
    have hguarded := count_flatMap_filter (Send.guarded q) (fun s => decide (s.pid ≠ p)) w.sends e
    have hnone : ((w.sends.filter fun s => !decide (s.pid ≠ p)).flatMap (Send.own q)).count e = 0 := by
      rw [List.count_eq_zero, List.mem_flatMap]
      rintro ⟨s, hs, he⟩
      have hpid : s.pid = p := by simpa using (List.mem_filter.mp hs).2
      rw [Send.own, if_neg (hpid ▸ Ne.symm hqp)] at he
      cases he
    simp only [count_ledger, Function.update_of_ne hqp, List.count_append, flight_die hqp]
    omega

end Tasks

section Calls

variable {t : Nat} {s : Send}

/-- A call keeps its message, whatever becomes of the handles it has opened. -/
theorem count_ledger_set (hs : w.sends[t]? = some s) (table : Pid → Handle → Option Object) (s' : Send)
    (hpid : s'.pid = s.pid) (htarget : s'.target = s.target) (hletter : s'.letter = s.letter)
    (q : Pid) (e : Entry) :
    (World.ledger { w with table := table, sends := w.sends.set t s' } q).count e +
        (if q = s.target then s.guards.count e else 0) =
      (w.ledger q).count e + if q = s.target then s'.guards.count e else 0 := by
  have hown := count_flatMap_set (Send.own q) hs s' e
  have hguarded := count_flatMap_set (Send.guarded q) hs s' e
  simp only [count_own, count_guarded, hpid, htarget, hletter] at hown hguarded
  simp only [count_ledger]
  omega

/-- A call gives its message back when it returns. -/
theorem count_ledger_returned (hs : w.sends[t]? = some s) (q : Pid) (e : Entry) :
    ((w.returned s (w.sends.eraseIdx t)).ledger q).count e +
        (if q = s.target then s.guards.count e else 0) = (w.ledger q).count e := by
  have hown := count_flatMap_eraseIdx (Send.own q) hs e
  have hguarded := count_flatMap_eraseIdx (Send.guarded q) hs e
  have hentries : Letter.entries ⟨filled s.letter.msg s.handles, s.letter.origin⟩ = s.letter.entries := rfl
  simp only [count_own, count_guarded] at hown hguarded
  simp only [count_ledger, World.returned]
  by_cases hq : q = s.pid
  · subst hq
    simp only [if_true] at hown
    simp only [Function.update_self, List.flatMap_append, List.count_append, List.flatMap_cons,
      List.flatMap_nil, List.append_nil, hentries]
    omega
  · simp only [hq, if_false] at hown
    simp only [Function.update_of_ne hq]
    omega

theorem count_ledger_pipe {k : Nat} {pipe : Pipe} (hpipe : w.pipes[k]? = some pipe)
    (table : Pid → Handle → Option Object) (queue : List Packet) (q : Pid) (e : Entry) :
    (World.ledger { w with table := table, pipes := w.pipes.set k { pipe with queue := queue } } q).count e +
        (if q = pipe.home then (pipe.queue.flatMap Packet.entries).count e else 0) =
      (w.ledger q).count e + if q = pipe.home then (queue.flatMap Packet.entries).count e else 0 := by
  have hset := count_flatMap_set (Pipe.flight q) hpipe { pipe with queue := queue } e
  simp only [count_flight] at hset
  simp only [count_ledger]
  omega

theorem balanced_begun (hb : Balanced w) {p : Pid} {i : Nat} {letter : Letter} (remote : Remote)
    (target : Pid)
    (hletter : (w.held p)[i]? = some letter) :
    Balanced { w with
      held := update w.held p ((w.held p).eraseIdx i)
      sends := w.sends ++ [⟨p, target, remote, letter, [], [], false⟩] } := by
  refine hb.moved rfl rfl fun q e => ?_
  simp only [count_ledger, List.flatMap_append, List.count_append, List.flatMap_cons, List.flatMap_nil,
    List.append_nil, count_own, count_guarded, List.count_nil, ite_self]
  by_cases hq : q = p
  · subst hq
    have herase := count_flatMap_eraseIdx Letter.entries hletter e
    simp only [Function.update_self, if_true]
    omega
  · simp only [Function.update_of_ne hq, hq, if_false]
    omega

/-- The process that a call works on the handles of is its target. -/
theorem Sound.target (h : Sound codec w) (hs : w.sends[t]? = some s) (hne : s.letter.msg.attachments ≠ [])
    {q : Pid} (hq : s.remote.process.bind (w.resolve s.pid) = some (.process q)) : q = s.target := by
  obtain ⟨-, hlent⟩ := h.sends s (List.mem_of_getElem? hs)
  rw [hlent.target h.balanced hne] at hq
  cases hq
  rfl

theorem balanced_duplicated (h : Sound codec w) (hs : w.sends[t]? = some s) {source handle : Handle}
    (hsource : s.letter.msg.attachments[s.handles.length]? = some source) {q : Pid} {o : Object}
    (hq : s.remote.process.bind (w.resolve s.pid) = some (.process q)) (hfree : w.table q handle = none)
    (hreal : handle ≠ currentProcess) :
    Balanced { w with
      table := update w.table q (update (w.table q) handle (some o))
      sends := w.sends.set t
        { s with handles := s.handles ++ [handle], guards := s.guards ++ [(handle, o)] } } := by
  have hne : s.letter.msg.attachments ≠ [] := by
    intro hnil
    rw [hnil] at hsource
    cases hsource
  obtain rfl := h.target hs hne hq
  have hcount := count_ledger_set hs (update w.table s.target (update (w.table s.target) handle (some o)))
    { s with handles := s.handles ++ [handle], guards := s.guards ++ [(handle, o)] } rfl rfl rfl
  refine h.balanced.opened hfree hreal rfl rfl (fun e => ?_) (fun q e hq => ?_)
  · have hself := hcount s.target e
    rw [if_pos rfl, if_pos rfl, List.count_append] at hself
    omega
  · simpa only [hq, if_false, Nat.add_zero] using hcount q e

/-- A failed call closes the handles it has opened, one after the other. -/
theorem balanced_released (h : Sound codec w) (hs : w.sends[t]? = some s) {e : Entry} {guards : List Entry}
    (hguards : s.guards = e :: guards) {q : Pid}
    (hq : s.remote.process.bind (w.resolve s.pid) = some (.process q)) :
    Balanced { w with
      table := update w.table q (closeAll (w.table q) [e.1])
      sends := w.sends.set t { s with guards := guards } } := by
  obtain ⟨hfine, -⟩ := h.sends s (List.mem_of_getElem? hs)
  have hne : s.letter.msg.attachments ≠ [] := by
    intro hnil
    have hlength := hfine.length
    have hle := hfine.guards_le
    rw [hnil, List.length_nil] at hlength
    rw [hguards, List.length_cons] at hle
    omega
  obtain rfl := h.target hs hne hq
  have hcount := count_ledger_set hs (update w.table s.target (closeAll (w.table s.target) [e.1]))
    { s with guards := guards } rfl rfl rfl
  refine h.balanced.closed [e] rfl rfl (fun x => ?_) (fun q x hq => ?_)
  · have hself := hcount s.target x
    simp only [if_true, hguards, List.count_cons] at hself
    simp only [List.count_singleton]
    omega
  · simpa only [hq, if_false, Nat.add_zero] using hcount q x

/-- The handles that a call has opened are on their way once it has written them. -/
theorem balanced_delivered (h : Sound codec w) (hs : w.sends[t]? = some s) (hfailed : s.failed = false)
    (hlen : s.handles.length = s.letter.msg.attachments.length) {k : Nat} {pipe : Pipe}
    (hk : w.resolve s.pid s.remote.pipe = some (.writeEnd k)) (hpipe : w.pipes[k]? = some pipe) :
    Balanced { w.returned s (w.sends.eraseIdx t) with
      pipes := w.pipes.set k
        { pipe with queue := pipe.queue ++ [⟨written s.letter.msg s.handles, s.letter.origin⟩] } } := by
  obtain ⟨hfine, hlent⟩ := h.sends s (List.mem_of_getElem? hs)
  have hhome := hlent.home h.balanced hk hpipe
  have hpacket : Packet.entries ⟨written s.letter.msg s.handles, s.letter.origin⟩ = s.guards := by
    rw [Packet.entries, hfine.letter.shaped.readObjects_written hlen, hfine.guards hfailed]
  refine h.balanced.moved rfl rfl fun q e => ?_
  have hreturned := count_ledger_returned hs q e
  have hflight := count_ledger_pipe (w := w.returned s (w.sends.eraseIdx t)) hpipe w.table
    (pipe.queue ++ [⟨written s.letter.msg s.handles, s.letter.origin⟩]) q e
  simp only [World.returned, List.flatMap_append, List.flatMap_cons, List.flatMap_nil, List.append_nil,
    List.count_append, hpacket, ← hhome] at hreturned hflight ⊢
  by_cases ht : q = pipe.home
  · rw [if_pos ht] at hreturned
    rw [if_pos ht, if_pos ht] at hflight
    omega
  · rw [if_neg ht] at hreturned
    rw [if_neg ht, if_neg ht] at hflight
    omega

theorem balanced_failed (hb : Balanced w) (hs : w.sends[t]? = some s) (hguards : s.guards = []) :
    Balanced (w.returned s (w.sends.eraseIdx t)) := by
  refine hb.moved rfl rfl fun q e => ?_
  have hreturned := count_ledger_returned hs q e
  rwa [hguards, List.count_nil, ite_self, Nat.add_zero] at hreturned

end Calls

section Readers

variable {k : Nat} {pipe : Pipe} {packet : Packet} {queue : List Packet}

theorem balanced_read (h : Sound codec w) (hpipe : w.pipes[k]? = some pipe)
    (hqueue : pipe.queue = packet :: queue) (ha : w.alive pipe.home = true) {msg : EncodedMessage}
    (hnew : new (w.mapHeader pipe.home) codec (crate pipe.home) packet.bytes = .ok msg) :
    Balanced { w with
      pipes := w.pipes.set k { pipe with queue := queue }
      held := update w.held pipe.home (w.held pipe.home ++ [⟨msg, packet.origin⟩]) } := by
  obtain ⟨sent, handles, hletter, hlen, hbytes, -, hentries, -⟩ :=
    (h.packets pipe (List.mem_of_getElem? hpipe) packet (hqueue ▸ List.mem_cons_self)).spec
  rw [h.balanced.new_packet hpipe hqueue ha hletter hlen hbytes] at hnew
  split at hnew
  · cases hnew
    have hletters : Letter.entries ⟨received sent handles, packet.origin⟩ = packet.entries := by
      rw [Letter.entries, received_attachments hlen, hentries]
    refine h.balanced.moved rfl rfl fun q e => ?_
    have hset := count_flatMap_set (Pipe.flight q) hpipe { pipe with queue := queue } e
    simp only [count_flight, hqueue, List.flatMap_cons, List.count_append] at hset
    simp only [count_ledger]
    by_cases hq : q = pipe.home
    · subst hq
      simp only [if_true] at hset
      simp only [Function.update_self, List.flatMap_append, List.count_append, List.flatMap_cons,
        List.flatMap_nil, List.append_nil, hletters]
      omega
    · simp only [hq, if_false] at hset
      simp only [Function.update_of_ne hq]
      omega
  · cases hnew

/-- The reader that refuses a packet closes the handles in it. -/
theorem balanced_refused (h : Sound codec w) (hpipe : w.pipes[k]? = some pipe)
    (hqueue : pipe.queue = packet :: queue) :
    Balanced { w with
      pipes := w.pipes.set k { pipe with queue := queue }
      table := update w.table pipe.home (closeAll (w.table pipe.home) (readObjects packet.bytes)) } := by
  obtain ⟨-, handles, -, -, -, hread, -, hkeys⟩ :=
    (h.packets pipe (List.mem_of_getElem? hpipe) packet (hqueue ▸ List.mem_cons_self)).spec
  have hcount := count_ledger_pipe hpipe
    (update w.table pipe.home (closeAll (w.table pipe.home) (readObjects packet.bytes))) queue
  refine h.balanced.closed (p := pipe.home) packet.entries rfl (by rw [hkeys, hread])
    (fun e => ?_) (fun q e hq => ?_)
  · have hself := hcount pipe.home e
    rw [if_pos rfl, if_pos rfl, hqueue, List.flatMap_cons, List.count_append] at hself
    omega
  · simpa only [hq, if_false, Nat.add_zero] using hcount q e

end Readers

/-- The handles that are in the hands of a call, or of a packet, are taken over as they are. -/
theorem Moved.balanced (h : Sound codec w) (hm : Moved codec crate w a w') : Balanced w' := by
  have hb := h.balanced
  cases hm with
  | created ha hk hreal =>
    refine hb.opened hk hreal rfl rfl (fun e => ?_) (fun q e hq => ?_)
    · simp only [count_ledger, Function.update_self, List.count_append]
      omega
    · simp only [count_ledger, Function.update_of_ne hq]
  | @current p ha =>
    refine hb.pseudo (p := p) rfl rfl (fun e => ?_) (fun q e hq => ?_)
    · simp only [count_ledger, Function.update_self, List.count_append]
      omega
    · simp only [count_ledger, Function.update_of_ne hq]
  | listened ha =>
    refine hb.moved rfl rfl fun q e => ?_
    simp only [count_ledger, List.flatMap_append, List.count_append, List.flatMap_cons, List.flatMap_nil,
      List.append_nil, count_flight, List.count_nil, ite_self, Nat.add_zero]
  | shut hpipe => exact balanced_shut hb hpipe
  | closed hfree hmem => exact balanced_closed hb hmem
  | made hfits ha hfree hmap htake => exact balanced_made hb _ htake
  | unpacked hletter => exact balanced_unpacked hb hletter
  | discarded hletter => exact balanced_discarded h hletter
  | begun ha hletter => exact balanced_begun hb _ _ hletter
  | @denied t s a ha hs =>
    refine hb.moved rfl rfl fun q e => ?_
    exact Nat.add_right_cancel (count_ledger_set hs w.table { s with failed := true } rfl rfl rfl q e)
  | duplicated hs hfailed hsource hq ho ha hk hreal => exact balanced_duplicated h hs hsource hq hk hreal
  | delivered hs hfailed hlen hk hpipe => exact balanced_delivered h hs hfailed hlen hk hpipe
  | released hs hfailed hguards hq => exact balanced_released h hs hguards hq
  | failed hs hfailed hguards => exact balanced_failed hb hs hguards
  | read hpipe hqueue ha hnew => exact balanced_read h hpipe hqueue ha hnew
  | refused hpipe hqueue => exact balanced_refused h hpipe hqueue
  | died => exact balanced_died hb _

end Balance

end Ipmb.HandleTables
