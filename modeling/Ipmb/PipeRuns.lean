import Ipmb.Reassembly
import Ipmb.Run
import Mathlib.Data.List.Nodup

namespace Ipmb.PipeRuns

open Function Bytes Frames Pipes Reassembly Run
open Windows (Handle)
open Hub (TryRecv)

section Keyed

variable {α β : Type} [DecidableEq β] {key : α → β}

theorem map_of_notMem {l : List α} {k : β} (f : α → α) (h : k ∉ l.map key) :
    l.map (fun a => if key a = k then f a else a) = l := by
  rw [List.map_congr_left (g := id), List.map_id]
  intro a ha
  rw [if_neg]
  · rfl
  · intro he
    exact h (List.mem_map.mpr ⟨a, ha, he⟩)

/-- Changing the first element with a key is changing all of them, if the keys are different. -/
theorem modify_findIdx {l : List α} (hl : (l.map key).Nodup) (k : β) (f : α → α) :
    l.modify (l.findIdx fun a => key a == k) f = l.map fun a => if key a = k then f a else a := by
  induction l with
  | nil => rfl
  | cons a l ih =>
    rw [List.map_cons, List.nodup_cons] at hl
    by_cases ha : key a = k
    · subst ha
      simp [List.findIdx_cons, map_of_notMem f hl.1]
    · rw [List.findIdx_cons, beq_eq_false_iff_ne.mpr ha, cond_false, List.modify_succ_cons, ih hl.2,
        List.map_cons, if_neg ha]

theorem set_eq_map {l : List α} (hl : (l.map key).Nodup) {i : Nat} {a b : α} (ha : l[i]? = some a) :
    l.set i b = l.map fun x => if key x = key a then b else x := by
  induction l generalizing i with
  | nil => cases ha
  | cons x l ih =>
    rw [List.map_cons, List.nodup_cons] at hl
    cases i with
    | zero =>
      cases ha
      simp [map_of_notMem (fun _ => b) hl.1]
    | succ i =>
      have hne : key x ≠ key a := by
        intro he
        apply hl.1
        rw [he]
        exact List.mem_map_of_mem (List.mem_of_getElem? ha)
      simp [hne, ih hl.2 ha]

end Keyed

variable {alloc : Alloc}

section Consistent

variable {hub : IoHub} {channels : Handle → Channel} {passed : Handle → List (List UInt8 × Nat)}

/-- The pipes of the hub fit to the system's side of them, and have different handles. -/
structure Consistent (hub : IoHub) (channels : Handle → Channel)
    (passed : Handle → List (List UInt8 × Nat)) : Prop where
  coherent : ∀ p ∈ hub.pipes, Coherent p (channels p.handle) (passed p.handle)
  listening : ∀ p, hub.listeningPipe = some p → Listening p (channels p.handle) ∧ passed p.handle = []
  unused : ∀ handle ∉ hub.handles, channels handle = {} ∧ passed handle = []
  nodup : hub.handles.Nodup
  valid : waker ∉ hub.handles

theorem mem_handles {handle : Handle} :
    handle ∈ hub.handles ↔
      (∃ p, hub.listeningPipe = some p ∧ p.handle = handle) ∨ ∃ p ∈ hub.pipes, p.handle = handle := by
  simp [IoHub.handles]

theorem Consistent.nodup_pipes (h : Consistent hub channels passed) :
    (hub.pipes.map NamedPipe.handle).Nodup := by
  have := h.nodup
  rw [IoHub.handles, List.map_append] at this
  exact (List.nodup_append.mp this).2.1

theorem Consistent.listening_ne (h : Consistent hub channels passed) {p q : NamedPipe}
    (hp : hub.listeningPipe = some p) (hq : q ∈ hub.pipes) : p.handle ≠ q.handle := by
  have := h.nodup
  rw [IoHub.handles, List.map_append, List.nodup_append] at this
  exact this.2.2 _ (by simp [hp]) _ (List.mem_map_of_mem hq)

theorem Consistent.ne_waker (h : Consistent hub channels passed) {handle : Handle}
    (hopen : handle ∈ hub.handles) : handle ≠ waker := by
  rintro rfl
  exact h.valid hopen

theorem Consistent.unused_update (h : Consistent hub channels passed) {key : Handle}
    (hkey : key ∈ hub.handles)
    (c : Channel) (b : List (List UInt8 × Nat)) {handle : Handle} (hunused : handle ∉ hub.handles) :
    update channels key c handle = {} ∧ update passed key b handle = [] := by
  have hne : handle ≠ key := by
    rintro rfl
    exact hunused hkey
  rw [update_of_ne hne, update_of_ne hne]
  exact h.unused handle hunused

/-- Something is done on one of the pipes. -/
theorem Consistent.touch (h : Consistent hub channels passed) {p : NamedPipe} (hp : p ∈ hub.pipes)
    {f : NamedPipe → NamedPipe} (hf : (f p).handle = p.handle) {c : Channel} {b : List (List UInt8 × Nat)}
    (hc : Coherent (f p) c b) :
    Consistent { hub with pipes := hub.pipes.map fun q => if q.handle = p.handle then f q else q }
      (update channels p.handle c) (update passed p.handle b) := by
  have hsame : ∀ q ∈ hub.pipes, q.handle = p.handle → q = p := fun q hq =>
    List.inj_on_of_nodup_map h.nodup_pipes hq hp
  have hhandles : IoHub.handles { hub with
      pipes := hub.pipes.map fun q => if q.handle = p.handle then f q else q } = hub.handles := by
    simp only [IoHub.handles, List.map_append, List.map_map]
    congr 1
    apply List.map_congr_left
    intro q hq
    by_cases he : q.handle = p.handle
    · simp [hsame q hq he, hf]
    · simp [he]
  refine ⟨?_, ?_, ?_, ?_, ?_⟩
  · intro q' hq'
    obtain ⟨q, hq, rfl⟩ := List.mem_map.mp hq'
    by_cases he : q.handle = p.handle
    · rw [if_pos he, hsame q hq he, hf, update_self, update_self]
      exact hc
    · rw [if_neg he, update_of_ne he, update_of_ne he]
      exact h.coherent q hq
  · intro q hq
    have hne := h.listening_ne hq hp
    rw [update_of_ne hne, update_of_ne hne]
    exact h.listening q hq
  · intro handle hunused
    rw [hhandles] at hunused
    exact h.unused_update (mem_handles.mpr (.inr ⟨p, hp, rfl⟩)) c b hunused
  · rw [hhandles]
    exact h.nodup
  · rw [hhandles]
    exact h.valid

/-- Something is done on the listening pipe. -/
theorem Consistent.relisten (h : Consistent hub channels passed) {p : NamedPipe}
    (hp : hub.listeningPipe = some p) (p' : NamedPipe) (hp' : p'.handle = p.handle) {c : Channel}
    (hc : Listening p' c) :
    Consistent { hub with listeningPipe := some p' } (update channels p.handle c) passed := by
  have hhandles : IoHub.handles { hub with listeningPipe := some p' } = hub.handles := by
    simp [IoHub.handles, hp, hp']
  refine ⟨?_, ?_, ?_, ?_, ?_⟩
  · intro q hq
    rw [update_of_ne (h.listening_ne hp hq).symm]
    exact h.coherent q hq
  · intro q hq
    cases hq
    rw [hp', update_self]
    exact ⟨hc, (h.listening p hp).2⟩
  · intro handle hunused
    rw [hhandles] at hunused
    have hupdate := h.unused_update (mem_handles.mpr (.inl ⟨p, hp, rfl⟩)) c (passed p.handle) hunused
    rwa [update_eq_self] at hupdate
  · rw [hhandles]
    exact h.nodup
  · rw [hhandles]
    exact h.valid

/-- The listening pipe joins the others, and a new instance takes its place. -/
theorem Consistent.connected (h : Consistent hub channels passed) (alloc : Alloc) {p : NamedPipe}
    (hp : hub.listeningPipe = some p) (p' : NamedPipe) (hp' : p'.handle = p.handle) {c : Channel}
    (huntouched : Untouched p' c) (hconnecting : c.connecting = false) (hpackets : c.packets = [])
    {fresh : Handle} (hvalid : fresh ≠ waker) (hfresh : fresh ∉ hub.handles) :
    Consistent (hub.connected alloc p' fresh) (update channels p.handle c) passed := by
  have hhandles : (hub.connected alloc p' fresh).handles.Perm (fresh :: hub.handles) := by
    simp only [IoHub.handles, IoHub.connected, hp, Option.toList_some, List.map_append, List.map_cons,
      List.map_nil, List.cons_append, List.nil_append, hp']
    exact .cons _ (List.perm_append_singleton ..)
  have hne : fresh ≠ p.handle := by
    rintro rfl
    exact hfresh (mem_handles.mpr (.inl ⟨p, hp, rfl⟩))
  have hnew := h.unused fresh hfresh
  refine ⟨?_, ?_, ?_, ?_, ?_⟩
  · intro q hq
    obtain hq | hq := List.mem_append.mp hq
    · rw [update_of_ne (h.listening_ne hp hq).symm]
      exact h.coherent q hq
    · rw [List.mem_singleton.mp hq]
      simp only [hp', update_self, (h.listening p hp).2]
      exact Untouched.coherent ⟨huntouched.queue, huntouched.reads, huntouched.capacity, huntouched.size⟩
        hconnecting hpackets rfl
  · intro q hq
    cases hq
    simp only [createInstance, NamedPipe.new, update_of_ne hne, hnew.1]
    exact ⟨⟨.free rfl rfl rfl, rfl, rfl, alloc.capacity 64, rfl⟩, hnew.2⟩
  · intro handle hunused
    rw [hhandles.mem_iff, List.mem_cons, not_or] at hunused
    have hupdate := h.unused_update (mem_handles.mpr (.inl ⟨p, hp, rfl⟩)) c (passed p.handle) hunused.2
    rwa [update_eq_self] at hupdate
  · rw [hhandles.nodup_iff, List.nodup_cons]
    exact ⟨hfresh, h.nodup⟩
  · rw [hhandles.mem_iff, List.mem_cons, not_or]
    exact ⟨hvalid.symm, h.valid⟩

end Consistent

/-- What `recv` waits for, or will: the listening pipe, and the others that its loop has been at. -/
def begun (hub : IoHub) : Pc → List NamedPipe
  | .polling => hub.listeningPipe.toList
  | .reading i => hub.listeningPipe.toList ++ hub.pipes.take i
  | .waiting => hub.listeningPipe.toList ++ hub.pipes
  | _ => []

structure Invariant (s : State) : Prop where
  consistent : Consistent s.hub s.channels s.passed
  pending : ∀ p ∈ begun s.hub s.pc, p.status = .pending
  running : s.pc ≠ .panicked

variable {s t : State}

/-- Nothing is said of the loop before it begins. -/
theorem Consistent.invariant {hub : IoHub} {channels : Handle → Channel}
    {passed : Handle → List (List UInt8 × Nat)} (h : Consistent hub channels passed) {pc : Pc}
    (hpc : pc = .idle ∨ pc = .listening) : Invariant ⟨hub, pc, channels, passed⟩ := by
  obtain rfl | rfl := hpc
  · exact ⟨h, by simp [begun], by simp⟩
  · exact ⟨h, by simp [begun], by simp⟩

/-- There are three kinds of handles: of the listening pipe, of the others, and unused ones. -/
theorem Invariant.handle_cases (h : Invariant s) (handle : Handle) :
    (∃ p, s.hub.listeningPipe = some p ∧ p.handle = handle ∧ Listening p (s.channels handle) ∧
        s.passed handle = []) ∨
      (∃ p ∈ s.hub.pipes, p.handle = handle ∧ Coherent p (s.channels handle) (s.passed handle)) ∨
      s.channels handle = {} ∧ s.passed handle = [] := by
  by_cases hopen : handle ∈ s.hub.handles
  · obtain ⟨p, hp, rfl⟩ | ⟨p, hp, rfl⟩ := mem_handles.mp hopen
    · exact .inl ⟨p, hp, rfl, h.consistent.listening p hp⟩
    · exact .inr (.inl ⟨p, hp, rfl, h.consistent.coherent p hp⟩)
  · exact .inr (.inr (h.consistent.unused handle hopen))

theorem Opened.invariant (h : Opened alloc s) : Invariant s := by
  cases h with
  | busController handle valid =>
    apply Consistent.invariant _ (.inl rfl)
    refine ⟨?_, ?_, fun _ _ => ⟨rfl, rfl⟩, ?_, ?_⟩
    · simp [IoHub.forBusController]
    · intro p hp
      cases hp
      exact ⟨⟨.free rfl rfl rfl, rfl, rfl, alloc.capacity 64, rfl⟩, rfl⟩
    · exact List.nodup_singleton _
    · simpa [IoHub.handles, IoHub.forBusController, NamedPipe.new] using valid.symm
  | endpoint handle valid =>
    apply Consistent.invariant _ (.inl rfl)
    refine ⟨?_, ?_, fun _ _ => ⟨rfl, rfl⟩, ?_, ?_⟩
    · intro p hp
      rw [List.mem_singleton.mp hp]
      exact Untouched.coherent ⟨rfl, rfl, alloc.capacity 64, rfl⟩ rfl rfl rfl
    · simp [IoHub.forEndpoint]
    · exact List.nodup_singleton _
    · simpa [IoHub.handles, IoHub.forEndpoint, NamedPipe.new] using valid.symm

/-- The pipe that is already listening stays as it is. -/
theorem listen_pending {hub : IoHub} {p : NamedPipe} (hp : hub.listeningPipe = some p)
    (hstatus : p.status = .pending) (answer : Answer) (fresh : Handle) :
    hub.listen alloc answer fresh = (hub, .polling) := by
  obtain ⟨busReceiver, pipes, listeningPipe⟩ := hub
  cases hp
  obtain ⟨handle, status, buffer, size⟩ := p
  cases hstatus
  rfl

theorem connecting_of_ne_free {p : NamedPipe} (hp : s.hub.listeningPipe = some p)
    (hstatus : p.status ≠ .free) (answer : Answer) : s.connecting answer = s.channels := by
  obtain ⟨handle, status, buffer, size⟩ := p
  rw [State.connecting, hp]
  cases status with
  | free => exact absurd rfl hstatus
  | readable | pending | ready | offline => rfl

/-- One turn of the loop in `listen`. -/
theorem Invariant.listen (h : Invariant s) {answer : Answer} {fresh : Handle}
    (hsound : (Action.listen answer fresh).Sound) (hfresh : s.Unused fresh) :
    Invariant { s.advance (s.hub.listen alloc answer fresh) with channels := s.connecting answer } := by
  cases hp : s.hub.listeningPipe with
  | none =>
    have hchannels : s.connecting answer = s.channels := by
      rw [State.connecting, hp]
    rw [IoHub.listen, hp, hchannels]
    exact ⟨h.consistent, by simp [State.advance, begun, hp], by simp [State.advance]⟩
  | some p =>
    obtain ⟨hconnecting, huntouched⟩ := (h.consistent.listening p hp).1
    cases hconnecting with
    | pending status | connected answer status =>
      rw [listen_pending hp status, connecting_of_ne_free hp (by simp [status])]
      exact ⟨h.consistent, by simp [State.advance, begun, hp, status], by simp [State.advance]⟩
    | free status connecting packets =>
      obtain ⟨handle, status, buffer, size⟩ := p
      cases status
      -- `ConnectNamedPipe` is under way
      have hunderway (hpending : answer = none ∨ answer = some .pipeListening ∨ answer = some .ioPending) :
          Invariant { s.advance (s.hub.listen alloc answer fresh) with channels := s.connecting answer } := by
        have hlisten : s.hub.listen alloc answer fresh =
            ({ s.hub with listeningPipe := some ⟨handle, .pending, buffer, size⟩ }, .polling) := by
          rw [IoHub.listen, hp]
          obtain rfl | rfl | rfl := hpending <;> rfl
        have hchannels : s.connecting answer =
            update s.channels handle { s.channels handle with connecting := true } := by
          rw [State.connecting, hp]
          obtain rfl | rfl | rfl := hpending <;> rfl
        rw [hlisten, hchannels]
        have hconsistent := h.consistent.relisten hp ⟨handle, .pending, buffer, size⟩ rfl
          (c := { s.channels handle with connecting := true })
          ⟨.pending rfl rfl packets, huntouched.queue, huntouched.reads, huntouched.capacity, huntouched.size⟩
        exact ⟨hconsistent, by simp [State.advance, begun], by simp [State.advance]⟩
      simp only [Action.Sound, List.mem_cons, List.not_mem_nil, or_false] at hsound
      obtain rfl | rfl | rfl | rfl := hsound
      · exact hunderway (.inl rfl)
      · -- somebody has connected before
        have hlisten : s.hub.listen alloc (some .pipeConnected) fresh =
            (s.hub.connected alloc ⟨handle, .readable, buffer, size⟩ fresh, .listening) := by
          rw [IoHub.listen, hp]
          rfl
        have hchannels : s.connecting (some .pipeConnected) = s.channels := by
          rw [State.connecting, hp]
        rw [hlisten, hchannels]
        have hconsistent := h.consistent.connected alloc hp ⟨handle, .readable, buffer, size⟩ rfl
          ⟨huntouched.queue, huntouched.reads, huntouched.capacity, huntouched.size⟩ connecting packets
          hfresh.1 hfresh.2
        rw [update_eq_self] at hconsistent
        exact hconsistent.invariant (.inr rfl)
      · exact hunderway (.inr (.inl rfl))
      · exact hunderway (.inr (.inr rfl))

theorem Invariant.tryRecv (h : Invariant s) (hpc : s.pc = .polling) (r : TryRecv Unit) :
    Invariant (s.advance (s.hub.tryRecv r)) := by
  have hpending := h.pending
  rw [hpc] at hpending
  have hbus (busReceiver : Bool) {pc : Pc} (hnext : pc = .idle ∨ pc = .reading 0) :
      Invariant (s.advance ({ s.hub with busReceiver := busReceiver }, pc)) := by
    refine ⟨⟨h.consistent.coherent, h.consistent.listening, h.consistent.unused, h.consistent.nodup,
      h.consistent.valid⟩, ?_, ?_⟩
    · obtain rfl | rfl := hnext
      · simp [State.advance, begun]
      · simpa [State.advance, begun] using hpending
    · obtain rfl | rfl := hnext <;> simp [State.advance]
  simp only [IoHub.tryRecv]
  split
  · cases r with
    | message msg => exact hbus s.hub.busReceiver (.inl rfl)
    | empty => exact hbus s.hub.busReceiver (.inr rfl)
    | disconnected => exact hbus false (.inr rfl)
  · exact hbus s.hub.busReceiver (.inr rfl)

theorem mem_set_self {α : Type} {l : List α} {i : Nat} {a b : α} (h : b ∈ (l.set i a)[i]?.toList) : b = a := by
  rw [List.getElem?_set_self'] at h
  cases hi : l[i]? with
  | none => simp [hi] at h
  | some x => simpa [hi] using h

/-- A turn of the loop over the pipes. -/
theorem Invariant.read (h : Invariant s) (alloc : Alloc) {i : Nat} (hpc : s.pc = .reading i) {p : NamedPipe}
    (hp : s.hub.pipes[i]? = some p) {answer : Answer} (hsound : (Action.read answer).Sound) :
    ∃ o, p.read alloc answer = some o ∧ Invariant (s.readAt i o) := by
  have hmem := List.mem_of_getElem? hp
  obtain ⟨o, hread, hhandle, hpending, hcoherent⟩ := (h.consistent.coherent p hmem).read alloc hsound
  refine ⟨o, hread, ?_⟩
  have htouch := h.consistent.touch hmem (f := fun _ => o.pipe) hhandle hcoherent
  rw [← set_eq_map h.consistent.nodup_pipes hp, ← hhandle] at htouch
  cases hmessage : o.message with
  | some b =>
    have hnext : s.hub.readTurn i o = ({ s.hub with pipes := s.hub.pipes.set i o.pipe }, .idle) := by
      simp only [IoHub.readTurn, hmessage]
    rw [State.readAt, hnext]
    exact htouch.invariant (.inl rfl)
  | none =>
    have hnext : s.hub.readTurn i o = ({ s.hub with pipes := s.hub.pipes.set i o.pipe },
      .reading (i + 1)) := by
      simp only [IoHub.readTurn, hmessage, hpending hmessage]
    rw [State.readAt, hnext]
    refine ⟨htouch, ?_, by simp⟩
    intro q hq
    have hold := h.pending
    rw [hpc] at hold
    simp only [begun, List.take_add_one] at hold hq
    rw [List.take_set_of_le (Nat.le_refl i), ← List.append_assoc] at hq
    obtain hq | hq := List.mem_append.mp hq
    · exact hold q hq
    · rw [mem_set_self hq]
      exact hpending hmessage

/-- Behind the last pipe. -/
theorem Invariant.afterPipes (h : Invariant s) {i : Nat} (hpc : s.pc = .reading i)
    (hi : s.hub.pipes[i]? = none) : Invariant { s with pc := s.hub.afterPipes } := by
  have hold := h.pending
  rw [hpc, begun, List.take_of_length_le (List.getElem?_eq_none_iff.mp hi)] at hold
  cases hafter : s.hub.afterPipes with
  | idle => exact h.consistent.invariant (.inl rfl)
  | waiting => exact ⟨h.consistent, hold, by simp⟩
  | listening | polling | reading | panicked =>
    rw [IoHub.afterPipes] at hafter
    split at hafter <;> cases hafter

/-- Without a packet nothing happens to the hub. -/
theorem waited_waker (alloc : Alloc) (hub : IoHub) (answer : Answer) (n : Nat) (fresh : Handle) :
    hub.waited alloc answer waker n fresh = (hub, .listening) ∨
      hub.waited alloc answer waker n fresh = (hub, .idle) := by
  rcases answer with _ | error
  · exact .inl rfl
  · cases error with
    | timeout | waitTimeout => exact .inr rfl
    | pipeConnected | pipeListening | ioPending | ioIncomplete | moreData | abandonedWait0 | other =>
      exact .inl rfl

theorem Invariant.woken (h : Invariant s) (answer : Answer) (n : Nat) (fresh : Handle) :
    Invariant (s.advance (s.hub.waited alloc answer waker n fresh)) := by
  obtain hw | hw := waited_waker alloc s.hub answer n fresh
  · rw [hw]
    exact h.consistent.invariant (.inr rfl)
  · rw [hw]
    exact h.consistent.invariant (.inl rfl)

theorem waited_listening {hub : IoHub} {p : NamedPipe} (hp : hub.listeningPipe = some p)
    (hkey : p.handle ≠ waker) {answer : Answer} (hanswer : answer ∈ [none, some .pipeConnected])
    {n : Nat} {fresh : Handle} :
    hub.waited alloc answer p.handle n fresh = (hub.connected alloc p fresh, .listening) := by
  have hfilter : hub.listeningPipe.filter (·.handle == p.handle) = some p := by
    rw [hp]
    simp [Option.filter]
  simp only [List.mem_cons, List.not_mem_nil, or_false] at hanswer
  obtain rfl | rfl := hanswer
  · simp only [IoHub.waited, if_neg hkey, hfilter, IoHub.listened]
  · simp only [IoHub.waited, if_neg hkey, hfilter, IoHub.listened]

theorem waited_pipe {hub : IoHub} {key : Handle} (hp : ∀ q, hub.listeningPipe = some q → q.handle ≠ key)
    (hkey : key ≠ waker) {answer : Answer} (hanswer : answer ∈ [none, some .moreData]) {n : Nat}
    {fresh : Handle} :
    hub.waited alloc answer key n fresh =
      ({ hub with pipes := modifyPipe hub.pipes key (·.completed alloc n answer) }, .listening) := by
  have hfilter : hub.listeningPipe.filter (·.handle == key) = none := by
    rw [Option.filter_eq_none_iff]
    intro q hq
    simpa using hp q hq
  simp only [List.mem_cons, List.not_mem_nil, or_false] at hanswer
  obtain rfl | rfl := hanswer
  · simp only [IoHub.waited, if_neg hkey, hfilter]
  · simp only [IoHub.waited, if_neg hkey, hfilter]

theorem completed_handle (p : NamedPipe) (packet : Packet) :
    (p.completed alloc packet.size packet.answer).handle = p.handle := by
  simp only [NamedPipe.completed]
  split <;> rfl

/-- A packet is taken. -/
theorem Invariant.packet (h : Invariant s) {key : Handle} {packet : Packet} {packets : List Packet}
    (hpackets : (s.channels key).packets = packet :: packets) {fresh : Handle} (hfresh : s.Unused fresh) :
    Invariant { s.advance (s.hub.waited alloc packet.answer key packet.size fresh) with
      channels := update s.channels key { s.channels key with packets := packets } } := by
  obtain ⟨p, hp, rfl, ⟨hconnecting, huntouched⟩, -⟩ | ⟨p, hp, rfl, hcoherent⟩ | ⟨hunused, -⟩ :=
    h.handle_cases key
  · have hkey := h.consistent.ne_waker (mem_handles.mpr (.inl ⟨p, hp, rfl⟩))
    cases hconnecting with
    | free status connecting hnone | pending status connecting hnone =>
      rw [hnone] at hpackets
      cases hpackets
    | connected answer status connecting hpacket sound =>
      obtain ⟨rfl, rfl⟩ := List.cons.inj (hpackets.symm.trans hpacket)
      rw [waited_listening hp hkey sound]
      have hconsistent := h.consistent.connected alloc hp p rfl
        (c := { s.channels p.handle with packets := [] })
        ⟨huntouched.queue, huntouched.reads, huntouched.capacity, huntouched.size⟩ connecting rfl
        hfresh.1 hfresh.2
      exact hconsistent.invariant (.inr rfl)
  · have hkey := h.consistent.ne_waker (mem_handles.mpr (.inr ⟨p, hp, rfl⟩))
    obtain ⟨rest, hphase, -⟩ := hcoherent.rest
    rw [waited_pipe (fun q hq => h.consistent.listening_ne hq hp) hkey (hphase.answer hpackets), modifyPipe,
      modify_findIdx h.consistent.nodup_pipes]
    have hconsistent := h.consistent.touch hp (f := (·.completed alloc packet.size packet.answer))
      (completed_handle p packet) (hcoherent.taken hpackets)
    rw [update_eq_self] at hconsistent
    exact hconsistent.invariant (.inr rfl)
  · rw [hunused] at hpackets
    cases hpackets

/-- A message is written to a pipe, also to the listening one. -/
theorem Invariant.write (h : Invariant s) {handle : Handle} (hopen : handle ∈ s.hub.handles) (m : Message) :
    Invariant { s with
      channels := update s.channels handle { s.channels handle with
        written := (s.channels handle).written ++ [m]
        queue := (s.channels handle).queue ++ [m.val] } } := by
  obtain ⟨p, hp, rfl⟩ | ⟨p, hp, rfl⟩ := mem_handles.mp hopen
  · have hconsistent := h.consistent.relisten hp p rfl ((h.consistent.listening p hp).1.write m)
    rw [← hp] at hconsistent
    exact ⟨hconsistent, h.pending, h.running⟩
  · have hconsistent := h.consistent.touch hp (f := id) rfl ((h.consistent.coherent p hp).write m)
    rw [update_eq_self] at hconsistent
    simp only [id_eq, ite_self, List.map_id'] at hconsistent
    exact ⟨hconsistent, h.pending, h.running⟩

/-- Somebody connects to the listening pipe. -/
theorem Invariant.connect (h : Invariant s) {handle : Handle} {answer : Answer}
    (hsound : (Action.connect handle answer).Sound) (hconnecting : (s.channels handle).connecting = true) :
    Invariant { s with
      channels := update s.channels handle { s.channels handle with
        connecting := false
        packets := (s.channels handle).packets ++ [⟨0, answer⟩] } } := by
  obtain ⟨p, hp, rfl, ⟨hphase, huntouched⟩, -⟩ | ⟨p, hp, rfl, hcoherent⟩ | ⟨hunused, -⟩ :=
    h.handle_cases handle
  · cases hphase with
    | free status connecting | connected answer status connecting =>
      rw [connecting] at hconnecting
      cases hconnecting
    | pending status connecting packets =>
      have hlistening : Listening p { s.channels p.handle with
          connecting := false
          packets := (s.channels p.handle).packets ++ [⟨0, answer⟩] } :=
        ⟨.connected answer status rfl (by rw [packets]; rfl) hsound, huntouched.queue, huntouched.reads,
          huntouched.capacity, huntouched.size⟩
      have hconsistent := h.consistent.relisten hp p rfl hlistening
      rw [← hp] at hconsistent
      exact ⟨hconsistent, h.pending, h.running⟩
  · rw [hcoherent.connecting] at hconnecting
    cases hconnecting
  · rw [hunused] at hconnecting
    cases hconnecting

theorem exists_begun {hub : IoHub} {f : NamedPipe → NamedPipe} (hf : ∀ q, (f q).status = q.status) {pc : Pc}
    {q' : NamedPipe} (h : q' ∈ begun { hub with pipes := hub.pipes.map f } pc) :
    ∃ q ∈ begun hub pc, q.status = q'.status := by
  have hpipes {l : List NamedPipe} (hl : q' ∈ hub.listeningPipe.toList ++ l.map f) :
      ∃ q ∈ hub.listeningPipe.toList ++ l, q.status = q'.status := by
    obtain hl | hl := List.mem_append.mp hl
    · exact ⟨q', List.mem_append_left _ hl, rfl⟩
    · obtain ⟨q, hq, rfl⟩ := List.mem_map.mp hl
      exact ⟨q, List.mem_append_right _ hq, (hf q).symm⟩
  cases pc with
  | polling => exact ⟨q', h, rfl⟩
  | reading i =>
    rw [begun, ← List.map_take] at h
    exact hpipes h
  | waiting => exact hpipes h
  | idle | listening | panicked => cases h

/-- The system serves a read. -/
theorem Invariant.complete (h : Invariant s) {handle : Handle} (hs : s.complete handle = some t) :
    Invariant t := by
  rw [State.complete] at hs
  cases hreads : (s.channels handle).reads with
  | nil =>
    simp only [hreads] at hs
    cases hs
  | cons r reads =>
    simp only [hreads] at hs
    obtain ⟨⟨f, queue⟩, htake, rfl⟩ := Option.map_eq_some_iff.mp hs
    obtain ⟨p, hp, rfl, ⟨-, huntouched⟩, -⟩ | ⟨p, hp, rfl, hcoherent⟩ | ⟨hunused, -⟩ := h.handle_cases handle
    · rw [huntouched.reads] at hreads
      cases hreads
    · have hconsistent := h.consistent.touch hp
        (f := fun p => { p with buffer := writeAt p.buffer r.offset f.data }) rfl
        (hcoherent.complete hreads htake)
      rw [update_eq_self] at hconsistent
      simp only [modifyPipe, modify_findIdx h.consistent.nodup_pipes]
      refine ⟨hconsistent, ?_, h.running⟩
      intro q' hq'
      obtain ⟨q, hq, hstatus⟩ := exists_begun (fun q => by split <;> rfl) hq'
      rw [← hstatus]
      exact h.pending q hq
    · rw [hunused] at hreads
      cases hreads

/-- Every step without a failure keeps the invariant. -/
theorem Invariant.step (h : Invariant s) {action : Action} (hsound : action.Sound)
    (hs : step alloc s action = some t) : Invariant t := by
  cases action with
  | recv =>
    obtain ⟨-, hs⟩ := Option.ite_none_right_eq_some.mp hs
    cases hs
    exact h.consistent.invariant (.inr rfl)
  | listen answer fresh =>
    obtain ⟨⟨-, hfresh⟩, hs⟩ := Option.ite_none_right_eq_some.mp hs
    cases hs
    exact h.listen hsound hfresh
  | tryRecv r =>
    obtain ⟨hpc, hs⟩ := Option.ite_none_right_eq_some.mp hs
    cases hs
    exact h.tryRecv hpc r
  | read answer =>
    cases hpc : s.pc with
    | reading i =>
      simp only [Pipes.step, hpc] at hs
      cases hp : s.hub.pipes[i]? with
      | none =>
        simp only [hp] at hs
        cases hs
        exact h.afterPipes hpc hp
      | some p =>
        obtain ⟨o, hread, ho⟩ := h.read alloc hpc hp hsound
        simp only [hp, hread] at hs
        cases hs
        exact ho
    | idle | listening | polling | waiting | panicked =>
      simp only [Pipes.step, hpc] at hs
      cases hs
  | wait event fresh =>
    obtain ⟨⟨-, hfresh⟩, hs⟩ := Option.ite_none_right_eq_some.mp hs
    cases event with
    | wake =>
      cases hs
      exact h.woken none 0 fresh
    | expired error =>
      cases hs
      exact h.woken (some error) 0 fresh
    | packet key =>
      cases hpackets : (s.channels key).packets with
      | nil =>
        simp only [hpackets] at hs
        cases hs
      | cons packet packets =>
        simp only [hpackets] at hs
        cases hs
        exact h.packet hpackets hfresh
  | write handle message =>
    obtain ⟨hopen, hs⟩ := Option.ite_none_right_eq_some.mp hs
    cases hs
    exact h.write hopen message
  | connect handle answer =>
    obtain ⟨hconnecting, hs⟩ := Option.ite_none_right_eq_some.mp hs
    cases hs
    exact h.connect hsound hconnecting
  | complete handle => exact h.complete hs
  | fail handle error => cases hsound

theorem run_invariant_of_sound {s : State} (h : Invariant s) {actions : List Action}
    (hsound : ∀ action ∈ actions, action.Sound) (hrun : run (step alloc) s actions = some t) :
    Invariant t :=
  along_invariant Invariant (fun _ _ _ h hsound hs => h.step hsound hs) h
    (along_of_forall (fun action ha _ => hsound action ha) s) hrun

/-- What `EncodedMessage::new` is given of a pipe are the messages that are not empty, in their order
and with their bytes. When `recv` waits and nothing is under way, none of them is left. -/
structure Reassembled (alloc : Alloc) (s : State) : Prop where
  running : s.pc ≠ .panicked
  fits : ∀ handle, ∀ b ∈ s.passed handle, b.2 ≤ b.1.length
  inOrder : ∀ handle, (s.passed handle).map contents <+: solid (s.channels handle).messages
  complete : s.pc = .waiting → ∀ handle, Quiet (s.channels handle) →
    (s.passed handle).map contents = solid (s.channels handle).messages
  single : ∀ handle, (s.channels handle).reads.length ≤ 1
  requests : ∀ i p answer o r, s.pc = .reading i → s.hub.pipes[i]? = some p →
    p.read alloc answer = some o → o.request = some r →
      (s.channels p.handle).reads = [] ∧ r.offset = o.pipe.messageSize ∧ 0 < r.length ∧
        r.offset + r.length = o.pipe.buffer.length

theorem Invariant.sound (h : Invariant s) : Reassembled alloc s := by
  refine ⟨h.running, fun handle => ?_, fun handle => ?_, fun hpc handle hquiet => ?_, fun handle => ?_, ?_⟩
  · obtain ⟨p, -, -, -, hnone⟩ | ⟨p, -, -, hcoherent⟩ | ⟨-, hnone⟩ := h.handle_cases handle
    · simp [hnone]
    · exact hcoherent.fits
    · simp [hnone]
  · obtain ⟨p, -, -, -, hnone⟩ | ⟨p, -, -, hcoherent⟩ | ⟨-, hnone⟩ := h.handle_cases handle
    · simp [hnone]
    · obtain ⟨rest, -, -, hsolid⟩ := hcoherent.rest
      rw [hsolid]
      exact List.prefix_append ..
    · simp [hnone]
  · have hpending := h.pending
    rw [hpc] at hpending
    obtain ⟨p, hp, -, hlistening, -⟩ | ⟨p, hp, -, hcoherent⟩ | ⟨hunused, hnone⟩ := h.handle_cases handle
    · exact absurd hquiet (hlistening.not_quiet (hpending p (by simp [begun, hp])))
    · obtain ⟨rest, hphase, -, hsolid⟩ := hcoherent.rest
      have hrest := hphase.quiet (hpending p (by simp [begun, hp])) hquiet
      rw [hsolid, hrest, solid_nil, List.append_nil]
    · rw [hunused, hnone]
      rfl
  · obtain ⟨p, -, -, hlistening, -⟩ | ⟨p, -, -, hcoherent⟩ | ⟨hunused, -⟩ := h.handle_cases handle
    · simp [hlistening.untouched.reads]
    · obtain ⟨rest, hphase, -⟩ := hcoherent.rest
      exact hphase.reads_le
    · simp [hunused]
  · intro i p answer o r hpc hp hread hr
    obtain ⟨rest, hphase, -⟩ := (h.consistent.coherent p (List.mem_of_getElem? hp)).rest
    exact hphase.request hread hr

/-- Over every run of a hub in which no pipe fails. -/
theorem reassembled {s₀ : State} (h₀ : Opened alloc s₀) {actions : List Action}
    (hsound : ∀ action ∈ actions, action.Sound) (hrun : run (step alloc) s₀ actions = some t) :
    Reassembled alloc t :=
  (run_invariant_of_sound (Opened.invariant h₀) hsound hrun).sound

/-- A vector whose memory is zero at first. -/
def zeroed : Alloc where
  withCapacity n := List.replicate n 0
  reserve b n := if n ≤ b.length then b else b ++ List.replicate (max (2 * b.length) n - b.length) 0
  capacity n := List.length_replicate
  grows b n h := by
    rw [if_neg (Nat.not_le_of_lt h), List.length_append, List.length_replicate]
    omega
  keeps b n := by
    split
    · exact List.prefix_refl b
    · exact List.prefix_append ..

/-- A message of 70 bytes. -/
def long : Message := ⟨List.replicate 70 7, by simp⟩

/-- A probe and a message to the pipe of an endpoint, which is read in three parts. -/
def longRun : List Action :=
  [.write 1 ⟨[], by decide⟩, .write 1 long,
    .recv, .listen none 2, .tryRecv .empty, .read none, .read none, .complete 1, .wait (.packet 1) 2,
    .listen none 2, .tryRecv .empty, .read none, .read none, .complete 1, .wait (.packet 1) 2,
    .listen none 2, .tryRecv .empty, .read none, .read none, .complete 1, .wait (.packet 1) 2,
    .listen none 2, .tryRecv .empty, .read none,
    .recv, .listen none 2, .tryRecv .empty, .read none, .read none]

theorem longRun_reassembled :
    ∃ t, run (step zeroed) ⟨.forEndpoint (.new zeroed 1 .readable), .idle, fun _ => {}, fun _ => []⟩ longRun =
        some t ∧ Reassembled zeroed t ∧ (t.passed 1).map contents = [long.val] := by
  have h : (run (step zeroed) ⟨.forEndpoint (.new zeroed 1 .readable), .idle, fun _ => {}, fun _ => []⟩
      longRun).map (fun t => (t.passed 1).map contents) = some [long.val] := by
    decide +kernel
  obtain ⟨t, ht, hpassed⟩ := Option.map_eq_some_iff.mp h
  refine ⟨t, ht, reassembled (.endpoint 1 (by decide)) ?_ ht, hpassed⟩
  simp [longRun, Action.Sound]

end Ipmb.PipeRuns
