import Ipmb.Pipes

namespace Ipmb.Reassembly

open Bytes Frames Pipes

/-- The bytes of a message as `EncodedMessage::new` sees them: `set_len` makes them the vector. -/
def contents (b : List UInt8 × Nat) : List UInt8 := b.1.take b.2

/-- There is room behind what has been read of a message, and the rest of the message is there. -/
structure Filling (p : NamedPipe) (queue : List (List UInt8)) : Prop where
  room : p.messageSize < p.buffer.length
  fits : p.buffer.length - p.messageSize < 2 ^ 32
  begun : 0 < p.messageSize → Begun queue

/-- What `recv` and the system are doing on a pipe, and the messages that have not been passed on. -/
inductive Phase (p : NamedPipe) (c : Channel) : List (List UInt8) → Prop
  | readable (status : p.status = .readable) (reads : c.reads = []) (packets : c.packets = [])
      (filling : Filling p c.queue) : Phase p c (glue (p.buffer.take p.messageSize) c.queue)
  | reading (status : p.status = .pending)
      (reads : c.reads = [⟨p.messageSize, p.buffer.length - p.messageSize⟩]) (packets : c.packets = [])
      (filling : Filling p c.queue) : Phase p c (glue (p.buffer.take p.messageSize) c.queue)
  | fragment (n : Nat) (status : p.status = .pending) (reads : c.reads = [])
      (packets : c.packets = [⟨n, some .moreData⟩]) (full : p.messageSize + n = p.buffer.length)
      (positive : 0 < p.buffer.length) (begun : Begun c.queue) : Phase p c (glue p.buffer c.queue)
  | completed (n : Nat) (status : p.status = .pending) (reads : c.reads = [])
      (packets : c.packets = [⟨n, none⟩]) (fits : p.messageSize + n ≤ p.buffer.length)
      (room : 0 < p.buffer.length) (empty : p.messageSize + n = 0 → p.buffer.length < 2 ^ 32) :
      Phase p c (p.buffer.take (p.messageSize + n) :: c.queue)
  | ready (status : p.status = .ready) (reads : c.reads = []) (packets : c.packets = [])
      (fits : p.messageSize ≤ p.buffer.length) (room : 0 < p.buffer.length)
      (empty : p.messageSize = 0 → p.buffer.length < 2 ^ 32) :
      Phase p c (p.buffer.take p.messageSize :: c.queue)

variable {alloc : Alloc} {p : NamedPipe} {c : Channel} {rest : List (List UInt8)}

theorem take_writeAt {buf data : List UInt8} {off : Nat} (h : off + data.length ≤ buf.length) :
    (writeAt buf off data).take (off + data.length) = buf.take off ++ data := by
  have hoff : (buf.take off).length = off := by
    rw [List.length_take]
    omega
  rw [writeAt, List.take_left']
  rw [List.length_append, hoff]

theorem length_writeAt {buf data : List UInt8} {off : Nat} (h : off + data.length ≤ buf.length) :
    (writeAt buf off data).length = buf.length := by
  simp only [writeAt, List.length_append, List.length_take, List.length_drop]
  omega

/-- Before the first byte of a message. -/
theorem filling_of_empty {queue : List (List UInt8)} (hsize : p.messageSize = 0) (hroom : 0 < p.buffer.length)
    (hfits : p.buffer.length < 2 ^ 32) : Filling p queue := by
  refine ⟨?_, ?_, ?_⟩
  · rwa [hsize]
  · rwa [hsize]
  · rw [hsize]
    exact fun h => absurd h (Nat.lt_irrefl 0)

theorem Filling.glue_append {queue : List (List UInt8)} (h : Filling p queue) (m : List UInt8) :
    glue (p.buffer.take p.messageSize) (queue ++ [m]) = glue (p.buffer.take p.messageSize) queue ++ [m] := by
  apply Frames.glue_append
  intro hacc
  apply h.begun
  rw [Nat.pos_iff_ne_zero]
  intro hzero
  rw [hzero] at hacc
  exact hacc List.take_zero

theorem Filling.append {queue : List (List UInt8)} (h : Filling p queue) (m : List UInt8) :
    Filling p (queue ++ [m]) := ⟨h.room, h.fits, fun hsize => (h.begun hsize).append [m]⟩

/-- A message is written. -/
theorem Phase.write (h : Phase p c rest) (m : Message) :
    Phase p { c with written := c.written ++ [m], queue := c.queue ++ [m.val] } (rest ++ [m.val]) := by
  cases h with
  | readable status reads packets filling =>
    rw [← filling.glue_append]
    exact .readable status reads packets (filling.append m.val)
  | reading status reads packets filling =>
    rw [← filling.glue_append]
    exact .reading status reads packets (filling.append m.val)
  | fragment n status reads packets full positive begun =>
    rw [← Frames.glue_append fun _ => begun]
    exact .fragment n status reads packets full positive (begun.append [m.val])
  | completed n status reads packets fits room empty =>
    exact .completed n status reads packets fits room empty
  | ready status reads packets fits room empty =>
    exact .ready status reads packets fits room empty

/-- The system serves the read that is under way. -/
theorem Phase.complete (h : Phase p c rest) {r : ReadRequest} {reads : List ReadRequest}
    (hreads : c.reads = r :: reads) {f : Fragment UInt8} {queue : List (List UInt8)}
    (htake : take r.length c.queue = some (f, queue)) :
    Phase { p with buffer := writeAt p.buffer r.offset f.data }
      { c with
        queue := queue
        reads := reads
        packets := c.packets ++ [⟨f.data.length, if f.more then some .moreData else none⟩] } rest := by
  cases h with
  | reading status hread packets filling =>
    obtain ⟨rfl, rfl⟩ := List.cons.inj (hreads.symm.trans hread)
    have hroom := filling.room
    obtain ⟨data, more⟩ := f
    cases more with
    | false =>
      obtain ⟨hlen, hglue⟩ := take_last htake (p.buffer.take p.messageSize)
      have hfits : p.messageSize + data.length ≤ p.buffer.length := by
        simp only at hlen
        omega
      rw [hglue, ← take_writeAt hfits]
      refine .completed data.length status rfl (by rw [packets]; rfl) ?_ ?_ ?_
      · rwa [length_writeAt hfits]
      · rw [length_writeAt hfits]
        omega
      · intro hempty
        have hzero : p.messageSize + data.length = 0 := hempty
        have := filling.fits
        rw [length_writeAt hfits]
        omega
    | true =>
      obtain ⟨hlen, hglue, hbegun⟩ := take_more htake (p.buffer.take p.messageSize)
      have hfull : p.messageSize + data.length = p.buffer.length := by
        simp only at hlen
        omega
      have hbuffer : writeAt p.buffer p.messageSize data = p.buffer.take p.messageSize ++ data := by
        rw [← take_writeAt (Nat.le_of_eq hfull), hfull, ← length_writeAt (Nat.le_of_eq hfull),
          List.take_length]
      rw [hglue, ← hbuffer]
      refine .fragment data.length status rfl (by rw [packets]; rfl) ?_ ?_ hbegun
      · rwa [length_writeAt (Nat.le_of_eq hfull)]
      · rw [length_writeAt (Nat.le_of_eq hfull)]
        omega
  | readable status hread | fragment n status hread | completed n status hread | ready status hread =>
    rw [hread] at hreads
    cases hreads

/-- The packet of a read is taken. The vector grows if there is more to come. -/
theorem Phase.taken (h : Phase p c rest) (hrest : ∀ m ∈ rest, m.length < 2 ^ 32) {packet : Packet}
    {packets : List Packet} (hpackets : c.packets = packet :: packets) :
    Phase (p.completed alloc packet.size packet.answer) { c with packets := packets } rest := by
  cases h with
  | fragment n status reads hpacket full positive begun =>
    obtain ⟨rfl, rfl⟩ := List.cons.inj (hpackets.symm.trans hpacket)
    obtain ⟨m, hm, hlong⟩ := begun.exists_longer p.buffer
    have hbound := hrest m hm
    have hgrown := alloc.grows p.buffer (p.buffer.length * 2) (by omega)
    have hkept : (alloc.reserve p.buffer (p.buffer.length * 2)).take (p.messageSize + n) = p.buffer := by
      rw [full]
      exact (List.prefix_iff_eq_take.mp (alloc.keeps ..)).symm
    conv => rhs; rw [← hkept]
    refine .readable rfl reads rfl ⟨?_, ?_, fun _ => begun⟩
    · simp only [NamedPipe.completed]
      omega
    · simp only [NamedPipe.completed]
      omega
  | completed n status reads hpacket fits room empty =>
    obtain ⟨rfl, rfl⟩ := List.cons.inj (hpackets.symm.trans hpacket)
    exact .ready rfl reads rfl fits room empty
  | readable status reads hpacket | reading status reads hpacket | ready status reads hpacket =>
    rw [hpacket] at hpackets
    cases hpackets

/-- What `read` has done to its pipe: the channel after it, and the messages still to be passed on. -/
structure Served (p : NamedPipe) (c : Channel) (rest : List (List UInt8)) (o : ReadOutcome) : Prop where
  handle : o.pipe.handle = p.handle
  pending : o.message = none → o.pipe.status = .pending
  fits : ∀ b ∈ o.message, b.2 ≤ b.1.length
  phase : ∃ rest', Phase o.pipe
      { c with reads := c.reads ++ if o.pipe.status = .pending then o.request.toList else [] } rest' ∧
    rest' ⊆ rest ∧ solid rest = o.message.toList.map contents ++ solid rest'

theorem readFile_pipe {answer : Answer} (h : (Action.read answer).Sound) :
    (p.readFile answer).pipe = { p with status := .pending } := by
  simp only [Action.Sound, List.mem_cons, List.not_mem_nil, or_false] at h
  obtain rfl | rfl | rfl | rfl := h <;> rfl

/-- The request is as long as the room is. -/
theorem readFile_request {answer : Answer} {queue : List (List UInt8)} (h : Filling p queue) :
    (p.readFile answer).request = some ⟨p.messageSize, p.buffer.length - p.messageSize⟩ := by
  simp only [NamedPipe.readFile, Nat.mod_eq_of_lt h.fits]

theorem Filling.served {answer : Answer} (h : Filling p c.queue) (hreads : c.reads = [])
    (hpackets : c.packets = []) (hsound : (Action.read answer).Sound) :
    Served p c (glue (p.buffer.take p.messageSize) c.queue) (p.readFile answer) := by
  refine ⟨rfl, fun _ => by rw [readFile_pipe hsound], by simp [NamedPipe.readFile], _, ?_,
    List.Subset.refl _, rfl⟩
  rw [readFile_pipe hsound, readFile_request h, hreads]
  exact .reading rfl rfl hpackets ⟨h.room, h.fits, h.begun⟩

/-- Nothing is done while a read is under way. -/
theorem pending_read {answer : Answer} (status : p.status = .pending) (h : Phase p c rest) :
    ∃ o, p.read alloc answer = some o ∧ Served p c rest o := by
  refine ⟨⟨p, none, none⟩, ?_, rfl, fun _ => status, by simp, rest, ?_, List.Subset.refl _, rfl⟩
  · rw [NamedPipe.read, status]
  · simpa using h

/-- A message is complete, and a new vector takes the place of its own. -/
theorem passed_read {answer : Answer} (status : p.status = .ready) (reads : c.reads = [])
    (packets : c.packets = []) (fits : p.messageSize ≤ p.buffer.length) (hsize : 0 < p.messageSize) :
    ∃ o, p.read alloc answer = some o ∧ Served p c (p.buffer.take p.messageSize :: c.queue) o := by
  refine ⟨⟨{ p with status := .readable, buffer := alloc.withCapacity 64, messageSize := 0 }, none,
    some (p.buffer, p.messageSize)⟩, ?_, rfl, ?_, ?_, c.queue, ?_, ?_, ?_⟩
  · rw [NamedPipe.read, status]
    exact if_pos hsize
  · intro hnone
    cases hnone
  · intro b hb
    cases hb
    exact fits
  · have hfilling : Filling ⟨p.handle, .readable, alloc.withCapacity 64, 0⟩ c.queue :=
      filling_of_empty rfl (by simp [alloc.capacity]) (by simp [alloc.capacity])
    conv => rhs; rw [← glue_nil c.queue]
    exact .readable rfl (by simp [reads]) packets hfilling
  · exact List.subset_cons_self ..
  · rw [solid_cons]
    · rfl
    · intro hnil
      have := congrArg List.length hnil
      rw [List.length_take, List.length_nil] at this
      omega

/-- Only a liveness probe has been read, and the pipe is read again. -/
theorem probed_read {answer : Answer} (hsound : (Action.read answer).Sound) (status : p.status = .ready)
    (reads : c.reads = []) (packets : c.packets = []) (hsize : p.messageSize = 0)
    (hfilling : Filling { p with status := .readable } c.queue) :
    ∃ o, p.read alloc answer = some o ∧ Served p c (p.buffer.take p.messageSize :: c.queue) o := by
  obtain ⟨hhandle, hpending, hfits, rest', hphase, hsub, hsolid⟩ := hfilling.served reads packets hsound
  refine ⟨_, ?_, hhandle, hpending, hfits, rest', hphase, ?_, ?_⟩
  · rw [NamedPipe.read, status]
    exact if_neg (by simp [hsize])
  · apply List.Subset.trans hsub
    simp [hsize]
  · rw [← hsolid]
    simp [hsize]

theorem Phase.read (h : Phase p c rest) {answer : Answer} (hsound : (Action.read answer).Sound) :
    ∃ o, p.read alloc answer = some o ∧ Served p c rest o := by
  cases h with
  | readable status reads packets filling =>
    refine ⟨p.readFile answer, ?_, filling.served reads packets hsound⟩
    rw [NamedPipe.read, status]
  | reading status reads packets filling =>
    exact pending_read status (.reading status reads packets filling)
  | fragment n status reads packets full positive begun =>
    exact pending_read status (.fragment n status reads packets full positive begun)
  | completed n status reads packets fits room empty =>
    exact pending_read status (.completed n status reads packets fits room empty)
  | ready status reads packets fits room empty =>
    by_cases hsize : p.messageSize = 0
    · exact probed_read hsound status reads packets hsize (filling_of_empty hsize room (empty hsize))
    · exact passed_read status reads packets fits (Nat.pos_of_ne_zero hsize)

/-- A `ReadFile` is called when no other read is under way, and for the rest of the buffer. -/
theorem Phase.request (h : Phase p c rest) {answer : Answer} {o : ReadOutcome}
    (hread : p.read alloc answer = some o) {r : ReadRequest} (hr : o.request = some r) :
    c.reads = [] ∧ r.offset = o.pipe.messageSize ∧ 0 < r.length ∧
      r.offset + r.length = o.pipe.buffer.length := by
  have hfile {p' : NamedPipe} {queue : List (List UInt8)} (hp : p'.readFile answer = o)
      (hfilling : Filling p' queue) :
      r.offset = o.pipe.messageSize ∧ 0 < r.length ∧ r.offset + r.length = o.pipe.buffer.length := by
    subst hp
    rw [readFile_request hfilling, Option.some.injEq] at hr
    subst hr
    have := hfilling.room
    exact ⟨rfl, Nat.sub_pos_of_lt this, Nat.add_sub_cancel' (Nat.le_of_lt this)⟩
  cases h with
  | readable status reads packets filling =>
    rw [NamedPipe.read, status] at hread
    exact ⟨reads, hfile (Option.some.inj hread) filling⟩
  | reading status | fragment n status | completed n status =>
    rw [NamedPipe.read, status] at hread
    cases hread
    cases hr
  | ready status reads packets fits room empty =>
    rw [NamedPipe.read, status] at hread
    simp only at hread
    split at hread
    · cases hread
      cases hr
    · rename_i hsize
      have hzero : p.messageSize = 0 := by omega
      have hfilling : Filling { p with status := .readable } c.queue := filling_of_empty hzero room (empty hzero)
      exact ⟨reads, hfile (Option.some.inj hread) hfilling⟩

theorem Phase.answer (h : Phase p c rest) {packet : Packet} {packets : List Packet}
    (hpackets : c.packets = packet :: packets) : packet.answer ∈ [none, some .moreData] := by
  cases h with
  | fragment n status reads hpacket | completed n status reads hpacket =>
    obtain ⟨rfl, -⟩ := List.cons.inj (hpackets.symm.trans hpacket)
    simp
  | readable status reads hpacket | reading status reads hpacket | ready status reads hpacket =>
    rw [hpacket] at hpackets
    cases hpackets

theorem Phase.reads_le (h : Phase p c rest) : c.reads.length ≤ 1 := by
  cases h with
  | reading status reads => simp [reads]
  | readable status reads | fragment n status reads | completed n status reads | ready status reads =>
    simp [reads]

/-- The system has nothing to report about a pipe, and will not have until more is written. -/
structure Quiet (c : Channel) : Prop where
  packets : c.packets = []
  connecting : c.connecting = false
  reads : ∀ r ∈ c.reads, take r.length c.queue = none

/-- Everything has been passed on when the system has nothing more to report. -/
theorem Phase.quiet (h : Phase p c rest) (hstatus : p.status = .pending) (hquiet : Quiet c) : rest = [] := by
  cases h with
  | reading status reads packets filling =>
    have hqueue := take_eq_none.mp (hquiet.reads _ (by rw [reads]; exact List.mem_singleton_self _))
    rw [hqueue]
    rfl
  | fragment n status reads packets | completed n status reads packets =>
    rw [hquiet.packets] at packets
    cases packets
  | readable status | ready status =>
    rw [hstatus] at status
    cases status

/-- The listening pipe: before `ConnectNamedPipe`, while it is under way, and when its packet waits. -/
inductive Connecting (p : NamedPipe) (c : Channel) : Prop
  | free (status : p.status = .free) (connecting : c.connecting = false) (packets : c.packets = [])
  | pending (status : p.status = .pending) (connecting : c.connecting = true) (packets : c.packets = [])
  | connected (answer : Answer) (status : p.status = .pending) (connecting : c.connecting = false)
      (packets : c.packets = [⟨0, answer⟩]) (sound : answer ∈ [none, some .pipeConnected])

/-- Nothing has been read from the pipe. -/
structure Untouched (p : NamedPipe) (c : Channel) : Prop where
  queue : c.queue = c.messages
  reads : c.reads = []
  capacity : p.buffer.length = 64
  size : p.messageSize = 0

structure Listening (p : NamedPipe) (c : Channel) : Prop where
  connecting : Connecting p c
  untouched : Untouched p c

/-- What has been passed on of a pipe, and what is still to be passed on, is what was written. -/
structure Coherent (p : NamedPipe) (c : Channel) (passed : List (List UInt8 × Nat)) : Prop where
  connecting : c.connecting = false
  fits : ∀ b ∈ passed, b.2 ≤ b.1.length
  rest : ∃ rest, Phase p c rest ∧ (∀ m ∈ rest, m.length < 2 ^ 32) ∧
    solid (c.messages) = passed.map contents ++ solid rest

/-- A listening pipe that is waited for is not quiet. -/
theorem Listening.not_quiet {p : NamedPipe} {c : Channel} (h : Listening p c)
    (hstatus : p.status = .pending) :
    ¬ Quiet c := by
  intro hquiet
  cases h.connecting with
  | free status =>
    rw [hstatus] at status
    cases status
  | pending status connecting =>
    rw [hquiet.connecting] at connecting
    cases connecting
  | connected answer status connecting packets =>
    rw [hquiet.packets] at packets
    cases packets

theorem Untouched.coherent (h : Untouched p c) (hconnecting : c.connecting = false)
    (hpackets : c.packets = [])
    (hstatus : p.status = .readable) : Coherent p c [] := by
  have hfilling : Filling p c.queue :=
    filling_of_empty h.size (by simp [h.capacity]) (by simp [h.capacity])
  refine ⟨hconnecting, by simp, c.queue, ?_, ?_, ?_⟩
  · have hphase := Phase.readable hstatus h.reads hpackets hfilling
    rwa [h.size, List.take_zero, glue_nil] at hphase
  · intro m hm
    rw [h.queue] at hm
    obtain ⟨m, -, rfl⟩ := List.mem_map.mp hm
    exact m.2
  · rw [← h.queue]
    rfl

theorem Coherent.write {passed : List (List UInt8 × Nat)} (h : Coherent p c passed) (m : Message) :
    Coherent p { c with written := c.written ++ [m], queue := c.queue ++ [m.val] } passed := by
  obtain ⟨rest, hphase, hbound, hsolid⟩ := h.rest
  refine ⟨h.connecting, h.fits, rest ++ [m.val], hphase.write m, ?_, ?_⟩
  · intro m' hm'
    obtain hm' | hm' := List.mem_append.mp hm'
    · exact hbound m' hm'
    · rw [List.mem_singleton.mp hm']
      exact m.2
  · rw [Channel.messages] at hsolid ⊢
    rw [List.map_append, solid_append, solid_append, hsolid, List.append_assoc]
    rfl

theorem Coherent.complete {passed : List (List UInt8 × Nat)} (h : Coherent p c passed) {r : ReadRequest}
    {reads : List ReadRequest} (hreads : c.reads = r :: reads) {f : Fragment UInt8}
    {queue : List (List UInt8)} (htake : take r.length c.queue = some (f, queue)) :
    Coherent { p with buffer := writeAt p.buffer r.offset f.data }
      { c with
        queue := queue
        reads := reads
        packets := c.packets ++ [⟨f.data.length, if f.more then some .moreData else none⟩] } passed := by
  obtain ⟨rest, hphase, hbound, hsolid⟩ := h.rest
  exact ⟨h.connecting, h.fits, rest, hphase.complete hreads htake, hbound, hsolid⟩

theorem Coherent.taken {passed : List (List UInt8 × Nat)} (h : Coherent p c passed) {packet : Packet}
    {packets : List Packet} (hpackets : c.packets = packet :: packets) :
    Coherent (p.completed alloc packet.size packet.answer) { c with packets := packets } passed := by
  obtain ⟨rest, hphase, hbound, hsolid⟩ := h.rest
  exact ⟨h.connecting, h.fits, rest, hphase.taken hbound hpackets, hbound, hsolid⟩

theorem Coherent.read (alloc : Alloc) {passed : List (List UInt8 × Nat)} (h : Coherent p c passed)
    {answer : Answer} (hsound : (Action.read answer).Sound) :
    ∃ o, p.read alloc answer = some o ∧ o.pipe.handle = p.handle ∧
      (o.message = none → o.pipe.status = .pending) ∧
      Coherent o.pipe { c with reads := c.reads ++ if o.pipe.status = .pending then o.request.toList else [] }
        (passed ++ o.message.toList) := by
  obtain ⟨rest, hphase, hbound, hsolid⟩ := h.rest
  obtain ⟨o, hread, hhandle, hpending, hfits, rest', hphase', hsub, hrest⟩ := hphase.read hsound
  refine ⟨o, hread, hhandle, hpending, h.connecting, ?_, rest', hphase', fun m hm => hbound m (hsub hm), ?_⟩
  · intro b hb
    obtain hb | hb := List.mem_append.mp hb
    · exact h.fits b hb
    · exact hfits b (by simpa using hb)
  · rw [Channel.messages] at hsolid ⊢
    rw [hsolid, hrest, List.map_append, List.append_assoc]

theorem Listening.write (h : Listening p c) (m : Message) :
    Listening p { c with written := c.written ++ [m], queue := c.queue ++ [m.val] } := by
  refine ⟨?_, ?_, h.untouched.reads, h.untouched.capacity, h.untouched.size⟩
  · cases h.connecting with
    | free status connecting packets => exact .free status connecting packets
    | pending status connecting packets => exact .pending status connecting packets
    | connected answer status connecting packets sound =>
      exact .connected answer status connecting packets sound
  · simp [h.untouched.queue, Channel.messages]

end Ipmb.Reassembly
