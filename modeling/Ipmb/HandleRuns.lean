import Ipmb.HandleLedger
import Ipmb.Reference

namespace Ipmb.HandleTables

open Messages Bytes Windows Faults Custody Run
open Encoding (Codec)
open Function (update)

variable {codec : Codec} {crate : Pid → Version} {w w' : World} {a : Action}

section Steps

theorem Moved.made_subset (hm : Moved codec crate w a w') : w.made ⊆ w'.made := by
  cases hm with
  | made => exact List.subset_append_left _ _
  | _ => exact List.Subset.refl _

/-- A pipe keeps its number and its reader. -/
theorem Moved.homes (hm : Moved codec crate w a w') {k : Nat} {pipe : Pipe}
    (h : w.pipes[k]? = some pipe) : ∃ pipe', w'.pipes[k]? = some pipe' ∧ pipe'.home = pipe.home := by
  have hset : ∀ {k' : Nat} {old new : Pipe}, w.pipes[k']? = some old → new.home = old.home →
      ∃ pipe', (w.pipes.set k' new)[k]? = some pipe' ∧ pipe'.home = pipe.home := by
    intro k' old new hold hhome
    by_cases hk : k' = k
    · subst hk
      rw [hold] at h
      cases h
      refine ⟨new, ?_, hhome⟩
      rw [List.getElem?_set_self (List.getElem?_eq_some_iff.mp hold).1]
    · exact ⟨pipe, by rw [List.getElem?_set_ne hk, h], rfl⟩
  cases hm with
  | listened =>
    exact ⟨pipe, List.getElem?_append_left (List.getElem?_eq_some_iff.mp h).1 ▸ h, rfl⟩
  | shut hpipe => exact hset hpipe rfl
  | delivered hs hfailed hlen hk hpipe hreading => exact hset hpipe rfl
  | read hpipe => exact hset hpipe rfl
  | refused hpipe => exact hset hpipe rfl
  | @died p =>
    refine ⟨if pipe.home = p then ⟨p, false, []⟩ else pipe, by rw [List.getElem?_map, h]; rfl, ?_⟩
    split
    · exact Eq.symm ‹_›
    · rfl
  | _ => exact ⟨pipe, h, rfl⟩

/-- What is borrowed stays where it is, unless its process dies. -/
theorem Moved.loose_kept (hm : Moved codec crate w a w') {p : Pid} {e : Entry} (he : e ∈ w.loose p)
    (hb : w.borrowed p e.1 = true) (ha : w'.alive p = true) : e ∈ w'.loose p := by
  have hupdate : ∀ {p' : Pid} {l : List Entry}, (p' = p → e ∈ l) → e ∈ update w.loose p' l p := by
    intro p' l hl
    by_cases hp : p = p'
    · rw [hp, Function.update_self]
      exact hl hp.symm
    · rwa [Function.update_of_ne hp]
  cases hm with
  | created => exact hupdate fun hp => hp ▸ List.mem_append_left _ he
  | current => exact hupdate fun hp => hp ▸ List.mem_append_left _ he
  | unpacked => exact hupdate fun hp => hp ▸ List.mem_append_left _ he
  | closed hfree hmem =>
    apply hupdate
    rintro rfl
    refine (List.mem_erase_of_ne ?_).mpr he
    rintro rfl
    rw [hb] at hfree
    cases hfree
  | @made p' msg heap taken rest hfits ha' hfree hmap htake =>
    apply hupdate
    rintro rfl
    obtain ⟨hkeys, hcount⟩ := takeAll_spec htake
    have hnot : e ∉ taken := by
      intro hmem
      have hattach : e.1 ∈ msg.attachments := hkeys ▸ List.mem_map_of_mem hmem
      rw [hfree _ hattach] at hb
      cases hb
    have hsum := hcount e
    rw [List.count_eq_zero.mpr hnot] at hsum
    have hpos := List.count_pos_iff.mpr he
    exact List.count_pos_iff.mp (by omega)
  | @died p' =>
    apply hupdate
    rintro rfl
    simp at ha
  | _ => exact he

theorem Lent.keep {s s' : Send} (h : Lent w s) (hm : Moved codec crate w a w') (hs : s ∈ w.sends)
    (ha : w'.alive s.pid = true) (hpid : s'.pid = s.pid) (htarget : s'.target = s.target)
    (hremote : s'.remote = s.remote) (hletter : s'.letter = s.letter) : Lent w' s' := by
  have hborrowed : ∀ handle ∈ Remote.handles s.remote, w.borrowed s.pid handle = true := by
    intro handle hmem
    simp only [World.borrowed, List.any_eq_true, Bool.and_eq_true, beq_iff_eq, List.contains_iff_mem]
    exact ⟨s, hs, rfl, hmem⟩
  refine ⟨hpid ▸ ha, ?_, ?_⟩
  · obtain ⟨k, pipe, hmem, hpipe, hhome⟩ := h.pipe
    obtain ⟨pipe', hpipe', hhome'⟩ := hm.homes hpipe
    rw [hpid, hremote, htarget]
    exact ⟨k, pipe', hm.loose_kept hmem (hborrowed _ List.mem_cons_self) ha, hpipe',
      hhome'.trans hhome⟩
  · rw [hpid, hremote, htarget, hletter]
    refine h.process.imp_right ?_
    rintro ⟨handle, hprocess, hmem⟩
    refine ⟨handle, hprocess, hm.loose_kept hmem (hborrowed _ ?_) ha⟩
    rw [Remote.handles, hprocess]
    exact List.mem_cons_of_mem _ List.mem_cons_self

/-- A new message says of itself what it is to carry. -/
theorem Sound.fine_made (h : Sound codec w) {p : Pid} {msg : Message} {heap : Nat → UInt8}
    {taken rest : List Entry} (hfits : Action.Fits codec crate (.make p msg heap))
    (ha : w.alive p = true) (hmap : ∀ r ∈ msg.memoryRegions, w.mapHeader p r.obj = some r.bufferSize)
    (htake : takeAll (w.loose p) msg.attachments = some (taken, rest)) {made : List Origin}
    (hmade : ⟨crate p, msg.selector, msg.payload, taken.map Prod.snd⟩ ∈ made) :
    Letter.Fine codec made ⟨intoEncoded codec (crate p) msg heap,
      ⟨crate p, msg.selector, msg.payload, taken.map Prod.snd⟩⟩ := by
  obtain ⟨hdec, hregions, hlt⟩ := hfits
  obtain ⟨hkeys, hcount⟩ := takeAll_spec htake
  have hresolve : ∀ e ∈ taken, w.mapHeader p e.1 = e.2.bufferSize := by
    intro e he
    have hloose : e ∈ w.loose p := by
      have hsum := hcount e
      have hpos := List.count_pos_iff.mpr he
      exact List.count_pos_iff.mp (by omega)
    rw [World.mapHeader, h.balanced.resolve ha (mem_loose hloose), Option.bind_some]
  refine ⟨intoEncoded_shaped heap hdec hregions hlt, rfl, ?_, ?_, hmade⟩
  · have hlen := congrArg List.length hkeys
    rw [List.length_map] at hlen ⊢
    exact hlen.symm
  · have hdrop : (taken.drop msg.objects.length).map Prod.fst = msg.memoryRegions.map MemoryRegion.obj := by
      rw [List.map_drop, hkeys, Message.attachments, List.drop_left]
    calc ((taken.map Prod.snd).drop msg.objects.length).map Object.bufferSize
        = (taken.drop msg.objects.length).map (fun e => w.mapHeader p e.1) := by
          rw [← List.map_drop, List.map_map]
          exact List.map_congr_left fun e he => (hresolve e (List.mem_of_mem_drop he)).symm
      _ = (msg.memoryRegions.map MemoryRegion.obj).map (w.mapHeader p) := by
          rw [← hdrop, List.map_map]
          rfl
      _ = msg.memoryRegions.map (fun r => some r.bufferSize) := by
          rw [List.map_map]
          exact List.map_congr_left hmap

theorem Moved.letters (h : Sound codec w) (hm : Moved codec crate w a w') (p : Pid) :
    ∀ letter ∈ w'.held p, letter.Fine codec w'.made := by
  have hsub := hm.made_subset
  have hold : ∀ letter ∈ w.held p, letter.Fine codec w'.made :=
    fun letter hl => (h.letters p letter hl).mono hsub
  have hupdate : ∀ {q : Pid} {letters : List Letter},
      (∀ letter ∈ letters, letter.Fine codec w'.made) →
      ∀ letter ∈ update w.held q letters p, letter.Fine codec w'.made := by
    intro q letters hletters
    by_cases hp : p = q
    · rw [hp, Function.update_self]
      exact hletters
    · rw [Function.update_of_ne hp]
      exact hold
  have hadd : ∀ {q : Pid} {letter : Letter}, letter.Fine codec w'.made →
      ∀ letter' ∈ w.held q ++ [letter], letter'.Fine codec w'.made := by
    intro q letter hletter letter' hmem
    obtain hmem | hmem := List.mem_append.mp hmem
    · exact (h.letters q letter' hmem).mono hsub
    · rwa [List.mem_singleton.mp hmem]
  have herase : ∀ {q : Pid} {i : Nat}, ∀ letter ∈ (w.held q).eraseIdx i, letter.Fine codec w'.made :=
    fun letter hmem => (h.letters _ letter (List.mem_of_mem_eraseIdx hmem)).mono hsub
  cases hm with
  | made hfits ha hfree hmap htake =>
    exact hupdate (hadd (h.fine_made hfits ha hmap htake (List.mem_append_right _ List.mem_cons_self)))
  | unpacked => exact hupdate herase
  | discarded => exact hupdate herase
  | begun => exact hupdate herase
  | delivered hs =>
    obtain ⟨hfine, -⟩ := h.sends _ (List.mem_of_getElem? hs)
    exact hupdate (hadd (hfine.letter.filled hfine.length))
  | failed hs =>
    obtain ⟨hfine, -⟩ := h.sends _ (List.mem_of_getElem? hs)
    exact hupdate (hadd (hfine.letter.filled hfine.length))
  | read hpipe hqueue ha hnew =>
    obtain ⟨sent, handles, hletter, hlen, hbytes, -, -, -⟩ :=
      (h.packets _ (List.mem_of_getElem? hpipe) _ (hqueue ▸ List.mem_cons_self)).spec
    rw [h.balanced.new_packet hpipe hqueue ha hletter hlen hbytes] at hnew
    split at hnew
    · cases hnew
      exact hupdate (hadd (hletter.received hlen))
    · cases hnew
  | died =>
    refine hupdate ?_
    simp
  | _ => exact hold

theorem zip_concat {α β : Type} {l : List α} {r : List β} {a : α} {b : β} (h : r[l.length]? = some b) :
    (l ++ [a]).zip r = l.zip r ++ [(a, b)] := by
  induction l generalizing r with
  | nil =>
    obtain _ | ⟨c, r⟩ := r
    · cases h
    · cases h
      simp
  | cons x l ih =>
    obtain _ | ⟨c, r⟩ := r
    · cases h
    · rw [List.cons_append, List.zip_cons_cons, List.zip_cons_cons, ih (by simpa using h), List.cons_append]

theorem Moved.sends (h : Sound codec w) (hm : Moved codec crate w a w') :
    ∀ s ∈ w'.sends, s.Fine codec w'.made ∧ Lent w' s := by
  have hsub := hm.made_subset
  have hold : ∀ s ∈ w.sends, w'.alive s.pid = true → s.Fine codec w'.made ∧ Lent w' s :=
    fun s hs ha => ⟨(h.sends s hs).1.mono hsub, (h.sends s hs).2.keep hm hs ha rfl rfl rfl rfl⟩
  have hset : w'.alive = w.alive → ∀ {t : Nat} {s s' : Send}, w.sends[t]? = some s →
      s'.Fine codec w'.made → s'.pid = s.pid → s'.target = s.target → s'.remote = s.remote →
      s'.letter = s.letter → ∀ s'' ∈ w.sends.set t s', s''.Fine codec w'.made ∧ Lent w' s'' := by
    intro ha t s s' hs hfine hpid htarget hremote hletter s'' hmem
    obtain hmem | rfl := List.mem_or_eq_of_mem_set hmem
    · exact hold s'' hmem (ha ▸ (h.sends s'' hmem).2.alive)
    · have hs := List.mem_of_getElem? hs
      exact ⟨hfine, (h.sends s hs).2.keep hm hs (ha ▸ (h.sends s hs).2.alive) hpid htarget hremote hletter⟩
  have hkept : w'.alive = w.alive → ∀ s ∈ w.sends, s.Fine codec w'.made ∧ Lent w' s :=
    fun ha s hs => hold s hs (ha ▸ (h.sends s hs).2.alive)
  have hm' := hm
  cases hm with
  | @begun p i remote letter k pipe ha hletter hk hpipe hremote hprocess =>
    intro s hs
    obtain hs | hs := List.mem_append.mp hs
    · exact hkept rfl s hs
    · obtain rfl := List.mem_singleton.mp hs
      have hfine := (h.letters p letter (List.mem_of_getElem? hletter)).mono hsub
      have hentry : ∀ handle ∈ Remote.handles remote, ∀ o, w.resolve p handle = some o →
          (handle, o) ∈ w.loose p := by
        intro handle hmem o ho
        obtain ⟨⟨handle', o'⟩, he, rfl⟩ := List.mem_map.mp (hremote handle hmem)
        rw [h.balanced.resolve ha (mem_loose he)] at ho
        cases ho
        exact he
      refine ⟨⟨hfine, Nat.zero_le _, Nat.le_refl _, fun _ => rfl⟩, ha, ?_, ?_⟩
      · exact ⟨k, pipe, hentry _ List.mem_cons_self _ hk, hpipe, rfl⟩
      · obtain hprocess | hnone := hprocess
        · obtain ⟨handle, hhandle, ho⟩ := Option.bind_eq_some_iff.mp hprocess
          refine Or.inr ⟨handle, hhandle, hentry _ ?_ _ ho⟩
          rw [Remote.handles, hhandle]
          exact List.mem_cons_of_mem _ List.mem_cons_self
        · exact Or.inl hnone
  | @denied t s a ha hs =>
    obtain ⟨hfine, -⟩ := h.sends s (List.mem_of_getElem? hs)
    exact hset rfl hs ⟨hfine.letter, hfine.length, hfine.guards_le, by simp⟩ rfl rfl rfl rfl
  | @duplicated t s source h' q o hs hfailed hsource hq ho ha hk hreal =>
    obtain ⟨hfine, hlent⟩ := h.sends s (List.mem_of_getElem? hs)
    -- the next handle names the next object of the message
    have hlt := (List.getElem?_eq_some_iff.mp hsource).1
    obtain ⟨o', ho'⟩ : ∃ o', s.letter.origin.objects[s.handles.length]? = some o' :=
      ⟨_, List.getElem?_eq_getElem (hfine.letter.length ▸ hlt)⟩
    have hmem : (source, o') ∈ w.ledger s.pid := by
      apply mem_own (List.mem_of_getElem? hs)
      exact List.mem_of_getElem? (List.getElem?_zip_eq_some.mpr ⟨hsource, ho'⟩)
    rw [h.balanced.resolve hlent.alive hmem] at ho
    cases ho
    refine hset rfl hs ⟨hfine.letter, ?_, ?_, fun hf => ?_⟩ rfl rfl rfl rfl
    · simp only [List.length_append, List.length_singleton]
      omega
    · simp only [List.length_append, List.length_singleton]
      exact Nat.succ_le_succ hfine.guards_le
    · rw [zip_concat ho', hfine.guards hfailed]
  | delivered hs => exact fun s hmem => hkept rfl s (List.mem_of_mem_eraseIdx hmem)
  | failed hs => exact fun s hmem => hkept rfl s (List.mem_of_mem_eraseIdx hmem)
  | @released t s e guards q hs hfailed hguards hq =>
    obtain ⟨hfine, -⟩ := h.sends s (List.mem_of_getElem? hs)
    have hle := hfine.guards_le
    rw [hguards, List.length_cons] at hle
    refine hset rfl hs ⟨hfine.letter, hfine.length, by simp only []; omega, ?_⟩ rfl rfl rfl rfl
    intro hf
    simp only [hfailed] at hf
    cases hf
  | @died p =>
    intro s hmem
    obtain ⟨hs, hp⟩ := List.mem_filter.mp hmem
    refine hold s hs ?_
    have hne : s.pid ≠ p := by simpa using hp
    simp only [Function.update_of_ne hne]
    exact (h.sends s hs).2.alive
  | _ => exact hkept rfl

theorem Moved.packets (h : Sound codec w) (hm : Moved codec crate w a w') :
    ∀ pipe ∈ w'.pipes, ∀ packet ∈ pipe.queue, packet.Fine codec w'.made := by
  have hsub := hm.made_subset
  have hold : ∀ pipe ∈ w.pipes, ∀ packet ∈ pipe.queue, packet.Fine codec w'.made :=
    fun pipe hpipe packet hpacket => (h.packets pipe hpipe packet hpacket).mono hsub
  have hset : ∀ {k : Nat} {new : Pipe}, (∀ packet ∈ new.queue, packet.Fine codec w'.made) →
      ∀ pipe ∈ w.pipes.set k new, ∀ packet ∈ pipe.queue, packet.Fine codec w'.made := by
    intro k new hnew pipe hmem
    obtain hmem | rfl := List.mem_or_eq_of_mem_set hmem
    · exact hold pipe hmem
    · exact hnew
  cases hm with
  | listened =>
    intro pipe hmem
    obtain hmem | hmem := List.mem_append.mp hmem
    · exact hold pipe hmem
    · rw [List.mem_singleton.mp hmem]
      simp
  | shut hpipe => exact hset (by simp)
  | @delivered t s k pipe hs hfailed hlen hk hpipe hreading =>
    refine hset fun packet hmem => ?_
    obtain hmem | hmem := List.mem_append.mp hmem
    · exact hold pipe (List.mem_of_getElem? hpipe) packet hmem
    · rw [List.mem_singleton.mp hmem]
      exact ⟨s.letter.msg, s.handles, (h.sends s (List.mem_of_getElem? hs)).1.letter.mono hsub, hlen, rfl⟩
  | read hpipe hqueue =>
    exact hset fun packet hmem => hold _ (List.mem_of_getElem? hpipe) packet
      (hqueue ▸ List.mem_cons_of_mem _ hmem)
  | refused hpipe hqueue =>
    exact hset fun packet hmem => hold _ (List.mem_of_getElem? hpipe) packet
      (hqueue ▸ List.mem_cons_of_mem _ hmem)
  | @died p =>
    intro pipe hmem packet hpacket
    obtain ⟨old, hold', rfl⟩ := List.mem_map.mp hmem
    split at hpacket
    · cases hpacket
    · exact hold old hold' packet hpacket
  | _ => exact hold

theorem Moved.sound (h : Sound codec w) (hm : Moved codec crate w a w') : Sound codec w' :=
  ⟨hm.balanced h, hm.letters h, hm.sends h, hm.packets h⟩

end Steps

section Runs

open Reference

/-- Process 0 has opened process 1, its pipe 0 and one more object. A call that sends the object
fails, the next one succeeds, and process 1 reads the message. -/
def exchange : List Action :=
  [.listen 1, .create 0 4 (.process 1), .create 0 8 (.writeEnd 0), .create 0 12 (.other 7),
    .make 0 ⟨plainSelector 0, [1, 2, 3], [12], []⟩ (fun _ => 0), .begin 0 0 ⟨8, some 4⟩,
    .duplicate 0 (some 100), .write 0 false, .unwind 0, .unwind 0, .begin 0 0 ⟨8, some 4⟩,
    .duplicate 0 (some 104), .write 0 true, .read 0]

def plainStep : World → Action → Option World := World.step plainCodec fun _ => ⟨0, 8, 5⟩

theorem exchange_fits : ∀ a ∈ exchange, a.Fits plainCodec fun _ => ⟨0, 8, 5⟩ := by
  simp only [exchange, List.forall_mem_cons, List.not_mem_nil, false_implies, implies_true, Action.Fits,
    and_true,
    true_and]
  decide +kernel

theorem boot_sound : Sound codec World.boot where
  balanced := ⟨fun _ _ => covers_nil, fun _ _ e he => by simp [World.ledger, World.boot] at he⟩
  letters := by simp [World.boot]
  sends := by simp [World.boot]
  packets := by simp [World.boot]

theorem run_sound {actions : List Action} (hfits : ∀ a ∈ actions, a.Fits codec crate)
    (h : run (World.step codec crate) World.boot actions = some w) : Sound codec w :=
  along_invariant (Sound codec) (fun _ _ _ hs ha hstep => Moved.sound hs (step_moved _ _ _ ha hstep)) boot_sound
    (along_of_forall (fun a ha _ => hfits a ha) _) h

/-- The steps that leave handles open with nobody to close them: a reader drops its pipe before it
is empty, or a process dies in `send_helper`. -/
def World.Loses (w : World) : Action → Prop
  | .shut k => ∃ pipe, w.pipes[k]? = some pipe ∧ pipe.queue.flatMap Packet.entries ≠ []
  | .die p => ∃ s ∈ w.sends, s.pid = p ∧ s.guards ≠ []
  | _ => False

theorem Moved.lost (hm : Moved codec crate w a w') (hnone : ∀ p, w.lost p = []) (hl : ¬ w.Loses a)
    (p : Pid) : w'.lost p = [] := by
  cases hm with
  | @shut k pipe hpipe =>
    have hempty : pipe.queue.flatMap Packet.entries = [] := by
      by_contra hne
      exact hl ⟨pipe, hpipe, hne⟩
    by_cases hp : p = pipe.home
    · subst hp
      simp only [Function.update_self, hnone, hempty, List.append_nil]
    · simp only [Function.update_of_ne hp, hnone]
  | @died q =>
    simp only [hnone, List.nil_append, List.flatMap_eq_nil_iff]
    intro s hs
    obtain ⟨hmem, hpid⟩ := List.mem_filter.mp hs
    have hempty : s.guards = [] := by
      by_contra hne
      exact hl ⟨s, hmem, by simpa using hpid, hne⟩
    rw [Send.guarded, hempty, ite_self]
  | _ => exact hnone p

/-- The handles that a value of the process owns. -/
def World.owned (w : World) (p : Pid) : List Entry := w.loose p ++ (w.held p).flatMap Letter.entries

/-- Over any interleaving, each open handle of a living process is in one place: a value of the
process owns it, or a call of `send_helper`, as its message or in a `RemoteHandle`, or a packet on
its way to the process, unless it is lost. What is in such a place is open, and names what it has
named from the start. -/
theorem handles_accounted {actions : List Action} (hfits : ∀ a ∈ actions, a.Fits codec crate)
    (h : run (World.step codec crate) World.boot actions = some w) {p : Pid} (ha : w.alive p = true)
    (e : Entry) (hreal : e.1 ≠ currentProcess) :
    (w.ledger p).count e = if w.table p e.1 = some e.2 then 1 else 0 :=
  (run_sound hfits h).balanced.covers p ha e hreal

theorem handles_accounted_exchange :
    ∃ w, run plainStep World.boot exchange = some w ∧ (w.ledger 1).count (104, .other 7) = 1 := by
  have hrun : (run plainStep World.boot exchange).map (fun w => (w.alive 1, w.table 1 104)) =
      some (true, some (.other 7)) := by
    decide +kernel
  obtain ⟨w, hw, hobs⟩ := Option.map_eq_some_iff.mp hrun
  obtain ⟨ha, htable⟩ := Prod.mk.inj hobs
  refine ⟨w, hw, ?_⟩
  rw [handles_accounted exchange_fits hw ha (104, .other 7) (by decide), if_pos htable]

/-- Nothing is lost as long as the readers empty their pipes and nobody dies in `send_helper`, and
then, between the calls, what is open is owned by one value each. -/
theorem no_handle_lost {actions : List Action}
    (hsteps : Along (World.step codec crate) (fun w a => a.Fits codec crate ∧ ¬ w.Loses a) World.boot
      actions)
    (h : run (World.step codec crate) World.boot actions = some w) {p : Pid} (ha : w.alive p = true) :
    w.lost p = [] ∧
      (w.sends = [] → (∀ pipe ∈ w.pipes, pipe.queue = []) → ∀ e : Entry, e.1 ≠ currentProcess →
        (w.owned p).count e = if w.table p e.1 = some e.2 then 1 else 0) := by
  obtain ⟨hsound, hlost⟩ : Sound codec w ∧ ∀ p, w.lost p = [] :=
    along_invariant (fun w => Sound codec w ∧ ∀ p, w.lost p = [])
      (fun _ _ _ hs hok hstep =>
        ⟨Moved.sound hs.1 (step_moved _ _ _ hok.1 hstep),
          Moved.lost (step_moved _ _ _ hok.1 hstep) hs.2 hok.2⟩)
      ⟨boot_sound, fun _ => rfl⟩ hsteps h
  refine ⟨hlost p, fun hidle hempty e hreal => ?_⟩
  have hflight : w.pipes.flatMap (Pipe.flight p) = [] := by
    rw [List.flatMap_eq_nil_iff]
    intro pipe hpipe
    rw [Pipe.flight, hempty pipe hpipe, List.flatMap_nil, ite_self]
  have hcount := hsound.balanced.covers p ha e hreal
  rw [count_ledger, hidle, hflight, hlost p] at hcount
  rw [World.owned, List.count_append]
  exact hcount

example : (run plainStep World.boot exchange).map (fun w => (w.owned 0, w.owned 1)) =
    some ([(4, .process 1), (8, .writeEnd 0), (12, .other 7)], [(104, .other 7)]) := by
  decide +kernel

theorem no_handle_lost_exchange :
    ∃ w, run plainStep World.boot exchange = some w ∧ (w.owned 1).count (100, .other 7) = 0 ∧
      (w.owned 1).count (104, .other 7) = 1 := by
  have hrun : (run plainStep World.boot exchange).map (fun w => (w.alive 1, w.table 1 104, w.table 1 100,
      w.sends.length, w.pipes.all fun pipe => pipe.queue.length == 0)) =
      some (true, some (.other 7), none, 0, true) := by
    decide +kernel
  obtain ⟨w, hw, hobs⟩ := Option.map_eq_some_iff.mp hrun
  simp only [Prod.mk.injEq] at hobs
  obtain ⟨ha, h104, h100, hsends, hpipes⟩ := hobs
  have hsteps : Along plainStep (fun w a => a.Fits plainCodec (fun _ => ⟨0, 8, 5⟩) ∧ ¬ w.Loses a) World.boot
      exchange := by
    refine along_of_forall (fun a ha w => ⟨exchange_fits a ha, ?_⟩) _
    revert a
    simp [exchange, World.Loses]
  obtain ⟨-, hrest⟩ := no_handle_lost hsteps hw ha
  have howned := hrest (List.eq_nil_of_length_eq_zero hsends) (by simpa using hpipes)
  refine ⟨w, hw, ?_, ?_⟩
  · rw [howned (100, .other 7) (by decide), h100]
    rfl
  · rw [howned (104, .other 7) (by decide), if_pos h104]

theorem Sound.resolve_letter (h : Sound codec w) {p : Pid} (ha : w.alive p = true) {letter : Letter}
    (hfine : letter.Fine codec w.made) (hmem : ∀ e ∈ letter.entries, e ∈ w.ledger p) :
    letter.msg.attachments.map (w.resolve p) = letter.origin.objects.map some := by
  have hfst := List.map_fst_zip hfine.length.le
  have hsnd := List.map_snd_zip hfine.length.ge
  calc letter.msg.attachments.map (w.resolve p)
      = letter.entries.map fun e => w.resolve p e.1 := by
        rw [← hfst, List.map_map]
        rfl
    _ = letter.entries.map fun e => some e.2 :=
        List.map_congr_left fun e he => h.balanced.resolve ha (hmem e he)
    _ = letter.origin.objects.map some := by
        rw [← hsnd, List.map_map]
        rfl

/-- The message carries what its origin says. -/
structure Faithful (w : World) (p : Pid) (msg : EncodedMessage) (origin : Origin) : Prop where
  made : origin ∈ w.made
  selector : msg.selector = origin.selector
  payload : msg.payload = origin.payload
  objects : msg.attachments.map (w.resolve p) = origin.objects.map some
  sizes : msg.memoryRegions.map (fun r => w.mapHeader p r.obj) =
    msg.memoryRegions.map fun r => some r.bufferSize

theorem Sound.faithful (h : Sound codec w) {p : Pid} (ha : w.alive p = true) {letter : Letter}
    (hfine : letter.Fine codec w.made) (hmem : ∀ e ∈ letter.entries, e ∈ w.ledger p) :
    Faithful w p letter.msg letter.origin := by
  have hresolve := h.resolve_letter ha hfine hmem
  refine ⟨hfine.made, hfine.selector, hfine.shaped.payload_eq, hresolve, ?_⟩
  have hdrop : letter.msg.attachments.drop letter.msg.objects.length =
      letter.msg.memoryRegions.map MemoryRegion.obj := by
    rw [EncodedMessage.attachments, List.drop_left]
  calc letter.msg.memoryRegions.map (fun r => w.mapHeader p r.obj)
      = ((letter.msg.attachments.drop letter.msg.objects.length).map (w.resolve p)).map
          fun o => o.bind Object.bufferSize := by
        rw [hdrop, List.map_map, List.map_map]
        rfl
    _ = (letter.origin.objects.drop letter.msg.objects.length).map Object.bufferSize := by
        rw [List.map_drop, hresolve, ← List.map_drop, List.map_map]
        rfl
    _ = letter.msg.memoryRegions.map fun r => some r.bufferSize := hfine.sizes

/-- However often a message has been forwarded, each process that holds it finds the selector and
the payload it was made with, and handles of its own for the same objects in the same order. The
next packet of a pipe is read so, or refused because of its version; reading never goes wrong. -/
theorem messages_faithful {actions : List Action} (hfits : ∀ a ∈ actions, a.Fits codec crate)
    (h : run (World.step codec crate) World.boot actions = some w) :
    (∀ p, w.alive p = true → ∀ letter ∈ w.held p, Faithful w p letter.msg letter.origin) ∧
      ∀ (k : Nat) pipe packet queue, w.pipes[k]? = some pipe → pipe.queue = packet :: queue →
        w.alive pipe.home = true →
        if (crate pipe.home).compatible packet.origin.version then
          ∃ msg, new (w.mapHeader pipe.home) codec (crate pipe.home) packet.bytes = .ok msg ∧
            Faithful w pipe.home msg packet.origin
        else new (w.mapHeader pipe.home) codec (crate pipe.home) packet.bytes =
          .error (.error (.versionMismatch packet.origin.version none)) := by
  have hsound := run_sound hfits h
  refine ⟨fun p ha letter hletter => ?_, fun k pipe packet queue hpipe hqueue ha => ?_⟩
  · exact hsound.faithful ha (hsound.letters p letter hletter) fun e he => mem_held hletter he
  · have hmem : packet ∈ pipe.queue := hqueue ▸ List.mem_cons_self
    obtain ⟨sent, handles, hletter, hlen, hbytes, -, hentries, -⟩ :=
      (hsound.packets pipe (List.mem_of_getElem? hpipe) packet hmem).spec
    have hheld := hletter.received hlen
    have hnew : new (w.mapHeader pipe.home) codec (crate pipe.home) packet.bytes = _ :=
      hsound.balanced.new_packet hpipe hqueue ha hletter hlen hbytes
    split
    · rename_i hv
      rw [if_pos hv] at hnew
      refine ⟨_, hnew, hsound.faithful ha hheld fun e he => ?_⟩
      rw [Letter.entries, received_attachments hlen, ← hentries] at he
      exact mem_flight hpipe hmem he
    · rename_i hv
      rwa [if_neg hv] at hnew

theorem messages_faithful_exchange :
    ∃ w letter, run plainStep World.boot exchange = some w ∧ letter ∈ w.held 1 ∧
      Faithful w 1 letter.msg letter.origin := by
  have hrun : (run plainStep World.boot exchange).map (fun w => (w.alive 1, (w.held 1).length)) =
      some (true, 1) := by
    decide +kernel
  obtain ⟨w, hw, hobs⟩ := Option.map_eq_some_iff.mp hrun
  obtain ⟨ha, hlen⟩ := Prod.mk.inj hobs
  obtain ⟨letter, hheld⟩ := List.length_eq_one_iff.mp hlen
  have hmem : letter ∈ w.held 1 := hheld ▸ List.mem_cons_self
  exact ⟨w, letter, hw, hmem, (messages_faithful exchange_fits hw).1 1 ha letter hmem⟩

end Runs

end Ipmb.HandleTables
