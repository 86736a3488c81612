import Ipmb.HalfOpen
import Ipmb.RegionSteps

namespace Ipmb.ExactCounts

open Messages Buffers Encoding Faults Decoding Reception Reference RoundTrip Attachments Run Forwarding
  Counters Regions

/-- How many `MemoryRegion`s of the object there are. -/
def handles (s : State) (f : File) : Nat := (s.items.flatMap fun x => x.2.handles).count f

/-- How many copies of it are in datagrams that no `recvmsg` has taken. -/
def copies (s : State) (f : File) : Nat := (s.flight.flatMap parcelUnits).count f

/-- How often the calls in progress have counted it for a receiver. -/
def transit (s : State) (f : File) : Nat := (s.items.flatMap fun x => x.2.transit).count f

theorem count_live (s : State) (f : File) :
    s.live.count f = handles s f + copies s f + transit s f := by
  have hitems : ∀ items : List (Nat × Item), (items.flatMap itemUnits).count f =
      (items.flatMap fun x => x.2.handles).count f + (items.flatMap fun x => x.2.transit).count f := by
    intro items
    induction items with
    | nil => rfl
    | cons x items ih =>
      simp only [List.flatMap_cons, List.count_append, ih, itemUnits, Item.units]
      omega
  rw [State.live, List.count_append, hitems, handles, copies, transit]
  omega

variable (codec : Codec) (versions : Nat → Version)

/-- `into_encoded` has made the data, of a message with that many memory regions. -/
def Made (iovData : List UInt8) (regions : Nat) : Prop :=
  ∃ version msg heap, Keeps codec msg.selector ∧
    iovData = (intoEncoded codec version msg heap).iovData ∧
    msg.selector.memoryRegionCount = UInt16.ofNat regions

def MadeItem : Item → Prop
  | .region _ | .draft _ => True
  | .message msg regions | .counting msg regions _ _ | .uncounting msg regions _ =>
    Made codec msg.iovData regions.length
  | .opening got todo half done =>
    Made codec got.iovData (todo.length + half.toList.length + done.length)

/-- The selectors that are sent survive `bincode`. -/
def Honest : Action → Prop
  | .encode _ msg _ => Keeps codec (counted msg).selector
  | _ => True

/-- No process dies, and no socket is closed with datagrams that are unread. -/
def Alive (s : State) : Action → Prop
  | .close socket => ∀ x ∈ s.flight, x.1 ≠ socket
  | .die _ => False
  | _ => True

/-- A datagram with memory regions that is taken off a socket fits into the buffers of the
receiver, and comes from a compatible version. -/
def Fitting (s : State) : Action → Prop
  | .fromLocal p j _ => ∀ x, s.flight[j]? = some x → x.2.regions ≠ [] →
      x.2.datagram.fds.length ≤ 4 ∧ x.2.datagram.bytes.length < 2 ^ 32 ∧
        ∀ v, x.2.datagram.bytes.take 4 = versionBytes v → (versions p).compatible v = true
  | _ => True

section Datagrams

variable {k : Kernel} (hk : k.Documented) {codec : Codec} {ours : Version} {d : Datagram} {n : Nat}
  (h : Made codec d.bytes n) {heap : Heap}
include hk h

theorem Made.received {got : EncodedMessage} (hn : n ≤ scmMaxFd)
    (hgot : fromLocal k codec ours heap (some d) = .ok got) :
    got.memoryRegions.length = n ∧ Made codec got.iovData n := by
  obtain ⟨bytes, fds⟩ := d
  obtain ⟨version, msg, heap', hcodec, rfl, hcount⟩ := h
  obtain ⟨-, attached, hsplit, rfl⟩ := Relay.accepted_parts hk hcodec hgot
  refine ⟨?_, version, msg, heap', hcodec, rfl, hcount⟩
  have hfew : n < 2 ^ 16 := Nat.lt_of_le_of_lt hn (by decide)
  rw [length_splitObjects hsplit, hcount, UInt16.toNat_ofNat', Nat.mod_eq_of_lt hfew]

/-- What fits and comes from a compatible version is received. -/
theorem Made.accepted (hfds : d.fds.length ≤ 4) (hlt : d.bytes.length < 2 ^ 32)
    (hv : ∀ v, d.bytes.take 4 = versionBytes v → ours.compatible v = true) :
    Fails (fun _ => False) (fromLocal k codec ours heap (some d)) := by
  obtain ⟨version, msg, heap', hcodec, hbytes, -⟩ := h
  have hfirst : d.bytes.take 4 = versionBytes version := by
    obtain ⟨pad, pad', -, -, hlayout⟩ := encodeIov_layout codec version msg heap'.iov
    rw [hbytes, intoEncoded, hlayout, layout]
    simp only [List.append_assoc]
    exact List.take_left' rfl
  exact HalfOpen.Carries.fails hk ⟨msg, heap', hcodec, hbytes⟩ heap (hv version hfirst) hfds hlt

end Datagrams

/-- What holds after every step, besides the balance of the counts. -/
structure Sound (s : State) : Prop where
  lost : s.lost = []
  items : ∀ x ∈ s.items, MadeItem codec x.2
  flight : ∀ x ∈ s.flight, Made codec x.2.datagram.bytes x.2.regions.length ∧
    x.2.regions.length ≤ scmMaxFd

variable {codec versions} {k : Kernel} {s s' : State}

theorem Sound.item (h : Sound codec s) {j p : Nat} {i : Item} (hj : s.items[j]? = some (p, i)) :
    MadeItem codec i := h.items _ (List.mem_of_getElem? hj)

theorem Sound.become (h : Sound codec s) {new : List (Nat × Item)} (hnew : ∀ x ∈ new, MadeItem codec x.2)
    (j : Nat) : Sound codec (s.become j new) := by
  refine ⟨h.lost, fun x hx => ?_, h.flight⟩
  obtain hx | hx := mem_splice hx
  · exact hnew x hx
  · exact h.items x hx

theorem Sound.place (h : Sound codec s) (j p : Nat) (i : Item) (hi : MadeItem codec i) :
    Sound codec (s.become j [(p, i)]) := h.become (List.forall_mem_singleton.mpr hi) j

/-- What becomes of one item takes its place. -/
theorem Sound.turn (h : Sound codec s) {j p : Nat} {i : Item} {new : List Item}
    (hj : s.items[j]? = some (p, i)) (hnew : MadeItem codec i → ∀ i' ∈ new, MadeItem codec i') :
    Sound codec (s.become j (new.map (p, ·))) :=
  h.become (List.forall_mem_map.mpr (hnew (h.item hj))) j

theorem Sound.refCountInner (h : Sound codec s) (f : File) (val : Int) :
    Sound codec (s.refCountInner f val) := ⟨h.lost, h.items, h.flight⟩

theorem made_turns {i : Item} {new : List Item} (h : Turns i new) (hi : MadeItem codec i) :
    ∀ i' ∈ new, MadeItem codec i' := by
  cases h with
  | apart | unpacked => exact List.forall_mem_map.mpr fun _ _ => trivial
  | sending | refused | restored => exact List.forall_mem_singleton.mpr hi
  | opened got done =>
    simp only [MadeItem, List.length_nil, Option.toList_none, Nat.zero_add] at hi
    exact List.forall_mem_singleton.mpr hi

theorem made_adds {i : Item} {new : List Item} {f : File} (h : Adds i new f) (hi : MadeItem codec i) :
    ∀ i' ∈ new, MadeItem codec i' := by
  cases h with
  | cloned => simp [MadeItem]
  | counted => exact List.forall_mem_singleton.mpr hi
  | mapped got f todo done =>
    refine List.forall_mem_singleton.mpr ?_
    simp only [MadeItem, List.length_cons, Option.toList_none, Option.toList_some, List.length_nil] at hi ⊢
    rwa [show todo.length + (0 + 1) + done.length = todo.length + 1 + 0 + done.length by omega]

theorem made_drops {i : Item} {new : List Item} {f : File} (h : Drops i new f) (hi : MadeItem codec i) :
    ∀ i' ∈ new, MadeItem codec i' := by
  cases h with
  | dropped => simp
  | uncounted => exact List.forall_mem_singleton.mpr hi
  | handedOver got f todo done =>
    refine List.forall_mem_singleton.mpr ?_
    simp only [MadeItem, List.length_cons, Option.toList_none, Option.toList_some, List.length_nil,
      List.length_append] at hi ⊢
    rwa [show todo.length + 0 + (done.length + (0 + 1)) = todo.length + (0 + 1) + done.length by omega]

theorem Sound.deliver (h : Sound codec s) {j p socket : Nat} {msg : EncodedMessage} {regions : List File}
    {d : Datagram} {f : RawFd → RawFd}
    (hj : s.items[j]? = some (p, .counting msg regions socket regions.length))
    (hfew : msg.objects.length + regions.length ≤ scmMaxFd) (hd : transmit k f msg = some d) :
    Sound codec { s.become j [(p, .message msg regions)] with
      flight := s.flight ++ [(socket, ⟨d, regions⟩)] } := by
  obtain ⟨fds, -, rfl⟩ := Option.map_eq_some_iff.mp hd
  have hmade : Made codec msg.iovData regions.length := h.item hj
  have hturn : Sound codec (s.become j [(p, .message msg regions)]) :=
    h.place j p (.message msg regions) hmade
  refine ⟨hturn.lost, hturn.items, fun x hx => ?_⟩
  obtain hx | hx := List.mem_append.mp hx
  · exact h.flight x hx
  · obtain rfl := List.mem_singleton.mp hx
    exact ⟨hmade, by simp only; omega⟩

/-- Nothing is lost of a datagram that fits. -/
theorem Sound.receive (hk : k.Documented) (h : Sound codec s) {p j socket : Nat} {parcel : Parcel}
    {heap : Heap} {r : Except (Error RawFd) EncodedMessage}
    (hj : s.flight[j]? = some (socket, parcel)) (hfit : Fitting versions s (.fromLocal p j heap))
    (hr : outcome (fromLocal k codec (versions p) heap (some parcel.datagram)) = some r)
    (hs : s.receive p j parcel r = some s') : Sound codec s' := by
  obtain ⟨hmade, hfew⟩ := h.flight _ (List.mem_of_getElem? hj)
  have hflight : ∀ x ∈ splice s.flight j [], Made codec x.2.datagram.bytes x.2.regions.length ∧
      x.2.regions.length ≤ scmMaxFd := by
    intro x hx
    obtain hx | hx := mem_splice hx
    · cases hx
    · exact h.flight x hx
  unfold State.receive at hs
  split at hs
  · rename_i got
    obtain ⟨hlen, hgot⟩ := hmade.received hk hfew (outcome_ok.mp hr)
    simp only [hlen, Nat.le_refl, if_true, Nat.sub_self, List.drop_zero, List.take_zero,
      List.nil_append] at hs
    cases hs
    exact ⟨h.lost, List.forall_mem_cons.mpr ⟨hgot, h.items⟩, hflight⟩
  · cases hs
    have hnone : parcel.regions = [] := by
      by_contra hsome
      obtain ⟨hfds, hlt, hv⟩ := hfit _ hj hsome
      exact (hmade.accepted hk hfds hlt hv).outcome hr
    exact ⟨by rw [hnone, List.nil_append, h.lost], h.items, hflight⟩

theorem step_sound (hk : k.Documented) {a : Action} (h : Sound codec s) (hhonest : Honest codec a)
    (halive : Alive s a) (hfit : Fitting versions s a) (hs : Moved k codec versions s a s') :
    Sound codec s' := by
  cases hs with
  | made | written => exact ⟨h.lost, List.forall_mem_cons.mpr ⟨trivial, h.items⟩, h.flight⟩
  | attached => exact (h.become (by simp) _).place _ _ (.draft _) trivial
  | @encoded j p regions msg heap hj hlen =>
    refine h.place j p (.message _ regions) ⟨versions p, counted msg, heap, hhonest, rfl, ?_⟩
    rw [← hlen]
    rfl
  | turned hj hi => exact h.turn hj (made_turns hi)
  | added hj hi => exact (h.turn hj (made_adds hi)).refCountInner _ _
  | dropped hj hi => exact (h.turn hj (made_drops hi)).refCountInner _ _
  | delivered f hj hfew hd => exact h.deliver hj hfew hd
  | received hj hr hreceive => exact h.receive hk hj hfit hr hreceive
  | closed socket =>
    have hnone : (s.flight.filter fun x => x.1 == socket) = [] :=
      List.filter_eq_nil_iff.mpr fun x hx => by simpa using halive x hx
    exact ⟨by rw [hnone]; exact h.lost, h.items, fun x hx => h.flight x (List.mem_of_mem_filter hx)⟩
  | died => exact halive.elim

/-- Without deaths and with datagrams that fit, the counts are exact: they are off only by
what a call in progress is about to hand over. -/
theorem counts_exact (hk : k.Documented) {as : List Action} (hhonest : ∀ a ∈ as, Honest codec a)
    (hfit : Along (step k codec versions) (fun s a => Alive s a ∧ Fitting versions s a) start as)
    (hrun : run (step k codec versions) start as = some s) {f : File} {h : Header}
    (hf : s.headers[f]? = some h) :
    h.refCount = BitVec.ofNat 32 (handles s f + copies s f + transit s f) ∧
      (transit s f = 0 →
        (h.refCount.toNat = handles s f + copies s f ↔ handles s f + copies s f < 2 ^ 32)) := by
  obtain ⟨hbalanced, hsound⟩ := along_invariant
    (P := fun s a => Honest codec a ∧ Alive s a ∧ Fitting versions s a)
    (fun s => Balanced s.counts s.units ∧ Sound codec s)
    (fun s a s' hi hp hs => ⟨(step_moved hs).changes.units.balanced hi.1,
      step_sound hk hi.2 hp.1 hp.2.1 hp.2.2 (step_moved hs)⟩)
    (s := start) ⟨Balanced.nil, rfl, by simp [start], by simp [start]⟩
    (hfit.and hhonest) hrun
  have hcount := hbalanced.counted f h.refCount (by rw [State.counts, List.getElem?_map, hf]; rfl)
  rw [State.units, hsound.lost, List.append_nil, count_live] at hcount
  refine ⟨hcount, fun hidle => ?_⟩
  rw [hcount, hidle, Nat.add_zero, BitVec.toNat_ofNat]
  exact ⟨fun heq => heq ▸ Nat.mod_lt _ (by decide), fun hlt => Nat.mod_eq_of_lt hlt⟩

/-- A new region, in a message with so many objects that is sent over socket 0 and read by
process 1. -/
def sends (objects : List RawFd) : List Action :=
  [.new 0 16, .write 0, .attach 0 1,
    .encode 0 ⟨plainSelector 0, [], objects, [⟨5, 16⟩]⟩ zeroHeap, .send 0 0, .count 0, .sendmsg 0 id,
    .fromLocal 1 0 zeroHeap]

/-- The datagrams that are read are small ones of this version, and nothing is closed. -/
def fits (s : State) : Action → Bool
  | .fromLocal _ j _ => (s.flight[j]?).all fun x =>
    decide (x.2.datagram.fds.length ≤ 4) && decide (x.2.datagram.bytes.length < 2 ^ 32) &&
      x.2.datagram.bytes.take 4 == versionBytes ⟨0, 8, 5⟩
  | .close _ | .die _ => false
  | _ => true

theorem fitting_of_fits (s : State) (a : Action) (h : fits s a = true) :
    Alive s a ∧ Fitting (fun _ => ⟨0, 8, 5⟩) s a := by
  cases a with
  | fromLocal p j heap =>
    refine ⟨trivial, fun x hx _ => ?_⟩
    simp only [fits, hx, Option.all_some, Bool.and_eq_true, decide_eq_true_eq, beq_iff_eq] at h
    refine ⟨h.1.1, h.1.2, fun v hv => ?_⟩
    have hsame : versionBytes ⟨0, 8, 5⟩ = versionBytes v := h.2.symm.trans hv
    simp only [versionBytes, List.cons.injEq, and_true, true_and] at hsame
    obtain ⟨hmajor, hminor, hpatch⟩ := hsame
    cases v
    simp only at hmajor hminor hpatch
    subst hmajor hminor hpatch
    rfl
  | close | die => cases h
  | _ => exact ⟨trivial, trivial⟩

theorem counts_exact_received :
    ∃ s h, run (step anyRegion plainCodec fun _ => ⟨0, 8, 5⟩) start
        (sends [] ++ [.fromObject 0, .handOver 0, .finish 0]) = some s ∧ s.headers[0]? = some h ∧
      h.refCount = BitVec.ofNat 32 (handles s 0 + copies s 0 + transit s 0) ∧
      (transit s 0 = 0 →
        (h.refCount.toNat = handles s 0 + copies s 0 ↔ handles s 0 + copies s 0 < 2 ^ 32)) := by
  have hrun : (run (step anyRegion plainCodec fun _ => ⟨0, 8, 5⟩) start
      (sends [] ++ [.fromObject 0, .handOver 0, .finish 0])).map State.headers = some [⟨2, 16⟩] := rfl
  obtain ⟨s, hs, hheaders⟩ := Option.map_eq_some_iff.mp hrun
  have hf : s.headers[0]? = some ⟨2, 16⟩ := by rw [hheaders]; rfl
  refine ⟨s, _, hs, hf, counts_exact (reference_documented _) ?_ (along_of_passes fitting_of_fits ?_) hs hf⟩
  · simp only [sends, List.cons_append, List.nil_append, List.forall_mem_cons, Honest, true_and]
    exact ⟨rfl, by simp⟩
  · rfl

/-- Four objects besides the region are too many for the control area of the receiver: the
region stays counted for the message that has been dropped. -/
theorem refused_region_leaks :
    ∃ s h, run (step anyRegion plainCodec fun _ => ⟨0, 8, 5⟩) start (sends [1, 2, 3, 4]) = some s ∧
      (∀ a ∈ sends [1, 2, 3, 4], Honest plainCodec a ∧ ∀ s, Alive s a) ∧ s.headers[0]? = some h ∧
      transit s 0 = 0 ∧ h.refCount.toNat ≠ handles s 0 + copies s 0 := by
  have hrun : (run (step anyRegion plainCodec fun _ => ⟨0, 8, 5⟩) start (sends [1, 2, 3, 4])).map
      (fun s => (s.headers, handles s 0, copies s 0, transit s 0)) = some ([⟨2, 16⟩], 1, 0, 0) := rfl
  obtain ⟨s, hs, hend⟩ := Option.map_eq_some_iff.mp hrun
  simp only [Prod.mk.injEq] at hend
  obtain ⟨hheaders, hhandles, hcopies, htransit⟩ := hend
  refine ⟨s, ⟨2, 16⟩, hs, ?_, by rw [hheaders]; rfl, htransit, by rw [hhandles, hcopies]; decide⟩
  simp only [sends, List.forall_mem_cons, Honest, Alive, true_and, implies_true, and_true]
  exact ⟨rfl, by simp⟩

end Ipmb.ExactCounts
