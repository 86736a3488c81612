import Ipmb.Regions

namespace Ipmb.Regions

open Messages Buffers Encoding Faults Decoding Attachments Counters

section Counting

variable {s s' : State}

@[simp] theorem counts_become (s : State) (j : Nat) (new : List (Nat × Item)) :
    (s.become j new).counts = s.counts := rfl

@[simp] theorem live_refCountInner (s : State) (f : File) (val : Int) :
    (s.refCountInner f val).live = s.live := rfl

theorem map_modify_refCount (headers : List Header) (f : File) (val : Int) :
    (headers.modify f (Header.refCountInner val)).map Header.refCount =
      (headers.map Header.refCount).modify f (· + BitVec.ofInt 32 val) := by
  apply List.ext_getElem?
  intro g
  simp only [List.getElem?_map, List.getElem?_modify, Option.map_eq_map, Option.map_map]
  congr 1
  funext h
  simp only [Function.comp_apply]
  split <;> rfl

theorem counts_add (s : State) (f : File) : (s.refCountInner f 1).counts = s.counts.modify f (· + 1) :=
  map_modify_refCount s.headers f 1

theorem counts_sub (s : State) (f : File) :
    (s.refCountInner f (-1)).counts = s.counts.modify f (· - 1) := by
  have hneg : BitVec.ofInt 32 (-1) = -1 := by decide
  simp only [State.counts, State.refCountInner, map_modify_refCount, hneg, ← BitVec.sub_eq_add_neg]

@[simp] theorem sizes_refCountInner (s : State) (f : File) (val : Int) :
    (s.refCountInner f val).sizes = s.sizes := by
  apply List.ext_getElem?
  intro g
  simp only [State.sizes, State.refCountInner, List.getElem?_map, List.getElem?_modify,
    Option.map_eq_map, Option.map_map]
  congr 1
  funext h
  simp only [Function.comp_apply]
  split <;> rfl

/-- What is lost stays lost, each count changes with what is counted, and the buffer sizes
stay as they are. -/
structure Changes (s s' : State) : Prop where
  effect : ∃ gone, s'.lost = gone ++ s.lost ∧ Effect s.counts s.live s'.counts (s'.live ++ gone)
  sizes : ∃ more, s'.sizes = s.sizes ++ more

theorem Changes.of_live (h : Effect s.counts s.live s'.counts s'.live) (hlost : s'.lost = s.lost)
    (hsizes : s'.sizes = s.sizes) : Changes s s' :=
  ⟨⟨[], hlost, by rwa [List.append_nil]⟩, [], by rw [hsizes, List.append_nil]⟩

theorem Changes.units (h : Changes s s') : Effect s.counts s.units s'.counts s'.units := by
  obtain ⟨gone, hlost, heffect⟩ := h.effect
  have hall := heffect.append s.lost
  rw [List.append_assoc, ← hlost] at hall
  exact hall

/-- What nobody has or can get, nobody gets. -/
theorem Changes.absent (h : Changes s s') {f : File} (hf : f < s.headers.length) (hnone : f ∉ s.live) :
    f < s'.headers.length ∧ f ∉ s'.live := by
  obtain ⟨gone, -, heffect⟩ := h.effect
  obtain ⟨hlt, hmem⟩ := heffect.absent (by rwa [State.counts, List.length_map]) hnone
  rw [State.counts, List.length_map] at hlt
  exact ⟨hlt, fun hlive => hmem (List.mem_append_left _ hlive)⟩

/-- What happens to one item happens to the whole. -/
theorem effect_become {j p : Nat} {i : Item} {new : List Item} {counts : List (BitVec 32)}
    (hj : s.items[j]? = some (p, i)) (h : Effect s.counts i.units counts (new.flatMap Item.units)) :
    Effect s.counts s.live counts (s.become j (new.map (p, ·))).live := by
  have hsame : (new.map (p, ·)).flatMap itemUnits = new.flatMap Item.units := List.flatMap_map ..
  have hnew := flatMap_splice_perm hj (new.map (p, ·)) itemUnits
  have hnone := flatMap_splice_perm hj [] itemUnits
  rw [hsame] at hnew
  refine (h.append ((splice s.items j []).flatMap itemUnits ++ s.flight.flatMap parcelUnits)).perm
    (List.perm_iff_count.mpr fun f => ?_) (List.perm_iff_count.mpr fun f => ?_)
  all_goals
    have hn := hnew.count_eq f
    have h₀ := hnone.count_eq f
    simp only [State.live, State.become, List.count_append, List.flatMap_nil, List.nil_append,
      itemUnits] at hn h₀ ⊢
    omega

end Counting

section Moves

variable (k : Kernel) (codec : Codec) (versions : Nat → Version)

/-- What becomes of an item when no count changes. -/
inductive Turns : Item → List Item → Prop
  | apart (regions : List File) : Turns (.draft regions) (regions.map .region)
  | unpacked (msg : EncodedMessage) (regions : List File) :
    Turns (.message msg regions) (regions.map .region)
  | sending (msg : EncodedMessage) (regions : List File) (socket : Nat) :
    Turns (.message msg regions) [.counting msg regions socket 0]
  | refused (msg : EncodedMessage) (regions : List File) (socket : Nat) :
    Turns (.counting msg regions socket regions.length) [.uncounting msg regions 0]
  | restored (msg : EncodedMessage) (regions : List File) :
    Turns (.uncounting msg regions regions.length) [.message msg regions]
  | opened (got : EncodedMessage) (done : List File) : Turns (.opening got [] none done) [.message got done]

/-- What becomes of an item when the region `f` is counted once more. -/
inductive Adds : Item → List Item → File → Prop
  | cloned (f : File) : Adds (.region f) [.region f, .region f] f
  | counted {regions : List File} {n : Nat} {f : File} (msg : EncodedMessage) (socket : Nat)
    (hn : regions[n]? = some f) :
    Adds (.counting msg regions socket n) [.counting msg regions socket (n + 1)] f
  | mapped (got : EncodedMessage) (f : File) (todo done : List File) :
    Adds (.opening got (f :: todo) none done) [.opening got todo (some f) done] f

/-- What becomes of an item when the region `f` is counted once less. -/
inductive Drops : Item → List Item → File → Prop
  | dropped (f : File) : Drops (.region f) [] f
  | uncounted {regions : List File} {n : Nat} {f : File} (msg : EncodedMessage)
    (hn : regions[n]? = some f) : Drops (.uncounting msg regions n) [.uncounting msg regions (n + 1)] f
  | handedOver (got : EncodedMessage) (f : File) (todo done : List File) :
    Drops (.opening got todo (some f) done) [.opening got todo none (done ++ [f])] f

theorem Turns.units {i : Item} {new : List Item} (h : Turns i new) :
    (new.flatMap Item.units).Perm i.units := by
  have hregions : ∀ regions : List File, (regions.map Item.region).flatMap Item.units = regions := by
    intro regions
    rw [List.flatMap_map]
    exact List.flatMap_singleton' regions
  cases h with
  | apart regions =>
    rw [hregions]
    exact .of_eq (List.append_nil _).symm
  | unpacked msg regions =>
    rw [hregions]
    exact .of_eq (List.append_nil _).symm
  | sending | refused | restored | opened => simp [Item.units, Item.handles, Item.transit]

theorem Adds.units {i : Item} {new : List Item} {f : File} (h : Adds i new f) :
    f ∈ i.units ∧ (new.flatMap Item.units).Perm (f :: i.units) := by
  cases h with
  | cloned f => exact ⟨List.mem_singleton_self f, .refl _⟩
  | counted msg socket hn =>
    refine ⟨List.mem_append_left _ (List.mem_of_getElem? hn), ?_⟩
    simp only [List.flatMap_cons, List.flatMap_nil, Item.units, Item.handles, Item.transit,
      List.append_nil, List.take_add_one, hn, Option.toList_some, ← List.append_assoc]
    exact List.perm_append_singleton f _
  | mapped got f todo done => simp [Item.units, Item.handles, Item.transit]

theorem Drops.units {i : Item} {new : List Item} {f : File} (h : Drops i new f) :
    i.units.Perm (f :: new.flatMap Item.units) := by
  cases h with
  | dropped f => exact .refl _
  | uncounted msg hn =>
    obtain ⟨hlt, rfl⟩ := List.getElem?_eq_some_iff.mp hn
    simp only [List.flatMap_cons, List.flatMap_nil, Item.units, Item.handles, Item.transit,
      List.append_nil, List.drop_eq_getElem_cons hlt]
    exact List.perm_middle
  | handedOver got f todo done => simp [Item.units, Item.handles, Item.transit]

/-- What a step does. -/
inductive Moved (s : State) : Action → State → Prop
  | made (p : Nat) {size : Nat} (hsize : headerLength + size < 2 ^ 64) : Moved s (.new p size)
    { s with headers := s.headers ++ [⟨1, size⟩], items := (p, .region s.headers.length) :: s.items }
  | written (p : Nat) : Moved s (.write p) { s with items := (p, .draft []) :: s.items }
  | attached {i j p : Nat} {f : File} {regions : List File} (hi : s.items[i]? = some (p, .region f))
    (hj : (splice s.items i [])[j]? = some (p, .draft regions)) :
    Moved s (.attach j i) ((s.become i []).become j [(p, .draft (regions ++ [f]))])
  | encoded {j p : Nat} {regions : List File} {msg : Message} (heap : Heap)
    (hj : s.items[j]? = some (p, .draft regions)) (hlen : msg.memoryRegions.length = regions.length) :
    Moved s (.encode j msg heap)
      (s.become j [(p, .message (intoEncoded codec (versions p) (counted msg) heap) regions)])
  | turned {a : Action} {j p : Nat} {i : Item} {new : List Item} (hj : s.items[j]? = some (p, i))
    (h : Turns i new) : Moved s a (s.become j (new.map (p, ·)))
  | added {a : Action} {j p : Nat} {i : Item} {new : List Item} {f : File}
    (hj : s.items[j]? = some (p, i)) (h : Adds i new f) :
    Moved s a ((s.become j (new.map (p, ·))).refCountInner f 1)
  | dropped {a : Action} {j p : Nat} {i : Item} {new : List Item} {f : File}
    (hj : s.items[j]? = some (p, i)) (h : Drops i new f) :
    Moved s a ((s.become j (new.map (p, ·))).refCountInner f (-1))
  | delivered {j p socket : Nat} {msg : EncodedMessage} {regions : List File} {d : Datagram}
    (f : RawFd → RawFd) (hj : s.items[j]? = some (p, .counting msg regions socket regions.length))
    (hfew : msg.objects.length + regions.length ≤ scmMaxFd) (hd : transmit k f msg = some d) :
    Moved s (.sendmsg j f)
      { s.become j [(p, .message msg regions)] with flight := s.flight ++ [(socket, ⟨d, regions⟩)] }
  | received {j p socket : Nat} {parcel : Parcel} {heap : Heap} {r : Except (Error RawFd) EncodedMessage}
    {s' : State} (hj : s.flight[j]? = some (socket, parcel))
    (hr : outcome (fromLocal k codec (versions p) heap (some parcel.datagram)) = some r)
    (h : s.receive p j parcel r = some s') : Moved s (.fromLocal p j heap) s'
  | closed (socket : Nat) : Moved s (.close socket) { s with
      flight := s.flight.filter fun x => !(x.1 == socket)
      lost := (s.flight.filter fun x => x.1 == socket).flatMap parcelUnits ++ s.lost }
  | died (p : Nat) : Moved s (.die p) { s with
      items := s.items.filter fun x => !(x.1 == p)
      lost := (s.items.filter fun x => x.1 == p).flatMap itemUnits ++ s.lost }

variable {k codec versions} {s s' : State}

theorem receive_changes {p j socket : Nat} {parcel : Parcel} {r : Except (Error RawFd) EncodedMessage}
    (hj : s.flight[j]? = some (socket, parcel)) (h : s.receive p j parcel r = some s') :
    Changes s s' := by
  have hflight := fun g => (flatMap_splice_perm hj [] parcelUnits).count_eq g
  simp only [List.flatMap_nil, List.nil_append, List.count_append, parcelUnits] at hflight
  unfold State.receive at h
  split at h
  · rename_i got
    simp only at h
    split at h
    · cases h
      refine ⟨⟨_, rfl, .keep (List.perm_iff_count.mpr fun g => ?_)⟩, [], (List.append_nil _).symm⟩
      have hg := hflight g
      have hsplit := congrArg (List.count g)
        (List.take_append_drop (parcel.regions.length - got.memoryRegions.length) parcel.regions)
      simp only [State.live, List.count_append, List.flatMap_cons, itemUnits, Item.units, Item.handles,
        Item.transit, Option.toList_none, List.append_nil, List.nil_append] at hg hsplit ⊢
      omega
    · cases h
  · cases h
    refine ⟨⟨_, rfl, .keep (List.perm_iff_count.mpr fun g => ?_)⟩, [], (List.append_nil _).symm⟩
    have hg := hflight g
    simp only [State.live, List.count_append] at hg ⊢
    omega

theorem Moved.changes {a : Action} (h : Moved k codec versions s a s') : Changes s s' := by
  cases h with
  | @made p size hsize =>
    refine ⟨⟨[], rfl, ?_⟩, [size], by simp [State.sizes]⟩
    have hcounts : (s.headers ++ [(⟨1, size⟩ : Header)]).map Header.refCount = s.counts ++ [1] := by
      simp [State.counts]
    simp only [State.counts] at hcounts ⊢
    rw [hcounts]
    exact .make (by simp [State.live, itemUnits, Item.units, Item.handles, Item.transit])
  | written p => exact .of_live (.keep (.refl _)) rfl rfl
  | @attached i j p f regions hi hj =>
    refine .of_live (.keep (List.perm_iff_count.mpr fun g => ?_)) rfl rfl
    have hout := (flatMap_splice_perm hi [] itemUnits).count_eq g
    have hin := (flatMap_splice_perm hj [(p, .draft (regions ++ [f]))] itemUnits).count_eq g
    simp only [State.live, State.become, List.count_append, List.flatMap_cons, List.flatMap_nil,
      itemUnits, Item.units, Item.handles, Item.transit, List.count_nil] at hout hin ⊢
    omega
  | @encoded j p regions msg heap hj hlen =>
    have hsame : Effect s.counts (Item.draft regions).units s.counts
        ([Item.message (intoEncoded codec (versions p) (counted msg) heap) regions].flatMap Item.units) :=
      .keep (.of_eq (List.append_nil _))
    exact .of_live (effect_become hj hsame) rfl rfl
  | turned hj hi => exact .of_live (effect_become hj (.keep hi.units)) rfl rfl
  | added hj hi =>
    obtain ⟨hf, hunits⟩ := hi.units
    refine .of_live ?_ rfl (sizes_refCountInner _ _ _)
    rw [counts_add, live_refCountInner, counts_become]
    exact effect_become hj (.take hf hunits)
  | dropped hj hi =>
    refine .of_live ?_ rfl (sizes_refCountInner _ _ _)
    rw [counts_sub, live_refCountInner, counts_become]
    exact effect_become hj (.give hi.units)
  | @delivered j p socket msg regions d f hj hfew hd =>
    refine .of_live (.keep (List.perm_iff_count.mpr fun g => ?_)) rfl rfl
    have hcount := (flatMap_splice_perm hj [(p, .message msg regions)] itemUnits).count_eq g
    simp only [State.live, State.become, List.count_append, List.flatMap_append, List.flatMap_cons,
      List.flatMap_nil, List.append_nil, itemUnits, parcelUnits, Item.units, Item.handles, Item.transit,
      List.take_length] at hcount ⊢
    omega
  | received hj hr hreceive => exact receive_changes hj hreceive
  | closed socket =>
    refine ⟨⟨_, rfl, .keep (List.perm_iff_count.mpr fun g => ?_)⟩, [], (List.append_nil _).symm⟩
    have hsplit := (flatMap_filter_perm s.flight (fun x => x.1 == socket) parcelUnits).count_eq g
    simp only [State.live, List.count_append] at hsplit ⊢
    omega
  | died p =>
    refine ⟨⟨_, rfl, .keep (List.perm_iff_count.mpr fun g => ?_)⟩, [], (List.append_nil _).symm⟩
    have hsplit := (flatMap_filter_perm s.items (fun x => x.1 == p) itemUnits).count_eq g
    simp only [State.live, List.count_append] at hsplit ⊢
    omega

section Outcomes

theorem attach_moved {j i : Nat} (h : step k codec versions s (.attach j i) = some s') :
    Moved k codec versions s (.attach j i) s' := by
  simp only [step] at h
  split at h
  · rename_i p f hi
    split at h
    · rename_i q regions hj
      split at h
      · rename_i hpq
        cases h
        subst hpq
        exact .attached hi hj
      · cases h
    · cases h
  · cases h

theorem unpack_moved {j : Nat} (h : step k codec versions s (.unpack j) = some s') :
    Moved k codec versions s (.unpack j) s' := by
  simp only [step] at h
  split at h
  · rename_i p regions hj
    cases h
    have hmoved : Moved k codec versions s (.unpack j) _ := .turned hj (.apart regions)
    rwa [List.map_map] at hmoved
  · rename_i p msg regions hj
    cases h
    have hmoved : Moved k codec versions s (.unpack j) _ := .turned hj (.unpacked msg regions)
    rwa [List.map_map] at hmoved
  · cases h

theorem encode_moved {j : Nat} {msg : Message} {heap : Heap}
    (h : step k codec versions s (.encode j msg heap) = some s') :
    Moved k codec versions s (.encode j msg heap) s' := by
  simp only [step] at h
  split at h
  · rename_i p regions hj
    split at h
    · rename_i hlen
      cases h
      exact .encoded heap hj hlen
    · cases h
  · cases h

theorem count_moved {j : Nat} (h : step k codec versions s (.count j) = some s') :
    Moved k codec versions s (.count j) s' := by
  simp only [step] at h
  split at h
  · rename_i p msg regions socket n hj
    obtain ⟨f, hf, rfl⟩ := Option.map_eq_some_iff.mp h
    exact .added hj (.counted msg socket hf)
  · cases h

/-- A message leaves once all of its regions have been counted. -/
theorem sendmsg_moved {j : Nat} {f : RawFd → RawFd} (h : step k codec versions s (.sendmsg j f) = some s') :
    Moved k codec versions s (.sendmsg j f) s' := by
  simp only [step] at h
  split at h
  · rename_i p msg regions socket n hj
    split at h
    · rename_i hn
      subst hn
      simp only [State.deliver] at h
      split at h
      · rename_i hfew
        obtain ⟨d, hd, rfl⟩ := Option.map_eq_some_iff.mp h
        exact .delivered f hj hfew hd
      · cases h
    · cases h
  · cases h

theorem refuse_moved {j : Nat} (h : step k codec versions s (.refuse j) = some s') :
    Moved k codec versions s (.refuse j) s' := by
  simp only [step] at h
  split at h
  · rename_i p msg regions socket n hj
    split at h
    · rename_i hn
      cases h
      subst hn
      exact .turned hj (.refused msg regions socket)
    · cases h
  · cases h

theorem uncount_moved {j : Nat} (h : step k codec versions s (.uncount j) = some s') :
    Moved k codec versions s (.uncount j) s' := by
  simp only [step] at h
  split at h
  · rename_i p msg regions n hj
    obtain ⟨f, hf, rfl⟩ := Option.map_eq_some_iff.mp h
    exact .dropped hj (.uncounted msg hf)
  · cases h

theorem fromLocal_moved {p j : Nat} {heap : Heap}
    (h : step k codec versions s (.fromLocal p j heap) = some s') :
    Moved k codec versions s (.fromLocal p j heap) s' := by
  simp only [step] at h
  split at h
  · rename_i socket parcel hj
    split at h
    · obtain ⟨r, hr, hreceive⟩ := Option.bind_eq_some_iff.mp h
      exact .received hj hr hreceive
    · cases h
  · cases h

/-- A failed send is over when nothing is left to uncount, a reception when every region has been
handed over. -/
theorem finish_moved {j : Nat} (h : step k codec versions s (.finish j) = some s') :
    Moved k codec versions s (.finish j) s' := by
  simp only [step] at h
  split at h
  · rename_i p msg regions n hj
    split at h
    · rename_i hn
      cases h
      subst hn
      exact .turned hj (.restored msg regions)
    · cases h
  · rename_i p got done hj
    cases h
    exact .turned hj (.opened got done)
  · cases h

end Outcomes

theorem step_moved {a : Action} (h : step k codec versions s a = some s') :
    Moved k codec versions s a s' := by
  cases a with
  | new p size =>
    simp only [step] at h
    split at h
    · rename_i hsize
      cases h
      exact .made p hsize
    · cases h
  | clone j =>
    simp only [step] at h
    split at h
    · rename_i p f hj
      cases h
      exact .added hj (.cloned f)
    · cases h
  | drop j =>
    simp only [step] at h
    split at h
    · rename_i p f hj
      cases h
      exact .dropped hj (.dropped f)
    · cases h
  | write p =>
    simp only [step] at h
    cases h
    exact .written p
  | attach j i => exact attach_moved h
  | unpack j => exact unpack_moved h
  | encode j msg heap => exact encode_moved h
  | send j socket =>
    simp only [step] at h
    split at h
    · rename_i p msg regions hj
      cases h
      exact .turned hj (.sending msg regions socket)
    · cases h
  | count j => exact count_moved h
  | sendmsg j f => exact sendmsg_moved h
  | refuse j => exact refuse_moved h
  | uncount j => exact uncount_moved h
  | fromLocal p j heap => exact fromLocal_moved h
  | fromObject j =>
    simp only [step] at h
    split at h
    · rename_i p got f todo done hj
      cases h
      exact .added hj (.mapped got f todo done)
    · cases h
  | handOver j =>
    simp only [step] at h
    split at h
    · rename_i p got todo f done hj
      cases h
      exact .dropped hj (.handedOver got f todo done)
    · cases h
  | finish j => exact finish_moved h
  | close socket =>
    simp only [step] at h
    cases h
    exact .closed socket
  | die p =>
    simp only [step] at h
    cases h
    exact .died p

end Moves

end Ipmb.Regions
