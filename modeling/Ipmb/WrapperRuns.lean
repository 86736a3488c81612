import Ipmb.WrapperValues

namespace Ipmb.WrapperRuns

open Run Labels Messages JoinLoop RegistrySizes Simulation Wrappers WrapperValues
open NodeReceiver (ofMillis)
open NodeWorker (RecvError)
open Function (update update_self update_of_ne)

variable {c : Crate} {m : Allocator} {α β : Type}

theorem outside_sim (f : c.World → α × c.World) :
    Sim Refines (Wrappers.outside (m := m) f) (WrapperValues.outside f) := by
  intro s t h
  have hw := h.world
  refine .some ⟨?_, ?_⟩
  · rw [hw]
  · rw [hw]
    exact h.outside _

theorem take_sim (k : Opaque) (x : Nat) :
    Sim (Refines (m := m) (c := c)) (OwnedPtr.release k x >>= fromRaw k) (take k x) := by
  intro s t h
  cases hx : s.ptr (k, x) with
  | none =>
    have hv := h.empty hx
    simp only [StateT.run, bind, StateT.bind, OwnedPtr.release, fromRaw, take, hx, hv, load_none,
      Option.bind]
    exact .none
  | some a =>
    obtain ⟨v, hv, -, hload⟩ := h.full hx
    simp only [StateT.run, bind, StateT.bind, OwnedPtr.release, fromRaw, take, hx, hv, hload, Option.bind]
    exact .some ⟨rfl, h.free hx⟩

theorem peek_sim (k : Opaque) (x : Nat) :
    Sim (Refines (m := m) (c := c)) (OwnedPtr.get k x >>= deref k) (peek k x) := by
  intro s t h
  cases hx : s.ptr (k, x) with
  | none =>
    have hv := h.empty hx
    simp only [StateT.run, bind, StateT.bind, OwnedPtr.get, deref, peek, hx, hv, load_none, Option.bind]
    exact .none
  | some a =>
    obtain ⟨v, hv, -, hload⟩ := h.full hx
    simp only [StateT.run, bind, StateT.bind, OwnedPtr.get, deref, peek, hx, hv, hload, Option.bind]
    exact .some ⟨rfl, h⟩

theorem call_sim (k : Opaque) (x : Nat) (f : c.Rust k → c.World → α × c.Rust k × c.World) :
    Sim (Refines (m := m)) (do let raw ← OwnedPtr.get k x; derefMut k raw f) (call k x f) := by
  intro s t h
  cases hx : s.ptr (k, x) with
  | none =>
    have hv := h.empty hx
    simp only [StateT.run, bind, StateT.bind, OwnedPtr.get, derefMut, call, hx, hv, load_none, Option.bind]
    exact .none
  | some a =>
    obtain ⟨v, hv, -, hload⟩ := h.full hx
    simp only [StateT.run, bind, StateT.bind, OwnedPtr.get, derefMut, call, hx, hv, hload, h.world,
      Option.bind]
    exact .some ⟨rfl, (h.write hx _).outside _⟩

theorem put_sim (k : Opaque) (x : Nat) (v : c.Rust k) :
    Sim (Refines (m := m)) (intoRaw k v >>= construct k x) (put k x (some v)) := by
  intro s t h
  cases hx : s.ptr (k, x) with
  | none =>
    have hv := h.empty hx
    simp only [StateT.run, bind, StateT.bind, intoRaw, construct, put, hx, hv, Option.bind]
    exact .some ⟨trivial, h.alloc hx (malloc_fresh s) _ v⟩
  | some a =>
    obtain ⟨v, hv, -, -⟩ := h.full hx
    simp only [StateT.run, bind, StateT.bind, intoRaw, construct, put, hx, hv, Option.bind]
    exact .none

theorem put_none_sim (k : Opaque) (x : Nat) :
    Sim (Refines (m := m) (c := c)) (construct k x none) (put k x none) := by
  intro s t h
  cases hx : s.ptr (k, x) with
  | none =>
    have hv := h.empty hx
    simp only [StateT.run, construct, put, hx, hv]
    exact .some ⟨trivial, h.vacant hx hv⟩
  | some a =>
    obtain ⟨v, hv, -, -⟩ := h.full hx
    simp only [StateT.run, construct, put, hx, hv]
    exact .none

theorem assign_sim (k : Opaque) (x : Nat) (v : c.Rust k) :
    Sim (Refines (m := m)) (intoRaw k v >>= OwnedPtr.reset k x) (assign k x (some v)) := by
  intro s t h
  cases hx : s.ptr (k, x) with
  | none =>
    have hv := h.empty hx
    simp only [StateT.run, bind, StateT.bind, intoRaw, OwnedPtr.reset, delete, assign, dropped, hx,
      hv, Option.bind]
    exact .some ⟨trivial, h.alloc hx (malloc_fresh s) _ v⟩
  | some a =>
    obtain ⟨old, hv, ha, hload⟩ := h.full hx
    have hfresh := malloc_fresh s
    have hne : a ≠ (m.malloc s.allocator s.boxes.keys).1 := by
      intro heq
      rw [← heq, ha] at hfresh
      cases hfresh
    simp only [StateT.run, bind, StateT.bind, intoRaw, OwnedPtr.reset, delete, dropRaw, fromRaw,
      Wrappers.outside, assign, dropped, hx, hv, load_insert hne, hload, h.world, Option.bind]
    exact .some ⟨trivial, (h.replace hx hfresh _ v).outside _⟩

theorem destroy_sim (k : Opaque) (x : Nat) :
    Sim (Refines (m := m) (c := c)) (OwnedPtr.reset k x none) (assign k x none) := by
  intro s t h
  cases hx : s.ptr (k, x) with
  | none =>
    have hv := h.empty hx
    simp only [StateT.run, OwnedPtr.reset, delete, assign, dropped, hx, hv]
    exact .some ⟨trivial, h.vacant hx hv⟩
  | some a =>
    obtain ⟨old, hv, ha, hload⟩ := h.full hx
    simp only [StateT.run, bind, StateT.bind, OwnedPtr.reset, delete, dropRaw, fromRaw, Wrappers.outside,
      assign, dropped, hx, hv, hload, h.world, Option.bind]
    exact .some ⟨trivial, (h.free hx).outside _⟩

theorem move_sim (k : Opaque) (x y : Nat) :
    Sim (Refines (m := m) (c := c)) (Cpp.move k x y) (move k x y) := by
  intro s t h
  by_cases hxy : x = y
  · subst hxy
    simp only [StateT.run, bind, StateT.bind, Cpp.move, OwnedPtr.release, OwnedPtr.reset, delete,
      move, assign, dropped, update_self, Function.update_idem, Function.update_eq_self,
      Option.bind]
    exact .some ⟨trivial, h⟩
  have hne : (k, x) ≠ (k, y) := fun heq => hxy (Prod.mk.inj heq).2
  cases hx : s.ptr (k, x) with
  | none =>
    have hv := h.empty hx
    simp only [StateT.run, bind, StateT.bind, Cpp.move, OwnedPtr.release, OwnedPtr.reset, delete,
      move, assign, dropped, update_of_ne hne, hx, hv, Option.bind]
    exact .some ⟨trivial, h.move hx y⟩
  | some a =>
    obtain ⟨old, hv, ha, hload⟩ := h.full hx
    simp only [StateT.run, bind, StateT.bind, Cpp.move, OwnedPtr.release, OwnedPtr.reset, delete,
      dropRaw, fromRaw, Wrappers.outside, move, assign, dropped, update_of_ne hne, hx, hv, hload,
      h.world, Option.bind]
    have hmove := (h.free hx).move (update_self ..) y
    simp only [update_of_ne hne.symm] at hmove
    rw [Function.update_comm hne, Function.update_comm hne, Function.update_idem,
      Function.update_idem] at hmove
    exact .some ⟨trivial, hmove.outside _⟩

section Order

variable (k k' : Opaque) (x : Nat) (raw raw' : Option Addr)

theorem fromRaw_release (f : Option Addr → c.Rust k' → Memory c m β) :
    (do let a ← OwnedPtr.release k x; let v ← fromRaw k' raw; f a v) =
      (do let v ← fromRaw k' raw; let a ← OwnedPtr.release k x; f a v) := by
  funext s
  simp only [bind, StateT.bind, OwnedPtr.release, fromRaw, Option.bind]
  cases load s.boxes k' raw <;> rfl

theorem fromRaw_get (f : Option Addr → c.Rust k' → Memory c m β) :
    (do let a ← OwnedPtr.get k x; let v ← fromRaw k' raw; f a v) =
      (do let v ← fromRaw k' raw; let a ← OwnedPtr.get k x; f a v) := by
  funext s
  simp only [bind, StateT.bind, OwnedPtr.get, fromRaw, Option.bind]
  cases load s.boxes k' raw <;> rfl

theorem intoRaw_construct (v : c.Rust k') (f : Option Addr → Memory c m β) :
    (do let a ← intoRaw k' v; construct k x raw; f a) =
      (do construct k x raw; let a ← intoRaw k' v; f a) := by
  funext s
  simp only [bind, StateT.bind, construct, intoRaw, Option.bind]
  cases s.ptr (k, x) <;> rfl

/-- The second of two boxes is there as before, unless it is the first one again. -/
theorem fromRaw_bind (f : c.Rust k → c.Rust k' → Memory c m β) (s : Mem c m) :
    (do let v ← fromRaw k raw; let w ← fromRaw k' raw'; f v w : Memory c m β) s =
      if raw = raw' then none
      else (load s.boxes k raw).bind fun y => (load s.boxes k' raw').bind fun z =>
        f y.2 z.2 { s with boxes := (s.boxes.erase y.1).erase z.1 } := by
  simp only [bind, StateT.bind, fromRaw, Option.pure_def, Option.bind_assoc, Option.bind_some]
  cases hy : load s.boxes k raw with
  | none => simp
  | some y =>
    simp only [Option.bind_some, load_erase_of_load hy k' raw']
    by_cases hraw : raw = raw'
    · simp [hraw]
    · simp only [if_neg hraw]

theorem fromRaw_fromRaw (f : c.Rust k → c.Rust k' → Memory c m β) :
    (do let v ← fromRaw k raw; let w ← fromRaw k' raw'; f v w) =
      (do let w ← fromRaw k' raw'; let v ← fromRaw k raw; f v w) := by
  funext s
  rw [fromRaw_bind, fromRaw_bind k' k raw' raw fun w v => f v w]
  by_cases hraw : raw = raw'
  · rw [if_pos hraw, if_pos hraw.symm]
  · rw [if_neg hraw, if_neg (Ne.symm hraw), Option.bind_comm]
    simp only [AList.erase_erase]

theorem release_get (y : Nat) (f : Option Addr → c.Rust k' → Memory c m β) :
    (do let a ← OwnedPtr.release k' y; let raw ← OwnedPtr.get k x; let v ← fromRaw k' a; f raw v) =
      (do let v ← OwnedPtr.release k' y >>= fromRaw k'; let raw ← OwnedPtr.get k x; f raw v) := by
  rw [bind_assoc]
  exact bind_congr fun a => fromRaw_get ..

/-- What is written to the box of a new wrapper could have been there from the beginning. -/
theorem intoRaw_derefMut (v : c.Rust k) (f : c.Rust k → c.Rust k) (g : Option Addr → Memory c m β) :
    (do
      let raw ← intoRaw k v
      construct k x raw
      let raw ← OwnedPtr.get k x
      derefMut k raw fun v w => ((), f v, w)
      g raw) =
      (do
        let raw ← intoRaw k (f v)
        construct k x raw
        let raw ← OwnedPtr.get k x
        g raw) := by
  funext s
  simp only [bind, StateT.bind, intoRaw, construct, OwnedPtr.get, derefMut, Option.bind]
  cases s.ptr (k, x) with
  | none => simp [load_insert_self]
  | some a => rfl

end Order

/-- The text of the version is copied before its box is dropped. -/
theorem version_sim : Sim (Refines (c := c) (m := m)) (Wrappers.exec .version) (denote .version) := by
  intro s t h
  have hfresh := malloc_fresh s
  have hpure {γ : Type} (y : γ) (s : Mem c m) : (pure y : Memory c m γ) s = some (y, s) := rfl
  have hpure' {γ : Type} (y : γ) (t : Values c) : (pure y : Value c γ) t = some (y, t) := rfl
  simp only [StateT.run, Wrappers.exec, Cpp.Version.new, Ffi.ipmbVersionPre, Ffi.ipmbRstringData,
    Ffi.ipmbRstringDrop, denote, Functor.map, StateT.map, bind, StateT.bind, intoRaw, deref,
    dropRaw, fromRaw, Wrappers.outside, WrapperValues.outside, load_insert_self, h.world,
    Option.bind, hpure, hpure', Option.pure_def]
  exact .some ⟨rfl, (h.temporary hfresh _ _).outside _⟩

theorem label_sim (x : Nat) (list : List (List UInt8)) (l : Label) :
    Sim (Refines (c := c) (m := m))
      (do
        let raw ← intoRaw .label l
        construct .label x raw
        let raw ← OwnedPtr.get .label x
        Cpp.Label.insertAll raw list)
      (put .label x (some (list.foldl (fun l i => l.insert (text c i)) l))) := by
  induction list generalizing l with
  | nil =>
    have h := put_sim (c := c) (m := m) .label x l
    have hget : (OwnedPtr.get .label x >>= fun _ => pure () : Memory c m Unit) = pure () := rfl
    simpa [Cpp.Label.insertAll, hget] using h
  | cons i list ih =>
    have hrest := ih (l.insert (text c i))
    rw [← intoRaw_derefMut .label x l fun l => l.insert (text c i)] at hrest
    exact hrest

theorem binary_sim (f : LabelOp → LabelOp → LabelOp) (x y : Nat) :
    Sim (Refines (c := c) (m := m))
      (do
        let right ← OwnedPtr.release .labelOp y
        let left ← OwnedPtr.release .labelOp x
        let raw ← do
          let left ← fromRaw .labelOp left
          let right ← fromRaw .labelOp right
          intoRaw .labelOp (f left right)
        OwnedPtr.reset .labelOp x raw)
      (do
        let right ← take .labelOp y
        let left ← take .labelOp x
        assign .labelOp x (some (f left right))) := by
  have hswap : (do
      let right ← OwnedPtr.release .labelOp y
      let left ← OwnedPtr.release .labelOp x
      let raw ← do
        let left ← fromRaw .labelOp left
        let right ← fromRaw .labelOp right
        intoRaw .labelOp (f left right)
      OwnedPtr.reset .labelOp x raw) = (do
      let right ← OwnedPtr.release .labelOp y >>= fromRaw .labelOp
      let left ← OwnedPtr.release .labelOp x >>= fromRaw .labelOp
      (intoRaw .labelOp (f left right) >>= OwnedPtr.reset .labelOp x : Memory c m Unit)) := by
    simp only [bind_assoc]
    refine bind_congr fun right => ?_
    rw [← fromRaw_release]
    exact bind_congr fun left => fromRaw_fromRaw ..
  rw [hswap]
  exact (take_sim .labelOp y).bind fun right =>
    (take_sim .labelOp x).bind fun left => assign_sim .labelOp x _

/-- A region that the crate returns goes into a wrapper of its own. -/
theorem region_sim (x : Nat) (v : Option c.MemoryRegion) :
    Sim (Refines (m := m)) (do
      let (r, raw) ← Ffi.outRegion v
      .error <$> Cpp.returned x r raw) (region x v) := by
  cases v with
  | none =>
    have h := (put_none_sim (c := c) (m := m) .memoryRegion x).bind fun _ =>
      Sim.pure (Result.error .unknown)
    have hcode : errorCodeUnknown ≠ errorCodeSuccess := by decide
    simpa [Ffi.outRegion, Cpp.returned, region, hcode] using h
  | some v =>
    have h := (put_sim (m := m) .memoryRegion x v).bind fun _ => Sim.pure (Result.error .success)
    rw [bind_assoc] at h
    simpa [Ffi.outRegion, Cpp.returned, region] using h

theorem retrieved_sim (x : Nat) (v : Option c.MemoryRegion) :
    Sim (Refines (m := m)) (do
      let raw ← Ffi.orNull v
      construct .memoryRegion x raw
      return Result.error (if raw.isSome then .success else .unknown)) (region x v) := by
  cases v with
  | none => exact (put_none_sim (c := c) (m := m) .memoryRegion x).bind fun _ => .pure _
  | some v =>
    have h := (put_sim (m := m) .memoryRegion x v).bind fun _ => Sim.pure (Result.error .success)
    rw [bind_assoc] at h
    exact h

theorem ofCode_joinCode (e : JoinError) : Cpp.Error.ofCode (Ffi.joinCode e) = failure e := by
  cases e <;> rfl

theorem ofCode_recvCode (e : RecvError) : Cpp.Error.ofCode (Ffi.recvCode e) = recvFailure e := by
  cases e <;> rfl

theorem ofCode_sendCode (r : Except JoinError Unit) : Cpp.Error.ofCode (Ffi.sendCode r) = sent r := by
  cases r with
  | ok => rfl
  | error e => exact ofCode_joinCode e

theorem received_sim (x : Nat) (r : Except RecvError (Message c.toTypes)) :
    Sim (Refines (m := m)) (do
      let (r, raw) ← Ffi.outMessage r
      let error := Cpp.Error.ofCode r
      construct .message x (if error = .success then raw else none)
      return Result.error error) (received x r) := by
  cases r with
  | ok message =>
    have h := (put_sim (m := m) .message x message).bind fun _ => Sim.pure (Result.error .success)
    rw [bind_assoc] at h
    exact h
  | error e =>
    have h := (put_none_sim (c := c) (m := m) .message x).bind fun _ =>
      Sim.pure (Result.error (recvFailure e))
    simpa [Ffi.outMessage, received, ofCode_recvCode] using h

theorem joined_sim (x y : Nat) (r : Except JoinError (c.EndpointSender × c.EndpointReceiver)) :
    Sim (Refines (m := m)) (do
      let (r, sRaw, rRaw) ← Ffi.outEndpoint r
      let error := Cpp.Error.ofCode r
      construct .sender x (if error = .success then sRaw else none)
      construct .receiver y (if error = .success then rRaw else none)
      return Result.error error) (joined x y (r.mapError failure)) := by
  cases r with
  | ok ends =>
    obtain ⟨sender, receiver⟩ := ends
    have h := (put_sim (m := m) .sender x sender).bind fun _ =>
      (put_sim .receiver y receiver).bind fun _ => Sim.pure (Result.error .success)
    simp only [bind_assoc] at h
    simp only [← intoRaw_construct] at h
    exact h
  | error e =>
    have h := (put_none_sim (c := c) (m := m) .sender x).bind fun _ =>
      (put_none_sim .receiver y).bind fun _ => Sim.pure (Result.error (failure e))
    simpa [Ffi.outEndpoint, joined, ofCode_joinCode, Except.mapError] using h

theorem mapped_eq (v : Option (UInt64 × UInt64)) :
    (if (Ffi.mapped v).1 ≠ 0 then ((Ffi.mapped v).1, (Ffi.mapped v).2, Cpp.Error.success)
      else (0, 0, .unknown)) = located v := by
  cases v <;> rfl

theorem objectGet_eq (index : Nat) : Ffi.objectGet (c := c) index = objectAt index := by
  funext message
  simp only [Ffi.objectGet, objectAt]
  cases message.objects[index]? <;> rfl

theorem objectRetrieve_eq (index : Nat) (message : Message c.toTypes) : Ffi.objectRetrieve index message =
    (objectAt index message, { message with objects := message.objects.eraseIdx index }) := by
  simp only [Ffi.objectRetrieve, objectAt]
  cases h : message.objects[index]? with
  | none => rw [List.eraseIdx_of_length_le (List.getElem?_eq_none_iff.mp h)]; rfl
  | some obj => rfl

theorem memoryRegionRetrieve_eq (index : Nat) (message : Message c.toTypes) :
    Ffi.memoryRegionRetrieve index message = (message.memoryRegions[index]?,
      { message with memoryRegions := message.memoryRegions.eraseIdx index }) := by
  simp only [Ffi.memoryRegionRetrieve]
  cases h : message.memoryRegions[index]? with
  | none => rw [List.eraseIdx_of_length_le (List.getElem?_eq_none_iff.mp h)]
  | some region => rfl

theorem text_eq (c : Crate) : (fun s => c.toStringLossy (cStr s)) = text c := rfl

theorem join_sim (options : Cpp.Options) (timeout : UInt32) (x y : Nat) :
    Sim (Refines (c := c) (m := m)) (Wrappers.exec (.join options timeout x y))
      (denote (.join options timeout x y)) := by
  have hunknown : Cpp.Error.ofCode errorCodeUnknown = .unknown := rfl
  have hget (p : Memory c m Result) : (OwnedPtr.get .label options.label >>= fun _ => p) = p := rfl
  have hnone := (put_none_sim (c := c) (m := m) .sender x).bind fun _ =>
    (put_none_sim .receiver y).bind fun _ => Sim.pure (Result.error .unknown)
  cases hi : c.toStr (cStr options.identifier) with
  | none =>
    simpa [Wrappers.exec, denote, Cpp.join, Cpp.Options.asFfi, Ffi.ipmbJoin, hi, hunknown, hget,
      joined] using hnone
  | some identifier =>
    cases ht : c.toStr (cStr options.token) with
    | none =>
      simpa [Wrappers.exec, denote, Cpp.join, Cpp.Options.asFfi, Ffi.ipmbJoin, hi, ht, hunknown,
        hget, joined] using hnone
    | some token =>
      have h := (peek_sim (c := c) (m := m) .label options.label).bind fun label =>
        (outside_sim (c.join ⟨identifier, label, token, options.controllerAffinity⟩ (Ffi.waits timeout))).bind
          fun r => joined_sim x y r
      simpa [Wrappers.exec, denote, Cpp.join, Cpp.Options.asFfi, Ffi.ipmbJoin, hi, ht] using h

theorem exec_sim (a : Call) : Sim (Refines (c := c) (m := m)) (Wrappers.exec a) (denote a) := by
  cases a with
  | version => exact version_sim
  | label x list => exact (label_sim x list .default).map _
  | append x s => exact (call_sim .label x _).map _
  | labelOpBool x v => exact (put_sim .labelOp x _).map _
  | labelOpLeaf x s => exact (put_sim .labelOp x _).map _
  | opNot x =>
    have h := (take_sim (c := c) (m := m) .labelOp x).bind fun left =>
      (assign_sim .labelOp x (.not left)).map Result.void
    simpa [Wrappers.exec, denote, Cpp.LabelOp.opNot, Ffi.ipmbLabelOpNot] using h
  | opAnd x y =>
    have h := (binary_sim (c := c) (m := m) .and x y).map Result.void
    simpa [Wrappers.exec, denote, Cpp.LabelOp.opAnd, Ffi.ipmbLabelOpAnd] using h
  | opOr x y =>
    have h := (binary_sim (c := c) (m := m) .or x y).map Result.void
    simpa [Wrappers.exec, denote, Cpp.LabelOp.opOr, Ffi.ipmbLabelOpOr] using h
  | create x size =>
    have h := (outside_sim (m := m) (c.newRegion size)).bind fun v => region_sim x v
    simpa [Wrappers.exec, denote, Cpp.MemoryRegion.create, Ffi.ipmbMemoryRegion] using h
  | clone x y =>
    have h := (peek_sim (c := c) (m := m) .memoryRegion x).bind fun v =>
      (outside_sim (c.clone v)).bind fun v => region_sim y v
    simpa [Wrappers.exec, denote, Cpp.MemoryRegion.clone, Ffi.ipmbMemoryRegionClone] using h
  | map x offset size =>
    have h := (call_sim (m := m) .memoryRegion x
      (c.map offset (if size < 0 then none else some (offset + size.toUInt64)))).bind fun v =>
      .pure (Result.mapped (located v))
    simpa only [Wrappers.exec, denote, Cpp.MemoryRegion.map, Ffi.ipmbMemoryRegionMap, mapped_eq,
      bind_assoc, pure_bind, map_bind, map_pure] using h
  | refCount x =>
    have h := (peek_sim (c := c) (m := m) .memoryRegion x).bind fun v =>
      (outside_sim (c.refCount v)).bind fun n => .pure (Result.refCount (n, .success))
    simpa [Wrappers.exec, denote, Cpp.MemoryRegion.refCount, Ffi.ipmbMemoryRegionRefCount] using h
  | memoryRegistry x => exact (put_sim .memoryRegistry x _).map _
  | alloc x minSize tag y =>
    have h := (call_sim (m := m) .memoryRegistry x (c.alloc minSize (tag.map (text c)))).bind fun v =>
      region_sim y v
    simpa [Wrappers.exec, denote, Cpp.MemoryRegistry.alloc, text_eq, Ffi.ipmbMemoryRegistryAlloc] using h
  | allocWithFree x minSize tag free y =>
    have h := (call_sim (m := m) .memoryRegistry x
      (c.allocWithFree minSize (tag.map (text c)) free)).bind fun v => region_sim y v
    simpa [Wrappers.exec, denote, Cpp.MemoryRegistry.allocWithFree, text_eq,
      Ffi.ipmbMemoryRegistryAllocWithFree] using h
  | maintain x =>
    have h := (call_sim (m := m) .memoryRegistry x c.maintain).bind fun _ => .pure (Result.error .success)
    simpa [Wrappers.exec, denote, Cpp.MemoryRegistry.maintain, Ffi.ipmbMemoryRegistryMaintain] using h
  | message x selector format data =>
    obtain ⟨labelOp, mode, ttl⟩ := selector
    have h := (peek_sim (c := c) (m := m) .labelOp labelOp).bind fun labelOp =>
      (put_sim .message x
        (.new { selectorOf labelOp mode with ttl := ofMillis ttl } ⟨format, data⟩)).map Result.void
    cases mode <;>
      simpa [Wrappers.exec, denote, Cpp.Message.new, Cpp.Selector.asFfi, Ffi.ipmbMessage, Ffi.Selector.into,
        selectorOf] using h
  | bytesData x =>
    have h := (peek_sim (c := c) (m := m) .message x).bind fun message => .pure
      (Result.data ((message.payload.format, message.payload.data,
        message.payload.data.length.toUInt32), .success))
    simpa [Wrappers.exec, denote, Cpp.Message.bytesData, Ffi.ipmbMessageBytesData] using h
  | objectAppend x obj => exact (call_sim .message x _).map _
  | objectRetrieve x index =>
    have h := (call_sim (c := c) (m := m) .message x fun message w => (objectAt index message,
      { message with objects := message.objects.eraseIdx index }, w)).bind fun obj =>
      .pure (Result.object (Cpp.objectOf obj))
    simpa [Wrappers.exec, denote, Cpp.Message.objectRetrieve, Ffi.ipmbMessageObjectRetrieve,
      objectRetrieve_eq] using h
  | objectGet x index =>
    have h := (peek_sim (c := c) (m := m) .message x).bind fun message => .pure
      (Result.object (Cpp.objectOf (objectAt index message)))
    simpa [Wrappers.exec, denote, Cpp.Message.objectGet, Ffi.ipmbMessageObjectGet, objectGet_eq] using h
  | memoryRegionAppend x y =>
    have h := (take_sim (c := c) (m := m) .memoryRegion y).bind fun region =>
      (call_sim .message x fun message w =>
        ((), { message with memoryRegions := message.memoryRegions ++ [region] }, w)).map Result.void
    simpa [Wrappers.exec, denote, Cpp.Message.memoryRegionAppend,
      Ffi.ipmbMessageMemoryRegionAppend, release_get] using h
  | memoryRegionRetrieve x index y =>
    have h := (call_sim (c := c) (m := m) .message x fun message w => (message.memoryRegions[index]?,
      { message with memoryRegions := message.memoryRegions.eraseIdx index }, w)).bind fun v =>
      retrieved_sim y v
    simpa [Wrappers.exec, denote, Cpp.Message.memoryRegionRetrieve, Ffi.ipmbMessageMemoryRegionRetrieve,
      memoryRegionRetrieve_eq] using h
  | send x y =>
    have h := (take_sim (m := m) .message y).bind fun message =>
      (call_sim .sender x (c.send message)).bind fun r => .pure (Result.error (sent r))
    simpa [Wrappers.exec, denote, Cpp.Sender.send, Ffi.ipmbSend, release_get, ofCode_sendCode] using h
  | recv x timeout y =>
    have h := (call_sim (m := m) .receiver x (c.recv (Ffi.waits timeout))).bind fun r => received_sim y r
    simpa [Wrappers.exec, denote, Cpp.Receiver.recv, Ffi.ipmbRecv] using h
  | join options timeout x y => exact join_sim options timeout x y
  | move k x y => exact (move_sim k x y).map _
  | destroy k x => exact (destroy_sim k x).map _

/-- A program that uses the wrappers fails exactly where it uses an empty one; else every box is
owned by one wrapper, and the results and the world are those of wrappers that hold their values
themselves. -/
theorem wrappers_refine (c : Crate) (m : Allocator) (allocator : m.State) (world : c.World)
    (calls : List Call) :
    Option.Rel (fun x y => Refines x.1 y.1 ∧ x.2 = y.2)
      (run (logged Wrappers.exec) (Wrappers.boot c m allocator world, []) calls)
      (run (logged denote) (WrapperValues.boot c world, []) calls) :=
  logged_rel exec_sim (refines_boot allocator world) calls

/-- A crate with a sender and a receiver at the ends of one queue; the world is the queue, and how
many values have been dropped. A region is its size. -/
abbrev queueCrate : Crate where
  World := List BytesMessage × Nat
  Object := UInt64
  MemoryRegion := UInt64
  MemoryRegistry := Unit
  EndpointSender := Unit
  EndpointReceiver := Unit
  version := (0, 8, 5)
  versionPre := "beta"
  toStr bytes := some (String.ofList (bytes.map fun b => Char.ofNat b.toNat))
  toStringLossy bytes := String.ofList (bytes.map fun b => Char.ofNat b.toNat)
  fromRaw := id
  asRaw := id
  drop _ _ w := (w.1, w.2 + 1)
  join _ _ w := (.ok ((), ()), w)
  send msg _ w := (.ok (), (), (w.1 ++ [msg.payload], w.2 + 1))
  recv _ _ w :=
    match w.1 with
    | payload :: rest => (.ok (.new (.unicast .true) payload), (), (rest, w.2))
    | [] => (.error .timeout, (), w)
  registry := ()
  alloc minSize _ _ w := (some minSize, (), w)
  allocWithFree minSize _ _ _ w := (some minSize, (), w)
  maintain _ w := ((), (), w)
  newRegion size w := (some size, w)
  map offset stop region w :=
    if stop.getD region ≤ region then (some (4096 + offset, stop.getD region - offset), region, w)
    else (none, region, w)
  refCount _ w := (1, w)
  clone region w := (some region, w)

/-- A message with a region goes through the queue, into a wrapper that is moved, and a region is
mapped in a wrapper that has held another one. -/
def roundTrip : List Call :=
  [.version, .label 0 [[97], [98]], .labelOpLeaf 0 [97], .labelOpBool 1 true, .opAnd 0 1,
    .join ⟨[98, 117, 115], 0, [116], false⟩ 0 0 0, .create 0 16, .clone 0 1, .map 1 4 8,
    .message 0 ⟨0, .unicast, 0⟩ 7 [1, 2, 3], .memoryRegionAppend 0 0, .send 0 0, .recv 0 100 1,
    .move .message 2 1, .bytesData 2, .destroy .memoryRegion 1, .create 1 32, .map 1 0 32,
    .recv 0 100 1, .destroy .label 0]

theorem wrappers_refine_roundTrip :
    ∃ s t,
      run (logged Wrappers.exec) (Wrappers.boot queueCrate behindAll () ([], 0), []) roundTrip = some s ∧
      run (logged denote) (WrapperValues.boot queueCrate ([], 0), []) roundTrip = some t ∧
      Refines s.1 t.1 ∧ s.2 = t.2 ∧ t.1.world = ([], 4) ∧
      t.2[14]? = some (.data ((7, [1, 2, 3], 3), .success)) ∧
      t.2[17]? = some (.mapped (4096, 32, .success)) ∧ t.2[18]? = some (.error .timeout) := by
  have hrun : (run (logged denote) (WrapperValues.boot queueCrate ([], 0), []) roundTrip).map
      (fun t => (t.1.world, t.2[14]?, t.2[17]?, t.2[18]?)) =
        some (([], 4), some (.data ((7, [1, 2, 3], 3), .success)), some (.mapped (4096, 32, .success)),
          some (.error .timeout)) := rfl
  obtain ⟨t, ht, hobs⟩ := Option.map_eq_some_iff.mp hrun
  simp only [Prod.mk.injEq] at hobs
  have href := wrappers_refine queueCrate behindAll () ([], 0) roundTrip
  rw [ht] at href
  cases hs : run (logged Wrappers.exec) (Wrappers.boot queueCrate behindAll () ([], 0), []) roundTrip with
  | none =>
    rw [hs] at href
    cases href
  | some s =>
    rw [hs] at href
    cases href with
    | some h => exact ⟨s, t, rfl, ht, h.1, h.2, hobs⟩

end Ipmb.WrapperRuns
