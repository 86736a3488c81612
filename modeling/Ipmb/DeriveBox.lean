import Ipmb.Messages
import Mathlib.Data.List.Nodup

namespace Ipmb.DeriveBox

open Messages

variable {Ty R : Type}

/-- The fields of a variant, with their types. -/
inductive Fields (Ty : Type) where
  | named (named : List (String × Ty))
  | unnamed (unnamed : List Ty)
  | unit

structure Variant (Ty : Type) where
  ident : String
  fields : Fields Ty

/-- What `derive` may stand on. No two variants of an enum have the same name. -/
inductive Data (Ty : Type) where
  | struct (fields : Fields Ty)
  | enum (variants : List (Variant Ty)) (distinct : (variants.map Variant.ident).Nodup)
  | union (named : List (String × Ty))

structure DeriveInput (Ty : Type) where
  ident : String
  data : Data Ty

/-- The generated implementation: the arms of its three functions. -/
structure Impl (Ty : Type) where
  cratePath : String
  ident : String
  decodeArms : List (Ty × String)
  encodeArms : List String
  uuidArms : List (String × Ty)

def Variant.ty (variant : Variant Ty) : Except String Ty :=
  match variant.fields with
  | .unnamed [ty] => .ok ty
  | .unnamed _ => .error "#[derive(MessageBox)] is only support unnamed single field."
  | _ => .error "#[derive(MessageBox)] is only support unnamed single field."

/-- The derive macro; an error is the text of a panic. -/
def deriveMessageBox (crateName : String) (input : DeriveInput Ty) : Except String (Impl Ty) :=
  let cratePath := if crateName = "ipmb" then "crate" else "::ipmb"
  match input.data with
  | .enum variants _ =>
    let variantsIdent := variants.map Variant.ident
    (variants.mapM Variant.ty).map fun variantsTy =>
      ⟨cratePath, input.ident, variantsTy.zip variantsIdent, variantsIdent, variantsIdent.zip variantsTy⟩
  | _ => .error "#[derive(MessageBox)] is only defined for enums."

/-- A type with a uuid, and what `encode` and `decode` of the crate do at it. -/
structure Payload (R : Type) where
  Carrier : Type
  uuid : Uuid
  encode : Carrier → Except (Error R) (List UInt8)
  decode : List UInt8 → Except (Error R) Carrier

/-- What is encoded is decoded again. -/
def Payload.Inverts (p : Payload R) : Prop := ∀ t, (p.encode t).bind p.decode = .ok t

/-- A variant with its payload. -/
structure Boxed (den : Ty → Payload R) where
  ident : String
  ty : Ty
  payload : (den ty).Carrier

section Generated

variable (den : Ty → Payload R) (impl : Impl Ty)

/-- The first arm with the uuid is taken. -/
def Impl.decode (uuid : Uuid) (data : List UInt8) : Except (Error R) (Boxed den) :=
  match impl.decodeArms.find? (fun arm => uuid = (den arm.1).uuid) with
  | some arm => ((den arm.1).decode data).map fun variant => ⟨arm.2, arm.1, variant⟩
  | none => .error .typeUuidNotFound

/-- There is no result where no arm matches. -/
def Impl.encode (m : Boxed den) : Option (Except (Error R) (List UInt8)) :=
  (impl.encodeArms.find? (· = m.ident)).map fun _ => (den m.ty).encode m.payload

def Impl.uuid (m : Boxed den) : Option Uuid :=
  (impl.uuidArms.find? (·.1 = m.ident)).map fun arm => (den arm.2).uuid

end Generated

/-- The variants of an enum that have a single unnamed field. -/
def DeriveInput.payloads (input : DeriveInput Ty) : List (String × Ty) :=
  match input.data with
  | .enum variants _ => variants.filterMap fun variant =>
    match variant.fields with
    | .unnamed [ty] => some (variant.ident, ty)
    | _ => none
  | _ => []

/-- The value is one of the enum. -/
def DeriveInput.Has {den : Ty → Payload R} (input : DeriveInput Ty) (m : Boxed den) : Prop :=
  (m.ident, m.ty) ∈ input.payloads

/-- What the implementation is for. -/
structure Faithful (den : Ty → Payload R) (input : DeriveInput Ty) (impl : Impl Ty) : Prop where
  roundTrip : ∀ m, input.Has m → ∃ uuid encoded, impl.uuid den m = some uuid ∧
    impl.encode den m = some encoded ∧ encoded.bind (impl.decode den uuid) = .ok m
  unknown : ∀ uuid, (∀ x ∈ input.payloads, uuid ≠ (den x.2).uuid) →
    ∀ data, impl.decode den uuid data = .error .typeUuidNotFound

/-- A variant declared after one with the same uuid has no values. -/
def Unshadowed (den : Ty → Payload R) (payloads : List (String × Ty)) : Prop :=
  ∀ before x after, payloads = before ++ x :: after →
    ∀ a ∈ before, (den a.2).uuid = (den x.2).uuid → IsEmpty (den x.2).Carrier

/-- A variant that the macro supports. -/
def Variant.single (x : String × Ty) : Variant Ty := ⟨x.1, .unnamed [x.2]⟩

theorem Variant.ty_eq_ok {variant : Variant Ty} {ty : Ty} (h : variant.ty = .ok ty) :
    variant = .single (variant.ident, ty) := by
  obtain ⟨ident, fields⟩ := variant
  rw [Variant.ty] at h
  split at h
  · rename_i hfields
    cases h
    cases hfields
    rfl
  · cases h
  · cases h

theorem mapM_ty {variants : List (Variant Ty)} {tys : List Ty} (h : variants.mapM Variant.ty = .ok tys) :
    ∃ payloads : List (String × Ty), variants = payloads.map .single ∧ tys = payloads.map Prod.snd := by
  induction variants generalizing tys with
  | nil =>
    cases h
    exact ⟨[], rfl, rfl⟩
  | cons variant variants ih =>
    rw [List.mapM_cons] at h
    cases hty : variant.ty with
    | error e =>
      rw [hty] at h
      cases h
    | ok ty =>
      cases htys : variants.mapM Variant.ty with
      | error e =>
        rw [hty, htys] at h
        cases h
      | ok rest =>
        rw [hty, htys] at h
        cases h
        obtain ⟨payloads, hvariants, hrest⟩ := ih htys
        refine ⟨(variant.ident, ty) :: payloads, ?_, ?_⟩
        · rw [List.map_cons, ← hvariants, ← Variant.ty_eq_ok hty]
        · rw [List.map_cons, ← hrest]

/-- Each of the functions has an arm for each variant, in the order in which they are declared. -/
structure Generates (input : DeriveInput Ty) (impl : Impl Ty) : Prop where
  distinct : (input.payloads.map Prod.fst).Nodup
  decodeArms : impl.decodeArms = input.payloads.map Prod.swap
  encodeArms : impl.encodeArms = input.payloads.map Prod.fst
  uuidArms : impl.uuidArms = input.payloads

theorem generates_of_ok {crateName : String} {input : DeriveInput Ty} {impl : Impl Ty}
    (h : deriveMessageBox crateName input = .ok impl) : Generates input impl := by
  obtain ⟨name, data⟩ := input
  cases data with
  | struct fields => cases h
  | union named => cases h
  | enum variants distinct =>
    rw [deriveMessageBox] at h
    cases htys : variants.mapM Variant.ty with
    | error e =>
      simp only [htys] at h
      cases h
    | ok tys =>
      simp only [htys] at h
      cases h
      obtain ⟨payloads, rfl, rfl⟩ := mapM_ty htys
      have hpayloads : DeriveInput.payloads ⟨name, .enum (payloads.map Variant.single) distinct⟩ =
          payloads := by
        simp [DeriveInput.payloads, List.filterMap_map, Function.comp_def, Variant.single]
      have hidents : (payloads.map Variant.single).map Variant.ident = payloads.map Prod.fst := by
        rw [List.map_map]
        rfl
      constructor
      · rwa [hpayloads, ← hidents]
      · rw [hpayloads]
        show (payloads.map Prod.snd).zip ((payloads.map Variant.single).map Variant.ident) = _
        rw [hidents, List.zip_map']
        rfl
      · rw [hpayloads]
        exact hidents
      · rw [hpayloads]
        show ((payloads.map Variant.single).map Variant.ident).zip (payloads.map Prod.snd) = _
        rw [hidents, List.zip_map']
        exact List.map_id payloads

section Arms

variable {den : Ty → Payload R} {input : DeriveInput Ty} {impl : Impl Ty}

/-- The first variant with the uuid. -/
def DeriveInput.first (den : Ty → Payload R) (input : DeriveInput Ty) (uuid : Uuid) :
    Option (String × Ty) := input.payloads.find? (fun x => uuid = (den x.2).uuid)

theorem Generates.decode_eq (h : Generates input impl) (uuid : Uuid) (data : List UInt8) :
    impl.decode den uuid data =
      match input.first den uuid with
      | some x => ((den x.2).decode data).map fun variant => ⟨x.1, x.2, variant⟩
      | none => .error .typeUuidNotFound := by
  rw [Impl.decode, h.decodeArms, List.find?_map, DeriveInput.first]
  simp only [Function.comp_def, Prod.fst_swap]
  cases input.payloads.find? _ with
  | none => rfl
  | some x => rfl

/-- A name stands for one variant. -/
theorem Generates.inj (h : Generates input impl) {x y : String × Ty} (hx : x ∈ input.payloads)
    (hy : y ∈ input.payloads) (heq : x.1 = y.1) : x = y :=
  List.inj_on_of_nodup_map h.distinct hx hy heq

theorem Generates.uuid_eq (h : Generates input impl) {m : Boxed den} (hm : input.Has m) :
    impl.uuid den m = some (den m.ty).uuid := by
  rw [Impl.uuid, h.uuidArms]
  cases hfind : input.payloads.find? (·.1 = m.ident) with
  | none =>
    have hnot := List.find?_eq_none.mp hfind (m.ident, m.ty) hm
    simp at hnot
  | some x =>
    have hident : x.1 = m.ident := by simpa using List.find?_some hfind
    rw [h.inj (List.mem_of_find?_eq_some hfind) hm hident]
    rfl

theorem Generates.encode_eq (h : Generates input impl) {m : Boxed den} (hm : input.Has m) :
    impl.encode den m = some ((den m.ty).encode m.payload) := by
  rw [Impl.encode, h.encodeArms]
  cases hfind : (input.payloads.map Prod.fst).find? (· = m.ident) with
  | none =>
    have hident : m.ident ∈ input.payloads.map Prod.fst := List.mem_map_of_mem hm
    have hnot := List.find?_eq_none.mp hfind m.ident hident
    simp at hnot
  | some ident => rfl

theorem first_eq_some_iff {uuid : Uuid} {x : String × Ty} :
    input.first den uuid = some x ↔ uuid = (den x.2).uuid ∧ ∃ before after,
      input.payloads = before ++ x :: after ∧ ∀ a ∈ before, uuid ≠ (den a.2).uuid := by
  rw [DeriveInput.first, List.find?_eq_some_iff_append]
  simp only [decide_eq_true_eq, Bool.not_eq_true', decide_eq_false_iff_not]

theorem first_eq_none_iff {uuid : Uuid} :
    input.first den uuid = none ↔ ∀ x ∈ input.payloads, uuid ≠ (den x.2).uuid := by
  rw [DeriveInput.first, List.find?_eq_none]
  simp only [decide_eq_true_eq]

theorem Generates.unknown (h : Generates input impl) {uuid : Uuid}
    (hunknown : ∀ x ∈ input.payloads, uuid ≠ (den x.2).uuid) (data : List UInt8) :
    impl.decode den uuid data = .error .typeUuidNotFound := by
  rw [h.decode_eq, first_eq_none_iff.mpr hunknown]

/-- The value comes back as soon as its variant is the first one with its uuid. -/
theorem Generates.decode_encode (h : Generates input impl) {m : Boxed den}
    (hinverts : (den m.ty).Inverts) (hfirst : input.first den (den m.ty).uuid = some (m.ident, m.ty)) :
    ((den m.ty).encode m.payload).bind (impl.decode den (den m.ty).uuid) = .ok m := by
  have hdecode : impl.decode den (den m.ty).uuid = fun data =>
      ((den m.ty).decode data).map fun variant => ⟨m.ident, m.ty, variant⟩ := by
    funext data
    rw [h.decode_eq, hfirst]
  have ht := hinverts m.payload
  rw [hdecode]
  cases hencode : (den m.ty).encode m.payload with
  | error e =>
    rw [hencode] at ht
    cases ht
  | ok data =>
    rw [hencode] at ht
    have hpayload : (den m.ty).decode data = .ok m.payload := ht
    simp only [Except.bind, hpayload]
    rfl

/-- What is decoded is a value of the first variant with the uuid. -/
theorem Generates.first_of_decode (h : Generates input impl) {uuid : Uuid} {data : List UInt8}
    {m : Boxed den} (hm : impl.decode den uuid data = .ok m) :
    input.first den uuid = some (m.ident, m.ty) := by
  rw [h.decode_eq] at hm
  cases hfirst : input.first den uuid with
  | none =>
    rw [hfirst] at hm
    cases hm
  | some x =>
    rw [hfirst] at hm
    simp only at hm
    cases hdecode : (den x.2).decode data with
    | error e =>
      rw [hdecode] at hm
      cases hm
    | ok variant =>
      rw [hdecode] at hm
      cases hm
      rfl

/-- A uuid that an earlier variant has does not lead to a later one. -/
theorem first_mem {before after : List (String × Ty)} {x a y : String × Ty}
    (hpayloads : input.payloads = before ++ x :: after) (ha : a ∈ before)
    (huuid : (den a.2).uuid = (den x.2).uuid) (hfirst : input.first den (den x.2).uuid = some y) :
    y ∈ before := by
  rw [DeriveInput.first, hpayloads, List.find?_append] at hfirst
  cases hbefore : before.find? (fun b => (den x.2).uuid = (den b.2).uuid) with
  | none =>
    have hnot := List.find?_eq_none.mp hbefore a ha
    simp [huuid] at hnot
  | some z =>
    rw [hbefore] at hfirst
    cases hfirst
    exact List.mem_of_find?_eq_some hbefore

end Arms

/-- Variants with different uuids are not in each other's way. -/
theorem unshadowed_of_nodup {den : Ty → Payload R} {payloads : List (String × Ty)}
    (h : (payloads.map fun x => (den x.2).uuid).Nodup) : Unshadowed den payloads := by
  rintro before x after rfl a ha huuid
  rw [List.map_append, List.map_cons, List.nodup_middle] at h
  have hmem : (den x.2).uuid ∈ before.map fun y => (den y.2).uuid := by
    rw [← huuid]
    exact List.mem_map_of_mem ha
  exact absurd (List.mem_append_left _ hmem) (List.nodup_cons.mp h).1

/-- The generated implementation does what it is for if and only if no variant that has values
is declared after another one with the same uuid. -/
theorem faithful_iff {den : Ty → Payload R} {crateName : String} {input : DeriveInput Ty} {impl : Impl Ty}
    (hderive : deriveMessageBox crateName input = .ok impl)
    (hinverts : ∀ x ∈ input.payloads, (den x.2).Inverts) :
    Faithful den input impl ↔ Unshadowed den input.payloads := by
  have hgen := generates_of_ok hderive
  constructor
  · intro hfaithful before x after hpayloads a ha huuid
    refine ⟨fun payload => ?_⟩
    have hm : input.Has (⟨x.1, x.2, payload⟩ : Boxed den) := by
      rw [DeriveInput.Has, hpayloads]
      exact List.mem_append_right _ List.mem_cons_self
    obtain ⟨uuid, encoded, hu, he, hdecode⟩ := hfaithful.roundTrip _ hm
    rw [hgen.uuid_eq hm] at hu
    cases hu
    obtain _ | data := encoded
    · cases hdecode
    have hlt := first_mem hpayloads ha huuid (hgen.first_of_decode hdecode)
    have hnodup := hgen.distinct.of_map
    rw [hpayloads, List.nodup_middle] at hnodup
    exact (List.nodup_cons.mp hnodup).1 (List.mem_append_left _ hlt)
  · intro hunshadowed
    refine ⟨fun m hm => ⟨_, _, hgen.uuid_eq hm, hgen.encode_eq hm, ?_⟩, fun uuid => hgen.unknown⟩
    apply hgen.decode_encode (hinverts _ hm)
    obtain ⟨before, after, hsplit⟩ := List.append_of_mem hm
    refine first_eq_some_iff.mpr ⟨rfl, before, after, hsplit, fun a ha huuid => ?_⟩
    exact (hunshadowed before _ after hsplit a ha huuid.symm).false m.payload

/-- The payloads of a newtype of `bool` and of one of `u8`. -/
inductive Newtype where
  | flag
  | count

def boolPayload (uuid : Uuid) : Payload Empty :=
  ⟨Bool, uuid, fun t => .ok [if t then 1 else 0], fun data =>
    match data with
    | 0 :: _ => .ok false
    | 1 :: _ => .ok true
    | _ => .error .decode⟩

def bytePayload (uuid : Uuid) : Payload Empty :=
  ⟨UInt8, uuid, fun t => .ok [t], fun data =>
    match data with
    | t :: _ => .ok t
    | [] => .error .decode⟩

def newtypes : Newtype → Payload Empty
  | .flag => boolPayload 0x7b07473e96594d47a5028245d71c0078
  | .count => bytePayload 0x7b07473e96594d47a5028245d71c0079

theorem inverts_newtypes (ty : Newtype) : (newtypes ty).Inverts := by
  cases ty with
  | flag =>
    intro (t : Bool)
    cases t <;> rfl
  | count =>
    intro t
    rfl

/-- Two variants with different payloads. -/
theorem faithful_iff_newtypes :
    let input : DeriveInput Newtype := ⟨"MultipleMessage",
      .enum [⟨"Flag", .unnamed [.flag]⟩, ⟨"Count", .unnamed [.count]⟩] (by decide)⟩
    ∃ impl, deriveMessageBox "multiple_type" input = .ok impl ∧ Faithful newtypes input impl := by
  intro input
  refine ⟨_, rfl, (faithful_iff rfl fun x _ => inverts_newtypes x.2).mpr ?_⟩
  apply unshadowed_of_nodup
  show [(newtypes .flag).uuid, (newtypes .count).uuid].Nodup
  decide

/-- Two variants with the same payload: the second one is decoded as the first one. -/
theorem unfaithful_same_payload :
    let input : DeriveInput Newtype := ⟨"Switch",
      .enum [⟨"On", .unnamed [.flag]⟩, ⟨"Off", .unnamed [.flag]⟩] (by decide)⟩
    ∃ impl, deriveMessageBox "switch" input = .ok impl ∧ (∀ x ∈ input.payloads, (newtypes x.2).Inverts) ∧
      ¬ Faithful newtypes input impl := by
  intro input
  refine ⟨_, rfl, fun x _ => inverts_newtypes x.2, fun h => ?_⟩
  have hm : input.Has (⟨"Off", .flag, true⟩ : Boxed newtypes) := by
    show _ ∈ [("On", Newtype.flag), ("Off", Newtype.flag)]
    simp
  obtain ⟨uuid, encoded, hu, he, hdecode⟩ := h.roundTrip _ hm
  cases hu
  cases he
  have hident : some "On" = some "Off" := congrArg (fun r => r.toOption.map Boxed.ident) hdecode
  exact absurd hident (by decide)

end Ipmb.DeriveBox
