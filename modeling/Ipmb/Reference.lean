import Ipmb.Decoding

namespace Ipmb.Reference

open Messages Bytes Buffers Encoding Decoding

/-- Descriptors from the data of a control record. -/
def decodeFds : Nat → List UInt8 → List RawFd
  | 0, _ => []
  | n + 1, bytes => BitVec.ofNat 32 (leValue (bytes.take 4)) :: decodeFds n (bytes.drop 4)

/-- The walk of `sendmsg` over the records of a control buffer. -/
def walkControl : Nat → List UInt8 → Option (List RawFd)
  | 0, _ => some []
  | fuel + 1, control =>
    if control.length < cmsghdrSize then some []
    else
      let len := leValue (control.take 8)
      if len < cmsghdrSize ∨ control.length < len then none
      else
        let rest := walkControl fuel (control.drop (cmsgAlign len))
        if leValue ((control.drop 8).take 4) ≠ solSocket then rest
        else if leValue ((control.drop 12).take 4) ≠ scmRights then none
        else rest.map (decodeFds ((len - cmsghdrSize) / 4) (control.drop cmsghdrSize) ++ ·)

/-- A kernel that does what is documented, over the objects that can be mapped. -/
def reference (mapHeader : RawFd → Option UInt64) : Kernel where
  peek
    | none => 0
    | some d => d.bytes.length
  recvmsg socket iov control :=
    match socket with
    | none => ⟨0, iov, control, 0, false, false⟩
    | some d =>
      let n := min d.fds.length ((control.length - cmsghdrSize) / 4)
      ⟨min d.bytes.length iov.length, d.bytes.take iov.length ++ iov.drop d.bytes.length,
        if n = 0 then control
        else rightsRecord (d.fds.take n) ++ control.drop (cmsgLen (4 * n)),
        if n = 0 then 0 else cmsgSpace (4 * n),
        decide (iov.length < d.bytes.length), decide (n < d.fds.length)⟩
  attachments control := (walkControl control.length control).filter fun fds => fds.length ≤ scmMaxFd
  mapHeader := mapHeader

theorem decodeFds_flatMap (fds : List RawFd) (post : List UInt8) :
    decodeFds fds.length (fds.flatMap fdBytes ++ post) = fds := by
  induction fds with
  | nil => rfl
  | cons fd fds ih =>
    have hd : (fdBytes fd ++ (fds.flatMap fdBytes ++ post)).take 4 = fdBytes fd :=
      List.take_left' (length_fdBytes fd)
    have hr : (fdBytes fd ++ (fds.flatMap fdBytes ++ post)).drop 4 = fds.flatMap fdBytes ++ post :=
      List.drop_left' (length_fdBytes fd)
    have hfd : leValue (fdBytes fd) = fd.toNat := by
      rw [fdBytes, leValue_leBytes]
      exact Nat.mod_eq_of_lt fd.isLt
    rw [List.length_cons, List.flatMap_cons, List.append_assoc, decodeFds, hd, hr, ih, hfd,
      BitVec.ofNat_toNat, BitVec.setWidth_eq]

theorem walkControl_short (fuel : Nat) {control : List UInt8} (h : control.length < 16) :
    walkControl fuel control = some [] := by
  cases fuel with
  | zero => rfl
  | succ fuel => exact if_pos h

theorem walkControl_record {fds : List RawFd} {pad : List UInt8} (hf : fds.length ≤ scmMaxFd)
    (hp : pad.length < 16) (fuel : Nat) :
    walkControl (fuel + 1) (rightsRecord fds ++ pad) = some fds := by
  rw [scmMaxFd] at hf
  have hlen := length_rightsRecord fds
  have hcmsg : cmsgLen (4 * fds.length) = 16 + 4 * fds.length := rfl
  have hsize : cmsghdrSize = 16 := rfl
  have hfirst : leValue ((rightsRecord fds ++ pad).take 8) = cmsgLen (4 * fds.length) := by
    simp only [rightsRecord, List.append_assoc]
    rw [List.take_left' (length_leBytes 8 _), leValue_leBytes]
    exact Nat.mod_eq_of_lt (by omega)
  have hlevel : leValue (((rightsRecord fds ++ pad).drop 8).take 4) = solSocket := by
    simp only [rightsRecord, List.append_assoc]
    rw [List.drop_left' (length_leBytes 8 _), List.take_left' (length_leBytes 4 _), leValue_leBytes]
    rfl
  have hdrop : (rightsRecord fds ++ pad).drop 12 =
      leBytes 4 scmRights ++ (fds.flatMap fdBytes ++ pad) := by
    simp only [rightsRecord, List.append_assoc]
    rw [← List.append_assoc (leBytes 8 _)]
    exact List.drop_left' (by simp)
  have htype : leValue (((rightsRecord fds ++ pad).drop 12).take 4) = scmRights := by
    rw [hdrop, List.take_left' (length_leBytes 4 _), leValue_leBytes]
    rfl
  have hdata : (rightsRecord fds ++ pad).drop 16 = fds.flatMap fdBytes ++ pad := by
    rw [← List.drop_drop (i := 4) (j := 12), hdrop]
    exact List.drop_left' (length_leBytes 4 _)
  have hrest : walkControl fuel ((rightsRecord fds ++ pad).drop (cmsgAlign (cmsgLen (4 * fds.length)))) =
      some [] := by
    apply walkControl_short fuel
    have halign : cmsgLen (4 * fds.length) ≤ cmsgAlign (cmsgLen (4 * fds.length)) := by
      rw [cmsgAlign]
      split <;> omega
    rw [List.length_drop, List.length_append, hlen]
    omega
  rw [walkControl, if_neg (by rw [List.length_append]; omega)]
  simp only [hfirst, hlevel, htype, hrest, hsize, hdata]
  rw [if_neg (by rw [List.length_append]; omega), if_neg (by simp), if_neg (by simp)]
  have hcount : (cmsgLen (4 * fds.length) - 16) / 4 = fds.length := by omega
  rw [hcount, decodeFds_flatMap]
  simp

theorem reference_documented (mapHeader : RawFd → Option UInt64) :
    (reference mapHeader).Documented where
  peek_some _ := rfl
  peek_none := Int.le_refl 0
  recvmsg_fits d iov control h := by
    refine ⟨?_, ?_, ?_⟩
    · simpa [reference] using h
    · simp [reference, List.take_of_length_le h]
    · simpa [reference] using h
  recvmsg_truncates d iov control h := by simpa [reference] using h
  control_none d iov control h := by simp [reference, h]
  control_fits d iov control h hfit := by
    rw [cmsgLen_eq] at hfit
    have hpos : 0 < d.fds.length := List.length_pos_of_ne_nil h
    have hmin : min d.fds.length ((control.length - cmsghdrSize) / 4) = d.fds.length :=
      Nat.min_eq_left (by simp only [cmsghdrSize]; omega)
    have hspace := cmsgLen_le_cmsgSpace (4 * d.fds.length)
    rw [cmsgLen_eq] at hspace
    simp only [reference, hmin, List.take_length, if_neg (Nat.ne_of_gt hpos)]
    exact ⟨trivial, by omega, by simp⟩
  control_truncates d iov control h hcut := by
    rw [cmsgLen_eq] at hcut
    have hpos : 0 < d.fds.length := List.length_pos_of_ne_nil h
    simp only [reference, cmsghdrSize]
    exact decide_eq_true (by omega)
  attachments_record fds pad hf hp := by
    have hlen : (rightsRecord fds ++ pad).length = (15 + 4 * fds.length + pad.length) + 1 := by
      rw [List.length_append, length_rightsRecord, cmsgLen_eq]
      omega
    simp only [reference]
    rw [hlen, walkControl_record hf hp]
    simpa using hf

/-- A selector to everybody. -/
def plainSelector (memoryRegionCount : UInt16) : Selector :=
  { Selector.unicast .true with memoryRegionCount := memoryRegionCount }

/-- Two variant indices, the uuid, a small count, and no time to live. -/
def plainBytes (count : UInt8) : List UInt8 := List.replicate 18 0 ++ [count, 0, 0]

/-- `bincode` on the plain selectors with a small count. -/
def plainCodec : Codec where
  encode selector := plainBytes selector.memoryRegionCount.toUInt8
  decode bytes :=
    match bytes.drop 18 with
    | count :: 0 :: 0 :: _ =>
      if bytes.take 18 = List.replicate 18 0 ∧ count < 251 then some (plainSelector count.toUInt16)
      else none
    | _ => none

def zeroHeap : Heap := ⟨fun _ => 0, fun _ => 0⟩

end Ipmb.Reference
