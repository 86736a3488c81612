import Ipmb.Decoding

namespace Ipmb.Reception

open Messages Bytes Buffers Encoding Faults Decoding

/-- What `iov_data` holds once a datagram has been received: the datagram, and up to
three bytes of the heap. -/
def receivedIov (heap : Heap) (d : Datagram) : List UInt8 :=
  d.bytes ++ (allocBuffer 4 d.bytes.length heap.iov).drop d.bytes.length

/-- What `control_data` holds then; without descriptors it is not written. -/
def receivedControl (heap : Heap) (d : Datagram) : List UInt8 :=
  if d.fds = [] then allocBuffer 8 32 heap.control
  else rightsRecord d.fds ++ (allocBuffer 8 32 heap.control).drop (cmsgLen (4 * d.fds.length))

theorem length_receivedIov (heap : Heap) (d : Datagram) :
    (receivedIov heap d).length = align4 d.bytes.length := by
  have h := le_align4 d.bytes.length
  rw [receivedIov, List.length_append, List.length_drop, length_allocBuffer_u32]
  omega

theorem receivedIov_of_mod (heap : Heap) {d : Datagram} (h : d.bytes.length % 4 = 0) :
    receivedIov heap d = d.bytes := by
  have hlen : (allocBuffer 4 d.bytes.length heap.iov).length = d.bytes.length := by
    rw [length_allocBuffer_u32, align4_of_mod h]
  rw [receivedIov, List.drop_eq_nil_of_le (Nat.le_of_eq hlen), List.append_nil]

theorem readWord_append (pre post : List UInt8) (k n ptr : Nat) (hp : pre.length = ptr)
    (hn : n < 256 ^ k) : readWord (pre ++ leBytes k n ++ post) ptr k = .ok n := by
  rw [readWord, readAt_append _ _ _ _ _ hp (length_leBytes k n)]
  simp only [leValue_leBytes, Nat.mod_eq_of_lt hn]

theorem readFds_append (pre post : List UInt8) (fds : List RawFd) (ptr : Nat)
    (hp : pre.length = ptr) :
    readFds (pre ++ fds.flatMap fdBytes ++ post) ptr fds.length = .ok fds := by
  induction fds generalizing pre ptr with
  | nil => rfl
  | cons fd fds ih =>
    have hw := readWord_append pre (fds.flatMap fdBytes ++ post) 4 fd.toNat ptr hp fd.isLt
    have hr := ih (pre ++ fdBytes fd) (ptr + 4) (by simp [hp])
    simp only [List.append_assoc] at hw hr ⊢
    rw [List.length_cons, readFds, List.flatMap_cons, List.append_assoc]
    rw [fdBytes] at hr ⊢
    rw [hw, Except.bind, hr, Except.map, BitVec.ofNat_toNat, BitVec.setWidth_eq]

theorem readObjects_record {fds : List RawFd} (post : List UInt8) (h : fds.length ≤ 253) :
    readObjects (rightsRecord fds ++ post) = .ok fds := by
  have hlen : cmsgLen (4 * fds.length) = 16 + 4 * fds.length := rfl
  have hw := readWord_append [] (leBytes 4 solSocket ++ leBytes 4 scmRights ++
    fds.flatMap fdBytes ++ post) 8 (cmsgLen (4 * fds.length)) 0 rfl (by omega)
  have hr := readFds_append (leBytes 8 (cmsgLen (4 * fds.length)) ++ leBytes 4 solSocket ++
    leBytes 4 scmRights) post fds 16 (by simp)
  have halign : cmsgAlign cmsghdrSize = 16 := rfl
  simp only [List.nil_append, List.append_assoc] at hw hr
  rw [readObjects, rightsRecord, halign]
  simp only [List.append_assoc]
  rw [hw, Except.bind]
  have hcount : (cmsgLen (4 * fds.length) - 16) / 4 = fds.length := by omega
  simp only [hcount]
  rw [if_neg (by omega), hr]

variable {k : Kernel} (hk : k.Documented) (codec : Codec) (version : Version) (heap : Heap)

include hk

/-- A socket that has been shut down. -/
theorem fromLocal_none : fromLocal k codec version heap none = .error (.error .disconnect) := by
  simp only [fromLocal, hk.peek_none, if_true]

/-- Empty datagrams, and those with too many descriptors for the control area, end
the connection. -/
theorem fromLocal_refused {d : Datagram}
    (h : d.bytes.length = 0 ∨ 2 ^ 32 ≤ d.bytes.length ∨ 4 < d.fds.length) :
    fromLocal k codec version heap (some d) = .error (.error .disconnect) := by
  rw [fromLocal]
  simp only [hk.peek_some]
  by_cases hz : (d.bytes.length : Int) ≤ 0
  · rw [if_pos hz]
  · rw [if_neg hz, if_pos]
    obtain h | h | h := h
    · exact absurd (by omega) hz
    · refine Or.inr (Or.inl (hk.recvmsg_truncates d _ _ ?_))
      rw [length_allocBuffer_u32, Int.toNat_natCast]
      have hmod : d.bytes.length % 2 ^ 32 < 2 ^ 32 := Nat.mod_lt _ (by decide)
      have halign := align4_lt (d.bytes.length % 2 ^ 32)
      have hfour := align4_mod (d.bytes.length % 2 ^ 32)
      by_cases heq : d.bytes.length = 2 ^ 32
      · rw [heq]
        decide
      · omega
    · refine Or.inr (Or.inr (hk.control_truncates d _ _ ?_ ?_))
      · rintro hnil
        simp [hnil] at h
      · rw [length_allocBuffer_usize (by decide), cmsgLen_eq]
        omega

omit codec version heap in
theorem fromLocal_small {codec : Codec} {version : Version} {heap : Heap} {d : Datagram}
    {msg : EncodedMessage} (h : fromLocal k codec version heap (some d) = .ok msg) :
    0 < d.bytes.length ∧ d.bytes.length < 2 ^ 32 ∧ d.fds.length ≤ 4 := by
  by_contra hd
  rw [fromLocal_refused hk codec version heap (by omega)] at h
  cases h

omit codec version heap in
/-- What is accepted has come in a datagram. -/
theorem fromLocal_ok {codec : Codec} {version : Version} {heap : Heap} {socket : Option Datagram}
    {msg : EncodedMessage} (h : fromLocal k codec version heap socket = .ok msg) :
    ∃ d, socket = some d ∧ 0 < d.bytes.length ∧ d.bytes.length < 2 ^ 32 ∧ d.fds.length ≤ 4 := by
  cases socket with
  | none =>
    rw [fromLocal_none hk] at h
    cases h
  | some d => exact ⟨d, rfl, fromLocal_small hk h⟩

/-- Every other datagram is parsed, with all its descriptors as objects. -/
theorem fromLocal_parse {d : Datagram} (hpos : 0 < d.bytes.length) (hlt : d.bytes.length < 2 ^ 32)
    (hfds : d.fds.length ≤ 4) :
    fromLocal k codec version heap (some d) =
      parseData k codec version (receivedIov heap d) (receivedControl heap d) d.fds := by
  rw [fromLocal]
  simp only [hk.peek_some, Int.toNat_natCast, Nat.mod_eq_of_lt hlt]
  obtain ⟨hret, hiov, htrunc⟩ := hk.recvmsg_fits d (allocBuffer 4 d.bytes.length heap.iov)
    (allocBuffer 8 32 heap.control) (by rw [length_allocBuffer_u32]; exact le_align4 _)
  have hz : ¬ (d.bytes.length : Int) ≤ 0 := by omega
  have hno : ¬ ((d.bytes.length : Int) ≤ 0 ∨ false = true ∨ false = true) := by simpa using hz
  rw [if_neg hz, hret, hiov, htrunc]
  by_cases hnil : d.fds = []
  · obtain ⟨hcontrol, hlen, hctrunc⟩ := hk.control_none d (allocBuffer 4 d.bytes.length heap.iov)
      (allocBuffer 8 32 heap.control) hnil
    rw [hctrunc, if_neg hno, hlen, hcontrol, if_neg (by decide), receivedControl,
      if_pos hnil, hnil]
    rfl
  · obtain ⟨hcontrol, hlen, hctrunc⟩ := hk.control_fits d (allocBuffer 4 d.bytes.length heap.iov)
      (allocBuffer 8 32 heap.control) hnil (by
        rw [length_allocBuffer_usize (by decide), cmsgLen_eq]
        omega)
    rw [hctrunc, if_neg hno, if_pos hlen, hcontrol, readObjects_record _ (by omega),
      receivedControl, if_neg hnil]
    rfl

end Ipmb.Reception
