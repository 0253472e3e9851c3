import CryptodevChat.Virtio.Native
import CryptodevChat.Lib.Agreement

namespace CryptodevChat.Virtio

open Lib (Byte le leInt Loc Mem Alike)

variable {σ : Type}

section Calls

variable (elem : VirtQueueElement) (q : Qemu) (m : Mem Byte)

-- The commands that the backend passes on.
def Forwarded (cmd : Nat) : Prop := cmd = CIOCGSESSION ∨ cmd = CIOCFSESSION ∨ cmd = CIOCCRYPT

-- The object whose address is the argument of the host's ioctl.
def VirtQueueElement.argument : Loc :=
  if elem.ioctlCmd m = CIOCGSESSION then (elem.inSg 0).base else (elem.outSg 3).base

-- Memory when the host's ioctl is called.
def VirtQueueElement.patched : Mem Byte :=
  if elem.ioctlCmd m = CIOCGSESSION then elem.sessionMem q m
  else if elem.ioctlCmd m = CIOCCRYPT then elem.cryptMem q m
  else m

-- The host's ioctl as the backend calls it.
def VirtQueueElement.asked (h : Host σ) (x : σ) : Except Nat Unit × Mem Byte × σ :=
  h.ioctl q.space (elem.hostFd (elem.patched q m)) (elem.ioctlCmd m) (q.addr (elem.argument m))
    (elem.patched q m) x

-- Where the backend stores the result.
def VirtQueueElement.resultAt : Loc :=
  if elem.ioctlCmd m = CIOCFSESSION then (elem.inSg 0).base else (elem.inSg 1).base

-- The fields of the request that the backend fills with addresses of its own.
def VirtQueueElement.addresses : Set Loc :=
  if elem.syscallType m = VIRTIO_CRYPTO_SYSCALL_TYPE_IOCTL then
    if elem.ioctlCmd m = CIOCGSESSION then ((elem.inSg 0).base.plus KEY_OFF).cells 8
    else if elem.ioctlCmd m = CIOCCRYPT then
      ((elem.outSg 3).base.plus SRC_OFF).cells 8 ∪ ((elem.outSg 3).base.plus IV_OFF).cells 8 ∪
        ((elem.outSg 3).base.plus DST_OFF).cells 8
    else ∅
  else ∅

variable {elem q m}

theorem handleElem_asked (h : Host σ) (s : Backend σ)
    (hty : elem.syscallType s.mem = VIRTIO_CRYPTO_SYSCALL_TYPE_IOCTL)
    (hcmd : Forwarded (elem.ioctlCmd s.mem)) :
    ((handleElem h q elem).run s).2.mem =
      Mem.store (elem.asked q s.mem h s.host).2.1 (elem.resultAt s.mem)
        (leInt (status (elem.asked q s.mem h s.host).1)) := by
  unfold VirtQueueElement.asked VirtQueueElement.resultAt VirtQueueElement.argument
    VirtQueueElement.patched
  rcases hcmd with hg | hf | hc
  · rw [handleElem_gsession h q elem s hty hg]
    simp [hg, fsession_ne_gsession.symm]
  · rw [handleElem_fsession h q elem s hty hf]
    simp [hf]
  · rw [handleElem_crypt h q elem s hty hc]
    simp [hc]

-- The two mappings show in the fields of addresses only.
theorem patched_eqOn (q' : Qemu) (hty : elem.syscallType m = VIRTIO_CRYPTO_SYSCALL_TYPE_IOCTL) :
    Set.EqOn (elem.patched q m) (elem.patched q' m) (elem.addresses m)ᶜ := by
  have hstart : Set.EqOn m m Set.univ := fun _ _ => rfl
  unfold VirtQueueElement.patched VirtQueueElement.addresses
  rw [if_pos hty]
  split_ifs with hg hc
  · have hkey := Mem.store_eqOn hstart ((elem.inSg 0).base.plus KEY_OFF)
      (le 8 (q.addr (elem.outSg 3).base)) (le 8 (q'.addr (elem.outSg 3).base)) rfl
    refine hkey.mono ?_
    intro r hr
    exact ⟨trivial, hr⟩
  · have hsrc := Mem.store_eqOn hstart ((elem.outSg 3).base.plus SRC_OFF)
      (le 8 (q.addr (elem.outSg 4).base)) (le 8 (q'.addr (elem.outSg 4).base)) rfl
    have hiv := Mem.store_eqOn hsrc ((elem.outSg 3).base.plus IV_OFF)
      (le 8 (q.addr (elem.outSg 5).base)) (le 8 (q'.addr (elem.outSg 5).base)) rfl
    have hdst := Mem.store_eqOn hiv ((elem.outSg 3).base.plus DST_OFF)
      (le 8 (q.addr (elem.inSg 0).base)) (le 8 (q'.addr (elem.inSg 0).base)) rfl
    refine hdst.mono ?_
    intro r hr
    simp only [Set.mem_compl_iff, Set.mem_union, not_or] at hr
    exact ⟨⟨⟨trivial, hr.1.1⟩, hr.1.2⟩, hr.2⟩
  · exact fun _ _ => rfl

end Calls

section Runs

variable {h h' : Host σ} {q q' : Qemu} {elem : VirtQueueElement} {s s' : Backend σ}

-- In both runs the calls of the host that the request leads to have the same
-- results and the same output bytes.
structure SameCalls (h h' : Host σ) (q q' : Qemu) (elem : VirtQueueElement) (s s' : Backend σ) :
    Prop where
  opened : elem.syscallType s.mem = VIRTIO_CRYPTO_SYSCALL_TYPE_OPEN →
    (h.openDev s.host).1 = (h'.openDev s'.host).1
  result : elem.syscallType s.mem = VIRTIO_CRYPTO_SYSCALL_TYPE_IOCTL →
    Forwarded (elem.ioctlCmd s.mem) →
      status (elem.asked q s.mem h s.host).1 = status (elem.asked q' s'.mem h' s'.host).1
  output : elem.syscallType s.mem = VIRTIO_CRYPTO_SYSCALL_TYPE_IOCTL →
    Forwarded (elem.ioctlCmd s.mem) →
      Alike (elem.patched q s.mem) (elem.asked q s.mem h s.host).2.1
        (elem.patched q' s'.mem) (elem.asked q' s'.mem h' s'.host).2.1

-- A byte that differs after the request is one of an address that the backend
-- wrote, and still is what the backend wrote there.
theorem handleElem_mapping (hmem : s.mem = s'.mem) (hsame : SameCalls h h' q q' elem s s') (p : Loc) :
    ((handleElem h q elem).run s).2.mem p = ((handleElem h' q' elem).run s').2.mem p ∨
    p ∈ elem.addresses s.mem ∧ ((handleElem h q elem).run s).2.mem p = elem.patched q s.mem p ∧
      ((handleElem h' q' elem).run s').2.mem p = elem.patched q' s.mem p := by
  by_cases ho : elem.syscallType s.mem = VIRTIO_CRYPTO_SYSCALL_TYPE_OPEN
  · rw [handleElem_open h q elem s ho, handleElem_open h' q' elem s' (hmem ▸ ho), hsame.opened ho,
      hmem]
    exact .inl rfl
  by_cases hc : elem.syscallType s.mem = VIRTIO_CRYPTO_SYSCALL_TYPE_CLOSE
  · rw [handleElem_close h q elem s hc, handleElem_close h' q' elem s' (hmem ▸ hc), hmem]
    exact .inl rfl
  by_cases hi : elem.syscallType s.mem = VIRTIO_CRYPTO_SYSCALL_TYPE_IOCTL
  swap
  · rw [handleElem_other_type h q elem s ho hc hi,
      handleElem_other_type h' q' elem s' (hmem ▸ ho) (hmem ▸ hc) (hmem ▸ hi)]
    exact .inl (congrFun hmem p)
  by_cases hcmd : Forwarded (elem.ioctlCmd s.mem)
  · have houtput := hsame.output hi hcmd
    have hreply := Mem.store_alike (elem.asked q s.mem h s.host).2.1 (elem.asked q' s'.mem h' s'.host).2.1
      (elem.resultAt s.mem) (leInt (status (elem.asked q s.mem h s.host).1))
    rw [handleElem_asked h s hi hcmd, handleElem_asked h' s' (hmem ▸ hi) (hmem ▸ hcmd),
      ← hsame.result hi hcmd, ← hmem]
    rw [← hmem] at houtput hreply
    simpa only [Set.mem_compl_iff, not_not] using
      (houtput.trans hreply).eq_or (patched_eqOn q' hi) p
  · unfold Forwarded at hcmd
    push Not at hcmd
    rw [handleElem_other_cmd h q elem s hi hcmd.1 hcmd.2.1 hcmd.2.2,
      handleElem_other_cmd h' q' elem s' (hmem ▸ hi) (hmem ▸ hcmd.1) (hmem ▸ hcmd.2.1)
        (hmem ▸ hcmd.2.2)]
    exact .inl (congrFun hmem p)

-- Of the addresses at which a request is mapped the guest sees those that the
-- backend puts into the pointer fields of the request, and no other trace.
theorem mapping_shows (rest rest' used used' : List VirtQueueElement) (notified notified' : Nat)
    (hmem : s.mem = s'.mem) (hsame : SameCalls h h' q q' elem s s') :
    let m := (vqHandleOutput h q ⟨elem :: rest, used, notified⟩ s).2.mem
    let m' := (vqHandleOutput h' q' ⟨elem :: rest', used', notified'⟩ s').2.mem
    ∀ p, m p = m' p ∨
      p ∈ elem.addresses s.mem ∧ m p = elem.patched q s.mem p ∧ m' p = elem.patched q' s.mem p := by
  intro m m' p
  have hm : m = ((handleElem h q elem).run s).2.mem := rfl
  have hm' : m' = ((handleElem h' q' elem).run s').2.mem := rfl
  rw [hm, hm']
  exact handleElem_mapping hmem hsame p

end Runs

section Instances

-- The objects again far apart, and one object further up.
def shifted : Qemu where
  space := ⟨fun a => ⟨a / 2 ^ 32 - 2, a % 2 ^ 32⟩, fun _ => true, fun _ => true⟩
  base := fun block => (block % 16 + 2) * 2 ^ 32
  base_lt := fun block => by omega

theorem shifted_places (len : Nat) (hlen : len ≤ 2 ^ 32) : shifted.Places (ioctlSizes len) := by
  intro block hblock
  have hmaps := farApart_places len hlen block hblock
  refine ⟨fun i hi => ?_, fun _ _ => rfl, fun _ _ => rfl⟩
  rw [← hmaps.byteAt i hi]
  simp only [shifted, farApart, Loc.mk.injEq]
  omega

-- AES without a digest.
def cipherBytes : List Byte :=
  le 4 11 ++ le 4 0 ++ le 4 16 ++ le 4 0 ++ le 8 0x2000 ++ le 8 0 ++ le 8 0 ++ le 8 0

-- The request of a process for a session with a key of ones.
def onesRequest : Mem Byte :=
  sessionObjects (objectsMem (commonMem (fun _ => 0) 3 CIOCGSESSION)) cipherBytes
    (List.replicate 16 1)

theorem onesRequest_decoded (q : Qemu) :
    (sessionElement 16).syscallType onesRequest = VIRTIO_CRYPTO_SYSCALL_TYPE_IOCTL ∧
    (sessionElement 16).ioctlCmd onesRequest = CIOCGSESSION ∧
    (sessionElement 16).hostFd ((sessionElement 16).sessionMem q onesRequest) = 3 :=
  session_decoded q (fun _ => 0) 3 cipherBytes (List.replicate 16 1) 16

theorem onesRequest_asked (q : Qemu) (hplaces : q.Places (ioctlSizes 16)) :
    (sessionElement 16).asked q onesRequest nullHost 7 =
      (.ok (), Mem.store ((sessionElement 16).sessionMem q onesRequest) ⟨4, SES_OFF⟩ (le 4 7), 8) := by
  obtain ⟨-, hcmd, hfd⟩ := onesRequest_decoded q
  have hioctl := ioctl_gsession_qemu nullHost q 3
    (objectsMem (commonMem (fun _ => 0) 3 CIOCGSESSION)) cipherBytes (List.replicate 16 1) 7 8 7
    rfl rfl hplaces rfl rfl
  unfold VirtQueueElement.asked VirtQueueElement.patched VirtQueueElement.argument
  rw [hcmd, if_pos rfl, if_pos rfl, hfd]
  exact hioctl

theorem onesRequest_sameCalls (q q' : Qemu) (hplaces : q.Places (ioctlSizes 16))
    (hplaces' : q'.Places (ioctlSizes 16)) :
    SameCalls nullHost nullHost q q' (sessionElement 16) ⟨onesRequest, 7, []⟩
      ⟨onesRequest, 7, []⟩ := by
  refine ⟨fun _ => rfl, fun _ _ => ?_, fun _ _ => ?_⟩
  · simp only [onesRequest_asked q hplaces, onesRequest_asked q' hplaces']
  · have hcmd := (onesRequest_decoded q).2.1
    simp only [onesRequest_asked q hplaces, onesRequest_asked q' hplaces',
      VirtQueueElement.patched, hcmd, if_true]
    exact Mem.store_alike _ _ _ _

-- Of the session the two mappings show nothing.
theorem onesRequest_same :
    (vqHandleOutput nullHost farApart ⟨[sessionElement 16], [], 0⟩ ⟨onesRequest, 7, []⟩).2.mem
        ⟨4, SES_OFF⟩ =
      (vqHandleOutput nullHost shifted ⟨[sessionElement 16], [], 0⟩ ⟨onesRequest, 7, []⟩).2.mem
        ⟨4, SES_OFF⟩ := by
  obtain ⟨htype, hcmd, -⟩ := onesRequest_decoded farApart
  have haddresses : (sessionElement 16).addresses onesRequest = (⟨4, KEY_OFF⟩ : Loc).cells 8 := by
    unfold VirtQueueElement.addresses
    rw [if_pos htype, if_pos hcmd]
    rfl
  rcases mapping_shows [] [] [] [] 0 0 rfl (onesRequest_sameCalls farApart shifted
    (farApart_places 16 (by decide)) (shifted_places 16 (by decide))) ⟨4, SES_OFF⟩ with
    heq | ⟨hmem, -⟩
  · exact heq
  · rw [haddresses, Loc.mem_cells] at hmem
    exact absurd hmem.2.2 (by decide)

theorem onesRequest_key (q : Qemu) (hplaces : q.Places (ioctlSizes 16)) :
    Mem.load (vqHandleOutput nullHost q ⟨[sessionElement 16], [], 0⟩ ⟨onesRequest, 7, []⟩).2.mem
      ⟨4, KEY_OFF⟩ 8 = le 8 (q.base 5) := by
  obtain ⟨htype, hcmd, -⟩ := onesRequest_decoded q
  have hasked := handleElem_asked (q := q) nullHost ⟨onesRequest, 7, []⟩ htype (.inl hcmd)
  rw [onesRequest_asked q hplaces, session_mem] at hasked
  rw [show (vqHandleOutput nullHost q ⟨[sessionElement 16], [], 0⟩ ⟨onesRequest, 7, []⟩).2.mem = _
    from hasked, VirtQueueElement.resultAt, hcmd, if_neg fsession_ne_gsession.symm,
    Mem.load_store_block _ _ _ _ _ (by decide), Mem.load_store_other _ _ _ _ _ (by decide),
    Mem.load_store _ _ _ _ (Lib.le_length 8 _)]
  rfl

-- The guest reads where the host holds its key.
theorem mapping_told_apart :
    SameCalls nullHost nullHost farApart shifted (sessionElement 16) ⟨onesRequest, 7, []⟩
      ⟨onesRequest, 7, []⟩ ∧
    Mem.load (vqHandleOutput nullHost farApart ⟨[sessionElement 16], [], 0⟩
      ⟨onesRequest, 7, []⟩).2.mem ⟨4, KEY_OFF⟩ 8 = [0, 0, 0, 0, 6, 0, 0, 0] ∧
    Mem.load (vqHandleOutput nullHost shifted ⟨[sessionElement 16], [], 0⟩
      ⟨onesRequest, 7, []⟩).2.mem ⟨4, KEY_OFF⟩ 8 = [0, 0, 0, 0, 7, 0, 0, 0] := by
  have hfar := farApart_places 16 (by decide)
  have hshifted := shifted_places 16 (by decide)
  refine ⟨onesRequest_sameCalls farApart shifted hfar hshifted, ?_, ?_⟩
  · rw [onesRequest_key farApart hfar]
    decide
  · rw [onesRequest_key shifted hshifted]
    decide

end Instances

end CryptodevChat.Virtio
