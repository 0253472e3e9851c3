import CryptodevChat.Virtio.Backend

namespace CryptodevChat.Virtio

open Lib (Byte le fromLe Loc Mem)

section Bounds

variable (elem : VirtQueueElement)

-- The element has the entry, and the entry has the bytes.
def VirtQueueElement.Covers (side : Side) (i n : Nat) : Prop :=
  i < elem.num side ∧ n ≤ (elem.sg side i).len

-- A dereference inside its entry. A call of the host is inside when the
-- lengths of the structure that it is handed are covered by the entries.
def Event.Inside : Event → Prop
  | .touch side i off n => elem.Covers side i (off + n)
  | .call (.gsession _ op) =>
      elem.Covers .in 0 SESSION_OP_SIZE ∧ elem.Covers .out 3 (SessionOp.parse op).keylen
  | .call (.fsession _ _) => elem.Covers .out 3 4
  | .call (.crypt _ op) =>
      elem.Covers .out 3 CRYPT_OP_SIZE ∧ elem.Covers .out 4 (CryptOp.parse op).len ∧
      elem.Covers .out 5 IV_SIZE ∧ elem.Covers .in 0 (CryptOp.parse op).len
  | .call _ => True

-- The length that the structure at the start of an entry carries.
def VirtQueueElement.lenAt (m : Mem Byte) (side : Side) (i : Nat) : Nat :=
  fromLe (Mem.load m ((elem.sg side i).base.plus LEN_OFF) 4)

-- The layout that each syscall type and command takes for granted.
def VirtQueueElement.Layout (m : Mem Byte) : Prop :=
  elem.Covers .out 0 4 ∧
  if elem.syscallType m = VIRTIO_CRYPTO_SYSCALL_TYPE_OPEN then elem.Covers .in 0 4
  else if elem.syscallType m = VIRTIO_CRYPTO_SYSCALL_TYPE_CLOSE then elem.Covers .out 1 4
  else if elem.syscallType m = VIRTIO_CRYPTO_SYSCALL_TYPE_IOCTL then
    elem.Covers .out 2 4 ∧
    if elem.ioctlCmd m = CIOCGSESSION then
      elem.Covers .out 1 4 ∧ elem.Covers .out 3 (elem.lenAt m .in 0) ∧
      elem.Covers .in 0 SESSION_OP_SIZE ∧ elem.Covers .in 1 4
    else if elem.ioctlCmd m = CIOCFSESSION then
      elem.Covers .out 1 4 ∧ elem.Covers .out 3 4 ∧ elem.Covers .in 0 4
    else if elem.ioctlCmd m = CIOCCRYPT then
      elem.Covers .out 1 4 ∧ elem.Covers .out 3 CRYPT_OP_SIZE ∧
      elem.Covers .out 4 (elem.lenAt m .out 3) ∧ elem.Covers .out 5 IV_SIZE ∧
      elem.Covers .in 0 (elem.lenAt m .out 3) ∧ elem.Covers .in 1 4
    else True
  else True

variable {elem}

theorem VirtQueueElement.Covers.mono {side : Side} {i n : Nat} (h : elem.Covers side i n) (k : Nat)
    (hk : k ≤ n) : elem.Covers side i k := ⟨h.1, Nat.le_trans hk h.2⟩

-- Writing the pointers leaves the lengths beside them alone.
theorem sessionMem_len (q : Qemu) (m : Mem Byte) :
    (SessionOp.parse (Mem.load (elem.sessionMem q m) (elem.inSg 0).base SESSION_OP_SIZE)).keylen =
      elem.lenAt m .in 0 := by
  unfold SessionOp.parse VirtQueueElement.sessionMem VirtQueueElement.lenAt
  simp only
  rw [field_load _ _ _ _ _ (by decide), Mem.load_store_other]
  · rfl
  · simp [KEY_OFF, LEN_OFF]

theorem cryptMem_len (q : Qemu) (m : Mem Byte) :
    (CryptOp.parse (Mem.load (elem.cryptMem q m) (elem.outSg 3).base CRYPT_OP_SIZE)).len =
      elem.lenAt m .out 3 := by
  unfold CryptOp.parse VirtQueueElement.cryptMem VirtQueueElement.lenAt
  simp only
  rw [field_load _ _ _ _ _ (by decide), Mem.load_store_other, Mem.load_store_other,
    Mem.load_store_other]
  · rfl
  all_goals simp [SRC_OFF, DST_OFF, IV_OFF, LEN_OFF]

end Bounds

variable {σ : Type} (h : Host σ) (q : Qemu) (elem : VirtQueueElement) (s : Backend σ)

-- One case for each branch of the switch.
theorem handleElem_inside_iff : ∃ events, ((handleElem h q elem).run s).2.log = s.log ++ events ∧
    ((∀ e ∈ events, e.Inside elem) ↔ elem.Layout s.mem) := by
  unfold VirtQueueElement.Layout
  by_cases ho : elem.syscallType s.mem = VIRTIO_CRYPTO_SYSCALL_TYPE_OPEN
  · refine ⟨_, by rw [handleElem_open h q elem s ho], ?_⟩
    simp [ho, Event.Inside]
  by_cases hc : elem.syscallType s.mem = VIRTIO_CRYPTO_SYSCALL_TYPE_CLOSE
  · refine ⟨_, by rw [handleElem_close h q elem s hc], ?_⟩
    simp [hc, Event.Inside]
  by_cases hi : elem.syscallType s.mem = VIRTIO_CRYPTO_SYSCALL_TYPE_IOCTL
  swap
  · refine ⟨_, by rw [handleElem_other_type h q elem s ho hc hi], ?_⟩
    simp [ho, hc, hi, Event.Inside]
  rw [if_neg ho, if_neg hc, if_pos hi]
  by_cases hg : elem.ioctlCmd s.mem = CIOCGSESSION
  · refine ⟨_, by rw [handleElem_gsession h q elem s hi hg], ?_⟩
    rw [if_pos hg]
    simp only [List.forall_mem_cons, List.not_mem_nil, false_implies, implies_true, and_true]
    simp only [Event.Inside, sessionMem_len, Nat.zero_add]
    constructor
    · rintro ⟨h0, h2, _, h1, ⟨hin, hkey⟩, hret⟩
      exact ⟨h0, h2, h1, hkey, hin, hret⟩
    · rintro ⟨h0, h2, h1, hkey, hin, hret⟩
      exact ⟨h0, h2, hin.mono _ (by decide), h1, ⟨hin, hkey⟩, hret⟩
  by_cases hf : elem.ioctlCmd s.mem = CIOCFSESSION
  · refine ⟨_, by rw [handleElem_fsession h q elem s hi hf], ?_⟩
    simp [hf, Event.Inside]
  by_cases hcr : elem.ioctlCmd s.mem = CIOCCRYPT
  · refine ⟨_, by rw [handleElem_crypt h q elem s hi hcr], ?_⟩
    rw [if_neg hg, if_neg hf, if_pos hcr]
    simp only [List.forall_mem_cons, List.not_mem_nil, false_implies, implies_true, and_true]
    simp only [Event.Inside, cryptMem_len, Nat.zero_add]
    constructor
    · rintro ⟨h0, h2, _, _, _, h1, ⟨hop, hsrc, hiv, hdst⟩, hret, _⟩
      exact ⟨h0, h2, h1, hop, hsrc, hiv, hdst, hret⟩
    · rintro ⟨h0, h2, h1, hop, hsrc, hiv, hdst, hret⟩
      exact ⟨h0, h2, hop.mono _ (by decide), hop.mono _ (by decide), hop.mono _ (by decide), h1,
        ⟨hop, hsrc, hiv, hdst⟩, hret, hret⟩
  · refine ⟨_, by rw [handleElem_other_cmd h q elem s hi hg hf hcr], ?_⟩
    simp [hg, hf, hcr, Event.Inside]

-- Whatever the element, it is decoded and pushed back once, and the device
-- stays inside it exactly when the element has the layout of its command.
theorem vqHandleOutput_inside_iff (rest used : List VirtQueueElement) (notified : Nat) :
    ∃ events s', vqHandleOutput h q ⟨elem :: rest, used, notified⟩ s =
        (⟨rest, used ++ [elem], notified + 1⟩, s') ∧ s'.log = s.log ++ events ∧
      ((∀ e ∈ events, e.Inside elem) ↔ elem.Layout s.mem) := by
  obtain ⟨events, hlog, hiff⟩ := handleElem_inside_iff h q elem s
  exact ⟨events, _, rfl, hlog, hiff⟩

section Malformed

-- An element of one readable entry that asks for an open.
def openWithoutReply : VirtQueueElement where
  outNum := 1
  inNum := 0
  outSg := fun _ => ⟨⟨0, 0⟩, 4⟩
  inSg := fun _ => ⟨⟨1, 0⟩, 0⟩

def flatQemu : Qemu where
  space := ⟨fun a => ⟨0, a⟩, fun _ => true, fun _ => true⟩
  base := fun _ => 0
  base_lt := fun _ => by decide

theorem openWithoutReply_outside : ∃ s',
    vqHandleOutput nullHost flatQemu ⟨[openWithoutReply], [], 0⟩ ⟨fun _ => 0, 3, []⟩ =
      (⟨[], [openWithoutReply], 1⟩, s') ∧
    Event.call .openDev ∈ s'.log ∧ ∃ e ∈ s'.log, ¬e.Inside openWithoutReply := by
  have hty : openWithoutReply.syscallType (fun _ => 0) = VIRTIO_CRYPTO_SYSCALL_TYPE_OPEN := by
    decide
  have hrun := handleElem_open nullHost flatQemu openWithoutReply ⟨fun _ => 0, 3, []⟩ hty
  refine ⟨_, rfl, ?_, .touch .in 0 0 4, ?_, fun hinside => ?_⟩
  · simp [hrun]
  · simp [hrun]
  · exact Nat.not_lt_zero 0 hinside.1

end Malformed

end CryptodevChat.Virtio
