import CryptodevChat.Virtio.Cryptodev

namespace CryptodevChat.Virtio

open Lib (Byte le fromLe leInt fromLeInt Loc Mem Space)

def VIRTIO_CRYPTO_SYSCALL_TYPE_OPEN : Nat := 0
def VIRTIO_CRYPTO_SYSCALL_TYPE_CLOSE : Nat := 1
def VIRTIO_CRYPTO_SYSCALL_TYPE_IOCTL : Nat := 2

@[simp] theorem close_ne_open :
    VIRTIO_CRYPTO_SYSCALL_TYPE_CLOSE ≠ VIRTIO_CRYPTO_SYSCALL_TYPE_OPEN := by decide
@[simp] theorem ioctl_ne_open :
    VIRTIO_CRYPTO_SYSCALL_TYPE_IOCTL ≠ VIRTIO_CRYPTO_SYSCALL_TYPE_OPEN := by decide
@[simp] theorem ioctl_ne_close :
    VIRTIO_CRYPTO_SYSCALL_TYPE_IOCTL ≠ VIRTIO_CRYPTO_SYSCALL_TYPE_CLOSE := by decide

structure IoVec where
  base : Loc
  len : Nat
  deriving DecidableEq, Repr

-- The arrays of an element are longer than its counts say. Entries beyond
-- the counts hold whatever the stack held.
structure VirtQueueElement where
  outNum : Nat
  inNum : Nat
  outSg : Nat → IoVec
  inSg : Nat → IoVec

inductive Side
  | out
  | in
  deriving DecidableEq, Repr

def VirtQueueElement.sg (elem : VirtQueueElement) : Side → Nat → IoVec
  | .out => elem.outSg
  | .in => elem.inSg

def VirtQueueElement.num (elem : VirtQueueElement) : Side → Nat
  | .out => elem.outNum
  | .in => elem.inNum

-- The address space of QEMU, in which the object `block` starts at `base block`.
structure Qemu where
  space : Space
  base : Nat → Nat
  base_lt : ∀ block, base block < 2 ^ 64

def Qemu.addr (q : Qemu) (p : Loc) : Nat := q.base p.block + p.off

-- A call of the host, with the structure that its argument points to.
inductive HostCall
  | openDev
  | closeDev (fd : Int)
  | gsession (fd : Int) (op : List Byte)
  | fsession (fd : Int) (ses : List Byte)
  | crypt (fd : Int) (op : List Byte)
  deriving DecidableEq, Repr

inductive Event
  | touch (side : Side) (index off len : Nat)
  | call (c : HostCall)
  deriving DecidableEq, Repr

-- What `vq_handle_output` works on, with the history of what it did.
structure Backend (σ : Type) where
  mem : Mem Byte
  host : σ
  log : List Event

abbrev BackM (σ : Type) := StateM (Backend σ)

variable {σ : Type}

def record (e : Event) : BackM σ Unit := modify fun s => { s with log := s.log ++ [e] }

-- Dereferences of `iov_base`. Nothing compares them with `iov_len` or with the counts.
def loadSg (elem : VirtQueueElement) (side : Side) (i off n : Nat) : BackM σ (List Byte) := do
  record (.touch side i off n)
  return Mem.load (← get).mem ((elem.sg side i).base.plus off) n

def storeSg (elem : VirtQueueElement) (side : Side) (i off : Nat) (data : List Byte) :
    BackM σ Unit := do
  record (.touch side i off data.length)
  modify fun s => { s with mem := Mem.store s.mem ((elem.sg side i).base.plus off) data }

def openDev (h : Host σ) : BackM σ Int := do
  record (.call .openDev)
  let (fd, host) := h.openDev (← get).host
  modify fun s => { s with host }
  return fd

def closeDev (h : Host σ) (fd : Int) : BackM σ Int := do
  record (.call (.closeDev fd))
  let (r, host) := h.closeDev fd (← get).host
  modify fun s => { s with host }
  return r

-- The C library's `ioctl`: the errno stays on the host.
def status : Except Nat Unit → Int
  | .ok () => 0
  | .error _ => -1

-- The structure that a command's argument points to.
def handed (cmd : Nat) (fd : Int) (m : Mem Byte) (arg : Loc) : HostCall :=
  if cmd = CIOCGSESSION then .gsession fd (Mem.load m arg SESSION_OP_SIZE)
  else if cmd = CIOCFSESSION then .fsession fd (Mem.load m arg 4)
  else .crypt fd (Mem.load m arg CRYPT_OP_SIZE)

def ioctl (h : Host σ) (q : Qemu) (fd : Int) (cmd : Nat) (arg : Loc) : BackM σ Int := do
  let s ← get
  record (.call (handed cmd fd s.mem arg))
  let (r, mem, host) := h.ioctl q.space fd cmd (q.addr arg) s.mem s.host
  modify fun s => { s with mem, host }
  return status r

-- The switch of `vq_handle_output`. Its pointer variables are the bases of
-- the entries, and `*host_fd` is read where it is used.
def handleElem (h : Host σ) (q : Qemu) (elem : VirtQueueElement) : BackM σ Unit := do
  let syscallType ← loadSg elem .out 0 0 4
  if fromLe syscallType = VIRTIO_CRYPTO_SYSCALL_TYPE_OPEN then
    let fd ← openDev h
    storeSg elem .in 0 0 (leInt fd)
    let _ ← loadSg elem .in 0 0 4
  else if fromLe syscallType = VIRTIO_CRYPTO_SYSCALL_TYPE_CLOSE then
    let fd ← loadSg elem .out 1 0 4
    let _ ← closeDev h (fromLeInt fd)
  else if fromLe syscallType = VIRTIO_CRYPTO_SYSCALL_TYPE_IOCTL then
    let cmd ← loadSg elem .out 2 0 4
    if fromLe cmd = CIOCGSESSION then
      let sessionKey := (elem.outSg 3).base
      let sessionOp := (elem.inSg 0).base
      storeSg elem .in 0 KEY_OFF (le 8 (q.addr sessionKey))
      let fd ← loadSg elem .out 1 0 4
      let r ← ioctl h q (fromLeInt fd) CIOCGSESSION sessionOp
      storeSg elem .in 1 0 (leInt r)
    else if fromLe cmd = CIOCFSESSION then
      let sesId := (elem.outSg 3).base
      let fd ← loadSg elem .out 1 0 4
      let r ← ioctl h q (fromLeInt fd) CIOCFSESSION sesId
      storeSg elem .in 0 0 (leInt r)
    else if fromLe cmd = CIOCCRYPT then
      let cryptOp := (elem.outSg 3).base
      let src := (elem.outSg 4).base
      let iv := (elem.outSg 5).base
      let dst := (elem.inSg 0).base
      storeSg elem .out 3 SRC_OFF (le 8 (q.addr src))
      storeSg elem .out 3 IV_OFF (le 8 (q.addr iv))
      storeSg elem .out 3 DST_OFF (le 8 (q.addr dst))
      let fd ← loadSg elem .out 1 0 4
      let r ← ioctl h q (fromLeInt fd) CIOCCRYPT cryptOp
      storeSg elem .in 1 0 (leInt r)
      let _ ← loadSg elem .in 1 0 4
    else return ()
  else return ()

section Spec

variable (h : Host σ) (q : Qemu) (elem : VirtQueueElement) (s : Backend σ)

theorem bind_run {α β : Type} (x : BackM σ α) (f : α → BackM σ β) :
    (x >>= f).run s = (f (x.run s).1).run (x.run s).2 := rfl

theorem pure_run {α : Type} (a : α) : (pure a : BackM σ α).run s = (a, s) := rfl

theorem loadSg_run (side : Side) (i off n : Nat) :
    (loadSg elem side i off n).run s =
      (Mem.load s.mem ((elem.sg side i).base.plus off) n,
        { s with log := s.log ++ [.touch side i off n] }) := rfl

theorem storeSg_run (side : Side) (i off : Nat) (data : List Byte) :
    (storeSg elem side i off data).run s =
      ((), { s with
        mem := Mem.store s.mem ((elem.sg side i).base.plus off) data
        log := s.log ++ [.touch side i off data.length] }) := rfl

theorem openDev_run :
    (openDev h).run s =
      ((h.openDev s.host).1,
        { s with host := (h.openDev s.host).2, log := s.log ++ [.call .openDev] }) := rfl

theorem closeDev_run (fd : Int) :
    (closeDev h fd).run s =
      ((h.closeDev fd s.host).1,
        { s with host := (h.closeDev fd s.host).2, log := s.log ++ [.call (.closeDev fd)] }) := rfl

theorem ioctl_run (fd : Int) (cmd : Nat) (arg : Loc) :
    (ioctl h q fd cmd arg).run s =
      (status (h.ioctl q.space fd cmd (q.addr arg) s.mem s.host).1,
        { mem := (h.ioctl q.space fd cmd (q.addr arg) s.mem s.host).2.1
          host := (h.ioctl q.space fd cmd (q.addr arg) s.mem s.host).2.2
          log := s.log ++ [.call (handed cmd fd s.mem arg)] }) := rfl

-- The four bytes at the start of an entry.
def VirtQueueElement.word (elem : VirtQueueElement) (m : Mem Byte) (side : Side) (i : Nat) :
    List Byte := Mem.load m (elem.sg side i).base 4

def VirtQueueElement.syscallType (elem : VirtQueueElement) (m : Mem Byte) : Nat :=
  fromLe (elem.word m .out 0)

def VirtQueueElement.ioctlCmd (elem : VirtQueueElement) (m : Mem Byte) : Nat :=
  fromLe (elem.word m .out 2)

-- Memory when the structure is handed to the host: its pointers name the entries.
def VirtQueueElement.sessionMem (elem : VirtQueueElement) (q : Qemu) (m : Mem Byte) : Mem Byte :=
  Mem.store m ((elem.inSg 0).base.plus KEY_OFF) (le 8 (q.addr (elem.outSg 3).base))

def VirtQueueElement.cryptMem (elem : VirtQueueElement) (q : Qemu) (m : Mem Byte) : Mem Byte :=
  let op := (elem.outSg 3).base
  let m := Mem.store m (op.plus SRC_OFF) (le 8 (q.addr (elem.outSg 4).base))
  let m := Mem.store m (op.plus IV_OFF) (le 8 (q.addr (elem.outSg 5).base))
  Mem.store m (op.plus DST_OFF) (le 8 (q.addr (elem.inSg 0).base))

def VirtQueueElement.hostFd (elem : VirtQueueElement) (m : Mem Byte) : Int :=
  fromLeInt (elem.word m .out 1)

theorem handleElem_open (hty : elem.syscallType s.mem = VIRTIO_CRYPTO_SYSCALL_TYPE_OPEN) :
    ((handleElem h q elem).run s).2 =
      { mem := Mem.store s.mem (elem.inSg 0).base (leInt (h.openDev s.host).1)
        host := (h.openDev s.host).2
        log := s.log ++ [.touch .out 0 0 4, .call .openDev, .touch .in 0 0 4, .touch .in 0 0 4] } := by
  unfold VirtQueueElement.syscallType VirtQueueElement.word at hty
  simp only [handleElem, bind_run, pure_run, loadSg_run, storeSg_run, openDev_run, Loc.plus_zero,
    hty, if_true]
  simp [VirtQueueElement.sg]

theorem handleElem_close (hty : elem.syscallType s.mem = VIRTIO_CRYPTO_SYSCALL_TYPE_CLOSE) :
    ((handleElem h q elem).run s).2 =
      { mem := s.mem
        host := (h.closeDev (elem.hostFd s.mem) s.host).2
        log := s.log ++ [.touch .out 0 0 4, .touch .out 1 0 4,
          .call (.closeDev (elem.hostFd s.mem))] } := by
  unfold VirtQueueElement.syscallType VirtQueueElement.word at hty
  simp only [handleElem, bind_run, pure_run, loadSg_run, closeDev_run, Loc.plus_zero, hty,
    close_ne_open, if_true, if_false]
  simp [VirtQueueElement.hostFd, VirtQueueElement.word]

section Ioctl

variable (hty : elem.syscallType s.mem = VIRTIO_CRYPTO_SYSCALL_TYPE_IOCTL)
include hty

theorem handleElem_gsession (hcmd : elem.ioctlCmd s.mem = CIOCGSESSION) :
    ((handleElem h q elem).run s).2 =
      let m := elem.sessionMem q s.mem
      let r := h.ioctl q.space (elem.hostFd m) CIOCGSESSION (q.addr (elem.inSg 0).base) m s.host
      { mem := Mem.store r.2.1 (elem.inSg 1).base (leInt (status r.1))
        host := r.2.2
        log := s.log ++ [.touch .out 0 0 4, .touch .out 2 0 4, .touch .in 0 KEY_OFF 8,
          .touch .out 1 0 4,
          .call (.gsession (elem.hostFd m) (Mem.load m (elem.inSg 0).base SESSION_OP_SIZE)),
          .touch .in 1 0 4] } := by
  unfold VirtQueueElement.syscallType VirtQueueElement.word at hty
  unfold VirtQueueElement.ioctlCmd VirtQueueElement.word at hcmd
  simp only [handleElem, bind_run, loadSg_run, storeSg_run, ioctl_run, Loc.plus_zero, hty, hcmd,
    ioctl_ne_open, ioctl_ne_close, if_true, if_false]
  simp [VirtQueueElement.hostFd, VirtQueueElement.word, VirtQueueElement.sessionMem,
    VirtQueueElement.sg, handed]

theorem handleElem_fsession (hcmd : elem.ioctlCmd s.mem = CIOCFSESSION) :
    ((handleElem h q elem).run s).2 =
      let r := h.ioctl q.space (elem.hostFd s.mem) CIOCFSESSION (q.addr (elem.outSg 3).base) s.mem
        s.host
      { mem := Mem.store r.2.1 (elem.inSg 0).base (leInt (status r.1))
        host := r.2.2
        log := s.log ++ [.touch .out 0 0 4, .touch .out 2 0 4, .touch .out 1 0 4,
          .call (.fsession (elem.hostFd s.mem) (Mem.load s.mem (elem.outSg 3).base 4)),
          .touch .in 0 0 4] } := by
  unfold VirtQueueElement.syscallType VirtQueueElement.word at hty
  unfold VirtQueueElement.ioctlCmd VirtQueueElement.word at hcmd
  simp only [handleElem, bind_run, loadSg_run, storeSg_run, ioctl_run, Loc.plus_zero, hty, hcmd,
    ioctl_ne_open, ioctl_ne_close, fsession_ne_gsession, if_true, if_false]
  simp [VirtQueueElement.hostFd, VirtQueueElement.word, VirtQueueElement.sg, handed]

theorem handleElem_crypt (hcmd : elem.ioctlCmd s.mem = CIOCCRYPT) :
    ((handleElem h q elem).run s).2 =
      let m := elem.cryptMem q s.mem
      let r := h.ioctl q.space (elem.hostFd m) CIOCCRYPT (q.addr (elem.outSg 3).base) m s.host
      { mem := Mem.store r.2.1 (elem.inSg 1).base (leInt (status r.1))
        host := r.2.2
        log := s.log ++ [.touch .out 0 0 4, .touch .out 2 0 4, .touch .out 3 SRC_OFF 8,
          .touch .out 3 IV_OFF 8, .touch .out 3 DST_OFF 8, .touch .out 1 0 4,
          .call (.crypt (elem.hostFd m) (Mem.load m (elem.outSg 3).base CRYPT_OP_SIZE)),
          .touch .in 1 0 4, .touch .in 1 0 4] } := by
  unfold VirtQueueElement.syscallType VirtQueueElement.word at hty
  unfold VirtQueueElement.ioctlCmd VirtQueueElement.word at hcmd
  simp only [handleElem, bind_run, pure_run, loadSg_run, storeSg_run, ioctl_run, Loc.plus_zero,
    hty, hcmd, ioctl_ne_open, ioctl_ne_close, crypt_ne_gsession, crypt_ne_fsession, if_true, if_false]
  simp [VirtQueueElement.hostFd, VirtQueueElement.word, VirtQueueElement.cryptMem,
    VirtQueueElement.sg, handed]

theorem handleElem_other_cmd (hg : elem.ioctlCmd s.mem ≠ CIOCGSESSION)
    (hf : elem.ioctlCmd s.mem ≠ CIOCFSESSION) (hc : elem.ioctlCmd s.mem ≠ CIOCCRYPT) :
    ((handleElem h q elem).run s).2 =
      { s with log := s.log ++ [.touch .out 0 0 4, .touch .out 2 0 4] } := by
  unfold VirtQueueElement.syscallType VirtQueueElement.word at hty
  unfold VirtQueueElement.ioctlCmd VirtQueueElement.word at hg hf hc
  simp only [handleElem, bind_run, pure_run, loadSg_run, Loc.plus_zero, hty, hg, hf, hc,
    ioctl_ne_open, ioctl_ne_close, if_true, if_false]
  simp

end Ioctl

theorem handleElem_other_type (ho : elem.syscallType s.mem ≠ VIRTIO_CRYPTO_SYSCALL_TYPE_OPEN)
    (hc : elem.syscallType s.mem ≠ VIRTIO_CRYPTO_SYSCALL_TYPE_CLOSE)
    (hi : elem.syscallType s.mem ≠ VIRTIO_CRYPTO_SYSCALL_TYPE_IOCTL) :
    ((handleElem h q elem).run s).2 = { s with log := s.log ++ [.touch .out 0 0 4] } := by
  unfold VirtQueueElement.syscallType VirtQueueElement.word at ho hc hi
  simp only [handleElem, bind_run, pure_run, loadSg_run, Loc.plus_zero, ho, hc, hi, if_false]

end Spec

-- The queue of a device as the backend sees it.
structure VirtQueue where
  avail : List VirtQueueElement
  used : List VirtQueueElement
  notified : Nat

def vqHandleOutput (h : Host σ) (q : Qemu) (vq : VirtQueue) (s : Backend σ) :
    VirtQueue × Backend σ :=
  match vq.avail with
  | [] => (vq, s)
  | elem :: rest =>
      let s := ((handleElem h q elem).run s).2
      (⟨rest, vq.used ++ [elem], vq.notified + 1⟩, s)

end CryptodevChat.Virtio
