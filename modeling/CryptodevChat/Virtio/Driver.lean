import CryptodevChat.Virtio.Backend

namespace CryptodevChat.Virtio

open Lib (Byte le fromLe leInt fromLeInt)

def VIRTIO_CRYPTO_SYSCALL_OPEN : Nat := 0
def VIRTIO_CRYPTO_SYSCALL_CLOSE : Nat := 1
def VIRTIO_CRYPTO_SYSCALL_IOCTL : Nat := 2
def ENOMEM : Int := 12
def ENODEV : Int := 19

-- The size of a pointer variable such as `syscall_type`.
def POINTER_SIZE : Nat := 8

-- The kernel objects of a call are numbered as they are allocated, and `none` is NULL.
abbrev Ptr := Option Nat

-- What `sg_init_one` sets up.
structure Sg where
  block : Nat
  len : Nat
  deriving DecidableEq, Repr

structure Crof where
  crdev : Nat
  hostFd : Int
  deriving DecidableEq, Repr

-- The driver's functions as programs over the services of the kernel. `getBuf`
-- is the loop around `virtqueue_get_buf`, `crof` is `filp->private_data`, and
-- `oops` stands for an access through a bad pointer.
inductive Prog (α : Type)
  | ret (a : α)
  | oops
  | kmalloc (size : Nat) (zeroed : Bool) (next : Ptr → Prog α)
  | kfree (p : Ptr) (next : Prog α)
  | put (block off : Nat) (data : List Byte) (next : Prog α)
  | get (block off n : Nat) (next : List Byte → Prog α)
  | loadUser (addr n : Nat) (next : List Byte → Prog α)
  | copyFromUser (block addr n : Nat) (next : Bool → Prog α)
  | copyToUser (addr block n : Nat) (next : Bool → Prog α)
  | nonseekableOpen (next : Int → Prog α)
  | findDev (minor : Nat) (next : Option Nat → Prog α)
  | newCrof (crof : Crof) (next : Bool → Prog α)
  | getCrof (next : Crof → Prog α)
  | setHostFd (fd : Int) (next : Prog α)
  | freeCrof (next : Prog α)
  | spinLock (next : Prog α)
  | spinUnlock (next : Prog α)
  | addSgs (vq : Nat) (sgs : List Sg) (numOut numIn : Nat) (next : Prog α)
  | kick (vq : Nat) (next : Prog α)
  | getBuf (vq : Nat) (next : Prog α)

def Prog.bind {α β : Type} : Prog α → (α → Prog β) → Prog β
  | .ret a, f => f a
  | .oops, _ => .oops
  | .kmalloc size zeroed next, f => .kmalloc size zeroed fun p => (next p).bind f
  | .kfree p next, f => .kfree p (next.bind f)
  | .put block off data next, f => .put block off data (next.bind f)
  | .get block off n next, f => .get block off n fun data => (next data).bind f
  | .loadUser addr n next, f => .loadUser addr n fun data => (next data).bind f
  | .copyFromUser block addr n next, f => .copyFromUser block addr n fun ok => (next ok).bind f
  | .copyToUser addr block n next, f => .copyToUser addr block n fun ok => (next ok).bind f
  | .nonseekableOpen next, f => .nonseekableOpen fun ret => (next ret).bind f
  | .findDev minor next, f => .findDev minor fun crdev => (next crdev).bind f
  | .newCrof crof next, f => .newCrof crof fun ok => (next ok).bind f
  | .getCrof next, f => .getCrof fun crof => (next crof).bind f
  | .setHostFd fd next, f => .setHostFd fd (next.bind f)
  | .freeCrof next, f => .freeCrof (next.bind f)
  | .spinLock next, f => .spinLock (next.bind f)
  | .spinUnlock next, f => .spinUnlock (next.bind f)
  | .addSgs vq sgs numOut numIn next, f => .addSgs vq sgs numOut numIn (next.bind f)
  | .kick vq next, f => .kick vq (next.bind f)
  | .getBuf vq next, f => .getBuf vq (next.bind f)

instance : Monad Prog where
  pure := .ret
  bind := .bind

section Services

def kzalloc (size : Nat) : Prog Ptr := .kmalloc size true .ret
def kmalloc (size : Nat) : Prog Ptr := .kmalloc size false .ret
def kfree (p : Ptr) : Prog Unit := .kfree p (.ret ())

-- The pointer of an object, when there is one to dereference.
def deref (p : Ptr) : Prog Nat :=
  match p with
  | none => .oops
  | some block => .ret block

def store (p : Ptr) (data : List Byte) : Prog Unit := do .put (← deref p) 0 data (.ret ())
def load (p : Ptr) (off n : Nat) : Prog (List Byte) := do .get (← deref p) off n .ret
def sgInitOne (p : Ptr) (len : Nat) : Prog Sg := do return ⟨← deref p, len⟩
def loadUser (addr n : Nat) : Prog Nat := .loadUser addr n fun data => .ret (fromLe data)
def copyFromUser (p : Ptr) (addr n : Nat) : Prog Bool := do .copyFromUser (← deref p) addr n .ret
def copyToUser (addr : Nat) (p : Ptr) (n : Nat) : Prog Bool := do .copyToUser addr (← deref p) n .ret
def nonseekableOpen : Prog Int := .nonseekableOpen .ret
def newCrof (crof : Crof) : Prog Bool := .newCrof crof .ret
def getCrof : Prog Crof := .getCrof .ret
def setHostFd (fd : Int) : Prog Unit := .setHostFd fd (.ret ())
def freeCrof : Prog Unit := .freeCrof (.ret ())
def spinLock : Prog Unit := .spinLock (.ret ())
def spinUnlock : Prog Unit := .spinUnlock (.ret ())

-- The result of `virtqueue_add_sgs` is not looked at.
def addSgs (vq : Nat) (sgs : List Sg) (numOut numIn : Nat) : Prog Unit :=
  .addSgs vq sgs numOut numIn (.ret ())

def kick (vq : Nat) : Prog Unit := .kick vq (.ret ())
def getBuf (vq : Nat) : Prog Unit := .getBuf vq (.ret ())

end Services

def getCryptoDevByMinor (minor : Nat) : Prog (Option Nat) := do
  spinLock
  let crdev ← .findDev minor .ret
  spinUnlock
  return crdev

-- Wait for the host to process our data.
def submit (vq : Nat) (sgs : List Sg) (numOut numIn : Nat) : Prog Unit := do
  spinLock
  addSgs vq sgs numOut numIn
  kick vq
  getBuf vq
  spinUnlock

-- The test after the request compares the pointer `host_fd` with zero, so no
-- value of `*host_fd` makes the call fail.
def cryptoChrdevOpen (minor : Nat) : Prog Int := do
  let syscallType ← kzalloc 4
  let hostFd ← kzalloc 4
  store syscallType (le 4 VIRTIO_CRYPTO_SYSCALL_OPEN)
  store hostFd (leInt (-1))
  let ret ← nonseekableOpen
  if ret < 0 then return ret
  else match ← getCryptoDevByMinor minor with
    | none => return -ENODEV
    | some crdev =>
        if ← newCrof ⟨crdev, -1⟩ then
          let syscallTypeSg ← sgInitOne syscallType POINTER_SIZE
          let fileDescriptorSg ← sgInitOne hostFd POINTER_SIZE
          submit crdev [syscallTypeSg, fileDescriptorSg] 1 1
          let fd ← load hostFd 0 4
          setHostFd (fromLeInt fd)
          kfree syscallType
          kfree hostFd
          return ret
        else return -ENOMEM

def cryptoChrdevRelease : Prog Int := do
  let crof ← getCrof
  let syscallType ← kzalloc 4
  store syscallType (le 4 VIRTIO_CRYPTO_SYSCALL_CLOSE)
  let hostFd ← kzalloc 4
  store hostFd (leInt crof.hostFd)
  let syscallTypeSg ← sgInitOne syscallType POINTER_SIZE
  let fileDescriptorSg ← sgInitOne hostFd 4
  submit crof.crdev [syscallTypeSg, fileDescriptorSg] 2 0
  freeCrof
  kfree syscallType
  kfree hostFd
  return 0

-- The objects that an ioctl allocates for its command.
structure Objects where
  sessionOp : Ptr
  sessionKey : Ptr
  sesId : Ptr
  cryptOp : Ptr
  src : Ptr
  iv : Ptr
  dst : Ptr

-- The lengths are read through the user's pointer, whatever the command.
def allocObjects (arg : Nat) : Prog Objects := do
  let sessionOp ← kzalloc SESSION_OP_SIZE
  let sessionKey ← kmalloc (← loadUser (arg + LEN_OFF) 4)
  let sesId ← kzalloc 4
  let cryptOp ← kzalloc CRYPT_OP_SIZE
  let src ← kzalloc (← loadUser (arg + LEN_OFF) 4)
  let iv ← kzalloc IV_SIZE
  let dst ← kzalloc (← loadUser (arg + LEN_OFF) 4)
  return ⟨sessionOp, sessionKey, sesId, cryptOp, src, iv, dst⟩

-- The lists that a command adds, the device-readable ones first. A copy from
-- the user that fails ends the call.
def cmdSgs (cmd arg : Nat) (o : Objects) : Prog (Option (List Sg × List Sg)) := do
  if cmd = CIOCGSESSION then
    if ← copyFromUser o.sessionOp arg SESSION_OP_SIZE then
      let key ← loadUser (arg + KEY_OFF) 8
      let keylen ← loadUser (arg + LEN_OFF) 4
      if ← copyFromUser o.sessionKey key keylen then
        let copied ← load o.sessionOp LEN_OFF 4
        let sessionKeySg ← sgInitOne o.sessionKey (fromLe copied)
        let sessionOpSg ← sgInitOne o.sessionOp SESSION_OP_SIZE
        return some ([sessionKeySg], [sessionOpSg])
      else return none
    else return none
  else if cmd = CIOCFSESSION then
    if ← copyFromUser o.sesId arg 4 then
      let sesIdSg ← sgInitOne o.sesId 4
      return some ([sesIdSg], [])
    else return none
  else if cmd = CIOCCRYPT then
    if ← copyFromUser o.cryptOp arg CRYPT_OP_SIZE then
      let src ← loadUser (arg + SRC_OFF) 8
      let len ← loadUser (arg + LEN_OFF) 4
      if ← copyFromUser o.src src len then
        let iv ← loadUser (arg + IV_OFF) 8
        if ← copyFromUser o.iv iv IV_SIZE then
          let cryptOpSg ← sgInitOne o.cryptOp CRYPT_OP_SIZE
          let copied ← load o.cryptOp LEN_OFF 4
          let srcSg ← sgInitOne o.src (fromLe copied)
          let ivSg ← sgInitOne o.iv IV_SIZE
          let dstSg ← sgInitOne o.dst (fromLe copied)
          return some ([cryptOpSg, srcSg, ivSg], [dstSg])
        else return none
      else return none
    else return none
  else return some ([], [])

-- Use of the buffers from the backend.
def copyBack (cmd arg : Nat) (o : Objects) : Prog Bool := do
  if cmd = CIOCGSESSION then copyToUser arg o.sessionOp SESSION_OP_SIZE
  else if cmd = CIOCCRYPT then
    let dst ← loadUser (arg + DST_OFF) 8
    let len ← load o.cryptOp LEN_OFF 4
    copyToUser dst o.dst (fromLe len)
  else return true

def freeObjects (o : Objects) : Prog Unit := do
  kfree o.sessionKey
  kfree o.sessionOp
  kfree o.sesId
  kfree o.cryptOp
  kfree o.src
  kfree o.iv
  kfree o.dst

-- What is common to all ioctl commands.
structure Common where
  crdev : Nat
  syscallType : Ptr
  hostFd : Ptr
  ioctlCmd : Ptr
  hostReturnVal : Ptr
  sgs : List Sg

def allocCommon (cmd : Nat) : Prog Common := do
  let crof ← getCrof
  let syscallType ← kzalloc 4
  store syscallType (le 4 VIRTIO_CRYPTO_SYSCALL_IOCTL)
  let hostFd ← kzalloc 4
  store hostFd (leInt crof.hostFd)
  let ioctlCmd ← kzalloc 4
  store ioctlCmd (le 4 cmd)
  let hostReturnVal ← kzalloc 4
  let syscallTypeSg ← sgInitOne syscallType 4
  let hostFdSg ← sgInitOne hostFd 4
  let ioctlCmdSg ← sgInitOne ioctlCmd 4
  return ⟨crof.crdev, syscallType, hostFd, ioctlCmd, hostReturnVal,
    [syscallTypeSg, hostFdSg, ioctlCmdSg]⟩

-- `host_return_val` is read last and never freed.
def reply (cmd arg : Nat) (c : Common) (o : Objects) : Prog Int := do
  if ← copyBack cmd arg o then
    kfree c.syscallType
    kfree c.hostFd
    kfree c.ioctlCmd
    freeObjects o
    let ret ← load c.hostReturnVal 0 4
    return fromLeInt ret
  else return -EFAULT

def cryptoChrdevIoctl (cmd arg : Nat) : Prog Int := do
  let c ← allocCommon cmd
  let o ← allocObjects arg
  match ← cmdSgs cmd arg o with
  | none => return -EFAULT
  | some (outSgs, inSgs) =>
      let hostReturnValSg ← sgInitOne c.hostReturnVal 4
      submit c.crdev (c.sgs ++ outSgs ++ inSgs ++ [hostReturnValSg])
        (c.sgs.length + outSgs.length) (inSgs.length + 1)
      reply cmd arg c o

-- The element that the backend pops for a request.
def toElement (sgs : List Sg) (numOut numIn : Nat) : VirtQueueElement where
  outNum := numOut
  inNum := numIn
  outSg := fun i => match sgs[i]? with
    | some sg => ⟨⟨sg.block, 0⟩, sg.len⟩
    | none => ⟨⟨0, 0⟩, 0⟩
  inSg := fun j => match sgs[numOut + j]? with
    | some sg => ⟨⟨sg.block, 0⟩, sg.len⟩
    | none => ⟨⟨0, 0⟩, 0⟩

end CryptodevChat.Virtio
