import CryptodevChat.Lib.Bytes
import CryptodevChat.Lib.Memory

namespace CryptodevChat.Virtio

open Lib (Byte le fromLe Loc Mem Space)

def CIOCGSESSION : Nat := 0xc0306366
def CIOCFSESSION : Nat := 0x40046367
def CIOCCRYPT : Nat := 0xc0306368

@[simp] theorem fsession_ne_gsession : CIOCFSESSION ≠ CIOCGSESSION := by decide
@[simp] theorem fsession_ne_crypt : CIOCFSESSION ≠ CIOCCRYPT := by decide
@[simp] theorem crypt_ne_gsession : CIOCCRYPT ≠ CIOCGSESSION := by decide
@[simp] theorem crypt_ne_fsession : CIOCCRYPT ≠ CIOCFSESSION := by decide

def COP_FLAG_WRITE_IV : Nat := 4
def EFAULT : Nat := 14
def ENOTTY : Nat := 25
def IV_SIZE : Nat := 16

section Structures

def SESSION_OP_SIZE : Nat := 48
def CRYPT_OP_SIZE : Nat := 48

-- The offset of `keylen` in a `session_op` is that of `len` in a `crypt_op`.
def LEN_OFF : Nat := 8
def KEY_OFF : Nat := 16
def MACKEY_OFF : Nat := 32
def SES_OFF : Nat := 40
def SRC_OFF : Nat := 16
def DST_OFF : Nat := 24
def MAC_OFF : Nat := 32
def IV_OFF : Nat := 40

def field (bytes : List Byte) (off n : Nat) : Nat := fromLe ((bytes.drop off).take n)

-- A field of a structure in memory can be read by itself.
theorem field_load (m : Mem Byte) (p : Loc) (size off n : Nat) (h : off + n ≤ size) :
    field (Mem.load m p size) off n = fromLe (Mem.load m (p.plus off) n) := by
  rw [field, Mem.load_slice m p size off n h]

structure SessionOp where
  cipher : Nat
  mac : Nat
  keylen : Nat
  key : Nat
  mackeylen : Nat
  mackey : Nat
  ses : Nat
  deriving DecidableEq, Repr

def SessionOp.parse (bytes : List Byte) : SessionOp where
  cipher := field bytes 0 4
  mac := field bytes 4 4
  keylen := field bytes LEN_OFF 4
  key := field bytes KEY_OFF 8
  mackeylen := field bytes 24 4
  mackey := field bytes MACKEY_OFF 8
  ses := field bytes SES_OFF 4

structure CryptOp where
  ses : Nat
  op : Nat
  flags : Nat
  len : Nat
  src : Nat
  dst : Nat
  mac : Nat
  iv : Nat
  deriving DecidableEq, Repr

def CryptOp.parse (bytes : List Byte) : CryptOp where
  ses := field bytes 0 4
  op := field bytes 4 2
  flags := field bytes 6 2
  len := field bytes LEN_OFF 4
  src := field bytes SRC_OFF 8
  dst := field bytes DST_OFF 8
  mac := field bytes MAC_OFF 8
  iv := field bytes IV_OFF 8

end Structures

section Host

-- What `/dev/crypto` reads from the memory of its caller.
structure Session where
  cipher : Nat
  mac : Nat
  key : List Byte
  mackey : List Byte

structure Crypt where
  ses : Nat
  op : Nat
  flags : Nat
  src : List Byte
  iv : List Byte

-- What it writes there.
structure Crypted where
  dst : List Byte
  mac : List Byte
  iv : List Byte

-- `/dev/crypto` on the host, with the errno of a call that fails. Descriptors are C ints.
structure Host (σ : Type) where
  openDev : σ → Int × σ
  closeDev : Int → σ → Int × σ
  gsession : Int → Session → σ → Except Nat Nat × σ
  fsession : Int → Nat → σ → Except Nat Unit × σ
  crypt : Int → Crypt → σ → Except Nat Crypted × σ
  open_range : ∀ s, -0x80000000 ≤ (openDev s).1 ∧ (openDev s).1 < 0x80000000
  dst_length : ∀ fd args s out s', crypt fd args s = (.ok out, s') →
    out.dst.length = args.src.length

variable {σ : Type} (h : Host σ) (sp : Space)

def Host.cioGsession (fd : Int) (arg : Nat) (m : Mem Byte) (s : σ) : Except Nat Unit × Mem Byte × σ :=
  match sp.copyFrom m arg SESSION_OP_SIZE with
  | none => (.error EFAULT, m, s)
  | some bytes =>
      let op := SessionOp.parse bytes
      match sp.copyFrom m op.key op.keylen,
          (if op.mac = 0 then some [] else sp.copyFrom m op.mackey op.mackeylen) with
      | some key, some mackey =>
          match h.gsession fd ⟨op.cipher, op.mac, key, mackey⟩ s with
          | (.error errno, s) => (.error errno, m, s)
          | (.ok ses, s) =>
              match sp.copyTo m (arg + SES_OFF) (le 4 ses) with
              | none => (.error EFAULT, m, s)
              | some m => (.ok (), m, s)
      | _, _ => (.error EFAULT, m, s)

def Host.cioFsession (fd : Int) (arg : Nat) (m : Mem Byte) (s : σ) : Except Nat Unit × Mem Byte × σ :=
  match sp.copyFrom m arg 4 with
  | none => (.error EFAULT, m, s)
  | some ses =>
      let (r, s) := h.fsession fd (fromLe ses) s
      (r, m, s)

-- The digest and the next initialization vector are written on demand.
def putCrypted (sp : Space) (op : CryptOp) (out : Crypted) (m : Mem Byte) : Option (Mem Byte) := do
  let m ← sp.copyTo m op.dst out.dst
  let m ← if op.mac = 0 then some m else sp.copyTo m op.mac out.mac
  if op.flags / COP_FLAG_WRITE_IV % 2 = 0 then some m else sp.copyTo m op.iv out.iv

def Host.cioCrypt (fd : Int) (arg : Nat) (m : Mem Byte) (s : σ) : Except Nat Unit × Mem Byte × σ :=
  match sp.copyFrom m arg CRYPT_OP_SIZE with
  | none => (.error EFAULT, m, s)
  | some bytes =>
      let op := CryptOp.parse bytes
      match sp.copyFrom m op.src op.len, sp.copyFrom m op.iv IV_SIZE with
      | some src, some iv =>
          match h.crypt fd ⟨op.ses, op.op, op.flags, src, iv⟩ s with
          | (.error errno, s) => (.error errno, m, s)
          | (.ok out, s) =>
              match putCrypted sp op out m with
              | none => (.error EFAULT, m, s)
              | some m => (.ok (), m, s)
      | _, _ => (.error EFAULT, m, s)

-- The ioctl of the host's kernel on behalf of a process.
def Host.ioctl (fd : Int) (cmd arg : Nat) (m : Mem Byte) (s : σ) : Except Nat Unit × Mem Byte × σ :=
  if cmd = CIOCGSESSION then h.cioGsession sp fd arg m s
  else if cmd = CIOCFSESSION then h.cioFsession sp fd arg m s
  else if cmd = CIOCCRYPT then h.cioCrypt sp fd arg m s
  else (.error ENOTTY, m, s)

end Host

-- A device with a null cipher, whose state is the number it hands out next.
def nullHost : Host Nat where
  openDev := fun s => if s < 1024 then (s, s + 1) else (-1, s)
  closeDev := fun _ s => (0, s)
  gsession := fun _ _ s => (.ok s, s + 1)
  fsession := fun _ _ s => (.ok (), s)
  crypt := fun _ args s => (.ok ⟨args.src, [], []⟩, s)
  open_range := fun s => by
    by_cases hs : s < 1024
    · simp only [hs, if_true]
      omega
    · simp [hs]
  dst_length := fun _ _ _ _ _ h => by
    cases h
    rfl

end CryptodevChat.Virtio
