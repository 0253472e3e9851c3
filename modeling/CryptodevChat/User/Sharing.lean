import CryptodevChat.Virtio.Platform
import CryptodevChat.Lib.Client

namespace CryptodevChat.User

open Lib (Byte le fromLe Mem Space Service Contract)
open Virtio

variable {σ τ : Type}

section Calls

-- What the programs ask of the system: `/dev/crypto`, bytes from /dev/urandom, and
-- whether they can be copied.
inductive UserCall
  | dev (c : Call)
  | random (addr n : Nat)
  | fork

-- The calls that are not for the device.
def UserCall.outside : UserCall → Bool
  | .dev _ => false
  | _ => true

-- Processes that share a kernel. A file is released when the last process that has
-- it closes it, and `starved` tells that /dev/urandom or a `fork` has failed.
structure Shared (τ : Type) where
  kernel : τ
  holders : Nat → List Nat
  starved : Bool

def Shared.boot (k : τ) : Shared τ := ⟨k, fun _ => [], false⟩

variable (K : Platform σ τ)

def Shared.pass (x : Shared τ) (a : Setting) (m : Process) (c : Call) (holders : Int → Nat → List Nat) :
    Option (Int × Process × Shared τ) :=
  match K.call x.kernel a m c with
  | some (ret, user, kernel) => some (ret, { m with user }, { x with kernel, holders := holders ret })
  | none => none

def Shared.serve (x : Shared τ) (a : Setting) (p : Nat) (c : UserCall) (m : Process) :
    Option (Int × Process × Shared τ) :=
  match c with
  | .dev (.openDev minor) =>
      x.pass K a m (.openDev minor) fun ret =>
        if 0 ≤ ret then Function.update x.holders ret.toNat [p] else x.holders
  | .dev (.ioctl file cmd arg) =>
      if p ∈ x.holders file then x.pass K a m (.ioctl file cmd arg) fun _ => x.holders
      else some (-1, m, x)
  | .dev (.close file) =>
      if p ∈ x.holders file then
        let rest := (x.holders file).erase p
        if rest = [] then x.pass K a m (.close file) fun _ => Function.update x.holders file []
        else some (0, m, { x with holders := Function.update x.holders file rest })
      else some (-1, m, x)
  | .random addr n =>
      match a.random with
      | none => some (-1, m, { x with starved := true })
      | some bytes =>
          match m.space.copyTo m.user addr (bytes.take n) with
          | some user => some ((bytes.take n).length, { m with user }, x)
          | none => some (-1, m, x)
  | .fork => if a.forks then some (0, m, x) else some (-1, m, { x with starved := true })

-- A copy of a process has its files.
def Shared.split (x : Shared τ) (p q : Nat) : Shared τ :=
  { x with holders := fun file => if p ∈ x.holders file then q :: x.holders file else x.holders file }

def sharing : Service (Shared τ) Setting Process UserCall Int where
  serve := Shared.serve K
  split := Shared.split

end Calls

section Views

-- What a process has: its files, with the sessions that it got in each, and whether
-- a call has failed for it.
structure View where
  files : Nat → Option (Nat → Option Session)
  failed : Bool

def View.nobody : View := ⟨fun _ => none, false⟩

-- A copy has no sessions of its own.
def View.child (v : View) : View := { v with files := fun file => (v.files file).map fun _ _ => none }

-- What the structures of a process say.
def sessionOp (m : Process) (arg : Nat) : SessionOp := SessionOp.parse (m.space.read m.user arg SESSION_OP_SIZE)
def cryptOp (m : Process) (arg : Nat) : CryptOp := CryptOp.parse (m.space.read m.user arg CRYPT_OP_SIZE)

def sessionAt (m : Process) (arg : Nat) : Session :=
  let op := sessionOp m arg
  ⟨op.cipher, 0, m.space.read m.user op.key op.keylen, []⟩

def Readable (m : Process) (addr n : Nat) : Prop := (m.space.copyFrom m.user addr n).isSome
def Writable (m : Process) (addr n : Nat) : Prop := ∀ i < n, m.space.writable (addr + i) = true

-- A cipher: of a session, a direction, an initialization vector, and what it is applied to.
abbrev CipherOf := Session → Nat → List Byte → List Byte → List Byte

-- The calls that a process makes properly, which may be for the device only.
def Proper (minor : Nat) (random : Prop) (v : View) (m : Process) : UserCall → Prop
  | .dev (.openDev n) => n = minor
  | .dev (.close file) => (v.files file).isSome
  | .dev (.ioctl file cmd arg) => ∃ t, v.files file = some t ∧
      (cmd = CIOCGSESSION ∧ Readable m arg SESSION_OP_SIZE ∧
          Readable m (sessionOp m arg).key (sessionOp m arg).keylen ∧ (sessionOp m arg).mac = 0 ∧
          Writable m arg SESSION_OP_SIZE ∨
        cmd = CIOCCRYPT ∧ Readable m arg CRYPT_OP_SIZE ∧ Readable m (cryptOp m arg).src (cryptOp m arg).len ∧
          Readable m (cryptOp m arg).iv IV_SIZE ∧ (cryptOp m arg).mac = 0 ∧ (cryptOp m arg).flags = 0 ∧
          Writable m (cryptOp m arg).dst (cryptOp m arg).len ∧ (t (cryptOp m arg).ses).isSome ∨
        cmd = CIOCFSESSION ∧ Readable m arg 12 ∧ (t (fromLe (m.space.read m.user arg 4))).isSome)
  | .random addr n => random ∧ Writable m addr n
  | .fork => random

-- What it finds afterwards.
def Granted (cipher : CipherOf) (v : View) (m : Process) (ret : Int) (m' : Process) (v' : View) : UserCall → Prop
  | .dev (.openDev _) => m' = m ∧
      (0 ≤ ret → v.files ret.toNat = none ∧ v'.files = Function.update v.files ret.toNat (some fun _ => none)) ∧
      (ret < 0 → v'.files = v.files ∧ v'.failed = true)
  | .dev (.close file) => m' = m ∧ v'.files = Function.update v.files file none ∧ (ret ≠ 0 → v'.failed = true)
  | .dev (.ioctl file cmd arg) => m'.space = m.space ∧ (ret ≠ 0 → v'.files = v.files ∧ v'.failed = true) ∧
      ∀ t, v.files file = some t → ret = 0 →
        (cmd = CIOCGSESSION → (∀ q, (∀ i < SESSION_OP_SIZE, m.space.byteAt (arg + i) ≠ q) → m'.user q = m.user q) ∧
          ∃ ses < 2 ^ 32, t ses = none ∧ m.space.read m'.user (arg + SES_OFF) 4 = le 4 ses ∧
            v'.files = Function.update v.files file (some (Function.update t ses (some (sessionAt m arg))))) ∧
        (cmd = CIOCCRYPT → v'.files = v.files ∧ ∀ session, t (cryptOp m arg).ses = some session →
          let op := cryptOp m arg
          let dst := cipher session op.op (m.space.read m.user op.iv IV_SIZE) (m.space.read m.user op.src op.len)
          dst.length = op.len ∧ m'.user = m.space.write m.user op.dst dst) ∧
        (cmd = CIOCFSESSION → m' = m ∧
          v'.files = Function.update v.files file (some (Function.update t (fromLe (m.space.read m.user arg 4)) none)))
  | .random addr n => v'.files = v.files ∧ (ret < 0 → v'.failed = true) ∧ (0 ≤ ret →
      ∃ bytes : List Byte, bytes.length ≤ n ∧ m' = { m with user := m.space.write m.user addr bytes })
  | .fork => m' = m ∧ v'.files = v.files ∧ (ret < 0 → v'.failed = true)

-- A process leaves no file open, and it fails only when a call has failed.
def View.Left (v : View) (status : Nat) : Prop := (∀ file, v.files file = none) ∧ (status ≠ 0 → v.failed = true)

def contract (cipher : CipherOf) (minor : Nat) (random : Prop) : Contract View Process UserCall Int where
  pre := fun v c m => Proper minor random v m c
  post := fun v c m ret m' v' => (v.failed = true → v'.failed = true) ∧ Granted cipher v m ret m' v' c
  dead := fun v _ => v.Left 1
  child := View.child

end Views

end CryptodevChat.User
