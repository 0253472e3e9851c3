import CryptodevChat.Lib.Bytes
import CryptodevChat.Lib.Buffer
import CryptodevChat.Lib.Channel
import Mathlib.Logic.Function.Basic

namespace CryptodevChat.Chat

open Lib

def MAX_CLIENTS : Nat := 10
def BUFF_SIZE : Nat := 300
def DATA_SIZE : Nat := 256
def BLOCK_SIZE : Nat := 16
def KEY_SIZE : Nat := 16

-- A block has room for a size in front, and `my_rlhandler`'s buffer has room for a block.
theorem block_pos : 0 < DATA_SIZE := by decide
theorem header_le_block : 4 ≤ DATA_SIZE := by decide
theorem block_le_buff : DATA_SIZE ≤ BUFF_SIZE := by decide

def CRYPTO_AES_CBC : Nat := 11
def COP_ENCRYPT : Nat := 0
def COP_DECRYPT : Nat := 1

-- How a call may end other than by returning: `exit(status)`, an access
-- outside an object, or a `sem_wait` that nothing will release.
inductive Stop
  | exit (status : Nat)
  | fault
  | blocked
  deriving DecidableEq, Repr

-- What the descriptors of the process will deliver and have been given, and
-- the values of the semaphores `locks`.
structure World where
  inp : Nat → Source Byte
  out : Nat → Sink Byte
  locks : Nat → Nat

abbrev Proc := EStateM Stop World

-- The answers of `/dev/crypto`; `none` and `false` are failing calls.
structure Cryptodev where
  openDev : Bool
  gsession : (cipher : Nat) → (key : List Byte) → Option Nat
  crypt : (ses op : Nat) → (src iv : List Byte) → Option (List Byte)
  fsession : (ses : Nat) → Bool
  closeDev : Bool

-- Storage starts with contents that the program has not written.
structure Env where
  encrypted : Bool
  dev : Cryptodev
  mallocs : Nat → Bool
  junk : Nat → List Byte
  junk_length : ∀ n, (junk n).length = n

def exit {α : Type} (status : Nat) : Proc α := throw (.exit status)

def peek (cells : List Byte) (off len : Nat) : Proc (List Byte) :=
  match load cells off len with
  | some data => pure data
  | none => throw .fault

def poke (cells : List Byte) (off : Nat) (data : List Byte) : Proc (List Byte) :=
  match store cells off data with
  | some cells => pure cells
  | none => throw .fault

def Env.malloc (env : Env) (size : Nat) : Option (List Byte) :=
  if env.mallocs size then some (env.junk size) else none

def read (fd count : Nat) : Proc (Except Nat (List Byte)) := fun w =>
  .ok ((w.inp fd).read count).1
    { w with inp := Function.update w.inp fd ((w.inp fd).read count).2 }

def write (fd : Nat) (data : List Byte) : Proc (Except Nat Nat) := fun w =>
  .ok ((w.out fd).write data).1
    { w with out := Function.update w.out fd ((w.out fd).write data).2 }

def insistWriteLoop (fd orig : Nat) : Nat → List Byte → Proc Int
  | 0, _ => pure orig
  | fuel + 1, data => do
      if data = [] then return orig
      match ← write fd data with
      | .error _ => return -1
      | .ok n => insistWriteLoop fd orig fuel (data.drop n)

-- Insist until all of the data has been written.
def insistWrite (fd : Nat) (data : List Byte) : Proc Int :=
  insistWriteLoop fd data.length data.length data

def insistReadLoop (fd orig : Nat) :
    Nat → List Byte → Nat → Nat → Proc (Int × List Byte)
  | 0, buf, _, _ => pure (orig, buf)
  | fuel + 1, buf, off, count => do
      if count = 0 then return (orig, buf)
      match ← read fd count with
      | .error _ => return (-1, buf)
      | .ok [] => return (0, buf)
      | .ok (x :: xs) =>
          let buf ← poke buf off (x :: xs)
          insistReadLoop fd orig fuel buf (off + (x :: xs).length) (count - (x :: xs).length)

def insistRead (fd : Nat) (buf : List Byte) (off count : Nat) : Proc (Int × List Byte) :=
  insistReadLoop fd count count buf off count

def iv : List Byte := List.replicate BLOCK_SIZE 0x31
def key : List Byte := (List.range KEY_SIZE).map fun i => UInt8.ofNat (0x30 + i)

-- `encrypt` and `decrypt` open the device and get a session before they fill `data.in`.
def openSession (dev : Cryptodev) : Proc Nat :=
  if !dev.openDev then exit 1
  else match dev.gsession CRYPTO_AES_CBC key with
    | none => exit 1
    | some ses => return ses

-- What they do with `data.in` differs only in the direction.
def cryptBlock (dev : Cryptodev) (ses op : Nat) (src buffer : List Byte) : Proc (List Byte) := do
  match dev.crypt ses op src iv with
  | none => exit 1
  | some dst =>
      let buffer ← poke buffer 0 dst
      if !dev.fsession ses then exit 1
      else if !dev.closeDev then exit 1
      else return buffer

def encrypt (env : Env) (buffer : List Byte) (encS : Nat) : Proc (List Byte) := do
  let ses ← openSession env.dev
  let message ← peek buffer 0 encS
  let block ← poke (env.junk DATA_SIZE) 0 message
  let block ← poke block encS (List.replicate (DATA_SIZE - encS) 0x30)
  cryptBlock env.dev ses COP_ENCRYPT block buffer

def decrypt (env : Env) (buffer : List Byte) : Proc (List Byte) := do
  let ses ← openSession env.dev
  let block ← peek buffer 0 DATA_SIZE
  cryptBlock env.dev ses COP_DECRYPT block buffer

-- Write message to stdout.
def display (buf : List Byte) (off size : Nat) : Proc Unit := do
  let message ← peek buf off size
  let n ← insistWrite 0 message
  if n ≠ size then exit 1 else return ()

def getAndPrint (env : Env) (buf : List Byte) (sd : Nat) : Proc (Int × List Byte) := do
  if env.encrypted then
    let (n, buf) ← insistRead sd buf 0 DATA_SIZE
    if n < 0 then exit 1
    else if n ≤ 0 then return (1, buf)
    else
      let buf ← decrypt env buf
      let size ← peek buf 0 4
      display buf 4 (fromBe size)
      return (0, buf)
  else
    let (n, size) ← insistRead sd (env.junk 4) 0 4
    if n < 0 then exit 1
    else if n ≤ 0 then return (1, buf)
    else
      let (n, buf) ← insistRead sd buf 0 (fromBe size)
      if n < 0 then exit 1
      else if n ≤ 0 then return (1, buf)
      else
        display buf 0 (fromBe size)
        return (0, buf)

-- A C string: its bytes, without the NUL that ends it in memory.
structure CString where
  bytes : List Byte
  nulFree : 0 ∉ bytes

def CString.cells (s : CString) : List Byte := s.bytes ++ [0]
def CString.strlen (s : CString) : Nat := s.bytes.length

-- `readline` hands over no string at end of file. The result of `malloc` is not checked.
def myRlhandler (env : Env) (prompt : CString) (newsd : Nat) (line : Option CString) :
    Proc Unit := do
  match line with
  | none => return ()
  | some line =>
      let len := line.strlen
      let nameLen := prompt.strlen
      if line.cells.head? = some 0 then return ()
      else match env.malloc BUFF_SIZE with
        | none => throw .fault
        | some message =>
            let message ← poke message 0 (be 4 (len + nameLen + 1))
            let message ← poke message 4 prompt.cells
            let message ← poke message (nameLen + 4) line.cells
            let message ← poke message (len + nameLen + 4) [0x0a]
            if env.encrypted then
              let message ← encrypt env message (len + nameLen + 4 + 1)
              let data ← peek message 0 DATA_SIZE
              let n ← insistWrite newsd data
              if n ≠ DATA_SIZE then exit 1 else return ()
            else
              let data ← peek message 0 (len + nameLen + 4 + 1)
              let n ← insistWrite newsd data
              if n ≠ (len + nameLen + 4 + 1 : Nat) then exit 1 else return ()

end CryptodevChat.Chat
