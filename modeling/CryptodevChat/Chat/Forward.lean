import CryptodevChat.Chat.Common

namespace CryptodevChat.Chat

open Lib

-- The tables of socket-server-irc as one call of `forward` sees them.
structure Clients where
  newsdServe : Nat → Nat
  noClient : Nat

-- The server between two calls of `forward`: every client has its own
-- descriptor and a free semaphore.
structure Tables (clients : Clients) (w : World) : Prop where
  table : clients.noClient ≤ MAX_CLIENTS
  distinct : ∀ i < clients.noClient, ∀ j < clients.noClient,
    clients.newsdServe i = clients.newsdServe j → i = j
  notStdout : ∀ i < clients.noClient, clients.newsdServe i ≠ 0
  free : ∀ i < clients.noClient, w.locks i = 1

-- The size that the first four bytes announce.
def headerSize (bytes : List Byte) : Nat := fromBe (bytes.take 4)

def semWait (client : Nat) : Proc Unit := fun w =>
  if w.locks client = 0 then .error .blocked w
  else .ok () { w with locks := Function.update w.locks client (w.locks client - 1) }

def semPost (client : Nat) : Proc Unit := fun w =>
  .ok () { w with locks := Function.update w.locks client (w.locks client + 1) }

-- One round of the distribution loop. The buffer is encrypted in place.
def sendTo (env : Env) (fd size : Nat) (buf : List Byte) : Proc (List Byte) := do
  if env.encrypted then
    let buf ← encrypt env buf (size + 4)
    let data ← peek buf 0 DATA_SIZE
    let n ← insistWrite fd data
    if n ≠ DATA_SIZE then exit 1 else return buf
  else
    let data ← peek buf 0 (size + 4)
    let n ← insistWrite fd data
    if n ≠ (size + 4 : Nat) then exit 1 else return buf

def distribute (env : Env) (clients : Clients) (me size : Nat) :
    List Nat → List Byte → Proc Unit
  | [], _ => return ()
  | client :: rest, buf => do
      if client = me then distribute env clients me size rest buf
      else
        semWait client
        let buf ← sendTo env (clients.newsdServe client) size buf
        semPost client
        distribute env clients me size rest buf

-- The part of `forward` after the frame has been read.
def relay (env : Env) (clients : Clients) (me size : Nat) (buf : List Byte) : Proc Int := do
  display buf 4 size
  distribute env clients me size (List.range clients.noClient) buf
  return 0

-- A pointer has eight bytes, so `malloc(sizeof(buf) * n)` is a block of 8 * n bytes.
def forward (env : Env) (clients : Clients) (sd me : Nat) : Proc Int := do
  if env.encrypted then
    match env.malloc (8 * BUFF_SIZE) with
    | none => exit 1
    | some buf =>
        let (n, buf) ← insistRead sd buf 0 DATA_SIZE
        if n < 0 then exit 1
        else if n ≤ 0 then return 1
        else
          let buf ← decrypt env buf
          let size ← peek buf 0 4
          relay env clients me (fromBe size) buf
  else
    let (n, size) ← insistRead sd (env.junk 4) 0 4
    if n < 0 then exit 1
    else if n ≤ 0 then return 1
    else
      match env.malloc (8 * (fromBe size + 4)) with
      | none => exit 1
      | some buf =>
          let buf ← poke buf 0 (be 4 (fromBe size))
          let (n, buf) ← insistRead sd buf 4 (fromBe size)
          if n < 0 then exit 1
          else if n ≤ 0 then return 1
          else relay env clients me (fromBe size) buf

end CryptodevChat.Chat
