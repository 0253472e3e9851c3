import CryptodevChat.Chat.Cipher
import CryptodevChat.Lib.Run

namespace CryptodevChat.Server

open Lib (Byte be fromBe)
open Chat (MAX_CLIENTS DATA_SIZE pad)

-- The mode of the server, and what `/dev/crypto` makes of a block. Its calls succeed.
structure Cfg where
  encrypted : Bool
  enc : List Byte → List Byte
  dec : List Byte → List Byte

def plain : Cfg := ⟨false, id, id⟩

inductive Endpoint
  | tty
  | listener
  | conn (k : Nat)
  deriving DecidableEq, Repr

-- A frame that a thread has sent completely: which one, and its bytes.
structure Delivery where
  thread : Nat
  frame : Nat
  data : List Byte
  deriving DecidableEq, Repr

-- A connection: what has arrived and was not read, whether the peer is still
-- there, what was written to it. No step depends on what was read before
-- (`taken`), nor on the list of the frames that were sent to the end (`log`).
structure Conn where
  pending : List Byte
  up : Bool
  sent : List Byte
  taken : List Byte
  log : List Delivery
  deriving DecidableEq, Repr

-- The buffer of `forward` with the size that its frame announces.
structure Msg where
  size : Nat
  buf : List Byte
  deriving DecidableEq, Repr

-- Where a service thread is.
inductive Pc
  | start
  | loadSd
  | head (got : List Byte)
  | body (size : Nat) (got : List Byte)
  | display (msg : Msg) (rest : List Byte)
  | test (msg : Msg) (client : Nat)
  | wait (msg : Msg) (client : Nat)
  | hold (msg : Msg) (client : Nat)
  | send (msg : Msg) (client fd : Nat) (data rest : List Byte)
  | post (msg : Msg) (client : Nat)
  | leave
  | gone
  deriving DecidableEq, Repr

-- A service thread. No step depends on the last three: the frames that it
-- read, the value of `no_client` when it began to distribute each of them,
-- and the client at which each distribution ended.
structure Thread where
  pc : Pc
  me : Nat
  clientSd : Nat
  frames : List (List Byte)
  began : List Nat
  ends : List Nat
  deriving DecidableEq, Repr

def Thread.create : Thread := ⟨.start, 0, 0, [], [], []⟩

-- Where the accept loop is.
inductive MainPc
  | accept
  | setId
  | semInit
  | create
  | count
  deriving DecidableEq, Repr

-- `locks` are the semaphores that were initialized, and `closed` what the
-- threads closed at their end.
structure State where
  mainPc : MainPc
  noClient : Nat
  clientId : Nat
  newsdServe : Nat → Nat
  locks : Nat → Option Nat
  threads : Nat → Option Thread
  fds : Nat → Option Endpoint
  conns : Nat → Conn
  nconn : Nat
  closed : List (Nat × Option Endpoint)
  exited : Bool
  fault : Bool

def State.boot : State where
  mainPc := .accept
  noClient := 0
  clientId := 0
  newsdServe := fun _ => 0
  locks := fun _ => none
  threads := fun _ => none
  fds := fun fd => if fd < 3 then some .tty else if fd = 3 then some .listener else none
  conns := fun _ => ⟨[], true, [], [], []⟩
  nconn := 0
  closed := []
  exited := false
  fault := false

-- How the call that a thread makes returns; `go` stands for its other steps.
inductive Op
  | go
  | read (n : Nat)
  | eof
  | reset
  | write (n : Nat)
  | pipe
  | badf
  deriving DecidableEq, Repr

inductive Act
  | main
  | accept (fd : Nat)
  | thread (t : Nat) (op : Op)
  | arrive (k : Nat) (data : List Byte)
  | hangup (k : Nat)
  deriving DecidableEq, Repr

section Threads

def State.put (s : State) (t : Nat) (th : Thread) : State :=
  { s with threads := Function.update s.threads t (some th) }

def State.setConn (s : State) (k : Nat) (c : Conn) : State :=
  { s with conns := Function.update s.conns k c }

def State.exit (s : State) : State := { s with exited := true }
def State.crash (s : State) : State := { s with fault := true }

-- One `read` of `insist_read`: the end of file ends the service, an error the process.
def State.receive (s : State) (t : Nat) (th : Thread) (got : List Byte) (total : Nat)
    (next : List Byte → Pc) (op : Op) : Option State :=
  if got.length < total then
    match s.fds th.clientSd, op with
    | some (.conn k), .read n =>
        let c := s.conns k
        if 0 < n ∧ got.length + n ≤ total ∧ n ≤ c.pending.length then
          some ((s.put t { th with pc := next (got ++ c.pending.take n) }).setConn k
            { c with pending := c.pending.drop n, taken := c.taken ++ c.pending.take n })
        else none
    | some (.conn k), .eof =>
        if (s.conns k).pending = [] ∧ (s.conns k).up = false then
          some (s.put t { th with pc := .leave })
        else none
    | some (.conn k), .reset => if (s.conns k).up = false then some s.exit else none
    | none, .badf => some s.exit
    | _, _ => none
  else none

-- One `write` of `insist_write`. What goes to a terminal is not looked at.
def State.transmit (s : State) (t : Nat) (th : Thread) (fd : Nat) (rest : List Byte)
    (next : List Byte → Pc) (op : Op) : Option State :=
  if rest = [] then none
  else
    match s.fds fd, op with
    | some (.conn k), .write n =>
        let c := s.conns k
        if 0 < n ∧ n ≤ rest.length then
          some ((s.put t { th with pc := next (rest.drop n) }).setConn k
            { c with sent := c.sent ++ rest.take n })
        else none
    | some .tty, .write n =>
        if 0 < n ∧ n ≤ rest.length then some (s.put t { th with pc := next (rest.drop n) }) else none
    | some (.conn k), .pipe => if (s.conns k).up = false then some s.exit else none
    | none, .badf => some s.exit
    | _, _ => none

def Cfg.headSize (cfg : Cfg) : Nat := if cfg.encrypted then DATA_SIZE else 4

-- After the first `insist_read` of `forward`. An announced size of zero makes
-- the second one return zero; a size that a block cannot hold is an access
-- beyond it.
def Cfg.parse (cfg : Cfg) (s : State) (t : Nat) (th : Thread) (got : List Byte) : State :=
  if cfg.encrypted then
    let buf := cfg.dec got
    let size := fromBe (buf.take 4)
    if size + 4 ≤ DATA_SIZE then
      s.put t { th with
        pc := .display ⟨size, buf⟩ ((buf.drop 4).take size)
        frames := th.frames ++ [got] }
    else s.crash
  else if fromBe got = 0 then s.put t { th with pc := .leave }
  else s.put t { th with pc := .body (fromBe got) [] }

-- What a round sends to a client. Encryption is in place.
def Cfg.data (cfg : Cfg) (msg : Msg) : List Byte :=
  if cfg.encrypted then cfg.enc (pad (msg.buf.take (msg.size + 4))) else msg.buf.take (msg.size + 4)

def Cfg.after (cfg : Cfg) (msg : Msg) : Msg :=
  if cfg.encrypted then { msg with buf := cfg.data msg } else msg

-- `client_service` and `forward`, one access to a shared variable at a time.
def Cfg.threadStep (cfg : Cfg) (s : State) (t : Nat) (th : Thread) (op : Op) : Option State :=
  match th.pc, op with
  | .start, .go => some (s.put t { th with me := s.clientId, pc := .loadSd })
  | .loadSd, .go =>
      if th.me < MAX_CLIENTS then
        some (s.put t { th with clientSd := s.newsdServe th.me, pc := .head [] })
      else some s.crash
  | .head got, .go => if got.length = cfg.headSize then some (cfg.parse s t th got) else none
  | .head got, op => s.receive t th got cfg.headSize .head op
  | .body size got, .go =>
      if got.length = size then
        some (s.put t { th with
          pc := .display ⟨size, be 4 size ++ got⟩ got
          frames := th.frames ++ [be 4 size ++ got] })
      else none
  | .body size got, op => s.receive t th got size (.body size) op
  | .display msg rest, .go =>
      if rest = [] then
        some (s.put t { th with pc := .test msg 0, began := th.began ++ [s.noClient] })
      else none
  | .display msg rest, op => s.transmit t th 0 rest (.display msg) op
  | .test msg client, .go =>
      if client < s.noClient then
        if client = th.me then some (s.put t { th with pc := .test msg (client + 1) })
        else some (s.put t { th with pc := .wait msg client })
      else some (s.put t { th with pc := .head [], ends := th.ends ++ [client] })
  | .wait msg client, .go =>
      match s.locks client with
      | none => some s.crash
      | some 0 => none
      | some (n + 1) =>
          some { s.put t { th with pc := .hold msg client } with
            locks := Function.update s.locks client (some n) }
  | .hold msg client, .go =>
      some (s.put t { th with
        pc := .send (cfg.after msg) client (s.newsdServe client) (cfg.data msg) (cfg.data msg) })
  | .send msg client fd data rest, .go =>
      if rest = [] then
        match s.fds fd with
        | some (.conn k) =>
            let c := s.conns k
            some ((s.put t { th with pc := .post msg client }).setConn k
              { c with log := c.log ++ [⟨t, th.frames.length - 1, data⟩] })
        | _ => some (s.put t { th with pc := .post msg client })
      else none
  | .send msg client fd data rest, op => s.transmit t th fd rest (.send msg client fd data) op
  | .post msg client, .go =>
      some { s.put t { th with pc := .test msg (client + 1) } with
        locks := Function.update s.locks client ((s.locks client).map (· + 1)) }
  | .leave, .go =>
      if s.noClient < MAX_CLIENTS then
        let fd := s.newsdServe s.noClient
        some { s.put t { th with pc := .gone } with
          fds := Function.update s.fds fd none
          closed := s.closed ++ [(t, s.fds fd)] }
      else some s.crash
  | _, _ => none

end Threads

-- The accept loop between two calls of `accept`.
def State.mainStep (s : State) : Option State :=
  match s.mainPc with
  | .accept => none
  | .setId => some { s with clientId := s.noClient, mainPc := .semInit }
  | .semInit =>
      some { s with locks := Function.update s.locks s.noClient (some 1), mainPc := .create }
  | .create => some { s.put s.noClient Thread.create with mainPc := .count }
  | .count => some { s with noClient := s.noClient + 1, mainPc := .accept }

-- A new connection gets any descriptor that is not open.
def State.acceptStep (s : State) (fd : Nat) : Option State :=
  if s.mainPc = .accept ∧ s.fds fd = none then
    if s.noClient < MAX_CLIENTS then
      some { s with
        newsdServe := Function.update s.newsdServe s.noClient fd
        fds := Function.update s.fds fd (some (.conn s.nconn))
        nconn := s.nconn + 1
        mainPc := .setId }
    else some s.crash
  else none

def Cfg.step (cfg : Cfg) (s : State) (a : Act) : Option State :=
  if s.exited ∨ s.fault then none
  else
    match a with
    | .main => s.mainStep
    | .accept fd => s.acceptStep fd
    | .thread t op =>
        match s.threads t with
        | some th => cfg.threadStep s t th op
        | none => none
    | .arrive k data =>
        if k < s.nconn ∧ (s.conns k).up = true then
          some (s.setConn k { s.conns k with pending := (s.conns k).pending ++ data })
        else none
    | .hangup k => if k < s.nconn then some (s.setConn k { s.conns k with up := false }) else none

end CryptodevChat.Server
