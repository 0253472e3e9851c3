import CryptodevChat.Chat.EventLoop

namespace CryptodevChat.Dialogue

open Lib
open Chat
open EventLoop (Select)

-- The two programs of a conversation, which have the same loop around `select`.
inductive Peer
  | client
  | server
  deriving DecidableEq, Repr

def Peer.other : Peer → Peer
  | .client => .server
  | .server => .client

@[simp] theorem Peer.other_other (p : Peer) : p.other.other = p := by cases p <;> rfl
@[simp] theorem Peer.other_ne (p : Peer) : p.other ≠ p := by cases p <;> decide
@[simp] theorem Peer.ne_other (p : Peer) : p ≠ p.other := p.other_ne.symm

theorem Peer.eq_or_other (p q : Peer) : p = q ∨ p = q.other := by
  cases p <;> cases q <;> simp [other]

-- Where a program waits: at `select`, in `insist_write` of `my_rlhandler` with what is left
-- to write, in the first or the second `insist_read` of `get_and_print` with the place and
-- the number of the bytes to come, or in its `insist_write`. `conn` is FD_ISSET(newsd, &fds).
-- In the end it has left the loop, has stopped, or was killed.
inductive Pc
  | select
  | send (rest : List Byte) (conn : Bool)
  | head (cells : List Byte) (off count : Nat)
  | body (size off count : Nat)
  | display (rest : List Byte)
  | left
  | stopped (e : Stop)
  | killed
  deriving DecidableEq

def Pc.over : Pc → Bool
  | .left | .stopped _ | .killed => true
  | _ => false

def Pc.stop : Pc → Option Stop
  | .stopped e => some e
  | _ => none

-- `buf` is the array of `main`.
structure Party where
  pc : Pc
  buf : List Byte

-- What a piece of code comes to that makes no calls on descriptors.
def answer {α : Type} (x : Proc α) : Except Stop α :=
  match x World.fresh with
  | .ok a _ => .ok a
  | .error e _ => .error e

section Programs

variable (env : Env) (prompt : CString)

-- The bytes with which `my_rlhandler` comes to `insist_write`.
def outgoing (line : CString) : Proc (List Byte) :=
  match env.malloc BUFF_SIZE with
  | none => throw .fault
  | some message => do
      let len := line.strlen
      let nameLen := prompt.strlen
      let message ← poke message 0 (be 4 (len + nameLen + 1))
      let message ← poke message 4 prompt.cells
      let message ← poke message (nameLen + 4) line.cells
      let message ← poke message (len + nameLen + 4) [0x0a]
      if env.encrypted then
        let message ← encrypt env message (len + nameLen + 4 + 1)
        peek message 0 DATA_SIZE
      else peek message 0 (len + nameLen + 4 + 1)

def headSize : Nat := if env.encrypted then DATA_SIZE else 4

-- After the test of descriptor 0 comes the one of the connection.
def resume (conn : Bool) (buf : List Byte) : Party :=
  if conn then ⟨.head (if env.encrypted then buf else env.junk 4) 0 (headSize env), buf⟩
  else ⟨.select, buf⟩

def sending (rest : List Byte) (conn : Bool) (buf : List Byte) : Party :=
  if rest = [] then resume env conn buf else ⟨.send rest conn, buf⟩

def begin (line : Option (Option CString)) (conn : Bool) (buf : List Byte) : Party :=
  match line with
  | none | some none => resume env conn buf
  | some (some line) =>
      if line.cells.head? = some 0 then resume env conn buf
      else match answer (outgoing env prompt line) with
        | .error e => ⟨.stopped e, buf⟩
        | .ok data => sending env data conn buf

def showing (rest buf : List Byte) : Party :=
  if rest = [] then ⟨.select, buf⟩ else ⟨.display rest, buf⟩

def showFrom (buf : List Byte) (off size : Nat) : Party :=
  match load buf off size with
  | none => ⟨.stopped .fault, buf⟩
  | some message => showing message buf

-- After the first `insist_read`. A size of zero makes the second one return zero.
def parse (cells buf : List Byte) : Party :=
  if env.encrypted then
    match answer (decrypt env cells) with
    | .error e => ⟨.stopped e, buf⟩
    | .ok buf =>
        match load buf 0 4 with
        | none => ⟨.stopped .fault, buf⟩
        | some size => showFrom buf 4 (fromBe size)
  else if fromBe cells = 0 then ⟨.left, buf⟩
  else ⟨.body (fromBe cells) 0 (fromBe cells), buf⟩

-- A `read` has given some bytes.
def received (p : Party) (data : List Byte) : Party :=
  match p.pc with
  | .head cells off count =>
      match store cells off data with
      | none => ⟨.stopped .fault, p.buf⟩
      | some cells =>
          if data.length = count then parse env cells p.buf
          else ⟨.head cells (off + data.length) (count - data.length), p.buf⟩
  | .body size off count =>
      match store p.buf off data with
      | none => ⟨.stopped .fault, p.buf⟩
      | some buf =>
          if data.length = count then showFrom buf 0 size
          else ⟨.body size (off + data.length) (count - data.length), buf⟩
  | _ => p

-- A `read` has met the end of the stream.
def hungUp (p : Party) : Party :=
  match p.pc with
  | .head cells _ _ => ⟨.left, if env.encrypted then cells else p.buf⟩
  | _ => ⟨.left, p.buf⟩

end Programs

-- One direction of the connection: what was read of it, and what is on its way.
structure Wire where
  taken : List Byte
  held : List Byte

def Wire.sent (w : Wire) : List Byte := w.taken ++ w.held

-- `wire p` is what `p` writes, and `shown p` what its terminal was given. No step depends
-- on what was read or shown, nor on the lines that were typed.
structure State where
  party : Peer → Party
  wire : Peer → Wire
  shown : Peer → List Byte
  lines : Peer → List CString

-- The modes and devices of both ends, their prompts, their descriptors of the connection,
-- and how many bytes each direction of it holds.
structure Setup where
  env : Peer → Env
  prompt : Peer → CString
  newsd : Peer → Nat
  cap : Peer → Nat
  newsd_pos : ∀ p, 0 < newsd p

-- How the call of a program returns. Anybody may be killed at any time, as by the
-- signal for a write to a connection that is closed.
inductive Op
  | select (o : Select)
  | read (t : Transfer)
  | write (t : Transfer)
  | display (t : Transfer)
  | kill

abbrev Act := Peer × Op

section Steps

def State.put (s : State) (p : Peer) (party : Party) : State :=
  { s with party := Function.update s.party p party }

def State.setWire (s : State) (p : Peer) (w : Wire) : State :=
  { s with wire := Function.update s.wire p w }

def State.show (s : State) (p : Peer) (data : List Byte) : State :=
  { s with shown := Function.update s.shown p (s.shown p ++ data) }

def State.hear (s : State) (p : Peer) (line : Option (Option CString)) : State :=
  match line with
  | some (some line) => { s with lines := Function.update s.lines p (s.lines p ++ [line]) }
  | _ => s

def State.exit (s : State) (p : Peer) : State := s.put p ⟨.stopped (.exit 1), (s.party p).buf⟩

-- A program that is over has closed its end.
def State.readable (s : State) (p : Peer) : Bool :=
  (s.wire p.other).held ≠ [] || (s.party p.other).pc.over

variable (c : Setup)

def Setup.boot : State where
  party := fun p => ⟨.select, (c.env p).junk BUFF_SIZE⟩
  wire := fun _ => ⟨[], []⟩
  shown := fun _ => []
  lines := fun _ => []

-- A `read` for up to so many bytes blocks as long as nothing has come.
def Setup.readStep (s : State) (p : Peer) (count : Nat) : Transfer → Option State
  | .fail _ => some (s.exit p)
  | .upTo n =>
      let w := s.wire p.other
      if 0 < n ∧ n ≤ count ∧ s.readable p then
        if w.held = [] then some (s.put p (hungUp (c.env p) (s.party p)))
        else if n ≤ w.held.length then
          some ((s.put p (received (c.env p) (s.party p) (w.held.take n))).setWire p.other
            ⟨w.taken ++ w.held.take n, w.held.drop n⟩)
        else none
      else none

def Setup.step (s : State) (a : Act) : Option State :=
  let p := a.1
  let party := s.party p
  match party.pc, a.2 with
  | .select, .select (.failed _) => some (s.exit p)
  | .select, .select (.ready line conn) =>
      if conn = s.readable p then
        some ((s.put p (begin (c.env p) (c.prompt p) line conn party.buf)).hear p line)
      else none
  | .send _ _, .write (.fail _) => some (s.exit p)
  | .send rest conn, .write (.upTo n) =>
      let w := s.wire p
      if 0 < n ∧ n ≤ rest.length ∧ w.held.length + n ≤ c.cap p then
        some ((s.put p (sending (c.env p) (rest.drop n) conn party.buf)).setWire p
          ⟨w.taken, w.held ++ rest.take n⟩)
      else none
  | .display _, .display (.fail _) => some (s.exit p)
  | .display rest, .display (.upTo n) =>
      if 0 < n ∧ n ≤ rest.length then
        some ((s.put p (showing (rest.drop n) party.buf)).show p (rest.take n))
      else none
  | .head _ _ count, .read t => c.readStep s p count t
  | .body _ _ count, .read t => c.readStep s p count t
  | pc, .kill => if pc.over then none else some (s.put p ⟨.killed, party.buf⟩)
  | _, _ => none

end Steps

-- The number of bytes that a `read` asks for.
def Pc.asks : Pc → Option Nat
  | .head _ _ count | .body _ _ count => some count
  | _ => none

-- A call at this place that fails.
inductive Fails : Pc → Op → Prop
  | select (errno : Nat) : Fails .select (.select (.failed errno))
  | send (rest : List Byte) (conn : Bool) (errno : Nat) : Fails (.send rest conn) (.write (.fail errno))
  | display (rest : List Byte) (errno : Nat) : Fails (.display rest) (.display (.fail errno))
  | read (pc : Pc) (count errno : Nat) (h : pc.asks = some count) : Fails pc (.read (.fail errno))

-- Everything that a step can do.
inductive Setup.Moves (c : Setup) (s : State) : Act → State → Prop
  | selects (p : Peer) (line : Option (Option CString)) (buf : List Byte) (h : s.party p = ⟨.select, buf⟩) :
      c.Moves s (p, .select (.ready line (s.readable p)))
        ((s.put p (begin (c.env p) (c.prompt p) line (s.readable p) buf)).hear p line)
  | writes (p : Peer) (rest : List Byte) (conn : Bool) (buf : List Byte) (n : Nat)
      (h : s.party p = ⟨.send rest conn, buf⟩) (hn : 0 < n) (hle : n ≤ rest.length)
      (hcap : (s.wire p).held.length + n ≤ c.cap p) :
      c.Moves s (p, .write (.upTo n)) ((s.put p (sending (c.env p) (rest.drop n) conn buf)).setWire p
        ⟨(s.wire p).taken, (s.wire p).held ++ rest.take n⟩)
  | shows (p : Peer) (rest buf : List Byte) (n : Nat) (h : s.party p = ⟨.display rest, buf⟩) (hn : 0 < n)
      (hle : n ≤ rest.length) :
      c.Moves s (p, .display (.upTo n)) ((s.put p (showing (rest.drop n) buf)).show p (rest.take n))
  | reads (p : Peer) (count n : Nat) (h : (s.party p).pc.asks = some count) (hn : 0 < n) (hle : n ≤ count)
      (hlen : n ≤ (s.wire p.other).held.length) :
      c.Moves s (p, .read (.upTo n)) ((s.put p (received (c.env p) (s.party p)
        ((s.wire p.other).held.take n))).setWire p.other
        ⟨(s.wire p.other).taken ++ (s.wire p.other).held.take n, (s.wire p.other).held.drop n⟩)
  | ends (p : Peer) (count n : Nat) (h : (s.party p).pc.asks = some count) (hn : 0 < n) (hle : n ≤ count)
      (hempty : (s.wire p.other).held = []) (hover : (s.party p.other).pc.over = true) :
      c.Moves s (p, .read (.upTo n)) (s.put p (hungUp (c.env p) (s.party p)))
  | fails (p : Peer) (op : Op) (h : Fails (s.party p).pc op) : c.Moves s (p, op) (s.exit p)
  | kills (p : Peer) (h : (s.party p).pc.over = false) : c.Moves s (p, .kill) (s.put p ⟨.killed, (s.party p).buf⟩)

theorem readStep_moves {c : Setup} {s s' : State} {p : Peer} {count : Nat} {t : Transfer}
    (hasks : (s.party p).pc.asks = some count) (h : c.readStep s p count t = some s') :
    c.Moves s (p, .read t) s' := by
  cases t with
  | fail errno =>
      cases h
      exact .fails p _ (.read _ count errno hasks)
  | upTo n =>
      simp only [Setup.readStep] at h
      split_ifs at h with hready hempty hlen
      · cases h
        obtain ⟨hn, hle, hreadable⟩ := hready
        refine .ends p count n hasks hn hle hempty ?_
        simpa [State.readable, hempty] using hreadable
      · cases h
        exact .reads p count n hasks hready.1 hready.2.1 hlen

theorem step_moves {c : Setup} {s s' : State} {a : Act} (h : c.step s a = some s') : c.Moves s a s' := by
  obtain ⟨p, op⟩ := a
  unfold Setup.step at h
  dsimp only at h
  cases hparty : s.party p with
  | mk pc buf =>
      simp only [hparty] at h
      split at h
      · cases h
        exact .fails p _ (by rw [hparty]; exact .select _)
      · split_ifs at h with hready
        cases h
        subst hready
        exact .selects p _ buf hparty
      · cases h
        exact .fails p _ (by rw [hparty]; exact .send _ _ _)
      · split_ifs at h with hroom
        cases h
        exact .writes p _ _ buf _ hparty hroom.1 hroom.2.1 hroom.2.2
      · cases h
        exact .fails p _ (by rw [hparty]; exact .display _ _)
      · split_ifs at h with hroom
        cases h
        exact .shows p _ buf _ hparty hroom.1 hroom.2
      · exact readStep_moves (by rw [hparty]; rfl) h
      · exact readStep_moves (by rw [hparty]; rfl) h
      · split_ifs at h with hover
        cases h
        have hkills := Setup.Moves.kills (c := c) p (by rw [hparty]; simpa using hover)
        rwa [hparty] at hkills
      · cases h

section Sound

-- A program waits for something.
def Pc.Sound : Pc → Prop
  | .send rest _ => rest ≠ []
  | .head _ _ count => 0 < count
  | .body size _ count => 0 < size ∧ 0 < count
  | .display rest => rest ≠ []
  | _ => True

-- A second `insist_read` is begun for some bytes only.
def Pc.Sized : Pc → Prop
  | .body size _ _ => 0 < size
  | _ => True

variable (env : Env) (prompt : CString)

theorem headSize_pos : 0 < headSize env := by
  unfold headSize
  split
  · exact block_pos
  · omega

theorem sound_resume (conn : Bool) (buf : List Byte) : (resume env conn buf).pc.Sound := by
  unfold resume
  split
  · exact headSize_pos env
  · trivial

theorem sound_sending (rest : List Byte) (conn : Bool) (buf : List Byte) :
    (sending env rest conn buf).pc.Sound := by
  unfold sending
  split
  · exact sound_resume env conn buf
  · assumption

theorem sound_begin (line : Option (Option CString)) (conn : Bool) (buf : List Byte) :
    (begin env prompt line conn buf).pc.Sound := by
  unfold begin
  split
  · exact sound_resume env conn buf
  · exact sound_resume env conn buf
  · split
    · exact sound_resume env conn buf
    · split
      · trivial
      · exact sound_sending env _ conn buf

theorem sound_showing (rest buf : List Byte) : (showing rest buf).pc.Sound := by
  unfold showing
  split
  · trivial
  · assumption

theorem sound_showFrom (buf : List Byte) (off size : Nat) : (showFrom buf off size).pc.Sound := by
  unfold showFrom
  split
  · trivial
  · exact sound_showing _ _

theorem sound_parse (cells buf : List Byte) : (parse env cells buf).pc.Sound := by
  unfold parse
  split
  · split
    · trivial
    · split
      · trivial
      · exact sound_showFrom _ _ _
  · split
    · trivial
    · exact ⟨by omega, by omega⟩

theorem sound_received (p : Party) (data : List Byte) (h : p.pc.Sound)
    (hdata : ∀ count, p.pc.asks = some count → data.length ≤ count) : (received env p data).pc.Sound := by
  obtain ⟨pc, buf⟩ := p
  cases pc with
  | head cells off count =>
      have hle := hdata count rfl
      unfold received
      dsimp only
      split
      · trivial
      · split
        · exact sound_parse env _ _
        · exact show 0 < count - data.length by omega
  | body size off count =>
      have hle := hdata count rfl
      unfold received
      dsimp only
      split
      · trivial
      · split
        · exact sound_showFrom _ _ _
        · exact ⟨h.1, by omega⟩
  | _ => exact h

theorem sound_hungUp (p : Party) : (hungUp env p).pc.Sound := by
  unfold hungUp
  split <;> trivial

theorem Pc.Sound.sized {pc : Pc} (h : pc.Sound) : pc.Sized := by
  cases pc <;> first | exact h.1 | trivial

theorem Pc.Sound.asks_pos {pc : Pc} (h : pc.Sound) {count : Nat} (hasks : pc.asks = some count) : 0 < count := by
  cases pc <;> cases hasks
  · exact h
  · exact h.2

end Sound

section Frame

variable (s : State) (p q : Peer) (party : Party) (w : Wire) (data : List Byte)

@[simp] theorem put_party : (s.put p party).party p = party := Function.update_self ..
@[simp] theorem put_wire : (s.put p party).wire = s.wire := rfl
@[simp] theorem put_shown : (s.put p party).shown = s.shown := rfl
@[simp] theorem put_lines : (s.put p party).lines = s.lines := rfl
@[simp] theorem setWire_wire : (s.setWire p w).wire p = w := Function.update_self ..
@[simp] theorem setWire_party : (s.setWire p w).party = s.party := rfl
@[simp] theorem setWire_shown : (s.setWire p w).shown = s.shown := rfl
@[simp] theorem setWire_lines : (s.setWire p w).lines = s.lines := rfl
@[simp] theorem show_shown : (s.show p data).shown p = s.shown p ++ data := Function.update_self ..
@[simp] theorem show_party : (s.show p data).party = s.party := rfl
@[simp] theorem show_wire : (s.show p data).wire = s.wire := rfl
@[simp] theorem show_lines : (s.show p data).lines = s.lines := rfl

theorem put_party_ne (h : q ≠ p) : (s.put p party).party q = s.party q := Function.update_of_ne h ..
theorem setWire_wire_ne (h : q ≠ p) : (s.setWire p w).wire q = s.wire q := Function.update_of_ne h ..
theorem show_shown_ne (h : q ≠ p) : (s.show p data).shown q = s.shown q := Function.update_of_ne h ..

variable (line : Option (Option CString))

@[simp] theorem hear_party : (s.hear p line).party = s.party := by unfold State.hear; split <;> rfl
@[simp] theorem hear_wire : (s.hear p line).wire = s.wire := by unfold State.hear; split <;> rfl
@[simp] theorem hear_shown : (s.hear p line).shown = s.shown := by unfold State.hear; split <;> rfl

end Frame

variable {c : Setup} {s s' : State} {a : Act} {p : Peer}

-- A step of one program leaves the other one where it is.
theorem step_other (h : c.Moves s a s') (hp : a.1 ≠ p) : s'.party p = s.party p ∧ s'.shown p = s.shown p := by
  have hp := hp.symm
  cases h <;> simp [State.exit, put_party_ne _ _ _ _ hp, show_shown_ne _ _ _ _ hp]

-- Only a program that is not over makes a step.
theorem step_live (h : c.Moves s a s') : (s.party a.1).pc.over = false := by
  cases h with
  | selects p line buf h => simp [h, Pc.over]
  | writes p rest conn buf n h hn hle hcap => simp [h, Pc.over]
  | shows p rest buf n h hn hle => simp [h, Pc.over]
  | reads p count n h hn hle hlen =>
      dsimp only
      cases hpc : (s.party p).pc <;> first | rfl | simp [hpc, Pc.asks] at h
  | ends p count n h hn hle hempty hover =>
      dsimp only
      cases hpc : (s.party p).pc <;> first | rfl | simp [hpc, Pc.asks] at h
  | fails p op h =>
      dsimp only
      cases hpc : (s.party p).pc <;> first | rfl | (rw [hpc] at h; cases h; simp_all [Pc.asks])
  | kills p h => exact h

-- What it writes goes behind what it has written, and what it reads had been written.
theorem step_wire (h : c.Moves s a s') : ∃ data,
    s'.wire a.1 = ⟨(s.wire a.1).taken, (s.wire a.1).held ++ data⟩ ∧
    (s'.wire a.1.other).sent = (s.wire a.1.other).sent := by
  have hsame : ∀ p, s'.wire = s.wire → ∃ data,
      s'.wire p = ⟨(s.wire p).taken, (s.wire p).held ++ data⟩ ∧
      (s'.wire p.other).sent = (s.wire p.other).sent := by
    intro p hwire
    exact ⟨[], by rw [hwire, List.append_nil], by rw [hwire]⟩
  cases h with
  | writes p rest conn buf n h hn hle hcap =>
      exact ⟨rest.take n, by simp, by rw [setWire_wire_ne _ _ _ _ (Peer.other_ne p), put_wire]⟩
  | reads p count n h hn hle hlen =>
      refine ⟨[], ?_, ?_⟩
      · rw [setWire_wire_ne _ _ _ _ (Peer.ne_other p), put_wire, List.append_nil]
      · simp [Wire.sent, List.append_assoc]
  | _ => exact hsame _ (by simp [State.exit])

theorem step_sound (h : c.Moves s a s') (hs : ∀ p, (s.party p).pc.Sound) (p : Peer) : (s'.party p).pc.Sound := by
  by_cases hp : a.1 = p
  · subst hp
    cases h with
    | selects p line buf h => simpa using sound_begin _ _ _ _ _
    | writes p rest conn buf n h hn hle hcap => simpa using sound_sending _ _ _ _
    | shows p rest buf n h hn hle => simpa using sound_showing _ _
    | reads p count n h hn hle hlen =>
        simp only [setWire_party, put_party]
        refine sound_received _ _ _ (hs p) fun ask hask => ?_
        cases h.symm.trans hask
        rw [List.length_take]
        omega
    | ends p count n h hn hle hempty hover => simpa using sound_hungUp _ _
    | fails p op h => simp [State.exit, Pc.Sound]
    | kills p h => simp [Pc.Sound]
  · rw [(step_other h hp).1]
    exact hs p

end CryptodevChat.Dialogue
