import CryptodevChat.Chat.Residue

namespace CryptodevChat.Dialogue

open Lib
open Chat
open EventLoop (Select)

section Scripts

def Op.outcome : Op → Option Select
  | .select o => some o
  | _ => none

def Op.reading : Op → Option Transfer
  | .read t => some t
  | _ => none

def Op.writing : Op → Option Transfer
  | .write t => some t
  | _ => none

def Op.displaying : Op → Option Transfer
  | .display t => some t
  | _ => none

-- How the calls of one kind have returned to one of the programs.
def calls {α : Type} (kind : Op → Option α) (p : Peer) (actions : List Act) : List α :=
  actions.filterMap fun a => if a.1 = p then kind a.2 else none

theorem calls_snoc {α : Type} (kind : Op → Option α) (p : Peer) (actions : List Act) (op : Op) :
    calls kind p (actions ++ [(p, op)]) = calls kind p actions ++ (kind op).toList := by
  unfold calls
  rw [List.filterMap_append]
  cases h : kind op <;> simp [h]

theorem calls_other {α : Type} (kind : Op → Option α) (p : Peer) (actions : List Act) (a : Act) (h : a.1 ≠ p) :
    calls kind p (actions ++ [a]) = calls kind p actions := by
  unfold calls
  rw [List.filterMap_append]
  simp [h]

-- A process with a terminal and a connection.
def endpoints (newsd : Nat) (inp : Source Byte) (tty out : Sink Byte) : World :=
  ((World.fresh.setInp newsd inp).setOut 0 tty).setOut newsd out

section Endpoints

variable (newsd : Nat) (hpos : 0 < newsd) (inp inp' : Source Byte) (tty tty' out out' : Sink Byte)

@[simp] theorem endpoints_inp : (endpoints newsd inp tty out).inp newsd = inp := by simp [endpoints]
@[simp] theorem endpoints_out : (endpoints newsd inp tty out).out newsd = out := by simp [endpoints]

@[simp] theorem endpoints_setInp :
    (endpoints newsd inp tty out).setInp newsd inp' = endpoints newsd inp' tty out := by
  simp [endpoints, World.setInp, World.setOut]

@[simp] theorem endpoints_setOut :
    (endpoints newsd inp tty out).setOut newsd out' = endpoints newsd inp tty out' := by simp [endpoints]

include hpos

theorem endpoints_tty : (endpoints newsd inp tty out).out 0 = tty := by
  unfold endpoints
  rw [World.setOut_out_ne _ _ _ _ (by omega), World.setOut_out]

theorem endpoints_setOut_tty :
    (endpoints newsd inp tty out).setOut 0 tty' = endpoints newsd inp tty' out := by
  have hne : newsd ≠ 0 := by omega
  unfold endpoints World.setOut
  simp only [Function.update_comm hne, Function.update_idem]

end Endpoints

-- What is still to come for a program.
structure Later where
  more : List Byte
  reads : List Transfer
  displays : List Transfer
  writes : List Transfer

def Later.before (l : Later) : Op → Later
  | .read t => { l with reads := t :: l.reads }
  | .display t => { l with displays := t :: l.displays }
  | .write t => { l with writes := t :: l.writes }
  | _ => l

variable (c : Setup) (p : Peer)

-- All that a program is given from its start on, and what is left of it.
def Setup.script (actions : List Act) (s : State) (l : Later) : World :=
  endpoints (c.newsd p) ⟨(s.wire p.other).sent ++ l.more, calls Op.reading p actions ++ l.reads⟩
    ⟨[], calls Op.displaying p actions ++ l.displays⟩ ⟨[], calls Op.writing p actions ++ l.writes⟩

def Setup.now (s : State) (l : Later) : World :=
  endpoints (c.newsd p) ⟨(s.wire p.other).held ++ l.more, l.reads⟩ ⟨s.shown p, l.displays⟩
    ⟨(s.wire p).sent, l.writes⟩

variable (s : State) (l : Later)

theorem now_inp : (c.now p s l).inp (c.newsd p) = ⟨(s.wire p.other).held ++ l.more, l.reads⟩ :=
  endpoints_inp ..

theorem now_out : (c.now p s l).out (c.newsd p) = ⟨(s.wire p).sent, l.writes⟩ := endpoints_out ..

theorem now_tty : (c.now p s l).out 0 = ⟨s.shown p, l.displays⟩ := endpoints_tty _ (c.newsd_pos p) ..

end Scripts

section Tracking

variable (c : Setup) (p : Peer)

def Setup.loop : EventLoop.State → Select → Option EventLoop.State :=
  EventLoop.step (c.env p) (c.prompt p) (c.newsd p)

def Setup.start (actions : List Act) (s : State) (l : Later) : EventLoop.State :=
  EventLoop.start (c.script p actions s l) ((c.env p).junk BUFF_SIZE)

-- The loop by itself is where the program is.
structure Setup.Matches (s : State) (l : Later) (t : EventLoop.State) : Prop where
  world : t.world = c.now p s l
  stopped : t.stopped = (s.party p).pc.stop
  ended : t.ended = decide ((s.party p).pc = .left)
  buf : t.stopped = none → t.buf = (s.party p).buf

def Setup.Paused (actions : List Act) (s : State) (l : Later) : Prop :=
  ∃ t, Run (c.loop p) (fun _ _ => True) (c.start p actions s l) (calls Op.outcome p actions) t ∧
    c.Matches p s l t

-- In the middle of a round of the loop.
def Setup.Underway (actions : List Act) (s : State) (l : Later) : Prop :=
  ∃ earlier line conn buf w log, calls Op.outcome p actions = earlier ++ [.ready line conn] ∧
    Run (c.loop p) (fun _ _ => True) (c.start p actions s l) earlier ⟨w, buf, false, none, log⟩ ∧
    OneToOne.round (c.env p) (c.prompt p) (c.newsd p) line conn buf w =
      residue (c.env p) (c.newsd p) (s.party p) (c.now p s l)

def Setup.Tracked (actions : List Act) (s : State) (l : Later) : Prop :=
  match (s.party p).pc with
  | .killed => True
  | .select | .left | .stopped _ => c.Paused p actions s l
  | _ => c.Underway p actions s l

variable {c p} {actions : List Act} {s s' : State} {a : Act} {l : Later}

-- The round is over with what has been found out in it.
theorem Setup.Underway.tracked (h : c.Underway p actions s l) : c.Tracked p actions s l := by
  have hunderway := h
  obtain ⟨earlier, line, conn, buf, w, log, hcalls, hrun, hround⟩ := h
  have hstep : ∀ t, c.loop p ⟨w, buf, false, none, log⟩ (.ready line conn) = some t → c.Matches p s l t →
      c.Paused p actions s l := by
    intro t next hmatches
    refine ⟨t, ?_, hmatches⟩
    rw [hcalls]
    exact hrun.snoc trivial next
  unfold Tracked
  cases hparty : s.party p with
  | mk pc b =>
      rw [hparty] at hround
      cases pc with
      | select =>
          refine hstep ⟨c.now p s l, b, false, none, log ++ [.select true, .tests]⟩ ?_ ⟨rfl, ?_, ?_, ?_⟩
          · simp [loop, EventLoop.step, hround, residue]
          · rw [hparty]
            rfl
          · rw [hparty]
            rfl
          · intro _
            rw [hparty]
      | left =>
          refine hstep ⟨c.now p s l, b, true, none, log ++ [.select true, .tests]⟩ ?_ ⟨rfl, ?_, ?_, ?_⟩
          · simp [loop, EventLoop.step, hround, residue]
          · rw [hparty]
            rfl
          · rw [hparty]
            rfl
          · intro _
            rw [hparty]
      | stopped e =>
          refine hstep ⟨c.now p s l, buf, false, some e, log ++ [.select true, .tests]⟩ ?_ ⟨rfl, ?_, ?_, ?_⟩
          · simp [loop, EventLoop.step, hround, residue]
          · rw [hparty]
            rfl
          · rw [hparty]
            rfl
          · intro hnone
            cases hnone
      | killed => trivial
      | _ => exact hunderway

theorem script_snoc (op : Op) (hsent : (s'.wire p.other).sent = (s.wire p.other).sent) :
    c.script p (actions ++ [(p, op)]) s' l = c.script p actions s (l.before op) := by
  unfold Setup.script
  rw [hsent, calls_snoc, calls_snoc, calls_snoc]
  cases op <;> simp [Op.reading, Op.writing, Op.displaying, Later.before]

-- The other program may write more, of which this one knows nothing yet.
theorem tracked_other (h : c.Moves s a s') (hp : a.1 = p.other)
    (ht : ∀ l, ((s.party p.other).pc.over = true → l.more = []) → c.Tracked p actions s l) (l : Later) :
    c.Tracked p (actions ++ [a]) s' l := by
  have hne : a.1 ≠ p := by
    rw [hp]
    exact p.other_ne
  obtain ⟨hparty, hshown⟩ := step_other h hne
  obtain ⟨data, hwire, hsent⟩ := step_wire h
  have hlive := step_live h
  rw [hp] at hwire hsent hlive
  rw [Peer.other_other] at hsent
  have htracked := ht { l with more := data ++ l.more } (by rw [hlive]; simp)
  have hscript : c.script p (actions ++ [a]) s' l = c.script p actions s { l with more := data ++ l.more } := by
    unfold Setup.script
    rw [calls_other _ _ _ _ hne, calls_other _ _ _ _ hne, calls_other _ _ _ _ hne, hwire]
    simp [Wire.sent, List.append_assoc]
  have hnow : c.now p s' l = c.now p s { l with more := data ++ l.more } := by
    unfold Setup.now
    rw [hshown, hsent, hwire, List.append_assoc]
  have hcalls : calls Op.outcome p (actions ++ [a]) = calls Op.outcome p actions := calls_other _ _ _ _ hne
  have hpaused : c.Paused p actions s { l with more := data ++ l.more } → c.Paused p (actions ++ [a]) s' l := by
    rintro ⟨t, hrun, hmatches⟩
    unfold Setup.Paused Setup.start
    rw [hscript, hcalls]
    refine ⟨t, hrun, ⟨hmatches.world.trans hnow.symm, ?_, ?_, ?_⟩⟩ <;> rw [hparty]
    · exact hmatches.stopped
    · exact hmatches.ended
    · exact hmatches.buf
  have hunderway : c.Underway p actions s { l with more := data ++ l.more } → c.Underway p (actions ++ [a]) s' l := by
    unfold Setup.Underway Setup.start
    rw [hscript, hcalls, hparty, hnow]
    exact id
  unfold Setup.Tracked at htracked ⊢
  rw [hparty]
  cases hpc : (s.party p).pc with
  | killed => trivial
  | select | left | stopped =>
      rw [hpc] at htracked
      exact hpaused htracked
  | _ =>
      rw [hpc] at htracked
      exact hunderway htracked

-- One call of a program, and what it has still to do in the round.
theorem residue_moves {op : Op} (h : c.Moves s (p, op) s') (hs : (s.party p).pc.Sound)
    (hcall : op.outcome = none) (hkill : op ≠ .kill) (hmore : (s.party p.other).pc.over = true → l.more = []) :
    residue (c.env p) (c.newsd p) (s.party p) (c.now p s (l.before op)) =
      residue (c.env p) (c.newsd p) (s'.party p) (c.now p s' l) := by
  cases h with
  | selects _ line buf h => cases hcall
  | writes _ rest conn buf n h hn hle hcap =>
      rw [h, residue_send_moves _ _ _ _ _ _ _ _ n hn hle (now_out c p s (l.before (.write (.upTo n))))]
      simp [Setup.now, Later.before, Wire.sent, List.append_assoc, setWire_wire_ne _ _ _ _ (Peer.other_ne p)]
  | shows _ rest buf n h hn hle =>
      rw [h, residue_display_moves _ _ _ _ _ _ _ n hn hle (now_tty c p s (l.before (.display (.upTo n))))]
      simp [Setup.now, Later.before, endpoints_setOut_tty _ (c.newsd_pos p)]
  | reads _ count n h hn hle hlen =>
      have htake : ((s.wire p.other).held ++ l.more).take n = (s.wire p.other).held.take n :=
        List.take_append_of_le_length hlen
      have hdrop : ((s.wire p.other).held ++ l.more).drop n = (s.wire p.other).held.drop n ++ l.more :=
        List.drop_append_of_le_length hlen
      rw [residue_received _ _ _ _ _ _ count h hs.sized n hn hle (by rw [List.length_append]; omega)
        (now_inp c p s (l.before (.read (.upTo n))))]
      simp [Setup.now, Later.before, htake, hdrop, setWire_wire_ne _ _ _ _ (Peer.ne_other p)]
  | ends _ count n h hn hle hempty hover =>
      have hinp := now_inp c p s (l.before (.read (.upTo n)))
      have hnothing : (s.wire p.other).held ++ l.more = [] := by rw [hempty, hmore hover, List.append_nil]
      change _ = (⟨(s.wire p.other).held ++ l.more, .upTo n :: l.reads⟩ : Source Byte) at hinp
      rw [hnothing] at hinp
      rw [residue_hungUp _ _ _ _ _ count h n (by omega) hinp]
      simp [Setup.now, Later.before, hnothing]
  | fails _ op h =>
      have hexit : residue (c.env p) (c.newsd p) ((s.exit p).party p) (c.now p (s.exit p) l) =
          .error (.exit 1) (c.now p s l) := by
        simp [State.exit, residue, Setup.now]
      rw [hexit]
      cases hparty : s.party p with
      | mk pc buf =>
          rw [hparty] at h hs
          cases h with
          | select => cases hcall
          | send rest conn errno =>
              rw [residue_send_fails _ _ _ _ _ _ _ _ errno hs (now_out c p s (l.before (.write (.fail errno))))]
              simp [Setup.now, Later.before]
          | display rest errno =>
              rw [residue_display_fails _ _ _ _ _ _ _ errno hs
                (now_tty c p s (l.before (.display (.fail errno))))]
              simp [Setup.now, Later.before, endpoints_setOut_tty _ (c.newsd_pos p)]
          | read _ count errno hasks =>
              rw [residue_read_fails _ _ _ _ _ _ count hasks errno (hs.asks_pos hasks)
                (now_inp c p s (l.before (.read (.fail errno))))]
              simp [Setup.now, Later.before]
  | kills _ h => exact absurd rfl hkill

-- A program that makes a call of another kind than `select` is in a round.
theorem underway_of_call {op : Op} (h : c.Moves s (p, op) s') (hcall : op.outcome = none) (hkill : op ≠ .kill)
    (ht : c.Tracked p actions s l) : c.Underway p actions s l := by
  unfold Setup.Tracked at ht
  have hbusy : (s.party p).pc ≠ .select ∧ (s.party p).pc.over = false := by
    refine ⟨fun hpc => ?_, step_live h⟩
    cases h with
    | selects _ line buf h => cases hcall
    | writes _ rest conn buf n h hn hle hcap => simp [h] at hpc
    | shows _ rest buf n h hn hle => simp [h] at hpc
    | reads _ count n h hn hle hlen => simp [hpc, Pc.asks] at h
    | ends _ count n h hn hle hempty hover => simp [hpc, Pc.asks] at h
    | fails _ op h =>
        rw [hpc] at h
        cases h with
        | select => cases hcall
        | read _ count errno h => cases h
    | kills _ h => exact hkill rfl
  obtain ⟨hselect, hover⟩ := hbusy
  cases hpc : (s.party p).pc with
  | select => exact absurd hpc hselect
  | left | stopped | killed => simp [hpc, Pc.over] at hover
  | _ =>
      rw [hpc] at ht
      exact ht

-- `select` returns, and the next round begins.
theorem tracked_select {o : Select} (h : c.Moves s (p, .select o) s') (ht : c.Tracked p actions s l) :
    c.Tracked p (actions ++ [(p, .select o)]) s' l := by
  obtain ⟨-, -, hsent⟩ := step_wire h
  have hstart : c.start p (actions ++ [(p, .select o)]) s' l = c.start p actions s l := by
    unfold Setup.start
    rw [script_snoc _ hsent]
    rfl
  have hpc : (s.party p).pc = .select := by
    cases h with
    | selects _ line buf h => rw [h]
    | fails _ op h =>
        generalize (s.party p).pc = pc at h
        cases h
        rfl
  unfold Setup.Tracked at ht
  rw [hpc] at ht
  obtain ⟨⟨w, buf, ended, stopped, log⟩, hrun, hmatches⟩ := ht
  obtain rfl : w = c.now p s l := hmatches.world
  obtain rfl : stopped = none := by simpa [hpc, Pc.stop] using hmatches.stopped
  obtain rfl : ended = false := by simpa [hpc] using hmatches.ended
  have hbuf : buf = (s.party p).buf := hmatches.buf rfl
  cases h with
  | selects _ line buf' h =>
      obtain rfl : buf = buf' := by rw [hbuf, h]
      refine Setup.Underway.tracked ⟨_, line, s.readable p, buf, c.now p s l, log, calls_snoc _ _ _ _, ?_, ?_⟩
      · rw [hstart]
        exact hrun
      · have hnow : c.now p ((s.put p (begin (c.env p) (c.prompt p) line (s.readable p) buf)).hear p line) l =
            c.now p s l := by simp [Setup.now]
        rw [hnow, hear_party, put_party, residue_begin]
  | fails _ op h =>
      generalize (s.party p).pc = pc at h
      cases h with
      | select errno =>
          have hpaused : c.Paused p (actions ++ [(p, .select (.failed errno))]) (s.exit p) l := by
            obtain ⟨t, next, hworld, hstop, hend⟩ : ∃ t, c.loop p ⟨c.now p s l, buf, false, none, log⟩
                (.failed errno) = some t ∧ t.world = c.now p s l ∧ t.stopped = some (.exit 1) ∧ t.ended = false :=
              ⟨_, rfl, rfl, rfl, rfl⟩
            refine ⟨t, ?_, ⟨hworld, ?_, ?_, fun hnone => ?_⟩⟩
            · rw [hstart, calls_snoc]
              exact hrun.snoc trivial next
            · simp [hstop, State.exit, Pc.stop]
            · simp [hend, State.exit]
            · rw [hstop] at hnone
              cases hnone
          unfold Setup.Tracked
          simpa [State.exit] using hpaused

-- A program has followed the loop by itself, and goes on with it.
theorem tracked_own {op : Op} (h : c.Moves s (p, op) s') (hs : (s.party p).pc.Sound)
    (hmore : (s.party p.other).pc.over = true → l.more = [])
    (ht : ∀ l, ((s.party p.other).pc.over = true → l.more = []) → c.Tracked p actions s l) :
    c.Tracked p (actions ++ [(p, op)]) s' l := by
  have hother : ∀ op, (l.before op).more = l.more := fun op => by cases op <;> rfl
  have ht := ht (l.before op) (by rw [hother]; exact hmore)
  by_cases hkill : op = .kill
  · subst hkill
    generalize hact : (p, Op.kill) = a at h
    cases h with
    | kills _ h =>
        cases hact
        unfold Setup.Tracked
        simp
    | fails _ op h =>
        cases hact
        generalize (s.party p).pc = pc at h
        cases h
    | _ => cases hact
  · cases hcall : op.outcome with
    | some o =>
        cases op with
        | select o => exact tracked_select h ht
        | _ => cases hcall
    | none =>
        obtain ⟨-, -, hsent⟩ := step_wire h
        obtain ⟨earlier, line, conn, buf, w, log, hcalls, hrun, hround⟩ := underway_of_call h hcall hkill ht
        refine Setup.Underway.tracked ⟨earlier, line, conn, buf, w, log, ?_, ?_, ?_⟩
        · rw [calls_snoc, hcall, Option.toList_none, List.append_nil, hcalls]
        · unfold Setup.start
          rw [script_snoc _ hsent]
          exact hrun
        · rw [hround]
          exact residue_moves h hs hcall hkill hmore

end Tracking

section Runs

variable {c : Setup} {actions : List Act} {s : State}

theorem sound_of_run (run : Run c.step (fun _ _ => True) c.boot actions s) (p : Peer) : (s.party p).pc.Sound := by
  have hall : ∀ p, (s.party p).pc.Sound := run.invariant (fun p => trivial)
    fun s a u h _ next p => step_sound (step_moves next) h p
  exact hall p

theorem tracked_of_run (run : Run c.step (fun _ _ => True) c.boot actions s) (p : Peer) (l : Later)
    (hmore : (s.party p.other).pc.over = true → l.more = []) : c.Tracked p actions s l := by
  generalize hboot : c.boot = first at run
  induction run generalizing l with
  | nil =>
      subst hboot
      have hnow : c.script p [] c.boot l = c.now p c.boot l := by simp [Setup.script, Setup.now, Setup.boot, calls, Wire.sent]
      exact ⟨_, .nil _, ⟨hnow, rfl, rfl, fun _ => rfl⟩⟩
  | @snoc t u actions a run _ next ih =>
      subst hboot
      have hmoves := step_moves next
      obtain ⟨q, op⟩ := a
      rcases Peer.eq_or_other q p with rfl | rfl
      · have hother := (step_other hmoves (Peer.ne_other q)).1
        rw [hother] at hmore
        exact tracked_own hmoves (sound_of_run run q) hmore ih
      · exact tracked_other hmoves rfl (ih) l

-- Between two rounds, or after the last one.
def Pc.between : Pc → Bool
  | .select | .left | .stopped _ => true
  | _ => false

-- The loop has come by itself to where the program is, and has used up what its calls returned.
structure Setup.Reproduces (c : Setup) (p : Peer) (s : State) (t : EventLoop.State) : Prop where
  unread : (t.world.inp (c.newsd p)).pending = (s.wire p.other).held
  shown : (t.world.out 0).sent = s.shown p
  sent : (t.world.out (c.newsd p)).sent = (s.wire p).sent
  used : EventLoop.outcomes (c.newsd p) t.world = []
  stopped : t.stopped = (s.party p).pc.stop
  ended : t.ended = decide ((s.party p).pc = .left)

-- Whatever the two programs do side by side, each of them does what the loop does by itself
-- on all that the other one has written, cut as its own calls have cut it.
theorem loop_of_run (c : Setup) (actions : List Act) (s : State)
    (run : Run c.step (fun _ _ => True) c.boot actions s) (p : Peer) (hbetween : (s.party p).pc.between = true) :
    ∃ t, Run (EventLoop.step (c.env p) (c.prompt p) (c.newsd p)) (fun _ _ => True)
        (EventLoop.start
          (endpoints (c.newsd p) ⟨(s.wire p.other).sent, calls Op.reading p actions⟩
            ⟨[], calls Op.displaying p actions⟩ ⟨[], calls Op.writing p actions⟩)
          ((c.env p).junk BUFF_SIZE))
        (calls Op.outcome p actions) t ∧ c.Reproduces p s t := by
  have htracked := tracked_of_run run p ⟨[], [], [], []⟩ fun _ => rfl
  have hpaused : c.Paused p actions s ⟨[], [], [], []⟩ := by
    unfold Setup.Tracked at htracked
    cases hpc : (s.party p).pc with
    | select | left | stopped =>
        rw [hpc] at htracked
        exact htracked
    | _ => simp [hpc, Pc.between] at hbetween
  obtain ⟨t, hrun, hmatches⟩ := hpaused
  have hinp := now_inp c p s ⟨[], [], [], []⟩
  have htty := now_tty c p s ⟨[], [], [], []⟩
  have hout := now_out c p s ⟨[], [], [], []⟩
  refine ⟨t, ?_, ?_, ?_, ?_, ?_, hmatches.stopped, hmatches.ended⟩
  · simpa [Setup.start, Setup.script, Setup.loop] using hrun
  · rw [hmatches.world, hinp, List.append_nil]
  · rw [hmatches.world, htty]
  · rw [hmatches.world, hout]
  · rw [hmatches.world, EventLoop.outcomes, hinp, htty, hout]
    rfl

-- A line goes over in two pieces, and comes out in four.
def plainSetup : Setup where
  env := fun _ => plainEnv
  prompt := fun _ => promptMe
  newsd := fun _ => 4
  cap := fun _ => 8
  newsd_pos := fun _ => by omega

def hiRun : List Act :=
  [(.client, .select (.ready (some (some lineHi)) false)), (.client, .write (.upTo 6)),
    (.server, .select (.ready none true)), (.server, .read (.upTo 1)), (.client, .write (.upTo 3)),
    (.server, .read (.upTo 3)), (.server, .read (.upTo 5)), (.client, .write (.upTo 1)),
    (.server, .read (.upTo 1)), (.server, .display (.upTo 6))]

theorem hiRun_loop : ∃ s t, Run plainSetup.step (fun _ _ => True) plainSetup.boot hiRun s ∧
    Run (EventLoop.step plainEnv promptMe 4) (fun _ _ => True)
      (EventLoop.start (endpoints 4 ⟨(s.wire .client).sent, [.upTo 1, .upTo 3, .upTo 5, .upTo 1]⟩
        ⟨[], [.upTo 6]⟩ ⟨[], []⟩) (plainEnv.junk BUFF_SIZE)) [.ready none true] t ∧
    (t.world.out 0).sent = [0x6d, 0x65, 0x3a, 0x68, 0x69, 0x0a] := by
  obtain ⟨s, run, hs⟩ := Run.of_guarded plainSetup.step (fun _ _ => True) plainSetup.boot hiRun
    (fun s => (s.party .server).pc.between && s.shown .server == [0x6d, 0x65, 0x3a, 0x68, 0x69, 0x0a])
    (by decide +kernel)
  simp only [Bool.and_eq_true, beq_iff_eq] at hs
  obtain ⟨t, hrun, hreproduces⟩ := loop_of_run plainSetup hiRun s run .server hs.1
  exact ⟨s, t, run, hrun, hreproduces.shown.trans hs.2⟩

end Runs

end CryptodevChat.Dialogue
