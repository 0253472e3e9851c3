import CryptodevChat.Chat.OneToOne
import CryptodevChat.Lib.Coupling

namespace CryptodevChat.EventLoop

open Lib
open Chat

def EINTR : Nat := 4
def EAGAIN : Nat := 11

-- What comes of a call of `select`: an error, or what a character from the terminal
-- makes readline hand over, and whether the connection is ready.
inductive Select
  | failed (errno : Nat)
  | ready (line : Option (Option CString)) (conn : Bool)

def Select.Succeeds : Select → Prop
  | .failed _ => False
  | .ready _ _ => True

instance : DecidablePred Select.Succeeds := fun o =>
  match o with
  | .failed _ => .isFalse id
  | .ready _ _ => .isTrue trivial

inductive Event
  | select (ok : Bool)
  | perror
  | tests
  deriving DecidableEq

-- The loop, which both programs have, with a connection and the buffer of `main`.
-- `ended` is its `break`.
structure State where
  world : World
  buf : List Byte
  ended : Bool
  stopped : Option Stop
  log : List Event

def start (w : World) (buf : List Byte) : State := ⟨w, buf, false, none, []⟩

variable (env : Env) (prompt : CString) (newsd : Nat)

-- In the body of `while (select(...) < 0)` only `perror` hangs on the error number:
-- `exit(1)` is a statement of its own.
def step (s : State) (outcome : Select) : Option State :=
  match s.stopped, s.ended, outcome with
  | none, false, .failed errno =>
      let complaint := if errno ≠ EINTR ∧ errno ≠ EAGAIN then [.perror] else []
      some { s with stopped := some (.exit 1), log := s.log ++ .select false :: complaint }
  | none, false, .ready line conn =>
      let log := s.log ++ [.select true, .tests]
      match OneToOne.round env prompt newsd line conn s.buf s.world with
      | .error stop w => some { s with world := w, stopped := some stop, log }
      | .ok (r, buf) w => some { s with world := w, buf, ended := r = 1, log }
  | _, _, _ => none

-- The outcomes of the calls of `read` and `write` that are still to come.
def outcomes (w : World) : List Transfer :=
  (w.inp newsd).sched ++ ((w.out 0).sched ++ (w.out newsd).sched)

section Spec

-- The same streams without any interruption: every call moves all that it can.
def calm (w : World) : World where
  inp := fun fd => ⟨(w.inp fd).pending, []⟩
  out := fun fd => ⟨(w.out fd).sent, []⟩
  locks := w.locks

-- Both have taken, shown and sent the same bytes.
structure SameBytes (w v : World) : Prop where
  unread : (w.inp newsd).pending = (v.inp newsd).pending
  shown : (w.out 0).sent = (v.out 0).sent
  sent : (w.out newsd).sent = (v.out newsd).sent

-- Both go on with the session, have ended it, or have stopped at the same point. After an
-- access outside an object nothing is known of the bytes.
structure SameSession (s t : State) : Prop where
  stopped : s.stopped = t.stopped
  ended : s.ended = t.ended
  bytes : s.stopped = none → SameBytes newsd s.world t.world

-- The descriptors are tested directly after a `select` that has succeeded.
def Tested (log : List Event) : Prop :=
  ∀ i, log[i]? = some .tests → 0 < i ∧ log[i - 1]? = some (.select true)

-- What interruptions must leave as it is: the program runs on and the session is the one
-- without them.
structure Harmless (w : World) (buf : List Byte) (selects : List Select) (s : State) : Prop where
  stays : ∀ status, s.stopped ≠ some (.exit status)
  same : ∃ t, Run (step env prompt newsd) (fun _ _ => True) (start (calm w) buf)
    (selects.filter (Select.Succeeds ·)) t ∧ SameSession newsd s t
  tested : Tested s.log

end Spec

section Coupled

-- The session beside the one without interruptions.
structure Beside (first w v : World) : Prop extends SameBytes newsd w v where
  calm : outcomes newsd v = []
  unmet : Unmet (outcomes newsd first) (outcomes newsd w)

def coupling (first : World) : Coupling Stop World where
  states := Beside newsd first
  stops := fun e w e' _ => e = .fault ∧ e' = .fault ∧ Unmet (outcomes newsd first) (outcomes newsd w)
  escapes := fun e _ => e = .exit 1 ∧ ∃ t ∈ outcomes newsd first, ¬t.Succeeds

variable {env prompt newsd} {first : World}

theorem keeps_fault {α : Type} : (coupling newsd first).Keeps (throw .fault : Proc α) :=
  Coupling.keeps_throw _ fun _ _ h => ⟨rfl, rfl, h.unmet⟩

theorem keeps_peek (cells : List Byte) (off len : Nat) :
    (coupling newsd first).Keeps (peek cells off len) := by
  unfold peek
  cases load cells off len with
  | none => exact keeps_fault
  | some data => exact Coupling.keeps_pure data

theorem keeps_poke (cells : List Byte) (off : Nat) (data : List Byte) :
    (coupling newsd first).Keeps (poke cells off data) := by
  unfold poke
  cases store cells off data with
  | none => exact keeps_fault
  | some next => exact Coupling.keeps_pure next

theorem keeps_cryptBlock (c : Cipher env.dev) (op : Nat) (src dst buffer : List Byte)
    (hcrypt : env.dev.crypt c.ses op src iv = some dst) :
    (coupling newsd first).Keeps (cryptBlock env.dev c.ses op src buffer) := by
  unfold cryptBlock
  simp only [hcrypt, c.frees, c.closes]
  exact Coupling.keeps_bind (keeps_poke _ _ _) fun next _ _ _ => Coupling.keeps_pure next

theorem keeps_openSession (c : Cipher env.dev) {α : Type} (f : Nat → Proc α)
    (h : (coupling newsd first).Keeps (f c.ses)) :
    (coupling newsd first).Keeps (openSession env.dev >>= f) := by
  refine Coupling.keeps_bind (Coupling.keeps_const c.ses c.openSession_run) fun ses w v hses => ?_
  rw [c.openSession_run w] at hses
  cases hses
  exact h

theorem keeps_encrypt (c : Cipher env.dev) (buffer : List Byte) (encS : Nat) :
    (coupling newsd first).Keeps (encrypt env buffer encS) := by
  refine keeps_openSession c _ (Coupling.keeps_bind (keeps_peek _ _ _) fun message _ _ _ => ?_)
  refine Coupling.keeps_bind (keeps_poke _ _ _) fun first w v hfirst => ?_
  refine Coupling.keeps_bind (keeps_poke _ _ _) fun block w' v' hblock => ?_
  have hlen := store_length _ _ _ _ (poke_returns _ _ _ _ _ _ hblock)
  rw [store_length _ _ _ _ (poke_returns _ _ _ _ _ _ hfirst), env.junk_length] at hlen
  exact keeps_cryptBlock c _ _ _ _ (c.encrypts block hlen)

theorem keeps_decrypt (c : Cipher env.dev) (buffer : List Byte) :
    (coupling newsd first).Keeps (decrypt env buffer) := by
  refine keeps_openSession c _ (Coupling.keeps_bind (keeps_peek _ _ _) fun block w v hblock => ?_)
  have hlen := load_length _ _ _ _ (peek_returns _ _ _ _ _ _ hblock)
  exact keeps_cryptBlock c _ _ _ _ (c.decrypts block hlen)

theorem outcomes_nil {w : World} (h : outcomes newsd w = []) :
    (w.inp newsd).sched = [] ∧ (w.out 0).sched = [] ∧ (w.out newsd).sched = [] := by
  obtain ⟨hin, hout⟩ := List.append_eq_nil_iff.mp h
  exact ⟨hin, List.append_eq_nil_iff.mp hout⟩

theorem Beside.setOut {w v : World} (h : Beside newsd first w v) (fd : Nat) (o p : Sink Byte)
    (hsent : o.sent = p.sent) (hcalm : p.sched = []) (hunmet : Unmet (w.out fd).sched o.sched) :
    Beside newsd first (w.setOut fd o) (v.setOut fd p) := by
  obtain ⟨hin, hzero, hnew⟩ := outcomes_nil h.calm
  have hsame : ∀ other, (w.out other).sent = (v.out other).sent →
      ((w.setOut fd o).out other).sent = ((v.setOut fd p).out other).sent := by
    intro other hother
    by_cases he : other = fd
    · subst he
      simpa using hsent
    · rwa [World.setOut_out_ne _ _ _ _ he, World.setOut_out_ne _ _ _ _ he]
  have hnone : ∀ other, (v.out other).sched = [] → ((v.setOut fd p).out other).sched = [] := by
    intro other hother
    by_cases he : other = fd
    · subst he
      simpa using hcalm
    · rwa [World.setOut_out_ne _ _ _ _ he]
  have hkept : ∀ other, Unmet (w.out other).sched ((w.setOut fd o).out other).sched := by
    intro other
    by_cases he : other = fd
    · subst he
      simpa using hunmet
    · rw [World.setOut_out_ne _ _ _ _ he]
      exact .rfl
  refine ⟨⟨h.unread, hsame 0 h.shown, hsame newsd h.sent⟩, ?_, h.unmet.trans ?_⟩
  · simp only [outcomes, World.setOut_inp, hin, hnone 0 hzero, hnone newsd hnew, List.append_nil]
  · exact Unmet.append .rfl ((hkept 0).append (hkept newsd))

theorem Beside.setInp {w v : World} (h : Beside newsd first w v) (s q : Source Byte)
    (hpending : s.pending = q.pending) (hcalm : q.sched = [])
    (hunmet : Unmet (w.inp newsd).sched s.sched) :
    Beside newsd first (w.setInp newsd s) (v.setInp newsd q) := by
  obtain ⟨-, hzero, hnew⟩ := outcomes_nil h.calm
  refine ⟨⟨by simpa using hpending, h.shown, h.sent⟩, ?_, h.unmet.trans ?_⟩
  · simp only [outcomes, World.setInp_inp, World.setInp_out, hcalm, hzero, hnew, List.append_nil]
  · simp only [outcomes, World.setInp_inp, World.setInp_out]
    exact hunmet.append .rfl

-- A call that fails on one of the session's descriptors.
theorem ends_escape {α : Type} {w v : World} (h : Beside newsd first w v) (errno : Nat)
    (hmem : .fail errno ∈ outcomes newsd w) (w' : World) (r : EStateM.Result Stop World α) :
    (coupling newsd first).Ends (.error (.exit 1) w') r :=
  .escape _ _ _ ⟨rfl, _, h.unmet.subset hmem, id⟩

-- A write, and the test of its result that all callers make.
theorem keeps_write {α : Type} (fd : Nat) (hfd : fd = 0 ∨ fd = newsd) (data : List Byte) (size : Nat)
    (hlen : data.length = size) (next : Proc α) (hnext : (coupling newsd first).Keeps next) :
    (coupling newsd first).Keeps (do
      let n ← insistWrite fd data
      if n ≠ size then exit 1 else next) := by
  subst hlen
  intro w v h
  have hgiven := Sink.insist_given data.length (w.out fd) data (Nat.le_refl _)
  obtain ⟨-, hzero, hnew⟩ := outcomes_nil h.calm
  have hnone : (v.out fd).sched = [] := hfd.elim (fun e => e ▸ hzero) (fun e => e ▸ hnew)
  have hboth : (w.out fd).sent = (v.out fd).sent :=
    hfd.elim (fun e => e ▸ h.shown) (fun e => e ▸ h.sent)
  have hrun' := insistWrite_run fd data v
  rw [Sink.insist_calm _ data hnone] at hrun'
  rw [bind_ok _ _ _ _ _ (insistWrite_run fd data w), bind_ok _ _ _ _ _ hrun']
  cases hend : ((w.out fd).insist data.length data).1 with
  | full =>
      obtain ⟨moved, -, hsent, hfull, -⟩ := hgiven.sent
      rw [hfull hend] at hsent
      rw [if_neg (by simp [code])]
      refine hnext _ _ (h.setOut fd _ _ ?_ rfl ?_)
      · rw [hsent, hboth]
      · exact Sink.insist_unmet _ _ _ (by simp [hend])
  | eof => exact absurd hend hgiven.eof
  | failed errno =>
      have hmem := hgiven.failed errno hend
      have hshort : code data.length (.failed errno) ≠ data.length := by
        simp only [code]
        omega
      rw [if_pos hshort]
      refine ends_escape h errno ?_ _ _
      rcases hfd with rfl | rfl
      · exact List.mem_append_right _ (List.mem_append_left _ hmem)
      · exact List.mem_append_right _ (List.mem_append_right _ hmem)

-- A read that runs over its buffer does so before it has met a failure.
theorem insistReadLoop_error (fd orig fuel : Nat) (buf : List Byte) (off count : Nat) (w w' : World)
    (e : Stop) (h : insistReadLoop fd orig fuel buf off count w = .error e w') :
    e = .fault ∧ ∃ s, w' = w.setInp fd s ∧ Unmet (w.inp fd).sched s.sched := by
  induction fuel generalizing buf off count w with
  | zero => cases h
  | succ fuel ih =>
      unfold insistReadLoop at h
      by_cases hcount : count = 0
      · rw [if_pos hcount] at h
        cases h
      · rw [if_neg hcount] at h
        cases hr : (w.inp fd).read count with
        | mk res s =>
            rw [bind_ok _ _ _ _ _ (read_run fd count w res s hr)] at h
            cases res with
            | error errno => cases h
            | ok data =>
                have hread := (w.inp fd).read_unmet s count data hr
                cases data with
                | nil => cases h
                | cons x xs =>
                    dsimp only at h
                    cases hstore : store buf off (x :: xs) with
                    | none =>
                        rw [bind_error _ _ _ _ _ (poke_fault _ _ _ _ hstore)] at h
                        cases h
                        exact ⟨rfl, s, rfl, hread⟩
                    | some next =>
                        rw [bind_ok _ _ _ _ _ (poke_run _ _ _ _ _ hstore)] at h
                        obtain ⟨he, s', rfl, hrest⟩ := ih _ _ _ _ h
                        rw [World.setInp_inp] at hrest
                        exact ⟨he, s', World.setInp_setInp _ _ _ _, hread.trans hrest⟩

theorem keeps_insistRead {α : Type} (buf : List Byte) (count : Nat) (next : Int × List Byte → Proc α)
    (hnext : ∀ r, (coupling newsd first).Keeps (next r)) :
    (coupling newsd first).Keeps (do
      let r ← insistRead newsd buf 0 count
      if r.1 < 0 then exit 1 else next r) := by
  intro w v h
  obtain ⟨hnone, -, -⟩ := outcomes_nil h.calm
  have htaken := Source.insist_taken count (w.inp newsd) count (Nat.le_refl _)
  have hcalm := Source.insist_calm (v.inp newsd) count hnone
  rw [← h.unread] at hcalm
  cases hstore : store buf 0 ((w.inp newsd).insist count count).1 with
  | none =>
      -- What has been read so far does not fit, and the other session reads no less.
      have hstore' : store buf 0 ((v.inp newsd).insist count count).1 = none := by
        have hlen := congrArg List.length htaken.split
        have hle := htaken.le
        rw [List.length_append] at hlen
        rw [hcalm]
        apply store_eq_none
        by_contra hroom
        rw [List.length_take] at hroom
        rw [store_eq_some _ _ _ (by omega)] at hstore
        cases hstore
      obtain ⟨w', hfault⟩ := insistRead_fault newsd buf 0 count w (Nat.zero_le _) hstore
      obtain ⟨v', hfault'⟩ := insistRead_fault newsd buf 0 count v (Nat.zero_le _) hstore'
      obtain ⟨-, s, rfl, hunmet⟩ := insistReadLoop_error _ _ _ _ _ _ _ _ _ hfault
      rw [bind_error _ _ _ _ _ hfault, bind_error _ _ _ _ _ hfault']
      refine .error _ _ _ _ ⟨rfl, rfl, h.unmet.trans ?_⟩
      simp only [outcomes, World.setInp_inp, World.setInp_out]
      exact hunmet.append .rfl
  | some filled =>
      rw [bind_ok _ _ _ _ _ (insistRead_run newsd buf filled 0 count w (Nat.zero_le _) hstore)]
      by_cases hfailed : ∃ errno, ((w.inp newsd).insist count count).2.1 = .failed errno
      · obtain ⟨errno, hend⟩ := hfailed
        simp only [hend, code]
        exact ends_escape h errno (List.mem_append_left _ (htaken.failed errno hend)) _ _
      · push Not at hfailed
        obtain ⟨hdata, hrest, hend⟩ := htaken.determined hfailed
        have hrun' := insistRead_run newsd buf filled 0 count v (Nat.zero_le _) (by
          rw [hcalm, ← hstore, hdata])
        rw [hcalm] at hrun'
        rw [bind_ok _ _ _ _ _ hrun', hend]
        have hcode : ¬code count (if count ≤ (w.inp newsd).pending.length then .full else .eof) < 0 := by
          split_ifs <;> simp [code]
        simp only [if_neg hcode]
        exact hnext _ _ _ (h.setInp _ _ hrest rfl (Source.insist_unmet _ _ _ hfailed))

theorem keeps_display (buf : List Byte) (off size : Nat) :
    (coupling newsd first).Keeps (display buf off size) := by
  refine Coupling.keeps_bind (keeps_peek _ _ _) fun message w v hmessage => ?_
  have hlen := load_length _ _ _ _ (peek_returns _ _ _ _ _ _ hmessage)
  exact keeps_write 0 (.inl rfl) message size hlen _ (Coupling.keeps_pure ())

theorem keeps_getAndPrint (hcipher : env.encrypted = true → Nonempty (Cipher env.dev)) (buf : List Byte) :
    (coupling newsd first).Keeps (getAndPrint env buf newsd) := by
  unfold getAndPrint
  cases hmode : env.encrypted with
  | true =>
      obtain ⟨c⟩ := hcipher hmode
      simp only [if_true]
      refine keeps_insistRead buf DATA_SIZE _ fun r => ?_
      split_ifs
      · exact Coupling.keeps_pure _
      · refine Coupling.keeps_bind (keeps_decrypt c _) fun block _ _ _ => ?_
        refine Coupling.keeps_bind (keeps_peek _ _ _) fun size _ _ _ => ?_
        exact Coupling.keeps_bind (keeps_display _ _ _) fun _ _ _ _ => Coupling.keeps_pure _
  | false =>
      simp only [Bool.false_eq_true, if_false]
      refine keeps_insistRead (env.junk 4) 4 _ fun r => ?_
      split_ifs
      · exact Coupling.keeps_pure _
      · refine keeps_insistRead buf _ _ fun r' => ?_
        split_ifs
        · exact Coupling.keeps_pure _
        · exact Coupling.keeps_bind (keeps_display _ _ _) fun _ _ _ _ => Coupling.keeps_pure _

theorem keeps_myRlhandler (hcipher : env.encrypted = true → Nonempty (Cipher env.dev))
    (line : Option CString) : (coupling newsd first).Keeps (myRlhandler env prompt newsd line) := by
  unfold myRlhandler
  cases line with
  | none => exact Coupling.keeps_pure ()
  | some line =>
      dsimp only
      by_cases hempty : line.cells.head? = some 0
      · rw [if_pos hempty]
        exact Coupling.keeps_pure ()
      · rw [if_neg hempty]
        cases env.malloc BUFF_SIZE with
        | none => exact keeps_fault
        | some block =>
            refine Coupling.keeps_bind (keeps_poke _ _ _) fun _ _ _ _ => ?_
            refine Coupling.keeps_bind (keeps_poke _ _ _) fun _ _ _ _ => ?_
            refine Coupling.keeps_bind (keeps_poke _ _ _) fun _ _ _ _ => ?_
            refine Coupling.keeps_bind (keeps_poke _ _ _) fun message _ _ _ => ?_
            cases hmode : env.encrypted with
            | true =>
                obtain ⟨c⟩ := hcipher hmode
                refine Coupling.keeps_bind (keeps_encrypt c _ _) fun message _ _ _ => ?_
                refine Coupling.keeps_bind (keeps_peek _ _ _) fun data _ _ hdata => ?_
                exact keeps_write newsd (.inr rfl) data _
                  (load_length _ _ _ _ (peek_returns _ _ _ _ _ _ hdata)) _ (Coupling.keeps_pure ())
            | false =>
                refine Coupling.keeps_bind (keeps_peek _ _ _) fun data _ _ hdata => ?_
                exact keeps_write newsd (.inr rfl) data _
                  (load_length _ _ _ _ (peek_returns _ _ _ _ _ _ hdata)) _ (Coupling.keeps_pure ())

theorem keeps_round (hcipher : env.encrypted = true → Nonempty (Cipher env.dev))
    (line : Option (Option CString)) (conn : Bool) (buf : List Byte) :
    (coupling newsd first).Keeps (OneToOne.round env prompt newsd line conn buf) := by
  have hline : (coupling newsd first).Keeps (OneToOne.readChar env prompt newsd line) := by
    cases line with
    | none => exact Coupling.keeps_pure ()
    | some line => exact keeps_myRlhandler hcipher line
  refine Coupling.keeps_bind hline fun _ _ _ _ => ?_
  cases conn with
  | true => exact keeps_getAndPrint hcipher buf
  | false => exact Coupling.keeps_pure _

end Coupled

section Runs

-- How the two sessions stand as long as the first one has not been lost.
structure Together (first : World) (s t : State) : Prop where
  stopped : s.stopped = t.stopped
  notExit : ∀ status, s.stopped ≠ some (.exit status)
  ended : s.ended = t.ended
  unmet : Unmet (outcomes newsd first) (outcomes newsd s.world)
  running : s.stopped = none → s.buf = t.buf ∧ Beside newsd first s.world t.world

variable {env prompt newsd}

theorem together_start (w : World) (buf : List Byte) :
    Together newsd w (start w buf) (start (calm w) buf) where
  stopped := rfl
  notExit := nofun
  ended := rfl
  unmet := .rfl
  running := fun _ => ⟨rfl, ⟨rfl, rfl, rfl⟩, rfl, .rfl⟩

-- An outcome of `select` loses the session if it is an error, and else only by one of
-- the calls behind it.
theorem step_together (hcipher : env.encrypted = true → Nonempty (Cipher env.dev)) {first : World}
    {s t s' : State} (h : Together newsd first s t) (outcome : Select)
    (next : step env prompt newsd s outcome = some s') :
    (s'.stopped = some (.exit 1) ∧
      (¬outcome.Succeeds ∨ ∃ t ∈ outcomes newsd first, ¬t.Succeeds)) ∨
    (outcome.Succeeds ∧ ∃ t', step env prompt newsd t outcome = some t' ∧
      Together newsd first s' t') := by
  cases hstopped : s.stopped with
  | some stop => simp [step, hstopped] at next
  | none =>
      cases hended : s.ended with
      | true => simp [step, hstopped, hended] at next
      | false =>
          cases outcome with
          | failed errno =>
              simp only [step, hstopped, hended, Option.some.injEq] at next
              subst next
              exact .inl ⟨rfl, .inl id⟩
          | ready line conn =>
              obtain ⟨hbuf, hbeside⟩ := h.running hstopped
              have hstopped' := h.stopped.symm.trans hstopped
              have hended' := h.ended.symm.trans hended
              have hround : (coupling newsd first).Ends
                  (OneToOne.round env prompt newsd line conn s.buf s.world)
                  (OneToOne.round env prompt newsd line conn s.buf t.world) :=
                keeps_round hcipher line conn s.buf _ _ hbeside
              simp only [step, hstopped, hended] at next
              simp only [step, hstopped', hended', ← hbuf]
              generalize OneToOne.round env prompt newsd line conn s.buf s.world = r at hround next
              generalize OneToOne.round env prompt newsd line conn s.buf t.world = r' at hround
              cases hround with
              | ok a w v hworlds =>
                  cases next
                  exact .inr ⟨trivial, _, rfl, rfl, nofun, rfl, hworlds.unmet, fun _ => ⟨rfl, hworlds⟩⟩
              | error e e' w v hstops =>
                  obtain ⟨rfl, rfl, hunmet⟩ := hstops
                  cases next
                  exact .inr ⟨trivial, _, rfl, rfl, nofun, rfl, hunmet, nofun⟩
              | escape e w r hescape =>
                  obtain ⟨rfl, hmet⟩ := hescape
                  cases next
                  exact .inl ⟨rfl, .inr hmet⟩

theorem run_together (hcipher : env.encrypted = true → Nonempty (Cipher env.dev)) (w : World)
    (buf : List Byte) (selects : List Select) (s : State)
    (run : Run (step env prompt newsd) (fun _ _ => True) (start w buf) selects s) :
    (s.stopped = some (.exit 1) ∧
      ((∃ o ∈ selects, ¬o.Succeeds) ∨ ∃ t ∈ outcomes newsd w, ¬t.Succeeds)) ∨
    ((∀ o ∈ selects, o.Succeeds) ∧
      ∃ t, Run (step env prompt newsd) (fun _ _ => True) (start (calm w) buf) selects t ∧
        Together newsd w s t) := by
  induction run with
  | nil => exact .inr ⟨nofun, _, .nil _, together_start w buf⟩
  | @snoc m u selects outcome run _ next ih =>
      rcases ih with ⟨hexit, -⟩ | ⟨hall, t, hrun, htogether⟩
      · simp [step, hexit] at next
      · rcases step_together hcipher htogether outcome next with ⟨hexit, hlost⟩ | ⟨hok, t', next', h'⟩
        · refine .inl ⟨hexit, hlost.imp (fun hbad => ⟨outcome, by simp, hbad⟩) id⟩
        · refine .inr ⟨fun o ho => ?_, t', hrun.snoc trivial next', h'⟩
          rcases List.mem_append.mp ho with ho | ho
          · exact hall o ho
          · rw [List.mem_singleton.mp ho]
            exact hok

theorem tested_append {log more : List Event} (h : Tested log) (h' : Tested more) :
    Tested (log ++ more) := by
  intro i hi
  rcases Nat.lt_or_ge i log.length with hlt | hge
  · rw [List.getElem?_append_left hlt] at hi
    obtain ⟨hpos, hbefore⟩ := h i hi
    exact ⟨hpos, by rw [List.getElem?_append_left (by omega), hbefore]⟩
  · rw [List.getElem?_append_right hge] at hi
    obtain ⟨hpos, hbefore⟩ := h' _ hi
    refine ⟨by omega, ?_⟩
    rw [List.getElem?_append_right (by omega), ← hbefore]
    congr 1
    omega

theorem tested_step {s s' : State} (h : Tested s.log) (outcome : Select)
    (next : step env prompt newsd s outcome = some s') : Tested s'.log := by
  have hready : Tested [.select true, .tests] := by
    intro i hi
    match i with
    | 0 => cases hi
    | 1 => exact ⟨by omega, rfl⟩
    | i + 2 => cases hi
  have hfailed : ∀ complaint : List Event, .tests ∉ complaint → Tested (.select false :: complaint) := by
    intro complaint hnot i hi
    have hmem := List.mem_of_getElem? hi
    simp [hnot] at hmem
  unfold step at next
  split at next
  · cases next
    refine tested_append h (hfailed _ ?_)
    split_ifs <;> simp
  · split at next <;> cases next <;> exact tested_append h hready
  · cases next

-- A session is as if there had been no interruption exactly when there has been none,
-- whatever the number of the error is. The lists hold the outcomes of the calls that
-- the session has made.
theorem harmless_iff (hcipher : env.encrypted = true → Nonempty (Cipher env.dev)) (w : World)
    (buf : List Byte) (selects : List Select) (s : State)
    (run : Run (step env prompt newsd) (fun _ _ => True) (start w buf) selects s)
    (hmade : outcomes newsd s.world = []) :
    Harmless env prompt newsd w buf selects s ↔
      (∀ o ∈ selects, o.Succeeds) ∧ ∀ t ∈ outcomes newsd w, t.Succeeds := by
  have hcases := run_together hcipher w buf selects s run
  constructor
  · intro h
    rcases hcases with ⟨hexit, -⟩ | ⟨hall, t, -, htogether⟩
    · exact absurd hexit (h.stays 1)
    · have hunmet := htogether.unmet
      rw [hmade] at hunmet
      exact ⟨hall, hunmet.succeeds⟩
  · rintro ⟨hselects, hcalls⟩
    rcases hcases with ⟨-, ⟨o, ho, hbad⟩ | ⟨t, ht, hbad⟩⟩ | ⟨-, t, hrun, htogether⟩
    · exact absurd (hselects o ho) hbad
    · exact absurd (hcalls t ht) hbad
    · refine ⟨htogether.notExit, ⟨t, ?_, htogether.stopped, htogether.ended, fun hs => ?_⟩, ?_⟩
      · rwa [List.filter_eq_self.mpr fun o ho => decide_eq_true (hselects o ho)]
      · exact (htogether.running hs).2.toSameBytes
      · exact run.invariant (I := fun s => Tested s.log) (fun i hi => by simp [start] at hi)
          fun s o u h _ next => tested_step h o next

end Runs

section Sessions

-- A connection on descriptor 4, with what its calls come to.
def connected (inp : Source Byte) (terminal out : Sink Byte) : World :=
  ((World.fresh.setInp 4 inp).setOut 0 terminal).setOut 4 out

-- A line is sent and a frame is shown, both in pieces.
def inPieces : World :=
  connected ⟨[0, 0, 0, 3, 65, 66, 67], [.upTo 2, .upTo 1, .upTo 5, .upTo 2, .upTo 1]⟩
    ⟨[], [.upTo 1, .upTo 9]⟩ ⟨[], [.upTo 4, .upTo 3, .upTo 3]⟩

theorem pieces_harmless :
    ∃ s, Run (step plainEnv promptMe 4) (fun _ _ => True) (start inPieces (plainEnv.junk BUFF_SIZE))
        [.ready (some (some lineHi)) false, .ready none true] s ∧
      Harmless plainEnv promptMe 4 inPieces (plainEnv.junk BUFF_SIZE)
        [.ready (some (some lineHi)) false, .ready none true] s := by
  obtain ⟨s, run, hmade⟩ := Run.of_guarded (step plainEnv promptMe 4) (fun _ _ => True)
    (start inPieces (plainEnv.junk BUFF_SIZE)) [.ready (some (some lineHi)) false, .ready none true]
    (fun s => outcomes 4 s.world = []) (by decide +kernel)
  have hmade := of_decide_eq_true hmade
  refine ⟨s, run, (harmless_iff (fun h => absurd h (by decide)) _ _ _ s run hmade).mpr ⟨?_, ?_⟩⟩
  · simp [Select.Succeeds]
  · simp [outcomes, inPieces, connected, World.setOut_out_ne, Transfer.Succeeds]

-- A signal during `select`, between two bytes of a header, or in the middle of a frame
-- that is sent: the program exits, and the peer is left with a part of a frame.
theorem interruptions_exit :
    (∃ s, Run (step plainEnv promptMe 4) (fun _ _ => True)
        (start World.fresh (plainEnv.junk BUFF_SIZE)) [.failed EINTR] s ∧
      s.stopped = some (.exit 1) ∧
      ¬Harmless plainEnv promptMe 4 World.fresh (plainEnv.junk BUFF_SIZE) [.failed EINTR] s) ∧
    (∃ s, Run (step plainEnv promptMe 4) (fun _ _ => True)
        (start (connected ⟨[0, 0, 0, 1, 65], [.upTo 2, .fail EINTR]⟩ ⟨[], []⟩ ⟨[], []⟩)
          (plainEnv.junk BUFF_SIZE)) [.ready none true] s ∧
      s.stopped = some (.exit 1) ∧ (s.world.inp 4).pending = [0, 1, 65]) ∧
    ∃ s, Run (step plainEnv promptMe 4) (fun _ _ => True)
        (start (connected ⟨[], []⟩ ⟨[], []⟩ ⟨[], [.upTo 5, .fail EAGAIN]⟩)
          (plainEnv.junk BUFF_SIZE)) [.ready (some (some lineHi)) false] s ∧
      s.stopped = some (.exit 1) ∧ (s.world.out 4).sent = [0, 0, 0, 6, 0x6d] := by
  refine ⟨⟨_, .of_foldlM (fun _ _ _ => trivial) rfl, rfl, fun h => h.stays 1 rfl⟩,
    ⟨_, .of_foldlM (fun _ _ _ => trivial) rfl, rfl, rfl⟩, ?_⟩
  obtain ⟨s, run, hcut⟩ := Run.of_guarded (step plainEnv promptMe 4) (fun _ _ => True)
    (start (connected ⟨[], []⟩ ⟨[], []⟩ ⟨[], [.upTo 5, .fail EAGAIN]⟩) (plainEnv.junk BUFF_SIZE))
    [.ready (some (some lineHi)) false]
    (fun s => s.stopped = some (.exit 1) ∧ (s.world.out 4).sent = [0, 0, 0, 6, 0x6d])
    (by decide +kernel)
  exact ⟨s, run, of_decide_eq_true hcut⟩

end Sessions

end CryptodevChat.EventLoop
