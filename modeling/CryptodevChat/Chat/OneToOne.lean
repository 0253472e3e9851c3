import CryptodevChat.Chat.Bounds
import CryptodevChat.Chat.RoundTrip
import CryptodevChat.Lib.Run

namespace CryptodevChat.OneToOne

open Lib
open Chat

-- The one-to-one server between two calls of `accept` or of `select`: it waits for a
-- connection (`newsd = none`) or serves one.
structure State where
  world : World
  buf : List Byte
  newsd : Option Nat
  stopped : Option Stop

-- The channel of a new connection holds all that its client will ever send. In a
-- round readline may hand over a line, or report the end of its input, and the
-- connection may be ready.
inductive Act
  | accept (fd : Nat) (inp : Source Byte) (out : Sink Byte)
  | round (line : Option (Option CString)) (ready : Bool)

variable (env : Env) (prompt : CString)

-- `rl_callback_read_char` calls the handler at the end of a line.
def readChar (newsd : Nat) : Option (Option CString) → Proc Unit
  | none => return ()
  | some line => myRlhandler env prompt newsd line

-- The body of the inner loop of `main`, after `select`.
def round (newsd : Nat) (line : Option (Option CString)) (ready : Bool) (buf : List Byte) :
    Proc (Int × List Byte) := do
  readChar env prompt newsd line
  if ready then getAndPrint env buf newsd else return (0, buf)

-- `get_and_print` returns 1 when the client went away; then `newsd` is closed. The
-- standard descriptors and the listening socket stay open.
def step (s : State) (a : Act) : Option State :=
  match s.stopped, s.newsd, a with
  | none, none, .accept fd inp out =>
      if 3 < fd then
        some { s with world := (s.world.setInp fd inp).setOut fd out, newsd := some fd }
      else none
  | none, some fd, .round line ready =>
      match round env prompt fd line ready s.buf s.world with
      | .error stop w => some { s with world := w, stopped := some stop }
      | .ok (r, buf) w =>
          some { s with world := w, buf := buf, newsd := if r = 1 then none else some fd }
  | _, _, _ => none

def State.boot (w : World) : State := ⟨w, env.junk BUFF_SIZE, none, none⟩

-- No call on a connection fails, and lines and frames fit into their buffers.
def Gentle (dec : List Byte → List Byte) (s : State) : Act → Prop
  | .accept _ inp out => inp.Reliable ∧ out.Reliable
  | .round line ready => (∀ l, line = some (some l) → l.bytes = [] ∨ Fits env.encrypted prompt l) ∧
      (ready = true → ∀ fd, s.newsd = some fd → RecvFits env dec (s.world.inp fd).pending)

-- What a service keeps.
structure Serving (s : State) : Prop where
  running : s.stopped = none
  buf : s.buf.length = BUFF_SIZE
  terminal : (s.world.out 0).Reliable
  connection : ∀ fd, s.newsd = some fd → 3 < fd ∧ (s.world.inp fd).Reliable ∧ (s.world.out fd).Reliable

section Calls

variable {env prompt}

-- Without failing calls a read is full or reports the end of the stream.
theorem insistRead_reliable (fd : Nat) (buf : List Byte) (count : Nat) (w : World)
    (hr : (w.inp fd).Reliable) (hroom : min count (w.inp fd).pending.length ≤ buf.length) :
    ∃ n next s, insistRead fd buf 0 count w = .ok (n, next) (w.setInp fd s) ∧
      next.length = buf.length ∧ s.Reliable ∧
      (n = 0 ∨ n = count ∧ 0 < count ∧ count ≤ (w.inp fd).pending.length ∧
        store buf 0 ((w.inp fd).pending.take count) = some next ∧
        s.pending = (w.inp fd).pending.drop count) := by
  by_cases hcount : count ≤ (w.inp fd).pending.length
  · have hstore := store_eq_some buf 0 ((w.inp fd).pending.take count) (by
      rw [List.length_take]; omega)
    obtain ⟨s, hread, hs, hrel⟩ := insistRead_full fd buf _ 0 count w hr hcount hstore
    refine ⟨count, _, s, hread, store_length _ _ _ _ hstore, hrel, ?_⟩
    by_cases hzero : count = 0
    · exact .inl (by omega)
    · exact .inr ⟨rfl, by omega, hcount, hstore, hs⟩
  · have hstore := store_eq_some buf 0 (w.inp fd).pending (by omega)
    obtain ⟨s, hread, _, hrel⟩ := insistRead_eof fd buf _ 0 count w hr (by omega) hstore
    exact ⟨0, _, s, hread, store_length _ _ _ _ hstore, hrel, .inl rfl⟩

-- The outcome of `get_and_print` when no call fails and the frame fits: it has
-- shown a frame, or the client went away.
structure Handled (sd : Nat) (w : World) (r : Int) (buf : List Byte) (s : Source Byte)
    (o : Sink Byte) : Prop where
  buf : buf.length = BUFF_SIZE
  inp : s.Reliable
  out : o.Reliable
  result : r = 1 ∨ r = 0 ∧ s.pending.length < (w.inp sd).pending.length

theorem getAndPrint_gone (sd : Nat) (w : World) (buf : List Byte) (s : Source Byte)
    (hbuf : buf.length = BUFF_SIZE) (hs : s.Reliable) (hout : (w.out 0).Reliable) (next : Proc (Int × List Byte)) :
    ∃ r buf' s' o, (if (0 : Int) < 0 then exit 1 else if (0 : Int) ≤ 0 then return (1, buf) else next)
        (w.setInp sd s) = .ok (r, buf') ((w.setInp sd s').setOut 0 o) ∧ Handled sd w r buf' s' o := by
  refine ⟨1, buf, s, w.out 0, ?_, hbuf, hs, hout, .inl rfl⟩
  rw [if_neg (by omega), if_pos (Int.le_refl 0)]
  rw [show w.out 0 = (w.setInp sd s).out 0 from rfl, World.setOut_self]
  rfl

theorem getAndPrint_shown (sd : Nat) (w : World) (buf message : List Byte) (off size : Nat)
    (s : Source Byte) (hbuf : buf.length = BUFF_SIZE) (hs : s.Reliable) (hout : (w.out 0).Reliable)
    (hload : load buf off size = some message)
    (hless : s.pending.length < (w.inp sd).pending.length) :
    ∃ r buf' s' o, (do display buf off size; return ((0 : Int), buf)) (w.setInp sd s) =
        .ok (r, buf') ((w.setInp sd s').setOut 0 o) ∧ Handled sd w r buf' s' o := by
  obtain ⟨o, hd, _, ho⟩ := display_run buf message off size (w.setInp sd s) hload (by simpa using hout)
  refine ⟨0, buf, s, o, ?_, hbuf, hs, ho, .inr ⟨rfl, hless⟩⟩
  rw [bind_ok _ _ _ _ _ hd]
  rfl

theorem getAndPrint_handled (dec : List Byte → List Byte)
    (hcipher : env.encrypted = true → ∃ c : Cipher env.dev, c.dec = dec) (buf : List Byte) (sd : Nat)
    (w : World) (hbuf : buf.length = BUFF_SIZE) (hin : (w.inp sd).Reliable)
    (hout : (w.out 0).Reliable) (hfit : RecvFits env dec (w.inp sd).pending) :
    ∃ r buf' s o, getAndPrint env buf sd w = .ok (r, buf') ((w.setInp sd s).setOut 0 o) ∧
      Handled sd w r buf' s o := by
  have hsizes := block_le_buff
  unfold getAndPrint
  cases hmode : env.encrypted with
  | true =>
      obtain ⟨c, rfl⟩ := hcipher hmode
      simp only [RecvFits, hmode, if_true] at hfit ⊢
      obtain ⟨n, next, s, hread, hnext, hs, hn⟩ := insistRead_reliable sd buf DATA_SIZE w hin (by omega)
      rw [bind_ok _ _ _ _ _ hread]
      dsimp only
      rcases hn with rfl | ⟨rfl, _, hlen, hstore, hrest⟩
      · exact getAndPrint_gone sd w next s (hnext.trans hbuf) hs hout _
      · rw [after_full DATA_SIZE block_pos]
        have hblock : ((w.inp sd).pending.take DATA_SIZE).length = DATA_SIZE := by
          rw [List.length_take]
          omega
        have htake := take_store_add _ _ _ _ hstore
        rw [Nat.zero_add, hblock, List.take_zero, List.nil_append] at htake
        obtain ⟨hdec, hword, hload⟩ :=
          decrypt_block env c next _ (w.setInp sd s) hblock (by omega) htake
        rw [bind_ok _ _ _ _ _ hdec, bind_ok _ _ _ _ _ (peek_run _ _ _ _ _ hword), ← headerSize]
        have hdlen := c.dec_length _ hblock
        refine getAndPrint_shown sd w _ _ 4 _ s ?_ hs hout (hload _ (hfit hlen)) ?_
        · simp only [List.length_append, List.length_drop, hdlen]
          omega
        · rw [hrest, List.length_drop]
          have := block_pos
          omega
  | false =>
      simp only [RecvFits, hmode, Bool.false_eq_true, if_false] at hfit ⊢
      have hjunk := env.junk_length 4
      obtain ⟨n, word, s, hread, _, hs, hn⟩ := insistRead_reliable sd (env.junk 4) 4 w hin (by omega)
      rw [bind_ok _ _ _ _ _ hread]
      dsimp only
      rcases hn with rfl | ⟨rfl, _, hlen, hstore, hrest⟩
      · exact getAndPrint_gone sd w buf s hbuf hs hout _
      · rw [after_full 4 (by omega)]
        have hsize : fromBe word = headerSize (w.inp sd).pending := by
          rw [store_all _ _ _ hstore (by rw [hjunk, List.length_take]; omega)]
          rfl
        rw [hsize]
        have hfit := hfit hlen
        have hroom : min (headerSize (w.inp sd).pending) s.pending.length ≤ buf.length := by
          rw [hrest, List.length_drop, hbuf]
          exact hfit
        obtain ⟨n, next, s', hread', hnext, hs', hn⟩ := insistRead_reliable sd buf
          (headerSize (w.inp sd).pending) (w.setInp sd s) (by simpa using hs) (by simpa using hroom)
        rw [bind_ok _ _ _ _ _ hread']
        dsimp only
        rw [World.setInp_setInp]
        rcases hn with rfl | ⟨rfl, hpos, hlen', hbody, hrest'⟩
        · exact getAndPrint_gone sd w next s' (hnext.trans hbuf) hs' hout _
        · rw [after_full _ hpos]
          have hload := load_store _ _ _ _ hbody
          rw [World.setInp_inp] at hload hrest' hlen'
          have htake : (s.pending.take (headerSize (w.inp sd).pending)).length =
              headerSize (w.inp sd).pending := by
            rw [List.length_take]
            omega
          rw [htake] at hload
          refine getAndPrint_shown sd w next _ 0 _ s' (hnext.trans hbuf) hs' hout hload ?_
          rw [hrest', hrest, List.length_drop, List.length_drop]
          omega

-- A line that fits is sent, or is empty, or there is none.
theorem readChar_sends (prompt : CString) (hcipher : env.encrypted = true → Nonempty (Cipher env.dev))
    (halloc : env.mallocs BUFF_SIZE = true) (newsd : Nat) (line : Option (Option CString)) (w : World)
    (hout : (w.out newsd).Reliable)
    (hfit : ∀ l, line = some (some l) → l.bytes = [] ∨ Fits env.encrypted prompt l) :
    ∃ o, readChar env prompt newsd line w = .ok () (w.setOut newsd o) ∧ o.Reliable := by
  have hsame : ∃ o, (.ok () w : EStateM.Result Stop World Unit) = .ok () (w.setOut newsd o) ∧
      o.Reliable := ⟨w.out newsd, by rw [World.setOut_self], hout⟩
  cases line with
  | none => exact hsame
  | some line =>
      cases line with
      | none => exact hsame
      | some l =>
          by_cases hempty : l.bytes = []
          · simp only [readChar, myRlhandler_empty env prompt l newsd w hempty]
            exact hsame
          · have hfit := (hfit l rfl).resolve_left hempty
            unfold Fits at hfit
            cases hmode : env.encrypted with
            | false =>
                simp only [hmode, Bool.false_eq_true, if_false] at hfit
                obtain ⟨o, hrun, _, ho⟩ := myRlhandler_plain env prompt l newsd w hmode halloc hempty
                  (by omega) hout
                exact ⟨o, hrun, ho⟩
            | true =>
                simp only [hmode, if_true] at hfit
                obtain ⟨k⟩ := hcipher hmode
                obtain ⟨o, hrun, _, ho⟩ := myRlhandler_encrypted env prompt l newsd w hmode k halloc
                  hempty (by omega) hout
                exact ⟨o, hrun, ho⟩

end Calls

section Service

variable {env prompt} {dec : List Byte → List Byte} {s s' : State}

-- A round without failing calls: it goes on with the service, or back to `accept`. When
-- the connection was ready, something of what its client sent has been used up.
theorem round_serves (hcipher : env.encrypted = true → ∃ c : Cipher env.dev, c.dec = dec)
    (halloc : env.mallocs BUFF_SIZE = true) (h : Serving s) (fd : Nat) (hfd : s.newsd = some fd)
    (line : Option (Option CString)) (ready : Bool) (hok : Gentle env prompt dec s (.round line ready))
    (hstep : step env prompt s (.round line ready) = some s') :
    Serving s' ∧ (s'.newsd = none ∨ s'.newsd = some fd ∧
      (ready = true → (s'.world.inp fd).pending.length < (s.world.inp fd).pending.length)) := by
  obtain ⟨hlow, hin, hout⟩ := h.connection fd hfd
  have hne : fd ≠ 0 := by omega
  obtain ⟨hline, hframe⟩ := hok
  obtain ⟨o, hread, ho⟩ := readChar_sends prompt
    (fun he => (hcipher he).elim fun c _ => ⟨c⟩) halloc fd line s.world hout hline
  have hterminal : ((s.world.setOut fd o).out 0).Reliable := by
    rw [World.setOut_out_ne _ _ _ _ hne.symm]
    exact h.terminal
  cases hready : ready with
  | false =>
      have hround : round env prompt fd line ready s.buf s.world =
          .ok (0, s.buf) (s.world.setOut fd o) := by
        unfold round
        rw [bind_ok _ _ _ _ _ hread, hready]
        rfl
      simp only [step, h.running, hfd, hround] at hstep
      cases hstep
      refine ⟨⟨rfl, h.buf, hterminal, ?_⟩, .inr ⟨rfl, by simp⟩⟩
      rintro _ ⟨⟩
      exact ⟨hlow, by simpa using hin, by simpa using ho⟩
  | true =>
      obtain ⟨r, buf, src, sink, hget, hhandled⟩ := getAndPrint_handled dec hcipher s.buf fd
        (s.world.setOut fd o) h.buf (by simpa using hin) hterminal
        (by simpa using hframe hready fd hfd)
      have hround : round env prompt fd line ready s.buf s.world =
          .ok (r, buf) (((s.world.setOut fd o).setInp fd src).setOut 0 sink) := by
        unfold round
        rw [bind_ok _ _ _ _ _ hread, hready]
        exact hget
      simp only [step, h.running, hfd, hround] at hstep
      cases hstep
      refine ⟨⟨rfl, hhandled.buf, by simpa using hhandled.out, ?_⟩, ?_⟩
      · intro fd' hfd'
        dsimp only at hfd'
        split_ifs at hfd'
        cases hfd'
        refine ⟨hlow, by simpa using hhandled.inp, ?_⟩
        rw [World.setOut_out_ne _ _ _ _ hne, World.setInp_out, World.setOut_out]
        exact ho
      · rcases hhandled.result with rfl | ⟨rfl, hless⟩
        · exact .inl rfl
        · exact .inr ⟨rfl, fun _ => by simpa using hless⟩

theorem accept_serves (h : Serving s) (hidle : s.newsd = none) (fd : Nat) (inp : Source Byte)
    (out : Sink Byte) (hok : inp.Reliable ∧ out.Reliable)
    (hstep : step env prompt s (.accept fd inp out) = some s') : Serving s' := by
  simp only [step, h.running, hidle] at hstep
  split_ifs at hstep with hfd
  cases hstep
  refine ⟨rfl, h.buf, ?_, ?_⟩
  · rw [World.setOut_out_ne _ _ _ _ (by omega), World.setInp_out]
    exact h.terminal
  · rintro _ ⟨⟩
    exact ⟨hfd, by simpa using hok.1, by simpa using hok.2⟩

-- The server serves the connection or waits for one, in every run without failing calls.
theorem serving_step (hcipher : env.encrypted = true → ∃ c : Cipher env.dev, c.dec = dec)
    (halloc : env.mallocs BUFF_SIZE = true) (h : Serving s) (a : Act)
    (hok : Gentle env prompt dec s a) (hstep : step env prompt s a = some s') : Serving s' := by
  cases a with
  | accept fd inp out =>
      cases hfd : s.newsd with
      | none => exact accept_serves h hfd fd inp out hok hstep
      | some fd' =>
          simp only [step, h.running, hfd] at hstep
          cases hstep
  | round line ready =>
      cases hfd : s.newsd with
      | none =>
          simp only [step, h.running, hfd] at hstep
          cases hstep
      | some fd => exact (round_serves hcipher halloc h fd hfd line ready hok hstep).1

-- As long as the connection stays, every round in which it is ready uses up a byte at least.
theorem rounds_end (hcipher : env.encrypted = true → ∃ c : Cipher env.dev, c.dec = dec)
    (halloc : env.mallocs BUFF_SIZE = true) (h : Serving s) (fd : Nat) (hfd : s.newsd = some fd)
    (rounds : List Act) (run : Run (step env prompt) (Gentle env prompt dec) s rounds s')
    (hrounds : ∀ a ∈ rounds, ∃ line, a = .round line true) :
    Serving s' ∧ (s'.newsd = none ∨ s'.newsd = some fd ∧
      (s'.world.inp fd).pending.length + rounds.length ≤ (s.world.inp fd).pending.length) := by
  induction run with
  | nil => exact ⟨h, .inr ⟨hfd, by simp⟩⟩
  | @snoc m u actions a run ok next ih =>
      obtain ⟨hm, hcase⟩ := ih fun b hb => hrounds b (List.mem_append_left _ hb)
      obtain ⟨line, rfl⟩ := hrounds a (by simp)
      rcases hcase with hidle | ⟨hserve, hle⟩
      · simp only [step, hm.running, hidle] at next
        cases next
      · obtain ⟨hu, hend⟩ := round_serves hcipher halloc hm fd hserve line true ok next
        refine ⟨hu, hend.imp id fun ⟨hsame, hless⟩ => ⟨hsame, ?_⟩⟩
        have := hless rfl
        simp only [List.length_append, List.length_singleton]
        omega

end Service

end CryptodevChat.OneToOne
