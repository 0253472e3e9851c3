import CryptodevChat.Chat.OneToOne
import CryptodevChat.Server.Attending

namespace CryptodevChat.Server

open Lib (Byte Run)
open Chat (Env World CString Cipher BUFF_SIZE)

-- The process is there, what was to be sent was sent once, and what has arrived can
-- be sent as long as the clients are connected.
structure Survives (cfg : Cfg) (s : State) : Prop where
  alive : s.Alive
  delivered : ∀ t th c j, s.threads t = some th → j < th.ends.length → c ≠ th.me →
    c < th.began.getD j 0 → ((s.conns c).log.filter fun d => d.thread = t ∧ d.frame = j).length = 1
  proceeds : s.Connected → s.fds 0 = some .tty → ∀ t th, s.threads t = some th → th.Intact s →
    th.Complete cfg s → ∃ s' x, Reaches cfg s t x s' ∧ x.pc = .head [] ∧ x.me = th.me ∧
      x.ends.length = th.ends.length + 1

theorem survives_of_run (cfg : Cfg) (actions : List Act) (s : State)
    (run : Run cfg.step (Healthy cfg) State.boot actions s) : Survives cfg s := by
  obtain ⟨hs, hl, hp, hw, ha⟩ : Table s ∧ Locked s ∧ Paced s ∧ Within cfg s ∧ s.Alive := by
    apply run.invariant (I := fun s => Table s ∧ Locked s ∧ Paced s ∧ Within cfg s ∧ s.Alive)
    · exact ⟨table_boot, locked_boot, paced_boot, (fun t th h => by cases h), rfl, rfl⟩
    · rintro s a u ⟨hs, hl, hp, hw, ha⟩ hok h
      exact ⟨table_step hs h, locked_step hs hl h, paced_step hs hp hok.intact h, within_step hw h,
        alive_step hs hl ha hok h⟩
  exact ⟨ha, fun t th c j hth hj hc hbegan => hp.exactly_once hth hj hc hbegan,
    fun hcon htty t th hth hintact hcomplete =>
      have ⟨s', x, hx, hpc, hme, hends, _⟩ := reaches_frame hs hl hw ha hcon htty hth hintact hcomplete
      ⟨s', x, hx, hpc, hme, hends⟩⟩

-- Each counted client is read by a thread of its own, and its frames go on to all the others.
-- The first service that gets to its `close` would end this.
structure Delivers (cfg : Cfg) (s : State) : Prop where
  alive : s.Alive
  broadcasts : cfg.encrypted = false → Broadcasts s
  attended : ∀ k < s.noClient, ∃ th, s.threads k = some th ∧ Attended cfg s k th
  closes : ∀ t s', (s.threads t).map (·.pc) = some .leave → cfg.step s (.thread t .go) = some s' →
    ¬(s'.Alive ∧ Opened s')

theorem delivers_of_run (cfg : Cfg) (actions : List Act) (s : State)
    (run : Run cfg.step (Attends cfg) State.boot actions s) : Delivers cfg s := by
  have hs := (attending_boot cfg).run run
  refine ⟨hs.alive, fun hplain => (hs.serving hplain).broadcasts, fun k hk => ?_, fun t s' hpc h => ?_⟩
  · obtain ⟨th, hth⟩ := Option.isSome_iff_exists.mp ((hs.table.created k).mpr (by omega))
    exact ⟨th, hth, hs.attended hth hk⟩
  · exact hs.closes hpc h

-- Neither server ends, in a run without failing calls on a connection in which the
-- right descriptors are used. While the threads start in time and no service has ended,
-- each client is served and the frames go on to the others, and the one-to-one server
-- goes back to `accept` when it has read what its client sent.
theorem servers_survive (cfg : Cfg) (env : Env) (prompt : CString) (dec : List Byte → List Byte)
    (hcipher : env.encrypted = true → ∃ c : Cipher env.dev, c.dec = dec)
    (halloc : env.mallocs BUFF_SIZE = true) (w : World) (hterminal : (w.out 0).Reliable) :
    (∀ actions s, Run cfg.step (Healthy cfg) State.boot actions s → Survives cfg s) ∧
    (∀ actions s, Run cfg.step (Attends cfg) State.boot actions s → Delivers cfg s) ∧
    (∀ actions s, Run (OneToOne.step env prompt) (OneToOne.Gentle env prompt dec)
        (OneToOne.State.boot env w) actions s →
      s.stopped = none ∧ ∀ fd, s.newsd = some fd →
        (∀ line ready, ∃ s', OneToOne.step env prompt s (.round line ready) = some s') ∧
        ∀ rounds s', Run (OneToOne.step env prompt) (OneToOne.Gentle env prompt dec) s rounds s' →
          (∀ a ∈ rounds, ∃ line, a = .round line true) →
          (s.world.inp fd).pending.length < rounds.length → s'.newsd = none) := by
  refine ⟨fun actions s run => survives_of_run cfg actions s run,
    fun actions s run => delivers_of_run cfg actions s run, fun actions s run => ?_⟩
  have hboot : OneToOne.Serving (OneToOne.State.boot env w) :=
    ⟨rfl, env.junk_length BUFF_SIZE, hterminal, fun fd hfd => by cases hfd⟩
  have hserving : OneToOne.Serving s := run.invariant hboot fun s a u h hok hstep =>
    OneToOne.serving_step hcipher halloc h a hok hstep
  refine ⟨hserving.running, fun fd hfd => ⟨fun line ready => ?_, fun rounds s' hrun hrounds hlong => ?_⟩⟩
  · simp only [OneToOne.step, hserving.running, hfd]
    split <;> exact ⟨_, rfl⟩
  · obtain ⟨_, hend⟩ := OneToOne.rounds_end hcipher halloc hserving fd hfd rounds hrun hrounds
    obtain hend | ⟨_, hle⟩ := hend
    · exact hend
    · omega

-- A frame of the second client has come before its thread has started.
def earlyRun : List Act :=
  [.accept 4, .main, .main, .main, .main, .thread 0 .go, .thread 0 .go,
    .accept 5, .main, .main, .main, .main, .arrive 1 [0, 0, 0, 1, 98]]

-- Two clients and a frame; a frame that can still be sent; and a client of the one-to-one
-- server that comes and goes.
theorem greetingRun_survives :
    (∃ s, Run plain.step (Healthy plain) State.boot greetingRun s ∧ Survives plain s) ∧
    (∃ s, Run plain.step (Attends plain) State.boot greetingRun s ∧ Delivers plain s) ∧
    (∃ s actions s', Run plain.step (Attends plain) State.boot earlyRun s ∧
      Run plain.step (Attends plain) s actions s' ∧
      ((s'.conns 0).log.filter fun d => d.thread = 1 ∧ d.frame = 0).length = 1) ∧
    ∃ actions s, Run (OneToOne.step Chat.plainEnv Chat.promptMe)
      (OneToOne.Gentle Chat.plainEnv Chat.promptMe id) (OneToOne.State.boot Chat.plainEnv World.fresh)
      (.accept 4 ⟨[], []⟩ ⟨[], []⟩ :: actions) s ∧ s.stopped = none ∧ s.newsd = none := by
  have hreliable : ∀ fd, (World.fresh.out fd).Reliable := fun fd t ht => by cases ht
  obtain ⟨hmany, hfair, hone⟩ := servers_survive plain Chat.plainEnv Chat.promptMe id
    (fun h => by cases h) rfl World.fresh (hreliable 0)
  refine ⟨?_, ?_, ?_, ?_⟩
  · obtain ⟨s, run, _⟩ := Run.of_guarded plain.step (Healthy plain) State.boot greetingRun
      (fun _ => true) (by decide +kernel)
    exact ⟨s, run, hmany greetingRun s run⟩
  · obtain ⟨s, run, _⟩ := Run.of_guarded plain.step (Attends plain) State.boot greetingRun
      (fun _ => true) (by decide +kernel)
    exact ⟨s, run, hfair greetingRun s run⟩
  · obtain ⟨s, run, hs⟩ := Run.of_guarded plain.step (Attends plain) State.boot earlyRun
      (fun s => decide (s.threads 1 = some Thread.create ∧ s.noClient = 2 ∧
        (s.conns 1).pending = [0, 0, 0, 1, 98])) (by decide +kernel)
    obtain ⟨hth, hcount, hpending⟩ := of_decide_eq_true hs
    obtain ⟨th, hth', hattended⟩ := (hfair earlyRun s run).attended 1 (by omega)
    cases hth.symm.trans hth'
    have hdue : Thread.create.Due plain s 1 := by
      rw [Thread.Due, if_pos (.inl rfl), hpending, Cfg.Announced]
      decide
    obtain ⟨actions, s', x, run', -, -, -, -, hsent⟩ := hattended.delivers hdue
    exact ⟨s, actions, s', run, run', hsent 0 (by rw [show Thread.create.audience s = 2 from hcount]; decide)
      (by decide)⟩
  · have haccept : Run (OneToOne.step Chat.plainEnv Chat.promptMe)
        (OneToOne.Gentle Chat.plainEnv Chat.promptMe id) (OneToOne.State.boot Chat.plainEnv World.fresh)
        [.accept 4 ⟨[], []⟩ ⟨[], []⟩] _ :=
      .cons (by constructor <;> intro t ht <;> cases ht) rfl (.nil _)
    obtain ⟨_, hserve⟩ := hone _ _ haccept
    obtain ⟨hround, hback⟩ := hserve 4 rfl
    obtain ⟨s', hs'⟩ := hround none true
    have hgentle : ∀ s : OneToOne.State, s.newsd = some 4 → (s.world.inp 4).pending = [] →
        OneToOne.Gentle Chat.plainEnv Chat.promptMe id s (.round none true) := by
      intro s hfd hnone
      refine ⟨fun l hl => (by cases hl), fun _ fd hfd' hlen => ?_⟩
      rw [hfd] at hfd'
      cases hfd'
      simp [hnone] at hlen
    have hrun : Run (OneToOne.step Chat.plainEnv Chat.promptMe)
        (OneToOne.Gentle Chat.plainEnv Chat.promptMe id) _ [.round none true] s' :=
      .cons (hgentle _ rfl rfl) hs' (.nil s')
    refine ⟨[.round none true], s', haccept.append hrun, ?_, ?_⟩
    · exact (hone _ _ (haccept.append hrun)).1
    · exact hback _ s' hrun (by simp) (by simp)

-- The client of thread 0 resets its connection.
def resetRun : List Act :=
  [.accept 4, .main, .main, .main, .main, .thread 0 .go, .thread 0 .go, .hangup 0, .thread 0 .reset]

-- Client 0 hangs up, and its thread closes the descriptor in the next free slot of the
-- table, which is 0. Then client 1 sends a frame, which cannot be shown.
def eofRun : List Act :=
  [.accept 4, .main, .main, .main, .main, .thread 0 .go, .thread 0 .go,
    .accept 5, .main, .main, .main, .main, .thread 1 .go, .thread 1 .go,
    .hangup 0, .thread 0 .eof, .thread 0 .go,
    .arrive 1 [0, 0, 0, 1, 98], .thread 1 (.read 4), .thread 1 .go, .thread 1 (.read 1), .thread 1 .go,
    .thread 1 .badf]

-- A connection on which the first `read` fails.
def resetOnce : List OneToOne.Act := [.accept 4 ⟨[], [.fail 104]⟩ ⟨[], []⟩, .round none true]

theorem disconnect_kills :
    (∃ s, Run plain.step (fun _ _ => True) State.boot resetRun s ∧ s.exited = true) ∧
    (∃ s, Run plain.step (fun _ _ => True) State.boot eofRun s ∧ s.exited = true) ∧
    ∃ s, Run (OneToOne.step Chat.plainEnv Chat.promptMe) (fun _ _ => True)
      (OneToOne.State.boot Chat.plainEnv World.fresh) resetOnce s ∧ s.stopped = some (.exit 1) := by
  refine ⟨?_, ?_, ?_⟩
  · exact Run.of_guarded plain.step (fun _ _ => True) State.boot resetRun (·.exited) (by decide +kernel)
  · exact Run.of_guarded plain.step (fun _ _ => True) State.boot eofRun (·.exited) (by decide +kernel)
  · obtain ⟨s, run, hs⟩ := Run.of_guarded (OneToOne.step Chat.plainEnv Chat.promptMe) (fun _ _ => True)
      (OneToOne.State.boot Chat.plainEnv World.fresh) resetOnce
      (fun s => decide (s.stopped = some (.exit 1))) (by decide +kernel)
    exact ⟨s, run, of_decide_eq_true hs⟩

end CryptodevChat.Server
