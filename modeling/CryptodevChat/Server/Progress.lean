import CryptodevChat.Server.Alive

namespace CryptodevChat.Server

open Lib (Byte Run be fromBe)
open Chat (DATA_SIZE)

variable {cfg : Cfg} {s s' : State} {t u : Nat} {th : Thread} {op : Op}

-- The descriptors of the counted clients are open.
def State.Connected (s : State) : Prop :=
  ∀ c < s.noClient, s.fds (s.newsdServe c) = some (.conn c)

-- The steps that are taken here meet both conditions.
def Steady (cfg : Cfg) (s : State) (a : Act) : Prop := Healthy cfg s a ∧ Attends cfg s a

-- Some steps of one thread, at whose end it is `x`.
structure Runs (cfg : Cfg) (s : State) (t : Nat) (x : Thread) (s' : State) : Prop where
  run : ∃ actions, Run cfg.step (Steady cfg) s actions s'
  alive : s'.Alive
  self : s'.threads t = some x
  others : ∀ u ≠ t, s'.threads u = s.threads u
  noClient : s'.noClient = s.noClient
  fds : s'.fds = s.fds
  newsdServe : s'.newsdServe = s.newsdServe

theorem Runs.refl (ha : s.Alive) (hth : s.threads t = some th) : Runs cfg s t th s :=
  ⟨⟨[], .nil s⟩, ha, hth, fun _ _ => rfl, rfl, rfl, rfl⟩

theorem Runs.trans {m : State} {x y : Thread} (h : Runs cfg s t x m) (h' : Runs cfg m t y s') :
    Runs cfg s t y s' := by
  obtain ⟨first, hfirst⟩ := h.run
  obtain ⟨second, hsecond⟩ := h'.run
  refine ⟨⟨first ++ second, hfirst.append hsecond⟩, h'.alive, h'.self, fun u hu => ?_, ?_, ?_, ?_⟩
  · rw [h'.others u hu, h.others u hu]
  · rw [h'.noClient, h.noClient]
  · rw [h'.fds, h.fds]
  · rw [h'.newsdServe, h.newsdServe]

theorem step_thread (ha : s.Alive) (hth : s.threads t = some th) :
    cfg.step s (.thread t op) = cfg.threadStep s t th op := by
  simp [Cfg.step, ha.1, ha.2, hth]

theorem Runs.step (ha : s.Alive) (hth : s.threads t = some th)
    (hsteady : Steady cfg s (.thread t op)) (x : Thread)
    (h : cfg.threadStep s t th op = some s') (hx : s'.threads = Function.update s.threads t (some x))
    (halive : s'.Alive) (hn : s'.noClient = s.noClient) (hfds : s'.fds = s.fds)
    (hslots : s'.newsdServe = s.newsdServe) : Runs cfg s t x s' := by
  refine ⟨⟨[.thread t op], ?_⟩, halive, by rw [hx, Function.update_self], fun u hu => ?_, hn, hfds, hslots⟩
  · exact .cons hsteady (by rw [step_thread ha hth, h]) (.nil s')
  · rw [hx, Function.update_of_ne hu]

theorem steady_thread (hth : s.threads t = some th) (hintact : th.Intact s) (hsized : th.Sized cfg)
    (hfilled : th.Filled cfg) (hleave : th.pc ≠ .leave)
    (hop : op = .go ∨ (∃ n, op = .write n) ∨ ∃ n, op = .read n) : Steady cfg s (.thread t op) := by
  have hcall : op ≠ .reset ∧ op ≠ .pipe := by
    rcases hop with rfl | ⟨n, rfl⟩ | ⟨n, rfl⟩ <;> simp
  refine ⟨⟨hcall.1, hcall.2, fun y hy => ?_⟩, hcall.1, hcall.2, fun y hy => ?_⟩
  · rw [Option.mem_def, hth] at hy
    cases hy
    exact ⟨hintact, hsized, fun hpc => absurd hpc hleave⟩
  · rw [Option.mem_def, hth] at hy
    cases hy
    exact ⟨hleave, hsized, hfilled⟩

-- A thread that is not at its first read.
theorem steady_aside (hth : s.threads t = some th) (hintact : th.Intact s) (hreading : th.pc.reading = none)
    (hleave : th.pc ≠ .leave) (hop : op = .go ∨ (∃ n, op = .write n) ∨ ∃ n, op = .read n) :
    Steady cfg s (.thread t op) := by
  refine steady_thread hth hintact ?_ ?_ hleave hop
  · intro got hgot
    rw [hreading] at hgot
    cases hgot
  · intro got hgot
    rw [hreading] at hgot
    cases hgot

-- In the loop of `forward` nothing is read.
theorem steady_distributing (hth : s.threads t = some th) (hintact : th.Intact s)
    (hdist : th.pc.distributing = true) (hop : op = .go ∨ ∃ n, op = .write n) :
    Steady cfg s (.thread t op) := by
  refine steady_aside hth hintact ?_ ?_ (hop.imp_right .inl)
  · cases hpc : th.pc with
    | head => rw [hpc] at hdist; cases hdist
    | _ => rfl
  · intro hpc
    rw [hpc] at hdist
    cases hdist

-- A step that uses no descriptor.
theorem Runs.go (ha : s.Alive) (hth : s.threads t = some th) (hmeant : th.meant = none)
    (hdist : th.pc.distributing = true) (x : Thread) (h : cfg.threadStep s t th .go = some s')
    (hx : s'.threads = Function.update s.threads t (some x)) (halive : s'.Alive)
    (hn : s'.noClient = s.noClient) (hfds : s'.fds = s.fds) (hslots : s'.newsdServe = s.newsdServe) :
    Runs cfg s t x s' := by
  refine .step ha hth (steady_distributing hth ?_ hdist (.inl rfl)) x h hx halive hn hfds hslots
  intro y hy
  rw [hmeant] at hy
  cases hy

-- The critical section, from its end backwards.
theorem runs_post (cfg : Cfg) (ha : s.Alive) (hth : s.threads t = some th) (msg : Msg) (c : Nat)
    (hpc : th.pc = .post msg c) (hc : s.locks c = some 0) :
    ∃ s', Runs cfg s t { th with pc := .test msg (c + 1) } s' ∧
      s'.locks = Function.update s.locks c (some 1) := by
  have h : cfg.threadStep s t th .go = some { s.put t { th with pc := .test msg (c + 1) } with
      locks := Function.update s.locks c ((s.locks c).map (· + 1)) } := by
    simp only [Cfg.threadStep, hpc]
  exact ⟨_, Runs.go ha hth (by simp [Thread.meant, hpc]) (by rw [hpc]; rfl) _ h rfl ha rfl rfl rfl,
    by simp [hc]⟩

theorem runs_send (cfg : Cfg) (ha : s.Alive) (hth : s.threads t = some th) (msg : Msg) (c fd : Nat)
    (data rest : List Byte) (hpc : th.pc = .send msg c fd data rest) (hfd : s.fds fd = some (.conn c)) :
    ∃ s', Runs cfg s t { th with pc := .post msg c } s' ∧ s'.locks = s.locks := by
  have hintact : ∀ (s : State) (x : Thread) (rest : List Byte), x.pc = .send msg c fd data rest →
      s.fds fd = some (.conn c) → x.Intact s := by
    intro s x rest hpc hfd
    simpa [Thread.Intact, Thread.meant, hpc] using hfd
  -- When nothing is left, the step after the loop of `insist_write`.
  have hlast : ∀ (s : State) (x : Thread), s.Alive → s.threads t = some x →
      x.pc = .send msg c fd data [] → s.fds fd = some (.conn c) →
      ∃ s', Runs cfg s t { x with pc := .post msg c } s' ∧ s'.locks = s.locks := by
    intro s x ha hx hpc hfd
    have h : cfg.threadStep s t x .go = some ((s.put t { x with pc := .post msg c }).setConn c
        { s.conns c with log := (s.conns c).log ++ [⟨t, x.frames.length - 1, data⟩] }) := by
      simp [Cfg.threadStep, hpc, hfd]
    have hsteady : Steady cfg s (.thread t .go) :=
      steady_distributing hx (hintact s x [] hpc hfd) (by rw [hpc]; rfl) (.inl rfl)
    exact ⟨_, Runs.step ha hx hsteady _ h rfl ha rfl rfl rfl, rfl⟩
  by_cases hrest : rest = []
  · subst hrest
    exact hlast s th ha hth hpc hfd
  · have hpos : 0 < rest.length := List.length_pos_iff.mpr hrest
    have h : cfg.threadStep s t th (.write rest.length) =
        some ((s.put t { th with pc := .send msg c fd data [] }).setConn c
          { s.conns c with sent := (s.conns c).sent ++ rest }) := by
      simp [Cfg.threadStep, hpc, State.transmit, hrest, hfd, hpos]
    have hwrite := Runs.step ha hth (steady_distributing hth (hintact s th rest hpc hfd)
      (by rw [hpc]; rfl) (.inr ⟨_, rfl⟩)) _ h rfl ha rfl rfl rfl
    obtain ⟨s', hruns, hlocks⟩ := hlast _ _ hwrite.alive hwrite.self rfl hfd
    exact ⟨s', hwrite.trans hruns, hlocks⟩

theorem runs_hold (cfg : Cfg) (ha : s.Alive) (hth : s.threads t = some th) (msg : Msg) (c : Nat)
    (hpc : th.pc = .hold msg c) :
    ∃ s', Runs cfg s t { th with
      pc := .send (cfg.after msg) c (s.newsdServe c) (cfg.data msg) (cfg.data msg) } s' ∧
      s'.locks = s.locks := by
  have h : cfg.threadStep s t th .go = some (s.put t { th with
      pc := .send (cfg.after msg) c (s.newsdServe c) (cfg.data msg) (cfg.data msg) }) := by
    simp only [Cfg.threadStep, hpc]
  exact ⟨_, Runs.go ha hth (by simp [Thread.meant, hpc]) (by rw [hpc]; rfl) _ h rfl ha rfl rfl rfl, rfl⟩

-- Who holds the semaphore of a connected client can give it back.
theorem runs_release (cfg : Cfg) (ha : s.Alive) (hth : s.threads t = some th) (hp : th.Placed s) (c : Nat)
    (hholding : th.pc.holding = some c) (hc : s.locks c = some 0)
    (hfd : s.fds (s.newsdServe c) = some (.conn c)) :
    ∃ s' msg, Runs cfg s t { th with pc := .test msg (c + 1) } s' ∧
      s'.locks = Function.update s.locks c (some 1) := by
  have hsend : ∀ (s : State) (x : Thread) (msg : Msg) (fd : Nat) (data rest : List Byte), s.Alive →
      s.threads t = some x → x.pc = .send msg c fd data rest → s.fds fd = some (.conn c) →
      s.locks c = some 0 → ∃ s' msg, Runs cfg s t { x with pc := .test msg (c + 1) } s' ∧
        s'.locks = Function.update s.locks c (some 1) := by
    intro s x msg fd data rest ha hx hpc hfd hc
    obtain ⟨m, hm, hlocks⟩ := runs_send cfg ha hx msg c fd data rest hpc hfd
    obtain ⟨s', hs', hlocks'⟩ :=
      runs_post cfg hm.alive hm.self msg c rfl (by rw [hlocks, hc])
    exact ⟨s', msg, hm.trans hs', by rw [hlocks', hlocks]⟩
  cases hpc : th.pc with
  | hold msg client =>
      rw [hpc] at hholding
      cases hholding
      obtain ⟨m, hm, hlocks⟩ := runs_hold cfg ha hth msg c hpc
      obtain ⟨s', msg', hs', hlocks'⟩ := hsend m _ _ _ _ _ hm.alive hm.self rfl
        (by rw [hm.fds, hfd]) (by rw [hlocks, hc])
      exact ⟨s', msg', hm.trans hs', by rw [hlocks', hlocks]⟩
  | send msg client fd data rest =>
      rw [hpc] at hholding
      cases hholding
      have hslot := hp.sends msg c fd data rest hpc
      exact hsend s th msg fd data rest ha hth hpc (by rw [hslot, hfd]) hc
  | post msg client =>
      rw [hpc] at hholding
      cases hholding
      obtain ⟨s', hs', hlocks⟩ := runs_post cfg ha hth msg c hpc hc
      exact ⟨s', msg, hs', hlocks⟩
  | _ =>
      rw [hpc] at hholding
      cases hholding

theorem runs_lock (cfg : Cfg) (ha : s.Alive) (hth : s.threads t = some th) (msg : Msg) (c : Nat)
    (hpc : th.pc = .wait msg c) (hc : s.locks c = some 1) :
    ∃ s', Runs cfg s t { th with pc := .hold msg c } s' ∧
      s'.locks = Function.update s.locks c (some 0) := by
  have h : cfg.threadStep s t th .go = some { s.put t { th with pc := .hold msg c } with
      locks := Function.update s.locks c (some 0) } := by
    simp only [Cfg.threadStep, hpc, hc]
  exact ⟨_, Runs.go ha hth (by simp [Thread.meant, hpc]) (by rw [hpc]; rfl) _ h rfl ha rfl rfl rfl, rfl⟩

-- A run at whose end thread `t` is `x`, and the table and the descriptors are as before.
structure Reaches (cfg : Cfg) (s : State) (t : Nat) (x : Thread) (s' : State) : Prop where
  run : ∃ actions, Run cfg.step (Steady cfg) s actions s'
  alive : s'.Alive
  self : s'.threads t = some x
  noClient : s'.noClient = s.noClient
  connected : s.Connected → s'.Connected

theorem Runs.reaches {x : Thread} (h : Runs cfg s t x s') : Reaches cfg s t x s' :=
  ⟨h.run, h.alive, h.self, h.noClient, fun hc c hlt => by
    rw [h.fds, h.newsdServe]
    exact hc c (by rwa [h.noClient] at hlt)⟩

-- Another thread has moved.
theorem Runs.aside {x : Thread} (h : Runs cfg s u x s') (hne : t ≠ u) (hth : s.threads t = some th) :
    Reaches cfg s t th s' :=
  ⟨h.run, h.alive, by rw [h.others t hne, hth], h.noClient, h.reaches.connected⟩

theorem Reaches.trans {m : State} {x y : Thread} (h : Reaches cfg s t x m)
    (h' : Reaches cfg m t y s') : Reaches cfg s t y s' := by
  obtain ⟨first, hfirst⟩ := h.run
  obtain ⟨second, hsecond⟩ := h'.run
  exact ⟨⟨first ++ second, hfirst.append hsecond⟩, h'.alive, h'.self, by rw [h'.noClient, h.noClient],
    fun hc => h'.connected (h.connected hc)⟩

theorem Reaches.invariants {x : Thread} (h : Reaches cfg s t x s') (hs : Table s) (hl : Locked s) :
    Table s' ∧ Locked s' := by
  obtain ⟨actions, run⟩ := h.run
  apply run.invariant (I := fun s => Table s ∧ Locked s) ⟨hs, hl⟩
  rintro s a u ⟨hs, hl⟩ _ hstep
  exact ⟨table_step hs hstep, locked_step hs hl hstep⟩

-- A thread in front of a semaphore gets behind it.
theorem reaches_next (cfg : Cfg) (hs : Table s) (hl : Locked s) (ha : s.Alive) (hcon : s.Connected)
    (hth : s.threads t = some th) (msg : Msg) (c : Nat) (hpc : th.pc = .wait msg c) :
    ∃ s' msg, Reaches cfg s t { th with pc := .test msg (c + 1) } s' := by
  have hlt := ((hs.placed t th hth).visited c (by rw [hpc]; rfl)).1
  -- When the semaphore is free, the thread takes it, sends, and gives it back.
  have hfree : ∀ s : State, Table s → s.Alive → s.Connected → s.threads t = some th →
      c < s.noClient → s.locks c = some 1 →
      ∃ s' msg, Reaches cfg s t { th with pc := .test msg (c + 1) } s' := by
    intro s hs ha hcon hth hlt hc
    obtain ⟨m, hm, hlocks⟩ := runs_lock cfg ha hth msg c hpc hc
    have hp : Thread.Placed m { th with pc := .hold msg c } := by
      obtain ⟨actions, run⟩ := hm.run
      exact (run.invariant hs fun s a u hI _ hstep => table_step hI hstep).placed t _ hm.self
    obtain ⟨s', msg', hs', _⟩ := runs_release cfg hm.alive hm.self hp c rfl
      (by rw [hlocks, Function.update_self]) (by rw [hm.fds, hm.newsdServe]; exact hcon c hlt)
    exact ⟨s', msg', (hm.trans hs').reaches⟩
  have hready := hl.ready_of_visiting (hs.placed t th hth) c (by rw [hpc]; rfl)
  obtain ⟨n, hn⟩ := Option.isSome_iff_exists.mp hready
  have hbinary := hl.exclusive.binary c n hn
  by_cases hzero : n = 0
  · -- Somebody else holds it, and can give it back.
    subst hzero
    obtain ⟨u, hu⟩ := hl.exclusive.holder c hn
    obtain ⟨y, hy, hholding⟩ := Option.bind_eq_some_iff.mp hu
    have hne : t ≠ u := by
      rintro rfl
      rw [hth] at hy
      cases hy
      rw [hpc] at hholding
      cases hholding
    obtain ⟨m, _, hm, hlocks⟩ :=
      runs_release cfg ha hy (hs.placed u y hy) c hholding hn (hcon c hlt)
    have haside := hm.aside hne hth
    obtain ⟨s', msg', hs'⟩ := hfree m (haside.invariants hs hl).1 haside.alive (haside.connected hcon)
      haside.self (by rw [haside.noClient]; exact hlt) (by rw [hlocks, Function.update_self])
    exact ⟨s', msg', haside.trans hs'⟩
  · exact hfree s hs ha hcon hth hlt (by rw [hn, show n = 1 by omega])

-- The rest of a loop, by the number of clients that are left.
theorem reaches_end (cfg : Cfg) (left : Nat) : ∀ (s : State) (th : Thread) (msg : Msg) (c : Nat), Table s →
    Locked s → s.Alive → s.Connected → s.threads t = some th → th.pc = .test msg c →
    s.noClient - c = left →
    ∃ s' n, Reaches cfg s t { th with pc := .head [], ends := th.ends ++ [n] } s' := by
  induction left with
  | zero =>
      intro s th msg c hs hl ha hcon hth hpc hleft
      have h : cfg.threadStep s t th .go =
          some (s.put t { th with pc := .head [], ends := th.ends ++ [c] }) := by
        simp [Cfg.threadStep, hpc, show ¬c < s.noClient by omega]
      have hruns := Runs.go ha hth (by simp [Thread.meant, hpc]) (by rw [hpc]; rfl) _ h
        rfl ha rfl rfl rfl
      exact ⟨_, c, hruns.reaches⟩
  | succ left ih =>
      intro s th msg c hs hl ha hcon hth hpc hleft
      have hlt : c < s.noClient := by omega
      -- One client further, the induction hypothesis finishes the loop.
      have hrest : ∀ s' msg', Reaches cfg s t { th with pc := .test msg' (c + 1) } s' →
          ∃ s' n, Reaches cfg s t { th with pc := .head [], ends := th.ends ++ [n] } s' := by
        intro m msg' hm
        obtain ⟨hs', hl'⟩ := hm.invariants hs hl
        obtain ⟨s', n, hs'⟩ := ih m _ msg' (c + 1) hs' hl' hm.alive (hm.connected hcon) hm.self rfl
          (by rw [hm.noClient]; omega)
        exact ⟨s', n, hm.trans hs'⟩
      by_cases hme : c = th.me
      · have h : cfg.threadStep s t th .go = some (s.put t { th with pc := .test msg (c + 1) }) := by
          simp only [Cfg.threadStep, hpc]
          rw [if_pos hlt, if_pos hme]
        have hruns := Runs.go ha hth (by simp [Thread.meant, hpc]) (by rw [hpc]; rfl) _ h
          rfl ha rfl rfl rfl
        exact hrest _ msg hruns.reaches
      · have h : cfg.threadStep s t th .go = some (s.put t { th with pc := .wait msg c }) := by
          simp [Cfg.threadStep, hpc, hlt, hme]
        have hruns := Runs.go ha hth (by simp [Thread.meant, hpc]) (by rw [hpc]; rfl) _ h
          rfl ha rfl rfl rfl
        obtain ⟨hs', hl'⟩ := hruns.reaches.invariants hs hl
        obtain ⟨m, msg', hm⟩ := reaches_next cfg hs' hl' hruns.alive
          (hruns.reaches.connected hcon) hruns.self msg c rfl
        exact hrest m msg' (hruns.reaches.trans hm)

-- A frame that is being distributed can be distributed to the end, while the
-- clients are connected: no thread waits for ever for another one.
theorem reaches_delivery (cfg : Cfg) (hs : Table s) (hl : Locked s) (ha : s.Alive) (hcon : s.Connected)
    (hth : s.threads t = some th) (hdist : th.pc.distributing = true) :
    ∃ s' n, Reaches cfg s t { th with pc := .head [], ends := th.ends ++ [n] } s' := by
  have hp := hs.placed t th hth
  have hnext : ∀ m msg c, Reaches cfg s t { th with pc := .test msg c } m →
      ∃ s' n, Reaches cfg s t { th with pc := .head [], ends := th.ends ++ [n] } s' := by
    intro m msg c hm
    obtain ⟨hs', hl'⟩ := hm.invariants hs hl
    obtain ⟨s', n, hs'⟩ := reaches_end cfg _ m _ msg c hs' hl' hm.alive (hm.connected hcon)
      hm.self rfl rfl
    exact ⟨s', n, hm.trans hs'⟩
  by_cases hholding : ∃ c, th.pc.holding = some c
  · obtain ⟨c, hholding⟩ := hholding
    have hlt := (hp.visited c (Pc.visiting_of_holding hholding)).1
    have hholds : s.holds t = some c := by simp [State.holds, hth, hholding]
    obtain ⟨m, msg, hm, _⟩ := runs_release cfg ha hth hp c hholding
      (hl.exclusive.taken t c hholds) (hcon c hlt)
    exact hnext m msg (c + 1) hm.reaches
  · cases hpc : th.pc with
    | test msg c => exact reaches_end cfg _ s th msg c hs hl ha hcon hth hpc rfl
    | wait msg c =>
        obtain ⟨m, msg', hm⟩ := reaches_next cfg hs hl ha hcon hth msg c hpc
        exact hnext m msg' (c + 1) hm
    | hold msg c | send msg c fd data rest | post msg c =>
        exact absurd ⟨c, by rw [hpc]; rfl⟩ hholding
    | _ =>
        rw [hpc] at hdist
        cases hdist

section Reading

-- A thread never reads more than what `insist_read` was asked for.
def Thread.Within (cfg : Cfg) (th : Thread) : Prop :=
  match th.pc with
  | .head got => got.length ≤ cfg.headSize
  | .body size got => got.length ≤ size
  | _ => True

def Within (cfg : Cfg) (s : State) : Prop := ∀ t th, s.threads t = some th → th.Within cfg

theorem Moves.within (h : Moves cfg s t th op s') (hw : th.Within cfg) (hth : s.threads t = some th)
    (x : Thread) (hx : s'.threads t = some x) : x.Within cfg := by
  cases h with
  | exit | crash =>
      rw [show s.threads t = some x from hx] at hth
      cases hth
      exact hw
  | receive next total hreads got hpc k n hfd hpos hroom hn =>
      cases put_threads_self.symm.trans hx
      have hlen : (got ++ (s.conns k).pending.take n).length ≤ total := by
        rw [List.length_append, List.length_take]
        omega
      cases hreads <;> simpa [Thread.Within] using hlen
  | write next fd hwrites rest hpc | tty next fd hwrites rest hpc =>
      cases put_threads_self.symm.trans hx
      cases hwrites <;> trivial
  | loadSd | header | finish =>
      cases put_threads_self.symm.trans hx
      exact Nat.zero_le _
  | _ =>
      cases put_threads_self.symm.trans hx
      trivial

theorem within_step {a : Act} (hw : Within cfg s) (h : cfg.step s a = some s') : Within cfg s' := by
  cases step_does h with
  | create hmain =>
      have hnew : Thread.create.Within cfg := trivial
      exact fun t th hth => forall_threads_update hw hnew t th hth
  | thread t th op s' hth hmoves =>
      obtain ⟨x, hthreads⟩ := hmoves.threads hth
      have hx := hmoves.within (hw t th hth) hth x (by rw [hthreads, Function.update_self])
      intro u y hy
      rw [hthreads] at hy
      exact forall_threads_update hw hx u y hy
  | _ => exact hw

-- The bytes announce a frame of a size that is accepted, and in plain mode are all there.
def Cfg.Announced (cfg : Cfg) (bytes : List Byte) : Prop :=
  cfg.headSize ≤ bytes.length ∧
    if cfg.encrypted then fromBe ((cfg.dec (bytes.take DATA_SIZE)).take 4) + 4 ≤ DATA_SIZE
    else 0 < fromBe (bytes.take 4) ∧ 4 + fromBe (bytes.take 4) ≤ bytes.length

-- The rest of the frame that a thread is reading has arrived, or it has been read.
def Thread.Complete (cfg : Cfg) (s : State) (th : Thread) : Prop :=
  match th.pc with
  | .head got => cfg.Announced (got ++ (s.conns th.me).pending)
  | .body size got => size ≤ (got ++ (s.conns th.me).pending).length
  | pc => pc.busy = true

theorem runs_display (cfg : Cfg) (ha : s.Alive) (hth : s.threads t = some th) (msg : Msg) (rest : List Byte)
    (hpc : th.pc = .display msg rest) (htty : s.fds 0 = some .tty) :
    ∃ s', Runs cfg s t { th with pc := .test msg 0, began := th.began ++ [s.noClient] } s' := by
  have hsteady : ∀ (s : State) (x : Thread) (rest : List Byte) (op : Op), s.threads t = some x →
      x.pc = .display msg rest → s.fds 0 = some .tty → (op = .go ∨ ∃ n, op = .write n) →
      Steady cfg s (.thread t op) := by
    intro s x rest op hx hpc htty hop
    refine steady_aside hx ?_ (by rw [hpc]; rfl) (by simp [hpc]) (hop.imp_right .inl)
    simpa [Thread.Intact, Thread.meant, hpc] using htty
  have hlast : ∀ (s : State) (x : Thread), s.Alive → s.threads t = some x →
      x.pc = .display msg [] → s.fds 0 = some .tty →
      ∃ s', Runs cfg s t { x with pc := .test msg 0, began := x.began ++ [s.noClient] } s' := by
    intro s x ha hx hpc htty
    have h : cfg.threadStep s t x .go =
        some (s.put t { x with pc := .test msg 0, began := x.began ++ [s.noClient] }) := by
      simp [Cfg.threadStep, hpc]
    exact ⟨_, Runs.step ha hx (hsteady s x [] .go hx hpc htty (.inl rfl)) _ h rfl ha rfl rfl rfl⟩
  by_cases hrest : rest = []
  · subst hrest
    exact hlast s th ha hth hpc htty
  · have hpos : 0 < rest.length := List.length_pos_iff.mpr hrest
    have h : cfg.threadStep s t th (.write rest.length) =
        some (s.put t { th with pc := .display msg [] }) := by
      simp [Cfg.threadStep, hpc, State.transmit, hrest, htty, hpos]
    have hwrite := Runs.step ha hth (hsteady s th rest _ hth hpc htty (.inr ⟨_, rfl⟩)) _ h rfl ha
      rfl rfl rfl
    obtain ⟨s', hs'⟩ := hlast _ _ hwrite.alive hwrite.self rfl htty
    exact ⟨s', hwrite.trans hs'⟩

-- One of the two reads of `forward`, when what it waits for has arrived.
theorem runs_read (cfg : Cfg) (ha : s.Alive) (hth : s.threads t = some th) (next : List Byte → Pc) (total : Nat)
    (hreads : Reads cfg next total) (got : List Byte) (hpc : th.pc = next got)
    (hfd : s.fds th.clientSd = some (.conn th.me)) (hlen : got.length ≤ total)
    (hcome : total ≤ got.length + (s.conns th.me).pending.length) :
    ∃ s', Runs cfg s t { th with
        pc := next (got ++ (s.conns th.me).pending.take (total - got.length)) } s' ∧
      (s'.conns th.me).pending = (s.conns th.me).pending.drop (total - got.length) := by
  by_cases hfull : got.length = total
  · refine ⟨s, ?_, by simp [hfull]⟩
    have hsame : { th with
        pc := next (got ++ (s.conns th.me).pending.take (total - got.length)) } = th := by
      rw [hfull, Nat.sub_self, List.take_zero, List.append_nil, ← hpc]
    rw [hsame]
    exact .refl ha hth
  · have hintact : th.Intact s := by
      have hmeant : th.meant = some (th.clientSd, .conn th.me) := by
        unfold Thread.meant
        rw [hpc]
        cases hreads <;> rfl
      intro y hy
      rw [hmeant] at hy
      cases hy
      exact hfd
    have hshort : ∀ bytes ∈ th.pc.reading, bytes.length ≠ cfg.headSize := by
      intro bytes hbytes hsize
      rw [hpc] at hbytes
      cases hreads <;> cases hbytes
      exact hfull hsize
    have hsized : th.Sized cfg := fun bytes hbytes _ hsize => absurd hsize (hshort bytes hbytes)
    have hfilled : th.Filled cfg := fun bytes hbytes _ hsize => absurd hsize (hshort bytes hbytes)
    have h : cfg.threadStep s t th (.read (total - got.length)) =
        some ((s.put t { th with
          pc := next (got ++ (s.conns th.me).pending.take (total - got.length)) }).setConn th.me
          { s.conns th.me with
            pending := (s.conns th.me).pending.drop (total - got.length)
            taken := (s.conns th.me).taken ++ (s.conns th.me).pending.take (total - got.length) }) := by
      have hlt : got.length < total := by omega
      have hroom : 0 < total - got.length ∧ got.length + (total - got.length) ≤ total ∧
          total - got.length ≤ (s.conns th.me).pending.length := by omega
      cases hreads with
      | head =>
          simp only [Cfg.threadStep, hpc, State.receive, hfd]
          rw [if_pos hlt, if_pos hroom]
      | body size =>
          simp only [Cfg.threadStep, hpc, State.receive, hfd]
          rw [if_pos hlt, if_pos hroom]
    refine ⟨_, Runs.step ha hth (steady_thread hth hintact hsized hfilled ?_ (.inr (.inr ⟨_, rfl⟩))) _ h rfl
      ha rfl rfl rfl, ?_⟩
    · rw [hpc]
      cases hreads <;> simp
    · simp [State.setConn]

-- From the body of a frame to its display.
theorem runs_body (cfg : Cfg) (ha : s.Alive) (hth : s.threads t = some th) (size : Nat) (got : List Byte)
    (hpc : th.pc = .body size got) (hfd : s.fds th.clientSd = some (.conn th.me))
    (hlen : got.length ≤ size) (hcome : size ≤ got.length + (s.conns th.me).pending.length) :
    ∃ s' msg rest frame, Runs cfg s t { th with
      pc := .display msg rest, frames := th.frames ++ [frame] } s' := by
  obtain ⟨m, hm, _⟩ := runs_read cfg ha hth (.body size) size (.body size) got hpc hfd hlen hcome
  generalize hbytes : got ++ (s.conns th.me).pending.take (size - got.length) = bytes at hm
  have hfull : bytes.length = size := by
    rw [← hbytes, List.length_append, List.length_take]
    omega
  have h : cfg.threadStep m t { th with pc := .body size bytes } .go = some (m.put t { th with
      pc := .display ⟨size, be 4 size ++ bytes⟩ bytes
      frames := th.frames ++ [be 4 size ++ bytes] }) := by
    simp only [Cfg.threadStep, hfull, if_true]
  have hsteady : Steady cfg m (.thread t .go) := by
    refine steady_aside hm.self ?_ rfl (by simp) (.inl rfl)
    intro y hy
    cases hy
    rw [hm.fds]
    exact hfd
  have hgo := Runs.step hm.alive hm.self hsteady _ h rfl hm.alive rfl rfl rfl
  exact ⟨_, _, _, _, hm.trans hgo⟩

-- From the header, or the block, to the display of the frame.
theorem runs_head (cfg : Cfg) (ha : s.Alive) (hth : s.threads t = some th) (got : List Byte)
    (hpc : th.pc = .head got) (hfd : s.fds th.clientSd = some (.conn th.me))
    (hlen : got.length ≤ cfg.headSize) (hann : cfg.Announced (got ++ (s.conns th.me).pending)) :
    ∃ s' msg rest frame, Runs cfg s t { th with
      pc := .display msg rest, frames := th.frames ++ [frame] } s' := by
  obtain ⟨hcome, hsize⟩ := hann
  rw [List.length_append] at hcome
  obtain ⟨m, hm, hpending⟩ :=
    runs_read cfg ha hth .head cfg.headSize .head got hpc hfd hlen hcome
  have htake : (got ++ (s.conns th.me).pending).take cfg.headSize =
      got ++ (s.conns th.me).pending.take (cfg.headSize - got.length) := by
    rw [List.take_append, List.take_of_length_le hlen]
  generalize hbytes : got ++ (s.conns th.me).pending.take (cfg.headSize - got.length) = bytes
    at hm htake
  have hfull : bytes.length = cfg.headSize := by
    rw [← hbytes, List.length_append, List.length_take]
    omega
  have hsteady : (cfg.encrypted = true → fromBe ((cfg.dec bytes).take 4) + 4 ≤ DATA_SIZE) →
      (cfg.encrypted = false → fromBe bytes ≠ 0) → Steady cfg m (.thread t .go) := by
    intro hfits hfilled
    refine steady_thread hm.self ?_ ?_ ?_ (by simp) (.inl rfl)
    · intro y hy
      cases hy
      rw [hm.fds]
      exact hfd
    · rintro _ ⟨⟩ hmode _
      exact hfits hmode
    · rintro _ ⟨⟩ hmode _
      exact hfilled hmode
  have hstep : cfg.threadStep m t { th with pc := .head bytes } .go =
      some (cfg.parse m t { th with pc := .head bytes } bytes) := by
    simp only [Cfg.threadStep, hfull, if_true]
  by_cases hmode : cfg.encrypted = true
  · rw [if_pos hmode] at hsize
    rw [show DATA_SIZE = cfg.headSize by simp [Cfg.headSize, hmode], htake] at hsize
    have hfits : fromBe ((cfg.dec bytes).take 4) + 4 ≤ DATA_SIZE := by
      simpa [Cfg.headSize, hmode] using hsize
    unfold Cfg.parse at hstep
    rw [if_pos hmode] at hstep
    dsimp only at hstep
    rw [if_pos hfits] at hstep
    have hgo := Runs.step hm.alive hm.self (hsteady (fun _ => hfits) fun h => by simp [hmode] at h) _ hstep
      rfl hm.alive rfl rfl rfl
    exact ⟨_, _, _, _, hm.trans hgo⟩
  · have hplain : cfg.encrypted = false := by simpa using hmode
    have hhead : cfg.headSize = 4 := by simp [Cfg.headSize, hplain]
    rw [if_neg hmode, ← hhead, htake, hhead, List.length_append] at hsize
    unfold Cfg.parse at hstep
    have hpos : fromBe bytes ≠ 0 := by omega
    rw [if_neg hmode, if_neg hpos] at hstep
    have hgo := Runs.step hm.alive hm.self (hsteady (fun h => absurd h hmode) fun _ => hpos) _ hstep rfl
      hm.alive rfl rfl rfl
    have hpending' : (m.conns th.me).pending = (s.conns th.me).pending.drop (4 - got.length) := by
      rw [hpending, hhead]
    obtain ⟨s', msg, rest, frame, hs'⟩ := runs_body cfg hgo.alive hgo.self (fromBe bytes) [] rfl
      (by rw [hgo.fds, hm.fds]; exact hfd) (Nat.zero_le _) (by
        show fromBe bytes ≤ 0 + (m.conns th.me).pending.length
        rw [hpending', List.length_drop]
        omega)
    exact ⟨s', msg, rest, frame, (hm.trans hgo).trans hs'⟩

-- The distributions that a thread has begun, once it distributes the frame that it is about to read.
def Thread.begun (s : State) (th : Thread) : List Nat :=
  if th.pc.distributing then th.began else th.began ++ [s.noClient]

-- A frame that has arrived can be read, shown and distributed.
theorem reaches_frame (hs : Table s) (hl : Locked s) (hw : Within cfg s) (ha : s.Alive)
    (hcon : s.Connected) (htty : s.fds 0 = some .tty) (hth : s.threads t = some th)
    (hintact : th.Intact s) (hcomplete : th.Complete cfg s) :
    ∃ s' x, Reaches cfg s t x s' ∧ x.pc = .head [] ∧ x.me = th.me ∧
      x.ends.length = th.ends.length + 1 ∧ x.began = th.begun s := by
  have hwithin := hw t th hth
  have hend : ∀ m (y : Thread), Reaches cfg s t y m → y.pc.distributing = true → y.me = th.me →
      y.ends = th.ends → y.began = th.begun s → ∃ s' x, Reaches cfg s t x s' ∧ x.pc = .head [] ∧
        x.me = th.me ∧ x.ends.length = th.ends.length + 1 ∧ x.began = th.begun s := by
    intro m y hm hdist hme hends hbegan
    obtain ⟨hs', hl'⟩ := hm.invariants hs hl
    obtain ⟨s', n, hs'⟩ := reaches_delivery cfg hs' hl' hm.alive (hm.connected hcon) hm.self hdist
    exact ⟨s', _, hm.trans hs', rfl, hme, by simp [hends], hbegan⟩
  have hshow : ∀ m (y : Thread) msg rest, Runs cfg s t y m → y.pc = .display msg rest → y.me = th.me →
      y.ends = th.ends → y.began = th.began → th.pc.distributing = false →
      ∃ s' x, Reaches cfg s t x s' ∧ x.pc = .head [] ∧ x.me = th.me ∧
        x.ends.length = th.ends.length + 1 ∧ x.began = th.begun s := by
    intro m y msg rest hm hpc hme hends hbegan hdist
    obtain ⟨m', hm'⟩ := runs_display cfg hm.alive hm.self msg rest hpc (by rw [hm.fds, htty])
    refine hend m' _ (hm.trans hm').reaches rfl hme hends ?_
    simp [Thread.begun, hdist, hbegan, hm.noClient]
  cases hpc : th.pc with
  | head got =>
      simp only [Thread.Within, Thread.Complete, hpc] at hwithin hcomplete
      have hfd : s.fds th.clientSd = some (.conn th.me) := by
        simpa [Thread.Intact, Thread.meant, hpc] using hintact
      obtain ⟨m, msg, rest, frame, hm⟩ := runs_head cfg ha hth got hpc hfd hwithin hcomplete
      exact hshow m _ msg rest hm rfl rfl rfl rfl (by rw [hpc]; rfl)
  | body size got =>
      simp only [Thread.Within, Thread.Complete, hpc, List.length_append] at hwithin hcomplete
      have hfd : s.fds th.clientSd = some (.conn th.me) := by
        simpa [Thread.Intact, Thread.meant, hpc] using hintact
      obtain ⟨m, msg, rest, frame, hm⟩ :=
        runs_body cfg ha hth size got hpc hfd hwithin hcomplete
      exact hshow m _ msg rest hm rfl rfl rfl rfl (by rw [hpc]; rfl)
  | display msg rest => exact hshow s th msg rest (.refl ha hth) hpc rfl rfl rfl (by rw [hpc]; rfl)
  | test msg c | wait msg c | hold msg c | send msg c fd data rest | post msg c =>
      exact hend s th (Runs.refl ha hth).reaches (by rw [hpc]; rfl) rfl rfl (by
        rw [Thread.begun, hpc]
        rfl)
  | start | loadSd | leave | gone =>
      simp [Thread.Complete, hpc, Pc.busy, Pc.distributing] at hcomplete

end Reading

end CryptodevChat.Server
