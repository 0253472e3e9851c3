import CryptodevChat.Server.Identity
import CryptodevChat.Server.Leaving

namespace CryptodevChat.Server

open Lib (Byte Run)
open Chat (MAX_CLIENTS)

variable {cfg : Cfg} {s s' : State} {t k : Nat} {th : Thread} {op : Op}

-- A thread that has not read `client_id` yet will find its own index there.
structure Early (s : State) : Prop where
  set : s.mainPc = .semInit ∨ s.mainPc = .create → s.clientId = s.noClient
  early : ∀ t th, s.threads t = some th → th.pc = .start → s.clientId = t

-- The peer is gone, and all that came from it has been read.
def Over (s : State) (k : Nat) : Prop := (s.conns k).up = false ∧ (s.conns k).pending = []

-- A thread is out of its loop only when its client is gone, and it has closed nothing.
structure Staying (s : State) : Prop where
  left : ∀ t th, s.threads t = some th → th.pc = .leave → Over s th.me
  running : ∀ t th, s.threads t = some th → th.pc ≠ .gone

theorem Moves.started (h : Moves cfg s t th op s') (hth : s.threads t = some th) (hstart : th.pc ≠ .start)
    (x : Thread) (hx : s'.threads t = some x) : x.pc ≠ .start := by
  cases h with
  | exit | crash =>
      cases hth.symm.trans hx
      exact hstart
  | receive next total hreads got hpc =>
      cases put_threads_self.symm.trans hx
      exact (hreads.pc_ne _).1
  | write next fd hwrites rest hpc | tty next fd hwrites rest hpc =>
      cases put_threads_self.symm.trans hx
      cases hwrites <;> simp
  | _ =>
      cases put_threads_self.symm.trans hx
      simp

theorem early_boot : Early State.boot := ⟨fun _ => rfl, fun t th h => by cases h⟩

theorem early_step {a : Act} (hs : Table s) (he : Early s) (hok : Attends cfg s a)
    (h : cfg.step s a = some s') : Early s' := by
  cases step_does h with
  | setId hmain =>
      refine ⟨fun _ => rfl, fun t th hth hpc => ?_⟩
      have hlt := (hs.created t).mp (by rw [show s.threads t = some th from hth]; rfl)
      simp only [hmain, reduceCtorEq, if_false, Nat.add_zero] at hlt
      exact absurd (by rw [show s.threads t = some th from hth, Option.map_some, hpc]) (hok hmain t hlt)
  | semInit hmain => exact ⟨fun _ => he.set (.inl hmain), he.early⟩
  | create hmain =>
      refine ⟨fun h => by simp at h, fun t th hth hpc => ?_⟩
      have hnew : Thread.create.pc = .start → s.clientId = s.noClient := fun _ => he.set (.inr hmain)
      exact forall_threads_update he.early hnew t th hth hpc
  | count | accept => exact ⟨fun h => by simp at h, he.early⟩
  | full | arrive | hangup => exact ⟨he.set, he.early⟩
  | thread t th op s' hth hmoves =>
      obtain ⟨x, hthreads⟩ := hmoves.threads hth
      have hx : x.pc = .start → s'.clientId = t := by
        intro hpc
        rw [hmoves.clientId]
        by_cases hstart : th.pc = .start
        · exact he.early t th hth hstart
        · exact absurd hpc (hmoves.started hth hstart x (by rw [hthreads, Function.update_self]))
      refine ⟨fun h => ?_, fun u y hy hpc => ?_⟩
      · rw [hmoves.mainPc] at h
        rw [hmoves.clientId, hmoves.noClient]
        exact he.set h
      · rw [hthreads] at hy
        have hold : ∀ u y, s.threads u = some y → y.pc = .start → s'.clientId = u := by
          rw [hmoves.clientId]
          exact he.early
        exact forall_threads_update hold hx u y hy hpc

-- With their own indices the threads serve their own clients.
theorem Attends.serves {a : Act} (hok : Attends cfg s a) (hown : Own s) (he : Early s) : Serves s a := by
  cases a with
  | accept fd => exact hok
  | thread t op =>
      refine ⟨hok.1, hok.2.1, fun th hth => ⟨(hok.2.2 th hth).1, fun hpc u _ x hx hstart => ?_⟩⟩
      rw [he.early t th hth hpc, (hown u x hx).resolve_left hstart]
      rintro rfl
      cases hth.symm.trans hx
      exact hstart hpc
  | _ => trivial

theorem Attends.inTime {a : Act} (_ : Attends cfg s a) (he : Early s) : StartsInTime s a := by
  cases a with
  | thread t op =>
      intro hpc
      obtain ⟨th, hth, hstart⟩ := Option.map_eq_some_iff.mp hpc
      exact he.early t th hth hstart
  | _ => trivial

theorem Attends.healthy {a : Act} (hok : Attends cfg s a) (hs : Table s) (ho : Opened s) :
    Healthy cfg s a := by
  cases a with
  | accept fd => exact hok
  | thread t op =>
      refine ⟨hok.1, hok.2.1, fun th hth => ?_⟩
      obtain ⟨hleave, hsized, -⟩ := hok.2.2 th hth
      exact ⟨ho.intact hs hth, hsized, fun hpc => absurd hpc hleave⟩
  | _ => trivial

-- From a peer that is gone nothing comes any more.
theorem over_step {a : Act} (hok : Intact s a) (h : cfg.step s a = some s') (ho : Over s k) : Over s' k := by
  obtain ⟨hup, hpending⟩ := ho
  have hupdate : ∀ (j : Nat) (conn : Conn), (k = j → conn.up = false ∧ conn.pending = []) →
      (Function.update s.conns j conn k).up = false ∧ (Function.update s.conns j conn k).pending = [] := by
    intro j conn hconn
    by_cases hk : k = j
    · rw [hk, Function.update_self]
      exact hconn hk
    · rw [Function.update_of_ne hk]
      exact ⟨hup, hpending⟩
  cases a with
  | arrive j data =>
      unfold Cfg.step at h
      dsimp only at h
      split_ifs at h with hstop hj
      cases h
      refine hupdate j _ fun hk => ?_
      rw [hk, hj.2] at hup
      cases hup
  | hangup j =>
      cases step_does h with
      | hangup => exact hupdate j _ fun hk => ⟨rfl, hk ▸ hpending⟩
  | thread t op =>
      cases step_does h with
      | thread t th op s' hth hmoves =>
          obtain ⟨hup', ⟨-, hpending'⟩ | ⟨-, -, hnone⟩⟩ := hmoves.conn (hok th hth) k
          · exact ⟨hup'.trans hup, hpending'.trans hpending⟩
          · exact absurd hpending hnone
  | main | accept fd => cases step_does h <;> exact ⟨hup, hpending⟩

theorem staying_boot : Staying State.boot := ⟨fun t th h => (by cases h), fun t th h => (by cases h)⟩

-- A thread leaves its loop at the end of the stream of its client.
theorem Leaves.over (h : Leaves cfg s th) (hintact : th.Intact s) (hfilled : th.Filled cfg) :
    Over s th.me := by
  cases h with
  | eof next total hreads got hpc hlt k hfd hpending hup =>
      have hfd' : s.fds th.clientSd = some (.conn th.me) := by
        cases hreads <;> simpa [Thread.Intact, Thread.meant, hpc] using hintact
      rw [hfd'] at hfd
      cases hfd
      exact ⟨hup, hpending⟩
  | zero got hpc hlen hmode hzero =>
      exact absurd hzero (hfilled got (by rw [hpc]; rfl) hmode hlen)

-- A step of a thread, which is in its loop and stays there until its client is gone.
theorem staying_thread (hok : Steady cfg s (.thread t op)) (hst : Staying s) (hth : s.threads t = some th)
    (hstep : cfg.threadStep s t th op = some s')
    (hover : ∀ u y, s.threads u = some y → y.pc = .leave → Over s' y.me) : Staying s' := by
  obtain ⟨hhealthy, hattends⟩ := hok
  obtain ⟨hbefore, -, hfilled⟩ := hattends.2.2 th hth
  have hmoves := threadStep_moves hstep
  obtain ⟨x, hthreads⟩ := hmoves.threads hth
  have hx : s'.threads t = some x := by rw [hthreads, Function.update_self]
  have hleft : x.pc = .leave → Over s' x.me := by
    intro hpc
    obtain ⟨hleaves, rfl⟩ := threadStep_leaves hth hstep hbefore x hx hpc
    cases put_threads_self.symm.trans hx
    exact hleaves.over (hhealthy.intact th hth) hfilled
  have hgone := hmoves.not_gone hth ⟨hbefore, hst.running t th hth⟩ x hx
  constructor
  · intro u y hy hpc
    rw [hthreads] at hy
    exact forall_threads_update hover hleft u y hy hpc
  · intro u y hy
    rw [hthreads] at hy
    exact forall_threads_update hst.running hgone u y hy

theorem staying_step {a : Act} (hok : Steady cfg s a) (hst : Staying s) (h : cfg.step s a = some s') :
    Staying s' := by
  have hover : ∀ u y, s.threads u = some y → y.pc = .leave → Over s' y.me := fun u y hy hpc =>
    over_step hok.1.intact h (hst.left u y hy hpc)
  cases a with
  | thread t op =>
      have hstep := h
      unfold Cfg.step at hstep
      split_ifs at hstep
      cases hth : s.threads t with
      | none =>
          simp only [hth] at hstep
          cases hstep
      | some th =>
          simp only [hth] at hstep
          exact staying_thread hok hst hth hstep hover
  | main =>
      cases step_does h with
      | create hmain =>
          have hnew : Thread.create.pc = .leave →
              Over { s.put s.noClient Thread.create with mainPc := .count } Thread.create.me :=
            fun h => by cases h
          constructor
          · intro u y hy hpc
            exact forall_threads_update hover hnew u y hy hpc
          · intro u y hy
            exact forall_threads_update hst.running (by simp [Thread.create]) u y hy
      | setId | semInit | count => exact ⟨hover, hst.running⟩
  | accept fd => cases step_does h <;> exact ⟨hover, hst.running⟩
  | arrive j data =>
      cases step_does h with
      | arrive => exact ⟨hover, hst.running⟩
  | hangup j =>
      cases step_does h with
      | hangup => exact ⟨hover, hst.running⟩

-- The invariant of a run, one part for each module before.
structure Attending (cfg : Cfg) (s : State) : Prop where
  table : Table s
  locked : Locked s
  opened : Opened s
  paced : Paced s
  within : Within cfg s
  own : Own s
  early : Early s
  staying : Staying s
  alive : s.Alive
  serving : cfg.encrypted = false → Serving s

theorem attending_boot (cfg : Cfg) : Attending cfg State.boot where
  table := table_boot
  locked := locked_boot
  opened := opened_boot
  paced := paced_boot
  within := fun t th h => by cases h
  own := fun t th h => by cases h
  early := early_boot
  staying := staying_boot
  alive := ⟨rfl, rfl⟩
  serving := fun _ => serving_boot

theorem attending_step {a : Act} (hs : Attending cfg s) (hok : Attends cfg s a) (h : cfg.step s a = some s') :
    Attending cfg s' := by
  have hserves := hok.serves hs.own hs.early
  have hhealthy := hok.healthy hs.table hs.opened
  exact {
    table := table_step hs.table h
    locked := locked_step hs.table hs.locked h
    opened := opened_step hs.table hs.opened hserves h
    paced := paced_step hs.table hs.paced hhealthy.intact h
    within := within_step hs.within h
    own := own_step hs.own (hok.inTime hs.early) h
    early := early_step hs.table hs.early hok h
    staying := staying_step ⟨hhealthy, hok⟩ hs.staying h
    alive := alive_step hs.table hs.locked hs.alive hhealthy h
    serving := fun hplain => serving_step hplain (hs.serving hplain) hserves h }

theorem Attending.run {actions : List Act} (hs : Attending cfg s)
    (run : Run cfg.step (Attends cfg) s actions s') : Attending cfg s' :=
  run.invariant hs fun _ _ _ h hok hstep => attending_step h hok hstep

theorem Attending.connected (hs : Attending cfg s) : s.Connected := fun c hc =>
  hs.opened.slots c (hc.trans_le hs.table.count_le)

-- A whole frame has come on the connection of a thread, or is being distributed.
def Thread.Due (cfg : Cfg) (s : State) (k : Nat) (th : Thread) : Prop :=
  if th.pc = .start ∨ th.pc = .loadSd then cfg.Announced (s.conns k).pending else th.Complete cfg s

-- How many clients are counted when the distribution of the frame begins.
def Thread.audience (s : State) (th : Thread) : Nat :=
  if th.pc.distributing then th.began.getD th.ends.length 0 else s.noClient

theorem Thread.begun_getD (hp : th.Paced s) : (th.begun s).getD th.ends.length 0 = th.audience s := by
  have hlen := hp.began
  unfold Thread.begun Thread.audience
  by_cases hdist : th.pc.distributing = true
  · rw [if_pos hdist, if_pos hdist]
  · rw [if_neg hdist, if_neg hdist]
    rw [if_neg hdist, Nat.add_zero] at hlen
    rw [← hlen]
    simp

-- A thread that has not started yet gets to its first read.
theorem runs_start (cfg : Cfg) (hs : Attending cfg s) (hth : s.threads k = some th) (hk : k < s.noClient)
    (hpc : th.pc = .start ∨ th.pc = .loadSd) :
    ∃ s' x, Runs cfg s k x s' ∧ x.pc = .head [] ∧ x.me = k ∧ x.clientSd = s.newsdServe k ∧
      x.ends = th.ends ∧ x.began = th.began ∧ s'.conns = s.conns := by
  have hroom : k < MAX_CLIENTS := (hk.trans_le hs.table.count_le).trans_le hs.table.room
  have hload : ∀ (s : State) (th : Thread), s.Alive → s.threads k = some th → th.pc = .loadSd →
      th.me = k → ∃ s', Runs cfg s k { th with clientSd := s.newsdServe k, pc := .head [] } s' ∧
        s'.conns = s.conns := by
    intro s th ha hth hpc hme
    have h : cfg.threadStep s k th .go =
        some (s.put k { th with clientSd := s.newsdServe k, pc := .head [] }) := by
      simp only [Cfg.threadStep, hpc, hme, if_pos hroom]
    have hsteady : Steady cfg s (.thread k .go) :=
      steady_aside hth (by simp [Thread.Intact, Thread.meant, hpc]) (by rw [hpc]; rfl) (by simp [hpc])
        (.inl rfl)
    exact ⟨_, Runs.step ha hth hsteady _ h rfl ha rfl rfl rfl, rfl⟩
  rcases hpc with hpc | hpc
  · have h : cfg.threadStep s k th .go = some (s.put k { th with me := s.clientId, pc := .loadSd }) := by
      simp only [Cfg.threadStep, hpc]
    have hsteady : Steady cfg s (.thread k .go) :=
      steady_aside hth (by simp [Thread.Intact, Thread.meant, hpc]) (by rw [hpc]; rfl) (by simp [hpc])
        (.inl rfl)
    have hm := Runs.step hs.alive hth hsteady _ h rfl hs.alive rfl rfl rfl
    obtain ⟨s', hs', hconns⟩ := hload _ _ hm.alive hm.self rfl (hs.early.early k th hth hpc)
    exact ⟨s', _, hm.trans hs', rfl, hs.early.early k th hth hpc, rfl, rfl, rfl, hconns⟩
  · have hme := (hs.own k th hth).resolve_left (by simp [hpc])
    obtain ⟨s', hs', hconns⟩ := hload s th hs.alive hth hpc hme
    exact ⟨s', _, hs', rfl, hme, rfl, rfl, rfl, hconns⟩

-- A frame that has come is read, shown and distributed.
theorem reaches_due (cfg : Cfg) (hs : Attending cfg s) (hth : s.threads k = some th) (hk : k < s.noClient)
    (hdue : th.Due cfg s k) :
    ∃ s' x, Reaches cfg s k x s' ∧ x.pc = .head [] ∧ x.me = k ∧
      x.ends.length = th.ends.length + 1 ∧ x.began = th.begun s := by
  by_cases hpc : th.pc = .start ∨ th.pc = .loadSd
  · rw [Thread.Due, if_pos hpc] at hdue
    obtain ⟨m, y, hm, hhead, hme, hsd, hends, hbegan, hconns⟩ := runs_start cfg hs hth hk hpc
    have hinv : Attending cfg m := by
      obtain ⟨actions, run⟩ := hm.run
      exact hs.run (run.mono fun _ _ h => h.2)
    have hcomplete : y.Complete cfg m := by
      simp only [Thread.Complete, hhead, hme, hconns, List.nil_append]
      exact hdue
    obtain ⟨s', x, hx, hxpc, hxme, hxends, hxbegan⟩ := reaches_frame hinv.table hinv.locked hinv.within
      hinv.alive hinv.connected hinv.opened.tty hm.self (hinv.opened.intact hinv.table hm.self) hcomplete
    refine ⟨s', x, hm.reaches.trans hx, hxpc, hxme.trans hme, by rw [hxends, hends], ?_⟩
    have hdist : th.pc.distributing = false := by rcases hpc with hpc | hpc <;> rw [hpc] <;> rfl
    have hdist' : y.pc.distributing = false := by rw [hhead]; rfl
    simp [hxbegan, Thread.begun, hdist, hdist', hbegan, hm.noClient]
  · rw [Thread.Due, if_neg hpc] at hdue
    have hme := (hs.own k th hth).resolve_left fun h => hpc (.inl h)
    obtain ⟨s', x, hx, hxpc, hxme, hxends, hxbegan⟩ := reaches_frame hs.table hs.locked hs.within
      hs.alive hs.connected hs.opened.tty hth (hs.opened.intact hs.table hth) hdue
    exact ⟨s', x, hx, hxpc, hxme.trans hme, hxends, hxbegan⟩

-- What a server does for the client `k`: a thread of its own reads its connection until the peer
-- is gone, and each whole frame that comes can be sent once to each other client that is counted.
structure Attended (cfg : Cfg) (s : State) (k : Nat) (th : Thread) : Prop where
  own : th.pc = .start ∨ th.me = k
  alone : ∀ u x, s.threads u = some x → x.pc ≠ .start → x.me = k → u = k
  opened : s.fds (s.newsdServe k) = some (.conn k)
  reads : th.pc = .start ∨ th.pc = .loadSd ∨ th.clientSd = s.newsdServe k
  left : th.pc = .leave → Over s k
  running : th.pc ≠ .gone
  delivers : th.Due cfg s k → ∃ actions s' x, Run cfg.step (Attends cfg) s actions s' ∧
    s'.threads k = some x ∧ x.pc = .head [] ∧ x.me = k ∧ x.ends.length = th.ends.length + 1 ∧
    ∀ c < th.audience s, c ≠ k →
      ((s'.conns c).log.filter fun d => d.thread = k ∧ d.frame = th.ends.length).length = 1

theorem Attending.attended (hs : Attending cfg s) (hth : s.threads k = some th) (hk : k < s.noClient) :
    Attended cfg s k th where
  own := hs.own k th hth
  alone := fun u x hx hstart hme => ((hs.own u x hx).resolve_left hstart).symm.trans hme
  opened := hs.connected k hk
  reads := by
    rcases (hs.table.placed k th hth).opened with hpc | hpc | hsd
    · exact .inl hpc
    · exact .inr (.inl hpc)
    · rcases hs.own k th hth with hpc | hme
      · exact .inl hpc
      · exact .inr (.inr (by rw [hsd, hme]))
  left := fun hpc => by
    have hover := hs.staying.left k th hth hpc
    rwa [(hs.own k th hth).resolve_left (by simp [hpc])] at hover
  running := hs.staying.running k th hth
  delivers := fun hdue => by
    obtain ⟨s', x, hx, hxpc, hxme, hxends, hxbegan⟩ := reaches_due cfg hs hth hk hdue
    obtain ⟨actions, run⟩ := hx.run
    have hrun : Run cfg.step (Attends cfg) s actions s' := run.mono fun _ _ h => h.2
    refine ⟨actions, s', x, hrun, hx.self, hxpc, hxme, hxends, fun c hc hne => ?_⟩
    refine (hs.run hrun).paced.exactly_once hx.self (by omega) (by rwa [hxme]) ?_
    rwa [hxbegan, Thread.begun_getD (hs.paced.threads k th hth)]

-- With its `close` a service takes the terminal from the server, or the connection just accepted,
-- or leaves the table.
theorem Attending.closes (hs : Attending cfg s) (hpc : (s.threads t).map (·.pc) = some .leave)
    (h : cfg.step s (.thread t .go) = some s') : ¬(s'.Alive ∧ Opened s') := by
  obtain ⟨th, hth, hleave⟩ := Option.map_eq_some_iff.mp hpc
  have hstep : cfg.threadStep s t th .go = some s' := by rwa [step_thread hs.alive hth] at h
  simp only [Cfg.threadStep, hleave] at hstep
  rintro ⟨halive, ho⟩
  split_ifs at hstep with hroom <;> cases hstep
  · have hcount := hs.table.connections
    by_cases hmain : s.mainPc = .accept
    · -- This slot was never set.
      have hzero := hs.table.unset s.noClient (by simp [hcount, hmain])
      have htty : Function.update s.fds (s.newsdServe s.noClient) none 0 = some .tty := ho.tty
      rw [hzero, Function.update_self] at htty
      cases htty
    · have hslot : Function.update s.fds (s.newsdServe s.noClient) none (s.newsdServe s.noClient) =
          some (.conn s.noClient) := ho.slots s.noClient (by show s.noClient < s.nconn; simp [hcount, hmain])
      rw [Function.update_self] at hslot
      cases hslot
  · cases halive.2

end CryptodevChat.Server
