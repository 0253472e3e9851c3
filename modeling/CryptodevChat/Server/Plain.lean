import CryptodevChat.Server.Alive
import CryptodevChat.Server.Contents

namespace CryptodevChat.Server

open Lib (Byte be fromBe Run)
open Chat (MAX_CLIENTS)

variable {cfg : Cfg} {s s' : State} {t : Nat} {th : Thread} {op : Op}

-- The steps of the threads while they run `forward` in a loop, each for a client of
-- its own, and no call fails.
def Serves (s : State) : Act → Prop
  | .accept _ => s.noClient < MAX_CLIENTS
  | .thread t op => op ≠ .reset ∧ op ≠ .pipe ∧ ∀ th ∈ s.threads t, th.pc ≠ .leave ∧ (th.pc = .start →
      ∀ u < s.nconn, ∀ x ∈ s.threads u, x.pc ≠ .start → x.me ≠ s.clientId)
  | _ => True

instance (s : State) : (a : Act) → Decidable (Serves s a)
  | .accept _ => inferInstanceAs (Decidable (_ < _))
  | .thread _ _ => inferInstanceAs (Decidable (_ ∧ _ ∧ _))
  | .main | .arrive _ _ | .hangup _ => inferInstanceAs (Decidable True)

-- The descriptors in the table are those of its clients.
structure Opened (s : State) : Prop where
  tty : s.fds 0 = some .tty
  slots : ∀ k < s.nconn, s.fds (s.newsdServe k) = some (.conn k)

theorem Opened.intact (ho : Opened s) (hs : Table s) (hth : s.threads t = some th) :
    th.Intact s := by
  have hp := hs.placed t th hth
  have hcount := hs.count_le
  have hread : th.pc ≠ .start → th.pc ≠ .loadSd → s.fds th.clientSd = some (.conn th.me) := by
    intro hstart hload
    have hme := hp.joined.resolve_left hstart
    rw [(hp.opened.resolve_left hstart).resolve_left hload]
    exact ho.slots th.me hme
  cases hpc : th.pc with
  | head got | body size got =>
      have := hread (by simp [hpc]) (by simp [hpc])
      simpa [Thread.Intact, Thread.meant, hpc] using this
  | display msg rest => simpa [Thread.Intact, Thread.meant, hpc] using ho.tty
  | send msg client fd data rest =>
      have hlt := (hp.visited client (by rw [hpc]; rfl)).1
      have hslot := ho.slots client (by omega)
      rw [← hp.sends msg client fd data rest hpc] at hslot
      simpa [Thread.Intact, Thread.meant, hpc] using hslot
  | _ => simp [Thread.Intact, Thread.meant, hpc]

theorem opened_boot : Opened State.boot := ⟨rfl, fun k hk => absurd hk (Nat.not_lt_zero k)⟩

theorem opened_step {a : Act} (hs : Table s) (ho : Opened s) (hok : Serves s a)
    (h : cfg.step s a = some s') : Opened s' := by
  have hkeep : s'.fds = s.fds → s'.newsdServe = s.newsdServe → s'.nconn = s.nconn → Opened s' := by
    intro hfds hslots hn
    exact ⟨by rw [hfds, ho.tty], fun k hk => by rw [hfds, hslots]; exact ho.slots k (by omega)⟩
  cases step_does h with
  | setId | semInit | create | count | full | arrive | hangup => exact hkeep rfl rfl rfl
  | accept fd hmain hfree =>
      have hconn : s.nconn = s.noClient := by simpa [hmain] using hs.connections
      constructor
      · dsimp only
        rw [Function.update_of_ne, ho.tty]
        rintro rfl
        rw [ho.tty] at hfree
        cases hfree
      · intro k hk
        have hk : k < s.nconn + 1 := hk
        dsimp only
        by_cases hnew : k = s.noClient
        · subst hnew
          rw [Function.update_self, Function.update_self, hconn]
        · have hold := ho.slots k (by omega)
          rw [Function.update_of_ne hnew, Function.update_of_ne, hold]
          intro heq
          rw [heq, hfree] at hold
          cases hold
  | thread t th op s' hth hmoves =>
      cases hmoves with
      | close hpc => exact absurd hpc (hok.2.2 th hth).1
      | _ => exact hkeep rfl rfl rfl

-- What a thread has read since its last whole frame.
def Pc.gathered : Pc → Option (List Byte)
  | .head got => some got
  | .body size got => some (be 4 size ++ got)
  | .leave | .gone => none
  | _ => some []

-- Each thread alone reads from its client, and the frames are the bytes that came.
structure Heard (s : State) : Prop where
  alone : ∀ t u x y, s.threads t = some x → s.threads u = some y →
    x.pc ≠ .start → y.pc ≠ .start → x.me = y.me → t = u
  unread : ∀ k, (∀ t x, s.threads t = some x → x.pc ≠ .start → x.me ≠ k) → (s.conns k).taken = []
  heard : ∀ t x, s.threads t = some x → x.pc ≠ .start →
    ∃ tail, (s.conns x.me).taken = x.frames.flatten ++ tail ∧ ∀ p, x.pc.gathered = some p → tail = p

-- A thread has read some more bytes of its own client, and nobody else has read.
theorem Heard.move (hh : Heard s) (hth : s.threads t = some th) (hstart : th.pc ≠ .start)
    {x : Thread} (hthreads : s'.threads = Function.update s.threads t (some x))
    (hxstart : x.pc ≠ .start) (hme : x.me = th.me) (more : List Byte)
    (htaken : (s'.conns th.me).taken = (s.conns th.me).taken ++ more)
    (hothers : ∀ k ≠ th.me, (s'.conns k).taken = (s.conns k).taken)
    (hnew : ∀ tail, (∀ p, th.pc.gathered = some p → tail = p) →
      ∃ tail', th.frames.flatten ++ tail ++ more = x.frames.flatten ++ tail' ∧
        ∀ p, x.pc.gathered = some p → tail' = p) : Heard s' := by
  have hold : ∀ u y, s'.threads u = some y → y.pc ≠ .start →
      ∃ z, s.threads u = some z ∧ z.pc ≠ .start ∧ z.me = y.me := by
    intro u y hy hpc
    rw [hthreads] at hy
    by_cases hu : u = t
    · subst hu
      rw [Function.update_self] at hy
      cases hy
      exact ⟨th, hth, hstart, hme.symm⟩
    · rw [Function.update_of_ne hu] at hy
      exact ⟨y, hy, hpc, rfl⟩
  constructor
  · intro u v y z hy hz hyp hzp heq
    obtain ⟨y', hy', hyp', hyme⟩ := hold u y hy hyp
    obtain ⟨z', hz', hzp', hzme⟩ := hold v z hz hzp
    exact hh.alone u v y' z' hy' hz' hyp' hzp' (by rw [hyme, hzme, heq])
  · intro k hk
    have hne : k ≠ th.me := by
      rintro rfl
      exact hk t x (by rw [hthreads, Function.update_self]) hxstart hme
    rw [hothers k hne]
    refine hh.unread k fun u y hy hyp => ?_
    by_cases hu : u = t
    · subst hu
      rw [hth] at hy
      cases hy
      exact hne.symm
    · exact hk u y (by rw [hthreads, Function.update_of_ne hu, hy]) hyp
  · intro u y hy hyp
    rw [hthreads] at hy
    by_cases hu : u = t
    · subst hu
      rw [Function.update_self] at hy
      cases hy
      obtain ⟨tail, htail, hp⟩ := hh.heard u th hth hstart
      obtain ⟨tail', htail', hp'⟩ := hnew tail hp
      exact ⟨tail', by rw [hme, htaken, htail, htail'], hp'⟩
    · rw [Function.update_of_ne hu] at hy
      have hne : y.me ≠ th.me := fun heq => hu (hh.alone u t y th hy hth hyp hstart heq)
      rw [hothers _ hne]
      exact hh.heard u y hy hyp

theorem taken_update (k : Nat) (conn : Conn) (htaken : conn.taken = (s.conns k).taken) (c : Nat) :
    (Function.update s.conns k conn c).taken = (s.conns c).taken := by
  by_cases hc : c = k
  · rw [hc, Function.update_self, htaken]
  · rw [Function.update_of_ne hc]

-- The thread has read nothing, and its frames and its place still make up what it has read.
theorem Heard.stay (hh : Heard s) (hth : s.threads t = some th) (hstart : th.pc ≠ .start)
    {x : Thread} (hthreads : s'.threads = Function.update s.threads t (some x))
    (hxstart : x.pc ≠ .start) (hme : x.me = th.me) (htaken : ∀ k, (s'.conns k).taken = (s.conns k).taken)
    (hframes : x.frames = th.frames)
    (hpc : ∀ p, x.pc.gathered = some p → th.pc.gathered = some p) : Heard s' := by
  refine hh.move hth hstart hthreads hxstart hme [] (by rw [htaken, List.append_nil])
    (fun k _ => htaken k) fun tail htail => ⟨tail, by rw [List.append_nil, hframes], ?_⟩
  intro p hp
  exact htail p (hpc p hp)

-- A thread takes a client that no other thread has, and nobody has read from it.
theorem Heard.start (hh : Heard s) (hth : s.threads t = some th) (hpc : th.pc = .start)
    (hframes : th.frames = [])
    (hid : ∀ u x, s.threads u = some x → x.pc ≠ .start → x.me ≠ s.clientId) :
    Heard (s.put t { th with me := s.clientId, pc := .loadSd }) := by
  constructor
  · intro u v y z hy hz hyp hzp heq
    by_cases hu : u = t
    · by_cases hv : v = t
      · rw [hu, hv]
      · subst hu
        cases put_threads_self.symm.trans hy
        rw [put_threads_of_ne hv] at hz
        exact absurd heq.symm (hid v z hz hzp)
    · rw [put_threads_of_ne hu] at hy
      by_cases hv : v = t
      · subst hv
        cases put_threads_self.symm.trans hz
        exact absurd heq (hid u y hy hyp)
      · rw [put_threads_of_ne hv] at hz
        exact hh.alone u v y z hy hz hyp hzp heq
  · intro k hk
    refine hh.unread k fun u y hy hyp => ?_
    by_cases hu : u = t
    · subst hu
      rw [hth] at hy
      cases hy
      exact absurd hpc hyp
    · exact hk u y (by rw [put_threads_of_ne hu, hy]) hyp
  · intro u y hy hyp
    by_cases hu : u = t
    · subst hu
      cases put_threads_self.symm.trans hy
      refine ⟨[], ?_, by rintro _ ⟨⟩; rfl⟩
      show (s.conns s.clientId).taken = th.frames.flatten ++ []
      rw [hframes]
      exact hh.unread _ hid
    · rw [put_threads_of_ne hu] at hy
      exact hh.heard u y hy hyp

theorem Moves.heard (hplain : cfg.encrypted = false) (h : Moves cfg s t th op s') (hh : Heard s)
    (hth : s.threads t = some th) (hp : th.Paced s) (hintact : th.Intact s)
    (hid : th.pc = .start → ∀ u x, s.threads u = some x → x.pc ≠ .start → x.me ≠ s.clientId) :
    Heard s' := by
  cases h with
  | exit | crash => exact ⟨hh.alone, hh.unread, hh.heard⟩
  | start hpc =>
      have hlen := hp.frames
      rw [hp.fresh hpc, hpc] at hlen
      exact hh.start hth hpc (List.eq_nil_of_length_eq_zero hlen) (hid hpc)
  | receive next total hreads got hpc k n hfd =>
      have hfd' : s.fds th.clientSd = some (.conn th.me) := by
        cases hreads <;> simpa [Thread.Intact, Thread.meant, hpc] using hintact
      rw [hfd'] at hfd
      cases hfd
      have hmore : ∀ p, th.pc.gathered = some p →
          (next (got ++ (s.conns th.me).pending.take n)).gathered =
            some (p ++ (s.conns th.me).pending.take n) := by
        rw [hpc]
        cases hreads <;> rintro _ ⟨⟩ <;> simp [Pc.gathered]
      have hgathered : ∃ p, th.pc.gathered = some p := by
        rw [hpc]
        cases hreads <;> exact ⟨_, rfl⟩
      obtain ⟨p, hgathered⟩ := hgathered
      refine hh.move hth (by rw [hpc]; exact (hreads.pc_ne got).1) rfl (hreads.pc_ne _).1 rfl
        ((s.conns th.me).pending.take n) ?_ ?_ ?_
      · simp [State.setConn, State.put]
      · intro k hk
        simp [State.setConn, State.put, Function.update_of_ne hk]
      · intro tail htail
        rw [htail p hgathered, List.append_assoc]
        refine ⟨_, rfl, fun q hq => ?_⟩
        rw [hmore p hgathered] at hq
        cases hq
        rfl
  | eof next total hreads got hpc =>
      exact hh.stay hth (by rw [hpc]; exact (hreads.pc_ne got).1) rfl (by simp) rfl (fun k => rfl) rfl
        (by simp [Pc.gathered])
  | nothing got hpc | close hpc =>
      exact hh.stay hth (by simp [hpc]) rfl (by simp) rfl (fun k => rfl) rfl (by simp [Pc.gathered])
  | header got hpc hmode hlen =>
      refine hh.stay hth (by simp [hpc]) rfl (by simp) rfl (fun k => rfl) rfl ?_
      rintro _ ⟨⟩
      rw [← hlen, Lib.be_fromBe, hpc, List.append_nil]
      rfl
  | block got hpc hmode =>
      rw [hplain] at hmode
      cases hmode
  | frame size got hpc hlen =>
      refine hh.move hth (by simp [hpc]) rfl (by simp) rfl [] (by rw [List.append_nil]; rfl)
        (fun k _ => rfl) fun tail htail => ⟨[], ?_, by rintro _ ⟨⟩; rfl⟩
      rw [htail (be 4 size ++ got) (by rw [hpc]; rfl)]
      simp
  | write next fd hwrites rest hpc k n =>
      refine hh.stay hth (by rw [hpc]; exact (hwrites.idle rest rest).1) rfl (hwrites.idle _ rest).1 rfl
        (taken_update k _ (by rfl)) rfl ?_
      rw [hpc]
      cases hwrites <;> exact fun _ h => h
  | tty next fd hwrites rest hpc n =>
      refine hh.stay hth (by rw [hpc]; exact (hwrites.idle rest rest).1) rfl (hwrites.idle _ rest).1 rfl
        (fun k => rfl) rfl ?_
      rw [hpc]
      cases hwrites <;> exact fun _ h => h
  | sent msg client fd data hpc k hfd =>
      exact hh.stay hth (by simp [hpc]) rfl (by simp) rfl (taken_update k _ (by rfl)) rfl
        (by rw [hpc]; exact fun _ h => h)
  | loadSd hpc | shown msg hpc | skip msg hpc | visit msg client hpc | finish msg client hpc
  | lock msg client n hpc | load msg client hpc | astray msg client fd data hpc | post msg client hpc =>
      exact hh.stay hth (by simp [hpc]) rfl (by simp) rfl (fun k => rfl) rfl
        (by rw [hpc]; exact fun _ h => h)

theorem Heard.peer (hh : Heard s) (hthreads : s'.threads = s.threads)
    (htaken : ∀ k, (s'.conns k).taken = (s.conns k).taken) : Heard s' := by
  constructor
  · rw [hthreads]
    exact hh.alone
  · intro k hk
    rw [htaken]
    exact hh.unread k (by rwa [hthreads] at hk)
  · intro t x hx hpc
    rw [hthreads] at hx
    rw [htaken]
    exact hh.heard t x hx hpc

theorem heard_boot : Heard State.boot where
  alone := fun t u x y h => by cases h
  unread := fun k _ => rfl
  heard := fun t x h => by cases h

theorem heard_step {a : Act} (hplain : cfg.encrypted = false) (hs : Table s) (hp : Paced s)
    (ho : Opened s) (hh : Heard s) (hok : Serves s a) (h : cfg.step s a = some s') : Heard s' := by
  cases step_does h with
  | setId | semInit | accept | full | count => exact ⟨hh.alone, hh.unread, hh.heard⟩
  | arrive k | hangup k => exact hh.peer rfl (taken_update k _ (by rfl))
  | create hmain =>
      -- The new thread has not looked at its identity yet.
      have hold : ∀ t x, (s.put s.noClient Thread.create).threads t = some x → x.pc ≠ .start →
          s.threads t = some x := by
        intro t x hx hpc
        by_cases ht : t = s.noClient
        · subst ht
          cases put_threads_self.symm.trans hx
          exact absurd rfl hpc
        · rwa [put_threads_of_ne ht] at hx
      constructor
      · intro t u x y hx hy hxp hyp heq
        exact hh.alone t u x y (hold t x hx hxp) (hold u y hy hyp) hxp hyp heq
      · intro k hk
        refine hh.unread k fun t x hx hxp => hk t x ?_ hxp
        have ht : t ≠ s.noClient := by
          rintro rfl
          rw [hs.none_of_create hmain] at hx
          cases hx
        exact (put_threads_of_ne ht).trans hx
      · intro t x hx hxp
        exact hh.heard t x (hold t x hx hxp) hxp
  | thread t th op s' hth hmoves =>
      refine hmoves.heard hplain hh hth (hp.threads t th hth) (ho.intact hs hth) fun hpc u x hx => ?_
      exact (hok.2.2 th hth).2 hpc u (hs.nconn_pos hx) x hx

-- What holds of a server in plain mode whatever its threads have done so far.
structure Broadcasts (s : State) : Prop where
  alive : s.Alive
  framed : ∀ c, ∀ d ∈ (s.conns c).log, IsFrame d.data
  stream : ∀ c, ∃ done, (s.conns c).sent = (s.conns c).whole ++ done ∧
    (done = [] ∨ ∃ t th frame rest, s.threads t = some th ∧ frame = done ++ rest ∧ IsFrame frame ∧
      th.frames.getLast? = some frame ∧ th.me ≠ c ∧ s.locks c = some 0 ∧
      ∀ u, s.holds u = some c ↔ u = t)
  once : ∀ t th c j, s.threads t = some th → j < th.ends.length → c ≠ th.me →
    c < th.began.getD j 0 → ((s.conns c).log.filter fun d => d.thread = t ∧ d.frame = j).length = 1
  origin : ∀ c, ∀ d ∈ (s.conns c).log, ∃ th, s.threads d.thread = some th ∧ th.me ≠ c ∧
    th.frames[d.frame]? = some d.data
  order : ∀ c t, (((s.conns c).log.filter (·.thread = t)).map (·.frame)).Pairwise (· < ·)
  read : ∀ t th, s.threads t = some th → th.pc ≠ .start →
    ∃ tail, (s.conns th.me).taken = th.frames.flatten ++ tail ∧
      ∀ p, th.pc.gathered = some p → tail = p
  alone : ∀ t u x y, s.threads t = some x → s.threads u = some y →
    x.pc ≠ .start → y.pc ≠ .start → x.me = y.me → t = u
  own : ∀ t th, s.threads t = some th → th.pc ≠ .start →
    s.fds (s.newsdServe th.me) = some (.conn th.me)
  ready : ∀ t th c, s.threads t = some th → th.pc.visiting = some c →
    (s.locks c).isSome = true ∧ s.fds (s.newsdServe c) = some (.conn c)

-- The invariant of a run, one part for each module before.
structure Serving (s : State) : Prop where
  table : Table s
  locked : Locked s
  opened : Opened s
  paced : Paced s
  streamed : ∀ c, Streamed s c
  carried : Carried s
  heard : Heard s
  alive : s.Alive

theorem Serves.healthy {a : Act} (hplain : cfg.encrypted = false) (hok : Serves s a) (hs : Table s)
    (ho : Opened s) : Healthy cfg s a := by
  cases a with
  | accept fd => exact hok
  | thread t op =>
      refine ⟨hok.1, hok.2.1, fun th hth => ⟨ho.intact hs hth, ?_, ?_⟩⟩
      · intro got _ hmode
        rw [hplain] at hmode
        cases hmode
      · exact fun hpc => absurd hpc (hok.2.2 th hth).1
  | _ => trivial

theorem serving_boot : Serving State.boot :=
  ⟨table_boot, locked_boot, opened_boot, paced_boot, streamed_boot, carried_boot, heard_boot, rfl, rfl⟩

theorem serving_step {a : Act} (hplain : cfg.encrypted = false) (h : Serving s) (hok : Serves s a)
    (hstep : cfg.step s a = some s') : Serving s' := by
  have hhealthy := hok.healthy hplain h.table h.opened
  exact {
    table := table_step h.table hstep
    locked := locked_step h.table h.locked hstep
    opened := opened_step h.table h.opened hok hstep
    paced := paced_step h.table h.paced hhealthy.intact hstep
    streamed := streamed_step h.table h.locked h.streamed hhealthy.intact hstep
    carried := carried_step hplain h.table h.carried hstep
    heard := heard_step hplain h.table h.paced h.opened h.heard hok hstep
    alive := alive_step h.table h.locked h.alive hhealthy hstep }

theorem Serving.broadcasts (h : Serving s) : Broadcasts s where
  alive := h.alive
  framed := fun c d hd => by
    obtain ⟨th, hth, hframe⟩ := h.carried.logs c d hd
    exact (h.carried.threads _ th hth).frames _ (List.mem_of_getElem? hframe)
  stream := fun c => by
    cases h.streamed c with
    | idle hnone hsent => exact ⟨[], by rw [List.append_nil, hsent], .inl rfl⟩
    | writing t data rest done hsending hdata hsent =>
        refine ⟨done, hsent, .inr ?_⟩
        have hholds := holds_of_sending hsending
        obtain ⟨th, hth, hpc⟩ := Option.bind_eq_some_iff.mp hsending
        obtain ⟨msg, fd, hpc⟩ : ∃ msg fd, th.pc = .send msg c fd data rest := by
          unfold Pc.sending at hpc
          split at hpc
          · rename_i msg client fd data' rest' hsend
            split_ifs at hpc with hc
            cases hpc
            exact ⟨msg, fd, by rw [hsend, hc]⟩
          · cases hpc
        have hcarries := h.carried.threads t th hth
        have hlast := hcarries.data msg c fd data rest hpc
        refine ⟨t, th, data, rest, hth, hdata, ?_, hlast, ?_, h.locked.exclusive.taken t c hholds, ?_⟩
        · exact hcarries.frames data (List.mem_of_getLast? hlast)
        · exact (((h.table.placed t th hth).visited c (by rw [hpc]; rfl)).2).symm
        · intro u
          exact ⟨fun hu => h.locked.exclusive.single u t c hu hholds, fun hu => hu ▸ hholds⟩
  once := fun t th c j hth hj hc hbegan => h.paced.exactly_once hth hj hc hbegan
  origin := fun c d hd => by
    obtain ⟨th, hth, hme⟩ := h.paced.sender hd
    obtain ⟨th', hth', hframe⟩ := h.carried.logs c d hd
    rw [hth] at hth'
    cases hth'
    exact ⟨th, hth, hme, hframe⟩
  order := h.paced.in_order
  read := h.heard.heard
  alone := h.heard.alone
  own := fun t th hth hpc => h.opened.slots _ ((h.table.placed t th hth).joined.resolve_left hpc)
  ready := fun t th c hth hvisit => by
    have hp := h.table.placed t th hth
    refine ⟨h.locked.ready_of_visiting hp c hvisit, h.opened.slots c ?_⟩
    have := (hp.visited c hvisit).1
    have := h.table.count_le
    omega

-- Whatever the order of the steps, and however short the writes.
theorem broadcasts_of_run (cfg : Cfg) (hplain : cfg.encrypted = false) (actions : List Act)
    (s : State) (run : Run cfg.step Serves State.boot actions s) : Broadcasts s := by
  have h : Serving s :=
    run.invariant serving_boot fun s a u h hok hstep => serving_step hplain h hok hstep
  exact h.broadcasts

-- Two clients are accepted, and the first one sends a frame of three bytes that
-- arrives in two parts and goes out in two parts.
def greetingRun : List Act :=
  [.accept 4, .main, .main, .main, .main, .thread 0 .go, .thread 0 .go,
    .accept 5, .main, .main, .main, .main, .thread 1 .go, .thread 1 .go,
    .arrive 0 [0, 0, 0, 3, 97, 58, 98], .thread 0 (.read 2), .thread 0 (.read 2), .thread 0 .go,
    .thread 0 (.read 3), .thread 0 .go, .thread 0 (.write 3), .thread 0 .go, .thread 0 .go,
    .thread 0 .go, .thread 0 .go, .thread 0 .go, .thread 0 (.write 1), .thread 0 (.write 6),
    .thread 0 .go, .thread 0 .go, .thread 0 .go]

theorem greetingRun_broadcasts :
    ∃ s, Run plain.step Serves State.boot greetingRun s ∧
      (s.conns 1).log = [⟨0, 0, [0, 0, 0, 3, 97, 58, 98]⟩] ∧ Broadcasts s := by
  obtain ⟨s, run, hs⟩ := Run.of_guarded plain.step Serves State.boot greetingRun
    (fun s => decide ((s.conns 1).log = [⟨0, 0, [0, 0, 0, 3, 97, 58, 98]⟩])) (by decide +kernel)
  exact ⟨s, run, of_decide_eq_true hs, broadcasts_of_run plain rfl greetingRun s run⟩

end CryptodevChat.Server
