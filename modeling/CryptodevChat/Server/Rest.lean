import CryptodevChat.Server.Leaving
import CryptodevChat.Server.Work

namespace CryptodevChat.Server

open Lib (Byte be fromBe Run Parse Potential)
open Chat (MAX_CLIENTS)

variable {cfg : Cfg} {s s' : State} {t : Nat} {th : Thread} {op : Op}

-- The steps that need nothing from outside.
def Act.inner : Act → Bool
  | .main | .thread _ _ => true
  | _ => false

-- Neither the accept loop nor a thread can go on by itself.
def Cfg.Resting (cfg : Cfg) (s : State) : Prop := ∀ a, a.inner = true → Serves s a → cfg.step s a = none

-- Where a thread is that cannot go on: it waits for bytes, or its loop has ended.
inductive Idle (s : State) (th : Thread) : Prop
  | head (got : List Byte) (hpc : th.pc = .head got) (hlt : got.length < 4)
      (hpending : (s.conns th.me).pending = [])
  | body (size : Nat) (got : List Byte) (hpc : th.pc = .body size got) (hlt : got.length < size)
      (hpending : (s.conns th.me).pending = [])
  | leave (hpc : th.pc = .leave)

theorem Cfg.Resting.stuck (hrest : cfg.Resting s) (ha : s.Alive) (hth : s.threads t = some th)
    (hstart : th.pc ≠ .start) (hleave : th.pc ≠ .leave) (hop : op ≠ .reset ∧ op ≠ .pipe) :
    cfg.threadStep s t th op = none := by
  have hnone := hrest (.thread t op) rfl ⟨hop.1, hop.2, fun x hx => by
    cases hth.symm.trans hx
    exact ⟨hleave, fun hpc => absurd hpc hstart⟩⟩
  rwa [step_thread ha hth] at hnone

-- One of the two reads goes on while there are bytes.
theorem receive_some (total : Nat) (got : List Byte) (next : List Byte → Pc)
    (hfd : s.fds th.clientSd = some (.conn th.me)) (hlt : got.length < total)
    (hpending : (s.conns th.me).pending ≠ []) : s.receive t th got total next (.read 1) ≠ none := by
  have hpos := List.length_pos_iff.mpr hpending
  unfold State.receive
  rw [if_pos hlt, hfd]
  dsimp only
  rw [if_pos ⟨by omega, by omega, by omega⟩]
  simp

theorem transmit_some (fd : Nat) (rest : List Byte) (next : List Byte → Pc) (e : Endpoint)
    (hfd : s.fds fd = some e) (he : e ≠ .listener) (hrest : rest ≠ []) :
    s.transmit t th fd rest next (.write 1) ≠ none := by
  have hpos := List.length_pos_iff.mpr hrest
  unfold State.transmit
  rw [if_neg hrest, hfd]
  cases e with
  | listener => exact absurd rfl he
  | tty =>
      dsimp only
      rw [if_pos ⟨by omega, by omega⟩]
      simp
  | conn k =>
      dsimp only
      rw [if_pos ⟨by omega, by omega⟩]
      simp

-- Who holds a semaphore can go on.
theorem holder_moves (cfg : Cfg) (hs : Serving s) (hth : s.threads t = some th) (c : Nat)
    (hholding : th.pc.holding = some c) :
    ∃ op, op ≠ .reset ∧ op ≠ .pipe ∧ cfg.threadStep s t th op ≠ none := by
  have hintact := hs.opened.intact hs.table hth
  cases hpc : th.pc with
  | hold msg client => exact ⟨.go, by simp, by simp, by simp [Cfg.threadStep, hpc]⟩
  | post msg client => exact ⟨.go, by simp, by simp, by simp [Cfg.threadStep, hpc]⟩
  | send msg client fd data rest =>
      have hfd : s.fds fd = some (.conn client) := by
        simpa [Thread.Intact, Thread.meant, hpc] using hintact
      by_cases hrest : rest = []
      · exact ⟨.go, by simp, by simp, by simp [Cfg.threadStep, hpc, hrest, hfd]⟩
      · refine ⟨.write 1, by simp, by simp, ?_⟩
        simp only [Cfg.threadStep, hpc]
        exact transmit_some fd rest _ _ hfd (by simp) hrest
  | _ =>
      rw [hpc] at hholding
      cases hholding

theorem Cfg.Resting.idle (hrest : cfg.Resting s) (hplain : cfg.encrypted = false) (hs : Serving s)
    (hl : Left s) (hw : Within cfg s) (hth : s.threads t = some th) (hstart : th.pc ≠ .start) :
    Idle s th := by
  have hintact := hs.opened.intact hs.table hth
  have hwithin := hw t th hth
  have hp := hs.table.placed t th hth
  have hcan : th.pc ≠ .leave → ∀ op, op ≠ .reset ∧ op ≠ .pipe → cfg.threadStep s t th op ≠ none → False :=
    fun hleave op hop hsome => hsome (hrest.stuck hs.alive hth hstart hleave hop)
  cases hpc : th.pc with
  | start => exact absurd hpc hstart
  | gone => exact absurd hpc (hl.running t th hth)
  | leave => exact .leave hpc
  | loadSd =>
      have hme := hp.joined.resolve_left hstart
      have hroom := hs.table.room
      exact (hcan (by simp [hpc]) .go (by simp)
        (by simp [Cfg.threadStep, hpc, show th.me < MAX_CLIENTS by omega])).elim
  | head got =>
      have hfd : s.fds th.clientSd = some (.conn th.me) := by
        simpa [Thread.Intact, Thread.meant, hpc] using hintact
      have hfour : cfg.headSize = 4 := by simp [Cfg.headSize, hplain]
      simp only [Thread.Within, hpc, hfour] at hwithin
      by_cases hfull : got.length = 4
      · exact (hcan (by simp [hpc]) .go (by simp) (by simp [Cfg.threadStep, hpc, hfour, hfull])).elim
      · refine .head got hpc (by omega) ?_
        by_contra hpending
        refine hcan (by simp [hpc]) (.read 1) (by simp) ?_
        simp only [Cfg.threadStep, hpc]
        exact receive_some _ got _ hfd (by omega) hpending
  | body size got =>
      have hfd : s.fds th.clientSd = some (.conn th.me) := by
        simpa [Thread.Intact, Thread.meant, hpc] using hintact
      simp only [Thread.Within, hpc] at hwithin
      by_cases hfull : got.length = size
      · exact (hcan (by simp [hpc]) .go (by simp) (by simp [Cfg.threadStep, hpc, hfull])).elim
      · refine .body size got hpc (by omega) ?_
        by_contra hpending
        refine hcan (by simp [hpc]) (.read 1) (by simp) ?_
        simp only [Cfg.threadStep, hpc]
        exact receive_some _ got _ hfd (by omega) hpending
  | display msg rest =>
      by_cases hnil : rest = []
      · exact (hcan (by simp [hpc]) .go (by simp) (by simp [Cfg.threadStep, hpc, hnil])).elim
      · refine (hcan (by simp [hpc]) (.write 1) (by simp) ?_).elim
        simp only [Cfg.threadStep, hpc]
        exact transmit_some 0 rest _ _ hs.opened.tty (by simp) hnil
  | test msg client =>
      refine (hcan (by simp [hpc]) .go (by simp) ?_).elim
      simp only [Cfg.threadStep, hpc]
      split_ifs <;> simp
  | wait msg client =>
      -- Who waits for a semaphore waits for somebody who can go on.
      have hready := hs.locked.ready_of_visiting hp client (by rw [hpc]; rfl)
      obtain ⟨n, hn⟩ := Option.isSome_iff_exists.mp hready
      cases n with
      | zero =>
          obtain ⟨u, hu⟩ := hs.locked.exclusive.holder client hn
          obtain ⟨y, hy, hholding⟩ := Option.bind_eq_some_iff.mp hu
          obtain ⟨op, hreset, hpipe, hsome⟩ := holder_moves cfg hs hy client hholding
          refine (hsome (hrest.stuck hs.alive hy ?_ ?_ ⟨hreset, hpipe⟩)).elim
          · intro hy
            rw [hy] at hholding
            cases hholding
          · intro hy
            rw [hy] at hholding
            cases hholding
      | succ n => exact (hcan (by simp [hpc]) .go (by simp) (by simp [Cfg.threadStep, hpc, hn])).elim
  | hold msg client | send msg client fd data rest | post msg client =>
      obtain ⟨op, hreset, hpipe, hsome⟩ := holder_moves cfg hs hth client (by rw [hpc]; rfl)
      exact (hcan (by simp [hpc]) op ⟨hreset, hpipe⟩ hsome).elim

-- The frames of an idle thread are all that there are in what has come from its client.
theorem Idle.parse (h : Idle s th) (hs : Serving s) (hl : Left s) (hth : s.threads t = some th)
    (hstart : th.pc ≠ .start) : Parse IsFrame (s.conns th.me).came th.frames := by
  have hframes := (hs.carried.threads t th hth).frames
  obtain ⟨tail, htail, hgathered⟩ := hs.heard.heard t th hth hstart
  cases h with
  | head got hpc hlt hpending =>
      rw [Conn.came, hpending, List.append_nil, htail, hgathered got (by rw [hpc]; rfl)]
      exact .of_words _ _ hframes fun f hf => not_frame_of_short got f hlt hf
  | body size got hpc hlt hpending =>
      have hsize := (hs.carried.threads t th hth).size size got hpc
      rw [Conn.came, hpending, List.append_nil, htail, hgathered _ (by rw [hpc]; rfl)]
      exact .of_words _ _ hframes fun f hf => not_frame_of_partial size got f hsize hlt hf
  | leave hpc =>
      obtain ⟨tail, htail, hspent⟩ := hl.stopped t th hth hpc
      rw [Conn.came, htail, List.append_assoc]
      exact .of_words _ _ hframes fun f hf => hspent.none f hf

theorem Idle.pc (h : Idle s th) : th.pc.busy = false ∧ th.pc.passed = 0 ∧ th.pc.holding = none := by
  cases h with
  | head got hpc | body size got hpc | leave hpc => simp [hpc, Pc.busy, Pc.distributing, Pc.passed, Pc.holding]

-- What a server has done for a client: it has sent whole frames only, and of each other client
-- the frames in what has come from it, except those at the start that it missed.
structure Complete (s : State) (actions : List Act) (c : Nat) : Prop where
  whole : (s.conns c).sent = (s.conns c).whole
  all : ∀ t th, s.threads t = some th → th.pc ≠ .start → th.me ≠ c →
    Parse IsFrame (arrivals th.me actions) th.frames ∧
    ((s.conns c).log.filter (·.thread = t)).map (·.data) = th.frames.drop (th.missed c) ∧
    ((∀ b ∈ th.began.head?, c < b) → th.missed c = 0)

theorem map_getElem_range' (frames : List (List Byte)) (ds : List Delivery) (first count : Nat)
    (hnum : ds.map (·.frame) = List.range' first count) (hend : first + count = frames.length)
    (hdata : ∀ d ∈ ds, frames[d.frame]? = some d.data) : ds.map (·.data) = frames.drop first := by
  apply List.ext_getElem?
  intro i
  have hlen : ds.length = count := by simpa using congrArg List.length hnum
  rw [List.getElem?_map, List.getElem?_drop]
  by_cases hi : i < ds.length
  · have hframe : ds[i].frame = first + i := by
      have h := congrArg (·[i]?) hnum
      simpa [hi, show i < count by omega] using h
    rw [List.getElem?_eq_getElem hi, ← hframe, hdata _ (List.getElem_mem hi)]
    rfl
  · rw [List.getElem?_eq_none (by omega), List.getElem?_eq_none (by omega)]
    rfl

theorem Cfg.Resting.complete (hrest : cfg.Resting s) (hplain : cfg.encrypted = false) (hs : Serving s)
    (hl : Left s) (hw : Within cfg s) (hwide : Widening s) (actions : List Act)
    (hcame : ∀ k, (s.conns k).came = arrivals k actions) (c : Nat) : Complete s actions c where
  whole := by
    cases hs.streamed c with
    | idle hnone hsent => exact hsent
    | writing t data rest done hsending =>
        have hholds := holds_of_sending hsending
        obtain ⟨th, hth, hholding⟩ := Option.bind_eq_some_iff.mp hholds
        have hstart : th.pc ≠ .start := by
          intro hstart
          rw [hstart] at hholding
          cases hholding
        have hidle := (hrest.idle hplain hs hl hw hth hstart).pc.2.2
        rw [hidle] at hholding
        cases hholding
  all := fun t th hth hstart hne => by
    have hidle := hrest.idle hplain hs hl hw hth hstart
    obtain ⟨hbusy, hpassed, -⟩ := hidle.pc
    have hp := hs.paced.threads t th hth
    refine ⟨by rw [← hcame]; exact hidle.parse hs hl hth hstart, ?_, missed_eq_zero (hwide t th hth) hp⟩
    have hframes := hp.frames
    rw [hbusy] at hframes
    have howed := owed_eq_range (hwide t th hth) hne.symm
    rw [hpassed] at howed
    have hmissed := th.missed_le c
    simp only [Bool.false_eq_true, Nat.not_lt_zero, if_false, Nat.add_zero] at hframes howed
    refine map_getElem_range' th.frames _ (th.missed c) (th.ends.length - th.missed c) ?_ (by omega) ?_
    · rw [hs.paced.delivered c t, ← howed]
      simp only [State.owed, hth]
    · intro d hd
      obtain ⟨hmem, hthread⟩ := List.mem_filter.mp hd
      obtain ⟨y, hy, hframe⟩ := hs.carried.logs c d hmem
      rw [of_decide_eq_true hthread, hth] at hy
      cases hy
      exact hframe

-- What holds in every state that a plain server reaches.
structure Invariants (cfg : Cfg) (s : State) : Prop where
  serving : Serving s
  left : Left s
  within : Within cfg s
  widening : Widening s
  working : Working cfg s

theorem invariants_of_run (hplain : cfg.encrypted = false) {actions : List Act}
    (run : Run cfg.step Serves State.boot actions s) : Invariants cfg s := by
  apply run.invariant (I := Invariants cfg)
  · exact ⟨serving_boot, left_boot, fun t th h => (by cases h), widening_boot, working_boot cfg⟩
  · intro s a u h hok hstep
    exact {
      serving := serving_step hplain h.serving hok hstep
      left := left_step hplain h.serving h.left hok hstep
      within := within_step h.within hstep
      widening := widening_step h.serving.table h.widening hstep
      working := working_step h.working hstep }

theorem Invariants.complete (h : Invariants cfg s) (hrest : cfg.Resting s) (hplain : cfg.encrypted = false)
    (actions : List Act) (hcame : ∀ k, (s.conns k).came = arrivals k actions) (c : Nat) :
    Complete s actions c :=
  hrest.complete hplain h.serving h.left h.within h.widening actions hcame c

theorem Act.own_of_inner {a : Act} (h : a.inner = true) : a.own = true ∧ a.units = 0 ∧ ∀ k, a.brings k = [] := by
  cases a with
  | main | thread t op => exact ⟨rfl, rfl, fun k => rfl⟩
  | accept fd | arrive k data | hangup k => cases h

-- The same potential, when nobody is accepted.
def Cfg.innerPotential (cfg : Cfg) (hlen : cfg.Lengths) :
    Potential cfg.step Serves Act.inner (Working cfg) where
  value := cfg.energy
  brings := Act.units
  keeps := fun _ _ _ hw _ h => working_step hw h
  pays := fun s a u hw _ h => by
    have hstep := energy_step hlen hw h
    by_cases ha : a.inner = true
    · rw [ha]
      rwa [(Act.own_of_inner ha).1] at hstep
    · rw [if_neg ha]
      omega

theorem arrivals_inner (actions more : List Act) (hmore : ∀ a ∈ more, a.inner = true) (k : Nat) :
    arrivals k (actions ++ more) = arrivals k actions := by
  have hnone : more.flatMap (Act.brings k) = [] := by
    rw [List.flatMap_eq_nil_iff]
    exact fun a ha => (Act.own_of_inner (hmore a ha)).2.2 k
  rw [arrivals, List.flatMap_append, hnone, List.append_nil, arrivals]

-- The server comes to rest by itself, after a number of steps that the bytes that came bound,
-- and then every client has got all complete frames of the others.
theorem complete_of_rest (cfg : Cfg) (hplain : cfg.encrypted = false) (actions : List Act) (s : State)
    (run : Run cfg.step Serves State.boot actions s) :
    (cfg.Resting s → ∀ c, Complete s actions c) ∧
    ∃ more s', Run cfg.step Serves s more s' ∧ (∀ a ∈ more, a.inner = true) ∧
      more.length ≤ 91 + 31 * volume actions ∧ cfg.Resting s' ∧ ∀ c, Complete s' actions c := by
  have hinv := invariants_of_run hplain run
  refine ⟨fun hrest => hinv.complete hrest hplain actions (came_of_run run), ?_⟩
  have hlen : cfg.Lengths := by
    constructor <;> intro hmode <;> rw [hplain] at hmode <;> cases hmode
  obtain ⟨more, s', run', hinner, hrest⟩ := (cfg.innerPotential hlen).rests
    (fun a ha => (Act.own_of_inner ha).2.1) (cfg.energy s) s hinv.working (Nat.le_refl _)
  have hwhole := run.append run'
  refine ⟨more, s', run', hinner, ?_, hrest, ?_⟩
  · have hbefore := (cfg.potential hlen Serves).work run (working_boot cfg)
    have hafter := (cfg.innerPotential hlen).work run' hinv.working
    have hcount : more.countP Act.inner = more.length := List.countP_eq_length.mpr hinner
    have hzero : (more.map Act.units).sum = 0 := by
      rw [List.sum_eq_zero_iff]
      intro n hn
      obtain ⟨a, ha, rfl⟩ := List.mem_map.mp hn
      exact (Act.own_of_inner (hinner a ha)).2.1
    simp only [Cfg.potential, Cfg.innerPotential, sum_units, energy_boot, hcount, hzero] at hbefore hafter
    omega
  · refine (invariants_of_run hplain hwhole).complete hrest hplain actions fun k => ?_
    rw [came_of_run hwhole, arrivals_inner actions more hinner]

theorem greetingRun_rests :
    ∃ s, Run plain.step Serves State.boot greetingRun s ∧
      ∃ more s', Run plain.step Serves s more s' ∧ (∀ a ∈ more, a.inner = true) ∧
        more.length ≤ 308 ∧ ∀ c, Complete s' greetingRun c := by
  obtain ⟨s, run, -⟩ := Run.of_guarded plain.step Serves State.boot greetingRun (fun _ => true)
    (by decide +kernel)
  obtain ⟨-, more, s', run', hinner, hlen, -, hdone⟩ := complete_of_rest plain rfl greetingRun s run
  exact ⟨s, run, more, s', run', hinner, hlen, hdone⟩

end CryptodevChat.Server
