import CryptodevChat.Server.Table

namespace CryptodevChat.Server

open Lib (Byte Run)
open Chat (MAX_CLIENTS)

variable {cfg : Cfg} {s s' : State} {t : Nat} {th : Thread} {op : Op}

-- The service thread of a client has ended.
def State.Gone (s : State) (k : Nat) : Prop := (s.threads k).map (·.pc) = some .gone

instance (s : State) (k : Nat) : Decidable (s.Gone k) := inferInstanceAs (Decidable (_ = _))

-- Every running client has its own open descriptor in the table. A departed one
-- has none, and its thread closed that one only.
structure Owned (s : State) : Prop where
  running : ∀ k < s.nconn, ¬s.Gone k → s.fds (s.newsdServe k) = some (.conn k)
  departed : ∀ k, s.Gone k → ∀ fd, s.fds fd ≠ some (.conn k)
  once : ∀ k, s.Gone k → s.closed.filter (·.1 = k) = [(k, some (.conn k))]
  never : ∀ k, ¬s.Gone k → s.closed.filter (·.1 = k) = []
  standard : ∀ fd ≤ 3, s.fds fd = State.boot.fds fd

-- A connection is open on the descriptor that was accepted for it, if at all.
def Assigned (s : State) : Prop :=
  ∀ fd k, s.fds fd = some (.conn k) → k < s.nconn ∧ s.newsdServe k = fd

-- A service ends before the accept loop has counted its client.
def ClosesOwn (s : State) : Act → Prop
  | .thread t _ => (s.threads t).map (·.pc) = some .leave → s.noClient = t
  | _ => True

instance (s : State) : (a : Act) → Decidable (ClosesOwn s a)
  | .thread _ _ => inferInstanceAs (Decidable (_ → _))
  | .main | .accept _ | .arrive _ _ | .hangup _ => inferInstanceAs (Decidable True)

-- Apart from the last step of a thread, a thread closes nothing.
structure Quiet (s s' : State) : Prop where
  fds : s'.fds = s.fds
  closed : s'.closed = s.closed
  gone : ∀ k, s'.Gone k ↔ s.Gone k

theorem gone_update {x : Thread} (hthreads : s'.threads = Function.update s.threads t (some x))
    (k : Nat) : s'.Gone k ↔ if k = t then x.pc = .gone else s.Gone k := by
  unfold State.Gone
  rw [hthreads]
  by_cases hk : k = t
  · subst hk
    simp
  · rw [Function.update_of_ne hk, if_neg hk]

theorem quiet_of_update {x : Thread} (hth : s.threads t = some th)
    (hthreads : s'.threads = Function.update s.threads t (some x)) (hfds : s'.fds = s.fds)
    (hclosed : s'.closed = s.closed) (hpre : th.pc ≠ .gone) (hpost : x.pc ≠ .gone) :
    Quiet s s' := by
  refine ⟨hfds, hclosed, fun k => ?_⟩
  rw [gone_update hthreads]
  by_cases hk : k = t
  · subst hk
    simp [State.Gone, hth, hpre, hpost]
  · rw [if_neg hk]

theorem Moves.quiet (h : Moves cfg s t th op s') (hth : s.threads t = some th)
    (hleave : th.pc ≠ .leave) : Quiet s s' := by
  cases h with
  | exit | crash => exact ⟨rfl, rfl, fun k => Iff.rfl⟩
  | close hpc => exact absurd hpc hleave
  | receive next total hreads got hpc k n =>
      have hpre := hreads.pc_ne got
      have hpost := hreads.pc_ne (got ++ (s.conns k).pending.take n)
      rw [← hpc] at hpre
      exact quiet_of_update hth rfl rfl rfl hpre.2.2.1 hpost.2.2.1
  | eof next total hreads got hpc =>
      have hpre := hreads.pc_ne got
      rw [← hpc] at hpre
      exact quiet_of_update hth rfl rfl rfl hpre.2.2.1 (by simp)
  | write next fd hwrites rest hpc | tty next fd hwrites rest hpc =>
      exact quiet_of_update hth rfl rfl rfl (by cases hwrites <;> simp [hpc])
        (by cases hwrites <;> simp)
  | start hpc | loadSd hpc | nothing got hpc | header got hpc | block got hpc | frame size got hpc
  | shown msg hpc | skip msg hpc | visit msg client hpc | finish msg client hpc
  | lock msg client n hpc | load msg client hpc | sent msg client fd data hpc
  | astray msg client fd data hpc | post msg client hpc =>
      exact quiet_of_update hth rfl rfl rfl (by simp [hpc]) (by simp)

theorem Assigned.quiet (ha : Assigned s) (hquiet : Quiet s s') (hn : s.nconn ≤ s'.nconn)
    (hslots : s'.newsdServe = s.newsdServe) : Assigned s' := by
  intro fd k hfd
  rw [hquiet.fds] at hfd
  obtain ⟨hk, hslot⟩ := ha fd k hfd
  exact ⟨by omega, by rw [hslots, hslot]⟩

-- Nothing is lost by a step that closes nothing.
theorem Owned.quiet (ho : Owned s) (hquiet : Quiet s s') (hn : s'.nconn = s.nconn)
    (hslots : s'.newsdServe = s.newsdServe) : Owned s' where
  running := fun k hk hgone => by
    rw [hquiet.fds, hslots]
    exact ho.running k (by omega) fun h => hgone ((hquiet.gone k).mpr h)
  departed := fun k hgone fd => by
    rw [hquiet.fds]
    exact ho.departed k ((hquiet.gone k).mp hgone) fd
  once := fun k hgone => by
    rw [hquiet.closed]
    exact ho.once k ((hquiet.gone k).mp hgone)
  never := fun k hgone => by
    rw [hquiet.closed]
    exact ho.never k fun h => hgone ((hquiet.gone k).mpr h)
  standard := fun fd hfd => by
    rw [hquiet.fds]
    exact ho.standard fd hfd

theorem Table.gone_lt (hs : Table s) {k : Nat} (h : s.Gone k) : k < s.nconn := by
  unfold State.Gone at h
  cases hth : s.threads k with
  | none =>
      rw [hth] at h
      cases h
  | some th => exact hs.nconn_pos hth

-- A new connection takes a descriptor that nobody has.
theorem owned_accept (hs : Table s) (ho : Owned s) (fd : Nat) (hmain : s.mainPc = .accept)
    (hfree : s.fds fd = none) :
    Owned { s with
      newsdServe := Function.update s.newsdServe s.noClient fd
      fds := Function.update s.fds fd (some (.conn s.nconn))
      nconn := s.nconn + 1
      mainPc := .setId } := by
  have hconn : s.nconn = s.noClient := by simpa [hmain] using hs.connections
  constructor
  · intro k hk hgone
    have hk : k < s.nconn + 1 := hk
    dsimp only
    by_cases hnew : k = s.noClient
    · subst hnew
      rw [Function.update_self, Function.update_self, hconn]
    · have hopen := ho.running k (by omega) hgone
      rw [Function.update_of_ne hnew, Function.update_of_ne, hopen]
      intro heq
      rw [heq, hfree] at hopen
      cases hopen
  · intro k hgone x
    have hlt : k < s.nconn := hs.gone_lt (s := s) hgone
    dsimp only
    by_cases hx : x = fd
    · subst hx
      rw [Function.update_self]
      rintro ⟨⟩
      omega
    · rw [Function.update_of_ne hx]
      exact ho.departed k hgone x
  · exact ho.once
  · exact ho.never
  · intro x hx
    dsimp only
    rw [Function.update_of_ne]
    · exact ho.standard x hx
    · rintro rfl
      rw [ho.standard x hx] at hfree
      simp only [State.boot] at hfree
      split_ifs at hfree
      omega

-- The descriptor that the end of a service closes, while its client is not counted yet.
theorem owned_close (ha : Assigned s) (ho : Owned s) (hth : s.threads t = some th)
    (hlt : t < s.nconn) (hpc : th.pc = .leave) :
    Owned { s.put t { th with pc := .gone } with
      fds := Function.update s.fds (s.newsdServe t) none
      closed := s.closed ++ [(t, s.fds (s.newsdServe t))] } := by
  have hgone : ¬s.Gone t := by simp [State.Gone, hth, hpc]
  have hopen := ho.running t hlt hgone
  have hiff : ∀ k, State.Gone { s.put t { th with pc := .gone } with
      fds := Function.update s.fds (s.newsdServe t) none
      closed := s.closed ++ [(t, s.fds (s.newsdServe t))] } k ↔ if k = t then True else s.Gone k := by
    intro k
    rw [gone_update (s := s) (t := t) (x := { th with pc := .gone }) rfl]
    simp
  constructor
  · intro k hk hk'
    rw [hiff] at hk'
    by_cases hkt : k = t
    · simp [hkt] at hk'
    · rw [if_neg hkt] at hk'
      have hother := ho.running k hk hk'
      show Function.update s.fds (s.newsdServe t) none (s.newsdServe k) = _
      rw [Function.update_of_ne, hother]
      intro heq
      rw [heq, hopen] at hother
      cases hother
      exact hkt rfl
  · intro k hk x
    rw [hiff] at hk
    show Function.update s.fds (s.newsdServe t) none x ≠ _
    by_cases hx : x = s.newsdServe t
    · rw [hx, Function.update_self]
      simp
    · rw [Function.update_of_ne hx]
      by_cases hkt : k = t
      · subst hkt
        intro hfd
        exact hx (ha x k hfd).2.symm
      · rw [if_neg hkt] at hk
        exact ho.departed k hk x
  · intro k hk
    rw [hiff] at hk
    show (s.closed ++ [(t, s.fds (s.newsdServe t))]).filter (·.1 = k) = _
    rw [List.filter_append]
    by_cases hkt : k = t
    · subst hkt
      rw [ho.never k hgone, hopen]
      simp
    · rw [if_neg hkt] at hk
      rw [ho.once k hk]
      simp [Ne.symm hkt]
  · intro k hk
    rw [hiff] at hk
    by_cases hkt : k = t
    · simp [hkt] at hk
    · rw [if_neg hkt] at hk
      show (s.closed ++ [(t, s.fds (s.newsdServe t))]).filter (·.1 = k) = _
      rw [List.filter_append, ho.never k hk]
      simp [Ne.symm hkt]
  · intro x hx
    show Function.update s.fds (s.newsdServe t) none x = _
    rw [Function.update_of_ne]
    · exact ho.standard x hx
    · rintro rfl
      rw [ho.standard _ hx] at hopen
      simp only [State.boot] at hopen
      split_ifs at hopen <;> cases hopen

theorem Table.quiet_create (hs : Table s) (hmain : s.mainPc = .create) :
    Quiet s { s.put s.noClient Thread.create with mainPc := .count } := by
  refine ⟨rfl, rfl, fun k => ?_⟩
  rw [gone_update (s := s) (t := s.noClient) (x := Thread.create) rfl]
  by_cases hk : k = s.noClient
  · subst hk
    have hnone := hs.none_of_create hmain
    simp [State.Gone, hnone, Thread.create]
  · rw [if_neg hk]

-- A step closes nothing, accepts a connection, or ends a thread.
theorem step_quiet {a : Act} (hs : Table s) (h : cfg.step s a = some s') :
    (Quiet s s' ∧ s'.nconn = s.nconn ∧ s'.newsdServe = s.newsdServe) ∨
    (∃ fd, s.mainPc = .accept ∧ s.fds fd = none ∧
      s' = { s with
        newsdServe := Function.update s.newsdServe s.noClient fd
        fds := Function.update s.fds fd (some (.conn s.nconn))
        nconn := s.nconn + 1
        mainPc := .setId }) ∨
    (∃ t th op, a = .thread t op ∧ s.threads t = some th ∧ th.pc = .leave ∧
      s' = { s.put t { th with pc := .gone } with
        fds := Function.update s.fds (s.newsdServe s.noClient) none
        closed := s.closed ++ [(t, s.fds (s.newsdServe s.noClient))] }) := by
  cases step_does h with
  | setId | semInit | count | full | arrive | hangup =>
      exact .inl ⟨⟨rfl, rfl, fun k => Iff.rfl⟩, rfl, rfl⟩
  | create hmain => exact .inl ⟨hs.quiet_create hmain, rfl, rfl⟩
  | accept fd hmain hfree hroom => exact .inr (.inl ⟨fd, hmain, hfree, rfl⟩)
  | thread t th op s' hth hmoves =>
      by_cases hpc : th.pc = .leave
      · cases hmoves with
        | close _ _ => exact .inr (.inr ⟨t, th, _, rfl, hth, hpc, rfl⟩)
        | exit | crash => exact .inl ⟨⟨rfl, rfl, fun k => Iff.rfl⟩, rfl, rfl⟩
        | receive next total hreads got hpc' | eof next total hreads got hpc' =>
            cases hreads <;> simp [hpc] at hpc'
        | write next fd hwrites rest hpc' | tty next fd hwrites rest hpc' =>
            cases hwrites <;> simp [hpc] at hpc'
        | start hpc' | loadSd hpc' | nothing got hpc' | header got hpc' | block got hpc'
        | frame size got hpc' | shown msg hpc' | skip msg hpc' | visit msg client hpc'
        | finish msg client hpc' | lock msg client n hpc' | load msg client hpc'
        | sent msg client fd data hpc' | astray msg client fd data hpc' | post msg client hpc' =>
            simp [hpc] at hpc'
      · exact .inl ⟨hmoves.quiet hth hpc, hmoves.nconn, hmoves.newsdServe⟩

theorem assigned_boot : Assigned State.boot := by
  intro fd k hfd
  simp only [State.boot] at hfd
  split_ifs at hfd <;> cases hfd

theorem assigned_step {a : Act} (hs : Table s) (ha : Assigned s) (h : cfg.step s a = some s') :
    Assigned s' := by
  rcases step_quiet hs h with ⟨hquiet, hn, hslots⟩ | ⟨fd, hmain, hfree, rfl⟩ |
    ⟨t, th, op, rfl, hth, hpc, rfl⟩
  · exact ha.quiet hquiet hn.ge hslots
  · have hconn : s.nconn = s.noClient := by simpa [hmain] using hs.connections
    intro x k hx
    dsimp only at hx ⊢
    by_cases hfd : x = fd
    · subst hfd
      rw [Function.update_self] at hx
      cases hx
      rw [← hconn, Function.update_self]
      exact ⟨Nat.lt_succ_self _, rfl⟩
    · rw [Function.update_of_ne hfd] at hx
      obtain ⟨hk, hslot⟩ := ha x k hx
      exact ⟨by omega, by rw [Function.update_of_ne (by omega), hslot]⟩
  · intro x k hx
    dsimp only at hx
    by_cases hfd : x = s.newsdServe s.noClient
    · rw [hfd, Function.update_self] at hx
      cases hx
    · rw [Function.update_of_ne hfd] at hx
      exact ha x k hx

theorem owned_boot : Owned State.boot where
  running := fun k hk => absurd hk (Nat.not_lt_zero k)
  departed := fun k hk => by cases hk
  once := fun k hk => by cases hk
  never := fun k _ => rfl
  standard := fun fd _ => rfl

theorem owned_step {a : Act} (hs : Table s) (ha : Assigned s) (ho : Owned s) (hok : ClosesOwn s a)
    (h : cfg.step s a = some s') : Owned s' := by
  rcases step_quiet hs h with ⟨hquiet, hn, hslots⟩ | ⟨fd, hmain, hfree, rfl⟩ |
    ⟨t, th, op, rfl, hth, hpc, rfl⟩
  · exact ho.quiet hquiet hn hslots
  · exact owned_accept hs ho fd hmain hfree
  · have hcount : s.noClient = t := hok (by rw [hth, ← hpc]; rfl)
    rw [hcount]
    exact owned_close ha ho hth (hs.nconn_pos hth) hpc

-- A running client has kept its descriptor from all that came after it.
def Apart (s : State) : Prop :=
  ∀ j k, j < k → k < s.nconn → ¬s.Gone j → s.newsdServe j ≠ s.newsdServe k

theorem apart_step {a : Act} (hs : Table s) (ho : Owned s) (hapart : Apart s)
    (h : cfg.step s a = some s') : Apart s' := by
  rcases step_quiet hs h with ⟨hquiet, hn, hslots⟩ | ⟨fd, hmain, hfree, rfl⟩ |
    ⟨t, th, op, rfl, hth, hpc, rfl⟩
  · intro j k hjk hk hgone
    rw [hslots]
    exact hapart j k hjk (by omega) fun h => hgone ((hquiet.gone j).mpr h)
  · have hconn : s.nconn = s.noClient := by simpa [hmain] using hs.connections
    intro j k hjk hk hgone
    have hk : k < s.nconn + 1 := hk
    dsimp only
    rw [Function.update_of_ne (by omega : j ≠ s.noClient)]
    by_cases hnew : k = s.noClient
    · subst hnew
      rw [Function.update_self]
      intro heq
      have hopen := ho.running j (by omega) hgone
      rw [heq, hfree] at hopen
      cases hopen
    · rw [Function.update_of_ne hnew]
      exact hapart j k hjk (by omega) hgone
  · intro j k hjk hk hgone
    rw [gone_update (s := s) (t := t) (x := { th with pc := .gone }) rfl] at hgone
    by_cases hj : j = t
    · simp [hj] at hgone
    · rw [if_neg hj] at hgone
      exact hapart j k hjk hk hgone

-- A service that ends later closes what is not its own.
theorem not_owned_close (hs : Table s) (ha : Assigned s) (ho : Owned s) (hapart : Apart s)
    (hth : s.threads t = some th) (hpc : th.pc = .leave) (hcount : s.noClient ≠ t) :
    ¬Owned { s.put t { th with pc := .gone } with
      fds := Function.update s.fds (s.newsdServe s.noClient) none
      closed := s.closed ++ [(t, s.fds (s.newsdServe s.noClient))] } := by
  intro ho'
  have hgone : ¬s.Gone t := by simp [State.Gone, hth, hpc]
  have honce := ho'.once t (by simp [State.Gone])
  dsimp only at honce
  rw [List.filter_append, ho.never t hgone] at honce
  have hfd : s.fds (s.newsdServe s.noClient) = some (.conn t) := by simpa using honce
  have hslot : s.newsdServe t = s.newsdServe s.noClient := (ha _ _ hfd).2
  by_cases hset : s.noClient < s.nconn
  · have hlt : t < s.noClient := by
      have hn := hs.nconn_pos hth
      have hconn := hs.connections
      split_ifs at hconn <;> omega
    exact hapart t s.noClient hlt hset hgone hslot
  · have hzero := hs.unset s.noClient (by omega)
    rw [hzero, ho.standard 0 (by omega)] at hfd
    cases hfd

-- In a run in which services end only before their client is counted, descriptors
-- are owned as they should be; any other end of a service is a wrong `close`.
theorem descriptors_owned (cfg : Cfg) (actions : List Act) (s : State)
    (run : Run cfg.step ClosesOwn State.boot actions s) :
    Owned s ∧ ∀ t th s', s.threads t = some th → th.pc = .leave →
      cfg.step s (.thread t .go) = some s' →
      (Owned s' ∧ s'.fault = false ↔ s.noClient = t) := by
  obtain ⟨hs, ha, ho, hapart⟩ : Table s ∧ Assigned s ∧ Owned s ∧ Apart s := by
    apply run.invariant (I := fun s => Table s ∧ Assigned s ∧ Owned s ∧ Apart s)
    · exact ⟨table_boot, assigned_boot, owned_boot, fun j k _ hk => absurd hk (Nat.not_lt_zero k)⟩
    · rintro s a u ⟨hs, ha, ho, hapart⟩ hok h
      exact ⟨table_step hs h, assigned_step hs ha h, owned_step hs ha ho hok h, apart_step hs ho hapart h⟩
  refine ⟨ho, fun t th s' hth hpc h => ?_⟩
  have hstate : s.exited = false ∧ s.fault = false := by
    unfold Cfg.step at h
    split_ifs at h with hstop
    simpa using hstop
  have hmoves : cfg.threadStep s t th .go = some s' := by
    simpa [Cfg.step, hstate, hth] using h
  simp only [Cfg.threadStep, hpc] at hmoves
  by_cases hroom : s.noClient < MAX_CLIENTS
  · rw [if_pos hroom] at hmoves
    cases hmoves
    constructor
    · intro ⟨ho', _⟩
      by_contra hcount
      exact not_owned_close hs ha ho hapart hth hpc hcount ho'
    · intro hcount
      rw [hcount]
      exact ⟨owned_close ha ho hth (hs.nconn_pos hth) hpc, hstate.2⟩
  · rw [if_neg hroom] at hmoves
    cases hmoves
    constructor
    · rintro ⟨_, hfault⟩
      cases hfault
    · intro hcount
      have hn := hs.nconn_pos hth
      have := hs.room
      omega

-- Client 0 is accepted, its thread runs, the peer hangs up: before the accept
-- loop counts it, or after.
def hangupEarly : List Act :=
  [.accept 4, .main, .main, .main, .thread 0 .go, .thread 0 .go, .hangup 0, .thread 0 .eof,
    .thread 0 .go, .main]

def hangupLate : List Act :=
  [.accept 4, .main, .main, .main, .main, .thread 0 .go, .thread 0 .go, .hangup 0, .thread 0 .eof,
    .thread 0 .go]

theorem hangupEarly_owned :
    ∃ s, Run plain.step ClosesOwn State.boot hangupEarly s ∧ s.Gone 0 ∧ s.fds 4 = none ∧ Owned s := by
  obtain ⟨s, run, hs⟩ := Run.of_guarded plain.step ClosesOwn State.boot hangupEarly
    (fun s => decide (s.Gone 0 ∧ s.fds 4 = none)) (by decide +kernel)
  have hs := of_decide_eq_true hs
  exact ⟨s, run, hs.1, hs.2, (descriptors_owned plain hangupEarly s run).1⟩

-- The server closes its standard input, and the connection stays open.
theorem hangupLate_not_owned :
    ∃ s, Run plain.step (fun _ _ => True) State.boot hangupLate s ∧ s.Gone 0 ∧
      s.closed = [(0, some .tty)] ∧ s.fds 0 = none ∧ s.fds 4 = some (.conn 0) ∧ ¬Owned s := by
  obtain ⟨s, run, hs⟩ := Run.of_guarded plain.step (fun _ _ => True) State.boot hangupLate
    (fun s => decide (s.Gone 0 ∧ s.closed = [(0, some .tty)] ∧ s.fds 0 = none ∧
      s.fds 4 = some (.conn 0))) (by decide +kernel)
  obtain ⟨hgone, hclosed, hstdin, hopen⟩ := of_decide_eq_true hs
  exact ⟨s, run, hgone, hclosed, hstdin, hopen, fun ho => ho.departed 0 hgone 4 hopen⟩

end CryptodevChat.Server
