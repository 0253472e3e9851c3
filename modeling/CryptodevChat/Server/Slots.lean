import CryptodevChat.Server.Descriptors

namespace CryptodevChat.Server

open Lib (Run)
open Chat (MAX_CLIENTS)

variable {cfg : Cfg} {s s' : State} {t : Nat} {th : Thread}

-- What a thread uses of `newsd_serve` and `locks` in its next step: its own
-- slot, the one of the client whose turn it is, or the one that it closes.
def Thread.indices (s : State) (th : Thread) : List Nat :=
  match th.pc with
  | .loadSd => [th.me]
  | .wait _ client => [client]
  | .hold _ client => [client]
  | .post _ client => [client]
  | .leave => [s.noClient]
  | _ => []

-- The indices of `newsd_serve`, `locks` and `tid` that a step uses.
def State.indices (s : State) : Act → List Nat
  | .accept _ => [s.noClient]
  | .main => if s.mainPc = .semInit ∨ s.mainPc = .create then [s.noClient] else []
  | .thread t _ => ((s.threads t).map (·.indices s)).getD []
  | .arrive _ _ => []
  | .hangup _ => []

-- A client connects while fewer than `MAX_CLIENTS` ever did, and a service ends
-- while not that many were counted.
def InTime (s : State) : Act → Prop
  | .accept _ => s.nconn < MAX_CLIENTS
  | .thread t _ =>
      (s.threads t).map (·.pc) = some .leave → s.nconn < MAX_CLIENTS ∨ s.mainPc ≠ .accept
  | _ => True

instance (s : State) : (a : Act) → Decidable (InTime s a)
  | .accept _ => inferInstanceAs (Decidable (_ < _))
  | .thread _ _ => inferInstanceAs (Decidable (_ → _))
  | .main | .arrive _ _ | .hangup _ => inferInstanceAs (Decidable True)

def State.connected (s : State) : List Nat := (List.range s.nconn).filter fun k => (s.conns k).up

-- A connection that is open has a slot, and the slot is one of the table.
def Slotted (s : State) : Prop :=
  ∀ fd k, s.fds fd = some (.conn k) → k < MAX_CLIENTS ∧ s.newsdServe k = fd

-- The counter has room for one more exactly when the connections have, as long
-- as all of them are counted.
theorem Table.noClient_lt_iff (hs : Table s) :
    s.noClient < MAX_CLIENTS ↔ s.nconn < MAX_CLIENTS ∨ s.mainPc ≠ .accept := by
  have hconn := hs.connections
  have hroom := hs.room
  by_cases hmain : s.mainPc = .accept
  · simp only [hmain, if_true] at hconn
    simp [hmain, hconn]
  · rw [if_neg hmain] at hconn
    simp only [ne_eq, hmain, not_false_eq_true, or_true, iff_true]
    omega

-- A thread goes out of the table at its end only.
theorem thread_indices_iff (hs : Table s) (hth : s.threads t = some th) :
    (∀ i ∈ th.indices s, i < MAX_CLIENTS) ↔ (th.pc = .leave → s.noClient < MAX_CLIENTS) := by
  have hplaced := hs.placed t th hth
  have hroom := hs.room
  have hcount := hs.count_le
  have hvisit : ∀ client, th.pc.visiting = some client → client < MAX_CLIENTS := by
    intro client hclient
    have := (hplaced.visited client hclient).1
    omega
  unfold Thread.indices
  cases hpc : th.pc with
  | loadSd =>
      have hme := hplaced.joined.resolve_left (by simp [hpc])
      simp
      omega
  | wait msg client => simpa using hvisit client (by rw [hpc]; rfl)
  | hold msg client => simpa using hvisit client (by rw [hpc]; rfl)
  | post msg client => simpa using hvisit client (by rw [hpc]; rfl)
  | leave => simp
  | start | head | body | display | test | send | gone => simp

theorem indices_iff (hs : Table s) {a : Act} (h : cfg.step s a = some s') :
    (∀ i ∈ s.indices a, i < MAX_CLIENTS) ↔ InTime s a := by
  cases step_does h with
  | accept fd hmain | full fd hmain =>
      simp [State.indices, InTime, hs.noClient_lt_iff, hmain]
  | setId hmain | count hmain => simp [State.indices, InTime, hmain]
  | semInit hmain | create hmain =>
      have hlt := hs.noClient_lt_iff.mpr (.inr (by simp [hmain]))
      simpa [State.indices, InTime, hmain] using hlt
  | thread t th op s' hth hmoves =>
      have hindices := thread_indices_iff hs hth
      rw [hs.noClient_lt_iff] at hindices
      simpa [State.indices, InTime, hth] using hindices
  | arrive k data hk | hangup k hk => simp [State.indices, InTime]

theorem slotted_of_assigned (hs : Table s) (ha : Assigned s) : Slotted s := by
  intro fd k hfd
  obtain ⟨hk, hslot⟩ := ha fd k hfd
  exact ⟨hk.trans_le hs.room, hslot⟩

-- The tables are large enough for the first `MAX_CLIENTS` connections of a
-- server, whoever of them is still there, and for no end of a service after these.
theorem slots_in_range (cfg : Cfg) (actions : List Act) (s : State)
    (run : Run cfg.step InTime State.boot actions s) :
    Run cfg.step (fun s a => Slotted s ∧ ∀ i ∈ s.indices a, i < MAX_CLIENTS) State.boot actions s ∧
    Slotted s ∧
    ∀ a s', cfg.step s a = some s' → ((∀ i ∈ s.indices a, i < MAX_CLIENTS) ↔ InTime s a) := by
  have hinit : Table State.boot ∧ Assigned State.boot := ⟨table_boot, assigned_boot⟩
  have hkeep : ∀ s a u, Table s ∧ Assigned s → InTime s a → cfg.step s a = some u →
      Table u ∧ Assigned u :=
    fun s a u hs _ h => ⟨table_step hs.1 h, assigned_step hs.1 hs.2 h⟩
  obtain ⟨hs, ha⟩ := run.invariant hinit hkeep
  refine ⟨run.strengthen hinit hkeep fun s a u hs hok h => ?_, slotted_of_assigned hs ha,
    fun a s' h => indices_iff hs h⟩
  exact ⟨slotted_of_assigned hs.1 hs.2, (indices_iff hs.1 h).mpr hok⟩

-- The `k`th client connects, its service starts, and it goes away again.
def visit (k : Nat) : List Act :=
  [.accept (4 + k), .main, .main, .main, .main, .thread k .go, .thread k .go, .hangup k,
    .thread k .eof, .thread k .go]

-- The `k`th client connects and stays.
def join (k : Nat) : List Act := [.accept (4 + k), .main, .main, .main, .main]

theorem visits_in_range : ∃ s, Run plain.step InTime State.boot (visit 0 ++ join 1 ++ visit 2) s ∧
    s.connected = [1] ∧ Slotted s := by
  obtain ⟨s, run, hs⟩ := Run.of_guarded plain.step InTime State.boot (visit 0 ++ join 1 ++ visit 2)
    (fun s => decide (s.connected = [1])) (by decide +kernel)
  exact ⟨s, run, of_decide_eq_true hs, (slots_in_range plain _ s run).2.1⟩

-- With nobody connected, the eleventh connection is stored behind the table; and
-- when the tenth client of ten leaves, the descriptor to close is read there.
theorem slots_run_out :
    (∃ s s', Run plain.step (fun s _ => s.connected.length ≤ MAX_CLIENTS) State.boot
      ((List.range 10).flatMap fun k => join k ++ [.hangup k]) s ∧ s.connected = [] ∧
      plain.step s (.accept 14) = some s' ∧ s.indices (.accept 14) = [10] ∧ s'.fault = true) ∧
    ∃ s s', Run plain.step (fun s _ => s.connected.length ≤ MAX_CLIENTS) State.boot
      ((List.range 10).flatMap join ++
        [.thread 9 .go, .thread 9 .go, .hangup 9, .thread 9 .eof]) s ∧
      plain.step s (.thread 9 .go) = some s' ∧ s.indices (.thread 9 .go) = [10] ∧
      s'.fault = true := by
  constructor
  · obtain ⟨s, run, hs⟩ := Run.of_guarded plain.step
      (fun s _ => s.connected.length ≤ MAX_CLIENTS) State.boot
      ((List.range 10).flatMap fun k => join k ++ [.hangup k])
      (fun s => decide (s.connected = [] ∧ s.indices (.accept 14) = [10]) &&
        (plain.step s (.accept 14)).any (·.fault)) (by decide +kernel)
    obtain ⟨hs, hstep⟩ := Bool.and_eq_true_iff.mp hs
    obtain ⟨s', hstep, hfault⟩ := (Option.any_eq_true _ _).mp hstep
    exact ⟨s, s', run, (of_decide_eq_true hs).1, hstep, (of_decide_eq_true hs).2, hfault⟩
  · obtain ⟨s, run, hs⟩ := Run.of_guarded plain.step
      (fun s _ => s.connected.length ≤ MAX_CLIENTS) State.boot
      ((List.range 10).flatMap join ++
        [.thread 9 .go, .thread 9 .go, .hangup 9, .thread 9 .eof])
      (fun s => decide (s.indices (.thread 9 .go) = [10]) &&
        (plain.step s (.thread 9 .go)).any (·.fault)) (by decide +kernel)
    obtain ⟨hs, hstep⟩ := Bool.and_eq_true_iff.mp hs
    obtain ⟨s', hstep, hfault⟩ := (Option.any_eq_true _ _).mp hstep
    exact ⟨s, s', run, hstep, of_decide_eq_true hs, hfault⟩

end CryptodevChat.Server
