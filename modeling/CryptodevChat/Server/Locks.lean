import CryptodevChat.Lib.Semaphore
import CryptodevChat.Server.Table

namespace CryptodevChat.Server

open Lib (Byte Exclusive)

variable {cfg : Cfg} {s s' : State} {t : Nat} {th : Thread} {op : Op}

-- The client whose semaphore a thread holds.
def Pc.holding : Pc → Option Nat
  | .hold _ client => some client
  | .send _ client _ _ _ => some client
  | .post _ client => some client
  | _ => none

def State.holds (s : State) (t : Nat) : Option Nat := (s.threads t).bind fun th => th.pc.holding

-- The semaphores of the counted clients are there, and each has at most one holder.
structure Locked (s : State) : Prop where
  exclusive : Exclusive s.locks s.holds
  ready : ∀ c, (s.locks c).isSome = true ↔
    c < s.noClient + if s.mainPc = .create ∨ s.mainPc = .count then 1 else 0

theorem holds_update {x : Thread} (hthreads : s'.threads = Function.update s.threads t (some x)) :
    s'.holds = Function.update s.holds t x.pc.holding := by
  funext u
  unfold State.holds
  rw [hthreads]
  by_cases hu : u = t
  · subst hu
    simp
  · rw [Function.update_of_ne hu, Function.update_of_ne hu]

-- A thread that keeps what it holds.
theorem holds_same {x : Thread} (hth : s.threads t = some th)
    (hthreads : s'.threads = Function.update s.threads t (some x))
    (hpc : x.pc.holding = th.pc.holding) : s'.holds = s.holds := by
  have hold : s.holds t = th.pc.holding := by simp [State.holds, hth]
  rw [holds_update hthreads, hpc, ← hold, Function.update_eq_self]

theorem Pc.visiting_of_holding {pc : Pc} {client : Nat} (h : pc.holding = some client) :
    pc.visiting = some client := by
  cases pc <;> first | exact h | cases h

theorem Reads.holding {next : List Byte → Pc} {total : Nat} (h : Reads cfg next total)
    (got : List Byte) : (next got).holding = none := by
  cases h <;> rfl

theorem Writes.holding {next : List Byte → Pc} {fd : Nat} (h : Writes next fd)
    (rest rest' : List Byte) : (next rest).holding = (next rest').holding := by
  cases h <;> rfl

-- A step of a thread takes a semaphore, gives one back, or does neither.
theorem Moves.locks_cases (h : Moves cfg s t th op s') (hth : s.threads t = some th) :
    (s'.locks = s.locks ∧ s'.holds = s.holds) ∨
    (∃ client n, s.holds t = none ∧ s.locks client = some (n + 1) ∧
      s'.locks = Function.update s.locks client (some n) ∧
      s'.holds = Function.update s.holds t (some client)) ∨
    (∃ client, s.holds t = some client ∧
      s'.locks = Function.update s.locks client ((s.locks client).map (· + 1)) ∧
      s'.holds = Function.update s.holds t none) := by
  cases h with
  | exit | crash => exact .inl ⟨rfl, rfl⟩
  | lock msg client n hpc hlock =>
      refine .inr (.inl ⟨client, n, ?_, hlock, rfl,
        holds_update (x := { th with pc := .hold msg client }) rfl⟩)
      simp [State.holds, hth, hpc, Pc.holding]
  | post msg client hpc =>
      refine .inr (.inr ⟨client, ?_, rfl,
        holds_update (x := { th with pc := .test msg (client + 1) }) rfl⟩)
      simp [State.holds, hth, hpc, Pc.holding]
  | receive next total hreads got hpc =>
      exact .inl ⟨rfl, holds_same hth rfl (by rw [hpc, hreads.holding, hreads.holding])⟩
  | eof next total hreads got hpc =>
      exact .inl ⟨rfl, holds_same hth rfl (by rw [hpc, hreads.holding]; rfl)⟩
  | write next fd hwrites rest hpc | tty next fd hwrites rest hpc =>
      exact .inl ⟨rfl, holds_same hth rfl (by rw [hpc]; exact hwrites.holding _ _)⟩
  | start hpc | loadSd hpc | nothing got hpc | header got hpc | block got hpc | frame size got hpc
  | shown msg hpc | skip msg hpc | visit msg client hpc | finish msg client hpc
  | load msg client hpc | sent msg client fd data hpc | astray msg client fd data hpc
  | close hpc => exact .inl ⟨rfl, holds_same hth rfl (by rw [hpc]; rfl)⟩

theorem locked_boot : Locked State.boot where
  exclusive := Exclusive.start
  ready := fun c => by simp [State.boot]

theorem Moves.locked (h : Moves cfg s t th op s') (hl : Locked s) (hth : s.threads t = some th) :
    Locked s' := by
  have hsome : ∀ c, (s'.locks c).isSome = (s.locks c).isSome := by
    intro c
    rcases h.locks_cases hth with ⟨hlocks, _⟩ | ⟨client, n, _, hn, hlocks, _⟩ | ⟨client, _, hlocks, _⟩
    · rw [hlocks]
    · rw [hlocks]
      by_cases hc : c = client
      · subst hc
        rw [Function.update_self, hn]
        rfl
      · rw [Function.update_of_ne hc]
    · rw [hlocks]
      by_cases hc : c = client
      · subst hc
        rw [Function.update_self, Option.isSome_map]
      · rw [Function.update_of_ne hc]
  constructor
  · rcases h.locks_cases hth with ⟨hlocks, hholds⟩ | ⟨client, n, hnone, hn, hlocks, hholds⟩ |
      ⟨client, hsome, hlocks, hholds⟩
    · rw [hlocks, hholds]
      exact hl.exclusive
    · rw [hlocks, hholds]
      exact hl.exclusive.wait t client n hnone hn
    · rw [hlocks, hholds]
      exact hl.exclusive.post t client hsome
  · intro c
    rw [hsome, h.noClient, h.mainPc]
    exact hl.ready c

-- No step breaks mutual exclusion.
theorem locked_step {a : Act} (hs : Table s) (hl : Locked s) (h : cfg.step s a = some s') :
    Locked s' := by
  have hready := hl.ready
  cases step_does h with
  | setId hmain | count hmain =>
      exact ⟨hl.exclusive, fun c => by simpa [hmain] using hready c⟩
  | semInit hmain =>
      rw [hmain] at hready
      have hnone : s.locks s.noClient = none := by simpa using hready s.noClient
      refine ⟨hl.exclusive.init s.noClient hnone, fun c => ?_⟩
      by_cases hc : c = s.noClient
      · subst hc
        simp
      · dsimp only
        rw [Function.update_of_ne hc, hready]
        simp
        omega
  | create hmain =>
      have hnone := hs.none_of_create hmain
      have hholds : State.holds { s.put s.noClient Thread.create with mainPc := .count } = s.holds := by
        rw [holds_update (s := s) (t := s.noClient) (x := Thread.create) rfl]
        have hfree : s.holds s.noClient = Pc.holding Thread.create.pc := by
          simp [State.holds, hnone, Thread.create, Pc.holding]
        rw [← hfree, Function.update_eq_self]
      refine ⟨by rw [hholds]; exact hl.exclusive, fun c => ?_⟩
      simpa [hmain] using hready c
  | accept fd hmain hfree hroom => exact ⟨hl.exclusive, fun c => by simpa [hmain] using hready c⟩
  | full | arrive | hangup => exact ⟨hl.exclusive, hready⟩
  | thread t th op s' hth hmoves => exact hmoves.locked hl hth

-- Who stands in front of a semaphore, or holds it, finds it initialized.
theorem Locked.ready_of_visiting (hl : Locked s) (hp : th.Placed s) (client : Nat)
    (h : th.pc.visiting = some client) : (s.locks client).isSome = true := by
  rw [hl.ready]
  have := (hp.visited client h).1
  omega

end CryptodevChat.Server
