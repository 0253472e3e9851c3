import CryptodevChat.Server.Moves

namespace CryptodevChat.Server

open Lib (Byte)
open Chat (MAX_CLIENTS)

variable {cfg : Cfg} {s s' : State} {t : Nat} {th : Thread} {op : Op}
  {next : List Byte → Pc} {total : Nat}

-- The client whose turn it is in the loop of `forward`, behind the test of the loop.
def Pc.visiting : Pc → Option Nat
  | .wait _ client => some client
  | .hold _ client => some client
  | .send _ client _ _ _ => some client
  | .post _ client => some client
  | _ => none

-- What a thread knows of the client table.
structure Thread.Placed (s : State) (th : Thread) : Prop where
  joined : th.pc = .start ∨ th.me < s.nconn
  opened : th.pc = .start ∨ th.pc = .loadSd ∨ th.clientSd = s.newsdServe th.me
  tested : ∀ msg client, th.pc = .test msg client → client ≤ s.noClient
  visited : ∀ client, th.pc.visiting = some client → client < s.noClient ∧ client ≠ th.me
  sends : ∀ msg client fd data rest,
    th.pc = .send msg client fd data rest → fd = s.newsdServe client

-- The accept loop fills the table from the front and counts a client last.
structure Table (s : State) : Prop where
  connections : s.nconn = s.noClient + if s.mainPc = .accept then 0 else 1
  room : s.nconn ≤ MAX_CLIENTS
  created : ∀ t, (s.threads t).isSome = true ↔ t < s.noClient + if s.mainPc = .count then 1 else 0
  unset : ∀ k, s.nconn ≤ k → s.newsdServe k = 0
  ident : s.clientId ≤ s.nconn - 1
  placed : ∀ t th, s.threads t = some th → th.Placed s

@[simp] theorem put_noClient : (s.put t th).noClient = s.noClient := rfl
@[simp] theorem put_nconn : (s.put t th).nconn = s.nconn := rfl
@[simp] theorem put_locks : (s.put t th).locks = s.locks := rfl

@[simp] theorem put_threads_self : (s.put t th).threads t = some th := Function.update_self ..

theorem put_threads_of_ne {u : Nat} (h : u ≠ t) : (s.put t th).threads u = s.threads u :=
  Function.update_of_ne h ..

-- What holds of every thread is kept by a step that replaces one of them.
theorem forall_threads_update {P : Nat → Thread → Prop} {threads : Nat → Option Thread}
    (hall : ∀ u x, threads u = some x → P u x) (hnew : P t th) (u : Nat) (x : Thread)
    (hx : Function.update threads t (some th) u = some x) : P u x := by
  by_cases hu : u = t
  · subst hu
    rw [Function.update_self] at hx
    cases hx
    exact hnew
  · rw [Function.update_of_ne hu] at hx
    exact hall u x hx

-- A step changes its own thread only, and no other shared variable than the
-- semaphores, the descriptors and the connections.
theorem Moves.threads (h : Moves cfg s t th op s') (hth : s.threads t = some th) :
    ∃ th', s'.threads = Function.update s.threads t (some th') := by
  cases h with
  | exit | crash => exact ⟨th, by rw [← hth, Function.update_eq_self]; rfl⟩
  | _ => exact ⟨_, rfl⟩

theorem Moves.mainPc (h : Moves cfg s t th op s') : s'.mainPc = s.mainPc := by
  cases h <;> rfl

theorem Moves.noClient (h : Moves cfg s t th op s') : s'.noClient = s.noClient := by
  cases h <;> rfl

theorem Moves.clientId (h : Moves cfg s t th op s') : s'.clientId = s.clientId := by
  cases h <;> rfl

theorem Moves.newsdServe (h : Moves cfg s t th op s') : s'.newsdServe = s.newsdServe := by
  cases h <;> rfl

theorem Moves.nconn (h : Moves cfg s t th op s') : s'.nconn = s.nconn := by
  cases h <;> rfl

theorem Table.count_le (hs : Table s) : s.noClient ≤ s.nconn := by
  have := hs.connections
  omega

theorem Table.nconn_pos (hs : Table s) (hth : s.threads t = some th) : t < s.nconn := by
  have hlt := (hs.created t).mp (by rw [hth]; rfl)
  have hn := hs.connections
  by_cases hmain : s.mainPc = .count
  · simp only [hmain] at hlt hn
    simp at hlt hn
    omega
  · rw [if_neg hmain] at hlt
    omega

theorem Table.none_of_create (hs : Table s) (hmain : s.mainPc = .create) :
    s.threads s.noClient = none := by
  have hnone : ¬(s.threads s.noClient).isSome = true := by
    rw [hs.created, hmain]
    simp
  simpa using hnone

-- The table only grows.
theorem Thread.Placed.mono (h : th.Placed s) (hn : s.nconn ≤ s'.nconn)
    (hc : s.noClient ≤ s'.noClient) (hcount : s.noClient ≤ s.nconn)
    (hslots : ∀ k < s.nconn, s'.newsdServe k = s.newsdServe k) : th.Placed s' where
  joined := h.joined.imp id fun hme => by omega
  opened := by
    rcases h.opened with hpc | hpc | hsd
    · exact .inl hpc
    · exact .inr (.inl hpc)
    · rcases h.joined with hpc | hme
      · exact .inl hpc
      · exact .inr (.inr (by rw [hslots _ hme, hsd]))
  tested := fun msg client hpc => (h.tested msg client hpc).trans hc
  visited := fun client hpc => ⟨by have := (h.visited client hpc).1; omega, (h.visited client hpc).2⟩
  sends := fun msg client fd data rest hpc => by
    have hlt := (h.visited client (by rw [hpc]; rfl)).1
    rw [hslots client (by omega)]
    exact h.sends msg client fd data rest hpc

-- What is left to show for a thread that knows its descriptor.
theorem Thread.Placed.move (h : th.Placed s) (hstart : th.pc ≠ .start) (hload : th.pc ≠ .loadSd)
    (th' : Thread) (hme : th'.me = th.me) (hsd : th'.clientSd = th.clientSd)
    (htest : ∀ msg client, th'.pc = .test msg client → client ≤ s.noClient)
    (hvisit : ∀ client, th'.pc.visiting = some client → client < s.noClient ∧ client ≠ th.me)
    (hsend : ∀ msg client fd data rest,
      th'.pc = .send msg client fd data rest → fd = s.newsdServe client) : th'.Placed s where
  joined := .inr (by rw [hme]; exact h.joined.resolve_left hstart)
  opened := .inr (.inr (by
    rw [hme, hsd]
    exact (h.opened.resolve_left hstart).resolve_left hload))
  tested := htest
  visited := by rw [hme]; exact hvisit
  sends := hsend

-- A thread that is somewhere else than in the loop of `forward`.
theorem Thread.Placed.outside (h : th.Placed s) (hstart : th.pc ≠ .start) (hload : th.pc ≠ .loadSd)
    (th' : Thread) (hme : th'.me = th.me) (hsd : th'.clientSd = th.clientSd)
    (htest : ∀ msg client, th'.pc ≠ .test msg client) (hvisit : th'.pc.visiting = none) :
    th'.Placed s := by
  refine h.move hstart hload th' hme hsd (fun msg client hpc => absurd hpc (htest msg client)) ?_ ?_
  · intro client hpc
    rw [hvisit] at hpc
    cases hpc
  · intro msg client fd data rest hpc
    rw [hpc] at hvisit
    cases hvisit

-- A thread that goes on with the same client.
theorem Thread.Placed.stay (h : th.Placed s) (client : Nat) (hpc : th.pc.visiting = some client)
    (pc : Pc) (hvisit : pc.visiting = some client)
    (hsend : ∀ msg c fd data rest, pc = .send msg c fd data rest → fd = s.newsdServe c) :
    Thread.Placed s { th with pc := pc } := by
  have hstart : th.pc ≠ .start := by rintro hstart; rw [hstart] at hpc; cases hpc
  have hload : th.pc ≠ .loadSd := by rintro hload; rw [hload] at hpc; cases hpc
  refine h.move hstart hload { th with pc := pc } rfl rfl ?_ ?_ hsend
  · rintro msg c rfl
    cases hvisit
  · intro c hc
    exact h.visited c (by rw [hpc, ← hvisit]; exact hc)

theorem Reads.pc_ne (h : Reads cfg next total) (got : List Byte) :
    next got ≠ .start ∧ next got ≠ .loadSd ∧ next got ≠ .gone ∧ (next got).visiting = none ∧
      ∀ msg client, next got ≠ .test msg client := by
  cases h <;> simp [Pc.visiting]

-- A step places its thread again.
theorem Moves.placed (h : Moves cfg s t th op s') (hs : Table s) (hth : s.threads t = some th)
    (th' : Thread) (hth' : s'.threads t = some th') : th'.Placed s := by
  have hp := hs.placed t th hth
  cases h with
  | exit | crash =>
      rw [show s.threads t = some th' from hth'] at hth
      cases hth
      exact hp
  | start hpc =>
      cases put_threads_self.symm.trans hth'
      have hn := hs.nconn_pos hth
      have hid := hs.ident
      exact ⟨.inr (by show s.clientId < s.nconn; omega), .inr (.inl rfl), by simp, by simp [Pc.visiting],
        by simp⟩
  | loadSd hpc hme =>
      cases put_threads_self.symm.trans hth'
      exact ⟨.inr (hp.joined.resolve_left (by simp [hpc])), .inr (.inr rfl), by simp,
        by simp [Pc.visiting], by simp⟩
  | receive next total hreads got hpc k n =>
      cases put_threads_self.symm.trans hth'
      have hpre := hreads.pc_ne got
      have hpost := hreads.pc_ne (got ++ (s.conns k).pending.take n)
      rw [← hpc] at hpre
      exact hp.outside hpre.1 hpre.2.1 _ rfl rfl hpost.2.2.2.2 hpost.2.2.2.1
  | eof next total hreads got hpc =>
      cases put_threads_self.symm.trans hth'
      have hpre := hreads.pc_ne got
      rw [← hpc] at hpre
      exact hp.outside hpre.1 hpre.2.1 _ rfl rfl (by simp) rfl
  | nothing got hpc | header got hpc | block got hpc | frame size got hpc | finish msg client hpc
  | close hpc =>
      cases put_threads_self.symm.trans hth'
      exact hp.outside (by simp [hpc]) (by simp [hpc]) _ rfl rfl (by simp) rfl
  | shown msg hpc =>
      cases put_threads_self.symm.trans hth'
      exact hp.move (by simp [hpc]) (by simp [hpc]) _ rfl rfl (by simp) (by simp [Pc.visiting]) (by simp)
  | skip msg hpc hlt =>
      cases put_threads_self.symm.trans hth'
      refine hp.move (by simp [hpc]) (by simp [hpc]) _ rfl rfl ?_ (by simp [Pc.visiting]) (by simp)
      rintro _ _ ⟨⟩
      exact hlt
  | visit msg client hpc hlt hne =>
      cases put_threads_self.symm.trans hth'
      refine hp.move (by simp [hpc]) (by simp [hpc]) _ rfl rfl (by simp) ?_ (by simp)
      rintro _ ⟨⟩
      exact ⟨hlt, hne⟩
  | post msg client hpc =>
      cases put_threads_self.symm.trans hth'
      refine hp.move (by simp [hpc]) (by simp [hpc]) _ rfl rfl ?_ (by simp [Pc.visiting]) (by simp)
      rintro _ _ ⟨⟩
      exact (hp.visited client (by rw [hpc]; rfl)).1
  | write next fd hwrites rest hpc | tty next fd hwrites rest hpc =>
      cases put_threads_self.symm.trans hth'
      cases hwrites with
      | display msg => exact hp.outside (by simp [hpc]) (by simp [hpc]) _ rfl rfl (by simp) rfl
      | send msg client fd data =>
          refine hp.stay client (by rw [hpc]; rfl) _ rfl ?_
          rintro _ _ _ _ _ ⟨⟩
          exact hp.sends _ _ _ _ _ hpc
  | lock msg client n hpc | sent msg client fd data hpc | astray msg client fd data hpc =>
      cases put_threads_self.symm.trans hth'
      exact hp.stay client (by rw [hpc]; rfl) _ rfl (by simp)
  | load msg client hpc =>
      cases put_threads_self.symm.trans hth'
      refine hp.stay client (by rw [hpc]; rfl) _ rfl ?_
      rintro _ _ _ _ _ ⟨⟩
      rfl

theorem Moves.table (h : Moves cfg s t th op s') (hs : Table s) (hth : s.threads t = some th) :
    Table s' := by
  obtain ⟨th', hthreads⟩ := h.threads hth
  have hplaced := h.placed hs hth th' (by rw [hthreads, Function.update_self])
  constructor
  · rw [h.nconn, h.noClient, h.mainPc]
    exact hs.connections
  · rw [h.nconn]
    exact hs.room
  · intro u
    rw [h.noClient, h.mainPc, ← hs.created u, hthreads]
    by_cases hu : u = t
    · subst hu
      rw [Function.update_self, hth]
      rfl
    · rw [Function.update_of_ne hu]
  · rw [h.nconn, h.newsdServe]
    exact hs.unset
  · rw [h.nconn, h.clientId]
    exact hs.ident
  · intro u x hx
    rw [hthreads] at hx
    have hx := forall_threads_update hs.placed hplaced u x hx
    exact hx.mono h.nconn.ge h.noClient.ge hs.count_le fun k _ => by rw [h.newsdServe]

theorem table_boot : Table State.boot where
  connections := rfl
  room := by decide
  created := fun t => by simp [State.boot]
  unset := fun k _ => rfl
  ident := le_rfl
  placed := fun t th h => by cases h

-- No step of the server breaks the table, whatever the clients do.
theorem table_step {a : Act} (hs : Table s) (h : cfg.step s a = some s') : Table s' := by
  have hconn := hs.connections
  have hcount := hs.count_le
  have hmono : ∀ u : State, s.nconn ≤ u.nconn → s.noClient ≤ u.noClient →
      (∀ k < s.nconn, u.newsdServe k = s.newsdServe k) → u.threads = s.threads →
      ∀ t th, u.threads t = some th → th.Placed u := by
    intro u hn hc hslots hthreads t th hth
    rw [hthreads] at hth
    exact (hs.placed t th hth).mono hn hc hcount hslots
  cases step_does h with
  | setId hmain =>
      rw [hmain] at hconn
      refine ⟨by simp [hconn], hs.room, by simpa [hmain] using hs.created, hs.unset, ?_,
        hmono _ le_rfl le_rfl (fun k _ => rfl) rfl⟩
      show s.noClient ≤ s.nconn - 1
      simp at hconn
      omega
  | semInit hmain =>
      rw [hmain] at hconn
      exact ⟨by simp [hconn], hs.room, by simpa [hmain] using hs.created, hs.unset, hs.ident,
        hmono _ le_rfl le_rfl (fun k _ => rfl) rfl⟩
  | create hmain =>
      rw [hmain] at hconn
      refine ⟨by simpa using hconn, hs.room, ?_, hs.unset, hs.ident, ?_⟩
      · intro t
        have hcreated := hs.created t
        rw [hmain] at hcreated
        by_cases ht : t = s.noClient
        · subst ht
          simp
        · show ((s.put s.noClient Thread.create).threads t).isSome = true ↔ _
          rw [put_threads_of_ne ht, hcreated]
          simp
          omega
      · have hnew : Thread.create.Placed s := ⟨.inl rfl, .inl rfl, by simp [Thread.create],
          by simp [Thread.create, Pc.visiting], by simp [Thread.create]⟩
        intro t th hth
        exact (forall_threads_update hs.placed hnew t th hth).mono le_rfl le_rfl hcount
          fun k _ => rfl
  | count hmain =>
      rw [hmain] at hconn
      refine ⟨by simp [hconn], hs.room, by simpa [hmain] using hs.created, hs.unset, hs.ident,
        hmono _ le_rfl (Nat.le_succ _) (fun k _ => rfl) rfl⟩
  | accept fd hmain hfree hroom =>
      rw [hmain] at hconn
      have hconn : s.nconn = s.noClient := by simpa using hconn
      refine ⟨by simp [hconn], by show s.nconn + 1 ≤ MAX_CLIENTS; omega,
        by simpa [hmain] using hs.created, ?_, ?_, hmono _ (Nat.le_succ _) le_rfl ?_ rfl⟩
      · intro k hk
        have hk : s.nconn + 1 ≤ k := hk
        show Function.update s.newsdServe s.noClient fd k = 0
        rw [Function.update_of_ne (by omega)]
        exact hs.unset k (by omega)
      · show s.clientId ≤ s.nconn + 1 - 1
        have := hs.ident
        omega
      · intro k hk
        exact Function.update_of_ne (by omega) ..
  | full fd hmain hfull =>
      exact ⟨hconn, hs.room, hs.created, hs.unset, hs.ident,
        hmono _ le_rfl le_rfl (fun k _ => rfl) rfl⟩
  | thread t th op s' hth hmoves => exact hmoves.table hs hth
  | arrive k data hk | hangup k hk =>
      exact ⟨hconn, hs.room, hs.created, hs.unset, hs.ident,
        hmono _ le_rfl le_rfl (fun k _ => rfl) rfl⟩

end CryptodevChat.Server
