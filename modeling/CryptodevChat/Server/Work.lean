import CryptodevChat.Lib.Potential
import CryptodevChat.Server.Table
import Mathlib.Algebra.Order.BigOperators.Group.Finset

namespace CryptodevChat.Server

open Lib (Byte be fromBe Run Potential)
open Chat (MAX_CLIENTS DATA_SIZE pad)

variable {cfg : Cfg} {s s' : State} {t : Nat} {th : Thread} {op : Op}

-- The steps of the server itself; the others are those of its peers.
def Act.own : Act → Bool
  | .main | .accept _ | .thread _ _ => true
  | .arrive _ _ | .hangup _ => false

-- The device keeps the lengths of the blocks, where it is used.
structure Cfg.Lengths (cfg : Cfg) : Prop where
  enc : cfg.encrypted = true → ∀ block, (cfg.enc block).length = block.length
  dec : cfg.encrypted = true → ∀ block, (cfg.dec block).length = block.length

section Rounds

-- An upper bound of what one round of the loop in `forward` writes.
def Cfg.span (cfg : Cfg) (msg : Msg) : Nat :=
  if cfg.encrypted then max DATA_SIZE msg.buf.length else msg.buf.length

theorem Cfg.Lengths.data_le (h : cfg.Lengths) (msg : Msg) : (cfg.data msg).length ≤ cfg.span msg := by
  unfold Cfg.data Cfg.span
  split_ifs with hmode
  · rw [h.enc hmode, pad, List.length_append, List.length_replicate, List.length_take]
    omega
  · rw [List.length_take]
    omega

theorem Cfg.Lengths.span_after (h : cfg.Lengths) (msg : Msg) : cfg.span (cfg.after msg) ≤ cfg.span msg := by
  have hdata := h.data_le msg
  unfold Cfg.after
  by_cases hmode : cfg.encrypted = true
  · rw [if_pos hmode]
    have hspan : cfg.span msg = max DATA_SIZE msg.buf.length := by rw [span, if_pos hmode]
    have hafter : cfg.span { msg with buf := cfg.data msg } = max DATA_SIZE (cfg.data msg).length := by
      rw [span, if_pos hmode]
    omega
  · rw [if_neg hmode]

-- What is left of the loop costs this much at most, before the test of a client.
def Cfg.rounds (cfg : Cfg) (msg : Msg) (client : Nat) : Nat :=
  (MAX_CLIENTS + 1 - client) * (cfg.span msg + 6)

theorem Cfg.rounds_succ (cfg : Cfg) (msg : Msg) (client : Nat) (h : client ≤ MAX_CLIENTS) :
    cfg.rounds msg client = cfg.rounds msg (client + 1) + (cfg.span msg + 6) := by
  unfold Cfg.rounds
  rw [show MAX_CLIENTS + 1 - client = (MAX_CLIENTS + 1 - (client + 1)) + 1 by omega, Nat.succ_mul]

theorem Cfg.Lengths.rounds_after (h : cfg.Lengths) (msg : Msg) (client : Nat) :
    cfg.rounds (cfg.after msg) client ≤ cfg.rounds msg client :=
  Nat.mul_le_mul_left _ (Nat.add_le_add_right (h.span_after msg) 6)

end Rounds

-- What a thread may still do with the bytes that it has read. Thirty units for each
-- byte of a frame pay for eleven rounds that write it.
def Cfg.left (cfg : Cfg) : Pc → Nat
  | .start => 4
  | .loadSd => 3
  | .head got => 2 + 30 * got.length
  | .body _ got => 1 + 30 * (4 + got.length)
  | .display msg rest => rest.length + 3 + cfg.rounds msg 0
  | .test msg client => 2 + cfg.rounds msg client
  | .wait msg client => 1 + cfg.rounds msg client
  | .hold msg client => cfg.rounds msg client
  | .send msg client _ _ rest => 4 + rest.length + cfg.rounds msg (client + 1)
  | .post msg client => 3 + cfg.rounds msg (client + 1)
  | .leave => 1
  | .gone => 0

-- A step of a thread that costs what it took from its thread and from the pending bytes.
structure Spends (cfg : Cfg) (s : State) (t : Nat) (th : Thread) (s' : State) (x : Thread) (k n : Nat) :
    Prop where
  threads : s'.threads = Function.update s.threads t (some x)
  mainPc : s'.mainPc = s.mainPc
  nconn : s'.nconn = s.nconn
  stopped : s'.exited = s.exited ∧ s'.fault = s.fault
  taken : (s'.conns k).pending.length + n = (s.conns k).pending.length
  others : ∀ j ≠ k, (s'.conns j).pending = (s.conns j).pending
  cost : cfg.left x.pc + 1 ≤ cfg.left th.pc + 31 * n

def State.Stopped (s : State) : Prop := s.exited = true ∨ s.fault = true

-- A step that reads nothing.
theorem Spends.stay (x : Thread) (hthreads : s'.threads = Function.update s.threads t (some x))
    (hmain : s'.mainPc = s.mainPc) (hn : s'.nconn = s.nconn)
    (hstopped : s'.exited = s.exited ∧ s'.fault = s.fault)
    (hpending : ∀ j, (s'.conns j).pending = (s.conns j).pending)
    (hcost : cfg.left x.pc + 1 ≤ cfg.left th.pc) :
    s'.Stopped ∨ ∃ x k n, Spends cfg s t th s' x k n :=
  .inr ⟨x, 0, 0, hthreads, hmain, hn, hstopped, by rw [hpending, Nat.add_zero], fun j _ => hpending j, hcost⟩

theorem receive_spends (next : List Byte → Pc) (total : Nat) (got : List Byte) (hpc : th.pc = next got)
    (hcost : ∀ more, cfg.left (next (got ++ more)) = cfg.left (next got) + 30 * more.length)
    (hleave : 2 ≤ cfg.left (next got)) (h : s.receive t th got total next op = some s') :
    s'.Stopped ∨ ∃ x k n, Spends cfg s t th s' x k n := by
  unfold State.receive at h
  split_ifs at h with hlt
  split at h
  · rename_i k n hfd
    dsimp only at h
    split_ifs at h with hn
    cases h
    refine .inr ⟨_, k, n, rfl, rfl, rfl, ⟨rfl, rfl⟩, ?_, ?_, ?_⟩
    · simp [State.setConn]
      omega
    · intro j hj
      simp [State.setConn, State.put, Function.update_of_ne hj]
    · rw [hcost, hpc, List.length_take]
      omega
  · split_ifs at h
    cases h
    exact Spends.stay _ rfl rfl rfl ⟨rfl, rfl⟩ (fun j => rfl) (by rw [hpc]; exact hleave)
  · split_ifs at h
    cases h
    exact .inl (.inl rfl)
  · cases h
    exact .inl (.inl rfl)
  · cases h

theorem transmit_spends (next : List Byte → Pc) (fd : Nat) (rest : List Byte) (hpc : th.pc = next rest)
    (hcost : ∀ n, n ≤ rest.length → cfg.left (next (rest.drop n)) + n = cfg.left (next rest))
    (h : s.transmit t th fd rest next op = some s') :
    s'.Stopped ∨ ∃ x k n, Spends cfg s t th s' x k n := by
  unfold State.transmit at h
  split_ifs at h
  split at h
  · rename_i k n hfd
    dsimp only at h
    split_ifs at h with hn
    cases h
    refine Spends.stay _ rfl rfl rfl ⟨rfl, rfl⟩ (fun j => ?_) ?_
    · by_cases hj : j = k
      · subst hj
        simp [State.setConn]
      · simp [State.setConn, State.put, Function.update_of_ne hj]
    · have := hcost n hn.2
      rw [hpc]
      dsimp only
      omega
  · rename_i n hfd
    split_ifs at h with hn
    cases h
    refine Spends.stay _ rfl rfl rfl ⟨rfl, rfl⟩ (fun j => rfl) ?_
    have := hcost n hn.2
    rw [hpc]
    dsimp only
    omega
  · split_ifs at h
    cases h
    exact .inl (.inl rfl)
  · cases h
    exact .inl (.inl rfl)
  · cases h

-- A frame that was read pays for its display and for all rounds.
theorem parse_spends (hlen : cfg.Lengths) (got : List Byte) (hpc : th.pc = .head got)
    (hfull : got.length = cfg.headSize) :
    (cfg.parse s t th got).Stopped ∨ ∃ x k n, Spends cfg s t th (cfg.parse s t th got) x k n := by
  unfold Cfg.parse
  by_cases hmode : cfg.encrypted = true
  · rw [if_pos hmode]
    have hblock : got.length = DATA_SIZE := by rw [hfull, Cfg.headSize, if_pos hmode]
    dsimp only
    split_ifs with hsize
    · refine Spends.stay _ rfl rfl rfl ⟨rfl, rfl⟩ (fun j => rfl) ?_
      have hspan : ∀ size, cfg.rounds ⟨size, cfg.dec got⟩ 0 = 11 * (DATA_SIZE + 6) := by
        intro size
        rw [Cfg.rounds, Cfg.span, if_pos hmode, hlen.dec hmode, hblock, Nat.max_self]
        rfl
      simp only [Cfg.left, hpc, hspan, hblock, List.length_take, List.length_drop, hlen.dec hmode]
      simp only [DATA_SIZE] at hsize ⊢
      omega
    · exact .inl (.inr rfl)
  · rw [if_neg hmode]
    have hfour : got.length = 4 := by rw [hfull, Cfg.headSize, if_neg hmode]
    split_ifs with hzero
    · refine Spends.stay _ rfl rfl rfl ⟨rfl, rfl⟩ (fun j => rfl) ?_
      simp only [Cfg.left, hpc]
      omega
    · refine Spends.stay _ rfl rfl rfl ⟨rfl, rfl⟩ (fun j => rfl) ?_
      simp only [Cfg.left, hpc, List.length_nil]
      omega

theorem body_pays (cfg : Cfg) (size : Nat) (got : List Byte) (hlen : got.length = size)
    (hmode : cfg.encrypted = false) :
    cfg.left (.display ⟨size, be 4 size ++ got⟩ got) + 1 ≤ cfg.left (.body size got) := by
  have hspan : cfg.rounds ⟨size, be 4 size ++ got⟩ 0 = 11 * (4 + size + 6) := by
    simp [Cfg.rounds, Cfg.span, hmode, hlen]
    rfl
  simp only [Cfg.left, hspan, hlen]
  omega

-- Only the plain mode reads a payload by itself.
def Thread.Modal (cfg : Cfg) (th : Thread) : Prop :=
  ∀ size got, th.pc = .body size got → cfg.encrypted = false

theorem threadStep_spends (hlen : cfg.Lengths) (hs : Table s) (hth : s.threads t = some th)
    (hmodal : th.Modal cfg) (h : cfg.threadStep s t th op = some s') :
    s'.Stopped ∨ ∃ x k n, Spends cfg s t th s' x k n := by
  have hp := hs.placed t th hth
  have hmax : s.noClient ≤ MAX_CLIENTS := hs.count_le.trans hs.room
  have hstay : ∀ x : Thread, cfg.left x.pc + 1 ≤ cfg.left th.pc →
      (s.put t x).Stopped ∨ ∃ y k n, Spends cfg s t th (s.put t x) y k n :=
    fun x hcost => Spends.stay x rfl rfl rfl ⟨rfl, rfl⟩ (fun j => rfl) hcost
  unfold Cfg.threadStep at h
  split at h
  · rename_i hpc
    cases h
    exact hstay _ (by simp only [Cfg.left, hpc]; omega)
  · rename_i hpc
    split_ifs at h <;> cases h
    · exact hstay _ (by simp only [Cfg.left, hpc, List.length_nil]; omega)
    · exact .inl (.inr rfl)
  · rename_i got hpc
    split_ifs at h with hfull
    cases h
    exact parse_spends hlen got hpc hfull
  · rename_i got hpc _
    refine receive_spends .head cfg.headSize got hpc (fun more => ?_) ?_ h
    · simp only [Cfg.left, List.length_append]
      omega
    · simp only [Cfg.left]
      omega
  · rename_i size got hpc
    split_ifs at h with hfull
    cases h
    refine hstay _ ?_
    rw [hpc]
    exact body_pays cfg size got hfull (hmodal size got hpc)
  · rename_i size got hpc _
    refine receive_spends (.body size) size got hpc (fun more => ?_) ?_ h
    · simp only [Cfg.left, List.length_append]
      omega
    · simp only [Cfg.left]
      omega
  · rename_i msg rest hpc
    split_ifs at h with hrest
    cases h
    exact hstay _ (by simp only [Cfg.left, hpc]; omega)
  · rename_i msg rest hpc _
    refine transmit_spends (.display msg) 0 rest hpc (fun n hn => ?_) h
    simp only [Cfg.left, List.length_drop]
    omega
  · rename_i msg client hpc
    have hrounds := cfg.rounds_succ msg client ((hp.tested msg client hpc).trans hmax)
    split_ifs at h <;> cases h <;> refine hstay _ ?_
    · simp only [Cfg.left, hpc]
      omega
    · simp only [Cfg.left, hpc]
      omega
    · simp only [Cfg.left, hpc, List.length_nil]
      omega
  · rename_i msg client hpc
    split at h <;> cases h
    · exact .inl (.inr rfl)
    · exact Spends.stay _ rfl rfl rfl ⟨rfl, rfl⟩ (fun j => rfl) (by simp only [Cfg.left, hpc]; omega)
  · rename_i msg client hpc
    cases h
    have hlt := (hp.visited client (by rw [hpc]; rfl)).1
    have hrounds := cfg.rounds_succ msg client (by omega)
    have hafter := hlen.rounds_after msg (client + 1)
    have hdata := hlen.data_le msg
    exact hstay _ (by simp only [Cfg.left, hpc]; omega)
  · rename_i msg client fd data rest hpc
    split_ifs at h with hrest
    have hcost : ∀ y : Thread, y.pc = .post msg client → cfg.left y.pc + 1 ≤ cfg.left th.pc := by
      intro y hy
      simp only [Cfg.left, hpc, hy]
      omega
    split at h
    · rename_i k hfd
      cases h
      refine Spends.stay _ rfl rfl rfl ⟨rfl, rfl⟩ (fun j => ?_) (hcost _ rfl)
      by_cases hj : j = k
      · subst hj
        simp [State.setConn]
      · simp [State.setConn, State.put, Function.update_of_ne hj]
    · cases h
      exact hstay _ (hcost _ rfl)
  · rename_i msg client fd data rest hpc _
    refine transmit_spends (.send msg client fd data) fd rest hpc (fun n hn => ?_) h
    simp only [Cfg.left, List.length_drop]
    omega
  · rename_i msg client hpc
    cases h
    exact Spends.stay _ rfl rfl rfl ⟨rfl, rfl⟩ (fun j => rfl) (by simp only [Cfg.left, hpc]; omega)
  · rename_i hpc
    split_ifs at h <;> cases h
    · exact Spends.stay _ rfl rfl rfl ⟨rfl, rfl⟩ (fun j => rfl) (by simp only [Cfg.left, hpc]; omega)
    · exact .inl (.inr rfl)
  · cases h

-- What the accept loop still does for the client that it has just accepted.
def mainLeft : MainPc → Nat
  | .accept => 0
  | .setId => 8
  | .semInit => 7
  | .create => 6
  | .count => 1

def Cfg.threadLeft (cfg : Cfg) : Option Thread → Nat
  | none => 0
  | some th => cfg.left th.pc

-- What the server may still do without another byte from outside.
def Cfg.energy (cfg : Cfg) (s : State) : Nat :=
  if s.exited = true ∨ s.fault = true then 0
  else 1 + 9 * (MAX_CLIENTS - s.nconn) + mainLeft s.mainPc +
    (Finset.range MAX_CLIENTS).sum (fun t => cfg.threadLeft (s.threads t)) +
    (Finset.range MAX_CLIENTS).sum fun k => 31 * (s.conns k).pending.length

-- What the bound on the work rests on.
structure Working (cfg : Cfg) (s : State) : Prop where
  table : Table s
  modal : ∀ t th, s.threads t = some th → th.Modal cfg
  unborn : ∀ k, s.nconn ≤ k → (s.conns k).pending = []

theorem working_boot (cfg : Cfg) : Working cfg State.boot where
  table := table_boot
  modal := fun t th h => by cases h
  unborn := fun k _ => rfl

theorem Moves.modal (h : Moves cfg s t th op s') (hm : th.Modal cfg) (hth : s.threads t = some th)
    (x : Thread) (hx : s'.threads t = some x) : x.Modal cfg := by
  cases h with
  | exit | crash =>
      rw [show s.threads t = some x from hx] at hth
      cases hth
      exact hm
  | header got hpc hmode =>
      cases put_threads_self.symm.trans hx
      exact fun _ _ _ => hmode
  | receive next total hreads got hpc =>
      cases put_threads_self.symm.trans hx
      intro size more hbody
      cases hreads with
      | head => cases hbody
      | body => exact hm _ got hpc
  | write next fd hwrites rest | tty next fd hwrites rest =>
      cases put_threads_self.symm.trans hx
      intro size more hbody
      cases hwrites <;> cases hbody
  | _ =>
      cases put_threads_self.symm.trans hx
      intro size more hbody
      cases hbody

theorem Moves.pending_nil (h : Moves cfg s t th op s') (k : Nat) (hk : (s.conns k).pending = []) :
    (s'.conns k).pending = [] := by
  have hupdate : ∀ (j : Nat) (conn : Conn), (k = j → conn.pending = []) →
      (Function.update s.conns j conn k).pending = [] := by
    intro j conn hconn
    by_cases hj : k = j
    · rw [hj, Function.update_self]
      exact hconn hj
    · rw [Function.update_of_ne hj, hk]
  cases h with
  | receive next total hreads got hpc j n =>
      refine hupdate j _ fun hj => ?_
      subst hj
      simp [hk]
  | write next fd hwrites rest hpc j | sent msg client fd data hpc j =>
      refine hupdate j _ fun hj => ?_
      subst hj
      exact hk
  | _ => exact hk

theorem working_step {a : Act} (hw : Working cfg s) (h : cfg.step s a = some s') : Working cfg s' := by
  have htable := table_step hw.table h
  cases step_does h with
  | setId | semInit | count | full => exact ⟨htable, hw.modal, hw.unborn⟩
  | accept fd => exact ⟨htable, hw.modal, fun k hk => hw.unborn k (Nat.le_of_succ_le hk)⟩
  | create =>
      have hnew : Thread.create.Modal cfg := by
        intro size got hpc
        cases hpc
      exact ⟨htable, fun t th hth => forall_threads_update hw.modal hnew t th hth, hw.unborn⟩
  | thread t th op s' hth hmoves =>
      obtain ⟨x, hthreads⟩ := hmoves.threads hth
      have hx := hmoves.modal (hw.modal t th hth) hth x (by rw [hthreads, Function.update_self])
      refine ⟨htable, fun u y hy => ?_, fun k hk => hmoves.pending_nil k (hw.unborn k (hmoves.nconn ▸ hk))⟩
      rw [hthreads] at hy
      exact forall_threads_update hw.modal hx u y hy
  | arrive k data hk | hangup k hk =>
      refine ⟨htable, hw.modal, fun j hj => ?_⟩
      have hne : j ≠ k := by
        have hj : s.nconn ≤ j := hj
        omega
      show (Function.update s.conns k _ j).pending = []
      rw [Function.update_of_ne hne]
      exact hw.unborn j hj

-- The units that a step brings from outside.
def Act.units : Act → Nat
  | .arrive _ data => 31 * data.length
  | _ => 0

theorem Spends.energy {x : Thread} {k n : Nat} (h : Spends cfg s t th s' x k n) (hw : Working cfg s)
    (halive : ¬(s.exited = true ∨ s.fault = true)) (hth : s.threads t = some th) :
    cfg.energy s' + 1 ≤ cfg.energy s := by
  have ht : t < MAX_CLIENTS := (hw.table.nconn_pos hth).trans_le hw.table.room
  have halive' : ¬(s'.exited = true ∨ s'.fault = true) := by rwa [h.stopped.1, h.stopped.2]
  have hthreads := Lib.sum_range_change (fun u => cfg.threadLeft (s'.threads u))
    (fun u => cfg.threadLeft (s.threads u)) MAX_CLIENTS t ht (fun u hu => by
      simp only [h.threads, Function.update_of_ne hu])
  simp only [h.threads, Function.update_self, hth, Cfg.threadLeft] at hthreads
  have hpending : (Finset.range MAX_CLIENTS).sum (fun j => 31 * (s'.conns j).pending.length) + 31 * n ≤
      (Finset.range MAX_CLIENTS).sum fun j => 31 * (s.conns j).pending.length := by
    have htaken := h.taken
    by_cases hk : k < MAX_CLIENTS
    · have hsum := Lib.sum_range_change (fun j => 31 * (s'.conns j).pending.length)
        (fun j => 31 * (s.conns j).pending.length) MAX_CLIENTS k hk (fun j hj => by
          simp only [h.others j hj])
      omega
    · -- There is no such client, so that nothing was read.
      have hnone := hw.unborn k (hw.table.room.trans (by omega))
      rw [hnone, List.length_nil] at htaken
      have hn : n = 0 := by omega
      rw [hn, Nat.mul_zero, Nat.add_zero]
      refine Finset.sum_le_sum fun j hj => ?_
      have hne : j ≠ k := by
        have := Finset.mem_range.mp hj
        omega
      rw [h.others j hne]
  have hcost := h.cost
  unfold Cfg.energy
  rw [if_neg halive, if_neg halive', h.nconn, h.mainPc]
  simp only [h.threads, Cfg.threadLeft] at hthreads ⊢
  omega

theorem Cfg.energy_eq (cfg : Cfg) (halive : ¬s.Stopped) : cfg.energy s =
    1 + 9 * (MAX_CLIENTS - s.nconn) + mainLeft s.mainPc +
      (Finset.range MAX_CLIENTS).sum (fun t => cfg.threadLeft (s.threads t)) +
      (Finset.range MAX_CLIENTS).sum fun k => 31 * (s.conns k).pending.length :=
  if_neg halive

theorem energy_step {a : Act} (hlen : cfg.Lengths) (hw : Working cfg s) (h : cfg.step s a = some s') :
    cfg.energy s' + (if a.own then 1 else 0) ≤ cfg.energy s + a.units := by
  have halive : ¬s.Stopped := by
    intro hstop
    unfold State.Stopped at hstop
    unfold Cfg.step at h
    rw [if_pos hstop] at h
    cases h
  have hstopped : ∀ u : State, u.Stopped → cfg.energy u + 1 ≤ cfg.energy s := by
    intro u hu
    have hzero : cfg.energy u = 0 := if_pos hu
    rw [hzero, cfg.energy_eq halive]
    omega
  have hconn := hw.table.connections
  have hroom := hw.table.room
  cases a with
  | main =>
      simp only [Act.own, Act.units, if_true]
      have hnext : ∀ u : State, ¬u.Stopped → u.nconn = s.nconn → u.threads = s.threads →
          u.conns = s.conns → mainLeft u.mainPc < mainLeft s.mainPc → cfg.energy u + 1 ≤ cfg.energy s := by
        intro u hu hn hthreads hconns hless
        rw [cfg.energy_eq halive, cfg.energy_eq hu, hn, hthreads, hconns]
        omega
      cases step_does h with
      | setId hmain | semInit hmain | count hmain =>
          exact hnext _ halive rfl rfl rfl (by rw [hmain]; simp [mainLeft])
      | create hmain =>
          -- The new thread takes over four units.
          rw [hmain] at hconn
          simp at hconn
          have hthreads := Lib.sum_range_change (fun u => cfg.threadLeft
            ((s.put s.noClient Thread.create).threads u)) (fun u => cfg.threadLeft (s.threads u))
            MAX_CLIENTS s.noClient (by omega) (fun u hu => by rw [put_threads_of_ne hu])
          rw [put_threads_self, hw.table.none_of_create hmain] at hthreads
          have hnew : cfg.threadLeft (some Thread.create) = 4 := rfl
          have hold : cfg.threadLeft none = 0 := rfl
          have hconns : (s.put s.noClient Thread.create).conns = s.conns := rfl
          have halive' : ¬State.Stopped { s.put s.noClient Thread.create with mainPc := .count } := halive
          rw [cfg.energy_eq halive, cfg.energy_eq halive', hmain, hconns]
          simp only [mainLeft, put_nconn]
          omega
  | accept fd =>
      simp only [Act.own, Act.units, if_true]
      cases step_does h with
      | accept fd hmain hfree hfits =>
          rw [hmain] at hconn
          simp at hconn
          have halive' : ¬State.Stopped { s with
            newsdServe := Function.update s.newsdServe s.noClient fd
            fds := Function.update s.fds fd (some (.conn s.nconn))
            nconn := s.nconn + 1
            mainPc := .setId } := halive
          rw [cfg.energy_eq halive, cfg.energy_eq halive', hmain]
          simp only [mainLeft]
          omega
      | full fd hmain hfull => exact hstopped _ (.inr rfl)
  | thread t op =>
      simp only [Act.own, Act.units, if_true]
      have halive' : ¬(s.exited = true ∨ s.fault = true) := halive
      unfold Cfg.step at h
      rw [if_neg halive'] at h
      cases hth : s.threads t with
      | none =>
          simp only [hth] at h
          cases h
      | some th =>
          simp only [hth] at h
          rcases threadStep_spends hlen hw.table hth (hw.modal t th hth) h with hstop | ⟨x, k, n, hspends⟩
          · exact hstopped _ hstop
          · exact hspends.energy hw halive hth
  | arrive k data =>
      cases step_does h with
      | arrive k data hk =>
          have hpending := Lib.sum_range_change (fun j => 31 * ((s.setConn k
            { s.conns k with pending := (s.conns k).pending ++ data }).conns j).pending.length)
            (fun j => 31 * (s.conns j).pending.length) MAX_CLIENTS k (by omega) (fun j hj => by
              simp only [State.setConn, Function.update_of_ne hj])
          simp only [State.setConn, Function.update_self, List.length_append] at hpending
          simp only [Act.own, Act.units, Bool.false_eq_true, if_false, Nat.add_zero]
          have halive' : ¬(s.setConn k { s.conns k with
            pending := (s.conns k).pending ++ data }).Stopped := halive
          rw [cfg.energy_eq halive, cfg.energy_eq halive']
          simp only [State.setConn]
          omega
  | hangup k =>
      cases step_does h with
      | hangup k hk =>
          have hsame : ∀ j, ((s.setConn k { s.conns k with up := false }).conns j).pending =
              (s.conns j).pending := by
            intro j
            by_cases hj : j = k
            · subst hj
              simp [State.setConn]
            · simp [State.setConn, Function.update_of_ne hj]
          simp only [Act.own, Act.units, Bool.false_eq_true, if_false, Nat.add_zero]
          have halive' : ¬(s.setConn k { s.conns k with up := false }).Stopped := halive
          rw [cfg.energy_eq halive, cfg.energy_eq halive']
          simp only [hsame]
          exact Nat.le_refl _

-- The bytes that have come in a run, from all clients together.
def volume (actions : List Act) : Nat := (actions.map fun a => match a with
  | .arrive _ data => data.length
  | _ => 0).sum

theorem sum_units (actions : List Act) : (actions.map Act.units).sum = 31 * volume actions := by
  induction actions with
  | nil => rfl
  | cons a rest ih =>
      unfold volume at ih ⊢
      simp only [List.map_cons, List.sum_cons]
      rw [ih, Nat.mul_add]
      cases a <;> rfl

def Cfg.potential (cfg : Cfg) (hlen : cfg.Lengths) (good : State → Act → Prop) :
    Potential cfg.step good Act.own (Working cfg) where
  value := cfg.energy
  brings := Act.units
  keeps := fun _ _ _ hw _ h => working_step hw h
  pays := fun _ _ _ hw _ h => energy_step hlen hw h

theorem energy_boot (cfg : Cfg) : cfg.energy State.boot = 91 := by
  simp [Cfg.energy, State.boot, mainLeft, Cfg.threadLeft, MAX_CLIENTS]

-- The server never works without end: whatever its peers send, and however its threads
-- are interleaved and its calls cut, it makes a bounded number of steps for each byte
-- that comes.
theorem work_of_run (cfg : Cfg) (hlen : cfg.Lengths) (actions : List Act) (s : State)
    (run : Run cfg.step (fun _ _ => True) State.boot actions s) :
    actions.countP Act.own ≤ 91 + 31 * volume actions := by
  have hwork := (cfg.potential hlen _).work run (working_boot cfg)
  have hboot : (cfg.potential hlen fun _ _ => True).value State.boot = 91 := energy_boot cfg
  have hunits : (actions.map (cfg.potential hlen fun _ _ => True).brings).sum = 31 * volume actions :=
    sum_units actions
  omega

-- A device that moves each byte up by one.
def shifted : Cfg := ⟨true, List.map (· + 1), List.map (· - 1)⟩

def openingRun : List Act :=
  [.accept 4, .main, .main, .main, .main, .thread 0 .go, .thread 0 .go, .arrive 0 [1, 2, 3],
    .thread 0 (.read 1), .thread 0 (.read 2), .hangup 0, .thread 0 .eof]

theorem openingRun_work : openingRun.countP Act.own ≤ 91 + 31 * volume openingRun := by
  obtain ⟨s, run, -⟩ := Run.of_guarded shifted.step (fun _ _ => True) State.boot openingRun
    (fun _ => true) (by decide +kernel)
  exact work_of_run shifted ⟨fun _ _ => List.length_map .., fun _ _ => List.length_map ..⟩ openingRun s run

end CryptodevChat.Server
