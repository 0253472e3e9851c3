import CryptodevChat.Server.Plain

namespace CryptodevChat.Server

open Lib (Byte Run)

variable {cfg : Cfg} {s s' : State} {t : Nat} {th : Thread} {op : Op}

-- A later distribution reaches at least the clients that an earlier one has reached.
structure Thread.Widening (s : State) (th : Thread) : Prop where
  sorted : th.ends.Pairwise (· ≤ ·)
  counted : ∀ e ∈ th.ends, e ≤ s.noClient

def Widening (s : State) : Prop := ∀ t th, s.threads t = some th → th.Widening s

theorem Thread.Widening.mono (h : th.Widening s) (hc : s.noClient ≤ s'.noClient) : th.Widening s' :=
  ⟨h.sorted, fun e he => (h.counted e he).trans hc⟩

theorem Thread.Widening.same (h : th.Widening s) (x : Thread) (hends : x.ends = th.ends) :
    x.Widening s := by
  constructor
  · rw [hends]
    exact h.sorted
  · rw [hends]
    exact h.counted

-- The loop ends at the number of clients, which has not become smaller.
theorem Thread.Widening.finish (h : th.Widening s) (client : Nat) (hle : client ≤ s.noClient)
    (hge : s.noClient ≤ client) :
    Thread.Widening s { th with pc := .head [], ends := th.ends ++ [client] } := by
  constructor
  · refine List.pairwise_append.mpr ⟨h.sorted, List.pairwise_singleton _ _, ?_⟩
    intro e he b hb
    rw [List.mem_singleton.mp hb]
    exact (h.counted e he).trans hge
  · intro e he
    rcases List.mem_append.mp he with he | he
    · exact h.counted e he
    · rw [List.mem_singleton.mp he]
      exact hle

theorem Moves.widening (h : Moves cfg s t th op s') (hp : th.Placed s) (hw : th.Widening s)
    (hth : s.threads t = some th) (x : Thread) (hx : s'.threads t = some x) : x.Widening s := by
  cases h with
  | exit | crash =>
      rw [show s.threads t = some x from hx] at hth
      cases hth
      exact hw
  | finish msg client hpc hle =>
      cases put_threads_self.symm.trans hx
      exact hw.finish client (hp.tested msg client hpc) hle
  | _ =>
      cases put_threads_self.symm.trans hx
      exact hw.same _ rfl

theorem widening_boot : Widening State.boot := fun t th h => by cases h

theorem widening_step {a : Act} (hs : Table s) (hw : Widening s) (h : cfg.step s a = some s') :
    Widening s' := by
  have hsame : s'.threads = s.threads → s.noClient ≤ s'.noClient → Widening s' := by
    intro hthreads hc t th hth
    rw [hthreads] at hth
    exact (hw t th hth).mono hc
  cases step_does h with
  | setId | semInit | accept | full | arrive | hangup => exact hsame rfl (Nat.le_refl _)
  | count => exact hsame rfl (Nat.le_succ _)
  | create hmain =>
      have hnew : Thread.create.Widening s := ⟨List.Pairwise.nil, by simp [Thread.create]⟩
      intro t th hth
      exact (forall_threads_update hw hnew t th hth).mono (Nat.le_refl _)
  | thread t th op s' hth hmoves =>
      obtain ⟨x, hthreads⟩ := hmoves.threads hth
      have hx := hmoves.widening (hs.placed t th hth) (hw t th hth) hth x
        (by rw [hthreads, Function.update_self])
      intro u y hy
      rw [hthreads] at hy
      exact (forall_threads_update hw hx u y hy).mono hmoves.noClient.ge

section Ranges

-- In a list that grows, the places of what lies above a bound are the last ones.
theorem zipIdx_filter_sorted (c : Nat) (l : List Nat) (k : Nat) (hl : l.Pairwise (· ≤ ·)) :
    ((l.zipIdx k).filter fun e => c < e.1).map (·.2) =
      List.range' (k + l.countP (· ≤ c)) (l.countP (c < ·)) := by
  induction l generalizing k with
  | nil => rfl
  | cons x l ih =>
      obtain ⟨hx, hl⟩ := List.pairwise_cons.mp hl
      have hrest := ih (k + 1) hl
      rw [List.zipIdx_cons, List.countP_cons, List.countP_cons]
      by_cases hc : c < x
      · have hnone : l.countP (· ≤ c) = 0 := by
          rw [List.countP_eq_zero]
          intro y hy
          have := hx y hy
          simp
          omega
        rw [hnone] at hrest ⊢
        simp [hc, hrest, List.range'_succ]
      · simp [hc, hrest, show x ≤ c by omega]
        omega

end Ranges

-- How many frames a client has missed at the start.
def Thread.missed (th : Thread) (c : Nat) : Nat := th.ends.countP (· ≤ c)

theorem Thread.missed_le (th : Thread) (c : Nat) : th.missed c ≤ th.ends.length :=
  List.countP_le_length

-- From the first one on that it gets, a client gets every frame of a sender.
theorem owed_eq_range (hw : th.Widening s) {c : Nat} (hc : c ≠ th.me) :
    th.owed c = List.range' (th.missed c)
      (th.ends.length + (if c < th.pc.passed then 1 else 0) - th.missed c) := by
  have hsplit : th.ends.countP (c < ·) = th.ends.length - th.missed c := by
    have h := List.length_eq_countP_add_countP (fun e => decide (e ≤ c)) (l := th.ends)
    have hneg : th.ends.countP (fun e => decide (c < e)) =
        th.ends.countP (fun e => !decide (e ≤ c)) := by
      refine List.countP_congr fun e _ => ?_
      simp
    unfold Thread.missed
    simp only [Bool.decide_eq_true, decide_not] at h
    omega
  have hle := th.missed_le c
  unfold Thread.owed
  rw [if_neg hc, zipIdx_filter_sorted c th.ends 0 hw.sorted, Nat.zero_add, hsplit, ← Thread.missed]
  by_cases hpassed : c < th.pc.passed
  · rw [if_pos hpassed, if_pos hpassed]
    have hlast : th.ends.length + 1 - th.missed c = (th.ends.length - th.missed c) + 1 := by omega
    rw [hlast, List.range'_concat]
    congr 2
    omega
  · rw [if_neg hpassed, if_neg hpassed, List.append_nil, Nat.add_zero]

-- A client that was counted before a sender's first frame went out misses none.
theorem missed_eq_zero (hw : th.Widening s) (hp : th.Paced s) {c : Nat}
    (hbegan : ∀ b ∈ th.began.head?, c < b) : th.missed c = 0 := by
  unfold Thread.missed
  rw [List.countP_eq_zero]
  intro e he
  obtain ⟨j, hj, rfl⟩ := List.mem_iff_getElem.mp he
  have hlen := hp.began
  have hfirst : c < th.began.getD 0 0 := by
    cases hb : th.began with
    | nil => simp [hb] at hlen; omega
    | cons b rest => simpa using hbegan b (by rw [hb]; rfl)
  have hserved := hp.served 0 (by omega)
  have hsorted : th.ends.getD 0 0 ≤ th.ends[j] := by
    rw [List.getD_eq_getElem _ _ (by omega)]
    by_cases hzero : j = 0
    · subst hzero
      exact Nat.le_refl _
    · exact List.pairwise_iff_getElem.mp hw.sorted 0 j (by omega) hj (by omega)
  simp
  omega

end CryptodevChat.Server
