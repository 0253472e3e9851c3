import CryptodevChat.Server.Table
import Mathlib.Data.List.GetD
import Mathlib.Data.List.Nodup

namespace CryptodevChat.Server

open Lib (Byte)

variable {cfg : Cfg} {s s' : State} {t : Nat} {th : Thread} {op : Op}

-- A frame is being distributed.
def Pc.distributing : Pc → Bool
  | .test _ _ | .wait _ _ | .hold _ _ | .send _ _ _ _ _ | .post _ _ => true
  | _ => false

-- A frame has been read and its distribution has not ended.
def Pc.busy : Pc → Bool
  | .display _ _ => true
  | pc => pc.distributing

-- The clients below this one have got the frame, except the sender.
def Pc.passed : Pc → Nat
  | .test _ client | .wait _ client | .hold _ client | .send _ client _ _ _ => client
  | .post _ client => client + 1
  | _ => 0

-- The history of a thread fits to the place where it is.
structure Thread.Paced (s : State) (th : Thread) : Prop where
  fresh : th.pc = .start → th.ends = []
  frames : th.frames.length = th.ends.length + if th.pc.busy then 1 else 0
  began : th.began.length = th.ends.length + if th.pc.distributing then 1 else 0
  seen : ∀ b ∈ th.began, b ≤ s.noClient
  served : ∀ j < th.ends.length, th.began.getD j 0 ≤ th.ends.getD j 0

-- The frames of a thread that a client has got, by their numbers.
def Thread.owed (th : Thread) (c : Nat) : List Nat :=
  if c = th.me then []
  else (th.ends.zipIdx.filter fun e => c < e.1).map (·.2) ++
    if c < th.pc.passed then [th.ends.length] else []

def State.owed (s : State) (t c : Nat) : List Nat :=
  match s.threads t with
  | some th => th.owed c
  | none => []

-- What was sent to a client is what each thread owes it, in the order of its frames.
def Delivered (s : State) : Prop :=
  ∀ c t, ((s.conns c).log.filter (·.thread = t)).map (·.frame) = s.owed t c

-- The descriptor that a thread is about to use is what it is meant to be.
def Thread.Intact (s : State) (th : Thread) : Prop := ∀ x ∈ th.meant, s.fds x.1 = some x.2

instance (s : State) (th : Thread) : Decidable (th.Intact s) := inferInstanceAs (Decidable (∀ _ ∈ _, _))

theorem Reads.idle {next : List Byte → Pc} {total : Nat} (h : Reads cfg next total)
    (got : List Byte) :
    next got ≠ .start ∧ (next got).distributing = false ∧ (next got).busy = false ∧
      (next got).passed = 0 := by
  cases h <;> simp [Pc.distributing, Pc.busy, Pc.passed]

theorem Writes.idle {next : List Byte → Pc} {fd : Nat} (h : Writes next fd) (rest rest' : List Byte) :
    next rest ≠ .start ∧ (next rest).distributing = (next rest').distributing ∧
      (next rest).busy = (next rest').busy ∧ (next rest).passed = (next rest').passed := by
  cases h <;> simp [Pc.distributing, Pc.busy, Pc.passed]

theorem Thread.Paced.mono (h : th.Paced s) (hc : s.noClient ≤ s'.noClient) : th.Paced s' :=
  ⟨h.fresh, h.frames, h.began, fun b hb => (h.seen b hb).trans hc, h.served⟩

-- A thread that goes on with the same frame.
theorem Thread.Paced.stay (h : th.Paced s) (x : Thread) (hstart : x.pc = .start → th.ends = [])
    (hbusy : x.pc.busy = th.pc.busy) (hdist : x.pc.distributing = th.pc.distributing)
    (hframes : x.frames = th.frames) (hbegan : x.began = th.began) (hends : x.ends = th.ends) :
    x.Paced s where
  fresh := by rw [hends]; exact hstart
  frames := by rw [hframes, hends, hbusy]; exact h.frames
  began := by rw [hbegan, hends, hdist]; exact h.began
  seen := by rw [hbegan]; exact h.seen
  served := by rw [hbegan, hends]; exact h.served

theorem Moves.paced (h : Moves cfg s t th op s') (hp : th.Paced s) (hth : s.threads t = some th)
    (x : Thread) (hx : s'.threads t = some x) : x.Paced s := by
  cases h with
  | exit | crash =>
      rw [show s.threads t = some x from hx] at hth
      cases hth
      exact hp
  | receive next total hreads got hpc k n =>
      cases put_threads_self.symm.trans hx
      have hpre := hreads.idle got
      have hpost := hreads.idle (got ++ (s.conns k).pending.take n)
      rw [← hpc] at hpre
      exact hp.stay _ (fun h => absurd h hpost.1) (by rw [hpre.2.2.1]; exact hpost.2.2.1)
        (by rw [hpre.2.1]; exact hpost.2.1) rfl rfl rfl
  | eof next total hreads got hpc =>
      cases put_threads_self.symm.trans hx
      have hpre := hreads.idle got
      rw [← hpc] at hpre
      exact hp.stay _ (by simp) (by rw [hpre.2.2.1]; rfl) (by rw [hpre.2.1]; rfl) rfl rfl rfl
  | write next fd hwrites rest hpc k n | tty next fd hwrites rest hpc n =>
      cases put_threads_self.symm.trans hx
      have hidle := hwrites.idle (rest.drop n) rest
      exact hp.stay _ (fun h => absurd h hidle.1) (by rw [hpc]; exact hidle.2.2.1)
        (by rw [hpc]; exact hidle.2.1) rfl rfl rfl
  | block got hpc | frame size got hpc =>
      cases put_threads_self.symm.trans hx
      refine ⟨by simp, ?_, by simpa [hpc, Pc.distributing] using hp.began, hp.seen, hp.served⟩
      have := hp.frames
      simp [hpc, Pc.busy, Pc.distributing] at this ⊢
      exact this
  | shown msg hpc =>
      cases put_threads_self.symm.trans hx
      have hbegan := hp.began
      simp only [hpc, Pc.distributing] at hbegan
      refine ⟨by simp, by simpa [hpc, Pc.busy, Pc.distributing] using hp.frames,
        by simpa [Pc.distributing] using hbegan, ?_, ?_⟩
      · intro b hb
        rcases List.mem_append.mp hb with hb | hb
        · exact hp.seen b hb
        · simp only [List.mem_singleton] at hb
          exact hb.le
      · intro j hj
        have hj : j < th.ends.length := hj
        dsimp only
        rw [List.getD_append _ _ _ _ (by simp at hbegan; omega)]
        exact hp.served j hj
  | finish msg client hpc hle =>
      cases put_threads_self.symm.trans hx
      have hbegan := hp.began
      have hframes := hp.frames
      simp only [hpc, Pc.distributing, Pc.busy] at hbegan hframes
      refine ⟨by simp, by simpa [Pc.busy, Pc.distributing] using hframes,
        by simpa [Pc.distributing] using hbegan, hp.seen, ?_⟩
      intro j hj
      have hj : j < th.ends.length + 1 := by simpa using hj
      dsimp only
      by_cases hlast : j < th.ends.length
      · rw [List.getD_append _ _ _ _ hlast]
        exact hp.served j hlast
      · have hj : j = th.ends.length := by omega
        subst hj
        rw [List.getD_append_right _ _ _ _ le_rfl]
        have hmem : th.began.getD th.ends.length 0 ∈ th.began := by
          rw [List.getD_eq_getElem _ _ (by simp at hbegan; omega)]
          exact List.getElem_mem _
        have hle := hp.seen _ hmem
        rw [Nat.sub_self]
        exact hle.trans ‹_›
  | start hpc =>
      cases put_threads_self.symm.trans hx
      exact hp.stay _ (by simp) (by rw [hpc]; rfl) (by rw [hpc]; rfl) rfl rfl rfl
  | loadSd hpc | nothing got hpc | header got hpc | skip msg hpc | visit msg client hpc
  | lock msg client n hpc | load msg client hpc | sent msg client fd data hpc
  | astray msg client fd data hpc | post msg client hpc | close hpc =>
      cases put_threads_self.symm.trans hx
      exact hp.stay _ (by simp) (by rw [hpc]; rfl) (by rw [hpc]; rfl) rfl rfl rfl

theorem owed_update {x : Thread} (hthreads : s'.threads = Function.update s.threads t (some x))
    (u c : Nat) : s'.owed u c = if u = t then x.owed c else s.owed u c := by
  unfold State.owed
  rw [hthreads]
  by_cases hu : u = t
  · subst hu
    simp
  · rw [Function.update_of_ne hu, if_neg hu]

theorem Delivered.peer (hd : Delivered s) (hthreads : s'.threads = s.threads)
    (hlog : ∀ c, (s'.conns c).log = (s.conns c).log) : Delivered s' := by
  intro c t
  rw [hlog, hd c t]
  simp only [State.owed, hthreads]

-- Nothing was sent to the end, and the thread owes what it did.
theorem Delivered.same (hd : Delivered s) (hth : s.threads t = some th) {x : Thread}
    (hthreads : s'.threads = Function.update s.threads t (some x))
    (hlog : ∀ c, (s'.conns c).log = (s.conns c).log) (howed : ∀ c, x.owed c = th.owed c) :
    Delivered s' := by
  intro c u
  rw [hlog, hd c u, owed_update hthreads]
  by_cases hu : u = t
  · subst hu
    rw [if_pos rfl, howed]
    simp [State.owed, hth]
  · rw [if_neg hu]

theorem Thread.owed_of_passed {x : Thread} (hme : x.me = th.me) (hends : x.ends = th.ends)
    (hpassed : x.pc.passed = th.pc.passed) (c : Nat) : x.owed c = th.owed c := by
  unfold Thread.owed
  rw [hme, hends, hpassed]

-- The end of a loop turns the frame that was open into a finished one.
theorem Thread.owed_finish (c client : Nat) (hpassed : th.pc.passed = client) :
    Thread.owed { th with pc := .head [], ends := th.ends ++ [client] } c = th.owed c := by
  unfold Thread.owed
  dsimp only
  rw [hpassed]
  by_cases hme : c = th.me
  · rw [if_pos hme, if_pos hme]
  · rw [if_neg hme, if_neg hme, List.zipIdx_append, List.filter_append, List.map_append]
    by_cases hc : c < client
    · simp [Pc.passed, hc]
    · simp [Pc.passed, hc]

theorem log_update (k : Nat) (conn : Conn) (hlog : conn.log = (s.conns k).log) (c : Nat) :
    (Function.update s.conns k conn c).log = (s.conns c).log := by
  by_cases hc : c = k
  · rw [hc, Function.update_self, hlog]
  · rw [Function.update_of_ne hc]

-- A frame is sent to its end on the descriptor of the client whose turn it is.
theorem Delivered.sent (hd : Delivered s) (hth : s.threads t = some th) (hp : th.Paced s)
    {client fd : Nat} {msg : Msg} {data : List Byte} (hpc : th.pc = .send msg client fd data [])
    (hme : client ≠ th.me) (frame : List Byte) :
    Delivered ((s.put t { th with pc := .post msg client }).setConn client
      { s.conns client with
        log := (s.conns client).log ++ [⟨t, th.frames.length - 1, frame⟩] }) := by
  have hframes : th.frames.length = th.ends.length + 1 := by
    simpa [hpc, Pc.busy, Pc.distributing] using hp.frames
  intro c u
  rw [owed_update (s := s) (t := t) (x := { th with pc := .post msg client }) rfl]
  have hold := hd c u
  show ((Function.update s.conns client _ c).log.filter (·.thread = u)).map (·.frame) = _
  by_cases hc : c = client
  · subst hc
    rw [Function.update_self, List.filter_append, List.map_append, hold]
    by_cases hu : u = t
    · subst hu
      simp [State.owed, hth, Thread.owed, hme, hpc, Pc.passed, hframes]
    · simp [hu, Ne.symm hu]
  · rw [Function.update_of_ne hc, hold]
    by_cases hu : u = t
    · subst hu
      have hiff : c < client + 1 ↔ c < client := by omega
      simp [State.owed, hth, Thread.owed, hpc, Pc.passed, hiff]
    · rw [if_neg hu]

theorem Moves.delivered (h : Moves cfg s t th op s') (hs : Table s) (hd : Delivered s)
    (hth : s.threads t = some th) (hp : th.Paced s) (hok : th.Intact s) : Delivered s' := by
  cases h with
  | exit | crash => exact hd
  | start hpc =>
      refine hd.same hth rfl (fun c => rfl) fun c => ?_
      simp [Thread.owed, hp.fresh hpc, hpc, Pc.passed]
  | receive next total hreads got hpc k n =>
      refine hd.same hth rfl (log_update k _ rfl) (Thread.owed_of_passed rfl rfl ?_)
      rw [hpc, (hreads.idle got).2.2.2]
      exact (hreads.idle _).2.2.2
  | eof next total hreads got hpc =>
      refine hd.same hth rfl (fun c => rfl) (Thread.owed_of_passed rfl rfl ?_)
      rw [hpc, (hreads.idle got).2.2.2]
      rfl
  | write next fd hwrites rest hpc k n =>
      refine hd.same hth rfl (log_update k _ rfl) (Thread.owed_of_passed rfl rfl ?_)
      rw [hpc]
      exact (hwrites.idle _ rest).2.2.2
  | tty next fd hwrites rest hpc n =>
      refine hd.same hth rfl (fun c => rfl) (Thread.owed_of_passed rfl rfl ?_)
      rw [hpc]
      exact (hwrites.idle _ rest).2.2.2
  | skip msg hpc =>
      -- The loop passes the sender itself, to which nothing is owed.
      refine hd.same hth rfl (fun c => rfl) fun c => ?_
      unfold Thread.owed
      dsimp only
      by_cases hc : c = th.me
      · rw [if_pos hc, if_pos hc]
      · rw [if_neg hc, if_neg hc, hpc]
        by_cases hlt : c < th.me
        · simp [Pc.passed, hlt, Nat.lt_succ_of_lt hlt]
        · simp [Pc.passed, hlt, show ¬c < th.me + 1 by omega]
  | finish msg client hpc =>
      exact hd.same hth rfl (fun c => rfl) fun c => Thread.owed_finish c client (by rw [hpc]; rfl)
  | sent msg client fd data hpc k hfd =>
      have hclient : s.fds fd = some (.conn client) := by simpa [Thread.Intact, Thread.meant, hpc] using hok
      rw [hclient] at hfd
      cases hfd
      exact hd.sent hth hp hpc ((hs.placed t th hth).visited client (by rw [hpc]; rfl)).2 data
  | astray msg client fd data hpc hfd =>
      exact absurd (by simpa [Thread.Intact, Thread.meant, hpc] using hok) (hfd client)
  | loadSd hpc | nothing got hpc | header got hpc | block got hpc | frame size got hpc
  | shown msg hpc | visit msg client hpc | lock msg client n hpc | load msg client hpc
  | post msg client hpc | close hpc =>
      exact hd.same hth rfl (fun c => rfl) (Thread.owed_of_passed rfl rfl (by rw [hpc]; rfl))

-- Every thread is paced, and every client has got what is owed to it.
structure Paced (s : State) : Prop where
  threads : ∀ t th, s.threads t = some th → th.Paced s
  delivered : Delivered s

-- The condition on a step of a thread.
def Intact (s : State) : Act → Prop
  | .thread t _ => ∀ th, s.threads t = some th → th.Intact s
  | _ => True

theorem paced_boot : Paced State.boot where
  threads := fun t th h => by cases h
  delivered := fun c t => rfl

theorem paced_step {a : Act} (hs : Table s) (hp : Paced s) (hok : Intact s a)
    (h : cfg.step s a = some s') : Paced s' := by
  have hmono : ∀ u : State, u.threads = s.threads → s.noClient ≤ u.noClient →
      ∀ t th, u.threads t = some th → th.Paced u := by
    intro u hthreads hc t th hth
    rw [hthreads] at hth
    exact (hp.threads t th hth).mono hc
  cases step_does h with
  | setId | semInit | accept | full => exact ⟨hmono _ rfl le_rfl, hp.delivered⟩
  | count => exact ⟨hmono _ rfl (Nat.le_succ _), hp.delivered⟩
  | arrive k | hangup k =>
      exact ⟨hmono _ rfl le_rfl, hp.delivered.peer rfl (log_update k _ rfl)⟩
  | create hmain =>
      have hnone := hs.none_of_create hmain
      constructor
      · intro t th hth
        have hnew : Thread.create.Paced s :=
          ⟨fun _ => rfl, rfl, rfl, by simp [Thread.create], by simp [Thread.create]⟩
        exact (forall_threads_update hp.threads hnew t th hth).mono le_rfl
      · intro c t
        rw [owed_update (s := s) (t := s.noClient) (x := Thread.create) rfl]
        refine (hp.delivered c t).trans ?_
        by_cases ht : t = s.noClient
        · subst ht
          simp [State.owed, hnone, Thread.owed, Thread.create, Pc.passed]
        · rw [if_neg ht]
  | thread t th op s' hth hmoves =>
      have hpth := hp.threads t th hth
      obtain ⟨x, hthreads⟩ := hmoves.threads hth
      have hx := hmoves.paced hpth hth x (by rw [hthreads, Function.update_self])
      refine ⟨fun u y hy => ?_, hmoves.delivered hs hp.delivered hth hpth (hok th hth)⟩
      rw [hthreads] at hy
      exact (forall_threads_update hp.threads hx u y hy).mono hmoves.noClient.ge

-- The numbers of the frames grow.
theorem owed_sublist (th : Thread) (c : Nat) :
    (th.owed c).Sublist (List.range (th.ends.length + 1)) := by
  unfold Thread.owed
  by_cases hc : c = th.me
  · rw [if_pos hc]
    exact List.nil_sublist _
  · rw [if_neg hc, List.range_succ]
    refine List.Sublist.append ?_ ?_
    · have hall : th.ends.zipIdx.map (·.2) = List.range th.ends.length := by
        rw [List.zipIdx_map_snd, List.range_eq_range']
      rw [← hall]
      exact List.filter_sublist.map _
    · split_ifs
      · exact List.Sublist.refl _
      · exact List.nil_sublist _

theorem mem_owed {c j : Nat} (hj : j < th.ends.length) (hc : c ≠ th.me) (hlt : c < th.ends.getD j 0) :
    j ∈ th.owed c := by
  unfold Thread.owed
  rw [if_neg hc]
  refine List.mem_append_left _ (List.mem_map.mpr ⟨(th.ends.getD j 0, j), ?_, rfl⟩)
  refine List.mem_filter.mpr ⟨?_, by simpa using hlt⟩
  rw [List.mk_mem_zipIdx_iff_getElem?, List.getD_eq_getElem _ _ hj, List.getElem?_eq_getElem hj]

-- A frame whose distribution began when the client was counted, and has ended.
theorem Paced.exactly_once (hp : Paced s) (hth : s.threads t = some th) {c j : Nat}
    (hj : j < th.ends.length) (hc : c ≠ th.me) (hbegan : c < th.began.getD j 0) :
    ((s.conns c).log.filter fun d => d.thread = t ∧ d.frame = j).length = 1 := by
  have hmem : j ∈ th.owed c :=
    mem_owed hj hc (hbegan.trans_le ((hp.threads t th hth).served j hj))
  have hnodup : (th.owed c).Nodup := (owed_sublist th c).nodup List.nodup_range
  have hcount := List.count_eq_one_of_mem hnodup hmem
  have howed : ((s.conns c).log.filter (·.thread = t)).map (·.frame) = th.owed c := by
    rw [hp.delivered c t]
    simp only [State.owed, hth]
  rw [← howed, List.count, List.countP_map, List.countP_filter, List.countP_eq_length_filter]
    at hcount
  rw [← hcount]
  congr 2
  funext d
  rw [Bool.decide_and, Bool.and_comm]
  rfl

-- The frames of one sender reach a client in the order in which it sent them.
theorem Paced.in_order (hp : Paced s) (c t : Nat) :
    (((s.conns c).log.filter (·.thread = t)).map (·.frame)).Pairwise (· < ·) := by
  rw [hp.delivered c t]
  unfold State.owed
  cases s.threads t with
  | none => exact List.Pairwise.nil
  | some th => exact List.Pairwise.sublist (owed_sublist th c) List.pairwise_lt_range

-- Whatever was sent to a client comes from a thread of another client.
theorem Paced.sender (hp : Paced s) {c : Nat} {d : Delivery} (hd : d ∈ (s.conns c).log) :
    ∃ th, s.threads d.thread = some th ∧ th.me ≠ c := by
  have hmem : d.frame ∈ s.owed d.thread c := by
    rw [← hp.delivered c d.thread]
    exact List.mem_map.mpr ⟨d, List.mem_filter.mpr ⟨hd, by simp⟩, rfl⟩
  unfold State.owed at hmem
  cases hth : s.threads d.thread with
  | none =>
      rw [hth] at hmem
      cases hmem
  | some th =>
      rw [hth] at hmem
      refine ⟨th, rfl, ?_⟩
      rintro rfl
      simp [Thread.owed] at hmem

end CryptodevChat.Server
