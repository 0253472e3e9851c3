import CryptodevChat.Server.Stream

namespace CryptodevChat.Server

open Lib (Byte be fromBe)

variable {cfg : Cfg} {s s' : State} {t : Nat} {th : Thread} {op : Op}

-- The size in network order, and that many bytes, but not none.
def IsFrame (frame : List Byte) : Prop :=
  ∃ body, frame = be 4 body.length ++ body ∧ 0 < body.length ∧ body.length < 2 ^ 32

def Pc.msg : Pc → Option Msg
  | .display msg _ | .test msg _ | .wait msg _ | .hold msg _ | .send msg _ _ _ _ | .post msg _ => some msg
  | _ => none

-- What a thread has in its buffer is the last frame that it read.
structure Thread.Carries (th : Thread) : Prop where
  frames : ∀ frame ∈ th.frames, IsFrame frame
  size : ∀ size got, th.pc = .body size got → 0 < size ∧ size < 2 ^ 32
  msg : ∀ msg, th.pc.msg = some msg → th.frames.getLast? = some (msg.buf.take (msg.size + 4))
  data : ∀ msg client fd data rest,
    th.pc = .send msg client fd data rest → th.frames.getLast? = some data

-- What is in the logs are frames that were read.
structure Carried (s : State) : Prop where
  threads : ∀ t th, s.threads t = some th → th.Carries
  logs : ∀ c, ∀ d ∈ (s.conns c).log, ∃ th, s.threads d.thread = some th ∧
    th.frames[d.frame]? = some d.data

theorem Cfg.data_plain (hplain : cfg.encrypted = false) (msg : Msg) :
    cfg.data msg = msg.buf.take (msg.size + 4) := by
  simp [Cfg.data, hplain]

theorem Cfg.after_plain (hplain : cfg.encrypted = false) (msg : Msg) : cfg.after msg = msg := by
  simp [Cfg.after, hplain]

-- A thread that goes on with the same buffer, if with any.
theorem Thread.Carries.stay (h : th.Carries) (x : Thread) (hframes : x.frames = th.frames)
    (hsize : ∀ size got, x.pc = .body size got → 0 < size ∧ size < 2 ^ 32)
    (hmsg : ∀ msg, x.pc.msg = some msg → th.pc.msg = some msg)
    (hdata : ∀ msg client fd data rest,
      x.pc = .send msg client fd data rest → th.frames.getLast? = some data) : x.Carries where
  frames := by rw [hframes]; exact h.frames
  size := hsize
  msg := fun msg hpc => by rw [hframes]; exact h.msg msg (hmsg msg hpc)
  data := by rw [hframes]; exact hdata

theorem Moves.carries (hplain : cfg.encrypted = false) (h : Moves cfg s t th op s')
    (hc : th.Carries) (hth : s.threads t = some th) (x : Thread) (hx : s'.threads t = some x) :
    x.Carries := by
  cases h with
  | exit | crash =>
      rw [show s.threads t = some x from hx] at hth
      cases hth
      exact hc
  | receive next total hreads got hpc k n =>
      cases put_threads_self.symm.trans hx
      cases hreads with
      | head => exact hc.stay _ rfl (by simp) (by simp [Pc.msg]) (by simp)
      | body size =>
          refine hc.stay _ rfl ?_ (by simp [Pc.msg]) (by simp)
          rintro _ _ ⟨⟩
          exact hc.size _ got hpc
  | header got hpc hmode hlen hzero =>
      cases put_threads_self.symm.trans hx
      refine hc.stay _ rfl ?_ (by simp [Pc.msg]) (by simp)
      rintro _ _ ⟨⟩
      have hlt := Lib.fromBe_lt got
      rw [hlen] at hlt
      exact ⟨Nat.pos_of_ne_zero hzero, hlt⟩
  | block got hpc hmode =>
      rw [hplain] at hmode
      cases hmode
  | frame size got hpc hlen =>
      cases put_threads_self.symm.trans hx
      subst hlen
      refine ⟨?_, by simp, ?_, by simp⟩
      · intro frame hmem
        rcases List.mem_append.mp hmem with hmem | hmem
        · exact hc.frames frame hmem
        · rw [List.mem_singleton.mp hmem]
          exact ⟨got, rfl, hc.size _ got hpc⟩
      · rintro _ ⟨⟩
        have hlen : (be 4 got.length ++ got).length = got.length + 4 := by simp; omega
        dsimp only
        rw [List.take_of_length_le hlen.le]
        simp
  | write next fd hwrites rest hpc k n | tty next fd hwrites rest hpc n =>
      cases put_threads_self.symm.trans hx
      cases hwrites with
      | display msg => exact hc.stay _ rfl (by simp) (by rw [hpc]; exact fun _ h => h) (by simp)
      | send msg client fd data =>
          refine hc.stay _ rfl (by simp) (by rw [hpc]; exact fun _ h => h) ?_
          rintro _ _ _ _ _ ⟨⟩
          exact hc.data _ _ _ _ _ hpc
  | load msg client hpc =>
      cases put_threads_self.symm.trans hx
      have hmsg := hc.msg msg (by rw [hpc]; rfl)
      refine hc.stay _ rfl (by simp) ?_ ?_
      · rw [hpc, Cfg.after_plain hplain]
        exact fun _ h => h
      · rintro _ _ _ _ _ ⟨⟩
        rw [hmsg, Cfg.data_plain hplain]
  | skip msg hpc | visit msg client hpc | shown msg hpc | lock msg client n hpc
  | sent msg client fd data hpc | astray msg client fd data hpc | post msg client hpc =>
      cases put_threads_self.symm.trans hx
      exact hc.stay _ rfl (by simp) (by rw [hpc]; exact fun _ h => h) (by simp)
  | start | loadSd | eof | nothing | finish | close =>
      cases put_threads_self.symm.trans hx
      exact hc.stay _ rfl (by simp) (by simp [Pc.msg]) (by simp)

-- A thread forgets no frame.
theorem Moves.frames_prefix (h : Moves cfg s t th op s') (hth : s.threads t = some th) (x : Thread)
    (hx : s'.threads t = some x) : th.frames <+: x.frames := by
  cases h with
  | exit | crash =>
      rw [show s.threads t = some x from hx] at hth
      cases hth
      exact List.prefix_rfl
  | block | frame =>
      cases put_threads_self.symm.trans hx
      exact List.prefix_append _ _
  | _ =>
      cases put_threads_self.symm.trans hx
      exact List.prefix_rfl

theorem mem_log_of_update {c : Nat} {d : Delivery} (k : Nat) (conn : Conn)
    (hlog : conn.log = (s.conns k).log) (hd : d ∈ (Function.update s.conns k conn c).log) :
    d ∈ (s.conns c).log := by
  rwa [log_update k conn hlog] at hd

-- A log grows by the frame that its thread has just sent.
theorem Moves.log_mem (h : Moves cfg s t th op s') (c : Nat) (d : Delivery)
    (hd : d ∈ (s'.conns c).log) :
    d ∈ (s.conns c).log ∨ ∃ msg client fd data, th.pc = .send msg client fd data [] ∧
      d = ⟨t, th.frames.length - 1, data⟩ := by
  cases h with
  | receive next total hreads got hpc k | write next fd hwrites rest hpc k =>
      exact .inl (mem_log_of_update k _ (by rfl) hd)
  | sent msg client fd data hpc k hfd =>
      by_cases hc : c = k
      · subst hc
        have hd : d ∈ (s.conns c).log ++ [⟨t, th.frames.length - 1, data⟩] := by
          simpa [State.setConn, State.put] using hd
        rcases List.mem_append.mp hd with hd | hd
        · exact .inl hd
        · exact .inr ⟨msg, client, fd, data, hpc, List.mem_singleton.mp hd⟩
      · left
        simpa [State.setConn, State.put, Function.update_of_ne hc] using hd
  | _ => exact .inl hd

theorem Moves.carried (hplain : cfg.encrypted = false) (h : Moves cfg s t th op s') (hc : Carried s)
    (hth : s.threads t = some th) : Carried s' := by
  obtain ⟨x, hthreads⟩ := h.threads hth
  have hx : s'.threads t = some x := by rw [hthreads, Function.update_self]
  have hcarries := hc.threads t th hth
  constructor
  · intro u y hy
    rw [hthreads] at hy
    exact forall_threads_update hc.threads (h.carries hplain hcarries hth x hx) u y hy
  · intro c d hd
    have hkeep : ∀ (j : Nat) frame, th.frames[j]? = some frame → x.frames[j]? = some frame := by
      intro j frame hj
      obtain ⟨more, hmore⟩ := h.frames_prefix hth x hx
      obtain ⟨hlt, -⟩ := List.getElem?_eq_some_iff.mp hj
      rw [← hmore, List.getElem?_append_left hlt, hj]
    rcases h.log_mem c d hd with hold | ⟨msg, client, fd, data, hpc, rfl⟩
    · obtain ⟨y, hy, hframe⟩ := hc.logs c d hold
      by_cases ht : d.thread = t
      · rw [ht, hth] at hy
        cases hy
        exact ⟨x, by rw [ht, hx], hkeep _ _ hframe⟩
      · exact ⟨y, by rw [hthreads, Function.update_of_ne ht, hy], hframe⟩
    · refine ⟨x, hx, hkeep _ _ ?_⟩
      rw [← List.getLast?_eq_getElem?]
      exact hcarries.data msg client fd data [] hpc

theorem carried_boot : Carried State.boot where
  threads := fun t th h => by cases h
  logs := fun c d hd => by cases hd

theorem carried_step {a : Act} (hplain : cfg.encrypted = false) (hs : Table s) (hc : Carried s)
    (h : cfg.step s a = some s') : Carried s' := by
  cases step_does h with
  | setId | semInit | accept | full | count => exact ⟨hc.threads, hc.logs⟩
  | arrive k | hangup k =>
      exact ⟨hc.threads, fun c d hd => hc.logs c d (mem_log_of_update k _ (by rfl) hd)⟩
  | create hmain =>
      have hnone := hs.none_of_create hmain
      have hnew : Thread.create.Carries :=
        ⟨by simp [Thread.create], by simp [Thread.create], by simp [Thread.create, Pc.msg],
          by simp [Thread.create]⟩
      refine ⟨fun t th hth => forall_threads_update hc.threads hnew t th hth, fun c d hd => ?_⟩
      obtain ⟨y, hy, hframe⟩ := hc.logs c d hd
      refine ⟨y, ?_, hframe⟩
      have hne : d.thread ≠ s.noClient := by
        intro heq
        rw [heq, hnone] at hy
        cases hy
      show Function.update s.threads s.noClient _ d.thread = some y
      rw [Function.update_of_ne hne, hy]
  | thread t th op s' hth hmoves => exact hmoves.carried hplain hc hth

end CryptodevChat.Server
