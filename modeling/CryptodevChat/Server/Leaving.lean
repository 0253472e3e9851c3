import CryptodevChat.Server.Arrivals
import CryptodevChat.Server.Progress

namespace CryptodevChat.Server

open Lib (Byte be fromBe Run)
open Chat (MAX_CLIENTS DATA_SIZE)

variable {cfg : Cfg} {s s' : State} {t : Nat} {th : Thread} {op : Op}

-- How a thread comes to the end of its loop: the stream of its client has ended inside what it
-- waits for, or the size that it has read is zero.
inductive Leaves (cfg : Cfg) (s : State) (th : Thread) : Prop
  | eof (next : List Byte → Pc) (total : Nat) (hreads : Reads cfg next total) (got : List Byte)
      (hpc : th.pc = next got) (hlt : got.length < total) (k : Nat)
      (hfd : s.fds th.clientSd = some (.conn k)) (hpending : (s.conns k).pending = [])
      (hup : (s.conns k).up = false)
  | zero (got : List Byte) (hpc : th.pc = .head got) (hlen : got.length = cfg.headSize)
      (hmode : cfg.encrypted = false) (hzero : fromBe got = 0)

theorem receive_leaves (next : List Byte → Pc) (total : Nat) (hreads : Reads cfg next total)
    (got : List Byte) (hpc : th.pc = next got) (hth : s.threads t = some th)
    (h : s.receive t th got total next op = some s') (x : Thread) (hx : s'.threads t = some x)
    (hleave : x.pc = .leave) : Leaves cfg s th ∧ s' = s.put t { th with pc := .leave } := by
  have hnext : ∀ got, next got ≠ .leave := by
    intro got
    cases hreads <;> simp
  unfold State.receive at h
  split_ifs at h with hlt
  split at h
  · dsimp only at h
    split_ifs at h
    cases h
    cases put_threads_self.symm.trans hx
    exact absurd hleave (hnext _)
  · rename_i k hfd
    split_ifs at h with heof
    cases h
    exact ⟨.eof next total hreads got hpc hlt k hfd heof.1 heof.2, rfl⟩
  · split_ifs at h
    cases h
    cases hth.symm.trans hx
    exact absurd (hpc.symm.trans hleave) (hnext _)
  · cases h
    cases hth.symm.trans hx
    exact absurd (hpc.symm.trans hleave) (hnext _)
  · cases h

theorem transmit_stays (next : List Byte → Pc) (fd : Nat) (hwrites : Writes next fd) (rest : List Byte)
    (hpc : th.pc = next rest) (hth : s.threads t = some th)
    (h : s.transmit t th fd rest next op = some s') (x : Thread) (hx : s'.threads t = some x) :
    x.pc ≠ .leave := by
  have hnext : ∀ rest, next rest ≠ .leave := by
    intro rest
    cases hwrites <;> simp
  unfold State.transmit at h
  split_ifs at h
  split at h
  · dsimp only at h
    split_ifs at h
    cases h
    cases put_threads_self.symm.trans hx
    exact hnext _
  · split_ifs at h
    cases h
    cases put_threads_self.symm.trans hx
    exact hnext _
  · split_ifs at h
    cases h
    cases hth.symm.trans hx
    rw [hpc]
    exact hnext _
  · cases h
    cases hth.symm.trans hx
    rw [hpc]
    exact hnext _
  · cases h

theorem threadStep_leaves (hth : s.threads t = some th) (h : cfg.threadStep s t th op = some s')
    (hbefore : th.pc ≠ .leave) (x : Thread) (hx : s'.threads t = some x) (hleave : x.pc = .leave) :
    Leaves cfg s th ∧ s' = s.put t { th with pc := .leave } := by
  have hput : ∀ y : Thread, s'.threads t = some y → y.pc ≠ .leave → False := by
    intro y hy hne
    cases hy.symm.trans hx
    exact hne hleave
  have hsame : s'.threads = s.threads → False := fun hthreads => hput th (by rw [hthreads, hth]) hbefore
  unfold Cfg.threadStep at h
  split at h
  · cases h
    exact (hput _ put_threads_self (by simp)).elim
  · split_ifs at h <;> cases h
    · exact (hput _ put_threads_self (by simp)).elim
    · exact (hsame rfl).elim
  · rename_i got hpc
    split_ifs at h with hlen
    cases h
    unfold Cfg.parse at hput hsame
    dsimp only at hput hsame
    split_ifs at hput hsame with hmode hsize hzero
    · exact (hput _ put_threads_self (by simp)).elim
    · exact (hsame rfl).elim
    · refine ⟨.zero got hpc hlen (by simpa using hmode) hzero, ?_⟩
      unfold Cfg.parse
      dsimp only
      rw [if_neg hmode, if_pos hzero]
    · exact (hput _ put_threads_self (by simp)).elim
  · rename_i got hpc _
    exact receive_leaves .head _ .head got hpc hth h x hx hleave
  · split_ifs at h
    cases h
    exact (hput _ put_threads_self (by simp)).elim
  · rename_i size got hpc _
    exact receive_leaves (.body size) _ (.body size) got hpc hth h x hx hleave
  · split_ifs at h
    cases h
    exact (hput _ put_threads_self (by simp)).elim
  · rename_i msg rest hpc _
    exact absurd hleave (transmit_stays (.display msg) 0 (.display msg) rest hpc hth h x hx)
  · split_ifs at h <;> cases h <;> exact (hput _ put_threads_self (by simp)).elim
  · split at h <;> cases h
    · exact (hsame rfl).elim
    · exact (hput _ put_threads_self (by simp)).elim
  · cases h
    exact (hput _ put_threads_self (by simp)).elim
  · split_ifs at h
    split at h <;> cases h <;> exact (hput _ put_threads_self (by simp)).elim
  · rename_i msg client fd data rest hpc _
    exact absurd hleave
      (transmit_stays (.send msg client fd data) fd (.send msg client fd data) rest hpc hth h x hx)
  · cases h
    exact (hput _ put_threads_self (by simp)).elim
  · rename_i hpc
    exact absurd hpc hbefore
  · cases h

-- What a thread has read and does not distribute can never become a frame.
inductive Spent (conn : Conn) (tail : List Byte) : Prop
  | closed (hup : conn.up = false) (hpending : conn.pending = []) (hnone : ∀ f, IsFrame f → ¬f <+: tail)
  | zero (hlen : tail.length = 4) (hzero : fromBe tail = 0)

-- Where the threads that have left their loop have stopped reading. None has closed anything.
structure Left (s : State) : Prop where
  stopped : ∀ t th, s.threads t = some th → th.pc = .leave →
    ∃ tail, (s.conns th.me).taken = th.frames.flatten ++ tail ∧ Spent (s.conns th.me) tail
  running : ∀ t th, s.threads t = some th → th.pc ≠ .gone

theorem not_frame_of_short (bytes f : List Byte) (hlen : bytes.length < 4) (hf : IsFrame f) :
    ¬f <+: bytes := by
  obtain ⟨body, rfl, hpos, -⟩ := hf
  intro h
  have hle := h.length_le
  rw [List.length_append, Lib.be_length] at hle
  omega

-- A frame in front of a partial one would be as long as its size announces.
theorem not_frame_of_partial (size : Nat) (got f : List Byte) (hsize : 0 < size ∧ size < 2 ^ 32)
    (hlt : got.length < size) (hf : IsFrame f) : ¬f <+: be 4 size ++ got := by
  intro h
  have hfull : (got ++ List.replicate (size - got.length) 0).length = size := by
    rw [List.length_append, List.length_replicate]
    omega
  have hwhole : IsFrame (be 4 size ++ (got ++ List.replicate (size - got.length) 0)) :=
    ⟨_, by rw [hfull], by omega, by omega⟩
  have hpre : f <+: be 4 size ++ (got ++ List.replicate (size - got.length) 0) := by
    rw [← List.append_assoc]
    exact h.trans (List.prefix_append _ _)
  have heq := isFrame_prefixFree.eq_of_prefix f _ hf hwhole hpre
  have hle := h.length_le
  rw [heq, List.length_append, hfull, List.length_append] at hle
  omega

theorem not_frame_of_zero (tail rest f : List Byte) (hlen : tail.length = 4) (hzero : fromBe tail = 0)
    (hf : IsFrame f) : ¬f <+: tail ++ rest := by
  obtain ⟨body, rfl, hpos, hlt⟩ := hf
  rintro ⟨more, hmore⟩
  rw [List.append_assoc] at hmore
  have hsame := congrArg (List.take 4) hmore
  rw [List.take_left' (Lib.be_length ..), List.take_left' hlen] at hsame
  have hsize := Lib.fromBe_be 4 body.length
  rw [hsame, hzero, Nat.mod_eq_of_lt (by omega)] at hsize
  omega

-- In either case no frame comes any more.
theorem Spent.none {conn : Conn} {tail : List Byte} (h : Spent conn tail) (f : List Byte) (hf : IsFrame f) :
    ¬f <+: tail ++ conn.pending := by
  cases h with
  | closed hup hpending hnone =>
      rw [hpending, List.append_nil]
      exact hnone f hf
  | zero hlen hzero => exact not_frame_of_zero tail conn.pending f hlen hzero hf

-- A thread changes a connection only by its reads and writes.
theorem Moves.conn (h : Moves cfg s t th op s') (hintact : th.Intact s) (k : Nat) :
    (s'.conns k).up = (s.conns k).up ∧
      (((s'.conns k).taken = (s.conns k).taken ∧ (s'.conns k).pending = (s.conns k).pending) ∨
        (k = th.me ∧ th.pc ≠ .start ∧ (s.conns k).pending ≠ [])) := by
  have hupdate : ∀ (j : Nat) (conn : Conn), conn.up = (s.conns j).up → conn.taken = (s.conns j).taken →
      conn.pending = (s.conns j).pending → (Function.update s.conns j conn k).up = (s.conns k).up ∧
        (((Function.update s.conns j conn k).taken = (s.conns k).taken ∧
          (Function.update s.conns j conn k).pending = (s.conns k).pending) ∨
        (k = th.me ∧ th.pc ≠ .start ∧ (s.conns k).pending ≠ [])) := by
    intro j conn hup htaken hpending
    by_cases hk : k = j
    · rw [hk, Function.update_self]
      exact ⟨hup, .inl ⟨htaken, hpending⟩⟩
    · rw [Function.update_of_ne hk]
      exact ⟨rfl, .inl ⟨rfl, rfl⟩⟩
  cases h with
  | receive next total hreads got hpc j n hfd hpos hroom hn =>
      by_cases hk : k = j
      · subst hk
        refine ⟨by simp [State.setConn, State.put], .inr ⟨?_, ?_, ?_⟩⟩
        · have hfd' : s.fds th.clientSd = some (.conn th.me) := by
            cases hreads <;> simpa [Thread.Intact, Thread.meant, hpc] using hintact
          rw [hfd'] at hfd
          cases hfd
          rfl
        · rw [hpc]
          exact (hreads.pc_ne got).1
        · rintro hnil
          rw [hnil, List.length_nil] at hn
          omega
      · simp [State.setConn, State.put, Function.update_of_ne hk]
  | write next fd hwrites rest hpc j | sent msg client fd data hpc j =>
      exact hupdate j _ (by rfl) (by rfl) (by rfl)
  | _ => exact ⟨rfl, .inl ⟨rfl, rfl⟩⟩

-- The step with which a thread leaves its loop.
theorem Leaves.spent (h : Leaves cfg s th) (hplain : cfg.encrypted = false) (hc : th.Carries)
    (hintact : th.Intact s) (tail : List Byte) (htail : ∀ p, th.pc.gathered = some p → tail = p) :
    Spent (s.conns th.me) tail := by
  cases h with
  | eof next total hreads got hpc hlt k hfd hpending hup =>
      have hfd' : s.fds th.clientSd = some (.conn th.me) := by
        cases hreads <;> simpa [Thread.Intact, Thread.meant, hpc] using hintact
      rw [hfd'] at hfd
      cases hfd
      refine .closed hup hpending fun f hf => ?_
      cases hreads with
      | head =>
          have hfour : cfg.headSize = 4 := by simp [Cfg.headSize, hplain]
          rw [htail got (by rw [hpc]; rfl)]
          exact not_frame_of_short got f (by omega) hf
      | body =>
          rw [htail _ (by rw [hpc]; rfl)]
          exact not_frame_of_partial _ got f (hc.size _ got hpc) hlt hf
  | zero got hpc hlen hmode hzero =>
      have hfour : cfg.headSize = 4 := by simp [Cfg.headSize, hplain]
      rw [htail got (by rw [hpc]; rfl)]
      exact .zero (by omega) hzero

theorem left_boot : Left State.boot := ⟨fun t th h => (by cases h), fun t th h => (by cases h)⟩

theorem Spent.same {conn conn' : Conn} {tail : List Byte} (h : Spent conn tail)
    (hup : conn'.up = conn.up ∨ conn'.up = false) (hpending : conn'.pending = conn.pending) :
    Spent conn' tail := by
  cases h with
  | closed hdown hnil hnone =>
      refine .closed ?_ (hpending.trans hnil) hnone
      rcases hup with hup | hup
      · exact hup.trans hdown
      · exact hup
  | zero hlen hzero => exact .zero hlen hzero

theorem Left.peer (h : Left s) (hthreads : s'.threads = s.threads)
    (htaken : ∀ k, (s'.conns k).taken = (s.conns k).taken)
    (hspent : ∀ k tail, Spent (s.conns k) tail → Spent (s'.conns k) tail) : Left s' := by
  constructor
  · intro t th hth hpc
    rw [hthreads] at hth
    obtain ⟨tail, htail, hs⟩ := h.stopped t th hth hpc
    exact ⟨tail, by rw [htaken, htail], hspent _ _ hs⟩
  · rw [hthreads]
    exact h.running

theorem Moves.not_gone (h : Moves cfg s t th op s') (hth : s.threads t = some th)
    (hbefore : th.pc ≠ .leave ∧ th.pc ≠ .gone) (x : Thread) (hx : s'.threads t = some x) : x.pc ≠ .gone := by
  cases h with
  | exit | crash =>
      rw [show s.threads t = some x from hx] at hth
      cases hth
      exact hbefore.2
  | close hpc => exact absurd hpc hbefore.1
  | receive next total hreads got hpc =>
      cases put_threads_self.symm.trans hx
      exact (hreads.pc_ne _).2.2.1
  | write next fd hwrites rest hpc | tty next fd hwrites rest hpc =>
      cases put_threads_self.symm.trans hx
      cases hwrites <;> simp
  | _ =>
      cases put_threads_self.symm.trans hx
      simp

theorem left_thread (hplain : cfg.encrypted = false) (hs : Serving s) (hl : Left s)
    (hok : Serves s (.thread t op)) (hth : s.threads t = some th)
    (h : cfg.threadStep s t th op = some s') : Left s' := by
  have hmoves := threadStep_moves h
  have hintact := hs.opened.intact hs.table hth
  have hbefore := (hok.2.2 th hth).1
  obtain ⟨x, hthreads⟩ := hmoves.threads hth
  refine ⟨fun u y hy hpc => ?_, fun u y hy => ?_⟩
  swap
  · have hx := hmoves.not_gone hth ⟨hbefore, hl.running t th hth⟩ x (by rw [hthreads, Function.update_self])
    rw [hthreads] at hy
    exact forall_threads_update hl.running hx u y hy
  by_cases hu : u = t
  · subst hu
    obtain ⟨hleaves, rfl⟩ := threadStep_leaves hth h hbefore y hy hpc
    cases put_threads_self.symm.trans hy
    have hstart : th.pc ≠ .start := by
      intro hstart
      cases hleaves with
      | eof next total hreads got hread => exact (hreads.pc_ne got).1 (hread.symm.trans hstart)
      | zero got hread => rw [hstart] at hread; cases hread
    obtain ⟨tail, htaken, htail⟩ := hs.heard.heard u th hth hstart
    exact ⟨tail, htaken, hleaves.spent hplain (hs.carried.threads u th hth) hintact tail htail⟩
  · have hold : s.threads u = some y := by
      rw [hthreads, Function.update_of_ne hu] at hy
      exact hy
    obtain ⟨tail, htaken, hspent⟩ := hl.stopped u y hold hpc
    obtain ⟨hup, hsame | ⟨hme, hstart, hpending⟩⟩ := hmoves.conn hintact y.me
    · exact ⟨tail, by rw [hsame.1, htaken], hspent.same (.inl hup) hsame.2⟩
    · -- The client of a thread is read by no other one.
      exact absurd (hs.heard.alone u t y th hold hth (by simp [hpc]) hstart hme) hu

theorem left_step {a : Act} (hplain : cfg.encrypted = false) (hs : Serving s) (hl : Left s)
    (hok : Serves s a) (h : cfg.step s a = some s') : Left s' := by
  cases a with
  | thread t op =>
      unfold Cfg.step at h
      split_ifs at h
      cases hth : s.threads t with
      | none =>
          simp only [hth] at h
          cases h
      | some th =>
          simp only [hth] at h
          exact left_thread hplain hs hl hok hth h
  | main =>
      cases step_does h with
      | setId | semInit | count => exact hl.peer rfl (fun k => rfl) fun k tail h => h
      | create hmain =>
          refine ⟨fun t th hth hpc => ?_, fun t th hth => ?_⟩
          · by_cases ht : t = s.noClient
            · subst ht
              cases put_threads_self.symm.trans hth
              cases hpc
            · exact hl.stopped t th ((put_threads_of_ne ht).symm.trans hth) hpc
          · exact forall_threads_update hl.running (by simp [Thread.create]) t th hth
  | accept fd =>
      cases step_does h with
      | accept | full => exact hl.peer rfl (fun k => rfl) fun k tail h => h
  | arrive k data =>
      unfold Cfg.step at h
      dsimp only at h
      split_ifs at h with hstop hk
      cases h
      refine hl.peer rfl (taken_update k _ (by rfl)) fun j tail hspent => ?_
      by_cases hj : j = k
      · subst hj
        cases hspent with
        | closed hdown => rw [hk.2] at hdown; cases hdown
        | zero hlen hzero => exact .zero hlen hzero
      · show Spent (Function.update s.conns k _ j) tail
        rw [Function.update_of_ne hj]
        exact hspent
  | hangup k =>
      cases step_does h with
      | hangup k =>
          refine hl.peer rfl (taken_update k _ (by rfl)) fun j tail hspent => ?_
          by_cases hj : j = k
          · subst hj
            refine hspent.same ?_ ?_
            · simp [State.setConn]
            · simp [State.setConn]
          · show Spent (Function.update s.conns k _ j) tail
            rw [Function.update_of_ne hj]
            exact hspent

end CryptodevChat.Server
