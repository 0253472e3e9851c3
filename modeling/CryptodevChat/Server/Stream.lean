import CryptodevChat.Server.Delivery
import CryptodevChat.Server.Locks

namespace CryptodevChat.Server

open Lib (Byte Exclusive)

variable {cfg : Cfg} {s s' : State} {t : Nat} {th : Thread} {op : Op}

-- The frame that a thread is writing to client `c`, and the part of it that is left.
def Pc.sending (pc : Pc) (c : Nat) : Option (List Byte × List Byte) :=
  match pc with
  | .send _ client _ data rest => if client = c then some (data, rest) else none
  | _ => none

def State.sending (s : State) (t c : Nat) : Option (List Byte × List Byte) :=
  (s.threads t).bind fun th => th.pc.sending c

-- The bytes of the frames that were sent to the end.
def Conn.whole (conn : Conn) : List Byte := conn.log.flatMap (·.data)

-- What was written to a client: whole frames, and the part of one more that is
-- being written.
inductive Streamed (s : State) (c : Nat) : Prop
  | idle (hnone : ∀ t, s.sending t c = none) (hsent : (s.conns c).sent = (s.conns c).whole)
  | writing (t : Nat) (data rest done : List Byte) (hsending : s.sending t c = some (data, rest))
      (hdata : data = done ++ rest) (hsent : (s.conns c).sent = (s.conns c).whole ++ done)

theorem Pc.holding_of_sending {pc : Pc} {c : Nat} {x : List Byte × List Byte}
    (h : pc.sending c = some x) : pc.holding = some c := by
  unfold Pc.sending at h
  split at h
  · split_ifs at h with hc
    rw [← hc]
    rfl
  · cases h

theorem holds_of_sending {c : Nat} {x : List Byte × List Byte} (h : s.sending t c = some x) :
    s.holds t = some c := by
  unfold State.sending at h
  unfold State.holds
  cases hth : s.threads t with
  | none =>
      rw [hth] at h
      cases h
  | some th =>
      rw [hth] at h
      exact Pc.holding_of_sending h

theorem sending_update {x : Thread} (hthreads : s'.threads = Function.update s.threads t (some x))
    (u c : Nat) : s'.sending u c = if u = t then x.pc.sending c else s.sending u c := by
  unfold State.sending
  rw [hthreads]
  by_cases hu : u = t
  · subst hu
    simp
  · rw [Function.update_of_ne hu, if_neg hu]

-- A step that writes nothing to the client.
theorem Streamed.same {c : Nat} (h : Streamed s c) (hsending : ∀ u, s'.sending u c = s.sending u c)
    (hsent : (s'.conns c).sent = (s.conns c).sent) (hlog : (s'.conns c).log = (s.conns c).log) :
    Streamed s' c := by
  have hwhole : (s'.conns c).whole = (s.conns c).whole := by
    unfold Conn.whole
    rw [hlog]
  cases h with
  | idle hnone hs => exact .idle (fun u => by rw [hsending, hnone u]) (by rw [hsent, hwhole, hs])
  | writing u data rest done hs hdata hw =>
      exact .writing u data rest done (by rw [hsending, hs]) hdata (by rw [hsent, hwhole, hw])

theorem sending_same {x : Thread} {c : Nat} (hth : s.threads t = some th)
    (hthreads : s'.threads = Function.update s.threads t (some x))
    (hpc : x.pc.sending c = th.pc.sending c) (u : Nat) : s'.sending u c = s.sending u c := by
  rw [sending_update hthreads]
  by_cases hu : u = t
  · subst hu
    rw [if_pos rfl, hpc]
    simp [State.sending, hth]
  · rw [if_neg hu]

theorem sent_update (k : Nat) (conn : Conn) (hsent : conn.sent = (s.conns k).sent) (c : Nat) :
    (Function.update s.conns k conn c).sent = (s.conns c).sent := by
  by_cases hc : c = k
  · rw [hc, Function.update_self, hsent]
  · rw [Function.update_of_ne hc]

-- The holder of a semaphore is the only one that writes to its client.
theorem Streamed.done_eq {c : Nat} (h : Streamed s c) (hl : Locked s) (hholds : s.holds t = some c)
    {data rest : List Byte} (hsending : s.sending t c = some (data, rest)) :
    ∃ done, data = done ++ rest ∧ (s.conns c).sent = (s.conns c).whole ++ done := by
  cases h with
  | idle hnone hs =>
      rw [hnone t] at hsending
      cases hsending
  | writing u data' rest' done hs hdata hsent =>
      have htu : u = t := hl.exclusive.single u t c (holds_of_sending hs) hholds
      subst htu
      rw [hs] at hsending
      cases hsending
      exact ⟨done, hdata, hsent⟩

theorem Streamed.nothing {c : Nat} (h : Streamed s c) (hl : Locked s) (hholds : s.holds t = some c)
    (hsending : s.sending t c = none) :
    (∀ u, s.sending u c = none) ∧ (s.conns c).sent = (s.conns c).whole := by
  cases h with
  | idle hnone hs => exact ⟨hnone, hs⟩
  | writing u data rest done hs hdata hsent =>
      have htu : u = t := hl.exclusive.single u t c (holds_of_sending hs) hholds
      subst htu
      rw [hs] at hsending
      cases hsending

theorem Reads.sending {next : List Byte → Pc} {total : Nat} (h : Reads cfg next total)
    (got : List Byte) (c : Nat) : (next got).sending c = none := by
  cases h <;> rfl

theorem Moves.streamed (h : Moves cfg s t th op s') (hl : Locked s) (hall : ∀ c, Streamed s c)
    (hth : s.threads t = some th) (hok : th.Intact s) (c : Nat) : Streamed s' c := by
  have hstr := hall c
  cases h with
  | exit | crash => exact hstr.same (fun u => rfl) rfl rfl
  | receive next total hreads got hpc k n =>
      refine hstr.same (sending_same hth rfl ?_) (sent_update k _ (by rfl) c) (log_update k _ (by rfl) c)
      rw [hpc, hreads.sending got]
      exact hreads.sending _ c
  | eof next total hreads got hpc =>
      refine hstr.same (sending_same hth rfl ?_) rfl rfl
      rw [hpc, hreads.sending]
      rfl
  | tty next fd hwrites rest hpc n hfd =>
      cases hwrites with
      | display msg => exact hstr.same (sending_same hth rfl (by rw [hpc]; rfl)) rfl rfl
      | send msg client fd data =>
          have hfd' : s.fds fd = some (.conn client) := by simpa [Thread.Intact, Thread.meant, hpc] using hok
          rw [hfd'] at hfd
          cases hfd
  | write next fd hwrites rest hpc k n hfd hpos hn =>
      cases hwrites with
      | display msg =>
          have hfd' : s.fds 0 = some .tty := by simpa [Thread.Intact, Thread.meant, hpc] using hok
          rw [hfd'] at hfd
          cases hfd
      | send msg client fd data =>
          have hfd' : s.fds fd = some (.conn client) := by simpa [Thread.Intact, Thread.meant, hpc] using hok
          rw [hfd'] at hfd
          cases hfd
          by_cases hc : c = k
          · subst hc
            have hsending : s.sending t c = some (data, rest) := by
              simp [State.sending, hth, hpc, Pc.sending]
            obtain ⟨done, hdata, hsent⟩ := hstr.done_eq hl (holds_of_sending hsending) hsending
            refine .writing t data (rest.drop n) (done ++ rest.take n) ?_ ?_ ?_
            · simp [State.sending, State.setConn, Pc.sending]
            · rw [List.append_assoc, List.take_append_drop, hdata]
            · simp [State.setConn, State.put, hsent, Conn.whole]
          · refine hstr.same (sending_same hth rfl ?_) ?_ ?_
            · simp [Pc.sending, hpc, Ne.symm hc]
            · simp [State.setConn, State.put, Function.update_of_ne hc]
            · simp [State.setConn, State.put, Function.update_of_ne hc]
  | load msg client hpc =>
      by_cases hc : c = client
      · subst hc
        have hholds : s.holds t = some c := by simp [State.holds, hth, hpc, Pc.holding]
        obtain ⟨hnone, hsent⟩ := hstr.nothing hl hholds (by simp [State.sending, hth, hpc, Pc.sending])
        exact .writing t (cfg.data msg) (cfg.data msg) [] (by simp [State.sending, Pc.sending]) rfl
          (by rw [List.append_nil]; exact hsent)
      · refine hstr.same (sending_same hth rfl ?_) rfl rfl
        simp [Pc.sending, hpc, Ne.symm hc]
  | sent msg client fd data hpc k hfd =>
      have hfd' : s.fds fd = some (.conn client) := by simpa [Thread.Intact, Thread.meant, hpc] using hok
      rw [hfd'] at hfd
      cases hfd
      by_cases hc : c = client
      · subst hc
        have hsending : s.sending t c = some (data, []) := by
          simp [State.sending, hth, hpc, Pc.sending]
        have hholds := holds_of_sending hsending
        obtain ⟨done, hdata, hsent⟩ := hstr.done_eq hl hholds hsending
        refine .idle (fun u => ?_) ?_
        · rw [sending_update (s := s) (t := t) (x := { th with pc := .post msg c }) rfl]
          by_cases hu : u = t
          · rw [if_pos hu]
            rfl
          · rw [if_neg hu]
            by_contra hsome
            obtain ⟨x, hx⟩ := Option.ne_none_iff_exists'.mp hsome
            exact hu (hl.exclusive.single u t c (holds_of_sending hx) hholds)
        · rw [List.append_nil] at hdata
          simp [State.setConn, State.put, hsent, hdata, Conn.whole]
      · refine hstr.same (sending_same hth rfl ?_) ?_ ?_
        · simp [Pc.sending, hpc, Ne.symm hc]
        · simp [State.setConn, State.put, Function.update_of_ne hc]
        · simp [State.setConn, State.put, Function.update_of_ne hc]
  | astray msg client fd data hpc hfd =>
      exact absurd (by simpa [Thread.Intact, Thread.meant, hpc] using hok) (hfd client)
  | start hpc | loadSd hpc | nothing got hpc | header got hpc | block got hpc | frame size got hpc
  | shown msg hpc | skip msg hpc | visit msg client hpc | finish msg client hpc
  | lock msg client n hpc | post msg client hpc | close hpc =>
      exact hstr.same (sending_same hth rfl (by rw [hpc]; rfl)) rfl rfl

theorem streamed_boot (c : Nat) : Streamed State.boot c := .idle (fun _ => rfl) rfl

theorem streamed_step {a : Act} (hs : Table s) (hl : Locked s) (hall : ∀ c, Streamed s c)
    (hok : Intact s a) (h : cfg.step s a = some s') (c : Nat) : Streamed s' c := by
  have hstr := hall c
  cases step_does h with
  | setId | semInit | accept | full | count => exact hstr.same (fun u => rfl) rfl rfl
  | arrive k | hangup k =>
      exact hstr.same (fun u => rfl) (sent_update k _ (by rfl) c) (log_update k _ (by rfl) c)
  | create hmain =>
      have hnone := hs.none_of_create hmain
      refine hstr.same (fun u => ?_) rfl rfl
      rw [sending_update (s := s) (t := s.noClient) (x := Thread.create) rfl]
      by_cases hu : u = s.noClient
      · subst hu
        simp [State.sending, hnone, Thread.create, Pc.sending]
      · rw [if_neg hu]
  | thread t th op s' hth hmoves => exact hmoves.streamed hl hall hth (hok th hth) c

end CryptodevChat.Server
