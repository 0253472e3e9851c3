import CryptodevChat.Server.Descriptors

namespace CryptodevChat.Server

open Lib (Byte Run)
open Chat (MAX_CLIENTS)

variable {cfg : Cfg} {s s' : State} {t : Nat} {th : Thread} {op : Op}

section Identity

-- `client_id` is still the index of the thread that is about to read it.
def StartsInTime (s : State) : Act → Prop
  | .thread t _ => (s.threads t).map (·.pc) = some .start → s.clientId = t
  | _ => True

instance (s : State) : (a : Act) → Decidable (StartsInTime s a)
  | .thread _ _ => inferInstanceAs (Decidable (_ → _))
  | .main | .accept _ | .arrive _ _ | .hangup _ => inferInstanceAs (Decidable True)

-- A thread that has read `client_id` has found its own index.
def Own (s : State) : Prop := ∀ t th, s.threads t = some th → th.pc = .start ∨ th.me = t

-- What follows for the service threads: each counted client has one, which
-- serves its descriptor, no two have the same id, and the loop of `forward`
-- passes over the sender and nobody else.
structure Identified (cfg : Cfg) (s : State) : Prop where
  own : Own s
  served : ∀ k < s.noClient, ∃ th, s.threads k = some th ∧
    (th.pc = .start ∨ th.pc = .loadSd ∨ th.clientSd = s.newsdServe k)
  distinct : ∀ t u th uh, s.threads t = some th → s.threads u = some uh → th.pc ≠ .start →
    uh.pc ≠ .start → th.me = uh.me → t = u
  skips : ∀ t th msg client s', s.threads t = some th → th.pc = .test msg client →
    client < s.noClient → cfg.step s (.thread t .go) = some s' →
      ((s'.threads t).map (·.pc) = some (.test msg (client + 1)) ↔ client = t)
  echoes : ∀ t th client, s.threads t = some th → th.pc.visiting = some client → client ≠ t

theorem Moves.own (h : Moves cfg s t th op s') (hth : s.threads t = some th)
    (hok : th.pc = .start → s.clientId = t) (hown : th.pc = .start ∨ th.me = t)
    (th' : Thread) (hth' : s'.threads t = some th') : th'.pc = .start ∨ th'.me = t := by
  have hme : th.pc ≠ .start → th.me = t := hown.resolve_left
  cases h with
  | exit | crash =>
      cases hth.symm.trans hth'
      exact hown
  | start hpc =>
      cases put_threads_self.symm.trans hth'
      exact .inr (hok hpc)
  | receive next total hreads got hpc | eof next total hreads got hpc =>
      cases put_threads_self.symm.trans hth'
      have hpre := hreads.pc_ne got
      rw [← hpc] at hpre
      exact .inr (hme hpre.1)
  | write next fd hwrites rest hpc | tty next fd hwrites rest hpc =>
      cases put_threads_self.symm.trans hth'
      exact .inr (hme (by cases hwrites <;> simp [hpc]))
  | loadSd hpc | nothing got hpc | header got hpc | block got hpc | frame size got hpc
  | shown msg hpc | skip msg hpc | visit msg client hpc | finish msg client hpc
  | lock msg client n hpc | load msg client hpc | sent msg client fd data hpc
  | astray msg client fd data hpc | post msg client hpc | close hpc =>
      cases put_threads_self.symm.trans hth'
      exact .inr (hme (by simp [hpc]))

theorem own_step {a : Act} (hown : Own s) (hok : StartsInTime s a) (h : cfg.step s a = some s') :
    Own s' := by
  cases step_does h with
  | setId | semInit | count | accept | full | arrive | hangup => exact hown
  | create hmain =>
      intro t th hth
      exact forall_threads_update hown (.inl rfl) t th hth
  | thread t th op s' hth hmoves =>
      obtain ⟨th', hthreads⟩ := hmoves.threads hth
      have hnew := hmoves.own hth (fun hpc => hok (by rw [hth, ← hpc]; rfl)) (hown t th hth) th'
        (by rw [hthreads, Function.update_self])
      intro u x hx
      rw [hthreads] at hx
      exact forall_threads_update hown hnew u x hx

-- A test of the loop that is not its end goes past the client or waits for it.
theorem test_step (msg : Msg) (client : Nat) (hth : s.threads t = some th)
    (hpc : th.pc = .test msg client) (hlt : client < s.noClient)
    (h : cfg.step s (.thread t .go) = some s') :
    (s'.threads t).map (·.pc) = some (.test msg (client + 1)) ↔ client = th.me := by
  have hmoves : cfg.threadStep s t th .go = some s' := by
    unfold Cfg.step at h
    split_ifs at h
    simpa only [hth] using h
  simp only [Cfg.threadStep, hpc, hlt, if_true] at hmoves
  split_ifs at hmoves with hme <;> cases hmoves
  · simp [hme]
  · simp [hme]

theorem identified_of_own (hs : Table s) (hown : Own s) : Identified cfg s where
  own := hown
  served := fun k hk => by
    obtain ⟨th, hth⟩ := Option.isSome_iff_exists.mp ((hs.created k).mpr (by omega))
    refine ⟨th, hth, ?_⟩
    obtain hpc | hpc | hsd := (hs.placed k th hth).opened
    · exact .inl hpc
    · exact .inr (.inl hpc)
    · obtain hpc | hme := hown k th hth
      · exact .inl hpc
      · exact .inr (.inr (by rw [hsd, hme]))
  distinct := fun t u th uh hth huh hpt hpu heq => by
    have ht := (hown t th hth).resolve_left hpt
    have hu := (hown u uh huh).resolve_left hpu
    omega
  skips := fun t th msg client s' hth hpc hlt h => by
    have hme := (hown t th hth).resolve_left (by simp [hpc])
    rw [test_step msg client hth hpc hlt h, hme]
  echoes := fun t th client hth hvisit => by
    have hne := ((hs.placed t th hth).visited client hvisit).2
    have hstart : th.pc ≠ .start := by
      intro hpc
      rw [hpc] at hvisit
      cases hvisit
    rwa [(hown t th hth).resolve_left hstart] at hne

-- A thread that reads `client_id` late takes the id of another client.
theorem start_own_iff (hown : Own s) (hth : s.threads t = some th) (hpc : th.pc = .start)
    (h : cfg.step s (.thread t .go) = some s') : Own s' ↔ s.clientId = t := by
  have hmoves : cfg.threadStep s t th .go = some s' := by
    unfold Cfg.step at h
    split_ifs at h
    simpa only [hth] using h
  simp only [Cfg.threadStep, hpc] at hmoves
  cases hmoves
  constructor
  · intro hown'
    exact (hown' t _ put_threads_self).resolve_left (by simp)
  · intro hid
    have hnew : ({ th with me := s.clientId, pc := .loadSd } : Thread).pc = .start ∨ s.clientId = t :=
      .inr hid
    intro u x hx
    exact forall_threads_update hown hnew u x hx

end Identity

section Connections

-- `accept` returns a number that is neither a standard one nor in the table.
def TakesUnused (s : State) : Act → Prop
  | .accept fd => 3 < fd ∧ ∀ k < s.noClient, s.newsdServe k ≠ fd
  | _ => True

instance (s : State) : (a : Act) → Decidable (TakesUnused s a)
  | .accept fd => inferInstanceAs (Decidable (3 < fd ∧ ∀ k < s.noClient, s.newsdServe k ≠ fd))
  | .main | .thread _ _ | .arrive _ _ | .hangup _ => inferInstanceAs (Decidable True)

structure Spread (s : State) : Prop where
  above : ∀ k < s.nconn, 3 < s.newsdServe k
  apart : ∀ j k, j < s.nconn → k < s.nconn → s.newsdServe j = s.newsdServe k → j = k

-- Which thread uses which connection: one that reads a connection is that of
-- its client, and what it sends goes to the others.
structure Served (s : State) : Prop where
  reads : ∀ t th k, s.threads t = some th → th.pc ≠ .start → th.pc ≠ .loadSd →
    s.fds th.clientSd = some (.conn k) → k = t
  sends : ∀ t th msg client fd data rest k, s.threads t = some th →
    th.pc = .send msg client fd data rest → s.fds fd = some (.conn k) → k = client ∧ k ≠ t
  shown : ∀ k, s.fds 0 ≠ some (.conn k)
  others : ∀ k, ∀ d ∈ (s.conns k).log, d.thread ≠ k

theorem spread_boot : Spread State.boot where
  above := fun k hk => absurd hk (Nat.not_lt_zero k)
  apart := fun j _ hj => absurd hj (Nat.not_lt_zero j)

theorem spread_step {a : Act} (hs : Table s) (hspread : Spread s) (hok : TakesUnused s a)
    (h : cfg.step s a = some s') : Spread s' := by
  cases step_does h with
  | setId | semInit | count | create | full | arrive | hangup => exact ⟨hspread.above, hspread.apart⟩
  | thread t th op s' hth hmoves =>
      constructor
      · rw [hmoves.nconn, hmoves.newsdServe]
        exact hspread.above
      · rw [hmoves.nconn, hmoves.newsdServe]
        exact hspread.apart
  | accept fd hmain hfree hroom =>
      obtain ⟨habove, hunused⟩ := hok
      have hconn : s.nconn = s.noClient := by simpa [hmain] using hs.connections
      have hslot : ∀ k < s.noClient, Function.update s.newsdServe s.noClient fd k = s.newsdServe k :=
        fun k hk => Function.update_of_ne (by omega) ..
      have hnew : Function.update s.newsdServe s.noClient fd s.noClient = fd :=
        Function.update_self ..
      constructor
      · intro k hk
        dsimp only at hk ⊢
        obtain hlt | rfl : k < s.noClient ∨ k = s.noClient := by omega
        · rw [hslot k hlt]
          exact hspread.above k (by omega)
        · rwa [hnew]
      · intro j k hj hk heq
        dsimp only at hj hk heq
        obtain hjlt | rfl : j < s.noClient ∨ j = s.noClient := by omega
        · obtain hklt | rfl : k < s.noClient ∨ k = s.noClient := by omega
          · rw [hslot j hjlt, hslot k hklt] at heq
            exact hspread.apart j k (by omega) (by omega) heq
          · rw [hslot j hjlt, hnew] at heq
            exact absurd heq (hunused j hjlt)
        · obtain hklt | rfl : k < s.noClient ∨ k = s.noClient := by omega
          · rw [hnew, hslot k hklt] at heq
            exact absurd heq.symm (hunused k hklt)
          · rfl

-- The frames that a step adds to a connection.
theorem Moves.log (h : Moves cfg s t th op s') (k : Nat) :
    (s'.conns k).log = (s.conns k).log ∨
      ∃ msg client fd data d, th.pc = .send msg client fd data [] ∧ s.fds fd = some (.conn k) ∧
        d.thread = t ∧ (s'.conns k).log = (s.conns k).log ++ [d] := by
  have hother : ∀ (k' : Nat) (c : Conn), c.log = (s.conns k').log →
      (Function.update s.conns k' c k).log = (s.conns k).log := by
    intro k' c hc
    by_cases hk : k = k'
    · subst hk
      rw [Function.update_self, hc]
    · rw [Function.update_of_ne hk]
  cases h with
  | receive next total hreads got hpc k' | write next fd hwrites rest hpc k' =>
      exact .inl (hother k' _ rfl)
  | sent msg client fd data hpc k' hfd =>
      by_cases hk : k = k'
      · subst hk
        refine .inr ⟨msg, client, fd, data, ⟨t, th.frames.length - 1, data⟩, hpc, hfd, rfl, ?_⟩
        show (Function.update s.conns k _ k).log = _
        rw [Function.update_self]
      · refine .inl ?_
        show (Function.update s.conns k' _ k).log = _
        rw [Function.update_of_ne hk]
  | _ => exact .inl rfl

-- The descriptor of a slot stands for the connection of that slot, if for any.
theorem slot_conn (ha : Assigned s) (hspread : Spread s) {j k : Nat} (hj : j < s.nconn)
    (hfd : s.fds (s.newsdServe j) = some (.conn k)) : k = j := by
  obtain ⟨hk, hslot⟩ := ha _ _ hfd
  exact hspread.apart k j hk hj hslot

theorem served_of_own (hs : Table s) (ha : Assigned s) (hspread : Spread s) (hown : Own s)
    (hothers : ∀ k, ∀ d ∈ (s.conns k).log, d.thread ≠ k) : Served s where
  reads := fun t th k hth hstart hload hfd => by
    have hp := hs.placed t th hth
    have hme := (hown t th hth).resolve_left hstart
    have hlt := hp.joined.resolve_left hstart
    rw [(hp.opened.resolve_left hstart).resolve_left hload, hme] at hfd
    exact slot_conn ha hspread (by omega) hfd
  sends := fun t th msg client fd data rest k hth hpc hfd => by
    have hp := hs.placed t th hth
    obtain ⟨hlt, hne⟩ := hp.visited client (by rw [hpc]; rfl)
    rw [hp.sends msg client fd data rest hpc] at hfd
    have hclient := hs.count_le
    have hk := slot_conn ha hspread (by omega) hfd
    rw [(hown t th hth).resolve_left (by simp [hpc])] at hne
    exact ⟨hk, by omega⟩
  shown := fun k hfd => by
    obtain ⟨hk, hslot⟩ := ha _ _ hfd
    have habove := hspread.above k hk
    omega
  others := hothers

theorem others_step {a : Act} (hserved : Served s) (h : cfg.step s a = some s') :
    ∀ k, ∀ d ∈ (s'.conns k).log, d.thread ≠ k := by
  have hothers := hserved.others
  have hsame : ∀ (k' : Nat) (c : Conn), c.log = (s.conns k').log →
      ∀ k, ∀ d ∈ (Function.update s.conns k' c k).log, d.thread ≠ k := by
    intro k' c hc k d hd
    by_cases hk : k = k'
    · subst hk
      rw [Function.update_self, hc] at hd
      exact hothers k d hd
    · rw [Function.update_of_ne hk] at hd
      exact hothers k d hd
  cases step_does h with
  | setId | semInit | count | create | accept | full => exact hothers
  | arrive k data | hangup k => exact hsame k _ rfl
  | thread t th op s' hth hmoves =>
      intro k d hd
      obtain hlog | ⟨msg, client, fd, data, e, hpc, hfd, he, hlog⟩ := hmoves.log k
      · rw [hlog] at hd
        exact hothers k d hd
      · rw [hlog, List.mem_append, List.mem_singleton] at hd
        obtain hd | rfl := hd
        · exact hothers k d hd
        · rw [he]
          exact (hserved.sends t th msg client fd data [] k hth hpc hfd).2.symm

-- In a run in which every thread reads `client_id` in time each one has the id
-- of its client, and while `accept` returns unused numbers also its connection.
theorem own_threads (cfg : Cfg) (actions : List Act) (s : State)
    (run : Run cfg.step StartsInTime State.boot actions s) :
    Identified cfg s ∧
    (∀ t th s', s.threads t = some th → th.pc = .start → cfg.step s (.thread t .go) = some s' →
      (Identified cfg s' ↔ s.clientId = t)) ∧
    (Run cfg.step TakesUnused State.boot actions s → Served s) := by
  obtain ⟨hs, hown⟩ : Table s ∧ Own s := by
    apply run.invariant (I := fun s => Table s ∧ Own s)
    · exact ⟨table_boot, fun t th hth => by cases hth⟩
    · rintro s a u ⟨hs, hown⟩ hok h
      exact ⟨table_step hs h, own_step hown hok h⟩
  refine ⟨identified_of_own hs hown, fun t th s' hth hpc h => ?_, fun run' => ?_⟩
  · rw [← start_own_iff hown hth hpc h]
    exact ⟨fun h' => h'.own, identified_of_own (table_step hs h)⟩
  · obtain ⟨-, -, -, hserved⟩ : Assigned s ∧ Spread s ∧ (Table s ∧ Own s) ∧ Served s := by
      apply (run.and run').invariant
        (I := fun s => Assigned s ∧ Spread s ∧ (Table s ∧ Own s) ∧ Served s)
      · have hown : Own State.boot := fun t th hth => by cases hth
        exact ⟨assigned_boot, spread_boot, ⟨table_boot, hown⟩,
          served_of_own table_boot assigned_boot spread_boot hown fun k d hd => by cases hd⟩
      · rintro s a u ⟨ha, hspread, ⟨hs, hown⟩, hserved⟩ ⟨hok, hok'⟩ h
        have hs' := table_step hs h
        have ha' := assigned_step hs ha h
        have hspread' := spread_step hs hspread hok' h
        have hown' := own_step hown hok h
        exact ⟨ha', hspread', ⟨hs', hown'⟩,
          served_of_own hs' ha' hspread' hown' (others_step hserved h)⟩
    exact hserved

-- Two clients connect: the first thread starts before the second connection is
-- accepted, or after.
def startEarly : List Act :=
  [.accept 4, .main, .main, .main, .thread 0 .go, .main, .accept 5, .main, .main, .main,
    .thread 1 .go, .main, .thread 1 .go, .thread 0 .go]

def startLate : List Act :=
  [.accept 4, .main, .main, .main, .main, .accept 5, .main, .main, .main, .main,
    .thread 0 .go, .thread 1 .go, .thread 0 .go, .thread 1 .go]

theorem startEarly_served : ∃ s, Run plain.step StartsInTime State.boot startEarly s ∧
    s.noClient = 2 ∧ Identified plain s ∧ Served s := by
  obtain ⟨s, run, hs⟩ := Run.of_guarded plain.step (fun s a => StartsInTime s a ∧ TakesUnused s a)
    State.boot startEarly (fun s => decide (s.noClient = 2)) (by decide +kernel)
  have hids := own_threads plain startEarly s (run.mono fun _ _ h => h.1)
  exact ⟨s, run.mono fun _ _ h => h.1, of_decide_eq_true hs, hids.1,
    hids.2.2 (run.mono fun _ _ h => h.2)⟩

-- Both threads read the second connection, and nobody the first.
theorem startLate_mixed : ∃ s, Run plain.step (fun _ _ => True) State.boot startLate s ∧
    ((s.threads 0).map (·.me) = some 1 ∧ (s.threads 1).map (·.me) = some 1 ∧
      (s.threads 0).map (·.clientSd) = some 5 ∧ (s.threads 1).map (·.clientSd) = some 5 ∧
      s.fds 4 = some (.conn 0) ∧ s.fds 5 = some (.conn 1)) ∧ ¬Identified plain s := by
  obtain ⟨s, run, hs⟩ := Run.of_guarded plain.step (fun _ _ => True) State.boot startLate
    (fun s => decide ((s.threads 0).map (·.me) = some 1 ∧ (s.threads 1).map (·.me) = some 1 ∧
      (s.threads 0).map (·.clientSd) = some 5 ∧ (s.threads 1).map (·.clientSd) = some 5 ∧
      s.fds 4 = some (.conn 0) ∧ s.fds 5 = some (.conn 1) ∧
      (s.threads 0).map (·.pc) = some (.head []))) (by decide +kernel)
  obtain ⟨hme, hme', hsd, hsd', hfd, hfd', hpc⟩ := of_decide_eq_true hs
  refine ⟨s, run, ⟨hme, hme', hsd, hsd', hfd, hfd'⟩, fun hids => ?_⟩
  cases hth : s.threads 0 with
  | none =>
      rw [hth] at hme
      cases hme
  | some th =>
      rw [hth, Option.map_some, Option.some.injEq] at hme hpc
      obtain hstart | hown := hids.own 0 th hth
      · rw [hstart] at hpc
        cases hpc
      · omega

end Connections

end CryptodevChat.Server
