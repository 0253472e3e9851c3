import CryptodevChat.Server.Machine

namespace CryptodevChat.Server

open Lib (Byte be fromBe)
open Chat (MAX_CLIENTS DATA_SIZE)

variable {cfg : Cfg} {s s' : State} {t : Nat} {th : Thread} {op : Op}

-- The descriptor that a thread reads or writes, and what it is meant to be.
def Thread.meant (th : Thread) : Option (Nat × Endpoint) :=
  match th.pc with
  | .head _ => some (th.clientSd, .conn th.me)
  | .body _ _ => some (th.clientSd, .conn th.me)
  | .display _ _ => some (0, .tty)
  | .send _ client fd _ _ => some (fd, .conn client)
  | _ => none

-- The two reads of `forward`, with the number of bytes that each insists on.
inductive Reads (cfg : Cfg) : (List Byte → Pc) → Nat → Prop
  | head : Reads cfg .head cfg.headSize
  | body (size : Nat) : Reads cfg (.body size) size

-- Its writes, with their descriptors.
inductive Writes : (List Byte → Pc) → Nat → Prop
  | display (msg : Msg) : Writes (.display msg) 0
  | send (msg : Msg) (client fd : Nat) (data : List Byte) : Writes (.send msg client fd data) fd

-- Why the process may end: a call on the descriptor in use fails.
structure Exits (s : State) (th : Thread) (op : Op) : Prop where
  call : op = .reset ∨ op = .pipe ∨ ∃ x, th.meant = some x ∧ s.fds x.1 = none

-- Why it may touch memory that is not its own.
inductive Crashes (cfg : Cfg) (s : State) (th : Thread) : Prop
  | table (hpc : th.pc = .loadSd) (hme : MAX_CLIENTS ≤ th.me)
  | block (got : List Byte) (hpc : th.pc = .head got) (hlen : got.length = cfg.headSize)
      (hmode : cfg.encrypted = true) (hsize : DATA_SIZE < fromBe ((cfg.dec got).take 4) + 4)
  | semaphore (msg : Msg) (client : Nat) (hpc : th.pc = .wait msg client)
      (hlock : s.locks client = none)
  | slot (hpc : th.pc = .leave) (hcount : MAX_CLIENTS ≤ s.noClient)

-- Everything that a step of a thread can do.
inductive Moves (cfg : Cfg) (s : State) (t : Nat) (th : Thread) (op : Op) : State → Prop
  | exit (hwhy : Exits s th op) : Moves cfg s t th op s.exit
  | crash (hwhy : Crashes cfg s th) : Moves cfg s t th op s.crash
  | start (hpc : th.pc = .start) :
      Moves cfg s t th op (s.put t { th with me := s.clientId, pc := .loadSd })
  | loadSd (hpc : th.pc = .loadSd) (hme : th.me < MAX_CLIENTS) :
      Moves cfg s t th op (s.put t { th with clientSd := s.newsdServe th.me, pc := .head [] })
  | receive (next : List Byte → Pc) (total : Nat) (hreads : Reads cfg next total) (got : List Byte)
      (hpc : th.pc = next got) (k n : Nat) (hfd : s.fds th.clientSd = some (.conn k)) (hpos : 0 < n)
      (hroom : got.length + n ≤ total) (hn : n ≤ (s.conns k).pending.length) :
      Moves cfg s t th op
        ((s.put t { th with pc := next (got ++ (s.conns k).pending.take n) }).setConn k
          { s.conns k with
            pending := (s.conns k).pending.drop n
            taken := (s.conns k).taken ++ (s.conns k).pending.take n })
  | eof (next : List Byte → Pc) (total : Nat) (hreads : Reads cfg next total) (got : List Byte)
      (hpc : th.pc = next got) : Moves cfg s t th op (s.put t { th with pc := .leave })
  | nothing (got : List Byte) (hpc : th.pc = .head got) (hmode : cfg.encrypted = false)
      (hsize : fromBe got = 0) : Moves cfg s t th op (s.put t { th with pc := .leave })
  | header (got : List Byte) (hpc : th.pc = .head got) (hmode : cfg.encrypted = false)
      (hlen : got.length = 4) (hsize : fromBe got ≠ 0) :
      Moves cfg s t th op (s.put t { th with pc := .body (fromBe got) [] })
  | block (got : List Byte) (hpc : th.pc = .head got) (hmode : cfg.encrypted = true)
      (hsize : fromBe ((cfg.dec got).take 4) + 4 ≤ DATA_SIZE) :
      Moves cfg s t th op (s.put t { th with
        pc := .display ⟨fromBe ((cfg.dec got).take 4), cfg.dec got⟩
          (((cfg.dec got).drop 4).take (fromBe ((cfg.dec got).take 4)))
        frames := th.frames ++ [got] })
  | frame (size : Nat) (got : List Byte) (hpc : th.pc = .body size got) (hlen : got.length = size) :
      Moves cfg s t th op (s.put t { th with
        pc := .display ⟨size, be 4 size ++ got⟩ got
        frames := th.frames ++ [be 4 size ++ got] })
  | write (next : List Byte → Pc) (fd : Nat) (hwrites : Writes next fd) (rest : List Byte)
      (hpc : th.pc = next rest) (k n : Nat) (hfd : s.fds fd = some (.conn k)) (hpos : 0 < n)
      (hn : n ≤ rest.length) :
      Moves cfg s t th op ((s.put t { th with pc := next (rest.drop n) }).setConn k
        { s.conns k with sent := (s.conns k).sent ++ rest.take n })
  | tty (next : List Byte → Pc) (fd : Nat) (hwrites : Writes next fd) (rest : List Byte)
      (hpc : th.pc = next rest) (n : Nat) (hfd : s.fds fd = some .tty) :
      Moves cfg s t th op (s.put t { th with pc := next (rest.drop n) })
  | shown (msg : Msg) (hpc : th.pc = .display msg []) :
      Moves cfg s t th op (s.put t { th with
        pc := .test msg 0
        began := th.began ++ [s.noClient] })
  | skip (msg : Msg) (hpc : th.pc = .test msg th.me) (hlt : th.me < s.noClient) :
      Moves cfg s t th op (s.put t { th with pc := .test msg (th.me + 1) })
  | visit (msg : Msg) (client : Nat) (hpc : th.pc = .test msg client) (hlt : client < s.noClient)
      (hne : client ≠ th.me) : Moves cfg s t th op (s.put t { th with pc := .wait msg client })
  | finish (msg : Msg) (client : Nat) (hpc : th.pc = .test msg client) (hle : s.noClient ≤ client) :
      Moves cfg s t th op (s.put t { th with pc := .head [], ends := th.ends ++ [client] })
  | lock (msg : Msg) (client n : Nat) (hpc : th.pc = .wait msg client)
      (hlock : s.locks client = some (n + 1)) :
      Moves cfg s t th op { s.put t { th with pc := .hold msg client } with
        locks := Function.update s.locks client (some n) }
  | load (msg : Msg) (client : Nat) (hpc : th.pc = .hold msg client) :
      Moves cfg s t th op (s.put t { th with
        pc := .send (cfg.after msg) client (s.newsdServe client) (cfg.data msg) (cfg.data msg) })
  | sent (msg : Msg) (client fd : Nat) (data : List Byte) (hpc : th.pc = .send msg client fd data [])
      (k : Nat) (hfd : s.fds fd = some (.conn k)) :
      Moves cfg s t th op ((s.put t { th with pc := .post msg client }).setConn k
        { s.conns k with log := (s.conns k).log ++ [⟨t, th.frames.length - 1, data⟩] })
  | astray (msg : Msg) (client fd : Nat) (data : List Byte)
      (hpc : th.pc = .send msg client fd data []) (hfd : ∀ k, s.fds fd ≠ some (.conn k)) :
      Moves cfg s t th op (s.put t { th with pc := .post msg client })
  | post (msg : Msg) (client : Nat) (hpc : th.pc = .post msg client) :
      Moves cfg s t th op { s.put t { th with pc := .test msg (client + 1) } with
        locks := Function.update s.locks client ((s.locks client).map (· + 1)) }
  | close (hpc : th.pc = .leave) (hop : op = .go) :
      Moves cfg s t th op { s.put t { th with pc := .gone } with
        fds := Function.update s.fds (s.newsdServe s.noClient) none
        closed := s.closed ++ [(t, s.fds (s.newsdServe s.noClient))] }

theorem receive_moves (next : List Byte → Pc) (total : Nat) (hreads : Reads cfg next total)
    (got : List Byte) (hpc : th.pc = next got)
    (h : s.receive t th got total next op = some s') : Moves cfg s t th op s' := by
  have hmeant : th.meant = some (th.clientSd, .conn th.me) := by
    unfold Thread.meant
    rw [hpc]
    cases hreads <;> rfl
  unfold State.receive at h
  split_ifs at h with hlt
  split at h
  · rename_i k n hfd
    dsimp only at h
    split_ifs at h with hn
    cases h
    exact .receive next total hreads got hpc k n hfd hn.1 hn.2.1 hn.2.2
  · split_ifs at h
    cases h
    exact .eof next total hreads got hpc
  · split_ifs at h
    cases h
    exact .exit ⟨.inl rfl⟩
  · rename_i hfd
    cases h
    exact .exit ⟨.inr (.inr ⟨_, hmeant, hfd⟩)⟩
  · cases h

theorem transmit_moves (next : List Byte → Pc) (fd : Nat) (hwrites : Writes next fd)
    (rest : List Byte) (hpc : th.pc = next rest)
    (h : s.transmit t th fd rest next op = some s') : Moves cfg s t th op s' := by
  have hmeant : ∃ e, th.meant = some (fd, e) := by
    unfold Thread.meant
    rw [hpc]
    cases hwrites <;> exact ⟨_, rfl⟩
  unfold State.transmit at h
  split_ifs at h
  split at h
  · rename_i k n hfd
    dsimp only at h
    split_ifs at h with hn
    cases h
    exact .write next fd hwrites rest hpc k n hfd hn.1 hn.2
  · rename_i n hfd
    split_ifs at h
    cases h
    exact .tty next fd hwrites rest hpc n hfd
  · split_ifs at h
    cases h
    exact .exit ⟨.inr (.inl rfl)⟩
  · rename_i hfd
    cases h
    obtain ⟨e, hmeant⟩ := hmeant
    exact .exit ⟨.inr (.inr ⟨_, hmeant, hfd⟩)⟩
  · cases h

theorem parse_moves (got : List Byte) (hpc : th.pc = .head got) (hlen : got.length = cfg.headSize) :
    Moves cfg s t th op (cfg.parse s t th got) := by
  unfold Cfg.parse
  by_cases hmode : cfg.encrypted = true
  · rw [if_pos hmode]
    by_cases hsize : fromBe ((cfg.dec got).take 4) + 4 ≤ DATA_SIZE
    · rw [if_pos hsize]
      exact .block got hpc hmode hsize
    · rw [if_neg hsize]
      exact .crash (.block got hpc hlen hmode (by omega))
  · rw [if_neg hmode]
    have hplain : cfg.encrypted = false := by simpa using hmode
    by_cases hzero : fromBe got = 0
    · rw [if_pos hzero]
      exact .nothing got hpc hplain hzero
    · rw [if_neg hzero]
      exact .header got hpc hplain (by rw [hlen, Cfg.headSize, hplain]; rfl) hzero

theorem threadStep_moves (h : cfg.threadStep s t th op = some s') : Moves cfg s t th op s' := by
  unfold Cfg.threadStep at h
  split at h
  · rename_i hpc
    cases h
    exact .start hpc
  · rename_i hpc
    split_ifs at h with hme <;> cases h
    · exact .loadSd hpc hme
    · exact .crash (.table hpc (by omega))
  · rename_i got hpc
    split_ifs at h with hlen
    cases h
    exact parse_moves got hpc hlen
  · rename_i got hpc _
    exact receive_moves .head _ .head got hpc h
  · rename_i size got hpc
    split_ifs at h with hlen
    cases h
    exact .frame size got hpc hlen
  · rename_i size got hpc _
    exact receive_moves (.body size) _ (.body size) got hpc h
  · rename_i msg rest hpc
    split_ifs at h with hrest
    cases h
    subst hrest
    exact .shown msg hpc
  · rename_i msg rest hpc _
    exact transmit_moves (.display msg) 0 (.display msg) rest hpc h
  · rename_i msg client hpc
    split_ifs at h with hlt hme <;> cases h
    · subst hme
      exact .skip msg hpc hlt
    · exact .visit msg client hpc hlt hme
    · exact .finish msg client hpc (by omega)
  · rename_i msg client hpc
    split at h
    · rename_i hlock
      cases h
      exact .crash (.semaphore msg client hpc hlock)
    · cases h
    · rename_i n hlock
      cases h
      exact .lock msg client n hpc hlock
  · rename_i msg client hpc
    cases h
    exact .load msg client hpc
  · rename_i msg client fd data rest hpc
    split_ifs at h with hrest
    subst hrest
    split at h
    · rename_i k hfd
      cases h
      exact .sent msg client fd data hpc k hfd
    · rename_i hfd
      cases h
      exact .astray msg client fd data hpc hfd
  · rename_i msg client fd data rest hpc _
    exact transmit_moves (.send msg client fd data) fd (.send msg client fd data) rest hpc h
  · rename_i msg client hpc
    cases h
    exact .post msg client hpc
  · rename_i hpc
    split_ifs at h with hcount <;> cases h
    · exact .close hpc rfl
    · exact .crash (.slot hpc (by omega))
  · cases h

-- Everything that a step of the server can do: the accept loop, a thread, or a peer.
inductive Does (cfg : Cfg) (s : State) : Act → State → Prop
  | setId (hmain : s.mainPc = .setId) :
      Does cfg s .main { s with clientId := s.noClient, mainPc := .semInit }
  | semInit (hmain : s.mainPc = .semInit) :
      Does cfg s .main { s with
        locks := Function.update s.locks s.noClient (some 1)
        mainPc := .create }
  | create (hmain : s.mainPc = .create) :
      Does cfg s .main { s.put s.noClient Thread.create with mainPc := .count }
  | count (hmain : s.mainPc = .count) :
      Does cfg s .main { s with noClient := s.noClient + 1, mainPc := .accept }
  | accept (fd : Nat) (hmain : s.mainPc = .accept) (hfree : s.fds fd = none)
      (hroom : s.noClient < MAX_CLIENTS) :
      Does cfg s (.accept fd) { s with
        newsdServe := Function.update s.newsdServe s.noClient fd
        fds := Function.update s.fds fd (some (.conn s.nconn))
        nconn := s.nconn + 1
        mainPc := .setId }
  | full (fd : Nat) (hmain : s.mainPc = .accept) (hfull : MAX_CLIENTS ≤ s.noClient) :
      Does cfg s (.accept fd) s.crash
  | thread (t : Nat) (th : Thread) (op : Op) (s' : State) (hth : s.threads t = some th)
      (hmoves : Moves cfg s t th op s') : Does cfg s (.thread t op) s'
  | arrive (k : Nat) (data : List Byte) (hk : k < s.nconn) :
      Does cfg s (.arrive k data)
        (s.setConn k { s.conns k with pending := (s.conns k).pending ++ data })
  | hangup (k : Nat) (hk : k < s.nconn) :
      Does cfg s (.hangup k) (s.setConn k { s.conns k with up := false })

theorem step_does {a : Act} (h : cfg.step s a = some s') : Does cfg s a s' := by
  unfold Cfg.step at h
  split_ifs at h
  cases a with
  | main =>
      simp only [State.mainStep] at h
      split at h <;> cases h
      · exact .setId ‹_›
      · exact .semInit ‹_›
      · exact .create ‹_›
      · exact .count ‹_›
  | accept fd =>
      simp only [State.acceptStep] at h
      split_ifs at h with hfree hroom <;> cases h
      · exact .accept fd hfree.1 hfree.2 hroom
      · exact .full fd hfree.1 (by omega)
  | thread t op =>
      cases hth : s.threads t with
      | none =>
          simp only [hth] at h
          cases h
      | some th =>
          simp only [hth] at h
          exact .thread t th op s' hth (threadStep_moves h)
  | arrive k data =>
      dsimp only at h
      split_ifs at h with hk
      cases h
      exact .arrive k data hk.1
  | hangup k =>
      dsimp only at h
      split_ifs at h with hk
      cases h
      exact .hangup k hk

end CryptodevChat.Server
