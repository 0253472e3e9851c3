import CryptodevChat.Server.Transcript
import CryptodevChat.Server.Progress

namespace CryptodevChat.Server

open Lib (Byte be fromBe Run)
open Chat (DATA_SIZE pad)

variable {cfg : Cfg} {s s' : State} {t : Nat} {th : Thread} {op : Op}

-- The size that a block announces when it is decrypted.
def Cfg.announced (cfg : Cfg) (block : List Byte) : Nat := fromBe ((cfg.dec block).take 4)

-- One round of the loop of `forward` encrypts the buffer in place.
def Cfg.again (cfg : Cfg) (size : Nat) (buf : List Byte) : List Byte :=
  cfg.enc (pad (buf.take (size + 4)))

-- The buffer after some rounds for one block.
def Cfg.image (cfg : Cfg) (block : List Byte) (rounds : Nat) : List Byte :=
  (cfg.again (cfg.announced block))^[rounds] (cfg.dec block)

-- How many rounds the loop makes before this client: it passes the sender.
def rank (me client : Nat) : Nat := if me < client then client - 1 else client

theorem rank_skip (me : Nat) : rank me (me + 1) = rank me me := by
  simp [rank]

theorem rank_next (me client : Nat) (h : client ≠ me) : rank me (client + 1) = rank me client + 1 := by
  unfold rank
  split_ifs <;> omega

-- The rounds that a thread has made for its frame.
def Pc.turns (me : Nat) : Pc → Nat
  | .test _ client | .wait _ client | .hold _ client => rank me client
  | .send _ client _ _ _ | .post _ client => rank me client + 1
  | _ => 0

-- What the buffer of a thread is in encrypted mode.
structure Thread.Sealed (cfg : Cfg) (th : Thread) : Prop where
  blocks : ∀ block ∈ th.frames, block.length = DATA_SIZE
  msg : ∀ msg, th.pc.msg = some msg → ∃ block, th.frames.getLast? = some block ∧
    msg.size = cfg.announced block ∧ msg.buf = cfg.image block (th.pc.turns th.me)
  data : ∀ msg client fd data rest, th.pc = .send msg client fd data rest → data = msg.buf

-- Every client has got the images of blocks that were read.
structure Sealed (cfg : Cfg) (s : State) : Prop where
  threads : ∀ t th, s.threads t = some th → th.Sealed cfg
  logs : ∀ c, ∀ d ∈ (s.conns c).log, ∃ th block, s.threads d.thread = some th ∧ th.pc ≠ .start ∧
    th.frames[d.frame]? = some block ∧ d.data = cfg.image block (rank th.me c + 1)

-- A block is complete when `forward` goes on with it.
theorem frames_full (h : cfg.threadStep s t th op = some s') (hth : s.threads t = some th)
    (got : List Byte) (hpc : th.pc = .head got) (x : Thread) (hx : s'.threads t = some x)
    (hframes : x.frames ≠ th.frames) : got.length = cfg.headSize := by
  by_cases hgo : op = .go
  · subst hgo
    simp only [Cfg.threadStep, hpc] at h
    split_ifs at h with hlen
    exact hlen
  · have hreceive : s.receive t th got cfg.headSize .head op = some s' := by
      simpa only [Cfg.threadStep, hpc] using h
    unfold State.receive at hreceive
    split_ifs at hreceive
    split at hreceive
    · dsimp only at hreceive
      split_ifs at hreceive
      cases hreceive
      cases put_threads_self.symm.trans hx
      exact absurd rfl hframes
    · split_ifs at hreceive
      cases hreceive
      cases put_threads_self.symm.trans hx
      exact absurd rfl hframes
    · split_ifs at hreceive
      cases hreceive
      cases hth.symm.trans hx
      exact absurd rfl hframes
    · cases hreceive
      cases hth.symm.trans hx
      exact absurd rfl hframes
    · cases hreceive

-- A thread that goes on with the same buffer, if with any, in the same round.
theorem Thread.Sealed.stay (h : th.Sealed cfg) (x : Thread) (hframes : x.frames = th.frames)
    (hmsg : ∀ msg, x.pc.msg = some msg → th.pc.msg = some msg)
    (hturns : x.pc.msg ≠ none → x.pc.turns x.me = th.pc.turns th.me)
    (hdata : ∀ msg client fd data rest, x.pc = .send msg client fd data rest → data = msg.buf) :
    x.Sealed cfg where
  blocks := by rw [hframes]; exact h.blocks
  msg := fun msg hpc => by
    obtain ⟨block, hblock, hsize, hbuf⟩ := h.msg msg (hmsg msg hpc)
    exact ⟨block, by rw [hframes, hblock], hsize, by rw [hturns (by simp [hpc]), hbuf]⟩
  data := hdata

theorem Moves.sealed (hmode : cfg.encrypted = true) (h : Moves cfg s t th op s') (hs : Table s)
    (hc : th.Sealed cfg) (hth : s.threads t = some th) (hstep : cfg.threadStep s t th op = some s')
    (x : Thread) (hx : s'.threads t = some x) (hplain : ∀ size got, th.pc ≠ .body size got) :
    x.Sealed cfg := by
  have hp := hs.placed t th hth
  cases h with
  | exit | crash =>
      rw [show s.threads t = some x from hx] at hth
      cases hth
      exact hc
  | receive next total hreads got hpc =>
      cases put_threads_self.symm.trans hx
      cases hreads <;> exact hc.stay _ rfl (by simp [Pc.msg]) (by simp [Pc.msg]) (by simp)
  | header got hpc hplainMode =>
      rw [hmode] at hplainMode
      cases hplainMode
  | frame size got hpc => exact absurd hpc (hplain size got)
  | block got hpc _ hsize =>
      have hfull := frames_full hstep hth got hpc x hx (by
        cases put_threads_self.symm.trans hx
        simp)
      rw [Cfg.headSize, if_pos hmode] at hfull
      cases put_threads_self.symm.trans hx
      refine ⟨?_, ?_, by simp⟩
      · intro block hmem
        rcases List.mem_append.mp hmem with hmem | hmem
        · exact hc.blocks block hmem
        · rw [List.mem_singleton.mp hmem]
          exact hfull
      · rintro _ ⟨⟩
        exact ⟨got, List.getLast?_concat .., rfl, rfl⟩
  | write next fd hwrites rest hpc | tty next fd hwrites rest hpc =>
      cases put_threads_self.symm.trans hx
      cases hwrites with
      | display msg =>
          exact hc.stay _ rfl (by rw [hpc]; exact fun _ h => h) (fun _ => by rw [hpc]; rfl) (by simp)
      | send msg client fd data =>
          refine hc.stay _ rfl (by rw [hpc]; exact fun _ h => h) (fun _ => by rw [hpc]; rfl) ?_
          rintro _ _ _ _ _ ⟨⟩
          exact hc.data _ _ _ _ _ hpc
  | load msg client hpc =>
      cases put_threads_self.symm.trans hx
      obtain ⟨block, hblock, hsize, hbuf⟩ := hc.msg msg (by rw [hpc]; rfl)
      refine ⟨hc.blocks, ?_, ?_⟩
      · rintro _ ⟨⟩
        refine ⟨block, hblock, ?_, ?_⟩
        · rw [Cfg.after, if_pos hmode, hsize]
        · rw [Cfg.after, if_pos hmode]
          show cfg.data msg = cfg.image block (rank th.me client + 1)
          rw [Cfg.image, Function.iterate_succ_apply', ← Cfg.image, Cfg.data, if_pos hmode, hsize, hbuf, hpc]
          rfl
      · rintro _ _ _ _ _ ⟨⟩
        rw [Cfg.after, if_pos hmode]
  | skip msg hpc =>
      cases put_threads_self.symm.trans hx
      refine hc.stay _ rfl (by rw [hpc]; exact fun _ h => h) (fun _ => ?_) (by simp)
      rw [hpc]
      exact rank_skip th.me
  | post msg client hpc =>
      cases put_threads_self.symm.trans hx
      refine hc.stay _ rfl (by rw [hpc]; exact fun _ h => h) (fun _ => ?_) (by simp)
      rw [hpc]
      exact rank_next th.me client (hp.visited client (by rw [hpc]; rfl)).2
  | shown msg hpc =>
      cases put_threads_self.symm.trans hx
      exact hc.stay _ rfl (by rw [hpc]; exact fun _ h => h) (fun _ => by rw [hpc]; simp [Pc.turns, rank]) (by simp)
  | visit msg client hpc | lock msg client n hpc | sent msg client fd data hpc
  | astray msg client fd data hpc =>
      cases put_threads_self.symm.trans hx
      exact hc.stay _ rfl (by rw [hpc]; exact fun _ h => h) (fun _ => by rw [hpc]; rfl) (by simp)
  | start | loadSd | eof | nothing | finish | close =>
      cases put_threads_self.symm.trans hx
      exact hc.stay _ rfl (by simp [Pc.msg]) (by simp [Pc.msg]) (by simp)

-- A thread has read some bytes of its client, and where it is they count.
theorem Heard.read (hh : Heard s) (hth : s.threads t = some th) (hintact : th.Intact s)
    (next : List Byte → Pc) (total : Nat) (hreads : Reads cfg next total) (got : List Byte)
    (hpc : th.pc = next got) (k n : Nat) (hfd : s.fds th.clientSd = some (.conn k)) :
    Heard ((s.put t { th with pc := next (got ++ (s.conns k).pending.take n) }).setConn k
      { s.conns k with
        pending := (s.conns k).pending.drop n
        taken := (s.conns k).taken ++ (s.conns k).pending.take n }) := by
  have hfd' : s.fds th.clientSd = some (.conn th.me) := by
    cases hreads <;> simpa [Thread.Intact, Thread.meant, hpc] using hintact
  rw [hfd'] at hfd
  cases hfd
  obtain ⟨p, hgathered, hmore⟩ : ∃ p, th.pc.gathered = some p ∧
      (next (got ++ (s.conns th.me).pending.take n)).gathered =
        some (p ++ (s.conns th.me).pending.take n) := by
    rw [hpc]
    cases hreads <;> exact ⟨_, rfl, by simp [Pc.gathered]⟩
  refine hh.move hth (by rw [hpc]; exact (hreads.pc_ne got).1) rfl (hreads.pc_ne _).1 rfl
    ((s.conns th.me).pending.take n) (by simp [State.setConn, State.put])
    (fun k hk => by simp [State.setConn, State.put, Function.update_of_ne hk]) fun tail htail => ?_
  rw [htail p hgathered, List.append_assoc]
  refine ⟨_, rfl, fun q hq => ?_⟩
  rw [hmore] at hq
  cases hq
  rfl

theorem Moves.heard_sealed (hmode : cfg.encrypted = true) (h : Moves cfg s t th op s') (hh : Heard s)
    (hth : s.threads t = some th) (hp : th.Paced s) (hintact : th.Intact s)
    (hplain : ∀ size got, th.pc ≠ .body size got)
    (hid : th.pc = .start → ∀ u x, s.threads u = some x → x.pc ≠ .start → x.me ≠ s.clientId) :
    Heard s' := by
  cases h with
  | exit | crash => exact ⟨hh.alone, hh.unread, hh.heard⟩
  | start hpc =>
      have hlen := hp.frames
      rw [hp.fresh hpc, hpc] at hlen
      exact hh.start hth hpc (List.eq_nil_of_length_eq_zero hlen) (hid hpc)
  | receive next total hreads got hpc k n hfd => exact hh.read hth hintact next total hreads got hpc k n hfd
  | block got hpc =>
      refine hh.move hth (by simp [hpc]) rfl (by simp) rfl [] (by rw [List.append_nil]; rfl)
        (fun k _ => rfl) fun tail htail => ⟨[], ?_, by rintro _ ⟨⟩; rfl⟩
      rw [htail got (by rw [hpc]; rfl)]
      simp
  | header got hpc hplainMode | nothing got hpc hplainMode =>
      rw [hmode] at hplainMode
      cases hplainMode
  | frame size got hpc => exact absurd hpc (hplain size got)
  | eof next total hreads got hpc =>
      exact hh.stay hth (by rw [hpc]; exact (hreads.pc_ne got).1) rfl (by simp) rfl (fun k => rfl) rfl
        (by simp [Pc.gathered])
  | close hpc =>
      exact hh.stay hth (by simp [hpc]) rfl (by simp) rfl (fun k => rfl) rfl (by simp [Pc.gathered])
  | write next fd hwrites rest hpc k n =>
      refine hh.stay hth (by rw [hpc]; exact (hwrites.idle rest rest).1) rfl (hwrites.idle _ rest).1 rfl
        (taken_update k _ (by rfl)) rfl ?_
      rw [hpc]
      cases hwrites <;> exact fun _ h => h
  | tty next fd hwrites rest hpc n =>
      refine hh.stay hth (by rw [hpc]; exact (hwrites.idle rest rest).1) rfl (hwrites.idle _ rest).1 rfl
        (fun k => rfl) rfl ?_
      rw [hpc]
      cases hwrites <;> exact fun _ h => h
  | sent msg client fd data hpc k hfd =>
      exact hh.stay hth (by simp [hpc]) rfl (by simp) rfl (taken_update k _ (by rfl)) rfl
        (by rw [hpc]; exact fun _ h => h)
  | loadSd hpc | shown msg hpc | skip msg hpc | visit msg client hpc | finish msg client hpc
  | lock msg client n hpc | load msg client hpc | astray msg client fd data hpc | post msg client hpc =>
      exact hh.stay hth (by simp [hpc]) rfl (by simp) rfl (fun k => rfl) rfl
        (by rw [hpc]; exact fun _ h => h)

-- No thread of a server in encrypted mode reads a payload by itself.
def Bodiless (s : State) : Prop := ∀ t th size got, s.threads t = some th → th.pc ≠ .body size got

theorem Moves.bodiless (hmode : cfg.encrypted = true) (h : Moves cfg s t th op s') (hb : Bodiless s)
    (hth : s.threads t = some th) (x : Thread) (hx : s'.threads t = some x) (size : Nat)
    (got : List Byte) : x.pc ≠ .body size got := by
  cases h with
  | exit | crash =>
      exact hb t x size got hx
  | header got hpc hplainMode =>
      rw [hmode] at hplainMode
      cases hplainMode
  | receive next total hreads got hpc =>
      cases put_threads_self.symm.trans hx
      cases hreads with
      | head => simp
      | body => exact absurd hpc (hb t th _ got hth)
  | write next fd hwrites rest hpc | tty next fd hwrites rest hpc =>
      cases put_threads_self.symm.trans hx
      cases hwrites <;> simp
  | _ =>
      cases put_threads_self.symm.trans hx
      simp

-- The invariant of a run in encrypted mode.
structure Sealing (cfg : Cfg) (s : State) : Prop where
  table : Table s
  locked : Locked s
  opened : Opened s
  paced : Paced s
  streamed : ∀ c, Streamed s c
  heard : Heard s
  bodiless : Bodiless s
  contents : Sealed cfg s
  widening : Widening s

theorem sealing_boot (cfg : Cfg) : Sealing cfg State.boot where
  table := table_boot
  locked := locked_boot
  opened := opened_boot
  paced := paced_boot
  streamed := streamed_boot
  heard := heard_boot
  bodiless := fun t th size got h => by cases h
  contents := ⟨fun t th h => (by cases h), fun c d hd => (by cases hd)⟩
  widening := widening_boot

theorem Serves.intact {a : Act} (_ : Serves s a) (ho : Opened s) (hs : Table s) : Intact s a := by
  cases a with
  | thread t op => exact fun th hth => ho.intact hs hth
  | _ => trivial

theorem heard_step_sealed {a : Act} (hmode : cfg.encrypted = true) (hs : Sealing cfg s) (hok : Serves s a)
    (h : cfg.step s a = some s') : Heard s' := by
  cases a with
  | thread t op =>
      cases step_does h with
      | thread t th op s' hth hmoves =>
          refine hmoves.heard_sealed hmode hs.heard hth (hs.paced.threads t th hth)
            (hs.opened.intact hs.table hth) (fun size got => hs.bodiless t th size got hth) fun hpc u x hx => ?_
          exact (hok.2.2 th hth).2 hpc u (hs.table.nconn_pos hx) x hx
  | main | accept fd | arrive k data | hangup k =>
      -- These steps are the same in both modes.
      exact heard_step (by rfl) hs.table hs.paced hs.opened hs.heard hok
        (show plain.step s _ = some s' from h)

theorem bodiless_step {a : Act} (hmode : cfg.encrypted = true) (hb : Bodiless s)
    (h : cfg.step s a = some s') : Bodiless s' := by
  cases step_does h with
  | create hmain =>
      intro t th size got hth
      exact forall_threads_update (P := fun _ th => th.pc ≠ .body size got)
        (fun u x hx => hb u x size got hx) (by simp [Thread.create]) t th hth
  | thread t th op s' hth hmoves =>
      obtain ⟨x, hthreads⟩ := hmoves.threads hth
      intro u y size got hy
      rw [hthreads] at hy
      exact forall_threads_update (P := fun _ th => th.pc ≠ .body size got)
        (fun u x hx => hb u x size got hx)
        (hmoves.bodiless hmode hb hth x (by rw [hthreads, Function.update_self]) size got) u y hy
  | _ => exact hb

-- A thread that has its identity keeps it.
theorem Moves.keeps_me (h : Moves cfg s t th op s') (hth : s.threads t = some th) (hstart : th.pc ≠ .start)
    (x : Thread) (hx : s'.threads t = some x) : x.me = th.me ∧ x.pc ≠ .start := by
  cases h with
  | exit | crash =>
      cases hth.symm.trans hx
      exact ⟨rfl, hstart⟩
  | start hpc => exact absurd hpc hstart
  | receive next total hreads got hpc =>
      cases put_threads_self.symm.trans hx
      exact ⟨rfl, (hreads.pc_ne _).1⟩
  | write next fd hwrites rest hpc | tty next fd hwrites rest hpc =>
      cases put_threads_self.symm.trans hx
      exact ⟨rfl, (hwrites.idle _ rest).1⟩
  | _ =>
      cases put_threads_self.symm.trans hx
      exact ⟨rfl, by simp⟩

-- What a thread has sent to the end it has sent to the client of its round.
theorem Moves.log_client (h : Moves cfg s t th op s') (hintact : th.Intact s) (c : Nat) (d : Delivery)
    (hd : d ∈ (s'.conns c).log) :
    d ∈ (s.conns c).log ∨ ∃ msg fd data, th.pc = .send msg c fd data [] ∧
      d = ⟨t, th.frames.length - 1, data⟩ := by
  rcases h.log_mem c d hd with hold | ⟨msg, client, fd, data, hpc, rfl⟩
  · exact .inl hold
  · have hfd : s.fds fd = some (.conn client) := by
      simpa [Thread.Intact, Thread.meant, hpc] using hintact
    by_cases hc : client = c
    · exact .inr ⟨msg, fd, data, by rw [hpc, hc], rfl⟩
    · left
      cases h with
      | sent msg' client' fd' data' hpc' k hfd' =>
          rw [hpc] at hpc'
          cases hpc'
          rw [hfd] at hfd'
          cases hfd'
          simpa [State.setConn, State.put, Function.update_of_ne (Ne.symm hc)] using hd
      | receive next total hreads got hpc' k | write next fd hwrites rest hpc' k =>
          exact mem_log_of_update k _ (by rfl) hd
      | _ => exact hd

theorem sealed_thread (hmode : cfg.encrypted = true) (hs : Sealing cfg s) (hth : s.threads t = some th)
    (h : cfg.threadStep s t th op = some s') : Sealed cfg s' := by
  have hmoves := threadStep_moves h
  have hintact := hs.opened.intact hs.table hth
  have hsealed := hs.contents.threads t th hth
  obtain ⟨x, hthreads⟩ := hmoves.threads hth
  have hx : s'.threads t = some x := by rw [hthreads, Function.update_self]
  constructor
  · intro u y hy
    rw [hthreads] at hy
    exact forall_threads_update hs.contents.threads (hmoves.sealed hmode hs.table hsealed hth h x hx
      fun size got => hs.bodiless t th size got hth) u y hy
  · intro c d hd
    have hkeep : ∀ (j : Nat) block, th.frames[j]? = some block → x.frames[j]? = some block := by
      intro j block hj
      obtain ⟨more, hmore⟩ := hmoves.frames_prefix hth x hx
      obtain ⟨hlt, -⟩ := List.getElem?_eq_some_iff.mp hj
      rw [← hmore, List.getElem?_append_left hlt, hj]
    rcases hmoves.log_client hintact c d hd with hold | ⟨msg, fd, data, hpc, rfl⟩
    · obtain ⟨y, block, hy, hstart, hblock, hdata⟩ := hs.contents.logs c d hold
      by_cases ht : d.thread = t
      · rw [ht, hth] at hy
        cases hy
        obtain ⟨hme, hxstart⟩ := hmoves.keeps_me hth hstart x hx
        exact ⟨x, block, by rw [ht, hx], hxstart, hkeep _ _ hblock, by rw [hme, hdata]⟩
      · exact ⟨y, block, by rw [hthreads, Function.update_of_ne ht, hy], hstart, hblock, hdata⟩
    · obtain ⟨block, hblock, -, hbuf⟩ := hsealed.msg msg (by rw [hpc]; rfl)
      obtain ⟨hme, hxstart⟩ := hmoves.keeps_me hth (by simp [hpc]) x hx
      rw [List.getLast?_eq_getElem?] at hblock
      refine ⟨x, block, hx, hxstart, hkeep _ _ hblock, ?_⟩
      rw [hme, hsealed.data msg c fd data [] hpc, hbuf, hpc]
      rfl

theorem sealed_step {a : Act} (hmode : cfg.encrypted = true) (hs : Sealing cfg s) (hok : Serves s a)
    (h : cfg.step s a = some s') : Sealed cfg s' := by
  have hc := hs.contents
  cases a with
  | thread t op =>
      unfold Cfg.step at h
      dsimp only at h
      split_ifs at h
      cases hth : s.threads t with
      | none =>
          simp only [hth] at h
          cases h
      | some th =>
          simp only [hth] at h
          exact sealed_thread hmode hs hth h
  | main =>
      cases step_does h with
      | setId | semInit | count => exact ⟨hc.threads, hc.logs⟩
      | create hmain =>
          have hnew : Thread.create.Sealed cfg :=
            ⟨by simp [Thread.create], by simp [Thread.create, Pc.msg], by simp [Thread.create]⟩
          refine ⟨fun t th hth => forall_threads_update hc.threads hnew t th hth, fun c d hd => ?_⟩
          obtain ⟨y, block, hy, hstart, hblock, hdata⟩ := hc.logs c d hd
          refine ⟨y, block, ?_, hstart, hblock, hdata⟩
          have hne : d.thread ≠ s.noClient := by
            intro heq
            rw [heq, hs.table.none_of_create hmain] at hy
            cases hy
          exact (put_threads_of_ne hne).trans hy
  | accept fd =>
      cases step_does h with
      | accept | full => exact ⟨hc.threads, hc.logs⟩
  | arrive k data =>
      cases step_does h with
      | arrive k data hk =>
          exact ⟨hc.threads, fun c d hd => hc.logs c d (mem_log_of_update k _ (by rfl) hd)⟩
  | hangup k =>
      cases step_does h with
      | hangup k hk =>
          exact ⟨hc.threads, fun c d hd => hc.logs c d (mem_log_of_update k _ (by rfl) hd)⟩

theorem sealing_step {a : Act} (hmode : cfg.encrypted = true) (hs : Sealing cfg s) (hok : Serves s a)
    (h : cfg.step s a = some s') : Sealing cfg s' where
  table := table_step hs.table h
  locked := locked_step hs.table hs.locked h
  opened := opened_step hs.table hs.opened hok h
  paced := paced_step hs.table hs.paced (hok.intact hs.opened hs.table) h
  streamed := streamed_step hs.table hs.locked hs.streamed (hok.intact hs.opened hs.table) h
  heard := heard_step_sealed hmode hs hok h
  bodiless := bodiless_step hmode hs.bodiless h
  contents := sealed_step hmode hs hok h
  widening := widening_step hs.table hs.widening h

end CryptodevChat.Server
