import CryptodevChat.Server.Sealed

namespace CryptodevChat.Server

open Lib (Byte be fromBe Run PrefixFree)
open Chat (CString Env Cipher Fits World BUFF_SIZE DATA_SIZE pad lineFrame plainFrame message typed receive)

variable {cfg : Cfg} {s s' : State} {t : Nat} {th : Thread} {op : Op}

-- A client in encrypted mode, and the lines typed at it. Its device works as the one of the
-- server, and each message fits into a block.
structure SealedClient (cfg : Cfg) where
  env : Env
  prompt : CString
  lines : List CString
  cipher : Cipher env.dev
  mode : env.encrypted = true
  alloc : env.mallocs BUFF_SIZE = true
  enc : cipher.enc = cfg.enc
  dec : cipher.dec = cfg.dec
  fits : ∀ line ∈ lines, line.bytes ≠ [] → Fits true prompt line

def SealedClient.wire (client : SealedClient cfg) : List Byte :=
  client.lines.flatMap (lineFrame client.env client.prompt)

def SealedClient.messages (client : SealedClient cfg) : List (List Byte) :=
  (typed client.lines).map (message client.prompt)

-- The block that carries a message.
def Cfg.box (cfg : Cfg) (m : List Byte) : List Byte := cfg.enc (pad (framed m))

theorem SealedClient.message_bounds (client : SealedClient cfg) (m : List Byte) (hm : m ∈ client.messages) :
    0 < m.length ∧ m.length + 4 ≤ DATA_SIZE := by
  obtain ⟨line, hline, rfl⟩ := List.mem_map.mp hm
  obtain ⟨hmem, hne⟩ := mem_typed hline
  have hfit := client.fits line hmem hne
  simp only [Fits, if_true] at hfit
  rw [Chat.message_length]
  omega

theorem SealedClient.lineFrame_eq (client : SealedClient cfg) (line : CString)
    (hline : line ∈ typed client.lines) :
    lineFrame client.env client.prompt line = cfg.box (message client.prompt line) := by
  obtain ⟨hmem, hne⟩ := mem_typed hline
  have hfit := client.fits line hmem hne
  simp only [Fits, if_true] at hfit
  obtain ⟨o, hrun, hsent, -⟩ := Chat.myRlhandler_encrypted client.env client.prompt line 0 World.fresh
    client.mode client.cipher client.alloc hne (by omega) (by intro t ht; cases ht)
  rw [lineFrame, hrun]
  rw [client.enc] at hsent
  simpa [World.fresh, plainFrame, framed, Cfg.box] using hsent

theorem SealedClient.wire_eq (client : SealedClient cfg) :
    client.wire = (client.messages.map cfg.box).flatten := by
  rw [wire, Chat.flatMap_typed, messages, List.map_map, List.flatMap_def]
  congr 1
  exact List.map_congr_left client.lineFrame_eq

theorem framed_length (m : List Byte) : (framed m).length = m.length + 4 := by
  rw [framed, List.length_append, Lib.be_length]
  omega

-- A box is a block, and holds its message.
theorem SealedClient.box_spec (client : SealedClient cfg) (m : List Byte) (hm : m ∈ client.messages) :
    (cfg.box m).length = DATA_SIZE ∧ cfg.dec (cfg.box m) = pad (framed m) := by
  have hbounds := client.message_bounds m hm
  have hpad := Chat.pad_length (framed m) (by rw [framed_length]; omega)
  rw [Cfg.box, ← client.enc, ← client.dec]
  exact ⟨client.cipher.enc_length _ hpad, client.cipher.dec_enc _ hpad⟩

theorem announced_pad (m : List Byte) (h : m.length + 4 ≤ DATA_SIZE) :
    fromBe ((pad (framed m)).take 4) = m.length ∧ (pad (framed m)).take (m.length + 4) = framed m := by
  constructor
  · rw [pad, framed, List.append_assoc, List.take_left' (Lib.be_length ..), Lib.fromBe_be]
    simp only [DATA_SIZE] at h
    exact Nat.mod_eq_of_lt (by omega)
  · rw [pad, List.take_left' (framed_length m)]

-- The first round makes the block that was read again.
theorem SealedClient.image_one (client : SealedClient cfg) (m : List Byte) (hm : m ∈ client.messages) :
    cfg.image (cfg.box m) 1 = cfg.box m := by
  obtain ⟨hsize, htake⟩ := announced_pad m (client.message_bounds m hm).2
  obtain ⟨-, hdec⟩ := client.box_spec m hm
  have hannounced : cfg.announced (cfg.box m) = m.length := by rw [Cfg.announced, hdec, hsize]
  show cfg.again (cfg.announced (cfg.box m)) (cfg.dec (cfg.box m)) = cfg.box m
  rw [hannounced, hdec, Cfg.again, htake, Cfg.box]

theorem block_prefixFree : PrefixFree (fun block : List Byte => block.length = DATA_SIZE) where
  nonempty := by decide
  eq_of_prefix := fun u v hu hv h => h.eq_of_length (hu.trans hv.symm)

def told (clients : Nat → SealedClient cfg) (e : Nat × Nat) : List Byte :=
  (clients e.1).messages.getD e.2 []

-- What the deliveries to a client are made of was typed at another one.
theorem Sealing.carries_told (h : Sealing cfg s) (clients : Nat → SealedClient cfg)
    (htyped : ∀ k, (s.conns k).came <+: (clients k).wire) {c : Nat} {d : Delivery}
    (hd : d ∈ (s.conns c).log) :
    (s.origin d).1 ≠ c ∧ (s.origin d).2 < (clients (s.origin d).1).messages.length ∧
      d.data = cfg.image (cfg.box (told clients (s.origin d))) (rank (s.origin d).1 c + 1) := by
  obtain ⟨th, hth, hme, hstart⟩ := h.paced.started hd
  obtain ⟨y, block, hy, -, hblock, hdata⟩ := h.contents.logs c d hd
  cases hth.symm.trans hy
  have horigin : s.origin d = (th.me, d.frame) := by
    unfold State.origin
    rw [hth]
    rfl
  obtain ⟨tail, htail, -⟩ := h.heard.heard d.thread th hth hstart
  have hboxes : ∀ f ∈ (clients th.me).messages.map cfg.box, f.length = DATA_SIZE := by
    intro f hf
    obtain ⟨m, hm, rfl⟩ := List.mem_map.mp hf
    exact ((clients th.me).box_spec m hm).1
  have hflat : th.frames.flatten <+: ((clients th.me).messages.map cfg.box).flatten := by
    rw [← (clients th.me).wire_eq]
    refine List.IsPrefix.trans ⟨tail ++ (s.conns th.me).pending, ?_⟩ (htyped th.me)
    rw [Conn.came, htail, List.append_assoc]
  obtain ⟨more, hmore⟩ := block_prefixFree.flatten_prefix _ _
    (h.contents.threads d.thread th hth).blocks hboxes hflat
  obtain ⟨hlt, -⟩ := List.getElem?_eq_some_iff.mp hblock
  have hsame : ((clients th.me).messages.map cfg.box)[d.frame]? = some block := by
    rw [← hmore, List.getElem?_append_left hlt, hblock]
  rw [List.getElem?_map] at hsame
  obtain ⟨m, hm, hbox⟩ := Option.map_eq_some_iff.mp hsame
  obtain ⟨hbound, -⟩ := List.getElem?_eq_some_iff.mp hm
  rw [horigin]
  refine ⟨hme, hbound, ?_⟩
  rw [hdata, ← hbox, told, List.getD_eq_getElem?_getD, hm]
  rfl

theorem displays_box (receiver : Env) (hmode : receiver.encrypted = true) (cipher : Cipher receiver.dev)
    (hdec : cipher.dec = cfg.dec) (client : SealedClient cfg) (m : List Byte) (hm : m ∈ client.messages) :
    Displays receiver (cfg.box m) m := by
  intro buf sd w rest hbuf hin hout hp
  obtain ⟨hlen, hopen⟩ := client.box_spec m hm
  obtain ⟨buf', w', hrun, hlen', hshows⟩ := Chat.getAndPrint_encrypted receiver hmode cipher buf
    (cfg.box m) m rest sd w hin hout hlen (by rw [hdec, hopen, framed]) hp (client.message_bounds m hm).2
    (by rw [hbuf]; decide)
  exact ⟨buf', w', hrun, hlen'.trans hbuf, hshows⟩

-- What one client sees of an encrypted chat. The loop of `forward` encrypts in place, so that
-- only the first client in each loop can read what it gets.
structure FollowsSealed (clients : Nat → SealedClient cfg) (s : State) (c : Nat) : Prop where
  others : ∀ e ∈ s.transcript c, e.1 ≠ c ∧ e.2 < (clients e.1).messages.length
  consecutive : ∀ a ≠ c, s.Consecutive c a
  images : (s.conns c).whole =
    (s.transcript c).flatMap fun e => cfg.image (cfg.box (told clients e)) (rank e.1 c + 1)
  shown : (∀ e ∈ s.transcript c, rank e.1 c = 0) →
    ∀ (receiver : Env) (cipher : Cipher receiver.dev) (sd calls : Nat) (buf : List Byte) (v : World),
    receiver.encrypted = true → cipher.dec = cfg.dec → buf.length = BUFF_SIZE → (v.inp sd).Reliable →
    (v.out 0).Reliable → (v.inp sd).pending = (s.conns c).sent → calls ≤ (s.transcript c).length →
    ∃ buf' v', receive receiver sd calls buf v = .ok (List.replicate calls 0, buf') v' ∧
      (v'.out 0).sent = (v.out 0).sent ++ ((s.transcript c).take calls).flatMap (told clients)

theorem Streamed.starts {c : Nat} (h : Streamed s c) : ∃ done, (s.conns c).sent = (s.conns c).whole ++ done := by
  cases h with
  | idle hnone hsent => exact ⟨[], by rw [List.append_nil, hsent]⟩
  | writing t data rest done hsending hdata hsent => exact ⟨done, hsent⟩

theorem Sealing.follows (h : Sealing cfg s) (clients : Nat → SealedClient cfg)
    (htyped : ∀ k, (s.conns k).came <+: (clients k).wire) (c : Nat) : FollowsSealed clients s c := by
  have htold := fun d hd => h.carries_told clients htyped (c := c) (d := d) hd
  have himages : (s.conns c).whole =
      (s.transcript c).flatMap fun e => cfg.image (cfg.box (told clients e)) (rank e.1 c + 1) := by
    rw [State.transcript, Conn.whole, List.flatMap_map]
    exact List.flatMap_congr fun d hd => (htold d hd).2.2
  refine ⟨?_, fun a => h.heard.consecutive h.paced h.widening c a, himages, ?_⟩
  · intro e he
    obtain ⟨d, hd, rfl⟩ := List.mem_map.mp he
    exact ⟨(htold d hd).1, (htold d hd).2.1⟩
  · intro hrank receiver cipher sd calls buf v hmode hdec hbuf hin hout hp hcalls
    have hmem : ∀ e ∈ s.transcript c, told clients e ∈ (clients e.1).messages := by
      intro e he
      obtain ⟨d, hd, rfl⟩ := List.mem_map.mp he
      rw [told, List.getD_eq_getElem _ _ (htold d hd).2.1]
      exact List.getElem_mem _
    obtain ⟨done, hsent⟩ := (h.streamed c).starts
    have hboxes : (s.conns c).whole = (s.transcript c).flatMap fun e => cfg.box (told clients e) := by
      rw [himages]
      refine List.flatMap_congr fun e he => ?_
      rw [hrank e he]
      exact (clients e.1).image_one _ (hmem e he)
    refine receive_first receiver sd calls _ (told clients) (s.transcript c) (fun e he => ?_) done buf v hbuf
      hin hout (by rw [hp, hsent, hboxes]) hcalls
    exact displays_box receiver hmode cipher hdec (clients e.1) _ (hmem e he)

-- Only counted clients get something.
theorem Paced.counted (hp : Paced s) (hs : Table s) (hw : Widening s) {c : Nat} {d : Delivery}
    (hd : d ∈ (s.conns c).log) : c < s.noClient := by
  have hmem : d.frame ∈ s.owed d.thread c := by
    rw [← hp.delivered c d.thread]
    exact List.mem_map.mpr ⟨d, List.mem_filter.mpr ⟨hd, by simp⟩, rfl⟩
  obtain ⟨th, hth, -, -⟩ := hp.started hd
  have hpl := hs.placed _ th hth
  have hpassed : th.pc.passed ≤ s.noClient := by
    cases hpc : th.pc with
    | test msg client => exact hpl.tested msg client hpc
    | wait msg client | hold msg client | send msg client fd data rest =>
        exact (hpl.visited client (by rw [hpc]; rfl)).1.le
    | post msg client => exact (hpl.visited client (by rw [hpc]; rfl)).1
    | _ => exact Nat.zero_le _
  simp only [State.owed, hth] at hmem
  unfold Thread.owed at hmem
  split_ifs at hmem with hme hlt
  · cases hmem
  · omega
  · rw [List.append_nil] at hmem
    obtain ⟨e, he, -⟩ := List.mem_map.mp hmem
    obtain ⟨hzip, hc⟩ := List.mem_filter.mp he
    have hend := (hw _ th hth).counted e.1 (List.fst_mem_of_mem_zipIdx hzip)
    have hc := of_decide_eq_true hc
    omega

-- With two connections at most, or at the first one, every delivery is the first in its loop.
theorem Sealing.rank_zero (h : Sealing cfg s) (c : Nat) (hfew : c = 0 ∨ s.nconn ≤ 2) (e : Nat × Nat)
    (he : e ∈ s.transcript c) : rank e.1 c = 0 := by
  obtain ⟨d, hd, rfl⟩ := List.mem_map.mp he
  obtain ⟨th, hth, hme, hstart⟩ := h.paced.started hd
  have horigin : (s.origin d).1 = th.me := by
    unfold State.origin
    rw [hth]
    rfl
  have hjoined := (h.table.placed _ th hth).joined.resolve_left hstart
  have hcounted := h.paced.counted h.table h.widening hd
  have hle := h.table.count_le
  rw [horigin, rank]
  split_ifs with hlt <;> omega

-- From the lines typed at the clients to what each of them gets, whatever the order of the steps
-- of the server. The client with the lowest number reads everything, and of two clients both do.
theorem follows_sealed_of_run (cfg : Cfg) (hmode : cfg.encrypted = true) (clients : Nat → SealedClient cfg)
    (actions : List Act) (s : State) (run : Run cfg.step Serves State.boot actions s)
    (htyped : ∀ k, arrivals k actions <+: (clients k).wire) (c : Nat) :
    FollowsSealed clients s c ∧ (c = 0 ∨ s.nconn ≤ 2 → ∀ e ∈ s.transcript c, rank e.1 c = 0) := by
  have hsealing : Sealing cfg s :=
    run.invariant (sealing_boot cfg) fun s a u h hok hstep => sealing_step hmode h hok hstep
  refine ⟨hsealing.follows clients (fun k => ?_) c, fun hfew e he => hsealing.rank_zero c hfew e he⟩
  rw [came_of_run run]
  exact htyped k

def greetingCfg : Cfg := ⟨true, Chat.greetingCipher.enc, Chat.greetingCipher.dec⟩

-- Somebody types a line, and somebody else only reads.
def sealedPair : Nat → SealedClient greetingCfg
  | 0 => ⟨Chat.greetingEnv, Chat.promptMe, [Chat.lineHi], Chat.greetingCipher, rfl, rfl, rfl, rfl, by decide⟩
  | _ + 1 => ⟨Chat.greetingEnv, Chat.promptMe, [], Chat.greetingCipher, rfl, rfl, rfl, rfl, by simp⟩

def sealedRun : List Act :=
  [.accept 4, .main, .main, .main, .main, .thread 0 .go, .thread 0 .go,
    .accept 5, .main, .main, .main, .main, .thread 1 .go, .thread 1 .go,
    .arrive 0 (sealedPair 0).wire, .thread 0 (.read 200), .thread 0 (.read 56), .thread 0 .go,
    .thread 0 (.write 6), .thread 0 .go, .thread 0 .go, .thread 0 .go, .thread 0 .go, .thread 0 .go,
    .thread 0 (.write 256), .thread 0 .go]

theorem sealedRun_follows :
    ∃ s, Run greetingCfg.step Serves State.boot sealedRun s ∧ s.transcript 1 = [(0, 0)] ∧
      FollowsSealed sealedPair s 1 := by
  obtain ⟨s, run, hs⟩ := Run.of_guarded greetingCfg.step Serves State.boot sealedRun
    (fun s => decide (s.transcript 1 = [(0, 0)])) (by decide +kernel)
  refine ⟨s, run, of_decide_eq_true hs, ?_⟩
  refine (follows_sealed_of_run greetingCfg rfl sealedPair sealedRun s run (fun k => ?_) 1).1
  cases k with
  | zero => exact ⟨[], by simp [arrivals, sealedRun, Act.brings]⟩
  | succ k => simp [arrivals, sealedRun, Act.brings]

end CryptodevChat.Server
