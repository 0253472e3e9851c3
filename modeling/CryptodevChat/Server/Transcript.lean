import CryptodevChat.Server.Arrivals
import CryptodevChat.Chat.RoundTrip

namespace CryptodevChat.Server

open Lib (Byte be fromBe Run)
open Chat (CString Env Fits World BUFF_SIZE lineFrame plainFrame message typed receive)

variable {cfg : Cfg} {s s' : State} {t : Nat} {th : Thread} {op : Op}

-- A client in plain mode, and the lines typed at it. They fit into the buffer of
-- `my_rlhandler`, which has its memory.
structure Client where
  env : Env
  prompt : CString
  lines : List CString
  plain : env.encrypted = false
  alloc : env.mallocs BUFF_SIZE = true
  fits : ∀ line ∈ lines, line.bytes ≠ [] → Fits false prompt line

-- The bytes that its calls of `my_rlhandler` write to the socket.
def Client.wire (client : Client) : List Byte :=
  client.lines.flatMap (lineFrame client.env client.prompt)

-- The messages of the lines that are sent.
def Client.messages (client : Client) : List (List Byte) :=
  (typed client.lines).map (message client.prompt)

-- A message with its size in front.
def framed (message : List Byte) : List Byte := be 4 message.length ++ message

theorem mem_typed {lines : List CString} {line : CString} (h : line ∈ typed lines) :
    line ∈ lines ∧ line.bytes ≠ [] := by
  obtain ⟨hmem, hne⟩ := List.mem_filter.mp h
  exact ⟨hmem, of_decide_eq_true hne⟩

theorem Client.lineFrame_eq (client : Client) (line : CString) (hline : line ∈ typed client.lines) :
    lineFrame client.env client.prompt line = framed (message client.prompt line) := by
  obtain ⟨hmem, hne⟩ := mem_typed hline
  have hfit := client.fits line hmem hne
  simp only [Fits, Bool.false_eq_true, if_false] at hfit
  obtain ⟨o, hrun, hsent, -⟩ := Chat.myRlhandler_plain client.env client.prompt line 0 World.fresh
    client.plain client.alloc hne (by omega) (by intro t ht; cases ht)
  rw [lineFrame, hrun]
  simpa [World.fresh, plainFrame, framed] using hsent

theorem Client.wire_eq (client : Client) : client.wire = (client.messages.map framed).flatten := by
  rw [wire, Chat.flatMap_typed, messages, List.map_map, List.flatMap_def]
  congr 1
  exact List.map_congr_left client.lineFrame_eq

-- A message is not empty, and fits into the buffer of `get_and_print`.
theorem Client.message_bounds (client : Client) (m : List Byte) (hm : m ∈ client.messages) :
    0 < m.length ∧ m.length + 4 ≤ BUFF_SIZE := by
  obtain ⟨line, hline, rfl⟩ := List.mem_map.mp hm
  obtain ⟨hmem, hne⟩ := mem_typed hline
  have hfit := client.fits line hmem hne
  simp only [Fits, Bool.false_eq_true, if_false] at hfit
  rw [Chat.message_length]
  omega

theorem Client.isFrame (client : Client) : ∀ frame ∈ client.messages.map framed, IsFrame frame := by
  intro frame hframe
  obtain ⟨m, hm, rfl⟩ := List.mem_map.mp hframe
  have hbounds := client.message_bounds m hm
  simp only [BUFF_SIZE] at hbounds
  exact ⟨m, rfl, hbounds.1, by omega⟩

-- A call of `get_and_print` that finds this frame shows this message.
def Displays (receiver : Env) (frame m : List Byte) : Prop :=
  ∀ (buf : List Byte) (sd : Nat) (w : World) (rest : List Byte), buf.length = BUFF_SIZE →
    (w.inp sd).Reliable → (w.out 0).Reliable → (w.inp sd).pending = frame ++ rest →
    ∃ buf' w', Chat.getAndPrint receiver buf sd w = .ok (0, buf') w' ∧ buf'.length = BUFF_SIZE ∧
      Chat.Shows sd m rest w w'

theorem displays_plain (receiver : Env) (hmode : receiver.encrypted = false) (m : List Byte)
    (hpos : 0 < m.length) (hfit : m.length + 4 ≤ BUFF_SIZE) : Displays receiver (framed m) m := by
  intro buf sd w rest hbuf hin hout hp
  have hmax : BUFF_SIZE = 300 := rfl
  obtain ⟨buf', w', hrun, hlen, hshows⟩ := Chat.getAndPrint_plain receiver hmode buf m rest sd w hin hout
    (by simpa [framed] using hp) hpos (by omega) (by omega)
  exact ⟨buf', w', hrun, hlen.trans hbuf, hshows⟩

-- Frames in a row are shown call by call, and what is behind them is left.
theorem receive_items {α : Type} (receiver : Env) (sd : Nat) (frame m : α → List Byte) (items : List α)
    (hshow : ∀ e ∈ items, Displays receiver (frame e) (m e)) (tail buf : List Byte) (v : World)
    (hbuf : buf.length = BUFF_SIZE) (hin : (v.inp sd).Reliable) (hout : (v.out 0).Reliable)
    (hp : (v.inp sd).pending = items.flatMap frame ++ tail) :
    ∃ buf' v', receive receiver sd items.length buf v = .ok (List.replicate items.length 0, buf') v' ∧
      Chat.Shows sd (items.flatMap m) tail v v' := by
  induction items generalizing buf v with
  | nil => exact ⟨buf, v, rfl, ⟨by simpa using hp, hin, by simp, hout⟩⟩
  | cons e rest ih =>
      obtain ⟨hfirst, hrest⟩ := List.forall_mem_cons.mp hshow
      obtain ⟨mid, w, hrun, hmid, hshows⟩ := hfirst buf sd v (rest.flatMap frame ++ tail) hbuf hin hout
        (by simpa using hp)
      obtain ⟨buf', v', hmore, hshows'⟩ := ih hrest mid w hmid hshows.reliableIn hshows.reliableOut
        hshows.pending
      refine ⟨buf', v', Chat.receive_cons receiver sd _ buf mid buf' v w v' 0 _ hrun hmore,
        hshows'.pending, hshows'.reliableIn, ?_, hshows'.reliableOut⟩
      rw [hshows'.shown, hshows.shown, List.append_assoc, List.flatMap_cons]

-- The first calls show the first items.
theorem receive_first {α : Type} (receiver : Env) (sd calls : Nat) (frame m : α → List Byte) (items : List α)
    (hshow : ∀ e ∈ items, Displays receiver (frame e) (m e)) (tail buf : List Byte) (v : World)
    (hbuf : buf.length = BUFF_SIZE) (hin : (v.inp sd).Reliable) (hout : (v.out 0).Reliable)
    (hp : (v.inp sd).pending = items.flatMap frame ++ tail) (hcalls : calls ≤ items.length) :
    ∃ buf' v', receive receiver sd calls buf v = .ok (List.replicate calls 0, buf') v' ∧
      (v'.out 0).sent = (v.out 0).sent ++ (items.take calls).flatMap m := by
  have htake : (items.take calls).length = calls := by rw [List.length_take]; omega
  obtain ⟨buf', v', hrun, hshows⟩ := receive_items receiver sd frame m (items.take calls)
    (fun e he => hshow e (List.mem_of_mem_take he)) ((items.drop calls).flatMap frame ++ tail) buf v hbuf
    hin hout (by rw [hp, ← List.append_assoc, ← List.flatMap_append, List.take_append_drop])
  rw [htake] at hrun
  exact ⟨buf', v', hrun, hshows.shown⟩

-- Whose message a delivery carries, and which one of theirs it is.
def State.origin (s : State) (d : Delivery) : Nat × Nat :=
  (((s.threads d.thread).map (·.me)).getD 0, d.frame)

-- The messages that were sent to a client to their end.
def State.transcript (s : State) (c : Nat) : List (Nat × Nat) := (s.conns c).log.map s.origin

def said (clients : Nat → Client) (e : Nat × Nat) : List Byte := (clients e.1).messages.getD e.2 []

-- Who has sent something has taken its identity.
theorem Paced.started (hp : Paced s) {c : Nat} {d : Delivery} (hd : d ∈ (s.conns c).log) :
    ∃ th, s.threads d.thread = some th ∧ th.me ≠ c ∧ th.pc ≠ .start := by
  obtain ⟨th, hth, hme⟩ := hp.sender hd
  refine ⟨th, hth, hme, fun hstart => ?_⟩
  have hmem : d.frame ∈ th.owed c := by
    have howed := hp.delivered c d.thread
    simp only [State.owed, hth] at howed
    rw [← howed]
    exact List.mem_map.mpr ⟨d, List.mem_filter.mpr ⟨hd, by simp⟩, rfl⟩
  simp [Thread.owed, (hp.threads _ th hth).fresh hstart, hstart, Pc.passed] at hmem

theorem Heard.origin_eq (hh : Heard s) (hp : Paced s) {c : Nat} {d : Delivery} (hd : d ∈ (s.conns c).log)
    (hth : s.threads t = some th) (hstart : th.pc ≠ .start) :
    (s.origin d).1 = th.me ↔ d.thread = t := by
  obtain ⟨y, hy, -, hyp⟩ := hp.started hd
  unfold State.origin
  rw [hy]
  constructor
  · intro hme
    exact hh.alone _ _ y th hy hth hyp hstart (by simpa using hme)
  · rintro rfl
    cases hy.symm.trans hth
    rfl

-- What the deliveries to a client carry was typed at another one.
theorem Serving.carries_said (h : Serving s) (clients : Nat → Client)
    (htyped : ∀ k, (s.conns k).came <+: (clients k).wire) {c : Nat} {d : Delivery}
    (hd : d ∈ (s.conns c).log) :
    (s.origin d).1 ≠ c ∧ (s.origin d).2 < (clients (s.origin d).1).messages.length ∧
      d.data = framed (said clients (s.origin d)) := by
  obtain ⟨th, hth, hme, hstart⟩ := h.paced.started hd
  obtain ⟨y, hy, hframe⟩ := h.carried.logs c d hd
  cases hth.symm.trans hy
  have horigin : s.origin d = (th.me, d.frame) := by
    unfold State.origin
    rw [hth]
    rfl
  have hwire := htyped th.me
  rw [(clients th.me).wire_eq] at hwire
  obtain ⟨more, hmore⟩ := h.frames_prefix hth hstart _ (clients th.me).isFrame hwire
  obtain ⟨hlt, -⟩ := List.getElem?_eq_some_iff.mp hframe
  have hsame : ((clients th.me).messages.map framed)[d.frame]? = some d.data := by
    rw [← hmore, List.getElem?_append_left hlt, hframe]
  rw [List.getElem?_map] at hsame
  obtain ⟨m, hm, hdata⟩ := Option.map_eq_some_iff.mp hsame
  obtain ⟨hbound, -⟩ := List.getElem?_eq_some_iff.mp hm
  rw [horigin]
  refine ⟨hme, hbound, ?_⟩
  rw [← hdata, said, List.getD_eq_getElem?_getD, hm]
  rfl

-- A client gets the messages of a sender from one of them on, in order and without a gap, and
-- all of them if it was there when the first one went out.
def State.Consecutive (s : State) (c a : Nat) : Prop := ∃ first count,
  ((s.transcript c).filter (·.1 = a)).map (·.2) = List.range' first count ∧
  ∀ t th, s.threads t = some th → th.pc ≠ .start → th.me = a →
    th.ends.length ≤ first + count ∧ ((∀ b ∈ th.began.head?, c < b) → first = 0)

-- What one client sees of a chat.
structure Follows (clients : Nat → Client) (s : State) (c : Nat) : Prop where
  others : ∀ e ∈ s.transcript c, e.1 ≠ c ∧ e.2 < (clients e.1).messages.length
  consecutive : ∀ a ≠ c, s.Consecutive c a
  shown : ∀ (receiver : Env) (sd calls : Nat) (buf : List Byte) (v : World),
    receiver.encrypted = false → buf.length = BUFF_SIZE → (v.inp sd).Reliable → (v.out 0).Reliable →
    (v.inp sd).pending = (s.conns c).sent → calls ≤ (s.transcript c).length →
    ∃ buf' v', receive receiver sd calls buf v = .ok (List.replicate calls 0, buf') v' ∧
      (v'.out 0).sent = (v.out 0).sent ++ ((s.transcript c).take calls).flatMap (said clients)

-- The messages of one sender reach a client without a gap.
theorem Heard.consecutive (hh : Heard s) (hp : Paced s) (hw : Widening s) (c a : Nat) (hne : a ≠ c) :
    s.Consecutive c a := by
  by_cases hsender : ∃ t th, s.threads t = some th ∧ th.pc ≠ .start ∧ th.me = a
  · obtain ⟨t, th, hth, hstart, rfl⟩ := hsender
    have hthread : (s.conns c).log.filter (fun d => (s.origin d).1 = th.me) =
        (s.conns c).log.filter (·.thread = t) := by
      refine List.filter_congr fun d hd => ?_
      rw [decide_eq_decide]
      exact hh.origin_eq hp hd hth hstart
    have hlist : ((s.transcript c).filter (·.1 = th.me)).map (·.2) = th.owed c := by
      have howed : s.owed t c = th.owed c := by simp only [State.owed, hth]
      rw [← howed, ← hp.delivered c t, ← hthread, State.transcript, List.filter_map, List.map_map]
      rfl
    have hmissed := th.missed_le c
    refine ⟨_, _, hlist.trans (owed_eq_range (hw t th hth) hne.symm), fun u y hy hyp hme => ?_⟩
    cases hh.alone u t y th hy hth hyp hstart hme
    cases hy.symm.trans hth
    exact ⟨by omega, missed_eq_zero (hw t th hth) (hp.threads t th hth)⟩
  · have hnone : (s.transcript c).filter (·.1 = a) = [] := by
      rw [List.filter_eq_nil_iff]
      intro e he
      obtain ⟨d, hd, rfl⟩ := List.mem_map.mp he
      obtain ⟨th, hth, -, hstart⟩ := hp.started hd
      intro horigin
      refine hsender ⟨d.thread, th, hth, hstart, ?_⟩
      rw [← (hh.origin_eq hp hd hth hstart).mpr rfl]
      simpa using horigin
    refine ⟨0, 0, by rw [hnone]; rfl, fun t th hth hstart hme => absurd ⟨t, th, hth, hstart, hme⟩ hsender⟩

theorem Serving.follows (h : Serving s) (hw : Widening s) (clients : Nat → Client)
    (htyped : ∀ k, (s.conns k).came <+: (clients k).wire) (c : Nat) : Follows clients s c where
  others := by
    intro e he
    obtain ⟨d, hd, rfl⟩ := List.mem_map.mp he
    have hsaid := h.carries_said clients htyped hd
    exact ⟨hsaid.1, hsaid.2.1⟩
  consecutive := fun a => h.heard.consecutive h.paced hw c a
  shown := by
    intro receiver sd calls buf v hmode hbuf hin hout hp hcalls
    obtain ⟨done, hsent, -⟩ := h.broadcasts.stream c
    have hsaid := fun d hd => h.carries_said clients htyped (c := c) (d := d) hd
    have hwhole : (s.conns c).whole = (s.transcript c).flatMap fun e => framed (said clients e) := by
      rw [State.transcript, Conn.whole, List.flatMap_map]
      exact List.flatMap_congr fun d hd => (hsaid d hd).2.2
    refine receive_first receiver sd calls _ (said clients) (s.transcript c) (fun e he => ?_) done buf v hbuf
      hin hout (by rw [hp, hsent, hwhole]) hcalls
    obtain ⟨d, hd, rfl⟩ := List.mem_map.mp he
    obtain ⟨hpos, hfit⟩ := (clients (s.origin d).1).message_bounds (said clients (s.origin d)) (by
      rw [said, List.getD_eq_getElem _ _ (hsaid d hd).2.1]
      exact List.getElem_mem _)
    exact displays_plain receiver hmode _ hpos hfit

-- From the lines typed at the clients to what each of them shows, whatever the order of the
-- steps of the server, and however the transports cut the bytes.
theorem follows_of_run (cfg : Cfg) (hplain : cfg.encrypted = false) (clients : Nat → Client)
    (actions : List Act) (s : State) (run : Run cfg.step Serves State.boot actions s)
    (htyped : ∀ k, arrivals k actions <+: (clients k).wire) (c : Nat) : Follows clients s c := by
  obtain ⟨hserving, hwidening⟩ : Serving s ∧ Widening s := by
    apply run.invariant (I := fun s => Serving s ∧ Widening s) ⟨serving_boot, widening_boot⟩
    rintro s a u ⟨h, hw⟩ hok hstep
    exact ⟨serving_step hplain h hok hstep, widening_step h.table hw hstep⟩
  refine hserving.follows hwidening clients (fun k => ?_) c
  rw [came_of_run run]
  exact htyped k

-- Somebody types a line, and somebody else only reads.
def pair : Nat → Client
  | 0 => ⟨Chat.plainEnv, Chat.promptMe, [Chat.lineEmpty, Chat.lineHi], rfl, rfl, by decide⟩
  | _ + 1 => ⟨Chat.plainEnv, Chat.promptMe, [], rfl, rfl, by simp⟩

def pairRun : List Act :=
  [.accept 4, .main, .main, .main, .main, .thread 0 .go, .thread 0 .go,
    .accept 5, .main, .main, .main, .main, .thread 1 .go, .thread 1 .go,
    .arrive 0 [0, 0, 0], .thread 0 (.read 3), .arrive 0 [6, 0x6d, 0x65, 0x3a, 0x68, 0x69, 0x0a],
    .thread 0 (.read 1), .thread 0 .go, .thread 0 (.read 6), .thread 0 .go, .thread 0 (.write 6),
    .thread 0 .go, .thread 0 .go, .thread 0 .go, .thread 0 .go, .thread 0 .go, .thread 0 (.write 10),
    .thread 0 .go]

theorem pairRun_follows :
    ∃ s, Run plain.step Serves State.boot pairRun s ∧ s.transcript 1 = [(0, 0)] ∧ Follows pair s 1 := by
  obtain ⟨s, run, hs⟩ := Run.of_guarded plain.step Serves State.boot pairRun
    (fun s => decide (s.transcript 1 = [(0, 0)])) (by decide +kernel)
  refine ⟨s, run, of_decide_eq_true hs, follows_of_run plain rfl pair pairRun s run (fun k => ?_) 1⟩
  cases k with
  | zero => exact ⟨[], by decide +kernel⟩
  | succ k => simp [arrivals, pairRun, Act.brings]

end CryptodevChat.Server
