import Mathlib.Data.List.TakeWhile
import CryptodevChat.Chat.Bounds
import CryptodevChat.Lib.Grammar

namespace CryptodevChat.Chat

open Lib

section Grammar

-- Four bytes that announce a size, and so many bytes behind them.
def IsFrame (frame : List Byte) : Prop := 4 ≤ frame.length ∧ frame.length = headerSize frame + 4

-- The complete frames at the start of a stream, up to some number.
def framesUpTo : Nat → List Byte → List (List Byte)
  | 0, _ => []
  | fuel + 1, stream =>
      if headerSize stream + 4 ≤ stream.length then
        stream.take (headerSize stream + 4) :: framesUpTo fuel (stream.drop (headerSize stream + 4))
      else []

def frames (stream : List Byte) : List (List Byte) := framesUpTo stream.length stream

theorem headerSize_append (frame rest : List Byte) (h : 4 ≤ frame.length) :
    headerSize (frame ++ rest) = headerSize frame := by
  rw [headerSize, headerSize, List.take_append_of_le_length h]

theorem isFrame_take (stream : List Byte) (h : headerSize stream + 4 ≤ stream.length) :
    IsFrame (stream.take (headerSize stream + 4)) := by
  have hlen : (stream.take (headerSize stream + 4)).length = headerSize stream + 4 := by
    rw [List.length_take]
    omega
  have hsize := headerSize_append _ (stream.drop (headerSize stream + 4))
    (show 4 ≤ (stream.take (headerSize stream + 4)).length by omega)
  rw [List.take_append_drop] at hsize
  exact ⟨by omega, by rw [← hsize, hlen]⟩

theorem isFrame_prefixFree : PrefixFree IsFrame where
  nonempty := fun h => absurd h.1 (by simp)
  eq_of_prefix := by
    rintro u v ⟨hu, hulen⟩ ⟨-, hvlen⟩ ⟨rest, rfl⟩
    rw [headerSize_append u rest hu, ← hulen] at hvlen
    have hrest : rest = [] := by simpa using hvlen
    rw [hrest, List.append_nil]

-- A stream that starts with a frame is long enough for what it announces.
theorem starts_iff (stream : List Byte) :
    (∃ frame, IsFrame frame ∧ frame <+: stream) ↔ headerSize stream + 4 ≤ stream.length := by
  constructor
  · rintro ⟨frame, ⟨hfour, hlen⟩, rest, rfl⟩
    rw [headerSize_append frame rest hfour, ← hlen, List.length_append]
    omega
  · intro h
    exact ⟨_, isFrame_take stream h, List.take_prefix _ _⟩

theorem framesUpTo_parse (fuel : Nat) (stream : List Byte) (hfuel : stream.length ≤ fuel) :
    Parse IsFrame stream (framesUpTo fuel stream) := by
  have hstop : ¬headerSize stream + 4 ≤ stream.length → Parse IsFrame stream [] := fun h =>
    .stop stream fun frame hframe hpre => h ((starts_iff stream).mp ⟨frame, hframe, hpre⟩)
  induction fuel generalizing stream with
  | zero => exact hstop (by omega)
  | succ fuel ih =>
      unfold framesUpTo
      split_ifs with h
      · have hrest := ih (stream.drop (headerSize stream + 4)) (by rw [List.length_drop]; omega)
          fun h => .stop _ fun frame hframe hpre => h ((starts_iff _).mp ⟨frame, hframe, hpre⟩)
        have hword := Parse.word _ _ _ (isFrame_take stream h) hrest
        rwa [List.take_append_drop] at hword
      · exact hstop h

theorem frames_eq_iff (stream : List Byte) (words : List (List Byte)) :
    Parse IsFrame stream words ↔ words = frames stream := by
  have hframes := framesUpTo_parse stream.length stream (Nat.le_refl _)
  constructor
  · intro h
    exact h.unique isFrame_prefixFree hframes
  · rintro rfl
    exact hframes

end Grammar

section Sending

variable (env : Env) (hmode : env.encrypted = false)
include hmode

theorem sendTo_plain (fd size : Nat) (buf frame : List Byte) (w : World)
    (hload : load buf 0 (size + 4) = some frame) (hout : (w.out fd).Reliable) :
    ∃ o, sendTo env fd size buf w = .ok buf (w.setOut fd o) ∧
      o.sent = (w.out fd).sent ++ frame ∧ o.Reliable := by
  have hlen := load_length _ _ _ _ hload
  obtain ⟨o, hw, hsent, hrel⟩ := insistWrite_full fd frame w hout
  refine ⟨o, ?_, hsent, hrel⟩
  unfold sendTo
  simp only [hmode, Bool.false_eq_true, if_false]
  rw [bind_ok _ _ _ _ _ (peek_run _ _ _ _ _ hload), bind_ok _ _ _ _ _ hw]
  simp [hlen]

-- What a distribution leaves: the frame is sent once to each recipient, and
-- everything else is as it was.
structure Distributed (clients : Clients) (targets : List Nat) (frame : List Byte) (w w' : World) :
    Prop where
  inp : w'.inp = w.inp
  locks : w'.locks = w.locks
  writes : ∀ fd, (w'.out fd).Reliable
  sent : ∀ client ∈ targets, (w'.out (clients.newsdServe client)).sent =
    (w.out (clients.newsdServe client)).sent ++ frame
  others : ∀ fd, (∀ client ∈ targets, clients.newsdServe client ≠ fd) → w'.out fd = w.out fd

theorem distribute_plain (clients : Clients) (me size : Nat) (slots : List Nat) (buf frame : List Byte)
    (w : World) (hload : load buf 0 (size + 4) = some frame) (hout : ∀ fd, (w.out fd).Reliable)
    (hlocks : ∀ client ∈ slots, w.locks client = 1) (hnodup : slots.Nodup)
    (hinj : ∀ i ∈ slots, ∀ j ∈ slots, clients.newsdServe i = clients.newsdServe j → i = j) :
    ∃ w', distribute env clients me size slots buf w = .ok () w' ∧
      Distributed clients (recipients me slots) frame w w' := by
  obtain ⟨w', hrun, hdone⟩ := distribute_shares env id (fun _ => frame)
    (fun buf => load buf 0 (size + 4) = some frame) clients me size (fun fd buf w hload hout => by
      obtain ⟨o, hsend, ho, hrel⟩ := sendTo_plain env hmode fd size buf frame w hload hout
      exact ⟨o, hsend, ho, hrel, hload⟩)
    slots buf w hload hout hlocks hnodup hinj
  refine ⟨w', hrun, hdone.inp, hdone.locks, hdone.writes, fun client hclient => ?_, hdone.others⟩
  exact hdone.sent (client, frame) (mem_shares_const id frame client _ buf hclient)

end Sending

section Receiving

variable (env : Env) (hmode : env.encrypted = false) (halloc : ∀ size, env.mallocs size = true)
  {clients : Clients} {sd : Nat} {w : World} (hserving : Serving clients sd w) (me : Nat)

include hserving in
theorem Serving.setInp (s : Source Byte) (hs : s.Reliable) : Serving clients sd (w.setInp sd s) where
  toTables := hserving.toTables.setInp sd s
  reads := by simpa using hs
  writes := hserving.writes

include hmode halloc hserving

-- A call that finds a header goes on to read the payload behind it.
theorem forward_header (hlen : 4 ≤ (w.inp sd).pending.length) :
    ∃ s buf, s.pending = (w.inp sd).pending.drop 4 ∧ s.Reliable ∧
      buf.length = 8 * (headerSize (w.inp sd).pending + 4) ∧
      buf.take 4 = (w.inp sd).pending.take 4 ∧
      forward env clients sd me w = (do
        let (n, buf) ← insistRead sd buf 4 (headerSize (w.inp sd).pending)
        if n < 0 then exit 1
        else if n ≤ 0 then return 1
        else relay env clients me (headerSize (w.inp sd).pending) buf) (w.setInp sd s) := by
  have hfour : ((w.inp sd).pending.take 4).length = 4 := by rw [List.length_take]; omega
  have hword := store_eq_some (env.junk 4) 0 ((w.inp sd).pending.take 4)
    (by rw [env.junk_length, hfour])
  obtain ⟨s, hread, hs, hrel⟩ := insistRead_full sd _ _ 0 4 w hserving.reads hlen hword
  rw [store_all _ _ _ hword (by rw [env.junk_length, hfour])] at hread
  have hheader : be 4 (headerSize (w.inp sd).pending) = (w.inp sd).pending.take 4 := by
    have h := be_fromBe ((w.inp sd).pending.take 4)
    rwa [hfour] at h
  have hblock := env.junk_length (8 * (headerSize (w.inp sd).pending + 4))
  obtain ⟨buf, hfirst⟩ : ∃ buf, store (env.junk (8 * (headerSize (w.inp sd).pending + 4))) 0
    ((w.inp sd).pending.take 4) = some buf := ⟨_, store_eq_some _ 0 _ (by omega)⟩
  have htake := take_store_add _ _ _ _ hfirst
  rw [Nat.zero_add, hfour, List.take_zero, List.nil_append] at htake
  refine ⟨s, buf, hs, hrel, (store_length _ _ _ _ hfirst).trans hblock, htake, ?_⟩
  unfold forward
  simp only [hmode, Bool.false_eq_true, if_false, Env.malloc, halloc, if_true]
  rw [bind_ok _ _ _ _ _ hread]
  dsimp only
  rw [after_full 4 (by omega), ← headerSize, hheader, bind_ok _ _ _ _ _ (poke_run _ _ _ _ _ hfirst)]

-- A whole frame with a payload is sent to the others.
theorem forward_frame (frame rest : List Byte) (hframe : IsFrame frame) (hsize : headerSize frame ≠ 0)
    (hp : (w.inp sd).pending = frame ++ rest) :
    ∃ w', forward env clients sd me w = .ok 0 w' ∧ Serving clients sd w' ∧
      (w'.inp sd).pending = rest ∧
      ∀ client ∈ recipients me (List.range clients.noClient),
        (w'.out (clients.newsdServe client)).sent =
          (w.out (clients.newsdServe client)).sent ++ frame := by
  obtain ⟨hfour, hlen⟩ := hframe
  have hheader := headerSize_append frame rest hfour
  obtain ⟨s, buf, hs, hrel, hbuf, htake, hforward⟩ := forward_header env hmode halloc hserving me
    (by rw [hp, List.length_append]; omega)
  rw [hp, hheader] at hforward hbuf
  rw [hp, List.drop_append_of_le_length hfour] at hs
  rw [hp, List.take_append_of_le_length hfour] at htake
  have hbody : (frame.drop 4).length = headerSize frame := by rw [List.length_drop]; omega
  -- The payload goes behind the header.
  obtain ⟨next, hstore⟩ : ∃ next, store buf 4 (frame.drop 4) = some next :=
    ⟨_, store_eq_some buf 4 _ (by omega)⟩
  have hnext := (store_length _ _ _ _ hstore).trans hbuf
  obtain ⟨s', hread, hs', hrel'⟩ := insistRead_full sd buf next 4 (headerSize frame) (w.setInp sd s)
    (by simpa using hrel) (by simp [hs, hbody]) (by simpa [hs, ← hbody] using hstore)
  rw [World.setInp_setInp] at hread
  have hpayload : load next 4 (headerSize frame) = some (frame.drop 4) := by
    rw [← hbody]
    exact load_store _ _ _ _ hstore
  have hwhole : load next 0 (headerSize frame + 4) = some frame := by
    have hall := take_store_add _ _ _ _ hstore
    rw [hbody, htake, List.take_append_drop, Nat.add_comm] at hall
    rw [load_eq_some next 0 _ (by omega), List.drop_zero, hall]
  have hserving' := hserving.setInp s' hrel'
  obtain ⟨o, hshow, -, ho⟩ := display_run next _ 4 (headerSize frame) (w.setInp sd s') hpayload
    (hserving'.writes 0)
  have hmem : ∀ i ∈ List.range clients.noClient, i < clients.noClient := fun i hi =>
    List.mem_range.mp hi
  have hout : ∀ fd, (((w.setInp sd s').setOut 0 o).out fd).Reliable :=
    World.setOut_reliable _ _ _ ho hserving.writes
  obtain ⟨w', hrun, hdone⟩ := distribute_plain env hmode clients me (headerSize frame)
    (List.range clients.noClient) next frame ((w.setInp sd s').setOut 0 o) hwhole hout
    (fun i hi => by simpa using hserving.free i (hmem i hi)) List.nodup_range
    (fun i hi j hj => hserving.distinct i (hmem i hi) j (hmem j hj))
  have hinp : w'.inp sd = s' := by
    rw [hdone.inp]
    simp
  refine ⟨w', ?_, ⟨⟨hserving.table, hserving.distinct, hserving.notStdout, fun i hi => ?_⟩, ?_,
    hdone.writes⟩, ?_, fun client hclient => ?_⟩
  · rw [hforward, bind_ok _ _ _ _ _ hread]
    dsimp only
    rw [after_full _ (by omega)]
    unfold relay
    rw [bind_ok _ _ _ _ _ hshow, bind_ok _ _ _ _ _ hrun]
    rfl
  · rw [hdone.locks]
    exact hserving.free i hi
  · rw [hinp]
    exact hrel'
  · rw [hinp, hs', World.setInp_inp, hs, ← hbody, List.drop_left' rfl]
  · have hne : clients.newsdServe client ≠ 0 :=
      hserving.notStdout client (hmem _ (List.mem_filter.mp hclient).1)
    rw [hdone.sent client hclient, World.setOut_out_ne _ _ _ _ hne, World.setInp_out]

-- A header of zero is taken for the end of the stream.
theorem forward_zero (frame rest : List Byte) (hframe : IsFrame frame) (hsize : headerSize frame = 0)
    (hp : (w.inp sd).pending = frame ++ rest) :
    ∃ s, forward env clients sd me w = .ok 1 (w.setInp sd s) := by
  obtain ⟨hfour, hlen⟩ := hframe
  have hheader := headerSize_append frame rest hfour
  obtain ⟨s, buf, -, -, -, -, hforward⟩ := forward_header env hmode halloc hserving me
    (by rw [hp, List.length_append]; omega)
  refine ⟨s, ?_⟩
  rw [hforward, hp, hheader, hsize]
  rfl

-- What is left of a frame that is cut off is read to its end.
theorem forward_short (hshort : ¬headerSize (w.inp sd).pending + 4 ≤ (w.inp sd).pending.length) :
    ∃ s, forward env clients sd me w = .ok 1 (w.setInp sd s) ∧ s.pending = [] := by
  by_cases hlen : 4 ≤ (w.inp sd).pending.length
  · obtain ⟨s, buf, hs, hrel, hbuf, -, hforward⟩ := forward_header env hmode halloc hserving me hlen
    have hrest : s.pending.length = (w.inp sd).pending.length - 4 := by rw [hs, List.length_drop]
    have hstore := store_eq_some buf 4 ((w.setInp sd s).inp sd).pending (by
      rw [World.setInp_inp]
      omega)
    obtain ⟨s', hread, hs', -⟩ := insistRead_eof sd buf _ 4 (headerSize (w.inp sd).pending)
      (w.setInp sd s) (by simpa using hrel) (by rw [World.setInp_inp]; omega) hstore
    refine ⟨s', ?_, hs'⟩
    rw [hforward, bind_ok _ _ _ _ _ hread, World.setInp_setInp]
    rfl
  · have hstore := store_eq_some (env.junk 4) 0 (w.inp sd).pending
      (by rw [env.junk_length]; omega)
    obtain ⟨s, hread, hs, -⟩ := insistRead_eof sd _ _ 0 4 w hserving.reads (by omega) hstore
    refine ⟨s, ?_, hs⟩
    unfold forward
    simp only [hmode, Bool.false_eq_true, if_false]
    rw [bind_ok _ _ _ _ _ hread]
    rfl

end Receiving

section Service

-- The loop of `client_service` for a number of rounds: how many calls of
-- `forward` did not return 1, and whether one did.
def clientService (env : Env) (clients : Clients) (clientSd id : Nat) : Nat → Proc (Nat × Bool)
  | 0 => return (0, false)
  | rounds + 1 => do
      let r ← forward env clients clientSd id
      if r = 1 then return (0, true)
      else
        let (n, ended) ← clientService env clients clientSd id rounds
        return (n + 1, ended)

-- So many calls have sent the first of these frames to the other clients, one
-- each and in order, and no call returns 1 before they are all sent.
def Sends (env : Env) (clients : Clients) (sd me : Nat) (w : World) (sent : List (List Byte))
    (rounds : Nat) (w' : World) : Prop :=
  clientService env clients sd me rounds w =
      .ok (min rounds sent.length, decide (sent.length < rounds)) w' ∧
    ∀ client ∈ recipients me (List.range clients.noClient),
      (w'.out (clients.newsdServe client)).sent =
        (w.out (clients.newsdServe client)).sent ++ (sent.take rounds).flatten

-- The frames of the stream are distributed, and the loop ends with the stream.
def ServesFrames (env : Env) (clients : Clients) (sd me : Nat) (w : World) : Prop :=
  ∀ rounds, ∃ w', Sends env clients sd me w (frames (w.inp sd).pending) rounds w' ∧
    ((frames (w.inp sd).pending).length < rounds → (w'.inp sd).pending = [])

variable (env : Env) (hmode : env.encrypted = false) (halloc : ∀ size, env.mallocs size = true)
  {clients : Clients} {sd : Nat} (me : Nat)

theorem service_ends (w : World) (s : Source Byte) (rounds : Nat)
    (h : forward env clients sd me w = .ok 1 (w.setInp sd s)) :
    Sends env clients sd me w [] (rounds + 1) (w.setInp sd s) := by
  refine ⟨?_, by simp⟩
  unfold clientService
  rw [bind_ok _ _ _ _ _ h]
  rfl

include hmode halloc

-- The frames up to the first one that announces nothing.
theorem service_sends (words : List (List Byte)) (w : World) (hserving : Serving clients sd w)
    (hparse : Parse IsFrame (w.inp sd).pending words) (rounds : Nat) :
    ∃ w', Sends env clients sd me w (words.takeWhile (headerSize · ≠ 0)) rounds w' ∧
      ((∀ frame ∈ words, headerSize frame ≠ 0) → words.length < rounds → (w'.inp sd).pending = []) := by
  generalize hp : (w.inp sd).pending = stream at hparse
  induction hparse generalizing w rounds with
  | stop text hnone =>
      cases rounds with
      | zero => exact ⟨w, ⟨rfl, by simp⟩, by simp⟩
      | succ rounds =>
          have hshort : ¬headerSize (w.inp sd).pending + 4 ≤ (w.inp sd).pending.length := by
            rw [hp, ← starts_iff]
            rintro ⟨frame, hframe, hpre⟩
            exact hnone frame hframe hpre
          obtain ⟨s, hcall, hs⟩ := forward_short env hmode halloc hserving me hshort
          exact ⟨_, service_ends env me w s rounds hcall, fun _ _ => by simpa using hs⟩
  | word frame text words hframe rest ih =>
      cases rounds with
      | zero => exact ⟨w, ⟨rfl, by simp⟩, by simp⟩
      | succ rounds =>
          by_cases hsize : headerSize frame = 0
          · obtain ⟨s, hcall⟩ := forward_zero env hmode halloc hserving me frame text hframe hsize hp
            rw [List.takeWhile_cons_of_neg (by simpa using hsize)]
            exact ⟨_, service_ends env me w s rounds hcall, fun h => absurd hsize (h frame (by simp))⟩
          · obtain ⟨w1, hcall, hserving1, hp1, hsent1⟩ :=
              forward_frame env hmode halloc hserving me frame text hframe hsize hp
            obtain ⟨w', ⟨hrun, hsent⟩, hend⟩ := ih w1 hserving1 rounds hp1
            rw [List.takeWhile_cons_of_pos (by simpa using hsize)]
            refine ⟨w', ⟨?_, fun client hclient => ?_⟩, fun h hlt => ?_⟩
            · unfold clientService
              rw [bind_ok _ _ _ _ _ hcall, if_neg (by decide), bind_ok _ _ _ _ _ hrun]
              simp [Nat.succ_min_succ]
            · rw [hsent client hclient, hsent1 client hclient, List.take_succ_cons, List.flatten_cons,
                List.append_assoc]
            · exact hend (fun frame hmem => h frame (List.mem_cons_of_mem _ hmem))
                (by simpa using hlt)

-- The server reads exactly the frames, unless one of them announces no byte:
-- that one ends the service.
theorem serves_frames_iff (w : World) (hserving : Serving clients sd w) :
    ServesFrames env clients sd me w ↔ ∀ frame ∈ frames (w.inp sd).pending, headerSize frame ≠ 0 := by
  have hsends := service_sends env hmode halloc me _ w hserving
    ((frames_eq_iff _ _).mpr rfl)
  unfold ServesFrames
  generalize frames (w.inp sd).pending = words at hsends ⊢
  have hgood : words.takeWhile (headerSize · ≠ 0) = words ↔ ∀ frame ∈ words, headerSize frame ≠ 0 := by
    simp [List.takeWhile_eq_self_iff]
  constructor
  · intro hserves
    obtain ⟨w1, ⟨hrun, -⟩, -⟩ := hserves (words.length + 1)
    obtain ⟨w2, ⟨hrun', -⟩, -⟩ := hsends (words.length + 1)
    rw [hrun'] at hrun
    injection hrun with hcount
    injection hcount with hcount
    exact hgood.mp ((List.takeWhile_prefix _).eq_of_length_le (by omega))
  · intro hall rounds
    obtain ⟨w', hsent, hend⟩ := hsends rounds
    rw [hgood.mpr hall] at hsent
    exact ⟨w', hsent, hend hall⟩

end Service

section Streams

-- Three clients, of which the first one sends a stream in pieces.
def pieces (stream : List Byte) (sched : List Transfer) : World where
  inp := fun _ => ⟨stream, sched⟩
  out := fun _ => ⟨[], []⟩
  locks := fun _ => 1

theorem pieces_serving (stream : List Byte) (sched : List Transfer) (h : ∀ t ∈ sched, t.Succeeds) :
    Serving (greetingClients 3) 4 (pieces stream sched) where
  table := by decide
  distinct := fun i _ j _ he => by simpa [greetingClients] using he
  notStdout := fun i _ => by simp [greetingClients]
  free := fun _ _ => rfl
  reads := h
  writes := fun _ t ht => by cases ht

-- A frame of one byte and one of two, and a header that is cut off.
theorem pieces_served : ServesFrames plainEnv (greetingClients 3) 4 0
    (pieces [0, 0, 0, 1, 65, 0, 0, 0, 2, 66, 67, 0] [.upTo 3, .upTo 1, .upTo 1, .upTo 2]) :=
  (serves_frames_iff plainEnv rfl (fun _ => rfl) 0 _ (pieces_serving _ _ (by simp [Transfer.Succeeds]))).mpr
    (by decide)

-- Behind a frame without a payload nothing is distributed.
theorem zero_frame_ends :
    frames [0, 0, 0, 0, 0, 0, 0, 1, 65] = [[0, 0, 0, 0], [0, 0, 0, 1, 65]] ∧
    (∃ w', forward plainEnv (greetingClients 3) 4 0 (pieces [0, 0, 0, 0, 0, 0, 0, 1, 65] []) = .ok 1 w' ∧
      (w'.inp 4).pending = [0, 0, 0, 1, 65]) ∧
    ¬ServesFrames plainEnv (greetingClients 3) 4 0 (pieces [0, 0, 0, 0, 0, 0, 0, 1, 65] []) := by
  refine ⟨by decide, ⟨_, rfl, rfl⟩, fun h => ?_⟩
  obtain ⟨w', ⟨hrun, -⟩, -⟩ := h 1
  obtain ⟨s, hcall⟩ := forward_zero plainEnv rfl (fun _ => rfl)
    (pieces_serving [0, 0, 0, 0, 0, 0, 0, 1, 65] [] (by simp)) 0 [0, 0, 0, 0] _ ⟨by decide, by decide⟩
    (by decide) rfl
  have hends := (service_ends plainEnv 0 _ s 0 hcall).1
  rw [hends] at hrun
  injection hrun with hcount
  revert hcount
  decide

end Streams

end CryptodevChat.Chat
