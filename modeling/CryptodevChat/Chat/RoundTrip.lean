import CryptodevChat.Chat.Cipher

namespace CryptodevChat.Chat

open Lib

section Receiver

-- A call that shows one message and takes nothing of the stream behind its frame.
structure Shows (sd : Nat) (message rest : List Byte) (w w' : World) : Prop where
  pending : (w'.inp sd).pending = rest
  reliableIn : (w'.inp sd).Reliable
  shown : (w'.out 0).sent = (w.out 0).sent ++ message
  reliableOut : (w'.out 0).Reliable

theorem shows_of_display (buf message rest : List Byte) (off sd : Nat)
    (s : Source Byte) (w : World) (hload : load buf off message.length = some message)
    (hs : s.pending = rest) (hrel : s.Reliable) (hout : (w.out 0).Reliable) :
    ∃ w', (do display buf off message.length; return ((0 : Int), buf)) (w.setInp sd s) =
      .ok (0, buf) w' ∧ Shows sd message rest w w' := by
  obtain ⟨o, hd, hsent, ho⟩ :=
    display_run buf message off message.length (w.setInp sd s) hload (by simpa using hout)
  refine ⟨(w.setInp sd s).setOut 0 o, ?_, ⟨?_, ?_, ?_, ?_⟩⟩
  · rw [bind_ok _ _ _ _ _ hd]
    rfl
  · simpa using hs
  · simpa using hrel
  · simpa using hsent
  · simpa using ho

theorem getAndPrint_plain (env : Env) (hmode : env.encrypted = false) (buf message rest : List Byte)
    (sd : Nat) (w : World) (hin : (w.inp sd).Reliable) (hout : (w.out 0).Reliable)
    (hp : (w.inp sd).pending = be 4 message.length ++ (message ++ rest))
    (hpos : 0 < message.length) (hlt : message.length < 256 ^ 4) (hfit : message.length ≤ buf.length) :
    ∃ buf' w', getAndPrint env buf sd w = .ok (0, buf') w' ∧ buf'.length = buf.length ∧
      Shows sd message rest w w' := by
  have hjunk := env.junk_length 4
  have hhead : store (env.junk 4) 0 ((w.inp sd).pending.take 4) = some (be 4 message.length) := by
    have htake : (w.inp sd).pending.take 4 = be 4 message.length := by
      rw [hp, List.take_left' (by simp)]
    rw [htake, store_eq_some _ 0 _ (by simp [hjunk])]
    simp [hjunk]
  obtain ⟨s, hread, hs, hrel⟩ := insistRead_full sd _ _ 0 4 w hin (by simp [hp]) hhead
  have hsize : fromBe (be 4 message.length) = message.length := by
    rw [fromBe_be, Nat.mod_eq_of_lt hlt]
  have hrest : s.pending = message ++ rest := by
    rw [hs, hp, List.drop_left' (by simp)]
  have hbody : store buf 0 (((w.setInp sd s).inp sd).pending.take message.length) =
      some (message ++ buf.drop message.length) := by
    rw [World.setInp_inp, hrest, List.take_left' rfl, store_eq_some buf 0 message (by omega)]
    simp
  obtain ⟨s', hread', hs', hrel'⟩ := insistRead_full sd _ _ 0 message.length (w.setInp sd s)
    (by simpa using hrel) (by simp [hrest]) hbody
  have hload : load (message ++ buf.drop message.length) 0 message.length = some message := by
    rw [load_eq_some _ 0 _ (by simp)]
    simp
  obtain ⟨w', hfinal, hshows⟩ := shows_of_display _ message rest 0 sd s' w hload
    (by rw [hs', World.setInp_inp, hrest, List.drop_left' rfl]) hrel' hout
  refine ⟨message ++ buf.drop message.length, w', ?_, ?_, hshows⟩
  · unfold getAndPrint
    simp only [hmode, Bool.false_eq_true, if_false]
    rw [bind_ok _ _ _ _ _ hread]
    simp only [after_full 4 (by omega), hsize]
    rw [bind_ok _ _ _ _ _ hread']
    simp only [after_full message.length hpos, World.setInp_setInp]
    exact hfinal
  · simp only [List.length_append, List.length_drop]
    omega

-- The frame carries the padded message; only its announced part is shown.
theorem getAndPrint_encrypted (env : Env) (hmode : env.encrypted = true) (c : Cipher env.dev)
    (buf frame message rest : List Byte) (sd : Nat) (w : World)
    (hin : (w.inp sd).Reliable) (hout : (w.out 0).Reliable)
    (hframe : frame.length = DATA_SIZE)
    (hdec : c.dec frame = pad (be 4 message.length ++ message))
    (hp : (w.inp sd).pending = frame ++ rest)
    (hlen : message.length + 4 ≤ DATA_SIZE) (hfit : DATA_SIZE ≤ buf.length) :
    ∃ buf' w', getAndPrint env buf sd w = .ok (0, buf') w' ∧ buf'.length = buf.length ∧
      Shows sd message rest w w' := by
  have hstore : store buf 0 ((w.inp sd).pending.take DATA_SIZE) =
      some (frame ++ buf.drop DATA_SIZE) := by
    rw [hp, List.take_left' hframe, store_eq_some buf 0 frame (by omega)]
    simp [hframe]
  obtain ⟨s, hread, hs, hrel⟩ := insistRead_full sd _ _ 0 DATA_SIZE w hin (by simp [hp, hframe]) hstore
  have hrest : s.pending = rest := by rw [hs, hp, List.drop_left' hframe]
  have hbuf : DATA_SIZE ≤ (frame ++ buf.drop DATA_SIZE).length := by simp [hframe]
  have hdecrypt := decrypt_run env c (frame ++ buf.drop DATA_SIZE) (w.setInp sd s) hbuf
  rw [List.take_left' hframe, List.drop_left' hframe, hdec] at hdecrypt
  have hblock := pad_length (be 4 message.length ++ message) (by
    simp only [List.length_append, be_length]; omega)
  have hword : load (pad (be 4 message.length ++ message) ++ buf.drop DATA_SIZE) 0 4 =
      some (be 4 message.length) := by
    rw [load_eq_some _ 0 4 (by simp only [List.length_append, hblock, DATA_SIZE]; omega)]
    simp [pad]
  have hmsg : load (pad (be 4 message.length ++ message) ++ buf.drop DATA_SIZE) 4 message.length =
      some message := by
    rw [load_eq_some _ 4 _ (by simp only [List.length_append, hblock]; omega)]
    simp [pad]
  have hsize : fromBe (be 4 message.length) = message.length := by
    rw [fromBe_be, Nat.mod_eq_of_lt (by simp only [DATA_SIZE] at hlen; omega)]
  obtain ⟨w', hfinal, hshows⟩ := shows_of_display _ message rest 4 sd s w hmsg hrest hrel hout
  refine ⟨pad (be 4 message.length ++ message) ++ buf.drop DATA_SIZE, w', ?_, ?_, hshows⟩
  · unfold getAndPrint
    simp only [hmode, if_true]
    rw [bind_ok _ _ _ _ _ hread]
    simp only [after_full DATA_SIZE block_pos]
    rw [bind_ok _ _ _ _ _ hdecrypt, bind_ok _ _ _ _ _ (peek_run _ _ _ _ _ hword), hsize]
    exact hfinal
  · simp only [List.length_append, hblock, List.length_drop]
    omega

-- At the end of the stream the call reports that the peer has gone.
theorem getAndPrint_closed (env : Env) (buf : List Byte) (sd : Nat) (w : World)
    (hin : (w.inp sd).Reliable) (hp : (w.inp sd).pending = []) :
    ∃ w', getAndPrint env buf sd w = .ok (1, buf) w' ∧ (w'.inp sd).pending = [] ∧ w'.out = w.out := by
  have hstore : ∀ cells : List Byte, store cells 0 (w.inp sd).pending = some cells := by
    intro cells
    rw [hp]
    exact store_nil cells 0 (Nat.zero_le _)
  unfold getAndPrint
  cases hmode : env.encrypted with
  | true =>
      obtain ⟨s, hread, hs, _⟩ :=
        insistRead_eof sd buf buf 0 DATA_SIZE w hin (by simp [hp, DATA_SIZE]) (hstore buf)
      refine ⟨w.setInp sd s, ?_, by simpa using hs, by simp⟩
      simp only [if_true]
      rw [bind_ok _ _ _ _ _ hread]
      rfl
  | false =>
      obtain ⟨s, hread, hs, _⟩ :=
        insistRead_eof sd (env.junk 4) (env.junk 4) 0 4 w hin (by simp [hp]) (hstore _)
      refine ⟨w.setInp sd s, ?_, by simpa using hs, by simp⟩
      simp only [Bool.false_eq_true, if_false]
      rw [bind_ok _ _ _ _ _ hread]
      rfl

end Receiver

section Sender

-- What a line is displayed as, and the bytes that carry it in plain mode.
def message (prompt line : CString) : List Byte := prompt.bytes ++ line.bytes ++ [0x0a]

def plainFrame (prompt line : CString) : List Byte :=
  be 4 (message prompt line).length ++ message prompt line

theorem message_length (prompt line : CString) :
    (message prompt line).length = line.strlen + prompt.strlen + 1 := by
  simp only [message, CString.strlen, List.length_append, List.length_singleton]
  omega

theorem plainFrame_length (prompt line : CString) :
    (plainFrame prompt line).length = line.strlen + prompt.strlen + 4 + 1 := by
  simp only [plainFrame, List.length_append, be_length, message_length]
  omega

theorem head_cells (line : CString) : line.cells.head? = some 0 ↔ line.bytes = [] := by
  have hn := line.nulFree
  cases hb : line.bytes with
  | nil => simp [CString.cells, hb]
  | cons x xs =>
      have hx : x ≠ 0 := by
        rintro rfl
        exact hn (by simp [hb])
      simp [CString.cells, hb, hx]

-- The four writes into the allocated block. The newline replaces the NUL
-- that the second `strcpy` left behind the line.
theorem handler_writes (prompt line : CString) (block : List Byte)
    (hfit : line.strlen + prompt.strlen + 4 + 1 ≤ block.length) :
    ∃ a b c d, store block 0 (be 4 (line.strlen + prompt.strlen + 1)) = some a ∧
      store a 4 prompt.cells = some b ∧ store b (prompt.strlen + 4) line.cells = some c ∧
      store c (line.strlen + prompt.strlen + 4) [0x0a] = some d ∧ d.length = block.length ∧
      d.take (line.strlen + prompt.strlen + 4 + 1) = plainFrame prompt line := by
  have hp : prompt.cells.length = prompt.strlen + 1 := by simp [CString.cells, CString.strlen]
  have hl : line.cells.length = line.strlen + 1 := by simp [CString.cells, CString.strlen]
  have h1 := store_eq_some block 0 (be 4 (line.strlen + prompt.strlen + 1)) (by simp; omega)
  generalize block.take 0 ++ be 4 (line.strlen + prompt.strlen + 1) ++ block.drop _ = a at h1
  have hal := store_length _ _ _ _ h1
  have hat : a.take 4 = be 4 (line.strlen + prompt.strlen + 1) := by
    simpa using take_store_add _ _ _ _ h1
  have h2 := store_eq_some a 4 prompt.cells (by omega)
  generalize a.take 4 ++ prompt.cells ++ a.drop _ = b at h2
  have hbl := store_length _ _ _ _ h2
  have hbt : b.take (prompt.strlen + 4) =
      be 4 (line.strlen + prompt.strlen + 1) ++ prompt.bytes := by
    have h := congrArg (List.take (prompt.strlen + 4)) (take_store_add _ _ _ _ h2)
    rw [List.take_take, Nat.min_eq_left (by omega), hat] at h
    rw [h, CString.cells, ← List.append_assoc, List.take_left' (by
      simp only [List.length_append, be_length, CString.strlen]; omega)]
  have h3 := store_eq_some b (prompt.strlen + 4) line.cells (by omega)
  generalize b.take _ ++ line.cells ++ b.drop _ = c at h3
  have hcl := store_length _ _ _ _ h3
  have hct : c.take (line.strlen + prompt.strlen + 4) =
      be 4 (line.strlen + prompt.strlen + 1) ++ prompt.bytes ++ line.bytes := by
    have h := congrArg (List.take (line.strlen + prompt.strlen + 4)) (take_store_add _ _ _ _ h3)
    rw [List.take_take, Nat.min_eq_left (by omega), hbt] at h
    rw [h, CString.cells, ← List.append_assoc, List.take_left' (by
      simp only [List.length_append, be_length, CString.strlen]; omega)]
  have h4 := store_eq_some c (line.strlen + prompt.strlen + 4) [0x0a] (by simp; omega)
  generalize c.take _ ++ [0x0a] ++ c.drop _ = d at h4
  have hdt := take_store_add _ _ _ _ h4
  rw [hct] at hdt
  refine ⟨a, b, c, d, h1, h2, h3, h4, ?_, ?_⟩
  · rw [store_length _ _ _ _ h4, hcl, hbl, hal]
  · rw [plainFrame, message_length, message]
    simpa [List.append_assoc] using hdt

theorem myRlhandler_empty (env : Env) (prompt line : CString) (newsd : Nat) (w : World)
    (h : line.bytes = []) : myRlhandler env prompt newsd (some line) w = .ok () w := by
  simp [myRlhandler, (head_cells line).mpr h]

-- What `my_rlhandler` does with the message once it is in its block.
def sendMessage (env : Env) (newsd : Nat) (message : List Byte) (encS : Nat) : Proc Unit := do
  if env.encrypted then
    let message ← encrypt env message encS
    let data ← peek message 0 DATA_SIZE
    let n ← insistWrite newsd data
    if n ≠ DATA_SIZE then exit 1 else return ()
  else
    let data ← peek message 0 encS
    let n ← insistWrite newsd data
    if n ≠ encS then exit 1 else return ()

variable (env : Env) (prompt line : CString) (newsd : Nat) (w : World)

-- A line that fits is formatted without leaving the block.
theorem myRlhandler_run (halloc : env.mallocs BUFF_SIZE = true) (hline : line.bytes ≠ [])
    (hfit : line.strlen + prompt.strlen + 4 + 1 ≤ BUFF_SIZE) :
    ∃ block, block.length = BUFF_SIZE ∧
      block.take (line.strlen + prompt.strlen + 4 + 1) = plainFrame prompt line ∧
      myRlhandler env prompt newsd (some line) w =
        sendMessage env newsd block (line.strlen + prompt.strlen + 4 + 1) w := by
  have hjunk := env.junk_length BUFF_SIZE
  obtain ⟨a, b, c, d, h1, h2, h3, h4, hlen, htake⟩ :=
    handler_writes prompt line (env.junk BUFF_SIZE) (by omega)
  refine ⟨d, hlen.trans hjunk, htake, ?_⟩
  have hhead : line.cells.head? ≠ some 0 := mt (head_cells line).mp hline
  simp only [myRlhandler, hhead, if_false, Env.malloc, halloc, if_true]
  rw [bind_ok _ _ _ _ _ (poke_run _ _ _ _ _ h1), bind_ok _ _ _ _ _ (poke_run _ _ _ _ _ h2),
    bind_ok _ _ _ _ _ (poke_run _ _ _ _ _ h3), bind_ok _ _ _ _ _ (poke_run _ _ _ _ _ h4)]
  rfl

theorem myRlhandler_plain (hmode : env.encrypted = false) (halloc : env.mallocs BUFF_SIZE = true)
    (hline : line.bytes ≠ []) (hfit : line.strlen + prompt.strlen + 4 + 1 ≤ BUFF_SIZE)
    (hout : (w.out newsd).Reliable) :
    ∃ o, myRlhandler env prompt newsd (some line) w = .ok () (w.setOut newsd o) ∧
      o.sent = (w.out newsd).sent ++ plainFrame prompt line ∧ o.Reliable := by
  obtain ⟨block, hlen, htake, hrun⟩ := myRlhandler_run env prompt line newsd w halloc hline hfit
  have hload : load block 0 (line.strlen + prompt.strlen + 4 + 1) = some (plainFrame prompt line) := by
    rw [load_eq_some block 0 _ (by omega), List.drop_zero, htake]
  obtain ⟨o, hw, hsent, hrel⟩ := insistWrite_full newsd (plainFrame prompt line) w hout
  refine ⟨o, ?_, hsent, hrel⟩
  rw [hrun]
  simp only [sendMessage, hmode, Bool.false_eq_true, if_false]
  rw [bind_ok _ _ _ _ _ (peek_run _ _ _ _ _ hload), bind_ok _ _ _ _ _ hw]
  simp [plainFrame_length]

theorem myRlhandler_encrypted (hmode : env.encrypted = true) (k : Cipher env.dev)
    (halloc : env.mallocs BUFF_SIZE = true)
    (hline : line.bytes ≠ []) (hfit : line.strlen + prompt.strlen + 4 + 1 ≤ DATA_SIZE)
    (hout : (w.out newsd).Reliable) :
    ∃ o, myRlhandler env prompt newsd (some line) w = .ok () (w.setOut newsd o) ∧
      o.sent = (w.out newsd).sent ++ k.enc (pad (plainFrame prompt line)) ∧ o.Reliable := by
  have hsizes := block_le_buff
  obtain ⟨block, hlen, htake, hrun⟩ :=
    myRlhandler_run env prompt line newsd w halloc hline (by omega)
  have henc := encrypt_run env k block (line.strlen + prompt.strlen + 4 + 1) w (by omega) hfit
  rw [htake] at henc
  have hblock : (k.enc (pad (plainFrame prompt line))).length = DATA_SIZE :=
    k.enc_length _ (pad_length _ (by rw [plainFrame_length]; exact hfit))
  have hload : load (k.enc (pad (plainFrame prompt line)) ++ block.drop DATA_SIZE) 0 DATA_SIZE =
      some (k.enc (pad (plainFrame prompt line))) := by
    rw [load_eq_some _ 0 _ (by simp [hblock]), List.drop_zero, List.take_left' hblock]
  obtain ⟨o, hw, hsent, hrel⟩ := insistWrite_full newsd _ w hout
  refine ⟨o, ?_, hsent, hrel⟩
  rw [hrun]
  simp only [sendMessage, hmode, if_true]
  rw [bind_ok _ _ _ _ _ henc, bind_ok _ _ _ _ _ (peek_run _ _ _ _ _ hload), bind_ok _ _ _ _ _ hw]
  simp [hblock]

end Sender

section RoundTrip

-- The lines typed at one end, in order.
def sendLines (env : Env) (prompt : CString) (newsd : Nat) : List CString → Proc Unit
  | [] => return ()
  | line :: rest => do
      myRlhandler env prompt newsd (some line)
      sendLines env prompt newsd rest

-- Successive calls of `get_and_print` on one buffer, and what they return.
def receive (env : Env) (sd : Nat) : Nat → List Byte → Proc (List Int × List Byte)
  | 0, buf => return ([], buf)
  | calls + 1, buf => do
      let (first, buf) ← getAndPrint env buf sd
      let (rest, buf) ← receive env sd calls buf
      return (first :: rest, buf)

def World.fresh : World := ⟨fun _ => ⟨[], []⟩, fun _ => ⟨[], []⟩, fun _ => 1⟩

-- The bytes that `my_rlhandler` sends for one line.
def lineFrame (env : Env) (prompt line : CString) : List Byte :=
  match myRlhandler env prompt 0 (some line) World.fresh with
  | .ok _ w => (w.out 0).sent
  | .error _ w => (w.out 0).sent

abbrev Fits (encrypted : Bool) (prompt line : CString) : Prop :=
  4 + prompt.strlen + line.strlen + 1 ≤ if encrypted then DATA_SIZE else BUFF_SIZE

-- Both ends use the key and the initialization vector of the source, so that
-- the receiver's device undoes what the sender's has done.
def Undoes (sender receiver : Env) : Prop :=
  sender.encrypted = true → ∃ (s : Cipher sender.dev) (r : Cipher receiver.dev),
    ∀ block, block.length = DATA_SIZE → r.dec (s.enc block) = block

variable (sender receiver : Env) (prompt : CString)

-- What the two ends agree on for one line, in either mode.
structure Carries (line : CString) (frame : List Byte) : Prop where
  sends : ∀ newsd w, (w.out newsd).Reliable →
    ∃ o, myRlhandler sender prompt newsd (some line) w = .ok () (w.setOut newsd o) ∧
      o.sent = (w.out newsd).sent ++ frame ∧ o.Reliable
  shows : ∀ buf sd w rest, buf.length = BUFF_SIZE → (w.inp sd).Reliable → (w.out 0).Reliable →
    (w.inp sd).pending = frame ++ rest →
    ∃ buf' w', getAndPrint receiver buf sd w = .ok (0, buf') w' ∧ buf'.length = BUFF_SIZE ∧
      Shows sd (message prompt line) rest w w'

theorem carries (hmode : sender.encrypted = receiver.encrypted)
    (halloc : sender.mallocs BUFF_SIZE = true) (hundo : Undoes sender receiver)
    (line : CString) (hline : line.bytes ≠ []) (hfit : Fits sender.encrypted prompt line) :
    ∃ frame, Carries sender receiver prompt line frame := by
  have hm := message_length prompt line
  have hf := plainFrame_length prompt line
  unfold Fits at hfit
  cases he : sender.encrypted with
  | false =>
      simp only [he, Bool.false_eq_true, if_false] at hfit
      refine ⟨plainFrame prompt line, fun newsd w hout => ?_, fun buf sd w rest hbuf hin hout hp => ?_⟩
      · exact myRlhandler_plain sender prompt line newsd w he halloc hline (by omega) hout
      · obtain ⟨buf', w', hrun, hlen, hshows⟩ := getAndPrint_plain receiver (hmode ▸ he) buf
          (message prompt line) rest sd w hin hout (by simpa [plainFrame] using hp) (by omega)
          (by simp only [BUFF_SIZE] at hfit; omega) (by omega)
        exact ⟨buf', w', hrun, hlen.trans hbuf, hshows⟩
  | true =>
      obtain ⟨s, r, hsr⟩ := hundo he
      simp only [he, if_true] at hfit
      have hpad := pad_length (plainFrame prompt line) (by omega)
      refine ⟨s.enc (pad (plainFrame prompt line)), fun newsd w hout => ?_,
        fun buf sd w rest hbuf hin hout hp => ?_⟩
      · exact myRlhandler_encrypted sender prompt line newsd w he s halloc hline (by omega) hout
      · obtain ⟨buf', w', hrun, hlen, hshows⟩ := getAndPrint_encrypted receiver (hmode ▸ he) r buf _
          (message prompt line) rest sd w hin hout (s.enc_length _ hpad) (hsr _ hpad) hp (by omega)
          (by rw [hbuf]; decide)
        exact ⟨buf', w', hrun, hlen.trans hbuf, hshows⟩

theorem Carries.lineFrame_eq {sender receiver : Env} {prompt line : CString} {frame : List Byte}
    (h : Carries sender receiver prompt line frame) : lineFrame sender prompt line = frame := by
  obtain ⟨o, hrun, hsent, _⟩ := h.sends 0 World.fresh (by intro t ht; cases ht)
  rw [lineFrame, hrun]
  simpa [World.fresh] using hsent

theorem lineFrame_empty (line : CString) (h : line.bytes = []) :
    lineFrame sender prompt line = [] := by
  rw [lineFrame, myRlhandler_empty sender prompt line 0 World.fresh h]
  rfl

-- The lines that are sent: an empty one is not.
def typed (lines : List CString) : List CString := lines.filter fun line => line.bytes ≠ []

theorem flatMap_typed (lines : List CString) :
    lines.flatMap (lineFrame sender prompt) = (typed lines).flatMap (lineFrame sender prompt) := by
  induction lines with
  | nil => rfl
  | cons line rest ih =>
      by_cases he : line.bytes = []
      · simpa [typed, he, lineFrame_empty sender prompt line he] using ih
      · simpa [typed, he] using ih

theorem sendLines_run (newsd : Nat) (lines : List CString) (w : World)
    (hout : (w.out newsd).Reliable)
    (h : ∀ line ∈ lines, line.bytes ≠ [] →
      Carries sender receiver prompt line (lineFrame sender prompt line)) :
    ∃ w', sendLines sender prompt newsd lines w = .ok () w' ∧
      (w'.out newsd).sent = (w.out newsd).sent ++ lines.flatMap (lineFrame sender prompt) := by
  induction lines generalizing w with
  | nil => exact ⟨w, rfl, by simp⟩
  | cons line rest ih =>
      have hrest := fun l hl => h l (List.mem_cons_of_mem line hl)
      by_cases he : line.bytes = []
      · obtain ⟨w', hrun, hsent⟩ := ih w hout hrest
        refine ⟨w', ?_, ?_⟩
        · unfold sendLines
          rw [bind_ok _ _ _ _ _ (myRlhandler_empty sender prompt line newsd w he)]
          exact hrun
        · simpa [lineFrame_empty sender prompt line he] using hsent
      · obtain ⟨o, hline, ho, hrel⟩ := (h line (by simp) he).sends newsd w hout
        obtain ⟨w', hrun, hsent⟩ := ih (w.setOut newsd o) (by simpa using hrel) hrest
        refine ⟨w', ?_, ?_⟩
        · unfold sendLines
          rw [bind_ok _ _ _ _ _ hline]
          exact hrun
        · simpa [ho, List.append_assoc] using hsent

theorem receive_cons (sd calls : Nat) (buf mid buf' : List Byte) (v w v' : World) (first : Int)
    (rest : List Int) (hfirst : getAndPrint receiver buf sd v = .ok (first, mid) w)
    (hrest : receive receiver sd calls mid w = .ok (rest, buf') v') :
    receive receiver sd (calls + 1) buf v = .ok (first :: rest, buf') v' := by
  unfold receive
  rw [bind_ok _ _ _ _ _ hfirst]
  dsimp only
  rw [bind_ok _ _ _ _ _ hrest]
  rfl

theorem receive_inv (sd calls : Nat) (buf buf' : List Byte) (v v' : World) (results : List Int)
    (h : receive receiver sd (calls + 1) buf v = .ok (results, buf') v') :
    ∃ first mid w rest, getAndPrint receiver buf sd v = .ok (first, mid) w ∧
      receive receiver sd calls mid w = .ok (rest, buf') v' ∧ results = first :: rest := by
  unfold receive at h
  cases hg : getAndPrint receiver buf sd v with
  | error e u => rw [bind_error _ _ _ _ _ hg] at h; cases h
  | ok res w =>
      obtain ⟨first, mid⟩ := res
      rw [bind_ok _ _ _ _ _ hg] at h
      dsimp only at h
      cases hr : receive receiver sd calls mid w with
      | error e t => rw [bind_error _ _ _ _ _ hr] at h; cases h
      | ok more t =>
          rw [bind_ok _ _ _ _ _ hr] at h
          cases h
          exact ⟨first, mid, w, more.1, rfl, hr, rfl⟩

-- The first calls show the first messages and leave the frames behind them.
theorem receive_run (sd : Nat) (lines : List CString) (calls : Nat) (buf : List Byte) (v : World)
    (hcalls : calls ≤ lines.length) (hbuf : buf.length = BUFF_SIZE)
    (hin : (v.inp sd).Reliable) (hout : (v.out 0).Reliable)
    (hp : (v.inp sd).pending = lines.flatMap (lineFrame sender prompt))
    (h : ∀ line ∈ lines, Carries sender receiver prompt line (lineFrame sender prompt line)) :
    ∃ buf' v', receive receiver sd calls buf v = .ok (List.replicate calls 0, buf') v' ∧
      buf'.length = BUFF_SIZE ∧
      Shows sd ((lines.take calls).flatMap (message prompt))
        ((lines.drop calls).flatMap (lineFrame sender prompt)) v v' := by
  induction calls generalizing lines buf v with
  | zero => exact ⟨buf, v, rfl, hbuf, ⟨by simpa using hp, hin, by simp, hout⟩⟩
  | succ calls ih =>
      cases lines with
      | nil => simp at hcalls
      | cons line rest =>
          obtain ⟨buf', w', hrun, hlen, hshows⟩ := (h line (by simp)).shows buf sd v
            (rest.flatMap (lineFrame sender prompt)) hbuf hin hout (by simpa using hp)
          obtain ⟨buf'', v', hrest, hlen', hshows'⟩ := ih rest buf' w' (by simpa using hcalls) hlen
            hshows.reliableIn hshows.reliableOut hshows.pending
            (fun l hl => h l (List.mem_cons_of_mem line hl))
          refine ⟨buf'', v', ?_, hlen', ⟨by simpa using hshows'.pending, hshows'.reliableIn, ?_,
            hshows'.reliableOut⟩⟩
          · exact receive_cons receiver sd calls _ _ _ _ _ _ 0 _ hrun hrest
          · rw [hshows'.shown, hshows.shown]
            simp

theorem receive_snoc (sd calls : Nat) (buf buf' buf'' : List Byte) (v v' u : World)
    (results : List Int) (last : Int)
    (h : receive receiver sd calls buf v = .ok (results, buf') v')
    (hlast : getAndPrint receiver buf' sd v' = .ok (last, buf'') u) :
    receive receiver sd (calls + 1) buf v = .ok (results ++ [last], buf'') u := by
  induction calls generalizing buf v results with
  | zero =>
      cases h
      exact receive_cons receiver sd 0 _ _ _ _ _ _ last [] hlast rfl
  | succ calls ih =>
      obtain ⟨first, mid, w, rest, hfirst, hrest, rfl⟩ := receive_inv receiver sd calls _ _ _ _ _ h
      exact receive_cons receiver sd (calls + 1) _ _ _ _ _ _ first _ hfirst (ih mid w rest hrest)

-- Whatever is typed at one end and fits its frame is shown at the other, call
-- by call, however the transport cuts the bytes.
theorem wire_round_trip (lines : List CString) (newsd sd : Nat) (w v : World) (buf : List Byte)
    (hmode : sender.encrypted = receiver.encrypted) (halloc : sender.mallocs BUFF_SIZE = true)
    (hundo : Undoes sender receiver)
    (hfit : ∀ line ∈ lines, line.bytes ≠ [] → Fits sender.encrypted prompt line)
    (hnewsd : (w.out newsd).Reliable) (hsd : (v.inp sd).Reliable) (hstdout : (v.out 0).Reliable)
    (hbuf : buf.length = BUFF_SIZE)
    (hp : (v.inp sd).pending = lines.flatMap (lineFrame sender prompt)) :
    (∃ w', sendLines sender prompt newsd lines w = .ok () w' ∧
      (w'.out newsd).sent = (w.out newsd).sent ++ lines.flatMap (lineFrame sender prompt)) ∧
    (∀ line ∈ lines, line.bytes = [] → lineFrame sender prompt line = []) ∧
    (∀ calls ≤ (typed lines).length, ∃ buf' v',
      receive receiver sd calls buf v = .ok (List.replicate calls 0, buf') v' ∧
      (v'.inp sd).pending = ((typed lines).drop calls).flatMap (lineFrame sender prompt) ∧
      (v'.out 0).sent = (v.out 0).sent ++ ((typed lines).take calls).flatMap (message prompt)) ∧
    ∃ buf' v', receive receiver sd ((typed lines).length + 1) buf v =
        .ok (List.replicate (typed lines).length 0 ++ [1], buf') v' ∧
      (v'.inp sd).pending = [] ∧
      (v'.out 0).sent = (v.out 0).sent ++ (typed lines).flatMap (message prompt) := by
  have hcarry : ∀ line ∈ lines, line.bytes ≠ [] →
      Carries sender receiver prompt line (lineFrame sender prompt line) := by
    intro line hl hne
    obtain ⟨frame, hf⟩ :=
      carries sender receiver prompt hmode halloc hundo line hne (hfit line hl hne)
    rw [hf.lineFrame_eq]
    exact hf
  refine ⟨sendLines_run sender receiver prompt newsd lines w hnewsd hcarry,
    fun line _ he => lineFrame_empty sender prompt line he, ?_⟩
  have htyped : ∀ line ∈ typed lines,
      Carries sender receiver prompt line (lineFrame sender prompt line) := by
    intro line hl
    obtain ⟨hl, hne⟩ := List.mem_filter.mp hl
    exact hcarry line hl (of_decide_eq_true hne)
  have hpending := hp.trans (flatMap_typed sender prompt lines)
  constructor
  · intro calls hcalls
    obtain ⟨buf', v', hrun, _, hshows⟩ := receive_run sender receiver prompt sd _ calls buf v hcalls
      hbuf hsd hstdout hpending htyped
    exact ⟨buf', v', hrun, hshows.pending, hshows.shown⟩
  · obtain ⟨buf', v', hrun, _, hshows⟩ := receive_run sender receiver prompt sd _ _ buf v
      (Nat.le_refl _) hbuf hsd hstdout hpending htyped
    obtain ⟨u, hclosed, hempty, hsame⟩ := getAndPrint_closed receiver buf' sd v' hshows.reliableIn
      (by simpa using hshows.pending)
    refine ⟨buf', u, receive_snoc receiver sd _ _ _ _ _ _ _ _ 1 hrun hclosed, hempty, ?_⟩
    rw [hsame, hshows.shown, List.take_length]

def promptMe : CString := ⟨[0x6d, 0x65, 0x3a], by decide⟩
def lineHi : CString := ⟨[0x68, 0x69], by decide⟩
def lineEmpty : CString := ⟨[], by decide⟩

def greetingArrives : World where
  inp := fun _ => ⟨[lineHi, lineEmpty].flatMap (lineFrame greetingEnv promptMe), []⟩
  out := fun _ => ⟨[], []⟩
  locks := fun _ => 1

theorem greeting_round_trip : ∃ buf' v',
    receive greetingEnv 4 2 (List.replicate BUFF_SIZE 0) greetingArrives = .ok ([0, 1], buf') v' ∧
    (v'.out 0).sent = [0x6d, 0x65, 0x3a, 0x68, 0x69, 0x0a] := by
  have hreliable : ∀ fd, (World.fresh.out fd).Reliable := fun _ t ht => by cases ht
  obtain ⟨_, _, _, buf', v', hrun, _, hshown⟩ := wire_round_trip greetingEnv greetingEnv promptMe
    [lineHi, lineEmpty] 3 4 World.fresh greetingArrives (List.replicate BUFF_SIZE 0) rfl rfl
    (fun _ => ⟨greetingCipher, greetingCipher, greetingCipher.dec_enc⟩) (by decide +kernel)
    (hreliable 3) (fun t ht => by cases ht) (fun t ht => by cases ht) (by simp)
    (by simp only [greetingArrives])
  exact ⟨buf', v', hrun, hshown⟩

end RoundTrip

end CryptodevChat.Chat
