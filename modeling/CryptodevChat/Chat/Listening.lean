import CryptodevChat.Chat.Residue

namespace CryptodevChat.Dialogue

open Lib
open Chat
open EventLoop (Select)

section Codes

-- A frame that the other end shows as this message.
def Coded (env : Env) (frame message : List Byte) : Prop :=
  0 < message.length ∧ message.length + 4 ≤ (if env.encrypted then DATA_SIZE else BUFF_SIZE) ∧
  if env.encrypted then
    ∃ r : Cipher env.dev, frame.length = DATA_SIZE ∧ r.dec frame = pad (be 4 message.length ++ message)
  else frame = be 4 message.length ++ message

theorem Coded.headSize_le {env : Env} {frame message : List Byte} (h : Coded env frame message) :
    headSize env ≤ frame.length := by
  obtain ⟨-, -, h⟩ := h
  unfold headSize
  cases hmode : env.encrypted with
  | true =>
      simp only [hmode, if_true] at h ⊢
      obtain ⟨r, hlen, -⟩ := h
      omega
  | false =>
      simp only [hmode, Bool.false_eq_true, if_false] at h ⊢
      rw [h, List.length_append, be_length]
      omega

theorem Coded.message_le {env : Env} {frame message : List Byte} (h : Coded env frame message) :
    message.length ≤ frame.length := by
  obtain ⟨-, hfit, h⟩ := h
  cases hmode : env.encrypted with
  | true =>
      simp only [hmode, if_true] at h hfit
      obtain ⟨r, hlen, -⟩ := h
      omega
  | false =>
      simp only [hmode, Bool.false_eq_true, if_false] at h
      rw [h, List.length_append]
      omega

variable (sender receiver : Env) (prompt line : CString)

-- What `my_rlhandler` prepares for a line that fits.
theorem outgoing_run (halloc : sender.mallocs BUFF_SIZE = true) (hfit : Fits sender.encrypted prompt line)
    (hmode : sender.encrypted = receiver.encrypted) (hundo : Undoes sender receiver) :
    ∃ frame, answer (outgoing sender prompt line) = .ok frame ∧ Coded receiver frame (message prompt line) := by
  have hsizes := block_le_buff
  have hjunk := sender.junk_length BUFF_SIZE
  have hlen := message_length prompt line
  have hframe := plainFrame_length prompt line
  have hroom : line.strlen + prompt.strlen + 4 + 1 ≤ BUFF_SIZE := by
    unfold Fits at hfit
    split at hfit <;> omega
  obtain ⟨a, b, c, d, h1, h2, h3, h4, hd, htake⟩ := handler_writes prompt line (sender.junk BUFF_SIZE) (by omega)
  have hbegin : ∀ w, outgoing sender prompt line w = (if sender.encrypted then do
      let message ← encrypt sender d (line.strlen + prompt.strlen + 4 + 1)
      peek message 0 DATA_SIZE
      else peek d 0 (line.strlen + prompt.strlen + 4 + 1)) w := by
    intro w
    simp only [outgoing, Env.malloc, halloc, if_true]
    rw [bind_ok _ _ _ _ _ (poke_run _ _ _ _ _ h1), bind_ok _ _ _ _ _ (poke_run _ _ _ _ _ h2),
      bind_ok _ _ _ _ _ (poke_run _ _ _ _ _ h3), bind_ok _ _ _ _ _ (poke_run _ _ _ _ _ h4)]
  unfold answer
  rw [hbegin]
  unfold Coded
  rw [← hmode]
  cases hencrypted : sender.encrypted with
  | false =>
      simp only [Bool.false_eq_true, if_false]
      have hload : load d 0 (line.strlen + prompt.strlen + 4 + 1) = some (plainFrame prompt line) := by
        rw [load_eq_some d 0 _ (by omega), List.drop_zero, htake]
      rw [peek_run _ _ _ _ _ hload]
      exact ⟨_, rfl, by omega, by omega, rfl⟩
  | true =>
      obtain ⟨k, r, hkr⟩ := hundo hencrypted
      rw [hencrypted] at hfit
      simp only [Fits, if_true] at hfit
      have hpad := pad_length (plainFrame prompt line) (by omega)
      have henc := encrypt_run sender k d (line.strlen + prompt.strlen + 4 + 1) World.fresh (by omega) (by omega)
      rw [htake] at henc
      have hblock := k.enc_length _ hpad
      have hload : load (k.enc (pad (plainFrame prompt line)) ++ d.drop DATA_SIZE) 0 DATA_SIZE =
          some (k.enc (pad (plainFrame prompt line))) := by
        rw [load_eq_some _ 0 _ (by simp [hblock]), List.drop_zero, List.take_left' hblock]
      simp only [if_true]
      rw [bind_ok _ _ _ _ _ henc, peek_run _ _ _ _ _ hload]
      exact ⟨_, rfl, by omega, by omega, r, hblock, hkr _ hpad⟩

-- These are the bytes that the line puts on the wire.
theorem lineFrame_of_outgoing (hline : line.bytes ≠ []) (frame : List Byte)
    (h : answer (outgoing sender prompt line) = .ok frame) : lineFrame sender prompt line = frame := by
  have hlocal := local_outgoing sender prompt line World.fresh
  rw [h] at hlocal
  have hhandler := myRlhandler_eq sender prompt 0 line (mt (head_cells line).mp hline) World.fresh
  rw [bind_ok _ _ _ _ _ hlocal, write_loop _ _ _ _ _ _ (Nat.le_refl _), Sink.insist_calm _ _ rfl] at hhandler
  simp only [if_true] at hhandler
  rw [lineFrame, hhandler]
  simp [World.fresh]

end Codes

section Frames

variable {env : Env}

-- What a program has read of a frame.
def Party.Got (env : Env) (p : Party) (got : List Byte) : Prop :=
  match p.pc with
  | .head cells off count => got = cells.take off ∧ off + count = headSize env ∧
      cells.length = if env.encrypted then BUFF_SIZE else 4
  | .body size off count => env.encrypted = false ∧ size < 256 ^ 4 ∧ off + count = size ∧
      got = be 4 size ++ p.buf.take off
  | _ => False

-- The size in front of a message.
theorem fromBe_size {message : List Byte} (h : message.length + 4 ≤ BUFF_SIZE) :
    fromBe (be 4 message.length) = message.length := by
  unfold BUFF_SIZE at h
  rw [fromBe_be, Nat.mod_eq_of_lt (by omega)]

theorem Coded.fits {frame message : List Byte} (h : Coded env frame message) : message.length + 4 ≤ BUFF_SIZE := by
  have hsizes := block_le_buff
  obtain ⟨-, hfit, -⟩ := h
  split at hfit <;> omega

-- After the first `insist_read` the frame is complete, or it has a message to come.
theorem parse_coded {frame message cells buf : List Byte} (h : Coded env frame message)
    (hbuf : buf.length = BUFF_SIZE) (hcells : cells.length = if env.encrypted then BUFF_SIZE else 4)
    (htake : cells.take (headSize env) = frame.take (headSize env)) :
    (parse env cells buf).buf.length = BUFF_SIZE ∧
      ((parse env cells buf).Got env (frame.take (headSize env)) ∧ headSize env < frame.length ∨
        headSize env = frame.length ∧ ∃ buf', parse env cells buf = showing message buf') := by
  have hfits := h.fits
  have hsize := fromBe_size hfits
  have hblock := block_le_buff
  obtain ⟨hpos, hroom, hframe⟩ := h
  cases hmode : env.encrypted with
  | true =>
      simp only [hmode, if_true, headSize] at hroom hframe hcells htake ⊢
      obtain ⟨r, hlen, hdec⟩ := hframe
      rw [← hlen, List.take_length, hlen] at htake
      obtain ⟨hrun, hword, hload⟩ := decrypt_block env r cells frame World.fresh hlen (by omega) htake
      have hfour : (r.dec frame).take 4 = be 4 message.length := by
        rw [hdec, pad, List.append_assoc, List.take_left' (be_length ..)]
      have hmessage : ((r.dec frame).drop 4).take message.length = message := by
        rw [hdec, pad, List.append_assoc, List.drop_left' (be_length ..), List.take_left' rfl]
      have hload := hload message.length hroom
      rw [hfour] at hword
      rw [hmessage] at hload
      have hanswer : answer (decrypt env cells) = .ok (r.dec frame ++ cells.drop DATA_SIZE) := by
        unfold answer
        rw [hrun]
      have hparse : parse env cells buf = showing message (r.dec frame ++ cells.drop DATA_SIZE) := by
        unfold parse
        rw [hmode, if_pos rfl, hanswer]
        dsimp only
        rw [hword]
        dsimp only
        rw [hsize, showFrom, hload]
      have hlength : (r.dec frame ++ cells.drop DATA_SIZE).length = BUFF_SIZE := by
        rw [List.length_append, List.length_drop, r.dec_length _ hlen]
        omega
      refine ⟨?_, .inr ⟨hlen.symm, _, hparse⟩⟩
      rw [hparse, showing]
      split <;> exact hlength
  | false =>
      simp only [hmode, Bool.false_eq_true, if_false, headSize] at hroom hframe hcells htake ⊢
      subst hframe
      rw [List.take_left' (be_length ..), List.take_of_length_le (by omega)] at htake
      subst htake
      have hparse : parse env (be 4 message.length) buf = ⟨.body message.length 0 message.length, buf⟩ := by
        unfold parse
        rw [hmode, if_neg (by decide), hsize, if_neg (by omega)]
      rw [hparse]
      refine ⟨hbuf, .inl ⟨⟨hmode, ?_, Nat.zero_add _, ?_⟩, ?_⟩⟩
      · unfold BUFF_SIZE at hfits
        omega
      · rw [List.take_left' (be_length ..), List.take_zero, List.append_nil]
      · rw [List.length_append, be_length]
        omega

-- A part of a frame is read, and then the message is there or there is more to come.
theorem received_coded {frame message got data rest : List Byte} {p : Party} {count : Nat}
    (h : Coded env frame message) (hbuf : p.buf.length = BUFF_SIZE) (hgot : p.Got env got)
    (hasks : p.pc.asks = some count) (hle : data.length ≤ count) (hframe : got ++ data ++ rest = frame) :
    (received env p data).buf.length = BUFF_SIZE ∧
      ((received env p data).Got env (got ++ data) ∧ rest ≠ [] ∨
        rest = [] ∧ ∃ buf', received env p data = showing message buf') := by
  have hframe_le := h.headSize_le
  have hfits := h.fits
  have hblock := block_le_buff
  obtain ⟨pc, buf⟩ := p
  cases pc with
  | head cells off ask =>
      obtain rfl : ask = count := Option.some.inj hasks
      obtain ⟨rfl, hoff, hcells⟩ := hgot
      have hhead : headSize env ≤ cells.length := by
        rw [hcells]
        unfold headSize
        split <;> omega
      have hstore := store_eq_some cells off data (by omega)
      generalize cells.take off ++ data ++ cells.drop (off + data.length) = next at hstore
      have hnext := store_length _ _ _ _ hstore
      have htake := take_store_add _ _ _ _ hstore
      have htaken : (cells.take off ++ data).length = off + data.length := by
        rw [List.length_append, List.length_take]
        omega
      unfold received
      dsimp only
      rw [hstore]
      dsimp only
      split_ifs with hall
      · have hsame : frame.take (headSize env) = cells.take off ++ data := by
          rw [← hframe, List.take_left' (by omega)]
        obtain ⟨hlength, hcase⟩ := parse_coded h hbuf (hnext.trans hcells) (by
          rw [hsame, ← htake, hall, hoff])
        refine ⟨hlength, ?_⟩
        have hlen := congrArg List.length hframe
        rw [List.length_append, htaken] at hlen
        rcases hcase with ⟨hmore, hlt⟩ | ⟨hend, hshow⟩
        · refine .inl ⟨by rwa [hsame] at hmore, fun hnil => ?_⟩
          rw [hnil, List.length_nil] at hlen
          omega
        · exact .inr ⟨List.length_eq_zero_iff.mp (by omega), hshow⟩
      · refine ⟨hbuf, .inl ⟨⟨?_, by omega, hnext.trans hcells⟩, fun hnil => ?_⟩⟩
        · exact htake.symm
        · have hlen := congrArg List.length hframe
          rw [List.length_append, htaken, hnil, List.length_nil] at hlen
          omega
  | body size off ask =>
      obtain rfl : ask = count := Option.some.inj hasks
      obtain ⟨hmode, hsize, hoff, rfl⟩ := hgot
      dsimp only at hbuf
      obtain ⟨hpos, -, hplain⟩ := h
      simp only [hmode, Bool.false_eq_true, if_false] at hplain
      rw [hplain, List.append_assoc, List.append_assoc] at hframe
      obtain ⟨hword, hbody⟩ := List.append_inj hframe (by rw [be_length, be_length])
      have hsame : size = message.length := by
        have hboth := congrArg fromBe hword
        rwa [fromBe_be, Nat.mod_eq_of_lt hsize, fromBe_size hfits] at hboth
      have hstore := store_eq_some buf off data (by omega)
      generalize buf.take off ++ data ++ buf.drop (off + data.length) = next at hstore
      have hnext := store_length _ _ _ _ hstore
      have htake := take_store_add _ _ _ _ hstore
      have hlen := congrArg List.length hbody
      simp only [List.length_append, List.length_take] at hlen
      unfold received
      dsimp only
      rw [hstore]
      dsimp only
      split_ifs with hall
      · have hnil : rest = [] := List.length_eq_zero_iff.mp (by omega)
        have hload : load next 0 size = some message := by
          rw [load_eq_some _ _ _ (by omega), List.drop_zero, ← hoff, ← hall, htake, ← hbody, hnil,
            List.append_nil]
        unfold showFrom
        rw [hload]
        dsimp only
        refine ⟨?_, .inr ⟨hnil, next, rfl⟩⟩
        rw [showing]
        split <;> exact hnext.trans hbuf
      · refine ⟨hnext.trans hbuf, .inl ⟨⟨hmode, hsize, by omega, ?_⟩, fun hnil => ?_⟩⟩
        · rw [List.append_assoc, htake]
        · rw [hnil, List.length_nil] at hlen
          omega
  | _ => cases hasks

-- What was read of a frame and what the `read` asks for are not more than the frame.
theorem Party.Got.le {frame message got rest behind : List Byte} {p : Party} {count : Nat}
    (hgot : p.Got env got) (h : Coded env frame message) (hasks : p.pc.asks = some count)
    (hframe : got ++ rest = frame ++ behind) : got.length + count ≤ frame.length := by
  have hhead := h.headSize_le
  have hfits := h.fits
  obtain ⟨pc, buf⟩ := p
  cases pc with
  | head cells off ask =>
      obtain rfl : ask = count := Option.some.inj hasks
      obtain ⟨rfl, hoff, -⟩ := hgot
      rw [List.length_take]
      omega
  | body size off ask =>
      obtain rfl : ask = count := Option.some.inj hasks
      obtain ⟨hmode, hsize, hoff, rfl⟩ := hgot
      obtain ⟨-, -, hplain⟩ := h
      simp only [hmode, Bool.false_eq_true, if_false] at hplain
      subst hplain
      simp only [List.append_assoc] at hframe
      obtain ⟨hword, -⟩ := List.append_inj hframe (by rw [be_length, be_length])
      have hsame : size = message.length := by
        have hboth := congrArg fromBe hword
        rwa [fromBe_be, Nat.mod_eq_of_lt hsize, fromBe_size hfits] at hboth
      simp only [List.length_append, List.length_take, be_length]
      omega
  | _ => cases hasks

end Frames

-- Both ends work in the same mode, and each one's device undoes what the other's has done.
structure Setup.Agreed (c : Setup) : Prop where
  mode : ∀ p, (c.env p).encrypted = (c.env p.other).encrypted
  alloc : ∀ p, (c.env p).mallocs BUFF_SIZE = true
  undoes : ∀ p, Undoes (c.env p) (c.env p.other)

-- A line that is typed fits.
def Setup.Fitting (c : Setup) (_ : State) (a : Act) : Prop :=
  match a.2 with
  | .select (.ready (some (some line)) _) => line.bytes = [] ∨ Fits (c.env a.1).encrypted (c.prompt a.1) line
  | _ => True

instance (c : Setup) (s : State) : (a : Act) → Decidable (c.Fitting s a)
  | (_, .select (.ready (some (some _)) _)) => inferInstanceAs (Decidable (_ ∨ _))
  | (_, .select (.ready (some none) _)) | (_, .select (.ready none _)) | (_, .select (.failed _)) =>
      inferInstanceAs (Decidable True)
  | (_, .read _) | (_, .write _) | (_, .display _) | (_, .kill) => inferInstanceAs (Decidable True)

-- What the lines put on the wire, and what they are shown as.
def Setup.frame (c : Setup) (p : Peer) : CString → List Byte := lineFrame (c.env p) (c.prompt p)
def Setup.message (c : Setup) (p : Peer) : CString → List Byte := Chat.message (c.prompt p)

section Lists

variable {α β : Type} (f : α → List β) (l more : List α) (k : Nat)

theorem flatMap_take_succ (x : α) (h : l[k]? = some x) :
    (l.take (k + 1)).flatMap f = (l.take k).flatMap f ++ f x := by
  rw [List.take_add_one, h, List.flatMap_append]
  simp

theorem flatMap_take_prefix : (l.take k).flatMap f <+: l.flatMap f := by
  refine ⟨(l.drop k).flatMap f, ?_⟩
  rw [← List.flatMap_append, List.take_append_drop]

theorem flatMap_take_mono {α β : Type} (f : α → List β) (l : List α) (i j : Nat) (h : i ≤ j) :
    (l.take i).flatMap f <+: (l.take j).flatMap f := by
  have htake : (l.take j).take i = l.take i := by rw [List.take_take, Nat.min_eq_left h]
  rw [← htake]
  exact flatMap_take_prefix f (l.take j) i

end Lists

-- What is said at one end: a frame, and the message as which the other end shows it.
structure Word where
  frame : List Byte
  message : List Byte

-- Of what is said to it a program has shown so many messages, or is about to.
def Setup.Listens (c : Setup) (s : State) (p : Peer) (said : List Word) (k : Nat) : Prop :=
  let frames := (said.take k).flatMap Word.frame
  let messages := (said.take k).flatMap Word.message
  match (s.party p).pc with
  | .select | .send _ _ => (s.wire p.other).taken = frames ∧ s.shown p = messages
  | .head _ _ _ | .body _ _ _ => ∃ got, (s.party p).Got (c.env p) got ∧
      (s.wire p.other).taken = frames ++ got ∧ s.shown p = messages
  | .display rest => (s.wire p.other).taken = frames ∧ s.shown p ++ rest = messages
  | .left => (s.wire p.other).held = [] ∧ (s.party p.other).pc.over = true ∧ s.shown p = messages ∧
      ∃ got, (s.wire p.other).taken = frames ++ got ∧ ∀ w, said[k]? = some w → got.length < w.frame.length
  | .stopped e => e = .exit 1 ∧ s.shown p <+: said.flatMap Word.message
  | .killed => s.shown p <+: said.flatMap Word.message

-- How things stand in the direction to one of the programs.
structure Setup.Hears (c : Setup) (s : State) (p : Peer) (said : List Word) : Prop where
  buf : (s.party p).pc.over = false → (s.party p).buf.length = BUFF_SIZE
  coded : ∀ w ∈ said, Coded (c.env p) w.frame w.message
  sent : (s.wire p.other).sent <+: said.flatMap Word.frame
  listens : ∃ k ≤ said.length, c.Listens s p said k

variable {c : Setup} {s s' : State} {a : Act} {p : Peer} {said : List Word} {k : Nat}

-- What was shown are messages of the other one, from the first one on.
theorem Setup.Listens.shown (h : c.Listens s p said k) : s.shown p <+: said.flatMap Word.message := by
  have hpre := flatMap_take_prefix Word.message said k
  unfold Listens at h
  dsimp only at h
  split at h
  · rw [h.2]
    exact hpre
  · rw [h.2]
    exact hpre
  · obtain ⟨got, -, -, h⟩ := h
    rwa [h]
  · obtain ⟨got, -, -, h⟩ := h
    rwa [h]
  · exact (h.2 ▸ List.prefix_append _ _).trans hpre
  · rw [h.2.2.1]
    exact hpre
  · exact h.2
  · exact h

-- While a program reads, it has the beginning of a word.
theorem Setup.Listens.got {count : Nat} (h : c.Listens s p said k) (hasks : (s.party p).pc.asks = some count) :
    ∃ got, (s.party p).Got (c.env p) got ∧
      (s.wire p.other).taken = (said.take k).flatMap Word.frame ++ got ∧
      s.shown p = (said.take k).flatMap Word.message := by
  unfold Listens at h
  cases hpc : (s.party p).pc with
  | head cells off ask | body size off ask =>
      rw [hpc] at h
      exact h
  | _ =>
      rw [hpc] at hasks
      cases hasks

theorem hungUp_pc (env : Env) (p : Party) : (hungUp env p).pc = .left := by
  unfold hungUp
  split <;> rfl

-- The other one may have said more.
theorem Setup.Listens.mono {said' : List Word} (h : c.Listens s p said k) (hk : k ≤ said.length)
    (hlive : (s.party p.other).pc.over = false) (hparty : s'.party p = s.party p)
    (hshown : s'.shown p = s.shown p) (htaken : (s'.wire p.other).taken = (s.wire p.other).taken)
    (hsaid : said <+: said') : k ≤ said'.length ∧ c.Listens s' p said' k := by
  obtain ⟨more, rfl⟩ := hsaid
  have hsame : (said ++ more).take k = said.take k := List.take_append_of_le_length hk
  have hprefix : said.flatMap Word.message <+: (said ++ more).flatMap Word.message := by
    rw [List.flatMap_append]
    exact List.prefix_append _ _
  refine ⟨by rw [List.length_append]; omega, ?_⟩
  unfold Listens at h ⊢
  dsimp only at h ⊢
  rw [hparty, hshown, htaken, hsame]
  split at h
  · exact h
  · exact h
  · exact h
  · exact h
  · exact h
  · rw [hlive] at h
    cases h.2.1
  · exact ⟨h.1, h.2.trans hprefix⟩
  · exact h.trans hprefix

-- A step of the other one, which may have said more and written more of it.
theorem Setup.Hears.mono {said' : List Word} (hh : c.Hears s p said) (hlive : (s.party p.other).pc.over = false)
    (hparty : s'.party p = s.party p) (hshown : s'.shown p = s.shown p)
    (htaken : (s'.wire p.other).taken = (s.wire p.other).taken) (hsaid : said <+: said')
    (hcoded : ∀ w ∈ said', Coded (c.env p) w.frame w.message)
    (hsent : (s'.wire p.other).sent <+: said'.flatMap Word.frame) : c.Hears s' p said' := by
  obtain ⟨k, hk, hlistens⟩ := hh.listens
  refine ⟨?_, hcoded, hsent, k, hlistens.mono hk hlive hparty hshown htaken hsaid⟩
  rw [hparty]
  exact hh.buf

-- What a line comes to that fits.
theorem begin_fits (hc : c.Agreed) (q : Peer) (line : CString) (conn : Bool) (buf : List Byte)
    (hline : line.bytes ≠ []) (hfit : Fits (c.env q).encrypted (c.prompt q) line) :
    begin (c.env q) (c.prompt q) (some (some line)) conn buf = sending (c.env q) (c.frame q line) conn buf ∧
      Coded (c.env q.other) (c.frame q line) (c.message q line) := by
  obtain ⟨frame, hanswer, hcoded⟩ := outgoing_run (c.env q) (c.env q.other) (c.prompt q) line (hc.alloc q) hfit
    (hc.mode q) (hc.undoes q)
  have hframe : c.frame q line = frame := lineFrame_of_outgoing (c.env q) (c.prompt q) line hline frame hanswer
  rw [hframe]
  refine ⟨?_, hcoded⟩
  unfold begin
  dsimp only
  rw [if_neg (mt (head_cells line).mp hline), hanswer]

-- A line that is typed is on its way, or there is nothing to write.
theorem begin_sends (hc : c.Agreed) (line : Option (Option CString)) (conn : Bool) (buf : List Byte)
    (hok : c.Fitting s (p, .select (.ready line conn))) :
    ∃ rest, begin (c.env p) (c.prompt p) line conn buf = sending (c.env p) rest conn buf := by
  cases line with
  | none => exact ⟨[], rfl⟩
  | some line =>
      cases line with
      | none => exact ⟨[], rfl⟩
      | some line =>
          by_cases hempty : line.bytes = []
          · refine ⟨[], ?_⟩
            unfold begin
            dsimp only
            rw [if_pos ((head_cells line).mpr hempty)]
            rfl
          · exact ⟨_, (begin_fits hc p line conn buf hempty (hok.resolve_left hempty)).1⟩

section Listening

-- The bytes behind the words that were read go on with a word, if there are any.
theorem Setup.Hears.word (hh : c.Hears s p said) {got data rest : List Byte} (hdata : data ≠ [])
    (htaken : (s.wire p.other).taken = (said.take k).flatMap Word.frame ++ got)
    (hheld : (s.wire p.other).held = data ++ rest) : ∃ w more behind, said[k]? = some w ∧
      Coded (c.env p) w.frame w.message ∧ got ++ data ++ more = w.frame ++ behind := by
  obtain ⟨later, hsent⟩ := hh.sent
  have hrest : got ++ data ++ (rest ++ later) = (said.drop k).flatMap Word.frame := by
    rw [← List.take_append_drop k said, List.flatMap_append, Wire.sent, htaken, hheld] at hsent
    simp only [List.append_assoc] at hsent ⊢
    exact List.append_cancel_left hsent
  cases hdrop : said.drop k with
  | nil =>
      rw [hdrop, List.flatMap_nil] at hrest
      simp only [List.append_eq_nil_iff] at hrest
      exact absurd hrest.1.2 hdata
  | cons w others =>
      have hword : said[k]? = some w := by
        rw [← List.head?_drop, hdrop]
        rfl
      refine ⟨w, rest ++ later, others.flatMap Word.frame, hword, hh.coded w (List.mem_of_getElem? hword), ?_⟩
      rw [hrest, hdrop, List.flatMap_cons]

theorem listens_of_got {got : List Byte} (hgot : (s.party p).Got (c.env p) got)
    (htaken : (s.wire p.other).taken = (said.take k).flatMap Word.frame ++ got)
    (hshown : s.shown p = (said.take k).flatMap Word.message) :
    (s.party p).pc.stop = none ∧ c.Listens s p said k := by
  have hgot' := hgot
  unfold Party.Got at hgot'
  unfold Setup.Listens
  cases hpc : (s.party p).pc with
  | head cells off count => exact ⟨rfl, got, hgot, htaken, hshown⟩
  | body size off count => exact ⟨rfl, got, hgot, htaken, hshown⟩
  | _ =>
      rw [hpc] at hgot'
      exact hgot'.elim

-- What a `read` gives belongs to the word that is being read.
theorem Setup.Hears.reads (hh : c.Hears s p said) {count n : Nat} (hasks : (s.party p).pc.asks = some count)
    (hn : 0 < n) (hle : n ≤ count) (hlen : n ≤ (s.wire p.other).held.length) (hl : c.Listens s p said k) :
    ∃ got w rest, (s.party p).Got (c.env p) got ∧
      (s.wire p.other).taken = (said.take k).flatMap Word.frame ++ got ∧
      said[k]? = some w ∧ Coded (c.env p) w.frame w.message ∧
      got ++ (s.wire p.other).held.take n ++ rest = w.frame ∧
      (received (c.env p) (s.party p) ((s.wire p.other).held.take n)).buf.length = BUFF_SIZE ∧
      ((received (c.env p) (s.party p) ((s.wire p.other).held.take n)).Got (c.env p)
          (got ++ (s.wire p.other).held.take n) ∧ rest ≠ [] ∨
        rest = [] ∧ ∃ buf, received (c.env p) (s.party p) ((s.wire p.other).held.take n) =
          showing w.message buf) := by
  obtain ⟨got, hgot, htaken, -⟩ := hl.got hasks
  have hlive : (s.party p).pc.over = false := by
    cases hpc : (s.party p).pc <;> first | rfl | (rw [hpc] at hasks; cases hasks)
  have hdata : ((s.wire p.other).held.take n).length = n := by
    rw [List.length_take]
    omega
  have hnil : (s.wire p.other).held.take n ≠ [] := List.ne_nil_of_length_pos (by omega)
  obtain ⟨w, more, behind, hword, hcoded, hframe⟩ :=
    hh.word hnil htaken (List.take_append_drop n _).symm
  have hwithin := hgot.le hcoded hasks (by rw [← hframe, List.append_assoc])
  obtain ⟨rest, hrest⟩ : got ++ (s.wire p.other).held.take n <+: w.frame :=
    List.prefix_of_prefix_length_le ⟨more, hframe⟩ (List.prefix_append _ _) (by
      rw [List.length_append]
      omega)
  exact ⟨got, w, rest, hgot, htaken, hword, hcoded, hrest,
    received_coded hcoded (hh.buf hlive) hgot hasks (by omega) hrest⟩

-- It brings the program on in this word.
theorem listens_received (hh : c.Hears s p said) {count n : Nat}
    (hasks : (s.party p).pc.asks = some count) (hn : 0 < n) (hle : n ≤ count)
    (hlen : n ≤ (s.wire p.other).held.length) (hk : k ≤ said.length) (hl : c.Listens s p said k)
    (hs' : s' = (s.put p (received (c.env p) (s.party p) ((s.wire p.other).held.take n))).setWire p.other
      ⟨(s.wire p.other).taken ++ (s.wire p.other).held.take n, (s.wire p.other).held.drop n⟩) :
    (s'.party p).buf.length = BUFF_SIZE ∧ (s'.party p).pc.stop = none ∧
      ∃ k ≤ said.length, c.Listens s' p said k := by
  obtain ⟨-, -, -, hshown⟩ := hl.got hasks
  obtain ⟨got, w, rest, hgot, htaken, hword, hcoded, hrest, hbuf, hcase⟩ := hh.reads hasks hn hle hlen hl
  have hparty : s'.party p = received (c.env p) (s.party p) ((s.wire p.other).held.take n) := by
    rw [hs', setWire_party, put_party]
  have hwire : (s'.wire p.other).taken =
      (said.take k).flatMap Word.frame ++ (got ++ (s.wire p.other).held.take n) := by
    rw [hs', setWire_wire, htaken, List.append_assoc]
  have hshown' : s'.shown p = (said.take k).flatMap Word.message := by
    rw [hs', setWire_shown, put_shown, hshown]
  rw [← hparty] at hbuf hcase
  refine ⟨hbuf, ?_⟩
  rcases hcase with ⟨hmore, -⟩ | ⟨rfl, buf, hshow⟩
  · obtain ⟨hstop, hlistens⟩ := listens_of_got hmore hwire hshown'
    exact ⟨hstop, k, hk, hlistens⟩
  · rw [List.append_nil] at hrest
    have hmessage : w.message ≠ [] := List.ne_nil_of_length_pos hcoded.1
    rw [showing, if_neg hmessage] at hshow
    obtain ⟨hlt, -⟩ := List.getElem?_eq_some_iff.mp hword
    rw [hshow]
    refine ⟨rfl, k + 1, hlt, ?_⟩
    unfold Setup.Listens
    rw [hshow]
    dsimp only
    rw [hwire, hshown', flatMap_take_succ _ _ _ _ hword, flatMap_take_succ _ _ _ _ hword, hrest]
    exact ⟨rfl, rfl⟩

-- The stream ends between two words or inside of one, which the other one has not written out.
theorem listens_hungUp (hh : c.Hears s p said) {count : Nat} (hasks : (s.party p).pc.asks = some count)
    (hcount : 0 < count) (hempty : (s.wire p.other).held = []) (hover : (s.party p.other).pc.over = true)
    (hl : c.Listens s p said k) : c.Listens (s.put p (hungUp (c.env p) (s.party p))) p said k := by
  obtain ⟨got, hgot, htaken, hshown⟩ := hl.got hasks
  unfold Setup.Listens
  simp only [put_party, hungUp_pc, put_wire, put_shown, put_party_ne _ _ _ _ (Peer.other_ne p)]
  refine ⟨hempty, hover, hshown, got, htaken, fun w hword => ?_⟩
  obtain ⟨later, hsent⟩ := hh.sent
  have hrest : got ++ later = w.frame ++ (said.drop (k + 1)).flatMap Word.frame := by
    rw [← List.take_append_drop k said, List.flatMap_append, List.drop_eq_getElem?_toList_append,
      hword, Wire.sent, htaken, hempty] at hsent
    simp only [List.append_assoc, List.append_nil] at hsent
    exact List.append_cancel_left hsent
  have hwithin := hgot.le (hh.coded w (List.mem_of_getElem? hword)) hasks hrest
  omega

-- A program that goes on with `get_and_print`, or back to `select`.
theorem listens_resume (conn : Bool) (buf : List Byte) (hbuf : buf.length = BUFF_SIZE)
    (hparty : s.party p = resume (c.env p) conn buf)
    (htaken : (s.wire p.other).taken = (said.take k).flatMap Word.frame)
    (hshown : s.shown p = (said.take k).flatMap Word.message) :
    (s.party p).buf.length = BUFF_SIZE ∧ (s.party p).pc.stop = none ∧ c.Listens s p said k := by
  unfold resume at hparty
  cases conn with
  | false =>
      rw [if_neg (by decide)] at hparty
      unfold Setup.Listens
      rw [hparty]
      exact ⟨hbuf, rfl, htaken, hshown⟩
  | true =>
      rw [if_pos rfl] at hparty
      have hgot : (s.party p).Got (c.env p) [] := by
        unfold Party.Got
        rw [hparty]
        refine ⟨rfl, Nat.zero_add _, ?_⟩
        split
        · exact hbuf
        · exact (c.env p).junk_length 4
      refine ⟨by rw [hparty]; exact hbuf, ?_⟩
      exact listens_of_got hgot (by rw [htaken, List.append_nil]) hshown

theorem listens_sending (rest : List Byte) (conn : Bool) (buf : List Byte) (hbuf : buf.length = BUFF_SIZE)
    (hparty : s.party p = sending (c.env p) rest conn buf)
    (htaken : (s.wire p.other).taken = (said.take k).flatMap Word.frame)
    (hshown : s.shown p = (said.take k).flatMap Word.message) :
    (s.party p).buf.length = BUFF_SIZE ∧ (s.party p).pc.stop = none ∧ c.Listens s p said k := by
  unfold sending at hparty
  split at hparty
  · exact listens_resume conn buf hbuf hparty htaken hshown
  · unfold Setup.Listens
    rw [hparty]
    exact ⟨hbuf, rfl, htaken, hshown⟩

theorem listens_showing (rest buf : List Byte) (hbuf : buf.length = BUFF_SIZE)
    (hparty : s.party p = showing rest buf)
    (htaken : (s.wire p.other).taken = (said.take k).flatMap Word.frame)
    (hshown : s.shown p ++ rest = (said.take k).flatMap Word.message) :
    (s.party p).buf.length = BUFF_SIZE ∧ (s.party p).pc.stop = none ∧ c.Listens s p said k := by
  unfold showing at hparty
  unfold Setup.Listens
  split at hparty
  · rename_i hrest
    rw [hrest, List.append_nil] at hshown
    rw [hparty]
    exact ⟨hbuf, rfl, htaken, hshown⟩
  · rw [hparty]
    exact ⟨hbuf, rfl, htaken, hshown⟩

-- Its own step, after which it has stopped only if a call has failed.
theorem hears_own (hc : c.Agreed) {op : Op} (h : c.Moves s (p, op) s') (hok : c.Fitting s (p, op))
    (hs : (s.party p).pc.Sound) (hh : c.Hears s p said) :
    c.Hears s' p said ∧ (Fails (s.party p).pc op ∨ (s'.party p).pc.stop = none) := by
  have hlive := step_live h
  dsimp only at hlive
  obtain ⟨-, -, hsent⟩ := step_wire h
  dsimp only at hsent
  obtain ⟨k, hk, hlistens⟩ := hh.listens
  have hdone : ((s'.party p).pc.over = false → (s'.party p).buf.length = BUFF_SIZE) →
      (∃ k ≤ said.length, c.Listens s' p said k) → c.Hears s' p said := by
    intro hbuf hlistens
    refine ⟨hbuf, hh.coded, ?_, hlistens⟩
    rw [hsent]
    exact hh.sent
  cases h with
  | selects _ line buf h =>
      have hbuf := hh.buf hlive
      unfold Setup.Listens at hlistens
      rw [h] at hlistens hbuf
      obtain ⟨rest, hbegin⟩ := begin_sends hc line (s.readable p) buf hok
      obtain ⟨hlength, hstop, hlistens⟩ := listens_sending (c := c) (k := k)
        (s := (s.put p (begin (c.env p) (c.prompt p) line (s.readable p) buf)).hear p line) rest (s.readable p) buf
        hbuf (by rw [hear_party, put_party, hbegin]) (by rw [hear_wire]; exact hlistens.1)
        (by rw [hear_shown]; exact hlistens.2)
      exact ⟨hdone (fun _ => hlength) ⟨k, hk, hlistens⟩, .inr hstop⟩
  | writes _ rest conn buf n h hn hle hcap =>
      have hbuf := hh.buf hlive
      unfold Setup.Listens at hlistens
      rw [h] at hlistens hbuf
      obtain ⟨hlength, hstop, hlistens⟩ := listens_sending (c := c) (k := k)
        (s := (s.put p (sending (c.env p) (rest.drop n) conn buf)).setWire p
          ⟨(s.wire p).taken, (s.wire p).held ++ rest.take n⟩) (rest.drop n) conn buf hbuf (by simp)
        (by rw [setWire_wire_ne _ _ _ _ (Peer.other_ne p)]; exact hlistens.1) hlistens.2
      exact ⟨hdone (fun _ => hlength) ⟨k, hk, hlistens⟩, .inr hstop⟩
  | shows _ rest buf n h hn hle =>
      have hbuf := hh.buf hlive
      unfold Setup.Listens at hlistens
      rw [h] at hlistens hbuf
      obtain ⟨hlength, hstop, hlistens⟩ := listens_showing (c := c) (k := k)
        (s := (s.put p (showing (rest.drop n) buf)).show p (rest.take n)) (rest.drop n) buf hbuf (by simp)
        hlistens.1 (by rw [show_shown, put_shown, List.append_assoc, List.take_append_drop]; exact hlistens.2)
      exact ⟨hdone (fun _ => hlength) ⟨k, hk, hlistens⟩, .inr hstop⟩
  | reads _ count n h hn hle hlen =>
      obtain ⟨hbuf, hstop, hlistens⟩ := listens_received hh h hn hle hlen hk hlistens rfl
      exact ⟨hdone (fun _ => hbuf) hlistens, .inr hstop⟩
  | ends _ count n h hn hle hempty hover =>
      have hlistens := listens_hungUp hh h (hs.asks_pos h) hempty hover hlistens
      refine ⟨hdone (fun hlive => ?_) ⟨k, hk, hlistens⟩, .inr ?_⟩
      · simp [hungUp_pc, Pc.over] at hlive
      · simp [hungUp_pc, Pc.stop]
  | fails _ op h =>
      refine ⟨hdone (fun hlive => ?_) ⟨k, hk, ?_⟩, .inl h⟩
      · simp [State.exit, Pc.over] at hlive
      · unfold Setup.Listens
        simpa [State.exit] using hlistens.shown
  | kills _ h =>
      refine ⟨hdone (fun hlive => ?_) ⟨k, hk, ?_⟩, .inr ?_⟩
      · simp [Pc.over] at hlive
      · unfold Setup.Listens
        simpa using hlistens.shown
      · simp [Pc.stop]

end Listening

end CryptodevChat.Dialogue
