import CryptodevChat.Chat.Broadcast

namespace CryptodevChat.Chat

open Lib

def final {α : Type} : EStateM.Result Stop World α → World
  | .ok _ w => w
  | .error _ w => w

def Faults {α : Type} : EStateM.Result Stop World α → Prop
  | .error .fault _ => True
  | _ => False

section Transfers

-- A write loop may give up, but then it has written a prefix only.
theorem insistWrite_any (fd : Nat) (data : List Byte) (w : World) :
    ∃ n o moved, insistWrite fd data w = .ok n (w.setOut fd o) ∧ moved <+: data ∧
      o.sent = (w.out fd).sent ++ moved := by
  obtain ⟨moved, hmoved, hsent, _⟩ :=
    (Sink.insist_given data.length (w.out fd) data (Nat.le_refl _)).sent
  exact ⟨_, _, moved, insistWrite_run fd data w, hmoved, hsent⟩

-- Outside a full read only an error or the end of the stream is reported.
theorem insistRead_any (fd : Nat) (buf : List Byte) (off count : Nat) (w : World)
    (hoff : off + min count (w.inp fd).pending.length ≤ buf.length) :
    ∃ n next s, insistRead fd buf off count w = .ok (n, next) (w.setInp fd s) ∧
      next.length = buf.length ∧
      (n ≤ 0 ∨ n = count ∧ count ≤ (w.inp fd).pending.length ∧
        store buf off ((w.inp fd).pending.take count) = some next ∧
        s.pending = (w.inp fd).pending.drop count) := by
  have ht := Source.insist_taken count (w.inp fd) count (Nat.le_refl _)
  have hle := ht.le
  have hlen : (w.inp fd).pending.length = _ := congrArg List.length ht.split
  rw [List.length_append] at hlen
  have hb : off + ((w.inp fd).insist count count).1.length ≤ buf.length := by omega
  have hs := store_eq_some buf off _ hb
  refine ⟨_, _, _, insistRead_run fd buf _ off count w (by omega) hs, store_length _ _ _ _ hs, ?_⟩
  cases he : ((w.inp fd).insist count count).2.1 with
  | full =>
      have hfull := ht.full.mp he
      have hdata := ht.data_eq_take
      have hrest := ht.rest_eq_drop
      rw [hfull] at hdata hrest
      refine .inr ⟨rfl, by omega, ?_, hrest⟩
      rw [← hdata]
      exact hs
  | eof => exact .inl (Int.le_refl 0)
  | failed errno => exact .inl (by simp [code])

theorem insistRead_overrun (fd : Nat) (buf : List Byte) (count : Nat) (w : World)
    (hreliable : (w.inp fd).Reliable)
    (hover : buf.length < min count (w.inp fd).pending.length) :
    ∃ w', insistRead fd buf 0 count w = .error .fault w' := by
  have ht := Source.insist_taken count (w.inp fd) count (Nat.le_refl _)
  obtain ⟨hfull, heof, _⟩ := ht.reliable hreliable
  apply insistRead_fault fd buf 0 count w (Nat.zero_le _)
  apply store_eq_none
  rw [Nat.zero_add]
  by_cases hc : count ≤ (w.inp fd).pending.length
  · rw [ht.full.mp (hfull hc)]
    omega
  · rw [(heof (by omega)).2]
    omega

-- The two tests after a read that was not full leave the function.
theorem after_stop {α : Type} (n : Int) (hn : n ≤ 0) (r : α) (next : Proc α) (w : World) :
    (if n < 0 then exit 1 else if n ≤ 0 then pure r else next : Proc α) w = .ok r w ∨
      (if n < 0 then exit 1 else if n ≤ 0 then pure r else next : Proc α) w = .error (.exit 1) w := by
  by_cases h : n < 0
  · right; simp [h]
  · left; simp [h, hn]

theorem display_any (buf message : List Byte) (off size : Nat) (w : World)
    (h : load buf off size = some message) :
    ∃ o moved, moved <+: message ∧ o.sent = (w.out 0).sent ++ moved ∧
      (display buf off size w = .ok () (w.setOut 0 o) ∨
        display buf off size w = .error (.exit 1) (w.setOut 0 o)) := by
  obtain ⟨n, o, moved, hw, hmoved, hsent⟩ := insistWrite_any 0 message w
  refine ⟨o, moved, hmoved, hsent, ?_⟩
  unfold display
  rw [bind_ok _ _ _ _ _ (peek_run _ _ _ _ _ h), bind_ok _ _ _ _ _ hw]
  by_cases hn : n = size
  · left; simp [hn]
  · right; simp [hn]

end Transfers

section Block

variable (env : Env) (c : Cipher env.dev)

-- Reading an encrypted frame leaves its block at the start of the buffer.
theorem read_block_any (sd : Nat) (buf stream : List Byte) (w : World)
    (hbuf : DATA_SIZE ≤ buf.length) (hp : (w.inp sd).pending = stream) :
    ∃ n next s, insistRead sd buf 0 DATA_SIZE w = .ok (n, next) (w.setInp sd s) ∧
      next.length = buf.length ∧
      (n ≤ 0 ∨ n = DATA_SIZE ∧ DATA_SIZE ≤ stream.length ∧
        next.take DATA_SIZE = stream.take DATA_SIZE) := by
  obtain ⟨n, next, s, hread, hnext, hn⟩ := insistRead_any sd buf 0 DATA_SIZE w (by omega)
  refine ⟨n, next, s, hread, hnext, ?_⟩
  rcases hn with hn | ⟨rfl, hlen, hstore, _⟩
  · exact .inl hn
  · rw [hp] at hlen hstore
    have hblock : (stream.take DATA_SIZE).length = DATA_SIZE := by rw [List.length_take]; omega
    have htake := take_store_add _ _ _ _ hstore
    rw [Nat.zero_add, hblock, List.take_zero, List.nil_append] at htake
    exact .inr ⟨rfl, hlen, htake⟩

theorem decrypt_block (next block : List Byte) (w : World) (hblock : block.length = DATA_SIZE)
    (hnext : DATA_SIZE ≤ next.length) (htake : next.take DATA_SIZE = block) :
    decrypt env next w = .ok (c.dec block ++ next.drop DATA_SIZE) w ∧
      load (c.dec block ++ next.drop DATA_SIZE) 0 4 = some ((c.dec block).take 4) ∧
      ∀ size, size + 4 ≤ DATA_SIZE →
        load (c.dec block ++ next.drop DATA_SIZE) 4 size = some (((c.dec block).drop 4).take size) := by
  have hdlen := c.dec_length _ hblock
  have hsize := header_le_block
  have hdec := decrypt_run env c next w hnext
  rw [htake] at hdec
  refine ⟨hdec, ?_, ?_⟩
  · rw [load_eq_some _ 0 4 (by simp only [List.length_append, hdlen]; omega),
      List.drop_zero, List.take_append_of_le_length (by omega)]
  · intro size hs
    rw [load_eq_some _ 4 _ (by simp only [List.length_append, hdlen]; omega),
      List.drop_append_of_le_length (by omega),
      List.take_append_of_le_length (by rw [List.length_drop, hdlen]; omega)]

end Block

section GetAndPrint

variable (env : Env) (dec : List Byte → List Byte)

-- The payload bytes received in the frame at the start of a stream.
def payload (stream : List Byte) : List Byte :=
  if env.encrypted then (dec (stream.take DATA_SIZE)).drop 4
  else (stream.drop 4).take (headerSize stream)

-- A call stays inside its objects, and what it shows was received in the frame.
def Inside {α : Type} (stream : List Byte) (w : World) (r : EStateM.Result Stop World α) : Prop :=
  ¬Faults r ∧ ∃ shown, ((final r).out 0).sent = (w.out 0).sent ++ shown ∧
    shown <+: payload env dec stream

def RecvInside (stream : List Byte) : Prop :=
  ∀ buf sd w, buf.length = BUFF_SIZE → (w.inp sd).pending = stream →
    Inside env dec stream w (getAndPrint env buf sd w)

def RecvFits (stream : List Byte) : Prop :=
  if env.encrypted then
    DATA_SIZE ≤ stream.length → headerSize (dec (stream.take DATA_SIZE)) + 4 ≤ DATA_SIZE
  else 4 ≤ stream.length → min (headerSize stream) (stream.length - 4) ≤ BUFF_SIZE

theorem inside_silent {α : Type} (stream : List Byte) (w : World) (fd : Nat) (s : Source Byte)
    (r : EStateM.Result Stop World α) (a : α)
    (h : r = .ok a (w.setInp fd s) ∨ r = .error (.exit 1) (w.setInp fd s)) :
    Inside env dec stream w r := by
  rcases h with rfl | rfl <;>
    exact ⟨id, [], by simp [final], List.nil_prefix⟩

-- Showing a part of the payload and returning keeps the call inside.
theorem inside_display {α : Type} (stream buf message : List Byte) (off size : Nat) (w v : World)
    (a : α) (hv : v.out = w.out) (hload : load buf off size = some message)
    (hm : message <+: payload env dec stream) :
    Inside env dec stream w ((do display buf off size; return a : Proc α) v) := by
  obtain ⟨o, moved, hmoved, hsent, hrun⟩ := display_any buf message off size v hload
  have hshown : ((v.setOut 0 o).out 0).sent = (w.out 0).sent ++ moved := by
    rw [World.setOut_out, hsent, hv]
  rcases hrun with hrun | hrun
  · rw [bind_ok _ _ _ _ _ hrun]
    exact ⟨id, moved, hshown, hmoved.trans hm⟩
  · rw [bind_error _ _ _ _ _ hrun]
    exact ⟨id, moved, hshown, hmoved.trans hm⟩

theorem recvInside_plain (hmode : env.encrypted = false) (stream : List Byte)
    (hfit : RecvFits env dec stream) : RecvInside env dec stream := by
  intro buf sd w hbuf hp
  simp only [RecvFits, hmode, Bool.false_eq_true, if_false] at hfit
  have hjunk := env.junk_length 4
  unfold getAndPrint
  simp only [hmode, Bool.false_eq_true, if_false]
  obtain ⟨n, word, s, hread, _, hn⟩ := insistRead_any sd (env.junk 4) 0 4 w (by omega)
  rw [bind_ok _ _ _ _ _ hread]
  dsimp only
  rcases hn with hn | ⟨rfl, hlen, hword, hs⟩
  · exact inside_silent env dec stream w sd s _ _ (after_stop n hn _ _ _)
  · rw [after_full 4 (by omega)]
    rw [hp] at hlen hword hs
    have hsize : fromBe word = headerSize stream := by
      rw [store_all _ _ _ hword (by rw [hjunk, List.length_take]; omega)]
      rfl
    rw [hsize]
    have hrest : ((w.setInp sd s).inp sd).pending = stream.drop 4 := by simpa using hs
    obtain ⟨n, next, s', hread', hnext, hn⟩ := insistRead_any sd buf 0 (headerSize stream)
      (w.setInp sd s) (by
        rw [hrest, List.length_drop, hbuf]
        have := hfit hlen
        omega)
    rw [bind_ok _ _ _ _ _ hread']
    dsimp only
    rw [World.setInp_setInp]
    rcases hn with hn | ⟨rfl, hlen', hbody, _⟩
    · exact inside_silent env dec stream w sd s' _ _ (after_stop n hn _ _ _)
    · by_cases hzero : headerSize stream = 0
      · exact inside_silent env dec stream w sd s' _ _ (after_stop _ (by omega) _ _ _)
      · rw [after_full _ (by omega)]
        rw [hrest] at hbody hlen'
        have hload := load_store _ _ _ _ hbody
        have htake : ((stream.drop 4).take (headerSize stream)).length = headerSize stream := by
          rw [List.length_take]; omega
        rw [htake] at hload
        exact inside_display env dec stream next _ 0 _ w _ _ (by simp) hload (by
          simp [payload, hmode])

theorem recvInside_encrypted (hmode : env.encrypted = true) (c : Cipher env.dev)
    (stream : List Byte) (hfit : RecvFits env c.dec stream) : RecvInside env c.dec stream := by
  intro buf sd w hbuf hp
  simp only [RecvFits, hmode, if_true] at hfit
  have hsizes := block_le_buff
  unfold getAndPrint
  simp only [hmode, if_true]
  obtain ⟨n, next, s, hread, hnext, hn⟩ := read_block_any sd buf stream w (by omega) hp
  rw [bind_ok _ _ _ _ _ hread]
  dsimp only
  rcases hn with hn | ⟨rfl, hlen, htake⟩
  · exact inside_silent env c.dec stream w sd s _ _ (after_stop n hn _ _ _)
  · rw [after_full DATA_SIZE block_pos]
    have hblock : (stream.take DATA_SIZE).length = DATA_SIZE := by rw [List.length_take]; omega
    obtain ⟨hdec, hword, hload⟩ :=
      decrypt_block env c next _ (w.setInp sd s) hblock (by omega) htake
    rw [bind_ok _ _ _ _ _ hdec, bind_ok _ _ _ _ _ (peek_run _ _ _ _ _ hword), ← headerSize]
    exact inside_display env c.dec stream _ _ 4 _ w _ _ (by simp) (hload _ (hfit hlen)) (by
      simp only [payload, hmode, if_true]
      exact List.take_prefix _ _)

-- A stream that nothing delays, for a process that has not written anything.
def streamWorld (stream : List Byte) : World where
  inp := fun _ => ⟨stream, []⟩
  out := fun _ => ⟨[], []⟩
  locks := fun _ => 1

-- From such a stream a whole block is read.
theorem read_block (c : Cipher env.dev) (sd : Nat) (buf stream : List Byte)
    (hbuf : DATA_SIZE ≤ buf.length) (hlen : DATA_SIZE ≤ stream.length) :
    ∃ next s, insistRead sd buf 0 DATA_SIZE (streamWorld stream) =
        .ok ((DATA_SIZE : Nat), next) ((streamWorld stream).setInp sd s) ∧
      decrypt env next ((streamWorld stream).setInp sd s) =
        .ok (c.dec (stream.take DATA_SIZE) ++ next.drop DATA_SIZE)
          ((streamWorld stream).setInp sd s) ∧
      load (c.dec (stream.take DATA_SIZE) ++ next.drop DATA_SIZE) 0 4 =
        some ((c.dec (stream.take DATA_SIZE)).take 4) := by
  have hblock : (stream.take DATA_SIZE).length = DATA_SIZE := by rw [List.length_take]; omega
  have hstore := store_eq_some buf 0 (stream.take DATA_SIZE) (by omega)
  generalize List.take 0 _ ++ stream.take DATA_SIZE ++ List.drop _ _ = next at hstore
  have hnext := store_length _ _ _ _ hstore
  have htake := take_store_add _ _ _ _ hstore
  rw [Nat.zero_add, hblock, List.take_zero, List.nil_append] at htake
  obtain ⟨s, hread, _, _⟩ := insistRead_full sd buf next 0 DATA_SIZE (streamWorld stream)
    (fun t ht => by cases ht) hlen hstore
  obtain ⟨hdec, hword, _⟩ := decrypt_block env c next _ ((streamWorld stream).setInp sd s) hblock
    (by omega) htake
  exact ⟨next, s, hread, hdec, hword⟩

theorem payload_lt (c : Cipher env.dev) (hmode : env.encrypted = true) (stream : List Byte)
    (hlen : DATA_SIZE ≤ stream.length)
    (hover : DATA_SIZE < headerSize (c.dec (stream.take DATA_SIZE)) + 4) :
    (payload env c.dec stream).length < headerSize (c.dec (stream.take DATA_SIZE)) := by
  have hdlen := c.dec_length (stream.take DATA_SIZE) (by rw [List.length_take]; omega)
  have hsize := header_le_block
  simp only [payload, hmode, if_true, List.length_drop, hdlen]
  omega

-- The word that a full read of a header leaves.
theorem read_header (env : Env) (sd : Nat) (stream : List Byte) (w : World)
    (hr : (w.inp sd).Reliable) (hp : (w.inp sd).pending = stream) (hlen : 4 ≤ stream.length) :
    ∃ word s, insistRead sd (env.junk 4) 0 4 w = .ok ((4 : Nat), word) (w.setInp sd s) ∧
      fromBe word = headerSize stream ∧ s.pending = stream.drop 4 ∧ s.Reliable := by
  have hjunk := env.junk_length 4
  have ht : (stream.take 4).length = 4 := by rw [List.length_take]; omega
  have hstore := store_eq_some (env.junk 4) 0 ((w.inp sd).pending.take 4) (by rw [hp]; omega)
  obtain ⟨s, hread, hs, hrel⟩ := insistRead_full sd _ _ 0 4 w hr (by rw [hp]; omega) hstore
  refine ⟨_, s, hread, ?_, by rw [hs, hp], hrel⟩
  rw [store_all _ _ _ hstore (by rw [hp]; omega), hp]
  rfl

theorem getAndPrint_overrun (hmode : env.encrypted = false) (stream buf : List Byte) (sd : Nat)
    (w : World) (hr : (w.inp sd).Reliable) (hp : (w.inp sd).pending = stream)
    (hlen : 4 ≤ stream.length)
    (hover : buf.length < min (headerSize stream) (stream.length - 4)) :
    ∃ w', getAndPrint env buf sd w = .error .fault w' := by
  obtain ⟨word, s, hread, hsize, hs, hrel⟩ := read_header env sd stream w hr hp hlen
  obtain ⟨w', hfault⟩ := insistRead_overrun sd buf (headerSize stream) (w.setInp sd s)
    (by simpa using hrel) (by rw [World.setInp_inp, hs, List.length_drop]; exact hover)
  refine ⟨w', ?_⟩
  unfold getAndPrint
  simp only [hmode, Bool.false_eq_true, if_false]
  rw [bind_ok _ _ _ _ _ hread]
  dsimp only
  rw [after_full 4 (by omega), hsize, bind_error _ _ _ _ _ hfault]

-- More bytes than the payload has are read outside the buffer or from the
-- part of it that the frame did not fill.
theorem not_inside_display {α : Type} (stream buf : List Byte) (off size : Nat) (w v : World) (a : α)
    (hv : v.out = w.out) (hr : (v.out 0).Reliable)
    (hlong : (payload env dec stream).length < size) :
    ¬Inside env dec stream w ((do display buf off size; return a : Proc α) v) := by
  rintro ⟨hfault, shown, hshown, hsub⟩
  by_cases hb : off + size ≤ buf.length
  · have hload := load_eq_some buf off size hb
    obtain ⟨o, hrun, hsent, _⟩ := display_run buf _ off size v hload hr
    rw [bind_ok _ _ _ _ _ hrun] at hshown
    simp only [pure_run, final, World.setOut_out, hsent, hv, List.append_cancel_left_eq] at hshown
    have hl := hsub.length_le
    rw [← hshown, load_length _ _ _ _ hload] at hl
    omega
  · have hrun : display buf off size v = .error .fault v :=
      bind_error _ _ _ _ _ (peek_fault _ _ _ _ (by omega))
    rw [bind_error _ _ _ _ _ hrun] at hfault
    exact hfault trivial

theorem recvFits_of_inside (hcipher : env.encrypted = true → ∃ c : Cipher env.dev, c.dec = dec)
    (stream : List Byte) (hin : RecvInside env dec stream) : RecvFits env dec stream := by
  have hbuf : (List.replicate BUFF_SIZE (0 : Byte)).length = BUFF_SIZE := List.length_replicate
  have hr : ∀ fd, ((streamWorld stream).inp fd).Reliable := fun _ t ht => by cases ht
  have hw : ∀ fd, ((streamWorld stream).out fd).Reliable := fun _ t ht => by cases ht
  have hcall := hin (List.replicate BUFF_SIZE 0) 4 (streamWorld stream) hbuf rfl
  unfold RecvFits
  cases hmode : env.encrypted with
  | false =>
      simp only [Bool.false_eq_true, if_false]
      intro hlen
      by_contra hover
      obtain ⟨w', hfault⟩ := getAndPrint_overrun env hmode stream (List.replicate BUFF_SIZE 0) 4
        (streamWorld stream) (hr 4) rfl hlen (by omega)
      rw [hfault] at hcall
      exact hcall.1 trivial
  | true =>
      obtain ⟨c, rfl⟩ := hcipher hmode
      simp only [if_true]
      intro hlen
      by_contra hover
      obtain ⟨next, s, hread, hdec, hword⟩ := read_block env c 4 (List.replicate BUFF_SIZE 0) stream
        (by rw [hbuf]; decide) hlen
      unfold getAndPrint at hcall
      simp only [hmode, if_true] at hcall
      rw [bind_ok _ _ _ _ _ hread] at hcall
      dsimp only at hcall
      rw [after_full DATA_SIZE block_pos, bind_ok _ _ _ _ _ hdec,
        bind_ok _ _ _ _ _ (peek_run _ _ _ _ _ hword), ← headerSize] at hcall
      refine not_inside_display env c.dec stream _ 4 _ (streamWorld stream)
        ((streamWorld stream).setInp 4 s) _ rfl ?_ ?_ hcall
      · simpa using hw 0
      · exact payload_lt env c hmode stream hlen (by omega)

end GetAndPrint

section Forward

variable (env : Env) (enc dec : List Byte → List Byte)

-- What can be computed from the received block without any other byte.
inductive Derived (plain : List Byte) : List Byte → Prop
  | received : Derived plain plain
  | encrypted (block : List Byte) (count : Nat) (derived : Derived plain block) :
      Derived plain (enc (pad (block.take count)))

def Relayed (stream moved : List Byte) : Prop :=
  if env.encrypted then ∃ block, Derived enc (dec (stream.take DATA_SIZE)) block ∧ moved <+: block
  else moved <+: stream.take (headerSize stream + 4)

-- A call of `forward` stays inside, and so does what it sends to each client.
def CallInside (stream : List Byte) (clients : Clients) (w : World)
    (r : EStateM.Result Stop World Int) : Prop :=
  Inside env dec stream w r ∧
  ∀ client < clients.noClient, ∃ moved, Relayed env enc dec stream moved ∧
    ((final r).out (clients.newsdServe client)).sent =
      (w.out (clients.newsdServe client)).sent ++ moved

def ForwardInside (stream : List Byte) : Prop :=
  ∀ clients sd me w, Tables clients w → (w.inp sd).pending = stream →
    CallInside env enc dec stream clients w (forward env clients sd me w)

def ForwardFits (stream : List Byte) : Prop :=
  env.encrypted = true → DATA_SIZE ≤ stream.length →
    headerSize (dec (stream.take DATA_SIZE)) + 4 ≤ DATA_SIZE

theorem relayed_nil (stream : List Byte) : Relayed env enc dec stream [] := by
  unfold Relayed
  split_ifs
  · exact ⟨_, .received, List.nil_prefix⟩
  · exact List.nil_prefix

-- Every round sends something good from a good buffer and leaves a good
-- buffer; then so does the loop, whether or not a write fails on the way.
theorem distribute_any (clients : Clients) (me size : Nat) (I Good : List Byte → Prop)
    (hnil : Good [])
    (hsend : ∀ fd buf w, I buf → ∃ o moved, Good moved ∧ o.sent = (w.out fd).sent ++ moved ∧
      ((∃ next, I next ∧ sendTo env fd size buf w = .ok next (w.setOut fd o)) ∨
        sendTo env fd size buf w = .error (.exit 1) (w.setOut fd o)))
    (slots : List Nat) (buf : List Byte) (w : World) (hbuf : I buf)
    (hlocks : ∀ client ∈ slots, w.locks client = 1) (hnodup : slots.Nodup)
    (hinj : ∀ i ∈ slots, ∀ j ∈ slots, clients.newsdServe i = clients.newsdServe j → i = j) :
    ∃ w', (distribute env clients me size slots buf w = .ok () w' ∨
        distribute env clients me size slots buf w = .error (.exit 1) w') ∧
      (∀ client ∈ slots, ∃ moved, Good moved ∧ (w'.out (clients.newsdServe client)).sent =
        (w.out (clients.newsdServe client)).sent ++ moved) ∧
      ∀ fd, (∀ client ∈ slots, clients.newsdServe client ≠ fd) → w'.out fd = w.out fd := by
  induction slots generalizing buf w with
  | nil => exact ⟨w, .inl rfl, by simp, fun _ _ => rfl⟩
  | cons client rest ih =>
      obtain ⟨hnot, hnodup⟩ := List.nodup_cons.mp hnodup
      have hlocks' := fun i hi => hlocks i (List.mem_cons_of_mem client hi)
      have hinj' := fun i hi j hj =>
        hinj i (List.mem_cons_of_mem client hi) j (List.mem_cons_of_mem client hj)
      have hne : ∀ i ∈ rest, clients.newsdServe i ≠ clients.newsdServe client := by
        intro i hi he
        have := hinj i (List.mem_cons_of_mem client hi) client (by simp) he
        exact hnot (this ▸ hi)
      unfold distribute
      by_cases hme : client = me
      · simp only [hme, if_true]
        obtain ⟨w', hrun, hsent, hkept⟩ := ih buf w hbuf hlocks' hnodup hinj'
        refine ⟨w', hrun, ?_, fun fd hfd => hkept fd fun i hi => hfd i (List.mem_cons_of_mem _ hi)⟩
        intro i hi
        rcases List.mem_cons.mp hi with rfl | hi
        · exact ⟨[], hnil, by rw [← hme, hkept _ hne, List.append_nil]⟩
        · exact hsent i hi
      · have hfree := hlocks client (by simp)
        simp only [hme, if_false]
        rw [bind_ok _ _ _ _ _ (semWait_run client w hfree)]
        obtain ⟨o, moved, hgood, ho, hrun⟩ := hsend (clients.newsdServe client) buf
          { w with locks := Function.update w.locks client 0 } hbuf
        rcases hrun with ⟨next, hnext, hrun⟩ | hrun
        · rw [bind_ok _ _ _ _ _ hrun, bind_ok _ _ _ _ _ (semPost_run client w _ o hfree)]
          obtain ⟨w', hrest, hsent, hkept⟩ := ih next (w.setOut (clients.newsdServe client) o) hnext
            (by simpa using hlocks') hnodup hinj'
          refine ⟨w', hrest, ?_, ?_⟩
          · intro i hi
            rcases List.mem_cons.mp hi with rfl | hi
            · exact ⟨moved, hgood, by rw [hkept _ hne, World.setOut_out, ho]⟩
            · obtain ⟨moved', hgood', hm⟩ := hsent i hi
              exact ⟨moved', hgood', by rw [hm, World.setOut_out_ne _ _ _ _ (hne i hi)]⟩
          · intro fd hfd
            rw [hkept fd fun i hi => hfd i (List.mem_cons_of_mem _ hi),
              World.setOut_out_ne _ _ _ _ (Ne.symm (hfd client (by simp)))]
        · rw [bind_error _ _ _ _ _ hrun]
          refine ⟨_, .inr rfl, ?_, ?_⟩
          · intro i hi
            rcases List.mem_cons.mp hi with rfl | hi
            · exact ⟨moved, hgood, by rw [World.setOut_out, ho]⟩
            · exact ⟨[], hnil, by rw [World.setOut_out_ne _ _ _ _ (hne i hi), List.append_nil]⟩
          · intro fd hfd
            rw [World.setOut_out_ne _ _ _ _ (Ne.symm (hfd client (by simp)))]

theorem sendTo_any_encrypted (hmode : env.encrypted = true) (c : Cipher env.dev) (plain : List Byte)
    (fd size : Nat) (buf : List Byte) (w : World) (hs : size + 4 ≤ DATA_SIZE)
    (hbuf : DATA_SIZE ≤ buf.length ∧ Derived c.enc plain (buf.take DATA_SIZE)) :
    ∃ o moved, (∃ block, Derived c.enc plain block ∧ moved <+: block) ∧
      o.sent = (w.out fd).sent ++ moved ∧
      ((∃ next, (DATA_SIZE ≤ next.length ∧ Derived c.enc plain (next.take DATA_SIZE)) ∧
          sendTo env fd size buf w = .ok next (w.setOut fd o)) ∨
        sendTo env fd size buf w = .error (.exit 1) (w.setOut fd o)) := by
  have hlen := image_length env c size buf hs
  have hderived : Derived c.enc plain (image env c size buf) := by
    have h := Derived.encrypted (buf.take DATA_SIZE) (size + 4) hbuf.2
    rwa [List.take_take, Nat.min_eq_left hs] at h
  have hload : load (image env c size buf ++ buf.drop DATA_SIZE) 0 DATA_SIZE =
      some (image env c size buf) := by
    rw [load_eq_some _ 0 _ (by simp [hlen]), List.drop_zero, List.take_left' hlen]
  obtain ⟨n, o, moved, hw, hmoved, hsent⟩ := insistWrite_any fd (image env c size buf) w
  refine ⟨o, moved, ⟨_, hderived, hmoved⟩, hsent, ?_⟩
  unfold sendTo
  simp only [hmode, if_true]
  rw [bind_ok _ _ _ _ _ (encrypt_run env c buf (size + 4) w hbuf.1 hs), ← image,
    bind_ok _ _ _ _ _ (peek_run _ _ _ _ _ hload), bind_ok _ _ _ _ _ hw]
  by_cases hn : n = DATA_SIZE
  · refine .inl ⟨image env c size buf ++ buf.drop DATA_SIZE, ⟨by simp [hlen], ?_⟩, by simp [hn]⟩
    rw [List.take_left' hlen]
    exact hderived
  · exact .inr (by simp [hn])

theorem sendTo_any_plain (hmode : env.encrypted = false) (frame : List Byte) (fd size : Nat)
    (buf : List Byte) (w : World)
    (hbuf : size + 4 ≤ buf.length ∧ buf.take (size + 4) = frame) :
    ∃ o moved, moved <+: frame ∧ o.sent = (w.out fd).sent ++ moved ∧
      ((∃ next, (size + 4 ≤ next.length ∧ next.take (size + 4) = frame) ∧
          sendTo env fd size buf w = .ok next (w.setOut fd o)) ∨
        sendTo env fd size buf w = .error (.exit 1) (w.setOut fd o)) := by
  have hload : load buf 0 (size + 4) = some frame := by
    rw [load_eq_some buf 0 _ (by omega), List.drop_zero, hbuf.2]
  obtain ⟨n, o, moved, hw, hmoved, hsent⟩ := insistWrite_any fd frame w
  refine ⟨o, moved, hmoved, hsent, ?_⟩
  unfold sendTo
  simp only [hmode, Bool.false_eq_true, if_false]
  rw [bind_ok _ _ _ _ _ (peek_run _ _ _ _ _ hload), bind_ok _ _ _ _ _ hw]
  by_cases hn : n = (size + 4 : Nat)
  · exact .inl ⟨buf, hbuf, by simp [hn]⟩
  · exact .inr (by simp only [ne_eq, hn, not_false_eq_true, if_true, exit_run])

theorem callInside_silent (stream : List Byte) (clients : Clients) (w : World) (fd : Nat)
    (s : Source Byte) (r : EStateM.Result Stop World Int) (a : Int)
    (h : r = .ok a (w.setInp fd s) ∨ r = .error (.exit 1) (w.setInp fd s)) :
    CallInside env enc dec stream clients w r := by
  refine ⟨inside_silent env dec stream w fd s r a h, fun client _ => ?_⟩
  refine ⟨[], relayed_nil env enc dec stream, ?_⟩
  rcases h with rfl | rfl <;> simp [final]

-- The display and the loop together, from a buffer that holds the frame.
theorem relay_any (stream buf message : List Byte) (clients : Clients) (me size : Nat) (w v : World)
    (I : List Byte → Prop) (ht : Tables clients v) (hv : v.out = w.out)
    (hload : load buf 4 size = some message) (hm : message <+: payload env dec stream) (hbuf : I buf)
    (hsend : ∀ fd buf w, I buf → ∃ o moved, Relayed env enc dec stream moved ∧
      o.sent = (w.out fd).sent ++ moved ∧
      ((∃ next, I next ∧ sendTo env fd size buf w = .ok next (w.setOut fd o)) ∨
        sendTo env fd size buf w = .error (.exit 1) (w.setOut fd o))) :
    CallInside env enc dec stream clients w (relay env clients me size buf v) := by
  obtain ⟨o, shown, hshown, hsent, hrun⟩ := display_any buf message 4 size v hload
  have hkept : ∀ client < clients.noClient,
      (v.setOut 0 o).out (clients.newsdServe client) = w.out (clients.newsdServe client) := by
    intro client hlt
    rw [World.setOut_out_ne _ _ _ _ (ht.notStdout client hlt), hv]
  have hstdout : ((v.setOut 0 o).out 0).sent = (w.out 0).sent ++ shown := by
    rw [World.setOut_out, hsent, hv]
  unfold relay
  rcases hrun with hrun | hrun
  · rw [bind_ok _ _ _ _ _ hrun]
    have hmem : ∀ i ∈ List.range clients.noClient, i < clients.noClient := fun i hi =>
      List.mem_range.mp hi
    obtain ⟨w', hloop, hmoved, hrest⟩ := distribute_any env clients me size I
      (Relayed env enc dec stream) (relayed_nil env enc dec stream) hsend
      (List.range clients.noClient) buf (v.setOut 0 o) hbuf
      (fun i hi => by simpa using ht.free i (hmem i hi)) List.nodup_range
      (fun i hi j hj => ht.distinct i (hmem i hi) j (hmem j hj))
    have hzero : (w'.out 0).sent = (w.out 0).sent ++ shown := by
      rw [hrest 0 fun i hi => ht.notStdout i (hmem i hi), hstdout]
    have hclients : ∀ client < clients.noClient, ∃ moved, Relayed env enc dec stream moved ∧
        (w'.out (clients.newsdServe client)).sent =
          (w.out (clients.newsdServe client)).sent ++ moved := by
      intro client hlt
      obtain ⟨moved, hgood, hm⟩ := hmoved client (List.mem_range.mpr hlt)
      exact ⟨moved, hgood, by rw [hm, hkept client hlt]⟩
    rcases hloop with hloop | hloop
    · rw [bind_ok _ _ _ _ _ hloop]
      exact ⟨⟨id, shown, hzero, hshown.trans hm⟩, hclients⟩
    · rw [bind_error _ _ _ _ _ hloop]
      exact ⟨⟨id, shown, hzero, hshown.trans hm⟩, hclients⟩
  · rw [bind_error _ _ _ _ _ hrun]
    refine ⟨⟨id, shown, hstdout, hshown.trans hm⟩, fun client hlt => ?_⟩
    exact ⟨[], relayed_nil env enc dec stream, by simp [final, hkept client hlt]⟩

-- Receiving changes neither the tables nor what has been sent.
theorem Tables.setInp {clients : Clients} {w : World} (ht : Tables clients w) (fd : Nat)
    (s : Source Byte) : Tables clients (w.setInp fd s) where
  table := ht.table
  distinct := ht.distinct
  notStdout := ht.notStdout
  free := by simpa using ht.free

-- The block that is allocated has room for whatever the header announces.
theorem forwardInside_plain (hmode : env.encrypted = false)
    (halloc : ∀ size, env.mallocs size = true) (stream : List Byte) :
    ForwardInside env enc dec stream := by
  intro clients sd me w ht hp
  have hjunk := env.junk_length 4
  unfold forward
  simp only [hmode, Bool.false_eq_true, if_false, Env.malloc, halloc, if_true]
  obtain ⟨n, word, s, hread, _, hn⟩ := insistRead_any sd (env.junk 4) 0 4 w (by omega)
  rw [bind_ok _ _ _ _ _ hread]
  dsimp only
  rcases hn with hn | ⟨rfl, hlen, hword, hs⟩
  · exact callInside_silent env enc dec stream clients w sd s _ _ (after_stop n hn _ _ _)
  rw [after_full 4 (by omega)]
  rw [hp] at hlen hword hs
  have hfour : (stream.take 4).length = 4 := by rw [List.length_take]; omega
  have hall := store_all _ _ _ hword (by rw [hjunk, hfour])
  subst hall
  have hheader : be 4 (fromBe (stream.take 4)) = stream.take 4 := by
    have h := be_fromBe (stream.take 4)
    rwa [hfour] at h
  have hblock := env.junk_length (8 * (fromBe (stream.take 4) + 4))
  have hfirst := store_eq_some (env.junk (8 * (fromBe (stream.take 4) + 4))) 0 (stream.take 4)
    (by omega)
  rw [hheader, bind_ok _ _ _ _ _ (poke_run _ _ _ _ _ hfirst)]
  generalize List.take 0 _ ++ stream.take 4 ++ List.drop _ _ = buf at hfirst
  have hbuf := store_length _ _ _ _ hfirst
  have hrest : ((w.setInp sd s).inp sd).pending = stream.drop 4 := by simpa using hs
  obtain ⟨n, next, s', hread', _, hn⟩ := insistRead_any sd buf 4 (fromBe (stream.take 4))
    (w.setInp sd s) (by omega)
  rw [bind_ok _ _ _ _ _ hread']
  dsimp only
  rw [World.setInp_setInp]
  rcases hn with hn | ⟨rfl, hlen', hbody, _⟩
  · exact callInside_silent env enc dec stream clients w sd s' _ _ (after_stop n hn _ _ _)
  by_cases hzero : fromBe (stream.take 4) = 0
  · exact callInside_silent env enc dec stream clients w sd s' _ _ (after_stop _ (by omega) _ _ _)
  rw [after_full _ (by omega)]
  rw [hrest] at hbody hlen'
  have hpayload : ((stream.drop 4).take (fromBe (stream.take 4))).length =
      fromBe (stream.take 4) := by
    rw [List.length_take]; omega
  have hload := load_store _ _ _ _ hbody
  rw [hpayload] at hload
  have hframe : next.take (fromBe (stream.take 4) + 4) = stream.take (headerSize stream + 4) := by
    have hbefore := take_store_add _ _ _ _ hfirst
    have htake := take_store_add _ _ _ _ hbody
    rw [Nat.zero_add, hfour, List.take_zero, List.nil_append] at hbefore
    rw [hpayload, hbefore] at htake
    rw [Nat.add_comm, htake, headerSize, Nat.add_comm, List.take_add]
  have hnext := store_length _ _ _ _ hbody
  have hmoved : ∀ moved, moved <+: stream.take (headerSize stream + 4) →
      Relayed env enc dec stream moved := by
    intro moved hmoved
    simpa only [Relayed, hmode, Bool.false_eq_true, if_false] using hmoved
  apply relay_any env enc dec stream next _ clients me _ w (w.setInp sd s')
    (fun buf => fromBe (stream.take 4) + 4 ≤ buf.length ∧
      buf.take (fromBe (stream.take 4) + 4) = stream.take (headerSize stream + 4))
    (ht.setInp sd s') (by simp) hload
  · simp [payload, hmode, headerSize]
  · exact ⟨by omega, hframe⟩
  · intro fd buf v hgood
    obtain ⟨o, moved, hsub, hsent, hrun⟩ :=
      sendTo_any_plain env hmode _ fd (fromBe (stream.take 4)) buf v hgood
    exact ⟨o, moved, hmoved moved hsub, hsent, hrun⟩

theorem forwardInside_encrypted (hmode : env.encrypted = true)
    (halloc : ∀ size, env.mallocs size = true) (c : Cipher env.dev) (stream : List Byte)
    (hfit : ForwardFits env c.dec stream) : ForwardInside env c.enc c.dec stream := by
  intro clients sd me w ht hp
  have hsizes := block_le_buff
  have hjunk := env.junk_length (8 * BUFF_SIZE)
  unfold forward
  simp only [hmode, if_true, Env.malloc, halloc]
  obtain ⟨n, next, s, hread, hnext, hn⟩ :=
    read_block_any sd (env.junk (8 * BUFF_SIZE)) stream w (by omega) hp
  rw [bind_ok _ _ _ _ _ hread]
  dsimp only
  rcases hn with hn | ⟨rfl, hlen, htake⟩
  · exact callInside_silent env c.enc c.dec stream clients w sd s _ _ (after_stop n hn _ _ _)
  rw [after_full DATA_SIZE block_pos]
  have hblock : (stream.take DATA_SIZE).length = DATA_SIZE := by rw [List.length_take]; omega
  have hdlen := c.dec_length _ hblock
  obtain ⟨hdec, hword, hload⟩ := decrypt_block env c next _ (w.setInp sd s) hblock (by omega) htake
  rw [bind_ok _ _ _ _ _ hdec, bind_ok _ _ _ _ _ (peek_run _ _ _ _ _ hword), ← headerSize]
  have hs := hfit hmode hlen
  have hmoved : ∀ moved,
      (∃ block, Derived c.enc (c.dec (stream.take DATA_SIZE)) block ∧ moved <+: block) →
      Relayed env c.enc c.dec stream moved := by
    intro moved hmoved
    simpa only [Relayed, hmode, if_true] using hmoved
  apply relay_any env c.enc c.dec stream _ _ clients me _ w (w.setInp sd s)
    (fun buf => DATA_SIZE ≤ buf.length ∧
      Derived c.enc (c.dec (stream.take DATA_SIZE)) (buf.take DATA_SIZE))
    (ht.setInp sd s) (by simp) (hload _ hs)
  · simp only [payload, hmode, if_true]
    exact List.take_prefix _ _
  · refine ⟨by simp [hdlen], ?_⟩
    rw [List.take_left' hdlen]
    exact .received
  · intro fd buf v hgood
    obtain ⟨o, moved, hsub, hsent, hrun⟩ :=
      sendTo_any_encrypted env hmode c _ fd _ buf v hs hgood
    exact ⟨o, moved, hmoved moved hsub, hsent, hrun⟩

-- A server that no client has been counted in only displays.
theorem forwardFits_of_inside (hmode : env.encrypted = true)
    (halloc : ∀ size, env.mallocs size = true) (c : Cipher env.dev) (stream : List Byte)
    (hin : ForwardInside env c.enc c.dec stream) : ForwardFits env c.dec stream := by
  intro _ hlen
  by_contra hover
  have ht : Tables ⟨fun _ => 0, 0⟩ (streamWorld stream) :=
    ⟨Nat.zero_le _, nofun, nofun, nofun⟩
  obtain ⟨hcall, _⟩ := hin ⟨fun _ => 0, 0⟩ 4 0 (streamWorld stream) ht rfl
  obtain ⟨next, s, hread, hdec, hword⟩ := read_block env c 4 (env.junk (8 * BUFF_SIZE)) stream
    (by rw [env.junk_length]; decide) hlen
  unfold forward at hcall
  simp only [hmode, if_true, Env.malloc, halloc] at hcall
  rw [bind_ok _ _ _ _ _ hread] at hcall
  dsimp only at hcall
  rw [after_full DATA_SIZE block_pos, bind_ok _ _ _ _ _ hdec,
    bind_ok _ _ _ _ _ (peek_run _ _ _ _ _ hword), ← headerSize] at hcall
  refine not_inside_display env c.dec stream _ 4 _ (streamWorld stream)
    ((streamWorld stream).setInp 4 s) (0 : Int) rfl ?_ ?_ hcall
  · rintro t ht
    cases ht
  · exact payload_lt env c hmode stream hlen (by omega)

end Forward

-- On each path, the peer's stream keeps every access inside its object and
-- every shown or relayed byte inside the frame exactly when it fits.
theorem inside_iff_fits (env : Env) (enc dec : List Byte → List Byte)
    (halloc : ∀ size, env.mallocs size = true)
    (hcipher : env.encrypted = true → ∃ c : Cipher env.dev, c.enc = enc ∧ c.dec = dec)
    (stream : List Byte) :
    (RecvInside env dec stream ↔ RecvFits env dec stream) ∧
    (ForwardInside env enc dec stream ↔ ForwardFits env dec stream) := by
  have hdec : env.encrypted = true → ∃ c : Cipher env.dev, c.dec = dec := fun hmode =>
    let ⟨c, _, hc⟩ := hcipher hmode
    ⟨c, hc⟩
  refine ⟨⟨recvFits_of_inside env dec hdec stream, ?_⟩, ?_, ?_⟩
  · intro hfit
    cases hmode : env.encrypted with
    | false => exact recvInside_plain env dec hmode stream hfit
    | true =>
        obtain ⟨c, rfl⟩ := hdec hmode
        exact recvInside_encrypted env hmode c stream hfit
  · intro hin hmode
    obtain ⟨c, rfl, rfl⟩ := hcipher hmode
    exact forwardFits_of_inside env hmode halloc c stream hin hmode
  · intro hfit
    cases hmode : env.encrypted with
    | false => exact forwardInside_plain env enc dec hmode halloc stream
    | true =>
        obtain ⟨c, rfl, rfl⟩ := hcipher hmode
        exact forwardInside_encrypted env hmode halloc c stream hfit

section Greeting

theorem greeting_inside : RecvInside greetingEnv greetingCipher.dec greetingImage ∧
    ForwardInside greetingEnv greetingCipher.enc greetingCipher.dec greetingImage := by
  obtain ⟨hrecv, hforward⟩ := inside_iff_fits greetingEnv greetingCipher.enc greetingCipher.dec
    (fun _ => rfl) (fun _ => ⟨greetingCipher, rfl, rfl⟩) greetingImage
  have htake : greetingImage.take DATA_SIZE = greetingImage :=
    List.take_of_length_le (Nat.le_of_eq greeting_length.2.1)
  have hfits : headerSize (greetingCipher.dec (greetingImage.take DATA_SIZE)) + 4 ≤ DATA_SIZE := by
    rw [htake, greeting_size]
    decide
  exact ⟨hrecv.mpr fun _ => hfits, hforward.mpr fun _ _ => hfits⟩

def plainEnv : Env := { greetingEnv with encrypted := false }

-- A header one above the size of the receiving buffer, and as many bytes.
def overlong : List Byte := be 4 301 ++ List.replicate 301 0x61

theorem overlong_faults :
    (∃ w, getAndPrint plainEnv (List.replicate BUFF_SIZE 0) 4 (streamWorld overlong) =
      .error .fault w) ∧ ¬RecvInside plainEnv greetingCipher.dec overlong := by
  have hlen : overlong.length = 305 := by
    rw [overlong, List.length_append, be_length, List.length_replicate]
  have hsize : headerSize overlong = 301 := by
    rw [headerSize, overlong, List.take_left' (be_length 4 301), fromBe_be]
    decide
  obtain ⟨w, hfault⟩ := getAndPrint_overrun plainEnv rfl overlong (List.replicate BUFF_SIZE 0) 4
    (streamWorld overlong) (fun t ht => by cases ht) rfl (by omega)
    (by rw [hsize, hlen, List.length_replicate]; decide)
  refine ⟨⟨w, hfault⟩, fun hinside => ?_⟩
  have hcall := hinside (List.replicate BUFF_SIZE 0) 4 (streamWorld overlong)
    List.length_replicate rfl
  rw [hfault] at hcall
  exact hcall.1 trivial

end Greeting

end CryptodevChat.Chat
