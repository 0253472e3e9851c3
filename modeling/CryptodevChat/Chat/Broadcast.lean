import CryptodevChat.Chat.Forward
import CryptodevChat.Chat.Cipher

namespace CryptodevChat.Chat

open Lib

theorem semWait_run (client : Nat) (w : World) (h : w.locks client = 1) :
    semWait client w = .ok () { w with locks := Function.update w.locks client 0 } := by
  simp [semWait, h]

-- A free semaphore is free again after the round that took it.
theorem semPost_run (client : Nat) (w : World) (fd : Nat) (o : Sink Byte)
    (h : w.locks client = 1) :
    semPost client ({ w with locks := Function.update w.locks client 0 }.setOut fd o) =
      .ok () (w.setOut fd o) := by
  have hl : Function.update w.locks client 1 = w.locks := by
    rw [← h]
    exact Function.update_eq_self client w.locks
  simp [semPost, World.setOut, hl]

section Distribution

def recipients (me : Nat) (slots : List Nat) : List Nat := slots.filter fun client => client ≠ me

-- What a loop gives to each of these when it sends `data buf` and goes on with `next buf`.
def shares (next data : List Byte → List Byte) : List Nat → List Byte → List (Nat × List Byte)
  | [], _ => []
  | client :: rest, buf => (client, data buf) :: shares next data rest (next buf)

theorem shares_fst (next data : List Byte → List Byte) (clients : List Nat) (buf : List Byte) :
    (shares next data clients buf).map Prod.fst = clients := by
  induction clients generalizing buf with
  | nil => rfl
  | cons client rest ih => simp [shares, ih]

theorem mem_shares_const (next : List Byte → List Byte) (frame : List Byte) (client : Nat)
    (targets : List Nat) (buf : List Byte) (h : client ∈ targets) :
    (client, frame) ∈ shares next (fun _ => frame) targets buf := by
  induction targets generalizing buf with
  | nil => exact absurd h List.not_mem_nil
  | cons first rest ih =>
      rw [shares]
      rcases List.mem_cons.mp h with rfl | h
      · exact List.mem_cons_self
      · exact List.mem_cons_of_mem _ (ih _ h)

-- The recipients have been sent their shares, and everything else is as it was.
structure Shared (clients : Clients) (targets : List Nat) (given : List (Nat × List Byte))
    (w w' : World) : Prop where
  inp : w'.inp = w.inp
  locks : w'.locks = w.locks
  writes : ∀ fd, (w'.out fd).Reliable
  sent : ∀ share ∈ given, (w'.out (clients.newsdServe share.1)).sent =
    (w.out (clients.newsdServe share.1)).sent ++ share.2
  others : ∀ fd, (∀ client ∈ targets, clients.newsdServe client ≠ fd) → w'.out fd = w.out fd

-- A loop whose rounds all send everything.
theorem distribute_shares (env : Env) (next data : List Byte → List Byte) (I : List Byte → Prop)
    (clients : Clients) (me size : Nat)
    (hsend : ∀ fd buf w, I buf → (w.out fd).Reliable →
      ∃ o, sendTo env fd size buf w = .ok (next buf) (w.setOut fd o) ∧
        o.sent = (w.out fd).sent ++ data buf ∧ o.Reliable ∧ I (next buf))
    (slots : List Nat) (buf : List Byte) (w : World) (hbuf : I buf) (hout : ∀ fd, (w.out fd).Reliable)
    (hlocks : ∀ client ∈ slots, w.locks client = 1) (hnodup : slots.Nodup)
    (hinj : ∀ i ∈ slots, ∀ j ∈ slots, clients.newsdServe i = clients.newsdServe j → i = j) :
    ∃ w', distribute env clients me size slots buf w = .ok () w' ∧
      Shared clients (recipients me slots) (shares next data (recipients me slots) buf) w w' := by
  induction slots generalizing buf w with
  | nil => exact ⟨w, rfl, rfl, rfl, hout, by simp [recipients, shares], fun _ _ => rfl⟩
  | cons client rest ih =>
      obtain ⟨hnot, hnodup⟩ := List.nodup_cons.mp hnodup
      have hlocks' := fun i hi => hlocks i (List.mem_cons_of_mem client hi)
      have hinj' := fun i hi j hj =>
        hinj i (List.mem_cons_of_mem client hi) j (List.mem_cons_of_mem client hj)
      unfold distribute
      by_cases hme : client = me
      · have hsame : recipients me (client :: rest) = recipients me rest := by simp [recipients, hme]
        rw [if_pos hme, hsame]
        exact ih buf w hbuf hout hlocks' hnodup hinj'
      · have hne : ∀ i ∈ recipients me rest, clients.newsdServe i ≠ clients.newsdServe client := by
          intro i hi he
          have hi := (List.mem_filter.mp hi).1
          have := hinj i (List.mem_cons_of_mem client hi) client (by simp) he
          exact hnot (this ▸ hi)
        have hcons : recipients me (client :: rest) = client :: recipients me rest := by
          simp [recipients, hme]
        have hfree := hlocks client (by simp)
        obtain ⟨o, hrun, ho, hrel, hnext⟩ := hsend (clients.newsdServe client) buf
          { w with locks := Function.update w.locks client 0 } hbuf (hout _)
        have hout' : ∀ fd, ((w.setOut (clients.newsdServe client) o).out fd).Reliable :=
          World.setOut_reliable _ _ _ hrel hout
        obtain ⟨w', hrest, hdone⟩ := ih (next buf) (w.setOut (clients.newsdServe client) o) hnext
          hout' (by simpa using hlocks') hnodup hinj'
        rw [if_neg hme, bind_ok _ _ _ _ _ (semWait_run client w hfree), bind_ok _ _ _ _ _ hrun,
          bind_ok _ _ _ _ _ (semPost_run client w _ o hfree), hcons]
        refine ⟨w', hrest, hdone.inp, hdone.locks, hdone.writes, ?_, fun fd hfd => ?_⟩
        · refine List.forall_mem_cons.mpr ⟨?_, fun share hshare => ?_⟩
          · rw [hdone.others _ hne, World.setOut_out, ho]
          · have hmem := List.mem_map_of_mem (f := Prod.fst) hshare
            rw [shares_fst] at hmem
            rw [hdone.sent share hshare, World.setOut_out_ne _ _ _ _ (hne _ hmem)]
        · rw [hdone.others fd fun i hi => hfd i (List.mem_cons_of_mem _ hi),
            World.setOut_out_ne _ _ _ _ (Ne.symm (hfd client (by simp)))]

end Distribution

section Encrypted

variable (env : Env) (c : Cipher env.dev)

-- What one round makes of the buffer: its first part, padded and encrypted.
def image (size : Nat) (buf : List Byte) : List Byte := c.enc (pad (buf.take (size + 4)))

theorem image_length (size : Nat) (buf : List Byte) (hs : size + 4 ≤ DATA_SIZE) :
    (image env c size buf).length = DATA_SIZE := by
  apply c.enc_length
  apply pad_length
  simp only [List.length_take]
  omega

-- The round's block decrypts to the bytes that the buffer held before it.
theorem dec_image (size : Nat) (buf : List Byte) (hs : size + 4 ≤ DATA_SIZE)
    (hbuf : DATA_SIZE ≤ buf.length) :
    (c.dec (image env c size buf)).take (size + 4) = buf.take (size + 4) := by
  have hlen : (buf.take (size + 4)).length = size + 4 := by simp; omega
  have h := c.take_dec_enc_pad (buf.take (size + 4)) (by omega)
  rwa [hlen] at h

theorem sendTo_encrypted (hmode : env.encrypted = true) (fd size : Nat) (buf : List Byte) (w : World)
    (hs : size + 4 ≤ DATA_SIZE) (hbuf : DATA_SIZE ≤ buf.length) (hout : (w.out fd).Reliable) :
    ∃ o, sendTo env fd size buf w =
        .ok (image env c size buf ++ buf.drop DATA_SIZE) (w.setOut fd o) ∧
      o.sent = (w.out fd).sent ++ image env c size buf ∧ o.Reliable := by
  have hlen := image_length env c size buf hs
  have henc := encrypt_run env c buf (size + 4) w hbuf hs
  have hload : load (image env c size buf ++ buf.drop DATA_SIZE) 0 DATA_SIZE =
      some (image env c size buf) := by
    rw [load_eq_some _ 0 _ (by simp [hlen]), List.drop_zero, List.take_left' hlen]
  obtain ⟨o, hw, hsent, hrel⟩ := insistWrite_full fd (image env c size buf) w hout
  refine ⟨o, ?_, hsent, hrel⟩
  unfold sendTo
  simp only [hmode, if_true]
  rw [bind_ok _ _ _ _ _ henc, ← image, bind_ok _ _ _ _ _ (peek_run _ _ _ _ _ hload),
    bind_ok _ _ _ _ _ hw]
  simp [hlen]

-- The block of each recipient, in the order of the slots.
def blocks (size : Nat) : List Nat → List Byte → List (Nat × List Byte)
  | [], _ => []
  | client :: rest, buf =>
      (client, image env c size buf) :: blocks size rest (image env c size buf)

theorem blocks_fst (size : Nat) (clients : List Nat) (buf : List Byte) :
    (blocks env c size clients buf).map Prod.fst = clients := by
  induction clients generalizing buf with
  | nil => rfl
  | cons client rest ih => simp [blocks, ih]

theorem blocks_length (size : Nat) (hs : size + 4 ≤ DATA_SIZE) (clients : List Nat)
    (buf : List Byte) : ∀ entry ∈ blocks env c size clients buf, entry.2.length = DATA_SIZE := by
  induction clients generalizing buf with
  | nil => simp [blocks]
  | cons client rest ih =>
      intro entry hentry
      rcases List.mem_cons.mp hentry with rfl | hentry
      · exact image_length env c size buf hs
      · exact ih _ entry hentry

-- Behind its first part the buffer is not looked at again.
theorem blocks_eq_shares (size : Nat) (hs : size + 4 ≤ DATA_SIZE) (clients : List Nat)
    (buf : List Byte) : blocks env c size clients buf =
      shares (fun buf => image env c size buf ++ buf.drop DATA_SIZE) (image env c size) clients buf := by
  have hblocks : ∀ clients buf, blocks env c size clients (image env c size buf) =
      blocks env c size clients (image env c size buf ++ buf.drop DATA_SIZE) := by
    intro clients buf
    have himage : image env c size (image env c size buf ++ buf.drop DATA_SIZE) =
        image env c size (image env c size buf) := by
      have hl := image_length env c size buf hs
      rw [image, List.take_append_of_le_length (by omega)]
      rfl
    cases clients with
    | nil => rfl
    | cons client rest => rw [blocks, blocks, himage]
  induction clients generalizing buf with
  | nil => rfl
  | cons client rest ih => rw [blocks, shares, hblocks, ih]

theorem distribute_encrypted (hmode : env.encrypted = true) (clients : Clients) (me size : Nat)
    (slots : List Nat) (buf : List Byte) (w : World) (hs : size + 4 ≤ DATA_SIZE)
    (hbuf : DATA_SIZE ≤ buf.length) (hout : ∀ fd, (w.out fd).Reliable)
    (hlocks : ∀ client ∈ slots, w.locks client = 1) (hnodup : slots.Nodup)
    (hinj : ∀ i ∈ slots, ∀ j ∈ slots, clients.newsdServe i = clients.newsdServe j → i = j) :
    ∃ w', distribute env clients me size slots buf w = .ok () w' ∧
      (∀ entry ∈ blocks env c size (recipients me slots) buf,
        (w'.out (clients.newsdServe entry.1)).sent =
          (w.out (clients.newsdServe entry.1)).sent ++ entry.2) ∧
      ∀ fd, (∀ client ∈ slots, clients.newsdServe client ≠ fd) → w'.out fd = w.out fd := by
  obtain ⟨w', hrun, hdone⟩ := distribute_shares env
    (fun buf => image env c size buf ++ buf.drop DATA_SIZE) (image env c size)
    (fun buf => DATA_SIZE ≤ buf.length) clients me size (fun fd buf w hbuf hout => by
      obtain ⟨o, hsend, ho, hrel⟩ := sendTo_encrypted env c hmode fd size buf w hs hbuf hout
      exact ⟨o, hsend, ho, hrel, by simp [image_length env c size buf hs]⟩)
    slots buf w hbuf hout hlocks hnodup hinj
  refine ⟨w', hrun, ?_, fun fd hfd => hdone.others fd fun i hi => hfd i (List.mem_filter.mp hi).1⟩
  rw [blocks_eq_shares env c size hs]
  exact hdone.sent

-- No transfer is going to fail.
structure Serving (clients : Clients) (sd : Nat) (w : World) : Prop extends Tables clients w where
  reads : (w.inp sd).Reliable
  writes : ∀ fd, (w.out fd).Reliable

theorem forward_encrypted_run (hmode : env.encrypted = true) (clients : Clients) (sd me : Nat)
    (w : World) (frame rest : List Byte) (hserving : Serving clients sd w)
    (halloc : env.mallocs (8 * BUFF_SIZE) = true) (hframe : frame.length = DATA_SIZE)
    (hp : (w.inp sd).pending = frame ++ rest) (hs : headerSize (c.dec frame) + 4 ≤ DATA_SIZE) :
    ∃ w', forward env clients sd me w = .ok 0 w' ∧
      ∀ entry ∈ blocks env c (headerSize (c.dec frame))
          (recipients me (List.range clients.noClient)) (c.dec frame),
        (w'.out (clients.newsdServe entry.1)).sent =
          (w.out (clients.newsdServe entry.1)).sent ++ entry.2 := by
  have hjunk := env.junk_length (8 * BUFF_SIZE)
  have hsizes := block_le_buff
  have hdec := c.dec_length frame hframe
  have hstore : store (env.junk (8 * BUFF_SIZE)) 0 ((w.inp sd).pending.take DATA_SIZE) =
      some (frame ++ (env.junk (8 * BUFF_SIZE)).drop DATA_SIZE) := by
    rw [hp, List.take_left' hframe, store_eq_some _ 0 frame (by omega)]
    simp [hframe]
  obtain ⟨s, hread, _, hrel⟩ :=
    insistRead_full sd _ _ 0 DATA_SIZE w hserving.reads (by simp [hp, hframe]) hstore
  have hdecrypt := decrypt_run env c (frame ++ (env.junk (8 * BUFF_SIZE)).drop DATA_SIZE)
    (w.setInp sd s) (by simp [hframe])
  rw [List.take_left' hframe, List.drop_left' hframe] at hdecrypt
  generalize hb : c.dec frame ++ (env.junk (8 * BUFF_SIZE)).drop DATA_SIZE = buf at hdecrypt
  have hbuf : DATA_SIZE ≤ buf.length := by rw [← hb]; simp [hdec]
  have htakes : ∀ n ≤ DATA_SIZE, buf.take n = (c.dec frame).take n := by
    intro n hn
    rw [← hb, List.take_append_of_le_length (by omega)]
  have hword : load buf 0 4 = some ((c.dec frame).take 4) := by
    rw [load_eq_some buf 0 4 (by simp only [DATA_SIZE] at hbuf; omega), List.drop_zero,
      htakes 4 header_le_block]
  obtain ⟨o, hshow, _, hrel'⟩ := display_run buf _ 4 (headerSize (c.dec frame)) (w.setInp sd s)
    (load_eq_some buf 4 _ (by omega)) (by simpa using hserving.writes 0)
  have hmem : ∀ i ∈ List.range clients.noClient, i < clients.noClient := fun i hi =>
    List.mem_range.mp hi
  have hkept : ∀ i < clients.noClient,
      ((w.setInp sd s).setOut 0 o).out (clients.newsdServe i) = w.out (clients.newsdServe i) := by
    intro i hi
    rw [World.setOut_out_ne _ _ _ _ (hserving.notStdout i hi), World.setInp_out]
  have hout : ∀ fd, (((w.setInp sd s).setOut 0 o).out fd).Reliable :=
    World.setOut_reliable _ _ _ hrel' hserving.writes
  obtain ⟨w', hrun, hsent, _⟩ := distribute_encrypted env c hmode clients me
    (headerSize (c.dec frame)) (List.range clients.noClient) buf ((w.setInp sd s).setOut 0 o) hs hbuf
    hout (fun i hi => by simpa using hserving.free i (hmem i hi)) List.nodup_range
    (fun i hi j hj => hserving.distinct i (hmem i hi) j (hmem j hj))
  refine ⟨w', ?_, ?_⟩
  · unfold forward
    simp only [hmode, if_true, Env.malloc, halloc]
    rw [bind_ok _ _ _ _ _ hread]
    simp only [after_full DATA_SIZE block_pos]
    rw [bind_ok _ _ _ _ _ hdecrypt, bind_ok _ _ _ _ _ (peek_run _ _ _ _ _ hword)]
    unfold relay
    rw [← headerSize, bind_ok _ _ _ _ _ hshow, bind_ok _ _ _ _ _ hrun]
    rfl
  · have hsame : ∀ slots, blocks env c (headerSize (c.dec frame)) slots (c.dec frame) =
        blocks env c (headerSize (c.dec frame)) slots buf := by
      intro slots
      cases slots <;> simp [blocks, image, htakes _ hs]
    intro entry hentry
    rw [hsame] at hentry
    have hslot := List.mem_map_of_mem (f := Prod.fst) hentry
    rw [blocks_fst] at hslot
    rw [hsent entry hentry, hkept entry.1 (hmem _ (List.mem_filter.mp hslot).1)]

-- A client has been sent one block more, and decrypting it gives the header
-- and the payload that the sender encrypted.
def Delivered (frame : List Byte) (fd : Nat) (w w' : World) : Prop :=
  ∃ block, block.length = DATA_SIZE ∧ (w'.out fd).sent = (w.out fd).sent ++ block ∧
    (c.dec block).take 4 = (c.dec frame).take 4 ∧
    ((c.dec block).drop 4).take (headerSize (c.dec frame)) =
      ((c.dec frame).drop 4).take (headerSize (c.dec frame))

theorem delivered_iff (frame block : List Byte) (fd : Nat) (w w' : World)
    (hblock : block.length = DATA_SIZE) (hsent : (w'.out fd).sent = (w.out fd).sent ++ block) :
    Delivered env c frame fd w w' ↔
      (c.dec block).take (headerSize (c.dec frame) + 4) =
        (c.dec frame).take (headerSize (c.dec frame) + 4) := by
  have hsplit : ∀ bytes : List Byte, bytes.take (headerSize (c.dec frame) + 4) =
      bytes.take 4 ++ (bytes.drop 4).take (headerSize (c.dec frame)) := by
    intro bytes
    rw [Nat.add_comm, List.take_add]
  rw [hsplit, hsplit]
  constructor
  · rintro ⟨other, _, hother, hhead, hbody⟩
    obtain rfl : other = block := by
      rw [hsent] at hother
      exact ((List.append_right_inj _).mp hother).symm
    rw [hhead, hbody]
  · intro h
    by_cases hframe : (c.dec frame).length < 4
    · have hl := congrArg List.length h
      have hd := c.dec_length block hblock
      simp only [List.length_append, List.length_take, List.length_drop, hd, DATA_SIZE] at hl
      omega
    · have hd := c.dec_length block hblock
      obtain ⟨hhead, hbody⟩ := List.append_inj h (by
        simp only [List.length_take, hd, DATA_SIZE]
        omega)
      exact ⟨block, hblock, hsent, hhead, hbody⟩

-- Every block decrypts to the frame's first bytes when the first one's do
-- unencrypted, that is, when encrypting them did not change them.
theorem blocks_unharmed (size : Nat) (plain : List Byte) (hs : size + 4 ≤ DATA_SIZE)
    (slots : List Nat) (buf : List Byte) (hbuf : DATA_SIZE ≤ buf.length)
    (htakes : buf.take (size + 4) = plain.take (size + 4))
    (hfixed : (image env c size plain).take (size + 4) = plain.take (size + 4)) :
    ∀ entry ∈ blocks env c size slots buf,
      (c.dec entry.2).take (size + 4) = plain.take (size + 4) := by
  induction slots generalizing buf with
  | nil => simp [blocks]
  | cons client rest ih =>
      have himage : image env c size buf = image env c size plain := by
        simp only [image, htakes]
      intro entry hentry
      rcases List.mem_cons.mp hentry with rfl | hentry
      · exact (dec_image env c size buf hs hbuf).trans htakes
      · exact ih (image env c size buf) (by rw [image_length env c size buf hs])
          (himage ▸ hfixed) entry hentry

-- The broadcast reaches every other client unharmed only when there is at
-- most one, or when the cipher maps the frame's own bytes to themselves.
theorem forward_encrypted_delivers_iff (hmode : env.encrypted = true) (clients : Clients)
    (sd me : Nat) (w : World) (frame rest : List Byte) (hserving : Serving clients sd w)
    (halloc : env.mallocs (8 * BUFF_SIZE) = true) (hframe : frame.length = DATA_SIZE)
    (hp : (w.inp sd).pending = frame ++ rest) (hs : headerSize (c.dec frame) + 4 ≤ DATA_SIZE) :
    ∃ w', forward env clients sd me w = .ok 0 w' ∧
      ((∀ client < clients.noClient, client ≠ me →
          Delivered env c frame (clients.newsdServe client) w w') ↔
        (recipients me (List.range clients.noClient)).length ≤ 1 ∨
          (c.enc (pad ((c.dec frame).take (headerSize (c.dec frame) + 4)))).take
              (headerSize (c.dec frame) + 4) =
            (c.dec frame).take (headerSize (c.dec frame) + 4)) := by
  obtain ⟨w', hrun, hsent⟩ :=
    forward_encrypted_run env c hmode clients sd me w frame rest hserving halloc hframe hp hs
  have hdec := c.dec_length frame hframe
  have hiff : ∀ entry ∈ blocks env c (headerSize (c.dec frame))
      (recipients me (List.range clients.noClient)) (c.dec frame),
      (Delivered env c frame (clients.newsdServe entry.1) w w' ↔
        (c.dec entry.2).take (headerSize (c.dec frame) + 4) =
          (c.dec frame).take (headerSize (c.dec frame) + 4)) := fun entry hentry =>
    delivered_iff env c frame entry.2 _ w w' (blocks_length env c _ hs _ _ entry hentry)
      (hsent entry hentry)
  have hrecipient : ∀ client, client ∈ recipients me (List.range clients.noClient) ↔
      client < clients.noClient ∧ client ≠ me := by
    intro client
    simp [recipients]
  refine ⟨w', hrun, ?_, ?_⟩
  · intro hall
    by_cases hone : (recipients me (List.range clients.noClient)).length ≤ 1
    · exact .inl hone
    · right
      match hr : recipients me (List.range clients.noClient), hone with
      | [], h => simp at h
      | [_], h => simp at h
      | first :: second :: others, _ =>
          have hmem : (second, image env c (headerSize (c.dec frame))
              (image env c (headerSize (c.dec frame)) (c.dec frame))) ∈
              blocks env c (headerSize (c.dec frame))
                (recipients me (List.range clients.noClient)) (c.dec frame) := by
            rw [hr]
            simp [blocks]
          have hsecond := (hrecipient second).mp (by rw [hr]; simp)
          have h := (hiff _ hmem).mp (hall second hsecond.1 hsecond.2)
          rw [dec_image env c _ _ hs (by rw [image_length env c _ _ hs])] at h
          exact h
  · intro hcond client hlt hne
    have hmem : client ∈ (blocks env c (headerSize (c.dec frame))
        (recipients me (List.range clients.noClient)) (c.dec frame)).map Prod.fst := by
      rw [blocks_fst]
      exact (hrecipient client).mpr ⟨hlt, hne⟩
    obtain ⟨entry, hentry, rfl⟩ := List.mem_map.mp hmem
    apply (hiff entry hentry).mpr
    rcases hcond with hone | hfixed
    · match hr : recipients me (List.range clients.noClient), hone with
      | [], _ => rw [hr] at hentry; simp [blocks] at hentry
      | [first], _ =>
          rw [hr] at hentry
          obtain rfl : entry = (first, image env c (headerSize (c.dec frame)) (c.dec frame)) := by
            simpa [blocks] using hentry
          exact dec_image env c _ _ hs (by omega)
    · exact blocks_unharmed env c _ _ hs _ _ (by omega) rfl hfixed entry hentry

end Encrypted

section Greeting

-- The server with its clients on the descriptors from 4 on, after the first
-- of them has sent the encrypted greeting.
def greetingClients (count : Nat) : Clients := ⟨fun client => client + 4, count⟩

def greetingWorld : World where
  inp := fun fd => ⟨if fd = 4 then greetingImage else [], []⟩
  out := fun _ => ⟨[], []⟩
  locks := fun _ => 1

theorem greeting_serving (count : Nat) (h : count ≤ MAX_CLIENTS) :
    Serving (greetingClients count) 4 greetingWorld where
  table := h
  distinct := fun i _ j _ he => by simpa [greetingClients] using he
  notStdout := fun i _ => by simp [greetingClients]
  free := fun _ _ => rfl
  reads := fun t ht => by cases ht
  writes := fun _ t ht => by cases ht

theorem greeting_size : headerSize (greetingCipher.dec greetingImage) = 6 := by
  change headerSize (greetingPerm.symm greetingImage) = 6
  rw [greetingPerm_symm]
  decide

theorem greeting_pending : (greetingWorld.inp 4).pending = greetingImage ++ [] := by
  rw [List.append_nil]
  rfl

-- With one recipient the greeting arrives.
theorem greeting_delivered : ∃ w', forward greetingEnv (greetingClients 2) 4 0 greetingWorld = .ok 0 w' ∧
    ∀ client < 2, client ≠ 0 →
      Delivered greetingEnv greetingCipher greetingImage (client + 4) greetingWorld w' := by
  obtain ⟨w', hrun, hiff⟩ := forward_encrypted_delivers_iff greetingEnv greetingCipher rfl
    (greetingClients 2) 4 0 greetingWorld greetingImage [] (greeting_serving 2 (by decide)) rfl
    greeting_length.2.1 greeting_pending (by rw [greeting_size]; decide)
  exact ⟨w', hrun, hiff.mpr (.inl (by decide))⟩

-- With two, the second is sent the image of the first block's image.
theorem greeting_garbled : Serving (greetingClients 3) 4 greetingWorld ∧
    headerSize (greetingCipher.dec greetingImage) + 4 ≤ DATA_SIZE ∧
    ∃ w', forward greetingEnv (greetingClients 3) 4 0 greetingWorld = .ok 0 w' ∧
      ¬Delivered greetingEnv greetingCipher greetingImage 6 greetingWorld w' := by
  have hserving := greeting_serving 3 (by decide)
  have hs : headerSize (greetingCipher.dec greetingImage) + 4 ≤ DATA_SIZE := by
    rw [greeting_size]; decide
  refine ⟨hserving, hs, ?_⟩
  obtain ⟨w', hrun, hsent⟩ := forward_encrypted_run greetingEnv greetingCipher rfl
    (greetingClients 3) 4 0 greetingWorld greetingImage [] hserving rfl greeting_length.2.1
    greeting_pending hs
  refine ⟨w', hrun, ?_⟩
  have hfirst : image greetingEnv greetingCipher 6 greeting = greetingImage := by
    change greetingPerm (pad (greeting.take 10)) = greetingImage
    rw [greeting_length.2.2.2, greetingPerm_greeting]
  have hblocks : (2, image greetingEnv greetingCipher 6 greetingImage) ∈
      blocks greetingEnv greetingCipher 6 (recipients 0 (List.range 3)) greeting := by
    have hr : recipients 0 (List.range 3) = [1, 2] := by decide
    rw [hr]
    simp only [blocks, hfirst]
    exact List.mem_cons_of_mem _ (by simp)
  have hplain : greetingCipher.dec greetingImage = greeting := greetingPerm_symm
  have hsecond := hsent (2, image greetingEnv greetingCipher 6 greetingImage) (by
    rw [greeting_size, hplain]; exact hblocks)
  rw [delivered_iff greetingEnv greetingCipher greetingImage _ 6 greetingWorld w'
    (image_length greetingEnv greetingCipher 6 greetingImage (by decide)) hsecond, greeting_size,
    dec_image greetingEnv greetingCipher 6 greetingImage (by decide) (by rw [greeting_length.2.1]),
    hplain]
  decide

end Greeting

end CryptodevChat.Chat
