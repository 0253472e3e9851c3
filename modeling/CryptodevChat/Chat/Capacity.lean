import CryptodevChat.Chat.Bounds
import CryptodevChat.Chat.RoundTrip
import Mathlib.Data.List.TakeWhile

namespace CryptodevChat.Chat

open Lib

section Device

-- `open` and CIOCGSESSION succeed.
def Cryptodev.Opens (dev : Cryptodev) : Prop :=
  dev.openDev = true ∧ dev.gsession CRYPTO_AES_CBC key ≠ none

-- CIOCCRYPT writes as many bytes as it reads.
def Cryptodev.Whole (dev : Cryptodev) : Prop :=
  ∀ ses op src iv dst, dev.crypt ses op src iv = some dst → dst.length = src.length

theorem Cipher.device_opens {dev : Cryptodev} (c : Cipher dev) : dev.Opens := by
  refine ⟨c.opens, ?_⟩
  rw [c.session]
  simp

theorem openSession_opens (dev : Cryptodev) (w : World) (h : dev.Opens) :
    ∃ ses, openSession dev w = .ok ses w := by
  obtain ⟨hopen, hses⟩ := h
  obtain ⟨ses, hses⟩ := Option.ne_none_iff_exists'.mp hses
  exact ⟨ses, by simp [openSession, hopen, hses]⟩

theorem openSession_exit (dev : Cryptodev) (w : World) (h : ¬dev.Opens) :
    openSession dev w = .error (.exit 1) w := by
  unfold openSession
  cases hopen : dev.openDev with
  | false => simp
  | true =>
      have hses : dev.gsession CRYPTO_AES_CBC key = none := by
        by_contra hne
        exact h ⟨hopen, hne⟩
      simp [hses]

theorem encrypt_exit (env : Env) (buffer : List Byte) (encS : Nat) (w : World)
    (h : ¬env.dev.Opens) : encrypt env buffer encS w = .error (.exit 1) w :=
  bind_error _ _ _ _ _ (openSession_exit env.dev w h)

-- A message that fits `data.in` is encrypted in its buffer, or a call of the
-- device fails.
theorem encrypt_any (env : Env) (hwhole : env.dev.Whole) (buffer : List Byte) (encS : Nat)
    (w : World) (hbuf : DATA_SIZE ≤ buffer.length) (hs : encS ≤ DATA_SIZE) :
    (∃ next, encrypt env buffer encS w = .ok next w ∧ next.length = buffer.length) ∨
      encrypt env buffer encS w = .error (.exit 1) w := by
  have hlen : (buffer.take encS).length = encS := by
    rw [List.length_take]
    omega
  have hjunk := env.junk_length DATA_SIZE
  have hload : load buffer 0 encS = some (buffer.take encS) := by
    rw [load_eq_some buffer 0 encS (by omega), List.drop_zero]
  obtain ⟨a, ha⟩ : ∃ a, store (env.junk DATA_SIZE) 0 (buffer.take encS) = some a :=
    ⟨_, store_eq_some _ 0 _ (by omega)⟩
  have hal := store_length _ _ _ _ ha
  obtain ⟨b, hb⟩ : ∃ b, store a encS (List.replicate (DATA_SIZE - encS) 0x30) = some b :=
    ⟨_, store_eq_some _ encS _ (by rw [List.length_replicate]; omega)⟩
  have hbl := store_length _ _ _ _ hb
  by_cases hopens : env.dev.Opens
  · obtain ⟨ses, hses⟩ := openSession_opens env.dev w hopens
    unfold encrypt
    rw [bind_ok _ _ _ _ _ hses, bind_ok _ _ _ _ _ (peek_run _ _ _ _ _ hload),
      bind_ok _ _ _ _ _ (poke_run _ _ _ _ _ ha), bind_ok _ _ _ _ _ (poke_run _ _ _ _ _ hb)]
    unfold cryptBlock
    cases hcrypt : env.dev.crypt ses COP_ENCRYPT b iv with
    | none => exact .inr rfl
    | some dst =>
        have hdst := hwhole _ _ _ _ _ hcrypt
        obtain ⟨next, hnext⟩ : ∃ next, store buffer 0 dst = some next :=
          ⟨_, store_eq_some buffer 0 dst (by omega)⟩
        dsimp only
        rw [bind_ok _ _ _ _ _ (poke_run _ _ _ _ _ hnext)]
        cases env.dev.fsession ses with
        | false => exact .inr rfl
        | true =>
            cases env.dev.closeDev with
            | false => exact .inr rfl
            | true => exact .inl ⟨next, rfl, store_length _ _ _ _ hnext⟩
  · exact .inr (encrypt_exit env buffer encS w hopens)

-- A longer one is copied past its end.
theorem encrypt_fault (env : Env) (hopens : env.dev.Opens) (buffer : List Byte) (encS : Nat)
    (w : World) (hs : DATA_SIZE < encS) : encrypt env buffer encS w = .error .fault w := by
  obtain ⟨ses, hses⟩ := openSession_opens env.dev w hopens
  unfold encrypt
  rw [bind_ok _ _ _ _ _ hses]
  by_cases hb : encS ≤ buffer.length
  · have hload : load buffer 0 encS = some (buffer.take encS) := by
      rw [load_eq_some buffer 0 encS (by omega), List.drop_zero]
    have hstore : store (env.junk DATA_SIZE) 0 (buffer.take encS) = none := by
      apply store_eq_none
      rw [env.junk_length, List.length_take]
      omega
    rw [bind_ok _ _ _ _ _ (peek_run _ _ _ _ _ hload)]
    exact bind_error _ _ _ _ _ (poke_fault _ _ _ _ hstore)
  · exact bind_error _ _ _ _ _ (peek_fault _ _ _ _ (by omega))

end Device

section Modes

variable (env : Env) (prompt line : CString) (newsd : Nat) (w : World)

theorem myRlhandler_encrypted_fault (hmode : env.encrypted = true) (hopens : env.dev.Opens)
    (halloc : env.mallocs BUFF_SIZE = true) (hline : line.bytes ≠ [])
    (hfit : line.strlen + prompt.strlen + 4 + 1 ≤ BUFF_SIZE)
    (hlong : DATA_SIZE < line.strlen + prompt.strlen + 4 + 1) :
    myRlhandler env prompt newsd (some line) w = .error .fault w := by
  obtain ⟨block, -, -, hrun⟩ := myRlhandler_run env prompt line newsd w halloc hline hfit
  rw [hrun]
  simp only [sendMessage, hmode, if_true]
  exact bind_error _ _ _ _ _ (encrypt_fault env hopens block _ w hlong)

-- The same program with the other value of `encrypted`.
def Env.inMode (env : Env) (encrypted : Bool) : Env := { env with encrypted }

-- In this mode the line is sent and shown as the prompt, the line and a
-- newline, and no buffer is left.
def Delivers (sender receiver : Env) (prompt line : CString) (encrypted : Bool) : Prop :=
  ∃ frame, Carries (sender.inMode encrypted) (receiver.inMode encrypted) prompt line frame

theorem modes_agree_iff (sender receiver : Env) (prompt line : CString) (s : Cipher sender.dev)
    (r : Cipher receiver.dev) (hundo : ∀ block, block.length = DATA_SIZE → r.dec (s.enc block) = block)
    (halloc : sender.mallocs BUFF_SIZE = true) (hline : line.bytes ≠ [])
    (hfit : 4 + prompt.strlen + line.strlen + 1 ≤ BUFF_SIZE) :
    (∀ encrypted, Delivers sender receiver prompt line encrypted) ↔
      4 + prompt.strlen + line.strlen + 1 ≤ DATA_SIZE := by
  constructor
  · intro h
    by_contra hlong
    obtain ⟨frame, hcarries⟩ := h true
    obtain ⟨o, hrun, -⟩ := hcarries.sends 0 World.fresh (by intro t ht; cases ht)
    have hfault := myRlhandler_encrypted_fault (sender.inMode true) prompt line 0 World.fresh rfl
      s.device_opens halloc hline (by omega) (by omega)
    rw [hfault] at hrun
    cases hrun
  · intro hblock encrypted
    apply carries (sender.inMode encrypted) (receiver.inMode encrypted) prompt rfl halloc
      (fun _ => ⟨s, r, hundo⟩) line hline
    cases encrypted with
    | false => exact hfit
    | true => exact hblock

theorem greeting_modes_agree :
    Delivers greetingEnv greetingEnv promptMe lineHi false ∧
      Delivers greetingEnv greetingEnv promptMe lineHi true := by
  have h := (modes_agree_iff greetingEnv greetingEnv promptMe lineHi greetingCipher greetingCipher
    greetingCipher.dec_enc rfl (by decide) (by decide)).mpr (by decide)
  exact ⟨h false, h true⟩

-- A line of 249 bytes, which with its prompt, size and newline makes a frame of 257.
def lineLong : CString where
  bytes := List.replicate 249 0x61
  nulFree := fun h => absurd (List.eq_of_mem_replicate h) (by decide)

theorem lineLong_frame : lineLong.strlen + promptMe.strlen + 4 + 1 = 257 := by
  rw [CString.strlen, lineLong, List.length_replicate]
  rfl

theorem long_modes_differ :
    lineLong.bytes ≠ [] ∧ 4 + promptMe.strlen + lineLong.strlen + 1 ≤ BUFF_SIZE ∧
      Delivers greetingEnv greetingEnv promptMe lineLong false ∧
      ¬Delivers greetingEnv greetingEnv promptMe lineLong true ∧
      myRlhandler (greetingEnv.inMode true) promptMe 3 (some lineLong) World.fresh =
        .error .fault World.fresh := by
  have hline : lineLong.bytes ≠ [] := by decide
  have hframe := lineLong_frame
  have hbuff : lineLong.strlen + promptMe.strlen + 4 + 1 ≤ BUFF_SIZE := by
    rw [hframe]
    decide
  have hlong : DATA_SIZE < lineLong.strlen + promptMe.strlen + 4 + 1 := by
    rw [hframe]
    decide
  have hfault : ∀ newsd, myRlhandler (greetingEnv.inMode true) promptMe newsd (some lineLong)
      World.fresh = .error .fault World.fresh := fun newsd =>
    myRlhandler_encrypted_fault _ promptMe lineLong newsd World.fresh rfl
      greetingCipher.device_opens rfl hline hbuff hlong
  have hfit : 4 + promptMe.strlen + lineLong.strlen + 1 ≤ BUFF_SIZE := by omega
  refine ⟨hline, hfit, ?_, ?_, hfault 3⟩
  · exact carries (greetingEnv.inMode false) (greetingEnv.inMode false) promptMe rfl rfl
      (fun h => by cases h) lineLong hline hfit
  · rintro ⟨frame, hcarries⟩
    obtain ⟨o, hrun, -⟩ := hcarries.sends 0 World.fresh (by intro t ht; cases ht)
    rw [hfault 0] at hrun
    cases hrun

end Modes

section SendPath

-- What `main` allocates for the prompt.
def PROMPT_SIZE : Nat := 100

-- The string that starts at the first of some cells.
def CString.scan (cells : List Byte) : CString where
  bytes := cells.takeWhile (· ≠ 0)
  nulFree := fun h => by simpa using List.mem_takeWhile_imp h

-- The `scanf` of `main` stores the word that it reads and a NUL.
def readPrompt (env : Env) (word : List Byte) : Proc CString := do
  match env.malloc PROMPT_SIZE with
  | none => throw .fault
  | some prompt =>
      let prompt ← poke prompt 0 (word ++ [0])
      return .scan prompt

-- The word is entered at start-up, the line is typed later.
def promptAndSend (env : Env) (word : List Byte) (newsd : Nat) (line : Option CString) :
    Proc Unit := do
  let prompt ← readPrompt env word
  myRlhandler env prompt newsd line

theorem scan_word (word rest : List Byte) :
    CString.scan (word ++ [0] ++ rest) = CString.scan word := by
  have htake : (word ++ [0] ++ rest).takeWhile (· ≠ 0) = word.takeWhile (· ≠ 0) := by
    induction word with
    | nil => simp
    | cons x xs ih =>
        by_cases hx : x = 0
        · simp [hx]
        · simpa [hx] using ih
  simp only [CString.scan, htake]

variable (env : Env) (word : List Byte) (newsd : Nat) (w : World)

theorem readPrompt_run (halloc : env.mallocs PROMPT_SIZE = true)
    (hword : word.length + 1 ≤ PROMPT_SIZE) :
    readPrompt env word w = .ok (.scan word) w := by
  have hjunk := env.junk_length PROMPT_SIZE
  have hstore := store_eq_some (env.junk PROMPT_SIZE) 0 (word ++ [0]) (by simp; omega)
  rw [List.take_zero, List.nil_append] at hstore
  simp only [readPrompt, Env.malloc, halloc, if_true]
  rw [bind_ok _ _ _ _ _ (poke_run _ _ _ _ _ hstore), scan_word]
  rfl

theorem readPrompt_fault (h : ¬(env.mallocs PROMPT_SIZE = true ∧ word.length + 1 ≤ PROMPT_SIZE)) :
    readPrompt env word w = .error .fault w := by
  have hjunk := env.junk_length PROMPT_SIZE
  by_cases halloc : env.mallocs PROMPT_SIZE = true
  · have hstore : store (env.junk PROMPT_SIZE) 0 (word ++ [0]) = none := by
      apply store_eq_none
      rw [List.length_append, List.length_singleton]
      have hlong : ¬word.length + 1 ≤ PROMPT_SIZE := fun hword => h ⟨halloc, hword⟩
      omega
    simp only [readPrompt, Env.malloc, halloc, if_true]
    exact bind_error _ _ _ _ _ (poke_fault _ _ _ _ hstore)
  · simp [readPrompt, Env.malloc, halloc]

variable (prompt line : CString)

-- The second `strcpy` reaches the last byte of the frame with its NUL.
theorem myRlhandler_overflow (hline : line.bytes ≠ [])
    (h : ¬(env.mallocs BUFF_SIZE = true ∧ line.strlen + prompt.strlen + 4 + 1 ≤ BUFF_SIZE)) :
    myRlhandler env prompt newsd (some line) w = .error .fault w := by
  have hhead : line.cells.head? ≠ some 0 := mt (head_cells line).mp hline
  have hjunk := env.junk_length BUFF_SIZE
  have hp : prompt.cells.length = prompt.strlen + 1 := by simp [CString.cells, CString.strlen]
  have hl : line.cells.length = line.strlen + 1 := by simp [CString.cells, CString.strlen]
  by_cases halloc : env.mallocs BUFF_SIZE = true
  · have hlong : ¬line.strlen + prompt.strlen + 4 + 1 ≤ BUFF_SIZE := fun hfit => h ⟨halloc, hfit⟩
    obtain ⟨a, ha⟩ : ∃ a, store (env.junk BUFF_SIZE) 0
        (be 4 (line.strlen + prompt.strlen + 1)) = some a :=
      ⟨_, store_eq_some _ 0 _ (by rw [be_length, hjunk]; decide)⟩
    have hal := store_length _ _ _ _ ha
    simp only [myRlhandler, hhead, if_false, Env.malloc, halloc, if_true]
    rw [bind_ok _ _ _ _ _ (poke_run _ _ _ _ _ ha)]
    cases hb : store a 4 prompt.cells with
    | none => exact bind_error _ _ _ _ _ (poke_fault _ _ _ _ hb)
    | some b =>
        have hbl := store_length _ _ _ _ hb
        have hc : store b (prompt.strlen + 4) line.cells = none := by
          apply store_eq_none
          omega
        rw [bind_ok _ _ _ _ _ (poke_run _ _ _ _ _ hb)]
        exact bind_error _ _ _ _ _ (poke_fault _ _ _ _ hc)
  · simp [myRlhandler, hhead, Env.malloc, halloc]

-- The last write gives all of its data, or ends the process.
theorem writeAll_any (data : List Byte) (total : Nat) (hlen : data.length = total) :
    ¬Faults ((do let n ← insistWrite newsd data; if n ≠ total then exit 1 else return ()) w) ∧
      ∀ w', (do let n ← insistWrite newsd data; if n ≠ total then exit 1 else return ()) w = .ok () w' →
        (w'.out newsd).sent = (w.out newsd).sent ++ data := by
  subst hlen
  have hgiven := Sink.insist_given data.length (w.out newsd) data (Nat.le_refl _)
  have hrun := insistWrite_run newsd data w
  obtain ⟨moved, -, hsent, hfull, -⟩ := hgiven.sent
  rw [bind_ok _ _ _ _ _ hrun]
  cases hend : ((w.out newsd).insist data.length data).1 with
  | full =>
      refine ⟨by simp [code, Faults], ?_⟩
      rintro w' hok
      rw [if_neg (by simp [code])] at hok
      cases hok
      rw [World.setOut_out, hsent, hfull hend]
  | eof => exact absurd hend hgiven.eof
  | failed errno =>
      have hshort : code data.length (.failed errno) ≠ data.length := by
        simp only [code]
        omega
      simp [hshort, Faults]

-- What goes out for a message that fits: the frame, or the image of its block.
theorem sendMessage_any (hwhole : env.dev.Whole) (block frame : List Byte) (encS : Nat)
    (hblock : block.length = BUFF_SIZE) (hs : encS ≤ BUFF_SIZE) (htake : block.take encS = frame)
    (hfits : env.encrypted = true → env.dev.Opens → encS ≤ DATA_SIZE) :
    ¬Faults (sendMessage env newsd block encS w) ∧
      ∀ w', sendMessage env newsd block encS w = .ok () w' →
        ∃ data, (w'.out newsd).sent = (w.out newsd).sent ++ data ∧
          (env.encrypted = false → data = frame) ∧
          (env.encrypted = true → ∀ c : Cipher env.dev, data = c.enc (pad frame)) := by
  have hsizes := block_le_buff
  have hlen : frame.length = encS := by
    rw [← htake, List.length_take]
    omega
  rcases Bool.eq_false_or_eq_true env.encrypted with hmode | hmode
  · rw [sendMessage, if_pos hmode]
    by_cases hopens : env.dev.Opens
    · have hshort := hfits hmode hopens
      obtain ⟨next, henc, hnext⟩ | henc := encrypt_any env hwhole block encS w (by omega) hshort
      · have hload : load next 0 DATA_SIZE = some (next.take DATA_SIZE) := by
          rw [load_eq_some next 0 DATA_SIZE (by omega), List.drop_zero]
        obtain ⟨hsafe, hsent⟩ := writeAll_any newsd w (next.take DATA_SIZE) DATA_SIZE (by
          rw [List.length_take]
          omega)
        rw [bind_ok _ _ _ _ _ henc, bind_ok _ _ _ _ _ (peek_run _ _ _ _ _ hload)]
        refine ⟨hsafe, fun w' hok => ⟨_, hsent w' hok, by simp [hmode], fun _ c => ?_⟩⟩
        have hc := encrypt_run env c block encS w (by omega) hshort
        rw [henc, htake] at hc
        cases hc
        exact List.take_left' (c.enc_length _ (pad_length frame (by omega)))
      · rw [bind_error _ _ _ _ _ henc]
        exact ⟨fun h => h, fun w' hok => by cases hok⟩
    · rw [bind_error _ _ _ _ _ (encrypt_exit env block encS w hopens)]
      exact ⟨fun h => h, fun w' hok => by cases hok⟩
  · have hload : load block 0 encS = some frame := by
      rw [load_eq_some block 0 encS (by omega), List.drop_zero, htake]
    obtain ⟨hsafe, hsent⟩ := writeAll_any newsd w frame encS hlen
    rw [sendMessage, if_neg (by simp [hmode]), bind_ok _ _ _ _ _ (peek_run _ _ _ _ _ hload)]
    exact ⟨hsafe, fun w' hok => ⟨frame, hsent w' hok, fun _ => rfl, by simp [hmode]⟩⟩

-- The buffers are kept, and the size in front of what was sent covers no
-- more than the bytes behind it.
structure SendInside (line : Option CString) : Prop where
  inside : ∀ w, ¬Faults (promptAndSend env word newsd line w)
  header : ∀ w w', promptAndSend env word newsd line w = .ok () w' →
    ∃ data, (w'.out newsd).sent = (w.out newsd).sent ++ data ∧
      ∀ dec, (env.encrypted = true → ∃ c : Cipher env.dev, c.dec = dec) → data ≠ [] →
        fromBe ((if env.encrypted then dec data else data).take 4) + 4 ≤ data.length

def LineFits (line : CString) : Prop :=
  line.bytes = [] ∨
    (env.mallocs BUFF_SIZE = true ∧ line.strlen + prompt.strlen + 4 + 1 ≤ BUFF_SIZE ∧
      (env.encrypted = true → env.dev.Opens → line.strlen + prompt.strlen + 4 + 1 ≤ DATA_SIZE))

def SendFits (line : Option CString) : Prop :=
  env.mallocs PROMPT_SIZE = true ∧ word.length + 1 ≤ PROMPT_SIZE ∧
    ∀ l, line = some l → LineFits env (.scan word) l

-- The size never announces more than the payload, not even when it wraps.
theorem announced_le (prompt line : CString) (rest : List Byte) :
    fromBe ((plainFrame prompt line ++ rest).take 4) ≤ line.strlen + prompt.strlen + 1 := by
  rw [plainFrame, List.append_assoc, List.take_left' (be_length 4 _), fromBe_be, message_length]
  exact Nat.mod_le _ _

theorem sendInside_of_fits (line : Option CString) (hwhole : env.dev.Whole)
    (h : SendFits env word line) : SendInside env word newsd line := by
  obtain ⟨halloc, hword, hline⟩ := h
  have hrun : ∀ w, promptAndSend env word newsd line w = myRlhandler env (.scan word) newsd line w :=
    fun w => bind_ok _ _ _ _ _ (readPrompt_run env word w halloc hword)
  -- A call that returns at once has sent nothing.
  have hsilent : (∀ w, promptAndSend env word newsd line w = .ok () w) →
      SendInside env word newsd line := by
    refine fun hok => ⟨fun w => by simp [hok w, Faults], fun w w' hw => ⟨[], ?_, by simp⟩⟩
    rw [hok w] at hw
    cases hw
    rw [List.append_nil]
  cases line with
  | none => exact hsilent fun w => hrun w
  | some line =>
      obtain hempty | ⟨hmalloc, hfit, hblock⟩ := hline line rfl
      · exact hsilent fun w => (hrun w).trans (myRlhandler_empty env _ line newsd w hempty)
      · by_cases hempty : line.bytes = []
        · exact hsilent fun w => (hrun w).trans (myRlhandler_empty env _ line newsd w hempty)
        have hsend : ∀ w, ¬Faults (promptAndSend env word newsd (some line) w) ∧
            ∀ w', promptAndSend env word newsd (some line) w = .ok () w' →
              ∃ data, (w'.out newsd).sent = (w.out newsd).sent ++ data ∧
                (env.encrypted = false → data = plainFrame (.scan word) line) ∧
                (env.encrypted = true → ∀ c : Cipher env.dev,
                  data = c.enc (pad (plainFrame (.scan word) line))) := by
          intro w
          obtain ⟨block, hlen, htake, hmsg⟩ :=
            myRlhandler_run env (.scan word) line newsd w hmalloc hempty hfit
          rw [hrun, hmsg]
          exact sendMessage_any env newsd w hwhole block _ _ hlen hfit htake hblock
        refine ⟨fun w => (hsend w).1, fun w w' hok => ?_⟩
        obtain ⟨data, hsent, hplain, henc⟩ := (hsend w).2 w' hok
        refine ⟨data, hsent, fun dec hdec _ => ?_⟩
        rcases Bool.eq_false_or_eq_true env.encrypted with hmode | hmode
        · obtain ⟨c, rfl⟩ := hdec hmode
          have hshort := hblock hmode c.device_opens
          have hpad := pad_length (plainFrame (.scan word) line) (by
            rw [plainFrame_length]
            exact hshort)
          have hle := announced_le (.scan word) line
            (List.replicate (DATA_SIZE - (plainFrame (.scan word) line).length) 0x30)
          rw [if_pos hmode, henc hmode c, c.dec_enc _ hpad, c.enc_length _ hpad, pad]
          omega
        · rw [if_neg (by simp [hmode]), hplain hmode, plainFrame_length]
          have hle := announced_le (.scan word) line []
          rw [List.append_nil] at hle
          omega

theorem promptAndSend_fault (line : Option CString) (h : ¬SendFits env word line) :
    promptAndSend env word newsd line w = .error .fault w := by
  by_cases hprompt : env.mallocs PROMPT_SIZE = true ∧ word.length + 1 ≤ PROMPT_SIZE
  · obtain ⟨halloc, hword⟩ := hprompt
    obtain ⟨l, rfl, hl⟩ : ∃ l, line = some l ∧ ¬LineFits env (.scan word) l := by
      by_contra hall
      push Not at hall
      exact h ⟨halloc, hword, hall⟩
    rw [promptAndSend, bind_ok _ _ _ _ _ (readPrompt_run env word w halloc hword)]
    unfold LineFits at hl
    push Not at hl
    obtain ⟨hline, hl⟩ := hl
    by_cases hfit : env.mallocs BUFF_SIZE = true ∧
        l.strlen + (CString.scan word).strlen + 4 + 1 ≤ BUFF_SIZE
    · obtain ⟨hmode, hopens, hlong⟩ := hl hfit.1 hfit.2
      exact myRlhandler_encrypted_fault env _ l newsd w hmode hopens hfit.1 hline hfit.2 hlong
    · exact myRlhandler_overflow env newsd w _ l hline hfit
  · exact bind_error _ _ _ _ _ (readPrompt_fault env word w hprompt)

theorem sendInside_iff_fits (line : Option CString) (hwhole : env.dev.Whole) :
    SendInside env word newsd line ↔ SendFits env word line := by
  constructor
  · intro h
    by_contra hfits
    apply h.inside World.fresh
    rw [promptAndSend_fault env word newsd World.fresh line hfits]
    trivial
  · exact sendInside_of_fits env word newsd line hwhole

theorem greetingPerm_whole (σ : Equiv.Perm (List Byte))
    (hlen : ∀ block, (σ block).length = block.length) : (permDevice σ).Whole := by
  intro ses op src iv dst h
  simp only [permDevice, Option.some.injEq] at h
  subst h
  split_ifs
  · exact hlen src
  · have hsymm := hlen (σ.symm src)
    rw [Equiv.apply_symm_apply] at hsymm
    exact hsymm.symm

theorem greeting_send_inside : SendInside greetingEnv [0x6d, 0x65, 0x3a] 3 (some lineHi) := by
  apply (sendInside_iff_fits greetingEnv [0x6d, 0x65, 0x3a] 3 (some lineHi)
    (greetingPerm_whole greetingPerm greetingPerm_length)).mpr
  refine ⟨rfl, by decide, ?_⟩
  rintro l hl
  cases hl
  exact .inr ⟨rfl, by decide, fun _ _ => by decide⟩

-- A prompt of a hundred letters, and in plain and in encrypted mode a line
-- with which the frame does not fit its buffer.
theorem long_input_outside :
    promptAndSend plainEnv (List.replicate 100 0x61) 3 none World.fresh = .error .fault World.fresh ∧
    promptAndSend plainEnv (List.replicate 47 0x61) 3 (some lineLong) World.fresh =
      .error .fault World.fresh ∧
    promptAndSend greetingEnv [0x6d, 0x65, 0x3a] 3 (some lineLong) World.fresh =
      .error .fault World.fresh ∧
    ¬SendInside plainEnv (List.replicate 100 0x61) 3 none := by
  have hline : lineLong.strlen = 249 := List.length_replicate
  have hlong : lineLong.bytes ≠ [] := by decide
  have hword : ¬SendFits plainEnv (List.replicate 100 0x61) none := by
    rintro ⟨-, hle, -⟩
    rw [List.length_replicate] at hle
    exact absurd hle (by decide)
  have hplain : ¬SendFits plainEnv (List.replicate 47 0x61) (some lineLong) := by
    rintro ⟨-, -, hfits⟩
    obtain hempty | ⟨-, hle, -⟩ := hfits lineLong rfl
    · exact hlong hempty
    · rw [hline] at hle
      exact absurd hle (by decide)
  have hcrypt : ¬SendFits greetingEnv [0x6d, 0x65, 0x3a] (some lineLong) := by
    rintro ⟨-, -, hfits⟩
    obtain hempty | ⟨-, -, hle⟩ := hfits lineLong rfl
    · exact hlong hempty
    · have hle := hle rfl greetingCipher.device_opens
      rw [hline] at hle
      exact absurd hle (by decide)
  refine ⟨promptAndSend_fault _ _ _ _ _ hword, promptAndSend_fault _ _ _ _ _ hplain,
    promptAndSend_fault _ _ _ _ _ hcrypt, fun h => h.inside World.fresh ?_⟩
  rw [promptAndSend_fault _ _ _ _ _ hword]
  trivial

end SendPath

end CryptodevChat.Chat
