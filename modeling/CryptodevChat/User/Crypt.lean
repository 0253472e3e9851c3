import CryptodevChat.User.Fields
import CryptodevChat.Chat.Cipher

namespace CryptodevChat.User

open Lib (Byte le fromLe le_length Space Client Objects splice splice_length)
open Virtio
open Chat (DATA_SIZE BLOCK_SIZE KEY_SIZE CRYPTO_AES_CBC COP_ENCRYPT COP_DECRYPT pad)

variable (o : Objects Name) (minor : Nat)

section Programs

def clear : Program Unit := do
  store o .sess 0 (List.replicate SESSION_OP_SIZE 0)
  store o .cryp 0 (List.replicate CRYPT_OP_SIZE 0)

-- `sess.cipher`, `sess.keylen` and `sess.key`.
def fillSession (keySize : Nat) : Program Unit := do
  store o .sess 0 (le 4 CRYPTO_AES_CBC)
  store o .sess LEN_OFF (le 4 keySize)
  store o .sess KEY_OFF (le 8 (o.addr .key))

-- `cryp.ses = sess.ses` and `cryp.len`.
def startCrypt (len : Nat) : Program Unit := do
  let ses ← load o .sess SES_OFF 4
  store o .cryp 0 ses
  store o .cryp LEN_OFF (le 4 len)

-- `cryp.src`, `cryp.dst`, `cryp.iv` and `cryp.op`.
def fillCrypt (src dst : Name) (op : Nat) : Program Unit := do
  store o .cryp SRC_OFF (le 8 (o.addr src))
  store o .cryp DST_OFF (le 8 (o.addr dst))
  store o .cryp IV_OFF (le 8 (o.addr .iv))
  store o .cryp 4 (le 2 op)

def newSession (keySize : Nat) (cfd : Int) : Program Int := do
  fillSession o keySize
  ioctl cfd CIOCGSESSION (o.addr .sess)

def fillKeys : Program Unit :=
  Client.loop (fun i => do
    store o .iv i [0x31]
    store o .key i [UInt8.ofNat (0x30 + i)]) 0 BLOCK_SIZE

-- `encrypt` and `decrypt` begin in the same way.
def openSession : Program Int := do
  clear o
  let cfd ← ask (.dev (.openDev minor))
  check (cfd < 0) (.exit 1)
  fillKeys o
  let ret ← newSession o KEY_SIZE cfd
  check (ret ≠ 0) (die cfd)
  startCrypt o DATA_SIZE
  return cfd

-- And they end in the same way.
def cryptBlock (cfd : Int) (dst : Name) (op : Nat) : Program Unit := do
  fillCrypt o .input dst op
  let ret ← ioctl cfd CIOCCRYPT (o.addr .cryp)
  check (ret ≠ 0) (die cfd)
  let block ← load o dst 0 DATA_SIZE
  store o .buffer 0 block
  let ret ← ioctl cfd CIOCFSESSION (o.addr .sess + SES_OFF)
  check (ret ≠ 0) (die cfd)
  let ret ← ask (.dev (.close cfd.toNat))
  check (ret < 0) (.exit 1)

def encrypt (encS : Nat) : Program Unit := do
  let cfd ← openSession o minor
  let message ← load o .buffer 0 encS
  store o .input 0 message
  Client.loop (fun i => store o .input i [0x30]) encS (DATA_SIZE - encS)
  cryptBlock o cfd .encrypted COP_ENCRYPT

def decrypt : Program Unit := do
  let cfd ← openSession o minor
  let block ← load o .buffer 0 DATA_SIZE
  store o .input 0 block
  cryptBlock o cfd .decrypted COP_DECRYPT

end Programs

section Steps

variable {o minor} {sp : Space} {vals : Name → List Byte} {files : Nat → Option (Nat → Option Session)}
  {m : Process} {v : View} {cipher : CipherOf} {random : Prop} {Q : Unit → Process → View → Prop}

-- After a store, the rest of a program goes on from the new values.
theorem meets_store_then {α : Type} {R : α → Process → View → Prop} {rest : Unit → Program α} (hl : Laid o sp)
    (hm : At o sp vals files m v) (x : Name) (off : Nat) (data : List Byte) (h : off + data.length ≤ o.size x)
    (hrest : ∀ m', At o sp (Function.update vals x (splice (vals x) off data)) files m' v →
      (rest ()).Meets (contract cipher minor random) R m' v) :
    (store o x off data >>= rest).Meets (contract cipher minor random) R m v := by
  rw [Client.meets_bind]
  exact meets_store hl hm x off data h hrest

theorem meets_clear (hl : Laid o sp) (hm : At o sp vals files m v)
    (hpost : ∀ m', At o sp (Function.update (Function.update vals .sess (List.replicate SESSION_OP_SIZE 0)) .cryp
      (List.replicate CRYPT_OP_SIZE 0)) files m' v → Q () m' v) :
    (clear o).Meets (contract cipher minor random) Q m v := by
  have hsess : (List.replicate SESSION_OP_SIZE (0 : Byte)).length = o.size .sess := by
    rw [List.length_replicate, hl.sess_size]
  have hcryp : (List.replicate CRYPT_OP_SIZE (0 : Byte)).length = o.size .cryp := by
    rw [List.length_replicate, hl.cryp_size]
  refine meets_store_then hl hm .sess 0 _ (by omega) fun m' hm' => ?_
  rw [Lib.splice_all _ _ (by rw [hsess, hm.length])] at hm'
  refine meets_store hl hm' .cryp 0 _ (by omega) fun m'' hm'' => ?_
  rw [Lib.splice_all _ _ (by rw [hcryp, hm'.length])] at hm''
  exact hpost m'' hm''

theorem meets_fillSession (hl : Laid o sp) (hm : At o sp vals files m v) (keySize : Nat) (hk : keySize < 2 ^ 32)
    (hpost : ∀ m' s, SessionOp.parse s = { SessionOp.parse (vals .sess) with
        cipher := CRYPTO_AES_CBC, keylen := keySize, key := o.addr .key } →
      At o sp (Function.update vals .sess s) files m' v → Q () m' v) :
    (fillSession o keySize).Meets (contract cipher minor random) Q m v := by
  have hsize := hl.sess_size
  have hlen := (hm.length .sess).trans hsize
  unfold SESSION_OP_SIZE at hsize hlen
  refine meets_store_then hl hm .sess 0 _ (by rw [le_length]; omega) fun m' hm' => ?_
  have hlen' := splice_length (vals .sess) (le 4 CRYPTO_AES_CBC) 0 (by rw [le_length]; omega)
  refine meets_store_then hl hm' .sess LEN_OFF _ (by rw [le_length, LEN_OFF]; omega) fun m' hm' => ?_
  rw [Function.update_self, Function.update_idem] at hm'
  have hlen'' := splice_length (splice (vals .sess) 0 (le 4 CRYPTO_AES_CBC)) (le 4 keySize) LEN_OFF
    (by rw [le_length, LEN_OFF]; omega)
  refine meets_store hl hm' .sess KEY_OFF _ (by rw [le_length, KEY_OFF]; omega) fun m' hm' => ?_
  rw [Function.update_self, Function.update_idem] at hm'
  refine hpost m' _ ?_ hm'
  rw [parse_store_key _ _ (by unfold SESSION_OP_SIZE; omega) (hl.addr_lt .key),
    parse_store_keylen _ _ (by unfold SESSION_OP_SIZE; omega) hk,
    parse_store_cipher _ _ (by unfold SESSION_OP_SIZE; omega) (by decide)]

theorem meets_startCrypt (hl : Laid o sp) (hm : At o sp vals files m v) (len ses : Nat)
    (hses : ((vals .sess).drop SES_OFF).take 4 = le 4 ses) (hlt : ses < 2 ^ 32) (hlen : len < 2 ^ 32)
    (hpost : ∀ m' c, CryptOp.parse c = { CryptOp.parse (vals .cryp) with ses := ses, len := len } →
      At o sp (Function.update vals .cryp c) files m' v → Q () m' v) :
    (startCrypt o len).Meets (contract cipher minor random) Q m v := by
  have hsize := hl.cryp_size
  have hlc := (hm.length .cryp).trans hsize
  unfold CRYPT_OP_SIZE at hsize hlc
  unfold startCrypt
  rw [Client.meets_bind]
  refine meets_load hm .sess SES_OFF 4 (by rw [hl.sess_size]; decide) ?_
  rw [hses]
  refine meets_store_then hl hm .cryp 0 _ (by rw [le_length]; omega) fun m' hm' => ?_
  have hlen' := splice_length (vals .cryp) (le 4 ses) 0 (by rw [le_length]; omega)
  refine meets_store hl hm' .cryp LEN_OFF _ (by rw [le_length, LEN_OFF]; omega) fun m' hm' => ?_
  rw [Function.update_self, Function.update_idem] at hm'
  refine hpost m' _ ?_ hm'
  rw [parse_store_len _ _ (by unfold CRYPT_OP_SIZE; omega) hlen,
    parse_store_ses _ _ (by unfold CRYPT_OP_SIZE; omega) hlt]

theorem meets_fillCrypt (hl : Laid o sp) (hm : At o sp vals files m v) (src dst : Name) (op : Nat) (hop : op < 2 ^ 16)
    (hpost : ∀ m' c, CryptOp.parse c = { CryptOp.parse (vals .cryp) with
        src := o.addr src, dst := o.addr dst, iv := o.addr .iv, op := op } →
      At o sp (Function.update vals .cryp c) files m' v → Q () m' v) :
    (fillCrypt o src dst op).Meets (contract cipher minor random) Q m v := by
  have hsize := hl.cryp_size
  have hlc := (hm.length .cryp).trans hsize
  unfold CRYPT_OP_SIZE at hsize hlc
  refine meets_store_then hl hm .cryp SRC_OFF _ (by rw [le_length, SRC_OFF]; omega) fun m' hm' => ?_
  have h1 := splice_length (vals .cryp) (le 8 (o.addr src)) SRC_OFF (by rw [le_length, SRC_OFF]; omega)
  generalize hc1 : splice (vals .cryp) SRC_OFF (le 8 (o.addr src)) = c1 at hm' h1
  refine meets_store_then hl hm' .cryp DST_OFF _ (by rw [le_length, DST_OFF]; omega) fun m' hm' => ?_
  rw [Function.update_self, Function.update_idem] at hm'
  have h2 := splice_length c1 (le 8 (o.addr dst)) DST_OFF (by rw [le_length, DST_OFF]; omega)
  generalize hc2 : splice c1 DST_OFF (le 8 (o.addr dst)) = c2 at hm' h2
  refine meets_store_then hl hm' .cryp IV_OFF _ (by rw [le_length, IV_OFF]; omega) fun m' hm' => ?_
  rw [Function.update_self, Function.update_idem] at hm'
  have h3 := splice_length c2 (le 8 (o.addr .iv)) IV_OFF (by rw [le_length, IV_OFF]; omega)
  generalize hc3 : splice c2 IV_OFF (le 8 (o.addr .iv)) = c3 at hm' h3
  refine meets_store hl hm' .cryp 4 _ (by rw [le_length]; omega) fun m' hm' => ?_
  rw [Function.update_self, Function.update_idem] at hm'
  refine hpost m' _ ?_ hm'
  rw [parse_store_op _ _ (by unfold CRYPT_OP_SIZE; omega) hop, ← hc3,
    parse_store_iv _ _ (by unfold CRYPT_OP_SIZE; omega) (hl.addr_lt .iv), ← hc2,
    parse_store_dst _ _ (by unfold CRYPT_OP_SIZE; omega) (hl.addr_lt dst), ← hc1,
    parse_store_src _ _ (by unfold CRYPT_OP_SIZE; omega) (hl.addr_lt src)]

-- One round of a loop that fills an object with the values of a list.
theorem meets_fill {α : Type} {R : α → Process → View → Prop} {rest : Unit → Program α} (hl : Laid o sp)
    {x : Name} {k : Nat} (full old : List Byte) {byte : Byte} {vals' : Name → List Byte}
    (hm : At o sp vals' files m v) (hx : vals' x = full.take k ++ old.drop k) (hfull : full.length = o.size x)
    (hbyte : full[k]? = some byte)
    (hrest : ∀ m', At o sp (Function.update vals' x (full.take (k + 1) ++ old.drop (k + 1))) files m' v →
      (rest ()).Meets (contract cipher minor random) R m' v) :
    (store o x k [byte] >>= rest).Meets (contract cipher minor random) R m v := by
  obtain ⟨hlt, -⟩ := List.getElem?_eq_some_iff.mp hbyte
  refine meets_store_then hl hm x k [byte] (by rw [List.length_singleton]; omega) fun m' hm' => hrest m' ?_
  rwa [hx, Lib.splice_fill old k full byte hbyte] at hm'

theorem iv_getElem? {k : Nat} (h : k < BLOCK_SIZE) : Chat.iv[k]? = some 0x31 := by
  simp [Chat.iv, h]

theorem key_getElem? {k : Nat} (h : k < BLOCK_SIZE) : Chat.key[k]? = some (UInt8.ofNat (0x30 + k)) := by
  have hk : k < KEY_SIZE := h
  simp [Chat.key, List.getElem?_range hk]

theorem iv_length : Chat.iv.length = BLOCK_SIZE := List.length_replicate

theorem key_length : Chat.key.length = KEY_SIZE := by simp [Chat.key]

-- The objects that `encrypt` and `decrypt` have, of the sizes in the source.
structure Framed (o : Objects Name) (sp : Space) : Prop extends Laid o sp where
  key_size : o.size .key = KEY_SIZE
  input_size : o.size .input = DATA_SIZE
  encrypted_size : o.size .encrypted = DATA_SIZE
  decrypted_size : o.size .decrypted = DATA_SIZE
  buffer_size : DATA_SIZE ≤ o.size .buffer

def noFiles : Nat → Option (Nat → Option Session) := fun _ => none

-- The session of the chat.
def chatSession : Session := ⟨CRYPTO_AES_CBC, 0, Chat.key, []⟩

-- What `encrypt` and `decrypt` have when they fetch their input.
structure Ready (o : Objects Name) (sp : Space) (vals vals' : Name → List Byte) (cfd : Int) (ses : Nat) (m : Process)
    (v : View) : Prop where
  state : At o sp vals' (Function.update noFiles cfd.toNat
    (some (Function.update (fun _ => none) ses (some chatSession)))) m v
  slot : ((vals' .sess).drop SES_OFF).take 4 = le 4 ses
  ses_lt : ses < 2 ^ 32
  cryp : CryptOp.parse (vals' .cryp) = ⟨ses, 0, 0, DATA_SIZE, 0, 0, 0, 0⟩
  iv : vals' .iv = Chat.iv
  buffer : vals' .buffer = vals .buffer

-- The initialization vector and the key are filled together.
theorem meets_keys (hl : Framed o sp) (hm : At o sp vals files m v)
    (hpost : ∀ m', At o sp (Function.update (Function.update vals .iv Chat.iv) .key Chat.key) files m' v → Q () m' v) :
    (fillKeys o).Meets (contract cipher minor random) Q m v := by
  let filled := fun k => Function.update (Function.update vals .iv (Chat.iv.take k ++ (vals .iv).drop k)) .key
    (Chat.key.take k ++ (vals .key).drop k)
  have hbegin : filled 0 = vals := by
    funext y
    cases y <;> rfl
  have hend : filled (0 + BLOCK_SIZE) = Function.update (Function.update vals .iv Chat.iv) .key Chat.key := by
    have hiv : (vals .iv).length = BLOCK_SIZE := (hm.length .iv).trans hl.iv_size
    have hkey : (vals .key).length = BLOCK_SIZE := (hm.length .key).trans hl.key_size
    have htake : Chat.key.take BLOCK_SIZE = Chat.key := List.take_of_length_le (Nat.le_of_eq key_length)
    simp only [filled, Nat.zero_add]
    rw [List.take_of_length_le (Nat.le_of_eq iv_length), List.drop_of_length_le (Nat.le_of_eq hiv), htake,
      List.drop_of_length_le (Nat.le_of_eq hkey), List.append_nil, List.append_nil]
  refine (Client.meets_loop (fun k m v' => At o sp (filled k) files m v' ∧ v' = v) 0 BLOCK_SIZE m v
    ⟨by rwa [hbegin], rfl⟩ ?_).mono ?_
  · rintro k m v' _ hk ⟨hfilled, hv⟩
    have hk : k < BLOCK_SIZE := by omega
    refine meets_fill hl.toLaid Chat.iv (vals .iv) hfilled rfl (iv_length.trans hl.iv_size.symm)
      (iv_getElem? hk) fun m hm => ?_
    refine meets_store hl.toLaid hm .key k _ ?_ fun m hm => ?_
    · rw [List.length_singleton, hl.key_size]
      exact hk
    · refine ⟨⟨hm.space, fun y => ?_, hm.files⟩, hv⟩
      rw [hm.vals y]
      cases y with
      | key => exact Lib.splice_fill (vals .key) k Chat.key _ (key_getElem? hk)
      | _ => rfl
  · rintro _ m v' ⟨hfilled, rfl⟩
    rw [hend] at hfilled
    exact hpost m hfilled

-- A session for the key that the process has in its memory.
theorem meets_newSession {Q : Int → Process → View → Prop} {cfd : Int} {t : Nat → Option Session} (hl : Laid o sp)
    (hm : At o sp vals files m v) (ht : files cfd.toNat = some t)
    (hmac : (SessionOp.parse (vals .sess)).mac = 0) (hk : o.size .key < 2 ^ 32)
    (hdone : ∀ ses m' v' s, ((s.drop SES_OFF).take 4 : List Byte) = le 4 ses → ses < 2 ^ 32 →
      At o sp (Function.update vals .sess s) (Function.update files cfd.toNat (some
        (Function.update t ses (some ⟨CRYPTO_AES_CBC, 0, vals .key, []⟩)))) m' v' → Q 0 m' v')
    (hfail : ∀ ret m' v', ret ≠ 0 → v'.files = files → v'.failed = true → Q ret m' v') :
    (newSession o (o.size .key) cfd).Meets (contract cipher minor random) Q m v := by
  unfold newSession
  rw [Client.meets_bind]
  refine meets_fillSession hl hm _ hk fun m s hs hm => ?_
  refine meets_gsession hl hm ht ?_ ?_ ?_ ?_ hfail
  · rw [Function.update_self, hs]
  · rw [Function.update_self, hs]
  · rw [Function.update_self, hs]
    exact hmac
  · intro ses m v s' hslot hlt hm
    rw [Function.update_self, hs, Function.update_idem, Function.update_of_ne (by decide)] at hm
    exact hdone ses m v s' hslot hlt hm

theorem meets_openSession {Q : Int → Process → View → Prop} (hl : Framed o sp) (hm : At o sp vals noFiles m v)
    (hpost : ∀ cfd ses m' v' vals', Ready o sp vals vals' cfd ses m' v' → Q cfd m' v') :
    (openSession o minor).Meets (contract cipher minor random) Q m v := by
  have hlaid := hl.toLaid
  unfold openSession
  rw [Client.meets_bind]
  refine meets_clear hlaid hm fun m hm => ?_
  rw [Client.meets_bind]
  refine meets_open hm ?_ ?_
  · intro cfd v hpos _ hm
    rw [Client.meets_bind]
    refine meets_check (fun hneg => by omega) fun _ => ?_
    rw [Client.meets_bind]
    refine meets_keys hl hm fun m hm => ?_
    rw [Client.meets_bind, ← hl.key_size]
    refine meets_newSession hlaid hm (Function.update_self ..) rfl (by rw [hl.key_size]; decide) ?_ ?_
    · intro ses m v s hslot hlt hm
      rw [Client.meets_bind]
      refine meets_check (fun hne => absurd rfl hne) fun _ => ?_
      rw [Client.meets_bind]
      refine meets_startCrypt hlaid hm DATA_SIZE ses hslot hlt (by decide) fun m c hc hm => ?_
      rw [Function.update_idem] at hm
      exact hpost cfd ses m v _ ⟨hm, hslot, hlt, hc, rfl, rfl⟩
    · intro ret m v hne hfiles hfailed
      rw [Client.meets_bind]
      exact meets_check (fun _ => meets_die hfiles hfailed) fun hzero => absurd hne hzero
  · intro cfd v hneg hfiles hfailed
    rw [Client.meets_bind]
    refine meets_check (fun _ => ⟨fun file => ?_, fun _ => hfailed⟩) fun hpos => absurd hneg hpos
    rw [hfiles]
    rfl

-- A store into `data.in` keeps the rest.
theorem Ready.input {vals' : Name → List Byte} {cfd : Int} {ses : Nat} (hr : Ready o sp vals vals' cfd ses m v)
    {m' : Process} (block : List Byte) (hm : At o sp (Function.update vals' .input block)
      (Function.update noFiles cfd.toNat (some (Function.update (fun _ => none) ses (some chatSession)))) m' v) :
    Ready o sp vals (Function.update vals' .input block) cfd ses m' v :=
  ⟨hm, hr.slot, hr.ses_lt, hr.cryp, hr.iv, hr.buffer⟩

theorem meets_cryptBlock (hl : Framed o sp) {vals' : Name → List Byte} {cfd : Int} {ses : Nat}
    (hr : Ready o sp vals vals' cfd ses m v) (y : Name) (op : Nat) (hop : op < 2 ^ 16)
    (hy : y = .encrypted ∨ y = .decrypted)
    (hpost : ∀ m v vals'', (cipher chatSession op Chat.iv (vals' .input)).length = DATA_SIZE →
      vals'' .buffer = splice (vals .buffer) 0 (cipher chatSession op Chat.iv (vals' .input)) →
      At o sp vals'' noFiles m v → Q () m v) :
    (cryptBlock o cfd y op).Meets (contract cipher minor random) Q m v := by
  have hlaid := hl.toLaid
  have hsize : o.size y = DATA_SIZE := by
    obtain rfl | rfl := hy
    · exact hl.encrypted_size
    · exact hl.decrypted_size
  have hapart : y ≠ .sess ∧ y ≠ .buffer := by
    obtain rfl | rfl := hy <;> decide
  have hgone : ∀ t, Function.update (Function.update noFiles cfd.toNat (some t)) cfd.toNat none = noFiles := by
    intro t
    rw [Function.update_idem]
    exact Function.update_eq_self cfd.toNat noFiles
  unfold cryptBlock
  rw [Client.meets_bind]
  refine meets_fillCrypt hlaid hr.state .input y op hop fun m c hc hm => ?_
  rw [hr.cryp] at hc
  rw [Client.meets_bind]
  refine meets_crypt hlaid hm (Function.update_self ..) (x := .input) (y := y) _ hc rfl hl.input_size rfl hsize rfl rfl
    rfl (Function.update_self ..) ?_ ?_
  · intro m v hlen hm
    have hiv : Function.update vals' .cryp c .iv = Chat.iv := hr.iv
    have hinput : Function.update vals' .cryp c .input = vals' .input := rfl
    rw [hiv, hinput] at hm hlen
    rw [Client.meets_bind]
    refine meets_check (fun hne => absurd rfl hne) fun _ => ?_
    rw [Client.meets_bind]
    refine meets_load hm y 0 DATA_SIZE (by omega) ?_
    rw [Function.update_self, List.drop_zero, List.take_of_length_le (Nat.le_of_eq hlen)]
    refine meets_store_then hlaid hm .buffer 0 _ (by rw [hlen, Nat.zero_add]; exact hl.buffer_size) fun m hm => ?_
    rw [Function.update_of_ne hapart.2.symm] at hm
    rw [Client.meets_bind]
    refine meets_fsession hlaid hm (Function.update_self ..) ses ?_ hr.ses_lt ?_ ?_ ?_
    · rw [Function.update_of_ne (by decide), Function.update_of_ne hapart.1.symm]
      exact hr.slot
    · rw [Function.update_self]
      rfl
    · intro v hm
      rw [Function.update_idem] at hm
      rw [Client.meets_bind]
      refine meets_check (fun hne => absurd rfl hne) fun _ => ?_
      rw [Client.meets_bind]
      refine meets_close hm (Function.update_self ..) fun ret v _ hne hm => ?_
      rw [hgone] at hm
      refine meets_check (fun hneg => ⟨fun file => ?_, fun _ => hne (by omega)⟩) fun _ => ?_
      · rw [hm.files]
        rfl
      · refine hpost m v _ hlen ?_ hm
        rw [Function.update_self]
        change splice (vals' .buffer) 0 _ = _
        rw [hr.buffer]
    · intro ret m v hne hfiles hfailed
      rw [Client.meets_bind]
      exact meets_check (fun _ => meets_die hfiles hfailed) fun hzero => absurd hne hzero
  · intro ret m v hne hfiles hfailed
    rw [Client.meets_bind]
    exact meets_check (fun _ => meets_die hfiles hfailed) fun hzero => absurd hne hzero

theorem meets_decrypt (hl : Framed o sp) (hm : At o sp vals noFiles m v)
    (hpost : ∀ m v vals', let image := cipher chatSession COP_DECRYPT Chat.iv ((vals .buffer).take DATA_SIZE)
      image.length = DATA_SIZE → vals' .buffer = splice (vals .buffer) 0 image → At o sp vals' noFiles m v → Q () m v) :
    (decrypt o minor).Meets (contract cipher minor random) Q m v := by
  unfold decrypt
  rw [Client.meets_bind]
  refine meets_openSession hl hm fun cfd ses m v vals' hr => ?_
  rw [Client.meets_bind]
  refine meets_load hr.state .buffer 0 DATA_SIZE (by have := hl.buffer_size; omega) ?_
  have hlen : ((vals .buffer).take DATA_SIZE).length = DATA_SIZE := by
    have := hl.buffer_size
    rw [List.length_take, hm.length]
    omega
  rw [List.drop_zero, hr.buffer]
  refine meets_store_then hl.toLaid hr.state .input 0 _ (by rw [hlen, hl.input_size, Nat.zero_add]) fun m hm' => ?_
  rw [Lib.splice_all _ _ (by rw [hlen, hr.state.length, hl.input_size])] at hm'
  exact meets_cryptBlock hl (hr.input _ hm') .decrypted COP_DECRYPT (by decide) (.inr rfl) hpost

-- The loop that pads the message.
theorem meets_pad {vals' : Name → List Byte} {cfd : Int} {ses : Nat} (hl : Framed o sp) (message junk : List Byte)
    (hmessage : message.length ≤ DATA_SIZE) (hjunk : junk.length = DATA_SIZE)
    (hinput : vals' .input = message ++ junk.drop message.length)
    (hr : Ready o sp vals vals' cfd ses m v)
    (hpost : ∀ m, Ready o sp vals (Function.update vals' .input (pad message)) cfd ses m v → Q () m v) :
    (Client.loop (fun i => store o .input i [0x30]) message.length (DATA_SIZE - message.length)).Meets
      (contract cipher minor random) Q m v := by
  have hfull : (pad message).length = DATA_SIZE := Chat.pad_length message hmessage
  have hbegin : Function.update vals' .input ((pad message).take message.length ++ junk.drop message.length) =
      vals' := by
    rw [Chat.take_pad, ← hinput, Function.update_eq_self]
  refine (Client.meets_loop (fun k m v' => Ready o sp vals (Function.update vals' .input
    ((pad message).take k ++ junk.drop k)) cfd ses m v' ∧ v' = v) _ _ m v ⟨by rwa [hbegin], rfl⟩ ?_).mono ?_
  · rintro k m v' hlow hk ⟨hready, hv⟩
    have hbyte : (pad message)[k]? = some 0x30 := by
      rw [pad, List.getElem?_append_right hlow, List.getElem?_replicate, if_pos (by omega)]
    refine meets_store hl.toLaid hready.state .input k [0x30]
      (by rw [List.length_singleton, hl.input_size]; omega) fun m hm => ⟨?_, hv⟩
    rw [Function.update_self, Function.update_idem, Lib.splice_fill junk k _ _ hbyte] at hm
    exact ⟨hm, hready.slot, hready.ses_lt, hready.cryp, hready.iv, hready.buffer⟩
  · rintro _ m v' ⟨hready, rfl⟩
    rw [show message.length + (DATA_SIZE - message.length) = DATA_SIZE by omega,
      List.take_of_length_le (Nat.le_of_eq hfull), List.drop_of_length_le (Nat.le_of_eq hjunk), List.append_nil]
      at hready
    exact hpost m hready

theorem meets_encrypt (hl : Framed o sp) (hm : At o sp vals noFiles m v) (encS : Nat) (hs : encS ≤ DATA_SIZE)
    (hpost : ∀ m v vals', let image := cipher chatSession COP_ENCRYPT Chat.iv (pad ((vals .buffer).take encS))
      image.length = DATA_SIZE → vals' .buffer = splice (vals .buffer) 0 image → At o sp vals' noFiles m v → Q () m v) :
    (encrypt o minor encS).Meets (contract cipher minor random) Q m v := by
  have hbuffer := hl.buffer_size
  unfold encrypt
  rw [Client.meets_bind]
  refine meets_openSession hl hm fun cfd ses m v vals' hr => ?_
  rw [Client.meets_bind]
  refine meets_load hr.state .buffer 0 encS (by omega) ?_
  have hlen : ((vals .buffer).take encS).length = encS := by
    rw [List.length_take, hm.length]
    omega
  have hjunk : (vals' .input).length = DATA_SIZE := (hr.state.length .input).trans hl.input_size
  rw [List.drop_zero, hr.buffer]
  refine meets_store_then hl.toLaid hr.state .input 0 _ (by rw [hlen, hl.input_size]; omega) fun m hm' => ?_
  have hfirst : splice (vals' .input) 0 ((vals .buffer).take encS) =
      (vals .buffer).take encS ++ (vals' .input).drop ((vals .buffer).take encS).length := by
    simp [splice]
  rw [Client.meets_bind]
  have hpad : (Client.loop (fun i => store o .input i [0x30]) ((vals .buffer).take encS).length
      (DATA_SIZE - ((vals .buffer).take encS).length)).Meets (contract cipher minor random)
      (fun _ m v => (cryptBlock o cfd .encrypted COP_ENCRYPT).Meets (contract cipher minor random) Q m v) m v := by
    refine meets_pad hl ((vals .buffer).take encS) (vals' .input) (by omega) hjunk
      (by rw [Function.update_self, hfirst]) (hr.input _ hm') fun m hready => ?_
    rw [Function.update_idem] at hready
    refine meets_cryptBlock hl hready .encrypted COP_ENCRYPT (by decide) (.inl rfl) ?_
    rw [Function.update_self]
    exact hpost
  rwa [hlen] at hpad

end Steps

end CryptodevChat.User
