import CryptodevChat.Virtio.Exec

namespace CryptodevChat.Virtio

open Lib (Byte le fromLe leInt fromLeInt le_length leInt_length fromLe_le Loc Mem Space)

variable {σ : Type} (g : Guest σ) (s : Sys σ)

section Services

@[simp] theorem exec_pure {α : Type} (a : α) : exec g (pure a) s = .done a s := rfl

@[simp] theorem exec_kzalloc (size : Nat) :
    exec g (kzalloc size) s = .done (g.ptr s.sizes.length) (s.alloc size true) := rfl

@[simp] theorem exec_kmalloc (size : Nat) :
    exec g (kmalloc size) s = .done (g.ptr s.sizes.length) (s.alloc size false) := rfl

@[simp] theorem exec_kfree (p : Ptr) : exec g (kfree p) s = .done () s := rfl

@[simp] theorem exec_deref (block : Nat) : exec g (deref (some block)) s = .done block s := rfl

@[simp] theorem exec_deref_none : exec g (deref none) s = .oops s := rfl

@[simp] theorem exec_load (block off n : Nat) :
    exec g (load (some block) off n) s = .done (Mem.load s.mem ⟨block, off⟩ n) s := rfl

@[simp] theorem exec_sgInitOne (block len : Nat) :
    exec g (sgInitOne (some block) len) s = .done ⟨block, len⟩ s := rfl

theorem exec_store (block : Nat) (data : List Byte) (h : data.length ≤ s.sizes.getD block 0) :
    exec g (store (some block) data) s =
      .done () { s with mem := Mem.store s.mem ⟨block, 0⟩ data } := by
  change exec g (.put block 0 data (.ret ())) s = _
  simp only [exec, Nat.zero_add, h, if_true]

theorem exec_loadUser (addr n : Nat) (data : List Byte)
    (h : g.space.copyFrom s.user addr n = some data) :
    exec g (loadUser addr n) s = .done (fromLe data) s := by
  simp only [loadUser, exec, h]

theorem exec_copyFromUser (block addr n : Nat) (data : List Byte)
    (h : g.space.copyFrom s.user addr n = some data) (hn : n ≤ s.sizes.getD block 0) :
    exec g (copyFromUser (some block) addr n) s =
      .done true { s with mem := Mem.store s.mem ⟨block, 0⟩ data } := by
  change exec g (.copyFromUser block addr n .ret) s = _
  simp only [exec, h, hn, if_true]

theorem exec_copyToUser (block addr n : Nat) (user : Mem Byte)
    (h : g.space.copyTo s.user addr (Mem.load s.mem ⟨block, 0⟩ n) = some user) :
    exec g (copyToUser addr (some block) n) s = .done true { s with user } := by
  change exec g (.copyToUser addr block n .ret) s = _
  simp only [exec, h]

theorem exec_getCrof (crof : Crof) (h : s.crof = some crof) :
    exec g getCrof s = .done crof s := by
  simp only [getCrof, exec, h]

-- What a program goes on with.
theorem exec_then {α β : Type} (x : Prog α) (f : α → Prog β) (s s' : Sys σ) (a : α)
    (h : exec g x s = .done a s') : exec g (x >>= f) s = exec g (f a) s' := by
  rw [exec_bind, h]

theorem exec_done {α β : Type} (x : Prog α) (f : α → Prog β) (s s'' : Sys σ) (b : β) :
    exec g (x >>= f) s = .done b s'' ↔
      ∃ a s', exec g x s = .done a s' ∧ exec g (f a) s' = .done b s'' := by
  rw [exec_bind]
  cases exec g x s with
  | done a s' =>
      constructor
      · intro h
        exact ⟨a, s', rfl, h⟩
      · rintro ⟨_, _, heq, h⟩
        cases heq
        exact h
  | oops s' => simp
  | hangs s' => simp

end Services

section Submit

theorem VirtQueue.add_empty (vq : VirtQueue) (elem : VirtQueueElement) (havail : vq.avail = [])
    (hused : vq.used = []) (hroom : elem.outNum + elem.inNum ≤ VQ_SIZE) :
    vq.add elem = { vq with avail := [elem] } := by
  have hfree : elem.descs ≤ vq.numFree := by
    simpa [VirtQueue.numFree, havail, hused, VirtQueueElement.descs] using hroom
  rw [VirtQueue.add, if_pos hfree, havail]
  rfl

-- A request that finds its queue empty is handled and taken back.
theorem exec_submit (v : Nat) (sgs : List Sg) (numOut numIn : Nat) (hlock : s.locked = false)
    (havail : (s.queues v).avail = []) (hused : (s.queues v).used = [])
    (hroom : numOut + numIn ≤ VQ_SIZE) :
    let b := ((handleElem g.host g.qemu (toElement sgs numOut numIn)).run ⟨s.mem, s.host, []⟩).2
    exec g (submit v sgs numOut numIn) s =
      .done () { s with
        mem := b.mem
        host := b.host
        queues := Function.update s.queues v ⟨[], [], (s.queues v).notified + 1⟩
        history := s.history ++ [(toElement sgs numOut numIn, b.log)] } := by
  have hadd := VirtQueue.add_empty _ (toElement sgs numOut numIn) havail hused hroom
  simp only [submit, exec_bind, spinLock, spinUnlock, addSgs, kick, getBuf, exec, hlock,
    Bool.false_eq_true, if_false, Sys.setQueue, hadd, Sys.notify, vqHandleOutput,
    Function.update_self, Function.update_idem, hused, List.nil_append, List.take_succ_cons,
    List.take_zero, List.map_cons, List.map_nil]

end Submit

section Ioctl

-- The allocations with the given numbers succeed.
def Guest.Has (objects : List Nat) : Prop := ∀ i ∈ objects, g.allocs i = true

variable {g}

theorem Guest.Has.ptr {objects : List Nat} (h : g.Has objects) (i : Nat) (hi : i ∈ objects) :
    g.ptr i = some i := if_pos (h i hi)

-- Allocating an object and filling it.
theorem exec_object {β : Type} (size i : Nat) (data : List Byte) (f : Ptr → Prog β)
    (hi : s.sizes.length = i) (hptr : g.ptr i = some i) (hdata : data.length = size) :
    exec g (do let p ← kzalloc size; store p data; f p) s =
      exec g (f (some i)) { s with
        sizes := s.sizes ++ [size]
        mem := Mem.store (Mem.fill s.mem i 0) ⟨i, 0⟩ data } := by
  subst hi
  have hsize : (s.sizes ++ [size]).getD s.sizes.length 0 = size := by simp
  have hstore := exec_store g (s.alloc size true) s.sizes.length data
    (by simp only [Sys.alloc, hsize, hdata]; exact Nat.le_refl _)
  rw [exec_then _ _ _ _ _ _ (exec_kzalloc g s size), hptr, exec_then _ _ _ _ _ _ hstore]
  rfl

theorem exec_object_null {β : Type} (size i : Nat) (data : List Byte) (f : Ptr → Prog β)
    (hi : s.sizes.length = i) (hptr : g.allocs i ≠ true) :
    exec g (do let p ← kzalloc size; store p data; f p) s = .oops (s.alloc size true) := by
  subst hi
  have hnull : g.ptr s.sizes.length = none := if_neg hptr
  rw [exec_then _ _ _ _ _ _ (exec_kzalloc g s size), hnull, exec_bind]
  rfl

-- The objects of every ioctl command, as the driver fills them.
def commonMem (m : Mem Byte) (fd : Int) (cmd : Nat) : Mem Byte :=
  let m := Mem.store (Mem.fill m 0 0) ⟨0, 0⟩ (le 4 VIRTIO_CRYPTO_SYSCALL_IOCTL)
  let m := Mem.store (Mem.fill m 1 0) ⟨1, 0⟩ (leInt fd)
  let m := Mem.store (Mem.fill m 2 0) ⟨2, 0⟩ (le 4 cmd)
  Mem.fill m 3 0

def commonSgs : List Sg := [⟨0, 4⟩, ⟨1, 4⟩, ⟨2, 4⟩]

theorem exec_allocCommon (cmd : Nat) (crof : Crof) (hcrof : s.crof = some crof)
    (hsizes : s.sizes = []) (hallocs : g.Has [0, 1, 2]) :
    exec g (allocCommon cmd) s =
      .done ⟨crof.crdev, some 0, some 1, some 2, g.ptr 3, commonSgs⟩
        { s with mem := commonMem s.mem crof.hostFd cmd, sizes := [4, 4, 4, 4] } := by
  unfold allocCommon
  rw [exec_then _ _ _ _ _ _ (exec_getCrof g s crof hcrof),
    exec_object _ 4 0 _ _ (by simp [hsizes]) (hallocs.ptr 0 (by simp)) (le_length 4 _),
    exec_object _ 4 1 _ _ (by simp [hsizes]) (hallocs.ptr 1 (by simp)) (leInt_length _),
    exec_object _ 4 2 _ _ (by simp [hsizes]) (hallocs.ptr 2 (by simp)) (le_length 4 _)]
  simp only [exec_bind, exec_kzalloc, exec_sgInitOne, exec_pure, Sys.alloc, hsizes]
  rfl

-- Only a call that has them all gets further.
theorem exec_allocCommon_oops (cmd : Nat) (hsizes : s.sizes = [])
    (h : ¬(g.Has [0, 1, 2] ∧ ∃ crof, s.crof = some crof)) :
    ∃ s', exec g (allocCommon cmd) s = .oops s' := by
  unfold allocCommon
  cases hcrof : s.crof with
  | none => exact ⟨s, by simp only [getCrof, exec_bind, exec, hcrof]⟩
  | some crof =>
      rw [exec_then _ _ _ _ _ _ (exec_getCrof g s crof hcrof)]
      by_cases h0 : g.allocs 0 = true
      · rw [exec_object _ 4 0 _ _ (by simp [hsizes]) (if_pos h0) (le_length 4 _)]
        by_cases h1 : g.allocs 1 = true
        · rw [exec_object _ 4 1 _ _ (by simp [hsizes]) (if_pos h1) (leInt_length _)]
          by_cases h2 : g.allocs 2 = true
          · have hall : g.Has [0, 1, 2] := by simp [Guest.Has, h0, h1, h2]
            exact absurd ⟨hall, crof, hcrof⟩ h
          · exact ⟨_, exec_object_null _ 4 2 _ _ (by simp [hsizes]) h2⟩
        · exact ⟨_, exec_object_null _ 4 1 _ _ (by simp [hsizes]) h1⟩
      · exact ⟨_, exec_object_null _ 4 0 _ _ (by simp [hsizes]) h0⟩

-- The objects of the commands. Their lengths come from the user's memory.
def objectsMem (m : Mem Byte) : Mem Byte :=
  let m := Mem.fill m 4 0
  let m := Mem.fill m 6 0
  let m := Mem.fill m 7 0
  let m := Mem.fill m 8 0
  let m := Mem.fill m 9 0
  Mem.fill m 10 0

def ioctlSizes (len : Nat) : List Nat := [4, 4, 4, 4, 48, len, 4, 48, len, 16, len]

variable (g) in
def Guest.objects : Objects :=
  ⟨g.ptr 4, g.ptr 5, g.ptr 6, g.ptr 7, g.ptr 8, g.ptr 9, g.ptr 10⟩

theorem exec_allocObjects (arg : Nat) (data : List Byte) (hsizes : s.sizes = [4, 4, 4, 4])
    (hlen : g.space.copyFrom s.user (arg + LEN_OFF) 4 = some data) :
    exec g (allocObjects arg) s = .done g.objects
      { s with mem := objectsMem s.mem, sizes := ioctlSizes (fromLe data) } := by
  have hload : ∀ s' : Sys σ, s'.user = s.user →
      exec g (loadUser (arg + LEN_OFF) 4) s' = .done (fromLe data) s' := by
    intro s' hu
    exact exec_loadUser g s' _ 4 data (by rw [hu, hlen])
  unfold allocObjects
  simp only [exec_bind, exec_kzalloc, exec_kmalloc, exec_pure, Sys.alloc, hsizes, if_true,
    Bool.false_eq_true, if_false, hload]
  rfl

theorem exec_allocObjects_oops (arg : Nat)
    (hlen : g.space.copyFrom s.user (arg + LEN_OFF) 4 = none) :
    ∃ s', exec g (allocObjects arg) s = .oops s' := by
  unfold allocObjects
  rw [exec_then _ _ _ _ _ _ (exec_kzalloc g s SESSION_OP_SIZE), exec_bind]
  have hload : exec g (loadUser (arg + LEN_OFF) 4) (s.alloc SESSION_OP_SIZE true) =
      .oops (s.alloc SESSION_OP_SIZE true) := by
    have huser : (s.alloc SESSION_OP_SIZE true).user = s.user := rfl
    simp only [loadUser, exec, huser, hlen]
  rw [hload]
  exact ⟨_, rfl⟩

-- What CIOCGSESSION reads from its caller.
structure SessionReads (space : Space) (user : Mem Byte) (arg : Nat) (bytes key : List Byte) :
    Prop where
  op : space.copyFrom user arg SESSION_OP_SIZE = some bytes
  key : space.copyFrom user (SessionOp.parse bytes).key (SessionOp.parse bytes).keylen = some key

structure CryptReads (space : Space) (user : Mem Byte) (arg : Nat) (bytes src iv : List Byte) :
    Prop where
  op : space.copyFrom user arg CRYPT_OP_SIZE = some bytes
  src : space.copyFrom user (CryptOp.parse bytes).src (CryptOp.parse bytes).len = some src
  iv : space.copyFrom user (CryptOp.parse bytes).iv IV_SIZE = some iv

-- A field of a structure that can be copied can be loaded.
theorem exec_loadField (addr size off n : Nat) (bytes : List Byte)
    (h : g.space.copyFrom s.user addr size = some bytes) (hoff : off + n ≤ size) :
    exec g (loadUser (addr + off) n) s = .done (field bytes off n) s :=
  exec_loadUser g s _ n _ (Space.copyFrom_slice _ _ _ _ _ _ _ h hoff)

-- A field of a structure that has been copied into an object.
theorem load_field (m : Mem Byte) (block size off n : Nat) (bytes : List Byte)
    (hlen : bytes.length = size) (h : off + n ≤ size) :
    fromLe (Mem.load (Mem.store m ⟨block, 0⟩ bytes) ⟨block, off⟩ n) = field bytes off n := by
  have h := Mem.load_store_slice m ⟨block, 0⟩ bytes off n (by omega)
  rw [Loc.plus, Nat.zero_add] at h
  rw [h, field]

-- The copied lengths, after the payloads have been copied as well.
theorem session_copied (m : Mem Byte) (bytes key : List Byte) (hlen : bytes.length = SESSION_OP_SIZE) :
    fromLe (Mem.load (Mem.store (Mem.store m ⟨4, 0⟩ bytes) ⟨5, 0⟩ key) ⟨4, LEN_OFF⟩ 4) =
      (SessionOp.parse bytes).keylen := by
  rw [Mem.load_store_block _ _ _ _ _ (by decide)]
  exact load_field m 4 SESSION_OP_SIZE LEN_OFF 4 bytes hlen (by decide)

theorem crypt_copied (m : Mem Byte) (bytes src iv : List Byte) (hlen : bytes.length = CRYPT_OP_SIZE) :
    fromLe (Mem.load (Mem.store (Mem.store (Mem.store m ⟨7, 0⟩ bytes) ⟨8, 0⟩ src) ⟨9, 0⟩ iv)
      ⟨7, LEN_OFF⟩ 4) = (CryptOp.parse bytes).len := by
  rw [Mem.load_store_block _ _ _ _ _ (by decide), Mem.load_store_block _ _ _ _ _ (by decide)]
  exact load_field m 7 CRYPT_OP_SIZE LEN_OFF 4 bytes hlen (by decide)

theorem exec_cmdSgs_gsession (arg : Nat) (o : Objects) (bytes key : List Byte)
    (ho : o.sessionOp = some 4 ∧ o.sessionKey = some 5)
    (hreads : SessionReads g.space s.user arg bytes key)
    (hsizes : s.sizes = ioctlSizes (SessionOp.parse bytes).keylen) :
    exec g (cmdSgs CIOCGSESSION arg o) s =
      .done (some ([⟨5, (SessionOp.parse bytes).keylen⟩], [⟨4, SESSION_OP_SIZE⟩]))
        { s with mem := Mem.store (Mem.store s.mem ⟨4, 0⟩ bytes) ⟨5, 0⟩ key } := by
  have hblen := Space.copyFrom_length _ _ _ _ _ hreads.op
  let s1 : Sys σ := { s with mem := Mem.store s.mem ⟨4, 0⟩ bytes }
  let s2 : Sys σ := { s1 with mem := Mem.store s1.mem ⟨5, 0⟩ key }
  have hop : exec g (copyFromUser (some 4) arg SESSION_OP_SIZE) s = .done true s1 :=
    exec_copyFromUser g s 4 arg _ bytes hreads.op (by simp [hsizes, ioctlSizes, SESSION_OP_SIZE])
  have hkeyptr : exec g (loadUser (arg + KEY_OFF) 8) s1 = .done (SessionOp.parse bytes).key s1 :=
    exec_loadField s1 arg _ KEY_OFF 8 bytes hreads.op (by decide)
  have hkeylen : exec g (loadUser (arg + LEN_OFF) 4) s1 = .done (SessionOp.parse bytes).keylen s1 :=
    exec_loadField s1 arg _ LEN_OFF 4 bytes hreads.op (by decide)
  have hkey : exec g (copyFromUser (some 5) (SessionOp.parse bytes).key
      (SessionOp.parse bytes).keylen) s1 = .done true s2 :=
    exec_copyFromUser g s1 5 _ _ key hreads.key (by simp [s1, hsizes, ioctlSizes])
  have hcopied : fromLe (Mem.load s2.mem ⟨4, LEN_OFF⟩ 4) = (SessionOp.parse bytes).keylen :=
    session_copied s.mem bytes key hblen
  unfold cmdSgs
  simp only [if_true, ho]
  rw [exec_then _ _ _ _ _ _ hop, if_pos rfl, exec_then _ _ _ _ _ _ hkeyptr,
    exec_then _ _ _ _ _ _ hkeylen, exec_then _ _ _ _ _ _ hkey, if_pos rfl]
  simp only [exec_bind, exec_load, exec_sgInitOne, exec_pure, hcopied]
  rfl

theorem exec_cmdSgs_fsession (arg : Nat) (o : Objects) (ses : List Byte) (ho : o.sesId = some 6)
    (len : Nat) (hreads : g.space.copyFrom s.user arg 4 = some ses)
    (hsizes : s.sizes = ioctlSizes len) :
    exec g (cmdSgs CIOCFSESSION arg o) s =
      .done (some ([⟨6, 4⟩], [])) { s with mem := Mem.store s.mem ⟨6, 0⟩ ses } := by
  have hses := exec_copyFromUser g s 6 arg 4 ses hreads (by simp [hsizes, ioctlSizes])
  unfold cmdSgs
  simp only [fsession_ne_gsession, if_true, if_false, ho]
  rw [exec_then _ _ _ _ _ _ hses, if_pos rfl]
  simp only [exec_bind, exec_sgInitOne, exec_pure]

theorem exec_cmdSgs_crypt (arg : Nat) (o : Objects) (bytes src iv : List Byte)
    (ho : o.cryptOp = some 7 ∧ o.src = some 8 ∧ o.iv = some 9 ∧ o.dst = some 10)
    (hreads : CryptReads g.space s.user arg bytes src iv)
    (hsizes : s.sizes = ioctlSizes (CryptOp.parse bytes).len) :
    exec g (cmdSgs CIOCCRYPT arg o) s =
      .done (some ([⟨7, CRYPT_OP_SIZE⟩, ⟨8, (CryptOp.parse bytes).len⟩, ⟨9, IV_SIZE⟩],
          [⟨10, (CryptOp.parse bytes).len⟩]))
        { s with mem := Mem.store (Mem.store (Mem.store s.mem ⟨7, 0⟩ bytes) ⟨8, 0⟩ src) ⟨9, 0⟩ iv } := by
  have hblen := Space.copyFrom_length _ _ _ _ _ hreads.op
  let s1 : Sys σ := { s with mem := Mem.store s.mem ⟨7, 0⟩ bytes }
  let s2 : Sys σ := { s1 with mem := Mem.store s1.mem ⟨8, 0⟩ src }
  let s3 : Sys σ := { s2 with mem := Mem.store s2.mem ⟨9, 0⟩ iv }
  have hop : exec g (copyFromUser (some 7) arg CRYPT_OP_SIZE) s = .done true s1 :=
    exec_copyFromUser g s 7 arg _ bytes hreads.op (by simp [hsizes, ioctlSizes, CRYPT_OP_SIZE])
  have hsrcptr : exec g (loadUser (arg + SRC_OFF) 8) s1 = .done (CryptOp.parse bytes).src s1 :=
    exec_loadField s1 arg _ SRC_OFF 8 bytes hreads.op (by decide)
  have hlen : exec g (loadUser (arg + LEN_OFF) 4) s1 = .done (CryptOp.parse bytes).len s1 :=
    exec_loadField s1 arg _ LEN_OFF 4 bytes hreads.op (by decide)
  have hsrc : exec g (copyFromUser (some 8) (CryptOp.parse bytes).src (CryptOp.parse bytes).len) s1 =
      .done true s2 :=
    exec_copyFromUser g s1 8 _ _ src hreads.src (by simp [s1, hsizes, ioctlSizes])
  have hivptr : exec g (loadUser (arg + IV_OFF) 8) s2 = .done (CryptOp.parse bytes).iv s2 :=
    exec_loadField s2 arg _ IV_OFF 8 bytes hreads.op (by decide)
  have hiv : exec g (copyFromUser (some 9) (CryptOp.parse bytes).iv IV_SIZE) s2 = .done true s3 :=
    exec_copyFromUser g s2 9 _ _ iv hreads.iv (by simp [s1, s2, hsizes, ioctlSizes, IV_SIZE])
  have hcopied : fromLe (Mem.load s3.mem ⟨7, LEN_OFF⟩ 4) = (CryptOp.parse bytes).len :=
    crypt_copied s.mem bytes src iv hblen
  unfold cmdSgs
  simp only [crypt_ne_gsession, crypt_ne_fsession, if_true, if_false, ho]
  rw [exec_then _ _ _ _ _ _ hop, if_pos rfl, exec_then _ _ _ _ _ _ hsrcptr,
    exec_then _ _ _ _ _ _ hlen, exec_then _ _ _ _ _ _ hsrc, if_pos rfl,
    exec_then _ _ _ _ _ _ hivptr, exec_then _ _ _ _ _ _ hiv, if_pos rfl]
  simp only [exec_bind, exec_load, exec_sgInitOne, exec_pure, hcopied]
  rfl

-- An object holds what every ioctl request starts with.
structure Encoded (m : Mem Byte) (fd : Int) (cmd : Nat) : Prop where
  type : Mem.load m ⟨0, 0⟩ 4 = le 4 VIRTIO_CRYPTO_SYSCALL_IOCTL
  fd : Mem.load m ⟨1, 0⟩ 4 = leInt fd
  cmd : Mem.load m ⟨2, 0⟩ 4 = le 4 cmd

theorem encoded_commonMem (m : Mem Byte) (fd : Int) (cmd : Nat) :
    Encoded (commonMem m fd cmd) fd cmd := by
  constructor <;> unfold commonMem <;> simp only
  · rw [Mem.load_fill_other _ _ _ _ _ (by decide), Mem.load_store_block _ _ _ _ _ (by decide),
      Mem.load_fill_other _ _ _ _ _ (by decide), Mem.load_store_block _ _ _ _ _ (by decide),
      Mem.load_fill_other _ _ _ _ _ (by decide), Mem.load_store _ _ _ _ (le_length 4 _)]
  · rw [Mem.load_fill_other _ _ _ _ _ (by decide), Mem.load_store_block _ _ _ _ _ (by decide),
      Mem.load_fill_other _ _ _ _ _ (by decide), Mem.load_store _ _ _ _ (leInt_length _)]
  · rw [Mem.load_fill_other _ _ _ _ _ (by decide), Mem.load_store _ _ _ _ (le_length 4 _)]

variable {m : Mem Byte} {fd : Int} {cmd : Nat}

theorem Encoded.store (h : Encoded m fd cmd) (p : Loc) (data : List Byte) (hp : 3 ≤ p.block) :
    Encoded (Mem.store m p data) fd cmd where
  type := by rw [Mem.load_store_block _ _ _ _ _ (by simp only; omega), h.type]
  fd := by rw [Mem.load_store_block _ _ _ _ _ (by simp only; omega), h.fd]
  cmd := by rw [Mem.load_store_block _ _ _ _ _ (by simp only; omega), h.cmd]

theorem Encoded.fill (h : Encoded m fd cmd) (block : Nat) (x : Byte) (hb : 3 ≤ block) :
    Encoded (Mem.fill m block x) fd cmd where
  type := by rw [Mem.load_fill_other _ _ _ _ _ (by simp only; omega), h.type]
  fd := by rw [Mem.load_fill_other _ _ _ _ _ (by simp only; omega), h.fd]
  cmd := by rw [Mem.load_fill_other _ _ _ _ _ (by simp only; omega), h.cmd]

theorem Encoded.objects (h : Encoded m fd cmd) : Encoded (objectsMem m) fd cmd :=
  (((((h.fill 4 0 (by omega)).fill 6 0 (by omega)).fill 7 0 (by omega)).fill 8 0
    (by omega)).fill 9 0 (by omega)).fill 10 0 (by omega)

-- The backend finds the type, the descriptor and the command at their places.
theorem Encoded.decoded (h : Encoded m fd cmd) (sgs : List Sg) (numOut numIn : Nat)
    (hcmd : cmd < 2 ^ 32) :
    (toElement (commonSgs ++ sgs) numOut numIn).syscallType m = VIRTIO_CRYPTO_SYSCALL_TYPE_IOCTL ∧
    (toElement (commonSgs ++ sgs) numOut numIn).ioctlCmd m = cmd ∧
    (toElement (commonSgs ++ sgs) numOut numIn).hostFd m = fromLeInt (leInt fd) := by
  refine ⟨?_, ?_, ?_⟩
  · change fromLe (Mem.load m ⟨0, 0⟩ 4) = _
    rw [h.type, fromLe_le]
    rfl
  · change fromLe (Mem.load m ⟨2, 0⟩ 4) = _
    rw [h.cmd, fromLe_le, Nat.mod_eq_of_lt (by omega)]
  · change fromLeInt (Mem.load m ⟨1, 0⟩ 4) = _
    rw [h.fd]

-- A call that starts on an open file.
structure Sys.Fresh (s : Sys σ) (file : Crof) : Prop where
  sizes : s.sizes = []
  crof : s.crof = some file
  locked : s.locked = false
  avail : (s.queues file.crdev).avail = []
  used : (s.queues file.crdev).used = []
  history : s.history = []

-- The element of an ioctl request, in the order in which the driver lists it.
def ioctlElement (outSgs inSgs : List Sg) : VirtQueueElement :=
  toElement (commonSgs ++ outSgs ++ inSgs ++ [⟨3, 4⟩]) (commonSgs.length + outSgs.length)
    (inSgs.length + 1)

section Handed

variable (q : Qemu) (m0 : Mem Byte) (bytes : List Byte)

theorem addr_pointer (block : Nat) : fromLe (le 8 (q.addr ⟨block, 0⟩)) = q.base block := by
  have h := q.base_lt block
  rw [fromLe_le, Qemu.addr, Nat.add_zero, Nat.mod_eq_of_lt (by omega)]

-- A pointer that is written beside a field leaves it as it is.
theorem load_beside (m : Mem Byte) (block off n place p : Nat)
    (h : off + n ≤ place ∨ place + 8 ≤ off) :
    Mem.load (Mem.store m ⟨block, place⟩ (le 8 p)) ⟨block, off⟩ n = Mem.load m ⟨block, off⟩ n := by
  apply Mem.load_store_other
  rw [le_length]
  simp only
  omega

theorem load_pointer (m : Mem Byte) (block place object : Nat) :
    fromLe (Mem.load (Mem.store m ⟨block, place⟩ (le 8 (q.addr ⟨object, 0⟩))) ⟨block, place⟩ 8) =
      q.base object := by
  rw [Mem.load_store _ _ _ _ (le_length 8 _), addr_pointer]

-- A field of an object that starts at its first byte.
theorem field_object (m : Mem Byte) (block size off n : Nat) (h : off + n ≤ size) :
    field (Mem.load m ⟨block, 0⟩ size) off n = fromLe (Mem.load m ⟨block, off⟩ n) := by
  rw [field_load _ _ _ _ _ h, Loc.plus, Nat.zero_add]

-- The objects of a session request, and the structure that reaches the host.
def sessionObjects (key : List Byte) : Mem Byte :=
  Mem.store (Mem.store m0 ⟨4, 0⟩ bytes) ⟨5, 0⟩ key

def sessionElement (keylen : Nat) : VirtQueueElement :=
  ioctlElement [⟨5, keylen⟩] [⟨4, SESSION_OP_SIZE⟩]

theorem session_mem (keylen : Nat) (m : Mem Byte) : (sessionElement keylen).sessionMem q m =
    Mem.store m ⟨4, KEY_OFF⟩ (le 8 (q.addr ⟨5, 0⟩)) := rfl

theorem session_handed (key : List Byte) (hlen : bytes.length = SESSION_OP_SIZE) (keylen : Nat) :
    SessionOp.parse (Mem.load ((sessionElement keylen).sessionMem q (sessionObjects m0 bytes key))
        ⟨4, 0⟩ SESSION_OP_SIZE) =
      { SessionOp.parse bytes with key := q.base 5 } := by
  rw [session_mem]
  generalize hm : Mem.store (sessionObjects m0 bytes key) ⟨4, KEY_OFF⟩ (le 8 (q.addr ⟨5, 0⟩)) = m
  have hkept : ∀ off n, off + n ≤ SESSION_OP_SIZE → (off + n ≤ KEY_OFF ∨ KEY_OFF + 8 ≤ off) →
      field (Mem.load m ⟨4, 0⟩ SESSION_OP_SIZE) off n = field bytes off n := by
    intro off n hsize hoff
    rw [field_object _ _ _ _ _ hsize, ← hm, load_beside _ _ _ _ _ _ hoff, sessionObjects,
      Mem.load_store_block _ _ _ _ _ (by simp), load_field m0 4 SESSION_OP_SIZE off n bytes hlen hsize]
  have hkey : field (Mem.load m ⟨4, 0⟩ SESSION_OP_SIZE) KEY_OFF 8 = q.base 5 := by
    rw [field_object _ _ _ _ _ (by decide), ← hm, load_pointer]
  unfold SessionOp.parse
  simp (disch := decide) only [hkept, hkey]

def cryptObjects (src iv : List Byte) : Mem Byte :=
  Mem.store (Mem.store (Mem.store m0 ⟨7, 0⟩ bytes) ⟨8, 0⟩ src) ⟨9, 0⟩ iv

def cryptElement (len : Nat) : VirtQueueElement :=
  ioctlElement [⟨7, CRYPT_OP_SIZE⟩, ⟨8, len⟩, ⟨9, IV_SIZE⟩] [⟨10, len⟩]

theorem crypt_mem (len : Nat) (m : Mem Byte) : (cryptElement len).cryptMem q m =
    Mem.store (Mem.store (Mem.store m ⟨7, SRC_OFF⟩ (le 8 (q.addr ⟨8, 0⟩)))
      ⟨7, IV_OFF⟩ (le 8 (q.addr ⟨9, 0⟩))) ⟨7, DST_OFF⟩ (le 8 (q.addr ⟨10, 0⟩)) := rfl

theorem crypt_handed (src iv : List Byte) (hlen : bytes.length = CRYPT_OP_SIZE) (len : Nat) :
    CryptOp.parse (Mem.load ((cryptElement len).cryptMem q (cryptObjects m0 bytes src iv))
        ⟨7, 0⟩ CRYPT_OP_SIZE) =
      { CryptOp.parse bytes with src := q.base 8, dst := q.base 10, iv := q.base 9 } := by
  rw [crypt_mem]
  generalize hm : Mem.store (Mem.store (Mem.store (cryptObjects m0 bytes src iv) ⟨7, SRC_OFF⟩
    (le 8 (q.addr ⟨8, 0⟩))) ⟨7, IV_OFF⟩ (le 8 (q.addr ⟨9, 0⟩))) ⟨7, DST_OFF⟩
    (le 8 (q.addr ⟨10, 0⟩)) = m
  have hkept : ∀ off n, off + n ≤ CRYPT_OP_SIZE → (off + n ≤ SRC_OFF ∨ SRC_OFF + 8 ≤ off) →
      (off + n ≤ IV_OFF ∨ IV_OFF + 8 ≤ off) → (off + n ≤ DST_OFF ∨ DST_OFF + 8 ≤ off) →
      field (Mem.load m ⟨7, 0⟩ CRYPT_OP_SIZE) off n = field bytes off n := by
    intro off n hsize hsrc hiv hdst
    rw [field_object _ _ _ _ _ hsize, ← hm, load_beside _ _ _ _ _ _ hdst,
      load_beside _ _ _ _ _ _ hiv, load_beside _ _ _ _ _ _ hsrc, cryptObjects,
      Mem.load_store_block _ _ _ _ _ (by simp), Mem.load_store_block _ _ _ _ _ (by simp),
      load_field m0 7 CRYPT_OP_SIZE off n bytes hlen hsize]
  have hdst : field (Mem.load m ⟨7, 0⟩ CRYPT_OP_SIZE) DST_OFF 8 = q.base 10 := by
    rw [field_object _ _ _ _ _ (by decide), ← hm, load_pointer]
  have hiv : field (Mem.load m ⟨7, 0⟩ CRYPT_OP_SIZE) IV_OFF 8 = q.base 9 := by
    rw [field_object _ _ _ _ _ (by decide), ← hm, load_beside _ _ _ _ _ _ (by decide), load_pointer]
  have hsrc : field (Mem.load m ⟨7, 0⟩ CRYPT_OP_SIZE) SRC_OFF 8 = q.base 8 := by
    rw [field_object _ _ _ _ _ (by decide), ← hm, load_beside _ _ _ _ _ _ (by decide),
      load_beside _ _ _ _ _ _ (by decide), load_pointer]
  unfold CryptOp.parse
  simp (disch := decide) only [hkept, hsrc, hdst, hiv]

end Handed

-- What the reply of a call starts from.
def Sys.handled (s : Sys σ) (file : Crof) (len : Nat) (elem : VirtQueueElement) (b : Backend σ) :
    Sys σ :=
  { s with
    mem := b.mem
    sizes := ioctlSizes len
    host := b.host
    queues := Function.update s.queues file.crdev ⟨[], [], (s.queues file.crdev).notified + 1⟩
    history := [(elem, b.log)] }

def Crof.common (file : Crof) : Common :=
  ⟨file.crdev, some 0, some 1, some 2, some 3, commonSgs⟩

section Submitted

-- What the backend finds in the objects of each command.
theorem session_decoded (q : Qemu) (m0 : Mem Byte) (fd : Int) (bytes key : List Byte) (len : Nat) :
    let m := sessionObjects (objectsMem (commonMem m0 fd CIOCGSESSION)) bytes key
    (sessionElement len).syscallType m = VIRTIO_CRYPTO_SYSCALL_TYPE_IOCTL ∧
    (sessionElement len).ioctlCmd m = CIOCGSESSION ∧
    (sessionElement len).hostFd ((sessionElement len).sessionMem q m) = fromLeInt (leInt fd) := by
  intro m
  have henc : Encoded m fd CIOCGSESSION :=
    ((encoded_commonMem _ _ _).objects.store _ _ (by simp)).store _ _ (by simp)
  have henc' : Encoded ((sessionElement len).sessionMem q m) fd CIOCGSESSION :=
    henc.store _ _ (show 3 ≤ 4 by omega)
  obtain ⟨htype, hioctl, -⟩ := henc.decoded [⟨5, len⟩, ⟨4, SESSION_OP_SIZE⟩, ⟨3, 4⟩] 4 2 (by decide)
  obtain ⟨-, -, hfd⟩ := henc'.decoded [⟨5, len⟩, ⟨4, SESSION_OP_SIZE⟩, ⟨3, 4⟩] 4 2 (by decide)
  exact ⟨htype, hioctl, hfd⟩

theorem fsession_decoded (m0 : Mem Byte) (fd : Int) (ses : List Byte) :
    let m := Mem.store (objectsMem (commonMem m0 fd CIOCFSESSION)) ⟨6, 0⟩ ses
    (ioctlElement [⟨6, 4⟩] []).syscallType m = VIRTIO_CRYPTO_SYSCALL_TYPE_IOCTL ∧
    (ioctlElement [⟨6, 4⟩] []).ioctlCmd m = CIOCFSESSION ∧
    (ioctlElement [⟨6, 4⟩] []).hostFd m = fromLeInt (leInt fd) := by
  intro m
  have henc : Encoded m fd CIOCFSESSION := (encoded_commonMem _ _ _).objects.store _ _ (by simp)
  exact henc.decoded [⟨6, 4⟩, ⟨3, 4⟩] 4 1 (by decide)

theorem crypt_decoded (q : Qemu) (m0 : Mem Byte) (fd : Int) (bytes src iv : List Byte) (len : Nat) :
    let m := cryptObjects (objectsMem (commonMem m0 fd CIOCCRYPT)) bytes src iv
    (cryptElement len).syscallType m = VIRTIO_CRYPTO_SYSCALL_TYPE_IOCTL ∧
    (cryptElement len).ioctlCmd m = CIOCCRYPT ∧
    (cryptElement len).hostFd ((cryptElement len).cryptMem q m) = fromLeInt (leInt fd) := by
  intro m
  have henc : Encoded m fd CIOCCRYPT :=
    (((encoded_commonMem _ _ _).objects.store _ _ (by simp)).store _ _ (by simp)).store _ _ (by simp)
  have henc' : Encoded ((cryptElement len).cryptMem q m) fd CIOCCRYPT :=
    ((henc.store _ _ (show 3 ≤ 7 by omega)).store _ _ (show 3 ≤ 7 by omega)).store _ _
      (show 3 ≤ 7 by omega)
  let sgs : List Sg := [⟨7, CRYPT_OP_SIZE⟩, ⟨8, len⟩, ⟨9, IV_SIZE⟩, ⟨10, len⟩, ⟨3, 4⟩]
  obtain ⟨htype, hioctl, -⟩ := henc.decoded sgs 6 2 (by decide)
  obtain ⟨-, -, hfd⟩ := henc'.decoded sgs 6 2 (by decide)
  exact ⟨htype, hioctl, hfd⟩

variable {s} {file : Crof} (hs : s.Fresh file)
include hs

-- Once the lists are complete, the backend handles them as one request.
theorem exec_ioctl_submitted (cmd arg : Nat) (data : List Byte) (outSgs inSgs : List Sg)
    (m3 : Mem Byte) (hallocs : g.Has [0, 1, 2, 3])
    (hlen : g.space.copyFrom s.user (arg + LEN_OFF) 4 = some data)
    (hcmd : exec g (cmdSgs cmd arg g.objects)
        { s with mem := objectsMem (commonMem s.mem file.hostFd cmd)
                 sizes := ioctlSizes (fromLe data) } =
      .done (some (outSgs, inSgs)) { s with mem := m3, sizes := ioctlSizes (fromLe data) })
    (hroom : outSgs.length + inSgs.length ≤ 8) :
    exec g (cryptoChrdevIoctl cmd arg) s =
      exec g (reply cmd arg file.common g.objects)
        (s.handled file (fromLe data) (ioctlElement outSgs inSgs)
          ((handleElem g.host g.qemu (ioctlElement outSgs inSgs)).run ⟨m3, s.host, []⟩).2) := by
  have hthree : g.Has [0, 1, 2] := fun i hi => hallocs i (by simp at hi ⊢; omega)
  have hret := hallocs.ptr 3 (by simp)
  have hsubmit := exec_submit g
    { s with mem := m3, sizes := ioctlSizes (fromLe data) } file.crdev
    (commonSgs ++ outSgs ++ inSgs ++ [⟨3, 4⟩]) (commonSgs.length + outSgs.length)
    (inSgs.length + 1) hs.locked hs.avail hs.used (by
      simp only [commonSgs, List.length_cons, List.length_nil, VQ_SIZE]
      omega)
  have hcommon := exec_allocCommon s cmd file hs.crof hs.sizes hthree
  have hobjects := exec_allocObjects
    { s with mem := commonMem s.mem file.hostFd cmd, sizes := [4, 4, 4, 4] } arg data rfl hlen
  unfold cryptoChrdevIoctl
  rw [exec_then _ _ _ _ _ _ hcommon, exec_then _ _ _ _ _ _ hobjects, exec_then _ _ _ _ _ _ hcmd]
  simp only [hret]
  rw [exec_then _ _ _ _ _ _ (exec_sgInitOne g _ 3 4), exec_then _ _ _ _ _ _ hsubmit]
  simp only [hs.history, List.nil_append]
  rfl

-- Of each command: what the host was handed, and what it left in the objects.
theorem exec_gsession (arg : Nat) (bytes key : List Byte) (hallocs : g.Has [0, 1, 2, 3, 4, 5])
    (hreads : SessionReads g.space s.user arg bytes key) :
    let len := (SessionOp.parse bytes).keylen
    let m := (sessionElement len).sessionMem g.qemu
      (sessionObjects (objectsMem (commonMem s.mem file.hostFd CIOCGSESSION)) bytes key)
    let fd := fromLeInt (leInt file.hostFd)
    let r := g.host.ioctl g.qemu.space fd CIOCGSESSION (g.qemu.addr ⟨4, 0⟩) m s.host
    exec g (cryptoChrdevIoctl CIOCGSESSION arg) s =
      exec g (reply CIOCGSESSION arg file.common g.objects)
        (s.handled file len (sessionElement len)
          { mem := Mem.store r.2.1 ⟨3, 0⟩ (leInt (status r.1))
            host := r.2.2
            log := [.touch .out 0 0 4, .touch .out 2 0 4, .touch .in 0 KEY_OFF 8,
              .touch .out 1 0 4, .call (.gsession fd (Mem.load m ⟨4, 0⟩ SESSION_OP_SIZE)),
              .touch .in 1 0 4] }) := by
  intro len m fd r
  have hlen := Space.copyFrom_slice _ _ _ _ LEN_OFF 4 _ hreads.op (by decide)
  have hptr : g.objects.sessionOp = some 4 ∧ g.objects.sessionKey = some 5 :=
    ⟨hallocs.ptr 4 (by simp), hallocs.ptr 5 (by simp)⟩
  let m2 := objectsMem (commonMem s.mem file.hostFd CIOCGSESSION)
  let s2 : Sys σ := { s with mem := m2, sizes := ioctlSizes len }
  have hcmd := exec_cmdSgs_gsession s2 arg g.objects bytes key hptr hreads rfl
  obtain ⟨htype, hioctl, hfd⟩ := session_decoded g.qemu s.mem file.hostFd bytes key len
  have hrun := handleElem_gsession g.host g.qemu (sessionElement len)
    ⟨sessionObjects m2 bytes key, s.host, []⟩ htype hioctl
  have hexec := exec_ioctl_submitted hs CIOCGSESSION arg _ _ _ _
    (fun i hi => hallocs i (by simp at hi ⊢; omega)) hlen hcmd (by simp)
  have hr : r = g.host.ioctl g.qemu.space ((sessionElement len).hostFd m) CIOCGSESSION
      (g.qemu.addr ⟨4, 0⟩) m s.host :=
    congrArg (fun fd => g.host.ioctl g.qemu.space fd CIOCGSESSION _ m s.host) hfd.symm
  rw [hexec, hr, show fd = (sessionElement len).hostFd m from hfd.symm]
  exact congrArg (fun b => exec g _ (s.handled file len (sessionElement len) b)) hrun

theorem exec_fsession (arg : Nat) (data ses : List Byte) (hallocs : g.Has [0, 1, 2, 3, 6])
    (hlen : g.space.copyFrom s.user (arg + LEN_OFF) 4 = some data)
    (hses : g.space.copyFrom s.user arg 4 = some ses) :
    let m := Mem.store (objectsMem (commonMem s.mem file.hostFd CIOCFSESSION)) ⟨6, 0⟩ ses
    let fd := fromLeInt (leInt file.hostFd)
    let r := g.host.ioctl g.qemu.space fd CIOCFSESSION (g.qemu.addr ⟨6, 0⟩) m s.host
    exec g (cryptoChrdevIoctl CIOCFSESSION arg) s =
      exec g (reply CIOCFSESSION arg file.common g.objects)
        (s.handled file (fromLe data) (ioctlElement [⟨6, 4⟩] [])
          { mem := Mem.store r.2.1 ⟨3, 0⟩ (leInt (status r.1))
            host := r.2.2
            log := [.touch .out 0 0 4, .touch .out 2 0 4, .touch .out 1 0 4,
              .call (.fsession fd (Mem.load m ⟨6, 0⟩ 4)), .touch .in 0 0 4] }) := by
  intro m fd r
  let m2 := objectsMem (commonMem s.mem file.hostFd CIOCFSESSION)
  let s2 : Sys σ := { s with mem := m2, sizes := ioctlSizes (fromLe data) }
  have hcmd := exec_cmdSgs_fsession s2 arg g.objects ses (hallocs.ptr 6 (by simp)) _ hses rfl
  obtain ⟨htype, hioctl, hfd⟩ := fsession_decoded s.mem file.hostFd ses
  have hrun := handleElem_fsession g.host g.qemu (ioctlElement [⟨6, 4⟩] []) ⟨m, s.host, []⟩ htype hioctl
  have hexec := exec_ioctl_submitted hs CIOCFSESSION arg _ _ _ _
    (fun i hi => hallocs i (by simp at hi ⊢; omega)) hlen hcmd (by simp)
  have hr : r = g.host.ioctl g.qemu.space ((ioctlElement [⟨6, 4⟩] []).hostFd m) CIOCFSESSION
      (g.qemu.addr ⟨6, 0⟩) m s.host :=
    congrArg (fun fd => g.host.ioctl g.qemu.space fd CIOCFSESSION _ m s.host) hfd.symm
  rw [hexec, hr, show fd = (ioctlElement [⟨6, 4⟩] []).hostFd m from hfd.symm]
  exact congrArg (fun b => exec g _ (s.handled file (fromLe data) _ b)) hrun

theorem exec_crypt (arg : Nat) (bytes src iv : List Byte)
    (hallocs : g.Has [0, 1, 2, 3, 7, 8, 9, 10])
    (hreads : CryptReads g.space s.user arg bytes src iv) :
    let len := (CryptOp.parse bytes).len
    let m := (cryptElement len).cryptMem g.qemu
      (cryptObjects (objectsMem (commonMem s.mem file.hostFd CIOCCRYPT)) bytes src iv)
    let fd := fromLeInt (leInt file.hostFd)
    let r := g.host.ioctl g.qemu.space fd CIOCCRYPT (g.qemu.addr ⟨7, 0⟩) m s.host
    exec g (cryptoChrdevIoctl CIOCCRYPT arg) s =
      exec g (reply CIOCCRYPT arg file.common g.objects)
        (s.handled file len (cryptElement len)
          { mem := Mem.store r.2.1 ⟨3, 0⟩ (leInt (status r.1))
            host := r.2.2
            log := [.touch .out 0 0 4, .touch .out 2 0 4, .touch .out 3 SRC_OFF 8,
              .touch .out 3 IV_OFF 8, .touch .out 3 DST_OFF 8, .touch .out 1 0 4,
              .call (.crypt fd (Mem.load m ⟨7, 0⟩ CRYPT_OP_SIZE)), .touch .in 1 0 4,
              .touch .in 1 0 4] }) := by
  intro len m fd r
  have hlen := Space.copyFrom_slice _ _ _ _ LEN_OFF 4 _ hreads.op (by decide)
  have hptr : g.objects.cryptOp = some 7 ∧ g.objects.src = some 8 ∧ g.objects.iv = some 9 ∧
      g.objects.dst = some 10 :=
    ⟨hallocs.ptr 7 (by simp), hallocs.ptr 8 (by simp), hallocs.ptr 9 (by simp),
      hallocs.ptr 10 (by simp)⟩
  let m2 := objectsMem (commonMem s.mem file.hostFd CIOCCRYPT)
  let s2 : Sys σ := { s with mem := m2, sizes := ioctlSizes len }
  have hcmd := exec_cmdSgs_crypt s2 arg g.objects bytes src iv hptr hreads rfl
  obtain ⟨htype, hioctl, hfd⟩ := crypt_decoded g.qemu s.mem file.hostFd bytes src iv len
  have hrun := handleElem_crypt g.host g.qemu (cryptElement len)
    ⟨cryptObjects m2 bytes src iv, s.host, []⟩ htype hioctl
  have hexec := exec_ioctl_submitted hs CIOCCRYPT arg _ _ _ _
    (fun i hi => hallocs i (by simp at hi ⊢; omega)) hlen hcmd (by simp)
  have hr : r = g.host.ioctl g.qemu.space ((cryptElement len).hostFd m) CIOCCRYPT
      (g.qemu.addr ⟨7, 0⟩) m s.host :=
    congrArg (fun fd => g.host.ioctl g.qemu.space fd CIOCCRYPT _ m s.host) hfd.symm
  rw [hexec, hr, show fd = (cryptElement len).hostFd m from hfd.symm]
  exact congrArg (fun b => exec g _ (s.handled file len (cryptElement len) b)) hrun

end Submitted

end Ioctl

end CryptodevChat.Virtio
