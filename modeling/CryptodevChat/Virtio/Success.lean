import CryptodevChat.Virtio.Pointers

namespace CryptodevChat.Virtio

open Lib (Byte le fromLe leInt fromLeInt le_length leInt_length fromLe_le Loc Mem Space gather scatter)

variable {σ : Type} {g : Guest σ} (s : Sys σ)

section Files

-- A state between calls, in which every queue is empty.
structure Sys.Idle (s : Sys σ) : Prop where
  sizes : s.sizes = []
  locked : s.locked = false
  avail : ∀ v, (s.queues v).avail = []
  used : ∀ v, (s.queues v).used = []

-- What a call leaves behind.
structure Sys.After (s s' : Sys σ) (crof : Option Crof) (host : σ) : Prop where
  locked : s'.locked = false
  avail : ∀ v, (s'.queues v).avail = []
  used : ∀ v, (s'.queues v).used = []
  crof : s'.crof = crof
  host : s'.host = host

-- A queue that was just served is empty, as the others still are.
theorem served_empty (hs : s.Idle) (v w n : Nat) :
    (Function.update s.queues v ⟨[], [], n⟩ w).avail = [] ∧
    (Function.update s.queues v ⟨[], [], n⟩ w).used = [] := by
  by_cases h : w = v
  · subst h
    simp
  · rw [Function.update_of_ne h]
    exact ⟨hs.avail w, hs.used w⟩

-- A descriptor comes back from the object that the backend stored it in.
theorem fd_stored (h : Host σ) (host : σ) (m : Mem Byte) (p : Loc) :
    fromLeInt (Mem.load (Mem.store m p (leInt (h.openDev host).1)) p 4) = (h.openDev host).1 := by
  obtain ⟨hlow, hhigh⟩ := h.open_range host
  rw [Mem.load_store _ _ _ _ (leInt_length _), Lib.fromLeInt_leInt _ hlow hhigh]

theorem exec_getCryptoDevByMinor (minor crdev : Nat) (hdev : g.devs minor = some crdev)
    (hlock : s.locked = false) : exec g (getCryptoDevByMinor minor) s = .done (some crdev) s := by
  have hsame : ({ s with locked := false } : Sys σ) = s := by rw [← hlock]
  simp only [getCryptoDevByMinor, exec_bind, spinLock, spinUnlock, exec, hlock, hdev,
    Bool.false_eq_true, if_false, exec_pure, hsame]

theorem exec_open (minor crdev : Nat) (hs : s.Idle) (hallocs : g.Has [0, 1])
    (hcrof : g.crofAlloc = true) (hseek : 0 ≤ g.nonseekable) (hdev : g.devs minor = some crdev) :
    ∃ s', exec g (cryptoChrdevOpen minor) s = .done g.nonseekable s' ∧
      s.After s' (some ⟨crdev, (g.host.openDev s.host).1⟩) (g.host.openDev s.host).2 := by
  let s1 : Sys σ := (s.alloc 4 true).alloc 4 true
  let s2 : Sys σ := { s1 with mem := Mem.store s1.mem ⟨0, 0⟩ (le 4 VIRTIO_CRYPTO_SYSCALL_OPEN) }
  let s3 : Sys σ := { s2 with mem := Mem.store s2.mem ⟨1, 0⟩ (leInt (-1)) }
  let s4 : Sys σ := { s3 with crof := some ⟨crdev, -1⟩ }
  have hsizes : s1.sizes = [4, 4] := by simp [s1, Sys.alloc, hs.sizes]
  have htype : exec g (store (some 0) (le 4 VIRTIO_CRYPTO_SYSCALL_OPEN)) s1 = .done () s2 :=
    exec_store g s1 0 _ (by simp [hsizes])
  have hfd : exec g (store (some 1) (leInt (-1))) s2 = .done () s3 :=
    exec_store g s2 1 _ (by simp [s2, hsizes, leInt_length])
  have hnew : exec g (newCrof ⟨crdev, -1⟩) s3 = .done true s4 := by
    simp only [newCrof, exec, hcrof, if_true]
    rfl
  have hfind : exec g (getCryptoDevByMinor minor) s3 = .done (some crdev) s3 :=
    exec_getCryptoDevByMinor s3 minor crdev hdev hs.locked
  have hsubmit := exec_submit g s4 crdev [⟨0, POINTER_SIZE⟩, ⟨1, POINTER_SIZE⟩] 1 1 hs.locked
    (hs.avail crdev) (hs.used crdev) (by decide)
  have helem : (toElement [⟨0, POINTER_SIZE⟩, ⟨1, POINTER_SIZE⟩] 1 1).syscallType s4.mem =
      VIRTIO_CRYPTO_SYSCALL_TYPE_OPEN := by
    change fromLe (Mem.load s3.mem ⟨0, 0⟩ 4) = _
    rw [Mem.load_store_block _ _ _ _ _ (by simp), Mem.load_store _ _ _ _ (le_length 4 _), fromLe_le]
    rfl
  have hrun := handleElem_open g.host g.qemu _ ⟨s4.mem, s4.host, []⟩ helem
  rw [hrun] at hsubmit
  have hptr0 : g.ptr s.sizes.length = some 0 := by rw [hs.sizes]; exact hallocs.ptr 0 (by simp)
  have hptr1 : g.ptr (s.alloc 4 true).sizes.length = some 1 := by
    simp only [Sys.alloc, hs.sizes]
    exact hallocs.ptr 1 (by simp)
  unfold cryptoChrdevOpen
  rw [exec_then _ _ _ _ _ _ (exec_kzalloc g s 4), hptr0,
    exec_then _ _ _ _ _ _ (exec_kzalloc g (s.alloc 4 true) 4), hptr1,
    exec_then _ _ _ _ _ _ htype, exec_then _ _ _ _ _ _ hfd,
    exec_then g nonseekableOpen _ s3 s3 g.nonseekable rfl, if_neg (by omega),
    exec_then _ _ _ _ _ _ hfind, exec_then _ _ _ _ _ _ hnew, if_pos rfl,
    exec_then _ _ _ _ _ _ (exec_sgInitOne g s4 0 POINTER_SIZE),
    exec_then _ _ _ _ _ _ (exec_sgInitOne g s4 1 POINTER_SIZE), exec_then _ _ _ _ _ _ hsubmit]
  simp only [exec_bind, exec_load, exec_kfree, exec_pure, setHostFd, exec]
  refine ⟨_, rfl, hs.locked, fun w => (served_empty s hs crdev w _).1, fun w => (served_empty s hs crdev w _).2,
    ?_, rfl⟩
  exact congrArg (fun fd => some (Crof.mk crdev fd)) (fd_stored g.host s.host s4.mem ⟨1, 0⟩)

theorem exec_release (file : Crof) (hs : s.Idle) (hallocs : g.Has [0, 1]) (hcrof : s.crof = some file)
    (hlow : -0x80000000 ≤ file.hostFd) (hhigh : file.hostFd < 0x80000000) :
    ∃ s', exec g cryptoChrdevRelease s = .done 0 s' ∧
      s.After s' none (g.host.closeDev file.hostFd s.host).2 := by
  let s1 : Sys σ := { s with
    sizes := [4]
    mem := Mem.store (Mem.fill s.mem 0 0) ⟨0, 0⟩ (le 4 VIRTIO_CRYPTO_SYSCALL_CLOSE) }
  let s2 : Sys σ := { s1 with
    sizes := [4, 4]
    mem := Mem.store (Mem.fill s1.mem 1 0) ⟨1, 0⟩ (leInt file.hostFd) }
  have hsubmit := exec_submit g s2 file.crdev [⟨0, POINTER_SIZE⟩, ⟨1, 4⟩] 2 0 hs.locked
    (hs.avail _) (hs.used _) (by decide)
  have helem : (toElement [⟨0, POINTER_SIZE⟩, ⟨1, 4⟩] 2 0).syscallType s2.mem =
      VIRTIO_CRYPTO_SYSCALL_TYPE_CLOSE := by
    change fromLe (Mem.load s2.mem ⟨0, 0⟩ 4) = _
    rw [Mem.load_store_block _ _ _ _ _ (by simp), Mem.load_fill_other _ _ _ _ _ (by simp),
      Mem.load_store _ _ _ _ (le_length 4 _), fromLe_le]
    rfl
  have hfd : (toElement [⟨0, POINTER_SIZE⟩, ⟨1, 4⟩] 2 0).hostFd s2.mem = file.hostFd := by
    change fromLeInt (Mem.load s2.mem ⟨1, 0⟩ 4) = _
    rw [Mem.load_store _ _ _ _ (leInt_length _), Lib.fromLeInt_leInt _ hlow hhigh]
  have hrun := handleElem_close g.host g.qemu _ ⟨s2.mem, s2.host, []⟩ helem
  rw [hrun, hfd] at hsubmit
  unfold cryptoChrdevRelease
  rw [exec_then _ _ _ _ _ _ (exec_getCrof g s file hcrof),
    exec_object _ 4 0 _ _ (by simp [hs.sizes]) (hallocs.ptr 0 (by simp)) (le_length 4 _),
    exec_object _ 4 1 _ _ (by simp [hs.sizes]) (hallocs.ptr 1 (by simp)) (leInt_length _)]
  simp only [hs.sizes, List.nil_append, List.singleton_append]
  rw [exec_then _ _ _ _ _ _ (exec_sgInitOne g s2 0 POINTER_SIZE),
    exec_then _ _ _ _ _ _ (exec_sgInitOne g s2 1 4), exec_then _ _ _ _ _ _ hsubmit]
  simp only [exec_bind, exec_kfree, exec_pure, freeCrof, exec]
  exact ⟨_, rfl, hs.locked, fun w => (served_empty s hs file.crdev w _).1,
    fun w => (served_empty s hs file.crdev w _).2, rfl, rfl⟩

end Files

section Device

variable (h : Host σ) (sp : Space) (fd : Int) (arg : Nat) (m m' : Mem Byte) (x x' : σ)

-- A session without a digest, and a cipher operation that writes no
-- digest and no initialization vector.
theorem cioGsession_ok_iff (bytes key : List Byte) (hreads : SessionReads sp m arg bytes key)
    (hmac : (SessionOp.parse bytes).mac = 0) :
    h.cioGsession sp fd arg m x = (.ok (), m', x') ↔
      ∃ ses, h.gsession fd ⟨(SessionOp.parse bytes).cipher, 0, key, []⟩ x = (.ok ses, x') ∧
        sp.copyTo m (arg + SES_OFF) (le 4 ses) = some m' := by
  unfold Host.cioGsession
  simp only [hreads.op, hreads.key, hmac, if_true]
  constructor
  · intro hrun
    split at hrun
    · cases hrun
    · rename_i ses y hses
      split at hrun
      · cases hrun
      · rename_i m'' hput
        cases hrun
        exact ⟨ses, hses, hput⟩
  · rintro ⟨ses, hses, hput⟩
    simp only [hses, hput]

theorem cioCrypt_ok_iff (bytes src iv : List Byte) (hreads : CryptReads sp m arg bytes src iv)
    (hmac : (CryptOp.parse bytes).mac = 0)
    (hflag : (CryptOp.parse bytes).flags / COP_FLAG_WRITE_IV % 2 = 0) :
    h.cioCrypt sp fd arg m x = (.ok (), m', x') ↔
      ∃ out, h.crypt fd ⟨(CryptOp.parse bytes).ses, (CryptOp.parse bytes).op,
          (CryptOp.parse bytes).flags, src, iv⟩ x = (.ok out, x') ∧
        sp.copyTo m (CryptOp.parse bytes).dst out.dst = some m' := by
  have hput : ∀ out, putCrypted sp (CryptOp.parse bytes) out m =
      sp.copyTo m (CryptOp.parse bytes).dst out.dst := by
    intro out
    simp only [putCrypted, hmac, hflag, if_true]
    cases sp.copyTo m (CryptOp.parse bytes).dst out.dst <;> rfl
  unfold Host.cioCrypt
  simp only [hreads.op, hreads.src, hreads.iv, hput]
  constructor
  · intro hrun
    split at hrun
    · cases hrun
    · rename_i out y hcrypt
      split at hrun
      · cases hrun
      · rename_i m'' hdst
        cases hrun
        exact ⟨out, hcrypt, hdst⟩
  · rintro ⟨out, hcrypt, hdst⟩
    simp only [hcrypt, hdst]

theorem cioGsession_reads (hrun : h.cioGsession sp fd arg m x = (.ok (), m', x')) :
    ∃ bytes key, SessionReads sp m arg bytes key := by
  unfold Host.cioGsession at hrun
  cases hop : sp.copyFrom m arg SESSION_OP_SIZE with
  | none =>
      rw [hop] at hrun
      cases hrun
  | some bytes =>
      cases hkey : sp.copyFrom m (SessionOp.parse bytes).key (SessionOp.parse bytes).keylen with
      | none =>
          simp only [hop, hkey] at hrun
          cases hrun
      | some key => exact ⟨bytes, key, hop, hkey⟩

theorem cioCrypt_reads (hrun : h.cioCrypt sp fd arg m x = (.ok (), m', x')) :
    ∃ bytes src iv, CryptReads sp m arg bytes src iv := by
  unfold Host.cioCrypt at hrun
  cases hop : sp.copyFrom m arg CRYPT_OP_SIZE with
  | none =>
      rw [hop] at hrun
      cases hrun
  | some bytes =>
      cases hsrc : sp.copyFrom m (CryptOp.parse bytes).src (CryptOp.parse bytes).len with
      | none =>
          simp only [hop, hsrc] at hrun
          cases hrun
      | some src =>
          cases hiv : sp.copyFrom m (CryptOp.parse bytes).iv IV_SIZE with
          | none =>
              simp only [hop, hsrc, hiv] at hrun
              cases hrun
          | some iv => exact ⟨bytes, src, iv, hop, hsrc, hiv⟩

end Device

section Replies

theorem CryptOp.parse_len (bytes : List Byte) :
    (CryptOp.parse bytes).len = field bytes LEN_OFF 4 := rfl

-- The objects of a call lie where QEMU sees them.
def Qemu.Places (q : Qemu) (sizes : List Nat) : Prop :=
  ∀ block < sizes.length, q.space.Maps (q.base block) ⟨block, 0⟩ (sizes.getD block 0)

theorem exec_reply (cmd arg : Nat) (file : Crof) (o : Objects) (s' : Sys σ)
    (hcopy : exec g (copyBack cmd arg o) s = .done true s') :
    exec g (reply cmd arg file.common o) s = .done (fromLeInt (Mem.load s'.mem ⟨3, 0⟩ 4)) s' := by
  unfold reply
  rw [exec_then _ _ _ _ _ _ hcopy, if_pos rfl]
  simp only [freeObjects, exec_bind, exec_kfree, Crof.common, exec_load, exec_pure]

theorem status_ok (m : Mem Byte) :
    fromLeInt (Mem.load (Mem.store m ⟨3, 0⟩ (leInt (status (.ok ())))) ⟨3, 0⟩ 4) = 0 := by
  rw [Mem.load_store _ _ _ _ (leInt_length _)]
  rfl

variable {s} {file : Crof}

theorem handled_after (hs : s.Idle) (hcrof : s.crof = some file) (len : Nat)
    (elem : VirtQueueElement) (b : Backend σ) (user : Mem Byte) :
    s.After { s.handled file len elem b with user } (some file) b.host where
  locked := hs.locked
  avail := fun w => (served_empty s hs file.crdev w _).1
  used := fun w => (served_empty s hs file.crdev w _).2
  crof := hcrof
  host := rfl

-- An answer of success that is copied back ends the call.
theorem handled_reply (hs : s.Idle) (hcrof : s.crof = some file) (cmd arg len : Nat) (o : Objects)
    (elem : VirtQueueElement) (m : Mem Byte) (x : σ) (log : List Event) (b : Backend σ)
    (hb : Backend.mk (Mem.store m ⟨3, 0⟩ (leInt (status (.ok ())))) x log = b) (user : Mem Byte)
    (hcopy : exec g (copyBack cmd arg o) (s.handled file len elem b) =
      .done true { s.handled file len elem b with user }) :
    exec g (reply cmd arg file.common o) (s.handled file len elem b) =
        .done 0 { s.handled file len elem b with user } ∧
      s.After { s.handled file len elem b with user } (some file) x := by
  have hret : fromLeInt (Mem.load b.mem ⟨3, 0⟩ 4) = 0 := by
    rw [← hb]
    exact status_ok _
  have hafter := handled_after hs hcrof len elem b user
  rw [show b.host = x by rw [← hb]] at hafter
  refine ⟨?_, hafter⟩
  rw [exec_reply _ _ _ _ _ _ hcopy]
  exact congrArg (Outcome.done · _) hret

-- The device finds in QEMU's memory what the process has in its own.
theorem ioctl_gsession_qemu (h : Host σ) (q : Qemu) (fd : Int) (m0 : Mem Byte) (bytes key : List Byte)
    (x x' : σ) (ses : Nat) (hbytes : bytes.length = SESSION_OP_SIZE)
    (hkey : key.length = (SessionOp.parse bytes).keylen)
    (hplaces : q.Places (ioctlSizes (SessionOp.parse bytes).keylen))
    (hmac : (SessionOp.parse bytes).mac = 0)
    (hses : h.gsession fd ⟨(SessionOp.parse bytes).cipher, 0, key, []⟩ x = (.ok ses, x')) :
    let m := (sessionElement (SessionOp.parse bytes).keylen).sessionMem q
      (sessionObjects m0 bytes key)
    h.ioctl q.space fd CIOCGSESSION (q.addr ⟨4, 0⟩) m x =
      (.ok (), Mem.store m ⟨4, SES_OFF⟩ (le 4 ses), x') := by
  intro m
  have hop : q.space.Maps (q.base 4) ⟨4, 0⟩ SESSION_OP_SIZE := hplaces 4 (by simp [ioctlSizes])
  have hkeyat : q.space.Maps (q.base 5) ⟨5, 0⟩ (SessionOp.parse bytes).keylen :=
    hplaces 5 (by simp [ioctlSizes])
  have hparse := session_handed q m0 bytes key hbytes (SessionOp.parse bytes).keylen
  have hstored : Mem.load m ⟨5, 0⟩ (SessionOp.parse bytes).keylen = key := by
    rw [show m = Mem.store (sessionObjects m0 bytes key) ⟨4, KEY_OFF⟩ (le 8 (q.addr ⟨5, 0⟩)) from rfl,
      Mem.load_store_block _ _ _ _ _ (by simp), sessionObjects, Mem.load_store _ _ _ _ hkey]
  have hreads : SessionReads q.space m (q.base 4) (Mem.load m ⟨4, 0⟩ SESSION_OP_SIZE) key := by
    refine ⟨hop.copyFrom m, ?_⟩
    rw [hparse, hkeyat.copyFrom m, hstored]
  have hput := (hop.sub SES_OFF 4 (by decide)).copyTo m (le 4 ses) (le_length 4 ses)
  have hiff := cioGsession_ok_iff h q.space fd (q.base 4) m (Mem.store m ⟨4, SES_OFF⟩ (le 4 ses)) x x'
    _ key hreads (by rw [hparse, hmac])
  rw [Host.ioctl, if_pos rfl]
  exact hiff.mpr ⟨ses, by rw [hparse]; exact hses, hput⟩

theorem ioctl_crypt_qemu (h : Host σ) (q : Qemu) (fd : Int) (m0 : Mem Byte)
    (bytes src iv : List Byte) (x x' : σ) (out : Crypted) (hbytes : bytes.length = CRYPT_OP_SIZE)
    (hsrc : src.length = (CryptOp.parse bytes).len) (hiv : iv.length = IV_SIZE)
    (hplaces : q.Places (ioctlSizes (CryptOp.parse bytes).len))
    (hmac : (CryptOp.parse bytes).mac = 0)
    (hflag : (CryptOp.parse bytes).flags / COP_FLAG_WRITE_IV % 2 = 0)
    (hcrypt : h.crypt fd ⟨(CryptOp.parse bytes).ses, (CryptOp.parse bytes).op,
      (CryptOp.parse bytes).flags, src, iv⟩ x = (.ok out, x')) :
    let m := (cryptElement (CryptOp.parse bytes).len).cryptMem q (cryptObjects m0 bytes src iv)
    h.ioctl q.space fd CIOCCRYPT (q.addr ⟨7, 0⟩) m x =
      (.ok (), Mem.store m ⟨10, 0⟩ out.dst, x') := by
  intro m
  have hop : q.space.Maps (q.base 7) ⟨7, 0⟩ CRYPT_OP_SIZE := hplaces 7 (by simp [ioctlSizes])
  have hsrcat : q.space.Maps (q.base 8) ⟨8, 0⟩ (CryptOp.parse bytes).len :=
    hplaces 8 (by simp [ioctlSizes])
  have hivat : q.space.Maps (q.base 9) ⟨9, 0⟩ IV_SIZE := hplaces 9 (by simp [ioctlSizes])
  have hdstat : q.space.Maps (q.base 10) ⟨10, 0⟩ (CryptOp.parse bytes).len :=
    hplaces 10 (by simp [ioctlSizes])
  have hparse := crypt_handed q m0 bytes src iv hbytes (CryptOp.parse bytes).len
  have hkept : ∀ block, block ≠ 7 → ∀ n, Mem.load m ⟨block, 0⟩ n =
      Mem.load (cryptObjects m0 bytes src iv) ⟨block, 0⟩ n := by
    intro block hblock n
    rw [show m = (cryptElement (CryptOp.parse bytes).len).cryptMem q (cryptObjects m0 bytes src iv)
        from rfl, crypt_mem, Mem.load_store_block _ _ _ _ _ (by simpa using hblock.symm),
      Mem.load_store_block _ _ _ _ _ (by simpa using hblock.symm),
      Mem.load_store_block _ _ _ _ _ (by simpa using hblock.symm)]
  have hreads : CryptReads q.space m (q.base 7) (Mem.load m ⟨7, 0⟩ CRYPT_OP_SIZE) src iv := by
    refine ⟨hop.copyFrom m, ?_, ?_⟩
    · rw [hparse, hsrcat.copyFrom m, hkept 8 (by decide), cryptObjects,
        Mem.load_store_block _ _ _ _ _ (by simp), Mem.load_store _ _ _ _ hsrc]
    · rw [hparse, hivat.copyFrom m, hkept 9 (by decide), cryptObjects, Mem.load_store _ _ _ _ hiv]
  have hlen := h.dst_length _ _ _ _ _ hcrypt
  have hput := hdstat.copyTo m out.dst (hlen.trans hsrc)
  have hiff := cioCrypt_ok_iff h q.space fd (q.base 7) m (Mem.store m ⟨10, 0⟩ out.dst) x x'
    _ src iv hreads (by rw [hparse, hmac]) (by rw [hparse, hflag])
  rw [Host.ioctl, if_neg crypt_ne_gsession, if_neg crypt_ne_fsession, if_pos rfl]
  exact hiff.mpr ⟨out, by rw [hparse]; exact hcrypt, by rw [hparse]; exact hput⟩

variable (hs : s.Fresh file) (hidle : s.Idle) (hallocs : ∀ i, g.allocs i = true)
  (hfd : fromLeInt (leInt file.hostFd) = file.hostFd)
include hs hidle hallocs hfd

-- The whole structure goes back to the process, with the session in its place.
theorem exec_gsession_ok (arg : Nat) (bytes key : List Byte) (x : σ) (ses : Nat)
    (hreads : SessionReads g.space s.user arg bytes key)
    (hplaces : g.qemu.Places (ioctlSizes (SessionOp.parse bytes).keylen))
    (hmac : (SessionOp.parse bytes).mac = 0)
    (hses : g.host.gsession file.hostFd ⟨(SessionOp.parse bytes).cipher, 0, key, []⟩ s.host =
      (.ok ses, x))
    (hwrite : ∀ data, data.length = SESSION_OP_SIZE → ∃ user, g.space.copyTo s.user arg data = some user) :
    ∃ s' data, exec g (cryptoChrdevIoctl CIOCGSESSION arg) s = .done 0 s' ∧ s.After s' (some file) x ∧
      data.length = SESSION_OP_SIZE ∧ (data.drop SES_OFF).take 4 = le 4 ses ∧
      g.space.copyTo s.user arg data = some s'.user := by
  have hbytes := Space.copyFrom_length _ _ _ _ _ hreads.op
  have hkey := Space.copyFrom_length _ _ _ _ _ hreads.key
  have hioctl := ioctl_gsession_qemu g.host g.qemu file.hostFd
    (objectsMem (commonMem s.mem file.hostFd CIOCGSESSION)) bytes key s.host x ses hbytes hkey hplaces
    hmac hses
  have hexec := exec_gsession hs arg bytes key (fun i _ => hallocs i) hreads
  simp only [hfd, hioctl] at hexec
  generalize hb : Backend.mk _ _ _ = b at hexec
  let s' := s.handled file (SessionOp.parse bytes).keylen
    (sessionElement (SessionOp.parse bytes).keylen) b
  obtain ⟨user, huser⟩ := hwrite (Mem.load b.mem ⟨4, 0⟩ SESSION_OP_SIZE) (Mem.load_length _ _ _)
  have hcopy : exec g (copyBack CIOCGSESSION arg g.objects) s' = .done true { s' with user } := by
    rw [copyBack, if_pos rfl, show g.objects.sessionOp = some 4 from if_pos (hallocs 4)]
    exact exec_copyToUser g s' 4 arg _ user huser
  obtain ⟨hreply, hafter⟩ := handled_reply hidle hs.crof _ _ _ _ _ _ _ _ b hb user hcopy
  refine ⟨{ s' with user }, _, hexec.trans hreply, hafter,
    Mem.load_length b.mem ⟨4, 0⟩ SESSION_OP_SIZE, ?_, huser⟩
  rw [Mem.load_slice _ _ _ _ _ (by decide), ← hb, Mem.load_store_block _ _ _ _ _ (by simp)]
  exact Mem.load_store _ _ _ _ (le_length 4 ses)

theorem exec_fsession_ok (arg : Nat) (data ses : List Byte) (x : σ)
    (hlen : g.space.copyFrom s.user (arg + LEN_OFF) 4 = some data)
    (hreads : g.space.copyFrom s.user arg 4 = some ses)
    (hplaces : g.qemu.Places (ioctlSizes (fromLe data)))
    (hses : g.host.fsession file.hostFd (fromLe ses) s.host = (.ok (), x)) :
    ∃ s', exec g (cryptoChrdevIoctl CIOCFSESSION arg) s = .done 0 s' ∧ s.After s' (some file) x := by
  have hslen := Space.copyFrom_length _ _ _ _ _ hreads
  have hexec := exec_fsession hs arg data ses (fun i _ => hallocs i) hlen hreads
  generalize hm : Mem.store (objectsMem (commonMem s.mem file.hostFd CIOCFSESSION)) ⟨6, 0⟩ ses = m
    at hexec
  have hat : g.qemu.space.copyFrom m (g.qemu.addr ⟨6, 0⟩) 4 = some ses := by
    have hmaps : g.qemu.space.Maps (g.qemu.base 6) ⟨6, 0⟩ 4 := hplaces 6 (by simp [ioctlSizes])
    rw [Qemu.addr, Nat.add_zero, hmaps.copyFrom, ← hm, Mem.load_store _ _ _ _ hslen]
  have hioctl : g.host.ioctl g.qemu.space file.hostFd CIOCFSESSION (g.qemu.addr ⟨6, 0⟩) m s.host =
      (.ok (), m, x) := by
    simp only [Host.ioctl, Host.cioFsession, fsession_ne_gsession, if_true, if_false, hat, hses]
  simp only [hfd, hioctl] at hexec
  generalize hb : Backend.mk _ _ _ = b at hexec
  let s' := s.handled file (fromLe data) (ioctlElement [⟨6, 4⟩] []) b
  have hcopy : exec g (copyBack CIOCFSESSION arg g.objects) s' = .done true s' := by
    simp only [copyBack, fsession_ne_gsession, fsession_ne_crypt, if_false, exec_pure]
  obtain ⟨hreply, hafter⟩ := handled_reply hidle hs.crof _ _ _ _ _ _ _ _ b hb s.user hcopy
  exact ⟨s', hexec.trans hreply, hafter⟩

theorem exec_crypt_ok (arg : Nat) (bytes src iv : List Byte) (x : σ) (out : Crypted)
    (hreads : CryptReads g.space s.user arg bytes src iv)
    (hplaces : g.qemu.Places (ioctlSizes (CryptOp.parse bytes).len))
    (hmac : (CryptOp.parse bytes).mac = 0)
    (hflag : (CryptOp.parse bytes).flags / COP_FLAG_WRITE_IV % 2 = 0)
    (hcrypt : g.host.crypt file.hostFd ⟨(CryptOp.parse bytes).ses, (CryptOp.parse bytes).op,
      (CryptOp.parse bytes).flags, src, iv⟩ s.host = (.ok out, x))
    (user : Mem Byte) (huser : g.space.copyTo s.user (CryptOp.parse bytes).dst out.dst = some user) :
    ∃ s', exec g (cryptoChrdevIoctl CIOCCRYPT arg) s = .done 0 s' ∧ s.After s' (some file) x ∧
      s'.user = user := by
  have hbytes := Space.copyFrom_length _ _ _ _ _ hreads.op
  have hsrc := Space.copyFrom_length _ _ _ _ _ hreads.src
  have hiv := Space.copyFrom_length _ _ _ _ _ hreads.iv
  have hdst := (g.host.dst_length _ _ _ _ _ hcrypt).trans hsrc
  have hioctl := ioctl_crypt_qemu g.host g.qemu file.hostFd
    (objectsMem (commonMem s.mem file.hostFd CIOCCRYPT)) bytes src iv s.host x out hbytes hsrc hiv
    hplaces hmac hflag hcrypt
  have hhanded := crypt_handed g.qemu (objectsMem (commonMem s.mem file.hostFd CIOCCRYPT)) bytes src iv
    hbytes (CryptOp.parse bytes).len
  have hexec := exec_crypt hs arg bytes src iv (fun i _ => hallocs i) hreads
  simp only [hfd, hioctl] at hexec
  generalize hb : Backend.mk _ _ _ = b at hexec
  let s' := s.handled file (CryptOp.parse bytes).len (cryptElement (CryptOp.parse bytes).len) b
  have hlen : fromLe (Mem.load b.mem ⟨7, LEN_OFF⟩ 4) = (CryptOp.parse bytes).len := by
    rw [← hb, Mem.load_store_block _ _ _ _ _ (by simp), Mem.load_store_block _ _ _ _ _ (by simp),
      ← field_object _ _ CRYPT_OP_SIZE _ _ (by decide), ← CryptOp.parse_len, hhanded]
  have hout : Mem.load b.mem ⟨10, 0⟩ (CryptOp.parse bytes).len = out.dst := by
    rw [← hb, Mem.load_store_block _ _ _ _ _ (by simp), Mem.load_store _ _ _ _ hdst]
  have hcopy : exec g (copyBack CIOCCRYPT arg g.objects) s' = .done true { s' with user } := by
    rw [copyBack, if_neg crypt_ne_gsession, if_pos rfl, show g.objects.cryptOp = some 7 from if_pos (hallocs 7),
      show g.objects.dst = some 10 from if_pos (hallocs 10),
      exec_then _ _ _ _ _ _ (exec_loadField s' arg _ DST_OFF 8 bytes hreads.op (by decide)),
      exec_then _ _ _ _ _ _ (exec_load g s' 7 LEN_OFF 4)]
    apply exec_copyToUser
    rw [show s'.mem = b.mem from rfl, hlen, hout]
    exact huser
  obtain ⟨hreply, hafter⟩ := handled_reply hidle hs.crof _ _ _ _ _ _ _ _ b hb user hcopy
  exact ⟨{ s' with user }, hexec.trans hreply, hafter, rfl⟩

end Replies

end CryptodevChat.Virtio
