import CryptodevChat.Virtio.Status
import CryptodevChat.Virtio.Course

namespace CryptodevChat.Virtio

open Lib (Byte le fromLe leInt fromLeInt le_length leInt_length fromLe_le Loc Mem Space)

variable {σ : Type} {g : Guest σ} {s : Sys σ} {file : Crof}

-- What holds when a call of the host succeeds, and when it fails.
def Ends {α : Type} (r : Except Nat α) (good : α → Prop) (bad : Prop) : Prop :=
  match r with
  | .ok a => good a
  | .error _ => bad

theorem Ends.imp {α : Type} {r : Except Nat α} {good good' : α → Prop} {bad bad' : Prop}
    (h : Ends r good bad) (hgood : ∀ a, r = .ok a → good a → good' a) (hbad : bad → bad') :
    Ends r good' bad' := by
  cases r with
  | ok a => exact hgood a rfl h
  | error e => exact hbad h

section Refused

variable (h : Host σ) (sp : Space) (fd : Int) (arg : Nat) (m : Mem Byte) (x x' : σ) (e : Nat)

-- What the host refuses changes no memory.
theorem cioGsession_refused (bytes key : List Byte) (hreads : SessionReads sp m arg bytes key)
    (hmac : (SessionOp.parse bytes).mac = 0)
    (hses : h.gsession fd ⟨(SessionOp.parse bytes).cipher, 0, key, []⟩ x = (.error e, x')) :
    h.cioGsession sp fd arg m x = (.error e, m, x') := by
  unfold Host.cioGsession
  simp only [hreads.op, hreads.key, hmac, if_true, hses]

theorem cioCrypt_refused (bytes src iv : List Byte) (hreads : CryptReads sp m arg bytes src iv)
    (hcrypt : h.crypt fd ⟨(CryptOp.parse bytes).ses, (CryptOp.parse bytes).op,
      (CryptOp.parse bytes).flags, src, iv⟩ x = (.error e, x')) :
    h.cioCrypt sp fd arg m x = (.error e, m, x') := by
  unfold Host.cioCrypt
  simp only [hreads.op, hreads.src, hreads.iv, hcrypt]

end Refused

section Qemu

variable (q : Qemu) (m0 : Mem Byte) (bytes : List Byte)

-- What the driver has collected for a request is what the host reads in QEMU's memory.
theorem session_reads_qemu (key : List Byte) (hbytes : bytes.length = SESSION_OP_SIZE)
    (hkey : key.length = (SessionOp.parse bytes).keylen)
    (hplaces : q.Places (ioctlSizes (SessionOp.parse bytes).keylen)) :
    let m := (sessionElement (SessionOp.parse bytes).keylen).sessionMem q (sessionObjects m0 bytes key)
    SessionReads q.space m (q.addr ⟨4, 0⟩) (Mem.load m ⟨4, 0⟩ SESSION_OP_SIZE) key := by
  intro m
  have hop : q.space.Maps (q.base 4) ⟨4, 0⟩ SESSION_OP_SIZE := hplaces 4 (by simp [ioctlSizes])
  have hkeyat : q.space.Maps (q.base 5) ⟨5, 0⟩ (SessionOp.parse bytes).keylen :=
    hplaces 5 (by simp [ioctlSizes])
  have hstored : Mem.load m ⟨5, 0⟩ (SessionOp.parse bytes).keylen = key := by
    rw [show m = Mem.store (sessionObjects m0 bytes key) ⟨4, KEY_OFF⟩ (le 8 (q.addr ⟨5, 0⟩)) from rfl,
      Mem.load_store_block _ _ _ _ _ (by simp), sessionObjects, Mem.load_store _ _ _ _ hkey]
  refine ⟨hop.copyFrom m, ?_⟩
  rw [session_handed q m0 bytes key hbytes, hkeyat.copyFrom m, hstored]

theorem crypt_reads_qemu (src iv : List Byte) (hbytes : bytes.length = CRYPT_OP_SIZE)
    (hsrc : src.length = (CryptOp.parse bytes).len) (hiv : iv.length = IV_SIZE)
    (hplaces : q.Places (ioctlSizes (CryptOp.parse bytes).len)) :
    let m := (cryptElement (CryptOp.parse bytes).len).cryptMem q (cryptObjects m0 bytes src iv)
    CryptReads q.space m (q.addr ⟨7, 0⟩) (Mem.load m ⟨7, 0⟩ CRYPT_OP_SIZE) src iv := by
  intro m
  have hop : q.space.Maps (q.base 7) ⟨7, 0⟩ CRYPT_OP_SIZE := hplaces 7 (by simp [ioctlSizes])
  have hsrcat : q.space.Maps (q.base 8) ⟨8, 0⟩ (CryptOp.parse bytes).len := hplaces 8 (by simp [ioctlSizes])
  have hivat : q.space.Maps (q.base 9) ⟨9, 0⟩ IV_SIZE := hplaces 9 (by simp [ioctlSizes])
  have hkept : ∀ block, block ≠ 7 → ∀ n, Mem.load m ⟨block, 0⟩ n =
      Mem.load (cryptObjects m0 bytes src iv) ⟨block, 0⟩ n := by
    intro block hblock n
    rw [show m = (cryptElement (CryptOp.parse bytes).len).cryptMem q (cryptObjects m0 bytes src iv)
        from rfl, crypt_mem, Mem.load_store_block _ _ _ _ _ (by simpa using hblock.symm),
      Mem.load_store_block _ _ _ _ _ (by simpa using hblock.symm),
      Mem.load_store_block _ _ _ _ _ (by simpa using hblock.symm)]
  have hparse := crypt_handed q m0 bytes src iv hbytes (CryptOp.parse bytes).len
  refine ⟨hop.copyFrom m, ?_, ?_⟩
  · rw [hparse, hsrcat.copyFrom m, hkept 8 (by decide), cryptObjects,
      Mem.load_store_block _ _ _ _ _ (by simp), Mem.load_store _ _ _ _ hsrc]
  · rw [hparse, hivat.copyFrom m, hkept 9 (by decide), cryptObjects, Mem.load_store _ _ _ _ hiv]

end Qemu

section Answers

-- An answer of failure is passed on to the process, whatever of it can be copied there.
theorem handled_refused (hidle : s.Idle) (hcrof : s.crof = some file) (cmd arg len : Nat)
    (o : Objects) (elem : VirtQueueElement) (b : Backend σ) (m : Mem Byte) (e : Nat)
    (hb : b.mem = Mem.store m ⟨3, 0⟩ (leInt (status (.error e))))
    (hcopy : ∃ ok user, exec g (copyBack cmd arg o) (s.handled file len elem b) =
      .done ok { s.handled file len elem b with user }) :
    ∃ ret s', exec g (reply cmd arg file.common o) (s.handled file len elem b) = .done ret s' ∧
      s.After s' (some file) b.host ∧ ret < 0 := by
  obtain ⟨ok, user, hcopy⟩ := hcopy
  have hret : fromLeInt (Mem.load b.mem ⟨3, 0⟩ 4) = -1 := by
    rw [hb]
    exact status_error m e
  refine ⟨_, _, exec_reply_any _ cmd arg file o ok _ hcopy, handled_after hidle hcrof len elem b user, ?_⟩
  cases ok with
  | true =>
      rw [if_pos rfl, show ({ s.handled file len elem b with user } : Sys σ).mem = b.mem from rfl, hret]
      omega
  | false =>
      rw [if_neg (by simp)]
      decide

variable (hs : s.Fresh file) (hidle : s.Idle) (hallocs : ∀ i, g.allocs i = true)
  (hfd : fromLeInt (leInt file.hostFd) = file.hostFd)
include hs hidle hallocs hfd

-- The driver's ioctl on a healthy system returns what the host's returns.
theorem gsession_served (arg : Nat) (bytes key : List Byte)
    (hreads : SessionReads g.space s.user arg bytes key)
    (hplaces : g.qemu.Places (ioctlSizes (SessionOp.parse bytes).keylen))
    (hmac : (SessionOp.parse bytes).mac = 0)
    (hwrite : ∀ data, data.length = SESSION_OP_SIZE → ∃ user, g.space.copyTo s.user arg data = some user) :
    let r := g.host.gsession file.hostFd ⟨(SessionOp.parse bytes).cipher, 0, key, []⟩ s.host
    ∃ ret s', exec g (cryptoChrdevIoctl CIOCGSESSION arg) s = .done ret s' ∧ s.After s' (some file) r.2 ∧
      Ends r.1 (fun ses => ret = 0 ∧ ∃ data, data.length = SESSION_OP_SIZE ∧
        (data.drop SES_OFF).take 4 = le 4 ses ∧ g.space.copyTo s.user arg data = some s'.user) (ret < 0) := by
  intro r
  cases hr : r.1 with
  | ok ses =>
      obtain ⟨s', data, hexec, hafter, hlen, hdata, hcopy⟩ := exec_gsession_ok hs hidle hallocs hfd arg bytes
        key r.2 ses hreads hplaces hmac (Prod.ext hr rfl) hwrite
      exact ⟨0, s', hexec, hafter, rfl, data, hlen, hdata, hcopy⟩
  | error e =>
      have hbytes := Space.copyFrom_length _ _ _ _ _ hreads.op
      have hkey := Space.copyFrom_length _ _ _ _ _ hreads.key
      have hexec := exec_gsession hs arg bytes key (fun i _ => hallocs i) hreads
      extract_lets len m fd res at hexec
      have hqemu := session_reads_qemu g.qemu (objectsMem (commonMem s.mem file.hostFd CIOCGSESSION)) bytes key
        hbytes hkey hplaces
      have hparse := session_handed g.qemu (objectsMem (commonMem s.mem file.hostFd CIOCGSESSION)) bytes key
        hbytes len
      have hres : res = (.error e, m, r.2) := by
        refine (if_pos rfl).trans (cioGsession_refused g.host _ _ _ _ _ _ _ _ key hqemu ?_ ?_)
        · rw [hparse, hmac]
        · rw [hparse, show fd = file.hostFd from hfd]
          exact Prod.ext hr rfl
      rw [hexec, hres]
      apply handled_refused hidle hs.crof _ _ _ _ _ _ _ e rfl
      rw [copyBack, if_pos rfl, show g.objects.sessionOp = some 4 from if_pos (hallocs 4)]
      exact ⟨_, _, exec_copyToUser_any _ 4 arg _⟩

theorem fsession_served (arg : Nat) (data ses : List Byte)
    (hlen : g.space.copyFrom s.user (arg + LEN_OFF) 4 = some data)
    (hreads : g.space.copyFrom s.user arg 4 = some ses) (hplaces : g.qemu.Places (ioctlSizes (fromLe data))) :
    let r := g.host.fsession file.hostFd (fromLe ses) s.host
    ∃ ret s', exec g (cryptoChrdevIoctl CIOCFSESSION arg) s = .done ret s' ∧ s.After s' (some file) r.2 ∧
      s'.user = s.user ∧ Ends r.1 (fun _ => ret = 0) (ret < 0) := by
  intro r
  have hslen := Space.copyFrom_length _ _ _ _ _ hreads
  have hexec := exec_fsession hs arg data ses (fun i _ => hallocs i) hlen hreads
  extract_lets m fd res at hexec
  have hat : g.qemu.space.copyFrom m (g.qemu.addr ⟨6, 0⟩) 4 = some ses := by
    have hmaps : g.qemu.space.Maps (g.qemu.base 6) ⟨6, 0⟩ 4 := hplaces 6 (by simp [ioctlSizes])
    rw [Qemu.addr, Nat.add_zero, hmaps.copyFrom, Mem.load_store _ _ _ _ hslen]
  have hres : res = (r.1, m, r.2) := by
    rw [show res = g.host.ioctl g.qemu.space file.hostFd CIOCFSESSION (g.qemu.addr ⟨6, 0⟩) m s.host from
      congrArg (g.host.ioctl g.qemu.space · CIOCFSESSION _ m s.host) hfd]
    simp only [Host.ioctl, Host.cioFsession, fsession_ne_gsession, if_true, if_false, hat]
    rfl
  rw [hres] at hexec
  generalize hb : Backend.mk _ _ _ = b at hexec
  let s' := s.handled file (fromLe data) (ioctlElement [⟨6, 4⟩] []) b
  have hcopy : exec g (copyBack CIOCFSESSION arg g.objects) s' = .done true s' := by
    simp only [copyBack, fsession_ne_gsession, fsession_ne_crypt, if_false, exec_pure]
  have hreply := exec_reply_any s' CIOCFSESSION arg file g.objects true s' hcopy
  have hafter := handled_after hidle hs.crof (fromLe data) (ioctlElement [⟨6, 4⟩] []) b s.user
  rw [if_pos rfl] at hreply
  refine ⟨_, s', hexec.trans hreply, ?_, rfl, ?_⟩
  · rwa [show b.host = r.2 from by rw [← hb]] at hafter
  · have hmem : s'.mem = Mem.store m ⟨3, 0⟩ (leInt (status r.1)) := by
      change b.mem = _
      rw [← hb]
    rw [hmem]
    cases hr : r.1 with
    | ok u => exact status_ok m
    | error e =>
        rw [status_error]
        exact (by decide : (-1 : Int) < 0)

theorem crypt_served (arg : Nat) (bytes src iv : List Byte)
    (hreads : CryptReads g.space s.user arg bytes src iv)
    (hplaces : g.qemu.Places (ioctlSizes (CryptOp.parse bytes).len))
    (hmac : (CryptOp.parse bytes).mac = 0)
    (hflag : (CryptOp.parse bytes).flags / COP_FLAG_WRITE_IV % 2 = 0)
    (hwrite : ∀ data, data.length = (CryptOp.parse bytes).len →
      ∃ user, g.space.copyTo s.user (CryptOp.parse bytes).dst data = some user) :
    let op := CryptOp.parse bytes
    let r := g.host.crypt file.hostFd ⟨op.ses, op.op, op.flags, src, iv⟩ s.host
    ∃ ret s', exec g (cryptoChrdevIoctl CIOCCRYPT arg) s = .done ret s' ∧ s.After s' (some file) r.2 ∧
      Ends r.1 (fun out => ret = 0 ∧ g.space.copyTo s.user op.dst out.dst = some s'.user) (ret < 0) := by
  intro op r
  have hsrc := Space.copyFrom_length _ _ _ _ _ hreads.src
  cases hr : r.1 with
  | ok out =>
      have hrun : r = (.ok out, r.2) := Prod.ext hr rfl
      obtain ⟨user, huser⟩ := hwrite out.dst ((g.host.dst_length _ _ _ _ _ hrun).trans hsrc)
      obtain ⟨s', hexec, hafter, rfl⟩ := exec_crypt_ok hs hidle hallocs hfd arg bytes src iv r.2 out hreads
        hplaces hmac hflag hrun user huser
      exact ⟨0, s', hexec, hafter, rfl, huser⟩
  | error e =>
      have hbytes := Space.copyFrom_length _ _ _ _ _ hreads.op
      have hiv := Space.copyFrom_length _ _ _ _ _ hreads.iv
      have hexec := exec_crypt hs arg bytes src iv (fun i _ => hallocs i) hreads
      extract_lets len m fd res at hexec
      have hqemu := crypt_reads_qemu g.qemu (objectsMem (commonMem s.mem file.hostFd CIOCCRYPT)) bytes src iv
        hbytes hsrc hiv hplaces
      have hparse := crypt_handed g.qemu (objectsMem (commonMem s.mem file.hostFd CIOCCRYPT)) bytes src iv
        hbytes len
      have hres : res = (.error e, m, r.2) := by
        have hcmd : res = g.host.cioCrypt g.qemu.space fd (g.qemu.addr ⟨7, 0⟩) m s.host :=
          (if_neg crypt_ne_gsession).trans ((if_neg crypt_ne_fsession).trans (if_pos rfl))
        rw [hcmd]
        refine cioCrypt_refused g.host _ _ _ _ _ _ _ _ src iv hqemu ?_
        rw [hparse, show fd = file.hostFd from hfd]
        exact Prod.ext hr rfl
      rw [hexec, hres]
      apply handled_refused hidle hs.crof _ _ _ _ _ _ _ e rfl
      rw [copyBack, if_neg crypt_ne_gsession, if_pos rfl, show g.objects.cryptOp = some 7 from if_pos (hallocs 7),
        show g.objects.dst = some 10 from if_pos (hallocs 10),
        exec_then _ _ _ _ _ _ (exec_loadField (s.handled file len (cryptElement len) _) arg _ DST_OFF 8 bytes
          hreads.op (by decide)),
        exec_then _ _ _ _ _ _ (exec_load g (s.handled file len (cryptElement len) _) 7 LEN_OFF 4)]
      exact ⟨_, _, exec_copyToUser_any _ 10 _ _⟩

end Answers

section Files

-- Neither end of a file's life touches the memory of the process.
theorem open_inward (minor : Nat) : (cryptoChrdevOpen minor).All Deed.Inward := by
  have hsubmit := submit_all (P := Deed.Inward) (fun _ _ _ _ => trivial) (fun _ => trivial)
  refine (all_kzalloc 4 fun _ => trivial).bind fun _ => (all_kzalloc 4 fun _ => trivial).bind fun _ =>
    (all_store _ _).bind fun _ => (all_store _ _).bind fun _ => Prog.All.bind (fun _ => trivial) fun ret => ?_
  by_cases hret : ret < 0
  · rw [if_pos hret]
    exact all_pure _
  · rw [if_neg hret]
    refine Prog.All.bind (fun _ => trivial) fun crdev => ?_
    cases crdev with
    | none => exact all_pure _
    | some crdev =>
        refine Prog.All.bind (fun _ => trivial) fun ok => ?_
        cases ok with
        | false => exact all_pure _
        | true =>
            exact (all_sgInitOne _ _).bind fun _ => (all_sgInitOne _ _).bind fun _ =>
              (hsubmit _ _ _ _).bind fun _ => (all_load _ _ _).bind fun _ => ⟨trivial, trivial, trivial⟩

theorem release_inward : cryptoChrdevRelease.All Deed.Inward := by
  have hsubmit := submit_all (P := Deed.Inward) (fun _ _ _ _ => trivial) (fun _ => trivial)
  exact all_getCrof.bind fun _ => (all_kzalloc 4 fun _ => trivial).bind fun _ =>
    (all_store _ _).bind fun _ => (all_kzalloc 4 fun _ => trivial).bind fun _ =>
    (all_store _ _).bind fun _ => (all_sgInitOne _ _).bind fun _ => (all_sgInitOne _ _).bind fun _ =>
    (hsubmit _ _ _ _).bind fun _ => ⟨trivial, trivial, trivial⟩

end Files

end CryptodevChat.Virtio
