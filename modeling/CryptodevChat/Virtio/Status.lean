import CryptodevChat.Virtio.Answers

namespace CryptodevChat.Virtio

open Lib (Byte le fromLe leInt fromLeInt le_length leInt_length fromLe_le Loc Mem Space)

variable {σ : Type} {g : Guest σ}

section Reply

variable (s : Sys σ)

-- A copy to the process, of which a part is kept when it fails.
theorem exec_copyToUser_any (block addr n : Nat) :
    exec g (copyToUser addr (some block) n) s =
      .done (g.space.copyTo s.user addr (Mem.load s.mem ⟨block, 0⟩ n)).isSome
        { s with user := g.space.copyPart s.user addr (Mem.load s.mem ⟨block, 0⟩ n) } := by
  change exec g (.copyToUser addr block n .ret) s = _
  unfold exec
  cases hcopy : g.space.copyTo s.user addr (Mem.load s.mem ⟨block, 0⟩ n) with
  | none => rfl
  | some user =>
      rw [Space.copyPart_all _ _ _ _ _ hcopy]
      rfl

theorem exec_reply_any (cmd arg : Nat) (file : Crof) (o : Objects) (ok : Bool) (s' : Sys σ)
    (hcopy : exec g (copyBack cmd arg o) s = .done ok s') :
    exec g (reply cmd arg file.common o) s =
      .done (if ok then fromLeInt (Mem.load s'.mem ⟨3, 0⟩ 4) else -(EFAULT : Int)) s' := by
  cases ok with
  | true => exact exec_reply s cmd arg file o s' hcopy
  | false =>
      unfold reply
      rw [exec_then _ _ _ _ _ _ hcopy]
      rfl

-- An ioctl that fails has written nothing.
theorem Host.ioctl_error (h : Host σ) (sp : Space) (fd : Int) (cmd arg : Nat) (m : Mem Byte) (x : σ)
    (e : Nat) (hr : (h.ioctl sp fd cmd arg m x).1 = .error e) : (h.ioctl sp fd cmd arg m x).2.1 = m := by
  unfold Host.ioctl at hr ⊢
  split_ifs at hr ⊢
  · unfold Host.cioGsession at hr ⊢
    split at hr
    · rfl
    · dsimp only at hr ⊢
      split at hr
      · split at hr
        · rfl
        · split at hr
          · rfl
          · cases hr
      · rfl
  · unfold Host.cioFsession
    split <;> rfl
  · unfold Host.cioCrypt at hr ⊢
    split at hr
    · rfl
    · dsimp only at hr ⊢
      split at hr
      · split at hr
        · rfl
        · split at hr
          · rfl
          · cases hr
      · rfl
  · rfl

theorem status_error (m : Mem Byte) (e : Nat) :
    fromLeInt (Mem.load (Mem.store m ⟨3, 0⟩ (leInt (status (.error e)))) ⟨3, 0⟩ 4) = -1 := by
  rw [Mem.load_store _ _ _ _ (leInt_length _)]
  exact Lib.fromLeInt_leInt (-1) (by decide) (by decide)

end Reply

section Failed

-- Where the reply of a command goes, and what it is when the host's ioctl fails.
def failedReply (q : Qemu) (cmd arg : Nat) (bytes : List Byte) : Nat × List Byte :=
  if cmd = CIOCGSESSION then
    (arg, bytes.take KEY_OFF ++ le 8 (q.addr ⟨5, 0⟩) ++ bytes.drop (KEY_OFF + 8))
  else if cmd = CIOCCRYPT then
    ((CryptOp.parse bytes).dst, List.replicate (CryptOp.parse bytes).len 0)
  else (arg, [])

-- A call whose request the host has answered, with `bytes` at its argument.
structure Answered (g : Guest σ) (cmd arg : Nat) (s : Sys σ) (bytes : List Byte)
    (r : Except Nat Unit) : Prop where
  answers : (watched g (cryptoChrdevIoctl cmd arg) s).2.answers g = [(cmd, r)]
  fails : ∀ e, r = .error e → ∃ s',
    let reply := failedReply g.qemu cmd arg bytes
    exec g (cryptoChrdevIoctl cmd arg) s =
      .done (if (g.space.copyTo s.user reply.1 reply.2).isSome then -1 else -(EFAULT : Int)) s' ∧
    s'.user = g.space.copyPart s.user reply.1 reply.2

variable {s : Sys σ} {file : Crof} (arg : Nat)

-- What follows once the objects are as a host that failed has left them.
theorem fails_of_copyBack (cmd len : Nat) (bytes : List Byte) (elem : VirtQueueElement)
    (b : Backend σ) (e : Nat) (m : Mem Byte)
    (hexec : exec g (cryptoChrdevIoctl cmd arg) s =
      exec g (reply cmd arg file.common g.objects) (s.handled file len elem b))
    (hb : b.mem = Mem.store m ⟨3, 0⟩ (leInt (status (.error e))))
    (hcopy : let reply := failedReply g.qemu cmd arg bytes
      exec g (copyBack cmd arg g.objects) (s.handled file len elem b) =
        .done (g.space.copyTo s.user reply.1 reply.2).isSome
          { s.handled file len elem b with user := g.space.copyPart s.user reply.1 reply.2 }) :
    ∃ s', let reply := failedReply g.qemu cmd arg bytes
      exec g (cryptoChrdevIoctl cmd arg) s =
        .done (if (g.space.copyTo s.user reply.1 reply.2).isSome then -1 else -(EFAULT : Int)) s' ∧
      s'.user = g.space.copyPart s.user reply.1 reply.2 := by
  have hret : fromLeInt (Mem.load b.mem ⟨3, 0⟩ 4) = -1 := by
    rw [hb]
    exact status_error m e
  have hreply := exec_reply_any _ cmd arg file _ _ _ hcopy
  rw [← hexec] at hreply
  exact ⟨_, hreply.trans (by rw [← hret]; rfl), rfl⟩

variable (hs : s.Fresh file)
include hs

theorem gsession_answered (bytes key : List Byte) (hallocs : g.Has [0, 1, 2, 3, 4, 5])
    (hreads : SessionReads g.space s.user arg bytes key) :
    Answered g CIOCGSESSION arg s bytes
      (g.host.ioctl g.qemu.space (fromLeInt (leInt file.hostFd)) CIOCGSESSION (g.qemu.addr ⟨4, 0⟩)
        ((sessionElement (SessionOp.parse bytes).keylen).sessionMem g.qemu
          (sessionObjects (objectsMem (commonMem s.mem file.hostFd CIOCGSESSION)) bytes key))
        s.host).1 := by
  have hptr : g.objects.sessionOp = some 4 ∧ g.objects.sessionKey = some 5 :=
    ⟨hallocs.ptr 4 (by simp), hallocs.ptr 5 (by simp)⟩
  have hblen := Space.copyFrom_length _ _ _ _ _ hreads.op
  have hlen := Space.copyFrom_slice _ _ _ _ LEN_OFF 4 _ hreads.op (by decide)
  have hexec := exec_gsession hs arg bytes key hallocs hreads
  extract_lets len m fd r at hexec
  let objects := objectsMem (commonMem s.mem file.hostFd CIOCGSESSION)
  have hcmd := exec_cmdSgs_gsession { s with mem := objects, sizes := ioctlSizes len } arg g.objects
    bytes key hptr hreads rfl
  have hans := answers_submitted hs CIOCGSESSION arg _ _ _ _
    (fun i hi => hallocs i (by simp at hi ⊢; omega)) hlen hcmd (by simp)
  obtain ⟨htype, hioctl, hfd⟩ := session_decoded g.qemu s.mem file.hostFd bytes key len
  have hr : (sessionElement len).answer g.host g.qemu (sessionObjects objects bytes key) s.host =
      some (CIOCGSESSION, r.1) := by
    rw [VirtQueueElement.answer, if_pos htype, if_pos hioctl]
    exact congrArg (fun fd => some (CIOCGSESSION,
      (g.host.ioctl g.qemu.space fd CIOCGSESSION (g.qemu.addr ⟨4, 0⟩) m s.host).1)) hfd
  have hmem : ∀ e, r.1 = .error e → r.2.1 = m := fun e => g.host.ioctl_error _ _ _ _ _ _ e
  refine ⟨hans.trans (congrArg Option.toList hr), fun e herr => ?_⟩
  have he : r.1 = .error e := herr
  apply fails_of_copyBack arg CIOCGSESSION _ bytes _ _ e m hexec (by rw [hmem e he, he])
  have hdata : Mem.load (Mem.store r.2.1 ⟨3, 0⟩ (leInt (status r.1))) ⟨4, 0⟩ SESSION_OP_SIZE =
      (failedReply g.qemu CIOCGSESSION arg bytes).2 := by
    have hback := Mem.load_store_inside (sessionObjects objects bytes key) ⟨4, 0⟩
      (le 8 (g.qemu.addr ⟨5, 0⟩)) KEY_OFF SESSION_OP_SIZE (by simp [le_length, KEY_OFF, SESSION_OP_SIZE])
    have hop : Mem.load (sessionObjects objects bytes key) ⟨4, 0⟩ SESSION_OP_SIZE = bytes := by
      rw [sessionObjects, Mem.load_store_block _ _ _ _ _ (by simp), Mem.load_store _ _ _ _ hblen]
    rw [hop, le_length] at hback
    rw [hmem e he, Mem.load_store_block _ _ _ _ _ (by simp)]
    exact hback
  intro reply
  rw [copyBack, if_pos rfl, hptr.1, exec_copyToUser_any]
  rw [← hdata]
  rfl

theorem fsession_answered (bytes data ses : List Byte) (hallocs : g.Has [0, 1, 2, 3, 6])
    (hlen : g.space.copyFrom s.user (arg + LEN_OFF) 4 = some data)
    (hses : g.space.copyFrom s.user arg 4 = some ses) :
    Answered g CIOCFSESSION arg s bytes
      (g.host.ioctl g.qemu.space (fromLeInt (leInt file.hostFd)) CIOCFSESSION (g.qemu.addr ⟨6, 0⟩)
        (Mem.store (objectsMem (commonMem s.mem file.hostFd CIOCFSESSION)) ⟨6, 0⟩ ses) s.host).1 := by
  have hexec := exec_fsession hs arg data ses hallocs hlen hses
  extract_lets m fd r at hexec
  let objects := objectsMem (commonMem s.mem file.hostFd CIOCFSESSION)
  have hcmd := exec_cmdSgs_fsession { s with mem := objects, sizes := ioctlSizes (fromLe data) } arg
    g.objects ses (hallocs.ptr 6 (by simp)) _ hses rfl
  have hans := answers_submitted hs CIOCFSESSION arg _ _ _ _
    (fun i hi => hallocs i (by simp at hi ⊢; omega)) hlen hcmd (by simp)
  obtain ⟨htype, hioctl, hfd⟩ := fsession_decoded s.mem file.hostFd ses
  have hr : (ioctlElement [⟨6, 4⟩] []).answer g.host g.qemu m s.host =
      some (CIOCFSESSION, r.1) := by
    rw [VirtQueueElement.answer, if_pos htype, hioctl, if_neg fsession_ne_gsession, if_pos rfl]
    exact congrArg (fun fd => some (CIOCFSESSION,
      (g.host.ioctl g.qemu.space fd CIOCFSESSION (g.qemu.addr ⟨6, 0⟩) m s.host).1)) hfd
  have hmem : ∀ e, r.1 = .error e → r.2.1 = m := fun e => g.host.ioctl_error _ _ _ _ _ _ e
  refine ⟨hans.trans (congrArg Option.toList hr), fun e herr => ?_⟩
  have he : r.1 = .error e := herr
  apply fails_of_copyBack arg CIOCFSESSION _ bytes _ _ e m hexec (by rw [hmem e he, he])
  simp only [copyBack, failedReply, fsession_ne_gsession, fsession_ne_crypt, if_false, exec_pure]
  rfl

theorem crypt_answered (bytes src iv : List Byte) (hallocs : g.Has [0, 1, 2, 3, 7, 8, 9, 10])
    (hreads : CryptReads g.space s.user arg bytes src iv) :
    Answered g CIOCCRYPT arg s bytes
      (g.host.ioctl g.qemu.space (fromLeInt (leInt file.hostFd)) CIOCCRYPT (g.qemu.addr ⟨7, 0⟩)
        ((cryptElement (CryptOp.parse bytes).len).cryptMem g.qemu
          (cryptObjects (objectsMem (commonMem s.mem file.hostFd CIOCCRYPT)) bytes src iv))
        s.host).1 := by
  have hptr : g.objects.cryptOp = some 7 ∧ g.objects.src = some 8 ∧ g.objects.iv = some 9 ∧
      g.objects.dst = some 10 :=
    ⟨hallocs.ptr 7 (by simp), hallocs.ptr 8 (by simp), hallocs.ptr 9 (by simp),
      hallocs.ptr 10 (by simp)⟩
  have hblen := Space.copyFrom_length _ _ _ _ _ hreads.op
  have hlen := Space.copyFrom_slice _ _ _ _ LEN_OFF 4 _ hreads.op (by decide)
  have hexec := exec_crypt hs arg bytes src iv hallocs hreads
  extract_lets len m fd r at hexec
  let objects := objectsMem (commonMem s.mem file.hostFd CIOCCRYPT)
  have hcmd := exec_cmdSgs_crypt { s with mem := objects, sizes := ioctlSizes len } arg g.objects
    bytes src iv hptr hreads rfl
  have hans := answers_submitted hs CIOCCRYPT arg _ _ _ _
    (fun i hi => hallocs i (by simp at hi ⊢; omega)) hlen hcmd (by simp)
  obtain ⟨htype, hioctl, hfd⟩ := crypt_decoded g.qemu s.mem file.hostFd bytes src iv len
  have hr : (cryptElement len).answer g.host g.qemu (cryptObjects objects bytes src iv) s.host =
      some (CIOCCRYPT, r.1) := by
    rw [VirtQueueElement.answer, if_pos htype, hioctl, if_neg crypt_ne_gsession,
      if_neg crypt_ne_fsession, if_pos rfl]
    exact congrArg (fun fd => some (CIOCCRYPT,
      (g.host.ioctl g.qemu.space fd CIOCCRYPT (g.qemu.addr ⟨7, 0⟩) m s.host).1)) hfd
  have hmem : ∀ e, r.1 = .error e → r.2.1 = m := fun e => g.host.ioctl_error _ _ _ _ _ _ e
  refine ⟨hans.trans (congrArg Option.toList hr), fun e herr => ?_⟩
  have he : r.1 = .error e := herr
  apply fails_of_copyBack arg CIOCCRYPT _ bytes _ _ e m hexec (by rw [hmem e he, he])
  intro reply
  let s' := s.handled file len (cryptElement len) ⟨Mem.store r.2.1 ⟨3, 0⟩ (leInt (status r.1)), r.2.2,
    [.touch .out 0 0 4, .touch .out 2 0 4, .touch .out 3 SRC_OFF 8, .touch .out 3 IV_OFF 8,
      .touch .out 3 DST_OFF 8, .touch .out 1 0 4, .call (.crypt fd (Mem.load m ⟨7, 0⟩ CRYPT_OP_SIZE)),
      .touch .in 1 0 4, .touch .in 1 0 4]⟩
  have hcopied : fromLe (Mem.load s'.mem ⟨7, LEN_OFF⟩ 4) = len := by
    have hhanded := crypt_handed g.qemu objects bytes src iv hblen len
    rw [show s'.mem = Mem.store r.2.1 ⟨3, 0⟩ (leInt (status r.1)) from rfl, hmem e he,
      Mem.load_store_block _ _ _ _ _ (by simp), ← field_object _ _ CRYPT_OP_SIZE _ _ (by decide),
      ← CryptOp.parse_len, hhanded]
  have hdata : Mem.load s'.mem ⟨10, 0⟩ len = List.replicate len 0 := by
    have hother : ∀ block, block ≠ 10 → ∀ (m : Mem Byte) (off : Nat) (data : List Byte),
        Mem.load (Mem.store m ⟨block, off⟩ data) ⟨10, 0⟩ len = Mem.load m ⟨10, 0⟩ len :=
      fun block hne m off data => Mem.load_store_block _ _ _ _ _ hne
    rw [show s'.mem = Mem.store r.2.1 ⟨3, 0⟩ (leInt (status r.1)) from rfl, hmem e he,
      hother 3 (by decide), show m = (cryptElement len).cryptMem g.qemu
        (cryptObjects objects bytes src iv) from rfl, crypt_mem]
    simp (disch := decide) only [hother, cryptObjects]
    exact Mem.load_fill _ ⟨10, 0⟩ len 0
  have hdst := exec_loadField s' arg _ DST_OFF 8 bytes hreads.op (by decide)
  rw [copyBack, if_neg crypt_ne_gsession, if_pos rfl, hptr.1, hptr.2.2.2,
    exec_then _ _ _ _ _ _ hdst, exec_then _ _ _ _ _ _ (exec_load g s' 7 LEN_OFF 4), hcopied,
    exec_copyToUser_any, hdata]
  rfl

-- An unknown command is accepted, sent to the device, ignored there, and succeeds.
theorem exec_unknown (cmd : Nat) (data : List Byte) (hcmd : cmd < 2 ^ 32) (hunknown : ¬Known cmd)
    (hallocs : g.Has [0, 1, 2, 3])
    (hlen : g.space.copyFrom s.user (arg + LEN_OFF) 4 = some data) :
    ∃ s', exec g (cryptoChrdevIoctl cmd arg) s = .done 0 s' := by
  let m := objectsMem (commonMem s.mem file.hostFd cmd)
  have henc : Encoded m file.hostFd cmd := (encoded_commonMem _ _ _).objects
  obtain ⟨htype, hioctl, -⟩ := henc.decoded [⟨3, 4⟩] 3 1 hcmd
  have hlists : exec g (cmdSgs cmd arg g.objects) { s with mem := m, sizes := ioctlSizes (fromLe data) } =
      .done (some ([], [])) { s with mem := m, sizes := ioctlSizes (fromLe data) } := by
    rw [cmdSgs_unknown cmd arg _ hunknown]
    rfl
  have hexec := exec_ioctl_submitted hs cmd arg data [] [] m hallocs hlen hlists (by simp)
  unfold Known at hunknown
  push Not at hunknown
  obtain ⟨hg, hf, hc⟩ := hunknown
  have hrun := handleElem_other_cmd g.host g.qemu (ioctlElement [] []) ⟨m, s.host, []⟩ htype
    (by rw [show (ioctlElement [] []).ioctlCmd m = cmd from hioctl]; exact hg)
    (by rw [show (ioctlElement [] []).ioctlCmd m = cmd from hioctl]; exact hf)
    (by rw [show (ioctlElement [] []).ioctlCmd m = cmd from hioctl]; exact hc)
  rw [hrun] at hexec
  have hcopy : ∀ s' : Sys σ, exec g (copyBack cmd arg g.objects) s' = .done true s' := by
    intro s'
    rw [copyBack, if_neg hg, if_neg hc]
    rfl
  rw [exec_reply _ _ _ _ _ _ (hcopy _)] at hexec
  have hzero : Mem.load m ⟨3, 0⟩ 4 = List.replicate 4 0 := by
    simp only [m, objectsMem, commonMem]
    simp (disch := decide) only [Mem.load_fill_other]
    exact Mem.load_fill _ ⟨3, 0⟩ 4 0
  refine ⟨_, hexec.trans (congrArg (Outcome.done · _) ?_)⟩
  simp only [Sys.handled]
  rw [hzero]
  decide

-- The three ways in which a call can go.
theorem ioctl_outcome (cmd : Nat) (hcmd : cmd < 2 ^ 32) :
    ((watched g (cryptoChrdevIoctl cmd arg) s).2.answers g = [] ∧
      ∀ ret s', exec g (cryptoChrdevIoctl cmd arg) s = .done ret s' →
        ret = -(EFAULT : Int) ∧ s'.user = s.user ∧ Known cmd) ∨
    (¬Known cmd ∧ ∃ s', exec g (cryptoChrdevIoctl cmd arg) s = .done 0 s') ∨
    (Known cmd ∧ ∃ bytes r, Answered g cmd arg s bytes r ∧
      (cmd ≠ CIOCFSESSION → g.space.copyFrom s.user arg CRYPT_OP_SIZE = some bytes)) := by
  have hcases := ioctl_cases (g := g) hs cmd arg
  rw [watched_exec] at hcases
  obtain hsilent | ⟨hallocs, data, r, s3, hlen, hlists⟩ := hcases
  · exact .inl hsilent
  by_cases hknown : Known cmd
  swap
  · exact .inr (.inl ⟨hknown, exec_unknown arg hs cmd data hcmd hknown hallocs hlen⟩)
  refine .inr (.inr ⟨hknown, ?_⟩)
  obtain rfl | rfl | rfl := hknown
  · obtain ⟨hobjects, bytes, key, hreads⟩ := cmdSgs_gsession_has _ arg r s3 hlists
    exact ⟨bytes, _, gsession_answered arg hs bytes key (hallocs.append hobjects) hreads,
      fun _ => hreads.op⟩
  · obtain ⟨hobjects, ses, hreads⟩ := cmdSgs_fsession_has _ arg r s3 hlists
    exact ⟨[], _, fsession_answered arg hs [] data ses (hallocs.append hobjects) hlen hreads,
      fun hne => absurd rfl hne⟩
  · obtain ⟨hobjects, bytes, src, iv, hreads⟩ := cmdSgs_crypt_has _ arg r s3 hlists
    exact ⟨bytes, _, crypt_answered arg hs bytes src iv (hallocs.append hobjects) hreads,
      fun _ => hreads.op⟩

end Failed

section Status

def EPERM : Nat := 1

-- The reply of a call can be copied to its process.
def Replies (g : Guest σ) (cmd arg : Nat) (s : Sys σ) : Prop :=
  ∀ bytes, (cmd ≠ CIOCFSESSION → g.space.copyFrom s.user arg CRYPT_OP_SIZE = some bytes) →
    let reply := failedReply g.qemu cmd arg bytes
    ∀ i < reply.2.length, g.space.writable (reply.1 + i) = true

-- A result as a native program sees it.
structure Faithful (g : Guest σ) (cmd arg : Nat) (s : Sys σ) : Prop where
  zero : ∀ s', exec g (cryptoChrdevIoctl cmd arg) s = .done 0 s' →
    (cmd, .ok ()) ∈ (watched g (cryptoChrdevIoctl cmd arg) s).2.answers g
  errno : ∀ c (e : Nat), (c, .error e) ∈ (watched g (cryptoChrdevIoctl cmd arg) s).2.answers g →
    ∃ s', exec g (cryptoChrdevIoctl cmd arg) s = .done (-(e : Int)) s'
  unknown : ¬Known cmd → ∃ ret s', exec g (cryptoChrdevIoctl cmd arg) s = .done ret s' ∧ ret < 0

variable {s : Sys σ} {file : Crof} (hs : s.Fresh file) (cmd arg : Nat)
include hs

-- Of the host's errno only that it was one comes back, as -1, which is the
-- guest's `EPERM`, unless the reply itself faults.
theorem status_faithful_iff (hcmd : cmd < 2 ^ 32) :
    Faithful g cmd arg s ↔
      Known cmd ∧ ∀ c e, (c, .error e) ∈ (watched g (cryptoChrdevIoctl cmd arg) s).2.answers g →
        (e = EPERM ∧ Replies g cmd arg s) ∨ (e = EFAULT ∧ ¬Replies g cmd arg s) := by
  have hreplies : ∀ bytes,
      (cmd ≠ CIOCFSESSION → g.space.copyFrom s.user arg CRYPT_OP_SIZE = some bytes) →
      (Replies g cmd arg s ↔ (g.space.copyTo s.user (failedReply g.qemu cmd arg bytes).1
        (failedReply g.qemu cmd arg bytes).2).isSome = true) := by
    intro bytes hbytes
    rw [Space.copyTo_isSome]
    constructor
    · exact fun h => h bytes hbytes
    · intro h bytes' hbytes'
      by_cases hf : cmd = CIOCFSESSION
      · subst hf
        simp [failedReply]
      · cases (hbytes hf).symm.trans (hbytes' hf)
        exact h
  obtain ⟨hnone, hdone⟩ | ⟨hunknown, s', hzero⟩ | ⟨hknown, bytes, r, hans, hbytes⟩ :=
    ioctl_outcome (g := g) arg hs cmd hcmd
  · constructor
    · intro h
      refine ⟨?_, by simp [hnone]⟩
      by_contra hunknown
      obtain ⟨ret, s', hret, -⟩ := h.unknown hunknown
      exact hunknown (hdone ret s' hret).2.2
    · rintro ⟨hknown, -⟩
      refine ⟨fun s' hzero => ?_, by simp [hnone], fun hunknown => absurd hknown hunknown⟩
      exact absurd (hdone 0 s' hzero).1 (by decide)
  · constructor
    · intro h
      obtain ⟨ret, s1, hret, hneg⟩ := h.unknown hunknown
      rw [hzero] at hret
      cases hret
      omega
    · exact fun h => absurd h.1 hunknown
  · have hiff := hreplies bytes hbytes
    constructor
    · refine fun h => ⟨hknown, fun c e hmem => ?_⟩
      obtain ⟨s1, herrno⟩ := h.errno c e hmem
      rw [hans.answers, List.mem_singleton] at hmem
      cases hmem
      obtain ⟨s2, hret, -⟩ := hans.fails e rfl
      rw [hiff]
      by_cases hcopy : (g.space.copyTo s.user (failedReply g.qemu cmd arg bytes).1
          (failedReply g.qemu cmd arg bytes).2).isSome = true
      · rw [hret, if_pos hcopy, Outcome.done.injEq] at herrno
        refine .inl ⟨?_, hcopy⟩
        unfold EPERM
        omega
      · rw [hret, if_neg hcopy, Outcome.done.injEq] at herrno
        exact .inr ⟨by omega, hcopy⟩
    · rintro ⟨-, hcond⟩
      refine ⟨fun s1 hzero => ?_, fun c e hmem => ?_, fun hunknown => absurd hknown hunknown⟩
      · cases r with
        | ok => rw [hans.answers, List.mem_singleton]
        | error e =>
            obtain ⟨s2, hret, -⟩ := hans.fails e rfl
            rw [hret] at hzero
            split_ifs at hzero
            · cases hzero
            · cases hzero
      · have herr := hcond c e hmem
        rw [hans.answers, List.mem_singleton] at hmem
        cases hmem
        obtain ⟨s2, hret, -⟩ := hans.fails e rfl
        refine ⟨s2, ?_⟩
        rw [hiff] at herr
        obtain ⟨rfl, hcopy⟩ | ⟨rfl, hcopy⟩ := herr
        · rw [hret, if_pos hcopy]
          rfl
        · rw [hret, if_neg hcopy]

-- What a failed call leaves in the memory of its process. Unless it sent
-- nothing, its reply has been copied there before the result was looked at.
def LeavesAlone (g : Guest σ) (cmd arg : Nat) (s : Sys σ) : Prop :=
  ∀ ret s', exec g (cryptoChrdevIoctl cmd arg) s = .done ret s' →
    ((watched g (cryptoChrdevIoctl cmd arg) s).2.answers g = [] ∨
      ∃ c e, (c, .error e) ∈ (watched g (cryptoChrdevIoctl cmd arg) s).2.answers g) →
    s'.user = s.user

-- What the reply of a failed command writes is there already: the structure with
-- QEMU's address of the key in it, or a `dst` of zeros.
def Unnoticed (g : Guest σ) (cmd arg : Nat) (s : Sys σ) : Prop :=
  ∀ bytes, g.space.copyFrom s.user arg CRYPT_OP_SIZE = some bytes →
    (cmd = CIOCGSESSION → g.space.copyPart s.user arg
      (bytes.take KEY_OFF ++ le 8 (g.qemu.addr ⟨5, 0⟩) ++ bytes.drop (KEY_OFF + 8)) = s.user) ∧
    (cmd = CIOCCRYPT → ∀ i < (CryptOp.parse bytes).len,
      (∀ j ≤ i, g.space.writable ((CryptOp.parse bytes).dst + j) = true) →
        s.user (g.space.byteAt ((CryptOp.parse bytes).dst + i)) = 0)

theorem leavesAlone_iff (hknown : Known cmd) :
    LeavesAlone g cmd arg s ↔
      ((∃ c e, (c, .error e) ∈ (watched g (cryptoChrdevIoctl cmd arg) s).2.answers g) →
        Unnoticed g cmd arg s) := by
  have hcmd : cmd < 2 ^ 32 := by
    obtain rfl | rfl | rfl := hknown <;> decide
  obtain ⟨hnone, hdone⟩ | ⟨hunknown, -⟩ | ⟨-, bytes, r, hans, hbytes⟩ :=
    ioctl_outcome (g := g) arg hs cmd hcmd
  · constructor
    · rintro - ⟨c, e, hmem⟩
      rw [hnone] at hmem
      cases hmem
    · exact fun _ ret s' hret _ => (hdone ret s' hret).2.1
  · exact absurd hknown hunknown
  · have hsame : (g.space.copyPart s.user (failedReply g.qemu cmd arg bytes).1
        (failedReply g.qemu cmd arg bytes).2 = s.user) ↔ Unnoticed g cmd arg s := by
      obtain rfl | rfl | rfl := hknown
      · have hop := hbytes (by simp [fsession_ne_gsession.symm])
        simp only [Unnoticed, hop, Option.some.injEq, forall_eq', failedReply, if_true,
          true_implies, crypt_ne_gsession.symm, false_implies, and_true]
      · simp only [Unnoticed, failedReply, fsession_ne_gsession, fsession_ne_crypt, if_false,
          false_implies, and_self, implies_true, iff_true]
        rfl
      · have hop := hbytes (by simp)
        simp only [Unnoticed, hop, Option.some.injEq, forall_eq', failedReply, if_true, if_false,
          true_implies, crypt_ne_gsession, false_implies, true_and]
        exact Space.copyPart_replicate _ _ _ _ _
    constructor
    · rintro h ⟨c, e, hmem⟩
      have hmem' := hmem
      rw [hans.answers, List.mem_singleton] at hmem
      cases hmem
      obtain ⟨s1, hret, huser⟩ := hans.fails e rfl
      rw [← hsame, ← huser]
      exact h _ s1 hret (.inr ⟨cmd, e, hmem'⟩)
    · rintro h ret s' hret (hnone | ⟨c, e, hmem⟩)
      · rw [hans.answers] at hnone
        cases hnone
      · have hsame := hsame.mpr (h ⟨c, e, hmem⟩)
        rw [hans.answers, List.mem_singleton] at hmem
        cases hmem
        obtain ⟨s1, hret', huser⟩ := hans.fails e rfl
        rw [hret] at hret'
        cases hret'
        exact huser.trans hsame

end Status

section Refused

-- A host that refuses every session with `EINVAL`.
def EINVAL : Nat := 22

def refusingHost : Host Nat :=
  { nullHost with
    gsession := fun _ _ s => (.error EINVAL, s)
    fsession := fun _ _ s => (.error EINVAL, s) }

def refusedGuest : Guest Nat := { plainGuest with host := refusingHost }

def plainCall (user : Mem Byte) : Sys Nat := plainSys user 7 (some ⟨0, 3⟩)

theorem farApart_copyFrom (m : Mem Byte) (addr n : Nat) :
    ∃ data, farApart.space.copyFrom m addr n = some data :=
  ⟨_, if_pos (List.all_eq_true.mpr fun _ _ => rfl)⟩

theorem refusingHost_gsession (fd : Int) (arg : Nat) (m : Mem Byte) (x : Nat) :
    (refusingHost.ioctl farApart.space fd CIOCGSESSION arg m x).1 = .error EINVAL := by
  obtain ⟨bytes, hop⟩ := farApart_copyFrom m arg SESSION_OP_SIZE
  obtain ⟨key, hkey⟩ := farApart_copyFrom m (SessionOp.parse bytes).key (SessionOp.parse bytes).keylen
  obtain ⟨mackey, hmackey⟩ :=
    farApart_copyFrom m (SessionOp.parse bytes).mackey (SessionOp.parse bytes).mackeylen
  simp only [Host.ioctl, if_true, Host.cioGsession, hop, hkey, hmackey]
  by_cases hmac : (SessionOp.parse bytes).mac = 0 <;> simp [hmac, refusingHost]

theorem nullHost_fsession (fd : Int) (arg : Nat) (m : Mem Byte) (x : Nat) :
    (nullHost.ioctl farApart.space fd CIOCFSESSION arg m x).1 = .ok () := by
  obtain ⟨ses, hses⟩ := farApart_copyFrom m arg 4
  simp [Host.ioctl, Host.cioFsession, hses, nullHost]

theorem plainCall_fresh (user : Mem Byte) : (plainCall user).Fresh ⟨0, 3⟩ := plainSys_fresh user 7 ⟨0, 3⟩

theorem refused_answers (mackey : Nat) :
    Answered refusedGuest CIOCGSESSION 0x1000 (plainCall (sessionUser mackey)) (sessionBytes mackey)
      (.error EINVAL) := by
  have h := gsession_answered (g := refusedGuest) 0x1000 (plainCall_fresh (sessionUser mackey)) _ _
    (fun _ _ => rfl) (sessionUser_reads mackey)
  rwa [show refusedGuest.host = refusingHost from rfl, show refusedGuest.qemu = farApart from rfl,
    refusingHost_gsession] at h

theorem finished_session_faithful : Faithful plainGuest CIOCFSESSION 0x1000 (plainCall fun _ => 0) := by
  apply (status_faithful_iff (g := plainGuest) (plainCall_fresh _) CIOCFSESSION 0x1000
    (by decide)).mpr
  have h := fsession_answered (g := plainGuest) 0x1000 (plainCall_fresh fun _ => 0) [] _ _
    (fun _ _ => rfl) ((flat_maps _ _).copyFrom _) ((flat_maps _ _).copyFrom _)
  rw [show plainGuest.host = nullHost from rfl, show plainGuest.qemu = farApart from rfl,
    nullHost_fsession] at h
  refine ⟨.inr (.inl rfl), fun c e hmem => ?_⟩
  rw [h.answers, List.mem_singleton] at hmem
  cases hmem

-- A command that no layer knows succeeds, and every errno becomes the same one.
theorem wrong_statuses :
    (∃ s', exec plainGuest (cryptoChrdevIoctl 0 0x1000) (plainCall fun _ => 0) = .done 0 s') ∧
    ¬Faithful plainGuest 0 0x1000 (plainCall fun _ => 0) ∧
    (watched refusedGuest (cryptoChrdevIoctl CIOCGSESSION 0x1000)
      (plainCall (sessionUser 0))).2.answers refusedGuest = [(CIOCGSESSION, .error EINVAL)] ∧
    (∃ s', exec refusedGuest (cryptoChrdevIoctl CIOCGSESSION 0x1000) (plainCall (sessionUser 0)) =
      .done (-1) s') ∧
    ¬Faithful refusedGuest CIOCGSESSION 0x1000 (plainCall (sessionUser 0)) := by
  have hunknown : ¬Known 0 := by unfold Known; decide
  obtain ⟨s0, hzero⟩ := exec_unknown (g := plainGuest) 0x1000 (plainCall_fresh fun _ => 0) 0 _
    (by decide) hunknown (fun _ _ => rfl) ((flat_maps _ _).copyFrom _)
  have hans := refused_answers 0
  obtain ⟨s1, hret, -⟩ := hans.fails EINVAL rfl
  have hcopy : ∀ data, (refusedGuest.space.copyTo (plainCall (sessionUser 0)).user 0x1000 data).isSome =
      true := fun data => (Space.copyTo_isSome _ _ _ _).mpr fun _ _ => rfl
  rw [show failedReply refusedGuest.qemu CIOCGSESSION 0x1000 (sessionBytes 0) =
    (0x1000, _) from rfl, if_pos (hcopy _)] at hret
  refine ⟨⟨s0, hzero⟩, fun h => ?_, hans.answers, ⟨s1, hret⟩, fun h => ?_⟩
  · obtain ⟨ret, s', hneg, hlt⟩ := h.unknown hunknown
    rw [hzero] at hneg
    cases hneg
    omega
  · obtain ⟨s', herrno⟩ := h.errno CIOCGSESSION EINVAL (by rw [hans.answers]; simp)
    rw [hret] at herrno
    cases herrno

theorem refused_finish_alone : LeavesAlone refusedGuest CIOCFSESSION 0x1000 (plainCall fun _ => 0) := by
  apply (leavesAlone_iff (g := refusedGuest) (plainCall_fresh _) CIOCFSESSION 0x1000
    (.inr (.inl rfl))).mpr
  rintro - bytes -
  exact ⟨fun h => absurd h fsession_ne_gsession, fun h => absurd h fsession_ne_crypt⟩

-- The caller's pointer to its key is lost when the session is refused.
theorem refused_key_overwritten :
    ∃ s', exec refusedGuest (cryptoChrdevIoctl CIOCGSESSION 0x1000) (plainCall (sessionUser 0)) =
        .done (-1) s' ∧
      field (Mem.load (sessionUser 0) ⟨0, 0x1000⟩ SESSION_OP_SIZE) KEY_OFF 8 = 0x2000 ∧
      field (Mem.load s'.user ⟨0, 0x1000⟩ SESSION_OP_SIZE) KEY_OFF 8 = farApart.base 5 ∧
      ¬LeavesAlone refusedGuest CIOCGSESSION 0x1000 (plainCall (sessionUser 0)) := by
  have hans := refused_answers 0
  obtain ⟨s1, hret, huser⟩ := hans.fails EINVAL rfl
  let data := (sessionBytes 0).take KEY_OFF ++ le 8 (farApart.addr ⟨5, 0⟩) ++
    (sessionBytes 0).drop (KEY_OFF + 8)
  have hreply : failedReply refusedGuest.qemu CIOCGSESSION 0x1000 (sessionBytes 0) = (0x1000, data) := rfl
  have hcopy : refusedGuest.space.copyTo (sessionUser 0) 0x1000 data =
      some (Mem.store (sessionUser 0) ⟨0, 0x1000⟩ data) := (flat_maps _ _).copyTo _ _ rfl
  rw [hreply] at hret huser
  rw [show (plainCall (sessionUser 0)).user = sessionUser 0 from rfl] at hret huser
  rw [hcopy, Option.isSome_some, if_pos rfl] at hret
  rw [Space.copyPart_all _ _ _ _ _ hcopy] at huser
  have hbefore : field (Mem.load (sessionUser 0) ⟨0, 0x1000⟩ SESSION_OP_SIZE) KEY_OFF 8 = 0x2000 := by
    rw [sessionUser, Mem.load_store _ _ (sessionBytes 0) _ (by decide)]
    decide
  have hafter : field (Mem.load s1.user ⟨0, 0x1000⟩ SESSION_OP_SIZE) KEY_OFF 8 = farApart.base 5 := by
    rw [huser, Mem.load_store _ _ data _ (by decide)]
    decide
  refine ⟨s1, hret, hbefore, hafter, fun h => ?_⟩
  have hsame := h _ s1 hret (.inr ⟨_, EINVAL, by rw [hans.answers]; exact List.mem_singleton.mpr rfl⟩)
  rw [hsame, show (plainCall (sessionUser 0)).user = sessionUser 0 from rfl, hbefore] at hafter
  revert hafter
  decide

end Refused

end CryptodevChat.Virtio
