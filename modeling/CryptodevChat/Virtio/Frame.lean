import CryptodevChat.Lib.Agreement
import CryptodevChat.Virtio.Course
import CryptodevChat.Virtio.Status
import CryptodevChat.Virtio.Native

namespace CryptodevChat.Virtio

open Lib (Byte le fromLe leInt fromLeInt le_length leInt_length fromLe_le Loc Mem Space gather scatter)

variable {σ : Type} {g : Guest σ}

section Replies

variable {s : Sys σ}

-- A reply of zero is a copy back that went well after a host that agreed.
theorem reply_zero (cmd arg : Nat) (file : Crof) (o : Objects) (ok : Bool) (user m : Mem Byte)
    (r : Except Nat Unit) (s' : Sys σ) (hcopy : exec g (copyBack cmd arg o) s = .done ok { s with user })
    (hmem : s.mem = Mem.store m ⟨3, 0⟩ (leInt (status r)))
    (h : exec g (reply cmd arg file.common o) s = .done 0 s') :
    ok = true ∧ r = .ok () ∧ s'.user = user := by
  rw [exec_reply_any _ _ _ _ _ _ _ hcopy] at h
  injection h with hret hstate
  subst hstate
  cases ok with
  | false =>
      rw [if_neg (by simp)] at hret
      cases hret
  | true =>
      have hret : fromLeInt (Mem.load s.mem ⟨3, 0⟩ 4) = 0 := hret
      cases r with
      | error e =>
          rw [hmem, status_error] at hret
          cases hret
      | ok => exact ⟨rfl, rfl, rfl⟩

theorem reply_copied (cmd arg : Nat) (file : Crof) (o : Objects) (addr block n : Nat) (m : Mem Byte)
    (r : Except Nat Unit) (s' : Sys σ)
    (hcopy : exec g (copyBack cmd arg o) s = exec g (copyToUser addr (some block) n) s)
    (hmem : s.mem = Mem.store m ⟨3, 0⟩ (leInt (status r))) (hblock : block ≠ 3)
    (h : exec g (reply cmd arg file.common o) s = .done 0 s') :
    r = .ok () ∧ g.space.copyTo s.user addr (Mem.load m ⟨block, 0⟩ n) = some s'.user := by
  rw [exec_copyToUser_any] at hcopy
  obtain ⟨hsome, hok, huser⟩ := reply_zero cmd arg file o _ _ m r s' hcopy hmem h
  obtain ⟨user, hto⟩ := Option.isSome_iff_exists.mp hsome
  rw [huser, Space.copyPart_all _ _ _ _ _ hto]
  rw [hmem, Mem.load_store_block _ _ _ _ _ (by simpa using hblock.symm)] at hto
  exact ⟨hok, hto⟩

variable {file : Crof} (hs : s.Fresh file) (arg : Nat) {s' : Sys σ}
include hs

-- A call that returns zero has its objects and its lists.
theorem success_listed (cmd : Nat) (h : exec g (cryptoChrdevIoctl cmd arg) s = .done 0 s') :
    g.Has [0, 1, 2, 3] ∧ ∃ data r s3, g.space.copyFrom s.user (arg + LEN_OFF) 4 = some data ∧
      exec g (cmdSgs cmd arg g.objects)
        { s with mem := objectsMem (commonMem s.mem file.hostFd cmd)
                 sizes := ioctlSizes (fromLe data) } = .done (some r) s3 := by
  have hcases := ioctl_cases (g := g) hs cmd arg
  rw [watched_exec] at hcases
  obtain ⟨-, hsilent⟩ | hlisted := hcases
  · exact absurd (hsilent 0 s' h).1 (by decide)
  · exact hlisted

-- What each command has done that returns zero. What it leaves to the process
-- comes from the memory that the backend has left.
theorem gsession_success (h : exec g (cryptoChrdevIoctl CIOCGSESSION arg) s = .done 0 s') :
    ∃ op key, g.space.copyFrom s.user arg SESSION_OP_SIZE = some op ∧
      let m := (sessionElement (SessionOp.parse op).keylen).sessionMem g.qemu
        (sessionObjects (objectsMem (commonMem s.mem file.hostFd CIOCGSESSION)) op key)
      let r := g.host.ioctl g.qemu.space (fromLeInt (leInt file.hostFd)) CIOCGSESSION
        (g.qemu.addr ⟨4, 0⟩) m s.host
      r.1 = .ok () ∧
        g.space.copyTo s.user arg (Mem.load r.2.1 ⟨4, 0⟩ SESSION_OP_SIZE) = some s'.user := by
  obtain ⟨hallocs, data, r, s3, hlen, hlists⟩ := success_listed hs arg _ h
  obtain ⟨hobjects, op, key, hreads⟩ := cmdSgs_gsession_has _ arg r s3 hlists
  have hexec := exec_gsession hs arg op key (hallocs.append hobjects) hreads
  extract_lets len m fd r at hexec
  rw [hexec] at h
  generalize hb : Backend.mk _ _ _ = b at h
  have hmem : b.mem = Mem.store r.2.1 ⟨3, 0⟩ (leInt (status r.1)) := by rw [← hb]
  have hcopy : exec g (copyBack CIOCGSESSION arg g.objects) (s.handled file len (sessionElement len) b) =
      exec g (copyToUser arg (some 4) SESSION_OP_SIZE) (s.handled file len (sessionElement len) b) := by
    rw [copyBack, if_pos rfl, show g.objects.sessionOp = some 4 from hobjects.ptr 4 (by simp)]
  exact ⟨op, key, hreads.op,
    reply_copied (s := s.handled file len (sessionElement len) b) CIOCGSESSION arg file g.objects arg 4
      SESSION_OP_SIZE r.2.1 r.1 s' hcopy hmem (by decide) h⟩

-- Apart from these two commands nothing is copied to the process.
omit hs in
theorem ioctl_inward (cmd : Nat) (hsession : cmd ≠ CIOCGSESSION) (hcrypt : cmd ≠ CIOCCRYPT) :
    (cryptoChrdevIoctl cmd arg).All Deed.Inward := by
  rw [ioctl_halves]
  refine (prepare_inward cmd arg).bind fun ⟨c, o, r⟩ => ?_
  cases r with
  | none => exact all_pure _
  | some r =>
      have hback : copyBack cmd arg o = pure true := by
        rw [copyBack, if_neg hsession, if_neg hcrypt]
      have hreply : (reply cmd arg c o).All Deed.Inward := by
        unfold reply
        rw [hback]
        exact cleanup_all c o (fun _ _ => trivial) true
      exact (all_sgInitOne _ _).bind fun _ =>
        (submit_all (fun _ _ _ _ => trivial) (fun _ => trivial) _ _ _ _).bind fun _ => hreply

omit hs in
theorem ioctl_user (cmd : Nat) (hsession : cmd ≠ CIOCGSESSION) (hcrypt : cmd ≠ CIOCCRYPT) {ret : Int}
    (h : exec g (cryptoChrdevIoctl cmd arg) s = .done ret s') : s'.user = s.user := by
  have huser := exec_user g s _ (ioctl_inward arg cmd hsession hcrypt)
  rwa [h] at huser

theorem crypt_success (h : exec g (cryptoChrdevIoctl CIOCCRYPT arg) s = .done 0 s') :
    ∃ op src iv, CryptReads g.space s.user arg op src iv ∧
      let m := (cryptElement (CryptOp.parse op).len).cryptMem g.qemu
        (cryptObjects (objectsMem (commonMem s.mem file.hostFd CIOCCRYPT)) op src iv)
      let r := g.host.ioctl g.qemu.space (fromLeInt (leInt file.hostFd)) CIOCCRYPT
        (g.qemu.addr ⟨7, 0⟩) m s.host
      r.1 = .ok () ∧
        g.space.copyTo s.user (CryptOp.parse op).dst
          (Mem.load r.2.1 ⟨10, 0⟩ (fromLe (Mem.load r.2.1 ⟨7, LEN_OFF⟩ 4))) = some s'.user := by
  obtain ⟨hallocs, data, r, s3, hlen, hlists⟩ := success_listed hs arg _ h
  obtain ⟨hobjects, op, src, iv, hreads⟩ := cmdSgs_crypt_has _ arg r s3 hlists
  have hexec := exec_crypt hs arg op src iv (hallocs.append hobjects) hreads
  extract_lets len m fd r at hexec
  rw [hexec] at h
  generalize hb : Backend.mk _ _ _ = b at h
  have hmem : b.mem = Mem.store r.2.1 ⟨3, 0⟩ (leInt (status r.1)) := by rw [← hb]
  have hcopy : exec g (copyBack CIOCCRYPT arg g.objects) (s.handled file len (cryptElement len) b) =
      exec g (copyToUser (CryptOp.parse op).dst (some 10) (fromLe (Mem.load b.mem ⟨7, LEN_OFF⟩ 4)))
        (s.handled file len (cryptElement len) b) := by
    rw [copyBack, if_neg crypt_ne_gsession, if_pos rfl,
      show g.objects.cryptOp = some 7 from hobjects.ptr 7 (by simp),
      show g.objects.dst = some 10 from hobjects.ptr 10 (by simp),
      exec_then _ _ _ _ _ _ (exec_loadField (s.handled file len (cryptElement len) b) arg _ DST_OFF 8 op
        hreads.op (by decide)),
      exec_then _ _ _ _ _ _ (exec_load g (s.handled file len (cryptElement len) b) 7 LEN_OFF 4)]
    rfl
  have hlen : Mem.load b.mem ⟨7, LEN_OFF⟩ 4 = Mem.load r.2.1 ⟨7, LEN_OFF⟩ 4 := by
    rw [hmem, Mem.load_store_block _ _ _ _ _ (by simp)]
  rw [hlen] at hcopy
  exact ⟨op, src, iv, hreads,
    reply_copied (s := s.handled file len (cryptElement len) b) CIOCCRYPT arg file g.objects _ 10 _
      r.2.1 r.1 s' hcopy hmem (by decide) h⟩

end Replies

section Session

theorem cioGsession_stores (h : Host σ) (sp : Space) (fd : Int) (arg : Nat) (m : Mem Byte) (x : σ)
    (hok : (h.cioGsession sp fd arg m x).1 = .ok ()) :
    ∃ args ses x', h.gsession fd args x = (.ok ses, x') ∧
      sp.copyTo m (arg + SES_OFF) (le 4 ses) = some (h.cioGsession sp fd arg m x).2.1 := by
  unfold Host.cioGsession at hok ⊢
  split at hok
  · cases hok
  · dsimp only at hok ⊢
    split at hok
    · split at hok
      · cases hok
      · rename_i ses x' hses
        split at hok
        · cases hok
        · rename_i m' hto
          simp only [*]
          exact ⟨_, ses, x', hses, hto⟩
    · cases hok

-- What a session is created from and what it changes: the field `ses`, which is
-- set to what the host returned, and nothing else.
structure SessionFramed (g : Guest σ) (arg : Nat) (s s' : Sys σ) : Prop where
  outside : ∀ p ∉ g.space.cells (arg + SES_OFF) 4, s'.user p = s.user p
  fields : ∀ i < SESSION_OP_SIZE, i < SES_OFF ∨ SES_OFF + 4 ≤ i →
    s'.user (g.space.byteAt (arg + i)) = s.user (g.space.byteAt (arg + i))
  ses : ∃ fd args ses x, g.host.gsession fd args s.host = (.ok ses, x) ∧
    gather s'.user (fun i => g.space.byteAt (arg + SES_OFF + i)) 4 = le 4 ses

-- The structure that comes back, in an object `m` of its own: the caller's, with
-- QEMU's address of the key and the host's session.
structure SessionBack (g : Guest σ) (arg : Nat) (s s' : Sys σ) (op : List Byte) (m : Mem Byte) : Prop where
  back : g.space.copyTo s.user arg (Mem.load m ⟨4, 0⟩ SESSION_OP_SIZE) = some s'.user
  pointer : Mem.load m ⟨4, KEY_OFF⟩ 8 = le 8 (g.qemu.addr ⟨5, 0⟩)
  others : ∀ i < SESSION_OP_SIZE, i < KEY_OFF ∨ KEY_OFF + 8 ≤ i → i < SES_OFF ∨ SES_OFF + 4 ≤ i →
    m ⟨4, i⟩ = s.user (g.space.byteAt (arg + i))
  ses : ∃ fd args ses x, g.host.gsession fd args s.host = (.ok ses, x) ∧
    Mem.load m ⟨4, SES_OFF⟩ 4 = le 4 ses

section Back

variable {s s' : Sys σ} {arg : Nat} {op : List Byte} {m : Mem Byte}

theorem SessionBack.pointer_kept_iff (hback : SessionBack g arg s s' op m)
    (hop : g.space.copyFrom s.user arg SESSION_OP_SIZE = some op) :
    (∀ k < 8, m ⟨4, KEY_OFF + k⟩ = s.user (g.space.byteAt (arg + (KEY_OFF + k)))) ↔
      (SessionOp.parse op).key = g.qemu.base 5 := by
  have hslice := Lib.gather_slice s.user (fun i => g.space.byteAt (arg + i)) SESSION_OP_SIZE KEY_OFF 8
    (by decide)
  rw [Space.copyFrom_gather _ _ _ _ _ hop] at hslice
  refine (Lib.gather_eq_iff m s.user (fun k => ⟨4, KEY_OFF + k⟩)
    (fun k => g.space.byteAt (arg + (KEY_OFF + k))) 8).symm.trans ?_
  rw [← hslice, show gather m (fun k => ⟨4, KEY_OFF + k⟩) 8 = _ from hback.pointer]
  have hlen : ((op.drop KEY_OFF).take 8).length = 8 := by
    simp [Space.copyFrom_length _ _ _ _ _ hop, SESSION_OP_SIZE, KEY_OFF]
  constructor
  · intro heq
    change fromLe ((op.drop KEY_OFF).take 8) = _
    rw [← heq, addr_pointer]
  · intro hkey
    rw [← Lib.le_fromLe ((op.drop KEY_OFF).take 8), hlen, show fromLe _ = _ from hkey, Qemu.addr,
      Nat.add_zero]

-- The cells of the structure are one for each of its bytes.
theorem SessionBack.framed_iff (hback : SessionBack g arg s s' op m) (hpaged : g.space.Paged PAGE_SIZE) :
    SessionFramed g arg s s' ↔
      ∀ k < 8, m ⟨4, KEY_OFF + k⟩ = s.user (g.space.byteAt (arg + (KEY_OFF + k))) := by
  have hinj := hpaged.inj arg SESSION_OP_SIZE (by decide)
  constructor
  · intro hframed k hk
    have hlt : KEY_OFF + k < SES_OFF := by simp only [KEY_OFF, SES_OFF]; omega
    have hsize : KEY_OFF + k < SESSION_OP_SIZE := by simp only [KEY_OFF, SESSION_OP_SIZE]; omega
    refine (Space.copyTo_keeps_iff _ _ _ _ _ _ _ hback.back
      (· = g.space.byteAt (arg + (KEY_OFF + k)))).mp ?_ _ hsize ?_ rfl
    · rintro p rfl
      exact hframed.fields _ hsize (.inl hlt)
    · intro j hj hkj he
      have := hinj _ hj _ hsize he
      omega
  · intro hkept
    have hall : ∀ i < SESSION_OP_SIZE, i < SES_OFF ∨ SES_OFF + 4 ≤ i →
        m ⟨4, i⟩ = s.user (g.space.byteAt (arg + i)) := by
      intro i hi hses
      by_cases hin : i < KEY_OFF ∨ KEY_OFF + 8 ≤ i
      · exact hback.others i hi hin hses
      · obtain ⟨k, rfl⟩ := Nat.exists_eq_add_of_le (show KEY_OFF ≤ i by omega)
        exact hkept k (by omega)
    constructor
    · refine (Space.copyTo_keeps_iff _ _ _ _ _ _ _ hback.back _).mpr fun i hi _ hout => ?_
      refine hall i hi (by_contra fun hin => hout ⟨i - SES_OFF, by omega, ?_⟩)
      rw [Nat.add_assoc, Nat.add_sub_cancel' (by omega)]
    · intro i hi hses
      refine (Space.copyTo_keeps_iff _ _ _ _ _ _ _ hback.back
        (· = g.space.byteAt (arg + i))).mpr (fun j hj _ he => ?_) _ rfl
      obtain rfl := hinj j hj i hi he
      exact hall j hj hses
    · obtain ⟨fd, args, ses, x, hses, hload⟩ := hback.ses
      refine ⟨fd, args, ses, x, hses, ?_⟩
      have hto := hback.back
      unfold Space.copyTo at hto
      split_ifs at hto
      have hslice := Lib.gather_scatter_slice s.user (fun i => g.space.byteAt (arg + i))
        (Mem.load m ⟨4, 0⟩ SESSION_OP_SIZE) SES_OFF 4 (by simpa using hinj) (by simp [SES_OFF, SESSION_OP_SIZE])
      rw [Option.some.inj hto, Mem.load_slice _ _ _ _ _ (by decide)] at hslice
      simp only [← Nat.add_assoc] at hslice
      exact hslice.trans hload

end Back

variable {s : Sys σ} {file : Crof} (hs : s.Fresh file) (arg : Nat) {s' : Sys σ}
include hs

theorem session_back
    (hplaces : ∀ data, g.space.copyFrom s.user (arg + LEN_OFF) 4 = some data →
      g.qemu.Places (ioctlSizes (fromLe data)))
    (h : exec g (cryptoChrdevIoctl CIOCGSESSION arg) s = .done 0 s') :
    ∃ op m, g.space.copyFrom s.user arg SESSION_OP_SIZE = some op ∧ SessionBack g arg s s' op m := by
  obtain ⟨op, key, hop, hok, hto⟩ := gsession_success hs arg h
  have hplace := hplaces _ (Space.copyFrom_slice _ _ _ _ LEN_OFF 4 _ hop (by decide))
  have hmaps : g.qemu.space.Maps (g.qemu.addr ⟨4, 0⟩) ⟨4, 0⟩ SESSION_OP_SIZE :=
    hplace 4 (by simp [ioctlSizes])
  have hoplen := Space.copyFrom_length _ _ _ _ _ hop
  rw [session_mem, Host.ioctl, if_pos rfl] at hok hto
  obtain ⟨args, ses, x', hses, hstored⟩ := cioGsession_stores _ _ _ _ _ _ hok
  rw [(hmaps.sub SES_OFF 4 (by decide)).copyTo _ _ (le_length 4 ses), Option.some.injEq] at hstored
  rw [← hstored] at hto
  generalize hobjs : sessionObjects (objectsMem (commonMem s.mem file.hostFd CIOCGSESSION)) op key = objs
    at hto
  have hobj : ∀ i < SESSION_OP_SIZE, objs ⟨4, i⟩ = s.user (g.space.byteAt (arg + i)) := by
    have hload : Mem.load objs ⟨4, 0⟩ SESSION_OP_SIZE = op := by
      rw [← hobjs, sessionObjects, Mem.load_store_block _ _ _ _ _ (by simp), Mem.load_store _ _ _ _ hoplen]
    intro i hi
    have hcell := (Lib.gather_eq_iff _ _ _ _ _).mp
      (hload.trans (Space.copyFrom_gather _ _ _ _ _ hop).symm) i hi
    simpa [Loc.plus] using hcell
  refine ⟨op, _, hop, hto, ?_, fun i hi hkey hses => ?_, _, args, ses, x', hses,
    Mem.load_store _ _ _ _ (le_length 4 ses)⟩
  · rw [Mem.load_store_other _ _ _ _ _ (by simp [SES_OFF, KEY_OFF]), Mem.load_store _ _ _ _ (le_length 8 _)]
  · rw [Mem.store_other, Mem.store_other, hobj i hi]
    · simpa [le_length] using hkey
    · simpa [le_length] using hses

-- The pointer to the key is the one other field that does not come back as it was.
theorem session_framed_iff (hpaged : g.space.Paged PAGE_SIZE)
    (hplaces : ∀ data, g.space.copyFrom s.user (arg + LEN_OFF) 4 = some data →
      g.qemu.Places (ioctlSizes (fromLe data)))
    (h : exec g (cryptoChrdevIoctl CIOCGSESSION arg) s = .done 0 s') :
    SessionFramed g arg s s' ↔
      ∀ op, g.space.copyFrom s.user arg SESSION_OP_SIZE = some op →
        (SessionOp.parse op).key = g.qemu.base 5 := by
  obtain ⟨op, m, hop, hback⟩ := session_back hs arg hplaces h
  rw [hback.framed_iff hpaged, hback.pointer_kept_iff hop]
  simp [hop]

end Session

section Crypt

-- A cipher operation changes `dst[0..len)`, and its structure stays as it is.
def CryptFramed (g : Guest σ) (arg : Nat) (s s' : Sys σ) : Prop :=
  ∀ op, g.space.copyFrom s.user arg CRYPT_OP_SIZE = some op →
    (∀ p ∉ g.space.cells (CryptOp.parse op).dst (CryptOp.parse op).len, s'.user p = s.user p) ∧
    ∀ p ∈ g.space.cells arg CRYPT_OP_SIZE, s'.user p = s.user p

-- The memory that the host's ioctl leaves to the backend.
def cryptLeft (g : Guest σ) (s : Sys σ) (file : Crof) (op src iv : List Byte) : Mem Byte :=
  let m := (cryptElement (CryptOp.parse op).len).cryptMem g.qemu
    (cryptObjects (objectsMem (commonMem s.mem file.hostFd CIOCCRYPT)) op src iv)
  (g.host.ioctl g.qemu.space (fromLeInt (leInt file.hostFd)) CIOCCRYPT (g.qemu.addr ⟨7, 0⟩) m s.host).2.1

-- What is copied back to another place than `dst[0..len)`, or onto the structure,
-- is there already. The length is the one that comes back in the structure, and
-- of two bytes for one cell the last one counts.
def CryptKeeps (g : Guest σ) (arg : Nat) (s : Sys σ) (file : Crof) : Prop :=
  ∀ op src iv, CryptReads g.space s.user arg op src iv →
    let m := cryptLeft g s file op src iv
    let len := fromLe (Mem.load m ⟨7, LEN_OFF⟩ 4)
    let place := fun i => g.space.byteAt ((CryptOp.parse op).dst + i)
    ∀ i < len, (∀ j < len, i < j → place j ≠ place i) →
      (place i ∉ g.space.cells (CryptOp.parse op).dst (CryptOp.parse op).len ∨
        place i ∈ g.space.cells arg CRYPT_OP_SIZE) →
      m ⟨10, i⟩ = s.user (place i)

theorem cioCrypt_puts (h : Host σ) (sp : Space) (fd : Int) (arg : Nat) (m : Mem Byte) (x : σ)
    (hok : (h.cioCrypt sp fd arg m x).1 = .ok ()) :
    ∃ (bytes src : List Byte) (out : Crypted), sp.copyFrom m arg CRYPT_OP_SIZE = some bytes ∧
      src.length = (CryptOp.parse bytes).len ∧ out.dst.length = src.length ∧
      putCrypted sp (CryptOp.parse bytes) out m = some (h.cioCrypt sp fd arg m x).2.1 := by
  unfold Host.cioCrypt at hok ⊢
  cases hop : sp.copyFrom m arg CRYPT_OP_SIZE with
  | none =>
      rw [hop] at hok
      cases hok
  | some bytes =>
      simp only [hop] at hok ⊢
      split at hok
      · rename_i src iv hsrc hiv
        split at hok
        · cases hok
        · rename_i out x' hcrypt
          split at hok
          · cases hok
          · rename_i m' hput
            exact ⟨bytes, src, out, rfl, Space.copyFrom_length _ _ _ _ _ hsrc,
              h.dst_length _ _ _ _ _ hcrypt, hput⟩
      · cases hok

-- The length comes back as it was when neither a digest nor an initialization
-- vector is asked for.
theorem cryptLeft_len (s : Sys σ) (file : Crof) (op src iv : List Byte) (hop : op.length = CRYPT_OP_SIZE)
    (hplaces : g.qemu.Places (ioctlSizes (CryptOp.parse op).len)) (hmac : (CryptOp.parse op).mac = 0)
    (hflag : (CryptOp.parse op).flags / COP_FLAG_WRITE_IV % 2 = 0)
    (hok : (g.host.ioctl g.qemu.space (fromLeInt (leInt file.hostFd)) CIOCCRYPT (g.qemu.addr ⟨7, 0⟩)
      ((cryptElement (CryptOp.parse op).len).cryptMem g.qemu
        (cryptObjects (objectsMem (commonMem s.mem file.hostFd CIOCCRYPT)) op src iv)) s.host).1 = .ok ()) :
    fromLe (Mem.load (cryptLeft g s file op src iv) ⟨7, LEN_OFF⟩ 4) = (CryptOp.parse op).len := by
  have hopat : g.qemu.space.Maps (g.qemu.addr ⟨7, 0⟩) ⟨7, 0⟩ CRYPT_OP_SIZE :=
    hplaces 7 (by simp [ioctlSizes])
  have hdstat : g.qemu.space.Maps (g.qemu.base 10) ⟨10, 0⟩ (CryptOp.parse op).len :=
    hplaces 10 (by simp [ioctlSizes])
  have hhanded := crypt_handed g.qemu (objectsMem (commonMem s.mem file.hostFd CIOCCRYPT)) op src iv hop
    (CryptOp.parse op).len
  unfold cryptLeft
  extract_lets m
  change (g.host.ioctl _ _ _ _ m _).1 = _ at hok
  rw [Host.ioctl, if_neg crypt_ne_gsession, if_neg crypt_ne_fsession, if_pos rfl] at hok ⊢
  obtain ⟨bytes, src', out, hbytes, hsrc, hdst, hput⟩ := cioCrypt_puts _ _ _ _ _ _ hok
  obtain rfl := Option.some.inj ((hopat.copyFrom m).symm.trans hbytes)
  rw [hhanded] at hput hsrc
  have hto := hdstat.copyTo m out.dst (hdst.trans hsrc)
  simp only [putCrypted, hmac, hflag, if_true, hto, Option.bind_eq_bind, Option.bind_some,
    Option.some.injEq] at hput
  rw [← hput, Mem.load_store_block _ _ _ _ _ (by simp), ← field_object _ _ CRYPT_OP_SIZE _ _ (by decide),
    ← CryptOp.parse_len, hhanded]

variable {s : Sys σ} {file : Crof} (hs : s.Fresh file) (arg : Nat) {s' : Sys σ}
include hs

theorem crypt_framed_iff (h : exec g (cryptoChrdevIoctl CIOCCRYPT arg) s = .done 0 s') :
    CryptFramed g arg s s' ↔ CryptKeeps g arg s file := by
  obtain ⟨op, src, iv, hreads, -, hto⟩ := crypt_success hs arg h
  have hkeeps := Space.copyTo_keeps_iff _ _ _ _ _ _ _ hto fun p =>
    p ∉ g.space.cells (CryptOp.parse op).dst (CryptOp.parse op).len ∨ p ∈ g.space.cells arg CRYPT_OP_SIZE
  constructor
  · intro hframed op' src' iv' hreads'
    obtain rfl : op = op' := Option.some.inj (hreads.op.symm.trans hreads'.op)
    obtain rfl : src = src' := Option.some.inj (hreads.src.symm.trans hreads'.src)
    obtain rfl : iv = iv' := Option.some.inj (hreads.iv.symm.trans hreads'.iv)
    obtain ⟨houtside, hinside⟩ := hframed op hreads.op
    exact hkeeps.mp fun p hp => hp.elim (houtside p) (hinside p)
  · intro hcond op' hop'
    obtain rfl : op = op' := Option.some.inj (hreads.op.symm.trans hop')
    have hall := hkeeps.mpr (hcond op src iv hreads)
    exact ⟨fun p hp => hall p (.inl hp), fun p hp => hall p (.inr hp)⟩

theorem crypt_plain_framed
    (hplaces : ∀ data, g.space.copyFrom s.user (arg + LEN_OFF) 4 = some data →
      g.qemu.Places (ioctlSizes (fromLe data)))
    (hplain : ∀ op, g.space.copyFrom s.user arg CRYPT_OP_SIZE = some op →
      (CryptOp.parse op).mac = 0 ∧ (CryptOp.parse op).flags / COP_FLAG_WRITE_IV % 2 = 0 ∧
      ∀ i < (CryptOp.parse op).len, g.space.byteAt ((CryptOp.parse op).dst + i) ∉
        g.space.cells arg CRYPT_OP_SIZE)
    (h : exec g (cryptoChrdevIoctl CIOCCRYPT arg) s = .done 0 s') : CryptFramed g arg s s' := by
  obtain ⟨op, src, iv, hreads, hok, -⟩ := crypt_success hs arg h
  obtain ⟨hmac, hflag, hapart⟩ := hplain op hreads.op
  have hlen := cryptLeft_len s file op src iv (Space.copyFrom_length _ _ _ _ _ hreads.op)
    (hplaces _ (Space.copyFrom_slice _ _ _ _ LEN_OFF 4 _ hreads.op (by decide))) hmac hflag hok
  refine (crypt_framed_iff hs arg h).mpr fun op' src' iv' hreads' => ?_
  obtain rfl : op = op' := Option.some.inj (hreads.op.symm.trans hreads'.op)
  obtain rfl : src = src' := Option.some.inj (hreads.src.symm.trans hreads'.src)
  obtain rfl : iv = iv' := Option.some.inj (hreads.iv.symm.trans hreads'.iv)
  intro m len place i hi _ hp
  have hi : i < (CryptOp.parse op).len := hi.trans_eq hlen
  obtain hout | hin := hp
  · exact absurd ⟨i, hi, rfl⟩ hout
  · exact absurd hin (hapart i hi)

end Crypt

section Main

-- What a call that succeeds does to the memory of its process.
structure Framed (g : Guest σ) (cmd arg : Nat) (s s' : Sys σ) : Prop where
  session : cmd = CIOCGSESSION → SessionFramed g arg s s'
  finish : cmd = CIOCFSESSION → s'.user = s.user
  crypt : cmd = CIOCCRYPT → CryptFramed g arg s s'
  other : ¬Known cmd → s'.user = s.user

variable {s : Sys σ} {file : Crof} (hs : s.Fresh file) (cmd arg : Nat) {s' : Sys σ}
include hs

theorem success_framed_iff (hpaged : g.space.Paged PAGE_SIZE)
    (hplaces : ∀ data, g.space.copyFrom s.user (arg + LEN_OFF) 4 = some data →
      g.qemu.Places (ioctlSizes (fromLe data)))
    (h : exec g (cryptoChrdevIoctl cmd arg) s = .done 0 s') :
    Framed g cmd arg s s' ↔
      (cmd = CIOCGSESSION → ∀ op, g.space.copyFrom s.user arg SESSION_OP_SIZE = some op →
        (SessionOp.parse op).key = g.qemu.base 5) ∧
      (cmd = CIOCCRYPT → CryptKeeps g arg s file) := by
  constructor
  · intro hframed
    refine ⟨?_, ?_⟩
    · rintro rfl
      exact (session_framed_iff hs arg hpaged hplaces h).mp (hframed.session rfl)
    · rintro rfl
      exact (crypt_framed_iff hs arg h).mp (hframed.crypt rfl)
  · rintro ⟨hkey, hkeeps⟩
    constructor
    · rintro rfl
      exact (session_framed_iff hs arg hpaged hplaces h).mpr (hkey rfl)
    · rintro rfl
      exact ioctl_user arg CIOCFSESSION fsession_ne_gsession fsession_ne_crypt h
    · rintro rfl
      exact (crypt_framed_iff hs arg h).mpr (hkeeps rfl)
    · intro hknown
      exact ioctl_user arg cmd (fun hg => hknown (.inl hg)) (fun hc => hknown (.inr (.inr hc))) h

end Main

section Instances

theorem flat_paged : flat.Paged PAGE_SIZE := by
  intro a b hab _ he
  cases he
  exact absurd hab (Nat.lt_irrefl a)

-- Sixteen bytes are encrypted, and the structure stays as it is.
theorem crypt_in_frame :
    ∃ s', exec plainGuest (cryptoChrdevIoctl CIOCCRYPT 0x1000) (plainCall zeroProcess.user) = .done 0 s' ∧
      Framed plainGuest CIOCCRYPT 0x1000 (plainCall zeroProcess.user) s' := by
  have hfresh := plainCall_fresh zeroProcess.user
  have hop := (flat_maps 0x1000 CRYPT_OP_SIZE).copyFrom zeroProcess.user
  generalize hbytes : Mem.load zeroProcess.user ⟨0, 0x1000⟩ CRYPT_OP_SIZE = bytes at hop
  have hplain : (CryptOp.parse bytes).mac = 0 ∧ (CryptOp.parse bytes).flags / COP_FLAG_WRITE_IV % 2 = 0 ∧
      (CryptOp.parse bytes).len = 16 ∧ (CryptOp.parse bytes).dst = 0 := by
    rw [← hbytes]
    decide +kernel
  obtain ⟨hmac, hflag, hlen, hdst⟩ := hplain
  have hplaces : ∀ data, flat.copyFrom zeroProcess.user (0x1000 + LEN_OFF) 4 = some data →
      farApart.Places (ioctlSizes (fromLe data)) := by
    intro data hdata
    cases ((flat_maps _ _).copyFrom _).symm.trans hdata
    exact farApart_places _ (show fromLe (Mem.load zeroProcess.user _ 4) ≤ 2 ^ 32 by decide +kernel)
  have hapart : ∀ op, flat.copyFrom zeroProcess.user 0x1000 CRYPT_OP_SIZE = some op →
      (CryptOp.parse op).mac = 0 ∧ (CryptOp.parse op).flags / COP_FLAG_WRITE_IV % 2 = 0 ∧
      ∀ i < (CryptOp.parse op).len, flat.byteAt ((CryptOp.parse op).dst + i) ∉
        flat.cells 0x1000 CRYPT_OP_SIZE := by
    intro op hop'
    cases hop.symm.trans hop'
    refine ⟨hmac, hflag, fun i hi ⟨j, _, he⟩ => ?_⟩
    rw [hlen] at hi
    rw [hdst] at he
    injection he with _ hoff
    omega
  obtain ⟨s', hexec, -⟩ := exec_crypt_ok (g := plainGuest) hfresh (plainSys_idle _ 7 _) (fun _ => rfl) rfl
    0x1000 bytes _ _ 7 _ ⟨hop, (flat_maps _ _).copyFrom _, (flat_maps _ _).copyFrom _⟩
    (farApart_places _ (by omega)) hmac hflag rfl _ ((flat_maps _ _).copyTo _ _ (Mem.load_length _ _ _))
  have hframed := crypt_plain_framed hfresh 0x1000 hplaces hapart hexec
  exact ⟨s', hexec, (success_framed_iff hfresh CIOCCRYPT 0x1000 flat_paged hplaces hexec).mpr
    ⟨fun h => absurd h crypt_ne_gsession, fun _ => (crypt_framed_iff hfresh 0x1000 hexec).mp hframed⟩⟩

-- The pointer to the key comes back as the one that QEMU has put there.
theorem session_out_of_frame :
    ∃ s', exec plainGuest (cryptoChrdevIoctl CIOCGSESSION 0x1000) (plainCall zeroProcess.user) = .done 0 s' ∧
      ¬Framed plainGuest CIOCGSESSION 0x1000 (plainCall zeroProcess.user) s' := by
  have hfresh := plainCall_fresh zeroProcess.user
  have hop := (flat_maps 0x1000 SESSION_OP_SIZE).copyFrom zeroProcess.user
  generalize hbytes : Mem.load zeroProcess.user ⟨0, 0x1000⟩ SESSION_OP_SIZE = bytes at hop
  have hplain : (SessionOp.parse bytes).mac = 0 ∧ (SessionOp.parse bytes).keylen = 16 ∧
      (SessionOp.parse bytes).key = 0 := by
    rw [← hbytes]
    decide +kernel
  obtain ⟨hmac, hkeylen, hkey⟩ := hplain
  obtain ⟨s', -, hexec, -⟩ := exec_gsession_ok (g := plainGuest) hfresh (plainSys_idle _ 7 _) (fun _ => rfl)
    rfl 0x1000 bytes _ _ _ ⟨hop, (flat_maps _ _).copyFrom _⟩
    (farApart_places _ (by rw [hkeylen]; decide)) hmac rfl
    (fun data hdata => ⟨_, (flat_maps _ _).copyTo _ _ hdata⟩)
  refine ⟨s', hexec, fun hframed => ?_⟩
  have hplaces : ∀ data, flat.copyFrom zeroProcess.user (0x1000 + LEN_OFF) 4 = some data →
      farApart.Places (ioctlSizes (fromLe data)) := by
    intro data hdata
    cases ((flat_maps _ _).copyFrom _).symm.trans hdata
    exact farApart_places _ (show fromLe (Mem.load zeroProcess.user _ 4) ≤ 2 ^ 32 by decide +kernel)
  have hbase := (session_framed_iff hfresh 0x1000 flat_paged hplaces hexec).mp (hframed.session rfl) _ hop
  rw [hkey] at hbase
  revert hbase
  decide

end Instances

end CryptodevChat.Virtio
