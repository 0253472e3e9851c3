import CryptodevChat.User.Sharing

namespace CryptodevChat.User

open Lib (Byte le fromLe Mem Space Client Objects splice)
open Virtio

section Programs

-- The objects of the programs that use the device.
inductive Name
  | sess | cryp | input | encrypted | decrypted | iv | key | buffer
  deriving DecidableEq

abbrev Program := Client Process UserCall Int

variable (o : Objects Name)

def store (x : Name) (off : Nat) (data : List Byte) : Program Unit :=
  .get fun m => .put { m with user := m.space.write m.user (o.addr x + off) data } (.ret ())

def load (x : Name) (off n : Nat) : Program (List Byte) :=
  .get fun m => .ret (m.space.read m.user (o.addr x + off) n)

def ask (c : UserCall) : Program Int := .call c .ret

def ioctl (cfd : Int) (cmd arg : Nat) : Program Int := ask (.dev (.ioctl cfd.toNat cmd arg))

-- The system closes the file of a process that exits.
def quit {α : Type} (status : Nat) (cfd : Int) : Program α := do
  let _ ← ask (.dev (.close cfd.toNat))
  .exit status

def die {α : Type} (cfd : Int) : Program α := quit 1 cfd

-- The process and its copy go on, or there is no copy.
def fork : Program Int := do
  let room ← ask .fork
  if room < 0 then return -1
  let pid ← Client.fork .ret
  return (pid : Int)

def check (c : Prop) [Decidable c] (stop : Program Unit) : Program Unit := if c then stop else .ret ()

end Programs

section Assertions

-- What a process has in its objects, and its files.
structure At (o : Objects Name) (sp : Space) (vals : Name → List Byte) (files : Nat → Option (Nat → Option Session))
    (m : Process) (v : View) : Prop where
  space : m.space = sp
  vals : ∀ x, o.val sp m.user x = vals x
  files : v.files = files

-- A process whose objects are in order: `&sess.ses` is passed to the driver, which reads
-- twelve bytes from there.
structure Laid (o : Objects Name) (sp : Space) : Prop where
  placed : o.Placed sp
  addr_lt : ∀ x, o.addr x < 2 ^ 64
  sess_size : o.size .sess = SESSION_OP_SIZE
  cryp_size : o.size .cryp = CRYPT_OP_SIZE
  iv_size : o.size .iv = IV_SIZE
  beyond : ∀ i < 12, sp.readable (o.addr .sess + SES_OFF + i) = true

variable {o : Objects Name} {sp : Space} {vals : Name → List Byte} {files : Nat → Option (Nat → Option Session)}
  {m : Process} {v : View} {cipher : CipherOf} {minor : Nat} {random : Prop}

theorem At.length (hm : At o sp vals files m v) (x : Name) : (vals x).length = o.size x := by
  rw [← hm.vals x, Objects.val_length]

theorem At.read (hm : At o sp vals files m v) (x : Name) (off n : Nat) (h : off + n ≤ o.size x) :
    m.space.read m.user (o.addr x + off) n = ((vals x).drop off).take n := by
  rw [hm.space, o.read_part m.user x off n h, hm.vals]

theorem At.read_all (hm : At o sp vals files m v) (x : Name) : m.space.read m.user (o.addr x) (o.size x) = vals x := by
  rw [hm.space, o.read_all, hm.vals]

theorem At.write (hl : Laid o sp) (hm : At o sp vals files m v) (x : Name) (off : Nat) (data : List Byte)
    (h : off + data.length ≤ o.size x) :
    At o sp (Function.update vals x (splice (vals x) off data)) files
      { m with user := m.space.write m.user (o.addr x + off) data } v := by
  refine ⟨hm.space, fun y => ?_, hm.files⟩
  obtain ⟨rfl, hvals, -⟩ := hm
  by_cases hy : y = x
  · subst hy
    rw [Function.update_self, ← hvals]
    exact hl.placed.val_write_self _ _ _ _ h
  · rw [Function.update_of_ne hy, ← hvals]
    exact hl.placed.val_write_other _ _ _ _ _ h hy

theorem At.readable (hl : Laid o sp) (hm : At o sp vals files m v) (x : Name) :
    Readable m (o.addr x) (o.size x) := by
  unfold Readable
  rw [hm.space, hl.placed.copyFrom_all]
  rfl

theorem At.writable (hl : Laid o sp) (hm : At o sp vals files m v) (x : Name) :
    Writable m (o.addr x) (o.size x) := by
  intro i hi
  rw [hm.space]
  exact hl.placed.writable x i hi

section Rules

theorem meets_store {Q : Unit → Process → View → Prop} (hl : Laid o sp) (hm : At o sp vals files m v) (x : Name)
    (off : Nat) (data : List Byte) (h : off + data.length ≤ o.size x)
    (hpost : ∀ m', At o sp (Function.update vals x (splice (vals x) off data)) files m' v → Q () m' v) :
    (store o x off data).Meets (contract cipher minor random) Q m v :=
  hpost _ (hm.write hl x off data h)

theorem meets_load {Q : List Byte → Process → View → Prop} (hm : At o sp vals files m v) (x : Name) (off n : Nat)
    (h : off + n ≤ o.size x) (hpost : Q (((vals x).drop off).take n) m v) :
    (load o x off n).Meets (contract cipher minor random) Q m v := by
  change Q (m.space.read m.user (o.addr x + off) n) m v
  rwa [hm.read x off n h]

theorem meets_check {Q : Unit → Process → View → Prop} {c : Prop} [Decidable c] {stop : Program Unit}
    (hstop : c → stop.Meets (contract cipher minor random) Q m v) (hgo : ¬c → Q () m v) :
    (check c stop).Meets (contract cipher minor random) Q m v := by
  unfold check
  split_ifs with hc
  · exact hstop hc
  · exact hgo hc

theorem meets_quit {α : Type} {Q : α → Process → View → Prop} (status : Nat) {cfd : Int} {t : Nat → Option Session}
    (hfiles : v.files = Function.update (fun _ => none) cfd.toNat (some t)) (hfailed : v.failed = true) :
    (quit status cfd).Meets (contract cipher minor random) Q m v := by
  refine ⟨?_, fun ret m' v' h => ?_⟩
  · change (v.files cfd.toNat).isSome
    rw [hfiles, Function.update_self]
    rfl
  · obtain ⟨hkeep, -, hleft, -⟩ := h
    refine ⟨fun file => ?_, fun _ => hkeep hfailed⟩
    rw [hleft, hfiles, Function.update_idem]
    by_cases hf : file = cfd.toNat
    · subst hf
      rw [Function.update_self]
    · rw [Function.update_of_ne hf]

theorem meets_die {α : Type} {Q : α → Process → View → Prop} {cfd : Int} {t : Nat → Option Session}
    (hfiles : v.files = Function.update (fun _ => none) cfd.toNat (some t)) (hfailed : v.failed = true) :
    (die cfd).Meets (contract cipher minor random) Q m v := meets_quit 1 hfiles hfailed

-- The copy has the files, and no session in them.
theorem meets_fork {Q : Int → Process → View → Prop} (hr : random) (hm : At o sp vals files m v)
    (hchild : ∀ v', At o sp vals (fun file => (files file).map fun _ _ => none) m v' → Q 0 m v')
    (hparent : ∀ pid v', 0 < pid → At o sp vals files m v' → Q pid m v')
    (hfail : ∀ v', v'.files = files → v'.failed = true → Q (-1) m v') :
    fork.Meets (contract cipher minor random) Q m v := by
  unfold fork
  rw [Client.meets_bind]
  refine ⟨hr, fun room m' v' h => ?_⟩
  obtain ⟨-, rfl, hfiles, hneg⟩ := h
  change (if room < 0 then pure (-1) else _ : Program Int).Meets _ Q m' v'
  by_cases hroom : room < 0
  · rw [if_pos hroom]
    exact hfail v' (hfiles.trans hm.files) (hneg hroom)
  · rw [if_neg hroom, Client.meets_bind]
    intro pid
    by_cases hpid : pid = 0
    · subst hpid
      rw [if_pos rfl]
      refine hchild _ ⟨hm.space, hm.vals, ?_⟩
      simp only [contract, View.child, hfiles, hm.files]
    · rw [if_neg hpid]
      exact hparent pid v' (by omega) ⟨hm.space, hm.vals, hfiles.trans hm.files⟩

theorem meets_open {Q : Int → Process → View → Prop} (hm : At o sp vals files m v)
    (hdone : ∀ ret v', 0 ≤ ret → files ret.toNat = none →
      At o sp vals (Function.update files ret.toNat (some fun _ => none)) m v' → Q ret m v')
    (hfail : ∀ ret v', ret < 0 → v'.files = files → v'.failed = true → Q ret m v') :
    (ask (.dev (.openDev minor))).Meets (contract cipher minor random) Q m v := by
  obtain ⟨hspace, hvals, rfl⟩ := hm
  refine ⟨rfl, fun ret m' v' h => ?_⟩
  obtain ⟨-, rfl, hpos, hneg⟩ := h
  obtain hret | hret := Int.lt_or_le ret 0
  · exact hfail ret v' hret (hneg hret).1 (hneg hret).2
  · exact hdone ret v' hret (hpos hret).1 ⟨hspace, hvals, (hpos hret).2⟩

theorem meets_close {Q : Int → Process → View → Prop} {cfd : Int} {t : Nat → Option Session}
    (hm : At o sp vals files m v) (ht : files cfd.toNat = some t)
    (hdone : ∀ ret v', (v.failed = true → v'.failed = true) → (ret ≠ 0 → v'.failed = true) →
      At o sp vals (Function.update files cfd.toNat none) m v' → Q ret m v') :
    (ask (.dev (.close cfd.toNat))).Meets (contract cipher minor random) Q m v := by
  obtain ⟨hspace, hvals, rfl⟩ := hm
  refine ⟨?_, fun ret m' v' h => ?_⟩
  · change (v.files cfd.toNat).isSome
    rw [ht]
    rfl
  · obtain ⟨hkeep, rfl, hleft, hne⟩ := h
    exact hdone ret v' hkeep hne ⟨hspace, hvals, hleft⟩

theorem meets_random {Q : Int → Process → View → Prop} (hr : random) (hl : Laid o sp) (hm : At o sp vals files m v)
    (x : Name) (n : Nat) (hn : o.size x = n)
    (hdone : ∀ ret m' v' s, 0 ≤ ret → At o sp (Function.update vals x s) files m' v' → Q ret m' v')
    (hfail : ∀ ret m' v', ret < 0 → v'.files = files → v'.failed = true → Q ret m' v') :
    (ask (.random (o.addr x) n)).Meets (contract cipher minor random) Q m v := by
  subst hn
  refine ⟨⟨hr, hm.writable hl x⟩, fun ret m' v' h => ?_⟩
  obtain ⟨-, hsame, hneg, hpos⟩ := h
  obtain hret | hret := Int.lt_or_le ret 0
  · exact hfail ret m' v' hret (hsame.trans hm.files) (hneg hret)
  · obtain ⟨bytes, hlen, rfl⟩ := hpos hret
    obtain ⟨hspace, hvals, -⟩ := hm.write hl x 0 bytes (by omega)
    exact hdone ret _ v' _ hret ⟨hspace, hvals, hsame.trans hm.files⟩

theorem meets_gsession {Q : Int → Process → View → Prop} {cfd : Int} {t : Nat → Option Session} (hl : Laid o sp)
    (hm : At o sp vals files m v) (ht : files cfd.toNat = some t)
    (hkey : (SessionOp.parse (vals .sess)).key = o.addr .key)
    (hkeylen : (SessionOp.parse (vals .sess)).keylen = o.size .key)
    (hmac : (SessionOp.parse (vals .sess)).mac = 0)
    (hdone : ∀ ses m' v' s, ((s.drop SES_OFF).take 4 : List Byte) = le 4 ses → ses < 2 ^ 32 →
      At o sp (Function.update vals .sess s) (Function.update files cfd.toNat (some
        (Function.update t ses (some ⟨(SessionOp.parse (vals .sess)).cipher, 0, vals .key, []⟩)))) m' v' → Q 0 m' v')
    (hfail : ∀ ret m' v', ret ≠ 0 → v'.files = files → v'.failed = true → Q ret m' v') :
    (ioctl cfd CIOCGSESSION (o.addr .sess)).Meets (contract cipher minor random) Q m v := by
  have hop : sessionOp m (o.addr .sess) = SessionOp.parse (vals .sess) := by
    rw [sessionOp, ← hl.sess_size, hm.read_all]
  have hread : m.space.read m.user (o.addr .key) (o.size .key) = vals .key := hm.read_all .key
  have hsess := hm.readable hl .sess
  have hwrite := hm.writable hl .sess
  rw [hl.sess_size] at hsess hwrite
  refine ⟨⟨t, by rw [hm.files, ht], .inl ⟨rfl, hsess, ?_, by rw [hop, hmac], hwrite⟩⟩, fun ret m' v' h => ?_⟩
  · rw [hop, hkey, hkeylen]
    exact hm.readable hl .key
  · obtain ⟨-, hspace, hne, hzero⟩ := h
    by_cases hret : ret = 0
    · subst hret
      obtain ⟨hbeside, ses, hlt, -, hses, hfiles⟩ := (hzero t (by rw [hm.files, ht]) rfl).1 rfl
      have hin : SES_OFF + 4 ≤ o.size .sess := by
        rw [hl.sess_size]
        decide
      rw [o.read_part m'.user .sess SES_OFF 4 hin] at hses
      refine hdone ses m' v' (o.val m.space m'.user .sess) hses hlt ⟨hspace.trans hm.space, fun y => ?_, ?_⟩
      · by_cases hy : y = .sess
        · subst hy
          rw [Function.update_self, hm.space]
        · rw [Function.update_of_ne hy, ← hm.vals y]
          refine hl.placed.val_congr m.user .sess y m'.user hy fun q hq => hbeside q ?_
          rwa [hm.space, ← hl.sess_size]
      · rw [hfiles, hm.files, sessionAt, hop, hkey, hkeylen, hread]
    · exact hfail ret m' v' hret ((hne hret).1.trans hm.files) (hne hret).2

theorem meets_crypt {Q : Int → Process → View → Prop} {cfd : Int} {t : Nat → Option Session} {x y : Name}
    {session : Session} (hl : Laid o sp) (hm : At o sp vals files m v) (ht : files cfd.toNat = some t) (op : CryptOp)
    (hop : CryptOp.parse (vals .cryp) = op) (hsrc : op.src = o.addr x) (hsrclen : o.size x = op.len)
    (hdst : op.dst = o.addr y) (hdstlen : o.size y = op.len) (hiv : op.iv = o.addr .iv) (hmac : op.mac = 0)
    (hflags : op.flags = 0) (hses : t op.ses = some session)
    (hdone : ∀ m' v', (cipher session op.op (vals .iv) (vals x)).length = op.len →
      At o sp (Function.update vals y (cipher session op.op (vals .iv) (vals x))) files m' v' → Q 0 m' v')
    (hfail : ∀ ret m' v', ret ≠ 0 → v'.files = files → v'.failed = true → Q ret m' v') :
    (ioctl cfd CIOCCRYPT (o.addr .cryp)).Meets (contract cipher minor random) Q m v := by
  have hcryp : cryptOp m (o.addr .cryp) = op := by
    rw [cryptOp, ← hl.cryp_size, hm.read_all, hop]
  have hread : m.space.read m.user (o.addr x) op.len = vals x := by
    rw [← hsrclen]
    exact hm.read_all x
  have hreadiv : m.space.read m.user (o.addr .iv) IV_SIZE = vals .iv := by
    rw [← hl.iv_size]
    exact hm.read_all .iv
  have hcrypr := hm.readable hl .cryp
  have hsrcr := hm.readable hl x
  have hivr := hm.readable hl .iv
  have hwrite := hm.writable hl y
  rw [hl.cryp_size] at hcrypr
  rw [hsrclen] at hsrcr
  rw [hl.iv_size] at hivr
  rw [hdstlen] at hwrite
  refine ⟨⟨t, by rw [hm.files, ht], .inr (.inl ?_)⟩, fun ret m' v' h => ?_⟩
  · rw [hcryp, hsrc, hdst, hiv, hmac, hflags, hses]
    exact ⟨rfl, hcrypr, hsrcr, hivr, rfl, rfl, hwrite, rfl⟩
  · obtain ⟨-, hspace, hne, hzero⟩ := h
    by_cases hret : ret = 0
    · subst hret
      have hcrypt := (hzero t (by rw [hm.files, ht]) rfl).2.1 rfl
      obtain ⟨hfiles, hout⟩ := hcrypt
      have hout := hout session (by rw [hcryp, hses])
      dsimp only at hout
      rw [hcryp, hsrc, hdst, hiv, hread, hreadiv] at hout
      obtain ⟨hlen, huser⟩ := hout
      obtain ⟨-, hvals', -⟩ := hm.write hl y 0 (cipher session op.op (vals .iv) (vals x))
        (Nat.le_of_eq (by rw [hlen, hdstlen, Nat.zero_add]))
      rw [Lib.splice_all _ _ (by rw [hlen, hm.length, hdstlen])] at hvals'
      refine hdone m' v' hlen ⟨hspace.trans hm.space, fun z => ?_, hfiles.trans hm.files⟩
      rw [huser]
      exact hvals' z
    · exact hfail ret m' v' hret ((hne hret).1.trans hm.files) (hne hret).2

theorem meets_fsession {Q : Int → Process → View → Prop} {cfd : Int} {t : Nat → Option Session} (hl : Laid o sp)
    (hm : At o sp vals files m v) (ht : files cfd.toNat = some t) (ses : Nat)
    (hses : ((vals .sess).drop SES_OFF).take 4 = le 4 ses) (hlt : ses < 2 ^ 32) (hown : (t ses).isSome)
    (hdone : ∀ v', At o sp vals (Function.update files cfd.toNat (some (Function.update t ses none))) m v' → Q 0 m v')
    (hfail : ∀ ret m' v', ret ≠ 0 → v'.files = files → v'.failed = true → Q ret m' v') :
    (ioctl cfd CIOCFSESSION (o.addr .sess + SES_OFF)).Meets (contract cipher minor random) Q m v := by
  have hread : fromLe (m.space.read m.user (o.addr .sess + SES_OFF) 4) = ses := by
    rw [hm.read .sess SES_OFF 4 (by rw [hl.sess_size]; decide), hses, Lib.fromLe_le]
    exact Nat.mod_eq_of_lt hlt
  have hbeyond : Readable m (o.addr .sess + SES_OFF) 12 := by
    unfold Readable Space.copyFrom
    rw [if_pos]
    · rfl
    · rw [List.all_eq_true]
      intro i hi
      rw [hm.space]
      exact hl.beyond i (List.mem_range.mp hi)
  refine ⟨⟨t, by rw [hm.files, ht], .inr (.inr ⟨rfl, hbeyond, by rwa [hread]⟩)⟩, fun ret m' v' h => ?_⟩
  obtain ⟨-, hspace, hne, hzero⟩ := h
  by_cases hret : ret = 0
  · subst hret
    obtain ⟨rfl, hfiles⟩ := (hzero t (by rw [hm.files, ht]) rfl).2.2 rfl
    rw [hread, hm.files] at hfiles
    exact hdone v' ⟨hm.space, hm.vals, hfiles⟩
  · exact hfail ret m' v' hret ((hne hret).1.trans hm.files) (hne hret).2

end Rules

end Assertions

section Pages

-- Objects on pages of their own.
def pages (keySize size : Nat) : Objects Name where
  addr := fun x => (x.ctorIdx + 1) * 0x10000
  size := fun
    | .sess => SESSION_OP_SIZE
    | .cryp => CRYPT_OP_SIZE
    | .iv => IV_SIZE
    | .key => keySize
    | _ => size

theorem pages_size (keySize size : Nat) (hkey : keySize ≤ 0x10000) (hsize : size ≤ 0x10000) (x : Name) :
    (pages keySize size).size x ≤ 0x10000 := by
  cases x with
  | sess | cryp | iv => exact Nat.le_of_ble_eq_true rfl
  | key => exact hkey
  | input | encrypted | decrypted | buffer => exact hsize

theorem pages_laid (keySize size : Nat) (hkey : keySize ≤ 0x10000) (hsize : size ≤ 0x10000) :
    Laid (pages keySize size) flat where
  placed := by
    refine ⟨fun x i y j hi hj he => ?_, fun _ _ _ => rfl, fun _ _ _ => rfl⟩
    have hx := pages_size keySize size hkey hsize x
    have hy := pages_size keySize size hkey hsize y
    have hsum : (x.ctorIdx + 1) * 0x10000 + i = (y.ctorIdx + 1) * 0x10000 + j := congrArg Lib.Loc.off he
    have hidx : x.ctorIdx = y.ctorIdx := by omega
    refine ⟨?_, by omega⟩
    cases x <;> cases y <;> first | rfl | cases hidx
  addr_lt := by
    intro x
    have hidx : x.ctorIdx < 8 := by
      cases x <;> decide
    simp only [pages]
    omega
  sess_size := rfl
  cryp_size := rfl
  iv_size := rfl
  beyond := fun _ _ => rfl

end Pages

end CryptodevChat.User
