import CryptodevChat.Virtio.Ledger
import CryptodevChat.Virtio.Refers

namespace CryptodevChat.Virtio

open Lib (Byte Loc Mem le fromLe leInt fromLeInt)

section Accounts

-- What a call is about: its objects, its file, and the descriptor that is held for the file.
structure Local where
  mem : Mem Byte
  sizes : List Nat
  file : Option Crof
  held : Option Int

-- Where the request of a call is.
inductive Req
  | before
  | sent (elem : VirtQueueElement)
  | after

def Req.Settled (r : Req) : Prop := ∀ elem, r ≠ .sent elem

-- A file says which descriptor is held for it.
structure Agree (file : Option Crof) (held : Option Int) : Prop where
  range : ∀ crof, file = some crof → -0x80000000 ≤ crof.hostFd ∧ crof.hostFd < 0x80000000
  held : held = file.bind fun crof => desc crof.hostFd

-- A request that the backend may serve: an open of a file that holds nothing,
-- a close of what the file holds, or an ioctl on it.
def Local.Serves (l : Local) (sole : Bool) (elem : VirtQueueElement) (next : Local → Prop) : Prop :=
  (elem.syscallType l.mem = VIRTIO_CRYPTO_SYSCALL_TYPE_OPEN ∧ sole = true ∧ l.held = none ∧
    ∀ fd : Int, -0x80000000 ≤ fd → fd < 0x80000000 →
      next { l with mem := Mem.store l.mem (elem.inSg 0).base (leInt fd), held := desc fd }) ∨
  (elem.syscallType l.mem = VIRTIO_CRYPTO_SYSCALL_TYPE_CLOSE ∧ sole = true ∧
    l.held = desc (elem.hostFd l.mem) ∧ next { l with held := none }) ∨
  (elem.syscallType l.mem = VIRTIO_CRYPTO_SYSCALL_TYPE_IOCTL ∧
    (∀ f q fd, Popped.target ⟨f, q, elem, l.mem⟩ = some fd → l.held = desc fd) ∧
    ∀ mem, next { l with mem })

-- An open and a release have their file for themselves.
def Syscall.sole : Syscall → Bool
  | .openDev _ => true
  | .ioctl _ _ => false
  | .release => true

-- What is left of a call keeps the account of its file. Only a call that has
-- the file for itself changes it, and such a call never ends in an oops.
def Prog.Accounts {α : Type} (sole : Bool) (post : α → Local → Req → Prop) :
    Prog α → Local → Req → Prop
  | .ret a, l, r => post a l r
  | .oops, _, r => sole = false ∧ r.Settled
  | .kmalloc size zeroed next, l, r =>
      (next (some l.sizes.length)).Accounts sole post
        { l with
          sizes := l.sizes ++ [size]
          mem := if zeroed then Mem.fill l.mem l.sizes.length 0 else l.mem } r
  | .kfree _ next, l, r => next.Accounts sole post l r
  | .put block off data next, l, r =>
      next.Accounts sole post { l with mem := Mem.store l.mem ⟨block, off⟩ data } r
  | .get block off n next, l, r => (next (Mem.load l.mem ⟨block, off⟩ n)).Accounts sole post l r
  | .loadUser _ _ next, l, r =>
      (sole = false ∧ r.Settled) ∧ ∀ data, (next data).Accounts sole post l r
  | .copyFromUser block _ _ next, l, r =>
      (next false).Accounts sole post l r ∧
      ∀ data, (next true).Accounts sole post { l with mem := Mem.store l.mem ⟨block, 0⟩ data } r
  | .copyToUser _ _ _ next, l, r => ∀ ok, (next ok).Accounts sole post l r
  | .nonseekableOpen next, l, r => ∀ ret ≤ 0, (next ret).Accounts sole post l r
  | .findDev _ next, l, r => ∀ crdev, (next crdev).Accounts sole post l r
  | .newCrof crof next, l, r =>
      sole = true ∧ (next true).Accounts sole post { l with file := some crof } r
  | .getCrof next, l, r => ∀ crof, l.file = some crof → (next crof).Accounts sole post l r
  | .setHostFd fd next, l, r =>
      sole = true ∧ next.Accounts sole post
        { l with file := l.file.map fun crof => { crof with hostFd := fd } } r
  | .freeCrof next, l, r => sole = true ∧ next.Accounts sole post { l with file := none } r
  | .spinLock next, l, r => next.Accounts sole post l r
  | .spinUnlock next, l, r => next.Accounts sole post l r
  | .addSgs _ sgs numOut numIn next, l, r =>
      r = .before ∧ next.Accounts sole post l (.sent (toElement sgs numOut numIn))
  | .kick _ next, l, r => next.Accounts sole post l r
  | .getBuf _ next, l, r =>
      match r with
      | .before => False
      | .sent elem => l.Serves sole elem fun l => next.Accounts sole post l .after
      | .after => next.Accounts sole post l .after

-- A whole call, which leaves its file in agreement with the ledger.
abbrev Prog.Balances (prog : Prog Int) (sole : Bool) : Local → Req → Prop :=
  prog.Accounts sole fun _ l r => Agree l.file l.held ∧ r.Settled

theorem Local.Serves.mono {l : Local} {sole : Bool} {elem : VirtQueueElement} {P Q : Local → Prop}
    (h : l.Serves sole elem P) (hPQ : ∀ l', P l' → Q l') : l.Serves sole elem Q := by
  obtain ⟨ho, hsole, hheld, hnext⟩ | ⟨hc, hsole, hheld, hnext⟩ | ⟨hi, htarget, hnext⟩ := h
  · exact .inl ⟨ho, hsole, hheld, fun fd hlo hhi => hPQ _ (hnext fd hlo hhi)⟩
  · exact .inr (.inl ⟨hc, hsole, hheld, hPQ _ hnext⟩)
  · exact .inr (.inr ⟨hi, htarget, fun mem => hPQ _ (hnext mem)⟩)

theorem accounts_then {α β : Type} {sole : Bool} {post : β → Local → Req → Prop}
    (mid : α → Local → Req → Prop) (x : Prog α) (f : α → Prog β) (l : Local) (r : Req)
    (hx : x.Accounts sole mid l r) (hf : ∀ a l r, mid a l r → (f a).Accounts sole post l r) :
    (x >>= f).Accounts sole post l r := by
  change (x.bind f).Accounts sole post l r
  induction x generalizing l r with
  | ret a => exact hf a l r hx
  | oops => exact hx
  | kmalloc _ _ _ ih | get _ _ _ _ ih => exact ih _ _ _ hx
  | kfree _ _ ih | put _ _ _ _ ih | spinLock _ ih | spinUnlock _ ih | kick _ _ ih => exact ih _ _ hx
  | loadUser _ _ _ ih => exact ⟨hx.1, fun data => ih data _ _ (hx.2 data)⟩
  | copyFromUser _ _ _ _ ih => exact ⟨ih _ _ _ hx.1, fun data => ih _ _ _ (hx.2 data)⟩
  | copyToUser _ _ _ _ ih | findDev _ _ ih => exact fun a => ih a _ _ (hx a)
  | nonseekableOpen _ ih | getCrof _ ih => exact fun a ha => ih a _ _ (hx a ha)
  | newCrof _ _ ih => exact ⟨hx.1, ih _ _ _ hx.2⟩
  | setHostFd _ _ ih | freeCrof _ ih | addSgs _ _ _ _ _ ih => exact ⟨hx.1, ih _ _ hx.2⟩
  | getBuf _ _ ih =>
      cases r with
      | before => exact hx.elim
      | sent elem =>
          simp only [Prog.Accounts] at hx
          exact hx.mono fun l hl => ih l .after hl
      | after => exact ih _ _ hx

-- A part of an ioctl that has nothing to do with files.
theorem Prog.Apart.accounts {α : Type} {x : Prog α} (hx : x.Apart) {post : α → Local → Req → Prop}
    (l : Local) {r : Req} (hr : r.Settled)
    (hpost : ∀ a mem sizes, post a { l with mem, sizes } r) : x.Accounts false post l r := by
  induction x generalizing l with
  | ret a => exact hpost a l.mem l.sizes
  | oops => exact ⟨rfl, hr⟩
  | kmalloc _ _ _ ih | get _ _ _ _ ih => exact ih _ (hx _) _ hpost
  | kfree _ _ ih | put _ _ _ _ ih => exact ih hx _ hpost
  | loadUser _ _ _ ih => exact ⟨⟨rfl, hr⟩, fun data => ih data (hx data) _ hpost⟩
  | copyFromUser _ _ _ _ ih => exact ⟨ih _ (hx _) _ hpost, fun data => ih _ (hx _) _ hpost⟩
  | copyToUser _ _ _ _ ih => exact fun a => ih a (hx a) _ hpost
  | nonseekableOpen _ ih => exact fun a _ => ih a (hx a) _ hpost
  | findDev | newCrof | getCrof | setHostFd | freeCrof | spinLock | spinUnlock | addSgs | kick
  | getBuf => exact hx.elim

end Accounts

section Services

variable {α : Type} {sole : Bool} {post : α → Local → Req → Prop} {l : Local} {r : Req}

theorem accounts_kzalloc {f : Ptr → Prog α} (size : Nat)
    (h : (f (some l.sizes.length)).Accounts sole post
      { l with sizes := l.sizes ++ [size], mem := Mem.fill l.mem l.sizes.length 0 } r) :
    (kzalloc size >>= f).Accounts sole post l r := h

theorem accounts_kfree {f : Unit → Prog α} (p : Ptr) (h : (f ()).Accounts sole post l r) :
    (kfree p >>= f).Accounts sole post l r := h

theorem accounts_store {f : Unit → Prog α} (block : Nat) (data : List Byte)
    (h : (f ()).Accounts sole post { l with mem := Mem.store l.mem ⟨block, 0⟩ data } r) :
    (store (some block) data >>= f).Accounts sole post l r := h

theorem accounts_load {f : List Byte → Prog α} (block off n : Nat)
    (h : (f (Mem.load l.mem ⟨block, off⟩ n)).Accounts sole post l r) :
    (load (some block) off n >>= f).Accounts sole post l r := h

theorem accounts_sgInitOne {f : Sg → Prog α} (block len : Nat)
    (h : (f ⟨block, len⟩).Accounts sole post l r) :
    (sgInitOne (some block) len >>= f).Accounts sole post l r := h

theorem accounts_nonseekableOpen {f : Int → Prog α}
    (h : ∀ ret ≤ 0, (f ret).Accounts sole post l r) :
    (nonseekableOpen >>= f).Accounts sole post l r := h

theorem accounts_lookup {f : Option Nat → Prog α} (minor : Nat)
    (h : ∀ crdev, (f crdev).Accounts sole post l r) :
    (getCryptoDevByMinor minor >>= f).Accounts sole post l r := h

theorem accounts_getCrof {f : Crof → Prog α}
    (h : ∀ crof, l.file = some crof → (f crof).Accounts sole post l r) :
    (getCrof >>= f).Accounts sole post l r := h

theorem accounts_newCrof {f : Bool → Prog α} (crof : Crof)
    (h : (f true).Accounts true post { l with file := some crof } r) :
    (newCrof crof >>= f).Accounts true post l r := ⟨rfl, h⟩

theorem accounts_setHostFd {f : Unit → Prog α} (fd : Int)
    (h : (f ()).Accounts true post
      { l with file := l.file.map fun crof => { crof with hostFd := fd } } r) :
    (setHostFd fd >>= f).Accounts true post l r := ⟨rfl, h⟩

theorem accounts_freeCrof {f : Unit → Prog α}
    (h : (f ()).Accounts true post { l with file := none } r) :
    (freeCrof >>= f).Accounts true post l r := ⟨rfl, h⟩

theorem accounts_submit {f : Unit → Prog α} (v : Nat) (sgs : List Sg) (numOut numIn : Nat)
    (h : l.Serves sole (toElement sgs numOut numIn) fun l => (f ()).Accounts sole post l .after) :
    (submit v sgs numOut numIn >>= f).Accounts sole post l .before := ⟨rfl, h⟩

end Services

section Driver

theorem settled_before : Req.before.Settled := fun _ h => nomatch h
theorem settled_after : Req.after.Settled := fun _ h => nomatch h

theorem agree_some (crof : Crof) (hlo : -0x80000000 ≤ crof.hostFd) (hhi : crof.hostFd < 0x80000000) :
    Agree (some crof) (desc crof.hostFd) where
  range := by
    rintro _ ⟨⟩
    exact ⟨hlo, hhi⟩
  held := rfl

theorem agree_none : Agree none none := ⟨fun _ hcrof => (nomatch hcrof), rfl⟩

-- The first entry of a request names its type, and the second one, except in
-- an open, the descriptor.
theorem syscallType_eq (m : Mem Byte) (sg : Sg) (sgs : List Sg) (numOut numIn ty : Nat)
    (hty : ty < 0x100000000) (hload : Mem.load m ⟨sg.block, 0⟩ 4 = le 4 ty) :
    (toElement (sg :: sgs) numOut numIn).syscallType m = ty := by
  change fromLe (Mem.load m ⟨sg.block, 0⟩ 4) = ty
  rw [hload, Lib.fromLe_le]
  omega

theorem hostFd_eq (m : Mem Byte) (sg sg' : Sg) (sgs : List Sg) (numOut numIn : Nat) (fd : Int)
    (hlo : -0x80000000 ≤ fd) (hhi : fd < 0x80000000)
    (hload : Mem.load m ⟨sg'.block, 0⟩ 4 = leInt fd) :
    (toElement (sg :: sg' :: sgs) numOut numIn).hostFd m = fd := by
  change fromLeInt (Mem.load m ⟨sg'.block, 0⟩ 4) = fd
  rw [hload, Lib.fromLeInt_leInt fd hlo hhi]

-- An open starts with nothing, and ends with what the host gave, if anything.
theorem open_balances (minor : Nat) (mem : Mem Byte) :
    (cryptoChrdevOpen minor).Balances true ⟨mem, [], none, none⟩ .before := by
  unfold cryptoChrdevOpen
  refine accounts_kzalloc _ (accounts_kzalloc _ (accounts_store _ _ (accounts_store _ _ ?_)))
  refine accounts_nonseekableOpen fun ret _ => ?_
  split_ifs
  · exact ⟨agree_none, settled_before⟩
  refine accounts_lookup minor fun crdev => ?_
  cases crdev with
  | none => exact ⟨agree_none, settled_before⟩
  | some crdev =>
      refine accounts_newCrof _ (accounts_sgInitOne _ _ (accounts_sgInitOne _ _ ?_))
      refine accounts_submit _ _ _ _ (.inl ⟨?_, rfl, rfl, fun fd hlo hhi => ?_⟩)
      · refine syscallType_eq _ _ _ _ _ _ (by decide) ?_
        rw [Mem.load_store_block _ _ _ _ _ (by simp), Mem.load_store _ _ _ _ (by simp)]
        rfl
      refine accounts_load _ _ _ (accounts_setHostFd _ (accounts_kfree _ (accounts_kfree _ ?_)))
      -- The backend wrote the number into the object that is read here.
      have hagree : ∀ m : Mem Byte, Agree
          (some ⟨crdev, fromLeInt (Mem.load (Mem.store m ⟨1, 0⟩ (leInt fd)) ⟨1, 0⟩ 4)⟩) (desc fd) := by
        intro m
        rw [Mem.load_store _ _ _ _ (by simp), Lib.fromLeInt_leInt fd hlo hhi]
        exact agree_some ⟨crdev, fd⟩ hlo hhi
      exact ⟨hagree _, settled_after⟩

-- A release closes what the file holds.
theorem release_balances (l : Local) (hl : Agree l.file l.held) (hsizes : l.sizes = []) :
    cryptoChrdevRelease.Balances true l .before := by
  unfold cryptoChrdevRelease
  refine accounts_getCrof fun crof hcrof => ?_
  obtain ⟨hlo, hhi⟩ := hl.range crof hcrof
  have hheld := hl.held
  obtain ⟨mem, sizes, file, held⟩ := l
  dsimp only at hsizes hcrof hheld
  subst hsizes hcrof hheld
  refine accounts_kzalloc _ (accounts_store _ _ (accounts_kzalloc _ (accounts_store _ _ ?_)))
  refine accounts_sgInitOne _ _ (accounts_sgInitOne _ _ ?_)
  refine accounts_submit _ _ _ _ (.inr (.inl ⟨?_, rfl, ?_, ?_⟩))
  · refine syscallType_eq _ _ _ _ _ _ (by decide) ?_
    rw [Mem.load_store_block _ _ _ _ _ (by simp), Mem.load_fill_other _ _ _ _ _ (by simp)]
    rw [Mem.load_store _ _ _ _ (by simp)]
    rfl
  · rw [hostFd_eq _ _ _ _ _ _ crof.hostFd hlo hhi]
    · rfl
    · exact Mem.load_store _ _ _ _ (by simp)
  · refine accounts_freeCrof (accounts_kfree _ (accounts_kfree _ ?_))
    exact ⟨agree_none, settled_after⟩

end Driver

section Ioctl

-- The header of an ioctl: its type, and the descriptor of its file.
structure Local.Header (l : Local) (crof : Crof) : Prop where
  agree : Agree l.file l.held
  file : l.file = some crof
  sizes : 4 ≤ l.sizes.length
  type : Mem.load l.mem ⟨0, 0⟩ 4 = le 4 VIRTIO_CRYPTO_SYSCALL_IOCTL
  hostFd : Mem.load l.mem ⟨1, 0⟩ 4 = leInt crof.hostFd

-- The objects of a command come after the four of the header.
def Ptr.Later (p : Ptr) : Prop := ∀ block ∈ p, 4 ≤ block

def Objects.Later (o : Objects) : Prop :=
  ∀ p ∈ [o.sessionOp, o.sessionKey, o.sesId, o.cryptOp, o.src, o.iv, o.dst], Ptr.Later p

-- A part of an ioctl that leaves the header alone, with what it says of its result.
def Prog.Carries {α : Type} (x : Prog α) (crof : Crof) (Q : α → Prop) : Prop :=
  ∀ l : Local, l.Header crof →
    x.Accounts false (fun a l r => l.Header crof ∧ r = .before ∧ Q a) l .before

variable {α β : Type} {crof : Crof}

theorem Local.Header.same {l : Local} (hl : l.Header crof) (m : Mem Byte) (sizes : List Nat)
    (hsizes : l.sizes.length ≤ sizes.length)
    (hmem : ∀ block < 4, Mem.load m ⟨block, 0⟩ 4 = Mem.load l.mem ⟨block, 0⟩ 4) :
    Local.Header { l with mem := m, sizes } crof where
  agree := hl.agree
  file := hl.file
  sizes := Nat.le_trans hl.sizes hsizes
  type := (hmem 0 (by decide)).trans hl.type
  hostFd := (hmem 1 (by decide)).trans hl.hostFd

theorem carries_pure {Q : α → Prop} (a : α) (h : Q a) : (pure a : Prog α).Carries crof Q :=
  fun _ hl => ⟨hl, rfl, h⟩

theorem Prog.Carries.bind {Q : α → Prop} {Q' : β → Prop} {x : Prog α} {f : α → Prog β}
    (hx : x.Carries crof Q) (hf : ∀ a, Q a → (f a).Carries crof Q') : (x >>= f).Carries crof Q' := by
  intro l hl
  refine accounts_then _ x f l .before (hx l hl) ?_
  rintro a l' r ⟨hl', rfl, ha⟩
  exact hf a ha l' hl'

theorem carries_kzalloc (size : Nat) : (kzalloc size).Carries crof Ptr.Later := by
  intro l hl
  refine ⟨hl.same _ _ (by simp) fun block hblock => ?_, rfl, ?_⟩
  · have hsizes := hl.sizes
    exact Mem.load_fill_other _ _ _ _ _ (by dsimp only; omega)
  · rintro block ⟨⟩
    exact hl.sizes

theorem carries_kmalloc (size : Nat) : (kmalloc size).Carries crof Ptr.Later := by
  intro l hl
  refine ⟨hl.same _ _ (by simp) fun block hblock => rfl, rfl, ?_⟩
  rintro block ⟨⟩
  exact hl.sizes

theorem carries_loadUser (addr n : Nat) : (loadUser addr n).Carries crof fun _ => True :=
  fun _ hl => ⟨⟨rfl, settled_before⟩, fun _ => ⟨hl, rfl, trivial⟩⟩

theorem carries_load (p : Ptr) (off n : Nat) : (load p off n).Carries crof fun _ => True := by
  cases p with
  | none => exact fun _ _ => ⟨rfl, settled_before⟩
  | some block => exact fun _ hl => ⟨hl, rfl, trivial⟩

theorem carries_copyFromUser (p : Ptr) (addr n : Nat) (hp : p.Later) :
    (copyFromUser p addr n).Carries crof fun _ => True := by
  cases p with
  | none => exact fun _ _ => ⟨rfl, settled_before⟩
  | some block =>
      intro l hl
      refine ⟨⟨hl, rfl, trivial⟩, fun data => ⟨?_, rfl, trivial⟩⟩
      refine hl.same _ _ (Nat.le_refl _) fun block' hblock' => ?_
      have hblock := hp block rfl
      exact Mem.load_store_block _ _ _ _ _ (by dsimp only; omega)

theorem carries_sgInitOne (p : Ptr) (len : Nat) (hp : p.Later) :
    (sgInitOne p len).Carries crof fun sg => 4 ≤ sg.block := by
  cases p with
  | none => exact fun _ _ => ⟨rfl, settled_before⟩
  | some block => exact fun _ hl => ⟨hl, rfl, hp block rfl⟩

theorem allocObjects_carries (arg : Nat) : (allocObjects arg).Carries crof Objects.Later := by
  unfold allocObjects
  refine (carries_kzalloc _).bind fun sessionOp hsessionOp => ?_
  refine (carries_loadUser _ _).bind fun keylen _ => ?_
  refine (carries_kmalloc _).bind fun sessionKey hsessionKey => ?_
  refine (carries_kzalloc _).bind fun sesId hsesId => ?_
  refine (carries_kzalloc _).bind fun cryptOp hcryptOp => ?_
  refine (carries_loadUser _ _).bind fun len _ => (carries_kzalloc _).bind fun src hsrc => ?_
  refine (carries_kzalloc _).bind fun iv hiv => (carries_loadUser _ _).bind fun len _ => ?_
  refine (carries_kzalloc _).bind fun dst hdst => carries_pure _ ?_
  simp only [Objects.Later, List.forall_mem_cons, List.not_mem_nil, false_implies, implies_true]
  exact ⟨hsessionOp, hsessionKey, hsesId, hcryptOp, hsrc, hiv, hdst, trivial⟩

def Later (r : Option (List Sg × List Sg)) : Prop :=
  ∀ lists ∈ r, ∀ sg ∈ lists.1 ++ lists.2, 4 ≤ sg.block

theorem cmdSgs_carries (cmd arg : Nat) (o : Objects) (ho : o.Later) :
    (cmdSgs cmd arg o).Carries crof Later := by
  have hnone : Later none := fun _ h => nomatch h
  have hsome : ∀ outSgs inSgs, (∀ sg ∈ outSgs ++ inSgs, 4 ≤ sg.block) →
      Later (some (outSgs, inSgs)) := by
    rintro outSgs inSgs h _ ⟨⟩
    exact h
  simp only [Objects.Later, List.forall_mem_cons, List.not_mem_nil, false_implies, implies_true,
    and_true] at ho
  obtain ⟨hsessionOp, hsessionKey, hsesId, hcryptOp, hsrc, hiv, hdst⟩ := ho
  unfold cmdSgs
  split_ifs
  · refine (carries_copyFromUser _ _ _ hsessionOp).bind fun ok _ => ?_
    cases ok with
    | false => exact carries_pure _ hnone
    | true =>
        refine (carries_loadUser _ _).bind fun key _ => (carries_loadUser _ _).bind fun keylen _ => ?_
        refine (carries_copyFromUser _ _ _ hsessionKey).bind fun ok _ => ?_
        cases ok with
        | false => exact carries_pure _ hnone
        | true =>
            refine (carries_load _ _ _).bind fun copied _ => ?_
            refine (carries_sgInitOne _ _ hsessionKey).bind fun sessionKeySg hkey => ?_
            refine (carries_sgInitOne _ _ hsessionOp).bind fun sessionOpSg hop => ?_
            exact carries_pure _ (hsome _ _ (by simp [hkey, hop]))
  · refine (carries_copyFromUser _ _ _ hsesId).bind fun ok _ => ?_
    cases ok with
    | false => exact carries_pure _ hnone
    | true =>
        refine (carries_sgInitOne _ _ hsesId).bind fun sesIdSg hses => ?_
        exact carries_pure _ (hsome _ _ (by simp [hses]))
  · refine (carries_copyFromUser _ _ _ hcryptOp).bind fun ok _ => ?_
    cases ok with
    | false => exact carries_pure _ hnone
    | true =>
        refine (carries_loadUser _ _).bind fun src _ => (carries_loadUser _ _).bind fun len _ => ?_
        refine (carries_copyFromUser _ _ _ hsrc).bind fun ok _ => ?_
        cases ok with
        | false => exact carries_pure _ hnone
        | true =>
            refine (carries_loadUser _ _).bind fun iv _ => ?_
            refine (carries_copyFromUser _ _ _ hiv).bind fun ok _ => ?_
            cases ok with
            | false => exact carries_pure _ hnone
            | true =>
                refine (carries_sgInitOne _ _ hcryptOp).bind fun cryptOpSg hop => ?_
                refine (carries_load _ _ _).bind fun copied _ => ?_
                refine (carries_sgInitOne _ _ hsrc).bind fun srcSg hs => ?_
                refine (carries_sgInitOne _ _ hiv).bind fun ivSg hi => ?_
                refine (carries_sgInitOne _ _ hdst).bind fun dstSg hd => ?_
                exact carries_pure _ (hsome _ _ (by simp [hop, hs, hi, hd]))
  · exact carries_pure _ (hsome [] [] (by simp))

theorem allocCommon_header (cmd : Nat) (l : Local) (hl : Agree l.file l.held) (hsizes : l.sizes = []) :
    (allocCommon cmd).Accounts false (fun c l r => r = .before ∧ ∃ crof, l.Header crof ∧
      c.hostReturnVal = some 3 ∧ c.sgs = [⟨0, 4⟩, ⟨1, 4⟩, ⟨2, 4⟩]) l .before := by
  unfold allocCommon
  refine accounts_getCrof fun crof hcrof => ?_
  obtain ⟨mem, sizes, file, held⟩ := l
  dsimp only at hsizes hcrof
  subst hsizes hcrof
  refine accounts_kzalloc _ (accounts_store _ _ (accounts_kzalloc _ (accounts_store _ _ ?_)))
  refine accounts_kzalloc _ (accounts_store _ _ (accounts_kzalloc _ ?_))
  refine accounts_sgInitOne _ _ (accounts_sgInitOne _ _ (accounts_sgInitOne _ _ ?_))
  refine ⟨rfl, crof, ⟨hl, rfl, by simp, ?_, ?_⟩, rfl, rfl⟩
  · dsimp only
    rw [Mem.load_fill_other _ _ _ _ _ (by simp), Mem.load_store_block _ _ _ _ _ (by simp)]
    rw [Mem.load_fill_other _ _ _ _ _ (by simp), Mem.load_store_block _ _ _ _ _ (by simp)]
    rw [Mem.load_fill_other _ _ _ _ _ (by simp)]
    exact Mem.load_store _ _ _ _ (by simp)
  · dsimp only
    rw [Mem.load_fill_other _ _ _ _ _ (by simp), Mem.load_store_block _ _ _ _ _ (by simp)]
    rw [Mem.load_fill_other _ _ _ _ _ (by simp)]
    exact Mem.load_store _ _ _ _ (by simp)

-- An entry after the header is not the descriptor.
theorem entry_ne_hostFd (sgs : List Sg) (h : ∀ sg ∈ sgs.drop 3, 3 ≤ sg.block) (numOut numIn : Nat)
    (hnum : 3 ≤ numOut) :
    (∀ i ≥ 3, ((toElement sgs numOut numIn).outSg i).base.block ≠ 1) ∧
    ∀ j, ((toElement sgs numOut numIn).inSg j).base.block ≠ 1 := by
  have hentry : ∀ i ≥ 3, ∀ sg, sgs[i]? = some sg → 3 ≤ sg.block := by
    intro i hi sg hsg
    refine h sg (List.mem_of_getElem? (i := i - 3) ?_)
    rw [List.getElem?_drop, Nat.add_sub_cancel' hi]
    exact hsg
  constructor
  · intro i hi
    simp only [toElement]
    cases hsg : sgs[i]? with
    | none => simp
    | some sg =>
        have hblock := hentry i hi sg hsg
        dsimp only
        omega
  · intro j
    simp only [toElement]
    cases hsg : sgs[numOut + j]? with
    | none => simp
    | some sg =>
        have hblock := hentry (numOut + j) (by omega) sg hsg
        dsimp only
        omega

-- The backend writes elsewhere before it reads the descriptor.
theorem target_eq (r : Popped)
    (hout : ∀ i ≥ 3, (r.elem.outSg i).base.block ≠ (r.elem.outSg 1).base.block)
    (hin : ∀ j, (r.elem.inSg j).base.block ≠ (r.elem.outSg 1).base.block) (fd : Int)
    (h : r.target = some fd) : fd = r.elem.hostFd r.mem := by
  have hother : ∀ (m : Mem Byte) (p : Loc) (k : Nat) (data : List Byte),
      p.block ≠ (r.elem.outSg 1).base.block →
      r.elem.hostFd (Mem.store m (p.plus k) data) = r.elem.hostFd m :=
    fun m p k data hp => congrArg fromLeInt (Mem.load_store_block _ _ _ _ _ hp)
  have hsession : r.elem.hostFd (r.elem.sessionMem r.qemu r.mem) = r.elem.hostFd r.mem :=
    hother _ _ _ _ (hin 0)
  have hcrypt : r.elem.hostFd (r.elem.cryptMem r.qemu r.mem) = r.elem.hostFd r.mem := by
    unfold VirtQueueElement.cryptMem
    dsimp only
    rw [hother _ _ _ _ (hout 3 (by decide)), hother _ _ _ _ (hout 3 (by decide)),
      hother _ _ _ _ (hout 3 (by decide))]
  unfold Popped.target at h
  rw [hsession, hcrypt] at h
  split_ifs at h <;> cases h <;> rfl

-- An ioctl uses what the file holds, and changes nothing.
theorem ioctl_balances (cmd arg : Nat) (l : Local) (hl : Agree l.file l.held) (hsizes : l.sizes = []) :
    (cryptoChrdevIoctl cmd arg).Balances false l .before := by
  unfold cryptoChrdevIoctl
  refine accounts_then _ _ _ _ _ (allocCommon_header cmd l hl hsizes) ?_
  rintro c l _ ⟨rfl, crof, hl, hret, hsgs⟩
  refine accounts_then _ _ _ _ _ (allocObjects_carries arg l hl) ?_
  rintro o l _ ⟨hl, rfl, ho⟩
  refine accounts_then _ _ _ _ _ (cmdSgs_carries cmd arg o ho l hl) ?_
  rintro (_ | ⟨outSgs, inSgs⟩) l _ ⟨hl, rfl, hlater⟩
  · exact ⟨hl.agree, settled_before⟩
  obtain ⟨hlo, hhi⟩ := hl.agree.range crof hl.file
  have hlater := hlater _ rfl
  rw [hret, hsgs]
  refine accounts_sgInitOne 3 4 (accounts_submit _ _ _ _ (.inr (.inr ⟨?_, ?_, ?_⟩)))
  · exact syscallType_eq _ _ _ _ _ _ (by decide) hl.type
  · intro f q fd htarget
    obtain ⟨hout, hin⟩ := entry_ne_hostFd ([⟨0, 4⟩, ⟨1, 4⟩, ⟨2, 4⟩] ++ outSgs ++ inSgs ++ [⟨3, 4⟩])
      (by
        intro sg hsg
        have hsg : sg ∈ outSgs ++ inSgs ∨ sg = ⟨3, 4⟩ := by simpa [or_assoc] using hsg
        obtain hsg | rfl := hsg
        · exact Nat.le_trans (by decide) (hlater sg hsg)
        · exact Nat.le_refl 3)
      (3 + outSgs.length) (inSgs.length + 1) (by omega)
    rw [target_eq _ hout hin fd htarget, hl.agree.held, hl.file]
    exact congrArg desc (hostFd_eq _ _ _ _ _ _ _ hlo hhi hl.hostFd).symm
  · intro mem
    refine (reply_apart cmd arg c o).accounts _ settled_after fun ret mem sizes => ?_
    exact ⟨hl.agree, settled_after⟩

end Ioctl

-- Only an open needs a file of its own from the start.
theorem syscall_balances (sys : Syscall) (l : Local) (hl : Agree l.file l.held) (hsizes : l.sizes = [])
    (hopen : ∀ minor, sys = .openDev minor → l.file = none) :
    sys.prog.Balances sys.sole l .before := by
  cases sys with
  | openDev minor =>
      have hfile := hopen minor rfl
      have hheld := hl.held
      obtain ⟨mem, sizes, file, held⟩ := l
      dsimp only at hsizes hfile hheld
      subst hsizes hfile hheld
      exact open_balances minor mem
  | ioctl cmd arg => exact ioctl_balances cmd arg l hl hsizes
  | release => exact release_balances l hl hsizes

end CryptodevChat.Virtio
