import CryptodevChat.Virtio.Native
import CryptodevChat.Virtio.Served
import CryptodevChat.Lib.Objects

namespace CryptodevChat.Virtio

open Lib (Byte le fromLe leInt fromLeInt le_length Mem Space)

variable {σ τ : Type}

-- What a call does not decide: what the memory of the guest's kernel holds, where QEMU
-- sees its objects, what /dev/urandom delivers, and whether a process can be copied.
structure Setting where
  kernel : Mem Byte
  qemu : Qemu
  random : Option (List Byte)
  forks : Bool

-- `/dev/crypto` as the system calls of a process reach it, with the descriptors that
-- its files stand for on the host. There is no result when the kernel oopses.
structure Platform (σ τ : Type) where
  host : τ → σ
  fds : τ → List (Option Int)
  call : τ → Setting → Process → Call → Option (Int × Mem Byte × τ)

section Calls

variable (h : Host σ) (devs : Nat → Option Nat)

-- The C library turns an error of the kernel into -1.
def libc (ret : Int) : Int := if ret < 0 then -1 else ret

def Virtual.call (v : Virtual σ) (a : Setting) (p : Process) (c : Call) :
    Option (Int × Mem Byte × Virtual σ) :=
  let r : Request := ⟨p, c, a.kernel, a.qemu⟩
  match c with
  | .openDev minor =>
      match exec (r.guest h devs) (cryptoChrdevOpen minor) (v.sys r none) with
      | .done ret s =>
          if ret < 0 then some (libc ret, s.user, ⟨s.host, v.files, s.locked, s.queues⟩)
          else some (v.files.length, s.user, ⟨s.host, v.files ++ [s.crof], s.locked, s.queues⟩)
      | _ => none
  | .ioctl file cmd arg =>
      match v.files[file]? with
      | some (some crof) =>
          match exec (r.guest h devs) (cryptoChrdevIoctl cmd arg) (v.sys r (some crof)) with
          | .done ret s =>
              some (libc ret, s.user, ⟨s.host, v.files.set file s.crof, s.locked, s.queues⟩)
          | _ => none
      | _ => some (-1, p.user, v)
  | .close file =>
      match v.files[file]? with
      | some (some crof) =>
          match exec (r.guest h devs) cryptoChrdevRelease (v.sys r (some crof)) with
          | .done ret s => some (libc ret, s.user, ⟨s.host, v.files.set file s.crof, s.locked, s.queues⟩)
          | _ => none
      | _ => some (-1, p.user, v)

def virtualKernel : Platform σ (Virtual σ) where
  host := Virtual.host
  fds := fun v => v.files.map (Option.map Crof.hostFd)
  call := Virtual.call h devs

end Calls

section Conformance

-- A call that ends, and what the host and the files are afterwards.
def Platform.Does (K : Platform σ τ) (ok : τ → Prop) (k : τ) (a : Setting) (p : Process) (c : Call) (host : σ)
    (fds : List (Option Int)) (R : Int → Mem Byte → Prop) : Prop :=
  ∃ ret user k', K.call k a p c = some (ret, user, k') ∧ ok k' ∧ K.host k' = host ∧ K.fds k' = fds ∧ R ret user

-- A kernel through which a process gets what the host answers. An open that the host
-- refuses may go unnoticed, and so may a close.
structure Platform.Conforms (K : Platform σ τ) (h : Host σ) (minor : Nat) (good : Setting → Prop) (ok : τ → Prop) :
    Prop where
  opens : ∀ k a p, ok k → good a →
    let r := h.openDev (K.host k)
    K.Does ok k a p (.openDev minor) r.2 (K.fds k ++ [some r.1])
        (fun ret user => ret = (K.fds k).length ∧ user = p.user) ∨
      r.1 < 0 ∧ K.Does ok k a p (.openDev minor) r.2 (K.fds k) fun ret user => ret < 0 ∧ user = p.user
  closes : ∀ k a p file fd, ok k → good a → (K.fds k)[file]? = some (some fd) →
    let r := h.closeDev fd (K.host k)
    K.Does ok k a p (.close file) r.2 ((K.fds k).set file none) fun ret user =>
      (ret ≠ 0 → r.1 ≠ 0) ∧ user = p.user
  gsession : ∀ k a p file fd arg bytes key, ok k → good a → (K.fds k)[file]? = some (some fd) →
    SessionReads p.space p.user arg bytes key → (SessionOp.parse bytes).mac = 0 →
    (∀ i < SESSION_OP_SIZE, p.space.writable (arg + i) = true) →
    let r := h.gsession fd ⟨(SessionOp.parse bytes).cipher, 0, key, []⟩ (K.host k)
    K.Does ok k a p (.ioctl file CIOCGSESSION arg) r.2 (K.fds k) fun ret user =>
      Ends r.1 (fun ses => ret = 0 ∧ p.space.read user (arg + SES_OFF) 4 = le 4 ses ∧
        ∀ q, (∀ i < SESSION_OP_SIZE, p.space.byteAt (arg + i) ≠ q) → user q = p.user q) (ret ≠ 0)
  crypt : ∀ k a p file fd arg bytes src iv, ok k → good a → (K.fds k)[file]? = some (some fd) →
    CryptReads p.space p.user arg bytes src iv → (CryptOp.parse bytes).mac = 0 →
    (CryptOp.parse bytes).flags / COP_FLAG_WRITE_IV % 2 = 0 →
    (∀ i < (CryptOp.parse bytes).len, p.space.writable ((CryptOp.parse bytes).dst + i) = true) →
    let op := CryptOp.parse bytes
    let r := h.crypt fd ⟨op.ses, op.op, op.flags, src, iv⟩ (K.host k)
    K.Does ok k a p (.ioctl file CIOCCRYPT arg) r.2 (K.fds k) fun ret user =>
      Ends r.1 (fun out => ret = 0 ∧ user = p.space.write p.user op.dst out.dst) (ret ≠ 0)
  fsession : ∀ k a p file fd arg ses, ok k → good a → (K.fds k)[file]? = some (some fd) →
    p.space.copyFrom p.user arg 4 = some ses → (p.space.copyFrom p.user arg 12).isSome →
    let r := h.fsession fd (fromLe ses) (K.host k)
    K.Does ok k a p (.ioctl file CIOCFSESSION arg) r.2 (K.fds k) fun ret user =>
      user = p.user ∧ Ends r.1 (fun _ => ret = 0) (ret ≠ 0)

theorem copyTo_of_writable (sp : Space) (m : Mem Byte) (addr n : Nat)
    (hwrite : ∀ i < n, sp.writable (addr + i) = true) (data : List Byte) (hlen : data.length = n) :
    ∃ m', sp.copyTo m addr data = some m' :=
  Space.copyTo_writable sp m addr data fun i hi => hwrite i (by omega)

-- A copy into a stretch of addresses changes no other cell.
theorem copyTo_beside (sp : Space) (m m' : Mem Byte) (addr k n : Nat) (data : List Byte)
    (h : sp.copyTo m (addr + k) data = some m') (hin : k + data.length ≤ n) (q : Lib.Loc)
    (hq : ∀ i < n, sp.byteAt (addr + i) ≠ q) : m' q = m q := by
  rw [Space.copyTo_write sp m m' _ _ h]
  apply Lib.scatter_other
  intro i hi
  rw [Nat.add_assoc]
  exact hq (k + i) (by omega)

-- A guest between two calls.
structure Virtual.Calm (v : Virtual σ) : Prop where
  locked : v.locked = false
  avail : ∀ w, (v.queues w).avail = []
  used : ∀ w, (v.queues w).used = []
  range : ∀ crof, some crof ∈ v.files → -0x80000000 ≤ crof.hostFd ∧ crof.hostFd < 0x80000000

variable {h : Host σ} {devs : Nat → Option Nat} {v : Virtual σ} {file : Nat} {crof : Crof}

theorem Virtual.Calm.idle (hv : v.Calm) (r : Request) (crof : Option Crof) : (v.sys r crof).Idle :=
  ⟨rfl, hv.locked, hv.avail, hv.used⟩

theorem Virtual.Calm.fresh (hv : v.Calm) (r : Request) (crof : Crof) : (v.sys r (some crof)).Fresh crof :=
  ⟨rfl, rfl, hv.locked, hv.avail _, hv.used _, rfl⟩

-- The file that a descriptor belongs to.
theorem Virtual.Calm.opened (hv : v.Calm) {fd : Int}
    (hfile : ((virtualKernel h devs).fds v)[file]? = some (some fd)) :
    ∃ crof, v.files[file]? = some (some crof) ∧ crof.hostFd = fd ∧ fromLeInt (leInt crof.hostFd) = crof.hostFd := by
  simp only [virtualKernel, List.getElem?_map, Option.map_eq_some_iff] at hfile
  obtain ⟨_, hget, crof, rfl, rfl⟩ := hfile
  obtain ⟨hlow, hhigh⟩ := hv.range crof (List.mem_of_getElem? hget)
  exact ⟨crof, hget, rfl, Lib.fromLeInt_leInt _ hlow hhigh⟩

-- A call on a file that leaves it open, or closes it.
theorem Virtual.Calm.after (h : Host σ) (devs : Nat → Option Nat) (hv : v.Calm) {r : Request} (hfile : v.files[file]? = some (some crof)) {host : σ}
    {crof' : Option Crof} (hcrof : crof' = some crof ∨ crof' = none) {s' : Sys σ}
    (hafter : (v.sys r (some crof)).After s' crof' host) :
    let v' : Virtual σ := ⟨s'.host, v.files.set file s'.crof, s'.locked, s'.queues⟩
    v'.Calm ∧ v'.host = host ∧
      (virtualKernel h devs).fds v' = ((virtualKernel h devs).fds v).set file (crof'.map Crof.hostFd) := by
  refine ⟨⟨hafter.locked, hafter.avail, hafter.used, fun x hx => ?_⟩, hafter.host, ?_⟩
  · cases List.mem_or_eq_of_mem_set hx with
    | inl hold => exact hv.range x hold
    | inr hnew =>
        rw [hafter.crof] at hnew
        obtain rfl | rfl := hcrof
        · cases hnew
          exact hv.range _ (List.mem_of_getElem? hfile)
        · cases hnew
  · simp only [virtualKernel, List.map_set, hafter.crof]

-- Of a guest the descriptors stay when a file stays open.
theorem fds_set_self (hfile : v.files[file]? = some (some crof)) :
    ((virtualKernel h devs).fds v).set file ((some crof).map Crof.hostFd) = (virtualKernel h devs).fds v := by
  obtain ⟨hlt, hget⟩ := List.getElem?_eq_some_iff.mp hfile
  apply List.ext_getElem?
  intro i
  rw [List.getElem?_set]
  split_ifs with hi hlen
  · subst hi
    simp [virtualKernel, hfile]
  · subst hi
    exact absurd (by simpa [virtualKernel] using hlt) hlen
  · rfl

-- An ioctl of the driver, as the process gets it.
theorem virtual_ioctl (hv : v.Calm) (a : Setting) (p : Process) (cmd arg : Nat)
    (hfile : v.files[file]? = some (some crof)) {ret : Int} {s' : Sys σ} {host : σ} {R : Int → Mem Byte → Prop}
    (hexec : exec (Request.guest h devs ⟨p, .ioctl file cmd arg, a.kernel, a.qemu⟩) (cryptoChrdevIoctl cmd arg)
      (v.sys ⟨p, .ioctl file cmd arg, a.kernel, a.qemu⟩ (some crof)) = .done ret s')
    (hafter : (v.sys ⟨p, .ioctl file cmd arg, a.kernel, a.qemu⟩ (some crof)).After s' (some crof) host)
    (hR : R (libc ret) s'.user) :
    (virtualKernel h devs).Does Virtual.Calm v a p (.ioctl file cmd arg) host ((virtualKernel h devs).fds v) R := by
  obtain ⟨hcalm, hhost, hfds⟩ := hv.after h devs hfile (.inl rfl) hafter
  rw [fds_set_self hfile] at hfds
  refine ⟨libc ret, s'.user, _, ?_, hcalm, hhost, hfds, hR⟩
  simp only [virtualKernel, Virtual.call, hfile, hexec]

theorem libc_of_neg {ret : Int} (h : ret < 0) : libc ret ≠ 0 := by
  rw [libc, if_pos h]
  exact Int.negSucc_ne_zero 0

theorem field_lt (bytes : List Byte) (off : Nat) : field bytes off 4 < 2 ^ 32 := by
  have hlt := Lib.fromLe_lt ((bytes.drop off).take 4)
  have hlen : ((bytes.drop off).take 4).length ≤ 4 := by
    rw [List.length_take]
    omega
  exact Nat.lt_of_lt_of_le hlt (Nat.pow_le_pow_right (by decide) hlen)

-- The kernel of a guest with a virtual device, on top of that of the host.
theorem virtual_conforms (h : Host σ) (devs : Nat → Option Nat) (minor crdev : Nat) (hdev : devs minor = some crdev) :
    (virtualKernel h devs).Conforms h minor (fun a => ∀ len < 2 ^ 32, a.qemu.Places (ioctlSizes len))
      Virtual.Calm where
  opens := by
    intro v a p hv hgood r
    let req : Request := ⟨p, .openDev minor, a.kernel, a.qemu⟩
    obtain ⟨s', hexec, hafter⟩ := exec_open (g := req.guest h devs) (v.sys req none) minor crdev (hv.idle req none)
      (fun _ _ => rfl) rfl (Int.le_refl 0) hdev
    have huser := exec_user (g := req.guest h devs) (v.sys req none) (cryptoChrdevOpen minor) (open_inward minor)
    rw [hexec] at huser
    refine .inl ⟨v.files.length, s'.user, ⟨s'.host, v.files ++ [s'.crof], s'.locked, s'.queues⟩, ?_, ?_, hafter.host, ?_, ?_, huser⟩
    · simp only [virtualKernel, Virtual.call, req, hexec]
      exact if_neg (lt_irrefl 0)
    · refine ⟨hafter.locked, hafter.avail, hafter.used, fun x hx => ?_⟩
      rw [hafter.crof] at hx
      cases List.mem_append.mp hx with
      | inl hold => exact hv.range x hold
      | inr hnew =>
          cases List.mem_singleton.mp hnew
          exact h.open_range v.host
    · simp only [virtualKernel, List.map_append, List.map_cons, List.map_nil, hafter.crof]
      rfl
    · simp [virtualKernel]
  closes := by
    intro v a p file fd hv hgood hfile r
    let req : Request := ⟨p, .close file, a.kernel, a.qemu⟩
    obtain ⟨crof, hget, rfl, -⟩ := hv.opened hfile
    obtain ⟨hlow, hhigh⟩ := hv.range crof (List.mem_of_getElem? hget)
    obtain ⟨s', hexec, hafter⟩ := exec_release (g := req.guest h devs) (v.sys req (some crof)) crof
      (hv.idle req _) (fun _ _ => rfl) rfl hlow hhigh
    have huser := exec_user (g := req.guest h devs) (v.sys req (some crof)) cryptoChrdevRelease release_inward
    rw [hexec] at huser
    obtain ⟨hcalm, hhost, hfds⟩ := hv.after h devs hget (.inr rfl) hafter
    refine ⟨0, s'.user, _, ?_, hcalm, hhost, hfds, fun hne => absurd rfl hne, huser⟩
    simp only [virtualKernel, Virtual.call, hget, req, hexec]
    rfl
  gsession := by
    intro v a p file fd arg bytes key hv hgood hfile hreads hmac hwrite r
    let req : Request := ⟨p, .ioctl file CIOCGSESSION arg, a.kernel, a.qemu⟩
    obtain ⟨crof, hget, rfl, hfd⟩ := hv.opened hfile
    have hlen : (SessionOp.parse bytes).keylen < 2 ^ 32 := field_lt bytes LEN_OFF
    obtain ⟨ret, s', hexec, hafter, hret⟩ := gsession_served (g := req.guest h devs) (hv.fresh req crof)
      (hv.idle req _) (fun _ => rfl) hfd arg bytes key hreads (hgood _ hlen) hmac
      (copyTo_of_writable _ _ _ _ hwrite)
    refine virtual_ioctl hv a p _ arg hget hexec hafter ?_
    refine hret.imp (fun ses _ hses => ?_) libc_of_neg
    obtain ⟨rfl, data, hdlen, hses, hcopy⟩ := hses
    have hfound := p.found _ _ arg data (by rw [hdlen]; decide) hcopy SES_OFF 4 (by rw [hdlen]; decide)
    rw [hses] at hfound
    exact ⟨rfl, hfound, copyTo_beside _ _ _ arg 0 _ data hcopy (by omega)⟩
  crypt := by
    intro v a p file fd arg bytes src iv hv hgood hfile hreads hmac hflag hwrite op r
    let req : Request := ⟨p, .ioctl file CIOCCRYPT arg, a.kernel, a.qemu⟩
    obtain ⟨crof, hget, rfl, hfd⟩ := hv.opened hfile
    have hlen : (CryptOp.parse bytes).len < 2 ^ 32 := field_lt bytes LEN_OFF
    obtain ⟨ret, s', hexec, hafter, hret⟩ := crypt_served (g := req.guest h devs) (hv.fresh req crof)
      (hv.idle req _) (fun _ => rfl) hfd arg bytes src iv hreads (hgood _ hlen) hmac hflag
      (copyTo_of_writable _ _ _ _ hwrite)
    refine virtual_ioctl hv a p _ arg hget hexec hafter ?_
    refine hret.imp (fun out _ hout => ?_) libc_of_neg
    obtain ⟨rfl, hcopy⟩ := hout
    exact ⟨rfl, Space.copyTo_write _ _ _ _ _ hcopy⟩
  fsession := by
    intro v a p file fd arg ses hv hgood hfile hses hhead r
    let req : Request := ⟨p, .ioctl file CIOCFSESSION arg, a.kernel, a.qemu⟩
    obtain ⟨crof, hget, rfl, hfd⟩ := hv.opened hfile
    obtain ⟨head, hhead⟩ := Option.isSome_iff_exists.mp hhead
    have hlen := Space.copyFrom_slice _ _ _ _ LEN_OFF 4 _ hhead (by decide)
    obtain ⟨ret, s', hexec, hafter, huser, hret⟩ := fsession_served (g := req.guest h devs) (hv.fresh req crof)
      (hv.idle req _) (fun _ => rfl) hfd arg _ ses hlen hses (hgood _ (field_lt head LEN_OFF))
    refine virtual_ioctl hv a p _ arg hget hexec hafter ⟨huser, ?_⟩
    refine hret.imp (fun _ _ hzero => ?_) libc_of_neg
    rw [hzero]
    rfl

end Conformance

end CryptodevChat.Virtio
