import Mathlib.Data.List.GetD
import CryptodevChat.Virtio.Success
import CryptodevChat.Lib.Run

namespace CryptodevChat.Virtio

open Lib (Byte le fromLe leInt fromLeInt le_length Mem Space gather scatter answers)

def PAGE_SIZE : Nat := 4096

-- A process at the time of a call. Addresses that share a cell differ by whole pages.
structure Process where
  space : Space
  user : Mem Byte
  paged : ∀ a b, space.byteAt a = space.byteAt b → a % PAGE_SIZE = b % PAGE_SIZE

-- Files are numbered as they are opened.
inductive Call
  | openDev (minor : Nat)
  | ioctl (file cmd arg : Nat)
  | close (file : Nat)

-- A call by some process. In a guest its kernel's memory counts too: what it
-- holds, and where QEMU sees the objects of the call.
structure Request where
  process : Process
  call : Call
  kernel : Mem Byte
  qemu : Qemu

structure Reply where
  ret : Int
  out : List Byte
  deriving DecidableEq, Repr

-- What the process finds after a command: the session, or the result of the cipher.
def Process.finds (p : Process) (cmd arg : Nat) (user : Mem Byte) : List Byte :=
  if cmd = CIOCGSESSION then gather user (fun i => p.space.byteAt (arg + SES_OFF + i)) 4
  else if cmd = CIOCCRYPT then
    match p.space.copyFrom p.user arg CRYPT_OP_SIZE with
    | some bytes =>
        gather user (fun i => p.space.byteAt ((CryptOp.parse bytes).dst + i)) (CryptOp.parse bytes).len
    | none => []
  else []

variable {σ : Type}

section Native

structure Native (σ : Type) where
  host : σ
  files : List (Option Int)

-- The process runs on the host. A call that fails is not followed further.
def Native.serve (h : Host σ) (st : Native σ) (r : Request) : Option (Reply × Native σ) :=
  match r.call with
  | .openDev _ =>
      let (fd, host) := h.openDev st.host
      if fd < 0 then none else some (⟨0, []⟩, ⟨host, st.files ++ [some fd]⟩)
  | .ioctl file cmd arg =>
      match st.files[file]? with
      | some (some fd) =>
          match h.ioctl r.process.space fd cmd arg r.process.user st.host with
          | (.ok (), user, host) => some (⟨0, r.process.finds cmd arg user⟩, { st with host })
          | (.error _, _) => none
      | _ => none
  | .close file =>
      match st.files[file]? with
      | some (some fd) =>
          let (ret, host) := h.closeDev fd st.host
          if ret = 0 then some (⟨0, []⟩, ⟨host, st.files.set file none⟩) else none
      | _ => none

end Native

section Virtual

structure Virtual (σ : Type) where
  host : σ
  files : List (Option Crof)
  locked : Bool
  queues : Nat → VirtQueue

def Virtual.boot (host : σ) : Virtual σ := ⟨host, [], false, fun _ => ⟨[], [], 0⟩⟩

variable (h : Host σ) (devs : Nat → Option Nat)

def Request.guest (r : Request) : Guest σ where
  space := r.process.space
  qemu := r.qemu
  host := h
  devs := devs
  allocs := fun _ => true
  crofAlloc := true
  nonseekable := 0

def Virtual.sys (v : Virtual σ) (r : Request) (crof : Option Crof) : Sys σ where
  mem := r.kernel
  sizes := []
  user := r.process.user
  crof := crof
  locked := v.locked
  queues := v.queues
  host := v.host
  history := []

-- The process runs in a guest. A file whose open failed is not installed.
def Virtual.serve (v : Virtual σ) (r : Request) : Option (Reply × Virtual σ) :=
  match r.call with
  | .openDev minor =>
      match exec (r.guest h devs) (cryptoChrdevOpen minor) (v.sys r none) with
      | .done ret s =>
          some (⟨ret, []⟩,
            ⟨s.host, if ret < 0 then v.files else v.files ++ [s.crof], s.locked, s.queues⟩)
      | _ => none
  | .ioctl file cmd arg =>
      match v.files[file]? with
      | some (some crof) =>
          match exec (r.guest h devs) (cryptoChrdevIoctl cmd arg) (v.sys r (some crof)) with
          | .done ret s =>
              some (⟨ret, r.process.finds cmd arg s.user⟩,
                ⟨s.host, v.files.set file s.crof, s.locked, s.queues⟩)
          | _ => none
      | _ => none
  | .close file =>
      match v.files[file]? with
      | some (some crof) =>
          match exec (r.guest h devs) cryptoChrdevRelease (v.sys r (some crof)) with
          | .done ret s =>
              some (⟨ret, []⟩, ⟨s.host, v.files.set file s.crof, s.locked, s.queues⟩)
          | _ => none
      | _ => none

end Virtual

section Simulation

-- The success path of a command: sessions without a digest, operations
-- that write no digest and no initialization vector.
structure Request.PlainIoctl (r : Request) (cmd arg : Nat) : Prop where
  head : (r.process.space.copyFrom r.process.user arg 12).isSome
  placed : ∀ data, r.process.space.copyFrom r.process.user (arg + LEN_OFF) 4 = some data →
    r.qemu.Places (ioctlSizes (fromLe data))
  session : cmd = CIOCGSESSION → ∀ bytes,
    r.process.space.copyFrom r.process.user arg SESSION_OP_SIZE = some bytes →
      (SessionOp.parse bytes).mac = 0 ∧ 1 ≤ (SessionOp.parse bytes).keylen
  writable : cmd = CIOCGSESSION → ∀ i < SESSION_OP_SIZE, r.process.space.writable (arg + i) = true
  crypt : cmd = CIOCCRYPT → ∀ bytes,
    r.process.space.copyFrom r.process.user arg CRYPT_OP_SIZE = some bytes →
      (CryptOp.parse bytes).mac = 0 ∧ (CryptOp.parse bytes).flags / COP_FLAG_WRITE_IV % 2 = 0 ∧
      1 ≤ (CryptOp.parse bytes).len

def Request.Plain (devs : Nat → Option Nat) (r : Request) : Prop :=
  match r.call with
  | .openDev minor => ∃ crdev, devs minor = some crdev
  | .ioctl _ cmd arg => r.PlainIoctl cmd arg
  | .close _ => True

-- The files of the guest stand for the descriptors of the host, and no
-- request is left in a queue.
structure Related (st : Native σ) (v : Virtual σ) : Prop where
  host : v.host = st.host
  files : v.files.map (Option.map Crof.hostFd) = st.files
  range : ∀ fd, some fd ∈ st.files → -0x80000000 ≤ fd ∧ fd < 0x80000000
  locked : v.locked = false
  avail : ∀ w, (v.queues w).avail = []
  used : ∀ w, (v.queues w).used = []

theorem related_boot (host : σ) : Related ⟨host, []⟩ (Virtual.boot host) :=
  ⟨rfl, rfl, by simp, rfl, fun _ => rfl, fun _ => rfl⟩

variable {h : Host σ} {devs : Nat → Option Nat} {st : Native σ} {v : Virtual σ} (r : Request)

theorem Related.idle (hrel : Related st v) (crof : Option Crof) : (v.sys r crof).Idle :=
  ⟨rfl, hrel.locked, hrel.avail, hrel.used⟩

theorem Related.fresh (hrel : Related st v) (file : Crof) : (v.sys r (some file)).Fresh file :=
  ⟨rfl, rfl, hrel.locked, hrel.avail _, hrel.used _, rfl⟩

-- The file that an open descriptor of the host belongs to.
theorem Related.file (hrel : Related st v) (file : Nat) (fd : Int)
    (hfile : st.files[file]? = some (some fd)) :
    ∃ crof, v.files[file]? = some (some crof) ∧ crof.hostFd = fd ∧ -0x80000000 ≤ fd ∧
      fd < 0x80000000 := by
  have hrange := hrel.range fd (List.mem_of_getElem? hfile)
  rw [← hrel.files, List.getElem?_map] at hfile
  cases hv : v.files[file]? with
  | none =>
      rw [hv] at hfile
      cases hfile
  | some entry =>
      rw [hv] at hfile
      cases entry with
      | none => cases hfile
      | some crof =>
          cases hfile
          exact ⟨crof, rfl, rfl, hrange⟩

-- A call on one file that leaves the entry of that file in a new state.
theorem Related.after (hrel : Related st v) (file : Nat) (crof crof' : Option Crof) (host : σ)
    (s' : Sys σ) (hafter : (v.sys r crof).After s' crof' host)
    (hfd : ∀ c, crof' = some c → some c.hostFd ∈ st.files) :
    Related ⟨host, st.files.set file (crof'.map Crof.hostFd)⟩
      ⟨s'.host, v.files.set file s'.crof, s'.locked, s'.queues⟩ where
  host := hafter.host
  files := by rw [List.map_set, hrel.files, hafter.crof]
  range := by
    intro fd hmem
    cases List.mem_or_eq_of_mem_set hmem with
    | inl hold => exact hrel.range fd hold
    | inr hnew =>
        cases hc : crof' with
        | none =>
            rw [hc] at hnew
            cases hnew
        | some c =>
            rw [hc] at hnew
            cases hnew
            exact hrel.range _ (hfd c hc)
  locked := hafter.locked
  avail := hafter.avail
  used := hafter.used

-- What has been copied to a process is found there again.
theorem Process.found (p : Process) (m m' : Mem Byte) (addr : Nat) (data : List Byte)
    (hlen : data.length ≤ PAGE_SIZE) (hcopy : p.space.copyTo m addr data = some m') (k n : Nat)
    (hk : k + n ≤ data.length) :
    gather m' (fun i => p.space.byteAt (addr + k + i)) n = (data.drop k).take n := by
  unfold Space.copyTo at hcopy
  split_ifs at hcopy
  cases hcopy
  have hinj : ∀ i < data.length, ∀ j < data.length,
      p.space.byteAt (addr + i) = p.space.byteAt (addr + j) → i = j := by
    intro i hi j hj heq
    have hpage := p.paged _ _ heq
    unfold PAGE_SIZE at hlen hpage
    omega
  simpa only [Nat.add_assoc] using
    Lib.gather_scatter_slice m (fun i => p.space.byteAt (addr + i)) data k n hinj hk

theorem Space.copyTo_writable (sp : Space) (m : Mem Byte) (addr : Nat) (data : List Byte)
    (h : ∀ i < data.length, sp.writable (addr + i) = true) :
    ∃ m', sp.copyTo m addr data = some m' := by
  refine ⟨_, if_pos ?_⟩
  rw [List.all_eq_true]
  intro i hi
  exact h i (List.mem_range.mp hi)

variable {r} {st' : Native σ} {b : Reply}

theorem serve_openDev (hrel : Related st v) (minor : Nat) (hcall : r.call = .openDev minor)
    (hdev : ∃ crdev, devs minor = some crdev) (hserve : st.serve h r = some (b, st')) :
    ∃ v', v.serve h devs r = some (b, v') ∧ Related st' v' := by
  obtain ⟨crdev, hdev⟩ := hdev
  obtain ⟨s', hexec, hafter⟩ := exec_open (g := r.guest h devs) (v.sys r none) minor crdev
    (hrel.idle r none) (fun _ _ => rfl) rfl (Int.le_refl 0) hdev
  rw [show (v.sys r none).host = st.host from hrel.host] at hafter
  simp only [Native.serve, hcall] at hserve
  by_cases hfd : (h.openDev st.host).1 < 0
  · rw [if_pos hfd] at hserve
    cases hserve
  · rw [if_neg hfd] at hserve
    cases hserve
    refine ⟨⟨s'.host, v.files ++ [s'.crof], s'.locked, s'.queues⟩, ?_, ?_⟩
    · simp only [Virtual.serve, hcall, hexec]
      rfl
    · refine ⟨hafter.host, ?_, ?_, hafter.locked, hafter.avail, hafter.used⟩
      · simp only [List.map_append, hrel.files, hafter.crof]
        rfl
      · intro fd hmem
        cases List.mem_append.mp hmem with
        | inl hold => exact hrel.range fd hold
        | inr hnew =>
            cases List.mem_singleton.mp hnew
            exact h.open_range st.host

theorem serve_close (hrel : Related st v) (file : Nat) (hcall : r.call = .close file)
    (hserve : st.serve h r = some (b, st')) :
    ∃ v', v.serve h devs r = some (b, v') ∧ Related st' v' := by
  simp only [Native.serve, hcall] at hserve
  split at hserve
  · rename_i fd hfile
    obtain ⟨crof, hv, rfl, hlow, hhigh⟩ := hrel.file file fd hfile
    obtain ⟨s', hexec, hafter⟩ := exec_release (g := r.guest h devs) (v.sys r (some crof)) crof
      (hrel.idle r _) (fun _ _ => rfl) rfl hlow hhigh
    rw [show (v.sys r (some crof)).host = st.host from hrel.host] at hafter
    split_ifs at hserve with hret
    cases hserve
    refine ⟨_, ?_, hrel.after r file _ none _ s' hafter (by simp)⟩
    simp only [Virtual.serve, hcall, hv, hexec]
  · cases hserve

-- An ioctl that leaves its file open.
theorem serve_ioctl (hrel : Related st v) (file cmd arg : Nat) (crof : Crof)
    (hcall : r.call = .ioctl file cmd arg) (hfile : st.files[file]? = some (some crof.hostFd))
    (hv : v.files[file]? = some (some crof)) (host : σ) (s' : Sys σ)
    (hexec : exec (r.guest h devs) (cryptoChrdevIoctl cmd arg) (v.sys r (some crof)) = .done 0 s')
    (hafter : (v.sys r (some crof)).After s' (some crof) host) :
    ∃ v', v.serve h devs r = some (⟨0, r.process.finds cmd arg s'.user⟩, v') ∧
      Related { st with host } v' := by
  have hsame : st.files.set file ((some crof).map Crof.hostFd) = st.files := by
    obtain ⟨hlt, hget⟩ := List.getElem?_eq_some_iff.mp hfile
    rw [Option.map_some, ← hget, List.set_getElem_self]
  have hkept := hrel.after r file _ _ host s' hafter (by
    intro c hc
    cases hc
    exact List.mem_of_getElem? hfile)
  rw [hsame] at hkept
  refine ⟨_, ?_, hkept⟩
  simp only [Virtual.serve, hcall, hv, hexec]

theorem serve_gsession (hrel : Related st v) (file arg : Nat) (crof : Crof)
    (hcall : r.call = .ioctl file CIOCGSESSION arg)
    (hfile : st.files[file]? = some (some crof.hostFd)) (hv : v.files[file]? = some (some crof))
    (hfd : fromLeInt (leInt crof.hostFd) = crof.hostFd) (hplain : r.PlainIoctl CIOCGSESSION arg)
    (user : Mem Byte) (host : σ)
    (hrun : h.cioGsession r.process.space crof.hostFd arg r.process.user st.host = (.ok (), user, host)) :
    ∃ v', v.serve h devs r = some (⟨0, r.process.finds CIOCGSESSION arg user⟩, v') ∧
      Related { st with host } v' := by
  obtain ⟨bytes, key, hreads⟩ := cioGsession_reads h _ _ _ _ _ _ _ hrun
  obtain ⟨hmac, -⟩ := hplain.session rfl bytes hreads.op
  obtain ⟨ses, hses, hput⟩ := (cioGsession_ok_iff h _ _ _ _ _ _ _ bytes key hreads hmac).mp hrun
  have hplaces := hplain.placed _ (Space.copyFrom_slice _ _ _ _ LEN_OFF 4 _ hreads.op (by decide))
  have hwrite : ∀ data, data.length = SESSION_OP_SIZE →
      ∃ user, r.process.space.copyTo r.process.user arg data = some user := by
    intro data hdata
    apply Space.copyTo_writable
    rw [hdata]
    exact hplain.writable rfl
  rw [← hrel.host] at hses
  obtain ⟨s', data, hexec, hafter, hlen, hdata, hcopy⟩ := exec_gsession_ok (g := r.guest h devs)
    (hrel.fresh r crof) (hrel.idle r _) (fun _ => rfl) hfd arg bytes key host ses hreads hplaces hmac
    hses hwrite
  have hguest := r.process.found _ _ arg data (by rw [hlen]; decide) hcopy SES_OFF 4
    (by rw [hlen]; decide)
  have hnative := r.process.found _ _ (arg + SES_OFF) (le 4 ses) (by rw [le_length]; decide) hput 0 4
    (by rw [le_length])
  have hsame : r.process.finds CIOCGSESSION arg user = r.process.finds CIOCGSESSION arg s'.user := by
    unfold Process.finds
    rw [if_pos rfl, if_pos rfl, hguest, hdata]
    rw [List.drop_zero, List.take_of_length_le (by rw [le_length])] at hnative
    exact hnative
  rw [hsame]
  exact serve_ioctl hrel file CIOCGSESSION arg crof hcall hfile hv host s' hexec hafter

theorem serve_fsession (hrel : Related st v) (file arg : Nat) (crof : Crof)
    (hcall : r.call = .ioctl file CIOCFSESSION arg)
    (hfile : st.files[file]? = some (some crof.hostFd)) (hv : v.files[file]? = some (some crof))
    (hfd : fromLeInt (leInt crof.hostFd) = crof.hostFd) (hplain : r.PlainIoctl CIOCFSESSION arg)
    (user : Mem Byte) (host : σ)
    (hrun : h.cioFsession r.process.space crof.hostFd arg r.process.user st.host = (.ok (), user, host)) :
    ∃ v', v.serve h devs r = some (⟨0, r.process.finds CIOCFSESSION arg user⟩, v') ∧
      Related { st with host } v' := by
  obtain ⟨data, hdata⟩ := Option.isSome_iff_exists.mp hplain.head
  have hlen := Space.copyFrom_slice _ _ _ _ LEN_OFF 4 _ hdata (by decide)
  have hplaces := hplain.placed _ hlen
  unfold Host.cioFsession at hrun
  have hses := Space.copyFrom_slice _ _ _ _ 0 4 _ hdata (by decide)
  simp only [Nat.add_zero] at hses
  rw [hses] at hrun
  injection hrun with hret hrest
  injection hrest with huser hhost
  obtain ⟨s', hexec, hafter⟩ := exec_fsession_ok (g := r.guest h devs)
    (hrel.fresh r crof) (hrel.idle r _) (fun _ => rfl) hfd arg _ _ host hlen hses hplaces
    (by rw [show (v.sys r (some crof)).host = st.host from hrel.host]; exact Prod.ext hret hhost)
  have hnone : ∀ user, r.process.finds CIOCFSESSION arg user = [] := by
    intro user
    rw [Process.finds, if_neg fsession_ne_gsession, if_neg fsession_ne_crypt]
  rw [hnone user, ← hnone s'.user]
  exact serve_ioctl hrel file CIOCFSESSION arg crof hcall hfile hv host s' hexec hafter

theorem serve_crypt (hrel : Related st v) (file arg : Nat) (crof : Crof)
    (hcall : r.call = .ioctl file CIOCCRYPT arg)
    (hfile : st.files[file]? = some (some crof.hostFd)) (hv : v.files[file]? = some (some crof))
    (hfd : fromLeInt (leInt crof.hostFd) = crof.hostFd) (hplain : r.PlainIoctl CIOCCRYPT arg)
    (user : Mem Byte) (host : σ)
    (hrun : h.cioCrypt r.process.space crof.hostFd arg r.process.user st.host = (.ok (), user, host)) :
    ∃ v', v.serve h devs r = some (⟨0, r.process.finds CIOCCRYPT arg user⟩, v') ∧
      Related { st with host } v' := by
  obtain ⟨bytes, src, iv, hreads⟩ := cioCrypt_reads h _ _ _ _ _ _ _ hrun
  obtain ⟨hmac, hflag, -⟩ := hplain.crypt rfl bytes hreads.op
  obtain ⟨out, hcrypt, hput⟩ :=
    (cioCrypt_ok_iff h _ _ _ _ _ _ _ bytes src iv hreads hmac hflag).mp hrun
  have hplaces := hplain.placed _ (Space.copyFrom_slice _ _ _ _ LEN_OFF 4 _ hreads.op (by decide))
  rw [← hrel.host] at hcrypt
  obtain ⟨s', hexec, hafter, huser⟩ := exec_crypt_ok (g := r.guest h devs)
    (hrel.fresh r crof) (hrel.idle r _) (fun _ => rfl) hfd arg bytes src iv host out hreads hplaces
    hmac hflag hcrypt user hput
  rw [← huser]
  exact serve_ioctl hrel file CIOCCRYPT arg crof hcall hfile hv host s' hexec hafter

-- Each call does to the host what it does natively.
theorem serve_simulates (hrel : Related st v) (hplain : r.Plain devs)
    (hserve : st.serve h r = some (b, st')) :
    ∃ v', v.serve h devs r = some (b, v') ∧ Related st' v' := by
  unfold Request.Plain at hplain
  cases hcall : r.call with
  | openDev minor =>
      rw [hcall] at hplain
      exact serve_openDev hrel minor hcall hplain hserve
  | close file => exact serve_close hrel file hcall hserve
  | ioctl file cmd arg =>
      rw [hcall] at hplain
      simp only [Native.serve, hcall] at hserve
      split at hserve
      · rename_i fd hfile
        obtain ⟨crof, hv, rfl, hlow, hhigh⟩ := hrel.file file fd hfile
        have hfd := Lib.fromLeInt_leInt crof.hostFd hlow hhigh
        split at hserve
        · rename_i user host hioctl
          cases hserve
          unfold Host.ioctl at hioctl
          split_ifs at hioctl with hg hf hc
          · subst hg
            exact serve_gsession hrel file arg crof hcall hfile hv hfd hplain user host hioctl
          · subst hf
            exact serve_fsession hrel file arg crof hcall hfile hv hfd hplain user host hioctl
          · subst hc
            exact serve_crypt hrel file arg crof hcall hfile hv hfd hplain user host hioctl
          · cases hioctl
        · cases hserve
      · cases hserve

-- Whole runs, by any number of processes: the host goes through the same
-- states, and every caller gets the same answer.
theorem virtual_simulates_native (requests : List Request) (hplain : ∀ r ∈ requests, r.Plain devs)
    (host : σ) (replies : List Reply)
    (hrun : answers (Native.serve h) requests ⟨host, []⟩ = some (replies, st')) :
    ∃ v', answers (Virtual.serve h devs) requests (Virtual.boot host) = some (replies, v') ∧
      Related st' v' := by
  apply Lib.answers_simulates (Native.serve h) (Virtual.serve h devs) Related (Request.Plain devs)
  · intro st v r b st' hrel hgood hserve
    exact serve_simulates hrel hgood hserve
  · exact hplain
  · exact related_boot host
  · exact hrun

end Simulation

section Session

theorem farApart_places (len : Nat) (hlen : len ≤ 2 ^ 32) : farApart.Places (ioctlSizes len) := by
  intro block hblock
  have hall : ∀ size ∈ ioctlSizes len, size ≤ 2 ^ 32 := by simpa [ioctlSizes] using hlen
  have hsize := hall _ (List.getElem_mem hblock)
  rw [← List.getD_eq_getElem _ 0 hblock] at hsize
  have hblock : block < 11 := hblock
  refine ⟨fun i hi => ?_, fun _ _ => rfl, fun _ _ => rfl⟩
  simp only [farApart, Lib.Loc.plus, Lib.Loc.mk.injEq]
  omega

-- Sixteen zeros under a zero key: the process asks with one structure for all.
def zeroProcess : Process where
  space := flat
  user := fun p => if p.off = 0x1000 + LEN_OFF then 16 else 0
  paged := fun a b h => by
    cases h
    rfl

def zeroCalls : List Call :=
  [.openDev 0, .ioctl 0 CIOCGSESSION 0x1000, .ioctl 0 CIOCCRYPT 0x1000, .ioctl 0 CIOCFSESSION 0x1000,
    .close 0]

def zeroRequests : List Request := zeroCalls.map (⟨zeroProcess, ·, fun _ => 0xff, farApart⟩)

theorem zero_plain : ∀ r ∈ zeroRequests, r.Plain plainGuest.devs := by
  have hioctl : ∀ cmd call, Request.PlainIoctl ⟨zeroProcess, call, fun _ => 0xff, farApart⟩ cmd 0x1000 := by
    intro cmd call
    refine ⟨?_, ?_, ?_, ?_, ?_⟩
    · rw [show zeroProcess.space = flat from rfl, (flat_maps _ _).copyFrom]
      rfl
    · intro data hdata
      cases ((flat_maps _ _).copyFrom _).symm.trans hdata
      exact farApart_places _ (show fromLe (Mem.load zeroProcess.user _ 4) ≤ 2 ^ 32 by decide +kernel)
    · intro _ bytes hbytes
      cases ((flat_maps _ _).copyFrom _).symm.trans hbytes
      dsimp only
      decide +kernel
    · intro _ i _
      rfl
    · intro _ bytes hbytes
      cases ((flat_maps _ _).copyFrom _).symm.trans hbytes
      dsimp only
      decide +kernel
  simp only [zeroRequests, zeroCalls, List.map_cons, List.map_nil, List.forall_mem_cons,
    List.not_mem_nil, false_implies, implies_true, and_true]
  exact ⟨⟨0, rfl⟩, hioctl _ _, hioctl _ _, hioctl _ _, trivial⟩

theorem zero_served : ∃ v', answers (Virtual.serve nullHost plainGuest.devs) zeroRequests
      (Virtual.boot 7) =
    some ([⟨0, []⟩, ⟨0, le 4 8⟩, ⟨0, List.replicate 16 0⟩, ⟨0, []⟩, ⟨0, []⟩], v') ∧
    Related ⟨9, [none]⟩ v' :=
  virtual_simulates_native zeroRequests zero_plain 7 _ (by rfl)

end Session

end CryptodevChat.Virtio
