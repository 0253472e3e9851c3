import CryptodevChat.Virtio.Element
import CryptodevChat.Lib.Run

namespace CryptodevChat.Virtio

open Lib (Byte Loc Mem Space Run)

variable {σ : Type}

section Descriptors

-- What the host's kernel does with the open descriptors of the QEMU process:
-- `open` returns a number that is not open, `close` gives its number back.
structure Host.Tracks (h : Host σ) (opened : σ → Int → Prop) : Prop where
  fresh : ∀ s, 0 ≤ (h.openDev s).1 → ¬opened s (h.openDev s).1
  opens : ∀ s fd, opened (h.openDev s).2 fd ↔ opened s fd ∨ (0 ≤ fd ∧ fd = (h.openDev s).1)
  closes : ∀ s x fd, opened (h.closeDev x s).2 fd ↔ opened s fd ∧ fd ≠ x
  gsession : ∀ s x args fd, opened (h.gsession x args s).2 fd ↔ opened s fd
  fsession : ∀ s x ses fd, opened (h.fsession x ses s).2 fd ↔ opened s fd
  crypt : ∀ s x args fd, opened (h.crypt x args s).2 fd ↔ opened s fd

-- Whatever comes of an ioctl, the driver of its command ran at most once.
theorem Host.ioctl_state (h : Host σ) (sp : Space) (fd : Int) (cmd arg : Nat) (m : Mem Byte) (s : σ) :
    (h.ioctl sp fd cmd arg m s).2.2 = s ∨
      (∃ args, (h.ioctl sp fd cmd arg m s).2.2 = (h.gsession fd args s).2) ∨
      (∃ ses, (h.ioctl sp fd cmd arg m s).2.2 = (h.fsession fd ses s).2) ∨
      (∃ args, (h.ioctl sp fd cmd arg m s).2.2 = (h.crypt fd args s).2) := by
  unfold Host.ioctl
  split_ifs
  · unfold Host.cioGsession
    split
    · exact .inl rfl
    · dsimp only
      split
      · split
        · rename_i hcall
          exact .inr (.inl ⟨_, (congrArg Prod.snd hcall).symm⟩)
        · rename_i hcall
          split <;> exact .inr (.inl ⟨_, (congrArg Prod.snd hcall).symm⟩)
      · exact .inl rfl
  · unfold Host.cioFsession
    split
    · exact .inl rfl
    · exact .inr (.inr (.inl ⟨_, rfl⟩))
  · unfold Host.cioCrypt
    split
    · exact .inl rfl
    · dsimp only
      split
      · split
        · rename_i hcall
          exact .inr (.inr (.inr ⟨_, (congrArg Prod.snd hcall).symm⟩))
        · rename_i hcall
          split <;> exact .inr (.inr (.inr ⟨_, (congrArg Prod.snd hcall).symm⟩))
      · exact .inl rfl
  · exact .inl rfl

-- An ioctl opens and closes nothing.
theorem Host.Tracks.ioctl {h : Host σ} {opened : σ → Int → Prop} (ht : h.Tracks opened) (sp : Space)
    (x : Int) (cmd arg : Nat) (m : Mem Byte) (s : σ) (fd : Int) :
    opened (h.ioctl sp x cmd arg m s).2.2 fd ↔ opened s fd := by
  obtain hs | ⟨args, hs⟩ | ⟨ses, hs⟩ | ⟨args, hs⟩ := h.ioctl_state sp x cmd arg m s
  · rw [hs]
  · rw [hs, ht.gsession]
  · rw [hs, ht.fsession]
  · rw [hs, ht.crypt]

-- A kernel with a table of at most 1024 descriptors, of which it opens the lowest free one.
def lowestFree (fds : List Int) : Int :=
  match ((List.range 1024).map Int.ofNat).find? (· ∉ fds) with
  | some n => n
  | none => -1

theorem lowestFree_range (fds : List Int) : -1 ≤ lowestFree fds ∧ lowestFree fds < 1024 := by
  unfold lowestFree
  split
  · rename_i n hn
    obtain ⟨k, hk, rfl⟩ := List.mem_map.mp (List.mem_of_find?_eq_some hn)
    have hk := List.mem_range.mp hk
    simp only [Int.ofNat_eq_natCast]
    omega
  · omega

theorem lowestFree_fresh (fds : List Int) (h : 0 ≤ lowestFree fds) : lowestFree fds ∉ fds := by
  unfold lowestFree at h ⊢
  split at h
  · rename_i n hn
    simpa using List.find?_some hn
  · omega

def tableHost : Host (List Int) where
  openDev := fun s => (lowestFree s, if 0 ≤ lowestFree s then lowestFree s :: s else s)
  closeDev := fun fd s => (if fd ∈ s then 0 else -1, s.filter (· ≠ fd))
  gsession := fun _ _ s => (.ok 1, s)
  fsession := fun _ _ s => (.ok (), s)
  crypt := fun _ args s => (.ok ⟨args.src, [], []⟩, s)
  open_range := fun s => by
    have := lowestFree_range s
    dsimp only
    omega
  dst_length := fun _ _ _ _ _ h => by
    cases h
    rfl

theorem mem_opened (s : List Int) (x fd : Int) :
    fd ∈ (if 0 ≤ x then x :: s else s) ↔ fd ∈ s ∨ (0 ≤ fd ∧ fd = x) := by
  by_cases h : 0 ≤ x
  · rw [if_pos h, List.mem_cons]
    constructor
    · rintro (rfl | hfd)
      · exact .inr ⟨h, rfl⟩
      · exact .inl hfd
    · rintro (hfd | ⟨-, rfl⟩)
      · exact .inr hfd
      · exact .inl rfl
  · rw [if_neg h]
    constructor
    · exact .inl
    · rintro (hfd | ⟨hpos, rfl⟩)
      · exact hfd
      · exact absurd hpos h

theorem tableHost_tracks : tableHost.Tracks fun s fd => fd ∈ s where
  fresh := fun s h => by
    simp only [tableHost] at h ⊢
    exact lowestFree_fresh s h
  opens := fun s fd => by
    simp only [tableHost]
    exact mem_opened s (lowestFree s) fd
  closes := fun s x fd => by simp [tableHost]
  gsession := fun _ _ _ _ => Iff.rfl
  fsession := fun _ _ _ _ => Iff.rfl
  crypt := fun _ _ _ _ => Iff.rfl

end Descriptors

section Requests

-- What `virtqueue_pop` gives a QEMU process. The sender is the virtio-crypto
-- device, or the open file of the guest where descriptors are counted for files.
structure Popped where
  sender : Nat
  qemu : Qemu
  elem : VirtQueueElement
  mem : Mem Byte

-- The number that `out_sg[1]` holds when `*host_fd` is read for a `close` or an ioctl.
def Popped.target (r : Popped) : Option Int :=
  if r.elem.syscallType r.mem = VIRTIO_CRYPTO_SYSCALL_TYPE_CLOSE then some (r.elem.hostFd r.mem)
  else if r.elem.syscallType r.mem = VIRTIO_CRYPTO_SYSCALL_TYPE_IOCTL then
    if r.elem.ioctlCmd r.mem = CIOCGSESSION then
      some (r.elem.hostFd (r.elem.sessionMem r.qemu r.mem))
    else if r.elem.ioctlCmd r.mem = CIOCFSESSION then some (r.elem.hostFd r.mem)
    else if r.elem.ioctlCmd r.mem = CIOCCRYPT then
      some (r.elem.hostFd (r.elem.cryptMem r.qemu r.mem))
    else none
  else none

-- A `close` or an ioctl of the host: for which sender it was issued, on which
-- number, and which sender had opened that number.
structure Use where
  sender : Nat
  fd : Int
  owner : Option Nat
  deriving DecidableEq, Repr

-- A QEMU process. The ledger, which sender obtained a descriptor that was not
-- closed since, is not part of QEMU: nothing in it reads it, nor the trail.
structure QemuProcess (σ : Type) where
  host : σ
  ledger : Int → Option Nat
  trail : List Use

def QemuProcess.boot (x : σ) : QemuProcess σ := ⟨x, fun _ => none, []⟩

def QemuProcess.note (h : Host σ) (sender : Nat) (x : σ) (p : QemuProcess σ) : Event → QemuProcess σ
  | .touch _ _ _ _ => p
  | .call .openDev =>
      if 0 ≤ (h.openDev x).1 then
        { p with ledger := Function.update p.ledger (h.openDev x).1 (some sender) }
      else p
  | .call (.closeDev fd) =>
      { p with
        ledger := Function.update p.ledger fd none
        trail := p.trail ++ [⟨sender, fd, p.ledger fd⟩] }
  | .call (.gsession fd _) | .call (.fsession fd _) | .call (.crypt fd _) =>
      { p with trail := p.trail ++ [⟨sender, fd, p.ledger fd⟩] }

-- `vq_handle_output` on a queue with one element.
def QemuProcess.serve (h : Host σ) (p : QemuProcess σ) (r : Popped) : QemuProcess σ :=
  let b := (vqHandleOutput h r.qemu ⟨[r.elem], [], 0⟩ ⟨r.mem, p.host, []⟩).2
  { b.log.foldl (QemuProcess.note h r.sender p.host) p with host := b.host }

-- What a request can do to the process.
inductive Serves (h : Host σ) (p : QemuProcess σ) (r : Popped) : QemuProcess σ → Prop
  | opens (htarget : r.target = none) (hpos : 0 ≤ (h.openDev p.host).1) :
      Serves h p r { p with
        host := (h.openDev p.host).2
        ledger := Function.update p.ledger (h.openDev p.host).1 (some r.sender) }
  | fails (htarget : r.target = none) (hneg : (h.openDev p.host).1 < 0) :
      Serves h p r { p with host := (h.openDev p.host).2 }
  | closes (fd : Int) (htarget : r.target = some fd) :
      Serves h p r ⟨(h.closeDev fd p.host).2, Function.update p.ledger fd none,
        p.trail ++ [⟨r.sender, fd, p.ledger fd⟩]⟩
  | ioctl (fd : Int) (cmd arg : Nat) (m : Mem Byte) (htarget : r.target = some fd) :
      Serves h p r ⟨(h.ioctl r.qemu.space fd cmd arg m p.host).2.2, p.ledger,
        p.trail ++ [⟨r.sender, fd, p.ledger fd⟩]⟩
  | idle (htarget : r.target = none) : Serves h p r p

theorem QemuProcess.serve_open (h : Host σ) (p : QemuProcess σ) (r : Popped)
    (ho : r.elem.syscallType r.mem = VIRTIO_CRYPTO_SYSCALL_TYPE_OPEN) :
    p.serve h r = { p with
      host := (h.openDev p.host).2
      ledger :=
        if 0 ≤ (h.openDev p.host).1 then
          Function.update p.ledger (h.openDev p.host).1 (some r.sender)
        else p.ledger } := by
  simp only [QemuProcess.serve, vqHandleOutput]
  rw [handleElem_open h r.qemu r.elem ⟨r.mem, p.host, []⟩ ho]
  simp only [List.nil_append, List.foldl_cons, List.foldl_nil, QemuProcess.note]
  split_ifs <;> rfl

theorem QemuProcess.serve_close (h : Host σ) (p : QemuProcess σ) (r : Popped)
    (hc : r.elem.syscallType r.mem = VIRTIO_CRYPTO_SYSCALL_TYPE_CLOSE) :
    p.serve h r = ⟨(h.closeDev (r.elem.hostFd r.mem) p.host).2,
      Function.update p.ledger (r.elem.hostFd r.mem) none,
      p.trail ++ [⟨r.sender, r.elem.hostFd r.mem, p.ledger (r.elem.hostFd r.mem)⟩]⟩ := by
  simp only [QemuProcess.serve, vqHandleOutput]
  rw [handleElem_close h r.qemu r.elem ⟨r.mem, p.host, []⟩ hc]
  simp only [List.nil_append, List.foldl_cons, List.foldl_nil, QemuProcess.note]

-- A command that the backend does not know makes no call of the host.
theorem QemuProcess.serve_ioctl (h : Host σ) (p : QemuProcess σ) (r : Popped)
    (hi : r.elem.syscallType r.mem = VIRTIO_CRYPTO_SYSCALL_TYPE_IOCTL) :
    (r.target = none ∧ p.serve h r = p) ∨
      ∃ fd cmd arg m, r.target = some fd ∧
        p.serve h r = ⟨(h.ioctl r.qemu.space fd cmd arg m p.host).2.2, p.ledger,
          p.trail ++ [⟨r.sender, fd, p.ledger fd⟩]⟩ := by
  simp only [QemuProcess.serve, vqHandleOutput]
  by_cases hg : r.elem.ioctlCmd r.mem = CIOCGSESSION
  · rw [handleElem_gsession h r.qemu r.elem ⟨r.mem, p.host, []⟩ hi hg]
    exact .inr ⟨_, _, _, _, by simp [Popped.target, hi, hg], rfl⟩
  by_cases hf : r.elem.ioctlCmd r.mem = CIOCFSESSION
  · rw [handleElem_fsession h r.qemu r.elem ⟨r.mem, p.host, []⟩ hi hf]
    exact .inr ⟨_, _, _, _, by simp [Popped.target, hi, hf], rfl⟩
  by_cases hcr : r.elem.ioctlCmd r.mem = CIOCCRYPT
  · rw [handleElem_crypt h r.qemu r.elem ⟨r.mem, p.host, []⟩ hi hcr]
    exact .inr ⟨_, _, _, _, by simp [Popped.target, hi, hcr], rfl⟩
  · rw [handleElem_other_cmd h r.qemu r.elem ⟨r.mem, p.host, []⟩ hi hg hf hcr]
    exact .inl ⟨by simp [Popped.target, hi, hg, hf, hcr], rfl⟩

theorem serve_serves (h : Host σ) (p : QemuProcess σ) (r : Popped) : Serves h p r (p.serve h r) := by
  by_cases ho : r.elem.syscallType r.mem = VIRTIO_CRYPTO_SYSCALL_TYPE_OPEN
  · have htarget : r.target = none := by
      simp [Popped.target, ho, close_ne_open.symm, ioctl_ne_open.symm]
    rw [QemuProcess.serve_open h p r ho]
    by_cases hpos : 0 ≤ (h.openDev p.host).1
    · rw [if_pos hpos]
      exact .opens htarget hpos
    · rw [if_neg hpos]
      exact .fails htarget (by omega)
  by_cases hc : r.elem.syscallType r.mem = VIRTIO_CRYPTO_SYSCALL_TYPE_CLOSE
  · rw [QemuProcess.serve_close h p r hc]
    exact .closes _ (by simp [Popped.target, hc])
  by_cases hi : r.elem.syscallType r.mem = VIRTIO_CRYPTO_SYSCALL_TYPE_IOCTL
  · obtain ⟨htarget, hserve⟩ | ⟨fd, cmd, arg, m, htarget, hserve⟩ := QemuProcess.serve_ioctl h p r hi
    · rw [hserve]
      exact .idle htarget
    · rw [hserve]
      exact .ioctl fd cmd arg m htarget
  · simp only [QemuProcess.serve, vqHandleOutput]
    rw [handleElem_other_type h r.qemu r.elem ⟨r.mem, p.host, []⟩ ho hc hi]
    exact .idle (by simp [Popped.target, hc, hi])

end Requests

section Authority

-- Requests of any devices, one after the other.
def Host.next (h : Host σ) (p : QemuProcess σ) (r : Popped) : Option (QemuProcess σ) := some (p.serve h r)

-- Every `close` and ioctl was on a descriptor that its own sender had opened.
def QemuProcess.Lawful (p : QemuProcess σ) : Prop := ∀ u ∈ p.trail, u.owner = some u.sender

-- The request names such a descriptor, if any.
def Names (p : QemuProcess σ) (r : Popped) : Prop := ∀ fd, r.target = some fd → p.ledger fd = some r.sender

-- The ledger is right, and the descriptors of QEMU itself are as they were.
structure Booked (opened : σ → Int → Prop) (x : σ) (p : QemuProcess σ) : Prop where
  open_of_ledger : ∀ fd dev, p.ledger fd = some dev → opened p.host fd
  kept : p.Lawful → ∀ fd, opened x fd → opened p.host fd ∧ p.ledger fd = none

variable {h : Host σ} {opened : σ → Int → Prop}

theorem serve_trail (h : Host σ) (p : QemuProcess σ) (r : Popped) :
    (p.serve h r).trail = p.trail ++ r.target.toList.map fun fd => ⟨r.sender, fd, p.ledger fd⟩ := by
  have hserves := serve_serves h p r
  generalize p.serve h r = p' at hserves ⊢
  cases hserves with
  | opens htarget hpos | fails htarget hneg | idle htarget => simp [htarget]
  | closes fd htarget | ioctl fd cmd arg m htarget => simp [htarget]

theorem lawful_serve (h : Host σ) (p : QemuProcess σ) (r : Popped) :
    (p.serve h r).Lawful ↔ p.Lawful ∧ Names p r := by
  unfold QemuProcess.Lawful Names
  rw [serve_trail]
  cases r.target with
  | none => simp
  | some fd =>
      simp only [Option.toList_some, List.map_cons, List.map_nil, List.mem_append,
        List.mem_singleton, Option.some.injEq, forall_eq']
      constructor
      · intro hall
        exact ⟨fun u hu => hall u (.inl hu), hall _ (.inr rfl)⟩
      · rintro ⟨hall, hown⟩ u (hu | rfl)
        · exact hall u hu
        · exact hown

-- A number that a request does not name is left alone.
theorem serve_other (ht : h.Tracks opened) (p : QemuProcess σ) (r : Popped) (fd : Int)
    (hfd : r.target ≠ some fd) (hopen : opened p.host fd) :
    opened (p.serve h r).host fd ∧ (p.serve h r).ledger fd = p.ledger fd := by
  have hserves := serve_serves h p r
  generalize p.serve h r = p' at hserves ⊢
  cases hserves with
  | opens htarget hpos =>
      refine ⟨(ht.opens _ _).mpr (.inl hopen), Function.update_of_ne ?_ ..⟩
      rintro rfl
      exact ht.fresh _ hpos hopen
  | fails htarget hneg => exact ⟨(ht.opens _ _).mpr (.inl hopen), rfl⟩
  | closes x htarget =>
      have hne : fd ≠ x := by
        rintro rfl
        exact hfd htarget
      exact ⟨(ht.closes _ _ _).mpr ⟨hopen, hne⟩, Function.update_of_ne hne ..⟩
  | ioctl x cmd arg m htarget => exact ⟨(ht.ioctl _ _ _ _ _ _ _).mpr hopen, rfl⟩
  | idle htarget => exact ⟨hopen, rfl⟩

theorem booked_serve (ht : h.Tracks opened) (x : σ) (p : QemuProcess σ) (r : Popped)
    (hp : Booked opened x p) : Booked opened x (p.serve h r) where
  open_of_ledger := fun fd dev => by
    have hserves := serve_serves h p r
    generalize p.serve h r = p' at hserves ⊢
    cases hserves with
    | opens htarget hpos =>
        intro hledger
        dsimp only at hledger ⊢
        rw [ht.opens]
        by_cases hfd : fd = (h.openDev p.host).1
        · exact .inr ⟨by omega, hfd⟩
        · rw [Function.update_of_ne hfd] at hledger
          exact .inl (hp.open_of_ledger fd dev hledger)
    | fails htarget hneg => exact fun hledger => (ht.opens _ _).mpr (.inl (hp.open_of_ledger fd dev hledger))
    | closes y htarget =>
        intro hledger
        dsimp only at hledger ⊢
        rw [ht.closes]
        by_cases hfd : fd = y
        · rw [hfd, Function.update_self] at hledger
          cases hledger
        · rw [Function.update_of_ne hfd] at hledger
          exact ⟨hp.open_of_ledger fd dev hledger, hfd⟩
    | ioctl y cmd arg m htarget =>
        exact fun hledger => (ht.ioctl _ _ _ _ _ _ _).mpr (hp.open_of_ledger fd dev hledger)
    | idle htarget => exact hp.open_of_ledger fd dev
  kept := fun hlaw fd hopen => by
    obtain ⟨hlaw, hnames⟩ := (lawful_serve h p r).mp hlaw
    obtain ⟨hopen', hledger⟩ := hp.kept hlaw fd hopen
    have hfd : r.target ≠ some fd := by
      intro htarget
      rw [hnames fd htarget] at hledger
      cases hledger
    obtain ⟨hopen', hsame⟩ := serve_other ht p r fd hfd hopen'
    exact ⟨hopen', hsame.trans hledger⟩

-- The backend uses the number that a request names, and no other. Exactly in
-- the runs whose requests name descriptors of their own device every `close`
-- and ioctl is on such a descriptor, and all others are left alone.
theorem authority (h : Host σ) (opened : σ → Int → Prop) (ht : h.Tracks opened) (x : σ)
    (requests : List Popped) (p : QemuProcess σ)
    (run : Run h.next (fun _ _ => True) (.boot x) requests p) :
    (p.Lawful ↔ Run h.next Names (.boot x) requests p) ∧
    (p.Lawful → ∀ fd, opened x fd → opened p.host fd ∧ p.ledger fd = none) ∧
    (∀ fd dev, p.ledger fd = some dev → opened p.host fd) ∧
    ∀ r, (p.serve h r).trail = p.trail ++ r.target.toList.map (fun fd => ⟨r.sender, fd, p.ledger fd⟩) ∧
      (∀ fd, r.target ≠ some fd → opened p.host fd →
        opened (p.serve h r).host fd ∧ (p.serve h r).ledger fd = p.ledger fd) ∧
      (Names p r → ∀ fd dev, p.ledger fd = some dev → dev ≠ r.sender →
        opened (p.serve h r).host fd ∧ (p.serve h r).ledger fd = some dev) := by
  have hbooked : Booked opened x p := by
    apply run.invariant (I := Booked opened x)
    · exact ⟨fun fd dev hledger => (nomatch hledger), fun _ fd hopen => ⟨hopen, rfl⟩⟩
    · intro s r u hs _ hnext
      cases hnext
      exact booked_serve ht x s r hs
  refine ⟨?_, hbooked.kept, hbooked.open_of_ledger, fun r => ⟨serve_trail h p r,
    fun fd hfd hopen => serve_other ht p r fd hfd hopen, fun hnames fd dev hledger hdev => ?_⟩⟩
  · constructor
    · intro hlaw
      clear hbooked
      induction run with
      | nil => exact .nil _
      | snoc _ _ hnext ih =>
          cases hnext
          obtain ⟨hlaw, hnames⟩ := (lawful_serve h _ _).mp hlaw
          exact .snoc (ih hlaw) hnames rfl
    · intro run'
      apply run'.invariant (I := QemuProcess.Lawful)
      · exact fun u hu => (nomatch hu)
      · intro s r u hs hnames hnext
        cases hnext
        exact (lawful_serve h s r).mpr ⟨hs, hnames⟩
  · have hfd : r.target ≠ some fd := by
      intro htarget
      rw [hnames fd htarget] at hledger
      cases hledger
      exact hdev rfl
    obtain ⟨hopen, hsame⟩ := serve_other ht p r fd hfd (hbooked.open_of_ledger fd dev hledger)
    exact ⟨hopen, hsame.trans hledger⟩

-- A request with readable entries for a type and a descriptor, or a writable one.
def plainElement (numOut numIn : Nat) : VirtQueueElement where
  outNum := numOut
  inNum := numIn
  outSg := fun i => ⟨⟨i, 0⟩, 4⟩
  inSg := fun _ => ⟨⟨9, 0⟩, 4⟩

def openRequest (sender : Nat) : Popped := ⟨sender, flatQemu, plainElement 1 1, fun _ => 0⟩

def closeRequest (sender : Nat) (fd : Byte) : Popped where
  sender := sender
  qemu := flatQemu
  elem := plainElement 2 0
  mem := fun p => if p = ⟨0, 0⟩ then 1 else if p = ⟨1, 0⟩ then fd else 0

-- QEMU has its standard descriptors. The first device opens one and closes it again.
theorem own_close_lawful :
    ∃ p, Run tableHost.next (fun _ _ => True) (.boot [0, 1, 2]) [openRequest 0, closeRequest 0 3] p ∧
      p.trail = [⟨0, 3, some 0⟩] ∧ ∀ fd ∈ [0, 1, 2], fd ∈ p.host := by
  obtain ⟨p, run, hp⟩ := Run.of_guarded tableHost.next (fun _ _ => True) (.boot [0, 1, 2])
    [openRequest 0, closeRequest 0 3] (fun p => decide (p.trail = [⟨0, 3, some 0⟩]))
    (by decide +kernel)
  have htrail := of_decide_eq_true hp
  have hlaw : p.Lawful := by simp [QemuProcess.Lawful, htrail]
  have hkept := (authority tableHost _ tableHost_tracks [0, 1, 2] _ p run).2.1 hlaw
  exact ⟨p, run, htrail, fun fd hfd => (hkept fd hfd).1⟩

-- The second device closes the descriptor of the first one, and one of QEMU's own.
theorem foreign_close_unlawful :
    ∃ p, Run tableHost.next (fun _ _ => True) (.boot [0, 1, 2])
        [openRequest 0, closeRequest 1 3, closeRequest 1 0] p ∧
      (closeRequest 1 3).elem.Layout (closeRequest 1 3).mem ∧
      p.trail = [⟨1, 3, some 0⟩, ⟨1, 0, none⟩] ∧ p.host = [1, 2] ∧ ¬p.Lawful := by
  obtain ⟨p, run, hp⟩ := Run.of_guarded tableHost.next (fun _ _ => True) (.boot [0, 1, 2])
    [openRequest 0, closeRequest 1 3, closeRequest 1 0]
    (fun p => decide (p.trail = [⟨1, 3, some 0⟩, ⟨1, 0, none⟩] ∧ p.host = [1, 2]))
    (by decide +kernel)
  obtain ⟨htrail, hhost⟩ := of_decide_eq_true hp
  refine ⟨p, run, ?_, htrail, hhost, fun hlaw => ?_⟩
  · have htype : (closeRequest 1 3).elem.syscallType (closeRequest 1 3).mem =
        VIRTIO_CRYPTO_SYSCALL_TYPE_CLOSE := by decide
    simp only [VirtQueueElement.Layout, htype, close_ne_open, if_true, if_false]
    exact ⟨⟨by decide, by decide⟩, by decide, by decide⟩
  · have hown := hlaw ⟨1, 3, some 0⟩ (by simp [htrail])
    cases hown

end Authority

end CryptodevChat.Virtio
