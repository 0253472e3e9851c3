import CryptodevChat.Virtio.Exec
import CryptodevChat.Lib.Run

namespace CryptodevChat.Virtio

open Lib (Byte Loc Mem)

-- A buffer of a ring, with the task that added it.
structure Buf where
  owner : Nat
  elem : VirtQueueElement

-- The descriptors of a buffer are in use until the driver takes it back.
structure Ring where
  avail : List Buf
  used : List Buf
  free : Nat

def Ring.empty : Ring := ⟨[], [], VQ_SIZE⟩

-- `virtqueue_add_sgs`, which leaves a ring without room as it is.
def Ring.add (ring : Ring) (buf : Buf) : Ring :=
  if buf.elem.descs ≤ ring.free then
    { ring with avail := ring.avail ++ [buf], free := ring.free - buf.elem.descs }
  else ring

-- Where `vq_handle_output` is. It runs for one notification at a time.
inductive Device
  | idle
  | popped (v : Nat) (buf : Buf)
  | handled (v : Nat) (buf : Buf)

-- What happened to the request of a task. No step depends on it: what was
-- added with which memory, how often it was popped and pushed, the state of
-- the host when it was handled, and the buffer that the task took back.
structure Past (σ : Type) where
  sent : Option (VirtQueueElement × Mem Byte)
  pops : Nat
  served : Option σ
  pushes : Nat
  got : Option Buf

def Past.fresh {σ : Type} : Past σ := ⟨none, 0, none, 0, none⟩

-- One call of the driver that is under way or has returned.
structure Task (σ : Type) where
  file : Nat
  prog : Prog Int
  mem : Mem Byte
  sizes : List Nat
  past : Past σ

-- `files` are the `private_data` of the open files, and `kicks` the
-- notifications that the device has not looked at.
structure State (σ : Type) where
  tasks : Nat → Option (Task σ)
  files : Nat → Option Crof
  lock : Option Nat
  rings : Nat → Ring
  kicks : List Nat
  device : Device
  host : σ

-- The devices that were probed, the host, and where QEMU sees the objects of each task.
structure Setup (σ : Type) where
  devs : Nat → Option Nat
  host : Host σ
  qemu : Nat → Qemu

inductive Syscall
  | openDev (minor : Nat)
  | ioctl (cmd arg : Nat)
  | release

def Syscall.prog : Syscall → Prog Int
  | .openDev minor => cryptoChrdevOpen minor
  | .ioctl cmd arg => cryptoChrdevIoctl cmd arg
  | .release => cryptoChrdevRelease

inductive Act
  | call (t file : Nat) (sys : Syscall) (mem : Mem Byte)
  | run (t : Nat) (data : List Byte)
  | pop (v : Nat)
  | handle
  | push

variable {σ : Type}

def State.boot (host : σ) : State σ where
  tasks := fun _ => none
  files := fun _ => none
  lock := none
  rings := fun _ => Ring.empty
  kicks := []
  device := .idle
  host := host

def State.put (s : State σ) (t : Nat) (task : Task σ) : State σ :=
  { s with tasks := Function.update s.tasks t (some task) }

def State.note (s : State σ) (t : Nat) (f : Past σ → Past σ) : State σ :=
  { s with
    tasks := Function.update s.tasks t
      ((s.tasks t).map fun task => { task with past := f task.past }) }

-- The next step of a task. `data` is what a read from user space finds, which
-- may differ from one read to the next. Allocations and copies succeed. There
-- is no step while the lock is held, nor while `virtqueue_get_buf` returns NULL.
def Setup.run (c : Setup σ) (s : State σ) (t : Nat) (task : Task σ) (data : List Byte) :
    Prog Int → Option (State σ)
  | .ret _ => none
  | .oops => none
  | .kmalloc size zeroed next =>
      some (s.put t { task with
        prog := next (some task.sizes.length)
        sizes := task.sizes ++ [size]
        mem := if zeroed then Mem.fill task.mem task.sizes.length 0 else task.mem })
  | .kfree _ next => some (s.put t { task with prog := next })
  | .put block off bytes next =>
      if off + bytes.length ≤ task.sizes.getD block 0 then
        some (s.put t { task with prog := next, mem := Mem.store task.mem ⟨block, off⟩ bytes })
      else none
  | .get block off n next =>
      some (s.put t { task with prog := next (Mem.load task.mem ⟨block, off⟩ n) })
  | .loadUser _ n next =>
      if data.length = n then some (s.put t { task with prog := next data }) else none
  | .copyFromUser block _ n next =>
      if data.length = n ∧ n ≤ task.sizes.getD block 0 then
        some (s.put t { task with prog := next true, mem := Mem.store task.mem ⟨block, 0⟩ data })
      else none
  | .copyToUser _ _ _ next => some (s.put t { task with prog := next true })
  | .nonseekableOpen next => some (s.put t { task with prog := next 0 })
  | .findDev minor next => some (s.put t { task with prog := next (c.devs minor) })
  | .newCrof crof next =>
      some { s.put t { task with prog := next true } with
        files := Function.update s.files task.file (some crof) }
  | .getCrof next =>
      match s.files task.file with
      | some crof => some (s.put t { task with prog := next crof })
      | none => none
  | .setHostFd fd next =>
      some { s.put t { task with prog := next } with
        files := Function.update s.files task.file
          ((s.files task.file).map fun crof => { crof with hostFd := fd }) }
  | .freeCrof next =>
      some { s.put t { task with prog := next } with
        files := Function.update s.files task.file none }
  | .spinLock next =>
      match s.lock with
      | none => some { s.put t { task with prog := next } with lock := some t }
      | some _ => none
  | .spinUnlock next => some { s.put t { task with prog := next } with lock := none }
  | .addSgs v sgs numOut numIn next =>
      let elem := toElement sgs numOut numIn
      some { s.put t { task with
          prog := next
          past := { task.past with sent := some (elem, task.mem) } } with
        rings := Function.update s.rings v ((s.rings v).add ⟨t, elem⟩) }
  | .kick v next => some { s.put t { task with prog := next } with kicks := s.kicks ++ [v] }
  | .getBuf v next =>
      match (s.rings v).used with
      | [] => none
      | buf :: used =>
          some { s.put t { task with prog := next, past := { task.past with got := some buf } } with
            rings := Function.update s.rings v
              { s.rings v with used, free := (s.rings v).free + buf.elem.descs } }

-- One step of the guest or of the device. The device pops an element, handles
-- it and pushes it back; a notification without an element does nothing.
def Setup.step (c : Setup σ) (s : State σ) : Act → Option (State σ)
  | .call t file sys mem =>
      match s.tasks t with
      | none => some (s.put t ⟨file, sys.prog, mem, [], Past.fresh⟩)
      | some _ => none
  | .run t data =>
      match s.tasks t with
      | some task => c.run s t task data task.prog
      | none => none
  | .pop v =>
      match s.device with
      | .idle =>
          if v ∈ s.kicks then
            match (s.rings v).avail with
            | [] => some { s with kicks := s.kicks.erase v }
            | buf :: avail =>
                some { s.note buf.owner fun past => { past with pops := past.pops + 1 } with
                  kicks := s.kicks.erase v
                  rings := Function.update s.rings v { s.rings v with avail }
                  device := .popped v buf }
          else none
      | _ => none
  | .handle =>
      match s.device with
      | .popped v buf =>
          match s.tasks buf.owner with
          | some task =>
              let b := ((handleElem c.host (c.qemu buf.owner) buf.elem).run ⟨task.mem, s.host, []⟩).2
              some { s.put buf.owner { task with
                  mem := b.mem
                  past := { task.past with served := some s.host } } with
                host := b.host
                device := .handled v buf }
          | none => none
      | _ => none
  | .push =>
      match s.device with
      | .handled v buf =>
          some { s.note buf.owner fun past => { past with pushes := past.pushes + 1 } with
            rings := Function.update s.rings v { s.rings v with used := (s.rings v).used ++ [buf] }
            device := .idle }
      | _ => none

section Inversion

-- What is known of a step that was taken: its condition and its result.
variable {c : Setup σ} {s s' : State σ} {t : Nat} {task : Task σ} {data : List Byte}

theorem Setup.run_put {block off : Nat} {bytes : List Byte} {next : Prog Int}
    (h : c.run s t task data (.put block off bytes next) = some s') :
    off + bytes.length ≤ task.sizes.getD block 0 ∧
      s' = s.put t { task with prog := next, mem := Mem.store task.mem ⟨block, off⟩ bytes } := by
  simp only [Setup.run] at h
  split_ifs at h with hfits
  cases h
  exact ⟨hfits, rfl⟩

theorem Setup.run_loadUser {addr n : Nat} {next : List Byte → Prog Int}
    (h : c.run s t task data (.loadUser addr n next) = some s') :
    data.length = n ∧ s' = s.put t { task with prog := next data } := by
  simp only [Setup.run] at h
  split_ifs at h with hlen
  cases h
  exact ⟨hlen, rfl⟩

theorem Setup.run_copyFromUser {block addr n : Nat} {next : Bool → Prog Int}
    (h : c.run s t task data (.copyFromUser block addr n next) = some s') :
    (data.length = n ∧ n ≤ task.sizes.getD block 0) ∧
      s' = s.put t { task with prog := next true, mem := Mem.store task.mem ⟨block, 0⟩ data } := by
  simp only [Setup.run] at h
  split_ifs at h with hfits
  cases h
  exact ⟨hfits, rfl⟩

theorem Setup.run_getCrof {next : Crof → Prog Int}
    (h : c.run s t task data (.getCrof next) = some s') :
    ∃ crof, s.files task.file = some crof ∧ s' = s.put t { task with prog := next crof } := by
  simp only [Setup.run] at h
  split at h
  · rename_i crof hcrof
    cases h
    exact ⟨crof, hcrof, rfl⟩
  · cases h

theorem Setup.run_spinLock {next : Prog Int} (h : c.run s t task data (.spinLock next) = some s') :
    s.lock = none ∧ s' = { s.put t { task with prog := next } with lock := some t } := by
  simp only [Setup.run] at h
  split at h
  · rename_i hlock
    cases h
    exact ⟨hlock, rfl⟩
  · cases h

theorem Setup.run_getBuf {v : Nat} {next : Prog Int}
    (h : c.run s t task data (.getBuf v next) = some s') :
    ∃ buf used, (s.rings v).used = buf :: used ∧
      s' = { s.put t { task with prog := next, past := { task.past with got := some buf } } with
        rings := Function.update s.rings v
          { s.rings v with used, free := (s.rings v).free + buf.elem.descs } } := by
  simp only [Setup.run] at h
  split at h
  · cases h
  · rename_i buf used hused
    cases h
    exact ⟨buf, used, hused, rfl⟩

theorem Setup.step_call {file : Nat} {sys : Syscall} {mem : Mem Byte}
    (h : c.step s (.call t file sys mem) = some s') :
    s.tasks t = none ∧ s' = s.put t ⟨file, sys.prog, mem, [], Past.fresh⟩ := by
  simp only [Setup.step] at h
  split at h
  · rename_i hnone
    cases h
    exact ⟨hnone, rfl⟩
  · cases h

theorem Setup.step_run (h : c.step s (.run t data) = some s') :
    ∃ task, s.tasks t = some task ∧ c.run s t task data task.prog = some s' := by
  simp only [Setup.step] at h
  split at h
  · rename_i task ht
    exact ⟨task, ht, h⟩
  · cases h

theorem Setup.step_pop {v : Nat} (h : c.step s (.pop v) = some s') :
    s.device = .idle ∧ v ∈ s.kicks ∧
      (((s.rings v).avail = [] ∧ s' = { s with kicks := s.kicks.erase v }) ∨
        ∃ buf avail, (s.rings v).avail = buf :: avail ∧
          s' = { s.note buf.owner fun past => { past with pops := past.pops + 1 } with
            kicks := s.kicks.erase v
            rings := Function.update s.rings v { s.rings v with avail }
            device := .popped v buf }) := by
  simp only [Setup.step] at h
  split at h
  · rename_i hdevice
    split_ifs at h with hkick
    split at h
    · rename_i havail
      cases h
      exact ⟨hdevice, hkick, .inl ⟨havail, rfl⟩⟩
    · rename_i buf avail havail
      cases h
      exact ⟨hdevice, hkick, .inr ⟨buf, avail, havail, rfl⟩⟩
  · cases h

theorem Setup.step_handle (h : c.step s .handle = some s') :
    ∃ v buf task, s.device = .popped v buf ∧ s.tasks buf.owner = some task ∧
      s' = { s.put buf.owner { task with
          mem := ((handleElem c.host (c.qemu buf.owner) buf.elem).run ⟨task.mem, s.host, []⟩).2.mem
          past := { task.past with served := some s.host } } with
        host := ((handleElem c.host (c.qemu buf.owner) buf.elem).run ⟨task.mem, s.host, []⟩).2.host
        device := .handled v buf } := by
  simp only [Setup.step] at h
  split at h
  · rename_i v buf hdevice
    split at h
    · rename_i task ht
      cases h
      exact ⟨v, buf, task, hdevice, ht, rfl⟩
    · cases h
  · cases h

theorem Setup.step_push (h : c.step s .push = some s') :
    ∃ v buf, s.device = .handled v buf ∧
      s' = { s.note buf.owner fun past => { past with pushes := past.pushes + 1 } with
        rings := Function.update s.rings v { s.rings v with used := (s.rings v).used ++ [buf] }
        device := .idle } := by
  simp only [Setup.step] at h
  split at h
  · rename_i v buf hdevice
    cases h
    exact ⟨v, buf, hdevice, rfl⟩
  · cases h

end Inversion

end CryptodevChat.Virtio
