import CryptodevChat.Virtio.Accounts

namespace CryptodevChat.Virtio

open Lib (Byte Mem)

variable {σ : Type}

section Machine

-- The calls, with what each of them is, and the QEMU process, whose ledger is
-- kept for the open files of the guest.
structure Vfs (σ : Type) where
  core : State σ
  sys : Nat → Option Syscall
  proc : QemuProcess σ

def Vfs.boot (x : σ) : Vfs σ := ⟨State.boot x, fun _ => none, .boot x⟩

-- The request that the device has popped, for the file of its task.
def State.popped (c : Setup σ) (s : State σ) : Option Popped :=
  match s.device with
  | .popped _ buf =>
      (s.tasks buf.owner).map fun task => ⟨task.file, c.qemu buf.owner, buf.elem, task.mem⟩
  | _ => none

def Vfs.follow (c : Setup σ) (s : Vfs σ) (core : State σ) : Move → Vfs σ
  | .act (.call t _ sys _) => { s with core, sys := Function.update s.sys t (some sys) }
  | .act .handle => { s with core, proc := (s.core.popped c).elim s.proc (s.proc.serve c.host) }
  | _ => { s with core }

def Vfs.step (c : Setup σ) (s : Vfs σ) (m : Move) : Option (Vfs σ) :=
  (c.move s.core m).map fun core => s.follow c core m

def Prog.Over {α : Type} : Prog α → Prop
  | .ret _ | .oops => True
  | _ => False

def Prog.Allocates {α : Type} : Prog α → Prop
  | .kmalloc _ _ _ | .newCrof _ _ => True
  | _ => False

def Vfs.Has (s : Vfs σ) (t : Nat) (sys : Syscall) (task : Task σ) : Prop :=
  s.core.tasks t = some task ∧ s.sys t = some sys

-- An open file: its open has returned 0, and its release has not been called.
def Vfs.Open (s : Vfs σ) (f : Nat) : Prop :=
  (∃ t sys task, s.Has t sys task ∧ task.file = f) ∧
  ∀ t sys task, s.Has t sys task → task.file = f →
    match sys with
    | .openDev _ => task.prog = .ret 0
    | .ioctl _ _ => True
    | .release => False

-- How the kernel calls the driver: a `struct file` is opened once, an ioctl is
-- on an open file, and a release comes when the last call on the file is over.
-- Allocations succeed.
def Vfs.Disciplined (s : Vfs σ) : Move → Prop
  | .act (.call _ f (.openDev _) _) => ∀ t task, s.core.tasks t = some task → task.file ≠ f
  | .act (.call _ f (.ioctl _ _) _) => s.Open f
  | .act (.call _ f .release _) =>
      s.Open f ∧ ∀ t task, s.core.tasks t = some task → task.file = f → task.prog.Over
  | .act _ => True
  | .fail t _ => ∀ task, s.core.tasks t = some task → ¬task.prog.Allocates

-- No call is in progress.
def Vfs.Quiet (s : Vfs σ) : Prop := ∀ t task, s.core.tasks t = some task → task.prog.Over

end Machine

section Steps

-- Where the request of a task is.
def Past.req (past : Past σ) : Req :=
  match past.served with
  | some _ => .after
  | none =>
      match past.sent with
      | some (elem, _) => .sent elem
      | none => .before

theorem Past.req_sent (past : Past σ) (elem : VirtQueueElement) (mem : Mem Byte)
    (h : past.req = .before) : Past.req { past with sent := some (elem, mem) } = .sent elem := by
  cases hserved : past.served with
  | some x => simp [Past.req, hserved] at h
  | none => simp [Past.req]

variable {c : Setup σ} {s s' : State σ} {stage : Stage} {t : Nat} {task : Task σ}

-- What a step of a task does to the task and to its file.
structure State.Advances (s s' : State σ) (t : Nat) (task : Task σ) (sole : Bool)
    (held : Option Int) (task' : Task σ) (file : Option Crof) : Prop where
  tasks : s'.tasks = Function.update s.tasks t (some task')
  files : s'.files = Function.update s.files task.file file
  host : s'.host = s.host
  same : task'.file = task.file
  shared : sole = false → file = s.files task.file
  balances : task'.prog.Balances sole ⟨task'.mem, task'.sizes, file, held⟩ task'.past.req

theorem State.advances_put {sole : Bool} {held : Option Int} (task' : Task σ)
    (hsame : task'.file = task.file)
    (hbal : task'.prog.Balances sole ⟨task'.mem, task'.sizes, s.files task.file, held⟩ task'.past.req) :
    s.Advances (s.put t task') t task sole held task' (s.files task.file) :=
  ⟨rfl, (Function.update_eq_self _ _).symm, rfl, hsame, fun _ => rfl, hbal⟩

theorem run_advances {sole : Bool} {held : Option Int} (data : List Byte) (prog : Prog Int)
    (hbal : prog.Balances sole ⟨task.mem, task.sizes, s.files task.file, held⟩ task.past.req)
    (hused : ∀ v next, prog = .getBuf v next → (s.rings v).used ≠ [] → task.past.req = .after)
    (h : c.run s t task data prog = some s') :
    ∃ task' file, s.Advances s' t task sole held task' file := by
  cases prog with
  | ret a | oops => cases h
  | kmalloc size zeroed next =>
      cases h
      exact ⟨_, _, s.advances_put _ rfl hbal⟩
  | kfree p next | get block off n next =>
      cases h
      exact ⟨_, _, s.advances_put _ rfl hbal⟩
  | put block off bytes next =>
      obtain ⟨-, rfl⟩ := Setup.run_put h
      exact ⟨_, _, s.advances_put _ rfl hbal⟩
  | loadUser addr n next =>
      obtain ⟨-, rfl⟩ := Setup.run_loadUser h
      exact ⟨_, _, s.advances_put _ rfl (hbal.2 data)⟩
  | copyFromUser block addr n next =>
      obtain ⟨-, rfl⟩ := Setup.run_copyFromUser h
      exact ⟨_, _, s.advances_put _ rfl (hbal.2 data)⟩
  | copyToUser addr block n next =>
      cases h
      exact ⟨_, _, s.advances_put _ rfl (hbal true)⟩
  | nonseekableOpen next =>
      cases h
      exact ⟨_, _, s.advances_put _ rfl (hbal 0 (by decide))⟩
  | findDev minor next =>
      cases h
      exact ⟨_, _, s.advances_put _ rfl (hbal _)⟩
  | newCrof crof next =>
      cases h
      obtain ⟨rfl, hbal⟩ := hbal
      exact ⟨_, _, rfl, rfl, rfl, rfl, fun hsole => absurd hsole (by decide), hbal⟩
  | getCrof next =>
      obtain ⟨crof, hcrof, rfl⟩ := Setup.run_getCrof h
      exact ⟨_, _, s.advances_put _ rfl (hbal crof hcrof)⟩
  | setHostFd fd next =>
      cases h
      obtain ⟨rfl, hbal⟩ := hbal
      exact ⟨_, _, rfl, rfl, rfl, rfl, fun hsole => absurd hsole (by decide), hbal⟩
  | freeCrof next =>
      cases h
      obtain ⟨rfl, hbal⟩ := hbal
      exact ⟨_, _, rfl, rfl, rfl, rfl, fun hsole => absurd hsole (by decide), hbal⟩
  | spinLock next =>
      obtain ⟨-, rfl⟩ := Setup.run_spinLock h
      exact ⟨_, _, rfl, (Function.update_eq_self _ _).symm, rfl, rfl, fun _ => rfl, hbal⟩
  | spinUnlock next | kick v next =>
      cases h
      exact ⟨_, _, rfl, (Function.update_eq_self _ _).symm, rfl, rfl, fun _ => rfl, hbal⟩
  | addSgs v sgs numOut numIn next =>
      cases h
      obtain ⟨hbefore, hbal⟩ := hbal
      refine ⟨_, _, rfl, (Function.update_eq_self _ _).symm, rfl, rfl, fun _ => rfl, ?_⟩
      rw [Past.req_sent task.past _ task.mem hbefore]
      exact hbal
  | getBuf v next =>
      obtain ⟨buf, used, hring, rfl⟩ := Setup.run_getBuf h
      have hafter := hused v next rfl (by simp [hring])
      rw [hafter] at hbal
      refine ⟨_, _, rfl, (Function.update_eq_self _ _).symm, rfl, rfl, fun _ => rfl, ?_⟩
      rw [show Past.req { task.past with got := some buf } = task.past.req from rfl, hafter]
      exact hbal

theorem fail_advances {sole : Bool} {held : Option Int} (ret : Int) (prog : Prog Int)
    (hbal : prog.Balances sole ⟨task.mem, task.sizes, s.files task.file, held⟩ task.past.req)
    (hok : ¬prog.Allocates)
    (h : Setup.fail s t task ret prog = some s') :
    ∃ task' file, s.Advances s' t task sole held task' file := by
  cases prog with
  | kmalloc | newCrof => exact absurd trivial hok
  | loadUser addr n next =>
      cases h
      exact ⟨_, _, s.advances_put _ rfl hbal.1⟩
  | copyFromUser block addr n next =>
      cases h
      exact ⟨_, _, s.advances_put _ rfl hbal.1⟩
  | copyToUser addr block n next =>
      cases h
      exact ⟨_, _, s.advances_put _ rfl (hbal false)⟩
  | nonseekableOpen next =>
      simp only [Setup.fail] at h
      split_ifs at h with hneg
      cases h
      exact ⟨_, _, s.advances_put _ rfl (hbal ret (by omega))⟩
  | ret | oops | kfree | put | get | findDev | getCrof | setHostFd | freeCrof | spinLock
  | spinUnlock | addSgs | kick | getBuf => cases h

end Steps

end CryptodevChat.Virtio
