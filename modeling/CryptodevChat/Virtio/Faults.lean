import CryptodevChat.Virtio.Serial

namespace CryptodevChat.Virtio

open Lib (Byte Loc Mem Run)

variable {σ : Type}

-- A step of the guest or of the device, or a service of the kernel that fails a task.
inductive Move
  | act (a : Act)
  | fail (t : Nat) (ret : Int)

-- The services that can fail. A load through a bad pointer kills the process.
def Setup.fail (s : State σ) (t : Nat) (task : Task σ) (ret : Int) : Prog Int → Option (State σ)
  | .kmalloc size _ next =>
      some (s.put t { task with prog := next none, sizes := task.sizes ++ [size] })
  | .loadUser _ _ _ => some (s.put t { task with prog := .oops })
  | .copyFromUser _ _ _ next => some (s.put t { task with prog := next false })
  | .copyToUser _ _ _ next => some (s.put t { task with prog := next false })
  | .nonseekableOpen next => if ret < 0 then some (s.put t { task with prog := next ret }) else none
  | .newCrof _ next => some (s.put t { task with prog := next false })
  | _ => none

def Setup.move (c : Setup σ) (s : State σ) : Move → Option (State σ)
  | .act a => c.step s a
  | .fail t ret =>
      match s.tasks t with
      | some task => Setup.fail s t task ret task.prog
      | none => none

theorem Setup.move_fail {c : Setup σ} {s s' : State σ} {t : Nat} {ret : Int}
    (h : c.move s (.fail t ret) = some s') :
    ∃ task, s.tasks t = some task ∧ Setup.fail s t task ret task.prog = some s' := by
  simp only [Setup.move] at h
  split at h
  · rename_i task ht
    exact ⟨task, ht, h⟩
  · cases h

-- A failure is a step that the task takes by itself.
theorem fail_cases (s s' : State σ) (t : Nat) (task : Task σ) (ret : Int) (prog : Prog Int)
    (h : Setup.fail s t task ret prog = some s') :
    ∃ task', s' = s.put t task' ∧ task.Continues task' prog ∧ task'.file = task.file := by
  cases prog with
  | kmalloc size zeroed next =>
      cases h
      exact ⟨_, rfl, ⟨rfl, fun _ _ hf => hf.2 _, fun _ _ hf => .inl (.inl hf.1),
        fun _ _ hf => .inl hf.1⟩, rfl⟩
  | loadUser addr n next =>
      cases h
      exact ⟨_, rfl, ⟨rfl, fun _ _ hf => hf.1, fun _ _ hf => .inl hf.1, fun _ _ _ => .inr rfl⟩, rfl⟩
  | copyFromUser block addr n next =>
      cases h
      exact ⟨_, rfl, ⟨rfl, fun _ _ hf => hf.2 _, fun _ _ hf => .inl (.inl hf.1),
        fun _ _ hf => .inl hf.1⟩, rfl⟩
  | copyToUser addr block n next =>
      cases h
      exact ⟨_, rfl, ⟨rfl, fun _ _ hf => hf.2 _, fun _ _ hf => .inl hf.1,
        fun _ _ _ => .inr rfl⟩, rfl⟩
  | nonseekableOpen next =>
      simp only [Setup.fail] at h
      split_ifs at h
      cases h
      exact ⟨_, rfl, ⟨rfl, fun _ _ hf => hf.2 _, fun _ _ hf => .inl hf.1,
        fun _ _ _ => .inr rfl⟩, rfl⟩
  | newCrof crof next =>
      cases h
      exact ⟨_, rfl, ⟨rfl, fun _ _ hf => hf.2 _, fun _ _ hf => .inl hf.1,
        fun _ _ _ => .inr rfl⟩, rfl⟩
  | ret | oops | kfree | put | get | findDev | getCrof | setHostFd | freeCrof | spinLock
  | spinUnlock | addSgs | kick | getBuf => cases h

end CryptodevChat.Virtio
