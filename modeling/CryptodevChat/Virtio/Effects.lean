import CryptodevChat.Virtio.Exec

namespace CryptodevChat.Virtio

open Lib (Byte)

section Effects

-- A program that has nothing to do with devices and files.
def Prog.Apart {α : Type} : Prog α → Prop
  | .ret _ | .oops => True
  | .kmalloc _ _ next => ∀ p, (next p).Apart
  | .kfree _ next => next.Apart
  | .put _ _ _ next => next.Apart
  | .get _ _ _ next => ∀ data, (next data).Apart
  | .loadUser _ _ next => ∀ data, (next data).Apart
  | .copyFromUser _ _ _ next => ∀ ok, (next ok).Apart
  | .copyToUser _ _ _ next => ∀ ok, (next ok).Apart
  | .nonseekableOpen next => ∀ ret, (next ret).Apart
  | .findDev _ _ | .newCrof _ _ | .getCrof _ | .setHostFd _ _ | .freeCrof _ | .spinLock _
  | .spinUnlock _ | .addSgs _ _ _ _ _ | .kick _ _ | .getBuf _ _ => False

theorem Prog.Apart.bind {α β : Type} {x : Prog α} {f : α → Prog β} (hx : x.Apart)
    (hf : ∀ a, (f a).Apart) : (x >>= f).Apart := by
  change (x.bind f).Apart
  induction x with
  | ret a => exact hf a
  | oops => trivial
  | kmalloc _ _ _ ih | get _ _ _ _ ih | loadUser _ _ _ ih | copyFromUser _ _ _ _ ih
  | copyToUser _ _ _ _ ih | nonseekableOpen _ ih => exact fun a => ih a (hx a)
  | kfree _ _ ih | put _ _ _ _ ih => exact ih hx
  | findDev | newCrof | getCrof | setHostFd | freeCrof | spinLock | spinUnlock | addSgs | kick
  | getBuf => exact hx.elim

theorem Prog.Apart.quiet {α : Type} {x : Prog α} (h : x.Apart) : x.Quiet := by
  induction x with
  | ret | oops => trivial
  | kmalloc _ _ _ ih | get _ _ _ _ ih | loadUser _ _ _ ih | copyFromUser _ _ _ _ ih
  | copyToUser _ _ _ _ ih | nonseekableOpen _ ih => exact fun a => ih a (h a)
  | kfree _ _ ih | put _ _ _ _ ih => exact ih h
  | findDev | newCrof | getCrof | setHostFd | freeCrof | spinLock | spinUnlock | addSgs | kick
  | getBuf => exact h.elim

end Effects

section Driver

theorem apart_pure {α : Type} (a : α) : (pure a : Prog α).Apart := trivial
theorem apart_kzalloc (size : Nat) : (kzalloc size).Apart := fun _ => trivial
theorem apart_kmalloc (size : Nat) : (kmalloc size).Apart := fun _ => trivial
theorem apart_kfree (p : Ptr) : (kfree p).Apart := trivial
theorem apart_deref (p : Ptr) : (deref p).Apart := by cases p <;> trivial
theorem apart_store (p : Ptr) (data : List Byte) : (store p data).Apart := by cases p <;> trivial
theorem apart_load (p : Ptr) (off n : Nat) : (load p off n).Apart :=
  (apart_deref p).bind fun _ _ => trivial
theorem apart_sgInitOne (p : Ptr) (len : Nat) : (sgInitOne p len).Apart := by cases p <;> trivial
theorem apart_loadUser (addr n : Nat) : (loadUser addr n).Apart := fun _ => trivial
theorem apart_copyFromUser (p : Ptr) (addr n : Nat) : (copyFromUser p addr n).Apart :=
  (apart_deref p).bind fun _ _ => trivial
theorem apart_copyToUser (addr : Nat) (p : Ptr) (n : Nat) : (copyToUser addr p n).Apart :=
  (apart_deref p).bind fun _ _ => trivial

theorem allocObjects_apart (arg : Nat) : (allocObjects arg).Apart := by
  unfold allocObjects
  repeat' first
    | exact apart_kzalloc _ | exact apart_kmalloc _ | exact apart_loadUser _ _ | exact apart_pure _
    | refine Prog.Apart.bind ?_ fun _ => ?_

theorem cmdSgs_apart (cmd arg : Nat) (o : Objects) : (cmdSgs cmd arg o).Apart := by
  unfold cmdSgs
  repeat' first
    | exact apart_copyFromUser _ _ _ | exact apart_loadUser _ _ | exact apart_load _ _ _
    | exact apart_sgInitOne _ _ | exact apart_pure _
    | refine Prog.Apart.bind ?_ fun _ => ?_
    | split

theorem copyBack_apart (cmd arg : Nat) (o : Objects) : (copyBack cmd arg o).Apart := by
  unfold copyBack
  repeat' first
    | exact apart_copyToUser _ _ _ | exact apart_loadUser _ _ | exact apart_load _ _ _
    | exact apart_pure _
    | refine Prog.Apart.bind ?_ fun _ => ?_
    | split

theorem freeObjects_apart (o : Objects) : (freeObjects o).Apart := by
  unfold freeObjects
  repeat' first
    | exact apart_kfree _
    | refine Prog.Apart.bind ?_ fun _ => ?_

theorem reply_apart (cmd arg : Nat) (c : Common) (o : Objects) : (reply cmd arg c o).Apart := by
  unfold reply
  refine (copyBack_apart cmd arg o).bind fun ok => ?_
  cases ok with
  | false => exact apart_pure _
  | true =>
      refine (apart_kfree _).bind fun _ => (apart_kfree _).bind fun _ => (apart_kfree _).bind fun _ => ?_
      exact (freeObjects_apart o).bind fun _ => (apart_load _ _ _).bind fun _ => apart_pure _

end Driver

end CryptodevChat.Virtio
