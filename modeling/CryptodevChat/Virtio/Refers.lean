import CryptodevChat.Virtio.Faults
import CryptodevChat.Virtio.Effects

namespace CryptodevChat.Virtio

open Lib (Byte Loc Mem Run)

variable {σ : Type}

section Within

-- What is left of a call uses a device only if it holds a pointer to it, which
-- is so for those in `P` and for what it looks up or finds in its file.
def Prog.WithinThen {α : Type} (post : α → (Nat → Prop) → Prop) : Prog α → (Nat → Prop) → Prop
  | .ret a, P => post a P
  | .oops, _ => True
  | .kmalloc _ _ next, P => ∀ p, (next p).WithinThen post P
  | .kfree _ next, P => next.WithinThen post P
  | .put _ _ _ next, P => next.WithinThen post P
  | .get _ _ _ next, P => ∀ data, (next data).WithinThen post P
  | .loadUser _ _ next, P => ∀ data, (next data).WithinThen post P
  | .copyFromUser _ _ _ next, P => ∀ ok, (next ok).WithinThen post P
  | .copyToUser _ _ _ next, P => ∀ ok, (next ok).WithinThen post P
  | .nonseekableOpen next, P => ∀ ret, (next ret).WithinThen post P
  | .findDev _ next, P => ∀ crdev, (next crdev).WithinThen post fun v => P v ∨ crdev = some v
  | .newCrof crof next, P => P crof.crdev ∧ ∀ ok, (next ok).WithinThen post P
  | .getCrof next, P => ∀ crof, (next crof).WithinThen post fun v => P v ∨ crof.crdev = v
  | .setHostFd _ next, P => next.WithinThen post P
  | .freeCrof next, P => next.WithinThen post P
  | .spinLock next, P => next.WithinThen post P
  | .spinUnlock next, P => next.WithinThen post P
  | .addSgs v _ _ _ next, P => P v ∧ next.WithinThen post P
  | .kick v next, P => P v ∧ next.WithinThen post P
  | .getBuf v next, P => P v ∧ next.WithinThen post P

abbrev Prog.Within (prog : Prog Int) (P : Nat → Prop) : Prop := prog.WithinThen (fun _ _ => True) P

theorem Prog.Within.mono {prog : Prog Int} {P : Nat → Prop} (h : prog.Within P) (Q : Nat → Prop)
    (hPQ : ∀ v, P v → Q v) : prog.Within Q := by
  induction prog generalizing P Q with
  | ret a | oops => trivial
  | kmalloc _ _ _ ih | get _ _ _ _ ih | loadUser _ _ _ ih | copyFromUser _ _ _ _ ih
  | copyToUser _ _ _ _ ih | nonseekableOpen _ ih => exact fun a => ih a (h a) Q hPQ
  | kfree _ _ ih | put _ _ _ _ ih | setHostFd _ _ ih | freeCrof _ ih | spinLock _ ih
  | spinUnlock _ ih => exact ih h Q hPQ
  | findDev _ _ ih | getCrof _ ih => exact fun a => ih a (h a) _ fun v => Or.imp_left (hPQ v)
  | newCrof crof next ih => exact ⟨hPQ _ h.1, fun ok => ih ok (h.2 ok) Q hPQ⟩
  | addSgs _ _ _ _ _ ih | kick _ _ ih | getBuf _ _ ih => exact ⟨hPQ _ h.1, ih h.2 Q hPQ⟩

theorem within_and (prog : Prog Int) (P Q : Nat → Prop) :
    prog.Within (fun v => P v ∧ Q v) ↔ prog.Within P ∧ prog.Within Q := by
  constructor
  · exact fun h => ⟨h.mono P fun _ => And.left, h.mono Q fun _ => And.right⟩
  · rintro ⟨hP, hQ⟩
    have hlookup : ∀ {prog : Prog Int} (R : Nat → Prop) {P Q : Nat → Prop},
        prog.Within (fun v => (P v ∨ R v) ∧ (Q v ∨ R v)) → prog.Within fun v => (P v ∧ Q v) ∨ R v :=
      fun R _ _ h => h.mono _ fun _ => and_or_right.mpr
    induction prog generalizing P Q with
    | ret a | oops => trivial
    | kmalloc _ _ _ ih | get _ _ _ _ ih | loadUser _ _ _ ih | copyFromUser _ _ _ _ ih
    | copyToUser _ _ _ _ ih | nonseekableOpen _ ih => exact fun a => ih a P Q (hP a) (hQ a)
    | kfree _ _ ih | put _ _ _ _ ih | setHostFd _ _ ih | freeCrof _ ih | spinLock _ ih
    | spinUnlock _ ih => exact ih P Q hP hQ
    | findDev _ _ ih | getCrof _ ih => exact fun a => hlookup _ (ih a _ _ (hP a) (hQ a))
    | newCrof crof next ih => exact ⟨⟨hP.1, hQ.1⟩, fun ok => ih ok P Q (hP.2 ok) (hQ.2 ok)⟩
    | addSgs _ _ _ _ _ ih | kick _ _ ih | getBuf _ _ ih =>
        exact ⟨⟨hP.1, hQ.1⟩, ih P Q hP.2 hQ.2⟩

theorem within_then {α β : Type} (post : β → (Nat → Prop) → Prop) (x : Prog α) (f : α → Prog β)
    (P : Nat → Prop) (h : x.WithinThen (fun a P => (f a).WithinThen post P) P) :
    (x >>= f).WithinThen post P := by
  change (x.bind f).WithinThen post P
  induction x generalizing P with
  | ret a => exact h
  | oops => trivial
  | kmalloc _ _ _ ih | get _ _ _ _ ih | loadUser _ _ _ ih | copyFromUser _ _ _ _ ih
  | copyToUser _ _ _ _ ih | nonseekableOpen _ ih | findDev _ _ ih | getCrof _ ih =>
      exact fun a => ih a _ (h a)
  | kfree _ _ ih | put _ _ _ _ ih | setHostFd _ _ ih | freeCrof _ ih | spinLock _ ih
  | spinUnlock _ ih => exact ih P h
  | newCrof crof next ih => exact ⟨h.1, fun ok => ih ok P (h.2 ok)⟩
  | addSgs _ _ _ _ _ ih | kick _ _ ih | getBuf _ _ ih => exact ⟨h.1, ih P h.2⟩

theorem Prog.Apart.within {α : Type} {x : Prog α} (h : x.Apart)
    {post : α → (Nat → Prop) → Prop} {P : Nat → Prop} (hpost : ∀ a, post a P) :
    x.WithinThen post P := by
  induction x with
  | ret a => exact hpost a
  | oops => trivial
  | kmalloc _ _ _ ih | get _ _ _ _ ih | loadUser _ _ _ ih | copyFromUser _ _ _ _ ih
  | copyToUser _ _ _ _ ih | nonseekableOpen _ ih => exact fun a => ih a (h a)
  | kfree _ _ ih | put _ _ _ _ ih => exact ih h
  | findDev | newCrof | getCrof | setHostFd | freeCrof | spinLock | spinUnlock | addSgs | kick
  | getBuf => exact h.elim

end Within

section Driver

variable {α β : Type} {P : Nat → Prop} {post : β → (Nat → Prop) → Prop}

-- A part of a call that has nothing to do with devices.
theorem within_apart {x : Prog α} {f : α → Prog β} (hx : x.Apart)
    (h : ∀ a, (f a).WithinThen post P) : (x >>= f).WithinThen post P :=
  within_then post x f P (hx.within h)

theorem within_submit {f : Unit → Prog β} (v : Nat) (sgs : List Sg) (numOut numIn : Nat) (hv : P v)
    (h : (f ()).WithinThen post P) : (submit v sgs numOut numIn >>= f).WithinThen post P :=
  ⟨hv, hv, hv, h⟩

theorem within_getCrof {f : Crof → Prog β}
    (h : ∀ crof, (f crof).WithinThen post fun v => P v ∨ crof.crdev = v) :
    (getCrof >>= f).WithinThen post P := h

theorem within_newCrof {f : Bool → Prog β} (crof : Crof) (hP : P crof.crdev)
    (h : ∀ ok, (f ok).WithinThen post P) : (newCrof crof >>= f).WithinThen post P := ⟨hP, h⟩

theorem within_setHostFd {f : Unit → Prog β} (fd : Int) (h : (f ()).WithinThen post P) :
    (setHostFd fd >>= f).WithinThen post P := h

theorem within_freeCrof {f : Unit → Prog β} (h : (f ()).WithinThen post P) :
    (freeCrof >>= f).WithinThen post P := h

theorem within_lookup {f : Option Nat → Prog β} (minor : Nat)
    (h : ∀ crdev, (f crdev).WithinThen post fun v => P v ∨ crdev = some v) :
    (getCryptoDevByMinor minor >>= f).WithinThen post P := h

theorem open_within (minor : Nat) : (cryptoChrdevOpen minor).Within fun _ => False := by
  unfold cryptoChrdevOpen
  refine within_apart (apart_kzalloc _) fun syscallType => within_apart (apart_kzalloc _) fun hostFd => ?_
  refine within_apart (apart_store _ _) fun _ => within_apart (apart_store _ _) fun _ => ?_
  refine within_apart (x := nonseekableOpen) (fun _ => trivial) fun ret => ?_
  split_ifs
  · trivial
  refine within_lookup minor fun crdev => ?_
  cases crdev with
  | none => trivial
  | some crdev =>
      refine within_newCrof _ (.inr rfl) fun ok => ?_
      cases ok with
      | false => trivial
      | true =>
          refine within_apart (apart_sgInitOne _ _) fun syscallTypeSg => ?_
          refine within_apart (apart_sgInitOne _ _) fun fileDescriptorSg => ?_
          refine within_submit crdev _ _ _ (.inr rfl) ?_
          refine within_apart (apart_load _ _ _) fun fd => within_setHostFd _ ?_
          exact within_apart (apart_kfree _) fun _ => within_apart (apart_kfree _) fun _ => trivial

theorem release_within : cryptoChrdevRelease.Within fun _ => False := by
  unfold cryptoChrdevRelease
  refine within_getCrof fun crof => ?_
  refine within_apart (apart_kzalloc _) fun syscallType => within_apart (apart_store _ _) fun _ => ?_
  refine within_apart (apart_kzalloc _) fun hostFd => within_apart (apart_store _ _) fun _ => ?_
  refine within_apart (apart_sgInitOne _ _) fun syscallTypeSg => ?_
  refine within_apart (apart_sgInitOne _ _) fun fileDescriptorSg => ?_
  refine within_submit crof.crdev _ _ _ (.inr rfl) (within_freeCrof ?_)
  exact within_apart (apart_kfree _) fun _ => within_apart (apart_kfree _) fun _ => trivial

theorem allocCommon_within (cmd : Nat) {post : Common → (Nat → Prop) → Prop}
    (h : ∀ c : Common, post c fun v => P v ∨ c.crdev = v) : (allocCommon cmd).WithinThen post P := by
  unfold allocCommon
  refine within_getCrof fun crof => ?_
  refine within_apart (apart_kzalloc _) fun syscallType => within_apart (apart_store _ _) fun _ => ?_
  refine within_apart (apart_kzalloc _) fun hostFd => within_apart (apart_store _ _) fun _ => ?_
  refine within_apart (apart_kzalloc _) fun ioctlCmd => within_apart (apart_store _ _) fun _ => ?_
  refine within_apart (apart_kzalloc _) fun hostReturnVal => ?_
  refine within_apart (apart_sgInitOne _ _) fun syscallTypeSg => ?_
  refine within_apart (apart_sgInitOne _ _) fun hostFdSg => ?_
  exact within_apart (apart_sgInitOne _ _) fun ioctlCmdSg => h ⟨crof.crdev, _, _, _, _, _⟩

theorem ioctl_within (cmd arg : Nat) : (cryptoChrdevIoctl cmd arg).Within fun _ => False := by
  unfold cryptoChrdevIoctl
  refine within_then _ _ _ _ (allocCommon_within cmd fun c => ?_)
  refine within_apart (allocObjects_apart arg) fun o => within_apart (cmdSgs_apart cmd arg o) fun r => ?_
  cases r with
  | none => trivial
  | some lists =>
      refine within_apart (apart_sgInitOne _ _) fun hostReturnValSg => ?_
      exact within_submit c.crdev _ _ _ (.inr rfl) ((reply_apart cmd arg c _).within fun _ => trivial)

-- A call starts without a pointer to any device.
theorem syscall_within (sys : Syscall) : sys.prog.Within fun _ => False := by
  cases sys with
  | openDev minor => exact open_within minor
  | ioctl cmd arg => exact ioctl_within cmd arg
  | release => exact release_within

end Driver

section Refers

-- Open files and calls under way refer to devices in `P` only.
structure State.Refers (s : State σ) (P : Nat → Prop) : Prop where
  files : ∀ f crof, s.files f = some crof → P crof.crdev
  calls : ∀ t task, s.tasks t = some task → task.prog.Within P

theorem refers_and (s : State σ) (P Q : Nat → Prop) :
    s.Refers (fun v => P v ∧ Q v) ↔ s.Refers P ∧ s.Refers Q := by
  constructor
  · intro h
    exact ⟨⟨fun f crof hf => (h.files f crof hf).1, fun t task ht =>
        ((within_and _ P Q).mp (h.calls t task ht)).1⟩,
      ⟨fun f crof hf => (h.files f crof hf).2, fun t task ht =>
        ((within_and _ P Q).mp (h.calls t task ht)).2⟩⟩
  · rintro ⟨hP, hQ⟩
    exact ⟨fun f crof hf => ⟨hP.files f crof hf, hQ.files f crof hf⟩, fun t task ht =>
      (within_and _ P Q).mpr ⟨hP.calls t task ht, hQ.calls t task ht⟩⟩

variable {s s' : State σ} {P : Nat → Prop}

theorem State.Refers.mono (h : s.Refers P) (Q : Nat → Prop) (hPQ : ∀ v, P v → Q v) : s.Refers Q :=
  ⟨fun f crof hf => hPQ _ (h.files f crof hf), fun t task ht => (h.calls t task ht).mono Q hPQ⟩

theorem State.Refers.same (h : s.Refers P) (hfiles : s'.files = s.files) (htasks : s'.tasks = s.tasks) :
    s'.Refers P :=
  ⟨fun f crof hf => h.files f crof (hfiles ▸ hf), fun t task ht => h.calls t task (htasks ▸ ht)⟩

theorem State.Refers.put (h : s.Refers P) (t : Nat) (task' : Task σ) (hprog : task'.prog.Within P) :
    (s.put t task').Refers P where
  files := h.files
  calls := by
    intro t' task ht
    change Function.update s.tasks t (some task') t' = some task at ht
    by_cases heq : t' = t
    · subst heq
      rw [Function.update_self] at ht
      cases ht
      exact hprog
    · rw [Function.update_of_ne heq] at ht
      exact h.calls t' task ht

theorem State.Refers.file (h : s.Refers P) (f : Nat) (x : Option Crof)
    (hx : ∀ crof, x = some crof → P crof.crdev) :
    State.Refers { s with files := Function.update s.files f x } P where
  files := by
    intro f' crof hf
    change Function.update s.files f x f' = some crof at hf
    by_cases heq : f' = f
    · subst heq
      rw [Function.update_self] at hf
      exact hx crof hf
    · rw [Function.update_of_ne heq] at hf
      exact h.files f' crof hf
  calls := h.calls

theorem State.Refers.note (h : s.Refers P) (t : Nat) (f : Past σ → Past σ) : (s.note t f).Refers P where
  files := h.files
  calls := by
    intro t' task ht
    change Function.update s.tasks t ((s.tasks t).map _) t' = some task at ht
    by_cases heq : t' = t
    · subst heq
      rw [Function.update_self, Option.map_eq_some_iff] at ht
      obtain ⟨task', ht', rfl⟩ := ht
      exact h.calls t' task' ht'
    · rw [Function.update_of_ne heq] at ht
      exact h.calls t' task ht

variable {c : Setup σ} {t : Nat} {task : Task σ}

-- A task gets pointers from the list of devices and from its file.
theorem refers_run (hdevs : ∀ minor v, c.devs minor = some v → P v) (h : s.Refers P) (data : List Byte)
    (prog : Prog Int) (hprog : prog.Within P) (hrun : c.run s t task data prog = some s') :
    s'.Refers P := by
  cases prog with
  | ret a | oops => cases hrun
  | kmalloc _ _ next | get _ _ _ next | copyToUser _ _ _ next | nonseekableOpen next =>
      cases hrun
      exact h.put t _ (hprog _)
  | kfree p next =>
      cases hrun
      exact h.put t _ hprog
  | put block off bytes next =>
      obtain ⟨-, rfl⟩ := Setup.run_put hrun
      exact h.put t _ hprog
  | loadUser addr n next =>
      obtain ⟨-, rfl⟩ := Setup.run_loadUser hrun
      exact h.put t _ (hprog _)
  | copyFromUser block addr n next =>
      obtain ⟨-, rfl⟩ := Setup.run_copyFromUser hrun
      exact h.put t _ (hprog _)
  | findDev minor next =>
      cases hrun
      refine h.put t _ (Prog.Within.mono (hprog _) P ?_)
      rintro v (hv | hv)
      · exact hv
      · exact hdevs minor v hv
  | newCrof crof next =>
      cases hrun
      refine (h.put t { task with prog := next true } (hprog.2 _)).file task.file (some crof) ?_
      rintro _ ⟨⟩
      exact hprog.1
  | getCrof next =>
      obtain ⟨crof, hcrof, rfl⟩ := Setup.run_getCrof hrun
      refine h.put t _ (Prog.Within.mono (hprog _) P ?_)
      rintro v (hv | rfl)
      · exact hv
      · exact h.files task.file crof hcrof
  | setHostFd fd next =>
      cases hrun
      refine (h.put t { task with prog := next } hprog).file task.file _ ?_
      intro crof hcrof
      obtain ⟨crof', hcrof', rfl⟩ := Option.map_eq_some_iff.mp hcrof
      exact h.files task.file crof' hcrof'
  | freeCrof next =>
      cases hrun
      exact (h.put t { task with prog := next } hprog).file task.file none (by simp)
  | spinLock next =>
      obtain ⟨-, rfl⟩ := Setup.run_spinLock hrun
      exact (h.put t { task with prog := next } hprog).same rfl rfl
  | spinUnlock next =>
      cases hrun
      exact (h.put t { task with prog := next } hprog).same rfl rfl
  | addSgs v sgs numOut numIn next =>
      cases hrun
      exact (h.put t { task with prog := next, past := _ } hprog.2).same rfl rfl
  | kick v next =>
      cases hrun
      exact (h.put t { task with prog := next } hprog.2).same rfl rfl
  | getBuf v next =>
      obtain ⟨buf, used, -, rfl⟩ := Setup.run_getBuf hrun
      exact (h.put t { task with prog := next, past := _ } hprog.2).same rfl rfl

theorem refers_fail (h : s.Refers P) (ret : Int) (prog : Prog Int) (hprog : prog.Within P)
    (hfail : Setup.fail s t task ret prog = some s') : s'.Refers P := by
  cases prog with
  | kmalloc _ _ next | copyFromUser _ _ _ next | copyToUser _ _ _ next =>
      cases hfail
      exact h.put t _ (hprog _)
  | loadUser addr n next =>
      cases hfail
      exact h.put t _ trivial
  | newCrof crof next =>
      cases hfail
      exact h.put t _ (hprog.2 _)
  | nonseekableOpen next =>
      simp only [Setup.fail] at hfail
      split_ifs at hfail
      cases hfail
      exact h.put t _ (hprog _)
  | ret | oops | kfree | put | get | findDev | getCrof | setHostFd | freeCrof | spinLock
  | spinUnlock | addSgs | kick | getBuf => cases hfail

-- The device runs between the steps of the tasks and changes no program.
theorem refers_step (hdevs : ∀ minor v, c.devs minor = some v → P v) (h : s.Refers P) (a : Act)
    (hstep : c.step s a = some s') : s'.Refers P := by
  cases a with
  | call t file sys mem =>
      obtain ⟨-, rfl⟩ := Setup.step_call hstep
      exact h.put t _ ((syscall_within sys).mono P fun _ => False.elim)
  | run t data =>
      obtain ⟨task, ht, hrun⟩ := Setup.step_run hstep
      exact refers_run hdevs h data task.prog (h.calls t task ht) hrun
  | pop v =>
      obtain ⟨-, -, ⟨-, rfl⟩ | ⟨buf, avail, -, rfl⟩⟩ := Setup.step_pop hstep
      · exact h.same rfl rfl
      · exact (h.note buf.owner fun past => { past with pops := past.pops + 1 }).same rfl rfl
  | handle =>
      obtain ⟨v, buf, task, -, ht, rfl⟩ := Setup.step_handle hstep
      refine State.Refers.same (h.put _ _ ?_) rfl rfl
      exact h.calls _ task ht
  | push =>
      obtain ⟨v, buf, -, rfl⟩ := Setup.step_push hstep
      exact (h.note buf.owner fun past => { past with pushes := past.pushes + 1 }).same rfl rfl

theorem refers_move (hdevs : ∀ minor v, c.devs minor = some v → P v) (h : s.Refers P) (m : Move)
    (hmove : c.move s m = some s') : s'.Refers P := by
  cases m with
  | act a => exact refers_step hdevs h a hmove
  | fail t ret =>
      obtain ⟨task, ht, hfail⟩ := Setup.move_fail hmove
      exact refers_fail h ret task.prog (h.calls t task ht) hfail

end Refers

end CryptodevChat.Virtio
