import CryptodevChat.Virtio.Discipline

namespace CryptodevChat.Virtio

open Lib (Byte Loc Mem Run)

variable {σ : Type}

section Steps

-- A step that a task takes by itself.
structure State.Alone (s s' : State σ) (t : Nat) (task' : Task σ) : Prop where
  tasks : s'.tasks = Function.update s.tasks t (some task')
  lock : s'.lock = s.lock
  rings : s'.rings = s.rings
  kicks : s'.kicks = s.kicks
  device : s'.device = s.device

theorem State.alone_put (s : State σ) (t : Nat) (task' : Task σ) : s.Alone (s.put t task') t task' :=
  ⟨rfl, rfl, rfl, rfl, rfl⟩

-- What such a step keeps of the call that it belongs to.
structure Task.Continues (task task' : Task σ) (prog : Prog Int) : Prop where
  past : task'.past = task.past
  fits : ∀ post ph, prog.Fits post ph → task'.prog.Fits post ph
  free : ∀ post ph, prog.Fits post ph → ph.Free ∨ ph = .locked
  mem : ∀ post ph, prog.Fits post ph → ph = .idle ∨ task'.mem = task.mem

-- A step of a task that the others can see.
inductive Setup.Shared (s : State σ) (t : Nat) (task : Task σ) : Prog Int → State σ → Prop
  | lock (next : Prog Int) (hfree : s.lock = none) :
      Shared s t task (.spinLock next) { s.put t { task with prog := next } with lock := some t }
  | unlock (next : Prog Int) :
      Shared s t task (.spinUnlock next) { s.put t { task with prog := next } with lock := none }
  | add (v : Nat) (sgs : List Sg) (numOut numIn : Nat) (next : Prog Int) :
      Shared s t task (.addSgs v sgs numOut numIn next)
        { s.put t { task with
            prog := next
            past := { task.past with sent := some (toElement sgs numOut numIn, task.mem) } } with
          rings := Function.update s.rings v
            ((s.rings v).add ⟨t, toElement sgs numOut numIn⟩) }
  | kick (v : Nat) (next : Prog Int) :
      Shared s t task (.kick v next)
        { s.put t { task with prog := next } with kicks := s.kicks ++ [v] }
  | get (v : Nat) (next : Prog Int) (buf : Buf) (used : List Buf)
      (hused : (s.rings v).used = buf :: used) :
      Shared s t task (.getBuf v next)
        { s.put t { task with prog := next, past := { task.past with got := some buf } } with
          rings := Function.update s.rings v
            { s.rings v with used, free := (s.rings v).free + buf.elem.descs } }

theorem run_cases (c : Setup σ) (s s' : State σ) (t : Nat) (task : Task σ) (data : List Byte)
    (prog : Prog Int) (h : c.run s t task data prog = some s') :
    (∃ task', s.Alone s' t task' ∧ task.Continues task' prog) ∨ Setup.Shared s t task prog s' := by
  cases prog with
  | ret a => cases h
  | oops => cases h
  | kmalloc size zeroed next =>
      cases h
      exact .inl ⟨_, s.alone_put t _, rfl, fun _ _ hf => hf.2 _, fun _ _ hf => .inl (.inl hf.1),
        fun _ _ hf => .inl hf.1⟩
  | kfree p next =>
      cases h
      exact .inl ⟨_, s.alone_put t _, rfl, fun _ _ hf => hf.2, fun _ _ hf => .inl hf.1,
        fun _ _ _ => .inr rfl⟩
  | put block off bytes next =>
      obtain ⟨-, rfl⟩ := Setup.run_put h
      exact .inl ⟨_, s.alone_put t _, rfl, fun _ _ hf => hf.2, fun _ _ hf => .inl (.inl hf.1),
        fun _ _ hf => .inl hf.1⟩
  | get block off n next =>
      cases h
      exact .inl ⟨_, s.alone_put t _, rfl, fun _ _ hf => hf.2 _, fun _ _ hf => .inl hf.1,
        fun _ _ _ => .inr rfl⟩
  | loadUser addr n next =>
      obtain ⟨-, rfl⟩ := Setup.run_loadUser h
      exact .inl ⟨_, s.alone_put t _, rfl, fun _ _ hf => hf.2 _, fun _ _ hf => .inl hf.1,
        fun _ _ _ => .inr rfl⟩
  | copyFromUser block addr n next =>
      obtain ⟨-, rfl⟩ := Setup.run_copyFromUser h
      exact .inl ⟨_, s.alone_put t _, rfl, fun _ _ hf => hf.2 _, fun _ _ hf => .inl (.inl hf.1),
        fun _ _ hf => .inl hf.1⟩
  | copyToUser addr block n next =>
      cases h
      exact .inl ⟨_, s.alone_put t _, rfl, fun _ _ hf => hf.2 _, fun _ _ hf => .inl hf.1,
        fun _ _ _ => .inr rfl⟩
  | nonseekableOpen next =>
      cases h
      exact .inl ⟨_, s.alone_put t _, rfl, fun _ _ hf => hf.2 _, fun _ _ hf => .inl hf.1,
        fun _ _ _ => .inr rfl⟩
  | findDev minor next =>
      cases h
      exact .inl ⟨_, s.alone_put t _, rfl, fun _ _ hf => hf.2 _, fun _ _ hf => .inr hf.1,
        fun _ _ _ => .inr rfl⟩
  | newCrof crof next =>
      cases h
      exact .inl ⟨_, ⟨rfl, rfl, rfl, rfl, rfl⟩, rfl, fun _ _ hf => hf.2 _, fun _ _ hf => .inl hf.1,
        fun _ _ _ => .inr rfl⟩
  | getCrof next =>
      obtain ⟨crof, -, rfl⟩ := Setup.run_getCrof h
      exact .inl ⟨_, s.alone_put t _, rfl, fun _ _ hf => hf.2 _, fun _ _ hf => .inl hf.1,
        fun _ _ _ => .inr rfl⟩
  | setHostFd fd next =>
      cases h
      exact .inl ⟨_, ⟨rfl, rfl, rfl, rfl, rfl⟩, rfl, fun _ _ hf => hf.2, fun _ _ hf => .inl hf.1,
        fun _ _ _ => .inr rfl⟩
  | freeCrof next =>
      cases h
      exact .inl ⟨_, ⟨rfl, rfl, rfl, rfl, rfl⟩, rfl, fun _ _ hf => hf.2, fun _ _ hf => .inl hf.1,
        fun _ _ _ => .inr rfl⟩
  | spinLock next =>
      obtain ⟨hlock, rfl⟩ := Setup.run_spinLock h
      exact .inr (.lock next hlock)
  | spinUnlock next =>
      cases h
      exact .inr (.unlock next)
  | addSgs v sgs numOut numIn next =>
      cases h
      exact .inr (.add v sgs numOut numIn next)
  | kick v next =>
      cases h
      exact .inr (.kick v next)
  | getBuf v next =>
      obtain ⟨buf, used, hused, rfl⟩ := Setup.run_getBuf h
      exact .inr (.get v next buf used hused)

end Steps

section Stages

-- What the holder of the lock is doing, and where its request is.
inductive Role
  | locked
  | added (v : Nat) (elem : VirtQueueElement)
  | kicked (v : Nat) (elem : VirtQueueElement)
  | popped (v : Nat) (elem : VirtQueueElement)
  | handled (v : Nat) (elem : VirtQueueElement)
  | pushed (v : Nat) (elem : VirtQueueElement)
  | taken

def Role.phase : Role → Phase
  | .locked => .locked
  | .added v elem => .added v elem
  | .kicked v elem => .kicked v elem
  | .popped v elem => .kicked v elem
  | .handled v elem => .kicked v elem
  | .pushed v elem => .kicked v elem
  | .taken => .taken

-- The holder, if the lock is held.
abbrev Stage := Option (Nat × Role)

def Stage.role (stage : Stage) (t : Nat) : Option Role :=
  match stage with
  | some (t', role) => if t = t' then some role else none
  | none => none

-- The rings, the notifications and the device are a function of the stage.
def Stage.rings : Stage → Nat → Ring
  | some (t, .added v elem) | some (t, .kicked v elem) =>
      Function.update (fun _ => Ring.empty) v ⟨[⟨t, elem⟩], [], VQ_SIZE - elem.descs⟩
  | some (_, .popped v elem) | some (_, .handled v elem) =>
      Function.update (fun _ => Ring.empty) v ⟨[], [], VQ_SIZE - elem.descs⟩
  | some (t, .pushed v elem) =>
      Function.update (fun _ => Ring.empty) v ⟨[], [⟨t, elem⟩], VQ_SIZE - elem.descs⟩
  | _ => fun _ => Ring.empty

def Stage.kicks : Stage → List Nat
  | some (_, .kicked v _) => [v]
  | _ => []

def Stage.device : Stage → Device
  | some (t, .popped v elem) => .popped v ⟨t, elem⟩
  | some (t, .handled v elem) => .handled v ⟨t, elem⟩
  | _ => .idle

variable (c : Setup σ)

-- The objects of a task after the backend has handled its request.
def Setup.reply (t : Nat) (elem : VirtQueueElement) (m : Mem Byte) (x : σ) : Mem Byte :=
  ((handleElem c.host (c.qemu t) elem).run ⟨m, x, []⟩).2.mem

def Task.Answered (t : Nat) (task : Task σ) : Prop :=
  ∃ elem m x, task.past = ⟨some (elem, m), 1, some x, 1, some ⟨t, elem⟩⟩ ∧
    task.mem = c.reply t elem m x

-- What the past of the holder says in each role.
def Role.Past (t : Nat) (task : Task σ) : Role → Prop
  | .locked => task.past = Past.fresh
  | .added _ elem => elem.descs ≤ 8 ∧ task.past = ⟨some (elem, task.mem), 0, none, 0, none⟩
  | .kicked _ elem => elem.descs ≤ 8 ∧ task.past = ⟨some (elem, task.mem), 0, none, 0, none⟩
  | .popped _ elem => elem.descs ≤ 8 ∧ task.past = ⟨some (elem, task.mem), 1, none, 0, none⟩
  | .handled _ elem => elem.descs ≤ 8 ∧
      ∃ m x, task.past = ⟨some (elem, m), 1, some x, 0, none⟩ ∧ task.mem = c.reply t elem m x
  | .pushed _ elem => elem.descs ≤ 8 ∧
      ∃ m x, task.past = ⟨some (elem, m), 1, some x, 1, none⟩ ∧ task.mem = c.reply t elem m x
  | .taken => task.Answered c t

abbrev Prog.Keeps (prog : Prog Int) (ph : Phase) : Prop := prog.Fits (fun _ ph => ph.Free) ph

-- A task that does not hold the lock has not submitted its request, or has its reply.
def Task.Keeps (t : Nat) (task : Task σ) : Option Role → Prop
  | none =>
      (task.prog.Keeps .idle ∧ task.past = Past.fresh) ∨
      (task.prog.Keeps .done ∧ task.Answered c t)
  | some role => task.prog.Keeps role.phase ∧ role.Past c t task

structure State.At (s : State σ) (stage : Stage) : Prop where
  lock : s.lock = stage.map Prod.fst
  rings : s.rings = stage.rings
  kicks : s.kicks = stage.kicks
  device : s.device = stage.device
  holder : ∀ t role, stage = some (t, role) → (s.tasks t).isSome
  tasks : ∀ t task, s.tasks t = some task → task.Keeps c t (stage.role t)

variable {c} {s s' : State σ} {stage : Stage}

theorem role_self (t : Nat) (role : Role) : Stage.role (some (t, role)) t = some role := if_pos rfl

theorem role_other (t t' : Nat) (role : Role) (h : t ≠ t') : Stage.role (some (t', role)) t = none :=
  if_neg h

-- A step of one task that keeps the stage.
theorem State.At.keep (hs : s.At c stage) (t : Nat) (task' : Task σ) (hstep : s.Alone s' t task')
    (hkeeps : task'.Keeps c t (stage.role t)) : s'.At c stage where
  lock := by rw [hstep.lock, hs.lock]
  rings := by rw [hstep.rings, hs.rings]
  kicks := by rw [hstep.kicks, hs.kicks]
  device := by rw [hstep.device, hs.device]
  holder := by
    intro t' role hstage
    rw [hstep.tasks]
    by_cases h : t' = t
    · subst h
      simp
    · rw [Function.update_of_ne h]
      exact hs.holder t' role hstage
  tasks := by
    intro t' task ht
    rw [hstep.tasks] at ht
    by_cases h : t' = t
    · subst h
      rw [Function.update_self] at ht
      cases ht
      exact hkeeps
    · rw [Function.update_of_ne h] at ht
      exact hs.tasks t' task ht

-- A stage in which nobody but one task can hold the lock.
def Stage.About (stage : Stage) (t : Nat) : Prop := ∀ t' role, stage = some (t', role) → t' = t

theorem Stage.About.role_none {t t' : Nat} (h : stage.About t) (hne : t' ≠ t) :
    stage.role t' = none := by
  cases stage with
  | none => rfl
  | some holder => exact role_other t' holder.1 holder.2 fun he => hne (he.trans (h _ _ rfl))

theorem about_none (t : Nat) : Stage.About none t := fun _ _ h => by cases h

theorem about_some (t : Nat) (role : Role) : Stage.About (some (t, role)) t := by
  intro t' role' h
  cases h
  rfl

-- A step with which the request of one task gets further.
theorem State.At.move {stage' : Stage} (hs : s.At c stage) (t : Nat) (task' : Task σ)
    (habout : stage.About t) (habout' : stage'.About t)
    (htasks : s'.tasks = Function.update s.tasks t (some task'))
    (hlock : s'.lock = stage'.map Prod.fst) (hrings : s'.rings = stage'.rings)
    (hkicks : s'.kicks = stage'.kicks) (hdevice : s'.device = stage'.device)
    (hkeeps : task'.Keeps c t (stage'.role t)) : s'.At c stage' where
  lock := hlock
  rings := hrings
  kicks := hkicks
  device := hdevice
  holder := by
    intro t' role hstage
    rw [habout' t' role hstage, htasks]
    simp
  tasks := by
    intro t' task ht
    rw [htasks] at ht
    by_cases h : t' = t
    · subst h
      rw [Function.update_self] at ht
      cases ht
      exact hkeeps
    · rw [Function.update_of_ne h] at ht
      have hkept := hs.tasks t' task ht
      rw [habout.role_none h] at hkept
      rw [habout'.role_none h]
      exact hkept

theorem Stage.eq_of_role (t : Nat) (role : Role) (h : stage.role t = some role) :
    stage = some (t, role) := by
  cases stage with
  | none => cases h
  | some holder =>
      obtain ⟨t', role'⟩ := holder
      simp only [Stage.role] at h
      split_ifs at h with heq
      cases h
      rw [heq]

theorem Stage.none_of_free (hs : s.At c stage) (hfree : s.lock = none) : stage = none := by
  rw [hs.lock] at hfree
  exact Option.map_eq_none_iff.mp hfree

end Stages

section Progress

variable {c : Setup σ} {s s' : State σ} {stage : Stage} {t : Nat} {task : Task σ}

theorem at_alone (hs : s.At c stage) (ht : s.tasks t = some task) (task' : Task σ)
    (hstep : s.Alone s' t task') (hcont : task.Continues task' task.prog) : s'.At c stage := by
  apply hs.keep t task' hstep
  have hkeeps := hs.tasks t task ht
  cases hrole : stage.role t with
  | none =>
      rw [hrole] at hkeeps
      cases hkeeps with
      | inl hidle => exact .inl ⟨hcont.fits _ _ hidle.1, hcont.past.trans hidle.2⟩
      | inr hdone =>
          obtain ⟨hfits, elem, m, x, hpast, hmem⟩ := hdone
          have hsame := (hcont.mem _ _ hfits).resolve_left (by simp)
          exact .inr ⟨hcont.fits _ _ hfits, elem, m, x, hcont.past.trans hpast, hsame.trans hmem⟩
  | some role =>
      rw [hrole] at hkeeps
      obtain ⟨hfits, hpast⟩ := hkeeps
      have hrole : role = .locked := by
        have hfree := hcont.free _ _ hfits
        cases role <;> simp [Role.phase, Phase.Free] at hfree ⊢
      subst hrole
      exact ⟨hcont.fits _ _ hfits, hcont.past.trans hpast⟩

-- In which role a task takes a shared step.
theorem holds_of_shared (hs : s.At c stage) (ht : s.tasks t = some task)
    (hidle : ¬task.prog.Keeps .idle) (hdone : ¬task.prog.Keeps .done) :
    ∃ role, stage = some (t, role) ∧ task.prog.Keeps role.phase ∧ role.Past c t task := by
  have hkeeps := hs.tasks t task ht
  cases hrole : stage.role t with
  | none =>
      rw [hrole] at hkeeps
      cases hkeeps with
      | inl h => exact absurd h.1 hidle
      | inr h => exact absurd h.1 hdone
  | some role =>
      rw [hrole] at hkeeps
      exact ⟨role, stage.eq_of_role t role hrole, hkeeps⟩

theorem at_lock (hs : s.At c stage) (ht : s.tasks t = some task) (next : Prog Int)
    (hprog : task.prog = .spinLock next) (hfree : s.lock = none) :
    State.At c { s.put t { task with prog := next } with lock := some t } (some (t, .locked)) := by
  obtain rfl := Stage.none_of_free hs hfree
  apply hs.move t _ (about_none t) (about_some t _) rfl rfl hs.rings hs.kicks hs.device
  rw [role_self]
  have hkeeps := hs.tasks t task ht
  simp only [Stage.role, Task.Keeps, hprog, Prog.Keeps, Prog.Fits] at hkeeps
  obtain ⟨⟨-, hnext⟩, hpast⟩ | ⟨⟨hph, -⟩, -⟩ := hkeeps
  · exact ⟨hnext, hpast⟩
  · cases hph

theorem at_unlock (hs : s.At c stage) (ht : s.tasks t = some task) (next : Prog Int)
    (hprog : task.prog = .spinUnlock next) :
    State.At c { s.put t { task with prog := next } with lock := none } none := by
  obtain ⟨role, rfl, hkeeps, hpast⟩ := holds_of_shared hs ht (by simp [hprog, Prog.Fits])
    (by simp [hprog, Prog.Fits])
  rw [hprog] at hkeeps
  have hrings := hs.rings
  have hkicks := hs.kicks
  have hdevice := hs.device
  obtain ⟨hph, hnext⟩ | ⟨hph, hnext⟩ := hkeeps
  · cases role <;> cases hph
    exact hs.move t _ (about_some t _) (about_none t) rfl rfl hrings hkicks hdevice
      (.inl ⟨hnext, hpast⟩)
  · cases role <;> cases hph
    exact hs.move t _ (about_some t _) (about_none t) rfl rfl hrings hkicks hdevice
      (.inr ⟨hnext, hpast⟩)

theorem at_add (hs : s.At c stage) (ht : s.tasks t = some task) (v : Nat) (sgs : List Sg)
    (numOut numIn : Nat) (next : Prog Int) (hprog : task.prog = .addSgs v sgs numOut numIn next) :
    State.At c
      { s.put t { task with
          prog := next
          past := { task.past with sent := some (toElement sgs numOut numIn, task.mem) } } with
        rings := Function.update s.rings v ((s.rings v).add ⟨t, toElement sgs numOut numIn⟩) }
      (some (t, .added v (toElement sgs numOut numIn))) := by
  obtain ⟨role, rfl, hkeeps, hpast⟩ := holds_of_shared hs ht (by simp [hprog, Prog.Fits])
    (by simp [hprog, Prog.Fits])
  rw [hprog] at hkeeps
  obtain ⟨hph, hroom, hnext⟩ := hkeeps
  cases role <;> cases hph
  have hdescs : (toElement sgs numOut numIn).descs ≤ 8 := hroom
  have hempty : s.rings = fun _ => Ring.empty := hs.rings
  refine hs.move t _ (about_some t _) (about_some t _) rfl ?_ ?_ ?_ ?_ ?_
  · exact hs.lock
  · have hfree : (toElement sgs numOut numIn).descs ≤ Ring.empty.free :=
      Nat.le_trans hdescs (by decide)
    simp only [hempty, Ring.add, hfree, if_true]
    rfl
  · exact hs.kicks
  · exact hs.device
  · rw [role_self]
    refine ⟨hnext, hdescs, ?_⟩
    rw [show task.past = Past.fresh from hpast]
    rfl

theorem at_kick (hs : s.At c stage) (ht : s.tasks t = some task) (v : Nat) (next : Prog Int)
    (hprog : task.prog = .kick v next) :
    ∃ stage', State.At c { s.put t { task with prog := next } with kicks := s.kicks ++ [v] } stage' := by
  obtain ⟨role, rfl, hkeeps, hpast⟩ := holds_of_shared hs ht (by simp [hprog, Prog.Fits])
    (by simp [hprog, Prog.Fits])
  rw [hprog] at hkeeps
  obtain ⟨elem, hph, hnext⟩ := hkeeps
  cases role <;> cases hph
  refine ⟨some (t, .kicked v elem), hs.move t _ (about_some t _) (about_some t _) rfl hs.lock hs.rings
    ?_ hs.device ?_⟩
  · simp only [hs.kicks]
    rfl
  · rw [role_self]
    exact ⟨hnext, hpast⟩

-- A task that finds a buffer in the used ring waits for its own request, which was pushed.
theorem pushed_of_used (hs : s.At c stage) (ht : s.tasks t = some task) (v : Nat) (next : Prog Int)
    (hprog : task.prog = .getBuf v next) (hused : (s.rings v).used ≠ []) :
    ∃ elem, stage = some (t, .pushed v elem) ∧ next.Keeps .taken ∧
      Role.Past c t task (.pushed v elem) := by
  obtain ⟨role, rfl, hkeeps, hpast⟩ := holds_of_shared hs ht (by simp [hprog, Prog.Fits])
    (by simp [hprog, Prog.Fits])
  rw [hprog] at hkeeps
  obtain ⟨elem, hph, hnext⟩ := hkeeps
  rw [hs.rings] at hused
  cases role with
  | pushed w elem' =>
      cases hph
      exact ⟨elem, rfl, hnext, hpast⟩
  | kicked w elem' | popped w elem' | handled w elem' =>
      cases hph
      simp [Stage.rings] at hused
  | locked | added | taken => cases hph

-- The buffer that comes back is the one that the task added.
theorem at_get (hs : s.At c stage) (ht : s.tasks t = some task) (v : Nat) (next : Prog Int)
    (hprog : task.prog = .getBuf v next) (buf : Buf) (used : List Buf)
    (hused : (s.rings v).used = buf :: used) :
    State.At c
      { s.put t { task with prog := next, past := { task.past with got := some buf } } with
        rings := Function.update s.rings v
          { s.rings v with used, free := (s.rings v).free + buf.elem.descs } } (some (t, .taken)) := by
  obtain ⟨elem, rfl, hnext, hdescs, m, x, hpast, hmem⟩ :=
    pushed_of_used hs ht v next hprog (by simp [hused])
  have hrings := hs.rings
  rw [hrings] at hused
  simp only [Stage.rings, Function.update_self] at hused
  cases hused
  refine hs.move t _ (about_some t _) (about_some t _) rfl ?_ ?_ ?_ ?_ ?_
  · exact hs.lock
  · simp only [hrings, Stage.rings, Function.update_self, Function.update_idem]
    rw [Nat.sub_add_cancel (Nat.le_trans hdescs (by decide))]
    exact Function.update_eq_self v fun _ => Ring.empty
  · exact hs.kicks
  · exact hs.device
  · rw [role_self]
    refine ⟨hnext, elem, m, x, ?_, hmem⟩
    rw [hpast]

theorem at_run (hs : s.At c stage) (ht : s.tasks t = some task) (data : List Byte)
    (h : c.run s t task data task.prog = some s') : ∃ stage', s'.At c stage' := by
  obtain ⟨task', halone, hcont⟩ | hshared := run_cases c s s' t task data task.prog h
  · exact ⟨stage, at_alone hs ht task' halone hcont⟩
  · generalize hprog : task.prog = prog at hshared
    cases hshared with
    | lock next hfree => exact ⟨_, at_lock hs ht next hprog hfree⟩
    | unlock next => exact ⟨_, at_unlock hs ht next hprog⟩
    | add v sgs numOut numIn next => exact ⟨_, at_add hs ht v sgs numOut numIn next hprog⟩
    | kick v next => exact at_kick hs ht v next hprog
    | get v next buf used hused => exact ⟨_, at_get hs ht v next hprog buf used hused⟩

theorem State.note_tasks (ht : s.tasks t = some task) (f : Past σ → Past σ) :
    (s.note t f).tasks = Function.update s.tasks t (some { task with past := f task.past }) := by
  simp only [State.note, ht, Option.map_some]

-- What the lock is held for.
theorem State.At.holding {role : Role} (hs : s.At c (some (t, role))) :
    ∃ task, s.tasks t = some task ∧ task.prog.Keeps role.phase ∧ role.Past c t task := by
  obtain ⟨task, ht⟩ := Option.isSome_iff_exists.mp (hs.holder t _ rfl)
  have hkeeps := hs.tasks t task ht
  rw [role_self] at hkeeps
  exact ⟨task, ht, hkeeps⟩

-- Only the notification of the request that was added is ever pending.
theorem Stage.of_kicked {v : Nat} (h : v ∈ stage.kicks) :
    ∃ t elem, stage = some (t, .kicked v elem) := by
  unfold Stage.kicks at h
  split at h
  · rename_i t w elem
    rw [List.mem_singleton.mp h]
    exact ⟨t, elem, rfl⟩
  · cases h

theorem Stage.of_popped {v : Nat} {buf : Buf} (h : stage.device = .popped v buf) :
    stage = some (buf.owner, .popped v buf.elem) := by
  unfold Stage.device at h
  split at h <;> cases h
  rfl

theorem Stage.of_handled {v : Nat} {buf : Buf} (h : stage.device = .handled v buf) :
    stage = some (buf.owner, .handled v buf.elem) := by
  unfold Stage.device at h
  split at h <;> cases h
  rfl

theorem at_pop (hs : s.At c stage) (v : Nat) (h : c.step s (.pop v) = some s') :
    ∃ t elem, stage = some (t, .kicked v elem) ∧ s'.At c (some (t, .popped v elem)) := by
  obtain ⟨-, hkick, hpop⟩ := Setup.step_pop h
  rw [hs.kicks] at hkick
  obtain ⟨t, elem, rfl⟩ := Stage.of_kicked hkick
  obtain ⟨task, ht, hfits, hdescs, hpast⟩ := hs.holding
  have hring : s.rings v = ⟨[⟨t, elem⟩], [], VQ_SIZE - elem.descs⟩ := by simp [hs.rings, Stage.rings]
  rw [hring] at hpop
  obtain ⟨hempty, -⟩ | ⟨buf, avail, havail, rfl⟩ := hpop
  · cases hempty
  cases havail
  refine ⟨t, elem, rfl, ?_⟩
  refine hs.move t _ (about_some t _) (about_some t _)
    (State.note_tasks ht fun past => { past with pops := past.pops + 1 }) ?_ ?_ ?_ rfl ?_
  · exact hs.lock
  · simp only [hs.rings, Stage.rings, Function.update_idem]
  · simp [hs.kicks, Stage.kicks]
  · rw [role_self]
    refine ⟨hfits, hdescs, ?_⟩
    rw [hpast]

theorem at_handle (hs : s.At c stage) (h : c.step s .handle = some s') :
    ∃ t v elem, stage = some (t, .popped v elem) ∧ s'.At c (some (t, .handled v elem)) := by
  obtain ⟨v, ⟨t, elem⟩, task, hdevice, ht, rfl⟩ := Setup.step_handle h
  rw [hs.device] at hdevice
  obtain rfl := Stage.of_popped hdevice
  obtain ⟨task', ht', hfits, hdescs, hpast⟩ := hs.holding
  cases ht.symm.trans ht'
  refine ⟨t, v, elem, rfl, ?_⟩
  refine hs.move t _ (about_some t _) (about_some t _) rfl ?_ ?_ ?_ rfl ?_
  · exact hs.lock
  · exact hs.rings
  · exact hs.kicks
  · rw [role_self]
    refine ⟨hfits, hdescs, task.mem, s.host, ?_, rfl⟩
    rw [hpast]

theorem at_push (hs : s.At c stage) (h : c.step s .push = some s') :
    ∃ t v elem, stage = some (t, .handled v elem) ∧ s'.At c (some (t, .pushed v elem)) := by
  obtain ⟨v, ⟨t, elem⟩, hdevice, rfl⟩ := Setup.step_push h
  rw [hs.device] at hdevice
  obtain rfl := Stage.of_handled hdevice
  obtain ⟨task, ht, hfits, hdescs, m, x, hpast, hmem⟩ := hs.holding
  refine ⟨t, v, elem, rfl, ?_⟩
  refine hs.move t _ (about_some t _) (about_some t _)
    (State.note_tasks ht fun past => { past with pushes := past.pushes + 1 }) ?_ ?_ ?_ rfl ?_
  · exact hs.lock
  · simp only [hs.rings, Stage.rings, Function.update_self, Function.update_idem, List.nil_append]
  · exact hs.kicks
  · rw [role_self]
    refine ⟨hfits, hdescs, m, x, ?_, hmem⟩
    rw [hpast]

theorem at_call (hs : s.At c stage) (t file : Nat) (sys : Syscall) (mem : Mem Byte)
    (h : c.step s (.call t file sys mem) = some s') : s'.At c stage := by
  obtain ⟨ht, rfl⟩ := Setup.step_call h
  apply hs.keep t _ (s.alone_put t _)
  have hrole : stage.role t = none := by
    cases hrole : stage.role t with
    | none => rfl
    | some role =>
        have hholds := hs.holder t role (stage.eq_of_role t role hrole)
        rw [ht] at hholds
        cases hholds
  rw [hrole]
  exact .inl ⟨syscall_fits sys, rfl⟩

theorem at_step (hs : ∃ stage, s.At c stage) (a : Act) (h : c.step s a = some s') :
    ∃ stage', s'.At c stage' := by
  obtain ⟨stage, hs⟩ := hs
  cases a with
  | call t file sys mem => exact ⟨stage, at_call hs t file sys mem h⟩
  | run t data =>
      obtain ⟨task, ht, h⟩ := Setup.step_run h
      exact at_run hs ht data h
  | pop v =>
      obtain ⟨t, elem, -, hs'⟩ := at_pop hs v h
      exact ⟨_, hs'⟩
  | handle =>
      obtain ⟨t, v, elem, -, hs'⟩ := at_handle hs h
      exact ⟨_, hs'⟩
  | push =>
      obtain ⟨t, v, elem, -, hs'⟩ := at_push hs h
      exact ⟨_, hs'⟩

theorem at_boot (x : σ) : (State.boot x).At c none :=
  ⟨rfl, rfl, rfl, rfl, by simp, by simp [State.boot]⟩

-- The invariant holds at the end of every run.
theorem at_run_end (x : σ) (actions : List Act)
    (hrun : Run c.step (fun _ _ => True) (State.boot x) actions s) : ∃ stage, s.At c stage :=
  hrun.invariant ⟨none, at_boot x⟩ fun _ a _ hs _ h => at_step hs a h

end Progress

end CryptodevChat.Virtio
