import CryptodevChat.Virtio.Vfs

namespace CryptodevChat.Virtio

open Lib (Byte Mem Run update_eq_some)

variable {σ : Type}

section Books

-- What a task is about, given what is held for the files.
def Vfs.view (s : Vfs σ) (held : Nat → Option Int) (task : Task σ) : Local :=
  ⟨task.mem, task.sizes, s.core.files task.file, held task.file⟩

-- The ledger follows the requests, every call keeps the account of its file,
-- and a file that no open and no release is working on agrees with the ledger.
structure Vfs.Books (c : Setup σ) (opened : σ → Int → Prop) (x : σ) (s : Vfs σ)
    (held : Nat → Option Int) : Prop where
  stage : ∃ stage, s.core.At c stage
  host : s.proc.host = s.core.host
  ledger : Held opened x s.proc held
  known : ∀ t task, s.core.tasks t = some task → ∃ sys, s.sys t = some sys
  calls : ∀ t sys task, s.Has t sys task → (task.prog.Over ∧ task.past.req.Settled) ∨
    task.prog.Balances sys.sole (s.view held task) task.past.req
  alone : ∀ t t' sys sys' task task', t' ≠ t → s.Has t sys task → s.Has t' sys' task' →
    task'.file = task.file → task.prog.Over ∨ task'.prog.Over ∨ sys.sole = false
  rest : ∀ f, (∀ t sys task, s.Has t sys task → task.file = f → sys.sole = true → task.prog.Over) →
    Agree (s.core.files f) (held f)
  fresh : ∀ f, (∀ t task, s.core.tasks t = some task → task.file ≠ f) →
    s.core.files f = none ∧ held f = none

variable {c : Setup σ} {opened : σ → Int → Prop} {x : σ} {s s' : Vfs σ} {held : Nat → Option Int}

theorem books_boot (c : Setup σ) (opened : σ → Int → Prop) (x : σ) :
    (Vfs.boot x).Books c opened x fun _ => none where
  stage := ⟨none, at_boot x⟩
  host := rfl
  ledger := held_boot opened x
  known := fun _ _ ht => nomatch ht
  calls := fun _ _ _ ht => nomatch ht.1
  alone := fun _ _ _ _ _ _ _ ht => nomatch ht.1
  rest := fun _ _ => agree_none
  fresh := fun _ _ => ⟨rfl, rfl⟩

-- A call that is over has its request behind it.
theorem over_settled {prog : Prog Int} {sole : Bool} {l : Local} {r : Req} (hover : prog.Over)
    (h : prog.Balances sole l r) : r.Settled := by
  cases prog with
  | ret a | oops => exact h.2
  | kmalloc | kfree | put | get | loadUser | copyFromUser | copyToUser | nonseekableOpen | findDev
  | newCrof | getCrof | setHostFd | freeCrof | spinLock | spinUnlock | addSgs | kick | getBuf =>
      exact hover.elim

theorem over_agree {prog : Prog Int} {l : Local} {r : Req} (hover : prog.Over)
    (h : prog.Balances true l r) : Agree l.file l.held := by
  cases prog with
  | ret a => exact h.1
  | oops => exact absurd h.1 (by decide)
  | kmalloc | kfree | put | get | loadUser | copyFromUser | copyToUser | nonseekableOpen | findDev
  | newCrof | getCrof | setHostFd | freeCrof | spinLock | spinUnlock | addSgs | kick | getBuf =>
      exact hover.elim

-- A call gets further or is added, and nobody else is working on a file that it changes.
structure Vfs.Moves (s s' : Vfs σ) (held : Nat → Option Int) (t : Nat) (sys : Syscall) (task' : Task σ)
    (file : Option Crof) (fd : Option Int) : Prop where
  tasks : s'.core.tasks = Function.update s.core.tasks t (some task')
  kinds : s'.sys = Function.update s.sys t (some sys)
  files : s'.core.files = Function.update s.core.files task'.file file
  before : ∀ sys₀ task₀, s.Has t sys₀ task₀ → sys₀ = sys ∧ task₀.file = task'.file
  others : ∀ t' sys' task, t' ≠ t → s.Has t' sys' task → task.file = task'.file →
    task.prog.Over ∨ (sys.sole = false ∧ sys'.sole = false)
  shared : sys.sole = false → file = s.core.files task'.file ∧ fd = held task'.file
  balances : task'.prog.Balances sys.sole ⟨task'.mem, task'.sizes, file, fd⟩ task'.past.req

variable {t : Nat} {sys : Syscall} {task' : Task σ} {file : Option Crof} {fd : Option Int}

theorem Vfs.Moves.has (hm : s.Moves s' held t sys task' file fd) (t₁ : Nat) (sys₁ : Syscall)
    (task₁ : Task σ) : s'.Has t₁ sys₁ task₁ ↔
      (t₁ = t ∧ sys₁ = sys ∧ task₁ = task') ∨ (t₁ ≠ t ∧ s.Has t₁ sys₁ task₁) := by
  unfold Vfs.Has
  rw [hm.tasks, hm.kinds, update_eq_some, update_eq_some]
  constructor
  · rintro ⟨⟨rfl, ⟨⟩⟩ | ⟨hne, ht⟩, ⟨hself, hsys⟩ | ⟨hne', hsys⟩⟩
    · cases hsys
      exact .inl ⟨rfl, rfl, rfl⟩
    · exact absurd rfl hne'
    · exact absurd hself hne
    · exact .inr ⟨hne, ht, hsys⟩
  · rintro (⟨rfl, rfl, rfl⟩ | ⟨hne, ht, hsys⟩)
    · exact ⟨.inl ⟨rfl, rfl⟩, .inl ⟨rfl, rfl⟩⟩
    · exact ⟨.inr ⟨hne, ht⟩, .inr ⟨hne, hsys⟩⟩

theorem Vfs.Moves.view_self (hm : s.Moves s' held t sys task' file fd) :
    s'.view (Function.update held task'.file fd) task' = ⟨task'.mem, task'.sizes, file, fd⟩ := by
  unfold Vfs.view
  rw [hm.files, Function.update_self, Function.update_self]

-- The view of a task on another file, or of one that shares the file.
theorem Vfs.Moves.view_other (hm : s.Moves s' held t sys task' file fd) (task : Task σ)
    (h : task.file = task'.file → sys.sole = false) :
    s'.view (Function.update held task'.file fd) task = s.view held task := by
  unfold Vfs.view
  rw [hm.files]
  by_cases heq : task.file = task'.file
  · obtain ⟨hfile, hfd⟩ := hm.shared (h heq)
    rw [heq, Function.update_self, Function.update_self, hfile, hfd]
  · rw [Function.update_of_ne heq, Function.update_of_ne heq]

theorem Vfs.Books.moves (hs : s.Books c opened x held) (hm : s.Moves s' held t sys task' file fd)
    (hstage : ∃ stage, s'.core.At c stage) (hhost : s'.proc.host = s'.core.host)
    (hheld : Held opened x s'.proc (Function.update held task'.file fd)) :
    s'.Books c opened x (Function.update held task'.file fd) where
  stage := hstage
  host := hhost
  ledger := hheld
  known := by
    intro t₁ task₁ ht
    rw [hm.tasks, update_eq_some] at ht
    rw [hm.kinds]
    obtain ⟨rfl, -⟩ | ⟨hne, ht⟩ := ht
    · exact ⟨sys, Function.update_self ..⟩
    · obtain ⟨sys₁, hsys⟩ := hs.known t₁ task₁ ht
      exact ⟨sys₁, (Function.update_of_ne hne ..).trans hsys⟩
  calls := by
    intro t₁ sys₁ task₁ hhas
    obtain ⟨rfl, rfl, rfl⟩ | ⟨hne, hhas⟩ := (hm.has t₁ sys₁ task₁).mp hhas
    · rw [hm.view_self]
      exact .inr hm.balances
    · have hcall := hs.calls t₁ sys₁ task₁ hhas
      by_cases hfile : task₁.file = task'.file
      · obtain hover | ⟨hsole, -⟩ := hm.others t₁ sys₁ task₁ hne hhas hfile
        · exact .inl ⟨hover, hcall.elim And.right (over_settled hover)⟩
        · rw [hm.view_other task₁ fun _ => hsole]
          exact hcall
      · rw [hm.view_other task₁ fun heq => absurd heq hfile]
        exact hcall
  alone := by
    intro t₁ t₂ sys₁ sys₂ task₁ task₂ hne h₁ h₂ hfile
    obtain ⟨rfl, rfl, rfl⟩ | ⟨hne₁, h₁⟩ := (hm.has t₁ sys₁ task₁).mp h₁
    · obtain ⟨rfl, -⟩ | ⟨hne₂, h₂⟩ := (hm.has t₂ sys₂ task₂).mp h₂
      · exact absurd rfl hne
      · obtain hover | ⟨hsole, -⟩ := hm.others t₂ sys₂ task₂ hne₂ h₂ hfile
        · exact .inr (.inl hover)
        · exact .inr (.inr hsole)
    · obtain ⟨rfl, rfl, rfl⟩ | ⟨hne₂, h₂⟩ := (hm.has t₂ sys₂ task₂).mp h₂
      · obtain hover | ⟨-, hsole⟩ := hm.others t₁ sys₁ task₁ hne₁ h₁ hfile.symm
        · exact .inl hover
        · exact .inr (.inr hsole)
      · exact hs.alone t₁ t₂ sys₁ sys₂ task₁ task₂ hne h₁ h₂ hfile
  rest := by
    intro f hover
    by_cases hf : f = task'.file
    · subst hf
      rw [hm.files, Function.update_self, Function.update_self]
      cases hsole : sys.sole with
      | true =>
          have hbal := hm.balances
          rw [hsole] at hbal
          exact over_agree (hover t sys task' ((hm.has ..).mpr (.inl ⟨rfl, rfl, rfl⟩)) rfl hsole) hbal
      | false =>
          -- The call was not among those that the premise is about.
          obtain ⟨hfile, hfd⟩ := hm.shared hsole
          rw [hfile, hfd]
          refine hs.rest task'.file fun t₁ sys₁ task₁ hhas hfile hsole₁ => ?_
          by_cases hne : t₁ = t
          · subst hne
            obtain ⟨rfl, -⟩ := hm.before sys₁ task₁ hhas
            rw [hsole] at hsole₁
            cases hsole₁
          · exact hover t₁ sys₁ task₁ ((hm.has ..).mpr (.inr ⟨hne, hhas⟩)) hfile hsole₁
    · rw [hm.files, Function.update_of_ne hf, Function.update_of_ne hf]
      refine hs.rest f fun t₁ sys₁ task₁ hhas hfile hsole₁ => ?_
      have hne : t₁ ≠ t := by
        rintro rfl
        exact hf (hfile.symm.trans (hm.before sys₁ task₁ hhas).2)
      exact hover t₁ sys₁ task₁ ((hm.has ..).mpr (.inr ⟨hne, hhas⟩)) hfile hsole₁
  fresh := by
    intro f hfresh
    rw [hm.tasks] at hfresh
    have hf : f ≠ task'.file := fun hf => hfresh t task' (Function.update_self ..) hf.symm
    rw [hm.files, Function.update_of_ne hf, Function.update_of_ne hf]
    refine hs.fresh f fun t₁ task₁ ht hfile => ?_
    have hne : t₁ ≠ t := by
      rintro rfl
      obtain ⟨sys₁, hsys⟩ := hs.known t₁ task₁ ht
      exact hf (hfile.symm.trans (hm.before sys₁ task₁ ⟨ht, hsys⟩).2)
    exact hfresh t₁ task₁ ((Function.update_of_ne hne ..).trans ht) hfile

-- A step that says nothing of the files and leaves every request where it is.
theorem Vfs.Books.same (hs : s.Books c opened x held)
    (hforth : ∀ t task, s'.core.tasks t = some task →
      ∃ past, s.core.tasks t = some { task with past } ∧ past.req = task.past.req)
    (hback : ∀ t task, s.core.tasks t = some task → ∃ past, s'.core.tasks t = some { task with past })
    (hfiles : s'.core.files = s.core.files) (hsys : s'.sys = s.sys) (hproc : s'.proc = s.proc)
    (hhost : s'.core.host = s.core.host) (hstage : ∃ stage, s'.core.At c stage) :
    s'.Books c opened x held where
  stage := hstage
  host := by rw [hproc, hs.host, hhost]
  ledger := hproc ▸ hs.ledger
  known := by
    intro t task ht
    obtain ⟨past, ht, -⟩ := hforth t task ht
    rw [hsys]
    exact hs.known t _ ht
  calls := by
    rintro t sys task ⟨ht, hkind⟩
    obtain ⟨past, ht, hreq⟩ := hforth t task ht
    rw [hsys] at hkind
    have hcall := hs.calls t sys _ ⟨ht, hkind⟩
    rw [hreq] at hcall
    unfold Vfs.view at hcall ⊢
    rw [hfiles]
    exact hcall
  alone := by
    rintro t t' sys sys' task task' hne ⟨ht, hkind⟩ ⟨ht', hkind'⟩ hfile
    obtain ⟨past, ht, -⟩ := hforth t task ht
    obtain ⟨past', ht', -⟩ := hforth t' task' ht'
    rw [hsys] at hkind hkind'
    exact hs.alone t t' sys sys' { task with past } { task' with past := past' } hne ⟨ht, hkind⟩
      ⟨ht', hkind'⟩ hfile
  rest := by
    intro f hover
    rw [hfiles]
    refine hs.rest f ?_
    rintro t sys task ⟨ht, hkind⟩ hfile hsole
    obtain ⟨past, ht⟩ := hback t task ht
    rw [← hsys] at hkind
    exact hover t sys { task with past } ⟨ht, hkind⟩ hfile hsole
  fresh := by
    intro f hfresh
    rw [hfiles]
    refine hs.fresh f fun t task ht => ?_
    obtain ⟨past, ht⟩ := hback t task ht
    exact hfresh t { task with past } ht

theorem Vfs.Books.note (hs : s.Books c opened x held) (t : Nat) (g : Past σ → Past σ)
    (hg : ∀ past, (g past).req = past.req) (core : State σ)
    (htasks : core.tasks = (s.core.note t g).tasks) (hfiles : core.files = s.core.files)
    (hhost : core.host = s.core.host) (hstage : ∃ stage, core.At c stage) :
    Vfs.Books c opened x { s with core } held := by
  refine hs.same ?_ ?_ hfiles rfl rfl hhost hstage
  · intro t' task ht
    simp only [htasks, State.note] at ht
    by_cases heq : t' = t
    · subst heq
      rw [Function.update_self, Option.map_eq_some_iff] at ht
      obtain ⟨task, ht, rfl⟩ := ht
      exact ⟨task.past, ht, (hg task.past).symm⟩
    · rw [Function.update_of_ne heq] at ht
      exact ⟨task.past, ht, rfl⟩
  · intro t' task ht
    simp only [htasks, State.note]
    by_cases heq : t' = t
    · subst heq
      rw [Function.update_self, ht]
      exact ⟨_, rfl⟩
    · rw [Function.update_of_ne heq]
      exact ⟨task.past, ht⟩

-- While a call is under way, the others on its file share the file with it.
theorem Vfs.Books.others (hs : s.Books c opened x held) {task : Task σ} (hhas : s.Has t sys task)
    (hrunning : ¬task.prog.Over) (t' : Nat) (sys' : Syscall) (task₁ : Task σ) (hne : t' ≠ t)
    (hhas' : s.Has t' sys' task₁) (hfile : task₁.file = task.file) :
    task₁.prog.Over ∨ (sys.sole = false ∧ sys'.sole = false) := by
  obtain hover | hover | hsole := hs.alone t t' sys sys' task task₁ hne hhas hhas' hfile
  · exact absurd hover hrunning
  · exact .inl hover
  · obtain hover | hover | hsole' := hs.alone t' t sys' sys task₁ task hne.symm hhas' hhas hfile.symm
    · exact .inl hover
    · exact absurd hover hrunning
    · exact .inr ⟨hsole, hsole'⟩

theorem Vfs.Has.unique {task : Task σ} (hhas : s.Has t sys task) (sys₀ : Syscall) (task₀ : Task σ)
    (h : s.Has t sys₀ task₀) : sys₀ = sys ∧ task₀.file = task.file := by
  obtain ⟨ht, hkind⟩ := h
  cases ht.symm.trans hhas.1
  cases hkind.symm.trans hhas.2
  exact ⟨rfl, rfl⟩

-- A step that a call takes.
theorem Vfs.Books.advance (hs : s.Books c opened x held) {task : Task σ} (hhas : s.Has t sys task)
    (hrunning : ¬task.prog.Over) {core : State σ}
    (hadv : s.core.Advances core t task sys.sole (held task.file) task' file)
    (hstage : ∃ stage, core.At c stage) : Vfs.Books c opened x { s with core } held := by
  have hm : s.Moves { s with core } held t sys task' file (held task'.file) := by
    refine ⟨hadv.tasks, ?_, ?_, ?_, ?_, ?_, ?_⟩
    · rw [← hhas.2, Function.update_eq_self]
    · rw [hadv.same]
      exact hadv.files
    · rw [hadv.same]
      exact hhas.unique
    · rw [hadv.same]
      exact hs.others hhas hrunning
    · intro hsole
      rw [hadv.same]
      exact ⟨hadv.shared hsole, rfl⟩
    · rw [hadv.same]
      exact hadv.balances
  have hheld : Function.update held task'.file (held task'.file) = held := Function.update_eq_self _ _
  have hbooks := hs.moves hm hstage (hs.host.trans hadv.host.symm) (by rw [hheld]; exact hs.ledger)
  rwa [hheld] at hbooks

end Books

section Run

variable {c : Setup σ} {opened : σ → Int → Prop} {x : σ} {s s' : Vfs σ} {held : Nat → Option Int}
variable {stage : Stage}

-- Nobody changes an open file as long as no release is called.
theorem Vfs.Open.shared {f : Nat} (h : s.Open f) {t : Nat} {sys : Syscall} {task : Task σ}
    (hhas : s.Has t sys task) (hfile : task.file = f) : task.prog.Over ∨ sys.sole = false := by
  have hopen := h.2 t sys task hhas hfile
  cases sys with
  | openDev minor =>
      dsimp only at hopen
      rw [hopen]
      exact .inl trivial
  | ioctl cmd arg => exact .inr rfl
  | release => exact hopen.elim

theorem Vfs.Books.call (hs : s.Books c opened x held) (t f : Nat) (sys : Syscall) (mem : Mem Byte)
    (hok : s.Disciplined (.act (.call t f sys mem))) {core : State σ}
    (h : c.step s.core (.call t f sys mem) = some core) :
    Vfs.Books c opened x { s with core, sys := Function.update s.sys t (some sys) } held := by
  obtain ⟨stage, hat⟩ := hs.stage
  have hstage := at_call hat t f sys mem h
  obtain ⟨hnone, rfl⟩ := Setup.step_call h
  have hrest : s.Open f → Agree (s.core.files f) (held f) := fun hopen =>
    hs.rest f fun t' sys' task hhas hfile hsole => by
      obtain hover | hshared := hopen.shared hhas hfile
      · exact hover
      · rw [hsole] at hshared
        cases hshared
  have hagree : Agree (s.core.files f) (held f) ∧
      ∀ minor, sys = .openDev minor → s.core.files f = none := by
    cases sys with
    | openDev minor =>
        obtain ⟨hfiles, hheld⟩ := hs.fresh f hok
        rw [hfiles, hheld]
        exact ⟨agree_none, fun _ _ => rfl⟩
    | ioctl cmd arg => exact ⟨hrest hok, fun minor hsys => by cases hsys⟩
    | release => exact ⟨hrest hok.1, fun minor hsys => by cases hsys⟩
  have hothers : ∀ t' sys' task, t' ≠ t → s.Has t' sys' task → task.file = f →
      task.prog.Over ∨ (sys.sole = false ∧ sys'.sole = false) := by
    intro t' sys' task hne hhas hfile
    cases sys with
    | openDev minor => exact absurd hfile (hok t' task hhas.1)
    | ioctl cmd arg => exact (Vfs.Open.shared hok hhas hfile).imp_right fun hsole => ⟨rfl, hsole⟩
    | release => exact .inl (hok.2 t' task hhas.1 hfile)
  have hm : s.Moves { s with
      core := s.core.put t ⟨f, sys.prog, mem, [], Past.fresh⟩
      sys := Function.update s.sys t (some sys) } held t sys ⟨f, sys.prog, mem, [], Past.fresh⟩
      (s.core.files f) (held f) := by
    refine ⟨rfl, rfl, (Function.update_eq_self _ _).symm, ?_, hothers, fun _ => ⟨rfl, rfl⟩, ?_⟩
    · rintro sys₀ task₀ ⟨ht, -⟩
      rw [hnone] at ht
      cases ht
    · exact syscall_balances sys ⟨mem, [], s.core.files f, held f⟩ hagree.1 rfl hagree.2
  have hheld : Function.update held f (held f) = held := Function.update_eq_self _ _
  have hbooks := hs.moves hm ⟨stage, hstage⟩ hs.host (by rw [hheld]; exact hs.ledger)
  rwa [hheld] at hbooks

-- The buffer that a task waits for has been handled when it comes back.
theorem at_used {c : Setup σ} {s : State σ} {t : Nat} {task : Task σ} (hs : s.At c stage)
    (ht : s.tasks t = some task) (v : Nat) (next : Prog Int) (hprog : task.prog = .getBuf v next)
    (hused : (s.rings v).used ≠ []) : task.past.req = .after := by
  obtain ⟨elem, -, -, -, m, y, hpast, -⟩ := pushed_of_used hs ht v next hprog hused
  rw [hpast]
  rfl

-- A task whose request is with the device waits for it.
theorem waits_of_kicked {prog : Prog Int} {v : Nat} {elem : VirtQueueElement}
    (h : prog.Keeps (.kicked v elem)) : prog = .oops ∨ ∃ next, prog = .getBuf v next := by
  cases prog with
  | oops => exact .inl rfl
  | getBuf w next =>
      obtain ⟨elem', hph, -⟩ := h
      cases hph
      exact .inr ⟨next, rfl⟩
  | ret | kmalloc | kfree | put | get | loadUser | copyFromUser | copyToUser | nonseekableOpen
  | findDev | newCrof | getCrof | setHostFd | freeCrof | spinLock | spinUnlock | addSgs | kick =>
      simp [Prog.Fits, Phase.Free] at h

theorem QemuProcess.serve_host (h : Host σ) (p : QemuProcess σ) (r : Popped) : (p.serve h r).host =
    ((handleElem h r.qemu r.elem).run ⟨r.mem, p.host, []⟩).2.host := rfl

theorem at_handle_some {c : Setup σ} {s s' : State σ} (hs : s.At c stage)
    (h : c.step s .handle = some s') : ∃ t v elem task, s.tasks t = some task ∧
      task.prog.Keeps (.kicked v elem) ∧ task.past.req = .sent elem ∧
      s.popped c = some ⟨task.file, c.qemu t, elem, task.mem⟩ ∧
      s' = { s.put t { task with
          mem := c.reply t elem task.mem s.host
          past := { task.past with served := some s.host } } with
        host := ((handleElem c.host (c.qemu t) elem).run ⟨task.mem, s.host, []⟩).2.host
        device := .handled v ⟨t, elem⟩ } := by
  obtain ⟨v, ⟨t, elem⟩, task, hdevice, ht, rfl⟩ := Setup.step_handle h
  have hpopped : s.popped c = some ⟨task.file, c.qemu t, elem, task.mem⟩ := by
    simp only [State.popped, hdevice, ht, Option.map_some]
  rw [hs.device] at hdevice
  obtain rfl := Stage.of_popped hdevice
  obtain ⟨task', ht', hfits, -, hpast⟩ := hs.holding
  cases ht.symm.trans ht'
  refine ⟨t, v, elem, task, ht, hfits, ?_, hpopped, rfl⟩
  rw [hpast]
  rfl

-- What is left of a call that waits is sure of its reply and of what is held from now on.
theorem Vfs.Books.reply (hs : s.Books c opened x held) {t : Nat} {sys : Syscall} {task : Task σ}
    (hhas : s.Has t sys task) (v : Nat) (next : Prog Int) (hprog : task.prog = .getBuf v next)
    (m : Mem Byte) (y : σ) (fd : Option Int) (core : State σ) (proc : QemuProcess σ)
    (htasks : core.tasks = Function.update s.core.tasks t
      (some { task with mem := m, past := { task.past with served := some y } }))
    (hfiles : core.files = s.core.files) (hstage : ∃ stage, core.At c stage)
    (hhost : proc.host = core.host) (hheld : Held opened x proc (Function.update held task.file fd))
    (hshared : sys.sole = false → fd = held task.file)
    (hnext : next.Balances sys.sole ⟨m, task.sizes, s.core.files task.file, fd⟩ .after) :
    ∃ held', Vfs.Books c opened x { s with core, proc } held' := by
  have hrunning : ¬task.prog.Over := by
    rw [hprog]
    exact id
  have hothers := hs.others hhas hrunning
  have hm : s.Moves { s with core, proc } held t sys
      { task with mem := m, past := { task.past with served := some y } }
      (s.core.files task.file) fd := by
    refine ⟨htasks, ?_, ?_, hhas.unique, ?_, fun hsole => ⟨rfl, hshared hsole⟩, ?_⟩
    · rw [← hhas.2, Function.update_eq_self]
    · exact hfiles.trans (Function.update_eq_self _ _).symm
    · exact hothers
    · dsimp only
      rw [hprog]
      exact hnext
  exact ⟨_, hs.moves hm hstage hhost hheld⟩

-- The device handles the request of a call, on which the call relies.
theorem Vfs.Books.handle (ht : c.host.Tracks opened) (hs : s.Books c opened x held) {core : State σ}
    (h : c.step s.core .handle = some core) : ∃ held', Vfs.Books c opened x
      { s with core, proc := (s.core.popped c).elim s.proc (s.proc.serve c.host) } held' := by
  obtain ⟨stage, hat⟩ := hs.stage
  have hstage := at_step hs.stage .handle h
  obtain ⟨t, v, elem, task, htask, hfits, hreq, hpopped, rfl⟩ := at_handle_some hat h
  obtain ⟨sys, hkind⟩ := hs.known t task htask
  have hunsettled : ¬task.past.req.Settled := fun hsettled => hsettled elem hreq
  have hbal := (hs.calls t sys task ⟨htask, hkind⟩).resolve_left fun hover => hunsettled hover.2
  obtain hprog | ⟨next, hprog⟩ := waits_of_kicked hfits
  · rw [hprog] at hbal
    exact absurd hbal.2 hunsettled
  rw [hprog, hreq] at hbal
  rw [hpopped]
  have hhost : (s.proc.serve c.host ⟨task.file, c.qemu t, elem, task.mem⟩).host =
      ((handleElem c.host (c.qemu t) elem).run ⟨task.mem, s.core.host, []⟩).2.host := by
    rw [QemuProcess.serve_host, hs.host]
  simp only [Prog.Accounts] at hbal
  obtain ⟨ho, hsole, hheld, hnext⟩ | ⟨hc, hsole, hheld, hnext⟩ | ⟨hi, htarget, hnext⟩ := hbal
  · refine hs.reply ⟨htask, hkind⟩ v next hprog _ _ (desc (c.host.openDev s.core.host).1) _ _ rfl rfl
      hstage hhost ?_ ?_ ?_
    · rw [← hs.host]
      exact held_open ht hs.ledger _ ho hheld
    · rw [hsole]
      exact fun hsole => absurd hsole (by decide)
    · obtain ⟨hlo, hhi⟩ := c.host.open_range s.core.host
      unfold Setup.reply
      rw [handleElem_open c.host (c.qemu t) elem ⟨task.mem, s.core.host, []⟩ ho]
      exact hnext _ (by omega) hhi
  · refine hs.reply ⟨htask, hkind⟩ v next hprog _ _ none _ _ rfl rfl hstage hhost ?_ ?_ ?_
    · exact held_close ht hs.ledger _ hc hheld
    · rw [hsole]
      exact fun hsole => absurd hsole (by decide)
    · unfold Setup.reply
      rw [handleElem_close c.host (c.qemu t) elem ⟨task.mem, s.core.host, []⟩ hc]
      exact hnext
  · refine hs.reply ⟨htask, hkind⟩ v next hprog _ _ (held task.file) _ _ rfl rfl hstage hhost ?_
      (fun _ => rfl) (hnext _)
    rw [Function.update_eq_self]
    exact held_ioctl ht hs.ledger _ hi fun fd hfd => htarget _ _ fd hfd

theorem run_running {c : Setup σ} {s s' : State σ} {t : Nat} {task : Task σ} {data : List Byte}
    {prog : Prog Int} (h : c.run s t task data prog = some s') : ¬prog.Over := by
  intro hover
  cases prog with
  | ret | oops => cases h
  | kmalloc | kfree | put | get | loadUser | copyFromUser | copyToUser | nonseekableOpen | findDev
  | newCrof | getCrof | setHostFd | freeCrof | spinLock | spinUnlock | addSgs | kick | getBuf =>
      exact hover

theorem fail_running {s s' : State σ} {t : Nat} {task : Task σ} {ret : Int} {prog : Prog Int}
    (h : Setup.fail s t task ret prog = some s') : ¬prog.Over := by
  intro hover
  cases prog with
  | ret | oops => cases h
  | kmalloc | kfree | put | get | loadUser | copyFromUser | copyToUser | nonseekableOpen | findDev
  | newCrof | getCrof | setHostFd | freeCrof | spinLock | spinUnlock | addSgs | kick | getBuf =>
      exact hover

theorem books_step (ht : c.host.Tracks opened) (hs : ∃ held, s.Books c opened x held) (m : Move)
    (hok : s.Disciplined m) (h : s.step c m = some s') : ∃ held, s'.Books c opened x held := by
  obtain ⟨held, hs⟩ := hs
  obtain ⟨core, hcore, rfl⟩ := Option.map_eq_some_iff.mp h
  obtain ⟨stage, hat⟩ := hs.stage
  cases m with
  | fail t ret =>
      obtain ⟨task, htask, hcore⟩ := Setup.move_fail hcore
      obtain ⟨sys, hkind⟩ := hs.known t task htask
      obtain ⟨task', hcore', hcont, -⟩ := fail_cases s.core core t task ret task.prog hcore
      have hstage := at_alone hat htask task' (hcore' ▸ s.core.alone_put t task') hcont
      have hrunning := fail_running hcore
      have hbal := (hs.calls t sys task ⟨htask, hkind⟩).resolve_left fun hover => hrunning hover.1
      obtain ⟨task', file, hadv⟩ := fail_advances ret task.prog hbal (hok task htask) hcore
      exact ⟨held, hs.advance ⟨htask, hkind⟩ hrunning hadv ⟨stage, hstage⟩⟩
  | act a =>
      change c.step s.core a = some core at hcore
      have hstage := at_step hs.stage a hcore
      cases a with
      | call t f sys mem => exact ⟨held, hs.call t f sys mem hok hcore⟩
      | handle => exact hs.handle ht hcore
      | run t data =>
          obtain ⟨task, htask, hcore⟩ := Setup.step_run hcore
          obtain ⟨sys, hkind⟩ := hs.known t task htask
          have hrunning := run_running hcore
          have hbal := (hs.calls t sys task ⟨htask, hkind⟩).resolve_left fun hover => hrunning hover.1
          obtain ⟨task', file, hadv⟩ := run_advances data task.prog hbal (at_used hat htask) hcore
          exact ⟨held, hs.advance ⟨htask, hkind⟩ hrunning hadv hstage⟩
      | pop v =>
          obtain ⟨-, -, ⟨-, rfl⟩ | ⟨buf, avail, -, rfl⟩⟩ := Setup.step_pop hcore
          · refine ⟨held, hs.same ?_ ?_ rfl rfl rfl rfl hstage⟩
            · exact fun t task ht => ⟨task.past, ht, rfl⟩
            · exact fun t task ht => ⟨task.past, ht⟩
          · exact ⟨held, hs.note buf.owner (fun past => { past with pops := past.pops + 1 })
              (fun _ => rfl) _ rfl rfl rfl hstage⟩
      | push =>
          obtain ⟨v, buf, -, rfl⟩ := Setup.step_push hcore
          exact ⟨held, hs.note buf.owner (fun past => { past with pushes := past.pushes + 1 })
            (fun _ => rfl) _ rfl rfl rfl hstage⟩

-- When no call is in progress, the descriptors that the backend holds are the
-- nonnegative host_fds of the open files, one for each. In every state, each
-- close and each ioctl on a descriptor was on one that the backend had opened
-- for the same file and not closed since.
theorem descriptors_accounted (c : Setup σ) (opened : σ → Int → Prop)
    (ht : c.host.Tracks opened) (x : σ) (moves : List Move) (s : Vfs σ)
    (run : Run (Vfs.step c) Vfs.Disciplined (Vfs.boot x) moves s) :
    (s.Quiet →
      (∀ fd f, s.proc.ledger fd = some f ↔
        0 ≤ fd ∧ ∃ crof, s.core.files f = some crof ∧ crof.hostFd = fd) ∧
      (∀ f g crof crof', s.core.files f = some crof → s.core.files g = some crof' →
        0 ≤ crof.hostFd → crof.hostFd = crof'.hostFd → f = g) ∧
      ∀ fd, 0 ≤ fd → (opened s.core.host fd ↔
        opened x fd ∨ ∃ f crof, s.core.files f = some crof ∧ crof.hostFd = fd)) ∧
    ∀ u ∈ s.proc.trail, 0 ≤ u.fd → u.owner = some u.sender := by
  obtain ⟨held, hs⟩ : ∃ held, s.Books c opened x held :=
    run.invariant ⟨_, books_boot c opened x⟩ fun _ a _ hs hok h => books_step ht hs a hok h
  refine ⟨fun hquiet => ?_, hs.ledger.trail⟩
  have hheld : ∀ fd f, held f = some fd ↔
      0 ≤ fd ∧ ∃ crof, s.core.files f = some crof ∧ crof.hostFd = fd := by
    intro fd f
    have hagree := hs.rest f fun t sys task hhas _ _ => hquiet t task hhas.1
    rw [hagree.held, Option.bind_eq_some_iff]
    constructor
    · rintro ⟨crof, hcrof, hdesc⟩
      obtain ⟨hpos, hfd⟩ := (desc_eq_some _ _).mp hdesc
      exact ⟨hpos, crof, hcrof, hfd⟩
    · rintro ⟨hpos, crof, hcrof, hfd⟩
      exact ⟨crof, hcrof, (desc_eq_some _ _).mpr ⟨hpos, hfd⟩⟩
  refine ⟨fun fd f => (hs.ledger.ledger fd f).trans (hheld fd f), ?_, fun fd hpos => ?_⟩
  · intro f g crof crof' hf hg hpos heq
    exact hs.ledger.ledger.unique ((hheld _ f).mpr ⟨hpos, crof, hf, rfl⟩)
      ((hheld _ g).mpr ⟨hpos, crof', hg, heq.symm⟩)
  · rw [← hs.host, hs.ledger.table fd hpos]
    refine or_congr_right (exists_congr fun f => ?_)
    rw [hheld]
    exact and_iff_right hpos

end Run

section Session

-- A host with one descriptor to give.
def slotHost : Host Bool where
  openDev := fun isOpen => (if isOpen then -1 else 3, true)
  closeDev := fun fd isOpen => if fd = 3 then (0, false) else (-1, isOpen)
  gsession := fun _ _ isOpen => (.ok 1, isOpen)
  fsession := fun _ _ isOpen => (.ok (), isOpen)
  crypt := fun _ args isOpen => (.ok ⟨args.src, [], []⟩, isOpen)
  open_range := fun isOpen => by cases isOpen <;> decide
  dst_length := fun _ _ _ _ _ h => by
    cases h
    rfl

theorem slotHost_tracks : slotHost.Tracks fun isOpen fd => isOpen = true ∧ fd = 3 where
  fresh := fun isOpen h => by cases isOpen <;> simp_all [slotHost]
  opens := fun isOpen fd => by
    cases isOpen <;> simp [slotHost] <;> omega
  closes := fun isOpen y fd => by
    by_cases hy : y = 3 <;> simp [slotHost, hy]
    omega
  gsession := fun _ _ _ _ => Iff.rfl
  fsession := fun _ _ _ _ => Iff.rfl
  crypt := fun _ _ _ _ => Iff.rfl

def slotSetup : Setup Bool := ⟨fun _ => some 0, slotHost, fun _ => flatQemu⟩

-- The steps of a call, with those of the device after the first `before` of its own.
def callMoves (t : Nat) (before after : Nat) : List Move :=
  List.replicate before (.act (.run t [])) ++ [.act (.pop 0), .act .handle, .act .push] ++
    List.replicate after (.act (.run t []))

theorem callMoves_disciplined (t before after : Nat) (s : Vfs σ) :
    ∀ m ∈ callMoves t before after, s.Disciplined m := by
  intro m hm
  simp only [callMoves, List.mem_append, List.mem_replicate, List.mem_cons, List.not_mem_nil,
    or_false] at hm
  obtain (⟨-, rfl⟩ | rfl | rfl | rfl) | ⟨-, rfl⟩ := hm <;> trivial

-- A file is opened and gets the descriptor, and its release closes it.
theorem session_accounted : ∃ s s' : Vfs Bool, s.Quiet ∧ s.core.files 0 = some ⟨0, 3⟩ ∧
    s.proc.ledger 3 = some 0 ∧ s'.proc.trail = [⟨0, 3, some 0⟩] ∧
    ∀ u ∈ s'.proc.trail, 0 ≤ u.fd → u.owner = some u.sender := by
  obtain ⟨s, hopened, ⟨task, hhas, htfile, hret⟩, hother, hfile, hreleased⟩ : ∃ s : Vfs Bool,
      (callMoves 0 12 6).foldlM (Vfs.step slotSetup)
        ((Vfs.boot false).follow slotSetup ((State.boot false).put 0
          ⟨0, cryptoChrdevOpen 0, fun _ => 0xff, [], Past.fresh⟩)
          (.act (.call 0 0 (.openDev 0) fun _ => 0xff))) = some s ∧
      (∃ task, s.Has 0 (.openDev 0) task ∧ task.file = 0 ∧ task.prog = .ret 0) ∧
      (∀ t, s.core.tasks (t + 1) = none) ∧ s.core.files 0 = some ⟨0, 3⟩ ∧
      ((callMoves 1 8 5).foldlM (Vfs.step slotSetup)
        (s.follow slotSetup (s.core.put 1 ⟨0, cryptoChrdevRelease, fun _ => 0xff, [], Past.fresh⟩)
          (.act (.call 1 0 .release fun _ => 0xff)))).any
        (fun s' => decide (s'.proc.trail = [⟨0, 3, some 0⟩])) = true := by
    exact ⟨_, rfl, ⟨_, ⟨rfl, rfl⟩, rfl, rfl⟩, fun t => rfl, rfl, by decide +kernel⟩
  obtain ⟨s', hreleased, htrail⟩ := (Option.any_eq_true ..).mp hreleased
  have hrun : Run (Vfs.step slotSetup) Vfs.Disciplined (Vfs.boot false)
      (.act (.call 0 0 (.openDev 0) fun _ => 0xff) :: callMoves 0 12 6) s :=
    .cons (fun _ _ ht => nomatch ht) rfl (.of_foldlM (fun s => callMoves_disciplined 0 12 6 s) hopened)
  have honly : ∀ t task', s.core.tasks t = some task' → t = 0 ∧ task' = task := by
    rintro (_ | t) task' ht
    · exact ⟨rfl, Option.some.inj (ht.symm.trans hhas.1)⟩
    · rw [hother] at ht
      cases ht
  have hover : ∀ t task', s.core.tasks t = some task' → task'.prog.Over := by
    intro t task' ht
    rw [(honly t task' ht).2, hret]
    trivial
  have hopen : s.Open 0 := by
    refine ⟨⟨0, _, task, hhas, htfile⟩, fun t sys task' hhas' _ => ?_⟩
    obtain ⟨rfl, rfl⟩ := honly t task' hhas'.1
    cases hhas'.2.symm.trans hhas.2
    exact hret
  have hcall : s.step slotSetup (.act (.call 1 0 .release fun _ => 0xff)) =
      some (s.follow slotSetup (s.core.put 1 ⟨0, cryptoChrdevRelease, fun _ => 0xff, [], Past.fresh⟩)
        (.act (.call 1 0 .release fun _ => 0xff))) := by
    simp [Vfs.step, Setup.move, Setup.step, hother 0, Syscall.prog]
  have hok : s.Disciplined (.act (.call 1 0 .release fun _ => 0xff)) :=
    ⟨hopen, fun t task' ht _ => hover t task' ht⟩
  have hrun' := (hrun.snoc hok hcall).append
    (.of_foldlM (fun s => callMoves_disciplined 1 8 5 s) hreleased)
  obtain ⟨hledger, -⟩ := (descriptors_accounted slotSetup _ slotHost_tracks false _ s hrun).1 hover
  exact ⟨s, s', hover, hfile, (hledger 3 0).mpr ⟨by decide, _, hfile, rfl⟩, of_decide_eq_true htrail,
    (descriptors_accounted slotSetup _ slotHost_tracks false _ s' hrun').2⟩

end Session

end CryptodevChat.Virtio
