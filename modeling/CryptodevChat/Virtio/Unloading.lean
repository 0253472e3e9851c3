import CryptodevChat.Virtio.Loading

namespace CryptodevChat.Virtio

open Lib (Run guarded)

variable {σ : Type}

section Leaving

-- The next statement of a probe or of a remove.
def Life.next : Life → Life
  | .ready => .linked
  | .linked => .unlinked
  | .unlinked => .reset
  | .reset => .stripped
  | .stripped => .freed
  | l => l

-- How many of them a device has before it.
def Life.left : Life → Nat
  | .ready => 5
  | .linked => 4
  | .unlinked => 3
  | .reset => 2
  | .stripped => 1
  | _ => 0

theorem left_next {l : Life} (h : l.Bound) : l.next.left < l.left := by
  obtain rfl | rfl | rfl | rfl | rfl := h <;> decide

-- The steps that take a module and its devices away.
def ModuleAct.Leaves : ModuleAct → Prop
  | .proceed _ => True
  | .plug (.link _) | .plug (.unlink _) | .plug (.reset _) | .plug (.delVqs _) | .plug (.free _) => True
  | _ => False

def CryptoModule.Good (m : CryptoModule σ) (a : ModuleAct) : Prop := m.Ruled a ∧ m.Careful a

variable {c : Setup σ} {opened : σ → Int → Prop} {x : σ} {m m' : CryptoModule σ}

theorem moduleSound_run (ht : c.host.Tracks opened) {events : List ModuleAct} (hm : m.Sound c opened x)
    (run : Run (CryptoModule.step c) CryptoModule.Good m events m') : m'.Sound c opened x :=
  run.invariant hm fun _ a _ hs hok h => moduleSound_step ht hs a hok.1 hok.2 h

-- A run of the module's own, in which its code stays where it is.
structure Clears (c : Setup σ) (m : CryptoModule σ) (events : List ModuleAct) (m' : CryptoModule σ) :
    Prop where
  run : Run (CryptoModule.step c) CryptoModule.Good m events m'
  leaves : ∀ e ∈ events, e.Leaves
  code : m'.code = m.code
  registry : m'.registry = m.registry

theorem Clears.refl (c : Setup σ) (m : CryptoModule σ) : Clears c m [] m :=
  ⟨.nil m, fun _ he => (nomatch he), rfl, rfl⟩

theorem Clears.trans {before after : List ModuleAct} {m'' : CryptoModule σ} (h : Clears c m before m')
    (h' : Clears c m' after m'') : Clears c m (before ++ after) m'' where
  run := h.run.append h'.run
  leaves := fun e he => (List.mem_append.mp he).elim (h.leaves e) (h'.leaves e)
  code := h'.code.trans h.code
  registry := h'.registry.trans h.registry

theorem become_next {k : Kernel σ} {v : Nat} {l : Life} (hlife : k.life v = l) :
    ∃ kernel, k.become v l l.next = some kernel ∧
      kernel.life = Function.update k.life v (k.life v).next := by
  subst hlife
  exact ⟨_, if_pos rfl, rfl⟩

-- With the lock free and the device idle, the next statement of a probe or a remove can run.
theorem kernel_moves (c : Setup σ) (k : Kernel σ) (hlock : k.core.lock = none)
    (hdevice : k.core.device = .idle) (v : Nat) (hv : (k.life v).Bound) :
    ∃ a kernel, k.step c a = some kernel ∧ kernel.life = Function.update k.life v (k.life v).next ∧
      a ∈ [Plug.link v, .unlink v, .reset v, .delVqs v, .free v] := by
  obtain hlife | hlife | hlife | hlife | hlife := hv
  · obtain ⟨kernel, hbecome, hkernel⟩ := become_next (k := { k with
      devs := k.devs ++ [v]
      minor := Function.update k.minor v k.nextMinor
      nextMinor := (k.nextMinor + 1) % 2 ^ 32 }) hlife
    exact ⟨.link v, kernel, (if_pos hlock).trans hbecome, hkernel, by simp⟩
  · obtain ⟨kernel, hbecome, hkernel⟩ := become_next (k := { k with devs := k.devs.erase v }) hlife
    exact ⟨.unlink v, kernel, (if_pos hlock).trans hbecome, hkernel, by simp⟩
  · obtain ⟨kernel, hbecome, hkernel⟩ := become_next hlife
    refine ⟨.reset v, kernel, (if_neg ?_).trans hbecome, hkernel, by simp⟩
    rw [hdevice]
    exact nofun
  · obtain ⟨kernel, hbecome, hkernel⟩ := become_next hlife
    exact ⟨.delVqs v, kernel, hbecome, hkernel, by simp⟩
  · obtain ⟨kernel, hbecome, hkernel⟩ := become_next hlife
    exact ⟨.free v, kernel, hbecome, hkernel, by simp⟩

-- While the module goes, nothing keeps a device from getting further.
theorem bound_moves (hm : m.Sound c opened x) (hgoing : m.code.isGoing = true)
    (hdriver : m.registry.driver = true) (v : Nat) (hv : (m.kernel.life v).Bound) :
    ∃ e m', Clears c m [e] m' ∧
      m'.kernel.life = Function.update m.kernel.life v (m.kernel.life v).next := by
  obtain ⟨held, hbooks⟩ := hm.books
  have hstage := stage_of_quiet hbooks (hm.unused (.inr (.inl hgoing))).quiet
  obtain ⟨a, kernel, hstep, hlife, ha⟩ := kernel_moves c m.kernel hstage.lock hstage.device v hv
  have hmoves : m.Admits a = true ∧ m.Good (.plug a) ∧ (ModuleAct.plug a).Leaves := by
    simp only [List.mem_cons, List.not_mem_nil, or_false] at ha
    obtain rfl | rfl | rfl | rfl | rfl := ha
    · exact ⟨hdriver, ⟨trivial, trivial⟩, trivial⟩
    · exact ⟨hdriver, ⟨trivial, .inl hgoing⟩, trivial⟩
    · exact ⟨rfl, ⟨trivial, trivial⟩, trivial⟩
    · exact ⟨rfl, ⟨trivial, trivial⟩, trivial⟩
    · exact ⟨rfl, ⟨trivial, trivial⟩, trivial⟩
  have hnext : m.step c (.plug a) = some (m.follow c kernel a) := by
    simp only [CryptoModule.step]
    rw [if_pos hmoves.1, hstep, Option.map_some]
  refine ⟨.plug a, m.follow c kernel a, ⟨.cons hmoves.2.1 hnext (.nil _), ?_, follow_code _ _,
    follow_registry _ _⟩, ?_⟩
  · intro e he
    rw [List.mem_singleton.mp he]
    exact hmoves.2.2
  · rw [follow_kernel, hlife]

-- One device goes, and the others stay as they are.
theorem device_clears (ht : c.host.Tracks opened) (v n : Nat) (m : CryptoModule σ) (hm : m.Sound c opened x)
    (hgoing : m.code.isGoing = true) (hdriver : m.registry.driver = true)
    (hn : (m.kernel.life v).left ≤ n) :
    ∃ events m', Clears c m events m' ∧ ¬(m'.kernel.life v).Bound ∧
      ∀ w ≠ v, m'.kernel.life w = m.kernel.life w := by
  induction n generalizing m with
  | zero =>
      refine ⟨[], m, .refl c m, fun hbound => ?_, fun _ _ => rfl⟩
      have hless := left_next hbound
      omega
  | succ n ih =>
      by_cases hbound : (m.kernel.life v).Bound
      · obtain ⟨e, m', hclears, hlife⟩ := bound_moves hm hgoing hdriver v hbound
        have hless := left_next hbound
        obtain ⟨events, m'', hclears', hgone, hothers⟩ := ih m' (moduleSound_run ht hm hclears.run)
          (by rw [hclears.code, hgoing]) (by rw [hclears.registry, hdriver])
          (by rw [hlife, Function.update_self]; omega)
        refine ⟨_, m'', hclears.trans hclears', hgone, fun w hw => ?_⟩
        rw [hothers w hw, hlife, Function.update_of_ne hw]
      · exact ⟨[], m, .refl c m, hbound, fun _ _ => rfl⟩

theorem devices_clear (ht : c.host.Tracks opened) (n : Nat) (hm : m.Sound c opened x)
    (hgoing : m.code.isGoing = true) (hdriver : m.registry.driver = true) :
    ∃ events m', Clears c m events m' ∧ (∀ v < n, ¬(m'.kernel.life v).Bound) ∧
      ∀ w ≥ n, m'.kernel.life w = m.kernel.life w := by
  induction n with
  | zero => exact ⟨[], m, .refl c m, fun v hv => absurd hv (by omega), fun _ _ => rfl⟩
  | succ n ih =>
      obtain ⟨events, m', hclears, hgone, hothers⟩ := ih
      obtain ⟨events', m'', hclears', hgone', hothers'⟩ := device_clears ht n _ m'
        (moduleSound_run ht hm hclears.run) (by rw [hclears.code, hgoing])
        (by rw [hclears.registry, hdriver]) le_rfl
      refine ⟨_, m'', hclears.trans hclears', fun v hv => ?_, fun w hw => ?_⟩
      · by_cases hvn : v = n
        · rwa [hvn]
        · rw [hothers' v hvn]
          exact hgone v (by omega)
      · rw [hothers' w (by omega), hothers w (by omega)]

-- The module can be gone in the end, by steps of its own.
def CryptoModule.CanGo (c : Setup σ) (m : CryptoModule σ) : Prop :=
  ∃ events m', Run (CryptoModule.step c) CryptoModule.Good m events m' ∧ (∀ e ∈ events, e.Leaves) ∧
    m'.code = .absent

-- A statement of `fini`, and then the rest.
theorem statement_leaves (ht : c.host.Tracks opened) (hm : m.Sound c opened x) {prog next : Load Unit}
    {r : Registry} (hcode : m.code = .going prog) (hstep : prog.step m.registry 0 = some (next, r))
    (hunbound : ∀ next, prog = .unregisterVirtioDriver next → m.kernel.Unbound)
    (hrest : ∀ m : CryptoModule σ, m.Sound c opened x → m.code = .going next → m.CanGo c) : m.CanGo c := by
  have hgood : m.Good (.proceed 0) := by
    simp only [CryptoModule.Good, CryptoModule.Ruled, CryptoModule.Careful, hcode]
    cases prog with
    | unregisterVirtioDriver next => exact ⟨hunbound next rfl, trivial⟩
    | ret | registerChrdevRegion | cdevAdd | unregisterChrdevRegion | registerVirtioDriver | cdevDel
    | initListHead | spinLockInit => exact ⟨trivial, trivial⟩
  have hproceed : (Code.going prog).proceed m.registry 0 = some (.going next, r) := by
    cases prog with
    | ret => cases hstep
    | unregisterVirtioDriver | registerChrdevRegion | cdevAdd | unregisterChrdevRegion
    | registerVirtioDriver | cdevDel | initListHead | spinLockInit =>
        cases hstep
        rfl
  have hnext : m.step c (.proceed 0) = some { m with code := .going next, registry := r } := by
    simp only [CryptoModule.step, hcode, hproceed, Option.map_some]
  obtain ⟨events, m', run, hleaves, habsent⟩ :=
    hrest _ (moduleSound_step ht hm _ hgood.1 hgood.2 hnext) rfl
  exact ⟨_, m', .cons hgood hnext run, List.forall_mem_cons.mpr ⟨trivial, hleaves⟩, habsent⟩

-- Every statement of `fini` has its turn, the unregistration of the driver when all the
-- devices are gone.
theorem fini_leaves (ht : c.host.Tracks opened) (prog : Load Unit) (m : CryptoModule σ)
    (hm : m.Sound c opened x) (hcode : m.code = .going prog) : m.CanGo c := by
  induction prog generalizing m with
  | ret a =>
      have hgood : m.Good (.proceed 0) := by
        simp only [CryptoModule.Good, CryptoModule.Ruled, CryptoModule.Careful, hcode]
        exact ⟨trivial, trivial⟩
      have hnext : m.step c (.proceed 0) = some { m with code := .absent } := by
        simp only [CryptoModule.step, hcode, Code.proceed, Option.map_some]
      exact ⟨[.proceed 0], _, .cons hgood hnext (.nil _), by simp [ModuleAct.Leaves], rfl⟩
  | registerChrdevRegion range next ih | cdevAdd range next ih | registerVirtioDriver next ih =>
      refine statement_leaves ht hm hcode rfl (fun next hprog => ?_) fun m => ih 0 m
      cases hprog
  | unregisterChrdevRegion range next ih | cdevDel next ih | initListHead next ih
  | spinLockInit next ih =>
      refine statement_leaves ht hm hcode rfl (fun next hprog => ?_) ih
      cases hprog
  | unregisterVirtioDriver next ih =>
      have hdriver : m.registry.driver = true := by
        have hkeeps := hm.code
        rw [hcode] at hkeeps
        exact hkeeps.1
      obtain ⟨n, hn⟩ := hm.finite
      obtain ⟨before, m₁, hclears, hgone, hothers⟩ :=
        devices_clear ht n hm (by rw [hcode]; rfl) hdriver
      have hunbound : m₁.kernel.Unbound := by
        intro v
        by_cases hv : v < n
        · exact hgone v hv
        · rw [hothers v (by omega), hn v (by omega)]
          simp [Life.Bound]
      obtain ⟨events, m', run, hleaves, habsent⟩ := statement_leaves ht
        (moduleSound_run ht hm hclears.run) (hclears.code.trans hcode) rfl (fun _ _ => hunbound) ih
      exact ⟨_, m', hclears.run.append run,
        fun e he => (List.mem_append.mp he).elim (hclears.leaves e) (hleaves e), habsent⟩

-- A module that is not there has left nothing behind.
structure CryptoModule.Gone (opened : σ → Int → Prop) (x : σ) (m : CryptoModule σ) : Prop where
  bare : m.registry.Bare
  unused : m.Unused
  devs : m.kernel.devs = []
  unbound : m.kernel.Unbound
  host : ∀ fd, 0 ≤ fd → (opened m.kernel.core.host fd ↔ opened x fd)

theorem gone_of_absent (hm : m.Sound c opened x) (hcode : m.code = .absent) : m.Gone opened x := by
  have hbare := hm.code
  rw [hcode] at hbare
  have hunused := hm.unused (.inl hcode)
  have hunbound := hm.unbound hbare.driver
  refine ⟨hbare, hunused, devs_of_unbound hm.kernel.listed hunbound, hunbound, fun fd hpos => ?_⟩
  obtain ⟨held, hbooks⟩ := hm.books
  have hnone : ∀ f, held f = none := by
    intro f
    have hagree := hbooks.rest f fun t sys task hhas _ _ => hunused.quiet t task hhas.1
    rw [hagree.held, show m.vfs.core.files f = none from (hunused.closed f).2, Option.bind_none]
  rw [show m.kernel.core.host = m.vfs.core.host from rfl, ← hbooks.host, hbooks.ledger.table fd hpos]
  simp [hnone]

-- What is true of the module at any time: what `init` and `fini` have still to do registers
-- nothing twice and takes back only what is there.
structure CryptoModule.InOrder (c : Setup σ) (opened : σ → Int → Prop) (x : σ) (m : CryptoModule σ) :
    Prop where
  code : m.code.Agrees m.registry
  files : ∀ f crof, m.kernel.core.files f = some crof → m.kernel.Live crof.crdev
  calls : ∀ t task, m.kernel.core.tasks t = some task → ¬task.prog.Over →
    m.registry.list = true ∧ m.registry.lock = true ∧
      ∀ v, task.prog.target = some v → m.kernel.Live v
  live : m.code = .live → m.registry = .full
  absent : m.code = .absent → m.Gone opened x
  going : m.code.isGoing = true → m.Unused ∧ m.CanGo c

-- The module over its whole life.
theorem module_of_run (ht : c.host.Tracks opened) (x : σ) (events : List ModuleAct) (m : CryptoModule σ)
    (run : Run (CryptoModule.step c) CryptoModule.Good (CryptoModule.boot x) events m) :
    m.InOrder c opened x := by
  have hm := moduleSound_run ht (moduleSound_boot c opened x) run
  refine ⟨hm.code, hm.kernel.refers.files, fun t task htask hover => ?_, fun hcode => ?_,
    gone_of_absent hm, fun hgoing => ?_⟩
  · have hopen : ¬m.Shut := fun hshut => hover ((hm.unused hshut).quiet t task htask)
    refine ⟨Bool.eq_true_of_not_eq_false fun hno => ?_, Bool.eq_true_of_not_eq_false fun hno => ?_,
      fun v hv => target_within (hm.kernel.refers.calls t task htask) hv⟩
    · exact hopen (.inr (.inr (.inl hno)))
    · exact hopen (.inr (.inr (.inr hno)))
  · have hfull := hm.code
    rwa [hcode] at hfull
  · refine ⟨hm.unused (.inr (.inl hgoing)), ?_⟩
    cases hcode : m.code with
    | going prog => exact fini_leaves ht prog m hm hcode
    | absent | coming | live =>
        rw [hcode] at hgoing
        cases hgoing

end Leaving

section Unloaded

-- Steps that need no word of what the kernel or its user sees to.
def CryptoModule.Plain (m : CryptoModule σ) : ModuleAct → Bool
  | .insmod => true
  | .proceed _ =>
      match m.code with
      | .coming (.ret ret) => decide (0 ≤ ret)
      | .coming (.unregisterVirtioDriver _) | .going (.unregisterVirtioDriver _) => false
      | _ => true
  | .rmmod => false
  | .plug (.guest (.act (.call _ _ _ _))) | .plug (.guest (.fail _ _)) => false
  | .plug (.unlink _) => m.code.isGoing
  | .plug _ => true

theorem good_proceed (m : CryptoModule σ) (ret : Int) (h : m.Plain (.proceed ret) = true) :
    m.Good (.proceed ret) := by
  simp only [CryptoModule.Plain] at h
  simp only [CryptoModule.Good, CryptoModule.Ruled, CryptoModule.Careful]
  cases hcode : m.code with
  | absent | live => exact ⟨trivial, trivial⟩
  | coming prog =>
      rw [hcode] at h
      cases prog with
      | ret a => exact ⟨trivial, fun hneg => absurd (of_decide_eq_true h) (by omega)⟩
      | unregisterVirtioDriver => cases h
      | registerChrdevRegion | cdevAdd | unregisterChrdevRegion | registerVirtioDriver | cdevDel
      | initListHead | spinLockInit => exact ⟨trivial, trivial⟩
  | going prog =>
      rw [hcode] at h
      cases prog with
      | unregisterVirtioDriver => cases h
      | ret | registerChrdevRegion | cdevAdd | unregisterChrdevRegion | registerVirtioDriver | cdevDel
      | initListHead | spinLockInit => exact ⟨trivial, trivial⟩

theorem good_of_plain (m : CryptoModule σ) (a : ModuleAct) (h : m.Plain a = true) : m.Good a := by
  cases a with
  | insmod => exact ⟨trivial, trivial⟩
  | proceed ret => exact good_proceed m ret h
  | rmmod => cases h
  | plug a =>
      cases a with
      | unlink v => exact ⟨trivial, .inl h⟩
      | alloc | findVq | link | reset | delVqs | free => exact ⟨trivial, trivial⟩
      | guest a =>
          cases a with
          | fail t ret => cases h
          | act a =>
              cases a with
              | call t f sys mem => cases h
              | run | pop | handle | push => exact ⟨trivial, trivial⟩

theorem plain_run {c : Setup σ} {m m' : CryptoModule σ} {events : List ModuleAct}
    (h : guarded (CryptoModule.step c) (fun m a => m.Plain a = true) m events = some m') :
    Run (CryptoModule.step c) CryptoModule.Good m events m' :=
  (Run.of_guarded_some h).mono good_of_plain

def calling (t before after : Nat) : List ModuleAct :=
  (callMoves t before after).map fun a => .plug (.guest a)

def opening : ModuleAct := .plug (.guest (.act (.call 0 0 (.openDev 0) fun _ => 0xff)))
def releasing : ModuleAct := .plug (.guest (.act (.call 1 0 .release fun _ => 0xff)))

-- Insert the module and plug in a device.
def inserting : List ModuleAct := .insmod :: List.replicate 6 (.proceed 0) ++ (probe 0).map .plug

-- A device of the module is used, and the module is removed and leaves nothing behind.
theorem unloaded_gone : ∃ m m' : CryptoModule Bool, m.kernel.core.files 0 = some ⟨0, 3⟩ ∧
    m.kernel.Live 0 ∧ m'.code = .absent ∧ m'.Gone (fun isOpen fd => isOpen = true ∧ fd = 3) false := by
  obtain ⟨m₁, m₂, m₃, m₄, m₅, m₆, hrun₁, hfree, hset, hstep₁, hrun₂, ⟨task, hhas, htfile, hret, hother⟩,
    hfile, hstep₂, hrun₃, ⟨task₀, task₁, hhas₀, hhas₁, hfile₀, hfile₁, hret₀, hret₁, hothers⟩, hnone, hstep₃,
    hgoing⟩ : ∃ m₁ m₂ m₃ m₄ m₅ m₆ : CryptoModule Bool,
      guarded (CryptoModule.step slotSetup) (fun m a => m.Plain a = true) (.boot false) inserting =
        some m₁ ∧
      (∀ t, m₁.kernel.core.tasks t = none) ∧ (m₁.registry.list = true ∧ m₁.registry.lock = true) ∧
      m₁.step slotSetup opening = some m₂ ∧
      guarded (CryptoModule.step slotSetup) (fun m a => m.Plain a = true) m₂ (calling 0 12 6) = some m₃ ∧
      (∃ task, m₃.vfs.Has 0 (.openDev 0) task ∧ task.file = 0 ∧ task.prog = .ret 0 ∧
        ∀ t, m₃.kernel.core.tasks (t + 1) = none) ∧
      m₃.kernel.core.files 0 = some ⟨0, 3⟩ ∧
      m₃.step slotSetup releasing = some m₄ ∧
      guarded (CryptoModule.step slotSetup) (fun m a => m.Plain a = true) m₄ (calling 1 8 5) = some m₅ ∧
      (∃ task task', m₅.vfs.Has 0 (.openDev 0) task ∧ m₅.vfs.Has 1 .release task' ∧ task.file = 0 ∧
        task'.file = 0 ∧ task.prog = .ret 0 ∧ task'.prog = .ret 0 ∧
        ∀ t, m₅.kernel.core.tasks (t + 2) = none) ∧
      (∀ f, m₅.kernel.core.files f = none) ∧
      m₅.step slotSetup .rmmod = some m₆ ∧ m₆.code.isGoing = true := by
    refine ⟨_, _, _, _, _, _, rfl, fun t => rfl, ⟨rfl, rfl⟩, rfl, rfl,
      ⟨_, ⟨rfl, rfl⟩, rfl, rfl, fun t => rfl⟩, rfl, rfl, rfl,
      ⟨_, _, ⟨rfl, rfl⟩, ⟨rfl, rfl⟩, rfl, rfl, rfl, rfl, fun t => rfl⟩, ?_, rfl, rfl⟩
    rintro (_ | f) <;> rfl
  have hopening : m₁.Good opening := by
    refine ⟨fun t task ht => ?_, hset⟩
    cases (hfree t).symm.trans ht
  have run₃ := ((plain_run hrun₁).snoc hopening hstep₁).append (plain_run hrun₂)
  have honly : ∀ t task', m₃.kernel.core.tasks t = some task' → t = 0 ∧ task' = task := by
    rintro (_ | t) task' ht
    · exact ⟨rfl, Option.some.inj (ht.symm.trans hhas.1)⟩
    · rw [hother] at ht
      cases ht
  have hreleasing : m₃.Good releasing := by
    refine ⟨⟨⟨⟨0, _, task, hhas, htfile⟩, fun t sys task' hhas' _ => ?_⟩, fun t task' ht _ => ?_⟩, trivial⟩
    · obtain ⟨rfl, rfl⟩ := honly t task' hhas'.1
      cases hhas'.2.symm.trans hhas.2
      exact hret
    · rw [(honly t task' ht).2, hret]
      trivial
  have run₅ := (run₃.snoc hreleasing hstep₂).append (plain_run hrun₃)
  have hboth : ∀ t task, m₅.kernel.core.tasks t = some task → task = task₀ ∨ task = task₁ := by
    rintro (_ | _ | t) task ht
    · exact .inl (Option.some.inj (ht.symm.trans hhas₀.1))
    · exact .inr (Option.some.inj (ht.symm.trans hhas₁.1))
    · rw [hothers] at ht
      cases ht
  have hunused : m₅.Unused := by
    refine ⟨fun t task ht => ?_, fun f => ⟨?_, hnone f⟩⟩
    · obtain rfl | rfl := hboth t task ht
      · rw [hret₀]
        trivial
      · rw [hret₁]
        trivial
    · rintro ⟨⟨t, sys, task, hhas, hf⟩, hopen⟩
      refine hopen 1 _ task₁ hhas₁ ?_
      obtain rfl | rfl := hboth t task hhas.1
      · rw [hfile₁, ← hf, hfile₀]
      · exact hf
  have hremoving : m₅.Good .rmmod := ⟨hunused, trivial⟩
  have run₆ := run₅.snoc hremoving hstep₃
  obtain ⟨-, events, m', run, -, habsent⟩ :=
    (module_of_run slotHost_tracks false _ m₆ run₆).going hgoing
  exact ⟨m₃, m', hfile, (module_of_run slotHost_tracks false _ m₃ run₃).files 0 _ hfile, habsent,
    (module_of_run slotHost_tracks false _ m' (run₆.append run)).absent habsent⟩

end Unloaded

end CryptodevChat.Virtio
