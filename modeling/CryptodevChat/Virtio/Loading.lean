import CryptodevChat.Virtio.CryptoModule

namespace CryptodevChat.Virtio

variable {σ : Type}

section Sound

-- What the registrations are while the code is where it is.
def Code.Agrees (r : Registry) : Code → Prop
  | .absent => r.Bare
  | .coming prog => prog.Keeps Inited r
  | .live => r = .full
  | .going prog => prog.Keeps (fun _ r => r.Bare) r

-- Nobody is to be in the code then.
def CryptoModule.Shut (m : CryptoModule σ) : Prop :=
  m.code = .absent ∨ m.code.isGoing = true ∨ m.registry.list = false ∨ m.registry.lock = false

structure CryptoModule.Sound (c : Setup σ) (opened : σ → Int → Prop) (x : σ) (m : CryptoModule σ) :
    Prop where
  kernel : m.kernel.Sound
  books : ∃ held, m.vfs.Books c opened x held
  code : m.code.Agrees m.registry
  setUp : m.registry.driver = true → m.registry.list = true ∧ m.registry.lock = true
  unbound : m.registry.driver = false → m.kernel.Unbound
  unused : m.Shut → m.Unused
  finite : ∃ n, ∀ v ≥ n, m.kernel.life v = .absent

variable {c : Setup σ} {opened : σ → Int → Prop} {x : σ} {m m' : CryptoModule σ}

theorem unused_boot (x : σ) : (CryptoModule.boot x).Unused where
  quiet := fun _ _ ht => nomatch ht
  closed := by
    refine fun f => ⟨?_, rfl⟩
    rintro ⟨⟨t, sys, task, hhas, -⟩, -⟩
    cases hhas.1

theorem moduleSound_boot (c : Setup σ) (opened : σ → Int → Prop) (x : σ) :
    (CryptoModule.boot x).Sound c opened x where
  kernel := sound_boot x
  books := ⟨_, books_boot c opened x⟩
  code := ⟨rfl, rfl, rfl⟩
  setUp := fun hdriver => nomatch hdriver
  unbound := fun _ v hbound => by
    change Life.Bound .absent at hbound
    simp [Life.Bound] at hbound
  unused := fun _ => unused_boot x
  finite := ⟨0, fun v _ => rfl⟩

-- The devices that were probed do not matter to the books.
theorem Vfs.Books.devs {s : Vfs σ} {held : Nat → Option Int} (hs : s.Books c opened x held)
    (devs : Nat → Option Nat) : s.Books { c with devs } opened x held :=
  ⟨hs.stage.imp fun _ hst => ⟨hst.lock, hst.rings, hst.kicks, hst.device, hst.holder, hst.tasks⟩,
    hs.host, hs.ledger, hs.known, hs.calls, hs.alone, hs.rest, hs.fresh⟩

theorem over_cases {prog : Prog Int} (h : prog.Over) : (∃ a, prog = .ret a) ∨ prog = .oops := by
  cases prog with
  | ret a => exact .inl ⟨a, rfl⟩
  | oops => exact .inr rfl
  | kmalloc | kfree | put | get | loadUser | copyFromUser | copyToUser | nonseekableOpen | findDev
  | newCrof | getCrof | setHostFd | freeCrof | spinLock | spinUnlock | addSgs | kick | getBuf =>
      exact h.elim

-- Where nobody is in a call, the lock is free and the device has nothing to do.
theorem stage_of_quiet {s : Vfs σ} {held : Nat → Option Int} (hs : s.Books c opened x held)
    (hquiet : s.Quiet) : s.core.At c none := by
  obtain ⟨stage, hstage⟩ := hs.stage
  cases stage with
  | none => exact hstage
  | some holder =>
      obtain ⟨t, role⟩ := holder
      obtain ⟨task, ht, hkeeps, -⟩ := hstage.holding
      have hfree : role.phase.Free := by
        obtain ⟨a, hprog⟩ | hprog := over_cases (hquiet t task ht) <;> rw [hprog] at hkeeps <;>
          exact hkeeps
      cases role <;> simp [Role.phase, Phase.Free] at hfree

-- Only a new call can follow.
theorem quiet_moves {s s' : State σ} (hstage : s.At c none)
    (hquiet : ∀ t task, s.tasks t = some task → task.prog.Over) {a : Move}
    (h : c.move s a = some s') : ∃ t f sys mem, a = .act (.call t f sys mem) := by
  cases a with
  | fail t ret =>
      obtain ⟨task, ht, hfail⟩ := Setup.move_fail h
      obtain ⟨a, hprog⟩ | hprog := over_cases (hquiet t task ht) <;> rw [hprog] at hfail <;> cases hfail
  | act a =>
      change c.step s a = some s' at h
      cases a with
      | call t f sys mem => exact ⟨t, f, sys, mem, rfl⟩
      | run t data =>
          obtain ⟨task, ht, hrun⟩ := Setup.step_run h
          obtain ⟨a, hprog⟩ | hprog := over_cases (hquiet t task ht) <;> rw [hprog] at hrun <;> cases hrun
      | pop v =>
          obtain ⟨-, hkick, -⟩ := Setup.step_pop h
          rw [hstage.kicks] at hkick
          cases hkick
      | handle =>
          obtain ⟨v, buf, task, hdevice, -⟩ := Setup.step_handle h
          rw [hstage.device] at hdevice
          cases hdevice
      | push =>
          obtain ⟨v, buf, hdevice, -⟩ := Setup.step_push h
          rw [hstage.device] at hdevice
          cases hdevice

theorem refers_of_unused (hm : m.Unused) (P : Nat → Prop) : m.kernel.core.Refers P where
  files := fun f crof hf => by
    rw [(hm.closed f).2] at hf
    cases hf
  calls := fun t task ht => by
    obtain ⟨a, hprog⟩ | hprog := over_cases (hm.quiet t task ht) <;> rw [hprog] <;> trivial

-- Unbound devices are not in the list.
theorem devs_of_unbound (hlisted : m.kernel.Listed) (h : m.kernel.Unbound) : m.kernel.devs = [] := by
  refine List.eq_nil_iff_forall_not_mem.mpr fun v hv => h v ?_
  rw [hlisted.linked v hv]
  exact .inr (.inl rfl)

end Sound

section Steps

variable {c : Setup σ} {opened : σ → Int → Prop} {x : σ} {m m' : CryptoModule σ}

theorem plug_some {a : Plug} (h : m.step c (.plug a) = some m') :
    m.Admits a = true ∧ ∃ kernel, m.kernel.step c a = some kernel ∧ m' = m.follow c kernel a := by
  simp only [CryptoModule.step] at h
  split_ifs at h with hadmits
  obtain ⟨kernel, hstep, rfl⟩ := Option.map_eq_some_iff.mp h
  exact ⟨hadmits, kernel, hstep, rfl⟩

theorem proceed_some {ret : Int} (h : m.step c (.proceed ret) = some m') :
    ∃ code registry, m.code.proceed m.registry ret = some (code, registry) ∧
      m' = { m with code, registry } := by
  obtain ⟨⟨code, registry⟩, hproceed, rfl⟩ := Option.map_eq_some_iff.mp h
  exact ⟨code, registry, hproceed, rfl⟩

theorem insmod_some (h : m.step c .insmod = some m') : m.code = .absent ∧ m' = { m with
    code := .coming init
    kernel := { m.kernel with devs := [], nextMinor := 0 }
    registry := { m.registry with list := false, lock := false } } := by
  simp only [CryptoModule.step] at h
  split at h
  · rename_i hcode
    cases h
    exact ⟨hcode, rfl⟩
  · cases h

theorem rmmod_some (h : m.step c .rmmod = some m') :
    m.code = .live ∧ m' = { m with code := .going fini } := by
  simp only [CryptoModule.step] at h
  split at h
  · rename_i hcode
    cases h
    exact ⟨hcode, rfl⟩
  · cases h

@[simp] theorem follow_code (kernel : Kernel σ) (a : Plug) : (m.follow c kernel a).code = m.code := by
  cases a <;> rfl

@[simp] theorem follow_registry (kernel : Kernel σ) (a : Plug) :
    (m.follow c kernel a).registry = m.registry := by cases a <;> rfl

@[simp] theorem follow_kernel (kernel : Kernel σ) (a : Plug) : (m.follow c kernel a).kernel = kernel := by
  cases a <;> rfl

theorem follow_guest (kernel : Kernel σ) (a : Move) :
    (m.follow c kernel (.guest a)).vfs = m.vfs.follow c kernel.core a := by
  cases a with
  | fail => rfl
  | act a => cases a <;> rfl

-- A step that is not of a call leaves the calls alone.
theorem plug_core {k k' : Kernel σ} {a : Plug} (ha : ∀ b, a ≠ .guest b) (h : k.step c a = some k') :
    k'.core = k.core := by
  cases a with
  | guest b => exact absurd rfl (ha b)
  | alloc | findVq | delVqs | free => rw [(become_some h).2]
  | link v => rw [(link_some h).2]
  | unlink v => rw [(unlink_some h).2]
  | reset v =>
      simp only [Kernel.step] at h
      split_ifs at h
      rw [(become_some h).2]

-- What a step does to the devices: one gets further, or none does.
theorem plug_life {k k' : Kernel σ} {a : Plug} (h : k.step c a = some k') :
    k'.life = k.life ∨ ∃ v l, k'.life = Function.update k.life v l ∧
      ((k.life v).Bound ∨ a = .alloc v ∨ a = .findVq v) := by
  have hbecome : ∀ {v l l'}, k.become v l l' = some k' → l.Bound ∨ a = .alloc v ∨ a = .findVq v →
      ∃ v l, k'.life = Function.update k.life v l ∧ ((k.life v).Bound ∨ a = .alloc v ∨ a = .findVq v) := by
    intro v l l' hbecome hl
    obtain ⟨rfl, rfl⟩ := become_some hbecome
    exact ⟨v, l', rfl, hl⟩
  cases a with
  | guest b =>
      obtain ⟨-, core, -, rfl⟩ := guest_some h
      exact .inl rfl
  | alloc v => exact .inr (hbecome h (.inr (.inl rfl)))
  | findVq v => exact .inr (hbecome h (.inr (.inr rfl)))
  | delVqs v => exact .inr (hbecome h (.inl (by simp [Life.Bound])))
  | free v => exact .inr (hbecome h (.inl (by simp [Life.Bound])))
  | link v =>
      obtain ⟨hready, rfl⟩ := link_some h
      exact .inr ⟨v, .linked, rfl, .inl (by simp [hready, Life.Bound])⟩
  | unlink v =>
      obtain ⟨hlinked, rfl⟩ := unlink_some h
      exact .inr ⟨v, .unlinked, rfl, .inl (by simp [hlinked, Life.Bound])⟩
  | reset v =>
      simp only [Kernel.step] at h
      split_ifs at h
      exact .inr (hbecome h (.inl (by simp [Life.Bound])))

-- Nobody gets into a module that is shut.
theorem guest_shut (hm : m.Sound c opened x) (hshut : m.Shut) {a : Move}
    (hruled : m.Ruled (.plug (.guest a))) (hcareful : m.Careful (.plug (.guest a)))
    (hadmits : m.Admits (.guest a) = true) {kernel : Kernel σ}
    (h : m.kernel.step c (.guest a) = some kernel) : False := by
  have hunused := hm.unused hshut
  obtain ⟨held, hbooks⟩ := hm.books
  obtain ⟨-, core, hmove, -⟩ := guest_some h
  obtain ⟨t, f, sys, mem, rfl⟩ :=
    quiet_moves (stage_of_quiet (hbooks.devs m.kernel.lookup) hunused.quiet) hunused.quiet hmove
  cases sys with
  | ioctl cmd arg => exact (hunused.closed f).1 hruled
  | release => exact (hunused.closed f).1 hruled.1
  | openDev minor =>
      obtain ⟨hcode, hcdev⟩ := (Bool.and_eq_true ..).mp hadmits
      obtain ⟨hlist, hlock⟩ := hcareful
      obtain habsent | hgoing | hno | hno := hshut
      · have hbare := hm.code
        rw [habsent] at hbare
        rw [hbare.cdev] at hcdev
        cases hcdev
      · rw [hgoing] at hcode
        cases hcode
      · rw [hlist] at hno
        cases hno
      · rw [hlock] at hno
        cases hno

theorem plug_spared (hm : m.Sound c opened x) {a : Plug} (hcareful : m.Careful (.plug a)) :
    Virtio.Spared m.kernel a := by
  cases a with
  | unlink v =>
      obtain hgoing | hspared := hcareful
      · exact refers_of_unused (hm.unused (.inr (.inl hgoing))) _
      · exact hspared
  | alloc | findVq | link | reset | delVqs | free | guest => trivial

theorem moduleSound_guest (ht : c.host.Tracks opened) (hm : m.Sound c opened x) {a : Move}
    (hruled : m.Ruled (.plug (.guest a))) (hcareful : m.Careful (.plug (.guest a)))
    (h : m.step c (.plug (.guest a)) = some m') : m'.Sound c opened x := by
  obtain ⟨hadmits, kernel, hstep, rfl⟩ := plug_some h
  have hsound := sound_step hm.kernel _ (plug_spared hm hcareful) hstep
  have hlife : kernel.life = m.kernel.life := by
    obtain ⟨-, core, -, rfl⟩ := guest_some hstep
    rfl
  have hbooks : ∃ held, (m.follow c kernel (.guest a)).vfs.Books c opened x held := by
    obtain ⟨held, hbooks⟩ := hm.books
    obtain ⟨-, core, hmove, hkernel⟩ := guest_some hstep
    have hvfs : Vfs.step { c with devs := m.kernel.lookup } m.vfs a =
        some (m.follow c kernel (.guest a)).vfs := by
      unfold Vfs.step
      rw [follow_guest, show m.vfs.core = m.kernel.core from rfl, hmove, hkernel]
      rfl
    obtain ⟨held', hbooks'⟩ := books_step (c := { c with devs := m.kernel.lookup }) ht
      ⟨held, hbooks.devs m.kernel.lookup⟩ a hruled hvfs
    exact ⟨held', hbooks'.devs c.devs⟩
  exact {
    kernel := by rwa [follow_kernel]
    books := hbooks
    code := by
      rw [follow_code, follow_registry]
      exact hm.code
    setUp := by
      rw [follow_registry]
      exact hm.setUp
    unbound := by
      rw [follow_registry, follow_kernel]
      unfold Kernel.Unbound
      rw [hlife]
      exact hm.unbound
    unused := by
      unfold CryptoModule.Shut
      rw [follow_code, follow_registry]
      exact fun hshut => (guest_shut hm hshut hruled hcareful hadmits hstep).elim
    finite := by
      rw [follow_kernel, hlife]
      exact hm.finite }

-- A device gets further, under a driver that is registered.
theorem moduleSound_plug (hm : m.Sound c opened x) {a : Plug} (ha : ∀ b, a ≠ .guest b)
    (hcareful : m.Careful (.plug a)) (h : m.step c (.plug a) = some m') : m'.Sound c opened x := by
  obtain ⟨hadmits, kernel, hstep, rfl⟩ := plug_some h
  have hcore := plug_core ha hstep
  have hfollow : m.follow c kernel a = { m with kernel } := by
    cases a with
    | guest b => exact absurd rfl (ha b)
    | alloc | findVq | link | unlink | reset | delVqs | free => rfl
  have hvfs : ({ m with kernel } : CryptoModule σ).vfs = m.vfs := by
    unfold CryptoModule.vfs
    rw [hcore]
  rw [hfollow]
  exact {
    kernel := sound_step hm.kernel _ (plug_spared hm hcareful) hstep
    books := by
      rw [hvfs]
      exact hm.books
    code := hm.code
    setUp := hm.setUp
    unbound := by
      intro hdriver
      have hfree := hm.unbound hdriver
      obtain hlife | ⟨v, l, -, hbound | rfl | rfl⟩ := plug_life hstep
      · unfold Kernel.Unbound
        rw [hlife]
        exact hfree
      · exact absurd hbound (hfree v)
      · exact nomatch hdriver.symm.trans hadmits
      · exact nomatch hdriver.symm.trans hadmits
    unused := fun hshut => by
      have hunused := hm.unused hshut
      constructor
      · rw [hvfs]
        exact hunused.quiet
      · intro f
        rw [hvfs, hcore]
        exact hunused.closed f
    finite := by
      obtain ⟨n, hn⟩ := hm.finite
      obtain hlife | ⟨v, l, hlife, -⟩ := plug_life hstep
      · rw [hlife]
        exact ⟨n, hn⟩
      · rw [hlife]
        refine ⟨max n (v + 1), fun w hw => ?_⟩
        rw [Function.update_of_ne (by omega)]
        exact hn w (by omega) }

-- The module's own functions get further, and nobody else does anything.
theorem moduleSound_own (hm : m.Sound c opened x) (code : Code) (registry : Registry)
    (hcode : code.Agrees registry)
    (hsetUp : registry.driver = true → registry.list = true ∧ registry.lock = true)
    (hunbound : registry.driver = false → m.kernel.Unbound)
    (hunused : ({ m with code, registry } : CryptoModule σ).Shut → m.Unused) :
    ({ m with code, registry } : CryptoModule σ).Sound c opened x where
  kernel := hm.kernel
  books := hm.books
  code := hcode
  setUp := hsetUp
  unbound := hunbound
  unused := fun hshut => ⟨(hunused hshut).quiet, (hunused hshut).closed⟩
  finite := hm.finite

theorem moduleSound_insmod (hm : m.Sound c opened x) (h : m.step c .insmod = some m') :
    m'.Sound c opened x := by
  obtain ⟨hcode, rfl⟩ := insmod_some h
  have hunused := hm.unused (.inl hcode)
  have hbare := hm.code
  rw [hcode] at hbare
  exact {
    kernel := ⟨⟨List.nodup_nil, fun v hv => nomatch hv⟩, refers_of_unused hunused _⟩
    books := hm.books
    code := by
      obtain ⟨hregion, hcdev, hdriver⟩ := hbare
      change init.Keeps Inited ⟨m.registry.region, m.registry.cdev, false, false, m.registry.driver⟩
      rw [hregion, hcdev, hdriver]
      exact init_keeps
    setUp := fun hdriver => nomatch hbare.driver.symm.trans hdriver
    unbound := hm.unbound
    unused := fun _ => ⟨hunused.quiet, hunused.closed⟩
    finite := hm.finite }

theorem moduleSound_rmmod (hm : m.Sound c opened x) (hruled : m.Ruled .rmmod)
    (h : m.step c .rmmod = some m') : m'.Sound c opened x := by
  obtain ⟨hcode, rfl⟩ := rmmod_some h
  have hfull := hm.code
  rw [hcode] at hfull
  refine moduleSound_own hm (.going fini) m.registry ?_ hm.setUp hm.unbound fun _ => hruled
  rw [show m.registry = .full from hfull]
  exact fini_keeps

-- A statement of `init` or of `fini` that is not its last one.
theorem moduleSound_statement {α : Type} (hm : m.Sound c opened x) {post : α → Registry → Prop}
    {prog prog' : Load α} {registry : Registry} {ret : Int} (hkeeps : prog.Keeps post m.registry)
    (h : prog.step m.registry ret = some (prog', registry)) (code : Load α → Code)
    (hagrees : ∀ r prog, prog.Keeps post r → (code prog).Agrees r)
    (hgoing : (code prog').isGoing = true → m.code.isGoing = true) (habsent : code prog' ≠ .absent)
    (hunbound : m.registry.driver = true → registry.driver = false → m.kernel.Unbound) :
    ({ m with code := code prog', registry } : CryptoModule σ).Sound c opened x := by
  obtain ⟨hlist, hlock, hsetUp⟩ := setUp_step hkeeps h
  refine moduleSound_own hm _ _ (hagrees _ _ (keeps_step hkeeps h)) (hsetUp hm.setUp) ?_ ?_
  · intro hdriver
    cases hbefore : m.registry.driver with
    | false => exact hm.unbound hbefore
    | true => exact hunbound hbefore hdriver
  · intro hshut
    apply hm.unused
    obtain hno | hyes | hno | hno := hshut
    · exact absurd hno habsent
    · exact .inr (.inl (hgoing hyes))
    · refine .inr (.inr (.inl (Bool.eq_false_iff.mpr fun hyes => ?_)))
      rw [hlist hyes] at hno
      cases hno
    · refine .inr (.inr (.inr (Bool.eq_false_iff.mpr fun hyes => ?_)))
      rw [hlock hyes] at hno
      cases hno

-- Only one statement takes a driver back.
theorem driver_step {α : Type} {prog prog' : Load α} {r r' : Registry} {ret : Int}
    (h : prog.step r ret = some (prog', r')) (hbefore : r.driver = true) (hafter : r'.driver = false) :
    ∃ next, prog = .unregisterVirtioDriver next := by
  cases prog with
  | unregisterVirtioDriver next => exact ⟨next, rfl⟩
  | ret a => cases h
  | registerChrdevRegion | cdevAdd | unregisterChrdevRegion | registerVirtioDriver =>
      cases h
      split_ifs at hafter <;> exact nomatch hbefore.symm.trans hafter
  | cdevDel | initListHead | spinLockInit =>
      cases h
      exact nomatch hbefore.symm.trans hafter

-- What `init` does next, or how it has ended.
theorem coming_some {prog : Load Int} {r r' : Registry} {ret : Int} {code : Code}
    (h : (Code.coming prog).proceed r ret = some (code, r')) :
    (∃ a, prog = .ret a ∧ code = (if a < 0 then .absent else .live) ∧ r' = r) ∨
    ∃ prog', prog.step r ret = some (prog', r') ∧ code = .coming prog' := by
  cases prog with
  | ret a =>
      cases h
      exact .inl ⟨a, rfl, rfl, rfl⟩
  | registerChrdevRegion | cdevAdd | unregisterChrdevRegion | registerVirtioDriver | cdevDel
  | initListHead | spinLockInit | unregisterVirtioDriver =>
      simp only [Code.proceed] at h
      obtain ⟨⟨prog', r''⟩, hstep, hpair⟩ := Option.map_eq_some_iff.mp h
      cases hpair
      exact .inr ⟨prog', hstep, rfl⟩

theorem going_some {prog : Load Unit} {r r' : Registry} {ret : Int} {code : Code}
    (h : (Code.going prog).proceed r ret = some (code, r')) :
    (prog = .ret () ∧ code = .absent ∧ r' = r) ∨
    ∃ prog', prog.step r ret = some (prog', r') ∧ code = .going prog' := by
  cases prog with
  | ret a =>
      cases h
      exact .inl ⟨rfl, rfl, rfl⟩
  | registerChrdevRegion | cdevAdd | unregisterChrdevRegion | registerVirtioDriver | cdevDel
  | initListHead | spinLockInit | unregisterVirtioDriver =>
      simp only [Code.proceed] at h
      obtain ⟨⟨prog', r''⟩, hstep, hpair⟩ := Option.map_eq_some_iff.mp h
      cases hpair
      exact .inr ⟨prog', hstep, rfl⟩

theorem moduleSound_coming (hm : m.Sound c opened x) {ret : Int} (hruled : m.Ruled (.proceed ret))
    (hcareful : m.Careful (.proceed ret)) {prog : Load Int} (hcode : m.code = .coming prog) {code : Code}
    {registry : Registry} (h : (Code.coming prog).proceed m.registry ret = some (code, registry)) :
    ({ m with code, registry } : CryptoModule σ).Sound c opened x := by
  have hagrees := hm.code
  simp only [CryptoModule.Ruled] at hruled
  simp only [CryptoModule.Careful] at hcareful
  rw [hcode] at hagrees hruled hcareful
  obtain ⟨a, rfl, rfl, rfl⟩ | ⟨prog', hstep, rfl⟩ := coming_some h
  · refine moduleSound_own hm _ _ ?_ hm.setUp hm.unbound fun hshut => ?_
    · have hdone : Inited a m.registry := hagrees
      unfold Inited at hdone
      split_ifs at hdone ⊢ <;> exact hdone
    · by_cases hneg : a < 0
      · exact hcareful hneg
      · rw [if_neg hneg] at hshut
        obtain hno | hno | hset := hshut
        · cases hno
        · cases hno
        · exact hm.unused (.inr (.inr hset))
  · refine moduleSound_statement hm hagrees hstep .coming (fun _ _ => id) nofun nofun fun hb ha => ?_
    obtain ⟨next, rfl⟩ := driver_step hstep hb ha
    exact hruled

theorem moduleSound_going (hm : m.Sound c opened x) {ret : Int} (hruled : m.Ruled (.proceed ret))
    {prog : Load Unit} (hcode : m.code = .going prog) {code : Code} {registry : Registry}
    (h : (Code.going prog).proceed m.registry ret = some (code, registry)) :
    ({ m with code, registry } : CryptoModule σ).Sound c opened x := by
  have hagrees := hm.code
  have hgoing : m.code.isGoing = true := by
    rw [hcode]
    rfl
  simp only [CryptoModule.Ruled] at hruled
  rw [hcode] at hagrees hruled
  obtain ⟨rfl, rfl, rfl⟩ | ⟨prog', hstep, rfl⟩ := going_some h
  · exact moduleSound_own hm _ _ hagrees hm.setUp hm.unbound fun _ => hm.unused (.inr (.inl hgoing))
  · refine moduleSound_statement hm hagrees hstep .going (fun _ _ => id) (fun _ => hgoing) nofun
      fun hb ha => ?_
    obtain ⟨next, rfl⟩ := driver_step hstep hb ha
    exact hruled

theorem moduleSound_proceed (hm : m.Sound c opened x) {ret : Int} (hruled : m.Ruled (.proceed ret))
    (hcareful : m.Careful (.proceed ret)) (h : m.step c (.proceed ret) = some m') :
    m'.Sound c opened x := by
  obtain ⟨code, registry, hproceed, rfl⟩ := proceed_some h
  cases hcode : m.code with
  | absent | live =>
      rw [hcode] at hproceed
      cases hproceed
  | coming prog =>
      rw [hcode] at hproceed
      exact moduleSound_coming hm hruled hcareful hcode hproceed
  | going prog =>
      rw [hcode] at hproceed
      exact moduleSound_going hm hruled hcode hproceed

theorem moduleSound_step (ht : c.host.Tracks opened) (hm : m.Sound c opened x) (a : ModuleAct)
    (hruled : m.Ruled a) (hcareful : m.Careful a) (h : m.step c a = some m') : m'.Sound c opened x := by
  cases a with
  | insmod => exact moduleSound_insmod hm h
  | proceed ret => exact moduleSound_proceed hm hruled hcareful h
  | rmmod => exact moduleSound_rmmod hm hruled h
  | plug a =>
      by_cases ha : ∃ b, a = .guest b
      · obtain ⟨b, rfl⟩ := ha
        exact moduleSound_guest ht hm hruled hcareful h
      · exact moduleSound_plug hm (fun b hb => ha ⟨b, hb⟩) hcareful h

end Steps

end CryptodevChat.Virtio
