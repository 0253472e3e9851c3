import CryptodevChat.Virtio.Accounting
import CryptodevChat.Virtio.Minors

namespace CryptodevChat.Virtio

variable {σ α β : Type}

section Programs

-- Reserved for local / experimental use.
def CRYPTO_CHRDEV_MAJOR : Nat := 60

def MKDEV (major minor : Nat) : Nat := major * 2 ^ 20 + minor

structure DevRange where
  first : Nat
  cnt : Nat
  deriving DecidableEq, Repr

def DevRange.has (range : DevRange) (dev : Nat) : Bool :=
  decide (range.first ≤ dev) && decide (dev < range.first + range.cnt)

-- What the kernel has of the module: its region of device numbers, its character
-- device and its driver. `list` and `lock` say that `crdrvdata` is set up.
structure Registry where
  region : Option DevRange
  cdev : Option DevRange
  list : Bool
  lock : Bool
  driver : Bool
  deriving DecidableEq, Repr

-- The functions of the module's own life, as programs over the kernel.
inductive Load (α : Type)
  | ret (a : α)
  | registerChrdevRegion (range : DevRange) (next : Int → Load α)
  | unregisterChrdevRegion (range : DevRange) (next : Load α)
  | cdevAdd (range : DevRange) (next : Int → Load α)
  | cdevDel (next : Load α)
  | initListHead (next : Load α)
  | spinLockInit (next : Load α)
  | registerVirtioDriver (next : Int → Load α)
  | unregisterVirtioDriver (next : Load α)

def Load.bind : Load α → (α → Load β) → Load β
  | .ret a, f => f a
  | .registerChrdevRegion range next, f => .registerChrdevRegion range fun ret => (next ret).bind f
  | .unregisterChrdevRegion range next, f => .unregisterChrdevRegion range (next.bind f)
  | .cdevAdd range next, f => .cdevAdd range fun ret => (next ret).bind f
  | .cdevDel next, f => .cdevDel (next.bind f)
  | .initListHead next, f => .initListHead (next.bind f)
  | .spinLockInit next, f => .spinLockInit (next.bind f)
  | .registerVirtioDriver next, f => .registerVirtioDriver fun ret => (next ret).bind f
  | .unregisterVirtioDriver next, f => .unregisterVirtioDriver (next.bind f)

instance : Monad Load where
  pure := .ret
  bind := .bind

def registerChrdevRegion (range : DevRange) : Load Int := .registerChrdevRegion range .ret
def unregisterChrdevRegion (range : DevRange) : Load Unit := .unregisterChrdevRegion range (.ret ())
def cdevAdd (range : DevRange) : Load Int := .cdevAdd range .ret
def cdevDel : Load Unit := .cdevDel (.ret ())
def initListHead : Load Unit := .initListHead (.ret ())
def spinLockInit : Load Unit := .spinLockInit (.ret ())
def registerVirtioDriver : Load Int := .registerVirtioDriver .ret
def unregisterVirtioDriver : Load Unit := .unregisterVirtioDriver (.ret ())

-- `dev_no` and `crypto_minor_cnt`.
def cryptoDevs : DevRange := ⟨MKDEV CRYPTO_CHRDEV_MAJOR 0, CRYPTO_NR_DEVICES⟩

def cryptoChrdevInit : Load Int := do
  let ret ← registerChrdevRegion cryptoDevs
  if ret < 0 then return ret
  else
    let ret ← cdevAdd cryptoDevs
    if ret < 0 then
      unregisterChrdevRegion cryptoDevs
      return ret
    else return 0

def cryptoChrdevDestroy : Load Unit := do
  cdevDel
  unregisterChrdevRegion cryptoDevs

def init : Load Int := do
  let ret ← cryptoChrdevInit
  if ret < 0 then return ret
  else
    initListHead
    spinLockInit
    let ret ← registerVirtioDriver
    if ret < 0 then
      cryptoChrdevDestroy
      return ret
    else return ret

def fini : Load Unit := do
  cryptoChrdevDestroy
  unregisterVirtioDriver

-- One of the kernel's services, with its result where it has one. A registration
-- that fails registers nothing.
def Load.step (r : Registry) (ret : Int) : Load α → Option (Load α × Registry)
  | .ret _ => none
  | .registerChrdevRegion range next =>
      some (next ret, if ret < 0 then r else { r with region := some range })
  | .unregisterChrdevRegion range next =>
      some (next, if r.region = some range then { r with region := none } else r)
  | .cdevAdd range next => some (next ret, if ret < 0 then r else { r with cdev := some range })
  | .cdevDel next => some (next, { r with cdev := none })
  | .initListHead next => some (next, { r with list := true })
  | .spinLockInit next => some (next, { r with lock := true })
  | .registerVirtioDriver next => some (next ret, if ret < 0 then r else { r with driver := true })
  | .unregisterVirtioDriver next => some (next, { r with driver := false })

end Programs

section Registrations

-- What is left of `init` or `fini` registers nothing twice, takes back only what is
-- there, and ends as `post` says.
def Load.Keeps (post : α → Registry → Prop) : Load α → Registry → Prop
  | .ret a, r => post a r
  | .registerChrdevRegion range next, r =>
      r.region = none ∧ (∀ ret : Int, ret < 0 → (next ret).Keeps post r) ∧
        ∀ ret : Int, 0 ≤ ret → (next ret).Keeps post { r with region := some range }
  | .unregisterChrdevRegion range next, r =>
      r.region = some range ∧ r.cdev = none ∧ next.Keeps post { r with region := none }
  | .cdevAdd range next, r =>
      r.region = some range ∧ r.cdev = none ∧ (∀ ret : Int, ret < 0 → (next ret).Keeps post r) ∧
        ∀ ret : Int, 0 ≤ ret → (next ret).Keeps post { r with cdev := some range }
  | .cdevDel next, r => r.cdev.isSome ∧ next.Keeps post { r with cdev := none }
  | .initListHead next, r =>
      r.list = false ∧ r.driver = false ∧ next.Keeps post { r with list := true }
  | .spinLockInit next, r =>
      r.lock = false ∧ r.driver = false ∧ next.Keeps post { r with lock := true }
  | .registerVirtioDriver next, r =>
      r.list = true ∧ r.lock = true ∧ r.driver = false ∧
        (∀ ret : Int, ret < 0 → (next ret).Keeps post r) ∧
        ∀ ret : Int, 0 ≤ ret → (next ret).Keeps post { r with driver := true }
  | .unregisterVirtioDriver next, r =>
      r.driver = true ∧ next.Keeps post { r with driver := false }

-- Nothing of the module is registered.
structure Registry.Bare (r : Registry) : Prop where
  region : r.region = none
  cdev : r.cdev = none
  driver : r.driver = false

def Registry.full : Registry := ⟨some cryptoDevs, some cryptoDevs, true, true, true⟩

-- `init` ends with everything registered, or fails with nothing registered.
def Inited (ret : Int) (r : Registry) : Prop := if ret < 0 then r.Bare else r = .full

theorem keeps_bind (post : β → Registry → Prop) (x : Load α) (f : α → Load β) (r : Registry) :
    (x >>= f).Keeps post r ↔ x.Keeps (fun a r => (f a).Keeps post r) r := by
  change (x.bind f).Keeps post r ↔ _
  induction x generalizing r with
  | ret a => rfl
  | registerChrdevRegion range next ih =>
      exact and_congr_right' (and_congr (forall₂_congr fun ret _ => ih ret _)
        (forall₂_congr fun ret _ => ih ret _))
  | cdevAdd range next ih =>
      exact and_congr_right' (and_congr_right' (and_congr (forall₂_congr fun ret _ => ih ret _)
        (forall₂_congr fun ret _ => ih ret _)))
  | registerVirtioDriver next ih =>
      exact and_congr_right' (and_congr_right' (and_congr_right' (and_congr
        (forall₂_congr fun ret _ => ih ret _) (forall₂_congr fun ret _ => ih ret _))))
  | unregisterChrdevRegion range next ih | initListHead next ih | spinLockInit next ih =>
      exact and_congr_right' (and_congr_right' (ih _))
  | cdevDel next ih | unregisterVirtioDriver next ih => exact and_congr_right' (ih _)

theorem keeps_then {post : β → Registry → Prop} {x : Load α} {f : α → Load β} {r : Registry}
    (h : x.Keeps (fun a r => (f a).Keeps post r) r) : (x >>= f).Keeps post r :=
  (keeps_bind post x f r).mpr h

-- All of the character device is registered, or nothing.
theorem cryptoChrdevInit_keeps {post : Int → Registry → Prop} {r : Registry} (hr : r.Bare)
    (hfails : ∀ ret < 0, post ret r)
    (hdone : post 0 { r with region := some cryptoDevs, cdev := some cryptoDevs }) :
    cryptoChrdevInit.Keeps post r := by
  obtain ⟨region, cdev, list, lock, driver⟩ := r
  obtain ⟨rfl, rfl, rfl⟩ := hr
  apply keeps_then
  refine ⟨rfl, fun ret hret => ?_, fun ret hret => ?_⟩
  · change Load.Keeps post (if ret < 0 then _ else _) _
    rw [if_pos hret]
    exact hfails ret hret
  · change Load.Keeps post (if ret < 0 then _ else _) _
    rw [if_neg (by omega)]
    apply keeps_then
    refine ⟨rfl, rfl, fun ret' hret' => ?_, fun ret' hret' => ?_⟩
    · change Load.Keeps post (if ret' < 0 then _ else _) _
      rw [if_pos hret']
      exact ⟨rfl, rfl, hfails ret' hret'⟩
    · change Load.Keeps post (if ret' < 0 then _ else _) _
      rw [if_neg (by omega)]
      exact hdone

theorem init_keeps : init.Keeps Inited ⟨none, none, false, false, false⟩ := by
  have hfails : ∀ ret < 0, ∀ list lock, Inited ret ⟨none, none, list, lock, false⟩ :=
    fun ret hret list lock => (if_pos hret).mpr ⟨rfl, rfl, rfl⟩
  apply keeps_then
  refine cryptoChrdevInit_keeps ⟨rfl, rfl, rfl⟩ (fun ret hret => ?_) ?_
  · rw [if_pos hret]
    exact hfails ret hret false false
  · rw [if_neg (by decide)]
    refine ⟨rfl, rfl, rfl, rfl, keeps_then ⟨rfl, rfl, rfl, fun ret hret => ?_, fun ret hret => ?_⟩⟩
    · change Load.Keeps Inited (if ret < 0 then _ else _) _
      rw [if_pos hret]
      exact ⟨rfl, rfl, rfl, hfails ret hret true true⟩
    · change Load.Keeps Inited (if ret < 0 then _ else _) _
      rw [if_neg (by omega)]
      exact (if_neg (by omega)).mpr rfl

theorem fini_keeps : fini.Keeps (fun _ r => r.Bare) .full :=
  ⟨rfl, rfl, rfl, rfl, rfl, rfl, rfl⟩

theorem keeps_step {post : α → Registry → Prop} {prog prog' : Load α} {r r' : Registry} {ret : Int}
    (hkeeps : prog.Keeps post r) (h : prog.step r ret = some (prog', r')) : prog'.Keeps post r' := by
  cases prog with
  | ret a => cases h
  | registerChrdevRegion range next =>
      cases h
      obtain ⟨-, hfails, hdone⟩ := hkeeps
      split_ifs with hret
      · exact hfails ret hret
      · exact hdone ret (by omega)
  | unregisterChrdevRegion range next =>
      cases h
      obtain ⟨hregion, -, hnext⟩ := hkeeps
      rwa [if_pos hregion]
  | cdevAdd range next =>
      cases h
      obtain ⟨-, -, hfails, hdone⟩ := hkeeps
      split_ifs with hret
      · exact hfails ret hret
      · exact hdone ret (by omega)
  | registerVirtioDriver next =>
      cases h
      obtain ⟨-, -, -, hfails, hdone⟩ := hkeeps
      split_ifs with hret
      · exact hfails ret hret
      · exact hdone ret (by omega)
  | cdevDel next | unregisterVirtioDriver next =>
      cases h
      exact hkeeps.2
  | initListHead next | spinLockInit next =>
      cases h
      exact hkeeps.2.2

-- What a step leaves set up, and what the driver can rely on.
theorem setUp_step {post : α → Registry → Prop} {prog prog' : Load α} {r r' : Registry} {ret : Int}
    (hkeeps : prog.Keeps post r) (h : prog.step r ret = some (prog', r')) :
    (r.list = true → r'.list = true) ∧ (r.lock = true → r'.lock = true) ∧
    ((r.driver = true → r.list = true ∧ r.lock = true) →
      r'.driver = true → r'.list = true ∧ r'.lock = true) := by
  cases prog with
  | ret a => cases h
  | registerChrdevRegion range next | cdevAdd range next | unregisterChrdevRegion range next =>
      cases h
      split_ifs <;> exact ⟨id, id, id⟩
  | registerVirtioDriver next =>
      cases h
      split_ifs
      · exact ⟨id, id, id⟩
      · exact ⟨id, id, fun _ _ => ⟨hkeeps.1, hkeeps.2.1⟩⟩
  | cdevDel next =>
      cases h
      exact ⟨id, id, id⟩
  | unregisterVirtioDriver next =>
      cases h
      exact ⟨id, id, fun _ hdriver => nomatch hdriver⟩
  | initListHead next | spinLockInit next =>
      cases h
      exact ⟨fun _ => by trivial, fun _ => by trivial, fun _ hdriver => nomatch hkeeps.2.1.symm.trans hdriver⟩

end Registrations

section Machine

-- What the kernel has of the module's code. `init` runs when it comes, `fini` when it goes.
inductive Code
  | absent
  | coming (prog : Load Int)
  | live
  | going (prog : Load Unit)

def Code.isGoing : Code → Bool
  | .going _ => true
  | _ => false

-- The devices and calls, the ledger of the QEMU process, and the module that serves them.
structure CryptoModule (σ : Type) where
  kernel : Kernel σ
  sys : Nat → Option Syscall
  proc : QemuProcess σ
  code : Code
  registry : Registry

def CryptoModule.boot (x : σ) : CryptoModule σ :=
  ⟨.boot x, fun _ => none, .boot x, .absent, ⟨none, none, false, false, false⟩⟩

def CryptoModule.vfs (m : CryptoModule σ) : Vfs σ := ⟨m.kernel.core, m.sys, m.proc⟩

inductive ModuleAct
  | insmod
  | proceed (ret : Int)
  | rmmod
  | plug (a : Plug)

def Code.proceed (r : Registry) (ret : Int) : Code → Option (Code × Registry)
  | .coming (.ret ret) => some (if ret < 0 then .absent else .live, r)
  | .coming prog => (prog.step r ret).map fun (prog, r) => (.coming prog, r)
  | .going (.ret ()) => some (.absent, r)
  | .going prog => (prog.step r ret).map fun (prog, r) => (.going prog, r)
  | _ => none

-- A driver that is not registered gets no devices, and a number that no character device
-- has cannot be opened, nor one of a module that goes.
def CryptoModule.Admits (m : CryptoModule σ) : Plug → Bool
  | .alloc _ | .findVq _ | .link _ | .unlink _ => m.registry.driver
  | .guest (.act (.call _ _ (.openDev minor) _)) =>
      !m.code.isGoing && m.registry.cdev.any (·.has (MKDEV CRYPTO_CHRDEV_MAJOR minor))
  | _ => true

def CryptoModule.follow (c : Setup σ) (m : CryptoModule σ) (kernel : Kernel σ) : Plug → CryptoModule σ
  | .guest a =>
      let s := m.vfs.follow c kernel.core a
      { m with kernel, sys := s.sys, proc := s.proc }
  | _ => { m with kernel }

-- The data of a module that is loaded are zero.
def CryptoModule.step (c : Setup σ) (m : CryptoModule σ) : ModuleAct → Option (CryptoModule σ)
  | .insmod =>
      match m.code with
      | .absent => some { m with
          code := .coming init
          kernel := { m.kernel with devs := [], nextMinor := 0 }
          registry := { m.registry with list := false, lock := false } }
      | _ => none
  | .proceed ret => (m.code.proceed m.registry ret).map fun (code, registry) => { m with code, registry }
  | .rmmod =>
      match m.code with
      | .live => some { m with code := .going fini }
      | _ => none
  | .plug a => if m.Admits a then (m.kernel.step c a).map fun kernel => m.follow c kernel a else none

-- From its probe to the end of its remove.
def Life.Bound (l : Life) : Prop :=
  l = .ready ∨ l = .linked ∨ l = .unlinked ∨ l = .reset ∨ l = .stripped

def Kernel.Unbound (k : Kernel σ) : Prop := ∀ v, ¬(k.life v).Bound

-- No call is under way, and no file is open.
structure CryptoModule.Unused (m : CryptoModule σ) : Prop where
  quiet : m.vfs.Quiet
  closed : ∀ f, ¬m.vfs.Open f ∧ m.kernel.core.files f = none

-- What the kernel sees to: a module that is used is not removed, a driver is gone when
-- all its devices are, and files are opened, used and released in their order.
def CryptoModule.Ruled (m : CryptoModule σ) : ModuleAct → Prop
  | .rmmod => m.Unused
  | .proceed _ =>
      match m.code with
      | .coming (.unregisterVirtioDriver _) | .going (.unregisterVirtioDriver _) => m.kernel.Unbound
      | _ => True
  | .plug (.guest a) => m.vfs.Disciplined a
  | _ => True

-- What nobody sees to: nothing is opened before the list of devices is set up, nobody
-- is in a call when `init` fails, and no device that is used is taken away.
def CryptoModule.Careful (m : CryptoModule σ) : ModuleAct → Prop
  | .proceed _ =>
      match m.code with
      | .coming (.ret ret) => ret < 0 → m.Unused
      | _ => True
  | .plug (.guest (.act (.call _ _ (.openDev _) _))) => m.registry.list = true ∧ m.registry.lock = true
  | .plug (.unlink v) => m.code.isGoing = true ∨ m.kernel.core.Refers (· ≠ v)
  | _ => True

end Machine

end CryptodevChat.Virtio
