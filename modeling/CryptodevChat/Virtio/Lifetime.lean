import CryptodevChat.Virtio.Refers
import CryptodevChat.Virtio.Element

namespace CryptodevChat.Virtio

open Lib (Byte Mem Run)

variable {σ : Type}

section Machine

-- How far a `struct crypto_device` is between `virtcons_probe` and the end of
-- `virtcons_remove`. Each `kzalloc` of one has a number of its own.
inductive Life
  | absent
  | allocated
  | ready
  | linked
  | unlinked
  | reset
  | stripped
  | freed
  deriving DecidableEq, Repr

def Life.HasQueue (l : Life) : Prop := l = .ready ∨ l = .linked ∨ l = .unlinked ∨ l = .reset

-- Until it is reset, a device has a host that looks at its queue.
def Life.Attached (l : Life) : Prop := l = .ready ∨ l = .linked ∨ l = .unlinked

instance (l : Life) : Decidable l.HasQueue := by unfold Life.HasQueue; infer_instance
instance (l : Life) : Decidable l.Attached := by unfold Life.Attached; infer_instance

-- `crdrvdata` with its list of devices, and the state of each device.
structure Kernel (σ : Type) where
  core : State σ
  devs : List Nat
  minor : Nat → Nat
  nextMinor : Nat
  life : Nat → Life

def Kernel.boot (x : σ) : Kernel σ := ⟨State.boot x, [], fun _ => 0, 0, fun _ => .absent⟩

-- The statements of `virtcons_probe` and of `virtcons_remove`, and the steps of
-- calls. A probe that fails leaves its device as it is.
inductive Plug
  | alloc (v : Nat)
  | findVq (v : Nat)
  | link (v : Nat)
  | unlink (v : Nat)
  | reset (v : Nat)
  | delVqs (v : Nat)
  | free (v : Nat)
  | guest (m : Move)

-- The devices whose minor is compared in `get_crypto_dev_by_minor`.
def Kernel.lookup (k : Kernel σ) (minor : Nat) : Option Nat :=
  k.devs.find? fun v => k.minor v = minor

-- What the next step of a call does to a queue.
def Prog.target : Prog Int → Option Nat
  | .addSgs v _ _ _ _ => some v
  | .kick v _ => some v
  | .getBuf v _ => some v
  | _ => none

def Device.target : Device → Option Nat
  | .idle => none
  | .popped v _ => some v
  | .handled v _ => some v

def Kernel.become (k : Kernel σ) (v : Nat) (l l' : Life) : Option (Kernel σ) :=
  if k.life v = l then some { k with life := Function.update k.life v l' } else none

-- There is no step on a queue that is gone, and none of the device that was reset.
def Kernel.Permits (k : Kernel σ) : Move → Prop
  | .act (.pop v) => (k.life v).Attached
  | .act (.run t _) => ∀ v ∈ (k.core.tasks t).bind fun task => task.prog.target, (k.life v).HasQueue
  | _ => True

instance (k : Kernel σ) (m : Move) : Decidable (k.Permits m) := by
  unfold Kernel.Permits
  split <;> infer_instance

-- A reset waits for the device to be done with a request.
def Kernel.step (c : Setup σ) (k : Kernel σ) : Plug → Option (Kernel σ)
  | .alloc v => k.become v .absent .allocated
  | .findVq v => k.become v .allocated .ready
  | .link v =>
      if k.core.lock = none then
        { k with
          devs := k.devs ++ [v]
          minor := Function.update k.minor v k.nextMinor
          nextMinor := (k.nextMinor + 1) % 2 ^ 32 }.become v .ready .linked
      else none
  | .unlink v =>
      if k.core.lock = none then { k with devs := k.devs.erase v }.become v .linked .unlinked
      else none
  | .reset v => if k.core.device.target = some v then none else k.become v .unlinked .reset
  | .delVqs v => k.become v .reset .stripped
  | .free v => k.become v .stripped .freed
  | .guest m =>
      if k.Permits m then
        (Setup.move { c with devs := k.lookup } k.core m).map fun core => { k with core }
      else none

end Machine

section Live

-- Allocated, with a queue and a host, and in the list.
def Kernel.Live (k : Kernel σ) (v : Nat) : Prop := v ∈ k.devs ∧ k.life v = .linked

-- A device is only taken off the list when no open file and no call under way
-- refers to it.
def Spared (k : Kernel σ) : Plug → Prop
  | .unlink v => k.core.Refers (· ≠ v)
  | _ => True

structure Kernel.Listed (k : Kernel σ) : Prop where
  nodup : k.devs.Nodup
  linked : ∀ v ∈ k.devs, k.life v = .linked

variable {c : Setup σ} {k k' : Kernel σ}

theorem become_some {v : Nat} {l l' : Life} (h : k.become v l l' = some k') :
    k.life v = l ∧ k' = { k with life := Function.update k.life v l' } := by
  unfold Kernel.become at h
  split_ifs at h with hlife
  cases h
  exact ⟨hlife, rfl⟩

-- What happens to a device that is not in the list does not matter to the others.
theorem become_listed (hk : k.Listed) {v : Nat} {l l' : Life} (hl : l ≠ .linked)
    (h : k.become v l l' = some k') : k'.Listed ∧ ∀ u, k.Live u → k'.Live u := by
  obtain ⟨hlife, rfl⟩ := become_some h
  have hother : ∀ u, k.life u = .linked → Function.update k.life v l' u = .linked := by
    intro u hu
    rw [Function.update_of_ne, hu]
    rintro rfl
    exact hl (hlife.symm.trans hu)
  exact ⟨⟨hk.nodup, fun u hu => hother u (hk.linked u hu)⟩, fun u hu => ⟨hu.1, hother u hu.2⟩⟩

theorem link_listed (hk : k.Listed) {v : Nat} (h : k.step c (.link v) = some k') :
    k'.Listed ∧ ∀ u, k.Live u → k'.Live u := by
  simp only [Kernel.step] at h
  split_ifs at h
  obtain ⟨hlife, rfl⟩ := become_some h
  have hother : ∀ u ∈ k.devs, u ≠ v := by
    rintro u hu rfl
    have hlinked := hk.linked u hu
    dsimp only at hlife
    rw [hlife] at hlinked
    cases hlinked
  refine ⟨⟨?_, ?_⟩, ?_⟩
  · refine List.nodup_append.mpr ⟨hk.nodup, by simp, ?_⟩
    rintro u hu w hw rfl
    exact hother u hu (List.mem_singleton.mp hw)
  · intro u hu
    obtain hu | hu := List.mem_append.mp hu
    · exact (Function.update_of_ne (hother u hu) ..).trans (hk.linked u hu)
    · rw [List.mem_singleton.mp hu]
      exact Function.update_self ..
  · rintro u ⟨hu, hlinked⟩
    exact ⟨List.mem_append_left _ hu, (Function.update_of_ne (hother u hu) ..).trans hlinked⟩

theorem unlink_listed (hk : k.Listed) {v : Nat} (h : k.step c (.unlink v) = some k') : k'.Listed := by
  simp only [Kernel.step] at h
  split_ifs at h
  obtain ⟨-, rfl⟩ := become_some h
  refine ⟨hk.nodup.erase v, fun u hu => ?_⟩
  obtain ⟨hne, hu⟩ := hk.nodup.mem_erase_iff.mp hu
  exact (Function.update_of_ne hne ..).trans (hk.linked u hu)

theorem guest_some {m : Move} (h : k.step c (.guest m) = some k') : k.Permits m ∧
    ∃ core, Setup.move { c with devs := k.lookup } k.core m = some core ∧ k' = { k with core } := by
  simp only [Kernel.step] at h
  split_ifs at h with hok
  obtain ⟨core, hcore, rfl⟩ := Option.map_eq_some_iff.mp h
  exact ⟨hok, core, hcore, rfl⟩

theorem unlink_some {v : Nat} (h : k.step c (.unlink v) = some k') :
    k.life v = .linked ∧ k' = { k with
      devs := k.devs.erase v, life := Function.update k.life v .unlinked } := by
  simp only [Kernel.step] at h
  split_ifs at h
  exact become_some h

theorem unlink_live {v : Nat} (h : k.step c (.unlink v) = some k') (u : Nat) :
    k'.Live u ↔ k.Live u ∧ u ≠ v := by
  obtain ⟨-, rfl⟩ := unlink_some h
  unfold Kernel.Live
  dsimp only
  by_cases heq : u = v
  · subst heq
    simp
  · rw [Function.update_of_ne heq, List.mem_erase_of_ne heq]
    simp [heq]

-- A step of a call finds live devices only.
theorem lookup_live (hk : k.Listed) (minor v : Nat) (h : k.lookup minor = some v) : k.Live v :=
  ⟨List.mem_of_find?_eq_some h, hk.linked v (List.mem_of_find?_eq_some h)⟩

-- Taking a device off the list is harmless exactly when nothing refers to it.
theorem unlink_refers_iff (hlive : k.core.Refers k.Live) {v : Nat}
    (h : k.step c (.unlink v) = some k') :
    k'.core.Refers k'.Live ↔ k.core.Refers (· ≠ v) := by
  have hsame : k'.Live = fun u => k.Live u ∧ u ≠ v := funext fun u => propext (unlink_live h u)
  have hcore : k'.core = k.core := by
    obtain ⟨-, rfl⟩ := unlink_some h
    rfl
  rw [hsame, hcore, refers_and]
  exact and_iff_right hlive

structure Kernel.Sound (k : Kernel σ) : Prop where
  listed : k.Listed
  refers : k.core.Refers k.Live

theorem sound_step (hk : k.Sound) (a : Plug) (hspared : Spared k a) (h : k.step c a = some k') :
    k'.Sound := by
  -- The calls are as they were, and the live devices live on.
  have hprobe : k'.core = k.core → k'.Listed ∧ (∀ u, k.Live u → k'.Live u) → k'.Sound :=
    fun hcore hlive => ⟨hlive.1, hcore ▸ hk.refers.mono _ hlive.2⟩
  cases a with
  | alloc v => exact hprobe (by rw [(become_some h).2]) (become_listed hk.listed (by decide) h)
  | findVq v => exact hprobe (by rw [(become_some h).2]) (become_listed hk.listed (by decide) h)
  | link v =>
      refine hprobe ?_ (link_listed hk.listed h)
      simp only [Kernel.step] at h
      split_ifs at h
      rw [(become_some h).2]
  | unlink v => exact ⟨unlink_listed hk.listed h, (unlink_refers_iff hk.refers h).mpr hspared⟩
  | reset v =>
      simp only [Kernel.step] at h
      split_ifs at h
      exact hprobe (by rw [(become_some h).2]) (become_listed hk.listed (by decide) h)
  | delVqs v => exact hprobe (by rw [(become_some h).2]) (become_listed hk.listed (by decide) h)
  | free v => exact hprobe (by rw [(become_some h).2]) (become_listed hk.listed (by decide) h)
  | guest m =>
      obtain ⟨-, core, hcore, rfl⟩ := guest_some h
      exact ⟨⟨hk.listed.nodup, hk.listed.linked⟩,
        refers_move (fun minor v hv => lookup_live hk.listed minor v hv) hk.refers m hcore⟩

theorem boot_refers (x : σ) (P : Nat → Prop) : (State.boot x).Refers P where
  files := fun f crof hf => by cases hf
  calls := fun t task ht => by cases ht

theorem sound_boot (x : σ) : (Kernel.boot x).Sound where
  listed := ⟨List.nodup_nil, fun v hv => by cases hv⟩
  refers := boot_refers x _

theorem target_within {prog : Prog Int} {P : Nat → Prop} (h : prog.Within P) {v : Nat}
    (hv : prog.target = some v) : P v := by
  cases prog with
  | addSgs | kick | getBuf =>
      cases hv
      exact h.1
  | ret | oops | kmalloc | kfree | put | get | loadUser | copyFromUser | copyToUser
  | nonseekableOpen | findDev | newCrof | getCrof | setHostFd | freeCrof | spinLock
  | spinUnlock => cases hv

-- No open file and no queue access is ever of a device that is not live, in
-- every run in which devices are removed only when nothing refers to them.
theorem lifetime (c : Setup σ) (x : σ) (actions : List Plug) (k : Kernel σ)
    (run : Run (Kernel.step c) Spared (Kernel.boot x) actions k) :
    (∀ f crof, k.core.files f = some crof → k.Live crof.crdev) ∧
    (∀ t task v, k.core.tasks t = some task → task.prog.target = some v → k.Live v) ∧
    ∀ v k', k.step c (.unlink v) = some k' →
      (k'.core.Refers k'.Live ↔ Spared k (.unlink v)) := by
  have hk : k.Sound := run.invariant (sound_boot x) fun _ a _ hs hok h => sound_step hs a hok h
  exact ⟨hk.refers.files, fun t task v ht hv => target_within (hk.refers.calls t task ht) hv,
    fun v k' h => unlink_refers_iff hk.refers h⟩

end Live

section Removed

def plugSetup : Setup Nat := ⟨fun _ => none, nullHost, fun _ => flatQemu⟩

def probe (v : Nat) : List Plug := [.alloc v, .findVq v, .link v]

-- A call of a task, with the steps of the device after the first `n` of its own.
def wholeCall (t file : Nat) (sys : Syscall) (before after : Nat) : List Plug :=
  [.guest (.act (.call t file sys fun _ => 0xff))] ++
    List.replicate before (.guest (.act (.run t []))) ++
    [.guest (.act (.pop 0)), .guest (.act .handle), .guest (.act .push)] ++
    List.replicate after (.guest (.act (.run t [])))

def dismantling (v : Nat) : List Plug := [.reset v, .delVqs v, .free v]

theorem spared_of_ne (k : Kernel σ) (a : Plug) (h : ∀ v, a ≠ .unlink v) : Spared k a := by
  cases a with
  | unlink v => exact absurd rfl (h v)
  | alloc | findVq | link | reset | delVqs | free | guest => trivial

-- A device that nobody uses is removed, and the other one is opened.
theorem spared_open_live : ∃ k : Kernel Nat,
    k.core.files 0 = some ⟨0, 3⟩ ∧ k.life 1 = .freed ∧ k.Live 0 := by
  obtain ⟨k, hprobed, hcore, k', hrest, hfile, hlife⟩ : ∃ k : Kernel Nat,
      Run (Kernel.step plugSetup) Spared (Kernel.boot 3) (probe 0 ++ probe 1) k ∧
      k.core = State.boot 3 ∧ ∃ k', (.unlink 1 :: (dismantling 1 ++
        wholeCall 0 0 (.openDev 0) 12 6)).foldlM (Kernel.step plugSetup) k = some k' ∧
      k'.core.files 0 = some ⟨0, 3⟩ ∧ k'.life 1 = .freed := by
    refine ⟨_, .of_foldlM (fun k a ha => spared_of_ne k a ?_) rfl, rfl, _, rfl, rfl, rfl⟩
    rintro v rfl
    simp [probe] at ha
  rw [List.foldlM_cons] at hrest
  cases hunlink : Kernel.step plugSetup k (.unlink 1) with
  | none =>
      rw [hunlink] at hrest
      cases hrest
  | some k1 =>
      rw [hunlink] at hrest
      have hspared : Spared k (.unlink 1) := by
        change k.core.Refers (· ≠ 1)
        rw [hcore]
        exact boot_refers 3 _
      have hrun := (hprobed.snoc hspared hunlink).append (.of_foldlM (fun k a ha => spared_of_ne k a (by
        rintro v rfl
        simp [wholeCall, dismantling] at ha)) hrest)
      exact ⟨k', hfile, hlife, (lifetime plugSetup 3 _ k' hrun).1 0 _ hfile⟩

-- An open file outlives its device, and its release goes on to use it.
theorem removed_while_open : ∃ k : Kernel Nat,
    Run (Kernel.step plugSetup) (fun _ _ => True) (Kernel.boot 3)
      (probe 0 ++ wholeCall 0 0 (.openDev 0) 12 6 ++ (.unlink 0 :: dismantling 0) ++
        [.guest (.act (.call 1 0 .release fun _ => 0xff))] ++
        List.replicate 6 (.guest (.act (.run 1 [])))) k ∧
    k.core.files 0 = some ⟨0, 3⟩ ∧ k.life 0 = .freed ∧
    ∃ task, k.core.tasks 1 = some task ∧ task.prog.target = some 0 := by
  refine ⟨_, .of_foldlM (fun _ _ _ => trivial) rfl, rfl, rfl, _, rfl, rfl⟩

end Removed

end CryptodevChat.Virtio
