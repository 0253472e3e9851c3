import CryptodevChat.Virtio.Lifetime

namespace CryptodevChat.Virtio

open Lib (Run)

variable {σ : Type}

section Numbers

-- The number of devices we support.
def CRYPTO_NR_DEVICES : Nat := 32

-- A minor number stands for one device of the list, and lies in the region of
-- character devices that `crypto_chrdev_init` registers.
structure Kernel.Numbered (k : Kernel σ) : Prop where
  distinct : ∀ u ∈ k.devs, ∀ v ∈ k.devs, k.minor u = k.minor v → u = v
  registered : ∀ v ∈ k.devs, k.minor v < CRYPTO_NR_DEVICES
  found : ∀ m v, k.lookup m = some v ↔ v ∈ k.devs ∧ k.minor v = m

-- The next minor to be given out is one of the region.
def InRegion (k : Kernel σ) : Plug → Prop
  | .link _ => k.nextMinor < CRYPTO_NR_DEVICES
  | _ => True

instance (k : Kernel σ) (a : Plug) : Decidable (InRegion k a) := by
  unfold InRegion
  split <;> infer_instance

-- What the counter keeps: every minor in use was given out before.
structure Kernel.Issued (k : Kernel σ) : Prop where
  listed : k.Listed
  distinct : ∀ u ∈ k.devs, ∀ v ∈ k.devs, k.minor u = k.minor v → u = v
  below : ∀ v ∈ k.devs, k.minor v < k.nextMinor
  bound : k.nextMinor ≤ CRYPTO_NR_DEVICES

end Numbers

section Counter

variable {c : Setup σ} {k k' : Kernel σ}

-- Among devices of different minors a search finds the one that is asked for.
theorem lookup_eq_some_iff (h : ∀ u ∈ k.devs, ∀ v ∈ k.devs, k.minor u = k.minor v → u = v)
    (m v : Nat) : k.lookup m = some v ↔ v ∈ k.devs ∧ k.minor v = m := by
  constructor
  · intro hfound
    exact ⟨List.mem_of_find?_eq_some hfound, by simpa using List.find?_some hfound⟩
  · rintro ⟨hv, hm⟩
    cases hfound : k.lookup m with
    | none => exact absurd hm (by simpa using List.find?_eq_none.mp hfound v hv)
    | some u =>
        have hu : k.minor u = m := by simpa using List.find?_some hfound
        rw [h u (List.mem_of_find?_eq_some hfound) v hv (hu.trans hm.symm)]

theorem Kernel.Issued.numbered (hk : k.Issued) : k.Numbered where
  distinct := hk.distinct
  registered := fun v hv => (hk.below v hv).trans_le hk.bound
  found := lookup_eq_some_iff hk.distinct

theorem link_some {v : Nat} (h : k.step c (.link v) = some k') :
    k.life v = .ready ∧ k' = { k with
      devs := k.devs ++ [v]
      minor := Function.update k.minor v k.nextMinor
      nextMinor := (k.nextMinor + 1) % 2 ^ 32
      life := Function.update k.life v .linked } := by
  simp only [Kernel.step] at h
  split_ifs at h
  exact become_some h

-- Only the last statements of a probe give out a minor, and nothing else makes
-- the list longer.
theorem step_devs (hk : k.Listed) {a : Plug} (ha : ∀ v, a ≠ .link v)
    (h : k.step c a = some k') :
    k'.Listed ∧ k'.devs ⊆ k.devs ∧ k'.minor = k.minor ∧ k'.nextMinor = k.nextMinor := by
  have hbecome : ∀ {v l l'}, l ≠ .linked → k.become v l l' = some k' →
      k'.Listed ∧ k'.devs ⊆ k.devs ∧ k'.minor = k.minor ∧ k'.nextMinor = k.nextMinor := by
    intro v l l' hl hbecome
    have hlisted := (become_listed hk hl hbecome).1
    obtain ⟨-, rfl⟩ := become_some hbecome
    exact ⟨hlisted, List.Subset.refl _, rfl, rfl⟩
  cases a with
  | link v => exact absurd rfl (ha v)
  | alloc v => exact hbecome (by decide) h
  | findVq v => exact hbecome (by decide) h
  | delVqs v => exact hbecome (by decide) h
  | free v => exact hbecome (by decide) h
  | reset v =>
      simp only [Kernel.step] at h
      split_ifs at h
      exact hbecome (by decide) h
  | unlink v =>
      have hlisted := unlink_listed hk h
      obtain ⟨-, rfl⟩ := unlink_some h
      exact ⟨hlisted, List.erase_subset, rfl, rfl⟩
  | guest m =>
      obtain ⟨-, core, -, rfl⟩ := guest_some h
      exact ⟨⟨hk.nodup, hk.linked⟩, List.Subset.refl _, rfl, rfl⟩

theorem issued_link (hk : k.Issued) {v : Nat} (hregion : k.nextMinor < CRYPTO_NR_DEVICES)
    (h : k.step c (.link v) = some k') : k'.Issued := by
  have hlisted := (link_listed hk.listed h).1
  obtain ⟨hready, rfl⟩ := link_some h
  have hold : ∀ u ∈ k.devs, Function.update k.minor v k.nextMinor u = k.minor u := by
    intro u hu
    refine Function.update_of_ne ?_ ..
    rintro rfl
    have hlinked := hk.listed.linked u hu
    rw [hready] at hlinked
    cases hlinked
  have hnext : (k.nextMinor + 1) % 2 ^ 32 = k.nextMinor + 1 := by
    unfold CRYPTO_NR_DEVICES at hregion
    omega
  refine ⟨hlisted, ?_, ?_, by dsimp only; omega⟩
  · intro u hu w hw heq
    dsimp only at heq
    -- The new device has the one minor that none of the others has.
    rcases List.mem_append.mp hu with hu | hu <;> rcases List.mem_append.mp hw with hw | hw
    · rw [hold u hu, hold w hw] at heq
      exact hk.distinct u hu w hw heq
    · rw [hold u hu, List.mem_singleton.mp hw, Function.update_self] at heq
      exact absurd heq (hk.below u hu).ne
    · rw [hold w hw, List.mem_singleton.mp hu, Function.update_self] at heq
      exact absurd heq.symm (hk.below w hw).ne
    · rw [List.mem_singleton.mp hu, List.mem_singleton.mp hw]
  · intro u hu
    dsimp only
    rw [hnext]
    rcases List.mem_append.mp hu with hu | hu
    · rw [hold u hu]
      exact (hk.below u hu).trans (Nat.lt_succ_self _)
    · rw [List.mem_singleton.mp hu, Function.update_self]
      exact Nat.lt_succ_self _

theorem issued_step (hk : k.Issued) (a : Plug) (hregion : InRegion k a)
    (h : k.step c a = some k') : k'.Issued := by
  by_cases ha : ∃ v, a = .link v
  · obtain ⟨v, rfl⟩ := ha
    exact issued_link hk hregion h
  · obtain ⟨hlisted, hdevs, hminor, hnext⟩ := step_devs hk.listed (fun v hv => ha ⟨v, hv⟩) h
    refine ⟨hlisted, ?_, ?_, by rw [hnext]; exact hk.bound⟩
    · intro u hu v hv
      rw [hminor]
      exact hk.distinct u (hdevs hu) v (hdevs hv)
    · intro v hv
      rw [hminor, hnext]
      exact hk.below v (hdevs hv)

theorem issued_boot (x : σ) : (Kernel.boot x).Issued where
  listed := (sound_boot x).listed
  distinct := fun u hu => by cases hu
  below := fun u hu => by cases hu
  bound := Nat.zero_le _

-- The device that is linked gets the next minor, whatever that is.
theorem link_numbered_iff (hk : k.Issued) {v : Nat} (h : k.step c (.link v) = some k') :
    k'.Numbered ↔ k.nextMinor < CRYPTO_NR_DEVICES := by
  constructor
  · intro hnumbered
    obtain ⟨-, rfl⟩ := link_some h
    have hminor := hnumbered.registered v (List.mem_append_right _ (List.mem_singleton_self v))
    dsimp only at hminor
    rwa [Function.update_self] at hminor
  · intro hregion
    exact (issued_link hk hregion h).numbered

-- Minor numbers identify devices as long as no more than `CRYPTO_NR_DEVICES`
-- were ever given out, however few of the devices are still there.
theorem minors (c : Setup σ) (x : σ) (actions : List Plug) (k : Kernel σ)
    (run : Run (Kernel.step c) InRegion (Kernel.boot x) actions k) :
    k.Numbered ∧
    ∀ v k', k.step c (.link v) = some k' → (k'.Numbered ↔ InRegion k (.link v)) := by
  have hk : k.Issued :=
    run.invariant (issued_boot x) fun _ a _ hs hok h => issued_step hs a hok h
  exact ⟨hk.numbered, fun v k' h => link_numbered_iff hk h⟩

end Counter

section Unplugged

-- A device is plugged in and taken out again.
def replug (v : Nat) : List Plug := probe v ++ (.unlink v :: dismantling v)

-- A number that was given out is not given out again.
theorem minors_replug : ∃ k : Kernel Nat, k.Numbered ∧ k.devs = [0, 2] ∧ k.minor 2 = 2 := by
  obtain ⟨k, run, hk⟩ := Run.of_guarded (Kernel.step plugSetup) InRegion (Kernel.boot 3)
    (probe 0 ++ replug 1 ++ probe 2) (fun k => k.devs = [0, 2] ∧ k.minor 2 = 2) (by decide +kernel)
  simp only [decide_eq_true_eq] at hk
  exact ⟨k, (minors plugSetup 3 _ k run).1, hk⟩

-- Devices come and go one at a time, until one gets a minor that the region of
-- character devices does not have.
theorem minors_run_out : ∃ k : Kernel Nat,
    Run (Kernel.step plugSetup) (fun k _ => k.devs.length ≤ 1) (Kernel.boot 3)
      ((List.range 32).flatMap replug ++ probe 32) k ∧
    k.devs = [32] ∧ k.minor 32 = 32 ∧ ¬ k.Numbered := by
  obtain ⟨k, run, hk⟩ := Run.of_guarded (Kernel.step plugSetup) (fun k _ => k.devs.length ≤ 1)
    (Kernel.boot 3) ((List.range 32).flatMap replug ++ probe 32)
    (fun k => k.devs = [32] ∧ k.minor 32 = 32) (by decide +kernel)
  simp only [decide_eq_true_eq] at hk
  obtain ⟨hdevs, hminor⟩ := hk
  refine ⟨k, run, hdevs, hminor, fun hnumbered => ?_⟩
  have hregistered := hnumbered.registered 32 (by simp [hdevs])
  rw [hminor] at hregistered
  exact absurd hregistered (by decide)

end Unplugged

end CryptodevChat.Virtio
