import Mathlib.Logic.Function.Basic
import Mathlib.Data.Option.Basic

namespace CryptodevChat.Lib

variable {ι κ : Type*} {sems : κ → Option Nat} {holds : ι → Option κ}

-- A table of semaphores that start with one permit, and who holds which: a
-- process holds at most one of them. A taken one has exactly one holder.
structure Exclusive (sems : κ → Option Nat) (holds : ι → Option κ) : Prop where
  binary : ∀ c n, sems c = some n → n ≤ 1
  taken : ∀ i c, holds i = some c → sems c = some 0
  holder : ∀ c, sems c = some 0 → ∃ i, holds i = some c
  single : ∀ i j c, holds i = some c → holds j = some c → i = j

theorem Exclusive.start : Exclusive (fun _ : κ => none) (fun _ : ι => none) where
  binary := fun c n h => by cases h
  taken := fun i c h => by cases h
  holder := fun c h => by cases h
  single := fun i j c h => by cases h

section Steps

variable [DecidableEq κ]

-- Initialization of a semaphore that nobody holds.
theorem Exclusive.init (h : Exclusive sems holds) (c : κ) (hnone : sems c = none) :
    Exclusive (Function.update sems c (some 1)) holds := by
  have hne : ∀ i d, holds i = some d → d ≠ c := by
    rintro i d hd rfl
    rw [h.taken i d hd] at hnone
    cases hnone
  constructor
  · intro d n hd
    by_cases hdc : d = c
    · subst hdc
      rw [Function.update_self] at hd
      cases hd
      exact Nat.le_refl 1
    · rw [Function.update_of_ne hdc] at hd
      exact h.binary d n hd
  · intro i d hd
    rw [Function.update_of_ne (hne i d hd)]
    exact h.taken i d hd
  · intro d hd
    by_cases hdc : d = c
    · subst hdc
      rw [Function.update_self] at hd
      cases hd
    · rw [Function.update_of_ne hdc] at hd
      exact h.holder d hd
  · exact h.single

variable [DecidableEq ι]

-- A permit is there: nobody holds the semaphore, and the taker will be the only one.
theorem Exclusive.wait (h : Exclusive sems holds) (i : ι) (c : κ) (n : Nat) (hi : holds i = none)
    (hc : sems c = some (n + 1)) :
    Exclusive (Function.update sems c (some n)) (Function.update holds i (some c)) := by
  have hzero : n = 0 := by
    have := h.binary c (n + 1) hc
    omega
  have hfree : ∀ j, holds j ≠ some c := by
    intro j hj
    rw [h.taken j c hj] at hc
    cases hc
  constructor
  · intro d m hd
    by_cases hdc : d = c
    · subst hdc
      rw [Function.update_self] at hd
      cases hd
      omega
    · rw [Function.update_of_ne hdc] at hd
      exact h.binary d m hd
  · intro j d hd
    by_cases hj : j = i
    · subst hj
      rw [Function.update_self] at hd
      cases hd
      rw [Function.update_self, hzero]
    · rw [Function.update_of_ne hj] at hd
      rw [Function.update_of_ne (by rintro rfl; exact hfree j hd)]
      exact h.taken j d hd
  · intro d hd
    by_cases hdc : d = c
    · exact ⟨i, by rw [hdc, Function.update_self]⟩
    · rw [Function.update_of_ne hdc] at hd
      obtain ⟨j, hj⟩ := h.holder d hd
      have hji : j ≠ i := by
        rintro rfl
        rw [hi] at hj
        cases hj
      exact ⟨j, by rw [Function.update_of_ne hji, hj]⟩
  · intro j k d hj hk
    by_cases hji : j = i
    · by_cases hki : k = i
      · rw [hji, hki]
      · rw [Function.update_of_ne hki] at hk
        subst hji
        rw [Function.update_self] at hj
        cases hj
        exact absurd hk (hfree k)
    · rw [Function.update_of_ne hji] at hj
      by_cases hki : k = i
      · subst hki
        rw [Function.update_self] at hk
        cases hk
        exact absurd hj (hfree j)
      · rw [Function.update_of_ne hki] at hk
        exact h.single j k d hj hk

theorem Exclusive.post (h : Exclusive sems holds) (i : ι) (c : κ) (hi : holds i = some c) :
    Exclusive (Function.update sems c ((sems c).map (· + 1))) (Function.update holds i none) := by
  rw [h.taken i c hi]
  have hother : ∀ j d, Function.update holds i none j = some d → d ≠ c ∧ holds j = some d := by
    intro j d hj
    by_cases hji : j = i
    · rw [hji, Function.update_self] at hj
      cases hj
    · rw [Function.update_of_ne hji] at hj
      refine ⟨?_, hj⟩
      rintro rfl
      exact hji (h.single j i d hj hi)
  constructor
  · intro d n hd
    by_cases hdc : d = c
    · subst hdc
      rw [Function.update_self] at hd
      cases hd
      exact Nat.le_refl 1
    · rw [Function.update_of_ne hdc] at hd
      exact h.binary d n hd
  · intro j d hj
    obtain ⟨hdc, hj⟩ := hother j d hj
    rw [Function.update_of_ne hdc]
    exact h.taken j d hj
  · intro d hd
    by_cases hdc : d = c
    · subst hdc
      rw [Function.update_self] at hd
      cases hd
    · rw [Function.update_of_ne hdc] at hd
      obtain ⟨j, hj⟩ := h.holder d hd
      have hji : j ≠ i := by
        rintro rfl
        rw [hi] at hj
        cases hj
        exact hdc rfl
      exact ⟨j, by rw [Function.update_of_ne hji, hj]⟩
  · intro j k d hj hk
    exact h.single j k d (hother j d hj).2 (hother k d hk).2

end Steps

end CryptodevChat.Lib
