import CryptodevChat.Lib.Run
import Mathlib.Algebra.BigOperators.Group.Finset.Basic
import Mathlib.Algebra.GroupWithZero.Nat

namespace CryptodevChat.Lib

section Steps

variable {σ α : Type*} {step : σ → α → Option σ} {good : σ → α → Prop}

-- A potential that pays for the steps of a machine: each of its own costs one unit,
-- and the others may bring some units with them.
structure Potential (step : σ → α → Option σ) (good : σ → α → Prop) (own : α → Bool) (I : σ → Prop) where
  value : σ → Nat
  brings : α → Nat
  keeps : ∀ s a u, I s → good s a → step s a = some u → I u
  pays : ∀ s a u, I s → good s a → step s a = some u →
    value u + (if own a then 1 else 0) ≤ value s + brings a

variable {own : α → Bool} {I : σ → Prop} (Φ : Potential step good own I)

-- The machine makes no more steps than were paid for.
theorem Potential.work {s t : σ} {actions : List α} (run : Run step good s actions t) (hinit : I s) :
    Φ.value t + actions.countP own ≤ Φ.value s + (actions.map Φ.brings).sum := by
  induction run with
  | nil => exact Nat.le_refl _
  | @snoc t u actions a run ok next ih =>
      have hstep := Φ.pays t a u (run.invariant hinit Φ.keeps) ok next
      rw [List.countP_append, List.countP_singleton, List.map_append, List.sum_append_nat, List.map_singleton,
        List.sum_cons, List.sum_nil]
      omega

-- Without help from outside the machine comes to a rest.
theorem Potential.rests (hown : ∀ a, own a = true → Φ.brings a = 0) (n : Nat) (s : σ) (hinit : I s)
    (hn : Φ.value s ≤ n) :
    ∃ actions t, Run step good s actions t ∧ (∀ a ∈ actions, own a = true) ∧
      ∀ a, own a = true → good t a → step t a = none := by
  induction n generalizing s with
  | zero =>
      refine ⟨[], s, .nil s, by simp, fun a ha ok => ?_⟩
      cases next : step s a with
      | none => rfl
      | some u =>
          have hpays := Φ.pays s a u hinit ok next
          rw [ha, hown a ha] at hpays
          simp only [if_true] at hpays
          omega
  | succ n ih =>
      by_cases hrest : ∀ a, own a = true → good s a → step s a = none
      · exact ⟨[], s, .nil s, by simp, hrest⟩
      · push Not at hrest
        obtain ⟨a, ha, ok, hmoves⟩ := hrest
        obtain ⟨u, next⟩ := Option.ne_none_iff_exists'.mp hmoves
        have hpays := Φ.pays s a u hinit ok next
        rw [ha, hown a ha] at hpays
        simp only [if_true] at hpays
        obtain ⟨actions, t, run, hall, hrest⟩ := ih u (Φ.keeps s a u hinit ok next) (by omega)
        refine ⟨a :: actions, t, .cons ok next run, ?_, hrest⟩
        exact List.forall_mem_cons.mpr ⟨ha, hall⟩

end Steps

-- Two sums that differ in one summand.
theorem sum_range_change (f g : Nat → Nat) (n k : Nat) (hk : k < n) (h : ∀ i ≠ k, f i = g i) :
    (Finset.range n).sum f + g k = (Finset.range n).sum g + f k := by
  have hmem : k ∈ Finset.range n := Finset.mem_range.mpr hk
  have hrest : ((Finset.range n).erase k).sum f = ((Finset.range n).erase k).sum g :=
    Finset.sum_congr rfl fun i hi => h i (Finset.ne_of_mem_erase hi)
  have hf : f k + ((Finset.range n).erase k).sum f = (Finset.range n).sum f :=
    Finset.add_sum_erase _ f hmem
  have hg : g k + ((Finset.range n).erase k).sum g = (Finset.range n).sum g :=
    Finset.add_sum_erase _ g hmem
  omega

end CryptodevChat.Lib
