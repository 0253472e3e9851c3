import Mathlib.Logic.Function.Basic

namespace CryptodevChat.Lib

variable {α β : Type*}

-- Who owns a thing, and which thing an owner holds.
def Inverse (owner : α → Option β) (held : β → Option α) : Prop :=
  ∀ a b, owner a = some b ↔ held b = some a

variable {owner : α → Option β} {held : β → Option α}

theorem Inverse.unique (h : Inverse owner held) {a : α} {b b' : β} (hb : held b = some a)
    (hb' : held b' = some a) : b = b' := by
  have howner := (h a b).mpr hb
  rw [(h a b').mpr hb'] at howner
  cases howner
  rfl

theorem Inverse.free (h : Inverse owner held) (a : α) (hfree : ∀ b, held b ≠ some a) :
    owner a = none := by
  cases howner : owner a with
  | none => rfl
  | some b => exact absurd ((h a b).mp howner) (hfree b)

variable [DecidableEq β]

theorem update_eq_some (b b' : β) (x : Option α) (a : α) :
    Function.update held b x b' = some a ↔ (b' = b ∧ x = some a) ∨ (b' ≠ b ∧ held b' = some a) := by
  by_cases heq : b' = b
  · subst heq
    simp
  · simp [heq]

theorem update_none_eq_some (b b' : β) (a : α) :
    Function.update held b none b' = some a ↔ b' ≠ b ∧ held b' = some a := by
  rw [update_eq_some]
  simp

variable [DecidableEq α]

-- A thing that nobody owns is given to somebody who holds nothing.
theorem Inverse.give (h : Inverse owner held) (a : α) (b : β) (hfree : ∀ b, held b ≠ some a)
    (hnone : held b = none) :
    Inverse (Function.update owner a (some b)) (Function.update held b (some a)) := by
  intro a' b'
  rw [update_eq_some, update_eq_some, h a' b']
  constructor
  · rintro (⟨rfl, hb⟩ | ⟨hne, hheld⟩)
    · cases hb
      exact .inl ⟨rfl, rfl⟩
    · refine .inr ⟨?_, hheld⟩
      rintro rfl
      rw [hnone] at hheld
      cases hheld
  · rintro (⟨rfl, ha⟩ | ⟨hne, hheld⟩)
    · cases ha
      exact .inl ⟨rfl, rfl⟩
    · refine .inr ⟨?_, hheld⟩
      rintro rfl
      exact hfree b' hheld

theorem Inverse.take (h : Inverse owner held) (a : α) (b : β) (hheld : held b = some a) :
    Inverse (Function.update owner a none) (Function.update held b none) := by
  intro a' b'
  rw [update_none_eq_some, update_none_eq_some, h a' b']
  refine and_congr_left fun hheld' => not_congr ⟨?_, ?_⟩
  · rintro rfl
    exact h.unique hheld' hheld
  · rintro rfl
    exact Option.some.inj (hheld'.symm.trans hheld)

end CryptodevChat.Lib
