import Mathlib.Data.List.Nodup
import Mathlib.Data.Set.Basic

namespace CryptodevChat.Lib

variable {β : Type*}

-- What was allocated and what was freed. Blocks have names of their own.
structure Ledger (β : Type*) where
  allocs : List β
  frees : List β

def Ledger.empty : Ledger β := ⟨[], []⟩

def Ledger.book (l : Ledger β) (allocs frees : List β) : Ledger β :=
  ⟨l.allocs ++ allocs, l.frees ++ frees⟩

-- Every block was allocated once and freed once at most, and exactly those of
-- a set are still there.
structure Ledger.Balanced (l : Ledger β) (live : Set β) : Prop where
  allocs : l.allocs.Nodup
  frees : l.frees.Nodup
  owned : l.frees ⊆ l.allocs
  live : ∀ b, b ∈ live ↔ b ∈ l.allocs ∧ b ∉ l.frees

theorem Ledger.balanced_empty : (empty : Ledger β).Balanced ∅ where
  allocs := List.nodup_nil
  frees := List.nodup_nil
  owned := List.Subset.refl _
  live := by simp [empty]

variable {l : Ledger β} {live live' : Set β} {allocs frees : List β}

-- New blocks are allocated, and some of these and of the live ones are freed.
theorem Ledger.Balanced.book (h : l.Balanced live) (hallocs : allocs.Nodup)
    (hfresh : ∀ b ∈ allocs, b ∉ l.allocs) (hfrees : frees.Nodup)
    (howned : ∀ b ∈ frees, b ∈ live ∨ b ∈ allocs)
    (hlive : ∀ b, b ∈ live' ↔ (b ∈ live ∨ b ∈ allocs) ∧ b ∉ frees) :
    (l.book allocs frees).Balanced live' := by
  have hnew : ∀ b ∈ frees, b ∉ l.frees := by
    intro b hb hfreed
    rcases howned b hb with hold | hnew
    · exact ((h.live b).mp hold).2 hfreed
    · exact hfresh b hnew (h.owned hfreed)
  constructor
  · refine List.nodup_append.mpr ⟨h.allocs, hallocs, ?_⟩
    rintro b hb c hc rfl
    exact hfresh b hc hb
  · refine List.nodup_append.mpr ⟨h.frees, hfrees, ?_⟩
    rintro b hb c hc rfl
    exact hnew b hc hb
  · intro b hb
    rcases List.mem_append.mp hb with hold | hnow
    · exact List.mem_append_left _ (h.owned hold)
    · rcases howned b hnow with hold | hnew
      · exact List.mem_append_left _ ((h.live b).mp hold).1
      · exact List.mem_append_right _ hnew
  · intro b
    have hapart : b ∈ allocs → b ∉ l.frees := fun hb hfreed => hfresh b hb (h.owned hfreed)
    rw [hlive b, h.live b]
    simp only [Ledger.book, List.mem_append, not_or]
    tauto

-- A new block that is not freed is live.
theorem Ledger.Balanced.keeps (h : l.Balanced live) {b : β} (hb : b ∈ allocs) (hfresh : b ∉ l.allocs)
    (hkept : b ∉ frees) (h' : (l.book allocs frees).Balanced live') : b ∈ live' := by
  refine (h'.live b).mpr ⟨List.mem_append_right _ hb, fun hfreed => ?_⟩
  rcases List.mem_append.mp hfreed with hold | hnow
  · exact hfresh (h.owned hold)
  · exact hkept hnow

end CryptodevChat.Lib
