import CryptodevChat.Lib.Memory
import Mathlib.Data.Set.Function

namespace CryptodevChat.Lib

variable {ι α : Type*}

-- Two updates that do the same: a cell is given one value by both, or left alone
-- by both.
def Alike (m after m' after' : ι → α) : Prop :=
  ∀ p, after p = after' p ∨ after p = m p ∧ after' p = m' p

theorem Alike.rfl {m m' : ι → α} : Alike m m m' m' := fun _ => .inr ⟨Eq.refl _, Eq.refl _⟩

-- Where two memories agree, they agree after updates that do the same.
theorem Alike.eq_or {m after m' after' : ι → α} (h : Alike m after m' after') {s : Set ι}
    (hm : Set.EqOn m m' s) (p : ι) : after p = after' p ∨ p ∉ s ∧ after p = m p ∧ after' p = m' p := by
  rcases h p with heq | ⟨hafter, hafter'⟩
  · exact .inl heq
  · by_cases hp : p ∈ s
    · exact .inl (by rw [hafter, hafter', hm hp])
    · exact .inr ⟨hp, hafter, hafter'⟩

theorem Alike.trans {m after last m' after' last' : ι → α} (h : Alike m after m' after')
    (hlast : Alike after last after' last') : Alike m last m' last' := by
  intro p
  rcases hlast p with heq | ⟨hl, hl'⟩
  · exact .inl heq
  · rw [hl, hl']
    exact h p

variable [DecidableEq ι]

theorem scatter_alike (m m' : ι → α) (place : Nat → ι) (data : List α) :
    Alike m (scatter m place data) m' (scatter m' place data) := by
  induction data generalizing m m' place with
  | nil => exact .rfl
  | cons x xs ih =>
      intro p
      rcases ih (Function.update m (place 0) x) (Function.update m' (place 0) x)
        (fun i => place (i + 1)) p with heq | ⟨hm, hm'⟩
      · exact .inl heq
      · rw [scatter, scatter, hm, hm']
        by_cases hp : p = place 0
        · subst hp
          exact .inl (by rw [Function.update_self, Function.update_self])
        · rw [Function.update_of_ne hp, Function.update_of_ne hp]
          exact .inr ⟨rfl, rfl⟩

-- The cells of an object from a place on.
def Loc.cells (p : Loc) (n : Nat) : Set Loc :=
  {r | r.block = p.block ∧ p.off ≤ r.off ∧ r.off < p.off + n}

theorem Loc.mem_cells (p r : Loc) (n : Nat) :
    r ∈ p.cells n ↔ r.block = p.block ∧ p.off ≤ r.off ∧ r.off < p.off + n := Iff.rfl

theorem Mem.store_alike (m m' : Mem α) (p : Loc) (data : List α) :
    Alike m (Mem.store m p data) m' (Mem.store m' p data) := scatter_alike m m' p.plus data

-- What is stored in both does not matter elsewhere.
theorem Mem.store_eqOn {m m' : Mem α} {s : Set Loc} (h : Set.EqOn m m' s) (p : Loc)
    (data data' : List α) (hlen : data'.length = data.length) :
    Set.EqOn (Mem.store m p data) (Mem.store m' p data') (s \ p.cells data.length) := by
  rintro r ⟨hs, hout⟩
  have hbeside : p.block ≠ r.block ∨ r.off < p.off ∨ p.off + data.length ≤ r.off := by
    rw [Loc.mem_cells] at hout
    omega
  rw [Mem.store_other _ _ _ _ hbeside, Mem.store_other _ _ _ _ (by rwa [hlen])]
  exact h hs

-- The cells of a process at a stretch of its addresses.
def Space.cells (sp : Space) (addr n : Nat) : Set Loc := {p | ∃ i < n, sp.byteAt (addr + i) = p}

-- A page is mapped as a whole: addresses less than one apart are different cells.
def Space.Paged (sp : Space) (page : Nat) : Prop :=
  ∀ a b, a < b → b < a + page → sp.byteAt a ≠ sp.byteAt b

theorem Space.Paged.inj {sp : Space} {page : Nat} (h : sp.Paged page) (addr n : Nat) (hn : n ≤ page) :
    ∀ i < n, ∀ j < n, sp.byteAt (addr + i) = sp.byteAt (addr + j) → i = j := by
  intro i hi j hj he
  rcases Nat.lt_trichotomy i j with hlt | heq | hgt
  · exact absurd he (h _ _ (by omega) (by omega))
  · exact heq
  · exact absurd he.symm (h _ _ (by omega) (by omega))

-- The cells that a copy of an object to the process keeps are given last what
-- they have.
theorem Space.copyTo_keeps_iff (sp : Space) (user m : Mem α) (addr block n : Nat) (user' : Mem α)
    (h : sp.copyTo user addr (Mem.load m ⟨block, 0⟩ n) = some user') (P : Loc → Prop) :
    (∀ p, P p → user' p = user p) ↔
      ∀ i < n, (∀ j < n, i < j → sp.byteAt (addr + j) ≠ sp.byteAt (addr + i)) →
        P (sp.byteAt (addr + i)) → m ⟨block, i⟩ = user (sp.byteAt (addr + i)) := by
  unfold Space.copyTo at h
  split_ifs at h
  cases h
  rw [scatter_keeps_iff]
  simp only [Mem.load_length]
  refine forall_congr' fun i => forall_congr' fun hi => ?_
  have hget : ∀ hlt : i < (Mem.load m ⟨block, 0⟩ n).length,
      (Mem.load m ⟨block, 0⟩ n)[i] = m ⟨block, i⟩ := by
    intro _
    simp [Mem.load, gather, Loc.plus]
  rw [hget]

end CryptodevChat.Lib
