import Mathlib.Logic.Function.Basic
import Mathlib.Data.List.Basic
import Mathlib.Data.List.TakeWhile

namespace CryptodevChat.Lib

variable {ι α : Type*}

-- The cells that a sequence of places names, in that order.
def gather (m : ι → α) (place : Nat → ι) (n : Nat) : List α :=
  (List.range n).map fun i => m (place i)

@[simp] theorem gather_length (m : ι → α) (place : Nat → ι) (n : Nat) :
    (gather m place n).length = n := by simp [gather]

theorem gather_eq_iff (m m' : ι → α) (place place' : Nat → ι) (n : Nat) :
    gather m place n = gather m' place' n ↔ ∀ i < n, m (place i) = m' (place' i) := by
  unfold gather
  rw [List.map_inj_left]
  simp only [List.mem_range]

theorem gather_congr (m m' : ι → α) (place place' : Nat → ι) (n : Nat)
    (h : ∀ i < n, m (place i) = m' (place' i)) : gather m place n = gather m' place' n :=
  (gather_eq_iff m m' place place' n).mpr h

-- A slice of the cells is found at the places of that slice.
theorem gather_slice (m : ι → α) (place : Nat → ι) (n k len : Nat) (h : k + len ≤ n) :
    ((gather m place n).drop k).take len = gather m (fun i => place (k + i)) len := by
  apply List.ext_getElem
  · simp only [List.length_take, List.length_drop, gather_length]
    omega
  · intro i _ _
    simp [gather]

variable [DecidableEq ι]

-- Writes a list of values to a sequence of places.
def scatter (m : ι → α) (place : Nat → ι) : List α → ι → α
  | [] => m
  | x :: xs => scatter (Function.update m (place 0) x) (fun i => place (i + 1)) xs

theorem scatter_other (m : ι → α) (place : Nat → ι) (data : List α) (p : ι)
    (h : ∀ i < data.length, place i ≠ p) : scatter m place data p = m p := by
  induction data generalizing m place with
  | nil => rfl
  | cons x xs ih =>
      have hfirst := h 0 (by simp)
      have hrest : ∀ i < xs.length, place (i + 1) ≠ p := fun i hi => h (i + 1) (by simpa using hi)
      rw [scatter, ih _ _ hrest, Function.update_of_ne hfirst.symm]

-- The last value that a place is given stays.
theorem scatter_last (m : ι → α) (place : Nat → ι) (data : List α) (i : Nat) (hi : i < data.length)
    (hlast : ∀ j < data.length, i < j → place j ≠ place i) :
    scatter m place data (place i) = data[i] := by
  induction data generalizing m place i with
  | nil => simp at hi
  | cons x xs ih =>
      cases i with
      | zero =>
          rw [scatter, scatter_other, Function.update_self, List.getElem_cons_zero]
          exact fun j hj => hlast (j + 1) (by simpa using hj) (by omega)
      | succ i =>
          exact ih _ (fun i => place (i + 1)) i (by simpa using hi)
            fun j hj hij => hlast (j + 1) (by simpa using hj) (by omega)

theorem scatter_self (m : ι → α) (place : Nat → ι) (data : List α)
    (hinj : ∀ i < data.length, ∀ j < data.length, place i = place j → i = j)
    (i : Nat) (hi : i < data.length) : scatter m place data (place i) = data[i] := by
  refine scatter_last m place data i hi fun j hj hij he => ?_
  have := hinj j hj i hi he
  omega

theorem exists_last (place : Nat → ι) (n : Nat) (p : ι) (h : ∃ i < n, place i = p) :
    ∃ i < n, place i = p ∧ ∀ j < n, i < j → place j ≠ p := by
  induction n with
  | zero =>
      obtain ⟨i, hi, -⟩ := h
      omega
  | succ n ih =>
      by_cases hn : place n = p
      · exact ⟨n, by omega, hn, fun j hj hij => by omega⟩
      · obtain ⟨i, hi, he⟩ := h
        have hlt : i < n := by
          by_contra hge
          obtain rfl : i = n := by omega
          exact hn he
        obtain ⟨k, hk, hkp, hlast⟩ := ih ⟨i, hlt, he⟩
        refine ⟨k, by omega, hkp, fun j hj hkj => ?_⟩
        obtain hlt | rfl := Nat.lt_succ_iff_lt_or_eq.mp hj
        · exact hlast j hlt hkj
        · exact hn

-- Some places keep what they have exactly when they are given that last.
theorem scatter_keeps_iff (m : ι → α) (place : Nat → ι) (data : List α) (P : ι → Prop) :
    (∀ p, P p → scatter m place data p = m p) ↔
      ∀ i (hi : i < data.length), (∀ j < data.length, i < j → place j ≠ place i) → P (place i) →
        data[i] = m (place i) := by
  constructor
  · intro h i hi hlast hp
    rw [← h _ hp, scatter_last m place data i hi hlast]
  · intro h p hp
    by_cases hplace : ∃ i < data.length, place i = p
    · obtain ⟨i, hi, rfl, hlast⟩ := exists_last place data.length p hplace
      rw [scatter_last m place data i hi hlast]
      exact h i hi hlast hp
    · push Not at hplace
      exact scatter_other m place data p hplace

theorem scatter_congr (m : ι → α) (place place' : Nat → ι) (data : List α)
    (h : ∀ i < data.length, place i = place' i) :
    scatter m place data = scatter m place' data := by
  induction data generalizing m place place' with
  | nil => rfl
  | cons x xs ih =>
      rw [scatter, scatter, h 0 (by simp)]
      exact ih _ _ _ fun i hi => h (i + 1) (by simpa using hi)

theorem scatter_replicate_self (m : ι → α) (place : Nat → ι) (n : Nat) (x : α) (i : Nat) (hi : i < n) :
    scatter m place (List.replicate n x) (place i) = x := by
  induction n generalizing m place i with
  | zero => omega
  | succ n ih =>
      rw [List.replicate_succ, scatter]
      cases i with
      | succ i => exact ih _ (fun i => place (i + 1)) i (by omega)
      | zero =>
          by_cases hlater : ∃ j < n, place (j + 1) = place 0
          · obtain ⟨j, hj, he⟩ := hlater
            rw [← he]
            exact ih _ (fun i => place (i + 1)) j hj
          · push Not at hlater
            rw [scatter_other _ _ _ _ (by simpa using hlater), Function.update_self]

-- Writing equal values changes nothing only where they are there already.
theorem scatter_replicate (m : ι → α) (place : Nat → ι) (n : Nat) (x : α) :
    scatter m place (List.replicate n x) = m ↔ ∀ i < n, m (place i) = x := by
  constructor
  · intro h i hi
    rw [← h]
    exact scatter_replicate_self m place n x i hi
  · intro h
    induction n generalizing place with
    | zero => rfl
    | succ n ih =>
        have hfirst : Function.update m (place 0) x = m := by
          rw [← h 0 (by omega), Function.update_eq_self]
        rw [List.replicate_succ, scatter, hfirst]
        exact ih _ fun i hi => h (i + 1) (by omega)

-- A slice of what has been written is found at the places of that slice.
theorem gather_scatter_slice (m : ι → α) (place : Nat → ι) (data : List α) (k len : Nat)
    (hinj : ∀ i < data.length, ∀ j < data.length, place i = place j → i = j)
    (h : k + len ≤ data.length) :
    gather (scatter m place data) (fun i => place (k + i)) len = (data.drop k).take len := by
  apply List.ext_getElem
  · simp only [gather_length, List.length_take, List.length_drop]
    omega
  · intro i hi _
    rw [gather_length] at hi
    have hself := scatter_self m place data hinj (k + i) (by omega)
    simpa [gather] using hself

-- A cell of a memory made of objects: which object, and where in it.
structure Loc where
  block : Nat
  off : Nat
  deriving DecidableEq, Repr

def Loc.plus (p : Loc) (i : Nat) : Loc := ⟨p.block, p.off + i⟩

@[simp] theorem Loc.plus_block (p : Loc) (i : Nat) : (p.plus i).block = p.block := rfl
@[simp] theorem Loc.plus_off (p : Loc) (i : Nat) : (p.plus i).off = p.off + i := rfl
@[simp] theorem Loc.plus_zero (p : Loc) : p.plus 0 = p := rfl

theorem Loc.plus_plus (p : Loc) (i j : Nat) : (p.plus i).plus j = p.plus (i + j) := by
  simp [Loc.plus, Nat.add_assoc]

theorem Loc.plus_plus_fun (p : Loc) (i : Nat) : (p.plus i).plus = fun j => p.plus (i + j) :=
  funext (Loc.plus_plus p i)

theorem Loc.plus_inj (p : Loc) (i j : Nat) (h : p.plus i = p.plus j) : i = j := by
  have := congrArg Loc.off h
  simpa using this

abbrev Mem (α : Type*) := Loc → α

def Mem.load (m : Mem α) (p : Loc) (n : Nat) : List α := gather m p.plus n
def Mem.store (m : Mem α) (p : Loc) (data : List α) : Mem α := scatter m p.plus data

@[simp] theorem Mem.load_length (m : Mem α) (p : Loc) (n : Nat) : (Mem.load m p n).length = n :=
  gather_length m _ n

theorem Mem.load_slice (m : Mem α) (p : Loc) (n k len : Nat) (h : k + len ≤ n) :
    ((Mem.load m p n).drop k).take len = Mem.load m (p.plus k) len := by
  unfold Mem.load
  rw [gather_slice m p.plus n k len h, Loc.plus_plus_fun]

-- What a store does not reach stays as it was: another object, or cells
-- before or after it.
theorem Mem.store_other (m : Mem α) (p r : Loc) (data : List α)
    (h : p.block ≠ r.block ∨ r.off < p.off ∨ p.off + data.length ≤ r.off) :
    Mem.store m p data r = m r := by
  apply scatter_other
  intro i hi he
  have hb := congrArg Loc.block he
  have ho := congrArg Loc.off he
  simp only [Loc.plus_block, Loc.plus_off] at hb ho
  omega

theorem Mem.load_store_other (m : Mem α) (p r : Loc) (data : List α) (n : Nat)
    (h : p.block ≠ r.block ∨ r.off + n ≤ p.off ∨ p.off + data.length ≤ r.off) :
    Mem.load (Mem.store m p data) r n = Mem.load m r n := by
  apply gather_congr
  intro i hi
  apply Mem.store_other
  simp only [Loc.plus_block, Loc.plus_off]
  omega

theorem Mem.load_store_block (m : Mem α) (p r : Loc) (data : List α) (n : Nat)
    (h : p.block ≠ r.block) : Mem.load (Mem.store m p data) r n = Mem.load m r n :=
  Mem.load_store_other m p r data n (.inl h)

theorem Mem.load_store_slice (m : Mem α) (p : Loc) (data : List α) (k n : Nat)
    (h : k + n ≤ data.length) :
    Mem.load (Mem.store m p data) (p.plus k) n = (data.drop k).take n := by
  have h := gather_scatter_slice m p.plus data k n
    (fun i _ j _ he => Loc.plus_inj p i j he) h
  rw [Mem.load, Mem.store, Loc.plus_plus_fun]
  exact h

theorem Mem.load_store (m : Mem α) (p : Loc) (data : List α) (n : Nat) (h : data.length = n) :
    Mem.load (Mem.store m p data) p n = data := by
  have h := Mem.load_store_slice m p data 0 n (by omega)
  simpa [← ‹data.length = n›] using h

-- A stretch of cells, of which a part has been written.
theorem Mem.load_store_inside (m : Mem α) (p : Loc) (data : List α) (k n : Nat)
    (h : k + data.length ≤ n) :
    Mem.load (Mem.store m (p.plus k) data) p n =
      (Mem.load m p n).take k ++ data ++ (Mem.load m p n).drop (k + data.length) := by
  have hsplit : ∀ l : List α, l = l.take k ++ (l.drop k).take data.length ++ l.drop (k + data.length) := by
    intro l
    rw [← List.drop_drop, List.append_assoc, List.take_append_drop, List.take_append_drop]
  have hleft : (Mem.load (Mem.store m (p.plus k) data) p n).take k = (Mem.load m p n).take k := by
    have hs := Mem.load_slice (Mem.store m (p.plus k) data) p n 0 k (by omega)
    have ht := Mem.load_slice m p n 0 k (by omega)
    rw [List.drop_zero, Loc.plus_zero] at hs ht
    rw [hs, ht]
    exact Mem.load_store_other m _ p data k (.inr (.inl (by simp)))
  have hmid : ((Mem.load (Mem.store m (p.plus k) data) p n).drop k).take data.length = data := by
    rw [Mem.load_slice _ _ _ _ _ h, Mem.load_store _ _ _ _ rfl]
  have hright : (Mem.load (Mem.store m (p.plus k) data) p n).drop (k + data.length) =
      (Mem.load m p n).drop (k + data.length) := by
    have hs := Mem.load_slice (Mem.store m (p.plus k) data) p n (k + data.length)
      (n - (k + data.length)) (by omega)
    have ht := Mem.load_slice m p n (k + data.length) (n - (k + data.length)) (by omega)
    rw [List.take_of_length_le (by simp)] at hs ht
    rw [hs, ht]
    exact Mem.load_store_other m _ _ data _ (.inr (.inr (by simp [Nat.add_assoc])))
  rw [hsplit (Mem.load (Mem.store m (p.plus k) data) p n), hleft, hmid, hright]

-- A memory in which every cell of one object holds the same value.
def Mem.fill (m : Mem α) (block : Nat) (x : α) : Mem α := fun p => if p.block = block then x else m p

theorem Mem.load_fill_other (m : Mem α) (p : Loc) (block n : Nat) (x : α) (h : p.block ≠ block) :
    Mem.load (Mem.fill m block x) p n = Mem.load m p n := by
  apply gather_congr
  intro i _
  simp [Mem.fill, h]

theorem Mem.load_fill (m : Mem α) (p : Loc) (n : Nat) (x : α) :
    Mem.load (Mem.fill m p.block x) p n = List.replicate n x := by
  rw [List.eq_replicate_iff]
  refine ⟨Mem.load_length _ _ _, fun y hy => ?_⟩
  obtain ⟨i, _, rfl⟩ := List.mem_map.mp hy
  simp [Mem.fill]

-- What the addresses of a process stand for, and what may be done at them.
structure Space where
  byteAt : Nat → Loc
  readable : Nat → Bool
  writable : Nat → Bool

def Space.copyFrom (sp : Space) (m : Mem α) (addr n : Nat) : Option (List α) :=
  if (List.range n).all fun i => sp.readable (addr + i) then
    some (gather m (fun i => sp.byteAt (addr + i)) n)
  else none

def Space.copyTo (sp : Space) (m : Mem α) (addr : Nat) (data : List α) : Option (Mem α) :=
  if (List.range data.length).all fun i => sp.writable (addr + i) then
    some (scatter m (fun i => sp.byteAt (addr + i)) data)
  else none

-- What a copy leaves that stops at the first address it may not write.
def Space.copyPart (sp : Space) (m : Mem α) (addr : Nat) (data : List α) : Mem α :=
  scatter m (fun i => sp.byteAt (addr + i))
    (data.take ((List.range data.length).takeWhile fun i => sp.writable (addr + i)).length)

theorem lt_takeWhile {β : Type*} (p : β → Bool) (l : List β) (i : Nat) :
    i < (l.takeWhile p).length ↔ i < l.length ∧ ∀ j (hj : j < l.length), j ≤ i → p l[j] = true := by
  induction l generalizing i with
  | nil => simp
  | cons x xs ih =>
      cases hx : p x with
      | false =>
          simp only [List.takeWhile_cons, hx, Bool.false_eq_true, if_false, List.length_nil,
            Nat.not_lt_zero, false_iff, not_and]
          intro _ hall
          have := hall 0 (by simp) (by omega)
          rw [List.getElem_cons_zero, hx] at this
          cases this
      | true =>
          simp only [List.takeWhile_cons, hx, if_true, List.length_cons]
          cases i with
          | zero =>
              constructor
              · intro _
                refine ⟨by omega, fun j hj hle => ?_⟩
                obtain rfl : j = 0 := by omega
                exact hx
              · omega
          | succ i =>
              rw [Nat.add_lt_add_iff_right, ih]
              constructor
              · rintro ⟨hi, hall⟩
                refine ⟨by omega, fun j hj hle => ?_⟩
                cases j with
                | zero => exact hx
                | succ j => exact hall j (by simpa using hj) (by omega)
              · rintro ⟨hi, hall⟩
                exact ⟨by omega, fun j hj hle => hall (j + 1) (by simpa using hj) (by omega)⟩

-- Of a copy of equal values that changes nothing they are there already.
theorem Space.copyPart_replicate (sp : Space) (m : Mem α) (addr n : Nat) (x : α) :
    sp.copyPart m addr (List.replicate n x) = m ↔
      ∀ i < n, (∀ j ≤ i, sp.writable (addr + j) = true) → m (sp.byteAt (addr + i)) = x := by
  have hlt : ∀ i, i < ((List.range n).takeWhile fun i => sp.writable (addr + i)).length ↔
      i < n ∧ ∀ j ≤ i, sp.writable (addr + j) = true := by
    intro i
    rw [lt_takeWhile]
    simp only [List.length_range, List.getElem_range]
    constructor
    · rintro ⟨hi, hall⟩
      exact ⟨hi, fun j hj => hall j (by omega) hj⟩
    · rintro ⟨hi, hall⟩
      exact ⟨hi, fun j _ hj => hall j hj⟩
  have hle : ((List.range n).takeWhile fun i => sp.writable (addr + i)).length ≤ n := by
    have hsub := List.takeWhile_sublist (l := List.range n) fun i => sp.writable (addr + i)
    simpa using hsub.length_le
  unfold Space.copyPart
  rw [List.length_replicate, List.take_replicate, Nat.min_eq_left hle]
  generalize ((List.range n).takeWhile fun i => sp.writable (addr + i)).length = k at hlt hle
  rw [scatter_replicate]
  constructor
  · exact fun h i hi hall => h i ((hlt i).mpr ⟨hi, hall⟩)
  · exact fun h i hi => h i ((hlt i).mp hi).1 ((hlt i).mp hi).2

theorem Space.copyPart_all (sp : Space) (m m' : Mem α) (addr : Nat) (data : List α)
    (h : sp.copyTo m addr data = some m') : sp.copyPart m addr data = m' := by
  unfold Space.copyTo at h
  split_ifs at h with hall
  cases h
  have hwhile : (List.range data.length).takeWhile (fun i => sp.writable (addr + i)) =
      List.range data.length :=
    List.takeWhile_eq_self_iff.mpr fun i hi => List.all_eq_true.mp hall i hi
  rw [Space.copyPart, hwhile, List.length_range, List.take_length]

theorem Space.copyTo_isSome (sp : Space) (m : Mem α) (addr : Nat) (data : List α) :
    (sp.copyTo m addr data).isSome = true ↔ ∀ i < data.length, sp.writable (addr + i) = true := by
  unfold Space.copyTo
  split_ifs with hall
  · simpa using hall
  · simpa using hall

-- A part of what can be copied can be copied by itself.
theorem Space.copyFrom_slice (sp : Space) (m : Mem α) (addr n k len : Nat) (data : List α)
    (h : sp.copyFrom m addr n = some data) (hk : k + len ≤ n) :
    sp.copyFrom m (addr + k) len = some ((data.drop k).take len) := by
  unfold Space.copyFrom at h ⊢
  by_cases hall : ((List.range n).all fun i => sp.readable (addr + i)) = true
  · rw [if_pos hall, Option.some.injEq] at h
    rw [List.all_eq_true] at hall
    have hpart : ((List.range len).all fun i => sp.readable (addr + k + i)) = true := by
      rw [List.all_eq_true]
      intro i hi
      have hi := List.mem_range.mp hi
      rw [Nat.add_assoc]
      exact hall (k + i) (List.mem_range.mpr (by omega))
    rw [if_pos hpart, ← h, gather_slice m _ n k len hk]
    simp only [Nat.add_assoc]
  · rw [if_neg hall] at h
    cases h

theorem Space.copyFrom_gather (sp : Space) (m : Mem α) (addr n : Nat) (data : List α)
    (h : sp.copyFrom m addr n = some data) : gather m (fun i => sp.byteAt (addr + i)) n = data := by
  unfold Space.copyFrom at h
  split_ifs at h
  exact Option.some.inj h

theorem Space.copyFrom_length (sp : Space) (m : Mem α) (addr n : Nat) (data : List α)
    (h : sp.copyFrom m addr n = some data) : data.length = n := by
  unfold Space.copyFrom at h
  split_ifs at h
  cases h
  exact gather_length _ _ n

-- A range of addresses at which cells of one object are found in order.
structure Space.Maps (sp : Space) (addr : Nat) (p : Loc) (n : Nat) : Prop where
  byteAt : ∀ i < n, sp.byteAt (addr + i) = p.plus i
  readable : ∀ i < n, sp.readable (addr + i) = true
  writable : ∀ i < n, sp.writable (addr + i) = true

theorem Space.Maps.sub {sp : Space} {addr n : Nat} {p : Loc} (h : sp.Maps addr p n) (k len : Nat)
    (hk : k + len ≤ n) : sp.Maps (addr + k) (p.plus k) len where
  byteAt := fun i hi => by rw [Nat.add_assoc, h.byteAt (k + i) (by omega), Loc.plus_plus]
  readable := fun i hi => by rw [Nat.add_assoc, h.readable (k + i) (by omega)]
  writable := fun i hi => by rw [Nat.add_assoc, h.writable (k + i) (by omega)]

theorem Space.Maps.copyFrom {sp : Space} {addr n : Nat} {p : Loc} (h : sp.Maps addr p n)
    (m : Mem α) : sp.copyFrom m addr n = some (Mem.load m p n) := by
  have hall : ((List.range n).all fun i => sp.readable (addr + i)) = true := by
    rw [List.all_eq_true]
    intro i hi
    exact h.readable i (List.mem_range.mp hi)
  rw [Space.copyFrom, if_pos hall]
  congr 1
  apply gather_congr
  intro i hi
  rw [h.byteAt i hi]

theorem Space.Maps.copyTo {sp : Space} {addr n : Nat} {p : Loc} (h : sp.Maps addr p n)
    (m : Mem α) (data : List α) (hlen : data.length = n) :
    sp.copyTo m addr data = some (Mem.store m p data) := by
  subst hlen
  have hall : ((List.range data.length).all fun i => sp.writable (addr + i)) = true := by
    rw [List.all_eq_true]
    intro i hi
    exact h.writable i (List.mem_range.mp hi)
  rw [Space.copyTo, if_pos hall]
  congr 1
  exact scatter_congr m _ _ data fun i hi => h.byteAt i hi

end CryptodevChat.Lib
