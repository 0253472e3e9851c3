import CryptodevChat.Lib.Memory

namespace CryptodevChat.Lib

variable {ν ι α : Type*}

section Splice

-- A list of which a stretch has been replaced.
def splice (l : List α) (off : Nat) (data : List α) : List α :=
  l.take off ++ data ++ l.drop (off + data.length)

variable (l data : List α) (off k n : Nat)

theorem splice_length (h : off + data.length ≤ l.length) : (splice l off data).length = l.length := by
  simp only [splice, List.length_append, List.length_take, List.length_drop]
  omega

theorem splice_all (h : data.length = l.length) : splice l 0 data = data := by
  simp [splice, h]

-- The stretch holds the new values.
theorem slice_splice_self (h : off + data.length ≤ l.length) :
    ((splice l off data).drop off).take data.length = data := by
  have hlen : (l.take off).length = off := by
    rw [List.length_take]
    omega
  rw [splice, List.append_assoc, List.drop_left' hlen, List.take_left' rfl]

theorem getElem?_splice (h : off + data.length ≤ l.length) (i : Nat) :
    (splice l off data)[i]? = if off ≤ i ∧ i < off + data.length then data[i - off]? else l[i]? := by
  have hlen : (l.take off).length = off := by
    rw [List.length_take]
    omega
  unfold splice
  by_cases hbefore : i < off
  · rw [if_neg (by omega), List.append_assoc, List.getElem?_append_left (by omega), List.getElem?_take,
      if_pos hbefore]
  · by_cases hin : i < off + data.length
    · rw [if_pos ⟨by omega, hin⟩, List.getElem?_append_left (by rw [List.length_append]; omega),
        List.getElem?_append_right (by omega), hlen]
    · rw [if_neg (by omega), List.getElem?_append_right (by rw [List.length_append]; omega),
        List.length_append, hlen, List.getElem?_drop]
      congr 1
      omega

-- Beside it everything is as it was.
theorem slice_splice_other (h : off + data.length ≤ l.length) (hapart : k + n ≤ off ∨ off + data.length ≤ k) :
    ((splice l off data).drop k).take n = (l.drop k).take n := by
  apply List.ext_getElem?
  intro i
  rw [List.getElem?_take, List.getElem?_take]
  by_cases hi : i < n
  · rw [if_pos hi, if_pos hi, List.getElem?_drop, List.getElem?_drop, getElem?_splice l data off h,
      if_neg (by omega)]
  · rw [if_neg hi, if_neg hi]

-- One value after another.
theorem splice_fill (full : List α) (x : α) (hx : full[off]? = some x) :
    splice (full.take off ++ l.drop off) off [x] = full.take (off + 1) ++ l.drop (off + 1) := by
  obtain ⟨hlt, rfl⟩ := List.getElem?_eq_some_iff.mp hx
  have hfirst : (full.take off).length = off := by
    rw [List.length_take]
    omega
  rw [splice, List.take_left' hfirst, List.length_singleton, List.take_succ_eq_append_getElem hlt,
    List.drop_append, hfirst, List.drop_of_length_le (by omega), List.nil_append, List.drop_drop]
  congr 2
  omega

end Splice

section Places

variable [DecidableEq ι]

theorem gather_scatter_inside (m : ι → α) (place : Nat → ι) (data : List α) (k n : Nat)
    (h : k + data.length ≤ n) (hinj : ∀ i < n, ∀ j < n, place i = place j → i = j) :
    gather (scatter m (fun i => place (k + i)) data) place n = splice (gather m place n) k data := by
  have hlen := splice_length (gather m place n) data k (by rwa [gather_length])
  apply List.ext_getElem
  · rw [hlen, gather_length, gather_length]
  intro i hi _
  rw [gather_length] at hi
  have hget := getElem?_splice (gather m place n) data k (by rwa [gather_length]) i
  rw [List.getElem?_eq_getElem (by rwa [hlen, gather_length])] at hget
  apply Option.some.inj
  rw [hget]
  simp only [gather, List.getElem_map, List.getElem_range, List.getElem?_map, List.getElem?_range hi,
    Option.map_some]
  by_cases hin : k ≤ i ∧ i < k + data.length
  · obtain ⟨j, rfl⟩ := Nat.exists_eq_add_of_le hin.1
    have hj : j < data.length := by omega
    rw [if_pos hin, Nat.add_sub_cancel_left, List.getElem?_eq_getElem hj]
    refine congrArg some (scatter_self m (fun i => place (k + i)) data (fun a ha b hb he => ?_) j hj)
    have := hinj (k + a) (by omega) (k + b) (by omega) he
    omega
  · rw [if_neg hin, scatter_other]
    intro j hj he
    have := hinj (k + j) (by omega) i hi he
    omega

end Places

section Objects

def Space.read (sp : Space) (m : Mem α) (addr n : Nat) : List α := gather m (fun i => sp.byteAt (addr + i)) n

def Space.write (sp : Space) (m : Mem α) (addr : Nat) (data : List α) : Mem α :=
  scatter m (fun i => sp.byteAt (addr + i)) data

-- The variables of a program, each at an address.
structure Objects (ν : Type*) where
  addr : ν → Nat
  size : ν → Nat

-- In a process they are apart from each other, and can be read and written.
structure Objects.Placed (o : Objects ν) (sp : Space) : Prop where
  apart : ∀ x i y j, i < o.size x → j < o.size y →
    sp.byteAt (o.addr x + i) = sp.byteAt (o.addr y + j) → x = y ∧ i = j
  readable : ∀ x i, i < o.size x → sp.readable (o.addr x + i) = true
  writable : ∀ x i, i < o.size x → sp.writable (o.addr x + i) = true

def Objects.val (o : Objects ν) (sp : Space) (m : Mem α) (x : ν) : List α := sp.read m (o.addr x) (o.size x)

variable {o : Objects ν} {sp : Space} (m : Mem α) (x y : ν) (off n : Nat) (data : List α)

@[simp] theorem Objects.val_length : (o.val sp m x).length = o.size x := gather_length ..

theorem Objects.read_part (h : off + n ≤ o.size x) :
    sp.read m (o.addr x + off) n = ((o.val sp m x).drop off).take n := by
  unfold Objects.val Space.read
  rw [gather_slice m _ (o.size x) off n h]
  simp only [Nat.add_assoc]

theorem Objects.read_all : sp.read m (o.addr x) (o.size x) = o.val sp m x := rfl

section Placed

variable (hp : o.Placed sp)
include hp

theorem Objects.Placed.val_write_self (h : off + data.length ≤ o.size x) :
    o.val sp (sp.write m (o.addr x + off) data) x = splice (o.val sp m x) off data := by
  have hin := gather_scatter_inside m (fun i => sp.byteAt (o.addr x + i)) data off (o.size x) h
    fun i hi j hj he => (hp.apart x i x j hi hj he).2
  simpa only [Objects.val, Space.read, Space.write, Nat.add_assoc] using hin

theorem Objects.Placed.val_write_other (h : off + data.length ≤ o.size x) (hne : y ≠ x) :
    o.val sp (sp.write m (o.addr x + off) data) y = o.val sp m y := by
  apply gather_congr
  intro i hi
  apply scatter_other
  intro j hj he
  rw [Nat.add_assoc] at he
  exact hne (hp.apart x (off + j) y i (by omega) hi he).1.symm

-- Cells that belong to one variable belong to no other.
theorem Objects.Placed.val_congr (m' : Mem α) (hne : y ≠ x)
    (h : ∀ p, (∀ i < o.size x, sp.byteAt (o.addr x + i) ≠ p) → m' p = m p) :
    o.val sp m' y = o.val sp m y := by
  apply gather_congr
  intro i hi
  exact h _ fun j hj he => hne (hp.apart x j y i hj hi he).1.symm

theorem Objects.Placed.copyFrom (h : off + n ≤ o.size x) :
    sp.copyFrom m (o.addr x + off) n = some (((o.val sp m x).drop off).take n) := by
  have hall : ((List.range n).all fun i => sp.readable (o.addr x + off + i)) = true := by
    rw [List.all_eq_true]
    intro i hi
    have hi := List.mem_range.mp hi
    rw [Nat.add_assoc]
    exact hp.readable x _ (by omega)
  rw [Space.copyFrom, if_pos hall, ← o.read_part m x off n h]
  rfl

theorem Objects.Placed.copyFrom_all : sp.copyFrom m (o.addr x) (o.size x) = some (o.val sp m x) := by
  have h := hp.copyFrom m x 0 (o.size x) (by omega)
  rwa [List.drop_zero, List.take_of_length_le (by simp)] at h

end Placed

theorem Space.copyTo_write (sp : Space) (m m' : Mem α) (addr : Nat) (data : List α)
    (h : sp.copyTo m addr data = some m') : m' = sp.write m addr data := by
  unfold Space.copyTo at h
  split_ifs at h
  cases h
  rfl

end Objects

end CryptodevChat.Lib
