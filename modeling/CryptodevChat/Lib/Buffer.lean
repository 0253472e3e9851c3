import Mathlib.Data.List.Basic

namespace CryptodevChat.Lib

variable {α : Type*}

-- An object of fixed size is the list of its cells. A range is read or
-- written whole, and only when it lies inside the object.
def load (cells : List α) (off len : Nat) : Option (List α) :=
  if off + len ≤ cells.length then some ((cells.drop off).take len) else none

def store (cells : List α) (off : Nat) (data : List α) : Option (List α) :=
  if off + data.length ≤ cells.length then
    some (cells.take off ++ data ++ cells.drop (off + data.length))
  else none

theorem load_eq_some (cells : List α) (off len : Nat) (h : off + len ≤ cells.length) :
    load cells off len = some ((cells.drop off).take len) := if_pos h

theorem load_eq_none (cells : List α) (off len : Nat) (h : cells.length < off + len) :
    load cells off len = none := if_neg (by omega)

theorem load_length (cells data : List α) (off len : Nat) (h : load cells off len = some data) :
    data.length = len := by
  have hb : off + len ≤ cells.length := by
    by_contra hn
    rw [load_eq_none cells off len (by omega)] at h
    cases h
  rw [load_eq_some cells off len hb] at h
  cases h
  simp only [List.length_take, List.length_drop]
  omega

theorem store_eq_some (cells : List α) (off : Nat) (data : List α)
    (h : off + data.length ≤ cells.length) :
    store cells off data = some (cells.take off ++ data ++ cells.drop (off + data.length)) :=
  if_pos h

theorem store_eq_none (cells : List α) (off : Nat) (data : List α)
    (h : cells.length < off + data.length) : store cells off data = none := if_neg (by omega)

theorem store_bound (cells next : List α) (off : Nat) (data : List α)
    (h : store cells off data = some next) : off + data.length ≤ cells.length := by
  by_contra hn
  rw [store_eq_none cells off data (by omega)] at h
  cases h

theorem store_length (cells next : List α) (off : Nat) (data : List α)
    (h : store cells off data = some next) : next.length = cells.length := by
  have hb := store_bound cells next off data h
  rw [store_eq_some cells off data hb] at h
  cases h
  simp only [List.length_append, List.length_take, List.length_drop]
  omega

@[simp] theorem store_nil (cells : List α) (off : Nat) (h : off ≤ cells.length) :
    store cells off [] = some cells := by
  simp [store, h]

-- What was stored is read back.
theorem load_store (cells next : List α) (off : Nat) (data : List α)
    (h : store cells off data = some next) : load next off data.length = some data := by
  have hb := store_bound cells next off data h
  have hl := store_length cells next off data h
  rw [load_eq_some next off data.length (by omega)]
  rw [store_eq_some cells off data hb] at h
  cases h
  have ht : (cells.take off).length = off := by simp; omega
  rw [List.append_assoc, List.drop_append_of_le_length (by omega), List.drop_of_length_le (by omega),
    List.nil_append, List.take_left']
  rfl

-- Storing as many cells as there are replaces them all.
theorem store_all (cells next data : List α) (h : store cells 0 data = some next)
    (hlen : data.length = cells.length) : next = data := by
  rw [store_eq_some cells 0 data (by omega)] at h
  cases h
  simp [hlen]

-- The cells up to the end of a stored range.
theorem take_store_add (cells next : List α) (off : Nat) (data : List α)
    (h : store cells off data = some next) :
    next.take (off + data.length) = cells.take off ++ data := by
  have hb := store_bound cells next off data h
  rw [store_eq_some cells off data hb] at h
  cases h
  have ht : (cells.take off ++ data).length = off + data.length := by simp; omega
  rw [List.take_left' ht]

-- Two adjacent stores are one store of the concatenation.
theorem store_store (cells next : List α) (off : Nat) (data more : List α)
    (h : store cells off data = some next) :
    store next (off + data.length) more = store cells off (data ++ more) := by
  have hb := store_bound cells next off data h
  have hl := store_length cells next off data h
  by_cases hm : off + data.length + more.length ≤ cells.length
  · rw [store_eq_some next _ more (by omega),
      store_eq_some cells off (data ++ more) (by simp only [List.length_append]; omega)]
    rw [store_eq_some cells off data hb] at h
    cases h
    have ht : (cells.take off ++ data).length = off + data.length := by simp; omega
    congr 1
    rw [List.take_left' ht, List.drop_append, ht, List.drop_of_length_le (by omega)]
    simp only [List.length_append, List.drop_drop, List.nil_append, List.append_assoc]
    congr 3
    congr 1
    omega
  · rw [store_eq_none next _ more (by omega),
      store_eq_none cells off (data ++ more) (by simp only [List.length_append]; omega)]

-- A store leaves the cells on both sides alone.
theorem store_outside (cells next : List α) (off i : Nat) (data : List α)
    (h : store cells off data = some next) (hi : i < off ∨ off + data.length ≤ i) :
    next[i]? = cells[i]? := by
  have hb := store_bound cells next off data h
  rw [store_eq_some cells off data hb] at h
  cases h
  have ht : (cells.take off).length = off := by simp; omega
  rcases hi with hi | hi
  · rw [List.append_assoc, List.getElem?_append_left (by omega), List.getElem?_take_of_lt hi]
  · rw [List.getElem?_append_right (by simp only [List.length_append]; omega), List.getElem?_drop]
    congr 1
    simp only [List.length_append]
    omega

-- A part of an object that lies inside it.
structure Slice (α : Type*) where
  cells : List α
  off : Nat
  len : Nat
  inside : off + len ≤ cells.length

def Slice.data (b : Slice α) : List α := (b.cells.drop b.off).take b.len

@[simp] theorem Slice.data_length (b : Slice α) : b.data.length = b.len := by
  have hb := b.inside
  simp only [Slice.data, List.length_take, List.length_drop]
  omega

theorem Slice.load_data (b : Slice α) (moved n : Nat) (h : moved + n ≤ b.len) :
    load b.cells (b.off + moved) n = some ((b.data.drop moved).take n) := by
  have hb := b.inside
  rw [load_eq_some b.cells (b.off + moved) n (by omega)]
  simp only [Slice.data, List.drop_take, List.take_take, List.drop_drop]
  rw [Nat.min_eq_left (by omega)]

end CryptodevChat.Lib
