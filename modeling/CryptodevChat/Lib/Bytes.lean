import Mathlib.Data.List.Basic
import Mathlib.Tactic.Ring

namespace CryptodevChat.Lib

abbrev Byte := UInt8

-- The low `width` bytes of a number, least significant first.
def le : Nat → Nat → List Byte
  | 0, _ => []
  | width + 1, n => UInt8.ofNat n :: le width (n / 256)

def fromLe : List Byte → Nat
  | [] => 0
  | byte :: rest => byte.toNat + 256 * fromLe rest

-- Network order is the reverse of the little-endian order.
def be (width n : Nat) : List Byte := (le width n).reverse

def fromBe (bytes : List Byte) : Nat := fromLe bytes.reverse

@[simp] theorem le_length (width n : Nat) : (le width n).length = width := by
  induction width generalizing n with
  | zero => rfl
  | succ width ih => simp [le, ih]

@[simp] theorem be_length (width n : Nat) : (be width n).length = width := by simp [be]

theorem fromLe_le (width n : Nat) : fromLe (le width n) = n % 256 ^ width := by
  induction width generalizing n with
  | zero => simp [le, fromLe, Nat.mod_one]
  | succ width ih =>
      have hbyte : (UInt8.ofNat n).toNat = n % 256 := by simp
      rw [le, fromLe, ih, hbyte, Nat.pow_succ', Nat.mod_mul]

theorem fromLe_lt (bytes : List Byte) : fromLe bytes < 256 ^ bytes.length := by
  induction bytes with
  | nil => simp [fromLe]
  | cons byte rest ih =>
      have hb : byte.toNat < 256 := byte.toNat_lt
      simp only [fromLe, List.length_cons, Nat.pow_succ']
      omega

theorem le_fromLe (bytes : List Byte) : le bytes.length (fromLe bytes) = bytes := by
  induction bytes with
  | nil => rfl
  | cons byte rest ih =>
      have hb : byte.toNat < 256 := byte.toNat_lt
      have hlow : UInt8.ofNat (byte.toNat + 256 * fromLe rest) = byte := by
        apply UInt8.toNat_inj.mp
        simp
      have hhigh : (byte.toNat + 256 * fromLe rest) / 256 = fromLe rest := by omega
      simp only [List.length_cons, fromLe, le, hlow, hhigh, ih]

theorem fromBe_be (width n : Nat) : fromBe (be width n) = n % 256 ^ width := by
  simp [fromBe, be, fromLe_le]

theorem fromBe_lt (bytes : List Byte) : fromBe bytes < 256 ^ bytes.length := by
  simpa [fromBe] using fromLe_lt bytes.reverse

theorem be_fromBe (bytes : List Byte) : be bytes.length (fromBe bytes) = bytes := by
  have h := le_fromLe bytes.reverse
  rw [List.length_reverse] at h
  rw [be, fromBe, h, List.reverse_reverse]

-- A four-byte int in two's complement.
def leInt (i : Int) : List Byte := le 4 (i % 0x100000000).toNat

def fromLeInt (bytes : List Byte) : Int :=
  if fromLe bytes < 0x80000000 then fromLe bytes else fromLe bytes - 0x100000000

@[simp] theorem leInt_length (i : Int) : (leInt i).length = 4 := le_length 4 _

theorem fromLeInt_leInt (i : Int) (hlo : -0x80000000 ≤ i) (hhi : i < 0x80000000) :
    fromLeInt (leInt i) = i := by
  have hlt : (i % 0x100000000).toNat < 256 ^ 4 := by omega
  have hcast : ((fromLe (leInt i) : Nat) : Int) = i % 0x100000000 := by
    rw [leInt, fromLe_le, Nat.mod_eq_of_lt hlt, Int.toNat_of_nonneg (by omega)]
  unfold fromLeInt
  split_ifs <;> omega

end CryptodevChat.Lib
