import CryptodevChat.User.Variables

namespace CryptodevChat.User

open Lib (Byte le fromLe le_length splice splice_length)
open Virtio

section Fields

variable (l data : List Byte) (off k n : Nat)

theorem field_splice_self (h : off + data.length ≤ l.length) :
    field (splice l off data) off data.length = fromLe data := by
  rw [field, Lib.slice_splice_self l data off h]

theorem field_splice_other (h : off + data.length ≤ l.length) (hapart : k + n ≤ off ∨ off + data.length ≤ k) :
    field (splice l off data) k n = field l k n := by
  rw [field, Lib.slice_splice_other l data off k n h hapart, field]

-- A number that is stored in a field is read from it.
theorem field_store (width : Nat) (h : off + width ≤ l.length) (hn : n < 256 ^ width) :
    field (splice l off (le width n)) off width = n := by
  have hself := field_splice_self l (le width n) off (by rwa [le_length])
  rw [le_length, Lib.fromLe_le, Nat.mod_eq_of_lt hn] at hself
  exact hself

-- And the other fields are as they were.
theorem field_store_other (width x : Nat) (h : off + width ≤ l.length) (hapart : k + n ≤ off ∨ off + width ≤ k) :
    field (splice l off (le width x)) k n = field l k n :=
  field_splice_other l _ off k n (by rwa [le_length]) (by rwa [le_length])

end Fields

section Session

variable (l : List Byte) (x : Nat) (h : l.length = SESSION_OP_SIZE)
include h

theorem parse_store_cipher (hx : x < 256 ^ 4) :
    SessionOp.parse (splice l 0 (le 4 x)) = { SessionOp.parse l with cipher := x } := by
  unfold SESSION_OP_SIZE at h
  simp only [SessionOp.parse, LEN_OFF, KEY_OFF, MACKEY_OFF, SES_OFF]
  rw [field_store l 0 x 4 (by omega) hx]
  congr 1 <;> exact field_store_other l _ _ _ _ x (by omega) (by omega)

theorem parse_store_keylen (hx : x < 256 ^ 4) :
    SessionOp.parse (splice l LEN_OFF (le 4 x)) = { SessionOp.parse l with keylen := x } := by
  unfold SESSION_OP_SIZE at h
  simp only [SessionOp.parse, LEN_OFF, KEY_OFF, MACKEY_OFF, SES_OFF]
  rw [field_store l 8 x 4 (by omega) hx]
  congr 1 <;> exact field_store_other l _ _ _ _ x (by omega) (by omega)

theorem parse_store_key (hx : x < 256 ^ 8) :
    SessionOp.parse (splice l KEY_OFF (le 8 x)) = { SessionOp.parse l with key := x } := by
  unfold SESSION_OP_SIZE at h
  simp only [SessionOp.parse, LEN_OFF, KEY_OFF, MACKEY_OFF, SES_OFF]
  rw [field_store l 16 x 8 (by omega) hx]
  congr 1 <;> exact field_store_other l _ _ _ _ x (by omega) (by omega)

end Session

section Crypt

variable (l : List Byte) (x : Nat) (h : l.length = CRYPT_OP_SIZE)
include h

-- One field of a `crypt_op` that is stored.
theorem parse_store_ses (hx : x < 256 ^ 4) :
    CryptOp.parse (splice l 0 (le 4 x)) = { CryptOp.parse l with ses := x } := by
  unfold CRYPT_OP_SIZE at h
  simp only [CryptOp.parse, LEN_OFF, SRC_OFF, DST_OFF, MAC_OFF, IV_OFF]
  rw [field_store l 0 x 4 (by omega) hx]
  congr 1 <;> exact field_store_other l _ _ _ _ x (by omega) (by omega)

theorem parse_store_op (hx : x < 256 ^ 2) :
    CryptOp.parse (splice l 4 (le 2 x)) = { CryptOp.parse l with op := x } := by
  unfold CRYPT_OP_SIZE at h
  simp only [CryptOp.parse, LEN_OFF, SRC_OFF, DST_OFF, MAC_OFF, IV_OFF]
  rw [field_store l 4 x 2 (by omega) hx]
  congr 1 <;> exact field_store_other l _ _ _ _ x (by omega) (by omega)

theorem parse_store_len (hx : x < 256 ^ 4) :
    CryptOp.parse (splice l LEN_OFF (le 4 x)) = { CryptOp.parse l with len := x } := by
  unfold CRYPT_OP_SIZE at h
  simp only [CryptOp.parse, LEN_OFF, SRC_OFF, DST_OFF, MAC_OFF, IV_OFF]
  rw [field_store l 8 x 4 (by omega) hx]
  congr 1 <;> exact field_store_other l _ _ _ _ x (by omega) (by omega)

theorem parse_store_src (hx : x < 256 ^ 8) :
    CryptOp.parse (splice l SRC_OFF (le 8 x)) = { CryptOp.parse l with src := x } := by
  unfold CRYPT_OP_SIZE at h
  simp only [CryptOp.parse, LEN_OFF, SRC_OFF, DST_OFF, MAC_OFF, IV_OFF]
  rw [field_store l 16 x 8 (by omega) hx]
  congr 1 <;> exact field_store_other l _ _ _ _ x (by omega) (by omega)

theorem parse_store_dst (hx : x < 256 ^ 8) :
    CryptOp.parse (splice l DST_OFF (le 8 x)) = { CryptOp.parse l with dst := x } := by
  unfold CRYPT_OP_SIZE at h
  simp only [CryptOp.parse, LEN_OFF, SRC_OFF, DST_OFF, MAC_OFF, IV_OFF]
  rw [field_store l 24 x 8 (by omega) hx]
  congr 1 <;> exact field_store_other l _ _ _ _ x (by omega) (by omega)

theorem parse_store_iv (hx : x < 256 ^ 8) :
    CryptOp.parse (splice l IV_OFF (le 8 x)) = { CryptOp.parse l with iv := x } := by
  unfold CRYPT_OP_SIZE at h
  simp only [CryptOp.parse, LEN_OFF, SRC_OFF, DST_OFF, MAC_OFF, IV_OFF]
  rw [field_store l 40 x 8 (by omega) hx]
  congr 1 <;> exact field_store_other l _ _ _ _ x (by omega) (by omega)

end Crypt

end CryptodevChat.User
