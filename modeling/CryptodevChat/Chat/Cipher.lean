import CryptodevChat.Chat.Transfer
import Mathlib.Logic.Equiv.Basic

namespace CryptodevChat.Chat

open Lib

-- A device whose calls succeed and for which, with the fixed key and
-- initialization vector, decryption undoes encryption on every block.
structure Cipher (dev : Cryptodev) where
  enc : List Byte → List Byte
  dec : List Byte → List Byte
  ses : Nat
  opens : dev.openDev = true
  session : dev.gsession CRYPTO_AES_CBC key = some ses
  encrypts : ∀ block, block.length = DATA_SIZE → dev.crypt ses COP_ENCRYPT block iv = some (enc block)
  decrypts : ∀ block, block.length = DATA_SIZE → dev.crypt ses COP_DECRYPT block iv = some (dec block)
  frees : dev.fsession ses = true
  closes : dev.closeDev = true
  enc_length : ∀ block, block.length = DATA_SIZE → (enc block).length = DATA_SIZE
  dec_length : ∀ block, block.length = DATA_SIZE → (dec block).length = DATA_SIZE
  dec_enc : ∀ block, block.length = DATA_SIZE → dec (enc block) = block

-- The block that `encrypt` hands to the device for a short message.
def pad (message : List Byte) : List Byte :=
  message ++ List.replicate (DATA_SIZE - message.length) 0x30

theorem pad_length (message : List Byte) (h : message.length ≤ DATA_SIZE) :
    (pad message).length = DATA_SIZE := by
  simp only [pad, List.length_append, List.length_replicate]
  omega

theorem take_pad (message : List Byte) : (pad message).take message.length = message := by
  simp [pad]

theorem Cipher.openSession_run {dev : Cryptodev} (c : Cipher dev) (w : World) :
    openSession dev w = .ok c.ses w := by
  simp [openSession, c.opens, c.session]

theorem Cipher.cryptBlock_run {dev : Cryptodev} (c : Cipher dev) (op : Nat)
    (src buffer dst : List Byte) (w : World) (hcrypt : dev.crypt c.ses op src iv = some dst)
    (hdst : dst.length = DATA_SIZE) (hbuf : DATA_SIZE ≤ buffer.length) :
    cryptBlock dev c.ses op src buffer w = .ok (dst ++ buffer.drop DATA_SIZE) w := by
  have hstore : store buffer 0 dst = some (dst ++ buffer.drop DATA_SIZE) := by
    rw [store_eq_some buffer 0 dst (by omega)]
    simp [hdst]
  simp only [cryptBlock, hcrypt]
  rw [bind_ok _ _ _ _ _ (poke_run _ _ _ _ _ hstore)]
  simp [c.frees, c.closes]

theorem decrypt_run (env : Env) (c : Cipher env.dev) (buffer : List Byte) (w : World)
    (hbuf : DATA_SIZE ≤ buffer.length) :
    decrypt env buffer w = .ok (c.dec (buffer.take DATA_SIZE) ++ buffer.drop DATA_SIZE) w := by
  have hlen : (buffer.take DATA_SIZE).length = DATA_SIZE := by simp; omega
  have hload : load buffer 0 DATA_SIZE = some (buffer.take DATA_SIZE) := by
    rw [load_eq_some buffer 0 DATA_SIZE (by omega)]; simp
  unfold decrypt
  rw [bind_ok _ _ _ _ _ (c.openSession_run w), bind_ok _ _ _ _ _ (peek_run _ _ _ _ _ hload)]
  exact c.cryptBlock_run _ _ _ _ _ (c.decrypts _ hlen) (c.dec_length _ hlen) hbuf

-- The first part of the buffer is padded to a block and replaced by its image.
theorem encrypt_run (env : Env) (c : Cipher env.dev) (buffer : List Byte) (encS : Nat) (w : World)
    (hbuf : DATA_SIZE ≤ buffer.length) (hs : encS ≤ DATA_SIZE) :
    encrypt env buffer encS w =
      .ok (c.enc (pad (buffer.take encS)) ++ buffer.drop DATA_SIZE) w := by
  have hlen : (buffer.take encS).length = encS := by simp; omega
  have hjunk := env.junk_length DATA_SIZE
  have hload : load buffer 0 encS = some (buffer.take encS) := by
    rw [load_eq_some buffer 0 encS (by omega)]; simp
  have hfirst : store (env.junk DATA_SIZE) 0 (buffer.take encS) =
      some (buffer.take encS ++ (env.junk DATA_SIZE).drop encS) := by
    rw [store_eq_some _ 0 _ (by omega)]; simp [hlen]
  have hsecond : store (buffer.take encS ++ (env.junk DATA_SIZE).drop encS) encS
      (List.replicate (DATA_SIZE - encS) 0x30) = some (pad (buffer.take encS)) := by
    rw [store_eq_some _ encS _ (by
      simp only [List.length_append, List.length_drop, List.length_replicate]
      omega)]
    rw [List.take_left' hlen, List.drop_of_length_le (by
      simp only [List.length_append, List.length_drop, List.length_replicate]
      omega), List.append_nil, pad, hlen]
  have hpad := pad_length (buffer.take encS) (by omega)
  unfold encrypt
  rw [bind_ok _ _ _ _ _ (c.openSession_run w), bind_ok _ _ _ _ _ (peek_run _ _ _ _ _ hload),
    bind_ok _ _ _ _ _ (poke_run _ _ _ _ _ hfirst),
    bind_ok _ _ _ _ _ (poke_run _ _ _ _ _ hsecond)]
  exact c.cryptBlock_run _ _ _ _ _ (c.encrypts _ hpad) (c.enc_length _ hpad) hbuf

-- Encrypting and decrypting a short message gives it back in front of the padding.
theorem Cipher.take_dec_enc_pad {dev : Cryptodev} (c : Cipher dev) (message : List Byte)
    (h : message.length ≤ DATA_SIZE) :
    (c.dec (c.enc (pad message))).take message.length = message := by
  rw [c.dec_enc _ (pad_length message h), take_pad]

-- A device whose encryption is a given permutation of the blocks.
def permDevice (σ : Equiv.Perm (List Byte)) : Cryptodev where
  openDev := true
  gsession := fun _ _ => some 1
  crypt := fun _ op src _ => some (if op = COP_ENCRYPT then σ src else σ.symm src)
  fsession := fun _ => true
  closeDev := true

def permCipher (σ : Equiv.Perm (List Byte)) (hlen : ∀ block, (σ block).length = block.length) :
    Cipher (permDevice σ) where
  enc := σ
  dec := σ.symm
  ses := 1
  opens := rfl
  session := rfl
  encrypts := fun _ _ => rfl
  decrypts := fun _ _ => rfl
  frees := rfl
  closes := rfl
  enc_length := fun block h => (hlen block).trans h
  dec_length := fun block h => by
    have := hlen (σ.symm block)
    rw [Equiv.apply_symm_apply] at this
    omega
  dec_enc := fun block _ => σ.symm_apply_apply block

theorem swap_length (x y block : List Byte) (h : x.length = y.length) :
    (Equiv.swap x y block).length = block.length := by
  rw [Equiv.swap_apply_def]
  split_ifs with hx hy
  · rw [hx, h]
  · rw [hy, h]
  · rfl

theorem display_run (buf message : List Byte) (off size : Nat) (w : World)
    (h : load buf off size = some message) (hr : (w.out 0).Reliable) :
    ∃ o, display buf off size w = .ok () (w.setOut 0 o) ∧
      o.sent = (w.out 0).sent ++ message ∧ o.Reliable := by
  have hlen := load_length buf message off size h
  obtain ⟨o, hw, hsent, hrel⟩ := insistWrite_full 0 message w hr
  refine ⟨o, ?_, hsent, hrel⟩
  unfold display
  rw [bind_ok _ _ _ _ _ (peek_run _ _ _ _ _ h), bind_ok _ _ _ _ _ hw]
  simp [hlen]

section Greeting

-- The padded frame of "me:hi\n", which announces six bytes of payload, and
-- its image under AES-128-CBC with the key and initialization vector of the source.
def greeting : List Byte := [
   0x00, 0x00, 0x00, 0x06, 0x6d, 0x65, 0x3a, 0x68, 0x69, 0x0a, 0x30, 0x30, 0x30, 0x30, 0x30, 0x30,
   0x30, 0x30, 0x30, 0x30, 0x30, 0x30, 0x30, 0x30, 0x30, 0x30, 0x30, 0x30, 0x30, 0x30, 0x30, 0x30,
   0x30, 0x30, 0x30, 0x30, 0x30, 0x30, 0x30, 0x30, 0x30, 0x30, 0x30, 0x30, 0x30, 0x30, 0x30, 0x30,
   0x30, 0x30, 0x30, 0x30, 0x30, 0x30, 0x30, 0x30, 0x30, 0x30, 0x30, 0x30, 0x30, 0x30, 0x30, 0x30,
   0x30, 0x30, 0x30, 0x30, 0x30, 0x30, 0x30, 0x30, 0x30, 0x30, 0x30, 0x30, 0x30, 0x30, 0x30, 0x30,
   0x30, 0x30, 0x30, 0x30, 0x30, 0x30, 0x30, 0x30, 0x30, 0x30, 0x30, 0x30, 0x30, 0x30, 0x30, 0x30,
   0x30, 0x30, 0x30, 0x30, 0x30, 0x30, 0x30, 0x30, 0x30, 0x30, 0x30, 0x30, 0x30, 0x30, 0x30, 0x30,
   0x30, 0x30, 0x30, 0x30, 0x30, 0x30, 0x30, 0x30, 0x30, 0x30, 0x30, 0x30, 0x30, 0x30, 0x30, 0x30,
   0x30, 0x30, 0x30, 0x30, 0x30, 0x30, 0x30, 0x30, 0x30, 0x30, 0x30, 0x30, 0x30, 0x30, 0x30, 0x30,
   0x30, 0x30, 0x30, 0x30, 0x30, 0x30, 0x30, 0x30, 0x30, 0x30, 0x30, 0x30, 0x30, 0x30, 0x30, 0x30,
   0x30, 0x30, 0x30, 0x30, 0x30, 0x30, 0x30, 0x30, 0x30, 0x30, 0x30, 0x30, 0x30, 0x30, 0x30, 0x30,
   0x30, 0x30, 0x30, 0x30, 0x30, 0x30, 0x30, 0x30, 0x30, 0x30, 0x30, 0x30, 0x30, 0x30, 0x30, 0x30,
   0x30, 0x30, 0x30, 0x30, 0x30, 0x30, 0x30, 0x30, 0x30, 0x30, 0x30, 0x30, 0x30, 0x30, 0x30, 0x30,
   0x30, 0x30, 0x30, 0x30, 0x30, 0x30, 0x30, 0x30, 0x30, 0x30, 0x30, 0x30, 0x30, 0x30, 0x30, 0x30,
   0x30, 0x30, 0x30, 0x30, 0x30, 0x30, 0x30, 0x30, 0x30, 0x30, 0x30, 0x30, 0x30, 0x30, 0x30, 0x30,
   0x30, 0x30, 0x30, 0x30, 0x30, 0x30, 0x30, 0x30, 0x30, 0x30, 0x30, 0x30, 0x30, 0x30, 0x30, 0x30]

-- Encrypted.
def greetingImage : List Byte := [
   0xd4, 0x61, 0x3a, 0x60, 0xf1, 0x2a, 0xa8, 0xe0, 0xe3, 0xa3, 0x66, 0xb0, 0xea, 0x00, 0xe7, 0x2d,
   0x11, 0xf0, 0x62, 0xcb, 0xed, 0x45, 0x74, 0x3c, 0x2d, 0xf0, 0xec, 0x74, 0x87, 0x22, 0x44, 0xc1,
   0x3b, 0xaf, 0x53, 0xd0, 0x37, 0x54, 0x36, 0x3e, 0x9c, 0x6a, 0x8e, 0x63, 0xce, 0x60, 0x9f, 0x5d,
   0x0e, 0x80, 0x84, 0xaa, 0xdf, 0xb0, 0x89, 0x35, 0xd9, 0xd3, 0x2d, 0xa6, 0x03, 0x29, 0x67, 0xd8,
   0x2c, 0x68, 0x99, 0xd1, 0xc4, 0xc0, 0x2d, 0x60, 0x66, 0x0c, 0x07, 0x78, 0x87, 0x29, 0xd8, 0xb7,
   0xb4, 0xbc, 0xf3, 0xa5, 0x5a, 0x03, 0xba, 0x9d, 0xde, 0x45, 0xdd, 0x8f, 0xb4, 0x21, 0x62, 0x9f,
   0xda, 0x7c, 0xf5, 0x13, 0x78, 0x56, 0xde, 0x8e, 0x7c, 0x03, 0x85, 0xf5, 0xcb, 0x26, 0x51, 0xba,
   0x11, 0xca, 0xd4, 0x33, 0x10, 0x20, 0xd7, 0x71, 0xb9, 0xba, 0xbc, 0xbc, 0x8f, 0xec, 0xc0, 0x38,
   0x7c, 0xc0, 0x27, 0x9d, 0x22, 0x35, 0x1a, 0x26, 0x02, 0x7a, 0xec, 0xd7, 0x7b, 0xaa, 0x02, 0x22,
   0x56, 0x7c, 0xf6, 0xce, 0x30, 0x03, 0x91, 0x96, 0x30, 0x98, 0x74, 0x01, 0xa7, 0x3f, 0x8b, 0x3d,
   0x7c, 0xed, 0xd8, 0x31, 0xbe, 0x37, 0x9c, 0x38, 0x8e, 0x6a, 0x25, 0xec, 0xb8, 0x7e, 0xbd, 0x1f,
   0xfb, 0x9b, 0x61, 0x44, 0x65, 0xec, 0x1b, 0x86, 0x3a, 0xfe, 0xf1, 0x91, 0x18, 0x57, 0x51, 0x32,
   0xa9, 0x2d, 0xff, 0x9c, 0x4f, 0xb5, 0x7a, 0xaf, 0x56, 0xbb, 0x58, 0x5a, 0xe2, 0x11, 0xdf, 0xec,
   0x41, 0x5f, 0x39, 0x65, 0x97, 0xc6, 0x18, 0x5e, 0xff, 0xbb, 0x9d, 0x17, 0xd8, 0xb9, 0xa6, 0x1c,
   0x10, 0x48, 0xe5, 0x03, 0x47, 0xf3, 0x23, 0x0e, 0x17, 0xa9, 0xc3, 0x78, 0x4b, 0x1b, 0x0c, 0x6f,
   0x0d, 0xed, 0x9c, 0x81, 0xdf, 0x00, 0x0a, 0x7c, 0xdc, 0xd8, 0x9a, 0x98, 0x4f, 0x5d, 0x78, 0x9b]

-- The first ten bytes of the image, padded and encrypted in their turn.
def greetingAgain : List Byte := [
   0xc3, 0xf6, 0x90, 0x8d, 0x8e, 0x58, 0xa4, 0x14, 0x87, 0x0b, 0xeb, 0xfb, 0x00, 0x7e, 0xe7, 0xd9,
   0xc9, 0x14, 0xc0, 0x22, 0x58, 0x62, 0xc5, 0xaa, 0x2a, 0x98, 0x90, 0x70, 0xaa, 0xfe, 0x13, 0x64,
   0x76, 0x2a, 0x8b, 0x3b, 0xf2, 0x7b, 0xd3, 0x66, 0x3b, 0xe9, 0x57, 0xbe, 0x26, 0xd3, 0xa0, 0x1f,
   0x70, 0x7f, 0x7f, 0x2c, 0x6a, 0x36, 0x84, 0x5b, 0x63, 0xdd, 0x48, 0x8c, 0xce, 0x6e, 0x4f, 0x47,
   0x0f, 0xc5, 0x1f, 0xa0, 0x67, 0x68, 0x27, 0x4e, 0x39, 0xe7, 0x36, 0xba, 0x22, 0x27, 0x3e, 0xef,
   0x3a, 0xeb, 0x2f, 0x2b, 0xa5, 0xb9, 0xc1, 0xc5, 0x97, 0x2c, 0xfe, 0x3f, 0x26, 0x29, 0xc0, 0x87,
   0xc7, 0xcc, 0xdf, 0x2a, 0x2e, 0xeb, 0xc9, 0xcc, 0x31, 0x4e, 0x9c, 0xbf, 0xba, 0x79, 0xbd, 0x42,
   0x50, 0x50, 0xa1, 0xf2, 0xcc, 0x27, 0x32, 0x2f, 0xbd, 0x3a, 0x62, 0x8e, 0xf6, 0x98, 0xc1, 0xf2,
   0xf8, 0x9e, 0x92, 0x95, 0x54, 0x13, 0x20, 0x13, 0xd6, 0xb7, 0x9b, 0x19, 0xd4, 0x2a, 0x25, 0xd3,
   0xe5, 0x17, 0xc1, 0xae, 0xfb, 0x29, 0x67, 0x4c, 0x32, 0xcb, 0x6b, 0x6e, 0xe5, 0x37, 0x8f, 0xd9,
   0x2b, 0x34, 0x9d, 0xb9, 0x54, 0xd7, 0xaf, 0x5c, 0xb2, 0xb2, 0x3c, 0xfa, 0x5e, 0xcd, 0x33, 0x1e,
   0xbc, 0x6a, 0x59, 0x3c, 0x52, 0xc0, 0x58, 0xad, 0x66, 0x41, 0x8a, 0xfe, 0xe4, 0xd2, 0x0e, 0x2a,
   0xd0, 0xc5, 0x7c, 0x38, 0x56, 0xc7, 0x53, 0xf5, 0xf3, 0xe2, 0x20, 0x1b, 0xee, 0x86, 0xbe, 0xa6,
   0x5e, 0xdf, 0x8d, 0xe0, 0x95, 0x1b, 0x32, 0x66, 0x3a, 0x4b, 0x1d, 0xfd, 0x8a, 0xb6, 0xc3, 0xf3,
   0xee, 0x46, 0x1d, 0xa3, 0xde, 0x2e, 0x7e, 0x67, 0x1e, 0x65, 0x70, 0x88, 0x00, 0xa2, 0x45, 0x4c,
   0x8d, 0xc9, 0x01, 0x2f, 0x94, 0x62, 0x56, 0x07, 0xbe, 0xb0, 0xe1, 0x77, 0xae, 0x85, 0x7e, 0xb9]

def greetingPerm : Equiv.Perm (List Byte) :=
  (Equiv.swap (pad (greetingImage.take 10)) greetingAgain).trans (Equiv.swap greeting greetingImage)

theorem greeting_length : greeting.length = DATA_SIZE ∧ greetingImage.length = DATA_SIZE ∧
    greetingAgain.length = DATA_SIZE ∧ pad (greeting.take 10) = greeting := by decide +kernel

theorem greeting_ne : greeting ≠ greetingImage ∧ greeting ≠ greetingAgain ∧
    greeting ≠ pad (greetingImage.take 10) ∧ greetingImage ≠ greetingAgain := by decide

theorem greetingPerm_length (block : List Byte) : (greetingPerm block).length = block.length := by
  obtain ⟨hg, hi, ha, _⟩ := greeting_length
  rw [greetingPerm, Equiv.trans_apply, swap_length _ _ _ (by rw [hg, hi]),
    swap_length _ _ _ (by rw [ha]; exact pad_length _ (by decide))]

theorem greetingPerm_greeting : greetingPerm greeting = greetingImage := by
  obtain ⟨_, hga, hgp, _⟩ := greeting_ne
  rw [greetingPerm, Equiv.trans_apply, Equiv.swap_apply_of_ne_of_ne hgp hga, Equiv.swap_apply_left]

theorem greetingPerm_symm : greetingPerm.symm greetingImage = greeting := by
  rw [← greetingPerm_greeting, Equiv.symm_apply_apply]

def greetingEnv : Env where
  encrypted := true
  dev := permDevice greetingPerm
  mallocs := fun _ => true
  junk := fun n => List.replicate n 0
  junk_length := fun _ => List.length_replicate

def greetingCipher : Cipher greetingEnv.dev := permCipher greetingPerm greetingPerm_length

end Greeting

end CryptodevChat.Chat
