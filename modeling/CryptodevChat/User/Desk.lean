import CryptodevChat.User.Accounts

namespace CryptodevChat.User

open Lib (Byte)
open Virtio

-- A host that keeps its sessions in tables.
structure Desk where
  tables : Int → Option (Nat → Option Session)
  next : Nat

variable (cipher : CipherOf) (hlen : ∀ session op iv block, (cipher session op iv block).length = block.length)

def deskHost : Host Desk where
  openDev := fun s =>
    if (s.tables s.next).isNone ∧ s.next < 0x80000000 then
      (s.next, ⟨Function.update s.tables s.next (some fun _ => none), s.next + 1⟩)
    else (-1, s)
  closeDev := fun fd s => (0, { s with tables := Function.update s.tables fd none })
  gsession := fun fd args s =>
    match s.tables fd with
    | none => (.error ENOTTY, s)
    | some t =>
        if (t s.next).isNone ∧ 0 ≤ fd ∧ s.next < 2 ^ 32 then
          (.ok s.next, ⟨Function.update s.tables fd (some (Function.update t s.next (some args))), s.next + 1⟩)
        else (.error EFAULT, s)
  fsession := fun fd ses s =>
    match s.tables fd with
    | none => (.error ENOTTY, s)
    | some t =>
        if 0 ≤ fd then (.ok (), { s with tables := Function.update s.tables fd (some (Function.update t ses none)) })
        else (.error EFAULT, s)
  crypt := fun fd args s =>
    match s.tables fd with
    | none => (.error ENOTTY, s)
    | some t =>
        match t args.ses with
        | none => (.error EFAULT, s)
        | some session =>
            if 0 ≤ fd then (.ok ⟨cipher session args.op args.iv args.src, [], args.iv⟩, s) else (.error EFAULT, s)
  open_range := by
    intro s
    split_ifs with hnext
    · exact ⟨by omega, by omega⟩
    · exact ⟨by omega, by omega⟩
  dst_length := by
    intro fd args s out s' hrun
    split at hrun
    · cases hrun
    · split at hrun
      · cases hrun
      · split_ifs at hrun
        · cases hrun
          exact hlen _ _ _ _
        · cases hrun

-- Negative numbers are no descriptors.
def Desk.held (s : Desk) (fd : Int) : Option (Nat → Option Session) := if fd < 0 then none else s.tables fd

theorem desk_keeps : Keeps (deskHost cipher hlen) Desk.held cipher where
  bad := fun s fd hneg => if_pos hneg
  refuses := by
    intro s hneg
    simp only [deskHost] at hneg ⊢
    split_ifs at hneg ⊢
    · omega
    · rfl
  opens := by
    intro s hpos
    simp only [deskHost] at hpos ⊢
    split_ifs at hpos ⊢ with hnext
    · refine ⟨?_, ?_⟩
      · simpa [Desk.held] using hnext.1
      · funext fd
        by_cases hfd : fd = s.next
        · subst hfd
          simp [Desk.held]
        · simp [Desk.held, Function.update_of_ne hfd]
    · omega
  closes := by
    intro s fd
    funext fd'
    by_cases hfd : fd' = fd
    · subst hfd
      simp [Desk.held, deskHost]
    · simp [Desk.held, deskHost, Function.update_of_ne hfd]
  gsession := by
    intro s fd args
    simp only [deskHost]
    split
    · exact rfl
    · rename_i t ht
      split_ifs with hnext
      · refine ⟨hnext.2.2, t, ?_, ?_, ?_⟩
        · simpa [Desk.held, hnext.2.1] using ht
        · simpa using hnext.1
        · funext fd'
          by_cases hfd : fd' = fd
          · subst hfd
            simp [Desk.held, hnext.2.1]
          · simp [Desk.held, Function.update_of_ne hfd]
      · exact rfl
  fsession := by
    intro s fd ses
    simp only [deskHost]
    split
    · exact rfl
    · rename_i t ht
      split_ifs with hpos
      · refine ⟨t, by simpa [Desk.held, hpos] using ht, ?_⟩
        funext fd'
        by_cases hfd : fd' = fd
        · subst hfd
          simp [Desk.held, hpos]
        · simp [Desk.held, Function.update_of_ne hfd]
      · exact rfl
  crypt := by
    intro s fd args
    simp only [deskHost]
    split
    · exact ⟨rfl, trivial⟩
    · rename_i t ht
      split
      · exact ⟨rfl, trivial⟩
      · rename_i session hses
        split_ifs with hpos
        · exact ⟨rfl, t, session, by simpa [Desk.held, hpos] using ht, hses, rfl⟩
        · exact ⟨rfl, trivial⟩

end CryptodevChat.User
