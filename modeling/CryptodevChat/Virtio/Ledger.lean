import CryptodevChat.Virtio.Authority
import CryptodevChat.Lib.Inverse

namespace CryptodevChat.Virtio

open Lib (Inverse update_eq_some update_none_eq_some)

variable {σ : Type}

-- The descriptor that a `host_fd` stands for. The number -1 stands for none.
def desc (fd : Int) : Option Int := if 0 ≤ fd then some fd else none

theorem desc_eq_some (y fd : Int) : desc y = some fd ↔ 0 ≤ fd ∧ y = fd := by
  unfold desc
  split_ifs with hpos
  · constructor
    · rintro ⟨⟩
      exact ⟨hpos, rfl⟩
    · rintro ⟨-, rfl⟩
      rfl
  · constructor
    · intro hnone
      cases hnone
    · rintro ⟨hpos', rfl⟩
      exact absurd hpos' hpos

-- Every sender holds at most one descriptor. The descriptors of the process
-- are those that it had at the start, and those that the senders hold.
structure Held (opened : σ → Int → Prop) (x : σ) (p : QemuProcess σ) (held : Nat → Option Int) :
    Prop where
  ledger : Inverse p.ledger held
  pos : ∀ fd f, held f = some fd → 0 ≤ fd
  table : ∀ fd, 0 ≤ fd → (opened p.host fd ↔ opened x fd ∨ ∃ f, held f = some fd)
  foreign : ∀ fd f, opened x fd → held f ≠ some fd
  trail : ∀ u ∈ p.trail, 0 ≤ u.fd → u.owner = some u.sender

variable {h : Host σ} {opened : σ → Int → Prop} {x : σ} {p : QemuProcess σ}
variable {held : Nat → Option Int}

theorem held_boot (opened : σ → Int → Prop) (x : σ) : Held opened x (.boot x) fun _ => none where
  ledger := fun fd f => by simp [QemuProcess.boot]
  pos := fun fd f hf => by cases hf
  table := fun fd hpos => by simp [QemuProcess.boot]
  foreign := fun fd f hopen hf => by cases hf
  trail := fun u hu => (nomatch hu)

-- A use of the descriptor that the sender holds.
theorem Held.use (hp : Held opened x p held) (f : Nat) (fd : Int) (hf : held f = desc fd) :
    ∀ u ∈ p.trail ++ [⟨f, fd, p.ledger fd⟩], 0 ≤ u.fd → u.owner = some u.sender := by
  intro u hu hpos
  obtain hu | hu := List.mem_append.mp hu
  · exact hp.trail u hu hpos
  · rw [List.mem_singleton.mp hu] at hpos ⊢
    exact (hp.ledger fd f).mpr (hf.trans ((desc_eq_some fd fd).mpr ⟨hpos, rfl⟩))

-- The sender gets a number that nobody holds, or none.
theorem held_open (ht : h.Tracks opened) (hp : Held opened x p held) (r : Popped)
    (ho : r.elem.syscallType r.mem = VIRTIO_CRYPTO_SYSCALL_TYPE_OPEN) (hnone : held r.sender = none) :
    Held opened x (p.serve h r)
      (Function.update held r.sender (desc (h.openDev p.host).1)) := by
  rw [QemuProcess.serve_open h p r ho]
  by_cases hpos : 0 ≤ (h.openDev p.host).1
  · have hclosed := ht.fresh _ hpos
    have hdesc : desc (h.openDev p.host).1 = some (h.openDev p.host).1 := if_pos hpos
    rw [if_pos hpos, hdesc]
    have hfree : ∀ f, held f ≠ some (h.openDev p.host).1 := fun f hf =>
      hclosed ((hp.table _ hpos).mpr (.inr ⟨f, hf⟩))
    refine ⟨hp.ledger.give _ _ hfree hnone, ?_, ?_, ?_, hp.trail⟩
    · intro fd f hf
      rw [update_eq_some] at hf
      obtain ⟨-, hfd⟩ | ⟨-, hf⟩ := hf
      · cases hfd
        exact hpos
      · exact hp.pos fd f hf
    · intro fd hfd
      dsimp only
      rw [ht.opens, hp.table fd hfd]
      constructor
      · rintro ((hopen | ⟨f, hf⟩) | ⟨-, rfl⟩)
        · exact .inl hopen
        · refine .inr ⟨f, (update_eq_some ..).mpr (.inr ⟨?_, hf⟩)⟩
          rintro rfl
          rw [hnone] at hf
          cases hf
        · exact .inr ⟨r.sender, Function.update_self ..⟩
      · rintro (hopen | ⟨f, hf⟩)
        · exact .inl (.inl hopen)
        · rw [update_eq_some] at hf
          obtain ⟨-, hfd'⟩ | ⟨-, hf⟩ := hf
          · cases hfd'
            exact .inr ⟨hfd, rfl⟩
          · exact .inl (.inr ⟨f, hf⟩)
    · intro fd f hopen hf
      rw [update_eq_some] at hf
      obtain ⟨-, hfd⟩ | ⟨-, hf⟩ := hf
      · cases hfd
        exact hclosed ((hp.table _ hpos).mpr (.inl hopen))
      · exact hp.foreign fd f hopen hf
  · have hdesc : desc (h.openDev p.host).1 = held r.sender := (if_neg hpos).trans hnone.symm
    rw [if_neg hpos, hdesc, Function.update_eq_self]
    refine ⟨hp.ledger, hp.pos, ?_, hp.foreign, hp.trail⟩
    intro fd hfd
    dsimp only
    rw [ht.opens, hp.table fd hfd, or_iff_left]
    rintro ⟨-, rfl⟩
    exact hpos hfd

-- The sender gives its number back. A close of -1 does nothing.
theorem held_close (ht : h.Tracks opened) (hp : Held opened x p held) (r : Popped)
    (hc : r.elem.syscallType r.mem = VIRTIO_CRYPTO_SYSCALL_TYPE_CLOSE)
    (hf : held r.sender = desc (r.elem.hostFd r.mem)) :
    Held opened x (p.serve h r) (Function.update held r.sender none) := by
  rw [QemuProcess.serve_close h p r hc]
  generalize r.elem.hostFd r.mem = y at hf ⊢
  have htrail := hp.use r.sender y hf
  by_cases hpos : 0 ≤ y
  · have hheld : held r.sender = some y := hf.trans (if_pos hpos)
    refine ⟨hp.ledger.take y r.sender hheld, ?_, ?_, ?_, htrail⟩
    · exact fun fd f hf' => hp.pos fd f ((update_none_eq_some ..).mp hf').2
    · intro fd hfd
      dsimp only
      rw [ht.closes, hp.table fd hfd]
      constructor
      · rintro ⟨hopen | ⟨f, hf'⟩, hne⟩
        · exact .inl hopen
        · refine .inr ⟨f, (update_none_eq_some ..).mpr ⟨?_, hf'⟩⟩
          rintro rfl
          exact hne (Option.some.inj (hf'.symm.trans hheld))
      · rintro (hopen | ⟨f, hf'⟩)
        · refine ⟨.inl hopen, ?_⟩
          rintro rfl
          exact hp.foreign fd r.sender hopen hheld
        · obtain ⟨hne, hf'⟩ := (update_none_eq_some ..).mp hf'
          refine ⟨.inr ⟨f, hf'⟩, ?_⟩
          rintro rfl
          exact hne (hp.ledger.unique hf' hheld)
    · exact fun fd f hopen hf' => hp.foreign fd f hopen ((update_none_eq_some ..).mp hf').2
  · have hheld : held r.sender = none := hf.trans (if_neg hpos)
    have hnobody : p.ledger y = none := hp.ledger.free y fun f hf' => hpos (hp.pos y f hf')
    rw [← hheld, Function.update_eq_self, ← hnobody, Function.update_eq_self]
    refine ⟨hp.ledger, hp.pos, ?_, hp.foreign, htrail⟩
    intro fd hfd
    dsimp only
    rw [ht.closes, hp.table fd hfd, and_iff_left]
    rintro rfl
    exact hpos hfd

-- An ioctl uses the number of its sender, and nobody's holdings change.
theorem held_ioctl (ht : h.Tracks opened) (hp : Held opened x p held) (r : Popped)
    (hi : r.elem.syscallType r.mem = VIRTIO_CRYPTO_SYSCALL_TYPE_IOCTL)
    (hf : ∀ fd, r.target = some fd → held r.sender = desc fd) :
    Held opened x (p.serve h r) held := by
  obtain ⟨htarget, hserve⟩ | ⟨fd, cmd, arg, m, htarget, hserve⟩ := QemuProcess.serve_ioctl h p r hi
  · rw [hserve]
    exact hp
  · rw [hserve]
    refine ⟨hp.ledger, hp.pos, ?_, hp.foreign, hp.use r.sender fd (hf fd htarget)⟩
    intro fd' hfd'
    dsimp only
    rw [ht.ioctl]
    exact hp.table fd' hfd'

end CryptodevChat.Virtio
