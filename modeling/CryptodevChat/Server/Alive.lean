import CryptodevChat.Server.Delivery
import CryptodevChat.Server.Locks

namespace CryptodevChat.Server

open Lib (Byte fromBe)
open Chat (MAX_CLIENTS DATA_SIZE)

variable {cfg : Cfg} {s s' : State} {t : Nat} {th : Thread} {op : Op}

def State.Alive (s : State) : Prop := s.exited = false ∧ s.fault = false

-- What a thread has read of a header or a block.
def Pc.reading : Pc → Option (List Byte)
  | .head got => some got
  | _ => none

-- The size that a block announces fits into a block.
def Thread.Sized (cfg : Cfg) (th : Thread) : Prop :=
  ∀ got ∈ th.pc.reading, cfg.encrypted = true → got.length = cfg.headSize →
    fromBe ((cfg.dec got).take 4) + 4 ≤ DATA_SIZE

-- No call on a connection fails, each thread uses the descriptors that it is meant
-- to, and nothing reaches beyond the client table or a block.
def Healthy (cfg : Cfg) (s : State) : Act → Prop
  | .accept _ => s.noClient < MAX_CLIENTS
  | .thread t op => op ≠ .reset ∧ op ≠ .pipe ∧ ∀ th ∈ s.threads t,
      th.Intact s ∧ th.Sized cfg ∧ (th.pc = .leave → s.noClient < MAX_CLIENTS)
  | _ => True

instance (cfg : Cfg) (th : Thread) : Decidable (th.Sized cfg) :=
  inferInstanceAs (Decidable (∀ _ ∈ _, _ → _ → _))

instance (cfg : Cfg) (s : State) : (a : Act) → Decidable (Healthy cfg s a)
  | .accept _ => inferInstanceAs (Decidable (_ < _))
  | .thread _ _ => inferInstanceAs (Decidable (_ ∧ _ ∧ _))
  | .main | .arrive _ _ | .hangup _ => inferInstanceAs (Decidable True)

-- A header in plain mode announces more than nothing.
def Thread.Filled (cfg : Cfg) (th : Thread) : Prop :=
  ∀ got ∈ th.pc.reading, cfg.encrypted = false → got.length = cfg.headSize → fromBe got ≠ 0

-- A disconnect is not seen as an error, `client_id` is not assigned anew before the last
-- thread has read it, what is announced is not empty and fits, and no service gets to
-- its `close`.
def Attends (cfg : Cfg) (s : State) : Act → Prop
  | .main => s.mainPc = .setId → ∀ t < s.noClient, (s.threads t).map (·.pc) ≠ some .start
  | .accept _ => s.noClient < MAX_CLIENTS
  | .thread t op => op ≠ .reset ∧ op ≠ .pipe ∧ ∀ th ∈ s.threads t,
      th.pc ≠ .leave ∧ th.Sized cfg ∧ th.Filled cfg
  | _ => True

instance (cfg : Cfg) (th : Thread) : Decidable (th.Filled cfg) :=
  inferInstanceAs (Decidable (∀ _ ∈ _, _ → _ → _))

instance (cfg : Cfg) (s : State) : (a : Act) → Decidable (Attends cfg s a)
  | .main => inferInstanceAs (Decidable (_ → _))
  | .accept _ => inferInstanceAs (Decidable (_ < _))
  | .thread _ _ => inferInstanceAs (Decidable (_ ∧ _ ∧ _))
  | .arrive _ _ | .hangup _ => inferInstanceAs (Decidable True)

theorem Healthy.intact {a : Act} (h : Healthy cfg s a) : Intact s a := by
  cases a with
  | thread t op => exact fun th hth => (h.2.2 th hth).1
  | _ => trivial

theorem Moves.alive (h : Moves cfg s t th op s') (hs : Table s) (hl : Locked s) (ha : s.Alive)
    (hth : s.threads t = some th) (hok : Healthy cfg s (.thread t op)) : s'.Alive := by
  obtain ⟨hreset, hpipe, hall⟩ := hok
  obtain ⟨hintact, hsized, hleave⟩ := hall th hth
  have hp := hs.placed t th hth
  cases h with
  | exit hwhy =>
      rcases hwhy.call with hop | hop | ⟨x, hmeant, hnone⟩
      · exact absurd hop hreset
      · exact absurd hop hpipe
      · rw [hintact x hmeant] at hnone
        cases hnone
  | crash hwhy =>
      cases hwhy with
      | table hpc hme =>
          have hlt := hp.joined.resolve_left (by simp [hpc])
          have := hs.room
          omega
      | block got hpc hlen hmode hsize =>
          have := hsized got (by rw [hpc]; rfl) hmode hlen
          omega
      | semaphore msg client hpc hlock =>
          have hready := hl.ready_of_visiting hp client (by rw [hpc]; rfl)
          rw [hlock] at hready
          cases hready
      | slot hpc hcount =>
          have := hleave hpc
          omega
  | _ => exact ha

-- The process neither ends nor leaves its memory.
theorem alive_step {a : Act} (hs : Table s) (hl : Locked s) (ha : s.Alive) (hok : Healthy cfg s a)
    (h : cfg.step s a = some s') : s'.Alive := by
  cases step_does h with
  | full fd hmain hfull =>
      have : s.noClient < MAX_CLIENTS := hok
      omega
  | thread t th op s' hth hmoves => exact hmoves.alive hs hl ha hth hok
  | _ => exact ha

end CryptodevChat.Server
