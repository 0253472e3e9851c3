import CryptodevChat.Chat.Impasse

namespace CryptodevChat.Dialogue

open Lib
open Chat

variable {c : Setup} {s s' : State} {a : Act} {p : Peer} {actions : List Act}

-- A program in the middle of a frame for which there is no room. The system reports a lost
-- connection to it, since nobody will read the frame.
def Setup.Stranded (c : Setup) (s : State) (p : Peer) : Prop := ∃ rest conn, (s.party p).pc = .send rest conn ∧
  rest ≠ [] ∧ c.cap p ≤ (s.wire p).held.length

-- Nobody waits for bytes from a program that is over.
theorem Setup.Stays.bereft (h : c.Stays s p) (hs : (s.party p).pc.Sound)
    (hother : (s.party p.other).pc.over = true) : (s.party p).pc.over = true ∨ c.Stranded s p := by
  have hready : s.readable p = true := by simp [State.readable, hother]
  have hwaits : ∀ count, 0 < count →
      ¬((s.party p).pc = .select ∨ (s.party p).pc.asks = some count) := by
    intro count hcount hpc
    rw [h.unreadable hcount hpc] at hready
    cases hready
  cases hpc : (s.party p).pc with
  | select => exact absurd (.inl hpc) (hwaits 1 Nat.one_pos)
  | send rest conn =>
      rw [hpc] at hs
      exact .inr ⟨rest, conn, hpc, hs, h.full hpc hs⟩
  | head cells off count | body size off count =>
      have hasks : (s.party p).pc.asks = some count := by rw [hpc]; rfl
      exact absurd (.inr hasks) (hwaits count (hs.asks_pos hasks))
  | display rest =>
      rw [hpc] at hs
      exact absurd hpc (h.silent hs)
  | left | stopped | killed => exact .inl rfl

-- When one end is over, the steps are those of the other one.
theorem alone_of_run {good : State → Act → Prop} (run : Run c.step good s actions s')
    (hother : (s.party p.other).pc.over = true) :
    (∀ a ∈ actions, a.1 = p) ∧ (s'.party p.other).pc.over = true := by
  induction run with
  | nil => exact ⟨by simp, hother⟩
  | @snoc t u actions a run ok next ih =>
      obtain ⟨hall, hover⟩ := ih
      have hmoves := step_moves next
      have hown : a.1 = p := by
        rcases Peer.eq_or_other p a.1 with hp | hp
        · exact hp.symm
        · have hlive := step_live hmoves
          rw [hp, Peer.other_other] at hover
          rw [hover] at hlive
          cases hlive
      refine ⟨fun b hb => ?_, ?_⟩
      · rcases List.mem_append.mp hb with hb | hb
        · exact hall b hb
        · rw [List.mem_singleton.mp hb]
          exact hown
      · rw [(step_other hmoves (by rw [hown]; exact Peer.ne_other p)).1]
        exact hover

-- Calls that do not fail bring a program out of the loop in one way only.
theorem left_of_calm (hc : c.Agreed) (run : Run c.step c.Calm s actions s') (hown : ∀ a ∈ actions, a.1 = p)
    (hlive : (s.party p).pc.over = false) (hheard : ∀ p, c.Heard s p) (hsound : ∀ p, (s.party p).pc.Sound)
    (hover : (s'.party p).pc.over = true) : (s'.party p).pc = .left := by
  induction run with
  | nil =>
      rw [hlive] at hover
      cases hover
  | @snoc t u actions a run ok next ih =>
      have hmoves := step_moves next
      obtain ⟨q, op⟩ := a
      obtain rfl : q = p := hown (q, op) (by simp)
      have hhears : ∀ p, c.Heard t p ∧ (t.party p).pc.Sound := run.invariant
        (fun p => ⟨hheard p, hsound p⟩) ((c.potential hc c.Calm fun _ _ h => h.1).keeps)
      rcases leaves_own hc hmoves ok (hhears q).1.hears with hstill | hleft
      · rw [hstill] at hover
        cases hover
      · exact hleft.1

-- A program whose partner is over, by its own will or not, does not hang: at a rest it is over
-- as well or writes into a full wire, and it comes to a rest by itself, where it has shown all
-- that the other one has written to an end before.
theorem parts_of_run (c : Setup) (hc : c.Agreed) (actions : List Act) (s : State)
    (run : Run c.step c.Fitting c.boot actions s) (p : Peer) (hother : (s.party p.other).pc.over = true) :
    (c.Stays s p → (s.party p).pc.over = true ∨ c.Stranded s p) ∧
    ((s.party p).pc.over = false → ∃ more t, Run c.step c.Calm s more t ∧
      (∀ a ∈ more, a.1 = p ∧ a.2.own = true) ∧
      actions.countP (fun a => a.2.own) + more.length ≤ 4 + 4 * c.volume s ∧
      ((t.party p).pc = .left ∧ (t.wire p.other).held = [] ∧ c.Whole t p ∨ c.Stranded t p)) := by
  have hsound := sound_of_run (run.mono fun _ _ _ => trivial)
  have hheard := fun p => (heard_of_run hc run p).1
  refine ⟨fun hstays => hstays.bereft (hsound p) hother, fun hlive => ?_⟩
  obtain ⟨more, t, hmore, hown, -, hbound, hrest⟩ := rest_of_run hc run
  obtain ⟨halone, hover⟩ := alone_of_run hmore hother
  have hwhole := run.append (hmore.mono fun _ _ h => h.1)
  have hsound' := sound_of_run (hwhole.mono fun _ _ _ => trivial) p
  refine ⟨more, t, hmore, fun a ha => ⟨halone a ha, hown a ha⟩, hbound, ?_⟩
  rcases (hrest p).bereft hsound' hover with hdone | hstranded
  · have hleft := left_of_calm hc hmore halone hlive hheard hsound hdone
    have hheard' := (heard_of_run hc hwhole p).1
    exact .inl ⟨hleft, (hheard'.left hleft).1, hheard'.whole (.inr hleft) (hheard'.left hleft).1⟩
  · exact .inr hstranded

-- The client is killed behind a whole frame, which nobody has read yet.
def orphanRun : List Act :=
  [(.client, .select (.ready (some (some lineHi)) false)), (.client, .write (.upTo 200)),
    (.client, .write (.upTo 56)), (.client, .kill)]

theorem orphanRun_parts : ∃ s, Run sealedSetup.step sealedSetup.Fitting sealedSetup.boot orphanRun s ∧
    ∃ more t, Run sealedSetup.step sealedSetup.Calm s more t ∧ (∀ a ∈ more, a.1 = .server ∧ a.2.own = true) ∧
      ((t.party .server).pc = .left ∧ (t.wire .client).held = [] ∧ sealedSetup.Whole t .server ∨
        sealedSetup.Stranded t .server) := by
  obtain ⟨s, run, hs⟩ := Run.of_guarded sealedSetup.step sealedSetup.Fitting sealedSetup.boot orphanRun
    (fun s => (s.party .client).pc.over && !(s.party .server).pc.over) (by decide +kernel)
  simp only [Bool.and_eq_true, Bool.not_eq_true'] at hs
  obtain ⟨-, hparts⟩ := parts_of_run sealedSetup sealed_agreed orphanRun s run .server hs.1
  obtain ⟨more, t, hmore, hown, -, hend⟩ := hparts hs.2
  exact ⟨s, run, more, t, hmore, hown, hend⟩

end CryptodevChat.Dialogue
