import CryptodevChat.Chat.Effort
import CryptodevChat.Chat.Rounds

namespace CryptodevChat.Dialogue

open Lib
open Chat
open EventLoop (Select)

-- The lines that are sent, and what the other end gets of them.
def State.words (s : State) (p : Peer) : List CString := typed (s.lines p)
def Setup.word (c : Setup) (p : Peer) (line : CString) : Word := ⟨c.frame p line, c.message p line⟩
def Setup.said (c : Setup) (s : State) (p : Peer) : List Word := (s.words p).map (c.word p)

-- What a program has prepared and not written.
def Pc.unsent : Pc → List Byte
  | .send rest _ => rest
  | _ => []

-- What the other one has typed is on its way or prepared, unless it is over.
structure Setup.Heard (c : Setup) (s : State) (p : Peer) : Prop where
  hears : c.Hears s p (c.said s p.other)
  written : ∃ later, (s.wire p.other).sent ++ (s.party p.other).pc.unsent ++ later =
    (c.said s p.other).flatMap Word.frame ∧ ((s.party p.other).pc.over = false → later = [])

variable {c : Setup} {s s' : State} {a : Act} {p : Peer} {k : Nat}

section Speaking

@[simp] theorem put_words (s : State) (q : Peer) (party : Party) : (s.put q party).words = s.words := rfl
@[simp] theorem setWire_words (s : State) (q : Peer) (w : Wire) : (s.setWire q w).words = s.words := rfl
@[simp] theorem show_words (s : State) (q : Peer) (data : List Byte) : (s.show q data).words = s.words := rfl

theorem words_hear (s : State) (q : Peer) (line : Option (Option CString)) :
    (s.hear q line).words q = s.words q ++ spoken line := by
  unfold State.words
  cases line with
  | none => exact (List.append_nil _).symm
  | some line =>
      cases line with
      | none => exact (List.append_nil _).symm
      | some line =>
          simp only [State.hear, spoken, Function.update_self, typed, List.filter_append]
          split_ifs with hempty <;> simp [hempty]

theorem words_hear_other (s : State) (p : Peer) (line : Option (Option CString)) :
    (s.hear p line).words p.other = s.words p.other := by
  unfold State.words State.hear
  split
  · simp
  · rfl

theorem unsent_resume (env : Env) (conn : Bool) (buf : List Byte) : (resume env conn buf).pc.unsent = [] := by
  unfold resume
  split <;> rfl

theorem unsent_sending (env : Env) (rest : List Byte) (conn : Bool) (buf : List Byte) :
    (sending env rest conn buf).pc.unsent = rest := by
  unfold sending
  split_ifs with hrest
  · rw [unsent_resume, hrest]
  · rfl

theorem unsent_showing (rest buf : List Byte) : (showing rest buf).pc.unsent = [] := by
  unfold showing
  split <;> rfl

theorem unsent_received (env : Env) (p : Party) (data : List Byte) (count : Nat) (h : p.pc.asks = some count) :
    (received env p data).pc.unsent = [] := by
  have hshow : ∀ buf off size, (showFrom buf off size).pc.unsent = [] := by
    intro buf off size
    unfold showFrom
    split
    · rfl
    · exact unsent_showing _ _
  unfold received
  split
  · split
    · rfl
    · split
      · unfold parse
        repeat' split
        all_goals first | rfl | exact hshow _ _ _
      · rfl
  · split
    · rfl
    · split
      · exact hshow _ _ _
      · rfl
  · rename_i hhead hbody
    cases hpc : p.pc with
    | head cells off ask => exact absurd hpc (hhead _ _ _)
    | body size off ask => exact absurd hpc (hbody _ _ _)
    | _ => rw [hpc] at h; cases h

-- A step of the other program, which may say more.
theorem heard_other (hc : c.Agreed) {op : Op} (h : c.Moves s (p.other, op) s') (hok : c.Fitting s (p.other, op))
    (hh : c.Heard s p) : c.Heard s' p := by
  have hlive := step_live h
  dsimp only at hlive
  obtain ⟨hparty, hshown⟩ := step_other h (Peer.other_ne p)
  obtain ⟨data, hwire, -⟩ := step_wire h
  dsimp only at hwire
  have htaken : (s'.wire p.other).taken = (s.wire p.other).taken := by rw [hwire]
  obtain ⟨later, hwritten, hlater⟩ := hh.written
  obtain rfl := hlater hlive
  rw [List.append_nil] at hwritten
  have hdone : c.said s p.other <+: c.said s' p.other →
      (∀ w ∈ c.said s' p.other, Coded (c.env p) w.frame w.message) →
      (∃ later, (s'.wire p.other).sent ++ (s'.party p.other).pc.unsent ++ later =
        (c.said s' p.other).flatMap Word.frame ∧ ((s'.party p.other).pc.over = false → later = [])) →
      c.Heard s' p := by
    intro hsaid hcoded hall
    refine ⟨hh.hears.mono hlive hparty hshown htaken hsaid hcoded ?_, hall⟩
    obtain ⟨later, hall, -⟩ := hall
    rw [← hall, List.append_assoc]
    exact List.prefix_append _ _
  have hsame : s'.wire p.other = s.wire p.other → s'.words p.other = s.words p.other →
      (s'.party p.other).pc.unsent = [] → (s.party p.other).pc.unsent = [] → c.Heard s' p := by
    intro hw hwords hunsent hunsent'
    have hsaid : c.said s' p.other = c.said s p.other := by rw [Setup.said, hwords, Setup.said]
    refine hdone (hsaid ▸ List.prefix_refl _) (hsaid ▸ hh.hears.coded) ⟨[], ?_, fun _ => rfl⟩
    rw [hw, hsaid, hunsent, ← hwritten, hunsent', List.append_nil]
  cases h with
  | selects _ line buf h =>
      have hsilent : (s.party p.other).pc.unsent = [] := by
        rw [h]
        rfl
      rw [hsilent, List.append_nil] at hwritten
      have hquiet : begin (c.env p.other) (c.prompt p.other) line (s.readable p.other) buf =
          resume (c.env p.other) (s.readable p.other) buf →
          spoken line = [] →
          c.Heard ((s.put p.other (begin (c.env p.other) (c.prompt p.other) line (s.readable p.other) buf)).hear
            p.other line) p := by
        intro hbegin hnothing
        refine hsame (by simp) ?_ ?_ hsilent
        · rw [words_hear, put_words, hnothing, List.append_nil]
        · rw [hear_party, put_party, hbegin, unsent_resume]
      cases line with
      | none => exact hquiet rfl rfl
      | some line =>
          cases line with
          | none => exact hquiet rfl rfl
          | some line =>
              by_cases hempty : line.bytes = []
              · refine hquiet ?_ (if_pos hempty)
                unfold begin
                dsimp only
                rw [if_pos ((head_cells line).mpr hempty)]
              · obtain ⟨hbegin, hcoded⟩ := begin_fits hc p.other line (s.readable p.other) buf hempty
                  (hok.resolve_left hempty)
                rw [Peer.other_other] at hcoded
                have hsaid : c.said ((s.put p.other (begin (c.env p.other) (c.prompt p.other) (some (some line))
                    (s.readable p.other) buf)).hear p.other (some (some line))) p.other =
                    c.said s p.other ++ [c.word p.other line] := by
                  rw [Setup.said, words_hear, put_words]
                  simp [Setup.said, spoken, hempty]
                refine hdone ?_ ?_ ⟨[], ?_, fun _ => rfl⟩
                · rw [hsaid]
                  exact List.prefix_append _ _
                · rw [hsaid]
                  intro w hw
                  rcases List.mem_append.mp hw with hw | hw
                  · exact hh.hears.coded w hw
                  · rw [List.mem_singleton.mp hw]
                    exact hcoded
                · rw [hsaid, hear_party, put_party, hbegin, unsent_sending, List.flatMap_append, ← hwritten]
                  simp [Setup.word]
  | writes _ rest conn buf n h hn hle hcap =>
      refine hdone (List.prefix_refl _) hh.hears.coded ⟨[], ?_, fun _ => rfl⟩
      rw [h] at hwritten
      simp only [setWire_party, put_party, setWire_wire, unsent_sending, List.append_nil]
      change _ = (c.said s p.other).flatMap Word.frame
      rw [← hwritten]
      simp [Wire.sent, Pc.unsent, List.append_assoc]
  | shows _ rest buf n h hn hle =>
      refine hsame rfl rfl ?_ ?_
      · simpa using unsent_showing _ _
      · rw [h]
        rfl
  | reads _ count n h hn hle hlen =>
      refine hsame ?_ rfl ?_ ?_
      · rw [Peer.other_other, setWire_wire_ne _ _ _ _ (Peer.other_ne p)]
        rfl
      · simpa using unsent_received _ _ _ count h
      · cases hpc : (s.party p.other).pc <;> first | rfl | (rw [hpc] at h; cases h)
  | ends _ count n h hn hle hempty hover =>
      refine hsame rfl rfl ?_ ?_
      · rw [put_party, hungUp_pc]
        rfl
      · cases hpc : (s.party p.other).pc <;> first | rfl | (rw [hpc] at h; cases h)
  | fails _ op h =>
      refine hdone (List.prefix_refl _) hh.hears.coded ⟨(s.party p.other).pc.unsent, ?_, ?_⟩
      · change _ = (c.said s p.other).flatMap Word.frame
        simpa [State.exit, Pc.unsent] using hwritten
      · simp [State.exit, Pc.over]
  | kills _ h =>
      refine hdone (List.prefix_refl _) hh.hears.coded ⟨(s.party p.other).pc.unsent, ?_, ?_⟩
      · change _ = (c.said s p.other).flatMap Word.frame
        simpa [Pc.unsent] using hwritten
      · simp [Pc.over]

-- Its own step, after which it has stopped only if a call has failed.
theorem heard_own (hc : c.Agreed) {op : Op} (h : c.Moves s (p, op) s') (hok : c.Fitting s (p, op))
    (hs : (s.party p).pc.Sound) (hh : c.Heard s p) :
    c.Heard s' p ∧ (Fails (s.party p).pc op ∨ (s'.party p).pc.stop = none) := by
  obtain ⟨hhears, hstop⟩ := hears_own hc h hok hs hh.hears
  have hother := (step_other h (Peer.ne_other p)).1
  obtain ⟨-, -, hsent⟩ := step_wire h
  dsimp only at hsent
  have hsaid : c.said s' p.other = c.said s p.other := by
    unfold Setup.said
    cases h with
    | selects _ line buf h => rw [words_hear_other, put_words]
    | _ => rfl
  refine ⟨⟨?_, ?_⟩, hstop⟩
  · rw [hsaid]
    exact hhears
  · rw [hsent, hother, hsaid]
    exact hh.written

end Speaking

section Runs

variable {actions : List Act}

theorem heard_boot (c : Setup) (p : Peer) : c.Heard c.boot p where
  hears := ⟨fun _ => (c.env p).junk_length BUFF_SIZE, by simp [Setup.said, State.words, Setup.boot, typed],
    List.nil_prefix, 0, Nat.zero_le _, rfl, rfl⟩
  written := ⟨[], by simp [Setup.said, State.words, Setup.boot, typed, Wire.sent, Pc.unsent], fun _ => rfl⟩

-- A call of its own has failed if a program has stopped.
theorem heard_of_run (hc : c.Agreed) (run : Run c.step c.Fitting c.boot actions s) (p : Peer) :
    c.Heard s p ∧ ((s.party p).pc.stop ≠ none → ∃ op, (p, op) ∈ actions ∧ op.failed = true) := by
  generalize hboot : c.boot = first at run
  induction run with
  | nil =>
      subst hboot
      exact ⟨heard_boot c p, fun h => absurd rfl h⟩
  | @snoc t u actions a run ok next ih =>
      subst hboot
      obtain ⟨hheard, hstopped⟩ := ih
      have hmoves := step_moves next
      have hsound := sound_of_run (run.mono fun _ _ _ => trivial) p
      obtain ⟨q, op⟩ := a
      have hearlier : (t.party p).pc.stop ≠ none → ∃ op', (p, op') ∈ actions ++ [(q, op)] ∧ op'.failed = true := by
        intro hstop
        obtain ⟨op', hmem, hfailed⟩ := hstopped hstop
        exact ⟨op', List.mem_append_left _ hmem, hfailed⟩
      rcases Peer.eq_or_other q p with rfl | rfl
      · obtain ⟨hheard, hfails | hnone⟩ := heard_own hc hmoves ok hsound hheard
        · exact ⟨hheard, fun _ => ⟨op, by simp, hfails.failed⟩⟩
        · exact ⟨hheard, fun hstop => absurd hnone hstop⟩
      · refine ⟨heard_other hc hmoves ok hheard, ?_⟩
        rw [(step_other hmoves (Peer.other_ne p)).1]
        exact hearlier

section Said

variable (c : Setup) (s : State) (p : Peer) (k : Nat)

theorem said_take_frames : ((c.said s p).take k).flatMap Word.frame = ((s.words p).take k).flatMap (c.frame p) := by
  rw [Setup.said, ← List.map_take, List.flatMap_map]
  rfl

theorem said_take_messages :
    ((c.said s p).take k).flatMap Word.message = ((s.words p).take k).flatMap (c.message p) := by
  rw [Setup.said, ← List.map_take, List.flatMap_map]
  rfl

theorem said_frames : (c.said s p).flatMap Word.frame = (s.words p).flatMap (c.frame p) := by
  rw [Setup.said, List.flatMap_map]
  rfl

theorem said_messages : (c.said s p).flatMap Word.message = (s.words p).flatMap (c.message p) := by
  rw [Setup.said, List.flatMap_map]
  rfl

end Said

-- What was shown are the messages whose frames were written to their ends, and no others.
def Setup.Whole (c : Setup) (s : State) (p : Peer) : Prop :=
  ∃ k ≤ (s.words p.other).length,
    s.shown p = ((s.words p.other).take k).flatMap (c.message p.other) ∧
    ((s.words p.other).take k).flatMap (c.frame p.other) <+: (s.wire p.other).sent ∧
    ∀ j, k < j → j ≤ (s.words p.other).length →
      ¬((s.words p.other).take j).flatMap (c.frame p.other) <+: (s.wire p.other).sent

-- When nothing is on its way, and of the next frame a part has come at most.
theorem whole_of_taken (hk : k ≤ (s.words p.other).length) (got : List Byte)
    (hempty : (s.wire p.other).held = [])
    (htaken : (s.wire p.other).taken = ((s.words p.other).take k).flatMap (c.frame p.other) ++ got)
    (hshown : s.shown p = ((s.words p.other).take k).flatMap (c.message p.other))
    (hgot : ∀ line, (s.words p.other)[k]? = some line → got.length < (c.frame p.other line).length) :
    c.Whole s p := by
  have hsent : (s.wire p.other).sent = ((s.words p.other).take k).flatMap (c.frame p.other) ++ got := by
    rw [Wire.sent, hempty, List.append_nil, htaken]
  refine ⟨k, hk, hshown, by rw [hsent]; exact List.prefix_append _ _, fun j hlt hle hprefix => ?_⟩
  have hline := List.getElem?_eq_getElem (l := s.words p.other) (i := k) (by omega)
  have hnext := (flatMap_take_mono (c.frame p.other) (s.words p.other) (k + 1) j hlt).trans hprefix
  rw [flatMap_take_succ _ _ _ _ hline, hsent] at hnext
  have hlength := hnext.length_le
  have hshort := hgot _ hline
  rw [List.length_append, List.length_append] at hlength
  omega

theorem getElem?_said (line : CString) (hline : (s.words p)[k]? = some line) :
    (c.said s p)[k]? = some (c.word p line) := by
  rw [Setup.said, List.getElem?_map, hline]
  rfl

theorem Setup.Heard.whole (hh : c.Heard s p) (hpc : (s.party p).pc = .select ∨ (s.party p).pc = .left)
    (hempty : (s.wire p.other).held = []) : c.Whole s p := by
  obtain ⟨k, hk, hlistens⟩ := hh.hears.listens
  rw [Setup.said, List.length_map] at hk
  unfold Setup.Listens at hlistens
  simp only [said_take_frames, said_take_messages] at hlistens
  rcases hpc with hpc | hpc
  · rw [hpc] at hlistens
    refine whole_of_taken hk [] hempty ?_ hlistens.2 fun line hline => ?_
    · rw [List.append_nil]
      exact hlistens.1
    · have hframe := (hh.hears.coded _ (List.mem_of_getElem? (getElem?_said line hline))).headSize_le
      have hpos := headSize_pos (c.env p)
      exact Nat.lt_of_lt_of_le hpos hframe
  · rw [hpc] at hlistens
    obtain ⟨-, -, hshown, got, htaken, hgot⟩ := hlistens
    exact whole_of_taken hk got hempty htaken hshown fun line hline => hgot _ (getElem?_said line hline)

theorem Setup.Heard.left (hh : c.Heard s p) (hpc : (s.party p).pc = .left) :
    (s.wire p.other).held = [] ∧ (s.party p.other).pc.over = true := by
  obtain ⟨k, hk, hlistens⟩ := hh.hears.listens
  unfold Setup.Listens at hlistens
  rw [hpc] at hlistens
  exact ⟨hlistens.1, hlistens.2.1⟩

-- How a program stands to what the other one has said.
structure Setup.Conversed (c : Setup) (actions : List Act) (s : State) (p : Peer) : Prop where
  shown : s.shown p <+: (s.words p.other).flatMap (c.message p.other)
  round : (s.party p).pc = .select → ∃ said, said <+: s.words p.other ∧
    (s.wire p.other).taken = said.flatMap (c.frame p.other) ∧ s.shown p = said.flatMap (c.message p.other)
  whole : (s.party p).pc = .select ∨ (s.party p).pc = .left → (s.wire p.other).held = [] → c.Whole s p
  left : (s.party p).pc = .left → (s.wire p.other).held = [] ∧ (s.party p.other).pc.over = true
  stopped : ∀ e, (s.party p).pc = .stopped e → e = .exit 1 ∧ ∃ op, (p, op) ∈ actions ∧ op.failed = true

-- However the two programs run side by side and however their calls cut the bytes, each of
-- them shows messages of the other one in order, leaves out none whose frame was written, and
-- stops by a failing call of its own only.
theorem conversed_of_run (c : Setup) (hc : c.Agreed) (actions : List Act) (s : State)
    (run : Run c.step c.Fitting c.boot actions s) (p : Peer) : c.Conversed actions s p := by
  obtain ⟨hheard, hstopped⟩ := heard_of_run hc run p
  obtain ⟨k, hk, hlistens⟩ := hheard.hears.listens
  have hshown := hlistens.shown
  rw [said_messages] at hshown
  unfold Setup.Listens at hlistens
  refine ⟨hshown, fun hpc => ?_, hheard.whole, hheard.left, fun e hpc => ⟨?_, ?_⟩⟩
  · rw [hpc] at hlistens
    simp only [said_take_frames, said_take_messages] at hlistens
    exact ⟨_, List.take_prefix _ _, hlistens⟩
  · rw [hpc] at hlistens
    exact hlistens.1
  · exact hstopped (by simp [hpc, Pc.stop])

-- The client is killed inside of its second frame. The server shows the first line and leaves.
def sealedSetup : Setup := { plainSetup with env := fun _ => greetingEnv, cap := fun _ => 300 }

theorem sealed_agreed : sealedSetup.Agreed where
  mode := fun _ => rfl
  alloc := fun _ => rfl
  undoes := fun _ _ => ⟨greetingCipher, greetingCipher, fun block _ => greetingPerm.symm_apply_apply block⟩

def brokenRun : List Act :=
  [(.client, .select (.ready (some (some lineHi)) false)), (.client, .write (.upTo 200)),
    (.client, .write (.upTo 56)), (.server, .select (.ready none true)), (.server, .read (.upTo 256)),
    (.server, .display (.upTo 6)), (.client, .select (.ready (some (some lineHi)) false)),
    (.client, .write (.upTo 100)), (.client, .kill), (.server, .select (.ready none true)),
    (.server, .read (.upTo 100)), (.server, .read (.upTo 1))]

theorem brokenRun_conversed : ∃ s, Run sealedSetup.step sealedSetup.Fitting sealedSetup.boot brokenRun s ∧
    sealedSetup.Conversed brokenRun s .server ∧ (s.party .server).pc = .left ∧
    s.shown .server = [0x6d, 0x65, 0x3a, 0x68, 0x69, 0x0a] := by
  obtain ⟨s, run, hs⟩ := Run.of_guarded sealedSetup.step sealedSetup.Fitting sealedSetup.boot brokenRun
    (fun s => (s.party .server).pc == .left && s.shown .server == [0x6d, 0x65, 0x3a, 0x68, 0x69, 0x0a])
    (by decide +kernel)
  simp only [Bool.and_eq_true, beq_iff_eq] at hs
  exact ⟨s, run, conversed_of_run sealedSetup sealed_agreed brokenRun s run .server, hs⟩

end Runs

end CryptodevChat.Dialogue
