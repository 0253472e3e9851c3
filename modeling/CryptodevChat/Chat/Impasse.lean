import CryptodevChat.Chat.Hearing
import CryptodevChat.Lib.Potential

namespace CryptodevChat.Dialogue

open Lib
open Chat

variable {c : Setup} {s s' : State} {a : Act} {p : Peer} {k : Nat}

-- What is left to do at one end, and for what this end has on its way: a byte to write costs a
-- call here and perhaps three at the other end, to begin a round for it, to read it and to show it.
def State.effort (s : State) (p : Peer) : Nat := (s.party p).effort 4 + 3 * (s.wire p).held.length

def State.value (s : State) : Nat := s.effort .client + s.effort .server

theorem value_eq (s : State) (p : Peer) : s.value = s.effort p + s.effort p.other := by
  cases p with
  | client => rfl
  | server => exact Nat.add_comm _ _

-- Each of the calls is paid for.
theorem value_step (hc : c.Agreed) (h : c.Moves s a s') (ok : c.Fitting s a) (hh : ∀ p, c.Heard s p) :
    s'.value + (if a.2.own then 1 else 0) ≤ s.value + c.brings 4 a := by
  obtain ⟨p, op⟩ := a
  have hother := (step_other h (Peer.ne_other p)).1
  rw [value_eq s' p, value_eq s p]
  unfold State.effort
  dsimp only
  rw [hother]
  cases h with
  | selects _ line buf h =>
      have hbegin := effort_begin 4 hc line (s.readable p) buf ok
      have hselect : (s.party p).effort 4 = 2 := by rw [h]; rfl
      simp only [hear_party, hear_wire, put_party, put_wire, hselect]
      omega
  | writes _ rest conn buf n h hn hle hcap =>
      have hsend : (s.party p).effort 4 = 2 + 4 * rest.length := by rw [h]; rfl
      have hrest := effort_sending (c.env p) 4 (rest.drop n) conn buf
      simp only [setWire_party, put_party, setWire_wire, setWire_wire_ne _ _ _ _ (Peer.other_ne p), put_wire, hsend,
        List.length_append, List.length_take, List.length_drop, Op.own, if_true] at hrest ⊢
      omega
  | shows _ rest buf n h hn hle =>
      have hdisplay : (s.party p).effort 4 = 2 + rest.length := by rw [h]; rfl
      simp only [show_party, show_wire, put_party, put_wire, hdisplay, effort_showing, List.length_drop, Op.own,
        if_true]
      omega
  | reads _ count n h hn hle hlen =>
      have hread := effort_received 4 (hh p).hears h hn hle hlen
      simp only [setWire_party, put_party, setWire_wire, setWire_wire_ne _ _ _ _ (Peer.ne_other p), put_wire,
        List.length_drop, Op.own, if_true]
      omega
  | ends _ count n h hn hle hempty hover =>
      have hpos := effort_reading 4 (hh p).hears h
      have hleft : (hungUp (c.env p) (s.party p)).effort 4 = 0 := by simp [Party.effort, hungUp_pc]
      simp only [put_party, put_wire, hleft, Op.own, if_true]
      omega
  | fails _ op h =>
      have hexit : ((s.exit p).party p).effort 4 = 0 := by simp [State.exit, Party.effort]
      have hwire : (s.exit p).wire = s.wire := rfl
      rw [hexit, hwire, h.not_own]
      simp only [Bool.false_eq_true, if_false]
      omega
  | kills _ h =>
      have hkilled : (Party.mk .killed (s.party p).buf).effort 4 = 0 := rfl
      simp only [put_party, put_wire, hkilled, Op.own, Bool.false_eq_true, if_false]
      omega

-- What holds as long as nobody is killed and no call fails.
structure Setup.Peaceful (c : Setup) (s : State) : Prop where
  heard : ∀ p, c.Heard s p
  sound : ∀ p, (s.party p).pc.Sound
  live : ∀ p, (s.party p).pc.over = false
  awaits : ∀ p, (s.party p).pc.Awaits (s.readable p)
  room : ∀ p, (s.wire p).held.length ≤ c.cap p

section Peace

-- A wire holds no more than it can.
theorem room_step (h : c.Moves s a s') (hr : ∀ p, (s.wire p).held.length ≤ c.cap p) (q : Peer) :
    (s'.wire q).held.length ≤ c.cap q := by
  cases h with
  | writes p rest conn buf n h hn hle hcap =>
      by_cases hq : q = p
      · subst hq
        rw [setWire_wire, List.length_append, List.length_take]
        omega
      · rw [setWire_wire_ne _ _ _ _ hq, put_wire]
        exact hr q
  | reads p count n h hn hle hlen =>
      by_cases hq : q = p.other
      · subst hq
        have hold := hr p.other
        rw [setWire_wire, List.length_drop]
        omega
      · rw [setWire_wire_ne _ _ _ _ hq, put_wire]
        exact hr q
  | selects p line buf h =>
      rw [hear_wire, put_wire]
      exact hr q
  | _ => exact hr q

-- Bytes that have come stay there until the program reads them itself.
theorem readable_other (h : c.Moves s a s') (hp : a.1 = p.other) (hr : s.readable p = true) :
    s'.readable p = true := by
  have hlive := step_live h
  obtain ⟨data, hwire, -⟩ := step_wire h
  rw [hp] at hlive hwire
  simp only [State.readable, hlive, Bool.or_false, decide_eq_true_eq] at hr
  simp [State.readable, hwire, hr]

theorem peaceful_boot (c : Setup) : c.Peaceful c.boot where
  heard := heard_boot c
  sound := fun _ => trivial
  live := fun _ => rfl
  awaits := fun _ => trivial
  room := fun _ => Nat.zero_le _

theorem peaceful_step (hc : c.Agreed) (h : c.Moves s a s') (ok : c.Calm s a) (hp : c.Peaceful s) :
    c.Peaceful s' := by
  obtain ⟨q, op⟩ := a
  refine ⟨fun p => ?_, step_sound h hp.sound, fun p => ?_, fun p => ?_, room_step h hp.room⟩
  · rcases Peer.eq_or_other q p with rfl | rfl
    · exact (heard_own hc h ok.1 (hp.sound q) (hp.heard q)).1
    · exact heard_other hc h ok.1 (hp.heard p)
  · rcases Peer.eq_or_other q p with rfl | rfl
    · exact live_own hc h ok (hp.heard q).hears (hp.live q.other)
    · rw [(step_other h (Peer.other_ne p)).1]
      exact hp.live p
  · rcases Peer.eq_or_other q p with rfl | rfl
    · exact awaits_own hc h ok (hp.heard q).hears (hp.live q.other) (hp.awaits q)
    · rw [(step_other h (Peer.other_ne p)).1]
      exact (hp.awaits p).mono (readable_other h rfl)

end Peace

-- The programs cannot go on before somebody types a line.
def Setup.Rests (c : Setup) (s : State) : Prop := ∀ p, c.Stays s p

-- What was typed at either end is shown at the other one.
def Setup.Settled (c : Setup) (s : State) : Prop := ∀ p, (s.party p).pc = .select ∧ (s.wire p).held = [] ∧
  s.shown p = (s.words p.other).flatMap (c.message p.other)

-- Both programs are in the middle of a frame, and neither of them reads what the other one writes.
def Setup.Jammed (c : Setup) (s : State) : Prop := ∀ p, ∃ rest conn, (s.party p).pc = .send rest conn ∧
  rest ≠ [] ∧ (s.wire p).held.length = c.cap p

section Rest

-- All that was said is on the wire, if the other one has nothing left to write.
theorem Setup.Peaceful.whole (hp : c.Peaceful s) (hunsent : (s.party p.other).pc.unsent = []) :
    (s.wire p.other).sent = (c.said s p.other).flatMap Word.frame := by
  obtain ⟨later, hwritten, hlater⟩ := (hp.heard p).written
  obtain rfl := hlater (hp.live p.other)
  rw [← hwritten, hunsent, List.append_nil, List.append_nil]

-- A program at rest waits at `select` for a line, or for room on its wire.
theorem Setup.Peaceful.resting (hp : c.Peaceful s) (hcap : ∀ p, 0 < c.cap p) (hrest : c.Rests s) (p : Peer) :
    ((s.party p).pc = .select ∧ (s.wire p.other).held = []) ∨
      ∃ rest conn, (s.party p).pc = .send rest conn ∧ rest ≠ [] ∧ (s.wire p).held.length = c.cap p := by
  have hsound := hp.sound p
  have hlive := hp.live p
  have hnothing : s.readable p = false → (s.wire p.other).held = [] := by
    intro hready
    simp only [State.readable, Bool.or_eq_false_iff, decide_eq_false_iff_not, not_not] at hready
    exact hready.1
  have hasks : ∀ count, (s.party p).pc.asks ≠ some count := by
    intro count hasks
    have hready := (hrest p).unreadable (hsound.asks_pos hasks) (.inr hasks)
    have hempty := hnothing hready
    have hawaits := hp.awaits p
    rw [hready] at hawaits
    refine (hp.heard p).hears.not_asks hsound hawaits hempty (hp.whole ?_) hasks
    cases hother : (s.party p.other).pc with
    | send rest conn =>
        have hne := hp.sound p.other
        rw [hother] at hne
        have hfull := (hrest p.other).full hother hne
        have hroom := hcap p.other
        rw [hempty, List.length_nil] at hfull
        omega
    | _ => rfl
  cases hpc : (s.party p).pc with
  | select => exact .inl ⟨rfl, hnothing ((hrest p).unreadable Nat.one_pos (.inl hpc))⟩
  | send rest conn =>
      rw [hpc] at hsound
      have hfull := (hrest p).full hpc hsound
      exact .inr ⟨rest, conn, rfl, hsound, Nat.le_antisymm (hp.room p) hfull⟩
  | head cells off count => exact absurd (by rw [hpc]; rfl) (hasks count)
  | body size off count => exact absurd (by rw [hpc]; rfl) (hasks count)
  | display rest =>
      rw [hpc] at hsound
      exact absurd hpc ((hrest p).silent hsound)
  | left | stopped | killed =>
      rw [hpc] at hlive
      cases hlive

theorem Setup.Peaceful.settled_or_jammed (hp : c.Peaceful s) (hcap : ∀ p, 0 < c.cap p) (hrest : c.Rests s) :
    c.Settled s ∨ c.Jammed s := by
  rcases hp.resting hcap hrest .client with ⟨hclient, hheld⟩ | hclient
  · left
    have hserver : (s.party .server).pc = .select ∧ (s.wire .client).held = [] := by
      refine (hp.resting hcap hrest .server).resolve_right ?_
      rintro ⟨rest, conn, -, -, hfull⟩
      have hroom := hcap .server
      change (s.wire .server).held = [] at hheld
      rw [hheld, List.length_nil] at hfull
      omega
    have hpc : ∀ p, (s.party p).pc = .select := by
      intro p
      cases p
      · exact hclient
      · exact hserver.1
    have hempty : ∀ p, (s.wire p).held = [] := by
      intro p
      cases p
      · exact hserver.2
      · exact hheld
    refine fun p => ⟨hpc p, hempty p, ?_⟩
    rw [(hp.heard p).hears.shown_all (hpc p) (hempty _) (hp.whole (by rw [hpc]; rfl)), said_messages]
  · right
    intro p
    cases p with
    | client => exact hclient
    | server =>
        refine (hp.resting hcap hrest .server).resolve_left ?_
        rintro ⟨-, hheld⟩
        obtain ⟨rest, conn, -, -, hfull⟩ := hclient
        have hroom := hcap .client
        change (s.wire .client).held = [] at hheld
        rw [hheld, List.length_nil] at hfull
        omega

-- Nor can they go on in either case.
theorem Setup.Settled.rests (h : c.Settled s) : c.Rests s := by
  intro p op hown
  cases next : c.step s (p, op) with
  | none => rfl
  | some u =>
      have hmoves := step_moves next
      have hpc := (h p).1
      have hready : s.readable p = false := by simp [State.readable, (h p.other).1, (h p.other).2.1, Pc.over]
      cases hmoves with
      | selects _ line buf hselect =>
          rw [hready] at hown
          cases line <;> cases hown
      | writes _ rest conn buf n hsend => simp [hsend] at hpc
      | shows _ rest buf n hdisplay => simp [hdisplay] at hpc
      | reads _ count n hasks => simp [hpc, Pc.asks] at hasks
      | ends _ count n hasks => simp [hpc, Pc.asks] at hasks
      | fails _ op hfails => rw [hfails.not_own] at hown; cases hown
      | kills _ hlive => cases hown

theorem Setup.Jammed.rests (h : c.Jammed s) : c.Rests s := by
  intro p op hown
  cases next : c.step s (p, op) with
  | none => rfl
  | some u =>
      have hmoves := step_moves next
      obtain ⟨rest, conn, hpc, -, hfull⟩ := h p
      cases hmoves with
      | selects _ line buf hselect => simp [hselect] at hpc
      | writes _ rest conn buf n hsend hn hle hcap => omega
      | shows _ rest buf n hdisplay => simp [hdisplay] at hpc
      | reads _ count n hasks => simp [hpc, Pc.asks] at hasks
      | ends _ count n hasks => simp [hpc, Pc.asks] at hasks
      | fails _ op hfails => rw [hfails.not_own] at hown; cases hown
      | kills _ hlive => cases hown

-- More was typed at both ends than the wires hold.
theorem Setup.Peaceful.excess (hp : c.Peaceful s) (hjam : c.Jammed s) (p : Peer) :
    c.cap p < ((s.words p).flatMap (c.frame p)).length := by
  obtain ⟨rest, conn, hpc, hrest, hfull⟩ := hjam p
  obtain ⟨later, hwritten, -⟩ := (hp.heard p.other).written
  rw [Peer.other_other, hpc, said_frames] at hwritten
  have hpos := List.length_pos_iff.mpr hrest
  have hlength := congrArg List.length hwritten
  simp only [Wire.sent, Pc.unsent, List.length_append] at hlength
  omega

end Rest

section Runs

variable {actions : List Act}

-- How many bytes the lines take that were typed so far.
def Setup.volume (c : Setup) (s : State) : Nat :=
  ((s.words .client).flatMap (c.frame .client)).length + ((s.words .server).flatMap (c.frame .server)).length

theorem volume_eq (c : Setup) (s : State) (p : Peer) : c.volume s =
    ((s.words p).flatMap (c.frame p)).length + ((s.words p.other).flatMap (c.frame p.other)).length := by
  cases p with
  | client => rfl
  | server => exact Nat.add_comm _ _

theorem volume_step (h : c.Moves s a s') : 4 * c.volume s' = 4 * c.volume s + c.brings 4 a := by
  have hsame : ∀ op, c.brings 4 (a.1, op) = 0 → s'.words = s.words →
      4 * c.volume s' = 4 * c.volume s + c.brings 4 (a.1, op) := by
    intro op hbrings hwords
    unfold Setup.volume
    rw [hwords, hbrings, Nat.add_zero]
  cases h with
  | selects p line buf h =>
      rw [volume_eq c _ p, volume_eq c _ p, words_hear, words_hear_other, put_words, List.flatMap_append,
        List.length_append]
      simp only [Setup.brings]
      omega
  | fails p op h =>
      refine hsame op ?_ rfl
      generalize (s.party p).pc = pc at h
      cases h <;> rfl
  | _ => exact hsame _ rfl rfl

theorem sum_brings (run : Run c.step c.Fitting c.boot actions s) : (actions.map (c.brings 4)).sum = 4 * c.volume s := by
  generalize hboot : c.boot = first at run
  induction run with
  | nil =>
      subst hboot
      rfl
  | @snoc t u actions a run ok next ih =>
      subst hboot
      have hstep := volume_step (step_moves next)
      rw [List.map_append, List.sum_append, List.map_singleton, List.sum_singleton, ih]
      omega

-- The potential of a conversation in which the lines fit.
def Setup.potential (c : Setup) (hc : c.Agreed) (good : State → Act → Prop) (hgood : ∀ s a, good s a → c.Fitting s a) :
    Potential c.step good (fun a => a.2.own) (fun s => ∀ p, c.Heard s p ∧ (s.party p).pc.Sound) where
  value := State.value
  brings := c.brings 4
  keeps := fun s a u h ok next p => by
    have hmoves := step_moves next
    obtain ⟨q, op⟩ := a
    refine ⟨?_, step_sound hmoves (fun p => (h p).2) p⟩
    rcases Peer.eq_or_other q p with rfl | rfl
    · exact (heard_own hc hmoves (hgood _ _ ok) (h q).2 (h q).1).1
    · exact heard_other hc hmoves (hgood _ _ ok) (h p).1
  pays := fun s a u h ok next => value_step hc (step_moves next) (hgood _ _ ok) fun p => (h p).1

theorem calm_of_run (run : Run c.step c.Fitting c.boot actions s)
    (hcalm : ∀ a ∈ actions, a.2.failed = false ∧ a.2 ≠ .kill) : Run c.step c.Calm c.boot actions s := by
  generalize c.boot = first at run ⊢
  induction run with
  | nil => exact .nil _
  | snoc run ok next ih =>
      refine .snoc (ih fun a ha => hcalm a (List.mem_append_left _ ha)) ⟨ok, hcalm _ (by simp)⟩ next

theorem words_of_own (run : Run c.step c.Calm s actions s') (hown : ∀ a ∈ actions, a.2.own = true) :
    s'.words = s.words := by
  induction run with
  | nil => rfl
  | @snoc t u actions a run ok next ih =>
      rw [← ih fun a ha => hown a (List.mem_append_left _ ha)]
      have hlast := hown a (by simp)
      have hmoves := step_moves next
      cases hmoves with
      | selects p line buf h =>
          cases line with
          | none => rfl
          | some line => cases hlast
      | _ => rfl

theorem heard_init (c : Setup) (p : Peer) : c.Heard c.boot p ∧ (c.boot.party p).pc.Sound :=
  ⟨heard_boot c p, trivial⟩

theorem bound_of_run (hc : c.Agreed) (run : Run c.step c.Fitting c.boot actions s) :
    s.value + actions.countP (fun a => a.2.own) ≤ 4 + 4 * c.volume s := by
  have hboot : c.boot.value = 4 := rfl
  have hwork := (c.potential hc c.Fitting fun _ _ h => h).work run (heard_init c)
  have hpaid : (actions.map (c.brings 4)).sum = 4 * c.volume s := sum_brings run
  change s.value + _ ≤ c.boot.value + (actions.map (c.brings 4)).sum at hwork
  rwa [hboot, hpaid] at hwork

theorem rest_of_run (hc : c.Agreed) (run : Run c.step c.Fitting c.boot actions s) :
    ∃ more t, Run c.step c.Calm s more t ∧ (∀ a ∈ more, a.2.own = true) ∧ t.words = s.words ∧
      actions.countP (fun a => a.2.own) + more.length ≤ 4 + 4 * c.volume s ∧ c.Rests t := by
  have hheard := run.invariant (heard_init c) (c.potential hc c.Fitting fun _ _ h => h).keeps
  obtain ⟨more, t, hmore, hown, hrest⟩ := (c.potential hc c.Calm fun _ _ h => h.1).rests
    (fun a ha => (calm_of_own c s ha 4).2) s.value s hheard (Nat.le_refl _)
  have hwords := words_of_own hmore hown
  have hall := bound_of_run hc (run.append (hmore.mono fun _ _ h => h.1))
  have hcount : more.countP (fun a => a.2.own) = more.length := List.countP_eq_length.mpr hown
  have hvolume : c.volume t = c.volume s := by
    unfold Setup.volume
    rw [hwords]
  rw [List.countP_append, hcount, hvolume] at hall
  refine ⟨more, t, hmore, hown, hwords, by omega, fun q op hq => ?_⟩
  exact hrest (q, op) hq (calm_of_own c t (a := (q, op)) hq 4).1

-- The two programs make no more calls than the lines are long, and come to a rest by themselves.
-- While nothing fails they rest when all is shown, or when both of them wait for room on wires
-- that hold less than was typed at either end, and at no other time.
theorem settles_of_run (c : Setup) (hc : c.Agreed) (hcap : ∀ p, 0 < c.cap p) (actions : List Act) (s : State)
    (run : Run c.step c.Fitting c.boot actions s) :
    actions.countP (fun a => a.2.own) ≤ 4 + 4 * c.volume s ∧
    (∃ more t, Run c.step c.Calm s more t ∧ (∀ a ∈ more, a.2.own = true) ∧ t.words = s.words ∧
      actions.countP (fun a => a.2.own) + more.length ≤ 4 + 4 * c.volume s ∧ c.Rests t) ∧
    ((∀ a ∈ actions, a.2.failed = false ∧ a.2 ≠ .kill) →
      (c.Rests s ↔ c.Settled s ∨ c.Jammed s) ∧
      (c.Jammed s → ∀ p, c.cap p < ((s.words p).flatMap (c.frame p)).length)) := by
  refine ⟨Nat.le_trans (Nat.le_add_left _ _) (bound_of_run hc run), rest_of_run hc run, fun hcalm => ?_⟩
  have hpeace := (calm_of_run run hcalm).invariant (peaceful_boot c)
    fun _ _ _ h ok next => peaceful_step hc (step_moves next) ok h
  refine ⟨⟨hpeace.settled_or_jammed hcap, ?_⟩, hpeace.excess⟩
  rintro (hsettled | hjam)
  · exact hsettled.rests
  · exact hjam.rests

-- Two lines cross each other on wires that are too small for them.
def crossedRun : List Act :=
  [(.client, .select (.ready (some (some lineHi)) false)), (.server, .select (.ready (some (some lineHi)) false)),
    (.client, .write (.upTo 5)), (.server, .write (.upTo 8)), (.client, .write (.upTo 3))]

theorem crossedRun_rests : ∃ s, Run plainSetup.step plainSetup.Fitting plainSetup.boot crossedRun s ∧
    plainSetup.Rests s ∧ s.shown .client = [] ∧ s.shown .server = [] := by
  have hagreed : plainSetup.Agreed := ⟨fun _ => rfl, fun _ => rfl, fun _ hmode => by cases hmode⟩
  have hcap : ∀ p, 0 < plainSetup.cap p := fun _ => show 0 < 8 by omega
  obtain ⟨s, run, hs⟩ := Run.of_guarded plainSetup.step plainSetup.Fitting plainSetup.boot crossedRun
    (fun s => ([Peer.client, Peer.server].all fun p => (s.party p).pc == .send [0x69, 0x0a] false &&
      (s.wire p).held.length == 8) && s.shown .client == [] && s.shown .server == []) (by decide +kernel)
  simp only [List.all_cons, List.all_nil, Bool.and_true, Bool.and_eq_true, beq_iff_eq] at hs
  obtain ⟨⟨⟨⟨hclient, hheld⟩, hserver, hheld'⟩, hshown⟩, hshown'⟩ := hs
  obtain ⟨-, -, hcalm⟩ := settles_of_run plainSetup hagreed hcap crossedRun s run
  have hjam : plainSetup.Jammed s := by
    intro p
    cases p with
    | client => exact ⟨_, _, hclient, by decide, hheld⟩
    | server => exact ⟨_, _, hserver, by decide, hheld'⟩
  exact ⟨s, run, (hcalm (by simp [crossedRun, Op.failed])).1.mpr (.inr hjam), hshown, hshown'⟩

end Runs

end CryptodevChat.Dialogue
