import CryptodevChat.Chat.Listening

namespace CryptodevChat.Dialogue

open Lib
open Chat

-- The calls that return without anything new from a keyboard.
def Op.own : Op → Bool
  | .select (.ready none true) | .read (.upTo _) | .write (.upTo _) | .display (.upTo _) => true
  | _ => false

theorem Fails.not_own {pc : Pc} {op : Op} (h : Fails pc op) : op.own = false := by cases h <;> rfl

section Effort

-- What a program has still to do: so many calls for each byte to write, one for each byte to
-- show, and those to come back to `select` and to leave it again.
def Party.effort (price : Nat) (p : Party) : Nat :=
  match p.pc with
  | .select => 2
  | .send rest _ => 2 + price * rest.length
  | .head cells off _ => if cells.take off = [] then 1 else 2 + (cells.take off).length
  | .body _ off _ => 6 + (p.buf.take off).length
  | .display rest => 2 + rest.length
  | .left | .stopped _ | .killed => 0

variable (env : Env) (price : Nat)

theorem effort_resume (conn : Bool) (buf : List Byte) :
    (resume env conn buf).effort price = if conn then 1 else 2 := by
  unfold resume
  split <;> simp [Party.effort]

theorem effort_sending (rest : List Byte) (conn : Bool) (buf : List Byte) :
    (sending env rest conn buf).effort price ≤ 2 + price * rest.length := by
  unfold sending
  split
  · rw [effort_resume]
    split <;> omega
  · exact Nat.le_refl _

theorem effort_showing (rest buf : List Byte) : (showing rest buf).effort price = 2 + rest.length := by
  unfold showing
  split_ifs with hrest
  · rw [hrest]
    rfl
  · rfl

variable {env} {p : Party} {got : List Byte}

theorem Party.Got.effort (h : p.Got env got) :
    p.effort price = if got = [] then 1 else 2 + got.length := by
  obtain ⟨pc, buf⟩ := p
  cases pc with
  | head cells off count =>
      obtain ⟨rfl, -, -⟩ := h
      rfl
  | body size off count =>
      obtain ⟨-, -, -, rfl⟩ := h
      have hlength : (be 4 size ++ buf.take off).length = 4 + (buf.take off).length := by
        rw [List.length_append, be_length]
      have hne : be 4 size ++ buf.take off ≠ [] := List.ne_nil_of_length_pos (by omega)
      dsimp only
      rw [if_neg hne, hlength]
      change 6 + (buf.take off).length = _
      omega
  | _ => exact h.elim

end Effort

variable {c : Setup} {s s' : State} {a : Act} {p : Peer} {said : List Word} {k : Nat}

section Prices

variable (price : Nat)

-- What a line adds to the words.
def spoken : Option (Option CString) → List CString
  | some (some line) => if line.bytes = [] then [] else [line]
  | _ => []

-- The calls that a line brings are paid for by the bytes of its frame.
def Setup.brings (c : Setup) (a : Act) : Nat :=
  match a.2 with
  | .select (.ready line _) => price * ((spoken line).flatMap (c.frame a.1)).length
  | _ => 0

-- `select` returns, perhaps with a line.
theorem effort_begin (hc : c.Agreed) (line : Option (Option CString)) (conn : Bool) (buf : List Byte)
    (hok : c.Fitting s (p, .select (.ready line conn))) :
    (begin (c.env p) (c.prompt p) line conn buf).effort price +
      (if (Op.select (.ready line conn)).own then 1 else 0) ≤
      2 + c.brings price (p, .select (.ready line conn)) := by
  have hresume := effort_resume (c.env p) price conn buf
  cases line with
  | none =>
      change (resume (c.env p) conn buf).effort price + _ ≤ _
      cases conn <;> simp [hresume, Op.own]
  | some line =>
      have hown : (Op.select (.ready (some line) conn)).own = false := rfl
      rw [hown, if_neg (by decide), Nat.add_zero]
      cases line with
      | none =>
          change (resume (c.env p) conn buf).effort price ≤ _
          rw [hresume]
          split <;> omega
      | some line =>
          by_cases hempty : line.bytes = []
          · have hbegin : begin (c.env p) (c.prompt p) (some (some line)) conn buf =
                resume (c.env p) conn buf := by
              unfold begin
              dsimp only
              rw [if_pos ((head_cells line).mpr hempty)]
            rw [hbegin, hresume]
            split <;> omega
          · obtain ⟨hbegin, -⟩ := begin_fits hc p line conn buf hempty (hok.resolve_left hempty)
            have hbrings : c.brings price (p, .select (.ready (some (some line)) conn)) =
                price * (c.frame p line).length := by
              simp [Setup.brings, spoken, hempty]
            rw [hbegin, hbrings]
            exact effort_sending _ _ _ _ _

-- A `read` costs less than the bytes that it takes.
theorem effort_received (hh : c.Hears s p said) {count n : Nat} (hasks : (s.party p).pc.asks = some count)
    (hn : 0 < n) (hle : n ≤ count) (hlen : n ≤ (s.wire p.other).held.length) :
    (received (c.env p) (s.party p) ((s.wire p.other).held.take n)).effort price + 1 ≤
      (s.party p).effort price + 3 * n := by
  obtain ⟨k, -, hl⟩ := hh.listens
  obtain ⟨got, w, rest, hgot, -, -, hcoded, hframe, -, hcase⟩ := hh.reads hasks hn hle hlen hl
  have hdata : ((s.wire p.other).held.take n).length = n := by
    rw [List.length_take]
    omega
  have heffort := hgot.effort price
  have hlower : 2 + got.length ≤ (s.party p).effort price + n := by
    rw [heffort]
    split_ifs with hnil
    · rw [hnil, List.length_nil]
      omega
    · omega
  rcases hcase with ⟨hmore, -⟩ | ⟨rfl, buf, hshow⟩
  · have hne : got ++ (s.wire p.other).held.take n ≠ [] := List.ne_nil_of_length_pos (by
      rw [List.length_append]
      omega)
    rw [hmore.effort price, if_neg hne, List.length_append]
    omega
  · have hlength := congrArg List.length hframe
    rw [List.append_nil, List.length_append] at hlength
    have hmessage := hcoded.message_le
    rw [hshow, effort_showing]
    omega

-- One that meets the end of the stream costs less than what is left to do.
theorem effort_reading (hh : c.Hears s p said) {count : Nat} (hasks : (s.party p).pc.asks = some count) :
    1 ≤ (s.party p).effort price := by
  obtain ⟨k, -, hl⟩ := hh.listens
  obtain ⟨got, hgot, -⟩ := hl.got hasks
  rw [hgot.effort price]
  split <;> omega

end Prices

-- Nobody is killed, and no call fails.
def Op.failed : Op → Bool
  | .select (.failed _) | .read (.fail _) | .write (.fail _) | .display (.fail _) => true
  | _ => false

theorem Fails.failed {pc : Pc} {op : Op} (h : Fails pc op) : op.failed = true := by cases h <;> rfl

def Setup.Calm (c : Setup) (s : State) (a : Act) : Prop :=
  c.Fitting s a ∧ a.2.failed = false ∧ a.2 ≠ .kill

theorem calm_of_own (c : Setup) (s : State) (ha : a.2.own = true) (price : Nat) :
    c.Calm s a ∧ c.brings price a = 0 := by
  obtain ⟨p, op⟩ := a
  cases op with
  | select o =>
      cases o with
      | failed errno => cases ha
      | ready line conn =>
          cases line with
          | none => exact ⟨⟨trivial, rfl, by simp⟩, by simp [Setup.brings, spoken]⟩
          | some line => cases ha
  | read t | write t | display t =>
      cases t with
      | upTo n => exact ⟨⟨trivial, rfl, by simp⟩, rfl⟩
      | fail errno => cases ha
  | kill => cases ha

section Peace

theorem over_resume (env : Env) (conn : Bool) (buf : List Byte) : (resume env conn buf).pc.over = false := by
  unfold resume
  split <;> rfl

theorem over_sending (env : Env) (rest : List Byte) (conn : Bool) (buf : List Byte) :
    (sending env rest conn buf).pc.over = false := by
  unfold sending
  split
  · exact over_resume env conn buf
  · rfl

theorem over_showing (rest buf : List Byte) : (showing rest buf).pc.over = false := by
  unfold showing
  split <;> rfl

theorem Party.Got.live {env : Env} {p : Party} {got : List Byte} (h : p.Got env got) : p.pc.over = false := by
  obtain ⟨pc, buf⟩ := p
  cases pc <;> first | rfl | exact h.elim

-- A program does not leave the conversation first.
theorem leaves_own (hc : c.Agreed) {op : Op} (h : c.Moves s (p, op) s') (ok : c.Calm s (p, op))
    (hh : c.Hears s p said) : (s'.party p).pc.over = false ∨
      (s'.party p).pc = .left ∧ (s.party p.other).pc.over = true := by
  obtain ⟨hfitting, hcalm, hkill⟩ := ok
  cases h with
  | selects _ line buf h =>
      obtain ⟨rest, hbegin⟩ := begin_sends hc line (s.readable p) buf hfitting
      rw [hear_party, put_party, hbegin]
      exact .inl (over_sending _ _ _ _)
  | writes _ rest conn buf n h hn hle hcap =>
      rw [setWire_party, put_party]
      exact .inl (over_sending _ _ _ _)
  | shows _ rest buf n h hn hle =>
      rw [show_party, put_party]
      exact .inl (over_showing _ _)
  | reads _ count n h hn hle hlen =>
      obtain ⟨k, -, hl⟩ := hh.listens
      obtain ⟨got, w, rest, -, -, -, -, -, -, hcase⟩ := hh.reads h hn hle hlen hl
      rw [setWire_party, put_party]
      rcases hcase with ⟨hmore, -⟩ | ⟨-, buf, hshow⟩
      · exact .inl hmore.live
      · rw [hshow]
        exact .inl (over_showing _ _)
  | ends _ count n h hn hle hempty hover =>
      rw [put_party]
      exact .inr ⟨hungUp_pc _ _, hover⟩
  | fails _ op h =>
      rw [h.failed] at hcalm
      cases hcalm
  | kills _ h => exact absurd rfl hkill

theorem live_own (hc : c.Agreed) {op : Op} (h : c.Moves s (p, op) s') (ok : c.Calm s (p, op))
    (hh : c.Hears s p said) (hother : (s.party p.other).pc.over = false) : (s'.party p).pc.over = false := by
  refine (leaves_own hc h ok hh).resolve_right ?_
  rintro ⟨-, hover⟩
  rw [hother] at hover
  cases hover

-- A program waits for a frame only that has begun to come.
def Pc.Awaits (ready : Bool) : Pc → Prop
  | .send _ conn => conn = true → ready = true
  | .head cells off _ => cells.take off = [] → ready = true
  | _ => True

theorem Pc.Awaits.mono {pc : Pc} {ready ready' : Bool} (h : pc.Awaits ready) (hready : ready = true → ready' = true) :
    pc.Awaits ready' := by
  cases pc with
  | send rest conn => exact fun hconn => hready (h hconn)
  | head cells off count => exact fun hnil => hready (h hnil)
  | _ => trivial

theorem awaits_resume (env : Env) (conn : Bool) (buf : List Byte) : (resume env conn buf).pc.Awaits conn := by
  unfold resume
  split
  · rename_i hconn
    exact fun _ => hconn
  · trivial

theorem awaits_sending (env : Env) (rest : List Byte) (conn : Bool) (buf : List Byte) :
    (sending env rest conn buf).pc.Awaits conn := by
  unfold sending
  split
  · exact awaits_resume env conn buf
  · exact id

theorem awaits_showing (rest buf : List Byte) (ready : Bool) : (showing rest buf).pc.Awaits ready := by
  unfold showing
  split <;> trivial

theorem Party.Got.awaits {env : Env} {p : Party} {got : List Byte} (h : p.Got env got) (hgot : got ≠ []) (ready : Bool) :
    p.pc.Awaits ready := by
  obtain ⟨pc, buf⟩ := p
  cases pc with
  | head cells off count => exact fun hnil => absurd (h.1.trans hnil) hgot
  | body size off count => trivial
  | _ => exact h.elim

theorem awaits_own (hc : c.Agreed) {op : Op} (h : c.Moves s (p, op) s') (ok : c.Calm s (p, op))
    (hh : c.Hears s p said) (hother : (s.party p.other).pc.over = false)
    (hbefore : (s.party p).pc.Awaits (s.readable p)) : (s'.party p).pc.Awaits (s'.readable p) := by
  obtain ⟨hfitting, hcalm, hkill⟩ := ok
  cases h with
  | selects _ line buf h =>
      obtain ⟨rest, hbegin⟩ := begin_sends hc line (s.readable p) buf hfitting
      have hready : ((s.put p (begin (c.env p) (c.prompt p) line (s.readable p) buf)).hear p line).readable p =
          s.readable p := by simp [State.readable, put_party_ne _ _ _ _ (Peer.other_ne p)]
      rw [hready, hear_party, put_party, hbegin]
      exact awaits_sending _ _ _ _
  | writes _ rest conn buf n h hn hle hcap =>
      have hready : ((s.put p (sending (c.env p) (rest.drop n) conn buf)).setWire p
          ⟨(s.wire p).taken, (s.wire p).held ++ rest.take n⟩).readable p = s.readable p := by
        simp [State.readable, put_party_ne _ _ _ _ (Peer.other_ne p), setWire_wire_ne _ _ _ _ (Peer.other_ne p)]
      rw [h] at hbefore
      rw [hready, setWire_party, put_party]
      exact (awaits_sending _ _ _ _).mono hbefore
  | shows _ rest buf n h hn hle =>
      rw [show_party, put_party]
      exact awaits_showing _ _ _
  | reads _ count n h hn hle hlen =>
      obtain ⟨k, -, hl⟩ := hh.listens
      obtain ⟨got, w, rest, -, -, -, -, -, -, hcase⟩ := hh.reads h hn hle hlen hl
      have hne : got ++ (s.wire p.other).held.take n ≠ [] := List.ne_nil_of_length_pos (by
        rw [List.length_append, List.length_take]
        omega)
      rw [setWire_party, put_party]
      rcases hcase with ⟨hmore, -⟩ | ⟨-, buf, hshow⟩
      · exact hmore.awaits hne _
      · rw [hshow]
        exact awaits_showing _ _ _
  | ends _ count n h hn hle hempty hover =>
      rw [hother] at hover
      cases hover
  | fails _ op h =>
      rw [h.failed] at hcalm
      cases hcalm
  | kills _ h => exact absurd rfl hkill

end Peace

-- A program cannot go on before a line is typed or something comes.
def Setup.Stays (c : Setup) (s : State) (p : Peer) : Prop := ∀ op, op.own = true → c.step s (p, op) = none

section Rest

theorem Setup.Stays.unreadable (h : c.Stays s p) {count : Nat} (hcount : 0 < count)
    (hpc : (s.party p).pc = .select ∨ (s.party p).pc.asks = some count) : s.readable p = false := by
  by_contra hready
  rw [Bool.not_eq_false] at hready
  rcases hpc with hpc | hasks
  · have hnone := h (.select (.ready none true)) rfl
    simp [Setup.step, hpc, hready] at hnone
  · have hnone := h (.read (.upTo 1)) rfl
    have hread : c.readStep s p count (.upTo 1) = none := by
      cases hpc : (s.party p).pc with
      | head cells off ask | body size off ask =>
          rw [hpc] at hasks
          cases hasks
          simpa [Setup.step, hpc] using hnone
      | _ =>
          rw [hpc] at hasks
          cases hasks
    simp only [Setup.readStep, hready] at hread
    split_ifs at hread with hone hempty hlen
    · have hpos := List.length_pos_iff.mpr hempty
      omega
    · exact hone ⟨Nat.one_pos, hcount, trivial⟩

theorem Setup.Stays.full (h : c.Stays s p) {rest : List Byte} {conn : Bool} (hpc : (s.party p).pc = .send rest conn)
    (hrest : rest ≠ []) : c.cap p ≤ (s.wire p).held.length := by
  have hpos := List.length_pos_iff.mpr hrest
  have hnone := h (.write (.upTo 1)) rfl
  simp only [Setup.step, hpc] at hnone
  split_ifs at hnone with hroom
  omega

theorem Setup.Stays.silent (h : c.Stays s p) {rest : List Byte} (hrest : rest ≠ []) :
    (s.party p).pc ≠ .display rest := by
  intro hpc
  have hpos := List.length_pos_iff.mpr hrest
  have hnone := h (.display (.upTo 1)) rfl
  simp only [Setup.step, hpc] at hnone
  split_ifs at hnone with hone
  omega

theorem Party.Got.ne_nil {env : Env} {p : Party} {got : List Byte} (h : p.Got env got) (hawaits : p.pc.Awaits false) :
    got ≠ [] := by
  obtain ⟨pc, buf⟩ := p
  rintro rfl
  cases pc with
  | head cells off count => cases hawaits h.1.symm
  | body size off count =>
      have hlength := congrArg List.length h.2.2.2
      rw [List.length_append, be_length, List.length_nil] at hlength
      omega
  | _ => exact h.elim

-- What is behind the words that were read, when nothing is on its way.
theorem eq_remainder (hempty : (s.wire p.other).held = [])
    (hwhole : (s.wire p.other).sent = said.flatMap Word.frame) {got : List Byte}
    (htaken : (s.wire p.other).taken = (said.take k).flatMap Word.frame ++ got) :
    got = (said.drop k).flatMap Word.frame := by
  rw [← List.take_append_drop k said, List.flatMap_append, Wire.sent, htaken, hempty] at hwhole
  simpa [List.append_assoc] using hwhole

-- A frame of which a part has come is there to its end.
theorem Setup.Hears.not_asks (hh : c.Hears s p said) (hs : (s.party p).pc.Sound)
    (hawaits : (s.party p).pc.Awaits false) (hempty : (s.wire p.other).held = [])
    (hwhole : (s.wire p.other).sent = said.flatMap Word.frame) {count : Nat} :
    (s.party p).pc.asks ≠ some count := by
  intro hasks
  obtain ⟨k, -, hl⟩ := hh.listens
  obtain ⟨got, hgot, htaken, -⟩ := hl.got hasks
  have hne := hgot.ne_nil hawaits
  have hrest := eq_remainder hempty hwhole htaken
  cases hdrop : said.drop k with
  | nil =>
      rw [hdrop] at hrest
      exact hne hrest
  | cons w others =>
      have hmem : w ∈ said := List.mem_of_mem_drop (by rw [hdrop]; exact List.mem_cons_self)
      rw [hdrop, List.flatMap_cons] at hrest
      have hframe : got ++ [] = w.frame ++ others.flatMap Word.frame := by rw [List.append_nil, hrest]
      have hwithin := hgot.le (hh.coded w hmem) hasks hframe
      have hpos := hs.asks_pos hasks
      have hlength := congrArg List.length hrest
      rw [List.length_append] at hlength
      omega

theorem Setup.Hears.shown_all (hh : c.Hears s p said) (hpc : (s.party p).pc = .select)
    (hempty : (s.wire p.other).held = []) (hwhole : (s.wire p.other).sent = said.flatMap Word.frame) :
    s.shown p = said.flatMap Word.message := by
  obtain ⟨k, -, hl⟩ := hh.listens
  unfold Setup.Listens at hl
  rw [hpc] at hl
  obtain ⟨htaken, hshown⟩ := hl
  rw [← List.append_nil (List.flatMap _ _)] at htaken
  have hrest := eq_remainder hempty hwhole htaken
  cases hdrop : said.drop k with
  | nil => rw [hshown, List.take_of_length_le (List.drop_eq_nil_iff.mp hdrop)]
  | cons w others =>
      have hmem : w ∈ said := List.mem_of_mem_drop (by rw [hdrop]; exact List.mem_cons_self)
      have hframe := (hh.coded w hmem).headSize_le
      have hpos := headSize_pos (c.env p)
      have hlength := congrArg List.length hrest
      rw [hdrop, List.flatMap_cons, List.length_append, List.length_nil] at hlength
      omega

end Rest

end CryptodevChat.Dialogue
