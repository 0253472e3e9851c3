import CryptodevChat.Lib.Insist
import CryptodevChat.Chat.Transfer

namespace CryptodevChat.Chat

open Lib

-- What `write` may return when it is asked for `count` bytes.
def WriteGives (count : Nat) (ret : Int) : Prop := ret < 0 ∨ 0 < ret ∧ ret.toNat ≤ count

-- `read` returns nothing only at the end of what the descriptor will deliver.
def ReadGives (pending : List Byte) (count : Nat) (ret : Int) : Prop :=
  ret < 0 ∨ ret = 0 ∧ pending = [] ∨ 0 < ret ∧ ret.toNat ≤ count ∧ ret.toNat ≤ pending.length

-- The loop of `insist_write` over what the descriptor was given. `buf` points into `cells`.
def writing (cells : List Byte) : Insist (List Byte) where
  gives _ count ret := WriteGives count ret
  stop ret := if ret < 0 then some ret else none
  move sent buf n := (load cells buf n).map (sent ++ ·)
  stops := by
    intro ret r h
    split at h
    · cases h
      omega
    · cases h
  passes := by
    intro sent count ret hgives hstop
    split at hstop
    · cases hstop
    · unfold WriteGives at hgives
      omega

-- The object that `buf` points into and what the descriptor will still deliver.
structure Reading where
  cells : List Byte
  pending : List Byte
  deriving DecidableEq

-- The loop of `insist_read`.
def reading : Insist Reading where
  gives s count ret := ReadGives s.pending count ret
  stop ret := if ret < 0 then some ret else if ret ≤ 0 then some 0 else none
  move s buf n :=
    (store s.cells buf (s.pending.take n)).map fun cells => ⟨cells, s.pending.drop n⟩
  stops := by
    intro ret r h
    split at h
    · cases h
      omega
    · split at h
      · cases h
        omega
      · cases h
  passes := by
    intro s count ret hgives hstop
    split at hstop
    · cases hstop
    · split at hstop
      · cases hstop
      · unfold ReadGives at hgives
        omega

-- `insist_write(fd, buf, cnt)` and `insist_read(fd, buf, cnt)` with the results of their
-- calls. No object has 2^63 bytes, so `cnt` is its own value when it is returned.
def InsistWrite (b : Slice Byte) (sent : List Byte) (results : List Int)
    (t : Insist.State (List Byte)) : Prop :=
  (writing b.cells).Runs b.len b.off b.len sent results t

def InsistRead (b : Slice Byte) (stream : List Byte) (results : List Int)
    (t : Insist.State Reading) : Prop :=
  reading.Runs b.len b.off b.len ⟨b.cells, stream⟩ results t

theorem writing_stop (cells : List Byte) (ret : Int) (h : ret < 0) :
    (writing cells).stop ret = some ret := if_pos h

theorem writing_pass (cells : List Byte) (ret : Int) (h : 0 < ret) :
    (writing cells).stop ret = none := if_neg (by omega)

theorem writing_stops (cells : List Byte) (ret r : Int) (h : (writing cells).stop ret = some r) :
    r < 0 := by
  obtain ⟨rfl, -⟩ := (writing cells).stops ret r h
  by_contra hr
  simp [writing, hr] at h

theorem reading_stop (ret : Int) (h : ret ≤ 0) : reading.stop ret = some ret := by
  by_cases hret : ret < 0
  · exact if_pos hret
  · obtain rfl : ret = 0 := by omega
    rfl

theorem reading_pass (ret : Int) (h : 0 < ret) : reading.stop ret = none := by
  simp only [reading, show ¬ ret < 0 by omega, show ¬ ret ≤ 0 by omega, if_false]

section Chat

-- The loops of the chat programs run this way: a failing call of theirs returns -1.
theorem writing_insist (b : Slice Byte) (fuel moved : Nat) (s : Sink Byte) (hmoved : moved ≤ b.len)
    (hfuel : b.len ≤ moved + fuel) :
    ∃ results t, (writing b.cells).Runs b.len (b.off + moved) (b.len - moved) s.sent results t ∧
      t.returned = some (code b.len (s.insist fuel (b.data.drop moved)).1) ∧
      t.medium = (s.insist fuel (b.data.drop moved)).2.sent := by
  induction fuel generalizing moved s with
  | zero =>
      obtain rfl : moved = b.len := by omega
      rw [Nat.sub_self]
      exact ⟨[], _, .nil _ _ _, rfl, rfl⟩
  | succ fuel ih =>
      have hlen : (b.data.drop moved).length = b.len - moved := by simp
      unfold Sink.insist
      by_cases h0 : b.data.drop moved = []
      · rw [h0, List.length_nil] at hlen
        rw [← hlen]
        simp only [h0, if_true]
        exact ⟨[], _, .nil _ _ _, rfl, rfl⟩
      · have hpos := List.length_pos_of_ne_nil h0
        simp only [h0, if_false]
        cases hw : s.write (b.data.drop moved) with
        | mk res s' =>
            cases res with
            | error errno =>
                obtain ⟨hsent, -, -⟩ := s.write_error s' _ errno hw
                exact ⟨[-1], _, .stop (-1) (by omega) (.inl (by omega)) rfl, rfl, hsent.symm⟩
            | ok n =>
                obtain ⟨hsent, hn, hle, -⟩ := s.write_ok s' _ n h0 hw
                obtain ⟨results, t, run, hreturned, hmedium⟩ :=
                  ih (moved + n) s' (by omega) (by omega)
                rw [← List.drop_drop] at hreturned hmedium
                have hgives : WriteGives (b.len - moved) n := .inr ⟨by omega, by omega⟩
                refine ⟨(n : Int) :: results, t, ?_, hreturned, hmedium⟩
                apply Insist.Runs.move (n : Int) s'.sent (by omega) hgives
                  (writing_pass b.cells n (by omega))
                · simp only [writing, Int.toNat_natCast, b.load_data moved n (by omega), hsent,
                    Option.map_some]
                · rw [Int.toNat_natCast, Nat.add_assoc, Nat.sub_sub]
                  exact run

theorem reading_insist (total fuel off count : Nat) (cells next : List Byte) (s : Source Byte)
    (hoff : off ≤ cells.length) (hfuel : count ≤ fuel)
    (h : store cells off (s.insist fuel count).1 = some next) :
    ∃ results t, reading.Runs total off count ⟨cells, s.pending⟩ results t ∧
      t.returned = some (code total (s.insist fuel count).2.1) ∧
      t.medium = ⟨next, (s.insist fuel count).2.2.pending⟩ := by
  induction fuel generalizing cells off count s with
  | zero =>
      obtain rfl : count = 0 := by omega
      simp only [Source.insist, store_nil cells off hoff, Option.some.injEq] at h
      subst h
      exact ⟨[], _, .nil _ _ _, rfl, rfl⟩
  | succ fuel ih =>
      unfold Source.insist at h ⊢
      by_cases h0 : count = 0
      · simp only [h0, if_true, store_nil cells off hoff, Option.some.injEq] at h ⊢
        subst h
        exact ⟨[], _, .nil _ _ _, rfl, rfl⟩
      · simp only [h0, if_false] at h ⊢
        cases hr : s.read count with
        | mk res s' =>
            rw [hr] at h
            cases res with
            | error errno =>
                simp only [store_nil cells off hoff, Option.some.injEq] at h
                subst h
                obtain ⟨hpending, -⟩ := s.read_error s' count errno hr
                exact ⟨[-1], _, .stop (-1) (by omega) (.inl (by omega)) rfl, rfl, by rw [hpending]⟩
            | ok data =>
                obtain ⟨hsplit, hle, hnil, -⟩ := s.read_ok s' count data (by omega) hr
                cases data with
                | nil =>
                    simp only [store_nil cells off hoff, Option.some.injEq] at h
                    subst h
                    exact ⟨[0], _, .stop 0 (by omega) (.inr (.inl ⟨rfl, hnil rfl⟩)) rfl, rfl,
                      by rw [hsplit, List.nil_append]⟩
                | cons x xs =>
                    simp only at h ⊢
                    generalize hdata : x :: xs = data at *
                    have hpos : 0 < data.length := by simp [← hdata]
                    have hb := store_bound _ _ _ _ h
                    simp only [List.length_append] at hb
                    obtain ⟨mid, hmid⟩ : ∃ mid, store cells off data = some mid :=
                      ⟨_, store_eq_some cells off data (by omega)⟩
                    have hl := store_length _ _ _ _ hmid
                    rw [← store_store cells mid off _ _ hmid] at h
                    obtain ⟨results, t, run, hreturned, hmedium⟩ :=
                      ih _ _ mid s' (by omega) (by omega) h
                    have hgives : ReadGives s.pending count data.length :=
                      .inr (.inr ⟨by omega, by omega, by simp [hsplit]⟩)
                    refine ⟨(data.length : Int) :: results, t, ?_, hreturned, hmedium⟩
                    apply Insist.Runs.move (data.length : Int) ⟨mid, s'.pending⟩ (by omega) hgives
                      (reading_pass _ (by omega))
                    · simp [reading, hsplit, hmid]
                    · simpa using run

theorem insistWrite_runs (fd : Nat) (b : Slice Byte) (w : World) :
    ∃ r w' results t, insistWrite fd b.data w = .ok r w' ∧
      InsistWrite b (w.out fd).sent results t ∧ t.returned = some r ∧
      t.medium = (w'.out fd).sent := by
  obtain ⟨results, t, run, hreturned, hmedium⟩ :=
    writing_insist b b.len 0 (w.out fd) (Nat.zero_le _) (by omega)
  refine ⟨_, _, results, t, insistWrite_run fd b.data w, run, ?_, ?_⟩
  · simpa using hreturned
  · simpa using hmedium

theorem insistRead_runs (fd : Nat) (b : Slice Byte) (w : World) :
    ∃ r next w' results t, insistRead fd b.cells b.off b.len w = .ok (r, next) w' ∧
      InsistRead b (w.inp fd).pending results t ∧ t.returned = some r ∧
      t.medium = ⟨next, (w'.inp fd).pending⟩ := by
  have hb := b.inside
  have htaken := (w.inp fd).insist_taken b.len b.len (Nat.le_refl _)
  have hle := htaken.le
  have hnext := store_eq_some b.cells b.off ((w.inp fd).insist b.len b.len).1 (by omega)
  obtain ⟨results, t, run, hreturned, hmedium⟩ :=
    reading_insist b.len b.len b.off b.len b.cells _ (w.inp fd) (by omega) (Nat.le_refl _) hnext
  refine ⟨_, _, _, results, t, insistRead_run fd b.cells _ b.off b.len w (by omega) hnext, run,
    hreturned, ?_⟩
  simpa using hmedium

end Chat

-- The bytes in front of `buf` have been appended.
theorem insistWrite_course (b : Slice Byte) (sent : List Byte) (results : List Int)
    (t : Insist.State (List Byte)) (run : InsistWrite b sent results t) :
    ∃ moved, (writing b.cells).Course b.len b.off
      (fun moved given => given = sent ++ b.data.take moved) results moved t := by
  apply Insist.Runs.course run
  · simp
  · intro moved given count ret given' hgiven _ _ hle hmove
    simp only [writing, b.load_data moved ret.toNat hle, Option.map_some, Option.some.injEq] at hmove
    rw [← hmove, hgiven, List.append_assoc, List.take_add]

-- The first bytes of the stream are those in front of `buf`.
structure Stored (b : Slice Byte) (stream : List Byte) (moved : Nat) (s : Reading) : Prop where
  le : moved ≤ stream.length
  pending : s.pending = stream.drop moved
  cells : store b.cells b.off (stream.take moved) = some s.cells

section Stored

variable {b : Slice Byte} {stream : List Byte} {moved : Nat} {s : Reading}

theorem Stored.taken (h : Stored b stream moved s) : (stream.take moved).length = moved :=
  List.length_take_of_le h.le

theorem Stored.split (h : Stored b stream moved s) : stream = stream.take moved ++ s.pending := by
  rw [h.pending, List.take_append_drop]

theorem Stored.length (h : Stored b stream moved s) :
    stream.length = moved + s.pending.length := by
  have hle := h.le
  rw [h.pending, List.length_drop]
  omega

theorem Stored.more (h : Stored b stream moved s) (n : Nat) (cells : List Byte)
    (hn : n ≤ s.pending.length) (hcells : store s.cells (b.off + moved) (s.pending.take n) = some cells) :
    Stored b stream (moved + n) ⟨cells, s.pending.drop n⟩ where
  le := by
    have hlength := h.length
    omega
  pending := by
    rw [h.pending, List.drop_drop]
  cells := by
    have hnext := store_store b.cells s.cells b.off (stream.take moved) (s.pending.take n) h.cells
    rw [h.taken, hcells, h.pending, ← List.take_add] at hnext
    exact hnext.symm

end Stored

theorem insistRead_course (b : Slice Byte) (stream : List Byte) (results : List Int)
    (t : Insist.State Reading) (run : InsistRead b stream results t) :
    ∃ moved, reading.Course b.len b.off (Stored b stream) results moved t := by
  have hb := b.inside
  apply Insist.Runs.course run
  · exact ⟨Nat.zero_le _, rfl, store_nil b.cells b.off (by omega)⟩
  · intro moved s count ret s' hstored hgives hpos _ hmove
    have hn : ret.toNat ≤ s.pending.length := by
      change ReadGives s.pending count ret at hgives
      unfold ReadGives at hgives
      omega
    simp only [reading, Option.map_eq_some_iff] at hmove
    obtain ⟨cells, hcells, rfl⟩ := hmove
    exact hstored.more ret.toNat cells hn hcells

-- What holds after any results of `write`.
structure WriteExact (b : Slice Byte) (sent : List Byte) (results : List Int)
    (t : Insist.State (List Byte)) : Prop where
  transfers : (results.filter (0 < ·)).length ≤ b.len
  ends : t.returned = none → results.length < b.len
  proceeds : t.returned = none → ∀ ret, WriteGives t.count ret →
    ∃ u, (writing b.cells).round b.len t ret = some u
  returns : ∀ r, t.returned = some r → r = b.len ∨ r < 0
  full : t.returned = some (b.len : Int) ↔ t.medium = sent ++ b.data
  failed : ∀ r < 0, t.returned = some r ↔ r ∈ results
  part : ∀ r < 0, r ∈ results → ∃ moved < b.len, t.medium = sent ++ b.data.take moved

theorem insistWrite_exact (b : Slice Byte) (sent : List Byte) (results : List Int)
    (t : Insist.State (List Byte)) (run : InsistWrite b sent results t) :
    WriteExact b sent results t := by
  obtain ⟨moved, hplace, hcount, hsent, houtcome⟩ := insistWrite_course b sent results t run
  have hle := houtcome.le
  have hfailed : ∀ r < 0, t.returned = some r ↔ r ∈ results := fun r hr =>
    houtcome.stop_iff r (writing_stop b.cells r hr) (by omega)
  refine ⟨houtcome.transfers.trans hle, houtcome.calls, ?_, ?_, ?_, hfailed, ?_⟩
  · intro hgoing ret hgives
    apply Insist.round_some b.len t ret hgoing
    intro hstop
    have hpass := (writing b.cells).passes t.medium t.count ret hgives hstop
    have hload := b.load_data moved ret.toNat (by omega)
    rw [← hplace] at hload
    exact ⟨_, congrArg (Option.map _) hload⟩
  · intro r hr
    rcases houtcome.returns r hr with hfull | ⟨-, hstop, -⟩
    · exact .inl hfull
    · exact .inr (writing_stops b.cells r r hstop)
  · rw [houtcome.full_iff, hsent, List.append_right_inj]
    constructor
    · intro hfull
      exact List.take_of_length_le (by simp [hfull])
    · intro htake
      have hlen := congrArg List.length htake
      simp only [List.length_take, b.data_length] at hlen
      omega
  · intro r hr hmem
    rcases houtcome.returns r ((hfailed r hr).mpr hmem) with hfull | ⟨-, -, -, hshort⟩
    · omega
    · exact ⟨moved, hshort, hsent⟩

theorem insistWrite_returns (b : Slice Byte) (sent : List Byte) (results : Nat → Int)
    (h : (writing b.cells).Schedule b.len b.off b.len sent results) :
    ∃ n ≤ b.len, ∃ t, InsistWrite b sent ((List.range n).map results) t ∧ t.returned ≠ none := by
  apply h.returns
  intro n t run hgoing
  exact (insistWrite_exact b sent _ t run).proceeds hgoing _ (h n t run hgoing)

-- What holds after any results of `read`.
structure ReadExact (b : Slice Byte) (stream : List Byte) (results : List Int)
    (t : Insist.State Reading) : Prop where
  transfers : (results.filter (0 < ·)).length ≤ b.len
  ends : t.returned = none → results.length < b.len
  proceeds : t.returned = none → ∀ ret, ReadGives t.medium.pending t.count ret →
    ∃ u, reading.round b.len t ret = some u
  returns : ∀ r, t.returned = some r → r = b.len ∨ r ≤ 0
  full : t.returned = some (b.len : Int) ↔ ∃ data, data.length = b.len ∧
    stream = data ++ t.medium.pending ∧ store b.cells b.off data = some t.medium.cells
  eof : 0 < b.len → (t.returned = some 0 ↔
    0 ∈ results ∧ t.medium.pending = [] ∧ stream.length < b.len)
  short : 0 < b.len → t.returned ≠ none → (∀ ret ∈ results, 0 ≤ ret) →
    (t.returned = some 0 ↔ stream.length < b.len)
  failed : ∀ r < 0, t.returned = some r ↔ r ∈ results
  consumed : ∃ data, data.length ≤ b.len ∧ stream = data ++ t.medium.pending
  outside : t.medium.cells.length = b.cells.length ∧
    ∀ i, i < b.off ∨ b.off + b.len ≤ i → t.medium.cells[i]? = b.cells[i]?

section Reading

variable {b : Slice Byte} {stream : List Byte} {results : List Int} {moved : Nat}
  {t : Insist.State Reading} (h : reading.Course b.len b.off (Stored b stream) results moved t)
include h

theorem reading_proceeds (ret : Int) (hgoing : t.returned = none)
    (hgives : ReadGives t.medium.pending t.count ret) :
    ∃ u, reading.round b.len t ret = some u := by
  have hb := b.inside
  have hplace := h.place_eq
  have hcount := h.count_eq
  have hlen := store_length _ _ _ _ h.medium.cells
  have htake := List.length_take_le ret.toNat t.medium.pending
  apply Insist.round_some b.len t ret hgoing
  intro hstop
  have hpass := reading.passes t.medium t.count ret hgives hstop
  have hstore := store_eq_some t.medium.cells t.place (t.medium.pending.take ret.toNat) (by omega)
  exact ⟨_, congrArg (Option.map _) hstore⟩

theorem reading_full : t.returned = some (b.len : Int) ↔ ∃ data, data.length = b.len ∧
    stream = data ++ t.medium.pending ∧ store b.cells b.off data = some t.medium.cells := by
  have hstored := h.medium
  rw [h.outcome.full_iff]
  constructor
  · rintro rfl
    exact ⟨stream.take b.len, hstored.taken, hstored.split, hstored.cells⟩
  · intro ⟨data, hdata, hstream, _⟩
    have hlength := congrArg List.length hstream
    rw [hstored.length, List.length_append] at hlength
    omega

-- The stream has ended when `read` returns nothing.
theorem reading_eof (hpos : 0 < b.len) : t.returned = some 0 ↔
    0 ∈ results ∧ t.medium.pending = [] ∧ stream.length < b.len := by
  have hzero := h.outcome.stop_iff 0 rfl (by omega)
  constructor
  · intro hreturned
    rcases h.outcome.returns 0 hreturned with hfull | ⟨-, -, hgives, hshort⟩
    · omega
    · have hnil : t.medium.pending = [] := by
        rcases hgives with hgives | ⟨-, hgives⟩ | hgives
        · omega
        · exact hgives
        · omega
      have hlength := h.medium.length
      rw [hnil, List.length_nil] at hlength
      exact ⟨hzero.mp hreturned, hnil, by omega⟩
  · intro hended
    exact hzero.mpr hended.1

-- Without errors the length of the stream decides.
theorem reading_short (hpos : 0 < b.len) (hreturned : t.returned ≠ none)
    (hcalm : ∀ ret ∈ results, 0 ≤ ret) : t.returned = some 0 ↔ stream.length < b.len := by
  constructor
  · intro hzero
    exact ((reading_eof h hpos).mp hzero).2.2
  · intro hlt
    obtain ⟨r, hr⟩ := Option.ne_none_iff_exists'.mp hreturned
    have hlength := h.medium.length
    rcases h.outcome.returns r hr with rfl | ⟨hle, hstop, -⟩
    · have hfull := h.outcome.full_iff.mp hr
      omega
    · have hge := hcalm r ((h.outcome.stop_iff r hstop (by omega)).mp hr)
      rw [hr, show r = 0 by omega]

end Reading

theorem insistRead_exact (b : Slice Byte) (stream : List Byte) (results : List Int)
    (t : Insist.State Reading) (run : InsistRead b stream results t) :
    ReadExact b stream results t := by
  obtain ⟨moved, h⟩ := insistRead_course b stream results t run
  have hstored := h.medium
  have htaken := hstored.taken
  have hle := h.outcome.le
  refine ⟨h.outcome.transfers.trans hle, h.outcome.calls, ?_, ?_, reading_full h, reading_eof h,
    reading_short h, ?_, ⟨_, ?_, hstored.split⟩, ?_, ?_⟩
  · intro hgoing ret hgives
    exact reading_proceeds h ret hgoing hgives
  · intro r hr
    exact (h.outcome.returns r hr).imp id And.left
  · intro r hr
    exact h.outcome.stop_iff r (reading_stop r (by omega)) (by omega)
  · omega
  · exact store_length _ _ _ _ hstored.cells
  · intro i hi
    exact store_outside _ _ _ i _ hstored.cells (by omega)

theorem insistRead_returns (b : Slice Byte) (stream : List Byte) (results : Nat → Int)
    (h : reading.Schedule b.len b.off b.len ⟨b.cells, stream⟩ results) :
    ∃ n ≤ b.len, ∃ t, InsistRead b stream ((List.range n).map results) t ∧ t.returned ≠ none := by
  apply h.returns
  intro n t run hgoing
  exact (insistRead_exact b stream _ t run).proceeds hgoing _ (h n t run hgoing)

-- Both loops are exact after any results of their calls, and return under every schedule.
theorem insist_exact (b : Slice Byte) :
    (∀ sent results t, InsistWrite b sent results t → WriteExact b sent results t) ∧
    (∀ stream results t, InsistRead b stream results t → ReadExact b stream results t) ∧
    (∀ sent results, (writing b.cells).Schedule b.len b.off b.len sent results →
      ∃ n ≤ b.len, ∃ t, InsistWrite b sent ((List.range n).map results) t ∧ t.returned ≠ none) ∧
    (∀ stream results, reading.Schedule b.len b.off b.len ⟨b.cells, stream⟩ results →
      ∃ n ≤ b.len, ∃ t, InsistRead b stream ((List.range n).map results) t ∧ t.returned ≠ none) :=
  ⟨insistWrite_exact b, insistRead_exact b, insistWrite_returns b, insistRead_returns b⟩

def middle : Slice Byte := ⟨[65, 66, 67, 68], 1, 2, by decide⟩

theorem middle_write : InsistWrite middle [9] [1, -5] ⟨2, 1, [9, 66], some (-5)⟩ := by
  have hgives : WriteGives 2 1 := .inr ⟨by decide, by decide⟩
  have herror : WriteGives 1 (-5) := .inl (by decide)
  apply Insist.Runs.move 1 [9, 66] (by decide) hgives rfl rfl
  exact .stop (-5) (by decide) herror rfl

theorem middle_read : InsistRead middle [7] [1, 0] ⟨2, 1, ⟨[65, 7, 67, 68], []⟩, some 0⟩ := by
  have hgives : ReadGives [7] 2 1 := .inr (.inr ⟨by decide, by decide, by decide⟩)
  have heof : ReadGives [] 1 0 := .inr (.inl ⟨rfl, rfl⟩)
  apply Insist.Runs.move 1 ⟨[65, 7, 67, 68], []⟩ (by decide) hgives rfl rfl
  exact .stop 0 (by decide) heof rfl

theorem insist_exact_middle :
    WriteExact middle [9] [1, -5] ⟨2, 1, [9, 66], some (-5)⟩ ∧
    ReadExact middle [7] [1, 0] ⟨2, 1, ⟨[65, 7, 67, 68], []⟩, some 0⟩ ∧
    (∃ n ≤ 2, ∃ t, InsistWrite middle [9] ((List.range n).map fun _ => -5) t ∧ t.returned ≠ none) ∧
    ∃ n ≤ 2, ∃ t, InsistRead middle [7] ((List.range n).map fun _ => -5) t ∧ t.returned ≠ none := by
  obtain ⟨hwrite, hread, hwrites, hreads⟩ := insist_exact middle
  refine ⟨hwrite _ _ _ middle_write, hread _ _ _ middle_read, hwrites _ _ ?_, hreads _ _ ?_⟩
  · intro n t _ _
    exact .inl (show (-5 : Int) < 0 by decide)
  · intro n t _ _
    exact .inl (show (-5 : Int) < 0 by decide)

end CryptodevChat.Chat
