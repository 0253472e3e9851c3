import Mathlib.Data.List.Basic

namespace CryptodevChat.Lib

variable {α : Type*}

-- The outcome of one transfer call: some number of elements, or an error.
inductive Transfer
  | upTo (count : Nat)
  | fail (errno : Nat)
  deriving DecidableEq, Repr

-- A call that asks for `asked` elements moves at least one and at most all of them.
def Transfer.clamp (count asked : Nat) : Nat := min (max count 1) asked

def Transfer.Succeeds : Transfer → Prop
  | .upTo _ => True
  | .fail _ => False

-- What the peer will have sent before it closes, and the outcomes of the next
-- calls. Once the listed outcomes are used up every call moves all it can.
structure Source (α : Type*) where
  pending : List α
  sched : List Transfer
  deriving DecidableEq

structure Sink (α : Type*) where
  sent : List α
  sched : List Transfer
  deriving DecidableEq

def Source.Reliable (s : Source α) : Prop := ∀ t ∈ s.sched, t.Succeeds
def Sink.Reliable (s : Sink α) : Prop := ∀ t ∈ s.sched, t.Succeeds

-- An empty answer means that the stream has ended.
def Source.read (s : Source α) (count : Nat) : Except Nat (List α) × Source α :=
  match s.sched with
  | .fail errno :: rest => (.error errno, { s with sched := rest })
  | .upTo k :: rest =>
      (.ok (s.pending.take (Transfer.clamp k count)),
        { pending := s.pending.drop (Transfer.clamp k count), sched := rest })
  | [] => (.ok (s.pending.take count), { s with pending := s.pending.drop count })

def Sink.write (s : Sink α) (data : List α) : Except Nat Nat × Sink α :=
  match s.sched with
  | .fail errno :: rest => (.error errno, { s with sched := rest })
  | .upTo k :: rest =>
      let n := Transfer.clamp k data.length
      (.ok n, { sent := s.sent ++ data.take n, sched := rest })
  | [] => (.ok data.length, { s with sent := s.sent ++ data })

inductive Ending
  | full
  | eof
  | failed (errno : Nat)
  deriving DecidableEq, Repr

-- Repeat the call until everything asked for has been moved, the stream ends
-- or a call fails. Each round moves an element, so the count bounds the rounds.
def Source.insist : Nat → Source α → Nat → List α × Ending × Source α
  | 0, s, _ => ([], .full, s)
  | fuel + 1, s, count =>
      if count = 0 then ([], .full, s)
      else match s.read count with
        | (.error errno, s') => ([], .failed errno, s')
        | (.ok [], s') => ([], .eof, s')
        | (.ok (x :: xs), s') =>
            let (more, ending, s'') := s'.insist fuel (count - (x :: xs).length)
            (x :: xs ++ more, ending, s'')

def Sink.insist : Nat → Sink α → List α → Ending × Sink α
  | 0, s, _ => (.full, s)
  | fuel + 1, s, data =>
      if data = [] then (.full, s)
      else match s.write data with
        | (.error errno, s') => (.failed errno, s')
        | (.ok n, s') => s'.insist fuel (data.drop n)

-- One read takes a prefix of what is pending, and the stream keeps the rest.
theorem Source.read_ok (s s' : Source α) (count : Nat) (data : List α)
    (hcount : 0 < count) (h : s.read count = (.ok data, s')) :
    s.pending = data ++ s'.pending ∧ data.length ≤ count ∧
      (data = [] → s.pending = []) ∧ s'.sched = s.sched.tail := by
  have htake : ∀ n, 0 < n → s.pending.take n = [] → s.pending = [] := by
    intro n hn he
    rcases List.take_eq_nil_iff.mp he with h0 | h0
    · omega
    · exact h0
  unfold Source.read at h
  split at h
  · cases h
  · rename_i k rest hs
    simp only [Prod.mk.injEq, Except.ok.injEq] at h
    obtain ⟨rfl, rfl⟩ := h
    have hpos : 0 < Transfer.clamp k count := by unfold Transfer.clamp; omega
    have hle : Transfer.clamp k count ≤ count := by unfold Transfer.clamp; omega
    refine ⟨(List.take_append_drop _ _).symm, ?_, htake _ hpos, by rw [hs]; rfl⟩
    exact Nat.le_trans (List.length_take_le _ _) hle
  · rename_i hs
    simp only [Prod.mk.injEq, Except.ok.injEq] at h
    obtain ⟨rfl, rfl⟩ := h
    exact ⟨(List.take_append_drop _ _).symm, List.length_take_le _ _, htake _ hcount, by simp [hs]⟩

theorem Source.read_error (s s' : Source α) (count errno : Nat)
    (h : s.read count = (.error errno, s')) :
    s'.pending = s.pending ∧ .fail errno ∈ s.sched := by
  unfold Source.read at h
  split at h
  · rename_i rest hs
    simp only [Prod.mk.injEq, Except.error.injEq] at h
    obtain ⟨rfl, rfl⟩ := h
    exact ⟨rfl, by simp [hs]⟩
  · cases h
  · cases h

-- The result of the loop, whatever the outcomes of the calls were.
structure Source.Taken (s : Source α) (count : Nat) (data : List α) (ending : Ending)
    (rest : Source α) : Prop where
  split : s.pending = data ++ rest.pending
  le : data.length ≤ count
  full : ending = .full ↔ data.length = count
  eof : ending = .eof → rest.pending = []
  failed : ∀ errno, ending = .failed errno → .fail errno ∈ s.sched
  sched : rest.sched ⊆ s.sched

theorem Source.insist_taken (fuel : Nat) (s : Source α) (count : Nat) (hfuel : count ≤ fuel) :
    s.Taken count (s.insist fuel count).1 (s.insist fuel count).2.1 (s.insist fuel count).2.2 := by
  induction fuel generalizing s count with
  | zero =>
      obtain rfl : count = 0 := by omega
      exact ⟨rfl, Nat.le_refl _, by simp [Source.insist], by simp [Source.insist],
        by simp [Source.insist], List.Subset.refl _⟩
  | succ fuel ih =>
      unfold Source.insist
      by_cases h0 : count = 0
      · subst h0
        exact ⟨rfl, Nat.le_refl _, by simp, by simp, by simp, List.Subset.refl _⟩
      · simp only [h0, if_false]
        cases hr : s.read count with
        | mk res s' =>
            cases res with
            | error errno =>
                have he := s.read_error s' count errno hr
                refine ⟨he.1.symm, Nat.zero_le _, ?_, by simp, ?_, ?_⟩
                · simpa using Ne.symm h0
                · intro e h; cases h; exact he.2
                · intro t ht
                  unfold Source.read at hr
                  split at hr <;> cases hr
                  rename_i hs
                  simpa [hs] using Or.inr ht
            | ok data =>
                obtain ⟨hsplit, hle, hnil, hsched⟩ := s.read_ok s' count data (by omega) hr
                have htail : s'.sched ⊆ s.sched := hsched ▸ fun _ => List.mem_of_mem_tail
                cases data with
                | nil =>
                    have hp : s'.pending = [] := by simpa [hnil rfl] using hsplit.symm
                    exact ⟨hsplit, Nat.zero_le _, by simpa using Ne.symm h0, fun _ => hp,
                      by simp, htail⟩
                | cons x xs =>
                    have hi := ih s' (count - (x :: xs).length) (by
                      simp only [List.length_cons] at hle ⊢
                      omega)
                    refine ⟨?_, ?_, ?_, hi.eof, fun e h => htail (hi.failed e h),
                      List.Subset.trans hi.sched htail⟩
                    · rw [hsplit, hi.split, List.append_assoc]
                    · have := hi.le
                      simp only [List.length_append]
                      omega
                    · rw [hi.full]
                      simp only [List.length_append]
                      omega

theorem Source.Taken.data_eq_take {s rest : Source α} {count : Nat} {data : List α}
    {ending : Ending} (h : s.Taken count data ending rest) : data = s.pending.take data.length := by
  rw [h.split, List.take_left']
  rfl

theorem Source.Taken.rest_eq_drop {s rest : Source α} {count : Nat} {data : List α}
    {ending : Ending} (h : s.Taken count data ending rest) :
    rest.pending = s.pending.drop data.length := by
  rw [h.split, List.drop_left']
  rfl

-- Without failing calls the loop ends full exactly when the stream is long enough.
theorem Source.Taken.reliable {s rest : Source α} {count : Nat} {data : List α}
    {ending : Ending} (h : s.Taken count data ending rest) (hs : s.Reliable) :
    (count ≤ s.pending.length → ending = .full) ∧
      (s.pending.length < count → ending = .eof ∧ data = s.pending) ∧ rest.Reliable := by
  have hlen : s.pending.length = data.length + rest.pending.length := by
    rw [h.split, List.length_append]
  refine ⟨?_, ?_, fun t ht => hs t (h.sched ht)⟩
  · intro hle
    cases ending with
    | full => rfl
    | eof =>
        have hnil := h.eof rfl
        have := h.le
        rw [hnil] at hlen
        exact h.full.mpr (by simp only [List.length_nil] at hlen; omega)
    | failed errno => exact False.elim (hs _ (h.failed errno rfl))
  · intro hlt
    cases ending with
    | full => have := h.full.mp rfl; omega
    | eof => exact ⟨rfl, by simpa [h.eof rfl] using h.split.symm⟩
    | failed errno => exact False.elim (hs _ (h.failed errno rfl))

-- The write loop appends a prefix of the data: all of it, or less when a call failed.
structure Sink.Given (s : Sink α) (data : List α) (ending : Ending) (next : Sink α) : Prop where
  sent : ∃ moved, moved <+: data ∧ next.sent = s.sent ++ moved ∧
    (ending = .full → moved = data) ∧ (ending ≠ .full → moved ≠ data)
  eof : ending ≠ .eof
  failed : ∀ errno, ending = .failed errno → .fail errno ∈ s.sched
  sched : next.sched ⊆ s.sched

theorem Sink.write_ok (s s' : Sink α) (data : List α) (n : Nat) (hdata : data ≠ [])
    (h : s.write data = (.ok n, s')) :
    s'.sent = s.sent ++ data.take n ∧ 0 < n ∧ n ≤ data.length ∧ s'.sched = s.sched.tail := by
  have hpos : 0 < data.length := List.length_pos_of_ne_nil hdata
  unfold Sink.write at h
  split at h
  · cases h
  · rename_i k rest hs
    simp only [Prod.mk.injEq, Except.ok.injEq] at h
    obtain ⟨rfl, rfl⟩ := h
    refine ⟨rfl, ?_, ?_, by simp [hs]⟩ <;> unfold Transfer.clamp <;> omega
  · rename_i hs
    simp only [Prod.mk.injEq, Except.ok.injEq] at h
    obtain ⟨rfl, rfl⟩ := h
    exact ⟨by simp, hpos, Nat.le_refl _, by simp [hs]⟩

theorem Sink.write_error (s s' : Sink α) (data : List α) (errno : Nat)
    (h : s.write data = (.error errno, s')) :
    s'.sent = s.sent ∧ .fail errno ∈ s.sched ∧ s'.sched ⊆ s.sched := by
  unfold Sink.write at h
  split at h
  · rename_i rest hs
    simp only [Prod.mk.injEq, Except.error.injEq] at h
    obtain ⟨rfl, rfl⟩ := h
    exact ⟨rfl, by simp [hs], fun t ht => by simpa [hs] using Or.inr ht⟩
  · cases h
  · cases h

theorem Sink.insist_given (fuel : Nat) (s : Sink α) (data : List α) (hfuel : data.length ≤ fuel) :
    s.Given data (s.insist fuel data).1 (s.insist fuel data).2 := by
  induction fuel generalizing s data with
  | zero =>
      obtain rfl : data = [] := List.length_eq_zero_iff.mp (by omega)
      exact ⟨⟨[], List.prefix_refl _, by simp [Sink.insist], by simp, by simp [Sink.insist]⟩,
        by simp [Sink.insist], by simp [Sink.insist], List.Subset.refl _⟩
  | succ fuel ih =>
      unfold Sink.insist
      by_cases h0 : data = []
      · subst h0
        exact ⟨⟨[], List.prefix_refl _, by simp, by simp, by simp⟩, by simp, by simp,
          List.Subset.refl _⟩
      · simp only [h0, if_false]
        cases hw : s.write data with
        | mk res s' =>
            cases res with
            | error errno =>
                obtain ⟨hsent, hmem, hsub⟩ := s.write_error s' data errno hw
                refine ⟨⟨[], List.nil_prefix, by simp [hsent], by simp, fun _ => Ne.symm h0⟩,
                  by simp, ?_, hsub⟩
                intro e h; cases h; exact hmem
            | ok n =>
                obtain ⟨hsent, hpos, hle, hsched⟩ := s.write_ok s' data n h0 hw
                have htail : s'.sched ⊆ s.sched := hsched ▸ fun _ => List.mem_of_mem_tail
                have hi := ih s' (data.drop n) (by simp only [List.length_drop]; omega)
                obtain ⟨moved, hpre, hmoved, hfull, hpart⟩ := hi.sent
                refine ⟨⟨data.take n ++ moved, ?_, ?_, ?_, ?_⟩, hi.eof,
                  fun e h => htail (hi.failed e h), List.Subset.trans hi.sched htail⟩
                · obtain ⟨t, ht⟩ := hpre
                  exact ⟨t, by rw [List.append_assoc, ht, List.take_append_drop]⟩
                · simp only [hmoved, hsent, List.append_assoc]
                · intro h; rw [hfull h, List.take_append_drop]
                · intro h he
                  apply hpart h
                  apply (List.append_right_inj (data.take n)).mp
                  rw [he, List.take_append_drop]

theorem Sink.Given.reliable {s next : Sink α} {data : List α} {ending : Ending}
    (h : s.Given data ending next) (hs : s.Reliable) :
    ending = .full ∧ next.sent = s.sent ++ data ∧ next.Reliable := by
  obtain ⟨moved, _, hsent, hfull, _⟩ := h.sent
  have hend : ending = .full := by
    cases ending with
    | full => rfl
    | eof => exact False.elim (h.eof rfl)
    | failed errno => exact False.elim (hs _ (h.failed errno rfl))
  exact ⟨hend, by rw [hsent, hfull hend], fun t ht => hs t (h.sched ht)⟩

end CryptodevChat.Lib
