import CryptodevChat.Lib.Run

namespace CryptodevChat.Lib

variable {δ : Type*}

-- A loop around a call that may move less than it is asked for. The results that the
-- call `gives` are numbers of elements or mean that nothing was moved, and `stop` is
-- what the loop returns at once on a result. `move` is what a call does that moved `n`
-- elements from `place` on, `none` when that is an access outside.
structure Insist (δ : Type*) where
  gives : δ → (count : Nat) → (ret : Int) → Prop
  stop : (ret : Int) → Option Int
  move : δ → (place n : Nat) → Option δ
  stops : ∀ ret r, stop ret = some r → r = ret ∧ ret ≤ 0
  passes : ∀ d count ret, gives d count ret → stop ret = none → 0 < ret ∧ ret.toNat ≤ count

namespace Insist

structure State (δ : Type*) where
  place : Nat
  count : Nat
  medium : δ
  returned : Option Int

-- The test in front of every round. The loop returns `total` when nothing is left.
def test (total place count : Nat) (medium : δ) : State δ :=
  ⟨place, count, medium, if 0 < count then none else some total⟩

variable (L : Insist δ)

-- A round in which the call returned `ret`, and the test after it.
def round (total : Nat) (s : State δ) (ret : Int) : Option (State δ) :=
  match s.returned with
  | some _ => none
  | none =>
      match L.stop ret with
      | some r => some { s with returned := some r }
      | none =>
          (L.move s.medium s.place ret.toNat).map
            (test total (s.place + ret.toNat) (s.count - ret.toNat))

-- The loop from a test on, with the results that its calls return.
def Runs (total place count : Nat) (medium : δ) (results : List Int) (t : State δ) : Prop :=
  Run (L.round total) (fun s ret => L.gives s.medium s.count ret)
    (test total place count medium) results t

-- Results that the calls may return one after the other.
def Schedule (total place count : Nat) (medium : δ) (results : Nat → Int) : Prop :=
  ∀ n t, L.Runs total place count medium ((List.range n).map results) t → t.returned = none →
    L.gives t.medium t.count (results n)

variable {L}

theorem round_cases (total : Nat) (s u : State δ) (ret : Int) (h : L.round total s ret = some u) :
    s.returned = none ∧
      (L.stop ret = some ret ∧ u = { s with returned := some ret } ∨
        L.stop ret = none ∧ ∃ d, L.move s.medium s.place ret.toNat = some d ∧
          u = test total (s.place + ret.toNat) (s.count - ret.toNat) d) := by
  unfold round at h
  cases hreturned : s.returned with
  | some r => simp [hreturned] at h
  | none =>
      refine ⟨rfl, ?_⟩
      simp only [hreturned] at h
      cases hstop : L.stop ret with
      | some r =>
          obtain ⟨rfl, -⟩ := L.stops ret r hstop
          simp only [hstop, Option.some.injEq] at h
          exact .inl ⟨rfl, h.symm⟩
      | none =>
          simp only [hstop, Option.map_eq_some_iff] at h
          obtain ⟨d, hmove, hu⟩ := h
          exact .inr ⟨rfl, d, hmove, hu.symm⟩

-- A loop that has not returned makes another round, unless a call accesses what is outside.
theorem round_some (total : Nat) (s : State δ) (ret : Int) (hgoing : s.returned = none)
    (hmove : L.stop ret = none → ∃ d, L.move s.medium s.place ret.toNat = some d) :
    ∃ u, L.round total s ret = some u := by
  unfold round
  simp only [hgoing]
  cases hstop : L.stop ret with
  | some r => exact ⟨_, rfl⟩
  | none =>
      obtain ⟨d, hd⟩ := hmove hstop
      exact ⟨_, congrArg (Option.map _) hd⟩

section Building

variable {total place count : Nat} {d : δ}

theorem Runs.nil (total place : Nat) (d : δ) :
    L.Runs total place 0 d [] ⟨place, 0, d, some total⟩ := Run.nil _

theorem Runs.stop (ret : Int) (hcount : 0 < count) (hgives : L.gives d count ret)
    (hstop : L.stop ret = some ret) :
    L.Runs total place count d [ret] ⟨place, count, d, some ret⟩ := by
  refine Run.cons hgives ?_ (.nil _)
  simp only [round, test, hcount, if_true, hstop]

theorem Runs.move {results : List Int} {t : State δ} (ret : Int) (d' : δ) (hcount : 0 < count)
    (hgives : L.gives d count ret) (hstop : L.stop ret = none)
    (hmove : L.move d place ret.toNat = some d')
    (run : L.Runs total (place + ret.toNat) (count - ret.toNat) d' results t) :
    L.Runs total place count d (ret :: results) t := by
  refine Run.cons hgives ?_ run
  simp only [round, test, hcount, if_true, hstop, hmove, Option.map_some]

end Building

variable (L)

-- How far the loop has come after `results`, of which only the last one may have stopped it.
inductive Outcome (total moved : Nat) (medium : δ) (results : List Int) : Option Int → Prop
  | going (short : moved < total) (rounds : results.length ≤ moved)
      (passed : ∀ ret ∈ results, L.stop ret = none) : Outcome total moved medium results none
  | done (full : moved = total) (rounds : results.length ≤ moved)
      (passed : ∀ ret ∈ results, L.stop ret = none) : Outcome total moved medium results (some total)
  | stopped (before : List Int) (ret : Int) (split : results = before ++ [ret])
      (short : moved < total) (rounds : before.length ≤ moved)
      (passed : ∀ ret ∈ before, L.stop ret = none) (stop : L.stop ret = some ret)
      (given : L.gives medium (total - moved) ret) : Outcome total moved medium results (some ret)

-- The place and the remaining count move together, and `I` holds of what was moved.
structure Course (total place : Nat) (I : Nat → δ → Prop) (results : List Int) (moved : Nat)
    (t : State δ) : Prop where
  place_eq : t.place = place + moved
  count_eq : moved + t.count = total
  medium : I moved t.medium
  outcome : L.Outcome total moved t.medium results t.returned

variable {L}

theorem outcome_test (total moved place count : Nat) (d : δ) (results : List Int)
    (hcount : moved + count = total) (hrounds : results.length ≤ moved)
    (hpassed : ∀ ret ∈ results, L.stop ret = none) :
    L.Outcome total moved d results (test total place count d).returned := by
  by_cases h : 0 < count
  · simp only [test, h, if_true]
    exact .going (by omega) hrounds hpassed
  · simp only [test, h, if_false]
    exact .done (by omega) hrounds hpassed

-- The loop rule. What every transfer keeps holds after any results of the calls.
theorem Runs.course {total place : Nat} {d : δ} {results : List Int} {t : State δ}
    (run : L.Runs total place total d results t) (I : Nat → δ → Prop) (hinit : I 0 d)
    (hmove : ∀ moved d count ret d', I moved d → L.gives d count ret → 0 < ret →
      moved + ret.toNat ≤ total → L.move d (place + moved) ret.toNat = some d' →
      I (moved + ret.toNat) d') :
    ∃ moved, L.Course total place I results moved t := by
  unfold Runs at run
  induction run with
  | nil =>
      exact ⟨0, rfl, Nat.zero_add _, hinit,
        outcome_test total 0 place total d [] (Nat.zero_add _) (Nat.le_refl _) (by simp)⟩
  | @snoc s u before ret run hgives hround ih =>
      obtain ⟨moved, hplace, hcount, hmedium, houtcome⟩ := ih
      obtain ⟨hreturned, hcases⟩ := round_cases total s u ret hround
      rw [hreturned] at houtcome
      obtain ⟨hshort, hrounds, hpassed⟩ := houtcome
      rcases hcases with ⟨hstop, rfl⟩ | ⟨hstop, d', hd', rfl⟩
      · rw [show s.count = total - moved by omega] at hgives
        exact ⟨moved, hplace, hcount, hmedium,
          .stopped before ret rfl hshort hrounds hpassed hstop hgives⟩
      · obtain ⟨hpos, hle⟩ := L.passes s.medium s.count ret hgives hstop
        rw [hplace] at hd' ⊢
        refine ⟨moved + ret.toNat, Nat.add_assoc _ _ _, ?_, ?_, ?_⟩
        · simp only [test]
          omega
        · exact hmove moved s.medium s.count ret d' hmedium hgives hpos (by omega) hd'
        · apply outcome_test
          · omega
          · simp only [List.length_append, List.length_singleton]
            omega
          · simpa [or_imp, forall_and] using And.intro hpassed hstop

section Outcomes

variable {total moved : Nat} {medium : δ} {results : List Int} {returned : Option Int}

-- The loop ends: as long as it goes on there were fewer calls than elements to move.
theorem Outcome.calls (h : L.Outcome total moved medium results returned) (hgoing : returned = none) :
    results.length < total := by
  subst hgoing
  obtain ⟨hshort, hrounds, -⟩ := h
  omega

theorem Outcome.transfers (h : L.Outcome total moved medium results returned) :
    (results.filter (0 < ·)).length ≤ moved := by
  cases h with
  | going _ rounds _ => exact Nat.le_trans (List.length_filter_le _ _) rounds
  | done _ rounds _ => exact Nat.le_trans (List.length_filter_le _ _) rounds
  | stopped before ret split _ rounds _ stop _ =>
      have hret : ¬ 0 < ret := by
        have := (L.stops ret ret stop).2
        omega
      subst split
      rw [List.filter_append, List.filter_singleton]
      simp only [hret, decide_false, Bool.cond_false, List.append_nil]
      exact Nat.le_trans (List.length_filter_le _ _) rounds

theorem Outcome.le (h : L.Outcome total moved medium results returned) : moved ≤ total := by
  cases h <;> omega

-- The loop returns the whole count exactly when it has moved all of it.
theorem Outcome.full_iff (h : L.Outcome total moved medium results returned) :
    returned = some (total : Int) ↔ moved = total := by
  cases h with
  | going short _ _ => simp only [reduceCtorEq, false_iff]; omega
  | done full _ _ => simp only [full]
  | stopped before ret _ short _ _ stop _ =>
      have hret := (L.stops ret ret stop).2
      simp only [Option.some.injEq]
      omega

-- It returns a result that stops it exactly when a call has returned that.
theorem Outcome.stop_iff (h : L.Outcome total moved medium results returned) (r : Int)
    (hstop : L.stop r = some r) (hr : r ≠ total) : returned = some r ↔ r ∈ results := by
  have hnot : ∀ before : List Int, (∀ ret ∈ before, L.stop ret = none) → r ∉ before := by
    intro before hpassed hmem
    have hnone := hpassed r hmem
    simp [hstop] at hnone
  cases h with
  | going _ _ passed => simp [hnot results passed]
  | done _ _ passed => simpa [hnot results passed] using Ne.symm hr
  | stopped before ret split _ _ passed _ _ =>
      subst split
      simp [hnot before passed, eq_comm]

-- It returns nothing else.
theorem Outcome.returns (h : L.Outcome total moved medium results returned) (r : Int)
    (hreturned : returned = some r) :
    r = total ∨ r ≤ 0 ∧ L.stop r = some r ∧ L.gives medium (total - moved) r ∧ moved < total := by
  cases h with
  | going _ _ _ => cases hreturned
  | done _ _ _ => cases hreturned; exact .inl rfl
  | stopped _ _ _ short _ _ stop given =>
      cases hreturned
      exact .inr ⟨(L.stops _ _ stop).2, stop, given, short⟩

end Outcomes

-- Under every schedule the loop returns, after at most as many calls as there are
-- elements to move, when no call that it makes accesses what is outside.
theorem Schedule.returns {total place : Nat} {d : δ} {results : Nat → Int}
    (h : L.Schedule total place total d results)
    (hround : ∀ n t, L.Runs total place total d ((List.range n).map results) t →
      t.returned = none → ∃ u, L.round total t (results n) = some u) :
    ∃ n ≤ total, ∃ t, L.Runs total place total d ((List.range n).map results) t ∧
      t.returned ≠ none := by
  by_contra hno
  have hnever : ∀ n ≤ total, ∀ t, L.Runs total place total d ((List.range n).map results) t →
      t.returned = none := by
    intro n hn t run
    by_contra hreturned
    exact hno ⟨n, hn, t, run, hreturned⟩
  have hgoing : ∀ n ≤ total,
      ∃ t, L.Runs total place total d ((List.range n).map results) t := by
    intro n hn
    induction n with
    | zero => exact ⟨_, Run.nil _⟩
    | succ n ih =>
        obtain ⟨t, run⟩ := ih (by omega)
        have hreturned := hnever n (by omega) t run
        obtain ⟨u, hu⟩ := hround n t run hreturned
        refine ⟨u, ?_⟩
        rw [List.range_succ, List.map_append]
        exact Run.snoc run (h n t run hreturned) hu
  obtain ⟨t, run⟩ := hgoing total (Nat.le_refl _)
  obtain ⟨_, hcourse⟩ := run.course (fun _ _ => True) trivial (by simp)
  have hcalls := hcourse.outcome.calls (hnever total (Nat.le_refl _) t run)
  simp at hcalls

end Insist

end CryptodevChat.Lib
