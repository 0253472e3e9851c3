import CryptodevChat.Lib.Channel

namespace CryptodevChat.Lib

section Outcomes

-- What was listed before and is listed no more are successes.
structure Unmet (before after : List Transfer) : Prop where
  subset : after ⊆ before
  used : ∀ t ∈ before, t.Succeeds ∨ t ∈ after

theorem Unmet.rfl {sched : List Transfer} : Unmet sched sched := ⟨List.Subset.refl _, fun _ => .inr⟩

theorem Unmet.trans {first second third : List Transfer} (h : Unmet first second)
    (h' : Unmet second third) : Unmet first third where
  subset := List.Subset.trans h'.subset h.subset
  used := fun t ht => (h.used t ht).elim .inl (h'.used t)

theorem Unmet.cons {t : Transfer} {sched : List Transfer} (h : t.Succeeds) :
    Unmet (t :: sched) sched where
  subset := List.subset_cons_self t sched
  used := by
    intro u hu
    rcases List.mem_cons.mp hu with rfl | hu
    · exact .inl h
    · exact .inr hu

theorem Unmet.append {a b c d : List Transfer} (h : Unmet a b) (h' : Unmet c d) :
    Unmet (a ++ c) (b ++ d) where
  subset := fun t ht => List.mem_append.mpr ((List.mem_append.mp ht).imp (@h.subset t) (@h'.subset t))
  used := by
    intro t ht
    rcases List.mem_append.mp ht with ht | ht
    · exact (h.used t ht).imp id (List.mem_append_left d)
    · exact (h'.used t ht).imp id (List.mem_append_right b)

-- A list that has been used up without a failure.
theorem Unmet.succeeds {sched : List Transfer} (h : Unmet sched []) : ∀ t ∈ sched, t.Succeeds :=
  fun t ht => (h.used t ht).resolve_right (List.not_mem_nil)

variable {α : Type*}

theorem Source.read_unmet (s s' : Source α) (count : Nat) (data : List α)
    (h : s.read count = (.ok data, s')) : Unmet s.sched s'.sched := by
  unfold Source.read at h
  split at h
  · cases h
  · rename_i k rest hs
    cases h
    rw [hs]
    exact .cons trivial
  · cases h
    exact .rfl

theorem Sink.write_unmet (s s' : Sink α) (data : List α) (n : Nat)
    (h : s.write data = (.ok n, s')) : Unmet s.sched s'.sched := by
  unfold Sink.write at h
  split at h
  · cases h
  · rename_i k rest hs
    cases h
    rw [hs]
    exact .cons trivial
  · cases h
    exact .rfl

-- A loop that ends without an error has met none.
theorem Source.insist_unmet (fuel : Nat) (s : Source α) (count : Nat)
    (h : ∀ errno, (s.insist fuel count).2.1 ≠ .failed errno) :
    Unmet s.sched (s.insist fuel count).2.2.sched := by
  induction fuel generalizing s count with
  | zero => exact .rfl
  | succ fuel ih =>
      unfold Source.insist at h ⊢
      by_cases hcount : count = 0
      · simpa only [hcount, if_true] using Unmet.rfl
      · simp only [hcount, if_false] at h ⊢
        cases hr : s.read count with
        | mk res s' =>
            cases res with
            | error errno =>
                rw [hr] at h
                exact absurd rfl (h errno)
            | ok data =>
                have hread := s.read_unmet s' count data hr
                cases data with
                | nil => exact hread
                | cons x xs =>
                    rw [hr] at h
                    exact hread.trans (ih s' _ h)

theorem Sink.insist_unmet (fuel : Nat) (s : Sink α) (data : List α)
    (h : ∀ errno, (s.insist fuel data).1 ≠ .failed errno) :
    Unmet s.sched (s.insist fuel data).2.sched := by
  induction fuel generalizing s data with
  | zero => exact .rfl
  | succ fuel ih =>
      unfold Sink.insist at h ⊢
      by_cases hdata : data = []
      · simpa only [hdata, if_true] using Unmet.rfl
      · simp only [hdata, if_false] at h ⊢
        cases hw : s.write data with
        | mk res s' =>
            cases res with
            | error errno =>
                rw [hw] at h
                exact absurd rfl (h errno)
            | ok n =>
                rw [hw] at h
                exact (s.write_unmet s' data n hw).trans (ih s' _ h)

-- Unless a call fails, the result depends only on the stream.
theorem Source.Taken.determined {s rest : Source α} {count : Nat} {data : List α} {ending : Ending}
    (h : s.Taken count data ending rest) (hend : ∀ errno, ending ≠ .failed errno) :
    data = s.pending.take count ∧ rest.pending = s.pending.drop count ∧
      ending = if count ≤ s.pending.length then .full else .eof := by
  have hlen : s.pending.length = data.length + rest.pending.length := by
    rw [h.split, List.length_append]
  have hdata := h.data_eq_take
  have hdrop := h.rest_eq_drop
  cases ending with
  | full =>
      have hfull := h.full.mp rfl
      rw [hfull] at hdata hdrop
      exact ⟨hdata, hdrop, (if_pos (by omega)).symm⟩
  | eof =>
      have hnil := h.eof rfl
      have hle := h.le
      have hshort : data.length ≠ count := fun he => by simpa using h.full.mpr he
      rw [hnil, List.length_nil] at hlen
      refine ⟨?_, ?_, (if_neg (by omega)).symm⟩
      · rw [List.take_of_length_le (by omega), h.split, hnil, List.append_nil]
      · rw [List.drop_of_length_le (by omega), hnil]
  | failed errno => exact absurd rfl (hend errno)

-- With nothing listed every call moves all it can.
theorem Source.insist_calm (s : Source α) (count : Nat) (h : s.sched = []) :
    s.insist count count = (s.pending.take count,
      if count ≤ s.pending.length then .full else .eof, ⟨s.pending.drop count, []⟩) := by
  have htaken := s.insist_taken count count (Nat.le_refl _)
  generalize s.insist count count = r at htaken
  obtain ⟨data, ending, pending, sched⟩ := r
  have hend : ∀ errno, ending ≠ .failed errno := by
    intro errno he
    simpa [h] using htaken.failed errno he
  obtain ⟨rfl, hrest, rfl⟩ := htaken.determined hend
  obtain rfl := List.subset_nil.mp (h ▸ htaken.sched)
  rw [← hrest]

theorem Sink.insist_calm (s : Sink α) (data : List α) (h : s.sched = []) :
    s.insist data.length data = (.full, ⟨s.sent ++ data, []⟩) := by
  have hgiven := s.insist_given data.length data (Nat.le_refl _)
  generalize s.insist data.length data = r at hgiven
  obtain ⟨ending, sent, sched⟩ := r
  obtain ⟨rfl, hsent, -⟩ := hgiven.reliable (by simp [Sink.Reliable, h])
  obtain rfl := List.subset_nil.mp (h ▸ hgiven.sched)
  rw [← hsent]

end Outcomes

universe u

variable {ε σ α β : Type u}

-- Two runs of one program from two states: what holds between the states as long as
-- both go on, between the ends when both stop, and of an end that the first alone comes to.
structure Coupling (ε σ : Type u) where
  states : σ → σ → Prop
  stops : ε → σ → ε → σ → Prop
  escapes : ε → σ → Prop

variable (C : Coupling ε σ)

inductive Coupling.Ends : EStateM.Result ε σ α → EStateM.Result ε σ α → Prop
  | ok (a : α) (s t : σ) (h : C.states s t) : Ends (.ok a s) (.ok a t)
  | error (e e' : ε) (s t : σ) (h : C.stops e s e' t) : Ends (.error e s) (.error e' t)
  | escape (e : ε) (s : σ) (r : EStateM.Result ε σ α) (h : C.escapes e s) : Ends (.error e s) r

-- From coupled states the program gives the same result in coupled states.
def Coupling.Keeps (x : EStateM ε σ α) : Prop := ∀ s t, C.states s t → C.Ends (x s) (x t)

variable {C}

theorem Coupling.keeps_pure (a : α) : C.Keeps (pure a : EStateM ε σ α) := fun s t h => .ok a s t h

theorem Coupling.keeps_throw (e : ε) (h : ∀ s t, C.states s t → C.stops e s e t) :
    C.Keeps (throw e : EStateM ε σ α) := fun s t hst => .error e e s t (h s t hst)

-- The rest of the program is run on values that the first part can return.
theorem Coupling.keeps_bind {x : EStateM ε σ α} {f : α → EStateM ε σ β} (hx : C.Keeps x)
    (hf : ∀ a s t, x s = .ok a t → C.Keeps (f a)) : C.Keeps (x >>= f) := by
  intro s t hst
  have hends := hx s t hst
  change C.Ends (EStateM.bind x f s) (EStateM.bind x f t)
  unfold EStateM.bind
  generalize hs : x s = r at hends
  generalize ht : x t = r' at hends
  cases hends with
  | ok a s' t' h => exact hf a s s' hs s' t' h
  | error e e' s' t' h => exact .error e e' s' t' h
  | escape e s' r h => exact .escape e s' _ h

-- A computation that does not look at the state and leaves it alone.
theorem Coupling.keeps_const {x : EStateM ε σ α} (a : α) (h : ∀ s, x s = .ok a s) : C.Keeps x := by
  intro s t hst
  rw [h s, h t]
  exact .ok a s t hst

end CryptodevChat.Lib
