import Mathlib.Data.List.Basic

namespace CryptodevChat.Lib

variable {σ α : Type*}

-- A run of a partial step function whose steps all meet a condition on the
-- state before the step and on the action taken.
inductive Run (step : σ → α → Option σ) (good : σ → α → Prop) : σ → List α → σ → Prop
  | nil (s : σ) : Run step good s [] s
  | snoc {s t u : σ} {actions : List α} {a : α} (run : Run step good s actions t)
      (ok : good t a) (next : step t a = some u) : Run step good s (actions ++ [a]) u

variable {step : σ → α → Option σ} {good : σ → α → Prop}

-- What every good step keeps holds at the end of every run.
theorem Run.invariant {s t : σ} {actions : List α} (run : Run step good s actions t)
    {I : σ → Prop} (hinit : I s)
    (hstep : ∀ s a u, I s → good s a → step s a = some u → I u) : I t := by
  induction run with
  | nil => exact hinit
  | snoc _ ok next ih => exact hstep _ _ _ ih ok next

theorem Run.cons {s t u : σ} {a : α} {actions : List α} (ok : good s a)
    (next : step s a = some t) (run : Run step good t actions u) :
    Run step good s (a :: actions) u := by
  induction run with
  | nil => exact @Run.snoc _ _ _ _ _ _ _ [] _ (.nil s) ok next
  | snoc _ ok' next' ih => exact @Run.snoc _ _ _ _ _ _ _ (a :: _) _ ih ok' next'

theorem Run.append {s t u : σ} {before after : List α} (first : Run step good s before t)
    (second : Run step good t after u) : Run step good s (before ++ after) u := by
  induction second with
  | nil => simpa using first
  | snoc _ ok next ih => rw [← List.append_assoc]; exact .snoc ih ok next

theorem Run.mono {good' : σ → α → Prop} {s t : σ} {actions : List α}
    (run : Run step good s actions t) (h : ∀ s a, good s a → good' s a) :
    Run step good' s actions t := by
  induction run with
  | nil => exact .nil _
  | snoc _ ok next ih => exact .snoc ih (h _ _ ok) next

-- With what the run keeps, a condition on its steps gives another one.
theorem Run.strengthen {good' : σ → α → Prop} {s t : σ} {actions : List α}
    (run : Run step good s actions t) {I : σ → Prop} (hinit : I s)
    (hstep : ∀ s a u, I s → good s a → step s a = some u → I u)
    (hgood : ∀ s a u, I s → good s a → step s a = some u → good' s a) :
    Run step good' s actions t := by
  induction run with
  | nil => exact .nil _
  | snoc run ok next ih => exact .snoc ih (hgood _ _ _ (run.invariant hinit hstep) ok next) next

-- Two conditions that the same steps meet are met together.
theorem Run.and {good' : σ → α → Prop} {s t : σ} {actions : List α}
    (first : Run step good s actions t) (second : Run step good' s actions t) :
    Run step (fun s a => good s a ∧ good' s a) s actions t := by
  have hboth : ∀ u, Run step good' s actions u →
      u = t ∧ Run step (fun s a => good s a ∧ good' s a) s actions t := by
    clear second
    induction first with
    | nil =>
        intro u second
        generalize hnil : ([] : List α) = actions at second
        cases second with
        | nil => exact ⟨rfl, .nil _⟩
        | snoc _ _ _ => simp at hnil
    | snoc _ ok next ih =>
        intro u second
        generalize hsnoc : (_ ++ [_] : List α) = actions at second
        cases second with
        | nil => simp at hsnoc
        | snoc run' ok' next' =>
            obtain ⟨rfl, ha⟩ := List.append_inj' hsnoc rfl
            cases ha
            obtain ⟨rfl, hrun⟩ := ih _ run'
            cases next.symm.trans next'
            exact ⟨rfl, .snoc hrun ⟨ok, ok'⟩ next⟩
  exact (hboth t second).2

-- A run on given actions can be computed.
theorem Run.of_foldlM {s t : σ} {actions : List α} (hgood : ∀ s, ∀ a ∈ actions, good s a)
    (h : actions.foldlM step s = some t) : Run step good s actions t := by
  induction actions generalizing s with
  | nil => cases h; exact .nil _
  | cons a rest ih =>
      rw [List.foldlM_cons] at h
      cases hs : step s a with
      | none => rw [hs] at h; cases h
      | some u =>
          rw [hs] at h
          exact .cons (hgood s a (by simp)) hs (ih (fun s b hb => hgood s b (by simp [hb])) h)

-- The same when the condition on the steps is checked on the way.
def guarded (step : σ → α → Option σ) (good : σ → α → Prop) [∀ s a, Decidable (good s a)]
    (s : σ) (actions : List α) : Option σ :=
  actions.foldlM (fun s a => if good s a then step s a else none) s

theorem Run.of_guarded (step : σ → α → Option σ) (good : σ → α → Prop)
    [∀ s a, Decidable (good s a)] (s : σ) (actions : List α) (p : σ → Bool)
    (h : (guarded step good s actions).any p = true) :
    ∃ t, Run step good s actions t ∧ p t = true := by
  induction actions generalizing s with
  | nil => exact ⟨s, .nil s, h⟩
  | cons a rest ih =>
      unfold guarded at h
      rw [List.foldlM_cons] at h
      by_cases ok : good s a
      · rw [if_pos ok] at h
        cases next : step s a with
        | none =>
            rw [next] at h
            cases h
        | some u =>
            rw [next] at h
            obtain ⟨t, run, ht⟩ := ih u h
            exact ⟨t, .cons ok next run, ht⟩
      · rw [if_neg ok] at h
        cases h

-- The same for a run whose end is known.
theorem Run.of_guarded_some {good : σ → α → Prop} [∀ s a, Decidable (good s a)] {s t : σ}
    {actions : List α} (h : guarded step good s actions = some t) : Run step good s actions t := by
  induction actions generalizing s with
  | nil =>
      cases h
      exact .nil _
  | cons a rest ih =>
      unfold guarded at h
      rw [List.foldlM_cons] at h
      by_cases ok : good s a
      · rw [if_pos ok] at h
        cases next : step s a with
        | none =>
            rw [next] at h
            cases h
        | some u =>
            rw [next] at h
            exact .cons ok next (ih h)
      · rw [if_neg ok] at h
        cases h

section Answers

variable {τ ρ β : Type*}

-- A machine that answers requests one after the other, until it refuses one.
def answers (serve : σ → ρ → Option (β × σ)) : List ρ → σ → Option (List β × σ)
  | [], s => some ([], s)
  | r :: rest, s =>
      match serve s r with
      | none => none
      | some (b, s) =>
          match answers serve rest s with
          | none => none
          | some (bs, s) => some (b :: bs, s)

-- A machine that follows another one request by request gives the same answers.
theorem answers_simulates (serve : σ → ρ → Option (β × σ)) (serve' : τ → ρ → Option (β × τ))
    (R : σ → τ → Prop) (good : ρ → Prop)
    (hserve : ∀ s t r b u, R s t → good r → serve s r = some (b, u) →
      ∃ v, serve' t r = some (b, v) ∧ R u v)
    (requests : List ρ) (hgood : ∀ r ∈ requests, good r) (s : σ) (t : τ) (hR : R s t)
    (bs : List β) (u : σ) (h : answers serve requests s = some (bs, u)) :
    ∃ v, answers serve' requests t = some (bs, v) ∧ R u v := by
  induction requests generalizing s t bs u with
  | nil =>
      cases h
      exact ⟨t, rfl, hR⟩
  | cons r rest ih =>
      obtain ⟨hr, hrest⟩ := List.forall_mem_cons.mp hgood
      unfold answers at h
      cases hs : serve s r with
      | none =>
          rw [hs] at h
          cases h
      | some answer =>
          obtain ⟨b, s'⟩ := answer
          obtain ⟨t', ht, hR'⟩ := hserve s t r b s' hR hr hs
          cases hs' : answers serve rest s' with
          | none =>
              simp only [hs, hs'] at h
              cases h
          | some others =>
              obtain ⟨bs', u'⟩ := others
              simp only [hs, hs'] at h
              cases h
              obtain ⟨v, hv, hRv⟩ := ih hrest s' t' hR' bs' _ hs'
              refine ⟨v, ?_, hRv⟩
              simp only [answers, ht, hv]

end Answers

end CryptodevChat.Lib
