import CryptodevChat.Lib.Run
import Mathlib.Logic.Function.Basic

namespace CryptodevChat.Lib

variable {τ ε μ ι ο V α β : Type}

section Programs

-- A program of a process: it works on its memory, makes calls, and may split in
-- two. The copy goes on with the answer 0, the original with the number of the copy.
inductive Client (μ ι ο α : Type)
  | ret (a : α)
  | exit (status : Nat)
  | get (next : μ → Client μ ι ο α)
  | put (m : μ) (next : Client μ ι ο α)
  | call (c : ι) (next : ο → Client μ ι ο α)
  | fork (next : Nat → Client μ ι ο α)

def Client.bind : Client μ ι ο α → (α → Client μ ι ο β) → Client μ ι ο β
  | .ret a, f => f a
  | .exit status, _ => .exit status
  | .get next, f => .get fun m => (next m).bind f
  | .put m next, f => .put m (next.bind f)
  | .call c next, f => .call c fun o => (next o).bind f
  | .fork next, f => .fork fun q => (next q).bind f

instance : Monad (Client μ ι ο) where
  pure := .ret
  bind := .bind

-- What a process may rely on. In its view of the service, a call that meets `pre`
-- is answered, and then the answer, the memory and the view are as `post` says.
-- `dead` tells with which statuses it may exit.
structure Contract (V μ ι ο : Type) where
  pre : V → ι → μ → Prop
  post : V → ι → μ → ο → μ → V → Prop
  dead : V → Nat → Prop
  child : V → V

-- Under a contract, a program makes its calls properly, and returns only with
-- what is asked of it.
def Client.Meets (S : Contract V μ ι ο) : Client μ ι ο α → (α → μ → V → Prop) → μ → V → Prop
  | .ret a, Q, m, v => Q a m v
  | .exit status, _, _, v => S.dead v status
  | .get next, Q, m, v => (next m).Meets S Q m v
  | .put m next, Q, _, v => next.Meets S Q m v
  | .call c next, Q, m, v =>
      S.pre v c m ∧ ∀ o m' v', S.post v c m o m' v' → (next o).Meets S Q m' v'
  | .fork next, Q, m, v => ∀ q, (next q).Meets S Q m (if q = 0 then S.child v else v)

variable {S : Contract V μ ι ο} {Q : β → μ → V → Prop}

theorem Client.meets_bind (x : Client μ ι ο α) (f : α → Client μ ι ο β) (m : μ) (v : V) :
    (x >>= f).Meets S Q m v ↔ x.Meets S (fun a m v => (f a).Meets S Q m v) m v := by
  change (x.bind f).Meets S Q m v ↔ _
  induction x generalizing m v with
  | ret a => exact Iff.rfl
  | exit status => exact Iff.rfl
  | get next ih => exact ih m m v
  | put m' next ih => exact ih m' v
  | call c next ih =>
      refine and_congr_right fun _ => ?_
      exact forall_congr' fun o => forall_congr' fun m' => forall_congr' fun v' => imp_congr_right fun _ => ih o m' v'
  | fork next ih => exact forall_congr' fun q => ih q m _

-- A weaker end is met as well.
theorem Client.Meets.mono {P Q : α → μ → V → Prop} {x : Client μ ι ο α} {m : μ} {v : V}
    (h : x.Meets S P m v) (hpost : ∀ a m v, P a m v → Q a m v) : x.Meets S Q m v := by
  induction x generalizing m v with
  | ret a => exact hpost a m v h
  | exit status => exact h
  | get next ih => exact ih m h
  | put m next ih => exact ih h
  | call c next ih => exact ⟨h.1, fun o m' v' hp => ih o (h.2 o m' v' hp)⟩
  | fork next ih => exact fun q => ih q (h q)

-- A loop over `n` numbers, the first of which is `i`.
def Client.loop (body : Nat → Client μ ι ο Unit) (i : Nat) : Nat → Client μ ι ο Unit
  | 0 => .ret ()
  | n + 1 => body i >>= fun _ => Client.loop body (i + 1) n

-- What each round keeps holds at the end.
theorem Client.meets_loop {body : Nat → Client μ ι ο Unit} (I : Nat → μ → V → Prop) (i n : Nat) (m : μ) (v : V)
    (h : I i m v) (step : ∀ k m v, i ≤ k → k < i + n → I k m v → (body k).Meets S (fun _ m v => I (k + 1) m v) m v) :
    (Client.loop body i n).Meets S (fun _ m v => I (i + n) m v) m v := by
  induction n generalizing i m v with
  | zero => exact h
  | succ n ih =>
      rw [Client.loop, Client.meets_bind]
      refine (step i m v (Nat.le_refl i) (by omega) h).mono fun _ m' v' h' => ?_
      have hrest := ih (i + 1) m' v' h' fun k m v hk hlt hI => step k m v (by omega) (by omega) hI
      rwa [Nat.add_assoc, Nat.add_comm 1 n] at hrest

def Client.Over : Client μ ι ο α → Prop
  | .ret _ | .exit _ => True
  | _ => False

end Programs

section Systems

structure Process (μ ι ο α : Type) where
  mem : μ
  prog : Client μ ι ο α

-- Processes with a common service.
structure System (τ μ ι ο α : Type) where
  service : τ
  procs : Nat → Option (Process μ ι ο α)

-- `serve` may depend on things that nobody controls. Without a result, the call
-- crashes the service.
structure Service (τ ε μ ι ο : Type) where
  serve : τ → ε → Nat → ι → μ → Option (ο × μ × τ)
  split : τ → Nat → Nat → τ

-- Which process goes on, in what surroundings, and how a copy of it is numbered.
structure Pick (ε : Type) where
  process : Nat
  around : ε
  copy : Nat

def System.put (s : System τ μ ι ο α) (p : Nat) (proc : Process μ ι ο α) : System τ μ ι ο α :=
  { s with procs := Function.update s.procs p (some proc) }

section Put

variable (s : System τ μ ι ο α) (p q : Nat) (proc : Process μ ι ο α)

@[simp] theorem System.put_service : (s.put p proc).service = s.service := rfl
@[simp] theorem System.put_self : (s.put p proc).procs p = some proc := Function.update_self ..

theorem System.put_other (h : q ≠ p) : (s.put p proc).procs q = s.procs q := Function.update_of_ne h ..

end Put

variable (sv : Service τ ε μ ι ο)

def Service.step (s : System τ μ ι ο α) (a : Pick ε) : Option (System τ μ ι ο α) :=
  match s.procs a.process with
  | none => none
  | some ⟨m, prog⟩ =>
      match prog with
      | .ret _ | .exit _ => none
      | .get next => some (s.put a.process ⟨m, next m⟩)
      | .put m next => some (s.put a.process ⟨m, next⟩)
      | .call c next =>
          match sv.serve s.service a.around a.process c m with
          | some (o, m, service) => some ({ s with service }.put a.process ⟨m, next o⟩)
          | none => none
      | .fork next =>
          if a.copy ≠ 0 ∧ s.procs a.copy = none then
            some (({ s with service := sv.split s.service a.process a.copy }.put a.process
              ⟨m, next a.copy⟩).put a.copy ⟨m, next 0⟩)
          else none

end Systems

section Accounts

-- A service that keeps an account for each process, which nobody else's calls
-- change: whoever relies on the contract in its own view is served.
structure Separate (sv : Service τ ε μ ι ο) (S : Contract V μ ι ο) (good : ε → Prop) (nobody : V) where
  holds : τ → (Nat → V) → Prop
  serves : ∀ x views e p c m, holds x views → good e → S.pre (views p) c m →
    ∃ o m' x', sv.serve x e p c m = some (o, m', x') ∧
      ∃ v, S.post (views p) c m o m' v ∧ holds x' (Function.update views p v)
  splits : ∀ x views p q, holds x views → q ≠ p → views q = nobody →
    holds (sv.split x p q) (Function.update views q (S.child (views p)))

variable {sv : Service τ ε μ ι ο} {S : Contract V μ ι ο} {good : ε → Prop} {nobody : V}
  {goals : Nat → α → μ → V → Prop}

-- In the view that each process has of the service, what is left of its program is in order.
structure Separate.Kept (h : Separate sv S good nobody) (goals : Nat → α → μ → V → Prop)
    (s : System τ μ ι ο α) (views : Nat → V) : Prop where
  holds : h.holds s.service views
  absent : ∀ p, s.procs p = none → views p = nobody
  meets : ∀ p proc, s.procs p = some proc → proc.prog.Meets S (goals p) proc.mem (views p)
  numbered : ∃ n, ∀ p, n ≤ p → s.procs p = none

variable (h : Separate sv S good nobody) {s s' : System τ μ ι ο α} {views : Nat → V}
  {p : Nat} {proc : Process μ ι ο α}

theorem numbered_put (hs : ∃ n, ∀ p, n ≤ p → s.procs p = none) (p : Nat) (proc : Process μ ι ο α) :
    ∃ n, ∀ q, n ≤ q → (s.put p proc).procs q = none := by
  obtain ⟨n, hn⟩ := hs
  refine ⟨n + p + 1, fun q hq => ?_⟩
  rw [System.put_other _ _ _ _ (by omega)]
  exact hn q (by omega)

-- A process that goes on, with its own view changed at most.
theorem Separate.Kept.put (hk : h.Kept goals s views) (v : V) (goal : α → μ → V → Prop) (x : τ)
    (proc : Process μ ι ο α) (hholds : h.holds x (Function.update views p v))
    (hmeets : proc.prog.Meets S goal proc.mem v) :
    h.Kept (Function.update goals p goal) ({ s with service := x }.put p proc) (Function.update views p v) where
  holds := hholds
  absent := by
    intro q hq
    by_cases hqp : q = p
    · subst hqp
      rw [System.put_self] at hq
      cases hq
    · rw [System.put_other _ _ _ _ hqp] at hq
      rw [Function.update_of_ne hqp]
      exact hk.absent q hq
  meets := by
    intro q proc' hq
    by_cases hqp : q = p
    · subst hqp
      rw [System.put_self] at hq
      cases hq
      rwa [Function.update_self, Function.update_self]
    · rw [System.put_other _ _ _ _ hqp] at hq
      rw [Function.update_of_ne hqp, Function.update_of_ne hqp]
      exact hk.meets q proc' hq
  numbered := numbered_put (s := { s with service := x }) hk.numbered p proc

theorem Separate.Kept.answered (hk : h.Kept goals s views) (v : V) (x : τ) (proc : Process μ ι ο α)
    (hholds : h.holds x (Function.update views p v)) (hmeets : proc.prog.Meets S (goals p) proc.mem v) :
    h.Kept goals ({ s with service := x }.put p proc) (Function.update views p v) := by
  have hput := hk.put h v (goals p) x proc hholds hmeets
  rwa [Function.update_eq_self] at hput

theorem Separate.Kept.stay (hk : h.Kept goals s views) (proc : Process μ ι ο α)
    (hmeets : proc.prog.Meets S (goals p) proc.mem (views p)) : h.Kept goals (s.put p proc) views := by
  have hsame := Function.update_eq_self p views
  have hput := hk.answered h (p := p) (views p) s.service proc (by rw [hsame]; exact hk.holds) hmeets
  rwa [hsame] at hput

-- The goals of the processes that there are stay, and a copy has that of a process.
def Extends (s : System τ μ ι ο α) (goals goals' : Nat → α → μ → V → Prop) : Prop :=
  (∀ p, s.procs p ≠ none → goals' p = goals p) ∧ ∀ q, ∃ p, goals' q = goals p

theorem extends_refl : Extends s goals goals := ⟨fun _ _ => rfl, fun q => ⟨q, rfl⟩⟩

-- A process that is not over can go on, and what it does is in order.
theorem Separate.Kept.step (hk : h.Kept goals s views) (hp : s.procs p = some proc) (hover : ¬proc.prog.Over)
    (a : Pick ε) (ha : a.process = p) (hgood : good a.around) (hcopy : a.copy ≠ 0 ∧ s.procs a.copy = none) :
    ∃ s' views' goals', sv.step s a = some s' ∧ h.Kept goals' s' views' ∧ Extends s goals goals' := by
  obtain ⟨m, prog⟩ := proc
  have hmeets := hk.meets p _ hp
  subst ha
  unfold Service.step
  rw [hp]
  cases prog with
  | ret x => exact absurd trivial hover
  | exit status => exact absurd trivial hover
  | get next => exact ⟨_, views, goals, rfl, hk.stay h _ hmeets, extends_refl⟩
  | put m next => exact ⟨_, views, goals, rfl, hk.stay h _ hmeets, extends_refl⟩
  | call c next =>
      obtain ⟨hpre, hnext⟩ := hmeets
      obtain ⟨o, m', x', hserve, v, hpost, hholds⟩ := h.serves _ _ a.around _ _ _ hk.holds hgood hpre
      simp only [hserve]
      exact ⟨_, _, goals, rfl, hk.answered h v x' _ hholds (hnext o m' v hpost), extends_refl⟩
  | fork next =>
      obtain ⟨hzero, hfree⟩ := hcopy
      have hne : a.copy ≠ a.process := by
        intro he
        rw [he, hp] at hfree
        cases hfree
      have hother := hk.absent a.copy hfree
      have hchild := hmeets 0
      have hparent := hmeets a.copy
      rw [if_pos rfl] at hchild
      rw [if_neg hzero] at hparent
      dsimp only
      rw [if_pos ⟨hzero, hfree⟩]
      have hboth := (hk.stay h (p := a.process) ⟨m, next a.copy⟩ hparent).put h (p := a.copy) _ _
        _ ⟨m, next 0⟩ (h.splits _ _ _ _ hk.holds hne hother) hchild
      refine ⟨_, _, _, rfl, hboth, fun q hq => Function.update_of_ne ?_ _ _, fun q => ?_⟩
      · rintro rfl
        exact hq hfree
      · by_cases hq : q = a.copy
        · exact ⟨a.process, by rw [hq, Function.update_self]⟩
        · exact ⟨q, Function.update_of_ne hq _ _⟩

-- A step is that of a process that is not over, and of a copy with a new number.
theorem Service.step_inv {a : Pick ε} (hstep : sv.step s a = some s') :
    ∃ proc, s.procs a.process = some proc ∧ ¬proc.prog.Over ∧
      ((∃ next, proc.prog = .fork next) → a.copy ≠ 0 ∧ s.procs a.copy = none) := by
  unfold Service.step at hstep
  cases hp : s.procs a.process with
  | none =>
      rw [hp] at hstep
      cases hstep
  | some proc =>
      obtain ⟨m, prog⟩ := proc
      rw [hp] at hstep
      refine ⟨_, rfl, fun hover => ?_, fun hfork => ?_⟩
      · cases prog with
        | ret _ | exit _ => cases hstep
        | _ => exact hover
      · obtain ⟨next, hnext⟩ := hfork
        obtain rfl : prog = .fork next := hnext
        dsimp only at hstep
        split_ifs at hstep with hcopy
        exact hcopy

-- A process that there is does not disappear.
theorem Service.step_procs {a : Pick ε} (hstep : sv.step s a = some s') (hp : s.procs p ≠ none) :
    s'.procs p ≠ none := by
  have hput : ∀ (s : System τ μ ι ο α) q proc, s.procs p ≠ none → (s.put q proc).procs p ≠ none := by
    intro s q proc hs
    by_cases hpq : p = q
    · subst hpq
      simp
    · rwa [System.put_other _ _ _ _ hpq]
  unfold Service.step at hstep
  split at hstep
  · cases hstep
  · split at hstep
    · cases hstep
    · cases hstep
    · cases hstep
      exact hput _ _ _ hp
    · cases hstep
      exact hput _ _ _ hp
    · split at hstep
      · cases hstep
        exact hput _ _ _ hp
      · cases hstep
    · split_ifs at hstep
      cases hstep
      exact hput _ _ _ (hput _ _ _ hp)

theorem Separate.Kept.step_any (hk : h.Kept goals s views) {a : Pick ε} (hgood : good a.around)
    (hstep : sv.step s a = some s') : ∃ views' goals', h.Kept goals' s' views' ∧ Extends s goals goals' := by
  obtain ⟨proc, hp, hover, hfork⟩ := sv.step_inv hstep
  by_cases hcopy : a.copy ≠ 0 ∧ s.procs a.copy = none
  · obtain ⟨u', views', goals', hstep', hk'⟩ := hk.step h hp hover a rfl hgood hcopy
    cases hstep.symm.trans hstep'
    exact ⟨views', goals', hk'⟩
  · -- The number for a copy does not matter to a process that makes none.
    obtain ⟨n, hn⟩ := hk.numbered
    have hother : sv.step s { a with copy := n + 1 } = sv.step s a := by
      unfold Service.step
      simp only [hp]
      cases hprog : proc.prog with
      | fork next => exact absurd (hfork ⟨next, hprog⟩) hcopy
      | _ => rfl
    obtain ⟨u', views', goals', hstep', hk'⟩ := hk.step h hp hover { a with copy := n + 1 } rfl hgood
      ⟨n.succ_ne_zero, hn (n + 1) (by omega)⟩
    rw [hother] at hstep'
    cases hstep.symm.trans hstep'
    exact ⟨views', goals', hk'⟩

-- Whatever the order in which the processes go on.
theorem Separate.Kept.run (hk : h.Kept goals s views) {actions : List (Pick ε)}
    (run : Run sv.step (fun _ a => good a.around) s actions s') :
    ∃ views' goals', h.Kept goals' s' views' ∧ Extends s goals goals' := by
  have hend := run.invariant
    (I := fun u => (∀ p, s.procs p ≠ none → u.procs p ≠ none) ∧
      ∃ views' goals', h.Kept goals' u views' ∧ Extends s goals goals')
    ⟨fun _ hp => hp, views, goals, hk, extends_refl⟩ ?_
  · exact hend.2
  intro u a u' hinv hgood hstep
  obtain ⟨hold, views', goals', hk', hsame, hcopies⟩ := hinv
  obtain ⟨views'', goals'', hk'', hext, hnew⟩ := hk'.step_any h hgood hstep
  refine ⟨fun p hp => sv.step_procs hstep (hold p hp), views'', goals'', hk'',
    fun p hp => (hext p (hold p hp)).trans (hsame p hp), fun q => ?_⟩
  obtain ⟨r, hr⟩ := hnew q
  obtain ⟨p, hp⟩ := hcopies r
  exact ⟨p, hr.trans hp⟩

-- A process can come to its end by steps of its own.
def Service.Finishes (sv : Service τ ε μ ι ο) (good : ε → Prop) (p : Nat) (s : System τ μ ι ο α) : Prop :=
  ∃ actions s' last, Run sv.step (fun _ a => good a.around) s actions s' ∧
    (∀ a ∈ actions, a.process = p) ∧ s'.procs p = some last ∧ last.prog.Over

theorem Service.Finishes.cons {a : Pick ε} (hgood : good a.around) (hstep : sv.step s a = some s')
    (ha : a.process = p) (hs : sv.Finishes good p s') : sv.Finishes good p s := by
  obtain ⟨actions, u, last, run, hall, hend⟩ := hs
  exact ⟨a :: actions, u, last, .cons hgood hstep run, List.forall_mem_cons.mpr ⟨ha, hall⟩, hend⟩

theorem Separate.Kept.go (hk : h.Kept goals s views) (e : ε) (hgood : good e) (hp : s.procs p = some proc)
    (hover : ¬proc.prog.Over) :
    ∃ a s' views' goals', a.process = p ∧ a.copy ≠ p ∧ good a.around ∧ sv.step s a = some s' ∧
      h.Kept goals' s' views' := by
  obtain ⟨n, hn⟩ := hk.numbered
  have hfree := hn (n + 1) (by omega)
  obtain ⟨s', views', goals', hstep, hk', -⟩ :=
    hk.step h hp hover ⟨p, e, n + 1⟩ rfl hgood ⟨n.succ_ne_zero, hfree⟩
  refine ⟨_, s', views', goals', rfl, ?_, hgood, hstep, hk'⟩
  intro he
  have he : n + 1 = p := he
  rw [he, hp] at hfree
  cases hfree

-- No process is ever in the way of another.
theorem Separate.Kept.finishes (hk : h.Kept goals s views) (e : ε) (hgood : good e)
    (hp : s.procs p = some proc) : sv.Finishes good p s := by
  obtain ⟨m, prog⟩ := proc
  induction prog generalizing s m views goals with
  | ret x => exact ⟨[], s, _, .nil s, by simp, hp, trivial⟩
  | exit status => exact ⟨[], s, _, .nil s, by simp, hp, trivial⟩
  | get next ih =>
      obtain ⟨a, s', views', goals', rfl, -, hok, hstep, hk'⟩ := hk.go h e hgood hp not_false
      refine .cons hok hstep rfl (ih m hk' m ?_)
      simp only [Service.step, hp] at hstep
      cases hstep
      exact System.put_self ..
  | put m' next ih =>
      obtain ⟨a, s', views', goals', rfl, -, hok, hstep, hk'⟩ := hk.go h e hgood hp not_false
      refine .cons hok hstep rfl (ih hk' m' ?_)
      simp only [Service.step, hp] at hstep
      cases hstep
      exact System.put_self ..
  | call c next ih =>
      obtain ⟨a, s', views', goals', rfl, -, hok, hstep, hk'⟩ := hk.go h e hgood hp not_false
      have hs := hstep
      simp only [Service.step, hp] at hs
      split at hs
      · cases hs
        exact .cons hok hstep rfl (ih _ hk' _ (System.put_self ..))
      · cases hs
  | fork next ih =>
      obtain ⟨a, s', views', goals', rfl, hne, hok, hstep, hk'⟩ := hk.go h e hgood hp not_false
      refine .cons hok hstep rfl (ih a.copy hk' m ?_)
      simp only [Service.step, hp] at hstep
      split_ifs at hstep
      cases hstep
      rw [System.put_other _ _ _ _ hne.symm, System.put_self]

end Accounts

end CryptodevChat.Lib
