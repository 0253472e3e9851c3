import CryptodevChat.Virtio.Serial
import CryptodevChat.Virtio.Element

namespace CryptodevChat.Virtio

open Lib (Byte Loc Mem Run)

variable {σ : Type}

section Properties

def Device.on : Device → Nat → List Buf
  | .idle, _ => []
  | .popped w buf, v => if w = v then [buf] else []
  | .handled w buf, v => if w = v then [buf] else []

-- The requests of a queue that were added and not taken back.
def State.inFlight (s : State σ) (v : Nat) : List Buf :=
  (s.rings v).avail ++ s.device.on v ++ (s.rings v).used

def Act.ofDevice : Act → Prop
  | .pop _ => True
  | .handle => True
  | .push => True
  | _ => False

-- The device alone brings a buffer of a task to its used ring, in a few steps.
def Setup.Brings (c : Setup σ) (s : State σ) (t v k : Nat) : Prop :=
  ∃ actions s' buf, Run c.step (fun _ a => a.ofDevice) s actions s' ∧ actions.length ≤ k ∧
    (s'.rings v).used = [buf] ∧ buf.owner = t

-- What the lock of the driver gives to its tasks and to the device: one
-- request at a time, answered to the task that sent it.
structure Serialised (c : Setup σ) (s : State σ) : Prop where
  single : ∀ v, (s.inFlight v).length ≤ 1
  alone : ∀ v w, s.inFlight v ≠ [] → s.inFlight w ≠ [] → v = w
  holder : ∀ v, ∀ buf ∈ s.inFlight v, s.lock = some buf.owner
  empty : s.lock = none → ∀ v, s.rings v = Ring.empty ∧ s.inFlight v = []
  room : ∀ t task, s.tasks t = some task → ∀ v sgs numOut numIn next,
    task.prog = .addSgs v sgs numOut numIn next →
      numOut + numIn ≤ 8 ∧ (toElement sgs numOut numIn).descs ≤ (s.rings v).free
  own : ∀ t task, s.tasks t = some task → ∀ v next, task.prog = .getBuf v next →
    ∀ buf ∈ (s.rings v).used, buf.owner = t ∧ ∃ m, task.past.sent = some (buf.elem, m)
  comes : ∀ t task, s.tasks t = some task → ∀ v next, task.prog = .getBuf v next →
    c.Brings s t v 3
  once : ∀ t task, s.tasks t = some task →
    task.past.pops ≤ 1 ∧ task.past.pushes ≤ task.past.pops ∧
      (task.past.sent = none → task.past.pops = 0)
  answered : ∀ t task, s.tasks t = some task → s.lock ≠ some t → ∀ elem m,
    task.past.sent = some (elem, m) →
      task.past.pops = 1 ∧ task.past.pushes = 1 ∧ task.past.got = some ⟨t, elem⟩ ∧
        ∃ x, task.past.served = some x ∧ task.mem = c.reply t elem m x

end Properties

section Flight

def Stage.buf : Stage → Option (Nat × Buf)
  | some (t, .added v elem) | some (t, .kicked v elem) | some (t, .popped v elem)
  | some (t, .handled v elem) | some (t, .pushed v elem) => some (v, ⟨t, elem⟩)
  | _ => none

variable {c : Setup σ} {s : State σ} {stage : Stage} {t : Nat} {task : Task σ}

theorem inFlight_eq (hs : s.At c stage) (v : Nat) :
    s.inFlight v = match stage.buf with
      | some (w, buf) => if w = v then [buf] else []
      | none => [] := by
  unfold State.inFlight
  rw [hs.rings, hs.device]
  cases stage with
  | none => rfl
  | some holder =>
      obtain ⟨t, role⟩ := holder
      cases role with
      | locked | taken => rfl
      | added w elem | kicked w elem | popped w elem | handled w elem | pushed w elem =>
          by_cases h : w = v
          · subst h
            simp [Stage.rings, Stage.device, Stage.buf, Device.on]
          · simp [Stage.rings, Stage.device, Stage.buf, Device.on, h,
              Function.update_of_ne (Ne.symm h), Ring.empty]

theorem Stage.buf_owner (w : Nat) (buf : Buf) (h : stage.buf = some (w, buf)) :
    stage.map Prod.fst = some buf.owner := by
  unfold Stage.buf at h
  split at h <;> cases h <;> rfl

theorem at_inFlight (hs : s.At c stage) (v : Nat) (h : s.inFlight v ≠ []) :
    ∃ buf, stage.buf = some (v, buf) ∧ s.inFlight v = [buf] ∧ s.lock = some buf.owner := by
  have heq := inFlight_eq hs v
  cases hbuf : stage.buf with
  | none =>
      rw [hbuf] at heq
      exact absurd heq h
  | some entry =>
      obtain ⟨w, buf⟩ := entry
      simp only [hbuf] at heq
      split_ifs at heq with hw
      · subst hw
        exact ⟨buf, rfl, heq, hs.lock.trans (stage.buf_owner w buf hbuf)⟩
      · exact absurd heq h

end Flight

section Replies

variable {c : Setup σ} {s : State σ} {stage : Stage} {t : Nat} {task : Task σ}
variable {v : Nat} {elem : VirtQueueElement}

theorem can_pop (hs : s.At c (some (t, .kicked v elem))) :
    ∃ s', c.step s (.pop v) = some s' ∧ s'.At c (some (t, .popped v elem)) := by
  have hsome : (c.step s (.pop v)).isSome := by
    simp [Setup.step, hs.device, hs.kicks, hs.rings, Stage.device, Stage.kicks, Stage.rings]
  obtain ⟨s', h⟩ := Option.isSome_iff_exists.mp hsome
  obtain ⟨t', elem', heq, hs'⟩ := at_pop hs v h
  cases heq
  exact ⟨s', h, hs'⟩

theorem can_handle (hs : s.At c (some (t, .popped v elem))) :
    ∃ s', c.step s .handle = some s' ∧ s'.At c (some (t, .handled v elem)) := by
  obtain ⟨task, ht, -⟩ := hs.holding
  have hsome : (c.step s .handle).isSome := by
    simp [Setup.step, hs.device, Stage.device, ht]
  obtain ⟨s', h⟩ := Option.isSome_iff_exists.mp hsome
  obtain ⟨t', v', elem', heq, hs'⟩ := at_handle hs h
  cases heq
  exact ⟨s', h, hs'⟩

theorem can_push (hs : s.At c (some (t, .handled v elem))) :
    ∃ s', c.step s .push = some s' ∧ s'.At c (some (t, .pushed v elem)) := by
  have hsome : (c.step s .push).isSome := by
    simp [Setup.step, hs.device, Stage.device]
  obtain ⟨s', h⟩ := Option.isSome_iff_exists.mp hsome
  obtain ⟨t', v', elem', heq, hs'⟩ := at_push hs h
  cases heq
  exact ⟨s', h, hs'⟩

theorem brings_step {s' : State σ} {a : Act} {k : Nat} (hstep : c.step s a = some s')
    (ha : a.ofDevice) (h : c.Brings s' t v k) : c.Brings s t v (k + 1) := by
  obtain ⟨actions, u, buf, hrun, hlen, hused, howner⟩ := h
  exact ⟨a :: actions, u, buf, .cons ha hstep hrun, Nat.succ_le_succ hlen, hused, howner⟩

theorem brings_pushed (hs : s.At c (some (t, .pushed v elem))) : c.Brings s t v 0 := by
  refine ⟨[], s, ⟨t, elem⟩, .nil s, Nat.le_refl 0, ?_, rfl⟩
  rw [hs.rings]
  simp [Stage.rings]

theorem brings_handled (hs : s.At c (some (t, .handled v elem))) : c.Brings s t v 1 := by
  obtain ⟨s', hstep, hs'⟩ := can_push hs
  exact brings_step hstep trivial (brings_pushed hs')

theorem brings_popped (hs : s.At c (some (t, .popped v elem))) : c.Brings s t v 2 := by
  obtain ⟨s', hstep, hs'⟩ := can_handle hs
  exact brings_step hstep trivial (brings_handled hs')

theorem brings_kicked (hs : s.At c (some (t, .kicked v elem))) : c.Brings s t v 3 := by
  obtain ⟨s', hstep, hs'⟩ := can_pop hs
  exact brings_step hstep trivial (brings_popped hs')

theorem Setup.Brings.mono {k k' : Nat} (h : c.Brings s t v k) (hk : k ≤ k') : c.Brings s t v k' := by
  obtain ⟨actions, u, buf, hrun, hlen, hused, howner⟩ := h
  exact ⟨actions, u, buf, hrun, hlen.trans hk, hused, howner⟩

-- A task that waits for its buffer holds the lock, and its request is on the way.
theorem waiting_role (hs : s.At c stage) (ht : s.tasks t = some task) (next : Prog Int)
    (hprog : task.prog = .getBuf v next) :
    ∃ elem, (stage = some (t, .kicked v elem) ∨ stage = some (t, .popped v elem) ∨
        stage = some (t, .handled v elem) ∨ stage = some (t, .pushed v elem)) ∧
      ∃ m, task.past.sent = some (elem, m) := by
  obtain ⟨role, rfl, hkeeps, hpast⟩ := holds_of_shared hs ht (by simp [hprog, Prog.Fits])
    (by simp [hprog, Prog.Fits])
  rw [hprog] at hkeeps
  obtain ⟨elem, hph, -⟩ := hkeeps
  refine ⟨elem, ?_⟩
  cases role <;> cases hph
  · exact ⟨.inl rfl, task.mem, by rw [hpast.2]⟩
  · exact ⟨.inr (.inl rfl), task.mem, by rw [hpast.2]⟩
  · obtain ⟨-, m, x, hpast, -⟩ := hpast
    exact ⟨.inr (.inr (.inl rfl)), m, by rw [hpast]⟩
  · obtain ⟨-, m, x, hpast, -⟩ := hpast
    exact ⟨.inr (.inr (.inr rfl)), m, by rw [hpast]⟩

theorem at_room (hs : s.At c stage) (ht : s.tasks t = some task) (sgs : List Sg)
    (numOut numIn : Nat) (next : Prog Int) (hprog : task.prog = .addSgs v sgs numOut numIn next) :
    numOut + numIn ≤ 8 ∧ (toElement sgs numOut numIn).descs ≤ (s.rings v).free := by
  obtain ⟨role, rfl, hkeeps, -⟩ := holds_of_shared hs ht (by simp [hprog, Prog.Fits])
    (by simp [hprog, Prog.Fits])
  rw [hprog] at hkeeps
  obtain ⟨hph, hroom, -⟩ := hkeeps
  refine ⟨hroom, ?_⟩
  cases role <;> cases hph
  rw [show s.rings = fun _ => Ring.empty from hs.rings]
  exact Nat.le_trans hroom (show 8 ≤ VQ_SIZE by decide)

theorem at_own (hs : s.At c stage) (ht : s.tasks t = some task) (next : Prog Int)
    (hprog : task.prog = .getBuf v next) (buf : Buf) (hbuf : buf ∈ (s.rings v).used) :
    buf.owner = t ∧ ∃ m, task.past.sent = some (buf.elem, m) := by
  obtain ⟨elem, hstage, hsent⟩ := waiting_role hs ht next hprog
  rw [hs.rings] at hbuf
  obtain rfl | rfl | rfl | rfl := hstage
  all_goals simp only [Stage.rings, Function.update_self] at hbuf
  · cases hbuf
  · cases hbuf
  · cases hbuf
  · cases List.mem_singleton.mp hbuf
    exact ⟨rfl, hsent⟩

theorem at_comes (hs : s.At c stage) (ht : s.tasks t = some task) (next : Prog Int)
    (hprog : task.prog = .getBuf v next) : c.Brings s t v 3 := by
  obtain ⟨elem, hstage, -⟩ := waiting_role hs ht next hprog
  obtain rfl | rfl | rfl | rfl := hstage
  · exact brings_kicked hs
  · exact (brings_popped hs).mono (by omega)
  · exact (brings_handled hs).mono (by omega)
  · exact (brings_pushed hs).mono (by omega)

theorem at_once (hs : s.At c stage) (ht : s.tasks t = some task) :
    task.past.pops ≤ 1 ∧ task.past.pushes ≤ task.past.pops ∧
      (task.past.sent = none → task.past.pops = 0) := by
  have hkeeps := hs.tasks t task ht
  cases hrole : stage.role t with
  | none =>
      rw [hrole] at hkeeps
      obtain ⟨-, hpast⟩ | ⟨-, elem, m, x, hpast, -⟩ := hkeeps
      · simp [hpast, Past.fresh]
      · simp [hpast]
  | some role =>
      rw [hrole] at hkeeps
      obtain ⟨-, hpast⟩ := hkeeps
      cases role with
      | locked => simp [show task.past = Past.fresh from hpast, Past.fresh]
      | added v elem | kicked v elem | popped v elem => simp [hpast.2]
      | handled v elem | pushed v elem =>
          obtain ⟨-, m, x, hpast, -⟩ := hpast
          simp [hpast]
      | taken =>
          obtain ⟨elem, m, x, hpast, -⟩ := hpast
          simp [hpast]

theorem at_answered (hs : s.At c stage) (ht : s.tasks t = some task) (hlock : s.lock ≠ some t)
    (elem : VirtQueueElement) (m : Mem Byte) (hsent : task.past.sent = some (elem, m)) :
    task.past.pops = 1 ∧ task.past.pushes = 1 ∧ task.past.got = some ⟨t, elem⟩ ∧
      ∃ x, task.past.served = some x ∧ task.mem = c.reply t elem m x := by
  have hkeeps := hs.tasks t task ht
  cases hrole : stage.role t with
  | none =>
      rw [hrole] at hkeeps
      obtain ⟨-, hpast⟩ | ⟨-, elem', m', x, hpast, hmem⟩ := hkeeps
      · rw [hpast] at hsent
        cases hsent
      · rw [hpast] at hsent
        cases hsent
        rw [hpast]
        exact ⟨rfl, rfl, rfl, x, rfl, hmem⟩
  | some role =>
      obtain rfl := stage.eq_of_role t role hrole
      exact absurd hs.lock hlock

-- In every state of every run, whatever the tasks do and in whatever order.
theorem serialised (c : Setup σ) (x : σ) (actions : List Act) (s : State σ)
    (hrun : Run c.step (fun _ _ => True) (State.boot x) actions s) : Serialised c s := by
  obtain ⟨stage, hs⟩ := at_run_end x actions hrun
  refine ⟨?_, ?_, ?_, ?_, ?_, ?_, ?_, ?_, ?_⟩
  · intro v
    by_cases h : s.inFlight v = []
    · simp [h]
    · obtain ⟨buf, -, heq, -⟩ := at_inFlight hs v h
      simp [heq]
  · intro v w hv hw
    obtain ⟨buf, hbuf, -⟩ := at_inFlight hs v hv
    obtain ⟨buf', hbuf', -⟩ := at_inFlight hs w hw
    rw [hbuf] at hbuf'
    cases hbuf'
    rfl
  · intro v buf hmem
    obtain ⟨buf', -, heq, hlock⟩ := at_inFlight hs v (List.ne_nil_of_mem hmem)
    rw [heq, List.mem_singleton] at hmem
    rw [hmem, hlock]
  · intro hfree v
    obtain rfl := Stage.none_of_free hs hfree
    exact ⟨congrFun hs.rings v, inFlight_eq hs v⟩
  · intro t task ht v sgs numOut numIn next hprog
    exact at_room hs ht sgs numOut numIn next hprog
  · intro t task ht v next hprog buf hbuf
    exact at_own hs ht next hprog buf hbuf
  · intro t task ht v next hprog
    exact at_comes hs ht next hprog
  · intro t task ht
    exact at_once hs ht
  · intro t task ht hlock elem m hsent
    exact at_answered hs ht hlock elem m hsent

end Replies

section Notifications

-- The three steps of the device are one run of `vq_handle_output`.
theorem pop_handle_push (c : Setup σ) (s : State σ) (v n : Nat) (buf : Buf) (avail : List Buf)
    (task : Task σ) (hdevice : s.device = .idle) (hkick : v ∈ s.kicks)
    (havail : (s.rings v).avail = buf :: avail) (ht : s.tasks buf.owner = some task) :
    ∃ s', [Act.pop v, .handle, .push].foldlM c.step s = some s' ∧
      let queue : VirtQueue :=
        ⟨(s.rings v).avail.map Buf.elem, (s.rings v).used.map Buf.elem, n⟩
      let after := vqHandleOutput c.host (c.qemu buf.owner) queue ⟨task.mem, s.host, []⟩
      (s'.rings v).avail.map Buf.elem = after.1.avail ∧
      (s'.rings v).used.map Buf.elem = after.1.used ∧
      s'.host = after.2.host ∧ (s'.tasks buf.owner).map Task.mem = some after.2.mem := by
  simp only [List.foldlM_cons, List.foldlM_nil, Setup.step, hdevice, hkick, havail, if_true,
    State.note, ht, Option.map_some, Function.update_self, Option.bind_eq_bind, Option.bind_some]
  refine ⟨_, rfl, ?_⟩
  simp [vqHandleOutput, State.put]

-- Two processes open the device of one minor at the same time.
def twoOpens : List Act :=
  [.call 0 0 (.openDev 0) fun _ => 0xff, .call 1 1 (.openDev 0) fun _ => 0xff] ++
    List.replicate 8 (.run 0 []) ++ List.replicate 9 (.run 1 []) ++ List.replicate 4 (.run 0 []) ++
    [.pop 0, .handle, .push] ++ List.replicate 6 (.run 0 []) ++ List.replicate 3 (.run 1 [])

theorem twoOpens_serialised : ∃ s : State Nat,
    twoOpens.foldlM (Setup.step ⟨some, nullHost, fun _ => flatQemu⟩) (State.boot 3) = some s ∧
      s.lock = some 1 ∧ Serialised ⟨some, nullHost, fun _ => flatQemu⟩ s := by
  refine ⟨_, rfl, rfl, ?_⟩
  exact serialised _ 3 twoOpens _ (.of_foldlM (fun _ _ _ => trivial) rfl)

end Notifications

end CryptodevChat.Virtio
