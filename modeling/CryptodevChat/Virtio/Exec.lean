import CryptodevChat.Virtio.Driver

namespace CryptodevChat.Virtio

open Lib (Byte le fromLe leInt fromLeInt Loc Mem Space)

def VQ_SIZE : Nat := 128

-- What a call of the driver finds: the process that makes it, the devices
-- that were probed, and which allocations succeed.
structure Guest (σ : Type) where
  space : Space
  qemu : Qemu
  host : Host σ
  devs : Nat → Option Nat
  allocs : Nat → Bool
  crofAlloc : Bool
  nonseekable : Int

-- One call by itself: its objects, the memory of its process, the file it is
-- made on, the queues, the host, and what the backend did for each request.
structure Sys (σ : Type) where
  mem : Mem Byte
  sizes : List Nat
  user : Mem Byte
  crof : Option Crof
  locked : Bool
  queues : Nat → VirtQueue
  host : σ
  history : List (VirtQueueElement × List Event)

inductive Outcome (σ α : Type)
  | done (a : α) (s : Sys σ)
  | oops (s : Sys σ)
  | hangs (s : Sys σ)

def Outcome.state {σ α : Type} : Outcome σ α → Sys σ
  | .done _ s => s
  | .oops s => s
  | .hangs s => s

variable {σ : Type} (g : Guest σ)

-- The next object. `kzalloc` clears it.
def Sys.alloc (s : Sys σ) (size : Nat) (zeroed : Bool) : Sys σ :=
  { s with
    sizes := s.sizes ++ [size]
    mem := if zeroed then Mem.fill s.mem s.sizes.length 0 else s.mem }

def Guest.ptr (i : Nat) : Ptr := if g.allocs i then some i else none

def VirtQueueElement.descs (elem : VirtQueueElement) : Nat := elem.outNum + elem.inNum

def VirtQueue.numFree (vq : VirtQueue) : Nat :=
  VQ_SIZE - ((vq.avail ++ vq.used).map VirtQueueElement.descs).sum

-- `virtqueue_add_sgs`, which leaves a queue without room as it is.
def VirtQueue.add (vq : VirtQueue) (elem : VirtQueueElement) : VirtQueue :=
  if elem.descs ≤ vq.numFree then { vq with avail := vq.avail ++ [elem] } else vq

def Sys.setQueue (s : Sys σ) (v : Nat) (vq : VirtQueue) : Sys σ :=
  { s with queues := Function.update s.queues v vq }

-- The backend handles a notification before the call goes on.
def Sys.notify (s : Sys σ) (v : Nat) : Sys σ :=
  let (vq, b) := vqHandleOutput g.host g.qemu (s.queues v) ⟨s.mem, s.host, []⟩
  { s.setQueue v vq with
    mem := b.mem
    host := b.host
    history := s.history ++ ((s.queues v).avail.take 1).map fun elem => (elem, b.log) }

-- Copies that go past the end of an object are errors of the kernel, as are
-- loads that the process could not make itself.
def exec {α : Type} : Prog α → Sys σ → Outcome σ α
  | .ret a, s => .done a s
  | .oops, s => .oops s
  | .kmalloc size zeroed next, s => exec (next (g.ptr s.sizes.length)) (s.alloc size zeroed)
  | .kfree _ next, s => exec next s
  | .put block off data next, s =>
      if off + data.length ≤ s.sizes.getD block 0 then
        exec next { s with mem := Mem.store s.mem ⟨block, off⟩ data }
      else .oops s
  | .get block off n next, s => exec (next (Mem.load s.mem ⟨block, off⟩ n)) s
  | .loadUser addr n next, s =>
      match g.space.copyFrom s.user addr n with
      | some data => exec (next data) s
      | none => .oops s
  | .copyFromUser block addr n next, s =>
      match g.space.copyFrom s.user addr n with
      | some data =>
          if n ≤ s.sizes.getD block 0 then
            exec (next true) { s with mem := Mem.store s.mem ⟨block, 0⟩ data }
          else .oops s
      | none => exec (next false) s
  | .copyToUser addr block n next, s =>
      match g.space.copyTo s.user addr (Mem.load s.mem ⟨block, 0⟩ n) with
      | some user => exec (next true) { s with user }
      | none =>
          exec (next false)
            { s with user := g.space.copyPart s.user addr (Mem.load s.mem ⟨block, 0⟩ n) }
  | .nonseekableOpen next, s => exec (next g.nonseekable) s
  | .findDev minor next, s => exec (next (g.devs minor)) s
  | .newCrof crof next, s =>
      if g.crofAlloc then exec (next true) { s with crof := some crof } else exec (next false) s
  | .getCrof next, s =>
      match s.crof with
      | some crof => exec (next crof) s
      | none => .oops s
  | .setHostFd fd next, s =>
      exec next { s with crof := s.crof.map fun crof => { crof with hostFd := fd } }
  | .freeCrof next, s => exec next { s with crof := none }
  | .spinLock next, s => if s.locked then .hangs s else exec next { s with locked := true }
  | .spinUnlock next, s => exec next { s with locked := false }
  | .addSgs v sgs numOut numIn next, s =>
      exec next (s.setQueue v ((s.queues v).add (toElement sgs numOut numIn)))
  | .kick v next, s => exec next (s.notify g v)
  | .getBuf v next, s =>
      match (s.queues v).used with
      | [] => .hangs s
      | _ :: used => exec next (s.setQueue v { s.queues v with used })

theorem exec_bind {α β : Type} (x : Prog α) (f : α → Prog β) (s : Sys σ) :
    exec g (x >>= f) s =
      match exec g x s with
      | .done a s => exec g (f a) s
      | .oops s => .oops s
      | .hangs s => .hangs s := by
  change exec g (x.bind f) s = _
  induction x generalizing s with
  | ret a => rfl
  | oops => rfl
  | put block off data next ih =>
      simp only [Prog.bind, exec]
      by_cases h : off + data.length ≤ s.sizes.getD block 0
      · simp only [h, if_true]
        exact ih _
      · simp only [h, if_false]
  | loadUser addr n next ih =>
      simp only [Prog.bind, exec]
      cases g.space.copyFrom s.user addr n with
      | none => rfl
      | some data => exact ih data s
  | copyFromUser block addr n next ih =>
      simp only [Prog.bind, exec]
      cases g.space.copyFrom s.user addr n with
      | none => exact ih false s
      | some data =>
          by_cases h : n ≤ s.sizes.getD block 0
          · simp only [h, if_true]
            exact ih true _
          · simp only [h, if_false]
  | copyToUser addr block n next ih =>
      simp only [Prog.bind, exec]
      cases g.space.copyTo s.user addr (Mem.load s.mem ⟨block, 0⟩ n) with
      | none => exact ih false _
      | some user => exact ih true _
  | newCrof crof next ih =>
      simp only [Prog.bind, exec]
      cases g.crofAlloc with
      | false => exact ih false s
      | true => exact ih true _
  | getCrof next ih =>
      simp only [Prog.bind, exec]
      cases s.crof with
      | none => rfl
      | some crof => exact ih crof s
  | spinLock next ih =>
      simp only [Prog.bind, exec]
      cases s.locked with
      | false => exact ih _
      | true => rfl
  | getBuf v next ih =>
      simp only [Prog.bind, exec]
      cases (s.queues v).used with
      | nil => rfl
      | cons _ used => exact ih _
  | kfree _ next ih => exact ih s
  | setHostFd fd next ih => exact ih _
  | freeCrof next ih => exact ih _
  | spinUnlock next ih => exact ih _
  | addSgs v sgs numOut numIn next ih => exact ih _
  | kick v next ih => exact ih _
  | kmalloc size zeroed next ih => exact ih _ _
  | get block off n next ih => exact ih _ s
  | nonseekableOpen next ih => exact ih _ s
  | findDev minor next ih => exact ih _ s

-- A program that never notifies the device.
def Prog.Quiet {α : Type} : Prog α → Prop
  | .ret _ => True
  | .oops => True
  | .kmalloc _ _ next => ∀ p, (next p).Quiet
  | .kfree _ next => next.Quiet
  | .put _ _ _ next => next.Quiet
  | .get _ _ _ next => ∀ data, (next data).Quiet
  | .loadUser _ _ next => ∀ data, (next data).Quiet
  | .copyFromUser _ _ _ next => ∀ ok, (next ok).Quiet
  | .copyToUser _ _ _ next => ∀ ok, (next ok).Quiet
  | .nonseekableOpen next => ∀ ret, (next ret).Quiet
  | .findDev _ next => ∀ crdev, (next crdev).Quiet
  | .newCrof _ next => ∀ ok, (next ok).Quiet
  | .getCrof next => ∀ crof, (next crof).Quiet
  | .setHostFd _ next => next.Quiet
  | .freeCrof next => next.Quiet
  | .spinLock next => next.Quiet
  | .spinUnlock next => next.Quiet
  | .addSgs _ _ _ _ next => next.Quiet
  | .kick _ _ => False
  | .getBuf _ next => next.Quiet

theorem Prog.Quiet.bind {α β : Type} {x : Prog α} {f : α → Prog β} (hx : x.Quiet)
    (hf : ∀ a, (f a).Quiet) : (x >>= f).Quiet := by
  change (x.bind f).Quiet
  induction x with
  | ret a => exact hf a
  | oops => trivial
  | kick v next ih => exact hx.elim
  | kmalloc _ _ _ ih | get _ _ _ _ ih | loadUser _ _ _ ih | copyFromUser _ _ _ _ ih
  | copyToUser _ _ _ _ ih | nonseekableOpen _ ih | findDev _ _ ih | newCrof _ _ ih
  | getCrof _ ih => exact fun a => ih a (hx a)
  | kfree _ _ ih | put _ _ _ _ ih | setHostFd _ _ ih | freeCrof _ ih | spinLock _ ih
  | spinUnlock _ ih | addSgs _ _ _ _ _ ih | getBuf _ _ ih => exact ih hx

-- The backend does nothing for such a program.
theorem exec_quiet {α : Type} (x : Prog α) (s : Sys σ) (h : x.Quiet) :
    (exec g x s).state.history = s.history := by
  induction x generalizing s with
  | ret a => rfl
  | oops => rfl
  | kick v next ih => exact h.elim
  | put block off data next ih =>
      unfold exec
      split_ifs
      · exact ih _ h
      · rfl
  | loadUser addr n next ih =>
      unfold exec
      cases g.space.copyFrom s.user addr n with
      | none => rfl
      | some data => exact ih data s (h data)
  | copyFromUser block addr n next ih =>
      unfold exec
      cases g.space.copyFrom s.user addr n with
      | none => exact ih false s (h false)
      | some data =>
          dsimp only
          split_ifs
          · exact ih true _ (h true)
          · rfl
  | copyToUser addr block n next ih =>
      unfold exec
      cases g.space.copyTo s.user addr (Mem.load s.mem ⟨block, 0⟩ n) with
      | none => exact ih false _ (h false)
      | some user => exact ih true _ (h true)
  | newCrof crof next ih =>
      unfold exec
      split_ifs
      · exact ih true _ (h true)
      · exact ih false s (h false)
  | getCrof next ih =>
      unfold exec
      cases s.crof with
      | none => rfl
      | some crof => exact ih crof s (h crof)
  | spinLock next ih =>
      unfold exec
      split_ifs
      · rfl
      · exact ih _ h
  | getBuf v next ih =>
      unfold exec
      cases (s.queues v).used with
      | nil => rfl
      | cons _ used => exact ih _ h
  | kfree _ _ ih | setHostFd _ _ ih | freeCrof _ ih | spinUnlock _ ih
  | addSgs _ _ _ _ _ ih => exact ih _ h
  | kmalloc _ _ _ ih | get _ _ _ _ ih | nonseekableOpen _ ih | findDev _ _ ih =>
      exact ih _ _ (h _)

end CryptodevChat.Virtio
