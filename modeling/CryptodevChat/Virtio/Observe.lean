import CryptodevChat.Virtio.Request

namespace CryptodevChat.Virtio

open Lib (Byte fromLe Loc Mem Space)

-- What can be seen of a call while it runs.
inductive Deed
  | alloc (p : Ptr) (size : Nat)
  | free (p : Ptr)
  | fetch (addr n : Nat)
  | copyIn (block addr n : Nat)
  | copyOut (addr block n : Nat)
  | addSgs (vq : Nat) (sgs : List Sg) (numOut numIn : Nat)
  | kick (vq : Nat)
  deriving DecidableEq, Repr

-- The deeds of a call so far, each with the state that it found, and how many
-- of them went to the memory of the process.
structure Watch (σ : Type) where
  accesses : Nat
  trail : List (Deed × Sys σ)

variable {σ : Type} (g : Guest σ)

def Watch.start : Watch σ := ⟨0, []⟩

def Watch.note (w : Watch σ) (d : Deed) (s : Sys σ) : Watch σ :=
  { w with trail := w.trail ++ [(d, s)] }

def Watch.touch (w : Watch σ) (d : Deed) (s : Sys σ) : Watch σ :=
  ⟨w.accesses + 1, w.trail ++ [(d, s)]⟩

-- What was done, in order.
def Watch.deeds (w : Watch σ) : List Deed := w.trail.map Prod.fst

@[simp] theorem deeds_start : (Watch.start : Watch σ).deeds = [] := rfl

@[simp] theorem deeds_note (w : Watch σ) (d : Deed) (s : Sys σ) :
    (w.note d s).deeds = w.deeds ++ [d] := by simp [Watch.deeds, Watch.note]

@[simp] theorem deeds_touch (w : Watch σ) (d : Deed) (s : Sys σ) :
    (w.touch d s).deeds = w.deeds ++ [d] := by simp [Watch.deeds, Watch.touch]

-- Before an access to the memory of the process its other threads may change it.
def Sys.raced (s : Sys σ) (race : Nat → Mem Byte → Mem Byte) (k : Nat) : Sys σ :=
  { s with user := race k s.user }

-- `exec` with a watch kept, and with other threads at work. A copy is noted
-- when it is tried: one that fails has filled its object with zeros.
def observe {α : Type} (race : Nat → Mem Byte → Mem Byte) :
    Prog α → Watch σ → Sys σ → Outcome σ α × Watch σ
  | .ret a, w, s => (.done a s, w)
  | .oops, w, s => (.oops s, w)
  | .kmalloc size zeroed next, w, s =>
      observe race (next (g.ptr s.sizes.length)) (w.note (.alloc (g.ptr s.sizes.length) size) s)
        (s.alloc size zeroed)
  | .kfree p next, w, s => observe race next (w.note (.free p) s) s
  | .put block off data next, w, s =>
      if off + data.length ≤ s.sizes.getD block 0 then
        observe race next w { s with mem := Mem.store s.mem ⟨block, off⟩ data }
      else (.oops s, w)
  | .get block off n next, w, s => observe race (next (Mem.load s.mem ⟨block, off⟩ n)) w s
  | .loadUser addr n next, w, s =>
      let s := s.raced race w.accesses
      let w := w.touch (.fetch addr n) s
      match g.space.copyFrom s.user addr n with
      | some data => observe race (next data) w s
      | none => (.oops s, w)
  | .copyFromUser block addr n next, w, s =>
      let s := s.raced race w.accesses
      let w := w.touch (.copyIn block addr n) s
      match g.space.copyFrom s.user addr n with
      | some data =>
          if n ≤ s.sizes.getD block 0 then
            observe race (next true) w { s with mem := Mem.store s.mem ⟨block, 0⟩ data }
          else (.oops s, w)
      | none => observe race (next false) w s
  | .copyToUser addr block n next, w, s =>
      let s := s.raced race w.accesses
      let w := w.touch (.copyOut addr block n) s
      match g.space.copyTo s.user addr (Mem.load s.mem ⟨block, 0⟩ n) with
      | some user => observe race (next true) w { s with user }
      | none =>
          observe race (next false) w
            { s with user := g.space.copyPart s.user addr (Mem.load s.mem ⟨block, 0⟩ n) }
  | .nonseekableOpen next, w, s => observe race (next g.nonseekable) w s
  | .findDev minor next, w, s => observe race (next (g.devs minor)) w s
  | .newCrof crof next, w, s =>
      if g.crofAlloc then observe race (next true) w { s with crof := some crof }
      else observe race (next false) w s
  | .getCrof next, w, s =>
      match s.crof with
      | some crof => observe race (next crof) w s
      | none => (.oops s, w)
  | .setHostFd fd next, w, s =>
      observe race next w { s with crof := s.crof.map fun crof => { crof with hostFd := fd } }
  | .freeCrof next, w, s => observe race next w { s with crof := none }
  | .spinLock next, w, s =>
      if s.locked then (.hangs s, w) else observe race next w { s with locked := true }
  | .spinUnlock next, w, s => observe race next w { s with locked := false }
  | .addSgs v sgs numOut numIn next, w, s =>
      observe race next (w.note (.addSgs v sgs numOut numIn) s)
        (s.setQueue v ((s.queues v).add (toElement sgs numOut numIn)))
  | .kick v next, w, s => observe race next (w.note (.kick v) s) (s.notify g v)
  | .getBuf v next, w, s =>
      match (s.queues v).used with
      | [] => (.hangs s, w)
      | _ :: used => observe race next w (s.setQueue v { s.queues v with used })

-- Nothing else is different about a call that is watched.
theorem observe_exec {α : Type} (x : Prog α) (w : Watch σ) (s : Sys σ) :
    (observe g (fun _ user => user) x w s).1 = exec g x s := by
  induction x generalizing w s with
  | ret a | oops => rfl
  | put block off data next ih =>
      unfold observe exec
      split_ifs
      · exact ih _ _
      · rfl
  | loadUser addr n next ih =>
      unfold observe exec
      simp only [Sys.raced]
      cases g.space.copyFrom s.user addr n with
      | none => rfl
      | some data => exact ih data _ s
  | copyFromUser block addr n next ih =>
      unfold observe exec
      simp only [Sys.raced]
      cases g.space.copyFrom s.user addr n with
      | none => exact ih false _ s
      | some data =>
          by_cases h : n ≤ s.sizes.getD block 0
          · simp only [h, if_true]
            exact ih true _ _
          · simp only [h, if_false]
  | copyToUser addr block n next ih =>
      unfold observe exec
      simp only [Sys.raced]
      cases g.space.copyTo s.user addr (Mem.load s.mem ⟨block, 0⟩ n) with
      | none => exact ih false _ _
      | some user => exact ih true _ _
  | newCrof crof next ih =>
      unfold observe exec
      split_ifs
      · exact ih true _ _
      · exact ih false _ s
  | getCrof next ih =>
      unfold observe exec
      cases s.crof with
      | none => rfl
      | some crof => exact ih crof _ s
  | spinLock next ih =>
      unfold observe exec
      split_ifs
      · rfl
      · exact ih _ _
  | getBuf v next ih =>
      unfold observe exec
      cases (s.queues v).used with
      | nil => rfl
      | cons _ used => exact ih _ _
  | kfree _ _ ih | setHostFd _ _ ih | freeCrof _ ih | spinUnlock _ ih | addSgs _ _ _ _ _ ih
  | kick _ _ ih => exact ih _ _
  | kmalloc _ _ _ ih | get _ _ _ _ ih | nonseekableOpen _ ih | findDev _ _ ih => exact ih _ _ _

-- A call in a process without other threads.
def watched {α : Type} (x : Prog α) (s : Sys σ) : Outcome σ α × Watch σ :=
  observe g (fun _ user => user) x .start s

theorem watched_exec {α : Type} (x : Prog α) (s : Sys σ) : (watched g x s).1 = exec g x s :=
  observe_exec g x .start s

variable (race : Nat → Mem Byte → Mem Byte)

theorem observe_bind {α β : Type} (x : Prog α) (f : α → Prog β) (w : Watch σ) (s : Sys σ) :
    observe g race (x >>= f) w s =
      match observe g race x w s with
      | (.done a s, w) => observe g race (f a) w s
      | (.oops s, w) => (.oops s, w)
      | (.hangs s, w) => (.hangs s, w) := by
  change observe g race (x.bind f) w s = _
  induction x generalizing w s with
  | ret a | oops => rfl
  | put block off data next ih =>
      simp only [Prog.bind, observe]
      split_ifs
      · exact ih _ _
      · rfl
  | loadUser addr n next ih =>
      simp only [Prog.bind, observe]
      cases g.space.copyFrom (s.raced race w.accesses).user addr n with
      | none => rfl
      | some data => exact ih data _ _
  | copyFromUser block addr n next ih =>
      simp only [Prog.bind, observe]
      cases g.space.copyFrom (s.raced race w.accesses).user addr n with
      | none => exact ih false _ _
      | some data =>
          dsimp only
          split_ifs
          · exact ih true _ _
          · rfl
  | copyToUser addr block n next ih =>
      simp only [Prog.bind, observe]
      cases g.space.copyTo (s.raced race w.accesses).user addr
          (Mem.load (s.raced race w.accesses).mem ⟨block, 0⟩ n) with
      | none => exact ih false _ _
      | some user => exact ih true _ _
  | newCrof crof next ih =>
      simp only [Prog.bind, observe]
      split_ifs
      · exact ih true _ _
      · exact ih false _ s
  | getCrof next ih =>
      simp only [Prog.bind, observe]
      cases s.crof with
      | none => rfl
      | some crof => exact ih crof _ s
  | spinLock next ih =>
      simp only [Prog.bind, observe]
      split_ifs
      · rfl
      · exact ih _ _
  | getBuf v next ih =>
      simp only [Prog.bind, observe]
      cases (s.queues v).used with
      | nil => rfl
      | cons _ used => exact ih _ _
  | kfree _ _ ih | setHostFd _ _ ih | freeCrof _ ih | spinUnlock _ ih | addSgs _ _ _ _ _ ih
  | kick _ _ ih => exact ih _ _
  | kmalloc _ _ _ ih | get _ _ _ _ ih | nonseekableOpen _ ih | findDev _ _ ih => exact ih _ _ _

-- A program that does nothing that can be seen.
def Prog.Mute {α : Type} : Prog α → Prop
  | .put _ _ _ next => next.Mute
  | .get _ _ _ next => ∀ data, (next data).Mute
  | .nonseekableOpen next => ∀ ret, (next ret).Mute
  | .findDev _ next => ∀ crdev, (next crdev).Mute
  | .newCrof _ next => ∀ ok, (next ok).Mute
  | .getCrof next => ∀ crof, (next crof).Mute
  | .setHostFd _ next => next.Mute
  | .freeCrof next => next.Mute
  | .spinLock next => next.Mute
  | .spinUnlock next => next.Mute
  | .ret _ | .oops => True
  | .kmalloc _ _ _ | .kfree _ _ | .loadUser _ _ _ | .copyFromUser _ _ _ _ | .copyToUser _ _ _ _
  | .addSgs _ _ _ _ _ | .kick _ _ | .getBuf _ _ => False

theorem observe_mute {α : Type} (x : Prog α) (w : Watch σ) (s : Sys σ) (h : x.Mute) :
    observe g race x w s = (exec g x s, w) := by
  induction x generalizing s with
  | ret a | oops => rfl
  | put block off data next ih =>
      unfold observe exec
      split_ifs
      · exact ih _ h
      · rfl
  | newCrof crof next ih =>
      unfold observe exec
      split_ifs
      · exact ih true _ (h true)
      · exact ih false s (h false)
  | getCrof next ih =>
      unfold observe exec
      cases s.crof with
      | none => rfl
      | some crof => exact ih crof s (h crof)
  | spinLock next ih =>
      unfold observe exec
      split_ifs
      · rfl
      · exact ih _ h
  | setHostFd _ _ ih | freeCrof _ ih | spinUnlock _ ih => exact ih _ h
  | get _ _ _ _ ih | nonseekableOpen _ ih | findDev _ _ ih => exact ih _ _ (h _)
  | kmalloc | kfree | loadUser | copyFromUser | copyToUser | addSgs | kick | getBuf => exact h.elim

theorem mute_store (p : Ptr) (data : List Byte) : (store p data).Mute := by cases p <;> trivial
theorem mute_load (p : Ptr) (off n : Nat) : (load p off n).Mute := by
  cases p with
  | none => trivial
  | some _ => exact fun _ => trivial
theorem mute_sgInitOne (p : Ptr) (len : Nat) : (sgInitOne p len).Mute := by cases p <;> trivial
theorem mute_nonseekableOpen : nonseekableOpen.Mute := fun _ => trivial
theorem mute_newCrof (crof : Crof) : (newCrof crof).Mute := fun _ => trivial
theorem mute_getCrof : getCrof.Mute := fun _ => trivial
theorem mute_getCryptoDevByMinor (minor : Nat) : (getCryptoDevByMinor minor).Mute := fun _ => trivial

variable (w : Watch σ) (s : Sys σ)

-- What a watched program goes on with.
theorem observe_then {α β : Type} (x : Prog α) (f : α → Prog β) (w' : Watch σ) (s' : Sys σ) (a : α)
    (h : observe g race x w s = (.done a s', w')) :
    observe g race (x >>= f) w s = observe g race (f a) w' s' := by
  rw [observe_bind, h]

theorem observe_stop {α β : Type} (x : Prog α) (f : α → Prog β) (w' : Watch σ) (s' : Sys σ)
    (h : observe g race x w s = (.oops s', w')) :
    observe g race (x >>= f) w s = (.oops s', w') := by
  rw [observe_bind, h]

theorem observe_mute_then {α β : Type} (x : Prog α) (f : α → Prog β) (s' : Sys σ) (a : α)
    (hmute : x.Mute) (h : exec g x s = .done a s') :
    observe g race (x >>= f) w s = observe g race (f a) w s' :=
  observe_then g race w s x f w s' a (by rw [observe_mute g race x w s hmute, h])

theorem observe_mute_oops {α β : Type} (x : Prog α) (f : α → Prog β) (s' : Sys σ)
    (hmute : x.Mute) (h : exec g x s = .oops s') :
    observe g race (x >>= f) w s = (.oops s', w) :=
  observe_stop g race w s x f w s' (by rw [observe_mute g race x w s hmute, h])

@[simp] theorem observe_pure {α : Type} (a : α) :
    observe g race (pure a) w s = (.done a s, w) := rfl

theorem observe_pure_then {α β : Type} (a : α) (f : α → Prog β) :
    observe g race (pure a >>= f) w s = observe g race (f a) w s := rfl

@[simp] theorem observe_kzalloc (size : Nat) : observe g race (kzalloc size) w s =
    (.done (g.ptr s.sizes.length) (s.alloc size true),
      w.note (.alloc (g.ptr s.sizes.length) size) s) := rfl

@[simp] theorem observe_kmalloc (size : Nat) : observe g race (kmalloc size) w s =
    (.done (g.ptr s.sizes.length) (s.alloc size false),
      w.note (.alloc (g.ptr s.sizes.length) size) s) := rfl

@[simp] theorem observe_kfree (p : Ptr) :
    observe g race (kfree p) w s = (.done () s, w.note (.free p) s) := rfl

-- A call that allocates an object and fills it, and one that finds no memory for it.
theorem observe_object {g : Guest σ} {β : Type} (size i : Nat) (data : List Byte) (f : Ptr → Prog β)
    (hi : s.sizes.length = i) (hptr : g.ptr i = some i) (hdata : data.length = size) :
    observe g race (do let p ← kzalloc size; store p data; f p) w s =
      observe g race (f (some i)) (w.note (.alloc (some i) size) s) { s with
        sizes := s.sizes ++ [size]
        mem := Mem.store (Mem.fill s.mem i 0) ⟨i, 0⟩ data } := by
  subst hi
  have hsize : (s.sizes ++ [size]).getD s.sizes.length 0 = size := by simp
  have hstore := exec_store g (s.alloc size true) s.sizes.length data
    (by simp only [Sys.alloc, hsize, hdata]; exact Nat.le_refl _)
  rw [observe_then _ _ _ _ _ _ _ _ _ (observe_kzalloc g race w s size), hptr,
    observe_mute_then _ _ _ _ _ _ _ _ (mute_store _ _) hstore]
  rfl

theorem observe_object_null {g : Guest σ} {β : Type} (size i : Nat) (data : List Byte) (f : Ptr → Prog β)
    (hi : s.sizes.length = i) (hptr : g.allocs i ≠ true) :
    observe g race (do let p ← kzalloc size; store p data; f p) w s =
      (.oops (s.alloc size true), w.note (.alloc none size) s) := by
  subst hi
  have hnull : g.ptr s.sizes.length = none := if_neg hptr
  rw [observe_then _ _ _ _ _ _ _ _ _ (observe_kzalloc g race w s size), hnull]
  exact observe_mute_oops _ _ _ _ _ _ _ (mute_store _ _) rfl

-- The state that the device finds.
def Sys.posted (s : Sys σ) (v : Nat) (sgs : List Sg) (numOut numIn : Nat) : Sys σ :=
  { s with locked := true }.setQueue v ((s.queues v).add (toElement sgs numOut numIn))

theorem observe_submit (v : Nat) (sgs : List Sg) (numOut numIn : Nat) (hlock : s.locked = false) :
    observe g race (submit v sgs numOut numIn) w s = (exec g (submit v sgs numOut numIn) s,
      (w.note (.addSgs v sgs numOut numIn) { s with locked := true }).note (.kick v)
        (s.posted v sgs numOut numIn)) := by
  simp only [submit, observe_bind, exec_bind, spinLock, spinUnlock, addSgs, kick, getBuf, observe,
    exec, hlock, Bool.false_eq_true, if_false, Sys.posted]
  generalize (({ s with locked := true } : Sys σ).setQueue v _).notify g v = s'
  cases (s'.queues v).used <;> rfl

section Always

-- Whatever a program meets, it only does what `P` allows.
def Prog.All {α : Type} (P : Deed → Prop) : Prog α → Prop
  | .ret _ | .oops => True
  | .kmalloc size _ next => ∀ p, P (.alloc p size) ∧ (next p).All P
  | .kfree p next => P (.free p) ∧ next.All P
  | .put _ _ _ next => next.All P
  | .get _ _ _ next => ∀ data, (next data).All P
  | .loadUser addr n next => P (.fetch addr n) ∧ ∀ data, (next data).All P
  | .copyFromUser block addr n next => P (.copyIn block addr n) ∧ ∀ ok, (next ok).All P
  | .copyToUser addr block n next => P (.copyOut addr block n) ∧ ∀ ok, (next ok).All P
  | .nonseekableOpen next => ∀ ret, (next ret).All P
  | .findDev _ next => ∀ crdev, (next crdev).All P
  | .newCrof _ next => ∀ ok, (next ok).All P
  | .getCrof next => ∀ crof, (next crof).All P
  | .setHostFd _ next => next.All P
  | .freeCrof next => next.All P
  | .spinLock next => next.All P
  | .spinUnlock next => next.All P
  | .addSgs v sgs numOut numIn next => P (.addSgs v sgs numOut numIn) ∧ next.All P
  | .kick v next => P (.kick v) ∧ next.All P
  | .getBuf _ next => next.All P

variable {P : Deed → Prop}

theorem Prog.All.bind {α β : Type} {x : Prog α} {f : α → Prog β} (hx : x.All P)
    (hf : ∀ a, (f a).All P) : (x >>= f).All P := by
  change (x.bind f).All P
  induction x with
  | ret a => exact hf a
  | oops => trivial
  | kmalloc _ _ _ ih => exact fun p => ⟨(hx p).1, ih p (hx p).2⟩
  | loadUser _ _ _ ih | copyFromUser _ _ _ _ ih | copyToUser _ _ _ _ ih =>
      exact ⟨hx.1, fun a => ih a (hx.2 a)⟩
  | get _ _ _ _ ih | nonseekableOpen _ ih | findDev _ _ ih | newCrof _ _ ih | getCrof _ ih =>
      exact fun a => ih a (hx a)
  | kfree _ _ ih | addSgs _ _ _ _ _ ih | kick _ _ ih => exact ⟨hx.1, ih hx.2⟩
  | put _ _ _ _ ih | setHostFd _ _ ih | freeCrof _ ih | spinLock _ ih | spinUnlock _ ih
  | getBuf _ _ ih => exact ih hx

theorem observe_all {α : Type} (x : Prog α) (h : x.All P) :
    ∃ l, (observe g race x w s).2.trail = w.trail ++ l ∧ ∀ e ∈ l, P e.1 := by
  have hstop : ∃ l, w.trail = w.trail ++ l ∧ ∀ e ∈ l, P e.1 := ⟨[], by simp⟩
  -- One deed, and then those of the rest.
  have hcons : ∀ (w : Watch σ) (t : List (Deed × Sys σ)) (d : Deed) (s' : Sys σ), P d →
      (∃ l, t = (w.trail ++ [(d, s')]) ++ l ∧ ∀ e ∈ l, P e.1) →
      ∃ l, t = w.trail ++ l ∧ ∀ e ∈ l, P e.1 := by
    rintro w t d s' hd ⟨l, rfl, hl⟩
    refine ⟨(d, s') :: l, by simp, fun e he => ?_⟩
    obtain rfl | he := List.mem_cons.mp he
    · exact hd
    · exact hl e he
  induction x generalizing w s with
  | ret a | oops => exact hstop
  | kmalloc size zeroed next ih =>
      exact hcons w _ _ s (h _).1
        (ih _ (w.note (.alloc (g.ptr s.sizes.length) size) s) _ (h _).2 ⟨[], by simp⟩)
  | kfree p next ih => exact hcons w _ _ s h.1 (ih (w.note (.free p) s) _ h.2 ⟨[], by simp⟩)
  | addSgs v sgs numOut numIn next ih =>
      exact hcons w _ _ s h.1 (ih (w.note (.addSgs v sgs numOut numIn) s) _ h.2 ⟨[], by simp⟩)
  | kick v next ih => exact hcons w _ _ s h.1 (ih (w.note (.kick v) s) _ h.2 ⟨[], by simp⟩)
  | put block off data next ih =>
      unfold observe
      split_ifs
      · exact ih _ _ h hstop
      · exact hstop
  | loadUser addr n next ih =>
      unfold observe
      dsimp only
      cases g.space.copyFrom (s.raced race w.accesses).user addr n with
      | none => exact ⟨[_], rfl, by simpa using h.1⟩
      | some data => exact hcons w _ _ _ h.1 (ih data (w.touch _ _) _ (h.2 data) ⟨[], by simp⟩)
  | copyFromUser block addr n next ih =>
      unfold observe
      dsimp only
      cases g.space.copyFrom (s.raced race w.accesses).user addr n with
      | none => exact hcons w _ _ _ h.1 (ih false (w.touch _ _) _ (h.2 false) ⟨[], by simp⟩)
      | some data =>
          dsimp only
          split_ifs
          · exact hcons w _ _ _ h.1 (ih true (w.touch _ _) _ (h.2 true) ⟨[], by simp⟩)
          · exact ⟨[_], rfl, by simpa using h.1⟩
  | copyToUser addr block n next ih =>
      unfold observe
      dsimp only
      cases g.space.copyTo (s.raced race w.accesses).user addr
          (Mem.load (s.raced race w.accesses).mem ⟨block, 0⟩ n) with
      | none => exact hcons w _ _ _ h.1 (ih false (w.touch _ _) _ (h.2 false) ⟨[], by simp⟩)
      | some user => exact hcons w _ _ _ h.1 (ih true (w.touch _ _) _ (h.2 true) ⟨[], by simp⟩)
  | newCrof crof next ih =>
      unfold observe
      split_ifs
      · exact ih true _ _ (h true) hstop
      · exact ih false _ s (h false) hstop
  | getCrof next ih =>
      unfold observe
      cases s.crof with
      | none => exact hstop
      | some crof => exact ih crof _ s (h crof) hstop
  | spinLock next ih =>
      unfold observe
      split_ifs
      · exact hstop
      · exact ih _ _ h hstop
  | getBuf v next ih =>
      unfold observe
      cases (s.queues v).used with
      | nil => exact hstop
      | cons _ used => exact ih _ _ h hstop
  | setHostFd _ _ ih | freeCrof _ ih | spinUnlock _ ih => exact ih _ _ h hstop
  | get _ _ _ _ ih | nonseekableOpen _ ih | findDev _ _ ih => exact ih _ _ _ (h _) hstop

theorem Prog.all_true {α : Type} (x : Prog α) : x.All fun _ => True := by
  induction x with
  | ret a | oops => trivial
  | kmalloc _ _ _ ih | loadUser _ _ _ ih | copyFromUser _ _ _ _ ih | copyToUser _ _ _ _ ih
  | get _ _ _ _ ih | nonseekableOpen _ ih | findDev _ _ ih | newCrof _ _ ih | getCrof _ ih =>
      simpa only [Prog.All, true_and] using ih
  | kfree _ _ ih | addSgs _ _ _ _ _ ih | kick _ _ ih => exact ⟨trivial, ih⟩
  | put _ _ _ _ ih | setHostFd _ _ ih | freeCrof _ ih | spinLock _ ih | spinUnlock _ ih
  | getBuf _ _ ih => exact ih

-- What has been noted stays.
theorem observe_grows {α : Type} (x : Prog α) :
    w.trail <+: (observe g race x w s).2.trail := by
  obtain ⟨l, hl, -⟩ := observe_all g race w s x x.all_true
  exact ⟨l, hl.symm⟩

theorem observe_bind_grows {α β : Type} (x : Prog α) (f : α → Prog β) :
    (observe g race x w s).2.trail <+: (observe g race (x >>= f) w s).2.trail := by
  rw [observe_bind]
  generalize observe g race x w s = r
  obtain ⟨out, w'⟩ := r
  cases out with
  | done a s' => exact observe_grows g race w' s' (f a)
  | oops s' | hangs s' => exact List.prefix_rfl

-- The memory of the process changes by copies to it and by nothing else.
def Deed.Inward : Deed → Prop
  | .copyOut _ _ _ => False
  | _ => True

theorem exec_user {α : Type} (x : Prog α) (h : x.All Deed.Inward) :
    (exec g x s).state.user = s.user := by
  induction x generalizing s with
  | ret a | oops => rfl
  | copyToUser addr block n next ih => exact h.1.elim
  | put block off data next ih =>
      unfold exec
      split_ifs
      · exact ih _ h
      · rfl
  | loadUser addr n next ih =>
      unfold exec
      cases g.space.copyFrom s.user addr n with
      | none => rfl
      | some data => exact ih data s (h.2 data)
  | copyFromUser block addr n next ih =>
      unfold exec
      cases g.space.copyFrom s.user addr n with
      | none => exact ih false s (h.2 false)
      | some data =>
          dsimp only
          split_ifs
          · exact ih true _ (h.2 true)
          · rfl
  | newCrof crof next ih =>
      unfold exec
      split_ifs
      · exact ih true _ (h true)
      · exact ih false s (h false)
  | getCrof next ih =>
      unfold exec
      cases s.crof with
      | none => rfl
      | some crof => exact ih crof s (h crof)
  | spinLock next ih =>
      unfold exec
      split_ifs
      · rfl
      · exact ih _ h
  | getBuf v next ih =>
      unfold exec
      cases (s.queues v).used with
      | nil => rfl
      | cons _ used => exact ih _ h
  | kmalloc _ _ _ ih => exact ih _ _ (h _).2
  | kfree _ _ ih | addSgs _ _ _ _ _ ih | kick _ _ ih => exact ih _ h.2
  | setHostFd _ _ ih | freeCrof _ ih | spinUnlock _ ih => exact ih _ h
  | get _ _ _ _ ih | nonseekableOpen _ ih | findDev _ _ ih => exact ih _ _ (h _)

theorem all_pure {α : Type} (a : α) : (pure a : Prog α).All P := trivial

theorem all_kzalloc (size : Nat) (h : ∀ p, P (.alloc p size)) : (kzalloc size).All P :=
  fun p => ⟨h p, trivial⟩

theorem all_kmalloc (size : Nat) (h : ∀ p, P (.alloc p size)) : (kmalloc size).All P :=
  fun p => ⟨h p, trivial⟩

theorem all_getCrof : getCrof.All P := fun _ => trivial

theorem all_deref (p : Ptr) : (deref p).All P := by cases p <;> trivial

theorem all_store (p : Ptr) (data : List Byte) : (store p data).All P := by cases p <;> trivial

theorem all_load (p : Ptr) (off n : Nat) : (load p off n).All P := by
  cases p with
  | none => trivial
  | some _ => exact fun _ => trivial

theorem all_sgInitOne (p : Ptr) (len : Nat) : (sgInitOne p len).All P := by cases p <;> trivial

theorem all_loadUser (addr n : Nat) (h : P (.fetch addr n)) : (loadUser addr n).All P :=
  ⟨h, fun _ => trivial⟩

theorem all_copyFromUser (p : Ptr) (addr n : Nat) (h : ∀ block, P (.copyIn block addr n)) :
    (copyFromUser p addr n).All P :=
  (all_deref p).bind fun block => ⟨h block, fun _ => trivial⟩

theorem Prog.Quiet.all {α : Type} {x : Prog α} (h : x.Quiet) : x.All fun d => ∀ v, d ≠ .kick v := by
  induction x with
  | ret a | oops => trivial
  | kick v next ih => exact h.elim
  | kmalloc _ _ _ ih => exact fun p => ⟨by simp, ih p (h p)⟩
  | loadUser _ _ _ ih | copyFromUser _ _ _ _ ih | copyToUser _ _ _ _ ih =>
      exact ⟨by simp, fun a => ih a (h a)⟩
  | get _ _ _ _ ih | nonseekableOpen _ ih | findDev _ _ ih | newCrof _ _ ih | getCrof _ ih =>
      exact fun a => ih a (h a)
  | kfree _ _ ih | addSgs _ _ _ _ _ ih => exact ⟨by simp, ih h⟩
  | put _ _ _ _ ih | setHostFd _ _ ih | freeCrof _ ih | spinLock _ ih | spinUnlock _ ih
  | getBuf _ _ ih => exact ih h

end Always

end CryptodevChat.Virtio
