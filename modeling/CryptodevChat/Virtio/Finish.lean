import CryptodevChat.Virtio.Course
import CryptodevChat.Virtio.Status
import CryptodevChat.Virtio.Native

namespace CryptodevChat.Virtio

open Lib (Byte fromLe Loc Mem Space)

variable {σ : Type} {g : Guest σ}

section Beside

-- The same kernel for a process with another memory.
def Guest.beside (g : Guest σ) (space : Space) : Guest σ := { g with space }

def Sys.beside (s : Sys σ) (user : Mem Byte) : Sys σ := { s with user }

def Outcome.beside {α : Type} (user : Mem Byte) : Outcome σ α → Outcome σ α
  | .done a s => .done a (s.beside user)
  | .oops s => .oops (s.beside user)
  | .hangs s => .hangs (s.beside user)

def Watch.beside (w : Watch σ) (user : Mem Byte) : Watch σ :=
  ⟨w.accesses, w.trail.map fun e => (e.1, e.2.beside user)⟩

-- A read that finds the same in both memories.
def Deed.Agrees (g : Guest σ) (user : Mem Byte) (space' : Space) (user' : Mem Byte) : Deed → Prop
  | .fetch addr n | .copyIn _ addr n => g.space.copyFrom user addr n = space'.copyFrom user' addr n
  | .copyOut _ _ _ => False
  | _ => True

@[simp] theorem beside_note (w : Watch σ) (d : Deed) (s : Sys σ) (user : Mem Byte) :
    (w.note d s).beside user = (w.beside user).note d (s.beside user) := by
  simp [Watch.beside, Watch.note]

@[simp] theorem beside_touch (w : Watch σ) (d : Deed) (s : Sys σ) (user : Mem Byte) :
    (w.touch d s).beside user = (w.beside user).touch d (s.beside user) := by
  simp [Watch.beside, Watch.touch]

-- A program whose reads agree, and that writes nothing back, runs alike.
theorem observe_beside {α : Type} (space' : Space) (user' : Mem Byte) (x : Prog α) (w : Watch σ)
    (s : Sys σ) (h : x.All (Deed.Agrees g s.user space' user')) :
    observe (g.beside space') (fun _ user => user) x (w.beside user') (s.beside user') =
      ((observe g (fun _ user => user) x w s).1.beside user',
        (observe g (fun _ user => user) x w s).2.beside user') := by
  induction x generalizing w s with
  | ret a | oops => rfl
  | copyToUser addr block n next ih => exact h.1.elim
  | kmalloc size zeroed next ih =>
      have hnext := ih _ (w.note (.alloc (g.ptr s.sizes.length) size) s) (s.alloc size zeroed)
        (h (g.ptr s.sizes.length)).2
      rw [beside_note] at hnext
      exact hnext
  | kfree p next ih =>
      have hnext := ih (w.note (.free p) s) s h.2
      rw [beside_note] at hnext
      exact hnext
  | addSgs v sgs numOut numIn next ih =>
      have hnext := ih (w.note (.addSgs v sgs numOut numIn) s)
        (s.setQueue v ((s.queues v).add (toElement sgs numOut numIn))) h.2
      rw [beside_note] at hnext
      exact hnext
  | kick v next ih =>
      have hnext := ih (w.note (.kick v) s) (s.notify g v) h.2
      rw [beside_note] at hnext
      exact hnext
  | put block off data next ih =>
      have hsame : (s.beside user').sizes = s.sizes := rfl
      unfold observe
      rw [hsame]
      split_ifs
      · exact ih w { s with mem := Mem.store s.mem ⟨block, off⟩ data } h
      · rfl
  | loadUser addr n next ih =>
      have hread : g.space.copyFrom s.user addr n = space'.copyFrom user' addr n := h.1
      unfold observe
      dsimp only [Sys.raced, Sys.beside, Guest.beside]
      rw [← hread]
      cases g.space.copyFrom s.user addr n with
      | none => simp [Outcome.beside, Sys.beside]
      | some data =>
          have hnext := ih data (w.touch (.fetch addr n) s) s (h.2 data)
          rw [beside_touch] at hnext
          exact hnext
  | copyFromUser block addr n next ih =>
      have hread : g.space.copyFrom s.user addr n = space'.copyFrom user' addr n := h.1
      unfold observe
      dsimp only [Sys.raced, Sys.beside, Guest.beside]
      rw [← hread]
      cases g.space.copyFrom s.user addr n with
      | none =>
          have hnext := ih false (w.touch (.copyIn block addr n) s) s (h.2 false)
          rw [beside_touch] at hnext
          exact hnext
      | some data =>
          have hnext := ih true (w.touch (.copyIn block addr n) s)
            { s with mem := Mem.store s.mem ⟨block, 0⟩ data } (h.2 true)
          rw [beside_touch] at hnext
          by_cases hsize : n ≤ s.sizes.getD block 0
          · simp only [hsize, if_true]
            exact hnext
          · simp only [hsize, if_false, beside_touch]
            rfl
  | newCrof crof next ih =>
      have hsame : (g.beside space').crofAlloc = g.crofAlloc := rfl
      unfold observe
      rw [hsame]
      split_ifs
      · exact ih true w { s with crof := some crof } (h true)
      · exact ih false w s (h false)
  | getCrof next ih =>
      have hsame : (s.beside user').crof = s.crof := rfl
      unfold observe
      rw [hsame]
      cases s.crof with
      | none => rfl
      | some crof => exact ih crof w s (h crof)
  | spinLock next ih =>
      have hsame : (s.beside user').locked = s.locked := rfl
      unfold observe
      rw [hsame]
      split_ifs
      · rfl
      · exact ih w { s with locked := true } h
  | getBuf v next ih =>
      have hsame : ((s.beside user').queues v).used = (s.queues v).used := rfl
      unfold observe
      rw [hsame]
      cases (s.queues v).used with
      | nil => rfl
      | cons _ used => exact ih w (s.setQueue v { s.queues v with used }) h
  | setHostFd fd next ih =>
      exact ih w { s with crof := s.crof.map fun crof => { crof with hostFd := fd } } h
  | freeCrof next ih => exact ih w { s with crof := none } h
  | spinUnlock next ih => exact ih w { s with locked := false } h
  | get _ _ _ _ ih | nonseekableOpen _ ih | findDev _ _ ih => exact ih _ w s (h _)

end Beside

section Course

-- What a call shows to those who do not see its memory: the sizes that it asks
-- for, its requests with the objects as the device finds them, and its result.
def Deed.size : Deed → Option Nat
  | .alloc _ size => some size
  | _ => none

def Watch.sizes (w : Watch σ) : List Nat := w.deeds.filterMap Deed.size

def requestOf : Deed × Sys σ → Option (Deed × Mem Byte)
  | (.addSgs v sgs numOut numIn, s) => some (.addSgs v sgs numOut numIn, s.mem)
  | _ => none

def Watch.requests (w : Watch σ) : List (Deed × Mem Byte) := w.trail.filterMap requestOf

def Outcome.returned {α : Type} : Outcome σ α → Option α
  | .done a _ => some a
  | .oops _ | .hangs _ => none

structure SameCourse (r r' : Outcome σ Int × Watch σ) : Prop where
  sizes : r.2.sizes = r'.2.sizes
  requests : r.2.requests = r'.2.requests
  returned : r.1.returned = r'.1.returned

theorem sameCourse_beside (r : Outcome σ Int × Watch σ) (user : Mem Byte) :
    SameCourse r (r.1.beside user, r.2.beside user) := by
  obtain ⟨out, w⟩ := r
  refine ⟨?_, ?_, ?_⟩
  · simp [Watch.sizes, Watch.deeds, Watch.beside]
  · unfold Watch.requests Watch.beside
    rw [List.filterMap_map]
    congr 1
    funext e
    obtain ⟨d, s⟩ := e
    cases d <;> rfl
  · cases out <;> rfl

-- The bytes of the process that a deed reads.
def Deed.Within (lo hi : Nat) : Deed → Prop
  | .fetch addr n | .copyIn _ addr n => ∀ i < n, lo ≤ addr + i ∧ addr + i < hi
  | _ => True

-- The call and the same call with another memory behind the session id.
structure SessionOnly (g : Guest σ) (s : Sys σ) (space' : Space) (user' : Mem Byte) (arg : Nat) :
    Prop where
  reads : ∀ d ∈ (watched g (cryptoChrdevIoctl CIOCFSESSION arg) s).2.deeds, d.Within arg (arg + 4)
  course : SameCourse (watched g (cryptoChrdevIoctl CIOCFSESSION arg) s)
    (watched (g.beside space') (cryptoChrdevIoctl CIOCFSESSION arg) (s.beside user'))

end Course

section Finish

variable {s : Sys σ} {file : Crof} (hs : s.Fresh file) (space' : Space) (user' : Mem Byte) (arg : Nat)

-- A call that finds the same id and the same length runs alike.
theorem finish_agrees {ses : List Byte} (hid : g.space.copyFrom s.user arg 4 = some ses)
    (hid' : space'.copyFrom user' arg 4 = some ses)
    (hlen : g.space.copyFrom s.user (arg + LEN_OFF) 4 = space'.copyFrom user' (arg + LEN_OFF) 4) :
    (cryptoChrdevIoctl CIOCFSESSION arg).All (Deed.Agrees g s.user space' user') := by
  have hcopy : Deed.Agrees g s.user space' user' (.copyIn 0 arg 4) := hid.trans hid'.symm
  have hcmd : ∀ o, (cmdSgs CIOCFSESSION arg o).All (Deed.Agrees g s.user space' user') := by
    intro o
    unfold cmdSgs
    simp only [fsession_ne_gsession, if_false, if_true]
    refine (all_copyFromUser _ _ _ fun _ => hcopy).bind fun ok => ?_
    split
    · exact (all_sgInitOne _ _).bind fun _ => all_pure _
    · exact all_pure _
  have hreply : ∀ c o, (reply CIOCFSESSION arg c o).All (Deed.Agrees g s.user space' user') := by
    intro c o
    have hback : copyBack CIOCFSESSION arg o = pure true := by
      rw [copyBack, if_neg fsession_ne_gsession, if_neg fsession_ne_crypt]
    unfold reply
    rw [hback]
    exact cleanup_all c o (fun _ _ => trivial) true
  rw [ioctl_stages]
  refine (allocCommon_all (fun _ _ => trivial) _).bind fun c =>
    (allocObjects_all (fun _ _ => trivial) arg hlen).bind fun o => (hcmd o).bind fun r => ?_
  cases r with
  | none => exact all_pure _
  | some r =>
      exact (all_sgInitOne _ _).bind fun _ =>
        (submit_all (fun _ _ _ _ => trivial) (fun _ => trivial) _ _ _ _).bind fun _ => hreply c o

include hs

-- A call that does not get its first objects has read nothing.
theorem finish_null (h : ¬g.Has [0, 1, 2]) : SessionOnly g s space' user' arg := by
  obtain ⟨s', w, -, hobs, -⟩ :=
    observe_allocCommon_null (g := g) (fun _ user => user) s hs CIOCFSESSION h
  have hbeside := observe_beside (g := g) space' user' (allocCommon CIOCFSESSION) .start s
    (allocCommon_all (fun _ _ => trivial) _)
  rw [hobs] at hbeside
  have hcall : watched g (cryptoChrdevIoctl CIOCFSESSION arg) s = (.oops s', w) := by
    unfold watched
    rw [ioctl_stages]
    exact observe_stop _ _ _ _ _ _ _ _ hobs
  have hcall' : watched (g.beside space') (cryptoChrdevIoctl CIOCFSESSION arg) (s.beside user') =
      (.oops (s'.beside user'), w.beside user') := by
    unfold watched
    rw [ioctl_stages]
    exact observe_stop _ _ _ _ _ _ _ _ hbeside
  constructor
  · obtain ⟨l, hl, hall⟩ := observe_all g (fun _ user => user) .start s (allocCommon CIOCFSESSION)
      (allocCommon_all (P := Deed.Within arg (arg + 4)) (fun _ _ => trivial) _)
    rw [hobs] at hl
    rw [hcall]
    intro d hd
    obtain ⟨e, he, rfl⟩ := List.mem_map.mp hd
    rw [hl] at he
    exact hall e he
  · rw [hcall, hcall']
    exact sameCourse_beside (.oops s', w) user'

-- Every other one has read the length behind the id.
theorem finish_sizes (h : g.Has [0, 1, 2]) :
    .fetch (arg + LEN_OFF) 4 ∈ (watched g (cryptoChrdevIoctl CIOCFSESSION arg) s).2.deeds ∧
    (watched g (cryptoChrdevIoctl CIOCFSESSION arg) s).2.sizes =
      match g.space.copyFrom s.user (arg + LEN_OFF) 4 with
      | none => [4, 4, 4, 4, SESSION_OP_SIZE]
      | some data => ioctlSizes (fromLe data) := by
  cases hlen : g.space.copyFrom s.user (arg + LEN_OFF) 4 with
  | none =>
      obtain ⟨s', w, hcall, hdeeds⟩ := watched_ioctl_unread hs CIOCFSESSION arg h hlen
      rw [hcall]
      simp [Watch.sizes, hdeeds, commonDeeds, Deed.size]
  | some data =>
      obtain ⟨w, hdeeds, hcall⟩ := watched_ioctl_ready hs CIOCFSESSION arg data h hlen
      obtain ⟨l, hl, hall⟩ := observe_all (P := fun d => d.size = none) g (fun _ user => user) w
        (s.prepared file CIOCFSESSION (ioctlSizes (fromLe data)))
        (do
          let r ← cmdSgs CIOCFSESSION arg g.objects
          conclude CIOCFSESSION arg (file.found g, g.objects, r))
        ((cmdSgs_all (fun _ _ _ => rfl) (fun _ _ => rfl) _ arg _).bind fun r =>
          conclude_all (fun _ _ _ _ => rfl) (fun _ => rfl) (fun _ _ _ => rfl) (fun _ _ => rfl) _ arg _ _
            (fun _ _ => rfl) r)
      have hrest : (l.map Prod.fst).filterMap Deed.size = [] := by
        simpa [List.filterMap_map] using hall
      rw [hcall]
      unfold Watch.sizes Watch.deeds
      rw [hl, List.map_append, List.filterMap_append, hrest]
      have hw : w.trail.map Prod.fst = _ := hdeeds
      rw [hw]
      exact ⟨by simp [objectDeeds], List.append_nil _⟩

-- It is alike in both memories exactly when that length is.
theorem finish_course_iff {ses : List Byte} (hid : g.space.copyFrom s.user arg 4 = some ses)
    (hid' : space'.copyFrom user' arg 4 = some ses) (h : g.Has [0, 1, 2]) :
    SameCourse (watched g (cryptoChrdevIoctl CIOCFSESSION arg) s)
      (watched (g.beside space') (cryptoChrdevIoctl CIOCFSESSION arg) (s.beside user')) ↔
    g.space.copyFrom s.user (arg + LEN_OFF) 4 = space'.copyFrom user' (arg + LEN_OFF) 4 := by
  constructor
  · intro hsame
    have hsizes := hsame.sizes
    have hfresh : (s.beside user').Fresh file :=
      ⟨hs.sizes, hs.crof, hs.locked, hs.avail, hs.used, hs.history⟩
    rw [(finish_sizes hs arg h).2,
      (finish_sizes (g := g.beside space') hfresh arg h).2] at hsizes
    change _ = match space'.copyFrom user' (arg + LEN_OFF) 4 with | none => _ | some data => _ at hsizes
    cases hlen : g.space.copyFrom s.user (arg + LEN_OFF) 4 with
    | none =>
        cases hlen' : space'.copyFrom user' (arg + LEN_OFF) 4 with
        | none => rfl
        | some data' =>
            rw [hlen, hlen'] at hsizes
            exact absurd (congrArg List.length hsizes) (by simp [ioctlSizes])
    | some data =>
        cases hlen' : space'.copyFrom user' (arg + LEN_OFF) 4 with
        | none =>
            rw [hlen, hlen'] at hsizes
            exact absurd (congrArg List.length hsizes) (by simp [ioctlSizes])
        | some data' =>
            rw [hlen, hlen'] at hsizes
            have heq : fromLe data = fromLe data' := by simpa [ioctlSizes] using hsizes
            have h4 := Space.copyFrom_length _ _ _ _ _ hlen
            have h4' := Space.copyFrom_length _ _ _ _ _ hlen'
            rw [← Lib.le_fromLe data, ← Lib.le_fromLe data', h4, h4', heq]
  · intro hlen
    have hbeside : watched (g.beside space') (cryptoChrdevIoctl CIOCFSESSION arg) (s.beside user') = _ :=
      observe_beside (g := g) space' user' (cryptoChrdevIoctl CIOCFSESSION arg) .start s
        (finish_agrees space' user' arg hid hid' hlen)
    rw [hbeside]
    exact sameCourse_beside (watched g (cryptoChrdevIoctl CIOCFSESSION arg) s) user'

-- The four bytes of the id decide nothing by themselves: the length that other
-- commands have behind it is read by every call that gets that far.
theorem session_only_iff (ses : List Byte) (hid : g.space.copyFrom s.user arg 4 = some ses)
    (hid' : space'.copyFrom user' arg 4 = some ses) :
    (SessionOnly g s space' user' arg ↔ ¬g.Has [0, 1, 2]) ∧
    (g.Has [0, 1, 2] →
      (SameCourse (watched g (cryptoChrdevIoctl CIOCFSESSION arg) s)
        (watched (g.beside space') (cryptoChrdevIoctl CIOCFSESSION arg) (s.beside user')) ↔
      g.space.copyFrom s.user (arg + LEN_OFF) 4 = space'.copyFrom user' (arg + LEN_OFF) 4)) := by
  refine ⟨⟨fun h hallocs => ?_, finish_null hs space' user' arg⟩,
    finish_course_iff hs space' user' arg hid hid'⟩
  have hlong := h.reads _ (finish_sizes hs arg hallocs).1 0 (by omega)
  unfold LEN_OFF at hlong
  omega

end Finish

section Pages

-- A process that has the four bytes of the id and nothing behind them.
def onlyId : Space where
  byteAt := fun a => ⟨0, a⟩
  readable := fun a => 0x1000 ≤ a && a < 0x1004
  writable := fun _ => true

theorem starved_finish_only :
    SessionOnly { plainGuest with allocs := fun _ => false } (plainCall fun _ => 0) onlyId (fun _ => 0)
      0x1000 :=
  (session_only_iff (plainCall_fresh _) onlyId (fun _ => 0) 0x1000 (List.replicate 4 0) rfl rfl).1.mpr
    fun h => Bool.false_ne_true (h 0 (by simp))

-- The same id with the same host: one process ends its session, and the other
-- is the end of the kernel.
theorem finish_faults :
    (∃ s', exec plainGuest (cryptoChrdevIoctl CIOCFSESSION 0x1000) (plainCall fun _ => 0) = .done 0 s') ∧
    (∃ s', exec (plainGuest.beside onlyId) (cryptoChrdevIoctl CIOCFSESSION 0x1000)
      (plainCall fun _ => 0) = .oops s') ∧
    ¬SessionOnly plainGuest (plainCall fun _ => 0) onlyId (fun _ => 0) 0x1000 := by
  have hallocs : plainGuest.Has [0, 1, 2] := fun _ _ => rfl
  refine ⟨?_, ?_, fun h => ?_⟩
  · obtain ⟨s', hexec, -⟩ := exec_fsession_ok (g := plainGuest) (plainCall_fresh fun _ => 0)
      (plainSys_idle _ 7 _) (fun _ => rfl) rfl 0x1000 _ _ 7 ((flat_maps _ _).copyFrom _)
      ((flat_maps _ _).copyFrom _) (farApart_places _ (by decide)) rfl
    exact ⟨s', hexec⟩
  · obtain ⟨s', w, hcall, -⟩ := watched_ioctl_unread (g := plainGuest.beside onlyId)
      (plainCall_fresh fun _ => 0) CIOCFSESSION 0x1000 hallocs rfl
    exact ⟨s', by rw [← watched_exec, hcall]⟩
  · have hid : plainGuest.space.copyFrom (fun _ => 0) 0x1000 4 = some (List.replicate 4 (0 : Byte)) := rfl
    have hlen := (finish_course_iff (g := plainGuest) (plainCall_fresh fun _ => 0) onlyId (fun _ => 0)
      0x1000 hid rfl hallocs).mp h.course
    cases hlen

end Pages

end CryptodevChat.Virtio
