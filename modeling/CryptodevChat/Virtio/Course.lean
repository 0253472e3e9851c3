import CryptodevChat.Virtio.Opening
import CryptodevChat.Virtio.Races
import CryptodevChat.Virtio.Tasks

namespace CryptodevChat.Virtio

open Lib (Byte le fromLe leInt le_length leInt_length Loc Mem Space)

variable {σ : Type} {g : Guest σ}

section Calls

-- A call that the kernel makes.
def Syscall.Made (s : Sys σ) : Syscall → Prop
  | .openDev _ => True
  | .ioctl cmd _ => cmd < 2 ^ 32 ∧ ∃ file, s.crof = some file
  | .release => ∃ file, s.crof = some file

theorem Sys.Idle.fresh {s : Sys σ} {file : Crof} (hs : s.Idle) (hhistory : s.history = [])
    (hcrof : s.crof = some file) : s.Fresh file :=
  ⟨hs.sizes, hcrof, hs.locked, hs.avail file.crdev, hs.used file.crdev, hhistory⟩

end Calls

section Releasing

variable {s : Sys σ} {file : Crof}

-- A `release` with its first buffer, and with both.
def Sys.typed (s : Sys σ) : Sys σ :=
  { s with
    sizes := [4]
    mem := Mem.store (Mem.fill s.mem 0 0) ⟨0, 0⟩ (le 4 VIRTIO_CRYPTO_SYSCALL_CLOSE) }

def Sys.closing (s : Sys σ) (file : Crof) : Sys σ :=
  { s.typed with
    sizes := [4, 4]
    mem := Mem.store (Mem.fill s.typed.mem 1 0) ⟨1, 0⟩ (leInt file.hostFd) }

def Watch.closing (s : Sys σ) : Watch σ :=
  ⟨0, [(.alloc (some 0) 4, s), (.alloc (some 1) 4, s.typed)]⟩

variable (hs : s.Idle) (hcrof : s.crof = some file)
include hs hcrof

theorem watched_release_null (h : ¬g.Has [0, 1]) :
    ∃ s' w, watched g cryptoChrdevRelease s = (.oops s', w) ∧
      (w.deeds = [.alloc none 4] ∨ w.deeds = [.alloc (some 0) 4, .alloc none 4]) := by
  unfold watched cryptoChrdevRelease
  rw [observe_mute_then _ _ _ _ _ _ _ _ mute_getCrof (exec_getCrof g s file hcrof)]
  by_cases h0 : g.allocs 0 = true
  · have h1 : g.allocs 1 ≠ true := by
      intro h1
      exact h (by simp [Guest.Has, h0, h1])
    rw [observe_object _ _ _ 4 0 _ _ (by simp [hs.sizes]) (if_pos h0) (le_length 4 _),
      observe_object_null _ _ _ 4 1 _ _ (by simp [hs.sizes]) h1]
    exact ⟨_, _, rfl, .inr (by simp)⟩
  · rw [observe_object_null _ _ _ 4 0 _ _ (by simp [hs.sizes]) h0]
    exact ⟨_, _, rfl, .inl (by simp)⟩

-- A `release` that has its buffers frees them, and the open file.
theorem watched_release (hbuf : g.Has [0, 1]) :
    ∃ s' w, watched g cryptoChrdevRelease s = (.done 0 s', w) ∧
      w.trail = (Watch.closing s).trail ++
        [(.addSgs file.crdev [⟨0, POINTER_SIZE⟩, ⟨1, 4⟩] 2 0,
            { s.closing file with locked := true }),
          (.kick file.crdev, (s.closing file).posted file.crdev [⟨0, POINTER_SIZE⟩, ⟨1, 4⟩] 2 0),
          (.free (some 0), s'), (.free (some 1), s')] ∧
      s'.crof = none := by
  have hsubmit := exec_submit g (s.closing file) file.crdev [⟨0, POINTER_SIZE⟩, ⟨1, 4⟩] 2 0 hs.locked
    (hs.avail file.crdev) (hs.used file.crdev) (by decide)
  have hobs := observe_submit g (fun _ user => user) (Watch.closing s) (s.closing file) file.crdev
    [⟨0, POINTER_SIZE⟩, ⟨1, 4⟩] 2 0 hs.locked
  rw [hsubmit] at hobs
  have hbuffers : ∀ f : Ptr → Ptr → Prog Int, observe g (fun _ user => user) (do
      let syscallType ← kzalloc 4
      store syscallType (le 4 VIRTIO_CRYPTO_SYSCALL_CLOSE)
      let hostFd ← kzalloc 4
      store hostFd (leInt file.hostFd)
      f syscallType hostFd) .start s =
    observe g (fun _ user => user) (f (some 0) (some 1)) (Watch.closing s) (s.closing file) := by
    intro f
    rw [observe_object _ _ _ 4 0 _ _ (by simp [hs.sizes]) (hbuf.ptr 0 (by simp)) (le_length 4 _),
      observe_object _ _ _ 4 1 _ _ (by simp [hs.sizes]) (hbuf.ptr 1 (by simp)) (leInt_length _)]
    simp only [hs.sizes, List.nil_append, List.singleton_append]
    rfl
  unfold watched cryptoChrdevRelease
  rw [observe_mute_then _ _ _ _ _ _ _ _ mute_getCrof (exec_getCrof g s file hcrof), hbuffers,
    observe_mute_then _ _ _ _ _ _ _ _ (mute_sgInitOne _ _) (exec_sgInitOne g _ 0 POINTER_SIZE),
    observe_mute_then _ _ _ _ _ _ _ _ (mute_sgInitOne _ _) (exec_sgInitOne g _ 1 4),
    observe_then _ _ _ _ _ _ _ _ _ hobs]
  exact ⟨_, _, rfl, by simp [Watch.note, List.append_assoc], rfl⟩

end Releasing

section Preparing

variable {s : Sys σ} {file : Crof} (hs : s.Fresh file) (cmd arg : Nat)
include hs

-- An ioctl that finds no memory for one of its first objects.
theorem watched_ioctl_null (h : ¬g.Has [0, 1, 2]) :
    ∃ s' w before, watched g (cryptoChrdevIoctl cmd arg) s = (.oops s', w) ∧
      w.deeds = before ++ [.alloc none 4] := by
  obtain ⟨s', w, before, hobs, hdeeds⟩ :=
    observe_allocCommon_null (g := g) (fun _ user => user) s hs cmd h
  refine ⟨s', w, before, ?_, hdeeds⟩
  unfold watched
  rw [ioctl_stages]
  exact observe_stop _ _ _ _ _ _ _ _ hobs

-- One without a structure at its argument.
theorem watched_ioctl_unread (hallocs : g.Has [0, 1, 2])
    (hlen : g.space.copyFrom s.user (arg + LEN_OFF) 4 = none) :
    ∃ s' w, watched g (cryptoChrdevIoctl cmd arg) s = (.oops s', w) ∧
      w.deeds = commonDeeds g ++ [.alloc (g.ptr 4) SESSION_OP_SIZE, .fetch (arg + LEN_OFF) 4] := by
  obtain ⟨w, hcommon, hacc, -, hdeeds⟩ :=
    observe_allocCommon (g := g) (fun _ user => user) s hs cmd hallocs
  obtain ⟨s', w', hobjects, hdeeds'⟩ := observe_allocObjects_oops (g := g) (fun _ user => user)
    { s with mem := commonMem s.mem file.hostFd cmd, sizes := [4, 4, 4, 4] } w arg hacc rfl hlen
  refine ⟨s', w', ?_, hdeeds'.trans (by rw [hdeeds])⟩
  unfold watched
  rw [ioctl_stages, observe_then _ _ _ _ _ _ _ _ _ hcommon]
  exact observe_stop _ _ _ _ _ _ _ _ hobjects

-- Every other one gets to its command.
theorem watched_ioctl_ready (data : List Byte) (hallocs : g.Has [0, 1, 2])
    (hlen : g.space.copyFrom s.user (arg + LEN_OFF) 4 = some data) :
    ∃ w, w.deeds = commonDeeds g ++ objectDeeds g arg (fromLe data) (fromLe data) (fromLe data) ∧
      watched g (cryptoChrdevIoctl cmd arg) s =
        observe g (fun _ user => user) (do
            let r ← cmdSgs cmd arg g.objects
            conclude cmd arg (file.found g, g.objects, r)) w
          (s.prepared file cmd (ioctlSizes (fromLe data))) := by
  have hread : ∀ k, readAt g (fun _ user => user) s.user k (arg + LEN_OFF) 4 = some data := by
    intro k
    rw [readAt, view_quiet]
    exact hlen
  obtain ⟨w, -, -, hdeeds, hobs⟩ :=
    observe_prepared (g := g) (fun _ user => user) s cmd arg hs data hallocs (hread 0)
  simp only [fieldAt_eq _ _ _ _ _ _ (hread _)] at hdeeds hobs
  refine ⟨w, hdeeds, hobs.trans ?_⟩
  rw [Sys.viewed, view_quiet]
  rfl

end Preparing

section Concluding

variable {P : Deed → Prop} (hsgs : ∀ v sgs numOut numIn, P (.addSgs v sgs numOut numIn))
  (hkick : ∀ v, P (.kick v))
include hsgs hkick

theorem submit_all (v : Nat) (sgs : List Sg) (numOut numIn : Nat) : (submit v sgs numOut numIn).All P :=
  ⟨hsgs v sgs numOut numIn, hkick v, trivial⟩

theorem conclude_all (hcopy : ∀ addr block n, P (.copyOut addr block n))
    (hfetch : ∀ addr n, P (.fetch addr n)) (cmd arg : Nat) (c : Common) (o : Objects)
    (hfree : ∀ p ∈ c.freed o, P (.free p)) (r : Option (List Sg × List Sg)) :
    (conclude cmd arg (c, o, r)).All P := by
  cases r with
  | none => exact all_pure _
  | some r =>
      exact (all_sgInitOne _ _).bind fun _ => (submit_all hsgs hkick _ _ _ _).bind fun _ =>
        reply_all cmd arg hcopy hfetch c o hfree

end Concluding

end CryptodevChat.Virtio
