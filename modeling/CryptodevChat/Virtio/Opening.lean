import CryptodevChat.Virtio.Success
import CryptodevChat.Virtio.Observe

namespace CryptodevChat.Virtio

open Lib (Byte le leInt le_length leInt_length Loc Mem Space)

variable {σ : Type} {g : Guest σ} (minor : Nat) (s : Sys σ)

section Ledger

def Deed.allocated : Deed → Option Nat
  | .alloc p _ => p
  | _ => none

def Deed.freed : Deed → Option Nat
  | .free p => p
  | _ => none

-- The buffers that a call has allocated and not freed.
def Watch.kept (w : Watch σ) : List Nat :=
  (w.trail.filterMap (·.1.allocated)).filter fun i => i ∉ w.trail.filterMap (·.1.freed)

def Watch.asked (w : Watch σ) : Prop := ∃ v, .kick v ∈ w.trail.map Prod.fst

end Ledger

section Opening

-- An `open` that succeeds exactly when the host's does, says so with `ENODEV`
-- when it does not, and leaves nothing behind when it fails.
structure OpenAnswers (g : Guest σ) (minor : Nat) (s : Sys σ) (ret : Int) (s' : Sys σ)
    (w : Watch σ) : Prop where
  zero : ret = 0 ↔ (∃ crdev, g.devs minor = some crdev) ∧ g.Has [0, 1] ∧ g.crofAlloc = true ∧
    0 ≤ (g.host.openDev s.host).1
  nodev : w.asked → (g.host.openDev s.host).1 < 0 → ret = -ENODEV
  file : ret = 0 → ∃ crdev, g.devs minor = some crdev ∧
    s'.crof = some ⟨crdev, (g.host.openDev s.host).1⟩
  nothing : ret < 0 → s'.crof = none ∧ w.kept = []

-- The two buffers, when both could be allocated.
def Sys.opening (s : Sys σ) : Sys σ :=
  { s with
    sizes := [4, 4]
    mem := Mem.store (Mem.store (Mem.fill (Mem.fill s.mem 0 0) 1 0) ⟨0, 0⟩
      (le 4 VIRTIO_CRYPTO_SYSCALL_OPEN)) ⟨1, 0⟩ (leInt (-1)) }

def Watch.opening (s : Sys σ) : Watch σ :=
  ⟨0, [(.alloc (some 0) 4, s), (.alloc (some 1) 4, s.alloc 4 true)]⟩

theorem kept_opening : (Watch.opening s).kept = [0, 1] := rfl

variable {s} (hs : s.Idle)
include hs

-- The first steps of an `open`, which end the call when one buffer is missing.
theorem observe_buffers {β : Type} (f : Ptr → Ptr → Prog β) (h : g.Has [0, 1]) :
    observe g (fun _ user => user) (do
      let syscallType ← kzalloc 4
      let hostFd ← kzalloc 4
      store syscallType (le 4 VIRTIO_CRYPTO_SYSCALL_OPEN)
      store hostFd (leInt (-1))
      f syscallType hostFd) .start s =
    observe g (fun _ user => user) (f (some 0) (some 1)) (Watch.opening s) s.opening := by
  have hsizes : ((s.alloc 4 true).alloc 4 true).sizes = [4, 4] := by simp [Sys.alloc, hs.sizes]
  have hptr0 : g.ptr s.sizes.length = some 0 := by rw [hs.sizes]; exact h.ptr 0 (by simp)
  have hptr1 : g.ptr (s.alloc 4 true).sizes.length = some 1 := by
    simp only [Sys.alloc, hs.sizes]
    exact h.ptr 1 (by simp)
  have htype := exec_store g ((s.alloc 4 true).alloc 4 true) 0 (le 4 VIRTIO_CRYPTO_SYSCALL_OPEN)
    (by simp [hsizes])
  have hfd := exec_store g { (s.alloc 4 true).alloc 4 true with
    mem := Mem.store ((s.alloc 4 true).alloc 4 true).mem ⟨0, 0⟩ (le 4 VIRTIO_CRYPTO_SYSCALL_OPEN) }
    1 (leInt (-1)) (by simp [hsizes, leInt_length])
  rw [observe_then _ _ _ _ _ _ _ _ _ (observe_kzalloc _ _ _ _ _),
    observe_then _ _ _ _ _ _ _ _ _ (observe_kzalloc _ _ _ _ _), hptr0, hptr1,
    observe_mute_then _ _ _ _ _ _ _ _ (mute_store _ _) htype,
    observe_mute_then _ _ _ _ _ _ _ _ (mute_store _ _) hfd]
  simp only [Sys.opening, Watch.opening, Watch.note, Watch.start, Sys.alloc, hs.sizes]
  rfl

theorem watched_open_null (h : ¬g.Has [0, 1]) :
    ∃ s' w, watched g (cryptoChrdevOpen minor) s = (.oops s', w) ∧
      w.deeds = [.alloc (g.ptr 0) 4, .alloc (g.ptr 1) 4] := by
  have hsizes : ((s.alloc 4 true).alloc 4 true).sizes = [4, 4] := by simp [Sys.alloc, hs.sizes]
  have hlen0 : s.sizes.length = 0 := by rw [hs.sizes]; rfl
  have hlen1 : (s.alloc 4 true).sizes.length = 1 := by simp [Sys.alloc, hs.sizes]
  unfold watched cryptoChrdevOpen
  rw [observe_then _ _ _ _ _ _ _ _ _ (observe_kzalloc _ _ _ _ _),
    observe_then _ _ _ _ _ _ _ _ _ (observe_kzalloc _ _ _ _ _), hlen0, hlen1]
  by_cases h0 : g.allocs 0 = true
  · have h1 : g.allocs 1 ≠ true := by
      intro h1
      exact h (by simp [Guest.Has, h0, h1])
    have hptr0 : g.ptr 0 = some 0 := if_pos h0
    have hptr1 : g.ptr 1 = none := if_neg h1
    have htype := exec_store g ((s.alloc 4 true).alloc 4 true) 0 (le 4 VIRTIO_CRYPTO_SYSCALL_OPEN)
      (by simp [hsizes])
    rw [hptr0, hptr1, observe_mute_then _ _ _ _ _ _ _ _ (mute_store _ _) htype]
    exact ⟨_, _, observe_mute_oops _ _ _ _ _ _ _ (mute_store _ _) rfl, by simp⟩
  · have hptr0 : g.ptr 0 = none := if_neg h0
    rw [hptr0]
    exact ⟨_, _, observe_mute_oops _ _ _ _ _ _ _ (mute_store _ _) rfl, by simp⟩

-- What a call returns that fails by itself.
def earlyError (g : Guest σ) (minor : Nat) : Int :=
  if g.nonseekable < 0 then g.nonseekable else if g.devs minor = none then -ENODEV else -ENOMEM

-- It does so with both buffers allocated.
theorem watched_open_early (hbuf : g.Has [0, 1])
    (h : g.nonseekable < 0 ∨ g.devs minor = none ∨ g.crofAlloc = false) :
    ∃ s', watched g (cryptoChrdevOpen minor) s = (.done (earlyError g minor) s', Watch.opening s) ∧
      earlyError g minor < 0 ∧ s'.crof = s.crof := by
  unfold earlyError
  have hseek : exec g nonseekableOpen s.opening = .done g.nonseekable s.opening := rfl
  unfold watched cryptoChrdevOpen
  rw [observe_buffers hs _ hbuf, observe_mute_then _ _ _ _ _ _ _ _ mute_nonseekableOpen hseek]
  by_cases hneg : g.nonseekable < 0
  · rw [if_pos hneg, if_pos hneg]
    exact ⟨_, rfl, hneg, rfl⟩
  · rw [if_neg hneg, if_neg hneg]
    cases hdev : g.devs minor with
    | none =>
        have hfind : exec g (getCryptoDevByMinor minor) s.opening =
            .done none { s.opening with locked := false } := by
          have hlock : s.opening.locked = false := hs.locked
          simp only [getCryptoDevByMinor, exec_bind, spinLock, spinUnlock, exec, hlock, hdev,
            Bool.false_eq_true, if_false, exec_pure]
        rw [observe_mute_then _ _ _ _ _ _ _ _ (mute_getCryptoDevByMinor minor) hfind, if_pos rfl]
        exact ⟨_, rfl, by decide, rfl⟩
    | some crdev =>
        have hfind := exec_getCryptoDevByMinor s.opening minor crdev hdev hs.locked
        have hcrof : g.crofAlloc = false :=
          (h.resolve_left hneg).resolve_left (by simp [hdev])
        have hnew : exec g (newCrof ⟨crdev, -1⟩) s.opening = .done false s.opening := by
          simp only [newCrof, exec, hcrof, Bool.false_eq_true, if_false]
        rw [observe_mute_then _ _ _ _ _ _ _ _ (mute_getCryptoDevByMinor minor) hfind]
        dsimp only
        rw [observe_mute_then _ _ _ _ _ _ _ _ (mute_newCrof _) hnew, if_neg (by simp)]
        exact ⟨_, rfl, by simp [ENOMEM], rfl⟩

-- One that reaches the host returns what `nonseekable_open` did.
theorem watched_open_late (crdev : Nat) (hbuf : g.Has [0, 1]) (hseek : 0 ≤ g.nonseekable)
    (hdev : g.devs minor = some crdev) (hcrof : g.crofAlloc = true) :
    ∃ s' w, watched g (cryptoChrdevOpen minor) s = (.done g.nonseekable s', w) ∧
      w.trail = (Watch.opening s).trail ++
        [(.addSgs crdev [⟨0, POINTER_SIZE⟩, ⟨1, POINTER_SIZE⟩] 1 1,
            { s.opening with crof := some ⟨crdev, -1⟩, locked := true }),
          (.kick crdev, { s.opening with crof := some ⟨crdev, -1⟩ }.posted crdev
            [⟨0, POINTER_SIZE⟩, ⟨1, POINTER_SIZE⟩] 1 1),
          (.free (some 0), s'), (.free (some 1), s')] ∧
      s'.crof = some ⟨crdev, (g.host.openDev s.host).1⟩ := by
  obtain ⟨s', hexec, hafter⟩ := exec_open s minor crdev hs hbuf hcrof hseek hdev
  have hfind := exec_getCryptoDevByMinor s.opening minor crdev hdev hs.locked
  have hnew : exec g (newCrof ⟨crdev, -1⟩) s.opening =
      .done true { s.opening with crof := some ⟨crdev, -1⟩ } := by
    simp only [newCrof, exec, hcrof, if_true]
  have hret : exec g nonseekableOpen s.opening = .done g.nonseekable s.opening := rfl
  have hsgs : ∀ (p : Nat) (s' : Sys σ), exec g (sgInitOne (some p) POINTER_SIZE) s' =
      .done ⟨p, POINTER_SIZE⟩ s' := fun p s' => exec_sgInitOne g s' p POINTER_SIZE
  have hsubmit := exec_submit g { s.opening with crof := some ⟨crdev, -1⟩ } crdev
    [⟨0, POINTER_SIZE⟩, ⟨1, POINTER_SIZE⟩] 1 1 hs.locked (hs.avail crdev) (hs.used crdev) (by decide)
  have hobs := observe_submit g (fun _ user => user) (Watch.opening s)
    { s.opening with crof := some ⟨crdev, -1⟩ } crdev [⟨0, POINTER_SIZE⟩, ⟨1, POINTER_SIZE⟩] 1 1 hs.locked
  rw [hsubmit] at hobs
  have hwatched : ∃ w s'', watched g (cryptoChrdevOpen minor) s = (.done g.nonseekable s'', w) ∧
      w.trail = (Watch.opening s).trail ++
        [(.addSgs crdev [⟨0, POINTER_SIZE⟩, ⟨1, POINTER_SIZE⟩] 1 1,
            { s.opening with crof := some ⟨crdev, -1⟩, locked := true }),
          (.kick crdev, { s.opening with crof := some ⟨crdev, -1⟩ }.posted crdev
            [⟨0, POINTER_SIZE⟩, ⟨1, POINTER_SIZE⟩] 1 1),
          (.free (some 0), s''), (.free (some 1), s'')] := by
    unfold watched cryptoChrdevOpen
    rw [observe_buffers hs _ hbuf, observe_mute_then _ _ _ _ _ _ _ _ mute_nonseekableOpen hret,
      if_neg (by omega), observe_mute_then _ _ _ _ _ _ _ _ (mute_getCryptoDevByMinor minor) hfind]
    dsimp only
    rw [observe_mute_then _ _ _ _ _ _ _ _ (mute_newCrof _) hnew, if_pos rfl,
      observe_mute_then _ _ _ _ _ _ _ _ (mute_sgInitOne _ _) (hsgs 0 _),
      observe_mute_then _ _ _ _ _ _ _ _ (mute_sgInitOne _ _) (hsgs 1 _),
      observe_then _ _ _ _ _ _ _ _ _ hobs,
      observe_mute_then _ _ _ _ _ _ _ _ (mute_load _ _ _) (exec_load g _ 1 0 4)]
    exact ⟨_, _, rfl, by simp [Watch.note, List.append_assoc]⟩
  obtain ⟨w, s'', hwatched, htrail⟩ := hwatched
  have hsame := watched_exec g (cryptoChrdevOpen minor) s
  rw [hwatched, hexec] at hsame
  cases hsame
  exact ⟨s', w, hwatched, htrail, hafter.crof⟩

-- The last test is of the pointer and not of the number behind it, and the
-- steps that fail before free nothing: only a call that succeeds is answered
-- as it should be.
theorem open_answers_iff :
    (∃ ret s' w, watched g (cryptoChrdevOpen minor) s = (.done ret s', w) ∧
      OpenAnswers g minor s ret s' w) ↔
    g.nonseekable = 0 ∧ (∃ crdev, g.devs minor = some crdev) ∧ g.Has [0, 1] ∧
      g.crofAlloc = true ∧ 0 ≤ (g.host.openDev s.host).1 := by
  constructor
  · rintro ⟨ret, s', w, hcall, hans⟩
    by_cases hbuf : g.Has [0, 1]
    swap
    · obtain ⟨s1, w1, hoops, -⟩ := watched_open_null minor hs hbuf
      rw [hoops] at hcall
      cases hcall
    by_cases hearly : g.nonseekable < 0 ∨ g.devs minor = none ∨ g.crofAlloc = false
    · obtain ⟨s1, hfail, hneg, -⟩ := watched_open_early minor hs hbuf hearly
      rw [hfail] at hcall
      cases hcall
      have hnothing := (hans.nothing hneg).2
      rw [kept_opening] at hnothing
      cases hnothing
    · push Not at hearly
      obtain ⟨hseek, hdev, hcrof⟩ := hearly
      have hcrof : g.crofAlloc = true := by simpa using hcrof
      obtain ⟨crdev, hdev⟩ := Option.ne_none_iff_exists'.mp hdev
      obtain ⟨s1, w1, hlate, htrail, -⟩ := watched_open_late minor hs crdev hbuf hseek hdev hcrof
      rw [hlate] at hcall
      cases hcall
      by_cases hfd : 0 ≤ (g.host.openDev s.host).1
      · exact ⟨hans.zero.mpr ⟨⟨crdev, hdev⟩, hbuf, hcrof, hfd⟩, ⟨crdev, hdev⟩, hbuf, hcrof, hfd⟩
      · have hnodev := hans.nodev ⟨crdev, by simp [htrail]⟩ (by omega)
        rw [hnodev] at hseek
        exact absurd hseek (by decide)
  · rintro ⟨hseek, ⟨crdev, hdev⟩, hbuf, hcrof, hfd⟩
    obtain ⟨s1, w1, hlate, -, hfile⟩ :=
      watched_open_late minor hs crdev hbuf (Int.le_of_eq hseek.symm) hdev hcrof
    refine ⟨_, s1, w1, hlate, ?_, ?_, ?_, ?_⟩
    · simp only [hseek, true_iff]
      exact ⟨⟨crdev, hdev⟩, hbuf, hcrof, hfd⟩
    · exact fun _ hneg => absurd hneg (by omega)
    · exact fun _ => ⟨crdev, hdev, hfile⟩
    · exact fun hneg => absurd hneg (by omega)

end Opening

section Calls

theorem plainSys_idle (user : Mem Byte) (host : Nat) (crof : Option Crof) :
    (plainSys user host crof).Idle :=
  ⟨rfl, rfl, fun _ => rfl, fun _ => rfl⟩

theorem first_open_answers : ∃ ret s' w,
    watched plainGuest (cryptoChrdevOpen 0) (plainSys (fun _ => 0) 7 none) = (.done ret s', w) ∧
      OpenAnswers plainGuest 0 (plainSys (fun _ => 0) 7 none) ret s' w :=
  (open_answers_iff 0 (plainSys_idle _ 7 none)).mpr
    ⟨rfl, ⟨0, rfl⟩, fun _ _ => rfl, rfl, by decide⟩

-- A host without a free descriptor, and a minor without a device.
theorem failed_opens :
    (∃ s' w, watched plainGuest (cryptoChrdevOpen 0) (plainSys (fun _ => 0) 1024 none) =
      (.done 0 s', w) ∧ s'.crof = some ⟨0, -1⟩) ∧
    (∃ ret s' w, watched plainGuest (cryptoChrdevOpen 40) (plainSys (fun _ => 0) 7 none) =
      (.done ret s', w) ∧ ret < 0 ∧ w.kept = [0, 1]) ∧
    ¬∃ ret s' w, watched plainGuest (cryptoChrdevOpen 0) (plainSys (fun _ => 0) 1024 none) =
      (.done ret s', w) ∧ OpenAnswers plainGuest 0 (plainSys (fun _ => 0) 1024 none) ret s' w := by
  have hbuf : plainGuest.Has [0, 1] := fun _ _ => rfl
  refine ⟨?_, ?_, ?_⟩
  · obtain ⟨s', w, hcall, -, hfile⟩ := watched_open_late (g := plainGuest) 0
      (plainSys_idle (fun _ => 0) 1024 none) 0 hbuf (by decide) rfl rfl
    exact ⟨s', w, hcall, hfile⟩
  · obtain ⟨s', hcall, hneg, -⟩ := watched_open_early (g := plainGuest) 40
      (plainSys_idle (fun _ => 0) 7 none) hbuf (.inr (.inl rfl))
    exact ⟨_, s', _, hcall, hneg, rfl⟩
  · intro h
    obtain ⟨s', w, hcall, -, -⟩ := watched_open_late (g := plainGuest) 0
      (plainSys_idle (fun _ => 0) 1024 none) 0 hbuf (by decide) rfl rfl
    obtain ⟨ret, s1, w1, hcall', hans⟩ := h
    rw [hcall] at hcall'
    cases hcall'
    have hfd := (hans.zero.mp rfl).2.2.2
    exact absurd hfd (by decide)

end Calls

end CryptodevChat.Virtio
