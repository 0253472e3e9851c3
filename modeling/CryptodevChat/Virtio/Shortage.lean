import CryptodevChat.Virtio.Course
import CryptodevChat.Virtio.Status

namespace CryptodevChat.Virtio

open Lib (Byte fromLe Loc Mem Space)

variable {σ : Type} {g : Guest σ}

section Starved

-- An allocation of the call has failed.
def Watch.Starved (w : Watch σ) : Prop := ∃ size, .alloc none size ∈ w.deeds

-- The open file is allocated after its device has been found.
def Starved (g : Guest σ) (w : Watch σ) : Syscall → Prop
  | .openDev minor =>
      w.Starved ∨ (0 ≤ g.nonseekable ∧ (∃ crdev, g.devs minor = some crdev) ∧ g.crofAlloc = false)
  | .ioctl _ _ | .release => w.Starved

-- A call that returns has used no pointer that is NULL: each use of one is an
-- access, a destination of a copy or the object of an entry, which all are an oops.
def Survives (g : Guest σ) (s : Sys σ) (call : Syscall) : Prop :=
  Starved g (watched g call.prog s).2 call →
    match call with
    | .release => ∃ ret s', (watched g call.prog s).1 = .done ret s' ∧ s'.crof = none
    | .openDev _ | .ioctl _ _ =>
        (∃ s', (watched g call.prog s).1 = .done (-ENOMEM) s') ∧ ¬(watched g call.prog s).2.asked

theorem null_eq_ptr (i : Nat) : none = g.ptr i ↔ g.allocs i = false := by
  unfold Guest.ptr
  cases g.allocs i <;> simp

theorem not_has (objects : List Nat) : ¬g.Has objects ↔ ∃ i ∈ objects, g.allocs i = false := by
  simp [Guest.Has]

-- Failures of a program that allocates nothing are those before it.
theorem starved_without {α : Type} (race : Nat → Mem Byte → Mem Byte) (w : Watch σ) (s : Sys σ)
    (x : Prog α) (h : x.All fun d => ∀ size, d ≠ .alloc none size) :
    (observe g race x w s).2.Starved ↔ w.Starved := by
  obtain ⟨l, hl, hall⟩ := observe_all g race w s x h
  unfold Watch.Starved Watch.deeds
  rw [hl, List.map_append]
  constructor
  · rintro ⟨size, hmem⟩
    obtain hmem | hmem := List.mem_append.mp hmem
    · exact ⟨size, hmem⟩
    · obtain ⟨e, he, heq⟩ := List.mem_map.mp hmem
      exact absurd heq (hall e he size)
  · rintro ⟨size, hmem⟩
    exact ⟨size, List.mem_append_left _ hmem⟩

end Starved

section Ioctl

variable {s : Sys σ} {file : Crof} (hs : s.Fresh file) (cmd arg : Nat)

-- An ioctl that returns either finds a copy from its caller to fail, or has asked the device.
theorem conclude_returns (race : Nat → Mem Byte → Mem Byte) (w : Watch σ) (c : Common) (o : Objects)
    (r : Option (List Sg × List Sg)) (ret : Int) (s' : Sys σ)
    (h : (observe g race (conclude cmd arg (c, o, r)) w s).1 = .done ret s') :
    ret = -EFAULT ∨ (observe g race (conclude cmd arg (c, o, r)) w s).2.asked := by
  cases r with
  | none =>
      cases h
      exact .inl rfl
  | some r =>
      obtain ⟨outSgs, inSgs⟩ := r
      right
      rw [conclude] at h ⊢
      cases hptr : c.hostReturnVal with
      | none =>
          rw [hptr, observe_mute_oops _ _ _ _ _ _ s (mute_sgInitOne _ _) rfl] at h
          cases h
      | some block =>
          rw [hptr] at h
          rw [observe_mute_then _ _ _ _ _ _ _ _ (mute_sgInitOne _ _) (exec_sgInitOne g s block 4)] at h ⊢
          by_cases hlock : s.locked = true
          · have hhang : ∀ v sgs numOut numIn, observe g race (submit v sgs numOut numIn) w s =
                (.hangs s, w) := by
              intro v sgs numOut numIn
              simp only [submit, observe_bind, spinLock, observe, hlock, if_true]
            rw [observe_bind, hhang] at h
            cases h
          · have hsubmit := observe_submit g race w s c.crdev (c.sgs ++ outSgs ++ inSgs ++ [⟨block, 4⟩])
              (c.sgs.length + outSgs.length) (inSgs.length + 1) (by simpa using hlock)
            have hgrows := observe_bind_grows g race w s (submit c.crdev
              (c.sgs ++ outSgs ++ inSgs ++ [⟨block, 4⟩]) (c.sgs.length + outSgs.length) (inSgs.length + 1))
              (fun _ => reply cmd arg c o)
            rw [hsubmit] at hgrows
            refine ⟨c.crdev, (hgrows.map Prod.fst).subset ?_⟩
            simp [Watch.note]

include hs

-- What an ioctl needs of the allocator. It gets to the last objects when it can
-- load a length, whatever its command.
theorem ioctl_survives_iff :
    Survives g s (.ioctl cmd arg) ↔
      g.Has [0, 1, 2, 3, 4] ∧
        (g.space.copyFrom s.user (arg + LEN_OFF) 4 ≠ none → g.Has [5, 6, 7, 8, 9, 10]) := by
  unfold Survives Starved
  dsimp only [Syscall.prog]
  by_cases hallocs : g.Has [0, 1, 2]
  swap
  · obtain ⟨s', w, before, hcall, hdeeds⟩ := watched_ioctl_null hs cmd arg hallocs
    rw [hcall]
    refine iff_of_false (fun h => ?_) fun h => hallocs ?_
    · obtain ⟨⟨s1, hdone⟩, -⟩ := h ⟨4, by simp [hdeeds]⟩
      cases hdone
    · exact fun i hi => h.1 i (by simp at hi ⊢; omega)
  have hthree : g.Has [0, 1, 2, 3, 4] ↔ g.allocs 3 = true ∧ g.allocs 4 = true := by
    simp only [Guest.Has, List.forall_mem_cons] at hallocs ⊢
    simp [hallocs]
  cases hlen : g.space.copyFrom s.user (arg + LEN_OFF) 4 with
  | none =>
      obtain ⟨s', w, hcall, hdeeds⟩ := watched_ioctl_unread hs cmd arg hallocs hlen
      have hstarved : w.Starved ↔ g.allocs 3 = false ∨ g.allocs 4 = false := by
        simp [Watch.Starved, hdeeds, commonDeeds, null_eq_ptr, exists_or]
      rw [hcall, hthree, hstarved]
      simp
  | some data =>
      obtain ⟨w, hdeeds, hcall⟩ := watched_ioctl_ready hs cmd arg data hallocs hlen
      have hstarved : w.Starved ↔ ¬(g.Has [0, 1, 2, 3, 4] ∧ g.Has [5, 6, 7, 8, 9, 10]) := by
        rw [hthree, not_and_or, not_and_or, not_has]
        simp [Watch.Starved, hdeeds, commonDeeds, objectDeeds, null_eq_ptr, exists_or, or_assoc]
      have hsame := starved_without (g := g) (fun _ user => user) w (s.prepared file cmd (ioctlSizes (fromLe data)))
        (do
          let r ← cmdSgs cmd arg g.objects
          conclude cmd arg (file.found g, g.objects, r))
        ((cmdSgs_all (by simp) (by simp) cmd arg _).bind fun r =>
          conclude_all (by simp) (by simp) (by simp) (by simp) cmd arg _ _ (by simp) r)
      rw [hcall, hsame, hstarved]
      refine ⟨fun h => ?_, fun h hnot => absurd ⟨h.1, h.2 (by simp)⟩ hnot⟩
      by_contra hsupplied
      obtain ⟨⟨s', hdone⟩, hasked⟩ := h (by simpa using hsupplied)
      rw [observe_bind] at hdone hasked
      generalize observe g (fun _ user => user) (cmdSgs cmd arg g.objects) w
        (s.prepared file cmd (ioctlSizes (fromLe data))) = out at hdone hasked
      obtain ⟨out, w1⟩ := out
      cases out with
      | oops s3 | hangs s3 => cases hdone
      | done r s3 =>
          obtain hret | hask := conclude_returns cmd arg _ w1 _ _ r _ s' hdone
          · exact absurd hret (by decide)
          · exact hasked hask

end Ioctl

section Files

variable {s : Sys σ} (hs : s.Idle)
include hs

theorem open_survives_iff (minor : Nat) : Survives g s (.openDev minor) ↔ g.Has [0, 1] := by
  unfold Survives Starved
  dsimp only [Syscall.prog]
  by_cases hbuf : g.Has [0, 1]
  · refine iff_of_true (fun h => ?_) hbuf
    have hptr : g.ptr 0 = some 0 ∧ g.ptr 1 = some 1 := ⟨hbuf.ptr 0 (by simp), hbuf.ptr 1 (by simp)⟩
    by_cases hearly : g.nonseekable < 0 ∨ g.devs minor = none ∨ g.crofAlloc = false
    · obtain ⟨s', hcall, -, -⟩ := watched_open_early minor hs hbuf hearly
      rw [hcall] at h ⊢
      obtain h | ⟨hseek, ⟨crdev, hdev⟩, -⟩ := h
      · simp [Watch.Starved, Watch.deeds, Watch.opening] at h
      · have hret : earlyError g minor = -ENOMEM := by
          rw [earlyError, if_neg (by omega), if_neg (by simp [hdev])]
        exact ⟨⟨s', by rw [hret]⟩, by simp [Watch.asked, Watch.opening]⟩
    · push Not at hearly
      obtain ⟨hseek, hdev, hcrof⟩ := hearly
      obtain ⟨crdev, hdev⟩ := Option.ne_none_iff_exists'.mp hdev
      have hcrof : g.crofAlloc = true := by simpa using hcrof
      obtain ⟨s', w, hcall, htrail, -⟩ := watched_open_late minor hs crdev hbuf hseek hdev hcrof
      rw [hcall] at h
      simp [Watch.Starved, Watch.deeds, htrail, Watch.opening, hcrof] at h
  · obtain ⟨s', w, hcall, hdeeds⟩ := watched_open_null minor hs hbuf
    refine iff_of_false (fun h => ?_) hbuf
    rw [hcall] at h
    have hstarved : w.Starved := by
      obtain ⟨i, hi, hfail⟩ := (not_has _).mp hbuf
      simp only [List.mem_cons, List.not_mem_nil, or_false] at hi
      refine ⟨4, ?_⟩
      obtain rfl | rfl := hi <;> simp [hdeeds, (null_eq_ptr _).mpr hfail]
    obtain ⟨⟨s1, hdone⟩, -⟩ := h (.inl hstarved)
    cases hdone

theorem release_survives_iff {file : Crof} (hcrof : s.crof = some file) :
    Survives g s .release ↔ g.Has [0, 1] := by
  unfold Survives Starved
  dsimp only [Syscall.prog]
  by_cases hbuf : g.Has [0, 1]
  · obtain ⟨s', w, hcall, -, hfree⟩ := watched_release hs hcrof hbuf
    rw [hcall]
    exact iff_of_true (fun _ => ⟨0, s', rfl, hfree⟩) hbuf
  · obtain ⟨s', w, hcall, hdeeds⟩ := watched_release_null hs hcrof hbuf
    rw [hcall]
    refine iff_of_false (fun h => ?_) hbuf
    have hstarved : w.Starved := ⟨4, by obtain hdeeds | hdeeds := hdeeds <;> simp [hdeeds]⟩
    obtain ⟨ret, s1, hdone, -⟩ := h hstarved
    cases hdone

-- The allocations that a call makes succeed, up to the one of the open file,
-- which is the only one that is tested.
def Supplied (g : Guest σ) (s : Sys σ) : Syscall → Prop
  | .openDev _ | .release => g.Has [0, 1]
  | .ioctl _ arg => g.Has [0, 1, 2, 3, 4] ∧
      (g.space.copyFrom s.user (arg + LEN_OFF) 4 ≠ none → g.Has [5, 6, 7, 8, 9, 10])

theorem survives_iff (hhistory : s.history = []) (call : Syscall) (hmade : call.Made s) :
    Survives g s call ↔ Supplied g s call := by
  cases call with
  | openDev minor => exact open_survives_iff hs minor
  | release =>
      obtain ⟨file, hcrof⟩ := hmade
      exact release_survives_iff hs hcrof
  | ioctl cmd arg =>
      obtain ⟨-, file, hcrof⟩ := hmade
      exact ioctl_survives_iff (hs.fresh hhistory hcrof) cmd arg

end Files

section Calls

theorem refused_crof_survives :
    Survives { plainGuest with crofAlloc := false } (plainSys (fun _ => 0) 7 none) (.openDev 0) :=
  (survives_iff (plainSys_idle _ 7 none) rfl (.openDev 0) trivial).mpr fun _ _ => rfl

-- A kernel without memory at all, and one that finds none for a key of 16 bytes.
theorem starved_calls :
    ¬Survives { plainGuest with allocs := fun _ => false } (plainSys (fun _ => 0) 7 none) (.openDev 0) ∧
    ¬Survives { plainGuest with allocs := fun _ => false } (plainCall fun _ => 0) .release ∧
    ¬Survives { plainGuest with allocs := fun i => i ≠ 5 } (plainCall (sessionUser 0))
      (.ioctl CIOCGSESSION 0x1000) := by
  refine ⟨fun h => ?_, fun h => ?_, fun h => ?_⟩
  · have hbuf := (open_survives_iff (plainSys_idle (fun _ => 0) 7 none) 0).mp h
    exact Bool.false_ne_true (hbuf 0 (by simp))
  · have hbuf := (release_survives_iff (plainSys_idle (fun _ => 0) 7 _) rfl).mp h
    exact Bool.false_ne_true (hbuf 0 (by simp))
  · have hrest := ((ioctl_survives_iff (plainCall_fresh _) _ _).mp h).2 (Option.some_ne_none _)
    exact absurd (hrest 5 (by simp)) (by decide)

end Calls

end CryptodevChat.Virtio
