import CryptodevChat.Virtio.Course
import CryptodevChat.Virtio.Status

namespace CryptodevChat.Virtio

open Lib (Byte fromLe Loc Mem Space)

variable {σ : Type} {g : Guest σ}

section Fits

-- Each entry of a request is a part of an object of its own, and all that the
-- backend and the host use for the request is inside of the entries.
def Deed.Fits (g : Guest σ) (s : Sys σ) : Deed → Prop
  | .addSgs _ sgs numOut numIn =>
      (∀ sg ∈ sgs, sg.len ≤ s.sizes.getD sg.block 0) ∧ (sgs.map (·.block)).Nodup ∧
      ∀ e ∈ ((handleElem g.host g.qemu (toElement sgs numOut numIn)).run ⟨s.mem, s.host, []⟩).2.log,
        e.Inside (toElement sgs numOut numIn)
  | _ => True

def Watch.Fits (g : Guest σ) (w : Watch σ) : Prop := ∀ e ∈ w.trail, e.1.Fits g e.2

def Deed.Unlisted : Deed → Prop
  | .addSgs _ _ _ _ => False
  | _ => True

theorem Deed.Unlisted.fits {d : Deed} (h : d.Unlisted) (s : Sys σ) : d.Fits g s := by
  cases d with
  | addSgs => exact h.elim
  | alloc | free | fetch | copyIn | copyOut | kick => trivial

theorem fits_unlisted (w : Watch σ) (h : ∀ d ∈ w.deeds, d.Unlisted) : w.Fits g := by
  intro e he
  exact (h _ (List.mem_map_of_mem he)).fits e.2

-- Without a request there is nothing to fit.
theorem fits_quiet {α : Type} (race : Nat → Mem Byte → Mem Byte) (w : Watch σ) (s : Sys σ)
    (x : Prog α) (h : x.All Deed.Unlisted) (hw : w.Fits g) : (observe g race x w s).2.Fits g := by
  obtain ⟨l, hl, hall⟩ := observe_all g race w s x h
  intro e he
  rw [hl] at he
  rcases List.mem_append.mp he with he | he
  · exact hw e he
  · exact (hall e he).fits e.2

theorem entries_bind {α β : Type} (race : Nat → Mem Byte → Mem Byte) (w : Watch σ) (s : Sys σ)
    (x : Prog α) (f : α → Prog β) (hx : (observe g race x w s).2.Fits g)
    (hf : ∀ a s' w', observe g race x w s = (.done a s', w') → w'.Fits g →
      (observe g race (f a) w' s').2.Fits g) :
    (observe g race (x >>= f) w s).2.Fits g := by
  rw [observe_bind]
  generalize observe g race x w s = r at hx hf ⊢
  obtain ⟨out, w'⟩ := r
  cases out with
  | done a s' => exact hf a s' w' rfl hx
  | oops s' | hangs s' => exact hx

theorem fits_note (w : Watch σ) (d : Deed) (s : Sys σ) :
    (w.note d s).Fits g ↔ w.Fits g ∧ d.Fits g s := by
  simp [Watch.Fits, Watch.note, or_imp, forall_and]

theorem inside_iff_layout (h : Host σ) (q : Qemu) (elem : VirtQueueElement) (m : Mem Byte) (x : σ) :
    (∀ e ∈ ((handleElem h q elem).run ⟨m, x, []⟩).2.log, e.Inside elem) ↔ elem.Layout m := by
  obtain ⟨events, hlog, hiff⟩ := handleElem_inside_iff h q elem ⟨m, x, []⟩
  rw [hlog]
  exact hiff

end Fits

section Lists

variable {s : Sys σ} {file : Crof} (cmd arg : Nat) (data : List Byte)

-- A request with its lists: what the device gets of the objects of the call.
structure Listed (s : Sys σ) (len : Nat) (r : List Sg × List Sg) (s3 : Sys σ) : Prop where
  state : ∃ m3, s3 = { s with mem := m3, sizes := ioctlSizes len }
  room : r.1.length + r.2.length ≤ 8
  sizes : ∀ sg ∈ commonSgs ++ r.1 ++ r.2 ++ [(⟨3, 4⟩ : Sg)],
    sg.len ≤ (ioctlSizes len).getD sg.block 0
  apart : ((commonSgs ++ r.1 ++ r.2 ++ [(⟨3, 4⟩ : Sg)]).map Sg.block).Nodup
  layout : (ioctlElement r.1 r.2).Layout s3.mem

-- Whatever the command, its lists are made of whole objects.
theorem cmdSgs_listed (hcmd : cmd < 2 ^ 32)
    (hlen : g.space.copyFrom s.user (arg + LEN_OFF) 4 = some data) (r : List Sg × List Sg) (s3 : Sys σ)
    (h : exec g (cmdSgs cmd arg g.objects) (s.prepared file cmd (ioctlSizes (fromLe data))) =
      .done (some r) s3) : Listed s (fromLe data) r s3 := by
  have hfield : ∀ size bytes, LEN_OFF + 4 ≤ size → g.space.copyFrom s.user arg size = some bytes →
      fromLe data = field bytes LEN_OFF 4 := by
    intro size bytes hsize hop
    have hslice := Space.copyFrom_slice _ _ _ _ LEN_OFF 4 _ hop hsize
    rw [hlen, Option.some.injEq] at hslice
    rw [hslice]
    rfl
  by_cases hknown : Known cmd
  swap
  · rw [cmdSgs_unknown cmd arg _ hknown] at h
    cases h
    exact ⟨⟨_, rfl⟩, by simp, unknown_lists _ _ _, by decide,
      unknown_layout s.mem file.hostFd cmd hcmd hknown⟩
  obtain rfl | rfl | rfl := hknown
  · obtain ⟨hobjects, bytes, key, hreads⟩ := cmdSgs_gsession_has _ arg r s3 h
    have hptr : g.objects.sessionOp = some 4 ∧ g.objects.sessionKey = some 5 :=
      ⟨hobjects.ptr 4 (by simp), hobjects.ptr 5 (by simp)⟩
    have hkeylen : fromLe data = (SessionOp.parse bytes).keylen :=
      hfield _ _ (by decide) hreads.op
    rw [exec_cmdSgs_gsession _ arg g.objects bytes key hptr hreads (by rw [hkeylen]; rfl)] at h
    cases h
    refine ⟨⟨_, rfl⟩, by simp, ?_, by simp [commonSgs],
      session_layout s.mem file.hostFd bytes key (Space.copyFrom_length _ _ _ _ _ hreads.op)⟩
    rw [hkeylen]
    exact (session_lists _ _ _ _).mpr le_rfl
  · obtain ⟨hobjects, ses, hreads⟩ := cmdSgs_fsession_has _ arg r s3 h
    rw [exec_cmdSgs_fsession _ arg g.objects ses (hobjects.ptr 6 (by simp)) _ hreads rfl] at h
    cases h
    exact ⟨⟨_, rfl⟩, by simp, fsession_lists _ _ _, by decide,
      fsession_layout s.mem file.hostFd ses⟩
  · obtain ⟨hobjects, bytes, src, iv, hreads⟩ := cmdSgs_crypt_has _ arg r s3 h
    have hptr : g.objects.cryptOp = some 7 ∧ g.objects.src = some 8 ∧ g.objects.iv = some 9 ∧
        g.objects.dst = some 10 :=
      ⟨hobjects.ptr 7 (by simp), hobjects.ptr 8 (by simp), hobjects.ptr 9 (by simp),
        hobjects.ptr 10 (by simp)⟩
    have hoplen : fromLe data = (CryptOp.parse bytes).len := hfield _ _ (by decide) hreads.op
    rw [exec_cmdSgs_crypt _ arg g.objects bytes src iv hptr hreads (by rw [hoplen]; rfl)] at h
    cases h
    refine ⟨⟨_, rfl⟩, by simp, ?_, by simp [commonSgs],
      crypt_layout s.mem file.hostFd bytes src iv (Space.copyFrom_length _ _ _ _ _ hreads.op)⟩
    rw [hoplen]
    exact (crypt_lists _ _ _ _).mpr ⟨le_rfl, le_rfl⟩

-- What is listed is given to the device as it is.
theorem conclude_fits (hs : s.Fresh file) (w : Watch σ) (hw : w.Fits g) (r : List Sg × List Sg)
    (s3 : Sys σ) {len : Nat} (h : Listed s len r s3) :
    (observe g (fun _ user => user) (conclude cmd arg (file.found g, g.objects, some r)) w s3).2.Fits g := by
  obtain ⟨outSgs, inSgs⟩ := r
  obtain ⟨m3, hs3⟩ := h.state
  have hlock : s3.locked = false := by rw [hs3]; exact hs.locked
  by_cases h3 : g.allocs 3 = true
  swap
  · have hnull : (file.found g).hostReturnVal = none := if_neg h3
    rw [conclude, observe_mute_oops _ _ _ _ _ _ s3 (mute_sgInitOne _ _) (by rw [hnull]; rfl)]
    exact hw
  have hptr : (file.found g).hostReturnVal = some 3 := if_pos h3
  have hsg : exec g (sgInitOne (file.found g).hostReturnVal 4) s3 = .done ⟨3, 4⟩ s3 := by
    rw [hptr]
    rfl
  have hsubmit := observe_submit g (fun _ user => user) w s3 file.crdev
    (commonSgs ++ outSgs ++ inSgs ++ [⟨3, 4⟩]) (commonSgs.length + outSgs.length) (inSgs.length + 1) hlock
  have hfits : (observe g (fun _ user => user) (submit file.crdev
      (commonSgs ++ outSgs ++ inSgs ++ [⟨3, 4⟩]) (commonSgs.length + outSgs.length)
      (inSgs.length + 1)) w s3).2.Fits g := by
    rw [hsubmit, fits_note, fits_note]
    refine ⟨⟨hw, ?_, h.apart, ?_⟩, trivial⟩
    · rw [hs3]
      exact h.sizes
    · exact (inside_iff_layout g.host g.qemu (ioctlElement outSgs inSgs) s3.mem s3.host).mpr h.layout
  rw [conclude, observe_mute_then _ _ _ _ _ _ _ _ (mute_sgInitOne _ _) hsg]
  exact entries_bind _ w s3 _ _ hfits fun _ s' w1 _ hw1 => fits_quiet _ w1 s' _
    (reply_all cmd arg (fun _ _ _ => trivial) (fun _ _ => trivial) _ _ fun _ _ => trivial) hw1

-- The request of an ioctl asks the device for its own lists.
theorem ioctl_entries_fit (hs : s.Fresh file) (hcmd : cmd < 2 ^ 32) :
    (watched g (cryptoChrdevIoctl cmd arg) s).2.Fits g := by
  have hstart : (Watch.start : Watch σ).Fits g := fits_unlisted _ (by simp)
  by_cases hallocs : g.Has [0, 1, 2]
  swap
  · obtain ⟨s', w, -, hobs, -⟩ := observe_allocCommon_null (g := g) (fun _ user => user) s hs cmd hallocs
    have hquiet := fits_quiet (fun _ user => user) .start s (allocCommon cmd)
      (allocCommon_all (fun _ _ => trivial) cmd) hstart
    rw [hobs] at hquiet
    unfold watched
    rw [ioctl_stages, observe_stop _ _ _ _ _ _ _ _ hobs]
    exact hquiet
  cases hlen : g.space.copyFrom s.user (arg + LEN_OFF) 4 with
  | none =>
      obtain ⟨s', w, hcall, hdeeds⟩ := watched_ioctl_unread hs cmd arg hallocs hlen
      rw [hcall]
      exact fits_unlisted w (by simp [hdeeds, commonDeeds, Deed.Unlisted])
  | some data =>
      obtain ⟨w, hdeeds, hcall⟩ := watched_ioctl_ready hs cmd arg data hallocs hlen
      have hw : w.Fits g :=
        fits_unlisted w (by simp [hdeeds, commonDeeds, objectDeeds, Deed.Unlisted])
      rw [hcall]
      refine entries_bind _ w _ (cmdSgs cmd arg g.objects) _ ?_ ?_
      · exact fits_quiet _ w _ _ (cmdSgs_all (fun _ _ _ => trivial) (fun _ _ => trivial) cmd arg _) hw
      · intro r s3 w1 hlists hw1
        have hexec := observe_exec g (cmdSgs cmd arg g.objects) w
          (s.prepared file cmd (ioctlSizes (fromLe data)))
        rw [hlists] at hexec
        cases r with
        | none => exact hw1
        | some r =>
            have hlisted := cmdSgs_listed cmd arg data hcmd hlen r s3 hexec.symm
            exact conclude_fits cmd arg hs w1 hw1 r s3 hlisted

end Lists

section Calls

variable {s : Sys σ}

-- Calls that get to their request, where the length of an entry is the one of
-- the variable that points to the object.
def PointerSized (g : Guest σ) : Syscall → Prop
  | .openDev minor =>
      g.Has [0, 1] ∧ 0 ≤ g.nonseekable ∧ (∃ crdev, g.devs minor = some crdev) ∧ g.crofAlloc = true
  | .ioctl _ _ => False
  | .release => g.Has [0, 1]

-- An entry that is longer than its object shows.
theorem not_fits (w : Watch σ) (v : Nat) (sgs : List Sg) (numOut numIn : Nat) (s' : Sys σ)
    (hmem : (.addSgs v sgs numOut numIn, s') ∈ w.trail) (hsizes : s'.sizes = [4, 4])
    (hlong : ⟨0, POINTER_SIZE⟩ ∈ sgs) : ¬w.Fits g := by
  intro h
  have hlen := (h _ hmem).1 _ hlong
  rw [hsizes] at hlen
  exact absurd hlen (by decide)

variable (hs : s.Idle)
include hs

theorem open_fits_iff (minor : Nat) :
    (watched g (cryptoChrdevOpen minor) s).2.Fits g ↔ ¬PointerSized g (.openDev minor) := by
  by_cases hbuf : g.Has [0, 1]
  swap
  · obtain ⟨s', w, hcall, hdeeds⟩ := watched_open_null minor hs hbuf
    rw [hcall]
    exact iff_of_true (fits_unlisted w (by simp [hdeeds, Deed.Unlisted])) fun h => hbuf h.1
  by_cases hearly : g.nonseekable < 0 ∨ g.devs minor = none ∨ g.crofAlloc = false
  · obtain ⟨s', hcall, -⟩ := watched_open_early minor hs hbuf hearly
    rw [hcall]
    refine iff_of_true (fits_unlisted _ (by simp [Watch.opening, Watch.deeds, Deed.Unlisted])) ?_
    rintro ⟨-, hseek, ⟨crdev, hdev⟩, hcrof⟩
    simp only [hdev, hcrof, reduceCtorEq, or_false] at hearly
    omega
  · push Not at hearly
    obtain ⟨hseek, hdev, hcrof⟩ := hearly
    have hcrof : g.crofAlloc = true := by simpa using hcrof
    obtain ⟨crdev, hdev⟩ := Option.ne_none_iff_exists'.mp hdev
    obtain ⟨s', w, hcall, htrail, -⟩ := watched_open_late minor hs crdev hbuf hseek hdev hcrof
    rw [hcall]
    have hlong : ¬w.Fits g := not_fits w _ _ _ _ _
      (by rw [htrail]; exact List.mem_append_right _ List.mem_cons_self) rfl List.mem_cons_self
    exact iff_of_false hlong fun h => h ⟨hbuf, hseek, ⟨crdev, hdev⟩, hcrof⟩

theorem release_fits_iff {file : Crof} (hcrof : s.crof = some file) :
    (watched g cryptoChrdevRelease s).2.Fits g ↔ ¬PointerSized g .release := by
  by_cases hbuf : g.Has [0, 1]
  · obtain ⟨s', w, hcall, htrail, -⟩ := watched_release hs hcrof hbuf
    rw [hcall]
    have hlong : ¬w.Fits g := not_fits w _ _ _ _ _
      (by rw [htrail]; exact List.mem_append_right _ List.mem_cons_self) rfl List.mem_cons_self
    exact iff_of_false hlong fun h => h hbuf
  · obtain ⟨s', w, hcall, hdeeds⟩ := watched_release_null hs hcrof hbuf
    rw [hcall]
    refine iff_of_true (fits_unlisted w ?_) hbuf
    obtain hdeeds | hdeeds := hdeeds <;> simp [hdeeds, Deed.Unlisted]

-- Every ioctl is right about its entries, and no other call is that has a request.
theorem entries_fit_iff (hhistory : s.history = []) (call : Syscall) (hmade : call.Made s) :
    (watched g call.prog s).2.Fits g ↔ ¬PointerSized g call := by
  cases call with
  | openDev minor => exact open_fits_iff hs minor
  | release =>
      obtain ⟨file, hcrof⟩ := hmade
      exact release_fits_iff hs hcrof
  | ioctl cmd arg =>
      obtain ⟨hcmd, file, hcrof⟩ := hmade
      exact iff_of_true (ioctl_entries_fit cmd arg (hs.fresh hhistory hcrof) hcmd) not_false

end Calls

section Objects

theorem session_entries_fit :
    (watched plainGuest (Syscall.ioctl CIOCGSESSION 0x1000).prog (plainCall fun _ => 0)).2.Fits plainGuest :=
  (entries_fit_iff (plainSys_idle _ 7 _) rfl (.ioctl CIOCGSESSION 0x1000)
    ⟨by decide, ⟨0, 3⟩, rfl⟩).mpr not_false

-- Eight bytes are asked of objects that have four.
theorem short_objects :
    ¬(watched plainGuest (Syscall.openDev 0).prog (plainSys (fun _ => 0) 7 none)).2.Fits plainGuest ∧
    ¬(watched plainGuest Syscall.release.prog (plainCall fun _ => 0)).2.Fits plainGuest := by
  have hbuf : plainGuest.Has [0, 1] := fun _ _ => rfl
  constructor
  · intro h
    exact (open_fits_iff (plainSys_idle _ 7 none) 0).mp h ⟨hbuf, by decide, ⟨0, rfl⟩, rfl⟩
  · intro h
    exact (release_fits_iff (plainSys_idle _ 7 _) rfl).mp h hbuf

end Objects

end CryptodevChat.Virtio
