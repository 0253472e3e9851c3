import CryptodevChat.Virtio.Tasks

namespace CryptodevChat.Virtio

open Lib (Byte Loc Mem Run)

-- How far a task is with its request.
inductive Phase
  | idle
  | locked
  | added (v : Nat) (elem : VirtQueueElement)
  | kicked (v : Nat) (elem : VirtQueueElement)
  | taken
  | done

def Phase.Free (ph : Phase) : Prop := ph = .idle ∨ ph = .done

-- What is left of a call keeps to the order lock, add, kick, get, unlock. It
-- changes its objects only before, and does nothing else in between.
def Prog.Fits {α : Type} (post : α → Phase → Prop) : Prog α → Phase → Prop
  | .ret a, ph => post a ph
  | .oops, ph => ph.Free
  | .kmalloc _ _ next, ph => ph = .idle ∧ ∀ p, (next p).Fits post ph
  | .kfree _ next, ph => ph.Free ∧ next.Fits post ph
  | .put _ _ _ next, ph => ph = .idle ∧ next.Fits post ph
  | .get _ _ _ next, ph => ph.Free ∧ ∀ data, (next data).Fits post ph
  | .loadUser _ _ next, ph => ph.Free ∧ ∀ data, (next data).Fits post ph
  | .copyFromUser _ _ _ next, ph => ph = .idle ∧ ∀ ok, (next ok).Fits post ph
  | .copyToUser _ _ _ next, ph => ph.Free ∧ ∀ ok, (next ok).Fits post ph
  | .nonseekableOpen next, ph => ph.Free ∧ ∀ ret, (next ret).Fits post ph
  | .findDev _ next, ph => ph = .locked ∧ ∀ crdev, (next crdev).Fits post ph
  | .newCrof _ next, ph => ph.Free ∧ ∀ ok, (next ok).Fits post ph
  | .getCrof next, ph => ph.Free ∧ ∀ crof, (next crof).Fits post ph
  | .setHostFd _ next, ph => ph.Free ∧ next.Fits post ph
  | .freeCrof next, ph => ph.Free ∧ next.Fits post ph
  | .spinLock next, ph => ph = .idle ∧ next.Fits post .locked
  | .spinUnlock next, ph =>
      (ph = .locked ∧ next.Fits post .idle) ∨ (ph = .taken ∧ next.Fits post .done)
  | .addSgs v sgs numOut numIn next, ph =>
      ph = .locked ∧ numOut + numIn ≤ 8 ∧ next.Fits post (.added v (toElement sgs numOut numIn))
  | .kick v next, ph => ∃ elem, ph = .added v elem ∧ next.Fits post (.kicked v elem)
  | .getBuf v next, ph => ∃ elem, ph = .kicked v elem ∧ next.Fits post .taken

theorem fits_bind {α β : Type} (post : β → Phase → Prop) (x : Prog α) (f : α → Prog β) (ph : Phase) :
    (x >>= f).Fits post ph ↔ x.Fits (fun a ph => (f a).Fits post ph) ph := by
  change (x.bind f).Fits post ph ↔ _
  induction x generalizing ph with
  | ret a => rfl
  | oops => rfl
  | kmalloc _ _ _ ih | copyFromUser _ _ _ _ ih | findDev _ _ ih | get _ _ _ _ ih
  | loadUser _ _ _ ih | copyToUser _ _ _ _ ih | nonseekableOpen _ ih | newCrof _ _ ih
  | getCrof _ ih => exact and_congr_right' (forall_congr' fun a => ih a _)
  | put _ _ _ _ ih | kfree _ _ ih | setHostFd _ _ ih | freeCrof _ ih | spinLock _ ih =>
      exact and_congr_right' (ih _)
  | spinUnlock _ ih => exact or_congr (and_congr_right' (ih _)) (and_congr_right' (ih _))
  | addSgs _ _ _ _ _ ih => exact and_congr_right' (and_congr_right' (ih _))
  | kick _ _ ih | getBuf _ _ ih => exact exists_congr fun elem => and_congr_right' (ih _)

section Services

variable {α : Type} {post : α → Phase → Prop} {ph : Phase}

theorem Phase.idle_free : Phase.idle.Free := .inl rfl
theorem Phase.done_free : Phase.done.Free := .inr rfl

theorem fits_then {β : Type} {post : β → Phase → Prop} {x : Prog α} {f : α → Prog β}
    (h : x.Fits (fun a ph => (f a).Fits post ph) ph) : (x >>= f).Fits post ph :=
  (fits_bind post x f ph).mpr h

variable {post : Unit → Phase → Prop}

theorem fits_kfree (hph : ph.Free) (p : Ptr) (h : post () ph) : (kfree p).Fits post ph := ⟨hph, h⟩
theorem fits_setHostFd (hph : ph.Free) (fd : Int) (h : post () ph) : (setHostFd fd).Fits post ph :=
  ⟨hph, h⟩
theorem fits_freeCrof (hph : ph.Free) (h : post () ph) : freeCrof.Fits post ph := ⟨hph, h⟩

theorem fits_store (p : Ptr) (data : List Byte) (h : post () .idle) :
    (store p data).Fits post .idle := by
  cases p with
  | none => exact Phase.idle_free
  | some block => exact ⟨rfl, h⟩

theorem fits_submit (v : Nat) (sgs : List Sg) (numOut numIn : Nat) (hroom : numOut + numIn ≤ 8)
    (h : post () .done) : (submit v sgs numOut numIn).Fits post .idle :=
  ⟨rfl, rfl, hroom, _, rfl, _, rfl, .inr ⟨rfl, h⟩⟩

theorem fits_kzalloc {post : Ptr → Phase → Prop} (size : Nat) (h : ∀ p, post p .idle) :
    (kzalloc size).Fits post .idle := ⟨rfl, h⟩
theorem fits_kmalloc {post : Ptr → Phase → Prop} (size : Nat) (h : ∀ p, post p .idle) :
    (kmalloc size).Fits post .idle := ⟨rfl, h⟩
theorem fits_getCrof {post : Crof → Phase → Prop} (h : ∀ crof, post crof .idle) :
    getCrof.Fits post .idle := ⟨Phase.idle_free, h⟩
theorem fits_newCrof {post : Bool → Phase → Prop} (crof : Crof) (h : ∀ ok, post ok .idle) :
    (newCrof crof).Fits post .idle := ⟨Phase.idle_free, h⟩
theorem fits_nonseekableOpen {post : Int → Phase → Prop} (h : ∀ ret, post ret .idle) :
    nonseekableOpen.Fits post .idle := ⟨Phase.idle_free, h⟩
theorem fits_loadUser {post : Nat → Phase → Prop} (hph : ph.Free) (addr n : Nat)
    (h : ∀ x, post x ph) : (loadUser addr n).Fits post ph := ⟨hph, fun _ => h _⟩
theorem fits_getCryptoDevByMinor {post : Option Nat → Phase → Prop} (minor : Nat)
    (h : ∀ crdev, post crdev .idle) : (getCryptoDevByMinor minor).Fits post .idle :=
  ⟨rfl, rfl, fun crdev => .inl ⟨rfl, h crdev⟩⟩

theorem fits_sgInitOne {post : Sg → Phase → Prop} (hph : ph.Free) (p : Ptr) (len : Nat)
    (h : ∀ sg, post sg ph) : (sgInitOne p len).Fits post ph := by
  cases p with
  | none => exact hph
  | some block => exact h _

theorem fits_load {post : List Byte → Phase → Prop} (hph : ph.Free) (p : Ptr) (off n : Nat)
    (h : ∀ data, post data ph) : (load p off n).Fits post ph := by
  cases p with
  | none => exact hph
  | some block => exact ⟨hph, h⟩

theorem fits_copyFromUser {post : Bool → Phase → Prop} (p : Ptr) (addr n : Nat)
    (h : ∀ ok, post ok .idle) : (copyFromUser p addr n).Fits post .idle := by
  cases p with
  | none => exact Phase.idle_free
  | some block => exact ⟨rfl, h⟩

theorem fits_copyToUser {post : Bool → Phase → Prop} (hph : ph.Free) (addr : Nat) (p : Ptr) (n : Nat)
    (h : ∀ ok, post ok ph) : (copyToUser addr p n).Fits post ph := by
  cases p with
  | none => exact hph
  | some block => exact ⟨hph, h⟩

end Services

section Driver

theorem allocCommon_fits (cmd : Nat) {post : Common → Phase → Prop}
    (h : ∀ c : Common, c.sgs.length = 3 → post c .idle) : (allocCommon cmd).Fits post .idle := by
  unfold allocCommon
  apply fits_then <| fits_getCrof fun crof => ?_
  apply fits_then <| fits_kzalloc 4 fun syscallType => ?_
  apply fits_then <| fits_store _ _ ?_
  apply fits_then <| fits_kzalloc 4 fun hostFd => ?_
  apply fits_then <| fits_store _ _ ?_
  apply fits_then <| fits_kzalloc 4 fun ioctlCmd => ?_
  apply fits_then <| fits_store _ _ ?_
  apply fits_then <| fits_kzalloc 4 fun hostReturnVal => ?_
  apply fits_then <| fits_sgInitOne Phase.idle_free _ _ fun syscallTypeSg => ?_
  apply fits_then <| fits_sgInitOne Phase.idle_free _ _ fun hostFdSg => ?_
  apply fits_then <| fits_sgInitOne Phase.idle_free _ _ fun ioctlCmdSg => ?_
  exact h _ rfl

theorem allocObjects_fits (arg : Nat) {post : Objects → Phase → Prop}
    (h : ∀ o, post o .idle) : (allocObjects arg).Fits post .idle := by
  unfold allocObjects
  apply fits_then <| fits_kzalloc _ fun sessionOp => ?_
  apply fits_then <| fits_loadUser Phase.idle_free _ _ fun keylen => ?_
  apply fits_then <| fits_kmalloc _ fun sessionKey => ?_
  apply fits_then <| fits_kzalloc _ fun sesId => ?_
  apply fits_then <| fits_kzalloc _ fun cryptOp => ?_
  apply fits_then <| fits_loadUser Phase.idle_free _ _ fun len => ?_
  apply fits_then <| fits_kzalloc _ fun src => ?_
  apply fits_then <| fits_kzalloc _ fun iv => ?_
  apply fits_then <| fits_loadUser Phase.idle_free _ _ fun len => ?_
  apply fits_then <| fits_kzalloc _ fun dst => ?_
  exact h _

-- No command lists more than four entries of its own.
theorem cmdSgs_fits (cmd arg : Nat) (o : Objects)
    {post : Option (List Sg × List Sg) → Phase → Prop} (hnone : post none .idle)
    (h : ∀ outSgs inSgs, outSgs.length + inSgs.length ≤ 4 → post (some (outSgs, inSgs)) .idle) :
    (cmdSgs cmd arg o).Fits post .idle := by
  unfold cmdSgs
  split_ifs
  · apply fits_then <| fits_copyFromUser _ _ _ fun ok => ?_
    cases ok
    · exact hnone
    apply fits_then <| fits_loadUser Phase.idle_free _ _ fun key => ?_
    apply fits_then <| fits_loadUser Phase.idle_free _ _ fun keylen => ?_
    apply fits_then <| fits_copyFromUser _ _ _ fun ok => ?_
    cases ok
    · exact hnone
    apply fits_then <| fits_load Phase.idle_free _ _ _ fun copied => ?_
    apply fits_then <| fits_sgInitOne Phase.idle_free _ _ fun sessionKeySg => ?_
    apply fits_then <| fits_sgInitOne Phase.idle_free _ _ fun sessionOpSg => ?_
    exact h _ _ (by simp)
  · apply fits_then <| fits_copyFromUser _ _ _ fun ok => ?_
    cases ok
    · exact hnone
    apply fits_then <| fits_sgInitOne Phase.idle_free _ _ fun sesIdSg => ?_
    exact h _ _ (by simp)
  · apply fits_then <| fits_copyFromUser _ _ _ fun ok => ?_
    cases ok
    · exact hnone
    apply fits_then <| fits_loadUser Phase.idle_free _ _ fun src => ?_
    apply fits_then <| fits_loadUser Phase.idle_free _ _ fun len => ?_
    apply fits_then <| fits_copyFromUser _ _ _ fun ok => ?_
    cases ok
    · exact hnone
    apply fits_then <| fits_loadUser Phase.idle_free _ _ fun iv => ?_
    apply fits_then <| fits_copyFromUser _ _ _ fun ok => ?_
    cases ok
    · exact hnone
    apply fits_then <| fits_sgInitOne Phase.idle_free _ _ fun cryptOpSg => ?_
    apply fits_then <| fits_load Phase.idle_free _ _ _ fun copied => ?_
    apply fits_then <| fits_sgInitOne Phase.idle_free _ _ fun srcSg => ?_
    apply fits_then <| fits_sgInitOne Phase.idle_free _ _ fun ivSg => ?_
    apply fits_then <| fits_sgInitOne Phase.idle_free _ _ fun dstSg => ?_
    exact h _ _ (by simp)
  · exact h [] [] (by simp)

theorem reply_fits (cmd arg : Nat) (c : Common) (o : Objects) {post : Int → Phase → Prop}
    (h : ∀ ret, post ret .done) : (reply cmd arg c o).Fits post .done := by
  have hcopy : ∀ {post : Bool → Phase → Prop}, (∀ ok, post ok .done) →
      (copyBack cmd arg o).Fits post .done := by
    intro post hpost
    unfold copyBack
    split_ifs
    · exact fits_copyToUser Phase.done_free _ _ _ hpost
    · apply fits_then <| fits_loadUser Phase.done_free _ _ fun dst => ?_
      apply fits_then <| fits_load Phase.done_free _ _ _ fun len => ?_
      exact fits_copyToUser Phase.done_free _ _ _ hpost
    · exact hpost true
  have hfree : ∀ {post : Unit → Phase → Prop}, post () .done →
      (freeObjects o).Fits post .done := by
    intro post hpost
    unfold freeObjects
    iterate 6 apply fits_then <| fits_kfree Phase.done_free _ ?_
    exact fits_kfree Phase.done_free _ hpost
  unfold reply
  apply fits_then <| hcopy fun ok => ?_
  cases ok
  · exact h _
  iterate 3 apply fits_then <| fits_kfree Phase.done_free _ ?_
  apply fits_then <| hfree ?_
  apply fits_then <| fits_load Phase.done_free _ _ _ fun ret => ?_
  exact h _

theorem ioctl_fits (cmd arg : Nat) :
    (cryptoChrdevIoctl cmd arg).Fits (fun _ ph => ph.Free) .idle := by
  unfold cryptoChrdevIoctl
  apply fits_then <| allocCommon_fits cmd fun c hsgs => ?_
  apply fits_then <| allocObjects_fits arg fun o => ?_
  apply fits_then <| cmdSgs_fits cmd arg o ?_ fun outSgs inSgs hlen => ?_
  · exact Phase.idle_free
  apply fits_then <| fits_sgInitOne Phase.idle_free _ _ fun hostReturnValSg => ?_
  apply fits_then <| fits_submit _ _ _ _ (by omega) ?_
  exact reply_fits cmd arg c o fun _ => Phase.done_free

theorem open_fits (minor : Nat) : (cryptoChrdevOpen minor).Fits (fun _ ph => ph.Free) .idle := by
  unfold cryptoChrdevOpen
  apply fits_then <| fits_kzalloc 4 fun syscallType => ?_
  apply fits_then <| fits_kzalloc 4 fun hostFd => ?_
  apply fits_then <| fits_store _ _ ?_
  apply fits_then <| fits_store _ _ ?_
  apply fits_then <| fits_nonseekableOpen fun ret => ?_
  split_ifs
  · exact Phase.idle_free
  apply fits_then <| fits_getCryptoDevByMinor minor fun crdev => ?_
  cases crdev with
  | none => exact Phase.idle_free
  | some crdev =>
      apply fits_then <| fits_newCrof _ fun ok => ?_
      cases ok
      · exact Phase.idle_free
      apply fits_then <| fits_sgInitOne Phase.idle_free _ _ fun syscallTypeSg => ?_
      apply fits_then <| fits_sgInitOne Phase.idle_free _ _ fun fileDescriptorSg => ?_
      apply fits_then <| fits_submit _ _ _ _ (by decide) ?_
      apply fits_then <| fits_load Phase.done_free _ _ _ fun fd => ?_
      apply fits_then <| fits_setHostFd Phase.done_free _ ?_
      iterate 2 apply fits_then <| fits_kfree Phase.done_free _ ?_
      exact Phase.done_free

theorem release_fits : cryptoChrdevRelease.Fits (fun _ ph => ph.Free) .idle := by
  unfold cryptoChrdevRelease
  apply fits_then <| fits_getCrof fun crof => ?_
  apply fits_then <| fits_kzalloc 4 fun syscallType => ?_
  apply fits_then <| fits_store _ _ ?_
  apply fits_then <| fits_kzalloc 4 fun hostFd => ?_
  apply fits_then <| fits_store _ _ ?_
  apply fits_then <| fits_sgInitOne Phase.idle_free _ _ fun syscallTypeSg => ?_
  apply fits_then <| fits_sgInitOne Phase.idle_free _ _ fun fileDescriptorSg => ?_
  apply fits_then <| fits_submit _ _ _ _ (by decide) ?_
  apply fits_then <| fits_freeCrof Phase.done_free ?_
  iterate 2 apply fits_then <| fits_kfree Phase.done_free _ ?_
  exact Phase.done_free

theorem syscall_fits (sys : Syscall) : sys.prog.Fits (fun _ ph => ph.Free) .idle := by
  cases sys with
  | openDev minor => exact open_fits minor
  | ioctl cmd arg => exact ioctl_fits cmd arg
  | release => exact release_fits

end Driver

end CryptodevChat.Virtio
