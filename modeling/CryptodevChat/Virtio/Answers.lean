import CryptodevChat.Virtio.Success
import CryptodevChat.Virtio.Observe

namespace CryptodevChat.Virtio

open Lib (Byte le fromLe leInt fromLeInt le_length leInt_length fromLe_le Loc Mem Space)

variable {σ : Type} {g : Guest σ}

section Answer

-- The ioctl that the backend makes for a request, and what comes of it.
def VirtQueueElement.answer (elem : VirtQueueElement) (h : Host σ) (q : Qemu) (m : Mem Byte) (x : σ) :
    Option (Nat × Except Nat Unit) :=
  if elem.syscallType m = VIRTIO_CRYPTO_SYSCALL_TYPE_IOCTL then
    if elem.ioctlCmd m = CIOCGSESSION then
      let m := elem.sessionMem q m
      some (CIOCGSESSION,
        (h.ioctl q.space (elem.hostFd m) CIOCGSESSION (q.addr (elem.inSg 0).base) m x).1)
    else if elem.ioctlCmd m = CIOCFSESSION then
      some (CIOCFSESSION,
        (h.ioctl q.space (elem.hostFd m) CIOCFSESSION (q.addr (elem.outSg 3).base) m x).1)
    else if elem.ioctlCmd m = CIOCCRYPT then
      let m := elem.cryptMem q m
      some (CIOCCRYPT,
        (h.ioctl q.space (elem.hostFd m) CIOCCRYPT (q.addr (elem.outSg 3).base) m x).1)
    else none
  else none

-- The answers to the requests of a call.
def answerOf (g : Guest σ) : Deed × Sys σ → Option (Nat × Except Nat Unit)
  | (.kick v, s) => (s.queues v).avail.head?.bind fun elem => elem.answer g.host g.qemu s.mem s.host
  | _ => none

def Watch.answers (w : Watch σ) (g : Guest σ) : List (Nat × Except Nat Unit) :=
  w.trail.filterMap (answerOf g)

variable (race : Nat → Mem Byte → Mem Byte) (w : Watch σ) (s : Sys σ)

theorem answers_quiet {α : Type} (x : Prog α) (h : x.Quiet) :
    (observe g race x w s).2.answers g = w.answers g := by
  obtain ⟨l, hl, hall⟩ := observe_all g race w s x h.all
  have hnone : l.filterMap (answerOf g) = [] := by
    rw [List.filterMap_eq_nil_iff]
    rintro ⟨d, s'⟩ he
    cases d with
    | kick v => exact absurd rfl (hall _ he v)
    | alloc | free | fetch | copyIn | copyOut | addSgs => rfl
  rw [Watch.answers, hl, List.filterMap_append, hnone, List.append_nil, Watch.answers]

theorem answers_submit (v : Nat) (sgs : List Sg) (numOut numIn : Nat) (hlock : s.locked = false)
    (havail : (s.queues v).avail = []) (hused : (s.queues v).used = [])
    (hroom : numOut + numIn ≤ VQ_SIZE) :
    (observe g race (submit v sgs numOut numIn) w s).2.answers g =
      w.answers g ++ ((toElement sgs numOut numIn).answer g.host g.qemu s.mem s.host).toList := by
  have hadd := VirtQueue.add_empty _ (toElement sgs numOut numIn) havail hused hroom
  rw [observe_submit g race w s v sgs numOut numIn hlock]
  simp only [Watch.answers, Watch.note, Sys.posted, Sys.setQueue, hadd, List.filterMap_append,
    List.filterMap_cons, List.filterMap_nil, answerOf, Function.update_self, List.head?_cons,
    Option.bind_some, List.append_nil]
  cases (toElement sgs numOut numIn).answer g.host g.qemu s.mem s.host <;> rfl

end Answer

section Cases

def Known (cmd : Nat) : Prop := cmd = CIOCGSESSION ∨ cmd = CIOCFSESSION ∨ cmd = CIOCCRYPT

theorem cmdSgs_unknown (cmd arg : Nat) (o : Objects) (h : ¬Known cmd) :
    cmdSgs cmd arg o = pure (some ([], [])) := by
  unfold Known at h
  push Not at h
  rw [cmdSgs, if_neg h.1, if_neg h.2.1, if_neg h.2.2]

theorem Prog.bind_assoc {α β γ : Type} (x : Prog α) (f : α → Prog β) (k : β → Prog γ) :
    x >>= f >>= k = x >>= fun a => f a >>= k := by
  change (x.bind f).bind k = x.bind fun a => (f a).bind k
  induction x with
  | ret a | oops => rfl
  | kmalloc _ _ _ ih | get _ _ _ _ ih | loadUser _ _ _ ih | copyFromUser _ _ _ _ ih
  | copyToUser _ _ _ _ ih | nonseekableOpen _ ih | findDev _ _ ih | newCrof _ _ ih | getCrof _ ih =>
      simp only [Prog.bind, ih]
  | kfree _ _ ih | put _ _ _ _ ih | setHostFd _ _ ih | freeCrof _ ih | spinLock _ ih
  | spinUnlock _ ih | addSgs _ _ _ _ _ ih | kick _ _ ih | getBuf _ _ ih => simp only [Prog.bind, ih]

-- The two halves of an ioctl: up to its lists, and from the request on.
def prepare (cmd arg : Nat) : Prog (Common × Objects × Option (List Sg × List Sg)) := do
  let c ← allocCommon cmd
  let o ← allocObjects arg
  let r ← cmdSgs cmd arg o
  return (c, o, r)

def conclude (cmd arg : Nat) : Common × Objects × Option (List Sg × List Sg) → Prog Int
  | (_, _, none) => return -EFAULT
  | (c, o, some (outSgs, inSgs)) => do
      let hostReturnValSg ← sgInitOne c.hostReturnVal 4
      submit c.crdev (c.sgs ++ outSgs ++ inSgs ++ [hostReturnValSg])
        (c.sgs.length + outSgs.length) (inSgs.length + 1)
      reply cmd arg c o

theorem ioctl_halves (cmd arg : Nat) :
    cryptoChrdevIoctl cmd arg = prepare cmd arg >>= conclude cmd arg := by
  unfold cryptoChrdevIoctl prepare
  simp only [Prog.bind_assoc]
  congr 1
  funext c
  congr 1
  funext o
  congr 1
  funext r
  cases r <;> rfl

theorem prepare_quiet (cmd arg : Nat) : (prepare cmd arg).Quiet :=
  (allocCommon_quiet cmd).bind fun _ => (allocObjects_apart arg).quiet.bind fun _ =>
    (cmdSgs_apart cmd arg _).quiet.bind fun _ => trivial

theorem allocCommon_all {P : Deed → Prop} (h : ∀ p size, P (.alloc p size)) (cmd : Nat) :
    (allocCommon cmd).All P := by
  unfold allocCommon
  repeat' first
    | exact all_getCrof | exact all_kzalloc _ fun p => h p _ | exact all_store _ _
    | exact all_sgInitOne _ _ | exact all_pure _
    | refine Prog.All.bind ?_ fun _ => ?_

theorem allocObjects_all {P : Deed → Prop} (h : ∀ p size, P (.alloc p size)) (arg : Nat)
    (hfetch : P (.fetch (arg + LEN_OFF) 4)) : (allocObjects arg).All P := by
  unfold allocObjects
  repeat' first
    | exact all_kzalloc _ fun p => h p _ | exact all_kmalloc _ fun p => h p _
    | exact all_loadUser _ _ hfetch | exact all_pure _
    | refine Prog.All.bind ?_ fun _ => ?_

theorem cmdSgs_all {P : Deed → Prop} (hcopy : ∀ block addr n, P (.copyIn block addr n))
    (hfetch : ∀ addr n, P (.fetch addr n)) (cmd arg : Nat) (o : Objects) : (cmdSgs cmd arg o).All P := by
  unfold cmdSgs
  repeat' first
    | exact all_copyFromUser _ _ _ fun _ => hcopy _ _ _ | exact all_loadUser _ _ (hfetch _ _)
    | exact all_load _ _ _ | exact all_sgInitOne _ _ | exact all_pure _
    | refine Prog.All.bind ?_ fun _ => ?_
    | split

theorem prepare_inward (cmd arg : Nat) : (prepare cmd arg).All Deed.Inward :=
  (allocCommon_all (fun _ _ => trivial) cmd).bind fun _ =>
    (allocObjects_all (fun _ _ => trivial) arg trivial).bind fun _ =>
      (cmdSgs_all (fun _ _ _ => trivial) (fun _ _ => trivial) cmd arg _).bind fun _ => trivial

variable {s : Sys σ} {file : Crof} (hs : s.Fresh file) (cmd arg : Nat)
include hs

-- A call either ends without a request, with the memory of its process as it
-- was, or has its objects and its lists.
theorem ioctl_cases :
    ((watched g (cryptoChrdevIoctl cmd arg) s).2.answers g = [] ∧
      (∀ ret s', (watched g (cryptoChrdevIoctl cmd arg) s).1 = .done ret s' →
        ret = -(EFAULT : Int) ∧ s'.user = s.user ∧ Known cmd)) ∨
    (g.Has [0, 1, 2, 3] ∧ ∃ data r s3, g.space.copyFrom s.user (arg + LEN_OFF) 4 = some data ∧
      exec g (cmdSgs cmd arg g.objects)
        { s with mem := objectsMem (commonMem s.mem file.hostFd cmd)
                 sizes := ioctlSizes (fromLe data) } = .done (some r) s3) := by
  have hquiet := answers_quiet (g := g) (fun _ user => user) .start s _ (prepare_quiet cmd arg)
  have huser := exec_user g s _ (prepare_inward cmd arg)
  have hexec := observe_exec g (prepare cmd arg) .start s
  unfold watched
  rw [ioctl_halves, observe_bind]
  generalize hobs : observe g (fun _ user => user) (prepare cmd arg) .start s = out at hquiet hexec ⊢
  obtain ⟨out, w⟩ := out
  dsimp only at hquiet hexec
  rw [← hexec] at huser
  cases out with
  | oops s' | hangs s' =>
      refine .inl ⟨hquiet, fun ret s' hdone => ?_⟩
      cases hdone
  | done r s' =>
      obtain ⟨c, o, r⟩ := r
      cases r with
      | none =>
          refine .inl ⟨hquiet, fun ret s' hdone => ?_⟩
          cases hdone
          refine ⟨rfl, huser, ?_⟩
          by_contra hknown
          obtain ⟨c', s1, _, hexec⟩ := (exec_done g _ _ _ _ _).mp hexec.symm
          obtain ⟨o', s2, _, hexec⟩ := (exec_done g _ _ _ _ _).mp hexec
          rw [cmdSgs_unknown cmd arg o' hknown] at hexec
          cases hexec
      | some r =>
          -- The lists are complete, so that every object they name is there.
          obtain ⟨c', s1, hc, hexec⟩ := (exec_done g _ _ _ _ _).mp hexec.symm
          obtain ⟨o', s2, ho, hexec⟩ := (exec_done g _ _ _ _ _).mp hexec
          obtain ⟨r', s3, hr, hexec⟩ := (exec_done g _ _ _ _ _).mp hexec
          cases hexec
          obtain ⟨hthree, hret, rfl, -⟩ := exec_alloc_done hs cmd arg _ _ _ _ hc ho
          by_cases hptr : g.allocs 3 = true
          · rw [exec_allocCommon s cmd file hs.crof hs.sizes hthree] at hc
            cases hc
            cases hlen : g.space.copyFrom s.user (arg + LEN_OFF) 4 with
            | none =>
                obtain ⟨s', hoops⟩ := exec_allocObjects_oops
                  { s with mem := commonMem s.mem file.hostFd cmd, sizes := [4, 4, 4, 4] } arg hlen
                rw [hoops] at ho
                cases ho
            | some data =>
                rw [exec_allocObjects { s with
                  mem := commonMem s.mem file.hostFd cmd, sizes := [4, 4, 4, 4] } arg data rfl hlen] at ho
                cases ho
                refine .inr ⟨?_, data, r, s', rfl, hr⟩
                simp only [Guest.Has, List.forall_mem_cons] at hthree ⊢
                simp [hthree, hptr]
          · have hnull : c.hostReturnVal = none := by rw [hret]; exact if_neg hptr
            have hoops : ∀ w : Watch σ, observe g (fun _ user => user)
                (conclude cmd arg (c, g.objects, some r)) w s' = (.oops s', w) := by
              intro w
              obtain ⟨outSgs, inSgs⟩ := r
              exact observe_mute_oops g _ w s' _ _ s' (mute_sgInitOne _ _) (by rw [hnull]; rfl)
            dsimp only
            rw [hoops]
            refine .inl ⟨hquiet, fun ret s' hdone => ?_⟩
            cases hdone

-- A submitted request is the only one of its call.
theorem answers_submitted (data : List Byte) (outSgs inSgs : List Sg) (m3 : Mem Byte)
    (hallocs : g.Has [0, 1, 2, 3])
    (hlen : g.space.copyFrom s.user (arg + LEN_OFF) 4 = some data)
    (hcmd : exec g (cmdSgs cmd arg g.objects)
        { s with mem := objectsMem (commonMem s.mem file.hostFd cmd)
                 sizes := ioctlSizes (fromLe data) } =
      .done (some (outSgs, inSgs)) { s with mem := m3, sizes := ioctlSizes (fromLe data) })
    (hroom : outSgs.length + inSgs.length ≤ 8) :
    (watched g (cryptoChrdevIoctl cmd arg) s).2.answers g =
      ((ioctlElement outSgs inSgs).answer g.host g.qemu m3 s.host).toList := by
  have hthree : g.Has [0, 1, 2] := fun i hi => hallocs i (by simp at hi ⊢; omega)
  have hcommon := exec_allocCommon s cmd file hs.crof hs.sizes hthree
  have hobjects := exec_allocObjects
    { s with mem := commonMem s.mem file.hostFd cmd, sizes := [4, 4, 4, 4] } arg data rfl hlen
  have hprepare : exec g (prepare cmd arg) s =
      .done (⟨file.crdev, some 0, some 1, some 2, g.ptr 3, commonSgs⟩, g.objects, some (outSgs, inSgs))
        { s with mem := m3, sizes := ioctlSizes (fromLe data) } := by
    unfold prepare
    rw [exec_then _ _ _ _ _ _ hcommon, exec_then _ _ _ _ _ _ hobjects,
      exec_then _ _ _ _ _ _ hcmd]
    rfl
  have hquiet := answers_quiet (g := g) (fun _ user => user) .start s _ (prepare_quiet cmd arg)
  have hexec := observe_exec g (prepare cmd arg) .start s
  rw [hprepare] at hexec
  unfold watched
  rw [ioctl_halves, observe_bind]
  generalize observe g (fun _ user => user) (prepare cmd arg) .start s = out at hquiet hexec ⊢
  obtain ⟨out, w⟩ := out
  dsimp only at hquiet hexec
  subst hexec
  unfold conclude
  simp only [hallocs.ptr 3 (by simp)]
  rw [observe_mute_then _ _ _ _ _ _ _ _ (mute_sgInitOne _ _) (exec_sgInitOne g _ 3 4)]
  have hsubmit := answers_submit (g := g) (fun _ user => user) w
    { s with mem := m3, sizes := ioctlSizes (fromLe data) } file.crdev
    (commonSgs ++ outSgs ++ inSgs ++ [⟨3, 4⟩]) (commonSgs.length + outSgs.length)
    (inSgs.length + 1) hs.locked hs.avail hs.used (by
      simp only [commonSgs, List.length_cons, List.length_nil, VQ_SIZE]
      omega)
  rw [observe_bind]
  generalize observe g (fun _ user => user) (submit _ _ _ _) w _ = out at hsubmit ⊢
  obtain ⟨out, w'⟩ := out
  dsimp only at hsubmit
  have hanswer : w'.answers g = ((ioctlElement outSgs inSgs).answer g.host g.qemu m3 s.host).toList := by
    rw [hsubmit, hquiet]
    rfl
  cases out with
  | oops s' | hangs s' => exact hanswer
  | done a s' => exact (answers_quiet _ w' s' _ (reply_apart _ _ _ _).quiet).trans hanswer

end Cases

end CryptodevChat.Virtio
