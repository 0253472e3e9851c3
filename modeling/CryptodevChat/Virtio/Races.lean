import CryptodevChat.Virtio.Element
import CryptodevChat.Virtio.Answers

namespace CryptodevChat.Virtio

open Lib (Byte le fromLe leInt fromLeInt le_length leInt_length fromLe_le Loc Mem Space)

variable {σ : Type} {g : Guest σ}

section Contained

-- Copies stay inside the objects of the call, the entries of a request too,
-- and the lengths in its structures are covered by its entries.
def Deed.Inside (s : Sys σ) : Deed → Prop
  | .copyIn block _ n => n ≤ s.sizes.getD block 0
  | .copyOut _ block n => n ≤ s.sizes.getD block 0
  | .addSgs _ sgs numOut numIn =>
      (∀ sg ∈ sgs, sg.len ≤ s.sizes.getD sg.block 0) ∧ (toElement sgs numOut numIn).Layout s.mem
  | .alloc _ _ | .free _ | .fetch _ _ | .kick _ => True

def Watch.Contained (w : Watch σ) : Prop := ∀ e ∈ w.trail, e.1.Inside e.2

variable (race : Nat → Mem Byte → Mem Byte) (w : Watch σ) (s : Sys σ)

@[simp] theorem contained_start : (Watch.start : Watch σ).Contained := fun e he => by cases he

@[simp] theorem contained_note (d : Deed) :
    (w.note d s).Contained ↔ w.Contained ∧ d.Inside s := by
  simp [Watch.Contained, Watch.note, or_imp, forall_and]

@[simp] theorem contained_touch (d : Deed) :
    (w.touch d s).Contained ↔ w.Contained ∧ d.Inside s := by
  simp [Watch.Contained, Watch.touch, or_imp, forall_and]

-- Deeds that cannot leave an object.
def Deed.Harmless : Deed → Prop
  | .alloc _ _ | .free _ | .fetch _ _ | .kick _ => True
  | .copyIn _ _ _ | .copyOut _ _ _ | .addSgs _ _ _ _ => False

theorem contained_harmless {α : Type} (x : Prog α) (h : x.All Deed.Harmless) :
    (observe g race x w s).2.Contained ↔ w.Contained := by
  obtain ⟨l, hl, hall⟩ := observe_all g race w s x h
  unfold Watch.Contained
  rw [hl]
  constructor
  · exact fun hin e he => hin e (List.mem_append_left _ he)
  · intro hin e he
    obtain he | he := List.mem_append.mp he
    · exact hin e he
    · have hd := hall e he
      obtain ⟨d, s'⟩ := e
      cases d with
      | alloc | free | fetch | kick => trivial
      | copyIn | copyOut | addSgs => exact hd.elim

-- What follows a stop, or does no more than free objects, adds nothing.
theorem contained_oops {α β : Type} (x : Prog α) (f : α → Prog β) (s' : Sys σ)
    (hx : x.All Deed.Harmless) (h : (observe g race x w s).1 = .oops s') :
    (observe g race (x >>= f) w s).2.Contained ↔ w.Contained := by
  have hin := contained_harmless (g := g) race w s x hx
  rw [observe_bind]
  generalize observe g race x w s = r at h hin ⊢
  obtain ⟨out, w'⟩ := r
  dsimp only at h
  subst h
  exact hin

theorem contained_then_harmless {α β : Type} (x : Prog α) (f : α → Prog β)
    (hf : ∀ a, (f a).All Deed.Harmless) :
    (observe g race (x >>= f) w s).2.Contained ↔ (observe g race x w s).2.Contained := by
  rw [observe_bind]
  generalize observe g race x w s = r
  obtain ⟨out, w'⟩ := r
  cases out with
  | done a s' => exact contained_harmless race w' s' (f a) (hf a)
  | oops s' | hangs s' => exact Iff.rfl

end Contained

section Reads

variable {race : Nat → Mem Byte → Mem Byte}

-- The memory of a process after the first accesses of a call to it.
def view (race : Nat → Mem Byte → Mem Byte) (user : Mem Byte) : Nat → Mem Byte
  | 0 => user
  | k + 1 => race k (view race user k)

-- What one of these accesses finds.
def readAt (g : Guest σ) (race : Nat → Mem Byte → Mem Byte) (user : Mem Byte) (k addr n : Nat) :
    Option (List Byte) := g.space.copyFrom (view race user (k + 1)) addr n

-- Whether an address can be read does not depend on what is written there.
theorem readAt_some (user : Mem Byte) (k addr n k' : Nat) (data : List Byte)
    (h : readAt g race user k addr n = some data) :
    ∃ data', readAt g race user k' addr n = some data' := by
  unfold readAt Space.copyFrom at h ⊢
  split_ifs at h ⊢
  exact ⟨_, rfl⟩

theorem readAt_field (user : Mem Byte) (k addr n k' off len : Nat) (data : List Byte)
    (h : readAt g race user k addr n = some data) (hoff : off + len ≤ n) :
    ∃ data', readAt g race user k' (addr + off) len = some data' :=
  readAt_some user k _ _ k' _ (Space.copyFrom_slice _ _ _ _ off len _ h hoff)

-- A number among them.
def fieldAt (g : Guest σ) (race : Nat → Mem Byte → Mem Byte) (user : Mem Byte)
    (k addr off n : Nat) : Nat := fromLe ((readAt g race user k (addr + off) n).getD [])

theorem fieldAt_eq (user : Mem Byte) (k addr off n : Nat) (data : List Byte)
    (h : readAt g race user k (addr + off) n = some data) :
    fieldAt g race user k addr off n = fromLe data := by
  rw [fieldAt, h, Option.getD_some]

variable (w : Watch σ) (s : Sys σ) (user : Mem Byte) (k : Nat)

-- A state in which `k` accesses have been made.
def Sys.viewed (s : Sys σ) (race : Nat → Mem Byte → Mem Byte) (user : Mem Byte) (k : Nat) : Sys σ :=
  { s with user := view race user k }

@[simp] theorem viewed_alloc (size : Nat) (zeroed : Bool) :
    (s.viewed race user k).alloc size zeroed = (s.alloc size zeroed).viewed race user k := rfl

@[simp] theorem viewed_sizes : (s.viewed race user k).sizes = s.sizes := rfl

@[simp] theorem accesses_note (d : Deed) : (w.note d s).accesses = w.accesses := rfl

@[simp] theorem accesses_touch (d : Deed) : (w.touch d s).accesses = w.accesses + 1 := rfl

theorem observe_loadUser (hk : w.accesses = k) (addr n : Nat) (data : List Byte)
    (h : readAt g race user k addr n = some data) :
    observe g race (loadUser addr n) w (s.viewed race user k) =
      (.done (fromLe data) (s.viewed race user (k + 1)),
        w.touch (.fetch addr n) (s.viewed race user (k + 1))) := by
  subst hk
  simp only [readAt, view] at h
  simp only [loadUser, observe, Sys.raced, Sys.viewed, view, h]

theorem observe_loadUser_oops (hk : w.accesses = k) (addr n : Nat)
    (h : readAt g race user k addr n = none) :
    observe g race (loadUser addr n) w (s.viewed race user k) =
      (.oops (s.viewed race user (k + 1)),
        w.touch (.fetch addr n) (s.viewed race user (k + 1))) := by
  subst hk
  simp only [readAt, view] at h
  simp only [loadUser, observe, Sys.raced, Sys.viewed, view, h]

theorem observe_copyFromUser_null {β : Type} (addr n : Nat) (f : Bool → Prog β) :
    observe g race (copyFromUser none addr n >>= f) w s = (.oops s, w) := rfl

-- The fields of a structure that has been copied can be loaded.
theorem observe_field {β : Type} (hk : w.accesses = k) (addr size k' off n : Nat) (data : List Byte)
    (h : readAt g race user k' addr size = some data) (hoff : off + n ≤ size) (f : Nat → Prog β) :
    ∃ w', observe g race (loadUser (addr + off) n >>= f) w (s.viewed race user k) =
        observe g race (f (fieldAt g race user k addr off n)) w' (s.viewed race user (k + 1)) ∧
      w'.accesses = k + 1 ∧ (w'.Contained ↔ w.Contained) := by
  obtain ⟨field, hfield⟩ := readAt_field user k' addr size k off n data h hoff
  have hload := observe_loadUser w s user k hk _ n field hfield
  rw [← fieldAt_eq _ _ _ _ _ _ hfield] at hload
  refine ⟨_, observe_then _ _ _ _ _ _ _ _ _ hload, (accesses_touch ..).trans (by rw [hk]), ?_⟩
  exact (contained_touch _ _ _).trans (and_iff_left trivial)

-- A copy goes on with what it finds, and one that is too long is seen to be.
theorem observe_copyIn {β : Type} (hk : w.accesses = k) (block addr n : Nat) (f : Bool → Prog β)
    (hn : n ≤ s.sizes.getD block 0) :
    ∃ w', observe g race (copyFromUser (some block) addr n >>= f) w (s.viewed race user k) =
        (match readAt g race user k addr n with
        | some data => observe g race (f true) w'
            ({ s with mem := Mem.store s.mem ⟨block, 0⟩ data }.viewed race user (k + 1))
        | none => observe g race (f false) w' (s.viewed race user (k + 1))) ∧
      w'.accesses = k + 1 ∧ (w'.Contained ↔ w.Contained) := by
  subst hk
  refine ⟨w.touch (.copyIn block addr n) (s.viewed race user (w.accesses + 1)), ?_, rfl, ?_⟩
  · change observe g race (.copyFromUser block addr n f) w _ = _
    cases hread : g.space.copyFrom (race w.accesses (view race user w.accesses)) addr n with
    | none => simp only [observe, Sys.raced, Sys.viewed, view, readAt, hread]
    | some data => simp only [observe, Sys.raced, Sys.viewed, view, readAt, hread, hn, if_true]
  · rw [contained_touch]
    exact and_iff_left hn

theorem observe_copyIn_long {β : Type} (block addr n : Nat) (f : Bool → Prog β)
    (hn : ¬n ≤ s.sizes.getD block 0) :
    ¬(observe g race (copyFromUser (some block) addr n >>= f) w s).2.Contained := by
  intro h
  have hpre := observe_bind_grows g race w s (copyFromUser (some block) addr n) f
  have htouch : (Deed.copyIn block addr n, s.raced race w.accesses) ∈
      (observe g race (copyFromUser (some block) addr n) w s).2.trail := by
    change _ ∈ (observe g race (.copyFromUser block addr n .ret) w s).2.trail
    have hn' : ¬n ≤ (s.raced race w.accesses).sizes.getD block 0 := hn
    unfold observe
    dsimp only
    cases g.space.copyFrom (s.raced race w.accesses).user addr n with
    | none => simp [observe, Watch.touch]
    | some data =>
        dsimp only
        rw [if_neg hn']
        simp [Watch.touch]
  exact hn (h _ (hpre.mem htouch))

end Reads

section Objects

variable (race : Nat → Mem Byte → Mem Byte) (s : Sys σ)

-- The sizes of the objects, of which three come from three loads.
def racedSizes (key src dst : Nat) : List Nat := [4, 4, 4, 4, 48, key, 4, 48, src, 16, dst]

def Crof.found (file : Crof) (g : Guest σ) : Common :=
  ⟨file.crdev, some 0, some 1, some 2, g.ptr 3, commonSgs⟩

-- What an ioctl allocates, with the fetches in between.
def commonDeeds (g : Guest σ) : List Deed :=
  [.alloc (some 0) 4, .alloc (some 1) 4, .alloc (some 2) 4, .alloc (g.ptr 3) 4]

def objectDeeds (g : Guest σ) (arg key src dst : Nat) : List Deed :=
  [.alloc (g.ptr 4) SESSION_OP_SIZE, .fetch (arg + LEN_OFF) 4, .alloc (g.ptr 5) key,
    .alloc (g.ptr 6) 4, .alloc (g.ptr 7) CRYPT_OP_SIZE, .fetch (arg + LEN_OFF) 4,
    .alloc (g.ptr 8) src, .alloc (g.ptr 9) IV_SIZE, .fetch (arg + LEN_OFF) 4, .alloc (g.ptr 10) dst]

theorem observe_allocCommon {file : Crof} (hs : s.Fresh file) (cmd : Nat)
    (hallocs : g.Has [0, 1, 2]) :
    ∃ w', observe g race (allocCommon cmd) .start s = (.done (file.found g)
        { s with mem := commonMem s.mem file.hostFd cmd, sizes := [4, 4, 4, 4] }, w') ∧
      w'.accesses = 0 ∧ w'.Contained ∧ w'.deeds = commonDeeds g := by
  have hin := contained_harmless (g := g) race .start s (allocCommon cmd)
    (allocCommon_all (fun _ _ => trivial) cmd)
  have hobs : ∃ w', observe g race (allocCommon cmd) .start s = (.done (file.found g)
        { s with mem := commonMem s.mem file.hostFd cmd, sizes := [4, 4, 4, 4] }, w') ∧
      w'.accesses = 0 ∧ w'.deeds = commonDeeds g := by
    unfold allocCommon
    rw [observe_mute_then _ _ _ _ _ _ _ _ mute_getCrof (exec_getCrof g s file hs.crof),
      observe_object _ _ _ 4 0 _ _ (by simp [hs.sizes]) (hallocs.ptr 0 (by simp)) (le_length 4 _),
      observe_object _ _ _ 4 1 _ _ (by simp [hs.sizes]) (hallocs.ptr 1 (by simp)) (leInt_length _),
      observe_object _ _ _ 4 2 _ _ (by simp [hs.sizes]) (hallocs.ptr 2 (by simp)) (le_length 4 _),
      observe_then _ _ _ _ _ _ _ _ _ (observe_kzalloc _ _ _ _ 4),
      observe_mute_then _ _ _ _ _ _ _ _ (mute_sgInitOne _ _) (exec_sgInitOne g _ 0 4),
      observe_mute_then _ _ _ _ _ _ _ _ (mute_sgInitOne _ _) (exec_sgInitOne g _ 1 4),
      observe_mute_then _ _ _ _ _ _ _ _ (mute_sgInitOne _ _) (exec_sgInitOne g _ 2 4)]
    simp only [hs.sizes, List.nil_append, List.cons_append]
    exact ⟨_, rfl, rfl, rfl⟩
  obtain ⟨w', hobs, hacc, hdeeds⟩ := hobs
  rw [hobs] at hin
  exact ⟨w', hobs, hacc, hin.mpr contained_start, hdeeds⟩

-- A call without one of the first three objects gets no further than these.
theorem observe_allocCommon_null {file : Crof} (hs : s.Fresh file) (cmd : Nat)
    (h : ¬g.Has [0, 1, 2]) :
    ∃ s' w' before, observe g race (allocCommon cmd) .start s = (.oops s', w') ∧
      w'.deeds = before ++ [.alloc none 4] := by
  unfold allocCommon
  rw [observe_mute_then _ _ _ _ _ _ _ _ mute_getCrof (exec_getCrof g s file hs.crof)]
  by_cases h0 : g.allocs 0 = true
  swap
  · rw [observe_object_null _ _ _ 4 0 _ _ (by simp [hs.sizes]) h0]
    exact ⟨_, _, [], rfl, rfl⟩
  rw [observe_object _ _ _ 4 0 _ _ (by simp [hs.sizes]) (if_pos h0) (le_length 4 _)]
  by_cases h1 : g.allocs 1 = true
  swap
  · rw [observe_object_null _ _ _ 4 1 _ _ (by simp [hs.sizes]) h1]
    exact ⟨_, _, [.alloc (some 0) 4], rfl, rfl⟩
  rw [observe_object _ _ _ 4 1 _ _ (by simp [hs.sizes]) (if_pos h1) (leInt_length _)]
  have h2 : g.allocs 2 ≠ true := by
    intro h2
    exact h (by simp [Guest.Has, h0, h1, h2])
  rw [observe_object_null _ _ _ 4 2 _ _ (by simp [hs.sizes]) h2]
  exact ⟨_, _, [.alloc (some 0) 4, .alloc (some 1) 4], rfl, rfl⟩

theorem observe_allocObjects (w : Watch σ) (user : Mem Byte) (arg : Nat) (key : List Byte)
    (hsizes : s.sizes = [4, 4, 4, 4]) (hacc : w.accesses = 0)
    (hkey : readAt g race user 0 (arg + LEN_OFF) 4 = some key) :
    ∃ w', observe g race (allocObjects arg) w (s.viewed race user 0) =
        (.done g.objects ({ s with
          mem := objectsMem s.mem
          sizes := racedSizes (fieldAt g race user 0 arg LEN_OFF 4)
            (fieldAt g race user 1 arg LEN_OFF 4) (fieldAt g race user 2 arg LEN_OFF 4)
          }.viewed race user 3), w') ∧
      w'.accesses = 3 ∧ (w'.Contained ↔ w.Contained) ∧
      w'.deeds = w.deeds ++ objectDeeds g arg (fieldAt g race user 0 arg LEN_OFF 4)
        (fieldAt g race user 1 arg LEN_OFF 4) (fieldAt g race user 2 arg LEN_OFF 4) := by
  have hin := contained_harmless (g := g) race w (s.viewed race user 0) (allocObjects arg)
    (allocObjects_all (fun _ _ => trivial) arg trivial)
  have hload : ∀ (w : Watch σ) (s : Sys σ) (k : Nat), w.accesses = k →
      observe g race (loadUser (arg + LEN_OFF) 4) w (s.viewed race user k) =
        (.done (fieldAt g race user k arg LEN_OFF 4) (s.viewed race user (k + 1)),
          w.touch (.fetch (arg + LEN_OFF) 4) (s.viewed race user (k + 1))) := by
    intro w s k hk
    obtain ⟨data, hdata⟩ := readAt_some user 0 _ _ k key hkey
    rw [observe_loadUser w s user k hk _ _ data hdata, fieldAt_eq _ _ _ _ _ _ hdata]
  obtain ⟨mem, sizes, user', crof, locked, queues, host, history⟩ := s
  subst hsizes
  have hobs : ∃ w', observe g race (allocObjects arg) w
      (Sys.viewed ⟨mem, [4, 4, 4, 4], user', crof, locked, queues, host, history⟩ race user 0) =
        (.done g.objects (Sys.viewed ⟨objectsMem mem,
          racedSizes (fieldAt g race user 0 arg LEN_OFF 4) (fieldAt g race user 1 arg LEN_OFF 4)
            (fieldAt g race user 2 arg LEN_OFF 4), user', crof, locked, queues, host, history⟩
          race user 3), w') ∧ w'.accesses = 3 ∧
      w'.deeds = w.deeds ++ objectDeeds g arg (fieldAt g race user 0 arg LEN_OFF 4)
        (fieldAt g race user 1 arg LEN_OFF 4) (fieldAt g race user 2 arg LEN_OFF 4) := by
    unfold allocObjects
    simp (disch := simpa) only [observe_bind,
      observe_kzalloc, observe_kmalloc, observe_pure, viewed_alloc, viewed_sizes, hload]
    refine ⟨_, rfl, by simp only [accesses_note, accesses_touch, hacc], ?_⟩
    simp only [deeds_note, deeds_touch, List.append_assoc]
    rfl
  obtain ⟨w', hobs, hacc', hdeeds⟩ := hobs
  rw [hobs] at hin
  exact ⟨w', hobs, hacc', hin, hdeeds⟩

-- Without a structure at its argument it gets as far as the first length.
theorem observe_allocObjects_oops (w : Watch σ) (arg : Nat) (hacc : w.accesses = 0)
    (hsizes : s.sizes.length = 4) (h : readAt g race s.user 0 (arg + LEN_OFF) 4 = none) :
    ∃ s' w', observe g race (allocObjects arg) w s = (.oops s', w') ∧
      w'.deeds = w.deeds ++ [.alloc (g.ptr 4) SESSION_OP_SIZE, .fetch (arg + LEN_OFF) 4] := by
  have hload : observe g race (loadUser (arg + LEN_OFF) 4)
      (w.note (.alloc (g.ptr s.sizes.length) SESSION_OP_SIZE) s) (s.alloc SESSION_OP_SIZE true) =
        (.oops _, _) :=
    observe_loadUser_oops (w.note _ s) (s.alloc SESSION_OP_SIZE true) s.user 0 hacc _ _ h
  unfold allocObjects
  rw [observe_then _ _ _ _ _ _ _ _ _ (observe_kzalloc g race w s SESSION_OP_SIZE)]
  refine ⟨_, _, observe_stop _ _ _ _ _ _ _ _ hload, ?_⟩
  simp only [deeds_touch, deeds_note, hsizes, List.append_assoc]
  rfl

end Objects

section Stages

variable (race : Nat → Mem Byte → Mem Byte) (s : Sys σ) (cmd arg : Nat)

theorem ioctl_stages : cryptoChrdevIoctl cmd arg = (do
    let c ← allocCommon cmd
    let o ← allocObjects arg
    let r ← cmdSgs cmd arg o
    conclude cmd arg (c, o, r)) := by
  rw [ioctl_halves, prepare]
  simp only [Prog.bind_assoc]
  rfl

-- A call without its first objects, or with a structure that cannot be read,
-- does nothing more.
theorem contained_unprepared {file : Crof} (hs : s.Fresh file)
    (h : g.Has [0, 1, 2] → readAt g race s.user 0 (arg + LEN_OFF) 4 = none) :
    (observe g race (cryptoChrdevIoctl cmd arg) .start s).2.Contained := by
  rw [ioctl_stages]
  by_cases hallocs : g.Has [0, 1, 2]
  · obtain ⟨w, hcommon, hacc, hw, -⟩ := observe_allocCommon race s hs cmd hallocs
    rw [observe_then _ _ _ _ _ _ _ _ _ hcommon]
    let s1 : Sys σ := { s with mem := commonMem s.mem file.hostFd cmd, sizes := [4, 4, 4, 4] }
    obtain ⟨s', w', hobs, -⟩ :=
      observe_allocObjects_oops (g := g) race s1 w arg hacc rfl (h hallocs)
    exact (contained_oops race w s1 (allocObjects arg) _ s'
      (allocObjects_all (fun _ _ => trivial) arg trivial) (congrArg Prod.fst hobs)).mpr hw
  · obtain ⟨s', w', _, hobs, -⟩ := observe_allocCommon_null (g := g) race s hs cmd hallocs
    exact (contained_oops race .start s (allocCommon cmd) _ s'
      (allocCommon_all (fun _ _ => trivial) cmd) (congrArg Prod.fst hobs)).mpr contained_start

-- Every other call gets to its command.
theorem observe_prepared {file : Crof} (hs : s.Fresh file) (key : List Byte)
    (hallocs : g.Has [0, 1, 2]) (hkey : readAt g race s.user 0 (arg + LEN_OFF) 4 = some key) :
    ∃ w, w.accesses = 3 ∧ w.Contained ∧
      w.deeds = commonDeeds g ++ objectDeeds g arg (fieldAt g race s.user 0 arg LEN_OFF 4)
        (fieldAt g race s.user 1 arg LEN_OFF 4) (fieldAt g race s.user 2 arg LEN_OFF 4) ∧
      observe g race (cryptoChrdevIoctl cmd arg) .start s =
        observe g race (do
            let r ← cmdSgs cmd arg g.objects
            conclude cmd arg (file.found g, g.objects, r)) w
          ({ s with
            mem := objectsMem (commonMem s.mem file.hostFd cmd)
            sizes := racedSizes (fieldAt g race s.user 0 arg LEN_OFF 4)
              (fieldAt g race s.user 1 arg LEN_OFF 4) (fieldAt g race s.user 2 arg LEN_OFF 4)
            }.viewed race s.user 3) := by
  obtain ⟨w, hcommon, hacc, hw, hdeeds⟩ := observe_allocCommon race s hs cmd hallocs
  obtain ⟨w', hobjects, hacc', hw', hdeeds'⟩ := observe_allocObjects race
    { s with mem := commonMem s.mem file.hostFd cmd, sizes := [4, 4, 4, 4] } w s.user arg key
    rfl hacc hkey
  refine ⟨w', hacc', hw'.mpr hw, hdeeds'.trans (by rw [hdeeds]), ?_⟩
  rw [ioctl_stages, observe_then _ _ _ _ _ _ _ _ _ hcommon]
  exact observe_then _ _ _ _ _ _ _ _ _ hobjects

-- The request of a call, before and after.
theorem observe_conclude {file : Crof} (w : Watch σ) (o : Objects) (outSgs inSgs : List Sg)
    (hlock : s.locked = false) (havail : (s.queues file.crdev).avail = [])
    (hused : (s.queues file.crdev).used = []) (hroom : outSgs.length + inSgs.length ≤ 8)
    (hret : g.allocs 3 = true) :
    ∃ w' host queues history,
      let b := ((handleElem g.host g.qemu (ioctlElement outSgs inSgs)).run ⟨s.mem, s.host, []⟩).2
      observe g race (conclude cmd arg (file.found g, o, some (outSgs, inSgs))) w s =
        observe g race (reply cmd arg (file.found g) o) w'
          { s with mem := b.mem, host, queues, history } ∧
      w'.accesses = w.accesses ∧
      (w'.Contained ↔ w.Contained ∧
        (∀ sg ∈ commonSgs ++ outSgs ++ inSgs ++ [⟨3, 4⟩], sg.len ≤ s.sizes.getD sg.block 0) ∧
        (ioctlElement outSgs inSgs).Layout s.mem) := by
  have hsubmit := exec_submit g s file.crdev (commonSgs ++ outSgs ++ inSgs ++ [⟨3, 4⟩])
    (commonSgs.length + outSgs.length) (inSgs.length + 1) hlock havail hused (by
      simp only [commonSgs, List.length_cons, List.length_nil, VQ_SIZE]
      omega)
  have hobs := observe_submit g race w s file.crdev (commonSgs ++ outSgs ++ inSgs ++ [⟨3, 4⟩])
    (commonSgs.length + outSgs.length) (inSgs.length + 1) hlock
  rw [hsubmit] at hobs
  have hptr : (file.found g).hostReturnVal = some 3 := if_pos hret
  have hsg : exec g (sgInitOne (file.found g).hostReturnVal 4) s = .done ⟨3, 4⟩ s := by
    rw [hptr]
    rfl
  refine ⟨_, _, _, _, (observe_mute_then g race w s _ _ _ _ (mute_sgInitOne _ _) hsg).trans
    (observe_then g race w s _ _ _ _ _ hobs), rfl, ?_⟩
  simp only [contained_note, Deed.Inside, and_true]
  exact Iff.rfl

theorem all_kfree {P : Deed → Prop} (p : Ptr) (h : P (.free p)) : (kfree p).All P := ⟨h, trivial⟩

theorem all_copyToUser {P : Deed → Prop} (addr : Nat) (p : Ptr) (n : Nat)
    (h : ∀ block, P (.copyOut addr block n)) : (copyToUser addr p n).All P :=
  (all_deref p).bind fun block => ⟨h block, fun _ => trivial⟩

theorem copyBack_all {P : Deed → Prop} (hcopy : ∀ addr block n, P (.copyOut addr block n))
    (hfetch : ∀ addr n, P (.fetch addr n)) (o : Objects) : (copyBack cmd arg o).All P := by
  unfold copyBack
  repeat' first
    | exact all_copyToUser _ _ _ fun _ => hcopy _ _ _ | exact all_loadUser _ _ (hfetch _ _)
    | exact all_load _ _ _ | exact all_pure _
    | refine Prog.All.bind ?_ fun _ => ?_
    | split

-- What a call frees after its copy back.
def Common.freed (c : Common) (o : Objects) : List Ptr :=
  [c.syscallType, c.hostFd, c.ioctlCmd, o.sessionKey, o.sessionOp, o.sesId, o.cryptOp, o.src, o.iv, o.dst]

theorem cleanup_all {P : Deed → Prop} (c : Common) (o : Objects)
    (h : ∀ p ∈ c.freed o, P (.free p)) (ok : Bool) :
    (if ok = true then do
        kfree c.syscallType
        kfree c.hostFd
        kfree c.ioctlCmd
        freeObjects o
        let ret ← load c.hostReturnVal 0 4
        return fromLeInt ret
      else return -EFAULT : Prog Int).All P := by
  split
  · unfold freeObjects
    repeat' first
      | exact all_kfree _ (h _ (by simp [Common.freed])) | exact all_load _ _ _ | exact all_pure _
      | refine Prog.All.bind ?_ fun _ => ?_
  · exact all_pure _

theorem reply_all {P : Deed → Prop} (hcopy : ∀ addr block n, P (.copyOut addr block n))
    (hfetch : ∀ addr n, P (.fetch addr n)) (c : Common) (o : Objects)
    (hfree : ∀ p ∈ c.freed o, P (.free p)) : (reply cmd arg c o).All P :=
  (copyBack_all cmd arg hcopy hfetch o).bind fun ok => cleanup_all c o hfree ok

-- After the copy back the objects are freed and nothing else is touched.
theorem contained_reply (w : Watch σ) (c : Common) (o : Objects) :
    (observe g race (reply cmd arg c o) w s).2.Contained ↔
      (observe g race (copyBack cmd arg o) w s).2.Contained :=
  contained_then_harmless race w s _ _ fun ok => cleanup_all c o (fun _ _ => trivial) ok

theorem observe_copyToUser (w : Watch σ) (addr block n : Nat) :
    (observe g race (copyToUser addr (some block) n) w s).2 =
      w.touch (.copyOut addr block n) (s.raced race w.accesses) := by
  change (observe g race (.copyToUser addr block n .ret) w s).2 = _
  simp only [observe]
  cases g.space.copyTo _ _ _ <;> rfl

theorem contained_back_session (w : Watch σ) (o : Objects) (ho : o.sessionOp = some 4) :
    (observe g race (copyBack CIOCGSESSION arg o) w s).2.Contained ↔
      w.Contained ∧ SESSION_OP_SIZE ≤ s.sizes.getD 4 0 := by
  rw [copyBack, if_pos rfl, ho, observe_copyToUser, contained_touch]
  exact Iff.rfl

theorem contained_back_crypt (w : Watch σ) (o : Objects) (user : Mem Byte) (k k' : Nat)
    (data : List Byte) (ho : o.cryptOp = some 7 ∧ o.dst = some 10) (hk : w.accesses = k)
    (h : readAt g race user k' arg CRYPT_OP_SIZE = some data) :
    (observe g race (copyBack CIOCCRYPT arg o) w (s.viewed race user k)).2.Contained ↔
      w.Contained ∧ fromLe (Mem.load s.mem ⟨7, LEN_OFF⟩ 4) ≤ s.sizes.getD 10 0 := by
  rw [copyBack, if_neg crypt_ne_gsession, if_pos rfl]
  obtain ⟨w', hobs, hacc, hw⟩ :=
    observe_field w s user k hk arg CRYPT_OP_SIZE k' DST_OFF 8 data h (by decide)
      (fun dst => do
        let len ← load o.cryptOp LEN_OFF 4
        copyToUser dst o.dst (fromLe len))
  rw [hobs, ho.1, ho.2, observe_mute_then _ _ _ _ _ _ _ _ (mute_load _ _ _) (exec_load g _ 7 LEN_OFF 4),
    observe_copyToUser, contained_touch, hw]
  exact Iff.rfl

-- A request is contained when its lists are, and what comes back from it.
theorem contained_request {file : Crof} (w : Watch σ) (o : Objects) (outSgs inSgs : List Sg)
    (hlock : s.locked = false) (havail : (s.queues file.crdev).avail = [])
    (hused : (s.queues file.crdev).used = []) (hroom : outSgs.length + inSgs.length ≤ 8) (P : Prop)
    (hback : ∀ (w' : Watch σ) host queues history, w'.accesses = w.accesses →
      let b := ((handleElem g.host g.qemu (ioctlElement outSgs inSgs)).run ⟨s.mem, s.host, []⟩).2
      ((observe g race (copyBack cmd arg o) w'
        { s with mem := b.mem, host, queues, history }).2.Contained ↔ w'.Contained ∧ P)) :
    (observe g race (conclude cmd arg (file.found g, o, some (outSgs, inSgs))) w s).2.Contained ↔
      w.Contained ∧ (g.allocs 3 = true →
        ((∀ sg ∈ commonSgs ++ outSgs ++ inSgs ++ [⟨3, 4⟩], sg.len ≤ s.sizes.getD sg.block 0) ∧
          (ioctlElement outSgs inSgs).Layout s.mem) ∧ P) := by
  by_cases h3 : g.allocs 3 = true
  · obtain ⟨w', host, queues, history, hobs, hacc, hw⟩ := observe_conclude race s cmd arg w o outSgs
      inSgs hlock havail hused hroom h3
    rw [hobs]
    refine (contained_reply race _ cmd arg w' _ o).trans ((hback w' host queues history hacc).trans ?_)
    rw [hw, and_assoc]
    simp [h3]
  · have hptr : (file.found g).hostReturnVal = none := if_neg h3
    have hstop := observe_mute_oops g race w s (sgInitOne (file.found g).hostReturnVal 4)
      (fun sg => do
        submit (file.found g).crdev ((file.found g).sgs ++ outSgs ++ inSgs ++ [sg])
          ((file.found g).sgs.length + outSgs.length) (inSgs.length + 1)
        reply cmd arg (file.found g) o) s (mute_sgInitOne _ _) (by rw [hptr]; rfl)
    rw [conclude, hstop]
    simp [h3]

end Stages

section Layouts

variable (m0 : Mem Byte) (fd : Int) (bytes : List Byte)

-- An entry that the element of an ioctl has.
theorem covers_out (outSgs inSgs : List Sg) (i n : Nat) (hi : i < commonSgs.length + outSgs.length)
    (hn : n ≤ ((ioctlElement outSgs inSgs).outSg i).len) :
    (ioctlElement outSgs inSgs).Covers .out i n := ⟨hi, hn⟩

theorem covers_in (outSgs inSgs : List Sg) (i n : Nat) (hi : i < inSgs.length + 1)
    (hn : n ≤ ((ioctlElement outSgs inSgs).inSg i).len) :
    (ioctlElement outSgs inSgs).Covers .in i n := ⟨hi, hn⟩

-- The lengths in a request are those of its lists.
theorem session_layout (key : List Byte) (hlen : bytes.length = SESSION_OP_SIZE) :
    (sessionElement (SessionOp.parse bytes).keylen).Layout
      (sessionObjects (objectsMem (commonMem m0 fd CIOCGSESSION)) bytes key) := by
  obtain ⟨htype, hcmd, -⟩ :=
    session_decoded flatQemu m0 fd bytes key (SessionOp.parse bytes).keylen
  have hcopied := session_copied (objectsMem (commonMem m0 fd CIOCGSESSION)) bytes key hlen
  unfold VirtQueueElement.Layout
  rw [htype, hcmd, if_neg ioctl_ne_open, if_neg ioctl_ne_close, if_pos rfl, if_pos rfl]
  exact ⟨covers_out _ _ 0 4 (by simp [commonSgs]) (le_refl 4),
    covers_out _ _ 2 4 (by simp [commonSgs]) (le_refl 4),
    covers_out _ _ 1 4 (by simp [commonSgs]) (le_refl 4),
    covers_out _ _ 3 _ (by simp [commonSgs]) hcopied.le,
    covers_in _ _ 0 _ (by simp) (le_refl SESSION_OP_SIZE), covers_in _ _ 1 4 (by simp) (le_refl 4)⟩

theorem crypt_layout (src iv : List Byte) (hlen : bytes.length = CRYPT_OP_SIZE) :
    (cryptElement (CryptOp.parse bytes).len).Layout
      (cryptObjects (objectsMem (commonMem m0 fd CIOCCRYPT)) bytes src iv) := by
  obtain ⟨htype, hcmd, -⟩ :=
    crypt_decoded flatQemu m0 fd bytes src iv (CryptOp.parse bytes).len
  have hcopied := crypt_copied (objectsMem (commonMem m0 fd CIOCCRYPT)) bytes src iv hlen
  unfold VirtQueueElement.Layout
  rw [htype, hcmd, if_neg ioctl_ne_open, if_neg ioctl_ne_close, if_pos rfl, if_neg crypt_ne_gsession,
    if_neg crypt_ne_fsession, if_pos rfl]
  exact ⟨covers_out _ _ 0 4 (by simp [commonSgs]) (le_refl 4),
    covers_out _ _ 2 4 (by simp [commonSgs]) (le_refl 4),
    covers_out _ _ 1 4 (by simp [commonSgs]) (le_refl 4),
    covers_out _ _ 3 _ (by simp [commonSgs]) (le_refl CRYPT_OP_SIZE),
    covers_out _ _ 4 _ (by simp [commonSgs]) hcopied.le,
    covers_out _ _ 5 _ (by simp [commonSgs]) (le_refl IV_SIZE),
    covers_in _ _ 0 _ (by simp) hcopied.le, covers_in _ _ 1 4 (by simp) (le_refl 4)⟩

theorem fsession_layout (ses : List Byte) :
    (ioctlElement [⟨6, 4⟩] []).Layout
      (Mem.store (objectsMem (commonMem m0 fd CIOCFSESSION)) ⟨6, 0⟩ ses) := by
  obtain ⟨htype, hcmd, -⟩ := fsession_decoded m0 fd ses
  unfold VirtQueueElement.Layout
  rw [htype, hcmd, if_neg ioctl_ne_open, if_neg ioctl_ne_close, if_pos rfl,
    if_neg fsession_ne_gsession, if_pos rfl]
  exact ⟨covers_out _ _ 0 4 (by simp [commonSgs]) (le_refl 4),
    covers_out _ _ 2 4 (by simp [commonSgs]) (le_refl 4),
    covers_out _ _ 1 4 (by simp [commonSgs]) (le_refl 4),
    covers_out _ _ 3 4 (by simp [commonSgs]) (le_refl 4), covers_in _ _ 0 4 (by simp) (le_refl 4)⟩

theorem unknown_layout (cmd : Nat) (hcmd : cmd < 2 ^ 32) (h : ¬Known cmd) :
    (ioctlElement [] []).Layout (objectsMem (commonMem m0 fd cmd)) := by
  obtain ⟨htype, hioctl, -⟩ := (encoded_commonMem m0 fd cmd).objects.decoded [⟨3, 4⟩] 3 1 hcmd
  change (ioctlElement [] []).syscallType _ = _ at htype
  change (ioctlElement [] []).ioctlCmd _ = _ at hioctl
  unfold Known at h
  push Not at h
  unfold VirtQueueElement.Layout
  rw [htype, hioctl, if_neg ioctl_ne_open, if_neg ioctl_ne_close, if_pos rfl, if_neg h.1,
    if_neg h.2.1, if_neg h.2.2]
  exact ⟨covers_out _ _ 0 4 (by simp [commonSgs]) (le_refl 4),
    covers_out _ _ 2 4 (by simp [commonSgs]) (le_refl 4), trivial⟩

-- The lists fit when the lengths in the structures do.
theorem session_lists (len room src dst : Nat) :
    (∀ sg ∈ commonSgs ++ [⟨5, len⟩] ++ [⟨4, SESSION_OP_SIZE⟩] ++ [⟨3, 4⟩],
      sg.len ≤ (racedSizes room src dst).getD sg.block 0) ↔ len ≤ room := by
  simp [commonSgs, racedSizes, SESSION_OP_SIZE]

theorem crypt_lists (len room src dst : Nat) :
    (∀ sg ∈ commonSgs ++ [⟨7, CRYPT_OP_SIZE⟩, ⟨8, len⟩, ⟨9, IV_SIZE⟩] ++ [⟨10, len⟩] ++ [⟨3, 4⟩],
      sg.len ≤ (racedSizes room src dst).getD sg.block 0) ↔ len ≤ src ∧ len ≤ dst := by
  simp [commonSgs, racedSizes, CRYPT_OP_SIZE, IV_SIZE]

theorem fsession_lists (room src dst : Nat) :
    ∀ sg ∈ commonSgs ++ [⟨6, 4⟩] ++ [] ++ [⟨3, 4⟩], sg.len ≤ (racedSizes room src dst).getD sg.block 0 := by
  simp [commonSgs, racedSizes]

theorem unknown_lists (room src dst : Nat) :
    ∀ sg ∈ commonSgs ++ [] ++ [] ++ [⟨3, 4⟩], sg.len ≤ (racedSizes room src dst).getD sg.block 0 := by
  simp [commonSgs, racedSizes]

end Layouts

section Commands

variable (race : Nat → Mem Byte → Mem Byte) (s : Sys σ) (user : Mem Byte) (arg : Nat)

-- The state in which a call turns to its command.
def Sys.prepared (s : Sys σ) (file : Crof) (cmd : Nat) (sizes : List Nat) : Sys σ :=
  { s with mem := objectsMem (commonMem s.mem file.hostFd cmd), sizes }

-- The second load of `keylen` is copied to an object that has the size of the first,
-- and the one in the structure is what the host is told.
def SessionFits (g : Guest σ) (room : Nat) : Prop :=
  g.Has [4, 5] → ∀ op, readAt g race user 3 arg SESSION_OP_SIZE = some op →
    fieldAt g race user 5 arg LEN_OFF 4 ≤ room ∧
    (g.allocs 3 = true → ∀ key,
      readAt g race user 6 (fieldAt g race user 4 arg KEY_OFF 8)
        (fieldAt g race user 5 arg LEN_OFF 4) = some key →
      (SessionOp.parse op).keylen ≤ room)

-- With both objects filled only the length in the structure is left to fit.
theorem contained_session_request {file : Crof} (hs : s.Fresh file) (w : Watch σ)
    (k room src dst : Nat) (op key : List Byte) (h4 : g.allocs 4 = true)
    (hop : op.length = SESSION_OP_SIZE) :
    (observe g race (conclude CIOCGSESSION arg (file.found g, g.objects,
        some ([⟨5, (SessionOp.parse op).keylen⟩], [⟨4, SESSION_OP_SIZE⟩]))) w
      (Sys.viewed { s.prepared file CIOCGSESSION (racedSizes room src dst) with
        mem := sessionObjects (objectsMem (commonMem s.mem file.hostFd CIOCGSESSION)) op key }
        race user k)).2.Contained ↔
      w.Contained ∧ (g.allocs 3 = true → (SessionOp.parse op).keylen ≤ room) := by
  set s1 := Sys.viewed { s.prepared file CIOCGSESSION (racedSizes room src dst) with
    mem := sessionObjects (objectsMem (commonMem s.mem file.hostFd CIOCGSESSION)) op key } race user k
  have hsize : SESSION_OP_SIZE ≤ s1.sizes.getD 4 0 := le_refl _
  have hlayout := session_layout s.mem file.hostFd op key hop
  have hlists := session_lists (SessionOp.parse op).keylen room src dst
  refine (contained_request (g := g) race s1 CIOCGSESSION arg w g.objects _ _ hs.locked hs.avail
    hs.used (by simp) True fun w' _ _ _ _ => ?_).trans ?_
  · exact (contained_back_session race _ arg w' g.objects (if_pos h4)).trans
      (and_congr_right fun _ => iff_true_intro hsize)
  · refine and_congr_right fun _ => imp_congr_right fun _ => ?_
    exact (and_iff_left trivial).trans ((and_iff_left hlayout).trans hlists)

theorem contained_session {file : Crof} (hs : s.Fresh file) (w : Watch σ) (hacc : w.accesses = 3)
    (hw : w.Contained) (room src dst : Nat) :
    (observe g race (do
        let r ← cmdSgs CIOCGSESSION arg g.objects
        conclude CIOCGSESSION arg (file.found g, g.objects, r)) w
      ((s.prepared file CIOCGSESSION (racedSizes room src dst)).viewed race user 3)).2.Contained ↔
      SessionFits race user arg g room := by
  set s0 := s.prepared file CIOCGSESSION (racedSizes room src dst)
  have hsizes4 : s0.sizes.getD 4 0 = SESSION_OP_SIZE := rfl
  have hsizes5 : s0.sizes.getD 5 0 = room := rfl
  unfold SessionFits cmdSgs
  simp only [if_true, Prog.bind_assoc]
  by_cases h4 : g.allocs 4 = true
  swap
  · have hptr : g.objects.sessionOp = none := if_neg h4
    rw [hptr, observe_copyFromUser_null]
    exact iff_of_true hw fun hallocs => absurd (hallocs 4 (by simp)) h4
  rw [show g.objects.sessionOp = some 4 from if_pos h4]
  obtain ⟨w1, hobs, hacc1, hw1⟩ := observe_copyIn w s0 user 3 hacc 4 arg SESSION_OP_SIZE _ hsizes4.ge
  rw [hobs]
  cases hop : readAt g race user 3 arg SESSION_OP_SIZE with
  | none => exact iff_of_true (hw1.mpr hw) (by simp)
  | some op =>
      simp only [if_true, Prog.bind_assoc]
      set s1 : Sys σ := { s0 with mem := Mem.store s0.mem ⟨4, 0⟩ op }
      obtain ⟨w2, hobs, hacc2, hw2⟩ :=
        observe_field w1 s1 user 4 hacc1 arg _ 3 KEY_OFF 8 op hop (by decide) _
      rw [hobs]
      obtain ⟨w3, hobs, hacc3, hw3⟩ :=
        observe_field w2 s1 user 5 hacc2 arg _ 3 LEN_OFF 4 op hop (by decide) _
      rw [hobs]
      generalize fieldAt g race user 4 arg KEY_OFF 8 = keyptr
      generalize fieldAt g race user 5 arg LEN_OFF 4 = keylen
      by_cases h5 : g.allocs 5 = true
      swap
      · rw [show g.objects.sessionKey = none from if_neg h5, observe_copyFromUser_null]
        exact iff_of_true (hw3.mpr (hw2.mpr (hw1.mpr hw))) fun h => absurd (h 5 (by simp)) h5
      have hboth : g.Has [4, 5] := by simp [Guest.Has, h4, h5]
      rw [show g.objects.sessionKey = some 5 from if_pos h5]
      by_cases hfit : keylen ≤ room
      swap
      · refine iff_of_false (observe_copyIn_long w3 _ 5 keyptr keylen _ ?_) fun h =>
          hfit (h hboth op rfl).1
        exact fun h => hfit (h.trans hsizes5.le)
      obtain ⟨w4, hobs, hacc4, hw4⟩ :=
        observe_copyIn w3 s1 user 6 hacc3 5 keyptr keylen _ (hfit.trans hsizes5.ge)
      rw [hobs]
      cases hkey : readAt g race user 6 keyptr keylen with
      | none =>
          exact iff_of_true (hw4.mpr (hw3.mpr (hw2.mpr (hw1.mpr hw)))) fun _ op' hop' => ⟨hfit, by simp⟩
      | some key =>
          simp only [if_true, Prog.bind_assoc]
          rw [observe_mute_then _ _ _ _ _ _ _ _ (mute_load _ _ _) (exec_load g _ 4 LEN_OFF 4),
            observe_mute_then _ _ _ _ _ _ _ _ (mute_sgInitOne _ _) (exec_sgInitOne g _ 5 _),
            observe_mute_then _ _ _ _ _ _ _ _ (mute_sgInitOne _ _) (exec_sgInitOne g _ 4 _)]
          rw [observe_pure_then]
          have hblen := Space.copyFrom_length _ _ _ _ _ hop
          have hcopied : fromLe (Mem.load (Mem.store s1.mem ⟨5, 0⟩ key) ⟨4, LEN_OFF⟩ 4) =
              (SessionOp.parse op).keylen := session_copied s0.mem op key hblen
          change (observe g race (conclude CIOCGSESSION arg (_, _, some ([⟨5, fromLe (Mem.load
            (Mem.store s1.mem ⟨5, 0⟩ key) ⟨4, LEN_OFF⟩ 4)⟩], _))) w4 _).2.Contained ↔ _
          rw [hcopied]
          refine (contained_session_request race s user arg hs w4 7 room src dst op key h4 hblen).trans ?_
          constructor
          · intro h _ op' hop'
            cases hop'
            exact ⟨hfit, fun h3 _ _ => h.2 h3⟩
          · intro h
            exact ⟨hw4.mpr (hw3.mpr (hw2.mpr (hw1.mpr hw))), fun h3 => (h hboth op rfl).2 h3 key rfl⟩

-- The length that the backend leaves in the structure of a request.
def returnedLen (g : Guest σ) (s : Sys σ) (file : Crof) (op src iv : List Byte) : Nat :=
  let m := cryptObjects (objectsMem (commonMem s.mem file.hostFd CIOCCRYPT)) op src iv
  let b := ((handleElem g.host g.qemu (cryptElement (CryptOp.parse op).len)).run ⟨m, s.host, []⟩).2
  fromLe (Mem.load b.mem ⟨7, LEN_OFF⟩ 4)

-- `src` and `dst` have the sizes of two loads of `len`, the payload has that of a
-- third, and the lists and the copy back go by the structure.
def CryptFits (g : Guest σ) (file : Crof) (room roomDst : Nat) : Prop :=
  g.Has [7, 8] → ∀ op, readAt g race user 3 arg CRYPT_OP_SIZE = some op →
    fieldAt g race user 5 arg LEN_OFF 4 ≤ room ∧
    (g.Has [3, 9, 10] → ∀ src iv,
      readAt g race user 6 (fieldAt g race user 4 arg SRC_OFF 8)
        (fieldAt g race user 5 arg LEN_OFF 4) = some src →
      readAt g race user 8 (fieldAt g race user 7 arg IV_OFF 8) IV_SIZE = some iv →
      ((CryptOp.parse op).len ≤ room ∧ (CryptOp.parse op).len ≤ roomDst) ∧
        returnedLen g s file op src iv ≤ roomDst)

-- With the three objects filled, the length in the structure and the one that comes
-- back are left to fit. The copy back loads the address of the result once more.
theorem contained_crypt_request {file : Crof} (hs : s.Fresh file) (w : Watch σ)
    (k key room roomDst : Nat) (op src iv : List Byte) (hk : w.accesses = k)
    (ho : g.Has [7, 10]) (hop : readAt g race user 3 arg CRYPT_OP_SIZE = some op) :
    (observe g race (conclude CIOCCRYPT arg (file.found g, g.objects,
        some ([⟨7, CRYPT_OP_SIZE⟩, ⟨8, (CryptOp.parse op).len⟩, ⟨9, IV_SIZE⟩],
          [⟨10, (CryptOp.parse op).len⟩]))) w
      (Sys.viewed { s.prepared file CIOCCRYPT (racedSizes key room roomDst) with
        mem := cryptObjects (objectsMem (commonMem s.mem file.hostFd CIOCCRYPT)) op src iv }
        race user k)).2.Contained ↔
      w.Contained ∧ (g.allocs 3 = true →
        ((CryptOp.parse op).len ≤ room ∧ (CryptOp.parse op).len ≤ roomDst) ∧
          returnedLen g s file op src iv ≤ roomDst) := by
  let s1 : Sys σ := { s.prepared file CIOCCRYPT (racedSizes key room roomDst) with
    mem := cryptObjects (objectsMem (commonMem s.mem file.hostFd CIOCCRYPT)) op src iv }
  have hlayout := crypt_layout s.mem file.hostFd op src iv (Space.copyFrom_length _ _ _ _ _ hop)
  have hlists := crypt_lists (CryptOp.parse op).len key room roomDst
  refine (contained_request (g := g) race (s1.viewed race user k) CIOCCRYPT arg w g.objects _ _
    hs.locked hs.avail hs.used (by simp) (returnedLen g s file op src iv ≤ roomDst)
    fun w' host queues history hacc => ?_).trans ?_
  · exact contained_back_crypt race { s1 with mem := _, host, queues, history } arg w' g.objects user
      k 3 op ⟨ho.ptr 7 (by simp), ho.ptr 10 (by simp)⟩ (hacc.trans hk) hop
  · refine and_congr_right fun _ => imp_congr_right fun _ => and_congr_left fun _ => ?_
    exact (and_iff_left hlayout).trans hlists

theorem contained_crypt {file : Crof} (hs : s.Fresh file) (w : Watch σ) (hacc : w.accesses = 3)
    (hw : w.Contained) (key room roomDst : Nat) :
    (observe g race (do
        let r ← cmdSgs CIOCCRYPT arg g.objects
        conclude CIOCCRYPT arg (file.found g, g.objects, r)) w
      ((s.prepared file CIOCCRYPT (racedSizes key room roomDst)).viewed race user 3)).2.Contained ↔
      CryptFits race s user arg g file room roomDst := by
  set s0 := s.prepared file CIOCCRYPT (racedSizes key room roomDst)
  have hsizes7 : s0.sizes.getD 7 0 = CRYPT_OP_SIZE := rfl
  have hsizes8 : s0.sizes.getD 8 0 = room := rfl
  have hsizes9 : s0.sizes.getD 9 0 = IV_SIZE := rfl
  unfold CryptFits cmdSgs
  simp only [crypt_ne_gsession, crypt_ne_fsession, if_true, if_false, Prog.bind_assoc]
  by_cases h7 : g.allocs 7 = true
  swap
  · rw [show g.objects.cryptOp = none from if_neg h7, observe_copyFromUser_null]
    exact iff_of_true hw fun hallocs => absurd (hallocs 7 (by simp)) h7
  rw [show g.objects.cryptOp = some 7 from if_pos h7]
  obtain ⟨w1, hobs, hacc1, hw1⟩ := observe_copyIn w s0 user 3 hacc 7 arg CRYPT_OP_SIZE _ hsizes7.ge
  rw [hobs]
  cases hop : readAt g race user 3 arg CRYPT_OP_SIZE with
  | none => exact iff_of_true (hw1.mpr hw) (by simp)
  | some op =>
      simp only [if_true, Prog.bind_assoc]
      set s1 : Sys σ := { s0 with mem := Mem.store s0.mem ⟨7, 0⟩ op }
      obtain ⟨w2, hobs, hacc2, hw2⟩ :=
        observe_field w1 s1 user 4 hacc1 arg _ 3 SRC_OFF 8 op hop (by decide) _
      rw [hobs]
      obtain ⟨w3, hobs, hacc3, hw3⟩ :=
        observe_field w2 s1 user 5 hacc2 arg _ 3 LEN_OFF 4 op hop (by decide) _
      rw [hobs]
      generalize fieldAt g race user 4 arg SRC_OFF 8 = srcptr
      generalize fieldAt g race user 5 arg LEN_OFF 4 = len
      have hw3' : w3.Contained := hw3.mpr (hw2.mpr (hw1.mpr hw))
      by_cases h8 : g.allocs 8 = true
      swap
      · rw [show g.objects.src = none from if_neg h8, observe_copyFromUser_null]
        exact iff_of_true hw3' fun h => absurd (h 8 (by simp)) h8
      have hboth : g.Has [7, 8] := by simp [Guest.Has, h7, h8]
      rw [show g.objects.src = some 8 from if_pos h8]
      by_cases hfit : len ≤ room
      swap
      · refine iff_of_false (observe_copyIn_long w3 _ 8 srcptr len _ ?_) fun h =>
          hfit (h hboth op rfl).1
        exact fun h => hfit (h.trans hsizes8.le)
      obtain ⟨w4, hobs, hacc4, hw4⟩ :=
        observe_copyIn w3 s1 user 6 hacc3 8 srcptr len _ (hfit.trans hsizes8.ge)
      rw [hobs]
      cases hsrc : readAt g race user 6 srcptr len with
      | none => exact iff_of_true (hw4.mpr hw3') fun _ op' _ => ⟨hfit, by simp⟩
      | some src =>
          simp only [if_true, Prog.bind_assoc]
          set s2 : Sys σ := { s1 with mem := Mem.store s1.mem ⟨8, 0⟩ src }
          obtain ⟨w5, hobs, hacc5, hw5⟩ :=
            observe_field w4 s2 user 7 hacc4 arg _ 3 IV_OFF 8 op hop (by decide) _
          rw [hobs]
          generalize fieldAt g race user 7 arg IV_OFF 8 = ivptr
          have hw5' : w5.Contained := hw5.mpr (hw4.mpr hw3')
          by_cases h9 : g.allocs 9 = true
          swap
          · rw [show g.objects.iv = none from if_neg h9, observe_copyFromUser_null]
            exact iff_of_true hw5' fun _ op' _ =>
              ⟨hfit, fun h => absurd (h 9 (by simp)) h9⟩
          rw [show g.objects.iv = some 9 from if_pos h9]
          obtain ⟨w6, hobs, hacc6, hw6⟩ :=
            observe_copyIn w5 s2 user 8 hacc5 9 ivptr IV_SIZE _ hsizes9.ge
          rw [hobs]
          cases hiv : readAt g race user 8 ivptr IV_SIZE with
          | none => exact iff_of_true (hw6.mpr hw5') fun _ op' _ => ⟨hfit, by simp⟩
          | some iv =>
              simp only [if_true, Prog.bind_assoc]
              rw [observe_mute_then _ _ _ _ _ _ _ _ (mute_sgInitOne _ _) (exec_sgInitOne g _ 7 _),
                observe_mute_then _ _ _ _ _ _ _ _ (mute_load _ _ _) (exec_load g _ 7 LEN_OFF 4),
                observe_mute_then _ _ _ _ _ _ _ _ (mute_sgInitOne _ _) (exec_sgInitOne g _ 8 _),
                observe_mute_then _ _ _ _ _ _ _ _ (mute_sgInitOne _ _) (exec_sgInitOne g _ 9 _)]
              by_cases h10 : g.allocs 10 = true
              swap
              · rw [show g.objects.dst = none from if_neg h10,
                  observe_mute_oops _ _ _ _ _ _ _ (mute_sgInitOne _ _) rfl]
                exact iff_of_true (hw6.mpr hw5') fun _ op' _ =>
                  ⟨hfit, fun h => absurd (h 10 (by simp)) h10⟩
              rw [show g.objects.dst = some 10 from if_pos h10,
                observe_mute_then _ _ _ _ _ _ _ _ (mute_sgInitOne _ _) (exec_sgInitOne g _ 10 _),
                observe_pure_then]
              have hdst : g.Has [7, 10] := by simp [Guest.Has, h7, h10]
              have hcopied : fromLe (Mem.load (cryptObjects s0.mem op src iv) ⟨7, LEN_OFF⟩ 4) =
                  (CryptOp.parse op).len :=
                crypt_copied s0.mem op src iv (Space.copyFrom_length _ _ _ _ _ hop)
              change (observe g race (conclude CIOCCRYPT arg (_, _, some
                ([_, ⟨8, fromLe (Mem.load (cryptObjects s0.mem op src iv) ⟨7, LEN_OFF⟩ 4)⟩, _],
                  [⟨10, fromLe (Mem.load (cryptObjects s0.mem op src iv) ⟨7, LEN_OFF⟩ 4)⟩]))) w6
                _).2.Contained ↔ _
              rw [hcopied]
              refine (contained_crypt_request race s user arg hs w6 9 key room roomDst op src iv hacc6
                hdst hop).trans ?_
              constructor
              · intro h _ op' hop'
                cases hop'
                refine ⟨hfit, fun hallocs src' iv' hsrc' hiv' => ?_⟩
                cases hsrc'
                cases hiv'
                exact h.2 (hallocs 3 (by simp))
              · intro h
                refine ⟨hw6.mpr hw5', fun h3 => ?_⟩
                exact (h hboth op rfl).2 (by simp [Guest.Has, h3, h9, h10]) src iv rfl rfl

theorem contained_fsession {file : Crof} (hs : s.Fresh file) (w : Watch σ) (hacc : w.accesses = 3)
    (hw : w.Contained) (key src dst : Nat) :
    (observe g race (do
        let r ← cmdSgs CIOCFSESSION arg g.objects
        conclude CIOCFSESSION arg (file.found g, g.objects, r)) w
      ((s.prepared file CIOCFSESSION (racedSizes key src dst)).viewed race user 3)).2.Contained := by
  set s0 := s.prepared file CIOCFSESSION (racedSizes key src dst)
  have hsizes6 : s0.sizes.getD 6 0 = 4 := rfl
  unfold cmdSgs
  simp only [fsession_ne_gsession, if_true, if_false, Prog.bind_assoc]
  by_cases h6 : g.allocs 6 = true
  swap
  · rw [show g.objects.sesId = none from if_neg h6, observe_copyFromUser_null]
    exact hw
  rw [show g.objects.sesId = some 6 from if_pos h6]
  obtain ⟨w1, hobs, hacc1, hw1⟩ := observe_copyIn w s0 user 3 hacc 6 arg 4 _ hsizes6.ge
  rw [hobs]
  cases hses : readAt g race user 3 arg 4 with
  | none => exact hw1.mpr hw
  | some ses =>
      simp only [if_true, Prog.bind_assoc]
      rw [observe_mute_then _ _ _ _ _ _ _ _ (mute_sgInitOne _ _) (exec_sgInitOne g _ 6 _),
        observe_pure_then]
      exact (contained_request (g := g) race
        (Sys.viewed { s0 with mem := Mem.store s0.mem ⟨6, 0⟩ ses } race user 4) CIOCFSESSION arg w1
        g.objects [⟨6, 4⟩] [] hs.locked hs.avail hs.used (by simp) True
        (fun w' _ _ _ _ => (and_iff_left trivial).symm)).mpr
        ⟨hw1.mpr hw, fun _ => ⟨⟨fsession_lists key src dst, fsession_layout s.mem file.hostFd ses⟩,
          trivial⟩⟩

theorem contained_unknown {file : Crof} (hs : s.Fresh file) (w : Watch σ) (hw : w.Contained)
    (cmd : Nat) (hcmd : cmd < 2 ^ 32) (hknown : ¬Known cmd) (key src dst : Nat) :
    (observe g race (do
        let r ← cmdSgs cmd arg g.objects
        conclude cmd arg (file.found g, g.objects, r)) w
      ((s.prepared file cmd (racedSizes key src dst)).viewed race user 3)).2.Contained := by
  have hback : copyBack cmd arg g.objects = pure true := by
    unfold Known at hknown
    push Not at hknown
    rw [copyBack, if_neg hknown.1, if_neg hknown.2.2]
  rw [cmdSgs_unknown cmd arg _ hknown, observe_pure_then]
  refine (contained_request (g := g) race
    ((s.prepared file cmd (racedSizes key src dst)).viewed race user 3) cmd arg w g.objects [] []
    hs.locked hs.avail hs.used (by simp) True (fun w' _ _ _ _ => ?_)).mpr
    ⟨hw, fun _ => ⟨⟨unknown_lists key src dst, unknown_layout s.mem file.hostFd cmd hcmd hknown⟩,
      trivial⟩⟩
  rw [hback]
  exact (and_iff_left trivial).symm

end Commands

section Main

variable {race : Nat → Mem Byte → Mem Byte} {s : Sys σ} {file : Crof} (hs : s.Fresh file)
include hs

-- The lengths of the reads agree where one of them stands for another.
def LengthsAgree (g : Guest σ) (race : Nat → Mem Byte → Mem Byte) (cmd arg : Nat) (s : Sys σ)
    (file : Crof) : Prop :=
  g.Has [0, 1, 2] →
    (cmd = CIOCGSESSION → SessionFits race s.user arg g (fieldAt g race s.user 0 arg LEN_OFF 4)) ∧
    (cmd = CIOCCRYPT → CryptFits race s s.user arg g file (fieldAt g race s.user 1 arg LEN_OFF 4)
      (fieldAt g race s.user 2 arg LEN_OFF 4))

theorem lengths_contained_iff (cmd arg : Nat) (hcmd : cmd < 2 ^ 32) :
    (observe g race (cryptoChrdevIoctl cmd arg) .start s).2.Contained ↔
      LengthsAgree g race cmd arg s file := by
  unfold LengthsAgree
  by_cases hallocs : g.Has [0, 1, 2]
  swap
  · exact iff_of_true (contained_unprepared race s cmd arg hs fun h => absurd h hallocs)
      fun h => absurd h hallocs
  cases hkey : readAt g race s.user 0 (arg + LEN_OFF) 4 with
  | none =>
      refine iff_of_true (contained_unprepared race s cmd arg hs fun _ => hkey) fun _ => ?_
      have hnone : ∀ size op, LEN_OFF + 4 ≤ size → readAt g race s.user 3 arg size ≠ some op := by
        intro size op hsize hop
        obtain ⟨data, hdata⟩ := readAt_field s.user 3 arg size 0 LEN_OFF 4 op hop hsize
        rw [hkey] at hdata
        cases hdata
      exact ⟨fun _ _ op hop => absurd hop (hnone _ op (by decide)),
        fun _ _ op hop => absurd hop (hnone _ op (by decide))⟩
  | some key =>
      obtain ⟨w, hacc, hw, -, hobs⟩ := observe_prepared race s cmd arg hs key hallocs hkey
      rw [hobs]
      by_cases hg : cmd = CIOCGSESSION
      · subst hg
        refine (contained_session race s s.user arg hs w hacc hw _ _ _).trans ?_
        simp [hallocs, crypt_ne_gsession.symm]
      by_cases hc : cmd = CIOCCRYPT
      · subst hc
        refine (contained_crypt race s s.user arg hs w hacc hw _ _ _).trans ?_
        simp [hallocs]
      refine iff_of_true ?_ fun _ => ⟨fun h => absurd h hg, fun h => absurd h hc⟩
      by_cases hf : cmd = CIOCFSESSION
      · subst hf
        exact contained_fsession race s s.user arg hs w hacc hw _ _ _
      · exact contained_unknown race s s.user arg hs w hw cmd hcmd
          (by rintro (h | h | h) <;> contradiction) _ _ _

end Main

section Threads

theorem view_quiet (user : Mem Byte) (k : Nat) : view (fun _ user => user) user k = user := by
  induction k with
  | zero => rfl
  | succ k ih => exact ih

-- A process with one thread gets the same length from every read.
theorem session_fits_quiet (g : Guest σ) (user : Mem Byte) (arg : Nat) :
    SessionFits (fun _ user => user) user arg g
      (fieldAt g (fun _ user => user) user 0 arg LEN_OFF 4) := by
  intro _ op hop
  have hsame : ∀ k addr n, readAt g (fun _ user => user) user k addr n =
      g.space.copyFrom user addr n := fun k addr n => by rw [readAt, view_quiet]
  have hfield : ∀ k, fieldAt g (fun _ user => user) user k arg LEN_OFF 4 =
      (SessionOp.parse op).keylen := by
    intro k
    rw [hsame] at hop
    exact fieldAt_eq _ _ _ _ _ _
      ((hsame _ _ _).trans (Space.copyFrom_slice _ _ _ _ LEN_OFF 4 _ hop (by decide)))
  rw [hfield 5, hfield 0]
  exact ⟨le_refl _, fun _ _ _ => le_refl _⟩

theorem quiet_session_contained :
    (observe plainGuest (fun _ user => user) (cryptoChrdevIoctl CIOCGSESSION 0x1000) .start
      (plainSys (sessionUser 0) 7 (some ⟨0, 3⟩))).2.Contained := by
  refine (lengths_contained_iff (plainSys_fresh _ _ ⟨0, 3⟩) CIOCGSESSION 0x1000 (by decide)).mpr fun _ => ?_
  exact ⟨fun _ => session_fits_quiet plainGuest _ _, fun h => absurd h crypt_ne_gsession.symm⟩

-- Another thread raises `keylen` between the allocation and the copy of the key.
def raiseKeylen (k : Nat) (user : Mem Byte) : Mem Byte :=
  if k = 5 then Mem.store user ⟨0, 0x1000 + LEN_OFF⟩ (le 4 32) else user

theorem raised_keylen_overflows :
    ¬(observe plainGuest raiseKeylen (cryptoChrdevIoctl CIOCGSESSION 0x1000) .start
      (plainSys (sessionUser 0) 7 (some ⟨0, 3⟩))).2.Contained := by
  intro h
  have hagree := (lengths_contained_iff (plainSys_fresh _ _ ⟨0, 3⟩) CIOCGSESSION 0x1000 (by decide)).mp h
  have hfits := (hagree (fun _ _ => rfl)).1 rfl (fun _ _ => rfl) _ ((flat_maps _ _).copyFrom _)
  have hfield : ∀ k, fieldAt plainGuest raiseKeylen (sessionUser 0) k 0x1000 LEN_OFF 4 =
      fromLe (Mem.load (view raiseKeylen (sessionUser 0) (k + 1)) ⟨0, 0x1000 + LEN_OFF⟩ 4) :=
    fun k => fieldAt_eq _ _ _ _ _ _ ((flat_maps _ _).copyFrom _)
  have hlen := hfits.1
  rw [show (plainSys (sessionUser 0) 7 (some ⟨0, 3⟩)).user = sessionUser 0 from rfl, hfield, hfield] at hlen
  revert hlen
  decide

end Threads

end CryptodevChat.Virtio
