import CryptodevChat.Lib.Inverse
import CryptodevChat.Lib.Ledger
import CryptodevChat.Lib.Run
import CryptodevChat.Virtio.Course

namespace CryptodevChat.Virtio

open Lib (Byte fromLe Mem Run Ledger)

variable {σ : Type}

section Machine

def ENXIO : Int := 6

-- The blocks of the kernel: of a probe, of an open file, and the `i`th one of a
-- call. Probes, removals and calls are numbered as they come.
inductive Block
  | crdev (turn : Nat)
  | crof (turn : Nat)
  | buf (turn i : Nat)
  deriving DecidableEq, Repr

def Block.turn : Block → Nat
  | .crdev turn => turn
  | .crof turn => turn
  | .buf turn _ => turn

-- The driver between two calls. An open file has the number of its open, and a
-- device the one of its probe.
structure Driver (σ : Type) where
  devs : List Nat
  minor : Nat → Nat
  nextMinor : Nat
  files : Nat → Option Crof
  locked : Bool
  queues : Nat → VirtQueue
  host : σ
  turns : Nat
  ledger : Ledger Block

def Driver.boot (x : σ) : Driver σ where
  devs := []
  minor := fun _ => 0
  nextMinor := 0
  files := fun _ => none
  locked := false
  queues := fun _ => ⟨[], [], 0⟩
  host := x
  turns := 0
  ledger := .empty

-- What a call finds: the memory of its process, what its objects held before,
-- and how its allocations, its copies and the host do.
structure Around (σ : Type) where
  guest : Guest σ
  user : Mem Byte
  kernel : Mem Byte

inductive Turn (σ : Type)
  | probe (alloc vq : Bool)
  | remove (v : Nat)
  | call (e : Around σ) (f : Nat) (sys : Syscall)

def Driver.book (d : Driver σ) (allocs frees : List Block) : Driver σ :=
  { d with ledger := d.ledger.book allocs frees }

-- A device without a queue stays allocated.
def Driver.virtconsProbe (d : Driver σ) (alloc vq : Bool) : Int × Driver σ :=
  if alloc then
    let d := d.book [.crdev d.turns] []
    if vq then
      (0, { d with
        devs := d.devs ++ [d.turns]
        minor := Function.update d.minor d.turns d.nextMinor
        nextMinor := (d.nextMinor + 1) % 2 ^ 32 })
    else (- ENXIO, d)
  else (-ENOMEM, d)

def Driver.virtconsRemove (d : Driver σ) (v : Nat) : Driver σ :=
  { d with devs := d.devs.erase v }.book [] [.crdev v]

def Driver.lookup (d : Driver σ) (minor : Nat) : Option Nat :=
  d.devs.find? fun v => d.minor v = minor

def Driver.guest (d : Driver σ) (e : Around σ) : Guest σ := { e.guest with devs := d.lookup }

def Driver.sys (d : Driver σ) (e : Around σ) (f : Nat) : Sys σ where
  mem := e.kernel
  sizes := []
  user := e.user
  crof := d.files f
  locked := d.locked
  queues := d.queues
  host := d.host
  history := []

-- A call on a file that is open, whose device has not been freed; an open makes
-- a new file.
def Driver.admits (d : Driver σ) (f : Nat) : Syscall → Bool
  | .openDev _ => f = d.turns
  | .ioctl cmd _ => cmd < 2 ^ 32 && (d.files f).any fun crof => crof.crdev ∈ d.devs
  | .release => (d.files f).any fun crof => crof.crdev ∈ d.devs

def Watch.allocated (w : Watch σ) : List Nat := w.deeds.filterMap Deed.allocated

def Watch.freed (w : Watch σ) : List Nat := w.deeds.filterMap Deed.freed

-- A call that posts one request and frees its two buffers keeps neither.
theorem buffers_freed {w before : Watch σ} {v numOut numIn : Nat} {sgs : List Sg} {s u u' : Sys σ}
    (htrail : w.trail = before.trail ++ [(.addSgs v sgs numOut numIn, s), (.kick v, u),
      (.free (some 0), u'), (.free (some 1), u')])
    (hallocated : before.allocated = [0, 1]) (hfreed : before.freed = []) :
    w.allocated.Nodup ∧ w.freed = w.allocated := by
  simp only [Watch.allocated, Watch.freed, Watch.deeds] at hallocated hfreed ⊢
  rw [htrail, List.map_append, List.filterMap_append, List.filterMap_append, hallocated, hfreed]
  simp [List.filterMap_cons, Deed.allocated, Deed.freed]

-- A file whose open failed is not installed.
def Syscall.file (ret : Int) (crof : Option Crof) : Syscall → Option Crof
  | .openDev _ => if ret < 0 then none else crof
  | .ioctl _ _ | .release => crof

-- The structure of a file comes and goes with `private_data`.
def crofs (f : Nat) (before after : Option Crof) : List Block :=
  if before.isNone && after.isSome then [.crof f] else []

def Driver.after (d : Driver σ) (f : Nat) (sys : Syscall) (ret : Int) (s : Sys σ) (w : Watch σ) :
    Driver σ :=
  { d.book (w.allocated.map (.buf d.turns) ++ crofs f (d.files f) s.crof)
      (w.freed.map (.buf d.turns) ++ crofs f s.crof (d.files f)) with
    files := Function.update d.files f (sys.file ret s.crof)
    locked := s.locked
    queues := s.queues
    host := s.host }

-- A call that ends in an oops or that never ends is not followed further.
def Driver.call (d : Driver σ) (e : Around σ) (f : Nat) (sys : Syscall) : Option (Driver σ) :=
  match watched (d.guest e) sys.prog (d.sys e f) with
  | (.done ret s, w) => some (d.after f sys ret s w)
  | _ => none

def Driver.next (d : Driver σ) : Driver σ := { d with turns := d.turns + 1 }

def Driver.step (d : Driver σ) : Turn σ → Option (Driver σ)
  | .probe alloc vq => some (d.virtconsProbe alloc vq).2.next
  | .remove v => if v ∈ d.devs then some (d.virtconsRemove v).next else none
  | .call e f sys => if d.admits f sys then (d.call e f sys).map Driver.next else none

end Machine

section Balance

-- One structure for each open file, and one for each device of the list.
def Driver.live (d : Driver σ) : Set Block :=
  {b | (∃ f crof, b = .crof f ∧ d.files f = some crof) ∨ ∃ v ∈ d.devs, b = .crdev v}

@[simp] theorem crdev_live (d : Driver σ) (v : Nat) : .crdev v ∈ d.live ↔ v ∈ d.devs := by
  simp [Driver.live]

@[simp] theorem crof_live (d : Driver σ) (f : Nat) : .crof f ∈ d.live ↔ (d.files f).isSome := by
  simp [Driver.live, Option.isSome_iff_exists]

@[simp] theorem buf_live (d : Driver σ) (turn i : Nat) : .buf turn i ∉ d.live := by
  simp [Driver.live]

def Driver.Balanced (d : Driver σ) : Prop := d.ledger.Balanced d.live

-- A probe that finds its queue once it has its device, and an open that gets
-- beyond its tests. No ioctl frees all that it has allocated.
def Clean (d : Driver σ) : Turn σ → Prop
  | .probe alloc vq => alloc = true → vq = true
  | .remove _ => True
  | .call e _ (.openDev minor) =>
      0 ≤ e.guest.nonseekable ∧ (d.lookup minor).isSome ∧ e.guest.crofAlloc = true
  | .call _ _ (.ioctl _ _) => False
  | .call _ _ .release => True

instance (d : Driver σ) (t : Turn σ) : Decidable (Clean d t) := by
  unfold Clean
  split <;> infer_instance

structure Driver.Kept (d : Driver σ) : Prop where
  balanced : d.Balanced
  below : ∀ b ∈ d.ledger.allocs, b.turn < d.turns
  nodup : d.devs.Nodup
  locked : d.locked = false
  avail : ∀ v, (d.queues v).avail = []
  used : ∀ v, (d.queues v).used = []
  range : ∀ f crof, d.files f = some crof → -0x80000000 ≤ crof.hostFd ∧ crof.hostFd < 0x80000000

theorem kept_boot (x : σ) : (Driver.boot x).Kept where
  balanced := by
    have hlive : (Driver.boot x).live = ∅ := by
      ext b
      simp [Driver.live, Driver.boot]
    unfold Driver.Balanced
    rw [hlive]
    exact Lib.Ledger.balanced_empty
  below := fun b hb => by cases hb
  nodup := List.nodup_nil
  locked := rfl
  avail := fun _ => rfl
  used := fun _ => rfl
  range := fun f crof hf => by cases hf

variable {d d' : Driver σ} (hd : d.Kept)
include hd

theorem Driver.Kept.idle (e : Around σ) (f : Nat) : (d.sys e f).Idle :=
  ⟨rfl, hd.locked, hd.avail, hd.used⟩

-- The blocks of a turn have not been there before.
theorem Driver.Kept.fresh (b : Block) (hb : b.turn = d.turns) : b ∉ d.ledger.allocs :=
  fun hmem => (hd.below b hmem).ne hb

theorem Driver.Kept.device {v : Nat} (hv : v ∈ d.devs) : v < d.turns :=
  hd.below (.crdev v) ((hd.balanced.live _).mp ((crdev_live d v).mpr hv)).1

-- What a turn allocates has its number.
theorem Driver.Kept.below_book {allocs : List Block} (frees : List Block)
    (hturn : ∀ b ∈ allocs, b.turn = d.turns) :
    ∀ b ∈ (d.ledger.book allocs frees).allocs, b.turn < d.turns + 1 := by
  intro b hb
  rcases List.mem_append.mp hb with hold | hnew
  · exact (hd.below b hold).trans (Nat.lt_succ_self _)
  · exact (hturn b hnew).trans_lt (Nat.lt_succ_self _)

-- A new block of another kind than these two that is not freed is one too many.
theorem Driver.Kept.unbalanced {allocs frees : List Block}
    (hledger : d'.ledger = d.ledger.book allocs frees) (b : Block) (hb : b ∈ allocs)
    (hturn : b.turn = d.turns) (hkept : b ∉ frees) (hout : b ∉ d'.live) : ¬d'.Balanced := by
  intro h
  unfold Driver.Balanced at h
  rw [hledger] at h
  exact hout (hd.balanced.keeps hb (hd.fresh b hturn) hkept h)

end Balance

section Devices

variable {d : Driver σ} (hd : d.Kept)
include hd

theorem kept_probe (alloc vq : Bool) (hclean : alloc = true → vq = true) :
    (d.virtconsProbe alloc vq).2.next.Kept := by
  cases alloc with
  | false =>
      exact ⟨hd.balanced, fun b hb => (hd.below b hb).trans (Nat.lt_succ_self _), hd.nodup, hd.locked,
        hd.avail, hd.used, hd.range⟩
  | true =>
      obtain rfl := hclean rfl
      have hnew : d.turns ∉ d.devs := fun hmem => Nat.lt_irrefl _ (hd.device hmem)
      refine ⟨?_, hd.below_book _ (by simp [Block.turn]), ?_, hd.locked, hd.avail, hd.used, hd.range⟩
      · refine hd.balanced.book (by simp) (by simpa using hd.fresh (.crdev d.turns) rfl) (by simp)
          (by simp) fun b => ?_
        cases b <;> simp [Driver.virtconsProbe, Driver.next, Driver.book]
      · exact List.nodup_append.mpr ⟨hd.nodup, by simp, by
          rintro u hu w hw rfl
          exact hnew (List.mem_singleton.mp hw ▸ hu)⟩

theorem probe_unbalanced : ¬(d.virtconsProbe true false).2.next.Balanced := by
  refine hd.unbalanced rfl (.crdev d.turns) (List.mem_singleton_self _) rfl List.not_mem_nil fun hlive => ?_
  exact Nat.lt_irrefl _ (hd.device ((crdev_live _ _).mp hlive))

theorem kept_remove {v : Nat} (hv : v ∈ d.devs) : (d.virtconsRemove v).next.Kept := by
  refine ⟨?_, hd.below_book _ (by simp), hd.nodup.erase v, hd.locked, hd.avail, hd.used, hd.range⟩
  refine hd.balanced.book (by simp) (by simp) (by simp) (by simpa using hv) fun b => ?_
  cases b <;> simp [Driver.virtconsRemove, Driver.next, Driver.book, hd.nodup.mem_erase_iff, and_comm]

end Devices

section Ioctl

variable {g : Guest σ}

-- The buffer with a number is there, and stays there.
def Watch.Holds (w : Watch σ) (i : Nat) : Prop := i ∈ w.allocated ∧ i ∉ w.freed

theorem holds_all {α : Type} (race : Nat → Mem Byte → Mem Byte) (x : Prog α) {w : Watch σ} (s : Sys σ)
    {i : Nat} (hw : w.Holds i) (h : x.All fun d => d ≠ .free (some i)) :
    (observe g race x w s).2.Holds i := by
  obtain ⟨l, hl, hall⟩ := observe_all g race w s x h
  unfold Watch.Holds Watch.allocated Watch.freed Watch.deeds at *
  rw [hl, List.map_append, List.filterMap_append, List.filterMap_append]
  refine ⟨List.mem_append_left _ hw.1, fun hmem => ?_⟩
  obtain hbefore | hnow := List.mem_append.mp hmem
  · exact hw.2 hbefore
  · obtain ⟨d, hd, hfreed⟩ := List.mem_filterMap.mp hnow
    obtain ⟨e, he, rfl⟩ := List.mem_map.mp hd
    refine hall e he ?_
    revert hfreed
    cases e.1 <;> simp [Deed.freed]

-- `host_return_val` is not freed, and an ioctl without one that returns has
-- found a copy from its caller to fail and frees nothing.
theorem ioctl_holds {s s' : Sys σ} {file : Crof} (hs : s.Fresh file) {cmd arg : Nat} {ret : Int}
    {w : Watch σ} (h : watched g (cryptoChrdevIoctl cmd arg) s = (.done ret s', w)) :
    ∃ i, w.Holds i := by
  by_cases hallocs : g.Has [0, 1, 2]
  swap
  · obtain ⟨s1, w1, before, hoops, -⟩ := watched_ioctl_null hs cmd arg hallocs
    cases hoops.symm.trans h
  cases hlen : g.space.copyFrom s.user (arg + LEN_OFF) 4 with
  | none =>
      obtain ⟨s1, w1, hoops, -⟩ := watched_ioctl_unread hs cmd arg hallocs hlen
      cases hoops.symm.trans h
  | some data =>
      obtain ⟨w0, hdeeds, hcall⟩ := watched_ioctl_ready hs cmd arg data hallocs hlen
      rw [hcall] at h
      have hfirst : ∀ i, (∃ size, .alloc (some i) size ∈ commonDeeds g) → w0.Holds i := by
        rintro i ⟨size, hi⟩
        refine ⟨List.mem_filterMap.mpr ⟨.alloc (some i) size, ?_, rfl⟩, ?_⟩
        · exact hdeeds ▸ List.mem_append_left _ hi
        · simp [Watch.freed, hdeeds, commonDeeds, objectDeeds, Deed.freed]
      by_cases h3 : g.allocs 3 = true
      · have hkept := holds_all (g := g) (fun _ user => user) (do
            let r ← cmdSgs cmd arg g.objects
            conclude cmd arg (file.found g, g.objects, r)) (s.prepared file cmd (ioctlSizes (fromLe data)))
          (hfirst 3 ⟨4, by simp [commonDeeds, Guest.ptr, h3]⟩)
          ((cmdSgs_all (by simp) (by simp) cmd arg _).bind fun r =>
            conclude_all (by simp) (by simp) (by simp) (by simp) cmd arg _ _ ?_ r)
        · rw [h] at hkept
          exact ⟨3, hkept⟩
        · have hptr : ∀ k, g.ptr k = some 3 → k = 3 := by
            unfold Guest.ptr
            grind
          rintro p hp ⟨⟩
          simp only [Common.freed, Crof.found, Guest.objects, List.mem_cons, List.not_mem_nil, or_false] at hp
          grind
      · -- Without it a call that has its lists does not get to its request.
        rw [observe_bind] at h
        have hkept := holds_all (g := g) (fun _ user => user) (cmdSgs cmd arg g.objects)
          (s.prepared file cmd (ioctlSizes (fromLe data))) (hfirst 0 ⟨4, by simp [commonDeeds]⟩)
          (cmdSgs_all (by simp) (by simp) cmd arg _)
        generalize observe g (fun _ user => user) (cmdSgs cmd arg g.objects) w0
          (s.prepared file cmd (ioctlSizes (fromLe data))) = out at h hkept
        obtain ⟨out, w1⟩ := out
        cases out with
        | oops s3 | hangs s3 => cases h
        | done r s3 =>
            cases r with
            | none =>
                cases h
                exact ⟨0, hkept⟩
            | some r =>
                have hnull : (file.found g).hostReturnVal = none := if_neg h3
                dsimp only at h
                rw [conclude, hnull, observe_mute_oops _ _ _ _ _ _ s3 (mute_sgInitOne _ _) rfl] at h
                cases h

end Ioctl

section Calls

variable {d d' : Driver σ} {e : Around σ}

theorem call_some {f : Nat} {sys : Syscall} (h : d.call e f sys = some d') :
    ∃ ret s w, watched (d.guest e) sys.prog (d.sys e f) = (.done ret s, w) ∧
      d' = d.after f sys ret s w := by
  unfold Driver.call at h
  split at h
  · rename_i ret s w hrun
    cases h
    exact ⟨ret, s, w, hrun, rfl⟩
  · cases h

theorem mem_crofs {f : Nat} {before after : Option Crof} {b : Block} :
    b ∈ crofs f before after ↔ b = .crof f ∧ before = none ∧ after.isSome := by
  unfold crofs
  cases before <;> cases after <;> simp

theorem nodup_crofs (f : Nat) (before after : Option Crof) : (crofs f before after).Nodup := by
  unfold crofs
  split_ifs <;> simp

variable (hd : d.Kept)
include hd

-- A call that frees its buffers, and the structure of a file that it closes.
theorem kept_after (f : Nat) (sys : Syscall) (ret : Int) {s : Sys σ} {w : Watch σ}
    (hnodup : w.allocated.Nodup) (hfreed : w.freed = w.allocated) (hidle : s.locked = false ∧
      (∀ v, (s.queues v).avail = []) ∧ ∀ v, (s.queues v).used = [])
    (hfile : sys.file ret s.crof = s.crof) (hnew : d.files f = none → f = d.turns)
    (hrange : ∀ crof, s.crof = some crof → -0x80000000 ≤ crof.hostFd ∧ crof.hostFd < 0x80000000) :
    (d.after f sys ret s w).next.Kept := by
  obtain ⟨hlocked, havail, hused⟩ := hidle
  have hinj : Function.Injective (Block.buf d.turns) := fun i j he => by
    cases he
    rfl
  have hapart : ∀ before after, (w.allocated.map (Block.buf d.turns) ++ crofs f before after).Nodup := by
    intro before after
    refine List.nodup_append.mpr ⟨hnodup.map hinj, nodup_crofs _ _ _, ?_⟩
    rintro b hb c hc rfl
    obtain ⟨i, -, rfl⟩ := List.mem_map.mp hb
    cases (mem_crofs.mp hc).1
  have hturn : ∀ b ∈ w.allocated.map (.buf d.turns) ++ crofs f (d.files f) s.crof, b.turn = d.turns := by
    intro b hb
    rcases List.mem_append.mp hb with hbuf | hcrof
    · obtain ⟨i, -, rfl⟩ := List.mem_map.mp hbuf
      rfl
    · obtain ⟨rfl, hnone, -⟩ := mem_crofs.mp hcrof
      exact hnew hnone
  refine ⟨?_, hd.below_book _ hturn, hd.nodup, hlocked, havail, hused, fun f' crof hf => ?_⟩
  · have hledger : (d.after f sys ret s w).next.ledger = d.ledger.book
        (w.allocated.map (.buf d.turns) ++ crofs f (d.files f) s.crof)
        (w.allocated.map (.buf d.turns) ++ crofs f s.crof (d.files f)) := by
      simp only [Driver.after, Driver.next, Driver.book, hfreed]
    unfold Driver.Balanced
    rw [hledger]
    refine hd.balanced.book (hapart _ _) (fun b hb => hd.fresh b (hturn b hb)) (hapart _ _)
      (fun b hb => ?_) fun b => ?_
    · rcases List.mem_append.mp hb with hbuf | hcrof
      · exact .inr (List.mem_append_left _ hbuf)
      · obtain ⟨rfl, -, hopen⟩ := mem_crofs.mp hcrof
        exact .inl ((crof_live d f).mpr hopen)
    · rw [List.mem_append, List.mem_append, mem_crofs, mem_crofs]
      cases b with
      | crdev v => simp [Driver.after, Driver.next, Driver.book]
      | buf turn i => simp
      | crof f' =>
          by_cases hsame : f' = f
          · subst hsame
            have hnow : (d.after f' sys ret s w).next.files f' = s.crof :=
              (Function.update_self ..).trans hfile
            rw [crof_live, hnow, crof_live]
            cases d.files f' <;> cases s.crof <;> simp
          · simp [Driver.after, Driver.next, Driver.book, hsame]
  · obtain ⟨-, hcrof⟩ | ⟨-, hold⟩ := (Lib.update_eq_some _ _ _ _).mp hf
    · exact hrange crof (hfile.symm.trans hcrof)
    · exact hd.range f' crof hold

theorem kept_open {minor : Nat} (hclean : Clean d (.call e d.turns (.openDev minor)))
    (h : d.call e d.turns (.openDev minor) = some d') : d'.next.Kept := by
  obtain ⟨ret, s, w, hrun, rfl⟩ := call_some h
  obtain ⟨hseek, hdev, hcrof⟩ := hclean
  obtain ⟨v, hdev⟩ := Option.isSome_iff_exists.mp hdev
  have hidle := hd.idle e d.turns
  by_cases hbuf : (d.guest e).Has [0, 1]
  swap
  · obtain ⟨s', w', hoops, -⟩ := watched_open_null minor hidle hbuf
    cases hoops.symm.trans hrun
  obtain ⟨s', hexec, hafter⟩ := exec_open _ minor v hidle hbuf hcrof hseek hdev
  obtain ⟨s', w', hlate, htrail, -⟩ := watched_open_late minor hidle v hbuf hseek hdev hcrof
  cases hlate.symm.trans hrun
  cases ((congrArg Prod.fst hlate).symm.trans (watched_exec _ _ _)).trans hexec
  obtain ⟨hnodup, hfreed⟩ := buffers_freed htrail rfl rfl
  refine kept_after hd _ _ _ hnodup hfreed
    ⟨hafter.locked, hafter.avail, hafter.used⟩ (if_neg (Int.not_lt.mpr hseek)) (fun _ => rfl)
    fun crof hcrof => ?_
  · cases hafter.crof.symm.trans hcrof
    exact (d.guest e).host.open_range _

theorem kept_release {f : Nat} {file : Crof} (hf : d.files f = some file)
    (h : d.call e f .release = some d') : d'.next.Kept := by
  obtain ⟨ret, s, w, hrun, rfl⟩ := call_some h
  have hidle := hd.idle e f
  by_cases hbuf : (d.guest e).Has [0, 1]
  swap
  · obtain ⟨s', w', hoops, -⟩ := watched_release_null hidle hf hbuf
    cases hoops.symm.trans hrun
  obtain ⟨hlo, hhi⟩ := hd.range f file hf
  obtain ⟨s', hexec, hafter⟩ := exec_release _ file hidle hbuf hf hlo hhi
  obtain ⟨s', w', hcall, htrail, hnone⟩ := watched_release hidle hf hbuf
  cases hcall.symm.trans hrun
  cases ((congrArg Prod.fst hcall).symm.trans (watched_exec _ _ _)).trans hexec
  obtain ⟨hnodup, hfreed⟩ := buffers_freed htrail rfl rfl
  refine kept_after hd _ _ _ hnodup hfreed
    ⟨hafter.locked, hafter.avail, hafter.used⟩ rfl (fun hnew => ?_) fun crof hcrof => ?_
  · cases hf.symm.trans hnew
  · cases hnone.symm.trans hcrof

-- A call that keeps one of its buffers.
theorem after_unbalanced (f : Nat) (sys : Syscall) (ret : Int) (s : Sys σ) {w : Watch σ} {i : Nat}
    (hkept : w.Holds i) : ¬(d.after f sys ret s w).next.Balanced := by
  refine hd.unbalanced rfl (.buf d.turns i) (List.mem_append_left _ (List.mem_map_of_mem hkept.1)) rfl
    (fun hfree => ?_) (buf_live _ _ _)
  obtain hbuf | hcrof := List.mem_append.mp hfree
  · obtain ⟨j, hj, he⟩ := List.mem_map.mp hbuf
    cases he
    exact hkept.2 hj
  · cases (mem_crofs.mp hcrof).1

theorem open_clean_of_balanced {f minor : Nat} (h : d.call e f (.openDev minor) = some d')
    (hbalanced : d'.next.Balanced) : Clean d (.call e f (.openDev minor)) := by
  obtain ⟨ret, s, w, hrun, rfl⟩ := call_some h
  have hidle := hd.idle e f
  by_cases hbuf : (d.guest e).Has [0, 1]
  swap
  · obtain ⟨s', w', hoops, -⟩ := watched_open_null minor hidle hbuf
    cases hoops.symm.trans hrun
  by_contra hclean
  have hearly : (d.guest e).nonseekable < 0 ∨ (d.guest e).devs minor = none ∨
      (d.guest e).crofAlloc = false := by
    by_contra hlate
    push Not at hlate
    obtain ⟨hseek, hdev, hcrof⟩ := hlate
    exact hclean ⟨hseek, Option.isSome_iff_ne_none.mpr hdev, (Bool.not_eq_false _).mp hcrof⟩
  obtain ⟨s', hcall, -⟩ := watched_open_early minor hidle hbuf hearly
  cases hcall.symm.trans hrun
  exact after_unbalanced hd f _ _ _ (i := 0) ⟨.head _, List.not_mem_nil⟩ hbalanced

theorem ioctl_unbalanced {f cmd arg : Nat} {file : Crof} (hf : d.files f = some file)
    (h : d.call e f (.ioctl cmd arg) = some d') : ¬d'.next.Balanced := by
  obtain ⟨ret, s, w, hrun, rfl⟩ := call_some h
  obtain ⟨i, hkept⟩ := ioctl_holds ((hd.idle e f).fresh rfl hf) hrun
  exact after_unbalanced hd f _ _ _ hkept

end Calls

section Turns

variable {d d' : Driver σ}

-- A turn keeps the balance, or it is not clean.
theorem kept_or (hd : d.Kept) (t : Turn σ) (h : d.step t = some d') :
    (Clean d t ∧ d'.Kept) ∨ (¬Clean d t ∧ ¬d'.Balanced) := by
  cases t with
  | probe alloc vq =>
      cases h
      by_cases hclean : alloc = true → vq = true
      · exact .inl ⟨hclean, kept_probe hd alloc vq hclean⟩
      · refine .inr ⟨hclean, ?_⟩
        obtain ⟨rfl, hvq⟩ := Classical.not_imp.mp hclean
        obtain rfl : vq = false := by simpa using hvq
        exact probe_unbalanced hd
  | remove v =>
      simp only [Driver.step] at h
      split_ifs at h with hv
      cases h
      exact .inl ⟨trivial, kept_remove hd hv⟩
  | call e f sys =>
      simp only [Driver.step] at h
      split_ifs at h with hadmits
      obtain ⟨d1, hcall, rfl⟩ := Option.map_eq_some_iff.mp h
      cases sys with
      | openDev minor =>
          obtain rfl : f = d.turns := by simpa [Driver.admits] using hadmits
          by_cases hclean : Clean d (.call e d.turns (.openDev minor))
          · exact .inl ⟨hclean, kept_open hd hclean hcall⟩
          · exact .inr ⟨hclean, fun h => hclean (open_clean_of_balanced hd hcall h)⟩
      | ioctl cmd arg =>
          obtain ⟨-, file, hf, -⟩ : cmd < 2 ^ 32 ∧ ∃ file, d.files f = some file ∧ file.crdev ∈ d.devs := by
            simpa [Driver.admits, Option.any_eq_true] using hadmits
          exact .inr ⟨not_false, ioctl_unbalanced hd hf hcall⟩
      | release =>
          obtain ⟨file, hf, -⟩ : ∃ file, d.files f = some file ∧ file.crdev ∈ d.devs := by
            simpa [Driver.admits, Option.any_eq_true] using hadmits
          exact .inl ⟨trivial, kept_release hd hf hcall⟩

-- The kernel's memory is in balance after every run of clean turns, and no
-- longer after one that is not.
theorem memory_balanced (x : σ) (turns : List (Turn σ)) (d : Driver σ)
    (run : Run Driver.step Clean (Driver.boot x) turns d) :
    d.Balanced ∧ ∀ t d', d.step t = some d' → (d'.Balanced ↔ Clean d t) := by
  have hd : d.Kept := run.invariant (kept_boot x) fun d t d' hd hclean h =>
    ((kept_or hd t h).resolve_right fun hnot => hnot.1 hclean).2
  refine ⟨hd.balanced, fun t d' h => ?_⟩
  obtain ⟨hclean, hkept⟩ | ⟨hclean, hnot⟩ := kept_or hd t h
  · exact iff_of_true hkept.balanced hclean
  · exact iff_of_false hnot hclean

end Turns

section Session

def plainAround : Around Nat := ⟨plainGuest, fun _ => 0, fun _ => 0xff⟩

-- A device is probed, opened, closed and removed.
theorem plugged_balanced : ∃ d : Driver Nat, d.Balanced ∧ d.turns = 4 ∧
    d.ledger.allocs.length = 6 ∧ d.ledger.frees.length = 6 := by
  obtain ⟨d, run, hd⟩ := Run.of_guarded Driver.step Clean (Driver.boot 3)
    [.probe true true, .call plainAround 1 (.openDev 0), .call plainAround 1 .release, .remove 0]
    (fun d => d.turns = 4 ∧ d.ledger.allocs.length = 6 ∧ d.ledger.frees.length = 6) (by decide +kernel)
  simp only [decide_eq_true_eq] at hd
  exact ⟨d, (memory_balanced 3 _ d run).1, hd⟩

-- A session that ends well keeps its `host_return_val`, a probe that fails its
-- device and an open that fails its buffers.
theorem kept_blocks :
    (∃ d : Driver Nat, Run Driver.step (fun _ _ => True) (Driver.boot 3)
      [.probe true true, .call plainAround 1 (.openDev 0),
        .call plainAround 1 (.ioctl CIOCFSESSION 0x1000)] d ∧ ¬d.Balanced) ∧
    (∃ d : Driver Nat, Run Driver.step (fun _ _ => True) (Driver.boot 3) [.probe true false] d ∧
      ¬d.Balanced) ∧
    ∃ d : Driver Nat, Run Driver.step (fun _ _ => True) (Driver.boot 3)
      [.call plainAround 0 (.openDev 0)] d ∧ ¬d.Balanced := by
  refine ⟨?_, ?_, ?_⟩
  · obtain ⟨d, run, hd⟩ := Run.of_guarded Driver.step (fun _ _ => True) (Driver.boot 3)
      [.probe true true, .call plainAround 1 (.openDev 0),
        .call plainAround 1 (.ioctl CIOCFSESSION 0x1000)]
      (fun d => .buf 2 3 ∈ d.ledger.allocs ∧ .buf 2 3 ∉ d.ledger.frees) (by decide +kernel)
    simp only [decide_eq_true_eq] at hd
    exact ⟨d, run, fun h => buf_live d 2 3 ((h.live _).mpr hd)⟩
  · obtain ⟨d, run, hd⟩ := Run.of_guarded Driver.step (fun _ _ => True) (Driver.boot 3)
      [.probe true false]
      (fun d => .crdev 0 ∈ d.ledger.allocs ∧ .crdev 0 ∉ d.ledger.frees ∧ 0 ∉ d.devs) (by decide +kernel)
    simp only [decide_eq_true_eq] at hd
    exact ⟨d, run, fun h => hd.2.2 ((crdev_live d 0).mp ((h.live _).mpr ⟨hd.1, hd.2.1⟩))⟩
  · obtain ⟨d, run, hd⟩ := Run.of_guarded Driver.step (fun _ _ => True) (Driver.boot 3)
      [.call plainAround 0 (.openDev 0)]
      (fun d => .buf 0 0 ∈ d.ledger.allocs ∧ .buf 0 0 ∉ d.ledger.frees) (by decide +kernel)
    simp only [decide_eq_true_eq] at hd
    exact ⟨d, run, fun h => buf_live d 0 0 ((h.live _).mpr hd)⟩

end Session

end CryptodevChat.Virtio
