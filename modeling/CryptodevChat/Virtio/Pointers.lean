import CryptodevChat.Virtio.Request
import CryptodevChat.Virtio.Effects

namespace CryptodevChat.Virtio

open Lib (Byte le fromLe leInt fromLeInt le_length fromLe_le Loc Mem Space)

-- Null, or the address of a buffer of the element.
def VirtQueueElement.Owns (elem : VirtQueueElement) (q : Qemu) (p : Nat) : Prop :=
  p = 0 ∨ ∃ side i, i < elem.num side ∧ p = q.addr (elem.sg side i).base

def HostCall.PointersOwned (q : Qemu) (elem : VirtQueueElement) : HostCall → Prop
  | .gsession _ op =>
      elem.Owns q (SessionOp.parse op).key ∧ elem.Owns q (SessionOp.parse op).mackey
  | .crypt _ op =>
      elem.Owns q (CryptOp.parse op).src ∧ elem.Owns q (CryptOp.parse op).dst ∧
      elem.Owns q (CryptOp.parse op).mac ∧ elem.Owns q (CryptOp.parse op).iv
  | _ => True

-- So it is for every structure that was handed to the host.
def Sys.PointersOwned {σ : Type} (q : Qemu) (s : Sys σ) : Prop :=
  ∀ entry ∈ s.history, ∀ c, Event.call c ∈ entry.2 → c.PointersOwned q entry.1

section Quiet

theorem allocCommon_quiet (cmd : Nat) : (allocCommon cmd).Quiet := by
  unfold allocCommon
  refine Prog.Quiet.bind (x := getCrof) (fun _ => trivial) fun crof => Prog.Apart.quiet ?_
  refine (apart_kzalloc _).bind fun _ => (apart_store _ _).bind fun _ => ?_
  refine (apart_kzalloc _).bind fun _ => (apart_store _ _).bind fun _ => ?_
  refine (apart_kzalloc _).bind fun _ => (apart_store _ _).bind fun _ => ?_
  refine (apart_kzalloc _).bind fun _ => (apart_sgInitOne _ _).bind fun _ => ?_
  exact (apart_sgInitOne _ _).bind fun _ => (apart_sgInitOne _ _).bind fun _ => apart_pure _

end Quiet

variable {σ : Type} {g : Guest σ} (s : Sys σ)

section Silent

-- A call that does not come to its submission does not reach the host.
theorem exec_ioctl_silent (cmd arg : Nat)
    (h : ∀ c s1 o s2 r s3, exec g (allocCommon cmd) s = .done c s1 →
      exec g (allocObjects arg) s1 = .done o s2 → exec g (cmdSgs cmd arg o) s2 = .done (some r) s3 →
      c.hostReturnVal = none) :
    (exec g (cryptoChrdevIoctl cmd arg) s).state.history = s.history := by
  unfold cryptoChrdevIoctl
  have h1 := exec_quiet g _ s (allocCommon_quiet cmd)
  rw [exec_bind]
  cases hc : exec g (allocCommon cmd) s with
  | oops s1 => rwa [hc] at h1
  | hangs s1 => rwa [hc] at h1
  | done c s1 =>
      rw [hc] at h1
      have h2 := exec_quiet g _ s1 (allocObjects_apart arg).quiet
      simp only [exec_bind]
      cases ho : exec g (allocObjects arg) s1 with
      | oops s2 => rw [ho] at h2; exact h2.trans h1
      | hangs s2 => rw [ho] at h2; exact h2.trans h1
      | done o s2 =>
          rw [ho] at h2
          have h3 := exec_quiet g _ s2 (cmdSgs_apart cmd arg o).quiet
          dsimp only
          cases hr : exec g (cmdSgs cmd arg o) s2 with
          | oops s3 => rw [hr] at h3; exact h3.trans (h2.trans h1)
          | hangs s3 => rw [hr] at h3; exact h3.trans (h2.trans h1)
          | done r s3 =>
              rw [hr] at h3
              cases r with
              | none => exact h3.trans (h2.trans h1)
              | some r =>
                  have hnull := h c s1 o s2 r s3 hc ho hr
                  simp only [hnull, sgInitOne, exec_bind, exec_deref_none]
                  exact h3.trans (h2.trans h1)

theorem copyFromUser_done (p : Ptr) (addr n : Nat) (ok : Bool) (s' : Sys σ)
    (h : exec g (copyFromUser p addr n) s = .done ok s') :
    p ≠ none ∧ s'.user = s.user ∧ (ok = true → ∃ data, g.space.copyFrom s.user addr n = some data) := by
  cases p with
  | none =>
      unfold copyFromUser at h
      rw [exec_bind] at h
      cases h
  | some block =>
      change exec g (.copyFromUser block addr n .ret) s = _ at h
      unfold exec at h
      cases hcopy : g.space.copyFrom s.user addr n with
      | none =>
          rw [hcopy] at h
          cases h
          exact ⟨by simp, rfl, by simp⟩
      | some data =>
          rw [hcopy] at h
          dsimp only at h
          split_ifs at h
          cases h
          exact ⟨by simp, rfl, fun _ => ⟨data, rfl⟩⟩

-- The lists come back only for a caller whose memory can be read.
theorem cmdSgs_gsession_done (arg : Nat) (o : Objects) (r : List Sg × List Sg) (s' : Sys σ)
    (h : exec g (cmdSgs CIOCGSESSION arg o) s = .done (some r) s') :
    o.sessionOp ≠ none ∧ o.sessionKey ≠ none ∧
      ∃ bytes key, SessionReads g.space s.user arg bytes key := by
  unfold cmdSgs at h
  simp only [if_true, exec_done] at h
  obtain ⟨ok, s1, hop, h⟩ := h
  obtain ⟨hnull, huser, hcopy⟩ := copyFromUser_done s _ _ _ ok s1 hop
  cases ok with
  | false => cases h
  | true =>
      obtain ⟨bytes, hbytes⟩ := hcopy rfl
      rw [← huser] at hbytes
      simp only [if_true, exec_done] at h
      obtain ⟨key, s2, hkey, len, s3, hlen, ok, s4, hcopykey, h⟩ := h
      rw [exec_loadField s1 arg _ KEY_OFF 8 bytes hbytes (by decide)] at hkey
      cases hkey
      rw [exec_loadField s1 arg _ LEN_OFF 4 bytes hbytes (by decide)] at hlen
      cases hlen
      obtain ⟨hnull', _, hcopy'⟩ := copyFromUser_done s1 _ _ _ ok s4 hcopykey
      cases ok with
      | false => cases h
      | true =>
          obtain ⟨data, hdata⟩ := hcopy' rfl
          rw [huser] at hbytes hdata
          exact ⟨hnull, hnull', bytes, data, hbytes, hdata⟩

theorem cmdSgs_fsession_done (arg : Nat) (o : Objects) (r : List Sg × List Sg) (s' : Sys σ)
    (h : exec g (cmdSgs CIOCFSESSION arg o) s = .done (some r) s') :
    o.sesId ≠ none ∧ ∃ ses, g.space.copyFrom s.user arg 4 = some ses := by
  unfold cmdSgs at h
  simp only [fsession_ne_gsession, if_true, if_false, exec_done] at h
  obtain ⟨ok, s1, hses, h⟩ := h
  obtain ⟨hnull, -, hcopy⟩ := copyFromUser_done s _ _ _ ok s1 hses
  cases ok with
  | false => cases h
  | true => exact ⟨hnull, hcopy rfl⟩

theorem sgInitOne_done (p : Ptr) (len : Nat) (sg : Sg) (s' : Sys σ)
    (h : exec g (sgInitOne p len) s = .done sg s') : p ≠ none := by
  rintro rfl
  unfold sgInitOne at h
  rw [exec_bind] at h
  cases h

theorem cmdSgs_crypt_done (arg : Nat) (o : Objects) (r : List Sg × List Sg) (s' : Sys σ)
    (h : exec g (cmdSgs CIOCCRYPT arg o) s = .done (some r) s') :
    o.cryptOp ≠ none ∧ o.src ≠ none ∧ o.iv ≠ none ∧ o.dst ≠ none ∧
      ∃ bytes src iv, CryptReads g.space s.user arg bytes src iv := by
  unfold cmdSgs at h
  simp only [crypt_ne_gsession, crypt_ne_fsession, if_true, if_false, exec_done] at h
  obtain ⟨ok, s1, hop, h⟩ := h
  obtain ⟨hnull, huser, hcopy⟩ := copyFromUser_done s _ _ _ ok s1 hop
  cases ok with
  | false => cases h
  | true =>
      obtain ⟨bytes, hbytes⟩ := hcopy rfl
      rw [← huser] at hbytes
      simp only [if_true, exec_done] at h
      obtain ⟨src, s2, hsrc, len, s3, hlen, ok, s4, hcopysrc, h⟩ := h
      rw [exec_loadField s1 arg _ SRC_OFF 8 bytes hbytes (by decide)] at hsrc
      cases hsrc
      rw [exec_loadField s1 arg _ LEN_OFF 4 bytes hbytes (by decide)] at hlen
      cases hlen
      obtain ⟨hsrcnull, huser', hcopy'⟩ := copyFromUser_done s1 _ _ _ ok s4 hcopysrc
      cases ok with
      | false => cases h
      | true =>
          obtain ⟨data, hdata⟩ := hcopy' rfl
          rw [← huser'] at hbytes
          simp only [if_true, exec_done] at h
          obtain ⟨iv, s5, hiv, ok, s6, hcopyiv, h⟩ := h
          rw [exec_loadField s4 arg _ IV_OFF 8 bytes hbytes (by decide)] at hiv
          cases hiv
          obtain ⟨hivnull, _, hcopy''⟩ := copyFromUser_done s4 _ _ _ ok s6 hcopyiv
          cases ok with
          | false => cases h
          | true =>
              obtain ⟨data', hdata'⟩ := hcopy'' rfl
              simp only [if_true, exec_done] at h
              obtain ⟨_, _, _, _, _, _, _, _, _, _, _, _, dst, _, hdst, _⟩ := h
              rw [huser', huser] at hbytes hdata'
              rw [huser] at hdata
              exact ⟨hnull, hsrcnull, hivnull, sgInitOne_done _ _ _ _ _ hdst, bytes, data, data',
                hbytes, hdata, hdata'⟩

end Silent

section Owned

-- Null, or the address of one of the objects.
def Guest.Names (g : Guest σ) (objects : List Nat) (p : Nat) : Prop :=
  p = 0 ∨ ∃ block ∈ objects, p = g.qemu.base block

theorem owns_ioctlElement (outSgs inSgs : List Sg) (p : Nat) :
    (ioctlElement outSgs inSgs).Owns g.qemu p ↔
      g.Names ((commonSgs ++ outSgs ++ inSgs ++ [(⟨3, 4⟩ : Sg)]).map Sg.block) p := by
  unfold VirtQueueElement.Owns Guest.Names ioctlElement
  generalize hsgs : commonSgs ++ outSgs ++ inSgs ++ [⟨3, 4⟩] = sgs
  generalize hout : commonSgs.length + outSgs.length = numOut
  have hlen : sgs.length = numOut + (inSgs.length + 1) := by
    simp only [← hsgs, ← hout, List.length_append, List.length_singleton]
    omega
  apply or_congr_right
  constructor
  · rintro ⟨side, i, hi, rfl⟩
    cases side with
    | out =>
        have hi : i < numOut := hi
        have hget : sgs[i]? = some sgs[i] := List.getElem?_eq_getElem (by omega)
        refine ⟨sgs[i].block, List.mem_map_of_mem (List.getElem_mem _), ?_⟩
        simp [VirtQueueElement.sg, toElement, hget, Qemu.addr]
    | «in» =>
        have hi : i < inSgs.length + 1 := hi
        have hget : sgs[numOut + i]? = some sgs[numOut + i] := List.getElem?_eq_getElem (by omega)
        refine ⟨sgs[numOut + i].block, List.mem_map_of_mem (List.getElem_mem _), ?_⟩
        simp [VirtQueueElement.sg, toElement, hget, Qemu.addr]
  · rintro ⟨block, hmem, rfl⟩
    obtain ⟨sg, hsg, rfl⟩ := List.mem_map.mp hmem
    obtain ⟨k, hk, rfl⟩ := List.getElem_of_mem hsg
    by_cases hside : k < numOut
    · refine ⟨.out, k, hside, ?_⟩
      simp [VirtQueueElement.sg, toElement, List.getElem?_eq_getElem hk, Qemu.addr]
    · obtain ⟨i, rfl⟩ := Nat.exists_eq_add_of_le (Nat.not_lt.mp hside)
      refine ⟨.in, i, ?_, ?_⟩
      · simp only [VirtQueueElement.num, toElement]
        omega
      · simp [VirtQueueElement.sg, toElement, List.getElem?_eq_getElem hk, Qemu.addr]

theorem Guest.allocs_of_ptr (g : Guest σ) (i : Nat) (h : g.ptr i ≠ none) : g.allocs i = true := by
  by_contra hnot
  exact h (if_neg hnot)

theorem Guest.Has.append {first second : List Nat} (h : g.Has first) (h' : g.Has second) :
    g.Has (first ++ second) := fun i hi => (List.mem_append.mp hi).elim (h i) (h' i)

-- A command whose lists come back has got the objects that it uses.
theorem cmdSgs_gsession_has (arg : Nat) (r : List Sg × List Sg) (s' : Sys σ)
    (h : exec g (cmdSgs CIOCGSESSION arg g.objects) s = .done (some r) s') :
    g.Has [4, 5] ∧ ∃ bytes key, SessionReads g.space s.user arg bytes key := by
  obtain ⟨hop, hkey, hreads⟩ := cmdSgs_gsession_done s arg g.objects r s' h
  exact ⟨by simp [Guest.Has, g.allocs_of_ptr 4 hop, g.allocs_of_ptr 5 hkey], hreads⟩

theorem cmdSgs_fsession_has (arg : Nat) (r : List Sg × List Sg) (s' : Sys σ)
    (h : exec g (cmdSgs CIOCFSESSION arg g.objects) s = .done (some r) s') :
    g.Has [6] ∧ ∃ ses, g.space.copyFrom s.user arg 4 = some ses := by
  obtain ⟨hses, hreads⟩ := cmdSgs_fsession_done s arg g.objects r s' h
  exact ⟨by simp [Guest.Has, g.allocs_of_ptr 6 hses], hreads⟩

theorem cmdSgs_crypt_has (arg : Nat) (r : List Sg × List Sg) (s' : Sys σ)
    (h : exec g (cmdSgs CIOCCRYPT arg g.objects) s = .done (some r) s') :
    g.Has [7, 8, 9, 10] ∧ ∃ bytes src iv, CryptReads g.space s.user arg bytes src iv := by
  obtain ⟨hop, hsrc, hiv, hdst, hreads⟩ := cmdSgs_crypt_done s arg g.objects r s' h
  exact ⟨by simp [Guest.Has, g.allocs_of_ptr 7 hop, g.allocs_of_ptr 8 hsrc, g.allocs_of_ptr 9 hiv,
    g.allocs_of_ptr 10 hdst], hreads⟩

variable {s}
variable {file : Crof} (hs : s.Fresh file)
include hs

-- What the host is handed is the caller's structure with some of its pointers replaced.
theorem exec_gsession_history (arg : Nat) (bytes key : List Byte)
    (hallocs : g.Has [0, 1, 2, 3, 4, 5]) (hreads : SessionReads g.space s.user arg bytes key) :
    ∃ fd op, (exec g (cryptoChrdevIoctl CIOCGSESSION arg) s).state.history =
        [(sessionElement (SessionOp.parse bytes).keylen,
          [.touch .out 0 0 4, .touch .out 2 0 4, .touch .in 0 KEY_OFF 8, .touch .out 1 0 4,
            .call (.gsession fd op), .touch .in 1 0 4])] ∧
      SessionOp.parse op = { SessionOp.parse bytes with key := g.qemu.base 5 } := by
  rw [exec_gsession hs arg bytes key hallocs hreads, exec_quiet _ _ _ (reply_apart _ _ _ _).quiet]
  exact ⟨_, _, rfl, session_handed g.qemu _ bytes key
    (Space.copyFrom_length _ _ _ _ _ hreads.op) _⟩

theorem exec_crypt_history (arg : Nat) (bytes src iv : List Byte)
    (hallocs : g.Has [0, 1, 2, 3, 7, 8, 9, 10]) (hreads : CryptReads g.space s.user arg bytes src iv) :
    ∃ fd op, (exec g (cryptoChrdevIoctl CIOCCRYPT arg) s).state.history =
        [(cryptElement (CryptOp.parse bytes).len,
          [.touch .out 0 0 4, .touch .out 2 0 4, .touch .out 3 SRC_OFF 8, .touch .out 3 IV_OFF 8,
            .touch .out 3 DST_OFF 8, .touch .out 1 0 4, .call (.crypt fd op), .touch .in 1 0 4,
            .touch .in 1 0 4])] ∧
      CryptOp.parse op =
        { CryptOp.parse bytes with
          src := g.qemu.base 8, dst := g.qemu.base 10, iv := g.qemu.base 9 } := by
  rw [exec_crypt hs arg bytes src iv hallocs hreads, exec_quiet _ _ _ (reply_apart _ _ _ _).quiet]
  exact ⟨_, _, rfl, crypt_handed g.qemu _ bytes src iv
    (Space.copyFrom_length _ _ _ _ _ hreads.op) _⟩

-- The objects of a call that gets as far as its command.
theorem exec_alloc_done (cmd arg : Nat) (c : Common) (s1 : Sys σ) (o : Objects) (s2 : Sys σ)
    (hc : exec g (allocCommon cmd) s = .done c s1) (ho : exec g (allocObjects arg) s1 = .done o s2) :
    g.Has [0, 1, 2] ∧ c.hostReturnVal = g.ptr 3 ∧ o = g.objects ∧ s2.user = s.user := by
  have hthree : g.Has [0, 1, 2] := by
    by_contra hnot
    obtain ⟨s', hoops⟩ := exec_allocCommon_oops s cmd hs.sizes fun h => hnot h.1
    rw [hoops] at hc
    cases hc
  rw [exec_allocCommon s cmd file hs.crof hs.sizes hthree] at hc
  cases hc
  cases hlen : g.space.copyFrom s.user (arg + LEN_OFF) 4 with
  | none =>
      obtain ⟨s', hoops⟩ := exec_allocObjects_oops
        { s with mem := commonMem s.mem file.hostFd cmd, sizes := [4, 4, 4, 4] } arg hlen
      rw [hoops] at ho
      cases ho
  | some data =>
      rw [exec_allocObjects
        { s with mem := commonMem s.mem file.hostFd cmd, sizes := [4, 4, 4, 4] } arg data rfl hlen] at ho
      cases ho
      exact ⟨hthree, rfl, rfl, rfl⟩

theorem exec_gsession_silent (arg : Nat)
    (h : ¬(g.Has [0, 1, 2, 3, 4, 5] ∧ ∃ bytes key, SessionReads g.space s.user arg bytes key)) :
    (exec g (cryptoChrdevIoctl CIOCGSESSION arg) s).state.history = [] := by
  rw [exec_ioctl_silent s CIOCGSESSION arg, hs.history]
  intro c s1 o s2 r s3 hc ho hr
  obtain ⟨hthree, hret, rfl, huser⟩ := exec_alloc_done hs CIOCGSESSION arg c s1 o s2 hc ho
  obtain ⟨hobjects, bytes, key, hreads⟩ := cmdSgs_gsession_has s2 arg r s3 hr
  rw [huser] at hreads
  by_contra hnull
  rw [hret] at hnull
  have hret : g.Has [3] := List.forall_mem_singleton.mpr (g.allocs_of_ptr 3 hnull)
  exact h ⟨(hthree.append hret).append hobjects, bytes, key, hreads⟩

theorem exec_crypt_silent (arg : Nat)
    (h : ¬(g.Has [0, 1, 2, 3, 7, 8, 9, 10] ∧
      ∃ bytes src iv, CryptReads g.space s.user arg bytes src iv)) :
    (exec g (cryptoChrdevIoctl CIOCCRYPT arg) s).state.history = [] := by
  rw [exec_ioctl_silent s CIOCCRYPT arg, hs.history]
  intro c s1 o s2 r s3 hc ho hr
  obtain ⟨hthree, hret, rfl, huser⟩ := exec_alloc_done hs CIOCCRYPT arg c s1 o s2 hc ho
  obtain ⟨hobjects, bytes, src, iv, hreads⟩ := cmdSgs_crypt_has s2 arg r s3 hr
  rw [huser] at hreads
  by_contra hnull
  rw [hret] at hnull
  have hret : g.Has [3] := List.forall_mem_singleton.mpr (g.allocs_of_ptr 3 hnull)
  exact h ⟨(hthree.append hret).append hobjects, bytes, src, iv, hreads⟩

-- One pointer of each structure is the caller's.
theorem gsession_owned_iff (arg : Nat) :
    (exec g (cryptoChrdevIoctl CIOCGSESSION arg) s).state.PointersOwned g.qemu ↔
      (g.Has [0, 1, 2, 3, 4, 5] → ∀ bytes key, SessionReads g.space s.user arg bytes key →
        g.Names [0, 1, 2, 5, 4, 3] (SessionOp.parse bytes).mackey) := by
  by_cases h : g.Has [0, 1, 2, 3, 4, 5] ∧ ∃ bytes key, SessionReads g.space s.user arg bytes key
  · obtain ⟨hallocs, bytes, key, hreads⟩ := h
    obtain ⟨fd, op, hhist, hop⟩ := exec_gsession_history hs arg bytes key hallocs hreads
    have hcall : (exec g (cryptoChrdevIoctl CIOCGSESSION arg) s).state.PointersOwned g.qemu ↔
        (HostCall.gsession fd op).PointersOwned g.qemu
          (sessionElement (SessionOp.parse bytes).keylen) := by
      simp [Sys.PointersOwned, hhist]
    rw [hcall]
    simp only [HostCall.PointersOwned, hop, sessionElement, owns_ioctlElement]
    constructor
    · rintro ⟨-, hmackey⟩ - bytes' key' hreads'
      cases hreads.op.symm.trans hreads'.op
      exact hmackey
    · intro hmackey
      exact ⟨.inr ⟨5, by simp [commonSgs], rfl⟩, hmackey hallocs bytes key hreads⟩
  · have hsilent := exec_gsession_silent hs arg h
    constructor
    · intro _ hallocs bytes key hreads
      exact absurd ⟨hallocs, bytes, key, hreads⟩ h
    · intro _
      simp [Sys.PointersOwned, hsilent]

theorem crypt_owned_iff (arg : Nat) :
    (exec g (cryptoChrdevIoctl CIOCCRYPT arg) s).state.PointersOwned g.qemu ↔
      (g.Has [0, 1, 2, 3, 7, 8, 9, 10] →
        ∀ bytes src iv, CryptReads g.space s.user arg bytes src iv →
          g.Names [0, 1, 2, 7, 8, 9, 10, 3] (CryptOp.parse bytes).mac) := by
  by_cases h : g.Has [0, 1, 2, 3, 7, 8, 9, 10] ∧
      ∃ bytes src iv, CryptReads g.space s.user arg bytes src iv
  · obtain ⟨hallocs, bytes, src, iv, hreads⟩ := h
    obtain ⟨fd, op, hhist, hop⟩ := exec_crypt_history hs arg bytes src iv hallocs hreads
    have hcall : (exec g (cryptoChrdevIoctl CIOCCRYPT arg) s).state.PointersOwned g.qemu ↔
        (HostCall.crypt fd op).PointersOwned g.qemu (cryptElement (CryptOp.parse bytes).len) := by
      simp [Sys.PointersOwned, hhist]
    rw [hcall]
    simp only [HostCall.PointersOwned, hop, cryptElement, owns_ioctlElement]
    constructor
    · rintro ⟨-, -, hmac, -⟩ - bytes' src' iv' hreads'
      cases hreads.op.symm.trans hreads'.op
      exact hmac
    · intro hmac
      exact ⟨.inr ⟨8, by simp [commonSgs], rfl⟩, .inr ⟨10, by simp [commonSgs], rfl⟩,
        hmac hallocs bytes src iv hreads, .inr ⟨9, by simp [commonSgs], rfl⟩⟩
  · have hsilent := exec_crypt_silent hs arg h
    constructor
    · intro _ hallocs bytes src iv hreads
      exact absurd ⟨hallocs, bytes, src, iv, hreads⟩ h
    · intro _
      simp [Sys.PointersOwned, hsilent]

-- Of the six pointers the backend rewrites four. What the caller put into the
-- two others reaches the host as it is.
theorem ioctl_owned_iff (arg : Nat) :
    ((exec g (cryptoChrdevIoctl CIOCGSESSION arg) s).state.PointersOwned g.qemu ↔
      (g.Has [0, 1, 2, 3, 4, 5] → ∀ bytes key, SessionReads g.space s.user arg bytes key →
        g.Names [0, 1, 2, 5, 4, 3] (SessionOp.parse bytes).mackey)) ∧
    ((exec g (cryptoChrdevIoctl CIOCCRYPT arg) s).state.PointersOwned g.qemu ↔
      (g.Has [0, 1, 2, 3, 7, 8, 9, 10] →
        ∀ bytes src iv, CryptReads g.space s.user arg bytes src iv →
          g.Names [0, 1, 2, 7, 8, 9, 10, 3] (CryptOp.parse bytes).mac)) :=
  ⟨gsession_owned_iff hs arg, crypt_owned_iff hs arg⟩

end Owned

section Instances

-- A process that may use every address, and objects that lie far apart.
def flat : Space := ⟨fun a => ⟨0, a⟩, fun _ => true, fun _ => true⟩

def farApart : Qemu where
  space := ⟨fun a => ⟨a / 2 ^ 32 - 1, a % 2 ^ 32⟩, fun _ => true, fun _ => true⟩
  base := fun block => (block % 16 + 1) * 2 ^ 32
  base_lt := fun block => by omega

def plainGuest : Guest Nat where
  space := flat
  qemu := farApart
  host := nullHost
  devs := fun minor => if minor < 32 then some minor else none
  allocs := fun _ => true
  crofAlloc := true
  nonseekable := 0

def plainSys (user : Mem Byte) (host : Nat) (crof : Option Crof) : Sys Nat where
  mem := fun _ => 0
  sizes := []
  user := user
  crof := crof
  locked := false
  queues := fun _ => ⟨[], [], 0⟩
  host := host
  history := []

theorem flat_maps (addr n : Nat) : flat.Maps addr ⟨0, addr⟩ n :=
  ⟨fun _ _ => rfl, fun _ _ => rfl, fun _ _ => rfl⟩

theorem plainSys_fresh (user : Mem Byte) (host : Nat) (file : Crof) :
    (plainSys user host (some file)).Fresh file :=
  ⟨rfl, rfl, rfl, rfl, rfl, rfl⟩

-- AES with a SHA1 digest.
def sessionBytes (mackey : Nat) : List Byte :=
  le 4 11 ++ le 4 7 ++ le 4 16 ++ le 4 0 ++ le 8 0x2000 ++ le 8 16 ++ le 8 mackey ++ le 8 0

def sessionUser (mackey : Nat) : Mem Byte :=
  Mem.store (fun _ => 0) ⟨0, 0x1000⟩ (sessionBytes mackey)

theorem sessionUser_reads (mackey : Nat) :
    SessionReads flat (sessionUser mackey) 0x1000 (sessionBytes mackey)
      (Mem.load (sessionUser mackey) ⟨0, (SessionOp.parse (sessionBytes mackey)).key⟩
        (SessionOp.parse (sessionBytes mackey)).keylen) where
  op := by
    rw [(flat_maps _ _).copyFrom, sessionUser, Mem.load_store]
    rfl
  key := (flat_maps _ _).copyFrom _

theorem zero_pointers_owned :
    (exec plainGuest (cryptoChrdevIoctl CIOCGSESSION 0x1000)
      (plainSys (fun _ => 0) 7 (some ⟨0, 3⟩))).state.PointersOwned farApart ∧
    (exec plainGuest (cryptoChrdevIoctl CIOCCRYPT 0x1000)
      (plainSys (fun _ => 0) 7 (some ⟨0, 3⟩))).state.PointersOwned farApart := by
  have h := ioctl_owned_iff (g := plainGuest) (plainSys_fresh (fun _ => 0) 7 ⟨0, 3⟩) 0x1000
  refine ⟨h.1.mpr ?_, h.2.mpr ?_⟩
  · intro _ bytes key hreads
    cases ((flat_maps _ _).copyFrom _).symm.trans hreads.op
    exact .inl rfl
  · intro _ bytes src iv hreads
    cases ((flat_maps _ _).copyFrom _).symm.trans hreads.op
    exact .inl rfl

theorem mackey_not_owned :
    ¬(exec plainGuest (cryptoChrdevIoctl CIOCGSESSION 0x1000)
      (plainSys (sessionUser 0x400000) 7 (some ⟨0, 3⟩))).state.PointersOwned farApart := by
  intro howned
  have h := (gsession_owned_iff (g := plainGuest) (plainSys_fresh _ _ ⟨0, 3⟩) 0x1000).mp howned
  have hnames := h (fun _ _ => rfl) _ _ (sessionUser_reads 0x400000)
  revert hnames
  unfold Guest.Names
  decide

end Instances

end CryptodevChat.Virtio
