import CryptodevChat.User.Accounts

namespace CryptodevChat.User

open Lib (Byte le fromLe Mem Space Service Contract Separate)
open Virtio

variable {σ τ : Type} {K : Platform (σ × Bool) τ} {sessions : σ → Int → Option (Nat → Option Session)}
  {h : Host σ} {cipher : CipherOf} {minor : Nat} {random : Prop} {good : Setting → Prop} {ok : τ → Prop}
  {x : Shared τ} {views : Nat → View} {a : Setting} {m : Process} {p : Nat}

section Reads

theorem Readable.read {addr n : Nat} (hr : Readable m addr n) :
    m.space.copyFrom m.user addr n = some (m.space.read m.user addr n) := by
  unfold Readable Space.copyFrom at hr
  unfold Space.copyFrom
  split_ifs with hall
  · rfl
  · rw [if_neg hall] at hr
    cases hr

theorem Readable.part {addr n k : Nat} (hr : Readable m addr n) (hk : k ≤ n) : Readable m addr k := by
  have hslice := Space.copyFrom_slice m.space m.user addr n 0 k _ hr.read (by omega)
  rw [Nat.add_zero] at hslice
  unfold Readable
  rw [hslice]
  rfl

end Reads

section Passes

-- A call that goes to the kernel as it is.
theorem Shared.pass_does {c : Call} {host : σ × Bool} {fds : List (Option Int)} {R : Int → Mem Byte → Prop}
    (hdoes : K.Does ok x.kernel a m c host fds R) (holders : Int → Nat → List Nat) :
    ∃ ret user k', x.pass K a m c holders =
        some (ret, { m with user }, { x with kernel := k', holders := holders ret }) ∧
      ok k' ∧ K.host k' = host ∧ K.fds k' = fds ∧ R ret user := by
  obtain ⟨ret, user, k', hcall, hend⟩ := hdoes
  exact ⟨ret, user, k', by simp only [Shared.pass, hcall], hend⟩

-- How a call is answered to a process that makes it properly.
def Answers (K : Platform (σ × Bool) τ) (sessions : σ → Int → Option (Nat → Option Session)) (cipher : CipherOf)
    (ok : τ → Prop) (x : Shared τ) (views : Nat → View) (a : Setting) (p : Nat) (c : UserCall) (m : Process) :
    Prop :=
  ∃ ret m' x', x.serve K a p c m = some (ret, m', x') ∧ ∃ v,
    (((views p).failed = true → v.failed = true) ∧ Granted cipher (views p) m ret m' v c) ∧
      (ok x'.kernel ∧ Books K sessions x' (Function.update views p v)) ∧
      (x'.starved = x.starved ∨ c.outside = true)

-- A call that fails changes nothing but the note of it.
theorem Books.fails (hb : Books K sessions x views) {k' : τ} (hfds : K.fds k' = K.fds x.kernel)
    (hsessions : sessions (K.host k').1 = sessions (K.host x.kernel).1) (hnote : (K.host k').2 = true) :
    Books K sessions { x with kernel := k' } (Function.update views p { views p with failed := true }) :=
  hb.same { x with kernel := k' } hfds rfl hsessions (fun _ => hnote) id true fun _ => .inr (.inl hnote)

end Passes

section Serving

variable (hc : K.Conforms (noting h) minor good ok) (hkeeps : Keeps h sessions cipher)
  (hok : ok x.kernel) (hb : Books K sessions x views) (hgood : good a)

include hc hkeeps hok hb hgood

theorem open_answers (n : Nat) (hproper : Proper minor random (views p) m (.dev (.openDev n))) :
    Answers K sessions cipher ok x views a p (.dev (.openDev n)) m := by
  obtain rfl : n = minor := hproper
  let r := h.openDev (K.host x.kernel).1
  have hfree : (views p).files (K.fds x.kernel).length = none := by
    rw [Option.eq_none_iff_forall_not_mem]
    intro t ht
    exact absurd (hb.lt_length ht) (lt_irrefl _)
  obtain hdoes | ⟨hfd, hdoes⟩ := hc.opens x.kernel a m hok hgood
  · obtain ⟨ret, user, k', hpass, hok', hhost, hfds, rfl, rfl⟩ := x.pass_does hdoes fun ret =>
      if 0 ≤ ret then Function.update x.holders ret.toNat [p] else x.holders
    rw [if_pos (Int.natCast_nonneg _)] at hpass
    refine ⟨_, _, ⟨k', Function.update x.holders (K.fds x.kernel).length [p], x.starved⟩, hpass,
      ⟨Function.update (views p).files (K.fds x.kernel).length (some fun _ => none), (views p).failed⟩,
      ⟨id, rfl, fun _ => ⟨hfree, rfl⟩, fun hneg => by omega⟩, ⟨hok', ?_⟩, .inl rfl⟩
    refine hb.added ⟨k', _, x.starved⟩ ?_ hfds rfl ?_ id
    · dsimp only
      rw [hhost]
      obtain hneg | hpos := Int.lt_or_le r.1 0
      · exact .inl ⟨hneg, hkeeps.refuses _ hneg⟩
      · exact .inr ⟨hpos, hkeeps.opens _ hpos⟩
    · intro hnote
      dsimp only
      rw [hhost]
      simp [noting, hnote]
  · obtain ⟨ret, user, k', hpass, hok', hhost, hfds, hret, rfl⟩ := x.pass_does hdoes fun ret =>
      if 0 ≤ ret then Function.update x.holders ret.toNat [p] else x.holders
    rw [if_neg (by omega)] at hpass
    refine ⟨_, _, _, hpass, { views p with failed := true },
      ⟨fun _ => rfl, rfl, fun hpos => by omega, fun _ => ⟨rfl, rfl⟩⟩, ⟨hok', ?_⟩, .inl rfl⟩
    apply hb.fails hfds
    · rw [hhost]
      exact hkeeps.refuses _ hfd
    · have hfd : (h.openDev (K.host x.kernel).1).1 < 0 := hfd
      rw [hhost]
      simp [noting, hfd]

theorem close_answers (file : Nat) (hproper : Proper minor random (views p) m (.dev (.close file))) :
    Answers K sessions cipher ok x views a p (.dev (.close file)) m := by
  obtain ⟨t, ht⟩ := Option.isSome_iff_exists.mp hproper
  obtain ⟨hmem, fd, hfd, -⟩ := hb.table p file t ht
  by_cases hlast : (x.holders file).erase p = []
  · obtain ⟨ret, user, k', hpass, hok', hhost, hfds, hret, rfl⟩ :=
      x.pass_does (hc.closes x.kernel a m file fd hok hgood hfd) fun _ => Function.update x.holders file []
    refine ⟨ret, m, ⟨k', Function.update x.holders file [], x.starved⟩, ?_,
      ⟨Function.update (views p).files file none, (views p).failed || decide (ret ≠ 0)⟩,
      ⟨fun hf => by simp [hf], rfl, rfl, fun hne => by simp [hne]⟩, ⟨hok', ?_⟩, .inl rfl⟩
    · simp only [Shared.serve, if_pos hmem, if_pos hlast]
      exact hpass
    · refine hb.closed ⟨k', _, x.starved⟩ (.inr ⟨hlast, hfds, ?_⟩) hkeeps hfd (by rw [hlast]) ?_ id _ ?_
      · dsimp only
        rw [hhost]
        exact hkeeps.closes _ _
      · intro hnote
        dsimp only
        rw [hhost]
        simp [noting, hnote]
      · intro hf
        rw [Bool.or_eq_true, decide_eq_true_eq] at hf
        refine hf.imp id fun hne => .inl ?_
        have hne : (h.closeDev fd (K.host x.kernel).1).1 ≠ 0 := hret hne
        dsimp only
        rw [hhost]
        simp [noting, hne]
  · refine ⟨0, m, { x with holders := Function.update x.holders file ((x.holders file).erase p) }, ?_,
      ⟨Function.update (views p).files file none, (views p).failed⟩,
      ⟨id, rfl, rfl, fun hne => absurd rfl hne⟩, ⟨hok, ?_⟩, .inl rfl⟩
    · simp only [Shared.serve, if_pos hmem, if_neg hlast]
    · exact hb.closed { x with holders := Function.update x.holders file ((x.holders file).erase p) }
        (.inl ⟨hlast, rfl, rfl⟩) hkeeps hfd rfl id id _ .inl

-- An ioctl on a file of the process goes to the kernel.
omit hc hkeeps hok hgood in
theorem ioctl_passes {file cmd arg : Nat} {t : Nat → Option Session} (ht : (views p).files file = some t) :
    x.serve K a p (.dev (.ioctl file cmd arg)) m = x.pass K a m (.ioctl file cmd arg) fun _ => x.holders := by
  obtain ⟨hmem, -⟩ := hb.table p file t ht
  simp only [Shared.serve, if_pos hmem]

theorem gsession_answers (file arg : Nat) (t : Nat → Option Session) (ht : (views p).files file = some t)
    (hop : Readable m arg SESSION_OP_SIZE) (hkey : Readable m (sessionOp m arg).key (sessionOp m arg).keylen)
    (hmac : (sessionOp m arg).mac = 0) (hwrite : Writable m arg SESSION_OP_SIZE) :
    Answers K sessions cipher ok x views a p (.dev (.ioctl file CIOCGSESSION arg)) m := by
  obtain ⟨-, fd, hfd, -⟩ := hb.table p file t ht
  obtain ⟨ret, user, k', hpass, hok', hhost, hfds, hret⟩ :=
    x.pass_does (hc.gsession x.kernel a m file fd arg _ _ hok hgood hfd ⟨hop.read, hkey.read⟩ hmac hwrite)
      fun _ => x.holders
  rw [← ioctl_passes hb ht] at hpass
  have hsess := hkeeps.gsession (K.host x.kernel).1 fd (sessionAt m arg)
  change Ends (h.gsession fd (sessionAt m arg) (K.host x.kernel).1).1 _ _ at hret
  change K.host k' = (let r := h.gsession fd (sessionAt m arg) (K.host x.kernel).1
    (r.2, (K.host x.kernel).2 || !r.1.isOk)) at hhost
  dsimp only at hsess hhost
  cases hr : (h.gsession fd (sessionAt m arg) (K.host x.kernel).1).1 with
  | ok ses =>
      rw [hr] at hret hsess
      obtain ⟨rfl, hfound, hbeside⟩ := hret
      obtain ⟨hlt, T, hT, hfresh, hnew⟩ := hsess
      have hnone : ∀ q u, (views q).files file = some u → u ses = none := by
        intro q u hu
        rw [Option.eq_none_iff_forall_ne_some]
        intro session hs
        rw [hb.find hu hfd hT hs] at hfresh
        cases hfresh
      refine ⟨0, { m with user }, { x with kernel := k' }, hpass, { views p with
        files := Function.update (views p).files file (some (Function.update t ses (some (sessionAt m arg)))) },
        ⟨id, rfl, fun hne => absurd rfl hne, fun t' ht' _ => ?_⟩, ⟨hok', ?_⟩, .inl rfl⟩
      · cases ht.symm.trans ht'
        refine ⟨fun _ => ⟨hbeside, ses, hlt, hnone p t ht, hfound, rfl⟩, fun he => absurd he.symm crypt_ne_gsession,
          fun he => absurd he.symm fsession_ne_gsession⟩
      · refine hb.session { x with kernel := k' } hkeeps hfds rfl ses _ ht hfd hT ?_ ?_ id
          fun q u _ hu => hnone q u hu
        · rw [hhost]
          exact hnew
        · intro hnote
          rw [hhost]
          simp [hnote]
  | error e =>
      rw [hr] at hret hsess
      refine ⟨_, _, _, hpass, { views p with failed := true },
        ⟨fun _ => rfl, rfl, fun _ => ⟨rfl, rfl⟩, fun _ _ hzero => absurd hzero hret⟩, ⟨hok', ?_⟩, .inl rfl⟩
      apply hb.fails hfds
      · rw [hhost]
        exact hsess
      · rw [hhost]
        simp [hr, Except.isOk, Except.toBool]

theorem crypt_answers (file arg : Nat) (t : Nat → Option Session) (ht : (views p).files file = some t)
    (hop : Readable m arg CRYPT_OP_SIZE) (hsrc : Readable m (cryptOp m arg).src (cryptOp m arg).len)
    (hiv : Readable m (cryptOp m arg).iv IV_SIZE) (hmac : (cryptOp m arg).mac = 0)
    (hflags : (cryptOp m arg).flags = 0) (hwrite : Writable m (cryptOp m arg).dst (cryptOp m arg).len) :
    Answers K sessions cipher ok x views a p (.dev (.ioctl file CIOCCRYPT arg)) m := by
  obtain ⟨-, fd, hfd, -⟩ := hb.table p file t ht
  have hflag : (cryptOp m arg).flags / COP_FLAG_WRITE_IV % 2 = 0 := by
    rw [hflags]
    rfl
  obtain ⟨ret, user, k', hpass, hok', hhost, hfds, hret⟩ :=
    x.pass_does (hc.crypt x.kernel a m file fd arg _ _ _ hok hgood hfd ⟨hop.read, hsrc.read, hiv.read⟩ hmac hflag
      hwrite) fun _ => x.holders
  rw [← ioctl_passes hb ht] at hpass
  let op := cryptOp m arg
  let args : Crypt := ⟨op.ses, op.op, op.flags, m.space.read m.user op.src op.len, m.space.read m.user op.iv IV_SIZE⟩
  obtain ⟨hsame, hsess⟩ := hkeeps.crypt (K.host x.kernel).1 fd args
  change Ends (h.crypt fd args (K.host x.kernel).1).1 _ _ at hret
  change K.host k' = (let r := h.crypt fd args (K.host x.kernel).1
    (r.2, (K.host x.kernel).2 || !r.1.isOk)) at hhost
  dsimp only at hsess hhost
  cases hr : (h.crypt fd args (K.host x.kernel).1).1 with
  | ok out =>
      rw [hr] at hret hsess
      obtain ⟨rfl, rfl⟩ := hret
      obtain ⟨T, session, hT, hses, hdst⟩ := hsess
      have hlen : out.dst.length = op.len :=
        (h.dst_length fd args _ out _ (Prod.ext hr rfl)).trans (Lib.gather_length ..)
      refine ⟨0, { m with user := m.space.write m.user op.dst out.dst }, { x with kernel := k' }, hpass, views p,
        ⟨id, rfl, fun hne => absurd rfl hne, fun t' ht' _ => ?_⟩, ⟨hok', ?_⟩, .inl rfl⟩
      · refine ⟨fun he => absurd he crypt_ne_gsession, fun _ => ⟨rfl, fun session' hs => ?_⟩,
          fun he => absurd he crypt_ne_fsession⟩
        cases (hb.find ht' hfd hT hs).symm.trans hses
        change (cipher session args.op args.iv args.src).length = op.len ∧
          m.space.write m.user op.dst out.dst = m.space.write m.user op.dst (cipher session args.op args.iv args.src)
        rw [← hdst]
        exact ⟨hlen, rfl⟩
      · refine hb.same { x with kernel := k' } hfds rfl ?_ ?_ id _ .inl
        · rw [hhost]
          exact hsame
        · intro hnote
          rw [hhost]
          simp [hnote]
  | error e =>
      rw [hr] at hret
      refine ⟨_, _, _, hpass, { views p with failed := true },
        ⟨fun _ => rfl, rfl, fun _ => ⟨rfl, rfl⟩, fun _ _ hzero => absurd hzero hret⟩, ⟨hok', ?_⟩, .inl rfl⟩
      apply hb.fails hfds
      · rw [hhost]
        exact hsame
      · rw [hhost]
        simp [hr, Except.isOk, Except.toBool]

theorem fsession_answers (file arg : Nat) (t : Nat → Option Session) (ht : (views p).files file = some t)
    (hhead : Readable m arg 12) (hown : (t (fromLe (m.space.read m.user arg 4))).isSome) :
    Answers K sessions cipher ok x views a p (.dev (.ioctl file CIOCFSESSION arg)) m := by
  obtain ⟨-, fd, hfd, -⟩ := hb.table p file t ht
  obtain ⟨ret, user, k', hpass, hok', hhost, hfds, rfl, hret⟩ :=
    x.pass_does (hc.fsession x.kernel a m file fd arg _ hok hgood hfd (hhead.part (by decide)).read hhead)
      fun _ => x.holders
  rw [← ioctl_passes hb ht] at hpass
  generalize hses : fromLe (m.space.read m.user arg 4) = ses at *
  have hsess := hkeeps.fsession (K.host x.kernel).1 fd ses
  change Ends (h.fsession fd ses (K.host x.kernel).1).1 _ _ at hret
  change K.host k' = (let r := h.fsession fd ses (K.host x.kernel).1
    (r.2, (K.host x.kernel).2 || !r.1.isOk)) at hhost
  dsimp only at hsess hhost
  cases hr : (h.fsession fd ses (K.host x.kernel).1).1 with
  | ok u =>
      rw [hr] at hret hsess
      obtain rfl : ret = 0 := hret
      obtain ⟨T, hT, hnew⟩ := hsess
      refine ⟨0, m, { x with kernel := k' }, hpass, { views p with
        files := Function.update (views p).files file (some (Function.update t ses none)) },
        ⟨id, rfl, fun hne => absurd rfl hne, fun t' ht' _ => ?_⟩, ⟨hok', ?_⟩, .inl rfl⟩
      · cases ht.symm.trans ht'
        rw [hses]
        exact ⟨fun he => absurd he fsession_ne_gsession, fun he => absurd he.symm crypt_ne_fsession,
          fun _ => ⟨rfl, rfl⟩⟩
      · refine hb.session { x with kernel := k' } hkeeps hfds rfl ses _ ht hfd hT ?_ ?_ id ?_
        · rw [hhost]
          exact hnew
        · intro hnote
          rw [hhost]
          simp [hnote]
        · intro q u hq hu
          obtain hnone | hnone := hb.apart p q file t u hq.symm ht hu ses
          · rw [hnone] at hown
            cases hown
          · exact hnone
  | error e =>
      rw [hr] at hret hsess
      refine ⟨_, _, _, hpass, { views p with failed := true },
        ⟨fun _ => rfl, rfl, fun _ => ⟨rfl, rfl⟩, fun _ _ hzero => absurd hzero hret⟩, ⟨hok', ?_⟩, .inl rfl⟩
      apply hb.fails hfds
      · rw [hhost]
        exact hsess
      · rw [hhost]
        simp [hr, Except.isOk, Except.toBool]

omit hc hkeeps hgood in
theorem random_answers (addr n : Nat) (hproper : Proper minor random (views p) m (.random addr n)) :
    Answers K sessions cipher ok x views a p (.random addr n) m := by
  cases hr : a.random with
  | none =>
      refine ⟨-1, m, { x with starved := true }, by simp only [Shared.serve, hr], { views p with failed := true },
        ⟨fun _ => rfl, rfl, fun _ => rfl, fun hpos => absurd hpos (by decide)⟩, ⟨hok, ?_⟩, .inr rfl⟩
      exact hb.same { x with starved := true } rfl rfl rfl id (fun _ => rfl) true fun _ => .inr (.inr rfl)
  | some bytes =>
      have hlen : (bytes.take n).length ≤ n := by
        rw [List.length_take]
        omega
      obtain ⟨user, huser⟩ := Space.copyTo_writable m.space m.user addr (bytes.take n)
        fun i hi => hproper.2 i (by omega)
      refine ⟨(bytes.take n).length, { m with user }, x, by simp only [Shared.serve, hr, huser], views p,
        ⟨id, rfl, fun hneg => by omega, fun _ => ⟨bytes.take n, hlen, ?_⟩⟩, ⟨hok, ?_⟩, .inr rfl⟩
      · rw [Space.copyTo_write _ _ _ _ _ huser]
      · rwa [Function.update_eq_self]

omit hc hkeeps hgood in
theorem fork_answers : Answers K sessions cipher ok x views a p .fork m := by
  cases hf : a.forks with
  | true =>
      refine ⟨0, m, x, by simp only [Shared.serve, hf, if_true], views p,
        ⟨id, rfl, rfl, fun hneg => absurd hneg (by decide)⟩, ⟨hok, ?_⟩, .inl rfl⟩
      rwa [Function.update_eq_self]
  | false =>
      refine ⟨-1, m, { x with starved := true }, by simp [Shared.serve, hf], { views p with failed := true },
        ⟨fun _ => rfl, rfl, rfl, fun _ => rfl⟩, ⟨hok, ?_⟩, .inr rfl⟩
      exact hb.same { x with starved := true } rfl rfl rfl id (fun _ => rfl) true fun _ => .inr (.inr rfl)

end Serving

section Separate

theorem Proper.asks {v : View} {c : UserCall} (h : Proper minor random v m c) (hc : c.outside = true) :
    random := by
  cases c with
  | dev c => cases hc
  | random addr n => exact h.1
  | fork => exact h

-- Every process that shares the kernel gets what it may rely on.
theorem call_answers (hc : K.Conforms (noting h) minor good ok) (hkeeps : Keeps h sessions cipher)
    (hok : ok x.kernel) (hb : Books K sessions x views) (hgood : good a) (c : UserCall)
    (hproper : Proper minor random (views p) m c) : Answers K sessions cipher ok x views a p c m := by
  cases c with
  | random addr n => exact random_answers hok hb addr n hproper
  | fork => exact fork_answers hok hb
  | dev c =>
      cases c with
      | openDev n => exact open_answers hc hkeeps hok hb hgood n hproper
      | close file => exact close_answers hc hkeeps hok hb hgood file hproper
      | ioctl file cmd arg =>
          obtain ⟨t, ht, hcmd⟩ := hproper
          obtain ⟨rfl, hop, hkey, hmac, hwrite⟩ | ⟨rfl, hop, hsrc, hiv, hmac, hflags, hwrite, -⟩ |
            ⟨rfl, hhead, hown⟩ := hcmd
          · exact gsession_answers hc hkeeps hok hb hgood file arg t ht hop hkey hmac hwrite
          · exact crypt_answers hc hkeeps hok hb hgood file arg t ht hop hsrc hiv hmac hflags hwrite
          · exact fsession_answers hc hkeeps hok hb hgood file arg t ht hhead hown

-- A service with calls for the device only does not starve.
def separate (random : Prop) (hc : K.Conforms (noting h) minor good ok) (hkeeps : Keeps h sessions cipher) :
    Separate (sharing K) (contract cipher minor random) good View.nobody where
  holds := fun x views => (ok x.kernel ∧ Books K sessions x views) ∧ (¬random → x.starved = false)
  serves := by
    intro x views a p c m hx hgood hproper
    obtain ⟨ret, m', x', hserve, v, hpost, hbooks, hstarved⟩ := call_answers hc hkeeps hx.1.1 hx.1.2 hgood c hproper
    refine ⟨ret, m', x', hserve, v, hpost, hbooks, fun hnone => ?_⟩
    obtain hsame | houtside := hstarved
    · exact hsame.trans (hx.2 hnone)
    · exact absurd (Proper.asks hproper houtside) hnone
  splits := fun _ _ _ _ hx _ hq => ⟨⟨hx.1.1, hx.1.2.split hq⟩, hx.2⟩

end Separate

end CryptodevChat.User
