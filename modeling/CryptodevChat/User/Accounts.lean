import CryptodevChat.User.Sharing

namespace CryptodevChat.User

open Lib (Byte le fromLe Mem Space Service Contract Separate)
open Virtio

variable {σ τ : Type}

section Laws

-- What cryptodev keeps for each open descriptor of the host: its sessions. A call
-- that fails changes nothing, and a descriptor is gone once it is closed.
structure Keeps (h : Host σ) (sessions : σ → Int → Option (Nat → Option Session)) (cipher : CipherOf) :
    Prop where
  bad : ∀ s fd, fd < 0 → sessions s fd = none
  refuses : ∀ s, (h.openDev s).1 < 0 → sessions (h.openDev s).2 = sessions s
  opens : ∀ s, 0 ≤ (h.openDev s).1 → sessions s (h.openDev s).1 = none ∧
    sessions (h.openDev s).2 = Function.update (sessions s) (h.openDev s).1 (some fun _ => none)
  closes : ∀ s fd, sessions (h.closeDev fd s).2 = Function.update (sessions s) fd none
  gsession : ∀ s fd args, let r := h.gsession fd args s
    Ends r.1 (fun ses => ses < 2 ^ 32 ∧ ∃ t, sessions s fd = some t ∧ t ses = none ∧
      sessions r.2 = Function.update (sessions s) fd (some (Function.update t ses (some args))))
      (sessions r.2 = sessions s)
  fsession : ∀ s fd ses, let r := h.fsession fd ses s
    Ends r.1 (fun _ => ∃ t, sessions s fd = some t ∧
      sessions r.2 = Function.update (sessions s) fd (some (Function.update t ses none)))
      (sessions r.2 = sessions s)
  crypt : ∀ s fd args, let r := h.crypt fd args s
    sessions r.2 = sessions s ∧ Ends r.1 (fun out => ∃ t session, sessions s fd = some t ∧
      t args.ses = some session ∧ out.dst = cipher session args.op args.iv args.src) True

-- The host with a note of whether a call has failed.
def noting (h : Host σ) : Host (σ × Bool) where
  openDev := fun s => let r := h.openDev s.1; (r.1, r.2, s.2 || decide (r.1 < 0))
  closeDev := fun fd s => let r := h.closeDev fd s.1; (r.1, r.2, s.2 || decide (r.1 ≠ 0))
  gsession := fun fd args s => let r := h.gsession fd args s.1; (r.1, r.2, s.2 || !r.1.isOk)
  fsession := fun fd ses s => let r := h.fsession fd ses s.1; (r.1, r.2, s.2 || !r.1.isOk)
  crypt := fun fd args s => let r := h.crypt fd args s.1; (r.1, r.2, s.2 || !r.1.isOk)
  open_range := fun s => h.open_range s.1
  dst_length := by
    intro fd args s out s' hrun
    have hfst : (h.crypt fd args s.1).1 = .ok out := congrArg Prod.fst hrun
    exact h.dst_length fd args s.1 out (h.crypt fd args s.1).2 (Prod.ext hfst rfl)

end Laws

section Books

variable (K : Platform (σ × Bool) τ) (sessions : σ → Int → Option (Nat → Option Session))

-- The sessions that a process got are those of the host's descriptor for the file,
-- and nobody else has got one of them.
structure Books (x : Shared τ) (views : Nat → View) : Prop where
  table : ∀ p file t, (views p).files file = some t → p ∈ x.holders file ∧
    ∃ fd, (K.fds x.kernel)[file]? = some (some fd) ∧
      ∀ ses session, t ses = some session →
        ∃ T, sessions (K.host x.kernel).1 fd = some T ∧ T ses = some session
  only : ∀ p file, p ∈ x.holders file → ((views p).files file).isSome
  nodup : ∀ file, (x.holders file).Nodup
  apart : ∀ p q file t u, p ≠ q → (views p).files file = some t → (views q).files file = some u →
    ∀ ses, t ses = none ∨ u ses = none
  distinct : ∀ (file other : Nat) fd, 0 ≤ fd → (K.fds x.kernel)[file]? = some (some fd) →
    (K.fds x.kernel)[other]? = some (some fd) → file = other
  opened : ∀ (file : Nat) fd, 0 ≤ fd → (K.fds x.kernel)[file]? = some (some fd) →
    sessions (K.host x.kernel).1 fd ≠ none
  owned : ∀ fd, sessions (K.host x.kernel).1 fd ≠ none →
    ∃ file : Nat, (K.fds x.kernel)[file]? = some (some fd) ∧ x.holders file ≠ []
  failed : ∀ p, (views p).failed = true → (K.host x.kernel).2 = true ∨ x.starved = true

variable {K sessions} {h : Host σ} {cipher : CipherOf} {x : Shared τ} (x' : Shared τ) {views : Nat → View} {p : Nat}

-- The sessions of a table are there for who finds them in the host's.
def Listed (sessions : σ → Int → Option (Nat → Option Session)) (s : σ) (fd : Int) (t : Nat → Option Session) :
    Prop :=
  ∀ ses session, t ses = some session → ∃ T, sessions s fd = some T ∧ T ses = some session

-- A call of one process that leaves the files as they are.
theorem Books.change (hb : Books K sessions x views) (hfds : K.fds x'.kernel = K.fds x.kernel)
    (hholders : x'.holders = x.holders) (v : View)
    (hsome : ∀ file, (v.files file).isSome = ((views p).files file).isSome)
    (hmine : ∀ (file : Nat) t fd, v.files file = some t → (K.fds x.kernel)[file]? = some (some fd) →
      Listed sessions (K.host x'.kernel).1 fd t)
    (hothers : ∀ q (file : Nat) t fd, q ≠ p → (views q).files file = some t →
      (K.fds x.kernel)[file]? = some (some fd) → Listed sessions (K.host x.kernel).1 fd t →
      Listed sessions (K.host x'.kernel).1 fd t)
    (hapart : ∀ q file t u, q ≠ p → v.files file = some t → (views q).files file = some u →
      ∀ ses, t ses = none ∨ u ses = none)
    (hopened : ∀ fd, sessions (K.host x'.kernel).1 fd = none ↔ sessions (K.host x.kernel).1 fd = none)
    (hfailed : ∀ q, (Function.update views p v q).failed = true →
      (K.host x'.kernel).2 = true ∨ x'.starved = true) :
    Books K sessions x' (Function.update views p v) where
  table := by
    intro q file t ht
    rw [hholders, hfds]
    by_cases hq : q = p
    · subst hq
      rw [Function.update_self] at ht
      have hold : ((views q).files file).isSome := by
        rw [← hsome, ht]
        rfl
      obtain ⟨t', ht'⟩ := Option.isSome_iff_exists.mp hold
      obtain ⟨hmem, fd, hfd, -⟩ := hb.table q file t' ht'
      exact ⟨hmem, fd, hfd, hmine file t fd ht hfd⟩
    · rw [Function.update_of_ne hq] at ht
      obtain ⟨hmem, fd, hfd, hlisted⟩ := hb.table q file t ht
      exact ⟨hmem, fd, hfd, hothers q file t fd hq ht hfd hlisted⟩
  only := by
    intro q file hq
    rw [hholders] at hq
    have hold := hb.only q file hq
    by_cases hqp : q = p
    · subst hqp
      rwa [Function.update_self, hsome]
    · rwa [Function.update_of_ne hqp]
  nodup := by
    rw [hholders]
    exact hb.nodup
  apart := by
    intro q r file t u hne ht hu ses
    by_cases hq : q = p
    · subst hq
      rw [Function.update_self] at ht
      rw [Function.update_of_ne hne.symm] at hu
      exact hapart r file t u hne.symm ht hu ses
    · rw [Function.update_of_ne hq] at ht
      by_cases hr : r = p
      · subst hr
        rw [Function.update_self] at hu
        exact (hapart q file u t hne hu ht ses).symm
      · rw [Function.update_of_ne hr] at hu
        exact hb.apart q r file t u hne ht hu ses
  distinct := by
    rw [hfds]
    exact hb.distinct
  opened := by
    intro file fd hpos hfd
    rw [hfds] at hfd
    exact mt (hopened fd).mp (hb.opened file fd hpos hfd)
  owned := by
    intro fd hfd
    rw [hfds, hholders]
    exact hb.owned fd (mt (hopened fd).mpr hfd)
  failed := hfailed

-- A failure is noted for one process at most, and never forgotten.
theorem Books.failed_update (hb : Books K sessions x views) (v : View)
    (hnote : (K.host x.kernel).2 = true → (K.host x'.kernel).2 = true)
    (hstarved : x.starved = true → x'.starved = true)
    (hv : v.failed = true → (views p).failed = true ∨ (K.host x'.kernel).2 = true ∨ x'.starved = true)
    (q : Nat) (hq : (Function.update views p v q).failed = true) :
    (K.host x'.kernel).2 = true ∨ x'.starved = true := by
  have hold : ∀ r, (views r).failed = true → (K.host x'.kernel).2 = true ∨ x'.starved = true := by
    intro r hr
    exact (hb.failed r hr).imp hnote hstarved
  by_cases hqp : q = p
  · subst hqp
    rw [Function.update_self] at hq
    exact (hv hq).elim (hold q) id
  · rw [Function.update_of_ne hqp] at hq
    exact hold q hq

-- A call that changes no session and no file.
theorem Books.same (hb : Books K sessions x views) (hfds : K.fds x'.kernel = K.fds x.kernel)
    (hholders : x'.holders = x.holders)
    (hsessions : sessions (K.host x'.kernel).1 = sessions (K.host x.kernel).1)
    (hnote : (K.host x.kernel).2 = true → (K.host x'.kernel).2 = true)
    (hstarved : x.starved = true → x'.starved = true) (failed : Bool)
    (hfailed : failed = true → (views p).failed = true ∨ (K.host x'.kernel).2 = true ∨ x'.starved = true) :
    Books K sessions x' (Function.update views p { views p with failed }) := by
  refine hb.change x' hfds hholders _ (fun _ => rfl) ?_ ?_ ?_ (fun fd => by rw [hsessions])
    (hb.failed_update x' _ hnote hstarved hfailed)
  · intro file t fd ht hfd
    obtain ⟨-, fd', hfd', hlisted⟩ := hb.table p file t ht
    cases hfd.symm.trans hfd'
    unfold Listed
    rwa [hsessions]
  · intro q file t fd hq ht hfd hlisted
    unfold Listed
    rwa [hsessions]
  · intro q file t u hq ht hu ses
    exact hb.apart p q file t u hq.symm ht hu ses

theorem Books.lt_length (hb : Books K sessions x views) {file : Nat} {t : Nat → Option Session}
    (ht : (views p).files file = some t) : file < (K.fds x.kernel).length := by
  obtain ⟨-, fd, hfd, -⟩ := hb.table p file t ht
  exact (List.getElem?_eq_some_iff.mp hfd).1

section Added

variable {n q file : Nat} {t : Nat → Option Session} {fd fd' : Int}

-- The files of the processes after an open.
theorem files_opened (ht : (Function.update views p { views p with
      files := Function.update (views p).files n (some fun _ => none) } q).files file = some t) :
    file = n ∧ q = p ∧ t = (fun _ => none) ∨ (views q).files file = some t := by
  by_cases hq : q = p
  · subst hq
    rw [Function.update_self] at ht
    have ht : Function.update (views q).files n _ file = some t := ht
    by_cases hfile : file = n
    · subst hfile
      rw [Function.update_self] at ht
      cases ht
      exact .inl ⟨rfl, rfl, rfl⟩
    · rw [Function.update_of_ne hfile] at ht
      exact .inr ht
  · rw [Function.update_of_ne hq] at ht
    exact .inr ht

theorem fds_opened {fds : List (Option Int)} (hfd' : (fds ++ [some fd])[file]? = some (some fd')) :
    fds[file]? = some (some fd') ∨ file = fds.length ∧ fd' = fd := by
  by_cases hlt : file < fds.length
  · exact .inl (by rwa [List.getElem?_append_left hlt] at hfd')
  · obtain ⟨hlen, -⟩ := List.getElem?_eq_some_iff.mp hfd'
    have hfile : file = fds.length := by
      rw [List.length_append, List.length_singleton] at hlen
      omega
    subst hfile
    rw [List.getElem?_concat_length] at hfd'
    cases hfd'
    exact .inr ⟨rfl, rfl⟩

variable (hsessions : fd < 0 ∧ sessions (K.host x'.kernel).1 = sessions (K.host x.kernel).1 ∨
  0 ≤ fd ∧ sessions (K.host x.kernel).1 fd = none ∧ sessions (K.host x'.kernel).1 =
    Function.update (sessions (K.host x.kernel).1) fd (some fun _ => none))
include hsessions

-- What was open on the host is so still.
theorem listed_opened (hold : Listed sessions (K.host x.kernel).1 fd' t) :
    Listed sessions (K.host x'.kernel).1 fd' t := by
  intro ses session ht
  obtain ⟨T, hT, hses⟩ := hold ses session ht
  refine ⟨T, ?_, hses⟩
  obtain ⟨-, hsame⟩ | ⟨-, hfresh, hnew⟩ := hsessions
  · rwa [hsame]
  · have hne : fd' ≠ fd := by
      rintro rfl
      rw [hfresh] at hT
      cases hT
    rwa [hnew, Function.update_of_ne hne]

-- An open descriptor is an old one, or the new one.
theorem open_opened (hfd' : sessions (K.host x'.kernel).1 fd' ≠ none) :
    sessions (K.host x.kernel).1 fd' ≠ none ∨ fd' = fd := by
  obtain ⟨-, hsame⟩ | ⟨-, -, hsess⟩ := hsessions
  · exact .inl (by rwa [hsame] at hfd')
  · by_cases hfd : fd' = fd
    · exact .inr hfd
    · exact .inl (by rwa [hsess, Function.update_of_ne hfd] at hfd')

theorem Books.fresh (hb : Books K sessions x views) (hpos : 0 ≤ fd') (hfd : 0 ≤ fd)
    (hfd' : (K.fds x.kernel)[file]? = some (some fd')) : fd' ≠ fd := by
  rintro rfl
  obtain ⟨hneg, -⟩ | ⟨-, hfresh, -⟩ := hsessions
  · omega
  · exact hb.opened file fd' hpos hfd' hfresh

-- A new file, for which the host may have refused a descriptor.
theorem Books.added (hb : Books K sessions x views)
    (hfds : K.fds x'.kernel = K.fds x.kernel ++ [some fd])
    (hholders : x'.holders = Function.update x.holders (K.fds x.kernel).length [p])
    (hnote : (K.host x.kernel).2 = true → (K.host x'.kernel).2 = true)
    (hstarved : x.starved = true → x'.starved = true) :
    Books K sessions x' (Function.update views p { views p with
      files := Function.update (views p).files (K.fds x.kernel).length (some fun _ => none) }) where
  table := by
    intro q file t ht
    obtain ⟨rfl, rfl, rfl⟩ | ht := files_opened ht
    · refine ⟨by rw [hholders, Function.update_self]; simp, fd, ?_, fun ses session hnone => by cases hnone⟩
      rw [hfds, List.getElem?_concat_length]
    · have hlt := hb.lt_length ht
      obtain ⟨hmem, fd', hfd', hl⟩ := hb.table q file t ht
      refine ⟨by rwa [hholders, Function.update_of_ne (by omega)], fd', ?_, listed_opened x' hsessions hl⟩
      rwa [hfds, List.getElem?_append_left hlt]
  only := by
    intro q file hq
    rw [hholders] at hq
    by_cases hfile : file = (K.fds x.kernel).length
    · subst hfile
      rw [Function.update_self, List.mem_singleton] at hq
      subst hq
      rw [Function.update_self]
      simp
    · rw [Function.update_of_ne hfile] at hq
      have hold := hb.only q file hq
      by_cases hqp : q = p
      · subst hqp
        rw [Function.update_self]
        simpa [Function.update_of_ne hfile] using hold
      · rwa [Function.update_of_ne hqp]
  nodup := by
    intro file
    rw [hholders]
    by_cases hfile : file = (K.fds x.kernel).length
    · subst hfile
      rw [Function.update_self]
      simp
    · rw [Function.update_of_ne hfile]
      exact hb.nodup file
  apart := by
    intro q r file t u hne ht hu ses
    obtain ⟨-, -, rfl⟩ | ht := files_opened ht
    · exact .inl rfl
    · obtain ⟨-, -, rfl⟩ | hu := files_opened hu
      · exact .inr rfl
      · exact hb.apart q r file t u hne ht hu ses
  distinct := by
    intro file other fd' hpos hfile hother
    rw [hfds] at hfile hother
    obtain hf | ⟨hf, rfl⟩ := fds_opened hfile
    · obtain ho | ⟨ho, rfl⟩ := fds_opened hother
      · exact hb.distinct file other fd' hpos hf ho
      · exact absurd rfl (hb.fresh x' hsessions hpos hpos hf)
    · obtain ho | ⟨ho, -⟩ := fds_opened hother
      · exact absurd rfl (hb.fresh x' hsessions hpos hpos ho)
      · rw [hf, ho]
  opened := by
    intro file fd' hpos hfd'
    rw [hfds] at hfd'
    have hold := fds_opened hfd'
    obtain ⟨hneg, hsame⟩ | ⟨hfdpos, -, hsess⟩ := id hsessions
    · obtain hf | ⟨-, rfl⟩ := hold
      · rw [hsame]
        exact hb.opened file fd' hpos hf
      · omega
    · obtain hf | ⟨-, rfl⟩ := hold
      · rw [hsess, Function.update_of_ne (hb.fresh x' hsessions hpos hfdpos hf)]
        exact hb.opened file fd' hpos hf
      · simp [hsess]
  owned := by
    intro fd' hfd'
    rw [hfds, hholders]
    obtain ho | rfl := open_opened x' hsessions hfd'
    · obtain ⟨file, hfile, hheld⟩ := hb.owned fd' ho
      have hlt := (List.getElem?_eq_some_iff.mp hfile).1
      exact ⟨file, by rwa [List.getElem?_append_left hlt], by rwa [Function.update_of_ne (by omega)]⟩
    · refine ⟨(K.fds x.kernel).length, ?_, by rw [Function.update_self]; simp⟩
      rw [List.getElem?_concat_length]
  failed := hb.failed_update x' _ hnote hstarved fun hv => .inl hv

end Added

-- The table of a process finds its own session in the host's.
theorem Books.find (hb : Books K sessions x views) {file : Nat} {t T : Nat → Option Session} {fd : Int}
    (ht : (views p).files file = some t) (hfd : (K.fds x.kernel)[file]? = some (some fd))
    (hT : sessions (K.host x.kernel).1 fd = some T) {ses : Nat} {session : Session} (hses : t ses = some session) :
    T ses = some session := by
  obtain ⟨-, fd', hfd', hlisted⟩ := hb.table p file t ht
  cases hfd.symm.trans hfd'
  obtain ⟨T', hT', hfound⟩ := hlisted ses session hses
  cases hT.symm.trans hT'
  exact hfound

section Session

variable (hb : Books K sessions x views) (hkeeps : Keeps h sessions cipher) (hfds : K.fds x'.kernel = K.fds x.kernel)
  (hholders : x'.holders = x.holders) {file : Nat} {t T : Nat → Option Session} {fd : Int} (ses : Nat)
  (slot : Option Session) (ht : (views p).files file = some t)
  (hfd : (K.fds x.kernel)[file]? = some (some fd)) (hT : sessions (K.host x.kernel).1 fd = some T)
  (hnew : sessions (K.host x'.kernel).1 =
    Function.update (sessions (K.host x.kernel).1) fd (some (Function.update T ses slot)))
  (hnote : (K.host x.kernel).2 = true → (K.host x'.kernel).2 = true)
  (hstarved : x.starved = true → x'.starved = true)

include hb hkeeps hfds hholders ht hfd hT hnew hnote hstarved

-- A session of a process that is new, or that it gives back.
theorem Books.session (hothers : ∀ q u, q ≠ p → (views q).files file = some u → u ses = none) :
    Books K sessions x' (Function.update views p
      { views p with files := Function.update (views p).files file (some (Function.update t ses slot)) }) := by
  have hlist : ∀ (other : Nat) u fd', (K.fds x.kernel)[other]? = some (some fd') →
      Listed sessions (K.host x.kernel).1 fd' u → (other = file → u ses = none) →
      Listed sessions (K.host x'.kernel).1 fd' u := by
    intro other u fd' hfd' hold hother ses' session hu
    obtain ⟨T', hT', hfound⟩ := hold ses' session hu
    rw [hnew]
    by_cases he : fd' = fd
    · subst he
      have hpos : 0 ≤ fd' := by
        by_contra hneg
        rw [hkeeps.bad _ _ (by omega)] at hT
        cases hT
      have hnone := hother (hb.distinct other file fd' hpos hfd' hfd)
      have hne : ses' ≠ ses := by
        rintro rfl
        rw [hnone] at hu
        cases hu
      cases hT.symm.trans hT'
      exact ⟨_, Function.update_self .., by rwa [Function.update_of_ne hne]⟩
    · exact ⟨T', by rwa [Function.update_of_ne he], hfound⟩
  refine hb.change x' hfds hholders _ ?_ ?_ ?_ ?_ ?_ (hb.failed_update x' _ hnote hstarved .inl)
  · intro other
    by_cases ho : other = file
    · subst ho
      simp [ht]
    · simp [Function.update_of_ne ho]
  · intro other u fd' hu hfd'
    have hu : Function.update (views p).files file (some (Function.update t ses slot)) other = some u := hu
    by_cases ho : other = file
    · subst ho
      rw [Function.update_self] at hu
      cases hu
      cases hfd.symm.trans hfd'
      intro ses' session hses'
      rw [hnew]
      refine ⟨_, Function.update_self .., ?_⟩
      by_cases he : ses' = ses
      · subst he
        rwa [Function.update_self] at hses' ⊢
      · rw [Function.update_of_ne he] at hses' ⊢
        exact hb.find ht hfd hT hses'
    · rw [Function.update_of_ne ho] at hu
      obtain ⟨-, fd'', hfd'', hlisted⟩ := hb.table p other u hu
      cases hfd'.symm.trans hfd''
      exact hlist other u fd' hfd' hlisted fun he => absurd he ho
  · intro q other u fd' hq hu hfd' hlisted
    refine hlist other u fd' hfd' hlisted ?_
    rintro rfl
    exact hothers q u hq hu
  · intro q other t' u hq ht' hu ses'
    have ht' : Function.update (views p).files file (some (Function.update t ses slot)) other = some t' := ht'
    by_cases ho : other = file
    · subst ho
      rw [Function.update_self] at ht'
      cases ht'
      by_cases he : ses' = ses
      · subst he
        exact .inr (hothers q u hq hu)
      · rw [Function.update_of_ne he]
        exact hb.apart p q other t u hq.symm ht hu ses'
    · rw [Function.update_of_ne ho] at ht'
      exact hb.apart p q other t' u hq.symm ht' hu ses'
  · intro fd'
    rw [hnew]
    by_cases he : fd' = fd
    · subst he
      simp [hT]
    · rw [Function.update_of_ne he]

end Session

section Closed

variable {q file other : Nat} {t : Nat → Option Session} {fd fd' : Int} {failed : Bool}

-- The files of the processes after a close.
theorem files_closed (ht : (Function.update views p
      ⟨Function.update (views p).files file none, failed⟩ q).files other = some t) :
    (views q).files other = some t ∧ (other = file → q ≠ p) := by
  by_cases hq : q = p
  · subst hq
    rw [Function.update_self] at ht
    have ht : Function.update (views q).files file none other = some t := ht
    by_cases ho : other = file
    · subst ho
      rw [Function.update_self] at ht
      cases ht
    · rw [Function.update_of_ne ho] at ht
      exact ⟨ht, fun he => absurd he ho⟩
  · rw [Function.update_of_ne hq] at ht
    exact ⟨ht, fun _ => hq⟩

-- A file that one process closes stays open for the others, and with the last of them
-- the descriptor of the host is gone.
variable (hclose : (x.holders file).erase p ≠ [] ∧ K.fds x'.kernel = K.fds x.kernel ∧
    sessions (K.host x'.kernel).1 = sessions (K.host x.kernel).1 ∨
  (x.holders file).erase p = [] ∧ K.fds x'.kernel = (K.fds x.kernel).set file none ∧
    sessions (K.host x'.kernel).1 = Function.update (sessions (K.host x.kernel).1) fd none)
include hclose

theorem fds_closed : (K.fds x'.kernel)[other]? = some (some fd') ↔
    (K.fds x.kernel)[other]? = some (some fd') ∧ (other = file → (x.holders file).erase p ≠ []) := by
  obtain ⟨hheld, hfds, -⟩ | ⟨hgone, hfds, -⟩ := hclose
  · rw [hfds]
    exact ⟨fun hfd' => ⟨hfd', fun _ => hheld⟩, And.left⟩
  · rw [hfds, List.getElem?_set]
    by_cases ho : file = other
    · rw [if_pos ho]
      constructor
      · intro hfd'
        split_ifs at hfd'
        cases hfd'
      · exact fun hfd' => absurd hgone (hfd'.2 ho.symm)
    · rw [if_neg ho]
      exact ⟨fun hfd' => ⟨hfd', fun he => absurd he.symm ho⟩, And.left⟩

theorem open_closed (hfd' : sessions (K.host x'.kernel).1 fd' ≠ none) :
    sessions (K.host x.kernel).1 fd' ≠ none ∧ (fd' = fd → (x.holders file).erase p ≠ []) := by
  obtain ⟨hheld, -, hsame⟩ | ⟨-, -, hsess⟩ := hclose
  · exact ⟨by rwa [hsame] at hfd', fun _ => hheld⟩
  · have hne : fd' ≠ fd := by
      rintro rfl
      rw [hsess, Function.update_self] at hfd'
      exact hfd' rfl
    exact ⟨by rwa [hsess, Function.update_of_ne hne] at hfd', fun he => absurd he hne⟩

-- What is open on the host under another file stays as it is.
theorem Books.beside (hb : Books K sessions x views) (hfile : (K.fds x.kernel)[file]? = some (some fd))
    (hpos : 0 ≤ fd') (hfd' : (K.fds x.kernel)[other]? = some (some fd'))
    (hheld : other = file → (x.holders file).erase p ≠ []) :
    sessions (K.host x'.kernel).1 fd' = sessions (K.host x.kernel).1 fd' := by
  obtain ⟨-, -, hsame⟩ | ⟨hgone, -, hsess⟩ := hclose
  · rw [hsame]
  · have hne : fd' ≠ fd := by
      rintro rfl
      exact hheld (hb.distinct other file fd' hpos hfd' hfile) hgone
    rw [hsess, Function.update_of_ne hne]

theorem Books.closed (hb : Books K sessions x views) (hkeeps : Keeps h sessions cipher)
    (hfile : (K.fds x.kernel)[file]? = some (some fd))
    (hholders : x'.holders = Function.update x.holders file ((x.holders file).erase p))
    (hnote : (K.host x.kernel).2 = true → (K.host x'.kernel).2 = true)
    (hstarved : x.starved = true → x'.starved = true) (failed : Bool)
    (hfailed : failed = true → (views p).failed = true ∨ (K.host x'.kernel).2 = true ∨ x'.starved = true) :
    Books K sessions x' (Function.update views p
      ⟨Function.update (views p).files file none, failed⟩) where
  table := by
    intro q other t ht
    obtain ⟨ht, hq⟩ := files_closed ht
    obtain ⟨hmem, fd', hfd', hlisted⟩ := hb.table q other t ht
    have hmem' : q ∈ x'.holders other := by
      rw [hholders]
      by_cases ho : other = file
      · subst ho
        rw [Function.update_self]
        exact (List.mem_erase_of_ne (hq rfl)).mpr hmem
      · rwa [Function.update_of_ne ho]
    have hheld : other = file → (x.holders file).erase p ≠ [] := by
      rintro rfl
      rw [hholders, Function.update_self] at hmem'
      exact List.ne_nil_of_mem hmem'
    refine ⟨hmem', fd', (fds_closed x' hclose).mpr ⟨hfd', hheld⟩, fun ses session hses => ?_⟩
    obtain ⟨T, hT, hses⟩ := hlisted ses session hses
    have hpos : 0 ≤ fd' := by
      by_contra hneg
      rw [hkeeps.bad _ _ (by omega)] at hT
      cases hT
    exact ⟨T, by rwa [hb.beside x' hclose hfile hpos hfd' hheld], hses⟩
  only := by
    intro q other hq
    rw [hholders] at hq
    by_cases ho : other = file
    · subst ho
      rw [Function.update_self] at hq
      have hqp : q ≠ p := by
        rintro rfl
        exact (hb.nodup other).not_mem_erase hq
      rw [Function.update_of_ne hqp]
      exact hb.only q other (List.mem_of_mem_erase hq)
    · rw [Function.update_of_ne ho] at hq
      have hsome := hb.only q other hq
      by_cases hqp : q = p
      · subst hqp
        rw [Function.update_self]
        simpa [Function.update_of_ne ho] using hsome
      · rwa [Function.update_of_ne hqp]
  nodup := by
    intro other
    rw [hholders]
    by_cases ho : other = file
    · subst ho
      rw [Function.update_self]
      exact (hb.nodup other).erase p
    · rw [Function.update_of_ne ho]
      exact hb.nodup other
  apart := fun q r other t u hne ht hu => hb.apart q r other t u hne (files_closed ht).1 (files_closed hu).1
  distinct := fun one other fd' hpos hone hother => hb.distinct one other fd' hpos
    ((fds_closed x' hclose).mp hone).1 ((fds_closed x' hclose).mp hother).1
  opened := by
    intro other fd' hpos hother
    obtain ⟨hother, hheld⟩ := (fds_closed x' hclose).mp hother
    rw [hb.beside x' hclose hfile hpos hother hheld]
    exact hb.opened other fd' hpos hother
  owned := by
    intro fd' hfd'
    obtain ⟨hopen, hheld'⟩ := open_closed x' hclose hfd'
    obtain ⟨other, hother, hheld⟩ := hb.owned fd' hopen
    have hsame : other = file → (x.holders file).erase p ≠ [] := by
      rintro rfl
      rw [hfile] at hother
      cases hother
      exact hheld' rfl
    refine ⟨other, (fds_closed x' hclose).mpr ⟨hother, hsame⟩, ?_⟩
    rw [hholders]
    by_cases ho : other = file
    · subst ho
      rw [Function.update_self]
      exact hsame rfl
    · rwa [Function.update_of_ne ho]
  failed := hb.failed_update x' _ hnote hstarved hfailed

end Closed

section Split

variable {q : Nat}

theorem Books.stranger (hb : Books K sessions x views) (hq : views q = View.nobody) (file : Nat) :
    q ∉ x.holders file := by
  intro hmem
  have hsome := hb.only q file hmem
  rw [hq] at hsome
  cases hsome

theorem mem_split (x : Shared τ) (p q r file : Nat) :
    r ∈ (x.split p q).holders file ↔ r ∈ x.holders file ∨ r = q ∧ p ∈ x.holders file := by
  simp only [Shared.split]
  split_ifs with hp
  · rw [List.mem_cons]
    tauto
  · tauto

theorem files_child {v : View} {file : Nat} {t : Nat → Option Session} (ht : v.child.files file = some t) :
    t = (fun _ => none) ∧ ∃ u, v.files file = some u := by
  obtain ⟨u, hu, rfl⟩ := Option.map_eq_some_iff.mp ht
  exact ⟨rfl, u, hu⟩

-- A copy of a process has the same files, and no session.
theorem Books.split (hb : Books K sessions x views) (hq : views q = View.nobody) :
    Books K sessions (x.split p q) (Function.update views q (views p).child) where
  table := by
    intro r file t ht
    by_cases hr : r = q
    · subst hr
      rw [Function.update_self] at ht
      obtain ⟨rfl, u, hu⟩ := files_child ht
      obtain ⟨hheld, fd, hfd, -⟩ := hb.table p file u hu
      exact ⟨(mem_split x p r r file).mpr (.inr ⟨rfl, hheld⟩), fd, hfd, fun ses session hnone => by cases hnone⟩
    · rw [Function.update_of_ne hr] at ht
      obtain ⟨hheld, hrest⟩ := hb.table r file t ht
      exact ⟨(mem_split x p q r file).mpr (.inl hheld), hrest⟩
  only := by
    intro r file hr
    have hold := (mem_split x p q r file).mp hr
    by_cases hrq : r = q
    · subst hrq
      rw [Function.update_self]
      have hp : p ∈ x.holders file := hold.elim (fun hold => absurd hold (hb.stranger hq file)) And.right
      simpa [View.child] using hb.only p file hp
    · rw [Function.update_of_ne hrq]
      exact hb.only r file (hold.elim id fun he => absurd he.1 hrq)
  nodup := by
    intro file
    simp only [Shared.split]
    split_ifs
    · exact List.nodup_cons.mpr ⟨hb.stranger hq file, hb.nodup file⟩
    · exact hb.nodup file
  apart := by
    intro r r' file t u hne' ht hu ses
    by_cases hr : r = q
    · subst hr
      rw [Function.update_self] at ht
      rw [(files_child ht).1]
      exact .inl rfl
    · by_cases hr' : r' = q
      · subst hr'
        rw [Function.update_self] at hu
        rw [(files_child hu).1]
        exact .inr rfl
      · rw [Function.update_of_ne hr] at ht
        rw [Function.update_of_ne hr'] at hu
        exact hb.apart r r' file t u hne' ht hu ses
  distinct := hb.distinct
  opened := hb.opened
  owned := by
    intro fd hfd
    obtain ⟨file, hfile, hheld⟩ := hb.owned fd hfd
    obtain ⟨r, hr⟩ := List.exists_mem_of_ne_nil _ hheld
    exact ⟨file, hfile, List.ne_nil_of_mem ((mem_split x p q r file).mpr (.inl hr))⟩
  failed := by
    intro r hr
    by_cases hrq : r = q
    · subst hrq
      rw [Function.update_self] at hr
      exact hb.failed p hr
    · rw [Function.update_of_ne hrq] at hr
      exact hb.failed r hr

end Split

end Books

end CryptodevChat.User
