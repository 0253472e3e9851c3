import CryptodevChat.User.Contract
import CryptodevChat.User.Desk
import CryptodevChat.User.Crypt

namespace CryptodevChat.User

open Lib (Byte le fromLe Space Client Objects splice Run System Service Pick)
open Virtio
open Chat (DATA_SIZE BLOCK_SIZE KEY_SIZE CRYPTO_AES_CBC COP_ENCRYPT COP_DECRYPT pad)

variable {σ τ α : Type} {K : Platform (σ × Bool) τ} {sessions : σ → Int → Option (Nat → Option Session)}
  {h : Host σ} {cipher : CipherOf} {minor : Nat} {random : Prop} {good : Setting → Prop} {ok : τ → Prop}

section Start

abbrev Processes (τ α : Type) := System (Shared τ) Process UserCall Int α

-- Nothing is open yet.
structure Fresh (K : Platform (σ × Bool) τ) (sessions : σ → Int → Option (Nat → Option Session)) (k : τ) : Prop where
  files : K.fds k = []
  closed : ∀ fd, sessions (K.host k).1 fd = none

theorem Fresh.books {k : τ} (hk : Fresh K sessions k) : Books K sessions (Shared.boot k) fun _ => View.nobody := by
  have hfds : ∀ (file : Nat) fd, (K.fds (Shared.boot k).kernel)[file]? ≠ some (some fd) := by
    intro file fd hfile
    rw [show K.fds (Shared.boot k).kernel = [] from hk.files] at hfile
    cases hfile
  constructor
  · intro p file t ht
    cases ht
  · intro p file hp
    cases hp
  · intro file
    exact List.nodup_nil
  · intro p q file t u _ ht
    cases ht
  · intro file other fd _ hfile
    exact absurd hfile (hfds file fd)
  · intro file fd _ hfile
    exact absurd hfile (hfds file fd)
  · intro fd hfd
    exact absurd (hk.closed fd) hfd
  · intro p hp
    cases hp

variable (random) {goals : Nat → α → Process → View → Prop} {s s' : Processes τ α} {actions : List (Pick Setting)}
  (hc : K.Conforms (noting h) minor good ok) (hkeeps : Keeps h sessions cipher)
include hc hkeeps

theorem kept_start {k : τ} (hok : ok k) (hfresh : Fresh K sessions k) (hs : s.service = Shared.boot k)
    (hcount : ∃ n, ∀ p, n ≤ p → s.procs p = none)
    (hmeets : ∀ p proc, s.procs p = some proc →
      proc.prog.Meets (contract cipher minor random) (goals p) proc.mem View.nobody) :
    (separate random hc hkeeps).Kept goals s fun _ => View.nobody where
  holds := by
    rw [hs]
    exact ⟨⟨hok, hfresh.books⟩, fun _ => rfl⟩
  absent := fun _ _ => rfl
  meets := hmeets
  numbered := hcount

-- What each process of a run has come to.
structure Outcome (K : Platform (σ × Bool) τ) (good : Setting → Prop) (random : Prop) (s : Processes τ α) (p : Nat)
    (goal : α → Process → View → Prop) (last : Lib.Process Process UserCall Int α) : Prop where
  finishes : (sharing K).Finishes good p s
  goes : ¬last.prog.Over → ∀ a, a.process = p → good a.around → a.copy ≠ 0 → s.procs a.copy = none →
    ∃ s', (sharing K).step s a = some s'
  returned : ∀ a, last.prog = .ret a → ∃ v, goal a last.mem v ∧
    (v.failed = true → (K.host s.service.kernel).2 = true ∨ s.service.starved = true)
  exited : ∀ status, last.prog = .exit status → (K.host s.service.kernel).2 = true ∨ s.service.starved = true
  starved : ¬random → s.service.starved = false

variable {random}

theorem outcome_of_kept {views : Nat → View} (hk : (separate random hc hkeeps).Kept goals s views)
    (hgood : ∃ e, good e) {p : Nat} {last : Lib.Process Process UserCall Int α} (hp : s.procs p = some last) :
    Outcome K good random s p (goals p) last := by
  obtain ⟨e, he⟩ := hgood
  have hmeets := hk.meets p last hp
  refine ⟨hk.finishes _ e he hp, fun hover a ha hgood hzero hfree => ?_, fun a ha => ?_, fun status hstatus => ?_,
    hk.holds.2⟩
  · obtain ⟨u, -, -, hstep, -⟩ := hk.step _ hp hover a ha hgood ⟨hzero, hfree⟩
    exact ⟨u, hstep⟩
  · rw [ha] at hmeets
    exact ⟨views p, hmeets, hk.holds.1.2.failed p⟩
  · rw [hstatus] at hmeets
    exact hk.holds.1.2.failed p (hmeets.2 (by decide))

theorem outcome_of_run {views : Nat → View} (hk : (separate random hc hkeeps).Kept goals s views)
    (run : Run (sharing K).step (fun _ a => good a.around) s actions s') (hgood : ∃ e, good e) {p : Nat}
    {first : Lib.Process Process UserCall Int α} (hp : s.procs p = some first) :
    ∃ last, s'.procs p = some last ∧ Outcome K good random s' p (goals p) last := by
  obtain ⟨views', goals', hk', hsame, -⟩ := hk.run _ run
  obtain ⟨last, hlast⟩ := Option.ne_none_iff_exists'.mp (run.invariant (I := fun s => s.procs p ≠ none)
    (by simp [hp]) fun _ _ _ hq _ hstep => Service.step_procs hstep hq)
  have hout := outcome_of_kept hc hkeeps hk' hgood hlast
  rw [hsame p (by simp [hp])] at hout
  exact ⟨last, hlast, hout⟩

-- Once every process is over, nothing is open on the host.
theorem closed_of_run {views : Nat → View} (hk : (separate random hc hkeeps).Kept goals s views)
    (run : Run (sharing K).step (fun _ a => good a.around) s actions s')
    (hgoals : ∀ p a m v, goals p a m v → ∀ file, v.files file = none)
    (hover : ∀ p last, s'.procs p = some last → last.prog.Over) (fd : Int) :
    sessions (K.host s'.service.kernel).1 fd = none := by
  obtain ⟨views', goals', hk', -, hcopies⟩ := hk.run _ run
  have hnone : ∀ p file, (views' p).files file = none := by
    intro p file
    cases hp : s'.procs p with
    | none =>
        rw [hk'.absent p hp]
        rfl
    | some last =>
        obtain ⟨mem, prog⟩ := last
        have hmeets := hk'.meets p _ hp
        have hend := hover p _ hp
        obtain ⟨q, hq⟩ := hcopies p
        rw [hq] at hmeets
        cases prog with
        | ret a => exact hgoals q a mem _ hmeets file
        | exit status => exact hmeets.1 file
        | get next | put m next | call c next | fork next => exact absurd hend not_false
  by_contra hopen
  obtain ⟨file, -, hheld⟩ := hk'.holds.1.2.owned fd hopen
  obtain ⟨p, hp⟩ := List.exists_mem_of_ne_nil _ hheld
  have hsome := hk'.holds.1.2.only p file hp
  rw [hnone p file] at hsome
  cases hsome

end Start

section Jobs

-- What a process does with its buffer, one thing after another.
inductive Job
  | encrypt (encS : Nat)
  | decrypt

def Job.Fits : Job → Prop
  | .encrypt encS => encS ≤ DATA_SIZE
  | .decrypt => True

def Job.program (o : Objects Name) (minor : Nat) : Job → Program Unit
  | .encrypt encS => User.encrypt o minor encS
  | .decrypt => User.decrypt o minor

def jobs (o : Objects Name) (minor : Nat) : List Job → Program Unit
  | [] => .ret ()
  | j :: rest => do
      j.program o minor
      jobs o minor rest

-- The same for the chat, which has a device of its own.
def Job.chat (env : Chat.Env) (buffer : List Byte) : Job → Chat.Proc (List Byte)
  | .encrypt encS => Chat.encrypt env buffer encS
  | .decrypt => Chat.decrypt env buffer

def chatJobs (env : Chat.Env) : List Job → List Byte → Chat.Proc (List Byte)
  | [], buffer => pure buffer
  | j :: rest, buffer => do
      let buffer ← j.chat env buffer
      chatJobs env rest buffer

-- The cipher of the host is that of the chat's device.
structure Agrees (cipher : CipherOf) {dev : Chat.Cryptodev} (c : Chat.Cipher dev) : Prop where
  enc : ∀ block, block.length = DATA_SIZE → cipher chatSession COP_ENCRYPT Chat.iv block = c.enc block
  dec : ∀ block, block.length = DATA_SIZE → cipher chatSession COP_DECRYPT Chat.iv block = c.dec block

variable {env : Chat.Env} {o : Objects Name} {sp : Space} {vals : Name → List Byte} {m : Process} {v : View}
  (c : Chat.Cipher env.dev) (ha : Agrees cipher c)
include ha

theorem meets_job (hl : Framed o sp) (hm : At o sp vals noFiles m v) (j : Job) (hj : j.Fits) :
    (j.program o minor).Meets (contract cipher minor random) (fun _ m v => ∃ vals', At o sp vals' noFiles m v ∧
      ∀ w, j.chat env (vals .buffer) w = .ok (vals' .buffer) w) m v := by
  have hbuffer : DATA_SIZE ≤ (vals .buffer).length := by
    rw [hm.length]
    exact hl.buffer_size
  have hsplice : ∀ image : List Byte, image.length = DATA_SIZE →
      splice (vals .buffer) 0 image = image ++ (vals .buffer).drop DATA_SIZE := by
    intro image himage
    simp [splice, himage]
  cases j with
  | encrypt encS =>
      refine meets_encrypt hl hm encS hj fun m v vals' hlen hvals hm' => ⟨vals', hm', fun w => ?_⟩
      have hpad : (pad ((vals .buffer).take encS)).length = DATA_SIZE :=
        Chat.pad_length _ (Nat.le_trans (List.length_take_le _ _) hj)
      rw [hvals, hsplice _ hlen, ha.enc _ hpad]
      exact Chat.encrypt_run env c _ encS w hbuffer hj
  | decrypt =>
      refine meets_decrypt hl hm fun m v vals' hlen hvals hm' => ⟨vals', hm', fun w => ?_⟩
      have hblock : ((vals .buffer).take DATA_SIZE).length = DATA_SIZE := by
        rw [List.length_take]
        omega
      rw [hvals, hsplice _ hlen, ha.dec _ hblock]
      exact Chat.decrypt_run env c _ w hbuffer

theorem meets_jobs (hl : Framed o sp) (js : List Job) (hm : At o sp vals noFiles m v) (hjs : ∀ j ∈ js, j.Fits) :
    (jobs o minor js).Meets (contract cipher minor random) (fun _ m v => ∃ vals', At o sp vals' noFiles m v ∧
      ∀ w, chatJobs env js (vals .buffer) w = .ok (vals' .buffer) w) m v := by
  induction js generalizing vals m v with
  | nil => exact ⟨vals, hm, fun _ => rfl⟩
  | cons j rest ih =>
      obtain ⟨hj, hrest⟩ := List.forall_mem_cons.mp hjs
      rw [jobs, Client.meets_bind]
      refine (meets_job c ha hl hm j hj).mono fun _ m' v' hfirst => ?_
      obtain ⟨vals', hm', hchat⟩ := hfirst
      refine (ih hm' hrest).mono fun _ m'' v'' hlast => ?_
      obtain ⟨vals'', hm'', hchats⟩ := hlast
      refine ⟨vals'', hm'', fun w => ?_⟩
      rw [chatJobs, Chat.bind_ok _ _ _ _ _ (hchat w)]
      exact hchats w

def bufferOf (o : Objects Name) (m : Process) : List Byte := o.val m.space m.user .buffer

-- Any number of processes, each with a list of jobs.
structure Crowd (minor : Nat) (o : Nat → Objects Name) (js : Nat → List Job) (k : τ) (s : Processes τ Unit) :
    Prop where
  service : s.service = Shared.boot k
  count : ∃ n, ∀ p, n ≤ p → s.procs p = none
  program : ∀ p proc, s.procs p = some proc → proc.prog = jobs (o p) minor (js p)
  framed : ∀ p proc, s.procs p = some proc → Framed (o p) proc.mem.space
  fits : ∀ p, ∀ j ∈ js p, j.Fits

-- What a process ends with: nothing open, and the buffer that the chat would have.
def JobGoal (env : Chat.Env) (o : Objects Name) (js : List Job) (m : Process) : Unit → Process → View → Prop :=
  fun _ m' v => (∀ file, v.files file = none) ∧ ∀ w, chatJobs env js (bufferOf o m) w = .ok (bufferOf o m') w

theorem meets_goal (hl : Framed o m.space) (js : List Job) (hjs : ∀ j ∈ js, j.Fits) :
    (jobs o minor js).Meets (contract cipher minor random) (JobGoal env o js m) m View.nobody := by
  have hm : At o m.space (fun x => o.val m.space m.user x) noFiles m View.nobody := ⟨rfl, fun _ => rfl, rfl⟩
  refine (meets_jobs c ha hl js hm hjs).mono fun _ m' v hend => ?_
  obtain ⟨vals', hm', hchat⟩ := hend
  refine ⟨fun file => by rw [hm'.files]; rfl, fun w => ?_⟩
  rw [bufferOf, bufferOf, hm'.space, hm'.vals]
  exact hchat w

omit ha in
-- Each process of a crowd, through any kernel from which it gets what the host answers.
theorem crowd_of_run {o : Nat → Objects Name} {js : Nat → List Job} {k : τ} {s s' : Processes τ Unit}
    {actions : List (Pick Setting)} (hc : K.Conforms (noting h) minor good ok) (hkeeps : Keeps h sessions cipher)
    (c : Chat.Cipher env.dev) (ha : Agrees cipher c) (hok : ok k) (hfresh : Fresh K sessions k)
    (hs : Crowd minor o js k s) (hgood : ∃ e, good e)
    (run : Run (sharing K).step (fun _ a => good a.around) s actions s') :
    (∀ p first, s.procs p = some first → ∃ last, s'.procs p = some last ∧ (sharing K).Finishes good p s' ∧
      (¬last.prog.Over → ∀ e, good e → ∀ n, n ≠ 0 → s'.procs n = none →
        ∃ u, (sharing K).step s' ⟨p, e, n⟩ = some u) ∧
      (last.prog = .ret () → ∀ w, chatJobs env (js p) (bufferOf (o p) first.mem) w =
        .ok (bufferOf (o p) last.mem) w) ∧
      ∀ status, last.prog = .exit status → (K.host s'.service.kernel).2 = true) ∧
    ((∀ p last, s'.procs p = some last → last.prog.Over) →
      ∀ fd, sessions (K.host s'.service.kernel).1 fd = none) := by
  -- What a process is to end with does not concern the numbers that nobody has.
  let goals : Nat → Unit → Process → View → Prop := fun p =>
    match s.procs p with
    | some first => JobGoal env (o p) (js p) first.mem
    | none => fun _ _ _ => False
  have hgoal : ∀ p first, s.procs p = some first → goals p = JobGoal env (o p) (js p) first.mem := by
    intro p first hp
    simp only [goals, hp]
  have hkept : (separate False hc hkeeps).Kept goals s fun _ => View.nobody := by
    refine kept_start False hc hkeeps hok hfresh hs.service hs.count fun p proc hp => ?_
    rw [hgoal p proc hp, hs.program p proc hp]
    exact meets_goal c ha (hs.framed p proc hp) (js p) (hs.fits p)
  refine ⟨fun p first hp => ?_, closed_of_run hc hkeeps hkept run fun p _ m v hend file => ?_⟩
  · obtain ⟨last, hlast, hout⟩ := outcome_of_run hc hkeeps hkept run hgood hp
    have hstarved := hout.starved not_false
    refine ⟨last, hlast, hout.finishes, fun hover e he n hzero hfree => hout.goes hover ⟨p, e, n⟩ rfl he hzero hfree,
      fun hret w => ?_, fun status hstatus => ?_⟩
    · obtain ⟨v, hend, -⟩ := hout.returned () hret
      rw [hgoal p first hp] at hend
      exact hend.2 w
    · refine (hout.exited status hstatus).resolve_right ?_
      rw [hstarved]
      decide
  · cases hp : s.procs p with
    | none =>
        simp only [goals, hp] at hend
    | some first =>
        rw [hgoal p first hp] at hend
        exact hend.1 file

end Jobs

section Guest

-- In which the virtual device finds its buffers.
def Sees (a : Setting) : Prop := ∀ len < 2 ^ 32, a.qemu.Places (ioctlSizes len)

theorem sees_farApart : ∃ e, Sees e :=
  ⟨⟨fun _ => 0, farApart, none, false⟩, fun len hlen => farApart_places len (Nat.le_of_lt hlen)⟩

variable {env : Chat.Env} {o : Nat → Objects Name} {js : Nat → List Job} {devs : Nat → Option Nat} {crdev : Nat}
  {k : Virtual (σ × Bool)} {s s' : Processes (Virtual (σ × Bool)) Unit} {actions : List (Pick Setting)}

-- The processes of a guest encrypt and decrypt through the one driver and device, in any
-- interleaving of their system calls, as the chat does with a device of its own.
theorem jobs_of_run (c : Chat.Cipher env.dev) (ha : Agrees cipher c) (hkeeps : Keeps h sessions cipher)
    (hdev : devs minor = some crdev) (hcalm : k.Calm) (hfresh : Fresh (virtualKernel (noting h) devs) sessions k)
    (hs : Crowd minor o js k s)
    (run : Run (sharing (virtualKernel (noting h) devs)).step (fun _ a => Sees a.around) s actions s') :
    (∀ p first, s.procs p = some first → ∃ last, s'.procs p = some last ∧
      (sharing (virtualKernel (noting h) devs)).Finishes Sees p s' ∧
      (¬last.prog.Over → ∀ e, Sees e → ∀ n, n ≠ 0 → s'.procs n = none →
        ∃ u, (sharing (virtualKernel (noting h) devs)).step s' ⟨p, e, n⟩ = some u) ∧
      (last.prog = .ret () → ∀ w, chatJobs env (js p) (bufferOf (o p) first.mem) w =
        .ok (bufferOf (o p) last.mem) w) ∧
      ∀ status, last.prog = .exit status → s'.service.kernel.host.2 = true) ∧
    ((∀ p last, s'.procs p = some last → last.prog.Over) → ∀ fd, sessions s'.service.kernel.host.1 fd = none) :=
  crowd_of_run (virtual_conforms (noting h) devs minor crdev hdev) hkeeps c ha hcalm hfresh hs sees_farApart run

-- The cipher that takes the greeting to its image.
def greetingCipherOf : CipherOf := fun _ op _ block =>
  if op = COP_ENCRYPT then Chat.greetingPerm block else Chat.greetingPerm.symm block

theorem greetingCipherOf_length (session : Session) (op : Nat) (iv block : List Byte) :
    (greetingCipherOf session op iv block).length = block.length := by
  unfold greetingCipherOf
  split_ifs
  · exact Chat.greetingPerm_length block
  · have hlen := Chat.greetingPerm_length (Chat.greetingPerm.symm block)
    rw [Equiv.apply_symm_apply] at hlen
    exact hlen.symm

theorem greeting_agrees : Agrees greetingCipherOf Chat.greetingCipher := ⟨fun _ _ => rfl, fun _ _ => rfl⟩

theorem pages_framed : Framed (pages KEY_SIZE DATA_SIZE) flat where
  toLaid := pages_laid KEY_SIZE DATA_SIZE (by decide) (by decide)
  key_size := rfl
  input_size := rfl
  encrypted_size := rfl
  decrypted_size := rfl
  buffer_size := Nat.le_refl _

-- A process with its buffer filled.
def holding (buffer : List Byte) : Process where
  space := flat
  user := fun p => buffer.getD (p.off - (pages KEY_SIZE DATA_SIZE).addr .buffer) 0
  paged := zeroProcess.paged

theorem bufferOf_holding (buffer : List Byte) (hlen : buffer.length = DATA_SIZE) :
    bufferOf (pages KEY_SIZE DATA_SIZE) (holding buffer) = buffer := by
  apply List.ext_getElem
  · rw [bufferOf, Objects.val_length, hlen]
    rfl
  · intro i _ hi
    simp only [bufferOf, Objects.val, Space.read, Lib.gather, List.getElem_map, List.getElem_range]
    change buffer.getD ((pages KEY_SIZE DATA_SIZE).addr .buffer + i - (pages KEY_SIZE DATA_SIZE).addr .buffer) 0 = _
    rw [Nat.add_sub_cancel_left, List.getD_eq_getElem _ _ hi]

theorem chatJobs_encrypt {env : Chat.Env} (c : Chat.Cipher env.dev) (buffer buffer' : List Byte) (encS : Nat)
    (w : Chat.World) (hbuffer : DATA_SIZE ≤ buffer.length) (hs : encS ≤ DATA_SIZE)
    (hrun : chatJobs env [.encrypt encS] buffer w = .ok buffer' w) :
    buffer' = c.enc (pad (buffer.take encS)) ++ buffer.drop DATA_SIZE := by
  rw [chatJobs, Job.chat, Chat.bind_ok _ _ _ _ _ (Chat.encrypt_run env c buffer encS w hbuffer hs)] at hrun
  cases hrun
  rfl

-- One process encrypts the greeting, and another one decrypts its image.
def greetingCrowd : Processes (Virtual (Desk × Bool)) Unit where
  service := Shared.boot (Virtual.boot (⟨fun _ => none, 3⟩, false))
  procs := fun
    | 0 => some ⟨holding Chat.greeting, jobs (pages KEY_SIZE DATA_SIZE) 0 [.encrypt 10]⟩
    | 1 => some ⟨holding Chat.greetingImage, jobs (pages KEY_SIZE DATA_SIZE) 0 [.decrypt]⟩
    | _ => none

def greetingJobs (p : Nat) : List Job := if p = 0 then [.encrypt 10] else [.decrypt]

theorem greeting_crowd : Crowd 0 (fun _ => pages KEY_SIZE DATA_SIZE) greetingJobs
    (Virtual.boot ((⟨fun _ => none, 3⟩ : Desk), false)) greetingCrowd where
  service := rfl
  count := by
    refine ⟨2, fun p hp => ?_⟩
    obtain ⟨q, rfl⟩ := Nat.exists_eq_add_of_le' hp
    rfl
  program := by
    intro p proc hp
    match p, hp with
    | 0, hp | 1, hp =>
        cases hp
        rfl
  framed := by
    intro p proc hp
    match p, hp with
    | 0, hp | 1, hp =>
        cases hp
        exact pages_framed
  fits := by
    intro p j hj
    unfold greetingJobs at hj
    split_ifs at hj
    · obtain rfl := List.mem_singleton.mp hj
      change 10 ≤ DATA_SIZE
      decide
    · obtain rfl := List.mem_singleton.mp hj
      trivial

theorem greeting_calm : (Virtual.boot ((⟨fun _ => none, 3⟩ : Desk), false)).Calm :=
  ⟨rfl, fun _ => rfl, fun _ => rfl, fun _ hcrof => absurd hcrof List.not_mem_nil⟩

theorem greeting_fresh : Fresh (virtualKernel (noting (deskHost greetingCipherOf greetingCipherOf_length))
    plainGuest.devs) Desk.held (Virtual.boot ((⟨fun _ => none, 3⟩ : Desk), false)) :=
  ⟨rfl, fun fd => by simp [Desk.held, virtualKernel, Virtual.boot]⟩

theorem greeting_jobs : ∃ actions s' last,
    Run (sharing (virtualKernel (noting (deskHost greetingCipherOf greetingCipherOf_length)) plainGuest.devs)).step
      (fun _ a => Sees a.around) greetingCrowd actions s' ∧
    s'.procs 0 = some last ∧ last.prog.Over ∧
    (last.prog = .ret () → bufferOf (pages KEY_SIZE DATA_SIZE) last.mem = Chat.greetingImage) := by
  have hkeeps := desk_keeps greetingCipherOf greetingCipherOf_length
  -- The first process comes to its end.
  obtain ⟨hstart, -⟩ := crowd_of_run (virtual_conforms _ plainGuest.devs 0 0 rfl) hkeeps Chat.greetingCipher
    greeting_agrees greeting_calm greeting_fresh greeting_crowd sees_farApart (.nil greetingCrowd)
  obtain ⟨first, hfirst, hfinishes, -⟩ := hstart 0 _ rfl
  obtain ⟨actions, s', last, run, -, hlast, hover⟩ := hfinishes
  obtain ⟨hprocs, -⟩ := jobs_of_run Chat.greetingCipher greeting_agrees hkeeps
    (show plainGuest.devs 0 = some 0 from rfl) greeting_calm greeting_fresh greeting_crowd run
  obtain ⟨last', hlast', -, -, hret, -⟩ := hprocs 0 _ rfl
  cases hlast.symm.trans hlast'
  refine ⟨actions, s', last, run, hlast, hover, fun hdone => ?_⟩
  obtain ⟨hg, -, -, hpad⟩ := Chat.greeting_length
  have hchat := hret hdone ⟨fun _ => ⟨[], []⟩, fun _ => ⟨[], []⟩, fun _ => 1⟩
  rw [bufferOf_holding _ hg] at hchat
  have hbuffer := chatJobs_encrypt Chat.greetingCipher _ _ 10 _ (Nat.le_of_eq hg.symm) (by decide) hchat
  rw [hpad, List.drop_of_length_le (Nat.le_of_eq hg), List.append_nil] at hbuffer
  rw [hbuffer]
  exact Chat.greetingPerm_greeting

end Guest

end CryptodevChat.User
