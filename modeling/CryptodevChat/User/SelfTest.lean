import CryptodevChat.User.Interleaving

namespace CryptodevChat.User

open Lib (Byte le fromLe le_length Space Client Objects splice splice_length Run Pick)
open Virtio
open Chat (CRYPTO_AES_CBC COP_ENCRYPT COP_DECRYPT)

section Programs

def TEST_DATA_SIZE : Nat := 16384
def TEST_KEY_SIZE : Nat := 24

variable (o : Objects Name) (minor : Nat)

-- The second block differs from the first one in its places and its direction.
def turnCrypt (src dst : Name) (op : Nat) : Program Unit := do
  store o .cryp SRC_OFF (le 8 (o.addr src))
  store o .cryp DST_OFF (le 8 (o.addr dst))
  store o .cryp 4 (le 2 op)

def fillUrandomBuff : Program Int := ask (.random (o.addr .input) TEST_DATA_SIZE)

-- What `test_crypto` does with its session: there and back, and the check.
def testBlocks (n : Nat) (cfd : Int) : Program Nat := do
  startCrypt o n
  fillCrypt o .input .encrypted COP_ENCRYPT
  let ret ← ioctl cfd CIOCCRYPT (o.addr .cryp)
  if ret ≠ 0 then return 1
  turnCrypt o .encrypted .decrypted COP_DECRYPT
  let ret ← ioctl cfd CIOCCRYPT (o.addr .cryp)
  if ret ≠ 0 then return 1
  let input ← load o .input 0 n
  let decrypted ← load o .decrypted 0 n
  if input ≠ decrypted then return 1
  let ret ← ioctl cfd CIOCFSESSION (o.addr .sess + SES_OFF)
  if ret ≠ 0 then return 1
  return 0

def testCrypto (cfd : Int) : Program Nat := do
  clear o
  let ret ← fillUrandomBuff o
  if ret < 0 then return 1
  let ret ← newSession o TEST_KEY_SIZE cfd
  if ret ≠ 0 then return 1
  testBlocks o TEST_DATA_SIZE cfd

-- What `main` does with the file that it has opened.
def runTest (fd : Int) : Program Nat := do
  let failed ← testCrypto o fd
  check (failed ≠ 0) (die fd)
  let ret ← ask (.dev (.close fd.toNat))
  if ret ≠ 0 then return 1
  return 0

def testMain : Program Nat := do
  let fd ← ask (.dev (.openDev minor))
  if fd < 0 then return 1
  runTest o fd

-- The process and its copy have one file. The `wait` of the process at its very end is
-- left out: it would only stay until its copy is over.
def testForkMain : Program Nat := do
  let fd ← ask (.dev (.openDev minor))
  if fd < 0 then return 1
  let pid ← fork
  check (pid < 0) (quit 255 fd)
  runTest o fd

end Programs

section Steps

variable {o : Objects Name} {minor : Nat} {sp : Space} {vals : Name → List Byte}
  {files : Nat → Option (Nat → Option Session)} {m : Process} {v : View} {cipher : CipherOf} {random : Prop}

-- The objects of the test, of the sizes in the source.
structure Bench (o : Objects Name) (sp : Space) : Prop extends Laid o sp where
  key_size : o.size .key = TEST_KEY_SIZE
  input_size : o.size .input = TEST_DATA_SIZE
  encrypted_size : o.size .encrypted = TEST_DATA_SIZE
  decrypted_size : o.size .decrypted = TEST_DATA_SIZE

-- Decryption undoes encryption on whole blocks.
def Inverts (cipher : CipherOf) : Prop :=
  ∀ key iv block, key.length = TEST_KEY_SIZE → iv.length = IV_SIZE → block.length % IV_SIZE = 0 →
    cipher ⟨CRYPTO_AES_CBC, 0, key, []⟩ COP_DECRYPT iv (cipher ⟨CRYPTO_AES_CBC, 0, key, []⟩ COP_ENCRYPT iv block) =
      block

theorem meets_turnCrypt {Q : Unit → Process → View → Prop} (hl : Laid o sp) (hm : At o sp vals files m v)
    (src dst : Name) (op : Nat) (hop : op < 2 ^ 16)
    (hpost : ∀ m' c, CryptOp.parse c = { CryptOp.parse (vals .cryp) with
        src := o.addr src, dst := o.addr dst, op := op } →
      At o sp (Function.update vals .cryp c) files m' v → Q () m' v) :
    (turnCrypt o src dst op).Meets (contract cipher minor random) Q m v := by
  have hsize := hl.cryp_size
  have hlc := (hm.length .cryp).trans hsize
  unfold CRYPT_OP_SIZE at hsize hlc
  refine meets_store_then hl hm .cryp SRC_OFF _ (by rw [le_length, SRC_OFF]; omega) fun m' hm' => ?_
  have h1 := splice_length (vals .cryp) (le 8 (o.addr src)) SRC_OFF (by rw [le_length, SRC_OFF]; omega)
  generalize hc1 : splice (vals .cryp) SRC_OFF (le 8 (o.addr src)) = c1 at hm' h1
  refine meets_store_then hl hm' .cryp DST_OFF _ (by rw [le_length, DST_OFF]; omega) fun m' hm' => ?_
  rw [Function.update_self, Function.update_idem] at hm'
  have h2 := splice_length c1 (le 8 (o.addr dst)) DST_OFF (by rw [le_length, DST_OFF]; omega)
  generalize hc2 : splice c1 DST_OFF (le 8 (o.addr dst)) = c2 at hm' h2
  refine meets_store hl hm' .cryp 4 _ (by rw [le_length]; omega) fun m' hm' => ?_
  rw [Function.update_self, Function.update_idem] at hm'
  refine hpost m' _ ?_ hm'
  rw [parse_store_op _ _ (by unfold CRYPT_OP_SIZE; omega) hop, ← hc2,
    parse_store_dst _ _ (by unfold CRYPT_OP_SIZE; omega) (hl.addr_lt dst), ← hc1,
    parse_store_src _ _ (by unfold CRYPT_OP_SIZE; omega) (hl.addr_lt src)]

-- How the test leaves its file, whatever it finds.
def Tested (cfd : Int) (failed : Nat) (v : View) : Prop :=
  (∃ t, v.files = Function.update noFiles cfd.toNat (some t)) ∧ (failed ≠ 0 → v.failed = true)

-- An ioctl that fails ends the test.
theorem tested_fail {cfd : Int} {t : Nat → Option Session}
    (hfiles : v.files = Function.update noFiles cfd.toNat (some t)) (hfailed : v.failed = true) (failed : Nat) :
    Tested cfd failed v := ⟨⟨t, hfiles⟩, fun _ => hfailed⟩

theorem meets_testBlocks (hinv : Inverts cipher) (hlaid : Laid o sp) {n : Nat} (hn : n < 2 ^ 32)
    (hblocks : n % IV_SIZE = 0) (hkeysize : o.size .key = TEST_KEY_SIZE) (hin : o.size .input = n)
    (hout : o.size .encrypted = n) (hout' : o.size .decrypted = n) {cfd : Int} {t : Nat → Option Session} {ses : Nat}
    (hslot : ((vals .sess).drop SES_OFF).take 4 = le 4 ses) (hlt : ses < 2 ^ 32)
    (ht : t ses = some ⟨CRYPTO_AES_CBC, 0, vals .key, []⟩)
    (hcryp : CryptOp.parse (vals .cryp) = ⟨0, 0, 0, 0, 0, 0, 0, 0⟩)
    (hm : At o sp vals (Function.update noFiles cfd.toNat (some t)) m v) :
    (testBlocks o n cfd).Meets (contract cipher minor random) (fun failed _ v => Tested cfd failed v) m v := by
  have hkey := (hm.length .key).trans hkeysize
  have hiv := (hm.length .iv).trans hlaid.iv_size
  have hinput := (hm.length .input).trans hin
  have hfail : ∀ (ret : Int) (m : Process) (v : View) (go : Program Nat), ret ≠ 0 →
      v.files = Function.update noFiles cfd.toNat (some t) → v.failed = true →
      (if ret ≠ 0 then pure 1 else go : Program Nat).Meets (contract cipher minor random)
        (fun failed _ v => Tested cfd failed v) m v := by
    intro ret m v go hne hfiles hfailed
    rw [if_pos hne]
    exact tested_fail hfiles hfailed 1
  unfold testBlocks
  rw [Client.meets_bind]
  refine meets_startCrypt hlaid hm n ses hslot hlt hn fun m c hc hm => ?_
  rw [hcryp] at hc
  rw [Client.meets_bind]
  refine meets_fillCrypt hlaid hm .input .encrypted COP_ENCRYPT (by decide) fun m c' hc' hm => ?_
  rw [Function.update_self, hc] at hc'
  rw [Function.update_idem] at hm
  rw [Client.meets_bind]
  refine meets_crypt hlaid hm (Function.update_self ..) (x := .input) (y := .encrypted) _ hc' rfl hin rfl
    hout rfl rfl rfl ht ?_ fun ret m v hne hfiles hfailed => hfail ret m v _ hne hfiles hfailed
  intro m v _ hm
  rw [if_neg (by decide), Client.meets_bind]
  refine meets_turnCrypt hlaid hm .encrypted .decrypted COP_DECRYPT (by decide) fun m c'' hc'' hm => ?_
  rw [Function.update_of_ne (by decide), Function.update_self, hc'] at hc''
  rw [Client.meets_bind]
  refine meets_crypt hlaid hm (Function.update_self ..) (x := .encrypted) (y := .decrypted) _ hc'' rfl
    hout rfl hout' rfl rfl rfl ht ?_ fun ret m v hne hfiles hfailed =>
      hfail ret m v _ hne hfiles hfailed
  -- The block that comes back is the one that went in.
  intro m v _ hm
  have hback := hinv (vals .key) (vals .iv) (vals .input) hkey hiv (by rw [hinput, hblocks])
  generalize hvals : Function.update _ Name.decrypted _ = vals' at hm
  have hsame : vals' .input = vals' .decrypted := by
    rw [← hvals, Function.update_self]
    exact hback.symm
  have hslot' : ((vals' .sess).drop SES_OFF).take 4 = le 4 ses := by
    rw [← hvals]
    exact hslot
  rw [if_neg (by decide), Client.meets_bind]
  refine meets_load hm .input 0 n
    (Nat.le_of_eq (by rw [hin, Nat.zero_add])) ?_
  rw [Client.meets_bind]
  refine meets_load hm .decrypted 0 n
    (Nat.le_of_eq (by rw [hout', Nat.zero_add])) ?_
  rw [hsame, if_neg (not_not.mpr rfl), Client.meets_bind]
  refine meets_fsession hlaid hm (Function.update_self ..) ses hslot' hlt (by rw [ht]; rfl) ?_
    fun ret m v hne hfiles hfailed => hfail ret m v _ hne hfiles hfailed
  intro v hm
  rw [Function.update_idem] at hm
  rw [if_neg (not_not.mpr rfl)]
  exact ⟨⟨_, hm.files⟩, fun hne => absurd rfl hne⟩

theorem meets_testCrypto (hinv : Inverts cipher) (hr : random) (hl : Bench o sp) {cfd : Int}
    {t : Nat → Option Session} (hm : At o sp vals (Function.update noFiles cfd.toNat (some t)) m v) :
    (testCrypto o cfd).Meets (contract cipher minor random) (fun failed _ v => Tested cfd failed v) m v := by
  have hlaid := hl.toLaid
  unfold testCrypto
  rw [Client.meets_bind]
  refine meets_clear hlaid hm fun m hm => ?_
  rw [Client.meets_bind]
  refine meets_random hr hlaid hm .input TEST_DATA_SIZE hl.input_size ?_ ?_
  · intro ret m v s hpos hm
    rw [if_neg (by omega), Client.meets_bind, ← hl.key_size]
    refine meets_newSession hlaid hm (Function.update_self ..) rfl (by rw [hl.key_size]; decide) ?_ ?_
    · intro ses m v s' hslot hlt hm
      rw [if_neg (by decide)]
      rw [Function.update_idem] at hm
      exact meets_testBlocks hinv hlaid (by decide) (by decide) hl.key_size hl.input_size hl.encrypted_size
        hl.decrypted_size hslot hlt (Function.update_self ..) rfl hm
    · intro ret m v hne hfiles hfailed
      rw [if_pos hne]
      exact tested_fail hfiles hfailed 1
  · intro ret m v hneg hfiles hfailed
    rw [if_pos hneg]
    exact tested_fail hfiles hfailed 1

-- What is left when the test is over, and `main` with it.
theorem meets_runTest (hinv : Inverts cipher) (hr : random) (hl : Bench o sp) {fd : Int} {t : Nat → Option Session}
    (hm : At o sp vals (Function.update noFiles fd.toNat (some t)) m v) :
    (runTest o fd).Meets (contract cipher minor random) (fun status _ v => v.Left status) m v := by
  unfold runTest
  rw [Client.meets_bind]
  refine (meets_testCrypto hinv hr hl hm).mono fun failed m v htested => ?_
  obtain ⟨⟨t', hfiles⟩, hfailed⟩ := htested
  rw [Client.meets_bind]
  refine meets_check (fun hne => meets_die hfiles (hfailed hne)) fun _ => ?_
  rw [Client.meets_bind]
  refine ⟨?_, fun ret m' v' hclosed => ?_⟩
  · change (v.files fd.toNat).isSome
    rw [hfiles, Function.update_self]
    rfl
  · obtain ⟨-, -, hleft, hne⟩ := hclosed
    have hgone : ∀ file, v'.files file = none := by
      intro file
      rw [hleft, hfiles, Function.update_idem]
      exact congrFun (Function.update_eq_self fd.toNat noFiles) file
    change (if ret ≠ 0 then pure 1 else pure 0 : Program Nat).Meets _ _ m' v'
    by_cases hret : ret = 0
    · rw [if_neg (not_not.mpr hret)]
      exact ⟨hgone, fun h => absurd rfl h⟩
    · rw [if_pos hret]
      exact ⟨hgone, fun _ => hne hret⟩

theorem noFiles_left (hfiles : v.files = noFiles) (hfailed : v.failed = true) : v.Left 1 :=
  ⟨fun file => by rw [hfiles]; rfl, fun _ => hfailed⟩

theorem meets_testMain (hinv : Inverts cipher) (hr : random) (hl : Bench o sp) (hm : At o sp vals noFiles m v) :
    (testMain o minor).Meets (contract cipher minor random) (fun status _ v => v.Left status) m v := by
  unfold testMain
  rw [Client.meets_bind]
  refine meets_open hm ?_ ?_
  · intro fd v hpos _ hm
    rw [if_neg (by omega)]
    exact meets_runTest hinv hr hl hm
  · intro fd v hneg hfiles hfailed
    rw [if_pos hneg]
    exact noFiles_left hfiles hfailed

theorem meets_testForkMain (hinv : Inverts cipher) (hr : random) (hl : Bench o sp) (hm : At o sp vals noFiles m v) :
    (testForkMain o minor).Meets (contract cipher minor random) (fun status _ v => v.Left status) m v := by
  have hgo : ∀ (fd pid : Int) (v : View), 0 ≤ pid →
      At o sp vals (Function.update noFiles fd.toNat (some fun _ => none)) m v →
      (check (pid < 0) (quit 255 fd) >>= fun _ => runTest o fd).Meets (contract cipher minor random)
        (fun status _ v => v.Left status) m v := by
    intro fd pid v hpid hm
    rw [Client.meets_bind]
    exact meets_check (fun hneg => absurd hneg (by omega)) fun _ => meets_runTest hinv hr hl hm
  unfold testForkMain
  rw [Client.meets_bind]
  refine meets_open hm ?_ ?_
  · intro fd v hpos _ hm
    rw [if_neg (by omega), Client.meets_bind]
    refine meets_fork hr hm ?_ ?_ ?_
    · intro v' hm'
      have hfiles : (fun file => ((Function.update noFiles fd.toNat (some fun _ => none)) file).map
          fun _ _ => none) = Function.update noFiles fd.toNat (some fun _ => (none : Option Session)) := by
        funext file
        by_cases hfile : file = fd.toNat
        · subst hfile
          rw [Function.update_self]
          rfl
        · rw [Function.update_of_ne hfile]
          rfl
      rw [hfiles] at hm'
      exact hgo fd 0 v' (by decide) hm'
    · exact fun pid v' hpos hm' => hgo fd pid v' (by omega) hm'
    · intro v' hfiles hfailed
      rw [Client.meets_bind]
      exact meets_check (fun _ => meets_quit 255 hfiles hfailed) fun hneg => absurd (by decide) hneg
  · intro fd v hneg hfiles hfailed
    rw [if_pos hneg]
    exact noFiles_left hfiles hfailed

end Steps

section Runs

variable {σ : Type} {sessions : σ → Int → Option (Nat → Option Session)} {h : Host σ} {cipher : CipherOf} {minor crdev : Nat}
  {devs : Nat → Option Nat} {k : Virtual (σ × Bool)} {o : Nat → Objects Name}
  {s s' : Processes (Virtual (σ × Bool)) Nat} {actions : List (Pick Setting)}

-- Any number of processes, each with one of the two tests.
structure Tests (minor : Nat) (o : Nat → Objects Name) (k : Virtual (σ × Bool)) (s : Processes (Virtual (σ × Bool)) Nat) :
    Prop where
  service : s.service = Shared.boot k
  count : ∃ n, ∀ p, n ≤ p → s.procs p = none
  program : ∀ p proc, s.procs p = some proc →
    proc.prog = testMain (o p) minor ∨ proc.prog = testForkMain (o p) minor
  bench : ∀ p proc, s.procs p = some proc → Bench (o p) proc.mem.space

-- Whatever the order in which they and their copies go on, a test fails only when a call
-- of the host has failed, or /dev/urandom: no block ever comes back as another one.
theorem tests_of_run (hinv : Inverts cipher) (hkeeps : Keeps h sessions cipher) (hdev : devs minor = some crdev)
    (hcalm : k.Calm) (hfresh : Fresh (virtualKernel (noting h) devs) sessions k) (hs : Tests minor o k s)
    (run : Run (sharing (virtualKernel (noting h) devs)).step (fun _ a => Sees a.around) s actions s') :
    (∀ p last, s'.procs p = some last → (sharing (virtualKernel (noting h) devs)).Finishes Sees p s' ∧
      (¬last.prog.Over → ∀ e, Sees e → ∀ n, n ≠ 0 → s'.procs n = none →
        ∃ u, (sharing (virtualKernel (noting h) devs)).step s' ⟨p, e, n⟩ = some u) ∧
      (∀ status, last.prog = .exit status ∨ last.prog = .ret status ∧ status ≠ 0 →
        s'.service.kernel.host.2 = true ∨ s'.service.starved = true)) ∧
    ((∀ p last, s'.procs p = some last → last.prog.Over) → ∀ fd, sessions s'.service.kernel.host.1 fd = none) := by
  have hc := virtual_conforms (noting h) devs minor crdev hdev
  let goal : Nat → Process → View → Prop := fun status _ v => v.Left status
  have hkept := kept_start True hc hkeeps hcalm hfresh hs.service hs.count fun p proc hp => by
    have hm : At (o p) proc.mem.space (fun x => (o p).val proc.mem.space proc.mem.user x) noFiles proc.mem
        View.nobody := ⟨rfl, fun _ => rfl, rfl⟩
    show proc.prog.Meets _ ((fun _ => goal) p) proc.mem View.nobody
    obtain hprog | hprog := hs.program p proc hp
    · rw [hprog]
      exact meets_testMain hinv trivial (hs.bench p proc hp) hm
    · rw [hprog]
      exact meets_testForkMain hinv trivial (hs.bench p proc hp) hm
  refine ⟨fun p last hp => ?_, closed_of_run hc hkeeps hkept run fun p status m v hend => hend.1⟩
  obtain ⟨views', goals', hk', -, hcopies⟩ := hkept.run _ run
  obtain ⟨q, hq⟩ := hcopies p
  have hout := outcome_of_kept hc hkeeps hk' sees_farApart hp
  rw [hq] at hout
  refine ⟨hout.finishes, fun hover e he n hzero hfree => hout.goes hover ⟨p, e, n⟩ rfl he hzero hfree,
    fun status hstatus => ?_⟩
  obtain hexit | ⟨hret, hne⟩ := hstatus
  · exact hout.exited status hexit
  · obtain ⟨v, hend, hfailed⟩ := hout.returned status hret
    exact hfailed (hend.2 hne)

theorem greeting_inverts : Inverts greetingCipherOf :=
  fun _ _ block _ _ _ => Chat.greetingPerm.symm_apply_apply block

theorem pages_bench : Bench (pages TEST_KEY_SIZE TEST_DATA_SIZE) flat where
  toLaid := pages_laid TEST_KEY_SIZE TEST_DATA_SIZE (by decide) (by decide)
  key_size := rfl
  input_size := rfl
  encrypted_size := rfl
  decrypted_size := rfl

-- Both tests, on a guest that has just started.
def bothTests : Processes (Virtual (Desk × Bool)) Nat where
  service := Shared.boot (Virtual.boot (⟨fun _ => none, 3⟩, false))
  procs := fun
    | 0 => some ⟨zeroProcess, testMain (pages TEST_KEY_SIZE TEST_DATA_SIZE) 0⟩
    | 1 => some ⟨zeroProcess, testForkMain (pages TEST_KEY_SIZE TEST_DATA_SIZE) 0⟩
    | _ => none

theorem both_tests : Tests 0 (fun _ => pages TEST_KEY_SIZE TEST_DATA_SIZE)
    (Virtual.boot ((⟨fun _ => none, 3⟩ : Desk), false)) bothTests where
  service := rfl
  count := by
    refine ⟨2, fun p hp => ?_⟩
    obtain ⟨q, rfl⟩ := Nat.exists_eq_add_of_le' hp
    rfl
  program := by
    intro p proc hp
    match p, hp with
    | 0, hp =>
        cases hp
        exact .inl rfl
    | 1, hp =>
        cases hp
        exact .inr rfl
  bench := by
    intro p proc hp
    match p, hp with
    | 0, hp | 1, hp =>
        cases hp
        exact pages_bench

theorem both_tests_finish :
    (sharing (virtualKernel (noting (deskHost greetingCipherOf greetingCipherOf_length)) plainGuest.devs)).Finishes
      Sees 0 bothTests ∧
    (sharing (virtualKernel (noting (deskHost greetingCipherOf greetingCipherOf_length)) plainGuest.devs)).Finishes
      Sees 1 bothTests := by
  obtain ⟨hprocs, -⟩ := tests_of_run greeting_inverts (desk_keeps greetingCipherOf greetingCipherOf_length)
    (show plainGuest.devs 0 = some 0 from rfl) greeting_calm greeting_fresh both_tests (.nil bothTests)
  exact ⟨(hprocs 0 _ rfl).1, (hprocs 1 _ rfl).1⟩

end Runs

end CryptodevChat.User
