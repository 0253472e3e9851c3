import CryptodevChat.Chat.Dialogue

namespace CryptodevChat.Dialogue

open Lib
open Chat
open EventLoop (Select)

section Loops

-- Each round moves a byte, so that more rounds than bytes make no difference.
theorem insistReadLoop_fuel (fd orig fuel fuel' : Nat) (buf : List Byte) (off count : Nat) (w : World)
    (h : count ≤ fuel) (h' : count ≤ fuel') :
    insistReadLoop fd orig fuel buf off count w = insistReadLoop fd orig fuel' buf off count w := by
  induction fuel generalizing fuel' buf off count w with
  | zero =>
      obtain rfl : count = 0 := by omega
      cases fuel' <;> simp [insistReadLoop]
  | succ fuel ih =>
      by_cases hcount : count = 0
      · subst hcount
        cases fuel' <;> simp [insistReadLoop]
      · obtain ⟨fuel', rfl⟩ : ∃ n, fuel' = n + 1 := ⟨fuel' - 1, by omega⟩
        unfold insistReadLoop
        rw [if_neg hcount, if_neg hcount]
        cases hr : (w.inp fd).read count with
        | mk res s =>
            rw [bind_ok _ _ _ _ _ (read_run fd count w res s hr), bind_ok _ _ _ _ _ (read_run fd count w res s hr)]
            cases res with
            | error errno => rfl
            | ok data =>
                cases data with
                | nil => rfl
                | cons x xs =>
                    dsimp only
                    cases hstore : store buf off (x :: xs) with
                    | none => rw [bind_error _ _ _ _ _ (poke_fault _ _ _ _ hstore),
                        bind_error _ _ _ _ _ (poke_fault _ _ _ _ hstore)]
                    | some next =>
                        have hpos : 0 < (x :: xs).length := Nat.succ_pos _
                        rw [bind_ok _ _ _ _ _ (poke_run _ _ _ _ _ hstore),
                          bind_ok _ _ _ _ _ (poke_run _ _ _ _ _ hstore)]
                        exact ih _ _ _ _ _ (by omega) (by omega)

-- What follows a complete write does not depend on how it was begun.
theorem write_loop (fd orig fuel : Nat) (data : List Byte) {α : Type} (next : Proc α) (w : World)
    (hfuel : data.length ≤ fuel) :
    (do let n ← insistWriteLoop fd orig fuel data
        if n ≠ orig then exit 1 else next) w =
      if ((w.out fd).insist fuel data).1 = .full then next (w.setOut fd ((w.out fd).insist fuel data).2)
      else .error (.exit 1) (w.setOut fd ((w.out fd).insist fuel data).2) := by
  have hgiven := Sink.insist_given fuel (w.out fd) data hfuel
  rw [bind_ok _ _ _ _ _ (insistWriteLoop_run fd orig fuel data w)]
  cases hend : ((w.out fd).insist fuel data).1 with
  | full => simp [code]
  | eof => exact absurd hend hgiven.eof
  | failed errno =>
      have hcode : (code orig (.failed errno) : Int) ≠ orig := by
        simp only [code]
        omega
      rw [if_pos hcode, if_neg (by simp)]
      rfl

theorem insist_fuel (fuel fuel' : Nat) (s : Sink Byte) (data : List Byte) (h : data.length ≤ fuel)
    (h' : data.length ≤ fuel') : s.insist fuel data = s.insist fuel' data := by
  induction fuel generalizing fuel' s data with
  | zero =>
      obtain rfl : data = [] := List.length_eq_zero_iff.mp (by omega)
      cases fuel' <;> simp [Sink.insist]
  | succ fuel ih =>
      by_cases hdata : data = []
      · subst hdata
        cases fuel' <;> simp [Sink.insist]
      · have hpos := List.length_pos_of_ne_nil hdata
        obtain ⟨fuel', rfl⟩ : ∃ n, fuel' = n + 1 := ⟨fuel' - 1, by omega⟩
        unfold Sink.insist
        rw [if_neg hdata, if_neg hdata]
        cases hw : s.write data with
        | mk res s' =>
            cases res with
            | error errno => rfl
            | ok n =>
                obtain ⟨-, hn, hle, -⟩ := s.write_ok s' data n hdata hw
                dsimp only
                exact ih _ _ _ (by rw [List.length_drop]; omega) (by rw [List.length_drop]; omega)

-- A write that begins with a call that moves so many bytes, or fails.
theorem insist_moves (sent data : List Byte) (n : Nat) (more : List Transfer) (hn : 0 < n)
    (hle : n ≤ data.length) :
    (⟨sent, .upTo n :: more⟩ : Sink Byte).insist data.length data =
      (⟨sent ++ data.take n, more⟩ : Sink Byte).insist (data.drop n).length (data.drop n) := by
  obtain ⟨fuel, hfuel⟩ : ∃ fuel, data.length = fuel + 1 := ⟨data.length - 1, by omega⟩
  have hdata : data ≠ [] := List.ne_nil_of_length_pos (by omega)
  have hclamp : Transfer.clamp n data.length = n := by
    unfold Transfer.clamp
    omega
  have hfirst : (⟨sent, .upTo n :: more⟩ : Sink Byte).insist data.length data =
      (⟨sent ++ data.take n, more⟩ : Sink Byte).insist fuel (data.drop n) := by
    rw [hfuel, Sink.insist, if_neg hdata]
    simp only [Sink.write, hclamp]
  rw [hfirst]
  exact insist_fuel _ _ _ _ (by rw [List.length_drop]; omega) (Nat.le_refl _)

theorem insist_fails (sent data : List Byte) (errno : Nat) (more : List Transfer) (hdata : data ≠ []) :
    (⟨sent, .fail errno :: more⟩ : Sink Byte).insist data.length data = (.failed errno, ⟨sent, more⟩) := by
  obtain ⟨fuel, hfuel⟩ : ∃ fuel, data.length = fuel + 1 :=
    ⟨data.length - 1, by have := List.length_pos_of_ne_nil hdata; omega⟩
  rw [hfuel, Sink.insist, if_neg hdata]
  simp only [Sink.write]

variable (fd orig count : Nat) (buf pending : List Byte) (off : Nat) (more : List Transfer) (w : World)

-- The same for a read, which may also meet the end of the stream.
theorem insistReadLoop_moves (n : Nat) (hn : 0 < n) (hle : n ≤ count) (hlen : n ≤ pending.length)
    (hs : w.inp fd = ⟨pending, .upTo n :: more⟩) :
    insistReadLoop fd orig count buf off count w =
      match store buf off (pending.take n) with
      | none => .error .fault (w.setInp fd ⟨pending.drop n, more⟩)
      | some next =>
          insistReadLoop fd orig (count - n) next (off + n) (count - n) (w.setInp fd ⟨pending.drop n, more⟩) := by
  obtain ⟨fuel, rfl⟩ : ∃ fuel, count = fuel + 1 := ⟨count - 1, by omega⟩
  have hclamp : Transfer.clamp n (fuel + 1) = n := by
    unfold Transfer.clamp
    omega
  have hread : (w.inp fd).read (fuel + 1) = (.ok (pending.take n), ⟨pending.drop n, more⟩) := by
    rw [hs]
    simp only [Source.read, hclamp]
  have hlength : (pending.take n).length = n := by
    rw [List.length_take]
    omega
  rw [insistReadLoop, if_neg (by omega), bind_ok _ _ _ _ _ (read_run _ _ _ _ _ hread)]
  cases hdata : pending.take n with
  | nil =>
      rw [hdata, List.length_nil] at hlength
      omega
  | cons x xs =>
      rw [hdata] at hlength
      dsimp only
      cases hstore : store buf off (x :: xs) with
      | none => rw [bind_error _ _ _ _ _ (poke_fault _ _ _ _ hstore)]
      | some next =>
          rw [bind_ok _ _ _ _ _ (poke_run _ _ _ _ _ hstore), hlength]
          exact insistReadLoop_fuel _ _ _ _ _ _ _ _ (by omega) (Nat.le_refl _)

theorem insistReadLoop_ends (n : Nat) (hcount : 0 < count) (hs : w.inp fd = ⟨[], .upTo n :: more⟩) :
    insistReadLoop fd orig count buf off count w = .ok (0, buf) (w.setInp fd ⟨[], more⟩) := by
  obtain ⟨fuel, rfl⟩ : ∃ fuel, count = fuel + 1 := ⟨count - 1, by omega⟩
  have hread : (w.inp fd).read (fuel + 1) = (.ok [], ⟨[], more⟩) := by
    rw [hs]
    simp only [Source.read, List.take_nil, List.drop_nil]
  rw [insistReadLoop, if_neg (by omega), bind_ok _ _ _ _ _ (read_run _ _ _ _ _ hread)]
  rfl

theorem insistReadLoop_fails (errno : Nat) (hcount : 0 < count)
    (hs : w.inp fd = ⟨pending, .fail errno :: more⟩) :
    insistReadLoop fd orig count buf off count w = .ok (-1, buf) (w.setInp fd ⟨pending, more⟩) := by
  obtain ⟨fuel, rfl⟩ : ∃ fuel, count = fuel + 1 := ⟨count - 1, by omega⟩
  have hread : (w.inp fd).read (fuel + 1) = (.error errno, ⟨pending, more⟩) := by
    rw [hs]
    simp only [Source.read]
  rw [insistReadLoop, if_neg (by omega), bind_ok _ _ _ _ _ (read_run _ _ _ _ _ hread)]
  rfl

end Loops

section Local

-- A piece of code that makes no calls does the same in every world.
def Local {α : Type} (x : Proc α) : Prop := ∀ w, x w =
  match answer x with
  | .ok a => .ok a w
  | .error e => .error e w

theorem local_pure {α : Type} (a : α) : Local (pure a) := fun _ => rfl
theorem local_throw {α : Type} (e : Stop) : Local (throw e : Proc α) := fun _ => rfl

theorem Local.bind {α β : Type} {x : Proc α} {f : α → Proc β} (hx : Local x) (hf : ∀ a, Local (f a)) :
    Local (x >>= f) := by
  intro w
  have hfresh := hx World.fresh
  have hworld := hx w
  unfold answer
  cases hanswer : answer x with
  | error e =>
      rw [hanswer] at hfresh hworld
      rw [bind_error _ _ _ _ _ hfresh, bind_error _ _ _ _ _ hworld]
  | ok a =>
      rw [hanswer] at hfresh hworld
      rw [bind_ok _ _ _ _ _ hfresh, bind_ok _ _ _ _ _ hworld]
      exact hf a w

theorem local_peek (cells : List Byte) (off len : Nat) : Local (peek cells off len) := by
  unfold peek
  split
  · exact local_pure _
  · exact local_throw _

theorem local_poke (cells : List Byte) (off : Nat) (data : List Byte) : Local (poke cells off data) := by
  unfold poke
  split
  · exact local_pure _
  · exact local_throw _

theorem local_openSession (dev : Cryptodev) : Local (openSession dev) := by
  unfold openSession
  split
  · exact local_throw _
  · split
    · exact local_throw _
    · exact local_pure _

theorem local_cryptBlock (dev : Cryptodev) (ses op : Nat) (src buffer : List Byte) :
    Local (cryptBlock dev ses op src buffer) := by
  unfold cryptBlock
  split
  · exact local_throw _
  · refine (local_poke _ _ _).bind fun next => ?_
    split
    · exact local_throw _
    · split
      · exact local_throw _
      · exact local_pure _

variable (env : Env) (prompt : CString)

theorem local_encrypt (buffer : List Byte) (encS : Nat) : Local (encrypt env buffer encS) := by
  refine (local_openSession _).bind fun ses => (local_peek _ _ _).bind fun message => ?_
  exact (local_poke _ _ _).bind fun block => (local_poke _ _ _).bind fun block => local_cryptBlock _ _ _ _ _

theorem local_decrypt (buffer : List Byte) : Local (decrypt env buffer) :=
  (local_openSession _).bind fun _ => (local_peek _ _ _).bind fun _ => local_cryptBlock _ _ _ _ _

theorem local_outgoing (line : CString) : Local (outgoing env prompt line) := by
  unfold outgoing
  split
  · exact local_throw _
  · refine (local_poke _ _ _).bind fun _ => (local_poke _ _ _).bind fun _ => (local_poke _ _ _).bind fun _ => ?_
    refine (local_poke _ _ _).bind fun _ => ?_
    split
    · exact (local_encrypt env _ _).bind fun _ => local_peek _ _ _
    · exact local_peek _ _ _

end Local

section Rounds

variable (env : Env) (prompt : CString) (newsd : Nat)

-- Two programs that begin in the same way.
theorem bind_congr_run {α β : Type} (x : Proc α) (f g : α → Proc β) (w : World)
    (h : ∀ a w', x w = .ok a w' → f a w' = g a w') : (x >>= f) w = (x >>= g) w := by
  cases hx : x w with
  | ok a w' => rw [bind_ok _ _ _ _ _ hx, bind_ok _ _ _ _ _ hx, h a w' hx]
  | error e w' => rw [bind_error _ _ _ _ _ hx, bind_error _ _ _ _ _ hx]

theorem bind_eq_run {α β : Type} (x y : Proc α) (f : α → Proc β) (w w' : World) (h : x w = y w') :
    (x >>= f) w = (y >>= f) w' := by
  change EStateM.bind x f w = EStateM.bind y f w'
  simp only [EStateM.bind, h]

-- `my_rlhandler` writes what it has prepared, and tests that all of it was written.
theorem myRlhandler_eq (line : CString) (h : line.cells.head? ≠ some 0) (w : World) :
    myRlhandler env prompt newsd (some line) w = (do
      let data ← outgoing env prompt line
      let n ← insistWriteLoop newsd data.length data.length data
      if n ≠ data.length then exit 1 else return ()) w := by
  have hwritten : ∀ (block : List Byte) (size : Nat) (w : World), (do
        let data ← peek block 0 size
        let n ← insistWrite newsd data
        if n ≠ size then exit 1 else return ()) w = (do
        let data ← peek block 0 size
        let n ← insistWriteLoop newsd data.length data.length data
        if n ≠ data.length then exit 1 else return ()) w := by
    intro block size w
    refine bind_congr_run _ _ _ w fun data w' hdata => ?_
    obtain rfl := load_length _ _ _ _ (peek_returns _ _ _ _ _ _ hdata)
    rfl
  unfold myRlhandler outgoing
  dsimp only
  rw [if_neg h]
  cases env.malloc BUFF_SIZE with
  | none => rfl
  | some message =>
      simp only [bind_assoc]
      refine bind_congr_run _ _ _ w fun _ w _ => bind_congr_run _ _ _ w fun _ w _ => ?_
      refine bind_congr_run _ _ _ w fun _ w _ => bind_congr_run _ _ _ w fun message w _ => ?_
      cases env.encrypted with
      | true =>
          simp only [if_true, bind_assoc]
          exact bind_congr_run _ _ _ w fun _ w _ => hwritten _ _ w
      | false =>
          simp only [Bool.false_eq_true, if_false]
          exact hwritten _ _ w

-- The end of `get_and_print` from the result of its second `insist_read` on, and from the
-- result of the first one on.
def afterBody (size : Nat) (r : Int × List Byte) : Proc (Int × List Byte) :=
  if r.1 < 0 then exit 1
  else if r.1 ≤ 0 then return (1, r.2)
  else do
    display r.2 0 size
    return (0, r.2)

def afterHead (buf : List Byte) (r : Int × List Byte) : Proc (Int × List Byte) :=
  if r.1 < 0 then exit 1
  else if env.encrypted then
    if r.1 ≤ 0 then return (1, r.2)
    else do
      let buf ← decrypt env r.2
      let size ← peek buf 0 4
      display buf 4 (fromBe size)
      return (0, buf)
  else if r.1 ≤ 0 then return (1, buf)
  else do
    let second ← insistRead newsd buf 0 (fromBe r.2)
    afterBody (fromBe r.2) second

-- What a program has still to do of the round in which it is.
def residue (p : Party) : Proc (Int × List Byte) :=
  match p.pc with
  | .select => return (0, p.buf)
  | .send rest conn => do
      let n ← insistWriteLoop newsd rest.length rest.length rest
      if n ≠ rest.length then exit 1
      else if conn then getAndPrint env p.buf newsd else return (0, p.buf)
  | .head cells off count => do
      let r ← insistReadLoop newsd (headSize env) count cells off count
      afterHead env newsd p.buf r
  | .body size off count => do
      let r ← insistReadLoop newsd size count p.buf off count
      afterBody size r
  | .display rest => do
      let n ← insistWriteLoop 0 rest.length rest.length rest
      if n ≠ rest.length then exit 1 else return (0, p.buf)
  | .left => return (1, p.buf)
  | .stopped e => throw e
  | .killed => throw .blocked

theorem getAndPrint_eq (buf : List Byte) (w : World) :
    getAndPrint env buf newsd w = residue env newsd (resume env true buf) w := by
  unfold getAndPrint residue resume headSize
  cases hmode : env.encrypted with
  | true =>
      simp only [if_true]
      refine bind_congr_run _ _ _ w fun r w _ => ?_
      unfold afterHead
      rw [hmode]
      rfl
  | false =>
      simp only [Bool.false_eq_true, if_false, if_true]
      refine bind_congr_run _ _ _ w fun r w _ => ?_
      unfold afterHead
      simp only [hmode, Bool.false_eq_true, if_false]
      rfl

theorem residue_resume (conn : Bool) (buf : List Byte) (w : World) :
    residue env newsd (resume env conn buf) w =
      (if conn then getAndPrint env buf newsd else return (0, buf)) w := by
  cases conn with
  | true => rw [← getAndPrint_eq, if_pos rfl]
  | false => rfl

theorem residue_sending (rest : List Byte) (conn : Bool) (buf : List Byte) (w : World) :
    residue env newsd (sending env rest conn buf) w = residue env newsd ⟨.send rest conn, buf⟩ w := by
  unfold sending
  by_cases hrest : rest = []
  · subst hrest
    rw [if_pos rfl, residue_resume]
    cases conn <;> rfl
  · rw [if_neg hrest]

theorem residue_showing (rest buf : List Byte) (w : World) :
    residue env newsd (showing rest buf) w = residue env newsd ⟨.display rest, buf⟩ w := by
  unfold showing
  by_cases hrest : rest = []
  · subst hrest
    rfl
  · rw [if_neg hrest]

-- What is left after `select` is the body of the loop.
theorem residue_begin (line : Option (Option CString)) (conn : Bool) (buf : List Byte) (w : World) :
    residue env newsd (begin env prompt line conn buf) w =
      OneToOne.round env prompt newsd line conn buf w := by
  have hnothing : ∀ x : Proc Unit, x w = .ok () w → residue env newsd (resume env conn buf) w =
      (do x; if conn then getAndPrint env buf newsd else return (0, buf)) w := by
    intro x hx
    rw [bind_ok _ _ _ _ _ hx, residue_resume]
  cases line with
  | none => exact hnothing _ rfl
  | some line =>
      cases line with
      | none => exact hnothing _ rfl
      | some line =>
          unfold begin OneToOne.round OneToOne.readChar
          dsimp only
          by_cases hempty : line.cells.head? = some 0
          · rw [if_pos hempty]
            exact hnothing _ (myRlhandler_empty env prompt line newsd w ((head_cells line).mp hempty))
          · rw [if_neg hempty]
            have hhandler := myRlhandler_eq env prompt newsd line hempty w
            have hlocal := local_outgoing env prompt line w
            cases hdata : answer (outgoing env prompt line) with
            | error e =>
                rw [hdata] at hlocal
                rw [bind_error _ _ _ _ _ hlocal] at hhandler
                rw [bind_error _ _ _ _ _ hhandler]
                rfl
            | ok data =>
                rw [hdata] at hlocal
                rw [bind_ok _ _ _ _ _ hlocal, write_loop _ _ _ _ _ _ (Nat.le_refl _)] at hhandler
                dsimp only
                rw [residue_sending]
                unfold residue
                dsimp only
                rw [write_loop _ _ _ _ _ _ (Nat.le_refl _)]
                split_ifs at hhandler ⊢ with hfull
                all_goals first
                  | rw [bind_ok _ _ _ _ _ hhandler]
                  | rw [bind_error _ _ _ _ _ hhandler]

end Rounds

section Calls

variable (env : Env) (newsd : Nat) (buf : List Byte) (w : World)

theorem residue_showFrom (off size : Nat) :
    residue env newsd (showFrom buf off size) w = (do
      display buf off size
      return ((0 : Int), buf)) w := by
  unfold showFrom
  cases hload : load buf off size with
  | none =>
      have hfault : peek buf off size w = .error .fault w := by
        unfold peek
        rw [hload]
        rfl
      have hdisplay : display buf off size w = .error .fault w := bind_error _ _ _ _ _ hfault
      rw [bind_error _ _ _ _ _ hdisplay]
      rfl
  | some message =>
      obtain rfl := load_length _ _ _ _ hload
      have hdisplay : display buf off message.length w = (do
          let n ← insistWriteLoop 0 message.length message.length message
          if n ≠ message.length then exit 1 else return ()) w :=
        bind_ok _ _ _ _ _ (peek_run _ _ _ _ _ hload)
      rw [write_loop _ _ _ _ _ _ (Nat.le_refl _)] at hdisplay
      dsimp only
      rw [residue_showing]
      unfold residue
      dsimp only
      rw [write_loop _ _ _ _ _ _ (Nat.le_refl _)]
      split_ifs at hdisplay ⊢ with hfull
      · rw [bind_ok _ _ _ _ _ hdisplay]
      · rw [bind_error _ _ _ _ _ hdisplay]

theorem residue_parse (cells : List Byte) :
    afterHead env newsd buf (headSize env, cells) w = residue env newsd (parse env cells buf) w := by
  have hpos := headSize_pos env
  unfold afterHead parse
  dsimp only
  cases env.encrypted with
  | true =>
      simp only [if_true]
      rw [after_full _ hpos]
      have hlocal := local_decrypt env cells w
      cases hanswer : answer (decrypt env cells) with
      | error e =>
          rw [hanswer] at hlocal
          rw [bind_error _ _ _ _ _ hlocal]
          rfl
      | ok next =>
          rw [hanswer] at hlocal
          rw [bind_ok _ _ _ _ _ hlocal]
          dsimp only
          cases hload : load next 0 4 with
          | none =>
              have hfault : peek next 0 4 w = .error .fault w := by
                unfold peek
                rw [hload]
                rfl
              rw [bind_error _ _ _ _ _ hfault]
              rfl
          | some size =>
              rw [bind_ok _ _ _ _ _ (peek_run _ _ _ _ _ hload)]
              exact (residue_showFrom env newsd next w 4 (fromBe size)).symm
  | false =>
      simp only [Bool.false_eq_true, if_false]
      rw [after_full _ hpos]
      by_cases hzero : fromBe cells = 0
      · rw [if_pos hzero, hzero]
        rfl
      · rw [if_neg hzero]
        rfl

end Calls

section Transfers

variable (env : Env) (newsd : Nat) (buf rest sent : List Byte) (conn : Bool) (more : List Transfer) (w : World)

theorem residue_send_moves (n : Nat) (hn : 0 < n) (hle : n ≤ rest.length)
    (hs : w.out newsd = ⟨sent, .upTo n :: more⟩) :
    residue env newsd ⟨.send rest conn, buf⟩ w = residue env newsd (sending env (rest.drop n) conn buf)
      (w.setOut newsd ⟨sent ++ rest.take n, more⟩) := by
  rw [residue_sending]
  unfold residue
  dsimp only
  rw [write_loop _ _ _ _ _ _ (Nat.le_refl _), write_loop _ _ _ _ _ _ (Nat.le_refl _), hs,
    insist_moves _ _ _ _ hn hle, World.setOut_out]
  simp only [World.setOut_setOut]

theorem residue_send_fails (errno : Nat) (hrest : rest ≠ []) (hs : w.out newsd = ⟨sent, .fail errno :: more⟩) :
    residue env newsd ⟨.send rest conn, buf⟩ w = .error (.exit 1) (w.setOut newsd ⟨sent, more⟩) := by
  unfold residue
  dsimp only
  rw [write_loop _ _ _ _ _ _ (Nat.le_refl _), hs, insist_fails _ _ _ _ hrest, if_neg (by simp)]

theorem residue_display_moves (n : Nat) (hn : 0 < n) (hle : n ≤ rest.length)
    (hs : w.out 0 = ⟨sent, .upTo n :: more⟩) :
    residue env newsd ⟨.display rest, buf⟩ w = residue env newsd (showing (rest.drop n) buf)
      (w.setOut 0 ⟨sent ++ rest.take n, more⟩) := by
  rw [residue_showing]
  unfold residue
  dsimp only
  rw [write_loop _ _ _ _ _ _ (Nat.le_refl _), write_loop _ _ _ _ _ _ (Nat.le_refl _), hs,
    insist_moves _ _ _ _ hn hle, World.setOut_out]
  simp only [World.setOut_setOut]

theorem residue_display_fails (errno : Nat) (hrest : rest ≠ []) (hs : w.out 0 = ⟨sent, .fail errno :: more⟩) :
    residue env newsd ⟨.display rest, buf⟩ w = .error (.exit 1) (w.setOut 0 ⟨sent, more⟩) := by
  unfold residue
  dsimp only
  rw [write_loop _ _ _ _ _ _ (Nat.le_refl _), hs, insist_fails _ _ _ _ hrest, if_neg (by simp)]

variable (p : Party) (pending : List Byte) (count : Nat) (hasks : p.pc.asks = some count)
include hasks

theorem residue_received (hsized : p.pc.Sized) (n : Nat) (hn : 0 < n) (hle : n ≤ count)
    (hlen : n ≤ pending.length) (hs : w.inp newsd = ⟨pending, .upTo n :: more⟩) :
    residue env newsd p w = residue env newsd (received env p (pending.take n))
      (w.setInp newsd ⟨pending.drop n, more⟩) := by
  have htake : (pending.take n).length = n := by
    rw [List.length_take]
    omega
  obtain ⟨pc, buf⟩ := p
  cases pc with
  | head cells off ask =>
      obtain rfl : ask = count := Option.some.inj hasks
      have hloop := insistReadLoop_moves newsd (headSize env) ask cells pending off more w n hn hle hlen hs
      unfold received
      dsimp only
      cases hstore : store cells off (pending.take n) with
      | none =>
          rw [hstore] at hloop
          exact bind_error _ _ _ _ _ hloop
      | some next =>
          rw [hstore] at hloop
          dsimp only at hloop ⊢
          rw [htake]
          by_cases hall : n = ask
          · subst hall
            rw [if_pos rfl, ← residue_parse]
            rw [Nat.sub_self] at hloop
            exact bind_ok _ _ _ _ _ hloop
          · rw [if_neg hall]
            exact bind_eq_run _ _ _ _ _ hloop
  | body size off ask =>
      obtain rfl : ask = count := Option.some.inj hasks
      have hloop := insistReadLoop_moves newsd size ask buf pending off more w n hn hle hlen hs
      unfold received
      dsimp only
      cases hstore : store buf off (pending.take n) with
      | none =>
          rw [hstore] at hloop
          exact bind_error _ _ _ _ _ hloop
      | some next =>
          rw [hstore] at hloop
          dsimp only at hloop ⊢
          rw [htake]
          by_cases hall : n = ask
          · subst hall
            rw [Nat.sub_self] at hloop
            have hbody : residue env newsd ⟨.body size off n, buf⟩ w =
                afterBody size (size, next) (w.setInp newsd ⟨pending.drop n, more⟩) :=
              bind_ok _ _ _ _ _ hloop
            rw [if_pos rfl, residue_showFrom, hbody]
            unfold afterBody
            rw [after_full size hsized]
          · rw [if_neg hall]
            exact bind_eq_run _ _ _ _ _ hloop
  | _ => cases hasks

theorem residue_hungUp (n : Nat) (hcount : 0 < count) (hs : w.inp newsd = ⟨[], .upTo n :: more⟩) :
    residue env newsd p w = residue env newsd (hungUp env p) (w.setInp newsd ⟨[], more⟩) := by
  obtain ⟨pc, buf⟩ := p
  cases pc with
  | head cells off ask =>
      obtain rfl : ask = count := Option.some.inj hasks
      have hloop := insistReadLoop_ends newsd (headSize env) ask cells off more w n hcount hs
      have hhead : residue env newsd ⟨.head cells off ask, buf⟩ w =
          afterHead env newsd buf (0, cells) (w.setInp newsd ⟨[], more⟩) := bind_ok _ _ _ _ _ hloop
      rw [hhead]
      unfold afterHead hungUp
      cases env.encrypted <;> rfl
  | body size off ask =>
      obtain rfl : ask = count := Option.some.inj hasks
      exact bind_ok _ _ _ _ _ (insistReadLoop_ends newsd size ask buf off more w n hcount hs)
  | _ => cases hasks

theorem residue_read_fails (errno : Nat) (hcount : 0 < count)
    (hs : w.inp newsd = ⟨pending, .fail errno :: more⟩) :
    residue env newsd p w = .error (.exit 1) (w.setInp newsd ⟨pending, more⟩) := by
  obtain ⟨pc, buf⟩ := p
  cases pc with
  | head cells off ask =>
      obtain rfl : ask = count := Option.some.inj hasks
      exact bind_ok _ _ _ _ _ (insistReadLoop_fails newsd (headSize env) ask cells pending off more w errno hcount hs)
  | body size off ask =>
      obtain rfl : ask = count := Option.some.inj hasks
      exact bind_ok _ _ _ _ _ (insistReadLoop_fails newsd size ask buf pending off more w errno hcount hs)
  | _ => cases hasks

end Transfers

end CryptodevChat.Dialogue
