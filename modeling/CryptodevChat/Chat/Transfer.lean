import CryptodevChat.Chat.Common

namespace CryptodevChat.Chat

open Lib

theorem bind_ok {α β : Type} (x : Proc α) (f : α → Proc β) (w w' : World) (a : α)
    (h : x w = .ok a w') : (x >>= f) w = f a w' := by
  change EStateM.bind x f w = f a w'
  simp only [EStateM.bind, h]

theorem bind_error {α β : Type} (x : Proc α) (f : α → Proc β) (w w' : World) (e : Stop)
    (h : x w = .error e w') : (x >>= f) w = .error e w' := by
  change EStateM.bind x f w = .error e w'
  simp only [EStateM.bind, h]

@[simp] theorem pure_run {α : Type} (a : α) (w : World) : (pure a : Proc α) w = .ok a w := rfl

@[simp] theorem exit_run {α : Type} (status : Nat) (w : World) :
    (exit status : Proc α) w = .error (.exit status) w := rfl

@[simp] theorem throw_run {α : Type} (e : Stop) (w : World) :
    (throw e : Proc α) w = .error e w := rfl

theorem peek_run (cells data : List Byte) (off len : Nat) (w : World)
    (h : load cells off len = some data) : peek cells off len w = .ok data w := by
  simp [peek, h]

theorem peek_fault (cells : List Byte) (off len : Nat) (w : World)
    (h : cells.length < off + len) : peek cells off len w = .error .fault w := by
  simp [peek, load_eq_none cells off len h]

theorem poke_run (cells next : List Byte) (off : Nat) (data : List Byte) (w : World)
    (h : store cells off data = some next) : poke cells off data w = .ok next w := by
  simp [poke, h]

theorem poke_fault (cells : List Byte) (off : Nat) (data : List Byte) (w : World)
    (h : store cells off data = none) : poke cells off data w = .error .fault w := by
  simp [poke, h]

theorem peek_returns (cells data : List Byte) (off len : Nat) (w v : World)
    (h : peek cells off len w = .ok data v) : load cells off len = some data := by
  unfold peek at h
  cases hload : load cells off len with
  | none => rw [hload] at h; cases h
  | some data' => rw [hload] at h; cases h; rfl

theorem poke_returns (cells next : List Byte) (off : Nat) (data : List Byte) (w v : World)
    (h : poke cells off data w = .ok next v) : store cells off data = some next := by
  unfold poke at h
  cases hstore : store cells off data with
  | none => rw [hstore] at h; cases h
  | some next' => rw [hstore] at h; cases h; rfl

-- The value that the insisting loops return for each way they may end.
def code (count : Nat) : Ending → Int
  | .full => count
  | .eof => 0
  | .failed _ => -1

def World.setInp (w : World) (fd : Nat) (s : Source Byte) : World :=
  { w with inp := Function.update w.inp fd s }

def World.setOut (w : World) (fd : Nat) (s : Sink Byte) : World :=
  { w with out := Function.update w.out fd s }

@[simp] theorem World.setInp_inp (w : World) (fd : Nat) (s : Source Byte) :
    (w.setInp fd s).inp fd = s := by simp [World.setInp]

@[simp] theorem World.setInp_out (w : World) (fd : Nat) (s : Source Byte) :
    (w.setInp fd s).out = w.out := rfl

@[simp] theorem World.setInp_locks (w : World) (fd : Nat) (s : Source Byte) :
    (w.setInp fd s).locks = w.locks := rfl

@[simp] theorem World.setInp_setInp (w : World) (fd : Nat) (s t : Source Byte) :
    (w.setInp fd s).setInp fd t = w.setInp fd t := by simp [World.setInp]

theorem World.setInp_self (w : World) (fd : Nat) : w.setInp fd (w.inp fd) = w := by
  simp [World.setInp]

@[simp] theorem World.setOut_out (w : World) (fd : Nat) (s : Sink Byte) :
    (w.setOut fd s).out fd = s := by simp [World.setOut]

theorem World.setOut_out_ne (w : World) (fd other : Nat) (s : Sink Byte) (h : other ≠ fd) :
    (w.setOut fd s).out other = w.out other := by simp [World.setOut, h]

@[simp] theorem World.setOut_inp (w : World) (fd : Nat) (s : Sink Byte) :
    (w.setOut fd s).inp = w.inp := rfl

@[simp] theorem World.setOut_locks (w : World) (fd : Nat) (s : Sink Byte) :
    (w.setOut fd s).locks = w.locks := rfl

@[simp] theorem World.setOut_setOut (w : World) (fd : Nat) (s t : Sink Byte) :
    (w.setOut fd s).setOut fd t = w.setOut fd t := by simp [World.setOut]

theorem World.setOut_self (w : World) (fd : Nat) : w.setOut fd (w.out fd) = w := by
  simp [World.setOut]

theorem World.setOut_reliable (w : World) (fd : Nat) (o : Sink Byte) (ho : o.Reliable)
    (h : ∀ fd, (w.out fd).Reliable) : ∀ other, ((w.setOut fd o).out other).Reliable := by
  intro other
  by_cases hother : other = fd
  · subst hother
    simpa using ho
  · rw [World.setOut_out_ne _ _ _ _ hother]
    exact h other

theorem read_run (fd count : Nat) (w : World) (res : Except Nat (List Byte)) (s : Source Byte)
    (h : (w.inp fd).read count = (res, s)) : read fd count w = .ok res (w.setInp fd s) := by
  simp [read, h, World.setInp]

theorem write_run (fd : Nat) (data : List Byte) (w : World) (res : Except Nat Nat) (s : Sink Byte)
    (h : (w.out fd).write data = (res, s)) : write fd data w = .ok res (w.setOut fd s) := by
  simp [write, h, World.setOut]

theorem insistWriteLoop_run (fd orig fuel : Nat) (data : List Byte) (w : World) :
    insistWriteLoop fd orig fuel data w =
      .ok (code orig ((w.out fd).insist fuel data).1)
        (w.setOut fd ((w.out fd).insist fuel data).2) := by
  induction fuel generalizing data w with
  | zero => simp [insistWriteLoop, Sink.insist, code, World.setOut_self]
  | succ fuel ih =>
      unfold insistWriteLoop Sink.insist
      by_cases h0 : data = []
      · simp [h0, code, World.setOut_self]
      · simp only [h0, if_false]
        cases hw : (w.out fd).write data with
        | mk res s =>
            rw [bind_ok _ _ _ _ _ (write_run fd data w res s hw)]
            cases res with
            | error errno => simp [code]
            | ok n => simp [ih]

theorem insistWrite_run (fd : Nat) (data : List Byte) (w : World) :
    insistWrite fd data w = .ok (code data.length ((w.out fd).insist data.length data).1)
      (w.setOut fd ((w.out fd).insist data.length data).2) :=
  insistWriteLoop_run fd data.length data.length data w

theorem insistReadLoop_run (fd orig fuel : Nat) (buf next : List Byte) (off count : Nat) (w : World)
    (hoff : off ≤ buf.length)
    (h : store buf off ((w.inp fd).insist fuel count).1 = some next) :
    insistReadLoop fd orig fuel buf off count w =
      .ok (code orig ((w.inp fd).insist fuel count).2.1, next)
        (w.setInp fd ((w.inp fd).insist fuel count).2.2) := by
  induction fuel generalizing buf off count w with
  | zero =>
      simp only [Source.insist, store_nil buf off hoff, Option.some.injEq] at h
      subst h
      simp [insistReadLoop, Source.insist, code, World.setInp_self]
  | succ fuel ih =>
      unfold Source.insist at h ⊢
      unfold insistReadLoop
      by_cases h0 : count = 0
      · simp only [h0, if_true, store_nil buf off hoff, Option.some.injEq] at h ⊢
        subst h
        simp [code, World.setInp_self]
      · simp only [h0, if_false] at h ⊢
        cases hr : (w.inp fd).read count with
        | mk res s =>
            rw [hr] at h
            rw [bind_ok _ _ _ _ _ (read_run fd count w res s hr)]
            cases res with
            | error errno =>
                simp only [store_nil buf off hoff, Option.some.injEq] at h
                subst h
                simp [code]
            | ok data =>
                cases data with
                | nil =>
                    simp only [store_nil buf off hoff, Option.some.injEq] at h
                    subst h
                    simp [code]
                | cons x xs =>
                    simp only at h ⊢
                    have hb := store_bound _ _ _ _ h
                    simp only [List.length_append] at hb
                    obtain ⟨mid, hmid⟩ : ∃ mid, store buf off (x :: xs) = some mid :=
                      ⟨_, store_eq_some buf off (x :: xs) (by omega)⟩
                    have hl := store_length _ _ _ _ hmid
                    rw [bind_ok _ _ _ _ _ (poke_run _ _ _ _ _ hmid)]
                    rw [← store_store buf mid off _ _ hmid] at h
                    rw [ih mid _ _ _ (by omega) (by simpa using h)]
                    simp

theorem insistReadLoop_fault (fd orig fuel : Nat) (buf : List Byte) (off count : Nat) (w : World)
    (hoff : off ≤ buf.length) (h : store buf off ((w.inp fd).insist fuel count).1 = none) :
    ∃ w', insistReadLoop fd orig fuel buf off count w = .error .fault w' := by
  induction fuel generalizing buf off count w with
  | zero => simp [Source.insist, store_nil buf off hoff] at h
  | succ fuel ih =>
      unfold Source.insist at h
      unfold insistReadLoop
      by_cases h0 : count = 0
      · simp [h0, store_nil buf off hoff] at h
      · simp only [h0, if_false] at h ⊢
        cases hr : (w.inp fd).read count with
        | mk res s =>
            rw [hr] at h
            rw [bind_ok _ _ _ _ _ (read_run fd count w res s hr)]
            cases res with
            | error errno => simp [store_nil buf off hoff] at h
            | ok data =>
                cases data with
                | nil => simp [store_nil buf off hoff] at h
                | cons x xs =>
                    simp only at h ⊢
                    cases hmid : store buf off (x :: xs) with
                    | none => exact ⟨_, bind_error _ _ _ _ _ (poke_fault _ _ _ _ hmid)⟩
                    | some mid =>
                        have hb := store_bound _ _ _ _ hmid
                        have hl := store_length _ _ _ _ hmid
                        rw [bind_ok _ _ _ _ _ (poke_run _ _ _ _ _ hmid)]
                        rw [← store_store buf mid off _ _ hmid] at h
                        exact ih mid _ _ _ (by omega) (by simpa using h)

theorem insistRead_run (fd : Nat) (buf next : List Byte) (off count : Nat) (w : World)
    (hoff : off ≤ buf.length)
    (h : store buf off ((w.inp fd).insist count count).1 = some next) :
    insistRead fd buf off count w =
      .ok (code count ((w.inp fd).insist count count).2.1, next)
        (w.setInp fd ((w.inp fd).insist count count).2.2) :=
  insistReadLoop_run fd count count buf next off count w hoff h

theorem insistRead_fault (fd : Nat) (buf : List Byte) (off count : Nat) (w : World)
    (hoff : off ≤ buf.length) (h : store buf off ((w.inp fd).insist count count).1 = none) :
    ∃ w', insistRead fd buf off count w = .error .fault w' :=
  insistReadLoop_fault fd count count buf off count w hoff h

-- Without failing calls everything is written.
theorem insistWrite_full (fd : Nat) (data : List Byte) (w : World) (hr : (w.out fd).Reliable) :
    ∃ o, insistWrite fd data w = .ok data.length (w.setOut fd o) ∧
      o.sent = (w.out fd).sent ++ data ∧ o.Reliable := by
  have hg := (Sink.insist_given data.length (w.out fd) data (Nat.le_refl _)).reliable hr
  refine ⟨_, ?_, hg.2.1, hg.2.2⟩
  rw [insistWrite_run, hg.1]
  rfl

-- After a full read the two tests on its result are passed.
theorem after_full {α : Type} (n : Nat) (hpos : 0 < n) (failed ended next : Proc α) :
    (if (n : Int) < 0 then failed else if (n : Int) ≤ 0 then ended else next) = next := by
  rw [if_neg (by omega), if_neg (by omega)]

-- A stream that is long enough fills the requested range.
theorem insistRead_full (fd : Nat) (buf next : List Byte) (off count : Nat) (w : World)
    (hr : (w.inp fd).Reliable) (hcount : count ≤ (w.inp fd).pending.length)
    (h : store buf off ((w.inp fd).pending.take count) = some next) :
    ∃ s, insistRead fd buf off count w = .ok (count, next) (w.setInp fd s) ∧
      s.pending = (w.inp fd).pending.drop count ∧ s.Reliable := by
  have ht := Source.insist_taken count (w.inp fd) count (Nat.le_refl _)
  obtain ⟨hfull, _, hrest⟩ := ht.reliable hr
  have hend := hfull hcount
  have hlen := ht.full.mp hend
  have hdata := ht.data_eq_take
  rw [hlen] at hdata
  have hb := store_bound _ _ _ _ h
  refine ⟨_, ?_, ?_, hrest⟩
  · rw [insistRead_run fd buf next off count w (by omega) (by rw [hdata]; exact h), hend]
    rfl
  · rw [ht.rest_eq_drop, hlen]

-- A shorter stream is consumed and the end of file reported.
theorem insistRead_eof (fd : Nat) (buf next : List Byte) (off count : Nat) (w : World)
    (hr : (w.inp fd).Reliable) (hcount : (w.inp fd).pending.length < count)
    (h : store buf off (w.inp fd).pending = some next) :
    ∃ s, insistRead fd buf off count w = .ok (0, next) (w.setInp fd s) ∧
      s.pending = [] ∧ s.Reliable := by
  have ht := Source.insist_taken count (w.inp fd) count (Nat.le_refl _)
  obtain ⟨_, heof, hrest⟩ := ht.reliable hr
  obtain ⟨hend, hdata⟩ := heof hcount
  have hb := store_bound _ _ _ _ h
  refine ⟨_, ?_, ht.eof hend, hrest⟩
  rw [insistRead_run fd buf next off count w (by omega) (by rw [hdata]; exact h), hend]
  rfl

end CryptodevChat.Chat
