import CryptodevChat.Server.Order
import CryptodevChat.Chat.Frames

namespace CryptodevChat.Server

open Lib (Byte be fromBe Run PrefixFree)

variable {cfg : Cfg} {s s' : State} {t : Nat} {th : Thread} {op : Op}

-- What a step brings from a client.
def Act.brings (k : Nat) : Act → List Byte
  | .arrive j data => if j = k then data else []
  | _ => []

-- What has come from a client in a run.
def arrivals (k : Nat) (actions : List Act) : List Byte := actions.flatMap (Act.brings k)

-- What has come from a client in a state: what was read, and what was not.
def Conn.came (conn : Conn) : List Byte := conn.taken ++ conn.pending

theorem came_update (k : Nat) (conn : Conn) (hcame : conn.came = (s.conns k).came) (c : Nat) :
    (Function.update s.conns k conn c).came = (s.conns c).came := by
  by_cases hc : c = k
  · rw [hc, Function.update_self, hcame]
  · rw [Function.update_of_ne hc]

-- A thread reads what is pending, and nothing is lost.
theorem Moves.came (h : Moves cfg s t th op s') (c : Nat) : (s'.conns c).came = (s.conns c).came := by
  cases h with
  | receive next total hreads got hpc k n =>
      refine came_update (s := s) k _ ?_ c
      simp only [Conn.came, List.append_assoc, List.take_append_drop]
  | write next fd hwrites rest hpc k | sent msg client fd data hpc k =>
      exact came_update k _ (by rfl) c
  | _ => rfl

theorem came_step {a : Act} (h : cfg.step s a = some s') (c : Nat) :
    (s'.conns c).came = (s.conns c).came ++ a.brings c := by
  cases step_does h with
  | setId | semInit | create | count | accept | full => exact (List.append_nil _).symm
  | thread t th op s' hth hmoves => simp [Act.brings, hmoves.came c]
  | hangup k =>
      have hsame := came_update (s := s) k { s.conns k with up := false } (by rfl) c
      exact hsame.trans (List.append_nil _).symm
  | arrive k data =>
      by_cases hc : c = k
      · subst hc
        simp [Act.brings, State.setConn, Conn.came]
      · simp [Act.brings, State.setConn, Function.update_of_ne hc, Ne.symm hc]

theorem came_of_run {good : State → Act → Prop} {actions : List Act}
    (run : Run cfg.step good State.boot actions s) (c : Nat) :
    (s.conns c).came = arrivals c actions := by
  induction run with
  | nil => rfl
  | snoc _ _ next ih => rw [came_step next, ih, arrivals, arrivals, List.flatMap_append]; simp

-- The frames that the server distributes are frames in the sense of the single calls of `forward`.
theorem IsFrame.chat {frame : List Byte} (h : IsFrame frame) : Chat.IsFrame frame := by
  obtain ⟨body, rfl, hpos, hlt⟩ := h
  have hlen : (be 4 body.length ++ body).length = body.length + 4 := by
    rw [List.length_append, Lib.be_length]
    omega
  have hsize : Chat.headerSize (be 4 body.length ++ body) = body.length := by
    rw [Chat.headerSize, List.take_left' (Lib.be_length ..), Lib.fromBe_be, Nat.mod_eq_of_lt (by omega)]
  exact ⟨by omega, by rw [hsize, hlen]⟩

theorem isFrame_prefixFree : PrefixFree IsFrame := Chat.isFrame_prefixFree.mono fun _ => IsFrame.chat

-- What a thread has read of a client that sends frames are its first frames.
theorem Serving.frames_prefix (h : Serving s) (hth : s.threads t = some th) (hstart : th.pc ≠ .start)
    (frames : List (List Byte)) (hframes : ∀ frame ∈ frames, IsFrame frame)
    (hcame : (s.conns th.me).came <+: frames.flatten) : th.frames <+: frames := by
  obtain ⟨tail, htail, -⟩ := h.heard.heard t th hth hstart
  refine isFrame_prefixFree.flatten_prefix _ _ (h.carried.threads t th hth).frames hframes ?_
  refine List.IsPrefix.trans ⟨tail ++ (s.conns th.me).pending, ?_⟩ hcame
  rw [Conn.came, htail, List.append_assoc]

end CryptodevChat.Server
