import LuaNode.Http.OutgoingMessage

/-!
# Flushing a queued message

`_flush` on a socket of which no more is known than what `_flush` asks it: whether it is writable,
and what a call of `write` returns. The socket answers in any way, and a write may leave it not
writable. The buffer is handed over in order as far as the socket takes it; what comes after the
loop is right but for one case, in which the code names a variable that does not exist.
-/

namespace LuaNode

/-- `socket.writable` and `socket:write(data, encoding)`. -/
structure SocketPort (σ : Type*) where
  writable : σ → Bool
  write : σ → Str → Option Str → σ × Bool

/-- The events that `_flush` emits on the message. -/
inductive FlushEvent
  | finish
  | drain
  deriving DecidableEq

variable {σ : Type*}

/-- The strings of a buffer with their encodings, as the loop takes them off the two arrays. -/
def queued : List Str → List Str → List (Str × Option Str)
  | [], _ => []
  | c :: cs, encodings => (c, encodings.head?) :: queued cs encodings.tail

namespace SocketPort

variable (port : SocketPort σ)

/-- The socket after some writes, and what the last one returned. -/
def replay (s : σ) : List (Str × Option Str) → Option Bool → σ × Option Bool
  | [], ret => (s, ret)
  | e :: es, _ => replay (port.write s e.1 e.2).1 es (some (port.write s e.1 e.2).2)

/-- The writes find the socket writable, every one of them. -/
def Accepts (s : σ) : List (Str × Option Str) → Prop
  | [] => True
  | e :: es => port.writable s = true ∧ Accepts (port.write s e.1 e.2).1 es

instance decidableAccepts : ∀ (s : σ) (es : List (Str × Option Str)), Decidable (port.Accepts s es)
  | _, [] => inferInstanceAs (Decidable True)
  | s, e :: es =>
    have := decidableAccepts (port.write s e.1 e.2).1 es
    inferInstanceAs (Decidable (port.writable s = true ∧ port.Accepts (port.write s e.1 e.2).1 es))

/-- The arrays and the socket after some rounds of the loop, and the calls of `write`. -/
structure Rounds (σ : Type*) where
  output : List Str
  outputEncodings : List Str
  socket : σ
  ret : Option Bool
  handed : List (Str × Option Str)

/-- `while #self.output > 0`. -/
def loop : List Str → List Str → σ → Option Bool → Rounds σ
  | [], encodings, s, ret => ⟨[], encodings, s, ret, []⟩
  | c :: cs, encodings, s, ret =>
    if port.writable s then
      let w := port.write s c encodings.head?
      let r := loop cs encodings.tail w.1 (some w.2)
      { r with handed := (c, encodings.head?) :: r.handed }
    else ⟨c :: cs, encodings, s, ret, []⟩

end SocketPort

/-- What `_flush` leaves behind, the strings that it handed over and the events that it emitted. -/
structure FlushOutcome (σ : Type*) where
  self : OutgoingMessage
  socket : σ
  handed : List (Str × Option Str)
  ret : Except LuaError Unit
  emitted : List FlushEvent

namespace OutgoingMessage

variable (m : OutgoingMessage) (port : SocketPort σ) (s : σ)

/-- `_flush`. -/
def flushTo : FlushOutcome σ :=
  if m.connection = false then ⟨m, s, [], .ok (), []⟩
  else
    let r := port.loop m.output m.outputEncodings s none
    let m := { m with output := r.output, outputEncodings := r.outputEncodings }
    if m.output.length > 0 then ⟨m, r.socket, r.handed, .ok (), []⟩
    else if m.finished then ⟨m, r.socket, r.handed, .ok (), [.finish]⟩
    else if r.ret = some true then
      ⟨m, r.socket, r.handed, .error "attempt to index global 'message' (a nil value)", []⟩
    else ⟨m, r.socket, r.handed, .ok (), []⟩

/-- What `_flush` is for. -/
structure Flushes (o : FlushOutcome σ) : Prop where
  quiet : o.ret = .ok ()
  order : o.handed ++ queued o.self.output o.self.outputEncodings =
    queued m.output m.outputEncodings
  accepted : port.Accepts s o.handed
  socket : o.socket = (port.replay s o.handed none).1
  stops : m.connection = true → o.self.output = [] ∨ port.writable o.socket = false
  idle : m.connection = false → o.handed = [] ∧ o.emitted = []
  emits : m.connection = true → o.emitted =
    if o.self.output ≠ [] then []
    else if m.finished then [.finish]
    else if (port.replay s o.handed none).2 = some true then [.drain] else []
  others : o.self = { m with
    output := o.self.output
    outputEncodings := o.self.outputEncodings }

/-- An unfinished message whose strings the socket takes all, answering the last one with true. -/
def AwaitsDrain : Prop :=
  m.connection = true ∧ m.finished = false ∧ port.Accepts s (queued m.output m.outputEncodings) ∧
    (port.replay s (queued m.output m.outputEncodings) none).2 = some true

end OutgoingMessage

namespace SocketPort

variable (port : SocketPort σ)

/-- The loop hands over the strings that the socket accepts, and keeps the rest. -/
theorem loop_spec (output encodings : List Str) (s : σ) (ret : Option Bool) :
    let r := port.loop output encodings s ret
    r.handed ++ queued r.output r.outputEncodings = queued output encodings ∧
    port.Accepts s r.handed ∧ (r.socket, r.ret) = port.replay s r.handed ret ∧
    (r.output = [] ∨ port.writable r.socket = false) := by
  induction output generalizing encodings s ret with
  | nil => exact ⟨rfl, trivial, rfl, Or.inl rfl⟩
  | cons c cs ih =>
    unfold loop
    split_ifs with hw
    · obtain ⟨horder, haccepts, hreplay, hstops⟩ :=
        ih encodings.tail (port.write s c encodings.head?).1
          (some (port.write s c encodings.head?).2)
      exact ⟨congrArg _ horder, ⟨hw, haccepts⟩, hreplay, hstops⟩
    · exact ⟨rfl, trivial, rfl, Or.inr (by simpa using hw)⟩

/-- The loop empties the buffer when the socket accepts all of it. -/
theorem loop_accepts (output encodings : List Str) (s : σ) (ret : Option Bool) :
    (port.loop output encodings s ret).output = [] ↔ port.Accepts s (queued output encodings) := by
  induction output generalizing encodings s ret with
  | nil => exact ⟨fun _ => trivial, fun _ => rfl⟩
  | cons c cs ih =>
    unfold loop queued Accepts
    split_ifs with hw
    · rw [and_iff_right hw]
      exact ih _ _ _
    · exact ⟨False.elim, fun h => hw h.1⟩

end SocketPort

namespace OutgoingMessage

variable (m : OutgoingMessage) (port : SocketPort σ) (s : σ)

/-- A flush of a queued message does what it is for, on whatever socket, exactly when the message
does not have to emit 'drain'. -/
theorem flush_drain_iff : m.Flushes port s (m.flushTo port s) ↔ ¬m.AwaitsDrain port s := by
  obtain ⟨horder, haccepts, hreplay, hstops⟩ :=
    port.loop_spec m.output m.outputEncodings s none
  have hempty := port.loop_accepts m.output m.outputEncodings s none
  unfold flushTo
  dsimp only
  generalize port.loop m.output m.outputEncodings s none = r at *
  obtain ⟨output, encodings, t, ret, handed⟩ := r
  dsimp only at horder haccepts hreplay hstops hempty ⊢
  obtain ⟨rfl, rfl⟩ := Prod.ext_iff.mp hreplay
  split_ifs with hc hlength hfinished hret
  · refine iff_of_true ⟨rfl, rfl, trivial, rfl, ?_, fun _ => ⟨rfl, rfl⟩, ?_, rfl⟩ ?_
    · exact fun h => absurd (hc.symm.trans h) Bool.false_ne_true
    · exact fun h => absurd (hc.symm.trans h) Bool.false_ne_true
    · exact fun h => absurd (hc.symm.trans h.1) Bool.false_ne_true
  all_goals have hattached : m.connection = true := by simpa using hc
  · have hne : output ≠ [] := List.ne_nil_of_length_pos hlength
    refine iff_of_true ⟨rfl, horder, haccepts, rfl, fun _ => hstops, fun h => absurd h hc, ?_, rfl⟩ ?_
    · exact fun _ => (if_pos hne).symm
    · exact fun h => hne (hempty.mpr h.2.2.1)
  all_goals
    have hnil : output = [] := List.eq_nil_of_length_eq_zero (by omega)
    subst hnil
    have hhanded : handed = queued m.output m.outputEncodings := by simpa [queued] using horder
  · refine iff_of_true ⟨rfl, horder, haccepts, rfl, fun _ => hstops, fun h => absurd h hc, ?_, rfl⟩ ?_
    · exact fun _ => ((if_neg (by simp)).trans (if_pos hfinished)).symm
    · exact fun h => absurd (h.2.1.symm.trans hfinished) Bool.false_ne_true
  · refine iff_of_false (fun h => absurd h.quiet (by simp)) (not_not.mpr ?_)
    refine ⟨hattached, by simpa using hfinished, hempty.mp rfl, ?_⟩
    rw [← hhanded]
    exact hret
  · refine iff_of_true ⟨rfl, horder, haccepts, rfl, fun _ => hstops, fun h => absurd h hc, ?_, rfl⟩ ?_
    · intro _
      rw [if_neg (by simp), if_neg hfinished, if_neg hret]
    · intro h
      exact hret (hhanded ▸ h.2.2.2)

/-- A response with one string in its buffer, on a socket that takes it at once. -/
theorem flush_undrained :
    let m := { init 0 .serverResponse (.inOrder []) with
      output := ["hello".toList]
      outputEncodings := ["ascii".toList]
      connection := true }
    let port : SocketPort Unit := ⟨fun _ => true, fun _ _ _ => ((), true)⟩
    ¬m.Flushes port () (m.flushTo port ()) := by
  intro m port h
  exact absurd h.quiet (by simp [m, port, flushTo, SocketPort.loop, init])

end OutgoingMessage

/-! ### The socket of the connection -/

/-- The socket as it answers message `id`. -/
def Socket.port (id : ℕ) : SocketPort Socket where
  writable := Socket.writable
  write s data _ := s.write id data

theorem pump_loop (id : ℕ) (output encodings : List Str) (s : Socket) (ret : Option Bool) :
    let r := (Socket.port id).loop output encodings s ret
    pump id output encodings s ret = ⟨r.output, r.outputEncodings, r.socket, r.ret⟩ := by
  induction output generalizing encodings s ret with
  | nil => rfl
  | cons c cs ih =>
    unfold pump SocketPort.loop
    have hport : (Socket.port id).writable s = s.writable := rfl
    by_cases hw : s.writable = true
    · simp only [hport, if_pos hw]
      exact ih _ _ _
    · simp only [hport, if_neg hw]

/-- `_flush` on the socket of the connection is that on any socket. -/
theorem OutgoingMessage.flush_flushTo (m : OutgoingMessage) (s : Socket) :
    let o := m.flushTo (Socket.port m.id) s
    m.flush s = ⟨o.self, o.socket, o.ret.map fun _ => none, decide (o.emitted = [.finish])⟩ := by
  unfold flush flushTo drain
  simp only [pump_loop]
  split_ifs <;> rfl

end LuaNode
