import LuaNode.Http.OutgoingMessage
import LuaNode.Library.ChunkedCoding

/-!
# The byte stream of a message

`Encoder` is what an outgoing message is for, without socket, buffer or schedule: it turns the
calls of `write` and `finish` into bytes. `Effect` says what any method may do to the message
and its socket: the strings it hands to the socket and the buffer it leaves behind make up the
old buffer and the bytes it produced, in this order. `Refines` puts the two together, and each
method refines the operation of the encoder, whatever the socket and the buffer look like.
-/

namespace LuaNode

/-- A message whose header block is stored, as a source of bytes. -/
structure Encoder where
  block : Str
  blockSent : Bool
  hasBody : Bool
  chunked : Bool
  trailer : Str
  finished : Bool
  deriving DecidableEq

namespace Encoder

/-- Bytes leave behind the header block. -/
def emit (e : Encoder) (data : Str) : Encoder × Str :=
  if e.blockSent then (e, data) else ({ e with blockSent := true }, e.block ++ data)

def frame (e : Encoder) (data : Str) : Str := if e.chunked then encodeChunk data else data

def write (e : Encoder) (data : Str) : Encoder × Str :=
  if e.hasBody = false ∨ data = [] then (e, []) else e.emit (e.frame data)

/-- The end of the message: the zero-size chunk with the trailers, or nothing. -/
def ending (e : Encoder) : Str := if e.chunked then "0\r\n".toList ++ e.trailer ++ crlf else []

def finish (e : Encoder) (data : Str) : Encoder × Str :=
  if e.finished then (e, [])
  else
    let w := e.write data
    let r := w.1.emit w.1.ending
    ({ r.1 with finished := true }, w.2 ++ r.2)

end Encoder

namespace OutgoingMessage

def encoder (m : OutgoingMessage) : Encoder where
  block := m.header.getD []
  blockSent := m.headerSent
  hasBody := m.hasBody
  chunked := m.chunkedEncoding
  trailer := m.trailer
  finished := m.finished

/-- The bytes of the message so far: handed to the socket, and buffered. -/
def stream (m : OutgoingMessage) (s : Socket) : Str := s.sentBy m.id ++ m.output.flatten

end OutgoingMessage

/-- The fields that no method changes once the header is stored. -/
def BodyFrame (m m' : OutgoingMessage) : Prop :=
  m' = { m with
    output := m'.output
    outputEncodings := m'.outputEncodings
    hangupClose := m'.hangupClose
    headerSent := m'.headerSent
    finished := m'.finished
    trailer := m'.trailer }

theorem BodyFrame.refl (m : OutgoingMessage) : BodyFrame m m := rfl

theorem BodyFrame.trans {a b c : OutgoingMessage} (hab : BodyFrame a b) (hbc : BodyFrame b c) :
    BodyFrame a c := by
  unfold BodyFrame at *
  rw [hab] at hbc
  exact hbc

/-- What a method does to the message and the socket while it produces the bytes `p`. On a
destroyed socket the bytes are dropped. -/
structure Effect (m : OutgoingMessage) (s : Socket) (m' : OutgoingMessage) (s' : Socket)
    (p : Str) : Prop where
  id : m'.id = m.id
  kind : m'.kind = m.kind
  connection : m'.connection = m.connection
  writable : s'.writable = s.writable
  destroyed : s'.destroyed = s.destroyed
  httpMessage : s'.httpMessage = s.httpMessage
  wire : ∃ q : List Str,
    s'.written = s.written ++ q.map (fun c => (m.id, c)) ∧
    (q ≠ [] → m.connection = true ∧ s.writable = true ∧ s.httpMessage = some m.id) ∧
    q.flatten ++ m'.output.flatten =
      m.output.flatten ++ (if m.connection && s.destroyed then [] else p)
  drained : m.connection = true → s.writable = true → s.httpMessage = some m.id →
    m.output = [] → m'.output = []

namespace Effect

variable {m m₁ m₂ : OutgoingMessage} {s s₁ s₂ : Socket} {p q : Str}

theorem refl (m : OutgoingMessage) (s : Socket) : Effect m s m s [] where
  id := rfl
  kind := rfl
  connection := rfl
  writable := rfl
  destroyed := rfl
  httpMessage := rfl
  wire := ⟨[], by simp⟩
  drained := fun _ _ _ h => h

theorem trans (h₁ : Effect m s m₁ s₁ p) (h₂ : Effect m₁ s₁ m₂ s₂ q) :
    Effect m s m₂ s₂ (p ++ q) where
  id := h₂.id.trans h₁.id
  kind := h₂.kind.trans h₁.kind
  connection := h₂.connection.trans h₁.connection
  writable := h₂.writable.trans h₁.writable
  destroyed := h₂.destroyed.trans h₁.destroyed
  httpMessage := h₂.httpMessage.trans h₁.httpMessage
  wire := by
    obtain ⟨a, ha, hga, hfa⟩ := h₁.wire
    obtain ⟨b, hb, hgb, hfb⟩ := h₂.wire
    rw [h₁.connection, h₁.destroyed] at hfb
    rw [h₁.connection, h₁.writable, h₁.httpMessage, h₁.id] at hgb
    refine ⟨a ++ b, ?_, ?_, ?_⟩
    · rw [hb, ha, h₁.id, List.map_append, List.append_assoc]
    · intro hne
      by_cases ha0 : a = []
      · exact hgb (by simpa [ha0] using hne)
      · exact hga ha0
    · rw [List.flatten_append, List.append_assoc, hfb, ← List.append_assoc, hfa,
        List.append_assoc]
      split_ifs <;> simp
  drained := fun hc hw hh ho =>
    h₂.drained (h₁.connection.trans hc) (h₁.writable.trans hw)
      (by rw [h₁.httpMessage, h₁.id]; exact hh) (h₁.drained hc hw hh ho)

/-- The strings written by a message are appended to what it sent before, and to nothing that
another message sent. -/
theorem sentBy_append (s : Socket) (q : List Str) (id j : ℕ) (s' : Socket)
    (h : s'.written = s.written ++ q.map (fun c => (id, c))) :
    s'.sentBy j = s.sentBy j ++ if id = j then q.flatten else [] := by
  unfold Socket.sentBy
  rw [h, List.filter_append, List.flatMap_append]
  congr 1
  clear h
  induction q with
  | nil => simp
  | cons c q ih => by_cases hj : id = j <;> simp_all

/-- Nothing is lost on a socket that lives: the stream grows by the bytes produced. -/
theorem stream_eq (h : Effect m s m₁ s₁ p) (hd : s.destroyed = false ∨ m.connection = false) :
    m₁.stream s₁ = m.stream s ++ p := by
  obtain ⟨q, hq, -, hf⟩ := h.wire
  have hlive : (m.connection && s.destroyed) = false := by
    rcases hd with h | h <;> simp [h]
  rw [hlive] at hf
  unfold OutgoingMessage.stream
  rw [h.id, sentBy_append s q m.id m.id s₁ hq, if_pos rfl, List.append_assoc, hf]
  simp

/-- On any socket the stream grows by the bytes produced or not at all. -/
theorem stream_cases (h : Effect m s m₁ s₁ p) :
    m₁.stream s₁ = m.stream s ++ p ∨ m₁.stream s₁ = m.stream s := by
  obtain ⟨q, hq, -, hf⟩ := h.wire
  unfold OutgoingMessage.stream
  rw [h.id, sentBy_append s q m.id m.id s₁ hq, if_pos rfl, List.append_assoc, hf]
  split_ifs
  · exact Or.inr (by simp)
  · exact Or.inl (by simp)

/-- A message that is not attached to a writable socket writes nothing. -/
theorem written_eq (h : Effect m s m₁ s₁ p)
    (hq : m.connection = false ∨ s.writable = false ∨ s.httpMessage ≠ some m.id) :
    s₁.written = s.written := by
  obtain ⟨q, hw, hg, -⟩ := h.wire
  have : q = [] := by
    by_contra hne
    obtain ⟨hc, hwr, hm⟩ := hg hne
    rcases hq with h | h | h
    · simp [hc] at h
    · simp [hwr] at h
    · exact h hm
  simpa [this] using hw

theorem sentBy_other (h : Effect m s m₁ s₁ p) {j : ℕ} (hj : j ≠ m.id) :
    s₁.sentBy j = s.sentBy j := by
  obtain ⟨q, hq, -, -⟩ := h.wire
  rw [sentBy_append s q m.id j s₁ hq, if_neg (Ne.symm hj), List.append_nil]

end Effect

/-- A method that produces bytes the way the encoder does. -/
structure Refines (m : OutgoingMessage) (s : Socket) (o : Outcome) (r : Encoder × Str) :
    Prop where
  effect : Effect m s o.self o.socket r.2
  encoder : o.self.encoder = r.1
  frame : BodyFrame m o.self

theorem Refines.refl (m : OutgoingMessage) (s : Socket) (ret : Except LuaError (Option Bool))
    (finish : Bool) : Refines m s ⟨m, s, ret, finish⟩ (m.encoder, []) :=
  ⟨.refl m s, rfl, .refl m⟩

/-- Two methods one after the other; the second is not reached when the first raises. -/
theorem Refines.andThen {m : OutgoingMessage} {s : Socket} {o : Outcome} {e : Encoder}
    {p q : Str} {f : OutgoingMessage → Socket → Outcome} {r : Encoder}
    (h : Refines m s o (e, p)) (hok : ∃ v, o.ret = .ok v)
    (hf : Refines o.self o.socket (f o.self o.socket) (r, q)) :
    Refines m s (o.andThen f) (r, p ++ q) := by
  obtain ⟨v, hv⟩ := hok
  have heq : o.andThen f = f o.self o.socket := by simp [Outcome.andThen, hv]
  rw [heq]
  exact ⟨h.effect.trans hf.effect, hf.encoder, h.frame.trans hf.frame⟩

/-! ### The buffer and the loops over it -/

section Pump

variable (id : ℕ)

theorem pump_writable (out enc : List Str) (s : Socket) (ret : Option Bool)
    (hw : s.writable = true) :
    (pump id out enc s ret).output = [] ∧
    (pump id out enc s ret).socket.written = s.written ++ out.map (fun c => (id, c)) := by
  induction out generalizing enc s ret with
  | nil => simp [pump]
  | cons c cs ih =>
    have h := ih enc.tail (s.write id c).1 (some (s.write id c).2) hw
    simp only [pump, hw, if_true]
    exact ⟨h.1, by rw [h.2]; simp [Socket.write]⟩

theorem pump_shut (out enc : List Str) (s : Socket) (ret : Option Bool)
    (hw : s.writable = false) :
    (pump id out enc s ret).output = out ∧ (pump id out enc s ret).socket = s := by
  cases out <;> simp [pump, hw]

theorem pump_socket (out enc : List Str) (s : Socket) (ret : Option Bool) :
    (pump id out enc s ret).socket.writable = s.writable ∧
    (pump id out enc s ret).socket.destroyed = s.destroyed ∧
    (pump id out enc s ret).socket.httpMessage = s.httpMessage ∧
    (pump id out enc s ret).socket.hangupClose = s.hangupClose := by
  induction out generalizing enc s ret with
  | nil => simp [pump]
  | cons c cs ih =>
    simp only [pump]
    split
    · exact ih enc.tail (s.write id c).1 (some (s.write id c).2)
    · exact ⟨rfl, rfl, rfl, rfl⟩

end Pump

namespace OutgoingMessage

variable (m : OutgoingMessage) (s : Socket)

/-- Merged into the last entry or not, the data stands behind what was buffered. -/
theorem buffer_output (data : Str) (encoding : Option Str) :
    (m.buffer data encoding).output.flatten = m.output.flatten ++ data := by
  unfold buffer
  split_ifs with h0 h1 h2
  · simp [List.eq_nil_of_length_eq_zero h0]
  · simp
  · have hne : m.output ≠ [] := by intro h; simp [h] at h1
    have hsplit : m.output.dropLast.flatten ++ m.output.getLastD [] = m.output.flatten := by
      conv_rhs => rw [← List.dropLast_append_getLast hne]
      simp [List.getLastD_eq_getLast?, List.getLast?_eq_getLast_of_ne_nil hne]
    simp [← hsplit]
  · simp

theorem buffer_frame (data : Str) (encoding : Option Str) :
    BodyFrame m (m.buffer data encoding) ∧ (m.buffer data encoding).encoder = m.encoder := by
  unfold buffer
  split_ifs <;> exact ⟨rfl, rfl⟩

/-! ### Each method refines an operation of the encoder -/

/-- The loop keeps everything but the buffer, and moves it to a writable socket. -/
theorem drain_effect (hm : s.httpMessage = some m.id) (hc : m.connection = true) :
    Effect m s (m.drain s).self (m.drain s).socket [] ∧
    (s.writable = true → (m.drain s).self.output = []) := by
  obtain ⟨hw, hd, hmsg, -⟩ := pump_socket m.id m.output m.outputEncodings s none
  cases hws : s.writable with
  | true =>
    obtain ⟨hout, hwritten⟩ := pump_writable m.id m.output m.outputEncodings s none hws
    refine ⟨⟨rfl, rfl, rfl, hw, hd, hmsg, ⟨m.output, hwritten, ?_, ?_⟩, ?_⟩, fun _ => hout⟩
    · exact fun _ => ⟨hc, hws, hm⟩
    · simp [drain, hout]
    · exact fun _ _ _ _ => hout
  | false =>
    obtain ⟨hout, hsock⟩ := pump_shut m.id m.output m.outputEncodings s none hws
    refine ⟨⟨rfl, rfl, rfl, hw, hd, hmsg, ⟨[], ?_, ?_, ?_⟩, ?_⟩, ?_⟩
    · simp [drain, hsock]
    · simp
    · simp [drain, hout]
    · exact fun _ h => by simp [hws] at h
    · simp

theorem writeAttached_refines (data : Str) (encoding : Option Str) (hc : m.connection = true)
    (hm : s.httpMessage = some m.id) (hw : s.writable = true) (hd : s.destroyed = false) :
    Refines m s (m.writeAttached s data encoding) (m.encoder, data) := by
  obtain ⟨he, hout⟩ := m.drain_effect s hm hc
  obtain ⟨q, hq, -, hf⟩ := he.wire
  have hempty := hout hw
  have hlen : ¬ (m.drain s).self.output.length > 0 := by simp [hempty]
  unfold writeAttached
  simp only [if_neg hlen]
  refine ⟨⟨he.id, he.kind, he.connection, he.writable, he.destroyed, he.httpMessage,
    ⟨q ++ [data], ?_, ?_, ?_⟩, ?_⟩, rfl, rfl⟩
  · simp [Socket.write, hq]
  · exact fun _ => ⟨hc, hw, hm⟩
  · simpa [hempty, hd] using hf
  · exact fun _ _ _ _ => hempty

theorem writeDestroyed_refines (data : Str) (hc : m.connection = true)
    (hd : s.destroyed = true) : Refines m s (m.writeDestroyed s) (m.encoder, data) := by
  have hw := s.closed hd
  unfold writeDestroyed
  split_ifs
  all_goals
    refine ⟨⟨rfl, rfl, rfl, rfl, rfl, rfl, ⟨[], by simp, by simp, by simp [hc, hd]⟩, ?_⟩, rfl, rfl⟩
    exact fun _ _ _ h => h

theorem buffer_refines (data : Str) (encoding : Option Str) (ret : Except LuaError (Option Bool))
    (hlive : ¬ (m.connection = true ∧ s.httpMessage = some m.id ∧ s.writable = true ∧
      ¬ s.destroyed = true)) (hdead : ¬ (m.connection = true ∧ s.destroyed = true)) :
    Refines m s ⟨m.buffer data encoding, s, ret, false⟩ (m.encoder, data) := by
  obtain ⟨hframe, henc⟩ := m.buffer_frame data encoding
  have hkeep : (m.buffer data encoding).id = m.id ∧ (m.buffer data encoding).kind = m.kind ∧
      (m.buffer data encoding).connection = m.connection := by
    rw [hframe]; exact ⟨rfl, rfl, rfl⟩
  refine ⟨⟨hkeep.1, hkeep.2.1, hkeep.2.2, rfl, rfl, rfl, ⟨[], ?_, ?_, ?_⟩, ?_⟩, henc, hframe⟩
  · simp
  · simp
  · have hnot : (m.connection && s.destroyed) = false := by simpa using hdead
    simp [m.buffer_output, hnot]
  · intro hc hw hm _
    have hd : ¬ s.destroyed = true := fun h => by simp [s.closed h] at hw
    exact absurd ⟨hc, hm, hw, hd⟩ hlive

theorem writeRaw_refines (data : Str) (encoding : Option Str) :
    Refines m s (m.writeRaw s data encoding) (m.encoder, data) := by
  unfold writeRaw
  split_ifs with h0 hlive hdead
  · rw [List.eq_nil_of_length_eq_zero h0]
    exact .refl m s _ _
  · obtain ⟨hc, hm, hw, hd⟩ := hlive
    exact m.writeAttached_refines s data encoding hc hm hw (by simpa using hd)
  · exact m.writeDestroyed_refines s data hdead.1 hdead.2
  · exact m.buffer_refines s data encoding _ hlive hdead

theorem writeRaw_ok (data : Str) (encoding : Option Str) :
    (∃ v, (m.writeRaw s data encoding).ret = .ok v) ∧
      (m.writeRaw s data encoding).finish = false := by
  unfold writeRaw
  split_ifs
  · exact ⟨⟨_, rfl⟩, rfl⟩
  · unfold writeAttached
    dsimp only
    split_ifs <;> exact ⟨⟨_, rfl⟩, rfl⟩
  · unfold writeDestroyed
    split_ifs <;> exact ⟨⟨_, rfl⟩, rfl⟩
  · exact ⟨⟨_, rfl⟩, rfl⟩

variable {m}

/-- `_send` puts the header block in front, once. -/
theorem send_refines (hh : m.header.isSome) (data : Str) (encoding : Option Str) :
    Refines m s (m.send s data encoding) (m.encoder.emit data) := by
  unfold send Encoder.emit
  cases hsent : m.headerSent with
  | true =>
    have hb : m.encoder.blockSent = true := hsent
    rw [if_pos rfl, if_pos hb]
    exact m.writeRaw_refines s data encoding
  | false =>
    have hb : ¬ m.encoder.blockSent = true := by simp [encoder, hsent]
    rw [if_neg Bool.false_ne_true, if_neg hb]
    split
    next hnone => simp [hnone] at hh
    next header hheader =>
      have hblock : m.encoder.block = header := by simp [encoder, hheader]
      have h := writeRaw_refines { m with headerSent := true } s (header ++ data) encoding
      rw [hblock]
      exact ⟨⟨h.effect.id, h.effect.kind, h.effect.connection, h.effect.writable,
        h.effect.destroyed, h.effect.httpMessage, h.effect.wire, h.effect.drained⟩,
        by rw [h.encoder]; simp [encoder, hheader],
        BodyFrame.trans (b := { m with headerSent := true }) rfl h.frame⟩

theorem send_ok (hh : m.header.isSome) (data : Str) (encoding : Option Str) :
    (∃ v, (m.send s data encoding).ret = .ok v) ∧ (m.send s data encoding).finish = false := by
  unfold send
  split_ifs
  · exact m.writeRaw_ok s data encoding
  · split
    next hnone => simp [hnone] at hh
    next header _ => exact writeRaw_ok _ s _ encoding

end OutgoingMessage

end LuaNode
