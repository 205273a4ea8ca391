import LuaNode.Http.IncomingMessage

/-!
# The delivery of a body

A message from its beginning to its end, or to the close of its socket: the parser runs its
callbacks, the user pauses and resumes the message, the callbacks that `_emitPending` gives to
`nextTick` run, and `socketCloseListener` of a client's socket; when a server's socket closes, only
the parser stops. The listeners of 'data' and 'end' are code of the user; they return. The events
'aborted' and 'close' are left out.
-/

namespace LuaNode

structure BodyDelivery where
  parser : MessageParser
  /-- the callbacks of `_emitPending` in the queue of `nextTick`, each with the answer to whether
  it has a function of the close listener to call -/
  ticks : List Bool
  /-- such a callback that waits for the listeners of 'data' -/
  running : Option Bool
  /-- the close listener has been called -/
  closed : Bool
  /-- the callbacks of the parser -/
  history : List Callback

namespace BodyDelivery

inductive Event
  | callback (c : Callback)
  | pause
  | resume
  /-- the loop runs the next callback of the queue -/
  | tick
  /-- the listeners of 'data' return -/
  | returned
  /-- the socket closes, and `parser:finish()` may find that the message is complete -/
  | close (completes : Bool)

variable (s : BodyDelivery)

def message : IncomingMessage := s.parser.incoming

def setMessage (m : IncomingMessage) : BodyDelivery :=
  { s with parser := { s.parser with incoming := m } }

/-- After `parserOnMessageBegin`. -/
def init : BodyDelivery := ⟨⟨none, none, .init⟩, [], none, false, []⟩

def pause : BodyDelivery := s.setMessage { s.message with paused := true }

/-- `_emitPending`, with the function of the close listener or without. -/
def emitPending (callback : Bool) : BodyDelivery :=
  if s.message.pendings.length > 0 then { s with ticks := s.ticks ++ [callback] }
  else if callback then s.setMessage s.message.emitEnd
  else s

def resume : BodyDelivery := (s.setMessage { s.message with paused := false }).emitPending false

/-- The end of the callback of `_emitPending`. -/
def endPending (callback : Bool) : BodyDelivery :=
  let s := { s with running := none }
  if callback then s.setMessage s.message.emitEnd else s

/-- The message is at its end. -/
def endMessage : BodyDelivery := s.setMessage { s.message with readable := false }.emitEnd

/-- The loop of the callback of `_emitPending`, up to the listeners of 'data'. -/
def loop (callback : Bool) : BodyDelivery :=
  if s.message.paused then s.endPending callback
  else
    match s.message.pendings with
    | [] => s.endPending callback
    | .chunk data :: rest =>
      { s.setMessage ({ s.message with pendings := rest }.emitData data) with
        running := some callback }
    | .endOfFile :: rest =>
      let s := s.setMessage { s.message with pendings := rest }
      -- the assertion
      if rest.length ≠ 0 then { s with running := none }
      else s.endMessage.endPending callback

/-- The parser runs a callback. -/
def runCallback (c : Callback) : BodyDelivery :=
  { s with parser := s.parser.step c, history := s.history ++ [c] }

/-- `socketCloseListener` up to `parser:finish()`. -/
def abort : BodyDelivery :=
  let s := { s with closed := true }
  if s.message.readable then s.emitPending true else s

/-- `socketCloseListener`, as far as the message goes. -/
def close (completes : Bool) : BodyDelivery :=
  if completes ∧ ¬ s.abort.message.complete then s.abort.runCallback .messageComplete
  else s.abort

/-- The parser has a callback to run: the message is not complete, and nothing else runs. -/
def Accepts (c : Callback) : Bool :=
  match c with
  | .messageBegin => false
  | _ => s.running.isNone && !s.closed && !s.message.complete

def step : Event → BodyDelivery
  | .callback c => if s.Accepts c then s.runCallback c else s
  | .pause => s.pause
  | .resume => s.resume
  | .tick =>
    match s.running, s.ticks with
    | none, callback :: ticks => { s with ticks := ticks }.loop callback
    | _, _ => s
  | .returned =>
    match s.running with
    | some callback => s.loop callback
    | none => s
  | .close completes => if s.running.isSome ∨ s.closed then s else s.close completes

/-! ### What the user gets -/

def dataOf : List MessageEvent → List Str
  | [] => []
  | .data chunk :: events => chunk :: dataOf events
  | .end :: events => dataOf events

def chunksOf : List Pending → List Str
  | [] => []
  | .chunk data :: pendings => data :: chunksOf pendings
  | .endOfFile :: pendings => chunksOf pendings

/-- The pieces of the body that the parser has handed over. -/
def bodiesOf : List Callback → List Str
  | [] => []
  | .body data :: callbacks => data :: bodiesOf callbacks
  | _ :: callbacks => bodiesOf callbacks

/-- The pieces are emitted in their order and each once; 'end' is emitted once, after all of them,
and is emitted or on its way when the message is complete or the socket closed; and what waits in
`_pendings` is looked at again. -/
structure Delivered : Prop where
  pieces : dataOf s.message.emitted ++ chunksOf s.message.pendings = bodiesOf s.history
  order : s.message.emitted = (dataOf s.message.emitted).map .data ∨
    s.message.emitted = (dataOf s.message.emitted).map .data ++ [.end]
  last : .end ∈ s.message.emitted → chunksOf s.message.pendings = []
  cause : .end ∈ s.message.emitted → s.message.complete = true ∨ s.closed = true
  complete : s.message.complete = true →
    .end ∈ s.message.emitted ∨ .endOfFile ∈ s.message.pendings ∨ s.closed = true
  close : s.closed = true →
    .end ∈ s.message.emitted ∨ true ∈ s.ticks ∨ s.running = some true
  waiting : s.message.pendings ≠ [] →
    s.message.paused = true ∨ s.ticks ≠ [] ∨ s.running.isSome = true

/-- The message is paused with a piece in `_pendings`. -/
def Held : Prop := s.message.paused = true ∧ chunksOf s.message.pendings ≠ []

/-- The callback of the close listener does not come to its end while a piece is held back, and
the message that the parser finds complete is not an upgrade. -/
def Timely : Event → Prop
  | .tick => s.running = none → s.ticks.head? = some true → ¬ s.Held
  | .returned => s.running = some true → ¬ s.Held
  | .callback .messageComplete =>
    s.Accepts .messageComplete = true → s.message.upgrade ≠ some true
  | _ => True

@[simp]
theorem dataOf_append (es fs : List MessageEvent) : dataOf (es ++ fs) = dataOf es ++ dataOf fs := by
  induction es with
  | nil => rfl
  | cons e es ih => cases e <;> simp [dataOf, ih]

@[simp]
theorem chunksOf_append (ps qs : List Pending) : chunksOf (ps ++ qs) = chunksOf ps ++ chunksOf qs := by
  induction ps with
  | nil => rfl
  | cons p ps ih => cases p <;> simp [chunksOf, ih]

@[simp]
theorem bodiesOf_append (cs ds : List Callback) : bodiesOf (cs ++ ds) = bodiesOf cs ++ bodiesOf ds := by
  induction cs with
  | nil => rfl
  | cons c cs ih => cases c <;> simp [bodiesOf, ih]

variable {s t : BodyDelivery}

@[simp]
theorem message_setMessage (m : IncomingMessage) : (s.setMessage m).message = m := rfl

@[simp]
theorem history_setMessage (m : IncomingMessage) : (s.setMessage m).history = s.history := rfl

/-- What holds of the message in every state. -/
structure Core (s : BodyDelivery) : Prop where
  pieces : dataOf s.message.emitted ++ chunksOf s.message.pendings = bodiesOf s.history
  form : s.message.pendings = (chunksOf s.message.pendings).map .chunk ∨
    s.message.pendings = (chunksOf s.message.pendings).map .chunk ++ [.endOfFile]
  eof : .endOfFile ∈ s.message.pendings → s.message.complete = true
  ended : s.message.endEmitted = true ↔ .end ∈ s.message.emitted
  cause : .end ∈ s.message.emitted → s.message.complete = true ∨ s.closed = true
  unread : s.message.readable = false → .end ∈ s.message.emitted

/-- What holds as long as no 'end' comes early. -/
structure Sound (s : BodyDelivery) : Prop where
  order : s.message.emitted = (dataOf s.message.emitted).map .data ∨
    s.message.emitted = (dataOf s.message.emitted).map .data ++ [.end]
  last : .end ∈ s.message.emitted → chunksOf s.message.pendings = []
  complete : s.message.complete = true →
    .end ∈ s.message.emitted ∨ .endOfFile ∈ s.message.pendings ∨ s.closed = true

/-- What the delivery reads and writes of a message. -/
def flow (m : IncomingMessage) : List MessageEvent × List Pending × Bool × Bool × Bool × Bool :=
  (m.emitted, m.pendings, m.paused, m.endEmitted, m.readable, m.complete)

theorem Core.congr (h : s.Core) (hflow : flow t.message = flow s.message)
    (hclosed : t.closed = s.closed) (hbodies : bodiesOf t.history = bodiesOf s.history) :
    t.Core := by
  simp only [flow, Prod.mk.injEq] at hflow
  obtain ⟨hemitted, hpendings, -, hended, hreadable, hcomplete⟩ := hflow
  constructor
  · rw [hemitted, hpendings, hbodies]; exact h.pieces
  · rw [hpendings]; exact h.form
  · rw [hpendings, hcomplete]; exact h.eof
  · rw [hended, hemitted]; exact h.ended
  · rw [hemitted, hcomplete, hclosed]; exact h.cause
  · rw [hreadable, hemitted]; exact h.unread

theorem Sound.congr (h : s.Sound) (hflow : flow t.message = flow s.message)
    (hclosed : t.closed = s.closed) : t.Sound := by
  simp only [flow, Prod.mk.injEq] at hflow
  obtain ⟨hemitted, hpendings, -, -, -, hcomplete⟩ := hflow
  constructor
  · rw [hemitted]; exact h.order
  · rw [hemitted, hpendings]; exact h.last
  · rw [hemitted, hpendings, hcomplete, hclosed]; exact h.complete

/-- After `_emitEnd` the end is emitted, and nothing else is. -/
theorem emitEnd_of_core (h : s.Core) :
    (s.message.emitEnd.emitted = s.message.emitted ++
      if .end ∈ s.message.emitted then [] else [.end]) ∧
    s.message.emitEnd.endEmitted = true ∧ s.message.emitEnd.pendings = s.message.pendings ∧
    s.message.emitEnd.complete = s.message.complete ∧
    s.message.emitEnd.paused = s.message.paused := by
  unfold IncomingMessage.emitEnd
  split_ifs with hended hmem hmem
  · simp [hended]
  · exact absurd (h.ended.mp hended) hmem
  · exact absurd (h.ended.mpr hmem) hended
  · simp

theorem Core.emitEnd (h : s.Core) (hcause : s.message.complete = true ∨ s.closed = true) :
    (s.setMessage s.message.emitEnd).Core := by
  obtain ⟨hemitted, hended, hpendings, hcomplete, -⟩ := emitEnd_of_core h
  have hdata : dataOf s.message.emitEnd.emitted = dataOf s.message.emitted := by
    rw [hemitted]
    split_ifs <;> simp [dataOf]
  have hmem : .end ∈ s.message.emitEnd.emitted := by
    rw [hemitted]
    split_ifs with hend <;> simp [hend]
  constructor
  · rw [message_setMessage, hdata, hpendings]; exact h.pieces
  · rw [message_setMessage, hpendings]; exact h.form
  · rw [message_setMessage, hpendings, hcomplete]; exact h.eof
  · exact iff_of_true hended hmem
  · rw [message_setMessage, hcomplete]; exact fun _ => hcause
  · exact fun _ => hmem

/-- The order that is kept when 'end' is emitted. -/
theorem sound_emitEnd (h : s.Core)
    (horder : s.message.emitted = (dataOf s.message.emitted).map .data ∨
      s.message.emitted = (dataOf s.message.emitted).map .data ++ [.end])
    (hlast : chunksOf s.message.pendings = []) : (s.setMessage s.message.emitEnd).Sound := by
  obtain ⟨hemitted, hended, hpendings, hcomplete, -⟩ := emitEnd_of_core h
  constructor
  · rw [message_setMessage, hemitted]
    by_cases hend : .end ∈ s.message.emitted
    · rw [if_pos hend, List.append_nil]
      exact horder
    · have hdata : dataOf (s.message.emitted ++ [.end]) = dataOf s.message.emitted := by
        simp [dataOf]
      rw [if_neg hend, hdata]
      rcases horder with hdatas | hdatas
      · exact .inr (congrArg (· ++ [.end]) hdatas)
      · rw [hdatas] at hend
        simp at hend
  · rw [message_setMessage, hpendings]
    exact fun _ => hlast
  · refine fun _ => .inl ?_
    rw [message_setMessage, hemitted]
    split_ifs with hend <;> simp [hend]

theorem end_mem_emitEnd (h : s.Core) : .end ∈ s.message.emitEnd.emitted := by
  rw [(emitEnd_of_core h).1]
  split_ifs with hend <;> simp [hend]

theorem endMessage_eq (s : BodyDelivery) :
    s.endMessage = s.setMessage { s.message.emitEnd with readable := false } := by
  unfold endMessage IncomingMessage.emitEnd
  split_ifs <;> rfl

theorem Core.endMessage (h : s.Core) (hcause : s.message.complete = true ∨ s.closed = true) :
    s.endMessage.Core := by
  have hend := h.emitEnd hcause
  rw [endMessage_eq]
  exact ⟨hend.pieces, hend.form, hend.eof, hend.ended, hend.cause, fun _ => end_mem_emitEnd h⟩

theorem sound_endMessage (h : s.Core)
    (horder : s.message.emitted = (dataOf s.message.emitted).map .data ∨
      s.message.emitted = (dataOf s.message.emitted).map .data ++ [.end])
    (hlast : chunksOf s.message.pendings = []) : s.endMessage.Sound := by
  have hend := sound_emitEnd h horder hlast
  rw [endMessage_eq]
  exact ⟨hend.order, hend.last, hend.complete⟩

theorem Core.endPending (h : s.Core) {callback : Bool}
    (hcallback : callback = true → s.closed = true) : (s.endPending callback).Core := by
  have hidle : ({ s with running := none } : BodyDelivery).Core := h.congr rfl rfl rfl
  unfold BodyDelivery.endPending
  dsimp only
  split_ifs with hc
  · exact hidle.emitEnd (.inr (hcallback hc))
  · exact hidle

theorem Sound.endPending (hs : s.Sound) (h : s.Core) {callback : Bool}
    (hlast : callback = true → chunksOf s.message.pendings = []) :
    (s.endPending callback).Sound := by
  have hidle : ({ s with running := none } : BodyDelivery).Core := h.congr rfl rfl rfl
  unfold BodyDelivery.endPending
  dsimp only
  split_ifs with hc
  · exact sound_emitEnd hidle hs.order (hlast hc)
  · exact hs.congr rfl rfl

/-- What the callback of `_emitPending` does: it emits a piece, comes upon the end, or stops. -/
theorem loop_cases (h : s.Core) (callback : Bool) :
    (∃ data rest, s.message.paused = false ∧ s.message.pendings = .chunk data :: rest ∧
      s.loop callback = { s.setMessage ({ s.message with pendings := rest }.emitData data) with
        running := some callback }) ∨
    (s.message.paused = false ∧ s.message.pendings = [.endOfFile] ∧
      s.loop callback =
        (s.setMessage { s.message with pendings := [] }).endMessage.endPending callback) ∨
    ((s.message.paused = true ∨ s.message.pendings = []) ∧
      s.loop callback = s.endPending callback) := by
  unfold loop
  cases hpaused : s.message.paused with
  | true => exact .inr (.inr ⟨.inl rfl, if_pos rfl⟩)
  | false =>
    rw [if_neg Bool.false_ne_true]
    have hform := h.form
    cases hpendings : s.message.pendings with
    | nil => exact .inr (.inr ⟨.inr rfl, rfl⟩)
    | cons pending rest =>
      cases pending with
      | chunk data => exact .inl ⟨data, rest, rfl, rfl, rfl⟩
      | endOfFile =>
        have hrest : rest = [] := by
          rw [hpendings] at hform
          cases hchunks : chunksOf rest <;> simp [chunksOf, hchunks] at hform
          exact hform
        subst hrest
        exact .inr (.inl ⟨rfl, rfl, rfl⟩)

/-- The mark of the end is taken from `_pendings`. -/
theorem Core.endOfFile (h : s.Core) (hpendings : s.message.pendings = [.endOfFile]) :
    (s.setMessage { s.message with pendings := [] }).Core ∧ s.message.complete = true := by
  have hpieces := h.pieces
  have heof := h.eof
  rw [hpendings] at hpieces heof
  exact ⟨⟨hpieces, .inl rfl, by simp, h.ended, h.cause, h.unread⟩, heof (by simp)⟩

theorem Core.loop (h : s.Core) {callback : Bool} (hcallback : callback = true → s.closed = true) :
    (s.loop callback).Core := by
  rcases loop_cases h callback with ⟨data, rest, -, hpendings, hloop⟩ | ⟨-, hpendings, hloop⟩ |
    ⟨-, hloop⟩
  · have hpieces := h.pieces
    have hform := h.form
    have heof := h.eof
    rw [hpendings] at hpieces hform heof
    rw [hloop]
    refine ⟨?_, ?_, ?_, ?_, ?_, ?_⟩
    · simpa [message, setMessage, IncomingMessage.emitData, dataOf, chunksOf] using hpieces
    · simpa [message, setMessage, IncomingMessage.emitData, chunksOf] using hform
    · simpa [message, setMessage, IncomingMessage.emitData] using heof
    · simpa [message, setMessage, IncomingMessage.emitData] using h.ended
    · simpa [message, setMessage, IncomingMessage.emitData] using h.cause
    · simpa [message, setMessage, IncomingMessage.emitData] using h.unread
  · obtain ⟨hnone, hcomplete⟩ := h.endOfFile hpendings
    rw [hloop]
    exact (hnone.endMessage (.inl hcomplete)).endPending hcallback
  · rw [hloop]
    exact h.endPending hcallback

@[simp]
theorem endMessage_fields (h : s.Core) :
    s.endMessage.message.pendings = s.message.pendings ∧
    s.endMessage.message.complete = s.message.complete ∧
    s.endMessage.message.paused = s.message.paused ∧ .end ∈ s.endMessage.message.emitted := by
  obtain ⟨-, -, hpendings, hcomplete, hpaused⟩ := emitEnd_of_core h
  rw [endMessage_eq]
  exact ⟨hpendings, hcomplete, hpaused, end_mem_emitEnd h⟩

/-- While a piece waits, no 'end' has been emitted. -/
theorem Sound.no_end (hs : s.Sound) (hchunks : chunksOf s.message.pendings ≠ []) :
    .end ∉ s.message.emitted ∧
      s.message.emitted = (dataOf s.message.emitted).map .data := by
  have hend : .end ∉ s.message.emitted := fun hmem => hchunks (hs.last hmem)
  refine ⟨hend, ?_⟩
  rcases hs.order with hdatas | hdatas
  · exact hdatas
  · rw [hdatas] at hend
    simp at hend

/-- A callback of the close listener must not come to its end while a piece is held back. -/
theorem loop_sound_iff (h : s.Core) (hs : s.Sound) (callback : Bool) :
    (s.loop callback).Sound ↔ (callback = true → ¬ s.Held) := by
  rcases loop_cases h callback with ⟨data, rest, hpaused, hpendings, hloop⟩ |
    ⟨hpaused, hpendings, hloop⟩ | ⟨hstop, hloop⟩
  · refine iff_of_true ?_ fun _ hheld => absurd hheld.1 (by simp [hpaused])
    have hchunks : chunksOf s.message.pendings ≠ [] := by simp [hpendings, chunksOf]
    obtain ⟨hend, hdatas⟩ := hs.no_end hchunks
    have hcomplete := hs.complete
    rw [hpendings] at hcomplete
    rw [hloop]
    refine ⟨.inl ?_, fun hmem => ?_, ?_⟩
    · simpa [message, setMessage, IncomingMessage.emitData, dataOf] using hdatas
    · refine absurd ?_ hend
      simpa [message, setMessage, IncomingMessage.emitData] using hmem
    · simpa [message, setMessage, IncomingMessage.emitData] using hcomplete
  · refine iff_of_true ?_ fun _ hheld => absurd hheld.1 (by simp [hpaused])
    obtain ⟨hnone, hcomplete⟩ := h.endOfFile hpendings
    rw [hloop]
    refine (sound_endMessage hnone hs.order rfl).endPending
      (hnone.endMessage (.inl hcomplete)) fun _ => ?_
    rw [(endMessage_fields hnone).1]
    rfl
  · rw [hloop]
    cases callback with
    | false => exact iff_of_true (hs.endPending h (by simp)) (by simp)
    | true =>
      constructor
      · rintro hsound - ⟨-, hchunks⟩
        have hidle : ({ s with running := none } : BodyDelivery).Core := h.congr rfl rfl rfl
        have hlast := hsound.last (end_mem_emitEnd hidle)
        have hpendings := (emitEnd_of_core hidle).2.2.1
        exact hchunks (hpendings ▸ hlast)
      · intro hnot
        refine hs.endPending h fun _ => ?_
        by_contra hchunks
        rcases hstop with hpaused | hnil
        · exact hnot rfl ⟨hpaused, hchunks⟩
        · exact hchunks (by rw [hnil]; rfl)

theorem endPending_fields (h : s.Core) (callback : Bool) :
    (s.endPending callback).ticks = s.ticks ∧ (s.endPending callback).closed = s.closed ∧
    (s.endPending callback).history = s.history ∧ (s.endPending callback).running = none ∧
    (s.endPending callback).message.pendings = s.message.pendings ∧
    (s.endPending callback).message.paused = s.message.paused ∧
    (callback = true ∨ .end ∈ s.message.emitted →
      .end ∈ (s.endPending callback).message.emitted) := by
  have hidle : ({ s with running := none } : BodyDelivery).Core := h.congr rfl rfl rfl
  obtain ⟨-, -, hpendings, -, hpaused⟩ := emitEnd_of_core hidle
  cases callback with
  | false => exact ⟨rfl, rfl, rfl, rfl, rfl, rfl, fun hend => hend.resolve_left (by simp)⟩
  | true => exact ⟨rfl, rfl, rfl, rfl, hpendings, hpaused, fun _ => end_mem_emitEnd hidle⟩

/-- The callback of `_emitPending` waits for listeners while there is something to emit, and the
one of the close listener emits 'end'. -/
theorem loop_fields (h : s.Core) (callback : Bool) :
    (s.loop callback).ticks = s.ticks ∧ (s.loop callback).closed = s.closed ∧
    ((s.loop callback).running = none ∨ (s.loop callback).running = some callback) ∧
    ((s.loop callback).message.pendings ≠ [] →
      (s.loop callback).message.paused = true ∨ (s.loop callback).running.isSome = true) ∧
    (callback = true →
      .end ∈ (s.loop callback).message.emitted ∨ (s.loop callback).running = some true) ∧
    (.end ∈ s.message.emitted → .end ∈ (s.loop callback).message.emitted) := by
  rcases loop_cases h callback with ⟨data, rest, -, hpendings, hloop⟩ |
    ⟨hpaused, hpendings, hloop⟩ | ⟨hstop, hloop⟩
  · rw [hloop]
    refine ⟨rfl, rfl, .inr rfl, fun _ => .inr rfl, fun hc => .inr (by rw [hc]), fun hend => ?_⟩
    exact List.mem_append_left _ hend
  · obtain ⟨hnone, hcomplete⟩ := h.endOfFile hpendings
    have hcore := hnone.endMessage (.inl hcomplete)
    obtain ⟨hnil, -, -, hend⟩ := endMessage_fields hnone
    obtain ⟨hticks, hclosed, -, hrunning, hsame, -, hkeep⟩ := endPending_fields hcore callback
    rw [hloop]
    refine ⟨hticks, hclosed, .inl hrunning, fun hne => ?_, fun _ => .inl (hkeep (.inr hend)),
      fun _ => hkeep (.inr hend)⟩
    exact absurd (hsame.trans hnil) hne
  · obtain ⟨hticks, hclosed, -, hrunning, hsame, hpaused, hkeep⟩ := endPending_fields h callback
    rw [hloop]
    refine ⟨hticks, hclosed, .inl hrunning, fun hne => .inl ?_, fun hc => .inl (hkeep (.inl hc)),
      fun hend => hkeep (.inr hend)⟩
    rw [hsame] at hne
    rw [hpaused]
    exact hstop.resolve_right hne

/-- What holds in every state. -/
structure Inv (s : BodyDelivery) : Prop extends s.Core where
  close : s.closed = true →
    .end ∈ s.message.emitted ∨ true ∈ s.ticks ∨ s.running = some true
  waiting : s.message.pendings ≠ [] →
    s.message.paused = true ∨ s.ticks ≠ [] ∨ s.running.isSome = true
  ticks : true ∈ s.ticks → s.closed = true
  running : s.running = some true → s.closed = true

theorem init_inv : init.Inv :=
  ⟨⟨rfl, .inl rfl, by simp [init, message, IncomingMessage.init],
    by simp [init, message, IncomingMessage.init], by simp [init, message, IncomingMessage.init],
    by simp [init, message, IncomingMessage.init]⟩, by simp [init],
    by simp [init, message, IncomingMessage.init], by simp [init], by simp [init]⟩

theorem init_sound : init.Sound :=
  ⟨.inl rfl, by simp [init, message, IncomingMessage.init],
    by simp [init, message, IncomingMessage.init]⟩

theorem Inv.pause (h : s.Inv) : s.pause.Inv :=
  ⟨⟨h.pieces, h.form, h.eof, h.ended, h.cause, h.unread⟩, h.close, fun _ => .inl rfl, h.ticks,
    h.running⟩

theorem emitPending_of_ne_nil (h : s.message.pendings ≠ []) (callback : Bool) :
    s.emitPending callback = { s with ticks := s.ticks ++ [callback] } :=
  if_pos (List.length_pos_iff.mpr h)

theorem emitPending_of_nil (h : s.message.pendings = []) (callback : Bool) :
    s.emitPending callback = if callback then s.setMessage s.message.emitEnd else s :=
  if_neg (by simp [h])

/-- A callback joins the queue. -/
theorem Inv.emitPending (h : s.Core) {callback : Bool}
    (hclose : s.closed = true → callback = true ∨ .end ∈ s.message.emitted ∨ true ∈ s.ticks ∨
      s.running = some true)
    (hticks : true ∈ s.ticks ∨ callback = true → s.closed = true)
    (hrunning : s.running = some true → s.closed = true) : (s.emitPending callback).Inv := by
  by_cases hpendings : s.message.pendings = []
  · rw [emitPending_of_nil hpendings]
    cases callback with
    | false =>
      refine ⟨h, fun hclosed => (hclose hclosed).resolve_left (by simp), fun hne => ?_,
        fun htick => hticks (.inl htick), hrunning⟩
      exact absurd hpendings hne
    | true =>
      refine ⟨h.emitEnd (.inr (hticks (.inr rfl))), fun _ => .inl (end_mem_emitEnd h),
        fun hne => ?_, fun htick => hticks (.inl htick), hrunning⟩
      exact absurd ((emitEnd_of_core h).2.2.1.trans hpendings) hne
  · rw [emitPending_of_ne_nil hpendings]
    refine ⟨h.congr rfl rfl rfl, fun hclosed => ?_, fun _ => .inr (.inl (by simp)),
      fun htick => hticks (by simpa [eq_comm] using htick), hrunning⟩
    rcases hclose hclosed with hcallback | hend | htick | hrun
    · exact .inr (.inl (by simp [hcallback]))
    · exact .inl hend
    · exact .inr (.inl (List.mem_append_left _ htick))
    · exact .inr (.inr hrun)

theorem Sound.emitPending (hs : s.Sound) (h : s.Core) (callback : Bool) :
    (s.emitPending callback).Sound ∧ (s.emitPending callback).closed = s.closed := by
  by_cases hpendings : s.message.pendings = []
  · rw [emitPending_of_nil hpendings]
    split_ifs
    · exact ⟨sound_emitEnd h hs.order (by rw [hpendings]; rfl), rfl⟩
    · exact ⟨hs, rfl⟩
  · rw [emitPending_of_ne_nil hpendings]
    exact ⟨hs.congr rfl rfl, rfl⟩

theorem Inv.resume (h : s.Inv) : s.resume.Inv := by
  have hcore : (s.setMessage { s.message with paused := false }).Core :=
    ⟨h.pieces, h.form, h.eof, h.ended, h.cause, h.unread⟩
  unfold BodyDelivery.resume
  exact Inv.emitPending hcore (fun hclosed => .inr (h.close hclosed))
    (fun htick => h.ticks (htick.resolve_right (by simp))) h.running

/-- The callback of `_emitPending` goes on. -/
theorem Inv.loop (h : s.Core) (callback : Bool)
    (hclose : s.closed = true → callback = true ∨ .end ∈ s.message.emitted ∨ true ∈ s.ticks)
    (hticks : true ∈ s.ticks ∨ callback = true → s.closed = true) : (s.loop callback).Inv := by
  obtain ⟨hsame, hclosed, hrunning, hwaiting, hend, hkeep⟩ := loop_fields h callback
  refine ⟨h.loop fun hc => hticks (.inr hc), fun hc => ?_, fun hne => ?_, fun htick => ?_,
    fun hrun => ?_⟩
  · rw [hclosed] at hc
    rw [hsame]
    rcases hclose hc with hcallback | hemitted | htick
    · exact (hend hcallback).imp_right .inr
    · exact .inl (hkeep hemitted)
    · exact .inr (.inl htick)
  · exact (hwaiting hne).imp_right .inr
  · rw [hsame] at htick
    rw [hclosed]
    exact hticks (.inl htick)
  · rw [hclosed]
    rcases hrunning with hnone | hsome
    · rw [hnone] at hrun
      cases hrun
    · rw [hsome] at hrun
      exact hticks (.inr (Option.some.inj hrun))

theorem Inv.tick (h : s.Inv) {callback : Bool} {ticks : List Bool} (hidle : s.running = none)
    (hs : s.ticks = callback :: ticks) : ({ s with ticks := ticks }.loop callback).Inv := by
  have hcore : ({ s with ticks := ticks } : BodyDelivery).Core := h.congr rfl rfl rfl
  refine Inv.loop hcore callback (fun hclosed => ?_) fun htick => ?_
  · have hclose := h.close hclosed
    rw [hs, hidle] at hclose
    rcases hclose with hend | htick | hrun
    · exact .inr (.inl hend)
    · rcases List.mem_cons.mp htick with hc | hlater
      · exact .inl hc.symm
      · exact .inr (.inr hlater)
    · cases hrun
  · refine h.ticks ?_
    rw [hs]
    rcases htick with hlater | hc
    · exact List.mem_cons_of_mem _ hlater
    · simp [hc]

theorem Inv.returned (h : s.Inv) {callback : Bool} (hs : s.running = some callback) :
    (s.loop callback).Inv := by
  refine Inv.loop h.toCore callback (fun hclosed => ?_) fun htick => ?_
  · have hclose := h.close hclosed
    rw [hs] at hclose
    rcases hclose with hend | htick | hrun
    · exact .inr (.inl hend)
    · exact .inr (.inr htick)
    · exact .inl (Option.some.inj hrun)
  · rcases htick with hlater | hc
    · exact h.ticks hlater
    · exact h.running (by rw [hs, hc])

/-! ### The callbacks of the parser -/

theorem flow_addHeaderLine (m : IncomingMessage) (field value : Str) :
    flow (m.addHeaderLine field value) = flow m ∧
      (m.addHeaderLine field value).upgrade = m.upgrade := by
  unfold IncomingMessage.addHeaderLine
  split_ifs <;> exact ⟨rfl, rfl⟩

theorem flow_flush (p : MessageParser) :
    flow p.flush = flow p.incoming ∧ p.flush.upgrade = p.incoming.upgrade := by
  obtain ⟨f, v, m⟩ := p
  cases f <;> cases v
  case some.some field value => exact flow_addHeaderLine m field value
  all_goals exact ⟨rfl, rfl⟩

/-- Only `on_body` and `on_message_complete` have to do with the delivery. -/
theorem flow_step (p : MessageParser) {c : Callback} (hbegin : c ≠ .messageBegin)
    (hbody : ∀ data, c ≠ .body data) (hcomplete : c ≠ .messageComplete) :
    flow (p.step c).incoming = flow p.incoming := by
  unfold MessageParser.step
  split_ifs with hempty
  · rfl
  · cases c with
    | messageBegin => exact absurd rfl hbegin
    | url data => rfl
    | headerField data =>
      obtain ⟨f, v, m⟩ := p
      cases f <;> cases v
      case some.some field value => exact (flow_addHeaderLine m field value).1
      all_goals rfl
    | headerValue data =>
      obtain ⟨f, v, m⟩ := p
      cases v <;> rfl
    | headersComplete info => exact (flow_flush p).1
    | body data => exact absurd rfl (hbody data)
    | messageComplete => exact absurd rfl hcomplete

/-- `on_message_complete` up to the end that it emits or keeps. -/
def completed (s : BodyDelivery) : BodyDelivery :=
  { s.setMessage { s.parser with incoming := { s.message with complete := true } }.flush with
    history := s.history ++ [.messageComplete] }

theorem completed_fields (s : BodyDelivery) :
    flow s.completed.message = flow { s.message with complete := true } ∧
      s.completed.message.upgrade = s.message.upgrade :=
  flow_flush { s.parser with incoming := { s.message with complete := true } }

theorem runCallback_messageComplete (s : BodyDelivery) :
    s.runCallback .messageComplete =
      if s.completed.message.upgrade = some true then s.completed
      else if s.completed.message.paused ∨ s.completed.message.pendings.length > 0 then
        s.completed.setMessage { s.completed.message with
          pendings := s.completed.message.pendings ++ [.endOfFile] }
      else s.completed.endMessage := by
  let wrap (m : IncomingMessage) : BodyDelivery :=
    { s.setMessage m with history := s.history ++ [.messageComplete] }
  let m := { s.parser with incoming := { s.message with complete := true } }.flush
  have hwrap : s.runCallback .messageComplete = wrap
      (if m.upgrade = some true then m
        else if m.paused ∨ m.pendings.length > 0 then
          { m with pendings := m.pendings ++ [.endOfFile] }
        else { m with readable := false }.emitEnd) := rfl
  rw [hwrap, apply_ite wrap, apply_ite wrap]
  rfl

theorem Core.completed (h : s.Core) : s.completed.Core := by
  have hnow : ({ s.setMessage { s.message with complete := true } with
      history := s.history ++ [.messageComplete] } : BodyDelivery).Core :=
    ⟨by simpa [message, setMessage, bodiesOf] using h.pieces, h.form, fun _ => rfl, h.ended,
      fun _ => .inl rfl, h.unread⟩
  exact hnow.congr s.completed_fields.1 rfl rfl

/-- The fields of a message that is complete. -/
theorem completed_eqs (s : BodyDelivery) :
    s.completed.message.emitted = s.message.emitted ∧
    s.completed.message.pendings = s.message.pendings ∧
    s.completed.message.paused = s.message.paused ∧
    s.completed.message.complete = true := by
  have hflow := s.completed_fields.1
  simp only [flow, Prod.mk.injEq] at hflow
  obtain ⟨hemitted, hpendings, hpaused, -, -, hcomplete⟩ := hflow
  exact ⟨hemitted, hpendings, hpaused, hcomplete⟩

theorem Inv.messageComplete (h : s.Inv) (hcomplete : s.message.complete = false) :
    (s.runCallback .messageComplete).Inv := by
  obtain ⟨hemitted, hpendings, hpaused, hnow⟩ := s.completed_eqs
  have hcore := h.toCore.completed
  have hclose : s.closed = true →
      .end ∈ s.completed.message.emitted ∨ true ∈ s.ticks ∨ s.running = some true := by
    rw [hemitted]
    exact h.close
  rw [runCallback_messageComplete]
  split_ifs with hup hkeep
  · refine ⟨hcore, hclose, fun hne => ?_, h.ticks, h.running⟩
    rw [hpendings] at hne
    rw [hpaused]
    exact h.waiting hne
  · have heof : .endOfFile ∉ s.message.pendings := fun hmem => by
      simp [h.eof hmem] at hcomplete
    have hpieces := hcore.pieces
    have hform := hcore.form
    refine ⟨⟨?_, ?_, fun _ => hnow, hcore.ended, hcore.cause, hcore.unread⟩, hclose, fun _ => ?_,
      h.ticks, h.running⟩
    · simpa [chunksOf] using hpieces
    · right
      rcases hform with hchunks | hchunks
      · simpa [chunksOf] using hchunks
      · rw [hpendings] at hchunks
        rw [hchunks] at heof
        simp at heof
    · change s.completed.message.paused = true ∨ s.ticks ≠ [] ∨ s.running.isSome = true
      rcases hkeep with hp | hlength
      · exact .inl hp
      · rw [hpaused]
        rw [hpendings] at hlength
        exact h.waiting (List.length_pos_iff.mp hlength)
  · obtain ⟨hsame, -, -, hend⟩ := endMessage_fields hcore
    rw [not_or] at hkeep
    refine ⟨hcore.endMessage (.inl hnow), fun _ => .inl hend, fun hne => ?_, h.ticks, h.running⟩
    rw [hsame] at hne
    exact absurd (List.length_pos_iff.mpr hne) hkeep.2

/-- An upgrade has no 'end', unless the socket closes. -/
theorem messageComplete_sound_iff (h : s.Inv) (hs : s.Sound)
    (hcomplete : s.message.complete = false) :
    (s.runCallback .messageComplete).Sound ↔
      s.message.upgrade ≠ some true ∨ s.closed = true := by
  obtain ⟨hemitted, hpendings, hpaused, hnow⟩ := s.completed_eqs
  have hcore := h.toCore.completed
  have horder := hs.order
  have hlast := hs.last
  rw [← hemitted] at horder hlast
  rw [← hpendings] at hlast
  rw [runCallback_messageComplete, ← s.completed_fields.2]
  split_ifs with hup hkeep
  · constructor
    · intro hsound
      right
      rcases hsound.complete hnow with hend | heof | hclosed
      · rw [hemitted] at hend
        exact (h.cause hend).resolve_left (by simp [hcomplete])
      · rw [hpendings] at heof
        simp [h.eof heof] at hcomplete
      · exact hclosed
    · intro hcause
      exact ⟨horder, hlast, fun _ => .inr (.inr (hcause.resolve_left (absurd hup)))⟩
  · refine iff_of_true ⟨horder, ?_, fun _ => .inr (.inl (by simp))⟩ (.inl hup)
    simpa [chunksOf] using hlast
  · rw [not_or] at hkeep
    refine iff_of_true (sound_endMessage hcore horder ?_) (.inl hup)
    rw [List.length_eq_zero_iff.mp (Nat.eq_zero_of_not_pos hkeep.2)]
    rfl

/-- A piece arrives: it is emitted, or put behind those that wait. -/
theorem Inv.body (h : s.Inv) (data : Str) (hcomplete : s.message.complete = false)
    (hopen : s.closed = false) :
    (s.runCallback (.body data)).Inv ∧ (s.Sound → (s.runCallback (.body data)).Sound) := by
  have hend : .end ∉ s.message.emitted := fun hmem => by
    simpa [hcomplete, hopen] using h.cause hmem
  have heof : .endOfFile ∉ s.message.pendings := fun hmem => by
    simp [h.eof hmem] at hcomplete
  have hpieces := h.pieces
  let wrap (m : IncomingMessage) : BodyDelivery :=
    { s.setMessage m with history := s.history ++ [.body data] }
  have hrun : s.runCallback (.body data) =
      if s.message.paused ∨ s.message.pendings.length > 0 then
        wrap { s.message with pendings := s.message.pendings ++ [.chunk data] }
      else wrap (s.message.emitData data) := by
    rw [← apply_ite wrap]
    rfl
  rw [hrun]
  split_ifs with hkeep
  · refine ⟨⟨⟨?_, ?_, ?_, h.ended, h.cause, h.unread⟩, h.close, fun _ => ?_, h.ticks, h.running⟩,
      fun hs => ⟨hs.order, fun hmem => absurd hmem hend, ?_⟩⟩
    · simpa [wrap, message, setMessage, chunksOf, bodiesOf, ← List.append_assoc] using hpieces
    · left
      rcases h.form with hchunks | hchunks
      · simpa [wrap, message, setMessage, chunksOf] using hchunks
      · rw [hchunks] at heof
        simp at heof
    · intro hmem
      exact absurd (by simpa [wrap, message, setMessage] using hmem) heof
    · rcases hkeep with hp | hlength
      · exact .inl hp
      · exact h.waiting (List.length_pos_iff.mp hlength)
    · intro hnow
      exact absurd (show s.message.complete = true from hnow) (by simp [hcomplete])
  · rw [not_or] at hkeep
    have hnil : s.message.pendings = [] :=
      List.length_eq_zero_iff.mp (Nat.eq_zero_of_not_pos hkeep.2)
    rw [hnil] at hpieces
    refine ⟨⟨⟨?_, h.form, h.eof, ?_, ?_, ?_⟩, ?_, h.waiting, h.ticks, h.running⟩,
      fun hs => ⟨.inl ?_, ?_, ?_⟩⟩
    · simpa [wrap, message, setMessage, IncomingMessage.emitData, dataOf, chunksOf, bodiesOf,
        show s.parser.incoming.pendings = [] from hnil] using hpieces
    · simpa [wrap, message, setMessage, IncomingMessage.emitData] using h.ended
    · simpa [wrap, message, setMessage, IncomingMessage.emitData] using h.cause
    · simpa [wrap, message, setMessage, IncomingMessage.emitData] using h.unread
    · simpa [wrap, message, setMessage, IncomingMessage.emitData] using h.close
    · rcases hs.order with hdatas | hdatas
      · simpa [wrap, message, setMessage, IncomingMessage.emitData, dataOf] using hdatas
      · rw [hdatas] at hend
        simp at hend
    · intro _
      exact congrArg chunksOf hnil
    · intro hnow
      exact absurd (show s.message.complete = true from hnow) (by simp [hcomplete])

theorem Inv.other (h : s.Inv) {c : Callback} (hbegin : c ≠ .messageBegin)
    (hbody : ∀ data, c ≠ .body data) (hcomplete : c ≠ .messageComplete) :
    (s.runCallback c).Inv ∧ (s.Sound → (s.runCallback c).Sound) := by
  have hflow : flow (s.runCallback c).message = flow s.message :=
    flow_step s.parser hbegin hbody hcomplete
  have hbodies : bodiesOf (s.runCallback c).history = bodiesOf s.history := by
    rw [runCallback, bodiesOf_append]
    cases c
    case body data => exact absurd rfl (hbody data)
    all_goals simp [bodiesOf]
  refine ⟨⟨h.toCore.congr hflow rfl hbodies, ?_, ?_, h.ticks, h.running⟩,
    fun hs => hs.congr hflow rfl⟩
  all_goals
    simp only [flow, Prod.mk.injEq] at hflow
    obtain ⟨hemitted, hpendings, hpaused, -⟩ := hflow
  · rw [hemitted]
    exact h.close
  · rw [hpendings, hpaused]
    exact h.waiting

/-- The close listener has its 'end' emitted now or later. -/
theorem Inv.abort (h : s.Inv) :
    s.abort.Inv ∧ (s.Sound → s.abort.Sound ∧ s.abort.closed = true) := by
  have hcore : ({ s with closed := true } : BodyDelivery).Core :=
    ⟨h.pieces, h.form, h.eof, h.ended, fun _ => .inr rfl, h.unread⟩
  have hsound : s.Sound → ({ s with closed := true } : BodyDelivery).Sound :=
    fun hs => ⟨hs.order, hs.last, fun _ => .inr (.inr rfl)⟩
  unfold BodyDelivery.abort
  dsimp only
  split_ifs with hreadable
  · exact ⟨Inv.emitPending hcore (fun _ => .inl rfl) (fun _ => rfl) (fun _ => rfl),
      fun hs => (hsound hs).emitPending hcore true⟩
  · have hend : .end ∈ s.message.emitted := h.unread (Bool.not_eq_true _ ▸ hreadable)
    exact ⟨⟨hcore, fun _ => .inl hend, h.waiting, fun _ => rfl, fun _ => rfl⟩,
      fun hs => ⟨hsound hs, rfl⟩⟩

theorem Inv.closed (h : s.Inv) (completes : Bool) :
    (s.close completes).Inv ∧ (s.Sound → (s.close completes).Sound) := by
  obtain ⟨habort, hsound⟩ := h.abort
  unfold BodyDelivery.close
  split_ifs with hnow
  · have hcomplete : s.abort.message.complete = false := by simpa using hnow.2
    refine ⟨habort.messageComplete hcomplete, fun hs => ?_⟩
    obtain ⟨hsound, hclosed⟩ := hsound hs
    exact (messageComplete_sound_iff habort hsound hcomplete).mpr (.inr hclosed)
  · exact ⟨habort, fun hs => (hsound hs).1⟩

theorem accepts_iff (s : BodyDelivery) (c : Callback) :
    s.Accepts c = true ↔ c ≠ .messageBegin ∧ s.running = none ∧ s.closed = false ∧
      s.message.complete = false := by
  unfold Accepts
  cases c <;> simp [and_assoc]

theorem Inv.step (h : s.Inv) (e : Event) : (s.step e).Inv := by
  cases e with
  | callback c =>
    unfold BodyDelivery.step
    dsimp only
    split_ifs with haccepts
    · obtain ⟨hbegin, -, hopen, hcomplete⟩ := (s.accepts_iff c).mp haccepts
      cases c
      case body data => exact (h.body data hcomplete hopen).1
      case messageComplete => exact h.messageComplete hcomplete
      case messageBegin => exact absurd rfl hbegin
      all_goals exact (h.other (by simp) (by simp) (by simp)).1
    · exact h
  | pause => exact h.pause
  | resume => exact h.resume
  | tick =>
    unfold BodyDelivery.step
    cases hrunning : s.running with
    | some callback => exact h
    | none =>
      cases hticks : s.ticks with
      | nil => exact h
      | cons callback ticks => exact h.tick hrunning hticks
  | returned =>
    unfold BodyDelivery.step
    cases hrunning : s.running with
    | some callback => exact h.returned hrunning
    | none => exact h
  | close completes =>
    unfold BodyDelivery.step
    dsimp only
    split_ifs
    · exact h
    · exact (h.closed completes).1

theorem step_sound_iff (h : s.Inv) (hs : s.Sound) (e : Event) :
    (s.step e).Sound ↔ s.Timely e := by
  cases e with
  | callback c =>
    unfold BodyDelivery.step
    dsimp only
    split_ifs with haccepts
    · obtain ⟨hbegin, -, hopen, hcomplete⟩ := (s.accepts_iff c).mp haccepts
      cases c
      case body data => exact iff_of_true ((h.body data hcomplete hopen).2 hs) trivial
      case messageComplete =>
        rw [messageComplete_sound_iff h hs hcomplete]
        simp [Timely, haccepts, hopen]
      case messageBegin => exact absurd rfl hbegin
      all_goals exact iff_of_true ((h.other (by simp) (by simp) (by simp)).2 hs) trivial
    · cases c
      case messageComplete => exact iff_of_true hs fun hyes => absurd hyes haccepts
      all_goals exact iff_of_true hs trivial
  | pause => exact iff_of_true ⟨hs.order, hs.last, hs.complete⟩ trivial
  | resume =>
    refine iff_of_true ?_ trivial
    have hnow : (s.setMessage { s.message with paused := false }).Sound :=
      ⟨hs.order, hs.last, hs.complete⟩
    have hcore : (s.setMessage { s.message with paused := false }).Core :=
      ⟨h.pieces, h.form, h.eof, h.ended, h.cause, h.unread⟩
    exact (hnow.emitPending hcore false).1
  | tick =>
    unfold BodyDelivery.step Timely
    cases hrunning : s.running with
    | some callback => exact iff_of_true hs (by simp)
    | none =>
      cases hticks : s.ticks with
      | nil => exact iff_of_true hs (by simp)
      | cons callback ticks =>
        have hcore : ({ s with ticks := ticks } : BodyDelivery).Core := h.toCore.congr rfl rfl rfl
        have hsound : ({ s with ticks := ticks } : BodyDelivery).Sound := hs.congr rfl rfl
        have hiff := loop_sound_iff hcore hsound callback
        simpa [hrunning, Held, message] using hiff
  | returned =>
    unfold BodyDelivery.step Timely
    cases hrunning : s.running with
    | some callback =>
      have hiff := loop_sound_iff h.toCore hs callback
      simpa using hiff
    | none => exact iff_of_true hs (by simp)
  | close completes =>
    refine iff_of_true ?_ trivial
    unfold BodyDelivery.step
    dsimp only
    split_ifs
    · exact hs
    · exact (h.closed completes).2 hs

theorem delivered_iff_sound (h : s.Inv) : s.Delivered ↔ s.Sound :=
  ⟨fun hd => ⟨hd.order, hd.last, hd.complete⟩, fun hs =>
    ⟨h.pieces, hs.order, hs.last, h.cause, hs.complete, h.close, h.waiting⟩⟩

/-- In every run of a message its body is delivered as it should be exactly when no callback of
the close listener comes to its end while a piece is held back, and the message is not an
upgrade. -/
theorem delivered_iff_timely (es : List Event) :
    (∀ t ∈ statesOf step init es, t.Delivered) ↔ Guarded step Timely init es := by
  refine states_iff_guarded (I := Inv) (fun s e h => h.step e) (fun s e h hd => ?_) init_inv
    ((delivered_iff_sound init_inv).mpr init_sound) es
  rw [delivered_iff_sound (h.step e), step_sound_iff h ((delivered_iff_sound h).mp hd)]

/-- A response that is paused when a piece comes and its socket closes: 'end' comes before
'data'. -/
theorem end_before_data :
    let s := run step init
      [.callback (.headersComplete ⟨false, [], 200, 1, 1, false, false⟩), .pause,
        .callback (.body "piece".toList), .close false, .tick, .resume, .tick]
    s.message.emitted = [.end, .data "piece".toList] ∧ ¬ s.Delivered := by
  intro s
  have hemitted : s.message.emitted = [.end, .data "piece".toList] := by decide
  refine ⟨hemitted, fun h => ?_⟩
  have horder := h.order
  rw [hemitted] at horder
  simp [dataOf] at horder

end BodyDelivery

end LuaNode
