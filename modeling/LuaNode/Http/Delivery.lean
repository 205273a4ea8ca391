import LuaNode.Http.Calls
import LuaNode.Library.Runs

/-!
# The delivery of one message

One message and the socket it goes to, under every schedule: the calls of its handler, the
moment it gets the socket, the flushes, and what other code does to the socket. A response
leaves the connection when it emits 'finish'; a request stays.
-/

namespace LuaNode

structure Delivery where
  msg : OutgoingMessage
  socket : Socket
  /-- the response has left the connection -/
  gone : Bool

namespace Delivery

/-- The state after a method; the listener that the server adds to 'finish' detaches a
response. -/
def settle (w : Delivery) (o : Outcome) : Delivery :=
  if o.finish ∧ o.self.kind = .serverResponse then
    let d := o.self.detachSocket o.socket
    ⟨d.self, d.socket, true⟩
  else ⟨o.self, o.socket, w.gone⟩

inductive Event
  | call (c : Call)
  /-- the message gets the socket: from the response before it, or from the agent -/
  | attach
  /-- `_flush` of the message that has the socket -/
  | flush
  /-- other code finishes or destroys the socket -/
  | shut
  | destroy
  /-- other messages get the socket, before this one or after it -/
  | pass (owner : Option ℕ)

def step (w : Delivery) : Event → Delivery
  | .call c => w.settle (c.apply w.msg w.socket)
  | .attach =>
    if w.msg.connection ∨ w.gone then w
    else
      match w.msg.kind with
      | .serverResponse => w.settle (w.msg.assignSocket w.socket)
      | .clientRequest => w.settle (w.msg.onSocket w.socket)
  | .flush => if w.socket.httpMessage = some w.msg.id then w.settle (w.msg.flush w.socket) else w
  | .shut => { w with socket := w.socket.shut }
  | .destroy => { w with socket := w.socket.destroy }
  | .pass owner =>
    -- nothing but its own 'finish' takes the socket from a response
    if owner ≠ some w.msg.id ∧ (w.msg.kind = .clientRequest ∨ w.msg.connection = false) then
      { w with socket := { w.socket with httpMessage := owner } }
    else w

/-- The bytes handed to the socket for this message. -/
def sent (w : Delivery) : Str := w.socket.sentBy w.msg.id

/-- The bytes handed to the socket, and those in the buffer. -/
def stream (w : Delivery) : Str := w.msg.stream w.socket

theorem stream_eq_sent (w : Delivery) : w.stream = w.sent ++ w.msg.output.flatten := rfl

/-! ### What a step does -/

section Steps

variable (w : Delivery)

/-- The socket as an outcome leaves it is the one the step leaves, up to its owner. -/
theorem settle_stream (o : Outcome) :
    (w.settle o).stream = o.self.stream o.socket ∧
    (w.settle o).sent = o.socket.sentBy o.self.id := by
  unfold settle
  split_ifs
  · unfold OutgoingMessage.detachSocket
    split_ifs <;> exact ⟨rfl, rfl⟩
  · exact ⟨rfl, rfl⟩

theorem settle_msg (o : Outcome) :
    (w.settle o).msg = { o.self with connection := (w.settle o).msg.connection } ∧
    (w.settle o).socket.writable = o.socket.writable ∧
    (w.settle o).socket.destroyed = o.socket.destroyed := by
  unfold settle
  split_ifs
  · unfold OutgoingMessage.detachSocket
    split_ifs <;> exact ⟨rfl, rfl, rfl⟩
  · exact ⟨rfl, rfl, rfl⟩

/-- The message without its place on the connection. -/
structure Same (m m' : OutgoingMessage) : Prop where
  id : m'.id = m.id
  kind : m'.kind = m.kind
  encoder : m'.encoder = m.encoder
  header : m'.header = m.header

theorem Same.refl (m : OutgoingMessage) : Same m m := ⟨rfl, rfl, rfl, rfl⟩

theorem Same.trans {a b c : OutgoingMessage} (hab : Same a b) (hbc : Same b c) : Same a c :=
  ⟨hbc.id.trans hab.id, hbc.kind.trans hab.kind, hbc.encoder.trans hab.encoder,
    hbc.header.trans hab.header⟩

theorem settle_same (o : Outcome) : Same o.self (w.settle o).msg := by
  rw [(w.settle_msg o).1]
  exact ⟨rfl, rfl, rfl, rfl⟩

/-- What the steps do that are no calls: nothing is produced and nothing is lost. -/
structure Moves (w w' : Delivery) : Prop where
  same : Same w.msg w'.msg
  stream : w'.stream = w.stream
  destroyed : w.socket.destroyed = true → w'.socket.destroyed = true
  writable : w'.socket.writable = true → w.socket.writable = true
  quiet : w.socket.writable = false → w'.sent = w.sent

theorem flush_same (m : OutgoingMessage) (s : Socket) (hm : s.httpMessage = some m.id) :
    Same m (m.flush s).self := by
  obtain ⟨heff, hframe, henc⟩ := m.flush_effect s hm
  exact ⟨heff.id, heff.kind, henc, by rw [hframe]⟩

/-- A flush of the message that has the socket, `a` being the state when it starts. -/
theorem moves_flush {a : Delivery} (hm : a.socket.httpMessage = some a.msg.id)
    (hsame : Same w.msg a.msg) (hstream : a.stream = w.stream) (hsent : a.sent = w.sent)
    (hsock : a.socket.writable = w.socket.writable ∧ a.socket.destroyed = w.socket.destroyed) :
    Moves w (w.settle (a.msg.flush a.socket)) := by
  obtain ⟨heff, -, -⟩ := a.msg.flush_effect a.socket hm
  obtain ⟨hst, hse⟩ := w.settle_stream (a.msg.flush a.socket)
  obtain ⟨-, hw, hd⟩ := w.settle_msg (a.msg.flush a.socket)
  refine ⟨hsame.trans ((flush_same _ _ hm).trans (w.settle_same _)), ?_, ?_, ?_, ?_⟩
  · rw [hst, ← hstream]
    rcases heff.stream_cases with h | h
    · exact h.trans (List.append_nil _)
    · exact h
  · intro h
    rw [hd, heff.destroyed, hsock.2, h]
  · intro h
    rw [← hsock.1, ← heff.writable, ← hw, h]
  · intro h
    rw [hse, heff.id, ← hsent]
    have hwr := heff.written_eq (Or.inr (Or.inl (hsock.1.trans h)))
    simp [Socket.sentBy, sent, hwr]

theorem Moves.refl : Moves w w := ⟨.refl _, rfl, fun h => h, fun h => h, fun _ => rfl⟩

/-- The state between the assignments of `assignSocket`, or of `onSocket`, and the flush. -/
def given : Delivery :=
  ⟨{ w.msg with connection := true }, { w.socket with httpMessage := some w.msg.id }, w.gone⟩

/-- A message that waits for the socket gets it, and is flushed when the socket is writable. -/
theorem step_attach :
    w.step .attach = w ∨ w.msg.connection = false ∧ w.gone = false ∧
      (w.step .attach = w.settle (w.given.msg.flush w.given.socket) ∨
        w.socket.writable = false ∧ w.step .attach = w.given) := by
  simp only [step]
  split_ifs with hno
  · exact Or.inl rfl
  · simp only [not_or, Bool.not_eq_true] at hno
    split
    · unfold OutgoingMessage.assignSocket
      split_ifs
      · exact Or.inl rfl
      · exact Or.inr ⟨hno.1, hno.2, Or.inl rfl⟩
    · unfold OutgoingMessage.onSocket
      dsimp only
      split_ifs with hw
      · exact Or.inr ⟨hno.1, hno.2, Or.inl rfl⟩
      · exact Or.inr ⟨hno.1, hno.2, Or.inr ⟨by simpa using hw, rfl⟩⟩

theorem moves_attach : Moves w (w.step .attach) := by
  rcases w.step_attach with heq | ⟨-, -, heq | ⟨-, heq⟩⟩ <;> rw [heq]
  · exact .refl w
  · exact w.moves_flush (a := w.given) rfl ⟨rfl, rfl, rfl, rfl⟩ rfl rfl ⟨rfl, rfl⟩
  · exact ⟨⟨rfl, rfl, rfl, rfl⟩, rfl, fun h => h, fun h => h, fun _ => rfl⟩

theorem moves_flushEvent : Moves w (w.step .flush) := by
  simp only [step]
  split_ifs with hm
  · exact w.moves_flush hm (.refl _) rfl rfl ⟨rfl, rfl⟩
  · exact .refl w

theorem moves_shut : Moves w (w.step .shut) :=
  ⟨.refl _, rfl, fun h => h, fun h => by simp [step, Socket.shut] at h, fun _ => rfl⟩

theorem moves_destroy : Moves w (w.step .destroy) :=
  ⟨.refl _, rfl, fun _ => rfl, fun h => by simp [step, Socket.destroy] at h, fun _ => rfl⟩

theorem moves_pass (owner : Option ℕ) : Moves w (w.step (.pass owner)) := by
  simp only [step]
  split_ifs
  · exact ⟨.refl _, rfl, fun h => h, fun h => h, fun _ => rfl⟩
  · exact .refl w

end Steps

/-! ### The way to the wire -/

section Track

variable {w w' : Delivery}

/-- The message waits for its socket, or has it. -/
def OnTrack (w : Delivery) : Prop :=
  w.gone = false ∧ (w.msg.connection = false ∨ w.socket.httpMessage = some w.msg.id)

/-- What the message buffers or sends gets to the wire. -/
def Deliverable (w : Delivery) : Prop := w.socket.writable = true ∧ w.OnTrack

instance decidableOnTrack (w : Delivery) : Decidable w.OnTrack := inferInstanceAs (Decidable (_ ∧ _))

instance decidableDeliverable (w : Delivery) : Decidable w.Deliverable :=
  inferInstanceAs (Decidable (_ ∧ _))

/-- A response that has left has no connection. -/
def Proper (w : Delivery) : Prop := w.gone = true → w.msg.connection = false

/-- What every step does to the way of the message to the wire. -/
structure Follows (w w' : Delivery) : Prop where
  hold : ¬ w.Deliverable → w'.sent = w.sent
  back : w'.Deliverable → w.Deliverable
  track : w'.OnTrack → w.OnTrack
  leave : w'.gone = true → w'.msg.connection = false ∧
    (w.gone = true ∨ w.OnTrack ∧ w'.msg.output = [])

/-- The two ends of `settle`. -/
theorem settle_cases (w : Delivery) {o : Outcome}
    (hs : o.finish = true → Sealed o.self o.socket) :
    w.settle o = ⟨o.self, o.socket, w.gone⟩ ∨
    (o.finish = true ∧ (w.settle o).gone = true ∧ (w.settle o).msg.connection = false ∧
      (w.settle o).msg.output = []) := by
  unfold settle
  split_ifs with h
  · have hsealed := hs h.1
    have hdetach : o.self.detachSocket o.socket =
        ⟨{ o.self with connection := false }, { o.socket with httpMessage := none }, .ok none,
          false⟩ := by
      unfold OutgoingMessage.detachSocket
      rw [if_neg (by simp [hsealed.httpMessage])]
    rw [hdetach]
    exact Or.inr ⟨h.1, rfl, rfl, hsealed.output⟩
  · exact Or.inl rfl

theorem settle_effect {o : Outcome} {p : Str} (hp : w.Proper)
    (he : Effect w.msg w.socket o.self o.socket p)
    (hs : o.finish = true → Sealed o.self o.socket) : Follows w (w.settle o) := by
  obtain ⟨-, hsent⟩ := w.settle_stream o
  obtain ⟨-, hwritable, -⟩ := w.settle_msg o
  have hsame : ∀ v : Delivery, v = ⟨o.self, o.socket, w.gone⟩ → (v.OnTrack ↔ w.OnTrack) := by
    rintro v rfl
    unfold OnTrack
    dsimp only
    rw [he.connection, he.httpMessage, he.id]
  have htrack : (w.settle o).OnTrack → w.OnTrack := by
    rcases w.settle_cases hs with heq | ⟨-, hgone, -, -⟩
    · exact (hsame _ heq).mp
    · intro h
      simp [h.1] at hgone
  refine ⟨fun hd => ?_, fun hd => ⟨?_, htrack hd.2⟩, htrack, fun hg => ?_⟩
  · rw [hsent, he.id]
    have hwr := he.written_eq ?_
    · simp [Socket.sentBy, sent, hwr]
    · by_contra hcon
      simp only [not_or, ne_eq, not_not] at hcon
      obtain ⟨hconn, hw, hm⟩ := hcon
      refine hd ⟨by simpa using hw, ?_, Or.inr hm⟩
      by_contra hgone
      exact hconn (hp (by simpa using hgone))
  · rw [← he.writable, ← hwritable]
    exact hd.1
  · rcases w.settle_cases hs with heq | ⟨hfin, -, hconn, hout⟩
    · rw [heq] at hg ⊢
      exact ⟨he.connection.trans (hp hg), Or.inl hg⟩
    · have hsealed := hs hfin
      have hwconn : w.msg.connection = true := he.connection ▸ hsealed.connection
      have hwmsg : w.socket.httpMessage = some w.msg.id := by
        rw [← he.httpMessage, ← he.id]
        exact hsealed.httpMessage
      refine ⟨hconn, Or.inr ⟨⟨?_, Or.inr hwmsg⟩, hout⟩⟩
      by_contra hgone
      simp [hp (by simpa using hgone)] at hwconn

theorem follows_call (hp : w.Proper) (c : Call) : Follows w (w.step (.call c)) :=
  settle_effect hp (apply_effect c w.msg w.socket) apply_sealed

theorem Follows.refl (hp : w.Proper) : Follows w w :=
  ⟨fun _ => rfl, id, id, fun hg => ⟨hp hg, Or.inl hg⟩⟩

theorem follows_flush (hp : w.Proper) : Follows w (w.step .flush) := by
  simp only [step]
  split_ifs with hm
  · exact settle_effect hp (w.msg.flush_effect w.socket hm).1 (w.msg.flush_sealed w.socket hm)
  · exact .refl hp

theorem follows_attach (hp : w.Proper) : Follows w (w.step .attach) := by
  rcases w.step_attach with heq | ⟨hconn, hgone, hcase⟩
  · rw [heq]
    exact .refl hp
  · have hgiven : w.given.Proper := fun hg => by simp [given, hgone] at hg
    have htrack : w.OnTrack := ⟨hgone, Or.inl hconn⟩
    -- a message that waits is on track, so nothing is lost by starting from `given`
    have hconv : ∀ v, Follows w.given v → Follows w v := by
      intro v h
      refine ⟨fun hd => h.hold fun hg => hd ⟨hg.1, htrack⟩, fun hd => ⟨(h.back hd).1, htrack⟩,
        fun _ => htrack, fun hg => ?_⟩
      obtain ⟨hconn', hcase⟩ := h.leave hg
      exact ⟨hconn', hcase.imp (fun hg => hg) fun hc => ⟨htrack, hc.2⟩⟩
    rcases hcase with heq | ⟨-, heq⟩ <;> rw [heq]
    · exact hconv _ (settle_effect hgiven (w.given.msg.flush_effect w.given.socket rfl).1
        (w.given.msg.flush_sealed w.given.socket rfl))
    · exact hconv _ (.refl hgiven)

theorem follows_step (hp : w.Proper) (e : Event) : Follows w (w.step e) := by
  cases e with
  | call c => exact follows_call hp c
  | attach => exact follows_attach hp
  | flush => exact follows_flush hp
  | shut =>
    exact ⟨fun _ => rfl, fun hd => by simp [step, Socket.shut, Deliverable] at hd,
      fun h => h, fun hg => ⟨hp hg, Or.inl hg⟩⟩
  | destroy =>
    exact ⟨fun _ => rfl, fun hd => by simp [step, Socket.destroy, Deliverable] at hd,
      fun h => h, fun hg => ⟨hp hg, Or.inl hg⟩⟩
  | pass owner =>
    simp only [step]
    split_ifs with h
    · have htrack : ∀ v : Delivery,
          v = { w with socket := { w.socket with httpMessage := owner } } →
          v.OnTrack → w.OnTrack := by
        rintro v rfl ⟨hg, hc⟩
        exact ⟨hg, Or.inl (hc.resolve_right h.1)⟩
      exact ⟨fun _ => rfl, fun hd => ⟨hd.1, htrack _ rfl hd.2⟩, htrack _ rfl,
        fun hg => ⟨hp hg, Or.inl hg⟩⟩
    · exact .refl hp

theorem step_proper (hp : w.Proper) (e : Event) : (w.step e).Proper :=
  fun hg => ((follows_step hp e).leave hg).1

end Track

end Delivery

namespace Delivery

variable (w : Delivery)

/-- The state once `ensureHeader` has run. -/
def opened : Delivery :=
  ⟨(w.msg.ensureHeader w.socket).self, (w.msg.ensureHeader w.socket).socket, w.gone⟩

/-- What a step may do to a message that gets its header block. -/
structure Opens (w w' : Delivery) : Prop where
  id : w'.msg.id = w.msg.id
  kind : w'.msg.kind = w.msg.kind
  finished : w'.msg.finished = w.msg.finished
  trailer : w'.msg.trailer = w.msg.trailer
  effect : Effect w.msg w.socket w'.msg w'.socket
    (if w'.msg.headerSent then w'.msg.header.getD [] else [])
  gone : w'.gone = w.gone

theorem earlyBytes_spec {m : OutgoingMessage} (hs : m.headerSent = false) (early : Bool) :
    (m.earlyBytes early).1 = { m.encoder with blockSent := early } ∧
    (m.earlyBytes early).2 = if early then m.header.getD [] else [] := by
  unfold OutgoingMessage.earlyBytes Encoder.emit OutgoingMessage.encoder
  cases early <;> simp [hs]

/-- Storing a header that could be rendered, by `writeHead` or implicitly. -/
theorem sendBlock_opens {r : Except (LuaError × OutgoingMessage) (OutgoingMessage × Bool)}
    {m' : OutgoingMessage} {early : Bool} (hr : r = .ok (m', early))
    (hframe : HeadFrame w.msg m') (hsome : m'.header.isSome) (hs : m'.headerSent = false) :
    let o := OutgoingMessage.sendBlock w.socket r
    Opens w ⟨o.self, o.socket, w.gone⟩ ∧ o.self.header = m'.header ∧
    o.self.hasBody = m'.hasBody ∧ o.self.chunkedEncoding = m'.chunkedEncoding := by
  intro o
  obtain ⟨heff, henc, hbody, -⟩ := OutgoingMessage.sendBlock_ok w.socket hr hframe hsome
  obtain ⟨he, hp⟩ := earlyBytes_spec hs early
  have hheader : o.self.header = m'.header := by rw [hbody]
  have hsent : o.self.headerSent = early := by
    have := congrArg Encoder.blockSent henc
    rw [he] at this
    exact this
  have hfin : o.self.finished = w.msg.finished := by
    have := congrArg Encoder.finished henc
    rw [he] at this
    exact this.trans hframe.encoder.2
  have htr : o.self.trailer = w.msg.trailer := by
    have := congrArg Encoder.trailer henc
    rw [he] at this
    exact this.trans hframe.encoder.1
  refine ⟨⟨heff.id, heff.kind, hfin, htr, ?_, rfl⟩, hheader, ?_, ?_⟩
  · change Effect w.msg w.socket o.self o.socket _
    rw [hheader, hsent, ← hp]
    exact heff
  · rw [hbody]
  · rw [hbody]

theorem settle_plain {o : Outcome} (h : o.finish = false) :
    w.settle o = ⟨o.self, o.socket, w.gone⟩ := by
  unfold settle
  rw [if_neg (by simp [h])]

/-- The implicit header, when it can be rendered. -/
theorem opened_opens (hnone : w.msg.header = none)
    (hok : (w.msg.ensureHeader w.socket).ret = .ok none) :
    Opens w w.opened ∧ w.opened.msg.header.isSome ∧
      ∃ m' early, w.msg.implicitBlock = .ok (m', early) ∧ w.opened.msg.header = m'.header ∧
        w.opened.msg.hasBody = m'.hasBody ∧
        w.opened.msg.chunkedEncoding = m'.chunkedEncoding := by
  have heq : w.msg.ensureHeader w.socket =
      OutgoingMessage.sendBlock w.socket w.msg.implicitBlock := by
    unfold OutgoingMessage.ensureHeader
    rw [if_pos hnone, OutgoingMessage.implicitHeader_eq]
  unfold opened
  rw [heq] at hok ⊢
  rcases hb : w.msg.implicitBlock with ⟨err, m'⟩ | ⟨m', early⟩
  · rw [hb] at hok
    cases hok
  · obtain ⟨hframe, hsome, hs⟩ := OutgoingMessage.implicitBlock_ok hb
    obtain ⟨hopens, hheader, hbody, hchunked⟩ := w.sendBlock_opens hb hframe hsome hs
    rw [hb] at hopens hheader hbody hchunked
    exact ⟨hopens, by rw [hheader]; exact hsome, m', early, rfl, hheader, hbody, hchunked⟩

/-- The implicit header, when it cannot be rendered. -/
theorem opened_error (hnone : w.msg.header = none) {err : LuaError}
    (herr : (w.msg.ensureHeader w.socket).ret = .error err) :
    ∃ m', w.msg.implicitBlock = .error (err, m') ∧ w.opened = ⟨m', w.socket, w.gone⟩ := by
  have heq : w.msg.ensureHeader w.socket =
      OutgoingMessage.sendBlock w.socket w.msg.implicitBlock := by
    unfold OutgoingMessage.ensureHeader
    rw [if_pos hnone, OutgoingMessage.implicitHeader_eq]
  unfold opened
  rw [heq] at herr ⊢
  rcases hb : w.msg.implicitBlock with ⟨err', m'⟩ | ⟨m', early⟩
  · rw [hb] at herr
    cases herr
    exact ⟨m', rfl, rfl⟩
  · rw [hb] at herr
    cases early <;> cases herr

/-- `writeHead` that returns. -/
theorem writeHead_opens {statusCode : ℕ} {reasonPhrase : Option Str}
    {headers : Option HeaderTable}
    (hok : ∃ v, ((Call.writeHead statusCode reasonPhrase headers).apply w.msg w.socket).ret =
      .ok v) :
    Opens w (w.step (.call (.writeHead statusCode reasonPhrase headers))) ∧
      (w.step (.call (.writeHead statusCode reasonPhrase headers))).msg.header.isSome ∧
      ∃ m' early, w.msg.headBlock statusCode reasonPhrase headers = .ok (m', early) ∧
        (w.step (.call (.writeHead statusCode reasonPhrase headers))).msg.header = m'.header ∧
        (w.step (.call (.writeHead statusCode reasonPhrase headers))).msg.hasBody = m'.hasBody ∧
        (w.step (.call (.writeHead statusCode reasonPhrase headers))).msg.chunkedEncoding =
          m'.chunkedEncoding := by
  have heq : (Call.writeHead statusCode reasonPhrase headers).apply w.msg w.socket =
      OutgoingMessage.sendBlock w.socket
        (w.msg.headBlock statusCode reasonPhrase headers) := by
    cases hk : w.msg.kind with
    | serverResponse => simp only [Call.apply, hk, OutgoingMessage.writeHead_eq]
    | clientRequest => simp [Call.apply, hk] at hok
  rw [heq] at hok
  simp only [step]
  rw [heq]
  rcases hb : w.msg.headBlock statusCode reasonPhrase headers with ⟨err, m'⟩ | ⟨m', early⟩
  · obtain ⟨v, hv⟩ := hok
    rw [hb] at hv
    cases hv
  · obtain ⟨hframe, hsome, hs⟩ := OutgoingMessage.headBlock_ok hb
    obtain ⟨hopens, hheader, hbody, hchunked⟩ := w.sendBlock_opens hb hframe hsome hs
    rw [hb] at hopens hheader hbody hchunked
    have hfin : (OutgoingMessage.sendBlock w.socket (.ok (m', early))).finish = false := by
      cases early <;> rfl
    rw [settle_plain w hfin]
    exact ⟨hopens, by rw [hheader]; exact hsome, m', early, rfl, hheader, hbody, hchunked⟩

/-- `writeHead` that raises. -/
theorem writeHead_error {statusCode : ℕ} {reasonPhrase : Option Str}
    {headers : Option HeaderTable} {err : LuaError}
    (herr : ((Call.writeHead statusCode reasonPhrase headers).apply w.msg w.socket).ret =
      .error err) :
    w.step (.call (.writeHead statusCode reasonPhrase headers)) = w ∨
    ∃ m', w.msg.headBlock statusCode reasonPhrase headers = .error (err, m') ∧
      w.step (.call (.writeHead statusCode reasonPhrase headers)) = ⟨m', w.socket, w.gone⟩ := by
  cases hk : w.msg.kind with
  | serverResponse =>
    refine Or.inr ?_
    simp only [step, Call.apply, hk, OutgoingMessage.writeHead_eq] at herr ⊢
    rcases hb : w.msg.headBlock statusCode reasonPhrase headers with ⟨err', m'⟩ | ⟨m', early⟩
    · rw [hb] at herr
      cases herr
      exact ⟨m', rfl, settle_plain w rfl⟩
    · rw [hb] at herr
      cases early <;> cases herr
  | clientRequest =>
    refine Or.inl ?_
    simp only [step, Call.apply, hk]
    exact settle_plain w rfl

/-- A call on a message without a header leaves the header alone, or stores it first and then
is the same call on the message with its header, or gets no further than the header. -/
theorem call_unstored (hnone : w.msg.header = none) (hopen : w.msg.finished = false) {c : Call}
    (hc : c.isBody = true) :
    (c.isSetup = true ∧ (w.step (.call c)).msg.header = none ∧
      Effect w.msg w.socket (w.step (.call c)).msg (w.step (.call c)).socket [] ∧
      (w.step (.call c)).msg.headerSent = w.msg.headerSent ∧
      (w.step (.call c)).msg.finished = w.msg.finished ∧
      (w.step (.call c)).msg.chunkedEncoding = w.msg.chunkedEncoding ∧
      (w.step (.call c)).gone = w.gone) ∨
    (c.isSetup = false ∧ (w.msg.ensureHeader w.socket).ret = .ok none ∧
      w.step (.call c) = w.opened.step (.call c)) ∨
    (c.isSetup = false ∧ (∃ err, (w.msg.ensureHeader w.socket).ret = .error err ∧
      (c.apply w.msg w.socket).ret = .error err) ∧ w.step (.call c) = w.opened) := by
  obtain ⟨hfin, -, hmatch⟩ := w.msg.ensureHeader_spec w.socket
  have hheader : (∃ err, (w.msg.ensureHeader w.socket).ret = .error err) ∨
      (w.msg.ensureHeader w.socket).ret = .ok none ∧
        (w.msg.ensureHeader w.socket).self.header.isSome := by
    cases hopened : w.msg.opened with
    | none => rw [hopened] at hmatch; exact Or.inl hmatch.2
    | some r => rw [hopened] at hmatch; exact Or.inr ⟨hmatch.2.2.2, hmatch.2.2.1⟩
  cases c with
  | setHeader name value =>
    refine Or.inl ⟨rfl, ?_⟩
    simp only [step, Call.apply, OutgoingMessage.setHeader]
    rw [if_neg (by simp [hnone])]
    exact ⟨hnone, Effect.still _ rfl rfl rfl rfl, rfl, rfl, rfl, rfl⟩
  | removeHeader name =>
    refine Or.inl ⟨rfl, ?_⟩
    simp only [step, Call.apply, OutgoingMessage.removeHeader]
    rw [if_neg (by simp [hnone])]
    exact ⟨hnone, Effect.still _ rfl rfl rfl rfl, rfl, rfl, rfl, rfl⟩
  | addTrailers headers =>
    exact Or.inl ⟨rfl, hnone, Effect.still _ rfl rfl rfl rfl, rfl, rfl, rfl, rfl⟩
  | writeHead statusCode reasonPhrase headers => cases hc
  | writeContinue => cases hc
  | write chunk encoding =>
    refine Or.inr ?_
    rcases hheader with ⟨err, herr⟩ | ⟨hok, hsome⟩
    · refine Or.inr ⟨rfl, ⟨err, herr, ?_⟩, ?_⟩
      · exact (congrArg Outcome.ret (OutgoingMessage.write_unopened herr chunk encoding)).trans herr
      · simp only [step, Call.apply]
        rw [OutgoingMessage.write_unopened herr, settle_plain w hfin]
        rfl
    · refine Or.inl ⟨rfl, hok, ?_⟩
      simp only [step, Call.apply]
      rw [OutgoingMessage.write_opened hok hsome]
      rfl
  | finish data encoding =>
    refine Or.inr ?_
    rcases hheader with ⟨err, herr⟩ | ⟨hok, hsome⟩
    · refine Or.inr ⟨rfl, ⟨err, herr, ?_⟩, ?_⟩
      · exact (congrArg Outcome.ret
          (OutgoingMessage.finish_unopened hopen herr data encoding)).trans herr
      · simp only [step, Call.apply]
        rw [OutgoingMessage.finish_unopened hopen herr, settle_plain w hfin]
        rfl
    · refine Or.inl ⟨rfl, hok, ?_⟩
      simp only [step, Call.apply]
      rw [OutgoingMessage.finish_opened hopen hok hsome]
      rfl

end Delivery

end LuaNode
