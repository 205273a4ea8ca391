import LuaNode.Http.Encoder

/-!
# The calls of a handler

`Call` lists what a handler does to a message, `Call.apply` runs the method, and `produces`
says which bytes the call adds to the message, from the message alone. `apply_effect` is the
one fact about calls that the results on connections rest on: whatever the state of socket and
buffer, a call has the effect of producing these bytes.
-/

namespace LuaNode

/-- The fields that storing a header may set. -/
def HeadFrame (m m' : OutgoingMessage) : Prop :=
  m' = { m with
    last := m'.last
    chunkedEncoding := m'.chunkedEncoding
    shouldKeepAlive := m'.shouldKeepAlive
    hasBody := m'.hasBody
    header := m'.header
    headerSent := m'.headerSent
    statusCode := m'.statusCode }

theorem HeadFrame.trans {a b c : OutgoingMessage} (hab : HeadFrame a b) (hbc : HeadFrame b c) :
    HeadFrame a c := by
  unfold HeadFrame at *
  rw [hab] at hbc
  exact hbc

theorem HeadFrame.effect {m m' : OutgoingMessage} (h : HeadFrame m m') (s : Socket) :
    Effect m s m' s [] := by
  rw [h]
  exact ⟨rfl, rfl, rfl, rfl, rfl, rfl, ⟨[], by simp⟩, fun _ _ _ ho => ho⟩

theorem HeadFrame.encoder {m m' : OutgoingMessage} (h : HeadFrame m m') :
    m'.encoder.trailer = m.encoder.trailer ∧ m'.encoder.finished = m.encoder.finished := by
  rw [h]; exact ⟨rfl, rfl⟩

namespace Stored

variable {st st' : Stored} {err : LuaError}

theorem store_frame {field : Str} {value : Scalar} (h : st.store field value = .ok st') :
    HeadFrame st.self st'.self := by
  unfold store at h
  dsimp only at h
  split at h
  all_goals first
    | cases h; rfl
    | (split_ifs at h <;> (cases h; rfl))
    | cases h

theorem store_error {field : Str} {value : Scalar} (h : st.store field value = .error (err, st')) :
    HeadFrame st.self st'.self := by
  unfold store at h
  dsimp only at h
  split at h
  all_goals first
    | cases h; rfl
    | (split_ifs at h)
    | cases h

theorem storeAll_frame {lines : List (Str × Scalar)} (h : st.storeAll lines = .ok st') :
    HeadFrame st.self st'.self := by
  induction lines generalizing st with
  | nil => cases h; rfl
  | cons l lines ih =>
    unfold storeAll at h
    split at h
    · cases h
    next st₁ h₁ => exact (store_frame h₁).trans (ih h)

theorem storeAll_error {lines : List (Str × Scalar)}
    (h : st.storeAll lines = .error (err, st')) : HeadFrame st.self st'.self := by
  induction lines generalizing st with
  | nil => cases h
  | cons l lines ih =>
    unfold storeAll at h
    split at h
    next e he => cases h; exact store_error he
    next st₁ h₁ => exact (store_frame h₁).trans (ih h)

theorem endings_frame (st : Stored) :
    HeadFrame st.self st.dateHeader.keepAliveLogic.bodyLogic.self := by
  have hd : st.dateHeader.self = st.self := by unfold dateHeader; split_ifs <;> rfl
  have hk : ∀ t : Stored, HeadFrame t.self t.keepAliveLogic.self := by
    intro t; unfold keepAliveLogic; split_ifs <;> rfl
  have hb : ∀ t : Stored, HeadFrame t.self t.bodyLogic.self := by
    intro t; unfold bodyLogic; split_ifs <;> rfl
  rw [← hd]
  exact (hk _).trans (hb _)

end Stored

namespace OutgoingMessage

variable {m m' : OutgoingMessage}

/-- A block that could be rendered is stored and unsent. -/
theorem renderBlock_ok {firstLine : Str} {headers : HeaderTable} {early : Bool}
    (h : m.renderBlock firstLine headers = .ok (m', early)) :
    HeadFrame m m' ∧ m'.header.isSome ∧ m'.headerSent = false := by
  unfold renderBlock at h
  split at h
  · cases h
  next st hst =>
    cases h
    have hframe := (Stored.storeAll_frame hst).trans st.endings_frame
    exact ⟨HeadFrame.trans hframe rfl, rfl, rfl⟩

theorem renderBlock_error {firstLine : Str} {headers : HeaderTable} {err : LuaError}
    (h : m.renderBlock firstLine headers = .error (err, m')) : HeadFrame m m' := by
  unfold renderBlock at h
  split at h
  next e st hst => cases h; exact Stored.storeAll_error hst
  · cases h

/-- `writeHead` up to the last statement of `_storeHeader`. -/
def headBlock (m : OutgoingMessage) (statusCode : ℕ) (reasonPhrase : Option Str)
    (headers : Option HeaderTable) :
    Except (LuaError × OutgoingMessage) (OutgoingMessage × Bool) :=
  let m := { m with statusCode := statusCode }
  match m.headHeaders headers with
  | .error e => .error (e, m)
  | .ok headers =>
    (m.prepareHead statusCode).renderBlock (statusLine statusCode reasonPhrase) headers

/-- `_implicitHeader` up to the last statement of `_storeHeader`. -/
def implicitBlock (m : OutgoingMessage) :
    Except (LuaError × OutgoingMessage) (OutgoingMessage × Bool) :=
  match m.kind with
  | .serverResponse => m.headBlock m.statusCode none none
  | .clientRequest =>
    match m.renderHeaders with
    | .error e => .error (e, m)
    | .ok headers =>
      m.renderBlock (m.method ++ " ".toList ++ m.path ++ " HTTP/1.1\r\n".toList) (.map headers)

/-- The last statement of `_storeHeader`. -/
def sendBlock (s : Socket) :
    Except (LuaError × OutgoingMessage) (OutgoingMessage × Bool) → Outcome
  | .error (e, m) => ⟨m, s, .error e, false⟩
  | .ok (m, true) => ⟨(m.send s [] none).self, (m.send s [] none).socket, .ok none, false⟩
  | .ok (m, false) => ⟨m, s, .ok none, false⟩

theorem storeHeader_eq (m : OutgoingMessage) (s : Socket) (firstLine : Str)
    (headers : HeaderTable) :
    m.storeHeader s firstLine headers = sendBlock s (m.renderBlock firstLine headers) := by
  unfold storeHeader
  rcases m.renderBlock firstLine headers with ⟨e, m'⟩ | ⟨m', early⟩
  · rfl
  · cases early <;> rfl

theorem writeHead_eq (m : OutgoingMessage) (s : Socket) (statusCode : ℕ)
    (reasonPhrase : Option Str) (headers : Option HeaderTable) :
    m.writeHead s statusCode reasonPhrase headers =
      sendBlock s (m.headBlock statusCode reasonPhrase headers) := by
  unfold writeHead headBlock
  dsimp only
  cases headHeaders { m with statusCode := statusCode } headers with
  | error e => rfl
  | ok headers => exact storeHeader_eq _ s _ headers

theorem implicitHeader_eq (m : OutgoingMessage) (s : Socket) :
    m.implicitHeader s = sendBlock s m.implicitBlock := by
  unfold implicitHeader implicitBlock
  cases m.kind with
  | serverResponse => exact m.writeHead_eq s _ none none
  | clientRequest =>
    dsimp only
    cases m.renderHeaders with
    | error e => rfl
    | ok headers => exact m.storeHeader_eq s _ (.map headers)

theorem prepareHead_frame (m : OutgoingMessage) (statusCode : ℕ) :
    HeadFrame m (m.prepareHead statusCode) := by
  unfold prepareHead
  dsimp only
  split_ifs <;> rfl

theorem headBlock_ok {statusCode : ℕ} {reasonPhrase : Option Str}
    {headers : Option HeaderTable} {early : Bool}
    (h : m.headBlock statusCode reasonPhrase headers = .ok (m', early)) :
    HeadFrame m m' ∧ m'.header.isSome ∧ m'.headerSent = false := by
  unfold headBlock at h
  dsimp only at h
  split at h
  · cases h
  · obtain ⟨hframe, hh, hs⟩ := renderBlock_ok h
    have hstatus : HeadFrame m { m with statusCode := statusCode } := rfl
    exact ⟨hstatus.trans ((prepareHead_frame _ statusCode).trans hframe), hh, hs⟩

theorem headBlock_error {statusCode : ℕ} {reasonPhrase : Option Str}
    {headers : Option HeaderTable} {err : LuaError}
    (h : m.headBlock statusCode reasonPhrase headers = .error (err, m')) : HeadFrame m m' := by
  unfold headBlock at h
  dsimp only at h
  split at h
  · cases h; rfl
  · have hstatus : HeadFrame m { m with statusCode := statusCode } := rfl
    exact hstatus.trans ((prepareHead_frame _ statusCode).trans (renderBlock_error h))

theorem implicitBlock_ok {early : Bool} (h : m.implicitBlock = .ok (m', early)) :
    HeadFrame m m' ∧ m'.header.isSome ∧ m'.headerSent = false := by
  unfold implicitBlock at h
  split at h
  · exact headBlock_ok h
  · split at h
    · cases h
    · exact renderBlock_ok h

theorem implicitBlock_error {err : LuaError} (h : m.implicitBlock = .error (err, m')) :
    HeadFrame m m' := by
  unfold implicitBlock at h
  split at h
  · exact headBlock_error h
  · split at h
    · cases h; rfl
    · exact renderBlock_error h

/-- The bytes sent by the last statement of `_storeHeader`, and the encoder behind it. -/
def earlyBytes (m : OutgoingMessage) (early : Bool) : Encoder × Str :=
  if early then m.encoder.emit [] else (m.encoder, [])

/-- Storing a header produces the block when it is to be sent at once, and nothing else. -/
theorem sendBlock_ok {r : Except (LuaError × OutgoingMessage) (OutgoingMessage × Bool)}
    {early : Bool} (s : Socket) (hr : r = .ok (m', early)) (hframe : HeadFrame m m')
    (hh : m'.header.isSome) :
    Effect m s (sendBlock s r).self (sendBlock s r).socket (m'.earlyBytes early).2 ∧
    (sendBlock s r).self.encoder = (m'.earlyBytes early).1 ∧
    BodyFrame m' (sendBlock s r).self ∧ (sendBlock s r).ret = .ok none := by
  subst hr
  cases early with
  | false => exact ⟨hframe.effect s, rfl, rfl, rfl⟩
  | true =>
    have h := send_refines s hh [] none
    exact ⟨(hframe.effect s).trans h.effect, h.encoder, h.frame, rfl⟩

/-- The encoder of the message once `ensureHeader` has run, with the bytes that this
produced; nothing when the header cannot be rendered. -/
def opened (m : OutgoingMessage) : Option (Encoder × Str) :=
  if m.header.isSome then some (m.encoder, [])
  else
    match m.implicitBlock with
    | .error _ => none
    | .ok (m', early) => some (m'.earlyBytes early)

/-- What `ensureHeader` does: nothing, the effect of storing the header, or an error. -/
theorem ensureHeader_spec (m : OutgoingMessage) (s : Socket) :
    (m.ensureHeader s).finish = false ∧ (m.ensureHeader s).self.finished = m.finished ∧
    match m.opened with
    | none => Effect m s (m.ensureHeader s).self (m.ensureHeader s).socket [] ∧
        ∃ err, (m.ensureHeader s).ret = .error err
    | some r => Effect m s (m.ensureHeader s).self (m.ensureHeader s).socket r.2 ∧
        (m.ensureHeader s).self.encoder = r.1 ∧ (m.ensureHeader s).self.header.isSome ∧
        (m.ensureHeader s).ret = .ok none := by
  unfold ensureHeader opened
  cases hh : m.header with
  | some header =>
    simp only [reduceCtorEq, if_false, Option.isSome_some, if_true]
    exact ⟨trivial, trivial, .refl m s, trivial, by simp [hh], trivial⟩
  | none =>
    simp only [if_true, Option.isSome_none, Bool.false_eq_true, if_false]
    rw [implicitHeader_eq]
    rcases hb : m.implicitBlock with ⟨err, m'⟩ | ⟨m', early⟩
    · exact ⟨rfl, (implicitBlock_error hb).encoder.2, (implicitBlock_error hb).effect s, err, rfl⟩
    · obtain ⟨hframe, hsome, -⟩ := implicitBlock_ok hb
      obtain ⟨heff, henc, hbody, hret⟩ :=
        sendBlock_ok (r := .ok (m', early)) s rfl hframe hsome
      refine ⟨?_, ?_, heff, henc, ?_, hret⟩
      · cases early <;> rfl
      · have := congrArg Encoder.finished henc
        have hf : (m'.earlyBytes early).1.finished = m'.encoder.finished := by
          unfold earlyBytes Encoder.emit
          split_ifs <;> rfl
        rw [hf, hframe.encoder.2] at this
        exact this
      · rw [hbody]; exact hsome

/-! ### The body of a message whose header is stored -/

theorem ensureHeader_some (hh : m.header.isSome) (s : Socket) :
    m.ensureHeader s = ⟨m, s, .ok none, false⟩ := by
  unfold ensureHeader
  rw [if_neg (by rintro h; simp [h] at hh)]

end OutgoingMessage

namespace Encoder

/-- `write` with any argument: one that is not a string raises. -/
def writeChunk (e : Encoder) : Chunk → Encoder × Str
  | .text data => e.write data
  | .other => (e, [])

/-- `finish` with any argument; one that is not a string raises if there is a body. -/
def finishChunk (e : Encoder) : Option Chunk → Encoder × Str
  | none => e.finish []
  | some (.text data) => e.finish data
  | some .other => if e.hasBody then (e, []) else e.finish []

/-- The bytes of `finish` before it marks the message finished. -/
def body (e : Encoder) (data : Str) : Encoder × Str :=
  let w := e.write data
  ((w.1.emit w.1.ending).1, w.2 ++ (w.1.emit w.1.ending).2)

theorem write_nil (e : Encoder) : e.write [] = (e, []) := by simp [write]

theorem write_bodiless {e : Encoder} (h : e.hasBody = false) (data : Str) :
    e.write data = (e, []) := by simp [write, h]

end Encoder

namespace OutgoingMessage

variable {m m' : OutgoingMessage}

theorem write_refines (hh : m.header.isSome) (s : Socket) (chunk : Chunk)
    (encoding : Option Str) :
    Refines m s (m.write s chunk encoding) (m.encoder.writeChunk chunk) := by
  unfold write
  rw [ensureHeader_some hh]
  simp only [Outcome.andThen]
  cases hbody : m.hasBody with
  | false =>
    have henc : m.encoder.writeChunk chunk = (m.encoder, []) := by
      cases chunk with
      | other => rfl
      | text data => exact Encoder.write_bodiless hbody data
    rw [henc]
    exact .refl m s _ _
  | true =>
    cases chunk with
    | other => exact .refl m s _ _
    | text data =>
      have hbody' : m.encoder.hasBody = true := hbody
      simp only [not_true_eq_false, if_false, Encoder.writeChunk, Encoder.write, hbody',
        Bool.true_eq_false, false_or]
      by_cases hdata : data = []
      · rw [if_pos (by simp [hdata]), if_pos hdata]
        exact .refl m s _ _
      · rw [if_neg (by simpa using hdata), if_neg hdata]
        cases hchunked : m.chunkedEncoding with
        | true =>
          have hframe : m.encoder.frame data = hex data.length ++ crlf ++ data ++ crlf := by
            simp [Encoder.frame, encoder, hchunked, encodeChunk]
          rw [if_pos rfl, hframe]
          exact send_refines s hh _ encoding
        | false =>
          have hframe : m.encoder.frame data = data := by
            simp [Encoder.frame, encoder, hchunked]
          rw [if_neg Bool.false_ne_true, hframe]
          exact send_refines s hh data encoding

theorem write_text_ok (hh : m.header.isSome) (s : Socket) (data : Str)
    (encoding : Option Str) : ∃ v, (m.write s (.text data) encoding).ret = .ok v := by
  unfold write
  rw [ensureHeader_some hh]
  simp only [Outcome.andThen]
  by_cases hbody : m.hasBody = true
  · rw [if_neg (by simp [hbody])]
    split_ifs
    · exact ⟨_, rfl⟩
    · exact (send_ok s hh _ encoding).1
    · exact (send_ok s hh data encoding).1
  · rw [if_pos hbody]
    exact ⟨_, rfl⟩

theorem finishCold_refines (hh : m.header.isSome) (s : Socket) :
    Refines m s (m.finishCold s) (m.encoder.emit m.encoder.ending) := by
  unfold finishCold
  cases hchunked : m.chunkedEncoding with
  | true =>
    have hend : m.encoder.ending = "0\r\n".toList ++ m.trailer ++ crlf := by
      simp [Encoder.ending, encoder, hchunked]
    rw [if_pos rfl, hend]
    exact send_refines s hh _ none
  | false =>
    have hend : m.encoder.ending = [] := by simp [Encoder.ending, encoder, hchunked]
    rw [if_neg Bool.false_ne_true, hend]
    exact send_refines s hh [] none

theorem finishCold_ok (hh : m.header.isSome) (s : Socket) :
    ∃ v, (m.finishCold s).ret = .ok v := by
  unfold finishCold
  split_ifs
  · exact (send_ok s hh _ none).1
  · exact (send_ok s hh [] none).1

/-- The single write of the hot path carries what the three writes of the other path do. -/
theorem finishHot_refines (hh : m.header.isSome) (s : Socket) (data : Str)
    (hbody : m.hasBody = true) (hhot : m.hot s data = true) :
    Refines m s (m.finishHot s data) (Encoder.body m.encoder data) := by
  obtain ⟨header, hheader⟩ := Option.isSome_iff_exists.mp hh
  simp only [hot, Bool.and_eq_true, Bool.not_eq_true', decide_eq_true_eq] at hhot
  obtain ⟨⟨⟨⟨⟨hsent, hpos⟩, hout⟩, hconn⟩, hw⟩, hmsg⟩ := hhot
  have hne : data ≠ [] := List.ne_nil_of_length_pos hpos
  have hd : s.destroyed = false := by
    by_contra h
    simp [s.closed (by simpa using h)] at hw
  have hempty : m.output = [] := List.eq_nil_of_length_eq_zero hout
  have hencoder : Encoder.body m.encoder data =
      ({ m.encoder with blockSent := true },
        header ++ m.encoder.frame data ++ m.encoder.ending) := by
    simp [Encoder.body, Encoder.write, Encoder.emit, encoder, hbody, hne, hsent, hheader,
      Encoder.frame, Encoder.ending]
  rw [hencoder]
  unfold finishHot
  refine ⟨⟨rfl, rfl, rfl, ?_, ?_, ?_, ⟨[header ++ m.encoder.frame data ++ m.encoder.ending],
    ?_, ?_, ?_⟩, ?_⟩, rfl, rfl⟩
  · dsimp only; split_ifs <;> rfl
  · dsimp only; split_ifs <;> rfl
  · dsimp only; split_ifs <;> rfl
  · cases hchunked : m.chunkedEncoding <;>
      simp [Socket.write, Encoder.frame, Encoder.ending, encoder, hchunked, hheader, encodeChunk,
        crlf]
  · exact fun _ => ⟨hconn, hw, hmsg⟩
  · simp [hempty, hd]
  · exact fun _ _ _ h => h

theorem finishBody_refines (hh : m.header.isSome) (s : Socket) (data : Str)
    (hbody : m.hasBody = true) (encoding : Option Str) :
    Refines m s (m.finishBody s (some (.text data)) encoding)
      (Encoder.body m.encoder data) ∧
    ∃ v, (m.finishBody s (some (.text data)) encoding).ret = .ok v := by
  unfold finishBody
  dsimp only
  cases hhot : m.hot s data with
  | true => exact ⟨finishHot_refines hh s data hbody hhot, ⟨_, rfl⟩⟩
  | false =>
    have hwrite := write_refines hh s (.text data) encoding
    have hheader : (m.write s (.text data) encoding).self.header.isSome := by
      rw [hwrite.frame]; exact hh
    have hcold := finishCold_refines hheader (m.write s (.text data) encoding).socket
    rw [hwrite.encoder] at hcold
    have hok := write_text_ok hh s data encoding
    refine ⟨Refines.andThen hwrite hok hcold, ?_⟩
    obtain ⟨v, hv⟩ := hok
    simpa [Outcome.andThen, hv] using
      finishCold_ok hheader (m.write s (.text data) encoding).socket

theorem finishEnd_refines {s : Socket} {o : Outcome} {e : Encoder} {p : Str}
    (h : Refines m s o (e, p)) (hok : ∃ v, o.ret = .ok v) :
    Refines m s (finishEnd o) ({ e with finished := true }, p) := by
  obtain ⟨v, hv⟩ := hok
  have hself : (finishEnd o).self = { o.self with finished := true } ∧
      (finishEnd o).socket = o.socket := by
    unfold finishEnd
    rw [hv]
    dsimp only
    split_ifs <;> exact ⟨rfl, rfl⟩
  obtain ⟨⟨hid, hkind, hconn, hw, hd, hmsg, hwire, hdrain⟩, henc, hframe⟩ := h
  refine ⟨?_, ?_, ?_⟩
  · rw [hself.1, hself.2]
    exact ⟨hid, hkind, hconn, hw, hd, hmsg, hwire, hdrain⟩
  · have hself' : o.self.encoder = e := henc
    rw [hself.1, ← hself']
    rfl
  · rw [hself.1]
    exact hframe.trans rfl

theorem finish_refines (hh : m.header.isSome) (s : Socket) (data : Option Chunk)
    (encoding : Option Str) :
    Refines m s (m.finish s data encoding) (m.encoder.finishChunk data) := by
  unfold finish
  cases hfin : m.finished with
  | true =>
    have henc : m.encoder.finishChunk data = (m.encoder, []) := by
      have : m.encoder.finished = true := hfin
      rcases data with _ | ⟨_ | _⟩ <;> simp [Encoder.finishChunk, Encoder.finish, this]
    rw [if_pos rfl, henc]
    exact .refl m s _ _
  | false =>
    have hencfin : m.encoder.finished = false := hfin
    rw [if_neg Bool.false_ne_true, ensureHeader_some hh]
    simp only [Outcome.andThen]
    have hnone : ∀ e : Encoder, Encoder.body e [] = e.emit e.ending := by
      intro e; simp [Encoder.body, Encoder.write_nil]
    have hfinish : ∀ d, m.encoder.finish d =
        ({ (Encoder.body m.encoder d).1 with finished := true },
          (Encoder.body m.encoder d).2) := by
      intro d
      simp [Encoder.finish, Encoder.body, hencfin]
    have hcold : Refines m s (finishEnd (m.finishCold s)) (m.encoder.finish []) := by
      rw [hfinish, hnone]
      exact finishEnd_refines (finishCold_refines hh s) (finishCold_ok hh s)
    cases hbody : m.hasBody with
    | false =>
      have henc : m.encoder.finishChunk data = m.encoder.finish [] := by
        have hb : m.encoder.hasBody = false := hbody
        rcases data with _ | ⟨d | _⟩
        · rfl
        · simp [Encoder.finishChunk, Encoder.finish, Encoder.write_bodiless hb]
        · simp [Encoder.finishChunk, hb]
      rw [henc]
      exact hcold
    | true =>
      rw [if_pos rfl]
      rcases data with _ | ⟨d | _⟩
      · exact hcold
      · obtain ⟨href, hok⟩ := finishBody_refines hh s d hbody encoding
        change Refines m s _ (m.encoder.finish d)
        rw [hfinish]
        exact finishEnd_refines href hok
      · have hb : m.encoder.hasBody = true := hbody
        have hraise : finishEnd (m.finishBody s (some .other) encoding) =
            ⟨m, s, .error "first argument must be a string or Buffer", false⟩ := by
          simp [finishBody, write, ensureHeader_some hh, Outcome.andThen, hbody, finishEnd]
        rw [hraise]
        simp only [Encoder.finishChunk, hb, if_true]
        exact .refl m s _ _

end OutgoingMessage

/-! ### Calls -/

/-- A method call made by a handler. -/
inductive Call
  | setHeader (name : Str) (value : HeaderValue)
  | removeHeader (name : Str)
  | addTrailers (headers : List (Str × Scalar))
  | writeHead (statusCode : ℕ) (reasonPhrase : Option Str) (headers : Option HeaderTable)
  | writeContinue
  | write (chunk : Chunk) (encoding : Option Str)
  | finish (data : Option Chunk) (encoding : Option Str)
  deriving DecidableEq

/-- Only a `ServerResponse` has the methods `writeHead` and `writeContinue`. -/
def Call.apply (c : Call) (m : OutgoingMessage) (s : Socket) : Outcome :=
  match c with
  | .setHeader name value => m.setHeader s name value
  | .removeHeader name => m.removeHeader s name
  | .addTrailers headers => m.addTrailers s headers
  | .writeHead statusCode reasonPhrase headers =>
    match m.kind with
    | .serverResponse => m.writeHead s statusCode reasonPhrase headers
    | .clientRequest => ⟨m, s, .error "attempt to call method 'writeHead' (a nil value)", false⟩
  | .writeContinue =>
    match m.kind with
    | .serverResponse => m.writeContinue s
    | .clientRequest =>
      ⟨m, s, .error "attempt to call method 'writeContinue' (a nil value)", false⟩
  | .write chunk encoding => m.write s chunk encoding
  | .finish data encoding => m.finish s data encoding

/-- The bytes that a call adds to the message. -/
def OutgoingMessage.produces (m : OutgoingMessage) : Call → Str
  | .setHeader _ _ | .removeHeader _ | .addTrailers _ => []
  | .writeHead statusCode reasonPhrase headers =>
    match m.kind, m.headBlock statusCode reasonPhrase headers with
    | .serverResponse, .ok (m', early) => (m'.earlyBytes early).2
    | _, _ => []
  | .writeContinue =>
    match m.kind with
    | .serverResponse => "HTTP/1.1 100 Continue\r\n\r\n".toList
    | .clientRequest => []
  | .write chunk _ =>
    match m.opened with
    | none => []
    | some (e, p) => p ++ (e.writeChunk chunk).2
  | .finish data _ =>
    if m.finished then []
    else
      match m.opened with
      | none => []
      | some (e, p) => p ++ (e.finishChunk data).2

/-- A method that leaves the buffer and the socket alone. -/
theorem Effect.still {m m' : OutgoingMessage} (s : Socket) (hid : m'.id = m.id)
    (hkind : m'.kind = m.kind) (hconn : m'.connection = m.connection)
    (hout : m'.output = m.output) : Effect m s m' s [] where
  id := hid
  kind := hkind
  connection := hconn
  writable := rfl
  destroyed := rfl
  httpMessage := rfl
  wire := ⟨[], by simp [hout]⟩
  drained := fun _ _ _ h => hout.trans h

namespace OutgoingMessage

variable (m : OutgoingMessage) (s : Socket)

theorem writeHead_effect (hk : m.kind = .serverResponse) (statusCode : ℕ)
    (reasonPhrase : Option Str) (headers : Option HeaderTable) :
    Effect m s (m.writeHead s statusCode reasonPhrase headers).self
      (m.writeHead s statusCode reasonPhrase headers).socket
      (m.produces (.writeHead statusCode reasonPhrase headers)) := by
  rw [writeHead_eq]
  simp only [produces, hk]
  rcases hb : m.headBlock statusCode reasonPhrase headers with ⟨err, m'⟩ | ⟨m', early⟩
  · exact (headBlock_error hb).effect s
  · obtain ⟨hframe, hsome, -⟩ := headBlock_ok hb
    have hsend := sendBlock_ok (r := .ok (m', early)) s rfl hframe hsome
    exact hsend.1

theorem writeContinue_effect (hk : m.kind = .serverResponse) :
    Effect m s (m.writeContinue s).self (m.writeContinue s).socket
      (m.produces .writeContinue) := by
  unfold produces writeContinue
  rw [hk]
  have h := (m.writeRaw_refines s "HTTP/1.1 100 Continue\r\n\r\n".toList
    (some "ascii".toList)).effect
  exact ⟨h.id, h.kind, h.connection, h.writable, h.destroyed, h.httpMessage, h.wire, h.drained⟩

variable {m s} in
/-- `write` and `finish` on a message without a header store it first. -/
theorem write_opened (hok : (m.ensureHeader s).ret = .ok none)
    (hh : (m.ensureHeader s).self.header.isSome) (chunk : Chunk) (encoding : Option Str) :
    m.write s chunk encoding =
      (m.ensureHeader s).self.write (m.ensureHeader s).socket chunk encoding := by
  conv_rhs => unfold write
  rw [ensureHeader_some hh]
  simp [write, Outcome.andThen, hok]

variable {m s} in
theorem finish_opened (hfin : m.finished = false)
    (hok : (m.ensureHeader s).ret = .ok none) (hh : (m.ensureHeader s).self.header.isSome)
    (data : Option Chunk) (encoding : Option Str) :
    m.finish s data encoding =
      (m.ensureHeader s).self.finish (m.ensureHeader s).socket data encoding := by
  have hkeep := (m.ensureHeader_spec s).2.1
  conv_rhs => unfold finish
  rw [ensureHeader_some hh]
  simp [finish, hfin, hkeep, Outcome.andThen, hok]

variable {m s} in
/-- When the header cannot be rendered they go no further. -/
theorem write_unopened {err : LuaError} (herr : (m.ensureHeader s).ret = .error err)
    (chunk : Chunk) (encoding : Option Str) : m.write s chunk encoding = m.ensureHeader s := by
  simp [write, Outcome.andThen, herr]

variable {m s} in
theorem finish_unopened {err : LuaError} (hfin : m.finished = false)
    (herr : (m.ensureHeader s).ret = .error err) (data : Option Chunk) (encoding : Option Str) :
    m.finish s data encoding = m.ensureHeader s := by
  simp [finish, hfin, Outcome.andThen, herr]

theorem write_effect (chunk : Chunk) (encoding : Option Str) :
    Effect m s (m.write s chunk encoding).self (m.write s chunk encoding).socket
      (m.produces (.write chunk encoding)) := by
  have hspec := (m.ensureHeader_spec s).2.2
  unfold produces
  cases hopen : m.opened with
  | none =>
    rw [hopen] at hspec
    obtain ⟨heff, err, herr⟩ := hspec
    rw [write_unopened herr]
    exact heff
  | some r =>
    rw [hopen] at hspec
    obtain ⟨heff, henc, hsome, hok⟩ := hspec
    have h := (write_refines hsome (m.ensureHeader s).socket chunk encoding).effect
    rw [henc] at h
    rw [write_opened hok hsome]
    exact heff.trans h

theorem finish_effect (data : Option Chunk) (encoding : Option Str) :
    Effect m s (m.finish s data encoding).self (m.finish s data encoding).socket
      (m.produces (.finish data encoding)) := by
  have hspec := (m.ensureHeader_spec s).2.2
  simp only [produces]
  cases hfin : m.finished with
  | true =>
    have heq : m.finish s data encoding = ⟨m, s, .ok (some false), false⟩ := by
      simp [finish, hfin]
    rw [heq]
    exact .refl m s
  | false =>
    rw [if_neg Bool.false_ne_true]
    cases hopen : m.opened with
    | none =>
      rw [hopen] at hspec
      obtain ⟨heff, err, herr⟩ := hspec
      rw [finish_unopened hfin herr]
      exact heff
    | some r =>
      rw [hopen] at hspec
      obtain ⟨heff, henc, hsome, hok⟩ := hspec
      have h := (finish_refines hsome (m.ensureHeader s).socket data encoding).effect
      rw [henc] at h
      rw [finish_opened hfin hok hsome]
      exact heff.trans h

end OutgoingMessage

/-- A call has the effect of producing the bytes it adds to the message. -/
theorem apply_effect (c : Call) (m : OutgoingMessage) (s : Socket) :
    Effect m s (c.apply m s).self (c.apply m s).socket (m.produces c) := by
  cases c with
  | setHeader name value =>
    simp only [Call.apply, OutgoingMessage.setHeader]
    split_ifs
    · exact .refl m s
    · exact .still s rfl rfl rfl rfl
  | removeHeader name =>
    simp only [Call.apply, OutgoingMessage.removeHeader]
    split_ifs
    · exact .refl m s
    · exact .still s rfl rfl rfl rfl
  | addTrailers headers => exact .still s rfl rfl rfl rfl
  | writeHead statusCode reasonPhrase headers =>
    cases hk : m.kind with
    | serverResponse =>
      simpa only [Call.apply, hk] using m.writeHead_effect s hk statusCode reasonPhrase headers
    | clientRequest => simpa [Call.apply, OutgoingMessage.produces, hk] using Effect.refl m s
  | writeContinue =>
    cases hk : m.kind with
    | serverResponse => simpa only [Call.apply, hk] using m.writeContinue_effect s hk
    | clientRequest => simpa [Call.apply, OutgoingMessage.produces, hk] using Effect.refl m s
  | write chunk encoding => exact m.write_effect s chunk encoding
  | finish data encoding => exact m.finish_effect s data encoding

/-! ### The 'finish' event and the loop of `_flush` -/

/-- What holds of message and socket when 'finish' is emitted. -/
structure Sealed (m : OutgoingMessage) (s : Socket) : Prop where
  finished : m.finished = true
  connection : m.connection = true
  httpMessage : s.httpMessage = some m.id
  output : m.output = []

namespace OutgoingMessage

variable (m : OutgoingMessage) (s : Socket)

theorem finishEnd_sealed {o : Outcome} (ho : o.finish = false)
    (h : (finishEnd o).finish = true) : Sealed (finishEnd o).self (finishEnd o).socket := by
  unfold finishEnd at h ⊢
  cases hret : o.ret with
  | error err => simp [hret, ho] at h
  | ok ret =>
    rw [hret] at h
    dsimp only at h ⊢
    split_ifs at h ⊢ with hout hconn
    have hmsg := of_decide_eq_true h
    exact ⟨rfl, by simpa using hconn, hmsg, List.eq_nil_of_length_eq_zero hout⟩

theorem andThen_finish {o : Outcome} {f : OutgoingMessage → Socket → Outcome}
    (ho : o.finish = false) (hf : ∀ m s, (f m s).finish = false) :
    (o.andThen f).finish = false := by
  unfold Outcome.andThen
  split
  · exact ho
  · exact hf _ _

theorem send_finish (data : Str) (encoding : Option Str) :
    (m.send s data encoding).finish = false := by
  unfold send
  split_ifs
  · exact (m.writeRaw_ok s data encoding).2
  · split
    · rfl
    · exact (writeRaw_ok _ s _ encoding).2

theorem write_finish (chunk : Chunk) (encoding : Option Str) :
    (m.write s chunk encoding).finish = false := by
  refine andThen_finish (m.ensureHeader_spec s).1 fun m s => ?_
  cases chunk with
  | other => split_ifs <;> rfl
  | text data =>
    dsimp only
    split_ifs
    · rfl
    · exact send_finish m s _ encoding
    · exact send_finish m s data encoding
    · rfl

theorem finishBody_finish (data : Option Chunk) (encoding : Option Str) :
    (m.finishBody s data encoding).finish = false := by
  have hcold : ∀ (m : OutgoingMessage) (s : Socket), (m.finishCold s).finish = false := by
    intro m s
    unfold finishCold
    split_ifs <;> exact send_finish m s _ none
  unfold finishBody
  split
  · exact hcold m s
  · split_ifs
    · rfl
    · exact andThen_finish (m.write_finish s _ encoding) hcold
  · exact andThen_finish (m.write_finish s _ encoding) hcold

/-- `finish` emits 'finish' only when everything has been handed to the socket. -/
theorem finish_sealed {data : Option Chunk} {encoding : Option Str}
    (h : (m.finish s data encoding).finish = true) :
    Sealed (m.finish s data encoding).self (m.finish s data encoding).socket := by
  unfold finish at h ⊢
  split_ifs at h ⊢
  unfold Outcome.andThen at h ⊢
  split at h
  next err hret => simp [(m.ensureHeader_spec s).1] at h
  next v hret =>
    exact finishEnd_sealed (finishBody_finish _ _ _ encoding) h

theorem finishEnd_finished {o : Outcome} {v : Option Bool} (h : (finishEnd o).ret = .ok v) :
    (finishEnd o).self.finished = true := by
  unfold finishEnd at h ⊢
  cases hret : o.ret with
  | error err => simp [hret] at h
  | ok ret =>
    dsimp only
    split_ifs <;> rfl

/-- A call of `finish` that returns has finished the message. -/
theorem finish_finished (data : Option Chunk) {encoding : Option Str} {v : Option Bool}
    (h : (m.finish s data encoding).ret = .ok v) : (m.finish s data encoding).self.finished := by
  unfold finish at h ⊢
  split_ifs at h ⊢ with hfin
  · exact hfin
  · unfold Outcome.andThen at h ⊢
    split at h
    next err hret => simp [hret] at h
    next u hret => exact finishEnd_finished h

/-- On the socket the message is attached to, `_flush` moves the buffer to the socket; it emits
'finish' only when nothing is left. -/
theorem flush_effect (hm : s.httpMessage = some m.id) :
    Effect m s (m.flush s).self (m.flush s).socket [] ∧ BodyFrame m (m.flush s).self ∧
    (m.flush s).self.encoder = m.encoder := by
  unfold flush
  by_cases hc : m.connection = false
  · rw [if_pos hc]
    exact ⟨.refl m s, .refl m, rfl⟩
  · rw [if_neg hc]
    obtain ⟨heff, -⟩ := m.drain_effect s hm (by simpa using hc)
    dsimp only
    split_ifs <;> exact ⟨heff, rfl, rfl⟩

theorem flush_output (hw : s.writable = true) (hc : m.connection = true)
    (hm : s.httpMessage = some m.id) : (m.flush s).self.output = [] := by
  obtain ⟨-, hout⟩ := m.drain_effect s hm hc
  unfold flush
  rw [if_neg (by simp [hc])]
  dsimp only
  split_ifs <;> exact hout hw

theorem flush_sealed (hm : s.httpMessage = some m.id) (h : (m.flush s).finish = true) :
    Sealed (m.flush s).self (m.flush s).socket := by
  unfold flush at h ⊢
  by_cases hc : m.connection = false
  · simp [hc] at h
  · obtain ⟨heff, -⟩ := m.drain_effect s hm (by simpa using hc)
    simp only [if_neg hc] at h ⊢
    by_cases hlen : (m.drain s).self.output.length > 0
    · simp [hlen] at h
    · by_cases hfin : (m.drain s).self.finished = true
      · rw [if_neg hlen, if_pos hfin]
        refine ⟨hfin, ?_, ?_, List.eq_nil_of_length_eq_zero (Nat.eq_zero_of_not_pos hlen)⟩
        · exact heff.connection.trans (by simpa using hc)
        · exact heff.httpMessage.trans (by rw [hm, heff.id])
      · rw [if_neg hlen, if_neg hfin] at h
        split_ifs at h

end OutgoingMessage

theorem apply_sealed {c : Call} {m : OutgoingMessage} {s : Socket}
    (h : (c.apply m s).finish = true) : Sealed (c.apply m s).self (c.apply m s).socket := by
  cases c with
  | setHeader name value =>
    simp only [Call.apply, OutgoingMessage.setHeader] at h
    split_ifs at h
  | removeHeader name =>
    simp only [Call.apply, OutgoingMessage.removeHeader] at h
    split_ifs at h
  | addTrailers headers => simp [Call.apply, OutgoingMessage.addTrailers] at h
  | writeHead statusCode reasonPhrase headers =>
    cases hk : m.kind with
    | serverResponse =>
      simp only [Call.apply, hk, OutgoingMessage.writeHead_eq] at h
      unfold OutgoingMessage.sendBlock at h
      split at h <;> cases h
    | clientRequest => simp [Call.apply, hk] at h
  | writeContinue =>
    cases hk : m.kind <;> simp [Call.apply, OutgoingMessage.writeContinue, hk] at h
  | write chunk encoding => simp [Call.apply, m.write_finish s chunk encoding] at h
  | finish data encoding => exact m.finish_sealed s h

/-! ### Calls on a message whose header is stored -/

/-- The calls that store no header block and send nothing before it. -/
def Call.isBody : Call → Bool
  | .writeHead _ _ _ | .writeContinue => false
  | _ => true

namespace Encoder

def addTrailers (e : Encoder) (headers : List (Str × Scalar)) : Encoder :=
  { e with trailer := headers.flatMap fun p => headerLine p.1 p.2.text }

/-- The part that a call has in the bytes once the header is stored. -/
def call (e : Encoder) : Call → Encoder × Str
  | .addTrailers headers => (e.addTrailers headers, [])
  | .write chunk _ => e.writeChunk chunk
  | .finish data _ => e.finishChunk data
  | _ => (e, [])

end Encoder

theorem apply_refines {m : OutgoingMessage} (hh : m.header.isSome) (s : Socket) {c : Call}
    (hc : c.isBody = true) : Refines m s (c.apply m s) (m.encoder.call c) := by
  cases c with
  | setHeader name value =>
    simp only [Call.apply, OutgoingMessage.setHeader, if_pos hh]
    exact .refl m s _ _
  | removeHeader name =>
    simp only [Call.apply, OutgoingMessage.removeHeader, if_pos hh]
    exact .refl m s _ _
  | addTrailers headers => exact ⟨.still s rfl rfl rfl rfl, rfl, rfl⟩
  | writeHead statusCode reasonPhrase headers => cases hc
  | writeContinue => cases hc
  | write chunk encoding => exact OutgoingMessage.write_refines hh s chunk encoding
  | finish data encoding => exact OutgoingMessage.finish_refines hh s data encoding

/-- The calls that leave the header alone: those that prepare a response. -/
def Call.isSetup : Call → Bool
  | .setHeader _ _ | .removeHeader _ | .addTrailers _ | .writeContinue => true
  | _ => false

end LuaNode
