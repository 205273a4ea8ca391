import LuaNode.Library.Text

/-!
# `OutgoingMessage`

The writing half of `lib/luanode/http.lua`: the message object shared by `ServerResponse` and
`ClientRequest`, and the socket as far as it sees one. Methods take the message and the socket
and return both, with the value returned or the error raised; an error does not undo the
assignments made before it. `self.socket` and `self.connection` are always assigned together,
so one flag stands for both. Logging and `console.error` are left out.
-/

namespace LuaNode

/-- The text of a raised error. -/
abbrev LuaError := String

/-- A string, or a number with the text that `..` makes of it. -/
inductive Scalar
  | str (s : Str)
  | num (text : Str)
  deriving DecidableEq

def Scalar.text : Scalar → Str
  | .str s => s
  | .num t => t

/-- The value of a header: one line, or a table with a line for each element. -/
inductive HeaderValue
  | one (v : Scalar)
  | many (vs : List Scalar)
  deriving DecidableEq

def HeaderValue.scalars : HeaderValue → List Scalar
  | .one v => [v]
  | .many vs => vs

/-- A header table: a map from names, or a list of `{ name, value }` pairs. -/
inductive HeaderTable
  | map (entries : List (Str × HeaderValue))
  | array (entries : List (Str × HeaderValue))
  deriving DecidableEq

def HeaderTable.entries : HeaderTable → List (Str × HeaderValue)
  | .map es => es
  | .array es => es

/-- `Utils.isArray`: the table has an element at index 1. -/
def HeaderTable.isArray : HeaderTable → Bool
  | .map _ => false
  | .array es => !es.isEmpty

/-- What the Lua runtime answers when a header is rendered: the date, and the order in which
`pairs` walks a map, which the language leaves open. -/
structure Runtime where
  date : Str
  pairs : List (Str × HeaderValue) → List (Str × HeaderValue)
  pairs_perm : ∀ t, (pairs t).Perm t

/-- A runtime that walks maps in the order in which they were filled. -/
def Runtime.inOrder (date : Str) : Runtime := ⟨date, id, fun t => List.Perm.refl t⟩

/-- The pairs in the order in which the loop over `pairs(headers)` meets them. -/
def HeaderTable.walk (rt : Runtime) : HeaderTable → List (Str × HeaderValue)
  | .map es => rt.pairs es
  | .array es => es

/-- `net.Socket` as the message sees it. `results` holds what the coming calls of `write` will
return, `written` the strings handed to `write`, each with the message that wrote it. -/
structure Socket where
  writable : Bool
  destroyed : Bool
  /-- `socket._httpMessage` -/
  httpMessage : Option ℕ
  /-- `socket._hangupClose` -/
  hangupClose : Bool
  /-- the timer that will emit 'close' is running -/
  hangupTimer : Bool
  results : List Bool
  written : List (ℕ × Str)
  closed : destroyed = true → writable = false

namespace Socket

/-- `socket:write(data)` called by message `id`. -/
def write (s : Socket) (id : ℕ) (data : Str) : Socket × Bool :=
  ({ s with results := s.results.tail, written := s.written ++ [(id, data)] },
    s.results.headD false)

/-- `socket:destroySoon()` and `socket:finish()`: no more writes are taken. -/
def shut (s : Socket) : Socket := { s with writable := false, closed := fun _ => rfl }

/-- `socket:destroy()`. -/
def destroy (s : Socket) : Socket :=
  { s with writable := false, destroyed := true, closed := fun _ => rfl }

/-- The strings that message `id` handed to the socket, joined. -/
def sentBy (s : Socket) (id : ℕ) : Str :=
  (s.written.filter fun e => e.1 = id).flatMap Prod.snd

/-- A fresh connection. -/
def fresh (results : List Bool) : Socket where
  writable := true
  destroyed := false
  httpMessage := none
  hangupClose := false
  hangupTimer := false
  results := results
  written := []
  closed := by simp

end Socket

inductive Kind
  | serverResponse
  | clientRequest
  deriving DecidableEq

structure OutgoingMessage where
  id : ℕ
  kind : Kind
  output : List Str
  outputEncodings : List Str
  last : Bool
  chunkedEncoding : Bool
  shouldKeepAlive : Bool
  useChunkedEncodingByDefault : Bool
  sendDate : Bool
  hasBody : Bool
  trailer : Str
  finished : Bool
  hangupClose : Bool
  /-- `_header`, the rendered header block -/
  header : Option Str
  headerSent : Bool
  /-- `_headerNames[key]` and `_headers[key]` by lower-case name `key` -/
  headers : Option (List (Str × (Str × HeaderValue)))
  /-- `self.connection` is the socket, rather than nil -/
  connection : Bool
  statusCode : ℕ
  expectContinue : Bool
  sent100 : Bool
  method : Str
  path : Str
  runtime : Runtime

/-- The argument of `write` and `finish`: a string or any other true value. -/
inductive Chunk
  | text (s : Str)
  | other
  deriving DecidableEq

/-- What a method call leaves behind. `finish` tells that 'finish' was emitted. -/
structure Outcome where
  self : OutgoingMessage
  socket : Socket
  ret : Except LuaError (Option Bool)
  finish : Bool

/-- Runs `f` after a call that did not raise (and does not emit 'finish'). -/
def Outcome.andThen (o : Outcome) (f : OutgoingMessage → Socket → Outcome) : Outcome :=
  match o.ret with
  | .error _ => o
  | .ok _ => f o.self o.socket

/-- What the loops over `self.output` leave behind, `ret` being the result of the last write. -/
structure Drained where
  self : OutgoingMessage
  socket : Socket
  ret : Option Bool

/-- `t[k] = v` in a map. -/
def assign {β : Type} (t : List (Str × β)) (k : Str) (v : β) : List (Str × β) :=
  if t.any fun p => p.1 = k then t.map fun p => if p.1 = k then (k, v) else p
  else t ++ [(k, v)]

/-- The arrays and the socket after some rounds of the loop. -/
structure Pumped where
  output : List Str
  outputEncodings : List Str
  socket : Socket
  ret : Option Bool

/-- `while #self.output > 0`: write the buffered strings as long as the socket is writable. -/
def pump (id : ℕ) : List Str → List Str → Socket → Option Bool → Pumped
  | [], encodings, s, ret => ⟨[], encodings, s, ret⟩
  | c :: cs, encodings, s, ret =>
    if s.writable then
      let w := s.write id c
      pump id cs encodings.tail w.1 (some w.2)
    else ⟨c :: cs, encodings, s, ret⟩

namespace OutgoingMessage

/-- `_buffer`. Both operands of the comparison of constructors are nil on strings. -/
def buffer (m : OutgoingMessage) (data : Str) (encoding : Option Str) : OutgoingMessage :=
  if data.length = 0 then m
  else if m.output.length = 0 then
    { m with
      output := m.output ++ [data]
      outputEncodings := m.outputEncodings ++ [encoding.getD "ascii".toList] }
  else if m.outputEncodings[m.output.length - 1]? = encoding ∨ encoding = none then
    { m with output := m.output.dropLast ++ [m.output.getLastD [] ++ data] }
  else
    { m with
      output := m.output ++ [data]
      outputEncodings := m.outputEncodings ++ [encoding.getD "ascii".toList] }

/-- The loop over `self.output` of `_writeRaw` and `_flush`. -/
def drain (m : OutgoingMessage) (s : Socket) : Drained :=
  let p := pump m.id m.output m.outputEncodings s none
  ⟨{ m with output := p.output, outputEncodings := p.outputEncodings }, p.socket, p.ret⟩

/-- `_writeRaw` on the socket the message is attached to: pending data goes first. -/
def writeAttached (m : OutgoingMessage) (s : Socket) (data : Str) (encoding : Option Str) :
    Outcome :=
  let d := m.drain s
  if d.self.output.length > 0 then
    ⟨d.self.buffer data encoding, d.socket, .ok (some false), false⟩
  else
    let w := d.socket.write m.id data
    ⟨d.self, w.1, .ok (some w.2), false⟩

/-- `_writeRaw` on a destroyed socket: the data is dropped, and a timer will emit 'close' in
case it never comes. -/
def writeDestroyed (m : OutgoingMessage) (s : Socket) : Outcome :=
  if ¬ m.hangupClose ∧ ¬ s.hangupClose then
    ⟨{ m with hangupClose := true }, { s with hangupClose := true, hangupTimer := true },
      .ok (some false), false⟩
  else ⟨m, s, .ok (some false), false⟩

/-- `_writeRaw`: write to the socket the message is attached to, or buffer. -/
def writeRaw (m : OutgoingMessage) (s : Socket) (data : Str) (encoding : Option Str) : Outcome :=
  if data.length = 0 then ⟨m, s, .ok (some true), false⟩
  else if m.connection ∧ s.httpMessage = some m.id ∧ s.writable ∧ ¬ s.destroyed then
    m.writeAttached s data encoding
  else if m.connection ∧ s.destroyed then m.writeDestroyed s
  else ⟨m.buffer data encoding, s, .ok (some false), false⟩

/-- `_send`: the first string sent carries the header block in front. -/
def send (m : OutgoingMessage) (s : Socket) (data : Str) (encoding : Option Str) : Outcome :=
  if m.headerSent then m.writeRaw s data encoding
  else
    match m.header with
    | none => ⟨m, s, .error "attempt to concatenate field '_header' (a nil value)", false⟩
    | some header => { m with headerSent := true }.writeRaw s (header ++ data) encoding

end OutgoingMessage

/-! ### The header block -/

/-- The five kinds of header that `store` looks out for. -/
inductive HeaderKind
  | connection
  | transferEncoding
  | contentLength
  | date
  | expect
  deriving DecidableEq

/-- The chain of `field:match` tests in `store`. -/
def headerKind (field : Str) : Option HeaderKind :=
  if contains "connection".toList (lower field) then some .connection
  else if contains "transfer-encoding".toList (lower field) then some .transferEncoding
  else if contains "content-length".toList (lower field) then some .contentLength
  else if contains "date".toList (lower field) then some .date
  else if contains "expect".toList (lower field) then some .expect
  else none

/-- `field .. ": " .. value .. CRLF`. -/
def headerLine (field value : Str) : Str := field ++ ": ".toList ++ value ++ crlf

/-- The message and the locals of `_storeHeader` while the header block is put together. -/
structure Stored where
  self : OutgoingMessage
  messageHeader : Str
  sentConnectionHeader : Bool := false
  sentContentLengthHeader : Bool := false
  sentTransferEncodingHeader : Bool := false
  sentDateHeader : Bool := false
  sentExpect : Bool := false

namespace Stored

/-- The local function `store`. A number has no method `lower`. -/
def store (st : Stored) (field : Str) (value : Scalar) : Except (LuaError × Stored) Stored :=
  let st := { st with messageHeader := st.messageHeader ++ headerLine field value.text }
  match headerKind field, value with
  | some .connection, .num _ => .error ("attempt to index local 'value' (a number value)", st)
  | some .connection, .str value =>
    let st := { st with sentConnectionHeader := true }
    if contains "close".toList (lower value) then
      .ok { st with self := { st.self with last := true } }
    else .ok { st with self := { st.self with shouldKeepAlive := true } }
  | some .transferEncoding, .num _ =>
    .error ("attempt to index local 'value' (a number value)",
      { st with sentTransferEncodingHeader := true })
  | some .transferEncoding, .str value =>
    let st := { st with sentTransferEncodingHeader := true }
    if contains "chunk".toList (lower value) then
      .ok { st with self := { st.self with chunkedEncoding := true } }
    else .ok st
  | some .contentLength, _ => .ok { st with sentContentLengthHeader := true }
  | some .date, _ => .ok { st with sentDateHeader := true }
  | some .expect, _ => .ok { st with sentExpect := true }
  | none, _ => .ok st

/-- The loops that call `store` on every line. -/
def storeAll (st : Stored) : List (Str × Scalar) → Except (LuaError × Stored) Stored
  | [] => .ok st
  | (field, value) :: lines =>
    match st.store field value with
    | .error e => .error e
    | .ok st => st.storeAll lines

/-- "Date header". -/
def dateHeader (st : Stored) : Stored :=
  if st.self.sendDate ∧ ¬ st.sentDateHeader then
    { st with messageHeader := st.messageHeader ++ headerLine "Date".toList st.self.runtime.date }
  else st

/-- "keep-alive logic". -/
def keepAliveLogic (st : Stored) : Stored :=
  if st.sentConnectionHeader = false then
    if st.self.shouldKeepAlive ∧
        (st.sentContentLengthHeader ∨ st.self.useChunkedEncodingByDefault) then
      { st with messageHeader := st.messageHeader ++ "Connection: keep-alive\r\n".toList }
    else
      { st with
        self := { st.self with last := true }
        messageHeader := st.messageHeader ++ "Connection: close\r\n".toList }
  else st

/-- The end of the body: chunks, the end of the connection, or no body at all. -/
def bodyLogic (st : Stored) : Stored :=
  if st.sentContentLengthHeader = false ∧ st.sentTransferEncodingHeader = false then
    if st.self.hasBody then
      if st.self.useChunkedEncodingByDefault then
        { st with
          self := { st.self with chunkedEncoding := true }
          messageHeader := st.messageHeader ++ "Transfer-Encoding: chunked\r\n".toList }
      else { st with self := { st.self with last := true } }
    else { st with self := { st.self with chunkedEncoding := false } }
  else st

end Stored

/-- The lines of a header table: a value that is a table has one for each element. -/
def headerLines (entries : List (Str × HeaderValue)) : List (Str × Scalar) :=
  entries.flatMap fun p => p.2.scalars.map fun v => (p.1, v)

namespace OutgoingMessage

/-- `_storeHeader` up to its last statement: the message with its header block, and whether
the block is to be sent at once. -/
def renderBlock (m : OutgoingMessage) (firstLine : Str) (headers : HeaderTable) :
    Except (LuaError × OutgoingMessage) (OutgoingMessage × Bool) :=
  match Stored.storeAll ⟨m, firstLine, false, false, false, false, false⟩
      (headerLines (headers.walk m.runtime)) with
  | .error (e, st) => .error (e, st.self)
  | .ok st =>
    let st := st.dateHeader.keepAliveLogic.bodyLogic
    .ok ({ st.self with header := some (st.messageHeader ++ crlf), headerSent := false },
      st.sentExpect)

/-- `_storeHeader`. -/
def storeHeader (m : OutgoingMessage) (s : Socket) (firstLine : Str) (headers : HeaderTable) :
    Outcome :=
  match m.renderBlock firstLine headers with
  | .error (e, m) => ⟨m, s, .error e, false⟩
  | .ok (m, sentExpect) =>
    if sentExpect then
      let o := m.send s [] none
      ⟨o.self, o.socket, .ok none, false⟩
    else ⟨m, s, .ok none, false⟩

def setHeader (m : OutgoingMessage) (s : Socket) (name : Str) (value : HeaderValue) : Outcome :=
  if m.header.isSome then ⟨m, s, .error "Can't set headers after they are sent.", false⟩
  else
    ⟨{ m with headers := some (assign (m.headers.getD []) (lower name) (name, value)) }, s,
      .ok none, false⟩

def getHeader (m : OutgoingMessage) (name : Str) : Option HeaderValue :=
  ((m.headers.getD []).find? fun p => p.1 = lower name).map fun p => p.2.2

def removeHeader (m : OutgoingMessage) (s : Socket) (name : Str) : Outcome :=
  if m.header.isSome then ⟨m, s, .error "Can't remove headers after they are sent.", false⟩
  else
    ⟨{ m with headers := m.headers.map fun t => t.filter fun p => p.1 ≠ lower name }, s,
      .ok none, false⟩

/-- `_renderHeaders`: the headers set so far, under the names given to `setHeader`. -/
def renderHeaders (m : OutgoingMessage) : Except LuaError (List (Str × HeaderValue)) :=
  if m.header.isSome then .error "Can't render headers after they are sent to the client."
  else .ok ((m.headers.getD []).map Prod.snd)

/-- The statuses whose responses have no body. -/
def bodilessStatus (statusCode : ℕ) : Bool :=
  statusCode = 204 || statusCode = 304 || (100 ≤ statusCode && statusCode ≤ 199)

/-- `_M.status_codes[statusCode] or "unknown"`. -/
def statusPhrase (statusCode : ℕ) : String :=
  match statusCode with
  | 100 => "Continue" | 101 => "Switching Protocols" | 102 => "Processing"
  | 200 => "OK" | 201 => "Created" | 202 => "Accepted"
  | 203 => "Non-Authoritative Information" | 204 => "No Content" | 205 => "Reset Content"
  | 206 => "Partial Content" | 207 => "Multi-Status"
  | 300 => "Multiple Choices" | 301 => "Moved Permanently" | 302 => "Found"
  | 303 => "See Other" | 304 => "Not Modified" | 305 => "Use Proxy"
  | 307 => "Temporary Redirect"
  | 400 => "Bad Request" | 401 => "Unauthorized" | 402 => "Payment Required"
  | 403 => "Forbidden" | 404 => "Not Found" | 405 => "Method Not Allowed"
  | 406 => "Not Acceptable" | 407 => "Proxy Authentication Required"
  | 408 => "Request Time-out" | 409 => "Conflict" | 410 => "Gone" | 411 => "Length Required"
  | 412 => "Precondition Failed" | 413 => "Request Entity Too Large"
  | 414 => "Request-URI Too Large" | 415 => "Unsupported Media Type"
  | 416 => "Requested range not satisfiable" | 417 => "Expectation Failed"
  | 418 => "I'm a teapot" | 422 => "Unprocessable Entity" | 423 => "Locked"
  | 424 => "Failed Dependency" | 425 => "Unordered Collection" | 426 => "Upgrade Required"
  | 500 => "Internal Server Error" | 501 => "Not Implemented" | 502 => "Bad Gateway"
  | 503 => "Service Unavailable" | 504 => "Gateway Time-out"
  | 505 => "HTTP Version Not Supported" | 506 => "Variant Also Negotiates"
  | 507 => "Insufficient Storage" | 509 => "Bandwidth Limit Exceeded" | 510 => "Not Extended"
  | 511 => "Network Authentication Required"
  | _ => "unknown"

/-- The headers `writeHead` stores: those given to `setHeader` overridden by its argument. -/
def headHeaders (m : OutgoingMessage) (headers : Option HeaderTable) :
    Except LuaError HeaderTable :=
  let obj := headers.getD (.map [])
  match m.headers with
  | none => .ok obj
  | some _ =>
    match m.renderHeaders with
    | .error e => .error e
    | .ok rendered =>
      if obj.isArray then .error "This is deprecated"
      else .ok (.map (obj.entries.foldl (fun t p => assign t p.1 p.2) rendered))

/-- What `writeHead` sets before it stores the header. -/
def prepareHead (m : OutgoingMessage) (statusCode : ℕ) : OutgoingMessage :=
  let m := if bodilessStatus statusCode then { m with hasBody := false } else m
  if m.expectContinue ∧ ¬ m.sent100 then { m with shouldKeepAlive := false } else m

def statusLine (statusCode : ℕ) (reasonPhrase : Option Str) : Str :=
  "HTTP/1.1 ".toList ++ decimal statusCode ++ " ".toList ++
    reasonPhrase.getD (statusPhrase statusCode).toList ++ crlf

/-- `ServerResponse:writeHead`. -/
def writeHead (m : OutgoingMessage) (s : Socket) (statusCode : ℕ) (reasonPhrase : Option Str)
    (headers : Option HeaderTable) : Outcome :=
  let m := { m with statusCode := statusCode }
  match m.headHeaders headers with
  | .error e => ⟨m, s, .error e, false⟩
  | .ok headers =>
    (m.prepareHead statusCode).storeHeader s (statusLine statusCode reasonPhrase) headers

/-- `_implicitHeader` of the two classes. -/
def implicitHeader (m : OutgoingMessage) (s : Socket) : Outcome :=
  match m.kind with
  | .serverResponse => m.writeHead s m.statusCode none none
  | .clientRequest =>
    match m.renderHeaders with
    | .error e => ⟨m, s, .error e, false⟩
    | .ok headers =>
      m.storeHeader s (m.method ++ " ".toList ++ m.path ++ " HTTP/1.1\r\n".toList) (.map headers)

/-- `if not self._header then self:_implicitHeader() end`. -/
def ensureHeader (m : OutgoingMessage) (s : Socket) : Outcome :=
  if m.header = none then m.implicitHeader s else ⟨m, s, .ok none, false⟩

/-! ### The body -/

/-- `write`. -/
def write (m : OutgoingMessage) (s : Socket) (chunk : Chunk) (encoding : Option Str) : Outcome :=
  (m.ensureHeader s).andThen fun m s =>
    if ¬ m.hasBody then ⟨m, s, .ok (some true), false⟩
    else
      match chunk with
      | .other => ⟨m, s, .error "first argument must be a string or Buffer", false⟩
      | .text chunk =>
        if chunk.length = 0 then ⟨m, s, .ok (some false), false⟩
        else if m.chunkedEncoding then
          m.send s (hex chunk.length ++ crlf ++ chunk ++ crlf) encoding
        else m.send s chunk encoding

def addTrailers (m : OutgoingMessage) (s : Socket) (headers : List (Str × Scalar)) : Outcome :=
  ⟨{ m with trailer := headers.flatMap fun p => headerLine p.1 p.2.text }, s, .ok none, false⟩

/-- The condition of the hot path of `finish`. -/
def hot (m : OutgoingMessage) (s : Socket) (data : Str) : Bool :=
  !m.headerSent && decide (0 < data.length) && decide (m.output.length = 0) && m.connection &&
    s.writable && decide (s.httpMessage = some m.id)

/-- The hot path: header, body and end in one write. -/
def finishHot (m : OutgoingMessage) (s : Socket) (data : Str) : Outcome :=
  let header := m.header.getD []
  let w :=
    if m.chunkedEncoding then
      s.write m.id (header ++ hex data.length ++ crlf ++ data ++ "\r\n0\r\n".toList ++ m.trailer ++
        crlf)
    else s.write m.id (header ++ data)
  ⟨{ m with headerSent := true }, w.1, .ok (some w.2), false⟩

/-- The last string of a message that did not take the hot path. -/
def finishCold (m : OutgoingMessage) (s : Socket) : Outcome :=
  if m.chunkedEncoding then m.send s ("0\r\n".toList ++ m.trailer ++ crlf) none
  else m.send s [] none

/-- The data of `finish` and the last string. -/
def finishBody (m : OutgoingMessage) (s : Socket) (data : Option Chunk)
    (encoding : Option Str) : Outcome :=
  match data with
  | none => m.finishCold s
  | some (.text d) =>
    if m.hot s d then m.finishHot s d
    else (m.write s (.text d) encoding).andThen finishCold
  | some .other => (m.write s .other encoding).andThen finishCold

/-- The end of `finish`: `_finish` emits 'finish' once everything went to the socket. -/
def finishEnd (o : Outcome) : Outcome :=
  match o.ret with
  | .error _ => o
  | .ok ret =>
    let m := { o.self with finished := true }
    if m.output.length = 0 then
      if m.connection = false then
        ⟨m, o.socket, .error "attempt to index field 'connection' (a nil value)", false⟩
      else ⟨m, o.socket, .ok ret, decide (o.socket.httpMessage = some m.id)⟩
    else ⟨m, o.socket, .ok ret, false⟩

/-- `finish`. -/
def finish (m : OutgoingMessage) (s : Socket) (data : Option Chunk) (encoding : Option Str) :
    Outcome :=
  if m.finished then ⟨m, s, .ok (some false), false⟩
  else
    (m.ensureHeader s).andThen fun m s =>
      finishEnd (m.finishBody s (if m.hasBody then data else none) encoding)

/-- `_flush`. Its last statement names a variable that does not exist. -/
def flush (m : OutgoingMessage) (s : Socket) : Outcome :=
  if m.connection = false then ⟨m, s, .ok none, false⟩
  else
    let d := m.drain s
    if d.self.output.length > 0 then ⟨d.self, d.socket, .ok none, false⟩
    else if d.self.finished then ⟨d.self, d.socket, .ok none, true⟩
    else if d.ret = some true then
      ⟨d.self, d.socket, .error "attempt to index global 'message' (a nil value)", false⟩
    else ⟨d.self, d.socket, .ok none, false⟩

/-! ### `ServerResponse` and `ClientRequest` -/

/-- `ServerResponse:assignSocket`. -/
def assignSocket (m : OutgoingMessage) (s : Socket) : Outcome :=
  if s.httpMessage.isSome then ⟨m, s, .error "assertion failed!", false⟩
  else { m with connection := true }.flush { s with httpMessage := some m.id }

/-- `ServerResponse:detachSocket`. -/
def detachSocket (m : OutgoingMessage) (s : Socket) : Outcome :=
  if s.httpMessage ≠ some m.id then ⟨m, s, .error "assertion failed!", false⟩
  else ⟨{ m with connection := false }, { s with httpMessage := none }, .ok none, false⟩

/-- `ServerResponse:writeContinue`. -/
def writeContinue (m : OutgoingMessage) (s : Socket) : Outcome :=
  let o := m.writeRaw s "HTTP/1.1 100 Continue\r\n\r\n".toList (some "ascii".toList)
  ⟨{ o.self with sent100 := true }, o.socket, .ok none, false⟩

/-- The tick posted by `ClientRequest:onSocket`, with the flush that `_deferToConnect` runs on
a writable socket; on another one it waits for 'connect'. -/
def onSocket (m : OutgoingMessage) (s : Socket) : Outcome :=
  let m := { m with connection := true }
  let s := { s with httpMessage := some m.id }
  if s.writable then m.flush s else ⟨m, s, .ok none, false⟩

/-- `OutgoingMessage:__init`. -/
def init (id : ℕ) (kind : Kind) (runtime : Runtime) : OutgoingMessage where
  id := id
  kind := kind
  output := []
  outputEncodings := []
  last := false
  chunkedEncoding := false
  shouldKeepAlive := true
  useChunkedEncodingByDefault := true
  sendDate := false
  hasBody := true
  trailer := []
  finished := false
  hangupClose := false
  header := none
  headerSent := false
  headers := none
  connection := false
  statusCode := 200
  expectContinue := false
  sent100 := false
  method := []
  path := []
  runtime := runtime

end OutgoingMessage

/-- What `ServerResponse:__init` and `parser.onIncoming` read of a request. -/
structure IncomingRequest where
  method : Str
  httpVersionMajor : ℕ
  httpVersionMinor : ℕ
  /-- the answer of `http_should_keep_alive` -/
  shouldKeepAlive : Bool
  /-- `req.headers.expect` -/
  expect : Option Str

/-- The test of `onIncoming` for a request that waits for a 100 Continue. -/
def IncomingRequest.expectContinue (req : IncomingRequest) : Bool :=
  match req.expect with
  | none => false
  | some expect => decide (req.httpVersionMajor = 1 ∧ req.httpVersionMinor = 1) &&
      contains "100-continue".toList (lower expect)

/-- `ServerResponse:__init`, and the assignment of `shouldKeepAlive` by `onIncoming`. -/
def serverResponse (id : ℕ) (runtime : Runtime) (req : IncomingRequest) : OutgoingMessage :=
  { OutgoingMessage.init id .serverResponse runtime with
    hasBody := req.method ≠ "HEAD".toList
    sendDate := true
    useChunkedEncodingByDefault := ¬ (req.httpVersionMajor < 1 ∨ req.httpVersionMinor < 1)
    shouldKeepAlive := req.shouldKeepAlive
    statusCode := 200 }

/-- What `ClientRequest:__init` reads of its options, with the defaults filled in. -/
structure RequestOptions where
  method : Str := "GET".toList
  path : Str := "/".toList
  host : Str := "localhost".toList
  port : ℕ := 80
  defaultPort : ℕ := 80
  setHost : Bool := false
  headers : Option HeaderTable := none
  auth : Bool := false
  agent : Bool := true

namespace OutgoingMessage

/-- The calls of `setHeader` in `ClientRequest:__init`. -/
def setHeaders (m : OutgoingMessage) (s : Socket) : List (Str × HeaderValue) → Outcome
  | [] => ⟨m, s, .ok none, false⟩
  | p :: ps => (m.setHeader s p.1 p.2).andThen fun m s => m.setHeaders s ps

/-- `Host`, unless it was given; the option `setHost` switches it off. -/
def setHostHeader (m : OutgoingMessage) (s : Socket) (options : RequestOptions) : Outcome :=
  if (m.getHeader "host".toList).isNone ∧ options.setHost = false then
    m.setHeader s "Host".toList (.one (.str
      (if options.port = options.defaultPort then options.host
      else options.host ++ ":".toList ++ decimal options.port)))
  else ⟨m, s, .ok none, false⟩

/-- The header is stored by the constructor when it was given as a list, or asks for a
100 Continue. -/
def storeEarly (m : OutgoingMessage) (s : Socket) (options : RequestOptions) : Outcome :=
  let firstLine := m.method ++ " ".toList ++ m.path ++ " HTTP/1.1\r\n".toList
  match options.headers with
  | some (.array (e :: es)) => m.storeHeader s firstLine (.array (e :: es))
  | _ =>
    if (m.getHeader "expect".toList).isSome then
      match m.renderHeaders with
      | .error e => ⟨m, s, .error e, false⟩
      | .ok headers => m.storeHeader s firstLine (.map headers)
    else ⟨m, s, .ok none, false⟩

/-- `ClientRequest:__init` up to the point where the request goes to its agent or asks for a
connection of its own. -/
def clientRequest (id : ℕ) (runtime : Runtime) (s : Socket) (options : RequestOptions) :
    Outcome :=
  let method := options.method.map Char.toUpper
  let m := { init id .clientRequest runtime with
    method := method
    path := options.path }
  let given := ((options.headers.map fun t => t.walk runtime).getD [])
  (m.setHeaders s given).andThen fun m s =>
  (m.setHostHeader s options).andThen fun m s =>
  if options.auth ∧ (m.getHeader "Authorization".toList).isNone then
    ⟨m, s, .error "falta implementar la conversion a base64", false⟩
  else
    let m := { m with
      useChunkedEncodingByDefault :=
        !(method = "GET".toList || method = "HEAD".toList || method = "CONNECT".toList) }
    (m.storeEarly s options).andThen fun m s =>
    -- with an agent the connection is kept alive by default, without one it is closed
    ⟨{ m with last := !options.agent, shouldKeepAlive := options.agent }, s, .ok none, false⟩

end OutgoingMessage

end LuaNode
