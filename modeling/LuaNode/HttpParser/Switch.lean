import LuaNode.HttpParser.Struct

/-!
# The switch of `http_parser_execute`

What one byte does, state by state. The body of a case changes the fields of the parser, sets marks
and runs callbacks, in an order that matters because a callback sees the parser and may end the
call: it is an `Action`, a tree of the macros that it goes through. `goto reexecute_byte` is the
action of the state that was set. In a `STRICT_CHECK` the condition is that of the error.
-/

namespace LuaNode

namespace HttpParser

/-- The four marks, and the callbacks for the data from a mark on. -/
inductive Mark
  | headerField
  | headerValue
  | url
  | body
  deriving DecidableEq

/-- The callbacks without data. -/
inductive Notice
  | messageBegin
  | statusComplete
  | headersComplete
  | messageComplete
  deriving DecidableEq

def Mark.errno : Mark → HttpErrno
  | .headerField => .cbHeaderField
  | .headerValue => .cbHeaderValue
  | .url => .cbUrl
  | .body => .cbBody

def Notice.errno : Notice → HttpErrno
  | .messageBegin => .cbMessageBegin
  | .statusComplete => .cbStatusComplete
  | .headersComplete => .cbHeadersComplete
  | .messageComplete => .cbMessageComplete

inductive Action
  /-- `break` -/
  | next (q : HttpParser)
  /-- `SET_ERRNO(e); goto error` -/
  | error (q : HttpParser) (e : HttpErrno)
  /-- `MARK(m)` -/
  | mark (m : Mark) (andThen : Action)
  /-- `CALLBACK_DATA_(m, p - m_mark + extra, p - data + consumed)` -/
  | data (q : HttpParser) (m : Mark) (extra consumed : ℕ) (andThen : Action)
  /-- `CALLBACK_NOTIFY_(n, p - data + consumed)` -/
  | notify (q : HttpParser) (n : Notice) (consumed : ℕ) (andThen : Action)
  /-- the call of `on_headers_complete`, and what follows when the answer has been stored -/
  | headersComplete (q : HttpParser) (andThen : HttpParser → Action)
  /-- `to_read = MIN(content_length, data + len - p)` and `p += to_read - 1` -/
  | read (q : HttpParser) (andThen : ℕ → Action)
  /-- `p = data + len - 1; break` -/
  | readAll (q : HttpParser)
  /-- `return p - data + consumed` -/
  | ret (q : HttpParser) (consumed : ℕ)
  /-- an assertion fails -/
  | abort

variable (q : HttpParser) (ch : Char)

def withState (s : HttpState) : HttpParser := { q with state := s }

/-- `CALLBACK_DATA(m); break` -/
def callbackData (m : Mark) : Action := .data q m 0 1 (.next q)

/-- `CALLBACK_NOTIFY(n); break` -/
def callbackNotify (n : Notice) : Action := .notify q n 1 (.next q)

/-- `parser->state = NEW_MESSAGE(); CALLBACK_NOTIFY(message_complete)` -/
def complete : Action := (q.withState q.newMessage).callbackNotify .messageComplete

/-- The cases that take one character to a next state: `STRICT_CHECK(ch != c)`. -/
def expect (c : Char) (s : HttpState) : Action :=
  if ch ≠ c then .error q .strict else .next (q.withState s)

/-- The value of a decimal digit. -/
def digit : ℕ := ch.toNat - '0'.toNat

/-! ### The first line -/

def dead : Action := if ch = '\r' ∨ ch = '\n' then .next q else .error q .closedConnection

/-- The start of a message: `flags` and `content_length` are reset. -/
def reset : HttpParser := { q with flags := .none, contentLength := ullongMax }

/-- The method that the first letter stands for, or one that begins with it. -/
def startMethod : Option HttpMethod :=
  if ch = 'C' then some .connect
  else if ch = 'D' then some .delete
  else if ch = 'G' then some .get
  else if ch = 'H' then some .head
  else if ch = 'L' then some .lock
  else if ch = 'M' then some .mkcol
  else if ch = 'N' then some .notify
  else if ch = 'O' then some .options
  else if ch = 'P' then some .post
  else if ch = 'R' then some .report
  else if ch = 'S' then some .subscribe
  else if ch = 'T' then some .trace
  else if ch = 'U' then some .unlock
  else none

def startReq : Action :=
  if ch = '\r' ∨ ch = '\n' then .next q
  else
    let q := q.reset
    if ¬ isAlphaByte ch then .error q .invalidMethod
    else
      let q := { q with method := .delete, index := 1 }
      match startMethod ch with
      | some method =>
        { q with method := method, state := .reqMethod }.callbackNotify .messageBegin
      | none => .error q .invalidMethod

def startReqOrRes : Action :=
  if ch = '\r' ∨ ch = '\n' then .next q
  else
    let q := q.reset
    if ch = 'H' then (q.withState .resOrRespH).callbackNotify .messageBegin
    else startReq { q with type := .request, state := .startReq } ch

def resOrRespH : Action :=
  if ch = 'T' then .next { q with type := .response, state := .resHT }
  else if ch ≠ 'E' then .error q .invalidConstant
  else .next { q with type := .request, method := .head, index := 2, state := .reqMethod }

def startRes : Action :=
  let q := q.reset
  if ch = 'H' then (q.withState .resH).callbackNotify .messageBegin
  else if ch = '\r' ∨ ch = '\n' then q.callbackNotify .messageBegin
  else .error q .invalidConstant

/-- The digits of `http_major`, up to a dot. -/
def httpMajorDigits (dot : HttpState) : Action :=
  if ch = '.' then .next (q.withState dot)
  else if ¬ isNumByte ch then .error q .invalidVersion
  else
    let q := { q with httpMajor := q.httpMajor * 10 + digit ch }
    if q.httpMajor > 999 then .error q .invalidVersion else .next q

def firstHttpMinor (s : HttpState) : Action :=
  if ¬ isNumByte ch then .error q .invalidVersion
  else .next { q with httpMinor := digit ch, state := s }

def httpMinorDigits : Action :=
  if ¬ isNumByte ch then .error q .invalidVersion
  else
    let q := { q with httpMinor := q.httpMinor * 10 + digit ch }
    if q.httpMinor > 999 then .error q .invalidVersion else .next q

def resFirstHttpMajor : Action :=
  if ch < '0' ∨ ch > '9' then .error q .invalidVersion
  else .next { q with httpMajor := digit ch, state := .resHttpMajor }

def resHttpMinor : Action :=
  if ch = ' ' then .next (q.withState .resFirstStatusCode) else q.httpMinorDigits ch

def resFirstStatusCode : Action :=
  if ¬ isNumByte ch then if ch = ' ' then .next q else .error q .invalidStatus
  else .next { q with statusCode := digit ch, state := .resStatusCode }

def resStatusCode : Action :=
  if ¬ isNumByte ch then
    if ch = ' ' then .next (q.withState .resStatus)
    else if ch = '\r' then .next (q.withState .resLineAlmostDone)
    else if ch = '\n' then .next (q.withState .headerFieldStart)
    else .error q .invalidStatus
  else
    let q := { q with statusCode := q.statusCode * 10 + digit ch }
    if q.statusCode > 999 then .error q .invalidStatus else .next q

def resStatus : Action :=
  if ch = '\r' then .next (q.withState .resLineAlmostDone)
  else if ch = '\n' then .next (q.withState .headerFieldStart)
  else .next q

def resLineAlmostDone : Action :=
  if ch ≠ '\n' then .error q .strict
  else (q.withState .headerFieldStart).callbackNotify .statusComplete

/-- The method after a character that its string does not have at this index, if there is one. -/
def otherMethod : Option HttpMethod :=
  if q.method = .connect then
    if q.index = 1 ∧ ch = 'H' then some .checkout
    else if q.index = 2 ∧ ch = 'P' then some .copy
    else none
  else if q.method = .mkcol then
    if q.index = 1 ∧ ch = 'O' then some .move
    else if q.index = 1 ∧ ch = 'E' then some .merge
    else if q.index = 1 ∧ ch = '-' then some .msearch
    else if q.index = 2 ∧ ch = 'A' then some .mkactivity
    else none
  else if q.method = .subscribe then
    if q.index = 1 ∧ ch = 'E' then some .search else none
  else if q.index = 1 ∧ q.method = .post then
    if ch = 'R' then some .propfind
    else if ch = 'U' then some .put
    else if ch = 'A' then some .patch
    else none
  else if q.index = 2 then
    if q.method = .put then if ch = 'R' then some .purge else some q.method
    else if q.method = .unlock then if ch = 'S' then some .unsubscribe else some q.method
    -- no error: any character goes at this index
    else some q.method
  else if q.index = 4 ∧ q.method = .propfind ∧ ch = 'P' then some .proppatch
  else none

/-- Only the last `else` sets an error; the others leave it to the label `error`. -/
def methodErrno : HttpErrno :=
  if q.method = .connect ∨ q.method = .mkcol ∨ q.method = .subscribe then .unknown
  else if q.index = 1 ∧ q.method = .post then .unknown
  else .invalidMethod

def reqMethod : Action :=
  if ch = '\x00' then .error q .invalidMethod
  else if q.index ≤ q.method.string.length then
    if ch = ' ' ∧ q.index = q.method.string.length then
      .next { q with state := .reqSpacesBeforeUrl, index := q.index + 1 }
    else if q.method.string[q.index]? = some ch then .next { q with index := q.index + 1 }
    else
      match q.otherMethod ch with
      | some method => .next { q with method := method, index := q.index + 1 }
      | none => .error q q.methodErrno
  -- read behind the string
  else .abort

/-- A byte of the URL. -/
def urlChar : Action :=
  let q := q.withState (parseUrlChar q.state ch)
  if q.state = .dead then .error q .invalidUrl else .next q

def reqSpacesBeforeUrl : Action :=
  if ch = ' ' then .next q
  else .mark .url (urlChar (if q.method = .connect then q.withState .reqServerStart else q) ch)

/-- The URL up to its host: a blank does not end it. -/
def reqSchema : Action :=
  if ch = ' ' ∨ ch = '\r' ∨ ch = '\n' then .error q .invalidUrl else q.urlChar ch

/-- The rest of the URL. -/
def reqUrl : Action :=
  if ch = ' ' then (q.withState .reqHttpStart).callbackData .url
  else if ch = '\r' ∨ ch = '\n' then
    let q := { q with httpMajor := 0, httpMinor := 9 }
    (q.withState (if ch = '\r' then .reqLineAlmostDone else .headerFieldStart)).callbackData .url
  else q.urlChar ch

def reqHttpStart : Action :=
  if ch = 'H' then .next (q.withState .reqHttpH)
  else if ch = ' ' then .next q
  else .error q .invalidConstant

def reqFirstHttpMajor : Action :=
  if ch < '1' ∨ ch > '9' then .error q .invalidVersion
  else .next { q with httpMajor := digit ch, state := .reqHttpMajor }

def reqHttpMinor : Action :=
  if ch = '\r' then .next (q.withState .reqLineAlmostDone)
  else if ch = '\n' then .next (q.withState .headerFieldStart)
  else q.httpMinorDigits ch

def reqLineAlmostDone : Action :=
  if ch ≠ '\n' then .error q .lfExpected else .next (q.withState .headerFieldStart)

/-! ### The end of the headers -/

/-- `case s_headers_done` -/
def headersDone : Action :=
  if ch ≠ '\n' then .error q .strict
  else
    let q := { q with nread := 0 }
    if q.upgrade then
      .notify (q.withState q.newMessage) .messageComplete 1 (.ret (q.withState q.newMessage) 1)
    else if q.flags.skipBody then q.complete
    else if q.flags.chunked then .next (q.withState .chunkSizeStart)
    else if q.contentLength = 0 then q.complete
    else if q.contentLength ≠ ullongMax then .next (q.withState .bodyIdentity)
    else if q.type = .request ∨ ¬ q.messageNeedsEof then q.complete
    else .next (q.withState .bodyIdentityEof)

/-- `case s_headers_almost_done` -/
def headersAlmostDone : Action :=
  if ch ≠ '\n' then .error q .strict
  else if q.flags.trailing then q.complete
  else
    let upgrade := q.flags.upgrade || decide (q.method = .connect)
    let q := { q with state := .headersDone, upgrade := upgrade }
    .headersComplete q fun q => headersDone q ch

/-! ### A header -/

/-- The header state for the first letter of a field. -/
def startHeaderState (c : Char) : HeaderState :=
  if c = 'c' then .C
  else if c = 'p' then .matchingProxyConnection
  else if c = 't' then .matchingTransferEncoding
  else if c = 'u' then .matchingUpgrade
  else .general

def headerFieldStart : Action :=
  if ch = '\r' then .next (q.withState .headersAlmostDone)
  else if ch = '\n' then headersAlmostDone (q.withState .headersAlmostDone) ch
  else
    match token ch with
    | none => .error q .invalidHeaderToken
    | some c =>
      .mark .headerField
        (.next { q with index := 0, state := .headerField, headerState := startHeaderState c })

/-- One more character of a text that is being matched; `done` is the state when it is the last. -/
def matchText (text : Str) (done : HeaderState) (c : Char) : HttpParser :=
  let q := { q with index := q.index + 1 }
  if q.index > text.length ∨ text[q.index]? ≠ some c then { q with headerState := .general }
  else if q.index = text.length - 1 then { q with headerState := done }
  else q

/-- `CONNECTION` and the others. -/
def connectionText : Str := ['c', 'o', 'n', 'n', 'e', 'c', 't', 'i', 'o', 'n']

def proxyConnectionText : Str := ['p', 'r', 'o', 'x', 'y', '-'] ++ connectionText

def contentLengthText : Str :=
  ['c', 'o', 'n', 't', 'e', 'n', 't', '-', 'l', 'e', 'n', 'g', 't', 'h']

def transferEncodingText : Str :=
  ['t', 'r', 'a', 'n', 's', 'f', 'e', 'r', '-', 'e', 'n', 'c', 'o', 'd', 'i', 'n', 'g']

def upgradeText : Str := ['u', 'p', 'g', 'r', 'a', 'd', 'e']

def chunkedText : Str := ['c', 'h', 'u', 'n', 'k', 'e', 'd']

def keepAliveText : Str := ['k', 'e', 'e', 'p', '-', 'a', 'l', 'i', 'v', 'e']

def closeText : Str := ['c', 'l', 'o', 's', 'e']

/-- `h_C`, `h_CO` and `h_CON`: one more character, and the state after it. -/
def matchStart (s : HeaderState) : HttpParser := { q with index := q.index + 1, headerState := s }

/-- What a character of a token does to the header state in `s_header_field`, none when the state is
none that the switch knows. -/
def matchField (c : Char) : Option HttpParser :=
  match q.headerState with
  | .general => some q
  | .C => some (q.matchStart (if c = 'o' then .CO else .general))
  | .CO => some (q.matchStart (if c = 'n' then .CON else .general))
  | .CON =>
    some (q.matchStart
      (if c = 'n' then .matchingConnection
      else if c = 't' then .matchingContentLength
      else .general))
  | .matchingConnection => some (q.matchText connectionText .connection c)
  | .matchingProxyConnection => some (q.matchText proxyConnectionText .connection c)
  | .matchingContentLength => some (q.matchText contentLengthText .contentLength c)
  | .matchingTransferEncoding => some (q.matchText transferEncodingText .transferEncoding c)
  | .matchingUpgrade => some (q.matchText upgradeText .upgrade c)
  | .connection | .contentLength | .transferEncoding | .upgrade =>
    some (if ch ≠ ' ' then { q with headerState := .general } else q)
  | _ => none

def headerField : Action :=
  match token ch with
  | some c =>
    match q.matchField ch c with
    | some q => .next q
    | none => .abort
  | none =>
    if ch = ':' then (q.withState .headerValueStart).callbackData .headerField
    else if ch = '\r' then (q.withState .headerAlmostDone).callbackData .headerField
    else if ch = '\n' then (q.withState .headerFieldStart).callbackData .headerField
    else .error q .invalidHeaderToken

/-- The header state for the first character of a value, with what else it sets. -/
def startValue : Action :=
  let c := lowerByte ch
  match q.headerState with
  | .upgrade =>
    .next { q with flags := { q.flags with upgrade := true }, headerState := .general }
  | .transferEncoding =>
    .next { q with headerState :=
      if c = 'c' then .matchingTransferEncodingChunked else .general }
  | .contentLength =>
    if ¬ isNumByte ch then .error q .invalidContentLength
    else .next { q with contentLength := digit ch }
  | .connection =>
    .next { q with headerState :=
      if c = 'k' then .matchingConnectionKeepAlive
      else if c = 'c' then .matchingConnectionClose
      else .general }
  | _ => .next { q with headerState := .general }

def headerValueStart : Action :=
  if ch = ' ' ∨ ch = '\t' then .next q
  else
    .mark .headerValue <|
      let q := { q with state := .headerValue, index := 0 }
      if ch = '\r' then
        { q with headerState := .general, state := .headerAlmostDone }.callbackData .headerValue
      else if ch = '\n' then (q.withState .headerFieldStart).callbackData .headerValue
      else q.startValue ch

/-- `case s_header_almost_done` -/
def headerAlmostDone : Action :=
  if ch ≠ '\n' then .error q .strict
  else
    let q := q.withState .headerValueLws
    match q.headerState with
    | .connectionKeepAlive =>
      .next { q with flags := { q.flags with connectionKeepAlive := true } }
    | .connectionClose => .next { q with flags := { q.flags with connectionClose := true } }
    | .transferEncodingChunked => .next { q with flags := { q.flags with chunked := true } }
    | _ => .next q

/-- A digit of a number in a `uint64_t`, which is refused when it is seen to overflow. -/
def moreDigits (base d : ℕ) : Action :=
  let t := (q.contentLength * base + d) % 2 ^ 64
  if t < q.contentLength ∨ t = ullongMax then .error q .invalidContentLength
  else .next { q with contentLength := t }

def matchValue : Action :=
  let c := lowerByte ch
  match q.headerState with
  | .general => .next q
  | .connection | .transferEncoding => .abort
  | .contentLength =>
    if ch = ' ' then .next q
    else if ¬ isNumByte ch then .error q .invalidContentLength
    else q.moreDigits 10 (digit ch)
  | .matchingTransferEncodingChunked => .next (q.matchText chunkedText .transferEncodingChunked c)
  | .matchingConnectionKeepAlive => .next (q.matchText keepAliveText .connectionKeepAlive c)
  | .matchingConnectionClose => .next (q.matchText closeText .connectionClose c)
  | .transferEncodingChunked | .connectionKeepAlive | .connectionClose =>
    .next (if ch ≠ ' ' then { q with headerState := .general } else q)
  | _ => .next { q with state := .headerValue, headerState := .general }

def headerValue : Action :=
  if ch = '\r' then (q.withState .headerAlmostDone).callbackData .headerValue
  else if ch = '\n' then
    let q := q.withState .headerAlmostDone
    .data q .headerValue 0 0 (headerAlmostDone q ch)
  else q.matchValue ch

def headerValueLws : Action :=
  if ch = ' ' ∨ ch = '\t' then .next (q.withState .headerValueStart)
  else headerFieldStart (q.withState .headerFieldStart) ch

/-! ### The body -/

def messageDone : Action := q.complete

/-- The assertion in the cases that read data. -/
def lengthAsserted : Prop := q.contentLength ≠ 0 ∧ q.contentLength ≠ ullongMax

instance : Decidable q.lengthAsserted := inferInstanceAs (Decidable (_ ∧ _))

def identityRead (toRead : ℕ) : Action :=
  let q := { q with contentLength := q.contentLength - toRead }
  if q.contentLength = 0 then
    let q := q.withState .messageDone
    .data q .body 1 0 q.messageDone
  else .next q

def bodyIdentity : Action :=
  if q.lengthAsserted then .mark .body (.read q q.identityRead) else .abort

def bodyIdentityEof : Action := .mark .body (.readAll q)

def chunkSizeStart : Action :=
  if q.nread = 1 ∧ q.flags.chunked then
    match hexValue ch with
    | none => .error q .invalidChunkSize
    | some d => .next { q with contentLength := d, state := .chunkSize }
  else .abort

def chunkSize : Action :=
  if q.flags.chunked then
    if ch = '\r' then .next (q.withState .chunkSizeAlmostDone)
    else
      match hexValue ch with
      | none =>
        if ch = ';' ∨ ch = ' ' then .next (q.withState .chunkParameters)
        else .error q .invalidChunkSize
      | some d => q.moreDigits 16 d
  else .abort

def chunkParameters : Action :=
  if q.flags.chunked then
    if ch = '\r' then .next (q.withState .chunkSizeAlmostDone) else .next q
  else .abort

def chunkSizeAlmostDone : Action :=
  if q.flags.chunked then
    if ch ≠ '\n' then .error q .strict
    else
      let q := { q with nread := 0 }
      if q.contentLength = 0 then
        .next { q with flags := { q.flags with trailing := true }, state := .headerFieldStart }
      else .next (q.withState .chunkData)
  else .abort

def chunkRead (toRead : ℕ) : Action :=
  let q := { q with contentLength := q.contentLength - toRead }
  .next (if q.contentLength = 0 then q.withState .chunkDataAlmostDone else q)

def chunkData : Action :=
  if q.flags.chunked ∧ q.lengthAsserted then .mark .body (.read q q.chunkRead) else .abort

def chunkDataAlmostDone : Action :=
  if q.flags.chunked ∧ q.contentLength = 0 then
    if ch ≠ '\r' then .error q .strict else (q.withState .chunkDataDone).callbackData .body
  else .abort

def chunkDataDone : Action :=
  if q.flags.chunked then
    if ch ≠ '\n' then .error q .strict
    else .next { q with nread := 0, state := .chunkSizeStart }
  else .abort

/-! ### The switch -/

def onByte : Action :=
  match q.state with
  | .dead => q.dead ch
  | .startReqOrRes => q.startReqOrRes ch
  | .resOrRespH => q.resOrRespH ch
  | .startRes => q.startRes ch
  | .resH => q.expect ch 'T' .resHT
  | .resHT => q.expect ch 'T' .resHTT
  | .resHTT => q.expect ch 'P' .resHTTP
  | .resHTTP => q.expect ch '/' .resFirstHttpMajor
  | .resFirstHttpMajor => q.resFirstHttpMajor ch
  | .resHttpMajor => q.httpMajorDigits ch .resFirstHttpMinor
  | .resFirstHttpMinor => q.firstHttpMinor ch .resHttpMinor
  | .resHttpMinor => q.resHttpMinor ch
  | .resFirstStatusCode => q.resFirstStatusCode ch
  | .resStatusCode => q.resStatusCode ch
  | .resStatus => q.resStatus ch
  | .resLineAlmostDone => q.resLineAlmostDone ch
  | .startReq => q.startReq ch
  | .reqMethod => q.reqMethod ch
  | .reqSpacesBeforeUrl => q.reqSpacesBeforeUrl ch
  | .reqSchema | .reqSchemaSlash | .reqSchemaSlashSlash | .reqServerStart => q.reqSchema ch
  | .reqServer | .reqServerWithAt | .reqPath | .reqQueryStringStart | .reqQueryString
  | .reqFragmentStart | .reqFragment => q.reqUrl ch
  | .reqHttpStart => q.reqHttpStart ch
  | .reqHttpH => q.expect ch 'T' .reqHttpHT
  | .reqHttpHT => q.expect ch 'T' .reqHttpHTT
  | .reqHttpHTT => q.expect ch 'P' .reqHttpHTTP
  | .reqHttpHTTP => q.expect ch '/' .reqFirstHttpMajor
  | .reqFirstHttpMajor => q.reqFirstHttpMajor ch
  | .reqHttpMajor => q.httpMajorDigits ch .reqFirstHttpMinor
  | .reqFirstHttpMinor => q.firstHttpMinor ch .reqHttpMinor
  | .reqHttpMinor => q.reqHttpMinor ch
  | .reqLineAlmostDone => q.reqLineAlmostDone ch
  | .headerFieldStart => q.headerFieldStart ch
  | .headerField => q.headerField ch
  | .headerValueStart => q.headerValueStart ch
  | .headerValue => q.headerValue ch
  | .headerValueLws => q.headerValueLws ch
  | .headerAlmostDone => q.headerAlmostDone ch
  | .chunkSizeStart => q.chunkSizeStart ch
  | .chunkSize => q.chunkSize ch
  | .chunkParameters => q.chunkParameters ch
  | .chunkSizeAlmostDone => q.chunkSizeAlmostDone ch
  | .headersAlmostDone => q.headersAlmostDone ch
  | .headersDone => q.headersDone ch
  | .chunkData => q.chunkData
  | .chunkDataAlmostDone => q.chunkDataAlmostDone ch
  | .chunkDataDone => q.chunkDataDone ch
  | .bodyIdentity => q.bodyIdentity
  | .bodyIdentityEof => q.bodyIdentityEof
  | .messageDone => q.messageDone

end HttpParser

end LuaNode
