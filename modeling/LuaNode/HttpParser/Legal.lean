import LuaNode.HttpParser.Execute

/-!
# What a byte may do

One account of the switch from which the results about runs follow. `HttpParser.Fits` is the
invariant of the parser between two bytes: every assertion of the switch is a consequence of it.
`Phase` is how far the callbacks have told a message. `Action.Legal` says of the tree of a byte
that it fails no assertion, that its callbacks come in their order and while no mark is set, and
that a round ends in a parser that fits again.
-/

namespace LuaNode

namespace HttpState

/-- The states that read data, with the one that has read it. -/
def readsBody : HttpState → Bool
  | .chunkData | .chunkDataAlmostDone | .bodyIdentity | .bodyIdentityEof => true
  | _ => false

end HttpState

/-- The text that a state matches. -/
def HeaderState.text : HeaderState → Str
  | .matchingConnection => HttpParser.connectionText
  | .matchingProxyConnection => HttpParser.proxyConnectionText
  | .matchingContentLength => HttpParser.contentLengthText
  | .matchingTransferEncoding => HttpParser.transferEncodingText
  | .matchingUpgrade => HttpParser.upgradeText
  | .matchingTransferEncodingChunked => HttpParser.chunkedText
  | .matchingConnectionKeepAlive => HttpParser.keepAliveText
  | .matchingConnectionClose => HttpParser.closeText
  | _ => []

namespace HttpParser

/-! ### The order of the callbacks -/

inductive Phase
  | idle
  | begun
  | line
  | field
  | value
  | body
  | trailerField
  | trailerValue
  deriving DecidableEq

namespace Phase

/-- A field or a value may come in several calls, a field without a value, and after its end a value
may go on. -/
def data : Phase → Mark → Option Phase
  | .begun, .url | .line, .url => some .line
  | .begun, .headerField | .line, .headerField | .field, .headerField | .value, .headerField =>
    some .field
  | .field, .headerValue | .value, .headerValue => some .value
  | .body, .body => some .body
  | .body, .headerField | .trailerField, .headerField | .trailerValue, .headerField =>
    some .trailerField
  | .trailerField, .headerValue | .trailerValue, .headerValue => some .trailerValue
  | _, _ => none

/-- A response may begin more than once. -/
def notice : Phase → Notice → Option Phase
  | .idle, .messageBegin | .begun, .messageBegin => some .begun
  | .begun, .statusComplete => some .line
  | .begun, .headersComplete | .line, .headersComplete | .field, .headersComplete
  | .value, .headersComplete => some .body
  | .body, .messageComplete | .trailerField, .messageComplete | .trailerValue, .messageComplete =>
    some .idle
  | _, _ => none

end Phase

/-! ### The parser between two bytes -/

variable (q : HttpParser)

/-- `header_state` and `index` in `s_header_field`. -/
def FieldFits : Prop :=
  match q.headerState with
  | .C => q.index = 0
  | .CO => q.index = 1
  | .CON => q.index = 2
  | .matchingConnection | .matchingProxyConnection | .matchingContentLength
  | .matchingTransferEncoding | .matchingUpgrade => q.index + 1 < q.headerState.text.length
  | .general | .connection | .contentLength | .transferEncoding | .upgrade => True
  | _ => False

/-- The same in `s_header_value`. -/
def ValueFits : Prop :=
  match q.headerState with
  | .matchingTransferEncodingChunked | .matchingConnectionKeepAlive
  | .matchingConnectionClose => q.index + 1 < q.headerState.text.length
  | .general | .contentLength | .transferEncodingChunked | .connectionKeepAlive
  | .connectionClose => True
  | _ => False

/-- What a state says about the other fields. -/
def StateFits : Prop :=
  match q.state with
  | .reqMethod => q.index ≤ q.method.string.length
  | .headerField => q.FieldFits
  | .headerValue => q.ValueFits
  | .chunkSizeStart => q.nread = 0 ∧ q.flags.chunked = true
  | .chunkSize | .chunkParameters | .chunkSizeAlmostDone =>
    q.flags.chunked = true ∧ q.contentLength ≠ ullongMax
  | .chunkData => q.flags.chunked = true ∧ q.lengthAsserted
  | .chunkDataAlmostDone => q.flags.chunked = true ∧ q.contentLength = 0
  | .chunkDataDone => q.flags.chunked = true
  | .bodyIdentity => q.lengthAsserted
  | .headersDone | .messageDone => False
  | _ => True

/-- The fields are within their C types, and the headers within their limit. -/
structure Bounded : Prop where
  errno : q.errno = .ok
  nread : q.nread ≤ httpMaxHeaderSize
  contentLength : q.contentLength ≤ ullongMax
  httpMajor : q.httpMajor ≤ 999
  httpMinor : q.httpMinor ≤ 999
  statusCode : q.statusCode ≤ 999
  index : q.index ≤ 255

/-- So it is, and the connection has not been upgraded. -/
structure Ready : Prop extends q.Bounded where
  upgrade : q.upgrade = false

structure Fits : Prop extends q.Ready where
  state : q.StateFits

/-- The phases in which a line of the headers or of the trailers begins. -/
def BeforeLine (ph : Phase) : Prop :=
  if q.flags.trailing then ph = .body ∨ ph = .trailerField ∨ ph = .trailerValue
  else ph = .begun ∨ ph = .line ∨ ph = .field ∨ ph = .value

/-- Those in which a line goes on behind its field. -/
def InLine (ph : Phase) : Prop :=
  if q.flags.trailing then ph = .trailerField ∨ ph = .trailerValue else ph = .field ∨ ph = .value

/-- The phases in which the parser may be in a state. -/
def InPhase (ph : Phase) : Prop :=
  match q.state with
  | .dead | .startReqOrRes | .startReq => ph = .idle
  | .startRes => ph = .idle ∨ ph = .begun
  | .resOrRespH | .resH | .resHT | .resHTT | .resHTTP | .resFirstHttpMajor | .resHttpMajor
  | .resFirstHttpMinor | .resHttpMinor | .resFirstStatusCode | .resStatusCode | .resStatus
  | .resLineAlmostDone | .reqMethod | .reqSpacesBeforeUrl =>
    ph = .begun ∧ q.flags.trailing = false
  | .reqSchema | .reqSchemaSlash | .reqSchemaSlashSlash | .reqServerStart | .reqServer
  | .reqServerWithAt | .reqPath | .reqQueryStringStart | .reqQueryString | .reqFragmentStart
  | .reqFragment => (ph = .begun ∨ ph = .line) ∧ q.flags.trailing = false
  | .reqHttpStart | .reqHttpH | .reqHttpHT | .reqHttpHTT | .reqHttpHTTP | .reqFirstHttpMajor
  | .reqHttpMajor | .reqFirstHttpMinor | .reqHttpMinor | .reqLineAlmostDone =>
    ph = .line ∧ q.flags.trailing = false
  | .headerFieldStart | .headerField | .headersAlmostDone => q.BeforeLine ph
  | .headerValueStart | .headerValue | .headerValueLws | .headerAlmostDone => q.InLine ph
  | .chunkSizeStart | .chunkSize | .chunkParameters | .chunkSizeAlmostDone | .chunkData
  | .chunkDataAlmostDone | .chunkDataDone | .bodyIdentity | .bodyIdentityEof => ph = .body
  | .headersDone | .messageDone => False

/-! ### Marks -/

/-- The mark that is set: a mark of a buffer that has gone on to another state is loose. -/
inductive Holding
  | clear
  | marked (m : Mark)
  | loose (m : Mark)
  deriving DecidableEq

namespace Holding

/-- What is held at the start of a round. -/
def Starts (s : HttpState) : Holding → Prop
  | .clear => HttpParser.firstMark s = none
  | .marked m => HttpParser.firstMark s = some m
  | .loose m => m = .body ∧ s.readsBody = true

/-- What is held at the end of a round: it is held at the start of the next one. -/
def Ends (s : HttpState) : Holding → Prop
  | .clear => HttpParser.firstMark s = none
  | .marked m => HttpParser.firstMark s = some m ∨ m = .body ∧ s.readsBody = true
  | .loose _ => False

end Holding

/-- A read of `r` bytes is a read of one byte and, in the next round, of the others. -/
def Divides (q : HttpParser) (k : ℕ → Action) (r : ℕ) : Prop :=
  ∃ q' k', k 1 = .next q' ∧ q'.contentLength = q.contentLength - 1 ∧
    (∀ ch, q'.readByte ch = .mark .body (.read q' k')) ∧ k' (r - 1) = k r

namespace Action

/-- What an action may do when a mark is held in a phase of the message. -/
def Legal : Action → Holding → Phase → Prop
  | .next q, h, ph => q.Fits ∧ h.Ends q.state ∧ q.InPhase ph
  | .error _ e, _, _ => e ≠ .ok
  | .mark m k, h, ph =>
    (h = .clear ∨ h = .marked m ∨ h = .loose m) ∧ k.Legal (.marked m) ph
  | .data q m extra consumed k, h, ph =>
    q.errno = .ok ∧ consumed ≤ 1 ∧
    match h with
    | .clear => k.Legal .clear ph
    | .marked m' => m' = m ∧ extra ≤ 1 ∧ ∃ ph', ph.data m = some ph' ∧ k.Legal .clear ph'
    | .loose m' => m' = m ∧ extra = 0 ∧ ∃ ph', ph.data m = some ph' ∧ k.Legal .clear ph'
  | .notify q n consumed k, h, ph =>
    n ≠ .headersComplete ∧ q.errno = .ok ∧ consumed ≤ 1 ∧ h = .clear ∧
      ∃ ph', ph.notice n = some ph' ∧ k.Legal .clear ph'
  | .headersComplete q k, h, ph =>
    q.errno = .ok ∧ h = .clear ∧ ∃ ph', ph.notice .headersComplete = some ph' ∧
      (k q).Legal .clear ph' ∧
      (k { q with flags := { q.flags with skipBody := true } }).Legal .clear ph'
  | .read q k, h, ph =>
    0 < q.contentLength ∧ h = .marked .body ∧
    ∀ r, 0 < r → r ≤ q.contentLength → (k r).Legal h ph ∧ (1 < r → q.Divides k r)
  | .readAll q, h, ph =>
    h = .marked .body ∧ (∀ ch, q.readByte ch = .mark .body (.readAll q)) ∧
    q.Fits ∧ h.Ends q.state ∧ q.InPhase ph
  | .ret q consumed, h, ph =>
    q.Bounded ∧ consumed = 1 ∧ h = .clear ∧ q.upgrade = true ∧ ph = .idle
  | .abort, _, _ => False

end Action

end HttpParser

end LuaNode
