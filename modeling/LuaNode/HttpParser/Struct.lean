import LuaNode.Library.Text

/-!
# The state of the HTTP parser

The types, tables and character classes of `deps/http-parser`, as they are compiled into the
program: `HTTP_PARSER_STRICT` is 1, the default of `http_parser.h`. A byte is a character, the bit
field `flags` is a record, and `parse_url_char` and the two predicates on a message's end are here.
What only a pausing or a URL-splitting caller needs is left out: the program is neither.
-/

namespace LuaNode

/-- `enum http_errno`, without the values that nothing sets. -/
inductive HttpErrno
  | ok
  | cbMessageBegin
  | cbStatusComplete
  | cbUrl
  | cbHeaderField
  | cbHeaderValue
  | cbHeadersComplete
  | cbBody
  | cbMessageComplete
  | invalidEofState
  | headerOverflow
  | closedConnection
  | invalidVersion
  | invalidStatus
  | invalidMethod
  | invalidUrl
  | lfExpected
  | invalidHeaderToken
  | invalidContentLength
  | invalidChunkSize
  | invalidConstant
  | strict
  | unknown
  deriving DecidableEq

/-- `enum http_method`. -/
inductive HttpMethod
  | delete | get | head | post | put
  | connect | options | trace
  | copy | lock | mkcol | move | propfind | proppatch | search | unlock
  | report | mkactivity | checkout | merge
  | msearch | notify | subscribe | unsubscribe
  | patch | purge
  deriving DecidableEq

/-- `method_strings`. -/
def HttpMethod.string : HttpMethod → Str
  | .delete => ['D', 'E', 'L', 'E', 'T', 'E']
  | .get => ['G', 'E', 'T']
  | .head => ['H', 'E', 'A', 'D']
  | .post => ['P', 'O', 'S', 'T']
  | .put => ['P', 'U', 'T']
  | .connect => ['C', 'O', 'N', 'N', 'E', 'C', 'T']
  | .options => ['O', 'P', 'T', 'I', 'O', 'N', 'S']
  | .trace => ['T', 'R', 'A', 'C', 'E']
  | .copy => ['C', 'O', 'P', 'Y']
  | .lock => ['L', 'O', 'C', 'K']
  | .mkcol => ['M', 'K', 'C', 'O', 'L']
  | .move => ['M', 'O', 'V', 'E']
  | .propfind => ['P', 'R', 'O', 'P', 'F', 'I', 'N', 'D']
  | .proppatch => ['P', 'R', 'O', 'P', 'P', 'A', 'T', 'C', 'H']
  | .search => ['S', 'E', 'A', 'R', 'C', 'H']
  | .unlock => ['U', 'N', 'L', 'O', 'C', 'K']
  | .report => ['R', 'E', 'P', 'O', 'R', 'T']
  | .mkactivity => ['M', 'K', 'A', 'C', 'T', 'I', 'V', 'I', 'T', 'Y']
  | .checkout => ['C', 'H', 'E', 'C', 'K', 'O', 'U', 'T']
  | .merge => ['M', 'E', 'R', 'G', 'E']
  | .msearch => ['M', '-', 'S', 'E', 'A', 'R', 'C', 'H']
  | .notify => ['N', 'O', 'T', 'I', 'F', 'Y']
  | .subscribe => ['S', 'U', 'B', 'S', 'C', 'R', 'I', 'B', 'E']
  | .unsubscribe => ['U', 'N', 'S', 'U', 'B', 'S', 'C', 'R', 'I', 'B', 'E']
  | .patch => ['P', 'A', 'T', 'C', 'H']
  | .purge => ['P', 'U', 'R', 'G', 'E']

/-- `enum http_parser_type`. -/
inductive HttpParserType
  | request
  | response
  | both
  deriving DecidableEq

/-- `enum flags`. -/
structure HttpFlags where
  chunked : Bool
  connectionKeepAlive : Bool
  connectionClose : Bool
  trailing : Bool
  upgrade : Bool
  skipBody : Bool
  deriving DecidableEq

/-- `flags = 0`. -/
def HttpFlags.none : HttpFlags := ⟨false, false, false, false, false, false⟩

/-- `enum state`. -/
inductive HttpState
  | dead
  | startReqOrRes
  | resOrRespH
  | startRes
  | resH
  | resHT
  | resHTT
  | resHTTP
  | resFirstHttpMajor
  | resHttpMajor
  | resFirstHttpMinor
  | resHttpMinor
  | resFirstStatusCode
  | resStatusCode
  | resStatus
  | resLineAlmostDone
  | startReq
  | reqMethod
  | reqSpacesBeforeUrl
  | reqSchema
  | reqSchemaSlash
  | reqSchemaSlashSlash
  | reqServerStart
  | reqServer
  | reqServerWithAt
  | reqPath
  | reqQueryStringStart
  | reqQueryString
  | reqFragmentStart
  | reqFragment
  | reqHttpStart
  | reqHttpH
  | reqHttpHT
  | reqHttpHTT
  | reqHttpHTTP
  | reqFirstHttpMajor
  | reqHttpMajor
  | reqFirstHttpMinor
  | reqHttpMinor
  | reqLineAlmostDone
  | headerFieldStart
  | headerField
  | headerValueStart
  | headerValue
  | headerValueLws
  | headerAlmostDone
  | chunkSizeStart
  | chunkSize
  | chunkParameters
  | chunkSizeAlmostDone
  | headersAlmostDone
  | headersDone
  | chunkData
  | chunkDataAlmostDone
  | chunkDataDone
  | bodyIdentity
  | bodyIdentityEof
  | messageDone
  deriving DecidableEq

/-- `PARSING_HEADER(state)`: all states up to `s_headers_done`. -/
def HttpState.parsingHeader : HttpState → Bool
  | .chunkData | .chunkDataAlmostDone | .chunkDataDone | .bodyIdentity | .bodyIdentityEof
  | .messageDone => false
  | _ => true

/-- `enum header_states`. -/
inductive HeaderState
  | general
  | C
  | CO
  | CON
  | matchingConnection
  | matchingProxyConnection
  | matchingContentLength
  | matchingTransferEncoding
  | matchingUpgrade
  | connection
  | contentLength
  | transferEncoding
  | upgrade
  | matchingTransferEncodingChunked
  | matchingConnectionKeepAlive
  | matchingConnectionClose
  | transferEncodingChunked
  | connectionKeepAlive
  | connectionClose
  deriving DecidableEq

/-- `struct http_parser`. -/
structure HttpParser where
  type : HttpParserType
  flags : HttpFlags
  state : HttpState
  headerState : HeaderState
  index : ℕ
  nread : ℕ
  /-- a `uint64_t` -/
  contentLength : ℕ
  httpMajor : ℕ
  httpMinor : ℕ
  statusCode : ℕ
  method : HttpMethod
  errno : HttpErrno
  upgrade : Bool
  deriving DecidableEq

/-- `HTTP_MAX_HEADER_SIZE`. -/
def httpMaxHeaderSize : ℕ := 80 * 1024

/-- `ULLONG_MAX`. -/
def ullongMax : ℕ := 2 ^ 64 - 1

/-- `http_parser_init`; the fields that `memset` clears are those of the enumerations' zeros. -/
def HttpParser.init (type : HttpParserType) : HttpParser where
  type := type
  flags := .none
  state :=
    match type with
    | .request => .startReq
    | .response => .startRes
    | .both => .startReqOrRes
  headerState := .general
  index := 0
  nread := 0
  contentLength := 0
  httpMajor := 0
  httpMinor := 0
  statusCode := 0
  method := .delete
  errno := .ok
  upgrade := false

/-! ### Character classes -/

namespace HttpParser

/-- `LOWER(c)`. -/
def lowerByte (c : Char) : Char := Char.ofNat (c.toNat ||| 0x20)

def isAlphaByte (c : Char) : Bool := decide ('a' ≤ lowerByte c ∧ lowerByte c ≤ 'z')

def isNumByte (c : Char) : Bool := decide ('0' ≤ c ∧ c ≤ '9')

def isMark (c : Char) : Bool :=
  c ∈ ['-', '_', '.', '!', '~', '*', '\'', '(', ')']

def isUserinfoChar (c : Char) : Bool :=
  isAlphaByte c || isNumByte c || isMark c || c ∈ ['%', ';', ':', '&', '=', '+', '$', ',']

/-- `IS_URL_CHAR(c)`, by the table `normal_url_char`. -/
def isUrlChar (c : Char) : Bool := decide (33 ≤ c.toNat ∧ c.toNat ≤ 126 ∧ c ≠ '#' ∧ c ≠ '?')

/-- `TOKEN(c)`, by the table `tokens`: it lowers the case of letters, and has a zero for a character
that is in no token. -/
def token (c : Char) : Option Char :=
  if 'A' ≤ c ∧ c ≤ 'Z' then some (lowerByte c)
  else if 'a' ≤ c ∧ c ≤ 'z' then some c
  else if '0' ≤ c ∧ c ≤ '9' then some c
  else if c ∈ ['!', '#', '$', '%', '&', '\'', '*', '+', '-', '.', '^', '_', '`', '|', '~'] then some c
  else none

/-! ### The URL -/

/-- `parse_url_char`. -/
def parseUrlChar (s : HttpState) (ch : Char) : HttpState :=
  if ch = ' ' ∨ ch = '\r' ∨ ch = '\n' then .dead
  else if ch = '\t' ∨ ch = '\x0c' then .dead
  else
    match s with
    | .reqSpacesBeforeUrl =>
      if ch = '/' ∨ ch = '*' then .reqPath
      else if isAlphaByte ch then .reqSchema
      else .dead
    | .reqSchema =>
      if isAlphaByte ch then .reqSchema
      else if ch = ':' then .reqSchemaSlash
      else .dead
    | .reqSchemaSlash => if ch = '/' then .reqSchemaSlashSlash else .dead
    | .reqSchemaSlashSlash => if ch = '/' then .reqServerStart else .dead
    | .reqServerWithAt => if ch = '@' then .dead else server
    | .reqServerStart => server
    | .reqServer => server
    | .reqPath =>
      if isUrlChar ch then .reqPath
      else if ch = '?' then .reqQueryStringStart
      else if ch = '#' then .reqFragmentStart
      else .dead
    | .reqQueryStringStart => queryString
    | .reqQueryString => queryString
    | .reqFragmentStart =>
      if isUrlChar ch then .reqFragment
      else if ch = '?' then .reqFragment
      else if ch = '#' then .reqFragmentStart
      else .dead
    | .reqFragment => if isUrlChar ch ∨ ch = '?' ∨ ch = '#' then .reqFragment else .dead
    | _ => .dead
where
  /-- the cases of `s_req_server` -/
  server : HttpState :=
    if ch = '/' then .reqPath
    else if ch = '?' then .reqQueryStringStart
    else if ch = '@' then .reqServerWithAt
    else if isUserinfoChar ch ∨ ch = '[' ∨ ch = ']' then .reqServer
    else .dead
  /-- the cases of `s_req_query_string` -/
  queryString : HttpState :=
    if isUrlChar ch then .reqQueryString
    else if ch = '?' then .reqQueryString
    else if ch = '#' then .reqFragmentStart
    else .dead

/-! ### The end of a message -/

variable (q : HttpParser)

/-- `http_message_needs_eof`. -/
def messageNeedsEof : Bool :=
  if q.type = .request then false
  else if q.statusCode / 100 = 1 ∨ q.statusCode = 204 ∨ q.statusCode = 304 ∨ q.flags.skipBody then
    false
  else if q.flags.chunked ∨ q.contentLength ≠ ullongMax then false
  else true

/-- `http_should_keep_alive`. -/
def shouldKeepAlive : Bool :=
  if q.httpMajor > 0 ∧ q.httpMinor > 0 then
    if q.flags.connectionClose then false else !q.messageNeedsEof
  else if ¬ q.flags.connectionKeepAlive then false
  else !q.messageNeedsEof

/-- `start_state`. -/
def startState : HttpState := if q.type = .request then .startReq else .startRes

/-- `NEW_MESSAGE()`. -/
def newMessage : HttpState := if q.shouldKeepAlive then q.startState else .dead

end HttpParser

end LuaNode
