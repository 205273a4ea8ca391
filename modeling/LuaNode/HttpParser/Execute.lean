import LuaNode.HttpParser.Switch
import Mathlib.Logic.Function.Basic

/-!
# Running the HTTP parser

`http_parser_execute` on a buffer: the loop over its bytes, the marks into it and the calls of
`settings`. A callback that is not set is one that answers 0 and changes nothing. The callbacks see
the parser and do not write to it: the program never pauses a parser. The result is the parser, what
the callbacks work on and the number that is returned, or none when an assertion fails.
-/

namespace LuaNode

namespace HttpParser

/-- `struct http_parser_settings`; the callbacks work on a `σ`. -/
structure Settings (σ : Type*) where
  data : Mark → HttpParser → Str → σ → σ × ℤ
  notify : Notice → HttpParser → σ → σ × ℤ

/-- `http_parser_execute` in its loop. -/
structure Execution (σ : Type*) where
  parser : HttpParser
  user : σ
  p : ℕ
  marks : Mark → Option ℕ

/-- What `http_parser_execute` leaves, and the number of bytes that it returns. -/
structure Parsed (σ : Type*) where
  parser : HttpParser
  user : σ
  count : ℕ

/-- The end of the body of a case. -/
inductive Outcome (σ : Type*)
  | next (x : Execution σ)
  | ret (r : Parsed σ)
  | abort

/-- The bytes from one position up to another. -/
def slice (data : Str) (i j : ℕ) : Str := (data.drop i).take (j - i)

variable {σ : Type*}

namespace Execution

def setMark (x : Execution σ) (m : Mark) : Execution σ :=
  { x with marks := Function.update x.marks m (some ((x.marks m).getD x.p)) }

def clearMark (x : Execution σ) (m : Mark) : Execution σ :=
  { x with marks := Function.update x.marks m none }

end Execution

/-- `HTTP_PARSER_ERRNO(parser) = e` on the way out. -/
def fail (q : HttpParser) (e : HttpErrno) : HttpParser := { q with errno := e }

def Action.run (settings : Settings σ) (data : Str) : Action → Execution σ → Outcome σ
  | .next q, x => .next { x with parser := q }
  | .error q e, x => .ret ⟨q.fail e, x.user, x.p⟩
  | .mark m k, x => k.run settings data (x.setMark m)
  | .data q m extra consumed k, x =>
    if q.errno = .ok then
      match x.marks m with
      | none => k.run settings data x
      | some start =>
        let r := settings.data m q (slice data start (x.p + extra)) x.user
        if r.2 ≠ 0 then .ret ⟨q.fail m.errno, r.1, x.p + consumed⟩
        else k.run settings data ({ x with user := r.1 }.clearMark m)
    else .abort
  | .notify q n consumed k, x =>
    if q.errno = .ok then
      let r := settings.notify n q x.user
      if r.2 ≠ 0 then .ret ⟨q.fail n.errno, r.1, x.p + consumed⟩
      else k.run settings data { x with user := r.1 }
    else .abort
  | .headersComplete q k, x =>
    let r := settings.notify .headersComplete q x.user
    if r.2 = 0 then (k q).run settings data { x with user := r.1 }
    else if r.2 = 1 then
      (k { q with flags := { q.flags with skipBody := true } }).run settings data
        { x with user := r.1 }
    else .ret ⟨q.fail .cbHeadersComplete, r.1, x.p⟩
  | .read q k, x =>
    let toRead := min q.contentLength (data.length - x.p)
    (k toRead).run settings data { x with p := x.p + toRead - 1 }
  | .readAll q, x => .next { x with parser := q, p := data.length - 1 }
  | .ret q consumed, x => .ret ⟨q, x.user, x.p + consumed⟩
  | .abort, _ => .abort

/-- The body of the loop: the header bytes are counted, and then the switch. -/
def readByte (q : HttpParser) (ch : Char) : Action :=
  if q.state.parsingHeader then
    let q := { q with nread := q.nread + 1 }
    if q.nread > httpMaxHeaderSize then .error q .headerOverflow else q.onByte ch
  else q.onByte ch

/-- The callbacks for the marks that are left when the buffer is at its end. -/
def leftOver (q : HttpParser) : Action :=
  .data q .headerField 0 0 <| .data q .headerValue 0 0 <| .data q .url 0 0 <| .data q .body 0 0 <|
    .ret q 0

/-- The mark that is set where a buffer begins. -/
def firstMark : HttpState → Option Mark
  | .headerField => some .headerField
  | .headerValue => some .headerValue
  | .reqPath | .reqSchema | .reqSchemaSlash | .reqSchemaSlashSlash | .reqServerStart | .reqServer
  | .reqServerWithAt | .reqQueryStringStart | .reqQueryString | .reqFragmentStart
  | .reqFragment => some .url
  | _ => none

namespace Execution

variable (settings : Settings σ) (data : Str)

/-- How many marks are set. -/
def markCount (x : Execution σ) : ℕ :=
  ([Mark.headerField, .headerValue, .url, .body].filter fun m => (x.marks m).isSome).length

/-- Behind the loop. -/
def finish (x : Execution σ) : Outcome σ :=
  if x.markCount ≤ 1 then x.parser.leftOver.run settings data x else .abort

/-- One round of the loop, and where it ends the rest of the function. -/
def round (x : Execution σ) : Outcome σ :=
  match data[x.p]? with
  | some ch => (x.parser.readByte ch).run settings data x
  | none => x.finish settings data

/-- The loop, for at most `fuel` rounds: every one takes a byte or more. -/
def loop : ℕ → Execution σ → Option (Parsed σ)
  | 0, _ => none
  | fuel + 1, x =>
    match x.round settings data with
    | .next x => loop fuel { x with p := x.p + 1 }
    | .ret r => some r
    | .abort => none

end Execution

variable (settings : Settings σ)

/-- An empty buffer is the end of the file. -/
def endOfFile (q : HttpParser) (user : σ) : Parsed σ :=
  match q.state with
  | .bodyIdentityEof =>
    let r := settings.notify .messageComplete q user
    if r.2 ≠ 0 then ⟨q.fail .cbMessageComplete, r.1, 0⟩ else ⟨q, r.1, 0⟩
  | .dead | .startReqOrRes | .startRes | .startReq => ⟨q, user, 0⟩
  | _ => ⟨q.fail .invalidEofState, user, 1⟩

/-- Where the loop starts. -/
def enter (q : HttpParser) (user : σ) : Execution σ :=
  ⟨q, user, 0, fun m => if firstMark q.state = some m then some 0 else none⟩

/-- `http_parser_execute`. -/
def execute (q : HttpParser) (user : σ) (data : Str) : Option (Parsed σ) :=
  if q.errno ≠ .ok then some ⟨q, user, 0⟩
  else if data.length = 0 then some (q.endOfFile settings user)
  else (q.enter user).loop settings data (data.length + 1)

/-- What a caller does with the buffers that it receives: it stops at an error, and where the
connection is no longer HTTP. -/
def feed (q : HttpParser) (user : σ) : List Str → Option (Parsed σ)
  | [] => some ⟨q, user, 0⟩
  | d :: ds =>
    match q.execute settings user d with
    | none => none
    | some r =>
      if r.parser.errno ≠ .ok ∨ r.parser.upgrade then some r
      else (feed r.parser r.user ds).map fun s => { s with count := r.count + s.count }

end HttpParser

end LuaNode
