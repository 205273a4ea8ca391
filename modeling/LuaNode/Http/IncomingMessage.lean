import LuaNode.Http.ParserCallbacks
import LuaNode.Library.Runs
import Mathlib.Logic.Function.Basic

/-!
# The incoming message

`IncomingMessage` of `http.lua` and the functions that the parser calls: the headers and trailers
are put together from fragments of fields and values, and merged by their field. What `onIncoming`
does, and the body that it may ask to skip, are not of this module. A table is the function of its
fields.
-/

namespace LuaNode

/-- What `headers[field]` holds: a string, or the array of 'set-cookie'. -/
inductive HeaderEntry
  | text (value : Str)
  | list (values : List Str)
  deriving DecidableEq

abbrev Headers := Str → Option HeaderEntry

/-- What a paused message keeps. -/
inductive Pending
  | chunk (data : Str)
  | endOfFile
  deriving DecidableEq

inductive MessageEvent
  | data (chunk : Str)
  | end
  deriving DecidableEq

structure IncomingMessage where
  url : Str
  httpVersionMajor : Option ℕ
  httpVersionMinor : Option ℕ
  httpVersion : Option Str
  method : Option Str
  statusCode : Option ℕ
  upgrade : Option Bool
  complete : Bool
  headers : Headers
  trailers : Headers
  readable : Bool
  /-- `_paused` -/
  paused : Bool
  /-- `_pendings` -/
  pendings : List Pending
  /-- `_endEmitted` -/
  endEmitted : Bool
  /-- the events 'data' and 'end' that were emitted -/
  emitted : List MessageEvent

namespace Headers

variable (dest : Headers)

def empty : Headers := fun _ => none

/-- `comma_separate`. An array is not concatenated: that raises an error. -/
def commaSeparate (field value : Str) : Headers :=
  match dest field with
  | some (.text header) =>
    Function.update dest field (some (.text (header ++ ", ".toList ++ value)))
  | some (.list _) => dest
  | none => Function.update dest field (some (.text value))

/-- The function for 'set-cookie'. A string is not indexed: that raises an error. -/
def appendValue (field value : Str) : Headers :=
  match dest field with
  | some (.list header) => Function.update dest field (some (.list (header ++ [value])))
  | some (.text _) => dest
  | none => Function.update dest field (some (.list [value]))

def dropDuplicate (field value : Str) : Headers :=
  match dest field with
  | some _ => dest
  | none => Function.update dest field (some (.text value))

/-- The fields that `mappings` has with `comma_separate`. -/
def commaFields : List Str :=
  ["accept", "accept-charset", "accept-encoding", "accept-language", "connection", "cookie",
    "pragma", "link", "www-authenticate", "proxy-authenticate", "sec-websocket-extensions",
    "sec-websocket-protocol"].map String.toList

/-- `_addHeaderLine`, with the table that it has chosen. -/
def addLine (field value : Str) : Headers :=
  if field = "set-cookie".toList then dest.appendValue field value
  else if field ∈ commaFields then dest.commaSeparate field value
  else if "x-".toList.isPrefixOf field then dest.commaSeparate field value
  else dest.dropDuplicate field value

end Headers

namespace IncomingMessage

variable (m : IncomingMessage)

def init : IncomingMessage where
  url := []
  httpVersionMajor := none
  httpVersionMinor := none
  httpVersion := none
  method := none
  statusCode := none
  upgrade := none
  complete := false
  headers := .empty
  trailers := .empty
  readable := true
  paused := false
  pendings := []
  endEmitted := false
  emitted := []

def addHeaderLine (field value : Str) : IncomingMessage :=
  if m.complete then { m with trailers := m.trailers.addLine field value }
  else { m with headers := m.headers.addLine field value }

/-- `_emitData`; no decoder is ever set. -/
def emitData (data : Str) : IncomingMessage := { m with emitted := m.emitted ++ [.data data] }

def emitEnd : IncomingMessage :=
  if m.endEmitted then m else { m with emitted := m.emitted ++ [.end], endEmitted := true }

end IncomingMessage

/-- The Lua object of a parser. -/
structure MessageParser where
  field : Option Str
  value : Option Str
  incoming : IncomingMessage

namespace MessageParser

variable (p : MessageParser)

def onMessageBegin : MessageParser := ⟨none, none, .init⟩

def onURL (data : Str) : MessageParser :=
  { p with incoming := { p.incoming with
      url := if p.incoming.url.length ≠ 0 then p.incoming.url ++ data else data } }

def onHeaderField (data : Str) : MessageParser :=
  let data := lower data
  match p.value, p.field with
  | some value, some field =>
    ⟨some data, none, p.incoming.addHeaderLine field value⟩
  | some _, none => p -- `_addHeaderLine` raises an error
  | none, some field => { p with field := some (field ++ data) }
  | none, none => { p with field := some data }

def onHeaderValue (data : Str) : MessageParser :=
  match p.value with
  | some value => { p with value := some (value ++ data) }
  | none => { p with value := some data }

/-- The header that is in `field` and `value` is added. -/
def flush : IncomingMessage :=
  match p.field, p.value with
  | some field, some value => p.incoming.addHeaderLine field value
  | _, _ => p.incoming

/-- `parserOnHeadersComplete`, up to `onIncoming`. -/
def onHeadersComplete (info : HeadersInfo) : MessageParser :=
  let incoming := p.flush
  let reset := p.field.isSome && p.value.isSome
  { field := if reset then none else p.field
    value := if reset then none else p.value
    incoming := { incoming with
      httpVersionMajor := some info.httpMajor
      httpVersionMinor := some info.httpMinor
      httpVersion := some (decimal info.httpMajor ++ ".".toList ++ decimal info.httpMinor)
      method := if info.request then some info.method else incoming.method
      statusCode := if info.request then incoming.statusCode else some info.statusCode
      upgrade := some info.upgrade } }

def onBody (b : Str) : MessageParser :=
  { p with incoming :=
      if p.incoming.paused ∨ p.incoming.pendings.length > 0 then
        { p.incoming with pendings := p.incoming.pendings ++ [.chunk b] }
      else p.incoming.emitData b }

def onMessageComplete : MessageParser :=
  let p := { p with incoming := { p.incoming with complete := true } }
  let incoming := p.flush
  { p with incoming :=
      if incoming.upgrade = some true then incoming
      else if incoming.paused ∨ incoming.pendings.length > 0 then
        { incoming with pendings := incoming.pendings ++ [.endOfFile] }
      else { incoming with readable := false }.emitEnd }

def step (c : Callback) : MessageParser :=
  if c.isEmpty then p
  else
    match c with
    | .messageBegin => onMessageBegin
    | .url data => p.onURL data
    | .headerField data => p.onHeaderField data
    | .headerValue data => p.onHeaderValue data
    | .headersComplete info => p.onHeadersComplete info
    | .body data => p.onBody data
    | .messageComplete => p.onMessageComplete

end MessageParser

/-! ### Fragments -/

/-- A header as the parser hands it over: its field and its value in one or more fragments. -/
structure HeaderLine where
  fields : List Str
  values : List Str
  field_ne_nil : fields.flatten ≠ []
  values_ne_nil : values ≠ []

namespace HeaderLine

variable (l : HeaderLine)

def field : Str := l.fields.flatten

def value : Str := l.values.flatten

def callbacks : List Callback := l.fields.map .headerField ++ l.values.map .headerValue

end HeaderLine

namespace IncomingMessage

/-- The fold of `_addHeaderLine`. -/
def addHeaderLines (m : IncomingMessage) (pairs : List (Str × Str)) : IncomingMessage :=
  pairs.foldl (fun m p => m.addHeaderLine (lower p.1) p.2) m

@[simp]
theorem addHeaderLines_cons (m : IncomingMessage) (p : Str × Str) (pairs : List (Str × Str)) :
    m.addHeaderLines (p :: pairs) =
      (m.addHeaderLine (lower p.1) p.2).addHeaderLines pairs := rfl

end IncomingMessage

namespace MessageParser

variable {p : MessageParser}

/-- Between two headers: nothing is in `field` and `value`, or a whole header. -/
def Even (p : MessageParser) : Prop := p.field.isSome = p.value.isSome

theorem step_headerField (data : Str) :
    p.step (.headerField data) = if data = [] then p else p.onHeaderField data := by
  unfold step
  by_cases hdata : data = [] <;> simp [Callback.isEmpty, hdata]

/-- A field grows by its fragments. -/
theorem run_fields_append (hvalue : p.value = none) {field : Str} (hfield : p.field = some field)
    (frags : List Str) :
    run step p (frags.map .headerField) =
      { p with field := some (field ++ lower frags.flatten) } := by
  induction frags generalizing p field with
  | nil =>
    obtain ⟨f, v, m⟩ := p
    cases hfield
    simp [lower]
  | cons data frags ih =>
    rw [List.map_cons, run_cons, step_headerField, List.flatten_cons, lower_append]
    split_ifs with hdata
    · rw [ih hvalue hfield, hdata]
      simp [lower]
    · have hstep : p.onHeaderField data = { p with field := some (field ++ lower data) } := by
        simp [onHeaderField, hvalue, hfield]
      rw [hstep, ih (p := { p with field := some (field ++ lower data) }) hvalue rfl]
      simp

/-- The first fragment of a field adds the header before it. -/
theorem run_fields (hp : p.Even) {frags : List Str} (hne : frags.flatten ≠ []) :
    run step p (frags.map .headerField) = ⟨some (lower frags.flatten), none, p.flush⟩ := by
  induction frags with
  | nil => exact absurd rfl hne
  | cons data frags ih =>
    rw [List.map_cons, run_cons, step_headerField]
    split_ifs with hdata
    · subst hdata
      exact ih hne
    · have hstep : p.onHeaderField data = ⟨some (lower data), none, p.flush⟩ := by
        obtain ⟨f, v, m⟩ := p
        cases f <;> cases v <;> simp_all [Even, onHeaderField, flush]
      rw [hstep, run_fields_append rfl rfl, List.flatten_cons, lower_append]

/-- The fragments of a value are put together. -/
theorem run_values (hvalue : p.value = none) {frags : List Str} (hne : frags ≠ []) :
    run step p (frags.map .headerValue) = { p with value := some frags.flatten } := by
  have hmore (value : Str) (frags : List Str) (q : MessageParser) (hq : q.value = some value) :
      run step q (frags.map .headerValue) = { q with value := some (value ++ frags.flatten) } := by
    induction frags generalizing q value with
    | nil =>
      obtain ⟨f, v, m⟩ := q
      cases hq
      simp
    | cons data frags ih =>
      have hstep : q.step (.headerValue data) = { q with value := some (value ++ data) } := by
        simp [step, Callback.isEmpty, onHeaderValue, hq]
      rw [List.map_cons, run_cons, hstep, ih (value ++ data) _ rfl]
      simp
  cases frags with
  | nil => exact absurd rfl hne
  | cons data frags =>
    have hstep : p.step (.headerValue data) = { p with value := some data } := by
      simp [step, Callback.isEmpty, onHeaderValue, hvalue]
    rw [List.map_cons, run_cons, hstep, hmore data frags _ rfl]
    rfl

theorem run_line (hp : p.Even) (l : HeaderLine) :
    run step p l.callbacks = ⟨some (lower l.field), some l.value, p.flush⟩ := by
  rw [HeaderLine.callbacks, run_append, run_fields hp l.field_ne_nil,
    run_values rfl l.values_ne_nil]
  rfl

/-- The fields and values of the headers are added in their order, however they were split; the
last one waits. -/
theorem run_lines (hp : p.Even) (lines : List HeaderLine) :
    (run step p (lines.flatMap HeaderLine.callbacks)).Even ∧
    (run step p (lines.flatMap HeaderLine.callbacks)).flush =
      p.flush.addHeaderLines (lines.map fun l => (l.field, l.value)) := by
  induction lines generalizing p with
  | nil => exact ⟨hp, rfl⟩
  | cons l lines ih =>
    rw [List.flatMap_cons, run_append, run_line hp l]
    exact ih (p := ⟨some (lower l.field), some l.value, p.flush⟩) rfl

theorem run_urls (p : MessageParser) (urls : List Str) :
    ∃ url, run step p (urls.map .url) = { p with incoming := { p.incoming with url := url } } := by
  induction urls generalizing p with
  | nil => exact ⟨p.incoming.url, rfl⟩
  | cons data urls ih =>
    have hstep : ∃ url, p.step (.url data) =
        { p with incoming := { p.incoming with url := url } } := by
      unfold step
      by_cases hdata : data.length = 0
      · exact ⟨p.incoming.url, by simp [Callback.isEmpty, hdata]⟩
      · exact ⟨_, by simp only [Callback.isEmpty, hdata, decide_false]; rfl⟩
    obtain ⟨url, hurl⟩ := hstep
    rw [List.map_cons, run_cons, hurl]
    exact ih _

end MessageParser

namespace Headers

/-- What becomes of a field of a table. -/
def merge (field : Str) (entry : Option HeaderEntry) (value : Str) : Option HeaderEntry :=
  addLine (fun _ => entry) field value field

theorem addLine_eq (dest : Headers) (field value : Str) :
    dest.addLine field value = Function.update dest field (merge field (dest field) value) := by
  unfold merge addLine appendValue commaSeparate dropDuplicate
  split_ifs <;> rcases h : dest field with _ | _ | _ <;> simp [h]

/-- The values that a list of headers has for a field, in their order. -/
def valuesOf (field : Str) (pairs : List (Str × Str)) : List Str :=
  (pairs.filter fun p => lower p.1 = field).map Prod.snd

/-- What a table has for a field depends on the values for that field only. -/
theorem foldl_addLine (pairs : List (Str × Str)) (dest : Headers) (field : Str) :
    pairs.foldl (fun h p => h.addLine (lower p.1) p.2) dest field =
      (valuesOf field pairs).foldl (merge field) (dest field) := by
  induction pairs generalizing dest with
  | nil => rfl
  | cons p pairs ih =>
    rw [List.foldl_cons, ih, addLine_eq]
    by_cases hfield : lower p.1 = field
    · subst hfield
      simp [valuesOf]
    · simp [valuesOf, hfield, Function.update_of_ne (Ne.symm hfield)]

end Headers

namespace IncomingMessage

variable {m : IncomingMessage}

/-- Until the message is complete, its headers get the lines. -/
theorem addHeaderLines_headers (hcomplete : m.complete = false) (pairs : List (Str × Str)) :
    m.addHeaderLines pairs = { m with
      headers := pairs.foldl (fun h p => h.addLine (lower p.1) p.2) m.headers } := by
  induction pairs generalizing m with
  | nil => rfl
  | cons p pairs ih =>
    have hline : m.addHeaderLine (lower p.1) p.2 =
        { m with headers := m.headers.addLine (lower p.1) p.2 } := by
      simp [addHeaderLine, hcomplete]
    rw [addHeaderLines_cons, hline,
      ih (m := { m with headers := m.headers.addLine (lower p.1) p.2 }) hcomplete]
    rfl

end IncomingMessage

namespace MessageParser

/-- The callbacks of a message up to the end of its headers. -/
def headCallbacks (urls : List Str) (lines : List HeaderLine) (info : HeadersInfo) :
    List Callback :=
  .messageBegin :: urls.map .url ++ lines.flatMap HeaderLine.callbacks ++ [.headersComplete info]

theorem onHeadersComplete_even {p : MessageParser} (hp : p.Even) (info : HeadersInfo) :
    (p.onHeadersComplete info).field = none ∧ (p.onHeadersComplete info).value = none := by
  obtain ⟨f, v, m⟩ := p
  cases f <;> cases v <;> simp_all [Even, onHeadersComplete]

/-- After the headers nothing is in `field` and `value`. -/
theorem run_head (p : MessageParser) (urls : List Str) (lines : List HeaderLine)
    (info : HeadersInfo) :
    let q := run step p (headCallbacks urls lines info)
    q.field = none ∧ q.value = none ∧ q.incoming.complete = false ∧
      q.incoming.trailers = .empty ∧ q.incoming.headers =
        (IncomingMessage.init.addHeaderLines (lines.map fun l => (l.field, l.value))).headers := by
  intro q
  obtain ⟨url, hurl⟩ := run_urls ⟨none, none, .init⟩ urls
  have hbegin : run step p (.messageBegin :: urls.map .url) =
      ⟨none, none, { IncomingMessage.init with url := url }⟩ := hurl
  have hq : q = (run step ⟨none, none, { IncomingMessage.init with url := url }⟩
      (lines.flatMap HeaderLine.callbacks)).onHeadersComplete info := by
    unfold q headCallbacks
    rw [run_append, run_append, hbegin]
    rfl
  obtain ⟨heven, hflush⟩ :=
    run_lines (p := ⟨none, none, { IncomingMessage.init with url := url }⟩) rfl lines
  obtain ⟨hfield, hvalue⟩ := onHeadersComplete_even heven info
  have hincoming := IncomingMessage.addHeaderLines_headers
    (m := { IncomingMessage.init with url := url }) rfl (lines.map fun l => (l.field, l.value))
  have hlines := hflush.trans hincoming
  rw [hq, IncomingMessage.addHeaderLines_headers rfl]
  have hcomplete := congrArg IncomingMessage.complete hlines
  have htrailers := congrArg IncomingMessage.trailers hlines
  have hheaders := congrArg IncomingMessage.headers hlines
  exact ⟨hfield, hvalue, hcomplete, htrailers, hheaders⟩

/-- The headers that are there when they are complete do not depend on how the parser got them:
they are those of the whole fields and values, however these were split, and only the order of the
values of one field matters. -/
theorem headers_assembled :
    (∀ (p : MessageParser) (urls : List Str) (lines : List HeaderLine) (info : HeadersInfo),
      (run step p (headCallbacks urls lines info)).incoming.headers =
        (IncomingMessage.init.addHeaderLines (lines.map fun l => (l.field, l.value))).headers) ∧
    ∀ pairs pairs' : List (Str × Str),
      (∀ field, Headers.valuesOf field pairs = Headers.valuesOf field pairs') →
      (IncomingMessage.init.addHeaderLines pairs).headers =
        (IncomingMessage.init.addHeaderLines pairs').headers := by
  refine ⟨fun p urls lines info => (p.run_head urls lines info).2.2.2.2, fun pairs pairs' h => ?_⟩
  rw [IncomingMessage.addHeaderLines_headers rfl, IncomingMessage.addHeaderLines_headers rfl]
  funext field
  dsimp only
  rw [Headers.foldl_addLine, Headers.foldl_addLine, h field]

end MessageParser

end LuaNode
