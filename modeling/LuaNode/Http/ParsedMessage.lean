import LuaNode.HttpParser.Messages
import LuaNode.Http.IncomingMessage

/-!
# The message that is parsed

The callbacks of `luanode_http_parser.cpp` and `http.lua` under `http_parser`: from the bytes of a
connection to the `IncomingMessage` that a server gets.
-/

namespace LuaNode

/-- `method_to_str`: the names of the parser, but for a method without a case and a misspelt one. -/
def methodToStr : HttpMethod → Str
  | .search => "UNKNOWN".toList
  | .unsubscribe => "UNSUSCRIBE".toList
  | m => m.string

/-- What `on_headers_complete` passes on. -/
def HttpParser.info (q : HttpParser) : HeadersInfo where
  request := q.type = .request
  method := methodToStr q.method
  statusCode := q.statusCode
  httpMajor := q.httpMajor
  httpMinor := q.httpMinor
  shouldKeepAlive := q.shouldKeepAlive
  upgrade := q.upgrade

namespace MessageParser

variable {p : MessageParser}

/-- A field or a URL may come in pieces, a value too. -/
theorem step_append (p : MessageParser) (s t : Str) :
    p.step (.url (s ++ t)) = (p.step (.url s)).step (.url t) ∧
    p.step (.headerField (s ++ t)) = (p.step (.headerField s)).step (.headerField t) ∧
    p.step (.headerValue (s ++ t)) = (p.step (.headerValue s)).step (.headerValue t) := by
  refine ⟨?_, ?_, ?_⟩
  · by_cases hs : s = []
    · subst hs
      rfl
    by_cases ht : t = []
    · subst ht
      simp [step, Callback.isEmpty]
    · have hlength : s.length ≠ 0 := by simpa using hs
      by_cases hurl : p.incoming.url.length = 0 <;>
        simp [step, Callback.isEmpty, onURL, hs, ht, hurl]
  · rw [step_headerField, step_headerField, step_headerField]
    by_cases hs : s = []
    · subst hs
      simp
    by_cases ht : t = []
    · subst ht
      simp
    · obtain ⟨f, v, im⟩ := p
      cases f <;> cases v <;> simp [hs, ht, onHeaderField, lower_append]
  · obtain ⟨f, v, im⟩ := p
    cases v <;> simp [step, Callback.isEmpty, onHeaderValue]

/-- A line whose name is not empty: the header before it is added. -/
theorem step_line (hp : p.Even) {l : Str × Str} (hl : l.1 ≠ []) :
    (p.step (.headerField l.1)).step (.headerValue l.2) = ⟨some (lower l.1), some l.2, p.flush⟩ := by
  have hline := run_line hp ⟨[l.1], [l.2], by simpa using hl, by simp⟩
  simpa [HeaderLine.callbacks, HeaderLine.field, HeaderLine.value, run_cons] using hline

/-- The end of a message leaves what its head was. -/
theorem onMessageComplete_head (hfield : p.field = none) (hup : p.incoming.upgrade = some false) :
    ∃ readable pendings emitted ended, p.onMessageComplete.incoming =
      { p.incoming with
        complete := true, readable := readable, pendings := pendings, emitted := emitted,
        endEmitted := ended } := by
  obtain ⟨f, v, im⟩ := p
  obtain rfl : f = none := hfield
  have hgo : ¬ im.upgrade = some true := by
    rw [show im.upgrade = some false from hup]
    decide
  have hnext : (⟨none, v, im⟩ : MessageParser).onMessageComplete.incoming =
      if im.paused ∨ im.pendings.length > 0 then
        { im with complete := true, pendings := im.pendings ++ [.endOfFile] }
      else { im with complete := true, readable := false }.emitEnd := if_neg hgo
  rw [hnext]
  by_cases hwait : im.paused ∨ im.pendings.length > 0
  · rw [if_pos hwait]
    exact ⟨_, _, _, _, rfl⟩
  · rw [if_neg hwait, IncomingMessage.emitEnd]
    by_cases hended : im.endEmitted
    · rw [if_pos hended]
      exact ⟨_, _, _, _, rfl⟩
    · rw [if_neg hended]
      exact ⟨_, _, _, _, rfl⟩

end MessageParser

/-- The callbacks of a parser, with the text of the body. -/
def luaCallbacks : HttpParser.Consumer (MessageParser × Str) where
  data
    | .url, s, x => (x.1.step (.url s), x.2)
    | .headerField, s, x => (x.1.step (.headerField s), x.2)
    | .headerValue, s, x => (x.1.step (.headerValue s), x.2)
    | .body, s, x => (x.1, x.2 ++ s)
  notice
    | .messageBegin, x => (x.1.step .messageBegin, [])
    | .messageComplete, x => (x.1.step .messageComplete, x.2)
    | _, x => x
  headersComplete q x := (x.1.step (.headersComplete q.info), x.2)
  skipBody _ _ := false
  data_append m s t x := by
    obtain ⟨hurl, hfield, hvalue⟩ := x.1.step_append s t
    cases m with
    | url => exact congrArg (·, x.2) hurl
    | headerField => exact congrArg (·, x.2) hfield
    | headerValue => exact congrArg (·, x.2) hvalue
    | body => exact congrArg (x.1, ·) (List.append_assoc ..).symm

theorem luaCallbacks_plain : luaCallbacks.Plain := ⟨fun _ _ _ _ _ _ => rfl, fun _ _ _ _ _ _ => rfl⟩

section Request

open HttpParser

variable {p : MessageParser} (body : Str)

/-- The lines of the headers. -/
theorem luaCallbacks_lines (hp : p.Even) {ls : List (Str × Str)} (hls : ∀ l ∈ ls, IsLine l) :
    ∃ p' : MessageParser, luaCallbacks.lines ls (p, body) = (p', body) ∧ p'.Even ∧
      p'.flush = p.flush.addHeaderLines ls := by
  induction ls generalizing p with
  | nil => exact ⟨p, rfl, hp, rfl⟩
  | cons l ls ih =>
    obtain ⟨hl, hls⟩ := List.forall_mem_cons.mp hls
    obtain ⟨p', hp', heven, hflush⟩ := ih (p := ⟨some (lower l.1), some l.2, p.flush⟩) rfl hls
    refine ⟨p', ?_, heven, hflush⟩
    rw [← hp', ← MessageParser.step_line hp hl.name.ne_nil]
    rfl

theorem luaCallbacks_body {b : Body} (hb : b.trailers = []) :
    luaCallbacks.body b (p, body) = (p, body ++ b.data) := by
  cases b with
  | empty => simp [Consumer.body, Body.data]
  | sized s => rfl
  | chunked ss ls =>
    obtain rfl : ls = [] := hb
    change luaCallbacks.chunks ss (p, body) = (p, body ++ ss.flatten)
    induction ss generalizing body with
    | nil => simp [Consumer.chunks]
    | cons s ss ih =>
      have hrest := ih (body ++ s)
      rw [List.flatten_cons, ← List.append_assoc, ← hrest]
      rfl

/-- The message that a server gets is this request. -/
structure IncomingMessage.IsRequest (im : IncomingMessage) (m : HttpMethod) (url : Str)
    (major minor : Char) (headers : List (Str × Str)) : Prop where
  url : im.url = url
  method : im.method = some (methodToStr m)
  version : im.httpVersion = some (decimal (digit major) ++ ".".toList ++ decimal (digit minor))
  headers : im.headers = (IncomingMessage.init.addHeaderLines headers).headers
  upgrade : im.upgrade = some false
  complete : im.complete = true

/-- What a message comes to for the callbacks. -/
theorem read_request {y : HttpParser × (MessageParser × Str)} {n : ℕ} {m : HttpMethod} {url : Str}
    {d e : Char} {headers : List (Str × Str)} {b : Body} (hb : b.trailers = [])
    (hm : Message.Fits luaCallbacks n y ⟨.request m url d e, headers, b⟩) :
    let r := (Message.read luaCallbacks y ⟨.request m url d e, headers, b⟩).2
    r.1.incoming.IsRequest m url d e headers ∧ r.2 = b.data := by
  set q := Message.head ⟨.request m url d e, headers, b⟩ y.1 with hq
  have hinfo : q.type = .request ∧ q.method = m ∧ q.httpMajor = digit d ∧ q.httpMinor = digit e := by
    obtain ⟨f, k, hlines⟩ := lines_frame (y.1.requested m d e) headers
    have hhead : q = ((y.1.requested m d e).lines headers).headed := rfl
    rw [hhead, hlines]
    exact ⟨hm.type, rfl, rfl, rfl⟩
  obtain ⟨htype, hmethod, hmajor, hminor⟩ := hinfo
  have hbegin : luaCallbacks.firstLine (.request m url d e) y.2 =
      (⟨none, none, { IncomingMessage.init with url := url }⟩, []) := by
    have hne : url ≠ [] := hm.first.1.ne_nil
    simp [Consumer.firstLine, luaCallbacks, MessageParser.step, Callback.isEmpty,
      MessageParser.onMessageBegin, MessageParser.onURL, IncomingMessage.init, hne]
  obtain ⟨p', hlines, heven, hflush⟩ := luaCallbacks_lines []
    (p := ⟨none, none, { IncomingMessage.init with url := url }⟩) rfl hm.headers
  have hfold : p'.flush = { IncomingMessage.init with
      url := url, headers := (IncomingMessage.init.addHeaderLines headers).headers } := by
    have hurl := IncomingMessage.addHeaderLines_headers
      (m := { IncomingMessage.init with url := url }) rfl headers
    rw [hflush, IncomingMessage.addHeaderLines_headers (m := .init) rfl]
    exact hurl
  have hup : (p'.onHeadersComplete q.info).incoming.upgrade = some false :=
    congrArg some hm.upgrade
  obtain ⟨hfield, -⟩ := MessageParser.onHeadersComplete_even heven q.info
  obtain ⟨readable, pendings, emitted, ended, hincoming⟩ :=
    MessageParser.onMessageComplete_head hfield hup
  have hread : (Message.read luaCallbacks y ⟨.request m url d e, headers, b⟩).2 =
      ((p'.onHeadersComplete q.info).onMessageComplete, b.data) := by
    have htold : Message.lineTold luaCallbacks ⟨.request m url d e, headers, b⟩ y.2 = (p', []) := by
      rw [← hlines, ← hbegin]
      rfl
    have hbody := luaCallbacks_body (p := p'.onHeadersComplete q.info) [] hb
    rw [Message.read, htold]
    exact congrArg (luaCallbacks.notice .messageComplete) hbody
  rw [hread]
  refine ⟨?_, rfl⟩
  have hurl : p'.flush.url = url := by rw [hfold]
  have hheaders : p'.flush.headers = (IncomingMessage.init.addHeaderLines headers).headers := by
    rw [hfold]
  have hrequest : q.info.request = true := decide_eq_true htype
  rw [hincoming]
  constructor
  · exact hurl
  · refine (if_pos hrequest).trans ?_
    rw [← hmethod]
    rfl
  · rw [← hmajor, ← hminor]
    rfl
  · exact hheaders
  · exact hup
  · rfl

/-- Whatever has been on the connection before, and however the bytes of it arrive: behind the last
of the requests the server has exactly the message that was sent. -/
theorem request_parsed (x : MessageParser × Str) {ms : List Message} {m : HttpMethod} {url : Str}
    {d e : Char} {headers : List (Str × Str)} {b : Body} (hb : b.trailers = [])
    (hms : Pipelined luaCallbacks 0 (.init .request, x) (ms ++ [Message.mk (.request m url d e) headers b]))
    {ds : List Str} (hds : ∀ d ∈ ds, d ≠ [])
    (hflatten : ds.flatten = (ms ++ [Message.mk (.request m url d e) headers b]).flatMap Message.text) :
    ∃ r, (HttpParser.init .request).feed luaCallbacks.settings x ds = some r ∧
      r.parser.errno = .ok ∧ r.count = ds.flatten.length ∧
      r.user.1.incoming.IsRequest m url d e headers ∧ r.user.2 = b.data := by
  obtain ⟨s, i, hbytes⟩ := bytes_messages luaCallbacks_plain hms .general 0
  rw [← hflatten] at hbytes
  have hfits : (HttpParser.init .request).Fits := init_fits .request
  have hph : ∃ ph, (HttpParser.init .request).InPhase ph := ⟨_, init_inPhase .request⟩
  have hparser := bytes_fits hfits hph hbytes
  refine ⟨_, feed_reads hfits hph hds hbytes, hparser.errno, rfl, ?_⟩
  have hlast := read_request hb (pipelined_last hms)
  rw [List.foldl_append]
  exact hlast

/-- A request whose headers are merged. -/
def cookies : Message :=
  ⟨.request .put ['/', 'a'] '1' '1',
    [("Cookie".toList, ['x']), ("Content-Length".toList, ['2']), ("cookie".toList, ['y'])],
    .sized ['h', 'i']⟩

theorem cookies_pipelined :
    Pipelined luaCallbacks 0 (.init .request, (⟨none, none, .init⟩, [])) ([] ++ [cookies]) := by
  have hfirst : cookies.first.Valid := ⟨by decide, by decide, by decide⟩
  exact ⟨rfl, ⟨hfirst, rfl, by decide, by decide, by decide,
    ⟨by decide, by decide, by decide, by decide, by decide⟩⟩, trivial⟩

theorem request_parsed_cookies :
    ∃ r, (HttpParser.init .request).feed luaCallbacks.settings (⟨none, none, .init⟩, [])
        [cookies.headText, ['h'], ['i']] = some r ∧
      r.parser.errno = .ok ∧ r.count = [cookies.headText, ['h'], ['i']].flatten.length ∧
      r.user.1.incoming.IsRequest .put ['/', 'a'] '1' '1' cookies.headers ∧ r.user.2 = ['h', 'i'] :=
  request_parsed (⟨none, none, .init⟩, []) rfl cookies_pipelined (by decide) (by decide)

end Request

end LuaNode
