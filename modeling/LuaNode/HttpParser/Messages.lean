import LuaNode.HttpParser.Bodies
import LuaNode.HttpParser.FirstLine

/-!
# Messages

Whole messages, one behind the other on a connection: what the parser tells its callbacks of them
and in which state it is then. `messages_read` says so of every list of messages and of every way
in which their bytes arrive.
-/

namespace LuaNode

namespace HttpParser

variable {σ : Type*} {c : Consumer σ} {q : HttpParser} {u : σ}

/-- The first line of a message. -/
inductive FirstLine
  | request (m : HttpMethod) (url : Str) (major minor : Char)
  | response (major minor : Char) (code reason : Str)

namespace FirstLine

def text : FirstLine → Str
  | request m t d e => requestLine m t d e
  | response d e code reason => statusLine d e code reason

def type : FirstLine → HttpParserType
  | request .. => .request
  | response .. => .response

def Valid : FirstLine → Prop
  | request m t d e => ValidUrl m t ∧ ('1' ≤ d ∧ d ≤ '9') ∧ isNumByte e = true
  | response d e code reason => isNumByte d = true ∧ isNumByte e = true ∧
    (∀ ch ∈ code, isNumByte ch = true) ∧ code ≠ [] ∧ Nat.ofDigitChars 10 code 0 ≤ 999 ∧
    ∀ ch ∈ reason, ch ≠ '\r' ∧ ch ≠ '\n'

end FirstLine

/-- The parser behind the first line. -/
def firstLine (q : HttpParser) : FirstLine → HttpParser
  | .request m _ d e => q.requested m d e
  | .response d e code _ => q.answered d e (Nat.ofDigitChars 10 code 0)

def Consumer.firstLine (c : Consumer σ) (l : FirstLine) (u : σ) : σ :=
  match l with
  | .request _ t _ _ => c.data .url t (c.notice .messageBegin u)
  | .response .. => c.notice .statusComplete (c.notice .messageBegin u)

theorem bytes_firstLine {l : FirstLine} (hl : l.Valid) (htype : q.type = l.type)
    (hs : q.state = q.startState) {n : ℕ} (hn : n + l.text.length ≤ httpMaxHeaderSize) :
    c.bytes l.text ({ q with nread := n }, u) =
      .ok ({ q.firstLine l with nread := n + l.text.length }, c.firstLine l u) := by
  cases l with
  | request m t d e =>
    obtain ⟨ht, hd, he⟩ := hl
    exact bytes_requestLine (hs.trans (if_pos htype)) ht hd he hn
  | response d e code reason =>
    obtain ⟨hd, he, hcode, hne, hle, hreason⟩ := hl
    have hstart : q.state = .startRes := by
      rw [hs, startState, htype]
      rfl
    exact bytes_statusLine hstart hd he hcode hne hle hreason hn

/-! ### Fields that only a line in progress needs -/

section Scratch

variable (q) (state : HttpState) (s : HeaderState) (i n : ℕ)

theorem firstLine_scratch (l : FirstLine) :
    ∃ j, (q.scratch state s i n).firstLine l = (q.firstLine l).scratch .headerFieldStart s j n := by
  cases l <;> exact ⟨_, rfl⟩

theorem answer_scratch (skip : Bool) :
    (q.scratch state s i n).answer skip = (q.answer skip).scratch state s i n := by
  cases skip <;> rfl

theorem announced_scratch (b : Body) : b.Announced (q.scratch state s i n) ↔ b.Announced q := by
  cases b <;> rfl

theorem bodied_scratch (b : Body) :
    (q.scratch state s i n).bodied b = (q.bodied b).scratch state s i n := by
  cases b with
  | empty => rfl
  | sized => rfl
  | chunked ss ls =>
    exact lines_scratch { q with contentLength := 0, flags := { q.flags with trailing := true } }
      state s i n ls

end Scratch

/-- Callbacks that do not look at these fields. -/
structure Consumer.Plain (c : Consumer σ) : Prop where
  headersComplete (q : HttpParser) (state : HttpState) (s : HeaderState) (i n : ℕ) (u : σ) :
    c.headersComplete (q.scratch state s i n) u = c.headersComplete q u
  skipBody (q : HttpParser) (state : HttpState) (s : HeaderState) (i n : ℕ) (u : σ) :
    c.skipBody (q.scratch state s i n) u = c.skipBody q u

/-! ### A message -/

structure Message where
  first : FirstLine
  headers : List (Str × Str)
  body : Body

namespace Message

def headText (m : Message) : Str := m.first.text ++ linesText m.headers ++ crlf

def text (m : Message) : Str := m.headText ++ m.body.text

/-- The parser that `on_headers_complete` sees. -/
def head (m : Message) (q : HttpParser) : HttpParser :=
  ((q.firstLine m.first).lines m.headers).headed

/-- What has been told before. -/
def lineTold (c : Consumer σ) (m : Message) (u : σ) : σ := c.lines m.headers (c.firstLine m.first u)

/-- The parser with the answer of `on_headers_complete`. -/
def answered (c : Consumer σ) (m : Message) (x : HttpParser × σ) : HttpParser :=
  (m.head x.1).answer (c.skipBody (m.head x.1) (m.lineTold c x.2))

/-- What a message comes to, its first lines and its body. -/
def read (c : Consumer σ) (x : HttpParser × σ) (m : Message) : HttpParser × σ :=
  let q := (m.answered c x).bodied m.body
  (q.withState q.newMessage,
    c.notice .messageComplete (c.body m.body (c.headersComplete (m.head x.1) (m.lineTold c x.2))))

/-- A message that is written as it is meant, behind `n` bytes that are counted with its head. -/
structure Fits (c : Consumer σ) (n : ℕ) (x : HttpParser × σ) (m : Message) : Prop where
  first : m.first.Valid
  type : x.1.type = m.first.type
  headers : ∀ l ∈ m.headers, IsLine l
  size : n + m.headText.length ≤ httpMaxHeaderSize
  upgrade : (m.head x.1).upgrade = false
  body : m.body.Announced (m.answered c x)

end Message

theorem firstLine_flags (q : HttpParser) (l : FirstLine) :
    (q.firstLine l).flags.trailing = false ∧ (q.firstLine l).upgrade = q.upgrade := by
  cases l <;> exact ⟨rfl, rfl⟩

/-- The lines of a head. -/
theorem bytes_head {m : Message} (hfirst : m.first.Valid) (htype : q.type = m.first.type)
    (hheaders : ∀ l ∈ m.headers, IsLine l) (hs : q.state = q.startState) (s₀ : HeaderState)
    (i₀ : ℕ) {n : ℕ} (hn : n + (m.first.text ++ linesText m.headers).length ≤ httpMaxHeaderSize) :
    ∃ state s i, state.startsLine ∧
      c.bytes (m.first.text ++ linesText m.headers) (q.scratch q.state s₀ i₀ n, u) =
        .ok (((q.firstLine m.first).lines m.headers).scratch state s i
          (n + (m.first.text ++ linesText m.headers).length), m.lineTold c u) := by
  rw [List.length_append] at hn ⊢
  have hline := bytes_firstLine (c := c) (u := u) (q := q.scratch q.state s₀ i₀ n) hfirst htype hs
    (n := n) (by omega)
  obtain ⟨j, hj⟩ := firstLine_scratch q q.state s₀ i₀ n m.first
  rw [hj] at hline
  obtain ⟨state, s, i, hstate, hlines⟩ := bytes_lines (c := c) (u := c.firstLine m.first u)
    (q := (q.firstLine m.first).scratch .headerFieldStart s₀ j n) hheaders (.inl rfl)
    (n := n + m.first.text.length) (by omega)
  rw [lines_scratch, Nat.add_assoc] at hlines
  exact ⟨state, s, i, hstate, c.bytes_trans hline hlines⟩

/-- The head of a message, up to the case `s_headers_done`. -/
theorem bytes_headed (hc : c.Plain) {m : Message} {x : HttpParser × σ} {n : ℕ}
    (hfirst : m.first.Valid) (htype : x.1.type = m.first.type)
    (hheaders : ∀ l ∈ m.headers, IsLine l) (hsize : n + m.headText.length ≤ httpMaxHeaderSize)
    (hs : x.1.state = x.1.startState) (s₀ : HeaderState) (i₀ : ℕ) :
    ∃ s i k, c.bytes m.headText (x.1.scratch x.1.state s₀ i₀ n, x.2) =
      (((m.answered c x).scratch .headersDone s i k).headersDone '\n').told c '\n' none
        (c.headersComplete (m.head x.1) (m.lineTold c x.2)) := by
  rw [Message.headText, List.length_append] at hsize
  change n + ((m.first.text ++ linesText m.headers).length + 2) ≤ httpMaxHeaderSize at hsize
  obtain ⟨state, s, i, hstate, hhead⟩ := bytes_head (c := c) (u := x.2) hfirst htype hheaders
    hs s₀ i₀ (n := n) (by omega)
  set k := n + (m.first.text ++ linesText m.headers).length
  set q₁ := (x.1.firstLine m.first).lines m.headers
  have htrailing : q₁.flags.trailing = false :=
    (lines_flags _ _).1.trans (firstLine_flags x.1 m.first).1
  have hend := bytes_headEnd (c := c) (u := m.lineTold c x.2) (q := q₁.scratch state s i k) hstate
    htrailing (n := k) (by omega) (p := (m.head x.1).scratch .headersDone s i (k + 2)) rfl
  rw [hc.headersComplete, hc.skipBody, answer_scratch] at hend
  exact ⟨s, i, k + 2, c.bytes_trans hhead hend⟩

theorem answered_upgrade (c : Consumer σ) (m : Message) (x : HttpParser × σ) :
    (m.answered c x).upgrade = (m.head x.1).upgrade := by
  unfold Message.answered answer
  split_ifs <;> rfl

theorem bytes_message (hc : c.Plain) {m : Message} {x : HttpParser × σ} {n : ℕ} (hm : m.Fits c n x)
    (hs : x.1.state = x.1.startState) (s₀ : HeaderState) (i₀ : ℕ) :
    ∃ s i, c.bytes m.text (x.1.scratch x.1.state s₀ i₀ n, x.2) =
      .ok ((m.read c x).1.scratch (m.read c x).1.state s i m.body.counted, (m.read c x).2) := by
  obtain ⟨s, i, k, hhead⟩ := bytes_headed hc hm.first hm.type hm.headers hm.size hs s₀ i₀
  obtain ⟨s', i', hbody⟩ := bytes_body (c := c)
    (u := c.headersComplete (m.head x.1) (m.lineTold c x.2))
    (q := (m.answered c x).scratch .headersDone s i k) (b := m.body)
    ((answered_upgrade c m x).trans hm.upgrade) ((announced_scratch ..).mpr hm.body)
  rw [bodied_scratch] at hbody
  refine ⟨s', i', ?_⟩
  rw [Message.text, Consumer.bytes_append, hhead]
  exact hbody

/-! ### The messages of a connection -/

/-- Messages that stand one behind the other: all but the last keep the connection alive. -/
def Pipelined (c : Consumer σ) : ℕ → HttpParser × σ → List Message → Prop
  | _, _, [] => True
  | n, x, m :: ms => x.1.state = x.1.startState ∧ m.Fits c n x ∧
    Pipelined c m.body.counted (m.read c x) ms

/-- The header bytes that are counted behind the messages. -/
def counted (n : ℕ) (ms : List Message) : ℕ := ms.foldl (fun _ m => m.body.counted) n

theorem pipelined_last {n : ℕ} {x : HttpParser × σ} {ms : List Message} {m : Message}
    (h : Pipelined c n x (ms ++ [m])) : m.Fits c (counted n ms) (ms.foldl (Message.read c) x) := by
  induction ms generalizing n x with
  | nil => exact h.2.1
  | cons m' ms ih => exact ih h.2.2

/-- By induction on the messages. -/
theorem bytes_messages (hc : c.Plain) {ms : List Message} {x : HttpParser × σ} {n : ℕ}
    (hms : Pipelined c n x ms) (s₀ : HeaderState) (i₀ : ℕ) :
    ∃ s i, c.bytes (ms.flatMap Message.text) (x.1.scratch x.1.state s₀ i₀ n, x.2) =
      .ok ((ms.foldl (Message.read c) x).1.scratch (ms.foldl (Message.read c) x).1.state s i
        (counted n ms), (ms.foldl (Message.read c) x).2) := by
  induction ms generalizing x n s₀ i₀ with
  | nil => exact ⟨s₀, i₀, rfl⟩
  | cons m ms ih =>
    obtain ⟨hs, hm, hms⟩ := hms
    obtain ⟨s, i, hmessage⟩ := bytes_message hc hm hs s₀ i₀
    obtain ⟨s', i', hrest⟩ := ih hms s i
    exact ⟨s', i', c.bytes_trans hmessage hrest⟩

/-- Messages that are sent one behind the other are read back, however their bytes arrive. -/
theorem messages_read (hc : c.Plain) (type : HttpParserType) (u : σ) {ms : List Message}
    (hms : Pipelined c 0 (init type, u) ms) {ds : List Str} (hds : ∀ d ∈ ds, d ≠ [])
    (hflatten : ds.flatten = ms.flatMap Message.text) :
    ∃ s i, (init type).feed c.settings u ds =
      let x := ms.foldl (Message.read c) (init type, u)
      some ⟨x.1.scratch x.1.state s i (counted 0 ms), x.2, ds.flatten.length⟩ := by
  obtain ⟨s, i, hbytes⟩ := bytes_messages hc hms .general 0
  rw [← hflatten] at hbytes
  exact ⟨s, i, feed_reads (init_fits type) ⟨_, init_inPhase type⟩ hds hbytes⟩

/-- The data of the bodies. -/
def bodyText : Consumer Str where
  data m s u := if m = .body then u ++ s else u
  notice _ u := u
  headersComplete _ u := u
  skipBody _ _ := false
  data_append m s t u := by
    split_ifs
    · rw [List.append_assoc]
    · rfl

theorem bodyText_plain : bodyText.Plain := ⟨fun _ _ _ _ _ _ => rfl, fun _ _ _ _ _ _ => rfl⟩

/-- A request with a body, and one without. -/
def twoRequests : List Message :=
  [⟨.request .post ['/', 'a'] '1' '1', [("Content-Length".toList, ['2'])], .sized ['h', 'i']⟩,
    ⟨.request .get ['/'] '1' '1', [("Connection".toList, "close".toList)], .empty⟩]

theorem twoRequests_pipelined : Pipelined bodyText 0 (init .request, []) twoRequests := by
  have hlength : IsLine ("Content-Length".toList, ['2']) := by decide
  have hclose : IsLine ("Connection".toList, "close".toList) := by decide
  refine ⟨rfl, ⟨⟨by decide, by decide, by decide⟩, rfl, by simpa using hlength, by decide, by decide,
    ⟨by decide, by decide, by decide, by decide, by decide⟩⟩, by decide,
    ⟨⟨by decide, by decide, by decide⟩, rfl, by simpa using hclose, by decide, by decide,
    .inr ⟨by decide, .inr ⟨by decide, .inl rfl⟩⟩⟩, trivial⟩

/-- The two in two pieces. -/
def twoPieces : List Str :=
  ["POST /a HTTP/1.1\r\nContent-Length: 2\r\n\r".toList,
    "\nhiGET / HTTP/1.1\r\nConnection: close\r\n\r\n".toList]

theorem twoRequests_read :
    ∃ s i, (init .request).feed bodyText.settings [] twoPieces =
      let x := twoRequests.foldl (Message.read bodyText) (init .request, [])
      some ⟨x.1.scratch x.1.state s i 0, x.2, twoPieces.flatten.length⟩ :=
  messages_read bodyText_plain .request [] twoRequests_pipelined (by decide) (by decide)

/-! ### Upgrades -/

/-- The head of a message behind which the connection is no longer HTTP. -/
structure Message.Upgrades (n : ℕ) (q : HttpParser) (m : Message) : Prop where
  first : m.first.Valid
  type : q.type = m.first.type
  headers : ∀ l ∈ m.headers, IsLine l
  size : n + m.headText.length ≤ httpMaxHeaderSize
  upgrade : (m.head q).upgrade = true

theorem told_upgrade (hq : q.upgrade = true) :
    (q.headersDone '\n').told c '\n' none u =
      .error (.upgraded { q.withState q.newMessage with nread := 0 } (c.notice .messageComplete u)) := by
  simp only [headersDone, ne_eq, not_true_eq_false, if_false, if_pos hq]
  rfl

/-- Where a message upgrades the connection its head is the last that is read: what stands behind it
is left to the caller, whether it arrives together with it or not. -/
theorem upgrade_unread (hc : c.Plain) (type : HttpParserType) (u : σ) {ms : List Message}
    (hms : Pipelined c 0 (init type, u) ms) {m : Message} {x : HttpParser × σ}
    (hx : ms.foldl (Message.read c) (init type, u) = x) (hs : x.1.state = x.1.startState)
    (hm : m.Upgrades (counted 0 ms) x.1) {ds : List Str} (hds : ∀ d ∈ ds, d ≠ []) {rest : Str}
    (hflatten : ds.flatten = ms.flatMap Message.text ++ (m.headText ++ rest)) :
    ∃ q, (init type).feed c.settings u ds =
        some ⟨q, c.notice .messageComplete
          (c.headersComplete (m.head x.1) (m.lineTold c x.2)),
          (ms.flatMap Message.text).length + m.headText.length⟩ ∧
      q.errno = .ok ∧ q.upgrade = true := by
  subst hx
  set x := ms.foldl (Message.read c) (init type, u)
  obtain ⟨s, i, hbytes⟩ := bytes_messages hc hms .general 0
  have hsize := hm.size
  rw [Message.headText, List.length_append] at hsize
  change counted 0 ms + ((m.first.text ++ linesText m.headers).length + 2) ≤ httpMaxHeaderSize at hsize
  obtain ⟨state, s', i', hstate, hhead⟩ := bytes_head (c := c) (u := x.2) hm.first hm.type hm.headers
    hs s i (n := counted 0 ms) (by omega)
  set k := counted 0 ms + (m.first.text ++ linesText m.headers).length
  set q₁ := (x.1.firstLine m.first).lines m.headers with hq₁
  have htrailing : q₁.flags.trailing = false :=
    (lines_flags _ _).1.trans (firstLine_flags x.1 m.first).1
  have hcr := byte_lineEnd (c := c) (u := m.lineTold c x.2) (q := q₁.scratch state s' i' k) hstate
    (n := k) (by omega)
  have hlf := byte_headEnd (c := c) (u := m.lineTold c x.2) (q := q₁.scratch state s' i' k)
    htrailing (n := k) (by omega) (p := (m.head x.1).scratch .headersDone s' i' (k + 2)) rfl
  rw [hc.headersComplete, hc.skipBody, answer_scratch] at hlf
  have hupgrade : ((m.answered c x).scratch .headersDone s' i' (k + 2)).upgrade = true :=
    (answered_upgrade c m x).trans hm.upgrade
  change _ = (((m.answered c x).scratch .headersDone s' i' (k + 2)).headersDone '\n').told c '\n' none
    _ at hlf
  rw [told_upgrade hupgrade] at hlf
  have hflatten' : ds.flatten = (ms.flatMap Message.text ++
      ((m.first.text ++ linesText m.headers) ++ ['\r'])) ++ '\n' :: rest := by
    rw [hflatten, Message.headText, crlf]
    simp
  have hall := c.bytes_trans hbytes (c.bytes_trans hhead ((c.bytes_singleton _ _).trans hcr))
  obtain ⟨hfeed, hok⟩ := feed_upgraded (init_fits type) ⟨_, init_inPhase type⟩ hds hflatten' hall hlf
  refine ⟨_, hfeed.trans ?_, hok, hupgrade⟩
  rw [Message.headText, crlf]
  simp only [List.length_append, List.length_cons, List.length_nil]
  rfl

/-- A request to go on with another protocol. -/
def websocket : Message :=
  ⟨.request .get ['/'] '1' '1', [("Upgrade".toList, "websocket".toList)], .empty⟩

/-- Its head, with the first bytes of the other protocol. -/
def websocketPieces : List Str := [websocket.headText ++ ['a', 'b'], ['c']]

theorem upgrade_unread_websocket :
    ∃ q, (init .request).feed bodyText.settings [] websocketPieces =
      some ⟨q, [], 0 + websocket.headText.length⟩ ∧ q.errno = .ok ∧ q.upgrade = true := by
  have hline : IsLine ("Upgrade".toList, "websocket".toList) := by decide
  have hm : websocket.Upgrades 0 (init .request) :=
    ⟨⟨by decide, by decide, by decide⟩, rfl, by simpa [websocket] using hline, by decide, by decide⟩
  have hms : Pipelined bodyText 0 (init .request, []) [] := trivial
  have hflatten : websocketPieces.flatten =
      [].flatMap Message.text ++ (websocket.headText ++ ['a', 'b', 'c']) := by
    simp [websocketPieces]
  exact upgrade_unread bodyText_plain .request [] hms rfl rfl hm (by decide) hflatten

end HttpParser

end LuaNode
