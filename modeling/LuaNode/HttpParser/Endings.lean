import LuaNode.HttpParser.Messages

/-!
# The end of a message

Whether the connection goes on behind a message, and the body that only the end of the file ends.
-/

namespace LuaNode

namespace HttpParser

variable {σ : Type*} {c : Consumer σ} {q : HttpParser} {u : σ}

/-! ### Persistent connections -/

/-- A line that asks for the end of the connection. -/
def closes (l : Str × Str) : Bool :=
  decide (fieldKind (lower l.1) = .connection ∧ ValueIs closeText l.2)

/-- A line that asks for more messages on it. -/
def keepsAlive (l : Str × Str) : Bool :=
  decide (fieldKind (lower l.1) = .connection ∧ ValueIs keepAliveText l.2)

theorem not_both {v : Str} (h : ValueIs keepAliveText v) : ¬ ValueIs closeText v := by
  obtain ⟨w, n, rfl, hw⟩ := h
  rintro ⟨w', n', htext, hw'⟩
  cases w with
  | nil => cases hw
  | cons ch w =>
    cases w' with
    | nil => cases hw'
    | cons ch' w' =>
      obtain rfl : ch = ch' := (List.cons.inj htext).1
      have hk : lowerByte ch = 'k' := (List.cons.inj hw).1
      have hc : lowerByte ch = 'c' := (List.cons.inj hw').1
      rw [hk] at hc
      exact absurd hc (by decide)

/-- What a line says of the connection. -/
theorem line_connection (q : HttpParser) (l : Str × Str) :
    (q.line l).flags.connectionClose = (q.flags.connectionClose || closes l) ∧
      (q.line l).flags.connectionKeepAlive = (q.flags.connectionKeepAlive || keepsAlive l) := by
  unfold line header
  split
  case h_1 hkind =>
    by_cases hkeep : ValueIs keepAliveText l.2
    · simp [closes, keepsAlive, hkind, hkeep, not_both hkeep]
    · by_cases hclose : ValueIs closeText l.2
      · simp [closes, keepsAlive, hkind, hkeep, hclose]
      · simp [closes, keepsAlive, hkind, hkeep, hclose]
  case h_2 hkind => split_ifs <;> simp [closes, keepsAlive, hkind]
  case h_3 hkind => split_ifs <;> simp [closes, keepsAlive, hkind]
  case h_4 hkind => split_ifs <;> simp [closes, keepsAlive, hkind]
  case h_5 hkind _ _ _ =>
    have hne : ¬ fieldKind (lower l.1) = .connection := hkind
    simp [closes, keepsAlive, hne]

theorem lines_connection (q : HttpParser) (ls : List (Str × Str)) :
    (q.lines ls).flags.connectionClose = (q.flags.connectionClose || ls.any closes) ∧
      (q.lines ls).flags.connectionKeepAlive =
        (q.flags.connectionKeepAlive || ls.any keepsAlive) := by
  induction ls generalizing q with
  | nil => simp [lines]
  | cons l ls ih =>
    obtain ⟨hclose, hkeep⟩ := ih (q.line l)
    obtain ⟨hclose', hkeep'⟩ := line_connection q l
    rw [List.any_cons, List.any_cons, ← Bool.or_assoc, ← Bool.or_assoc, ← hclose', ← hkeep']
    exact ⟨hclose, hkeep⟩

/-- A request asks for more messages: by default from version 1.1 on, before it only where a line
says so. -/
def Persistent (minor : Char) (headers : List (Str × Str)) : Prop :=
  if digit minor = 0 then ∃ l ∈ headers, keepsAlive l = true else ∀ l ∈ headers, closes l = false

/-- The parser behind a request. -/
theorem read_persistent {x : HttpParser × σ} {n : ℕ} {m : HttpMethod} {url : Str} {d e : Char}
    {headers : List (Str × Str)} {b : Body} (hb : b.trailers = [])
    (hm : Message.Fits c n x ⟨.request m url d e, headers, b⟩) :
    (Persistent e headers →
      (Message.read c x ⟨.request m url d e, headers, b⟩).1.state = .startReq) ∧
    (¬ Persistent e headers →
      (Message.read c x ⟨.request m url d e, headers, b⟩).1.state = .dead) := by
  set q := ((Message.answered c ⟨.request m url d e, headers, b⟩ x).bodied b) with hq
  have hlines : ∃ f k, (x.1.requested m d e).lines headers =
      { x.1.requested m d e with flags := f, contentLength := k } := lines_frame _ _
  obtain ⟨hclose, hkeep⟩ := lines_connection (x.1.requested m d e) headers
  obtain ⟨f, k, hlines⟩ := hlines
  have hfields : q.type = .request ∧ q.httpMajor = digit d ∧ q.httpMinor = digit e ∧
      q.flags.connectionClose = headers.any closes ∧
      q.flags.connectionKeepAlive = headers.any keepsAlive := by
    rw [hlines] at hclose hkeep
    have hclose' : f.connectionClose = headers.any closes := hclose.trans (Bool.false_or _)
    have hkeep' : f.connectionKeepAlive = headers.any keepsAlive := hkeep.trans (Bool.false_or _)
    have htype : x.1.type = .request := hm.type
    have hparser : q = (((x.1.requested m d e).lines headers).headed.answer
        (c.skipBody _ (Message.lineTold c ⟨.request m url d e, headers, b⟩ x.2))).bodied b := rfl
    rw [hparser]
    generalize c.skipBody _ _ = skip
    rw [hlines]
    cases b with
    | empty => cases skip <;> exact ⟨htype, rfl, rfl, hclose', hkeep'⟩
    | sized => cases skip <;> exact ⟨htype, rfl, rfl, hclose', hkeep'⟩
    | chunked ss ls =>
      obtain rfl : ls = [] := hb
      cases skip <;> exact ⟨htype, rfl, rfl, hclose', hkeep'⟩
  obtain ⟨htype, hmajor, hminor, hclose, hkeep⟩ := hfields
  have hneeds : q.messageNeedsEof = false := by simp [messageNeedsEof, htype]
  have hpos : 0 < digit d := by
    have hd : '1'.toNat ≤ d.toNat := hm.first.2.1.1
    unfold digit
    have hone : '1'.toNat = 49 := rfl
    have hzero : '0'.toNat = 48 := rfl
    omega
  have hstate : (Message.read c x ⟨.request m url d e, headers, b⟩).1.state = q.newMessage := rfl
  rw [hstate, newMessage, startState, if_pos htype]
  have halive : q.shouldKeepAlive = true ↔ Persistent e headers := by
    unfold shouldKeepAlive Persistent
    rw [hmajor, hminor, hclose, hkeep, hneeds]
    by_cases hzero : digit e = 0
    · simp [hzero]
    · simp [hpos, Nat.pos_of_ne_zero hzero, hzero]
  by_cases h : Persistent e headers
  · exact ⟨fun _ => if_pos (halive.mpr h), fun hn => absurd h hn⟩
  · exact ⟨fun hp => absurd hp h, fun _ => if_neg fun ha => h (halive.mp ha)⟩

/-- Behind the last of some requests the parser is ready for another one if the request asks for it,
and else takes no more. -/
theorem persistence_read (hc : c.Plain) (u : σ) (ms : List Message) {m : HttpMethod} {url : Str}
    {d e : Char} {headers : List (Str × Str)} {b : Body} (hb : b.trailers = [])
    (hms : Pipelined c 0 (init .request, u) (ms ++ [Message.mk (.request m url d e) headers b]))
    {ds : List Str} (hds : ∀ d ∈ ds, d ≠ [])
    (hflatten : ds.flatten =
      (ms ++ [Message.mk (.request m url d e) headers b]).flatMap Message.text) :
    ∃ r, (init .request).feed c.settings u ds = some r ∧ r.parser.errno = .ok ∧
      (Persistent e headers → r.parser.state = .startReq) ∧
      (¬ Persistent e headers → r.parser.state = .dead) := by
  obtain ⟨s, i, hbytes⟩ := bytes_messages hc hms .general 0
  rw [← hflatten] at hbytes
  have hfits := init_fits .request
  have hph : ∃ ph, (init .request).InPhase ph := ⟨_, init_inPhase .request⟩
  have hlast := read_persistent hb (pipelined_last hms)
  refine ⟨_, feed_reads hfits hph hds hbytes, (bytes_fits hfits hph hbytes).errno, ?_⟩
  rw [List.foldl_append]
  exact hlast

theorem persistence_read_close :
    ∃ r, (init .request).feed bodyText.settings [] twoPieces = some r ∧ r.parser.errno = .ok ∧
      (Persistent '1' [("Connection".toList, "close".toList)] → r.parser.state = .startReq) ∧
      (¬ Persistent '1' [("Connection".toList, "close".toList)] → r.parser.state = .dead) :=
  persistence_read bodyText_plain []
    [⟨.request .post ['/', 'a'] '1' '1', [("Content-Length".toList, ['2'])], .sized ['h', 'i']⟩] rfl
    twoRequests_pipelined (by decide) (by decide)

/-! ### Bodies up to the end of the file -/

/-- By induction on the data. -/
theorem bytes_eof (hs : q.state = .bodyIdentityEof) {s : Str} (hne : s ≠ []) :
    c.bytes s (q, u) = .ok (q, c.data .body s u) := by
  have hbyte (u : σ) (ch : Char) : c.byte (q, u) ch = .ok (q, c.data .body [ch] u) := by
    simp [Consumer.byte, readByte, hs, HttpState.parsingHeader, onByte, bodyIdentityEof,
      Action.told]
  induction s generalizing u with
  | nil => exact absurd rfl hne
  | cons ch s ih =>
    rw [Consumer.bytes, hbyte]
    cases s with
    | nil => rfl
    | cons ch' s =>
      have hrest := ih (u := c.data .body [ch] u) (by simp)
      rw [← c.data_append] at hrest
      exact hrest

theorem told_eof (hs : q.flags.skipBody = false) (hup : q.upgrade = false)
    (hchunked : q.flags.chunked = false) (hlength : q.contentLength = ullongMax)
    (heof : q.messageNeedsEof = true) :
    (q.headersDone '\n').told c '\n' none u =
      .ok ({ q with nread := 0, state := .bodyIdentityEof }, u) := by
  have hgo : ¬ q.upgrade = true := by simp [hup]
  have hzero : q.contentLength ≠ 0 := by
    rw [hlength]
    decide
  have hopen : ¬ (q.type = .request ∨
      ¬ ({ q with nread := 0 } : HttpParser).messageNeedsEof = true) := by
    rintro (htype | hneeds)
    · simp [messageNeedsEof, htype] at heof
    · exact hneeds heof
  have haction : q.headersDone '\n' = .next { q with nread := 0, state := .bodyIdentityEof } := by
    simp only [headersDone, ne_eq, not_true_eq_false, if_false, if_neg hgo]
    rw [if_neg (by simp [hs]), if_neg (by simp [hchunked]), if_neg hzero,
      if_neg (not_not.mpr hlength), if_neg hopen]
    rfl
  rw [haction]
  rfl

/-- The head of a response whose body the end of the connection ends. -/
structure Message.OpenEnded (c : Consumer σ) (x : HttpParser × σ) (m : Message) : Prop where
  first : m.first.Valid
  type : x.1.type = m.first.type
  headers : ∀ l ∈ m.headers, IsLine l
  size : m.headText.length ≤ httpMaxHeaderSize
  upgrade : (m.head x.1).upgrade = false
  skip : (m.answered c x).flags.skipBody = false
  chunked : (m.answered c x).flags.chunked = false
  length : (m.answered c x).contentLength = ullongMax
  eof : (m.answered c x).messageNeedsEof = true

/-- Where nothing says how long the body is, all that follows is its data, and the end of the file
completes the message. -/
theorem eof_read (hc : c.Plain) (type : HttpParserType) (u : σ) {m : Message}
    (hm : m.OpenEnded c (init type, u)) {s : Str} (hne : s ≠ []) {ds : List Str}
    (hds : ∀ d ∈ ds, d ≠ []) (hflatten : ds.flatten = m.headText ++ s) :
    ∃ r, (init type).feed c.settings u ds = some r ∧ r.parser.errno = .ok ∧
      r.count = ds.flatten.length ∧
      r.parser.endOfFile c.settings r.user = ⟨r.parser, c.notice .messageComplete
        (c.data .body s (c.headersComplete (m.head (init type)) (m.lineTold c u))), 0⟩ := by
  have htype : type = m.first.type := hm.type
  have hstart : (init type).state = (init type).startState := by
    rw [htype]
    cases m.first <;> rfl
  have hsize : 0 + m.headText.length ≤ httpMaxHeaderSize := by
    rw [Nat.zero_add]
    exact hm.size
  obtain ⟨s', i, k, hhead⟩ := bytes_headed hc hm.first hm.type hm.headers hsize hstart .general 0
  have htold := told_eof (c := c) (u := c.headersComplete (m.head (init type)) (m.lineTold c u))
    (q := (m.answered c (init type, u)).scratch .headersDone s' i k) hm.skip
    ((answered_upgrade c m _).trans hm.upgrade) hm.chunked hm.length hm.eof
  have hall := c.bytes_trans (hhead.trans htold) (bytes_eof rfl hne)
  have hfits := init_fits type
  have hph : ∃ ph, (init type).InPhase ph := ⟨_, init_inPhase type⟩
  rw [← hflatten] at hall
  refine ⟨_, feed_reads hfits hph hds hall, (bytes_fits hfits hph hall).errno, rfl, rfl⟩

/-- A response without a length. -/
def openResponse : Message := ⟨.response '1' '0' ['2', '0', '0'] ['O', 'K'], [], .empty⟩

theorem eof_read_response :
    ∃ r, (init .response).feed bodyText.settings []
        [openResponse.headText ++ ['a'], ['b']] = some r ∧
      r.parser.errno = .ok ∧ r.count = [openResponse.headText ++ ['a'], ['b']].flatten.length ∧
      r.parser.endOfFile bodyText.settings r.user = ⟨r.parser, ['a', 'b'], 0⟩ := by
  have hm : openResponse.OpenEnded bodyText (init .response, []) :=
    ⟨⟨rfl, rfl, by simp [isNumByte], by decide, by decide, by simp⟩, rfl, by decide, by decide, rfl,
      rfl, rfl, rfl, rfl⟩
  have hflatten : [openResponse.headText ++ ['a'], ['b']].flatten =
      openResponse.headText ++ ['a', 'b'] := by simp
  exact eof_read bodyText_plain .response [] hm (by decide) (by decide) hflatten

end HttpParser

end LuaNode
