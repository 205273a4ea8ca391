import LuaNode.Http.Calls
import LuaNode.Library.Runs

/-!
# What decides about a header block

`_storeHeader` looks at its lines one after the other, but all it keeps of them is whether some
line has a name of a certain kind, and whether some line of that kind has a value with a certain
word. `renderBlock_iff` says what comes out in these terms. The results that follow from it: a
response that leaves the connection open says where it ends, under a condition on its headers,
and a header line has no influence on the others exactly when its name is of no kind.
-/

namespace LuaNode

/-- Some line has a name of this kind. -/
def hasKind (kind : HeaderKind) (lines : List (Str × Scalar)) : Bool :=
  lines.any fun l => headerKind l.1 = some kind

/-- Some line of this kind has a value with this word. -/
def hasWord (kind : HeaderKind) (word : Str) (lines : List (Str × Scalar)) : Bool :=
  lines.any fun l => decide (headerKind l.1 = some kind) && contains word (lower l.2.text)

/-- Some 'Connection' line asks for anything but "close". -/
def keepsAlive (lines : List (Str × Scalar)) : Bool :=
  lines.any fun l =>
    decide (headerKind l.1 = some .connection) && !contains "close".toList (lower l.2.text)

/-- `store` raises on a number under a name whose value it looks at. -/
def raises (l : Str × Scalar) : Bool :=
  match headerKind l.1, l.2 with
  | some .connection, .num _ | some .transferEncoding, .num _ => true
  | _, _ => false

/-- The text of some header lines. -/
def blockText (lines : List (Str × Str)) : Str := lines.flatMap fun l => headerLine l.1 l.2

def lineTexts (lines : List (Str × Scalar)) : List (Str × Str) :=
  lines.map fun l => (l.1, l.2.text)

namespace Stored

/-- All that the loop over the lines keeps of them. -/
def collect (st : Stored) (lines : List (Str × Scalar)) : Stored where
  self := { st.self with
    last := st.self.last || hasWord .connection "close".toList lines
    shouldKeepAlive := st.self.shouldKeepAlive || keepsAlive lines
    chunkedEncoding := st.self.chunkedEncoding || hasWord .transferEncoding "chunk".toList lines }
  messageHeader := st.messageHeader ++ blockText (lineTexts lines)
  sentConnectionHeader := st.sentConnectionHeader || hasKind .connection lines
  sentContentLengthHeader := st.sentContentLengthHeader || hasKind .contentLength lines
  sentTransferEncodingHeader := st.sentTransferEncodingHeader || hasKind .transferEncoding lines
  sentDateHeader := st.sentDateHeader || hasKind .date lines
  sentExpect := st.sentExpect || hasKind .expect lines

theorem collect_nil (st : Stored) : st.collect [] = st := by
  simp [collect, hasWord, keepsAlive, hasKind, blockText, lineTexts]

theorem collect_cons (st : Stored) (l : Str × Scalar) (lines : List (Str × Scalar)) :
    st.collect (l :: lines) = (st.collect [l]).collect lines := by
  simp [collect, hasWord, keepsAlive, hasKind, blockText, lineTexts, Bool.or_assoc]

/-- One line: the chain of tests finds the kind of its name. -/
theorem store_ok (st : Stored) {l : Str × Scalar} (h : raises l = false) :
    st.store l.1 l.2 = .ok (st.collect [l]) := by
  obtain ⟨field, value⟩ := l
  unfold raises at h
  unfold store
  cases hk : headerKind field with
  | none => simp [collect, hasWord, keepsAlive, hasKind, blockText, lineTexts, hk]
  | some kind =>
    cases kind <;> cases value <;> simp only [hk, reduceCtorEq] at h <;>
      simp only [collect, hasWord, keepsAlive, hasKind, blockText, lineTexts, hk, List.any_cons,
        List.any_nil, Scalar.text, List.map_cons, List.map_nil, List.flatMap_cons,
        List.flatMap_nil, reduceCtorEq, decide_false, decide_true, Bool.false_and, Bool.true_and,
        Bool.or_false, Bool.or_true, List.append_nil, Option.some.injEq]
    · generalize contains "close".toList (lower _) = closes
      cases closes <;> simp
    · generalize contains "chunk".toList (lower _) = chunks
      cases chunks <;> simp

theorem store_raises (st : Stored) {l : Str × Scalar} (h : raises l = true) :
    ∃ e, st.store l.1 l.2 = .error e := by
  obtain ⟨field, value⟩ := l
  unfold raises at h
  unfold store
  cases hk : headerKind field with
  | none => simp [hk] at h
  | some kind =>
    cases kind <;> cases value <;> simp only [hk, reduceCtorEq] at h
    · exact ⟨_, rfl⟩
    · exact ⟨_, rfl⟩

/-- The loop over the lines raises at the first line that does. -/
theorem storeAll_iff (st st' : Stored) (lines : List (Str × Scalar)) :
    st.storeAll lines = .ok st' ↔ (∀ l ∈ lines, raises l = false) ∧ st' = st.collect lines := by
  induction lines generalizing st with
  | nil =>
    rw [collect_nil]
    constructor
    · intro h
      cases h
      simp
    · rintro ⟨-, rfl⟩
      rfl
  | cons l lines ih =>
    rw [collect_cons]
    unfold storeAll
    cases hl : raises l with
    | false =>
      rw [store_ok st hl]
      simp only [ih, List.forall_mem_cons, hl, true_and]
    | true =>
      obtain ⟨e, he⟩ := store_raises st hl
      rw [he]
      simp only [List.forall_mem_cons, hl, reduceCtorEq, false_and]

end Stored

/-- The lines that the program adds of its own, in three parts. -/
def dateLines (m : OutgoingMessage) (sentDate : Bool) : List (Str × Str) :=
  if m.sendDate && !sentDate then [("Date".toList, m.runtime.date)] else []

def connectionLines (m : OutgoingMessage) (sentConnection sentContentLength : Bool) :
    List (Str × Str) :=
  if sentConnection then []
  else if m.shouldKeepAlive && (sentContentLength || m.useChunkedEncodingByDefault) then
    [("Connection".toList, "keep-alive".toList)]
  else [("Connection".toList, "close".toList)]

def encodingLines (m : OutgoingMessage) (sentContentLength sentTransferEncoding : Bool) :
    List (Str × Str) :=
  if !sentContentLength && !sentTransferEncoding && m.hasBody && m.useChunkedEncodingByDefault
  then [("Transfer-Encoding".toList, "chunked".toList)] else []

def automatic (m : OutgoingMessage) (lines : List (Str × Scalar)) : List (Str × Str) :=
  dateLines m (hasKind .date lines) ++
    connectionLines m (hasKind .connection lines) (hasKind .contentLength lines) ++
    encodingLines m (hasKind .contentLength lines) (hasKind .transferEncoding lines)

/-- All the lines of the block, as names and values. -/
def blockLines (m : OutgoingMessage) (lines : List (Str × Scalar)) : List (Str × Str) :=
  lineTexts lines ++ automatic m lines

/-- The message once the header of these lines is stored. -/
def OutgoingMessage.stored (m : OutgoingMessage) (firstLine : Str)
    (lines : List (Str × Scalar)) : OutgoingMessage :=
  { m with
    last := m.last || hasWord .connection "close".toList lines ||
      (!hasKind .connection lines && !(m.shouldKeepAlive &&
        (hasKind .contentLength lines || m.useChunkedEncodingByDefault))) ||
      (!hasKind .contentLength lines && !hasKind .transferEncoding lines && m.hasBody &&
        !m.useChunkedEncodingByDefault)
    shouldKeepAlive := m.shouldKeepAlive || keepsAlive lines
    chunkedEncoding :=
      if hasKind .contentLength lines || hasKind .transferEncoding lines then
        m.chunkedEncoding || hasWord .transferEncoding "chunk".toList lines
      else m.hasBody && (m.useChunkedEncodingByDefault || m.chunkedEncoding)
    header := some (firstLine ++ blockText (blockLines m lines) ++ crlf)
    headerSent := false }

theorem blockText_append (ls ls' : List (Str × Str)) :
    blockText (ls ++ ls') = blockText ls ++ blockText ls' := by
  simp [blockText]

theorem hasWord_kind {kind : HeaderKind} {word : Str} {lines : List (Str × Scalar)}
    (h : hasKind kind lines = false) : hasWord kind word lines = false := by
  simp only [hasKind, hasWord, List.any_eq_false, decide_eq_true_eq, Bool.and_eq_true] at h ⊢
  exact fun l hl hc => h l hl hc.1

theorem keepsAlive_kind {lines : List (Str × Scalar)}
    (h : hasKind .connection lines = false) : keepsAlive lines = false := by
  simp only [hasKind, keepsAlive, List.any_eq_false, decide_eq_true_eq, Bool.and_eq_true] at h ⊢
  exact fun l hl hc => h l hl hc.1

namespace Stored

variable (m : OutgoingMessage) (text : Str) (c l t d e : Bool)

theorem dateHeader_mk : (⟨m, text, c, l, t, d, e⟩ : Stored).dateHeader =
    ⟨m, text ++ blockText (dateLines m d), c, l, t, d, e⟩ := by
  unfold dateHeader
  by_cases h : m.sendDate = true ∧ ¬ d = true
  · have hlines : dateLines m d = [("Date".toList, m.runtime.date)] := by simp [dateLines, h]
    rw [if_pos h, hlines]
    simp [blockText]
  · have hlines : dateLines m d = [] := by simpa [dateLines] using h
    rw [if_neg h, hlines]
    simp [blockText]

/-- `_last` behind the keep-alive logic. -/
theorem keepAliveLogic_mk : (⟨m, text, c, l, t, d, e⟩ : Stored).keepAliveLogic =
    ⟨{ m with
        last := m.last ||
          (!c && !(m.shouldKeepAlive && (l || m.useChunkedEncodingByDefault))) },
      text ++ blockText (connectionLines m c l), c, l, t, d, e⟩ := by
  unfold keepAliveLogic connectionLines
  cases c with
  | true => simp [blockText]
  | false =>
    dsimp only
    by_cases hk : (m.shouldKeepAlive && (l || m.useChunkedEncodingByDefault)) = true
    · rw [if_pos rfl, if_pos (by simpa using hk), if_neg Bool.false_ne_true, if_pos hk, hk]
      simp [blockText, headerLine, crlf]
    · have hk' := Bool.eq_false_iff.mpr hk
      rw [if_pos rfl, if_neg (by simpa using hk), if_neg Bool.false_ne_true, if_neg hk, hk']
      simp [blockText, headerLine, crlf]

theorem bodyLogic_mk : (⟨m, text, c, l, t, d, e⟩ : Stored).bodyLogic =
    ⟨{ m with
        last := m.last || (!l && !t && m.hasBody && !m.useChunkedEncodingByDefault)
        chunkedEncoding :=
          if l || t then m.chunkedEncoding
          else m.hasBody && (m.useChunkedEncodingByDefault || m.chunkedEncoding) },
      text ++ blockText (encodingLines m l t), c, l, t, d, e⟩ := by
  unfold bodyLogic encodingLines
  dsimp only
  cases l <;> cases t
  · by_cases hb : m.hasBody = true
    · by_cases hu : m.useChunkedEncodingByDefault = true
      · simp only [and_self, if_true, if_pos hb, hu]
        simp [blockText, headerLine, crlf, hb]
      · have hu' := Bool.eq_false_iff.mpr hu
        simp only [and_self, if_true, if_pos hb, hu']
        simp [blockText, hb]
    · have hb' := Bool.eq_false_iff.mpr hb
      simp only [and_self, if_true, hb']
      simp [blockText]
  all_goals simp [blockText]

end Stored

/-- The message behind the loop over the lines. -/
def OutgoingMessage.collected (m : OutgoingMessage) (lines : List (Str × Scalar)) :
    OutgoingMessage :=
  { m with
    last := m.last || hasWord .connection "close".toList lines
    shouldKeepAlive := m.shouldKeepAlive || keepsAlive lines
    chunkedEncoding := m.chunkedEncoding || hasWord .transferEncoding "chunk".toList lines }

theorem connectionLines_collected (m : OutgoingMessage) (lines : List (Str × Scalar)) :
    connectionLines (m.collected lines) (hasKind .connection lines)
      (hasKind .contentLength lines) =
    connectionLines m (hasKind .connection lines) (hasKind .contentLength lines) := by
  unfold connectionLines
  cases hc : hasKind .connection lines with
  | true => rfl
  | false =>
    have hk : (m.collected lines).shouldKeepAlive = m.shouldKeepAlive := by
      change (m.shouldKeepAlive || keepsAlive lines) = _
      rw [keepsAlive_kind hc, Bool.or_false]
    rw [hk]
    rfl

/-- The three parts of `_storeHeader` behind the loop. -/
theorem collect_endings (m : OutgoingMessage) (firstLine : Str) (lines : List (Str × Scalar)) :
    let st := ((⟨m, firstLine, false, false, false, false, false⟩ : Stored).collect
      lines).dateHeader.keepAliveLogic.bodyLogic
    { st.self with header := some (st.messageHeader ++ crlf), headerSent := false } =
      m.stored firstLine lines ∧
    st.sentExpect = hasKind .expect lines := by
  intro st
  have hst : st = ((⟨m.collected lines, firstLine ++ blockText (lineTexts lines),
      hasKind .connection lines, hasKind .contentLength lines, hasKind .transferEncoding lines,
      hasKind .date lines, hasKind .expect lines⟩ :
        Stored).dateHeader.keepAliveLogic.bodyLogic) := rfl
  rw [Stored.dateHeader_mk, Stored.keepAliveLogic_mk, connectionLines_collected,
    Stored.bodyLogic_mk] at hst
  refine ⟨?_, by rw [hst]⟩
  have htext : st.messageHeader = firstLine ++ blockText (blockLines m lines) := by
    rw [hst]
    unfold blockLines automatic
    rw [blockText_append, blockText_append, blockText_append]
    simp only [List.append_assoc]
    rfl
  rw [htext, hst]
  clear hst htext
  unfold OutgoingMessage.stored OutgoingMessage.collected
  dsimp only
  congr 1
  · cases hc : hasKind .connection lines with
    | true => rfl
    | false => rw [keepsAlive_kind hc, Bool.or_false]
  · cases ht : hasKind .transferEncoding lines with
    | true => rw [Bool.or_true, if_pos rfl, if_pos rfl]
    | false => simp only [hasWord_kind ht, Bool.or_false]

/-- What comes out of `_storeHeader` when its lines go in: an error when one of them raises, or
the stored block. -/
theorem renderBlock_iff (m m' : OutgoingMessage) (firstLine : Str) (headers : HeaderTable)
    (early : Bool) :
    m.renderBlock firstLine headers = .ok (m', early) ↔
      (∀ l ∈ headerLines (headers.walk m.runtime), raises l = false) ∧
      m' = m.stored firstLine (headerLines (headers.walk m.runtime)) ∧
      early = hasKind .expect (headerLines (headers.walk m.runtime)) := by
  have hiff := Stored.storeAll_iff ⟨m, firstLine, false, false, false, false, false⟩
  obtain ⟨hself, hexpect⟩ := collect_endings m firstLine (headerLines (headers.walk m.runtime))
  unfold OutgoingMessage.renderBlock
  constructor
  · intro h
    split at h
    · cases h
    next st hst =>
      obtain ⟨hraise, rfl⟩ := (hiff st _).mp hst
      rw [Except.ok.injEq, Prod.mk.injEq] at h
      exact ⟨hraise, h.1.symm.trans hself, h.2.symm.trans hexpect⟩
  · rintro ⟨hraise, rfl, rfl⟩
    have hst := (hiff _ (headerLines (headers.walk m.runtime))).mpr ⟨hraise, rfl⟩
    rw [hst, ← hself, ← hexpect]

/-! ### Responses that say where they end -/

/-- A line with this name, whatever the case of its letters. -/
def named (name : Str) (lines : List (Str × Str)) : Bool :=
  lines.any fun l => lower l.1 = name

/-- A 'Transfer-Encoding' line that lists the coding "chunked". -/
def announcesChunked (lines : List (Str × Str)) : Bool :=
  lines.any fun l => decide (lower l.1 = "transfer-encoding".toList) &&
    decide ("chunked".toList ∈ elements (lower l.2))

/-- The recipient can tell from the lines of the block where the message ends. -/
def Delimited (m : OutgoingMessage) (lines : List (Str × Str)) : Prop :=
  m.hasBody = false ∨ named "content-length".toList lines = true ∨
    announcesChunked lines = true ∧ m.chunkedEncoding = true

instance decidableDelimited (m : OutgoingMessage) (lines : List (Str × Str)) :
    Decidable (Delimited m lines) :=
  inferInstanceAs (Decidable (_ ∨ _ ∨ _ ∧ _))

/-- The condition under which a response that stays open is delimited: it has no body, or the
lines that look like 'Content-Length' or 'Transfer-Encoding' include one that is and works, or
they do not matter because the connection is closed. -/
def delimitable (m : OutgoingMessage) (lines : List (Str × Scalar)) : Bool :=
  !m.hasBody ||
  (!hasKind .contentLength lines && !hasKind .transferEncoding lines) ||
  named "content-length".toList (lineTexts lines) || announcesChunked (lineTexts lines) ||
  hasWord .connection "close".toList lines ||
  (!hasKind .connection lines && !(m.shouldKeepAlive &&
    (hasKind .contentLength lines || m.useChunkedEncodingByDefault)))

theorem headerKind_contentLength {name : Str} (h : lower name = "content-length".toList) :
    headerKind name = some .contentLength := by
  unfold headerKind
  rw [h]
  decide

theorem headerKind_transferEncoding {name : Str} (h : lower name = "transfer-encoding".toList) :
    headerKind name = some .transferEncoding := by
  unfold headerKind
  rw [h]
  decide

theorem named_kind (lines : List (Str × Scalar))
    (h : named "content-length".toList (lineTexts lines) = true) :
    hasKind .contentLength lines = true := by
  simp only [named, lineTexts, List.any_map, List.any_eq_true, Function.comp_apply,
    decide_eq_true_eq] at h
  obtain ⟨l, hl, hname⟩ := h
  exact List.any_eq_true.mpr ⟨l, hl, by simp [headerKind_contentLength hname]⟩

/-- A line that announces the chunked coding is one that `store` finds. -/
theorem announcesChunked_kind (lines : List (Str × Scalar))
    (h : announcesChunked (lineTexts lines) = true) :
    hasKind .transferEncoding lines = true ∧
    hasWord .transferEncoding "chunk".toList lines = true := by
  simp only [announcesChunked, lineTexts, List.any_map, List.any_eq_true, Function.comp_apply,
    decide_eq_true_eq, Bool.and_eq_true] at h
  obtain ⟨l, hl, hname, hvalue⟩ := h
  have hkind := headerKind_transferEncoding hname
  have hword : contains "chunk".toList (lower l.2.text) = true := by
    rw [contains_iff]
    have hpart : "chunk".toList <:+: "chunked".toList := by decide
    exact hpart.trans (elements_within hvalue)
  exact ⟨List.any_eq_true.mpr ⟨l, hl, by simp [hkind]⟩,
    List.any_eq_true.mpr ⟨l, hl, by rw [hkind, hword]; rfl⟩⟩

/-- The automatic lines announce the chunked coding when they stand in for the user's. -/
theorem automatic_lines (m : OutgoingMessage) (lines : List (Str × Scalar)) :
    named "content-length".toList (automatic m lines) = false ∧
    announcesChunked (automatic m lines) =
      (!hasKind .contentLength lines && !hasKind .transferEncoding lines && m.hasBody &&
        m.useChunkedEncodingByDefault) := by
  have hdate : ∀ sent, named "content-length".toList (dateLines m sent) = false ∧
      announcesChunked (dateLines m sent) = false := by
    intro sent
    unfold dateLines
    split_ifs <;> exact ⟨rfl, rfl⟩
  have hconnection : ∀ c l, named "content-length".toList (connectionLines m c l) = false ∧
      announcesChunked (connectionLines m c l) = false := by
    intro c l
    unfold connectionLines
    split_ifs <;> exact ⟨rfl, rfl⟩
  have hencoding : ∀ l t, named "content-length".toList (encodingLines m l t) = false ∧
      announcesChunked (encodingLines m l t) =
        (!l && !t && m.hasBody && m.useChunkedEncodingByDefault) := by
    intro l t
    unfold encodingLines
    split_ifs with h
    · refine ⟨rfl, ?_⟩
      rw [h]
      decide
    · refine ⟨rfl, ?_⟩
      rw [Bool.eq_false_iff.mpr h]
      rfl
  unfold automatic
  simp only [named, announcesChunked, List.any_append] at hdate hconnection hencoding ⊢
  simp only [hdate, hconnection, hencoding, Bool.false_or, and_self]

theorem blockLines_spec (m : OutgoingMessage) (lines : List (Str × Scalar)) :
    named "content-length".toList (blockLines m lines) =
      named "content-length".toList (lineTexts lines) ∧
    announcesChunked (blockLines m lines) = (announcesChunked (lineTexts lines) ||
      (!hasKind .contentLength lines && !hasKind .transferEncoding lines && m.hasBody &&
        m.useChunkedEncodingByDefault)) := by
  obtain ⟨hname, hchunked⟩ := automatic_lines m lines
  unfold blockLines
  rw [← hchunked]
  unfold named announcesChunked at *
  rw [List.any_append, List.any_append, hname, Bool.or_false]
  exact ⟨rfl, rfl⟩

/-- `_storeHeader` on a message that was not marked before. -/
theorem stored_delimited (m : OutgoingMessage) (firstLine : Str) (lines : List (Str × Scalar))
    (hlast : m.last = false) (hchunked : m.chunkedEncoding = false) :
    ((m.stored firstLine lines).last = false →
      Delimited (m.stored firstLine lines) (blockLines m lines)) ↔
    delimitable m lines = true := by
  obtain ⟨hname, hannounce⟩ := blockLines_spec m lines
  have hlength := named_kind lines
  have htransfer := announcesChunked_kind lines
  unfold Delimited delimitable
  rw [hname, hannounce]
  simp only [OutgoingMessage.stored, hlast, hchunked]
  grind

/-- The lines that `writeHead` stores. -/
def storedLines (m : OutgoingMessage) (headers : Option HeaderTable) : List (Str × Scalar) :=
  match m.headHeaders headers with
  | .error _ => []
  | .ok headers => headerLines (headers.walk m.runtime)

/-- `writeHead` that returns. -/
theorem headBlock_stored {m m' : OutgoingMessage} {statusCode : ℕ} {reasonPhrase : Option Str}
    {headers : Option HeaderTable} {early : Bool}
    (h : m.headBlock statusCode reasonPhrase headers = .ok (m', early)) :
    m' = OutgoingMessage.stored { m.prepareHead statusCode with statusCode := statusCode }
      (OutgoingMessage.statusLine statusCode reasonPhrase) (storedLines m headers) := by
  have hheaders : OutgoingMessage.headHeaders { m with statusCode := statusCode } headers =
      m.headHeaders headers := rfl
  have hprepare : OutgoingMessage.prepareHead { m with statusCode := statusCode } statusCode =
      { m.prepareHead statusCode with statusCode := statusCode } := by
    unfold OutgoingMessage.prepareHead
    dsimp only
    split_ifs <;> rfl
  unfold OutgoingMessage.headBlock at h
  dsimp only at h
  rw [hheaders, hprepare] at h
  obtain ⟨p, hp⟩ : ∃ p : OutgoingMessage,
      p = { m.prepareHead statusCode with statusCode := statusCode } := ⟨_, rfl⟩
  have hruntime : p.runtime = m.runtime := by
    rw [hp, OutgoingMessage.prepareHead_frame m statusCode]
  rw [← hp] at h ⊢
  unfold storedLines
  cases ht : m.headHeaders headers with
  | error e => simp [ht] at h
  | ok t =>
    simp only [ht] at h
    rw [((renderBlock_iff _ _ _ _ _).mp h).2.1, hruntime]

/-- A call of the kind `p`, and calls one after the other. -/
def callStep {p : Call → Bool} (w : OutgoingMessage × Socket) (c : { c : Call // p c = true }) :
    OutgoingMessage × Socket :=
  ((c.1.apply w.1 w.2).self, (c.1.apply w.1 w.2).socket)

def callAll {p : Call → Bool} (w : OutgoingMessage × Socket)
    (cs : List { c : Call // p c = true }) : OutgoingMessage × Socket :=
  run callStep w cs

/-- What the calls that prepare a response leave as it is. -/
structure Prepared (m m' : OutgoingMessage) : Prop where
  last : m'.last = m.last
  chunkedEncoding : m'.chunkedEncoding = m.chunkedEncoding
  header : m'.header = m.header
  kind : m'.kind = m.kind
  finished : m'.finished = m.finished

theorem Prepared.trans {m m₁ m₂ : OutgoingMessage} (h : Prepared m m₁) (h₁ : Prepared m₁ m₂) :
    Prepared m m₂ :=
  ⟨h₁.last.trans h.last, h₁.chunkedEncoding.trans h.chunkedEncoding, h₁.header.trans h.header,
    h₁.kind.trans h.kind, h₁.finished.trans h.finished⟩

theorem setup_prepared (m : OutgoingMessage) (s : Socket) {c : Call} (hc : c.isSetup = true) :
    Prepared m (c.apply m s).self := by
  cases c with
  | setHeader name value =>
    simp only [Call.apply, OutgoingMessage.setHeader]
    split_ifs <;> exact ⟨rfl, rfl, rfl, rfl, rfl⟩
  | removeHeader name =>
    simp only [Call.apply, OutgoingMessage.removeHeader]
    split_ifs <;> exact ⟨rfl, rfl, rfl, rfl, rfl⟩
  | addTrailers headers => exact ⟨rfl, rfl, rfl, rfl, rfl⟩
  | writeContinue =>
    have href := m.writeRaw_refines s "HTTP/1.1 100 Continue\r\n\r\n".toList
      (some "ascii".toList)
    cases hk : m.kind with
    | serverResponse =>
      simp only [Call.apply, hk, OutgoingMessage.writeContinue]
      have hfinished := congrArg Encoder.finished href.encoder
      rw [href.frame] at hfinished ⊢
      exact ⟨rfl, rfl, rfl, rfl, hfinished⟩
    | clientRequest =>
      simp only [Call.apply, hk]
      exact ⟨rfl, rfl, rfl, rfl, rfl⟩
  | writeHead statusCode reasonPhrase headers => cases hc
  | write chunk encoding => cases hc
  | finish data encoding => cases hc

theorem callAll_setup (w : OutgoingMessage × Socket)
    (cs : List { c : Call // c.isSetup = true }) : Prepared w.1 (callAll w cs).1 := by
  have hstep : ∀ (v : OutgoingMessage × Socket) (c : { c : Call // c.isSetup = true }),
      Prepared w.1 v.1 → Prepared w.1 (callStep v c).1 :=
    fun v c h => h.trans (setup_prepared v.1 v.2 c.2)
  exact run_invariant hstep ⟨rfl, rfl, rfl, rfl, rfl⟩ cs

/-- `write`, `addTrailers` and `finish` do not change the header any more. -/
theorem callAll_body {w : OutgoingMessage × Socket} (hh : w.1.header.isSome)
    (cs : List { c : Call // c.isBody = true }) : BodyFrame w.1 (callAll w cs).1 := by
  have hstep : ∀ (v : OutgoingMessage × Socket) (c : { c : Call // c.isBody = true }),
      (v.1.header.isSome ∧ BodyFrame w.1 v.1) →
      (callStep v c).1.header.isSome ∧ BodyFrame w.1 (callStep v c).1 := by
    intro v c h
    have hframe := (apply_refines h.1 v.2 c.2).frame
    refine ⟨?_, h.2.trans hframe⟩
    unfold callStep
    rw [hframe]
    exact h.1
  exact (run_invariant hstep ⟨hh, BodyFrame.refl w.1⟩ cs).2

/-- The arguments of the `writeHead` that a call makes on a response without a header: its own,
or those of `_implicitHeader`. -/
structure Head where
  statusCode : ℕ
  reasonPhrase : Option Str
  headers : Option HeaderTable

def Call.head (m : OutgoingMessage) : Call → Head
  | .writeHead statusCode reasonPhrase headers => ⟨statusCode, reasonPhrase, headers⟩
  | _ => ⟨m.statusCode, none, none⟩

/-- The first call that is no preparation is a `writeHead`, with a call on the stored header
behind it if it is another one. -/
theorem first_call {m : OutgoingMessage} {s : Socket} (hk : m.kind = .serverResponse)
    (hnone : m.header = none) (hfin : m.finished = false)
    (first : { c : Call // c.isSetup = false }) {v : Option Bool}
    (hok : (first.1.apply m s).ret = .ok v) :
    let head := first.1.head m
    let o := m.writeHead s head.statusCode head.reasonPhrase head.headers
    o.ret = .ok none ∧ ∃ cs : List { c : Call // c.isBody = true },
      ((first.1.apply m s).self, (first.1.apply m s).socket) = callAll (o.self, o.socket) cs := by
  have hensure : m.ensureHeader s = m.writeHead s m.statusCode none none := by
    unfold OutgoingMessage.ensureHeader OutgoingMessage.implicitHeader
    rw [if_pos hnone, hk]
  have hspec := (m.ensureHeader_spec s).2.2
  obtain ⟨c, hc⟩ := first
  cases c with
  | writeHead statusCode reasonPhrase headers =>
    simp only [Call.apply, hk] at hok ⊢
    refine ⟨?_, [], rfl⟩
    rw [OutgoingMessage.writeHead_eq] at hok ⊢
    dsimp only [Call.head]
    rcases hblock : m.headBlock statusCode reasonPhrase headers with ⟨err, m'⟩ | ⟨m', _ | _⟩
    · rw [hblock] at hok
      cases hok
    · rfl
    · rfl
  | write chunk encoding =>
    cases hopened : m.opened with
    | none =>
      rw [hopened] at hspec
      obtain ⟨-, err, herr⟩ := hspec
      change (m.write s chunk encoding).ret = _ at hok
      rw [OutgoingMessage.write_unopened herr, herr] at hok
      cases hok
    | some r =>
      rw [hopened] at hspec
      obtain ⟨-, -, hsome, hret⟩ := hspec
      refine ⟨hensure ▸ hret, [⟨.write chunk encoding, rfl⟩], ?_⟩
      simp only [Call.apply, Call.head, OutgoingMessage.write_opened hret hsome, ← hensure]
      rfl
  | finish data encoding =>
    cases hopened : m.opened with
    | none =>
      rw [hopened] at hspec
      obtain ⟨-, err, herr⟩ := hspec
      change (m.finish s data encoding).ret = _ at hok
      rw [OutgoingMessage.finish_unopened hfin herr, herr] at hok
      cases hok
    | some r =>
      rw [hopened] at hspec
      obtain ⟨-, -, hsome, hret⟩ := hspec
      refine ⟨hensure ▸ hret, [⟨.finish data encoding, rfl⟩], ?_⟩
      simp only [Call.apply, Call.head, OutgoingMessage.finish_opened hfin hret hsome, ← hensure]
      rfl
  | setHeader name value => cases hc
  | removeHeader name => cases hc
  | addTrailers headers => cases hc
  | writeContinue => cases hc

/-- A response after `writeHead` and calls that write its body. -/
theorem writeHead_delimiting (m : OutgoingMessage) (s : Socket) (statusCode : ℕ)
    (reasonPhrase : Option Str) (headers : Option HeaderTable) (hlast : m.last = false)
    (hchunked : m.chunkedEncoding = false) (cs : List { c : Call // c.isBody = true }) :
    let o := m.writeHead s statusCode reasonPhrase headers
    let p := m.prepareHead statusCode
    let lines := storedLines m headers
    let m' := (callAll (o.self, o.socket) cs).1
    o.ret = .ok none →
      m'.header = some (OutgoingMessage.statusLine statusCode reasonPhrase ++
        blockText (blockLines p lines) ++ crlf) ∧
      ((m'.last = false → Delimited m' (blockLines p lines)) ↔ delimitable p lines = true) := by
  intro o p lines m' hok
  have ho : o = OutgoingMessage.sendBlock s (m.headBlock statusCode reasonPhrase headers) :=
    OutgoingMessage.writeHead_eq m s statusCode reasonPhrase headers
  rcases hblock : m.headBlock statusCode reasonPhrase headers with ⟨err, m₁⟩ | ⟨m₁, early⟩
  · rw [ho, hblock] at hok
    cases hok
  · obtain ⟨hframe, hsome, -⟩ := OutgoingMessage.headBlock_ok hblock
    obtain ⟨-, -, hsent, -⟩ := OutgoingMessage.sendBlock_ok s hblock hframe hsome
    rw [← ho] at hsent
    have hheader : o.self.header.isSome := by rw [hsent]; exact hsome
    have hbody := hsent.trans (callAll_body (w := (o.self, o.socket)) hheader cs)
    have hstored := headBlock_stored hblock
    have hp : p.last = m.last ∧ p.chunkedEncoding = m.chunkedEncoding := by
      simp only [p]
      unfold OutgoingMessage.prepareHead
      dsimp only
      split_ifs <;> exact ⟨rfl, rfl⟩
    have hm : m'.header = m₁.header ∧ m'.last = m₁.last ∧ m'.hasBody = m₁.hasBody ∧
        m'.chunkedEncoding = m₁.chunkedEncoding := by
      change BodyFrame m₁ m' at hbody
      rw [hbody]
      exact ⟨rfl, rfl, rfl, rfl⟩
    have hiff := stored_delimited { p with statusCode := statusCode }
      (OutgoingMessage.statusLine statusCode reasonPhrase) lines (hp.1.trans hlast)
      (hp.2.trans hchunked)
    unfold Delimited at hiff ⊢
    rw [hm.1, hm.2.1, hm.2.2.1, hm.2.2.2, hstored]
    exact ⟨rfl, hiff⟩

/-- A response that leaves the connection open when it finishes says where it ends if and only
if its headers meet the condition `delimitable`. The call `first` stores the header block, `p` is
the message as `_storeHeader` finds it, and the calls `cs` are those up to `finish` and behind
it. -/
theorem self_delimiting_iff (id : ℕ) (runtime : Runtime) (req : IncomingRequest) (s : Socket)
    (status : ℕ) (setup : List { c : Call // c.isSetup = true })
    (first : { c : Call // c.isSetup = false }) (cs : List { c : Call // c.isBody = true }) :
    let res : OutgoingMessage := { serverResponse id runtime req with
      expectContinue := req.expectContinue, statusCode := status }
    let r := callAll (res, s) setup
    let o := first.1.apply r.1 r.2
    let head := first.1.head r.1
    let p := r.1.prepareHead head.statusCode
    let lines := storedLines r.1 head.headers
    let m := (callAll (o.self, o.socket) cs).1
    (∃ v, o.ret = .ok v) →
      m.header = some (OutgoingMessage.statusLine head.statusCode head.reasonPhrase ++
        blockText (blockLines p lines) ++ crlf) ∧
      ((m.last = false → Delimited m (blockLines p lines)) ↔ delimitable p lines = true) := by
  rintro res r o head p lines m ⟨v, hok⟩
  have hsetup := callAll_setup (res, s) setup
  obtain ⟨hret, cs', hfirst⟩ :=
    first_call hsetup.kind hsetup.header hsetup.finished first hok
  have hm : m = (callAll ((r.1.writeHead r.2 head.statusCode head.reasonPhrase head.headers).self,
      (r.1.writeHead r.2 head.statusCode head.reasonPhrase head.headers).socket) (cs' ++ cs)).1 := by
    change (callAll (o.self, o.socket) cs).1 = _
    rw [hfirst]
    exact congrArg Prod.fst (run_append _ cs' cs).symm
  rw [hm]
  exact writeHead_delimiting r.1 r.2 head.statusCode head.reasonPhrase head.headers hsetup.last
    hsetup.chunkedEncoding (cs' ++ cs) hret

/-- A request whose response may keep the connection alive. -/
def plainRequest : IncomingRequest where
  method := "GET".toList
  httpVersionMajor := 1
  httpVersionMinor := 1
  shouldKeepAlive := true
  expect := none

theorem self_delimiting_iff_plain :
    let res : OutgoingMessage := { serverResponse 0 (.inOrder []) plainRequest with
      expectContinue := plainRequest.expectContinue, statusCode := 200 }
    let o := res.finish (.fresh []) none none
    o.self.header = some (OutgoingMessage.statusLine 200 none ++
      blockText (blockLines res []) ++ crlf) ∧
    ((o.self.last = false → Delimited o.self (blockLines res [])) ↔
      delimitable res [] = true) :=
  self_delimiting_iff 0 (.inOrder []) plainRequest (.fresh []) 200 [] ⟨.finish none none, rfl⟩ []
    ⟨_, rfl⟩

/-- A response with a header that looks like 'Content-Length' is written as it is and the
connection is left open. -/
theorem lookalike_undelimited :
    ¬ ∀ (id : ℕ) (runtime : Runtime) (req : IncomingRequest) (s : Socket) (status : ℕ)
      (setup : List { c : Call // c.isSetup = true })
      (first : { c : Call // c.isSetup = false }) (cs : List { c : Call // c.isBody = true }),
      let res : OutgoingMessage := { serverResponse id runtime req with
        expectContinue := req.expectContinue, statusCode := status }
      let r := callAll (res, s) setup
      let o := first.1.apply r.1 r.2
      let head := first.1.head r.1
      let m := (callAll (o.self, o.socket) cs).1
      (∃ v, o.ret = .ok v) → m.last = false →
        Delimited m (blockLines (r.1.prepareHead head.statusCode)
          (storedLines r.1 head.headers)) := by
  intro h
  have hbad := h 0 (.inOrder []) plainRequest (.fresh []) 200 []
    ⟨.writeHead 200 none (some (.map [("X-Content-Length".toList, .one (.str "5".toList))])), rfl⟩
    [⟨.write (.text "hello".toList) none, rfl⟩, ⟨.finish none none, rfl⟩] ⟨_, rfl⟩
  revert hbad
  decide

/-! ### Headers that do not steer the connection -/

/-- `t'` is the header table `t` with one more header. In a map it has no place of its own:
`pairs` may walk the two maps in any order. -/
inductive HeaderTable.Plus (name : Str) (value : HeaderValue) : HeaderTable → HeaderTable → Prop
  | map (entries : List (Str × HeaderValue)) :
    Plus name value (.map entries) (.map (entries ++ [(name, value)]))
  | array (before after : List (Str × HeaderValue)) :
    Plus name value (.array (before ++ after)) (.array (before ++ (name, value) :: after))

/-- Two runs of `_storeHeader` that do the same, up to the header lines they are given. -/
def Agree (firstLine : Str) (lines lines' : List (Str × Scalar)) :
    Except (LuaError × OutgoingMessage) (OutgoingMessage × Bool) →
    Except (LuaError × OutgoingMessage) (OutgoingMessage × Bool) → Prop
  | .ok (m, early), .ok (m', early') =>
    m'.last = m.last ∧ m'.chunkedEncoding = m.chunkedEncoding ∧
    m'.shouldKeepAlive = m.shouldKeepAlive ∧ early' = early ∧
    ∃ added, m.header = some (firstLine ++ blockText (lineTexts lines ++ added) ++ crlf) ∧
      m'.header = some (firstLine ++ blockText (lineTexts lines' ++ added) ++ crlf)
  | .error _, .error _ => True
  | _, _ => False

/-- A header has no influence on what `_storeHeader` does with the others. -/
def Irrelevant (name : Str) (value : HeaderValue) : Prop :=
  ∀ (m : OutgoingMessage) (firstLine : Str) (t t' : HeaderTable), t.Plus name value t' →
    Agree firstLine (headerLines (t.walk m.runtime)) (headerLines (t'.walk m.runtime))
      (m.renderBlock firstLine t) (m.renderBlock firstLine t')

/-- The lines of the longer table are those of the shorter one and those of the header. -/
theorem plus_lines {name : Str} {value : HeaderValue} {t t' : HeaderTable} (rt : Runtime)
    (h : t.Plus name value t') :
    (headerLines (t'.walk rt)).Perm
      (headerLines [(name, value)] ++ headerLines (t.walk rt)) := by
  have hflat : ∀ es es' : List (Str × HeaderValue), es'.Perm ((name, value) :: es) →
      (headerLines es').Perm (headerLines [(name, value)] ++ headerLines es) := by
    intro es es' hperm
    have hcons : headerLines ((name, value) :: es) =
        headerLines [(name, value)] ++ headerLines es := by simp [headerLines]
    rw [← hcons]
    exact hperm.flatMap_right _
  cases h with
  | map entries =>
    refine hflat _ _ ((rt.pairs_perm _).trans ?_)
    exact (List.perm_append_singleton _ _).trans ((rt.pairs_perm entries).symm.cons _)
  | array before after => exact hflat _ _ List.perm_middle

/-- Every test on lines has the same answer when lines of no kind are added. -/
theorem any_plus {f : Str × Scalar → Bool} {lines lines' extra : List (Str × Scalar)}
    (hperm : lines'.Perm (extra ++ lines)) (hextra : ∀ l ∈ extra, f l = false) :
    lines'.any f = lines.any f := by
  rw [hperm.any_eq, List.any_append]
  have hnone : extra.any f = false := by simpa using hextra
  rw [hnone, Bool.false_or]

/-- The header block of one run follows from that of the other. -/
theorem agree_of_tests {m : OutgoingMessage} {firstLine : Str} {t t' : HeaderTable}
    (hkind : ∀ kind, hasKind kind (headerLines (t'.walk m.runtime)) =
      hasKind kind (headerLines (t.walk m.runtime)))
    (hword : ∀ kind word, hasWord kind word (headerLines (t'.walk m.runtime)) =
      hasWord kind word (headerLines (t.walk m.runtime)))
    (hkeeps : keepsAlive (headerLines (t'.walk m.runtime)) =
      keepsAlive (headerLines (t.walk m.runtime)))
    (hraises : (∀ l ∈ headerLines (t'.walk m.runtime), raises l = false) ↔
      ∀ l ∈ headerLines (t.walk m.runtime), raises l = false) :
    Agree firstLine (headerLines (t.walk m.runtime)) (headerLines (t'.walk m.runtime))
      (m.renderBlock firstLine t) (m.renderBlock firstLine t') := by
  have hauto : automatic m (headerLines (t'.walk m.runtime)) =
      automatic m (headerLines (t.walk m.runtime)) := by
    simp only [automatic, hkind]
  rcases hr : m.renderBlock firstLine t with e | ⟨a, early⟩
  · rcases hr' : m.renderBlock firstLine t' with e' | ⟨b, early'⟩
    · trivial
    · have hok := (renderBlock_iff _ _ _ _ _).mp hr'
      have := (renderBlock_iff m _ firstLine t _).mpr ⟨hraises.mp hok.1, rfl, rfl⟩
      rw [hr] at this
      cases this
  · obtain ⟨hok, rfl, rfl⟩ := (renderBlock_iff _ _ _ _ _).mp hr
    rw [(renderBlock_iff m _ firstLine t' _).mpr ⟨hraises.mpr hok, rfl, rfl⟩]
    refine ⟨?_, ?_, ?_, hkind _, automatic m (headerLines (t.walk m.runtime)), rfl, ?_⟩
    · simp only [OutgoingMessage.stored, hkind, hword]
    · simp only [OutgoingMessage.stored, hkind, hword]
    · simp only [OutgoingMessage.stored, hkeeps]
    · simp only [OutgoingMessage.stored, blockLines, hauto]

theorem agree_of_plus {name : Str} {value : HeaderValue}
    (hnone : headerKind name = none ∨ value.scalars = []) : Irrelevant name value := by
  intro m firstLine t t' hplus
  have hperm := plus_lines m.runtime hplus
  -- the lines of the header, if there are any, have names of no kind
  have hextra : ∀ l ∈ headerLines [(name, value)], headerKind l.1 = none := by
    intro l hl
    simp only [headerLines, List.flatMap_cons, List.flatMap_nil, List.append_nil,
      List.mem_map] at hl
    obtain ⟨v, hv, rfl⟩ := hl
    rcases hnone with h | h
    · exact h
    · simp [h] at hv
  refine agree_of_tests (fun kind => any_plus hperm fun l hl => ?_)
    (fun kind word => any_plus hperm fun l hl => ?_) (any_plus hperm fun l hl => ?_) ?_
  · simp [hextra l hl]
  · simp [hextra l hl]
  · simp [hextra l hl]
  · have hraise : ∀ l ∈ headerLines [(name, value)], raises l = false := by
      intro l hl
      simp [raises, hextra l hl]
    constructor
    · exact fun h l hl => h l (hperm.mem_iff.mpr (List.mem_append_right _ hl))
    · intro h l hl
      rcases List.mem_append.mp (hperm.mem_iff.mp hl) with hl | hl
      · exact hraise l hl
      · exact h l hl

/-- A response as the server makes it. -/
def plainResponse : OutgoingMessage := serverResponse 0 (.inOrder []) plainRequest

/-- A header of some kind takes one of the automatic lines away from a response that has no
other header, or has the block sent early. -/
theorem relevant_of_kind {name : Str} {value : HeaderValue} {kind : HeaderKind}
    (hkind : headerKind name = some kind) (hvalue : value.scalars ≠ []) :
    ¬ Irrelevant name value := by
  intro h
  have hagree := h plainResponse [] (.map []) (.map [(name, value)]) (.map [])
  have hwalk : headerLines (HeaderTable.walk plainResponse.runtime (.map [])) = [] := rfl
  obtain ⟨lines, hlines⟩ : ∃ lines, lines =
    headerLines (HeaderTable.walk plainResponse.runtime (.map [(name, value)])) := ⟨_, rfl⟩
  have hall : ∀ other, hasKind other lines = decide (kind = other) := by
    intro other
    obtain ⟨v, vs, hvs⟩ := List.exists_cons_of_ne_nil hvalue
    rw [hlines]
    change hasKind other (headerLines [(name, value)]) = _
    simp only [hasKind, headerLines, List.flatMap_cons, List.flatMap_nil, List.append_nil,
      List.any_map, hvs, List.any_cons, Function.comp_apply, hkind, Option.some.injEq]
    by_cases hk : kind = other <;> simp [hk, hkind]
  rw [hwalk, ← hlines, (renderBlock_iff plainResponse _ [] (.map []) false).mpr
    ⟨by simp [hwalk], rfl, rfl⟩, hwalk] at hagree
  rcases hr : plainResponse.renderBlock [] (.map [(name, value)]) with e | ⟨b, early⟩
  · rw [hr] at hagree
    exact hagree
  · obtain ⟨-, hb, hearly⟩ := (renderBlock_iff _ _ _ _ _).mp hr
    rw [← hlines] at hb hearly
    rw [hr, hb, hearly] at hagree
    obtain ⟨-, -, -, hexpect, added, hheader, hheader'⟩ := hagree
    rw [hall] at hexpect
    simp only [OutgoingMessage.stored, Option.some.injEq, List.nil_append,
      List.append_cancel_right_eq, blockLines, blockText_append] at hheader hheader'
    have htext : blockText (automatic plainResponse lines) =
        blockText (automatic plainResponse []) :=
      (List.append_cancel_left hheader').trans (List.append_cancel_left hheader).symm
    simp only [automatic, hall] at htext
    cases kind
    case expect => simp at hexpect
    all_goals revert htext; decide

/-- The exact condition under which a header has no influence: its name contains none of the
five words, or it has no line. -/
theorem irrelevant_iff (name : Str) (value : HeaderValue) :
    Irrelevant name value ↔ headerKind name = none ∨ value.scalars = [] := by
  refine ⟨fun h => ?_, agree_of_plus⟩
  by_contra hne
  rw [not_or] at hne
  obtain ⟨kind, hkind⟩ := Option.ne_none_iff_exists'.mp hne.1
  exact relevant_of_kind hkind hne.2 h

/-- The names that are to decide about a header block. -/
def steeringNames : List Str :=
  ["connection".toList, "transfer-encoding".toList, "content-length".toList, "date".toList,
    "expect".toList]

/-- 'Proxy-Connection' is taken for 'Connection'. -/
theorem proxyConnection_relevant :
    ¬ ∀ (name : Str) (value : HeaderValue), lower name ∉ steeringNames →
      Irrelevant name value := by
  intro h
  have hkind : headerKind "Proxy-Connection".toList = some .connection := by decide
  exact relevant_of_kind hkind (by decide)
    (h "Proxy-Connection".toList (.one (.str "close".toList)) (by decide))

end LuaNode
