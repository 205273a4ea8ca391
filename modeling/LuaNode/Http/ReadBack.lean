import LuaNode.HttpParser.Messages
import LuaNode.Http.MessageBytes

/-!
# What is written is read back

The header block of `_storeHeader` and the chunks behind it, as a message of `http_parser`: what a
response puts on the wire is what the parser on the other side tells its callbacks.
-/

namespace LuaNode

/-! ### Header blocks -/

theorem headerLine_eq (l : Str × Str) : headerLine l.1 l.2 = HttpParser.lineText l := by
  simp [headerLine, HttpParser.lineText, crlf]

theorem blockText_eq (ls : List (Str × Str)) : blockText ls = HttpParser.linesText ls := by
  simp only [blockText, HttpParser.linesText, headerLine_eq]

theorem statusLine_eq (code : ℕ) (phrase : Option Str) :
    OutgoingMessage.statusLine code phrase =
      HttpParser.statusLine '1' '1' (decimal code)
        (phrase.getD (OutgoingMessage.statusPhrase code).toList) := by
  unfold OutgoingMessage.statusLine HttpParser.statusLine
  generalize phrase.getD (OutgoingMessage.statusPhrase code).toList = reason
  simp [crlf]

/-- The response of `writeHead` with these lines, as the other side sees it. -/
def OutgoingMessage.response (m : OutgoingMessage) (code : ℕ) (phrase : Option Str)
    (lines : List (Str × Scalar)) (b : HttpParser.Body) : HttpParser.Message :=
  ⟨.response '1' '1' (decimal code) (phrase.getD (statusPhrase code).toList), blockLines m lines, b⟩

/-- The block that is stored is the head of this message. -/
theorem stored_header (m : OutgoingMessage) (code : ℕ) (phrase : Option Str)
    (lines : List (Str × Scalar)) (b : HttpParser.Body) :
    (m.stored (OutgoingMessage.statusLine code phrase) lines).header =
      some (m.response code phrase lines b).headText := by
  rw [OutgoingMessage.stored, statusLine_eq, blockText_eq]
  rfl

/-- The status of a response is three digits or less. -/
theorem decimal_valid {code : ℕ} (hcode : code ≤ 999) :
    (∀ ch ∈ decimal code, HttpParser.isNumByte ch = true) ∧ decimal code ≠ [] ∧
      Nat.ofDigitChars 10 (decimal code) 0 ≤ 999 := by
  refine ⟨fun ch hch => ?_, ?_, ?_⟩
  · have hdigit := Nat.isDigit_of_mem_toDigits (by decide) (by decide) hch
    simpa [HttpParser.isNumByte, Char.isDigit, Char.le_def] using hdigit
  · exact Nat.toDigits_ne_nil
  · rw [decimal, Nat.ofDigitChars_toDigits (by decide) (by decide)]
    exact hcode

/-! ### Chunks -/

namespace HttpParser

/-- No line takes it back. -/
theorem chunked_kept {q : HttpParser} (hq : q.flags.chunked = true) (ls : List (Str × Str)) :
    (q.lines ls).flags.chunked = true := by
  induction ls generalizing q with
  | nil => exact hq
  | cons l ls ih =>
    refine ih ?_
    unfold line header
    split
    case h_5 => exact hq
    all_goals split_ifs <;> first | exact hq | rfl

/-- A line `Transfer-Encoding: chunked` is understood, whatever stands around it. -/
theorem chunked_of_mem {q : HttpParser} {ls : List (Str × Str)}
    (h : ("Transfer-Encoding".toList, "chunked".toList) ∈ ls) : (q.lines ls).flags.chunked = true := by
  induction ls generalizing q with
  | nil => cases h
  | cons l ls ih =>
    rcases List.mem_cons.mp h with rfl | h
    · have hkind : fieldKind (lower "Transfer-Encoding".toList) = .transferEncoding := by decide
      have hword : ValueIs chunkedText "chunked".toList := by decide
      have hheader : q.header .transferEncoding "chunked".toList =
          { q with flags := { q.flags with chunked := true } } := by
        rw [header, if_pos hword]
      refine chunked_kept ?_ ls
      rw [line, hkind, hheader]
    · exact ih h

theorem upgrade_kept (q : HttpParser) {ls : List (Str × Str)}
    (h : ∀ l ∈ ls, fieldKind (lower l.1) ≠ .upgrade) :
    (q.lines ls).flags.upgrade = q.flags.upgrade := by
  induction ls generalizing q with
  | nil => rfl
  | cons l ls ih =>
    obtain ⟨hl, hls⟩ := List.forall_mem_cons.mp h
    refine (ih (q.line l) hls).trans ?_
    unfold line header
    split
    case h_4 heq => exact absurd heq hl
    case h_5 => rfl
    all_goals split_ifs <;> rfl

end HttpParser

/-- A response in chunks whose block is read as it is meant. -/
structure OutgoingMessage.Readable (m : OutgoingMessage) (code : ℕ) (phrase : Option Str)
    (lines : List (Str × Scalar)) : Prop where
  status : code ≤ 999
  reason : ∀ ch ∈ phrase.getD (statusPhrase code).toList, ch ≠ '\r' ∧ ch ≠ '\n'
  headers : ∀ l ∈ blockLines m lines, HttpParser.IsLine l
  upgrade : ∀ l ∈ blockLines m lines, HttpParser.fieldKind (lower l.1) ≠ .upgrade
  encoding : ("Transfer-Encoding".toList, "chunked".toList) ∈ blockLines m lines
  size : (m.response code phrase lines .empty).headText.length ≤ httpMaxHeaderSize

section Readable

variable {σ : Type*} {c : HttpParser.Consumer σ} {m : OutgoingMessage} {code : ℕ}
  {phrase : Option Str} {lines : List (Str × Scalar)}

open HttpParser in
theorem OutgoingMessage.Readable.fits (h : m.Readable code phrase lines)
    (hskip : ∀ q u, c.skipBody q u = false) (u : σ) {ss : List Str}
    (hss : ∀ s ∈ ss, s ≠ [] ∧ s.length < ullongMax) {trailers : List (Str × Str)}
    (htrailers : ∀ l ∈ trailers, IsLine l)
    (hsize : (linesText trailers).length + 2 ≤ httpMaxHeaderSize) :
    (m.response code phrase lines (.chunked ss trailers)).Fits c 0 (HttpParser.init .response, u) := by
  obtain ⟨hdigits, hne, hle⟩ := decimal_valid h.status
  set q := (HttpParser.init .response).answered '1' '1' (Nat.ofDigitChars 10 (decimal code) 0)
  obtain ⟨-, hflag, -, hmethod⟩ := lines_flags q (blockLines m lines)
  refine ⟨⟨rfl, rfl, hdigits, hne, hle, h.reason⟩, rfl, h.headers, ?_, ?_, ?_⟩
  · rw [Nat.zero_add]
    exact h.size
  · change ((q.lines (blockLines m lines)).flags.upgrade ||
      decide ((q.lines (blockLines m lines)).method = .connect)) = false
    rw [upgrade_kept q h.upgrade, hmethod]
    rfl
  · have hanswer : (m.response code phrase lines (.chunked ss trailers)).answered c
        (HttpParser.init .response, u) = (q.lines (blockLines m lines)).headed := by
      unfold Message.answered
      rw [hskip]
      rfl
    rw [hanswer]
    exact ⟨hflag, chunked_of_mem h.encoding, hss, htrailers, hsize⟩

end Readable

namespace Delivery

variable {σ : Type*} {c : HttpParser.Consumer σ}

open HttpParser (IsLine linesText) in
/-- The strings that a handler writes in chunks are those that the parser on the other side tells
its callbacks, behind the header block and before the trailers, whatever the schedule of the
message and however its bytes arrive. -/
theorem response_read_back (hc : c.Plain) (hskip : ∀ q u, c.skipBody q u = false) (u : σ)
    {w : Delivery} (hw : Unwritten [] w) {es : List Event} (hg : Guarded step Scheduled w es)
    (hfin : ∃ data encoding, .call (.finish data encoding) ∈ es) {w' : Delivery}
    (hrun : run step w es = w') (hbody : w'.msg.hasBody = true)
    (hchunked : w'.msg.chunkedEncoding = true)
    (hsent : w'.gone = true ∨
      w'.msg.connection = true ∧ w'.socket.httpMessage = some w'.msg.id)
    {o : OutgoingMessage} {code : ℕ} {phrase : Option Str} {lines : List (Str × Scalar)}
    (ho : o.Readable code phrase lines)
    (hblock : w'.msg.header = (o.stored (OutgoingMessage.statusLine code phrase) lines).header)
    (hsize : ∀ s ∈ written es, s.length < ullongMax) {trailers : List (Str × Str)}
    (htrailer : w'.msg.trailer = linesText trailers) (htrailers : ∀ l ∈ trailers, IsLine l)
    (hcount : (linesText trailers).length + 2 ≤ httpMaxHeaderSize)
    {ds : List Str} (hds : ∀ d ∈ ds, d ≠ []) (hflatten : ds.flatten = w'.sent) :
    ∃ s i, (HttpParser.init .response).feed c.settings u ds =
      let m := o.response code phrase lines (.chunked (written es) trailers)
      let x := m.read c (HttpParser.init .response, u)
      some ⟨x.1.scratch x.1.state s i m.body.counted, x.2, ds.flatten.length⟩ := by
  subst hrun
  obtain ⟨block, hheader, hstream, hwire⟩ := chunked_stream [] w hw es hg hfin hbody hchunked
  set m := o.response code phrase lines (.chunked (written es) trailers) with hm
  obtain rfl : block = m.headText := by
    rw [hheader, stored_header o code phrase lines m.body] at hblock
    exact Option.some_injective _ hblock
  have htext : ds.flatten = m.text := by
    rw [hflatten, hwire hsent, hstream, htrailer]
    rfl
  have hfits := ho.fits hskip u (fun s hs => ⟨written_ne_nil es s hs, hsize s hs⟩) htrailers hcount
  obtain ⟨s, i, hbytes⟩ := HttpParser.bytes_message hc hfits rfl .general 0
  rw [← hm, ← htext] at hbytes
  exact ⟨s, i, HttpParser.feed_reads (HttpParser.init_fits _) ⟨_, HttpParser.init_inPhase _⟩ hds hbytes⟩

/-- A response that starts in the buffer and ends on the socket. -/
def queued : List Event :=
  [.call (.write (.text ['a', 'b']) none), .attach, .call (.finish (some (.text ['c'])) none)]

theorem queued_scheduled :
    Guarded step Scheduled ⟨serverResponse 0 (.inOrder []) plainRequest, .fresh [], false⟩ queued :=
  ⟨⟨rfl, ⟨_, rfl⟩, Or.inl rfl⟩, trivial, ⟨rfl, ⟨_, rfl⟩, Or.inl rfl⟩, trivial⟩

theorem queued_readable :
    (serverResponse 0 (.inOrder []) plainRequest).Readable 200 none [] := by
  have hreason : ∀ ch ∈ ['O', 'K'], ch ≠ '\r' ∧ ch ≠ '\n' := by simp
  exact ⟨by decide, hreason, by decide, by decide, by decide, by decide⟩

theorem response_read_back_queued :
    let w' := run step ⟨serverResponse 0 (.inOrder []) plainRequest, .fresh [], false⟩ queued
    ∃ s i, (HttpParser.init .response).feed HttpParser.bodyText.settings [] [w'.sent] =
      let m := (serverResponse 0 (.inOrder []) plainRequest).response 200 none []
        (.chunked (written queued) [])
      let x := m.read HttpParser.bodyText (HttpParser.init .response, [])
      some ⟨x.1.scratch x.1.state s i m.body.counted, x.2, [w'.sent].flatten.length⟩ :=
  response_read_back HttpParser.bodyText_plain (fun _ _ => rfl) []
    (serverResponse_unwritten 0 (.inOrder []) plainRequest []) queued_scheduled
    ⟨some (.text ['c']), none, .tail _ (.tail _ (.head _))⟩ rfl rfl rfl (.inl rfl) queued_readable rfl
    (by decide) rfl (List.forall_mem_nil _) (by decide) (by decide) List.flatten_singleton

end Delivery

end LuaNode
