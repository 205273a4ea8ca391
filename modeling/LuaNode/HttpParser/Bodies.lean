import LuaNode.HttpParser.HeaderLines
import LuaNode.Library.ChunkedCoding

/-!
# Bodies

What stands behind the headers of a message: nothing, as many bytes as `Content-Length` says, or
chunks with a block of trailers. The data go to `on_body`, and behind the last byte the message is
complete.
-/

namespace LuaNode

namespace HttpParser

variable {σ : Type*} {c : Consumer σ} {q : HttpParser} {u : σ}

/-! ### The blank line -/

/-- The parser that `on_headers_complete` sees. -/
def headed (q : HttpParser) : HttpParser :=
  { q with state := .headersDone, upgrade := q.flags.upgrade || decide (q.method = .connect) }

/-- The same with its answer. -/
def answer (q : HttpParser) (skip : Bool) : HttpParser :=
  if skip then { q with flags := { q.flags with skipBody := true } } else q

theorem Consumer.bytes_singleton (c : Consumer σ) (ch : Char) (x : HttpParser × σ) :
    c.bytes [ch] x = c.byte x ch := by
  rw [bytes]
  cases c.byte x ch <;> rfl

theorem byte_lineEnd (hs : q.state.startsLine) {n : ℕ} (hn : n < httpMaxHeaderSize) :
    c.byte ({ q with nread := n }, u) '\r' =
      .ok ({ q.withState .headersAlmostDone with nread := n + 1 }, u) := by
  rcases hs with hs | hs <;>
    · rw [byte_header (by rw [hs]; rfl) hn]
      simp [onByte, hs, headerValueLws, headerFieldStart, withState, Action.told, firstMark]

/-- The last byte of the headers. -/
theorem byte_headEnd (htrailing : q.flags.trailing = false) {n : ℕ} (hn : n + 2 ≤ httpMaxHeaderSize)
    {p : HttpParser} (hp : { q.headed with nread := n + 2 } = p) :
    c.byte ({ q.withState .headersAlmostDone with nread := n + 1 }, u) '\n' =
      ((p.answer (c.skipBody p u)).headersDone '\n').told c '\n' none (c.headersComplete p u) := by
  subst hp
  have haction : ({ q.withState .headersAlmostDone with nread := n + 2 } : HttpParser).onByte '\n' =
      .headersComplete { q.headed with nread := n + 2 } fun q => headersDone q '\n' := by
    simp only [onByte, headersAlmostDone, withState, htrailing, ne_eq, not_true_eq_false, if_false,
      Bool.false_eq_true]
    rfl
  rw [byte_header rfl (by omega), haction]
  rfl

theorem bytes_headEnd (hs : q.state.startsLine) (htrailing : q.flags.trailing = false) {n : ℕ}
    (hn : n + 2 ≤ httpMaxHeaderSize) {p : HttpParser} (hp : { q.headed with nread := n + 2 } = p) :
    c.bytes crlf ({ q with nread := n }, u) =
      ((p.answer (c.skipBody p u)).headersDone '\n').told c '\n' none (c.headersComplete p u) := by
  rw [crlf, Consumer.bytes, byte_lineEnd hs (by omega)]
  exact (c.bytes_singleton _ _).trans (byte_headEnd htrailing hn hp)

/-- Behind the trailers. -/
theorem bytes_trailerEnd (hs : q.state.startsLine) (htrailing : q.flags.trailing = true) {n : ℕ}
    (hn : n + 2 ≤ httpMaxHeaderSize) :
    c.bytes crlf ({ q with nread := n }, u) =
      .ok ({ q.withState q.newMessage with nread := n + 2 }, c.notice .messageComplete u) := by
  have haction : ({ q.withState .headersAlmostDone with nread := n + 2 } : HttpParser).onByte '\n' =
      complete { q.withState .headersAlmostDone with nread := n + 2 } := by
    simp [onByte, headersAlmostDone, withState, htrailing]
  rw [crlf, Consumer.bytes, byte_lineEnd hs (by omega)]
  refine (c.bytes_singleton _ _).trans ?_
  rw [byte_header rfl (by omega), haction]
  rfl

/-! ### Data of a known length -/

/-- Bytes that are counted down. By induction on the data. -/
theorem bytes_counted (rest : ℕ → HttpParser) (last : σ → σ) {bound : ℕ}
    (hnext : ∀ n u ch, n + 2 < bound →
      c.byte (rest (n + 2), u) ch = .ok (rest (n + 1), c.data .body [ch] u))
    (hlast : ∀ u ch, c.byte (rest 1, u) ch = .ok (rest 0, last (c.data .body [ch] u)))
    {s : Str} (hne : s ≠ []) (hlt : s.length < bound) :
    c.bytes s (rest s.length, u) = .ok (rest 0, last (c.data .body s u)) := by
  induction s generalizing u with
  | nil => exact absurd rfl hne
  | cons ch s ih =>
    cases s with
    | nil =>
      rw [Consumer.bytes, List.length_singleton, hlast]
      rfl
    | cons ch' s =>
      rw [Consumer.bytes, List.length_cons, List.length_cons, hnext _ _ _ hlt]
      have hrest := ih (u := c.data .body [ch] u) (by simp) (Nat.lt_of_succ_lt hlt)
      rw [← c.data_append] at hrest
      exact hrest

/-- A byte of data, and what follows where the length is counted. -/
theorem byte_counted {n : ℕ} (hq : q.contentLength = n + 1) (hlt : n + 1 < ullongMax) (ch : Char) :
    (q.state = .bodyIdentity →
      c.byte (q, u) ch = (q.identityRead 1).told c ch (some .body) u) ∧
    (q.state = .chunkData → q.flags.chunked = true →
      c.byte (q, u) ch = (q.chunkRead 1).told c ch (some .body) u) := by
  have hasserted : q.lengthAsserted := ⟨by omega, by omega⟩
  constructor
  · intro hs
    simp only [Consumer.byte, readByte, hs, HttpState.parsingHeader, onByte, bodyIdentity,
      if_pos hasserted]
    rfl
  · intro hs hchunked
    simp only [Consumer.byte, readByte, hs, HttpState.parsingHeader, onByte, chunkData,
      if_pos (And.intro hchunked hasserted)]
    rfl

theorem bytes_identity {s : Str} (hne : s ≠ []) (hlt : s.length < ullongMax) :
    c.bytes s ({ q with state := .bodyIdentity, contentLength := s.length }, u) =
      .ok ({ q with contentLength := 0, state := ({ q with contentLength := 0 } : HttpParser).newMessage },
        c.notice .messageComplete (c.data .body s u)) := by
  let rest : ℕ → HttpParser
    | 0 => { q with
        contentLength := 0, state := ({ q with contentLength := 0 } : HttpParser).newMessage }
    | n + 1 => { q with state := .bodyIdentity, contentLength := n + 1 }
  have hstart : { q with state := .bodyIdentity, contentLength := s.length } = rest s.length := by
    cases s with
    | nil => exact absurd rfl hne
    | cons => rfl
  rw [hstart]
  refine bytes_counted rest (c.notice .messageComplete) ?_ ?_ hne hlt
  · intro n u ch h
    exact ((byte_counted (q := rest (n + 2)) rfl h ch).1 rfl).trans rfl
  · intro u ch
    exact ((byte_counted (q := rest 1) rfl (by decide) ch).1 rfl).trans rfl

theorem bytes_chunkData (hchunked : q.flags.chunked = true) {s : Str} (hne : s ≠ [])
    (hlt : s.length < ullongMax) :
    c.bytes s ({ q with state := .chunkData, contentLength := s.length }, u) =
      .ok ({ q with state := .chunkDataAlmostDone, contentLength := 0 }, c.data .body s u) := by
  let rest : ℕ → HttpParser
    | 0 => { q with state := .chunkDataAlmostDone, contentLength := 0 }
    | n + 1 => { q with state := .chunkData, contentLength := n + 1 }
  have hstart : { q with state := .chunkData, contentLength := s.length } = rest s.length := by
    cases s with
    | nil => exact absurd rfl hne
    | cons => rfl
  rw [hstart]
  refine bytes_counted rest id ?_ ?_ hne hlt
  · intro n u ch h
    exact ((byte_counted (q := rest (n + 2)) rfl h ch).2 rfl hchunked).trans rfl
  · intro u ch
    exact ((byte_counted (q := rest 1) rfl (by decide) ch).2 rfl hchunked).trans rfl

/-! ### Chunks -/

theorem length_size {n : ℕ} (hn : n < ullongMax) : (hex n).length ≤ 16 := by
  refine (Nat.length_toDigits_le_iff (by decide) (by decide)).mpr ?_
  unfold ullongMax at hn
  omega

/-- The digits of a size. By induction on the number. -/
theorem bytes_size (hchunked : q.flags.chunked = true) {n : ℕ} (hn : n < ullongMax) :
    c.bytes (hex n) ({ q with state := .chunkSizeStart, nread := 0 }, u) =
      .ok ({ q with state := .chunkSize, contentLength := n, nread := (hex n).length }, u) := by
  induction n using Nat.strong_induction_on with
  | _ n ih =>
    have hlength := length_size hn
    rw [hex_eq] at hlength ⊢
    split_ifs at hlength ⊢ with h
    · rw [Consumer.bytes_singleton]
      refine (byte_header (q := q.withState .chunkSizeStart) (n := 0) rfl (by decide)).trans ?_
      simp [onByte, withState, chunkSizeStart, hchunked, hexValue_digitChar h, Action.told, firstMark]
    · have hmod : n % 16 < 16 := Nat.mod_lt _ (by omega)
      have hdigit := hexValue_digitChar hmod
      have hcr : (n % 16).digitChar ≠ '\r' := by
        intro hcr
        rw [hcr, show hexValue '\r' = none by decide] at hdigit
        cases hdigit
      rw [List.length_append, List.length_singleton] at hlength
      refine c.bytes_trans (ih (n / 16) (by omega) (by omega)) ?_
      let q₁ : HttpParser := { q with state := .chunkSize, contentLength := n / 16 }
      have hmore : ({ q₁ with nread := (hex (n / 16)).length + 1 } : HttpParser).moreDigits 16 (n % 16) =
          .next { q₁ with
            nread := (hex (n / 16)).length + 1, contentLength := q₁.contentLength * 16 + n % 16 } :=
        moreDigits_ok (by decide) (by dsimp only [q₁]; omega)
      rw [show q₁.contentLength * 16 + n % 16 = n by dsimp only [q₁]; omega] at hmore
      rw [Consumer.bytes_singleton]
      refine (byte_header (q := q₁) rfl (by unfold httpMaxHeaderSize; omega)).trans ?_
      have haction : ({ q₁ with nread := (hex (n / 16)).length + 1 } : HttpParser).onByte
          (n % 16).digitChar =
          .next { q₁ with nread := (hex (n / 16)).length + 1, contentLength := n } := by
        simp only [onByte, q₁, chunkSize, hchunked, if_true, if_neg hcr, hdigit]
        exact hmore
      rw [haction, List.length_append, List.length_singleton]
      rfl

/-- The line of a size. -/
theorem bytes_sizeLine (hchunked : q.flags.chunked = true) {n : ℕ} (hn : n < ullongMax) :
    c.bytes (hex n ++ crlf) ({ q with state := .chunkSizeStart, nread := 0 }, u) =
      .ok (if n = 0 then { q with
          state := .headerFieldStart, contentLength := 0, nread := 0,
          flags := { q.flags with trailing := true } }
        else { q with state := .chunkData, contentLength := n, nread := 0 }, u) := by
  have hlength := length_size hn
  refine c.bytes_trans (bytes_size hchunked hn) ?_
  have hcr : c.byte ({ q with state := .chunkSize, contentLength := n, nread := (hex n).length }, u)
      '\r' = .ok ({ q with
        state := .chunkSizeAlmostDone, contentLength := n, nread := (hex n).length + 1 }, u) := by
    refine (byte_header (q := { q with state := .chunkSize, contentLength := n }) rfl
      (by unfold httpMaxHeaderSize; omega)).trans ?_
    simp [onByte, chunkSize, hchunked, withState, Action.told, firstMark]
  rw [crlf, Consumer.bytes, hcr]
  refine (c.bytes_singleton _ _).trans ?_
  refine (byte_header (q := { q with state := .chunkSizeAlmostDone, contentLength := n }) rfl
    (by unfold httpMaxHeaderSize; omega)).trans ?_
  by_cases hzero : n = 0 <;>
    simp [onByte, chunkSizeAlmostDone, hchunked, hzero, withState, Action.told, firstMark]

theorem bytes_chunk (hchunked : q.flags.chunked = true) {s : Str} (hne : s ≠ [])
    (hlt : s.length < ullongMax) :
    c.bytes (encodeChunk s) ({ q with state := .chunkSizeStart, nread := 0 }, u) =
      .ok ({ q with state := .chunkSizeStart, contentLength := 0, nread := 0 }, c.data .body s u) := by
  have hpos : s.length ≠ 0 := by simpa using hne
  have hsize := bytes_sizeLine (c := c) (u := u) hchunked hlt
  rw [if_neg hpos] at hsize
  have hdata := bytes_chunkData (c := c) (u := u) (q := { q with nread := 0 }) hchunked hne hlt
  have hcr : c.byte ({ q with state := .chunkDataAlmostDone, contentLength := 0, nread := 0 },
      c.data .body s u) '\r' = .ok ({ q with
        state := .chunkDataDone, contentLength := 0, nread := 0 }, c.data .body s u) := by
    simp [Consumer.byte, readByte, HttpState.parsingHeader, onByte, chunkDataAlmostDone, hchunked,
      callbackData, withState, Action.told, firstMark]
  have hlf : c.byte ({ q with state := .chunkDataDone, contentLength := 0, nread := 0 },
      c.data .body s u) '\n' = .ok ({ q with
        state := .chunkSizeStart, contentLength := 0, nread := 0 }, c.data .body s u) := by
    simp [Consumer.byte, readByte, HttpState.parsingHeader, onByte, chunkDataDone, hchunked,
      Action.told, firstMark]
  rw [encodeChunk]
  refine c.bytes_trans (c.bytes_trans hsize hdata) ?_
  rw [crlf, Consumer.bytes, hcr]
  exact (c.bytes_singleton _ _).trans hlf

/-- The data of the chunks, one after the other. -/
def Consumer.chunks (c : Consumer σ) (ss : List Str) (u : σ) : σ :=
  ss.foldl (fun u s => c.data .body s u) u

theorem bytes_chunks (hchunked : q.flags.chunked = true) {ss : List Str}
    (hss : ∀ s ∈ ss, s ≠ [] ∧ s.length < ullongMax) :
    ∃ k, c.bytes (ss.flatMap encodeChunk) ({ q with state := .chunkSizeStart, nread := 0 }, u) =
      .ok ({ q with state := .chunkSizeStart, contentLength := k, nread := 0 }, c.chunks ss u) := by
  induction ss generalizing q u with
  | nil => exact ⟨q.contentLength, rfl⟩
  | cons s ss ih =>
    obtain ⟨⟨hne, hlt⟩, hss⟩ := List.forall_mem_cons.mp hss
    obtain ⟨k, hrest⟩ := ih (q := { q with contentLength := 0 }) (u := c.data .body s u) hchunked hss
    exact ⟨k, c.bytes_trans (bytes_chunk hchunked hne hlt) hrest⟩

/-- The last chunk, the trailers, and the blank line behind them. -/
theorem bytes_trailers (hchunked : q.flags.chunked = true) {ls : List (Str × Str)}
    (hls : ∀ l ∈ ls, IsLine l) (hn : (linesText ls).length + 2 ≤ httpMaxHeaderSize)
    (q₁ : HttpParser)
    (hq₁ : lines { q with contentLength := 0, flags := { q.flags with trailing := true } } ls = q₁)
    (htrailing : q₁.flags.trailing = true) :
    ∃ s i, c.bytes (hex 0 ++ crlf ++ (linesText ls ++ crlf))
        ({ q with state := .chunkSizeStart, nread := 0 }, u) =
      .ok (q₁.scratch q₁.newMessage s i ((linesText ls).length + 2),
        c.notice .messageComplete (c.lines ls u)) := by
  subst hq₁
  have hsize := bytes_sizeLine (c := c) (u := u) hchunked (n := 0) (by decide)
  rw [if_pos rfl] at hsize
  obtain ⟨state, s, i, hstate, hlines⟩ := bytes_lines (c := c) (u := u)
    (q := { q with
      state := .headerFieldStart, contentLength := 0, flags := { q.flags with trailing := true } })
    hls (.inl rfl) (n := 0) (by omega)
  rw [Nat.zero_add] at hlines
  refine ⟨s, i, c.bytes_trans hsize (c.bytes_trans hlines ?_)⟩
  set q₁ := lines { q with contentLength := 0, flags := { q.flags with trailing := true } } ls
  have hq₁ : lines { q with
      state := .headerFieldStart, contentLength := 0, flags := { q.flags with trailing := true } } ls =
      q₁.scratch .headerFieldStart q.headerState q.index q.nread :=
    lines_scratch { q with contentLength := 0, flags := { q.flags with trailing := true } }
      .headerFieldStart q.headerState q.index q.nread ls
  rw [hq₁]
  exact bytes_trailerEnd (q := q₁.scratch state s i 0) hstate htrailing hn

/-! ### Bodies -/

/-- What stands behind the headers. -/
inductive Body
  | empty
  | sized (s : Str)
  | chunked (ss : List Str) (trailers : List (Str × Str))

namespace Body

def text : Body → Str
  | empty => []
  | sized s => s
  | chunked ss ls => ss.flatMap encodeChunk ++ (hex 0 ++ crlf ++ (linesText ls ++ crlf))

def data : Body → Str
  | empty => []
  | sized s => s
  | chunked ss _ => ss.flatten

def trailers : Body → List (Str × Str)
  | chunked _ ls => ls
  | _ => []

/-- The header bytes that are counted behind the headers. -/
def counted : Body → ℕ
  | chunked _ ls => (linesText ls).length + 2
  | _ => 0

/-- The headers say that the body stands there. -/
def Announced (q : HttpParser) : Body → Prop
  | empty => q.flags.skipBody = true ∨ q.flags.chunked = false ∧
    (q.contentLength = 0 ∨
      q.contentLength = ullongMax ∧ (q.type = .request ∨ q.messageNeedsEof = false))
  | sized s => q.flags.skipBody = false ∧ q.flags.chunked = false ∧ s ≠ [] ∧
    q.contentLength = s.length ∧ s.length < ullongMax
  | chunked ss ls => q.flags.skipBody = false ∧ q.flags.chunked = true ∧
    (∀ s ∈ ss, s ≠ [] ∧ s.length < ullongMax) ∧ (∀ l ∈ ls, IsLine l) ∧
    (linesText ls).length + 2 ≤ httpMaxHeaderSize

end Body

/-- The parser when the message is complete. -/
def bodied (q : HttpParser) : Body → HttpParser
  | .empty => q
  | .sized _ => { q with contentLength := 0 }
  | .chunked _ ls => lines { q with contentLength := 0, flags := { q.flags with trailing := true } } ls

/-- What the callbacks are told. -/
def Consumer.body (c : Consumer σ) : Body → σ → σ
  | .empty, u => u
  | .sized s, u => c.data .body s u
  | .chunked ss ls, u => c.lines ls (c.chunks ss u)

/-- Only the flags and the length of the body depend on the lines. -/
theorem lines_frame (q : HttpParser) (ls : List (Str × Str)) :
    ∃ f k, q.lines ls = { q with flags := f, contentLength := k } := by
  induction ls generalizing q with
  | nil => exact ⟨_, _, rfl⟩
  | cons l ls ih =>
    have hline : ∃ f k, q.line l = { q with flags := f, contentLength := k } := by
      unfold line header
      split
      case h_5 => exact ⟨_, _, rfl⟩
      all_goals split_ifs <;> exact ⟨_, _, rfl⟩
    obtain ⟨f, k, hline⟩ := hline
    obtain ⟨f', k', hrest⟩ := ih (q.line l)
    rw [hline] at hrest
    exact ⟨f', k', by rw [← hrest, ← hline]; rfl⟩

/-- A line says nothing about how the message goes on. -/
theorem header_flags (q : HttpParser) (kind : HeaderState) (v : Str) :
    (q.header kind v).flags.trailing = q.flags.trailing ∧
      (q.header kind v).flags.skipBody = q.flags.skipBody ∧
      (q.header kind v).upgrade = q.upgrade ∧ (q.header kind v).method = q.method := by
  unfold header
  split
  case h_5 => exact ⟨rfl, rfl, rfl, rfl⟩
  all_goals split_ifs <;> exact ⟨rfl, rfl, rfl, rfl⟩

theorem lines_flags (q : HttpParser) (ls : List (Str × Str)) :
    (q.lines ls).flags.trailing = q.flags.trailing ∧
      (q.lines ls).flags.skipBody = q.flags.skipBody ∧
      (q.lines ls).upgrade = q.upgrade ∧ (q.lines ls).method = q.method := by
  induction ls generalizing q with
  | nil => exact ⟨rfl, rfl, rfl, rfl⟩
  | cons l ls ih =>
    obtain ⟨htrailing, hskip, hupgrade, hmethod⟩ := ih (q.line l)
    obtain ⟨htrailing', hskip', hupgrade', hmethod'⟩ := header_flags q (fieldKind (lower l.1)) l.2
    exact ⟨htrailing.trans htrailing', hskip.trans hskip', hupgrade.trans hupgrade',
      hmethod.trans hmethod'⟩

/-- The body of a message, from the last byte of its headers. -/
theorem bytes_body {b : Body} (hupgrade : q.upgrade = false) (hb : b.Announced q) :
    ∃ s i, ((q.headersDone '\n').told c '\n' none u).bind (c.bytes b.text) =
      .ok ((q.bodied b).scratch (q.bodied b).newMessage s i b.counted,
        c.notice .messageComplete (c.body b u)) := by
  cases b with
  | empty =>
    refine ⟨q.headerState, q.index, ?_⟩
    have haction : q.headersDone '\n' = complete { q with nread := 0 } := by
      have hgo : ¬ q.upgrade = true := by simp [hupgrade]
      simp only [headersDone, ne_eq, not_true_eq_false, if_false, if_neg hgo]
      rcases hb with hskip | ⟨hchunked, hzero | ⟨hmax, hend⟩⟩
      · rw [if_pos hskip]
      · simp [hchunked, hzero]
      · have hpos : q.contentLength ≠ 0 := by
          rw [hmax]
          decide
        have hstop : q.type = .request ∨ ¬ ({ q with nread := 0 } : HttpParser).messageNeedsEof = true :=
          hend.imp_right Bool.eq_false_iff.mp
        by_cases hskip : q.flags.skipBody = true
        · rw [if_pos hskip]
        · rw [if_neg hskip, if_neg (by simp [hchunked]), if_neg hpos, if_neg (not_not.mpr hmax),
            if_pos hstop]
    rw [haction]
    rfl
  | sized s =>
    obtain ⟨hskip, hchunked, hne, hlength, hlt⟩ := hb
    refine ⟨q.headerState, q.index, ?_⟩
    have haction : q.headersDone '\n' = .next { q with nread := 0, state := .bodyIdentity } := by
      have hpos : q.contentLength ≠ 0 := by simpa [hlength] using hne
      have hmax : q.contentLength ≠ ullongMax := by omega
      simp [headersDone, hupgrade, hskip, hchunked, hpos, hmax, withState]
    have hdata := bytes_identity (c := c) (u := u) (q := { q with nread := 0 }) hne hlt
    rw [haction, ← hlength] at *
    exact hdata
  | chunked ss ls =>
    obtain ⟨hskip, hchunked, hss, hls, hn⟩ := hb
    have haction : q.headersDone '\n' = .next { q with nread := 0, state := .chunkSizeStart } := by
      simp [headersDone, hupgrade, hskip, hchunked, withState]
    obtain ⟨k, hdata⟩ := bytes_chunks (c := c) (u := u) hchunked hss
    obtain ⟨s, i, hrest⟩ := bytes_trailers (c := c) (u := c.chunks ss u)
      (q := { q with contentLength := k }) hchunked hls hn _ rfl (lines_flags _ ls).1
    rw [haction]
    exact ⟨s, i, c.bytes_trans hdata hrest⟩

end HttpParser

end LuaNode
