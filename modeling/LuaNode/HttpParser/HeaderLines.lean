import LuaNode.HttpParser.Fields

/-!
# Header lines

What a line of the headers does to the parser: its name and its value go to the callbacks, and of a
few names the value is understood. `HttpParser.header` says so of the whole line.
-/

namespace LuaNode

/-- A line can begin here. -/
def HttpState.startsLine (s : HttpState) : Prop := s = .headerFieldStart ∨ s = .headerValueLws

namespace HttpParser

variable {σ : Type*} {c : Consumer σ} {q q' : HttpParser} {u u' : σ} {ch : Char}

/-- A value is the word, but for case and for blanks behind it. -/
abbrev ValueIs (word v : Str) : Prop := IsWord lowerByte ' ' word v

/-- The value is not the word, whatever follows. -/
abbrev ValueMisses (word v : Str) : Prop := Misses lowerByte ' ' word v

/-- The number in a value: blanks are passed over. -/
def valueNumber (v : Str) : ℕ := Nat.ofDigitChars 10 (v.filter (· ≠ ' ')) 0

/-- What the value of a header tells the parser. -/
def header (q : HttpParser) (kind : HeaderState) (v : Str) : HttpParser :=
  match kind with
  | .connection =>
    if ValueIs keepAliveText v then { q with flags := { q.flags with connectionKeepAlive := true } }
    else if ValueIs closeText v then { q with flags := { q.flags with connectionClose := true } }
    else q
  | .contentLength => if v = [] then q else { q with contentLength := valueNumber v }
  | .transferEncoding =>
    if ValueIs chunkedText v then { q with flags := { q.flags with chunked := true } } else q
  | .upgrade => if v = [] then q else { q with flags := { q.flags with upgrade := true } }
  | _ => q

/-- A value that is taken as it is: a length is a number, and one that is not too large. -/
structure IsValue (kind : HeaderState) (v : Str) : Prop where
  line : ∀ ch ∈ v, ch ≠ '\r' ∧ ch ≠ '\n'
  blank : ∀ ch ∈ v.head?, ch ≠ ' ' ∧ ch ≠ '\t'
  length : kind = .contentLength → (∀ ch ∈ v.head?, isNumByte ch = true) ∧
    (∀ ch ∈ v, ch = ' ' ∨ isNumByte ch = true) ∧ valueNumber v < ullongMax

instance (kind : HeaderState) (v : Str) : Decidable (IsValue kind v) :=
  decidable_of_iff (v.all (fun ch => ch ≠ '\r' ∧ ch ≠ '\n') = true ∧
      v.head?.all (fun ch => ch ≠ ' ' ∧ ch ≠ '\t') = true ∧
      (kind = .contentLength → v.head?.all isNumByte = true ∧
        v.all (fun ch => ch = ' ' ∨ isNumByte ch = true) = true ∧ valueNumber v < ullongMax)) <| by
    constructor
    · rintro ⟨hline, hblank, hlength⟩
      refine ⟨by simpa using hline, ?_, fun h => ?_⟩
      · cases v with
        | nil => simp
        | cons => simpa using hblank
      · have hnumber := hlength h
        cases v <;> simpa using hnumber
    · rintro ⟨hline, hblank, hlength⟩
      refine ⟨by simpa using hline, ?_, fun h => ?_⟩
      · cases v with
        | nil => simp
        | cons => simpa using hblank
      · have hnumber := hlength h
        cases v <;> simpa using hnumber

/-! ### Words in a value -/

/-- The header state and the index, where one word has been matched so far. -/
def Tracks (word : Str) (matching done : HeaderState) (s : HeaderState) (i : ℕ) (v : Str) : Prop :=
  s = matching ∧ i + 1 < word.length ∧ v.map lowerByte = word.take (i + 1) ∨
    s = done ∧ ValueIs word v

/-- One more character of the value. -/
theorem tracks_next (ch : Char) {word : Str} {matching done : HeaderState} {v : Str}
    (htracks : Tracks word matching done q.headerState q.index v)
    (hmatching : q.headerState = matching →
      ∀ n, ({ q with nread := n } : HttpParser).matchValue ch =
        .next (({ q with nread := n } : HttpParser).matchText word done (lowerByte ch)))
    (hdone : q.headerState = done →
      ∀ n, ({ q with nread := n } : HttpParser).matchValue ch =
        .next (if ch ≠ ' ' then { q with headerState := .general, nread := n }
          else { q with nread := n })) :
    ∃ s i, (∀ n, ({ q with nread := n } : HttpParser).matchValue ch =
        .next { q with headerState := s, index := i, nread := n }) ∧
      (Tracks word matching done s i (v ++ [ch]) ∨ s = .general ∧ ValueMisses word (v ++ [ch])) := by
  rcases htracks with ⟨hs, hi, hv⟩ | ⟨hs, hv⟩
  · have hcases (n : ℕ) := matchText_letter (q := { q with nread := n }) (l := lowerByte ch) hi done
    dsimp only at hcases
    by_cases hl : word[q.index + 1]? = some (lowerByte ch)
    · have hnext : (v ++ [ch]).map lowerByte = word.take (q.index + 2) := by
        rw [List.map_append, hv, List.map_singleton, take_letter hl]
      rcases (show q.index + 2 = word.length ∨ q.index + 2 < word.length by omega) with hlast | hlt
      · rw [hlast, List.take_length] at hnext
        refine ⟨done, q.index + 1, fun n => ?_, .inl (.inr ⟨rfl, isWord_of_keys hnext⟩)⟩
        rw [hmatching hs n]
        rcases hcases n with ⟨hne, -⟩ | ⟨-, -, h⟩ | ⟨-, hlt, -⟩
        · exact absurd hl hne
        · rw [h]
        · omega
      · refine ⟨matching, q.index + 1, fun n => ?_, .inl (.inl ⟨rfl, hlt, hnext⟩)⟩
        rw [hmatching hs n]
        rcases hcases n with ⟨hne, -⟩ | ⟨-, hlast, -⟩ | ⟨-, -, h⟩
        · exact absurd hl hne
        · omega
        · rw [h, ← hs]
    · refine ⟨.general, q.index + 1, fun n => ?_, .inr ⟨rfl, misses_of_letter hv hi hl⟩⟩
      rw [hmatching hs n]
      rcases hcases n with ⟨-, h⟩ | ⟨h, -⟩ | ⟨h, -⟩
      · rw [h]
      · exact absurd h hl
      · exact absurd h hl
  · by_cases hch : ch = ' '
    · subst hch
      refine ⟨done, q.index, fun n => ?_, .inl (.inr ⟨rfl, hv.append_pad⟩)⟩
      rw [hdone hs n, ← hs]
      rfl
    · refine ⟨.general, q.index, fun n => ?_, .inr ⟨rfl, hv.misses hch⟩⟩
      rw [hdone hs n, if_pos hch]

/-- The header state and the index behind the first characters of a value. -/
def ValueRead (kind s : HeaderState) (i : ℕ) (v : Str) : Prop :=
  match kind with
  | .connection =>
    Tracks keepAliveText .matchingConnectionKeepAlive .connectionKeepAlive s i v ∧
        ValueMisses closeText v ∨
      Tracks closeText .matchingConnectionClose .connectionClose s i v ∧
        ValueMisses keepAliveText v ∨
      s = .general ∧ ValueMisses keepAliveText v ∧ ValueMisses closeText v
  | .transferEncoding =>
    Tracks chunkedText .matchingTransferEncodingChunked .transferEncodingChunked s i v ∨
      s = .general ∧ ValueMisses chunkedText v
  | _ => s = .general

/-- One more character of the value. -/
theorem valueRead_next {kind : HeaderState} {v : Str}
    (hread : ValueRead kind q.headerState q.index v) (ch : Char) :
    ∃ s i, (∀ n, ({ q with nread := n } : HttpParser).matchValue ch =
        .next { q with headerState := s, index := i, nread := n }) ∧
      ValueRead kind s i (v ++ [ch]) := by
  have hgeneral (hs : q.headerState = .general) (n : ℕ) :
      ({ q with nread := n } : HttpParser).matchValue ch =
        .next { q with headerState := .general, index := q.index, nread := n } := by
    rw [← hs]
    simp [matchValue, hs]
  unfold ValueRead at hread ⊢
  cases kind
  case connection =>
    rcases hread with ⟨htracks, hmisses⟩ | ⟨htracks, hmisses⟩ | ⟨hs, hkeep, hclose⟩
    · obtain ⟨s, i, hnext, hread⟩ := tracks_next ch htracks
        (fun hs n => by simp [matchValue, hs]) (fun hs n => by simp [matchValue, hs])
      refine ⟨s, i, hnext, ?_⟩
      rcases hread with h | ⟨hs, h⟩
      · exact .inl ⟨h, hmisses.append _⟩
      · exact .inr (.inr ⟨hs, h, hmisses.append _⟩)
    · obtain ⟨s, i, hnext, hread⟩ := tracks_next ch htracks
        (fun hs n => by simp [matchValue, hs]) (fun hs n => by simp [matchValue, hs])
      refine ⟨s, i, hnext, ?_⟩
      rcases hread with h | ⟨hs, h⟩
      · exact .inr (.inl ⟨h, hmisses.append _⟩)
      · exact .inr (.inr ⟨hs, hmisses.append _, h⟩)
    · exact ⟨.general, q.index, hgeneral hs, .inr (.inr ⟨rfl, hkeep.append _, hclose.append _⟩)⟩
  case transferEncoding =>
    rcases hread with htracks | ⟨hs, hmisses⟩
    · exact tracks_next ch htracks
        (fun hs n => by simp [matchValue, hs]) (fun hs n => by simp [matchValue, hs])
    · exact ⟨.general, q.index, hgeneral hs, .inr ⟨rfl, hmisses.append _⟩⟩
  all_goals exact ⟨.general, q.index, hgeneral hread, rfl⟩

/-- The value behind its first character. -/
theorem passes_value (q : HttpParser) {kind s : HeaderState} {i : ℕ} {v rest : Str}
    (hread : ValueRead kind s i v) (hrest : ∀ ch ∈ rest, ch ≠ '\r' ∧ ch ≠ '\n') :
    ∃ s' i', ValueRead kind s' i' (v ++ rest) ∧
      Passes (some .headerValue) { q with state := .headerValue, headerState := s, index := i } rest
        { q with state := .headerValue, headerState := s', index := i' } := by
  induction rest generalizing s i v with
  | nil => exact ⟨s, i, by simpa using hread, .nil _⟩
  | cons ch rest ih =>
    obtain ⟨⟨hcr, hlf⟩, hrest⟩ := List.forall_mem_cons.mp hrest
    let q₀ : HttpParser := { q with state := .headerValue, headerState := s, index := i }
    obtain ⟨s₁, i₁, hnext, hread₁⟩ := valueRead_next (q := q₀) hread ch
    obtain ⟨s', i', hread', hpasses⟩ := ih hread₁ hrest
    refine ⟨s', i', by rwa [List.append_assoc, List.singleton_append] at hread',
      .cons _ rfl rfl (fun n => ?_) hpasses⟩
    have haction : ({ q₀ with nread := n } : HttpParser).headerValue ch =
        .next { q₀ with headerState := s₁, index := i₁, nread := n } := by
      rw [headerValue, if_neg hcr, if_neg hlf, hnext]
    exact haction

theorem Tracks.cases {word : Str} {matching done s : HeaderState} {i : ℕ} {v : Str}
    (h : Tracks word matching done s i v) :
    s = done ∧ ValueIs word v ∨ s = matching ∧ ¬ ValueIs word v := by
  rcases h with ⟨hs, hi, hv⟩ | h
  · refine .inr ⟨hs, fun hword => ?_⟩
    have hle := hword.length_le
    have hlength := congrArg List.length hv
    rw [List.length_map, List.length_take] at hlength
    omega
  · exact .inl h

/-- The end of a line whose value has been matched. -/
theorem headerAlmostDone_read (q : HttpParser) {kind s : HeaderState} {i : ℕ} {v : Str}
    (hread : ValueRead kind s i v) (hkind : kind = .connection ∨ kind = .transferEncoding) (n : ℕ) :
    ({ q with state := .headerAlmostDone, headerState := s, index := i, nread := n } :
        HttpParser).headerAlmostDone '\n' =
      .next { q.header kind v with
        state := .headerValueLws, headerState := s, index := i, nread := n } := by
  rcases hkind with rfl | rfl
  · rcases hread with ⟨htracks, hclose⟩ | ⟨htracks, hkeep⟩ | ⟨rfl, hkeep, hclose⟩
    · rcases htracks.cases with ⟨rfl, hword⟩ | ⟨rfl, hword⟩
      · simp [headerAlmostDone, withState, header, hword]
      · simp [headerAlmostDone, withState, header, hword, hclose.not_isWord]
    · rcases htracks.cases with ⟨rfl, hword⟩ | ⟨rfl, hword⟩
      · simp [headerAlmostDone, withState, header, hword, hkeep.not_isWord]
      · simp [headerAlmostDone, withState, header, hword, hkeep.not_isWord]
    · simp [headerAlmostDone, withState, header, hkeep.not_isWord, hclose.not_isWord]
  · rcases hread with htracks | ⟨rfl, hmisses⟩
    · rcases htracks.cases with ⟨rfl, hword⟩ | ⟨rfl, hword⟩
      · simp [headerAlmostDone, withState, header, hword]
      · simp [headerAlmostDone, withState, header, hword]
    · simp [headerAlmostDone, withState, header, hmisses.not_isWord]

/-! ### The value of a line -/

theorem startValue_general (hs : q.headerState.kind = .general) (n : ℕ) (ch : Char) :
    ({ q with nread := n } : HttpParser).startValue ch =
      .next { q with headerState := .general, nread := n } := by
  unfold startValue
  split
  case h_5 => rfl
  all_goals
    rename_i heq
    have hstate : q.headerState = _ := heq
    rw [hstate] at hs
    cases hs

/-- The first character of a word. -/
theorem valueRead_start (kind : HeaderState) (hkind : kind ≠ .contentLength) (ch : Char) :
    ∃ s, ValueRead kind s 0 [ch] ∧ ∀ (q : HttpParser) (n : ℕ), q.headerState.kind = kind →
      ({ q with nread := n } : HttpParser).startValue ch =
        .next { (if kind = .upgrade then q.header .upgrade [ch] else q) with
          headerState := s, nread := n } := by
  have hfirst {word : Str} (hword : word ≠ []) (hne : word.head? ≠ some (lowerByte ch)) :
      ValueMisses word [ch] := by
    obtain ⟨l, word, rfl⟩ := List.exists_cons_of_ne_nil hword
    refine misses_of_prefix (i := 1) (by simp) ?_
    simpa [List.cons_prefix_cons, eq_comm] using hne
  cases kind
  case connection =>
    by_cases hk : lowerByte ch = 'k'
    · refine ⟨.matchingConnectionKeepAlive, .inl ⟨.inl ⟨rfl, by decide, by simp [hk]; rfl⟩,
        hfirst (by decide) (by rw [hk]; decide)⟩, fun q n hq => ?_⟩
      simp [startValue, HeaderState.eq_of_kind hq (by decide), hk]
    by_cases hc : lowerByte ch = 'c'
    · refine ⟨.matchingConnectionClose, .inr (.inl ⟨.inl ⟨rfl, by decide, by simp [hc]; rfl⟩,
        hfirst (by decide) (by rw [hc]; decide)⟩), fun q n hq => ?_⟩
      simp [startValue, HeaderState.eq_of_kind hq (by decide), hc]
    · refine ⟨.general, .inr (.inr ⟨rfl, hfirst (by decide) ?_, hfirst (by decide) ?_⟩),
        fun q n hq => ?_⟩
      · simpa [keepAliveText, eq_comm] using hk
      · simpa [closeText, eq_comm] using hc
      · simp [startValue, HeaderState.eq_of_kind hq (by decide), hk, hc]
  case transferEncoding =>
    by_cases hc : lowerByte ch = 'c'
    · refine ⟨.matchingTransferEncodingChunked, .inl (.inl ⟨rfl, by decide, by simp [hc]; rfl⟩),
        fun q n hq => ?_⟩
      simp [startValue, HeaderState.eq_of_kind hq (by decide), hc]
    · refine ⟨.general, .inr ⟨rfl, hfirst (by decide) ?_⟩, fun q n hq => ?_⟩
      · simpa [chunkedText, eq_comm] using hc
      · simp [startValue, HeaderState.eq_of_kind hq (by decide), hc]
  case contentLength => exact absurd rfl hkind
  case upgrade =>
    refine ⟨.general, rfl, fun q n hq => ?_⟩
    simp [startValue, header, HeaderState.eq_of_kind hq (by decide)]
  all_goals
    exact ⟨.general, rfl, fun q n hq => startValue_general (HeaderState.kind_general hq (by decide)) n ch⟩

/-- A value that is not empty, and the end of its line. -/
theorem bytes_value_cons (q q₁ q₂ q₃ : HttpParser) {ch : Char} {rest : Str}
    (hch : ch ≠ ' ' ∧ ch ≠ '\t' ∧ ch ≠ '\r' ∧ ch ≠ '\n')
    (hstart : ∀ n, ({ q with state := .headerValue, index := 0, nread := n } :
      HttpParser).startValue ch = .next { q₁ with nread := n })
    (hrest : Passes (some .headerValue) q₁ rest (q₂.withState .headerValue))
    (hend : ∀ n, ({ q₂ with state := .headerAlmostDone, nread := n } :
      HttpParser).headerAlmostDone '\n' = .next { q₃ with nread := n }) {n : ℕ}
    (hn : n + rest.length + 3 ≤ httpMaxHeaderSize) :
    c.bytes (ch :: (rest ++ ['\r', '\n'])) ({ q.withState .headerValueStart with nread := n }, u) =
      .ok ({ q₃ with nread := n + rest.length + 3 }, c.data .headerValue (ch :: rest) u) := by
  have hfirst : c.byte ({ q.withState .headerValueStart with nread := n }, u) ch =
      .ok ({ q₁ with nread := n + 1 }, c.data .headerValue [ch] u) := by
    rw [byte_header rfl (by omega)]
    have haction : ({ q.withState .headerValueStart with nread := n + 1 } : HttpParser).onByte ch =
        .mark .headerValue (.next { q₁ with nread := n + 1 }) := by
      have h := hstart (n + 1)
      simp [onByte, withState, headerValueStart, hch, h]
    rw [haction]
    rfl
  have hmiddle := hrest.bytes_some (c := c) (u := u) [ch] (n := n + 1) (by omega)
  have hcr : c.byte ({ q₂.withState .headerValue with nread := n + 1 + rest.length },
      c.data .headerValue (ch :: rest) u) '\r' =
      .ok ({ q₂.withState .headerAlmostDone with nread := n + 1 + rest.length + 1 },
        c.data .headerValue (ch :: rest) u) := by
    rw [byte_header rfl (by omega)]
    simp [onByte, withState, headerValue, callbackData, Action.told, firstMark, ← c.data_append]
  have hlf : c.byte ({ q₂.withState .headerAlmostDone with nread := n + 1 + rest.length + 1 },
      c.data .headerValue (ch :: rest) u) '\n' =
      .ok ({ q₃ with nread := n + rest.length + 3 }, c.data .headerValue (ch :: rest) u) := by
    have haction : ({ q₂.withState .headerAlmostDone with nread := n + 1 + rest.length + 1 + 1 } :
        HttpParser).onByte '\n' = .next { q₃ with nread := n + 1 + rest.length + 1 + 1 } := hend _
    rw [byte_header rfl (by omega), haction,
      show n + rest.length + 3 = n + 1 + rest.length + 1 + 1 by omega]
    rfl
  rw [Consumer.bytes, hfirst]
  refine c.bytes_trans hmiddle ?_
  rw [List.singleton_append, Consumer.bytes, hcr]
  exact congrArg (fun r => r.bind (c.bytes [])) hlf

/-- An empty value. -/
theorem bytes_value_nil (q : HttpParser) {n : ℕ} (hn : n + 2 ≤ httpMaxHeaderSize) :
    c.bytes ['\r', '\n'] ({ q.withState .headerValueStart with nread := n }, u) =
      .ok ({ q with state := .headerValueLws, headerState := .general, index := 0, nread := n + 2 },
        c.data .headerValue [] u) := by
  let q₁ : HttpParser := { q with headerState := .general, index := 0 }
  have hcr : c.byte ({ q.withState .headerValueStart with nread := n }, u) '\r' =
      .ok ({ q₁.withState .headerAlmostDone with nread := n + 1 }, c.data .headerValue [] u) := by
    rw [byte_header rfl (by omega)]
    rfl
  have hlf : c.byte ({ q₁.withState .headerAlmostDone with nread := n + 1 },
      c.data .headerValue [] u) '\n' =
      .ok ({ q₁.withState .headerValueLws with nread := n + 2 }, c.data .headerValue [] u) := by
    rw [byte_header rfl (by omega)]
    rfl
  rw [Consumer.bytes, hcr]
  exact congrArg (fun r => r.bind (c.bytes [])) hlf

/-- A number that fits. -/
theorem moreDigits_ok {base d : ℕ} (hbase : 0 < base) (h : q.contentLength * base + d < ullongMax) :
    q.moreDigits base d = .next { q with contentLength := q.contentLength * base + d } := by
  have hmod : (q.contentLength * base + d) % 2 ^ 64 = q.contentLength * base + d := by
    apply Nat.mod_eq_of_lt
    unfold ullongMax at h
    omega
  have hle : q.contentLength ≤ q.contentLength * base := Nat.le_mul_of_pos_right _ hbase
  unfold moreDigits
  dsimp only
  rw [hmod, if_neg (by omega)]

/-- The digits of a length. -/
theorem passes_length (q : HttpParser) {v : Str} (hv : ∀ ch ∈ v, ch = ' ' ∨ isNumByte ch = true)
    {m : ℕ} (hm : Nat.ofDigitChars 10 (v.filter (· ≠ ' ')) m < ullongMax) :
    Passes (some .headerValue)
      { q with state := .headerValue, headerState := .contentLength, contentLength := m } v
      { q with
        state := .headerValue, headerState := .contentLength,
        contentLength := Nat.ofDigitChars 10 (v.filter (· ≠ ' ')) m } := by
  induction v generalizing m with
  | nil => exact .nil _
  | cons ch v ih =>
    obtain ⟨hch, hrest⟩ := List.forall_mem_cons.mp hv
    by_cases hblank : ch = ' '
    · subst hblank
      rw [List.filter_cons_of_neg (by simp)] at hm ⊢
      exact .cons _ rfl rfl (fun _ => rfl) (ih hrest hm)
    · rw [List.filter_cons_of_pos (by simpa using hblank), Nat.ofDigitChars_cons] at hm ⊢
      have hnum := hch.resolve_left hblank
      have hline : ch ≠ '\r' ∧ ch ≠ '\n' := by
        constructor <;>
          · rintro rfl
            exact absurd hnum (by decide)
      have hle := le_ofDigitChars (v.filter (· ≠ ' ')) (10 * m + (ch.toNat - '0'.toNat))
      refine .cons _ rfl rfl (fun n => ?_) (ih hrest hm)
      let q₀ : HttpParser := { q with state := .headerValue, headerState := .contentLength }
      have hmore : ({ q₀ with nread := n, contentLength := m } : HttpParser).moreDigits 10 (digit ch) =
          .next { q₀ with nread := n, contentLength := 10 * m + (ch.toNat - '0'.toNat) } := by
        rw [Nat.mul_comm 10 m]
        exact moreDigits_ok (by decide) (by dsimp only [digit]; omega)
      simpa [q₀, onByte, headerValue, matchValue, hline, hblank, hnum] using hmore

/-- A value, and the end of its line. -/
theorem bytes_value (q : HttpParser) {v : Str} (hv : IsValue q.headerState.kind v) {n : ℕ}
    (hn : n + v.length + 2 ≤ httpMaxHeaderSize) :
    ∃ s i, c.bytes (v ++ ['\r', '\n']) ({ q.withState .headerValueStart with nread := n }, u) =
      .ok ({ q.header q.headerState.kind v with
        state := .headerValueLws, headerState := s, index := i, nread := n + v.length + 2 },
        c.data .headerValue v u) := by
  cases v with
  | nil =>
    have hnil : q.header q.headerState.kind [] = q := by
      cases q.headerState.kind <;> rfl
    exact ⟨.general, 0, by rw [hnil]; exact bytes_value_nil q hn⟩
  | cons ch rest =>
    obtain ⟨⟨hcr, hlf⟩, hrest⟩ := List.forall_mem_cons.mp hv.line
    obtain ⟨hblank, htab⟩ := hv.blank ch rfl
    rw [List.length_cons] at hn
    generalize hkind : q.headerState.kind = kind at hv ⊢
    have hch : ch ≠ ' ' ∧ ch ≠ '\t' ∧ ch ≠ '\r' ∧ ch ≠ '\n' := ⟨hblank, htab, hcr, hlf⟩
    by_cases hlength : kind = .contentLength
    · subst hlength
      obtain ⟨hfirst, hdigits, hsmall⟩ := hv.length rfl
      have hnum : isNumByte ch = true := hfirst ch rfl
      have hnumber : valueNumber (ch :: rest) =
          Nat.ofDigitChars 10 (rest.filter (· ≠ ' ')) (digit ch) := by
        rw [valueNumber, List.filter_cons_of_pos (by simpa using hblank), Nat.ofDigitChars_cons]
        simp [digit]
      have hpasses := passes_length { q with index := 0 } (List.forall_mem_cons.mp hdigits).2
        (hnumber ▸ hsmall)
      let q₀ : HttpParser := { q with index := 0, headerState := .contentLength }
      let q₁ : HttpParser := { q₀ with state := .headerValue, contentLength := digit ch }
      let q₂ : HttpParser := { q₀ with contentLength := valueNumber (ch :: rest) }
      have hstart (m : ℕ) : ({ q with state := .headerValue, index := 0, nread := m } :
          HttpParser).startValue ch = .next { q₁ with nread := m } := by
        have hs : q.headerState = .contentLength := HeaderState.eq_of_kind hkind (by decide)
        simp [q₁, q₀, startValue, hs, hnum]
      refine ⟨.contentLength, 0, ?_⟩
      have hbytes := bytes_value_cons (c := c) (u := u) q q₁ q₂ (q₂.withState .headerValueLws) hch hstart
        (by rw [← hnumber] at hpasses; exact hpasses) (fun _ => rfl) (n := n) (by omega)
      exact hbytes
    · obtain ⟨s₀, hread, hstart⟩ := valueRead_start kind hlength ch
      let q₀ : HttpParser := if kind = .upgrade then q.header .upgrade [ch] else q
      obtain ⟨s, i, hread', hpasses⟩ := passes_value q₀ hread hrest
      refine ⟨s, i, ?_⟩
      let q₁ : HttpParser := { q₀ with state := .headerValue, headerState := s₀, index := 0 }
      let q₂ : HttpParser := { q₀ with headerState := s, index := i }
      let q₃ : HttpParser := { q.header kind (ch :: rest) with
        state := .headerValueLws, headerState := s, index := i }
      have hstart' (m : ℕ) : ({ q with state := .headerValue, index := 0, nread := m } :
          HttpParser).startValue ch = .next { q₁ with nread := m } := by
        have h := hstart { q with state := .headerValue, index := 0 } m hkind
        by_cases hup : kind = .upgrade <;> simpa [q₁, q₀, hup, header] using h
      have hend (m : ℕ) : ({ q₂ with state := .headerAlmostDone, nread := m } :
          HttpParser).headerAlmostDone '\n' = .next { q₃ with nread := m } := by
        by_cases hword : kind = .connection ∨ kind = .transferEncoding
        · have hq₀ : q₀ = q := if_neg (by rcases hword with rfl | rfl <;> decide)
          have h := headerAlmostDone_read q hread' hword m
          simpa only [q₂, q₃, hq₀, List.singleton_append] using h
        · have hs : s = .general := by cases kind <;> simp_all [ValueRead]
          have hheader : q.header kind (ch :: rest) = q₀ := by
            cases kind <;> simp_all [header, q₀]
          simp [q₂, q₃, hs, hheader, headerAlmostDone, withState]
      exact bytes_value_cons q q₁ q₂ q₃ hch hstart' hpasses hend (by omega)

/-! ### Lines -/

/-- A header that is written as it is meant. -/
structure IsLine (l : Str × Str) : Prop where
  name : IsName l.1
  value : IsValue (fieldKind (lower l.1)) l.2

instance (l : Str × Str) : Decidable (IsLine l) :=
  decidable_of_iff (IsName l.1 ∧ IsValue (fieldKind (lower l.1)) l.2)
    ⟨fun h => ⟨h.1, h.2⟩, fun h => ⟨h.name, h.value⟩⟩

/-- The text of a line. -/
def lineText (l : Str × Str) : Str := l.1 ++ [':', ' '] ++ (l.2 ++ ['\r', '\n'])

/-- What a line tells the parser. -/
def line (q : HttpParser) (l : Str × Str) : HttpParser := q.header (fieldKind (lower l.1)) l.2

/-- The parser with the fields that only a line in progress needs. -/
def scratch (q : HttpParser) (state : HttpState) (s : HeaderState) (i n : ℕ) : HttpParser :=
  { q with state := state, headerState := s, index := i, nread := n }

/-- A value is told to the parser whatever is in these. -/
theorem header_scratch (q : HttpParser) (state : HttpState) (s : HeaderState) (i n : ℕ)
    (kind : HeaderState) (v : Str) :
    (q.scratch state s i n).header kind v = (q.header kind v).scratch state s i n := by
  cases kind <;> simp only [header] <;> split_ifs <;> rfl

/-- The name of a line. -/
theorem bytes_name {name : Str} (hname : IsName name) (hs : q.state.startsLine) {n : ℕ}
    (hn : n + name.length + 1 ≤ httpMaxHeaderSize) :
    ∃ s i, s.kind = fieldKind (lower name) ∧
      c.bytes (name ++ [':']) ({ q with nread := n }, u) =
        .ok ({ q with
          state := .headerValueStart, headerState := s, index := i, nread := n + name.length + 1 },
          c.data .headerField name u) := by
  obtain ⟨hne, htokens⟩ := hname
  obtain ⟨ch, rest, rfl⟩ := List.exists_cons_of_ne_nil hne
  obtain ⟨htoken, hrest⟩ := List.forall_mem_cons.mp htokens
  obtain ⟨l, hl⟩ := Option.isSome_iff_exists.mp htoken
  rw [List.length_cons] at hn ⊢
  have hch : ch ≠ '\r' ∧ ch ≠ '\n' ∧ ch ≠ ' ' ∧ ch ≠ '\t' :=
    ⟨token_ne htoken (by decide), token_ne htoken (by decide), token_ne htoken (by decide),
      token_ne htoken (by decide)⟩
  obtain ⟨s, i, hread, hpasses⟩ := passes_name q (fieldRead_start l) hrest
  let q₁ : HttpParser :=
    { q with state := .headerField, headerState := startHeaderState l, index := 0 }
  let q₂ : HttpParser := { q with headerState := s, index := i }
  have hfirst : c.byte ({ q with nread := n }, u) ch =
      .ok ({ q₁ with nread := n + 1 }, c.data .headerField [ch] u) := by
    have haction : ({ q with nread := n + 1 } : HttpParser).onByte ch =
        .mark .headerField (.next { q₁ with nread := n + 1 }) := by
      rcases hs with hs | hs <;>
        simp [q₁, onByte, hs, headerValueLws, headerFieldStart, hch, hl, withState]
    rcases hs with hs | hs <;>
      · rw [byte_header (by rw [hs]; rfl) (by omega), haction, hs]
        rfl
  have hmiddle := hpasses.bytes_some (c := c) (u := u) [ch] (n := n + 1) (by omega)
  have hcolon : c.byte ({ q₂.withState .headerField with nread := n + 1 + rest.length },
      c.data .headerField (ch :: rest) u) ':' =
      .ok ({ q₂.withState .headerValueStart with nread := n + 1 + rest.length + 1 },
        c.data .headerField (ch :: rest) u) := by
    have haction : ({ q₂.withState .headerField with nread := n + 1 + rest.length + 1 } :
        HttpParser).onByte ':' = ({ q₂.withState .headerValueStart with
          nread := n + 1 + rest.length + 1 } : HttpParser).callbackData .headerField := rfl
    rw [byte_header rfl (by omega), haction]
    simp [callbackData, Action.told, withState, firstMark, ← c.data_append]
  refine ⟨s, i, ?_, ?_⟩
  · rw [hread.kind, token_lower hl]
    rfl
  · rw [List.cons_append, Consumer.bytes, hfirst]
    refine c.bytes_trans hmiddle ?_
    rw [List.singleton_append, Consumer.bytes, show n + (rest.length + 1) + 1 = n + 1 + rest.length + 1 by omega]
    exact congrArg (fun r => r.bind (c.bytes [])) hcolon

theorem length_lineText (l : Str × Str) : (lineText l).length = l.1.length + 2 + l.2.length + 2 := by
  simp [lineText]
  omega

theorem bytes_line {l : Str × Str} (hl : IsLine l) (hs : q.state.startsLine) {n : ℕ}
    (hn : n + (lineText l).length ≤ httpMaxHeaderSize) :
    ∃ s i, c.bytes (lineText l) ({ q with nread := n }, u) =
      .ok ({ q.line l with
        state := .headerValueLws, headerState := s, index := i, nread := n + (lineText l).length },
        c.data .headerValue l.2 (c.data .headerField l.1 u)) := by
  rw [length_lineText] at hn ⊢
  obtain ⟨s, i, hkind, hname⟩ := bytes_name (c := c) (u := u) hl.name hs (n := n) (by omega)
  let q₁ : HttpParser := { q with headerState := s, index := i }
  have hblank : c.byte ({ q₁.withState .headerValueStart with nread := n + l.1.length + 1 },
      c.data .headerField l.1 u) ' ' =
      .ok ({ q₁.withState .headerValueStart with nread := n + l.1.length + 2 },
        c.data .headerField l.1 u) := by
    rw [byte_header rfl (by omega)]
    rfl
  have hvalue : IsValue q₁.headerState.kind l.2 := by
    have h := hl.value
    rwa [← hkind] at h
  obtain ⟨s', i', hrest⟩ := bytes_value (c := c) (u := c.data .headerField l.1 u) q₁ hvalue
    (n := n + l.1.length + 2) (by omega)
  refine ⟨s', i', ?_⟩
  have htext : lineText l = (l.1 ++ [':']) ++ ([' '] ++ (l.2 ++ ['\r', '\n'])) := by
    simp [lineText]
  rw [htext]
  refine c.bytes_trans hname ?_
  have hone : c.bytes [' '] ({ q₁.withState .headerValueStart with nread := n + l.1.length + 1 },
      c.data .headerField l.1 u) = _ := congrArg (fun r => r.bind (c.bytes [])) hblank
  refine c.bytes_trans hone ?_
  refine hrest.trans ?_
  have hheader : q₁.header q₁.headerState.kind l.2 =
      (q.line l).scratch q.state s i q.nread := by
    rw [show q₁.headerState.kind = fieldKind (lower l.1) from hkind]
    exact header_scratch q q.state s i q.nread _ _
  rw [hheader, show n + l.1.length + 2 + l.2.length + 2 = n + (l.1.length + 2 + l.2.length + 2) by omega]
  rfl

/-! ### Blocks -/

/-- The text of a block. -/
def linesText (ls : List (Str × Str)) : Str := ls.flatMap lineText

/-- What the lines of a block tell the parser. -/
def lines (q : HttpParser) (ls : List (Str × Str)) : HttpParser := ls.foldl line q

/-- What they tell the callbacks. -/
def Consumer.lines (c : Consumer σ) (ls : List (Str × Str)) (u : σ) : σ :=
  ls.foldl (fun u l => c.data .headerValue l.2 (c.data .headerField l.1 u)) u

theorem lines_scratch (q : HttpParser) (state : HttpState) (s : HeaderState) (i n : ℕ)
    (ls : List (Str × Str)) :
    (q.scratch state s i n).lines ls = (q.lines ls).scratch state s i n := by
  induction ls generalizing q with
  | nil => rfl
  | cons l ls ih =>
    have hline : (q.scratch state s i n).line l = (q.line l).scratch state s i n :=
      header_scratch ..
    simp only [lines, List.foldl_cons, hline]
    exact ih (q.line l)

theorem bytes_lines {ls : List (Str × Str)} (hls : ∀ l ∈ ls, IsLine l) (hs : q.state.startsLine)
    {n : ℕ} (hn : n + (linesText ls).length ≤ httpMaxHeaderSize) :
    ∃ state s i, state.startsLine ∧ c.bytes (linesText ls) ({ q with nread := n }, u) =
      .ok ((q.lines ls).scratch state s i (n + (linesText ls).length), c.lines ls u) := by
  induction ls generalizing q u n with
  | nil => exact ⟨q.state, q.headerState, q.index, hs, rfl⟩
  | cons l ls ih =>
    obtain ⟨hl, hls⟩ := List.forall_mem_cons.mp hls
    have htext : linesText (l :: ls) = lineText l ++ linesText ls := rfl
    rw [htext, List.length_append] at hn ⊢
    obtain ⟨s, i, hline⟩ := bytes_line (c := c) (u := u) hl hs (n := n) (by omega)
    obtain ⟨state, s', i', hstate, hrest⟩ := ih
      (q := (q.line l).scratch .headerValueLws s i 0)
      (u := c.data .headerValue l.2 (c.data .headerField l.1 u)) hls (.inr rfl)
      (n := n + (lineText l).length) (by omega)
    refine ⟨state, s', i', hstate, ?_⟩
    refine c.bytes_trans hline (hrest.trans ?_)
    rw [lines_scratch, Nat.add_assoc]
    rfl

end HttpParser

end LuaNode
