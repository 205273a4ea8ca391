import LuaNode.HttpParser.Reading
import LuaNode.Library.Matching
import Mathlib.Tactic.IntervalCases

/-!
# The header fields

The parser looks into a few headers itself: it matches their names, and the words in their values,
letter by letter. Which name and which value it takes for what is said here of the whole text.
-/

namespace LuaNode

/-- What the state behind a name tells. -/
def HeaderState.kind : HeaderState → HeaderState
  | .connection => .connection
  | .contentLength => .contentLength
  | .transferEncoding => .transferEncoding
  | .upgrade => .upgrade
  | _ => .general

theorem HeaderState.eq_of_kind {s k : HeaderState} (h : s.kind = k) (hk : k ≠ .general) : s = k := by
  subst h
  cases s <;> first | rfl | exact absurd rfl hk

theorem HeaderState.kind_general {s k : HeaderState} (h : s.kind = k)
    (hk : k ∉ [.connection, .contentLength, .transferEncoding, .upgrade]) : s.kind = .general := by
  subst h
  cases s <;> first | rfl | exact absurd (by decide) hk

namespace HttpParser

variable {σ : Type*} {c : Consumer σ} {q q' : HttpParser} {u u' : σ} {ch : Char}

/-! ### Names -/

/-- The names that are looked for. -/
def fieldTexts : List Str :=
  [connectionText, proxyConnectionText, contentLengthText, transferEncodingText, upgradeText]

/-- What a name is taken for, in lower case. -/
def fieldKind (low : Str) : HeaderState :=
  if low = connectionText ∨ low = proxyConnectionText then .connection
  else if low = contentLengthText then .contentLength
  else if low = transferEncodingText then .transferEncoding
  else if low = upgradeText then .upgrade
  else .general

/-- The header state and the index behind the letters of a name. -/
def FieldRead (s : HeaderState) (i : ℕ) (low : Str) : Prop :=
  match s with
  | .general => ∀ text ∈ fieldTexts, ¬ low <+: text
  | .C => i = 0 ∧ low = connectionText.take 1
  | .CO => i = 1 ∧ low = connectionText.take 2
  | .CON => i = 2 ∧ low = connectionText.take 3
  | .matchingConnection | .matchingContentLength =>
    3 ≤ i ∧ i + 1 < s.text.length ∧ low = s.text.take (i + 1)
  | .matchingProxyConnection | .matchingTransferEncoding | .matchingUpgrade =>
    i + 1 < s.text.length ∧ low = s.text.take (i + 1)
  | .connection => low = connectionText ∨ low = proxyConnectionText
  | .contentLength => low = contentLengthText
  | .transferEncoding => low = transferEncodingText
  | .upgrade => low = upgradeText
  | _ => False

/-- What a letter does to a word that is being matched. -/
theorem matchText_letter {word : Str} {l : Char} (hi : q.index + 1 < word.length)
    (done : HeaderState) :
    word[q.index + 1]? ≠ some l ∧
        q.matchText word done l = { q with index := q.index + 1, headerState := .general } ∨
      word[q.index + 1]? = some l ∧ q.index + 2 = word.length ∧
        q.matchText word done l = { q with index := q.index + 1, headerState := done } ∨
      word[q.index + 1]? = some l ∧ q.index + 2 < word.length ∧
        q.matchText word done l = { q with index := q.index + 1 } := by
  unfold matchText
  dsimp only
  by_cases hl : word[q.index + 1]? = some l
  · rw [if_neg (by simp [hl]; omega)]
    split_ifs with hlast
    · exact .inr (.inl ⟨hl, by omega, rfl⟩)
    · exact .inr (.inr ⟨hl, by omega, rfl⟩)
  · exact .inl ⟨hl, if_pos (.inr hl)⟩

theorem take_letter {word : Str} {i : ℕ} {l : Char} (h : word[i]? = some l) :
    word.take i ++ [l] = word.take (i + 1) := by
  obtain ⟨hi, rfl⟩ := List.getElem?_eq_some_iff.mp h
  rw [List.take_append_getElem]

/-- Behind a name there is no letter. -/
theorem not_prefix_behind {word : Str} (hword : word ∈ fieldTexts) (l : Char) :
    ∀ w ∈ fieldTexts, ¬ word ++ [l] <+: w := by
  have hletters : ∀ w ∈ fieldTexts, word.take 4 <+: w → w = word := by
    revert word
    decide
  have hlength : 4 ≤ word.length := by
    revert word
    decide
  have h := not_prefix_of_letter (a := l) hlength le_rfl hletters (by simp)
  rwa [List.take_length] at h

/-- A letter more of a name that is being matched. -/
theorem matchText_read {word low : Str} {l : Char} (k : ℕ) (done : HeaderState) {s : HeaderState}
    (hi : q.index + 1 < word.length) (hlow : low = word.take (q.index + 1)) (hk : k ≤ q.index + 1)
    (hword : ∀ w ∈ fieldTexts, word.take k <+: w → w = word) (hs : q.headerState = s)
    (hdone : FieldRead done (q.index + 1) word)
    (hmore : q.index + 2 < word.length → FieldRead s (q.index + 1) (word.take (q.index + 2))) :
    ∃ s i, (∀ n, ({ q with nread := n } : HttpParser).matchText word done l =
      { q with headerState := s, index := i, nread := n }) ∧ FieldRead s i (low ++ [l]) := by
  subst hlow
  have hcases (n : ℕ) := matchText_letter (q := { q with nread := n }) (l := l) hi done
  dsimp only at hcases
  by_cases hl : word[q.index + 1]? = some l
  · rw [take_letter hl]
    rcases (show q.index + 2 = word.length ∨ q.index + 2 < word.length by omega) with hlast | hlt
    · refine ⟨done, q.index + 1, fun n => ?_, ?_⟩
      · rcases hcases n with ⟨hne, -⟩ | ⟨-, -, h⟩ | ⟨-, hlt, -⟩
        · exact absurd hl hne
        · exact h
        · omega
      · rw [show q.index + 1 + 1 = word.length by omega, List.take_length]
        exact hdone
    · refine ⟨s, q.index + 1, fun n => ?_, hmore hlt⟩
      rcases hcases n with ⟨hne, -⟩ | ⟨-, hlast, -⟩ | ⟨-, -, h⟩
      · exact absurd hl hne
      · omega
      · rw [h, ← hs]
  · refine ⟨.general, q.index + 1, fun n => ?_, not_prefix_of_letter hk hi.le hword hl⟩
    rcases hcases n with ⟨-, h⟩ | ⟨h, -⟩ | ⟨h, -⟩
    · exact h
    · exact absurd h hl
    · exact absurd h hl

/-- A letter that ends what is the beginning of two names. -/
theorem matchStart_read {n : ℕ} {l : Char}
    (h : n = 1 ∧ l ≠ 'o' ∨ n = 2 ∧ l ≠ 'n' ∨ n = 3 ∧ l ≠ 'n' ∧ l ≠ 't') :
    FieldRead .general n (connectionText.take n ++ [l]) := by
  rcases h with ⟨rfl, h⟩ | ⟨rfl, h⟩ | ⟨rfl, h, h'⟩ <;>
    simp_all [FieldRead, fieldTexts, connectionText, proxyConnectionText, contentLengthText,
      transferEncodingText, upgradeText]

/-- A letter more. -/
theorem matchField_read {low : Str} {ch : Char} {l : Char} (hq : FieldRead q.headerState q.index low)
    (hch : ch ≠ ' ') :
    ∃ s i, (∀ n, ({ q with nread := n } : HttpParser).matchField ch l =
      some { q with headerState := s, index := i, nread := n }) ∧ FieldRead s i (low ++ [l]) := by
  have hmatch {word : Str} {done : HeaderState} {s : HeaderState} {i n : ℕ}
      (hfield : ({ q with nread := n } : HttpParser).matchField ch l =
        some (({ q with nread := n } : HttpParser).matchText word done l))
      (h : ({ q with nread := n } : HttpParser).matchText word done l =
        { q with headerState := s, index := i, nread := n }) :
      ({ q with nread := n } : HttpParser).matchField ch l =
        some { q with headerState := s, index := i, nread := n } := by
    rw [hfield, h]
  obtain ⟨s₀, hs, hq⟩ : ∃ s₀, q.headerState = s₀ ∧ FieldRead s₀ q.index low := ⟨_, rfl, hq⟩
  cases s₀ <;> try exact hq.elim
  case general =>
    refine ⟨.general, q.index, fun n => ?_, fun text ht hprefix => ?_⟩
    · simp [matchField, hs]
    · exact hq text ht ((List.prefix_append _ _).trans hprefix)
  case C =>
    obtain ⟨hi, rfl⟩ := hq
    by_cases hl : l = 'o'
    · subst hl
      exact ⟨.CO, 1, fun n => by simp [matchField, matchStart, hs, hi], rfl, rfl⟩
    · exact ⟨.general, 1, fun n => by simp [matchField, matchStart, hs, hi, hl],
        matchStart_read (.inl ⟨rfl, hl⟩)⟩
  case CO =>
    obtain ⟨hi, rfl⟩ := hq
    by_cases hl : l = 'n'
    · subst hl
      exact ⟨.CON, 2, fun n => by simp [matchField, matchStart, hs, hi], rfl, rfl⟩
    · exact ⟨.general, 2, fun n => by simp [matchField, matchStart, hs, hi, hl],
        matchStart_read (.inr (.inl ⟨rfl, hl⟩))⟩
  case CON =>
    obtain ⟨hi, rfl⟩ := hq
    by_cases hn : l = 'n'
    · subst hn
      exact ⟨.matchingConnection, 3, fun n => by simp [matchField, matchStart, hs, hi],
        le_rfl, by decide, rfl⟩
    by_cases ht : l = 't'
    · subst ht
      exact ⟨.matchingContentLength, 3, fun n => by simp [matchField, matchStart, hs, hi],
        le_rfl, by decide, rfl⟩
    · exact ⟨.general, 3, fun n => by simp [matchField, matchStart, hs, hi, hn, ht],
        matchStart_read (.inr (.inr ⟨rfl, hn, ht⟩))⟩
  case matchingProxyConnection =>
    obtain ⟨hi, hlow⟩ := hq
    obtain ⟨s, i, hm, hread⟩ := matchText_read (l := l) 1 .connection hi hlow
      (by omega) (by decide) hs (.inr rfl) (fun h => ⟨h, rfl⟩)
    exact ⟨s, i, fun n => hmatch (by simp [matchField, hs, HeaderState.text]) (hm n), hread⟩
  case matchingTransferEncoding =>
    obtain ⟨hi, hlow⟩ := hq
    obtain ⟨s, i, hm, hread⟩ := matchText_read (l := l) 1 .transferEncoding hi hlow
      (by omega) (by decide) hs rfl (fun h => ⟨h, rfl⟩)
    exact ⟨s, i, fun n => hmatch (by simp [matchField, hs, HeaderState.text]) (hm n), hread⟩
  case matchingUpgrade =>
    obtain ⟨hi, hlow⟩ := hq
    obtain ⟨s, i, hm, hread⟩ := matchText_read (l := l) 1 .upgrade hi hlow
      (by omega) (by decide) hs rfl (fun h => ⟨h, rfl⟩)
    exact ⟨s, i, fun n => hmatch (by simp [matchField, hs, HeaderState.text]) (hm n), hread⟩
  case matchingConnection =>
    obtain ⟨hpos, hi, hlow⟩ := hq
    obtain ⟨s, i, hm, hread⟩ := matchText_read (l := l) 4 .connection hi hlow
      (by omega) (by decide) hs (.inl rfl) (fun h => ⟨by omega, h, rfl⟩)
    exact ⟨s, i, fun n => hmatch (by simp [matchField, hs, HeaderState.text]) (hm n), hread⟩
  case matchingContentLength =>
    obtain ⟨hpos, hi, hlow⟩ := hq
    obtain ⟨s, i, hm, hread⟩ := matchText_read (l := l) 4 .contentLength hi hlow
      (by omega) (by decide) hs rfl (fun h => ⟨by omega, h, rfl⟩)
    exact ⟨s, i, fun n => hmatch (by simp [matchField, hs, HeaderState.text]) (hm n), hread⟩
  case connection =>
    refine ⟨.general, q.index, fun n => by simp [matchField, hs, hch], ?_⟩
    rcases hq with rfl | rfl
    · exact not_prefix_behind (by decide) l
    · exact not_prefix_behind (by decide) l
  case contentLength =>
    obtain rfl : low = contentLengthText := hq
    exact ⟨.general, q.index, fun n => by simp [matchField, hs, hch], not_prefix_behind (by decide) l⟩
  case transferEncoding =>
    obtain rfl : low = transferEncodingText := hq
    exact ⟨.general, q.index, fun n => by simp [matchField, hs, hch], not_prefix_behind (by decide) l⟩
  case upgrade =>
    obtain rfl : low = upgradeText := hq
    exact ⟨.general, q.index, fun n => by simp [matchField, hs, hch], not_prefix_behind (by decide) l⟩

/-- The beginning of a name is no name. -/
theorem take_not_name {word : Str} (hword : word ∈ fieldTexts) {i : ℕ} (hi : i < word.length) :
    word.take i ∉ fieldTexts := by
  intro hmem
  have hletters : ∀ w ∈ fieldTexts, ∀ w' ∈ fieldTexts, w <+: w' → w = w' := by decide
  have hsame := congrArg List.length (hletters _ hmem word hword (List.take_prefix i word))
  rw [List.length_take] at hsame
  omega

theorem fieldKind_general {low : Str} (h : low ∉ fieldTexts) : fieldKind low = .general := by
  simp only [fieldTexts, List.mem_cons, List.not_mem_nil, or_false, not_or] at h
  simp [fieldKind, h]

/-- Behind all letters the state tells what the name is. -/
theorem FieldRead.kind {s : HeaderState} {i : ℕ} {low : Str} (h : FieldRead s i low) :
    s.kind = fieldKind low := by
  have htake (word : Str) {n : ℕ} (hword : word ∈ fieldTexts) (hn : n < word.length)
      (hlow : low = word.take n) : HeaderState.general = fieldKind low := by
    rw [hlow, fieldKind_general (take_not_name hword hn)]
  cases s <;> try exact h.elim
  case general =>
    exact (fieldKind_general fun hmem => h low hmem (List.prefix_refl low)).symm
  case C => exact htake connectionText (by decide) (by decide) h.2
  case CO => exact htake connectionText (by decide) (by decide) h.2
  case CON => exact htake connectionText (by decide) (by decide) h.2
  case matchingConnection => exact htake connectionText (by decide) h.2.1 h.2.2
  case matchingContentLength => exact htake contentLengthText (by decide) h.2.1 h.2.2
  case matchingProxyConnection => exact htake proxyConnectionText (by decide) h.1 h.2
  case matchingTransferEncoding => exact htake transferEncodingText (by decide) h.1 h.2
  case matchingUpgrade => exact htake upgradeText (by decide) h.1 h.2
  case connection => rcases h with rfl | rfl <;> rfl
  case contentLength => rw [show low = contentLengthText from h]; rfl
  case transferEncoding => rw [show low = transferEncodingText from h]; rfl
  case upgrade => rw [show low = upgradeText from h]; rfl

theorem lowerByte_upper (h : 'A' ≤ ch ∧ ch ≤ 'Z') : lowerByte ch = ch.toLower := by
  obtain ⟨hlo, hhi⟩ := h
  have hlo : 65 ≤ ch.toNat := hlo
  have hhi : ch.toNat ≤ 90 := hhi
  rw [← Char.ofNat_toNat ch]
  generalize ch.toNat = n at hlo hhi
  interval_cases n <;> rfl

theorem toLower_other (h : ¬ ('A' ≤ ch ∧ ch ≤ 'Z')) : ch.toLower = ch := by
  unfold Char.toLower
  exact dif_neg h

/-- A token in lower case. -/
theorem token_lower {l : Char} (h : token ch = some l) : l = ch.toLower := by
  unfold token at h
  by_cases hupper : 'A' ≤ ch ∧ ch ≤ 'Z'
  · rw [if_pos hupper] at h
    cases h
    exact lowerByte_upper hupper
  · rw [if_neg hupper] at h
    rw [toLower_other hupper]
    split_ifs at h <;> cases h <;> rfl

theorem token_ne {ch' : Char} (h : (token ch).isSome) (h' : token ch' = none) : ch ≠ ch' := by
  rintro rfl
  rw [h'] at h
  exact absurd h (by decide)

/-- The first letter of a name. -/
theorem fieldRead_start (l : Char) : FieldRead (startHeaderState l) 0 [l] := by
  unfold startHeaderState
  split_ifs with hc hp ht hu
  · exact ⟨rfl, by rw [hc]; rfl⟩
  · exact ⟨by decide, by rw [hp]; rfl⟩
  · exact ⟨by decide, by rw [ht]; rfl⟩
  · exact ⟨by decide, by rw [hu]; rfl⟩
  · simp [FieldRead, fieldTexts, connectionText, proxyConnectionText, contentLengthText,
      transferEncodingText, upgradeText, hc, hp, ht, hu]

/-- A name: it is made of tokens. -/
structure IsName (name : Str) : Prop where
  ne_nil : name ≠ []
  tokens : ∀ ch ∈ name, (token ch).isSome

instance (name : Str) : Decidable (IsName name) :=
  decidable_of_iff (name ≠ [] ∧ name.all (fun ch => (token ch).isSome) = true)
    ⟨fun h => ⟨h.1, List.all_eq_true.mp h.2⟩, fun h => ⟨h.1, List.all_eq_true.mpr h.2⟩⟩

/-- The letters of a name behind the first. -/
theorem passes_name (q : HttpParser) {s : HeaderState} {i : ℕ} {low name : Str}
    (hread : FieldRead s i low) (hname : ∀ ch ∈ name, (token ch).isSome) :
    ∃ s' i', FieldRead s' i' (low ++ lower name) ∧
      Passes (some .headerField) { q with state := .headerField, headerState := s, index := i } name
        { q with state := .headerField, headerState := s', index := i' } := by
  induction name generalizing s i low with
  | nil => exact ⟨s, i, by simpa [lower] using hread, .nil _⟩
  | cons ch name ih =>
    obtain ⟨htoken, hname⟩ := List.forall_mem_cons.mp hname
    obtain ⟨l, hl⟩ := Option.isSome_iff_exists.mp htoken
    let q₀ : HttpParser := { q with state := .headerField, headerState := s, index := i }
    obtain ⟨s₁, i₁, hstep, hread₁⟩ :=
      matchField_read (q := q₀) (l := l) hread (token_ne htoken (by decide))
    obtain ⟨s', i', hread', hpasses⟩ := ih hread₁ hname
    refine ⟨s', i', ?_, .cons _ rfl rfl (fun n => ?_) hpasses⟩
    · rwa [List.append_assoc, List.singleton_append, token_lower hl] at hread'
    · have haction : ({ q₀ with nread := n } : HttpParser).headerField ch =
          .next { q₀ with headerState := s₁, index := i₁, nread := n } := by
        unfold headerField
        rw [hl]
        dsimp only
        rw [hstep]
      exact haction

end HttpParser

end LuaNode
