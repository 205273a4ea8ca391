import LuaNode.HttpParser.Reading

/-!
# The first line of a message

Which method is taken from the first word of a request, where the URL ends, and what is read of the
version and of a status.
-/

namespace LuaNode

/-- The states in which a blank ends the URL. -/
def HttpState.endsUrl : HttpState → Bool
  | .reqServer | .reqServerWithAt | .reqPath | .reqQueryStringStart | .reqQueryString
  | .reqFragmentStart | .reqFragment => true
  | _ => false

namespace HttpParser

variable {σ : Type*} {c : Consumer σ} {q q' : HttpParser} {u u' : σ} {ch : Char}

/-! ### The method -/

/-- The method after one more character of the word. -/
def nextMethod (q : HttpParser) (ch : Char) : Option HttpMethod :=
  if q.method.string[q.index]? = some ch then some q.method else q.otherMethod ch

/-- The character is that of the method, but at the third place. -/
theorem otherMethod_agrees {m : HttpMethod} (h : q.otherMethod ch = some m) :
    (∀ i < q.index, i ≠ 2 → m.string[i]? = q.method.string[i]?) ∧
      (q.index ≠ 2 → m.string[q.index]? = some ch) := by
  obtain ⟨type, flags, state, headerState, index, nread, contentLength, httpMajor, httpMinor,
    statusCode, method, errno, upgrade⟩ := q
  unfold otherMethod at h
  dsimp only at h ⊢
  split_ifs at h <;> cases h <;> simp_all
  all_goals decide

theorem nextMethod_agrees {m : HttpMethod} (h : q.nextMethod ch = some m) :
    (∀ i < q.index, i ≠ 2 → m.string[i]? = q.method.string[i]?) ∧
      (q.index ≠ 2 → m.string[q.index]? = some ch) := by
  unfold nextMethod at h
  split_ifs at h with hsame
  · cases h
    exact ⟨fun _ _ _ => rfl, fun _ => hsame⟩
  · exact otherMethod_agrees h

/-- The parser has read a word. -/
structure Spells (q : HttpParser) (w : Str) : Prop where
  state : q.state = .reqMethod
  index : q.index = w.length
  agrees : ∀ i < w.length, i ≠ 2 → w[i]? = q.method.string[i]?

/-- A byte of the word, or the blank behind it. -/
theorem byte_method (hs : q.state = .reqMethod) (h : c.byte (q, u) ch = .ok (q', u')) :
    (ch = ' ' ∧ q.index = q.method.string.length ∧ q'.method = q.method) ∨
      (∃ m, q.nextMethod ch = some m ∧
        q' = { q with method := m, index := q.index + 1, nread := q.nread + 1 }) := by
  obtain ⟨type, flags, state, headerState, index, nread, contentLength, httpMajor, httpMinor,
    statusCode, method, errno, upgrade⟩ := q
  obtain rfl : state = .reqMethod := hs
  simp only [Consumer.byte, readByte, HttpState.parsingHeader, if_true, onByte, reqMethod,
    firstMark] at h
  split_ifs at h with hread hnul hlength hend hsame
  · cases h
  · cases h
  · cases h
    exact .inl ⟨hend.1, hend.2, rfl⟩
  · cases h
    exact .inr ⟨method, by rw [nextMethod, if_pos hsame], rfl⟩
  · rcases hother : (HttpParser.mk type flags .reqMethod headerState index (nread + 1) contentLength
      httpMajor httpMinor statusCode method errno upgrade).otherMethod ch with _ | m <;>
      rw [hother] at h <;> cases h
    exact .inr ⟨m, by rw [nextMethod, if_neg hsame]; exact hother, rfl⟩
  · cases h

theorem Spells.byte {w : Str} (hw : q.Spells w) (h : c.byte (q, u) ch = .ok (q', u'))
    (hblank : ch ≠ ' ') : q'.Spells (w ++ [ch]) := by
  rcases byte_method hw.state h with ⟨hch, -⟩ | ⟨m, hm, rfl⟩
  · exact absurd hch hblank
  · obtain ⟨hbefore, hlast⟩ := nextMethod_agrees hm
    refine ⟨hw.state, by simp [hw.index], fun i hi hne => ?_⟩
    rw [List.length_append, List.length_singleton] at hi
    rcases (show i < w.length ∨ i = w.length by omega) with hlt | rfl
    · rw [List.getElem?_append_left hlt, hw.agrees i hlt hne]
      exact (hbefore i (hw.index ▸ hlt) hne).symm
    · rw [List.getElem?_concat_length]
      rw [hw.index] at hlast
      exact (hlast hne).symm

/-- The parser where a message of its own has begun. -/
def begun (q : HttpParser) (m : HttpMethod) : HttpParser :=
  { q.reset with method := m, index := 1, state := .reqMethod }

theorem startMethod_agrees {m : HttpMethod} (h : startMethod ch = some m) :
    m.string[0]? = some ch := by
  unfold startMethod at h
  simp only [ite_eq_iff] at h
  rcases h with ⟨rfl, h⟩ | ⟨-, ⟨rfl, h⟩ | ⟨-, ⟨rfl, h⟩ | ⟨-, ⟨rfl, h⟩ | ⟨-, ⟨rfl, h⟩ |
    ⟨-, ⟨rfl, h⟩ | ⟨-, ⟨rfl, h⟩ | ⟨-, ⟨rfl, h⟩ | ⟨-, ⟨rfl, h⟩ | ⟨-, ⟨rfl, h⟩ |
    ⟨-, ⟨rfl, h⟩ | ⟨-, ⟨rfl, h⟩ | ⟨-, ⟨rfl, h⟩ | ⟨-, h⟩⟩⟩⟩⟩⟩⟩⟩⟩⟩⟩⟩⟩
  all_goals cases h <;> rfl

/-- The first byte of the word. -/
theorem byte_start (hs : q.state = .startReq) (h : c.byte (q, u) ch = .ok (q', u'))
    (hline : ch ≠ '\r' ∧ ch ≠ '\n') : q'.Spells [ch] := by
  have hnot : ¬ (ch = '\r' ∨ ch = '\n') := by simp [hline.1, hline.2]
  simp only [Consumer.byte, readByte, hs, HttpState.parsingHeader, if_true, onByte, startReq,
    if_neg hnot, firstMark] at h
  split_ifs at h with hread halpha
  · cases h
  · rcases hm : startMethod ch with _ | m <;> rw [hm] at h <;> cases h
    refine ⟨rfl, rfl, fun i hi _ => ?_⟩
    obtain rfl : i = 0 := by simpa using hi
    exact (startMethod_agrees hm).symm
  · cases h

/-- The rest of the word. By induction on what is left. -/
theorem Spells.bytes {w s : Str} (hw : q.Spells w) (h : c.bytes s (q, u) = .ok (q', u'))
    (hblank : ' ' ∉ s) : q'.Spells (w ++ s) := by
  induction s generalizing q u w with
  | nil =>
    cases h
    simpa using hw
  | cons ch s ih =>
    have hch : ch ≠ ' ' := fun h => hblank (by simp [h])
    have hs : ' ' ∉ s := fun h => hblank (by simp [h])
    rw [Consumer.bytes] at h
    rcases hbyte : c.byte (q, u) ch with e | ⟨q₁, u₁⟩ <;> rw [hbyte] at h
    · cases h
    · have hnext := ih (hw.byte hbyte hch) h hs
      rwa [List.append_assoc, List.singleton_append] at hnext

/-- The word that a request begins with is that of its method, but perhaps for the third letter. -/
theorem method_agrees {w : Str} (hs : q.state = .startReq) (hw : ∀ ch ∈ w, ch ∉ [' ', '\r', '\n'])
    (hne : w ≠ []) (h : c.bytes (w ++ [' ']) (q, u) = .ok (q', u'))
    (hq' : q'.state = .reqSpacesBeforeUrl) :
    w.length = q'.method.string.length ∧ ∀ i, i ≠ 2 → w[i]? = q'.method.string[i]? := by
  obtain ⟨ch, w, rfl⟩ := List.exists_cons_of_ne_nil hne
  have hch := hw ch (by simp)
  simp only [List.mem_cons, List.not_mem_nil, or_false, not_or] at hch
  have hblank : ' ' ∉ w := fun h => hw ' ' (by simp [h]) (by simp)
  rw [List.cons_append, Consumer.bytes] at h
  rcases hbyte : c.byte (q, u) ch with e | ⟨q₁, u₁⟩ <;> rw [hbyte] at h
  · cases h
  have hstart := byte_start hs hbyte hch.2
  change c.bytes (w ++ [' ']) (q₁, u₁) = .ok (q', u') at h
  rw [Consumer.bytes_append] at h
  rcases hrest : c.bytes w (q₁, u₁) with e | ⟨q₂, u₂⟩ <;> rw [hrest] at h
  · cases h
  have hspells := hstart.bytes hrest hblank
  rw [List.singleton_append] at hspells
  rcases hlast : c.byte (q₂, u₂) ' ' with e | ⟨q₃, u₃⟩
  · simp [Except.bind, Consumer.bytes, hlast] at h
  have hq₃ : q₃ = q' := by
    simp only [Except.bind, Consumer.bytes, hlast] at h
    cases h
    rfl
  subst hq₃
  rcases byte_method hspells.state hlast with ⟨-, hindex, hmethod⟩ | ⟨m, -, rfl⟩
  · rw [hmethod]
    have hlength := hspells.index.symm.trans hindex
    refine ⟨hlength, fun i hne => ?_⟩
    rcases lt_or_ge i (ch :: w).length with hlt | hge
    · exact hspells.agrees i hlt hne
    · rw [List.getElem?_eq_none hge, List.getElem?_eq_none (hlength ▸ hge)]
  · have hstate : q₂.state = .reqSpacesBeforeUrl := hq'
    rw [hspells.state] at hstate
    cases hstate

/-- The same for a connection: where the word is taken, the parser has the method of this name, but
perhaps for the third letter, at which any character goes. -/
theorem method_read (c : Consumer σ) (u : σ) {w : Str} (hne : w ≠ [])
    (hw : ∀ ch ∈ w, ch ∉ [' ', '\r', '\n']) {ds : List Str} (hds : ∀ d ∈ ds, d ≠ [])
    (hflatten : ds.flatten = w ++ [' ']) {r : Parsed σ}
    (hr : (init .request).feed c.settings u ds = some r) (hok : r.parser.errno = .ok)
    (hupgrade : r.parser.upgrade = false) (hstate : r.parser.state = .reqSpacesBeforeUrl) :
    w.length = r.parser.method.string.length ∧ ∀ i, i ≠ 2 → w[i]? = r.parser.method.string[i]? := by
  obtain ⟨r', hr', hends⟩ := feed_machine c .request u hds
  obtain rfl : r' = r := Option.some_injective _ (hr'.symm.trans hr)
  rw [hflatten] at hends
  rcases h : c.bytes (w ++ [' ']) (init .request, u) with (e | ⟨q, v⟩) | ⟨q, v⟩ <;> rw [h] at hends
  · exact absurd (hends.1.symm.trans hok) hends.2
  · obtain ⟨rfl, -, -, -, hup⟩ := hends
    rw [hupgrade] at hup
    cases hup
  · obtain rfl := hends
    exact method_agrees rfl hw hne h hstate

theorem method_read_third :
    ∃ r, (init .request).feed silent.settings () [['G', 'E', 'X', ' ']] = some r ∧
      ['G', 'E', 'X'].length = r.parser.method.string.length ∧
      ∀ i, i ≠ 2 → ['G', 'E', 'X'][i]? = r.parser.method.string[i]? :=
  have hds : ∀ d ∈ [['G', 'E', 'X', ' ']], d ≠ [] := by decide
  ⟨_, rfl, method_read silent () (by decide) (by simp) hds rfl rfl rfl rfl rfl⟩

/-- The parser in the first word of a request, behind some letters. -/
def inWord (q : HttpParser) (m : HttpMethod) (i : ℕ) : HttpParser :=
  { q.reset with method := m, index := i, state := .reqMethod }

/-- The method of a word behind its first letters. -/
def wordMethod (m : HttpMethod) (i : ℕ) : Str → Option HttpMethod
  | [] => some m
  | ch :: s =>
    if ch ≠ '\x00' ∧ ch ≠ ' ' ∧ i ≤ m.string.length then
      (((init .request).inWord m i).nextMethod ch).bind fun m' => wordMethod m' (i + 1) s
    else none

theorem reqMethod_letter {m : HttpMethod} (hnul : ch ≠ '\x00') (hblank : ch ≠ ' ')
    (hlength : q.index ≤ q.method.string.length) (hm : q.nextMethod ch = some m) :
    q.reqMethod ch = .next { q with method := m, index := q.index + 1 } := by
  rw [reqMethod, if_neg hnul, if_pos hlength, if_neg fun h => hblank h.1]
  unfold nextMethod at hm
  split_ifs at hm with hsame
  · cases hm
    rw [if_pos hsame]
  · rw [if_neg hsame, hm]

theorem passes_word (q : HttpParser) {m m' : HttpMethod} {i : ℕ} {s : Str}
    (h : wordMethod m i s = some m') :
    Passes none (q.inWord m i) s (q.inWord m' (i + s.length)) := by
  induction s generalizing m i with
  | nil =>
    cases h
    exact .nil _
  | cons ch s ih =>
    rw [wordMethod] at h
    split_ifs at h with hch
    obtain ⟨m₁, hm₁, hrest⟩ := Option.bind_eq_some_iff.mp h
    obtain ⟨hnul, hblank, hlength⟩ := hch
    refine .cons _ rfl rfl (fun n => ?_) (by simpa [Nat.add_assoc, Nat.add_comm 1] using ih hrest)
    exact reqMethod_letter (q := { q.inWord m i with nread := n }) hnul hblank hlength hm₁

/-- Every method has a word of its own. -/
theorem method_word (m : HttpMethod) :
    ∃ ch s m₀, m.string = ch :: s ∧ (ch ≠ '\r' ∧ ch ≠ '\n' ∧ isAlphaByte ch) ∧
      startMethod ch = some m₀ ∧ wordMethod m₀ 1 s = some m := by
  cases m <;> exact ⟨_, _, _, rfl, by decide, rfl, by decide⟩

/-- A request begins. -/
theorem bytes_word (m : HttpMethod) (hs : q.state = .startReq) {n : ℕ}
    (hn : n + m.string.length < httpMaxHeaderSize) :
    c.bytes (m.string ++ [' ']) ({ q with nread := n }, u) =
      .ok ({ q.inWord m (m.string.length + 1) with
        state := .reqSpacesBeforeUrl, nread := n + m.string.length + 1 },
        c.notice .messageBegin u) := by
  obtain ⟨ch, s, m₀, hm, ⟨hcr, hlf, halpha⟩, hstart, hword⟩ := method_word m
  have hlength : m.string.length = s.length + 1 := by rw [hm, List.length_cons]
  have hfirst : c.byte ({ q with nread := n }, u) ch =
      .ok ({ q.inWord m₀ 1 with nread := n + 1 }, c.notice .messageBegin u) := by
    rw [byte_header (by rw [hs]; rfl) (by omega)]
    simp [onByte, startReq, hs, hcr, hlf, halpha, hstart, callbackNotify, Action.told, firstMark,
      inWord, reset]
  have hrest := (passes_word q hword).bytes_none (c := c) (u := c.notice .messageBegin u)
    (n := n + 1) (by omega)
  rw [show 1 + s.length = m.string.length by omega,
    show n + 1 + s.length = n + m.string.length by omega] at hrest
  have hlast : c.byte ({ q.inWord m m.string.length with nread := n + m.string.length },
      c.notice .messageBegin u) ' ' = .ok ({ q.inWord m (m.string.length + 1) with
        state := .reqSpacesBeforeUrl, nread := n + m.string.length + 1 },
        c.notice .messageBegin u) := by
    rw [byte_header rfl hn]
    simp [onByte, reqMethod, inWord, Action.told, firstMark, reset]
  rw [show m.string ++ [' '] = ch :: (s ++ [' ']) by rw [hm]; rfl, Consumer.bytes, hfirst]
  refine c.bytes_trans hrest ?_
  rw [Consumer.bytes, hlast]
  rfl

/-! ### The URL -/

theorem parseUrlChar_url (s : HttpState) (ch : Char) :
    parseUrlChar s ch = .dead ∨ firstMark (parseUrlChar s ch) = some .url := by
  unfold parseUrlChar parseUrlChar.server parseUrlChar.queryString
  cases s <;> dsimp only <;> split_ifs <;> simp [firstMark]

theorem foldl_dead (t : Str) : t.foldl parseUrlChar .dead = .dead := by
  induction t with
  | nil => rfl
  | cons ch t ih =>
    have hdead : parseUrlChar .dead ch = .dead := by
      unfold parseUrlChar
      split_ifs <;> rfl
    rw [List.foldl_cons, hdead, ih]

theorem parseUrlChar_line (s : HttpState) (h : ch = ' ' ∨ ch = '\r' ∨ ch = '\n') :
    parseUrlChar s ch = .dead := by
  unfold parseUrlChar
  rw [if_pos h]

/-- A character of the URL. -/
theorem onByte_url (hs : firstMark q.state = some .url) (hne : parseUrlChar q.state ch ≠ .dead) :
    q.onByte ch = .next (q.withState (parseUrlChar q.state ch)) := by
  have hch : ¬ (ch = ' ' ∨ ch = '\r' ∨ ch = '\n') := fun h => hne (parseUrlChar_line _ h)
  have hchar : q.urlChar ch = .next (q.withState (parseUrlChar q.state ch)) := by
    unfold urlChar
    exact if_neg hne
  have hschema : q.reqSchema ch = q.urlChar ch := if_neg hch
  have hurl : q.reqUrl ch = q.urlChar ch := by
    simp only [not_or] at hch
    rw [reqUrl, if_neg hch.1, if_neg (by simp [hch.2])]
  unfold onByte
  cases hstate : q.state <;> simp only [hstate, firstMark, reduceCtorEq, Option.some.injEq] at hs <;>
    simp only [hschema, hurl, hchar, hstate]

/-- The characters of the URL behind the first. -/
theorem passes_url (q : HttpParser) {t : Str} {s : HttpState} (hs : firstMark s = some .url)
    (hend : t.foldl parseUrlChar s ≠ .dead) :
    Passes (some .url) (q.withState s) t (q.withState (t.foldl parseUrlChar s)) := by
  induction t generalizing s with
  | nil => exact .nil _
  | cons ch t ih =>
    have hne : parseUrlChar s ch ≠ .dead := by
      intro h
      exact hend (by rw [List.foldl_cons, h, foldl_dead])
    have hmark : firstMark (parseUrlChar s ch) = some .url :=
      (parseUrlChar_url s ch).resolve_left hne
    have hheader : s.parsingHeader = true := by
      cases s <;> first | rfl | exact absurd hs (by decide)
    exact .cons _ hheader hs (fun n => onByte_url (q := { q.withState s with nread := n }) hs hne)
      (ih hmark hend)

/-- The URL of a request: its last state is one in which a blank ends it. -/
def ValidUrl (m : HttpMethod) (t : Str) : Prop :=
  (t.foldl parseUrlChar (if m = .connect then .reqServerStart else .reqSpacesBeforeUrl)).endsUrl

instance (m : HttpMethod) (t : Str) : Decidable (ValidUrl m t) :=
  inferInstanceAs (Decidable (_ = true))

theorem ValidUrl.ne_nil {m : HttpMethod} {t : Str} (h : ValidUrl m t) : t ≠ [] := by
  rintro rfl
  unfold ValidUrl at h
  split_ifs at h <;> exact absurd h (by decide)

/-- The URL, and the blank behind it. -/
theorem bytes_url {t : Str} (ht : ValidUrl q.method t) (hs : q.state = .reqSpacesBeforeUrl) {n : ℕ}
    (hn : n + t.length < httpMaxHeaderSize) :
    c.bytes (t ++ [' ']) ({ q with nread := n }, u) =
      .ok ({ q with state := .reqHttpStart, nread := n + t.length + 1 }, c.data .url t u) := by
  obtain ⟨ch, t, rfl⟩ := List.exists_cons_of_ne_nil ht.ne_nil
  rw [List.length_cons] at hn
  unfold ValidUrl at ht
  rw [List.foldl_cons] at ht
  set s₀ : HttpState := if q.method = .connect then .reqServerStart else .reqSpacesBeforeUrl
    with hs₀
  have hdead : t.foldl parseUrlChar (parseUrlChar s₀ ch) ≠ .dead := by
    intro h
    rw [h] at ht
    exact absurd ht (by decide)
  have hne : parseUrlChar s₀ ch ≠ .dead := by
    intro h
    exact hdead (by rw [h, foldl_dead])
  have hblank : ch ≠ ' ' := by
    rintro rfl
    exact hne (parseUrlChar_line _ (.inl rfl))
  have hfirst : c.byte ({ q with nread := n }, u) ch =
      .ok ({ q.withState (parseUrlChar s₀ ch) with nread := n + 1 }, c.data .url [ch] u) := by
    have haction : ({ q with nread := n + 1 } : HttpParser).onByte ch =
        .mark .url (.next { q.withState (parseUrlChar s₀ ch) with nread := n + 1 }) := by
      by_cases hconnect : q.method = .connect <;>
        simp_all [onByte, reqSpacesBeforeUrl, urlChar, withState]
    rw [byte_header (by rw [hs]; rfl) (by omega), haction, hs]
    rfl
  have hmark := (parseUrlChar_url s₀ ch).resolve_left hne
  have hrest := (passes_url q hmark hdead).bytes_some (c := c) (u := u) [ch] (n := n + 1) (by omega)
  generalize t.foldl parseUrlChar (parseUrlChar s₀ ch) = s at ht hrest
  have hlast : c.byte ({ q.withState s with nread := n + 1 + t.length }, c.data .url (ch :: t) u) ' ' =
      .ok ({ q with state := .reqHttpStart, nread := n + t.length + 2 }, c.data .url (ch :: t) u) := by
    have haction : ({ q.withState s with nread := n + 1 + t.length + 1 } : HttpParser).onByte ' ' =
        (({ q with nread := n + 1 + t.length + 1 } : HttpParser).withState .reqHttpStart).callbackData
          .url := by
      cases s <;> first | rfl | exact absurd ht (by decide)
    have hpending : firstMark s = some .url ∧ s.parsingHeader = true := by
      cases s <;> first | exact ⟨rfl, rfl⟩ | exact absurd ht (by decide)
    rw [byte_header hpending.2 (by omega), haction, show (q.withState s).state = s from rfl, hpending.1,
      show n + t.length + 2 = n + 1 + t.length + 1 by omega]
    simp [callbackData, Action.told, withState, ← c.data_append]
  rw [List.cons_append, Consumer.bytes, hfirst]
  refine c.bytes_trans hrest ?_
  rw [List.singleton_append, Consumer.bytes, hlast]
  rfl

/-- The version. -/
theorem passes_version (q : HttpParser) {d e : Char} (hd : '1' ≤ d ∧ d ≤ '9')
    (he : isNumByte e = true) :
    Passes none (q.withState .reqHttpStart)
      ['H', 'T', 'T', 'P', '/', d, '.', e, '\r', '\n']
      { q with state := .headerFieldStart, httpMajor := digit d, httpMinor := digit e } := by
  have hmajor : ¬ (d < '1' ∨ d > '9') := by simp [hd.1, hd.2]
  refine .cons (q.withState .reqHttpH) rfl rfl (fun _ => rfl) ?_
  refine .cons (q.withState .reqHttpHT) rfl rfl (fun _ => rfl) ?_
  refine .cons (q.withState .reqHttpHTT) rfl rfl (fun _ => rfl) ?_
  refine .cons (q.withState .reqHttpHTTP) rfl rfl (fun _ => rfl) ?_
  refine .cons (q.withState .reqFirstHttpMajor) rfl rfl (fun _ => rfl) ?_
  refine .cons ({ q with state := .reqHttpMajor, httpMajor := digit d }) rfl rfl
    (fun _ => if_neg hmajor) ?_
  refine .cons ({ q with state := .reqFirstHttpMinor, httpMajor := digit d }) rfl rfl
    (fun _ => rfl) ?_
  refine .cons ({ q with state := .reqHttpMinor, httpMajor := digit d, httpMinor := digit e })
    rfl rfl (fun _ => if_neg (by simp [he])) ?_
  refine .cons ({ q with
    state := .reqLineAlmostDone, httpMajor := digit d, httpMinor := digit e }) rfl rfl
    (fun _ => rfl) ?_
  exact .cons _ rfl rfl (fun _ => rfl) (.nil _)

/-! ### The lines -/

/-- The first line of a request. -/
def requestLine (m : HttpMethod) (t : Str) (d e : Char) : Str :=
  m.string ++ [' '] ++ (t ++ [' ']) ++ ['H', 'T', 'T', 'P', '/', d, '.', e, '\r', '\n']

/-- The parser behind the first line of a request. -/
def requested (q : HttpParser) (m : HttpMethod) (d e : Char) : HttpParser :=
  { q.inWord m (m.string.length + 1) with
    state := .headerFieldStart, httpMajor := digit d, httpMinor := digit e }

theorem bytes_requestLine {m : HttpMethod} {t : Str} {d e : Char} (hs : q.state = .startReq)
    (ht : ValidUrl m t) (hd : '1' ≤ d ∧ d ≤ '9') (he : isNumByte e = true) {n : ℕ}
    (hn : n + (requestLine m t d e).length ≤ httpMaxHeaderSize) :
    c.bytes (requestLine m t d e) ({ q with nread := n }, u) =
      .ok ({ q.requested m d e with nread := n + (requestLine m t d e).length },
        c.data .url t (c.notice .messageBegin u)) := by
  have hlength : (requestLine m t d e).length = m.string.length + 1 + (t.length + 1) + 10 := by
    simp [requestLine]
    omega
  have hword := bytes_word (c := c) (u := u) m hs (n := n) (by omega)
  have hurl := bytes_url (c := c) (u := c.notice .messageBegin u)
    (q := { q.inWord m (m.string.length + 1) with state := .reqSpacesBeforeUrl }) (t := t) ht rfl
    (n := n + m.string.length + 1) (by omega)
  have hversion := (passes_version (q.inWord m (m.string.length + 1)) hd he).bytes_none (c := c)
    (u := c.data .url t (c.notice .messageBegin u))
    (n := n + m.string.length + 1 + t.length + 1) (by simp only [List.length_cons, List.length_nil]; omega)
  have hall := c.bytes_trans (c.bytes_trans hword hurl) hversion
  rw [hlength, show n + (m.string.length + 1 + (t.length + 1) + 10) =
    n + m.string.length + 1 + t.length + 1 + 10 by omega]
  exact hall

/-- The first line of a response. -/
def statusLine (d e : Char) (code reason : Str) : Str :=
  ['H'] ++ (['T', 'T', 'P', '/', d, '.', e, ' '] ++ code ++ [' '] ++ reason ++ ['\r']) ++ ['\n']

/-- The parser behind the first line of a response. -/
def answered (q : HttpParser) (d e : Char) (code : ℕ) : HttpParser :=
  { q.reset with
    state := .headerFieldStart, httpMajor := digit d, httpMinor := digit e, statusCode := code }

theorem passes_status (q : HttpParser) {s : Str} (hs : ∀ ch ∈ s, isNumByte ch = true) {n : ℕ}
    (hn : Nat.ofDigitChars 10 s n ≤ 999) :
    Passes none { q with state := .resStatusCode, statusCode := n } s
      { q with state := .resStatusCode, statusCode := Nat.ofDigitChars 10 s n } := by
  induction s generalizing n with
  | nil => exact .nil _
  | cons ch s ih =>
    rw [Nat.ofDigitChars_cons] at hn ⊢
    obtain ⟨hch, hs⟩ := List.forall_mem_cons.mp hs
    have hle : ¬ n * 10 + digit ch > 999 := by
      have := le_ofDigitChars s (10 * n + (ch.toNat - '0'.toNat))
      unfold digit
      omega
    refine .cons _ rfl rfl (fun _ => ?_) (ih hs hn)
    simp only [onByte, resStatusCode, hch, not_true_eq_false, if_false, if_neg hle]
    rw [Nat.mul_comm n 10]
    rfl

/-- The digits of a status. -/
theorem passes_code (q : HttpParser) {s : Str} (hs : ∀ ch ∈ s, isNumByte ch = true) (hne : s ≠ [])
    (hn : Nat.ofDigitChars 10 s 0 ≤ 999) :
    Passes none (q.withState .resFirstStatusCode) s
      { q with state := .resStatusCode, statusCode := Nat.ofDigitChars 10 s 0 } := by
  obtain ⟨ch, s, rfl⟩ := List.exists_cons_of_ne_nil hne
  obtain ⟨hch, hs⟩ := List.forall_mem_cons.mp hs
  rw [Nat.ofDigitChars_cons, Nat.mul_zero, Nat.zero_add] at hn ⊢
  exact .cons { q with state := .resStatusCode, statusCode := digit ch } rfl rfl
    (fun _ => if_neg (by simp [hch])) (passes_status q hs hn)

/-- What stands behind the status. -/
theorem passes_reason (q : HttpParser) {s : Str} (hs : ∀ ch ∈ s, ch ≠ '\r' ∧ ch ≠ '\n') :
    Passes none (q.withState .resStatus) s (q.withState .resStatus) := by
  induction s with
  | nil => exact .nil _
  | cons ch s ih =>
    obtain ⟨⟨hcr, hlf⟩, hs⟩ := List.forall_mem_cons.mp hs
    refine .cons _ rfl rfl (fun _ => ?_) (ih hs)
    exact (if_neg hcr).trans (if_neg hlf)

/-- The status line between its first letter and its last byte. -/
theorem passes_statusLine (q : HttpParser) {d e : Char} {code reason : Str}
    (hd : isNumByte d = true) (he : isNumByte e = true) (hcode : ∀ ch ∈ code, isNumByte ch = true)
    (hne : code ≠ []) (hle : Nat.ofDigitChars 10 code 0 ≤ 999)
    (hreason : ∀ ch ∈ reason, ch ≠ '\r' ∧ ch ≠ '\n') :
    Passes none (q.withState .resH)
      (['T', 'T', 'P', '/', d, '.', e, ' '] ++ code ++ [' '] ++ reason ++ ['\r'])
      { q with
        state := .resLineAlmostDone, httpMajor := digit d, httpMinor := digit e,
        statusCode := Nat.ofDigitChars 10 code 0 } := by
  have hmajor : ¬ (d < '0' ∨ d > '9') := by
    have hd := decide_eq_true_eq.mp hd
    simp [hd.1, hd.2]
  have hversion : Passes none (q.withState .resH) ['T', 'T', 'P', '/', d, '.', e, ' ']
      { q with state := .resFirstStatusCode, httpMajor := digit d, httpMinor := digit e } := by
    refine .cons (q.withState .resHT) rfl rfl (fun _ => rfl) ?_
    refine .cons (q.withState .resHTT) rfl rfl (fun _ => rfl) ?_
    refine .cons (q.withState .resHTTP) rfl rfl (fun _ => rfl) ?_
    refine .cons (q.withState .resFirstHttpMajor) rfl rfl (fun _ => rfl) ?_
    refine .cons { q with state := .resHttpMajor, httpMajor := digit d } rfl rfl
      (fun _ => if_neg hmajor) ?_
    refine .cons { q with state := .resFirstHttpMinor, httpMajor := digit d } rfl rfl
      (fun _ => rfl) ?_
    refine .cons { q with state := .resHttpMinor, httpMajor := digit d, httpMinor := digit e }
      rfl rfl (fun _ => if_neg (by simp [he])) ?_
    exact .cons _ rfl rfl (fun _ => rfl) (.nil _)
  set q₁ : HttpParser := { q with httpMajor := digit d, httpMinor := digit e }
  set q₂ : HttpParser := { q₁ with statusCode := Nat.ofDigitChars 10 code 0 }
  have hstatus : Passes none (q₁.withState .resFirstStatusCode) code (q₂.withState .resStatusCode) :=
    passes_code q₁ hcode hne hle
  have hblank : Passes none (q₂.withState .resStatusCode) [' '] (q₂.withState .resStatus) :=
    .cons _ rfl rfl (fun _ => rfl) (.nil _)
  have hline : Passes none (q₂.withState .resStatus) ['\r'] (q₂.withState .resLineAlmostDone) :=
    .cons _ rfl rfl (fun _ => rfl) (.nil _)
  exact (((hversion.append hstatus).append hblank).append (passes_reason q₂ hreason)).append hline

theorem bytes_statusLine {d e : Char} {code reason : Str} (hs : q.state = .startRes)
    (hd : isNumByte d = true) (he : isNumByte e = true) (hcode : ∀ ch ∈ code, isNumByte ch = true)
    (hne : code ≠ []) (hle : Nat.ofDigitChars 10 code 0 ≤ 999)
    (hreason : ∀ ch ∈ reason, ch ≠ '\r' ∧ ch ≠ '\n') {n : ℕ}
    (hn : n + (statusLine d e code reason).length ≤ httpMaxHeaderSize) :
    c.bytes (statusLine d e code reason) ({ q with nread := n }, u) =
      .ok ({ q.answered d e (Nat.ofDigitChars 10 code 0) with
          nread := n + (statusLine d e code reason).length },
        c.notice .statusComplete (c.notice .messageBegin u)) := by
  have hpasses := passes_statusLine q.reset hd he hcode hne hle hreason
  unfold statusLine at hn ⊢
  generalize ['T', 'T', 'P', '/', d, '.', e, ' '] ++ code ++ [' '] ++ reason ++ ['\r'] = s
    at hpasses hn ⊢
  rw [List.length_append, List.length_append, List.length_singleton, List.length_singleton] at hn ⊢
  have hfirst : c.byte ({ q with nread := n }, u) 'H' =
      .ok ({ q.reset.withState .resH with nread := n + 1 }, c.notice .messageBegin u) := by
    rw [byte_header (by rw [hs]; rfl) (by omega)]
    simp [onByte, startRes, hs, callbackNotify, Action.told, firstMark, reset, withState]
  have hmiddle := hpasses.bytes_none (c := c) (u := c.notice .messageBegin u) (n := n + 1) (by omega)
  have hlast : c.byte ({ (q.answered d e (Nat.ofDigitChars 10 code 0)).withState .resLineAlmostDone
      with nread := n + 1 + s.length }, c.notice .messageBegin u) '\n' =
      .ok ({ q.answered d e (Nat.ofDigitChars 10 code 0) with nread := n + (1 + s.length + 1) },
        c.notice .statusComplete (c.notice .messageBegin u)) := by
    rw [byte_header rfl (by omega), show n + (1 + s.length + 1) = n + 1 + s.length + 1 by omega]
    rfl
  rw [List.append_assoc, List.singleton_append, Consumer.bytes, hfirst]
  refine c.bytes_trans hmiddle ?_
  rw [Consumer.bytes]
  exact congrArg (fun r => r.bind (c.bytes [])) hlast

end HttpParser

end LuaNode
