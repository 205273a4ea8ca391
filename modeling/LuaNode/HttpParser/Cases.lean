import LuaNode.HttpParser.Legal

/-!
# The cases of the switch are legal

One lemma for each case, and from them `readByte_legal`: whatever the byte, what the parser does
with it is legal.
-/

namespace LuaNode

namespace HttpParser

theorem hexValue_lt {c : Char} {d : ℕ} (h : hexValue c = some d) : d < 16 := by
  unfold hexValue at h
  split_ifs at h with h0 ha hA
  · have hle : c.toNat ≤ '9'.toNat := h0.2
    cases h
    simp only [Char.reduceToNat] at *
    omega
  · have hle : c.toNat ≤ 'f'.toNat := ha.2
    cases h
    simp only [Char.reduceToNat] at *
    omega
  · have hle : c.toNat ≤ 'F'.toNat := hA.2
    cases h
    simp only [Char.reduceToNat] at *
    omega

section Cases

variable {q : HttpParser} {ch : Char} {h : Holding} {ph : Phase}

theorem bounded_iff (q : HttpParser) : q.Bounded ↔ q.errno = .ok ∧ q.nread ≤ httpMaxHeaderSize ∧
    q.contentLength ≤ ullongMax ∧ q.httpMajor ≤ 999 ∧ q.httpMinor ≤ 999 ∧ q.statusCode ≤ 999 ∧
    q.index ≤ 255 :=
  ⟨fun h => ⟨h.1, h.2, h.3, h.4, h.5, h.6, h.7⟩,
    fun ⟨h₁, h₂, h₃, h₄, h₅, h₆, h₇⟩ => ⟨h₁, h₂, h₃, h₄, h₅, h₆, h₇⟩⟩

theorem ready_iff (q : HttpParser) : q.Ready ↔ q.Bounded ∧ q.upgrade = false :=
  ⟨fun h => ⟨h.1, h.2⟩, fun h => ⟨h.1, h.2⟩⟩

theorem fits_iff (q : HttpParser) : q.Fits ↔ q.Ready ∧ q.StateFits :=
  ⟨fun h => ⟨h.1, h.2⟩, fun h => ⟨h.1, h.2⟩⟩

attribute [local simp] Action.Legal fits_iff ready_iff bounded_iff StateFits InPhase Holding.Ends
  firstMark withState callbackData callbackNotify Phase.notice Phase.data HttpFlags.none
  HttpState.readsBody BeforeLine InLine

theorem digit_le (hnum : isNumByte ch = true) : digit ch ≤ 9 := by
  have h := (decide_eq_true_eq.mp hnum).2
  have hle : ch.toNat ≤ '9'.toNat := h
  unfold digit
  have : '9'.toNat = 57 := rfl
  have : '0'.toNat = 48 := rfl
  omega

/-- `NEW_MESSAGE()` is the start of a message, or the end of all. -/
theorem newMessage_cases (q : HttpParser) :
    q.newMessage = .startReq ∨ q.newMessage = .startRes ∨ q.newMessage = .dead := by
  unfold newMessage startState
  split_ifs <;> simp

/-- The end of a message. -/
theorem complete_legal (hq : q.Ready)
    (hph : ph = .body ∨ ph = .trailerField ∨ ph = .trailerValue) : q.complete.Legal .clear ph := by
  unfold complete
  rcases newMessage_cases q with hn | hn | hn <;> rcases hph with rfl | rfl | rfl <;> simp_all

theorem expect_legal (hq : q.Ready) {c : Char} {s : HttpState}
    (hs : s ∈ [.resHT, .resHTT, .resHTTP, .resFirstHttpMajor] ∧ ph = .begun ∨
      s ∈ [.reqHttpHT, .reqHttpHTT, .reqHttpHTTP, .reqFirstHttpMajor] ∧ ph = .line)
    (htrailing : q.flags.trailing = false) : (q.expect ch c s).Legal .clear ph := by
  unfold expect
  split_ifs
  · simp_all
  · simp only [List.mem_cons, List.not_mem_nil, or_false] at hs
    rcases hs with ⟨rfl | rfl | rfl | rfl, rfl⟩ | ⟨rfl | rfl | rfl | rfl, rfl⟩ <;> simp_all

theorem dead_legal (hq : q.Ready) (hs : q.state = .dead) : (q.dead ch).Legal .clear .idle := by
  unfold dead
  split_ifs <;> simp_all

theorem startReq_legal (hq : q.Ready) (hs : q.state = .startReq) :
    (q.startReq ch).Legal .clear .idle := by
  unfold startReq
  split_ifs with hline halpha
  · simp_all
  · rcases hm : startMethod ch with _ | method
    · simp_all
    · have hlen : 1 ≤ method.string.length := by cases method <;> decide
      simp_all [reset]
  · simp_all

theorem startReqOrRes_legal (hq : q.Ready) (hs : q.state = .startReqOrRes) :
    (q.startReqOrRes ch).Legal .clear .idle := by
  unfold startReqOrRes
  split_ifs with hline hH
  · simp_all
  · simp_all [reset]
  · apply startReq_legal <;> simp_all [reset]

theorem resOrRespH_legal (hq : q.Ready) (htrailing : q.flags.trailing = false) :
    (q.resOrRespH ch).Legal .clear .begun := by
  unfold resOrRespH
  split_ifs <;> simp_all [HttpMethod.string]

theorem startRes_legal (hq : q.Ready) (hs : q.state = .startRes)
    (hph : ph = .idle ∨ ph = .begun) : (q.startRes ch).Legal .clear ph := by
  unfold startRes
  rcases hph with rfl | rfl <;> split_ifs <;> simp_all [reset]

theorem httpMajorDigits_legal (hq : q.Ready) {dot : HttpState}
    (hs : q.state = .resHttpMajor ∧ dot = .resFirstHttpMinor ∧ ph = .begun ∨
      q.state = .reqHttpMajor ∧ dot = .reqFirstHttpMinor ∧ ph = .line)
    (htrailing : q.flags.trailing = false) : (q.httpMajorDigits ch dot).Legal .clear ph := by
  unfold httpMajorDigits
  rcases hs with ⟨hs, rfl, rfl⟩ | ⟨hs, rfl, rfl⟩ <;> dsimp only <;> split_ifs <;> simp_all

theorem firstHttpMinor_legal (hq : q.Ready) {s : HttpState}
    (hs : s = .resHttpMinor ∧ ph = .begun ∨ s = .reqHttpMinor ∧ ph = .line)
    (htrailing : q.flags.trailing = false) : (q.firstHttpMinor ch s).Legal .clear ph := by
  unfold firstHttpMinor
  have hdigit := @digit_le ch
  rcases hs with ⟨rfl, rfl⟩ | ⟨rfl, rfl⟩ <;> split_ifs <;> simp_all <;> omega

theorem httpMinorDigits_legal (hq : q.Ready)
    (hs : q.state = .resHttpMinor ∧ ph = .begun ∨ q.state = .reqHttpMinor ∧ ph = .line)
    (htrailing : q.flags.trailing = false) : (q.httpMinorDigits ch).Legal .clear ph := by
  unfold httpMinorDigits
  rcases hs with ⟨hs, rfl⟩ | ⟨hs, rfl⟩ <;> dsimp only <;> split_ifs <;> simp_all

theorem resFirstHttpMajor_legal (hq : q.Ready) (htrailing : q.flags.trailing = false) :
    (q.resFirstHttpMajor ch).Legal .clear .begun := by
  unfold resFirstHttpMajor
  have hdigit := @digit_le ch
  split_ifs with hch
  · simp_all
  · have hnum : isNumByte ch = true := by
      simp only [not_or, gt_iff_lt, Char.not_lt] at hch
      simp [isNumByte, hch.1, hch.2]
    simp_all
    omega

theorem resHttpMinor_legal (hq : q.Ready) (hs : q.state = .resHttpMinor)
    (htrailing : q.flags.trailing = false) : (q.resHttpMinor ch).Legal .clear .begun := by
  unfold resHttpMinor
  split_ifs
  · simp_all
  · exact httpMinorDigits_legal hq (.inl ⟨hs, rfl⟩) htrailing

theorem resFirstStatusCode_legal (hq : q.Ready) (hs : q.state = .resFirstStatusCode)
    (htrailing : q.flags.trailing = false) : (q.resFirstStatusCode ch).Legal .clear .begun := by
  unfold resFirstStatusCode
  have hdigit := @digit_le ch
  split_ifs <;> simp_all
  omega

theorem resStatusCode_legal (hq : q.Ready) (hs : q.state = .resStatusCode)
    (htrailing : q.flags.trailing = false) : (q.resStatusCode ch).Legal .clear .begun := by
  unfold resStatusCode
  dsimp only
  split_ifs <;> simp_all

theorem resStatus_legal (hq : q.Ready) (hs : q.state = .resStatus)
    (htrailing : q.flags.trailing = false) : (q.resStatus ch).Legal .clear .begun := by
  unfold resStatus
  split_ifs <;> simp_all

theorem resLineAlmostDone_legal (hq : q.Ready) (htrailing : q.flags.trailing = false) :
    (q.resLineAlmostDone ch).Legal .clear .begun := by
  unfold resLineAlmostDone
  split_ifs <;> simp_all

/-- The string of the method that a character leads to is as long as it has to be. -/
theorem otherMethod_length {method : HttpMethod} (hm : q.otherMethod ch = some method) :
    q.index + 1 ≤ method.string.length := by
  unfold otherMethod at hm
  have hthree (m : HttpMethod) : 3 ≤ m.string.length := by cases m <;> decide
  have h3 := hthree q.method
  split_ifs at hm <;> simp_all <;> subst hm <;> simp_all [HttpMethod.string]

theorem reqMethod_legal (hq : q.Ready) (hs : q.state = .reqMethod)
    (hindex : q.index ≤ q.method.string.length) (htrailing : q.flags.trailing = false) :
    (q.reqMethod ch).Legal .clear .begun := by
  have hlen : q.method.string.length ≤ 11 := by cases q.method <;> decide
  unfold reqMethod
  split_ifs with hnul hspace hmatch
  · simp_all
  · simp_all
    omega
  · obtain ⟨hlt, -⟩ := List.getElem?_eq_some_iff.mp hmatch
    simp_all
    omega
  · rcases hm : q.otherMethod ch with _ | method
    · unfold methodErrno
      dsimp only
      split_ifs <;> simp
    · have hlength := otherMethod_length hm
      simp_all
      omega

/-- A character of the URL leads to a state of the URL. -/
theorem parseUrlChar_cases (s : HttpState) (ch : Char) :
    parseUrlChar s ch = .dead ∨ firstMark (parseUrlChar s ch) = some .url := by
  unfold parseUrlChar parseUrlChar.server parseUrlChar.queryString
  cases s <;> dsimp only <;> split_ifs <;> simp

theorem url_fits (hurl : firstMark q.state = some .url) (htrailing : q.flags.trailing = false)
    (hph : ph = .begun ∨ ph = .line) : q.StateFits ∧ q.InPhase ph := by
  cases hs : q.state <;> simp_all

theorem urlChar_legal (hq : q.Ready) (hph : ph = .begun ∨ ph = .line)
    (htrailing : q.flags.trailing = false) : (q.urlChar ch).Legal (.marked .url) ph := by
  unfold urlChar
  dsimp only
  split_ifs with hdead
  · simp
  · have hurl := (parseUrlChar_cases q.state ch).resolve_left hdead
    obtain ⟨hfits, hphase⟩ :=
      url_fits (q := q.withState (parseUrlChar q.state ch)) hurl htrailing hph
    exact ⟨⟨⟨⟨hq.1.1, hq.1.2, hq.1.3, hq.1.4, hq.1.5, hq.1.6, hq.1.7⟩, hq.2⟩, hfits⟩,
      .inl hurl, hphase⟩

theorem reqSpacesBeforeUrl_legal (hq : q.Ready) (hs : q.state = .reqSpacesBeforeUrl)
    (htrailing : q.flags.trailing = false) : (q.reqSpacesBeforeUrl ch).Legal .clear .begun := by
  unfold reqSpacesBeforeUrl
  split_ifs
  · simp_all
  · refine ⟨.inl rfl, urlChar_legal ?_ (.inl rfl) ?_⟩ <;> simp_all
  · exact ⟨.inl rfl, urlChar_legal hq (.inl rfl) htrailing⟩

theorem reqSchema_legal (hq : q.Ready) (hph : ph = .begun ∨ ph = .line)
    (htrailing : q.flags.trailing = false) : (q.reqSchema ch).Legal (.marked .url) ph := by
  unfold reqSchema
  split_ifs
  · simp
  · exact urlChar_legal hq hph htrailing

theorem reqUrl_legal (hq : q.Ready) (hph : ph = .begun ∨ ph = .line)
    (htrailing : q.flags.trailing = false) : (q.reqUrl ch).Legal (.marked .url) ph := by
  unfold reqUrl
  dsimp only
  split_ifs
  · rcases hph with rfl | rfl <;> simp_all
  · rcases hph with rfl | rfl <;> simp_all
  · rcases hph with rfl | rfl <;> simp_all
  · exact urlChar_legal hq hph htrailing

theorem reqHttpStart_legal (hq : q.Ready) (hs : q.state = .reqHttpStart)
    (htrailing : q.flags.trailing = false) : (q.reqHttpStart ch).Legal .clear .line := by
  unfold reqHttpStart
  split_ifs <;> simp_all

theorem reqFirstHttpMajor_legal (hq : q.Ready) (htrailing : q.flags.trailing = false) :
    (q.reqFirstHttpMajor ch).Legal .clear .line := by
  unfold reqFirstHttpMajor
  have hdigit := @digit_le ch
  split_ifs with hch
  · simp_all
  · have hnum : isNumByte ch = true := by
      simp only [not_or, gt_iff_lt, Char.not_lt] at hch
      have : '0' ≤ ch := Char.le_trans (show '0' ≤ '1' by decide) hch.1
      simp [isNumByte, this, hch.2]
    simp_all
    omega

theorem reqHttpMinor_legal (hq : q.Ready) (hs : q.state = .reqHttpMinor)
    (htrailing : q.flags.trailing = false) : (q.reqHttpMinor ch).Legal .clear .line := by
  unfold reqHttpMinor
  split_ifs
  · simp_all
  · simp_all
  · exact httpMinorDigits_legal hq (.inr ⟨hs, rfl⟩) htrailing

theorem reqLineAlmostDone_legal (hq : q.Ready) (htrailing : q.flags.trailing = false) :
    (q.reqLineAlmostDone ch).Legal .clear .line := by
  unfold reqLineAlmostDone
  split_ifs <;> simp_all

theorem headersDone_legal (hq : q.Bounded) : (q.headersDone ch).Legal .clear .body := by
  unfold headersDone
  dsimp only
  split_ifs
  · simp
  · have hnew := newMessage_cases { q with nread := 0 }
    simp_all
  · apply complete_legal <;> simp_all
  · simp_all
  · apply complete_legal <;> simp_all
  · simp_all [lengthAsserted]
  · apply complete_legal <;> simp_all
  · simp_all

theorem headersAlmostDone_legal (hq : q.Ready) (hph : q.BeforeLine ph) :
    (q.headersAlmostDone ch).Legal .clear ph := by
  unfold headersAlmostDone
  unfold BeforeLine at hph
  dsimp only
  split_ifs with hlf htrailing
  · simp
  · rw [if_pos htrailing] at hph
    exact complete_legal hq hph
  · rw [if_neg htrailing] at hph
    have hnotice : ph.notice .headersComplete = some .body := by
      rcases hph with rfl | rfl | rfl | rfl <;> rfl
    refine ⟨hq.errno, rfl, .body, hnotice, ?_, ?_⟩ <;> apply headersDone_legal <;> simp_all

theorem headerFieldStart_legal (hq : q.Ready) (hph : q.BeforeLine ph) :
    (q.headerFieldStart ch).Legal .clear ph := by
  unfold headerFieldStart
  split_ifs
  · unfold BeforeLine at hph
    simp_all
  · apply headersAlmostDone_legal
    · simp_all
    · exact hph
  · rcases token ch with _ | c
    · simp
    · unfold BeforeLine at hph
      simp_all [FieldFits]
      unfold startHeaderState
      split_ifs <;> simp [HeaderState.text, transferEncodingText, upgradeText, proxyConnectionText]

/-- A text that is matched is at its end, or goes on. -/
theorem matchText_cases {text : Str} (hindex : q.index + 1 < text.length) (done : HeaderState)
    (c : Char) :
    ∃ s, q.matchText text done c = { q with index := q.index + 1, headerState := s } ∧
      (s = .general ∨ s = done ∨ s = q.headerState ∧ q.index + 2 < text.length) := by
  unfold matchText
  dsimp only
  split_ifs with hmismatch hend
  · exact ⟨.general, rfl, .inl rfl⟩
  · exact ⟨done, rfl, .inr (.inl rfl)⟩
  · exact ⟨q.headerState, rfl, .inr (.inr ⟨rfl, by omega⟩)⟩

/-- Only `index` and `header_state` have changed. -/
def HeaderStep (q q' : HttpParser) : Prop :=
  q' = { q with index := q'.index, headerState := q'.headerState }

/-- A character of a token leaves the parser in a state that fits. -/
theorem matchField_fits (hfits : q.FieldFits) (hindex : q.index ≤ 255) (ch c : Char) :
    ∃ q', q.matchField ch c = some q' ∧ q.HeaderStep q' ∧ q'.index ≤ 255 ∧ q'.FieldFits := by
  have htext {text : Str} {done : HeaderState} (hlt : q.index + 1 < text.length)
      (hlen : text.length ≤ 17) (hdone : ∀ i, { q with index := i, headerState := done }.FieldFits)
      (hsame : q.index + 2 < text.length → { q with index := q.index + 1 }.FieldFits) :
      q.HeaderStep (q.matchText text done c) ∧ (q.matchText text done c).index ≤ 255 ∧
        (q.matchText text done c).FieldFits := by
    obtain ⟨s, heq, hs⟩ := matchText_cases hlt done c
    rw [heq]
    refine ⟨rfl, by dsimp only; omega, ?_⟩
    rcases hs with rfl | rfl | ⟨rfl, hmore⟩
    · simp [FieldFits]
    · exact hdone _
    · exact hsame hmore
  unfold FieldFits at hfits
  unfold matchField
  cases hs : q.headerState <;> simp only [hs] at hfits ⊢
  case general => exact ⟨q, rfl, rfl, hindex, by simp [FieldFits, hs]⟩
  case C =>
    refine ⟨_, rfl, rfl, by simp [matchStart, hfits], ?_⟩
    split_ifs <;> simp [FieldFits, matchStart, hfits]
  case CO =>
    refine ⟨_, rfl, rfl, by simp [matchStart, hfits], ?_⟩
    split_ifs <;> simp [FieldFits, matchStart, hfits]
  case CON =>
    refine ⟨_, rfl, rfl, by simp [matchStart, hfits], ?_⟩
    split_ifs <;>
      simp [FieldFits, matchStart, hfits, HeaderState.text, connectionText, contentLengthText]
  case matchingConnection | matchingProxyConnection | matchingContentLength |
      matchingTransferEncoding | matchingUpgrade =>
    refine ⟨_, rfl, htext hfits (by decide) ?_ ?_⟩ <;> simp_all [FieldFits, HeaderState.text]
  case connection | contentLength | transferEncoding | upgrade =>
    refine ⟨_, rfl, ?_⟩
    split_ifs
    · exact ⟨rfl, hindex, by simp [FieldFits]⟩
    · exact ⟨rfl, hindex, by simp [FieldFits, hs]⟩

/-- A line goes on in a phase in which one may begin. -/
theorem InLine.beforeLine (hph : q.InLine ph) : q.BeforeLine ph := by
  unfold InLine at hph
  unfold BeforeLine
  split_ifs at hph ⊢ <;> simp [hph]

/-- The callback for a field. -/
theorem BeforeLine.field (hph : q.BeforeLine ph) :
    ∃ ph', ph.data .headerField = some ph' ∧ q.InLine ph' := by
  unfold BeforeLine at hph
  unfold InLine
  split_ifs at hph ⊢
  · rcases hph with rfl | rfl | rfl <;> exact ⟨.trailerField, rfl, .inl rfl⟩
  · rcases hph with rfl | rfl | rfl | rfl <;> exact ⟨.field, rfl, .inl rfl⟩

/-- The callback for a value. -/
theorem InLine.value (hph : q.InLine ph) :
    ∃ ph', ph.data .headerValue = some ph' ∧ q.InLine ph' := by
  unfold InLine at hph ⊢
  split_ifs at hph ⊢
  · rcases hph with rfl | rfl <;> exact ⟨.trailerValue, rfl, .inr rfl⟩
  · rcases hph with rfl | rfl <;> exact ⟨.value, rfl, .inr rfl⟩

theorem headerField_legal (hq : q.Ready) (hs : q.state = .headerField) (hfits : q.FieldFits)
    (hph : q.BeforeLine ph) : (q.headerField ch).Legal (.marked .headerField) ph := by
  obtain ⟨ph', hdata, hline⟩ := hph.field
  have hbefore := hline.beforeLine
  unfold headerField
  rcases token ch with _ | c
  · dsimp only
    split_ifs
    · simp_all [InLine]
    · simp_all [InLine]
    · simp_all [BeforeLine]
    · simp
  · obtain ⟨q', heq, hstep, hindex, hfits'⟩ := matchField_fits hfits hq.index ch c
    simp only [heq]
    obtain ⟨i, s, rfl⟩ : ∃ i s, q' = { q with index := i, headerState := s } := ⟨_, _, hstep⟩
    simp_all

theorem startValue_legal (hq : q.Ready) (hs : q.state = .headerValue) (hindex : q.index = 0)
    (hph : q.InLine ph) : (q.startValue ch).Legal (.marked .headerValue) ph := by
  have hdigit := @digit_le ch
  have hmax : 9 ≤ ullongMax := by decide
  unfold InLine at hph
  unfold startValue
  split
  · simp_all [ValueFits]
  · dsimp only
    split_ifs <;> simp_all [ValueFits, HeaderState.text, chunkedText]
  · split_ifs <;> simp_all [ValueFits]
    omega
  · dsimp only
    split_ifs <;> simp_all [ValueFits, HeaderState.text, keepAliveText, closeText]
  · simp_all [ValueFits]

theorem headerValueStart_legal (hq : q.Ready) (hs : q.state = .headerValueStart)
    (hph : q.InLine ph) : (q.headerValueStart ch).Legal .clear ph := by
  obtain ⟨ph', hdata, hline⟩ := hph.value
  have hbefore := hline.beforeLine
  unfold headerValueStart
  dsimp only
  split_ifs
  · unfold InLine at hph
    simp_all
  · simp_all [InLine]
  · simp_all [BeforeLine]
  · refine ⟨.inl rfl, startValue_legal ?_ rfl rfl hph⟩
    simp_all

theorem headerAlmostDone_legal (hq : q.Ready) (hph : q.InLine ph) :
    (q.headerAlmostDone ch).Legal .clear ph := by
  unfold InLine at hph
  unfold headerAlmostDone
  dsimp only
  split_ifs
  · simp
  · split <;> simp_all

theorem moreDigits_legal (hq : q.Ready) {base d : ℕ} {s : Holding}
    (hfits : ∀ n ≤ ullongMax, n ≠ ullongMax → { q with contentLength := n }.StateFits)
    (hends : s.Ends q.state) (hph : q.InPhase ph) : (q.moreDigits base d).Legal s ph := by
  unfold moreDigits
  dsimp only
  split_ifs with hover
  · simp
  · have hlt : (q.contentLength * base + d) % 2 ^ 64 ≤ ullongMax :=
      Nat.le_pred_of_lt (Nat.mod_lt _ (by positivity))
    refine ⟨⟨⟨⟨hq.1.1, hq.1.2, hlt, hq.1.4, hq.1.5, hq.1.6, hq.1.7⟩, hq.2⟩, ?_⟩, hends, hph⟩
    exact hfits _ hlt fun h => hover (.inr h)

/-- The same for a value. -/
theorem matchText_legal (hq : q.Ready) (hs : q.state = .headerValue) (hph : q.InLine ph)
    {text : Str} {done : HeaderState} (htext : q.index + 1 < text.length) (hlen : text.length ≤ 17)
    (hdone : ∀ i, { q with index := i, headerState := done }.ValueFits)
    (hsame : q.index + 2 < text.length → { q with index := q.index + 1 }.ValueFits) (c : Char) :
    (Action.next (q.matchText text done c)).Legal (.marked .headerValue) ph := by
  obtain ⟨s, heq, hcases⟩ := matchText_cases htext done c
  have hfits : { q with index := q.index + 1, headerState := s }.ValueFits := by
    rcases hcases with rfl | rfl | ⟨rfl, hmore⟩
    · simp [ValueFits]
    · exact hdone _
    · exact hsame hmore
  rw [heq]
  simp_all
  omega

theorem matchValue_legal (hq : q.Ready) (hs : q.state = .headerValue) (hfits : q.ValueFits)
    (hph : q.InLine ph) : (q.matchValue ch).Legal (.marked .headerValue) ph := by
  have hsame : (Action.next q).Legal (.marked .headerValue) ph := by simp_all
  have hgeneral :
      (Action.next { q with headerState := .general }).Legal (.marked .headerValue) ph := by
    simp_all [ValueFits]
  unfold ValueFits at hfits
  unfold matchValue
  cases hh : q.headerState <;> simp only [hh] at hfits ⊢
  case general => exact hsame
  case contentLength =>
    split_ifs
    · exact hsame
    · apply moreDigits_legal hq <;> simp_all [ValueFits]
    · simp
  case matchingTransferEncodingChunked | matchingConnectionKeepAlive | matchingConnectionClose =>
    refine matchText_legal hq hs hph hfits (by decide) ?_ ?_ _ <;>
      simp_all [ValueFits, HeaderState.text]
  case transferEncodingChunked | connectionKeepAlive | connectionClose =>
    split_ifs
    · exact hgeneral
    · exact hsame

theorem headerValue_legal (hq : q.Ready) (hs : q.state = .headerValue) (hfits : q.ValueFits)
    (hph : q.InLine ph) : (q.headerValue ch).Legal (.marked .headerValue) ph := by
  obtain ⟨ph', hdata, hline⟩ := hph.value
  unfold headerValue
  split_ifs with hcr hlf
  · simp_all
  · refine ⟨hq.errno, by omega, rfl, by omega, ph', hdata, headerAlmostDone_legal ?_ hline⟩
    simp_all
  · exact matchValue_legal hq hs hfits hph

theorem headerValueLws_legal (hq : q.Ready) (hph : q.InLine ph) :
    (q.headerValueLws ch).Legal .clear ph := by
  unfold headerValueLws
  split_ifs
  · simp_all
  · apply headerFieldStart_legal
    · simp_all
    · exact hph.beforeLine

theorem messageDone_legal (hq : q.Ready) : (q.messageDone).Legal .clear .body :=
  complete_legal hq (.inl rfl)

theorem readByte_bodyIdentity (hs : q.state = .bodyIdentity) (hlength : q.lengthAsserted)
    (ch : Char) : q.readByte ch = .mark .body (.read q q.identityRead) := by
  simp [readByte, onByte, hs, HttpState.parsingHeader, bodyIdentity, hlength]

theorem readByte_bodyIdentityEof (hs : q.state = .bodyIdentityEof) (ch : Char) :
    q.readByte ch = .mark .body (.readAll q) := by
  simp [readByte, onByte, hs, HttpState.parsingHeader, bodyIdentityEof]

theorem readByte_chunkData (hs : q.state = .chunkData) (hchunked : q.flags.chunked = true)
    (hlength : q.lengthAsserted) (ch : Char) :
    q.readByte ch = .mark .body (.read q q.chunkRead) := by
  simp [readByte, onByte, hs, HttpState.parsingHeader, chunkData, hchunked, hlength]

theorem bodyIdentity_legal (hq : q.Ready) (hs : q.state = .bodyIdentity)
    (hlength : q.lengthAsserted) (hh : h = .clear ∨ h = .loose .body) :
    q.bodyIdentity.Legal h .body := by
  have hle := hq.contentLength
  unfold bodyIdentity
  rw [if_pos hlength]
  refine ⟨by tauto, Nat.pos_of_ne_zero hlength.1, rfl, fun r hr hrle => ⟨?_, fun hone => ?_⟩⟩
  · have hless : q.contentLength - r < ullongMax := by omega
    unfold identityRead
    dsimp only
    split_ifs with hzero
    · refine ⟨hq.errno, by omega, rfl, le_rfl, .body, rfl, messageDone_legal ?_⟩
      simp_all
    · have hfits : { q with contentLength := q.contentLength - r }.lengthAsserted :=
        ⟨hzero, hless.ne⟩
      simp_all [hless.le]
  · have hnext : { q with contentLength := q.contentLength - 1 }.lengthAsserted :=
      ⟨by dsimp only; omega, by dsimp only; omega⟩
    refine ⟨{ q with contentLength := q.contentLength - 1 },
      { q with contentLength := q.contentLength - 1 }.identityRead, if_neg hnext.1, rfl,
      readByte_bodyIdentity (q := { q with contentLength := q.contentLength - 1 }) hs hnext, ?_⟩
    simp only [identityRead]
    rw [show q.contentLength - 1 - (r - 1) = q.contentLength - r by omega]

theorem bodyIdentityEof_legal (hq : q.Ready) (hs : q.state = .bodyIdentityEof)
    (hh : h = .clear ∨ h = .loose .body) : q.bodyIdentityEof.Legal h .body := by
  refine ⟨by tauto, rfl, readByte_bodyIdentityEof hs, ?_⟩
  simp_all

theorem chunkSizeStart_legal (hq : q.Ready) (hnread : q.nread = 1)
    (hchunked : q.flags.chunked = true) : (q.chunkSizeStart ch).Legal .clear .body := by
  unfold chunkSizeStart
  rw [if_pos ⟨hnread, hchunked⟩]
  rcases hd : hexValue ch with _ | d
  · simp
  · have hlt : d < 16 := hexValue_lt hd
    have hmax : 16 ≤ ullongMax := by decide
    simp_all
    omega

theorem chunkSize_legal (hq : q.Ready) (hs : q.state = .chunkSize)
    (hchunked : q.flags.chunked = true) (hlength : q.contentLength ≠ ullongMax) : (q.chunkSize ch).Legal .clear .body := by
  unfold chunkSize
  rw [if_pos hchunked]
  by_cases hcr : ch = '\r'
  · rw [if_pos hcr]
    simp_all
  · rw [if_neg hcr]
    rcases hexValue ch with _ | d
    · dsimp only
      split_ifs <;> simp_all
    · apply moreDigits_legal hq <;> simp_all

theorem chunkParameters_legal (hq : q.Ready) (hs : q.state = .chunkParameters)
    (hchunked : q.flags.chunked = true) (hlength : q.contentLength ≠ ullongMax) :
    (q.chunkParameters ch).Legal .clear .body := by
  unfold chunkParameters
  rw [if_pos hchunked]
  split_ifs <;> simp_all

theorem chunkSizeAlmostDone_legal (hq : q.Ready) (hchunked : q.flags.chunked = true)
    (hlength : q.contentLength ≠ ullongMax) : (q.chunkSizeAlmostDone ch).Legal .clear .body := by
  unfold chunkSizeAlmostDone
  rw [if_pos hchunked]
  dsimp only
  split_ifs <;> simp_all [lengthAsserted]

theorem chunkData_legal (hq : q.Ready) (hs : q.state = .chunkData)
    (hchunked : q.flags.chunked = true) (hlength : q.lengthAsserted)
    (hh : h = .clear ∨ h = .loose .body) : q.chunkData.Legal h .body := by
  have hle := hq.contentLength
  unfold chunkData
  rw [if_pos ⟨hchunked, hlength⟩]
  refine ⟨by tauto, Nat.pos_of_ne_zero hlength.1, rfl, fun r hr hrle => ⟨?_, fun hone => ?_⟩⟩
  · have hless : q.contentLength - r < ullongMax := by omega
    unfold chunkRead
    dsimp only
    split_ifs with hzero
    · simp_all
    · have hfits : { q with contentLength := q.contentLength - r }.lengthAsserted :=
        ⟨hzero, hless.ne⟩
      simp_all [hless.le]
  · have hnext : { q with contentLength := q.contentLength - 1 }.lengthAsserted :=
      ⟨by dsimp only; omega, by dsimp only; omega⟩
    refine ⟨{ q with contentLength := q.contentLength - 1 },
      { q with contentLength := q.contentLength - 1 }.chunkRead,
      congrArg Action.next (if_neg hnext.1), rfl,
      readByte_chunkData (q := { q with contentLength := q.contentLength - 1 }) hs hchunked hnext,
      ?_⟩
    simp only [chunkRead]
    rw [show q.contentLength - 1 - (r - 1) = q.contentLength - r by omega]

theorem chunkDataAlmostDone_legal (hq : q.Ready) (hchunked : q.flags.chunked = true)
    (hlength : q.contentLength = 0) (hh : h = .clear ∨ h = .loose .body) :
    (q.chunkDataAlmostDone ch).Legal h .body := by
  unfold chunkDataAlmostDone
  rw [if_pos ⟨hchunked, hlength⟩]
  rcases hh with rfl | rfl <;> split_ifs <;> simp_all

theorem chunkDataDone_legal (hq : q.Ready) (hchunked : q.flags.chunked = true) :
    (q.chunkDataDone ch).Legal .clear .body := by
  unfold chunkDataDone
  rw [if_pos hchunked]
  split_ifs <;> simp_all

theorem starts_clear {s : HttpState} (hh : h.Starts s) (hmark : firstMark s = none)
    (hbody : s.readsBody = false) : h = .clear := by
  cases h <;> simp_all [Holding.Starts]

theorem starts_marked {s : HttpState} {m : Mark} (hh : h.Starts s) (hmark : firstMark s = some m) :
    h = .marked m := by
  cases h with
  | clear => simp_all [Holding.Starts]
  | marked m' => simp_all [Holding.Starts]
  | loose m' => cases s <;> simp_all [Holding.Starts]

theorem starts_body {s : HttpState} (hh : h.Starts s) (hbody : s.readsBody = true) :
    h = .clear ∨ h = .loose .body := by
  cases h with
  | clear => exact .inl rfl
  | marked m => cases s <;> simp_all [Holding.Starts]
  | loose m => exact .inr (congrArg _ hh.1)

/-- The switch, when the byte has been counted. -/
theorem onByte_legal (hq : q.Ready) (hfits : q.state ≠ .chunkSizeStart → q.StateFits)
    (hstart : q.state = .chunkSizeStart → q.nread = 1 ∧ q.flags.chunked = true)
    (hh : h.Starts q.state) (hph : q.InPhase ph) (ch : Char) : (q.onByte ch).Legal h ph := by
  unfold onByte
  cases hs : q.state <;> rw [hs] at hh <;> simp only [StateFits, InPhase, hs] at hfits hph ⊢ <;>
    first
    | obtain rfl := starts_clear hh rfl rfl
    | obtain rfl := starts_marked hh rfl
    | replace hh := starts_body hh rfl
  case dead =>
    subst hph
    exact dead_legal hq hs
  case startReqOrRes =>
    subst hph
    exact startReqOrRes_legal hq hs
  case resOrRespH =>
    obtain ⟨rfl, htrailing⟩ := hph
    exact resOrRespH_legal hq htrailing
  case startRes => exact startRes_legal hq hs hph
  case resH | resHT | resHTT | resHTTP => exact expect_legal hq (.inl ⟨by simp, hph.1⟩) hph.2
  case resFirstHttpMajor =>
    obtain ⟨rfl, htrailing⟩ := hph
    exact resFirstHttpMajor_legal hq htrailing
  case resHttpMajor => exact httpMajorDigits_legal hq (.inl ⟨hs, rfl, hph.1⟩) hph.2
  case resFirstHttpMinor => exact firstHttpMinor_legal hq (.inl ⟨rfl, hph.1⟩) hph.2
  case resHttpMinor =>
    obtain ⟨rfl, htrailing⟩ := hph
    exact resHttpMinor_legal hq hs htrailing
  case resFirstStatusCode =>
    obtain ⟨rfl, htrailing⟩ := hph
    exact resFirstStatusCode_legal hq hs htrailing
  case resStatusCode =>
    obtain ⟨rfl, htrailing⟩ := hph
    exact resStatusCode_legal hq hs htrailing
  case resStatus =>
    obtain ⟨rfl, htrailing⟩ := hph
    exact resStatus_legal hq hs htrailing
  case resLineAlmostDone =>
    obtain ⟨rfl, htrailing⟩ := hph
    exact resLineAlmostDone_legal hq htrailing
  case startReq =>
    subst hph
    exact startReq_legal hq hs
  case reqMethod =>
    obtain ⟨rfl, htrailing⟩ := hph
    exact reqMethod_legal hq hs (hfits (by simp)) htrailing
  case reqSpacesBeforeUrl =>
    obtain ⟨rfl, htrailing⟩ := hph
    exact reqSpacesBeforeUrl_legal hq hs htrailing
  case reqSchema | reqSchemaSlash | reqSchemaSlashSlash | reqServerStart =>
    exact reqSchema_legal hq hph.1 hph.2
  case reqServer | reqServerWithAt | reqPath | reqQueryStringStart | reqQueryString |
      reqFragmentStart | reqFragment => exact reqUrl_legal hq hph.1 hph.2
  case reqHttpStart =>
    obtain ⟨rfl, htrailing⟩ := hph
    exact reqHttpStart_legal hq hs htrailing
  case reqHttpH | reqHttpHT | reqHttpHTT | reqHttpHTTP =>
    exact expect_legal hq (.inr ⟨by simp, hph.1⟩) hph.2
  case reqFirstHttpMajor =>
    obtain ⟨rfl, htrailing⟩ := hph
    exact reqFirstHttpMajor_legal hq htrailing
  case reqHttpMajor => exact httpMajorDigits_legal hq (.inr ⟨hs, rfl, hph.1⟩) hph.2
  case reqFirstHttpMinor => exact firstHttpMinor_legal hq (.inr ⟨rfl, hph.1⟩) hph.2
  case reqHttpMinor =>
    obtain ⟨rfl, htrailing⟩ := hph
    exact reqHttpMinor_legal hq hs htrailing
  case reqLineAlmostDone =>
    obtain ⟨rfl, htrailing⟩ := hph
    exact reqLineAlmostDone_legal hq htrailing
  case headerFieldStart => exact headerFieldStart_legal hq hph
  case headerField => exact headerField_legal hq hs (hfits (by simp)) hph
  case headerValueStart => exact headerValueStart_legal hq hs hph
  case headerValue => exact headerValue_legal hq hs (hfits (by simp)) hph
  case headerValueLws => exact headerValueLws_legal hq hph
  case headerAlmostDone => exact headerAlmostDone_legal hq hph
  case chunkSizeStart =>
    subst hph
    exact chunkSizeStart_legal hq (hstart hs).1 (hstart hs).2
  case chunkSize =>
    subst hph
    exact chunkSize_legal hq hs (hfits (by simp)).1 (hfits (by simp)).2
  case chunkParameters =>
    subst hph
    exact chunkParameters_legal hq hs (hfits (by simp)).1 (hfits (by simp)).2
  case chunkSizeAlmostDone =>
    subst hph
    exact chunkSizeAlmostDone_legal hq (hfits (by simp)).1 (hfits (by simp)).2
  case headersAlmostDone => exact headersAlmostDone_legal hq hph
  case chunkData =>
    subst hph
    exact chunkData_legal hq hs (hfits (by simp)).1 (hfits (by simp)).2 hh
  case chunkDataAlmostDone =>
    subst hph
    exact chunkDataAlmostDone_legal hq (hfits (by simp)).1 (hfits (by simp)).2 hh
  case chunkDataDone =>
    subst hph
    exact chunkDataDone_legal hq (hfits (by simp))
  case bodyIdentity =>
    subst hph
    exact bodyIdentity_legal hq hs (hfits (by simp)) hh
  case bodyIdentityEof =>
    subst hph
    exact bodyIdentityEof_legal hq hs hh

/-- What a byte does to a parser that fits is legal. -/
theorem readByte_legal (hq : q.Fits) (hh : h.Starts q.state) (hph : q.InPhase ph) (ch : Char) :
    (q.readByte ch).Legal h ph := by
  have hfits := hq.state
  unfold readByte
  dsimp only
  split_ifs with hparsing hover
  · simp
  · have hready : { q with nread := q.nread + 1 }.Ready :=
      ⟨⟨hq.errno, by simpa using hover, hq.contentLength, hq.httpMajor, hq.httpMinor, hq.statusCode,
        hq.index⟩, hq.upgrade⟩
    refine onByte_legal hready (fun hs => ?_) (fun hs => ?_) hh hph ch
    · dsimp only at hs
      unfold StateFits at *
      cases hstate : q.state <;> simp_all [FieldFits, ValueFits, lengthAsserted]
    · dsimp only at hs
      simp only [StateFits, hs] at hfits
      exact ⟨by simp [hfits.1], hfits.2⟩
  · refine onByte_legal hq.toReady (fun _ => hfits) (fun hs => ?_) hh hph ch
    simp [hs, HttpState.parsingHeader] at hparsing

end Cases

end HttpParser

end LuaNode
