import LuaNode.HttpParser.Segments

/-!
# Reading byte by byte

What the parser tells its callbacks, without buffers, positions and marks: a machine that takes one
byte after the other. The callbacks are those of a `Consumer`: they take data piece by piece, they
never fail, and only `on_headers_complete` looks at the parser. However the bytes arrive,
`http_parser_execute` does what this machine does.
-/

namespace LuaNode

namespace HttpParser

/-- Callbacks that never fail, with the answer of `on_headers_complete`. -/
structure Consumer (σ : Type*) where
  data : Mark → Str → σ → σ
  notice : Notice → σ → σ
  headersComplete : HttpParser → σ → σ
  skipBody : HttpParser → σ → Bool
  data_append (m : Mark) (s t : Str) (u : σ) : data m (s ++ t) u = data m t (data m s u)

variable {σ : Type*}

def Consumer.settings (c : Consumer σ) : Settings σ where
  data m _ s u := (c.data m s u, 0)
  notify n q u :=
    if n = .headersComplete then (c.headersComplete q u, if c.skipBody q u then 1 else 0)
    else (c.notice n u, 0)

theorem Consumer.additive (c : Consumer σ) : c.settings.Additive c.data :=
  ⟨fun _ _ _ _ => rfl, c.data_append⟩

/-- Why no more bytes are read. -/
inductive Ending (σ : Type*)
  | refused (e : HttpErrno)
  | upgraded (q : HttpParser) (user : σ)

abbrev Reading (σ : Type*) := Except (Ending σ) (HttpParser × σ)

/-- What an action comes to for a byte, where `pending` is the mark of its data. -/
def Action.told (c : Consumer σ) (ch : Char) : Action → Option Mark → σ → Reading σ
  | .next q, pending, u =>
    .ok (q, match pending with | none => u | some m => c.data m [ch] u)
  | .error _ e, _, _ => .error (.refused e)
  | .mark m k, _, u => k.told c ch (some m) u
  | .data _ m extra _ k, pending, u =>
    match pending with
    | none => k.told c ch none u
    | some _ => k.told c ch none (c.data m ([ch].take extra) u)
  | .notify _ n _ k, pending, u => k.told c ch pending (c.notice n u)
  | .headersComplete q k, pending, u =>
    let q' := if c.skipBody q u then { q with flags := { q.flags with skipBody := true } } else q
    (k q').told c ch pending (c.headersComplete q u)
  | .read _ k, pending, u => (k 1).told c ch pending u
  | .readAll q, pending, u =>
    .ok (q, match pending with | none => u | some m => c.data m [ch] u)
  | .ret q _, _, u => .error (.upgraded q u)
  | .abort, _, _ => .error (.refused .unknown)

namespace Consumer

variable (c : Consumer σ)

def byte (x : HttpParser × σ) (ch : Char) : Reading σ :=
  (x.1.readByte ch).told c ch (firstMark x.1.state) x.2

def bytes : Str → HttpParser × σ → Reading σ
  | [], x => .ok x
  | ch :: s, x => (c.byte x ch).bind (bytes s)

@[simp]
theorem bytes_nil (x : HttpParser × σ) : c.bytes [] x = .ok x := rfl

theorem bytes_append (s t : Str) (x : HttpParser × σ) :
    c.bytes (s ++ t) x = (c.bytes s x).bind (c.bytes t) := by
  induction s generalizing x with
  | nil => rfl
  | cons ch s ih =>
    rw [List.cons_append, bytes, bytes]
    cases c.byte x ch with
    | error e => rfl
    | ok y => exact ih y

theorem bytes_trans {s t : Str} {x y : HttpParser × σ} {r : Reading σ} (hs : c.bytes s x = .ok y)
    (ht : c.bytes t y = r) : c.bytes (s ++ t) x = r := by
  rw [bytes_append, hs]
  exact ht

end Consumer

open Execution

/-- A call with one byte ends as the machine does. -/
def Reading.Is (x : Reading σ) (r : Parsed σ) : Prop :=
  match x with
  | .ok (q, u) => r = ⟨q, u, 1⟩ ∧ q.Fits ∧ ∃ ph, q.InPhase ph
  | .error (.upgraded q u) => r = ⟨q, u, 1⟩ ∧ q.errno = .ok ∧ q.upgrade = true
  | .error (.refused e) => r.parser.errno = e ∧ e ≠ .ok

section Rules

variable (c : Consumer σ) {ch : Char} {x : Execution σ}

/-- The mark that is held in a buffer of one byte. -/
def Holding.pending : Holding → Option Mark
  | .marked m => some m
  | _ => none

/-- Behind the only byte a callback is run for the mark that is held. -/
theorem loop_last {h : Holding} (hx : x.Holds h) (hp : x.p = 0) {q : HttpParser} (hq : q.Fits)
    (hph : ∃ ph, q.InPhase ph) {n : ℕ} (hn : n = 1) :
    ∃ r, Execution.loop c.settings [ch] 1 ⟨q, x.user, n, x.marks⟩ = some r ∧
      ((Action.next q).told c ch h.pending x.user).Is r := by
  subst hn
  have hok : (Execution.mk q x.user 1 x.marks).parser.errno = .ok := hq.errno
  have hend : Execution.round c.settings [ch] ⟨q, x.user, 1, x.marks⟩ =
      Execution.finish c.settings [ch] ⟨q, x.user, 1, x.marks⟩ := rfl
  rw [Execution.loop, hend]
  cases h with
  | clear =>
    have hclear : (Execution.mk q x.user 1 x.marks).Holds .clear := hx
    rw [finish_clear hclear hok]
    exact ⟨_, rfl, rfl, hq, hph⟩
  | marked m =>
    obtain ⟨s, hs, hm⟩ := hx
    obtain rfl : s = 0 := by omega
    have hone : (Execution.mk q x.user 1 x.marks).marks = oneMark m 0 := hm
    rw [finish_mark c.additive (Nat.zero_le _) hone hok]
    exact ⟨_, rfl, rfl, hq, hph⟩
  | loose m =>
    obtain ⟨s, hs, -⟩ := hx
    omega

/-- By induction on the action. -/
theorem Action.Legal.told {a : Action} {h : Holding} {ph : Phase} (ha : a.Legal h ph)
    (hx : x.Holds h) (hp : x.p = 0) :
    ∃ r, (match a.run c.settings [ch] x with
      | .next y => Execution.loop c.settings [ch] 1 { y with p := y.p + 1 }
      | .ret r => some r
      | .abort => none) = some r ∧ (a.told c ch h.pending x.user).Is r := by
  induction a generalizing x h ph with
  | next q =>
    obtain ⟨hfits, -, hph⟩ := ha
    exact loop_last c hx hp hfits ⟨ph, hph⟩ (by dsimp only; omega)
  | error q e => exact ⟨_, rfl, rfl, ha⟩
  | mark m k ih => exact ih ha.2 (holds_setMark hx ha.1) hp
  | data q m extra consumed k ih =>
    obtain ⟨herrno, -, ha⟩ := ha
    simp only [Action.run, if_pos herrno]
    cases h with
    | clear =>
      rw [show x.marks m = none by rw [show x.marks = fun _ => none from hx]]
      exact ih ha hx hp
    | marked m' =>
      obtain ⟨rfl, hextra, ph', -, hk⟩ := ha
      obtain ⟨s, hs, hm⟩ := hx
      obtain rfl : s = 0 := by omega
      have hslice : slice [ch] 0 (x.p + extra) = [ch].take extra := by simp [slice, hp]
      rw [show x.marks m' = some 0 by rw [hm, oneMark_self]]
      simp only [hslice, c.additive.data, ne_eq, not_true_eq_false, if_false]
      exact ih hk (holds_clearMark hm) hp
    | loose m' =>
      obtain ⟨s, hs, -⟩ := hx
      omega
  | notify q n consumed k ih =>
    obtain ⟨hn, herrno, -, rfl, ph', -, hk⟩ := ha
    have hnotify : c.settings.notify n q x.user = (c.notice n x.user, 0) := by
      simp [Consumer.settings, hn]
    simp only [Action.run, if_pos herrno, hnotify, ne_eq, not_true_eq_false, if_false]
    exact ih hk hx hp
  | headersComplete q k ih =>
    obtain ⟨herrno, rfl, ph', -, hk, hskip⟩ := ha
    have hnotify : c.settings.notify .headersComplete q x.user =
        (c.headersComplete q x.user, if c.skipBody q x.user then 1 else 0) := by
      simp [Consumer.settings]
    simp only [Action.run, Action.told, hnotify]
    cases c.skipBody q x.user with
    | true => exact ih _ hskip hx hp
    | false => exact ih _ hk hx hp
  | read q k ih =>
    obtain ⟨hpos, -, hk⟩ := ha
    have hone : min q.contentLength ([ch].length - x.p) = 1 := by
      rw [hp, List.length_singleton]
      omega
    simp only [Action.run, hone]
    exact ih 1 (hk 1 (by omega) (by omega)).1 (holds_forward (q := x.parser) hx (by omega))
      (by dsimp only; omega)
  | readAll q =>
    obtain ⟨-, -, hfits, -, hph⟩ := ha
    exact loop_last c hx hp hfits ⟨ph, hph⟩ rfl
  | ret q consumed =>
    obtain ⟨hbounded, rfl, rfl, hupgrade, -⟩ := ha
    exact ⟨_, rfl, by rw [hp], hbounded.errno, hupgrade⟩
  | abort => exact ha.elim

/-- A call with one byte. -/
theorem execute_reads {q : HttpParser} (u : σ) (hq : q.Fits) (hph : ∃ ph, q.InPhase ph) (ch : Char) :
    ∃ r, q.execute c.settings u [ch] = some r ∧ (c.byte (q, u) ch).Is r := by
  obtain ⟨ph, hph⟩ := hph
  rw [execute_byte hq.errno]
  unfold Consumer.byte
  rcases hmark : firstMark q.state with _ | m
  · have hlegal := readByte_legal (h := .clear) hq hmark hph ch
    exact hlegal.told c (enter_clear u hmark) rfl
  · have hlegal := readByte_legal (h := .marked m) hq hmark hph ch
    exact hlegal.told c ⟨0, le_rfl, enter_mark u hmark⟩ rfl

/-- The bytes of a text one by one. By induction on the text. -/
theorem feed_units {q q' : HttpParser} {u u' : σ} (hq : q.Fits) (hph : ∃ ph, q.InPhase ph) {s : Str}
    (hs : c.bytes s (q, u) = .ok (q', u')) :
    q.feed c.settings u (s.map fun ch => [ch]) = some ⟨q', u', s.length⟩ ∧ q'.Fits ∧
      ∃ ph, q'.InPhase ph := by
  induction s generalizing q u with
  | nil =>
    cases hs
    exact ⟨rfl, hq, hph⟩
  | cons ch s ih =>
    obtain ⟨r, hr, his⟩ := execute_reads c u hq hph ch
    rw [Consumer.bytes] at hs
    rcases hbyte : c.byte (q, u) ch with e | ⟨q₁, u₁⟩ <;> rw [hbyte] at hs his
    · cases hs
    · obtain ⟨rfl, hq₁, hph₁⟩ := his
      obtain ⟨hfeed, hfits, hphase⟩ := ih hq₁ hph₁ hs
      have hgo : ¬ (q₁.errno ≠ .ok ∨ q₁.upgrade = true) := by simp [hq₁.errno, hq₁.upgrade]
      refine ⟨?_, hfits, hphase⟩
      rw [List.map_cons, feed, hr]
      dsimp only
      rw [if_neg hgo, hfeed, Option.map_some, List.length_cons, Nat.add_comm]

/-- The same for a text that the machine refuses. -/
theorem feed_units_refused {q : HttpParser} {u : σ} (hq : q.Fits) (hph : ∃ ph, q.InPhase ph)
    {s : Str} {e : HttpErrno} (hs : c.bytes s (q, u) = .error (.refused e)) :
    ∃ r, q.feed c.settings u (s.map fun ch => [ch]) = some r ∧ r.parser.errno = e ∧ e ≠ .ok := by
  induction s generalizing q u with
  | nil => cases hs
  | cons ch s ih =>
    obtain ⟨r, hr, his⟩ := execute_reads c u hq hph ch
    rw [Consumer.bytes] at hs
    rcases hbyte : c.byte (q, u) ch with e' | ⟨q₁, u₁⟩ <;> rw [hbyte] at hs his
    · cases hs
      obtain ⟨rfl, hne⟩ := his
      refine ⟨r, ?_, rfl, hne⟩
      rw [List.map_cons, feed, hr]
      dsimp only
      rw [if_pos (.inl hne)]
    · obtain ⟨rfl, hq₁, hph₁⟩ := his
      obtain ⟨t, ht, herrno⟩ := ih hq₁ hph₁ hs
      have hgo : ¬ (q₁.errno ≠ .ok ∨ q₁.upgrade = true) := by simp [hq₁.errno, hq₁.upgrade]
      refine ⟨{ t with count := 1 + t.count }, ?_, herrno⟩
      rw [List.map_cons, feed, hr]
      dsimp only
      rw [if_neg hgo, ht, Option.map_some]

end Rules

variable {c : Consumer σ} {q q' : HttpParser} {u u' : σ} {ds : List Str}

/-- What the machine reads is read however it arrives. -/
theorem feed_reads (hq : q.Fits) (hph : ∃ ph, q.InPhase ph) (hds : ∀ d ∈ ds, d ≠ [])
    (hs : c.bytes ds.flatten (q, u) = .ok (q', u')) :
    q.feed c.settings u ds = some ⟨q', u', ds.flatten.length⟩ := by
  obtain ⟨r, t, hr, ht, hsame⟩ := feed_bytes c.additive u hq hph hds
  obtain ⟨hunits, hfits, -⟩ := feed_units c hq hph hs
  obtain rfl : t = ⟨q', u', ds.flatten.length⟩ := Option.some_injective _ (ht.symm.trans hunits)
  obtain ⟨parser, user, count⟩ := r
  obtain ⟨hparser, hcount, huser⟩ := hsame
  dsimp only at hparser hcount huser
  subst hparser
  rw [hr, huser hfits.errno, hcount, Nat.zero_add]

theorem bytes_fits (hq : q.Fits) (hph : ∃ ph, q.InPhase ph) {s : Str}
    (hs : c.bytes s (q, u) = .ok (q', u')) : q'.Fits :=
  (feed_units c hq hph hs).2.1

/-- Behind an upgrade nothing is read, whatever arrives with it. -/
theorem feed_upgraded (hq : q.Fits) (hph : ∃ ph, q.InPhase ph) (hds : ∀ d ∈ ds, d ≠ [])
    {s rest : Str} {ch : Char} {y : HttpParser × σ} (hflatten : ds.flatten = s ++ ch :: rest)
    (hs : c.bytes s (q, u) = .ok y) (hch : c.byte y ch = .error (.upgraded q' u')) :
    q.feed c.settings u ds = some ⟨q', u', s.length + 1⟩ ∧ q'.errno = .ok := by
  obtain ⟨r, t, hr, ht, hsame⟩ := feed_bytes c.additive u hq hph hds
  have hy : c.bytes s (q, u) = .ok (y.1, y.2) := hs
  obtain ⟨hunits, hfits, hphase⟩ := feed_units c hq hph hy
  obtain ⟨r', hr', his⟩ := execute_reads c y.2 hfits hphase ch
  rw [show c.byte (y.1, y.2) ch = _ from hch] at his
  obtain ⟨rfl, hok, hup⟩ := his
  have hgo : ¬ (y.1.errno ≠ .ok ∨ y.1.upgrade = true) := by simp [hfits.errno, hfits.upgrade]
  have hstop : q'.errno ≠ .ok ∨ q'.upgrade = true := .inr hup
  rw [hflatten, List.map_append, feed_append hq.errno hq.upgrade, hunits, Option.bind_some,
    if_neg hgo, List.map_cons, feed, hr'] at ht
  dsimp only at ht
  rw [if_pos hstop, Option.map_some] at ht
  cases ht
  obtain ⟨parser, user, count⟩ := r
  obtain ⟨hparser, hcount, huser⟩ := hsame
  dsimp only at hparser hcount huser
  subst hparser
  rw [hr, huser hok, hcount, Nat.zero_add]
  exact ⟨rfl, hok⟩

/-- What the machine refuses is refused however it arrives. -/
theorem feed_refused (hq : q.Fits) (hph : ∃ ph, q.InPhase ph) (hds : ∀ d ∈ ds, d ≠ [])
    {e : HttpErrno} (hs : c.bytes ds.flatten (q, u) = .error (.refused e)) :
    ∃ r, q.feed c.settings u ds = some r ∧ r.parser.errno = e ∧ e ≠ .ok := by
  obtain ⟨r, t, hr, ht, hsame⟩ := feed_bytes c.additive u hq hph hds
  obtain ⟨t', ht', herrno⟩ := feed_units_refused c hq hph hs
  obtain rfl : t = t' := Option.some_injective _ (ht.symm.trans ht')
  exact ⟨r, hr, hsame.parser ▸ herrno⟩

/-- Where the machine stops before the end. -/
theorem Consumer.bytes_error {s : Str} {x : HttpParser × σ} {e : Ending σ}
    (h : c.bytes s x = .error e) :
    ∃ t ch rest y, s = t ++ ch :: rest ∧ c.bytes t x = .ok y ∧ c.byte y ch = .error e := by
  induction s generalizing x with
  | nil => cases h
  | cons ch s ih =>
    rw [bytes] at h
    rcases hbyte : c.byte x ch with e' | y <;> rw [hbyte] at h
    · cases h
      exact ⟨[], ch, s, x, rfl, rfl, hbyte⟩
    · obtain ⟨t, ch', rest, z, rfl, ht, hlast⟩ := ih h
      refine ⟨ch :: t, ch', rest, z, rfl, ?_, hlast⟩
      rw [bytes, hbyte]
      exact ht

/-- What a caller has who hands over `n` bytes. -/
def Reading.Ends (x : Reading σ) (n : ℕ) (r : Parsed σ) : Prop :=
  match x with
  | .ok (q, u) => r = ⟨q, u, n⟩
  | .error (.upgraded q u) =>
    r.parser = q ∧ r.user = u ∧ r.count ≤ n ∧ q.errno = .ok ∧ q.upgrade = true
  | .error (.refused e) => r.parser.errno = e ∧ e ≠ .ok

/-- The loop over buffers, with its marks and jumps, does what the machine does byte by byte. -/
theorem feed_machine (c : Consumer σ) (type : HttpParserType) (u : σ) {ds : List Str}
    (hds : ∀ d ∈ ds, d ≠ []) :
    ∃ r, (init type).feed c.settings u ds = some r ∧
      (c.bytes ds.flatten (init type, u)).Ends ds.flatten.length r := by
  have hfits := init_fits type
  have hph : ∃ ph, (init type).InPhase ph := ⟨_, init_inPhase type⟩
  rcases h : c.bytes ds.flatten (init type, u) with (e | ⟨q, v⟩) | ⟨q, v⟩
  · exact feed_refused hfits hph hds h
  · obtain ⟨t, ch, rest, y, hflatten, ht, hch⟩ := c.bytes_error h
    obtain ⟨hfeed, hok⟩ := feed_upgraded hfits hph hds hflatten ht hch
    have hy : c.bytes t (init type, u) = .ok (y.1, y.2) := ht
    obtain ⟨-, hyfits, hyph⟩ := feed_units c hfits hph hy
    obtain ⟨r, -, his⟩ := execute_reads c y.2 hyfits hyph ch
    rw [show c.byte (y.1, y.2) ch = _ from hch] at his
    have hlength : t.length + 1 ≤ ds.flatten.length := by
      rw [hflatten, List.length_append, List.length_cons]
      omega
    exact ⟨_, hfeed, rfl, rfl, hlength, hok, his.2.2⟩
  · exact ⟨_, feed_reads hfits hph hds h, rfl⟩

/-- Nobody listens. -/
def silent : Consumer Unit where
  data _ _ _ := ()
  notice _ _ := ()
  headersComplete _ _ := ()
  skipBody _ _ := false
  data_append _ _ _ _ := rfl

theorem feed_machine_request :
    ∃ r, (init .request).feed silent.settings () [['G', 'E'], ['T', ' ']] = some r ∧
      (silent.bytes ['G', 'E', 'T', ' '] (init .request, ())).Ends 4 r :=
  feed_machine silent .request () (by decide)

/-! ### The bytes of a head -/

/-- The machine at a byte that is counted. -/
theorem byte_header {n : ℕ} {ch : Char} (hs : q.state.parsingHeader = true)
    (hn : n < httpMaxHeaderSize) :
    c.byte ({ q with nread := n }, u) ch =
      (({ q with nread := n + 1 } : HttpParser).onByte ch).told c ch (firstMark q.state) u := by
  have hle : ¬ n + 1 > httpMaxHeaderSize := by omega
  simp [Consumer.byte, readByte, hs, hle]

/-- Bytes that only change the parser, whatever has been counted, and that are data of a mark or of
none. -/
inductive Passes (pending : Option Mark) : HttpParser → Str → HttpParser → Prop
  | nil (q : HttpParser) : Passes pending q [] q
  | cons {q q₂ : HttpParser} (q₁ : HttpParser) {ch : Char} {s : Str}
      (header : q.state.parsingHeader = true)
      (mark : firstMark q.state = pending)
      (next : ∀ n, ({ q with nread := n } : HttpParser).onByte ch = .next { q₁ with nread := n })
      (rest : Passes pending q₁ s q₂) : Passes pending q (ch :: s) q₂

namespace Passes

theorem append {pending : Option Mark} {q₁ q₂ q₃ : HttpParser} {s t : Str}
    (hs : Passes pending q₁ s q₂) (ht : Passes pending q₂ t q₃) : Passes pending q₁ (s ++ t) q₃ := by
  induction hs with
  | nil => exact ht
  | cons q₁ header mark next rest ih => exact .cons q₁ header mark next (ih ht)

theorem bytes_none {s : Str} (h : Passes none q s q') {n : ℕ}
    (hn : n + s.length ≤ httpMaxHeaderSize) :
    c.bytes s ({ q with nread := n }, u) = .ok ({ q' with nread := n + s.length }, u) := by
  induction h generalizing n with
  | nil => rfl
  | @cons q q₂ q₁ ch s header mark next rest ih =>
    rw [List.length_cons] at hn
    have hbyte : c.byte ({ q with nread := n }, u) ch = .ok ({ q₁ with nread := n + 1 }, u) := by
      rw [byte_header header (by omega), next, mark]
      rfl
    rw [Consumer.bytes, hbyte, List.length_cons, show n + (s.length + 1) = n + 1 + s.length by omega]
    exact ih (by omega)

theorem bytes_some {m : Mark} {s : Str} (h : Passes (some m) q s q') (t : Str) {n : ℕ}
    (hn : n + s.length ≤ httpMaxHeaderSize) :
    c.bytes s ({ q with nread := n }, c.data m t u) =
      .ok ({ q' with nread := n + s.length }, c.data m (t ++ s) u) := by
  induction h generalizing n t with
  | nil =>
    rw [List.append_nil]
    rfl
  | @cons q q₂ q₁ ch s header mark next rest ih =>
    rw [List.length_cons] at hn
    have hbyte : c.byte ({ q with nread := n }, c.data m t u) ch =
        .ok ({ q₁ with nread := n + 1 }, c.data m (t ++ [ch]) u) := by
      rw [byte_header header (by omega), next, mark, c.data_append]
      rfl
    rw [Consumer.bytes, hbyte, List.length_cons, List.append_cons t ch s,
      show n + (s.length + 1) = n + 1 + s.length by omega]
    exact ih (t ++ [ch]) (n := n + 1) (by omega)

end Passes

/-- More digits make no smaller number. -/
theorem le_ofDigitChars (s : Str) (n : ℕ) : n ≤ Nat.ofDigitChars 10 s n := by
  induction s generalizing n with
  | nil => simp
  | cons ch s ih =>
    rw [Nat.ofDigitChars_cons]
    exact le_trans (by omega) (ih _)

end HttpParser

end LuaNode
