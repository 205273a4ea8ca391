import LuaNode.HttpParser.Cases

/-!
# Runs of the HTTP parser

From the switch to the loop, to a call and to the buffers of a connection: no assertion fails, the
parser stays within its bounds, and the callbacks come in the order of `Phase`. The callbacks are
any that keep a relation between the phase and what they work on.
-/

namespace LuaNode

namespace HttpParser

variable {σ : Type*}

/-- What holds of the work of the callbacks as long as they come in order. -/
structure Settings.Keeps (settings : Settings σ) (K : Phase → σ → Prop) : Prop where
  data (m : Mark) (q : HttpParser) (s : Str) {u : σ} {ph ph' : Phase} (hK : K ph u)
    (hph : ph.data m = some ph') : K ph' (settings.data m q s u).1
  notify (n : Notice) (q : HttpParser) {u : σ} {ph ph' : Phase} (hK : K ph u)
    (hph : ph.notice n = some ph') : K ph' (settings.notify n q u).1

namespace Execution

/-- One mark is set. -/
def oneMark (m : Mark) (s : ℕ) : Mark → Option ℕ := Function.update (fun _ => none) m (some s)

@[simp]
theorem oneMark_self (m : Mark) (s : ℕ) : oneMark m s m = some s := by simp [oneMark]

/-- The marks are those that are held. -/
def Holds (x : Execution σ) : Holding → Prop
  | .clear => x.marks = fun _ => none
  | .marked m => ∃ s ≤ x.p, x.marks = oneMark m s
  | .loose m => ∃ s < x.p, x.marks = oneMark m s

variable {x : Execution σ} {m : Mark}

theorem setMark_clear (hx : x.marks = fun _ => none) : (x.setMark m).marks = oneMark m x.p := by
  simp [setMark, hx, oneMark]

theorem setMark_one {s : ℕ} (hx : x.marks = oneMark m s) : x.setMark m = x := by
  obtain ⟨q, u, p, marks⟩ := x
  cases hx
  simp [setMark]

theorem holds_setMark {h : Holding} (hx : x.Holds h)
    (hh : h = .clear ∨ h = .marked m ∨ h = .loose m) : (x.setMark m).Holds (.marked m) := by
  rcases hh with rfl | rfl | rfl
  · exact ⟨x.p, le_rfl, setMark_clear hx⟩
  · obtain ⟨s, hs, hmarks⟩ := hx
    exact ⟨s, hs, by rw [setMark_one hmarks, hmarks]⟩
  · obtain ⟨s, hs, hmarks⟩ := hx
    exact ⟨s, hs.le, by rw [setMark_one hmarks, hmarks]⟩

theorem holds_clearMark {s : ℕ} (hmarks : x.marks = oneMark m s) :
    (x.clearMark m).Holds .clear := by
  simp [clearMark, Holds, hmarks, oneMark]

theorem markCount_le {h : Holding} (hx : x.Holds h) : x.markCount ≤ 1 := by
  have hone (m : Mark) (s : ℕ) (hmarks : x.marks = oneMark m s) : x.markCount ≤ 1 := by
    unfold markCount
    rw [hmarks]
    cases m <;> simp [oneMark, Function.update_apply]
  cases h with
  | clear =>
    have hmarks : x.marks = fun _ => none := hx
    simp [markCount, hmarks]
  | marked m =>
    obtain ⟨s, -, hmarks⟩ := hx
    exact hone m s hmarks
  | loose m =>
    obtain ⟨s, -, hmarks⟩ := hx
    exact hone m s hmarks

/-- What is held stays so when bytes are read. -/
theorem holds_forward {h : Holding} (hx : x.Holds h) {q : HttpParser} {p : ℕ} (hle : x.p ≤ p) :
    ({ x with parser := q, p := p } : Execution σ).Holds h := by
  cases h with
  | clear => exact hx
  | marked m =>
    obtain ⟨s, hs, hm⟩ := hx
    exact ⟨s, hs.trans hle, hm⟩
  | loose m =>
    obtain ⟨s, hs, hm⟩ := hx
    exact ⟨s, hs.trans_le hle, hm⟩

/-- Where a round starts, or ends. -/
structure Runs (K : Phase → σ → Prop) (held : HttpState → Holding → Prop) (x : Execution σ) :
    Prop where
  fits : x.parser.Fits
  holds : ∃ h, x.Holds h ∧ held x.parser.state h
  phase : ∃ ph, x.parser.InPhase ph ∧ K ph x.user

end Execution

/-- What a call leaves: an error, a connection that is upgraded, or a parser that goes on. -/
structure Parsed.Sound (K : Phase → σ → Prop) (r : Parsed σ) : Prop where
  phase : ∃ ph, K ph r.user ∧ (r.parser.errno = .ok → r.parser.Bounded ∧
    (r.parser.upgrade = false → r.parser.StateFits ∧ r.parser.InPhase ph) ∧
    (r.parser.upgrade = true → ph = .idle))

/-- The outcome of an action that is legal. -/
def Outcome.Sound (K : Phase → σ → Prop) (data : Str) (x : Execution σ) : Outcome σ → Prop
  | .next x' => x'.Runs K (fun s h => h.Ends s) ∧ x.p ≤ x'.p ∧ x'.p < data.length
  | .ret r => r.Sound K ∧ r.count ≤ data.length ∧ (r.parser.errno = .ok → r.parser.upgrade = true)
  | .abort => False

section Rules

variable {settings : Settings σ} {K : Phase → σ → Prop} {data : Str} {x : Execution σ}

theorem sound_fail {q : HttpParser} {e : HttpErrno} (he : e ≠ .ok) {u : σ} {ph : Phase}
    (hK : K ph u) {n : ℕ} (hn : n ≤ data.length) :
    (Outcome.ret ⟨q.fail e, u, n⟩).Sound K data x :=
  ⟨⟨ph, hK, fun h => absurd h he⟩, hn, fun h => absurd h he⟩

theorem sound_mono {y : Execution σ} (hle : x.p ≤ y.p) {o : Outcome σ} (ho : o.Sound K data y) :
    o.Sound K data x := by
  cases o with
  | next x' => exact ⟨ho.1, hle.trans ho.2.1, ho.2.2⟩
  | ret r => exact ho
  | abort => exact ho

theorem mark_errno_ne (m : Mark) : m.errno ≠ .ok := by cases m <;> decide

theorem notice_errno_ne (n : Notice) : n.errno ≠ .ok := by cases n <;> decide

/-- A callback for data is not called, or the mark that is held is its own. -/
theorem Action.Legal.data_cases {q : HttpParser} {m : Mark} {extra consumed : ℕ} {k : Action}
    {h : Holding} {ph : Phase} (ha : (Action.data q m extra consumed k).Legal h ph)
    (hx : x.Holds h) :
    h = .clear ∧ x.marks m = none ∧ k.Legal .clear ph ∨
      ∃ s ph', x.marks = Execution.oneMark m s ∧ extra ≤ 1 ∧ ph.data m = some ph' ∧
        k.Legal .clear ph' := by
  obtain ⟨-, -, ha⟩ := ha
  cases h with
  | clear => exact .inl ⟨rfl, by rw [show x.marks = fun _ => none from hx], ha⟩
  | marked m' =>
    obtain ⟨rfl, hextra, ph', hph, hk⟩ := ha
    obtain ⟨s, -, hs⟩ := hx
    exact .inr ⟨s, ph', hs, hextra, hph, hk⟩
  | loose m' =>
    obtain ⟨rfl, rfl, ph', hph, hk⟩ := ha
    obtain ⟨s, -, hs⟩ := hx
    exact .inr ⟨s, ph', hs, Nat.zero_le 1, hph, hk⟩

/-- An action that is legal has a sound outcome. By induction on the action. -/
theorem Action.Legal.run (hkeeps : settings.Keeps K) {a : Action} {h : Holding} {ph : Phase}
    (ha : a.Legal h ph) (hx : x.Holds h) (hp : x.p < data.length) (hK : K ph x.user) :
    (a.run settings data x).Sound K data x := by
  induction a generalizing x h ph with
  | next q =>
    obtain ⟨hfits, hends, hphase⟩ := ha
    exact ⟨⟨hfits, ⟨h, hx, hends⟩, ⟨ph, hphase, hK⟩⟩, le_rfl, hp⟩
  | error q e => exact sound_fail ha hK hp.le
  | mark m k ih => exact ih ha.2 (Execution.holds_setMark hx ha.1) hp hK
  | data q m extra consumed k ih =>
    have hconsumed : consumed ≤ 1 := ha.2.1
    rw [Action.run, if_pos ha.1]
    rcases ha.data_cases hx with ⟨rfl, hnone, hk⟩ | ⟨s, ph', hs, -, hph, hk⟩
    · rw [hnone]
      exact ih hk hx hp hK
    · have hnext := hkeeps.data m q (slice data s (x.p + extra)) hK hph
      rw [show x.marks m = some s by rw [hs, Execution.oneMark_self]]
      dsimp only
      split_ifs
      · exact sound_fail (mark_errno_ne m) hnext (by omega)
      · exact ih hk (Execution.holds_clearMark hs) hp hnext
  | notify q n consumed k ih =>
    obtain ⟨-, herrno, hconsumed, rfl, ph', hph, hk⟩ := ha
    have hnext := hkeeps.notify n q hK hph
    rw [Action.run, if_pos herrno]
    dsimp only
    split_ifs
    · exact sound_fail (notice_errno_ne n) hnext (by omega)
    · exact ih hk hx hp hnext
  | headersComplete q k ih =>
    obtain ⟨herrno, rfl, ph', hph, hk, hskip⟩ := ha
    have hnext := hkeeps.notify .headersComplete q hK hph
    rw [Action.run]
    dsimp only
    split_ifs
    · exact ih _ hk hx hp hnext
    · exact ih _ hskip hx hp hnext
    · exact sound_fail (by decide) hnext hp.le
  | read q k ih =>
    obtain ⟨hpos, -, hk⟩ := ha
    have hread : 0 < min q.contentLength (data.length - x.p) := by omega
    have hle : x.p ≤ x.p + min q.contentLength (data.length - x.p) - 1 := by omega
    have hforward := Execution.holds_forward (q := x.parser) hx hle
    have hrun := ih _ (hk _ hread (min_le_left ..)).1 hforward (by dsimp only; omega) hK
    exact sound_mono hle hrun
  | readAll q =>
    obtain ⟨-, -, hfits, hends, hphase⟩ := ha
    have hle : x.p ≤ data.length - 1 := by omega
    exact ⟨⟨hfits, ⟨h, Execution.holds_forward hx hle, hends⟩, ⟨ph, hphase, hK⟩⟩, hle,
      by dsimp only; omega⟩
  | ret q consumed =>
    obtain ⟨hbounded, rfl, rfl, hupgrade, rfl⟩ := ha
    refine ⟨⟨.idle, hK, fun _ => ⟨hbounded, fun h => ?_, fun _ => rfl⟩⟩, by dsimp only; omega,
      fun _ => hupgrade⟩
    rw [hupgrade] at h
    exact absurd h (by decide)
  | abort => exact ha.elim

/-! ### The loop -/

namespace Execution

/-- What is held at the end of a round is held at the start of the next one. -/
theorem holds_next {h : Holding} (hx : x.Holds h) {s : HttpState} (hends : h.Ends s) :
    ∃ h', ({ x with p := x.p + 1 } : Execution σ).Holds h' ∧ h'.Starts s := by
  cases h with
  | clear => exact ⟨.clear, hx, hends⟩
  | marked m =>
    obtain ⟨i, hi, hm⟩ := hx
    rcases hends with hmark | hbody
    · exact ⟨.marked m, ⟨i, by dsimp only; omega, hm⟩, hmark⟩
    · exact ⟨.loose m, ⟨i, by dsimp only; omega, hm⟩, hbody⟩
  | loose m => exact hends.elim

theorem runs_next (hx : x.Runs K (fun s h => h.Ends s)) :
    ({ x with p := x.p + 1 } : Execution σ).Runs K (fun s h => h.Starts s) := by
  obtain ⟨h, hh, hends⟩ := hx.holds
  exact ⟨hx.fits, holds_next hh hends, hx.phase⟩

/-- The mark that is left when a buffer ends has a callback in its phase. -/
theorem inPhase_data {q : HttpParser} {ph : Phase} {m : Mark} (hph : q.InPhase ph)
    (hm : firstMark q.state = some m ∨ m = .body ∧ q.state.readsBody = true) :
    ∃ ph', ph.data m = some ph' ∧ q.InPhase ph' := by
  unfold InPhase at hph ⊢
  rcases hm with hm | ⟨rfl, hm⟩
  · cases hs : q.state <;> simp only [hs, firstMark, reduceCtorEq, Option.some.injEq] at hm hph ⊢ <;>
      subst hm
    case headerField =>
      obtain ⟨ph', hdata, hline⟩ := hph.field
      exact ⟨ph', hdata, hline.beforeLine⟩
    case headerValue => exact hph.value
    all_goals
      obtain ⟨rfl | rfl, htrailing⟩ := hph <;> exact ⟨.line, rfl, .inr rfl, htrailing⟩
  · cases hs : q.state <;>
      simp only [hs, HttpState.readsBody, Bool.false_eq_true] at hm hph ⊢ <;>
      exact ⟨.body, by rw [hph]; rfl, rfl⟩

/-- Without a mark nothing is left over. -/
theorem leftOver_clear (hx : x.Holds .clear) (herrno : x.parser.errno = .ok) :
    x.parser.leftOver.run settings data x = .ret ⟨x.parser, x.user, x.p⟩ := by
  have hmarks : x.marks = fun _ => none := hx
  simp [leftOver, Action.run, herrno, hmarks]

/-- The data from the mark on is left over. -/
theorem leftOver_mark {m : Mark} {s : ℕ}
    (hx : x.marks = oneMark m s) (herrno : x.parser.errno = .ok) :
    x.parser.leftOver.run settings data x =
      let r := settings.data m x.parser (slice data s x.p) x.user
      if r.2 ≠ 0 then .ret ⟨x.parser.fail m.errno, r.1, x.p⟩
      else .ret ⟨x.parser, r.1, x.p⟩ := by
  cases m <;> simp [leftOver, Action.run, herrno, hx, clearMark, oneMark]

/-- Behind the loop. -/
theorem finish_sound (hkeeps : settings.Keeps K) (hx : x.Runs K (fun s h => h.Starts s))
    (hp : x.p = data.length) :
    ∃ r, x.finish settings data = .ret r ∧ r.Sound K ∧ r.count ≤ data.length ∧
      (r.parser.errno = .ok → r.parser.upgrade = false ∧ r.count = data.length) := by
  obtain ⟨h, hh, hstarts⟩ := hx.holds
  obtain ⟨ph, hph, hK⟩ := hx.phase
  have hfits := hx.fits
  have hgood {ph : Phase} {u : σ} (hph : x.parser.InPhase ph) (hK : K ph u) :
      (Parsed.mk x.parser u x.p).Sound K :=
    ⟨ph, hK, fun _ => ⟨hfits.toBounded, fun _ => ⟨hfits.state, hph⟩,
      fun h => absurd (hfits.upgrade.symm.trans h) (by decide)⟩⟩
  have hmark (m : Mark) (s : ℕ) (hs : x.marks = oneMark m s)
      (hm : firstMark x.parser.state = some m ∨ m = .body ∧ x.parser.state.readsBody = true) :
      ∃ r, x.parser.leftOver.run settings data x = .ret r ∧ r.Sound K ∧ r.count ≤ data.length ∧
        (r.parser.errno = .ok → r.parser.upgrade = false ∧ r.count = data.length) := by
    obtain ⟨ph', hdata, hph'⟩ := inPhase_data hph hm
    have hnext := hkeeps.data m x.parser (slice data s x.p) hK hdata
    rw [leftOver_mark hs hfits.errno]
    dsimp only
    split_ifs
    · have hne := mark_errno_ne m
      exact ⟨_, rfl, ⟨ph', hnext, fun h => absurd h hne⟩, hp.le, fun h => absurd h hne⟩
    · exact ⟨_, rfl, hgood hph' hnext, hp.le, fun _ => ⟨hfits.upgrade, hp⟩⟩
  rw [finish, if_pos (markCount_le hh)]
  cases h with
  | clear =>
    rw [leftOver_clear hh hfits.errno]
    exact ⟨_, rfl, hgood hph hK, hp.le, fun _ => ⟨hfits.upgrade, hp⟩⟩
  | marked m =>
    obtain ⟨s, -, hs⟩ := hh
    exact hmark m s hs (.inl hstarts)
  | loose m =>
    obtain ⟨s, -, hs⟩ := hh
    exact hmark m s hs (.inr hstarts)

/-- The loop ends within its fuel. By induction on the fuel: every round moves on. -/
theorem loop_sound (hkeeps : settings.Keeps K) {fuel : ℕ}
    (hx : x.Runs K (fun s h => h.Starts s)) (hp : x.p ≤ data.length)
    (hfuel : data.length - x.p < fuel) :
    ∃ r, x.loop settings data fuel = some r ∧ r.Sound K ∧ r.count ≤ data.length ∧
      (r.parser.errno = .ok → r.parser.upgrade = false → r.count = data.length) := by
  induction fuel generalizing x with
  | zero => omega
  | succ fuel ih =>
    rw [loop, round]
    rcases hch : data[x.p]? with _ | ch
    · have hend : x.p = data.length := le_antisymm hp (List.getElem?_eq_none_iff.mp hch)
      obtain ⟨r, hr, hsound, hcount, hok⟩ := finish_sound hkeeps hx hend
      rw [hr]
      exact ⟨r, rfl, hsound, hcount, fun h _ => (hok h).2⟩
    · obtain ⟨hlt, -⟩ := List.getElem?_eq_some_iff.mp hch
      obtain ⟨h, hh, hstarts⟩ := hx.holds
      obtain ⟨ph, hph, hK⟩ := hx.phase
      have hrun := (readByte_legal hx.fits hstarts hph ch).run hkeeps hh hlt hK
      dsimp only
      rcases hround : (x.parser.readByte ch).run settings data x with x' | r | _
      · rw [hround] at hrun
        obtain ⟨hruns, hle, hlt'⟩ := hrun
        exact ih (runs_next hruns) (by dsimp only; omega) (by dsimp only; omega)
      · rw [hround] at hrun
        obtain ⟨hsound, hcount, hok⟩ := hrun
        exact ⟨r, rfl, hsound, hcount, fun h h' => absurd ((hok h).symm.trans h') (by decide)⟩
      · rw [hround] at hrun
        exact hrun.elim

end Execution

/-! ### Calls -/

theorem enter_runs {q : HttpParser} {u : σ} (hq : q.Fits) {ph : Phase} (hph : q.InPhase ph)
    (hK : K ph u) : (q.enter u).Runs K (fun s h => h.Starts s) := by
  refine ⟨hq, ?_, ⟨ph, hph, hK⟩⟩
  rcases hmark : firstMark q.state with _ | m
  · exact ⟨.clear, by funext m; simp [enter, hmark], hmark⟩
  · refine ⟨.marked m, ⟨0, le_rfl, ?_⟩, hmark⟩
    funext m'
    by_cases h : m' = m
    · simp [enter, hmark, h]
    · simp [enter, hmark, h, Ne.symm h, Execution.oneMark]

/-- A call with bytes. -/
theorem execute_sound (hkeeps : settings.Keeps K) {q : HttpParser} {u : σ} (hq : q.Fits)
    {ph : Phase} (hph : q.InPhase ph) (hK : K ph u) (hdata : data ≠ []) :
    ∃ r, q.execute settings u data = some r ∧ r.Sound K ∧ r.count ≤ data.length ∧
      (r.parser.errno = .ok → r.parser.upgrade = false → r.count = data.length) := by
  have hlength : data.length ≠ 0 := by simpa using hdata
  rw [execute, if_neg (by simp [hq.errno]), if_neg hlength]
  exact Execution.loop_sound hkeeps (enter_runs hq hph hK) (Nat.zero_le _)
    (by simp [enter])

/-- The call at the end of the file: the callbacks stay in order, and the parser is at its end. -/
theorem endOfFile_sound (hkeeps : settings.Keeps K) {q : HttpParser} {u : σ} {ph : Phase}
    (hph : q.InPhase ph) (hK : K ph u) : ∃ ph', K ph' (q.endOfFile settings u).user := by
  unfold endOfFile
  split
  · rename_i hs
    have hbody : ph = .body := by simpa [InPhase, hs] using hph
    have hnext := hkeeps.notify .messageComplete q hK (show ph.notice _ = some .idle by rw [hbody]; rfl)
    dsimp only
    split_ifs <;> exact ⟨.idle, hnext⟩
  all_goals exact ⟨ph, hK⟩

/-- The buffers of a connection. -/
theorem feed_sound (hkeeps : settings.Keeps K) {q : HttpParser} {u : σ} (hq : q.Fits)
    {ph : Phase} (hph : q.InPhase ph) (hK : K ph u) {ds : List Str} (hds : ∀ d ∈ ds, d ≠ []) :
    ∃ r, q.feed settings u ds = some r ∧ r.Sound K ∧ r.count ≤ ds.flatten.length ∧
      (r.parser.errno = .ok → r.parser.upgrade = false → r.count = ds.flatten.length) := by
  induction ds generalizing q u ph with
  | nil =>
    have hstays : (Parsed.mk q u 0).Sound K :=
      ⟨ph, hK, fun _ => ⟨hq.toBounded, fun _ => ⟨hq.state, hph⟩,
        fun h => absurd (hq.upgrade.symm.trans h) (by decide)⟩⟩
    exact ⟨_, rfl, hstays, le_rfl, fun _ _ => rfl⟩
  | cons d ds ih =>
    obtain ⟨hd, hds⟩ := List.forall_mem_cons.mp hds
    obtain ⟨r, hr, hsound, hcount, hall⟩ := execute_sound hkeeps hq hph hK hd
    rw [feed, hr, List.flatten_cons, List.length_append]
    dsimp only
    split_ifs with hstop
    · refine ⟨r, rfl, hsound, by omega, fun hok hup => ?_⟩
      rcases hstop with herr | hupgrade
      · exact absurd hok herr
      · exact absurd (hup.symm.trans hupgrade) (by decide)
    · obtain ⟨hok, hup⟩ := not_or.mp hstop
      have hok := of_not_not hok
      have hup : r.parser.upgrade = false := by simpa using hup
      obtain ⟨ph', hK', hnext⟩ := hsound.phase
      obtain ⟨hbounded, hfits, -⟩ := hnext hok
      obtain ⟨hstate, hph'⟩ := hfits hup
      obtain ⟨t, ht, htsound, htcount, htall⟩ := ih ⟨⟨hbounded, hup⟩, hstate⟩ hph' hK' hds
      have hr := hall hok hup
      refine ⟨{ t with count := r.count + t.count }, by rw [ht]; rfl, ⟨htsound.phase⟩, ?_,
        fun h h' => ?_⟩
      · dsimp only
        omega
      · have := htall h h'
        dsimp only
        omega

end Rules

theorem init_fits (type : HttpParserType) : (init type).Fits := by
  cases type <;>
    exact ⟨⟨⟨rfl, by decide, by decide, by decide, by decide, by decide, by decide⟩, rfl⟩, trivial⟩

theorem init_inPhase (type : HttpParserType) : (init type).InPhase .idle := by
  cases type
  · rfl
  · exact .inl rfl
  · rfl

/-- A callback that has been called. -/
inductive Call
  | data (m : Mark) (s : Str)
  | notice (n : Notice)
  deriving DecidableEq

/-- The calls are noted. -/
def Settings.traced (settings : Settings σ) : Settings (σ × List Call) where
  data m q s u :=
    let r := settings.data m q s u.1
    ((r.1, u.2 ++ [.data m s]), r.2)
  notify n q u :=
    let r := settings.notify n q u.1
    ((r.1, u.2 ++ [.notice n]), r.2)

namespace Phase

def call (ph : Phase) : Call → Option Phase
  | .data m _ => ph.data m
  | .notice n => ph.notice n

/-- The phase after some calls, if they come in order. -/
def calls (ph : Phase) (cs : List Call) : Option Phase := cs.foldlM call ph

theorem calls_append {ph ph' : Phase} {cs : List Call} (h : ph.calls cs = some ph') (c : Call) :
    ph.calls (cs ++ [c]) = ph'.call c := by
  simp only [calls] at h ⊢
  simp [List.foldlM_append, h]

end Phase

theorem traced_keeps (settings : Settings σ) :
    settings.traced.Keeps fun ph u => Phase.idle.calls u.2 = some ph where
  data _ _ _ _ _ _ hK hph := (Phase.calls_append hK _).trans hph
  notify _ _ _ _ _ hK hph := (Phase.calls_append hK _).trans hph

end HttpParser

end LuaNode
