import LuaNode.HttpParser.Safety

/-!
# The packets of a connection do not matter

A buffer is parsed as its bytes one by one: the marks into a buffer, the data that is read at a
stroke and the callbacks for what is left at its end only cut the data of the callbacks in other
pieces. So however a stream arrives, the parser ends in the same state, and callbacks that take data
piece by piece have been given the same.
-/

namespace LuaNode

namespace HttpParser

variable {σ : Type*}

/-- The callbacks with data do `act`, piece by piece, and never fail. -/
structure Settings.Additive (settings : Settings σ) (act : Mark → Str → σ → σ) : Prop where
  data (m : Mark) (q : HttpParser) (s : Str) (u : σ) : settings.data m q s u = (act m s u, 0)
  append (m : Mark) (s t : Str) (u : σ) : act m (s ++ t) u = act m t (act m s u)

/-! ### Slices -/

theorem slice_append (d : Str) {s i j : ℕ} (hs : s ≤ i) (hi : i ≤ j) :
    slice d s i ++ slice d i j = slice d s j := by
  unfold slice
  rw [show d.drop i = (d.drop s).drop (i - s) by rw [List.drop_drop]; congr 1; omega,
    show j - s = (i - s) + (j - i) by omega, List.take_add]

theorem slice_take (d : Str) {s j n : ℕ} (hj : j ≤ n) : slice (d.take n) s j = slice d s j := by
  unfold slice
  rw [List.drop_take, List.take_take]
  congr 1
  omega

theorem slice_one {d : Str} {i : ℕ} {ch : Char} (hch : d[i]? = some ch) :
    slice d i (i + 1) = [ch] := by
  obtain ⟨hlt, rfl⟩ := List.getElem?_eq_some_iff.mp hch
  rw [slice, List.drop_eq_getElem_cons hlt, Nat.add_sub_cancel_left, List.take_succ_cons,
    List.take_zero]

theorem slice_self (d : Str) (i : ℕ) : slice d i i = [] := by simp [slice]

/-- The mark of a buffer with one byte. -/
theorem slice_singleton {d : Str} {i n : ℕ} {ch : Char} (hch : d[i]? = some ch) (hn : n ≤ 1) :
    slice d i (i + n) = slice [ch] 0 n := by
  obtain rfl | rfl : n = 0 ∨ n = 1 := by omega
  · rw [Nat.add_zero, slice_self, slice_self]
  · rw [slice_one hch]
    rfl

/-! ### A buffer and its byte -/

namespace Execution

/-- At a byte of a buffer and at this byte as a buffer of its own: what the first has pending has
been handed on by the second. -/
def Agree (act : Mark → Str → σ → σ) (d : Str) (i : ℕ) : Holding → Execution σ → Execution σ → Prop
  | .clear, x, y => x.Holds .clear ∧ y.Holds .clear ∧ y.user = x.user
  | .marked m, x, y => ∃ s ≤ i, x.marks = oneMark m s ∧ y.marks = oneMark m 0 ∧
      y.user = if s = i then x.user else act m (slice d s i) x.user
  | .loose m, x, y => ∃ s < i, x.marks = oneMark m s ∧ y.Holds .clear ∧
      y.user = act m (slice d s i) x.user

end Execution

open Execution

/-- Two calls end in the same way, where one began some bytes behind the other. At an error the data
that is pending is lost. -/
structure Parsed.Same (n : ℕ) (r t : Parsed σ) : Prop where
  parser : r.parser = t.parser
  count : r.count = n + t.count
  user : r.parser.errno = .ok → r.user = t.user

/-- What they do is the same. -/
def Outcome.Matches (act : Mark → Str → σ → σ) (d : Str) (i : ℕ) : Outcome σ → Outcome σ → Prop
  | .next x, .next y => x.parser = y.parser ∧ x.p = i ∧ y.p = 0 ∧
      ∃ h : Holding, h.Ends x.parser.state ∧ Agree act d i h x y
  | .ret r, .ret t => r.Same i t
  | _, _ => False

section Bytes

variable {settings : Settings σ} {act : Mark → Str → σ → σ} {d : Str} {i : ℕ} {ch : Char}
  {x y : Execution σ}

theorem matches_fail {q : HttpParser} {e : HttpErrno} (he : e ≠ .ok) (u v : σ) {n k : ℕ}
    (hn : n = i + k) : (Outcome.ret ⟨q.fail e, u, n⟩).Matches act d i (.ret ⟨q.fail e, v, k⟩) :=
  ⟨rfl, hn, fun h => absurd h he⟩

/-- By induction on the action. -/
theorem run_matches (hadd : settings.Additive act) (hch : d[i]? = some ch) {a : Action}
    {h : Holding} {ph : Phase} (ha : a.Legal h ph) (hxy : Agree act d i h x y) (hx : x.p = i)
    (hy : y.p = 0) :
    (a.run settings (d.take (i + 1)) x).Matches act d i (a.run settings [ch] y) := by
  obtain ⟨hlt, -⟩ := List.getElem?_eq_some_iff.mp hch
  have hlength : (d.take (i + 1)).length = i + 1 := by rw [List.length_take]; omega
  induction a generalizing x y h ph with
  | next q => exact ⟨rfl, hx, hy, h, ha.2.1, by cases h <;> exact hxy⟩
  | error q e => exact matches_fail ha _ _ (by rw [hx, hy]; rfl)
  | mark m k ih =>
    refine ih ha.2 ?_ hx hy
    rcases ha.1 with rfl | rfl | rfl
    · obtain ⟨hxm, hym, hu⟩ := hxy
      have hxm : x.marks = fun _ => none := hxm
      have hym : y.marks = fun _ => none := hym
      refine ⟨i, le_rfl, (setMark_clear hxm).trans (by rw [hx]), (setMark_clear hym).trans (by rw [hy]),
        ?_⟩
      rw [if_pos rfl]
      exact hu
    · obtain ⟨s, hs, hxm, hym, hu⟩ := hxy
      rw [setMark_one hxm, setMark_one hym]
      exact ⟨s, hs, hxm, hym, hu⟩
    · obtain ⟨s, hs, hxm, hym, hu⟩ := hxy
      have hym : y.marks = fun _ => none := hym
      rw [setMark_one hxm]
      refine ⟨s, hs.le, hxm, (setMark_clear hym).trans (by rw [hy]), ?_⟩
      rw [if_neg hs.ne]
      exact hu
  | data q m extra consumed k ih =>
    obtain ⟨herrno, -, ha⟩ := ha
    simp only [Action.run, if_pos herrno]
    cases h with
    | clear =>
      obtain ⟨hxm, hym, hu⟩ := hxy
      have hxm : x.marks = fun _ => none := hxm
      have hym : y.marks = fun _ => none := hym
      rw [hxm, hym]
      exact ih ha ⟨hxm, hym, hu⟩ hx hy
    | marked m' =>
      obtain ⟨rfl, hextra, ph', -, hk⟩ := ha
      obtain ⟨s, hs, hxm, hym, hu⟩ := hxy
      have hxs : x.marks m' = some s := by rw [hxm, oneMark_self]
      have hys : y.marks m' = some 0 := by rw [hym, oneMark_self]
      have hxd : slice (d.take (i + 1)) s (x.p + extra) = slice d s (i + extra) := by
        rw [hx, slice_take d (by omega)]
      have hyd : slice [ch] 0 (y.p + extra) = slice d i (i + extra) := by
        rw [hy, Nat.zero_add, slice_singleton hch hextra]
      rw [hxs, hys]
      simp only [hxd, hyd, hadd.data, ne_eq, not_true_eq_false, if_false]
      refine ih hk ⟨holds_clearMark hxm, holds_clearMark hym, ?_⟩ hx hy
      change act m' _ y.user = act m' _ x.user
      rw [hu]
      split_ifs with hsi
      · rw [hsi]
      · rw [← hadd.append, slice_append d hs (Nat.le_add_right i extra)]
    | loose m' =>
      obtain ⟨rfl, rfl, ph', -, hk⟩ := ha
      obtain ⟨s, hs, hxm, hym, hu⟩ := hxy
      have hxs : x.marks m' = some s := by rw [hxm, oneMark_self]
      have hym : y.marks = fun _ => none := hym
      have hxd : slice (d.take (i + 1)) s (x.p + 0) = slice d s i := by
        rw [hx, slice_take d (by omega), Nat.add_zero]
      rw [hxs, hym]
      simp only [hxd, hadd.data, ne_eq, not_true_eq_false, if_false]
      exact ih hk ⟨holds_clearMark hxm, hym, hu⟩ hx hy
  | notify q n consumed k ih =>
    obtain ⟨-, herrno, -, rfl, ph', -, hk⟩ := ha
    obtain ⟨hxm, hym, hu⟩ := hxy
    simp only [Action.run, if_pos herrno, hu]
    split_ifs
    · exact matches_fail (notice_errno_ne n) _ _ (by omega)
    · exact ih hk ⟨hxm, hym, rfl⟩ hx hy
  | headersComplete q k ih =>
    obtain ⟨herrno, rfl, ph', -, hk, hskip⟩ := ha
    obtain ⟨hxm, hym, hu⟩ := hxy
    simp only [Action.run, hu]
    split_ifs
    · exact ih _ hk ⟨hxm, hym, rfl⟩ hx hy
    · exact ih _ hskip ⟨hxm, hym, rfl⟩ hx hy
    · exact matches_fail (by decide) _ _ (by omega)
  | read q k ih =>
    obtain ⟨hpos, -, hk⟩ := ha
    have hx1 : min q.contentLength ((d.take (i + 1)).length - x.p) = 1 := by omega
    have hy1 : min q.contentLength ([ch].length - y.p) = 1 := by
      rw [hy, List.length_singleton]
      omega
    simp only [Action.run, hx1, hy1]
    refine ih 1 (hk 1 (by omega) (by omega)).1 ?_ (by dsimp only; omega) (by dsimp only; omega)
    cases h <;> exact hxy
  | readAll q =>
    refine ⟨rfl, ?_, rfl, h, ha.2.2.2.1, by cases h <;> exact hxy⟩
    dsimp only
    omega
  | ret q consumed =>
    obtain ⟨-, -, rfl, -, -⟩ := ha
    refine ⟨rfl, ?_, fun _ => hxy.2.2.symm⟩
    dsimp only
    omega
  | abort => exact ha.elim

/-- An action has its parsers itself. -/
theorem run_reparsed (a : Action) (q q' : HttpParser) (u : σ) (p : ℕ) (marks : Mark → Option ℕ) :
    a.run settings d ⟨q, u, p, marks⟩ = a.run settings d ⟨q', u, p, marks⟩ := by
  induction a generalizing u p marks with
  | mark m k ih => exact ih u p _
  | data r m extra consumed k ih =>
    simp only [Action.run]
    split_ifs
    · rcases marks m with _ | s
      · exact ih u p marks
      · dsimp only
        split_ifs
        · rfl
        · exact ih _ p _
    · rfl
  | notify r n consumed k ih =>
    simp only [Action.run]
    split_ifs
    · rfl
    · exact ih _ p marks
    · rfl
  | headersComplete r k ih =>
    simp only [Action.run]
    split_ifs
    · exact ih _ _ p marks
    · exact ih _ _ p marks
    · rfl
  | read r k ih => exact ih _ u _ marks
  | next => rfl
  | error => rfl
  | readAll => rfl
  | ret => rfl
  | abort => rfl

/-- A round at a byte that does the same as any other. -/
theorem round_byte (hlt : x.p < d.length) {a : Action} (ha : ∀ ch, x.parser.readByte ch = a) :
    x.round settings d = a.run settings d x := by
  rw [Execution.round, List.getElem?_eq_getElem hlt]
  dsimp only
  rw [ha]

variable (settings) in
/-- An action that reads more than its byte does at a stroke what the next rounds do. -/
theorem run_unit {a : Action} {h : Holding} {ph : Phase} (ha : a.Legal h ph) (hx : x.Holds h)
    (hp : x.p = i) (hlt : i < d.length) :
    a.run settings d x = a.run settings (d.take (i + 1)) x ∨
      ∃ x', a.run settings (d.take (i + 1)) x = .next x' ∧ i + 1 < d.length ∧
        a.run settings d x = { x' with p := i + 1 }.round settings d := by
  have hlength : (d.take (i + 1)).length = i + 1 := by rw [List.length_take]; omega
  induction a generalizing x h ph with
  | next q => exact .inl rfl
  | error q e => exact .inl rfl
  | mark m k ih => exact ih ha.2 (holds_setMark hx ha.1) hp
  | data q m extra consumed k ih =>
    simp only [Action.run, if_pos ha.1]
    rcases ha.data_cases hx with ⟨rfl, hnone, hk⟩ | ⟨s, ph', hs, hextra, -, hk⟩
    · rw [hnone]
      exact ih hk hx hp
    · -- the data ends at the byte or behind it
      have hslice : slice (d.take (i + 1)) s (x.p + extra) = slice d s (x.p + extra) :=
        slice_take d (by omega)
      rw [show x.marks m = some s by rw [hs, oneMark_self]]
      simp only [hslice]
      split_ifs
      · exact .inl rfl
      · exact ih hk (holds_clearMark hs) hp
  | notify q n consumed k ih =>
    obtain ⟨-, herrno, -, rfl, ph', -, hk⟩ := ha
    simp only [Action.run, if_pos herrno]
    split_ifs
    · exact .inl rfl
    · exact ih hk hx hp
  | headersComplete q k ih =>
    obtain ⟨herrno, rfl, ph', -, hk, hskip⟩ := ha
    simp only [Action.run]
    split_ifs
    · exact ih _ hk hx hp
    · exact ih _ hskip hx hp
    · exact .inl rfl
  | read q k ih =>
    obtain ⟨hpos, rfl, hk⟩ := ha
    obtain ⟨s, hs, hmarks⟩ := hx
    have hunit : min q.contentLength ((d.take (i + 1)).length - x.p) = 1 := by omega
    simp only [Action.run, hunit]
    rcases (show min q.contentLength (d.length - x.p) = 1 ∨
      1 < min q.contentLength (d.length - x.p) by omega) with hone | hmore
    · rw [hone]
      have hforward := holds_forward (q := x.parser) (p := x.p + 1 - 1)
        (show x.Holds (.marked .body) from ⟨s, hs, hmarks⟩) (by omega)
      exact ih 1 (hk 1 (by omega) (by omega)).1 hforward (by dsimp only; omega)
    · generalize hr : min q.contentLength (d.length - x.p) = r at hmore ⊢
      obtain ⟨q', k', hone, hlength', hbyte, hrest⟩ := (hk r (by omega) (by omega)).2 hmore
      refine .inr ⟨{ x with parser := q' }, ?_, by omega, ?_⟩
      · rw [hone]
        rfl
      · have hnext : min q'.contentLength (d.length - (i + 1)) = r - 1 := by omega
        have hp' : i + 1 + (r - 1) - 1 = x.p + r - 1 := by omega
        rw [round_byte (show i + 1 < d.length by omega) hbyte, Action.run,
          setMark_one (by exact hmarks), Action.run]
        dsimp only
        rw [hnext, hrest, hp']
        exact run_reparsed _ _ _ _ _ _
  | readAll q =>
    obtain ⟨rfl, hbyte, -⟩ := ha
    obtain ⟨s, -, hmarks⟩ := hx
    simp only [Action.run, hlength, Nat.add_sub_cancel]
    rcases (show d.length = i + 1 ∨ i + 1 < d.length by omega) with hlast | hmore
    · rw [hlast]
      exact .inl rfl
    · refine .inr ⟨_, rfl, hmore, ?_⟩
      rw [round_byte hmore hbyte, Action.run, setMark_one (by exact hmarks)]
      rfl
  | ret q consumed => exact .inl rfl
  | abort => exact .inl rfl

/-! ### The loop -/

theorem finish_clear (hx : x.Holds .clear) (hok : x.parser.errno = .ok) :
    x.finish settings d = .ret ⟨x.parser, x.user, x.p⟩ := by
  rw [finish, if_pos (markCount_le hx), leftOver_clear hx hok]

theorem finish_mark (hadd : settings.Additive act) {m : Mark} {s : ℕ} (hs : s ≤ x.p)
    (hx : x.marks = oneMark m s) (hok : x.parser.errno = .ok) :
    x.finish settings d = .ret ⟨x.parser, act m (slice d s x.p) x.user, x.p⟩ := by
  have hholds : x.Holds (.marked m) := ⟨s, hs, hx⟩
  rw [finish, if_pos (markCount_le hholds), leftOver_mark hx hok]
  simp [hadd.data]

/-- A round starts, and another parser has been given the bytes before it one by one. -/
structure Execution.Follows (act : Mark → Str → σ → σ) (d : Str) (x : Execution σ) (u : σ) :
    Prop where
  fits : x.parser.Fits
  phase : ∃ ph, x.parser.InPhase ph
  agree : ∃ h : Holding, h.Starts x.parser.state ∧ Agree act d x.p h x (x.parser.enter u)
  behind : 0 < x.p → ∀ m, x.marks m ≠ some x.p

theorem enter_clear {q : HttpParser} (u : σ) (hq : firstMark q.state = none) :
    (q.enter u).Holds .clear := by
  funext m
  simp [enter, hq]

theorem enter_mark {q : HttpParser} (u : σ) {m : Mark} (hq : firstMark q.state = some m) :
    (q.enter u).marks = oneMark m 0 := by
  funext m'
  by_cases h : m' = m
  · simp [enter, hq, h]
  · simp [enter, hq, oneMark, h, Ne.symm h]

/-- The start of a buffer. -/
theorem enter_follows {q : HttpParser} {u : σ} (hq : q.Fits) (hph : ∃ ph, q.InPhase ph) :
    (q.enter u).Follows act d u := by
  refine ⟨hq, hph, ?_, fun h => absurd h (Nat.lt_irrefl 0)⟩
  rcases hmark : firstMark q.state with _ | m
  · have hclear := enter_clear u hmark
    exact ⟨.clear, hmark, hclear, hclear, rfl⟩
  · have hone := enter_mark u hmark
    exact ⟨.marked m, hmark, 0, le_rfl, hone, hone, rfl⟩

theorem firstMark_readsBody {s : HttpState} (hs : s.readsBody = true) : firstMark s = none := by
  cases s <;> first | rfl | exact absurd hs (by decide)

theorem oneMark_ne {m m' : Mark} {s p : ℕ} (hs : s < p) : oneMark m s m' ≠ some p := by
  unfold oneMark
  by_cases h : m' = m
  · simp [h, hs.ne]
  · simp [h]

/-- Behind its byte the other parser is called again. -/
theorem follows_next (hadd : settings.Additive act) (hch : d[i]? = some ch)
    (hmatch : (Outcome.next x).Matches act d i (.next y)) (hfits : x.parser.Fits)
    (hph : ∃ ph, x.parser.InPhase ph) :
    ∃ u, ({ y with p := y.p + 1 } : Execution σ).finish settings [ch] =
        .ret ⟨x.parser, u, 1⟩ ∧
      ({ x with p := x.p + 1 } : Execution σ).Follows act d u := by
  obtain ⟨hparser, hxp, hyp, h, hends, hagree⟩ := hmatch
  have hok : y.parser.errno = .ok := hparser ▸ hfits.errno
  cases h with
  | clear =>
    obtain ⟨hxm, hym, hu⟩ := hagree
    have hnone : x.marks = fun _ => none := hxm
    refine ⟨y.user, ?_, hfits, hph, ⟨.clear, hends, hxm, enter_clear _ hends, hu⟩, fun _ m => ?_⟩
    · rw [finish_clear (x := { y with p := y.p + 1 }) hym hok, hparser, hyp]
    · simp [hnone]
  | marked m =>
    obtain ⟨s, hs, hxm, hym, hu⟩ := hagree
    have hall : act m [ch] y.user = act m (slice d s (x.p + 1)) x.user := by
      rw [hu, hxp]
      split_ifs with hsi
      · rw [hsi, slice_one hch]
      · rw [← hadd.append, ← slice_one hch, slice_append d hs (Nat.le_add_right i 1)]
    refine ⟨act m [ch] y.user, ?_, hfits, hph, ?_, fun _ m' => ?_⟩
    · rw [finish_mark (x := { y with p := y.p + 1 }) hadd (Nat.zero_le _) hym hok, hparser, hyp]
      rfl
    · rcases hends with hmark | ⟨rfl, hbody⟩
      · refine ⟨.marked m, hmark, s, by dsimp only; omega, hxm, enter_mark _ hmark, ?_⟩
        rw [if_neg (by dsimp only; omega)]
        exact hall
      · exact ⟨.loose .body, ⟨rfl, hbody⟩, s, by dsimp only; omega, hxm,
          enter_clear _ (firstMark_readsBody hbody), hall⟩
    · dsimp only
      rw [hxm]
      exact oneMark_ne (by omega)
  | loose m => exact hends.elim

/-- A buffer of one byte. -/
theorem execute_byte {q : HttpParser} (hok : q.errno = .ok) (u : σ) (ch : Char) :
    q.execute settings u [ch] =
      match (q.readByte ch).run settings [ch] (q.enter u) with
      | .next y => Execution.loop settings [ch] 1 { y with p := y.p + 1 }
      | .ret r => some r
      | .abort => none := by
  rw [execute, if_neg (by simp [hok]), if_neg (by simp)]
  rfl

/-- At the end of the buffer the other parser has been given all. -/
theorem follows_end (hadd : settings.Additive act) {u : σ} (hx : x.Follows act d u) (hp : 0 < x.p) :
    x.finish settings d = .ret ⟨x.parser, u, x.p⟩ := by
  obtain ⟨h, -, hagree⟩ := hx.agree
  have hok := hx.fits.errno
  cases h with
  | clear =>
    obtain ⟨hxm, -, hu⟩ := hagree
    rw [finish_clear hxm hok, show u = x.user from hu]
  | marked m =>
    obtain ⟨s, hs, hxm, -, hu⟩ := hagree
    have hne : s ≠ x.p := fun h => hx.behind hp m (by rw [hxm, oneMark_self, h])
    rw [if_neg hne] at hu
    rw [finish_mark hadd hs hxm hok, show u = _ from hu]
  | loose m =>
    obtain ⟨s, hs, hxm, -, hu⟩ := hagree
    rw [finish_mark hadd hs.le hxm hok, show u = _ from hu]

/-- The loop over the rest of a buffer, and its bytes one by one. By induction on how many there
are. -/
theorem loop_feed (hadd : settings.Additive act) {n fuel : ℕ} (hn : d.length - x.p = n) {u : σ}
    (hx : x.Follows act d u) (hp : x.p ≤ d.length) (hd : d ≠ []) (hfuel : n < fuel) :
    ∃ r t, x.loop settings d fuel = some r ∧
      x.parser.feed settings u ((d.drop x.p).map fun c => [c]) = some t ∧ r.Same x.p t := by
  induction n generalizing x u fuel with
  | zero =>
    obtain ⟨fuel, rfl⟩ : ∃ k, fuel = k + 1 := ⟨fuel - 1, by omega⟩
    have hlen := List.length_pos_of_ne_nil hd
    have hend : x.round settings d = x.finish settings d := by
      rw [Execution.round, List.getElem?_eq_none (by omega)]
    rw [loop, hend, follows_end hadd hx (by omega), List.drop_eq_nil_of_le (by omega)]
    exact ⟨_, _, rfl, rfl, rfl, rfl, fun _ => rfl⟩
  | succ n ih =>
    obtain ⟨fuel, rfl⟩ : ∃ k, fuel = k + 1 := ⟨fuel - 1, by omega⟩
    have hlt : x.p < d.length := by omega
    obtain ⟨ch, hch⟩ : ∃ ch, d[x.p]? = some ch := ⟨_, List.getElem?_eq_getElem hlt⟩
    have hdrop : d.drop x.p = ch :: d.drop (x.p + 1) := by
      rw [List.drop_eq_getElem_cons hlt, (List.getElem?_eq_some_iff.mp hch).2]
    have hround : x.round settings d = (x.parser.readByte ch).run settings d x := by
      rw [Execution.round, hch]
    obtain ⟨h, hstarts, hagree⟩ := hx.agree
    obtain ⟨ph, hph⟩ := hx.phase
    have hholds : x.Holds h := by
      cases h with
      | clear => exact hagree.1
      | marked m =>
        obtain ⟨s, hs, hxm, -⟩ := hagree
        exact ⟨s, hs, hxm⟩
      | loose m =>
        obtain ⟨s, hs, hxm, -⟩ := hagree
        exact ⟨s, hs, hxm⟩
    have hlegal := readByte_legal hx.fits hstarts hph ch
    have hmatch := run_matches hadd hch hlegal hagree rfl rfl
    have hkeeps : settings.Keeps fun _ _ => True :=
      ⟨fun _ _ _ _ _ _ _ _ => trivial, fun _ _ _ _ _ _ _ => trivial⟩
    have hlast : x.p < (d.take (x.p + 1)).length := by rw [List.length_take]; omega
    have hsound := hlegal.run hkeeps hholds hlast trivial
    have hunit := run_unit settings hlegal hholds rfl hlt
    rw [hdrop, List.map_cons, feed, execute_byte hx.fits.errno]
    rcases hfirst : (x.parser.readByte ch).run settings (d.take (x.p + 1)) x with x' | r | _ <;>
      rcases hsingle : (x.parser.readByte ch).run settings [ch] (x.parser.enter u) with y | t | _ <;>
      rw [hfirst, hsingle] at hmatch <;> rw [hfirst] at hsound hunit <;>
      first | exact hmatch.elim | skip
    case next.next =>
      obtain ⟨-, hp', hyp, -⟩ := id hmatch
      have hfits := hsound.1.fits
      have hphase : ∃ ph, x'.parser.InPhase ph := hsound.1.phase.imp fun _ h => h.1
      obtain ⟨u', hfinish, hfollows⟩ := follows_next hadd hch hmatch hfits hphase
      have hbyte : Execution.loop settings [ch] 1 { y with p := y.p + 1 } =
          some ⟨x'.parser, u', 1⟩ := by
        rw [loop, Execution.round, show [ch][y.p + 1]? = none by rw [hyp]; rfl]
        dsimp only
        rw [hfinish]
      -- what is read at a stroke is read in the rounds to come
      have hfull : ∃ k, n < k ∧ x.loop settings d (fuel + 1) =
          Execution.loop settings d k { x' with p := x'.p + 1 } := by
        rcases hunit with hsame | ⟨x'', hnext, -, hstroke⟩
        · exact ⟨fuel, by omega, by rw [loop, hround, hsame]⟩
        · cases hnext
          exact ⟨fuel + 1, by omega, by rw [loop, hround, hstroke, ← hp']; rfl⟩
      obtain ⟨k, hk, hloop⟩ := hfull
      obtain ⟨r, t, hr, ht, hsame⟩ :=
        ih (by dsimp only; omega) hfollows (by dsimp only; omega) hk
      have hgo : ¬ (x'.parser.errno ≠ .ok ∨ x'.parser.upgrade = true) := by
        simp [hfits.errno, hfits.upgrade]
      dsimp only at ht
      rw [hp'] at ht
      simp only [hbyte, if_neg hgo, ht]
      refine ⟨r, _, hloop.trans hr, rfl, hsame.parser, ?_, hsame.user⟩
      have hcount := hsame.count
      dsimp only at hcount ⊢
      omega
    case ret.ret =>
      have hstop : t.parser.errno ≠ .ok ∨ t.parser.upgrade = true := by
        rw [← hmatch.parser]
        by_cases hok : r.parser.errno = .ok
        · exact .inr (hsound.2.2 hok)
        · exact .inl hok
      have hfull : x.loop settings d (fuel + 1) = some r := by
        rcases hunit with hsame | ⟨x'', hnext, -⟩
        · rw [loop, hround, hsame]
        · exact absurd hnext (by simp)
      dsimp only
      rw [if_pos hstop]
      exact ⟨r, t, hfull, rfl, hmatch⟩

/-! ### Buffers -/

/-- A buffer, and its bytes one by one. -/
theorem execute_feed (hadd : settings.Additive act) {q : HttpParser} (u : σ) (hq : q.Fits)
    (hph : ∃ ph, q.InPhase ph) (hd : d ≠ []) :
    ∃ r t, q.execute settings u d = some r ∧
      q.feed settings u (d.map fun c => [c]) = some t ∧ r.Same 0 t := by
  have hlength : d.length ≠ 0 := by simpa using hd
  rw [execute, if_neg (by simp [hq.errno]), if_neg hlength]
  exact loop_feed (x := q.enter u) hadd rfl (enter_follows hq hph) (Nat.zero_le _) hd
    (by simp [enter])

/-- A caller that stops for the first buffers stops for all. -/
theorem feed_append {q : HttpParser} (hok : q.errno = .ok) (hup : q.upgrade = false) (u : σ)
    (ds ds' : List Str) :
    q.feed settings u (ds ++ ds') = (q.feed settings u ds).bind fun r =>
      if r.parser.errno ≠ .ok ∨ r.parser.upgrade then some r
      else (r.parser.feed settings r.user ds').map fun t => { t with count := r.count + t.count } := by
  induction ds generalizing q u with
  | nil =>
    have hgo : ¬ (q.errno ≠ .ok ∨ q.upgrade = true) := by simp [hok, hup]
    simp [feed, if_neg hgo]
  | cons d ds ih =>
    rw [List.cons_append, feed, feed]
    rcases q.execute settings u d with _ | r
    · rfl
    · dsimp only
      split_ifs with hstop
      · simp [hstop]
      · obtain ⟨hok', hup'⟩ := not_or.mp hstop
        rw [ih (of_not_not hok') (by simpa using hup')]
        rcases r.parser.feed settings r.user ds with _ | t
        · rfl
        · simp only [Option.bind_some, Option.map_some]
          split_ifs
          · rfl
          · rw [Option.map_map]
            simp only [Function.comp_def, Nat.add_assoc]

/-- The buffers of a connection, and its bytes one by one. By induction on the buffers. -/
theorem feed_bytes (hadd : settings.Additive act) {q : HttpParser} (u : σ) (hq : q.Fits)
    (hph : ∃ ph, q.InPhase ph) {ds : List Str} (hds : ∀ d ∈ ds, d ≠ []) :
    ∃ r t, q.feed settings u ds = some r ∧
      q.feed settings u (ds.flatten.map fun c => [c]) = some t ∧ r.Same 0 t := by
  induction ds generalizing q u with
  | nil => exact ⟨_, _, rfl, rfl, rfl, rfl, fun _ => rfl⟩
  | cons d ds ih =>
    obtain ⟨hd, hds⟩ := List.forall_mem_cons.mp hds
    obtain ⟨ph, hph'⟩ := id hph
    have hkeeps : settings.Keeps fun _ _ => True :=
      ⟨fun _ _ _ _ _ _ _ _ => trivial, fun _ _ _ _ _ _ _ => trivial⟩
    obtain ⟨r, t, hr, ht, hsame⟩ := execute_feed hadd u hq hph hd
    obtain ⟨r', hr', hsound, -⟩ := execute_sound hkeeps hq hph' (u := u) trivial hd
    obtain rfl : r = r' := Option.some_injective _ (hr.symm.trans hr')
    rw [List.flatten_cons, List.map_append, feed_append hq.errno hq.upgrade, ht, feed, hr]
    simp only [Option.bind_some]
    rw [← hsame.parser]
    split_ifs with hstop
    · exact ⟨r, t, rfl, rfl, hsame⟩
    · obtain ⟨hok, hup⟩ := not_or.mp hstop
      have hok := of_not_not hok
      obtain ⟨ph', -, hgood⟩ := hsound.phase
      obtain ⟨hbounded, hfits, -⟩ := hgood hok
      have hup : r.parser.upgrade = false := by simpa using hup
      obtain ⟨hstate, hph''⟩ := hfits hup
      rw [← hsame.user hok]
      obtain ⟨r', t', hr', ht', hsame'⟩ := ih r.user ⟨⟨hbounded, hup⟩, hstate⟩ ⟨ph', hph''⟩ hds
      rw [hr', ht']
      refine ⟨_, _, rfl, rfl, hsame'.parser, ?_, hsame'.user⟩
      have hcount := hsame.count
      have hcount' := hsame'.count
      dsimp only
      omega

end Bytes

/-- The text of the URLs of a connection. -/
def urlText : Settings Str where
  data m _ s u := (if m = .url then u ++ s else u, 0)
  notify _ _ u := (u, 0)

theorem urlText_additive : urlText.Additive fun m s u => if m = .url then u ++ s else u := by
  refine ⟨fun _ _ _ _ => rfl, fun m s t u => ?_⟩
  split_ifs
  · rw [List.append_assoc]
  · rfl

end HttpParser

end LuaNode
