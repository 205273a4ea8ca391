import LuaNode.HttpParser.Safety

/-!
# A callback that fails

A callback that answers other than 0 halts the parser, but for the 1 of `on_headers_complete` that
skips the body. `Answers` is what the callbacks have answered up to now, one entry for each call;
the parser does not see that they are noted.
-/

namespace LuaNode

namespace HttpParser

variable {σ : Type*}

/-! ### Callbacks that only watch -/

section Watching

variable {τ : Type*} {settings : Settings σ} {watching : Settings τ} {f : τ → σ} {data : Str}

/-- The callbacks work on more, and on what `f` takes of it as those of `settings` do. -/
structure Settings.Watches (watching : Settings τ) (settings : Settings σ) (f : τ → σ) : Prop where
  data (m : Mark) (q : HttpParser) (s : Str) (u : τ) : settings.data m q s (f u) =
    (f (watching.data m q s u).1, (watching.data m q s u).2)
  notify (n : Notice) (q : HttpParser) (u : τ) : settings.notify n q (f u) =
    (f (watching.notify n q u).1, (watching.notify n q u).2)

def Execution.map (f : τ → σ) (x : Execution τ) : Execution σ :=
  ⟨x.parser, f x.user, x.p, x.marks⟩

def Parsed.map (f : τ → σ) (r : Parsed τ) : Parsed σ := ⟨r.parser, f r.user, r.count⟩

def Outcome.map (f : τ → σ) : Outcome τ → Outcome σ
  | .next x => .next (x.map f)
  | .ret r => .ret (r.map f)
  | .abort => .abort

/-- By induction on the action. -/
theorem Action.run_map (hw : watching.Watches settings f) (a : Action) (x : Execution τ) :
    a.run settings data (x.map f) = (a.run watching data x).map f := by
  induction a generalizing x with
  | next q => rfl
  | error q e => rfl
  | mark m k ih => exact ih (x.setMark m)
  | data q m extra consumed k ih =>
    have hmarks : (x.map f).marks m = x.marks m := rfl
    rw [Action.run, Action.run, hmarks]
    split_ifs
    · rcases x.marks m with _ | start
      · exact ih x
      · have hcall : settings.data m q (slice data start ((x.map f).p + extra))
            (x.map f).user = _ :=
          hw.data m q (slice data start (x.p + extra)) x.user
        dsimp only
        rw [hcall]
        split_ifs
        · rfl
        · exact ih ({ x with
            user := (watching.data m q (slice data start (x.p + extra)) x.user).1 }.clearMark m)
    · rfl
  | notify q n consumed k ih =>
    have hcall : settings.notify n q (x.map f).user = _ := hw.notify n q x.user
    rw [Action.run, Action.run]
    dsimp only
    rw [hcall]
    split_ifs
    · rfl
    · exact ih { x with user := (watching.notify n q x.user).1 }
    · rfl
  | headersComplete q k ih =>
    have hcall : settings.notify .headersComplete q (x.map f).user = _ :=
      hw.notify .headersComplete q x.user
    rw [Action.run, Action.run]
    dsimp only
    rw [hcall]
    split_ifs
    · exact ih q { x with user := (watching.notify .headersComplete q x.user).1 }
    · exact ih { q with flags := { q.flags with skipBody := true } }
        { x with user := (watching.notify .headersComplete q x.user).1 }
    · rfl
  | read q k ih =>
    have hp : (x.map f).p = x.p := rfl
    rw [Action.run, Action.run, hp]
    exact ih (min q.contentLength (data.length - x.p))
      { x with p := x.p + min q.contentLength (data.length - x.p) - 1 }
  | readAll q => rfl
  | ret q consumed => rfl
  | abort => rfl

theorem Execution.round_map (hw : watching.Watches settings f) (x : Execution τ) :
    (x.map f).round settings data = (x.round watching data).map f := by
  have hp : (x.map f).p = x.p := rfl
  unfold round
  rw [hp]
  rcases data[x.p]? with _ | ch
  · have hmarks : (x.map f).markCount = x.markCount := rfl
    dsimp only
    unfold finish
    rw [hmarks]
    split_ifs
    · exact Action.run_map hw x.parser.leftOver x
    · rfl
  · exact Action.run_map hw (x.parser.readByte ch) x

/-- By induction on the rounds. -/
theorem Execution.loop_map (hw : watching.Watches settings f) (fuel : ℕ) (x : Execution τ) :
    (x.map f).loop settings data fuel = (x.loop watching data fuel).map (Parsed.map f) := by
  induction fuel generalizing x with
  | zero => rfl
  | succ fuel ih =>
    rw [loop, loop, round_map hw]
    rcases x.round watching data with x' | r | _
    · exact ih { x' with p := x'.p + 1 }
    · rfl
    · rfl

theorem endOfFile_map (hw : watching.Watches settings f) (q : HttpParser) (u : τ) :
    q.endOfFile settings (f u) = (q.endOfFile watching u).map f := by
  unfold endOfFile
  split
  case h_1 =>
    dsimp only
    rw [hw.notify]
    split_ifs <;> rfl
  all_goals rfl

theorem execute_map (hw : watching.Watches settings f) (q : HttpParser) (u : τ) :
    q.execute settings (f u) data = (q.execute watching u data).map (Parsed.map f) := by
  unfold execute
  split_ifs
  · rfl
  · rw [endOfFile_map hw]
    rfl
  · exact Execution.loop_map hw (data.length + 1) (q.enter u)

/-- The parser does the same for callbacks that watch. By induction on the buffers. -/
theorem feed_map (hw : watching.Watches settings f) (q : HttpParser) (u : τ) (ds : List Str) :
    q.feed settings (f u) ds = (q.feed watching u ds).map (Parsed.map f) := by
  induction ds generalizing q u with
  | nil => rfl
  | cons d ds ih =>
    rw [feed, feed, execute_map hw]
    rcases q.execute watching u d with _ | r
    · rfl
    · dsimp only [Option.map_some]
      have hr : (r.map f).parser = r.parser := rfl
      have hu : (r.map f).user = f r.user := rfl
      rw [hr, hu, ih]
      split_ifs
      · rfl
      · rw [Option.map_map, Option.map_map]
        rfl

end Watching

/-! ### Answers -/

/-- The error that the answer of a callback stands for. -/
def Mark.failure (m : Mark) (answer : ℤ) : Option HttpErrno :=
  if answer ≠ 0 then some m.errno else none

def Notice.failure (n : Notice) (answer : ℤ) : Option HttpErrno :=
  if answer = 0 ∨ n = .headersComplete ∧ answer = 1 then none else some n.errno

abbrev Answers := List (Option HttpErrno)

/-- The answers are noted. -/
def Settings.answered (settings : Settings σ) : Settings (σ × Answers) where
  data m q s u :=
    let r := settings.data m q s u.1
    ((r.1, u.2 ++ [m.failure r.2]), r.2)
  notify n q u :=
    let r := settings.notify n q u.1
    ((r.1, u.2 ++ [n.failure r.2]), r.2)

theorem answered_watches (settings : Settings σ) : settings.answered.Watches settings Prod.fst :=
  ⟨fun _ _ _ _ => rfl, fun _ _ _ => rfl⟩

/-- No callback has failed. -/
def Answers.Good (as : Answers) : Prop := ∀ a ∈ as, a = none

theorem Answers.good_append {as : Answers} (has : as.Good) {a : Option HttpErrno} (ha : a = none) :
    Good (as ++ [a]) := by
  intro b hb
  rcases List.mem_append.mp hb with hb | hb
  · exact has b hb
  · rw [List.mem_singleton.mp hb, ha]

/-- No callback has failed, or only the last one: the parser has its error. -/
def Parsed.Halts (r : Parsed (σ × Answers)) : Prop :=
  r.user.2.Good ∨ ∃ as : Answers, as.Good ∧ r.user.2 = as ++ [some r.parser.errno] ∧
    r.parser.errno ≠ .ok

theorem Parsed.Halts.good {r : Parsed (σ × Answers)} (h : r.Halts) (hok : r.parser.errno = .ok) :
    r.user.2.Good := by
  rcases h with hgood | ⟨as, -, -, hne⟩
  · exact hgood
  · exact absurd hok hne

/-- A round goes on only where no callback has failed. -/
def Outcome.Halts : Outcome (σ × Answers) → Prop
  | .next x => x.user.2.Good
  | .ret r => r.Halts
  | .abort => True

variable {settings : Settings σ} {data : Str} {x : Execution (σ × Answers)}

theorem fail_halts {q : HttpParser} {e : HttpErrno} (he : e ≠ .ok) {u : σ} {as : Answers}
    (has : as.Good) {a : Option HttpErrno} (ha : a = some e) {n : ℕ} :
    (Parsed.mk (q.fail e) (u, as ++ [a]) n).Halts :=
  .inr ⟨as, has, by rw [ha]; rfl, he⟩

/-- By induction on the action: every call is followed by the rest of the tree or by its error. -/
theorem Action.run_halts (a : Action) (hx : x.user.2.Good) :
    (a.run settings.answered data x).Halts := by
  induction a generalizing x with
  | next q => exact hx
  | error q e => exact .inl hx
  | mark m k ih => exact ih hx
  | data q m extra consumed k ih =>
    rw [Action.run]
    split_ifs
    · rcases x.marks m with _ | start
      · exact ih hx
      · dsimp only
        split_ifs with hanswer
        · exact fail_halts (mark_errno_ne m) hx (if_pos hanswer)
        · exact ih (Answers.good_append hx (if_neg hanswer))
    · trivial
  | notify q n consumed k ih =>
    rw [Action.run]
    split_ifs
    · dsimp only
      split_ifs with hanswer
      · by_cases hskip : n = .headersComplete ∧ (settings.notify n q x.user.1).2 = 1
        · exact .inl (Answers.good_append hx (if_pos (.inr hskip)))
        · exact fail_halts (notice_errno_ne n) hx (if_neg (not_or.mpr ⟨hanswer, hskip⟩))
      · exact ih (Answers.good_append hx (if_pos (.inl (not_not.mp hanswer))))
    · trivial
  | headersComplete q k ih =>
    rw [Action.run]
    dsimp only
    split_ifs with hzero hone
    · exact ih _ (Answers.good_append hx (if_pos (.inl hzero)))
    · exact ih _ (Answers.good_append hx (if_pos (.inr ⟨rfl, hone⟩)))
    · exact fail_halts (by decide) hx (if_neg (not_or.mpr ⟨hzero, fun h => hone h.2⟩))
  | read q k ih => exact ih _ hx
  | readAll q => exact hx
  | ret q consumed => exact .inl hx
  | abort => trivial

/-- By induction on the rounds. -/
theorem Execution.loop_halts {fuel : ℕ} (hx : x.user.2.Good) {r : Parsed (σ × Answers)}
    (hr : x.loop settings.answered data fuel = some r) : r.Halts := by
  induction fuel generalizing x with
  | zero => cases hr
  | succ fuel ih =>
    have hround : (x.round settings.answered data).Halts := by
      unfold round
      rcases data[x.p]? with _ | ch
      · dsimp only
        unfold finish
        split_ifs
        · exact Action.run_halts _ hx
        · trivial
      · exact Action.run_halts _ hx
    rw [loop] at hr
    rcases hout : x.round settings.answered data with x' | r' | _
    · rw [hout] at hround hr
      exact ih (x := { x' with p := x'.p + 1 }) hround hr
    · rw [hout] at hround hr
      obtain rfl : r' = r := Option.some.inj hr
      exact hround
    · rw [hout] at hr
      cases hr

theorem endOfFile_halts (q : HttpParser) {u : σ × Answers} (hu : u.2.Good) :
    (q.endOfFile settings.answered u).Halts := by
  unfold endOfFile
  split
  case h_1 =>
    dsimp only
    split_ifs with hanswer
    · exact fail_halts (by decide) hu (if_neg (not_or.mpr ⟨hanswer, by simp⟩))
    · exact .inl (Answers.good_append hu (if_pos (.inl (not_not.mp hanswer))))
  all_goals exact .inl hu

theorem execute_halts {q : HttpParser} {u : σ × Answers} (hu : u.2.Good) {r : Parsed (σ × Answers)}
    (hr : q.execute settings.answered u data = some r) : r.Halts := by
  unfold execute at hr
  split_ifs at hr
  · obtain rfl := Option.some.inj hr
    exact .inl hu
  · obtain rfl := Option.some.inj hr
    exact endOfFile_halts q hu
  · exact Execution.loop_halts hu hr

/-- A buffer is parsed only where no callback has failed in those before it. By induction on the
buffers. -/
theorem feed_answered {q : HttpParser} {u : σ × Answers} {ds : List Str} (hu : u.2.Good)
    {r : Parsed (σ × Answers)} (hr : q.feed settings.answered u ds = some r) : r.Halts := by
  induction ds generalizing q u r with
  | nil =>
    obtain rfl := Option.some.inj hr
    exact .inl hu
  | cons d ds ih =>
    rw [feed] at hr
    rcases hcall : q.execute settings.answered u d with _ | t
    · rw [hcall] at hr
      cases hr
    · rw [hcall] at hr
      have ht : t.Halts := execute_halts hu hcall
      dsimp only at hr
      split_ifs at hr with hstop
      · obtain rfl := Option.some.inj hr
        exact ht
      · have hok : t.parser.errno = .ok := not_not.mp (not_or.mp hstop).1
        obtain ⟨r', hr', rfl⟩ := Option.map_eq_some_iff.mp hr
        have hlast : r'.Halts := ih (ht.good hok) hr'
        exact hlast

/-- No target is good enough. -/
def refusing : Settings Unit where
  data m _ _ u := (u, if m = .url then -1 else 0)
  notify _ _ u := (u, 0)

end HttpParser

end LuaNode
