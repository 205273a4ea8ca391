import LuaNode.Loop.IdleStarts
import Mathlib.Algebra.Order.Field.Basic
import Mathlib.Data.Rat.Floor
import Mathlib.Tactic.Linarith

/-!
# Idle timeouts and the clock

The idle timers under a real clock, in milliseconds, of which `os.time()` shows the whole seconds. A wait
completes when its deadline has passed; one that was cancelled and completes all the same had been queued
before. An assertion that fails in the callback of a list ends it as an error does.
-/

namespace LuaNode

/-- `lua_tointeger` cuts off the fraction. -/
instance (priority := low) fractionalNumber {α : Type*} [Field α] [LinearOrder α]
    [IsStrictOrderedRing α] [FloorRing α] : LuaNumber α where
  toInteger x := if 0 ≤ x then ⌊x⌋ else ⌈x⌉

variable {ι α : Type*} [DecidableEq ι] [Field α] [LinearOrder α] [IsStrictOrderedRing α]
  [FloorRing α]

/-- `os.time() * 1000`. -/
def second (t : α) : α := 1000 * (⌊t / 1000⌋ : ℤ)

/-- A call of `_onTimeout`, with the timeout and the last activity of its item. -/
structure IdleTimeout (ι α : Type*) where
  item : ι
  timeout : Option α
  since : Option α
  time : α
  deriving DecidableEq

inductive ClockEvent (ι α : Type*) [Zero α] [LT α]
  | enroll (i : ι) (msecs : { m : α // 0 < m })
  | active (i : ι)
  /-- a wait completes; only a cancelled one is aborted -/
  | completes (j : ℕ) (aborted : Bool)
  /-- the handler returns -/
  | returns
  | raises (text : Str)

structure IdleClock (ι α : Type*) where
  timers : IdleTimers ι α
  /-- the real time -/
  clock : α
  /-- when the waits of the loop expire -/
  deadlines : List α
  lastActive : ι → Option α
  timeouts : List (IdleTimeout ι α)

namespace ClockEvent

/-- What it is to the idle timers, when `os.time()` shows this second. -/
def idle (now : α) : ClockEvent ι α → IdleEvent ι α
  | .enroll i msecs => .enroll i msecs
  | .active i => .active i now
  | .completes j aborted => .completes j aborted now
  | .returns => .returns
  | .raises text => .raises text

end ClockEvent

namespace IdleClock

variable (s : IdleClock ι α)

def fresh : IdleClock ι α := ⟨.fresh, 0, [], fun _ => none, []⟩

/-- A wait that is not aborted has reached its deadline, and an item is enrolled once. -/
def possible : ClockEvent ι α → Bool
  | .enroll i _ => (s.timers.items i).isNone
  | .completes j false => s.deadlines[j]?.any fun deadline => deadline ≤ s.clock
  | _ => true

/-- The idle timers after an event. -/
def timersAfter (e : ClockEvent ι α) : IdleTimers ι α :=
  let timers := s.timers.step (e.idle (second s.clock))
  match e with
  | .completes _ _ | .returns => timers.afterAssertion
  | _ => timers

/-- The deadlines of the waits that an event leaves, and of those that it adds. -/
def deadlinesAfter (e : ClockEvent ι α) : List α :=
  let left :=
    match e with
    | .completes j aborted =>
      if (s.timers.loop.completes j aborted).waits.length < s.timers.loop.waits.length then
        s.deadlines.eraseIdx j
      else s.deadlines
    | _ => s.deadlines
  let added := (s.timersAfter e).loop.waits.drop left.length
  left ++ added.map fun w => s.clock + (w.after : ℤ)

def activeAfter : ClockEvent ι α → ι → Option α
  | .active i => Function.update s.lastActive i (some s.clock)
  | _ => s.lastActive

/-- The call of `_onTimeout` in an event. -/
def timeoutsAfter (e : ClockEvent ι α) : List (IdleTimeout ι α) :=
  match (s.timers.looping (e.idle (second s.clock))).bind fun p => p.1.called p.2 with
  | some i => s.timeouts ++ [⟨i, s.timers.calls.timeout i, s.lastActive i, s.clock⟩]
  | none => s.timeouts

def happens (e : ClockEvent ι α) : IdleClock ι α where
  timers := s.timersAfter e
  clock := s.clock
  deadlines := s.deadlinesAfter e
  lastActive := s.activeAfter e
  timeouts := s.timeoutsAfter e

def elapse (d : α) : IdleClock ι α := { s with clock := s.clock + d }

/-- Some time passes, and something happens. -/
def step (p : { d : α // 0 ≤ d } × ClockEvent ι α) : IdleClock ι α :=
  let s := s.elapse p.1
  if s.possible p.2 then s.happens p.2 else s

end IdleClock

/-- Not before the full timeout has elapsed since the last activity. -/
def IdleTimeout.InTime (x : IdleTimeout ι α) : Prop :=
  ∃ msecs a, x.timeout = some msecs ∧ x.since = some a ∧ a + msecs ≤ x.time

/-- The whole seconds lose less than one. -/
def IdleTimeout.LessThanSecondEarly (x : IdleTimeout ι α) : Prop :=
  ∃ msecs a, x.timeout = some msecs ∧ x.since = some a ∧ a + msecs < x.time + 1000

/-! ### Seconds -/

theorem second_le (t : α) : second t ≤ t := by
  have hfloor : (⌊t / 1000⌋ : α) ≤ t / 1000 := Int.floor_le _
  have hscale := mul_le_mul_of_nonneg_left hfloor (by norm_num : (0 : α) ≤ 1000)
  rwa [mul_div_cancel₀ t (by norm_num : (1000 : α) ≠ 0)] at hscale

theorem lt_second_add (t : α) : t < second t + 1000 := by
  have hfloor : t / 1000 < (⌊t / 1000⌋ : α) + 1 := Int.lt_floor_add_one _
  have hscale := mul_lt_mul_of_pos_left hfloor (by norm_num : (0 : α) < 1000)
  rw [mul_div_cancel₀ t (by norm_num : (1000 : α) ≠ 0), mul_add, mul_one] at hscale
  exact hscale

namespace IdleClock

variable {s : IdleClock ι α}

/-- The wrappers have the whole seconds of the last activities. -/
def Dated (s : IdleClock ι α) : Prop := s.timers.Dated fun i => (s.lastActive i).map second

/-- No callback comes to an item in the window that the lost fraction of a second opens: the whole second of
its last activity and its timeout have gone by, but not the time of the activity and its timeout. -/
def OutsideWindow (s : IdleClock ι α) (p : { d : α // 0 ≤ d } × ClockEvent ι α) : Prop :=
  let s := s.elapse p.1
  s.possible p.2 = true → ∀ t c w a, s.timers.looping (p.2.idle (second s.clock)) = some (t, c) →
    t.comesTo c = some w → s.lastActive w.item = some a →
    ¬ (second a + c.msecs ≤ c.now ∧ s.clock < a + c.msecs)

omit [DecidableEq ι] in
theorem fresh_dated : (fresh : IdleClock ι α).Dated := IdleTimers.fresh_dated

theorem Dated.happens_enroll (h : s.Dated) (i : ι) (msecs : { m : α // 0 < m }) :
    (s.happens (.enroll i msecs)).timers =
      { s.timers.enroll i msecs with calls := s.timers.calls.enroll i msecs } := by
  simp only [IdleClock.happens, timersAfter, ClockEvent.idle, IdleTimers.step, h.alive,
    Bool.false_eq_true, if_false]

theorem Dated.happens_active (h : s.Dated) (i : ι) : (s.happens (.active i)).timers =
    { s.timers.active i (second s.clock) with calls := s.timers.calls.active i } := by
  simp only [IdleClock.happens, timersAfter, ClockEvent.idle, IdleTimers.step, h.alive,
    Bool.false_eq_true, if_false]

theorem Dated.happens_raises (h : s.Dated) (text : Str) : (s.happens (.raises text)).timers =
    if s.timers.handler.isSome then s.timers.ends (.raises text) else s.timers := by
  simp only [IdleClock.happens, timersAfter, ClockEvent.idle, IdleTimers.step, h.alive,
    Bool.false_eq_true, if_false]

theorem Dated.happens (h : s.Dated) {e : ClockEvent ι α} (hpossible : s.possible e = true) :
    (s.happens e).Dated := by
  have htimers : s.timers.Dated fun i => (s.lastActive i).map second := h
  unfold Dated
  cases e with
  | enroll i msecs =>
    have hi : s.timers.items i = none := Option.isNone_iff_eq_none.mp hpossible
    rw [h.happens_enroll]
    exact htimers.enroll hi msecs.2
  | active i =>
    have hactive : (fun j => ((s.happens (.active i)).lastActive j).map second) =
        Function.update (fun j => (s.lastActive j).map second) i (some (second s.clock)) := by
      funext j
      by_cases hj : j = i
      · subst hj
        simp [IdleClock.happens, activeAfter]
      · simp [IdleClock.happens, activeAfter, hj]
    rw [h.happens_active, hactive]
    exact htimers.active i (second s.clock)
  | completes j aborted => exact htimers.fires (.inl ⟨j, aborted, _, rfl⟩)
  | returns => exact htimers.fires (.inr rfl)
  | raises text =>
    rw [h.happens_raises]
    split_ifs
    · exact htimers.ends _
    · exact htimers

theorem Dated.step (h : s.Dated) (p : { d : α // 0 ≤ d } × ClockEvent ι α) : (s.step p).Dated := by
  have helapse : (s.elapse p.1).Dated := h
  unfold IdleClock.step
  dsimp only
  split_ifs with hpossible
  · exact helapse.happens hpossible
  · exact helapse

/-- What an event adds to the calls: nothing when the item that a callback comes to has been idle for less
than the timeout, by the whole seconds. -/
theorem Dated.timeouts_cases (h : s.Dated) (e : ClockEvent ι α) :
    ((s.happens e).timeouts = s.timeouts ∧
      ∀ t c w a, s.timers.looping (e.idle (second s.clock)) = some (t, c) → t.comesTo c = some w →
        s.lastActive w.item = some a → c.now < second a + c.msecs) ∨
    ∃ t c w a, s.timers.looping (e.idle (second s.clock)) = some (t, c) ∧ t.comesTo c = some w ∧
      s.lastActive w.item = some a ∧ second a + c.msecs ≤ c.now ∧
      (s.happens e).timeouts = s.timeouts ++ [⟨w.item, some c.msecs, some a, s.clock⟩] := by
  cases hloop : s.timers.looping (e.idle (second s.clock)) with
  | none =>
    have hsame : (s.happens e).timeouts = s.timeouts := by
      simp only [IdleClock.happens, timeoutsAfter, hloop, Option.bind_none]
    exact .inl ⟨hsame, nofun⟩
  | some q =>
    obtain ⟨t, c⟩ := q
    obtain ⟨hdated, hlist, hcalls, -⟩ := h.looping hloop
    have hafter : (s.happens e).timeouts = match t.called c with
        | some i => s.timeouts ++ [⟨i, s.timers.calls.timeout i, s.lastActive i, s.clock⟩]
        | none => s.timeouts := by
      simp only [IdleClock.happens, timeoutsAfter, hloop, Option.bind_some]
    cases hcalled : t.called c with
    | none =>
      rw [hcalled] at hafter
      refine .inl ⟨hafter, ?_⟩
      rintro t' c' w a heq hcomes ha
      obtain ⟨rfl, rfl⟩ := Prod.mk.inj (Option.some_inj.mp heq)
      obtain ⟨start, hstart, hwait⟩ := hdated.waits hlist hcomes hcalled
      rw [ha] at hstart
      obtain rfl := Option.some_inj.mp hstart
      exact sub_lt_iff_lt_add'.mp hwait
    | some i =>
      obtain ⟨w, start, hcomes, rfl, hstart, htimeout, hdue⟩ := hdated.called hlist hcalled
      obtain ⟨a, ha, rfl⟩ := Option.map_eq_some_iff.mp hstart
      rw [hcalled] at hafter
      dsimp only at hafter
      rw [← hcalls, htimeout, ha] at hafter
      exact .inr ⟨t, c, w, a, rfl, hcomes, ha, le_sub_iff_add_le'.mp hdue, hafter⟩

/-- Each wait of the loop has its deadline. -/
def Timed (s : IdleClock ι α) : Prop := s.deadlines.length = s.timers.loop.waits.length

theorem Timed.happens (h : s.Timed) (hd : s.Dated) {e : ClockEvent ι α}
    (hpossible : s.possible e = true) : (s.happens e).Timed := by
  have hkept : s.timers.loop.waits.length ≤ (s.timersAfter e).loop.waits.length →
      s.deadlines.length + ((s.timersAfter e).loop.waits.length - s.deadlines.length) =
        (s.timersAfter e).loop.waits.length := by
    intro hle
    rw [h]
    exact Nat.add_sub_cancel' hle
  have htimers : s.timers.Dated fun i => (s.lastActive i).map second := hd
  unfold Timed at h ⊢
  simp only [IdleClock.happens, deadlinesAfter, List.length_append, List.length_map,
    List.length_drop]
  cases e with
  | enroll i msecs =>
    have hi : s.timers.items i = none := Option.isNone_iff_eq_none.mp hpossible
    have hafter : s.timersAfter (.enroll i msecs) = _ := hd.happens_enroll i msecs
    apply hkept
    simp only [hafter, IdleTimers.enroll, hi, Option.bind_none]
    exact le_rfl
  | active i =>
    have hafter : s.timersAfter (.active i) = _ := hd.happens_active i
    apply hkept
    rw [hafter]
    exact (IdleTimers.active_same s.timers i (second s.clock)).2.2
  | completes j aborted =>
    have hle : (s.timers.loop.completes j aborted).waits.length ≤
        (s.timersAfter (.completes j aborted)).loop.waits.length :=
      (htimers.length_completes j aborted (second s.clock)).trans
        (IdleTimers.length_afterAssertion _)
    dsimp only
    rcases s.timers.loop.length_completes j aborted with hsame | ⟨hj, hless⟩
    · rw [if_neg hsame.not_lt]
      exact hkept (hsame ▸ hle)
    · rw [if_pos (by omega), List.length_eraseIdx_of_lt (h ▸ hj)]
      omega
  | returns =>
    exact hkept (htimers.length_returns.trans (IdleTimers.length_afterAssertion _))
  | raises text =>
    have hafter : s.timersAfter (.raises text) = _ := hd.happens_raises text
    apply hkept
    rw [hafter]
    split_ifs
    · exact s.timers.length_ends _
    · exact le_rfl

/-- An item that is called is in time exactly when the callback has not come to it in the window. -/
theorem Dated.timeouts_iff (h : s.Dated) (hin : ∀ x ∈ s.timeouts, x.InTime)
    (p : { d : α // 0 ≤ d } × ClockEvent ι α) :
    (∀ x ∈ (s.step p).timeouts, x.InTime) ↔ s.OutsideWindow p := by
  have helapse : (s.elapse p.1).Dated := h
  have hin : ∀ x ∈ (s.elapse p.1).timeouts, x.InTime := hin
  unfold IdleClock.step OutsideWindow
  dsimp only
  generalize s.elapse p.1 = s at helapse hin ⊢
  by_cases hpossible : s.possible p.2 = true
  · rw [if_pos hpossible]
    simp only [hpossible, true_imp_iff]
    rcases helapse.timeouts_cases p.2 with
      ⟨hsame, hwaits⟩ | ⟨t, c, w, a, hloop, hcomes, ha, hdue, hadded⟩
    · rw [hsame]
      refine iff_of_true hin fun t c w a hloop hcomes ha hwindow => ?_
      exact absurd hwindow.1 (not_le.mpr (hwaits t c w a hloop hcomes ha))
    · rw [hadded]
      constructor
      · rintro hall t' c' w' a' hloop' hcomes' ha' ⟨-, hclock⟩
        obtain ⟨rfl, rfl⟩ := Prod.mk.inj (Option.some_inj.mp (hloop.symm.trans hloop'))
        obtain rfl := Option.some_inj.mp (hcomes.symm.trans hcomes')
        obtain rfl := Option.some_inj.mp (ha.symm.trans ha')
        obtain ⟨msecs, b, hmsecs, hb, hlate⟩ := hall _ List.mem_concat_self
        obtain rfl := Option.some_inj.mp hmsecs
        obtain rfl := Option.some_inj.mp hb
        exact absurd hclock (not_lt.mpr hlate)
      · intro hout x hx
        rcases List.mem_append.mp hx with hx | hx
        · exact hin x hx
        · obtain rfl := List.mem_singleton.mp hx
          refine ⟨c.msecs, a, rfl, rfl, not_lt.mp fun hclock => ?_⟩
          exact hout t c w a hloop hcomes ha ⟨hdue, hclock⟩
  · rw [if_neg hpossible]
    exact iff_of_true hin fun hp => absurd hp hpossible

/-! ### How early it can be -/

/-- A handler runs in a callback that has read the clock before. -/
def Prompt (s : IdleClock ι α) : Prop := ∀ c ∈ s.timers.handler, c.now ≤ s.clock

omit [DecidableEq ι] in
theorem Prompt.now_le (h : s.Prompt) {e : ClockEvent ι α} {t : IdleTimers ι α} {c : IdleCallback α}
    (hloop : s.timers.looping (e.idle (second s.clock)) = some (t, c)) : c.now ≤ s.clock := by
  rcases IdleTimers.looping_now hloop with ⟨j, aborted, he⟩ | hc
  · cases e with
    | completes j aborted =>
      simp only [ClockEvent.idle, IdleEvent.completes.injEq] at he
      rw [← he.2.2]
      exact second_le s.clock
    | _ => cases he
  · exact h c hc

theorem Prompt.happens (h : s.Prompt) (hd : s.Dated) {e : ClockEvent ι α}
    (hpossible : s.possible e = true) : (s.happens e).Prompt := by
  have hfires : ∀ {e : ClockEvent ι α}, (∃ j aborted now, e.idle (second s.clock) =
      .completes j aborted now) ∨ e.idle (second s.clock) = .returns →
      ∀ c ∈ (s.timers.step (e.idle (second s.clock))).afterAssertion.handler, c.now ≤ s.clock := by
    intro e he c hc
    rcases hd.fires_handler he c hc with hc | ⟨t, hloop⟩
    · exact h c hc
    · exact h.now_le hloop
  unfold Prompt at h ⊢
  cases e with
  | enroll i msecs =>
    have hi : s.timers.items i = none := Option.isNone_iff_eq_none.mp hpossible
    have hsame : (s.happens (.enroll i msecs)).timers.handler = s.timers.handler := by
      simp only [hd.happens_enroll, IdleTimers.enroll, hi, Option.bind_none]
      rfl
    rw [hsame]
    exact h
  | active i =>
    rw [hd.happens_active]
    have hsame := (IdleTimers.active_same s.timers i (second s.clock)).2.1
    exact fun c hc => h c (hsame ▸ hc)
  | completes j aborted => exact hfires (.inl ⟨j, aborted, _, rfl⟩)
  | returns => exact hfires (.inr rfl)
  | raises text =>
    rw [hd.happens_raises]
    split_ifs
    · intro c hc
      cases hc
    · exact h

/-- An item that times out does so less than a second too early. -/
structure Measured (s : IdleClock ι α) : Prop where
  dated : s.Dated
  timed : s.Timed
  prompt : s.Prompt
  early : ∀ x ∈ s.timeouts, x.LessThanSecondEarly

omit [DecidableEq ι] in
theorem fresh_measured : (fresh : IdleClock ι α).Measured :=
  ⟨fresh_dated, rfl, nofun, fun _ hx => absurd hx List.not_mem_nil⟩

omit [DecidableEq ι] in
theorem Measured.elapse (h : s.Measured) {d : α} (hd : 0 ≤ d) : (s.elapse d).Measured :=
  ⟨h.dated, h.timed, fun c hc => (h.prompt c hc).trans (le_add_of_nonneg_right hd), h.early⟩

theorem Measured.step (h : s.Measured) (p : { d : α // 0 ≤ d } × ClockEvent ι α) :
    (s.step p).Measured := by
  have helapse := h.elapse p.1.2
  unfold IdleClock.step
  dsimp only
  generalize s.elapse p.1 = s at helapse ⊢
  split_ifs with hpossible
  · refine ⟨helapse.dated.happens hpossible, helapse.timed.happens helapse.dated hpossible,
      helapse.prompt.happens helapse.dated hpossible, ?_⟩
    rcases helapse.dated.timeouts_cases p.2 with
      ⟨hsame, -⟩ | ⟨t, c, w, a, hloop, -, -, hdue, hadded⟩
    · rw [hsame]
      exact helapse.early
    · rw [hadded]
      intro x hx
      rcases List.mem_append.mp hx with hx | hx
      · exact helapse.early x hx
      · obtain rfl := List.mem_singleton.mp hx
        refine ⟨c.msecs, a, rfl, rfl, ?_⟩
        calc a + c.msecs < second a + 1000 + c.msecs := by linarith [lt_second_add a]
          _ = second a + c.msecs + 1000 := by ring
          _ ≤ c.now + 1000 := by linarith
          _ ≤ s.clock + 1000 := by linarith [helapse.prompt.now_le hloop]
  · exact helapse

/-- The lost fraction is less than a second, in every run. -/
theorem run_measured (es : List ({ d : α // 0 ≤ d } × ClockEvent ι α)) :
    (run step (fresh : IdleClock ι α) es).Measured :=
  run_invariant (fun _ e h => h.step e) fresh_measured es

/-- The clock shows a whole second when an item is active. -/
def OnSecond (s : IdleClock ι α) (p : { d : α // 0 ≤ d } × ClockEvent ι α) : Prop :=
  ∀ i, p.2 = .active i → second (s.elapse p.1).clock = (s.elapse p.1).clock

/-- All activity so far fell on whole seconds. -/
structure Exact (s : IdleClock ι α) : Prop extends Measured s where
  whole : ∀ i a, s.lastActive i = some a → second a = a
  inTime : ∀ x ∈ s.timeouts, x.InTime

theorem Exact.outside (h : s.Exact) (p : { d : α // 0 ≤ d } × ClockEvent ι α) : s.OutsideWindow p := by
  intro _ t c w a hloop _ ha hwindow
  have hnow := (h.toMeasured.elapse p.1.2).prompt.now_le hloop
  have hwhole := h.whole _ a ha
  linarith [hwindow.1, hwindow.2]

theorem Exact.step (h : s.Exact) {p : { d : α // 0 ≤ d } × ClockEvent ι α} (hp : s.OnSecond p) :
    (s.step p).Exact := by
  refine ⟨h.toMeasured.step p, ?_, (h.dated.timeouts_iff h.inTime p).mpr (h.outside p)⟩
  have hold : ∀ i a, (s.elapse p.1).lastActive i = some a → second a = a := h.whole
  unfold IdleClock.step
  dsimp only
  unfold OnSecond at hp
  generalize s.elapse p.1 = s at hold hp ⊢
  split_ifs
  · intro j a ha
    cases he : p.2 with
    | active i =>
      have hactive : Function.update s.lastActive i (some s.clock) j = some a := by
        rw [← ha, he]
        rfl
      by_cases hj : j = i
      · rw [hj, Function.update_self] at hactive
        obtain rfl := Option.some_inj.mp hactive
        exact hp i he
      · rw [Function.update_of_ne hj] at hactive
        exact hold j a hactive
    | _ =>
      rw [he] at ha
      exact hold j a ha
  · exact hold

omit [DecidableEq ι] in
theorem fresh_exact : (fresh : IdleClock ι α).Exact :=
  ⟨fresh_measured, nofun, fun _ hx => absurd hx List.not_mem_nil⟩

/-- Where all activity falls on whole seconds, no item times out early. -/
theorem onSecond_in_time {es : List ({ d : α // 0 ≤ d } × ClockEvent ι α)}
    (hes : Guarded step OnSecond (fresh : IdleClock ι α) es) :
    ∀ t ∈ statesOf step (fresh : IdleClock ι α) es, t.Exact := fun _ ht =>
  guarded_states_invariant (I := Exact) (G := OnSecond) (fun _ _ h hp => h.step hp) fresh_exact hes ht

/-- Nor does a callback come to an item in the window. -/
theorem onSecond_outside {es : List ({ d : α // 0 ≤ d } × ClockEvent ι α)}
    (hes : Guarded step OnSecond (fresh : IdleClock ι α) es) :
    Guarded step OutsideWindow (fresh : IdleClock ι α) es :=
  guarded_imp (I := Exact) (fun _ _ h hp => h.step hp) (fun _ e h _ => h.outside e) fresh_exact hes

/-! ### In time -/

end IdleClock

end LuaNode
