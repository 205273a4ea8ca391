import LuaNode.Loop.Interval

/-!
# Timers that do not repeat

Each Timer has a callback, and waits only when it is told to.
-/

namespace LuaNode.TimerLoop

variable {s : TimerLoop} {n : ℕ}

structure OneShot (s : TimerLoop) : Prop where
  own : s.Own
  timers : ∀ n < s.created, (s.timers n).callback = true ∧ (s.timers n).repeats = false
  waits : ∀ w ∈ s.waits, w.owner < s.created
  running : ∀ f ∈ s.running, f.1 < s.created

/-- The Timer has a wait that was not cancelled. -/
def Live (s : TimerLoop) (n : ℕ) : Prop := ∃ w ∈ s.waits, w.owner = n ∧ w.cancelled = false

theorem Live.armed (h : s.Live n) : s.Armed n := Or.inl h

theorem fresh_oneShot : fresh.OneShot where
  own := fresh_own
  timers _ h := absurd h (Nat.not_lt_zero _)
  waits _ h := absurd h List.not_mem_nil
  running := nofun

theorem setTimer_timers (s : TimerLoop) (n : ℕ) (t : NativeTimer) (m : ℕ) :
    (s.setTimer n t).timers m = if m = n then t else s.timers m :=
  Function.update_apply ..

theorem OneShot.setTimer (h : s.OneShot) {t : NativeTimer} (ht : t.callback = true ∧ t.repeats = false) :
    (s.setTimer n t).OneShot := by
  refine ⟨h.own.setTimer n t, fun m hm => ?_, h.waits, h.running⟩
  rw [setTimer_timers]
  split_ifs
  · exact ht
  · exact h.timers m hm

theorem OneShot.cancel (h : s.OneShot) (n : ℕ) : (s.cancel n).OneShot := by
  refine ⟨h.own.cancel n, h.timers, fun w hw => ?_, h.running⟩
  obtain ⟨v, hv, rfl⟩ := List.mem_map.mp hw
  have howner := h.waits v hv
  split_ifs
  · exact howner
  · exact howner

theorem OneShot.asyncWait (h : s.OneShot) (hn : n < s.created) :
    (s.asyncWait n (.timer n)).OneShot := by
  refine ⟨(asyncWait_own_iff h.own n _).mpr rfl, h.timers, fun w hw => ?_, h.running⟩
  rcases List.mem_append.mp hw with hw | hw
  · exact h.waits w hw
  · rw [List.mem_singleton.mp hw]
    exact hn

theorem OneShot.stop (h : s.OneShot) (n : ℕ) : (s.stop n).OneShot := by
  unfold TimerLoop.stop
  split_ifs
  · exact h.cancel n
  · exact h

theorem stop_running (s : TimerLoop) (n : ℕ) : (s.stop n).running = s.running := by
  unfold stop
  split_ifs <;> rfl

theorem stop_created (s : TimerLoop) (n : ℕ) : (s.stop n).created = s.created := by
  unfold stop
  split_ifs <;> rfl

theorem start_created (s : TimerLoop) (n : ℕ) (after repeat_ : Option ℤ) :
    (s.start n after repeat_).created = s.created := by
  unfold start
  cases after with
  | none => rfl
  | some after =>
    cases repeat_ with
    | none => rfl
    | some repeat_ =>
      dsimp only
      split_ifs <;> rfl

theorem again_created (s : TimerLoop) (n : ℕ) (args : List (Option ℤ)) :
    (s.again n args).created = s.created := by
  unfold again
  split_ifs
  · cases args[0]?.join <;> rfl
  · cases args[0]?.join <;> rfl
  · exact start_created ..

theorem completes_created (s : TimerLoop) (j : ℕ) (aborted : Bool) :
    (s.completes j aborted).created = s.created := by
  unfold completes
  split
  · split_ifs
    · rfl
    · unfold onTimeout
      split_ifs
      · rfl
      · split <;> rfl
  · rfl

theorem ends_created (s : TimerLoop) (outcome : TimerOutcome) :
    (s.ends outcome).created = s.created := by
  unfold ends
  split
  · rfl
  · unfold afterCallback
    dsimp only
    split_ifs <;> rfl

theorem length_cancel (s : TimerLoop) (n : ℕ) : (s.cancel n).waits.length = s.waits.length := by
  simp [cancel]

theorem length_stop (s : TimerLoop) (n : ℕ) : (s.stop n).waits.length = s.waits.length := by
  unfold stop
  split_ifs
  · exact s.length_cancel n
  · rfl

/-- A wait that is started stands behind the others. -/
theorem length_asyncWait (s : TimerLoop) (n : ℕ) (reference : TimerValue) :
    s.waits.length ≤ (s.asyncWait n reference).waits.length := by
  simp [asyncWait]

theorem length_expiresFromNow (s : TimerLoop) (n : ℕ) (reference : TimerValue) :
    s.waits.length ≤ (s.expiresFromNow n reference).waits.length := by
  have hwait := (s.cancel n).length_asyncWait n reference
  rwa [length_cancel] at hwait

theorem length_start (s : TimerLoop) (n : ℕ) (after repeat_ : Option ℤ) :
    s.waits.length ≤ (s.start n after repeat_).waits.length := by
  have hwait : ∀ t : TimerLoop, t.waits = s.waits →
      s.waits.length ≤ (t.asyncWait n (.timer n)).waits.length := by
    intro t ht
    rw [← ht]
    exact t.length_asyncWait n _
  unfold start
  cases after with
  | none => exact le_rfl
  | some after =>
    cases repeat_ with
    | none => exact le_rfl
    | some repeat_ =>
      dsimp only
      split_ifs
      · exact le_rfl
      · exact hwait _ rfl
      · exact le_rfl
      · exact hwait _ rfl

theorem length_again (s : TimerLoop) (n : ℕ) (args : List (Option ℤ)) :
    s.waits.length ≤ (s.again n args).waits.length := by
  have hexpires : ∀ t : TimerLoop, t.waits.length = s.waits.length →
      s.waits.length ≤ (t.expiresFromNow n (.timer n)).waits.length := by
    intro t ht
    rw [← ht]
    exact t.length_expiresFromNow n _
  unfold again
  split_ifs
  · cases args[0]?.join <;> exact hexpires _ rfl
  · cases args[0]?.join <;> exact hexpires _ (length_cancel s n)
  · exact length_start ..

theorem length_ends (s : TimerLoop) (outcome : TimerOutcome) :
    s.waits.length ≤ (s.ends outcome).waits.length := by
  unfold ends
  split
  · exact le_rfl
  · unfold afterCallback
    dsimp only
    split_ifs
    · exact length_expiresFromNow ..
    · exact le_rfl

/-- The wait that completes is taken out, and nothing else. -/
theorem length_completes (s : TimerLoop) (j : ℕ) (aborted : Bool) :
    (s.completes j aborted).waits.length = s.waits.length ∨
      j < s.waits.length ∧ (s.completes j aborted).waits.length + 1 = s.waits.length := by
  have htimeout : ∀ (t : TimerLoop) (w : Wait),
      (t.onTimeout w aborted).waits.length = t.waits.length := by
    intro t w
    unfold onTimeout
    split_ifs
    · rfl
    · split
      · rfl
      · exact length_cancel ..
      · rfl
  unfold completes
  split
  next w _ hw =>
    have hj : j < s.waits.length := (List.getElem?_eq_some_iff.mp hw).1
    split_ifs
    · exact .inl rfl
    · right
      rw [htimeout, List.length_eraseIdx_of_lt hj]
      exact ⟨hj, Nat.sub_add_cancel (Nat.one_le_of_lt hj)⟩
  next => exact .inl rfl

/-- `Timer()`, with a callback. -/
theorem OneShot.make (h : s.OneShot) : (s.make.setCallback s.created true).OneShot := by
  refine ⟨h.own.make.setTimer _ _, fun m hm => ?_, fun w hw => ?_, fun f hf => ?_⟩
  · rw [setCallback, setTimer_timers]
    split_ifs with heq
    · simp [TimerLoop.make, setTimer_timers]
    · have hlt : m < s.created := by
        have hle : m < s.created + 1 := hm
        omega
      rw [TimerLoop.make, setTimer_timers, if_neg heq]
      exact h.timers m hlt
  · exact (h.waits w hw).trans (Nat.lt_succ_self _)
  · exact (h.running f hf).trans (Nat.lt_succ_self _)

/-- What `again` does to a Timer that does not repeat. -/
theorem OneShot.again_cases (h : s.OneShot) (hn : n < s.created) (after : ℤ) :
    ∃ t : NativeTimer, (t.callback = true ∧ t.repeats = false) ∧
      (s.again n [some after] = (((s.cancel n).setTimer n t).cancel n).asyncWait n (.timer n) ∨
        s.again n [some after] = (s.setTimer n t).asyncWait n (.timer n)) := by
  obtain ⟨hcallback, hrepeats⟩ := h.timers n hn
  by_cases hstarted : (s.timers n).started = true
  · refine ⟨{ s.timers n with after }, ⟨hcallback, hrepeats⟩, Or.inl ?_⟩
    simp [again, hstarted, hrepeats, expiresFromNow, TimerLoop.cancel]
  · refine ⟨{ s.timers n with after, started := true }, ⟨hcallback, hrepeats⟩, Or.inr ?_⟩
    simp [again, hstarted, TimerLoop.start, TimerLoop.setTimer]

theorem OneShot.again (h : s.OneShot) (hn : n < s.created) (after : ℤ) :
    (s.again n [some after]).OneShot := by
  obtain ⟨t, ht, heq | heq⟩ := h.again_cases hn after
  · rw [heq]
    exact (((h.cancel n).setTimer ht).cancel n).asyncWait hn
  · rw [heq]
    exact (h.setTimer ht).asyncWait hn

theorem OneShot.again_live (h : s.OneShot) (hn : n < s.created) (after : ℤ) :
    (s.again n [some after]).Live n := by
  obtain ⟨t, -, heq | heq⟩ := h.again_cases hn after
  · rw [heq]
    exact ⟨_, List.mem_append_right _ (List.mem_singleton_self _), rfl, rfl⟩
  · rw [heq]
    exact ⟨_, List.mem_append_right _ (List.mem_singleton_self _), rfl, rfl⟩

theorem OneShot.again_running (h : s.OneShot) (hn : n < s.created) (after : ℤ) :
    (s.again n [some after]).running = s.running := by
  obtain ⟨t, -, heq | heq⟩ := h.again_cases hn after <;> rw [heq] <;> rfl

/-- `OnTimeout` ends with its callback. -/
theorem OneShot.ends_eq (h : s.OneShot) (outcome : TimerOutcome) :
    s.ends outcome = { s with running := none } := by
  unfold TimerLoop.ends
  split
  · rename_i hnone
    rw [← hnone]
  · rename_i f hf
    simp [afterCallback, (h.timers f.1 (h.running f hf)).2]

theorem OneShot.idle (h : s.OneShot) : ({ s with running := none } : TimerLoop).OneShot :=
  ⟨⟨h.own.alive, h.own.waits, nofun, h.own.called⟩, h.timers, h.waits, nofun⟩

theorem OneShot.completes (h : s.OneShot) (j : ℕ) (aborted : Bool) :
    (s.completes j aborted).OneShot ∧ (s.completes j aborted).created = s.created := by
  have hown := h.own.completes j aborted
  unfold TimerLoop.completes at hown ⊢
  split at hown
  · rename_i w hidle hw
    have hmem := List.mem_of_getElem? hw
    have herased : ∀ v ∈ s.waits.eraseIdx j, v.owner < s.created := fun v hv =>
      h.waits v (List.mem_of_mem_eraseIdx hv)
    have hrest : ({ s with waits := s.waits.eraseIdx j } : TimerLoop).OneShot :=
      ⟨⟨h.own.alive, fun v hv => h.own.waits v (List.mem_of_mem_eraseIdx hv), h.own.running,
        h.own.called⟩, h.timers, herased, h.running⟩
    split_ifs at hown ⊢
    · exact ⟨h, rfl⟩
    · unfold onTimeout at hown ⊢
      split_ifs at hown ⊢
      · exact ⟨hrest, rfl⟩
      · rw [h.own.waits w hmem] at hown ⊢
        simp only [callbackOf, (h.timers w.owner (h.waits w hmem)).1] at hown ⊢
        refine ⟨⟨hown, h.timers, herased, fun f hf => ?_⟩, trivial⟩
        obtain rfl := Option.some_inj.mp hf
        exact h.waits w hmem
  · exact ⟨h, rfl⟩

end LuaNode.TimerLoop
