import LuaNode.Loop.Timer

/-!
# The identity of a repeating timer

`OnTimeout` takes the reference for the next wait from the top of the stack, on which the callback has
left what it returned, or its error.
-/

namespace LuaNode

/-- The Timer is stopped, or cleared. -/
def TimerEvent.stops (n : ℕ) : TimerEvent → Bool
  | .stop m | .clearTimeout m | .clearInterval m => decide (m = n)
  | _ => false

namespace TimerLoop

variable {s : TimerLoop}

/-- What is referred to, and what is called, is the Timer itself. -/
structure Own (s : TimerLoop) : Prop where
  alive : s.panicked = false
  waits : ∀ w ∈ s.waits, w.reference = .timer w.owner
  running : ∀ f ∈ s.running, f.2 = .timer f.1
  called : ∀ f ∈ s.called, f.2 = .timer f.1

/-- The callback of a repeating Timer returns no values, or the Timer as the last one; it raises no
error. -/
def Leaves (s : TimerLoop) : TimerEvent → Prop
  | .ends (.returns values) => ∀ f ∈ s.running, (s.timers f.1).repeats = true →
      ∀ v ∈ values.getLast?, v = .timer f.1
  | .ends (.raises _) => ∀ f ∈ s.running, (s.timers f.1).repeats = false
  | _ => True

theorem fresh_own : fresh.Own :=
  ⟨rfl, fun _ h => absurd h List.not_mem_nil, nofun, fun _ h => absurd h List.not_mem_nil⟩

theorem Own.setTimer (h : s.Own) (n : ℕ) (t : NativeTimer) : (s.setTimer n t).Own :=
  ⟨h.alive, h.waits, h.running, h.called⟩

theorem Own.cancel (h : s.Own) (n : ℕ) : (s.cancel n).Own := by
  refine ⟨h.alive, fun w hw => ?_, h.running, h.called⟩
  obtain ⟨v, hv, rfl⟩ := List.mem_map.mp hw
  have hreference := h.waits v hv
  split_ifs
  · exact hreference
  · exact hreference

theorem asyncWait_own_iff (h : s.Own) (n : ℕ) (reference : TimerValue) :
    (s.asyncWait n reference).Own ↔ reference = .timer n := by
  constructor
  · intro hown
    exact hown.waits _ (List.mem_append_right _ (List.mem_singleton_self _))
  · rintro rfl
    refine ⟨h.alive, fun w hw => ?_, h.running, h.called⟩
    rcases List.mem_append.mp hw with hw | hw
    · exact h.waits w hw
    · rw [List.mem_singleton.mp hw]

theorem Own.start (h : s.Own) (n : ℕ) (after repeat_ : Option ℤ) : (s.start n after repeat_).Own := by
  unfold TimerLoop.start
  cases after with
  | none => exact h
  | some after =>
    cases repeat_ with
    | none => exact h.setTimer _ _
    | some repeat_ =>
      dsimp only
      split_ifs
      · exact (h.setTimer _ _).setTimer _ _
      · exact (asyncWait_own_iff (((h.setTimer _ _).setTimer _ _).setTimer _ _) _ _).mpr rfl
      · exact h.setTimer _ _
      · exact (asyncWait_own_iff ((h.setTimer _ _).setTimer _ _) _ _).mpr rfl

theorem Own.stop (h : s.Own) (n : ℕ) : (s.stop n).Own := by
  unfold TimerLoop.stop
  split_ifs
  · exact h.cancel n
  · exact h

theorem Own.again (h : s.Own) (n : ℕ) (args : List (Option ℤ)) : (s.again n args).Own := by
  unfold TimerLoop.again
  split_ifs with hstarted hrepeats
  · split
    · exact (asyncWait_own_iff ((h.setTimer _ _).cancel n) _ _).mpr rfl
    · exact (asyncWait_own_iff (h.cancel n) _ _).mpr rfl
  · split
    · exact (asyncWait_own_iff (((h.cancel n).setTimer _ _).cancel n) _ _).mpr rfl
    · exact (asyncWait_own_iff ((h.cancel n).cancel n) _ _).mpr rfl
  · exact h.start _ _ _

theorem Own.make (h : s.Own) : s.make.Own :=
  ⟨h.alive, h.waits, h.running, h.called⟩

theorem Own.clear (h : s.Own) (n : ℕ) : (s.clear n).Own :=
  (h.setTimer _ _).stop n

theorem Own.onTimer (h : s.Own) (n : ℕ) {t : TimerLoop} (ht : t.Own) : (s.onTimer n t).Own := by
  unfold TimerLoop.onTimer
  split_ifs
  · exact ht
  · exact h

/-- A Timer that fires looks for the callback in itself. -/
theorem Own.completes (h : s.Own) (i : ℕ) (aborted : Bool) : (s.completes i aborted).Own := by
  unfold TimerLoop.completes
  split
  · rename_i w hidle hw
    have hmem : w ∈ s.waits := List.mem_of_getElem? hw
    have herased : ({ s with waits := s.waits.eraseIdx i } : TimerLoop).Own :=
      ⟨h.alive, fun v hv => h.waits v (List.mem_of_mem_eraseIdx hv), h.running, h.called⟩
    split_ifs
    · exact h
    · unfold onTimeout
      split_ifs
      · exact herased
      · split
        · refine ⟨h.alive, herased.waits, fun f hf => ?_, fun f hf => ?_⟩
          · obtain rfl := Option.some_inj.mp hf
            exact h.waits w hmem
          · rcases List.mem_append.mp hf with hf | hf
            · exact h.called f hf
            · rw [List.mem_singleton.mp hf]
              exact h.waits w hmem
        · exact herased.cancel _
        · rename_i hnone
          rw [h.waits w hmem] at hnone
          exact absurd hnone nofun
  · exact h

/-- The wait that `OnTimeout` begins is one of its Timer exactly if that is what the callback has left
on the top. -/
theorem ends_own_iff (h : s.Own) (outcome : TimerOutcome) :
    (s.ends outcome).Own ↔ s.Leaves (.ends outcome) := by
  unfold TimerLoop.ends
  cases hrunning : s.running with
  | none => cases outcome <;> simp [Leaves, hrunning, h]
  | some f =>
    have hself := h.running f hrunning
    have hidle : ({ s with running := none } : TimerLoop).Own := ⟨h.alive, h.waits, nofun, h.called⟩
    unfold afterCallback
    dsimp only
    split_ifs with hrepeats
    · rw [expiresFromNow, asyncWait_own_iff (hidle.cancel f.1)]
      cases outcome with
      | returns values =>
        rcases values.eq_nil_or_concat with rfl | ⟨rest, v, rfl⟩
        · simp [TimerOutcome.stack, Leaves, hself]
        · simp [TimerOutcome.stack, Leaves, hrunning, hrepeats]
      | raises text => simp [TimerOutcome.stack, Leaves, hrunning, hrepeats]
    · cases outcome <;> simp [Leaves, hrunning, hrepeats, hidle]

theorem step_own_iff (h : s.Own) (e : TimerEvent) :
    (s.step e).Own ↔ s.Leaves e := by
  unfold TimerLoop.step
  rw [if_neg (by simp [h.alive])]
  cases e with
  | make => exact iff_of_true h.make trivial
  | setCallback n isFunction => exact iff_of_true (h.onTimer n (h.setTimer _ _)) trivial
  | start n after repeat_ => exact iff_of_true (h.onTimer n (h.start _ _ _)) trivial
  | stop n => exact iff_of_true (h.onTimer n (h.stop n)) trivial
  | again n args => exact iff_of_true (h.onTimer n (h.again _ _)) trivial
  | setTimeout isFunction after =>
    exact iff_of_true ((h.make.setTimer _ _).start _ _ _) trivial
  | setInterval isFunction repeat_ =>
    exact iff_of_true ((h.make.setTimer _ _).start _ _ _) trivial
  | clearTimeout n => exact iff_of_true (h.onTimer n (h.clear n)) trivial
  | clearInterval n => exact iff_of_true (h.onTimer n (h.clear n)) trivial
  | completes i aborted => exact iff_of_true (h.completes i aborted) trivial
  | ends outcome => exact ends_own_iff h outcome

/-! ### An interval goes on -/

/-- The Timer has a wait that was not cancelled, or is about to begin one. -/
def Armed (s : TimerLoop) (n : ℕ) : Prop :=
  (∃ w ∈ s.waits, w.owner = n ∧ w.cancelled = false) ∨ ∃ f ∈ s.running, f.1 = n

/-- A repeating Timer with a callback that is armed, and is not stopped, stays armed. -/
def Persists (s : TimerLoop) (e : TimerEvent) : Prop :=
  ∀ n, (s.timers n).repeats = true → (s.timers n).callback = true → s.Armed n →
    e.stops n = false → (s.step e).Armed n

theorem Armed.setTimer {n : ℕ} (h : s.Armed n) (m : ℕ) (t : NativeTimer) :
    (s.setTimer m t).Armed n :=
  h

theorem Armed.cancel {n m : ℕ} (h : s.Armed n) (hne : m ≠ n) : (s.cancel m).Armed n := by
  rcases h with ⟨w, hw, hn, hlive⟩ | hrunning
  · left
    refine ⟨w, List.mem_map.mpr ⟨w, hw, ?_⟩, hn, hlive⟩
    rw [if_neg (by rw [hn]; exact hne.symm)]
  · exact Or.inr hrunning

theorem Armed.asyncWait {n : ℕ} (h : s.Armed n) (m : ℕ) (reference : TimerValue) :
    (s.asyncWait m reference).Armed n := by
  rcases h with ⟨w, hw, hlive⟩ | hrunning
  · exact Or.inl ⟨w, List.mem_append_left _ hw, hlive⟩
  · exact Or.inr hrunning

theorem asyncWait_armed (s : TimerLoop) (n : ℕ) (reference : TimerValue) :
    (s.asyncWait n reference).Armed n :=
  Or.inl ⟨_, List.mem_append_right _ (List.mem_singleton_self _), rfl, rfl⟩

/-- What is armed again is armed, and other Timers are not disturbed. -/
theorem expiresFromNow_armed {n m : ℕ} (h : m ≠ n → s.Armed n) (reference : TimerValue) :
    (s.expiresFromNow m reference).Armed n := by
  by_cases hm : m = n
  · subst hm
    exact asyncWait_armed _ _ _
  · exact ((h hm).cancel hm).asyncWait _ _

theorem Armed.start {n : ℕ} (h : s.Armed n) (m : ℕ) (after repeat_ : Option ℤ) :
    (s.start m after repeat_).Armed n := by
  unfold TimerLoop.start
  cases after with
  | none => exact h
  | some after =>
    cases repeat_ with
    | none => exact h
    | some repeat_ =>
      dsimp only
      split_ifs
      · exact h
      · exact Armed.asyncWait (s := (((s.setTimer _ _).setTimer _ _).setTimer _ _)) h _ _
      · exact h
      · exact Armed.asyncWait (s := ((s.setTimer _ _).setTimer _ _)) h _ _

theorem Armed.stop {n m : ℕ} (h : s.Armed n) (hne : m ≠ n) : (s.stop m).Armed n := by
  unfold TimerLoop.stop
  split_ifs
  · exact h.cancel hne
  · exact h

theorem Armed.again {n : ℕ} (h : s.Armed n) (m : ℕ) (args : List (Option ℤ)) :
    (s.again m args).Armed n := by
  unfold TimerLoop.again
  split_ifs with hstarted hrepeats
  · apply expiresFromNow_armed
    intro _
    split <;> exact h
  · apply expiresFromNow_armed
    intro hne
    split <;> exact h.cancel hne
  · exact h.start _ _ _

theorem Armed.onTimer {n : ℕ} (h : s.Armed n) (m : ℕ) {t : TimerLoop} (ht : t.Armed n) :
    (s.onTimer m t).Armed n := by
  unfold TimerLoop.onTimer
  split_ifs
  · exact ht
  · exact h

/-- When a wait of the Timer completes its callback is called. -/
theorem Armed.completes (hs : s.Own) {n : ℕ} (hcallback : (s.timers n).callback = true)
    (h : s.Armed n) (i : ℕ) (aborted : Bool) : (s.completes i aborted).Armed n := by
  unfold TimerLoop.completes
  split
  · rename_i w hidle hw
    have hmem : w ∈ s.waits := List.mem_of_getElem? hw
    have hothers : (w.owner = n → w.cancelled = true) →
        ({ s with waits := s.waits.eraseIdx i } : TimerLoop).Armed n := by
      intro hcancelled
      rcases h with ⟨v, hv, hn, hlive⟩ | ⟨f, hf, -⟩
      · left
        refine ⟨v, List.mem_eraseIdx_iff_getElem?.mpr ?_, hn, hlive⟩
        obtain ⟨j, hj⟩ := List.mem_iff_getElem?.mp hv
        refine ⟨j, ?_, hj⟩
        rintro rfl
        obtain rfl := Option.some_inj.mp (hw.symm.trans hj)
        exact absurd ((hcancelled hn).symm.trans hlive) nofun
      · rw [hidle] at hf
        exact absurd hf nofun
    split_ifs with hwait
    · exact h
    · have hreference := hs.waits w hmem
      unfold onTimeout
      split_ifs with haborted
      · apply hothers
        intro _
        by_contra hlive
        exact hwait ⟨haborted, by simpa using hlive⟩
      · rw [hreference]
        unfold callbackOf
        by_cases howner : w.owner = n
        · rw [howner]
          dsimp only
          rw [hcallback]
          exact Or.inr ⟨_, rfl, rfl⟩
        · have hrest := hothers fun hn => absurd hn howner
          dsimp only
          cases (s.timers w.owner).callback with
          | true =>
            rcases hrest with hwaits | ⟨f, hf, -⟩
            · exact Or.inl hwaits
            · exact absurd (hidle.symm.trans hf) nofun
          | false => exact hrest.cancel howner
  · exact h

/-- After its callback a repeating Timer begins a wait. -/
theorem Armed.ends {n : ℕ} (hrepeats : (s.timers n).repeats = true) (h : s.Armed n)
    (outcome : TimerOutcome) : (s.ends outcome).Armed n := by
  unfold TimerLoop.ends
  split
  · exact h
  · rename_i f hf
    have hidle : f.1 ≠ n → ({ s with running := none } : TimerLoop).Armed n := by
      intro hne
      rcases h with hwaits | ⟨g, hg, hn⟩
      · exact Or.inl hwaits
      · obtain rfl := Option.some_inj.mp (hf.symm.trans hg)
        exact absurd hn hne
    unfold afterCallback
    dsimp only
    split_ifs with hagain
    · exact expiresFromNow_armed hidle _
    · apply hidle
      rintro rfl
      exact hagain hrepeats

theorem Own.persists (h : s.Own) (e : TimerEvent) : s.Persists e := by
  intro n hrepeats hcallback harmed hstops
  unfold TimerLoop.step
  rw [if_neg (by simp [h.alive])]
  cases e with
  | make => exact harmed
  | setCallback m isFunction => exact harmed.onTimer m harmed
  | start m after repeat_ => exact harmed.onTimer m (harmed.start _ _ _)
  | stop m => exact harmed.onTimer m (harmed.stop (of_decide_eq_false hstops))
  | again m args => exact harmed.onTimer m (harmed.again _ _)
  | setTimeout isFunction after =>
    exact Armed.start (s := s.make.setCallback s.created isFunction) harmed _ _ _
  | setInterval isFunction repeat_ =>
    exact Armed.start (s := s.make.setCallback s.created isFunction) harmed _ _ _
  | clearTimeout m | clearInterval m =>
    apply harmed.onTimer m
    exact Armed.stop (s := s.setCallback m false) harmed (of_decide_eq_false hstops)
  | completes i aborted => exact harmed.completes h hcallback i aborted
  | ends outcome => exact harmed.ends hrepeats outcome

end TimerLoop

end LuaNode
