import LuaNode.Loop.Interval
import Mathlib.Data.List.Perm.Basic

/-!
# Timers that are cleared

A cancelled wait may still complete, so that the silence of a cleared timer rests on its field
`callback`. The callbacks return nothing and raise no errors, and `again` is not called.
-/

namespace LuaNode

def TimerValue.is (n : ℕ) : TimerValue → Bool
  | .timer m => decide (m = n)
  | .other _ => false

/-- The functions of `timers.lua`, waits that complete, and callbacks that return nothing. -/
def TimerEvent.isManaged : TimerEvent → Bool
  | .setTimeout .. | .clearTimeout _ | .setInterval .. | .clearInterval _ | .completes .. => true
  | .ends (.returns []) => true
  | _ => false

namespace TimerLoop

variable {s : TimerLoop}

/-- The waits that may call the callback of a Timer. -/
def waitsOf (s : TimerLoop) (n : ℕ) : ℕ := s.waits.countP fun w => w.reference.is n

/-- The calls of the callback of a Timer. -/
def callsOf (s : TimerLoop) (n : ℕ) : ℕ := s.called.countP fun f => f.2.is n

/-- A Timer has one wait at most, none while its callback runs, and none after the call of a callback
that is not repeated. -/
structure Tame (s : TimerLoop) : Prop extends Own s where
  waiting : ∀ n, s.waitsOf n ≤ 1
  busy : ∀ f ∈ s.running, f.1 < s.created ∧ s.waitsOf f.1 = 0
  once : ∀ n, (s.timers n).repeats = false → s.callsOf n + s.waitsOf n ≤ 1
  unmade : ∀ n, s.created ≤ n → s.waitsOf n = 0 ∧ s.callsOf n = 0

theorem fresh_tame : fresh.Tame :=
  ⟨fresh_own, fun _ => Nat.zero_le 1, nofun, fun _ _ => Nat.zero_le 1, fun _ _ => ⟨rfl, rfl⟩⟩

/-- A Timer that exists is as before, except that its callback may be gone, and is not called without
one. -/
structure Quieter (s t : TimerLoop) : Prop where
  created : s.created ≤ t.created
  repeats : ∀ n < s.created, (t.timers n).repeats = (s.timers n).repeats
  callback : ∀ n < s.created, (s.timers n).callback = false → (t.timers n).callback = false
  silent : ∀ n < s.created, (s.timers n).callback = false → t.callsOf n = s.callsOf n

theorem Quieter.refl (s : TimerLoop) : Quieter s s :=
  ⟨Nat.le_refl _, fun _ _ => rfl, fun _ _ => id, fun _ _ _ => rfl⟩

/-- A new Timer, and its wait. -/
theorem begin_cases (s : TimerLoop) (isFunction : Bool) (after : Option ℤ) (repeat_ : ℤ) :
    ∃ t : NativeTimer, t.repeats = decide (after.isSome = true ∧ repeat_ ≠ 0) ∧
      (s.make.setCallback s.created isFunction).start s.created after (some repeat_) =
        { s with
          created := s.created + 1
          timers := Function.update s.timers s.created t
          waits := s.waits ++
            (after.map fun after => ⟨s.created, .timer s.created, after, false⟩).toList } := by
  cases after with
  | none =>
    refine ⟨⟨isFunction, 0, false, false⟩, by simp, ?_⟩
    simp [TimerLoop.start, make, setCallback, setTimer]
  | some after =>
    by_cases hrepeat : repeat_ = 0
    · refine ⟨⟨isFunction, after, false, true⟩, by simp [hrepeat], ?_⟩
      simp [TimerLoop.start, make, setCallback, setTimer, hrepeat, asyncWait]
    · refine ⟨⟨isFunction, after, true, true⟩, by simp [hrepeat], ?_⟩
      simp [TimerLoop.start, make, setCallback, setTimer, hrepeat, asyncWait]

/-- The state after a Timer was made. -/
def begun (s : TimerLoop) (t : NativeTimer) (after : Option ℤ) : TimerLoop :=
  { s with
    created := s.created + 1
    timers := Function.update s.timers s.created t
    waits := s.waits ++
      (after.map fun after => ⟨s.created, .timer s.created, after, false⟩).toList }

theorem begun_timers (s : TimerLoop) (t : NativeTimer) (after : Option ℤ) {n : ℕ}
    (hn : n ≠ s.created) : (s.begun t after).timers n = s.timers n := by
  unfold TimerLoop.begun
  exact Function.update_of_ne hn t s.timers

theorem begun_waitsOf (s : TimerLoop) (t : NativeTimer) (after : Option ℤ) (n : ℕ) :
    (s.begun t after).waitsOf n =
      s.waitsOf n + if n = s.created ∧ after.isSome = true then 1 else 0 := by
  unfold waitsOf begun
  rw [List.countP_append]
  cases after with
  | none => simp
  | some after => simp [TimerValue.is, List.countP_cons, eq_comm]

theorem Tame.begun (h : s.Tame) (t : NativeTimer) (after : Option ℤ) : (s.begun t after).Tame where
  alive := h.alive
  waits w hw := by
    rcases List.mem_append.mp hw with hw | hw
    · exact h.waits w hw
    · cases after with
      | none => exact absurd hw List.not_mem_nil
      | some after => rw [List.mem_singleton.mp hw]
  running := h.running
  called := h.called
  waiting n := by
    have hn := h.waiting n
    have hnew := h.unmade s.created le_rfl
    rw [begun_waitsOf]
    split_ifs with hcreated
    · rw [hcreated.1]
      omega
    · exact hn
  busy f hf := by
    obtain ⟨hmade, hidle⟩ := h.busy f hf
    have hne : f.1 ≠ s.created := Nat.ne_of_lt hmade
    rw [begun_waitsOf, if_neg (fun hn => hne hn.1)]
    exact ⟨Nat.lt_succ_of_lt hmade, hidle⟩
  once n hrepeats := by
    rw [begun_waitsOf]
    change s.callsOf n + _ ≤ 1
    by_cases hn : n = s.created
    · obtain ⟨hwaits, hcalls⟩ := h.unmade n hn.ge
      split_ifs <;> omega
    · rw [if_neg (fun hcreated => hn hcreated.1)]
      apply h.once n
      rw [← begun_timers s t after hn]
      exact hrepeats
  unmade n hn := by
    have hlt : s.created < n := hn
    obtain ⟨hwaits, hcalls⟩ := h.unmade n hlt.le
    rw [begun_waitsOf, if_neg (fun hcreated => hlt.ne' hcreated.1)]
    exact ⟨hwaits, hcalls⟩

theorem begun_quieter (s : TimerLoop) (t : NativeTimer) (after : Option ℤ) :
    Quieter s (s.begun t after) where
  created := Nat.le_succ _
  repeats _ hn := congrArg NativeTimer.repeats (begun_timers s t after hn.ne)
  callback _ hn hnone :=
    (congrArg NativeTimer.callback (begun_timers s t after hn.ne)).trans hnone
  silent _ _ _ := rfl

theorem cancel_waitsOf (s : TimerLoop) (n m : ℕ) : (s.cancel m).waitsOf n = s.waitsOf n := by
  unfold waitsOf TimerLoop.cancel
  rw [List.countP_map]
  congr 1
  funext w
  simp only [Function.comp_apply]
  split_ifs <;> rfl

theorem asyncWait_waitsOf (s : TimerLoop) (n m : ℕ) :
    (s.asyncWait m (.timer m)).waitsOf n = s.waitsOf n + if n = m then 1 else 0 := by
  unfold waitsOf TimerLoop.asyncWait
  rw [List.countP_append]
  simp [TimerValue.is, List.countP_cons, eq_comm]

theorem Tame.cancel (h : s.Tame) (m : ℕ) : (s.cancel m).Tame where
  toOwn := h.toOwn.cancel m
  waiting n := (s.cancel_waitsOf n m).le.trans (h.waiting n)
  busy f hf := ⟨(h.busy f hf).1, (s.cancel_waitsOf f.1 m).trans (h.busy f hf).2⟩
  once n hrepeats := by
    rw [cancel_waitsOf]
    exact h.once n hrepeats
  unmade n hn := by
    rw [cancel_waitsOf]
    exact h.unmade n hn

theorem Tame.clear (h : s.Tame) (m : ℕ) : (s.clear m).Tame ∧ Quieter s (s.clear m) := by
  have hupdate (n : ℕ) : ((s.setCallback m false).timers n).repeats = (s.timers n).repeats := by
    by_cases hn : n = m
    · subst hn
      simp [setCallback, setTimer]
    · simp [setCallback, setTimer, hn]
  have hnone (n : ℕ) (hn : (s.timers n).callback = false) :
      ((s.setCallback m false).timers n).callback = false := by
    by_cases hm : n = m
    · subst hm
      simp [setCallback, setTimer]
    · simpa [setCallback, setTimer, hm] using hn
  have htame : (s.setCallback m false).Tame :=
    ⟨h.toOwn.setTimer _ _, h.waiting, h.busy,
      fun n hrepeats => h.once n ((hupdate n).symm.trans hrepeats), h.unmade⟩
  unfold TimerLoop.clear TimerLoop.stop
  split_ifs
  · exact ⟨htame.cancel m, Nat.le_refl _, fun n _ => hupdate n, fun n _ => hnone n, fun _ _ _ => rfl⟩
  · exact ⟨htame, Nat.le_refl _, fun n _ => hupdate n, fun n _ => hnone n, fun _ _ _ => rfl⟩

/-- A cleared timer has no callback. -/
theorem clear_callback (s : TimerLoop) (n : ℕ) : ((s.clear n).timers n).callback = false := by
  unfold TimerLoop.clear TimerLoop.stop
  split_ifs <;> simp [setCallback, setTimer, TimerLoop.cancel]

theorem eraseIdx_waitsOf {i : ℕ} {w : Wait} (hw : s.waits[i]? = some w) (n : ℕ) :
    ({ s with waits := s.waits.eraseIdx i } : TimerLoop).waitsOf n +
      (if w.reference.is n = true then 1 else 0) = s.waitsOf n := by
  obtain ⟨hi, rfl⟩ := List.getElem?_eq_some_iff.mp hw
  unfold waitsOf
  rw [← (List.getElem_cons_eraseIdx_perm hi).countP_eq, List.countP_cons]

theorem is_timer (n m : ℕ) : (TimerValue.timer m).is n = decide (m = n) := rfl

/-- A wait is taken out of the list. -/
theorem Tame.erase (h : s.Tame) {i : ℕ} {w : Wait} (hw : s.waits[i]? = some w) :
    ({ s with waits := s.waits.eraseIdx i } : TimerLoop).Tame := by
  have hless (n : ℕ) :
      ({ s with waits := s.waits.eraseIdx i } : TimerLoop).waitsOf n ≤ s.waitsOf n := by
    have hcount := eraseIdx_waitsOf hw n
    omega
  refine ⟨⟨h.alive, fun v hv => h.waits v (List.mem_of_mem_eraseIdx hv), h.running, h.called⟩,
    fun n => (hless n).trans (h.waiting n), fun f hf => ?_, fun n hrepeats => ?_, fun n hn => ?_⟩
  · obtain ⟨hmade, hidle⟩ := h.busy f hf
    exact ⟨hmade, Nat.le_zero.mp (hidle ▸ hless f.1)⟩
  · have honce := h.once n hrepeats
    have hn := hless n
    change s.callsOf n + _ ≤ 1
    omega
  · obtain ⟨hwaits, hcalls⟩ := h.unmade n hn
    exact ⟨Nat.le_zero.mp (hwaits ▸ hless n), hcalls⟩

/-- The state when the callback of a Timer is called. -/
def fired (s : TimerLoop) (n : ℕ) : TimerLoop :=
  { s with running := some (n, .timer n), called := s.called ++ [(n, .timer n)] }

theorem fired_callsOf (s : TimerLoop) (n m : ℕ) :
    (s.fired m).callsOf n = s.callsOf n + if n = m then 1 else 0 := by
  unfold callsOf fired
  rw [List.countP_append]
  by_cases h : n = m
  · simp [is_timer, h]
  · simp [is_timer, h, Ne.symm h]

/-- The wait of a Timer completes, and its callback is called. -/
theorem Tame.fire (h : s.Tame) {i : ℕ} {w : Wait} (hw : s.waits[i]? = some w) :
    (({ s with waits := s.waits.eraseIdx i } : TimerLoop).fired w.owner).Tame := by
  have hreference := h.waits w (List.mem_of_getElem? hw)
  have herase := h.erase hw
  have hcount (n : ℕ) : ({ s with waits := s.waits.eraseIdx i } : TimerLoop).waitsOf n +
      (if n = w.owner then 1 else 0) = s.waitsOf n := by
    have hn := eraseIdx_waitsOf hw n
    rw [hreference, is_timer] at hn
    simpa [eq_comm] using hn
  have hself := hcount w.owner
  rw [if_pos rfl] at hself
  have hlimit := h.waiting w.owner
  have hmade : w.owner < s.created := by
    by_contra hunmade
    have hnone := (h.unmade w.owner (Nat.le_of_not_lt hunmade)).1
    omega
  refine ⟨⟨h.alive, herase.waits, fun f hf => ?_, fun f hf => ?_⟩, herase.waiting, fun f hf => ?_,
    fun n hrepeats => ?_, fun n hn => ?_⟩
  · rw [← Option.some_inj.mp hf]
  · rcases List.mem_append.mp hf with hf | hf
    · exact h.called f hf
    · rw [List.mem_singleton.mp hf]
  · rw [← Option.some_inj.mp hf]
    refine ⟨hmade, ?_⟩
    change ({ s with waits := s.waits.eraseIdx i } : TimerLoop).waitsOf w.owner = 0
    omega
  · have honce := h.once n hrepeats
    have hn := hcount n
    rw [fired_callsOf]
    change s.callsOf n + _ + ({ s with waits := s.waits.eraseIdx i } : TimerLoop).waitsOf n ≤ 1
    omega
  · obtain ⟨hwaits, hcalled⟩ := herase.unmade n hn
    have hne : n ≠ w.owner := (Nat.lt_of_lt_of_le hmade hn).ne'
    rw [fired_callsOf, if_neg hne]
    exact ⟨hwaits, hcalled⟩

theorem Tame.completes (h : s.Tame) (i : ℕ) (aborted : Bool) :
    (s.completes i aborted).Tame ∧ Quieter s (s.completes i aborted) := by
  unfold TimerLoop.completes
  split
  · rename_i w hidle hw
    have hreference := h.waits w (List.mem_of_getElem? hw)
    have herase := h.erase hw
    split_ifs
    · exact ⟨h, Quieter.refl s⟩
    · unfold onTimeout
      split_ifs
      · exact ⟨herase, Nat.le_refl _, fun _ _ => rfl, fun _ _ => id, fun _ _ _ => rfl⟩
      · rw [hreference]
        unfold callbackOf
        rcases Bool.eq_false_or_eq_true (s.timers w.owner).callback with hcallback | hcallback
        · simp only [hcallback]
          refine ⟨h.fire hw, Nat.le_refl _, fun _ _ => rfl, fun _ _ => id, fun n _ hnone => ?_⟩
          have hne : n ≠ w.owner := by
            rintro rfl
            exact absurd (hcallback.symm.trans hnone) nofun
          have hcalls :=
            ({ s with waits := s.waits.eraseIdx i } : TimerLoop).fired_callsOf n w.owner
          rw [if_neg hne] at hcalls
          exact hcalls
        · simp only [hcallback]
          exact ⟨herase.cancel w.owner, Nat.le_refl _, fun _ _ => rfl, fun _ _ => id,
            fun _ _ _ => rfl⟩
  · exact ⟨h, Quieter.refl s⟩

/-- After its callback a repeating Timer gets the wait that it has lost. -/
theorem Tame.ends (h : s.Tame) :
    (s.ends (.returns [])).Tame ∧ Quieter s (s.ends (.returns [])) := by
  have hown := (ends_own_iff h.toOwn (.returns [])).mpr (by simp [Leaves])
  revert hown
  unfold TimerLoop.ends
  cases hrunning : s.running with
  | none => exact fun _ => ⟨h, Quieter.refl s⟩
  | some f =>
    obtain ⟨hmade, hidle⟩ := h.busy f hrunning
    have htimer := h.running f hrunning
    have hrest : ({ s with running := none } : TimerLoop).Tame :=
      ⟨⟨h.alive, h.waits, by simp, h.called⟩, h.waiting, by simp, h.once, h.unmade⟩
    unfold afterCallback
    dsimp only
    split_ifs with hrepeats
    · intro hown
      have hcount (n : ℕ) : (({ s with running := none } : TimerLoop).expiresFromNow f.1
          (.timer f.1)).waitsOf n = s.waitsOf n + if n = f.1 then 1 else 0 := by
        rw [expiresFromNow, asyncWait_waitsOf, cancel_waitsOf]
        rfl
      revert hown
      rw [htimer]
      change Own (TimerLoop.expiresFromNow _ _ (.timer f.1)) → Tame (TimerLoop.expiresFromNow _ _ (.timer f.1)) ∧
        Quieter s (TimerLoop.expiresFromNow _ _ (.timer f.1))
      intro hown
      refine ⟨⟨hown, fun n => ?_, fun _ hf => absurd hf (Option.not_mem_none _),
        fun n hsingle => ?_, fun n hn => ?_⟩, Nat.le_refl _, fun _ _ => rfl, fun _ _ => id,
        fun _ _ _ => rfl⟩
      · have hn := h.waiting n
        rw [hcount]
        split_ifs with heq
        · rw [heq]
          omega
        · exact hn
      · have hne : n ≠ f.1 := by
          rintro rfl
          exact absurd (hrepeats.symm.trans hsingle) (by simp)
        rw [hcount, if_neg hne]
        exact h.once n hsingle
      · have hne : n ≠ f.1 := by
          rintro rfl
          exact absurd hmade (Nat.not_lt.mpr hn)
        rw [hcount, if_neg hne]
        exact h.unmade n hn
    · exact fun _ => ⟨hrest, Nat.le_refl _, fun _ _ => rfl, fun _ _ => id, fun _ _ _ => rfl⟩

theorem setTimeout_begun (s : TimerLoop) (isFunction : Bool) (after : Option ℤ) :
    ∃ t : NativeTimer, t.repeats = false ∧
      s.setTimeout isFunction after = s.begun t (some (after.getD 1)) := by
  obtain ⟨t, hrepeats, hbegun⟩ := s.begin_cases isFunction (some (after.getD 1)) 0
  exact ⟨t, by simpa using hrepeats, hbegun⟩

theorem setInterval_begun (s : TimerLoop) (isFunction : Bool) (repeat_ : Option ℤ) :
    ∃ t : NativeTimer, s.setInterval isFunction repeat_ = s.begun t repeat_ := by
  obtain ⟨t, -, hbegun⟩ := s.begin_cases isFunction repeat_ (repeat_.getD 1)
  exact ⟨t, hbegun⟩

theorem Tame.step (h : s.Tame) {e : TimerEvent} (he : e.isManaged = true) :
    (s.step e).Tame ∧ Quieter s (s.step e) := by
  have hclear (n : ℕ) :
      (s.onTimer n (s.clear n)).Tame ∧ Quieter s (s.onTimer n (s.clear n)) := by
    unfold TimerLoop.onTimer
    split_ifs
    · exact h.clear n
    · exact ⟨h, Quieter.refl s⟩
  unfold TimerLoop.step
  rw [if_neg (by simp [h.alive])]
  cases e with
  | make | setCallback | start | stop | again => exact absurd he nofun
  | setTimeout isFunction after =>
    obtain ⟨t, -, hbegun⟩ := s.setTimeout_begun isFunction after
    dsimp only
    rw [hbegun]
    exact ⟨h.begun t _, s.begun_quieter t _⟩
  | setInterval isFunction repeat_ =>
    obtain ⟨t, hbegun⟩ := s.setInterval_begun isFunction repeat_
    dsimp only
    rw [hbegun]
    exact ⟨h.begun t _, s.begun_quieter t _⟩
  | clearTimeout n => exact hclear n
  | clearInterval n => exact hclear n
  | completes i aborted => exact h.completes i aborted
  | ends outcome =>
    cases outcome with
    | raises => exact absurd he nofun
    | returns values =>
      cases values with
      | nil => exact h.ends
      | cons => exact absurd he nofun

theorem Quieter.trans {t u : TimerLoop} (h : Quieter s t) (h' : Quieter t u) : Quieter s u where
  created := h.created.trans h'.created
  repeats n hn := (h'.repeats n (hn.trans_le h.created)).trans (h.repeats n hn)
  callback n hn hnone := h'.callback n (hn.trans_le h.created) (h.callback n hn hnone)
  silent n hn hnone :=
    (h'.silent n (hn.trans_le h.created) (h.callback n hn hnone)).trans (h.silent n hn hnone)

theorem Tame.run (h : s.Tame) {es : List TimerEvent} (hes : ∀ e ∈ es, e.isManaged = true) :
    (LuaNode.run TimerLoop.step s es).Tame ∧ Quieter s (LuaNode.run TimerLoop.step s es) := by
  induction es generalizing s with
  | nil => exact ⟨h, Quieter.refl s⟩
  | cons e es ih =>
    obtain ⟨he, hes⟩ := List.forall_mem_cons.mp hes
    obtain ⟨hstep, hquieter⟩ := h.step he
    obtain ⟨hrun, hrest⟩ := ih hstep hes
    exact ⟨hrun, hquieter.trans hrest⟩

/-- What is cleared is called no more. -/
theorem Tame.cleared (h : s.Tame) {n : ℕ} (hmade : n < s.created) {es : List TimerEvent}
    (hes : ∀ e ∈ es, e.isManaged = true) {e : TimerEvent}
    (he : e = .clearTimeout n ∨ e = .clearInterval n) :
    (LuaNode.run TimerLoop.step s (e :: es)).callsOf n = s.callsOf n := by
  have hstep : s.step e = s.clear n := by
    unfold TimerLoop.step TimerLoop.onTimer
    rcases he with rfl | rfl <;> simp [h.alive, hmade]
  obtain ⟨htame, hquieter⟩ := h.clear n
  have hcalls : (s.clear n).callsOf n = s.callsOf n := by
    unfold TimerLoop.clear TimerLoop.stop
    split_ifs <;> rfl
  rw [run_cons, hstep, ← hcalls]
  exact (htame.run hes).2.silent n (hmade.trans_le hquieter.created) (s.clear_callback n)

/-- A timer that `setTimeout` makes fires once at most. -/
theorem Tame.timeout (h : s.Tame) (isFunction : Bool) (after : Option ℤ) {es : List TimerEvent}
    (hes : ∀ e ∈ es, e.isManaged = true) :
    (LuaNode.run TimerLoop.step s (.setTimeout isFunction after :: es)).callsOf s.created ≤ 1 := by
  obtain ⟨t, hrepeats, hbegun⟩ := s.setTimeout_begun isFunction after
  have hstep : s.step (.setTimeout isFunction after) = s.begun t (some (after.getD 1)) := by
    rw [← hbegun]
    unfold TimerLoop.step
    rw [if_neg (by simp [h.alive])]
  have hmade : s.created < (s.begun t (some (after.getD 1))).created := Nat.lt_succ_self _
  obtain ⟨hrun, hquieter⟩ := (h.begun t (some (after.getD 1))).run hes
  have hsingle := hquieter.repeats s.created hmade
  have htimer : (s.begun t (some (after.getD 1))).timers s.created = t :=
    Function.update_self ..
  rw [htimer, hrepeats] at hsingle
  have honce := hrun.once s.created hsingle
  rw [run_cons, hstep]
  omega

/-- In every run in which timers are made by `setTimeout` and `setInterval`, and cleared at any
moment, each Timer has one wait at most, what `setTimeout` has made is called once at most, and what is
cleared is not called again. -/
theorem timers_silent (es : List TimerEvent) (hes : ∀ e ∈ es, e.isManaged = true) :
    (∀ t ∈ statesOf step fresh es, ∀ n, t.waitsOf n ≤ 1) ∧
    (∀ pre isFunction after post, es = pre ++ .setTimeout isFunction after :: post →
      (run step fresh es).callsOf (run step fresh pre).created ≤ 1) ∧
    ∀ pre n e post, es = pre ++ e :: post → e = .clearTimeout n ∨ e = .clearInterval n →
      n < (run step fresh pre).created →
      (run step fresh es).callsOf n = (run step fresh pre).callsOf n := by
  refine ⟨fun t ht => ?_, ?_, ?_⟩
  · have htame : t.Tame := guarded_states_invariant (G := fun _ e => e.isManaged = true)
      (fun _ _ h he => (h.step he).1) fresh_tame (guarded_of_forall hes fresh) ht
    exact htame.waiting
  · rintro pre isFunction after post rfl
    obtain ⟨hpre, hrest⟩ := List.forall_mem_append.mp hes
    rw [run_append]
    exact (fresh_tame.run hpre).1.timeout isFunction after (List.forall_mem_cons.mp hrest).2
  · rintro pre n e post rfl he hmade
    obtain ⟨hpre, hrest⟩ := List.forall_mem_append.mp hes
    rw [run_append]
    exact (fresh_tame.run hpre).1.cleared hmade (List.forall_mem_cons.mp hrest).2 he

/-- An interval that clears itself, and a timeout that is cleared when its expiry is queued. -/
def cleared : List TimerEvent :=
  [.setInterval true (some 1000), .setTimeout true none, .completes 0 false, .clearInterval 0,
    .ends (.returns []), .clearTimeout 1, .completes 0 false, .completes 0 false]

theorem timers_silent_cleared :
    (∀ t ∈ statesOf step fresh cleared, ∀ n, t.waitsOf n ≤ 1) ∧
    (∀ pre isFunction after post, cleared = pre ++ .setTimeout isFunction after :: post →
      (run step fresh cleared).callsOf (run step fresh pre).created ≤ 1) ∧
    ∀ pre n e post, cleared = pre ++ e :: post → e = .clearTimeout n ∨ e = .clearInterval n →
      n < (run step fresh pre).created →
      (run step fresh cleared).callsOf n = (run step fresh pre).callsOf n :=
  timers_silent cleared (by decide)

end TimerLoop

end LuaNode
