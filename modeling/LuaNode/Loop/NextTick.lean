import LuaNode.Library.Runs
import Mathlib.Data.List.Forall2

/-!
# The callbacks of the next tick

`process.nextTick` and `process._tickcallback` of `node.lua`, and `Tick` of `luanode.cpp`, which
the event loop runs once for each time it has been posted. The callbacks are of a type `α`. Code
calls `nextTick` at any time: between two handlers of the loop, in a callback of the queue, or in
the listeners of 'unhandledError', which handle every error.
-/

namespace LuaNode

/-- What runs: the loop has the control, `_tickcallback` has called its callback at an index (the
first one is 1) of those up to the length of the queue at its beginning, or the callback has
raised an error and `FatalError` has called the listeners. -/
inductive TickPhase
  | loop
  | callback (i l : ℕ)
  | listener

structure NextTick (α : Type*) where
  nextTickQueue : List α
  /-- the handlers `Tick` that are posted -/
  posted : ℕ
  phase : TickPhase
  /-- the handlers `Tick` that have been called -/
  ticks : ℕ
  /-- what was passed to `nextTick`, each with the ticks at that time -/
  queued : List (α × ℕ)
  /-- the callbacks that were called, each with its tick -/
  called : List (α × ℕ)

namespace NextTick

inductive Event (α : Type*)
  /-- some code calls `nextTick` -/
  | nextTick (callback : α)
  /-- the loop calls `Tick` -/
  | tick
  /-- the callback returns -/
  | ret
  /-- the callback raises an error -/
  | raise
  /-- the listeners return -/
  | handled

variable {α : Type*} (s : NextTick α)

def init : NextTick α := ⟨[], 0, .loop, 0, [], []⟩

def splice (array : List α) (start : ℕ) : List α := array.drop (start - 1)

def nextTick (callback : α) : NextTick α :=
  { s with
    nextTickQueue := s.nextTickQueue ++ [callback]
    posted := s.posted + 1
    queued := s.queued ++ [(callback, s.ticks)] }

/-- The error at the index `i`, up to the listeners. -/
def raise (i l : ℕ) : NextTick α :=
  { s with
    nextTickQueue := if i ≤ l then splice s.nextTickQueue (i + 1) else s.nextTickQueue
    phase := .listener }

/-- The loop of `_tickcallback` from an index on, up to the call of a callback. -/
def loop (i l : ℕ) : NextTick α :=
  if i ≤ l then
    match s.nextTickQueue[i - 1]? with
    | some callback =>
      { s with phase := .callback i l, called := s.called ++ [(callback, s.ticks)] }
    | none => s.raise i l
  else { s with nextTickQueue := splice s.nextTickQueue (l + 1), phase := .loop }

/-- `_tickcallback`, up to the first callback. -/
def tickcallback : NextTick α :=
  let l := s.nextTickQueue.length
  if l = 0 then s else s.loop 1 l

def tick : NextTick α := { s with posted := s.posted - 1, ticks := s.ticks + 1 }.tickcallback

def step : Event α → NextTick α
  | .nextTick callback => s.nextTick callback
  | .tick =>
    match s.phase with
    | .loop => if s.posted = 0 then s else s.tick
    | _ => s
  | .ret =>
    match s.phase with
    | .callback i l => s.loop (i + 1) l
    | _ => s
  | .raise =>
    match s.phase with
    | .callback i l => s.raise i l
    | _ => s
  | .handled =>
    match s.phase with
    | .listener => { s with phase := .loop }
    | _ => s

/-- The callbacks that are still to be called. -/
def waiting : List α :=
  match s.phase with
  | .callback i _ => s.nextTickQueue.drop i
  | _ => s.nextTickQueue

/-- What holds in every state: the queue is what was queued without what was called, and there is
a handler for each callback that waits. -/
structure Inv : Prop where
  fifo : s.called.map Prod.fst ++ s.waiting = s.queued.map Prod.fst
  later : List.Forall₂ (fun q c => q.2 < c.2) (s.queued.take s.called.length) s.called
  past : ∀ q ∈ s.queued, q.2 ≤ s.ticks
  posted : s.waiting.length ≤ s.posted
  index : ∀ i l, s.phase = .callback i l → i ≤ l ∧ l ≤ s.nextTickQueue.length
  early : ∀ i l, s.phase = .callback i l →
    ∀ q ∈ s.queued.take (s.called.length + (l - i)), q.2 < s.ticks

/-- The loop of `_tickcallback` has got to an index, and the callbacks before it were called. -/
structure Ready (i l : ℕ) : Prop where
  index : 1 ≤ i ∧ i ≤ l + 1 ∧ l ≤ s.nextTickQueue.length
  fifo : s.called.map Prod.fst ++ s.nextTickQueue.drop (i - 1) = s.queued.map Prod.fst
  later : List.Forall₂ (fun q c => q.2 < c.2) (s.queued.take s.called.length) s.called
  past : ∀ q ∈ s.queued, q.2 ≤ s.ticks
  early : ∀ q ∈ s.queued.take (s.called.length + (l + 1 - i)), q.2 < s.ticks
  posted : (s.nextTickQueue.drop (min i l)).length ≤ s.posted

variable {s}

theorem init_inv : (init : NextTick α).Inv :=
  ⟨rfl, .nil, by simp [init], Nat.le_refl 0, by simp [init], by simp [init]⟩

theorem Inv.length (h : s.Inv) : s.called.length + s.waiting.length = s.queued.length := by
  have hlength := congrArg List.length h.fifo
  simpa using hlength

theorem Inv.nextTick (h : s.Inv) (callback : α) : (s.nextTick callback).Inv := by
  have hlength := h.length
  have hwaiting : (s.nextTick callback).waiting = s.waiting ++ [callback] := by
    unfold waiting NextTick.nextTick
    cases hphase : s.phase with
    | callback i l =>
      obtain ⟨hi, hl⟩ := h.index i l hphase
      exact List.drop_append_of_le_length (Nat.le_trans hi hl)
    | _ => rfl
  refine ⟨?_, ?_, ?_, ?_, fun i l hphase => ?_, fun i l hphase => ?_⟩
  · rw [hwaiting, ← List.append_assoc]
    simp [NextTick.nextTick, h.fifo]
  · rw [NextTick.nextTick, List.take_append_of_le_length (by dsimp only; omega)]
    exact h.later
  · simp only [NextTick.nextTick, List.forall_mem_append, List.forall_mem_singleton]
    exact ⟨h.past, Nat.le_refl _⟩
  · rw [hwaiting, List.length_append]
    exact Nat.add_le_add_right h.posted 1
  · obtain ⟨hi, hl⟩ := h.index i l hphase
    exact ⟨hi, by simp [NextTick.nextTick]; omega⟩
  · obtain ⟨hi, hl⟩ := h.index i l hphase
    have hdrop : s.waiting = s.nextTickQueue.drop i := by
      unfold waiting
      rw [show s.phase = .callback i l from hphase]
    rw [hdrop, List.length_drop] at hlength
    rw [NextTick.nextTick, List.take_append_of_le_length (by dsimp only; omega)]
    exact h.early i l hphase

/-- The callback at the index is called, or `_tickcallback` ends. -/
theorem Ready.loop {i l : ℕ} (h : s.Ready i l) : (s.loop i l).Inv := by
  obtain ⟨hi, hil, hl⟩ := h.index
  have hlength : s.called.length + (s.nextTickQueue.length - (i - 1)) = s.queued.length := by
    have hfifo := congrArg List.length h.fifo
    simpa using hfifo
  have hposted := h.posted
  by_cases hle : i ≤ l
  · have hlt : i - 1 < s.nextTickQueue.length := by omega
    have hnext : s.called.length < s.queued.length := by omega
    have hloop : s.loop i l = { s with
        phase := .callback i l
        called := s.called ++ [(s.nextTickQueue[i - 1], s.ticks)] } := by
      unfold NextTick.loop
      rw [if_pos hle, List.getElem?_eq_getElem hlt]
    have hdrop := List.drop_eq_getElem_cons hlt
    rw [show i - 1 + 1 = i by omega] at hdrop
    rw [Nat.min_eq_left hle] at hposted
    rw [hloop]
    refine ⟨?_, ?_, h.past, hposted, fun j m hphase => ?_, fun j m hphase => ?_⟩
    · have hfifo := h.fifo
      rw [hdrop] at hfifo
      simpa [waiting] using hfifo
    · -- the next callback was queued before the tick
      have hearly : s.queued[s.called.length].2 < s.ticks :=
        h.early _ (List.mem_take_iff_getElem.mpr ⟨s.called.length, by omega, rfl⟩)
      simp only [List.length_append, List.length_singleton, List.take_add_one,
        List.getElem?_eq_getElem hnext, Option.toList_some]
      exact List.rel_append h.later (.cons hearly .nil)
    · cases hphase
      exact ⟨hle, hl⟩
    · cases hphase
      have hearly := h.early
      rw [show s.called.length + (l + 1 - i) = s.called.length + 1 + (l - i) by omega] at hearly
      simpa using hearly
  · have hend : i = l + 1 := by omega
    subst hend
    have hloop : s.loop (l + 1) l =
        { s with nextTickQueue := s.nextTickQueue.drop l, phase := .loop } := by
      unfold NextTick.loop splice
      rw [if_neg hle, Nat.add_sub_cancel]
    rw [Nat.min_eq_right (Nat.le_succ l)] at hposted
    rw [hloop]
    exact ⟨h.fifo, h.later, h.past, hposted, by simp, by simp⟩

/-- A callback that raises an error takes nothing else from the queue. -/
theorem Inv.raise_waiting {i l : ℕ} (h : s.Inv) (hphase : s.phase = .callback i l) :
    (s.raise i l).waiting = s.waiting := by
  simp [waiting, NextTick.raise, splice, hphase, (h.index i l hphase).1]

theorem Inv.raise {i l : ℕ} (h : s.Inv) (hphase : s.phase = .callback i l) :
    (s.raise i l).Inv := by
  have hwaiting := h.raise_waiting hphase
  refine ⟨?_, h.later, h.past, ?_, by simp [NextTick.raise], by simp [NextTick.raise]⟩
  · rw [hwaiting]
    exact h.fifo
  · rw [hwaiting]
    exact h.posted

theorem Inv.tick (h : s.Inv) (hphase : s.phase = .loop) (hposted : 0 < s.posted) :
    s.tick.Inv := by
  have hwaiting : s.waiting = s.nextTickQueue := by simp [waiting, hphase]
  have hlength := h.length
  have hqueue := h.posted
  have hfifo := h.fifo
  have hpast : ∀ q ∈ s.queued, q.2 < s.ticks + 1 := fun q hq => Nat.lt_succ_of_le (h.past q hq)
  rw [hwaiting] at hlength hqueue hfifo
  unfold NextTick.tick tickcallback
  dsimp only
  split_ifs with hl
  · exact ⟨by simpa [waiting, hphase] using hfifo, h.later, fun q hq => Nat.le_of_lt (hpast q hq),
      by simp [waiting, hphase, hl], by simp [hphase], by simp [hphase]⟩
  · refine Ready.loop ⟨⟨Nat.le_refl 1, by omega, Nat.le_refl _⟩, hfifo, h.later,
      fun q hq => Nat.le_of_lt (hpast q hq), fun q hq => hpast q (List.mem_of_mem_take hq), ?_⟩
    rw [List.length_drop]
    dsimp only
    omega

theorem Inv.ret {i l : ℕ} (h : s.Inv) (hphase : s.phase = .callback i l) :
    (s.loop (i + 1) l).Inv := by
  obtain ⟨hi, hl⟩ := h.index i l hphase
  have hwaiting : s.waiting = s.nextTickQueue.drop i := by simp [waiting, hphase]
  have hfifo := h.fifo
  have hposted := h.posted
  have hearly := h.early i l hphase
  rw [hwaiting] at hfifo hposted
  refine Ready.loop ⟨⟨by omega, by omega, hl⟩, hfifo, h.later, h.past, ?_, ?_⟩
  · rwa [Nat.add_sub_add_right]
  · rw [List.length_drop] at hposted ⊢
    omega

/-- One step keeps the invariant. -/
theorem Inv.step (h : s.Inv) (e : Event α) : (s.step e).Inv := by
  unfold NextTick.step
  cases e with
  | nextTick callback => exact h.nextTick callback
  | tick =>
    cases hphase : s.phase with
    | loop =>
      dsimp only
      split_ifs with hposted
      · exact h
      · exact h.tick hphase (Nat.pos_of_ne_zero hposted)
    | callback i l => exact h
    | listener => exact h
  | ret =>
    cases hphase : s.phase with
    | callback i l => exact h.ret hphase
    | _ => exact h
  | raise =>
    cases hphase : s.phase with
    | callback i l => exact h.raise hphase
    | _ => exact h
  | handled =>
    cases hphase : s.phase with
    | listener =>
      have hwaiting : ({ s with phase := .loop } : NextTick α).waiting = s.waiting := by
        simp [waiting, hphase]
      refine ⟨?_, h.later, h.past, ?_, by simp, by simp⟩
      · rw [hwaiting]
        exact h.fifo
      · rw [hwaiting]
        exact h.posted
    | _ => exact h

/-- Of the first `n` callbacks that were queued no more wait than there are handlers to come, of
`m` in all. -/
structure Progress (n m : ℕ) (s : NextTick α) : Prop where
  inv : s.Inv
  queued : n ≤ s.queued.length
  progress : n ≤ s.called.length ∨ n + s.ticks ≤ s.called.length + m

variable {n m : ℕ}

theorem called_loop (s : NextTick α) (i l : ℕ) : s.called <+: (s.loop i l).called := by
  unfold NextTick.loop
  split_ifs
  · cases s.nextTickQueue[i - 1]? <;> simp [NextTick.raise]
  · exact List.prefix_rfl

/-- A handler calls the first callback that waits. -/
theorem called_tick (hphase : s.phase = .loop) (hwaiting : s.waiting ≠ []) :
    s.tick.called.length = s.called.length + 1 := by
  have hqueue : s.nextTickQueue ≠ [] := by simpa [waiting, hphase] using hwaiting
  have hpos := List.length_pos_iff.mpr hqueue
  unfold NextTick.tick tickcallback NextTick.loop
  dsimp only
  rw [if_neg (by omega), if_pos (by omega), List.getElem?_eq_getElem (by omega)]
  simp

@[simp]
theorem queued_loop (s : NextTick α) (i l : ℕ) : (s.loop i l).queued = s.queued := by
  unfold NextTick.loop
  split_ifs
  · cases s.nextTickQueue[i - 1]? <;> rfl
  · rfl

@[simp]
theorem ticks_loop (s : NextTick α) (i l : ℕ) : (s.loop i l).ticks = s.ticks := by
  unfold NextTick.loop
  split_ifs
  · cases s.nextTickQueue[i - 1]? <;> rfl
  · rfl

theorem tick_fields (s : NextTick α) :
    s.tick.queued = s.queued ∧ s.tick.ticks = s.ticks + 1 ∧ s.called <+: s.tick.called := by
  unfold NextTick.tick tickcallback
  dsimp only
  split_ifs
  · exact ⟨rfl, rfl, List.prefix_rfl⟩
  · refine ⟨queued_loop _ _ _, ticks_loop _ _ _, ?_⟩
    exact called_loop { s with posted := s.posted - 1, ticks := s.ticks + 1 } 1 _

/-- What was queued and what was called stays, and only `Tick` counts. -/
theorem step_fields (s : NextTick α) (e : Event α) :
    s.queued <+: (s.step e).queued ∧ s.called <+: (s.step e).called ∧
      ((s.step e).ticks = s.ticks ∨ s.phase = .loop ∧ s.step e = s.tick) := by
  unfold NextTick.step
  cases e with
  | nextTick callback => exact ⟨List.prefix_append _ _, List.prefix_rfl, .inl rfl⟩
  | tick =>
    cases hphase : s.phase with
    | loop =>
      dsimp only
      split_ifs
      · exact ⟨List.prefix_rfl, List.prefix_rfl, .inl rfl⟩
      · obtain ⟨hqueued, -, hcalled⟩ := s.tick_fields
        exact ⟨hqueued ▸ List.prefix_rfl, hcalled, .inr ⟨rfl, rfl⟩⟩
    | _ => exact ⟨List.prefix_rfl, List.prefix_rfl, .inl rfl⟩
  | ret =>
    cases hphase : s.phase with
    | callback i l => exact ⟨by simp, s.called_loop _ _, .inl (by simp)⟩
    | _ => exact ⟨List.prefix_rfl, List.prefix_rfl, .inl rfl⟩
  | raise =>
    cases hphase : s.phase with
    | callback i l => exact ⟨List.prefix_rfl, List.prefix_rfl, .inl rfl⟩
    | _ => exact ⟨List.prefix_rfl, List.prefix_rfl, .inl rfl⟩
  | handled =>
    cases hphase : s.phase with
    | listener => exact ⟨List.prefix_rfl, List.prefix_rfl, .inl rfl⟩
    | _ => exact ⟨List.prefix_rfl, List.prefix_rfl, .inl rfl⟩

theorem Progress.step (h : Progress n m s) (e : Event α) : Progress n m (s.step e) := by
  obtain ⟨hqueued, hcalled, hticks⟩ := s.step_fields e
  have hlength := hcalled.length_le
  refine ⟨h.inv.step e, Nat.le_trans h.queued hqueued.length_le, ?_⟩
  rcases h.progress with hdone | hrest
  · exact .inl (Nat.le_trans hdone hlength)
  · rcases hticks with hsame | ⟨hphase, htick⟩
    · exact .inr (by omega)
    · -- a callback waits, or all the first ones have been called
      by_cases hwaiting : s.waiting = []
      · have hall := h.inv.length
        rw [hwaiting, List.length_nil] at hall
        exact .inl (by have := h.queued; omega)
      · have hone := called_tick hphase hwaiting
        obtain ⟨-, hticks, -⟩ := s.tick_fields
        rw [htick]
        exact .inr (by omega)

/-- In every run the callbacks are called in the order in which they were queued, each once and in
a later tick, an error takes nothing else from the queue, and a handler is posted while the queue
is not empty. Once the handlers that are posted now have been called, so have the callbacks that
are queued now. -/
theorem called_in_order (es : List (Event α)) :
    let s := run step init es
    s.called.map Prod.fst ++ s.waiting = s.queued.map Prod.fst ∧
    List.Forall₂ (fun q c => q.2 < c.2) (s.queued.take s.called.length) s.called ∧
    (∀ i l, s.phase = .callback i l → (s.step .raise).waiting = s.waiting) ∧
    (s.phase = .loop → s.nextTickQueue ≠ [] → 0 < s.posted) ∧
    ∀ fs, s.ticks + s.posted ≤ (run step s fs).ticks →
      s.queued.length ≤ (run step s fs).called.length := by
  intro s
  have hinv : s.Inv := run_invariant (I := Inv) (fun _ e h => h.step e) init_inv es
  have hlength := hinv.length
  have hposted := hinv.posted
  refine ⟨hinv.fifo, hinv.later, fun i l hphase => ?_, fun hphase hqueue => ?_, fun fs hticks => ?_⟩
  · unfold NextTick.step
    rw [hphase]
    exact hinv.raise_waiting hphase
  · have hwaiting : s.waiting = s.nextTickQueue := by simp [waiting, hphase]
    have hpos := List.length_pos_iff.mpr hqueue
    rw [hwaiting] at hposted
    omega
  · have hnow : Progress s.queued.length (s.ticks + s.posted) s :=
      ⟨hinv, Nat.le_refl _, .inr (by omega)⟩
    have hthen := run_invariant (I := Progress s.queued.length (s.ticks + s.posted))
      (fun _ e h => h.step e) hnow fs
    rcases hthen.progress with hdone | hrest
    · exact hdone
    · omega

end NextTick

end LuaNode
