import LuaNode.Events.Once
import LuaNode.Http.ParserCallbacks

/-!
# Errors that nobody caught

`FatalError` of `luanode.cpp` on a `process` whose 'unhandledError' listeners have a history, with
what follows it: the report of `OnError` and `ReportError`, and `process:exit` of `node.lua`. The
listeners of 'exit' are left out.
-/

namespace LuaNode

structure Process (α : Type*) where
  emitter : EventEmitter α Str
  /-- `uncaught_exception_counter` -/
  uncaught : ℕ
  /-- `_exit_already_emitted` -/
  exitAlreadyEmitted : Bool
  /-- a callback that calls `_exit` is in the queue of `nextTick` -/
  exitQueued : Bool
  /-- `GetIoService().stop()` -/
  stopped : Bool
  /-- the messages in the console -/
  reported : List Str

namespace Process

variable {α : Type*} [DecidableEq α] (p : Process α)

def unhandledError : Str := "unhandledError".toList

/-- `process:exit(1)`. -/
def exit : Process α :=
  if p.exitAlreadyEmitted then p
  else { p with exitAlreadyEmitted := true, exitQueued := true }

/-- `FatalError`, up to the first listener; the answer tells that the error is handled. -/
def fatalError (message : Str) : Bool × Process α :=
  if p.uncaught > 0 then (false, { p with stopped := true })
  else
    match p.emitter.events with
    | none => (false, p.exit)
    | some events =>
      match events unhandledError with
      | .absent => (false, p.exit)
      | _ =>
        (true, { p with
          uncaught := p.uncaught + 1
          emitter := p.emitter.emit unhandledError (.given [message]) .result })

/-- An error reaches `OnError`, or `Tick`. -/
def raise (message : Str) : Bool × Process α :=
  let r := p.fatalError message
  if r.1 then r else (false, { r.2 with reported := r.2.reported ++ [message] })

/-- The listeners that are registered. -/
def registered : List (Listener α) := p.emitter.toLists.lists unhandledError

/-- An error is taken for handled only if there is a listener, which is called; without one it
is reported and the process ends. -/
structure Heeds (message : Str) : Prop where
  handled : (p.raise message).1 = true → ∃ l ∈ p.registered.head?,
    (p.raise message).2.emitter.log =
      p.emitter.log ++ [.called l unhandledError (.given [message])]
  ends : p.registered = [] → (p.raise message).1 = false ∧
    (p.raise message).2.reported = p.reported ++ [message] ∧
    ((p.raise message).2.stopped = true ∨ (p.raise message).2.exitQueued = true)

/-- The process after what has been done with its listeners. The call of `_exit` is queued when
the flag is set. -/
def after (events : Bool) (as : List (Action α Str)) (uncaught : ℕ) (exited stopped : Bool)
    (reported : List Str) : Process α :=
  ⟨run EventEmitter.step (.init events) as, uncaught, exited, exited, stopped, reported⟩

variable {p}

theorem fatalError_entry (message : Str) :
    p.fatalError message =
      if p.uncaught > 0 then (false, { p with stopped := true })
      else
        match p.emitter.entry unhandledError with
        | .absent => (false, p.exit)
        | _ =>
          (true, { p with
            uncaught := p.uncaught + 1
            emitter := p.emitter.emit unhandledError (.given [message]) .result }) := by
  unfold fatalError EventEmitter.entry
  cases p.emitter.events <;> rfl

omit [DecidableEq α] in
/-- What the C API finds in `_events`. -/
def value : Entry α → LuaValue
  | .absent => .nil
  | .single _ => .function
  | .array list => .table (list.zipIdx.map fun l => (decimal (l.2 + 1), .function))

omit [DecidableEq α] in
/-- The field of `process` that `FatalError` looks at. -/
def fields (p : Process α) : List (Str × LuaValue) :=
  match p.emitter.events with
  | none => []
  | some events =>
    [("_events".toList, .table [(unhandledError, value (events unhandledError))])]

/-- What `FatalError` makes of the listeners is what it makes of the stack of the Lua API. -/
theorem fatalError_globals (g : Globals) (hcount : g.uncaught = p.uncaught)
    (hprocess : g.process = p.fields) (message : Str) (s : LuaStack) :
    (g.fatalError message s).1 = (p.fatalError message).1 := by
  have hevents : g.events = (LuaValue.table p.fields).field "_events".toList := by
    rw [← hprocess]
    rfl
  unfold Globals.fatalError fatalError
  rw [hcount]
  by_cases hpos : p.uncaught > 0
  · rw [if_pos hpos, if_pos hpos]
  · rw [if_neg hpos, if_neg hpos]
    cases h : p.emitter.events with
    | none =>
      have hnil : g.events = .nil := by rw [hevents, fields, h]; rfl
      simp [hnil, LuaValue.isTable]
    | some events =>
      have htable : g.events = .table [(unhandledError, value (events unhandledError))] := by
        rw [hevents, fields, h]
        rfl
      have hlistener : g.listener = value (events unhandledError) := by
        unfold Globals.listener
        rw [htable]
        rfl
      dsimp only
      rw [htable, hlistener]
      cases events unhandledError <;> rfl

/-- An `emit` calls the first listener. -/
theorem emit_log (e : EventEmitter α Str) (message : Str) {l : Listener α}
    {rest : List (Listener α)} (h : e.toLists.lists unhandledError = l :: rest) :
    (e.emit unhandledError (.given [message]) .result).log =
      e.log ++ [.called l unhandledError (.given [message])] := by
  have hlists := congrArg ListenerLists.log
    (e.toLists_emit unhandledError (.given [message]) .result)
  refine hlists.trans ?_
  unfold ListenerLists.emit
  rw [h]
  exact (ListenerLists.enter_spec l _).2.2.1

omit [DecidableEq α] in
theorem registered_entry : p.registered = EventEmitter.toList (p.emitter.entry unhandledError) :=
  rfl

theorem heeds_of_listener (hcount : ¬ p.uncaught > 0) {l : Listener α}
    {rest : List (Listener α)} (hlist : p.registered = l :: rest)
    (hentry : p.emitter.entry unhandledError ≠ .absent) (message : Str) : p.Heeds message := by
  have hfatal : p.fatalError message = (true, { p with
      uncaught := p.uncaught + 1
      emitter := p.emitter.emit unhandledError (.given [message]) .result }) := by
    rw [fatalError_entry, if_neg hcount]
    split
    · next h => exact absurd h hentry
    · rfl
  have hraise : p.raise message = p.fatalError message := by
    unfold raise
    rw [hfatal]
    rfl
  refine ⟨fun _ => ⟨l, by simp [hlist], ?_⟩, fun hnone => ?_⟩
  · rw [hraise, hfatal]
    exact emit_log p.emitter message hlist
  · rw [hlist] at hnone
    cases hnone

/-- The empty array that `listeners` and `removeListener` leave is taken for a listener. -/
theorem heeds_iff (hexit : p.exitAlreadyEmitted = true → p.exitQueued = true) (message : Str) :
    p.Heeds message ↔ 0 < p.uncaught ∨ p.emitter.entry unhandledError ≠ .array [] := by
  have hqueued : p.exit.exitQueued = true ∧ p.exit.reported = p.reported := by
    unfold exit
    split_ifs with h
    · exact ⟨hexit h, rfl⟩
    · exact ⟨rfl, rfl⟩
  by_cases hcount : p.uncaught > 0
  · have hraise : p.raise message =
        (false, { p with stopped := true, reported := p.reported ++ [message] }) := by
      unfold raise
      simp [fatalError_entry, hcount]
    refine iff_of_true ⟨?_, ?_⟩ (.inl hcount)
    · rw [hraise]
      exact fun h => absurd h Bool.false_ne_true
    · rw [hraise]
      exact fun _ => ⟨rfl, rfl, .inl rfl⟩
  · cases hentry : p.emitter.entry unhandledError with
    | absent =>
      have hraise : p.raise message =
          (false, { p.exit with reported := p.exit.reported ++ [message] }) := by
        unfold raise
        simp [fatalError_entry, hcount, hentry]
      refine iff_of_true ⟨?_, ?_⟩ (.inr (by simp))
      · rw [hraise]
        exact fun h => absurd h Bool.false_ne_true
      · rw [hraise]
        exact fun _ => ⟨rfl, by rw [hqueued.2], .inr hqueued.1⟩
    | single l =>
      have hlist : p.registered = [l] := by rw [registered_entry, hentry]; rfl
      exact iff_of_true (heeds_of_listener hcount hlist (by simp [hentry]) message)
        (.inr (by simp))
    | array list =>
      cases list with
      | nil =>
        refine iff_of_false (fun h => ?_) (by simp [hcount])
        have hnone : p.registered = [] := by rw [registered_entry, hentry]; rfl
        have hhandled : (p.raise message).1 = true := by
          unfold raise
          simp [fatalError_entry, hcount, hentry]
        rw [(h.ends hnone).1] at hhandled
        cases hhandled
      | cons l rest =>
        have hlist : p.registered = l :: rest := by rw [registered_entry, hentry]; rfl
        exact iff_of_true (heeds_of_listener hcount hlist (by simp [hentry]) message)
          (.inr (by simp))

/-- After whatever has been done with the listeners, an error is treated as the listeners that are
registered ask for, except that an empty array in `_events` is taken for a listener: the error is
then neither handed to anybody nor reported, and the process goes on. -/
theorem after_heeds_iff (events : Bool) (as : List (Action α Str)) (uncaught : ℕ)
    (exited stopped : Bool) (reported : List Str) (message : Str) :
    (after events as uncaught exited stopped reported).Heeds message ↔
      0 < uncaught ∨
        (run EventEmitter.step (.init events) as).entry unhandledError ≠ .array [] :=
  heeds_iff (p := after events as uncaught exited stopped reported) id message

/-- `process:listeners("unhandledError")` leaves an empty array. -/
theorem after_listeners_swallows :
    ¬ (after true [.op (.listeners unhandledError)] 0 false false [] : Process Unit).Heeds
      "oops".toList := by
  intro h
  have hraise := (h.ends rfl).1
  exact absurd hraise (by decide)

end Process

end LuaNode
