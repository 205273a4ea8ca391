import LuaNode.Library.Runs
import LuaNode.Library.Text
import Mathlib.Logic.Function.Basic

/-!
# The event emitter

`event_emitter.lua`: the table `_events` with its three ways to hold listeners, the operations on
it, and an `emit` that may be interrupted by further operations of the listeners it calls. Code
runs in nested calls, so a state has a stack: a frame for each `emit` that waits for a listener.
An action is an operation of the code that runs (the innermost listener, or the program when no
`emit` is under way), or the return of that listener. The functions that are listeners are of a
type `α`, what else is passed to `emit` of a type `β`.
-/

namespace LuaNode

/-- A listener: a function, or the callback that `once` makes around a listener, which is a new
function each time. -/
inductive Listener (α : Type*)
  | func (f : α)
  | callback (id : ℕ) (kind : Str) (listener : Listener α)
  deriving DecidableEq

/-- Whether the result of a listener is `false`, when that of its function is: the callback of
`once` has no result. -/
def Listener.result {α : Type*} : Listener α → Bool → Bool
  | .func _, stop => stop
  | .callback _ _ _, _ => false

/-- What `_events[kind]` holds. -/
inductive Entry (α : Type*)
  | absent
  | single (listener : Listener α)
  | array (listeners : List (Listener α))

/-- The arguments of an `emit`: those of a caller, or those that `addListener` passes for
'newListener'. -/
inductive Args (α β : Type*)
  | given (values : List β)
  | newListener (kind : Str) (listener : Listener α)

/-- The operations that a program has. -/
inductive Op (α β : Type*)
  | addListener (kind : Str) (listener : Listener α)
  | once (kind : Str) (listener : Listener α)
  | removeListener (kind : Str) (listener : Listener α)
  | removeAllListeners (kind : Option Str)
  | listeners (kind : Str)
  | emit (kind : Str) (values : List β)

/-- An operation of the code that runs, or the return of the listener that runs, with the answer
to whether its result is `false`. -/
inductive Action (α β : Type*)
  | op (o : Op α β)
  | ret (stop : Bool)

/-- What the program can see: the calls of its listeners and the results of its operations. -/
inductive Observation (α β : Type*)
  | called (listener : Listener α) (kind : Str) (args : Args α β)
  | emitted (result : Bool)
  | raised
  | listeners (list : List (Listener α))

/-- What there is to do when an `emit` ends: its caller gets the result, or it was that of
`addListener`, which goes on. -/
inductive After (α : Type*)
  | result
  | append (kind : Str) (listener : Listener α)

/-- How the handler is called: it is a function, or the loop over a copy of the array has got to
an index. -/
inductive Handler (α : Type*)
  | single
  | loop (listeners : List (Listener α)) (i : ℕ)

structure Frame (α β : Type*) where
  kind : Str
  args : Args α β
  handler : Handler α
  /-- the listener that runs -/
  current : Listener α
  after : After α

structure EventEmitter (α β : Type*) where
  /-- `_events` -/
  events : Option (Str → Entry α)
  frames : List (Frame α β)
  /-- the callbacks that `once` has made -/
  made : ℕ
  log : List (Observation α β)

namespace EventEmitter

variable {α β : Type*} [DecidableEq α] (e : EventEmitter α β)

/-- An object without listeners, with the table `_events` or without. -/
def init (events : Bool) : EventEmitter α β :=
  ⟨if events then some fun _ => .absent else none, [], 0, []⟩

/-- `_events[kind]`, and nil when there is no `_events`. -/
def entry (kind : Str) : Entry α :=
  match e.events with
  | none => .absent
  | some t => t kind

/-- `_events[kind] = entry`, after `_events = _events or {}`. -/
def setEntry (kind : Str) (entry : Entry α) : EventEmitter α β :=
  { e with events := some (Function.update (e.events.getD fun _ => .absent) kind entry) }

def observe (o : Observation α β) : EventEmitter α β := { e with log := e.log ++ [o] }

/-- `removeListener`. -/
def removeListener (kind : Str) (listener : Listener α) : EventEmitter α β :=
  match e.entry kind with
  | .absent => e
  | .array list => e.setEntry kind (.array (list.erase listener))
  | .single l => if l = listener then e.setEntry kind .absent else e

/-- `removeAllListeners`. -/
def removeAllListeners : Option Str → EventEmitter α β
  | none => { e with events := some fun _ => .absent }
  | some kind =>
    match e.entry kind with
    | .absent => e
    | _ => e.setEntry kind .absent

/-- `listeners`, and what it returns. -/
def listeners (kind : Str) : EventEmitter α β × List (Listener α) :=
  match e.entry kind with
  | .absent => (e.setEntry kind (.array []), [])
  | .single l => (e.setEntry kind (.array [l]), [l])
  | .array list => (e.setEntry kind (.array list), list)

/-- `addListener` after its `emit`. -/
def append (kind : Str) (listener : Listener α) : EventEmitter α β :=
  match e.entry kind with
  | .absent => e.setEntry kind (.single listener)
  | .array list => e.setEntry kind (.array (list ++ [listener]))
  | .single l => e.setEntry kind (.array [l, listener])

/-- A listener is called: the callback of `once` removes itself and calls its listener. -/
def enter : Listener α → EventEmitter α β → EventEmitter α β
  | .func _, e => e
  | .callback id kind listener, e =>
    enter listener (e.removeListener kind (.callback id kind listener))

/-- The call of `listener` in the frame of an `emit`. -/
def call (frame : Frame α β) : EventEmitter α β :=
  enter frame.current
    { e with
      frames := frame :: e.frames
      log := e.log ++ [.called frame.current frame.kind frame.args] }

/-- An `emit` ends. -/
def finish (after : After α) (result : Bool) : EventEmitter α β :=
  match after with
  | .result => e.observe (.emitted result)
  | .append kind listener => e.append kind listener

/-- The test of `emit` on the event 'error'. -/
def unhandled : Bool :=
  match e.entry "error".toList with
  | .absent => true
  | .array [] => true
  | _ => false

/-- `emit`, up to the first listener. -/
def emit (kind : Str) (args : Args α β) (after : After α) : EventEmitter α β :=
  if kind = "error".toList ∧ e.unhandled then e.observe .raised
  else
    match e.entry kind with
    | .absent => e.finish after false
    | .single l => e.call ⟨kind, args, .single, l, after⟩
    | .array list =>
      match list[0]? with
      | none => e.finish after false
      | some l => e.call ⟨kind, args, .loop list 0, l, after⟩

/-- `addListener`, up to its `emit`. -/
def addListener (kind : Str) (listener : Listener α) : EventEmitter α β :=
  let e := { e with events := some (e.events.getD fun _ => .absent) }
  e.emit "newListener".toList (.newListener kind listener) (.append kind listener)

/-- `once`. -/
def once (kind : Str) (listener : Listener α) : EventEmitter α β :=
  let callback := .callback e.made kind listener
  { e with made := e.made + 1 }.addListener kind callback

def perform : Op α β → EventEmitter α β
  | .addListener kind listener => e.addListener kind listener
  | .once kind listener => e.once kind listener
  | .removeListener kind listener => e.removeListener kind listener
  | .removeAllListeners kind => e.removeAllListeners kind
  | .listeners kind => (e.listeners kind).1.observe (.listeners (e.listeners kind).2)
  | .emit kind values => e.emit kind (.given values) .result

/-- The listener that runs returns: `emit` goes on. -/
def ret (stop : Bool) : EventEmitter α β :=
  match e.frames with
  | [] => e
  | frame :: frames =>
    let e := { e with frames := frames }
    let result := frame.current.result stop
    match frame.handler with
    | .single => e.finish frame.after result
    | .loop list i =>
      if result then e.finish frame.after result
      else
        match list[i + 1]? with
        | none => e.finish frame.after result
        | some l => e.call { frame with handler := .loop list (i + 1), current := l }

def step : Action α β → EventEmitter α β
  | .op o => e.perform o
  | .ret stop => e.ret stop

end EventEmitter

/-! ### Lists of listeners

What the emitter is for: each event has a list of listeners, and an `emit` calls those that are
in the list when it begins. -/

/-- An `emit` that waits for the listener `current`, with those it has still to call. -/
structure Emission (α β : Type*) where
  kind : Str
  args : Args α β
  current : Listener α
  rest : List (Listener α)
  after : After α

structure ListenerLists (α β : Type*) where
  lists : Str → List (Listener α)
  emissions : List (Emission α β)
  made : ℕ
  log : List (Observation α β)

namespace ListenerLists

variable {α β : Type*} [DecidableEq α] (e : ListenerLists α β)

def init : ListenerLists α β := ⟨fun _ => [], [], 0, []⟩

def setList (kind : Str) (list : List (Listener α)) : ListenerLists α β :=
  { e with lists := Function.update e.lists kind list }

def observe (o : Observation α β) : ListenerLists α β := { e with log := e.log ++ [o] }

def append (kind : Str) (listener : Listener α) : ListenerLists α β :=
  e.setList kind (e.lists kind ++ [listener])

/-- The first occurrence goes. -/
def remove (kind : Str) (listener : Listener α) : ListenerLists α β :=
  e.setList kind ((e.lists kind).erase listener)

def removeAll : Option Str → ListenerLists α β
  | none => { e with lists := fun _ => [] }
  | some kind => e.setList kind []

def enter : Listener α → ListenerLists α β → ListenerLists α β
  | .func _, e => e
  | .callback id kind listener, e => enter listener (e.remove kind (.callback id kind listener))

def call (emission : Emission α β) : ListenerLists α β :=
  enter emission.current
    { e with
      emissions := emission :: e.emissions
      log := e.log ++ [.called emission.current emission.kind emission.args] }

def finish (after : After α) (result : Bool) : ListenerLists α β :=
  match after with
  | .result => e.observe (.emitted result)
  | .append kind listener => e.append kind listener

/-- Without listeners an 'error' raises; else the listeners of the list are called, beginning
with the first. -/
def emit (kind : Str) (args : Args α β) (after : After α) : ListenerLists α β :=
  match e.lists kind with
  | [] => if kind = "error".toList then e.observe .raised else e.finish after false
  | listener :: rest => e.call ⟨kind, args, listener, rest, after⟩

def add (kind : Str) (listener : Listener α) : ListenerLists α β :=
  e.emit "newListener".toList (.newListener kind listener) (.append kind listener)

def perform : Op α β → ListenerLists α β
  | .addListener kind listener => e.add kind listener
  | .once kind listener =>
    { e with made := e.made + 1 }.add kind (.callback e.made kind listener)
  | .removeListener kind listener => e.remove kind listener
  | .removeAllListeners kind => e.removeAll kind
  | .listeners kind => e.observe (.listeners (e.lists kind))
  | .emit kind values => e.emit kind (.given values) .result

/-- After a listener that returns `false`, and after the last one, the `emit` ends, and the
answer is whether that one returned `false`. -/
def ret (stop : Bool) : ListenerLists α β :=
  match e.emissions with
  | [] => e
  | emission :: emissions =>
    let e := { e with emissions := emissions }
    if emission.current.result stop then e.finish emission.after true
    else
      match emission.rest with
      | [] => e.finish emission.after false
      | listener :: rest => e.call { emission with current := listener, rest := rest }

def step : Action α β → ListenerLists α β
  | .op o => e.perform o
  | .ret stop => e.ret stop

end ListenerLists

/-! ### The refinement -/

namespace EventEmitter

section Lists

variable {α β : Type*} (e : EventEmitter α β)

/-- The list that an entry stands for. -/
def toList : Entry α → List (Listener α)
  | .absent => []
  | .single l => [l]
  | .array list => list

def remaining : Handler α → List (Listener α)
  | .single => []
  | .loop list i => list.drop (i + 1)

def emission (frame : Frame α β) : Emission α β :=
  ⟨frame.kind, frame.args, frame.current, remaining frame.handler, frame.after⟩

/-- The lists that an emitter stands for. -/
def toLists : ListenerLists α β :=
  ⟨fun kind => toList (e.entry kind), e.frames.map emission, e.made, e.log⟩

@[simp]
theorem lists_toLists (kind : Str) : e.toLists.lists kind = toList (e.entry kind) := rfl

theorem toLists_setEntry (kind : Str) (entry : Entry α) :
    (e.setEntry kind entry).toLists = e.toLists.setList kind (toList entry) := by
  have hlists : (fun k => toList ((e.setEntry kind entry).entry k)) =
      Function.update (fun k => toList (e.entry k)) kind (toList entry) := by
    funext k
    by_cases hk : k = kind
    · subst hk
      simp [setEntry, EventEmitter.entry]
    · cases he : e.events <;> simp [setEntry, EventEmitter.entry, he, hk]
  simp only [toLists, ListenerLists.setList, hlists]
  rfl

/-- Writing the list that is there changes nothing. -/
theorem setList_self (a : ListenerLists α β) (kind : Str) : a.setList kind (a.lists kind) = a := by
  simp [ListenerLists.setList]

theorem toLists_observe (o : Observation α β) :
    (e.observe o).toLists = e.toLists.observe o := rfl

theorem toLists_append (kind : Str) (listener : Listener α) :
    (e.append kind listener).toLists = e.toLists.append kind listener := by
  unfold append ListenerLists.append
  rw [lists_toLists]
  cases h : e.entry kind <;> exact toLists_setEntry e kind _

theorem toLists_finish (after : After α) (result : Bool) :
    (e.finish after result).toLists = e.toLists.finish after result := by
  cases after with
  | result => rfl
  | append kind listener => exact e.toLists_append kind listener

/-- `listeners` makes an array of what is there, and returns the list. -/
theorem toLists_listeners (kind : Str) :
    (e.listeners kind).1.toLists = e.toLists ∧ (e.listeners kind).2 = e.toLists.lists kind := by
  have hself := setList_self e.toLists kind
  rw [lists_toLists] at hself ⊢
  unfold listeners
  cases h : e.entry kind <;> rw [h] at hself <;>
    exact ⟨(toLists_setEntry e kind _).trans hself, rfl⟩

theorem toLists_removeAllListeners (kind : Option Str) :
    (e.removeAllListeners kind).toLists = e.toLists.removeAll kind := by
  cases kind with
  | none => rfl
  | some kind =>
    simp only [removeAllListeners, ListenerLists.removeAll]
    cases h : e.entry kind with
    | absent =>
      have hself := setList_self e.toLists kind
      rw [lists_toLists, h] at hself
      exact hself.symm
    | single l => exact toLists_setEntry e kind _
    | array list => exact toLists_setEntry e kind _

theorem unhandled_iff : e.unhandled = true ↔ e.toLists.lists "error".toList = [] := by
  rw [lists_toLists]
  unfold unhandled
  rcases h : e.entry "error".toList with _ | l | _ | ⟨l, list⟩ <;> simp [toList]

@[simp]
theorem frames_finish (after : After α) (result : Bool) :
    (e.finish after result).frames = e.frames := by
  cases after with
  | result => rfl
  | append kind listener =>
    simp only [finish, append]
    cases e.entry kind <;> rfl

@[simp]
theorem frames_removeAllListeners (kind : Option Str) :
    (e.removeAllListeners kind).frames = e.frames := by
  unfold removeAllListeners
  cases kind with
  | none => rfl
  | some kind => cases h : e.entry kind <;> simp [h, setEntry]

@[simp]
theorem frames_listeners (kind : Str) : (e.listeners kind).1.frames = e.frames := by
  unfold listeners
  cases e.entry kind <;> rfl

end Lists

variable {α β : Type*} [DecidableEq α] (e : EventEmitter α β)

theorem toLists_removeListener (kind : Str) (listener : Listener α) :
    (e.removeListener kind listener).toLists = e.toLists.remove kind listener := by
  unfold removeListener ListenerLists.remove
  rw [lists_toLists]
  cases h : e.entry kind with
  | absent =>
    have hself := setList_self e.toLists kind
    rw [lists_toLists, h] at hself
    simpa [toList] using hself.symm
  | single l =>
    by_cases hl : l = listener
    · simp [hl, toLists_setEntry, toList]
    · have hself := setList_self e.toLists kind
      rw [lists_toLists, h] at hself
      simpa [hl, toList] using hself.symm
  | array list => exact toLists_setEntry e kind _

theorem toLists_enter (listener : Listener α) :
    (enter listener e).toLists = ListenerLists.enter listener e.toLists := by
  induction listener generalizing e with
  | func f => rfl
  | callback id kind listener ih =>
    unfold enter ListenerLists.enter
    rw [ih, toLists_removeListener]

theorem toLists_call (frame : Frame α β) :
    (e.call frame).toLists = e.toLists.call (emission frame) :=
  toLists_enter _ frame.current

theorem toLists_emit (kind : Str) (args : Args α β) (after : After α) :
    (e.emit kind args after).toLists = e.toLists.emit kind args after := by
  unfold emit ListenerLists.emit
  by_cases hraise : kind = "error".toList ∧ e.unhandled
  · obtain ⟨rfl, hunhandled⟩ := hraise
    rw [if_pos ⟨rfl, hunhandled⟩, e.unhandled_iff.mp hunhandled]
    exact e.toLists_observe .raised
  · rw [if_neg hraise]
    -- without listeners this is no 'error' here
    have hother : e.toLists.lists kind = [] → kind ≠ "error".toList := by
      rintro hnil rfl
      exact hraise ⟨rfl, e.unhandled_iff.mpr hnil⟩
    rw [lists_toLists] at hother ⊢
    cases h : e.entry kind with
    | absent =>
      rw [h] at hother
      exact (e.toLists_finish after false).trans (if_neg (hother rfl)).symm
    | single l => exact e.toLists_call _
    | array list =>
      rw [h] at hother
      cases list with
      | nil => exact (e.toLists_finish after false).trans (if_neg (hother rfl)).symm
      | cons l rest => exact e.toLists_call ⟨kind, args, .loop (l :: rest) 0, l, after⟩

theorem toLists_addListener (kind : Str) (listener : Listener α) :
    (e.addListener kind listener).toLists = e.toLists.add kind listener := by
  have hevents : ({ e with events := some (e.events.getD fun _ => .absent) } :
      EventEmitter α β).toLists = e.toLists := by
    cases h : e.events <;> simp [toLists, entry, h]
  unfold addListener ListenerLists.add
  rw [toLists_emit, hevents]

theorem toLists_perform (o : Op α β) : (e.perform o).toLists = e.toLists.perform o := by
  cases o with
  | addListener kind listener => exact e.toLists_addListener kind listener
  | once kind listener => exact toLists_addListener { e with made := e.made + 1 } kind _
  | removeListener kind listener => exact e.toLists_removeListener kind listener
  | removeAllListeners kind => exact e.toLists_removeAllListeners kind
  | listeners kind =>
    obtain ⟨hsame, hlist⟩ := e.toLists_listeners kind
    simp only [perform, ListenerLists.perform, toLists_observe, hsame, hlist]
  | emit kind values => exact e.toLists_emit kind _ _

theorem toLists_ret (stop : Bool) : (e.ret stop).toLists = e.toLists.ret stop := by
  unfold ret ListenerLists.ret
  cases h : e.frames with
  | nil => simp [toLists, h]
  | cons frame frames =>
    have hemissions : e.toLists.emissions = emission frame :: frames.map emission := by
      simp [toLists, h]
    rw [hemissions]
    dsimp only
    have hpop : ({ e with frames := frames } : EventEmitter α β).toLists =
        { e.toLists with emissions := frames.map emission } := rfl
    rw [← hpop]
    cases hh : frame.handler with
    | single =>
      cases hr : frame.current.result stop <;>
        simp [emission, hh, remaining, hr, toLists_finish]
    | loop list i =>
      cases hr : frame.current.result stop with
      | true => simp [emission, hh, hr, toLists_finish]
      | false =>
        cases hi : list[i + 1]? with
        | none =>
          have hdrop : list.drop (i + 1) = [] :=
            List.drop_eq_nil_of_le (List.getElem?_eq_none_iff.mp hi)
          simp [emission, hh, remaining, hr, hi, hdrop, toLists_finish]
        | some l =>
          have hdrop : list.drop (i + 1) = l :: list.drop (i + 2) :=
            List.drop_eq_getElem?_toList_append.trans (by simp [hi])
          simp [emission, hh, remaining, hr, hi, hdrop, toLists_call]

theorem toLists_step (a : Action α β) : (e.step a).toLists = e.toLists.step a := by
  cases a with
  | op o => exact e.toLists_perform o
  | ret stop => exact e.toLists_ret stop

@[simp]
theorem frames_removeListener (kind : Str) (listener : Listener α) :
    (e.removeListener kind listener).frames = e.frames := by
  unfold removeListener
  cases e.entry kind with
  | absent => rfl
  | single l => dsimp only; split_ifs <;> rfl
  | array list => rfl

theorem frames_enter (listener : Listener α) : (enter listener e).frames = e.frames := by
  induction listener generalizing e with
  | func f => rfl
  | callback id kind listener ih => exact (ih _).trans (e.frames_removeListener kind _)

theorem frames_call (frame : Frame α β) : (e.call frame).frames = frame :: e.frames :=
  frames_enter _ _

theorem emit_frames (kind : Str) (args : Args α β) (after : After α) :
    e.frames <:+ (e.emit kind args after).frames := by
  unfold emit
  split_ifs
  · exact List.suffix_rfl
  · cases e.entry kind with
    | absent => simp
    | single l => simp [frames_call]
    | array list => cases h : list[0]? <;> simp [h, frames_call]

theorem addListener_frames (kind : Str) (listener : Listener α) :
    e.frames <:+ (e.addListener kind listener).frames :=
  emit_frames { e with events := some (e.events.getD fun _ => .absent) } _ _ _

/-- No operation changes an `emit` that is under way. -/
theorem perform_frames (o : Op α β) : e.frames <:+ (e.perform o).frames := by
  cases o with
  | addListener kind listener => exact e.addListener_frames kind listener
  | once kind listener => exact addListener_frames { e with made := e.made + 1 } kind _
  | removeListener kind listener => simp [perform]
  | removeAllListeners kind => simp [perform]
  | listeners kind => simp [perform, observe]
  | emit kind values => exact e.emit_frames kind _ _

/-- The emitter behaves as a list of listeners for each event. In every run its observations
(which listeners are called with what, and the results of `emit` and `listeners`) are those of
the lists, its entries stand for the lists, and the listeners that an `emit` under way has still
to call are not changed by what is done meanwhile. -/
theorem refines_lists (events : Bool) (as : List (Action α β)) :
    let e := run step (init events) as
    e.toLists = run ListenerLists.step ListenerLists.init as ∧
    ∀ o, e.frames <:+ (e.perform o).frames := by
  intro e
  have hinit : (init events : EventEmitter α β).toLists = ListenerLists.init := by
    cases events <;> rfl
  refine ⟨?_, e.perform_frames⟩
  rw [← hinit]
  exact run_map toLists toLists_step _ as

end EventEmitter

end LuaNode
