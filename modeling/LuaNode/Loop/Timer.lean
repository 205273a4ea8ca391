import LuaNode.Http.ParserCallbacks
import LuaNode.Library.Runs
import Mathlib.Logic.Function.Basic

/-!
# The native timer

`Timer` of `luanode_timer.cpp`, and the functions of `timers.lua` that are built on it. A wait of the
event loop holds what its registry reference stands for, since `OnTimeout` looks for the callback
there. Cancelled waits stay: their completion may have been queued before. The stack is empty when
a handler begins, and an error of a callback is handled by a listener of 'unhandledError'.
-/

namespace LuaNode

/-- A Lua value: a Timer, or another one. -/
inductive TimerValue
  | timer (n : ℕ)
  | other (v : LuaValue)

structure NativeTimer where
  /-- the field `callback` holds a function -/
  callback : Bool
  /-- `m_after` -/
  after : ℤ
  /-- `m_repeats` -/
  repeats : Bool
  /-- there is an `m_timer` -/
  started : Bool
  deriving DecidableEq

structure Wait where
  owner : ℕ
  /-- the value of the registry reference -/
  reference : TimerValue
  after : ℤ
  cancelled : Bool

structure TimerLoop where
  created : ℕ
  timers : ℕ → NativeTimer
  waits : List Wait
  /-- the `OnTimeout` whose callback runs: its Timer, and the value at the index 1 -/
  running : Option (ℕ × TimerValue)
  /-- the callbacks that were called: the Timer that fired, and the value they were found in -/
  called : List (ℕ × TimerValue)
  /-- `lua_getfield` has raised an error, outside of a protected call -/
  panicked : Bool

/-- What a callback does; `text` is what the error handler makes of its error. -/
inductive TimerOutcome
  | returns (values : List TimerValue)
  | raises (text : Str)

inductive TimerEvent
  /-- `Timer()` -/
  | make
  /-- the field `callback` is set to a function, or to something else -/
  | setCallback (n : ℕ) (isFunction : Bool)
  /-- the arguments of `start` and `again` are numbers, or something else -/
  | start (n : ℕ) (after repeat_ : Option ℤ)
  | stop (n : ℕ)
  | again (n : ℕ) (args : List (Option ℤ))
  | setTimeout (isFunction : Bool) (after : Option ℤ)
  | clearTimeout (n : ℕ)
  | setInterval (isFunction : Bool) (repeat_ : Option ℤ)
  | clearInterval (n : ℕ)
  /-- a wait completes; only a cancelled one is aborted -/
  | completes (i : ℕ) (aborted : Bool)
  /-- the callback of `OnTimeout` ends -/
  | ends (outcome : TimerOutcome)

namespace TimerValue

def lua : TimerValue → LuaValue
  | timer _ => .userdata
  | other v => v

end TimerValue

/-- The stack after the call of the callback, with the value at the index 1. -/
def TimerOutcome.stack (v : TimerValue) : TimerOutcome → List TimerValue
  | returns values => values.reverse ++ [v]
  | raises text => [.other (.string text), v]

namespace TimerLoop

variable (s : TimerLoop)

def fresh : TimerLoop where
  created := 0
  timers _ := ⟨false, 0, false, false⟩
  waits := []
  running := none
  called := []
  panicked := false

def setTimer (n : ℕ) (t : NativeTimer) : TimerLoop :=
  { s with timers := Function.update s.timers n t }

/-- `Timer()`. -/
def make : TimerLoop :=
  { s with created := s.created + 1 }.setTimer s.created ⟨false, 0, false, false⟩

def setCallback (n : ℕ) (isFunction : Bool) : TimerLoop :=
  s.setTimer n { s.timers n with callback := isFunction }

def asyncWait (n : ℕ) (reference : TimerValue) : TimerLoop :=
  { s with waits := s.waits ++ [⟨n, reference, (s.timers n).after, false⟩] }

def cancel (n : ℕ) : TimerLoop :=
  { s with waits := s.waits.map fun w =>
      if w.owner = n then { w with cancelled := true } else w }

/-- `expires_from_now`, which cancels, and `async_wait`. -/
def expiresFromNow (n : ℕ) (reference : TimerValue) : TimerLoop :=
  (s.cancel n).asyncWait n reference

/-- `Start`; `luaL_checkinteger` and a second start raise errors. -/
def start (n : ℕ) (after repeat_ : Option ℤ) : TimerLoop :=
  match after with
  | none => s
  | some after =>
    let s := s.setTimer n { s.timers n with after }
    match repeat_ with
    | none => s
    | some repeat_ =>
      let s :=
        if repeat_ ≠ 0 then s.setTimer n { s.timers n with repeats := true } else s
      if (s.timers n).started then s
      else (s.setTimer n { s.timers n with started := true }).asyncWait n (.timer n)

def stop (n : ℕ) : TimerLoop :=
  if (s.timers n).started then s.cancel n else s

/-- `Again`. Without an `m_timer` it pushes a zero behind its arguments and starts. -/
def again (n : ℕ) (args : List (Option ℤ)) : TimerLoop :=
  if (s.timers n).started then
    let s := if (s.timers n).repeats then s else s.cancel n
    let s :=
      match args[0]?.join with
      | some after => s.setTimer n { s.timers n with after }
      | none => s
    s.expiresFromNow n (.timer n)
  else
    let args := args ++ [some 0]
    s.start n args[0]?.join args[1]?.join

/-- `Timers.setTimeout`; closures over the arguments are functions too. -/
def setTimeout (isFunction : Bool) (after : Option ℤ) : TimerLoop :=
  (s.make.setCallback s.created isFunction).start s.created (some (after.getD 1)) (some 0)

/-- `Timers.setInterval`. -/
def setInterval (isFunction : Bool) (repeat_ : Option ℤ) : TimerLoop :=
  (s.make.setCallback s.created isFunction).start s.created repeat_ (some (repeat_.getD 1))

/-- `Timers.clearInterval`, and `Timers.clearTimeout` of a Timer, which is not enrolled. -/
def clear (n : ℕ) : TimerLoop := (s.setCallback n false).stop n

/-- `lua_getfield` of `callback`: whether it is a function, or an error. -/
def callbackOf : TimerValue → Option Bool
  | .timer n => some (s.timers n).callback
  | .other v =>
    match v with
    | .table _ | .string _ | .userdata => some (v.field "callback".toList).isFunction
    | _ => none

/-- `OnTimeout` up to the callback. -/
def onTimeout (w : Wait) (aborted : Bool) : TimerLoop :=
  if aborted then s
  else
    match s.callbackOf w.reference with
    | some true =>
      { s with
        running := some (w.owner, w.reference)
        called := s.called ++ [(w.owner, w.reference)] }
    | some false => s.cancel w.owner
    | none => { s with panicked := true }

/-- `OnTimeout` after the callback: `luaL_ref` takes the value on the top of the stack. -/
def afterCallback (n : ℕ) (stack : List TimerValue) : TimerLoop :=
  let s := { s with running := none }
  if (s.timers n).repeats then s.expiresFromNow n (stack.headD (.other .nil)) else s

/-- A completion; the event loop runs one handler at a time. -/
def completes (i : ℕ) (aborted : Bool) : TimerLoop :=
  match s.running, s.waits[i]? with
  | none, some w =>
    if aborted = true ∧ w.cancelled = false then s
    else { s with waits := s.waits.eraseIdx i }.onTimeout w aborted
  | _, _ => s

def ends (outcome : TimerOutcome) : TimerLoop :=
  match s.running with
  | none => s
  | some f => s.afterCallback f.1 (outcome.stack f.2)

/-- A Timer that has been made. -/
def onTimer (n : ℕ) (t : TimerLoop) : TimerLoop := if n < s.created then t else s

def step (e : TimerEvent) : TimerLoop :=
  if s.panicked then s
  else
    match e with
    | .make => s.make
    | .setCallback n isFunction => s.onTimer n (s.setCallback n isFunction)
    | .start n after repeat_ => s.onTimer n (s.start n after repeat_)
    | .stop n => s.onTimer n (s.stop n)
    | .again n args => s.onTimer n (s.again n args)
    | .setTimeout isFunction after => s.setTimeout isFunction after
    | .setInterval isFunction repeat_ => s.setInterval isFunction repeat_
    | .clearTimeout n | .clearInterval n => s.onTimer n (s.clear n)
    | .completes i aborted => s.completes i aborted
    | .ends outcome => s.ends outcome

/-- The stack on which `OnTimeout` goes on is that of `CLuaRuntime::call`. -/
theorem stack_returns (g : Globals) (v : TimerValue) (values : List TimerValue) :
    ((TimerOutcome.returns values).stack v).map TimerValue.lua =
      g.call [.function, v.lua] 0 (.returns (values.map TimerValue.lua)) := by
  have hcall := g.call_eq [] [v.lua] .function (.returns (values.map TimerValue.lua))
  simp only [List.nil_append, List.length_nil] at hcall
  rw [hcall]
  simp [TimerOutcome.stack]

/-- So it is after an error that a listener handles, which is still on the stack. -/
theorem stack_raises (g : Globals) (v : TimerValue) (error : LuaValue)
    (hlistener : g.listener.isNil = false) :
    ((TimerOutcome.raises (g.stacktrace error)).stack v).map TimerValue.lua =
      g.call [.function, v.lua] 0 (.raises error) := by
  have hcall := g.call_eq [] [v.lua] .function (.raises error)
  simp only [List.nil_append, List.length_nil] at hcall
  rw [hcall]
  rcases g.onError_cases (g.handler error :: [v.lua]) with ⟨heq, -⟩ | ⟨-, -, htable⟩ |
    ⟨-, -, -, hnil⟩
  · rw [heq]
    rfl
  · have hnil : g.listener = .nil := by
      unfold Globals.listener
      cases hevents : g.events with
      | table entries =>
        rw [hevents] at htable
        exact absurd rfl htable
      | _ => rfl
    rw [hnil] at hlistener
    exact absurd hlistener nofun
  · exact absurd (hlistener.symm.trans hnil) nofun

end TimerLoop

end LuaNode
