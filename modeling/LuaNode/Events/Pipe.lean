import LuaNode.Events.EventEmitter
import LuaNode.Library.ListTable

/-!
# Pipes

`Stream:pipe` of `stream.lua` on any number of streams, which are of a type `ι` and may be joined by any
pipes. Each event of a stream has a list of listeners, and an `emit` calls those that were in the list
when it began, so that emits are nested. The listeners of a pipe are given by its number. A listener of
'newListener' or 'pipe' does what it does after `pipe` has returned.
-/

namespace LuaNode

/-- The functions that `pipe` makes. -/
inductive PipeFunction
  | ondata
  | ondrain
  | onend
  | onclose
  | onerror
  | cleanup
  deriving DecidableEq

/-- A listener on a stream: a function of the user, or one that the pipe with a number has made. -/
inductive StreamFunction (α : Type*)
  | user (f : α)
  | pipe (k : ℕ) (f : PipeFunction)
  deriving DecidableEq

abbrev StreamListener (α : Type*) := Listener (StreamFunction α)

/-- The pipe that has made a listener. -/
def StreamListener.owner {α : Type*} : StreamListener α → Option ℕ
  | .func (.pipe k _) => some k
  | _ => none

structure StreamObject where
  readable : Bool
  writable : Bool
  /-- there is a method `pause` -/
  pause : Bool
  resume : Bool
  destroy : Bool
  /-- `_isStdio` -/
  isStdio : Bool

/-- The variables of `pipe`. -/
structure Pipe (ι : Type*) where
  source : ι
  dest : ι
  /-- `onend` and `onclose` are registered -/
  ends : Bool
  deriving DecidableEq

structure PipeProgress where
  /-- `did_onend` -/
  didOnend : Bool
  /-- the calls of `dest:finish()` and `dest:destroy()` -/
  finished : ℕ
  /-- `source:pause()` was called, and `source:resume()` was not since -/
  paused : Bool

/-- An `emit` that is under way. -/
structure StreamEmit (ι α : Type*) where
  stream : ι
  kind : Str
  /-- the listeners that are still to be called -/
  rest : List (StreamListener α)
  /-- the pipe whose `ondata` waits for `dest:write` -/
  writing : Option ℕ
  /-- the number of pipes when it began -/
  made : ℕ

structure Streams (ι α : Type*) where
  object : ι → StreamObject
  /-- the listeners for each event of each stream -/
  lists : ι × Str → List (StreamListener α)
  pipes : List (Pipe ι)
  progress : ℕ → PipeProgress
  emits : List (StreamEmit ι α)
  /-- the emits that have come to their end, with the number of pipes at their beginning -/
  emitted : List (ι × Str × ℕ)
  /-- what was added and removed so far -/
  ops : List (TableOp (ι × Str) (StreamListener α))

inductive StreamAction (ι α : Type*)
  /-- other code adds or removes a listener, changes an object or calls `resume` -/
  | addListener (i : ι) (kind : Str) (listener : StreamListener α)
  | removeListener (i : ι) (kind : Str) (listener : StreamListener α)
  | setObject (i : ι) (object : StreamObject)
  | resume (i : ι)
  /-- `finish` is false if that is what the options say -/
  | pipe (source dest : ι) (finish : Bool)
  /-- an error that is raised ends `depth` more of the emits that are under way -/
  | emit (i : ι) (kind : Str) (depth : ℕ)
  /-- the innermost `emit` calls its next listener, or ends -/
  | next (depth : ℕ)
  /-- `dest:write` returns `false`, or something else -/
  | written (full : Bool)
  /-- a listener of the user has raised an error, or returned `false` -/
  | abort (depth : ℕ)

namespace Pipe

variable {ι α : Type*} (p : Pipe ι)

/-- What `pipe` registers. -/
def registered (k : ℕ) : List ((ι × Str) × StreamListener α) :=
  [((p.source, "data".toList), .func (.pipe k .ondata)),
    ((p.dest, "drain".toList), .func (.pipe k .ondrain))] ++
  (if p.ends then
    [((p.source, "end".toList), .func (.pipe k .onend)),
      ((p.source, "close".toList), .func (.pipe k .onclose))]
  else []) ++
  [((p.source, "error".toList), .func (.pipe k .onerror)),
    ((p.dest, "error".toList), .func (.pipe k .onerror)),
    ((p.source, "end".toList), .func (.pipe k .cleanup)),
    ((p.source, "close".toList), .func (.pipe k .cleanup)),
    ((p.dest, "end".toList), .func (.pipe k .cleanup)),
    ((p.dest, "close".toList), .func (.pipe k .cleanup))]

/-- What `cleanup` removes. -/
def removed (k : ℕ) : List ((ι × Str) × StreamListener α) :=
  [((p.source, "data".toList), .func (.pipe k .ondata)),
    ((p.dest, "drain".toList), .func (.pipe k .ondrain)),
    ((p.source, "end".toList), .func (.pipe k .onend)),
    ((p.source, "close".toList), .func (.pipe k .onclose)),
    ((p.source, "error".toList), .func (.pipe k .onerror)),
    ((p.dest, "error".toList), .func (.pipe k .onerror)),
    ((p.source, "end".toList), .func (.pipe k .cleanup)),
    ((p.source, "close".toList), .func (.pipe k .cleanup)),
    ((p.dest, "end".toList), .func (.pipe k .cleanup)),
    ((p.dest, "close".toList), .func (.pipe k .cleanup))]

end Pipe

namespace Streams

variable {ι α : Type*} [DecidableEq ι] [DecidableEq α] (s : Streams ι α)

def init (object : ι → StreamObject) : Streams ι α where
  object
  lists _ := []
  pipes := []
  progress _ := ⟨false, 0, false⟩
  emits := []
  emitted := []
  ops := []

/-- Calls of `addListener` and `removeListener`. -/
def perform (ops : List (TableOp (ι × Str) (StreamListener α))) : Streams ι α :=
  { s with lists := TableOp.applyAll s.lists ops, ops := s.ops ++ ops }

def setProgress (k : ℕ) (progress : PipeProgress) : Streams ι α :=
  { s with progress := Function.update s.progress k progress }

/-- `i:resume()`: the pipes from this stream have not paused it any more. -/
def resume (i : ι) : Streams ι α :=
  { s with progress := fun k =>
      if (s.pipes[k]?.map Pipe.source) = some i then { s.progress k with paused := false }
      else s.progress k }

def pipe (source dest : ι) (finish : Bool) : Streams ι α :=
  let p : Pipe ι := ⟨source, dest, !(s.object dest).isStdio && finish⟩
  { s with pipes := s.pipes ++ [p] }.perform (TableOp.adds (p.registered s.pipes.length))

/-- An error ends emits, and is caught behind them. -/
def raise (depth : ℕ) : Streams ι α := { s with emits := s.emits.drop depth }

def ends (i : ι) (kind : Str) (made : ℕ) : Streams ι α :=
  { s with emitted := s.emitted ++ [(i, kind, made)] }

def emit (i : ι) (kind : Str) (depth : ℕ) : Streams ι α :=
  if kind = "error".toList ∧ s.lists (i, kind) = [] then (s.ends i kind s.pipes.length).raise depth
  else { s with emits := ⟨i, kind, s.lists (i, kind), none, s.pipes.length⟩ :: s.emits }

def cleanup (k : ℕ) (p : Pipe ι) : Streams ι α := s.perform (TableOp.removes (p.removed k))

/-- `ondata`, up to the return of `dest:write`. -/
def ondata (k : ℕ) (p : Pipe ι) : Streams ι α :=
  if (s.object p.dest).writable then
    { s with emits := s.emits.modifyHead fun e => { e with writing := some k } }
  else s

/-- `ondrain`; its argument is the emitter. -/
def ondrain (source : ι) : Streams ι α :=
  if (s.object source).readable ∧ (s.object source).resume then s.resume source else s

def onend (k : ℕ) : Streams ι α :=
  if (s.progress k).didOnend then s
  else s.setProgress k
    { s.progress k with didOnend := true, finished := (s.progress k).finished + 1 }

def onclose (k : ℕ) (p : Pipe ι) : Streams ι α :=
  if (s.progress k).didOnend then s
  else s.setProgress k
    { s.progress k with
      didOnend := true
      finished := (s.progress k).finished + if (s.object p.dest).destroy then 1 else 0 }

/-- `onerror` in an `emit`; its first argument is the emitter. It raises the error again when nobody
else listens. -/
def onerror (k : ℕ) (p : Pipe ι) (e : StreamEmit ι α) (depth : ℕ) : Streams ι α :=
  let s := s.cleanup k p
  if s.lists (e.stream, "error".toList) = [] then
    (s.ends e.stream e.kind e.made).raise (depth + 1)
  else s

/-- A listener is called in an `emit`; those of the user do what the actions that follow say. -/
def call (e : StreamEmit ι α) (depth : ℕ) : StreamListener α → Streams ι α
  | .func (.pipe k f) =>
    match s.pipes[k]? with
    | none => s
    | some p =>
      match f with
      | .ondata => s.ondata k p
      | .ondrain => s.ondrain e.stream
      | .onend => s.onend k
      | .onclose => s.onclose k p
      | .onerror => s.onerror k p e depth
      | .cleanup => s.cleanup k p
  | _ => s

def next (depth : ℕ) : Streams ι α :=
  match s.emits with
  | [] => s
  | e :: emits =>
    if e.writing.isSome then s
    else
      match e.rest with
      | [] => { s with emits }.ends e.stream e.kind e.made
      | l :: rest => { s with emits := { e with rest } :: emits }.call e depth l

/-- `ondata` after `dest:write`. -/
def written (full : Bool) : Streams ι α :=
  match s.emits with
  | [] => s
  | e :: emits =>
    match e.writing with
    | none => s
    | some k =>
      let s := { s with emits := { e with writing := none } :: emits }
      if full ∧ (s.object e.stream).pause then
        s.setProgress k { s.progress k with paused := true }
      else s

def step : StreamAction ι α → Streams ι α
  | .addListener i kind l => if l.owner = none then s.perform [.add (i, kind) l] else s
  | .removeListener i kind l => if l.owner = none then s.perform [.remove (i, kind) l] else s
  | .setObject i object => { s with object := Function.update s.object i object }
  | .resume i => s.resume i
  | .pipe source dest finish => s.pipe source dest finish
  | .emit i kind depth => s.emit i kind depth
  | .next depth => s.next depth
  | .written full => s.written full
  | .abort depth => s.raise (depth + 1)

/-- The list of an event changes as that of an emitter does. -/
theorem lists_append {β : Type*} (e : EventEmitter (StreamFunction α) β) (kind : Str)
    (l : StreamListener α) :
    (e.append kind l).toLists.lists = TableOp.apply e.toLists.lists (.add kind l) := by
  rw [EventEmitter.toLists_append]
  rfl

theorem lists_removeListener {β : Type*} (e : EventEmitter (StreamFunction α) β) (kind : Str)
    (l : StreamListener α) :
    (e.removeListener kind l).toLists.lists = TableOp.apply e.toLists.lists (.remove kind l) := by
  rw [EventEmitter.toLists_removeListener]
  rfl

end Streams

end LuaNode
