import LuaNode.Library.LinkedRing
import LuaNode.Loop.Interval

/-!
# Idle timeouts

`Enroll`, `Active` and `Unenroll` of `timers.lua`. The fields `_idleNext` and `_idlePrev` of the lists,
the wrappers and the items are links between them; a list is a Timer. An item without an `_onTimeout`
is as one whose handler returns at once. Beside the state there is a record of what the calls and the
timeouts make of the lists, without any links.
-/

namespace LuaNode

/-- A number of Lua that is not NaN. -/
class LuaNumber (τ : Type*) extends LinearOrder τ, Zero τ, Sub τ where
  /-- `lua_tointeger` -/
  toInteger : τ → ℤ

instance : LuaNumber ℤ where
  toInteger := id

/-- The items that wait. -/
structure IdleQueues (ι τ : Type*) where
  /-- the timeout with which an item is enrolled -/
  timeout : ι → Option τ
  /-- in order of last activity -/
  queue : τ → List ι

structure IdleWrapper (ι τ : Type*) where
  item : ι
  /-- `_idleTimeout` -/
  timeout : τ
  /-- `_idleStart` -/
  start : Option τ

inductive IdleNode (ι : Type*)
  | timer (n : ℕ)
  | wrapper (k : ℕ)
  | item (i : ι)
  deriving DecidableEq

/-- The upvalues and the time of a list's callback. -/
structure IdleCallback (τ : Type*) where
  list : ℕ
  msecs : τ
  now : τ

structure IdleTimers (ι τ : Type*) where
  links : Links (IdleNode ι)
  items : ι → Option ℕ
  created : ℕ
  wrappers : ℕ → Option (IdleWrapper ι τ)
  lists : τ → Option ℕ
  /-- what `msecs` is in the callback of a Timer -/
  callbacks : ℕ → Option τ
  loop : TimerLoop
  /-- the callback that has called the handler which runs -/
  handler : Option (IdleCallback τ)
  /-- an assertion has failed, or a field of nil was looked up -/
  failed : Bool
  calls : IdleQueues ι τ

/-- Calls of the functions, at the time `now`, and what happens in the event loop. -/
inductive IdleEvent (ι τ : Type*) [Zero τ] [LT τ]
  | enroll (i : ι) (msecs : { m : τ // 0 < m })
  | unenroll (i : ι)
  | active (i : ι) (now : τ)
  /-- a wait completes; only a cancelled one is aborted -/
  | completes (j : ℕ) (aborted : Bool) (now : τ)
  /-- the handler returns -/
  | returns
  | raises (text : Str)

namespace IdleQueues

variable {ι τ : Type*} [DecidableEq ι] (q : IdleQueues ι τ)

/-- An item does not wait any more. -/
def leave (i : ι) : IdleQueues ι τ :=
  { q with queue := fun m => (q.queue m).filter fun j => j ≠ i }

def unenroll (i : ι) : IdleQueues ι τ :=
  { q.leave i with timeout := Function.update q.timeout i none }

variable [DecidableEq τ]

def enroll (i : ι) (msecs : τ) : IdleQueues ι τ :=
  { q.leave i with timeout := Function.update q.timeout i (some msecs) }

def active (i : ι) : IdleQueues ι τ :=
  match q.timeout i with
  | none => q
  | some m =>
    let q := q.leave i
    { q with queue := Function.update q.queue m (q.queue m ++ [i]) }

end IdleQueues

namespace IdleTimers

variable {ι τ : Type*} [DecidableEq ι] [LuaNumber τ] (s : IdleTimers ι τ)

def fresh : IdleTimers ι τ where
  links := ⟨id, id⟩
  items _ := none
  created := 0
  wrappers _ := none
  lists _ := none
  callbacks _ := none
  loop := .fresh
  handler := none
  failed := false
  calls := ⟨fun _ => none, fun _ => []⟩

def fail : IdleTimers ι τ := { s with failed := true }

def setWrapper (k : ℕ) (w : IdleWrapper ι τ) : IdleTimers ι τ :=
  { s with wrappers := Function.update s.wrappers k (some w) }

/-- The most idle item. -/
def peek (n : ℕ) : Option (IdleNode ι) :=
  if s.links.prev (.timer n) = .timer n then none else some (s.links.prev (.timer n))

def remove (a : IdleNode ι) : IdleTimers ι τ := { s with links := s.links.unlink a }

def append (n : ℕ) (a : IdleNode ι) : IdleTimers ι τ :=
  { s with links := s.links.append (.timer n) a }

def stop (n : ℕ) : IdleTimers ι τ := { s with loop := s.loop.stop n }

def again (n : ℕ) (msecs : τ) : IdleTimers ι τ :=
  { s with loop := s.loop.again n [some (LuaNumber.toInteger msecs)] }

/-- `Timer()` and its callback, in `insert`. -/
def newList (msecs : τ) : IdleTimers ι τ :=
  let n := s.loop.created
  { s with
    loop := s.loop.make.setCallback n true
    links := (s.links.setNext (.timer n) (.timer n)).setPrev (.timer n) (.timer n)
    lists := Function.update s.lists msecs (some n)
    callbacks := Function.update s.callbacks n (some msecs) }

/-- The list of a timeout, in `insert`. -/
def listOf (msecs : τ) : IdleTimers ι τ × ℕ :=
  match s.lists msecs with
  | some n => (s, n)
  | none => (s.newList msecs, s.loop.created)

def insert (k : ℕ) (w : IdleWrapper ι τ) (msecs now : τ) : IdleTimers ι τ :=
  let s := s.setWrapper k { w with start := some now, timeout := msecs }
  if msecs < 0 then s
  else
    let n := (s.listOf msecs).2
    let s := (s.listOf msecs).1
    let s := if s.links.next (.timer n) = .timer n then s.again n msecs else s
    let s := s.append n (.wrapper k)
    if s.links.next (.timer n) = .timer n then s.fail else s

/-- `lists` may have no list for a timeout. -/
def stopIfEmpty (list : Option ℕ) : IdleTimers ι τ :=
  match list with
  | some n => if s.links.prev (.timer n) = .timer n then s.stop n else s
  | none => s

/-- `Timers.Unenroll`. -/
def unenroll (i : ι) : IdleTimers ι τ :=
  match s.items i with
  | none => s
  | some k =>
    let s := (s.remove (.wrapper k)).stopIfEmpty ((s.wrappers k).bind fun w => s.lists w.timeout)
    { s with items := Function.update s.items i none }

/-- `Timers.Enroll`. -/
def enroll (i : ι) (msecs : τ) : IdleTimers ι τ :=
  let s :=
    match (s.items i).bind s.wrappers with
    | some w => s.unenroll w.item
    | none => s
  let k := s.created
  let s := { s with created := k + 1, items := Function.update s.items i (some k) }
  let s := s.setWrapper k ⟨i, msecs, none⟩
  { s with links := (s.links.setNext (.wrapper k) (.item i)).setPrev (.wrapper k) (.item i) }

/-- The inline append of `Active`. -/
def appendAgain (n k : ℕ) : IdleTimers ι τ :=
  let l := s.links
  let l := l.setPrev (l.next (.wrapper k)) (l.prev (.wrapper k))
  let l := l.setNext (l.prev (.wrapper k)) (l.next (.wrapper k))
  let l := l.setNext (.wrapper k) (l.next (.timer n))
  let l := l.setPrev (l.next (.wrapper k)) (.wrapper k)
  let l := l.setPrev (.wrapper k) (.timer n)
  let l := l.setNext (.timer n) (.wrapper k)
  { s with links := l }

/-- `Timers.Active`. -/
def active (i : ι) (now : τ) : IdleTimers ι τ :=
  match s.items i with
  | none => s
  | some k =>
    match s.wrappers k with
    | none => s
    | some w =>
      if s.links.next (.wrapper k) = .item i then s.insert k w w.timeout now
      else
        match s.lists w.timeout with
        | none => s.fail
        | some n => (s.setWrapper k { w with start := some now }).appendAgain n k

def wrapperOf : IdleNode ι → Option (IdleWrapper ι τ)
  | .wrapper k => s.wrappers k
  | _ => none

/-- The callback ends. -/
def ends (outcome : TimerOutcome) : IdleTimers ι τ :=
  { s with loop := s.loop.ends outcome, handler := none }

/-- The loop in the callback of a list, up to the next call of a handler. -/
def expire (c : IdleCallback τ) : IdleTimers ι τ :=
  match s.peek c.list with
  | none =>
    if s.links.next (.timer c.list) = .timer c.list then (s.stop c.list).ends (.returns [])
    else s.fail
  | some first =>
    match s.wrapperOf first with
    | some ⟨item, _, some start⟩ =>
      let diff := c.now - start
      if diff < c.msecs then (s.again c.list (c.msecs - diff)).ends (.returns [])
      else
        let s := s.remove first
        if s.peek c.list = some first then s.fail
        else { s with handler := some c, calls := s.calls.leave item }
    | _ => s.fail

/-- A wait completes; the callback that is called was made with a list. -/
def completes (j : ℕ) (aborted : Bool) (now : τ) : IdleTimers ι τ :=
  if s.loop.running.isSome then s
  else
    let s := { s with loop := s.loop.completes j aborted }
    match s.loop.running with
    | some (_, .timer n) =>
      match s.callbacks n with
      | some msecs => s.expire ⟨n, msecs, now⟩
      | none => s
    | _ => s

def step (e : IdleEvent ι τ) : IdleTimers ι τ :=
  if s.failed then s
  else
    match e with
    | .enroll i msecs => { s.enroll i msecs with calls := s.calls.enroll i msecs }
    | .unenroll i => { s.unenroll i with calls := s.calls.unenroll i }
    | .active i now => { s.active i now with calls := s.calls.active i }
    | .completes j aborted now => s.completes j aborted now
    | .returns =>
      match s.handler with
      | some c => s.expire c
      | none => s
    | .raises text => if s.handler.isSome then s.ends (.raises text) else s

omit [LuaNumber τ] in
theorem appendAgain_eq (n k : ℕ) : s.appendAgain n k = (s.remove (.wrapper k)).append n (.wrapper k) := by
  have hnext (l : Links (IdleNode ι)) (a b : IdleNode ι) : (l.setNext a b).next a = b := by
    simp [Links.setNext]
  have hhead (l : Links (IdleNode ι)) (a h : IdleNode ι) :
      (l.setNext a (l.next h)).next h = l.next h := by
    simp [Links.setNext, Function.update_apply]
  simp only [appendAgain, append, remove, Links.append, Links.unlink, hnext, hhead]

end IdleTimers

end LuaNode
