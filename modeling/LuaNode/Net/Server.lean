import LuaNode.Net.CloseOnce

/-!
# A server

`net.Server` of `net.lua` with its native acceptors, of `luanode_net_acceptor.cpp`, and the sockets
that it has accepted. A server may listen again after `close`, and an accept that was begun before
still completes then, so the acceptors are numbered, and `_handle` is the number of one of them. A
socket counts as a connection of the server until its `_destroy`, which is where 'close' is posted.

As for a socket, code of the user runs between the callbacks of the event loop and in the listeners
that a callback calls.
-/

namespace LuaNode.Net

/-- A callback posted for the next tick: what it emits. -/
inductive ServerTick
  | listening
  | error
  | close
  deriving DecidableEq

/-- A callback that waits for its listeners. -/
inductive ServerFrame
  /-- that of acceptor `a`: 'connection', and 'connect' on socket `i` -/
  | accepted (a i : ℕ)
  /-- that of acceptor `a`: 'error' -/
  | failed (a : ℕ)
  /-- one that has nothing to do afterwards -/
  | last
  deriving DecidableEq

structure Server where
  /-- the calls of `async_accept` of each acceptor that have not completed -/
  accepts : ℕ → ℕ
  /-- the number of acceptors made so far -/
  made : ℕ
  /-- `_handle` -/
  handle : Option ℕ
  /-- the tick that emits 'listening' has run since `_handle` was set -/
  listening : Bool
  /-- `close` has been called -/
  closed : Bool
  /-- the lookups that `listen` has begun -/
  lookups : ℕ
  posted : List ServerTick
  /-- what has been emitted of the callbacks posted -/
  emitted : List ServerTick
  /-- the timers that `EMFILE` has started -/
  retries : ℕ
  maxConnections : Option ℕ
  /-- `_connections` -/
  connections : ℤ
  allowHalfOpen : Bool
  sockets : List Connection
  frame : Option ServerFrame
  /-- a field of `_handle` was asked for while it was nil -/
  nilIndexed : Bool

/-- The truth of a number as a condition: 0 is true too. -/
def isTrue (_ : ℤ) : Bool := true

/-- What `lookup` and `_listen2` come to. -/
inductive ListenAnswer
  /-- no address -/
  | unknown
  /-- the acceptor cannot be bound -/
  | unbound
  /-- it cannot listen -/
  | refused
  | ok

/-- The codes of a failed accept that the callback knows, and the others. -/
inductive AcceptError
  | canceled
  | emfile
  | other (code : ℤ)

/-- How an accept completes. -/
inductive Accepted
  | peer
  /-- the peer has gone already, and has no endpoint any more -/
  | gone
  | error (code : AcceptError)

namespace Server

variable (s : Server)

/-- `_handle:accept()`, where `_handle` is acceptor `a`. -/
def accept (a : ℕ) : Server :=
  { s with accepts := Function.update s.accepts a (s.accepts a + 1) }

/-- `if self._handle then self._handle:accept() end`. -/
def acceptIfOpen : Server :=
  match s.handle with
  | none => s
  | some a => s.accept a

/-- `_handle:close()` and `_handle = nil`. What is outstanding on the acceptor still completes. -/
def closeHandle : Server := { s with handle := none, listening := false }

/-- `_emitCloseIfDrained`. -/
def emitCloseIfDrained : Server :=
  if s.handle.isSome || isTrue s.connections then s
  else { s with posted := s.posted ++ [.close] }

/-- `close`, which raises an error where the server does not run. -/
def close : Server :=
  if s.handle.isNone then s
  else { s.closeHandle with closed := true }.emitCloseIfDrained

/-- `_handle = createServerHandle(…)`. -/
def makeHandle : Server :=
  { s with
    accepts := Function.update s.accepts s.made 0
    made := s.made + 1
    handle := some s.made
    listening := false }

/-- `_listen2`; the answer tells whether `bind` and `listen` succeed. -/
def listen2 (answer : ListenAnswer) : Server :=
  match s.handle, answer with
  | none, .unbound => { s with posted := s.posted ++ [.error] }
  | none, .refused => { s.makeHandle.closeHandle with posted := s.posted ++ [.error] }
  | none, _ => { s.makeHandle with posted := s.posted ++ [.listening] }
  | some _, .refused => { s.closeHandle with posted := s.posted ++ [.error] }
  | some _, _ => { s with posted := s.posted ++ [.listening] }

/-- The callback of the lookup. -/
def lookup (answer : ListenAnswer) : Server :=
  match answer with
  | .unknown => { s with frame := some .last }
  | answer => s.listen2 answer

/-- The next callback that is posted. -/
def tick : Server :=
  match s.posted with
  | [] => s
  | p :: rest =>
    let s := { s with posted := rest, emitted := s.emitted ++ [p] }
    match p with
    | .listening =>
      match s.handle with
      | none => { s with nilIndexed := true }
      | some a => { s.accept a with listening := true, frame := some .last }
    | _ => { s with frame := some .last }

/-- `_connections >= maxConnections`. -/
def full : Bool :=
  match s.maxConnections with
  | none => false
  | some limit => (limit : ℤ) ≤ s.connections

/-- The callback of acceptor `a` with a peer, up to the listeners. -/
def onPeer (a : ℕ) : Server :=
  match s.handle with
  | none => { s with nilIndexed := true }
  | some h =>
    if s.full then s.accept h
    else
      { s with
        connections := s.connections + 1
        sockets := s.sockets ++ [.accepted s.allowHalfOpen]
        frame := some (.accepted a s.sockets.length) }

/-- The callback of acceptor `a` with an error, up to the listeners. -/
def onError (a : ℕ) : AcceptError → Server
  | .canceled => s
  | .emfile => { s with retries := s.retries + 1 }
  | .other _ => { s with frame := some (.failed a) }

/-- `HandleAccept`. -/
def handleAccept (a : ℕ) (result : Accepted) : Server :=
  if s.accepts a = 0 then s
  else
    let s := { s with accepts := Function.update s.accepts a (s.accepts a - 1) }
    match result with
    | .gone => s.accept a
    | .peer => s.onPeer a
    | .error code => s.onError a code

/-- The timer of `EMFILE`. -/
def retry : Server :=
  if s.retries = 0 then s else { s with retries := s.retries - 1 }.acceptIfOpen

/-- How often `_destroy` has closed a socket on the way from `c` to `c'`: each time it posts a
'close'. -/
def destroys (c c' : Connection) : ℤ :=
  (c'.told Posted.isClose : ℤ) - c.told Posted.isClose

/-- Socket `i` goes on by `f`; `_destroy` tells the server. -/
def onSocket (i : ℕ) (f : Connection → Connection) : Server :=
  match s.sockets[i]? with
  | none => s
  | some c =>
    let t := { s with
      sockets := s.sockets.set i (f c)
      connections := s.connections - destroys c (f c) }
    if destroys c (f c) = 0 then t else t.emitCloseIfDrained

/-- The listeners return, or one of them raises an error. -/
def returned (raised : Option Str) : Server :=
  match s.frame with
  | none => s
  | some frame =>
    let s := { s with frame := none }
    match frame with
    | .accepted _ i =>
      let s := s.onSocket i fun c => c.returned raised none
      if raised.isSome then s else s.acceptIfOpen
    | .failed _ => s
    | .last => s

end Server

/-- The calls of the user, the callbacks of the event loop, and the return of the listeners. -/
inductive ServerEvent
  | listen
  | close
  /-- something that happens to an accepted socket -/
  | socket (i : ℕ) (e : ConnectionEvent)
  | lookup (answer : ListenAnswer)
  | tick
  | handleAccept (a : ℕ) (result : Accepted)
  | retry
  | returned (raised : Option Str)

namespace Server

variable (s : Server)

/-- A call of the user, or the return of listeners. While a callback of the server waits, no socket
does but the one that is being accepted. -/
def userStep : ServerEvent → Server
  | .listen => { s with lookups := s.lookups + 1 }
  | .close => s.close
  | .socket i (.returned raised error) =>
    if s.frame.isSome then s else s.onSocket i fun c => c.userStep (.returned raised error)
  | .socket i e => s.onSocket i fun c => c.userStep e
  | .returned raised => s.returned raised
  | _ => s

/-- A callback that the event loop calls. -/
def loopStep : ServerEvent → Server
  | .lookup answer =>
    if s.lookups = 0 then s else { s with lookups := s.lookups - 1 }.lookup answer
  | .tick => s.tick
  | .handleAccept a result => s.handleAccept a result
  | .retry => s.retry
  | .socket i e => s.onSocket i fun c => c.loopStep e
  | e => s.userStep e

/-- A callback waits for its listeners. -/
def busy : Bool := s.frame.isSome || s.sockets.any fun c => c.waiting.isSome

def step (e : ServerEvent) : Server := if s.busy then s.userStep e else s.loopStep e

/-- `Server(options)`, with `maxConnections` set by the user. -/
def fresh (maxConnections : Option ℕ) (allowHalfOpen : Bool) : Server where
  accepts := fun _ => 0
  made := 0
  handle := none
  listening := false
  closed := false
  lookups := 0
  posted := []
  emitted := []
  retries := 0
  maxConnections
  connections := 0
  allowHalfOpen
  sockets := []
  frame := none
  nilIndexed := false

end Server

end LuaNode.Net
