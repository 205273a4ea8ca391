import LuaNode.Net.Socket
import Mathlib.Logic.Function.Basic

/-!
# A socket over its whole life

`net.Socket` of `net.lua` from its constructor, or from the `accept` of a server, through `connect`
with the lookup of a name, TLS, reading and closing, to the next `connect`. A socket may have a
native handle after another, and what was begun on one of them still completes when the socket has
the next, so the handles are numbered, and `_handle` is the number of one of them.

Code of the user runs between the handlers of the event loop and in the listeners that a handler
calls; where such a handler has more to do after its listeners it waits for them. Which callback
comes next, and what the operating system answers, is part of an event.
-/

namespace LuaNode.Net

/-- A native socket, of `luanode_net.cpp` or the `SecureSocket` of `luanode_crypto.cpp`, with the
fields that `net.lua` puts on it. -/
structure Handle where
  native : Native
  /-- a `SecureSocket` -/
  secure : Bool
  /-- the calls of `async_connect` that have not completed -/
  connects : ℕ
  handshakes : ℕ
  /-- the numbers of the reads that have not completed; their count is `m_pending_reads` -/
  reads : List ℕ
  readsBegun : ℕ
  /-- the reads whose string went to the listeners of 'data' -/
  delivered : List ℕ
  /-- the direction to the peer has been shut down -/
  sendShut : Bool
  /-- `read_callback` is `onread`, and not `noop` -/
  hasReadCallback : Bool
  hasConnectCallback : Bool
  hasShutdownCallback : Bool
  reading : Bool

namespace Handle

variable (x : Handle)

def new (secure hasReadCallback : Bool) : Handle where
  native := ⟨0, false, false, true, [], [], [], 0⟩
  secure
  connects := 0
  handshakes := 0
  reads := []
  readsBegun := 0
  delivered := []
  sendShut := false
  hasReadCallback
  hasConnectCallback := false
  hasShutdownCallback := false
  reading := false

/-- `reading = true` and `read`. -/
def read : Handle :=
  { x with
    reading := true
    reads := x.reads ++ [x.readsBegun]
    readsBegun := x.readsBegun + 1 }

/-- `shutdown` of "write", with the error of the system if it has to call it. That of a
`SecureSocket` only leaves a mark for `HandleWrite`. -/
def shutdown (error : Option Str) : Option Str × Handle :=
  if x.secure then
    (none, { x with native := { x.native with writeShutdownPending := true } })
  else
    let r := x.native.shutdown error
    (r.1, { x with
      native := r.2
      sendShut := x.sendShut || (r.1.isNone && x.native.pendingWrites = 0) })

/-- The end of `HandleWrite` and of `HandleReadSome`. -/
def closeIfPending : Handle :=
  if x.secure then
    if x.native.closePending ∧ x.native.pendingWrites = 0 ∧ x.reads = [] then
      { x with native := { x.native with isOpen := false } }
    else x
  else if x.native.closePending then { x with native := x.native.callCloseCallback }
  else x

end Handle

/-- `socket._flags`. -/
structure Flags where
  shutdownQueued : Bool := false
  shutdown : Bool := false
  gotEof : Bool := false
  destroySoon : Bool := false
  deriving DecidableEq

/-- A handler that waits for its listeners, with the handle on which it was called. -/
inductive Waiting
  /-- the callback of the acceptor: 'connection' and 'connect' -/
  | accept
  /-- `connect_callback`: 'connect' -/
  | connect (h : ℕ)
  /-- `afterWrite`: 'drain' -/
  | drain (h : ℕ)
  /-- `onread`: 'data', or 'end' -/
  | data (h : ℕ)
  | ended (h : ℕ)
  /-- `handshake_callback`: 'secure', with the number of `drainConnectQueue`s still to call -/
  | secure (h : ℕ) (rest : ℕ)
  /-- the callback of the next tick after a lookup has failed: 'error' -/
  | lookup
  deriving DecidableEq

/-- What raises an error in a handler: an assertion, or `drainConnectQueue`. -/
inductive Failure
  /-- `raw_socket == self._handle` -/
  | handle
  /-- `not self._flags["FLAG_GOT_EOF"]` -/
  | gotEof
  /-- `self._flags["FLAG_SHUTDOWN"]` and `not self.writable` -/
  | shutdown
  /-- there is no queue to drain, or no handle to write to -/
  | queue
  deriving DecidableEq

structure Connection where
  handles : ℕ → Handle
  /-- the number of handles made so far -/
  made : ℕ
  /-- the number of those made before the last call of `connect` -/
  base : ℕ
  /-- `_handle` -/
  handle : Option ℕ
  /-- `_connecting` -/
  connecting : Bool
  connectQueue : Option (List Str)
  writeQueue : List Str
  pendingWriteReqs : ℤ
  flags : Flags
  destroyed : Bool
  errorEmitted : Bool
  readable : Bool
  writable : Bool
  paused : Bool
  secure : Bool
  allowHalfOpen : Bool
  /-- the socket comes from a server -/
  server : Bool
  /-- the `drainConnectQueue`s that are listeners of 'secure' -/
  drains : ℕ
  /-- the number of calls of `connect` so far -/
  connects : ℕ
  /-- the calls of `connect` whose names are being looked up -/
  lookups : List ℕ
  posted : List Posted
  /-- what has been emitted of the callbacks posted -/
  emitted : List Posted
  waiting : Option Waiting
  failures : List Failure
  /-- the strings that `write` has taken since `connect` -/
  written : List Str
  /-- the strings given to a native handle since `connect` -/
  handed : List Str

namespace Connection

variable (s : Connection)

def onHandle (h : ℕ) (f : Handle → Handle) : Connection :=
  { s with handles := Function.update s.handles h (f (s.handles h)) }

def fail (failure : Failure) : Connection := { s with failures := s.failures ++ [failure] }

/-- `initSocketHandle`. -/
def initSocketHandle : Connection :=
  { s with
    pendingWriteReqs := 0
    flags := {}
    destroyed := false
    errorEmitted := false }

/-- `_handle = process.Socket(kind)` and `initSocketHandle`. -/
def makeHandle : Connection :=
  { s with
    handles := Function.update s.handles s.made (.new false true)
    made := s.made + 1
    handle := some s.made }.initSocketHandle

def connectQueueCleanUp : Connection := { s with connecting := false, connectQueue := none }

/-- `fireErrorCallbacks`. -/
def fireErrorCallbacks (error : Option Str) : Connection :=
  match error with
  | none => s
  | some message =>
    if s.errorEmitted then s
    else { s with posted := s.posted ++ [.error message], errorEmitted := true }

/-- `_handle:close()`, and `_handle` is gone. -/
def closeHandle : Connection :=
  match s.handle with
  | none => s
  | some h =>
    { s.onHandle h fun x => { x with native := x.native.close, hasReadCallback := false } with
      handle := none }

/-- `_destroy`, and `destroy`. -/
def destroy (error : Option Str) : Connection :=
  if s.destroyed then s.fireErrorCallbacks error
  else
    let s := { s.connectQueueCleanUp with readable := false, writable := false }
    let s := s.closeHandle.fireErrorCallbacks error
    { s with posted := s.posted ++ [.close error.isSome], destroyed := true }

/-- `_write`; without a handle it raises an error. -/
def rawWrite (data : Str) : Option Connection :=
  match s.handle with
  | none => none
  | some h =>
    let r := (s.handles h).native.write data
    if r.1 then
      some { s.onHandle h fun x => { x with native := r.2 } with
        pendingWriteReqs := s.pendingWriteReqs + 1
        handed := s.handed ++ [data] }
    else some { s with writeQueue := s.writeQueue ++ [data] }

/-- `write`. -/
def write (data : Str) : Option Connection :=
  if s.connecting then
    some { s with
      connectQueue := some (s.connectQueue.getD [] ++ [data])
      written := s.written ++ [data] }
  else (s.rawWrite data).map fun s => { s with written := s.written ++ [data] }

/-- The loop of `drainConnectQueue`. -/
def writeAll : List Str → Connection → Option Connection
  | [], s => some s
  | data :: rest, s => (s.rawWrite data).bind (writeAll rest)

/-- `drainConnectQueue`; it may raise an error. -/
def drainConnectQueue : Option Connection :=
  match s.connectQueue with
  | none => none
  | some queue => (writeAll queue s).map connectQueueCleanUp

def destroySoon : Connection :=
  let s := { s with writable := false, flags := { s.flags with destroySoon := true } }
  if s.pendingWriteReqs = 0 then s.destroy none else s

/-- `finish` after its string is written, with the error of the system for `shutdown`. -/
def shutdown (error : Option Str) : Connection :=
  if ¬ s.readable then s.destroySoon
  else
    let s := { s with flags := { s.flags with shutdown := true } }
    match s.handle with
    | none => s
    | some h =>
      let r := (s.handles h).shutdown error
      match r.1 with
      | some message => (s.onHandle h fun _ => r.2).destroy (some message)
      | none => s.onHandle h fun _ => { r.2 with hasShutdownCallback := true }

/-- `finish` while the socket is connecting. -/
def queueFinish (data : Option Str) : Connection :=
  if s.connecting ∧ ¬ s.flags.shutdownQueued then
    let s :=
      match data with
      | none => s
      | some data => (s.write data).getD s
    { s with writable := false, flags := { s.flags with shutdownQueued := true } }
  else s

def finish (data : Option Str) (error : Option Str) : Connection :=
  let s := s.queueFinish data
  if ¬ s.writable then s
  else
    let s := { s with writable := false }
    match data with
    | none => s.shutdown error
    | some data =>
      match s.write data with
      | none => s
      | some s => s.shutdown error

def pause : Connection := { s with paused := true }

/-- The test of `reading`, which the next read follows. -/
def readOnce (h : ℕ) : Connection :=
  if (s.handles h).reading then s else s.onHandle h Handle.read

def resume : Connection :=
  let s := { s with paused := false }
  match s.handle with
  | none => s
  | some h => if s.connecting then s else s.readOnce h

/-- `_handle:doHandShake()`. -/
def doHandShake : Connection :=
  match s.handle with
  | none => s
  | some h => s.onHandle h fun x => { x with handshakes := x.handshakes + 1 }

/-- `_checkForSecureHandshake`. -/
def checkForSecureHandshake : Connection := if ¬ s.writable then s else s.doHandShake

/-- `setSecure`. It raises an error without a handle, and where the constructor of `SecureSocket`
does not get a plain socket. -/
def setSecure : Connection :=
  match s.handle with
  | none => s
  | some h =>
    let s := { s with secure := true }
    if (s.handles h).secure then s
    else
      let s := { s with
        handles := Function.update s.handles s.made (.new true (s.handles h).hasReadCallback)
        made := s.made + 1
        handle := some s.made }
      if s.server then s else s.checkForSecureHandshake

/-- The local function `connect`, with the error of `bind` or of the call of `async_connect`. -/
def dial (error : Option Str) : Connection :=
  match error with
  | some message => s.destroy (some message)
  | none =>
    match s.handle with
    | none => s
    | some h => s.onHandle h fun x =>
      { x with connects := x.connects + 1, hasConnectCallback := true }

/-- `connect`, with a host or without. -/
def connect (host : Bool) (error : Option Str) : Connection :=
  let s := { s with
    connecting := true
    writable := true
    base := s.made
    connects := s.connects + 1
    written := []
    handed := [] }
  if host then { s with lookups := s.lookups ++ [s.connects] }
  else s.makeHandle.dial error

/-! ### The handlers of the event loop -/

/-- The answer to a lookup: an error, or an address, with the error that `dial` gets. -/
inductive Found
  | error (message : Str)
  | address (error : Option Str)

/-- The callback of `lookup`. -/
def lookup (found : Found) : Connection :=
  if ¬ s.connecting then s
  else
    match found with
    | .error message => { s with posted := s.posted ++ [.lookup message] }
    | .address error => (if s.handle.isNone then s.makeHandle else s).dial error

/-- `connect_callback` up to its `emit`, where the connection is made: the queue. -/
def connected : Connection :=
  let s := { s with readable := true }
  if s.connectQueue.isSome then
    if ¬ s.secure then s.drainConnectQueue.getD s else { s with drains := s.drains + 1 }
  else s

def connectCallback (h : ℕ) (error : Option Str) : Connection :=
  let s := s.onHandle h fun x => { x with hasConnectCallback := false }
  if s.destroyed then s
  else if s.handle ≠ some h then s.fail .handle
  else
    let s := { s with connecting := false }
    match error with
    | none => { s.connected with waiting := some (.connect h) }
    | some message => s.connectQueueCleanUp.destroy (some message)

/-- `HandleConnect`. -/
def handleConnect (h : ℕ) (error : Option Str) : Connection :=
  if (s.handles h).connects = 0 then s
  else
    let s := s.onHandle h fun x => { x with connects := x.connects - 1 }
    if (s.handles h).hasConnectCallback then s.connectCallback h error else s

/-- `connect_callback` after the listeners of 'connect', with the error that one of them raised and
the error of the system for `shutdown`. -/
def afterConnect (raised error : Option Str) : Connection :=
  match raised with
  | some message => s.destroy (some message)
  | none =>
    if s.flags.shutdownQueued then
      { s with
        flags := { s.flags with shutdownQueued := false }
        writable := true }.finish none error
    else if s.readable ∧ ¬ s.paused ∧ ¬ s.secure then s.resume
    else s

/-- The callback that `finish` sets. -/
def shutdownCallback (h : ℕ) : Connection :=
  if ¬ (s.handles h).hasShutdownCallback then s
  else if ¬ s.flags.shutdown ∨ s.writable then s.fail .shutdown
  else if s.destroyed then s
  else if s.flags.gotEof ∨ ¬ s.readable then s.destroy none
  else s

/-- `HandleShutdownCallback`. -/
def handleShutdown (h : ℕ) : Connection :=
  if (s.handles h).native.shutdowns = 0 then s
  else
    (s.onHandle h fun x =>
      { x with native := { x.native with shutdowns := x.native.shutdowns - 1 } }).shutdownCallback h

/-- The end of `HandleReadSome`, and of `HandleWrite` after the shutdown that was put off. -/
def closeIfPending (h : ℕ) : Connection := s.onHandle h Handle.closeIfPending

/-- `HandleWrite` after its callback; a `SecureSocket` has no callback of a shutdown. -/
def handleWriteEnd (h : ℕ) : Connection :=
  if (s.handles h).native.writeShutdownPending ∧ (s.handles h).native.pendingWrites = 0 then
    let s := s.onHandle h fun x => { x with sendShut := true }
    if (s.handles h).secure then s.closeIfPending h
    else (s.shutdownCallback h).closeIfPending h
  else s.closeIfPending h

/-- `afterWrite` after the listeners of 'drain'. -/
def afterDrain : Connection :=
  if s.pendingWriteReqs = 0 ∧ s.flags.destroySoon then s.destroy none else s

/-- `afterWrite` on handle `h` after its loop, up to the listeners of 'drain', and `HandleWrite` to
its end where it does not emit it. -/
def wrote (h : ℕ) : Connection :=
  let s := { s with pendingWriteReqs := s.pendingWriteReqs - 1 }
  if s.pendingWriteReqs = 0 then { s with waiting := some (.drain h) }
  else s.afterDrain.handleWriteEnd h

/-- `afterWrite` on handle `h`. Its loop does not get beyond the first string of the queue. -/
def afterWrite (h : ℕ) (error : Option Str) : Connection :=
  if s.destroyed then s.handleWriteEnd h
  else
    match error with
    | some message => (s.destroy (some message)).handleWriteEnd h
    | none =>
      match s.writeQueue with
      | [] => s.wrote h
      | data :: rest =>
        let s := { s with writeQueue := rest }
        match s.rawWrite data with
        | none => s.handleWriteEnd h
        | some s => s.wrote h

/-- `HandleWrite` for the write at an index of those that are outstanding. -/
def handleWrite (h k : ℕ) (error : Option Str) : Connection :=
  match (s.handles h).native.outstanding[k]? with
  | none => s
  | some data =>
    (s.onHandle h fun x => { x with native := x.native.complete k data }).afterWrite h error

/-- `onread` without a string, up to the listeners of 'end'. -/
def onEnd (h : ℕ) : Connection :=
  let s := { s with readable := false }
  if s.flags.gotEof then (s.fail .gotEof).closeIfPending h
  else
    let s := { s with flags := { s.flags with gotEof := true } }
    let s := if s.writable then s else s.destroy none
    let s := if s.allowHalfOpen then s else s.finish none none
    { s with waiting := some (.ended h) }

/-- `onread` with a string, that of read `n`, up to its listeners. -/
def onData (h n : ℕ) : Connection :=
  { s.onHandle h fun x => { x with reading := false, delivered := x.delivered ++ [n] } with
    waiting := some (.data h) }

/-- `onread` with a string after its listeners; `_dont_read` is never set. -/
def afterData : Connection :=
  if s.readable then
    match s.handle with
    | none => s
    | some h => s.readOnce h
  else s

/-- `HandleReadSome` for the read at an index of those that are outstanding, with a string that is
not empty or with the end. -/
def handleRead (h k : ℕ) (data : Bool) : Connection :=
  match (s.handles h).reads[k]? with
  | none => s
  | some n =>
    let s := s.onHandle h fun x => { x with reads := x.reads.eraseIdx k }
    if ¬ (s.handles h).hasReadCallback then s.closeIfPending h
    else if s.handle ≠ some h then (s.fail .handle).closeIfPending h
    else if data then s.onData h n
    else s.onEnd h

/-- `HandleHandshake`, up to the listeners of 'secure'; the callback does not look at the error. -/
def handleHandshake (h : ℕ) : Connection :=
  if (s.handles h).handshakes = 0 then s
  else
    { s.onHandle h fun x => { x with handshakes := x.handshakes - 1 } with
      waiting := some (.secure h s.drains) }

/-- The next callback that is posted. -/
def tick : Connection :=
  match s.posted with
  | [] => s
  | p :: rest =>
    let s := { s with posted := rest, emitted := s.emitted ++ [p] }
    match p with
    | .lookup _ => { s with waiting := some .lookup }
    | _ => s

/-- The callback of the acceptor after its listeners. -/
def afterAccept : Connection :=
  if s.destroyed then s else if s.secure then s.doHandShake else s.resume

/-- The listeners of 'secure' up to the next `drainConnectQueue`, and that; or the last of them. -/
def afterSecure (h : ℕ) : ℕ → Connection
  | 0 => s.resume
  | rest + 1 =>
    let s := { s with drains := s.drains - 1 }
    match s.drainConnectQueue with
    | none => s.fail .queue
    | some s => { s with waiting := some (.secure h rest) }

/-- The listeners return, or one of them raises an error; then the handler does not go on, but for
`connect_callback`. -/
def returned (raised error : Option Str) : Connection :=
  match s.waiting with
  | none => s
  | some w =>
    let s := { s with waiting := none }
    match w with
    | .accept => if raised.isSome then s else s.afterAccept
    | .connect _ => s.afterConnect raised error
    | .drain h => (if raised.isSome then s else s.afterDrain).handleWriteEnd h
    | .data h => (if raised.isSome then s else s.afterData).closeIfPending h
    | .ended h => s.closeIfPending h
    | .secure h rest => if raised.isSome then s else s.afterSecure h rest
    | .lookup => if raised.isSome then s else s.destroy none

end Connection

/-- The calls of the user, the handlers of the event loop, and the return of the listeners. -/
inductive ConnectionEvent
  | connect (host : Bool) (error : Option Str)
  | write (data : Str)
  | finish (data error : Option Str)
  | destroySoon
  | destroy (error : Option Str)
  | pause
  | resume
  /-- `socket.secure = true` -/
  | markSecure
  | setSecure
  | lookup (i : ℕ) (found : Connection.Found)
  | handleConnect (h : ℕ) (error : Option Str)
  | handleWrite (h k : ℕ) (error : Option Str)
  | handleRead (h k : ℕ) (data : Bool)
  | handleShutdown (h : ℕ)
  | handleHandshake (h : ℕ)
  | tick
  | returned (raised error : Option Str)

namespace Connection

variable (s : Connection)

/-- A call of the user. -/
def userStep : ConnectionEvent → Connection
  | .connect host error => s.connect host error
  | .write data => (s.write data).getD s
  | .finish data error => s.finish data error
  | .destroySoon => s.destroySoon
  | .destroy error => s.destroy error
  | .pause => s.pause
  | .resume => s.resume
  | .markSecure => { s with secure := true }
  | .setSecure => s.setSecure
  | .returned raised error => s.returned raised error
  | _ => s

/-- A handler that the event loop calls. -/
def loopStep : ConnectionEvent → Connection
  | .lookup i found =>
    if i ∈ s.lookups then { s with lookups := s.lookups.erase i }.lookup found else s
  | .handleConnect h error => s.handleConnect h error
  | .handleWrite h k error => s.handleWrite h k error
  | .handleRead h k data => s.handleRead h k data
  | .handleShutdown h => s.handleShutdown h
  | .handleHandshake h => s.handleHandshake h
  | .tick => s.tick
  | e => s.userStep e

def step (e : ConnectionEvent) : Connection :=
  if s.waiting.isSome then s.userStep e else s.loopStep e

/-- `Socket(options)`, and `secure` set by the user. -/
def fresh (allowHalfOpen secure : Bool) : Connection where
  handles := fun _ => .new false true
  made := 0
  base := 0
  handle := none
  connecting := false
  connectQueue := none
  writeQueue := []
  pendingWriteReqs := 0
  flags := {}
  destroyed := false
  errorEmitted := false
  readable := false
  writable := false
  paused := false
  secure
  allowHalfOpen
  server := false
  drains := 0
  connects := 0
  lookups := []
  posted := []
  emitted := []
  waiting := none
  failures := []
  written := []
  handed := []

/-- The socket that the callback of an acceptor makes. -/
def accepted (allowHalfOpen : Bool) : Connection :=
  { fresh allowHalfOpen false with
    made := 1
    handle := some 0
    readable := true
    writable := true
    server := true
    waiting := some .accept }

end Connection

end LuaNode.Net
