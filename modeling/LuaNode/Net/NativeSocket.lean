import LuaNode.Library.Runs
import Mathlib.Data.List.Basic

/-!
# The two native sockets

`Socket` of `luanode_net.cpp` and `SecureSocket` of `luanode_crypto.cpp`, as far as they count their
reads and writes, put off a shutdown or a close until no write is pending, and call back. A handler
that calls a callback waits until it returns, and the callback may begin reads and writes, shut down
and close. What is outstanding, and what the system answers, is part of an event. The callbacks are set
and return nothing, as those of `net.lua` do, and the system carries out what was put off.
-/

namespace LuaNode.Net

inductive NativeClass
  | plain
  | secure
  deriving DecidableEq

/-- What `Read` is asked for: something, a delimiter, or a size or everything. -/
inductive ReadKind
  | some
  | until
  | size
  deriving DecidableEq

/-- The argument of `Shutdown`. -/
inductive ShutdownOption
  | read
  | write
  | both
  | noOption
  | absent
  deriving DecidableEq

/-- A handler whose callback runs. -/
inductive NativeHandler
  /-- `HandleWrite`: `write_callback` -/
  | write
  /-- `HandleWrite`: `shutdown_callback` -/
  | delayed
  /-- the handlers of a read -/
  | read
  /-- `HandleShutdownCallback` -/
  | shutdown
  deriving DecidableEq

structure NativeSocket where
  kind : NativeClass
  /-- `m_pending_reads` -/
  pendingReads : ℕ
  /-- `m_pending_writes` -/
  pendingWrites : ℕ
  /-- the reads that have been begun and have not completed -/
  reads : List ReadKind
  /-- `m_close_pending` -/
  closePending : Bool
  /-- `m_write_shutdown_pending`, or `m_shutdown_pending` of a `SecureSocket` -/
  shutdownPending : Bool
  /-- `m_shutdown_send` of a `SecureSocket` -/
  shutdownSend : Bool
  isOpen : Bool
  sendShut : Bool
  receiveShut : Bool
  /-- the calls of `HandleShutdownCallback` that are posted -/
  posted : ℕ
  /-- the calls of `shutdown_callback` so far -/
  called : ℕ
  handler : Option NativeHandler

inductive NativeEvent
  | read (kind : ReadKind)
  | write
  /-- `Shutdown`; the system may fail to shut down either side -/
  | shutdown (option : ShutdownOption) (sendFails receiveFails : Bool)
  | close
  /-- a read of this kind completes, successfully or not -/
  | readDone (kind : ReadKind) (ok : Bool)
  | writeDone
  /-- a posted `HandleShutdownCallback` runs -/
  | posted
  /-- the callback returns -/
  | returned
  deriving DecidableEq

namespace NativeSocket

variable (s : NativeSocket)

def fresh (kind : NativeClass) : NativeSocket where
  kind
  pendingReads := 0
  pendingWrites := 0
  reads := []
  closePending := false
  shutdownPending := false
  shutdownSend := false
  isOpen := true
  sendShut := false
  receiveShut := false
  posted := 0
  called := 0
  handler := none

/-- `Read`. That of a `SecureSocket` counts a read of a size, and does not begin it. -/
def read (kind : ReadKind) : NativeSocket :=
  { s with
    pendingReads := s.pendingReads + 1
    reads := if s.kind = .secure ∧ kind = .size then s.reads else s.reads ++ [kind] }

def write : NativeSocket :=
  if s.pendingWrites > 0 then s else { s with pendingWrites := s.pendingWrites + 1 }

/-- The send side in `Socket::Shutdown`, and whether the system has failed. -/
def shutdownSendSide (fails : Bool) : NativeSocket × Bool :=
  if s.pendingWrites > 0 then ({ s with shutdownPending := true }, false)
  else ({ s with sendShut := s.sendShut || !fails }, fails)

def shutdownReceiveSide (fails : Bool) : NativeSocket × Bool :=
  ({ s with receiveShut := s.receiveShut || !fails }, fails)

/-- `Socket::Shutdown` up to its test of the error; that of the receive side replaces that of the
send side. -/
def shutdownSides (option : ShutdownOption) (sendFails receiveFails : Bool) :
    NativeSocket × Bool :=
  match option with
  | .read => s.shutdownReceiveSide receiveFails
  | .write => s.shutdownSendSide sendFails
  | .both | .absent => (s.shutdownSendSide sendFails).1.shutdownReceiveSide receiveFails
  | .noOption => (s, false)

/-- `Shutdown`, and whether it reports success. That of a `SecureSocket` needs a string. -/
def shutdown (option : ShutdownOption) (sendFails receiveFails : Bool) : NativeSocket × Bool :=
  match s.kind with
  | .plain =>
    let r := s.shutdownSides option sendFails receiveFails
    if r.2 then (r.1, false) else ({ r.1 with posted := r.1.posted + 1 }, true)
  | .secure =>
    let s := { s with shutdownPending := true }
    match option with
    | .write => ({ s with shutdownSend := true }, true)
    | .absent => (s, false)
    | _ => (s, true)

/-- The socket is closed now. -/
def closeNow : NativeSocket :=
  match s.kind with
  | .plain => { s with isOpen := false, sendShut := true, receiveShut := true }
  | .secure => { s with isOpen := false }

def close : NativeSocket :=
  if s.pendingWrites > 0 then { s with closePending := true } else s.closeNow

/-- The end of the handlers: `CallCloseCallback`, or what a `SecureSocket` does. -/
def closeIfPending : NativeSocket :=
  match s.kind with
  | .plain =>
    if s.closePending ∧ s.pendingWrites = 0 then { s with closePending := false }.closeNow else s
  | .secure =>
    if s.closePending ∧ s.pendingWrites = 0 ∧ s.pendingReads = 0 then s.closeNow else s

/-- The handler of a read, up to its callback. `HandleRead` of a `SecureSocket` leaves after an error
when a shutdown is pending. -/
def readDone (kind : ReadKind) (ok : Bool) : NativeSocket :=
  if kind ∈ s.reads then
    let s := { s with pendingReads := s.pendingReads - 1, reads := s.reads.erase kind }
    if s.kind = .secure ∧ kind = .until ∧ ok = false ∧ s.shutdownPending then s
    else { s with handler := some .read }
  else s

/-- `HandleWrite` up to `write_callback`. -/
def writeDone : NativeSocket :=
  if s.pendingWrites = 0 then s
  else { s with pendingWrites := s.pendingWrites - 1, handler := some .write }

/-- `HandleWrite` after `write_callback`. -/
def written : NativeSocket :=
  match s.kind with
  | .plain =>
    if s.shutdownPending ∧ s.pendingWrites = 0 then
      { s with sendShut := true, called := s.called + 1, handler := some .delayed }
    else s.closeIfPending
  | .secure =>
    (if s.pendingWrites = 0 ∧ s.shutdownPending then
      if s.shutdownSend then { s with sendShut := true } else { s with receiveShut := true }
    else s).closeIfPending

/-- `HandleShutdownCallback`. -/
def handleShutdown : NativeSocket :=
  if s.posted = 0 then s
  else { s with posted := s.posted - 1, called := s.called + 1, handler := some .shutdown }

/-- The callback of the handler returns. -/
def returned : NativeSocket :=
  match s.handler with
  | none => s
  | some handler =>
    let s := { s with handler := none }
    match handler with
    | .write => s.written
    | .delayed | .read => s.closeIfPending
    | .shutdown => s

/-- A call of the user, or the return of a callback. -/
def userStep : NativeEvent → NativeSocket
  | .read kind => s.read kind
  | .write => s.write
  | .shutdown option sendFails receiveFails => (s.shutdown option sendFails receiveFails).1
  | .close => s.close
  | .returned => s.returned
  | _ => s

/-- A handler that the event loop calls. -/
def loopStep : NativeEvent → NativeSocket
  | .readDone kind ok => s.readDone kind ok
  | .writeDone => s.writeDone
  | .posted => s.handleShutdown
  | e => s.userStep e

def step (e : NativeEvent) : NativeSocket :=
  if s.handler.isSome then s.userStep e else s.loopStep e

end NativeSocket

end LuaNode.Net
