import LuaNode.Library.Runs
import LuaNode.Library.Text

/-!
# The socket

A connected `net.Socket` without TLS of `net.lua`, over the native socket of `luanode_net.cpp`: the
queue of strings to write, and the ways in which the socket is closed. Code of the user runs
between the handlers of the event loop and in the listeners that a handler calls; where such a
handler has more to do after its listeners (`afterWrite`, that emits 'drain') it waits for them.
What comes from the operating system (the completion of a write, the errors) is given.
-/

namespace LuaNode.Net

/-- The native socket. -/
structure Native where
  /-- `m_pending_writes` -/
  pendingWrites : ℕ
  /-- `m_close_pending` -/
  closePending : Bool
  /-- `m_write_shutdown_pending` -/
  writeShutdownPending : Bool
  isOpen : Bool
  /-- the strings given to `async_write` -/
  started : List Str
  /-- those of them that have not completed -/
  outstanding : List Str
  completed : List Str
  /-- the calls of `HandleShutdownCallback` that are posted -/
  shutdowns : ℕ

namespace Native

variable (n : Native)

/-- `Write`; the answer tells that the write has begun. -/
def write (data : Str) : Bool × Native :=
  if n.pendingWrites > 0 then (false, n)
  else
    (true, { n with
      pendingWrites := n.pendingWrites + 1
      started := n.started ++ [data]
      outstanding := n.outstanding ++ [data] })

def close : Native :=
  if n.pendingWrites > 0 then { n with closePending := true } else { n with isOpen := false }

/-- `Shutdown` of "write", with the error of the system if it has to call it; it answers with the
error. -/
def shutdown (error : Option Str) : Option Str × Native :=
  if n.pendingWrites > 0 then
    (none, { n with writeShutdownPending := true, shutdowns := n.shutdowns + 1 })
  else
    match error with
    | none => (none, { n with shutdowns := n.shutdowns + 1 })
    | some message => (some message, n)

/-- The write at an index of those that are outstanding has completed: the beginning of
`HandleWrite`. -/
def complete (k : ℕ) (data : Str) : Native :=
  { n with
    pendingWrites := n.pendingWrites - 1
    outstanding := n.outstanding.eraseIdx k
    completed := n.completed ++ [data] }

def callCloseCallback : Native :=
  if n.pendingWrites = 0 then { n with closePending := false, isOpen := false } else n

end Native

/-- What is to be emitted in the next tick; the error of a lookup is emitted by `connect`, which
then destroys the socket. -/
inductive Posted
  | error (message : Str)
  | close (hadError : Bool)
  | lookup (message : Str)

/-- Who closes the handle: `destroySoon`, with what it leaves to `afterWrite`, or another. -/
inductive Cause
  | destroySoon
  | destroy
  deriving DecidableEq

structure Socket where
  native : Native
  /-- `_handle` is not nil -/
  handle : Bool
  writeQueue : List Str
  pendingWriteReqs : ℕ
  readable : Bool
  writable : Bool
  allowHalfOpen : Bool
  flagDestroySoon : Bool
  flagShutdown : Bool
  flagGotEof : Bool
  /-- `_handle.shutdown_callback` is set -/
  hasShutdownCallback : Bool
  destroyed : Bool
  errorEmitted : Bool
  posted : List Posted
  /-- the listeners of 'drain' run -/
  draining : Bool
  /-- the strings that `write` has taken -/
  written : List Str
  closedBy : Option Cause

namespace Socket

variable (s : Socket)

/-- `fireErrorCallbacks`. -/
def fireErrorCallbacks (error : Option Str) : Socket :=
  match error with
  | none => s
  | some message =>
    if s.errorEmitted then s
    else { s with posted := s.posted ++ [.error message], errorEmitted := true }

/-- `_destroy`, and `destroy`. -/
def destroy (error : Option Str) (cause : Cause) : Socket :=
  if s.destroyed then s.fireErrorCallbacks error
  else
    let s := { s with
      readable := false
      writable := false
      native := if s.handle then s.native.close else s.native
      handle := false }
    let s := s.fireErrorCallbacks error
    { s with
      posted := s.posted ++ [.close error.isSome]
      destroyed := true
      closedBy := some cause }

/-- `_write`, and its result, if it does not raise an error. -/
def write (data : Str) : Option Bool × Socket :=
  if ¬ s.handle then (none, s)
  else
    let r := s.native.write data
    if r.1 then
      -- `writeQueueSize` is always 0
      (some true, { s with native := r.2, pendingWriteReqs := s.pendingWriteReqs + 1 })
    else (some false, { s with native := r.2, writeQueue := s.writeQueue ++ [data] })

/-- `write` of a socket that is connected; the answer tells that it does not raise an error. -/
def userWrite (data : Str) : Bool × Socket :=
  match s.write data with
  | (none, s) => (false, s)
  | (some _, s) => (true, { s with written := s.written ++ [data] })

def destroySoon : Socket :=
  let s := { s with writable := false, flagDestroySoon := true }
  if s.pendingWriteReqs = 0 then s.destroy none .destroySoon else s

/-- `finish` after its string is written, with the error of the system for `shutdown`. -/
def shutdown (error : Option Str) : Socket :=
  if ¬ s.readable then s.destroySoon
  else
    let r := s.native.shutdown error
    let s := { s with flagShutdown := true, native := r.2 }
    match r.1 with
    | some message => s.destroy (some message) .destroy
    | none => { s with hasShutdownCallback := true }

def finish (data : Option Str) (error : Option Str) : Socket :=
  if ¬ s.writable then s
  else
    let s := { s with writable := false }
    match data with
    | none => s.shutdown error
    | some data =>
      match s.userWrite data with
      | (false, s) => s
      | (true, s) => s.shutdown error

/-- The callback that `finish` sets. -/
def shutdownCallback : Socket :=
  if ¬ s.hasShutdownCallback then s
  else if ¬ s.flagShutdown ∨ s.writable then s -- the assertions
  else if s.destroyed then s
  else if s.flagGotEof ∨ ¬ s.readable then s.destroy none .destroy
  else s

/-- The end of `HandleWrite` and of the handlers of a read. -/
def closeIfPending : Socket :=
  if s.native.closePending then { s with native := s.native.callCloseCallback } else s

/-- `HandleWrite` after its callback. -/
def handleWriteEnd : Socket :=
  if s.native.writeShutdownPending ∧ s.native.pendingWrites = 0 then
    s.shutdownCallback.closeIfPending
  else s.closeIfPending

/-- `afterWrite` after the listeners of 'drain'. -/
def afterDrain : Socket :=
  if s.pendingWriteReqs = 0 ∧ s.flagDestroySoon then s.destroy none .destroySoon else s

/-- `afterWrite` up to the listeners of 'drain', and the rest where it does not emit it. -/
def afterWrite (error : Option Str) : Socket :=
  if s.destroyed then s.handleWriteEnd
  else
    match error with
    | some message => (s.destroy (some message) .destroy).handleWriteEnd
    | none =>
      let s :=
        match s.writeQueue with
        | [] => s
        | data :: rest => ({ s with writeQueue := rest }.write data).2
      let s := { s with pendingWriteReqs := s.pendingWriteReqs - 1 }
      if s.pendingWriteReqs = 0 then { s with draining := true }
      else s.afterDrain.handleWriteEnd

def handleWrite (k : ℕ) (error : Option Str) : Socket :=
  match s.native.outstanding[k]? with
  | none => s
  | some data => { s with native := s.native.complete k data }.afterWrite error

/-- `onread` at the end of what is read, up to the listeners of 'end'. `_destroy` has taken the
callback away. -/
def onread : Socket :=
  if s.destroyed then s
  else
    let s := { s with readable := false }
    if s.flagGotEof then s -- the assertion
    else
      let s := { s with flagGotEof := true }
      let s := if s.writable then s else s.destroy none .destroy
      if s.allowHalfOpen then s else s.finish none none

/-- `HandleShutdownCallback`. -/
def handleShutdown : Socket :=
  if s.native.shutdowns = 0 then s
  else { s with native := { s.native with shutdowns := s.native.shutdowns - 1 } }.shutdownCallback

end Socket

/-- The calls of the user, and the handlers of the event loop. -/
inductive SocketEvent
  | write (data : Str)
  | finish (data : Option Str) (error : Option Str)
  | destroySoon
  | destroy (error : Option Str)
  /-- the listeners of 'drain' return, or one of them raises an error -/
  | drained (raised : Bool)
  | handleWrite (k : ℕ) (error : Option Str)
  | onread
  /-- the end of `HandleReadSome` -/
  | handleReadEnd
  | handleShutdown

namespace Socket

variable (s : Socket)

def step : SocketEvent → Socket
  | .write data => (s.userWrite data).2
  | .finish data error => s.finish data error
  | .destroySoon => s.destroySoon
  | .destroy error => s.destroy error .destroy
  | .drained raised =>
    if s.draining then
      let s := { s with draining := false }
      let s := if raised then s else s.afterDrain
      s.handleWriteEnd
    else s
  | .handleWrite k error => if s.draining then s else s.handleWrite k error
  | .onread => if s.draining then s else s.onread
  | .handleReadEnd => if s.draining then s else s.closeIfPending
  | .handleShutdown => if s.draining then s else s.handleShutdown

/-- A socket that is connected. What was written before is written now. -/
def connected (writable allowHalfOpen : Bool) : Socket :=
  { native := ⟨0, false, false, true, [], [], [], 0⟩
    handle := true
    writeQueue := []
    pendingWriteReqs := 0
    readable := true
    writable
    allowHalfOpen
    flagDestroySoon := false
    flagShutdown := false
    flagGotEof := false
    hasShutdownCallback := false
    destroyed := false
    errorEmitted := false
    posted := []
    draining := false
    written := []
    closedBy := none }

end Socket

/-! ### The queue -/

namespace Native

/-- The strings complete in the order in which they were given, one at a time. -/
structure Orderly (n : Native) : Prop where
  sent : n.completed ++ n.outstanding = n.started
  count : n.outstanding.length = n.pendingWrites
  one : n.pendingWrites ≤ 1
  closed : n.isOpen = false → n.pendingWrites = 0

variable {n : Native}

theorem write_of_pending (h : n.pendingWrites > 0) (data : Str) : n.write data = (false, n) :=
  if_pos h

theorem write_of_idle (h : n.pendingWrites = 0) (data : Str) :
    n.write data = (true, { n with
      pendingWrites := n.pendingWrites + 1
      started := n.started ++ [data]
      outstanding := n.outstanding ++ [data] }) :=
  if_neg (by omega)

theorem Orderly.write (h : n.Orderly) (hopen : n.isOpen = true) (data : Str) :
    (n.write data).2.Orderly := by
  rcases Nat.eq_zero_or_pos n.pendingWrites with hidle | hpending
  · rw [write_of_idle hidle]
    exact ⟨by simp [← h.sent], by simp [h.count], by simp [hidle],
      fun hclosed => by simp [hopen] at hclosed⟩
  · rw [write_of_pending hpending]
    exact h

theorem Orderly.close (h : n.Orderly) : n.close.Orderly := by
  unfold Native.close
  split_ifs with hpending
  · exact ⟨h.sent, h.count, h.one, h.closed⟩
  · exact ⟨h.sent, h.count, h.one, fun _ => by dsimp only; omega⟩

theorem Orderly.shutdown (h : n.Orderly) (error : Option Str) :
    (n.shutdown error).2.Orderly := by
  unfold Native.shutdown
  split_ifs
  · exact ⟨h.sent, h.count, h.one, h.closed⟩
  · cases error <;> exact ⟨h.sent, h.count, h.one, h.closed⟩

theorem Orderly.callCloseCallback (h : n.Orderly) : n.callCloseCallback.Orderly := by
  unfold Native.callCloseCallback
  split_ifs with hidle
  · exact ⟨h.sent, h.count, h.one, fun _ => hidle⟩
  · exact h

/-- The write that completes is the one that is outstanding. -/
theorem Orderly.complete (h : n.Orderly) {k : ℕ} {data : Str}
    (hk : n.outstanding[k]? = some data) :
    (n.complete k data).Orderly ∧ n.pendingWrites = 1 ∧ (n.complete k data).pendingWrites = 0 := by
  have hlength := h.count
  have hone := h.one
  have hlt := (List.getElem?_eq_some_iff.mp hk).1
  have hzero : k = 0 := by omega
  have hpending : n.pendingWrites = 1 := by omega
  obtain ⟨d, hd⟩ := List.length_eq_one_iff.mp (hlength.trans hpending)
  subst hzero
  have hdata : d = data := by simpa [hd] using hk
  subst hdata
  have hsent := h.sent
  rw [hd] at hsent
  exact ⟨⟨by simp [Native.complete, hd, hsent], by simp [Native.complete, hd, hpending],
    by simp [Native.complete, hpending], fun _ => by simp [Native.complete, hpending]⟩,
    hpending, by simp [Native.complete, hpending]⟩

@[simp]
theorem close_fields (n : Native) :
    n.close.started = n.started ∧ n.close.completed = n.completed := by
  unfold Native.close
  split_ifs <;> exact ⟨rfl, rfl⟩

@[simp]
theorem shutdown_fields (n : Native) (error : Option Str) :
    (n.shutdown error).2.started = n.started ∧
    (n.shutdown error).2.completed = n.completed ∧
    (n.shutdown error).2.pendingWrites = n.pendingWrites ∧
    (n.shutdown error).2.isOpen = n.isOpen ∧
    (n.shutdown error).2.closePending = n.closePending := by
  unfold Native.shutdown
  split_ifs
  · exact ⟨rfl, rfl, rfl, rfl, rfl⟩
  · cases error <;> exact ⟨rfl, rfl, rfl, rfl, rfl⟩

@[simp]
theorem callCloseCallback_fields (n : Native) :
    n.callCloseCallback.started = n.started ∧
    n.callCloseCallback.completed = n.completed ∧
    n.callCloseCallback.pendingWrites = n.pendingWrites := by
  unfold Native.callCloseCallback
  split_ifs <;> exact ⟨rfl, rfl, rfl⟩

end Native

namespace Socket

/-- What holds in every state, when `behind` writes have completed that `afterWrite` has not
counted: what was written and not given to the native socket is in the queue, and there is a write
under way while the queue is not empty. -/
structure Inv (behind : ℕ) (s : Socket) : Prop where
  native : s.native.Orderly
  fifo : s.native.started ++ s.writeQueue = s.written
  handle : s.handle = !s.destroyed
  opened : s.handle = true → s.native.isOpen = true ∧ s.native.closePending = false
  reqs : s.destroyed = false → s.pendingWriteReqs = s.native.pendingWrites + behind
  queue : s.destroyed = false → s.writeQueue ≠ [] → s.pendingWriteReqs = 1
  closed : s.closedBy ≠ none → s.destroyed = true
  soon : s.closedBy = some .destroySoon → s.native.completed = s.written

variable {s t : Socket} {behind : ℕ}

/-- What the invariant is about. -/
def account (s : Socket) : Native × Bool × List Str × ℕ × Bool × List Str × Option Cause :=
  (s.native, s.handle, s.writeQueue, s.pendingWriteReqs, s.destroyed, s.written, s.closedBy)

theorem Inv.congr (h : s.Inv behind) (ht : t.account = s.account) : t.Inv behind := by
  simp only [account, Prod.mk.injEq] at ht
  obtain ⟨hnative, hhandle, hqueue, hreqs, hdestroyed, hwritten, hclosed⟩ := ht
  constructor
  · rw [hnative]; exact h.native
  · rw [hnative, hqueue, hwritten]; exact h.fifo
  · rw [hhandle, hdestroyed]; exact h.handle
  · rw [hnative, hhandle]; exact h.opened
  · rw [hnative, hreqs, hdestroyed]; exact h.reqs
  · rw [hqueue, hreqs, hdestroyed]; exact h.queue
  · rw [hclosed, hdestroyed]; exact h.closed
  · rw [hnative, hclosed, hwritten]; exact h.soon

theorem connected_inv (writable allowHalfOpen : Bool) :
    (connected writable allowHalfOpen).Inv 0 := by
  refine ⟨⟨rfl, rfl, Nat.zero_le _, fun h => ?_⟩, rfl, rfl, fun _ => ⟨rfl, rfl⟩, fun _ => rfl,
    fun _ h => ?_, fun h => ?_, fun h => ?_⟩
  · cases h
  · exact absurd rfl h
  · exact absurd rfl h
  · cases h

theorem fireErrorCallbacks_eq (s : Socket) (error : Option Str) :
    ∃ posted emitted,
      s.fireErrorCallbacks error = { s with posted := posted, errorEmitted := emitted } := by
  unfold fireErrorCallbacks
  cases error with
  | none => exact ⟨_, _, rfl⟩
  | some message =>
    dsimp only
    split_ifs <;> exact ⟨_, _, rfl⟩

theorem destroy_eq (hdestroyed : s.destroyed = false) (error : Option Str) (cause : Cause) :
    ∃ posted emitted, s.destroy error cause = { s with
      readable := false
      writable := false
      native := if s.handle then s.native.close else s.native
      handle := false
      posted := posted
      errorEmitted := emitted
      destroyed := true
      closedBy := some cause } := by
  obtain ⟨posted, emitted, heq⟩ := fireErrorCallbacks_eq { s with
    readable := false
    writable := false
    native := if s.handle then s.native.close else s.native
    handle := false } error
  refine ⟨posted ++ [.close error.isSome], emitted, ?_⟩
  unfold destroy
  rw [if_neg (by simp [hdestroyed])]
  dsimp only at heq ⊢
  rw [heq]

/-- A socket that is destroyed stays as it is, but for the error. -/
theorem destroy_of_destroyed (hdestroyed : s.destroyed = true) (error : Option Str)
    (cause : Cause) : s.destroy error cause = s.fireErrorCallbacks error :=
  if_pos hdestroyed

/-- What `afterWrite` has not counted does not matter when the socket is destroyed. -/
theorem Inv.of_destroyed (h : s.Inv behind) (hdestroyed : s.destroyed = true) : s.Inv 0 :=
  ⟨h.native, h.fifo, h.handle, h.opened, fun hfalse => by simp [hdestroyed] at hfalse,
    fun hfalse => by simp [hdestroyed] at hfalse, h.closed, h.soon⟩

/-- `destroySoon` closes the handle when all the strings have completed. -/
theorem Inv.destroy (h : s.Inv behind) (error : Option Str) {cause : Cause}
    (hcause : s.destroyed = false → cause = .destroySoon → s.pendingWriteReqs = 0) :
    (s.destroy error cause).Inv 0 := by
  cases hdestroyed : s.destroyed with
  | true =>
    obtain ⟨posted, emitted, heq⟩ := s.fireErrorCallbacks_eq error
    rw [destroy_of_destroyed hdestroyed, heq]
    exact (h.of_destroyed hdestroyed).congr rfl
  | false =>
    have hhandle : s.handle = true := by simp [h.handle, hdestroyed]
    obtain ⟨posted, emitted, heq⟩ := destroy_eq hdestroyed error cause
    rw [heq, if_pos hhandle]
    refine ⟨h.native.close, ?_, rfl, fun hfalse => ?_, fun hfalse => ?_, fun hfalse => ?_,
      fun _ => rfl, fun hsoon => ?_⟩
    · simpa using h.fifo
    · cases hfalse
    · cases hfalse
    · cases hfalse
    · have hzero := hcause hdestroyed (Option.some.inj hsoon)
      have hreqs := h.reqs hdestroyed
      have hqueue : s.writeQueue = [] := by
        by_contra hne
        have hone := h.queue hdestroyed hne
        omega
      have hnone : s.native.outstanding = [] := by
        have hcount := h.native.count
        exact List.length_eq_zero_iff.mp (by omega)
      have hsent := h.native.sent
      have hfifo := h.fifo
      rw [hnone, List.append_nil] at hsent
      rw [hqueue, List.append_nil] at hfifo
      simp [hsent, hfifo]

/-- A string that is written is given to the native socket, or waits for the one under way. -/
theorem Inv.userWrite (h : s.Inv 0) (data : Str) : (s.userWrite data).2.Inv 0 := by
  unfold Socket.userWrite write
  cases hhandle : s.handle with
  | false => simpa [hhandle] using h
  | true =>
    have hdestroyed : s.destroyed = false := by simpa [hhandle] using h.handle
    have hreqs := h.reqs hdestroyed
    obtain ⟨hopen, hpend⟩ := h.opened hhandle
    have hwrite := h.native.write hopen data
    have hcause : s.closedBy = none := by
      by_contra hne
      simp [h.closed hne] at hdestroyed
    rcases Nat.eq_zero_or_pos s.native.pendingWrites with hidle | hpending
    · have hqueue : s.writeQueue = [] := by
        by_contra hne
        have hone := h.queue hdestroyed hne
        omega
      have hfifo := h.fifo
      rw [hqueue, List.append_nil] at hfifo
      simp only [Native.write_of_idle hidle, not_true_eq_false, if_false, if_true] at hwrite ⊢
      exact ⟨hwrite, by simp [hqueue, hfifo], by simp [hdestroyed], fun _ => ⟨hopen, hpend⟩,
        fun _ => by simp [hreqs], fun _ hne => absurd hqueue hne,
        fun hne => absurd hcause hne, fun hsome => by simp [hcause] at hsome⟩
    · have hone := h.native.one
      simp only [Native.write_of_pending hpending, not_true_eq_false, if_false] at hwrite ⊢
      refine ⟨hwrite, by simp [← h.fifo], by simp [hdestroyed], fun _ => ⟨hopen, hpend⟩, h.reqs,
        fun _ _ => ?_, fun hne => absurd hcause hne, fun hsome => by simp [hcause] at hsome⟩
      change s.pendingWriteReqs = 1
      omega

theorem Inv.destroySoon (h : s.Inv 0) : s.destroySoon.Inv 0 := by
  have hflags : ({ s with writable := false, flagDestroySoon := true } : Socket).Inv 0 :=
    h.congr rfl
  unfold Socket.destroySoon
  dsimp only
  split_ifs with hzero
  · exact hflags.destroy none fun _ _ => hzero
  · exact hflags

/-- A cause other than `destroySoon`. -/
theorem Inv.destroyed (h : s.Inv behind) (error : Option Str) :
    (s.destroy error .destroy).Inv 0 :=
  h.destroy error fun _ hne => absurd hne (by decide)

theorem Inv.shutdown (h : s.Inv 0) (error : Option Str) : (s.shutdown error).Inv 0 := by
  obtain ⟨hstarted, hcompleted, hpending, hopen, hclose⟩ := s.native.shutdown_fields error
  have hnative : ({ s with
      flagShutdown := true
      native := (s.native.shutdown error).2 } : Socket).Inv 0 :=
    ⟨h.native.shutdown error, by simpa [hstarted] using h.fifo, h.handle,
      by simpa [hopen, hclose] using h.opened, by simpa [hpending] using h.reqs, h.queue, h.closed,
      by simpa [hcompleted] using h.soon⟩
  unfold Socket.shutdown
  by_cases hreadable : s.readable = true
  · rw [if_neg (by simp [hreadable])]
    dsimp only
    cases (s.native.shutdown error).1 with
    | none => exact hnative.congr rfl
    | some message => exact hnative.destroyed _
  · rw [if_pos (by simp [hreadable])]
    exact h.destroySoon

theorem Inv.finish (h : s.Inv 0) (data error : Option Str) : (s.finish data error).Inv 0 := by
  have hnow : ({ s with writable := false } : Socket).Inv 0 := h.congr rfl
  unfold Socket.finish
  by_cases hwritable : s.writable = true
  · rw [if_neg (by simp [hwritable])]
    cases data with
    | none => exact hnow.shutdown error
    | some data =>
      have hwrite := hnow.userWrite data
      dsimp only
      split
      · next heq => rwa [heq] at hwrite
      · next heq =>
        rw [heq] at hwrite
        exact hwrite.shutdown error
  · rw [if_pos hwritable]
    exact h

theorem Inv.shutdownCallback (h : s.Inv 0) : s.shutdownCallback.Inv 0 := by
  unfold Socket.shutdownCallback
  repeat' split_ifs
  all_goals first | exact h | exact h.destroyed none

theorem Inv.closeIfPending (h : s.Inv 0) : s.closeIfPending.Inv 0 := by
  unfold Socket.closeIfPending
  split_ifs with hclose
  · obtain ⟨hstarted, hcompleted, hpending⟩ := s.native.callCloseCallback_fields
    have hhandle : s.handle = false := by
      by_contra hne
      have hopen := h.opened (by simpa using hne)
      simp [hclose] at hopen
    exact ⟨h.native.callCloseCallback, by simpa [hstarted] using h.fifo, h.handle,
      fun htrue => by simp [hhandle] at htrue, by simpa [hpending] using h.reqs, h.queue, h.closed,
      by simpa [hcompleted] using h.soon⟩
  · exact h

theorem Inv.handleWriteEnd (h : s.Inv 0) : s.handleWriteEnd.Inv 0 := by
  unfold Socket.handleWriteEnd
  split_ifs
  · exact h.shutdownCallback.closeIfPending
  · exact h.closeIfPending

theorem Inv.afterDrain (h : s.Inv 0) : s.afterDrain.Inv 0 := by
  unfold Socket.afterDrain
  split_ifs with hsoon
  · exact h.destroy none fun _ _ => hsoon.1
  · exact h

/-- `afterWrite` gives the native socket the next string. -/
theorem Inv.afterWrite (h : s.Inv 1) (hidle : s.native.pendingWrites = 0) (error : Option Str) :
    (s.afterWrite error).Inv 0 := by
  unfold Socket.afterWrite
  cases hdestroyed : s.destroyed with
  | true => exact (h.of_destroyed hdestroyed).handleWriteEnd
  | false =>
    cases error with
    | some message => exact (h.destroyed _).handleWriteEnd
    | none =>
      have hreqs : s.pendingWriteReqs = 1 := by
        have hcount := h.reqs hdestroyed
        omega
      have hhandle : s.handle = true := by simp [h.handle, hdestroyed]
      have hcause : s.closedBy = none := by
        by_contra hne
        simp [h.closed hne] at hdestroyed
      have hfifo := h.fifo
      cases hqueue : s.writeQueue with
      | nil =>
        rw [hqueue] at hfifo
        simp only [hreqs, Nat.sub_self, if_true]
        exact ⟨h.native, by simpa [hqueue] using hfifo, h.handle, h.opened, fun _ => hidle.symm,
          fun _ hne => absurd hqueue hne, h.closed, h.soon⟩
      | cons data rest =>
        rw [hqueue] at hfifo
        obtain ⟨hopen, hpend⟩ := h.opened hhandle
        have hwrite := h.native.write hopen data
        rw [Native.write_of_idle hidle] at hwrite
        have hnext : ({ s with
            native := { s.native with
              pendingWrites := s.native.pendingWrites + 1
              started := s.native.started ++ [data]
              outstanding := s.native.outstanding ++ [data] }
            writeQueue := rest } : Socket).Inv 0 :=
          ⟨hwrite, by simpa using hfifo, h.handle, fun _ => ⟨hopen, hpend⟩,
            fun _ => by simp [hreqs, hidle], fun _ _ => hreqs, h.closed,
            fun hsome => by simp [hcause] at hsome⟩
        simp only [write, hhandle, Native.write_of_idle hidle, hreqs, not_true_eq_false, if_false,
          if_true, Nat.add_sub_cancel, one_ne_zero]
        exact (hnext.congr (by simp [account, hreqs, hhandle, hdestroyed])).afterDrain.handleWriteEnd

theorem Inv.handleWrite (h : s.Inv 0) (k : ℕ) (error : Option Str) :
    (s.handleWrite k error).Inv 0 := by
  unfold Socket.handleWrite
  cases hk : s.native.outstanding[k]? with
  | none => exact h
  | some data =>
    obtain ⟨hnative, hone, hidle⟩ := h.native.complete hk
    have hcause : s.closedBy ≠ some .destroySoon := by
      intro hsoon
      -- everything has completed then
      have hall := h.soon hsoon
      have hsent := h.native.sent
      have hfifo := h.fifo
      have hcount := h.native.count
      rw [← hfifo, ← hsent, List.append_assoc] at hall
      have hnone := List.self_eq_append_right.mp hall
      simp [(List.append_eq_nil_iff.mp hnone).1, hone] at hcount
    have hcomplete : ({ s with native := s.native.complete k data } : Socket).Inv 1 :=
      ⟨hnative, h.fifo, h.handle, h.opened,
        fun hdestroyed => by rw [hidle]; exact (h.reqs hdestroyed).trans hone,
        h.queue, h.closed, fun hsoon => absurd hsoon hcause⟩
    exact hcomplete.afterWrite hidle error

theorem Inv.onread (h : s.Inv 0) : s.onread.Inv 0 := by
  have heof : ({ s with readable := false, flagGotEof := true } : Socket).Inv 0 := h.congr rfl
  have hfinish : ∀ {t : Socket}, t.Inv 0 →
      (if t.allowHalfOpen then t else t.finish none none).Inv 0 := by
    intro t ht
    split_ifs
    · exact ht
    · exact ht.finish none none
  unfold Socket.onread
  split
  · exact h
  · dsimp only
    split
    · exact h.congr rfl
    · refine hfinish ?_
      split
      · exact heof
      · exact heof.destroyed none

theorem Inv.handleShutdown (h : s.Inv 0) : s.handleShutdown.Inv 0 := by
  unfold Socket.handleShutdown
  split_ifs
  · exact h
  · refine Inv.shutdownCallback ⟨⟨h.native.sent, h.native.count, h.native.one, h.native.closed⟩,
      h.fifo, h.handle, h.opened, h.reqs, h.queue, h.closed, h.soon⟩

theorem Inv.step (h : s.Inv 0) (e : SocketEvent) : (s.step e).Inv 0 := by
  cases e <;> unfold Socket.step <;> dsimp only
  case write data => exact h.userWrite data
  case finish data error => exact h.finish data error
  case destroySoon => exact h.destroySoon
  case destroy error => exact h.destroyed error
  case drained raised =>
    have hnow : ({ s with draining := false } : Socket).Inv 0 := h.congr rfl
    split_ifs
    · exact hnow.handleWriteEnd
    · exact hnow.afterDrain.handleWriteEnd
    · exact h
  case handleWrite k error =>
    split_ifs
    · exact h
    · exact h.handleWrite k error
  case onread =>
    split_ifs
    · exact h
    · exact h.onread
  case handleReadEnd =>
    split_ifs
    · exact h
    · exact h.closeIfPending
  case handleShutdown =>
    split_ifs
    · exact h
    · exact h.handleShutdown

end Socket

end LuaNode.Net
