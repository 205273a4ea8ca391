import LuaNode.Net.HandleTable
import Mathlib.Logic.Relation

/-!
# What a step of a socket can do

A step begins with at most one thing that concerns the strings, or that ends the connection at once
(`Begins`). What follows is a sequence of quiet moves, which take no string and give none to a handle,
and which close the handle only where the code has made sure of something first. An invariant is
proved of these, and not of every function; `connect` stands apart.
-/

namespace LuaNode.Net

def ConnectionEvent.isConnect : ConnectionEvent → Bool
  | .connect _ _ => true
  | _ => false

/-- A handler that the event loop calls. -/
def ConnectionEvent.isLoop : ConnectionEvent → Bool
  | .lookup _ _ | .handleConnect _ _ | .handleWrite _ _ _ | .handleRead _ _ _ | .handleShutdown _
  | .handleHandshake _ | .tick => true
  | _ => false

namespace Connection

variable {s t u : Connection}

/-- The read at an index of those that are outstanding has completed. -/
def takeRead (s : Connection) (h k : ℕ) : Connection :=
  s.onHandle h fun x => { x with reads := x.reads.eraseIdx k }

/-- The beginning of `onread` at the end of what is read. -/
def atEof (s : Connection) (h k : ℕ) : Connection :=
  { s.takeRead h k with readable := false, flags := { s.flags with gotEof := true } }

/-- The loop of `afterWrite`. -/
def advance (s : Connection) : Connection :=
  match s.writeQueue with
  | [] => s
  | data :: rest =>
    let s := { s with writeQueue := rest }
    (s.rawWrite data).getD s

inductive Quiet (s : Connection) : Connection → Prop
  | unpause : Quiet s { s with paused := false }
  | read {h : ℕ} (handle : s.handle = some h) (connected : s.connecting = false)
      (idle : (s.handles h).reading = false) (flowing : s.paused = false) : Quiet s (s.onHandle h Handle.read)
  | secure : Quiet s { s with secure := true }
  | shut : Quiet s { s with writable := false }
  | finishLater (connecting : s.connecting = true) :
      Quiet s { s with writable := false, flags := { s.flags with shutdownQueued := true } }
  | soon : Quiet s { s with writable := false, flags := { s.flags with destroySoon := true } }
  | shutdown (readable : s.readable = true) (writable : s.writable = true)
      (queued : s.connecting = true → s.flags.shutdownQueued = true) :
      Quiet s { s with writable := false, flags := { s.flags with shutdown := true } }
  | shutdownHandle {h : ℕ} {error : Option Str} (handle : s.handle = some h)
      (flag : s.flags.shutdown = true) (done : ((s.handles h).shutdown error).1 = none) :
      Quiet s (s.onHandle h fun x => { (x.shutdown error).2 with hasShutdownCallback := true })
  | shutdownFailed {h : ℕ} {error : Option Str} {message : Str} (handle : s.handle = some h)
      (flag : s.flags.shutdown = true) (failed : ((s.handles h).shutdown error).1 = some message) :
      Quiet s ((s.onHandle h fun x => (x.shutdown error).2).destroy (some message))
  | destroyIdle (idle : s.pendingWriteReqs = 0) : Quiet s (s.destroy none)
  | destroyShut (flag : s.flags.shutdown = true) (ended : s.flags.gotEof = true ∨ s.readable = false) :
      Quiet s (s.destroy none)
  | fail {failure : Failure} (other : failure ≠ .gotEof) : Quiet s (s.fail failure)
  | wait {w : Option Waiting} (secure : ∀ h rest, w = some (.secure h rest) → rest ≤ s.drains)
      (connect : ∀ h, w = some (.connect h) → s.handle = some h ∧ s.connecting = false)
      (data : ∀ h, w ≠ some (.data h))
      (lookup : w = some .lookup → ∃ message, Posted.lookup message ∈ s.emitted) :
      Quiet s { s with waiting := w }
  | emit {p : Posted} {rest : List Posted} (posted : s.posted = p :: rest) :
      Quiet s { s with posted := rest, emitted := s.emitted ++ [p] }
  | dropRead {h k n : ℕ} (taken : (s.handles h).reads[k]? = some n)
      (deaf : (s.handles h).hasReadCallback = false ∨ s.handle ≠ some h) : Quiet s (s.takeRead h k)
  | data {h k n : ℕ} (taken : (s.handles h).reads[k]? = some n) (handle : s.handle = some h)
      (callback : (s.handles h).hasReadCallback = true) : Quiet s ((s.takeRead h k).onData h n)
  | eof {h k n : ℕ} (taken : (s.handles h).reads[k]? = some n) (handle : s.handle = some h)
      (first : s.flags.gotEof = false) (writable : s.writable = true) : Quiet s (s.atEof h k)
  | eofAgain {h k n : ℕ} (taken : (s.handles h).reads[k]? = some n) (handle : s.handle = some h)
      (again : s.flags.gotEof = true) :
      Quiet s (({ s.takeRead h k with readable := false } : Connection).fail .gotEof)
  | closePending (h : ℕ) : Quiet s (s.closeIfPending h)
  | sendShut {h : ℕ} (pending : (s.handles h).native.writeShutdownPending = true)
      (idle : (s.handles h).native.pendingWrites = 0) :
      Quiet s (s.onHandle h fun x => { x with sendShut := true })
  | shutdownDone {h : ℕ} (posted : (s.handles h).native.shutdowns ≠ 0) :
      Quiet s (s.onHandle h fun x =>
        { x with native := { x.native with shutdowns := x.native.shutdowns - 1 } })
  | handshake {h : ℕ} (handle : s.handle = some h) :
      Quiet s (s.onHandle h fun x => { x with handshakes := x.handshakes + 1 })
  | handshakeDone {h : ℕ} (begun : (s.handles h).handshakes ≠ 0) :
      Quiet s (s.onHandle h fun x => { x with handshakes := x.handshakes - 1 })
  | dialed {h : ℕ} (begun : (s.handles h).connects ≠ 0)
      (deaf : (s.handles h).hasConnectCallback = false ∨ s.destroyed = true ∨ s.handle ≠ some h) :
      Quiet s (s.onHandle h fun x => { x with connects := x.connects - 1 })
  | called {h : ℕ} (callback : (s.handles h).hasConnectCallback = true)
      (deaf : s.destroyed = true ∨ s.handle ≠ some h) :
      Quiet s (s.onHandle h fun x => { x with hasConnectCallback := false })
  | lookedUp (i : ℕ) (idle : s.connecting = false) : Quiet s { s with lookups := s.lookups.erase i }

abbrev Quiets : Connection → Connection → Prop := Relation.ReflTransGen Quiet

/-- What every quiet move preserves, a sequence of them preserves. -/
theorem Quiets.invariant {I : Connection → Prop} (hmove : ∀ {s t}, I s → Quiet s t → I t)
    (hs : I s) (hq : Quiets s t) : I t := by
  induction hq with
  | refl => exact hs
  | tail _ hlast ih => exact hmove ih hlast

/-- An event in which `write` is called with a string. -/
def Asks (s : Connection) (data : Str) : ConnectionEvent → Prop
  | .write d => d = data
  | .finish (some d) _ =>
    d = data ∧ ((s.connecting = true ∧ s.flags.shutdownQueued = false) ∨ s.writable = true)
  | _ => False

/-- A connection is made, or is not: the call has completed, and so has its callback begun. -/
def takeConnect (s : Connection) (h : ℕ) : Connection :=
  s.onHandle h fun x => { x with connects := x.connects - 1, hasConnectCallback := false }

inductive Begins (s : Connection) : ConnectionEvent → Connection → Prop
  | nothing (e : ConnectionEvent) : Begins s e s
  | pause : Begins s .pause { s with paused := true }
  | destroy (error : Option Str) : Begins s (.destroy error) (s.destroy error)
  | write {e : ConnectionEvent} {data : Str} {t : Connection} (asked : s.Asks data e)
      (taken : s.write data = some t) : Begins s e t
  | secured {h : ℕ} (handle : s.handle = some h) (plain : (s.handles h).secure = false) :
      Begins s .setSecure { s with
        secure := true
        handles := Function.update s.handles s.made (.new true (s.handles h).hasReadCallback)
        made := s.made + 1
        handle := some s.made }
  | completed {h k : ℕ} {data : Str} (ended : (s.handles h).native.outstanding[k]? = some data)
      (alive : s.destroyed = false) :
      Begins s (.handleWrite h k none)
        (let t := (s.onHandle h fun x => { x with native := x.native.complete k data }).advance
        { t with pendingWriteReqs := t.pendingWriteReqs - 1 })
  | late {h k : ℕ} {data : Str} {error : Option Str}
      (ended : (s.handles h).native.outstanding[k]? = some data) (gone : s.destroyed = true) :
      Begins s (.handleWrite h k error)
        (s.onHandle h fun x => { x with native := x.native.complete k data })
  | failed {h k : ℕ} {data message : Str}
      (ended : (s.handles h).native.outstanding[k]? = some data) (alive : s.destroyed = false) :
      Begins s (.handleWrite h k (some message))
        ((s.onHandle h fun x => { x with native := x.native.complete k data }).destroy (some message))
  | eof {h k n : ℕ} (taken : (s.handles h).reads[k]? = some n) (handle : s.handle = some h)
      (callback : (s.handles h).hasReadCallback = true) (first : s.flags.gotEof = false)
      (writable : s.writable = false) (idle : s.waiting = none) :
      Begins s (.handleRead h k false) ((s.atEof h k).destroy none)
  | rearm {g h : ℕ} {error : Option Str} (frame : s.waiting = some (.data g))
      (handle : s.handle = some h) (idle : (s.handles h).reading = false)
      (readable : s.readable = true) :
      Begins s (.returned none error) ({ s with waiting := none }.onHandle h Handle.read)
  | raised {h : ℕ} {message : Str} {error : Option Str} (frame : s.waiting = some (.connect h)) :
      Begins s (.returned (some message) error)
        ({ s with waiting := none }.destroy (some message))
  | finishNow {h : ℕ} {error : Option Str} (frame : s.waiting = some (.connect h))
      (queued : s.flags.shutdownQueued = true) :
      Begins s (.returned none error) { s with
        waiting := none
        flags := { s.flags with shutdownQueued := false }
        writable := true }
  | unfound {error : Option Str} (frame : s.waiting = some .lookup) :
      Begins s (.returned none error) ({ s with waiting := none }.destroy none)
  | drained {h rest : ℕ} {error : Option Str} {t : Connection}
      (frame : s.waiting = some (.secure h (rest + 1)))
      (drained : ({ s with waiting := none, drains := s.drains - 1 } : Connection).drainConnectQueue =
        some t) : Begins s (.returned none error) t
  | undrained {h rest : ℕ} {error : Option Str} (frame : s.waiting = some (.secure h (rest + 1)))
      (failed : ({ s with waiting := none, drains := s.drains - 1 } : Connection).drainConnectQueue =
        none) :
      Begins s (.returned none error)
        (({ s with waiting := none, drains := s.drains - 1 } : Connection).fail .queue)
  | lookupFailed {i : ℕ} {message : Str} (pending : i ∈ s.lookups)
      (connecting : s.connecting = true) :
      Begins s (.lookup i (.error message))
        { s with lookups := s.lookups.erase i, posted := s.posted ++ [.lookup message] }
  | found {i : ℕ} {error : Option Str} (pending : i ∈ s.lookups) (connecting : s.connecting = true) :
      Begins s (.lookup i (.address error))
        (let t := { s with lookups := s.lookups.erase i }
        (if t.handle.isNone then t.makeHandle else t).dial error)
  | connected {h : ℕ} (idle : s.waiting = none) (begun : (s.handles h).connects ≠ 0)
      (callback : (s.handles h).hasConnectCallback = true) (handle : s.handle = some h)
      (alive : s.destroyed = false) :
      Begins s (.handleConnect h none)
        ({ s.takeConnect h with connecting := false } : Connection).connected
  | unconnected {h : ℕ} {message : Str} (begun : (s.handles h).connects ≠ 0)
      (callback : (s.handles h).hasConnectCallback = true) (handle : s.handle = some h)
      (alive : s.destroyed = false) :
      Begins s (.handleConnect h (some message)) ((s.takeConnect h).destroy (some message))

/-! ### Quiet functions -/

theorem Quiet.waitNot (s : Connection) : Quiet s { s with waiting := none } :=
  .wait nofun nofun nofun nofun

theorem quiets_destroySoon (s : Connection) : Quiets s s.destroySoon := by
  unfold destroySoon
  dsimp only
  split_ifs with hidle
  · exact .tail (.single .soon) (.destroyIdle hidle)
  · exact .single .soon

theorem quiets_shutdown (hwritable : s.writable = true)
    (hqueued : s.connecting = true → s.flags.shutdownQueued = true) (error : Option Str) :
    Quiets s (({ s with writable := false } : Connection).shutdown error) := by
  unfold shutdown
  by_cases hreadable : s.readable = true
  · rw [if_neg (by simp [hreadable])]
    have hflag := Quiet.shutdown hreadable hwritable hqueued
    generalize hu : ({ s with
      writable := false
      flags := { s.flags with shutdown := true } } : Connection) = u at hflag
    have hset : u.flags.shutdown = true := by rw [← hu]
    dsimp only
    split
    · exact .single hflag
    · next h hhandle =>
      cases hresult : ((u.handles h).shutdown error).1 with
      | none => exact .tail (.single hflag) (.shutdownHandle hhandle hset hresult)
      | some message => exact .tail (.single hflag) (.shutdownFailed hhandle hset hresult)
  · rw [if_pos (by simp [hreadable])]
    exact .head .shut (quiets_destroySoon _)

theorem queueFinish_none (s : Connection) :
    s.queueFinish none = if s.connecting ∧ ¬ s.flags.shutdownQueued then
      { s with writable := false, flags := { s.flags with shutdownQueued := true } } else s := rfl

theorem quiets_finish (s : Connection) (error : Option Str) : Quiets s (s.finish none error) := by
  unfold finish
  rw [queueFinish_none]
  by_cases hlater : s.connecting = true ∧ ¬ s.flags.shutdownQueued = true
  · rw [if_pos hlater]
    exact .single (.finishLater hlater.1)
  · rw [if_neg hlater]
    dsimp only
    split_ifs with hwritable
    · exact quiets_shutdown hwritable (by simpa using hlater) error
    · exact .refl

theorem quiets_readOnce {h : ℕ} (hhandle : s.handle = some h) (hconnecting : s.connecting = false)
    (hpaused : s.paused = false) : Quiets s (s.readOnce h) := by
  unfold readOnce
  split_ifs with hreading
  · exact .refl
  · exact .single (.read hhandle hconnecting (by simpa using hreading) hpaused)

theorem quiets_resume (s : Connection) : Quiets s s.resume := by
  have hunpause : Quiets s { s with paused := false } := .single .unpause
  unfold resume
  dsimp only
  split
  · exact hunpause
  · next h hhandle =>
    split_ifs with hconnecting
    · exact hunpause
    · exact hunpause.trans (quiets_readOnce hhandle (by simpa using hconnecting) rfl)

theorem quiets_doHandShake (s : Connection) : Quiets s s.doHandShake := by
  unfold doHandShake
  split
  · exact .refl
  · next h hhandle => exact .single (.handshake hhandle)

theorem quiets_closeIfPending (s : Connection) (h : ℕ) : Quiets s (s.closeIfPending h) :=
  .single (.closePending h)

theorem quiets_shutdownCallback (s : Connection) (h : ℕ) : Quiets s (s.shutdownCallback h) := by
  unfold shutdownCallback
  by_cases hcallback : (s.handles h).hasShutdownCallback = true
  · rw [if_neg (by simp [hcallback])]
    by_cases hassert : ¬ s.flags.shutdown = true ∨ s.writable = true
    · rw [if_pos hassert]
      exact .single (.fail (by decide))
    · rw [if_neg hassert]
      have hflag := not_not.mp (not_or.mp hassert).1
      split_ifs with _ hended
      · exact .refl
      · exact .single (.destroyShut hflag (by simpa using hended))
      · exact .refl
  · rw [if_pos hcallback]

theorem quiets_handleShutdown (s : Connection) (h : ℕ) : Quiets s (s.handleShutdown h) := by
  unfold handleShutdown
  split_ifs with hnone
  · exact .refl
  · exact .head (.shutdownDone hnone) (quiets_shutdownCallback _ h)

theorem quiets_handleWriteEnd (s : Connection) (h : ℕ) : Quiets s (s.handleWriteEnd h) := by
  unfold handleWriteEnd
  split_ifs with hpending
  · have hshut := Quiet.sendShut hpending.1 hpending.2
    dsimp only
    split_ifs
    · exact .head hshut (quiets_closeIfPending _ h)
    · exact .head hshut ((quiets_shutdownCallback _ h).trans (quiets_closeIfPending _ h))
  · exact quiets_closeIfPending s h

theorem quiets_afterDrain (s : Connection) : Quiets s s.afterDrain := by
  unfold afterDrain
  split_ifs with hsoon
  · exact .single (.destroyIdle hsoon.1)
  · exact .refl

theorem quiets_wrote (s : Connection) (h : ℕ) :
    Quiets { s with pendingWriteReqs := s.pendingWriteReqs - 1 } (s.wrote h) := by
  unfold wrote
  dsimp only
  split_ifs
  · exact .single (.wait nofun nofun nofun nofun)
  · exact (quiets_afterDrain _).trans (quiets_handleWriteEnd _ h)

theorem quiets_handleHandshake (s : Connection) (h : ℕ) : Quiets s (s.handleHandshake h) := by
  unfold handleHandshake
  split_ifs with hnone
  · exact .refl
  · refine .tail (.single (.handshakeDone hnone)) (.wait ?_ nofun nofun nofun)
    rintro h rest hw
    cases hw
    exact le_rfl

theorem quiets_tick (s : Connection) : Quiets s s.tick := by
  unfold tick
  split
  · exact .refl
  · next p rest hposted =>
    have hemit : Quiets s { s with posted := rest, emitted := s.emitted ++ [p] } :=
      .single (.emit hposted)
    cases p with
    | lookup message => exact hemit.tail (.wait nofun nofun nofun fun _ => ⟨message, by simp⟩)
    | error message => exact hemit
    | close hadError => exact hemit

/-! ### The steps -/

/-- What a step begins with, and where it ends. -/
def Comes (s : Connection) (e : ConnectionEvent) (u : Connection) : Prop :=
  ∃ t, Begins s e t ∧ Quiets t u

theorem Quiets.comes {e : ConnectionEvent} (hq : Quiets s u) : s.Comes e u :=
  ⟨s, .nothing e, hq⟩

theorem Comes.trans {e : ConnectionEvent} (hc : s.Comes e t) (hq : Quiets t u) : s.Comes e u := by
  obtain ⟨v, hbegins, hv⟩ := hc
  exact ⟨v, hbegins, Relation.ReflTransGen.trans hv hq⟩

theorem comes_write (s : Connection) (data : Str) :
    s.Comes (.write data) ((s.write data).getD s) := by
  cases hwrite : s.write data with
  | none => exact ⟨s, .nothing _, .refl⟩
  | some t => exact ⟨t, .write (show s.Asks data (.write data) from rfl) hwrite, .refl⟩

theorem comes_setSecure (s : Connection) : s.Comes .setSecure s.setSecure := by
  unfold setSecure
  split
  · exact Quiets.comes .refl
  · next h hhandle =>
    dsimp only
    split_ifs with hplain
    · exact Quiets.comes (.single .secure)
    all_goals refine ⟨_, .secured hhandle (by simpa using hplain), ?_⟩
    · exact .refl
    · unfold checkForSecureHandshake
      split_ifs
      · exact quiets_doHandShake _
      · exact .refl

/-- `write` does not look at `writable`. -/
theorem write_shut (s : Connection) (data : Str) :
    ({ s with writable := false } : Connection).write data =
      (s.write data).map fun t => { t with writable := false } := by
  rcases Bool.eq_false_or_eq_true s.connecting with hconnecting | hconnecting
  · rw [write_of_connecting hconnecting, write_of_connecting (by exact hconnecting)]
    rfl
  · rw [write_of_connected hconnecting, write_of_connected (by exact hconnecting)]
    obtain hhandle | ⟨h, hhandle⟩ := Option.eq_none_or_eq_some s.handle
    · rw [rawWrite_of_none hhandle, rawWrite_of_none (by exact hhandle)]
      rfl
    · rcases Nat.eq_zero_or_pos (s.handles h).native.pendingWrites with hidle | hpending
      · rw [rawWrite_of_idle hhandle hidle,
          rawWrite_of_idle (s := { s with writable := false }) hhandle hidle]
        rfl
      · rw [rawWrite_of_pending hhandle hpending,
          rawWrite_of_pending (s := { s with writable := false }) hhandle hpending]
        rfl

theorem write_keeps {data : Str} (ht : s.write data = some t) :
    t.connecting = s.connecting ∧ t.flags = s.flags ∧ t.writable = s.writable := by
  obtain ⟨-, rfl⟩ | ⟨-, h, -, ⟨-, rfl⟩ | ⟨-, rfl⟩⟩ := write_cases ht <;> exact ⟨rfl, rfl, rfl⟩

theorem comes_finish (s : Connection) (data error : Option Str) :
    s.Comes (.finish data error) (s.finish data error) := by
  cases data with
  | none => exact Quiets.comes (quiets_finish s error)
  | some data =>
    unfold finish queueFinish
    by_cases hlater : s.connecting = true ∧ ¬ s.flags.shutdownQueued = true
    · have hwrite := write_of_connecting hlater.1 data
      rw [if_pos hlater]
      dsimp only
      rw [hwrite]
      exact ⟨_, .write ⟨rfl, Or.inl ⟨hlater.1, by simpa using hlater.2⟩⟩ hwrite,
        .single (.finishLater hlater.1)⟩
    · rw [if_neg hlater]
      dsimp only
      split_ifs with hwritable
      · rw [write_shut]
        cases hwrite : s.write data with
        | none => exact Quiets.comes (.single .shut)
        | some t =>
          obtain ⟨hconnecting, hflags, ht⟩ := write_keeps hwrite
          refine ⟨t, .write ⟨rfl, Or.inr hwritable⟩ hwrite, ?_⟩
          exact quiets_shutdown (ht.trans hwritable)
            (by rw [hconnecting, hflags]; simpa using hlater) error
      · exact Quiets.comes .refl

/-- `afterWrite` of a write that has succeeded. -/
theorem afterWrite_none (halive : s.destroyed = false) {g : ℕ} (hhandle : s.handle = some g) (h : ℕ) :
    s.afterWrite h none = s.advance.wrote h := by
  unfold afterWrite advance
  rw [if_neg (by simp [halive])]
  rcases hqueue : s.writeQueue with _ | ⟨data, rest⟩
  · rfl
  · obtain ⟨t, ht⟩ : ∃ t, ({ s with writeQueue := rest } : Connection).rawWrite data = some t := by
      rcases Nat.eq_zero_or_pos (s.handles g).native.pendingWrites with hidle | hpending
      · exact ⟨_, rawWrite_of_idle (s := { s with writeQueue := rest }) hhandle hidle data⟩
      · exact ⟨_, rawWrite_of_pending (s := { s with writeQueue := rest }) hhandle hpending data⟩
    simp [ht]

/-- While a write is outstanding, a socket that lives has a handle. -/
theorem Wf.handle_of_outstanding (hs : s.Wf) (halive : s.destroyed = false) {h k : ℕ} {data : Str}
    (hk : (s.handles h).native.outstanding[k]? = some data) : ∃ g, s.handle = some g := by
  cases hhandle : s.handle with
  | some g => exact ⟨g, rfl⟩
  | none =>
    have hlt := (hs.completed hk).1
    rcases hs.first hhandle with hdestroyed | hmade
    · simp [halive] at hdestroyed
    · omega

theorem comes_handleWrite (hs : s.Wf) (h k : ℕ) (error : Option Str) :
    s.Comes (.handleWrite h k error) (s.handleWrite h k error) := by
  unfold handleWrite
  cases hended : (s.handles h).native.outstanding[k]? with
  | none => exact Quiets.comes .refl
  | some data =>
    dsimp only
    rcases Bool.eq_false_or_eq_true s.destroyed with hgone | halive
    · unfold afterWrite
      rw [if_pos (by exact hgone)]
      exact ⟨_, .late hended hgone, quiets_handleWriteEnd _ h⟩
    · cases error with
      | some message =>
        unfold afterWrite
        rw [if_neg (by simp [onHandle, halive])]
        exact ⟨_, .failed hended halive, quiets_handleWriteEnd _ h⟩
      | none =>
        obtain ⟨g, hhandle⟩ := hs.handle_of_outstanding halive hended
        rw [afterWrite_none (by exact halive) (by exact hhandle)]
        exact ⟨_, .completed hended halive, quiets_wrote _ h⟩

theorem quiets_ended (t : Connection) (h : ℕ) : Quiets t
    { (if t.allowHalfOpen then t else t.finish none none) with waiting := some (.ended h) } := by
  refine .tail (b := if t.allowHalfOpen then t else t.finish none none) ?_ (.wait nofun nofun nofun nofun)
  split_ifs
  · exact .refl
  · exact quiets_finish t none

/-- `onread` at the end of what is read destroys a socket that is not writable. -/
theorem quiets_onEnd_of_shut (hfirst : s.flags.gotEof = false) (hwritable : s.writable = false)
    (h k : ℕ) : Quiets ((s.atEof h k).destroy none) ((s.takeRead h k).onEnd h) := by
  unfold onEnd
  dsimp only
  rw [if_neg (by simp [takeRead, onHandle, hfirst])]
  change Quiets _
    (let t := if s.writable then s.atEof h k else (s.atEof h k).destroy none
    { (if t.allowHalfOpen then t else t.finish none none) with waiting := some (.ended h) })
  rw [if_neg (by simp [hwritable])]
  exact quiets_ended ((s.atEof h k).destroy none) h

theorem quiets_onEnd_of_writable {h k n : ℕ} (htaken : (s.handles h).reads[k]? = some n)
    (hhandle : s.handle = some h) (hfirst : s.flags.gotEof = false) (hwritable : s.writable = true) :
    Quiets s ((s.takeRead h k).onEnd h) := by
  unfold onEnd
  dsimp only
  rw [if_neg (by simp [takeRead, onHandle, hfirst])]
  change Quiets _
    (let t := if s.writable then s.atEof h k else (s.atEof h k).destroy none
    { (if t.allowHalfOpen then t else t.finish none none) with waiting := some (.ended h) })
  rw [if_pos hwritable]
  exact .head (.eof htaken hhandle hfirst hwritable) (quiets_ended (s.atEof h k) h)

theorem comes_onEnd (hidle : s.waiting = none) {h k n : ℕ}
    (htaken : (s.handles h).reads[k]? = some n) (hhandle : s.handle = some h)
    (hlistens : (s.handles h).hasReadCallback = true) :
    s.Comes (.handleRead h k false) ((s.takeRead h k).onEnd h) := by
  rcases Bool.eq_false_or_eq_true s.flags.gotEof with heof | heof
  · unfold onEnd
    dsimp only
    rw [if_pos (by exact heof)]
    exact Quiets.comes (.tail (.single (.eofAgain htaken hhandle heof)) (.closePending h))
  · rcases Bool.eq_false_or_eq_true s.writable with hwritable | hwritable
    · exact Quiets.comes (quiets_onEnd_of_writable htaken hhandle heof hwritable)
    · exact ⟨_, .eof htaken hhandle hlistens heof hwritable hidle,
        quiets_onEnd_of_shut heof hwritable h k⟩

/-- A read of the current handle comes to `onread`. -/
theorem handleRead_of_current {h k n : ℕ} (htaken : (s.handles h).reads[k]? = some n)
    (hhandle : s.handle = some h) (hlistens : (s.handles h).hasReadCallback = true) (data : Bool) :
    s.handleRead h k data =
      if data then (s.takeRead h k).onData h n else (s.takeRead h k).onEnd h := by
  have hcallback : ((s.takeRead h k).handles h).hasReadCallback = true := by
    simp [takeRead, hlistens]
  unfold handleRead
  rw [htaken]
  dsimp only
  change (if ¬ ((s.takeRead h k).handles h).hasReadCallback then (s.takeRead h k).closeIfPending h
    else if s.handle ≠ some h then ((s.takeRead h k).fail .handle).closeIfPending h
    else if data then (s.takeRead h k).onData h n else (s.takeRead h k).onEnd h) = _
  rw [if_neg (by simp [hcallback]), if_neg (by simp [hhandle])]

/-- A read of another handle comes to nothing. -/
theorem quiets_handleRead_of_deaf {h k n : ℕ} (htaken : (s.handles h).reads[k]? = some n)
    (hdeaf : (s.handles h).hasReadCallback = false ∨ s.handle ≠ some h) (data : Bool) :
    Quiets s (s.handleRead h k data) := by
  have hdropped : Quiets s (s.takeRead h k) := .single (.dropRead htaken hdeaf)
  unfold handleRead
  rw [htaken]
  dsimp only
  change Quiets s (if ¬ ((s.takeRead h k).handles h).hasReadCallback then
      (s.takeRead h k).closeIfPending h
    else if s.handle ≠ some h then ((s.takeRead h k).fail .handle).closeIfPending h
    else if data then (s.takeRead h k).onData h n else (s.takeRead h k).onEnd h)
  have hkeep : ((s.takeRead h k).handles h).hasReadCallback = (s.handles h).hasReadCallback := by
    simp [takeRead]
  rw [hkeep]
  by_cases hlistens : (s.handles h).hasReadCallback = true
  · have hother := hdeaf.resolve_left (by simp [hlistens])
    rw [if_neg (by simp [hlistens]), if_pos hother]
    exact (hdropped.tail (.fail (show Failure.handle ≠ .gotEof by decide))).tail (.closePending h)
  · rw [if_pos hlistens]
    exact hdropped.tail (.closePending h)

theorem comes_handleRead (hidle : s.waiting = none) (h k : ℕ) (data : Bool) :
    s.Comes (.handleRead h k data) (s.handleRead h k data) := by
  cases htaken : (s.handles h).reads[k]? with
  | none =>
    unfold handleRead
    rw [htaken]
    exact Quiets.comes .refl
  | some n =>
    by_cases hcurrent : (s.handles h).hasReadCallback = true ∧ s.handle = some h
    · obtain ⟨hlistens, hhandle⟩ := hcurrent
      rw [handleRead_of_current htaken hhandle hlistens]
      cases data with
      | true => exact Quiets.comes (.single (.data htaken hhandle hlistens))
      | false => exact comes_onEnd hidle htaken hhandle hlistens
    · refine Quiets.comes (quiets_handleRead_of_deaf htaken ?_ data)
      rw [Classical.not_and_iff_not_or_not, Bool.not_eq_true] at hcurrent
      exact hcurrent

theorem connected_handle (s : Connection) : s.connected.handle = s.handle := by
  unfold connected
  dsimp only
  split_ifs
  · rfl
  · cases hdrain : ({ s with readable := true } : Connection).drainConnectQueue with
    | none => rfl
    | some t =>
      obtain ⟨queue, -, ⟨-, rfl⟩ | ⟨h, -, ⟨-, rfl⟩ | ⟨data, rest, -, -, rfl⟩⟩⟩ :=
        drainConnectQueue_cases hdrain <;> rfl
  · rfl

theorem connected_connecting (hs : s.connecting = false) : s.connected.connecting = false := by
  unfold connected
  dsimp only
  split_ifs
  · exact hs
  · cases hdrain : ({ s with readable := true } : Connection).drainConnectQueue with
    | none => exact hs
    | some t =>
      obtain ⟨queue, -, ⟨-, rfl⟩ | ⟨h, -, ⟨-, rfl⟩ | ⟨data, rest, -, -, rfl⟩⟩⟩ :=
        drainConnectQueue_cases hdrain <;> rfl
  · exact hs

theorem takeConnect_eq (s : Connection) (h : ℕ) :
    ((s.onHandle h fun x => { x with connects := x.connects - 1 }).onHandle h
      fun x => { x with hasConnectCallback := false }) = s.takeConnect h := by
  simp [takeConnect, onHandle]

theorem handleConnect_of_callback {h : ℕ} (hbegun : (s.handles h).connects ≠ 0)
    (hcallback : (s.handles h).hasConnectCallback = true) (error : Option Str) :
    s.handleConnect h error =
      (s.onHandle h fun x => { x with connects := x.connects - 1 }).connectCallback h error := by
  unfold handleConnect
  rw [if_neg hbegun]
  dsimp only
  rw [onHandle_same, if_pos (by exact hcallback)]

/-- `connect_callback` of a call that has completed. -/
theorem connectCallback_taken (s : Connection) (h : ℕ) (error : Option Str) :
    (s.onHandle h fun x => { x with connects := x.connects - 1 }).connectCallback h error =
      (let t := s.takeConnect h
      if t.destroyed then t
      else if t.handle ≠ some h then t.fail .handle
      else
        let t := { t with connecting := false }
        match error with
        | none => { t.connected with waiting := some (.connect h) }
        | some message => t.connectQueueCleanUp.destroy (some message)) := by
  cases error with
  | none => simp only [connectCallback, takeConnect_eq]
  | some message => simp only [connectCallback, takeConnect_eq]

/-- `HandleConnect` of the handle that is being connected. -/
theorem handleConnect_of_current {h : ℕ} (hbegun : (s.handles h).connects ≠ 0)
    (hcallback : (s.handles h).hasConnectCallback = true) (hhandle : s.handle = some h)
    (halive : s.destroyed = false) :
    s.handleConnect h none =
      { ({ s.takeConnect h with connecting := false } : Connection).connected with
        waiting := some (.connect h) } := by
  rw [handleConnect_of_callback hbegun hcallback, connectCallback_taken]
  dsimp only
  rw [if_neg (by simp [takeConnect, onHandle, halive]), if_neg (by exact not_not.mpr hhandle)]

theorem comes_handleConnect (hidle : s.waiting = none) (h : ℕ) (error : Option Str) :
    s.Comes (.handleConnect h error) (s.handleConnect h error) := by
  by_cases hnone : (s.handles h).connects = 0
  · unfold handleConnect
    rw [if_pos hnone]
    exact Quiets.comes .refl
  by_cases hcallback : (s.handles h).hasConnectCallback = true
  · by_cases hcurrent : s.destroyed = false ∧ s.handle = some h
    · obtain ⟨halive, hhandle⟩ := hcurrent
      cases error with
      | none =>
        rw [handleConnect_of_current hnone hcallback hhandle halive]
        refine ⟨_, .connected hidle hnone hcallback hhandle halive, .single (.wait nofun ?_ nofun nofun)⟩
        rintro g hg
        cases hg
        exact ⟨(connected_handle _).trans hhandle, connected_connecting rfl⟩
      | some message =>
        have hunconnected : s.handleConnect h (some message) =
            (s.takeConnect h).destroy (some message) := by
          rw [handleConnect_of_callback hnone hcallback, connectCallback_taken]
          dsimp only
          rw [if_neg (by simp [takeConnect, onHandle, halive]),
            if_neg (by exact not_not.mpr hhandle)]
          exact cleanUp_destroy (s := s.takeConnect h) halive _
        rw [hunconnected]
        exact ⟨_, .unconnected hnone hcallback hhandle halive, .refl⟩
    · have hdeaf : s.destroyed = true ∨ s.handle ≠ some h := by
        rw [Classical.not_and_iff_not_or_not, Bool.not_eq_false] at hcurrent
        exact hcurrent
      have hquiets : Quiets s (s.takeConnect h) := by
        rw [← takeConnect_eq]
        exact .tail (.single (.dialed hnone (Or.inr hdeaf))) (.called (by simpa using hcallback) hdeaf)
      rw [handleConnect_of_callback hnone hcallback, connectCallback_taken]
      dsimp only
      by_cases hgone : s.destroyed = true
      · rw [if_pos (by exact hgone)]
        exact Quiets.comes hquiets
      · rw [if_neg (by exact hgone), if_pos (by exact hdeaf.resolve_left hgone)]
        exact Quiets.comes (hquiets.tail (.fail (by decide)))
  · unfold handleConnect
    rw [if_neg hnone]
    dsimp only
    rw [onHandle_same, if_neg (by exact hcallback)]
    exact Quiets.comes (.single (.dialed hnone (Or.inl (by simpa using hcallback))))

theorem comes_lookup (i : ℕ) (hpending : i ∈ s.lookups) (found : Found) :
    s.Comes (.lookup i found) (({ s with lookups := s.lookups.erase i } : Connection).lookup found) := by
  unfold lookup
  by_cases hconnecting : s.connecting = true
  · rw [if_neg (by simp [hconnecting])]
    cases found with
    | error message => exact ⟨_, .lookupFailed hpending hconnecting, .refl⟩
    | address error => exact ⟨_, .found hpending hconnecting, .refl⟩
  · rw [if_pos (by exact hconnecting)]
    exact Quiets.comes (.single (.lookedUp i (by simpa using hconnecting)))

theorem comes_returned (hs : s.Wf) (raised error : Option Str) :
    s.Comes (.returned raised error) (s.returned raised error) := by
  have hnow : Quiets s { s with waiting := none } := .single (.waitNot s)
  unfold returned
  cases hframe : s.waiting with
  | none => exact Quiets.comes .refl
  | some w =>
    cases w with
    | accept =>
      dsimp only
      unfold afterAccept
      split_ifs
      · exact Quiets.comes hnow
      · exact Quiets.comes hnow
      · exact Quiets.comes (hnow.trans (quiets_doHandShake _))
      · exact Quiets.comes (hnow.trans (quiets_resume _))
    | connect h =>
      cases raised with
      | some message => exact ⟨_, .raised hframe, .refl⟩
      | none =>
        dsimp only
        unfold afterConnect
        dsimp only
        split_ifs with hqueued
        · exact ⟨_, .finishNow hframe hqueued, quiets_finish _ error⟩
        · exact Quiets.comes (hnow.trans (quiets_resume _))
        · exact Quiets.comes hnow
    | drain h =>
      dsimp only
      split_ifs
      · exact Quiets.comes (hnow.trans (quiets_handleWriteEnd _ h))
      · exact Quiets.comes (hnow.trans ((quiets_afterDrain _).trans (quiets_handleWriteEnd _ h)))
    | data g =>
      cases raised with
      | some message => exact Quiets.comes (hnow.trans (quiets_closeIfPending _ g))
      | none =>
        suffices s.Comes (.returned none error) ({ s with waiting := none } : Connection).afterData by
          exact this.trans (quiets_closeIfPending _ g)
        unfold afterData
        split_ifs with hreadable
        · split
          · exact Quiets.comes hnow
          · next h hhandle =>
            unfold readOnce
            split_ifs with hreading
            · exact Quiets.comes hnow
            · exact ⟨_, .rearm hframe hhandle (by simpa using hreading) hreadable, .refl⟩
        · exact Quiets.comes hnow
    | ended h => exact Quiets.comes (hnow.trans (quiets_closeIfPending _ h))
    | secure h rest =>
      cases raised with
      | some message => exact Quiets.comes hnow
      | none =>
        cases rest with
        | zero => exact Quiets.comes (hnow.trans (quiets_resume _))
        | succ rest =>
          dsimp only [afterSecure]
          cases hdrain : ({ s with
              waiting := none
              drains := s.drains - 1 } : Connection).drainConnectQueue with
          | none => exact ⟨_, .undrained hframe hdrain, .refl⟩
          | some t =>
            refine ⟨t, .drained hframe hdrain, .single (.wait ?_ nofun nofun nofun)⟩
            rintro _ _ hw
            cases hw
            have hdrains : t.drains = s.drains - 1 := by
              obtain ⟨queue, -, ⟨-, rfl⟩ | ⟨h, -, ⟨-, rfl⟩ | ⟨data, rest, -, -, rfl⟩⟩⟩ :=
                drainConnectQueue_cases hdrain <;> rfl
            have hle := hs.frame h (rest + 1) hframe
            omega
    | lookup =>
      cases raised with
      | some message => exact Quiets.comes hnow
      | none => exact ⟨_, .unfound hframe, .refl⟩

theorem comes_userStep (hs : s.Wf) {e : ConnectionEvent}
    (he : e.isConnect = false) : s.Comes e (s.userStep e) := by
  cases e <;> unfold userStep <;> dsimp only
  case connect host error => exact absurd he nofun
  case write data => exact comes_write s data
  case finish data error => exact comes_finish s data error
  case destroySoon => exact Quiets.comes (quiets_destroySoon s)
  case destroy error => exact ⟨_, .destroy error, .refl⟩
  case pause => exact ⟨_, .pause, .refl⟩
  case resume => exact Quiets.comes (quiets_resume s)
  case markSecure => exact Quiets.comes (.single .secure)
  case setSecure => exact comes_setSecure s
  case returned raised error => exact comes_returned hs raised error
  all_goals exact Quiets.comes .refl

/-- Every step but `connect`. -/
theorem step_comes (hs : s.Wf) {e : ConnectionEvent} (he : e.isConnect = false) :
    s.Comes e (s.step e) := by
  unfold step
  split_ifs with hframe
  · exact comes_userStep hs he
  · have hidle : s.waiting = none := by simpa using hframe
    cases e <;> unfold loopStep <;> dsimp only
    case lookup i found =>
      split_ifs with hpending
      · exact comes_lookup i hpending found
      · exact Quiets.comes .refl
    case handleConnect h error => exact comes_handleConnect hidle h error
    case handleWrite h k error => exact comes_handleWrite hs h k error
    case handleRead h k data => exact comes_handleRead hidle h k data
    case handleShutdown h => exact Quiets.comes (quiets_handleShutdown s h)
    case handleHandshake h => exact Quiets.comes (quiets_handleHandshake s h)
    case tick => exact Quiets.comes (quiets_tick s)
    all_goals exact comes_userStep hs he

/-- The event loop does not call a handler while another waits. -/
theorem step_of_loop {e : ConnectionEvent} (hwaiting : s.waiting.isSome = true)
    (he : e.isLoop = true) : s.step e = s := by
  unfold step
  rw [if_pos hwaiting]
  cases e <;> first | rfl | cases he

theorem step_of_waiting (hwaiting : s.waiting ≠ none) (e : ConnectionEvent) :
    s.step e = s.userStep e :=
  if_pos (Option.isSome_iff_ne_none.mpr hwaiting)

theorem step_of_idle (hidle : s.waiting = none) (e : ConnectionEvent) : s.step e = s.loopStep e :=
  if_neg (by simp [hidle])

/-! ### Every step keeps the handles in order -/

theorem shutdown_fields (x : Handle) (error : Option Str) :
    (x.native.Orderly → (x.shutdown error).2.native.Orderly) ∧
    (x.shutdown error).2.native.isOpen = x.native.isOpen ∧
    (x.shutdown error).2.native.closePending = x.native.closePending := by
  unfold Handle.shutdown
  obtain ⟨-, -, -, hopen, hclose⟩ := x.native.shutdown_fields error
  split_ifs
  · exact ⟨fun h => ⟨h.sent, h.count, h.one, h.closed⟩, rfl, rfl⟩
  · exact ⟨fun h => h.shutdown error, hopen, hclose⟩

theorem closeIfPending_orderly {x : Handle} (hx : x.native.Orderly) :
    x.closeIfPending.native.Orderly := by
  unfold Handle.closeIfPending
  split_ifs with _ hidle
  · exact ⟨hx.sent, hx.count, hx.one, fun _ => hidle.2.1⟩
  · exact hx
  · exact hx.callCloseCallback
  · exact hx

theorem closeIfPending_of_not {x : Handle} (hx : x.native.closePending = false) :
    x.closeIfPending = x := by
  simp [Handle.closeIfPending, hx]

theorem Wf.closeIfPending (hs : s.Wf) (h : ℕ) : (s.closeIfPending h).Wf := by
  refine hs.onHandle (fun hle => ?_) (closeIfPending_orderly (hs.native h)) fun hh => ?_
  · rw [hs.unmade h hle]
    rfl
  · rw [closeIfPending_of_not (hs.opened h hh).2]
    exact hs.opened h hh

theorem Wf.shutdownHandle (hs : s.Wf) {h : ℕ} (hhandle : s.handle = some h) (error : Option Str)
    {f : Handle → Handle} (hf : (f (s.handles h)).native = ((s.handles h).shutdown error).2.native) :
    (s.onHandle h f).Wf := by
  have hlt := hs.lt hhandle
  obtain ⟨hnative, hopen, hclose⟩ := shutdown_fields (s.handles h) error
  refine hs.onHandle (fun hle => absurd hlt (by omega)) ?_ fun _ => ?_
  · rw [hf]
    exact hnative (hs.native h)
  · rw [hf, hopen, hclose]
    exact hs.opened h hhandle

theorem Wf.takeRead (hs : s.Wf) {h k n : ℕ} (htaken : (s.handles h).reads[k]? = some n) :
    (s.takeRead h k).Wf := by
  refine hs.onHandle_native (fun hle => ?_) rfl
  simp [hs.unmade h hle, Handle.new] at htaken

theorem Wf.atEof (hs : s.Wf) {h k n : ℕ} (htaken : (s.handles h).reads[k]? = some n) :
    (s.atEof h k).Wf :=
  (hs.takeRead htaken).congr rfl

theorem Wf.read (hs : s.Wf) {h : ℕ} (hhandle : s.handle = some h) :
    (s.onHandle h Handle.read).Wf := by
  have hlt := hs.lt hhandle
  exact hs.onHandle_native (fun hle => absurd hlt (by omega)) rfl

/-- The next handle of the socket, plain or secure. -/
theorem Wf.next (hs : s.Wf) (secure hasReadCallback : Bool) (hgone : s.destroyed = false) :
    ({ s with
      handles := Function.update s.handles s.made (.new secure hasReadCallback)
      made := s.made + 1
      handle := some s.made } : Connection).Wf := by
  refine ⟨fun h hh => ?_, fun k hk => ?_, fun k => ?_, fun h hh => ?_, fun hd => ?_, nofun, hs.frame⟩
  · obtain rfl := Option.some.inj hh
    rfl
  · have hne : k ≠ s.made := Nat.ne_of_gt hk
    simpa [hne] using hs.unmade k (Nat.le_of_lt hk)
  · by_cases hk : k = s.made
    · subst hk
      simpa using new_orderly secure hasReadCallback
    · simpa [hk] using hs.native k
  · obtain rfl := Option.some.inj hh
    simp [Handle.new]
  · simp [hgone] at hd

theorem Wf.alive (hs : s.Wf) {h : ℕ} (hhandle : s.handle = some h) : s.destroyed = false := by
  cases hgone : s.destroyed with
  | false => rfl
  | true => simp [hs.gone hgone] at hhandle

theorem Wf.quiet (hs : s.Wf) (hq : Quiet s t) : t.Wf := by
  cases hq with
  | unpause | secure | shut | finishLater | soon | shutdown | fail | emit | lookedUp =>
    exact hs.congr rfl
  | read handle connected idle flowing => exact hs.read handle
  | @shutdownHandle h error handle flag done => exact hs.shutdownHandle handle error rfl
  | @shutdownFailed h error message handle flag failed =>
    exact (hs.shutdownHandle handle error rfl).destroy (some message)
  | destroyIdle | destroyShut => exact hs.destroy none
  | wait secure connect data lookup =>
    exact ⟨hs.last, hs.unmade, hs.native, hs.opened, hs.gone, hs.first, secure⟩
  | dropRead taken deaf => exact hs.takeRead taken
  | @data h k n taken handle callback =>
    have hlt := hs.lt handle
    have hread := (hs.takeRead taken).onHandle_native (h := h)
      (f := fun x => { x with reading := false, delivered := x.delivered ++ [n] })
      (fun hle => absurd hlt (Nat.not_lt.mpr hle)) rfl
    exact ⟨hread.last, hread.unmade, hread.native, hread.opened, hread.gone, hread.first, nofun⟩
  | eof taken handle first writable => exact hs.atEof taken
  | eofAgain taken handle again => exact (hs.takeRead taken).congr rfl
  | closePending h => exact hs.closeIfPending h
  | @sendShut h pending idle =>
    have hlt := hs.lt_of_ne (h := h) (fun x => x.native.writeShutdownPending) (by simp [pending, Handle.new])
    exact hs.onHandle_native (fun hle => absurd hlt (by omega)) rfl
  | @shutdownDone h posted =>
    have hlt := hs.lt_of_ne (fun x => x.native.shutdowns) (by simpa [Handle.new] using posted)
    have hnative := hs.native h
    exact hs.onHandle (fun hle => absurd hlt (by omega))
      ⟨hnative.sent, hnative.count, hnative.one, hnative.closed⟩ (hs.opened h)
  | @handshake h handle =>
    have hlt := hs.lt handle
    exact hs.onHandle_native (fun hle => absurd hlt (by omega)) rfl
  | @handshakeDone h begun =>
    have hlt := hs.lt_of_ne Handle.handshakes (by simpa [Handle.new] using begun)
    exact hs.onHandle_native (fun hle => absurd hlt (by omega)) rfl
  | @dialed h begun deaf =>
    have hlt := hs.lt_of_ne Handle.connects (by simpa [Handle.new] using begun)
    exact hs.onHandle_native (fun hle => absurd hlt (by omega)) rfl
  | @called h callback deaf =>
    have hlt := hs.lt_of_ne (h := h) Handle.hasConnectCallback (by simp [callback, Handle.new])
    exact hs.onHandle_native (fun hle => absurd hlt (by omega)) rfl

theorem Wf.quiets (hs : s.Wf) (hq : Quiets s t) : t.Wf :=
  Quiets.invariant (I := Wf) Wf.quiet hs hq

theorem Wf.dial (hs : s.Wf) (error : Option Str) : (s.dial error).Wf := by
  unfold Connection.dial
  cases error with
  | some message => exact hs.destroy (some message)
  | none =>
    dsimp only
    split
    · exact hs
    · next h hhandle =>
      have hlt := hs.lt hhandle
      exact hs.onHandle_native (fun hle => absurd hlt (by omega)) rfl

theorem Wf.advance (hs : s.Wf) : s.advance.Wf := by
  unfold Connection.advance
  split
  · exact hs
  · next data rest hqueue =>
    have hrest : ({ s with writeQueue := rest } : Connection).Wf := hs.congr rfl
    cases hwrite : ({ s with writeQueue := rest } : Connection).rawWrite data with
    | none => simpa [hwrite] using hrest
    | some t => simpa [hwrite] using hrest.rawWrite hwrite

theorem Wf.takeConnect (hs : s.Wf) {h : ℕ} (hbegun : (s.handles h).connects ≠ 0) :
    (s.takeConnect h).Wf := by
  have hlt := hs.lt_of_ne Handle.connects (by simpa [Handle.new] using hbegun)
  exact hs.onHandle_native (fun hle => absurd hlt (by omega)) rfl

theorem Wf.connected (hs : s.Wf) (hidle : s.waiting = none) : s.connected.Wf := by
  have hread : ({ s with readable := true } : Connection).Wf := hs.congr rfl
  unfold Connection.connected
  dsimp only
  split_ifs
  · exact ⟨hs.last, hs.unmade, hs.native, hs.opened, hs.gone, hs.first, by simp [hidle]⟩
  · cases hdrain : ({ s with readable := true } : Connection).drainConnectQueue with
    | none => exact hread
    | some t => exact hread.drainConnectQueue hdrain
  · exact hread

theorem Wf.undrain (hs : s.Wf) : ({ s with waiting := none, drains := s.drains - 1 } : Connection).Wf :=
  ⟨hs.last, hs.unmade, hs.native, hs.opened, hs.gone, hs.first, nofun⟩

theorem Wf.waitNot (hs : s.Wf) : ({ s with waiting := none } : Connection).Wf :=
  hs.quiet (.waitNot s)

theorem Wf.begins (hs : s.Wf) {e : ConnectionEvent} (hb : Begins s e t) : t.Wf := by
  cases hb with
  | nothing => exact hs
  | pause => exact hs.congr rfl
  | destroy error => exact hs.destroy error
  | write asked taken => exact hs.write taken
  | @secured h handle plain =>
    exact (hs.next true (s.handles h).hasReadCallback (hs.alive handle)).congr rfl
  | completed ended alive => exact (hs.completed ended).2.1.advance.congr rfl
  | late ended gone => exact (hs.completed ended).2.1
  | @failed h k data message ended alive => exact (hs.completed ended).2.1.destroy (some message)
  | eof taken handle callback first writable idle => exact (hs.atEof taken).destroy none
  | rearm frame handle idle readable => exact hs.waitNot.read handle
  | raised frame => exact hs.waitNot.destroy _
  | finishNow frame queued => exact hs.waitNot.congr rfl
  | unfound frame => exact hs.waitNot.destroy none
  | drained frame drained => exact hs.undrain.drainConnectQueue drained
  | undrained frame failed => exact hs.undrain.congr rfl
  | lookupFailed pending connecting => exact hs.congr rfl
  | @found i error pending connecting =>
    have hlooked : ({ s with lookups := s.lookups.erase i } : Connection).Wf := hs.congr rfl
    refine Wf.dial ?_ error
    split_ifs
    · exact hlooked.makeHandle
    · exact hlooked
  | @connected h idle begun callback handle alive =>
    exact Wf.connected ((hs.takeConnect begun).congr rfl) idle
  | unconnected begun callback handle alive => exact (hs.takeConnect begun).destroy _

theorem Wf.connect (hs : s.Wf) (host : Bool) (error : Option Str) : (s.connect host error).Wf := by
  unfold Connection.connect
  dsimp only
  split_ifs
  · exact hs.congr rfl
  · refine Wf.dial (Wf.makeHandle ?_) error
    exact hs.congr rfl

theorem step_connect (s : Connection) (host : Bool) (error : Option Str) :
    s.step (.connect host error) = s.connect host error := by
  unfold step
  split_ifs <;> rfl

theorem step_returned (s : Connection) (raised error : Option Str) :
    s.step (.returned raised error) = s.returned raised error := by
  unfold Connection.step
  split_ifs <;> rfl

theorem step_destroy (s : Connection) (error : Option Str) :
    s.step (.destroy error) = s.destroy error := by
  unfold step
  split_ifs <;> rfl

/-- A step that is a call of `connect`, or one that `Begins` describes. -/
theorem connect_or (e : ConnectionEvent) :
    (∃ host error, e = .connect host error) ∨ e.isConnect = false := by
  cases e with
  | connect host error => exact Or.inl ⟨host, error, rfl⟩
  | _ => exact Or.inr rfl

theorem Wf.step (hs : s.Wf) (e : ConnectionEvent) : (s.step e).Wf := by
  rcases connect_or e with ⟨host, error, rfl⟩ | he
  · rw [step_connect]
    exact hs.connect host error
  · obtain ⟨t, hbegins, hquiets⟩ := step_comes hs he
    exact (hs.begins hbegins).quiets hquiets

end Connection

end LuaNode.Net
