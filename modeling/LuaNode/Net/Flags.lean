import LuaNode.Net.Phases

/-!
# The flags

`readable`, `writable`, `destroyed` and `_flags` are written by every function that closes, and each
looks at some of them only. `Flagged` says how they go together; like `Phase` it is about the
handles made since the last call of `connect`. While a socket that has been destroyed waits for a
lookup `_flags` are still those of its last connection.
-/

namespace LuaNode.Net.Connection

variable {s t u : Connection}

structure Flagged (s : Connection) : Prop where
  queued : s.destroyed = false → s.flags.shutdownQueued = true → s.writable = false
  shut : s.destroyed = false → s.flags.shutdown = true →
    s.readable = true ∧ s.flags.gotEof = false ∧ s.writable = false ∧
      s.flags.shutdownQueued = false ∧ s.connecting = false
  ended : s.destroyed = false → s.flags.gotEof = true → s.readable = false
  dead : s.destroyed = true → s.readable = false
  early : s.destroyed = false → s.connecting = true →
    s.readable = false ∧ s.flags.gotEof = false ∧ ∀ h, s.base ≤ h → (s.handles h).reads = []
  unused : s.destroyed = false → s.handle = none → s.connecting = false →
    s.readable = false ∧ s.flags.shutdown = false ∧ s.flags.gotEof = false ∧
      s.flags.shutdownQueued = false
  window : s.destroyed = true → s.connecting = true →
    ∀ h, s.base ≤ h → (s.handles h).hasShutdownCallback = false
  callbacks : ∀ h, s.base ≤ h → (s.handles h).hasShutdownCallback = true →
    s.flags.shutdown = true ∧ s.writable = false ∧ s.flags.shutdownQueued = false
  plain : ∀ h, s.base ≤ h → h < s.made → (s.handles h).secure = false → h = s.base

/-- What `Flagged` is about, but for the handles. -/
def flagging (s : Connection) : Flags × Bool × Bool × Bool × Bool × ℕ × ℕ × Option ℕ :=
  (s.flags, s.readable, s.writable, s.destroyed, s.connecting, s.made, s.base, s.handle)

theorem Flagged.congr (hs : s.Flagged) (ht : t.flagging = s.flagging)
    (hreads : ∀ h, (s.handles h).reads = [] → (t.handles h).reads = [])
    (hsecure : ∀ h, (t.handles h).secure = (s.handles h).secure)
    (hcallbacks : ∀ h, (t.handles h).hasShutdownCallback = (s.handles h).hasShutdownCallback) :
    t.Flagged := by
  simp only [flagging, Prod.mk.injEq] at ht
  obtain ⟨hflags, hreadable, hwritable, hgone, hconnecting, hmade, hbase, hhandle⟩ := ht
  constructor
  · rw [hgone, hflags, hwritable]; exact hs.queued
  · rw [hgone, hflags, hreadable, hwritable, hconnecting]; exact hs.shut
  · rw [hgone, hflags, hreadable]; exact hs.ended
  · rw [hgone, hreadable]; exact hs.dead
  · rw [hgone, hconnecting, hreadable, hflags, hbase]
    intro halive hc
    obtain ⟨hread, heof, hnone⟩ := hs.early halive hc
    exact ⟨hread, heof, fun h hh => hreads h (hnone h hh)⟩
  · rw [hgone, hhandle, hconnecting, hreadable, hflags]; exact hs.unused
  · simp only [hgone, hconnecting, hbase, hcallbacks]; exact hs.window
  · simp only [hbase, hcallbacks, hflags, hwritable]; exact hs.callbacks
  · simp only [hbase, hmade, hsecure]; exact hs.plain

/-- The handles are the same. -/
theorem Flagged.same (hs : s.Flagged) (ht : t.flagging = s.flagging)
    (hhandles : t.handles = s.handles) : t.Flagged :=
  hs.congr ht (fun h hr => by rw [hhandles]; exact hr) (fun h => by rw [hhandles])
    fun h => by rw [hhandles]

theorem Flagged.onHandle (hs : s.Flagged) {h : ℕ} {f : Handle → Handle}
    (hreads : (s.handles h).reads = [] → (f (s.handles h)).reads = [])
    (hsecure : (f (s.handles h)).secure = (s.handles h).secure)
    (hcallback : (f (s.handles h)).hasShutdownCallback = (s.handles h).hasShutdownCallback) :
    (s.onHandle h f).Flagged := by
  refine hs.congr rfl (fun k hk => ?_) (onHandle_keeps s Handle.secure hsecure)
    (onHandle_keeps s Handle.hasShutdownCallback hcallback)
  by_cases hkh : k = h
  · subst hkh
    rw [onHandle_same]
    exact hreads hk
  · rwa [onHandle_other s hkh]

/-- Once the socket is connected the reads of its handles do not matter. -/
theorem Flagged.read (hs : s.Flagged) (hconnecting : s.connecting = false) (h : ℕ) :
    (s.onHandle h Handle.read).Flagged := by
  have hsecure := onHandle_keeps s (h := h) (f := Handle.read) Handle.secure rfl
  have hcallbacks := onHandle_keeps s (h := h) (f := Handle.read) Handle.hasShutdownCallback rfl
  refine ⟨hs.queued, hs.shut, hs.ended, hs.dead,
    fun _ hc => absurd (hconnecting.symm.trans hc) nofun, hs.unused, ?_, ?_, ?_⟩
  · simp only [hcallbacks]; exact hs.window
  · simp only [hcallbacks]; exact hs.callbacks
  · simp only [hsecure]; exact hs.plain

/-- What `_destroy` leaves of the flags. -/
theorem flagged_destroy (halive : s.destroyed = false)
    (hcallbacks : ∀ h, s.base ≤ h → (s.handles h).hasShutdownCallback = true →
      s.flags.shutdown = true ∧ s.flags.shutdownQueued = false)
    (hplain : ∀ h, s.base ≤ h → h < s.made → (s.handles h).secure = false → h = s.base)
    (error : Option Str) : (s.destroy error).Flagged := by
  obtain ⟨posted, emitted, heq⟩ := destroy_eq halive error
  rw [heq]
  refine ⟨nofun, nofun, nofun, fun _ => rfl, nofun, nofun, nofun, ?_, ?_⟩
  · intro h hh hcallback
    rw [closeHandle_keeps s Handle.hasShutdownCallback fun _ => rfl] at hcallback
    obtain ⟨hshut, hqueued⟩ := hcallbacks h hh hcallback
    exact ⟨hshut, rfl, hqueued⟩
  · intro h hh hlt hsecure
    rw [closeHandle_keeps s Handle.secure fun _ => rfl] at hsecure
    exact hplain h hh hlt hsecure

theorem Flagged.destroy (hs : s.Flagged) (error : Option Str) : (s.destroy error).Flagged := by
  rcases Bool.eq_false_or_eq_true s.destroyed with hgone | halive
  · obtain ⟨posted, emitted, heq⟩ := destroy_again hgone error
    rw [heq]
    exact hs.same rfl rfl
  · refine flagged_destroy halive (fun h hh hcallback => ?_) hs.plain error
    obtain ⟨hshut, -, hqueued⟩ := hs.callbacks h hh hcallback
    exact ⟨hshut, hqueued⟩

/-- A read of the current handle that has completed is on a socket that is connected. -/
theorem Flagged.connected_of_read (hs : s.Flagged) (hws : s.Wf) (hps : s.Phase) {h k n : ℕ}
    (hhandle : s.handle = some h) (htaken : (s.handles h).reads[k]? = some n) :
    s.connecting = false := by
  by_contra hconnecting
  obtain ⟨-, -, hreads⟩ := hs.early (hws.alive hhandle) (by simpa using hconnecting)
  simp [hreads h (hps.current h hhandle)] at htaken

theorem Flagged.takeRead (hs : s.Flagged) (h k : ℕ) : (s.takeRead h k).Flagged :=
  hs.onHandle (fun hnone => by simp [hnone]) rfl rfl

/-- The end of what the peer sends comes before the call of `shutdown`, or destroys the socket. -/
theorem Flagged.quiet (hs : s.Flagged) (hws : s.Wf) (hps : s.Phase) (hq : Quiet s t) : t.Flagged := by
  cases hq with
  | unpause | secure | fail | wait | emit | lookedUp => exact hs.same rfl rfl
  | @read h handle connected idle flowing => exact hs.read connected h
  | shut =>
    refine ⟨fun _ _ => rfl, fun halive hshut => ?_, hs.ended, hs.dead, hs.early, hs.unused,
      hs.window, fun h hh hcallback => ?_, hs.plain⟩
    · obtain ⟨hreadable, heof, -, hqueued, hconnecting⟩ := hs.shut halive hshut
      exact ⟨hreadable, heof, rfl, hqueued, hconnecting⟩
    · obtain ⟨hshut, -, hqueued⟩ := hs.callbacks h hh hcallback
      exact ⟨hshut, rfl, hqueued⟩
  | finishLater connecting =>
    refine ⟨fun _ _ => rfl, fun halive hshut => ?_, hs.ended, hs.dead, hs.early,
      fun _ _ hc => absurd (hc.symm.trans connecting) nofun, hs.window,
      fun h hh hcallback => ?_, hs.plain⟩
    · obtain ⟨-, -, -, -, hconnecting⟩ := hs.shut halive hshut
      exact absurd (hconnecting.symm.trans connecting) nofun
    · obtain ⟨hshut, -, -⟩ := hs.callbacks h hh hcallback
      rcases Bool.eq_false_or_eq_true s.destroyed with hgone | halive
      · exact absurd ((hs.window hgone connecting h hh).symm.trans hcallback) nofun
      · obtain ⟨-, -, -, -, hconnecting⟩ := hs.shut halive hshut
        exact absurd (hconnecting.symm.trans connecting) nofun
  | soon =>
    refine ⟨fun _ _ => rfl, fun halive hshut => ?_, hs.ended, hs.dead, hs.early, hs.unused,
      hs.window, fun h hh hcallback => ?_, hs.plain⟩
    · obtain ⟨hreadable, heof, -, hqueued, hconnecting⟩ := hs.shut halive hshut
      exact ⟨hreadable, heof, rfl, hqueued, hconnecting⟩
    · obtain ⟨hshut, -, hqueued⟩ := hs.callbacks h hh hcallback
      exact ⟨hshut, rfl, hqueued⟩
  | shutdown readable writable queued =>
    have halive : s.destroyed = false := by
      by_contra hgone
      exact absurd ((hs.dead (by simpa using hgone)).symm.trans readable) nofun
    have hnot : s.flags.shutdownQueued = false := by
      by_contra hq
      exact absurd ((hs.queued halive (by simpa using hq)).symm.trans writable) nofun
    have hconnecting : s.connecting = false := by
      by_contra hc
      exact absurd (hnot.symm.trans (queued (by simpa using hc))) nofun
    have heof : s.flags.gotEof = false := by
      by_contra he
      exact absurd ((hs.ended halive (by simpa using he)).symm.trans readable) nofun
    refine ⟨fun _ _ => rfl, fun _ _ => ⟨readable, heof, rfl, hnot, hconnecting⟩, hs.ended, hs.dead,
      hs.early, fun _ hnone _ => ?_, hs.window, fun h hh hcallback => ?_, hs.plain⟩
    · exact absurd ((hs.unused halive hnone hconnecting).1.symm.trans readable) nofun
    · obtain ⟨-, hwritable, -⟩ := hs.callbacks h hh hcallback
      exact absurd (hwritable.symm.trans writable) nofun
  | @shutdownHandle h error handle flag done =>
    have halive := hws.alive handle
    obtain ⟨hreadable, heof, hwritable, hqueued, hconnecting⟩ := hs.shut halive flag
    obtain ⟨-, -, -, hsecure, -⟩ := shutdown_writes (s.handles h) error
    refine ⟨hs.queued, hs.shut, hs.ended, hs.dead,
      fun _ hc => absurd (hconnecting.symm.trans hc) nofun, hs.unused,
      fun hgone => absurd (halive.symm.trans hgone) nofun, fun _ _ _ => ⟨flag, hwritable, hqueued⟩, ?_⟩
    have hkeep := onHandle_keeps s
      (f := fun x => { (x.shutdown error).2 with hasShutdownCallback := true }) Handle.secure hsecure
    simp only [hkeep]
    exact hs.plain
  | @shutdownFailed h error message handle flag failed =>
    obtain ⟨-, -, -, hsecure, -⟩ := shutdown_writes (s.handles h) error
    refine Flagged.destroy (s := s.onHandle h fun x => (x.shutdown error).2) ?_ _
    refine hs.onHandle ?_ hsecure ?_
    all_goals
      unfold Handle.shutdown
      split_ifs
    all_goals first | exact id | rfl
  | destroyIdle | destroyShut => exact hs.destroy none
  | @dropRead h k n taken deaf => exact hs.takeRead h k
  | @data h k n taken handle callback =>
    have hdata : ((s.takeRead h k).onHandle h
        fun x => { x with reading := false, delivered := x.delivered ++ [n] }).Flagged :=
      (hs.takeRead h k).onHandle id rfl rfl
    exact hdata.same rfl rfl
  | @eof h k n taken handle first writable =>
    have hread := hs.takeRead h k
    have halive := hws.alive handle
    have hconnecting := hs.connected_of_read hws hps handle taken
    refine ⟨hs.queued, fun _ hshut => ?_, fun _ _ => rfl, fun _ => rfl,
      fun _ hc => absurd (hconnecting.symm.trans hc) nofun,
      fun _ hnone => absurd (hnone.symm.trans handle) nofun, hread.window, hread.callbacks, hread.plain⟩
    obtain ⟨-, -, hwritable, -⟩ := hs.shut halive hshut
    exact absurd (hwritable.symm.trans writable) nofun
  | @eofAgain h k n taken handle again =>
    have hread := hs.takeRead h k
    have halive := hws.alive handle
    have hconnecting := hs.connected_of_read hws hps handle taken
    refine ⟨hs.queued, fun _ hshut => ?_, fun _ _ => rfl, fun _ => rfl,
      fun _ hc => absurd (hconnecting.symm.trans hc) nofun,
      fun _ hnone => absurd (hnone.symm.trans handle) nofun, hread.window, hread.callbacks, hread.plain⟩
    obtain ⟨-, heof, -⟩ := hs.shut halive hshut
    exact absurd (heof.symm.trans again) nofun
  | closePending h =>
    obtain ⟨-, -, -, hsecure, -⟩ := closeIfPending_writes (s.handles h)
    refine hs.onHandle ?_ hsecure ?_
    all_goals
      unfold Handle.closeIfPending
      split_ifs
    all_goals first | exact id | rfl
  | sendShut | shutdownDone | handshake | handshakeDone | dialed | called =>
    exact hs.onHandle id rfl rfl

theorem Flagged.quiets (hs : s.Flagged) (hws : s.Wf) (hps : s.Phase) (hq : Quiets s t) : t.Flagged := by
  have hall : t.Flagged ∧ t.Wf ∧ t.Phase :=
    Quiets.invariant (I := fun u => u.Flagged ∧ u.Wf ∧ u.Phase)
      (fun hu hmove => ⟨hu.1.quiet hu.2.1 hu.2.2 hmove, hu.2.1.quiet hmove, hu.2.2.keeps hmove.keeps⟩)
      ⟨hs, hws, hps⟩ hq
  exact hall.1

/-! ### The steps -/

theorem Flagged.give (hs : s.Flagged) (h : ℕ) (data : Str) : (s.give h data).Flagged :=
  (hs.onHandle (h := h) (f := fun x => { x with native := (x.native.write data).2 }) id rfl
    rfl).same rfl rfl

theorem Flagged.write (hs : s.Flagged) {data : Str} (ht : s.write data = some t) : t.Flagged := by
  obtain ⟨-, rfl⟩ | ⟨-, h, -, ⟨-, rfl⟩ | ⟨-, rfl⟩⟩ := write_cases ht
  · exact hs.same rfl rfl
  · exact hs.same rfl rfl
  · exact (hs.give h data).same rfl rfl

theorem Flagged.advance (hs : s.Flagged) {g : ℕ} (hhandle : s.handle = some g) :
    s.advance.Flagged := by
  obtain ⟨-, heq⟩ | ⟨data, rest, -, ⟨-, heq⟩ | ⟨-, heq⟩⟩ := advance_cases hhandle <;> rw [heq]
  · exact hs
  · exact hs.same rfl rfl
  · exact Flagged.give (s := { s with writeQueue := rest }) (hs.same rfl rfl) g data

theorem Flagged.notConnecting (hs : s.Flagged) {h : ℕ} (hhandle : s.handle = some h) :
    ({ s with connecting := false } : Connection).Flagged := by
  refine ⟨hs.queued, fun halive hshut => ?_, hs.ended, hs.dead, nofun,
    fun _ hnone => absurd (hnone.symm.trans hhandle) nofun, nofun, hs.callbacks, hs.plain⟩
  obtain ⟨hreadable, heof, hwritable, hqueued, -⟩ := hs.shut halive hshut
  exact ⟨hreadable, heof, hwritable, hqueued, rfl⟩

/-- The connection is made. -/
theorem Flagged.nowReadable (hs : s.Flagged) (halive : s.destroyed = false)
    (hconnecting : s.connecting = true) {h : ℕ} (hhandle : s.handle = some h) :
    ({ s with connecting := false, readable := true } : Connection).Flagged := by
  obtain ⟨-, heof, -⟩ := hs.early halive hconnecting
  refine ⟨hs.queued, fun _ hshut => ?_, fun _ he => absurd (heof.symm.trans he) nofun,
    fun hgone => absurd (halive.symm.trans hgone) nofun, nofun,
    fun _ hnone => absurd (hnone.symm.trans hhandle) nofun, nofun, hs.callbacks, hs.plain⟩
  obtain ⟨-, -, -, -, hnot⟩ := hs.shut halive hshut
  exact absurd (hnot.symm.trans hconnecting) nofun

theorem Flagged.drainConnectQueue (hs : ({ s with connecting := false } : Connection).Flagged)
    (ht : s.drainConnectQueue = some t) : t.Flagged := by
  obtain ⟨queue, -, ⟨-, rfl⟩ | ⟨h, -, ⟨-, rfl⟩ | ⟨data, rest, -, -, rfl⟩⟩⟩ :=
    drainConnectQueue_cases ht
  · exact hs.same rfl rfl
  · exact hs.same rfl rfl
  · exact (hs.give h data).same rfl rfl

theorem Flagged.connected (hs : s.Flagged) (halive : s.destroyed = false)
    (hconnecting : s.connecting = true) {h : ℕ} (hhandle : s.handle = some h) :
    ({ s with connecting := false } : Connection).connected.Flagged := by
  have hread := hs.nowReadable halive hconnecting hhandle
  obtain ⟨-, heq⟩ | ⟨-, -, heq⟩ | ⟨-, -, heq⟩ :=
    connected_cases (s := { s with connecting := false }) hhandle
  · rw [heq]
    exact hread
  · rw [heq]
    exact hread.same rfl rfl
  · exact Flagged.drainConnectQueue (s := { s with connecting := false, readable := true }) hread heq

/-- `initSocketHandle` sets the flags up anew. -/
theorem flagged_makeHandle (hws : s.Wf) (hreadable : s.readable = false) (hmade : s.made = s.base) : s.makeHandle.Flagged := by
  have hnew : ∀ h, s.base ≤ h → (s.makeHandle.handles h).reads = [] ∧
      (s.makeHandle.handles h).hasShutdownCallback = false := by
    intro h hh
    by_cases hlast : h = s.made
    · simp [makeHandle, initSocketHandle, hlast, Handle.new]
    · have hunmade := hws.unmade h (hmade.trans_le hh)
      simp [makeHandle, initSocketHandle, hlast, hunmade, Handle.new]
  have hfalse {P : Prop} (h : false = true) : P := absurd h Bool.false_ne_true
  refine ⟨fun _ => hfalse, fun _ => hfalse, fun _ => hfalse, hfalse,
    fun _ _ => ⟨hreadable, rfl, fun h hh => (hnew h hh).1⟩,
    fun _ hnone => absurd hnone (Option.some_ne_none _), hfalse, fun h hh hcallback => ?_,
    fun h hh hlt _ => ?_⟩
  · exact absurd ((hnew h hh).2.symm.trans hcallback) (by simp)
  · have hle : s.base ≤ h := hh
    have hlt : h < s.made + 1 := hlt
    have heq : h = s.base := by omega
    exact heq

theorem Flagged.dial (hs : s.Flagged) (error : Option Str) : (s.dial error).Flagged := by
  cases error with
  | some message => exact hs.destroy (some message)
  | none =>
    unfold Connection.dial
    dsimp only
    split
    · exact hs
    · exact hs.onHandle id rfl rfl

theorem Flagged.unreadable (hs : s.Flagged) (hconnecting : s.connecting = true) :
    s.readable = false := by
  rcases Bool.eq_false_or_eq_true s.destroyed with hgone | halive
  · exact hs.dead hgone
  · exact (hs.early halive hconnecting).1

theorem Flagged.begins (hs : s.Flagged) (hws : s.Wf) (hps : s.Phase) {e : ConnectionEvent}
    (hown : s.Own e) (hb : Begins s e t) : t.Flagged := by
  have hnow : ({ s with waiting := none } : Connection).Flagged := hs.same rfl rfl
  cases hb with
  | nothing => exact hs
  | pause | undrained | lookupFailed => exact hs.same rfl rfl
  | destroy error => exact hs.destroy error
  | write asked taken => exact hs.write taken
  | @secured h handle plain =>
    have hlt := hws.lt handle
    have hbase := hps.current h handle
    have hnew : ∀ k, (Function.update s.handles s.made (.new true (s.handles h).hasReadCallback) k
        ).reads = (s.handles k).reads ∧
        (Function.update s.handles s.made (.new true (s.handles h).hasReadCallback) k
        ).hasShutdownCallback = (s.handles k).hasShutdownCallback := by
      intro k
      by_cases hk : k = s.made
      · subst hk
        rw [Function.update_self, hws.unmade _ le_rfl]
        exact ⟨rfl, rfl⟩
      · rw [Function.update_of_ne hk]
        exact ⟨rfl, rfl⟩
    refine ⟨hs.queued, hs.shut, hs.ended, hs.dead, fun halive hconnecting => ?_, by simp, ?_, ?_,
      fun k hk hkm hplain => ?_⟩
    · obtain ⟨hreadable, heof, hreads⟩ := hs.early halive hconnecting
      exact ⟨hreadable, heof, fun k hk => (hnew k).1.trans (hreads k hk)⟩
    · intro hgone hconnecting k hk
      exact (hnew k).2.trans (hs.window hgone hconnecting k hk)
    · intro k hk hcallback
      exact hs.callbacks k hk ((hnew k).2.symm.trans hcallback)
    · by_cases hlast : k = s.made
      · simp [hlast, Handle.new] at hplain
      · have hlt : k < s.made + 1 := hkm
        exact hs.plain k hk (by omega) (by simpa [hlast] using hplain)
  | @completed h k data ended alive =>
    obtain ⟨g, hhandle⟩ := hws.handle_of_outstanding alive ended
    have hcomplete : (s.onHandle h fun x => { x with native := x.native.complete k data }).Flagged :=
      hs.onHandle id rfl rfl
    exact (hcomplete.advance hhandle).same rfl rfl
  | late ended gone => exact hs.onHandle id rfl rfl
  | failed ended alive => exact Flagged.destroy (hs.onHandle id rfl rfl) _
  | @eof h k n taken handle callback first writable idle =>
    have hread := hs.takeRead h k
    refine flagged_destroy (s := s.atEof h k) (hws.alive handle) (fun j hj hcallback => ?_)
      hread.plain none
    obtain ⟨hshut, -, hqueued⟩ := hread.callbacks j hj hcallback
    exact ⟨hshut, hqueued⟩
  | @rearm g h error frame handle idle readable =>
    refine hnow.read ?_ h
    by_contra hconnecting
    exact absurd ((hs.unreadable (by simpa using hconnecting)).symm.trans readable) (by simp)
  | finishNow frame queued =>
    have hnone : ∀ h, s.base ≤ h → (s.handles h).hasShutdownCallback = true → False := by
      intro h hh hcallback
      obtain ⟨-, -, hnot⟩ := hs.callbacks h hh hcallback
      exact absurd (hnot.symm.trans queued) (by simp)
    refine ⟨by simp, fun halive hshut => ?_, hs.ended, hs.dead, hs.early, fun halive hnone hc => ?_,
      hs.window, fun h hh hcallback => (hnone h hh hcallback).elim, hs.plain⟩
    · obtain ⟨-, -, -, hqueued, -⟩ := hs.shut halive hshut
      exact absurd (hqueued.symm.trans queued) (by simp)
    · obtain ⟨hreadable, hshut, heof, -⟩ := hs.unused halive hnone hc
      exact ⟨hreadable, hshut, heof, rfl⟩
  | raised frame => exact hnow.destroy _
  | unfound frame => exact hnow.destroy none
  | drained frame drained =>
    obtain ⟨queue, hqueue, hcase⟩ := drainConnectQueue_cases drained
    obtain hnone | ⟨g, hhandle⟩ := Option.eq_none_or_eq_some s.handle
    · -- without a handle the queue waits for `connect_callback`
      have hdrains := hws.frame _ _ frame
      have hconnecting := hps.unopened hnone (by rw [show s.connectQueue = some queue from hqueue]; rfl)
      exact absurd ((hps.drains (by omega)).symm.trans hconnecting) (by simp)
    · refine Flagged.drainConnectQueue (s := { s with waiting := none, drains := s.drains - 1 }) ?_
        drained
      exact (hs.notConnecting hhandle).same rfl rfl
  | @found i error pending connecting =>
    obtain rfl := hown i _ rfl pending connecting
    obtain ⟨hnone, hmade⟩ := hps.looking pending connecting
    dsimp only
    rw [if_pos (by simp [hnone])]
    exact (flagged_makeHandle (s := { s with lookups := s.lookups.erase s.connects })
      (hws.congr rfl) (hs.unreadable connecting) hmade).dial error
  | @connected h idle begun callback handle alive =>
    have hconnecting : s.connecting = true :=
      (hps.callback h (hps.current h handle) callback).resolve_right (by simp [alive])
    have htake : (s.takeConnect h).Flagged := hs.onHandle id rfl rfl
    exact htake.connected alive hconnecting handle
  | unconnected begun callback handle alive => exact Flagged.destroy (hs.onHandle id rfl rfl) _

/-- A socket is connected when it is new, or destroyed. -/
theorem Flagged.connect (hs : s.Flagged) (hws : s.Wf) (hhandle : s.handle = none)
    (hconnecting : s.connecting = false) (host : Bool) (error : Option Str) :
    (s.connect host error).Flagged := by
  have hreadable : s.readable = false := by
    rcases Bool.eq_false_or_eq_true s.destroyed with hgone | halive
    · exact hs.dead hgone
    · exact (hs.unused halive hhandle hconnecting).1
  have hnew : ∀ h, s.made ≤ h → (s.handles h).reads = [] ∧
      (s.handles h).hasShutdownCallback = false := by
    intro h hh
    rw [hws.unmade h hh]
    exact ⟨rfl, rfl⟩
  unfold Connection.connect
  dsimp only
  split_ifs
  · refine ⟨fun halive hqueued => ?_, fun halive hshut => ?_, fun _ _ => hreadable,
      fun _ => hreadable, fun halive _ => ?_, nofun, fun _ _ h hh => (hnew h hh).2,
      fun h hh hcallback => absurd ((hnew h hh).2.symm.trans hcallback) nofun, fun h hh hlt => ?_⟩
    · obtain ⟨-, -, -, hnot⟩ := hs.unused halive hhandle hconnecting
      exact absurd (hnot.symm.trans hqueued) nofun
    · obtain ⟨-, hnot, -, -⟩ := hs.unused halive hhandle hconnecting
      exact absurd (hnot.symm.trans hshut) nofun
    · obtain ⟨-, -, heof, -⟩ := hs.unused halive hhandle hconnecting
      exact ⟨hreadable, heof, fun h hh => (hnew h hh).1⟩
    · have hle : s.made ≤ h := hh
      have hlt : h < s.made := hlt
      omega
  · exact (flagged_makeHandle (s := { s with
      connecting := true
      writable := true
      base := s.made
      connects := s.connects + 1
      written := []
      handed := [] }) (hws.congr rfl) hreadable rfl).dial error

theorem fresh_flagged (allowHalfOpen secure : Bool) : (fresh allowHalfOpen secure).Flagged :=
  ⟨nofun, nofun, nofun, nofun, nofun, fun _ _ _ => ⟨rfl, rfl, rfl, rfl⟩, nofun, nofun, nofun⟩

theorem accepted_flagged (allowHalfOpen : Bool) : (accepted allowHalfOpen).Flagged := by
  refine ⟨nofun, nofun, nofun, nofun, nofun, nofun, nofun, nofun, fun h _ hh _ => ?_⟩
  have hlt : h < 1 := hh
  have hzero : h = 0 := by omega
  exact hzero

end LuaNode.Net.Connection
