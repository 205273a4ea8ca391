import LuaNode.Net.Connection

/-!
# The handles of a socket

What the functions that every handler ends in do to the handles: writing a string, emptying a queue
into the handle, closing it. `Wf` is what every step keeps: `_handle` is the handle made last and it
is open, a socket that is destroyed has none, and the writes of each handle complete one at a time.
-/

namespace LuaNode.Net.Connection

variable {s t : Connection}

@[simp]
theorem onHandle_same (s : Connection) (h : ℕ) (f : Handle → Handle) :
    (s.onHandle h f).handles h = f (s.handles h) := by
  simp [onHandle]

theorem onHandle_other (s : Connection) {h k : ℕ} (hk : k ≠ h) (f : Handle → Handle) :
    (s.onHandle h f).handles k = s.handles k := by
  simp [onHandle, hk]

/-- What is kept of one handle is kept of all of them. -/
theorem onHandle_keeps (s : Connection) {h : ℕ} {f : Handle → Handle} {α : Type*}
    (field : Handle → α) (hf : field (f (s.handles h)) = field (s.handles h)) (k : ℕ) :
    field ((s.onHandle h f).handles k) = field (s.handles k) := by
  by_cases hk : k = h
  · subst hk
    rw [onHandle_same, hf]
  · rw [onHandle_other s hk]

/-! ### Closing -/

theorem fireErrorCallbacks_eq (s : Connection) (error : Option Str) :
    ∃ posted emitted,
      s.fireErrorCallbacks error = { s with posted := posted, errorEmitted := emitted } := by
  unfold fireErrorCallbacks
  cases error with
  | none => exact ⟨_, _, rfl⟩
  | some message =>
    dsimp only
    split_ifs <;> exact ⟨_, _, rfl⟩

theorem closeHandle_of_some {h : ℕ} (hhandle : s.handle = some h) :
    s.closeHandle =
      { s.onHandle h fun x => { x with native := x.native.close, hasReadCallback := false } with
        handle := none } := by
  unfold closeHandle
  rw [hhandle]

theorem closeHandle_of_none (hhandle : s.handle = none) : s.closeHandle = s := by
  unfold closeHandle
  rw [hhandle]

/-- `_handle:close()` keeps what it says nothing about. -/
theorem closeHandle_keeps (s : Connection) {α : Type*} (field : Handle → α)
    (hfield : ∀ x : Handle,
      field { x with native := x.native.close, hasReadCallback := false } = field x) (k : ℕ) :
    field (s.closeHandle.handles k) = field (s.handles k) := by
  cases hhandle : s.handle with
  | none => rw [closeHandle_of_none hhandle]
  | some h =>
    rw [closeHandle_of_some hhandle]
    exact onHandle_keeps s (f := fun x => { x with native := x.native.close, hasReadCallback := false })
      field (hfield _) k

theorem destroy_of_destroyed (hdestroyed : s.destroyed = true) (error : Option Str) :
    s.destroy error = s.fireErrorCallbacks error :=
  if_pos hdestroyed

/-- What `_destroy` does to a socket that lives. -/
theorem destroy_eq (hdestroyed : s.destroyed = false) (error : Option Str) :
    ∃ posted emitted, s.destroy error = { s with
      connecting := false
      connectQueue := none
      readable := false
      writable := false
      handles := s.closeHandle.handles
      handle := none
      posted := posted
      errorEmitted := emitted
      destroyed := true } := by
  obtain ⟨posted, emitted, heq⟩ := fireErrorCallbacks_eq
    ({ s.connectQueueCleanUp with readable := false, writable := false } : Connection).closeHandle
    error
  refine ⟨posted ++ [.close error.isSome], emitted, ?_⟩
  unfold destroy
  rw [if_neg (by simp [hdestroyed])]
  dsimp only at heq ⊢
  rw [heq]
  unfold closeHandle connectQueueCleanUp onHandle
  dsimp only
  cases s.handle <;> rfl

/-- A socket that is destroyed stays as it is, but for the error. -/
theorem destroy_again (hdestroyed : s.destroyed = true) (error : Option Str) :
    ∃ posted emitted,
      s.destroy error = { s with posted := posted, errorEmitted := emitted } := by
  rw [destroy_of_destroyed hdestroyed]
  exact s.fireErrorCallbacks_eq error

theorem destroy_destroyed (s : Connection) (error : Option Str) :
    (s.destroy error).destroyed = true := by
  cases hdestroyed : s.destroyed with
  | true =>
    obtain ⟨posted, emitted, heq⟩ := destroy_again hdestroyed error
    rw [heq]
    exact hdestroyed
  | false =>
    obtain ⟨posted, emitted, heq⟩ := destroy_eq hdestroyed error
    rw [heq]

/-- `_connectQueueCleanUp` is part of `_destroy`. -/
theorem cleanUp_destroy (hdestroyed : s.destroyed = false) (error : Option Str) :
    s.connectQueueCleanUp.destroy error = s.destroy error := by
  unfold destroy
  rw [if_neg (by simp [connectQueueCleanUp, hdestroyed]), if_neg (by simp [hdestroyed])]
  rfl

/-! ### Writing -/

/-- The string is given to the native handle. -/
def give (s : Connection) (h : ℕ) (data : Str) : Connection :=
  { s.onHandle h fun x => { x with native := (x.native.write data).2 } with
    pendingWriteReqs := s.pendingWriteReqs + 1
    handed := s.handed ++ [data] }

theorem rawWrite_of_none (hhandle : s.handle = none) (data : Str) : s.rawWrite data = none := by
  unfold rawWrite
  rw [hhandle]

theorem rawWrite_of_idle {h : ℕ} (hhandle : s.handle = some h)
    (hidle : (s.handles h).native.pendingWrites = 0) (data : Str) :
    s.rawWrite data = some (s.give h data) := by
  unfold rawWrite
  rw [hhandle]
  dsimp only
  rw [if_pos (by rw [Native.write_of_idle hidle])]
  rfl

theorem rawWrite_of_pending {h : ℕ} (hhandle : s.handle = some h)
    (hpending : (s.handles h).native.pendingWrites > 0) (data : Str) :
    s.rawWrite data = some { s with writeQueue := s.writeQueue ++ [data] } := by
  unfold rawWrite
  rw [hhandle]
  dsimp only
  rw [if_neg (by rw [Native.write_of_pending hpending]; exact Bool.false_ne_true)]

theorem handle_of_rawWrite {data : Str} (ht : s.rawWrite data = some t) :
    ∃ h, s.handle = some h := by
  cases hhandle : s.handle with
  | none =>
    rw [rawWrite_of_none hhandle] at ht
    cases ht
  | some h => exact ⟨h, rfl⟩

theorem write_of_connecting (hconnecting : s.connecting = true) (data : Str) :
    s.write data = some { s with
      connectQueue := some (s.connectQueue.getD [] ++ [data])
      written := s.written ++ [data] } :=
  if_pos hconnecting

theorem write_of_connected (hconnecting : s.connecting = false) (data : Str) :
    s.write data = (s.rawWrite data).map fun s => { s with written := s.written ++ [data] } :=
  if_neg (by simp [hconnecting])

/-- What `write` may do: queue the string up, or begin to write it. -/
theorem write_cases {data : Str} (ht : s.write data = some t) :
    (s.connecting = true ∧ t = { s with
      connectQueue := some (s.connectQueue.getD [] ++ [data])
      written := s.written ++ [data] }) ∨
    (s.connecting = false ∧ ∃ h, s.handle = some h ∧
      ((0 < (s.handles h).native.pendingWrites ∧ t = { s with
          writeQueue := s.writeQueue ++ [data]
          written := s.written ++ [data] }) ∨
        ((s.handles h).native.pendingWrites = 0 ∧
          t = { s.give h data with written := s.written ++ [data] }))) := by
  rcases Bool.eq_false_or_eq_true s.connecting with hconnecting | hconnecting
  · rw [write_of_connecting hconnecting] at ht
    exact Or.inl ⟨hconnecting, (Option.some.inj ht).symm⟩
  · rw [write_of_connected hconnecting] at ht
    obtain ⟨u, hu, rfl⟩ := Option.map_eq_some_iff.mp ht
    obtain ⟨h, hhandle⟩ := handle_of_rawWrite hu
    refine Or.inr ⟨hconnecting, h, hhandle, ?_⟩
    rcases Nat.eq_zero_or_pos (s.handles h).native.pendingWrites with hidle | hpending
    · rw [rawWrite_of_idle hhandle hidle] at hu
      obtain rfl := Option.some.inj hu
      exact Or.inr ⟨hidle, rfl⟩
    · rw [rawWrite_of_pending hhandle hpending] at hu
      obtain rfl := Option.some.inj hu
      exact Or.inl ⟨hpending, rfl⟩

theorem writeAll_of_pending {h : ℕ} (hhandle : s.handle = some h)
    (hpending : (s.handles h).native.pendingWrites > 0) (queue : List Str) :
    writeAll queue s = some { s with writeQueue := s.writeQueue ++ queue } := by
  induction queue generalizing s with
  | nil => simp [writeAll]
  | cons data rest ih =>
    rw [writeAll, rawWrite_of_pending hhandle hpending, Option.bind_some,
      ih (s := { s with writeQueue := s.writeQueue ++ [data] }) hhandle hpending]
    simp

/-- The first string goes to a handle that is idle, and the others are queued behind it. -/
theorem writeAll_of_idle {h : ℕ} (hhandle : s.handle = some h)
    (hidle : (s.handles h).native.pendingWrites = 0) (data : Str) (rest : List Str) :
    writeAll (data :: rest) s =
      some { s.give h data with writeQueue := s.writeQueue ++ rest } := by
  have hpending : ((s.give h data).handles h).native.pendingWrites > 0 := by
    simp [give, Native.write_of_idle hidle]
  rw [writeAll, rawWrite_of_idle hhandle hidle, Option.bind_some,
    writeAll_of_pending (s := s.give h data) hhandle hpending]
  rfl

/-- What `drainConnectQueue` may do to a socket with a handle. -/
theorem drainConnectQueue_cases (ht : s.drainConnectQueue = some t) :
    ∃ queue, s.connectQueue = some queue ∧
      ((queue = [] ∧ t = s.connectQueueCleanUp) ∨
        ∃ h, s.handle = some h ∧
          ((0 < (s.handles h).native.pendingWrites ∧
              t = { s.connectQueueCleanUp with writeQueue := s.writeQueue ++ queue }) ∨
            ∃ data rest, queue = data :: rest ∧ (s.handles h).native.pendingWrites = 0 ∧
              t = { (s.give h data).connectQueueCleanUp with
                writeQueue := s.writeQueue ++ rest })) := by
  unfold drainConnectQueue at ht
  cases hqueue : s.connectQueue with
  | none =>
    rw [hqueue] at ht
    cases ht
  | some queue =>
    rw [hqueue] at ht
    obtain ⟨u, hu, rfl⟩ := Option.map_eq_some_iff.mp ht
    refine ⟨queue, rfl, ?_⟩
    cases queue with
    | nil =>
      obtain rfl := Option.some.inj hu
      exact Or.inl ⟨rfl, rfl⟩
    | cons data rest =>
      obtain ⟨v, hv, -⟩ := Option.bind_eq_some_iff.mp hu
      obtain ⟨h, hhandle⟩ := handle_of_rawWrite hv
      refine Or.inr ⟨h, hhandle, ?_⟩
      rcases Nat.eq_zero_or_pos (s.handles h).native.pendingWrites with hidle | hpending
      · rw [writeAll_of_idle hhandle hidle] at hu
        obtain rfl := Option.some.inj hu
        exact Or.inr ⟨data, rest, rfl, hidle, rfl⟩
      · rw [writeAll_of_pending hhandle hpending] at hu
        obtain rfl := Option.some.inj hu
        exact Or.inl ⟨hpending, rfl⟩

theorem drainConnectQueue_isSome {h : ℕ} (hhandle : s.handle = some h)
    (hqueue : s.connectQueue.isSome = true) : ∃ t, s.drainConnectQueue = some t := by
  obtain ⟨queue, hqueue⟩ := Option.isSome_iff_exists.mp hqueue
  suffices ∃ t, writeAll queue s = some t by
    obtain ⟨t, ht⟩ := this
    exact ⟨t.connectQueueCleanUp, by simp [drainConnectQueue, hqueue, ht]⟩
  cases queue with
  | nil => exact ⟨s, rfl⟩
  | cons data rest =>
    rcases Nat.eq_zero_or_pos (s.handles h).native.pendingWrites with hidle | hpending
    · exact ⟨_, writeAll_of_idle hhandle hidle data rest⟩
    · exact ⟨_, writeAll_of_pending hhandle hpending _⟩

/-! ### The invariant -/

structure Wf (s : Connection) : Prop where
  last : ∀ h, s.handle = some h → h + 1 = s.made
  unmade : ∀ h, s.made ≤ h → s.handles h = .new false true
  native : ∀ h, (s.handles h).native.Orderly
  opened : ∀ h, s.handle = some h →
    (s.handles h).native.isOpen = true ∧ (s.handles h).native.closePending = false
  gone : s.destroyed = true → s.handle = none
  first : s.handle = none → s.destroyed = true ∨ s.made = 0
  frame : ∀ h rest, s.waiting = some (.secure h rest) → rest ≤ s.drains

/-- What `Wf` is about. -/
def table (s : Connection) : (ℕ → Handle) × ℕ × Option ℕ × Bool × Option Waiting × ℕ :=
  (s.handles, s.made, s.handle, s.destroyed, s.waiting, s.drains)

theorem Wf.congr (hs : s.Wf) (ht : t.table = s.table) : t.Wf := by
  simp only [table, Prod.mk.injEq] at ht
  obtain ⟨hhandles, hmade, hhandle, hdestroyed, hwaiting, hdrains⟩ := ht
  constructor
  · rw [hhandle, hmade]; exact hs.last
  · rw [hhandles, hmade]; exact hs.unmade
  · rw [hhandles]; exact hs.native
  · rw [hhandles, hhandle]; exact hs.opened
  · rw [hhandle, hdestroyed]; exact hs.gone
  · rw [hhandle, hdestroyed, hmade]; exact hs.first
  · rw [hwaiting, hdrains]; exact hs.frame

theorem new_orderly (secure hasReadCallback : Bool) :
    (Handle.new secure hasReadCallback).native.Orderly :=
  ⟨rfl, rfl, Nat.zero_le _, nofun⟩

theorem Wf.lt (hs : s.Wf) {h : ℕ} (hhandle : s.handle = some h) : h < s.made := by
  have := hs.last h hhandle
  omega

/-- A handle on which something was begun has been made. -/
theorem Wf.lt_of_ne (hs : s.Wf) {h : ℕ} {α : Type*} (field : Handle → α)
    (hne : field (s.handles h) ≠ field (.new false true)) : h < s.made := by
  by_contra hle
  exact hne (by rw [hs.unmade h (by omega)])

/-- A handle changes. -/
theorem Wf.onHandle (hs : s.Wf) {h : ℕ} {f : Handle → Handle}
    (hmade : s.made ≤ h → f (s.handles h) = s.handles h)
    (hnative : (f (s.handles h)).native.Orderly)
    (hopened : s.handle = some h → (f (s.handles h)).native.isOpen = true ∧
      (f (s.handles h)).native.closePending = false) : (s.onHandle h f).Wf := by
  refine ⟨hs.last, fun k hk => ?_, fun k => ?_, fun k hk => ?_, hs.gone, hs.first, hs.frame⟩
  all_goals by_cases hkh : k = h
  · subst hkh
    rw [onHandle_same, hmade hk]
    exact hs.unmade k hk
  · rw [onHandle_other s hkh]
    exact hs.unmade k hk
  · subst hkh
    rwa [onHandle_same]
  · rw [onHandle_other s hkh]
    exact hs.native k
  · subst hkh
    rw [onHandle_same]
    exact hopened hk
  · rw [onHandle_other s hkh]
    exact hs.opened k hk

/-- A field of a handle changes, and not its native socket. -/
theorem Wf.onHandle_native (hs : s.Wf) {h : ℕ} {f : Handle → Handle}
    (hmade : s.made ≤ h → f (s.handles h) = s.handles h)
    (hnative : (f (s.handles h)).native = (s.handles h).native) : (s.onHandle h f).Wf :=
  hs.onHandle hmade (hnative ▸ hs.native h) (by rw [hnative]; exact hs.opened h)

theorem Wf.destroy (hs : s.Wf) (error : Option Str) : (s.destroy error).Wf := by
  cases hdestroyed : s.destroyed with
  | true =>
    obtain ⟨posted, emitted, heq⟩ := destroy_again hdestroyed error
    rw [heq]
    exact hs.congr rfl
  | false =>
    obtain ⟨posted, emitted, heq⟩ := destroy_eq hdestroyed error
    rw [heq]
    refine ⟨nofun, fun k hk => ?_, fun k => ?_, nofun, fun _ => rfl, fun _ => Or.inl rfl, hs.frame⟩
    all_goals
      dsimp only at *
      cases hhandle : s.handle with
      | none =>
        rw [closeHandle_of_none hhandle]
        first | exact hs.unmade k hk | exact hs.native k
      | some h =>
        rw [closeHandle_of_some hhandle]
        by_cases hkh : k = h
        · subst hkh
          have hlt := hs.lt hhandle
          first | omega | simpa using (hs.native k).close
        · dsimp only
          rw [onHandle_other s hkh]
          first | exact hs.unmade k hk | exact hs.native k

theorem Wf.give (hs : s.Wf) {h : ℕ} (hhandle : s.handle = some h) (data : Str) :
    (s.give h data).Wf := by
  obtain ⟨hopen, hclose⟩ := hs.opened h hhandle
  have hlt := hs.lt hhandle
  have hnative : (s.onHandle h fun x => { x with native := (x.native.write data).2 }).Wf := by
    refine hs.onHandle (fun hle => absurd hlt (by omega)) ((hs.native h).write hopen data)
      fun _ => ?_
    unfold Native.write
    split_ifs <;> exact ⟨hopen, hclose⟩
  exact hnative.congr rfl

theorem Wf.rawWrite (hs : s.Wf) {data : Str} (ht : s.rawWrite data = some t) : t.Wf := by
  obtain ⟨h, hhandle⟩ := handle_of_rawWrite ht
  rcases Nat.eq_zero_or_pos (s.handles h).native.pendingWrites with hidle | hpending
  · rw [rawWrite_of_idle hhandle hidle] at ht
    obtain rfl := Option.some.inj ht
    exact hs.give hhandle data
  · rw [rawWrite_of_pending hhandle hpending] at ht
    obtain rfl := Option.some.inj ht
    exact hs.congr rfl

theorem Wf.write (hs : s.Wf) {data : Str} (ht : s.write data = some t) : t.Wf := by
  obtain ⟨-, rfl⟩ | ⟨-, h, hhandle, ⟨-, rfl⟩ | ⟨-, rfl⟩⟩ := write_cases ht
  · exact hs.congr rfl
  · exact hs.congr rfl
  · exact (hs.give hhandle data).congr rfl

theorem Wf.drainConnectQueue (hs : s.Wf) (ht : s.drainConnectQueue = some t) : t.Wf := by
  obtain ⟨queue, -, ⟨-, rfl⟩ | ⟨h, hhandle, ⟨-, rfl⟩ | ⟨data, rest, -, -, rfl⟩⟩⟩ :=
    drainConnectQueue_cases ht
  · exact hs.congr rfl
  · exact hs.congr rfl
  · exact (hs.give hhandle data).congr rfl

theorem Wf.makeHandle (hs : s.Wf) : s.makeHandle.Wf := by
  refine ⟨fun h hh => ?_, fun k hk => ?_, fun k => ?_, fun h hh => ?_, nofun, nofun, hs.frame⟩
  · obtain rfl := Option.some.inj hh
    rfl
  · have hne : k ≠ s.made := Nat.ne_of_gt hk
    simpa [Connection.makeHandle, initSocketHandle, hne] using hs.unmade k (Nat.le_of_lt hk)
  · by_cases hk : k = s.made
    · subst hk
      simpa [Connection.makeHandle, initSocketHandle] using new_orderly false true
    · simpa [Connection.makeHandle, initSocketHandle, hk] using hs.native k
  · obtain rfl := Option.some.inj hh
    simp [Connection.makeHandle, initSocketHandle, Handle.new]

/-- A write that completes was the only one on its handle, which had been made. -/
theorem Wf.completed (hs : s.Wf) {h k : ℕ} {data : Str}
    (hk : (s.handles h).native.outstanding[k]? = some data) :
    h < s.made ∧
    (s.onHandle h fun x => { x with native := x.native.complete k data }).Wf ∧
    (s.handles h).native.pendingWrites = 1 ∧
    ((s.handles h).native.complete k data).pendingWrites = 0 := by
  obtain ⟨hnative, hone, hidle⟩ := (hs.native h).complete hk
  have hlt : h < s.made :=
    hs.lt_of_ne (fun x => x.native.pendingWrites) (by simp [hone, Handle.new])
  exact ⟨hlt, hs.onHandle (fun hle => absurd hlt (by omega)) hnative (hs.opened h), hone, hidle⟩

theorem fresh_wf (allowHalfOpen secure : Bool) : (fresh allowHalfOpen secure).Wf :=
  ⟨nofun, fun _ _ => rfl, fun _ => new_orderly false true, nofun, fun _ => rfl,
    fun _ => Or.inr rfl, nofun⟩

theorem accepted_wf (allowHalfOpen : Bool) : (accepted allowHalfOpen).Wf := by
  refine ⟨fun h hh => ?_, fun _ _ => rfl, fun _ => new_orderly false true, fun _ _ => ⟨rfl, rfl⟩,
    nofun, nofun, nofun⟩
  obtain rfl := Option.some.inj hh
  rfl

/-- Where a socket comes from: the constructor, or a server. -/
inductive Made : Connection → Prop
  | fresh (allowHalfOpen secure : Bool) : Made (fresh allowHalfOpen secure)
  | accepted (allowHalfOpen : Bool) : Made (accepted allowHalfOpen)

theorem Made.wf (hs : Made s) : s.Wf := by
  cases hs with
  | fresh allowHalfOpen secure => exact fresh_wf _ _
  | accepted allowHalfOpen => exact accepted_wf _

end LuaNode.Net.Connection
