import LuaNode.Net.Keeps
import Mathlib.Algebra.Order.BigOperators.Group.Finset

/-!
# The phases of a connection

A connection waits for a lookup, for `connect_callback`, for the handshake if it is to be secure,
and is then set up. `Phase` says what the socket can be waiting for; it is about the handles made
since the last call of `connect`, and the earlier ones do not matter. `Tally` says that
`_pendingWriteReqs` counts the writes on these handles, and that some write is under way while
`_writeQueue` is not empty.
-/

namespace LuaNode.Net.Connection

variable {s t u : Connection}

structure Phase (s : Connection) : Prop where
  base : s.base ≤ s.made
  current : ∀ h, s.handle = some h → s.base ≤ h
  waits : s.connectQueue.isSome = true → s.connecting = true ∨ 0 < s.drains
  unopened : s.handle = none → s.connectQueue.isSome = true → s.connecting = true
  drains : 0 < s.drains → s.connecting = false
  single : ∀ a b, s.base ≤ a → s.base ≤ b → (s.handles a).hasConnectCallback = true →
    (s.handles b).hasConnectCallback = true → a = b
  callback : ∀ h, s.base ≤ h → (s.handles h).hasConnectCallback = true →
    s.connecting = true ∨ s.destroyed = true
  looking : s.connects ∈ s.lookups → s.connecting = true → s.handle = none ∧ s.made = s.base
  nodup : s.lookups.Nodup
  lookups : ∀ i ∈ s.lookups, i ≤ s.connects

/-- The answer of a lookup is for the last call of `connect`, if the socket waits for one. -/
def Own (s : Connection) (e : ConnectionEvent) : Prop :=
  ∀ i found, e = .lookup i found → i ∈ s.lookups → s.connecting = true → i = s.connects

/-- What `Phase` is about, but for the callbacks. -/
def phase (s : Connection) :
    ℕ × ℕ × Option ℕ × Bool × Option (List Str) × ℕ × ℕ × List ℕ × Bool :=
  (s.base, s.made, s.handle, s.connecting, s.connectQueue, s.drains, s.connects, s.lookups,
    s.destroyed)

theorem Phase.congr (hs : s.Phase) (ht : t.phase = s.phase)
    (hcallbacks : ∀ h, (t.handles h).hasConnectCallback = (s.handles h).hasConnectCallback) :
    t.Phase := by
  simp only [phase, Prod.mk.injEq] at ht
  obtain ⟨hbase, hmade, hhandle, hconnecting, hqueue, hdrains, hconnects, hlookups, hgone⟩ := ht
  constructor
  · rw [hbase, hmade]; exact hs.base
  · rw [hhandle, hbase]; exact hs.current
  · rw [hqueue, hconnecting, hdrains]; exact hs.waits
  · rw [hhandle, hqueue, hconnecting]; exact hs.unopened
  · rw [hdrains, hconnecting]; exact hs.drains
  · simp only [hcallbacks, hbase]; exact hs.single
  · simp only [hcallbacks, hbase, hconnecting, hgone]; exact hs.callback
  · rw [hconnects, hlookups, hconnecting, hhandle, hmade, hbase]; exact hs.looking
  · rw [hlookups]; exact hs.nodup
  · rw [hlookups, hconnects]; exact hs.lookups

theorem Phase.keeps (hs : s.Phase) (hk : Keeps s t) : t.Phase := by
  constructor
  · rw [hk.base, hk.made]
    exact hs.base
  · intro h hh
    rw [hk.base]
    obtain ⟨-, -, -, hhandle⟩ | ⟨-, -, -, -, hhandle⟩ := hk.cases
    · exact hs.current h (hhandle.symm.trans hh)
    · simp [hhandle] at hh
  · intro h
    rw [hk.drains]
    obtain ⟨-, hc, hq, -⟩ | ⟨-, -, -, hq, -⟩ := hk.cases
    · rw [hc]
      exact hs.waits (hq ▸ h)
    · simp [hq] at h
  · intro hnone h
    obtain ⟨-, hc, hq, hhandle⟩ | ⟨-, -, -, hq, -⟩ := hk.cases
    · rw [hc]
      exact hs.unopened (hhandle.symm.trans hnone) (hq ▸ h)
    · simp [hq] at h
  · intro h
    rw [hk.drains] at h
    cases hc : t.connecting with
    | false => rfl
    | true => simpa [hs.drains h] using hk.connecting hc
  · intro a b ha hb hca hcb
    rw [hk.base] at ha hb
    exact hs.single a b ha hb (hk.callbacks a hca) (hk.callbacks b hcb)
  · intro h hbase hcallback
    rw [hk.base] at hbase
    obtain ⟨hgone, hc, -⟩ | ⟨-, hdied, -⟩ := hk.cases
    · rw [hgone, hc]
      exact hs.callback h hbase (hk.callbacks h hcallback)
    · exact Or.inr hdied
  · intro h hconnecting
    rw [hk.looking hconnecting, hk.connects] at h
    obtain ⟨hnone, hmade⟩ := hs.looking h (hk.connecting hconnecting)
    obtain ⟨-, -, -, hhandle⟩ | ⟨-, -, hc, -⟩ := hk.cases
    · exact ⟨hhandle.trans hnone, by rw [hk.made, hmade, hk.base]⟩
    · simp [hc] at hconnecting
  · exact hk.lookups.nodup hs.nodup
  · intro i hi
    rw [hk.connects]
    exact hs.lookups i (hk.lookups.subset hi)

theorem Phase.destroy (hs : s.Phase) (error : Option Str) : (s.destroy error).Phase :=
  hs.keeps (Keeps.destroy s error)

theorem give_callbacks (s : Connection) (h : ℕ) (data : Str) (k : ℕ) :
    ((s.give h data).handles k).hasConnectCallback = (s.handles k).hasConnectCallback :=
  onHandle_keeps s (f := fun x => { x with native := (x.native.write data).2 })
    Handle.hasConnectCallback rfl k

theorem Phase.write (hs : s.Phase) {data : Str} (ht : s.write data = some t) : t.Phase := by
  obtain ⟨hconnecting, rfl⟩ | ⟨-, h, -, ⟨-, rfl⟩ | ⟨-, rfl⟩⟩ := write_cases ht
  · exact { hs with
      waits := fun _ => Or.inl hconnecting
      unopened := fun _ _ => hconnecting }
  · exact hs.congr rfl fun _ => rfl
  · exact hs.congr rfl (give_callbacks s h data)

/-- What the loop of `afterWrite` may do. -/
theorem advance_cases {g : ℕ} (hhandle : s.handle = some g) :
    (s.writeQueue = [] ∧ s.advance = s) ∨
    ∃ data rest, s.writeQueue = data :: rest ∧
      ((0 < (s.handles g).native.pendingWrites ∧
          s.advance = { s with writeQueue := rest ++ [data] }) ∨
        ((s.handles g).native.pendingWrites = 0 ∧
          s.advance = ({ s with writeQueue := rest } : Connection).give g data)) := by
  unfold advance
  split
  · next hqueue => exact Or.inl ⟨hqueue, rfl⟩
  · next data rest hqueue =>
    refine Or.inr ⟨data, rest, hqueue, ?_⟩
    rcases Nat.eq_zero_or_pos (s.handles g).native.pendingWrites with hidle | hpending
    · have hwrite := rawWrite_of_idle (s := { s with writeQueue := rest }) hhandle hidle data
      exact Or.inr ⟨hidle, by dsimp only; rw [hwrite]; rfl⟩
    · have hwrite := rawWrite_of_pending (s := { s with writeQueue := rest }) hhandle hpending data
      exact Or.inl ⟨hpending, by dsimp only; rw [hwrite]; rfl⟩

theorem Phase.onHandle (hs : s.Phase) {h : ℕ} {f : Handle → Handle}
    (hf : (f (s.handles h)).hasConnectCallback = (s.handles h).hasConnectCallback) :
    (s.onHandle h f).Phase :=
  hs.congr rfl (onHandle_keeps s Handle.hasConnectCallback hf)

theorem Phase.advance (hs : s.Phase) {g : ℕ} (hhandle : s.handle = some g) : s.advance.Phase := by
  obtain ⟨-, heq⟩ | ⟨data, rest, -, ⟨-, heq⟩ | ⟨-, heq⟩⟩ := advance_cases hhandle <;> rw [heq]
  · exact hs
  · exact hs.congr rfl fun _ => rfl
  · exact hs.congr rfl (give_callbacks _ g data)

/-- After `drainConnectQueue` the socket is set up. -/
theorem Phase.of_drained (hs : s.connectQueueCleanUp.Phase) (ht : s.drainConnectQueue = some t) :
    t.Phase := by
  obtain ⟨queue, -, ⟨-, rfl⟩ | ⟨h, -, ⟨-, rfl⟩ | ⟨data, rest, -, -, rfl⟩⟩⟩ :=
    drainConnectQueue_cases ht
  · exact hs
  · exact hs.congr rfl fun _ => rfl
  · exact hs.congr rfl (give_callbacks s h data)

/-- What `connected` may do to a socket with a handle. -/
theorem connected_cases {h : ℕ} (hhandle : s.handle = some h) :
    (s.connectQueue = none ∧ s.connected = { s with readable := true }) ∨
    (s.connectQueue.isSome = true ∧ s.secure = true ∧
      s.connected = { s with readable := true, drains := s.drains + 1 }) ∨
    (s.connectQueue.isSome = true ∧ s.secure = false ∧
      ({ s with readable := true } : Connection).drainConnectQueue = some s.connected) := by
  unfold connected
  dsimp only
  split_ifs with hqueue hsecure
  · exact Or.inr (Or.inl ⟨hqueue, hsecure, rfl⟩)
  · obtain ⟨t, ht⟩ := drainConnectQueue_isSome (s := { s with readable := true }) hhandle hqueue
    exact Or.inr (Or.inr ⟨hqueue, by simpa using hsecure, by rw [ht]; rfl⟩)
  · exact Or.inl ⟨by simpa using hqueue, rfl⟩

theorem takeConnect_callbacks (s : Connection) (h k : ℕ) :
    ((s.takeConnect h).handles k).hasConnectCallback =
      (!decide (k = h) && (s.handles k).hasConnectCallback) := by
  by_cases hk : k = h
  · subst hk
    simp [takeConnect]
  · simp [takeConnect, onHandle_other s hk, hk]

/-- After the connection the handle has no `connect_callback`. -/
theorem Phase.not_dialing (hs : s.Phase) (hws : s.Wf) (hconnecting : s.connecting = false) {h : ℕ}
    (hhandle : s.handle = some h) : (s.handles h).hasConnectCallback = false := by
  by_contra hcallback
  rcases hs.callback h (hs.current h hhandle) (by simpa using hcallback) with hc | hgone
  · exact absurd (hconnecting.symm.trans hc) nofun
  · exact absurd ((hws.alive hhandle).symm.trans hgone) nofun

/-- `connect_callback` of the handle that is being connected. -/
theorem Phase.connected (hs : s.Phase) {h : ℕ}
    (hhandle : s.handle = some h) (hcallback : (s.handles h).hasConnectCallback = true) :
    ({ s.takeConnect h with connecting := false } : Connection).connected.Phase := by
  have hbase := hs.current h hhandle
  have hclean : ({ s.takeConnect h with connecting := false } : Connection).connectQueueCleanUp.Phase := by
    refine ⟨hs.base, hs.current, fun h => absurd h Bool.false_ne_true, fun _ h => absurd h Bool.false_ne_true,
      fun _ => rfl, ?_, ?_, fun _ h => absurd h Bool.false_ne_true, hs.nodup, hs.lookups⟩
    · intro a b ha hb hca hcb
      simp only [connectQueueCleanUp, takeConnect_callbacks, Bool.and_eq_true] at hca hcb
      exact hs.single a b ha hb hca.2 hcb.2
    · -- the callback that has been taken was the only one
      intro a ha hca
      simp only [connectQueueCleanUp, takeConnect_callbacks, Bool.and_eq_true, Bool.not_eq_true',
        decide_eq_false_iff_not] at hca
      exact absurd (hs.single a h ha hbase hca.2 hcallback) hca.1
  obtain ⟨hqueue, heq⟩ | ⟨hqueue, -, heq⟩ | ⟨hqueue, -, heq⟩ :=
    connected_cases (s := { s.takeConnect h with connecting := false }) hhandle
  · rw [heq]
    have hnone : s.connectQueue = none := hqueue
    refine hclean.congr ?_ fun _ => rfl
    simp [phase, connectQueueCleanUp, takeConnect, Connection.onHandle, hnone]
  · rw [heq]
    exact ⟨hclean.base, hclean.current, fun _ => Or.inr (Nat.succ_pos _),
      fun hnone => absurd (hhandle.symm.trans hnone) (by simp), fun _ => rfl, hclean.single,
      hclean.callback, by simp, hclean.nodup, hclean.lookups⟩
  · exact Phase.of_drained (s := { s.takeConnect h with connecting := false, readable := true })
      (hclean.congr rfl fun _ => rfl) heq

theorem not_callback_of_made (hws : s.Wf) {h : ℕ} (hle : s.made ≤ h) :
    (s.handles h).hasConnectCallback = false := by
  rw [hws.unmade h hle]
  rfl

/-- `makeHandle` and `dial` of a connection that has no handle yet. -/
theorem Phase.makeHandle_dial (hs : s.Phase) (hws : s.Wf) (hconnecting : s.connecting = true)
    (hmade : s.made = s.base) (hidle : s.connects ∉ s.lookups) (error : Option Str) :
    (s.makeHandle.dial error).Phase := by
  have hcallback : ∀ k, s.base ≤ k → (s.makeHandle.handles k).hasConnectCallback = false := by
    intro k hk
    by_cases hkm : k = s.made
    · simp [makeHandle, initSocketHandle, hkm, Handle.new]
    · simpa [makeHandle, initSocketHandle, hkm] using not_callback_of_made hws (hmade.trans_le hk)
  have hmake : s.makeHandle.Phase := by
    refine ⟨hs.base.trans (Nat.le_succ _), ?_, fun _ => Or.inl hconnecting, fun h => absurd h (Option.some_ne_none _),
      hs.drains, ?_, ?_, fun h => absurd h hidle, hs.nodup, hs.lookups⟩
    · intro h hh
      obtain rfl := Option.some.inj hh
      exact hmade.symm.le
    · intro a b ha hb hca
      simp [hcallback a ha] at hca
    · intro a ha hca
      simp [hcallback a ha] at hca
  cases error with
  | some message => exact hmake.destroy (some message)
  | none =>
    change (s.makeHandle.onHandle s.made fun x =>
      { x with connects := x.connects + 1, hasConnectCallback := true }).Phase
    have hother : ∀ k, s.base ≤ k → ((s.makeHandle.onHandle s.made fun x =>
        { x with connects := x.connects + 1, hasConnectCallback := true }).handles k
        ).hasConnectCallback = true → k = s.made := by
      intro k hk hck
      by_contra hkm
      rw [onHandle_other _ hkm, hcallback k hk] at hck
      cases hck
    refine ⟨hmake.base, hmake.current, hmake.waits, hmake.unopened, hmake.drains, ?_, ?_,
      fun h => absurd h hidle, hmake.nodup, hmake.lookups⟩
    · intro a b ha hb hca hcb
      rw [hother a ha hca, hother b hb hcb]
    · intro _ _ _
      exact Or.inl hconnecting

theorem Phase.begins (hs : s.Phase) (hws : s.Wf) {e : ConnectionEvent} (hown : s.Own e)
    (hb : Begins s e t) : t.Phase := by
  have hnow : ({ s with waiting := none } : Connection).Phase := hs.congr rfl fun _ => rfl
  cases hb with
  | nothing => exact hs
  | pause | finishNow => exact hs.congr rfl fun _ => rfl
  | destroy error => exact hs.destroy error
  | @secured h handle plain =>
    have hbase := hs.current h handle
    have hcallback : ∀ k, (Function.update s.handles s.made
        (.new true (s.handles h).hasReadCallback) k).hasConnectCallback =
        (s.handles k).hasConnectCallback := by
      intro k
      by_cases hk : k = s.made
      · subst hk
        rw [Function.update_self, not_callback_of_made hws le_rfl]
        rfl
      · rw [Function.update_of_ne hk]
    constructor <;> dsimp only
    case base => exact hs.base.trans (Nat.le_succ _)
    case current =>
      intro k hk
      obtain rfl := Option.some.inj hk
      exact hs.base
    case waits => exact hs.waits
    case unopened => exact nofun
    case drains => exact hs.drains
    case single =>
      simp only [hcallback]
      exact hs.single
    case callback =>
      simp only [hcallback]
      exact hs.callback
    case looking =>
      intro h hconnecting
      simp [(hs.looking h hconnecting).1] at handle
    case nodup => exact hs.nodup
    case lookups => exact hs.lookups
  | write asked taken => exact hs.write taken
  | @completed h k data ended alive =>
    obtain ⟨g, hhandle⟩ := hws.handle_of_outstanding alive ended
    have hcomplete : (s.onHandle h fun x => { x with native := x.native.complete k data }).Phase :=
      hs.onHandle rfl
    exact (hcomplete.advance hhandle).congr rfl fun _ => rfl
  | late ended gone => exact hs.onHandle rfl
  | @failed h k data message ended alive =>
    have hcomplete : (s.onHandle h fun x => { x with native := x.native.complete k data }).Phase :=
      hs.onHandle rfl
    exact hcomplete.destroy (some message)
  | @eof h k n taken handle callback first writable idle =>
    have heof : (s.atEof h k).Phase :=
      Phase.congr (s := s.takeRead h k) (hs.onHandle rfl) rfl fun _ => rfl
    exact heof.destroy none
  | rearm frame handle idle readable =>
    exact hnow.onHandle (f := Handle.read) rfl
  | raised frame => exact hnow.destroy _
  | unfound frame => exact hnow.destroy none
  | @drained h rest error _ frame drained =>
    have hdrains := hws.frame h (rest + 1) frame
    have hconnecting := hs.drains (by omega)
    refine Phase.of_drained ?_ drained
    refine ⟨hs.base, hs.current, nofun, nofun, fun _ => rfl, hs.single, ?_, nofun, hs.nodup,
      hs.lookups⟩
    intro k hk hck
    exact Or.inr ((hs.callback k hk hck).resolve_left (by simp [hconnecting]))
  | @undrained h rest error frame failed =>
    have hdrains := hws.frame h (rest + 1) frame
    have hconnecting := hs.drains (by omega)
    have hqueue : s.connectQueue = none := by
      by_contra hsome
      have hsome : s.connectQueue.isSome = true := Option.isSome_iff_ne_none.mpr hsome
      obtain hnone | ⟨g, hhandle⟩ := Option.eq_none_or_eq_some s.handle
      · simpa [hconnecting] using hs.unopened hnone hsome
      · obtain ⟨u, hu⟩ := drainConnectQueue_isSome
          (s := { s with waiting := none, drains := s.drains - 1 }) hhandle hsome
        simp [hu] at failed
    refine ⟨hs.base, hs.current, ?_, ?_, fun _ => hconnecting, hs.single, hs.callback, hs.looking,
      hs.nodup, hs.lookups⟩
    · intro h
      simp [fail, hqueue] at h
    · intro _ h
      simp [fail, hqueue] at h
  | @lookupFailed i message pending connecting =>
    exact { hs with
      looking := fun h => hs.looking (List.mem_of_mem_erase h)
      nodup := hs.nodup.erase i
      lookups := fun j hj => hs.lookups j (List.mem_of_mem_erase hj) }
  | @found i error pending connecting =>
    obtain rfl := hown i _ rfl pending connecting
    obtain ⟨hnone, hmade⟩ := hs.looking pending connecting
    have hidle : s.connects ∉ s.lookups.erase s.connects := hs.nodup.not_mem_erase
    have hlooked : ({ s with lookups := s.lookups.erase s.connects } : Connection).Phase :=
      { hs with
        looking := fun h => absurd h hidle
        nodup := hs.nodup.erase _
        lookups := fun j hj => hs.lookups j (List.mem_of_mem_erase hj) }
    dsimp only
    rw [if_pos (by simp [hnone])]
    exact hlooked.makeHandle_dial (hws.congr rfl) connecting hmade hidle error
  | connected idle begun callback handle alive => exact hs.connected handle callback
  | @unconnected h message begun callback handle alive =>
    refine Phase.destroy ?_ (some message)
    refine ⟨hs.base, hs.current, hs.waits, hs.unopened, hs.drains, ?_, ?_, hs.looking, hs.nodup,
      hs.lookups⟩
    · intro a b ha hb hca hcb
      simp only [takeConnect_callbacks, Bool.and_eq_true] at hca hcb
      exact hs.single a b ha hb hca.2 hcb.2
    · intro a ha hca
      simp only [takeConnect_callbacks, Bool.and_eq_true] at hca
      exact hs.callback a ha hca.2

/-- `connect` of a socket that is not used, or has been destroyed. -/
theorem Phase.connect (hs : s.Phase) (hws : s.Wf) (hhandle : s.handle = none)
    (hdrains : s.drains = 0) (host : Bool) (error : Option Str) : (s.connect host error).Phase := by
  have hnext : s.connects + 1 ∉ s.lookups := fun h => absurd (hs.lookups _ h) (by omega)
  have hcallback : ∀ h, s.made ≤ h → (s.handles h).hasConnectCallback = false := fun h hle =>
    not_callback_of_made hws hle
  unfold Connection.connect
  dsimp only
  split_ifs
  · refine ⟨le_rfl, fun h hh => by simp [hhandle] at hh, fun _ => Or.inl rfl, fun _ _ => rfl,
      fun h => by simp [hdrains] at h, ?_, fun _ _ _ => Or.inl rfl, fun _ _ => ⟨hhandle, rfl⟩, ?_, ?_⟩
    · intro a b ha hb hca
      simp [hcallback a ha] at hca
    · exact List.nodup_append.mpr ⟨hs.nodup, List.nodup_singleton _, by
        intro i hi j hj
        have := hs.lookups i hi
        rw [List.mem_singleton.mp hj]
        omega⟩
    · intro i hi
      rcases List.mem_append.mp hi with hi | hi
      · exact (hs.lookups i hi).trans (Nat.le_succ _)
      · exact (List.mem_singleton.mp hi).le
  · refine Phase.makeHandle_dial (s := { s with
      connecting := true
      writable := true
      base := s.made
      connects := s.connects + 1
      written := []
      handed := [] }) ?_ (hws.congr rfl) rfl rfl hnext error
    refine ⟨le_rfl, fun h hh => by simp [hhandle] at hh, fun _ => Or.inl rfl, fun _ _ => rfl,
      fun h => by simp [hdrains] at h, ?_, fun _ _ _ => Or.inl rfl, fun h => absurd h hnext, hs.nodup,
      fun i hi => (hs.lookups i hi).trans (Nat.le_succ _)⟩
    intro a b ha hb hca
    simp [hcallback a ha] at hca

theorem fresh_phase (allowHalfOpen secure : Bool) : (fresh allowHalfOpen secure).Phase :=
  ⟨le_rfl, nofun, nofun, nofun, nofun, nofun, nofun, nofun, List.nodup_nil, nofun⟩

theorem accepted_phase (allowHalfOpen : Bool) : (accepted allowHalfOpen).Phase :=
  ⟨Nat.zero_le _, fun _ _ => Nat.zero_le _, nofun, nofun, nofun, nofun, nofun, nofun,
    List.nodup_nil, nofun⟩

/-! ### The writes that are under way -/

/-- The writes that have not completed on the handles made since `connect`. -/
def pendingOn (s : Connection) : ℕ :=
  ∑ h ∈ Finset.Ico s.base s.made, (s.handles h).native.pendingWrites

structure Tally (s : Connection) : Prop where
  reqs : s.destroyed = false → s.pendingWriteReqs = s.pendingOn
  queue : s.destroyed = false → s.writeQueue ≠ [] → 0 < s.pendingOn
  opening : s.destroyed = true → s.connecting = true → s.writeQueue = []

theorem pendingOn_congr (hbase : t.base = s.base) (hmade : t.made = s.made)
    (hpending : ∀ h, (t.handles h).native.pendingWrites = (s.handles h).native.pendingWrites) :
    t.pendingOn = s.pendingOn := by
  unfold pendingOn
  simp only [hbase, hmade, hpending]

theorem Keeps.pendingOn (hk : Keeps s t) : t.pendingOn = s.pendingOn :=
  pendingOn_congr hk.base hk.made hk.pending

theorem pendingOn_onHandle (s : Connection) {h : ℕ} (f : Handle → Handle) (hbase : s.base ≤ h)
    (hmade : h < s.made) :
    (s.onHandle h f).pendingOn + (s.handles h).native.pendingWrites =
      s.pendingOn + (f (s.handles h)).native.pendingWrites := by
  have hmem : h ∈ Finset.Ico s.base s.made := Finset.mem_Ico.mpr ⟨hbase, hmade⟩
  have hrest : ∑ k ∈ (Finset.Ico s.base s.made).erase h,
        ((s.onHandle h f).handles k).native.pendingWrites =
      ∑ k ∈ (Finset.Ico s.base s.made).erase h, (s.handles k).native.pendingWrites := by
    apply Finset.sum_congr rfl
    intro k hk
    rw [onHandle_other s (Finset.ne_of_mem_erase hk)]
  unfold pendingOn
  change (∑ k ∈ Finset.Ico s.base s.made, ((s.onHandle h f).handles k).native.pendingWrites) + _ = _
  rw [← Finset.add_sum_erase _ _ hmem, ← Finset.add_sum_erase (a := h) _
    (fun k => (s.handles k).native.pendingWrites) hmem, hrest, onHandle_same]
  omega

theorem pendingOn_pos {h : ℕ} (hbase : s.base ≤ h) (hmade : h < s.made)
    (hpending : 0 < (s.handles h).native.pendingWrites) : 0 < s.pendingOn := by
  have hle := Finset.single_le_sum (f := fun k => (s.handles k).native.pendingWrites)
    (fun _ _ => Nat.zero_le _) (Finset.mem_Ico.mpr ⟨hbase, hmade⟩)
  exact hpending.trans_le hle

theorem pendingOn_give {h : ℕ} (hbase : s.base ≤ h) (hmade : h < s.made)
    (hidle : (s.handles h).native.pendingWrites = 0) (data : Str) :
    (s.give h data).pendingOn = s.pendingOn + 1 := by
  have hsum := s.pendingOn_onHandle (fun x => { x with native := (x.native.write data).2 })
    hbase hmade
  rw [hidle, Native.write_of_idle hidle] at hsum
  change (s.give h data).pendingOn + 0 = s.pendingOn + (_ + 1) at hsum
  omega

/-- What `Tally` is about, but for the handles. -/
def tally (s : Connection) : ℤ × List Str × Bool × Bool :=
  (s.pendingWriteReqs, s.writeQueue, s.destroyed, s.connecting)

theorem Tally.congr (hs : s.Tally) (ht : t.tally = s.tally) (hpending : t.pendingOn = s.pendingOn) :
    t.Tally := by
  simp only [tally, Prod.mk.injEq] at ht
  obtain ⟨hreqs, hqueue, hgone, hconnecting⟩ := ht
  constructor
  · rw [hgone, hreqs, hpending]; exact hs.reqs
  · rw [hgone, hqueue, hpending]; exact hs.queue
  · rw [hgone, hconnecting, hqueue]; exact hs.opening

theorem Tally.keeps (hs : s.Tally) (hk : Keeps s t) : t.Tally := by
  constructor
  · intro halive
    rw [hk.reqs, hk.pendingOn]
    exact hs.reqs (hk.alive halive)
  · intro halive
    rw [hk.writeQueue, hk.pendingOn]
    exact hs.queue (hk.alive halive)
  · intro hgone hconnecting
    rw [hk.writeQueue]
    obtain ⟨hgone', -⟩ | ⟨-, -, hc, -⟩ := hk.cases
    · exact hs.opening (hgone'.symm.trans hgone) (hk.connecting hconnecting)
    · simp [hc] at hconnecting

/-- There is nothing to count when the connection has ended. -/
theorem tally_destroy (halive : s.destroyed = false) (error : Option Str) :
    (s.destroy error).Tally := by
  have hgone := destroy_destroyed s error
  refine ⟨fun h => absurd (hgone.symm.trans h) nofun, fun h => absurd (hgone.symm.trans h) nofun,
    fun _ hconnecting => ?_⟩
  simp [((Keeps.destroy s error).died halive hgone).1] at hconnecting

theorem Tally.give (hs : s.Tally) {h : ℕ} (hbase : s.base ≤ h) (hmade : h < s.made)
    (hidle : (s.handles h).native.pendingWrites = 0) (halive : s.destroyed = false) (data : Str) :
    (s.give h data).Tally := by
  have hpending := pendingOn_give hbase hmade hidle data
  refine ⟨fun _ => ?_, fun _ _ => by omega,
    fun hgone => absurd (halive.symm.trans hgone) nofun⟩
  rw [hpending, Nat.cast_succ, ← hs.reqs halive]
  rfl

theorem Tally.write (hs : s.Tally) (hws : s.Wf) (hps : s.Phase) {data : Str}
    (ht : s.write data = some t) : t.Tally := by
  obtain ⟨-, rfl⟩ | ⟨-, h, hhandle, ⟨hpending, rfl⟩ | ⟨hidle, rfl⟩⟩ := write_cases ht
  · exact hs.congr rfl rfl
  · have halive := hws.alive hhandle
    refine ⟨hs.reqs, fun _ _ => ?_,
      fun hgone => absurd (halive.symm.trans hgone) nofun⟩
    exact pendingOn_pos (s := s) (hps.current h hhandle) (hws.lt hhandle) hpending
  · exact (hs.give (hps.current h hhandle) (hws.lt hhandle) hidle (hws.alive hhandle) data).congr
      rfl rfl

theorem Tally.drainConnectQueue (hs : s.Tally) (hws : s.Wf)
    (hcurrent : ∀ h, s.handle = some h → s.base ≤ h) (ht : s.drainConnectQueue = some t) :
    t.Tally := by
  have hcleanUp : s.connectQueueCleanUp.Tally := ⟨hs.reqs, hs.queue, nofun⟩
  obtain ⟨queue, -, ⟨-, rfl⟩ | ⟨h, hhandle, ⟨hpending, rfl⟩ | ⟨data, rest, -, hidle, rfl⟩⟩⟩ :=
    drainConnectQueue_cases ht
  · exact hcleanUp
  · refine ⟨hs.reqs, fun _ _ => ?_, nofun⟩
    exact pendingOn_pos (s := s) (hcurrent h hhandle) (hws.lt hhandle) hpending
  · have hgive := hs.give (hcurrent h hhandle) (hws.lt hhandle) hidle (hws.alive hhandle) data
    refine ⟨hgive.reqs, fun _ _ => ?_, nofun⟩
    change 0 < (s.give h data).pendingOn
    rw [pendingOn_give (hcurrent h hhandle) (hws.lt hhandle) hidle]
    exact Nat.succ_pos _

/-- The writes that complete are those of the handles made since `connect`. -/
def Current (s : Connection) (e : ConnectionEvent) : Prop :=
  ∀ h k, e = .handleWrite h k none → k < (s.handles h).native.outstanding.length →
    s.destroyed = false → s.base ≤ h

theorem Tally.completed (hs : s.Tally) (hws : s.Wf) (hps : s.Phase) {h k : ℕ} {data : Str}
    (ended : (s.handles h).native.outstanding[k]? = some data) (alive : s.destroyed = false)
    (hbase : s.base ≤ h) {u : Connection}
    (hu : u = (s.onHandle h fun x => { x with native := x.native.complete k data }).advance) :
    ({ u with pendingWriteReqs := u.pendingWriteReqs - 1 } : Connection).Tally := by
  obtain ⟨hmade, hwc, hone, hidle⟩ := hws.completed ended
  obtain ⟨g, hhandle⟩ := hws.handle_of_outstanding alive ended
  have hsum := s.pendingOn_onHandle (fun x => { x with native := x.native.complete k data })
    hbase hmade
  rw [hone, hidle] at hsum
  have hreqs := hs.reqs alive
  generalize hc : (s.onHandle h fun x => { x with native := x.native.complete k data }) = c at *
  have hcurrent : c.base ≤ g := by rw [← hc]; exact hps.current g hhandle
  have hlt : g < c.made := by rw [← hc]; exact hws.lt hhandle
  have hcreqs : c.pendingWriteReqs = s.pendingWriteReqs := by rw [← hc]; rfl
  have hcalive : c.destroyed = false := by rw [← hc]; exact alive
  have hchandle : c.handle = some g := by rw [← hc]; exact hhandle
  obtain ⟨hqueue, heq⟩ | ⟨first, rest, -, ⟨hpending, heq⟩ | ⟨hfree, heq⟩⟩ := advance_cases hchandle
  · subst hu
    rw [heq]
    refine ⟨fun _ => ?_, fun _ hne => absurd hqueue hne,
      fun hgone => absurd (hcalive.symm.trans hgone) nofun⟩
    change c.pendingWriteReqs - 1 = (c.pendingOn : ℤ)
    rw [hcreqs, hreqs]
    omega
  · subst hu
    rw [heq]
    refine ⟨fun _ => ?_, fun _ _ => pendingOn_pos hcurrent hlt hpending,
      fun hgone => absurd (hcalive.symm.trans hgone) nofun⟩
    change c.pendingWriteReqs - 1 = (c.pendingOn : ℤ)
    rw [hcreqs, hreqs]
    omega
  · subst hu
    rw [heq]
    have hgive : (({ c with writeQueue := rest } : Connection).give g first).pendingOn =
        c.pendingOn + 1 :=
      pendingOn_give (s := { c with writeQueue := rest }) hcurrent hlt hfree first
    generalize hv : ({ c with writeQueue := rest } : Connection).give g first = v at hgive ⊢
    have hvreqs : v.pendingWriteReqs = c.pendingWriteReqs + 1 := by rw [← hv]; rfl
    have hvalive : v.destroyed = false := by rw [← hv]; exact hcalive
    refine ⟨fun _ => ?_, fun _ _ => ?_,
      fun hgone => absurd (hvalive.symm.trans hgone) nofun⟩
    · change v.pendingWriteReqs - 1 = (v.pendingOn : ℤ)
      rw [hvreqs, hcreqs, hreqs, hgive]
      omega
    · change 0 < v.pendingOn
      omega

theorem tally_makeHandle_dial (hmade : s.made = s.base)
    (hqueue : s.writeQueue = []) (error : Option Str) : (s.makeHandle.dial error).Tally := by
  have hnone : s.makeHandle.pendingOn = 0 := by
    apply Finset.sum_eq_zero
    intro h hh
    obtain ⟨hbase, hlt⟩ := Finset.mem_Ico.mp hh
    have hlast : h = s.made := by
      have hle : s.made ≤ h := hmade.trans_le hbase
      have hlt : h < s.made + 1 := hlt
      omega
    simp [makeHandle, initSocketHandle, hlast, Handle.new]
  have hmake : s.makeHandle.Tally := by
    refine ⟨fun _ => ?_, fun _ hne => absurd hqueue hne, fun _ _ => hqueue⟩
    rw [hnone]
    rfl
  cases error with
  | some message =>
    exact hmake.keeps (Keeps.destroy _ _)
  | none =>
    refine hmake.congr rfl (pendingOn_congr rfl rfl ?_)
    exact onHandle_keeps s.makeHandle (h := s.made)
      (f := fun x => { x with connects := x.connects + 1, hasConnectCallback := true })
      (fun x => x.native.pendingWrites) rfl

theorem Tally.begins (hs : s.Tally) (hws : s.Wf) (hps : s.Phase) {e : ConnectionEvent}
    (hown : s.Own e) (hcurrent : s.Current e) (hb : Begins s e t) : t.Tally := by
  have hnow : ({ s with waiting := none } : Connection).Tally := hs.congr rfl rfl
  cases hb with
  | nothing => exact hs
  | pause | finishNow => exact hs.congr rfl rfl
  | destroy error => exact hs.keeps (Keeps.destroy s error)
  | write asked taken => exact hs.write hws hps taken
  | @secured h handle plain =>
    have hkeep : ∀ k, (Function.update s.handles s.made
        (.new true (s.handles h).hasReadCallback) k).native.pendingWrites =
        (s.handles k).native.pendingWrites := by
      intro k
      by_cases hk : k = s.made
      · subst hk
        rw [Function.update_self, hws.unmade _ le_rfl]
        rfl
      · rw [Function.update_of_ne hk]
    refine hs.congr rfl ?_
    unfold pendingOn
    simp only [hkeep]
    rw [← Finset.sum_Ico_consecutive _ hps.base (Nat.le_succ s.made), Nat.Ico_succ_singleton,
      Finset.sum_singleton, hws.unmade _ le_rfl]
    rfl
  | @completed h k data ended alive =>
    have hlen := (List.getElem?_eq_some_iff.mp ended).1
    exact hs.completed hws hps ended alive (hcurrent h k rfl hlen alive) rfl
  | late ended gone =>
    exact ⟨fun halive => absurd (gone.symm.trans halive) nofun,
      fun halive => absurd (gone.symm.trans halive) nofun, hs.opening⟩
  | @failed h k data message ended alive => exact tally_destroy (by exact alive) (some message)
  | eof taken handle callback first writable idle =>
    exact hs.keeps ((Keeps.atEof s _ _).trans (Keeps.destroy _ none))
  | @rearm g h error frame handle idle readable =>
    exact hnow.keeps (Keeps.touch _ rfl rfl rfl rfl rfl rfl)
  | raised frame => exact hnow.keeps (Keeps.destroy _ _)
  | unfound frame => exact hnow.keeps (Keeps.destroy _ _)
  | drained frame drained =>
    have hundrain : ({ s with waiting := none, drains := s.drains - 1 } : Connection).Tally :=
      hs.congr rfl rfl
    exact hundrain.drainConnectQueue hws.undrain hps.current drained
  | undrained frame failed => exact hs.congr rfl rfl
  | lookupFailed pending connecting => exact hs.congr rfl rfl
  | @found i error pending connecting =>
    obtain rfl := hown i _ rfl pending connecting
    obtain ⟨hnone, hmade⟩ := hps.looking pending connecting
    have hqueue : s.writeQueue = [] := by
      rcases Bool.eq_false_or_eq_true s.destroyed with hgone | halive
      · exact hs.opening hgone connecting
      · by_contra hne
        have hpos := hs.queue halive hne
        simp [pendingOn, hmade] at hpos
    dsimp only
    rw [if_pos (by simp [hnone])]
    exact tally_makeHandle_dial (s := { s with lookups := s.lookups.erase s.connects }) hmade hqueue
      error
  | @connected h idle begun callback handle alive =>
    have htake : ({ s.takeConnect h with connecting := false } : Connection).Tally := by
      have hkeep : (s.takeConnect h).pendingOn = s.pendingOn :=
        pendingOn_congr rfl rfl (onHandle_keeps s
          (f := fun x => { x with connects := x.connects - 1, hasConnectCallback := false })
          (fun x => x.native.pendingWrites) rfl)
      exact ⟨fun h' => (hs.reqs h').trans (congrArg _ hkeep.symm),
        fun h' hne => (hs.queue h' hne).trans_eq hkeep.symm, nofun⟩
    have hwt : ({ s.takeConnect h with connecting := false } : Connection).Wf :=
      (hws.takeConnect begun).congr rfl
    obtain ⟨-, heq⟩ | ⟨-, -, heq⟩ | ⟨-, -, heq⟩ :=
      connected_cases (s := { s.takeConnect h with connecting := false }) handle
    · rw [heq]
      exact htake.congr rfl rfl
    · rw [heq]
      exact htake.congr rfl rfl
    · refine Tally.drainConnectQueue
        (s := { s.takeConnect h with connecting := false, readable := true }) ?_ ?_ hps.current heq
      · exact htake.congr rfl rfl
      · exact hwt.congr rfl
  | unconnected begun callback handle alive => exact tally_destroy (by exact alive) _

theorem tally_connect (hqueue : s.writeQueue = [])
    (hreqs : s.destroyed = false → s.pendingWriteReqs = 0) (host : Bool) (error : Option Str) :
    (s.connect host error).Tally := by
  unfold Connection.connect
  dsimp only
  split_ifs
  · refine ⟨fun halive => ?_, fun _ hne => absurd hqueue hne, fun _ _ => hqueue⟩
    simpa [pendingOn] using hreqs halive
  · exact tally_makeHandle_dial (s := { s with
      connecting := true
      writable := true
      base := s.made
      connects := s.connects + 1
      written := []
      handed := [] }) rfl hqueue error

theorem fresh_tally (allowHalfOpen secure : Bool) : (fresh allowHalfOpen secure).Tally :=
  ⟨fun _ => rfl, fun _ h => absurd rfl h, nofun⟩

theorem accepted_tally (allowHalfOpen : Bool) : (accepted allowHalfOpen).Tally :=
  ⟨fun _ => rfl, fun _ h => absurd rfl h, nofun⟩

/-! ### One connection -/

/-- What holds in a run with one call of `connect`, or none. -/
structure Single (s : Connection) : Prop where
  wf : s.Wf
  phase : s.Phase
  tally : s.Tally
  base : s.base = 0
  lookups : ∀ i ∈ s.lookups, i = s.connects

theorem connected_same (s : Connection) :
    s.connected.base = s.base ∧ s.connected.connects = s.connects ∧ s.connected.lookups = s.lookups := by
  unfold connected
  dsimp only
  split_ifs
  · exact ⟨rfl, rfl, rfl⟩
  · cases hdrain : ({ s with readable := true } : Connection).drainConnectQueue with
    | none => exact ⟨rfl, rfl, rfl⟩
    | some t =>
      obtain ⟨queue, -, ⟨-, rfl⟩ | ⟨h, -, ⟨-, rfl⟩ | ⟨data, rest, -, -, rfl⟩⟩⟩ :=
        drainConnectQueue_cases hdrain <;> exact ⟨rfl, rfl, rfl⟩
  · exact ⟨rfl, rfl, rfl⟩

theorem advance_same (s : Connection) :
    s.advance.base = s.base ∧ s.advance.connects = s.connects ∧ s.advance.lookups = s.lookups := by
  unfold advance
  split
  · exact ⟨rfl, rfl, rfl⟩
  · next data rest hqueue =>
    obtain hnone | ⟨g, hhandle⟩ := Option.eq_none_or_eq_some s.handle
    · dsimp only
      rw [rawWrite_of_none (s := { s with writeQueue := rest }) hnone]
      exact ⟨rfl, rfl, rfl⟩
    · rcases Nat.eq_zero_or_pos (s.handles g).native.pendingWrites with hidle | hpending
      · dsimp only
        rw [rawWrite_of_idle (s := { s with writeQueue := rest }) hhandle hidle]
        exact ⟨rfl, rfl, rfl⟩
      · dsimp only
        rw [rawWrite_of_pending (s := { s with writeQueue := rest }) hhandle hpending]
        exact ⟨rfl, rfl, rfl⟩

/-- Only `connect` begins another connection, and asks for a lookup. -/
theorem Begins.same {e : ConnectionEvent} (hb : Begins s e t) :
    t.base = s.base ∧ t.connects = s.connects ∧ t.lookups.Sublist s.lookups := by
  have hdestroy : ∀ (u : Connection) (error : Option Str), (u.destroy error).base = u.base ∧
      (u.destroy error).connects = u.connects ∧ (u.destroy error).lookups.Sublist u.lookups :=
    fun u error => ⟨(Keeps.destroy u error).base, (Keeps.destroy u error).connects,
      (Keeps.destroy u error).lookups⟩
  cases hb with
  | nothing | pause | late | rearm | finishNow | undrained | secured => exact ⟨rfl, rfl, .refl _⟩
  | destroy error => exact hdestroy s error
  | write asked taken =>
    obtain ⟨-, rfl⟩ | ⟨-, h, -, ⟨-, rfl⟩ | ⟨-, rfl⟩⟩ := write_cases taken <;>
      exact ⟨rfl, rfl, .refl _⟩
  | @completed h k data ended alive =>
    obtain ⟨hbase, hconnects, hlookups⟩ :=
      (s.onHandle h fun x => { x with native := x.native.complete k data }).advance_same
    exact ⟨hbase, hconnects, hlookups ▸ .refl _⟩
  | failed ended alive => exact hdestroy (s.onHandle _ _) _
  | eof taken handle callback first writable idle => exact hdestroy (s.atEof _ _) none
  | raised frame => exact hdestroy { s with waiting := none } _
  | unfound frame => exact hdestroy { s with waiting := none } none
  | drained frame drained =>
    obtain ⟨queue, -, ⟨-, rfl⟩ | ⟨h, -, ⟨-, rfl⟩ | ⟨data, rest, -, -, rfl⟩⟩⟩ :=
      drainConnectQueue_cases drained <;> exact ⟨rfl, rfl, .refl _⟩
  | lookupFailed pending connecting => exact ⟨rfl, rfl, List.erase_sublist⟩
  | @found i error pending connecting =>
    have hdial : ∀ u : Connection, (u.dial error).base = u.base ∧
        (u.dial error).connects = u.connects ∧ (u.dial error).lookups.Sublist u.lookups := by
      intro u
      cases error with
      | some message => exact hdestroy u (some message)
      | none =>
        unfold dial
        dsimp only
        split <;> exact ⟨rfl, rfl, .refl _⟩
    dsimp only
    split_ifs
    · obtain ⟨hbase, hconnects, hlookups⟩ :=
        hdial ({ s with lookups := s.lookups.erase i } : Connection).makeHandle
      exact ⟨hbase, hconnects, hlookups.trans List.erase_sublist⟩
    · obtain ⟨hbase, hconnects, hlookups⟩ := hdial { s with lookups := s.lookups.erase i }
      exact ⟨hbase, hconnects, hlookups.trans List.erase_sublist⟩
  | @connected h idle begun callback handle alive =>
    obtain ⟨hbase, hconnects, hlookups⟩ :=
      ({ s.takeConnect h with connecting := false } : Connection).connected_same
    exact ⟨hbase, hconnects, hlookups ▸ .refl _⟩
  | unconnected idle callback handle alive => exact hdestroy (s.takeConnect _) _

theorem Single.own (hs : s.Single) (e : ConnectionEvent) : s.Own e := by
  intro i found _ hi _
  exact hs.lookups i hi

theorem Single.current (hs : s.Single) (e : ConnectionEvent) : s.Current e := by
  intro h k _ _ _
  rw [hs.base]
  exact Nat.zero_le h

theorem Single.begins (hs : s.Single) {e : ConnectionEvent} (hb : Begins s e t) : t.Single := by
  obtain ⟨hbase, hconnects, hlookups⟩ := hb.same
  refine ⟨hs.wf.begins hb, hs.phase.begins hs.wf (hs.own e) hb,
    hs.tally.begins hs.wf hs.phase (hs.own e) (hs.current e) hb, hbase.trans hs.base, ?_⟩
  intro i hi
  rw [hconnects]
  exact hs.lookups i (hlookups.subset hi)

theorem Single.quiets (hs : s.Single) (hq : Quiets s t) : t.Single := by
  have hk := hq.keeps
  refine ⟨hs.wf.quiets hq, hs.phase.keeps hk, hs.tally.keeps hk, hk.base.trans hs.base, ?_⟩
  intro i hi
  rw [hk.connects]
  exact hs.lookups i (hk.lookups.subset hi)

theorem Single.step (hs : s.Single) {e : ConnectionEvent} (he : e.isConnect = false) :
    (s.step e).Single := by
  obtain ⟨t, hbegins, hquiets⟩ := step_comes hs.wf he
  exact (hs.begins hbegins).quiets hquiets

theorem accepted_single (allowHalfOpen : Bool) : (accepted allowHalfOpen).Single :=
  ⟨accepted_wf _, accepted_phase _, accepted_tally _, rfl, nofun⟩

theorem connect_single (allowHalfOpen secure host : Bool) (error : Option Str) :
    ((fresh allowHalfOpen secure).connect host error).Single := by
  have hlookups : ∀ i ∈ ((fresh allowHalfOpen secure).connect host error).lookups,
      i = ((fresh allowHalfOpen secure).connect host error).connects := by
    cases host with
    | true => exact fun i hi => List.mem_singleton.mp hi
    | false => cases error <;> exact nofun
  have hbase : ((fresh allowHalfOpen secure).connect host error).base = 0 := by
    cases host with
    | true => rfl
    | false => cases error <;> rfl
  exact ⟨(fresh_wf _ _).connect host error,
    (fresh_phase _ _).connect (fresh_wf _ _) rfl rfl host error,
    tally_connect rfl (fun _ => rfl) host error, hbase, hlookups⟩

end LuaNode.Net.Connection
