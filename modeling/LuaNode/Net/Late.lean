import LuaNode.Net.EarlyFinish

/-!
# What comes late

The queue, the counter and the flags belong to the socket, and the calls of the operating system to
a handle, so what completes on a handle that has been closed finds those of the next connection.
`Apart` says what has to be over when a socket is connected again, and which completions may come
late; what is late then leaves the socket as it is, but for the handle.
-/

namespace LuaNode.Net.Connection

variable {s t u : Connection} {h : ℕ}

/-- The assertions of the callback that `finish` sets hold. -/
def Acked (s : Connection) (h : ℕ) : Prop :=
  (s.handles h).hasShutdownCallback = true → s.flags.shutdown = true ∧ s.writable = false

instance (s : Connection) (h : ℕ) : Decidable (s.Acked h) :=
  inferInstanceAs (Decidable (_ → _ ∧ _))

/-- The handler that waits is one of a handle of an earlier connection. -/
def lateFrame (s : Connection) : Bool :=
  match s.waiting with
  | some (.connect h) | some (.drain h) | some (.data h) | some (.ended h) => decide (h < s.base)
  | _ => false

/-- The event belongs to an earlier connection. -/
def late (s : Connection) : ConnectionEvent → Bool
  | .lookup i _ => decide (i ≠ s.connects)
  | .handleConnect h _ | .handleWrite h _ _ | .handleRead h _ _ | .handleShutdown h
  | .handleHandshake h => decide (h < s.base)
  | .returned _ _ => s.lateFrame
  | _ => false

/-- Where a listener calls `connect`, its handler does nothing more. -/
def free (s : Connection) : Bool :=
  match s.waiting with
  | some .accept | some (.secure _ _) | some .lookup => false
  | _ => true

/-- A socket is connected again when nothing of its last connection is left in it; a lookup is
answered, and an operation of a closed handle completes, where the socket does not take it for one
of the connection it has now. -/
def Apart (s : Connection) : ConnectionEvent → Prop
  | .connect _ _ =>
    s.handle = none ∧ s.connecting = false ∧ s.writeQueue = [] ∧ s.drains = 0 ∧ s.paused = false ∧
      s.posted.countP Posted.isLookup = 0 ∧ s.free = true
  | .destroy _ | .destroySoon => s.connecting = true → s.destroyed = false
  | .lookup i _ => i ∈ s.lookups → s.connecting = true → i = s.connects
  | .handleConnect h _ =>
    h < s.base → (s.handles h).connects ≠ 0 → (s.handles h).hasConnectCallback = true →
      s.destroyed = true
  | .handleWrite h k _ =>
    h < s.base → k < (s.handles h).native.outstanding.length →
      s.destroyed = true ∧ ((s.handles h).native.writeShutdownPending = true → s.Acked h)
  | .handleRead h k _ =>
    h < s.base → k < (s.handles h).reads.length → (s.handles h).hasReadCallback = false
  | .handleShutdown h => h < s.base → (s.handles h).native.shutdowns ≠ 0 → s.Acked h
  | .handleHandshake h => h < s.base → (s.handles h).handshakes = 0
  | .returned raised _ =>
    match s.waiting with
    | some (.connect h) => h < s.base → raised = none ∧ s.flags.shutdownQueued = false
    | some (.drain h) =>
      h < s.base →
        (s.destroyed = false → s.pendingWriteReqs = 0 → s.flags.destroySoon = false) ∧
        ((s.handles h).native.writeShutdownPending = true → s.Acked h)
    | _ => True
  | _ => True

instance (s : Connection) (e : ConnectionEvent) : Decidable (s.Apart e) := by
  unfold Apart
  split <;> first | infer_instance | (split <;> infer_instance)

/-- A step that is written in turn and comes apart; while a handler waits for its listeners the
event loop calls no other. -/
def Renewable (s : Connection) (e : ConnectionEvent) : Prop :=
  (s.waiting.isSome = true ∧ e.isLoop = true) ∨ (s.InTurn e ∧ s.Apart e)

instance (s : Connection) (e : ConnectionEvent) : Decidable (s.Renewable e) :=
  inferInstanceAs (Decidable (_ ∨ _))

/-! ### What does not change -/

/-- The state but for the handles of earlier connections, and their lookups. -/
def core (s : Connection) : Connection :=
  { s with
    handles := fun h => if h < s.base then .new false true else s.handles h
    lookups := [] }

theorem core_onHandle (hlate : h < s.base) (f : Handle → Handle) :
    (s.onHandle h f).core = s.core := by
  have hhandles : (fun k => if k < s.base then Handle.new false true else (s.onHandle h f).handles k) =
      fun k => if k < s.base then .new false true else s.handles k := by
    funext k
    split_ifs with hk
    · rfl
    · rw [onHandle_other s (by omega)]
  unfold core
  exact congrArg (fun handles => ({ s with handles := handles, lookups := [] } : Connection)) hhandles

/-- The callback of a shutdown whose assertions hold does nothing to a socket that has not ended. -/
theorem shutdownCallback_of_acked (hs : s.Flagged) (hacked : s.Acked h) : s.shutdownCallback h = s := by
  unfold shutdownCallback
  by_cases hcallback : (s.handles h).hasShutdownCallback = true
  · obtain ⟨hshut, hwritable⟩ := hacked hcallback
    rw [if_neg (by simp [hcallback]), if_neg (by simp [hshut, hwritable])]
    split_ifs with hgone hended
    · rfl
    · obtain ⟨hreadable, heof, -⟩ := hs.shut (by simpa using hgone) hshut
      simp [hreadable, heof] at hended
    · rfl
  · rw [if_pos hcallback]

theorem core_handleWriteEnd (hs : s.Flagged) (hlate : h < s.base)
    (hacked : (s.handles h).native.writeShutdownPending = true → s.Acked h) :
    (s.handleWriteEnd h).core = s.core := by
  unfold handleWriteEnd
  by_cases hpending : (s.handles h).native.writeShutdownPending = true ∧
      (s.handles h).native.pendingWrites = 0
  · rw [if_pos hpending]
    have hsent : (s.onHandle h fun x => { x with sendShut := true }).core = s.core :=
      core_onHandle hlate _
    have hflagged : (s.onHandle h fun x => { x with sendShut := true }).Flagged :=
      hs.onHandle id rfl rfl
    have hstill : (s.onHandle h fun x => { x with sendShut := true }).Acked h := by
      unfold Acked at hacked ⊢
      rw [onHandle_same]
      exact hacked hpending.1
    dsimp only
    rw [shutdownCallback_of_acked hflagged hstill]
    split_ifs
    · exact (core_onHandle (by exact hlate) _).trans hsent
    · exact (core_onHandle (by exact hlate) _).trans hsent
  · rw [if_neg hpending]
    exact core_onHandle hlate _

theorem core_handleConnect (hlate : h < s.base) (error : Option Str)
    (hdead : (s.handles h).connects ≠ 0 → (s.handles h).hasConnectCallback = true →
      s.destroyed = true) : (s.handleConnect h error).core = s.core := by
  by_cases hnone : (s.handles h).connects = 0
  · unfold handleConnect
    rw [if_pos hnone]
  by_cases hcallback : (s.handles h).hasConnectCallback = true
  · rw [handleConnect_of_callback hnone hcallback, connectCallback_taken]
    dsimp only
    rw [if_pos (by exact hdead hnone hcallback)]
    exact core_onHandle hlate _
  · unfold handleConnect
    rw [if_neg hnone]
    dsimp only
    rw [onHandle_same, if_neg (by exact hcallback)]
    exact core_onHandle hlate _

theorem core_handleWrite (hs : s.Flagged) (hlate : h < s.base) (k : ℕ) (error : Option Str)
    (hdead : k < (s.handles h).native.outstanding.length →
      s.destroyed = true ∧ ((s.handles h).native.writeShutdownPending = true → s.Acked h)) :
    (s.handleWrite h k error).core = s.core := by
  unfold handleWrite
  split
  · rfl
  · next data hended =>
    obtain ⟨hgone, hacked⟩ := hdead (List.getElem?_eq_some_iff.mp hended).1
    unfold afterWrite
    rw [if_pos (by exact hgone)]
    have hflagged : (s.onHandle h fun x => { x with native := x.native.complete k data }).Flagged :=
      hs.onHandle id rfl rfl
    refine (core_handleWriteEnd hflagged (by exact hlate) ?_).trans (core_onHandle hlate _)
    unfold Acked at hacked ⊢
    rw [onHandle_same]
    exact hacked

theorem core_handleRead (hlate : h < s.base) (k : ℕ) (data : Bool)
    (hdeaf : k < (s.handles h).reads.length → (s.handles h).hasReadCallback = false) :
    (s.handleRead h k data).core = s.core := by
  unfold handleRead
  split
  · rfl
  · next n htaken =>
    have hnone := hdeaf (List.getElem?_eq_some_iff.mp htaken).1
    dsimp only
    rw [onHandle_same, if_pos (by simp [hnone])]
    exact (core_onHandle (by exact hlate) _).trans (core_onHandle hlate _)

theorem core_handleShutdown (hs : s.Flagged) (hlate : h < s.base)
    (hacked : (s.handles h).native.shutdowns ≠ 0 → s.Acked h) :
    (s.handleShutdown h).core = s.core := by
  unfold handleShutdown
  split_ifs with hnone
  · rfl
  · have hflagged : (s.onHandle h fun x => { x with
        native := { x.native with shutdowns := x.native.shutdowns - 1 } }).Flagged :=
      hs.onHandle id rfl rfl
    rw [shutdownCallback_of_acked hflagged]
    · exact core_onHandle hlate _
    · unfold Acked at hacked ⊢
      rw [onHandle_same]
      exact hacked hnone

theorem core_handleHandshake (hnone : (s.handles h).handshakes = 0) :
    (s.handleHandshake h).core = s.core := by
  unfold handleHandshake
  rw [if_pos hnone]

theorem core_lookup (i : ℕ) (found : Found) (hconnecting : s.connecting = false) :
    (({ s with lookups := s.lookups.erase i } : Connection).lookup found).core = s.core := by
  unfold lookup
  rw [if_pos (by simp [hconnecting])]
  rfl

/-- `destroySoon` of an earlier connection is forgotten. -/
theorem afterDrain_of_not_soon
    (hsoon : s.destroyed = false → s.pendingWriteReqs = 0 → s.flags.destroySoon = false) :
    s.afterDrain = s := by
  unfold afterDrain
  split_ifs with hboth
  · rcases Bool.eq_false_or_eq_true s.destroyed with hgone | halive
    · exact destroy_of_destroyed hgone none
    · exact absurd ((hsoon halive hboth.1).symm.trans hboth.2) nofun
  · rfl

/-- After listeners in which the socket has been connected again, there is nothing to read. -/
def Tail (s : Connection) : Prop :=
  ∀ h, s.waiting = some (.data h) ∨ s.waiting = some (.connect h) → h < s.base →
    s.readable = false

theorem core_returned (hs : s.Flagged) (htail : s.Tail) (raised error : Option Str)
    (hlate : s.lateFrame = true) (hapart : s.Apart (.returned raised error)) :
    (s.returned raised error).core = ({ s with waiting := none } : Connection).core := by
  have hnow : ({ s with waiting := none } : Connection).Flagged := hs.same rfl rfl
  unfold lateFrame at hlate
  unfold Apart at hapart
  unfold returned
  split at hlate
  · next h hwaiting =>
    have hlt : h < s.base := by simpa using hlate
    rw [hwaiting] at hapart ⊢
    obtain ⟨rfl, hqueued⟩ := hapart hlt
    dsimp only
    unfold afterConnect
    dsimp only
    rw [if_neg (by simp [hqueued]), if_neg (by simp [htail h (Or.inr hwaiting) hlt])]
  · next h hwaiting =>
    have hlt : h < s.base := by simpa using hlate
    rw [hwaiting] at hapart ⊢
    obtain ⟨hsoon, hacked⟩ := hapart hlt
    dsimp only
    rw [afterDrain_of_not_soon (s := { s with waiting := none }) hsoon, ite_self]
    exact core_handleWriteEnd hnow hlt hacked
  · next h hwaiting =>
    have hlt : h < s.base := by simpa using hlate
    rw [hwaiting]
    dsimp only
    have hafter : ({ s with waiting := none } : Connection).afterData =
        { s with waiting := none } := by
      unfold afterData
      rw [if_neg (by simp [htail h (Or.inl hwaiting) hlt])]
    rw [hafter, ite_self]
    exact core_onHandle (s := { s with waiting := none }) hlt _
  · next h hwaiting =>
    have hlt : h < s.base := by simpa using hlate
    rw [hwaiting]
    exact core_onHandle (s := { s with waiting := none }) hlt _
  · cases hlate

/-! ### The assertions -/

/-- No assertion of the callback that `finish` sets has failed. -/
def Asserts (s : Connection) : Prop := Failure.shutdown ∉ s.failures

theorem Asserts.congr (hs : s.Asserts) (ht : t.failures = s.failures) : t.Asserts := by
  unfold Asserts
  rw [ht]
  exact hs

theorem Asserts.fail (hs : s.Asserts) {failure : Failure} (hother : failure ≠ .shutdown) :
    (s.fail failure).Asserts := by
  unfold Asserts Connection.fail
  simp only [List.mem_append, List.mem_singleton, not_or]
  exact ⟨hs, hother.symm⟩

/-- The callback of a handle of this connection. -/
theorem Flagged.acked (hs : s.Flagged) (hbase : s.base ≤ h) : s.Acked h := by
  intro hcallback
  obtain ⟨hshut, hwritable, -⟩ := hs.callbacks h hbase hcallback
  exact ⟨hshut, hwritable⟩

theorem handleWriteEnd_failures (hs : s.Flagged)
    (hacked : (s.handles h).native.writeShutdownPending = true → s.Acked h) :
    (s.handleWriteEnd h).failures = s.failures := by
  unfold handleWriteEnd
  by_cases hpending : (s.handles h).native.writeShutdownPending = true ∧
      (s.handles h).native.pendingWrites = 0
  · rw [if_pos hpending]
    have hflagged : (s.onHandle h fun x => { x with sendShut := true }).Flagged :=
      hs.onHandle id rfl rfl
    have hstill : (s.onHandle h fun x => { x with sendShut := true }).Acked h := by
      unfold Acked at hacked ⊢
      rw [onHandle_same]
      exact hacked hpending.1
    dsimp only
    rw [shutdownCallback_of_acked hflagged hstill]
    split_ifs <;> rfl
  · rw [if_neg hpending]
    rfl

theorem handleShutdown_failures (hs : s.Flagged)
    (hacked : (s.handles h).native.shutdowns ≠ 0 → s.Acked h) :
    (s.handleShutdown h).failures = s.failures := by
  unfold handleShutdown
  split_ifs with hnone
  · rfl
  · have hflagged : (s.onHandle h fun x => { x with
        native := { x.native with shutdowns := x.native.shutdowns - 1 } }).Flagged :=
      hs.onHandle id rfl rfl
    rw [shutdownCallback_of_acked hflagged]
    · rfl
    · unfold Acked at hacked ⊢
      rw [onHandle_same]
      exact hacked hnone

theorem afterDrain_failures (s : Connection) : s.afterDrain.failures = s.failures := by
  unfold afterDrain
  split_ifs
  · exact (calm_destroy s none).failures
  · rfl

/-- A write of this connection, or one that finds the socket destroyed. -/
theorem handleWrite_failures (hs : s.Flagged) (hws : s.Wf) (hps : s.Phase) {k : ℕ}
    {error : Option Str} (hapart : s.Apart (.handleWrite h k error)) :
    (s.handleWrite h k error).failures = s.failures := by
  unfold handleWrite
  cases hended : (s.handles h).native.outstanding[k]? with
  | none => rfl
  | some data =>
    have hlen := (List.getElem?_eq_some_iff.mp hended).1
    have hown : s.Own (.handleWrite h k error) := nofun
    dsimp only
    rcases Bool.eq_false_or_eq_true s.destroyed with hgone | halive
    · unfold afterWrite
      rw [if_pos (by exact hgone)]
      have hflagged : (s.onHandle h fun x => { x with native := x.native.complete k data }).Flagged :=
        hs.onHandle id rfl rfl
      refine handleWriteEnd_failures hflagged fun hmarked => ?_
      by_cases hlate : h < s.base
      · have hacked := (hapart hlate hlen).2
        unfold Acked at hacked ⊢
        rw [onHandle_same] at hmarked ⊢
        exact hacked hmarked
      · exact hflagged.acked (not_lt.mp hlate)
    · have hbase : s.base ≤ h := by
        by_contra hlate
        exact absurd (halive.symm.trans (hapart (not_le.mp hlate) hlen).1) nofun
      cases error with
      | some message =>
        unfold afterWrite
        rw [if_neg (by simp [onHandle, halive])]
        have hbegins : Begins s (.handleWrite h k (some message)) _ := .failed hended halive
        have hflagged := hs.begins hws hps hown hbegins
        refine (handleWriteEnd_failures hflagged fun _ => hflagged.acked ?_).trans
          (calm_destroy _ _).failures
        exact (Keeps.destroy (s.onHandle h fun x => { x with native := x.native.complete k data })
          (some message)).base.trans_le hbase
      | none =>
        obtain ⟨g, hhandle⟩ := hws.handle_of_outstanding halive hended
        rw [afterWrite_none (by exact halive) (by exact hhandle)]
        have hbegins : Begins s (.handleWrite h k none) _ := .completed hended halive
        have hflagged := hs.begins hws hps hown hbegins
        have hphase := hps.begins hws hown hbegins
        have hwf := hws.begins hbegins
        have hadvance : Calm (s.onHandle h fun x =>
            { x with native := x.native.complete k data }) _ := calm_advance hhandle
        have hsame := (advance_same (s.onHandle h fun x =>
          { x with native := x.native.complete k data })).1
        unfold wrote
        dsimp only
        split_ifs
        · exact hadvance.failures
        · have hquiets := quiets_afterDrain { (s.onHandle h fun x =>
              { x with native := x.native.complete k data }).advance with
            pendingWriteReqs := (s.onHandle h fun x =>
              { x with native := x.native.complete k data }).advance.pendingWriteReqs - 1 }
          have hafter := hflagged.quiets hwf hphase hquiets
          refine (handleWriteEnd_failures hafter fun _ => hafter.acked ?_).trans
            ((afterDrain_failures _).trans hadvance.failures)
          rw [hquiets.keeps.base]
          exact hsame.trans_le hbase

theorem connected_failures (s : Connection) : s.connected.failures = s.failures := by
  unfold connected
  dsimp only
  split_ifs
  · rfl
  · cases hdrain : ({ s with readable := true } : Connection).drainConnectQueue with
    | none => rfl
    | some t => exact (calm_drainConnectQueue hdrain).failures
  · rfl

theorem connect_failures (s : Connection) (host : Bool) (error : Option Str) :
    (s.connect host error).failures = s.failures := by
  unfold Connection.connect
  dsimp only
  split_ifs
  · rfl
  · exact (calm_dial _ error).failures

theorem Asserts.handleConnect (hs : s.Asserts) (h : ℕ) (error : Option Str) :
    (s.handleConnect h error).Asserts := by
  by_cases hnone : (s.handles h).connects = 0
  · unfold Connection.handleConnect
    rwa [if_pos hnone]
  by_cases hcallback : (s.handles h).hasConnectCallback = true
  · rw [handleConnect_of_callback hnone hcallback, connectCallback_taken]
    dsimp only
    split_ifs
    · exact hs
    · exact Asserts.fail (s := s.takeConnect h) hs (show Failure.handle ≠ .shutdown by decide)
    · cases error with
      | none => exact hs.congr (connected_failures _)
      | some message => exact hs.congr (calm_destroy _ _).failures
  · unfold Connection.handleConnect
    rw [if_neg hnone]
    dsimp only
    rw [onHandle_same, if_neg (by exact hcallback)]
    exact hs

theorem Asserts.lookup (hs : s.Asserts) (found : Found) : (s.lookup found).Asserts := by
  unfold Connection.lookup
  cases found with
  | error message => split_ifs <;> exact hs
  | address error =>
    split_ifs
    · exact hs.congr (calm_dial _ error).failures
    · exact hs.congr (calm_dial _ error).failures
    · exact hs

theorem Asserts.onEnd (hs : s.Asserts) (h : ℕ) : (s.onEnd h).Asserts := by
  unfold Connection.onEnd
  dsimp only
  split_ifs
  · exact Asserts.fail (s := { s with readable := false }) hs (by decide)
  all_goals refine hs.congr ?_
  · rfl
  · exact (calm_finish _ none none).failures
  · exact (calm_destroy _ none).failures
  · exact (calm_finish _ none none).failures.trans (calm_destroy _ none).failures

theorem Asserts.handleRead (hs : s.Asserts) (h k : ℕ) (data : Bool) :
    (s.handleRead h k data).Asserts := by
  unfold Connection.handleRead
  split
  · exact hs
  · dsimp only
    split_ifs
    · exact Asserts.fail (s := s.takeRead h k) hs (show Failure.handle ≠ .shutdown by decide)
    · exact hs
    · exact Asserts.onEnd (s := s.takeRead h k) hs h
    · exact hs

theorem Asserts.loopStep (hs : s.Asserts) (hflagged : s.Flagged) (hws : s.Wf) (hps : s.Phase)
    {e : ConnectionEvent} (he : e.isLoop = true) (hapart : s.Apart e) : (s.loopStep e).Asserts := by
  cases e <;> unfold Connection.loopStep <;> dsimp only
  case lookup i found =>
    split_ifs
    · exact Asserts.lookup (s := { s with lookups := s.lookups.erase i }) hs found
    · exact hs
  case handleConnect h error => exact hs.handleConnect h error
  case handleWrite h k error => exact hs.congr (handleWrite_failures hflagged hws hps hapart)
  case handleRead h k data => exact hs.handleRead h k data
  case handleShutdown h =>
    refine hs.congr (handleShutdown_failures hflagged fun hposted => ?_)
    by_cases hlate : h < s.base
    · exact hapart hlate hposted
    · exact hflagged.acked (not_lt.mp hlate)
  case handleHandshake h =>
    unfold Connection.handleHandshake
    split_ifs <;> exact hs
  case tick =>
    unfold Connection.tick
    split
    · exact hs
    · dsimp only
      split <;> exact hs
  all_goals cases he

theorem Asserts.afterSecure (hs : s.Asserts) (h rest : ℕ) : (s.afterSecure h rest).Asserts := by
  cases rest with
  | zero => exact hs.congr (calm_resume s).failures
  | succ rest =>
    unfold Connection.afterSecure
    dsimp only
    cases hdrain : ({ s with drains := s.drains - 1 } : Connection).drainConnectQueue with
    | none => exact Asserts.fail (s := { s with drains := s.drains - 1 }) hs (by decide)
    | some t =>
      exact hs.congr (calm_drainConnectQueue hdrain).failures

theorem Asserts.returned (hs : s.Asserts) (hflagged : s.Flagged) (hws : s.Wf) (hps : s.Phase)
    (raised error : Option Str) (hapart : s.Apart (.returned raised error)) :
    (s.returned raised error).Asserts := by
  have hnow : ({ s with waiting := none } : Connection).Asserts := hs
  unfold Connection.returned
  cases hframe : s.waiting with
  | none => exact hs
  | some w =>
    cases w <;> dsimp only
    case accept =>
      unfold afterAccept doHandShake
      split_ifs
      · exact hs
      · exact hs
      · dsimp only
        split <;> exact hs
      · exact hs.congr (calm_resume _).failures
    case connect h =>
      unfold afterConnect
      dsimp only
      split
      · exact hs.congr (calm_destroy _ _).failures
      · split_ifs
        · exact hs.congr (calm_finish _ none error).failures
        · exact hs.congr (calm_resume _).failures
        · exact hs
    case drain h =>
      unfold Apart at hapart
      rw [hframe] at hapart
      have hflagged' : ({ s with waiting := none } : Connection).Flagged := hflagged.same rfl rfl
      refine hs.congr ?_
      split_ifs with hraised
      · refine handleWriteEnd_failures hflagged' fun hmarked => ?_
        by_cases hlate : h < s.base
        · exact (hapart hlate).2 hmarked
        · exact hflagged'.acked (not_lt.mp hlate)
      · by_cases hlate : h < s.base
        · obtain ⟨hsoon, hacked⟩ := hapart hlate
          rw [afterDrain_of_not_soon (s := { s with waiting := none }) hsoon]
          exact handleWriteEnd_failures hflagged' hacked
        · have hquiets := quiets_afterDrain { s with waiting := none }
          have hafter := hflagged'.quiets hws.waitNot (hps.congr rfl fun _ => rfl) hquiets
          refine (handleWriteEnd_failures hafter fun _ => hafter.acked ?_).trans
            (afterDrain_failures _)
          exact hquiets.keeps.base.trans_le (not_lt.mp hlate)
    case data h =>
      unfold afterData readOnce
      split_ifs
      · exact hs
      · split
        · exact hs
        · dsimp only
          split_ifs <;> exact hs
      · exact hs
    case ended h => exact hs
    case secure h rest =>
      split_ifs
      · exact hs
      · exact Asserts.afterSecure hnow h rest
    case lookup =>
      split_ifs
      · exact hs
      · exact hs.congr (calm_destroy _ none).failures

end LuaNode.Net.Connection
