import LuaNode.Net.Phases

/-!
# One 'close', one 'error'

What `_destroy` posts for the next tick, counted over what is posted and what has been emitted. The
guard is `destroyed` for 'close' and `errorEmitted` for 'error'; the error of a lookup is emitted
without a look at `errorEmitted`, so a socket whose lookup has failed emits a second 'error' when
the user destroys it with an error.
-/

namespace LuaNode.Net

namespace Posted

def isClose : Posted → Bool
  | .close _ => true
  | _ => false

def isError : Posted → Bool
  | .error _ => true
  | _ => false

def isLookup : Posted → Bool
  | .lookup _ => true
  | _ => false

end Posted

/-- The listeners raise an error. -/
def ConnectionEvent.raises : ConnectionEvent → Bool
  | .returned (some _) _ => true
  | _ => false

namespace Connection

variable {s t u : Connection}

/-- How many of a kind are posted or have been emitted. -/
def told (s : Connection) (kind : Posted → Bool) : ℕ := (s.posted ++ s.emitted).countP kind

theorem told_emit {p : Posted} {rest : List Posted} (hposted : s.posted = p :: rest)
    (kind : Posted → Bool) :
    ({ s with posted := rest, emitted := s.emitted ++ [p] } : Connection).told kind =
      s.told kind := by
  unfold told
  simp only [hposted, List.countP_append, List.countP_cons, List.countP_nil]
  omega

/-- What `fireErrorCallbacks` posts. -/
def reported (s : Connection) : Option Str → List Posted
  | none => []
  | some message => if s.errorEmitted then [] else [.error message]

theorem fireErrorCallbacks_reports (s : Connection) (error : Option Str) :
    s.fireErrorCallbacks error =
      { s with
        posted := s.posted ++ s.reported error
        errorEmitted := s.errorEmitted || error.isSome } := by
  unfold fireErrorCallbacks reported
  cases error with
  | none => simp
  | some message =>
    cases s
    dsimp only
    split_ifs with hemitted <;> simp [hemitted]

/-- What `_destroy` posts. -/
theorem destroy_reports (s : Connection) (error : Option Str) :
    (s.destroy error).posted = s.posted ++ s.reported error ++
        (if s.destroyed then [] else [.close error.isSome]) ∧
      (s.destroy error).emitted = s.emitted ∧
      (s.destroy error).errorEmitted = (s.errorEmitted || error.isSome) := by
  unfold destroy
  split_ifs with hgone
  · rw [fireErrorCallbacks_reports]
    simp
  · have hclose : ∀ u : Connection, u.closeHandle.posted = u.posted ∧
        u.closeHandle.emitted = u.emitted ∧ u.closeHandle.errorEmitted = u.errorEmitted := by
      intro u
      unfold closeHandle onHandle
      split <;> exact ⟨rfl, rfl, rfl⟩
    obtain ⟨hposted, hemitted, hflag⟩ := hclose { s.connectQueueCleanUp with
      readable := false
      writable := false }
    dsimp only
    rw [fireErrorCallbacks_reports]
    refine ⟨?_, hemitted, by rw [hflag]; rfl⟩
    unfold reported
    rw [hposted, hflag]
    rfl

theorem told_destroy (s : Connection) (error : Option Str) (kind : Posted → Bool) :
    (s.destroy error).told kind = s.told kind + (s.reported error).countP kind +
      (if s.destroyed then [] else [.close error.isSome]).countP kind := by
  obtain ⟨hposted, hemitted, -⟩ := s.destroy_reports error
  unfold told
  rw [hposted, hemitted]
  simp only [List.countP_append]
  omega

theorem reported_lookup (s : Connection) (error : Option Str) :
    (s.reported error).countP Posted.isLookup = 0 := by
  unfold reported
  split
  · rfl
  · split_ifs <;> rfl

/-- `_destroy` posts no error of a lookup. -/
theorem told_lookup_destroy (s : Connection) (error : Option Str) :
    (s.destroy error).told Posted.isLookup = s.told Posted.isLookup := by
  rw [told_destroy, reported_lookup]
  split_ifs <;> simp [Posted.isLookup]

/-- Without an error `_destroy` posts none. -/
theorem told_error_destroy (s : Connection) :
    (s.destroy none).told Posted.isError = s.told Posted.isError := by
  rw [told_destroy]
  split_ifs <;> simp [Posted.isError, reported]

/-! ### What is posted -/

structure Told (s : Connection) : Prop where
  closes : s.told Posted.isClose = if s.destroyed then 1 else 0
  errors : s.told Posted.isError = if s.errorEmitted then 1 else 0
  silent : s.destroyed = false → s.errorEmitted = false
  opening : s.connecting = true → s.destroyed = false
  lookups : s.told Posted.isLookup ≤ 1
  unmade : s.told Posted.isLookup ≠ 0 → s.made = 0 ∧ s.lookups = []
  frame : s.waiting = some .lookup → s.told Posted.isLookup ≠ 0

/-- What `Told` is about. -/
def tellings (s : Connection) :
    List Posted × List Posted × Bool × Bool × Bool × ℕ × List ℕ × Option Waiting :=
  (s.posted, s.emitted, s.destroyed, s.errorEmitted, s.connecting, s.made, s.lookups, s.waiting)

theorem Told.congr (hs : s.Told) (ht : t.tellings = s.tellings) : t.Told := by
  simp only [tellings, Prod.mk.injEq] at ht
  obtain ⟨hposted, hemitted, hgone, hflag, hconnecting, hmade, hlookups, hwaiting⟩ := ht
  have htold : ∀ kind, t.told kind = s.told kind := by
    intro kind
    unfold told
    rw [hposted, hemitted]
  constructor
  · rw [htold, hgone]; exact hs.closes
  · rw [htold, hflag]; exact hs.errors
  · rw [hgone, hflag]; exact hs.silent
  · rw [hconnecting, hgone]; exact hs.opening
  · rw [htold]; exact hs.lookups
  · rw [htold, hmade, hlookups]; exact hs.unmade
  · rw [hwaiting, htold]; exact hs.frame

theorem Told.destroy (hs : s.Told) (error : Option Str) : (s.destroy error).Told := by
  have hflag := (s.destroy_reports error).2.2
  have hfields : (s.destroy error).made = s.made ∧ (s.destroy error).lookups = s.lookups ∧
      (s.destroy error).waiting = s.waiting ∧ (s.destroyed = false →
        (s.destroy error).connecting = false) ∧ (s.destroyed = true →
        (s.destroy error).connecting = s.connecting) := by
    rcases Bool.eq_false_or_eq_true s.destroyed with hgone | halive
    · obtain ⟨posted, emitted, heq⟩ := destroy_again hgone error
      rw [heq]
      simp [hgone]
    · obtain ⟨posted, emitted, heq⟩ := destroy_eq halive error
      rw [heq]
      simp [halive]
  obtain ⟨hmade, hlookups, hwaiting, hended, hsame⟩ := hfields
  constructor
  · rw [told_destroy, hs.closes, destroy_destroyed]
    unfold reported
    cases error <;> split_ifs <;> simp_all [Posted.isClose]
  · rw [told_destroy, hs.errors, hflag]
    unfold reported
    cases error <;> split_ifs <;> simp_all [Posted.isError]
  · simp [destroy_destroyed]
  · intro hconnecting
    rcases Bool.eq_false_or_eq_true s.destroyed with hgone | halive
    · rw [hsame hgone] at hconnecting
      exact absurd (hgone.symm.trans (hs.opening hconnecting)) nofun
    · exact absurd ((hended halive).symm.trans hconnecting) nofun
  · rw [told_lookup_destroy]
    exact hs.lookups
  · rw [told_lookup_destroy, hmade, hlookups]
    exact hs.unmade
  · rw [hwaiting, told_lookup_destroy]
    exact hs.frame

/-- The listeners return, and another handler may wait for its listeners. -/
theorem Told.wait (hs : s.Told) {w : Option Waiting}
    (hw : w = some .lookup → s.told Posted.isLookup ≠ 0) :
    ({ s with waiting := w } : Connection).Told :=
  ⟨hs.closes, hs.errors, hs.silent, hs.opening, hs.lookups, hs.unmade, hw⟩

theorem told_lookup_pos {message : Str} (hmem : .lookup message ∈ s.emitted) :
    s.told Posted.isLookup ≠ 0 := by
  unfold told
  refine (List.countP_pos_iff.mpr ⟨.lookup message, ?_, rfl⟩).ne'
  exact List.mem_append_right _ hmem

theorem Told.quiet (hs : s.Told) (hq : Quiet s t) : t.Told := by
  cases hq with
  | unpause | read | secure | shut | finishLater | soon | shutdown | shutdownHandle | fail
  | dropRead | eof | eofAgain | closePending | sendShut | shutdownDone | handshake | handshakeDone
  | dialed | called => exact hs.congr rfl
  | @shutdownFailed h error message handle flag failed =>
    exact Told.destroy (s := s.onHandle h fun x => (x.shutdown error).2) (hs.congr rfl) _
  | destroyIdle | destroyShut => exact hs.destroy none
  | wait secure connect data lookup =>
    refine hs.wait fun hw => ?_
    obtain ⟨message, hmem⟩ := lookup hw
    exact told_lookup_pos hmem
  | emit posted =>
    have htold := told_emit posted
    exact ⟨(htold _).trans hs.closes, (htold _).trans hs.errors, hs.silent, hs.opening,
      (htold _).trans_le hs.lookups, fun h => hs.unmade ((htold _).symm.trans_ne h),
      fun h => (htold _).trans_ne (hs.frame h)⟩
  | @data h k n taken handle callback =>
    exact Told.wait (s := (s.takeRead h k).onHandle h
      fun x => { x with reading := false, delivered := x.delivered ++ [n] }) (hs.congr rfl) nofun
  | lookedUp i idle =>
    refine ⟨hs.closes, hs.errors, hs.silent, hs.opening, hs.lookups, fun h => ?_, hs.frame⟩
    obtain ⟨hmade, hlookups⟩ := hs.unmade h
    exact ⟨hmade, by simp [hlookups]⟩

/-- A connection that is begun: a client socket, or one that a server has accepted. -/
inductive Opened : Connection → Prop
  | connect (allowHalfOpen secure host : Bool) (error : Option Str) :
      Opened ((fresh allowHalfOpen secure).connect host error)
  | accept (allowHalfOpen : Bool) : Opened (accepted allowHalfOpen)

theorem Opened.single (hs : Opened s) : s.Single := by
  cases hs with
  | connect allowHalfOpen secure host error => exact connect_single allowHalfOpen secure host error
  | accept allowHalfOpen => exact accepted_single allowHalfOpen

theorem Opened.told (hs : Opened s) : s.Told := by
  cases hs with
  | connect allowHalfOpen secure host error =>
    cases host with
    | true => exact ⟨rfl, rfl, fun _ => rfl, fun _ => rfl, Nat.zero_le _, nofun, nofun⟩
    | false =>
      have hmake : ({ fresh allowHalfOpen secure with
          connecting := true
          writable := true
          connects := 1 } : Connection).makeHandle.Told :=
        ⟨rfl, rfl, fun _ => rfl, fun _ => rfl, Nat.zero_le _, nofun, nofun⟩
      cases error with
      | some message => exact hmake.destroy (some message)
      | none => exact hmake.congr rfl
  | accept allowHalfOpen => exact ⟨rfl, rfl, fun _ => rfl, nofun, Nat.zero_le _, nofun, nofun⟩

/-- A socket that is being connected has not been closed, and has reported nothing. -/
theorem Told.makeHandle (hs : s.Told) (hconnecting : s.connecting = true)
    (hlooking : s.lookups ≠ []) (i : ℕ) :
    (({ s with lookups := s.lookups.erase i } : Connection).makeHandle).Told := by
  have halive := hs.opening hconnecting
  have hnone : s.told Posted.isLookup = 0 := by
    by_contra hne
    exact hlooking (hs.unmade hne).2
  refine ⟨?_, ?_, fun _ => rfl, fun _ => rfl, hs.lookups, fun h => absurd hnone h, hs.frame⟩
  · exact hs.closes.trans (if_neg (by simp [halive]))
  · exact hs.errors.trans (if_neg (by simp [hs.silent halive]))

theorem Told.dial (hs : s.Told) (error : Option Str) : (s.dial error).Told := by
  cases error with
  | some message => exact hs.destroy (some message)
  | none =>
    unfold Connection.dial
    dsimp only
    split
    · exact hs
    · exact hs.congr rfl

theorem Told.notConnecting (hs : s.Told) : ({ s with connecting := false } : Connection).Told :=
  ⟨hs.closes, hs.errors, hs.silent, nofun, hs.lookups, hs.unmade, hs.frame⟩

/-- `drainConnectQueue` posts nothing. -/
theorem Told.drainConnectQueue (hs : s.Told) (ht : s.drainConnectQueue = some t) : t.Told := by
  obtain ⟨queue, -, ⟨-, rfl⟩ | ⟨h, -, ⟨-, rfl⟩ | ⟨data, rest, -, -, rfl⟩⟩⟩ :=
    drainConnectQueue_cases ht <;> exact hs.notConnecting.congr rfl

theorem Told.connected (hs : s.Told) {h : ℕ} (hhandle : s.handle = some h) : s.connected.Told := by
  obtain ⟨-, heq⟩ | ⟨-, -, heq⟩ | ⟨-, -, heq⟩ := connected_cases hhandle
  · rw [heq]
    exact hs.congr rfl
  · rw [heq]
    exact hs.congr rfl
  · exact Told.drainConnectQueue (s := { s with readable := true }) (hs.congr rfl) heq

/-- A lookup that fails was the only one, and no handle has been made. -/
theorem Told.lookupFailed (hs : s.Told) (hsingle : s.Single) {i : ℕ} (hpending : i ∈ s.lookups)
    (hconnecting : s.connecting = true) (message : Str) :
    ({ s with
      lookups := s.lookups.erase i
      posted := s.posted ++ [.lookup message] } : Connection).Told := by
  obtain rfl := hsingle.lookups i hpending
  have hnone : s.told Posted.isLookup = 0 := by
    by_contra hne
    simp [(hs.unmade hne).2] at hpending
  have htold : ∀ kind, ({ s with
      lookups := s.lookups.erase s.connects
      posted := s.posted ++ [.lookup message] } : Connection).told kind =
      s.told kind + if kind (.lookup message) then 1 else 0 := by
    intro kind
    unfold told
    simp only [List.countP_append, List.countP_cons, List.countP_nil]
    omega
  have hlookups : s.lookups.erase s.connects = [] := by
    rw [hsingle.phase.nodup.erase_eq_filter, List.filter_eq_nil_iff]
    intro i hi
    simp [hsingle.lookups i hi]
  refine ⟨(htold _).trans hs.closes, (htold _).trans hs.errors, hs.silent, hs.opening, ?_, ?_, ?_⟩
  · rw [htold, hnone]
    exact le_rfl
  · have hmade := (hsingle.phase.looking hpending hconnecting).2
    exact fun _ => ⟨hmade.trans hsingle.base, hlookups⟩
  · intro _
    rw [htold]
    exact Nat.succ_ne_zero _

theorem Told.begins (hs : s.Told) (hsingle : s.Single) {e : ConnectionEvent} (hb : Begins s e t) :
    t.Told := by
  have hnow : ({ s with waiting := none } : Connection).Told := hs.wait nofun
  have hws := hsingle.wf
  cases hb with
  | nothing => exact hs
  | pause | late => exact hs.congr rfl
  | destroy error => exact hs.destroy error
  | write asked taken =>
    obtain ⟨-, rfl⟩ | ⟨-, h, -, ⟨-, rfl⟩ | ⟨-, rfl⟩⟩ := write_cases taken <;> exact hs.congr rfl
  | @secured h handle plain =>
    have hlt := hws.lt handle
    exact ⟨hs.closes, hs.errors, hs.silent, hs.opening, hs.lookups,
      fun hne => absurd hlt (by simp [(hs.unmade hne).1]), hs.frame⟩
  | @completed h k data ended alive =>
    obtain ⟨g, hhandle⟩ := hws.handle_of_outstanding alive ended
    obtain ⟨-, heq⟩ | ⟨first, rest, -, ⟨-, heq⟩ | ⟨-, heq⟩⟩ := advance_cases (s := s.onHandle h
        fun x => { x with native := x.native.complete k data }) hhandle <;>
      dsimp only <;> rw [heq] <;> exact hs.congr rfl
  | @failed h k data message ended alive =>
    exact Told.destroy (s := s.onHandle h fun x => { x with native := x.native.complete k data })
      (hs.congr rfl) _
  | @eof h k n taken handle callback first writable idle =>
    exact Told.destroy (s := s.atEof h k) (hs.congr rfl) none
  | rearm frame handle idle readable => exact hnow.congr rfl
  | raised frame => exact hnow.destroy _
  | finishNow frame queued => exact hnow.congr rfl
  | unfound frame => exact hnow.destroy none
  | drained frame drained =>
    exact Told.drainConnectQueue (s := { s with waiting := none, drains := s.drains - 1 })
      (hnow.congr rfl) drained
  | undrained frame failed => exact hnow.congr rfl
  | @lookupFailed i message pending connecting => exact hs.lookupFailed hsingle pending connecting _
  | @found i error pending connecting =>
    obtain rfl := hsingle.lookups i pending
    have hnone := (hsingle.phase.looking pending connecting).1
    dsimp only
    rw [if_pos (by simp [hnone])]
    exact (hs.makeHandle connecting (List.ne_nil_of_mem pending) _).dial error
  | @connected h idle begun callback handle alive =>
    have htake : ({ s.takeConnect h with connecting := false } : Connection).Told :=
      hs.notConnecting.congr rfl
    exact htake.connected handle
  | @unconnected h message begun callback handle alive =>
    exact Told.destroy (s := s.takeConnect h) (hs.congr rfl) _

theorem Told.step (hs : s.Told) (hsingle : s.Single) {e : ConnectionEvent}
    (he : e.isConnect = false) : (s.step e).Told := by
  obtain ⟨t, hbegins, hquiets⟩ := step_comes hsingle.wf he
  exact Quiets.invariant (I := Told) Told.quiet (hs.begins hsingle hbegins) hquiets

/-! ### Never both -/

/-- There is an error of a lookup, or another one. -/
def OneKind (s : Connection) : Prop := s.told Posted.isLookup = 0 ∨ s.told Posted.isError = 0

/-- The user does not destroy a socket with an error when its lookup has failed. -/
def Unreported (s : Connection) : ConnectionEvent → Prop
  | .destroy (some _) => s.told Posted.isLookup = 0
  | _ => True

instance (s : Connection) (e : ConnectionEvent) : Decidable (s.Unreported e) := by
  unfold Unreported
  split <;> infer_instance

theorem told_lookup_of_handle (hs : s.Told) (hws : s.Wf) {h : ℕ} (hhandle : s.handle = some h) :
    s.told Posted.isLookup = 0 := by
  by_contra hne
  have hlt := hws.lt hhandle
  simp [(hs.unmade hne).1] at hlt

theorem OneKind.quiet (hs : s.OneKind) (htold : s.Told) (hws : s.Wf) (hq : Quiet s t) :
    t.OneKind := by
  cases hq with
  | @shutdownFailed h error message handle flag failed =>
    left
    rw [told_lookup_destroy]
    exact told_lookup_of_handle (s := s) htold hws handle
  | destroyIdle | destroyShut =>
    unfold OneKind
    rw [told_lookup_destroy, told_error_destroy]
    exact hs
  | emit posted =>
    unfold OneKind
    rw [told_emit posted, told_emit posted]
    exact hs
  | _ => exact hs

theorem OneKind.quiets (hs : s.OneKind) (htold : s.Told) (hws : s.Wf) (hq : Quiets s t) :
    t.OneKind := by
  have hall : t.OneKind ∧ t.Told ∧ t.Wf :=
    Quiets.invariant (I := fun u => u.OneKind ∧ u.Told ∧ u.Wf)
      (fun hu hmove => ⟨hu.1.quiet hu.2.1 hu.2.2 hmove, hu.2.1.quiet hmove, hu.2.2.quiet hmove⟩)
      ⟨hs, htold, hws⟩ hq
  exact hall.1

theorem OneKind.begins (hs : s.OneKind) (htold : s.Told) (hsingle : s.Single) {e : ConnectionEvent}
    (hraises : e.raises = false) (hsilent : s.Unreported e) (hb : Begins s e t) : t.OneKind := by
  have hws := hsingle.wf
  have hnone : ∀ {h}, s.handle = some h → s.told Posted.isLookup = 0 :=
    told_lookup_of_handle htold hws
  have hdestroy : ∀ u : Connection, u.OneKind → (u.destroy none).OneKind := by
    intro u hu
    unfold OneKind
    rw [told_lookup_destroy, told_error_destroy]
    exact hu
  cases hb with
  | nothing | pause | late | rearm | finishNow | undrained | secured => exact hs
  | destroy error =>
    cases error with
    | none => exact hdestroy s hs
    | some message =>
      left
      rw [told_lookup_destroy]
      exact hsilent
  | write asked taken =>
    obtain ⟨-, rfl⟩ | ⟨-, h, -, ⟨-, rfl⟩ | ⟨-, rfl⟩⟩ := write_cases taken <;> exact hs
  | @completed h k data ended alive =>
    obtain ⟨g, hhandle⟩ := hws.handle_of_outstanding alive ended
    obtain ⟨-, heq⟩ | ⟨first, rest, -, ⟨-, heq⟩ | ⟨-, heq⟩⟩ := advance_cases (s := s.onHandle h
        fun x => { x with native := x.native.complete k data }) hhandle <;>
      dsimp only <;> rw [heq] <;> exact hs
  | @failed h k data message ended alive =>
    obtain ⟨g, hhandle⟩ := hws.handle_of_outstanding alive ended
    left
    rw [told_lookup_destroy]
    exact hnone hhandle
  | @eof h k n taken handle callback first writable idle => exact hdestroy (s.atEof h k) hs
  | raised frame => exact absurd hraises nofun
  | unfound frame => exact hdestroy { s with waiting := none } hs
  | drained frame drained =>
    obtain ⟨queue, -, ⟨-, rfl⟩ | ⟨h, -, ⟨-, rfl⟩ | ⟨data, rest, -, -, rfl⟩⟩⟩ :=
      drainConnectQueue_cases drained <;> exact hs
  | lookupFailed pending connecting =>
    -- nothing has been reported of a socket that is being connected
    right
    have herrors : s.told Posted.isError = 0 := by
      rw [htold.errors, htold.silent (htold.opening connecting)]
      rfl
    unfold told at herrors ⊢
    simpa [Posted.isError] using herrors
  | @found i error pending connecting =>
    left
    have hlookup : s.told Posted.isLookup = 0 := by
      by_contra hne
      simp [(htold.unmade hne).2] at pending
    obtain rfl := hsingle.lookups i pending
    have hhandle := (hsingle.phase.looking pending connecting).1
    dsimp only
    rw [if_pos (by simp [hhandle])]
    cases error with
    | some message =>
      change (Connection.destroy _ _).told _ = 0
      rw [told_lookup_destroy]
      exact hlookup
    | none => exact hlookup
  | @connected h idle begun callback handle alive =>
    obtain ⟨-, heq⟩ | ⟨-, -, heq⟩ | ⟨-, -, heq⟩ :=
      connected_cases (s := { s.takeConnect h with connecting := false }) handle
    · rw [heq]
      exact hs
    · rw [heq]
      exact hs
    · obtain ⟨queue, -, ⟨-, heq⟩ | ⟨g, -, ⟨-, heq⟩ | ⟨data, rest, -, -, heq⟩⟩⟩ :=
        drainConnectQueue_cases heq <;> rw [heq] <;> exact hs
  | unconnected begun callback handle alive =>
    left
    rw [told_lookup_destroy]
    exact hnone handle

theorem OneKind.step (hs : s.OneKind) (htold : s.Told) (hsingle : s.Single) {e : ConnectionEvent}
    (he : e.isConnect = false) (hraises : e.raises = false) (hsilent : s.Unreported e) :
    (s.step e).OneKind := by
  obtain ⟨t, hbegins, hquiets⟩ := step_comes hsingle.wf he
  exact (hs.begins htold hsingle hraises hsilent hbegins).quiets (htold.begins hsingle hbegins)
    (hsingle.wf.begins hbegins) hquiets

theorem Opened.oneKind (hs : Opened s) : s.OneKind := by
  left
  cases hs with
  | connect allowHalfOpen secure host error =>
    cases host with
    | true => rfl
    | false => cases error <;> rfl
  | accept allowHalfOpen => rfl

/-! ### The events of a connection -/

/-- One 'close' for a socket that is destroyed, none for another, and at most one 'error'. -/
def ClosedOnce (s : Connection) : Prop :=
  s.told Posted.isClose = (if s.destroyed then 1 else 0) ∧
    s.told Posted.isError + s.told Posted.isLookup ≤ 1

theorem closedOnce_iff (hs : s.Told) : s.ClosedOnce ↔ s.OneKind := by
  unfold ClosedOnce OneKind
  have herrors : s.told Posted.isError ≤ 1 := by
    rw [hs.errors]
    split_ifs <;> omega
  have hlookups := hs.lookups
  constructor
  · rintro ⟨-, hsum⟩
    omega
  · intro hone
    exact ⟨hs.closes, by omega⟩

/-- A second 'error' comes from a call of `destroy` that reports one. -/
theorem OneKind.unreported (hs : s.OneKind) (htold : s.Told) {e : ConnectionEvent}
    (hstep : (s.step e).OneKind) : s.Unreported e := by
  unfold Unreported
  split
  · next message =>
    by_contra hne
    have hsilent : s.errorEmitted = false := by
      by_contra hemitted
      have herrors := htold.errors
      rw [if_pos (by simpa using hemitted), hs.resolve_left hne] at herrors
      omega
    rw [step_destroy] at hstep
    rcases hstep with hlookup | herror
    · rw [told_lookup_destroy] at hlookup
      exact hne hlookup
    · rw [told_destroy] at herror
      simp [reported, hsilent, Posted.isError] at herror
  · trivial

/-- One 'close', and one 'error' at most, exactly as long as no failed lookup is reported again. -/
theorem closed_once_iff (hs : Opened s) {es : List ConnectionEvent}
    (hes : ∀ e ∈ es, e.isConnect = false ∧ e.raises = false) :
    (∀ t ∈ statesOf step s es, t.ClosedOnce) ↔ Guarded step Unreported s es := by
  refine states_iff_guarded_of (I := fun s => s.Single ∧ s.Told) ?_ ?_ ⟨hs.single, hs.told⟩
    ((closedOnce_iff hs.told).mpr hs.oneKind) hes
  · rintro s e ⟨he, -⟩ ⟨hsingle, htold⟩
    exact ⟨hsingle.step he, htold.step hsingle he⟩
  · rintro s e ⟨he, hraises⟩ ⟨hsingle, htold⟩ hone
    have hone := (closedOnce_iff htold).mp hone
    rw [closedOnce_iff (htold.step hsingle he)]
    exact ⟨hone.unreported htold, hone.step htold hsingle he hraises⟩

/-- The connection fails while `finish` waits for it. -/
def refused : List ConnectionEvent :=
  [.write ['a'], .finish none none, .handleConnect 0 (some ['e']), .tick, .destroy (some ['f']),
    .tick]

theorem refused_closed_once :
    (∀ t ∈ statesOf step ((fresh false false).connect false none) refused, t.ClosedOnce) ↔
      Guarded step Unreported ((fresh false false).connect false none) refused :=
  closed_once_iff (.connect false false false none) (by decide)

example : Guarded step Unreported ((fresh false false).connect false none) refused := by decide

/-- A listener of 'error' destroys the socket with the error of its lookup. -/
theorem lookup_error_reported_twice :
    let t := run step ((fresh false false).connect true none)
      [.lookup 1 (.error ['e']), .tick, .destroy (some ['e']), .returned none none, .tick]
    t.emitted = [.lookup ['e'], .error ['e']] ∧ ¬ t.ClosedOnce :=
  ⟨rfl, by unfold ClosedOnce; decide⟩

end Connection

end LuaNode.Net
