import LuaNode.Net.Late

/-!
# Connecting again

When nothing of the last connection is left in the socket as it is connected again, and what is late
comes apart, the next connection does not notice the earlier ones: the strings given to its handles
are those written since `connect`, and the counter is about its own writes.
-/

namespace LuaNode.Net.Connection

variable {s t u : Connection} {h : ℕ}

theorem Tail.of_same (hs : s.Tail) (hwaiting : t.waiting = s.waiting) (hbase : t.base = s.base)
    (hreadable : t.readable = true → s.readable = true) : t.Tail := by
  intro h hw hlt
  rw [hwaiting] at hw
  rw [hbase] at hlt
  by_contra hread
  exact absurd ((hs h hw hlt).symm.trans (hreadable (by simpa using hread))) nofun

theorem Tail.calm (hs : s.Tail) (hc : Calm s t) (hbase : t.base = s.base) (ht : t.Flagged) :
    t.Tail := by
  refine hs.of_same hc.waiting hbase fun hread => ?_
  rcases Bool.eq_false_or_eq_true t.destroyed with hgone | halive
  · exact absurd ((ht.dead hgone).symm.trans hread) nofun
  · exact (hc.readable halive).symm.trans hread

theorem Tail.destroy (hs : s.Tail) (hflagged : s.Flagged) (error : Option Str) :
    (s.destroy error).Tail :=
  hs.calm (calm_destroy s error) (Keeps.destroy s error).base (hflagged.destroy error)

theorem tail_idle (hs : s.waiting = none) : s.Tail := by
  intro h hw
  simp [hs] at hw

theorem tail_current (hs : ∀ h, s.waiting = some (.data h) ∨ s.waiting = some (.connect h) →
    s.base ≤ h) : s.Tail :=
  fun h hw hlt => absurd (hs h hw) (not_le.mpr hlt)

theorem Tail.quiet (hs : s.Tail) (hps : s.Phase) (hflagged : t.Flagged) (hq : Quiet s t) :
    t.Tail := by
  cases hq with
  | wait secure connect data lookup =>
    apply tail_current
    rintro h (hw | hw)
    · exact absurd hw (data h)
    · exact hps.current h (connect h hw).1
  | @data h k n taken handle callback =>
    apply tail_current
    rintro g (hw | hw)
    · cases hw
      exact hps.current h handle
    · cases hw
  | eof | eofAgain => exact hs.of_same rfl rfl nofun
  | @shutdownFailed h error message handle flag failed =>
    have hc := calm_destroy (s.onHandle h fun x => (x.shutdown error).2) (some message)
    refine hs.calm ⟨hc.waiting, hc.gone, hc.readable, hc.failures⟩ ?_ hflagged
    exact (Keeps.destroy (s.onHandle h fun x => (x.shutdown error).2) (some message)).base
  | destroyIdle | destroyShut =>
    exact hs.calm (calm_destroy s none) (Keeps.destroy s none).base hflagged
  | _ => exact hs.of_same rfl rfl id

theorem Tail.begins (hs : s.Tail) (hflagged : t.Flagged) {e : ConnectionEvent} (hws : s.Wf)
    (hb : Begins s e t) : t.Tail := by
  have hdestroy : ∀ (u : Connection) (error : Option Str), u.Tail → (u.destroy error).Flagged →
      (u.destroy error).Tail := fun u error hu hf =>
    hu.calm (calm_destroy u error) (Keeps.destroy u error).base hf
  cases hb with
  | nothing => exact hs
  | pause | late | lookupFailed | secured => exact hs.of_same rfl rfl id
  | rearm | finishNow | undrained => exact tail_idle rfl
  | destroy error => exact hdestroy s error hs hflagged
  | @write e data t asked taken =>
    exact hs.calm (calm_write taken) (Begins.same (.write asked taken)).1 hflagged
  | @completed h k data ended alive =>
    obtain ⟨g, hhandle⟩ := hws.handle_of_outstanding alive ended
    have hc : Calm (s.onHandle h fun x => { x with native := x.native.complete k data }) _ :=
      calm_advance hhandle
    exact hs.calm ⟨hc.waiting, hc.gone, hc.readable, hc.failures⟩
      (Begins.same (.completed ended alive)).1 hflagged
  | failed ended alive => exact hdestroy (s.onHandle _ _) _ (hs.of_same rfl rfl id) hflagged
  | eof taken handle callback first writable idle =>
    exact hdestroy (s.atEof _ _) none (hs.of_same rfl rfl nofun) hflagged
  | raised frame | unfound frame => exact tail_idle (calm_destroy { s with waiting := none } _).waiting
  | drained frame drained => exact tail_idle (calm_drainConnectQueue drained).waiting
  | @found i error pending connecting =>
    refine Tail.calm (s := if ({ s with lookups := s.lookups.erase i } : Connection).handle.isNone
      then ({ s with lookups := s.lookups.erase i } : Connection).makeHandle
      else { s with lookups := s.lookups.erase i }) ?_ (calm_dial _ error) ?_ hflagged
    · split_ifs
      · exact hs.of_same rfl rfl id
      · exact hs.of_same rfl rfl id
    · refine (Begins.same (.found pending connecting)).1.trans ?_
      split_ifs <;> rfl
  | @connected h idle begun callback handle alive =>
    apply tail_idle
    obtain ⟨-, heq⟩ | ⟨-, -, heq⟩ | ⟨-, -, heq⟩ :=
      connected_cases (s := { s.takeConnect h with connecting := false }) handle
    · rw [heq]
      exact idle
    · rw [heq]
      exact idle
    · exact (calm_drainConnectQueue heq).waiting.trans idle
  | unconnected => exact hdestroy (s.takeConnect _) _ (hs.of_same rfl rfl id) hflagged

/-! ### A connection after another -/

/-- What a run with its steps apart keeps. -/
structure Renewed (s : Connection) : Prop where
  wf : s.Wf
  phase : s.Phase
  tally : s.Tally
  given : s.Given
  ordered : s.Ordered
  flagged : s.Flagged
  asserts : s.Asserts
  tail : s.Tail

theorem Made.renewed (hs : Made s) : s.Renewed := by
  cases hs with
  | fresh allowHalfOpen secure =>
    exact ⟨fresh_wf _ _, fresh_phase _ _, fresh_tally _ _, ⟨rfl⟩,
      ⟨fun _ => rfl, fun _ => rfl, List.prefix_refl _⟩, fresh_flagged _ _, nofun, tail_idle rfl⟩
  | accepted allowHalfOpen =>
    refine ⟨accepted_wf _, accepted_phase _, accepted_tally _, ⟨rfl⟩,
      ⟨fun _ => rfl, fun _ => rfl, List.prefix_refl _⟩, accepted_flagged _, nofun, ?_⟩
    exact tail_current fun h _ => Nat.zero_le h

theorem connect_readable (hreadable : s.readable = false) (host : Bool) (error : Option Str) :
    (s.connect host error).readable = false := by
  cases host with
  | true => exact hreadable
  | false =>
    cases error with
    | none => exact hreadable
    | some message =>
      obtain ⟨posted, emitted, heq⟩ := destroy_eq (s := ({ s with
        connecting := true
        writable := true
        base := s.made
        connects := s.connects + 1
        written := []
        handed := [] } : Connection).makeHandle) rfl (some message)
      exact congrArg readable heq

/-- The parts of what a socket is when it is connected again. -/
theorem Renewed.unused (hs : s.Renewed) (hhandle : s.handle = none) (hconnecting : s.connecting = false)
    (hdrains : s.drains = 0) :
    s.readable = false ∧ s.connectQueue = none ∧ (s.destroyed = false → s.pendingWriteReqs = 0) := by
  refine ⟨?_, ?_, fun halive => ?_⟩
  · rcases Bool.eq_false_or_eq_true s.destroyed with hgone | halive
    · exact hs.flagged.dead hgone
    · exact (hs.flagged.unused halive hhandle hconnecting).1
  · by_contra hqueue
    rcases hs.phase.waits (Option.isSome_iff_ne_none.mpr hqueue) with hc | hpos
    · exact absurd (hconnecting.symm.trans hc) nofun
    · omega
  · have hmade : s.made = 0 := (hs.wf.first hhandle).resolve_left (by simp [halive])
    rw [hs.tally.reqs halive, pendingOn, hmade]
    simp

theorem Renewed.connect (hs : s.Renewed) {host : Bool} {error : Option Str}
    (hapart : s.Apart (.connect host error)) : (s.connect host error).Renewed := by
  obtain ⟨hhandle, hconnecting, hqueue, hdrains, -⟩ := hapart
  obtain ⟨hreadable, hnone, hreqs⟩ := hs.unused hhandle hconnecting hdrains
  exact ⟨hs.wf.connect host error, hs.phase.connect hs.wf hhandle hdrains host error,
    tally_connect hqueue hreqs host error, given_connect host error,
    ordered_connect hqueue hnone host error,
    hs.flagged.connect hs.wf hhandle hconnecting host error,
    hs.asserts.congr (connect_failures s host error),
    fun _ _ _ => connect_readable hreadable host error⟩

theorem Apart.own {e : ConnectionEvent} (he : s.Apart e) : s.Own e := by
  rintro i found rfl
  exact he

theorem Apart.current {e : ConnectionEvent} (he : s.Apart e) : s.Current e := by
  rintro h k rfl hlen halive
  by_contra hlate
  exact absurd (halive.symm.trans (he (not_le.mp hlate) hlen).1) nofun

theorem Asserts.step (hs : s.Renewed) {e : ConnectionEvent} (he : e.isConnect = false)
    (hapart : s.Apart e) : (s.step e).Asserts := by
  by_cases hskip : s.waiting.isSome = true ∧ e.isLoop = true
  · rw [step_of_loop hskip.1 hskip.2]
    exact hs.asserts
  by_cases hreturn : e.isReturn = true
  · obtain ⟨raised, error, rfl⟩ := isReturn_iff.mp hreturn
    rw [step_returned]
    exact hs.asserts.returned hs.flagged hs.wf hs.phase raised error hapart
  by_cases hloop : e.isLoop = true
  · rw [step_of_idle (by simpa [hloop] using hskip)]
    exact hs.asserts.loopStep hs.flagged hs.wf hs.phase hloop hapart
  · have huser : s.step e = s.userStep e := by
      unfold Connection.step
      split_ifs
      · rfl
      · cases e <;> first | rfl | exact absurd rfl hloop
    rw [huser]
    exact hs.asserts.congr (calm_userStep s he (by simpa using hreturn)).failures

theorem Renewed.step (hs : s.Renewed) {e : ConnectionEvent} (he : s.Renewable e) :
    (s.step e).Renewed := by
  rcases he with ⟨hwaiting, hloop⟩ | ⟨hturn, hapart⟩
  · rwa [step_of_loop hwaiting hloop]
  rcases connect_or e with ⟨host, error, rfl⟩ | he
  · rw [step_connect]
    exact hs.connect hapart
  by_cases hskip : s.waiting.isSome = true ∧ e.isLoop = true
  · rwa [step_of_loop hskip.1 hskip.2]
  have hidle : ∀ h k error, e = .handleWrite h k error → s.waiting = none := by
    rintro h k error rfl
    simpa [ConnectionEvent.isLoop] using hskip
  obtain ⟨t, hbegins, hquiets⟩ := step_comes hs.wf he
  have hk := hquiets.keeps
  have hown := hapart.own
  have hwf := hs.wf.begins hbegins
  have hphase := hs.phase.begins hs.wf hown hbegins
  have hflagged := hs.flagged.begins hs.wf hs.phase hown hbegins
  have hkept : (s.step e).Tail ∧ (s.step e).Flagged ∧ (s.step e).Wf ∧ (s.step e).Phase := by
    refine Quiets.invariant (I := fun u => u.Tail ∧ u.Flagged ∧ u.Wf ∧ u.Phase) ?_
      ⟨hs.tail.begins hflagged hs.wf hbegins, hflagged, hwf, hphase⟩ hquiets
    rintro u v ⟨htail, hf, hw, hp⟩ hq
    exact ⟨htail.quiet hp (hf.quiet hw hp hq) hq, hf.quiet hw hp hq, hw.quiet hq, hp.keeps hq.keeps⟩
  exact
    { wf := hkept.2.2.1
      phase := hkept.2.2.2
      tally := (hs.tally.begins hs.wf hs.phase hown hapart.current hbegins).keeps hk
      given := (hs.given.begins hs.wf hs.phase hown hbegins).keeps hk
      ordered := (hs.ordered.begins hs.wf hs.phase hturn hidle hbegins).keeps hk
      flagged := hkept.2.1
      asserts := Asserts.step hs he hapart
      tail := hkept.1 }

/-! ### What a connection does not see of the earlier ones -/

/-- The strings that leave are those of this connection, the counter counts its writes, and no
assertion of a shutdown has failed. -/
structure Clean (s : Connection) : Prop where
  sent : s.startedOn <+: s.written
  order : s.destroyed = false → s.startedOn ++ s.writeQueue ++ s.connectQueue.getD [] = s.written
  reqs : s.destroyed = false → s.pendingWriteReqs = s.pendingOn
  opening : s.destroyed = false → s.connecting = true →
    s.writeQueue = [] ∧ s.drains = 0 ∧ s.readable = false ∧ s.flags.gotEof = false ∧
      s.flags.shutdown = false
  asserts : s.Asserts

theorem Renewed.clean (hs : s.Renewed) : s.Clean where
  sent := hs.given.started ▸ hs.ordered.sent
  order halive := hs.given.started ▸ hs.ordered.order (Or.inl halive)
  reqs := hs.tally.reqs
  opening halive hconnecting := by
    obtain ⟨hreadable, heof, -⟩ := hs.flagged.early halive hconnecting
    refine ⟨hs.ordered.queue (Or.inl hconnecting), ?_, hreadable, heof, ?_⟩
    · by_contra hdrains
      exact absurd ((hs.phase.drains (Nat.pos_of_ne_zero hdrains)).symm.trans hconnecting) nofun
    · by_contra hshut
      obtain ⟨-, -, -, -, hnot⟩ := hs.flagged.shut halive (by simpa using hshut)
      exact absurd (hnot.symm.trans hconnecting) nofun
  asserts := hs.asserts

/-- What a socket starts a connection with. -/
def setting (s : Connection) : Bool × Option (List Str) × List Str × Bool × Bool × Bool × ℕ ×
    List Str × List Str :=
  (s.connecting, s.connectQueue, s.writeQueue, s.readable, s.writable, s.paused, s.drains, s.written,
    s.handed)

/-- What it starts with once there is a handle. -/
def opened (s : Connection) : ℤ × Flags × Bool × Bool × Option Handle :=
  (s.pendingWriteReqs, s.flags, s.destroyed, s.errorEmitted, s.handle.map s.handles)

/-- A socket starts like a new one, `destroy` ends what it has begun, and what is late changes
nothing. -/
structure Isolated (s : Connection) (e : ConnectionEvent) : Prop where
  connects : ∀ host error, e = .connect host error →
    (s.step e).setting = ((fresh s.allowHalfOpen s.secure).connect host error).setting ∧
    (host = false →
      (s.step e).opened = ((fresh s.allowHalfOpen s.secure).connect false error).opened)
  found : ∀ i error, e = .lookup i (.address error) → s.waiting = none → i ∈ s.lookups →
    s.connecting = true →
    (s.step e).opened = ((fresh s.allowHalfOpen s.secure).connect false error).opened
  ends : ∀ error, e = .destroy error → (s.step e).connecting = false ∧ (s.step e).handle = none
  endsSoon : e = .destroySoon → s.pendingOn = 0 →
    (s.step e).connecting = false ∧ (s.step e).handle = none
  late : s.late e = true →
    (s.step e).core = if e.isReturn then ({ s with waiting := none } : Connection).core else s.core

theorem destroyed_ends (hws : s.Wf) (hconnecting : s.connecting = true → s.destroyed = false)
    (error : Option Str) : (s.destroy error).connecting = false ∧ (s.destroy error).handle = none := by
  rcases Bool.eq_false_or_eq_true s.destroyed with hgone | halive
  · obtain ⟨posted, emitted, heq⟩ := destroy_again hgone error
    rw [heq]
    refine ⟨?_, hws.gone hgone⟩
    by_contra hc
    exact absurd ((hconnecting (by simpa using hc)).symm.trans hgone) nofun
  · obtain ⟨posted, emitted, heq⟩ := destroy_eq halive error
    rw [heq]
    exact ⟨rfl, rfl⟩

theorem destroyedSoon_ends (hs : s.Renewed)
    (hconnecting : s.connecting = true → s.destroyed = false) (hnone : s.pendingOn = 0) :
    s.destroySoon.connecting = false ∧ s.destroySoon.handle = none := by
  have hsoon : ({ s with
      writable := false
      flags := { s.flags with destroySoon := true } } : Connection).Wf := hs.wf.congr rfl
  unfold Connection.destroySoon
  dsimp only
  split_ifs with hreqs
  · exact destroyed_ends hsoon hconnecting none
  · have hgone : s.destroyed = true := by
      by_contra halive
      refine hreqs ((hs.tally.reqs (by simpa using halive)).trans ?_)
      rw [hnone]
      rfl
    refine ⟨?_, hs.wf.gone hgone⟩
    by_contra hc
    exact absurd ((hconnecting (by simpa using hc)).symm.trans hgone) nofun

theorem opened_makeHandle_dial (s : Connection) (allowHalfOpen secure : Bool) (error : Option Str) :
    (s.makeHandle.dial error).opened =
      ((fresh allowHalfOpen secure).connect false error).opened := by
  cases error with
  | none => simp [opened, Connection.connect, makeHandle, initSocketHandle, dial, onHandle]
  | some message =>
    simp [opened, Connection.connect, makeHandle, initSocketHandle, dial, destroy, onHandle,
      connectQueueCleanUp, closeHandle, fireErrorCallbacks]

theorem setting_connect (hqueue : s.writeQueue = []) (hconnect : s.connectQueue = none)
    (hreadable : s.readable = false) (hpaused : s.paused = false) (hdrains : s.drains = 0)
    (allowHalfOpen secure host : Bool) (error : Option Str) :
    (s.connect host error).setting =
      ((fresh allowHalfOpen secure).connect host error).setting := by
  cases host with
  | true =>
    simp [setting, Connection.connect, fresh, hqueue, hconnect, hreadable, hpaused, hdrains]
  | false =>
    cases error with
    | none =>
      simp [setting, Connection.connect, makeHandle, initSocketHandle, dial, onHandle, fresh,
        hqueue, hconnect, hreadable, hpaused, hdrains]
    | some message =>
      simp [setting, Connection.connect, makeHandle, initSocketHandle, dial, destroy, onHandle,
        connectQueueCleanUp, closeHandle, fireErrorCallbacks, fresh, hqueue, hpaused, hdrains]

theorem Renewed.connects (hs : s.Renewed) {host : Bool} {error : Option Str}
    (hapart : s.Apart (.connect host error)) :
    (s.connect host error).setting =
      ((fresh s.allowHalfOpen s.secure).connect host error).setting ∧
    (host = false → (s.connect host error).opened =
      ((fresh s.allowHalfOpen s.secure).connect false error).opened) := by
  obtain ⟨hhandle, hconnecting, hqueue, hdrains, hpaused, -⟩ := hapart
  obtain ⟨hreadable, hnone, -⟩ := hs.unused hhandle hconnecting hdrains
  refine ⟨setting_connect hqueue hnone hreadable hpaused hdrains _ _ host error, ?_⟩
  rintro rfl
  exact opened_makeHandle_dial _ _ _ error

/-- The answer to the lookup of this connection. -/
theorem Renewed.found (hs : s.Renewed) {i : ℕ} {error : Option Str} (hidle : s.waiting = none)
    (hpending : i ∈ s.lookups) (hconnecting : s.connecting = true)
    (hapart : s.Apart (.lookup i (.address error))) :
    (s.step (.lookup i (.address error))).opened =
      ((fresh s.allowHalfOpen s.secure).connect false error).opened := by
  obtain rfl := hapart hpending hconnecting
  obtain ⟨hnone, -⟩ := hs.phase.looking hpending hconnecting
  rw [step_of_idle hidle]
  unfold loopStep lookup
  dsimp only
  rw [if_pos hpending, if_neg (by simp [hconnecting]), if_pos (by simp [hnone])]
  exact opened_makeHandle_dial _ _ _ error

/-- What is late leaves the connection as it is. -/
theorem Renewed.late (hs : s.Renewed) {e : ConnectionEvent} (hapart : s.Apart e)
    (hlate : s.late e = true) :
    (s.step e).core =
      if e.isReturn then ({ s with waiting := none } : Connection).core else s.core := by
  by_cases hskip : s.waiting.isSome = true ∧ e.isLoop = true
  · rw [step_of_loop hskip.1 hskip.2, if_neg]
    intro hreturn
    obtain ⟨raised, error, rfl⟩ := isReturn_iff.mp hreturn
    exact absurd hskip.2 nofun
  by_cases hreturn : e.isReturn = true
  · obtain ⟨raised, error, rfl⟩ := isReturn_iff.mp hreturn
    rw [step_returned]
    exact (core_returned hs.flagged hs.tail raised error hlate hapart).trans (if_pos rfl).symm
  rw [if_neg hreturn]
  have hloop : e.isLoop = true := by
    cases e <;> first | rfl | exact absurd rfl hreturn | simp [Connection.late] at hlate
  rw [step_of_idle (by simpa [hloop] using hskip)]
  cases e <;> unfold loopStep <;> dsimp only
  case lookup i found =>
    split_ifs with hpending
    · refine core_lookup i found ?_
      by_contra hconnecting
      have hown := hapart hpending (by simpa using hconnecting)
      simp [Connection.late, hown] at hlate
    · rfl
  case handleConnect h error =>
    have hlt : h < s.base := by simpa [Connection.late] using hlate
    exact core_handleConnect hlt error (hapart hlt)
  case handleWrite h k error =>
    have hlt : h < s.base := by simpa [Connection.late] using hlate
    exact core_handleWrite hs.flagged hlt k error (hapart hlt)
  case handleRead h k data =>
    have hlt : h < s.base := by simpa [Connection.late] using hlate
    exact core_handleRead hlt k data (hapart hlt)
  case handleShutdown h =>
    have hlt : h < s.base := by simpa [Connection.late] using hlate
    exact core_handleShutdown hs.flagged hlt (hapart hlt)
  case handleHandshake h =>
    have hlt : h < s.base := by simpa [Connection.late] using hlate
    exact core_handleHandshake (hapart hlt)
  case tick => simp [Connection.late] at hlate
  all_goals cases hloop

/-- The event loop does not call a handler while another waits. -/
theorem isolated_of_loop {e : ConnectionEvent} (hwaiting : s.waiting.isSome = true)
    (he : e.isLoop = true) : s.Isolated e := by
  have hstep := step_of_loop hwaiting he
  refine ⟨?_, ?_, ?_, ?_, fun _ => ?_⟩
  · rintro host error rfl
    cases he
  · rintro i error rfl hidle
    simp [hidle] at hwaiting
  · rintro error rfl
    cases he
  · rintro rfl
    cases he
  · rw [hstep, if_neg]
    intro hreturn
    obtain ⟨raised, error, rfl⟩ := isReturn_iff.mp hreturn
    cases he

theorem Renewed.isolated (hs : s.Renewed) {e : ConnectionEvent} (he : s.Renewable e) :
    s.Isolated e := by
  rcases he with ⟨hwaiting, hloop⟩ | ⟨-, hapart⟩
  · exact isolated_of_loop hwaiting hloop
  refine ⟨?_, ?_, ?_, ?_, hs.late hapart⟩
  · rintro host error rfl
    rw [step_connect]
    exact hs.connects hapart
  · rintro i error rfl hidle hpending hconnecting
    exact hs.found hidle hpending hconnecting hapart
  · rintro error rfl
    rw [step_destroy]
    exact destroyed_ends hs.wf hapart error
  · rintro rfl hnone
    have hstep : s.step .destroySoon = s.destroySoon := by
      unfold Connection.step
      split_ifs <;> rfl
    rw [hstep]
    exact destroyedSoon_ends hs hapart hnone

/-- A connection does not notice the earlier ones of its socket, when nothing of them is left as it
begins and what is late comes apart. -/
theorem reconnect_starts_clean {s₀ : Connection} (hs : Made s₀) {es : List ConnectionEvent} (hes : Guarded step Renewable s₀ es) :
    (∀ t ∈ statesOf step s₀ es, t.Clean) ∧ Guarded step Isolated s₀ es := by
  have hrenewed := hs.renewed
  constructor
  · intro t ht
    exact (guarded_states_invariant (I := Renewed) (fun _ _ h he => h.step he) hrenewed hes ht).clean
  · exact guarded_imp (I := Renewed) (fun _ _ h he => h.step he) (fun _ _ h he => h.isolated he)
      hrenewed hes

/-- A socket that is destroyed while it writes, and connected again before the write completes. -/
def reconnected : List ConnectionEvent :=
  [.connect false none, .handleConnect 0 none, .write ['a'], .returned none none, .destroy none, .tick,
    .connect false none, .write ['b'], .handleRead 0 0 true, .handleConnect 1 none, .write ['c'],
    .returned none none, .handleWrite 1 0 none, .handleWrite 1 0 none, .returned none none]

theorem reconnected_clean :
    (∀ t ∈ statesOf step (fresh false false) reconnected, t.Clean) ∧
      Guarded step Isolated (fresh false false) reconnected :=
  reconnect_starts_clean (.fresh false false) (by decide)

example : (run step (fresh false false) reconnected).startedOn = [['b'], ['c']] := by decide

/-- A string that was queued when the socket was destroyed goes to the handle of the next
connection, behind what was written since. -/
theorem queue_survives_destroy :
    let t := run step (fresh false false)
      [.connect false none, .handleConnect 0 none, .returned none none, .write ['a'], .write ['b'],
        .destroy none, .connect false none, .handleConnect 1 none, .returned none none, .write ['c'],
        .handleWrite 1 0 none]
    t.written = [['c']] ∧ t.startedOn = [['c'], ['b']] := by
  decide

end LuaNode.Net.Connection
