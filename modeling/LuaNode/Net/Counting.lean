import LuaNode.Net.Server

/-!
# The connections of a server

`_connections` goes up in the callback of an acceptor and down in the `_destroy` of a socket. It is the
number of accepted sockets that are not destroyed, as long as none of them is connected again. A
server that is closed and has no connections is to emit 'close'; its test of `_connections` takes the
number 0 for true, so it never does.
-/

namespace LuaNode.Net

namespace Connection

variable {s t : Connection}

theorem Begins.destroyed_gone (hs : s.Told) {e : ConnectionEvent} (hb : Begins s e t)
    (hgone : s.destroyed = true) : t.destroyed = true := by
  have hclosed : s.connecting = true → False := by
    intro hconnecting
    exact absurd (hgone.symm.trans (hs.opening hconnecting)) nofun
  cases hb with
  | nothing | pause | late | rearm | finishNow | undrained | secured => exact hgone
  | destroy | raised | unfound => exact destroy_destroyed _ _
  | write asked taken =>
    obtain ⟨-, rfl⟩ | ⟨-, h, -, ⟨-, rfl⟩ | ⟨-, rfl⟩⟩ := write_cases taken <;> exact hgone
  | completed ended alive => exact absurd (hgone.symm.trans alive) nofun
  | failed ended alive => exact absurd (hgone.symm.trans alive) nofun
  | eof => exact destroy_destroyed _ _
  | drained frame drained =>
    obtain ⟨queue, -, ⟨-, rfl⟩ | ⟨h, -, ⟨-, rfl⟩ | ⟨data, rest, -, -, rfl⟩⟩⟩ :=
      drainConnectQueue_cases drained <;> exact hgone
  | lookupFailed pending connecting => exact (hclosed connecting).elim
  | found pending connecting => exact (hclosed connecting).elim
  | connected idle begun callback handle alive => exact absurd (hgone.symm.trans alive) nofun
  | unconnected => exact destroy_destroyed _ _

/-- A socket that no `connect` is called on. -/
structure Once (s : Connection) : Prop where
  single : s.Single
  told : s.Told

theorem accepted_once (allowHalfOpen : Bool) : (accepted allowHalfOpen).Once :=
  ⟨(Opened.accept allowHalfOpen).single, (Opened.accept allowHalfOpen).told⟩

/-- A socket that goes on, and stays destroyed. -/
structure Follows (s t : Connection) : Prop where
  once : t.Once
  gone : s.destroyed = true → t.destroyed = true

theorem Once.step (hs : s.Once) {e : ConnectionEvent} (he : e.isConnect = false) :
    s.Follows (s.step e) := by
  refine ⟨⟨hs.single.step he, hs.told.step hs.single he⟩, fun hgone => ?_⟩
  obtain ⟨t, hbegins, hquiets⟩ := step_comes hs.single.wf he
  exact hquiets.keeps.gone (hbegins.destroyed_gone hs.told hgone)

theorem Once.userStep (hs : s.Once) {e : ConnectionEvent} (he : e.isConnect = false) :
    s.Follows (s.userStep e) := by
  have hstep := hs.step he
  unfold Connection.step at hstep
  split_ifs at hstep
  · exact hstep
  · cases e with
    | lookup | handleConnect | handleWrite | handleRead | handleShutdown | handleHandshake | tick =>
      exact ⟨hs, id⟩
    | connect | write | finish | destroySoon | destroy | pause | resume | markSecure | setSecure
    | returned => exact hstep

theorem Once.loopStep (hs : s.Once) {e : ConnectionEvent} (he : e.isConnect = false)
    (hidle : s.waiting = none) : s.Follows (s.loopStep e) := by
  have hstep := hs.step he
  unfold Connection.step at hstep
  rwa [hidle] at hstep

end Connection

/-- An accepted socket is connected again. -/
def ServerEvent.reconnects : ServerEvent → Bool
  | .socket _ e => e.isConnect
  | _ => false

namespace Server

variable {s t : Server}

/-- The accepted sockets that are not destroyed. -/
def opened (s : Server) : ℕ := s.sockets.countP fun c => !c.destroyed

/-- `_connections` is the number of sockets that are not destroyed, and within the limit. -/
def Counts (s : Server) : Prop :=
  s.connections = s.opened ∧ 0 ≤ s.connections ∧
    ∀ limit, s.maxConnections = some limit → s.connections ≤ limit

structure Counted (s : Server) : Prop where
  once : ∀ c ∈ s.sockets, c.Once
  connections : s.connections = s.opened
  limit : ∀ limit, s.maxConnections = some limit → s.connections ≤ limit

theorem Counted.counts (h : s.Counted) : s.Counts := by
  refine ⟨h.connections, ?_, h.limit⟩
  rw [h.connections]
  exact Int.natCast_nonneg _

/-- What `Counted` is about. -/
def counting (s : Server) : List Connection × ℤ × Option ℕ :=
  (s.sockets, s.connections, s.maxConnections)

theorem Counted.congr (h : s.Counted) (ht : t.counting = s.counting) : t.Counted := by
  simp only [counting, Prod.mk.injEq] at ht
  obtain ⟨hsockets, hconnections, hlimit⟩ := ht
  constructor
  · rw [hsockets]
    exact h.once
  · unfold opened
    rw [hconnections, hsockets]
    exact h.connections
  · rw [hconnections, hlimit]
    exact h.limit

theorem countP_set_add {α : Type*} (p : α → Bool) {l : List α} {i : ℕ} {a : α}
    (ha : l[i]? = some a) (b : α) :
    (l.set i b).countP p + (if p a then 1 else 0) = l.countP p + if p b then 1 else 0 := by
  induction l generalizing i with
  | nil => simp at ha
  | cons x xs ih =>
    cases i with
    | zero =>
      obtain rfl : x = a := by simpa using ha
      simp only [List.set_cons_zero, List.countP_cons]
      omega
    | succ i =>
      have hrest := ih (i := i) (by simpa using ha)
      simp only [List.set_cons_succ, List.countP_cons]
      omega

theorem counting_emitCloseIfDrained (s : Server) : s.emitCloseIfDrained.counting = s.counting := by
  unfold emitCloseIfDrained
  split_ifs <;> rfl

/-- `_destroy` counts a socket down once. -/
theorem destroys_eq {c c' : Connection} (hc : c.Once) (hc' : c'.Once) :
    destroys c c' = (if c'.destroyed then 1 else 0) - if c.destroyed then 1 else 0 := by
  unfold destroys
  rw [hc.told.closes, hc'.told.closes]
  split_ifs <;> rfl

theorem onSocket_counted (h : s.Counted) (i : ℕ) {f : Connection → Connection}
    (hf : ∀ c ∈ s.sockets, c.Once → c.Follows (f c)) : (s.onSocket i f).Counted := by
  unfold onSocket
  split
  · exact h
  · rename_i c hc
    have hmem := List.mem_of_getElem? hc
    have hfollows := hf c hmem (h.once c hmem)
    have hdestroys := destroys_eq (h.once c hmem) hfollows.once
    have hset : ({ s with
        sockets := s.sockets.set i (f c)
        connections := s.connections - destroys c (f c) } : Server).Counted := by
      have hcount := countP_set_add (fun c => !c.destroyed) hc (f c)
      have hgone := hfollows.gone
      refine ⟨fun d hd => ?_, ?_, fun limit hlimit => ?_⟩
      · rcases List.mem_or_eq_of_mem_set hd with hd | rfl
        · exact h.once d hd
        · exact hfollows.once
      · have hconnections := h.connections
        unfold opened at hconnections ⊢
        dsimp only
        rw [hdestroys, hconnections]
        cases hd : c.destroyed <;> cases hd' : (f c).destroyed <;> simp_all
        all_goals omega
      · have hle := h.limit limit hlimit
        dsimp only
        rw [hdestroys]
        cases hd : c.destroyed <;> cases hd' : (f c).destroyed <;> simp_all
        omega
    dsimp only
    split_ifs
    · exact hset
    · exact hset.congr (counting_emitCloseIfDrained _)

theorem acceptIfOpen_counted (h : s.Counted) : s.acceptIfOpen.Counted := by
  unfold acceptIfOpen
  split <;> exact h.congr rfl

/-- A peer is counted, unless the server is full. -/
theorem onPeer_counted (h : s.Counted) (a : ℕ) : (s.onPeer a).Counted := by
  unfold onPeer
  split
  · exact h.congr rfl
  · split_ifs with hfull
    · exact h.congr rfl
    · refine ⟨fun c hc => ?_, ?_, fun limit hlimit => ?_⟩
      · rcases List.mem_append.mp hc with hc | hc
        · exact h.once c hc
        · rw [List.mem_singleton.mp hc]
          exact Connection.accepted_once _
      · have hconnections := h.connections
        unfold opened at hconnections ⊢
        dsimp only
        rw [List.countP_append, hconnections]
        rfl
      · have hroom : ¬(limit : ℤ) ≤ s.connections := by
          have hlimit' : s.maxConnections = some limit := hlimit
          simpa [full, hlimit'] using hfull
        change s.connections + 1 ≤ limit
        omega

theorem returned_counted (h : s.Counted) (raised : Option Str) : (s.returned raised).Counted := by
  unfold returned
  split
  · exact h
  · have hnow : ({ s with frame := none } : Server).Counted := h.congr rfl
    dsimp only
    split
    · rename_i a i _
      have hsocket : (({ s with frame := none } : Server).onSocket i
          fun c => c.returned raised none).Counted :=
        onSocket_counted hnow i fun c _ hc => hc.userStep (e := .returned raised none) rfl
      split_ifs
      · exact hsocket
      · exact acceptIfOpen_counted hsocket
    · exact hnow
    · exact hnow

theorem close_counted (h : s.Counted) : s.close.Counted := by
  unfold close
  split_ifs
  · exact h
  · have hclosed : ({ s.closeHandle with closed := true } : Server).Counted := h.congr rfl
    exact hclosed.congr (counting_emitCloseIfDrained _)

theorem listen2_counted (h : s.Counted) (answer : ListenAnswer) : (s.listen2 answer).Counted := by
  unfold listen2
  split <;> exact h.congr rfl

theorem tick_counted (h : s.Counted) : s.tick.Counted := by
  unfold tick
  split
  · exact h
  · dsimp only
    split
    · split <;> exact h.congr rfl
    · exact h.congr rfl

theorem handleAccept_counted (h : s.Counted) (a : ℕ) (result : Accepted) :
    (s.handleAccept a result).Counted := by
  unfold handleAccept
  split_ifs
  · exact h
  · have htaken : ({ s with accepts := Function.update s.accepts a (s.accepts a - 1) } :
        Server).Counted := h.congr rfl
    cases result with
    | gone => exact h.congr rfl
    | peer => exact onPeer_counted htaken a
    | error code => cases code <;> exact h.congr rfl

theorem userStep_counted (h : s.Counted) {e : ServerEvent} (he : e.reconnects = false) :
    (s.userStep e).Counted := by
  unfold userStep
  split
  · exact h.congr rfl
  · exact close_counted h
  · split_ifs
    · exact h
    · exact onSocket_counted h _ fun c _ hc => hc.userStep rfl
  · exact onSocket_counted h _ fun c _ hc => hc.userStep he
  · exact returned_counted h _
  · exact h

theorem step_counted (h : s.Counted) {e : ServerEvent} (he : e.reconnects = false) :
    (s.step e).Counted := by
  unfold step
  split_ifs with hbusy
  · exact userStep_counted h he
  · have hidle : ∀ c ∈ s.sockets, c.waiting = none := by
      intro c hc
      have hall := hbusy
      simp only [busy, Bool.or_eq_true, List.any_eq_true, not_or, not_exists, not_and] at hall
      simpa using hall.2 c hc
    cases e with
    | lookup answer =>
      simp only [loopStep]
      split_ifs
      · exact h
      · unfold lookup
        split
        · exact h.congr rfl
        · exact listen2_counted (s := { s with lookups := s.lookups - 1 }) (h.congr rfl) _
    | tick => exact tick_counted h
    | handleAccept a result => exact handleAccept_counted h a result
    | retry =>
      simp only [loopStep, retry]
      split_ifs
      · exact h
      · exact acceptIfOpen_counted (s := { s with retries := s.retries - 1 }) (h.congr rfl)
    | socket i e => exact onSocket_counted h i fun c hc hcs => hcs.loopStep he (hidle c hc)
    | listen => exact userStep_counted h he
    | close => exact userStep_counted h he
    | returned raised => exact userStep_counted h he

theorem fresh_counted (maxConnections : Option ℕ) (allowHalfOpen : Bool) :
    (fresh maxConnections allowHalfOpen).Counted where
  once _ hc := absurd hc List.not_mem_nil
  connections := rfl
  limit limit _ := Int.natCast_nonneg limit

/-- In every state of a run in which no accepted socket is connected again, `_connections` is the
number of accepted sockets that are not destroyed; it is not negative, and not above
`maxConnections`. -/
theorem connections_counted (maxConnections : Option ℕ) (allowHalfOpen : Bool)
    (es : List ServerEvent) (hes : ∀ e ∈ es, e.reconnects = false) :
    ∀ t ∈ statesOf step (fresh maxConnections allowHalfOpen) es, t.Counts := by
  intro t ht
  have hfresh := fresh_counted maxConnections allowHalfOpen
  have hguarded : Guarded step (fun _ e => e.reconnects = false)
      (fresh maxConnections allowHalfOpen) es := guarded_of_forall hes _
  exact (guarded_states_invariant (I := Counted) (fun s e hs he => step_counted hs he) hfresh
    hguarded ht).counts

/-- Two peers on a server for one: the second is refused until the first is destroyed. -/
def crowd : List ServerEvent :=
  [.listen, .lookup .ok, .tick, .returned none, .handleAccept 0 .peer, .returned none,
    .handleAccept 0 .peer, .socket 0 (.destroy none), .socket 0 (.destroy none),
    .handleAccept 0 .peer, .returned none, .socket 1 (.handleRead 0 0 false),
    .socket 1 (.returned none none)]

theorem connections_counted_crowd : (run step (fresh (some 1) false) crowd).Counts :=
  connections_counted (some 1) false crowd (by decide) _ (run_mem_statesOf _ _ _)

/-! ### The end of a server -/

/-- The server has been closed, and no connection is left. -/
def Drained (s : Server) : Prop := s.closed = true ∧ s.handle = none ∧ s.connections = 0

instance (s : Server) : Decidable s.Drained := inferInstanceAs (Decidable (_ ∧ _ ∧ _))

/-- How often 'close' has been scheduled. -/
def closes (s : Server) : ℕ := (s.posted ++ s.emitted).count .close

/-- The step that drains the server schedules 'close', and no other step does. -/
def Notifies (s : Server) (e : ServerEvent) : Prop :=
  (s.step e).closes = s.closes + if ¬s.Drained ∧ (s.step e).Drained then 1 else 0

instance (s : Server) (e : ServerEvent) : Decidable (s.Notifies e) :=
  inferInstanceAs (Decidable (_ = _))

/-- `_emitCloseIfDrained` does nothing. -/
theorem emitCloseIfDrained_eq (s : Server) : s.emitCloseIfDrained = s := by
  unfold emitCloseIfDrained isTrue
  simp

/-- A step that posts nothing, or something other than 'close', or emits what is posted. -/
theorem closes_post {p : ServerTick} (hp : p ≠ .close)
    (hposted : t.posted = s.posted ++ [p]) (hemitted : t.emitted = s.emitted) :
    t.closes = s.closes := by
  unfold closes
  rw [hposted, hemitted, List.count_append, List.count_append, List.count_append,
    List.count_singleton, if_neg (by simpa using hp)]
  rfl

theorem closes_emit {p : ServerTick} {rest : List ServerTick} (hs : s.posted = p :: rest)
    (hposted : t.posted = rest) (hemitted : t.emitted = s.emitted ++ [p]) :
    t.closes = s.closes := by
  unfold closes
  rw [hs, hposted, hemitted]
  simp only [List.count_append, List.count_cons, List.count_nil]
  omega

theorem closes_listen2 (s : Server) (answer : ListenAnswer) :
    (s.listen2 answer).closes = s.closes := by
  unfold listen2
  split
  · exact closes_post (p := .error) nofun rfl rfl
  · exact closes_post (p := .error) nofun rfl rfl
  · exact closes_post (p := .listening) nofun rfl rfl
  · exact closes_post (p := .error) nofun rfl rfl
  · exact closes_post (p := .listening) nofun rfl rfl

theorem closes_tick (s : Server) : s.tick.closes = s.closes := by
  unfold tick
  cases hs : s.posted with
  | nil => rfl
  | cons p rest =>
    cases p with
    | listening =>
      dsimp only
      split <;> exact closes_emit hs rfl rfl
    | error => exact closes_emit hs rfl rfl
    | close => exact closes_emit hs rfl rfl

theorem closes_onSocket (s : Server) (i : ℕ) (f : Connection → Connection) :
    (s.onSocket i f).closes = s.closes := by
  unfold onSocket
  split
  · rfl
  · dsimp only
    split_ifs
    · rfl
    · rw [emitCloseIfDrained_eq]
      rfl

theorem closes_acceptIfOpen (s : Server) : s.acceptIfOpen.closes = s.closes := by
  unfold acceptIfOpen
  split <;> rfl

theorem closes_returned (s : Server) (raised : Option Str) :
    (s.returned raised).closes = s.closes := by
  unfold returned
  split
  · rfl
  · dsimp only
    split
    · split_ifs
      · exact closes_onSocket _ _ _
      · exact (closes_acceptIfOpen _).trans (closes_onSocket _ _ _)
    · rfl
    · rfl

theorem closes_handleAccept (s : Server) (a : ℕ) (result : Accepted) :
    (s.handleAccept a result).closes = s.closes := by
  unfold handleAccept
  split_ifs
  · rfl
  · cases result with
    | gone => rfl
    | peer =>
      unfold onPeer
      dsimp only
      split
      · rfl
      · split_ifs <;> rfl
    | error code => cases code <;> rfl

theorem closes_userStep (s : Server) (e : ServerEvent) : (s.userStep e).closes = s.closes := by
  unfold userStep
  split
  · rfl
  · unfold close
    split_ifs
    · rfl
    · rw [emitCloseIfDrained_eq]
      rfl
  · split_ifs
    · rfl
    · exact closes_onSocket _ _ _
  · exact closes_onSocket _ _ _
  · exact closes_returned _ _
  · rfl

/-- 'close' is never scheduled. -/
theorem closes_step (s : Server) (e : ServerEvent) : (s.step e).closes = s.closes := by
  unfold step
  split_ifs
  · exact closes_userStep s e
  · cases e with
    | lookup answer =>
      simp only [loopStep]
      split_ifs
      · rfl
      · unfold lookup
        split
        · rfl
        · exact closes_listen2 _ _
    | tick => exact closes_tick s
    | handleAccept a result => exact closes_handleAccept s a result
    | retry =>
      simp only [loopStep, retry]
      split_ifs
      · rfl
      · exact closes_acceptIfOpen _
    | socket i e => exact closes_onSocket s i _
    | listen => exact closes_userStep s _
    | close => exact closes_userStep s _
    | returned raised => exact closes_userStep s _

theorem notifies_iff (e : ServerEvent) :
    s.Notifies e ↔ ¬(¬s.Drained ∧ (s.step e).Drained) := by
  unfold Notifies
  rw [closes_step]
  constructor
  · intro h hdrains
    rw [if_pos hdrains] at h
    omega
  · intro h
    rw [if_neg h]
    rfl

/-- In every run, 'close' is scheduled at the step that drains the server, and at no other, exactly as
long as the server is not drained. -/
theorem close_notified_iff (maxConnections : Option ℕ) (allowHalfOpen : Bool)
    (es : List ServerEvent) :
    Guarded step Notifies (fresh maxConnections allowHalfOpen) es ↔
      ∀ t ∈ statesOf step (fresh maxConnections allowHalfOpen) es, ¬t.Drained := by
  have hfresh : ¬(fresh maxConnections allowHalfOpen).Drained := fun h => absurd h.1 nofun
  refine (states_iff_guarded (P := fun s : Server => ¬s.Drained) (I := fun _ => True)
    (fun _ _ _ => trivial) ?_ trivial hfresh es).symm
  intro s e _ hs
  rw [notifies_iff]
  constructor
  · intro hnext hdrains
    exact hnext hdrains.2
  · intro h hnext
    exact h ⟨hs, hnext⟩

/-- A server without connections is closed. -/
theorem close_not_emitted :
    ¬ ∀ (maxConnections : Option ℕ) (allowHalfOpen : Bool) (es : List ServerEvent),
      Guarded step Notifies (fresh maxConnections allowHalfOpen) es := by
  intro h
  have hrun := h none false [.listen, .lookup .ok, .tick, .returned none, .close]
  revert hrun
  decide

end Server

end LuaNode.Net
