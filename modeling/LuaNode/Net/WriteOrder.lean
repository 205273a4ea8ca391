import LuaNode.Net.Phases
import Mathlib.Data.List.Intervals

/-!
# The order of the strings

While a socket is connecting the strings wait in `_connectQueue`, and while a write is under way in
`_writeQueue`. They leave in the order in which `write` got them when every write falls where it goes
behind all that is queued (`InTurn`); the code does not see to that between `connect_callback` and
the 'secure' of a socket that is to be secure, where it is not connecting any more and the strings
of `_connectQueue` are still there.
-/

namespace LuaNode.Net.Connection

variable {s t u : Connection}

/-! ### What has been given to the native handles -/

/-- The strings given to `async_write` since `connect`. -/
def startedOn (s : Connection) : List Str :=
  (List.Ico s.base s.made).flatMap fun h => (s.handles h).native.started

structure Given (s : Connection) : Prop where
  started : s.startedOn = s.handed

theorem startedOn_congr (hbase : t.base = s.base) (hmade : t.made = s.made)
    (hstarted : ∀ h, (t.handles h).native.started = (s.handles h).native.started) :
    t.startedOn = s.startedOn := by
  unfold startedOn
  simp only [hbase, hmade, hstarted]

theorem Keeps.startedOn (hk : Keeps s t) : t.startedOn = s.startedOn :=
  startedOn_congr hk.base hk.made hk.started

theorem Given.keeps (hs : s.Given) (hk : Keeps s t) : t.Given :=
  ⟨(hk.startedOn.trans hs.started).trans hk.handed.symm⟩

theorem Given.congr (hs : s.Given) (hstarted : t.startedOn = s.startedOn)
    (hhanded : t.handed = s.handed) : t.Given :=
  ⟨(hstarted.trans hs.started).trans hhanded.symm⟩

/-- The handle made last comes last. -/
theorem Given.give (hs : s.Given) {h : ℕ} (hbase : s.base ≤ h) (hlast : h + 1 = s.made)
    (hidle : (s.handles h).native.pendingWrites = 0) (data : Str) : (s.give h data).Given := by
  have hother : ∀ k ∈ List.Ico s.base h, ((s.give h data).handles k).native.started =
      (s.handles k).native.started := by
    intro k hk
    have hne : k ≠ h := Nat.ne_of_lt (List.Ico.mem.mp hk).2
    exact congrArg (fun x : Handle => x.native.started) (onHandle_other s hne
      (f := fun x => { x with native := (x.native.write data).2 }))
  have hself : ((s.give h data).handles h).native.started =
      (s.handles h).native.started ++ [data] := by
    have hsame : (s.give h data).handles h =
        { s.handles h with native := ((s.handles h).native.write data).2 } := onHandle_same s h
        (f := fun x => { x with native := (x.native.write data).2 })
    rw [hsame, Native.write_of_idle hidle]
  have hstarted := hs.started
  constructor
  unfold Connection.startedOn at hstarted ⊢
  change (List.Ico s.base s.made).flatMap _ = s.handed ++ [data]
  rw [← hstarted, ← hlast, List.Ico.succ_top hbase]
  simp only [List.flatMap_append, List.flatMap_singleton, hself, List.flatMap_congr hother]
  simp

theorem Given.write (hs : s.Given) (hws : s.Wf) (hps : s.Phase) {data : Str}
    (ht : s.write data = some t) : t.Given := by
  obtain ⟨-, rfl⟩ | ⟨-, h, hhandle, ⟨-, rfl⟩ | ⟨hidle, rfl⟩⟩ := write_cases ht
  · exact hs.congr rfl rfl
  · exact hs.congr rfl rfl
  · exact (hs.give (hps.current h hhandle) (hws.last h hhandle) hidle data).congr rfl rfl

theorem Given.drainConnectQueue (hs : s.Given) (hws : s.Wf)
    (hcurrent : ∀ h, s.handle = some h → s.base ≤ h) (ht : s.drainConnectQueue = some t) :
    t.Given := by
  obtain ⟨queue, -, ⟨-, rfl⟩ | ⟨h, hhandle, ⟨-, rfl⟩ | ⟨data, rest, -, hidle, rfl⟩⟩⟩ :=
    drainConnectQueue_cases ht
  · exact hs.congr rfl rfl
  · exact hs.congr rfl rfl
  · exact (hs.give (hcurrent h hhandle) (hws.last h hhandle) hidle data).congr rfl rfl

theorem Given.advance (hs : s.Given) (hws : s.Wf) (hps : s.Phase) {g : ℕ}
    (hhandle : s.handle = some g) : s.advance.Given := by
  obtain ⟨-, heq⟩ | ⟨data, rest, -, ⟨-, heq⟩ | ⟨hidle, heq⟩⟩ := advance_cases hhandle <;> rw [heq]
  · exact hs
  · exact hs.congr rfl rfl
  · exact Given.give (s := { s with writeQueue := rest }) (hs.congr rfl rfl) (hps.current g hhandle)
      (hws.last g hhandle) hidle data

theorem given_makeHandle_dial (hmade : s.made = s.base) (hhanded : s.handed = [])
    (error : Option Str) : (s.makeHandle.dial error).Given := by
  have hmake : s.makeHandle.Given := by
    constructor
    change (List.Ico s.base (s.made + 1)).flatMap _ = s.handed
    rw [hhanded, hmade, List.Ico.succ_singleton]
    simp [makeHandle, initSocketHandle, hmade, Handle.new]
  cases error with
  | some message => exact hmake.keeps (Keeps.destroy _ _)
  | none =>
    refine hmake.congr (startedOn_congr rfl rfl ?_) rfl
    exact onHandle_keeps s.makeHandle (h := s.made)
      (f := fun x => { x with connects := x.connects + 1, hasConnectCallback := true })
      (fun x => x.native.started) rfl

theorem Given.begins (hs : s.Given) (hws : s.Wf) (hps : s.Phase) {e : ConnectionEvent}
    (hown : s.Own e) (hb : Begins s e t) : t.Given := by
  have hcomplete : ∀ h k data, (s.onHandle h fun x =>
      { x with native := x.native.complete k data }).Given := fun h k data =>
    hs.congr (startedOn_congr rfl rfl (onHandle_keeps s (fun x => x.native.started) rfl)) rfl
  have hnow : ({ s with waiting := none } : Connection).Given := hs.congr rfl rfl
  cases hb with
  | nothing => exact hs
  | pause | finishNow => exact hs.congr rfl rfl
  | destroy error => exact hs.keeps (Keeps.destroy s error)
  | write asked taken => exact hs.write hws hps taken
  | @secured h handle plain =>
    have hkeep : ∀ k, (Function.update s.handles s.made
        (.new true (s.handles h).hasReadCallback) k).native.started =
        (s.handles k).native.started := by
      intro k
      by_cases hk : k = s.made
      · subst hk
        rw [Function.update_self, hws.unmade _ le_rfl]
        rfl
      · rw [Function.update_of_ne hk]
    constructor
    unfold startedOn
    dsimp only
    rw [List.Ico.succ_top hps.base, List.flatMap_append]
    simp only [hkeep]
    rw [List.flatMap_singleton, hws.unmade _ le_rfl]
    exact (List.append_nil _).trans hs.started
  | @completed h k data ended alive =>
    obtain ⟨g, hhandle⟩ := hws.handle_of_outstanding alive ended
    have hphase : (s.onHandle h fun x => { x with native := x.native.complete k data }).Phase :=
      hps.onHandle rfl
    exact ((hcomplete h k data).advance (hws.completed ended).2.1 hphase hhandle).congr rfl rfl
  | late ended gone => exact hcomplete _ _ _
  | failed ended alive => exact (hcomplete _ _ _).keeps (Keeps.destroy _ _)
  | eof taken handle callback first writable idle =>
    exact hs.keeps ((Keeps.atEof s _ _).trans (Keeps.destroy _ none))
  | rearm frame handle idle readable => exact hnow.keeps (Keeps.touch _ rfl rfl rfl rfl rfl rfl)
  | raised frame => exact hnow.keeps (Keeps.destroy _ _)
  | unfound frame => exact hnow.keeps (Keeps.destroy _ _)
  | drained frame drained =>
    exact Given.drainConnectQueue (s := { s with waiting := none, drains := s.drains - 1 })
      (hs.congr rfl rfl) hws.undrain hps.current drained
  | undrained frame failed => exact hs.congr rfl rfl
  | lookupFailed pending connecting => exact hs.congr rfl rfl
  | @found i error pending connecting =>
    obtain rfl := hown i _ rfl pending connecting
    obtain ⟨hnone, hmade⟩ := hps.looking pending connecting
    have hhanded : s.handed = [] := by
      rw [← hs.started]
      simp [startedOn, hmade]
    dsimp only
    rw [if_pos (by simp [hnone])]
    exact given_makeHandle_dial (s := { s with lookups := s.lookups.erase s.connects }) hmade hhanded
      error
  | @connected h idle begun callback handle alive =>
    have htake : ({ s.takeConnect h with connecting := false } : Connection).Given :=
      hs.congr (startedOn_congr rfl rfl (onHandle_keeps s
        (f := fun x => { x with connects := x.connects - 1, hasConnectCallback := false })
        (fun x => x.native.started) rfl)) rfl
    obtain ⟨-, heq⟩ | ⟨-, -, heq⟩ | ⟨-, -, heq⟩ :=
      connected_cases (s := { s.takeConnect h with connecting := false }) handle
    · rw [heq]
      exact htake.congr rfl rfl
    · rw [heq]
      exact htake.congr rfl rfl
    · exact Given.drainConnectQueue
        (s := { s.takeConnect h with connecting := false, readable := true }) (htake.congr rfl rfl)
        ((hws.takeConnect begun).congr rfl) hps.current heq
  | @unconnected h message begun callback handle alive =>
    refine Given.keeps (s := s.takeConnect h) ?_ (Keeps.destroy _ _)
    exact hs.congr (startedOn_congr rfl rfl (onHandle_keeps s
      (f := fun x => { x with connects := x.connects - 1, hasConnectCallback := false })
      (fun x => x.native.started) rfl)) rfl

theorem given_connect (host : Bool) (error : Option Str) :
    (s.connect host error).Given := by
  unfold Connection.connect
  dsimp only
  split_ifs
  · constructor
    simp [startedOn]
  · exact given_makeHandle_dial (s := { s with
      connecting := true
      writable := true
      base := s.made
      connects := s.connects + 1
      written := []
      handed := [] }) rfl rfl error

/-! ### In turn -/

/-- A write is under way on `_handle`. -/
def busy (s : Connection) : Bool :=
  match s.handle with
  | none => false
  | some h => decide (0 < (s.handles h).native.pendingWrites)

/-- What is written now goes behind all that is queued, or is refused. -/
def behind (s : Connection) : Bool :=
  s.connecting || s.handle.isNone ||
    (s.connectQueue.isNone && (s.writeQueue.isEmpty || s.busy))

/-- A string is written where it goes behind what is queued; the first string of `_writeQueue` is
given to the handle and not put at the end, when there are others; and `setSecure` does not replace
a handle that is being connected. -/
def InTurn (s : Connection) : ConnectionEvent → Prop
  | .write _ => s.behind = true
  | .finish (some _) _ => s.writable = true → s.behind = true
  | .handleWrite h _ none => s.waiting = none → s.destroyed = false →
    s.writeQueue.length ≤ 1 ∨ s.handle = some h ∨ s.busy = false
  | .setSecure => s.connecting = false ∨ s.handle = none
  | _ => True

instance (s : Connection) (e : ConnectionEvent) : Decidable (s.InTurn e) := by
  unfold InTurn
  split <;> infer_instance

structure Ordered (s : Connection) : Prop where
  order : s.destroyed = false ∨ s.connecting = true →
    s.handed ++ s.writeQueue ++ s.connectQueue.getD [] = s.written
  queue : s.connecting = true ∨ s.connectQueue.isSome = true → s.writeQueue = []
  sent : s.handed <+: s.written

/-- What `Ordered` is about. -/
def strings (s : Connection) : List Str × List Str × Option (List Str) × List Str × Bool × Bool :=
  (s.handed, s.writeQueue, s.connectQueue, s.written, s.destroyed, s.connecting)

theorem Ordered.congr (hs : s.Ordered) (ht : t.strings = s.strings) : t.Ordered := by
  simp only [strings, Prod.mk.injEq] at ht
  obtain ⟨hhanded, hqueue, hconnect, hwritten, hgone, hconnecting⟩ := ht
  constructor
  · rw [hhanded, hqueue, hconnect, hwritten, hgone, hconnecting]; exact hs.order
  · rw [hconnecting, hconnect, hqueue]; exact hs.queue
  · rw [hhanded, hwritten]; exact hs.sent

theorem Ordered.keeps (hs : s.Ordered) (hk : Keeps s t) : t.Ordered := by
  constructor
  · rw [hk.handed, hk.writeQueue, hk.written]
    obtain ⟨hgone, hc, hq, -⟩ | ⟨-, hdied, hc, -⟩ := hk.cases
    · rw [hgone, hc, hq]
      exact hs.order
    · simp [hdied, hc]
  · rw [hk.writeQueue]
    obtain ⟨-, hc, hq, -⟩ | ⟨-, -, hc, hq, -⟩ := hk.cases
    · rw [hc, hq]
      exact hs.queue
    · simp [hc, hq]
  · rw [hk.handed, hk.written]
    exact hs.sent

theorem busy_of_some {h : ℕ} (hhandle : s.handle = some h) :
    s.busy = decide (0 < (s.handles h).native.pendingWrites) := by
  unfold busy
  rw [hhandle]

theorem Ordered.write (hs : s.Ordered) (hws : s.Wf) (hbehind : s.behind = true) {data : Str}
    (ht : s.write data = some t) : t.Ordered := by
  obtain ⟨hconnecting, rfl⟩ | ⟨hconnecting, h, hhandle, hcase⟩ := write_cases ht
  · have horder := hs.order (Or.inr hconnecting)
    refine ⟨fun _ => ?_, fun _ => hs.queue (Or.inl hconnecting), hs.sent.trans ⟨[data], rfl⟩⟩
    rw [← horder]
    simp
  · have halive := hws.alive hhandle
    have horder := hs.order (Or.inl halive)
    simp only [behind, hconnecting, hhandle, Bool.false_or, Option.isNone_some, Bool.and_eq_true,
      Bool.or_eq_true, Option.isNone_iff_eq_none, List.isEmpty_iff] at hbehind
    obtain ⟨hnone, hqueue⟩ := hbehind
    rw [hnone, Option.getD_none, List.append_nil] at horder
    obtain ⟨-, rfl⟩ | ⟨hidle, rfl⟩ := hcase
    · refine ⟨fun _ => ?_, ?_, hs.sent.trans ⟨[data], rfl⟩⟩
      · simp [hnone, ← horder]
      · simp [hconnecting, hnone]
    · rw [busy_of_some hhandle, hidle] at hqueue
      have hempty : s.writeQueue = [] := by simpa using hqueue
      rw [hempty, List.append_nil] at horder
      refine ⟨fun _ => ?_, ?_, ?_⟩
      · simp [give, onHandle, hempty, hnone, horder]
      · simp [give, onHandle, hempty]
      · simp [give, onHandle, horder]

theorem Ordered.drainConnectQueue
    (horder : s.destroyed = false → s.handed ++ s.connectQueue.getD [] = s.written)
    (hempty : s.writeQueue = []) (hsent : s.handed <+: s.written) (hws : s.Wf)
    (ht : s.drainConnectQueue = some t) : t.Ordered := by
  obtain ⟨queue, hqueue, ⟨rfl, rfl⟩ | ⟨h, hhandle, hcase⟩⟩ := drainConnectQueue_cases ht
  · refine ⟨fun halive => ?_, fun _ => hempty, hsent⟩
    simpa [connectQueueCleanUp, hempty, hqueue] using horder (by simpa [connectQueueCleanUp] using halive)
  · have horder := horder (hws.alive hhandle)
    rw [hqueue, Option.getD_some] at horder
    have hdone {P : Prop} (h : false = true ∨ false = true) : P := by simp at h
    obtain ⟨-, rfl⟩ | ⟨data, rest, rfl, -, rfl⟩ := hcase
    · refine ⟨fun _ => ?_, hdone, hsent⟩
      simp [connectQueueCleanUp, hempty, horder]
    · refine ⟨fun _ => ?_, hdone, ?_⟩
      · simp [connectQueueCleanUp, give, onHandle, hempty, horder]
      · simp [connectQueueCleanUp, give, onHandle, ← horder]

theorem Ordered.advance (hs : s.Ordered) (halive : s.destroyed = false) {g : ℕ}
    (hhandle : s.handle = some g)
    (hturn : s.writeQueue.length ≤ 1 ∨ (s.handles g).native.pendingWrites = 0) :
    s.advance.Ordered := by
  have horder := hs.order (Or.inl halive)
  obtain ⟨-, heq⟩ | ⟨data, rest, hqueue, hcase⟩ := advance_cases hhandle
  · rw [heq]
    exact hs
  · have hfree : ¬ (s.connecting = true ∨ s.connectQueue.isSome = true) := by
      intro h
      simp [hs.queue h] at hqueue
    rw [hqueue] at horder hturn
    obtain ⟨hpending, heq⟩ | ⟨-, heq⟩ := hcase
    · have hrest : rest = [] := by
        rcases hturn with hlength | hidle
        · simpa using hlength
        · omega
      subst hrest
      rw [heq]
      exact ⟨fun _ => horder, fun h => absurd h hfree, hs.sent⟩
    · rw [heq]
      refine ⟨fun _ => ?_, fun h => absurd h hfree, ?_⟩
      · simpa [Connection.give, Connection.onHandle] using horder
      · rw [← horder]
        simp [Connection.give, Connection.onHandle]

theorem Ordered.begins (hs : s.Ordered) (hws : s.Wf) (hps : s.Phase) {e : ConnectionEvent}
    (hturn : s.InTurn e) (hidle : ∀ h k error, e = .handleWrite h k error → s.waiting = none)
    (hb : Begins s e t) : t.Ordered := by
  have hnow : ({ s with waiting := none } : Connection).Ordered := hs.congr rfl
  cases hb with
  | nothing => exact hs
  | pause | rearm | finishNow | undrained | lookupFailed | secured | late => exact hs.congr rfl
  | destroy error => exact hs.keeps (Keeps.destroy s error)
  | @write e data t asked taken =>
    refine hs.write hws ?_ taken
    unfold Asks at asked
    split at asked
    · exact hturn
    · rcases asked.2 with ⟨hconnecting, -⟩ | hwritable
      · simp [behind, hconnecting]
      · exact hturn hwritable
    · exact asked.elim
  | @completed h k data ended alive =>
    obtain ⟨g, hhandle⟩ := hws.handle_of_outstanding alive ended
    have hcomplete : (s.onHandle h fun x => { x with native := x.native.complete k data }).Ordered :=
      hs.congr rfl
    refine (hcomplete.advance alive hhandle ?_).congr rfl
    rcases hturn (hidle h k none rfl) alive with hlength | hsame | hfree
    · exact Or.inl hlength
    · obtain rfl := Option.some.inj (hhandle.symm.trans hsame)
      rw [onHandle_same]
      exact Or.inr (hws.completed ended).2.2.2
    · rw [busy_of_some hhandle] at hfree
      have hg : g ≠ h := by
        rintro rfl
        simp [(hws.completed ended).2.2.1] at hfree
      rw [onHandle_other s hg]
      exact Or.inr (by simpa using hfree)
  | @failed h k data message ended alive =>
    have hcomplete : (s.onHandle h fun x => { x with native := x.native.complete k data }).Ordered :=
      hs.congr rfl
    exact hcomplete.keeps (Keeps.destroy _ _)
  | eof taken handle callback first writable idle =>
    exact hs.keeps ((Keeps.atEof s _ _).trans (Keeps.destroy _ none))
  | raised frame => exact hnow.keeps (Keeps.destroy _ _)
  | unfound frame => exact hnow.keeps (Keeps.destroy _ _)
  | @drained h rest error _ frame drained =>
    have hdrains := hws.frame h (rest + 1) frame
    obtain ⟨queue, hqueue, -⟩ := drainConnectQueue_cases drained
    have hempty := hs.queue (Or.inr (by rw [show s.connectQueue = some queue from hqueue]; rfl))
    refine Ordered.drainConnectQueue (s := { s with waiting := none, drains := s.drains - 1 })
      (fun halive => ?_) hempty hs.sent hws.undrain drained
    simpa [hempty] using hs.order (Or.inl halive)
  | @found i error pending connecting =>
    have hdial : ∀ u : Connection, u.strings = (s.handed, s.writeQueue, s.connectQueue, s.written,
        false, s.connecting) ∨ u.strings = s.strings → (u.dial error).Ordered := by
      intro u hu
      have hordered : u.Ordered := by
        rcases hu with hu | hu
        · simp only [strings, Prod.mk.injEq] at hu
          obtain ⟨hhanded, hqueue, hconnect, hwritten, -, hconnecting⟩ := hu
          refine ⟨fun _ => ?_, ?_, ?_⟩
          · rw [hhanded, hqueue, hconnect, hwritten]
            exact hs.order (Or.inr connecting)
          · rw [hconnecting, hconnect, hqueue]
            exact hs.queue
          · rw [hhanded, hwritten]
            exact hs.sent
        · exact hs.congr hu
      cases error with
      | some message => exact hordered.keeps (Keeps.destroy _ _)
      | none =>
        unfold dial
        dsimp only
        split
        · exact hordered
        · exact hordered.congr rfl
    dsimp only
    apply hdial
    split_ifs
    · exact Or.inl rfl
    · exact Or.inr rfl
  | @connected h idle begun callback handle alive =>
    have hconnecting : s.connecting = true :=
      (hps.callback h (hps.current h handle) callback).resolve_right (by simp [alive])
    have hempty := hs.queue (Or.inl hconnecting)
    have horder := hs.order (Or.inl alive)
    obtain ⟨hqueue, heq⟩ | ⟨-, -, heq⟩ | ⟨-, -, heq⟩ :=
      connected_cases (s := { s.takeConnect h with connecting := false }) handle
    · rw [heq]
      exact ⟨fun _ => horder, fun _ => hempty, hs.sent⟩
    · rw [heq]
      exact ⟨fun _ => horder, fun _ => hempty, hs.sent⟩
    · refine Ordered.drainConnectQueue
        (s := { s.takeConnect h with connecting := false, readable := true }) (fun _ => ?_) hempty
        hs.sent ((hws.takeConnect begun).congr rfl) heq
      rw [hempty, List.append_nil] at horder
      exact horder
  | @unconnected h message begun callback handle alive =>
    exact Ordered.keeps (s := s.takeConnect h) (hs.congr rfl) (Keeps.destroy _ _)

/-! ### What a socket waits for -/

/-- While the socket is connecting something is under way that ends it. -/
def Awaits (s : Connection) : Prop :=
  s.destroyed = false → s.connecting = true →
    s.connects ∈ s.lookups ∨ (∃ message, .lookup message ∈ s.posted ++ s.emitted) ∨
      ∃ h, s.handle = some h ∧ (s.handles h).hasConnectCallback = true ∧ (s.handles h).connects ≠ 0

theorem Awaits.keeps (hs : s.Awaits) (hk : Keeps s t) : t.Awaits := by
  intro halive hconnecting
  have hsame := hk.phase (halive.trans (hk.alive halive).symm)
  rcases hs (hk.alive halive) (hk.connecting hconnecting) with
    hlooking | ⟨message, hfailed⟩ | ⟨h, hhandle, hcallback, hbegun⟩
  · rw [hk.looking hconnecting, hk.connects]
    exact Or.inl hlooking
  · exact Or.inr (Or.inl ⟨message, hk.failed message hfailed⟩)
  · obtain ⟨hcallback', hconnects⟩ := hk.dialing h halive hhandle hcallback
    exact Or.inr (Or.inr ⟨h, hsame.2.2.trans hhandle, hcallback', hconnects ▸ hbegun⟩)

/-- What `Awaits` is about, but for the handles. -/
def waited (s : Connection) :
    Bool × Bool × ℕ × List ℕ × List Posted × List Posted × Option ℕ :=
  (s.destroyed, s.connecting, s.connects, s.lookups, s.posted, s.emitted, s.handle)

theorem Awaits.congr (hs : s.Awaits) (ht : t.waited = s.waited)
    (hcallbacks : ∀ h, (t.handles h).hasConnectCallback = (s.handles h).hasConnectCallback)
    (hbegun : ∀ h, (t.handles h).connects = (s.handles h).connects) : t.Awaits := by
  simp only [waited, Prod.mk.injEq] at ht
  obtain ⟨hgone, hconnecting, hconnects, hlookups, hposted, hemitted, hhandle⟩ := ht
  unfold Awaits
  simp only [hgone, hconnecting, hconnects, hlookups, hposted, hemitted, hhandle, hcallbacks, hbegun]
  exact hs

theorem Awaits.onHandle (hs : s.Awaits) {h : ℕ} {f : Handle → Handle}
    (hcallback : (f (s.handles h)).hasConnectCallback = (s.handles h).hasConnectCallback)
    (hbegun : (f (s.handles h)).connects = (s.handles h).connects) : (s.onHandle h f).Awaits :=
  hs.congr rfl (onHandle_keeps s Handle.hasConnectCallback hcallback)
    (onHandle_keeps s Handle.connects hbegun)

theorem awaits_of_connected (ht : t.connecting = false) : t.Awaits :=
  fun _ hconnecting => absurd (ht.symm.trans hconnecting) nofun

theorem awaits_of_destroyed (ht : t.destroyed = true) : t.Awaits :=
  fun halive => absurd (ht.symm.trans halive) nofun

theorem awaits_dial {h : ℕ} (hhandle : s.handle = some h) (error : Option Str) :
    (s.dial error).Awaits := by
  cases error with
  | some message => exact awaits_of_destroyed (destroy_destroyed s _)
  | none =>
    intro _ _
    refine Or.inr (Or.inr ⟨h, ?_⟩)
    unfold dial
    rw [hhandle]
    simp [Connection.onHandle, hhandle]

theorem Awaits.advance (hs : s.Awaits) {g : ℕ} (hhandle : s.handle = some g) : s.advance.Awaits := by
  obtain ⟨-, heq⟩ | ⟨data, rest, -, ⟨-, heq⟩ | ⟨-, heq⟩⟩ := advance_cases hhandle <;> rw [heq]
  · exact hs
  · exact hs.congr rfl (fun _ => rfl) fun _ => rfl
  · exact (Awaits.onHandle (f := fun x => { x with native := (x.native.write data).2 }) hs rfl
      rfl).congr rfl (fun _ => rfl) fun _ => rfl

theorem Awaits.begins (hs : s.Awaits) (hws : s.Wf) {e : ConnectionEvent} (hturn : s.InTurn e)
    (hb : Begins s e t) : t.Awaits := by
  have hnow : ({ s with waiting := none } : Connection).Awaits :=
    hs.congr rfl (fun _ => rfl) fun _ => rfl
  cases hb with
  | nothing => exact hs
  | pause | finishNow | undrained => exact hs.congr rfl (fun _ => rfl) fun _ => rfl
  | destroy error => exact hs.keeps (Keeps.destroy s error)
  | write asked taken =>
    obtain ⟨-, rfl⟩ | ⟨hconnecting, h, -, ⟨-, rfl⟩ | ⟨-, rfl⟩⟩ := write_cases taken
    · exact hs.congr rfl (fun _ => rfl) fun _ => rfl
    · exact awaits_of_connected hconnecting
    · exact awaits_of_connected hconnecting
  | @secured h handle plain =>
    rcases hturn with hconnecting | hnone
    · exact awaits_of_connected hconnecting
    · exact absurd (hnone.symm.trans handle) nofun
  | @completed h k data ended alive =>
    obtain ⟨g, hhandle⟩ := hws.handle_of_outstanding alive ended
    have hcomplete : (s.onHandle h fun x => { x with native := x.native.complete k data }).Awaits :=
      hs.onHandle rfl rfl
    exact (hcomplete.advance hhandle).congr rfl (fun _ => rfl) fun _ => rfl
  | late ended gone => exact awaits_of_destroyed gone
  | failed ended alive => exact awaits_of_destroyed (destroy_destroyed _ _)
  | eof taken handle callback first writable idle => exact awaits_of_destroyed (destroy_destroyed _ _)
  | rearm frame handle idle readable => exact hnow.onHandle rfl rfl
  | raised frame => exact awaits_of_destroyed (destroy_destroyed _ _)
  | unfound frame => exact awaits_of_destroyed (destroy_destroyed _ _)
  | drained frame drained =>
    obtain ⟨queue, -, ⟨-, rfl⟩ | ⟨h, -, ⟨-, rfl⟩ | ⟨data, rest, -, -, rfl⟩⟩⟩ :=
      drainConnectQueue_cases drained <;> exact awaits_of_connected rfl
  | @lookupFailed i message pending connecting =>
    exact fun _ _ => Or.inr (Or.inl ⟨message, by simp⟩)
  | @found i error pending connecting =>
    dsimp only
    split_ifs with hnone
    · exact awaits_dial (h := s.made) rfl error
    · obtain ⟨h, hhandle⟩ := Option.ne_none_iff_exists'.mp (by simpa using hnone)
      exact awaits_dial (s := { s with lookups := s.lookups.erase i }) hhandle error
  | connected => exact awaits_of_connected (connected_connecting rfl)
  | unconnected => exact awaits_of_destroyed (destroy_destroyed _ _)

theorem awaits_connect (s : Connection) (host : Bool) (error : Option Str) :
    (s.connect host error).Awaits := by
  cases host with
  | true => exact fun _ _ => Or.inl (by simp [Connection.connect])
  | false => exact awaits_dial (h := s.made) rfl error

/-! ### The order in every run -/

/-- What the strings of a socket that lives wait for. -/
structure InOrder (s : Connection) : Prop where
  order : s.startedOn ++ s.writeQueue ++ s.connectQueue.getD [] = s.written
  opening : s.Awaits
  waits : s.connectQueue.isSome = true → s.connecting = true ∨ 0 < s.drains
  flows : s.writeQueue ≠ [] → ∃ h, 0 < (s.handles h).native.pendingWrites

/-- What a run with its writes in turn keeps. -/
structure Turned (s : Connection) : Prop where
  single : s.Single
  given : s.Given
  ordered : s.Ordered
  awaits : s.Awaits

theorem Turned.step (hs : s.Turned) {e : ConnectionEvent} (he : e.isConnect = false)
    (hturn : s.InTurn e) : (s.step e).Turned := by
  by_cases hskip : s.waiting.isSome = true ∧ e.isLoop = true
  · rwa [step_of_loop hskip.1 hskip.2]
  · have hidle : ∀ h k error, e = .handleWrite h k error → s.waiting = none := by
      rintro h k error rfl
      simpa [ConnectionEvent.isLoop] using hskip
    obtain ⟨t, hbegins, hquiets⟩ := step_comes hs.single.wf he
    have hk := hquiets.keeps
    have hws := hs.single.wf
    have hps := hs.single.phase
    exact ⟨hs.single.step he, (hs.given.begins hws hps (hs.single.own e) hbegins).keeps hk,
      (hs.ordered.begins hws hps hturn hidle hbegins).keeps hk,
      (hs.awaits.begins hws hturn hbegins).keeps hk⟩

theorem ordered_connect (hqueue : s.writeQueue = []) (hconnect : s.connectQueue = none)
    (host : Bool) (error : Option Str) : (s.connect host error).Ordered := by
  have hclean : ∀ t : Connection, t.handed = [] → t.writeQueue = [] → t.connectQueue = none →
      t.written = [] → t.Ordered := by
    intro t hhanded hwrite hnone hwritten
    exact ⟨by simp [hhanded, hwrite, hnone, hwritten], fun _ => hwrite, by simp [hhanded]⟩
  cases host with
  | true => exact hclean _ rfl hqueue hconnect rfl
  | false =>
    cases error with
    | some message =>
      exact (hclean { s with
        connecting := true
        writable := true
        base := s.made
        connects := s.connects + 1
        written := []
        handed := [] }.makeHandle rfl hqueue hconnect rfl).keeps (Keeps.destroy _ _)
    | none => exact hclean _ rfl hqueue hconnect rfl

theorem connect_turned (allowHalfOpen secure host : Bool) (error : Option Str) :
    ((fresh allowHalfOpen secure).connect host error).Turned :=
  ⟨connect_single allowHalfOpen secure host error, given_connect host error,
    ordered_connect rfl rfl host error, awaits_connect _ host error⟩

theorem Turned.inOrder (hs : s.Turned) (halive : s.destroyed = false) : s.InOrder := by
  refine ⟨?_, hs.awaits, hs.single.phase.waits, fun hne => ?_⟩
  · rw [hs.given.started]
    exact hs.ordered.order (Or.inl halive)
  · have hpos := hs.single.tally.queue halive hne
    obtain ⟨h, -, hh⟩ := Finset.sum_pos_iff.mp hpos
    exact ⟨h, hh⟩

/-- The strings leave in the order in which they were written, when each is written in turn. -/
theorem client_writes_in_order (allowHalfOpen secure host : Bool) (error : Option Str)
    {es : List ConnectionEvent} (hes : ∀ e ∈ es, e.isConnect = false)
    (hturn : Guarded step InTurn ((fresh allowHalfOpen secure).connect host error) es) :
    ∀ t ∈ statesOf step ((fresh allowHalfOpen secure).connect host error) es,
      t.startedOn <+: t.written ∧ (t.destroyed = false → t.InOrder) := by
  intro t ht
  have hturned : t.Turned :=
    guarded_states_invariant (I := Turned) (fun s e hs hg => hs.step hg.2 hg.1)
      (connect_turned allowHalfOpen secure host error)
      (guarded_and hturn (guarded_of_forall hes _)) ht
  exact ⟨hturned.given.started ▸ hturned.ordered.sent, hturned.inOrder⟩

/-- A client of TLS that calls `setSecure` once it is connected. -/
def secureClient : List ConnectionEvent :=
  [.write ['a'], .write ['b'], .handleConnect 0 none, .setSecure, .returned none none,
    .handleHandshake 1, .returned none none, .returned none none, .write ['c'],
    .handleWrite 1 0 none, .handleWrite 1 0 none, .returned none none]

theorem secureClient_in_order :
    (run step ((fresh false true).connect false none) secureClient).startedOn <+:
        (run step ((fresh false true).connect false none) secureClient).written ∧
      ((run step ((fresh false true).connect false none) secureClient).destroyed = false →
        (run step ((fresh false true).connect false none) secureClient).InOrder) :=
  client_writes_in_order false true false none (by decide) (by decide) _ (run_mem_statesOf _ _ _)

example : (run step ((fresh false true).connect false none) secureClient).startedOn =
    [['a'], ['b'], ['c']] := by decide

/-- A string written between `setSecure` and 'secure' leaves before the one that was queued. -/
theorem write_before_secure_overtakes :
    let t := run step ((fresh false true).connect false none)
      [.write ['a'], .handleConnect 0 none, .setSecure, .write ['b'], .returned none none,
        .handleHandshake 1, .returned none none, .returned none none, .handleWrite 1 0 none]
    t.written = [['a'], ['b']] ∧ t.startedOn = [['b'], ['a']] := by
  decide

end LuaNode.Net.Connection
