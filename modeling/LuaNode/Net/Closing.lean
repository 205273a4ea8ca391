import LuaNode.Net.CloseOnce
import LuaNode.Net.Flags
import LuaNode.Net.WriteOrder

/-!
# Closing after the last string

`finish` asks for the end of a connection, and the socket is destroyed by whoever comes last: the
handler of the last write, that of the shutdown, or `onread` at the end of what the peer sends.
From the flags that they look at follows which of them still find strings in `_writeQueue`: only
`onread`, which looks at `writable` and not at the queue.
-/

namespace LuaNode.Net

/-- The user destroys the socket, or a write fails. -/
def ConnectionEvent.isAbrupt : ConnectionEvent → Bool
  | .destroy _ => true
  | .handleWrite _ _ (some _) => true
  | _ => false

namespace Connection

variable {s t u : Connection}

/-! ### No string is lost -/

/-- The strings given to a handle and those in the queues are those that `write` has taken. -/
structure Counted (s : Connection) : Prop where
  counts : s.destroyed = false ∨ s.connecting = true → ∀ data : Str,
    s.handed.count data + s.writeQueue.count data + (s.connectQueue.getD []).count data =
      s.written.count data

theorem Counted.congr (hs : s.Counted) (ht : t.strings = s.strings) : t.Counted := by
  simp only [strings, Prod.mk.injEq] at ht
  obtain ⟨hhanded, hqueue, hconnect, hwritten, hgone, hconnecting⟩ := ht
  constructor
  rw [hhanded, hqueue, hconnect, hwritten, hgone, hconnecting]
  exact hs.counts

theorem Counted.keeps (hs : s.Counted) (hk : Keeps s t) : t.Counted := by
  constructor
  rw [hk.handed, hk.writeQueue, hk.written]
  obtain ⟨hgone, hc, hq, -⟩ | ⟨-, hdied, hc, -⟩ := hk.cases
  · rw [hgone, hc, hq]
    exact hs.counts
  · simp [hdied, hc]

theorem Counted.write (hs : s.Counted) (hws : s.Wf) {data : Str} (ht : s.write data = some t) :
    t.Counted := by
  constructor
  intro _ d
  obtain ⟨hconnecting, rfl⟩ | ⟨-, h, hhandle, hcase⟩ := write_cases ht
  · have hcounts := hs.counts (Or.inr hconnecting) d
    simp only [Option.getD_some, List.count_append]
    omega
  · have hcounts := hs.counts (Or.inl (hws.alive hhandle)) d
    obtain ⟨-, rfl⟩ | ⟨-, rfl⟩ := hcase <;>
      simp only [give, Connection.onHandle, List.count_append] <;> omega

theorem Counted.advance (hs : s.Counted) (halive : s.destroyed = false) {g : ℕ}
    (hhandle : s.handle = some g) : s.advance.Counted := by
  constructor
  intro _ d
  have hcounts := hs.counts (Or.inl halive) d
  obtain ⟨-, heq⟩ | ⟨data, rest, hqueue, hcase⟩ := advance_cases hhandle
  · rw [heq]
    exact hcounts
  · rw [hqueue] at hcounts
    have hcons := List.count_cons (a := d) (b := data) (l := rest)
    obtain ⟨-, heq⟩ | ⟨-, heq⟩ := hcase <;> rw [heq] <;>
      simp only [Connection.give, Connection.onHandle, List.count_append, List.count_singleton] <;>
      omega

theorem Counted.drainConnectQueue
    (hs : s.destroyed = false → ∀ data : Str, s.handed.count data + s.writeQueue.count data +
      (s.connectQueue.getD []).count data = s.written.count data)
    (hws : s.Wf) (ht : s.drainConnectQueue = some t) : t.Counted := by
  constructor
  intro halive d
  obtain ⟨queue, hqueue, ⟨rfl, rfl⟩ | ⟨h, hhandle, hcase⟩⟩ := drainConnectQueue_cases ht
  · simpa [connectQueueCleanUp, hqueue] using hs (halive.resolve_right Bool.false_ne_true) d
  · have hcounts := hs (hws.alive hhandle) d
    rw [hqueue, Option.getD_some] at hcounts
    obtain ⟨-, rfl⟩ | ⟨data, rest, rfl, -, rfl⟩ := hcase
    · simp only [connectQueueCleanUp, List.count_append, Option.getD_none, List.count_nil]
      omega
    · have hcons := List.count_cons (a := d) (b := data) (l := rest)
      simp only [connectQueueCleanUp, give, Connection.onHandle, List.count_append,
        List.count_singleton, Option.getD_none, List.count_nil]
      omega

theorem Counted.begins (hs : s.Counted) (hsingle : s.Single) {e : ConnectionEvent}
    (hb : Begins s e t) : t.Counted := by
  have hnow : ({ s with waiting := none } : Connection).Counted := hs.congr rfl
  have hws := hsingle.wf
  cases hb with
  | nothing => exact hs
  | pause | rearm | finishNow | undrained | lookupFailed | secured | late => exact hs.congr rfl
  | destroy error => exact hs.keeps (Keeps.destroy s error)
  | write asked taken => exact hs.write hws taken
  | @completed h k data ended alive =>
    obtain ⟨g, hhandle⟩ := hws.handle_of_outstanding alive ended
    have hcomplete : (s.onHandle h fun x => { x with native := x.native.complete k data }).Counted :=
      hs.congr rfl
    exact (hcomplete.advance alive hhandle).congr rfl
  | @failed h k data message ended alive =>
    have hcomplete : (s.onHandle h fun x => { x with native := x.native.complete k data }).Counted :=
      hs.congr rfl
    exact hcomplete.keeps (Keeps.destroy _ _)
  | eof taken handle callback first writable idle =>
    exact hs.keeps ((Keeps.atEof s _ _).trans (Keeps.destroy _ none))
  | raised frame => exact hnow.keeps (Keeps.destroy _ _)
  | unfound frame => exact hnow.keeps (Keeps.destroy _ _)
  | drained frame drained =>
    exact Counted.drainConnectQueue (s := { s with waiting := none, drains := s.drains - 1 })
      (fun halive => hs.counts (Or.inl halive)) hws.undrain drained
  | @found i error pending connecting =>
    obtain rfl := hsingle.lookups i pending
    have hnone := (hsingle.phase.looking pending connecting).1
    have hmake : (({ s with lookups := s.lookups.erase s.connects } : Connection).makeHandle
        ).Counted := ⟨fun _ => hs.counts (Or.inr connecting)⟩
    dsimp only
    rw [if_pos (by simp [hnone])]
    cases error with
    | some message => exact hmake.keeps (Keeps.destroy _ _)
    | none => exact hmake.congr rfl
  | @connected h idle begun callback handle alive =>
    have hcounts := hs.counts (Or.inl alive)
    obtain ⟨-, heq⟩ | ⟨-, -, heq⟩ | ⟨-, -, heq⟩ :=
      connected_cases (s := { s.takeConnect h with connecting := false }) handle
    · rw [heq]
      exact ⟨fun _ => hcounts⟩
    · rw [heq]
      exact ⟨fun _ => hcounts⟩
    · exact Counted.drainConnectQueue
        (s := { s.takeConnect h with connecting := false, readable := true }) (fun _ => hcounts)
        ((hws.takeConnect begun).congr rfl) heq
  | @unconnected h message begun callback handle alive =>
    exact Counted.keeps (s := s.takeConnect h) (hs.congr rfl) (Keeps.destroy _ _)

theorem Opened.counted (hs : Opened s) : s.Counted := by
  cases hs with
  | connect allowHalfOpen secure host error =>
    constructor
    intro _ data
    cases host with
    | true => rfl
    | false => cases error <;> rfl
  | accept allowHalfOpen => exact ⟨fun _ _ => rfl⟩

theorem Opened.flagged (hs : Opened s) : s.Flagged := by
  cases hs with
  | connect allowHalfOpen secure host error =>
    exact (fresh_flagged allowHalfOpen secure).connect (fresh_wf _ _) rfl rfl host error
  | accept allowHalfOpen => exact accepted_flagged allowHalfOpen

/-- What holds of every state of a connection. -/
structure Sound (s : Connection) : Prop where
  single : s.Single
  told : s.Told
  flagged : s.Flagged
  counted : s.Counted

theorem Opened.sound (hs : Opened s) : s.Sound :=
  ⟨hs.single, hs.told, hs.flagged, hs.counted⟩

theorem Sound.quiet (hs : s.Sound) (hq : Quiet s t) : t.Sound :=
  ⟨hs.single.quiets (.single hq), hs.told.quiet hq, hs.flagged.quiet hs.single.wf hs.single.phase hq,
    hs.counted.keeps hq.keeps⟩

theorem Sound.begins (hs : s.Sound) {e : ConnectionEvent} (hb : Begins s e t) : t.Sound :=
  ⟨hs.single.begins hb, hs.told.begins hs.single hb,
    hs.flagged.begins hs.single.wf hs.single.phase (hs.single.own e) hb, hs.counted.begins hs.single hb⟩

theorem Sound.step (hs : s.Sound) {e : ConnectionEvent} (he : e.isConnect = false) :
    (s.step e).Sound := by
  obtain ⟨t, hbegins, hquiets⟩ := step_comes hs.single.wf he
  exact Quiets.invariant (I := Sound) Sound.quiet (hs.begins hbegins) hquiets

/-! ### A connection that is set up -/

/-- The socket is connected, and what was written before is out of `_connectQueue`. -/
def SetUp (s : Connection) : Prop :=
  s.connecting = false ∧ s.connectQueue = none ∧ s.handle.isSome = true

instance (s : Connection) : Decidable s.SetUp := inferInstanceAs (Decidable (_ ∧ _ ∧ _))

structure Established (s : Connection) : Prop where
  sound : s.Sound
  connected : s.connecting = false
  noQueue : s.connectQueue = none
  made : s.made ≠ 0
  counts : ∀ data : Str, s.handed.count data + s.writeQueue.count data = s.written.count data

theorem Sound.established (hs : s.Sound) (hset : s.SetUp) : s.Established := by
  obtain ⟨hconnecting, hqueue, hsome⟩ := hset
  obtain ⟨h, hhandle⟩ := Option.isSome_iff_exists.mp hsome
  have hlt := hs.single.wf.lt hhandle
  refine ⟨hs, hconnecting, hqueue, by omega, fun data => ?_⟩
  have hcounts := hs.counted.counts (Or.inl (hs.single.wf.alive hhandle)) data
  simpa [hqueue] using hcounts

/-- What `Established` is about, but for `made`. -/
def account (s : Connection) : Bool × Option (List Str) × List Str × List Str × List Str :=
  (s.connecting, s.connectQueue, s.handed, s.writeQueue, s.written)

theorem Established.congr (hs : s.Established) (hsound : t.Sound) (ht : t.account = s.account)
    (hmade : t.made ≠ 0) : t.Established := by
  simp only [account, Prod.mk.injEq] at ht
  obtain ⟨hconnecting, hconnect, hhanded, hqueue, hwritten⟩ := ht
  refine ⟨hsound, hconnecting.trans hs.connected, hconnect.trans hs.noQueue, hmade, ?_⟩
  rw [hhanded, hqueue, hwritten]
  exact hs.counts

theorem Established.keeps (hs : s.Established) (hu : u.account = s.account) (hmade : u.made = s.made)
    (hk : Keeps u t) (hsound : t.Sound) : t.Established := by
  simp only [account, Prod.mk.injEq] at hu
  obtain ⟨hconnecting, hconnect, hhanded, hqueue, hwritten⟩ := hu
  have hended : t.connecting = false ∧ t.connectQueue = none := by
    obtain ⟨-, hc, hq, -⟩ | ⟨-, -, hc, hq, -⟩ := hk.cases
    · exact ⟨hc.trans (hconnecting.trans hs.connected), hq.trans (hconnect.trans hs.noQueue)⟩
    · exact ⟨hc, hq⟩
  refine ⟨hsound, hended.1, hended.2, ?_, ?_⟩
  · rw [hk.made, hmade]
    exact hs.made
  · rw [hk.handed, hk.writeQueue, hk.written, hhanded, hqueue, hwritten]
    exact hs.counts

theorem Established.quiet (hs : s.Established) (hq : Quiet s t) : t.Established :=
  hs.keeps rfl rfl hq.keeps (hs.sound.quiet hq)

/-- The callback of the connection has been called. -/
theorem Established.not_dialing (hs : s.Established) {h : ℕ} (handle : s.handle = some h) :
    (s.handles h).hasConnectCallback = false :=
  hs.sound.single.phase.not_dialing hs.sound.single.wf hs.connected handle

theorem Established.no_lookup (hs : s.Established) : s.waiting ≠ some .lookup := fun hwaiting =>
  hs.made (hs.sound.told.unmade (hs.sound.told.frame hwaiting)).1

theorem Established.write (hs : s.Established) {data : Str} (ht : s.write data = some t)
    (hsound : t.Sound) : t.Established := by
  obtain ⟨hconnecting, -⟩ | ⟨-, h, -, hcase⟩ := write_cases ht
  · exact absurd (hs.connected.symm.trans hconnecting) nofun
  · obtain ⟨-, rfl⟩ | ⟨-, rfl⟩ := hcase <;>
      refine ⟨hsound, hs.connected, hs.noQueue, hs.made, fun d => ?_⟩ <;>
      have hcounts := hs.counts d <;>
      simp only [give, Connection.onHandle, List.count_append] <;> omega

/-- The loop of `afterWrite` takes its string from the queue. -/
theorem Established.advance (hs : s.Established) {h k : ℕ} {data : Str}
    (ended : (s.handles h).native.outstanding[k]? = some data) (alive : s.destroyed = false)
    (hu : u = (s.onHandle h fun x => { x with native := x.native.complete k data }).advance)
    (ht : t = { u with pendingWriteReqs := u.pendingWriteReqs - 1 }) (hsound : t.Sound) :
    t.Established := by
  obtain ⟨g, hhandle⟩ := hs.sound.single.wf.handle_of_outstanding alive ended
  obtain ⟨-, heq⟩ | ⟨first, rest, hqueue, ⟨-, heq⟩ | ⟨-, heq⟩⟩ := advance_cases (s := s.onHandle h
    fun x => { x with native := x.native.complete k data }) hhandle <;>
    rw [heq] at hu <;> subst hu <;> subst ht
  · exact hs.congr hsound rfl hs.made
  all_goals
    refine ⟨hsound, hs.connected, hs.noQueue, hs.made, fun d => ?_⟩
    have hcounts := hs.counts d
    have hcons := List.count_cons (a := d) (b := first) (l := rest)
    rw [show s.writeQueue = first :: rest from hqueue] at hcounts
    simp only [give, Connection.onHandle, List.count_append, List.count_singleton]
    omega

theorem Established.begins (hs : s.Established) {e : ConnectionEvent} (hb : Begins s e t) :
    t.Established := by
  have hsound := hs.sound.begins hb
  cases hb with
  | nothing => exact hs
  | pause | late | rearm | finishNow | undrained => exact hs.congr hsound rfl hs.made
  | destroy error => exact hs.keeps rfl rfl (Keeps.destroy s error) hsound
  | write asked taken => exact hs.write taken hsound
  | secured handle plain => exact hs.congr hsound rfl (Nat.succ_ne_zero _)
  | completed ended alive => exact hs.advance ended alive rfl rfl hsound
  | @failed h k data message ended alive =>
    exact hs.keeps (u := s.onHandle h fun x => { x with native := x.native.complete k data }) rfl rfl
      (Keeps.destroy _ _) hsound
  | @eof h k n taken handle callback first writable idle =>
    exact hs.keeps (u := s.atEof h k) rfl rfl (Keeps.destroy _ none) hsound
  | raised frame => exact hs.keeps (u := { s with waiting := none }) rfl rfl (Keeps.destroy _ _) hsound
  | unfound frame => exact absurd frame hs.no_lookup
  | drained frame drained =>
    obtain ⟨queue, hqueue, -⟩ := drainConnectQueue_cases drained
    exact absurd (hs.noQueue.symm.trans hqueue) nofun
  | lookupFailed pending connecting => exact absurd (hs.connected.symm.trans connecting) nofun
  | found pending connecting => exact absurd (hs.connected.symm.trans connecting) nofun
  | connected idle begun callback handle alive =>
    exact absurd ((hs.not_dialing handle).symm.trans callback) nofun
  | unconnected begun callback handle alive =>
    exact absurd ((hs.not_dialing handle).symm.trans callback) nofun

/-! ### Who destroys the socket -/

/-- Nothing waits in `_writeQueue` when the socket is destroyed. -/
def Flushed (s : Connection) : Prop := s.destroyed = true → s.writeQueue = []

/-- Without a write under way there is no queue. -/
theorem Tally.noQueue (hs : s.Tally) (halive : s.destroyed = false)
    (hidle : s.pendingWriteReqs = 0) : s.writeQueue = [] := by
  have hreqs := hs.reqs halive
  by_contra hne
  have hpos := hs.queue halive hne
  omega

/-- The system shuts a plain handle down when no write is under way on it, and the writes of a plain
handle are all there are. -/
theorem Sound.noQueue_of_shutdown (hs : s.Sound) {h : ℕ} {error : Option Str} {message : Str}
    (handle : s.handle = some h) (failed : ((s.handles h).shutdown error).1 = some message) :
    s.writeQueue = [] := by
  have hws := hs.single.wf
  have hlast := hws.last h handle
  have hlt := hws.lt handle
  have hnative : (s.handles h).secure = false ∧ (s.handles h).native.pendingWrites = 0 := by
    unfold Handle.shutdown Native.shutdown at failed
    split_ifs at failed with hsecure hpending
    exact ⟨by simpa using hsecure, by omega⟩
  have hzero : h = 0 :=
    (hs.flagged.plain h (hs.single.phase.current h handle) hlt hnative.1).trans hs.single.base
  have hpending : s.pendingOn = 0 := by
    unfold pendingOn
    subst hzero
    rw [hs.single.base, ← hlast, Nat.Ico_succ_singleton, Finset.sum_singleton]
    exact hnative.2
  by_contra hne
  have hpos := hs.single.tally.queue (hws.alive handle) hne
  omega

/-- What has been destroyed before stays as it is, and who destroys it now has looked. -/
theorem Flushed.quiet (hs : s.Flushed) (hsound : s.Sound) (hq : Quiet s t) : t.Flushed := by
  intro hgone
  rw [hq.keeps.writeQueue]
  rcases Bool.eq_false_or_eq_true s.destroyed with hwas | halive
  · exact hs hwas
  cases hq with
  | shutdownFailed handle flag failed => exact hsound.noQueue_of_shutdown handle failed
  | destroyIdle idle => exact hsound.single.tally.noQueue halive idle
  | destroyShut flag ended =>
    obtain ⟨hreadable, heof, -⟩ := hsound.flagged.shut halive flag
    rcases ended with hended | hended
    · exact absurd (heof.symm.trans hended) nofun
    · exact absurd (hreadable.symm.trans hended) nofun
  | _ => exact absurd (halive.symm.trans hgone) nofun

/-- A listener of 'connect' runs. -/
def connectFrame (s : Connection) : Bool :=
  match s.waiting with
  | some (.connect _) => true
  | _ => false

/-- The end of what the peer sends, and an error that a listener of 'connect' raises, find the queue
empty if they are to destroy the socket. -/
def Patient (s : Connection) : ConnectionEvent → Prop
  | .handleRead h k false =>
    s.waiting = none → s.handle = some h → (s.handles h).hasReadCallback = true →
      k < (s.handles h).reads.length → s.flags.gotEof = false → s.writable = false →
      s.writeQueue = []
  | .returned (some _) _ => s.connectFrame = true → s.destroyed = false → s.writeQueue = []
  | _ => True

instance (s : Connection) (e : ConnectionEvent) : Decidable (s.Patient e) := by
  unfold Patient
  split <;> infer_instance

theorem Flushed.begins (hs : s.Flushed) (hest : s.Established) {e : ConnectionEvent}
    (habrupt : e.isAbrupt = false) (hpatient : s.Patient e) (hb : Begins s e t) : t.Flushed := by
  have hgone : s.destroyed = true → s.handle = none := hest.sound.single.wf.gone
  cases hb with
  | nothing | pause | late | rearm | finishNow | undrained | secured => exact hs
  | destroy error => exact absurd habrupt nofun
  | write asked taken =>
    obtain ⟨hconnecting, -⟩ | ⟨-, h, hhandle, hcase⟩ := write_cases taken
    · exact absurd (hest.connected.symm.trans hconnecting) nofun
    · have halive := hest.sound.single.wf.alive hhandle
      obtain ⟨-, rfl⟩ | ⟨-, rfl⟩ := hcase <;> exact fun hd => absurd (halive.symm.trans hd) nofun
  | @completed h k data ended alive =>
    obtain ⟨g, hhandle⟩ := hest.sound.single.wf.handle_of_outstanding alive ended
    obtain ⟨-, heq⟩ | ⟨first, rest, -, ⟨-, heq⟩ | ⟨-, heq⟩⟩ := advance_cases (s := s.onHandle h
        fun x => { x with native := x.native.complete k data }) hhandle <;>
      dsimp only <;> rw [heq] <;> exact fun hd => absurd (alive.symm.trans hd) nofun
  | failed ended alive => exact absurd habrupt nofun
  | @eof h k n taken handle callback first writable idle =>
    intro _
    have hk : k < (s.handles h).reads.length := (List.getElem?_eq_some_iff.mp taken).1
    exact (Keeps.destroy (s.atEof h k) none).writeQueue.trans
      (hpatient idle handle callback hk first writable)
  | @raised h message error frame =>
    intro _
    refine (Keeps.destroy ({ s with waiting := none } : Connection) (some message)).writeQueue.trans ?_
    rcases Bool.eq_false_or_eq_true s.destroyed with hwas | halive
    · exact hs hwas
    · exact hpatient (by simp [connectFrame, frame]) halive
  | unfound frame => exact absurd frame hest.no_lookup
  | drained frame drained =>
    obtain ⟨queue, hqueue, -⟩ := drainConnectQueue_cases drained
    exact absurd (hest.noQueue.symm.trans hqueue) nofun
  | lookupFailed pending connecting => exact absurd (hest.connected.symm.trans connecting) nofun
  | found pending connecting => exact absurd (hest.connected.symm.trans connecting) nofun
  | connected idle begun callback handle alive =>
    exact absurd ((hest.not_dialing handle).symm.trans callback) nofun
  | unconnected begun callback handle alive =>
    exact absurd ((hest.not_dialing handle).symm.trans callback) nofun

/-- `onread` at the end destroys a socket that is not writable, whatever waits in the queue. -/
theorem handleRead_eof {h k : ℕ} (hhandle : s.handle = some h)
    (hlistens : (s.handles h).hasReadCallback = true) (hk : k < (s.handles h).reads.length)
    (hfirst : s.flags.gotEof = false) (hwritable : s.writable = false) :
    (s.handleRead h k false).destroyed = true ∧
      (s.handleRead h k false).writeQueue = s.writeQueue := by
  rw [handleRead_of_current (List.getElem?_eq_getElem hk) hhandle hlistens]
  have hkeeps := (quiets_onEnd_of_shut hfirst hwritable h k).keeps
  exact ⟨hkeeps.gone (destroy_destroyed _ _),
    hkeeps.writeQueue.trans (Keeps.destroy (s.atEof h k) none).writeQueue⟩

/-- An error raised by a listener of 'connect' destroys the socket. -/
theorem returned_raised {message : Str} {error : Option Str} (hframe : s.connectFrame = true) :
    (s.returned (some message) error).destroyed = true ∧
      (s.returned (some message) error).writeQueue = s.writeQueue := by
  unfold connectFrame at hframe
  split at hframe
  · next h hwaiting =>
    have hraised : s.returned (some message) error =
        ({ s with waiting := none } : Connection).destroy (some message) := by
      unfold returned
      rw [hwaiting]
      rfl
    rw [hraised]
    exact ⟨destroy_destroyed _ _, (Keeps.destroy _ _).writeQueue⟩
  · cases hframe

/-- A step that is not patient destroys the socket while strings wait. -/
theorem patient_of_flushed {e : ConnectionEvent} (hstep : (s.step e).Flushed) : s.Patient e := by
  unfold Patient
  split
  · next h k =>
    intro hidle hhandle hlistens hk hfirst hwritable
    obtain ⟨hgone, hqueue⟩ := handleRead_eof hhandle hlistens hk hfirst hwritable
    have hsame : s.step (.handleRead h k false) = s.handleRead h k false := by
      unfold Connection.step
      rw [if_neg (by simp [hidle])]
      rfl
    rw [hsame] at hstep
    exact hqueue.symm.trans (hstep hgone)
  · next message error =>
    intro hframe _
    obtain ⟨hgone, hqueue⟩ := returned_raised hframe
    rw [step_returned] at hstep
    exact hqueue.symm.trans (hstep hgone)
  · trivial

theorem Flushed.step (hs : s.Flushed) (hest : s.Established) {e : ConnectionEvent}
    (he : e.isConnect = false) (habrupt : e.isAbrupt = false) (hpatient : s.Patient e) :
    (s.step e).Flushed := by
  obtain ⟨t, hbegins, hquiets⟩ := step_comes hest.sound.single.wf he
  have hall : (s.step e).Flushed ∧ (s.step e).Sound :=
    Quiets.invariant (I := fun u => u.Flushed ∧ u.Sound)
      (fun hu hmove => ⟨hu.1.quiet hu.2 hmove, hu.2.quiet hmove⟩)
      ⟨hs.begins hest habrupt hpatient hbegins, hest.sound.begins hbegins⟩ hquiets
  exact hall.1

theorem Established.step (hs : s.Established) {e : ConnectionEvent} (he : e.isConnect = false) :
    (s.step e).Established := by
  obtain ⟨t, hbegins, hquiets⟩ := step_comes hs.sound.single.wf he
  exact Quiets.invariant (I := Established) Established.quiet (hs.begins hbegins) hquiets

/-! ### Delivery -/

/-- When the socket is destroyed, all that `write` and `finish` took has been given to a handle. -/
def Delivered (s : Connection) : Prop :=
  s.destroyed = true → s.writeQueue = [] ∧ s.handed.Perm s.written

theorem Established.delivered_iff (hs : s.Established) : s.Delivered ↔ s.Flushed := by
  constructor
  · exact fun hdelivered hgone => (hdelivered hgone).1
  · intro hflushed hgone
    have hqueue := hflushed hgone
    refine ⟨hqueue, List.perm_iff_count.mpr fun data => ?_⟩
    have hcounts := hs.counts data
    rw [hqueue, List.count_nil] at hcounts
    omega

/-- From a connection that is set up on, everything written is delivered before the handle is
closed, exactly as long as every step is patient. -/
theorem finish_delivers_iff {s₀ : Connection} (hs : Opened s₀) {before es : List ConnectionEvent}
    (hbefore : ∀ e ∈ before, e.isConnect = false) (hset : (run step s₀ before).SetUp)
    (hes : ∀ e ∈ es, e.isConnect = false ∧ e.isAbrupt = false) :
    (∀ t ∈ statesOf step (run step s₀ before) es, t.Delivered) ↔
      Guarded step Patient (run step s₀ before) es := by
  have hsound : (run step s₀ before).Sound :=
    guarded_invariant (I := Sound) (fun s e hs he => hs.step he) hs.sound
      (guarded_of_forall hbefore s₀)
  have hest := hsound.established hset
  obtain ⟨h, hhandle⟩ := Option.isSome_iff_exists.mp hset.2.2
  have halive := hsound.single.wf.alive hhandle
  have hstart : (run step s₀ before).Delivered := by
    intro hgone
    exact absurd (halive.symm.trans hgone) nofun
  refine states_iff_guarded_of (I := Established) (fun s e he hs => hs.step he.1) ?_ hest hstart hes
  intro s e he hs hdelivered
  have hflushed := hs.delivered_iff.mp hdelivered
  rw [(hs.step he.1).delivered_iff]
  exact ⟨patient_of_flushed, hflushed.step hs he.1 he.2⟩

/-- Two strings, the end, and then the end of what the peer sends. -/
def finished : List ConnectionEvent :=
  [.write ['a'], .finish (some ['b']) none, .handleWrite 0 0 none, .handleWrite 0 0 none,
    .handleRead 0 0 false]

theorem finished_delivers :
    (∀ t ∈ statesOf step (run step ((fresh false false).connect false none)
        [.handleConnect 0 none, .returned none none]) finished, t.Delivered) ↔
      Guarded step Patient (run step ((fresh false false).connect false none)
        [.handleConnect 0 none, .returned none none]) finished :=
  finish_delivers_iff (.connect false false false none) (by decide) (by decide) (by decide)

example : Guarded step Patient (run step ((fresh false false).connect false none)
    [.handleConnect 0 none, .returned none none]) finished := by decide

/-- The peer ends its side while the second string waits for the first. -/
theorem finish_drops_queue :
    let t := run step ((fresh false false).connect false none)
      [.handleConnect 0 none, .returned none none, .write ['a'], .finish (some ['b']) none,
        .handleRead 0 0 false]
    t.destroyed = true ∧ t.written = [['a'], ['b']] ∧ t.handed = [['a']] ∧
      t.writeQueue = [['b']] := by
  decide

end Connection

end LuaNode.Net
