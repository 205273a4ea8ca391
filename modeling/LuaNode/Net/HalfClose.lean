import LuaNode.Net.NativeSocket

/-!
# Shutting down the send side

`Shutdown` of a plain socket posts its callback whether or not it has shut the socket down; when it
has put the shutdown off, the callback comes too early, and once more after the shutdown. That of a
`SecureSocket` leaves it to the completion of a write, also when no write is pending.
-/

namespace LuaNode.Net

/-- `Shutdown` or `Close` is called. -/
def NativeEvent.isEnd : NativeEvent → Bool
  | .shutdown .. => true
  | .close => true
  | _ => false

/-- The argument asks for the send side. -/
def ShutdownOption.hasSend : ShutdownOption → Bool
  | .write => true
  | .both => true
  | .absent => true
  | _ => false

namespace NativeSocket

variable {s : NativeSocket}

/-! ### The callback of a shutdown -/

/-- `shutdown_callback` has been called at most once, after the send side was shut down; and once, when
nothing is left that could call it. -/
def Notified (s : NativeSocket) : Prop :=
  s.called ≤ 1 ∧ (0 < s.called → s.sendShut = true) ∧
    (s.posted = 0 → s.pendingWrites = 0 → s.handler = none → s.called = 1)

/-- The send side is shut down when no write is pending. -/
def ShutsIdle (s : NativeSocket) (e : NativeEvent) : Prop :=
  s.sendShut = false → (s.step e).sendShut = true → (s.step e).pendingWrites = 0

theorem closeIfPending_shut (s : NativeSocket) :
    s.closeIfPending.pendingWrites = s.pendingWrites ∧
    (s.closeIfPending.sendShut = true → s.sendShut = true ∨ s.pendingWrites = 0) := by
  unfold NativeSocket.closeIfPending NativeSocket.closeNow
  cases hk : s.kind <;> dsimp only <;> split_ifs with hnow <;>
    simp_all

theorem kind_cases (s : NativeSocket) : s.kind = .plain ∨ s.kind = .secure := by
  cases s.kind
  · exact Or.inl rfl
  · exact Or.inr rfl

theorem written_shut (s : NativeSocket) :
    s.written.pendingWrites = s.pendingWrites ∧
    (s.written.sendShut = true → s.sendShut = true ∨ s.pendingWrites = 0) := by
  unfold written
  rcases s.kind_cases with hk | hk <;> simp only [hk]
  · split_ifs with hnow
    · exact ⟨rfl, fun _ => Or.inr hnow.2⟩
    · exact s.closeIfPending_shut
  · split_ifs with hnow
    · exact ⟨(closeIfPending_shut _).1, fun _ => Or.inr hnow.1⟩
    · have hreceive := closeIfPending_shut { s with receiveShut := true }
      rw [hk] at hreceive
      exact hreceive
    · exact s.closeIfPending_shut

theorem shutdownSendSide_shut (s : NativeSocket) (fails : Bool) :
    (s.shutdownSendSide fails).1.pendingWrites = s.pendingWrites ∧
    ((s.shutdownSendSide fails).1.sendShut = true → s.sendShut = true ∨ s.pendingWrites = 0) := by
  unfold shutdownSendSide
  split_ifs with hpending
  · exact ⟨rfl, Or.inl⟩
  · exact ⟨rfl, fun _ => Or.inr (by omega)⟩

theorem shutdownSides_shut (s : NativeSocket) (option : ShutdownOption)
    (sendFails receiveFails : Bool) :
    (s.shutdownSides option sendFails receiveFails).1.pendingWrites = s.pendingWrites ∧
    ((s.shutdownSides option sendFails receiveFails).1.sendShut = true →
      s.sendShut = true ∨ s.pendingWrites = 0) := by
  cases option with
  | read => exact ⟨rfl, Or.inl⟩
  | noOption => exact ⟨rfl, Or.inl⟩
  | write => exact s.shutdownSendSide_shut sendFails
  | both => exact s.shutdownSendSide_shut sendFails
  | absent => exact s.shutdownSendSide_shut sendFails

theorem shutdown_shut (s : NativeSocket) (option : ShutdownOption) (sendFails receiveFails : Bool) :
    (s.shutdown option sendFails receiveFails).1.pendingWrites = s.pendingWrites ∧
    ((s.shutdown option sendFails receiveFails).1.sendShut = true →
      s.sendShut = true ∨ s.pendingWrites = 0) := by
  unfold shutdown
  rcases s.kind_cases with hk | hk <;> simp only [hk]
  · split_ifs <;> exact s.shutdownSides_shut option sendFails receiveFails
  · cases option <;> exact ⟨rfl, Or.inl⟩

theorem userStep_shut (s : NativeSocket) (e : NativeEvent) :
    (s.userStep e).sendShut = true → s.sendShut = true ∨ (s.userStep e).pendingWrites = 0 := by
  cases e with
  | read => exact Or.inl
  | write =>
    simp only [userStep, write]
    split_ifs <;> exact Or.inl
  | shutdown option sendFails receiveFails =>
    obtain ⟨hwrites, hshut⟩ := s.shutdown_shut option sendFails receiveFails
    simp only [userStep, hwrites]
    exact hshut
  | close =>
    simp only [userStep, close]
    split_ifs with hpending
    · exact Or.inl
    · intro _
      right
      unfold closeNow
      rcases s.kind_cases with hk | hk <;> simp only [hk] <;> omega
  | returned =>
    simp only [userStep, returned]
    split
    · exact Or.inl
    · split
      · obtain ⟨hwrites, hshut⟩ := written_shut { s with handler := none }
        rw [hwrites]
        exact hshut
      · obtain ⟨hwrites, hshut⟩ := closeIfPending_shut { s with handler := none }
        rw [hwrites]
        exact hshut
      · obtain ⟨hwrites, hshut⟩ := closeIfPending_shut { s with handler := none }
        rw [hwrites]
        exact hshut
      · exact Or.inl
  | readDone | writeDone | posted => exact Or.inl

theorem shuts_idle (s : NativeSocket) (e : NativeEvent) : s.ShutsIdle e := by
  intro hopen
  have huser : (s.userStep e).sendShut = true → (s.userStep e).pendingWrites = 0 := by
    intro hshut
    rcases s.userStep_shut e hshut with hs | hwrites
    · exact absurd (hopen.symm.trans hs) nofun
    · exact hwrites
  unfold step
  split_ifs
  · exact huser
  · have hnot : ∀ t : NativeSocket, t.sendShut = s.sendShut → t.sendShut = true →
        t.pendingWrites = 0 :=
      fun t hsame hshut => absurd (hopen.symm.trans (hsame.symm.trans hshut)) nofun
    cases e with
    | readDone kind ok =>
      apply hnot
      simp only [loopStep, readDone]
      split_ifs <;> rfl
    | writeDone =>
      apply hnot
      simp only [loopStep, writeDone]
      split_ifs <;> rfl
    | posted =>
      apply hnot
      simp only [loopStep, handleShutdown]
      split_ifs <;> rfl
    | read | write | shutdown | close | returned => exact huser

/-! ### A plain socket that is shut down once -/

/-- Nothing is put off but, at most, a shutdown that waits for a write. -/
structure Waiting (s : NativeSocket) : Prop where
  plain : s.kind = .plain
  shutdown : s.shutdownPending = true → s.pendingWrites ≠ 0
  close : s.closePending = false

/-- Nothing is put off. -/
structure Quiet (s : NativeSocket) : Prop where
  plain : s.kind = .plain
  shutdown : s.shutdownPending = false
  close : s.closePending = false

theorem Quiet.waiting (h : s.Quiet) : s.Waiting :=
  ⟨h.plain, fun hpending => absurd (h.shutdown.symm.trans hpending) nofun, h.close⟩

theorem Waiting.closeIfPending (h : s.Waiting) : s.closeIfPending = s := by
  unfold NativeSocket.closeIfPending
  rw [h.plain]
  exact if_neg (by simp [h.close])

theorem Waiting.written (h : s.Waiting) : s.written = s := by
  unfold NativeSocket.written
  rw [h.plain]
  exact (if_neg fun hnow => h.shutdown hnow.1 hnow.2).trans h.closeIfPending

/-- A callback that returns changes nothing else. -/
theorem Waiting.returned (h : s.Waiting) : s.returned = { s with handler := none } := by
  have hidle : ({ s with handler := none } : NativeSocket).Waiting :=
    ⟨h.plain, h.shutdown, h.close⟩
  unfold NativeSocket.returned
  split
  · rename_i hnone
    rw [← hnone]
  · rename_i handler _
    cases handler with
    | write => exact hidle.written
    | delayed => exact hidle.closeIfPending
    | read => exact hidle.closeIfPending
    | shutdown => rfl

/-- What a step of a socket does that is neither shut down nor closed meanwhile. -/
structure Calm (s t : NativeSocket) : Prop where
  quiet : t.Quiet
  sendShut : t.sendShut = s.sendShut
  calls : t.posted + t.called = s.posted + s.called

theorem Quiet.calm (h : s.Quiet) : Calm s s :=
  ⟨h, rfl, rfl⟩

theorem Quiet.userStep (h : s.Quiet) {e : NativeEvent} (he : e.isEnd = false) :
    Calm s (s.userStep e) := by
  cases e with
  | read => exact ⟨⟨h.plain, h.shutdown, h.close⟩, rfl, rfl⟩
  | write =>
    simp only [NativeSocket.userStep, write]
    split_ifs
    · exact h.calm
    · exact ⟨⟨h.plain, h.shutdown, h.close⟩, rfl, rfl⟩
  | shutdown | close => exact absurd he nofun
  | returned =>
    simp only [NativeSocket.userStep, h.waiting.returned]
    exact ⟨⟨h.plain, h.shutdown, h.close⟩, rfl, rfl⟩
  | readDone | writeDone | posted => exact h.calm

theorem Quiet.step (h : s.Quiet) {e : NativeEvent} (he : e.isEnd = false) : Calm s (s.step e) := by
  unfold NativeSocket.step
  split_ifs
  · exact h.userStep he
  · cases e with
    | readDone kind ok =>
      simp only [loopStep, readDone]
      split_ifs
      · exact ⟨⟨h.plain, h.shutdown, h.close⟩, rfl, rfl⟩
      · exact ⟨⟨h.plain, h.shutdown, h.close⟩, rfl, rfl⟩
      · exact h.calm
    | writeDone =>
      simp only [loopStep, writeDone]
      split_ifs
      · exact h.calm
      · exact ⟨⟨h.plain, h.shutdown, h.close⟩, rfl, rfl⟩
    | posted =>
      simp only [loopStep, handleShutdown]
      split_ifs with hnone
      · exact h.calm
      · refine ⟨⟨h.plain, h.shutdown, h.close⟩, rfl, ?_⟩
        change s.posted - 1 + (s.called + 1) = s.posted + s.called
        omega
    | read | write | shutdown | close | returned => exact h.userStep he

/-- The send side is not shut down, and no callback is due. -/
structure Before (s : NativeSocket) : Prop extends Quiet s where
  sendShut : s.sendShut = false
  calls : s.posted + s.called = 0

/-- The send side has been shut down, and one callback is posted or has been called. -/
structure After (s : NativeSocket) : Prop extends Quiet s where
  sendShut : s.sendShut = true
  calls : s.posted + s.called = 1

theorem fresh_before : (fresh .plain).Before :=
  ⟨⟨rfl, rfl, rfl⟩, rfl, rfl⟩

theorem Before.step (h : s.Before) {e : NativeEvent} (he : e.isEnd = false) : (s.step e).Before :=
  have hcalm := h.toQuiet.step he
  ⟨hcalm.quiet, hcalm.sendShut.trans h.sendShut, hcalm.calls.trans h.calls⟩

theorem After.step (h : s.After) {e : NativeEvent} (he : e.isEnd = false) : (s.step e).After :=
  have hcalm := h.toQuiet.step he
  ⟨hcalm.quiet, hcalm.sendShut.trans h.sendShut, hcalm.calls.trans h.calls⟩

theorem After.notified (h : s.After) : s.Notified := by
  have hcalls := h.calls
  refine ⟨by omega, fun _ => h.sendShut, fun hposted _ _ => ?_⟩
  omega

/-- In a run without another shutdown the callback is called once, and not too early. -/
theorem After.run (h : s.After) {es : List NativeEvent} (hes : ∀ e ∈ es, e.isEnd = false) :
    ∀ t ∈ statesOf NativeSocket.step s es, t.Notified := by
  intro t ht
  apply After.notified
  exact guarded_states_invariant (G := fun _ e => e.isEnd = false) (fun _ _ h he => h.step he) h
    (guarded_of_forall hes s) ht

theorem Before.run {es : List NativeEvent} (hes : ∀ e ∈ es, e.isEnd = false) :
    (LuaNode.run NativeSocket.step (fresh .plain) es).Before :=
  guarded_invariant (G := fun _ e => e.isEnd = false) (fun _ _ h he => h.step he) fresh_before
    (guarded_of_forall hes _)

/-- A successful call, as a step. -/
theorem step_shutdown (s : NativeSocket) (option : ShutdownOption) (sendFails receiveFails : Bool) :
    s.step (.shutdown option sendFails receiveFails) =
      (s.shutdown option sendFails receiveFails).1 := by
  unfold step
  split_ifs <;> rfl

theorem Before.apart (h : s.Before) : s.posted = 0 ∧ s.called = 0 := by
  have hcalls := h.calls
  omega

/-- The send side is shut down right away. -/
theorem Before.ends (h : s.Before) {option : ShutdownOption} (hoption : option.hasSend = true)
    {receiveFails : Bool} (hwrites : s.pendingWrites = 0)
    (hok : (s.shutdown option false receiveFails).2 = true) :
    (s.shutdown option false receiveFails).1.After := by
  have hnone : ¬s.pendingWrites > 0 := by omega
  obtain ⟨hposted, hcalled⟩ := h.apart
  revert hok
  unfold NativeSocket.shutdown
  rw [h.plain]
  cases option with
  | read | noOption => exact absurd hoption nofun
  | write =>
    simp only [shutdownSides, shutdownSendSide, if_neg hnone]
    intro _
    refine ⟨⟨h.plain, h.toQuiet.shutdown, h.close⟩, ?_, ?_⟩
    · simp
    · simp [hposted, hcalled]
  | both | absent =>
    simp only [shutdownSides, shutdownSendSide, shutdownReceiveSide, if_neg hnone]
    split_ifs
    · exact fun hok => absurd hok nofun
    · intro _
      refine ⟨⟨h.plain, h.toQuiet.shutdown, h.close⟩, ?_, ?_⟩
      · simp
      · simp [hposted, hcalled]

/-- The callback is posted, and the send side is not shut down. -/
structure Early (s : NativeSocket) : Prop extends Waiting s where
  sendShut : s.sendShut = false
  posted : s.posted = 1
  called : s.called = 0

theorem Before.early (h : s.Before) {option : ShutdownOption} (hoption : option.hasSend = true)
    {sendFails receiveFails : Bool} (hnot : ¬(s.pendingWrites = 0 ∧ sendFails = false))
    (hok : (s.shutdown option sendFails receiveFails).2 = true) :
    (s.shutdown option sendFails receiveFails).1.Early := by
  obtain ⟨hposted, hcalled⟩ := h.apart
  have hpost : s.posted + 1 = 1 := by omega
  revert hok
  unfold NativeSocket.shutdown
  rw [h.plain]
  by_cases hwrites : s.pendingWrites > 0
  · have hwait : s.pendingWrites ≠ 0 := by omega
    cases option with
    | read | noOption => exact absurd hoption nofun
    | write =>
      simp only [shutdownSides, shutdownSendSide, if_pos hwrites]
      exact fun _ => ⟨⟨h.plain, fun _ => hwait, h.close⟩, h.sendShut, hpost, hcalled⟩
    | both | absent =>
      simp only [shutdownSides, shutdownSendSide, shutdownReceiveSide, if_pos hwrites]
      split_ifs
      · exact fun hok => absurd hok nofun
      · exact fun _ => ⟨⟨h.plain, fun _ => hwait, h.close⟩, h.sendShut, hpost, hcalled⟩
  · have hfails : sendFails = true := by
      rw [← Bool.not_eq_false]
      exact fun hsend => hnot ⟨by omega, hsend⟩
    subst hfails
    cases option with
    | read | noOption => exact absurd hoption nofun
    | write =>
      simp only [shutdownSides, shutdownSendSide, if_neg hwrites]
      exact fun hok => absurd hok nofun
    | both | absent =>
      simp only [shutdownSides, shutdownSendSide, shutdownReceiveSide, if_neg hwrites]
      split_ifs
      · exact fun hok => absurd hok nofun
      · intro _
        refine ⟨⟨h.plain, h.waiting.shutdown, h.close⟩, ?_, hpost, hcalled⟩
        simp [h.sendShut]

/-- The posted callback runs before the send side is shut down. -/
theorem Early.not_notified (h : s.Early) :
    ¬ ∀ t ∈ statesOf step s [.returned, .posted], t.Notified := by
  intro hall
  have hreturned : s.step .returned = { s with handler := none } := by
    rw [← h.toWaiting.returned]
    unfold step
    split_ifs <;> rfl
  have hcalled : (s.step .returned).step .posted =
      { s with handler := some .shutdown, posted := 0, called := 1 } := by
    rw [hreturned]
    simp [step, loopStep, handleShutdown, h.posted, h.called]
  have hlast := hall ((s.step .returned).step .posted) (by simp [statesOf])
  rw [hcalled] at hlast
  have hshut := hlast.2.1 Nat.one_pos
  exact absurd (h.sendShut.symm.trans hshut) (by simp)

/-- Of a plain socket that is shut down once, after reads and writes: the callback of the shutdown is
called once, and after the send side was shut down, in every continuation if and only if no write
is pending at the call and the system does shut down the send side. That is never done while a write
is pending. -/
theorem shutdown_notified_iff (pre : List NativeEvent) (hpre : ∀ e ∈ pre, e.isEnd = false)
    (option : ShutdownOption) (hoption : option.hasSend = true) (sendFails receiveFails : Bool)
    (hok : ((run step (fresh .plain) pre).shutdown option sendFails receiveFails).2 = true) :
    (∀ post : List NativeEvent, (∀ e ∈ post, e.isEnd = false) →
      Guarded step ShutsIdle (fresh .plain)
        (pre ++ .shutdown option sendFails receiveFails :: post) ∧
      ∀ t ∈ statesOf step (run step (fresh .plain)
        (pre ++ [.shutdown option sendFails receiveFails])) post, t.Notified) ↔
    (run step (fresh .plain) pre).pendingWrites = 0 ∧ sendFails = false := by
  have hbefore := Before.run hpre
  rw [run_append, run_cons, run_nil, step_shutdown]
  constructor
  · intro hall
    by_contra hnot
    apply (hbefore.early hoption hnot hok).not_notified
    exact (hall [.returned, .posted] (by decide)).2
  · rintro ⟨hwrites, rfl⟩ post hpost
    constructor
    · exact guarded_imp (I := fun _ => True) (G := fun _ _ => True) (fun _ _ _ _ => trivial)
        (fun s e _ _ => s.shuts_idle e) trivial (guarded_of_forall (fun _ _ => trivial) _)
    · exact (hbefore.ends hoption hwrites hok).run hpost

/-- The write is over when `Shutdown` is called. -/
theorem shutdown_notified_idle :
    (∀ post : List NativeEvent, (∀ e ∈ post, e.isEnd = false) →
      Guarded step ShutsIdle (fresh .plain)
        ([.write, .writeDone, .returned] ++ .shutdown .write false false :: post) ∧
      ∀ t ∈ statesOf step (run step (fresh .plain)
        ([.write, .writeDone, .returned] ++ [.shutdown .write false false])) post, t.Notified) ↔
    (run step (fresh .plain) [.write, .writeDone, .returned]).pendingWrites = 0 ∧ false = false :=
  shutdown_notified_iff [.write, .writeDone, .returned] (by decide) .write rfl false false (by decide)

instance (s : NativeSocket) : Decidable s.Notified :=
  inferInstanceAs (Decidable (_ ∧ _ ∧ _))

/-- A write is in flight when `Shutdown` is called: the callback runs before the shutdown, and again
after it. -/
theorem shutdown_not_notified :
    ¬ ∀ (pre : List NativeEvent) (option : ShutdownOption) (sendFails receiveFails : Bool),
      option.hasSend = true →
      ((run step (fresh .plain) pre).shutdown option sendFails receiveFails).2 = true →
      ∀ post : List NativeEvent, (∀ e ∈ pre ++ post, e.isEnd = false) →
        ∀ t ∈ statesOf step (run step (fresh .plain)
          (pre ++ [.shutdown option sendFails receiveFails])) post, t.Notified := by
  intro h
  have htwice := h [.write] .write false false rfl (by decide)
    [.posted, .returned, .writeDone, .returned] (by decide)
    _ (run_mem_statesOf _ _ _)
  revert htwice
  decide

/-! ### The shutdown of a secure socket -/

/-- The send side is down as soon as it is to be shut down and no write is pending, and the handler of
the last one has done its part. -/
def Down (s : NativeSocket) : Prop :=
  s.shutdownSend = true → s.pendingWrites = 0 → s.handler ≠ some .write →
    s.sendShut = true ∨ s.isOpen = false

/-- The completion of a write is still to be handled. -/
def InFlight (s : NativeSocket) : NativeEvent → Prop
  | .shutdown .write _ _ =>
    0 < s.pendingWrites ∨ s.handler = some .write ∨ s.sendShut = true ∨ s.isOpen = false
  | _ => True

/-- A secure socket; what is to shut down the send side is marked as a pending shutdown. -/
structure Secure (s : NativeSocket) : Prop where
  secure : s.kind = .secure
  marked : s.shutdownSend = true → s.shutdownPending = true

theorem fresh_secure : (fresh .secure).Secure :=
  ⟨rfl, nofun⟩

theorem Secure.closeIfPending (h : s.Secure) :
    s.closeIfPending.Secure ∧ (s.Down → s.closeIfPending.Down) := by
  unfold NativeSocket.closeIfPending closeNow
  simp only [h.secure]
  split_ifs
  · exact ⟨⟨rfl, h.marked⟩, fun _ _ _ _ => Or.inr rfl⟩
  · exact ⟨h, id⟩

/-- The end of `HandleWrite` leaves the send side shut down when it is to be. -/
theorem Secure.written (h : s.Secure) : s.written.Secure ∧ s.written.Down := by
  unfold NativeSocket.written
  simp only [h.secure]
  split_ifs with happly hsend
  · have hsent : ({ s with sendShut := true } : NativeSocket).Secure := ⟨h.secure, h.marked⟩
    rw [h.secure] at hsent
    exact ⟨hsent.closeIfPending.1, hsent.closeIfPending.2 fun _ _ _ => Or.inl rfl⟩
  · have hreceived : ({ s with receiveShut := true } : NativeSocket).Secure := ⟨h.secure, h.marked⟩
    rw [h.secure] at hreceived
    exact ⟨hreceived.closeIfPending.1,
      hreceived.closeIfPending.2 fun hshut => absurd hshut hsend⟩
  · refine ⟨h.closeIfPending.1, h.closeIfPending.2 fun hshut hwrites => ?_⟩
    exact absurd ⟨hwrites, h.marked hshut⟩ happly

theorem Secure.returned (h : s.Secure) : s.returned.Secure ∧ (s.Down → s.returned.Down) := by
  unfold NativeSocket.returned
  split
  · exact ⟨h, id⟩
  · rename_i handler hframe
    have hidle : ({ s with handler := none } : NativeSocket).Secure := ⟨h.secure, h.marked⟩
    have hrest : handler ≠ .write → s.Down → ({ s with handler := none } : NativeSocket).Down := by
      intro hne hdown hshut hwrites _
      apply hdown hshut hwrites
      rw [hframe]
      simpa using hne
    cases handler with
    | write => exact ⟨hidle.written.1, fun _ => hidle.written.2⟩
    | delayed | read =>
      exact ⟨hidle.closeIfPending.1, fun hdown => hidle.closeIfPending.2 (hrest nofun hdown)⟩
    | shutdown => exact ⟨hidle, hrest nofun⟩

/-- What a step does to a secure socket: a shutdown alone may leave a send side that is to be shut
down as it is. -/
def Keeps (s t : NativeSocket) (e : NativeEvent) : Prop :=
  t.Secure ∧ (s.Down → (t.Down ↔ s.InFlight e))

theorem Keeps.of_down {t : NativeSocket} {e : NativeEvent} (ht : t.Secure)
    (hdown : s.Down → t.Down) (he : s.InFlight e) : Keeps s t e :=
  ⟨ht, fun hs => iff_of_true (hdown hs) he⟩

theorem Secure.shutdown (h : s.Secure) (option : ShutdownOption) (sendFails receiveFails : Bool) :
    Keeps s (s.shutdown option sendFails receiveFails).1
      (.shutdown option sendFails receiveFails) := by
  simp only [NativeSocket.shutdown, h.secure]
  cases option with
  | read | both | noOption | absent => exact Keeps.of_down ⟨rfl, fun _ => rfl⟩ id trivial
  | write =>
    refine ⟨⟨rfl, fun _ => rfl⟩, fun _ => ?_⟩
    simp only [Down, InFlight]
    constructor
    · intro hnext
      by_contra hnot
      simp only [not_or] at hnot
      obtain ⟨hwrites, hframe, hshut, hopen⟩ := hnot
      rcases hnext trivial (by omega) hframe with hs | ho
      · exact hshut hs
      · exact hopen ho
    · rintro (hwrites | hframe | hdown) _ hnone hother
      · exact absurd hnone (by omega)
      · exact absurd hframe hother
      · exact hdown

theorem Secure.userStep (h : s.Secure) (e : NativeEvent) : Keeps s (s.userStep e) e := by
  cases e with
  | read => exact Keeps.of_down ⟨h.secure, h.marked⟩ id trivial
  | write =>
    simp only [NativeSocket.userStep, write]
    split_ifs
    · exact Keeps.of_down h id trivial
    · exact Keeps.of_down ⟨h.secure, h.marked⟩ (fun _ _ hwrites => absurd hwrites nofun) trivial
  | shutdown option sendFails receiveFails => exact h.shutdown option sendFails receiveFails
  | close =>
    simp only [NativeSocket.userStep, close, closeNow, h.secure]
    split_ifs
    · exact Keeps.of_down ⟨rfl, h.marked⟩ id trivial
    · exact Keeps.of_down ⟨rfl, h.marked⟩ (fun _ _ _ _ => Or.inr rfl) trivial
  | returned => exact Keeps.of_down h.returned.1 h.returned.2 trivial
  | readDone | writeDone | posted => exact Keeps.of_down h id trivial

theorem Secure.step (h : s.Secure) (e : NativeEvent) : Keeps s (s.step e) e := by
  unfold NativeSocket.step
  split_ifs with hbusy
  · exact h.userStep e
  · have hidle : s.handler ≠ some .write := by
      intro hframe
      simp [hframe] at hbusy
    cases e with
    | readDone kind ok =>
      simp only [loopStep, readDone]
      split_ifs
      · exact Keeps.of_down ⟨h.secure, h.marked⟩ id trivial
      · refine Keeps.of_down ⟨h.secure, h.marked⟩ ?_ trivial
        exact fun hdown hshut hwrites _ => hdown hshut hwrites hidle
      · exact Keeps.of_down h id trivial
    | writeDone =>
      simp only [loopStep, writeDone]
      split_ifs
      · exact Keeps.of_down h id trivial
      · refine Keeps.of_down ⟨h.secure, h.marked⟩ ?_ trivial
        exact fun _ _ _ hother => absurd rfl hother
    | posted =>
      simp only [loopStep, handleShutdown]
      split_ifs
      · exact Keeps.of_down h id trivial
      · refine Keeps.of_down ⟨h.secure, h.marked⟩ ?_ trivial
        exact fun hdown hshut hwrites _ => hdown hshut hwrites hidle
    | read kind => exact h.userStep (.read kind)
    | write => exact h.userStep .write
    | shutdown option sendFails receiveFails => exact h.shutdown option sendFails receiveFails
    | close => exact h.userStep .close
    | returned => exact h.userStep .returned

/-- The send side of a secure socket that is to be shut down is down as soon as no write is pending, in
every state of a run, if and only if a write is in flight at each `Shutdown` (or nothing is left to shut
down). -/
theorem half_close_iff (es : List NativeEvent) :
    (∀ t ∈ statesOf step (fresh .secure) es, t.Down) ↔
      Guarded step InFlight (fresh .secure) es :=
  states_iff_guarded (I := Secure) (fun _ e h => (h.step e).1) (fun _ e h hdown => (h.step e).2 hdown)
    fresh_secure nofun es

/-- Nothing is written when `Shutdown` is called. -/
theorem half_close_never :
    ¬ ∀ es : List NativeEvent, ∀ t ∈ statesOf step (fresh .secure) es, t.Down := by
  intro h
  have hnever := h [.shutdown .write false false] _ (run_mem_statesOf _ _ _)
  have hshut := hnever rfl rfl nofun
  revert hshut
  decide

end NativeSocket

end LuaNode.Net
