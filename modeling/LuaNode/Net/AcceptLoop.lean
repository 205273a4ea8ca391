import LuaNode.Net.Server

/-!
# The accept loop

A server that listens has one accept outstanding, or one timer that will begin one. The callback of an
acceptor goes on with the `_handle` that is there after its listeners, and so do the timer and the
tick of 'listening', which may be the handle of another `listen`; a failed accept other than `EMFILE`
is not begun again.
-/

namespace LuaNode.Net.Server

variable {s : Server}

/-- The accepts outstanding on `_handle`, and the timers that begin one. -/
def load (s : Server) : ℕ := (s.handle.elim 0 s.accepts) + s.retries

/-- Between callbacks a server that listens has one accept outstanding or one timer, and no field of a
nil handle has been asked for. -/
def Armed (s : Server) : Prop :=
  s.nilIndexed = false ∧ (s.frame = none → s.listening = true → s.load = 1)

instance (s : Server) : Decidable s.Armed := inferInstanceAs (Decidable (_ ∧ _))

/-- A completion of acceptor `a` finds the handle as it needs it. -/
def Meets (s : Server) (a : ℕ) : Accepted → Prop
  | .gone => True
  | .peer => s.handle ≠ none ∧ (s.listening = true → s.full = true → s.handle = some a)
  | .error .canceled => s.listening = true → s.handle ≠ some a
  | .error .emfile => s.listening = true → s.handle = some a
  | .error (.other _) => True

/-- The listeners of a callback of acceptor `a` return to a server that does not listen; or those of
'connection' return without an error, to a server that listens with `a`, and those of 'error' to one
that does not listen with `a` any more. -/
def Resumes (s : Server) (raised : Option Str) : ServerFrame → Prop
  | .accepted a _ => s.listening = true → (s.handle = some a ↔ raised = none)
  | .failed a => s.listening = true → s.handle ≠ some a
  | .last => True

/-- The tick of 'listening' finds a handle for which nothing has been begun; accepts complete with
peers on a handle of the server, and without errors but `EMFILE`. -/
def Orderly (s : Server) : ServerEvent → Prop
  | .tick => s.busy = false → s.posted.head? = some .listening → s.handle ≠ none ∧ s.load = 0
  | .handleAccept a result => s.busy = false → 0 < s.accepts a → s.Meets a result
  | .returned raised => ∀ frame, s.frame = some frame → s.Resumes raised frame
  | _ => True

instance (s : Server) (a : ℕ) (result : Accepted) : Decidable (s.Meets a result) := by
  unfold Meets
  split <;> infer_instance

instance (s : Server) (raised : Option Str) (frame : ServerFrame) :
    Decidable (s.Resumes raised frame) := by
  unfold Resumes
  split <;> infer_instance

instance (s : Server) (e : ServerEvent) : Decidable (s.Orderly e) := by
  unfold Orderly
  split
  · infer_instance
  · infer_instance
  · exact inferInstanceAs (Decidable (∀ frame ∈ s.frame, _))
  · infer_instance

/-! ### What is armed -/

/-- The accepts that have to be outstanding on `_handle`, with the timers. -/
def share (s : Server) : ℕ :=
  match s.frame with
  | some (.accepted a _) => if s.handle = some a then 0 else 1
  | some (.failed a) => if s.handle = some a then 0 else 1
  | _ => 1

structure Balanced (s : Server) : Prop where
  indexed : s.nilIndexed = false
  handled : s.listening = true → s.handle ≠ none
  load : s.listening = true → s.load = s.share

theorem Balanced.armed (h : s.Balanced) : s.Armed := by
  refine ⟨h.indexed, fun hframe hlistening => ?_⟩
  rw [h.load hlistening, share, hframe]

/-- What `Balanced` is about. -/
def arms (s : Server) : Bool × Option ℕ × Bool × (ℕ → ℕ) × ℕ × Option ServerFrame :=
  (s.nilIndexed, s.handle, s.listening, s.accepts, s.retries, s.frame)

theorem Balanced.congr {t : Server} (h : s.Balanced) (ht : t.arms = s.arms) : t.Balanced := by
  simp only [arms, Prod.mk.injEq] at ht
  obtain ⟨hindexed, hhandle, hlistening, haccepts, hretries, hframe⟩ := ht
  constructor
  · rw [hindexed]
    exact h.indexed
  · rw [hlistening, hhandle]
    exact h.handled
  · unfold Server.load share
    rw [hlistening, hhandle, haccepts, hretries, hframe]
    exact h.load

/-- A server that does not listen. -/
theorem balanced_idle (hindexed : s.nilIndexed = false) (hidle : s.listening = false) :
    s.Balanced :=
  ⟨hindexed, fun h => absurd (hidle.symm.trans h) nofun,
    fun h => absurd (hidle.symm.trans h) nofun⟩

theorem arms_emitCloseIfDrained (s : Server) : s.emitCloseIfDrained.arms = s.arms := by
  unfold emitCloseIfDrained
  split_ifs <;> rfl

theorem arms_onSocket (s : Server) (i : ℕ) (f : Connection → Connection) :
    (s.onSocket i f).arms = s.arms := by
  unfold onSocket
  split
  · rfl
  · dsimp only
    split_ifs
    · rfl
    · exact arms_emitCloseIfDrained _

theorem load_accept (s : Server) (a : ℕ) :
    (s.accept a).load = s.load + if s.handle = some a then 1 else 0 := by
  unfold load accept
  cases hh : s.handle with
  | none => simp
  | some b =>
    by_cases hb : b = a
    · subst hb
      simp
      omega
    · simp [hb]

theorem close_balanced (h : s.Balanced) : s.close.Balanced := by
  unfold close
  split_ifs
  · exact h
  · apply Balanced.congr (balanced_idle (s := { s.closeHandle with closed := true }) h.indexed rfl)
    exact arms_emitCloseIfDrained _

theorem listen2_balanced (h : s.Balanced) (answer : ListenAnswer) :
    (s.listen2 answer).Balanced := by
  unfold listen2
  have hidle : ∀ t : Server, t.nilIndexed = s.nilIndexed → t.listening = false → t.Balanced :=
    fun t hindexed => balanced_idle (hindexed.trans h.indexed)
  split
  · exact h.congr rfl
  · exact hidle _ rfl rfl
  · exact hidle _ rfl rfl
  · exact hidle _ rfl rfl
  · exact h.congr rfl

theorem lookup_balanced (h : s.Balanced) (hframe : s.frame = none) (answer : ListenAnswer) :
    (s.lookup answer).Balanced := by
  unfold lookup
  split
  · refine ⟨h.indexed, h.handled, fun hlistening => ?_⟩
    have hload := h.load hlistening
    rw [share, hframe] at hload
    exact hload
  · exact listen2_balanced h _

theorem tick_listening {rest : List ServerTick} {a : ℕ} (hposted : s.posted = .listening :: rest)
    (ha : s.handle = some a) :
    s.tick =
      { s.accept a with
        posted := rest
        emitted := s.emitted ++ [.listening]
        listening := true
        frame := some .last } := by
  simp only [tick, hposted, ha, accept]

theorem Balanced.last {t : Server} (h : s.Balanced) (hframe : s.frame = none)
    (ht : t.arms = { s with frame := some .last }.arms) : t.Balanced := by
  apply Balanced.congr (s := { s with frame := some .last }) _ ht
  refine ⟨h.indexed, h.handled, fun hlistening => ?_⟩
  have hload := h.load hlistening
  rw [share, hframe] at hload
  exact hload

theorem tick_balanced (h : s.Balanced) (hframe : s.frame = none)
    (hg : s.posted.head? = some .listening → s.handle ≠ none ∧ s.load = 0) :
    s.tick.Balanced := by
  cases hposted : s.posted with
  | nil =>
    unfold tick
    rw [hposted]
    exact h
  | cons p rest =>
    cases p with
    | listening =>
      obtain ⟨hsome, hload⟩ := hg (by rw [hposted]; rfl)
      obtain ⟨a, ha⟩ := Option.ne_none_iff_exists'.mp hsome
      have haccept := load_accept s a
      rw [hload, if_pos ha] at haccept
      rw [tick_listening hposted ha]
      exact ⟨h.indexed, fun _ => hsome, fun _ => haccept⟩
    | error =>
      unfold tick
      rw [hposted]
      exact h.last hframe rfl
    | close =>
      unfold tick
      rw [hposted]
      exact h.last hframe rfl

/-- An accept of acceptor `a` completes. -/
def taken (s : Server) (a : ℕ) : Server :=
  { s with accepts := Function.update s.accepts a (s.accepts a - 1) }

theorem load_taken {a : ℕ} (ha : 0 < s.accepts a) :
    s.load = (s.taken a).load + if s.handle = some a then 1 else 0 := by
  unfold load taken
  cases hh : s.handle with
  | none => simp
  | some b =>
    by_cases hb : b = a
    · subst hb
      simp
      omega
    · simp [hb]

/-- An accept of acceptor `a` has completed, and nothing has been begun for it yet. -/
structure Owed (s : Server) (a : ℕ) : Prop where
  indexed : s.nilIndexed = false
  handled : s.listening = true → s.handle ≠ none
  frame : s.frame = none
  load : s.listening = true → s.load + (if s.handle = some a then 1 else 0) = 1

theorem Owed.share {a : ℕ} (h : s.Owed a) : s.share = 1 := by
  rw [Server.share, h.frame]

/-- The handle is not acceptor `a`. -/
theorem Owed.forget {a : ℕ} (h : s.Owed a) (ha : s.listening = true → s.handle ≠ some a) :
    s.Balanced := by
  refine ⟨h.indexed, h.handled, fun hlistening => ?_⟩
  have hload := h.load hlistening
  rw [if_neg (ha hlistening)] at hload
  rw [h.share]
  exact hload

/-- The callback waits for its listeners. -/
theorem Owed.wait {t : Server} {a : ℕ} {frame : ServerFrame} (h : s.Owed a)
    (hframe : frame = .failed a ∨ ∃ i, frame = .accepted a i)
    (ht : t.arms = { s with frame := some frame }.arms) : t.Balanced := by
  apply Balanced.congr (s := { s with frame := some frame }) _ ht
  refine ⟨h.indexed, h.handled, fun hlistening => ?_⟩
  have hload := h.load hlistening
  have hshare : ({ s with frame := some frame } : Server).share =
      if s.handle = some a then 0 else 1 := by
    rcases hframe with rfl | ⟨i, rfl⟩ <;> rfl
  rw [hshare]
  change s.load = _
  split_ifs at hload ⊢ <;> omega

/-- The next accept is begun. -/
theorem Owed.accept {a b : ℕ} (h : s.Owed a)
    (hb : s.listening = true → (s.handle = some b ↔ s.handle = some a)) :
    (s.accept b).Balanced := by
  refine ⟨h.indexed, h.handled, fun hlistening => ?_⟩
  have hload := h.load hlistening
  have hshare : (s.accept b).share = 1 := h.share
  rw [hshare, load_accept]
  simp only [hb hlistening]
  exact hload

theorem Owed.acceptIfOpen {a : ℕ} (h : s.Owed a) (ha : s.listening = true → s.handle = some a) :
    s.acceptIfOpen.Balanced := by
  unfold Server.acceptIfOpen
  split
  · rename_i hnone
    exact h.forget fun _ => by rw [hnone]; exact nofun
  · rename_i b hb
    apply h.accept
    intro hlistening
    rw [← hb, ha hlistening]

/-- A timer is started. -/
theorem Owed.later {a : ℕ} (h : s.Owed a) (ha : s.listening = true → s.handle = some a) :
    ({ s with retries := s.retries + 1 } : Server).Balanced := by
  refine ⟨h.indexed, h.handled, fun hlistening => ?_⟩
  have hload := h.load hlistening
  have hshare : ({ s with retries := s.retries + 1 } : Server).share = 1 := h.share
  rw [if_pos (ha hlistening)] at hload
  rw [hshare]
  exact hload

theorem Balanced.taken (h : s.Balanced) (hframe : s.frame = none) {a : ℕ} (ha : 0 < s.accepts a) :
    (s.taken a).Owed a := by
  refine ⟨h.indexed, h.handled, hframe, fun hlistening => ?_⟩
  have hload := load_taken ha
  rw [h.load hlistening, Server.share, hframe] at hload
  exact hload.symm

theorem handleAccept_balanced (h : s.Balanced) (hframe : s.frame = none) {a : ℕ} {result : Accepted}
    (hg : 0 < s.accepts a → s.Meets a result) : (s.handleAccept a result).Balanced := by
  unfold handleAccept
  split_ifs with hnone
  · exact h
  · have hpos : 0 < s.accepts a := Nat.pos_of_ne_zero hnone
    have hmeets := hg hpos
    have howed := h.taken hframe hpos
    cases result with
    | gone => exact howed.accept fun _ => Iff.rfl
    | peer =>
      obtain ⟨hsome, hsame⟩ := hmeets
      obtain ⟨b, hb⟩ := Option.ne_none_iff_exists'.mp hsome
      have honpeer : (s.taken a).onPeer a =
          if s.full then (s.taken a).accept b
          else
            { s.taken a with
              connections := s.connections + 1
              sockets := s.sockets ++ [.accepted s.allowHalfOpen]
              frame := some (.accepted a s.sockets.length) } := by
        have hhandle : (s.taken a).handle = some b := hb
        simp only [onPeer, hhandle]
        rfl
      change ((s.taken a).onPeer a).Balanced
      rw [honpeer]
      split_ifs with hfull
      · apply howed.accept
        intro hlistening
        have ha := hsame hlistening hfull
        exact iff_of_true hb ha
      · exact howed.wait (Or.inr ⟨_, rfl⟩) rfl
    | error code =>
      cases code with
      | canceled => exact howed.forget hmeets
      | emfile => exact howed.later hmeets
      | other code => exact howed.wait (Or.inl rfl) rfl

theorem retry_balanced (h : s.Balanced) (hframe : s.frame = none) : s.retry.Balanced := by
  unfold retry
  split_ifs with hnone
  · exact h
  · have hpos : 0 < s.retries := Nat.pos_of_ne_zero hnone
    obtain hhandle | ⟨a, ha⟩ := Option.eq_none_or_eq_some s.handle
    · have hidle : s.listening = false := by
        by_contra hlistening
        exact h.handled (by simpa using hlistening) hhandle
      unfold Server.acceptIfOpen
      dsimp only
      rw [hhandle]
      exact balanced_idle h.indexed hidle
    · have howed : ({ s with retries := s.retries - 1 } : Server).Owed a := by
        refine ⟨h.indexed, h.handled, hframe, fun hlistening => ?_⟩
        have hload := h.load hlistening
        rw [share, hframe, load] at hload
        unfold load
        rw [if_pos ha]
        change s.handle.elim 0 s.accepts + (s.retries - 1) + 1 = 1
        dsimp only at hload
        omega
      exact howed.acceptIfOpen fun _ => ha

/-- The listeners of a callback return. -/
theorem Balanced.owed (h : s.Balanced) {a : ℕ} {frame : ServerFrame} (hframe : s.frame = some frame)
    (hkind : frame = .failed a ∨ ∃ i, frame = .accepted a i) :
    ({ s with frame := none } : Server).Owed a := by
  refine ⟨h.indexed, h.handled, rfl, fun hlistening => ?_⟩
  have hload := h.load hlistening
  have hshare : s.share = if s.handle = some a then 0 else 1 := by
    rw [share, hframe]
    rcases hkind with rfl | ⟨i, rfl⟩ <;> rfl
  rw [hshare] at hload
  change s.load + _ = 1
  split_ifs at hload ⊢ <;> omega

theorem Owed.congr {t : Server} {a : ℕ} (h : s.Owed a) (ht : t.arms = s.arms) : t.Owed a := by
  simp only [arms, Prod.mk.injEq] at ht
  obtain ⟨hindexed, hhandle, hlistening, haccepts, hretries, hframe⟩ := ht
  constructor
  · rw [hindexed]
    exact h.indexed
  · rw [hlistening, hhandle]
    exact h.handled
  · rw [hframe]
    exact h.frame
  · unfold Server.load
    rw [hlistening, hhandle, haccepts, hretries]
    exact h.load

theorem returned_balanced (h : s.Balanced) {raised : Option Str}
    (hg : ∀ frame, s.frame = some frame → s.Resumes raised frame) :
    (s.returned raised).Balanced := by
  unfold returned
  cases hframe : s.frame with
  | none => exact h
  | some frame =>
    have hresumes := hg frame hframe
    cases frame with
    | last =>
      refine ⟨h.indexed, h.handled, fun hlistening => ?_⟩
      have hload := h.load hlistening
      rw [share, hframe] at hload
      exact hload
    | failed a => exact (h.owed hframe (Or.inl rfl)).forget hresumes
    | accepted a i =>
      have hsame := arms_onSocket { s with frame := none } i fun c => c.returned raised none
      have howed := (h.owed hframe (Or.inr ⟨i, rfl⟩)).congr hsame
      simp only [arms, Prod.mk.injEq] at hsame
      obtain ⟨-, hhandle, hlistening, -⟩ := hsame
      dsimp only
      split_ifs with hraised
      · apply howed.forget
        rw [hlistening, hhandle]
        intro hl ha
        rw [(hresumes hl).mp ha] at hraised
        exact absurd hraised nofun
      · apply howed.acceptIfOpen
        rw [hlistening, hhandle]
        intro hl
        exact (hresumes hl).mpr (by simpa using hraised)

theorem userStep_balanced (h : s.Balanced) {e : ServerEvent} (hg : s.Orderly e) :
    (s.userStep e).Balanced := by
  unfold userStep
  split
  · exact h.congr rfl
  · exact close_balanced h
  · split_ifs
    · exact h
    · exact h.congr (arms_onSocket s _ _)
  · exact h.congr (arms_onSocket s _ _)
  · exact returned_balanced h hg
  · exact h

theorem step_balanced (h : s.Balanced) {e : ServerEvent} (hg : s.Orderly e) :
    (s.step e).Balanced := by
  unfold step
  split_ifs with hbusy
  · exact userStep_balanced h hg
  · have hfree : s.busy = false := by simpa using hbusy
    have hframe : s.frame = none := by
      simp only [busy, Bool.or_eq_false_iff] at hfree
      simpa using hfree.1
    cases e with
    | lookup answer =>
      simp only [loopStep]
      split_ifs
      · exact h
      · exact lookup_balanced (s := { s with lookups := s.lookups - 1 }) (h.congr rfl) hframe answer
    | tick => exact tick_balanced h hframe (hg hfree)
    | handleAccept a result => exact handleAccept_balanced h hframe (hg hfree)
    | retry => exact retry_balanced h hframe
    | socket i e => exact h.congr (arms_onSocket s _ _)
    | listen => exact userStep_balanced h hg
    | close => exact userStep_balanced h hg
    | returned raised => exact userStep_balanced h hg

/-- A peer, too many files, and an error whose listener closes the server. -/
def served : List ServerEvent :=
  [.listen, .lookup .ok, .tick, .returned none, .handleAccept 0 .peer, .returned none,
    .handleAccept 0 (.error .emfile), .retry, .handleAccept 0 (.error (.other 103)), .close,
    .returned none]

end LuaNode.Net.Server
