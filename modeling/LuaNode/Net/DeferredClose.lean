import LuaNode.Net.NativeSocket

/-!
# A close that is put off

`Close` while a write is in flight leaves a mark, and the socket is closed when the last pending write
completes. A `SecureSocket` waits for its reads too: with a read outstanding, the two classes differ.
-/

namespace LuaNode.Net

/-- `Shutdown` is called. -/
def NativeEvent.isShutdown : NativeEvent → Bool
  | .shutdown .. => true
  | _ => false

namespace NativeSocket

variable {p s : NativeSocket}

/-- The pending reads and writes, whether a close is pending, and whether the socket is open. -/
def observed (s : NativeSocket) : ℕ × ℕ × Bool × Bool :=
  (s.pendingReads, s.pendingWrites, s.closePending && s.isOpen, s.isOpen)

/-- The steps that close the socket: a `Close` without a pending write, and the completion of the last
pending write after a `Close`. -/
def closes (s : NativeSocket) : NativeEvent → Bool
  | .close => decide (s.pendingWrites = 0)
  | .returned =>
    decide (s.handler = some .write) && decide (s.closePending = true ∧ s.pendingWrites = 0)
  | _ => false

/-- The socket is closed by the steps that are to close it, and by no other. -/
def Deferred (s : NativeSocket) (e : NativeEvent) : Prop :=
  (s.step e).isOpen = (s.isOpen && !s.closes e)

instance (s : NativeSocket) (e : NativeEvent) : Decidable (s.Deferred e) :=
  inferInstanceAs (Decidable (_ = _))

/-- No read is pending when the last pending write completes and the socket is to be closed, and
nobody waits for a read of a size. -/
def Unread (s : NativeSocket) : NativeEvent → Prop
  | .returned =>
    s.handler = some .write → s.closePending = true → s.isOpen = true → s.pendingWrites = 0 →
      s.pendingReads = 0
  | .readDone .size _ => s.handler = none → s.pendingReads = s.reads.length
  | _ => True

instance (s : NativeSocket) (e : NativeEvent) : Decidable (s.Unread e) := by
  unfold Unread
  split <;> infer_instance

/-- A plain socket and a `SecureSocket` after the same events. -/
structure Alike (p s : NativeSocket) : Prop where
  plain : p.kind = .plain
  secure : s.kind = .secure
  pendingReads : s.pendingReads = p.pendingReads
  pendingWrites : s.pendingWrites = p.pendingWrites
  isOpen : s.isOpen = p.isOpen
  handler : s.handler = p.handler
  closePending : p.isOpen = true → s.closePending = p.closePending
  unshut : p.shutdownPending = false ∧ s.shutdownPending = false
  posted : p.posted = 0 ∧ s.posted = 0
  reads : s.reads = p.reads.filter (· ≠ .size)
  counted : p.pendingReads = p.reads.length

/-- A close that is pending waits for a write, or for the end of `HandleWrite`; other handlers than
those of reads and writes do not run. -/
structure Settled (s : NativeSocket) : Prop where
  closing : s.closePending = true → s.isOpen = true →
    0 < s.pendingWrites ∨ s.handler = some .write
  handler : s.handler = none ∨ s.handler = some .read ∨ s.handler = some .write

theorem Alike.observed (h : Alike p s) : p.observed = s.observed := by
  unfold NativeSocket.observed
  rw [h.pendingReads, h.pendingWrites, h.isOpen]
  rcases Bool.eq_false_or_eq_true p.isOpen with hopen | hclosed
  · rw [h.closePending hopen]
  · rw [hclosed, Bool.and_false, Bool.and_false]

theorem Alike.read (h : Alike p s) (kind : ReadKind) : Alike (p.read kind) (s.read kind) where
  plain := h.plain
  secure := h.secure
  pendingReads := congrArg (· + 1) h.pendingReads
  pendingWrites := h.pendingWrites
  isOpen := h.isOpen
  handler := h.handler
  closePending := h.closePending
  unshut := h.unshut
  posted := h.posted
  reads := by
    simp only [NativeSocket.read, h.plain, h.secure, h.reads]
    cases kind <;> simp
  counted := by
    simp [NativeSocket.read, h.plain, h.counted]

theorem Alike.write (h : Alike p s) : Alike p.write s.write := by
  unfold NativeSocket.write
  rw [h.pendingWrites]
  split_ifs
  · exact h
  · exact ⟨h.plain, h.secure, h.pendingReads, rfl, h.isOpen, h.handler, h.closePending, h.unshut,
      h.posted, h.reads, h.counted⟩

/-- Both are closed. -/
theorem Alike.closeNow (h : Alike p s) : Alike p.closeNow s.closeNow := by
  simp only [NativeSocket.closeNow, h.plain, h.secure]
  exact ⟨rfl, rfl, h.pendingReads, h.pendingWrites, rfl, h.handler, nofun, h.unshut, h.posted,
    h.reads, h.counted⟩

theorem Alike.close (h : Alike p s) : Alike p.close s.close := by
  unfold NativeSocket.close
  rw [h.pendingWrites]
  split_ifs
  · exact ⟨h.plain, h.secure, h.pendingReads, rfl, h.isOpen, h.handler, fun _ => rfl, h.unshut,
      h.posted, h.reads, h.counted⟩
  · exact h.closeNow

theorem Alike.writeDone (h : Alike p s) : Alike p.writeDone s.writeDone := by
  unfold NativeSocket.writeDone
  rw [h.pendingWrites]
  split_ifs
  · exact h
  · exact ⟨h.plain, h.secure, h.pendingReads, rfl, h.isOpen, rfl, h.closePending, h.unshut, h.posted,
      h.reads, h.counted⟩

/-- When nobody waits for a read of a size, the same reads are outstanding. -/
theorem Alike.mem_reads (h : Alike p s) {kind : ReadKind}
    (hkind : kind = .size → s.pendingReads = s.reads.length) : kind ∈ s.reads ↔ kind ∈ p.reads := by
  rw [h.reads, List.mem_filter]
  by_cases hsize : kind = .size
  · have hlength := hkind hsize
    rw [h.pendingReads, h.counted, h.reads, eq_comm, List.length_filter_eq_length_iff] at hlength
    subst hsize
    simp only [ne_eq, not_true_eq_false, decide_false, Bool.false_eq_true, and_false, false_iff]
    intro hmem
    simpa using hlength _ hmem
  · simp [hsize]

theorem Alike.readDone (h : Alike p s) {kind : ReadKind} (ok : Bool)
    (hkind : kind = .size → s.pendingReads = s.reads.length) :
    Alike (p.readDone kind ok) (s.readDone kind ok) := by
  have hmem := h.mem_reads hkind
  unfold NativeSocket.readDone
  by_cases hp : kind ∈ p.reads
  · rw [if_pos hp, if_pos (hmem.mpr hp)]
    dsimp only
    rw [if_neg (by simp [h.plain]), if_neg (by simp [h.unshut.2])]
    refine ⟨h.plain, h.secure, ?_, h.pendingWrites, h.isOpen, rfl, h.closePending, h.unshut,
      h.posted, ?_, ?_⟩
    · exact congrArg (· - 1) h.pendingReads
    · change s.reads.erase kind = _
      rw [h.reads, List.erase_filter]
    · change p.pendingReads - 1 = _
      rw [h.counted, List.length_erase_of_mem hp]
  · rw [if_neg hp, if_neg (mt hmem.mp hp)]
    exact h

theorem Alike.closeIfPending (h : Alike p s)
    (hunread : p.closePending = true → p.isOpen = true → p.pendingWrites = 0 →
      p.pendingReads = 0) : Alike p.closeIfPending s.closeIfPending := by
  have hs := h.isOpen
  simp only [NativeSocket.closeIfPending, NativeSocket.closeNow, h.plain, h.secure]
  rcases Bool.eq_false_or_eq_true p.isOpen with hopen | hclosed
  · have hflag := h.closePending hopen
    by_cases hnow : p.closePending = true ∧ p.pendingWrites = 0
    · have hreads := hunread hnow.1 hopen hnow.2
      rw [if_pos hnow, if_pos ⟨hflag.trans hnow.1, h.pendingWrites.trans hnow.2,
        h.pendingReads.trans hreads⟩]
      exact ⟨rfl, rfl, h.pendingReads, h.pendingWrites, rfl, h.handler, nofun, h.unshut, h.posted,
        h.reads, h.counted⟩
    · have hnot : ¬(s.closePending = true ∧ s.pendingWrites = 0 ∧ s.pendingReads = 0) := by
        rintro ⟨hc, hw, -⟩
        exact hnow ⟨hflag.symm.trans hc, h.pendingWrites.symm.trans hw⟩
      rw [if_neg hnow, if_neg hnot]
      exact h
  · rw [hclosed] at hs
    split_ifs
    · exact ⟨rfl, rfl, h.pendingReads, h.pendingWrites, rfl, h.handler, nofun, h.unshut, h.posted,
        h.reads, h.counted⟩
    · exact ⟨rfl, h.secure, h.pendingReads, h.pendingWrites, hs, h.handler, nofun, h.unshut,
        h.posted, h.reads, h.counted⟩
    · exact ⟨h.plain, rfl, h.pendingReads, h.pendingWrites, hclosed.symm, h.handler,
        fun hopen => absurd (hclosed.symm.trans hopen) nofun, h.unshut, h.posted, h.reads,
        h.counted⟩
    · exact h

/-- The callback returns. -/
theorem Alike.idle (h : Alike p s) :
    Alike { p with handler := none } { s with handler := none } :=
  ⟨h.plain, h.secure, h.pendingReads, h.pendingWrites, h.isOpen, rfl, h.closePending, h.unshut,
    h.posted, h.reads, h.counted⟩

theorem written_eq (h : Alike p s) :
    p.written = p.closeIfPending ∧ s.written = s.closeIfPending := by
  unfold written
  rw [h.plain, h.secure]
  dsimp only
  rw [if_neg (by simp [h.unshut.1]), if_neg (by simp [h.unshut.2])]
  exact ⟨rfl, rfl⟩

theorem Alike.returned (h : Alike p s) (hp : p.Settled) (hunread : s.Unread .returned) :
    Alike p.returned s.returned := by
  unfold NativeSocket.returned
  rw [h.handler]
  rcases hp.handler with hframe | hframe | hframe <;> rw [hframe]
  · exact h
  · apply h.idle.closeIfPending
    intro hclose hopen hwrites
    rcases hp.closing hclose hopen with hpending | hwrite
    · exact absurd hwrites (Nat.pos_iff_ne_zero.mp hpending)
    · exact absurd (hframe.symm.trans hwrite) nofun
  · obtain ⟨hpw, hsw⟩ := written_eq h.idle
    dsimp only
    rw [hpw, hsw]
    apply h.idle.closeIfPending
    intro hclose hopen hwrites
    have hreads := hunread (h.handler.trans hframe) ((h.closePending hopen).trans hclose)
      (h.isOpen.trans hopen) (h.pendingWrites.trans hwrites)
    exact h.pendingReads.symm.trans hreads

theorem Alike.userStep (h : Alike p s) (hp : p.Settled) {e : NativeEvent}
    (he : e.isShutdown = false) (hunread : s.Unread e) : Alike (p.userStep e) (s.userStep e) := by
  cases e with
  | read kind => exact h.read kind
  | write => exact h.write
  | shutdown => exact absurd he nofun
  | close => exact h.close
  | returned => exact h.returned hp hunread
  | readDone | writeDone | posted => exact h

theorem Alike.step (h : Alike p s) (hp : p.Settled) {e : NativeEvent} (he : e.isShutdown = false)
    (hunread : s.Unread e) : Alike (p.step e) (s.step e) := by
  unfold NativeSocket.step
  rw [h.handler]
  split_ifs with hbusy
  · exact h.userStep hp he hunread
  · have hidle : s.handler = none := by
      rw [h.handler]
      simpa using hbusy
    cases e with
    | readDone kind ok =>
      apply h.readDone
      rintro rfl
      exact hunread hidle
    | writeDone => exact h.writeDone
    | posted =>
      simp only [loopStep, handleShutdown, h.posted.1, h.posted.2, if_true]
      exact h
    | read | write | shutdown | close | returned => exact h.userStep hp he hunread

/-- What is observed tells whether a read that was not begun was to complete, or a read has kept the
`SecureSocket` open. -/
theorem Alike.unread (h : Alike p s) {e : NativeEvent}
    (hsame : (p.step e).observed = (s.step e).observed) : s.Unread e := by
  unfold Unread
  split
  · intro hframe hclose hopen hwrites
    have hpframe := h.handler.symm.trans hframe
    have hpopen := h.isOpen.symm.trans hopen
    obtain ⟨hpw, hsw⟩ := written_eq h.idle
    have hpstep : p.step .returned = { p with handler := none }.closeIfPending := by
      unfold NativeSocket.step
      rw [hpframe]
      simp only [Option.isSome_some, if_true, NativeSocket.userStep, NativeSocket.returned, hpframe]
      exact hpw
    have hsstep : s.step .returned = { s with handler := none }.closeIfPending := by
      unfold NativeSocket.step
      rw [hframe]
      simp only [Option.isSome_some, if_true, NativeSocket.userStep, NativeSocket.returned, hframe]
      exact hsw
    rw [hpstep, hsstep] at hsame
    by_contra hreads
    have hpclose := (h.closePending hpopen).symm.trans hclose
    have hpwrites := h.pendingWrites.symm.trans hwrites
    simp [NativeSocket.closeIfPending, NativeSocket.closeNow, NativeSocket.observed, h.plain,
      h.secure, hclose, hwrites, hreads, hpclose, hpwrites, hopen] at hsame
  · rename_i ok
    intro hidle
    by_contra hcount
    have hpidle := h.handler.symm.trans hidle
    have hnot : .size ∉ s.reads := by
      rw [h.reads]
      simp
    have hmem : .size ∈ p.reads := by
      by_contra hnone
      apply hcount
      rw [h.pendingReads, h.counted, h.reads, eq_comm, List.length_filter_eq_length_iff]
      intro kind hkind
      have hne : kind ≠ .size := fun heq => hnone (heq ▸ hkind)
      simpa using hne
    have hpos : 0 < p.pendingReads := by
      rw [h.counted]
      exact List.length_pos_of_mem hmem
    have hpreads : (p.step (.readDone .size ok)).pendingReads = p.pendingReads - 1 := by
      simp [NativeSocket.step, hpidle, loopStep, NativeSocket.readDone, hmem, h.plain]
    have hsreads : (s.step (.readDone .size ok)).pendingReads = s.pendingReads := by
      simp [NativeSocket.step, hidle, loopStep, NativeSocket.readDone, hnot]
    have hequal := congrArg Prod.fst hsame
    change (p.step (.readDone .size ok)).pendingReads = (s.step (.readDone .size ok)).pendingReads
      at hequal
    rw [hpreads, hsreads, h.pendingReads] at hequal
    omega
  · trivial

/-- A socket that has not been shut down, of either class. -/
structure Unshut (s : NativeSocket) : Prop where
  shutdown : s.shutdownPending = false
  posted : s.posted = 0

theorem closeIfPending_isOpen (hunread : s.kind = .secure → s.closePending = true →
      s.isOpen = true → s.pendingWrites = 0 → s.pendingReads = 0) :
    s.closeIfPending.isOpen =
      (s.isOpen && !decide (s.closePending = true ∧ s.pendingWrites = 0)) := by
  unfold NativeSocket.closeIfPending NativeSocket.closeNow
  rcases Bool.eq_false_or_eq_true s.isOpen with hopen | hclosed
  · cases hk : s.kind with
    | plain =>
      dsimp only
      split_ifs with hnow
      · rw [decide_eq_true hnow, Bool.not_true, Bool.and_false]
      · rw [decide_eq_false hnow, hopen]
        rfl
    | secure =>
      dsimp only
      split_ifs with hnow
      · rw [decide_eq_true ⟨hnow.1, hnow.2.1⟩, Bool.not_true, Bool.and_false]
      · have hnot : ¬(s.closePending = true ∧ s.pendingWrites = 0) := by
          rintro ⟨hclose, hwrites⟩
          exact hnow ⟨hclose, hwrites, hunread hk hclose hopen hwrites⟩
        rw [decide_eq_false hnot, hopen]
        rfl
  · rw [hclosed, Bool.false_and]
    cases hk : s.kind <;> dsimp only <;> split_ifs
    · rfl
    · exact hclosed
    · rfl
    · exact hclosed

/-- What `closeIfPending` leaves as it is. -/
theorem closeIfPending_frame (s : NativeSocket) :
    s.closeIfPending.kind = s.kind ∧ s.closeIfPending.handler = s.handler ∧
    s.closeIfPending.pendingWrites = s.pendingWrites ∧
    s.closeIfPending.shutdownPending = s.shutdownPending ∧ s.closeIfPending.posted = s.posted ∧
    (s.closeIfPending.closePending = true → s.closePending = true) := by
  unfold NativeSocket.closeIfPending NativeSocket.closeNow
  cases hk : s.kind <;> dsimp only <;> split_ifs <;> simp [hk]

theorem closeIfPending_settled (hidle : s.handler = none)
    (hunread : s.kind = .secure → s.closePending = true → s.isOpen = true → s.pendingWrites = 0 →
      s.pendingReads = 0) : s.closeIfPending.Settled := by
  obtain ⟨-, hhandler, hwrites, -, -, hclose⟩ := s.closeIfPending_frame
  refine ⟨fun hpending hopen => ?_, Or.inl (hhandler.trans hidle)⟩
  rw [closeIfPending_isOpen hunread, hclose hpending] at hopen
  rw [hwrites]
  left
  by_contra hnone
  have hzero : s.pendingWrites = 0 := by omega
  simp [hzero] at hopen

theorem returned_settled (hs : s.Settled) (hunshut : s.Unshut)
    (hunread : s.kind = .secure → s.Unread .returned) :
    s.returned.Settled ∧ s.returned.Unshut ∧ s.returned.kind = s.kind ∧
    s.returned.isOpen = (s.isOpen && !s.closes .returned) := by
  have hwritten : ({ s with handler := none } : NativeSocket).written =
      ({ s with handler := none } : NativeSocket).closeIfPending := by
    unfold written
    cases hk : s.kind <;> dsimp only <;> rw [if_neg (by simp [hunshut.shutdown])]
  have hframe := closeIfPending_frame { s with handler := none }
  unfold NativeSocket.returned
  rcases hs.handler with hnone | hread | hwrite
  · rw [hnone]
    exact ⟨hs, hunshut, rfl, by simp [closes, hnone]⟩
  · have hpending : s.closePending = true → s.isOpen = true → s.pendingWrites = 0 → False := by
      intro hclose hopen hwrites
      rcases hs.closing hclose hopen with hpos | hframe
      · exact absurd hwrites (Nat.pos_iff_ne_zero.mp hpos)
      · exact absurd (hread.symm.trans hframe) nofun
    have hvacuous : s.kind = .secure → s.closePending = true → s.isOpen = true →
        s.pendingWrites = 0 → s.pendingReads = 0 := fun _ hc ho hw => (hpending hc ho hw).elim
    rw [hread]
    refine ⟨closeIfPending_settled rfl hvacuous, ⟨hframe.2.2.2.1.trans hunshut.shutdown,
      hframe.2.2.2.2.1.trans hunshut.posted⟩, hframe.1, ?_⟩
    rw [closeIfPending_isOpen (s := { s with handler := none }) hvacuous]
    have hcloses : s.closes .returned = false := by simp [closes, hread]
    rw [hcloses]
    dsimp only
    rcases Bool.eq_false_or_eq_true s.isOpen with hopen | hclosed
    · rw [decide_eq_false fun h => hpending h.1 hopen h.2]
    · rw [hclosed, Bool.false_and, Bool.false_and]
  · have hreads : s.kind = .secure → s.closePending = true → s.isOpen = true →
        s.pendingWrites = 0 → s.pendingReads = 0 := fun hk => hunread hk hwrite
    rw [hwrite]
    dsimp only
    rw [hwritten]
    refine ⟨closeIfPending_settled rfl hreads, ⟨hframe.2.2.2.1.trans hunshut.shutdown,
      hframe.2.2.2.2.1.trans hunshut.posted⟩, hframe.1, ?_⟩
    rw [closeIfPending_isOpen (s := { s with handler := none }) hreads]
    simp only [closes, hwrite, decide_true, Bool.true_and]

theorem userStep_settled (hs : s.Settled) (hunshut : s.Unshut) {e : NativeEvent}
    (he : e.isShutdown = false) (hunread : s.kind = .secure → s.Unread e) :
    (s.userStep e).Settled ∧ (s.userStep e).Unshut ∧ (s.userStep e).kind = s.kind ∧
    (s.userStep e).isOpen = (s.isOpen && !s.closes e) := by
  cases e with
  | read kind =>
    exact ⟨⟨hs.closing, hs.handler⟩, ⟨hunshut.shutdown, hunshut.posted⟩, rfl,
      (Bool.and_true _).symm⟩
  | write =>
    simp only [NativeSocket.userStep, NativeSocket.write]
    split_ifs
    · exact ⟨hs, hunshut, rfl, (Bool.and_true _).symm⟩
    · exact ⟨⟨fun _ _ => Or.inl (Nat.succ_pos _), hs.handler⟩, ⟨hunshut.shutdown, hunshut.posted⟩,
        rfl, (Bool.and_true _).symm⟩
  | shutdown => exact absurd he nofun
  | close =>
    simp only [NativeSocket.userStep, NativeSocket.close]
    split_ifs with hpending
    · refine ⟨⟨fun _ _ => Or.inl hpending, hs.handler⟩, ⟨hunshut.shutdown, hunshut.posted⟩, rfl, ?_⟩
      simp only [closes, decide_eq_false (Nat.pos_iff_ne_zero.mp hpending), Bool.not_false,
        Bool.and_true]
    · have hnone : s.pendingWrites = 0 := by omega
      unfold NativeSocket.closeNow
      cases hk : s.kind <;>
        exact ⟨⟨nofun, hs.handler⟩, ⟨hunshut.shutdown, hunshut.posted⟩, by simp,
          by simp [closes, hnone]⟩
  | returned => exact returned_settled hs hunshut hunread
  | readDone | writeDone | posted => exact ⟨hs, hunshut, rfl, (Bool.and_true _).symm⟩

/-- A socket that is not shut down is closed in time by every step, a `SecureSocket` where no read is
in the way. -/
theorem settled_step (hs : s.Settled) (hunshut : s.Unshut) {e : NativeEvent}
    (he : e.isShutdown = false) (hunread : s.kind = .secure → s.Unread e) :
    (s.step e).Settled ∧ (s.step e).Unshut ∧ (s.step e).kind = s.kind ∧ s.Deferred e := by
  unfold Deferred NativeSocket.step
  split_ifs with hbusy
  · exact userStep_settled hs hunshut he hunread
  · have hidle : s.handler = none := by simpa using hbusy
    cases e with
    | readDone kind ok =>
      simp only [loopStep, NativeSocket.readDone]
      split_ifs with hmem hleaves
      · exact absurd hleaves (by simp [hunshut.shutdown])
      · refine ⟨⟨fun hclose hopen => ?_, Or.inr (Or.inl rfl)⟩, ⟨hunshut.shutdown, hunshut.posted⟩,
          rfl, (Bool.and_true _).symm⟩
        rcases hs.closing hclose hopen with hpos | hwrite
        · exact Or.inl hpos
        · exact absurd (hidle.symm.trans hwrite) nofun
      · exact ⟨hs, hunshut, rfl, (Bool.and_true _).symm⟩
    | writeDone =>
      simp only [loopStep, NativeSocket.writeDone]
      split_ifs
      · exact ⟨hs, hunshut, rfl, (Bool.and_true _).symm⟩
      · exact ⟨⟨fun _ _ => Or.inr rfl, Or.inr (Or.inr rfl)⟩, ⟨hunshut.shutdown, hunshut.posted⟩,
          rfl, (Bool.and_true _).symm⟩
    | posted =>
      have hsame : s.loopStep .posted = s := if_pos hunshut.posted
      rw [hsame]
      exact ⟨hs, hunshut, rfl, (Bool.and_true _).symm⟩
    | read | write | shutdown | close | returned => exact userStep_settled hs hunshut he hunread

theorem fresh_settled (kind : NativeClass) : (fresh kind).Settled ∧ (fresh kind).Unshut :=
  ⟨⟨nofun, Or.inl rfl⟩, ⟨rfl, rfl⟩⟩

theorem fresh_alike : Alike (fresh .plain) (fresh .secure) :=
  ⟨rfl, rfl, rfl, rfl, rfl, rfl, fun _ => rfl, ⟨rfl, rfl⟩, ⟨rfl, rfl⟩, rfl, rfl⟩

/-- In every run a socket of a kind closes in time, a `SecureSocket` where no read is in the way. -/
theorem deferred_run (hs : s.Settled) (hunshut : s.Unshut) {es : List NativeEvent}
    (hes : ∀ e ∈ es, e.isShutdown = false)
    (hunread : s.kind = .secure → Guarded step Unread s es) : Guarded step Deferred s es := by
  induction es generalizing s with
  | nil => trivial
  | cons e es ih =>
    obtain ⟨he, hes⟩ := List.forall_mem_cons.mp hes
    obtain ⟨hsettled, hnext, hkind, hdeferred⟩ :=
      settled_step hs hunshut he fun hk => (hunread hk).1
    exact ⟨hdeferred, ih hsettled hnext hes fun hk => (hunread (hkind.symm.trans hk)).2⟩

/-- The two classes look the same in every state as long as no read is in the way. -/
theorem observed_run_iff (h : Alike p s) (hp : p.Settled) {es : List NativeEvent}
    (hes : ∀ e ∈ es, e.isShutdown = false) :
    (statesOf step p es).map observed = (statesOf step s es).map observed ↔
      Guarded step Unread s es := by
  induction es generalizing p s with
  | nil => simp [statesOf, h.observed]
  | cons e es ih =>
    obtain ⟨he, hes⟩ := List.forall_mem_cons.mp hes
    have hhead : (statesOf step (p.step e) es).map observed =
        (statesOf step (s.step e) es).map observed →
        (p.step e).observed = (s.step e).observed := by
      intro hmap
      cases es <;> exact (List.cons.inj hmap).1
    have hsettled := (settled_step hp ⟨h.unshut.1, h.posted.1⟩ he
      fun hk => absurd (h.plain.symm.trans hk) (by simp)).1
    simp only [statesOf, List.map_cons, guarded_cons, h.observed, List.cons.injEq, true_and]
    constructor
    · intro hmap
      have hunread := h.unread (hhead hmap)
      exact ⟨hunread, (ih (h.step hp he hunread) hsettled hes).mp hmap⟩
    · rintro ⟨hunread, hrest⟩
      exact (ih (h.step hp he hunread) hsettled hes).mpr hrest

/-- In every run without a shutdown a plain socket is closed at the completion of the last pending
write and not earlier. A `SecureSocket` looks the same as a plain one in every state, and is then
closed in time too, exactly as long as no read is pending when that write completes. -/
theorem deferred_close (es : List NativeEvent) (hes : ∀ e ∈ es, e.isShutdown = false) :
    Guarded step Deferred (fresh .plain) es ∧
    ((statesOf step (fresh .plain) es).map observed =
        (statesOf step (fresh .secure) es).map observed ↔
      Guarded step Unread (fresh .secure) es) ∧
    (Guarded step Unread (fresh .secure) es → Guarded step Deferred (fresh .secure) es) := by
  obtain ⟨hplain, hunshut⟩ := fresh_settled .plain
  obtain ⟨hsecure, hunshut'⟩ := fresh_settled .secure
  refine ⟨deferred_run hplain hunshut hes nofun, observed_run_iff fresh_alike hplain hes, ?_⟩
  exact fun h => deferred_run hsecure hunshut' hes fun _ => h

/-- A close between a write and its completion, the read done before. -/
def idleClose : List NativeEvent :=
  [.read .some, .write, .readDone .some true, .returned, .close, .writeDone, .returned]

theorem deferred_close_idle :
    Guarded step Deferred (fresh .plain) idleClose ∧
    ((statesOf step (fresh .plain) idleClose).map observed =
        (statesOf step (fresh .secure) idleClose).map observed ↔
      Guarded step Unread (fresh .secure) idleClose) ∧
    (Guarded step Unread (fresh .secure) idleClose →
      Guarded step Deferred (fresh .secure) idleClose) :=
  deferred_close idleClose (by decide)

/-- A read is outstanding when the last write completes: the `SecureSocket` stays open. -/
theorem read_keeps_open :
    ¬ ∀ es : List NativeEvent, (∀ e ∈ es, e.isShutdown = false) →
      Guarded step Deferred (fresh .secure) es ∧
      (statesOf step (fresh .plain) es).map observed =
        (statesOf step (fresh .secure) es).map observed := by
  intro h
  have hrun := (h [.read .some, .write, .close, .writeDone, .returned] (by decide)).1
  revert hrun
  decide

end NativeSocket

end LuaNode.Net
