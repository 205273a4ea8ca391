import LuaNode.Net.Reading

/-!
# `pause`

`pause` only sets `_paused`, which `connect_callback` looks at and `onread` does not: after its
listeners it begins the next read also when they have paused the socket. Where it comes to that in no
step, the read that is outstanding when the socket is paused is the last one.
-/

namespace LuaNode.Net.Connection

variable {s t u : Connection} {h : ℕ}

/-- Since `s` no read has begun, and one string at most has been delivered, that of the read that was
outstanding on `_handle`. -/
structure Stopped (s t : Connection) : Prop where
  begun : ∀ h, (t.handles h).readsBegun = (s.handles h).readsBegun
  one : ∀ h, (s.handles h).reads.length ≤ 1
  last : ∀ h, s.handle = some h → (t.handles h).delivered = (s.handles h).delivered ∨
    (t.handles h).delivered = (s.handles h).delivered ++ (s.handles h).reads
  others : ∀ h, s.handle ≠ some h → (t.handles h).delivered = (s.handles h).delivered

/-! ### The handle of a later state -/

/-- The handle is that of the earlier state, or has been made since. -/
structure Succeeds (s t : Connection) : Prop where
  made : s.made ≤ t.made
  handle : ∀ h, t.handle = some h → s.handle = some h ∨ s.made ≤ h

theorem Succeeds.refl (s : Connection) : s.Succeeds s := ⟨le_rfl, fun _ => Or.inl⟩

theorem Succeeds.trans (hst : s.Succeeds t) (htu : t.Succeeds u) : s.Succeeds u := by
  refine ⟨hst.made.trans htu.made, fun h hh => ?_⟩
  rcases htu.handle h hh with ht | hlater
  · exact hst.handle h ht
  · exact Or.inr (hst.made.trans hlater)

theorem Keeps.succeeds (hk : Keeps s t) : s.Succeeds t := by
  refine ⟨hk.made.ge, fun h hh => ?_⟩
  obtain ⟨-, -, -, hhandle⟩ | ⟨-, -, -, -, hhandle⟩ := hk.cases
  · exact Or.inl (hhandle ▸ hh)
  · exact absurd (hhandle.symm.trans hh) nofun

theorem succeeds_makeHandle (s : Connection) : s.Succeeds s.makeHandle := by
  refine ⟨Nat.le_succ _, fun h hh => ?_⟩
  obtain rfl := Option.some.inj hh
  exact Or.inr le_rfl

theorem succeeds_dial (s : Connection) (error : Option Str) : s.Succeeds (s.dial error) := by
  cases error with
  | some message => exact (Keeps.destroy s _).succeeds
  | none =>
    unfold dial
    dsimp only
    split <;> exact ⟨le_rfl, fun _ => Or.inl⟩

theorem succeeds_drainConnectQueue (ht : s.drainConnectQueue = some t) : s.Succeeds t := by
  obtain ⟨queue, -, ⟨-, rfl⟩ | ⟨h, -, ⟨-, rfl⟩ | ⟨data, rest, -, -, rfl⟩⟩⟩ :=
    drainConnectQueue_cases ht <;> exact ⟨le_rfl, fun _ => Or.inl⟩

theorem Begins.succeeds {e : ConnectionEvent} (hws : s.Wf) (hb : Begins s e t) : s.Succeeds t := by
  have hsame : ∀ u : Connection, u.made = s.made → u.handle = s.handle → s.Succeeds u :=
    fun u hmade hhandle => ⟨hmade.ge, fun h hh => Or.inl (hhandle ▸ hh)⟩
  cases hb with
  | nothing | pause | rearm | finishNow | undrained | lookupFailed | late => exact hsame _ rfl rfl
  | destroy error => exact (Keeps.destroy s error).succeeds
  | write asked taken =>
    obtain ⟨-, rfl⟩ | ⟨-, h, -, ⟨-, rfl⟩ | ⟨-, rfl⟩⟩ := write_cases taken <;> exact hsame _ rfl rfl
  | secured handle plain =>
    refine ⟨Nat.le_succ _, fun k hk => ?_⟩
    obtain rfl := Option.some.inj hk
    exact Or.inr le_rfl
  | @completed h k data ended alive =>
    obtain ⟨g, hhandle⟩ := hws.handle_of_outstanding alive ended
    obtain ⟨-, heq⟩ | ⟨first, rest, -, ⟨-, heq⟩ | ⟨-, heq⟩⟩ := advance_cases (s := s.onHandle h
        fun x => { x with native := x.native.complete k data }) hhandle <;>
      dsimp only <;> rw [heq] <;> exact hsame _ rfl rfl
  | failed ended alive => exact (hsame (s.onHandle _ _) rfl rfl).trans (Keeps.destroy _ _).succeeds
  | eof taken handle callback first writable idle =>
    exact ((Keeps.atEof s _ _).trans (Keeps.destroy _ none)).succeeds
  | raised frame | unfound frame =>
    exact (hsame { s with waiting := none } rfl rfl).trans (Keeps.destroy _ _).succeeds
  | drained frame drained =>
    exact (hsame { s with waiting := none, drains := s.drains - 1 } rfl rfl).trans
      (succeeds_drainConnectQueue drained)
  | @found i error pending connecting =>
    have hlooked := hsame { s with lookups := s.lookups.erase i } rfl rfl
    dsimp only
    split_ifs
    · exact (hlooked.trans (succeeds_makeHandle _)).trans (succeeds_dial _ error)
    · exact hlooked.trans (succeeds_dial _ error)
  | @connected h idle begun callback handle alive =>
    obtain ⟨-, heq⟩ | ⟨-, -, heq⟩ | ⟨-, -, heq⟩ :=
      connected_cases (s := { s.takeConnect h with connecting := false }) handle
    · rw [heq]
      exact hsame _ rfl rfl
    · rw [heq]
      exact hsame _ rfl rfl
    · exact (hsame { s.takeConnect h with connecting := false, readable := true } rfl rfl).trans
        (succeeds_drainConnectQueue heq)
  | unconnected begun callback handle alive =>
    exact (hsame (s.takeConnect _) rfl rfl).trans (Keeps.destroy _ _).succeeds

theorem succeeds_connect (s : Connection) (host : Bool) (error : Option Str) :
    s.Succeeds (s.connect host error) := by
  unfold Connection.connect
  dsimp only
  split_ifs
  · exact ⟨le_rfl, fun _ => Or.inl⟩
  · exact Succeeds.trans ⟨Nat.le_succ _, fun h hh => Or.inr (Option.some.inj hh).le⟩
      (succeeds_dial _ error)

/-! ### While the socket is paused -/

theorem Quiet.paused (hq : Quiet s t) (ht : t.paused = true) : s.paused = true := by
  have hdestroy : ∀ (u : Connection) (error : Option Str), (u.destroy error).paused = u.paused := by
    intro u error
    rcases Bool.eq_false_or_eq_true u.destroyed with hgone | halive
    · obtain ⟨posted, emitted, heq⟩ := destroy_again hgone error
      rw [heq]
    · obtain ⟨posted, emitted, heq⟩ := destroy_eq halive error
      rw [heq]
  cases hq with
  | unpause => cases ht
  | shutdownFailed handle flag failed => exact (hdestroy (s.onHandle _ _) _).symm.trans ht
  | destroyIdle | destroyShut => exact (hdestroy s none).symm.trans ht
  | _ => exact ht

/-- What happens to the reads of one handle while none begins. -/
inductive Still (p : Progress) : Progress → Prop
  | waits {q : Progress} (begun : q.begun = p.begun) (delivered : q.delivered = p.delivered)
      (reads : q.reads = p.reads ∨ q.reads = []) : Still p q
  | last {q : Progress} (begun : q.begun = p.begun) (delivered : q.delivered = p.delivered ++ p.reads)
      (reads : q.reads = []) : Still p q

/-- What holds while a socket stays paused, since `s`. -/
structure Since (s t : Connection) : Prop where
  wf : t.Wf
  reading : t.Reading
  succeeds : s.Succeeds t
  still : ∀ h, Still (s.progress h) (t.progress h)
  others : ∀ h, s.handle ≠ some h → (t.progress h).delivered = (s.progress h).delivered

/-- A read that completes was outstanding from the beginning. -/
theorem Still.of_taken {p q : Progress} (hp : Still p q) (hq : q.Sequential) {k n : ℕ}
    (htaken : q.reads[k]? = some n) :
    q.begun = p.begun ∧ q.delivered = p.delivered ∧ p.reads = [n] ∧ k = 0 := by
  obtain ⟨hone, hk, -, -⟩ := hq.taken htaken
  cases hp with
  | waits begun delivered reads =>
    rcases reads with hsame | hnone
    · exact ⟨begun, delivered, hsame.symm.trans hone, hk⟩
    · exact absurd (hone.symm.trans hnone) nofun
  | last begun delivered reads => exact absurd (hone.symm.trans reads) nofun

theorem Still.drop {p q : Progress} (hp : Still p q) (hq : q.Sequential) {k n : ℕ}
    (htaken : q.reads[k]? = some n) : Still p (q.drop k) := by
  obtain ⟨hbegun, hdelivered, -, rfl⟩ := hp.of_taken hq htaken
  have hone := (hq.taken htaken).1
  exact .waits hbegun hdelivered (Or.inr (by simp [Progress.drop, hone]))

theorem Still.deliver {p q : Progress} (hp : Still p q) (hq : q.Sequential) {k n : ℕ}
    (htaken : q.reads[k]? = some n) : Still p (q.deliver k n) := by
  obtain ⟨hbegun, hdelivered, hreads, rfl⟩ := hp.of_taken hq htaken
  have hone := (hq.taken htaken).1
  exact .last hbegun (by simp [Progress.deliver, hdelivered, hreads]) (by simp [Progress.deliver, hone])

theorem Since.same (hs : Since s t) (hwf : u.Wf) (hsucceeds : t.Succeeds u)
    (heq : u.progress = t.progress) : Since s u := by
  refine ⟨hwf, hs.reading.of_same heq, hs.succeeds.trans hsucceeds, ?_, ?_⟩
  · rw [heq]
    exact hs.still
  · rw [heq]
    exact hs.others

theorem Since.move (hs : Since s t) (hws : s.Wf) (hwf : u.Wf) (hsucceeds : t.Succeeds u)
    {rearmed : Prop} (hm : t.Reads rearmed u) (hpaused : t.paused = true) (hnot : ¬ rearmed) :
    Since s u := by
  have hreading := hs.reading.reads hm
  cases hm with
  | same eq => exact hs.same hwf hsucceeds eq
  | read handle idle why eq =>
    rcases why with hflowing | hrearmed
    · exact absurd (hflowing.symm.trans hpaused) nofun
    · exact absurd hrearmed hnot
  | @drop h k n taken eq =>
    refine ⟨hwf, hreading, hs.succeeds.trans hsucceeds, fun g => ?_, fun g hg => ?_⟩
    all_goals
      rw [eq]
      by_cases hgh : g = h
    · subst hgh
      rw [Function.update_self]
      exact (hs.still g).drop (hs.reading g) taken
    · rw [Function.update_of_ne hgh]
      exact hs.still g
    · subst hgh
      rw [Function.update_self]
      exact hs.others g hg
    · rw [Function.update_of_ne hgh]
      exact hs.others g hg
  | @deliver h k n taken handle eq =>
    refine ⟨hwf, hreading, hs.succeeds.trans hsucceeds, fun g => ?_, fun g hg => ?_⟩
    all_goals
      rw [eq]
      by_cases hgh : g = h
    · subst hgh
      rw [Function.update_self]
      exact (hs.still g).deliver (hs.reading g) taken
    · rw [Function.update_of_ne hgh]
      exact hs.still g
    · -- a handle made since `s` has had no read
      subst hgh
      have hlater := (hs.succeeds.handle g handle).resolve_left hg
      obtain ⟨-, -, hreads, -⟩ := (hs.still g).of_taken (hs.reading g) taken
      simp [progress, hws.unmade g hlater, Handle.progress, Handle.new] at hreads
    · rw [Function.update_of_ne hgh]
      exact hs.others g hg

theorem Since.quiets (hs : Since s t) (hws : s.Wf) (hq : Quiets t u) (hpaused : u.paused = true) :
    Since s u := by
  induction hq with
  | refl => exact hs
  | @tail v w hquiets hlast ih =>
    have hv := hlast.paused hpaused
    have hsince := ih hv
    exact hsince.move hws (hsince.wf.quiet hlast) hlast.keeps.succeeds (hlast.reads False) hv id

/-- Where `onread` re-arms, a read begins. -/
theorem begun_of_rearms {e : ConnectionEvent} (hrearms : s.rearms e = true) :
    ∃ h, ((s.step e).handles h).readsBegun = (s.handles h).readsBegun + 1 := by
  unfold rearms at hrearms
  split at hrearms
  · next error =>
    split at hrearms
    · next g h hwaiting hhandle =>
      simp only [Bool.and_eq_true, Bool.not_eq_true'] at hrearms
      obtain ⟨hreadable, hidle⟩ := hrearms
      refine ⟨h, ?_⟩
      have hstep : s.step (.returned none error) =
          (({ s with waiting := none } : Connection).onHandle h Handle.read).closeIfPending g := by
        rw [step_returned]
        unfold returned
        rw [hwaiting]
        dsimp only
        unfold afterData readOnce
        simp only [hreadable, hhandle, hidle, if_true, Option.isSome_none, Bool.false_eq_true, if_false]
      have hbegun : ((({ s with waiting := none } : Connection).onHandle h
          Handle.read).closeIfPending g).progress h = (s.progress h).read := by
        have hclose : ((({ s with waiting := none } : Connection).onHandle h
            Handle.read).closeIfPending g).progress = _ :=
          progress_onHandle_same _ (closeIfPending_progress _)
        rw [hclose, progress_onHandle, Function.update_self]
        rfl
      rw [hstep]
      exact congrArg Progress.begun hbegun
    · cases hrearms
  · cases hrearms

theorem Since.step (hs : Since s t) (hws : s.Wf) {e : ConnectionEvent} (hpaused : t.paused = true)
    (hnext : (t.step e).paused = true) (hnot : t.rearms e = false) : Since s (t.step e) := by
  rcases connect_or e with ⟨host, error, rfl⟩ | he
  · rw [step_connect]
    exact hs.same (hs.wf.connect host error) (succeeds_connect t host error)
      (progress_connect hs.wf host error)
  · obtain ⟨u, hbegins, hquiets⟩ := step_comes hs.wf he
    have hbegun := hs.move hws (hs.wf.begins hbegins) (hbegins.succeeds hs.wf)
      (hbegins.reads hs.wf) hpaused (by simp [hnot])
    exact hbegun.quiets hws hquiets hnext

theorem Since.stopped (hs : Since s t) (hr : s.Reading) : Stopped s t := by
  refine ⟨fun h => ?_, fun h => ?_, fun h _ => ?_, hs.others⟩
  · cases hs.still h with
    | waits begun delivered reads => exact begun
    | last begun delivered reads => exact begun
  · have hone : (s.handles h).reads = [] ∨ (s.handles h).reads = [(s.handles h).delivered.length] :=
      (hr h).one
    rcases hone with hnone | hone
    · simp [hnone]
    · simp [hone]
  · cases hs.still h with
    | waits begun delivered reads => exact Or.inl delivered
    | last begun delivered reads => exact Or.inr delivered

/-- No read begins while a socket is paused, and the one that was outstanding is the last to deliver
a string, exactly as long as `onread` does not come to its end with the handle idle. -/
theorem pause_stops_flow_iff {s₀ : Connection} (hs : Made s₀) (before : List ConnectionEvent)
    {after : List ConnectionEvent}
    (hpaused : ∀ t ∈ statesOf step (run step s₀ (before ++ [.pause])) after, t.paused = true) :
    (∀ t ∈ statesOf step (run step s₀ (before ++ [.pause])) after,
      Stopped (run step s₀ (before ++ [.pause])) t) ↔
    Guarded step (fun t e => t.rearms e = false) (run step s₀ (before ++ [.pause])) after := by
  have hreach : (run step s₀ (before ++ [.pause])).Wf ∧ (run step s₀ (before ++ [.pause])).Reading :=
    run_invariant (I := fun u : Connection => u.Wf ∧ u.Reading)
      (fun _ e h => ⟨h.1.step e, h.2.step h.1 e⟩) ⟨hs.wf, hs.reading⟩ _
  generalize run step s₀ (before ++ [.pause]) = s at hpaused hreach ⊢
  obtain ⟨hws, hr⟩ := hreach
  constructor
  · intro hstopped
    refine guarded_imp (I := fun _ => True) (fun _ _ _ _ => trivial) ?_ trivial
      (guarded_of_states hstopped)
    rintro t e - ⟨ht, hnext⟩
    by_contra hrearms
    obtain ⟨h, hbegun⟩ := begun_of_rearms (by simpa using hrearms)
    have hsame := (hnext.begun h).trans (ht.begun h).symm
    omega
  · intro hguarded t ht
    have hstart : Since s s := ⟨hws, hr, .refl s, fun _ => .waits rfl rfl (Or.inl rfl), fun _ _ => rfl⟩
    have hsince : Since s t := by
      refine guarded_states_invariant (I := Since s) ?_ hstart
        (guarded_and hguarded (guarded_of_states hpaused)) ht
      rintro u e hu ⟨hrearms, hpaused, hnext⟩
      exact hu.step hws hpaused hnext hrearms
    exact hsince.stopped hr

/-- A socket that is paused before its read completes, and whose listener of 'data' raises. -/
theorem pause_stops_raising :
    (∀ t ∈ statesOf step (run step (fresh false false)
        ([.connect false none, .handleConnect 0 none, .returned none none] ++ [.pause]))
        [.handleRead 0 0 true, .returned (some []) none, .tick],
      Stopped (run step (fresh false false)
        ([.connect false none, .handleConnect 0 none, .returned none none] ++ [.pause])) t) ↔
    Guarded step (fun t e => t.rearms e = false) (run step (fresh false false)
        ([.connect false none, .handleConnect 0 none, .returned none none] ++ [.pause]))
        [.handleRead 0 0 true, .returned (some []) none, .tick] :=
  pause_stops_flow_iff (.fresh false false) _ (by decide)

/-- A listener of 'data' pauses the socket, and the next string is read and delivered. -/
theorem pause_in_listener_reads_on :
    let s := run step (fresh false false)
      [.connect false none, .handleConnect 0 none, .returned none none, .handleRead 0 0 true, .pause]
    let t := run step s [.returned none none, .handleRead 0 0 true]
    (s.handles 0).delivered = [0] ∧ (s.handles 0).reads = [] ∧ t.paused = true ∧
      (t.handles 0).delivered = [0, 1] := by
  decide

end LuaNode.Net.Connection
