import LuaNode.Net.Calm

/-!
# The reads of a handle

`reading` is set before every `read` and reset by `onread` when a string has come, so at most one read
is outstanding on a handle, and it is the one after those that have been delivered. At the end of what
the peer sends `reading` stays set, and so there is no read that could end a second time.
-/

namespace LuaNode.Net

/-- What a handle has read. -/
structure Progress where
  reading : Bool
  reads : List ℕ
  begun : ℕ
  delivered : List ℕ

namespace Progress

variable {p : Progress}

def read (p : Progress) : Progress :=
  { p with reading := true, reads := p.reads ++ [p.begun], begun := p.begun + 1 }

/-- A read has completed, and its string is not delivered. -/
def drop (p : Progress) (k : ℕ) : Progress := { p with reads := p.reads.eraseIdx k }

def deliver (p : Progress) (k n : ℕ) : Progress :=
  { p with
    reading := false
    reads := p.reads.eraseIdx k
    delivered := p.delivered ++ [n] }

/-- The reads come one after another. -/
structure Sequential (p : Progress) : Prop where
  idle : p.reading = false → p.reads = [] ∧ p.begun = p.delivered.length
  busy : p.reading = true →
    p.begun = p.delivered.length + 1 ∧ (p.reads = [] ∨ p.reads = [p.delivered.length])
  order : p.delivered = List.range p.delivered.length

theorem Sequential.one (hp : p.Sequential) : p.reads = [] ∨ p.reads = [p.delivered.length] := by
  rcases Bool.eq_false_or_eq_true p.reading with hreading | hidle
  · exact (hp.busy hreading).2
  · exact Or.inl (hp.idle hidle).1

/-- The read that completes is the only one. -/
theorem Sequential.taken (hp : p.Sequential) {k n : ℕ} (htaken : p.reads[k]? = some n) :
    p.reads = [n] ∧ k = 0 ∧ n = p.delivered.length ∧ p.reading = true := by
  have hne : p.reads ≠ [] := by
    intro hnone
    simp [hnone] at htaken
  have hone := hp.one.resolve_left hne
  have hlt := (List.getElem?_eq_some_iff.mp htaken).1
  rw [hone] at htaken hlt
  obtain rfl : k = 0 := by simpa using hlt
  have hn : p.delivered.length = n := by simpa using htaken
  refine ⟨hn ▸ hone, rfl, hn.symm, ?_⟩
  by_contra hidle
  exact hne (hp.idle (by simpa using hidle)).1

theorem Sequential.read (hp : p.Sequential) (hidle : p.reading = false) : p.read.Sequential := by
  obtain ⟨hnone, hbegun⟩ := hp.idle hidle
  refine ⟨nofun, fun _ => ?_, hp.order⟩
  simp [Progress.read, hnone, hbegun]

theorem Sequential.drop (hp : p.Sequential) {k n : ℕ} (htaken : p.reads[k]? = some n) :
    (p.drop k).Sequential := by
  obtain ⟨hone, rfl, -, hreading⟩ := hp.taken htaken
  refine ⟨fun hidle => absurd (hidle.symm.trans hreading) nofun, fun _ => ⟨(hp.busy hreading).1, ?_⟩,
    hp.order⟩
  simp [Progress.drop, hone]

theorem Sequential.deliver (hp : p.Sequential) {k n : ℕ} (htaken : p.reads[k]? = some n) :
    (p.deliver k n).Sequential := by
  obtain ⟨hone, rfl, rfl, hreading⟩ := hp.taken htaken
  refine ⟨fun _ => ?_, nofun, ?_⟩
  · simp [Progress.deliver, hone, (hp.busy hreading).1]
  · simp only [Progress.deliver, List.length_append, List.length_singleton, List.range_succ]
    rw [← hp.order]

end Progress

def Handle.progress (x : Handle) : Progress := ⟨x.reading, x.reads, x.readsBegun, x.delivered⟩

def ConnectionEvent.isSetSecure : ConnectionEvent → Bool
  | .setSecure => true
  | _ => false

namespace Connection

variable {s t u : Connection}

def progress (s : Connection) (h : ℕ) : Progress := (s.handles h).progress

/-- The listeners of 'data' return and `onread` begins the next read. -/
def rearms (s : Connection) : ConnectionEvent → Bool
  | .returned none _ =>
    match s.waiting, s.handle with
    | some (.data _), some h => s.readable && !(s.handles h).reading
    | _, _ => false
  | _ => false

/-- What a move does to the reads, and why a read may begin. -/
inductive Reads (s : Connection) (rearmed : Prop) (t : Connection) : Prop
  | same (eq : t.progress = s.progress)
  | read {h : ℕ} (handle : s.handle = some h) (idle : (s.progress h).reading = false)
      (why : s.paused = false ∨ rearmed) (eq : t.progress = Function.update s.progress h (s.progress h).read)
  | drop {h k n : ℕ} (taken : (s.progress h).reads[k]? = some n)
      (eq : t.progress = Function.update s.progress h ((s.progress h).drop k))
  | deliver {h k n : ℕ} (taken : (s.progress h).reads[k]? = some n) (handle : s.handle = some h)
      (eq : t.progress = Function.update s.progress h ((s.progress h).deliver k n))

/-! ### What is done to the reads -/

theorem progress_onHandle (s : Connection) (h : ℕ) (f : Handle → Handle) :
    (s.onHandle h f).progress = Function.update s.progress h (f (s.handles h)).progress := by
  funext k
  by_cases hk : k = h
  · subst hk
    simp [progress]
  · simp [progress, onHandle_other s hk, hk]

theorem progress_onHandle_same (s : Connection) {h : ℕ} {f : Handle → Handle}
    (hf : (f (s.handles h)).progress = (s.handles h).progress) :
    (s.onHandle h f).progress = s.progress := by
  rw [progress_onHandle, hf]
  exact Function.update_eq_self h s.progress

theorem progress_destroy (s : Connection) (error : Option Str) :
    (s.destroy error).progress = s.progress := by
  rcases Bool.eq_false_or_eq_true s.destroyed with hgone | halive
  · obtain ⟨posted, emitted, heq⟩ := destroy_again hgone error
    rw [heq]
    rfl
  · obtain ⟨posted, emitted, heq⟩ := destroy_eq halive error
    rw [heq]
    funext k
    exact closeHandle_keeps s Handle.progress (fun _ => rfl) k

/-- A handle that is made has read nothing. -/
theorem progress_next (hws : s.Wf) (secure hasReadCallback : Bool) :
    (fun k => (Function.update s.handles s.made (.new secure hasReadCallback) k).progress) =
      s.progress := by
  funext k
  by_cases hk : k = s.made
  · subst hk
    rw [Function.update_self, progress, hws.unmade _ le_rfl]
    rfl
  · rw [Function.update_of_ne hk]
    rfl

theorem progress_makeHandle (hws : s.Wf) : s.makeHandle.progress = s.progress :=
  progress_next hws false true

theorem progress_dial (s : Connection) (error : Option Str) : (s.dial error).progress = s.progress := by
  cases error with
  | some message => exact progress_destroy s _
  | none =>
    unfold dial
    dsimp only
    split
    · rfl
    · exact progress_onHandle_same s rfl

theorem progress_connect (hws : s.Wf) (host : Bool) (error : Option Str) :
    (s.connect host error).progress = s.progress := by
  unfold Connection.connect
  dsimp only
  split_ifs
  · rfl
  · refine (progress_dial _ error).trans (progress_makeHandle (s := { s with
      connecting := true
      writable := true
      base := s.made
      connects := s.connects + 1
      written := []
      handed := [] }) ?_)
    exact hws.congr rfl

theorem progress_give (s : Connection) (h : ℕ) (data : Str) : (s.give h data).progress = s.progress :=
  progress_onHandle_same s (f := fun x => { x with native := (x.native.write data).2 }) rfl

theorem progress_write {data : Str} (ht : s.write data = some t) : t.progress = s.progress := by
  obtain ⟨-, rfl⟩ | ⟨-, h, -, ⟨-, rfl⟩ | ⟨-, rfl⟩⟩ := write_cases ht
  · rfl
  · rfl
  · exact progress_give s h data

theorem progress_advance {g : ℕ} (hhandle : s.handle = some g) : s.advance.progress = s.progress := by
  obtain ⟨-, heq⟩ | ⟨data, rest, -, ⟨-, heq⟩ | ⟨-, heq⟩⟩ := advance_cases hhandle <;> rw [heq]
  · rfl
  · exact progress_give { s with writeQueue := rest } g data

theorem progress_drainConnectQueue (ht : s.drainConnectQueue = some t) : t.progress = s.progress := by
  obtain ⟨queue, -, ⟨-, rfl⟩ | ⟨h, -, ⟨-, rfl⟩ | ⟨data, rest, -, -, rfl⟩⟩⟩ :=
    drainConnectQueue_cases ht
  · rfl
  · rfl
  · exact progress_give s h data

theorem shutdown_progress (x : Handle) (error : Option Str) :
    (x.shutdown error).2.progress = x.progress := by
  unfold Handle.shutdown
  split_ifs <;> rfl

theorem closeIfPending_progress (x : Handle) : x.closeIfPending.progress = x.progress := by
  unfold Handle.closeIfPending
  split_ifs <;> rfl

theorem progress_takeRead (s : Connection) (h k : ℕ) :
    (s.takeRead h k).progress = Function.update s.progress h ((s.progress h).drop k) :=
  progress_onHandle s h _

theorem Quiet.reads (hq : Quiet s t) (rearmed : Prop) : s.Reads rearmed t := by
  cases hq with
  | unpause | secure | shut | finishLater | soon | shutdown | fail | wait | emit | lookedUp =>
    exact .same rfl
  | @read h handle connected idle flowing =>
    exact .read handle idle (Or.inl flowing) (progress_onHandle s h Handle.read)
  | @shutdownHandle h error handle flag done =>
    exact .same (progress_onHandle_same s (shutdown_progress _ error))
  | @shutdownFailed h error message handle flag failed =>
    exact .same ((progress_destroy _ _).trans (progress_onHandle_same s (shutdown_progress _ error)))
  | destroyIdle | destroyShut => exact .same (progress_destroy s none)
  | @dropRead h k n taken deaf | @eof h k n taken handle first writable
  | @eofAgain h k n taken handle again => exact .drop taken (progress_takeRead s h k)
  | @data h k n taken handle callback =>
    refine .deliver taken handle ?_
    change ((s.takeRead h k).onHandle h fun x =>
      { x with reading := false, delivered := x.delivered ++ [n] }).progress = _
    rw [progress_onHandle, progress_takeRead, Function.update_idem]
    simp [takeRead, Progress.deliver, Handle.progress, progress]
  | closePending h => exact .same (progress_onHandle_same s (closeIfPending_progress _))
  | sendShut | shutdownDone | handshake | handshakeDone | dialed | called =>
    exact .same (progress_onHandle_same s rfl)

theorem Begins.reads {e : ConnectionEvent} (hws : s.Wf) (hb : Begins s e t) :
    s.Reads (s.rearms e = true) t := by
  cases hb with
  | nothing | pause | finishNow | undrained | lookupFailed => exact .same rfl
  | destroy error => exact .same (progress_destroy s error)
  | write asked taken => exact .same (progress_write taken)
  | @secured h handle plain => exact .same (progress_next hws true (s.handles h).hasReadCallback)
  | @completed h k data ended alive =>
    obtain ⟨g, hhandle⟩ := hws.handle_of_outstanding alive ended
    have hcomplete : (s.onHandle h fun x =>
        { x with native := x.native.complete k data }).progress = s.progress :=
      progress_onHandle_same s rfl
    exact .same ((progress_advance (by exact hhandle)).trans hcomplete)
  | late ended gone => exact .same (progress_onHandle_same s rfl)
  | failed ended alive => exact .same ((progress_destroy _ _).trans (progress_onHandle_same s rfl))
  | @eof h k n taken handle callback first writable idle =>
    exact .drop taken ((progress_destroy _ none).trans (progress_takeRead s h k))
  | @rearm g h error frame handle idle readable =>
    refine .read handle idle (Or.inr ?_) (progress_onHandle { s with waiting := none } h Handle.read)
    simp [rearms, frame, handle, idle, readable]
  | raised frame => exact .same (progress_destroy { s with waiting := none } _)
  | unfound frame => exact .same (progress_destroy { s with waiting := none } none)
  | drained frame drained =>
    exact .same (progress_drainConnectQueue (s := { s with waiting := none, drains := s.drains - 1 })
      drained)
  | @found i error pending connecting =>
    refine .same ((progress_dial _ error).trans ?_)
    split_ifs
    · exact progress_makeHandle (s := { s with lookups := s.lookups.erase i }) (hws.congr rfl)
    · rfl
  | @connected h idle begun callback handle alive =>
    have htake : (s.takeConnect h).progress = s.progress := progress_onHandle_same s rfl
    obtain ⟨-, heq⟩ | ⟨-, -, heq⟩ | ⟨-, -, heq⟩ :=
      connected_cases (s := { s.takeConnect h with connecting := false }) handle
    · exact .same ((congrArg progress heq).trans htake)
    · exact .same ((congrArg progress heq).trans htake)
    · exact .same ((progress_drainConnectQueue heq).trans htake)
  | unconnected begun callback handle alive =>
    exact .same ((progress_destroy _ _).trans (progress_onHandle_same s rfl))

/-! ### One read at a time -/

/-- The reads of every handle come one after another. -/
def Reading (s : Connection) : Prop := ∀ h, (s.progress h).Sequential

theorem Reading.of_same (hs : s.Reading) (ht : t.progress = s.progress) : t.Reading := by
  unfold Reading
  rw [ht]
  exact hs

theorem Reading.update (hs : s.Reading) {h : ℕ} {p : Progress} (hp : p.Sequential)
    (ht : t.progress = Function.update s.progress h p) : t.Reading := by
  intro k
  rw [ht]
  by_cases hk : k = h
  · subst hk
    rwa [Function.update_self]
  · rw [Function.update_of_ne hk]
    exact hs k

theorem Reading.reads (hs : s.Reading) {rearmed : Prop} (hm : s.Reads rearmed t) : t.Reading := by
  cases hm with
  | same eq => exact hs.of_same eq
  | @read h handle idle why eq => exact hs.update ((hs h).read idle) eq
  | @drop h k n taken eq => exact hs.update ((hs h).drop taken) eq
  | @deliver h k n taken handle eq => exact hs.update ((hs h).deliver taken) eq

theorem Reading.quiets (hs : s.Reading) (hq : Quiets s t) : t.Reading :=
  Quiets.invariant (I := Reading) (fun hu hmove => hu.reads (hmove.reads False)) hs hq

theorem Reading.step (hs : s.Reading) (hws : s.Wf) (e : ConnectionEvent) : (s.step e).Reading := by
  rcases connect_or e with ⟨host, error, rfl⟩ | he
  · rw [step_connect]
    exact hs.of_same (progress_connect hws host error)
  · obtain ⟨t, hbegins, hquiets⟩ := step_comes hws he
    exact (hs.reads (hbegins.reads hws)).quiets hquiets

/-! ### The end comes once -/

/-- After the end nothing is read, and the assertion about it has not failed. -/
structure EndsOnce (s : Connection) : Prop where
  ended : ∀ h, s.handle = some h → s.flags.gotEof = true →
    (s.progress h).reading = true ∧ (s.progress h).reads = []
  asserts : Failure.gotEof ∉ s.failures

/-- What `EndsOnce` is about, but for the handles. -/
def ending (s : Connection) : Option ℕ × Flags × List Failure := (s.handle, s.flags, s.failures)

theorem EndsOnce.congr (hs : s.EndsOnce) (hprogress : t.progress = s.progress)
    (ht : t.ending = s.ending) : t.EndsOnce := by
  simp only [ending, Prod.mk.injEq] at ht
  obtain ⟨hhandle, hflags, hfailures⟩ := ht
  constructor
  · rw [hhandle, hflags, hprogress]
    exact hs.ended
  · rw [hfailures]
    exact hs.asserts

theorem EndsOnce.fail (hs : s.EndsOnce) {failure : Failure} (hother : failure ≠ .gotEof) :
    (s.fail failure).EndsOnce := by
  refine ⟨hs.ended, ?_⟩
  simp only [Connection.fail, List.mem_append, List.mem_singleton, not_or]
  exact ⟨hs.asserts, hother.symm⟩

theorem EndsOnce.destroy (hs : s.EndsOnce) (error : Option Str) : (s.destroy error).EndsOnce := by
  rcases Bool.eq_false_or_eq_true s.destroyed with hgone | halive
  · obtain ⟨posted, emitted, heq⟩ := destroy_again hgone error
    rw [heq]
    exact hs.congr rfl rfl
  · obtain ⟨posted, emitted, heq⟩ := destroy_eq halive error
    rw [heq]
    exact ⟨nofun, hs.asserts⟩

theorem EndsOnce.drop (hs : s.EndsOnce) {h k : ℕ}
    (hprogress : t.progress = Function.update s.progress h ((s.progress h).drop k))
    (ht : t.ending = s.ending) : t.EndsOnce := by
  simp only [ending, Prod.mk.injEq] at ht
  obtain ⟨hhandle, hflags, hfailures⟩ := ht
  refine ⟨?_, hfailures ▸ hs.asserts⟩
  rw [hhandle, hflags, hprogress]
  intro g hg heof
  obtain ⟨hreading, hnone⟩ := hs.ended g hg heof
  by_cases hgh : g = h
  · subst hgh
    rw [Function.update_self]
    exact ⟨hreading, by simp [Progress.drop, hnone]⟩
  · rw [Function.update_of_ne hgh]
    exact ⟨hreading, hnone⟩

/-- While a read is outstanding the end has not come. -/
theorem EndsOnce.not_ended (hs : s.EndsOnce) {h k n : ℕ} (hhandle : s.handle = some h)
    (htaken : (s.handles h).reads[k]? = some n) : s.flags.gotEof = false := by
  by_contra heof
  have hnone : (s.handles h).reads = [] := (hs.ended h hhandle (by simpa using heof)).2
  simp [hnone] at htaken

theorem endsOnce_atEof (hs : s.EndsOnce) (hr : s.Reading) {h k n : ℕ} (hhandle : s.handle = some h)
    (htaken : (s.handles h).reads[k]? = some n) : (s.atEof h k).EndsOnce := by
  refine ⟨fun g hg _ => ?_, hs.asserts⟩
  obtain rfl := Option.some.inj (hhandle.symm.trans hg)
  obtain ⟨hone, rfl, -, hreading⟩ := (hr h).taken htaken
  change ((s.takeRead h 0).progress h).reading = true ∧ ((s.takeRead h 0).progress h).reads = []
  rw [progress_takeRead, Function.update_self]
  exact ⟨hreading, by simp [Progress.drop, hone]⟩

theorem EndsOnce.quiet (hs : s.EndsOnce) (hr : s.Reading) (hq : Quiet s t) : t.EndsOnce := by
  cases hq with
  | unpause | secure | shut | finishLater | soon | shutdown | wait | emit | lookedUp =>
    exact ⟨hs.ended, hs.asserts⟩
  | fail other => exact hs.fail other
  | @read h handle connected idle flowing =>
    refine ⟨fun g hg heof => ?_, hs.asserts⟩
    obtain rfl := Option.some.inj (handle.symm.trans hg)
    exact absurd (idle.symm.trans (hs.ended h handle heof).1) nofun
  | @shutdownHandle h error handle flag done =>
    exact hs.congr (progress_onHandle_same s (shutdown_progress _ error)) rfl
  | @shutdownFailed h error message handle flag failed =>
    refine EndsOnce.destroy (s := s.onHandle h fun x => (x.shutdown error).2) ?_ _
    exact hs.congr (progress_onHandle_same s (shutdown_progress _ error)) rfl
  | destroyIdle | destroyShut => exact hs.destroy none
  | @dropRead h k n taken deaf => exact hs.drop (progress_takeRead s h k) rfl
  | data taken handle callback =>
    have heof := hs.not_ended handle taken
    exact ⟨fun _ _ he => absurd (heof.symm.trans he) nofun, hs.asserts⟩
  | eof taken handle first writable => exact endsOnce_atEof hs hr handle taken
  | eofAgain taken handle again => exact absurd ((hs.not_ended handle taken).symm.trans again) nofun
  | closePending h => exact hs.congr (progress_onHandle_same s (closeIfPending_progress _)) rfl
  | sendShut | shutdownDone | handshake | handshakeDone | dialed | called =>
    exact hs.congr (progress_onHandle_same s rfl) rfl

theorem EndsOnce.quiets (hs : s.EndsOnce) (hr : s.Reading) (hq : Quiets s t) : t.EndsOnce := by
  have hboth : t.EndsOnce ∧ t.Reading := by
    refine Quiets.invariant (I := fun u => u.EndsOnce ∧ u.Reading) ?_ ⟨hs, hr⟩ hq
    rintro u v ⟨hu, hru⟩ hmove
    exact ⟨hu.quiet hru hmove, hru.reads (hmove.reads False)⟩
  exact hboth.1

theorem EndsOnce.dial (hs : s.EndsOnce) (error : Option Str) : (s.dial error).EndsOnce := by
  cases error with
  | some message => exact hs.destroy _
  | none =>
    unfold Connection.dial
    dsimp only
    split
    · exact hs
    · exact hs.congr (progress_onHandle_same s rfl) rfl

theorem EndsOnce.makeHandle (hs : s.EndsOnce) : s.makeHandle.EndsOnce := ⟨nofun, hs.asserts⟩

theorem EndsOnce.give (hs : s.EndsOnce) (h : ℕ) (data : Str) : (s.give h data).EndsOnce :=
  hs.congr (progress_give s h data) rfl

theorem EndsOnce.advance (hs : s.EndsOnce) {g : ℕ} (hhandle : s.handle = some g) :
    s.advance.EndsOnce := by
  obtain ⟨-, heq⟩ | ⟨data, rest, -, ⟨-, heq⟩ | ⟨-, heq⟩⟩ := advance_cases hhandle <;> rw [heq]
  · exact hs
  · exact hs.congr rfl rfl
  · exact EndsOnce.give (s := { s with writeQueue := rest }) (hs.congr rfl rfl) g data

theorem EndsOnce.drainConnectQueue (hs : s.EndsOnce) (ht : s.drainConnectQueue = some t) :
    t.EndsOnce := by
  obtain ⟨queue, -, ⟨-, rfl⟩ | ⟨h, -, ⟨-, rfl⟩ | ⟨data, rest, -, -, rfl⟩⟩⟩ :=
    drainConnectQueue_cases ht
  · exact hs.congr rfl rfl
  · exact hs.congr rfl rfl
  · exact hs.congr (progress_give s h data) rfl

theorem EndsOnce.begins (hs : s.EndsOnce) (hr : s.Reading) (hws : s.Wf) {e : ConnectionEvent}
    (he : e.isSetSecure = false) (hb : Begins s e t) : t.EndsOnce := by
  cases hb with
  | nothing => exact hs
  | pause | finishNow | lookupFailed => exact ⟨hs.ended, hs.asserts⟩
  | undrained frame failed => exact EndsOnce.fail (s := { s with
      waiting := none
      drains := s.drains - 1 }) ⟨hs.ended, hs.asserts⟩ (by decide)
  | destroy error => exact hs.destroy error
  | @write e data t asked taken =>
    obtain ⟨-, rfl⟩ | ⟨-, h, -, ⟨-, rfl⟩ | ⟨-, rfl⟩⟩ := write_cases taken
    · exact ⟨hs.ended, hs.asserts⟩
    · exact ⟨hs.ended, hs.asserts⟩
    · exact hs.congr (progress_give s h data) rfl
  | secured => cases he
  | @completed h k data ended alive =>
    obtain ⟨g, hhandle⟩ := hws.handle_of_outstanding alive ended
    have hcomplete : (s.onHandle h fun x =>
        { x with native := x.native.complete k data }).EndsOnce :=
      hs.congr (progress_onHandle_same s rfl) rfl
    exact (hcomplete.advance hhandle).congr rfl rfl
  | late ended gone => exact hs.congr (progress_onHandle_same s rfl) rfl
  | @failed h k data message ended alive =>
    refine EndsOnce.destroy (s := s.onHandle h fun x => { x with native := x.native.complete k data }) ?_ _
    exact hs.congr (progress_onHandle_same s rfl) rfl
  | eof taken handle callback first writable idle =>
    exact (endsOnce_atEof hs hr handle taken).destroy none
  | @rearm g h error frame handle idle readable =>
    refine ⟨fun k hk heof => ?_, hs.asserts⟩
    obtain rfl := Option.some.inj (handle.symm.trans hk)
    exact absurd (idle.symm.trans (hs.ended h handle heof).1) nofun
  | raised frame | unfound frame =>
    exact EndsOnce.destroy (s := { s with waiting := none }) ⟨hs.ended, hs.asserts⟩ _
  | drained frame drained =>
    exact EndsOnce.drainConnectQueue (s := { s with waiting := none, drains := s.drains - 1 })
      ⟨hs.ended, hs.asserts⟩ drained
  | @found i error pending connecting =>
    have hlooked : ({ s with lookups := s.lookups.erase i } : Connection).EndsOnce :=
      ⟨hs.ended, hs.asserts⟩
    refine EndsOnce.dial ?_ error
    split_ifs
    · exact hlooked.makeHandle
    · exact hlooked
  | @connected h idle begun callback handle alive =>
    have htake : (s.takeConnect h).EndsOnce := hs.congr (progress_onHandle_same s rfl) rfl
    obtain ⟨-, heq⟩ | ⟨-, -, heq⟩ | ⟨-, -, heq⟩ :=
      connected_cases (s := { s.takeConnect h with connecting := false }) handle
    · rw [heq]
      exact htake.congr rfl rfl
    · rw [heq]
      exact htake.congr rfl rfl
    · exact EndsOnce.drainConnectQueue
        (s := { s.takeConnect h with connecting := false, readable := true })
        ⟨htake.ended, htake.asserts⟩ heq
  | @unconnected h message begun callback handle alive =>
    refine EndsOnce.destroy (s := s.takeConnect h) ?_ _
    exact hs.congr (progress_onHandle_same s rfl) rfl

theorem EndsOnce.connect (hs : s.EndsOnce) (host : Bool) (error : Option Str) :
    (s.connect host error).EndsOnce := by
  unfold Connection.connect
  dsimp only
  split_ifs
  · exact ⟨hs.ended, hs.asserts⟩
  · refine EndsOnce.dial (EndsOnce.makeHandle ?_) error
    exact ⟨hs.ended, hs.asserts⟩

theorem EndsOnce.step (hs : s.EndsOnce) (hr : s.Reading) (hws : s.Wf) {e : ConnectionEvent}
    (he : e.isSetSecure = false) : (s.step e).EndsOnce := by
  rcases connect_or e with ⟨host, error, rfl⟩ | hconnect
  · rw [step_connect]
    exact hs.connect host error
  · obtain ⟨t, hbegins, hquiets⟩ := step_comes hws hconnect
    exact (hs.begins hr hws he hbegins).quiets (hr.reads (hbegins.reads hws)) hquiets

theorem new_sequential (secure hasReadCallback : Bool) :
    (Handle.new secure hasReadCallback).progress.Sequential :=
  ⟨fun _ => ⟨rfl, rfl⟩, nofun, rfl⟩

theorem Made.reading (hs : Made s) : s.Reading := by
  cases hs with
  | fresh allowHalfOpen secure => exact fun _ => new_sequential false true
  | accepted allowHalfOpen => exact fun _ => new_sequential false true

theorem Made.endsOnce (hs : Made s) : s.EndsOnce := by
  cases hs with
  | fresh allowHalfOpen secure => exact ⟨nofun, nofun⟩
  | accepted allowHalfOpen => exact ⟨nofun, nofun⟩

/-- On every handle of a plain socket one read at most is outstanding, and it is the one after those
whose strings have been delivered, in the order in which they were read. -/
theorem one_read_outstanding {s₀ : Connection} (hs : Made s₀) {es : List ConnectionEvent}
    (hes : ∀ e ∈ es, e.isSetSecure = false) :
    ∀ t ∈ statesOf step s₀ es,
      (∀ h, ((t.handles h).reads = [] ∨ (t.handles h).reads = [(t.handles h).delivered.length]) ∧
        (t.handles h).delivered = List.range (t.handles h).delivered.length) ∧
      Failure.gotEof ∉ t.failures := by
  intro t ht
  have hall : t.Wf ∧ t.Reading ∧ t.EndsOnce := by
    refine guarded_states_invariant (I := fun u => u.Wf ∧ u.Reading ∧ u.EndsOnce) ?_
      ⟨hs.wf, hs.reading, hs.endsOnce⟩ (guarded_of_forall hes s₀) ht
    rintro u e ⟨hws, hr, hu⟩ he
    exact ⟨hws.step e, hr.step hws e, hu.step hr hws he⟩
  obtain ⟨-, hr, hu⟩ := hall
  exact ⟨fun h => ⟨(hr h).one, (hr h).order⟩, hu.asserts⟩

/-- A client that pauses in a listener of 'data', resumes twice, and reads to the end. -/
def reader : List ConnectionEvent :=
  [.connect false none, .handleConnect 0 none, .resume, .returned none none, .handleRead 0 0 true,
    .pause, .resume, .resume, .returned none none, .handleRead 0 0 true, .returned none none,
    .handleRead 0 0 false, .returned none none]

theorem reader_reads_once :
    (∀ h, (((run step (fresh true false) reader).handles h).reads = [] ∨
          ((run step (fresh true false) reader).handles h).reads =
            [((run step (fresh true false) reader).handles h).delivered.length]) ∧
        ((run step (fresh true false) reader).handles h).delivered =
          List.range ((run step (fresh true false) reader).handles h).delivered.length) ∧
      Failure.gotEof ∉ (run step (fresh true false) reader).failures :=
  one_read_outstanding (.fresh true false) (by decide) _ (run_mem_statesOf _ _ _)

example : ((run step (fresh true false) reader).handles 0).delivered = [0, 1] := by decide

end Connection

end LuaNode.Net
