import LuaNode.Net.Moves
import Mathlib.Algebra.BigOperators.Group.Finset.Basic
import Mathlib.Order.Interval.Finset.Nat

/-!
# What the quiet moves leave as it is

The strings, the writes that are outstanding, and the phase of the connection, unless the socket is
destroyed. From this follow the invariants of the phase (`Phase`) and of the counts (`Tally`).
-/

namespace LuaNode.Net.Connection

variable {s t u : Connection}

structure Keeps (s t : Connection) : Prop where
  handed : t.handed = s.handed
  writeQueue : t.writeQueue = s.writeQueue
  written : t.written = s.written
  base : t.base = s.base
  made : t.made = s.made
  drains : t.drains = s.drains
  connects : t.connects = s.connects
  reqs : t.pendingWriteReqs = s.pendingWriteReqs
  gone : s.destroyed = true → t.destroyed = true
  phase : t.destroyed = s.destroyed →
    t.connecting = s.connecting ∧ t.connectQueue = s.connectQueue ∧ t.handle = s.handle
  died : s.destroyed = false → t.destroyed = true →
    t.connecting = false ∧ t.connectQueue = none ∧ t.handle = none
  lookups : t.lookups.Sublist s.lookups
  looking : t.connecting = true → t.lookups = s.lookups
  failed : ∀ message, .lookup message ∈ s.posted ++ s.emitted →
    .lookup message ∈ t.posted ++ t.emitted
  pending : ∀ h, (t.handles h).native.pendingWrites = (s.handles h).native.pendingWrites
  started : ∀ h, (t.handles h).native.started = (s.handles h).native.started
  outstanding : ∀ h, (t.handles h).native.outstanding = (s.handles h).native.outstanding
  secure : ∀ h, (t.handles h).secure = (s.handles h).secure
  callbacks : ∀ h, (t.handles h).hasConnectCallback = true → (s.handles h).hasConnectCallback = true
  dialing : ∀ h, t.destroyed = false → s.handle = some h → (s.handles h).hasConnectCallback = true →
    (t.handles h).hasConnectCallback = true ∧ (t.handles h).connects = (s.handles h).connects

theorem Keeps.refl (s : Connection) : Keeps s s := by
  constructor <;> simp +contextual

/-- Either nothing ended, or the connection has. -/
theorem Keeps.cases (hk : Keeps s t) :
    (t.destroyed = s.destroyed ∧ t.connecting = s.connecting ∧ t.connectQueue = s.connectQueue ∧
      t.handle = s.handle) ∨
    (s.destroyed = false ∧ t.destroyed = true ∧ t.connecting = false ∧ t.connectQueue = none ∧
      t.handle = none) := by
  by_cases hsame : t.destroyed = s.destroyed
  · exact Or.inl ⟨hsame, hk.phase hsame⟩
  · rcases Bool.eq_false_or_eq_true s.destroyed with hgone | halive
    · exact absurd ((hk.gone hgone).trans hgone.symm) hsame
    · have hdied : t.destroyed = true := by simpa [halive] using hsame
      exact Or.inr ⟨halive, hdied, hk.died halive hdied⟩

theorem Keeps.alive (hk : Keeps s t) (ht : t.destroyed = false) : s.destroyed = false := by
  cases hgone : s.destroyed with
  | false => rfl
  | true => simp [hk.gone hgone] at ht

theorem Keeps.connecting (hk : Keeps s t) (ht : t.connecting = true) : s.connecting = true := by
  obtain ⟨-, hc, -⟩ | ⟨-, -, hc, -⟩ := hk.cases
  · rwa [hc] at ht
  · simp [hc] at ht

theorem Keeps.trans (hst : Keeps s t) (htu : Keeps t u) : Keeps s u where
  handed := htu.handed.trans hst.handed
  writeQueue := htu.writeQueue.trans hst.writeQueue
  written := htu.written.trans hst.written
  base := htu.base.trans hst.base
  made := htu.made.trans hst.made
  drains := htu.drains.trans hst.drains
  connects := htu.connects.trans hst.connects
  reqs := htu.reqs.trans hst.reqs
  gone := fun h => htu.gone (hst.gone h)
  phase := by
    intro h
    obtain ⟨hgone, hphase⟩ | ⟨halive, hdied, -⟩ := hst.cases
    · obtain ⟨hc, hq, hh⟩ := htu.phase (h.trans hgone.symm)
      exact ⟨hc.trans hphase.1, hq.trans hphase.2.1, hh.trans hphase.2.2⟩
    · simp [htu.gone hdied, halive] at h
  died := by
    intro hs hu
    obtain ⟨hgone, -⟩ | ⟨-, hdied, hc, hq, hh⟩ := hst.cases
    · exact htu.died (hgone.trans hs) hu
    · obtain ⟨hc', hq', hh'⟩ := htu.phase (hu.trans hdied.symm)
      exact ⟨hc'.trans hc, hq'.trans hq, hh'.trans hh⟩
  lookups := htu.lookups.trans hst.lookups
  looking := fun hu => (htu.looking hu).trans (hst.looking (htu.connecting hu))
  failed := fun message h => htu.failed message (hst.failed message h)
  pending := fun h => (htu.pending h).trans (hst.pending h)
  started := fun h => (htu.started h).trans (hst.started h)
  outstanding := fun h => (htu.outstanding h).trans (hst.outstanding h)
  secure := fun h => (htu.secure h).trans (hst.secure h)
  callbacks := fun h hc => hst.callbacks h (htu.callbacks h hc)
  dialing := by
    intro h halive hhandle hcallback
    have ht := htu.alive halive
    obtain ⟨hc, hn⟩ := hst.dialing h ht hhandle hcallback
    have hsame := (hst.phase (ht.trans (hst.alive ht).symm)).2.2
    obtain ⟨hc', hn'⟩ := htu.dialing h halive (hsame.trans hhandle) hc
    exact ⟨hc', hn'.trans hn⟩

/-- One handle changes, and not what it writes. -/
theorem Keeps.onHandle (s : Connection) {h : ℕ} {f : Handle → Handle}
    (hpending : (f (s.handles h)).native.pendingWrites = (s.handles h).native.pendingWrites)
    (hstarted : (f (s.handles h)).native.started = (s.handles h).native.started)
    (houtstanding : (f (s.handles h)).native.outstanding = (s.handles h).native.outstanding)
    (hsecure : (f (s.handles h)).secure = (s.handles h).secure)
    (hcallback : (f (s.handles h)).hasConnectCallback = true →
      (s.handles h).hasConnectCallback = true)
    (hdialing : s.destroyed = false → s.handle = some h → (s.handles h).hasConnectCallback = true →
      (f (s.handles h)).hasConnectCallback = true ∧
        (f (s.handles h)).connects = (s.handles h).connects) : Keeps s (s.onHandle h f) where
  handed := rfl
  writeQueue := rfl
  written := rfl
  base := rfl
  drains := rfl
  connects := rfl
  reqs := rfl
  made := rfl
  gone := id
  phase := fun _ => ⟨rfl, rfl, rfl⟩
  died := by simp +contextual [Connection.onHandle]
  lookups := .refl _
  looking := fun _ => rfl
  failed := fun _ => id
  pending := onHandle_keeps s (fun x => x.native.pendingWrites) hpending
  started := onHandle_keeps s (fun x => x.native.started) hstarted
  outstanding := onHandle_keeps s (fun x => x.native.outstanding) houtstanding
  secure := onHandle_keeps s Handle.secure hsecure
  callbacks := by
    intro k hk
    by_cases hkh : k = h
    · subst hkh
      rw [onHandle_same] at hk
      exact hcallback hk
    · rwa [onHandle_other s hkh] at hk
  dialing := by
    intro k halive hhandle hk
    by_cases hkh : k = h
    · subst hkh
      rw [onHandle_same]
      exact hdialing halive hhandle hk
    · rw [onHandle_other s hkh]
      exact ⟨hk, rfl⟩

/-- A field changes of which `Keeps` says nothing. -/
theorem Keeps.touch (s : Connection) {h : ℕ} {f : Handle → Handle}
    (hpending : (f (s.handles h)).native.pendingWrites = (s.handles h).native.pendingWrites)
    (hstarted : (f (s.handles h)).native.started = (s.handles h).native.started)
    (houtstanding : (f (s.handles h)).native.outstanding = (s.handles h).native.outstanding)
    (hsecure : (f (s.handles h)).secure = (s.handles h).secure)
    (hcallback : (f (s.handles h)).hasConnectCallback = (s.handles h).hasConnectCallback)
    (hconnects : (f (s.handles h)).connects = (s.handles h).connects) : Keeps s (s.onHandle h f) :=
  Keeps.onHandle s hpending hstarted houtstanding hsecure (fun hc => hcallback ▸ hc)
    fun _ _ hc => ⟨hcallback.trans hc, hconnects⟩

theorem close_writes (n : Native) : n.close.pendingWrites = n.pendingWrites ∧
    n.close.started = n.started ∧ n.close.outstanding = n.outstanding := by
  unfold Native.close
  split_ifs <;> exact ⟨rfl, rfl, rfl⟩

theorem shutdown_writes (x : Handle) (error : Option Str) :
    (x.shutdown error).2.native.pendingWrites = x.native.pendingWrites ∧
    (x.shutdown error).2.native.started = x.native.started ∧
    (x.shutdown error).2.native.outstanding = x.native.outstanding ∧
    (x.shutdown error).2.secure = x.secure ∧
    (x.shutdown error).2.hasConnectCallback = x.hasConnectCallback ∧
    (x.shutdown error).2.connects = x.connects := by
  unfold Handle.shutdown Native.shutdown
  split_ifs
  · exact ⟨rfl, rfl, rfl, rfl, rfl, rfl⟩
  · exact ⟨rfl, rfl, rfl, rfl, rfl, rfl⟩
  · cases error <;> exact ⟨rfl, rfl, rfl, rfl, rfl, rfl⟩

theorem closeIfPending_writes (x : Handle) :
    x.closeIfPending.native.pendingWrites = x.native.pendingWrites ∧
    x.closeIfPending.native.started = x.native.started ∧
    x.closeIfPending.native.outstanding = x.native.outstanding ∧
    x.closeIfPending.secure = x.secure ∧
    x.closeIfPending.hasConnectCallback = x.hasConnectCallback ∧
    x.closeIfPending.connects = x.connects := by
  unfold Handle.closeIfPending Native.callCloseCallback
  split_ifs <;> exact ⟨rfl, rfl, rfl, rfl, rfl, rfl⟩

theorem fireErrorCallbacks_posted (s : Connection) (error : Option Str) :
    s.posted ⊆ (s.fireErrorCallbacks error).posted ∧
      (s.fireErrorCallbacks error).emitted = s.emitted := by
  unfold fireErrorCallbacks
  cases error with
  | none => exact ⟨fun _ => id, rfl⟩
  | some message =>
    dsimp only
    split_ifs
    · exact ⟨fun _ => id, rfl⟩
    · exact ⟨List.subset_append_left _ _, rfl⟩

/-- What is posted is posted still. -/
theorem destroy_posted (s : Connection) (error : Option Str) :
    s.posted ⊆ (s.destroy error).posted ∧ (s.destroy error).emitted = s.emitted := by
  unfold destroy
  split_ifs
  · exact s.fireErrorCallbacks_posted error
  · have hfire := fireErrorCallbacks_posted ({ s.connectQueueCleanUp with
      readable := false
      writable := false } : Connection).closeHandle error
    have hclose : (({ s.connectQueueCleanUp with
        readable := false
        writable := false } : Connection).closeHandle).posted = s.posted ∧
        (({ s.connectQueueCleanUp with
          readable := false
          writable := false } : Connection).closeHandle).emitted = s.emitted := by
      unfold closeHandle connectQueueCleanUp onHandle
      dsimp only
      split <;> exact ⟨rfl, rfl⟩
    refine ⟨fun p hp => List.mem_append_left _ (hfire.1 ?_), hfire.2.trans hclose.2⟩
    rw [hclose.1]
    exact hp

theorem Keeps.destroy (s : Connection) (error : Option Str) : Keeps s (s.destroy error) := by
  have hfailed : ∀ message, Posted.lookup message ∈ s.posted ++ s.emitted →
      Posted.lookup message ∈ (s.destroy error).posted ++ (s.destroy error).emitted := by
    intro message h
    obtain ⟨hposted, hemitted⟩ := s.destroy_posted error
    rw [hemitted]
    rcases List.mem_append.mp h with h | h
    · exact List.mem_append_left _ (hposted h)
    · exact List.mem_append_right _ h
  rcases Bool.eq_false_or_eq_true s.destroyed with hgone | halive
  · obtain ⟨posted, emitted, heq⟩ := destroy_again hgone error
    rw [heq] at hfailed ⊢
    constructor
    case failed => exact hfailed
    all_goals simp +contextual
  · obtain ⟨posted, emitted, heq⟩ := destroy_eq halive error
    rw [heq] at hfailed ⊢
    constructor <;> dsimp only
    case failed => exact hfailed
    case pending =>
      exact closeHandle_keeps s (fun x => x.native.pendingWrites) fun x => (close_writes x.native).1
    case started =>
      exact closeHandle_keeps s (fun x => x.native.started) fun x => (close_writes x.native).2.1
    case outstanding =>
      exact closeHandle_keeps s (fun x => x.native.outstanding) fun x => (close_writes x.native).2.2
    case secure => exact closeHandle_keeps s Handle.secure fun _ => rfl
    case callbacks =>
      intro h hc
      rwa [closeHandle_keeps s Handle.hasConnectCallback fun _ => rfl] at hc
    all_goals simp [halive]

theorem Keeps.takeRead (s : Connection) (h k : ℕ) : Keeps s (s.takeRead h k) :=
  Keeps.touch s rfl rfl rfl rfl rfl rfl

theorem Keeps.atEof (s : Connection) (h k : ℕ) : Keeps s (s.atEof h k) := by
  refine (Keeps.takeRead s h k).trans ?_
  constructor <;> simp +contextual [Connection.atEof]

theorem Quiet.keeps (hq : Quiet s t) : Keeps s t := by
  cases hq with
  | unpause | secure | shut | finishLater | soon | shutdown | fail | wait =>
    constructor <;> simp +contextual [Connection.fail]
  | @emit p rest posted =>
    constructor
    case failed =>
      intro message h
      rw [posted] at h
      simp only [List.cons_append, List.mem_cons, List.mem_append] at h ⊢
      tauto
    all_goals simp +contextual
  | read | dropRead | sendShut | shutdownDone | handshake | handshakeDone =>
    exact Keeps.touch s rfl rfl rfl rfl rfl rfl
  | @shutdownHandle h error handle flag done =>
    obtain ⟨hpending, hstarted, houtstanding, hsecure, hcallback, hconnects⟩ :=
      shutdown_writes (s.handles h) error
    exact Keeps.touch s hpending hstarted houtstanding hsecure hcallback hconnects
  | @shutdownFailed h error message handle flag failed =>
    obtain ⟨hpending, hstarted, houtstanding, hsecure, hcallback, hconnects⟩ :=
      shutdown_writes (s.handles h) error
    exact (Keeps.touch s (f := fun x => (x.shutdown error).2) hpending hstarted houtstanding hsecure
      hcallback hconnects).trans (Keeps.destroy _ _)
  | destroyIdle | destroyShut => exact Keeps.destroy s none
  | @data h k n taken handle callback =>
    have hdata : Keeps s ((s.takeRead h k).onHandle h
        fun x => { x with reading := false, delivered := x.delivered ++ [n] }) :=
      (Keeps.takeRead s h k).trans (Keeps.touch _ rfl rfl rfl rfl rfl rfl)
    refine hdata.trans ?_
    constructor <;> simp +contextual [onData]
  | @eof h k n taken handle first writable => exact Keeps.atEof s h k
  | @eofAgain h k n taken handle again =>
    refine (Keeps.takeRead s h k).trans ?_
    constructor <;> simp +contextual [Connection.fail]
  | closePending h =>
    obtain ⟨hpending, hstarted, houtstanding, hsecure, hcallback, hconnects⟩ :=
      closeIfPending_writes (s.handles h)
    exact Keeps.touch s hpending hstarted houtstanding hsecure hcallback hconnects
  | @dialed h begun deaf =>
    refine Keeps.onHandle s rfl rfl rfl rfl id ?_
    intro halive hhandle hcallback
    simp [halive, hhandle, hcallback] at deaf
  | @called h callback deaf =>
    refine Keeps.onHandle s rfl rfl rfl rfl nofun ?_
    intro halive hhandle
    simp [halive, hhandle] at deaf
  | lookedUp i idle => constructor <;> simp +contextual [idle, List.erase_sublist]

theorem Quiets.keeps (hq : Quiets s t) : Keeps s t :=
  Quiets.invariant (I := Keeps s) (fun hk hstep => hk.trans hstep.keeps) (Keeps.refl s) hq

end LuaNode.Net.Connection
