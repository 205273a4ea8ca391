import LuaNode.Net.Calm
import LuaNode.Net.Closing

/-!
# `finish` before the connection is made

While the socket is connecting `finish` leaves a flag, and `connect_callback` calls it again. The
flag is among those that `initSocketHandle` sets up anew, so the answer of a lookup makes the socket
forget it. On a `SecureSocket` the shutdown is a mark for the handler of a write, which there may
not be.
-/

namespace LuaNode.Net

namespace Connection

variable {s t u : Connection} {h : ℕ}

/-! ### What a handle has been told -/

/-- The end that has been sent, and the mark for it, stay. -/
structure Grows (s t : Connection) : Prop where
  sent : ∀ h, h < s.made → (s.handles h).sendShut = true → (t.handles h).sendShut = true
  marked : ∀ h, h < s.made → (s.handles h).native.writeShutdownPending = true →
    (t.handles h).native.writeShutdownPending = true
  made : s.made ≤ t.made

theorem grows_same (hhandles : t.handles = s.handles) (hmade : t.made = s.made) : Grows s t := by
  refine ⟨fun h _ => ?_, fun h _ => ?_, hmade.ge⟩ <;> rw [hhandles] <;> exact id

theorem Grows.trans (hst : Grows s t) (htu : Grows t u) : Grows s u where
  sent h hh hs := htu.sent h (hh.trans_le hst.made) (hst.sent h hh hs)
  marked h hh hs := htu.marked h (hh.trans_le hst.made) (hst.marked h hh hs)
  made := hst.made.trans htu.made

theorem grows_onHandle (s : Connection) {h : ℕ} {f : Handle → Handle}
    (hsent : (s.handles h).sendShut = true → (f (s.handles h)).sendShut = true)
    (hmarked : (s.handles h).native.writeShutdownPending = true →
      (f (s.handles h)).native.writeShutdownPending = true) : Grows s (s.onHandle h f) := by
  refine ⟨fun k _ hk => ?_, fun k _ hk => ?_, le_rfl⟩
  all_goals by_cases hkh : k = h
  · subst hkh
    rw [onHandle_same]
    exact hsent hk
  · rwa [onHandle_other s hkh]
  · subst hkh
    rw [onHandle_same]
    exact hmarked hk
  · rwa [onHandle_other s hkh]

/-- A handle that is made later does not matter. -/
theorem grows_update (s : Connection) {t : Connection} {x : Handle}
    (hhandles : t.handles = Function.update s.handles s.made x) (hmade : s.made ≤ t.made) :
    Grows s t := by
  refine ⟨fun k hk => ?_, fun k hk => ?_, hmade⟩ <;>
    rw [hhandles, Function.update_of_ne hk.ne] <;> exact id

theorem close_marked (n : Native) : n.close.writeShutdownPending = n.writeShutdownPending := by
  unfold Native.close
  split_ifs <;> rfl

theorem grows_destroy (s : Connection) (error : Option Str) : Grows s (s.destroy error) := by
  rcases Bool.eq_false_or_eq_true s.destroyed with hgone | halive
  · obtain ⟨posted, emitted, heq⟩ := destroy_again hgone error
    rw [heq]
    exact grows_same rfl rfl
  · obtain ⟨posted, emitted, heq⟩ := destroy_eq halive error
    rw [heq]
    refine ⟨fun h _ hh => ?_, fun h _ hh => ?_, le_rfl⟩ <;> dsimp only
    · rwa [closeHandle_keeps s Handle.sendShut fun _ => rfl]
    · rwa [closeHandle_keeps s (fun x => x.native.writeShutdownPending)
        fun x => close_marked x.native]

theorem shutdown_grows (x : Handle) (error : Option Str) :
    (x.sendShut = true → (x.shutdown error).2.sendShut = true) ∧
    (x.native.writeShutdownPending = true →
      (x.shutdown error).2.native.writeShutdownPending = true) := by
  unfold Handle.shutdown Native.shutdown
  split_ifs
  · exact ⟨id, fun _ => rfl⟩
  · exact ⟨fun h => by simp [h], fun _ => rfl⟩
  · cases error <;> exact ⟨fun h => by simp [h], id⟩

theorem closeIfPending_grows (x : Handle) :
    x.closeIfPending.sendShut = x.sendShut ∧
    x.closeIfPending.native.writeShutdownPending = x.native.writeShutdownPending := by
  unfold Handle.closeIfPending Native.callCloseCallback
  split_ifs <;> exact ⟨rfl, rfl⟩

theorem Quiet.grows (hq : Quiet s t) : Grows s t := by
  cases hq with
  | unpause | secure | shut | finishLater | soon | shutdown | fail | wait | emit | lookedUp =>
    exact grows_same rfl rfl
  | read | dropRead | shutdownDone | handshake | handshakeDone | dialed | called =>
    exact grows_onHandle s id id
  | @eof h k n taken handle first writable =>
    exact Grows.trans (t := s.takeRead h k) (grows_onHandle s id id) (grows_same rfl rfl)
  | @eofAgain h k n taken handle again =>
    exact Grows.trans (t := s.takeRead h k) (grows_onHandle s id id) (grows_same rfl rfl)
  | sendShut => exact grows_onHandle s (fun _ => rfl) id
  | @shutdownHandle h error handle flag done =>
    obtain ⟨hsent, hmarked⟩ := shutdown_grows (s.handles h) error
    exact grows_onHandle s hsent hmarked
  | @shutdownFailed h error message handle flag failed =>
    obtain ⟨hsent, hmarked⟩ := shutdown_grows (s.handles h) error
    exact (grows_onHandle s (f := fun x => (x.shutdown error).2) hsent hmarked).trans
      (grows_destroy _ _)
  | destroyIdle | destroyShut => exact grows_destroy s none
  | @data h k n taken handle callback =>
    have hread : Grows s (s.takeRead h k) := grows_onHandle s id id
    have hdata : Grows (s.takeRead h k) ((s.takeRead h k).onHandle h
        fun x => { x with reading := false, delivered := x.delivered ++ [n] }) :=
      grows_onHandle _ id id
    exact (hread.trans hdata).trans (grows_same rfl rfl)
  | closePending h =>
    obtain ⟨hsent, hmarked⟩ := closeIfPending_grows (s.handles h)
    exact grows_onHandle s (fun h => hsent.trans h) fun h => hmarked.trans h

theorem Quiets.grows (hq : Quiets s t) : Grows s t :=
  Quiets.invariant (I := Grows s) (fun hk hmove => hk.trans hmove.grows) (grows_same rfl rfl) hq

theorem grows_give (s : Connection) (h : ℕ) (data : Str) : Grows s (s.give h data) := by
  have hmarked : ∀ n : Native, n.writeShutdownPending = true →
      (n.write data).2.writeShutdownPending = true := by
    intro n hn
    unfold Native.write
    split_ifs <;> exact hn
  exact (grows_onHandle s (h := h) (f := fun x => { x with native := (x.native.write data).2 }) id
    (hmarked _)).trans (grows_same rfl rfl)

theorem grows_advance {g : ℕ} (hhandle : s.handle = some g) : Grows s s.advance := by
  obtain ⟨-, heq⟩ | ⟨data, rest, -, ⟨-, heq⟩ | ⟨-, heq⟩⟩ := advance_cases hhandle <;> rw [heq]
  · exact grows_same rfl rfl
  · exact grows_same rfl rfl
  · exact Grows.trans (t := { s with writeQueue := rest }) (grows_same rfl rfl) (grows_give _ g data)

theorem grows_drainConnectQueue (ht : s.drainConnectQueue = some t) : Grows s t := by
  obtain ⟨queue, -, ⟨-, rfl⟩ | ⟨h, -, ⟨-, rfl⟩ | ⟨data, rest, -, -, rfl⟩⟩⟩ :=
    drainConnectQueue_cases ht
  · exact grows_same rfl rfl
  · exact grows_same rfl rfl
  · exact (grows_give s h data).trans (grows_same rfl rfl)

theorem grows_dial (s : Connection) (error : Option Str) : Grows s (s.dial error) := by
  unfold dial
  cases error with
  | some message => exact grows_destroy s _
  | none =>
    dsimp only
    split
    · exact grows_same rfl rfl
    · exact grows_onHandle s id id

theorem Begins.grows {e : ConnectionEvent} (hws : s.Wf) (hb : Begins s e t) : Grows s t := by
  cases hb with
  | nothing | pause | finishNow | undrained | lookupFailed => exact grows_same rfl rfl
  | destroy error => exact grows_destroy s error
  | write asked taken =>
    obtain ⟨-, rfl⟩ | ⟨-, h, -, ⟨-, rfl⟩ | ⟨-, rfl⟩⟩ := write_cases taken
    · exact grows_same rfl rfl
    · exact grows_same rfl rfl
    · exact (grows_give s h _).trans (grows_same rfl rfl)
  | secured handle plain => exact grows_update s rfl (Nat.le_succ _)
  | @completed h k data ended alive =>
    obtain ⟨g, hhandle⟩ := hws.handle_of_outstanding alive ended
    have hcomplete : Grows s (s.onHandle h fun x =>
        { x with native := x.native.complete k data }) := grows_onHandle s id id
    exact (hcomplete.trans (grows_advance hhandle)).trans (grows_same rfl rfl)
  | late ended gone => exact grows_onHandle s id id
  | @failed h k data message ended alive =>
    have hcomplete : Grows s (s.onHandle h fun x =>
        { x with native := x.native.complete k data }) := grows_onHandle s id id
    exact hcomplete.trans (grows_destroy _ _)
  | @eof h k n taken handle callback first writable idle =>
    have hread : Grows s (s.takeRead h k) := grows_onHandle s id id
    have heof : Grows s (s.atEof h k) := hread.trans (grows_same rfl rfl)
    exact heof.trans (grows_destroy _ none)
  | rearm frame handle idle readable =>
    exact Grows.trans (t := { s with waiting := none }) (grows_same rfl rfl) (grows_onHandle _ id id)
  | raised frame =>
    exact Grows.trans (t := { s with waiting := none }) (grows_same rfl rfl) (grows_destroy _ _)
  | unfound frame =>
    exact Grows.trans (t := { s with waiting := none }) (grows_same rfl rfl) (grows_destroy _ none)
  | drained frame drained =>
    exact Grows.trans (t := { s with waiting := none, drains := s.drains - 1 }) (grows_same rfl rfl)
      (grows_drainConnectQueue drained)
  | @found i error pending connecting =>
    dsimp only
    split_ifs
    · have hmake : Grows s ({ s with lookups := s.lookups.erase i } : Connection).makeHandle :=
        grows_update s rfl (Nat.le_succ _)
      exact hmake.trans (grows_dial _ error)
    · exact Grows.trans (t := { s with lookups := s.lookups.erase i }) (grows_same rfl rfl)
        (grows_dial _ error)
  | @connected h idle begun callback handle alive =>
    have htake : Grows s ({ s.takeConnect h with connecting := false } : Connection) :=
      Grows.trans (t := s.takeConnect h) (grows_onHandle s id id) (grows_same rfl rfl)
    refine htake.trans ?_
    obtain ⟨-, heq⟩ | ⟨-, -, heq⟩ | ⟨-, -, heq⟩ :=
      connected_cases (s := { s.takeConnect h with connecting := false }) handle
    · rw [heq]
      exact grows_same rfl rfl
    · rw [heq]
      exact grows_same rfl rfl
    · exact Grows.trans (t := { s.takeConnect h with connecting := false, readable := true })
        (grows_same rfl rfl) (grows_drainConnectQueue heq)
  | @unconnected h message begun callback handle alive =>
    exact Grows.trans (t := s.takeConnect h) (grows_onHandle s id id) (grows_destroy _ _)

/-! ### The end that was asked for -/

/-- The end has been sent, or it follows a write that is under way or in `_connectQueue`. -/
def Sends (s : Connection) (h : ℕ) : Prop :=
  (s.handles h).sendShut = true ∨
    (s.handles h).native.writeShutdownPending = true ∧
      (0 < (s.handles h).native.pendingWrites ∨
        s.handle = some h ∧ (s.handles h).secure = true ∧ s.connectQueue.getD [] ≠ [])

theorem Sends.lt (hs : s.Sends h) (hws : s.Wf) : h < s.made := by
  rcases hs with hsent | ⟨hmarked, -⟩
  · exact hws.lt_of_ne Handle.sendShut (by simp [hsent, Handle.new])
  · exact hws.lt_of_ne (fun x => x.native.writeShutdownPending) (by simp [hmarked, Handle.new])

theorem Sends.keeps (hs : s.Sends h) (hws : s.Wf) (hk : Keeps s t) (hg : Grows s t)
    (halive : t.destroyed = false) : t.Sends h := by
  have hlt := hs.lt hws
  rcases hs with hsent | ⟨hmarked, hwrites⟩
  · exact Or.inl (hg.sent h hlt hsent)
  · have hsame := hk.phase (halive.trans (hk.alive halive).symm)
    refine Or.inr ⟨hg.marked h hlt hmarked, ?_⟩
    rw [hk.pending, hk.secure, hsame.2.1, hsame.2.2]
    exact hwrites

theorem Sends.quiets (hs : s.Sends h) (hws : s.Wf) (hq : Quiets s t) (halive : t.destroyed = false) :
    t.Sends h :=
  hs.keeps hws hq.keeps hq.grows halive

/-- What is under way stays so, and what is in `_connectQueue` may come under way. -/
theorem Sends.rise (hs : s.Sends h) (hws : s.Wf) (hg : Grows s t)
    (hpending : (s.handles h).native.pendingWrites ≤ (t.handles h).native.pendingWrites)
    (hqueue : s.handle = some h → (s.handles h).secure = true → s.connectQueue.getD [] ≠ [] →
      0 < (t.handles h).native.pendingWrites ∨
        t.handle = some h ∧ (t.handles h).secure = true ∧ t.connectQueue.getD [] ≠ []) :
    t.Sends h := by
  have hlt := hs.lt hws
  rcases hs with hsent | ⟨hmarked, hwrites⟩
  · exact Or.inl (hg.sent h hlt hsent)
  · refine Or.inr ⟨hg.marked h hlt hmarked, ?_⟩
    rcases hwrites with hpos | ⟨hhandle, hsecure, hne⟩
    · exact Or.inl (hpos.trans_le hpending)
    · exact hqueue hhandle hsecure hne

theorem give_pending (s : Connection) (g : ℕ) (data : Str) (h : ℕ) :
    (s.handles h).native.pendingWrites ≤ ((s.give g data).handles h).native.pendingWrites := by
  by_cases hh : h = g
  · subst hh
    unfold give Native.write
    dsimp only
    rw [onHandle_same]
    split_ifs <;> simp
  · exact (congrArg (fun x : Handle => x.native.pendingWrites) (onHandle_other s hh
      (f := fun x => { x with native := (x.native.write data).2 }))).ge

theorem give_pos {g : ℕ} (hidle : (s.handles g).native.pendingWrites = 0) (data : Str) :
    0 < ((s.give g data).handles g).native.pendingWrites := by
  simp [give, Native.write_of_idle hidle]

/-- What is in `_connectQueue` is under way afterwards. -/
theorem Sends.drainConnectQueue (hs : s.Sends h) (hws : s.Wf) (ht : s.drainConnectQueue = some t) :
    t.Sends h := by
  have hg := grows_drainConnectQueue ht
  obtain ⟨queue, hqueue, ⟨rfl, rfl⟩ | ⟨g, hhandle, ⟨hpending, rfl⟩ | ⟨data, rest, -, hidle, rfl⟩⟩⟩ :=
    drainConnectQueue_cases ht
  · exact hs.rise hws hg le_rfl fun _ _ hne => absurd (by simp [hqueue]) hne
  · refine hs.rise hws hg le_rfl fun hh _ _ => Or.inl ?_
    obtain rfl := Option.some.inj (hhandle.symm.trans hh)
    exact hpending
  · refine hs.rise hws hg (give_pending s g data h) fun hh _ _ => Or.inl ?_
    obtain rfl := Option.some.inj (hhandle.symm.trans hh)
    exact give_pos hidle data

theorem Sends.write (hs : s.Sends h) (hws : s.Wf) (hconnecting : s.connecting = false) {data : Str}
    (ht : s.write data = some t) : t.Sends h := by
  obtain ⟨hc, -⟩ | ⟨-, g, hhandle, ⟨-, rfl⟩ | ⟨hidle, rfl⟩⟩ := write_cases ht
  · exact absurd (hconnecting.symm.trans hc) nofun
  · exact hs.rise hws (grows_same rfl rfl) le_rfl fun hh hsecure hne => Or.inr ⟨hh, hsecure, hne⟩
  · refine hs.rise hws ((grows_give s g data).trans (grows_same rfl rfl)) (give_pending s g data h)
      fun hh _ _ => Or.inl ?_
    obtain rfl := Option.some.inj (hhandle.symm.trans hh)
    exact give_pos hidle data

/-- Every step but a write that completes. -/
theorem Sends.begins (hs : s.Sends h) (hsound : s.Sound) (hconnecting : s.connecting = false)
    {e : ConnectionEvent} (he : ∀ g k error, e ≠ .handleWrite g k error) (hb : Begins s e t)
    (halive : t.destroyed = false) : t.Sends h := by
  have hws := hsound.single.wf
  have hps := hsound.single.phase
  have hdialing : ∀ g, s.handle = some g → (s.handles g).hasConnectCallback = false := by
    intro g handle
    exact hps.not_dialing hws hconnecting handle
  have hg := hb.grows hws
  cases hb with
  | nothing => exact hs
  | pause | finishNow | undrained =>
    exact hs.rise hws hg le_rfl fun hh hsecure hne => Or.inr ⟨hh, hsecure, hne⟩
  | destroy error => exact hs.keeps hws (Keeps.destroy s error) hg halive
  | write asked taken => exact hs.write hws hconnecting taken
  | @secured g handle plain =>
    have hne : h ≠ s.made := Nat.ne_of_lt (hs.lt hws)
    refine hs.rise hws hg ?_ fun hh hsecure _ => ?_
    · simp [Function.update_of_ne hne]
    · obtain rfl := Option.some.inj (handle.symm.trans hh)
      exact absurd (plain.symm.trans hsecure) nofun
  | completed => exact absurd rfl (he _ _ _)
  | late => exact absurd rfl (he _ _ _)
  | failed => exact absurd rfl (he _ _ _)
  | eof taken handle callback first writable idle =>
    exact absurd ((destroy_destroyed _ _).symm.trans halive) nofun
  | @rearm g h' error frame handle idle readable =>
    have hk : Keeps s (({ s with waiting := none } : Connection).onHandle h' Handle.read) :=
      (Quiet.waitNot s).keeps.trans (Keeps.touch _ rfl rfl rfl rfl rfl rfl)
    exact hs.keeps hws hk hg halive
  | raised frame => exact absurd ((destroy_destroyed _ _).symm.trans halive) nofun
  | unfound frame => exact absurd ((destroy_destroyed _ _).symm.trans halive) nofun
  | drained frame drained =>
    refine Sends.drainConnectQueue (s := { s with waiting := none, drains := s.drains - 1 }) ?_
      hws.undrain drained
    exact hs.rise hws (grows_same rfl rfl) le_rfl fun hh hsecure hne => Or.inr ⟨hh, hsecure, hne⟩
  | lookupFailed pending connecting => exact absurd (hconnecting.symm.trans connecting) nofun
  | found pending connecting => exact absurd (hconnecting.symm.trans connecting) nofun
  | connected idle begun callback handle alive =>
    exact absurd ((hdialing _ handle).symm.trans callback) nofun
  | unconnected begun callback handle alive =>
    exact absurd ((hdialing _ handle).symm.trans callback) nofun

/-- `HandleWrite` sends the end when no write is under way any more. -/
theorem sends_handleWriteEnd {h : ℕ} (hlt : h < s.made)
    (hmarked : (s.handles h).native.writeShutdownPending = true) : (s.handleWriteEnd h).Sends h := by
  unfold handleWriteEnd
  by_cases hidle : (s.handles h).native.pendingWrites = 0
  · rw [if_pos ⟨hmarked, hidle⟩]
    left
    have hsent : ((s.onHandle h fun x => { x with sendShut := true }).handles h).sendShut = true := by
      rw [onHandle_same]
    have hquiets : Quiets (s.onHandle h fun x => { x with sendShut := true })
        (let s := s.onHandle h fun x => { x with sendShut := true }
        if (s.handles h).secure then s.closeIfPending h
        else (s.shutdownCallback h).closeIfPending h) := by
      dsimp only
      split_ifs
      · exact quiets_closeIfPending _ h
      · exact (quiets_shutdownCallback _ h).trans (quiets_closeIfPending _ h)
    exact hquiets.grows.sent h hlt hsent
  · rw [if_neg fun hboth => hidle hboth.2]
    have hquiets := quiets_closeIfPending s h
    right
    refine ⟨hquiets.grows.marked h hlt hmarked, Or.inl ?_⟩
    rw [hquiets.keeps.pending]
    omega

/-- As `Sends`, or `HandleWrite` is to send the end when the listeners of 'drain' return. -/
def Under (s : Connection) (h : ℕ) : Prop :=
  s.Sends h ∨ (s.handles h).native.writeShutdownPending = true ∧ s.waiting = some (.drain h)

theorem Under.lt (hs : s.Under h) (hws : s.Wf) : h < s.made := by
  rcases hs with hsends | ⟨hmarked, -⟩
  · exact hsends.lt hws
  · exact hws.lt_of_ne (fun x => x.native.writeShutdownPending) (by simp [hmarked, Handle.new])

/-- A write that completes on another handle, or on this one with the next string after it. -/
theorem sends_advance {g k : ℕ} {data : Str} (hs : s.Sends h) (hws : s.Wf)
    (ended : (s.handles g).native.outstanding[k]? = some data) (alive : s.destroyed = false)
    (hne : h ≠ g) :
    (s.onHandle g fun x => { x with native := x.native.complete k data }).advance.Sends h := by
  obtain ⟨c, hc⟩ : ∃ c, c = s.onHandle g fun x => { x with native := x.native.complete k data } :=
    ⟨_, rfl⟩
  have hother : c.handles h = s.handles h := by
    rw [hc]
    exact onHandle_other s hne _
  have hcs : c.Sends h := by
    unfold Sends at hs ⊢
    rw [hother, hc]
    exact hs
  have hcw : c.Wf := by
    rw [hc]
    exact (hws.completed ended).2.1
  obtain ⟨f, hhandle⟩ := hws.handle_of_outstanding alive ended
  have hchandle : c.handle = some f := by
    rw [hc]
    exact hhandle
  rw [← hc]
  have hg := grows_advance hchandle
  obtain ⟨-, heq⟩ | ⟨first, rest, -, ⟨-, heq⟩ | ⟨hidle, heq⟩⟩ := advance_cases hchandle <;>
    rw [heq] at hg ⊢
  · exact hcs
  · exact hcs.rise hcw hg le_rfl fun hh hsecure hqueue => Or.inr ⟨hh, hsecure, hqueue⟩
  · refine hcs.rise hcw hg (give_pending { c with writeQueue := rest } f first h) fun hh _ _ => ?_
    obtain rfl := Option.some.inj (hchandle.symm.trans hh)
    exact Or.inl (give_pos (s := { c with writeQueue := rest }) hidle first)

theorem under_wrote {g : ℕ} (hws : s.Wf) (hlt : h < s.made)
    (hs : s.Sends h ∨ h = g ∧ (s.handles h).native.writeShutdownPending = true)
    (halive : (s.wrote g).destroyed = false) : (s.wrote g).Under h := by
  have hquiets := quiets_wrote s g
  have hgrows : Grows s (s.wrote g) :=
    Grows.trans (t := { s with pendingWriteReqs := s.pendingWriteReqs - 1 }) (grows_same rfl rfl)
      hquiets.grows
  rcases hs with hsends | ⟨rfl, hmarked⟩
  · have hsame : ({ s with pendingWriteReqs := s.pendingWriteReqs - 1 } : Connection).Sends h :=
      hsends
    exact Or.inl (hsame.quiets (hws.congr rfl) hquiets halive)
  · unfold wrote
    dsimp only
    split_ifs
    · exact Or.inr ⟨hmarked, rfl⟩
    · left
      have hdrain := (quiets_afterDrain
        { s with pendingWriteReqs := s.pendingWriteReqs - 1 }).grows
      exact sends_handleWriteEnd (hlt.trans_le hdrain.made) (hdrain.marked h hlt hmarked)

theorem under_handleWrite {g k : ℕ} {error : Option Str} (hs : s.Sends h) (hws : s.Wf)
    (halive : (s.handleWrite g k error).destroyed = false) : (s.handleWrite g k error).Under h := by
  have hlt := hs.lt hws
  unfold handleWrite at halive ⊢
  cases hended : (s.handles g).native.outstanding[k]? with
  | none =>
    rw [hended] at halive
    exact Or.inl hs
  | some data =>
    rw [hended] at halive
    dsimp only at halive ⊢
    rcases Bool.eq_false_or_eq_true s.destroyed with hgone | hlives
    · unfold afterWrite at halive
      rw [if_pos (by exact hgone)] at halive
      have hdead := (quiets_handleWriteEnd
        (s.onHandle g fun x => { x with native := x.native.complete k data }) g).keeps.gone hgone
      exact absurd (hdead.symm.trans halive) nofun
    cases error with
    | some message =>
      unfold afterWrite at halive
      rw [if_neg (by simp [onHandle, hlives])] at halive
      have hdead := (quiets_handleWriteEnd ((s.onHandle g fun x =>
        { x with native := x.native.complete k data }).destroy (some message)) g).keeps.gone
        (destroy_destroyed _ _)
      exact absurd (hdead.symm.trans halive) nofun
    | none =>
      obtain ⟨f, hhandle⟩ := hws.handle_of_outstanding hlives hended
      rw [afterWrite_none (by exact hlives) (by exact hhandle)] at halive ⊢
      have hcomplete : Grows s (s.onHandle g fun x =>
          { x with native := x.native.complete k data }) := grows_onHandle s id id
      have hgrows := hcomplete.trans (grows_advance hhandle)
      refine under_wrote (hws.completed hended).2.1.advance (hlt.trans_le hgrows.made) ?_ halive
      rcases hs with hsent | ⟨hmarked, hwrites⟩
      · exact Or.inl (Or.inl (hgrows.sent h hlt hsent))
      · by_cases hsame : h = g
        · exact Or.inr ⟨hsame, hgrows.marked h hlt hmarked⟩
        · exact Or.inl (sends_advance (Or.inr ⟨hmarked, hwrites⟩) hws hended hlives hsame)

/-! ### The end that is to be asked for -/

/-- What is not writable stays so, and `connect_callback` does not wait while the socket connects. -/
structure Firm (s t : Connection) : Prop where
  writable : s.writable = false → t.writable = false
  frame : (s.connecting = true → s.connectFrame = false) → t.connecting = true →
    t.connectFrame = false
  queued : s.connecting = false → s.flags.shutdownQueued = true → t.flags.shutdownQueued = true

/-- What `Firm` is about. -/
def firmness (s : Connection) : Bool × Bool × Bool × Option Waiting :=
  (s.writable, s.connecting, s.flags.shutdownQueued, s.waiting)

theorem firm_same (ht : t.firmness = s.firmness) : Firm s t := by
  simp only [firmness, Prod.mk.injEq] at ht
  obtain ⟨hwritable, hconnecting, hqueued, hwaiting⟩ := ht
  refine ⟨fun h => hwritable.trans h, fun h hc => ?_, fun _ h => hqueued.trans h⟩
  unfold connectFrame at h ⊢
  rw [hwaiting]
  exact h (hconnecting.symm.trans hc)

theorem firm_connected (hwritable : s.writable = false → t.writable = false)
    (hconnecting : t.connecting = false)
    (hqueued : s.flags.shutdownQueued = true → t.flags.shutdownQueued = true) : Firm s t :=
  ⟨hwritable, fun _ hc => absurd (hconnecting.symm.trans hc) nofun, fun _ => hqueued⟩

theorem Firm.trans (hst : Firm s t) (htu : Firm t u)
    (hconnecting : s.connecting = false → t.connecting = false) : Firm s u where
  writable hs := htu.writable (hst.writable hs)
  frame hs := htu.frame (hst.frame hs)
  queued hc hs := htu.queued (hconnecting hc) (hst.queued hc hs)

theorem firm_destroy (s : Connection) (error : Option Str) : Firm s (s.destroy error) := by
  rcases Bool.eq_false_or_eq_true s.destroyed with hgone | halive
  · obtain ⟨posted, emitted, heq⟩ := destroy_again hgone error
    rw [heq]
    exact firm_same rfl
  · obtain ⟨posted, emitted, heq⟩ := destroy_eq halive error
    rw [heq]
    exact firm_connected (fun _ => rfl) rfl id

theorem Quiet.firm (hq : Quiet s t) : Firm s t := by
  cases hq with
  | unpause | secure | fail | emit | lookedUp | read | dropRead | shutdownDone | handshake
  | handshakeDone | dialed | called | sendShut | shutdownHandle | closePending | eof | eofAgain =>
    exact firm_same rfl
  | shut => exact ⟨fun _ => rfl, fun h => h, fun _ h => h⟩
  | finishLater connecting => exact ⟨fun _ => rfl, fun h => h, fun _ _ => rfl⟩
  | soon => exact ⟨fun _ => rfl, fun h => h, fun _ h => h⟩
  | shutdown readable writable queued => exact ⟨fun _ => rfl, fun h => h, fun _ h => h⟩
  | @shutdownFailed h error message handle flag failed =>
    have hsame : Firm s (s.onHandle h fun x => (x.shutdown error).2) := firm_same rfl
    exact hsame.trans (firm_destroy _ _) id
  | destroyIdle | destroyShut => exact firm_destroy s none
  | @wait w secure connect data lookup =>
    refine ⟨id, fun _ hc => ?_, fun _ => id⟩
    unfold connectFrame
    dsimp only
    split
    · exact absurd ((connect _ rfl).2.symm.trans hc) nofun
    · rfl
  | data taken handle callback => exact ⟨id, fun _ _ => rfl, fun _ => id⟩

theorem Quiets.firm (hq : Quiets s t) : Firm s t := by
  have hall : Firm s t ∧ Keeps s t := by
    refine Quiets.invariant (I := fun u => Firm s u ∧ Keeps s u) (fun hu hmove => ?_)
      ⟨firm_same rfl, Keeps.refl s⟩ hq
    refine ⟨hu.1.trans hmove.firm fun hs => ?_, hu.2.trans hmove.keeps⟩
    by_contra hc
    exact absurd (hs.symm.trans (hu.2.connecting (by simpa using hc))) nofun
  exact hall.1

theorem firm_dial (s : Connection) (error : Option Str) : Firm s (s.dial error) := by
  unfold dial
  cases error with
  | some message => exact firm_destroy s _
  | none =>
    dsimp only
    split
    · exact firm_same rfl
    · exact firm_same rfl

theorem firm_drainConnectQueue (ht : s.drainConnectQueue = some t) : Firm s t := by
  obtain ⟨queue, -, ⟨-, rfl⟩ | ⟨h, -, ⟨-, rfl⟩ | ⟨data, rest, -, -, rfl⟩⟩⟩ :=
    drainConnectQueue_cases ht <;> exact firm_connected id rfl id

/-- Only `connect_callback` makes a socket writable again. -/
theorem Begins.firm {e : ConnectionEvent} (hws : s.Wf) (hb : Begins s e t)
    (hframe : s.connectFrame = false ∨ e.isReturn = false) : Firm s t := by
  cases hb with
  | nothing => exact firm_same rfl
  | pause | lookupFailed | secured | late => exact firm_same rfl
  | destroy error => exact firm_destroy s error
  | write asked taken =>
    obtain ⟨-, rfl⟩ | ⟨-, h, -, ⟨-, rfl⟩ | ⟨-, rfl⟩⟩ := write_cases taken <;> exact firm_same rfl
  | @completed h k data ended alive =>
    obtain ⟨g, hhandle⟩ := hws.handle_of_outstanding alive ended
    obtain ⟨-, heq⟩ | ⟨first, rest, -, ⟨-, heq⟩ | ⟨-, heq⟩⟩ := advance_cases (s := s.onHandle h
        fun x => { x with native := x.native.complete k data }) hhandle <;>
      dsimp only <;> rw [heq] <;> exact firm_same rfl
  | @failed h k data message ended alive =>
    have hsame : Firm s (s.onHandle h fun x => { x with native := x.native.complete k data }) :=
      firm_same rfl
    exact hsame.trans (firm_destroy _ _) id
  | @eof h k n taken handle callback first writable idle =>
    have hsame : Firm s (s.atEof h k) := firm_same rfl
    exact hsame.trans (firm_destroy _ none) id
  | rearm | undrained => exact ⟨id, fun _ _ => rfl, fun _ => id⟩
  | @finishNow h error frame queued =>
    simp [connectFrame, frame, ConnectionEvent.isReturn] at hframe
  | raised frame =>
    have hsame : Firm s { s with waiting := none } := ⟨id, fun _ _ => rfl, fun _ => id⟩
    exact hsame.trans (firm_destroy _ _) id
  | unfound frame =>
    have hsame : Firm s { s with waiting := none } := ⟨id, fun _ _ => rfl, fun _ => id⟩
    exact hsame.trans (firm_destroy _ none) id
  | drained frame drained =>
    have hsame : Firm s { s with waiting := none, drains := s.drains - 1 } :=
      ⟨id, fun _ _ => rfl, fun _ => id⟩
    exact hsame.trans (firm_drainConnectQueue drained) id
  | @found i error pending connecting =>
    have hnot : ∀ u : Connection, u.connecting = s.connecting → u.writable = s.writable →
        u.waiting = s.waiting → Firm s (u.dial error) := by
      intro u hc hw hf
      have hdial := firm_dial u error
      refine ⟨fun h => hdial.writable (hw.trans h), fun h hc' => hdial.frame (fun hcu => ?_) hc',
        fun hc' => absurd (hc'.symm.trans connecting) (by simp)⟩
      unfold connectFrame at h ⊢
      rw [hf]
      exact h (hc.symm.trans hcu)
    dsimp only
    split_ifs
    · exact hnot _ rfl rfl rfl
    · exact hnot _ rfl rfl rfl
  | @connected h idle begun callback handle alive =>
    obtain ⟨-, heq⟩ | ⟨-, -, heq⟩ | ⟨-, -, heq⟩ :=
      connected_cases (s := { s.takeConnect h with connecting := false }) handle
    · rw [heq]
      exact firm_connected id rfl id
    · rw [heq]
      exact firm_connected id rfl id
    · have hfirm := firm_drainConnectQueue heq
      exact firm_connected hfirm.writable (connected_connecting rfl) (hfirm.queued rfl)
  | @unconnected h message begun callback handle alive =>
    have hsame : Firm s (s.takeConnect h) := firm_same rfl
    exact hsame.trans (firm_destroy _ _) id

/-- Only `connect` makes a socket connecting. -/
theorem Begins.notConnecting {e : ConnectionEvent} (hws : s.Wf) (hb : Begins s e t)
    (hconnecting : s.connecting = false) : t.connecting = false := by
  have hdestroy : ∀ (u : Connection) (error : Option Str), u.connecting = false →
      (u.destroy error).connecting = false := by
    intro u error hu
    by_contra hc
    exact absurd (hu.symm.trans ((Keeps.destroy u error).connecting (by simpa using hc))) nofun
  cases hb with
  | nothing | pause | finishNow | late | rearm | undrained | secured => exact hconnecting
  | destroy error => exact hdestroy s error hconnecting
  | write asked taken =>
    obtain ⟨-, rfl⟩ | ⟨-, h, -, ⟨-, rfl⟩ | ⟨-, rfl⟩⟩ := write_cases taken <;> exact hconnecting
  | @completed h k data ended alive =>
    obtain ⟨g, hhandle⟩ := hws.handle_of_outstanding alive ended
    obtain ⟨-, heq⟩ | ⟨first, rest, -, ⟨-, heq⟩ | ⟨-, heq⟩⟩ := advance_cases (s := s.onHandle h
        fun x => { x with native := x.native.complete k data }) hhandle <;>
      dsimp only <;> rw [heq] <;> exact hconnecting
  | failed ended alive => exact hdestroy (s.onHandle _ _) _ hconnecting
  | eof taken handle callback first writable idle => exact hdestroy (s.atEof _ _) none hconnecting
  | raised frame => exact hdestroy { s with waiting := none } _ hconnecting
  | unfound frame => exact hdestroy { s with waiting := none } none hconnecting
  | drained frame drained =>
    obtain ⟨queue, -, ⟨-, rfl⟩ | ⟨h, -, ⟨-, rfl⟩ | ⟨data, rest, -, -, rfl⟩⟩⟩ :=
      drainConnectQueue_cases drained <;> rfl
  | lookupFailed pending connecting => exact hconnecting
  | found pending connecting => exact absurd (hconnecting.symm.trans connecting) nofun
  | connected => exact connected_connecting rfl
  | unconnected => exact hdestroy (s.takeConnect _) _ hconnecting

/-- The connection is made, or the socket is destroyed, or it is connecting still. -/
theorem Begins.connecting_cases {e : ConnectionEvent} (hsound : s.Sound) (hb : Begins s e t)
    (hconnecting : s.connecting = true) :
    t.connecting = true ∨ t.destroyed = true ∨
      ∃ h, e = .handleConnect h none ∧ s.waiting = none ∧ (s.handles h).connects ≠ 0 ∧
        (s.handles h).hasConnectCallback = true ∧ s.handle = some h ∧ s.destroyed = false := by
  have hws := hsound.single.wf
  cases hb with
  | nothing | pause | finishNow | late | rearm | undrained | secured | lookupFailed =>
    exact Or.inl hconnecting
  | destroy error => exact Or.inr (Or.inl (destroy_destroyed _ _))
  | write asked taken =>
    obtain ⟨-, rfl⟩ | ⟨-, h, -, ⟨-, rfl⟩ | ⟨-, rfl⟩⟩ := write_cases taken <;> exact Or.inl hconnecting
  | @completed h k data ended alive =>
    obtain ⟨g, hhandle⟩ := hws.handle_of_outstanding alive ended
    obtain ⟨-, heq⟩ | ⟨first, rest, -, ⟨-, heq⟩ | ⟨-, heq⟩⟩ := advance_cases (s := s.onHandle h
        fun x => { x with native := x.native.complete k data }) hhandle <;>
      dsimp only <;> rw [heq] <;> exact Or.inl hconnecting
  | failed | eof | raised | unfound | unconnected => exact Or.inr (Or.inl (destroy_destroyed _ _))
  | @drained h rest error _ frame drained =>
    have hdrains := hws.frame h (rest + 1) frame
    exact absurd ((hsound.single.phase.drains (by omega)).symm.trans hconnecting) nofun
  | @found i error pending connecting =>
    have hdial : ∀ u : Connection, u.connecting = true →
        (u.dial error).connecting = true ∨ (u.dial error).destroyed = true := by
      intro u hu
      unfold dial
      cases error with
      | some message => exact Or.inr (destroy_destroyed _ _)
      | none =>
        dsimp only
        split <;> exact Or.inl hu
    dsimp only
    split_ifs
    · rcases hdial ({ s with lookups := s.lookups.erase i } : Connection).makeHandle hconnecting with
        h | h
      · exact Or.inl h
      · exact Or.inr (Or.inl h)
    · rcases hdial { s with lookups := s.lookups.erase i } hconnecting with h | h
      · exact Or.inl h
      · exact Or.inr (Or.inl h)
  | connected idle begun callback handle alive =>
    exact Or.inr (Or.inr ⟨_, rfl, idle, begun, callback, handle, alive⟩)

/-- What is destroyed stays so. -/
theorem Begins.gone {e : ConnectionEvent} (hsound : s.Sound) (hb : Begins s e t)
    (hgone : s.destroyed = true) : t.destroyed = true := by
  cases hb with
  | nothing | pause | finishNow | late | rearm | undrained | secured | lookupFailed => exact hgone
  | destroy | failed | eof | raised | unfound | unconnected => exact destroy_destroyed _ _
  | write asked taken =>
    obtain ⟨-, rfl⟩ | ⟨-, h, -, ⟨-, rfl⟩ | ⟨-, rfl⟩⟩ := write_cases taken <;> exact hgone
  | completed ended alive => exact absurd (alive.symm.trans hgone) nofun
  | drained frame drained =>
    obtain ⟨queue, -, ⟨-, rfl⟩ | ⟨h, -, ⟨-, rfl⟩ | ⟨data, rest, -, -, rfl⟩⟩⟩ :=
      drainConnectQueue_cases drained <;> exact hgone
  | found pending connecting =>
    exact absurd ((hsound.told.opening connecting).symm.trans hgone) nofun
  | connected idle begun callback handle alive => exact absurd (alive.symm.trans hgone) nofun

/-- `finish` was called while the socket was connecting. -/
def Asked (s : Connection) : Prop :=
  s.destroyed = false →
    (s.connecting = true ∧ s.writable = false) ∨
    (s.connecting = false ∧ s.connectFrame = true ∧ s.flags.shutdownQueued = true ∧
      s.readable = true ∧ 0 < s.made) ∨
    (s.connecting = false ∧ ∃ h, s.Under h)

/-- The answer of a lookup has not made the socket forget the end; and what a `SecureSocket` is to
shut down behind is there. -/
def InTime (s : Connection) : ConnectionEvent → Prop
  | .handleConnect h none =>
    s.handle = some h → s.connecting = true → s.writable = false → s.flags.shutdownQueued = true
  | .returned none _ =>
    s.connectFrame = true → s.flags.shutdownQueued = true →
      match s.handle with
      | none => True
      | some h => (s.handles h).secure = true →
        0 < (s.handles h).native.pendingWrites ∨ s.connectQueue.getD [] ≠ []
  | _ => True

instance (s : Connection) (e : ConnectionEvent) : Decidable (s.InTime e) := by
  unfold InTime
  split
  · infer_instance
  · split <;> infer_instance
  · infer_instance

/-- The call of `finish` that `connect_callback` makes. -/
theorem under_finish (hws : s.Wf) (hlives : s.destroyed = false) (hconnecting : s.connecting = false)
    (hwritable : s.writable = true) (hreadable : s.readable = true) (hmade : 0 < s.made)
    (hsecure : ∀ h, s.handle = some h → (s.handles h).secure = true →
      0 < (s.handles h).native.pendingWrites ∨ s.connectQueue.getD [] ≠ []) (error : Option Str)
    (halive : (s.finish none error).destroyed = false) : ∃ h, (s.finish none error).Under h := by
  obtain hnone | ⟨h, hhandle⟩ := Option.eq_none_or_eq_some s.handle
  · rcases hws.first hnone with hgone | hzero
    · exact absurd (hlives.symm.trans hgone) nofun
    · omega
  have hfinish : s.finish none error = ({ s with writable := false } : Connection).shutdown error := by
    have hlater : s.queueFinish none = s := by
      rw [queueFinish_none, if_neg (by simp [hconnecting])]
    unfold finish
    rw [hlater]
    dsimp only
    rw [if_neg (by simp [hwritable])]
  rw [hfinish] at halive ⊢
  unfold Connection.shutdown at halive ⊢
  dsimp only at halive ⊢
  rw [if_neg (by simp [hreadable]), hhandle] at halive ⊢
  dsimp only at halive ⊢
  cases hresult : ((s.handles h).shutdown error).1 with
  | some message =>
    rw [hresult] at halive
    exact absurd ((destroy_destroyed _ _).symm.trans halive) nofun
  | none =>
    refine ⟨h, Or.inl ?_⟩
    dsimp only
    unfold Sends
    rw [onHandle_same]
    have hsecure := hsecure h hhandle
    unfold Handle.shutdown Native.shutdown at hresult ⊢
    split_ifs with hs hpending
    · right
      refine ⟨rfl, ?_⟩
      rcases hsecure hs with hpos | hqueue
      · exact Or.inl hpos
      · exact Or.inr ⟨rfl, hs, hqueue⟩
    · exact Or.inr ⟨rfl, Or.inl hpending⟩
    · left
      cases error with
      | none => simp [Nat.le_zero.mp (not_lt.mp hpending)]
      | some message => simp [hs, hpending] at hresult

/-- `connect_callback` leaves the flags, and makes the socket readable. -/
theorem connected_fields {g : ℕ} (hhandle : s.handle = some g) :
    s.connected.flags = s.flags ∧ s.connected.readable = true ∧ s.connected.made = s.made := by
  obtain ⟨-, heq⟩ | ⟨-, -, heq⟩ | ⟨-, -, heq⟩ := connected_cases hhandle
  · rw [heq]
    exact ⟨rfl, rfl, rfl⟩
  · rw [heq]
    exact ⟨rfl, rfl, rfl⟩
  · obtain ⟨queue, -, ⟨-, heq⟩ | ⟨h, -, ⟨-, heq⟩ | ⟨data, rest, -, -, heq⟩⟩⟩ :=
      drainConnectQueue_cases heq <;> rw [heq] <;> exact ⟨rfl, rfl, rfl⟩

theorem connectFrame_iff : s.connectFrame = true ↔ ∃ h, s.waiting = some (.connect h) := by
  unfold connectFrame
  split <;> simp_all

/-- The connection is being made. -/
theorem Asked.connecting_step (hs : s.connecting = true ∧ s.writable = false)
    (hframed : s.connecting = true → s.connectFrame = false) (hsound : s.Sound)
    {e : ConnectionEvent} (he : e.isConnect = false) (hin : s.InTime e) : (s.step e).Asked := by
  obtain ⟨hconnecting, hwritable⟩ := hs
  have hws := hsound.single.wf
  intro halive
  obtain ⟨t, hbegins, hquiets⟩ := step_comes hws he
  have hk := hquiets.keeps
  have hfirm := hbegins.firm hws (Or.inl (hframed hconnecting))
  rcases hbegins.connecting_cases hsound hconnecting with hc | hgone |
    ⟨h, rfl, hidle, hbegun, hcallback, hhandle, hlives⟩
  · left
    refine ⟨?_, hquiets.firm.writable (hfirm.writable hwritable)⟩
    exact (hk.phase (halive.trans (hk.alive halive).symm)).1.trans hc
  · exact absurd ((hk.gone hgone).symm.trans halive) nofun
  · right
    left
    rw [step_of_idle hidle]
    unfold loopStep
    dsimp only
    rw [handleConnect_of_current hbegun hcallback hhandle hlives]
    obtain ⟨hflags, hreadable, hmade⟩ :=
      connected_fields (s := { s.takeConnect h with connecting := false }) hhandle
    refine ⟨connected_connecting rfl, rfl, ?_, hreadable, ?_⟩
    · exact (congrArg Flags.shutdownQueued hflags).trans (hin hhandle hconnecting hwritable)
    · exact (hws.lt hhandle).trans_le' (Nat.zero_le _) |>.trans_eq hmade.symm

/-- The listeners of 'connect' run. -/
theorem Asked.frame_step (hconnecting : s.connecting = false) (hframe : s.connectFrame = true)
    (hqueued : s.flags.shutdownQueued = true) (hreadable : s.readable = true) (hmade : 0 < s.made)
    (hsound : s.Sound) {e : ConnectionEvent} (he : e.isConnect = false) (hin : s.InTime e) :
    (s.step e).Asked := by
  have hws := hsound.single.wf
  intro halive
  obtain ⟨t, hbegins, hquiets⟩ := step_comes hws he
  have hk := hquiets.keeps
  have hlives : s.destroyed = false := by
    by_contra hgone
    have hdead := hk.gone (hbegins.gone hsound (by simpa using hgone))
    exact absurd (hdead.symm.trans halive) nofun
  have hended : (s.step e).connecting = false := by
    by_contra hc
    have := hk.connecting (by simpa using hc)
    exact absurd ((hbegins.notConnecting hws hconnecting).symm.trans this) nofun
  obtain ⟨g, hwaiting⟩ := connectFrame_iff.mp hframe
  right
  rcases Bool.eq_false_or_eq_true e.isReturn with hreturn | hreturn
  · obtain ⟨raised, error, rfl⟩ := isReturn_iff.mp hreturn
    rw [step_returned] at halive hended ⊢
    cases raised with
    | some message => exact absurd ((returned_raised hframe).1.symm.trans halive) nofun
    | none =>
      right
      refine ⟨hended, ?_⟩
      have hafter : s.returned none error = ({ s with
          waiting := none
          flags := { s.flags with shutdownQueued := false }
          writable := true } : Connection).finish none error := by
        unfold returned afterConnect
        rw [hwaiting]
        dsimp only
        rw [if_pos hqueued]
      rw [hafter] at halive ⊢
      refine under_finish (s := { s with
          waiting := none
          flags := { s.flags with shutdownQueued := false }
          writable := true }) (hws.waitNot.congr rfl) hlives hconnecting rfl hreadable hmade ?_ error
        halive
      intro h hhandle hsecure
      have hin := hin hframe hqueued
      rw [show s.handle = some h from hhandle] at hin
      exact hin hsecure
  · left
    have hcalm := calm_userStep s he hreturn
    rw [step_of_waiting (by simp [hwaiting])] at halive hended hquiets ⊢
    have hfirm := hbegins.firm hws (Or.inr hreturn)
    refine ⟨hended, ?_, ?_, (hcalm.readable halive).trans hreadable, ?_⟩
    · rw [connectFrame_iff, hcalm.waiting]
      exact ⟨g, hwaiting⟩
    · exact hquiets.firm.queued (hbegins.notConnecting hws hconnecting) (hfirm.queued hconnecting hqueued)
    · exact hmade.trans_le ((hbegins.grows hws).made.trans hquiets.grows.made)

/-- The end is on its way. -/
theorem Asked.under_step (hconnecting : s.connecting = false) (hs : s.Under h) (hsound : s.Sound)
    {e : ConnectionEvent} (he : e.isConnect = false) (halive : (s.step e).destroyed = false) :
    (s.step e).Under h := by
  have hws := hsound.single.wf
  have hlt := hs.lt hws
  obtain ⟨t, hbegins, hquiets⟩ := step_comes hws he
  have hgrows := (hbegins.grows hws).trans hquiets.grows
  have hlives : t.destroyed = false := hquiets.keeps.alive halive
  rcases hs with hsends | ⟨hmarked, hwaiting⟩
  · by_cases hwrite : ∃ g k error, e = .handleWrite g k error
    · obtain ⟨g, k, error, rfl⟩ := hwrite
      by_cases hidle : s.waiting = none
      · rw [step_of_idle hidle] at halive ⊢
        exact under_handleWrite hsends hws halive
      · rw [step_of_waiting hidle]
        exact Or.inl hsends
    · left
      have hother : ∀ g k error, e ≠ .handleWrite g k error := by
        intro g k error heq
        exact hwrite ⟨g, k, error, heq⟩
      exact (hsends.begins hsound hconnecting hother hbegins hlives).quiets (hws.begins hbegins)
        hquiets halive
  · rcases Bool.eq_false_or_eq_true e.isReturn with hreturn | hreturn
    · -- `HandleWrite` goes on behind the listeners of 'drain'
      obtain ⟨raised, error, rfl⟩ := isReturn_iff.mp hreturn
      left
      rw [step_returned]
      unfold returned
      rw [hwaiting]
      dsimp only
      have hquiets : Quiets s
          (if raised.isSome then { s with waiting := none }
          else ({ s with waiting := none } : Connection).afterDrain) := by
        split_ifs
        · exact .single (.waitNot s)
        · exact .head (.waitNot s) (quiets_afterDrain _)
      exact sends_handleWriteEnd (hlt.trans_le hquiets.grows.made)
        (hquiets.grows.marked h hlt hmarked)
    · right
      have hcalm := calm_userStep s he hreturn
      refine ⟨hgrows.marked h hlt hmarked, ?_⟩
      rw [step_of_waiting (by simp [hwaiting]), hcalm.waiting]
      exact hwaiting

/-- What holds of a socket on which `finish` was called while it was connecting. -/
structure Ending (s : Connection) : Prop where
  sound : s.Sound
  framed : s.connecting = true → s.connectFrame = false
  asked : s.Asked

theorem framed_step (hframed : s.connecting = true → s.connectFrame = false) (hsound : s.Sound)
    {e : ConnectionEvent} (he : e.isConnect = false) :
    (s.step e).connecting = true → (s.step e).connectFrame = false := by
  have hws := hsound.single.wf
  obtain ⟨t, hbegins, hquiets⟩ := step_comes hws he
  rcases Bool.eq_false_or_eq_true s.connecting with hconnecting | hconnecting
  · exact hquiets.firm.frame
      ((hbegins.firm hws (Or.inl (hframed hconnecting))).frame hframed)
  · intro hc
    have ht := hquiets.keeps.connecting hc
    exact absurd ((hbegins.notConnecting hws hconnecting).symm.trans ht) nofun

theorem Ending.step (hs : s.Ending) {e : ConnectionEvent} (he : e.isConnect = false)
    (hin : s.InTime e) : (s.step e).Ending := by
  refine ⟨hs.sound.step he, framed_step hs.framed hs.sound he, ?_⟩
  intro halive
  have hws := hs.sound.single.wf
  obtain ⟨t, hbegins, hquiets⟩ := step_comes hws he
  have hlives : s.destroyed = false := by
    by_contra hgone
    have hdead := hquiets.keeps.gone (hbegins.gone hs.sound (by simpa using hgone))
    exact absurd (hdead.symm.trans halive) nofun
  rcases hs.asked hlives with hconnecting | ⟨hconnecting, hframe, hqueued, hreadable, hmade⟩ |
    ⟨hconnecting, h, hunder⟩
  · exact Asked.connecting_step hconnecting hs.framed hs.sound he hin halive
  · exact Asked.frame_step hconnecting hframe hqueued hreadable hmade hs.sound he hin halive
  · right
    right
    refine ⟨?_, h, Asked.under_step hconnecting hunder hs.sound he halive⟩
    by_contra hc
    have ht := hquiets.keeps.connecting (by simpa using hc)
    exact absurd ((hbegins.notConnecting hws hconnecting).symm.trans ht) nofun

/-- `finish` leaves a socket that is connecting not writable. -/
theorem asked_finish (hsound : s.Sound) (hconnecting : s.connecting = true) (data error : Option Str) :
    (s.finish data error).Asked := by
  intro _
  left
  have hqueue : (s.queueFinish data).connecting = true ∧ (s.queueFinish data).writable = false := by
    unfold queueFinish
    split_ifs with hlater
    · cases data with
      | none => exact ⟨hconnecting, rfl⟩
      | some data =>
        dsimp only
        rw [write_of_connecting hconnecting]
        exact ⟨hconnecting, rfl⟩
    · have hqueued : s.flags.shutdownQueued = true := by simpa [hconnecting] using hlater
      exact ⟨hconnecting, hsound.flagged.queued (hsound.told.opening hconnecting) hqueued⟩
  unfold finish
  dsimp only
  rw [if_pos (by simp [hqueue.2])]
  exact hqueue

/-! ### The end of the connection -/

/-- A socket that lives and has nothing to do: it is connected, and every string has been written. -/
def Idle (s : Connection) : Prop :=
  s.destroyed = false ∧ s.connecting = false ∧ s.waiting = none ∧ s.connectQueue = none ∧
    s.writeQueue = [] ∧ ∀ h < s.made, (s.handles h).native.pendingWrites = 0

/-- The direction to the peer has been shut down. -/
def Shut (s : Connection) : Prop := ∃ h < s.made, (s.handles h).sendShut = true

instance (s : Connection) : Decidable s.Idle := inferInstanceAs (Decidable (_ ∧ _ ∧ _ ∧ _ ∧ _ ∧ _))

instance (s : Connection) : Decidable s.Shut := inferInstanceAs (Decidable (∃ h < _, _))

theorem Ending.shut (hs : s.Ending) (hidle : s.Idle) : s.Shut := by
  obtain ⟨halive, hconnecting, hwaiting, hconnect, -, hpending⟩ := hidle
  rcases hs.asked halive with ⟨hc, -⟩ | ⟨-, hframe, -⟩ | ⟨-, h, hunder⟩
  · exact absurd (hconnecting.symm.trans hc) nofun
  · obtain ⟨g, hg⟩ := connectFrame_iff.mp hframe
    exact absurd (hwaiting.symm.trans hg) nofun
  · have hlt := hunder.lt hs.sound.single.wf
    rcases hunder with (hsent | ⟨-, hpos | ⟨-, -, hqueue⟩⟩) | ⟨-, hdrain⟩
    · exact ⟨h, hlt, hsent⟩
    · have hzero := hpending h hlt
      omega
    · exact absurd (by simp [hconnect]) hqueue
    · exact absurd (hwaiting.symm.trans hdrain) nofun

theorem Opened.framed (hs : Opened s) : s.connecting = true → s.connectFrame = false := by
  cases hs with
  | connect allowHalfOpen secure host error =>
    intro _
    cases host with
    | true => rfl
    | false => cases error <;> rfl
  | accept allowHalfOpen => exact fun _ => rfl

/-- The end that is asked for while the socket is connecting is sent, once every string has been
written. -/
theorem early_finish_ends {s₀ : Connection} (hs : Opened s₀) {before after : List ConnectionEvent}
    {data error : Option Str} (hbefore : ∀ e ∈ before, e.isConnect = false)
    (hearly : (run step s₀ before).connecting = true) (hafter : ∀ e ∈ after, e.isConnect = false)
    (hin : Guarded step InTime ((run step s₀ before).step (.finish data error)) after) :
    ∀ t ∈ statesOf step ((run step s₀ before).step (.finish data error)) after,
      t.Idle → t.Shut := by
  have hstart : (run step s₀ before).Sound ∧ ((run step s₀ before).connecting = true →
      (run step s₀ before).connectFrame = false) :=
    guarded_invariant (I := fun s => s.Sound ∧ (s.connecting = true → s.connectFrame = false))
      (fun s e hs he => ⟨hs.1.step he, framed_step hs.2 hs.1 he⟩) ⟨hs.sound, hs.framed⟩
      (guarded_of_forall hbefore s₀)
  obtain ⟨hsound, hframed⟩ := hstart
  have hfinish : (run step s₀ before).step (.finish data error) =
      (run step s₀ before).finish data error := by
    unfold Connection.step
    split_ifs <;> rfl
  have hending : ((run step s₀ before).step (.finish data error)).Ending := by
    refine ⟨hsound.step rfl, framed_step hframed hsound rfl, ?_⟩
    rw [hfinish]
    exact asked_finish hsound hearly data error
  intro t ht
  exact (guarded_states_invariant (I := Ending) (fun s e hs hg => hs.step hg.2 hg.1) hending
    (guarded_and hin (guarded_of_forall hafter _)) ht).shut

/-- The end is asked for when the lookup has been answered. -/
theorem early_finish_ends_found :
    (run step ((run step ((fresh false false).connect true none)
        [.write ['a'], .lookup 1 (.address none)]).step (.finish (some ['b']) none))
      [.handleConnect 0 none, .returned none none, .handleWrite 0 0 none, .handleWrite 0 0 none,
        .returned none none]).Shut :=
  early_finish_ends (.connect false false true none) (by decide) (by decide) (by decide) (by decide)
    _ (run_mem_statesOf _ _ _) (by decide)

/-- The answer of the lookup makes the socket forget the end that was asked for before it. -/
theorem lookup_forgets_finish :
    let t := run step ((fresh false false).connect true none)
      [.finish none none, .lookup 1 (.address none), .handleConnect 0 none, .returned none none]
    t.Idle ∧ ¬ t.Shut := by
  decide

end Connection

end LuaNode.Net
