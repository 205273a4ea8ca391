import LuaNode.Net.Phases

/-!
# Calls of the user

What the user calls, also in a listener, leaves the handler that waits, and what is readable of a
socket that lives.
-/

namespace LuaNode.Net

/-- The listeners return. -/
def ConnectionEvent.isReturn : ConnectionEvent → Bool
  | .returned _ _ => true
  | _ => false

namespace Connection

variable {s t u : Connection}

theorem isReturn_iff {e : ConnectionEvent} :
    e.isReturn = true ↔ ∃ raised error, e = .returned raised error := by
  cases e <;> simp [ConnectionEvent.isReturn]

/-- A call of the user leaves the handler that waits, what is readable of a socket that lives, and
raises no error of an assertion. -/
structure Calm (s t : Connection) : Prop where
  waiting : t.waiting = s.waiting
  gone : s.destroyed = true → t.destroyed = true
  readable : t.destroyed = false → t.readable = s.readable
  failures : t.failures = s.failures

theorem Calm.refl (s : Connection) : Calm s s := ⟨rfl, id, fun _ => rfl, rfl⟩

theorem Calm.trans (hst : Calm s t) (htu : Calm t u) : Calm s u := by
  refine ⟨htu.waiting.trans hst.waiting, fun h => htu.gone (hst.gone h), fun hu => ?_,
    htu.failures.trans hst.failures⟩
  have ht : t.destroyed = false := by
    by_contra hgone
    exact absurd (hu.symm.trans (htu.gone (by simpa using hgone))) nofun
  exact (htu.readable hu).trans (hst.readable ht)

theorem calm_destroy (s : Connection) (error : Option Str) : Calm s (s.destroy error) := by
  have hdead := destroy_destroyed s error
  have hsame : (s.destroy error).waiting = s.waiting ∧ (s.destroy error).failures = s.failures := by
    rcases Bool.eq_false_or_eq_true s.destroyed with hgone | halive
    · obtain ⟨posted, emitted, heq⟩ := destroy_again hgone error
      rw [heq]
      exact ⟨rfl, rfl⟩
    · obtain ⟨posted, emitted, heq⟩ := destroy_eq halive error
      rw [heq]
      exact ⟨rfl, rfl⟩
  exact ⟨hsame.1, fun _ => hdead, fun halive => absurd (halive.symm.trans hdead) nofun, hsame.2⟩

theorem calm_write {data : Str} (ht : s.write data = some t) : Calm s t := by
  obtain ⟨-, rfl⟩ | ⟨-, h, -, ⟨-, rfl⟩ | ⟨-, rfl⟩⟩ := write_cases ht <;> exact ⟨rfl, id, fun _ => rfl, rfl⟩

theorem calm_destroySoon (s : Connection) : Calm s s.destroySoon := by
  have hsoon : Calm s { s with writable := false, flags := { s.flags with destroySoon := true } } :=
    ⟨rfl, id, fun _ => rfl, rfl⟩
  unfold destroySoon
  dsimp only
  split_ifs
  · exact hsoon.trans (calm_destroy _ none)
  · exact hsoon

theorem calm_shutdown (s : Connection) (error : Option Str) : Calm s (s.shutdown error) := by
  unfold Connection.shutdown
  split_ifs
  · dsimp only
    split
    · exact ⟨rfl, id, fun _ => rfl, rfl⟩
    · split
      · refine Calm.trans (t := Connection.onHandle _ _ _) ?_ (calm_destroy _ _)
        exact ⟨rfl, id, fun _ => rfl, rfl⟩
      · exact ⟨rfl, id, fun _ => rfl, rfl⟩
  · exact calm_destroySoon s

theorem calm_queueFinish (s : Connection) (data : Option Str) : Calm s (s.queueFinish data) := by
  unfold queueFinish
  split_ifs
  · cases data with
    | none => exact ⟨rfl, id, fun _ => rfl, rfl⟩
    | some data =>
      dsimp only
      cases hwrite : s.write data with
      | none => exact ⟨rfl, id, fun _ => rfl, rfl⟩
      | some t => exact (calm_write hwrite).trans ⟨rfl, id, fun _ => rfl, rfl⟩
  · exact Calm.refl s

theorem calm_finish (s : Connection) (data error : Option Str) : Calm s (s.finish data error) := by
  have hqueue := calm_queueFinish s data
  unfold finish
  generalize s.queueFinish data = u at hqueue
  refine hqueue.trans ?_
  dsimp only
  split_ifs
  · have hshut : Calm u { u with writable := false } := ⟨rfl, id, fun _ => rfl, rfl⟩
    cases data with
    | none => exact hshut.trans (calm_shutdown _ error)
    | some data =>
      dsimp only
      cases hwrite : ({ u with writable := false } : Connection).write data with
      | none => exact hshut
      | some t => exact hshut.trans ((calm_write hwrite).trans (calm_shutdown t error))
  · exact Calm.refl u

theorem calm_resume (s : Connection) : Calm s s.resume := by
  unfold resume readOnce
  dsimp only
  split
  · exact ⟨rfl, id, fun _ => rfl, rfl⟩
  · split_ifs <;> exact ⟨rfl, id, fun _ => rfl, rfl⟩

theorem calm_setSecure (s : Connection) : Calm s s.setSecure := by
  unfold setSecure checkForSecureHandshake doHandShake
  dsimp only
  split
  · exact Calm.refl s
  · split_ifs <;> exact ⟨rfl, id, fun _ => rfl, rfl⟩

theorem calm_userStep (s : Connection) {e : ConnectionEvent} (he : e.isConnect = false)
    (hreturn : e.isReturn = false) : Calm s (s.userStep e) := by
  cases e <;> unfold userStep <;> dsimp only
  case connect => cases he
  case returned => cases hreturn
  case write data =>
    cases hwrite : s.write data with
    | none => exact Calm.refl s
    | some t => exact calm_write hwrite
  case finish data error => exact calm_finish s data error
  case destroySoon => exact calm_destroySoon s
  case destroy error => exact calm_destroy s error
  case resume => exact calm_resume s
  case setSecure => exact calm_setSecure s
  all_goals exact ⟨rfl, id, fun _ => rfl, rfl⟩

theorem calm_advance {g : ℕ} (hhandle : s.handle = some g) : Calm s s.advance := by
  obtain ⟨-, heq⟩ | ⟨data, rest, -, ⟨-, heq⟩ | ⟨-, heq⟩⟩ := advance_cases hhandle <;> rw [heq]
  · exact Calm.refl s
  · exact ⟨rfl, id, fun _ => rfl, rfl⟩
  · exact ⟨rfl, id, fun _ => rfl, rfl⟩

theorem calm_drainConnectQueue (ht : s.drainConnectQueue = some t) : Calm s t := by
  obtain ⟨queue, -, ⟨-, rfl⟩ | ⟨h, -, ⟨-, rfl⟩ | ⟨data, rest, -, -, rfl⟩⟩⟩ :=
    drainConnectQueue_cases ht <;> exact ⟨rfl, id, fun _ => rfl, rfl⟩

theorem calm_dial (s : Connection) (error : Option Str) : Calm s (s.dial error) := by
  cases error with
  | some message => exact calm_destroy s _
  | none =>
    unfold dial
    dsimp only
    split <;> exact ⟨rfl, id, fun _ => rfl, rfl⟩

end Connection

end LuaNode.Net
