import LuaNode.Events.EventEmitter

/-!
# Listeners that are called once

What becomes of the callbacks that `once` makes. A callback removes itself when it is called, but
an `emit` goes through a copy of the list: one that began before may call it again. It is
followed here through the lists of an emitter: it waits in `addListener` for the end of
'newListener', is in the list of its event, in the copies of `emit`s, or has been called.
-/

namespace LuaNode

/-- The callbacks of `once` that a call of a listener calls. -/
def Listener.ids {α : Type*} : Listener α → List ℕ
  | .func _ => []
  | .callback id _ listener => id :: listener.ids

def After.adds {α : Type*} [DecidableEq α] (w : Listener α) : After α → Bool
  | .result => false
  | .append _ listener => listener = w

def Observation.isCall {α β : Type*} [DecidableEq α] (w : Listener α) : Observation α β → Bool
  | .called listener _ _ => listener = w
  | _ => false

namespace ListenerLists

variable {α β : Type*} [DecidableEq α] (a : ListenerLists α β)

def calls (w : Listener α) : ℕ := a.log.countP (Observation.isCall w)

/-- The listener that an action calls, if any. -/
def callee : Action α β → Option (Listener α)
  | .op (.emit kind _) => (a.lists kind).head?
  | .op (.addListener _ _) | .op (.once _ _) => (a.lists "newListener".toList).head?
  | .op _ => none
  | .ret stop =>
    match a.emissions with
    | [] => none
    | m :: _ => if m.current.result stop then none else m.rest.head?

/-- The `emit`s around the one that an action goes on with. -/
def outer : Action α β → List (Emission α β)
  | .op _ => a.emissions
  | .ret _ => a.emissions.tail

/-- The program registers functions only, and a listener of `once` does not return `false`. -/
def Plain : Action α β → Prop
  | .op (.addListener _ listener) | .op (.once _ listener) => listener.ids = []
  | .op _ => True
  | .ret stop => ∀ m ∈ a.emissions.head?, m.current.result stop = stop

/-- A callback of `once` is called only when no outer `emit` has it still to call. -/
def Alone (act : Action α β) : Prop :=
  ∀ w ∈ a.callee act, w.ids ≠ [] → ∀ m ∈ a.outer act, w ∉ m.rest

def CallsOnce (act : Action α β) : Prop := a.Plain act ∧ a.Alone act

instance decidablePlain : ∀ act, Decidable (a.Plain act)
  | .op (.addListener _ listener) | .op (.once _ listener) =>
    inferInstanceAs (Decidable (listener.ids = []))
  | .op (.removeListener _ _) | .op (.removeAllListeners _) | .op (.listeners _)
  | .op (.emit _ _) => inferInstanceAs (Decidable True)
  | .ret _ => inferInstanceAs (Decidable (∀ m ∈ a.emissions.head?, _))

instance decidableAlone (act : Action α β) : Decidable (a.Alone act) :=
  inferInstanceAs (Decidable (∀ w ∈ a.callee act, _))

instance decidableCallsOnce (act : Action α β) : Decidable (a.CallsOnce act) :=
  inferInstanceAs (Decidable (_ ∧ _))

/-- A callback of `once` is in no list, no copy and no `addListener`. -/
structure Unheld (w : Listener α) : Prop where
  lists : ∀ k, w ∉ a.lists k
  rests : ∀ m ∈ a.emissions, w ∉ m.rest
  afters : ∀ m ∈ a.emissions, m.after.adds w = false

/-- What holds of a callback of `once` for the event `k`. -/
structure Tame (k : Str) (w : Listener α) : Prop where
  lists : ∀ k', (a.lists k').count w ≤ if k' = k then 1 else 0
  rests : ∀ m ∈ a.emissions, m.rest.count w ≤ 1
  once : a.calls w ≤ 1
  called : 1 ≤ a.calls w → a.Unheld w
  afters : a.emissions.countP (fun m => m.after.adds w) ≤ 1
  home : ∀ m ∈ a.emissions, ∀ k', m.after = .append k' w → k' = k
  pending : ∀ m ∈ a.emissions, m.after.adds w = true →
    (∀ k, w ∉ a.lists k) ∧ ∀ m ∈ a.emissions, w ∉ m.rest

variable {a}

theorem Unheld.tame {k : Str} {w : Listener α} (h : a.Unheld w) (hcalls : a.calls w ≤ 1) :
    a.Tame k w where
  lists k' := by simp [List.count_eq_zero_of_not_mem (h.lists k')]
  rests m hm := by simp [List.count_eq_zero_of_not_mem (h.rests m hm)]
  once := hcalls
  called _ := h
  afters := by
    rw [List.countP_eq_zero.mpr fun m hm => by simp [h.afters m hm]]
    omega
  home m hm k' heq := by
    have hadds := h.afters m hm
    simp [heq, After.adds] at hadds
  pending m hm hadds := by simp [h.afters m hm] at hadds

/-- What takes listeners away, or adds others, keeps this. -/
theorem Tame.shrink {a' : ListenerLists α β} {k : Str} {w : Listener α} (h : a.Tame k w)
    (hlists : ∀ k', (a'.lists k').count w ≤ (a.lists k').count w)
    (hemissions : a'.emissions.Sublist a.emissions) (hcalls : a'.calls w = a.calls w) :
    a'.Tame k w := by
  have hmem : ∀ k', w ∉ a.lists k' → w ∉ a'.lists k' := by
    intro k' hn hk
    have hpos := List.count_pos_iff.mpr hk
    have hzero := List.count_eq_zero_of_not_mem hn
    have hle := hlists k'
    omega
  constructor
  case lists => exact fun k' => (hlists k').trans (h.lists k')
  case rests => exact fun m hm => h.rests m (hemissions.mem hm)
  case once => exact hcalls ▸ h.once
  case called =>
    intro hc
    have hun := h.called (hcalls ▸ hc)
    exact ⟨fun k' => hmem k' (hun.lists k'), fun m hm => hun.rests m (hemissions.mem hm),
      fun m hm => hun.afters m (hemissions.mem hm)⟩
  case afters => exact hemissions.countP_le.trans h.afters
  case home => exact fun m hm => h.home m (hemissions.mem hm)
  case pending =>
    intro m hm hadds
    obtain ⟨hnl, hnr⟩ := h.pending m (hemissions.mem hm) hadds
    exact ⟨fun k' => hmem k' (hnl k'), fun m hm => hnr m (hemissions.mem hm)⟩

omit [DecidableEq α] in
theorem setList_sublist {kind : Str} {list : List (Listener α)}
    (h : list.Sublist (a.lists kind)) (k' : Str) :
    ((a.setList kind list).lists k').Sublist (a.lists k') := by
  by_cases hk : k' = kind
  · subst hk
    simpa [setList] using h
  · simp [setList, hk]

/-- To call a listener takes callbacks of `once` away and nothing else. -/
theorem enter_spec (l : Listener α) (a : ListenerLists α β) :
    (∀ k', ((enter l a).lists k').Sublist (a.lists k')) ∧
    (enter l a).emissions = a.emissions ∧ (enter l a).log = a.log ∧ (enter l a).made = a.made := by
  induction l generalizing a with
  | func f => exact ⟨fun k' => List.Sublist.refl _, rfl, rfl, rfl⟩
  | callback id kind l ih =>
    obtain ⟨hlists, hemissions, hlog, hmade⟩ := ih (a.remove kind (.callback id kind l))
    exact ⟨fun k' => (hlists k').trans (setList_sublist List.erase_sublist k'), hemissions, hlog,
      hmade⟩

/-- What holds of a list that an `emit` goes through. -/
structure Offered (a : ListenerLists α β) (w : Listener α) (list : List (Listener α)) : Prop where
  one : list.count w ≤ 1
  called : 1 ≤ a.calls w → w ∉ list
  pending : ∀ m ∈ a.emissions, m.after.adds w = true → w ∉ list

theorem Tame.offered {k : Str} {w : Listener α} (h : a.Tame k w) (kind : Str) :
    a.Offered w (a.lists kind) where
  one := (h.lists kind).trans (by split_ifs <;> omega)
  called hc := (h.called hc).lists kind
  pending m hm hadds := (h.pending m hm hadds).1 kind

/-- What holds of a callback that `addListener` is to append when an `emit` ends. -/
def Awaits (a : ListenerLists α β) (k : Str) (w : Listener α) (after : After α) : Prop :=
  ∀ k', after = .append k' w → k' = k ∧ a.Unheld w ∧ a.calls w = 0

/-- The state in which the listener `m.current` is called. -/
def pushed (a : ListenerLists α β) (m : Emission α β) : ListenerLists α β :=
  { a with
    emissions := m :: a.emissions
    log := a.log ++ [.called m.current m.kind m.args] }

theorem calls_pushed (a : ListenerLists α β) (m : Emission α β) (w : Listener α) :
    (a.pushed m).calls w = a.calls w + if m.current = w then 1 else 0 := by
  simp only [pushed, calls, List.countP_append, List.countP_singleton, Observation.isCall,
    decide_eq_true_eq]

theorem adds_iff {w : Listener α} {after : After α} :
    after.adds w = true ↔ ∃ k', after = .append k' w := by
  cases after with
  | result => simp [After.adds]
  | append kind l => simp [After.adds]

/-- Another listener is called. -/
theorem Tame.push {k : Str} {w : Listener α} (h : a.Tame k w) {m : Emission α β}
    (ho : a.Offered w (m.current :: m.rest)) (hafter : a.Awaits k w m.after)
    (hfresh : m.after.adds w = true → w ∉ m.rest) (hne : m.current ≠ w) :
    (a.pushed m).Tame k w := by
  have hcalls : (a.pushed m).calls w = a.calls w := by
    rw [calls_pushed, if_neg hne, add_zero]
  have hmem : w ∉ m.current :: m.rest → w ∉ m.rest := fun hn hw => hn (List.mem_cons_of_mem _ hw)
  have hnew : m.after.adds w = true → a.Unheld w ∧ a.calls w = 0 := by
    intro hadds
    obtain ⟨k', hk'⟩ := adds_iff.mp hadds
    exact (hafter k' hk').2
  constructor
  case lists => exact h.lists
  case rests =>
    refine List.forall_mem_cons.mpr ⟨?_, h.rests⟩
    exact (List.count_le_count_cons).trans ho.one
  case once =>
    rw [hcalls]
    exact h.once
  case called =>
    rw [hcalls]
    intro hc
    have hun := h.called hc
    refine ⟨hun.lists, List.forall_mem_cons.mpr ⟨hmem (ho.called hc), hun.rests⟩,
      List.forall_mem_cons.mpr ⟨?_, hun.afters⟩⟩
    by_contra hadds
    have := (hnew (by simpa using hadds)).2
    omega
  case afters =>
    rw [pushed, List.countP_cons]
    split_ifs with hadds
    · have hzero : a.emissions.countP (fun m => m.after.adds w) = 0 :=
        List.countP_eq_zero.mpr fun m' hm' => by simp [(hnew hadds).1.afters m' hm']
      omega
    · simpa using h.afters
  case home =>
    exact List.forall_mem_cons.mpr ⟨fun k' hk' => (hafter k' hk').1, h.home⟩
  case pending =>
    refine List.forall_mem_cons.mpr ⟨fun hadds => ?_, fun m' hm' hadds => ?_⟩
    · have hun := (hnew hadds).1
      exact ⟨hun.lists, List.forall_mem_cons.mpr ⟨hfresh hadds, hun.rests⟩⟩
    · obtain ⟨hnl, hnr⟩ := h.pending m' hm' hadds
      exact ⟨hnl, List.forall_mem_cons.mpr ⟨hmem (ho.pending m' hm' hadds), hnr⟩⟩

/-- The callback itself is called: it leaves its list, and nothing holds it any more. -/
theorem Tame.fire {k : Str} {id : ℕ} {l : Listener α} {w : Listener α}
    (hw : w = .callback id k l) (h : a.Tame k w) {m : Emission α β}
    (ho : a.Offered w (m.current :: m.rest)) (hafter : a.Awaits k w m.after)
    (hfresh : m.after.adds w = true → w ∉ m.current :: m.rest) (hcurrent : m.current = w)
    (houter : ∀ m' ∈ a.emissions, w ∉ m'.rest) : (a.call m).Tame k w := by
  obtain ⟨hsub, hemissions, hlog, -⟩ := enter_spec w (a.pushed m)
  have hcall : a.call m = enter w (a.pushed m) := by
    rw [← hcurrent]
    rfl
  have hin : w ∈ m.current :: m.rest := by simp [hcurrent]
  have hnone : a.calls w = 0 := by
    by_contra hne
    exact ho.called (by omega) hin
  have hrest : w ∉ m.rest := by
    intro hmem
    have hpos := List.count_pos_iff.mpr hmem
    have hone := ho.one
    rw [hcurrent, List.count_cons_self] at hone
    omega
  have hadds : ∀ m' ∈ m :: a.emissions, m'.after.adds w = false := by
    refine List.forall_mem_cons.mpr ⟨?_, fun m' hm' => ?_⟩
    · by_contra hadds
      exact hfresh (by simpa using hadds) hin
    · by_contra hadds
      exact ho.pending m' hm' (by simpa using hadds) hin
  have hlists : ∀ k', w ∉ (enter w (a.pushed m)).lists k' := by
    intro k' hk
    have hcount := h.lists k'
    obtain ⟨hdeeper, -⟩ := enter_spec l ((a.pushed m).remove k w)
    have hstep : enter w (a.pushed m) = enter l ((a.pushed m).remove k w) := by
      rw [hw]
      rfl
    rw [hstep] at hk
    have hpos := List.count_pos_iff.mpr ((hdeeper k').mem hk)
    by_cases hkk : k' = k
    · subst hkk
      simp only [remove, setList, Function.update_self, pushed, List.count_erase_self] at hpos
      rw [if_pos rfl] at hcount
      omega
    · simp only [remove, setList, Function.update_of_ne hkk, pushed] at hpos
      rw [if_neg hkk] at hcount
      omega
  have hun : (enter w (a.pushed m)).Unheld w := by
    refine ⟨hlists, ?_, ?_⟩
    · rw [hemissions]
      exact List.forall_mem_cons.mpr ⟨hrest, houter⟩
    · rw [hemissions]
      exact hadds
  rw [hcall]
  refine hun.tame ?_
  have hcalls : (enter w (a.pushed m)).calls w = (a.pushed m).calls w := congrArg _ hlog
  rw [hcalls, calls_pushed, hnone, if_pos hcurrent]

/-- The next listener of an `emit` is called; `m.current :: m.rest` is what it goes through. -/
theorem Tame.call {k : Str} {id : ℕ} {l : Listener α} {w : Listener α}
    (hw : w = .callback id k l) (h : a.Tame k w) {m : Emission α β}
    (ho : a.Offered w (m.current :: m.rest)) (hafter : a.Awaits k w m.after)
    (hfresh : m.after.adds w = true → w ∉ m.current :: m.rest)
    (houter : m.current = w → ∀ m' ∈ a.emissions, w ∉ m'.rest) : (a.call m).Tame k w := by
  by_cases hcurrent : m.current = w
  · exact h.fire hw ho hafter hfresh hcurrent (houter hcurrent)
  · obtain ⟨hsub, hemissions, hlog, -⟩ := enter_spec m.current (a.pushed m)
    have hpush := h.push ho hafter (fun hadds hmem => hfresh hadds (List.mem_cons_of_mem _ hmem))
      hcurrent
    refine hpush.shrink (fun k' => (hsub k').count_le w) ?_ (congrArg _ hlog)
    change (enter m.current (a.pushed m)).emissions.Sublist _
    rw [hemissions]

theorem Tame.finish {k : Str} {w : Listener α} (h : a.Tame k w) {after : After α}
    (hafter : a.Awaits k w after) (result : Bool) : (a.finish after result).Tame k w := by
  cases after with
  | result =>
    refine h.shrink (fun _ => le_rfl) (List.Sublist.refl _) ?_
    simp [ListenerLists.finish, observe, calls, Observation.isCall]
  | append kind l =>
    have hcount : ∀ k', ((a.append kind l).lists k').count w =
        (a.lists k').count w + if k' = kind ∧ l = w then 1 else 0 := by
      intro k'
      by_cases hk : k' = kind
      · subst hk
        simp [append, setList, List.count_singleton]
      · simp [append, setList, hk]
    by_cases hl : l = w
    · subst hl
      obtain ⟨rfl, hun, hnone⟩ := hafter kind rfl
      have htame := hun.tame (k := kind) (by omega)
      constructor
      case lists =>
        intro k'
        change ((a.append kind l).lists k').count l ≤ _
        rw [hcount, List.count_eq_zero_of_not_mem (hun.lists k')]
        simp
      case rests => exact htame.rests
      case once => exact htame.once
      case called =>
        intro hc
        change 1 ≤ a.calls l at hc
        omega
      case afters => exact htame.afters
      case home => exact htame.home
      case pending =>
        intro m hm hadds
        have hfalse := hun.afters m hm
        rw [hadds] at hfalse
        cases hfalse
    · refine h.shrink (fun k' => ?_) (List.Sublist.refl _) rfl
      change ((a.append kind l).lists k').count w ≤ _
      simp [hcount, hl]

/-- `emit` goes through the list of the event. -/
theorem Tame.emit {k : Str} {id : ℕ} {l : Listener α} {w : Listener α}
    (hw : w = .callback id k l) (h : a.Tame k w) {kind : Str} {args : Args α β} {after : After α}
    (hafter : a.Awaits k w after)
    (houter : ∀ l ∈ (a.lists kind).head?, l = w → ∀ m ∈ a.emissions, w ∉ m.rest) :
    (a.emit kind args after).Tame k w := by
  have ho := h.offered kind
  unfold ListenerLists.emit
  cases hlist : a.lists kind with
  | nil =>
    dsimp only
    split_ifs
    · exact h.shrink (fun _ => le_rfl) (List.Sublist.refl _)
        (by simp [observe, calls, Observation.isCall])
    · exact h.finish hafter false
  | cons l' rest =>
    rw [hlist] at ho houter
    refine Tame.call (m := ⟨kind, args, l', rest, after⟩) hw h ho hafter ?_ (houter l' rfl)
    intro hadds
    obtain ⟨k', hk'⟩ := adds_iff.mp hadds
    have hun := (hafter k' hk').2.1.lists kind
    rwa [hlist] at hun

/-- The listener that runs returns, and its `emit` goes on without it on the stack. -/
theorem Tame.popped {k : Str} {w : Listener α} (h : a.Tame k w) {m : Emission α β}
    {ms : List (Emission α β)} (hm : a.emissions = m :: ms) :
    let a' := { a with emissions := ms }
    a'.Tame k w ∧ a'.Offered w m.rest ∧ a'.Awaits k w m.after ∧
      (m.after.adds w = true → w ∉ m.rest) := by
  intro a'
  have hmem : ∀ m' ∈ ms, m' ∈ a.emissions := fun m' h' => by simp [hm, h']
  have hself : m ∈ a.emissions := by simp [hm]
  have htame : a'.Tame k w :=
    h.shrink (fun _ => le_rfl) (by rw [hm]; exact List.sublist_cons_self _ _) rfl
  refine ⟨htame, ⟨h.rests m hself, fun hc => (h.called hc).rests m hself,
    fun m' hm' hadds => (h.pending m' (hmem m' hm') hadds).2 m hself⟩, ?_,
    fun hadds => (h.pending m hself hadds).2 m hself⟩
  intro k' hk'
  have hadds : m.after.adds w = true := adds_iff.mpr ⟨k', hk'⟩
  obtain ⟨hnl, hnr⟩ := h.pending m hself hadds
  refine ⟨h.home m hself k' hk', ⟨hnl, fun m' hm' => hnr m' (hmem m' hm'), ?_⟩, ?_⟩
  · -- another `addListener` cannot wait for the same callback
    intro m' hm'
    by_contra hother
    have hafters := h.afters
    have hpos : 0 < ms.countP (fun m => m.after.adds w) :=
      List.countP_pos_iff.mpr ⟨m', hm', by simpa using hother⟩
    rw [hm, List.countP_cons, if_pos hadds] at hafters
    omega
  · by_contra hne
    have hfalse := (h.called (Nat.one_le_iff_ne_zero.mpr hne)).afters m hself
    rw [hadds] at hfalse
    cases hfalse

theorem Tame.ret {k : Str} {id : ℕ} {l : Listener α} {w : Listener α}
    (hw : w = .callback id k l) (h : a.Tame k w) (stop : Bool)
    (houter : ∀ l ∈ a.callee (.ret stop), l = w → ∀ m ∈ a.emissions.tail, w ∉ m.rest) :
    (a.ret stop).Tame k w := by
  unfold ListenerLists.ret
  cases hm : a.emissions with
  | nil => exact h
  | cons m ms =>
    obtain ⟨htame, ho, hafter, hfresh⟩ := h.popped hm
    simp only [callee, hm, List.tail_cons] at houter
    dsimp only
    cases hr : m.current.result stop with
    | true =>
      rw [if_pos rfl]
      exact htame.finish hafter true
    | false =>
      rw [if_neg (by simp)]
      cases hrest : m.rest with
      | nil => exact htame.finish hafter false
      | cons l' rest =>
        rw [hrest] at ho hfresh
        rw [hr, hrest] at houter
        exact Tame.call (m := { m with current := l', rest := rest }) hw htame ho hafter hfresh
          (houter l' (by simp))

/-! ### Which callbacks there are -/

/-- A listener is in a list or a copy, waits in an `addListener`, or has been called. -/
def Holds (a : ListenerLists α β) (w : Listener α) : Prop :=
  (∃ k, w ∈ a.lists k) ∨ (∃ m ∈ a.emissions, w ∈ m.rest ∨ m.after.adds w = true) ∨ 1 ≤ a.calls w

/-- The callbacks are those that `once` has made of functions, each with a number of its own. -/
structure Known (a : ListenerLists α β) : Prop where
  made : ∀ w, a.Holds w → w.ids ≠ [] →
    ∃ id k l, w = .callback id k l ∧ l.ids = [] ∧ id < a.made
  same : ∀ w w', a.Holds w → a.Holds w' → w.ids ≠ [] → w.ids = w'.ids → w = w'

theorem Holds.of_shrink {a' : ListenerLists α β} {w : Listener α} (h : a'.Holds w)
    (hlists : ∀ k', (a'.lists k').Sublist (a.lists k'))
    (hemissions : a'.emissions.Sublist a.emissions) (hcalls : a'.calls w ≤ a.calls w) :
    a.Holds w := by
  rcases h with ⟨k, hk⟩ | ⟨m, hm, h⟩ | h
  · exact .inl ⟨k, (hlists k).mem hk⟩
  · exact .inr (.inl ⟨m, hemissions.mem hm, h⟩)
  · exact .inr (.inr (h.trans hcalls))

theorem Holds.of_call {m : Emission α β} {w : Listener α} (h : (a.call m).Holds w) :
    a.Holds w ∨ w ∈ m.current :: m.rest ∨ m.after.adds w = true := by
  obtain ⟨hsub, hemissions, hlog, -⟩ := enter_spec m.current (a.pushed m)
  have hentered : (enter m.current (a.pushed m)).Holds w := h
  have hpush : (a.pushed m).Holds w :=
    Holds.of_shrink hentered hsub (by rw [hemissions])
      (congrArg (fun log => List.countP (Observation.isCall w) log) hlog).le
  rcases hpush with ⟨k, hk⟩ | ⟨m', hm', hin⟩ | hcalls
  · exact .inl (.inl ⟨k, hk⟩)
  · rcases List.mem_cons.mp hm' with rfl | hm'
    · rcases hin with hin | hin
      · exact .inr (.inl (List.mem_cons_of_mem _ hin))
      · exact .inr (.inr hin)
    · exact .inl (.inr (.inl ⟨m', hm', hin⟩))
  · rw [calls_pushed] at hcalls
    split_ifs at hcalls with hcurrent
    · exact .inr (.inl (by simp [hcurrent]))
    · exact .inl (.inr (.inr hcalls))

theorem Holds.of_finish {after : After α} {result : Bool} {w : Listener α}
    (h : (a.finish after result).Holds w) : a.Holds w ∨ after.adds w = true := by
  cases after with
  | result =>
    refine .inl (h.of_shrink (fun _ => List.Sublist.refl _) (List.Sublist.refl _) ?_)
    simp [ListenerLists.finish, observe, calls, Observation.isCall]
  | append kind l =>
    rcases h with ⟨k, hk⟩ | h
    · by_cases hkk : k = kind
      · subst hkk
        simp only [ListenerLists.finish, append, setList, Function.update_self,
          List.mem_append, List.mem_singleton] at hk
        rcases hk with hk | rfl
        · exact .inl (.inl ⟨k, hk⟩)
        · exact .inr (by simp [After.adds])
      · simp only [ListenerLists.finish, append, setList, Function.update_of_ne hkk] at hk
        exact .inl (.inl ⟨k, hk⟩)
    · exact .inl (.inr h)

theorem Holds.of_emit {kind : Str} {args : Args α β} {after : After α} {w : Listener α}
    (h : (a.emit kind args after).Holds w) : a.Holds w ∨ after.adds w = true := by
  unfold ListenerLists.emit at h
  cases hlist : a.lists kind with
  | nil =>
    rw [hlist] at h
    dsimp only at h
    split_ifs at h
    · refine .inl (h.of_shrink (fun _ => List.Sublist.refl _) (List.Sublist.refl _) ?_)
      simp [observe, calls, Observation.isCall]
    · exact h.of_finish
  | cons l' rest =>
    rw [hlist] at h
    rcases h.of_call with h | h | h
    · exact .inl h
    · exact .inl (.inl ⟨kind, hlist ▸ h⟩)
    · exact .inr h

theorem Holds.of_ret {stop : Bool} {w : Listener α} (h : (a.ret stop).Holds w) : a.Holds w := by
  unfold ListenerLists.ret at h
  cases hm : a.emissions with
  | nil =>
    rw [hm] at h
    exact h
  | cons m ms =>
    have hself : m ∈ a.emissions := by simp [hm]
    have hpop : ({ a with emissions := ms } : ListenerLists α β).Holds w → a.Holds w :=
      fun h => h.of_shrink (fun _ => List.Sublist.refl _)
        (by rw [hm]; exact List.sublist_cons_self _ _) le_rfl
    have hafter : m.after.adds w = true → a.Holds w := fun h => .inr (.inl ⟨m, hself, .inr h⟩)
    rw [hm] at h
    dsimp only at h
    cases hr : m.current.result stop with
    | true =>
      rw [hr, if_pos rfl] at h
      exact h.of_finish.elim hpop hafter
    | false =>
      rw [hr, if_neg (by simp)] at h
      cases hrest : m.rest with
      | nil =>
        rw [hrest] at h
        exact h.of_finish.elim hpop hafter
      | cons l' rest =>
        rw [hrest] at h
        rcases h.of_call with h | h | h
        · exact hpop h
        · exact .inr (.inl ⟨m, hself, .inl (hrest ▸ h)⟩)
        · exact hafter h

/-- The listener that an operation brings. -/
def brings (a : ListenerLists α β) : Action α β → Option (Listener α)
  | .op (.addListener _ listener) => some listener
  | .op (.once kind listener) => some (.callback a.made kind listener)
  | _ => none

theorem Holds.of_step {act : Action α β} {w : Listener α} (h : (a.step act).Holds w) :
    a.Holds w ∨ w ∈ a.brings act := by
  cases act with
  | ret stop => exact .inl (Holds.of_ret h)
  | op o =>
    cases o with
    | addListener kind l =>
      rcases Holds.of_emit h with h | h
      · exact .inl h
      · obtain ⟨k', hk'⟩ := adds_iff.mp h
        cases hk'
        exact .inr rfl
    | once kind l =>
      rcases Holds.of_emit h with h | h
      · exact .inl h
      · obtain ⟨k', hk'⟩ := adds_iff.mp h
        cases hk'
        exact .inr rfl
    | removeListener kind l =>
      exact .inl (h.of_shrink (setList_sublist List.erase_sublist) (List.Sublist.refl _) le_rfl)
    | removeAllListeners kind =>
      refine .inl ?_
      cases kind with
      | none => exact h.of_shrink (fun _ => List.nil_sublist _) (List.Sublist.refl _) le_rfl
      | some kind =>
        exact h.of_shrink (setList_sublist (List.nil_sublist _)) (List.Sublist.refl _) le_rfl
    | listeners kind =>
      refine .inl (h.of_shrink (fun _ => List.Sublist.refl _) (List.Sublist.refl _) ?_)
      simp [step, perform, observe, calls, Observation.isCall]
    | emit kind values =>
      rcases Holds.of_emit h with h | h
      · exact .inl h
      · cases h

omit [DecidableEq α] in
theorem made_finish (a : ListenerLists α β) (after : After α) (result : Bool) :
    (a.finish after result).made = a.made := by
  cases after <;> rfl

theorem made_emit (a : ListenerLists α β) (kind : Str) (args : Args α β) (after : After α) :
    (a.emit kind args after).made = a.made := by
  unfold ListenerLists.emit
  cases a.lists kind with
  | nil =>
    dsimp only
    split_ifs
    · rfl
    · exact a.made_finish after false
  | cons l rest => exact (enter_spec _ _).2.2.2

theorem made_ret (a : ListenerLists α β) (stop : Bool) : (a.ret stop).made = a.made := by
  unfold ListenerLists.ret
  cases a.emissions with
  | nil => rfl
  | cons m ms =>
    dsimp only
    split_ifs
    · exact made_finish _ _ _
    · cases m.rest with
      | nil => exact made_finish _ _ _
      | cons l rest => exact (enter_spec _ _).2.2.2

theorem made_step (a : ListenerLists α β) (act : Action α β) : a.made ≤ (a.step act).made := by
  cases act with
  | ret stop => exact (a.made_ret stop).ge
  | op o =>
    cases o with
    | addListener kind l => exact (made_emit a _ _ _).ge
    | once kind l =>
      exact (Nat.le_succ _).trans (made_emit { a with made := a.made + 1 } _ _ _).ge
    | emit kind values => exact (made_emit a _ _ _).ge
    | removeAllListeners kind => cases kind <;> exact le_rfl
    | removeListener kind l => exact le_rfl
    | listeners kind => exact le_rfl

/-- What an operation brings is a function, or the next callback. -/
theorem brings_spec {act : Action α β} (hg : a.CallsOnce act) {w : Listener α}
    (hw : w ∈ a.brings act) (hids : w.ids ≠ []) :
    ∃ k l, w = .callback a.made k l ∧ l.ids = [] ∧ a.made < (a.step act).made := by
  have hfunc := hg.1
  cases act with
  | ret stop => cases hw
  | op o =>
    cases o with
    | addListener kind l =>
      cases hw
      exact absurd hfunc hids
    | once kind l =>
      cases hw
      refine ⟨kind, l, rfl, hfunc, ?_⟩
      exact (Nat.lt_succ_self _).trans_le (made_emit { a with made := a.made + 1 } _ _ _).ge
    | _ => cases hw

theorem Known.step (h : a.Known) {act : Action α β} (hg : a.CallsOnce act) :
    (a.step act).Known := by
  have hmade : ∀ w, (a.step act).Holds w → w.ids ≠ [] → a.Holds w ∨
      ∃ k l, w = .callback a.made k l ∧ w ∈ a.brings act := by
    intro w hw hids
    refine hw.of_step.imp_right fun hbrings => ?_
    obtain ⟨k, l, hwk, -, -⟩ := brings_spec hg hbrings hids
    exact ⟨k, l, hwk, hbrings⟩
  constructor
  · intro w hw hids
    rcases hw.of_step with hold | hbrings
    · obtain ⟨id, k, l, hwk, hl, hid⟩ := h.made w hold hids
      exact ⟨id, k, l, hwk, hl, hid.trans_le (a.made_step act)⟩
    · obtain ⟨k, l, hwk, hl, hlt⟩ := brings_spec hg hbrings hids
      exact ⟨a.made, k, l, hwk, hl, hlt⟩
  · intro w w' hw hw' hids heq
    have hnew : ∀ v v' : Listener α, a.Holds v → v.ids ≠ [] → v.ids = v'.ids →
        ∀ k l, v' = .callback a.made k l → False := by
      rintro v v' hv hvids hveq k l rfl
      obtain ⟨id, k', l', rfl, -, hid⟩ := h.made v hv hvids
      have hhead : id = a.made := (List.cons.inj hveq).1
      omega
    rcases hmade w hw hids with hold | ⟨k, l, hwk, hbrings⟩ <;>
      rcases hmade w' hw' (heq ▸ hids) with hold' | ⟨k', l', hwk', hbrings'⟩
    · exact h.same w w' hold hold' hids heq
    · exact (hnew w w' hold hids heq k' l' hwk').elim
    · exact (hnew w' w hold' (heq ▸ hids) heq.symm k l hwk).elim
    · exact Option.mem_unique hbrings hbrings'

/-- A step keeps what holds of a callback. -/
theorem Tame.step {k : Str} {id : ℕ} {l : Listener α} {w : Listener α}
    (hw : w = .callback id k l) (h : a.Tame k w) (hknown : a.Known) {act : Action α β}
    (hg : a.CallsOnce act) : (a.step act).Tame k w := by
  have hids : w.ids ≠ [] := by
    rw [hw]
    exact List.cons_ne_nil _ _
  have houter : ∀ v ∈ a.callee act, v = w → ∀ m ∈ a.outer act, w ∉ m.rest := by
    rintro v hv rfl
    exact hg.2 v hv hids
  cases act with
  | ret stop => exact h.ret hw stop houter
  | op o =>
    cases o with
    | addListener kind l' =>
      refine h.emit hw ?_ houter
      intro k' hk'
      cases hk'
      exact absurd hg.1 hids
    | once kind l' =>
      have hsame : Tame { a with made := a.made + 1 } k w :=
        h.shrink (fun _ => le_rfl) (List.Sublist.refl _) rfl
      refine hsame.emit hw ?_ houter
      intro k' hk'
      -- the new callback is nowhere yet
      have hnew : w = .callback a.made k' l' := by
        have hk := After.append.inj hk'
        rw [← hk.2, hk.1]
      have hnot : ¬ a.Holds w := by
        intro hold
        obtain ⟨id', _, _, hwk, -, hlt⟩ := hknown.made w hold hids
        rw [hnew] at hwk
        have := (Listener.callback.inj hwk).1
        omega
      refine ⟨?_, ⟨fun k hk => hnot (.inl ⟨k, hk⟩),
        fun m hm hr => hnot (.inr (.inl ⟨m, hm, .inl hr⟩)), fun m hm => ?_⟩, ?_⟩
      · rw [hw] at hnew
        exact (Listener.callback.inj hnew).2.1.symm
      · by_contra hadds
        exact hnot (.inr (.inl ⟨m, hm, .inr (by simpa using hadds)⟩))
      · by_contra hne
        exact hnot (.inr (.inr (Nat.one_le_iff_ne_zero.mpr hne)))
    | removeListener kind l' =>
      exact h.shrink (fun k' => (setList_sublist List.erase_sublist k').count_le w)
        (List.Sublist.refl _) rfl
    | removeAllListeners kind =>
      cases kind with
      | none =>
        exact h.shrink (fun _ => (List.nil_sublist _).count_le w) (List.Sublist.refl _) rfl
      | some kind =>
        exact h.shrink (fun k' => (setList_sublist (List.nil_sublist _) k').count_le w)
          (List.Sublist.refl _) rfl
    | listeners kind =>
      refine h.shrink (fun _ => le_rfl) (List.Sublist.refl _) ?_
      simp [ListenerLists.step, perform, observe, calls, Observation.isCall]
    | emit kind values =>
      refine h.emit hw ?_ houter
      intro k' hk'
      cases hk'

/-- All of this together. -/
structure Orderly (a : ListenerLists α β) : Prop where
  known : a.Known
  tame : ∀ id k l, a.Tame k (.callback id k l)

theorem Orderly.step (h : a.Orderly) {act : Action α β} (hg : a.CallsOnce act) :
    (a.step act).Orderly :=
  ⟨h.known.step hg, fun id k l => (h.tame id k l).step rfl h.known hg⟩

omit [DecidableEq α] in
theorem init_unheld [DecidableEq α] (w : Listener α) : (init : ListenerLists α β).Unheld w := by
  constructor <;> simp [init]

theorem init_orderly : (init : ListenerLists α β).Orderly := by
  have hnone : ∀ w, ¬ (init : ListenerLists α β).Holds w := by
    rintro w (⟨k, hk⟩ | ⟨m, hm, -⟩ | h)
    · simp [init] at hk
    · simp [init] at hm
    · simp [init, calls] at h
  exact ⟨⟨fun w hw => absurd hw (hnone w), fun w _ hw => absurd hw (hnone w)⟩,
    fun id k l => (init_unheld _).tame (by simp [calls, init])⟩

/-- The call of a listener that runs the callback `id`. -/
def runsCallback (id : ℕ) : Observation α β → Bool
  | .called listener _ _ => id ∈ listener.ids
  | _ => false

/-- All calls that run a callback are calls of one listener, which is called once. -/
theorem Orderly.runs_le_one (h : a.Orderly) (id : ℕ) :
    a.log.countP (runsCallback id) ≤ 1 := by
  have hheld : ∀ w kind args, .called w kind args ∈ a.log → a.Holds w := by
    intro w kind args hmem
    refine .inr (.inr (List.countP_pos_iff.mpr ⟨_, hmem, ?_⟩))
    simp [Observation.isCall]
  by_cases hany : ∃ o ∈ a.log, runsCallback id o = true
  · obtain ⟨o, ho, hruns⟩ := hany
    cases o with
    | called w kind args =>
      have hid : id ∈ w.ids := by simpa [runsCallback] using hruns
      have hw := hheld w kind args ho
      obtain ⟨n, k, l, rfl, hl, -⟩ := h.known.made w hw (List.ne_nil_of_mem hid)
      have hn : id = n := by simpa [Listener.ids, hl] using hid
      subst hn
      refine (List.countP_mono_left ?_).trans (h.tame id k l).once
      intro o' ho' hruns'
      cases o' with
      | called w' kind' args' =>
        have hid' : id ∈ w'.ids := by simpa [runsCallback] using hruns'
        obtain ⟨n', k', l', rfl, hl', -⟩ :=
          h.known.made w' (hheld w' kind' args' ho') (List.ne_nil_of_mem hid')
        have hn' : id = n' := by simpa [Listener.ids, hl'] using hid'
        subst hn'
        have hsame := h.known.same _ _ (hheld _ _ _ ho') hw (List.ne_nil_of_mem hid')
          (by simp [Listener.ids, hl, hl'])
        simp [Observation.isCall, hsame]
      | _ => cases hruns'
    | _ => cases hruns
  · rw [List.countP_eq_zero.mpr fun o ho hr => hany ⟨o, ho, hr⟩]
    omega

end ListenerLists

namespace EventEmitter

variable {α β : Type*} [DecidableEq α]

end EventEmitter

end LuaNode
