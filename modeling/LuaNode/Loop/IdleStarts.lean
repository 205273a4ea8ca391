import LuaNode.Loop.IdleTimeouts

/-!
# What the wrappers remember

The items are enrolled once each, and may be active after they have timed out. The lists need not be rings
then, but each leads to its own wrappers only, and these have the time of the last activity.
-/

namespace LuaNode.IdleTimers

variable {ι τ : Type*} {s t : IdleTimers ι τ} {since : ι → Option τ} {i : ι} {k n : ℕ} {m : τ}
  {w : IdleWrapper ι τ}

/-- `since` is what `os.time()` has shown at the last activity of an item. -/
structure Dated [LuaNumber τ] (s : IdleTimers ι τ) (since : ι → Option τ) : Prop where
  alive : s.failed = false
  wrapped : ∀ i k, s.items i = some k → ∃ w, s.wrappers k = some w ∧ w.item = i
  owned : ∀ k w, s.wrappers k = some w → s.items w.item = some k ∧
    s.calls.timeout w.item = some w.timeout ∧ ¬ w.timeout < 0
  new : ∀ k, s.created ≤ k → s.wrappers k = none
  fresh : ∀ k w, s.wrappers k = some w → w.start = none →
    s.links.next (.wrapper k) = .item w.item
  dated : ∀ k w start, s.wrappers k = some w → w.start = some start → since w.item = some start
  made : ∀ k w, s.wrappers k = some w → w.start.isSome → ∃ n, s.lists w.timeout = some n
  inj : ∀ m m' n, s.lists m = some n → s.lists m' = some n → m = m'
  listed : ∀ m n, s.lists m = some n → n < s.loop.created
  closed : ∀ m n, s.lists m = some n → s.links.Closed (s.members m n)
  callbacks : ∀ n m, s.callbacks n = some m → s.lists m = some n
  handler : ∀ c ∈ s.handler, s.lists c.msecs = some c.list

/-- A wrapper that was never in a list is not among those of one. -/
theorem not_mem_of_fresh (hw : s.wrappers k = some w) (hstart : w.start = none) :
    IdleNode.wrapper k ∉ s.members m n := by
  rw [wrapper_mem_members hw, hstart]
  exact fun hmem => absurd hmem.2 nofun

variable [LuaNumber τ]

theorem fresh_dated : (fresh : IdleTimers ι τ).Dated fun _ => none where
  alive := rfl
  wrapped := nofun
  owned := nofun
  new _ _ := rfl
  fresh := nofun
  dated := nofun
  made := nofun
  inj := nofun
  listed := nofun
  closed := nofun
  callbacks := nofun
  handler := nofun

/-- The loop and the handler are all that a call has changed. -/
theorem Dated.congr (h : s.Dated since) (hlinks : t.links = s.links) (hitems : t.items = s.items)
    (hmade : t.created = s.created) (hwrappers : t.wrappers = s.wrappers)
    (hlists : t.lists = s.lists) (hcallbacks : t.callbacks = s.callbacks)
    (htimeout : t.calls.timeout = s.calls.timeout) (hloop : t.loop.created = s.loop.created)
    (halive : t.failed = false) (hhandler : ∀ c ∈ t.handler, s.lists c.msecs = some c.list) :
    t.Dated since := by
  have hmembers : ∀ m n, t.members m n = s.members m n := by
    intro m n
    unfold members
    rw [hwrappers]
  constructor
  · exact halive
  · rw [hitems, hwrappers]
    exact h.wrapped
  · rw [hitems, hwrappers, htimeout]
    exact h.owned
  · rw [hmade, hwrappers]
    exact h.new
  · rw [hwrappers, hlinks]
    exact h.fresh
  · rw [hwrappers]
    exact h.dated
  · rw [hwrappers, hlists]
    exact h.made
  · rw [hlists]
    exact h.inj
  · rw [hlists, hloop]
    exact h.listed
  · intro m n hn
    rw [hlinks, hmembers]
    exact h.closed m n (hlists ▸ hn)
  · rw [hlists, hcallbacks]
    exact h.callbacks
  · rw [hlists]
    exact hhandler

theorem Dated.again (h : s.Dated since) (n : ℕ) (msecs : τ) : (s.again n msecs).Dated since :=
  h.congr rfl rfl rfl rfl rfl rfl rfl (TimerLoop.again_created ..) h.alive h.handler

theorem Dated.stop (h : s.Dated since) (n : ℕ) : (s.stop n).Dated since :=
  h.congr rfl rfl rfl rfl rfl rfl rfl (TimerLoop.stop_created ..) h.alive h.handler

theorem Dated.ends (h : s.Dated since) (outcome : TimerOutcome) : (s.ends outcome).Dated since :=
  h.congr rfl rfl rfl rfl rfl rfl rfl (TimerLoop.ends_created ..) h.alive nofun

variable [DecidableEq ι]

/-- A node of a list is taken out of it, or once more. -/
theorem Dated.remove (h : s.Dated since) (hn : s.lists m = some n) {x : IdleNode ι}
    (hx : x ∈ s.members m n) : (s.remove x).Dated since := by
  have hclosed := h.closed m n hn
  refine ⟨h.alive, h.wrapped, h.owned, h.new, ?_, h.dated, h.made, h.inj, h.listed, ?_, h.callbacks,
    h.handler⟩
  · intro k w hw hstart
    have hsame := (hclosed.unlink_same hx (not_mem_of_fresh hw hstart)).1
    exact hsame.trans (h.fresh k w hw hstart)
  · intro m' n' hn'
    have hmembers : (s.remove x).members m' n' = s.members m' n' := rfl
    rw [hmembers]
    by_cases hm : m' = m
    · subst hm
      obtain rfl := Option.some_inj.mp (hn.symm.trans hn')
      exact hclosed.unlink hx
    · exact (h.closed m' n' hn').congr fun y hy =>
        hclosed.unlink_same hx (members_disjoint h.inj hn hn' hm hy)

/-- An activity: the wrapper gets its time, and is put into its list. -/
theorem Dated.append (h : s.Dated since) (hw : s.wrappers k = some w)
    (hn : s.lists w.timeout = some n) (now : τ) :
    ((s.setWrapper k { w with start := some now }).append n (.wrapper k)).Dated
      (Function.update since w.item (some now)) := by
  set v : IdleWrapper ι τ := { w with start := some now } with hv
  have hclosed := h.closed _ _ hn
  have hne : IdleNode.wrapper (ι := ι) k ≠ .timer n := nofun
  have hself : (s.setWrapper k v).wrappers k = some v := Function.update_self ..
  have hother : ∀ k' ≠ k, (s.setWrapper k v).wrappers k' = s.wrappers k' := fun k' hk =>
    Function.update_of_ne hk ..
  have hmembers : ∀ m' n', (s.setWrapper k v).members m' n' =
      if m' = w.timeout then Insert.insert (IdleNode.wrapper k) (s.members m' n')
      else s.members m' n' := fun m' n' =>
    (relink_members hw rfl rfl : (s.relink s.links k v []).members m' n' = _)
  have hitem : ∀ k' w', s.wrappers k' = some w' → k' ≠ k → w'.item ≠ w.item := by
    intro k' w' hw' hk heq
    have hitems := (h.owned k' w' hw').1
    rw [heq, (h.owned k w hw).1] at hitems
    exact hk (Option.some_inj.mp hitems).symm
  have hcases : ∀ k' v', (s.setWrapper k v).wrappers k' = some v' →
      k' = k ∧ v' = v ∨ k' ≠ k ∧ s.wrappers k' = some v' := by
    intro k' v' hv'
    by_cases hk : k' = k
    · subst hk
      exact .inl ⟨rfl, Option.some_inj.mp (hv'.symm.trans hself)⟩
    · exact .inr ⟨hk, (hother k' hk).symm.trans hv'⟩
  refine ⟨h.alive, ?_, ?_, ?_, ?_, ?_, ?_, h.inj, h.listed, ?_, h.callbacks, h.handler⟩
  · intro i k' hi
    obtain ⟨w', hw', hitem'⟩ := h.wrapped i k' hi
    by_cases hk : k' = k
    · subst hk
      obtain rfl := Option.some_inj.mp (hw.symm.trans hw')
      exact ⟨v, hself, hitem'⟩
    · exact ⟨w', (hother k' hk).trans hw', hitem'⟩
  · intro k' v' hv'
    rcases hcases k' v' hv' with ⟨rfl, rfl⟩ | ⟨-, hw'⟩
    · exact h.owned k' w hw
    · exact h.owned k' v' hw'
  · intro k' hk'
    have hnone := h.new k' hk'
    have hk : k' ≠ k := by
      rintro rfl
      rw [hw] at hnone
      cases hnone
    exact (hother k' hk).trans hnone
  · intro k' v' hv' hstart
    rcases hcases k' v' hv' with ⟨rfl, rfl⟩ | ⟨hk, hw'⟩
    · cases hstart
    · have hout := wrapper_not_mem_insert (m := w.timeout) (n := n) hk hw' fun hin => by
        rw [hstart] at hin
        exact absurd hin.2 nofun
      have hsame := (hclosed.append_same (Or.inl rfl) hne hout).1
      exact hsame.trans (h.fresh k' v' hw' hstart)
  · intro k' v' start hv' hstart
    rcases hcases k' v' hv' with ⟨rfl, rfl⟩ | ⟨hk, hw'⟩
    · rw [← hstart]
      exact Function.update_self ..
    · rw [Function.update_of_ne (hitem k' v' hw' hk)]
      exact h.dated k' v' start hw' hstart
  · intro k' v' hv' hstart
    rcases hcases k' v' hv' with ⟨rfl, rfl⟩ | ⟨-, hw'⟩
    · exact ⟨n, hn⟩
    · exact h.made k' v' hw' hstart
  · intro m' n' hn'
    have hmembers' : ((s.setWrapper k v).append n (.wrapper k)).members m' n' =
        (s.setWrapper k v).members m' n' := rfl
    rw [hmembers', hmembers]
    by_cases hm : m' = w.timeout
    · subst hm
      obtain rfl := Option.some_inj.mp (hn.symm.trans hn')
      rw [if_pos rfl]
      exact hclosed.append (Or.inl rfl) hne
    · rw [if_neg hm]
      apply (h.closed m' n' hn').congr
      intro x hx
      apply hclosed.append_same (Or.inl rfl) hne
      rintro (rfl | hmem)
      · exact hm ((wrapper_mem_members hw).mp hx).1.symm
      · exact members_disjoint h.inj hn hn' hm hx hmem

/-- A list is made in `insert`. -/
theorem Dated.newList (h : s.Dated since) (hm : s.lists m = none) : (s.newList m).Dated since := by
  have hnew : ∀ m', s.lists m' ≠ some s.loop.created := fun m' hn =>
    absurd (h.listed m' _ hn) (lt_irrefl _)
  refine ⟨h.alive, h.wrapped, h.owned, h.new, ?_, h.dated, newList_made h.made,
    newList_inj hnew h.inj, ?_, newList_closed hm hnew h.made h.closed, ?_, ?_⟩
  · intro k w hw hstart
    exact (newList_same (x := .wrapper k) nofun).1.trans (h.fresh k w hw hstart)
  · intro m' n' hn'
    have hcreated : (s.newList m).loop.created = s.loop.created + 1 := rfl
    rw [hcreated]
    rcases newList_cases hnew hn' with ⟨-, rfl⟩ | ⟨hn', -⟩
    · exact Nat.lt_succ_self _
    · exact (h.listed m' n' hn').trans (Nat.lt_succ_self _)
  · intro n' m' hm'
    have hcallbacks : (s.newList m).callbacks n' =
        if n' = s.loop.created then some m else s.callbacks n' := Function.update_apply ..
    rw [hcallbacks] at hm'
    split_ifs at hm' with hn'
    · obtain rfl := Option.some_inj.mp hm'
      rw [newList_lists, if_pos rfl, hn']
    · exact newList_old hm (h.callbacks n' m' hm')
  · intro c hc
    exact newList_old hm (h.handler c hc)

theorem Dated.insert (h : s.Dated since) (hw : s.wrappers k = some w) (hpos : ¬ w.timeout < 0)
    (now : τ) : (s.insert k w w.timeout now).Dated (Function.update since w.item (some now)) := by
  have hlisted : ∀ {t : IdleTimers ι τ} {n : ℕ}, t.Dated since → t.wrappers k = some w →
      t.lists w.timeout = some n →
      (t.insert k w w.timeout now).Dated (Function.update since w.item (some now)) := by
    intro t n ht hw' hn
    rw [insert_eq hn hpos]
    split_ifs
    · exact (ht.again n w.timeout).append hw' hn now
    · exact ht.append hw' hn now
  cases hn : s.lists w.timeout with
  | some n => exact hlisted h hw hn
  | none =>
    rw [insert_newList hn w now hpos]
    have hn' : (s.newList w.timeout).lists w.timeout = some s.loop.created :=
      Function.update_self ..
    exact hlisted (h.newList hn) hw hn'

theorem calls_active_timeout (q : IdleQueues ι τ) (i : ι) : (q.active i).timeout = q.timeout := by
  unfold IdleQueues.active
  split <;> rfl

theorem listOf_same (s : IdleTimers ι τ) (m : τ) :
    (s.listOf m).1.calls = s.calls ∧ (s.listOf m).1.handler = s.handler ∧
      (s.listOf m).1.loop.waits = s.loop.waits := by
  unfold listOf
  split <;> exact ⟨rfl, rfl, rfl⟩

/-- `Active` leaves the record to `step`, and goes on in the handler it is called from. -/
theorem active_same (s : IdleTimers ι τ) (i : ι) (now : τ) :
    (s.active i now).calls = s.calls ∧ (s.active i now).handler = s.handler ∧
      s.loop.waits.length ≤ (s.active i now).loop.waits.length := by
  have hinsert : ∀ k w, (s.insert k w w.timeout now).calls = s.calls ∧
      (s.insert k w w.timeout now).handler = s.handler ∧
      s.loop.waits.length ≤ (s.insert k w w.timeout now).loop.waits.length := by
    intro k w
    obtain ⟨hcalls, hhandler, hwaits⟩ :=
      listOf_same (s.setWrapper k { w with start := some now }) w.timeout
    have hsame : s.loop.waits.length =
        ((s.setWrapper k { w with start := some now }).listOf w.timeout).1.loop.waits.length :=
      (congrArg List.length hwaits).symm
    have hagain := hsame.le.trans (TimerLoop.length_again _
      ((s.setWrapper k { w with start := some now }).listOf w.timeout).2
      [some (LuaNumber.toInteger w.timeout)])
    unfold IdleTimers.insert
    dsimp only
    split_ifs
    · exact ⟨rfl, rfl, le_rfl⟩
    · exact ⟨hcalls, hhandler, hagain⟩
    · exact ⟨hcalls, hhandler, hagain⟩
    · exact ⟨hcalls, hhandler, hsame.le⟩
    · exact ⟨hcalls, hhandler, hsame.le⟩
  unfold IdleTimers.active
  split
  · exact ⟨rfl, rfl, le_rfl⟩
  · split
    · exact ⟨rfl, rfl, le_rfl⟩
    · split_ifs
      · exact hinsert _ _
      · split <;> exact ⟨rfl, rfl, le_rfl⟩

/-- `Active`, also of an item that has timed out. -/
theorem Dated.active (h : s.Dated since) (i : ι) (now : τ) :
    Dated { s.active i now with calls := s.calls.active i } (Function.update since i (some now)) := by
  have hactive : (s.active i now).Dated (Function.update since i (some now)) := by
    cases hi : s.items i with
    | none =>
      have hsame : s.active i now = s := by
        rw [IdleTimers.active, hi]
      rw [hsame]
      refine ⟨h.alive, h.wrapped, h.owned, h.new, h.fresh, ?_, h.made, h.inj, h.listed, h.closed,
        h.callbacks, h.handler⟩
      intro k w start hw hstart
      have hne : w.item ≠ i := by
        rintro rfl
        rw [(h.owned k w hw).1] at hi
        cases hi
      rw [Function.update_of_ne hne]
      exact h.dated k w start hw hstart
    | some k =>
      obtain ⟨w, hw, rfl⟩ := h.wrapped i k hi
      have hpos := (h.owned k w hw).2.2
      cases hstart : w.start with
      | none =>
        have hinsert : s.active w.item now = s.insert k w w.timeout now := by
          simp only [IdleTimers.active, hi, hw, if_pos (h.fresh k w hw hstart)]
        rw [hinsert]
        exact h.insert hw hpos now
      | some start =>
        have hstarted : w.start.isSome = true := by rw [hstart]; rfl
        obtain ⟨n, hn⟩ := h.made k w hw hstarted
        have hmem : IdleNode.wrapper k ∈ s.members w.timeout n :=
          (wrapper_mem_members hw).mpr ⟨rfl, hstarted⟩
        have hnext : s.links.next (.wrapper k) ≠ .item w.item := by
          intro heq
          have hin := (h.closed _ _ hn _ hmem).1
          rw [heq] at hin
          exact item_not_mem_members hin
        have hagain : s.active w.item now =
            ((s.remove (.wrapper k)).setWrapper k { w with start := some now }).append n
              (.wrapper k) := by
          simp only [IdleTimers.active, hi, hw, if_neg hnext, hn, appendAgain_eq]
          rfl
        rw [hagain]
        exact (h.remove hn hmem).append hw hn now
  refine hactive.congr rfl rfl rfl rfl rfl rfl ?_ rfl hactive.alive hactive.handler
  rw [(active_same s i now).1]
  exact calls_active_timeout s.calls i

/-- `Enroll` of an item that is not enrolled. -/
theorem Dated.enroll (h : s.Dated since) (hi : s.items i = none) (hm : 0 < m) :
    Dated { s.enroll i m with calls := s.calls.enroll i m } since := by
  have heq : ({ s.enroll i m with calls := s.calls.enroll i m } : IdleTimers ι τ) =
      { s.newWrapper ⟨i, m, none⟩ with
        items := Function.update s.items i (some s.created)
        calls := s.calls.enroll i m } := by
    simp only [IdleTimers.enroll, hi, Option.bind_none]
    rfl
  rw [heq]
  have hnew := h.new s.created le_rfl
  have hother : ∀ k w, s.wrappers k = some w → w.item ≠ i := by
    rintro k w hw rfl
    rw [(h.owned k w hw).1] at hi
    cases hi
  refine ⟨h.alive, ?_, ?_, ?_, ?_, ?_, ?_, h.inj, h.listed, ?_, h.callbacks, h.handler⟩
  · intro j k hj
    by_cases hji : j = i
    · subst hji
      have hself : Function.update s.items j (some s.created) j = some s.created :=
        Function.update_self ..
      obtain rfl := Option.some_inj.mp (hself.symm.trans hj)
      exact ⟨⟨j, m, none⟩, newWrapper_wrapper, rfl⟩
    · have hj' : s.items j = some k := (Function.update_of_ne hji ..).symm.trans hj
      obtain ⟨w, hw, hitem⟩ := h.wrapped j k hj'
      exact ⟨w, (newWrapper_old hnew hw).1, hitem⟩
  · intro k w hw
    rcases newWrapper_cases hw with ⟨rfl, rfl⟩ | ⟨-, hw⟩
    · exact ⟨Function.update_self .., Function.update_self .., hm.not_gt⟩
    · obtain ⟨hitems, htimeout, hpos⟩ := h.owned k w hw
      have hitem := hother k w hw
      exact ⟨(Function.update_of_ne hitem ..).trans hitems,
        (Function.update_of_ne hitem ..).trans htimeout, hpos⟩
  · intro k hk
    have hlt : s.created < k := hk
    exact (newWrapper_wrapper_ne hlt.ne').trans (h.new k hlt.le)
  · intro k w hw hstart
    rcases newWrapper_cases hw with ⟨rfl, rfl⟩ | ⟨-, hw⟩
    · exact newWrapper_links.1
    · exact (newWrapper_old hnew hw).2.1.trans (h.fresh k w hw hstart)
  · intro k w start hw hstart
    rcases newWrapper_cases hw with ⟨-, rfl⟩ | ⟨-, hw⟩
    · cases hstart
    · exact h.dated k w start hw hstart
  · intro k w hw hstart
    rcases newWrapper_cases hw with ⟨-, rfl⟩ | ⟨-, hw⟩
    · cases hstart
    · exact h.made k w hw hstart
  · intro m' n hn
    have hmembers : ({ s.newWrapper ⟨i, m, none⟩ with
        items := Function.update s.items i (some s.created)
        calls := s.calls.enroll i m } : IdleTimers ι τ).members m' n = s.members m' n :=
      newWrapper_members hnew rfl m' n
    rw [hmembers]
    exact (h.closed m' n hn).congr fun x hx => newWrapper_members_same hnew hx

/-! ### A Timer fires -/

/-- The wrapper that the loop in a callback comes to, when its list lets it go. -/
def comesTo (s : IdleTimers ι τ) (c : IdleCallback τ) : Option (IdleWrapper ι τ) :=
  match s.peek c.list with
  | some first =>
    if (s.remove first).peek c.list = some first then none else s.wrapperOf first
  | none => none

/-- The item whose `_onTimeout` the loop in a callback calls. -/
def called (s : IdleTimers ι τ) (c : IdleCallback τ) : Option ι :=
  match s.comesTo c with
  | some ⟨item, _, some start⟩ => if c.now - start < c.msecs then none else some item
  | _ => none

/-- The callback whose loop goes on in a step, with the state in which it does. -/
def looping (s : IdleTimers ι τ) : IdleEvent ι τ → Option (IdleTimers ι τ × IdleCallback τ)
  | .completes j aborted now =>
    if s.loop.running.isSome then none
    else
      let s := { s with loop := s.loop.completes j aborted }
      match s.loop.running with
      | some (_, .timer n) => (s.callbacks n).map fun msecs => (s, ⟨n, msecs, now⟩)
      | _ => none
  | .returns => s.handler.map fun c => (s, c)
  | _ => none

/-- An assertion that has failed in the callback of a list is an error of this callback. -/
def afterAssertion (s : IdleTimers ι τ) : IdleTimers ι τ :=
  if s.failed then { s with failed := false }.ends (.raises "assertion failed!".toList) else s

/-- Whether it calls the item. -/
theorem called_wrapper {c : IdleCallback τ} {start : τ} (hpeek : s.peek c.list = some (.wrapper k))
    (hw : s.wrappers k = some w) (hstart : w.start = some start) : s.called c =
      if (s.remove (.wrapper k)).peek c.list = some (.wrapper k) then none
      else if c.now - start < c.msecs then none else some w.item := by
  obtain ⟨item, timeout, _⟩ := w
  dsimp only at hstart
  subst hstart
  simp only [called, comesTo, hpeek, wrapperOf, hw]
  split_ifs with hstays hwait
  · rfl
  · exact if_pos hwait
  · exact if_neg hwait

omit [LuaNumber τ] [DecidableEq ι] in
theorem afterAssertion_of_alive (h : s.failed = false) : s.afterAssertion = s := by
  rw [afterAssertion, h]
  rfl

omit [DecidableEq ι] in
theorem Dated.fail (h : s.Dated since) : s.fail.afterAssertion.Dated since := by
  have hsame : s.fail.afterAssertion = s.ends (.raises "assertion failed!".toList) := by
    have halive := h.alive
    obtain ⟨_, _, _, _, _, _, _, _, failed, _⟩ := s
    dsimp only at halive
    subst halive
    rfl
  rw [hsame]
  exact h.ends _

/-- A list leads to its own wrappers. -/
theorem Dated.peek (h : s.Dated since) (hn : s.lists m = some n) {first : IdleNode ι}
    (hpeek : s.peek n = some first) : ∃ k w start, first = .wrapper k ∧ s.wrappers k = some w ∧
      w.timeout = m ∧ w.start = some start := by
  unfold IdleTimers.peek at hpeek
  split_ifs at hpeek with hempty
  obtain rfl := Option.some_inj.mp hpeek
  rcases (h.closed m n hn _ (Or.inl rfl)).2 with heq | ⟨k, w, heq, hw, hm, hstart⟩
  · exact absurd heq hempty
  · obtain ⟨start, hstart⟩ := Option.isSome_iff_exists.mp hstart
    exact ⟨k, w, start, heq, hw, hm, hstart⟩

theorem Dated.expire (h : s.Dated since) {c : IdleCallback τ} (hn : s.lists c.msecs = some c.list) :
    (s.expire c).afterAssertion.Dated since := by
  cases hpeek : s.peek c.list with
  | none =>
    simp only [IdleTimers.expire, hpeek]
    split_ifs
    · have hends := (h.stop c.list).ends (.returns [])
      rw [afterAssertion_of_alive hends.alive]
      exact hends
    · exact h.fail
  | some first =>
    obtain ⟨k, w, start, rfl, hw, hm, hstart⟩ := h.peek hn hpeek
    have hremove := h.remove hn (x := .wrapper k)
      ((wrapper_mem_members hw).mpr ⟨hm, by rw [hstart]; rfl⟩)
    rw [expire_wrapper hpeek hw hstart]
    split_ifs
    · have hends := (h.again c.list (c.msecs - (c.now - start))).ends (.returns [])
      rw [afterAssertion_of_alive hends.alive]
      exact hends
    · exact hremove.fail
    · have hcalls : Dated { s.remove (.wrapper k) with
          handler := some c, calls := s.calls.leave w.item } since := by
        refine hremove.congr rfl rfl rfl rfl rfl rfl rfl rfl hremove.alive ?_
        intro c' hc'
        obtain rfl := Option.some_inj.mp hc'
        exact hn
      rw [afterAssertion_of_alive hcalls.alive]
      exact hcalls

/-- The item that is called is that of the wrapper which has just left its list. -/
theorem Dated.called (h : s.Dated since) {c : IdleCallback τ} (hn : s.lists c.msecs = some c.list)
    {i : ι} (hcalled : s.called c = some i) : ∃ w start, s.comesTo c = some w ∧ w.item = i ∧
      since i = some start ∧ s.calls.timeout i = some c.msecs ∧ c.msecs ≤ c.now - start := by
  unfold IdleTimers.called at hcalled
  split at hcalled
  next item timeout start hcomes =>
    split_ifs at hcalled with hwait
    obtain rfl := Option.some_inj.mp hcalled
    have hfirst := hcomes
    unfold comesTo at hfirst
    split at hfirst
    next first hpeek =>
      split_ifs at hfirst
      obtain ⟨k, w, start', rfl, hw, hm, hstart⟩ := h.peek hn hpeek
      obtain rfl := Option.some_inj.mp (hw.symm.trans hfirst)
      refine ⟨_, start, hcomes, rfl, h.dated k _ start hw rfl, ?_, not_lt.mp hwait⟩
      rw [← hm]
      exact (h.owned k _ hw).2.1
    next => cases hfirst
  next => cases hcalled

/-- The list waits on for the wrapper that the loop comes to when no item is called. -/
theorem Dated.waits (h : s.Dated since) {c : IdleCallback τ} (hn : s.lists c.msecs = some c.list)
    (hcomes : s.comesTo c = some w) (hcalled : s.called c = none) :
    ∃ start, since w.item = some start ∧ c.now - start < c.msecs := by
  have hfirst := hcomes
  unfold comesTo at hfirst
  split at hfirst
  next first hpeek =>
    split_ifs at hfirst with hstays
    obtain ⟨k, w', start, rfl, hw, -, hstart⟩ := h.peek hn hpeek
    obtain rfl := Option.some_inj.mp (hw.symm.trans hfirst)
    rw [called_wrapper hpeek hw hstart, if_neg hstays] at hcalled
    refine ⟨start, h.dated k _ start hw hstart, ?_⟩
    by_contra hwait
    rw [if_neg hwait] at hcalled
    cases hcalled
  next => cases hfirst

/-- The record of calls is that of the steps: a handler runs after the loop went on exactly when an item was
called. -/
theorem Dated.handler_iff (h : s.Dated since) {c : IdleCallback τ}
    (hn : s.lists c.msecs = some c.list) (halive : (s.expire c).failed = false) :
    (s.expire c).handler.isSome = (s.called c).isSome := by
  cases hpeek : s.peek c.list with
  | none =>
    have hcalled : s.called c = none := by
      simp only [IdleTimers.called, comesTo, hpeek]
    rw [hcalled]
    simp only [IdleTimers.expire, hpeek] at halive ⊢
    split_ifs at halive ⊢
    · rfl
    · cases halive
  | some first =>
    obtain ⟨k, w, start, rfl, hw, -, hstart⟩ := h.peek hn hpeek
    rw [expire_wrapper hpeek hw hstart] at halive ⊢
    rw [called_wrapper hpeek hw hstart]
    split_ifs at halive ⊢
    · rfl
    · rfl
    · cases halive
    · rfl

/-- The loop of a callback goes on with a list of its own timeout. -/
theorem Dated.looping (h : s.Dated since) {e : IdleEvent ι τ} {c : IdleCallback τ}
    (hloop : s.looping e = some (t, c)) : t.Dated since ∧ t.lists c.msecs = some c.list ∧
      t.calls = s.calls ∧ s.step e = t.expire c := by
  cases e with
  | completes j aborted now =>
    have hstep : s.step (.completes j aborted now) = s.completes j aborted now := by
      simp only [IdleTimers.step, h.alive, Bool.false_eq_true, if_false]
    rw [hstep]
    unfold IdleTimers.completes
    simp only [IdleTimers.looping] at hloop
    split_ifs at hloop ⊢ with hbusy
    have hidle : ({ s with loop := s.loop.completes j aborted } : IdleTimers ι τ).Dated since :=
      h.congr rfl rfl rfl rfl rfl rfl rfl (TimerLoop.completes_created ..) h.alive h.handler
    split at hloop
    next n hrunning =>
      obtain ⟨msecs, hmsecs, hpair⟩ := Option.map_eq_some_iff.mp hloop
      obtain ⟨rfl, rfl⟩ := Prod.mk.inj hpair
      refine ⟨hidle, h.callbacks _ _ hmsecs, rfl, ?_⟩
      dsimp only
      rw [hrunning]
      dsimp only
      rw [hmsecs]
    next => cases hloop
  | returns =>
    obtain ⟨c', hc', hpair⟩ := Option.map_eq_some_iff.mp hloop
    obtain ⟨rfl, rfl⟩ := Prod.mk.inj hpair
    refine ⟨h, h.handler _ hc', rfl, ?_⟩
    simp only [IdleTimers.step, h.alive, Bool.false_eq_true, if_false, hc']
  | _ => cases hloop

/-- Where no loop goes on, nothing but the event loop changes. -/
theorem Dated.waiting (h : s.Dated since) {e : IdleEvent ι τ} (hloop : s.looping e = none)
    (he : (∃ j aborted now, e = .completes j aborted now) ∨ e = .returns) :
    (s.step e).Dated since ∧ (s.step e).handler = s.handler := by
  rcases he with ⟨j, aborted, now, rfl⟩ | rfl
  · have hstep : s.step (.completes j aborted now) = s.completes j aborted now := by
      simp only [IdleTimers.step, h.alive, Bool.false_eq_true, if_false]
    rw [hstep]
    unfold IdleTimers.completes
    simp only [IdleTimers.looping] at hloop
    split_ifs at hloop ⊢ with hbusy
    · exact ⟨h, rfl⟩
    · have hidle : ({ s with loop := s.loop.completes j aborted } : IdleTimers ι τ).Dated since :=
        h.congr rfl rfl rfl rfl rfl rfl rfl (TimerLoop.completes_created ..) h.alive h.handler
      dsimp only
      split
      next n hrunning =>
        rw [hrunning] at hloop
        have hnone : s.callbacks n = none := Option.map_eq_none_iff.mp hloop
        rw [hnone]
        exact ⟨hidle, rfl⟩
      next => exact ⟨hidle, rfl⟩
  · have hnone : s.handler = none := Option.map_eq_none_iff.mp hloop
    simp only [IdleTimers.step, h.alive, Bool.false_eq_true, if_false, hnone]
    exact ⟨h, trivial⟩

/-- A completion, or the return of a handler. -/
theorem Dated.fires (h : s.Dated since) {e : IdleEvent ι τ}
    (he : (∃ j aborted now, e = .completes j aborted now) ∨ e = .returns) :
    (s.step e).afterAssertion.Dated since := by
  cases hloop : s.looping e with
  | none =>
    have hwaits := (h.waiting hloop he).1
    rw [afterAssertion_of_alive hwaits.alive]
    exact hwaits
  | some p =>
    obtain ⟨hdated, hn, -, hstep⟩ := h.looping hloop
    rw [hstep]
    exact hdated.expire hn

omit [LuaNumber τ] [DecidableEq ι] in
theorem length_ends (s : IdleTimers ι τ) (outcome : TimerOutcome) :
    s.loop.waits.length ≤ (s.ends outcome).loop.waits.length :=
  s.loop.length_ends outcome

omit [LuaNumber τ] [DecidableEq ι] in
theorem length_afterAssertion (s : IdleTimers ι τ) :
    s.loop.waits.length ≤ s.afterAssertion.loop.waits.length := by
  unfold afterAssertion
  split_ifs
  · exact s.loop.length_ends _
  · exact le_rfl

/-- The callback of a list takes no wait away. -/
theorem length_expire (s : IdleTimers ι τ) (c : IdleCallback τ) :
    s.loop.waits.length ≤ (s.expire c).loop.waits.length := by
  unfold IdleTimers.expire
  split
  · split_ifs
    · calc s.loop.waits.length = (s.stop c.list).loop.waits.length :=
          (s.loop.length_stop c.list).symm
        _ ≤ ((s.stop c.list).ends (.returns [])).loop.waits.length := length_ends ..
    · exact le_rfl
  · split
    · dsimp only
      split_ifs
      · exact le_trans (s.loop.length_again _ _) (TimerLoop.length_ends _ _)
      · exact le_rfl
      · exact le_rfl
    · exact le_rfl

/-- A completion takes away no more than the wait that completes, and a return none. -/
theorem Dated.length_completes (h : s.Dated since) (j : ℕ) (aborted : Bool) (now : τ) :
    (s.loop.completes j aborted).waits.length ≤
      (s.step (.completes j aborted now)).loop.waits.length := by
  have hstep : s.step (.completes j aborted now) = s.completes j aborted now := by
    simp only [IdleTimers.step, h.alive, Bool.false_eq_true, if_false]
  rw [hstep]
  unfold IdleTimers.completes
  split_ifs with hbusy
  · obtain ⟨f, hf⟩ := Option.isSome_iff_exists.mp hbusy
    simp [TimerLoop.completes, hf]
  · dsimp only
    split
    · split
      · exact length_expire { s with loop := s.loop.completes j aborted } _
      · exact le_rfl
    · exact le_rfl

theorem Dated.length_returns (h : s.Dated since) :
    s.loop.waits.length ≤ (s.step .returns).loop.waits.length := by
  simp only [IdleTimers.step, h.alive, Bool.false_eq_true, if_false]
  split
  · exact length_expire s _
  · exact le_rfl

/-- A handler runs in the callback that has called it. -/
theorem expire_handler (s : IdleTimers ι τ) (c : IdleCallback τ) :
    ∀ c' ∈ (s.expire c).afterAssertion.handler, c' = c := by
  have hends : ∀ (t : IdleTimers ι τ) outcome, (t.ends outcome).afterAssertion.handler = none := by
    intro t outcome
    unfold afterAssertion
    split_ifs <;> rfl
  have hfail : ∀ t : IdleTimers ι τ, t.fail.afterAssertion.handler = none := fun _ => rfl
  unfold IdleTimers.expire
  split
  · split_ifs
    · rw [hends]
      nofun
    · rw [hfail]
      nofun
  · split
    · dsimp only
      split_ifs
      · rw [hends]
        nofun
      · rw [hfail]
        nofun
      · intro c' hc'
        unfold afterAssertion at hc'
        split_ifs at hc'
        · cases hc'
        · exact (Option.some_inj.mp hc').symm
    · rw [hfail]
      nofun

omit [DecidableEq ι] in
/-- A callback that goes on has read the clock at this completion, or its handler was running. -/
theorem looping_now {e : IdleEvent ι τ} {c : IdleCallback τ} (hloop : s.looping e = some (t, c)) :
    (∃ j aborted, e = .completes j aborted c.now) ∨ c ∈ s.handler := by
  cases e with
  | completes j aborted now =>
    simp only [IdleTimers.looping] at hloop
    split_ifs at hloop
    split at hloop
    next n hrunning =>
      obtain ⟨msecs, -, hpair⟩ := Option.map_eq_some_iff.mp hloop
      obtain ⟨-, rfl⟩ := Prod.mk.inj hpair
      exact .inl ⟨j, aborted, rfl⟩
    next => cases hloop
  | returns =>
    obtain ⟨c', hc', hpair⟩ := Option.map_eq_some_iff.mp hloop
    obtain ⟨-, rfl⟩ := Prod.mk.inj hpair
    exact .inr hc'
  | _ => cases hloop

/-- The handler that runs after a completion or a return. -/
theorem Dated.fires_handler (h : s.Dated since) {e : IdleEvent ι τ}
    (he : (∃ j aborted now, e = .completes j aborted now) ∨ e = .returns) :
    ∀ c ∈ (s.step e).afterAssertion.handler, c ∈ s.handler ∨ ∃ t, s.looping e = some (t, c) := by
  intro c hc
  cases hloop : s.looping e with
  | none =>
    obtain ⟨hdated, hhandler⟩ := h.waiting hloop he
    rw [afterAssertion_of_alive hdated.alive, hhandler] at hc
    exact .inl hc
  | some p =>
    obtain ⟨-, -, -, hstep⟩ := h.looping hloop
    rw [hstep] at hc
    obtain rfl := expire_handler _ _ c hc
    exact .inr ⟨_, rfl⟩

end LuaNode.IdleTimers
