import LuaNode.Loop.IdleTimers

/-!
# The links of the idle lists

The wrappers of a list, and those that were in it, point to each other and to the list only. A wrapper
that has timed out still points to the list.
-/

namespace LuaNode.IdleTimers

variable {ι τ : Type*} {s : IdleTimers ι τ} {i : ι} {k n : ℕ} {m : τ} {w : IdleWrapper ι τ}

/-- The node of an item in a list. -/
def node (s : IdleTimers ι τ) (i : ι) : IdleNode ι :=
  match s.items i with
  | some k => .wrapper k
  | none => .item i

/-- A list, and the wrappers that are or were in it. -/
def members (s : IdleTimers ι τ) (m : τ) (n : ℕ) : Set (IdleNode ι) :=
  {x | x = .timer n ∨ ∃ k w, x = .wrapper k ∧ s.wrappers k = some w ∧ w.timeout = m ∧ w.start.isSome}

/-- The wrappers and the lists agree with the record. -/
structure Wrapped [LuaNumber τ] (s : IdleTimers ι τ) : Prop where
  wrapper : ∀ i k, s.items i = some k → ∃ w, s.wrappers k = some w ∧ w.item = i ∧
    s.calls.timeout i = some w.timeout ∧ ¬ w.timeout < 0
  enrolled : ∀ i, s.items i = none → s.calls.timeout i = none
  queued : ∀ m, ∀ i ∈ s.calls.queue m, ∃ k w, s.items i = some k ∧ s.wrappers k = some w ∧
    w.timeout = m ∧ w.start.isSome
  new : ∀ k, s.created ≤ k → s.wrappers k = none
  made : ∀ k w, s.wrappers k = some w → w.start.isSome → ∃ n, s.lists w.timeout = some n
  inj : ∀ m m' n, s.lists m = some n → s.lists m' = some n → m = m'

structure Laid [LuaNumber τ] (s : IdleTimers ι τ) : Prop extends Wrapped s where
  fresh : ∀ i k w, s.items i = some k → s.wrappers k = some w → w.start = none →
    s.links.next (.wrapper k) = .item i ∧ s.links.prev (.wrapper k) = .item i
  closed : ∀ m n, s.lists m = some n → s.links.Closed (s.members m n)
  ring : ∀ m n, s.lists m = some n → s.links.Ring (.timer n) ((s.calls.queue m).map s.node)

/-- An item that has been active, and is enrolled, but is not in its list. -/
structure Left (s : IdleTimers ι τ) (i : ι) (k : ℕ) (w : IdleWrapper ι τ) (n : ℕ) : Prop where
  item : s.items i = some k
  wrapper : s.wrappers k = some w
  start : w.start.isSome
  list : s.lists w.timeout = some n
  out : i ∉ s.calls.queue w.timeout

/-- One list is linked anew, after an activity of the item in the wrapper `k`, or without it. -/
def relink [DecidableEq τ] (s : IdleTimers ι τ) (l : Links (IdleNode ι)) (k : ℕ) (w : IdleWrapper ι τ)
    (is : List ι) : IdleTimers ι τ :=
  { s with
    links := l
    wrappers := Function.update s.wrappers k (some w)
    calls := { s.calls with queue := Function.update s.calls.queue w.timeout is } }

theorem node_of_items (h : s.items i = some k) : s.node i = .wrapper k := by
  rw [node, h]

theorem timer_mem_members {n' : ℕ} : IdleNode.timer n' ∈ s.members m n ↔ n' = n := by
  constructor
  · rintro (heq | ⟨k, v, heq, -⟩)
    · exact IdleNode.timer.inj heq
    · exact absurd heq nofun
  · rintro rfl
    exact Or.inl rfl

theorem wrapper_mem_members (hw : s.wrappers k = some w) :
    IdleNode.wrapper k ∈ s.members m n ↔ w.timeout = m ∧ w.start.isSome := by
  constructor
  · rintro (heq | ⟨k', v, heq, hv, hv'⟩)
    · exact absurd heq nofun
    · obtain rfl := IdleNode.wrapper.inj heq
      obtain rfl := Option.some_inj.mp (hw.symm.trans hv)
      exact hv'
  · intro hm
    exact Or.inr ⟨k, w, rfl, hw, hm⟩

theorem item_not_mem_members : IdleNode.item i ∉ s.members m n := by
  rintro (heq | ⟨k, v, heq, -⟩)
  · exact absurd heq nofun
  · exact absurd heq nofun

/-- The wrapper of another item, which is not in this list. -/
theorem wrapper_not_mem_insert {k' : ℕ} (hk : k' ≠ k) (hw : s.wrappers k' = some w)
    (hout : ¬ (w.timeout = m ∧ w.start.isSome)) :
    IdleNode.wrapper k' ∉ Insert.insert (IdleNode.wrapper k) (s.members m n) := by
  rintro (heq | hmem)
  · exact hk (IdleNode.wrapper.inj heq)
  · exact hout ((wrapper_mem_members hw).mp hmem)

/-- Two lists have no wrapper in common. -/
theorem members_disjoint {m' : τ} {n' : ℕ}
    (hinj : ∀ m m' n, s.lists m = some n → s.lists m' = some n → m = m') (hn : s.lists m = some n)
    (hn' : s.lists m' = some n') (hne : m' ≠ m) {x : IdleNode ι} (hx : x ∈ s.members m' n') :
    x ∉ s.members m n := by
  rintro (rfl | ⟨k, v, rfl, hv, hm, -⟩)
  · obtain rfl := timer_mem_members.mp hx
    exact hne (hinj m' m n hn' hn)
  · exact hne (((wrapper_mem_members hv).mp hx).1.symm.trans hm)

variable [LuaNumber τ]

section Wrapped

variable (h : s.Wrapped)

include h

theorem Wrapped.item (hi : s.items i = some k) (hw : s.wrappers k = some w) : w.item = i := by
  obtain ⟨v, hv, hitem, -⟩ := h.wrapper i k hi
  rw [Option.some_inj.mp (hw.symm.trans hv)]
  exact hitem

theorem Wrapped.timeout (hi : s.items i = some k) (hw : s.wrappers k = some w) :
    s.calls.timeout i = some w.timeout ∧ ¬ w.timeout < 0 := by
  obtain ⟨v, hv, -, htimeout⟩ := h.wrapper i k hi
  rw [Option.some_inj.mp (hw.symm.trans hv)]
  exact htimeout

theorem Wrapped.of_queued (hi : s.items i = some k) (hw : s.wrappers k = some w)
    (hq : i ∈ s.calls.queue m) : w.timeout = m ∧ w.start.isSome := by
  obtain ⟨k', v, hk', hv, hv'⟩ := h.queued m i hq
  obtain rfl := Option.some_inj.mp (hi.symm.trans hk')
  rw [Option.some_inj.mp (hw.symm.trans hv)]
  exact hv'

theorem Wrapped.node_inj {j : ι} (hi : s.items i = some k) (hj : j ∈ s.calls.queue m)
    (heq : s.node j = .wrapper k) : j = i := by
  obtain ⟨k', v, hk', hv, -⟩ := h.queued m j hj
  rw [node_of_items hk'] at heq
  obtain rfl := IdleNode.wrapper.inj heq
  rw [← h.item hk' hv, h.item hi hv]

theorem Wrapped.node_mem (hi : i ∈ s.calls.queue m) : s.node i ∈ s.members m n := by
  obtain ⟨k, v, hk, hv⟩ := h.queued m i hi
  rw [node_of_items hk]
  exact Or.inr ⟨k, v, rfl, hv⟩

theorem Wrapped.disjoint {m' : τ} {n' : ℕ} (hn : s.lists m = some n) (hn' : s.lists m' = some n')
    (hne : m' ≠ m) {x : IdleNode ι} (hx : x ∈ s.members m' n') : x ∉ s.members m n :=
  members_disjoint h.inj hn hn' hne hx

theorem Wrapped.ring_mem {x : IdleNode ι}
    (hx : x ∈ .timer n :: (s.calls.queue m).map s.node) : x ∈ s.members m n := by
  rcases List.mem_cons.mp hx with rfl | hx
  · exact Or.inl rfl
  · obtain ⟨i, hi, rfl⟩ := List.mem_map.mp hx
    exact h.node_mem hi

theorem Wrapped.not_queued (hi : s.items i = none) (m : τ) : i ∉ s.calls.queue m := by
  intro hq
  obtain ⟨k, w, hk, -⟩ := h.queued m i hq
  exact absurd (hi.symm.trans hk) nofun

end Wrapped

/-! ### One list is linked anew -/

section Relink

variable {l : Links (IdleNode ι)} {v : IdleWrapper ι τ} {is : List ι}

theorem relink_wrapper : (s.relink l k v is).wrappers k = some v :=
  Function.update_self ..

theorem relink_wrapper_ne {k' : ℕ} (hne : k' ≠ k) :
    (s.relink l k v is).wrappers k' = s.wrappers k' :=
  Function.update_of_ne hne ..

theorem relink_queue :
    (s.relink l k v is).calls.queue m = if m = v.timeout then is else s.calls.queue m :=
  Function.update_apply ..

theorem relink_members (hw : s.wrappers k = some w) (htimeout : v.timeout = w.timeout)
    (hstart : v.start.isSome) :
    (s.relink l k v is).members m n =
      if m = w.timeout then Insert.insert (IdleNode.wrapper k) (s.members m n) else s.members m n := by
  ext x
  constructor
  · rintro (rfl | ⟨k', v', rfl, hv', hm, hstart'⟩)
    · split_ifs
      · exact Or.inr (Or.inl rfl)
      · exact Or.inl rfl
    · by_cases hk : k' = k
      · subst hk
        obtain rfl := Option.some_inj.mp (relink_wrapper.symm.trans hv')
        rw [if_pos (hm.symm.trans htimeout)]
        exact Or.inl rfl
      · rw [relink_wrapper_ne hk] at hv'
        split_ifs
        · exact Or.inr (Or.inr ⟨k', v', rfl, hv', hm, hstart'⟩)
        · exact Or.inr ⟨k', v', rfl, hv', hm, hstart'⟩
  · have hold : x ∈ s.members m n → x ∈ (s.relink l k v is).members m n := by
      rintro (rfl | ⟨k', w', rfl, hw', hm, hstart'⟩)
      · exact Or.inl rfl
      · by_cases hk : k' = k
        · subst hk
          obtain rfl := Option.some_inj.mp (hw.symm.trans hw')
          exact Or.inr ⟨k', v, rfl, relink_wrapper, htimeout.trans hm, hstart⟩
        · exact Or.inr ⟨k', w', rfl, (relink_wrapper_ne hk).trans hw', hm, hstart'⟩
    split_ifs with hm
    · rintro (rfl | hx)
      · exact Or.inr ⟨k, v, rfl, relink_wrapper, htimeout.trans hm.symm, hstart⟩
      · exact hold hx
    · exact hold

theorem Wrapped.relink (h : s.Wrapped) (hi : s.items i = some k) (hw : s.wrappers k = some w)
    (hn : s.lists w.timeout = some n) (hitem : v.item = w.item) (htimeout : v.timeout = w.timeout)
    (hstart : v.start.isSome) (hmem : ∀ j ∈ is, j = i ∨ j ∈ s.calls.queue w.timeout) :
    (s.relink l k v is).Wrapped := by
  have hwrapper : ∀ k' w', s.wrappers k' = some w' → ∃ v', (s.relink l k v is).wrappers k' = some v' ∧
      v'.item = w'.item ∧ v'.timeout = w'.timeout ∧ (w'.start.isSome → v'.start.isSome) := by
    intro k' w' hw'
    by_cases hk : k' = k
    · subst hk
      obtain rfl := Option.some_inj.mp (hw.symm.trans hw')
      exact ⟨v, relink_wrapper, hitem, htimeout, fun _ => hstart⟩
    · exact ⟨w', (relink_wrapper_ne hk).trans hw', rfl, rfl, id⟩
  constructor
  · intro j k' hj
    obtain ⟨w', hw', hj', hcalls⟩ := h.wrapper j k' hj
    obtain ⟨v', hv', hitem', htimeout', -⟩ := hwrapper k' w' hw'
    rw [← htimeout'] at hcalls
    exact ⟨v', hv', hitem'.trans hj', hcalls⟩
  · exact h.enrolled
  · intro m j hj
    have hj' : j = i ∧ v.timeout = m ∨ j ∈ s.calls.queue m := by
      rw [relink_queue] at hj
      split_ifs at hj with hm
      · rw [htimeout] at hm
        subst hm
        exact (hmem j hj).imp_left fun heq => ⟨heq, htimeout⟩
      · exact Or.inr hj
    rcases hj' with ⟨rfl, hm⟩ | hj'
    · exact ⟨k, v, hi, relink_wrapper, hm, hstart⟩
    · obtain ⟨k', w', hk', hw', hm, hstart'⟩ := h.queued m j hj'
      obtain ⟨v', hv', -, htimeout', hstarted⟩ := hwrapper k' w' hw'
      exact ⟨k', v', hk', hv', htimeout'.trans hm, hstarted hstart'⟩
  · intro k' hk'
    rw [relink_wrapper_ne]
    · exact h.new k' hk'
    · rintro rfl
      exact absurd (hw.symm.trans (h.new k' hk')) nofun
  · intro k' v' hv' hstart'
    by_cases hk : k' = k
    · subst hk
      obtain rfl := Option.some_inj.mp (relink_wrapper.symm.trans hv')
      exact ⟨n, htimeout ▸ hn⟩
    · rw [relink_wrapper_ne hk] at hv'
      exact h.made k' v' hv' hstart'
  · exact h.inj

/-- The links `l` make a list of `is`, which differs in the item `i` at most; they do not lead out
of `S`. -/
structure Anew (s : IdleTimers ι τ) (i : ι) (k : ℕ) (w : IdleWrapper ι τ) (n : ℕ)
    (S : Set (IdleNode ι)) (l : Links (IdleNode ι)) (is : List ι) : Prop where
  mem : ∀ j ∈ is, j = i ∨ j ∈ s.calls.queue w.timeout
  keep : ∀ j ∈ s.calls.queue w.timeout, j ≠ i → j ∈ is
  same : ∀ x ∉ Insert.insert (IdleNode.wrapper k) (s.members w.timeout n), s.links.Same l x
  closed : l.Closed S
  ring : l.Ring (.timer n) (is.map s.node)
  next : ∀ x ≠ IdleNode.timer n, x ≠ .wrapper k → s.links.next x = .timer n → l.next x = .timer n

variable (h : s.Laid) (hi : s.items i = some k) (hw : s.wrappers k = some w)
  (hn : s.lists w.timeout = some n) (htimeout : v.timeout = w.timeout)
  (hl : s.Anew i k w n (Insert.insert (.wrapper k) (s.members w.timeout n)) l is)

include h hi hw hn htimeout hl

theorem Laid.relink (hitem : v.item = w.item) (hstart : v.start.isSome) : (s.relink l k v is).Laid := by
  have hothers : ∀ m' n', s.lists m' = some n' → m' ≠ w.timeout → ∀ x ∈ s.members m' n',
      s.links.Same l x := by
    intro m' n' hn' hne x hx
    apply hl.same
    rintro (rfl | hx')
    · exact hne ((wrapper_mem_members hw).mp hx).1.symm
    · exact h.disjoint hn hn' hne hx hx'
  constructor
  · exact h.toWrapped.relink hi hw hn hitem htimeout hstart hl.mem
  · intro j k' v' hj hv' hnone
    have hk : k' ≠ k := by
      rintro rfl
      obtain rfl := Option.some_inj.mp (relink_wrapper.symm.trans hv')
      rw [hnone] at hstart
      exact absurd hstart nofun
    rw [relink_wrapper_ne hk] at hv'
    have hout : ¬ (v'.timeout = w.timeout ∧ v'.start.isSome) := by simp [hnone]
    have hsame' := hl.same _ (wrapper_not_mem_insert hk hv' hout)
    obtain ⟨hnext, hprev⟩ := h.fresh j k' v' hj hv' hnone
    exact ⟨hsame'.1.trans hnext, hsame'.2.trans hprev⟩
  · intro m' n' hn'
    rw [relink_members hw htimeout hstart]
    split_ifs with hm
    · subst hm
      obtain rfl := Option.some_inj.mp (hn.symm.trans hn')
      exact hl.closed
    · exact (h.closed m' n' hn').congr (hothers m' n' hn' hm)
  · intro m' n' hn'
    rw [relink_queue, htimeout]
    split_ifs with hm
    · subst hm
      obtain rfl := Option.some_inj.mp (hn.symm.trans hn')
      exact hl.ring
    · apply (h.ring m' n' hn').congr
      intro x hx
      exact hothers m' n' hn' hm x (h.ring_mem hx)

/-- Other items that have left a list still point to it. -/
theorem Laid.relink_left {j : ι} (hne : j ≠ i)
    (hleft : ∀ k' w' n', s.Left j k' w' n' → s.links.next (.wrapper k') = .timer n')
    {k' n' : ℕ} {w' : IdleWrapper ι τ} (hj : (s.relink l k v is).Left j k' w' n') :
    l.next (.wrapper k') = .timer n' := by
  obtain ⟨hk', hw', hstart', hn', hout⟩ := hj
  have hk : k' ≠ k := by
    rintro rfl
    exact hne ((h.item hk' hw).symm.trans (h.item hi hw))
  rw [relink_wrapper_ne hk] at hw'
  rw [relink_queue, htimeout] at hout
  by_cases hm : w'.timeout = w.timeout
  · rw [if_pos hm] at hout
    have hnn : n' = n := by
      rw [← hm] at hn
      exact Option.some_inj.mp (hn'.symm.trans hn)
    subst hnn
    apply hl.next
    · nofun
    · exact fun heq => hk (IdleNode.wrapper.inj heq)
    · refine hleft k' w' n' ⟨hk', hw', hstart', hn', fun hq => hout ?_⟩
      rw [hm] at hq
      exact hl.keep j hq hne
  · rw [if_neg hm] at hout
    have hsame' := hl.same _ (wrapper_not_mem_insert hk hw' fun hmem => hm hmem.1)
    rw [hsame'.1]
    exact hleft k' w' n' ⟨hk', hw', hstart', hn', hout⟩

end Relink

/-! ### The links of each operation -/

section Operations

variable {is js : List ι}

omit [LuaNumber τ] in
theorem mem_of_split (hq : s.calls.queue m = is ++ i :: js) : i ∈ s.calls.queue m := by
  rw [hq]
  exact List.mem_append_right _ List.mem_cons_self

theorem Laid.nodup (h : s.Laid) (hn : s.lists m = some n) : (s.calls.queue m).Nodup :=
  List.Nodup.of_map _ (List.nodup_cons.mp (h.ring m n hn).nodup).2

theorem Wrapped.wrapper_not_mem (h : s.Wrapped) (hi : s.items i = some k)
    (hmem : ∀ j ∈ is, j ≠ i ∧ j ∈ s.calls.queue m) :
    IdleNode.wrapper k ∉ IdleNode.timer n :: is.map s.node := by
  intro hk
  rcases List.mem_cons.mp hk with heq | hk
  · exact absurd heq nofun
  · obtain ⟨j, hj, heq⟩ := List.mem_map.mp hk
    exact (hmem j hj).1 (h.node_inj hi (hmem j hj).2 heq)

theorem Wrapped.wrapper_mem (h : s.Wrapped) (hi : s.items i = some k)
    (hq : i ∈ s.calls.queue m) : IdleNode.wrapper k ∈ s.members m n := by
  rw [← node_of_items hi]
  exact h.node_mem hq

/-- The list stays as it is. -/
theorem Laid.anew_self (h : s.Laid) (hn : s.lists w.timeout = some n) :
    s.Anew i k w n (s.members w.timeout n) s.links (s.calls.queue w.timeout) where
  mem _ hj := Or.inr hj
  keep _ hj _ := hj
  same _ _ := ⟨rfl, rfl⟩
  closed := h.closed _ _ hn
  ring := h.ring _ _ hn
  next _ _ _ hx := hx

variable [DecidableEq ι] (h : s.Laid) (hi : s.items i = some k) (hn : s.lists w.timeout = some n)

include h hi hn

/-- The item is taken out. -/
theorem Laid.anew_unlink (hq : s.calls.queue w.timeout = is ++ i :: js) :
    s.Anew i k w n (s.members w.timeout n) (s.links.unlink (.wrapper k)) (is ++ js) := by
  have hring := h.ring _ _ hn
  have hqi := mem_of_split hq
  have hmem : IdleNode.wrapper k ∈ s.members w.timeout n := h.wrapper_mem hi hqi
  have hclosed := h.closed _ _ hn
  rw [hq, List.map_append, List.map_cons, node_of_items hi] at hring
  constructor
  · intro j hj
    right
    rw [hq]
    rcases List.mem_append.mp hj with hj | hj
    · exact List.mem_append_left _ hj
    · exact List.mem_append_right _ (List.mem_cons_of_mem i hj)
  · intro j hj hne
    rw [hq] at hj
    rcases List.mem_append.mp hj with hj | hj
    · exact List.mem_append_left _ hj
    · exact List.mem_append_right _ ((List.mem_cons.mp hj).resolve_left hne)
  · intro x hx
    exact hclosed.unlink_same hmem fun hmem' => hx (Set.mem_insert_of_mem _ hmem')
  · exact hclosed.unlink hmem
  · rw [List.map_append]
    exact hring.unlink
  · intro x _ _ hx
    exact hring.unlink_next_eq hx

omit hn in
/-- The item is put at the end. -/
theorem Laid.anew_append {l : Links (IdleNode ι)} (hl : s.Anew i k w n (s.members w.timeout n) l is)
    (hq : i ∉ is) :
    s.Anew i k w n (Insert.insert (.wrapper k) (s.members w.timeout n))
      (l.append (.timer n) (.wrapper k)) (is ++ [i]) := by
  have hhead : IdleNode.timer n ∈ s.members w.timeout n := Or.inl rfl
  constructor
  · intro j hj
    rcases List.mem_append.mp hj with hj | hj
    · exact hl.mem j hj
    · exact Or.inl (List.mem_singleton.mp hj)
  · intro j hj hne
    exact List.mem_append_left _ (hl.keep j hj hne)
  · intro x hx
    obtain ⟨hnext, hprev⟩ := hl.closed.append_same (a := .wrapper k) hhead nofun hx
    exact ⟨hnext.trans (hl.same x hx).1, hprev.trans (hl.same x hx).2⟩
  · exact hl.closed.append hhead nofun
  · rw [List.map_append, List.map_singleton, node_of_items hi]
    apply hl.ring.append
    apply h.wrapper_not_mem (m := w.timeout) hi
    intro j hj
    have hne : j ≠ i := by
      rintro rfl
      exact hq hj
    exact ⟨hne, (hl.mem j hj).resolve_left hne⟩
  · intro x hx hx' hnext
    rw [Links.append_next_of_ne hx hx']
    exact hl.next x hx hx' hnext

/-- The item is the only one, but still points to the list. -/
theorem Laid.anew_rejoin (hw : s.wrappers k = some w) (hstart : w.start.isSome) (hq : s.calls.queue w.timeout = [])
    (hnext : s.links.next (.wrapper k) = .timer n) :
    s.Anew i k w n (Insert.insert (.wrapper k) (s.members w.timeout n))
      ((s.links.unlink (.wrapper k)).append (.timer n) (.wrapper k)) [i] := by
  have hhead : IdleNode.timer n ∈ s.members w.timeout n := Or.inl rfl
  have hmem : IdleNode.wrapper k ∈ s.members w.timeout n := Or.inr ⟨k, w, rfl, hw, rfl, hstart⟩
  have hclosed := h.closed _ _ hn
  constructor
  · intro j hj
    exact Or.inl (List.mem_singleton.mp hj)
  · intro j hj
    rw [hq] at hj
    exact absurd hj List.not_mem_nil
  · intro x hx
    obtain ⟨hn₁, hp₁⟩ := (hclosed.unlink hmem).append_same (a := .wrapper k) hhead nofun hx
    obtain ⟨hn₂, hp₂⟩ := hclosed.unlink_same hmem fun hmem' => hx (Set.mem_insert_of_mem _ hmem')
    exact ⟨hn₁.trans hn₂, hp₁.trans hp₂⟩
  · exact (hclosed.unlink hmem).append hhead nofun
  · have hring := h.ring _ _ hn
    rw [hq, List.map_nil] at hring
    rw [List.map_singleton, node_of_items hi]
    exact hring.rejoin hnext nofun
  · intro x hx hx' hxnext
    rw [Links.append_next_of_ne hx hx']
    exact Links.unlink_next_of_stale hnext hxnext

end Operations

/-! ### The record -/

section Calls

variable [DecidableEq ι]

omit [LuaNumber τ] in
theorem not_mem_filter_ne (i : ι) (is : List ι) : i ∉ is.filter fun j => j ≠ i := by
  simp

omit [LuaNumber τ] in
theorem filter_ne_of_not_mem {is : List ι} (hi : i ∉ is) : is.filter (fun j => j ≠ i) = is := by
  apply List.filter_eq_self.mpr
  intro j hj
  rw [decide_eq_true_eq]
  rintro rfl
  exact hi hj

theorem Wrapped.leave_queue (h : s.Wrapped) (hi : s.items i = some k) (hw : s.wrappers k = some w) :
    (s.calls.leave i).queue = Function.update s.calls.queue w.timeout
      ((s.calls.queue w.timeout).filter fun j => j ≠ i) := by
  funext m
  rw [Function.update_apply]
  split_ifs with hm
  · subst hm
    rfl
  · apply filter_ne_of_not_mem
    intro hq
    exact hm (h.of_queued hi hw hq).1.symm

theorem Wrapped.active_eq (h : s.Wrapped) (hi : s.items i = some k) (hw : s.wrappers k = some w) :
    s.calls.active i = { s.calls with
      queue := Function.update s.calls.queue w.timeout
        ((s.calls.queue w.timeout).filter (fun j => j ≠ i) ++ [i]) } := by
  unfold IdleQueues.active
  rw [(h.timeout hi hw).1]
  dsimp only
  rw [h.leave_queue hi hw, Function.update_self, Function.update_idem]
  rfl

omit [LuaNumber τ] in
theorem leave_of_not_mem {q : IdleQueues ι τ} (hq : ∀ m, i ∉ q.queue m) : q.leave i = q := by
  have hqueue : (q.leave i).queue = q.queue := by
    funext m
    exact filter_ne_of_not_mem (hq m)
  calc q.leave i = ⟨q.timeout, (q.leave i).queue⟩ := rfl
    _ = q := by rw [hqueue]

omit [LuaNumber τ] in
theorem filter_ne_of_nodup {is js : List ι} (hnodup : (is ++ i :: js).Nodup) :
    (is ++ i :: js).filter (fun j => j ≠ i) = is ++ js := by
  obtain ⟨-, hright, hdisjoint⟩ := List.nodup_append'.mp hnodup
  have his : i ∉ is := fun hi => hdisjoint hi List.mem_cons_self
  have hjs : i ∉ js := (List.nodup_cons.mp hright).1
  rw [List.filter_append, List.filter_cons_of_neg (by simp), filter_ne_of_not_mem his,
    filter_ne_of_not_mem hjs]

end Calls

/-! ### Keeping what was left -/

structure Kept (s : IdleTimers ι τ) : Prop extends Laid s where
  left : ∀ i k w n, s.Left i k w n → s.links.next (.wrapper k) = .timer n

theorem Laid.congr (h : s.Laid) {t : IdleTimers ι τ} (hlinks : t.links = s.links)
    (hitems : t.items = s.items) (hcreated : t.created = s.created) (hwrappers : t.wrappers = s.wrappers)
    (hlists : t.lists = s.lists) (hcalls : t.calls = s.calls) : t.Laid := by
  obtain ⟨links, items, created, wrappers, lists, callbacks, loop, handler, failed, calls⟩ := t
  dsimp only at *
  subst hlinks hitems hcreated hwrappers hlists hcalls
  exact ⟨⟨h.wrapper, h.enrolled, h.queued, h.new, h.made, h.inj⟩, h.fresh, h.closed, h.ring⟩

theorem Kept.congr (h : s.Kept) {t : IdleTimers ι τ} (hlinks : t.links = s.links)
    (hitems : t.items = s.items) (hcreated : t.created = s.created) (hwrappers : t.wrappers = s.wrappers)
    (hlists : t.lists = s.lists) (hcalls : t.calls = s.calls) : t.Kept := by
  refine ⟨h.toLaid.congr hlinks hitems hcreated hwrappers hlists hcalls, ?_⟩
  intro i k w n ⟨hi, hw, hstart, hn, hout⟩
  rw [hlinks]
  rw [hitems] at hi
  rw [hwrappers] at hw
  rw [hlists] at hn
  rw [hcalls] at hout
  exact h.left i k w n ⟨hi, hw, hstart, hn, hout⟩

theorem Kept.relink (h : s.Kept) (hi : s.items i = some k) (hw : s.wrappers k = some w)
    (hn : s.lists w.timeout = some n) {v : IdleWrapper ι τ} (htimeout : v.timeout = w.timeout)
    {l : Links (IdleNode ι)} {is : List ι}
    (hl : s.Anew i k w n (Insert.insert (.wrapper k) (s.members w.timeout n)) l is)
    (hitem : v.item = w.item) (hstart : v.start.isSome)
    (hself : i ∈ is ∨ l.next (.wrapper k) = .timer n) : (s.relink l k v is).Kept := by
  refine ⟨h.toLaid.relink hi hw hn htimeout hl hitem hstart, ?_⟩
  intro j k' w' n' hleft
  by_cases hj : j = i
  · subst hj
    obtain rfl := Option.some_inj.mp (hi.symm.trans hleft.item)
    obtain rfl := Option.some_inj.mp (relink_wrapper.symm.trans hleft.wrapper)
    have hn' : n = n' := by
      have hlist : s.lists v.timeout = some n' := hleft.list
      rw [htimeout] at hlist
      exact Option.some_inj.mp (hn.symm.trans hlist)
    subst hn'
    apply hself.resolve_left
    intro hmem
    apply hleft.out
    rw [relink_queue, if_pos rfl]
    exact hmem
  · exact h.toLaid.relink_left hi hw hn htimeout hl hj (h.left j) hleft

/-! ### Other changes -/

section Items

variable [DecidableEq ι] {a : Option ℕ} {b : Option τ}

/-- An item gets another wrapper, or none. -/
def setItem (s : IdleTimers ι τ) (i : ι) (a : Option ℕ) (b : Option τ) : IdleTimers ι τ :=
  { s with
    items := Function.update s.items i a
    calls := { s.calls with timeout := Function.update s.calls.timeout i b } }

omit [LuaNumber τ] in
theorem setItem_items (j : ι) : (s.setItem i a b).items j = if j = i then a else s.items j :=
  Function.update_apply ..

omit [LuaNumber τ] in
theorem setItem_timeout (j : ι) :
    (s.setItem i a b).calls.timeout j = if j = i then b else s.calls.timeout j :=
  Function.update_apply ..

omit [LuaNumber τ] in
theorem setItem_links : (s.setItem i a b).links = s.links := rfl

theorem Laid.setItem (h : s.Laid) (hout : ∀ m, i ∉ s.calls.queue m)
    (hleft : ∀ j ≠ i, ∀ k w n, s.Left j k w n → s.links.next (.wrapper k) = .timer n)
    (hnone : a = none → b = none)
    (hsome : ∀ k, a = some k → ∃ w, s.wrappers k = some w ∧ w.item = i ∧ b = some w.timeout ∧
      ¬ w.timeout < 0 ∧ w.start = none ∧ s.links.next (.wrapper k) = .item i ∧
        s.links.prev (.wrapper k) = .item i) : (s.setItem i a b).Kept := by
  have hne : ∀ m, ∀ j ∈ s.calls.queue m, j ≠ i := by
    rintro m j hj rfl
    exact hout m hj
  constructor
  · constructor
    · constructor
      · intro j k hj
        rw [setItem_items] at hj
        rw [setItem_timeout]
        split_ifs at hj ⊢ with hji
        · subst hji
          obtain ⟨w, hw, hitem, htimeout, hpos, -⟩ := hsome k hj
          exact ⟨w, hw, hitem, htimeout, hpos⟩
        · exact h.wrapper j k hj
      · intro j hj
        rw [setItem_items] at hj
        rw [setItem_timeout]
        split_ifs at hj ⊢ with hji
        · exact hnone hj
        · exact h.enrolled j hj
      · intro m j hj
        rw [setItem_items, if_neg (hne m j hj)]
        exact h.queued m j hj
      · exact h.new
      · exact h.made
      · exact h.inj
    · intro j k w hj hw hstart
      rw [setItem_items] at hj
      split_ifs at hj with hji
      · subst hji
        obtain ⟨w, -, -, -, -, -, hlinks⟩ := hsome k hj
        exact hlinks
      · exact h.fresh j k w hj hw hstart
    · exact h.closed
    · intro m n hn
      have hmap : (s.calls.queue m).map (s.setItem i a b).node = (s.calls.queue m).map s.node := by
        apply List.map_congr_left
        intro j hj
        simp only [node, setItem_items, if_neg (hne m j hj)]
      exact hmap.symm ▸ h.ring m n hn
  · intro j k w n ⟨hj, hw, hstart, hn, hjout⟩
    rw [setItem_items] at hj
    split_ifs at hj with hji
    · obtain ⟨v, hv, -, -, -, hnew, -⟩ := hsome k hj
      obtain rfl := Option.some_inj.mp (hv.symm.trans hw)
      rw [hnew] at hstart
      exact absurd hstart nofun
    · exact hleft j hji k w n ⟨hj, hw, hstart, hn, hjout⟩

end Items

/-- The items' own pointers are in no list. -/
theorem Laid.item_links (h : s.Laid) {l : Links (IdleNode ι)}
    (hsame : ∀ x, (∀ i, x ≠ .item i) → s.links.Same l x) : Laid { s with links := l } := by
  have hmembers : ∀ m n, ∀ x ∈ s.members m n, s.links.Same l x := by
    rintro m n x (rfl | ⟨k, w, rfl, -⟩)
    · exact hsame _ nofun
    · exact hsame _ nofun
  constructor
  · exact ⟨h.wrapper, h.enrolled, h.queued, h.new, h.made, h.inj⟩
  · intro i k w hi hw hnone
    obtain ⟨hnext, hprev⟩ := hsame (.wrapper k) nofun
    obtain ⟨hnext', hprev'⟩ := h.fresh i k w hi hw hnone
    exact ⟨hnext.trans hnext', hprev.trans hprev'⟩
  · intro m n hn
    exact (h.closed m n hn).congr (hmembers m n)
  · intro m n hn
    apply (h.ring m n hn).congr
    intro x hx
    exact hmembers m n x (h.ring_mem hx)

section Made

variable [DecidableEq ι]

/-- A wrapper is made in `Enroll`. -/
def newWrapper (s : IdleTimers ι τ) (w : IdleWrapper ι τ) : IdleTimers ι τ :=
  { s with
    created := s.created + 1
    wrappers := Function.update s.wrappers s.created (some w)
    links := (s.links.setNext (.wrapper s.created) (.item w.item)).setPrev (.wrapper s.created)
      (.item w.item) }

omit [LuaNumber τ] in
theorem newWrapper_wrapper : (s.newWrapper w).wrappers s.created = some w :=
  Function.update_self ..

omit [LuaNumber τ] in
theorem newWrapper_wrapper_ne (hne : k ≠ s.created) : (s.newWrapper w).wrappers k = s.wrappers k :=
  Function.update_of_ne hne ..

omit [LuaNumber τ] in
theorem newWrapper_links : (s.newWrapper w).links.next (.wrapper s.created) = .item w.item ∧
    (s.newWrapper w).links.prev (.wrapper s.created) = .item w.item :=
  ⟨Function.update_self .., Function.update_self ..⟩

omit [LuaNumber τ] in
theorem newWrapper_same {x : IdleNode ι} (hne : x ≠ .wrapper s.created) :
    s.links.Same (s.newWrapper w).links x :=
  ⟨Function.update_of_ne hne .., Function.update_of_ne hne ..⟩

omit [LuaNumber τ] in
theorem newWrapper_cases {v : IdleWrapper ι τ} (hv : (s.newWrapper w).wrappers k = some v) :
    k = s.created ∧ v = w ∨ k ≠ s.created ∧ s.wrappers k = some v := by
  by_cases hk : k = s.created
  · subst hk
    exact Or.inl ⟨rfl, Option.some_inj.mp (hv.symm.trans newWrapper_wrapper)⟩
  · exact Or.inr ⟨hk, (newWrapper_wrapper_ne hk).symm.trans hv⟩

omit [LuaNumber τ] in
theorem newWrapper_old {v : IdleWrapper ι τ} (hnew : s.wrappers s.created = none)
    (hv : s.wrappers k = some v) :
    (s.newWrapper w).wrappers k = some v ∧ s.links.Same (s.newWrapper w).links (.wrapper k) := by
  have hne : k ≠ s.created := by
    rintro rfl
    exact absurd (hnew.symm.trans hv) nofun
  exact ⟨(newWrapper_wrapper_ne hne).trans hv,
    newWrapper_same fun heq => hne (IdleNode.wrapper.inj heq)⟩

omit [LuaNumber τ] in
/-- It is in no list. -/
theorem newWrapper_members (hnew : s.wrappers s.created = none) (hstart : w.start = none) (m : τ)
    (n : ℕ) : (s.newWrapper w).members m n = s.members m n := by
  ext x
  constructor
  · rintro (rfl | ⟨k, v, rfl, hv, hm, hv'⟩)
    · exact Or.inl rfl
    · rcases newWrapper_cases hv with ⟨-, rfl⟩ | ⟨-, hv⟩
      · rw [hstart] at hv'
        exact absurd hv' nofun
      · exact Or.inr ⟨k, v, rfl, hv, hm, hv'⟩
  · rintro (rfl | ⟨k, v, rfl, hv, hrest⟩)
    · exact Or.inl rfl
    · exact Or.inr ⟨k, v, rfl, (newWrapper_old hnew hv).1, hrest⟩

omit [LuaNumber τ] in
theorem newWrapper_members_same (hnew : s.wrappers s.created = none) {x : IdleNode ι}
    (hx : x ∈ s.members m n) : s.links.Same (s.newWrapper w).links x := by
  rcases hx with rfl | ⟨k, v, rfl, hv, -⟩
  · exact newWrapper_same nofun
  · exact (newWrapper_old hnew hv).2

theorem Kept.newWrapper (h : s.Kept) (hstart : w.start = none) : (s.newWrapper w).Kept := by
  have hnew := h.new s.created le_rfl
  have hstarted : ∀ k v, (s.newWrapper w).wrappers k = some v → v.start.isSome →
      s.wrappers k = some v := by
    intro k v hv hv'
    rcases newWrapper_cases hv with ⟨-, rfl⟩ | ⟨-, hv⟩
    · rw [hstart] at hv'
      exact absurd hv' nofun
    · exact hv
  constructor
  · constructor
    · constructor
      · intro j k hj
        obtain ⟨v, hv, hrest⟩ := h.wrapper j k hj
        exact ⟨v, (newWrapper_old hnew hv).1, hrest⟩
      · exact h.enrolled
      · intro m j hj
        obtain ⟨k, v, hk, hv, hrest⟩ := h.queued m j hj
        exact ⟨k, v, hk, (newWrapper_old hnew hv).1, hrest⟩
      · intro k hk
        have hlt : s.created < k := hk
        rw [newWrapper_wrapper_ne hlt.ne']
        exact h.new k hlt.le
      · intro k v hv hv'
        exact h.made k v (hstarted k v hv hv') hv'
      · exact h.inj
    · intro j k v hj hv hnone
      obtain ⟨v', hv', -⟩ := h.wrapper j k hj
      obtain ⟨hvt, hnext', hprev'⟩ := newWrapper_old (w := w) hnew hv'
      obtain rfl := Option.some_inj.mp (hvt.symm.trans hv)
      obtain ⟨hnext, hprev⟩ := h.fresh j k v' hj hv' hnone
      exact ⟨hnext'.trans hnext, hprev'.trans hprev⟩
    · intro m n hn
      rw [newWrapper_members hnew hstart]
      exact (h.closed m n hn).congr fun x hx => newWrapper_members_same hnew hx
    · intro m n hn
      apply (h.ring m n hn).congr
      intro x hx
      exact newWrapper_members_same hnew (h.ring_mem hx)
  · intro j k v n ⟨hj, hv, hv', hn, hout⟩
    have hleft : s.Left j k v n := ⟨hj, hstarted k v hv hv', hv', hn, hout⟩
    obtain ⟨-, hnext, -⟩ := newWrapper_old (w := w) hnew hleft.wrapper
    exact hnext.trans (h.left j k v n hleft)

theorem newList_lists (m' : τ) :
    (s.newList m).lists m' = if m' = m then some s.loop.created else s.lists m' :=
  Function.update_apply ..

theorem newList_links : (s.newList m).links.next (.timer s.loop.created) = .timer s.loop.created ∧
    (s.newList m).links.prev (.timer s.loop.created) = .timer s.loop.created :=
  ⟨Function.update_self .., Function.update_self ..⟩

theorem newList_same {x : IdleNode ι} (hne : x ≠ .timer s.loop.created) :
    s.links.Same (s.newList m).links x :=
  ⟨Function.update_of_ne hne .., Function.update_of_ne hne ..⟩

theorem newList_old (hm : s.lists m = none) {m' : τ} (hn : s.lists m' = some n) :
    (s.newList m).lists m' = some n := by
  rw [newList_lists, if_neg]
  · exact hn
  · rintro rfl
    exact absurd (hm.symm.trans hn) nofun

theorem newList_cases (hnew : ∀ m', s.lists m' ≠ some s.loop.created) {m' : τ}
    (hn : (s.newList m).lists m' = some n) :
    m' = m ∧ n = s.loop.created ∨ s.lists m' = some n ∧ n ≠ s.loop.created := by
  rw [newList_lists] at hn
  split_ifs at hn with hm'
  · exact Or.inl ⟨hm', (Option.some_inj.mp hn).symm⟩
  · exact Or.inr ⟨hn, fun heq => hnew m' (heq ▸ hn)⟩

theorem newList_inj (hnew : ∀ m', s.lists m' ≠ some s.loop.created)
    (hinj : ∀ m m' n, s.lists m = some n → s.lists m' = some n → m = m') (m₁ m₂ : τ) (n : ℕ)
    (h₁ : (s.newList m).lists m₁ = some n) (h₂ : (s.newList m).lists m₂ = some n) : m₁ = m₂ := by
  rcases newList_cases hnew h₁ with ⟨rfl, hn⟩ | ⟨h₁, hn⟩
  · rcases newList_cases hnew h₂ with ⟨rfl, -⟩ | ⟨-, hn'⟩
    · rfl
    · exact absurd hn hn'
  · rcases newList_cases hnew h₂ with ⟨-, hn'⟩ | ⟨h₂, -⟩
    · exact absurd hn' hn
    · exact hinj m₁ m₂ n h₁ h₂

theorem newList_made (hmade : ∀ k w, s.wrappers k = some w → w.start.isSome →
    ∃ n, s.lists w.timeout = some n) (k : ℕ) (w : IdleWrapper ι τ) (hw : s.wrappers k = some w)
    (hstart : w.start.isSome) : ∃ n, (s.newList m).lists w.timeout = some n := by
  rw [newList_lists]
  split_ifs
  · exact ⟨_, rfl⟩
  · exact hmade k w hw hstart

theorem newList_members_same (hnew : ∀ m', s.lists m' ≠ some s.loop.created) {m' : τ}
    (hn : s.lists m' = some n) {x : IdleNode ι} (hx : x ∈ s.members m' n) :
    s.links.Same (s.newList m).links x := by
  apply newList_same
  rintro rfl
  exact hnew m' (timer_mem_members.mp hx ▸ hn)

/-- No wrapper has its timeout yet. -/
theorem newList_closed (hm : s.lists m = none) (hnew : ∀ m', s.lists m' ≠ some s.loop.created)
    (hmade : ∀ k w, s.wrappers k = some w → w.start.isSome → ∃ n, s.lists w.timeout = some n)
    (hclosed : ∀ m n, s.lists m = some n → s.links.Closed (s.members m n)) (m' : τ) (n : ℕ)
    (hn : (s.newList m).lists m' = some n) :
    (s.newList m).links.Closed ((s.newList m).members m' n) := by
  have hmembers : (s.newList m).members m' n = s.members m' n := rfl
  rw [hmembers]
  rcases newList_cases hnew hn with ⟨rfl, rfl⟩ | ⟨hn, -⟩
  · rintro x (rfl | ⟨k, v, rfl, hv, hv', hstart⟩)
    · rw [newList_links.1, newList_links.2]
      exact ⟨Or.inl rfl, Or.inl rfl⟩
    · obtain ⟨n, hn'⟩ := hmade k v hv hstart
      rw [hv', hm] at hn'
      exact absurd hn' nofun
  · exact (hclosed m' n hn).congr fun x hx => newList_members_same hnew hn hx

/-- A list is made in `insert`. -/
theorem Kept.newList (h : s.Kept) (hm : s.lists m = none)
    (hnew : ∀ m', s.lists m' ≠ some s.loop.created) : (s.newList m).Kept := by
  have hqueue : s.calls.queue m = [] := by
    apply List.eq_nil_iff_forall_not_mem.mpr
    intro j hj
    obtain ⟨k, v, -, hv, rfl, hstart⟩ := h.queued m j hj
    obtain ⟨n, hn⟩ := h.made k v hv hstart
    exact absurd (hm.symm.trans hn) nofun
  constructor
  · constructor
    · exact ⟨h.wrapper, h.enrolled, h.queued, h.new, newList_made h.made, newList_inj hnew h.inj⟩
    · intro j k v hj hv hnone
      obtain ⟨hnext, hprev⟩ := newList_same (s := s) (m := m) (x := .wrapper k) nofun
      obtain ⟨hnext', hprev'⟩ := h.fresh j k v hj hv hnone
      exact ⟨hnext.trans hnext', hprev.trans hprev'⟩
    · exact newList_closed hm hnew h.made h.closed
    · intro m' n hn
      rcases newList_cases hnew hn with ⟨rfl, rfl⟩ | ⟨hn, -⟩
      · have hnil : ((s.newList m').calls.queue m').map (s.newList m').node = [] := by
          rw [List.map_eq_nil_iff]
          exact hqueue
        rw [hnil]
        exact Links.ring_nil newList_links.2 newList_links.1
      · apply (h.ring m' n hn).congr
        intro x hx
        exact newList_members_same hnew hn (h.ring_mem hx)
  · intro j k v n ⟨hj, hv, hstart, hn, hout⟩
    obtain ⟨hnext, -⟩ := newList_same (s := s) (m := m) (x := .wrapper k) nofun
    have hn' : s.lists v.timeout = some n := by
      rcases newList_cases hnew hn with ⟨htimeout, -⟩ | ⟨hn, -⟩
      · obtain ⟨n', hn'⟩ := h.made k v hv hstart
        rw [htimeout, hm] at hn'
        exact absurd hn' nofun
      · exact hn
    exact hnext.trans (h.left j k v n ⟨hj, hv, hstart, hn', hout⟩)

end Made

end LuaNode.IdleTimers
