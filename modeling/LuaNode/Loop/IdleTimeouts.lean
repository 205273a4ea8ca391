import LuaNode.Library.Runs
import LuaNode.Loop.IdleLists
import LuaNode.Loop.OneShot

/-!
# No active item is forgotten

A wrapper keeps its pointers when it times out, and its item stays enrolled. What is done with such an
item later goes through these pointers.
-/

namespace LuaNode.IdleTimers

variable {ι τ : Type*} {s : IdleTimers ι τ} {i : ι} {k n : ℕ} {m : τ} {w : IdleWrapper ι τ}

/-- The lists' Timers. -/
structure Watched (s : IdleTimers ι τ) : Prop where
  oneShot : s.loop.OneShot
  callbacks : ∀ m n, s.lists m = some n ↔ s.callbacks n = some m
  listed : ∀ n, n < s.loop.created ↔ ∃ m, s.lists m = some n

theorem Watched.congr (h : s.Watched) {t : IdleTimers ι τ} (hlists : t.lists = s.lists)
    (hcallbacks : t.callbacks = s.callbacks) (hloop : t.loop.OneShot)
    (hcreated : t.loop.created = s.loop.created) : t.Watched := by
  constructor
  · exact hloop
  · rw [hlists, hcallbacks]
    exact h.callbacks
  · rw [hlists, hcreated]
    exact h.listed

theorem relink_self [DecidableEq τ] (hw : s.wrappers k = some w) {l : Links (IdleNode ι)}
    {is : List ι} : s.relink l k w is = { s with
      links := l
      calls := { s.calls with queue := Function.update s.calls.queue w.timeout is } } := by
  rw [relink, ← hw, Function.update_eq_self]

variable [LuaNumber τ]

/-- Each list is a ring of the items that wait, and its Timer is armed if there are any: it has a wait,
or its callback runs. -/
structure WellFormed (s : IdleTimers ι τ) : Prop where
  alive : s.failed = false
  queued : ∀ m, ∀ i ∈ s.calls.queue m, ∃ k w, s.items i = some k ∧ s.wrappers k = some w ∧
    w.item = i ∧ w.timeout = m
  unmade : ∀ m, s.lists m = none → s.calls.queue m = []
  ring : ∀ m n, s.lists m = some n → s.links.Ring (.timer n) ((s.calls.queue m).map s.node)
  armed : ∀ m n, s.lists m = some n → s.calls.queue m ≠ [] → s.loop.Armed n

/-- An item that has left its list is unenrolled or enrolled again only while the list's oldest item
is that which followed it, and is made active again only then, or, when the list is empty, while its
Timer is armed. A handler that raises an error leaves the list empty, or armed. -/
def Tidy (s : IdleTimers ι τ) : IdleEvent ι τ → Prop
  | .enroll i _ | .unenroll i => ∀ k w n, s.Left i k w n →
      s.links.prev (.timer n) = s.links.prev (.wrapper k)
  | .active i _ => ∀ k w n, s.Left i k w n →
      if s.calls.queue w.timeout = [] then s.loop.Armed n
      else s.links.prev (.timer n) = s.links.prev (.wrapper k)
  | .raises _ => ∀ c ∈ s.handler, s.calls.queue c.msecs ≠ [] → s.loop.Live c.list
  | _ => True

structure Inv (s : IdleTimers ι τ) : Prop where
  alive : s.failed = false
  kept : s.Kept
  watched : s.Watched
  running : s.loop.running = s.handler.map fun c => (c.list, .timer c.list)
  handler : ∀ c ∈ s.handler, s.lists c.msecs = some c.list
  armed : ∀ m n, s.lists m = some n → s.calls.queue m ≠ [] → s.loop.Armed n

theorem Inv.wellFormed (h : s.Inv) : s.WellFormed := by
  refine ⟨h.alive, ?_, ?_, h.kept.ring, h.armed⟩
  · intro m i hi
    obtain ⟨k, w, hk, hw, hm, -⟩ := h.kept.queued m i hi
    exact ⟨k, w, hk, hw, h.kept.item hk hw, hm⟩
  · intro m hm
    apply List.eq_nil_iff_forall_not_mem.mpr
    intro i hi
    obtain ⟨k, w, -, hw, rfl, hstart⟩ := h.kept.queued m i hi
    obtain ⟨n, hn⟩ := h.kept.made k w hw hstart
    exact absurd (hm.symm.trans hn) nofun

theorem fresh_inv : (fresh : IdleTimers ι τ).Inv where
  alive := rfl
  kept := by
    refine ⟨⟨⟨?_, ?_, ?_, ?_, ?_, ?_⟩, ?_, ?_, ?_⟩, ?_⟩
    · nofun
    · exact fun _ _ => rfl
    · exact fun _ _ hi => absurd hi List.not_mem_nil
    · exact fun _ _ => rfl
    · nofun
    · nofun
    · nofun
    · nofun
    · nofun
    · exact fun _ _ _ _ hleft => absurd hleft.item nofun
  watched := by
    refine ⟨TimerLoop.fresh_oneShot, fun _ _ => iff_of_false nofun nofun, fun n => ?_⟩
    exact iff_of_false (Nat.not_lt_zero n) fun ⟨_, hm⟩ => absurd hm nofun
  running := rfl
  handler := nofun
  armed := nofun

/-! ### An item leaves its list -/

/-- Where an enrolled item is: outside of the lists, in its list, or it has left it. -/
theorem Kept.cases (h : s.Kept) (hi : s.items i = some k) (hw : s.wrappers k = some w) :
    (w.start = none ∧ ∀ m, i ∉ s.calls.queue m) ∨
      ∃ n, s.lists w.timeout = some n ∧
        ((∃ is js, s.calls.queue w.timeout = is ++ i :: js) ∨
          (s.Left i k w n ∧ ∀ m, i ∉ s.calls.queue m)) := by
  by_cases hstart : w.start.isSome = true
  · right
    obtain ⟨n, hn⟩ := h.made k w hw hstart
    refine ⟨n, hn, ?_⟩
    by_cases hq : i ∈ s.calls.queue w.timeout
    · exact Or.inl (List.append_of_mem hq)
    · refine Or.inr ⟨⟨hi, hw, hstart, hn, hq⟩, fun m hm => ?_⟩
      rw [← (h.of_queued hi hw hm).1] at hm
      exact hq hm
  · left
    refine ⟨by simpa using hstart, fun m hm => ?_⟩
    exact hstart (h.of_queued hi hw hm).2

variable [DecidableEq ι]

theorem Laid.leave_eq (h : s.Laid) (hi : s.items i = some k) (hw : s.wrappers k = some w)
    (hn : s.lists w.timeout = some n) {is js : List ι} (hq : s.calls.queue w.timeout = is ++ i :: js) :
    s.calls.leave i = { s.calls with
      queue := Function.update s.calls.queue w.timeout (is ++ js) } := by
  have hnodup := h.nodup hn
  have hqueue := h.leave_queue hi hw
  rw [hq] at hnodup hqueue
  rw [filter_ne_of_nodup hnodup] at hqueue
  rw [← hqueue]
  rfl

/-- The links of an item that leaves its list, or has left it before. -/
theorem Kept.depart (h : s.Kept) (hi : s.items i = some k) (hw : s.wrappers k = some w)
    (hstale : ∀ n, s.Left i k w n → s.links.prev (.timer n) = s.links.prev (.wrapper k)) :
    Laid { s with links := s.links.unlink (.wrapper k), calls := s.calls.leave i } ∧
      ∀ j ≠ i, ∀ k' w' n',
        Left { s with links := s.links.unlink (.wrapper k), calls := s.calls.leave i } j k' w' n' →
          (s.links.unlink (.wrapper k)).next (.wrapper k') = .timer n' := by
  rcases h.cases hi hw with ⟨hstart, hout⟩ | ⟨n, hn, ⟨is, js, hq⟩ | ⟨hleft, hout⟩⟩
  · obtain ⟨hnext, hprev⟩ := h.fresh i k w hi hw hstart
    have hsame : ∀ x, (∀ j, x ≠ .item j) → s.links.Same (s.links.unlink (.wrapper k)) x := by
      intro x hx
      constructor
      · rw [Links.unlink_next, hprev, if_neg (hx i)]
      · rw [Links.unlink_prev, hnext, if_neg (hx i)]
    rw [leave_of_not_mem hout]
    refine ⟨h.toLaid.item_links hsame, ?_⟩
    intro j _ k' w' n' ⟨hj, hw', hstart', hn', hout'⟩
    rw [(hsame (.wrapper k') nofun).1]
    exact h.left j k' w' n' ⟨hj, hw', hstart', hn', hout'⟩
  · have hqi := mem_of_split hq
    have hl := h.toLaid.anew_unlink hi hn hq
    rw [← Set.insert_eq_of_mem (h.wrapper_mem hi hqi (n := n))] at hl
    have hleave := h.toLaid.leave_eq hi hw hn hq
    rw [hleave, ← relink_self hw]
    exact ⟨h.toLaid.relink hi hw hn rfl hl rfl (h.of_queued hi hw hqi).2,
      fun j hj k' w' n' hleft => h.toLaid.relink_left hi hw hn rfl hl hj (h.left j) hleft⟩
  · rw [leave_of_not_mem hout, (h.ring _ _ hn).unlink_stale (h.left i k w n hleft) (hstale n hleft).symm]
    exact ⟨h.toLaid, fun j _ => h.left j⟩

/-- `Timers.Unenroll`, but for the Timer. -/
theorem Kept.unenroll (h : s.Kept) (hi : s.items i = some k) (hw : s.wrappers k = some w)
    (hstale : ∀ n, s.Left i k w n → s.links.prev (.timer n) = s.links.prev (.wrapper k)) :
    Kept { s with
      links := s.links.unlink (.wrapper k)
      items := Function.update s.items i none
      calls := s.calls.unenroll i } := by
  obtain ⟨hlaid, hleft⟩ := h.depart hi hw hstale
  apply hlaid.setItem (i := i) (a := none) (b := none)
  · exact fun m => not_mem_filter_ne i _
  · exact hleft
  · exact fun _ => rfl
  · nofun

omit [LuaNumber τ] in
theorem stopIfEmpty_cases (s : IdleTimers ι τ) (list : Option ℕ) :
    ∃ l, s.stopIfEmpty list = { s with loop := l } ∧
      (l = s.loop ∨ ∃ n, list = some n ∧ s.links.prev (.timer n) = .timer n ∧ l = s.loop.stop n) := by
  cases list with
  | none => exact ⟨s.loop, rfl, Or.inl rfl⟩
  | some n =>
    by_cases hempty : s.links.prev (.timer n) = .timer n
    · exact ⟨s.loop.stop n, if_pos hempty, Or.inr ⟨n, rfl, hempty, rfl⟩⟩
    · exact ⟨s.loop, if_neg hempty, Or.inl rfl⟩

omit [LuaNumber τ] in
theorem unenroll_cases (hi : s.items i = some k) (hw : s.wrappers k = some w) :
    ∃ l, s.unenroll i = { s.remove (.wrapper k) with
        loop := l
        items := Function.update s.items i none } ∧
      (l = s.loop ∨ ∃ n, s.lists w.timeout = some n ∧
        (s.links.unlink (.wrapper k)).prev (.timer n) = .timer n ∧ l = s.loop.stop n) := by
  obtain ⟨l, heq, hl⟩ := (s.remove (.wrapper k)).stopIfEmpty_cases (s.lists w.timeout)
  refine ⟨l, ?_, hl⟩
  simp only [unenroll, hi, hw, Option.bind_some, heq]
  rfl

theorem Inv.enrolled_none (h : s.Inv) (hi : s.items i = none) :
    s.calls.leave i = s.calls ∧ Function.update s.calls.timeout i none = s.calls.timeout := by
  constructor
  · exact leave_of_not_mem (h.kept.not_queued hi)
  · rw [← h.kept.enrolled i hi, Function.update_eq_self]

theorem Inv.unenroll (h : s.Inv)
    (hstale : ∀ k w n, s.Left i k w n → s.links.prev (.timer n) = s.links.prev (.wrapper k)) :
    Inv { s.unenroll i with calls := s.calls.unenroll i } := by
  rcases hi : s.items i with _ | k
  · obtain ⟨hleave, htimeout⟩ := h.enrolled_none hi
    have hsame : s.unenroll i = s := by
      rw [IdleTimers.unenroll, hi]
    rw [hsame, IdleQueues.unenroll, hleave, htimeout]
    exact h
  · obtain ⟨w, hw, -⟩ := h.kept.wrapper i k hi
    have hkept := h.kept.unenroll hi hw (hstale k w)
    obtain ⟨l, hunenroll, hl⟩ := unenroll_cases hi hw
    rw [hunenroll]
    have hloop : l.OneShot ∧ l.created = s.loop.created ∧ l.running = s.loop.running := by
      rcases hl with rfl | ⟨n, -, -, rfl⟩
      · exact ⟨h.watched.oneShot, rfl, rfl⟩
      · exact ⟨h.watched.oneShot.stop n, TimerLoop.stop_created _ n, TimerLoop.stop_running _ n⟩
    refine ⟨h.alive, hkept.congr rfl rfl rfl rfl rfl rfl, h.watched.congr rfl rfl hloop.1 hloop.2.1,
      hloop.2.2.trans h.running, h.handler, ?_⟩
    intro m n hn hq
    have harmed : s.loop.Armed n := by
      apply h.armed m n hn
      intro hnil
      apply hq
      show (s.calls.queue m).filter _ = []
      rw [hnil, List.filter_nil]
    rcases hl with rfl | ⟨n', hn', hempty, rfl⟩
    · exact harmed
    · apply harmed.stop
      rintro rfl
      obtain rfl := h.kept.inj _ _ _ hn hn'
      have hnil := (hkept.ring _ _ hn).prev_eq_head_iff.mp hempty
      exact hq (List.map_eq_nil_iff.mp hnil)

/-- `Enroll` is `Unenroll`, and a new wrapper. -/
theorem Wrapped.enroll_eq (h : s.Wrapped) (i : ι) (m : τ) :
    ({ s.enroll i m with calls := s.calls.enroll i m } : IdleTimers ι τ) =
      (newWrapper { s.unenroll i with calls := s.calls.unenroll i } ⟨i, m, none⟩).setItem i
        (some (s.unenroll i).created) (some m) := by
  rcases hi : s.items i with _ | k
  · have hsame : s.unenroll i = s := by rw [unenroll, hi]
    simp only [enroll, hi, Option.bind_none, hsame, setItem, newWrapper, setWrapper,
      IdleQueues.enroll, IdleQueues.unenroll, Function.update_idem]
  · obtain ⟨w, hw, hitem, -⟩ := h.wrapper i k hi
    simp only [enroll, hi, Option.bind_some, hw, hitem, setItem, newWrapper, setWrapper,
      IdleQueues.enroll, IdleQueues.unenroll, Function.update_idem]

omit [LuaNumber τ] in
theorem unenroll_items (s : IdleTimers ι τ) (i : ι) : (s.unenroll i).items i = none := by
  rcases hi : s.items i with _ | k
  · rw [unenroll, hi]
    exact hi
  · simp only [unenroll, hi]
    exact Function.update_self ..

theorem Inv.enroll (h : s.Inv) (hm : 0 < m)
    (hstale : ∀ k w n, s.Left i k w n → s.links.prev (.timer n) = s.links.prev (.wrapper k)) :
    Inv { s.enroll i m with calls := s.calls.enroll i m } := by
  have hinv := h.unenroll hstale
  have hkept := hinv.kept.newWrapper (w := ⟨i, m, none⟩) rfl
  rw [h.kept.enroll_eq i m]
  refine ⟨hinv.alive, ?_, hinv.watched.congr rfl rfl hinv.watched.oneShot rfl, hinv.running,
    hinv.handler, hinv.armed⟩
  apply hkept.toLaid.setItem
  · exact hinv.kept.not_queued (unenroll_items s i)
  · exact fun j _ => hkept.left j
  · nofun
  · intro k hk
    obtain rfl := Option.some_inj.mp hk
    exact ⟨⟨i, m, none⟩, newWrapper_wrapper, rfl, rfl, hm.not_gt, rfl, newWrapper_links.1,
      newWrapper_links.2⟩

/-! ### An item enters its list -/

omit [DecidableEq ι] in
theorem Inv.relink (h : s.Inv) {l : Links (IdleNode ι)} {v : IdleWrapper ι τ} {is : List ι}
    (hkept : (s.relink l k v is).Kept) (hn : s.lists v.timeout = some n) (harmed : s.loop.Armed n) :
    (s.relink l k v is).Inv := by
  refine ⟨h.alive, hkept, h.watched.congr rfl rfl h.watched.oneShot rfl, h.running, h.handler, ?_⟩
  intro m n' hn' hq
  rw [relink_queue] at hq
  split_ifs at hq with hm
  · subst hm
    obtain rfl := Option.some_inj.mp (hn.symm.trans hn')
    exact harmed
  · exact h.armed m n' hn' hq

omit [DecidableEq ι] in
theorem Inv.again (h : s.Inv) (hn : s.lists m = some n) (msecs : τ) :
    (s.again n msecs).Inv ∧ (s.again n msecs).loop.Live n := by
  have hcreated := (h.watched.listed n).mpr ⟨m, hn⟩
  have hone := h.watched.oneShot
  refine ⟨⟨h.alive, h.kept.congr rfl rfl rfl rfl rfl rfl, ?_, ?_, h.handler, ?_⟩, ?_⟩
  · exact h.watched.congr rfl rfl (hone.again hcreated _) (TimerLoop.again_created ..)
  · exact (hone.again_running hcreated _).trans h.running
  · intro m' n' hn' hq
    exact (h.armed m' n' hn' hq).again n _
  · exact hone.again_live hcreated _

theorem Inv.newList (h : s.Inv) (hm : s.lists m = none) : (s.newList m).Inv := by
  have hnew : ∀ m', s.lists m' ≠ some s.loop.created := by
    intro m' hm'
    exact absurd ((h.watched.listed _).mpr ⟨m', hm'⟩) (lt_irrefl _)
  refine ⟨h.alive, h.kept.newList hm hnew, ⟨h.watched.oneShot.make, ?_, ?_⟩, h.running, ?_, ?_⟩
  · intro m' n
    have hcallbacks : (s.newList m).callbacks n =
        if n = s.loop.created then some m else s.callbacks n := Function.update_apply ..
    rw [newList_lists, hcallbacks]
    split_ifs with hm' hn hn
    · exact iff_of_true (congrArg some hn.symm) (congrArg some hm'.symm)
    · rw [hm', ← h.watched.callbacks, hm]
      exact iff_of_false (fun heq => hn (Option.some_inj.mp heq).symm) nofun
    · rw [hn]
      exact iff_of_false (hnew m') fun heq => hm' (Option.some_inj.mp heq).symm
    · exact h.watched.callbacks m' n
  · intro n
    have hcreated : (s.newList m).loop.created = s.loop.created + 1 := rfl
    rw [hcreated, Nat.lt_succ_iff_lt_or_eq]
    constructor
    · rintro (hn | rfl)
      · obtain ⟨m', hm'⟩ := (h.watched.listed n).mp hn
        exact ⟨m', newList_old hm hm'⟩
      · exact ⟨m, by rw [newList_lists, if_pos rfl]⟩
    · rintro ⟨m', hn⟩
      rw [newList_lists] at hn
      split_ifs at hn
      · exact Or.inr (Option.some_inj.mp hn).symm
      · exact Or.inl ((h.watched.listed n).mpr ⟨m', hn⟩)
  · intro c hc
    exact newList_old hm (h.handler c hc)
  · intro m' n hn hq
    rw [newList_lists] at hn
    split_ifs at hn with hm'
    · subst hm'
      exact absurd (h.wellFormed.unmade _ hm) hq
    · exact h.armed m' n hn hq

/-- A new wrapper is put into the list of its timeout; the Timer of an empty list is started again. -/
theorem insert_eq (hn : s.lists w.timeout = some n) (hpos : ¬ w.timeout < 0) (now : τ) :
    s.insert k w w.timeout now =
      ((if s.links.next (.timer n) = .timer n then s.again n w.timeout else s).setWrapper k
        { w with start := some now }).append n (.wrapper k) := by
  have hlist (v : IdleWrapper ι τ) :
      (s.setWrapper k v).listOf w.timeout = (s.setWrapper k v, n) := by
    have hn' : (s.setWrapper k v).lists w.timeout = some n := hn
    rw [listOf, hn']
  have hlink : (s.links.append (.timer n) (.wrapper k)).next (.timer n) ≠ .timer n := by
    rw [Links.append_next, if_pos rfl]
    nofun
  by_cases hempty : s.links.next (.timer n) = .timer n
  · have hempty' (v : IdleWrapper ι τ) : (s.setWrapper k v).links.next (.timer n) = .timer n := hempty
    simp only [IdleTimers.insert, if_neg hpos, hlist, if_pos (hempty' _), if_pos hempty]
    exact if_neg hlink
  · have hempty' (v : IdleWrapper ι τ) : (s.setWrapper k v).links.next (.timer n) ≠ .timer n := hempty
    simp only [IdleTimers.insert, if_neg hpos, hlist, if_neg (hempty' _), if_neg hempty]
    exact if_neg hlink

theorem Kept.insert_eq (h : s.Kept) (hi : s.items i = some k) (hw : s.wrappers k = some w)
    (hn : s.lists w.timeout = some n) (now : τ) :
    ({ s.insert k w w.timeout now with calls := s.calls.active i } : IdleTimers ι τ) =
      (if s.links.next (.timer n) = .timer n then s.again n w.timeout else s).relink
        (s.links.append (.timer n) (.wrapper k)) k { w with start := some now }
        ((s.calls.queue w.timeout).filter (fun j => j ≠ i) ++ [i]) := by
  rw [h.active_eq hi hw, IdleTimers.insert_eq hn (h.timeout hi hw).2]
  split_ifs <;> rfl

/-- An item that was not active before is put into its list. -/
theorem Inv.insert (h : s.Inv) (hi : s.items i = some k) (hw : s.wrappers k = some w)
    (hn : s.lists w.timeout = some n) (hout : i ∉ s.calls.queue w.timeout) (now : τ) :
    Inv { s.insert k w w.timeout now with calls := s.calls.active i } := by
  have hlast : i ∈ s.calls.queue w.timeout ++ [i] := by simp
  rw [h.kept.insert_eq hi hw hn, filter_ne_of_not_mem hout]
  split_ifs with hempty
  · obtain ⟨hinv, hlive⟩ := h.again hn w.timeout
    apply hinv.relink (n := n)
    · have hanew := hinv.kept.toLaid.anew_append hi (hinv.kept.toLaid.anew_self hn) hout
      apply hinv.kept.relink hi hw hn _ hanew _ _ (Or.inl hlast)
      all_goals rfl
    · exact hn
    · exact hlive.armed
  · apply h.relink (n := n)
    · have hanew := h.kept.toLaid.anew_append hi (h.kept.toLaid.anew_self hn) hout
      apply h.kept.relink hi hw hn _ hanew _ _ (Or.inl hlast)
      all_goals rfl
    · exact hn
    · apply h.armed _ _ hn
      intro hnil
      have hring := h.kept.ring _ _ hn
      rw [hring.next_eq_head_iff, hnil] at hempty
      exact hempty rfl

/-- Without a list, one is made first. -/
theorem insert_newList (hm : s.lists m = none) (v : IdleWrapper ι τ) (now : τ) (hpos : ¬ m < 0) :
    s.insert k v m now = (s.newList m).insert k v m now := by
  have hleft (v : IdleWrapper ι τ) : (s.setWrapper k v).listOf m =
      ((s.setWrapper k v).newList m, s.loop.created) := by
    have hm' : (s.setWrapper k v).lists m = none := hm
    rw [listOf, hm']
    rfl
  have hright (v : IdleWrapper ι τ) : ((s.newList m).setWrapper k v).listOf m =
      ((s.newList m).setWrapper k v, s.loop.created) := by
    have hm' : ((s.newList m).setWrapper k v).lists m = some s.loop.created := Function.update_self ..
    rw [listOf, hm']
  simp only [IdleTimers.insert, if_neg hpos, hleft, hright]
  rfl

omit [DecidableEq ι] in
/-- What is active again points to other nodes of its list. -/
theorem Kept.next_ne_item (h : s.Kept) (hw : s.wrappers k = some w) (hstart : w.start.isSome) (j : ι) :
    s.links.next (.wrapper k) ≠ .item j := by
  obtain ⟨n, hn⟩ := h.made k w hw hstart
  intro heq
  have hmem := (h.closed _ _ hn _ ((wrapper_mem_members hw).mpr ⟨rfl, hstart⟩)).1
  rw [heq] at hmem
  exact item_not_mem_members hmem

theorem Kept.active_again (h : s.Kept) (hi : s.items i = some k) (hw : s.wrappers k = some w)
    (hstart : w.start.isSome) (hn : s.lists w.timeout = some n) (now : τ) :
    ({ s.active i now with calls := s.calls.active i } : IdleTimers ι τ) =
      s.relink ((s.links.unlink (.wrapper k)).append (.timer n) (.wrapper k)) k
        { w with start := some now }
        ((s.calls.queue w.timeout).filter (fun j => j ≠ i) ++ [i]) := by
  rw [h.active_eq hi hw]
  simp only [IdleTimers.active, hi, hw, if_neg (h.next_ne_item hw hstart i), hn, appendAgain_eq]
  rfl

theorem Inv.active (h : s.Inv) (now : τ)
    (hstale : ∀ k w n, s.Left i k w n → if s.calls.queue w.timeout = [] then s.loop.Armed n
      else s.links.prev (.timer n) = s.links.prev (.wrapper k)) :
    Inv { s.active i now with calls := s.calls.active i } := by
  rcases hi : s.items i with _ | k
  · have hsame : s.active i now = s := by rw [IdleTimers.active, hi]
    rw [hsame, IdleQueues.active, h.kept.enrolled i hi]
    exact h
  · obtain ⟨w, hw, -⟩ := h.kept.wrapper i k hi
    rcases h.kept.cases hi hw with ⟨hstart, hout⟩ | ⟨n, hn, ⟨is, js, hq⟩ | ⟨hleft, hout⟩⟩
    · have hactive : s.active i now = s.insert k w w.timeout now := by
        simp only [IdleTimers.active, hi, hw, if_pos (h.kept.fresh i k w hi hw hstart).1]
      rw [hactive]
      rcases hn : s.lists w.timeout with _ | n
      · rw [insert_newList hn w now (h.kept.timeout hi hw).2]
        have hn' : (s.newList w.timeout).lists w.timeout = some s.loop.created := Function.update_self ..
        exact Inv.insert (s := s.newList w.timeout) (h.newList hn) hi hw hn' (hout _) now
      · exact h.insert hi hw hn (hout _) now
    · have hmem := mem_of_split hq
      have hnodup := h.kept.toLaid.nodup hn
      have hstart := (h.kept.of_queued hi hw hmem).2
      rw [hq] at hnodup
      have hrest := not_mem_filter_ne i (is ++ i :: js)
      rw [filter_ne_of_nodup hnodup] at hrest
      have hanew := h.kept.toLaid.anew_append hi (h.kept.toLaid.anew_unlink hi hn hq) hrest
      rw [h.kept.active_again hi hw hstart hn, hq, filter_ne_of_nodup hnodup]
      apply h.relink (n := n)
      · apply h.kept.relink hi hw hn _ hanew _ _ (Or.inl (by simp))
        all_goals rfl
      · exact hn
      · exact h.armed _ _ hn (List.ne_nil_of_mem hmem)
    · have hstart := hleft.start
      have hnext := h.kept.left i k w n hleft
      have hguard := hstale k w n hleft
      rw [h.kept.active_again hi hw hstart hn, filter_ne_of_not_mem (hout _)]
      split_ifs at hguard with hempty
      · have hanew := h.kept.toLaid.anew_rejoin hi hn hw hstart hempty hnext
        rw [hempty, List.nil_append]
        apply h.relink (n := n)
        · apply h.kept.relink hi hw hn _ hanew _ _ (Or.inl (by simp))
          all_goals rfl
        · exact hn
        · exact hguard
      · have hanew := h.kept.toLaid.anew_append hi (h.kept.toLaid.anew_self hn) (hout _)
        rw [(h.kept.ring _ _ hn).unlink_stale hnext hguard.symm]
        apply h.relink (n := n)
        · apply h.kept.relink hi hw hn _ hanew _ _ (Or.inl (by simp))
          all_goals rfl
        · exact hn
        · exact h.armed _ _ hn hempty

/-! ### A Timer fires -/

omit [DecidableEq ι] in
/-- The callback of a list ends. -/
theorem Inv.ends (h : s.Inv) (outcome : TimerOutcome)
    (hlive : ∀ c ∈ s.handler, s.calls.queue c.msecs ≠ [] → s.loop.Live c.list) :
    (s.ends outcome).Inv := by
  have hends := h.watched.oneShot.ends_eq outcome
  refine ⟨h.alive, h.kept.congr rfl rfl rfl rfl rfl rfl, ?_, ?_, nofun, ?_⟩
  · refine h.watched.congr rfl rfl ?_ ?_
    · show (s.loop.ends outcome).OneShot
      rw [hends]
      exact h.watched.oneShot.idle
    · show (s.loop.ends outcome).created = s.loop.created
      rw [hends]
  · show (s.loop.ends outcome).running = none
    rw [hends]
  · intro m n hn hq
    show (s.loop.ends outcome).Armed n
    rw [hends]
    rcases h.armed m n hn hq with hwaits | ⟨f, hf, hfn⟩
    · exact Or.inl hwaits
    · rw [h.running] at hf
      obtain ⟨c, hc, rfl⟩ := Option.mem_map.mp hf
      subst hfn
      obtain rfl := h.kept.inj _ _ _ hn (h.handler c hc)
      exact Or.inl (hlive c hc hq)

omit [DecidableEq ι] in
theorem Inv.stop (h : s.Inv) (hn : s.lists m = some n) (hq : s.calls.queue m = []) : (s.stop n).Inv := by
  refine ⟨h.alive, h.kept.congr rfl rfl rfl rfl rfl rfl, ?_, ?_, h.handler, ?_⟩
  · exact h.watched.congr rfl rfl (h.watched.oneShot.stop n) (TimerLoop.stop_created _ n)
  · exact (TimerLoop.stop_running _ n).trans h.running
  · intro m' n' hn' hq'
    apply (h.armed m' n' hn' hq').stop
    rintro rfl
    obtain rfl := h.kept.inj _ _ _ hn hn'
    exact hq' hq

/-- The most idle item is that which was active first. -/
theorem Kept.peek_eq (h : s.Kept) (hn : s.lists m = some n) :
    s.peek n = ((s.calls.queue m).map s.node).head? := by
  have hring := h.ring m n hn
  cases hq : s.calls.queue m with
  | nil =>
    rw [hq] at hring
    exact if_pos hring.nil.1
  | cons i is =>
    rw [hq] at hring
    have hne : s.links.prev (.timer n) ≠ .timer n := by
      rw [ne_eq, hring.prev_eq_head_iff]
      exact List.cons_ne_nil _ _
    rw [peek, if_neg hne, List.map_cons, List.head?_cons, ← hring.oldest.1]

/-- The most idle item times out. -/
theorem Inv.timesOut {is : List ι} (h : s.Inv) (hn : s.lists m = some n)
    (hq : s.calls.queue m = i :: is) (hi : s.items i = some k) (hw : s.wrappers k = some w) :
    Inv { s.remove (.wrapper k) with calls := s.calls.leave i } ∧
      (s.remove (.wrapper k)).peek n ≠ some (.wrapper k) := by
  have hmem : i ∈ s.calls.queue m := by
    rw [hq]
    exact List.mem_cons_self
  obtain ⟨rfl, hstart⟩ := h.kept.of_queued hi hw hmem
  have hq' : s.calls.queue w.timeout = [] ++ i :: is := hq
  have hring := h.kept.ring _ _ hn
  rw [hq, List.map_cons, node_of_items hi] at hring
  have hl := h.kept.toLaid.anew_unlink hi hn hq'
  rw [← Set.insert_eq_of_mem (h.kept.wrapper_mem hi hmem (n := n))] at hl
  have hnext : (s.links.unlink (.wrapper k)).next (.wrapper k) = .timer n := by
    rw [Links.unlink_next, ite_self, hring.oldest.2]
  have hkept := h.kept.relink hi hw hn rfl hl rfl hstart (Or.inr hnext)
  have hinv := h.relink hkept hn (h.armed _ _ hn (List.ne_nil_of_mem hmem))
  rw [relink_self hw] at hkept hinv
  rw [h.kept.toLaid.leave_eq hi hw hn hq']
  constructor
  · exact hinv
  · have hrest : ∀ j ∈ is, j ≠ i ∧ j ∈ s.calls.queue w.timeout := by
      intro j hj
      have hnodup := h.kept.toLaid.nodup hn
      rw [hq] at hnodup ⊢
      refine ⟨?_, List.mem_cons_of_mem i hj⟩
      rintro rfl
      exact (List.nodup_cons.mp hnodup).1 hj
    have hpeek : (s.remove (.wrapper k)).peek n = (is.map s.node).head? := by
      have hqueue := hkept.peek_eq hn
      dsimp only at hqueue
      rw [Function.update_self] at hqueue
      exact hqueue
    rw [hpeek]
    intro hfirst
    apply h.kept.wrapper_not_mem hi hrest (n := n)
    exact List.mem_cons_of_mem _ (List.mem_of_head? hfirst)

/-- What the loop does with the wrapper it comes to. -/
theorem expire_wrapper {c : IdleCallback τ} {start : τ} (hpeek : s.peek c.list = some (.wrapper k))
    (hw : s.wrappers k = some w) (hstart : w.start = some start) : s.expire c =
      if c.now - start < c.msecs then
        (s.again c.list (c.msecs - (c.now - start))).ends (.returns [])
      else if (s.remove (.wrapper k)).peek c.list = some (.wrapper k) then
        (s.remove (.wrapper k)).fail
      else { s.remove (.wrapper k) with handler := some c, calls := s.calls.leave w.item } := by
  obtain ⟨item, timeout, _⟩ := w
  dsimp only at hstart
  subst hstart
  simp only [expire, hpeek, wrapperOf, hw]
  rfl

theorem Inv.expire {c : IdleCallback τ} (h : Inv { s with handler := some c }) :
    (s.expire c).Inv := by
  have hn : s.lists c.msecs = some c.list := h.handler c rfl
  have hkept : s.Kept := h.kept.congr rfl rfl rfl rfl rfl rfl
  have hring := hkept.ring _ _ hn
  have hpeek := hkept.peek_eq hn
  cases hq : s.calls.queue c.msecs with
  | nil =>
    rw [hq] at hpeek hring
    have hexpire : s.expire c = (s.stop c.list).ends (.returns []) := by
      simp only [IdleTimers.expire, hpeek, List.map_nil, List.head?_nil, hring.nil.2, if_true]
    rw [hexpire]
    apply (h.stop hn hq).ends
    intro c' hc' hne
    obtain rfl := Option.some_inj.mp hc'
    exact absurd hq hne
  | cons i is =>
    obtain ⟨k, ⟨item, timeout, start⟩, hi, hw, htimeout, hstart⟩ :=
      hkept.queued c.msecs i (by simp [hq])
    obtain rfl : item = i := hkept.item hi hw
    obtain ⟨start, rfl⟩ := Option.isSome_iff_exists.mp hstart
    dsimp only at htimeout
    subst htimeout
    rw [hq, List.map_cons, List.head?_cons, node_of_items hi] at hpeek
    rw [expire_wrapper hpeek hw rfl]
    by_cases hwait : c.now - start < c.msecs
    · rw [if_pos hwait]
      obtain ⟨hinv, hlive⟩ := h.again hn (c.msecs - (c.now - start))
      apply hinv.ends
      intro c' hc' _
      obtain rfl := Option.some_inj.mp hc'
      exact hlive
    · obtain ⟨hinv, hne⟩ := h.timesOut hn hq hi hw
      have hne : (s.remove (.wrapper k)).peek c.list ≠ some (.wrapper k) := hne
      rw [if_neg hwait, if_neg hne]
      exact hinv

theorem Inv.completes (h : s.Inv) (j : ℕ) (aborted : Bool) (now : τ) :
    (s.completes j aborted now).Inv := by
  unfold IdleTimers.completes
  by_cases hbusy : s.loop.running.isSome = true
  · rw [if_pos hbusy]
    exact h
  · rw [if_neg hbusy]
    have hidle : s.handler = none := by
      rw [h.running, Option.isSome_map] at hbusy
      simpa using hbusy
    obtain ⟨hone, hcreated⟩ := h.watched.oneShot.completes j aborted
    set t : IdleTimers ι τ := { s with loop := s.loop.completes j aborted } with ht
    have hwatched : t.Watched := h.watched.congr rfl rfl hone hcreated
    have hkept : t.Kept := h.kept.congr rfl rfl rfl rfl rfl rfl
    have harmed : ∀ m n, t.lists m = some n → t.calls.queue m ≠ [] → t.loop.Armed n := by
      intro m n hn hq
      have hcallback := (h.watched.oneShot.timers n ((h.watched.listed n).mpr ⟨m, hn⟩)).1
      exact (h.armed m n hn hq).completes h.watched.oneShot.own hcallback j aborted
    dsimp only
    rcases hf : t.loop.running with _ | ⟨n, v⟩
    · dsimp only
      refine ⟨h.alive, hkept, hwatched, ?_, h.handler, harmed⟩
      have hhandler : t.handler = none := hidle
      rw [hf, hhandler]
      rfl
    · obtain rfl : v = .timer n := hone.own.running _ hf
      obtain ⟨m, hm⟩ := (hwatched.listed n).mp (hone.running _ hf)
      have hcallback := (hwatched.callbacks m n).mp hm
      simp only [hcallback]
      apply Inv.expire
      refine ⟨h.alive, hkept.congr rfl rfl rfl rfl rfl rfl, hwatched.congr rfl rfl hone rfl, hf, ?_,
        harmed⟩
      intro c hc
      obtain rfl := Option.some_inj.mp hc
      exact hm

/-! ### Whole runs -/

theorem Inv.step (h : s.Inv) (e : IdleEvent ι τ) (he : s.Tidy e) : (s.step e).Inv := by
  unfold IdleTimers.step
  rw [if_neg (by simp [h.alive])]
  cases e with
  | enroll i msecs => exact h.enroll msecs.2 he
  | unenroll i => exact h.unenroll he
  | active i now => exact h.active now he
  | completes j aborted now => exact h.completes j aborted now
  | returns =>
    dsimp only
    rcases hc : s.handler with _ | c
    · exact h
    · have hself : ({ s with handler := some c } : IdleTimers ι τ) = s := by rw [← hc]
      apply Inv.expire
      rw [hself]
      exact h
  | raises text =>
    dsimp only
    split_ifs
    · exact h.ends _ he
    · exact h

/-- What the pointers of an item that has left its list do to the head of the list. -/
theorem Kept.head_eq (h : s.Kept) (hleft : s.Left i k w n)
    (hhead : ((s.calls.queue w.timeout).map s.node ++ [IdleNode.timer n]).head? =
      some ((s.links.unlink (.wrapper k)).prev (.timer n))) :
    s.links.prev (.timer n) = s.links.prev (.wrapper k) := by
  rw [(h.ring _ _ hleft.list).prev_head, Links.unlink_prev, h.left i k w n hleft, if_pos rfl] at hhead
  exact Option.some_inj.mp hhead

omit [DecidableEq ι] in
theorem Kept.out (h : s.Kept) (hleft : s.Left i k w n) (m : τ) : i ∉ s.calls.queue m := by
  intro hq
  obtain ⟨rfl, -⟩ := h.of_queued hleft.item hleft.wrapper hq
  exact hleft.out hq

/-- The list of an item that has left it, after `Unenroll` or `Enroll`. -/
theorem Kept.head_of_ring (h : s.Kept) (hleft : s.Left i k w n) {t : IdleTimers ι τ}
    (ht : t.WellFormed) (hlists : t.lists = s.lists) (hqueue : t.calls.queue = (s.calls.leave i).queue)
    (hitems : ∀ j ≠ i, t.items j = s.items j)
    (hprev : t.links.prev (.timer n) = (s.links.unlink (.wrapper k)).prev (.timer n)) :
    s.links.prev (.timer n) = s.links.prev (.wrapper k) := by
  have hlist := hleft.list
  rw [← hlists] at hlist
  have hring := (ht.ring _ _ hlist).prev_head
  have hmap : (s.calls.queue w.timeout).map t.node = (s.calls.queue w.timeout).map s.node := by
    apply List.map_congr_left
    intro j hj
    have hne : j ≠ i := by
      rintro rfl
      exact hleft.out hj
    simp only [node, hitems j hne]
  rw [hqueue, leave_of_not_mem (h.out hleft), hmap, hprev] at hring
  exact h.head_eq hleft hring

theorem Inv.needs (h : s.Inv) (e : IdleEvent ι τ) (ht : (s.step e).WellFormed) : s.Tidy e := by
  unfold IdleTimers.step at ht
  rw [if_neg (by simp [h.alive])] at ht
  cases e with
  | enroll i msecs =>
    intro k w n hleft
    obtain ⟨l, hunenroll, -⟩ := unenroll_cases hleft.item hleft.wrapper
    dsimp only at ht
    rw [h.kept.enroll_eq, hunenroll] at ht
    apply h.kept.head_of_ring hleft ht rfl rfl
    · intro j hj
      rw [setItem_items, if_neg hj]
      exact Function.update_of_ne hj ..
    · have hne (k' : ℕ) : IdleNode.timer n ≠ (IdleNode.wrapper k' : IdleNode ι) := nofun
      rw [setItem_links]
      exact (newWrapper_same (hne _)).2
  | unenroll i =>
    intro k w n hleft
    obtain ⟨l, hunenroll, -⟩ := unenroll_cases hleft.item hleft.wrapper
    dsimp only at ht
    rw [hunenroll] at ht
    apply h.kept.head_of_ring hleft ht rfl rfl
    · intro j hj
      exact Function.update_of_ne hj ..
    · rfl
  | active i now =>
    intro k w n hleft
    have hn := hleft.list
    dsimp only at ht
    rw [h.kept.active_again hleft.item hleft.wrapper hleft.start hn,
      filter_ne_of_not_mem hleft.out] at ht
    have hqueue {l : Links (IdleNode ι)} {v : IdleWrapper ι τ} {is : List ι} :
        (s.relink l k v is).calls.queue v.timeout = is := by
      rw [relink_queue, if_pos rfl]
    split_ifs with hempty
    · apply ht.armed _ _ hn
      rw [hqueue]
      simp
    · have hhead := (ht.ring _ _ hn).prev_head
      rw [hqueue] at hhead
      obtain ⟨j, is, hq⟩ := List.exists_cons_of_ne_nil hempty
      apply h.kept.head_eq hleft
      rw [hq] at hhead ⊢
      have hprev := Links.append_prev (s.links.unlink (.wrapper k)) (a := .wrapper k) (h := .timer n)
        nofun (.timer n)
      rw [if_neg nofun] at hprev
      split_ifs at hprev with hself
      · -- the head would be followed by the item itself
        have hfirst := Option.some_inj.mp hhead
        have hmem : j ∈ s.calls.queue w.timeout := by
          rw [hq]
          exact List.mem_cons_self
        obtain rfl := h.kept.node_inj hleft.item hmem (hfirst.trans hprev)
        exact absurd hmem hleft.out
      · rw [← hprev]
        exact hhead
  | completes | returns => trivial
  | raises text =>
    intro c hc hq
    dsimp only at ht
    rw [if_pos (by rw [hc]; rfl)] at ht
    have harmed : (s.loop.ends (.raises text)).Armed c.list := ht.armed _ _ (h.handler c hc) hq
    rw [h.watched.oneShot.ends_eq] at harmed
    rcases harmed with hlive | ⟨f, hf, -⟩
    · exact hlive
    · exact absurd hf nofun

/-- In every run the lists stay well formed, and each that is not empty has a Timer that is armed, if
and only if what is done with the items that have timed out is tidy. -/
theorem idle_lists (es : List (IdleEvent ι τ)) :
    (∀ t ∈ statesOf step fresh es, t.WellFormed) ↔ Guarded step Tidy fresh es :=
  states_iff_guarded_within (p := fun _ => True) (fun _ h => h.wellFormed)
    (fun _ e _ h he => h.step e he) (fun _ e _ h ht => h.needs e ht) fresh_inv (fun _ _ => trivial)

/-- An item times out, which stops the Timer, and is active again: the Timer is not started. -/
theorem active_item_forgotten :
    ¬ ∀ es : List (IdleEvent Unit ℤ), ∀ t ∈ statesOf step fresh es, t.WellFormed := by
  intro h
  have hrun := h [.enroll () ⟨1000, by decide⟩, .active () 0, .completes 0 false 1000, .returns,
    .active () 2000] _ (run_mem_statesOf _ _ _)
  rcases hrun.armed 1000 0 rfl (List.cons_ne_nil () []) with ⟨w, hw, -⟩ | ⟨f, hf, -⟩
  · exact absurd hw List.not_mem_nil
  · exact absurd hf nofun

end LuaNode.IdleTimers
