import LuaNode.Events.Pipe

/-!
# What a pipe leaves behind

The listeners of a pipe are registered all together, and removed all together by `cleanup`, which is
called in each `emit` of one of the events that are to end the pipe.
-/

namespace LuaNode

/-- An event that ends the pipe. -/
def Pipe.IsCleanup {ι : Type*} (p : Pipe ι) (i : ι) (kind : Str) : Prop :=
  (kind = "end".toList ∨ kind = "close".toList ∨ kind = "error".toList) ∧
    (i = p.source ∨ i = p.dest)

/-- Those of the registered listeners that end the pipe. -/
def Pipe.ending {ι α : Type*} (p : Pipe ι) (k : ℕ) : List ((ι × Str) × StreamListener α) :=
  [((p.source, "error".toList), .func (.pipe k .onerror)),
    ((p.dest, "error".toList), .func (.pipe k .onerror)),
    ((p.source, "end".toList), .func (.pipe k .cleanup)),
    ((p.source, "close".toList), .func (.pipe k .cleanup)),
    ((p.dest, "end".toList), .func (.pipe k .cleanup)),
    ((p.dest, "close".toList), .func (.pipe k .cleanup))]

namespace Streams

variable {ι α : Type*} {s : Streams ι α}

/-- No listener of the pipe is registered. -/
def Clean (s : Streams ι α) (k : ℕ) : Prop :=
  ∀ key l, StreamListener.owner l = some k → l ∉ s.lists key

/-- One of the events that end the pipe has been emitted. -/
def Over (s : Streams ι α) (k : ℕ) (p : Pipe ι) : Prop :=
  ∃ x ∈ s.emitted, k < x.2.2 ∧ p.IsCleanup x.1 x.2.1

variable [DecidableEq ι] [DecidableEq α]

/-- The listeners of the pipe are those that it has registered. -/
def Whole (s : Streams ι α) (k : ℕ) (p : Pipe ι) : Prop :=
  ∀ key l, StreamListener.owner l = some k → (s.lists key).count l = (p.registered k).count (key, l)

/-- Whoever has begun to emit an event that ends a pipe has not yet called the listener that removes
the others, or they are removed. -/
def Pending (s : Streams ι α) (i : ι) (kind : Str) (made : ℕ) (rest : List (StreamListener α)) : Prop :=
  ∀ k < made, ∀ p, s.pipes[k]? = some p → p.IsCleanup i kind →
    s.Clean k ∨ ∃ f, (f = .cleanup ∨ f = .onerror) ∧ .func (.pipe k f) ∈ rest

structure Sound (s : Streams ι α) : Prop where
  table : s.lists = TableOp.replay s.ops
  unmade : ∀ k, s.pipes.length ≤ k → s.Clean k
  counted : ∀ k p, s.pipes[k]? = some p → s.Clean k ∨ s.Whole k p
  running : ∀ e ∈ s.emits, e.made ≤ s.pipes.length ∧ s.Pending e.stream e.kind e.made e.rest
  past : ∀ x ∈ s.emitted, x.2.2 ≤ s.pipes.length ∧ s.Pending x.1 x.2.1 x.2.2 []
  once : ∀ k, (s.progress k).finished ≤ if (s.progress k).didOnend then 1 else 0

theorem init_sound (object : ι → StreamObject) : (init object : Streams ι α).Sound where
  table := rfl
  unmade _ _ _ _ _ := List.not_mem_nil
  counted _ _ h := absurd h nofun
  running _ h := absurd h List.not_mem_nil
  past _ h := absurd h List.not_mem_nil
  once _ := Nat.le_refl 0

/-- What an operation on the lists keeps of the pipe. -/
theorem Clean.perform {k : ℕ} (h : s.Clean k)
    {ops : List (TableOp (ι × Str) (StreamListener α))}
    (hops : ∀ o ∈ ops, StreamListener.owner o.element ≠ some k) : (s.perform ops).Clean k := by
  intro key l hl
  rw [← List.count_eq_zero]
  refine (TableOp.count_applyAll s.lists ops (fun o ho heq => hops o ho ?_) key).trans ?_
  · rw [heq]
    exact hl
  · exact List.count_eq_zero.mpr (h key l hl)

theorem Whole.perform {k : ℕ} {p : Pipe ι} (h : s.Whole k p)
    {ops : List (TableOp (ι × Str) (StreamListener α))}
    (hops : ∀ o ∈ ops, StreamListener.owner o.element ≠ some k) : (s.perform ops).Whole k p := by
  intro key l hl
  refine (TableOp.count_applyAll s.lists ops (fun o ho heq => hops o ho ?_) key).trans (h key l hl)
  rw [heq]
  exact hl

/-- Nothing is added by `cleanup`. -/
theorem Clean.cleanup {k j : ℕ} (h : s.Clean k) (p : Pipe ι) : (s.cleanup j p).Clean k := by
  intro key l hl
  rw [← List.count_eq_zero]
  refine (TableOp.count_removes s.lists (p.removed j) key l).trans ?_
  rw [List.count_eq_zero.mpr (h key l hl), Nat.zero_sub]

omit [DecidableEq ι] [DecidableEq α] in
/-- Everything that is registered is removed. -/
theorem registered_sublist (p : Pipe ι) (k : ℕ) :
    (p.registered k : List ((ι × Str) × StreamListener α)).Sublist (p.removed k) := by
  unfold Pipe.registered Pipe.removed
  cases p.ends
  · exact .cons_cons _ (.cons_cons _ (.cons _ (.cons _ (List.Sublist.refl _))))
  · exact List.Sublist.refl _

omit [DecidableEq ι] [DecidableEq α] in
theorem removed_owner (p : Pipe ι) (k : ℕ) :
    ∀ x ∈ (p.removed k : List ((ι × Str) × StreamListener α)), x.2.owner = some k := by
  simp [Pipe.removed, StreamListener.owner]

theorem Whole.cleanup {k : ℕ} {p : Pipe ι} (h : s.Whole k p) : (s.cleanup k p).Clean k := by
  intro key l hl
  rw [← List.count_eq_zero]
  refine (TableOp.count_removes s.lists (p.removed k) key l).trans ?_
  rw [h key l hl]
  exact Nat.sub_eq_zero_of_le (List.Sublist.count_le (key, l) (registered_sublist (α := α) p k))

/-- While a pipe is registered each of the events that end it has a listener that does so. -/
theorem Whole.listens {k : ℕ} {p : Pipe ι} (h : s.Whole k p) {i : ι} {kind : Str}
    (hcleanup : p.IsCleanup i kind) :
    ∃ f, (f = .cleanup ∨ f = .onerror) ∧ .func (.pipe k f) ∈ s.lists (i, kind) := by
  have hmem (f : PipeFunction) (hf : ((i, kind), .func (.pipe k f)) ∈
      (p.ending k : List ((ι × Str) × StreamListener α))) :
      .func (.pipe k f) ∈ s.lists (i, kind) := by
    rw [← List.count_pos_iff, h (i, kind) _ rfl, List.count_pos_iff]
    exact List.mem_append_right _ hf
  obtain ⟨rfl | rfl | rfl, rfl | rfl⟩ := hcleanup
  · exact ⟨.cleanup, Or.inl rfl, hmem _ (by simp [Pipe.ending])⟩
  · exact ⟨.cleanup, Or.inl rfl, hmem _ (by simp [Pipe.ending])⟩
  · exact ⟨.cleanup, Or.inl rfl, hmem _ (by simp [Pipe.ending])⟩
  · exact ⟨.cleanup, Or.inl rfl, hmem _ (by simp [Pipe.ending])⟩
  · exact ⟨.onerror, Or.inr rfl, hmem _ (by simp [Pipe.ending])⟩
  · exact ⟨.onerror, Or.inr rfl, hmem _ (by simp [Pipe.ending])⟩

omit [DecidableEq ι] [DecidableEq α] in
/-- The listeners of two pipes are not the same. -/
theorem removes_owner {k j : ℕ} (p : Pipe ι) (hne : j ≠ k) :
    ∀ o ∈ TableOp.removes (p.removed j : List ((ι × Str) × StreamListener α)),
      StreamListener.owner o.element ≠ some k := by
  intro o ho hk
  obtain ⟨x, hx, rfl⟩ := List.mem_map.mp ho
  exact hne (Option.some_inj.mp ((removed_owner p j x hx).symm.trans hk))

omit [DecidableEq ι] [DecidableEq α] in
theorem adds_owner {k j : ℕ} (p : Pipe ι) (hne : j ≠ k) :
    ∀ o ∈ TableOp.adds (p.registered j : List ((ι × Str) × StreamListener α)),
      StreamListener.owner o.element ≠ some k := by
  intro o ho hk
  obtain ⟨x, hx, rfl⟩ := List.mem_map.mp ho
  have howner := removed_owner p j x ((registered_sublist p j).subset hx)
  exact hne (Option.some_inj.mp (howner.symm.trans hk))

/-! ### What a step keeps -/

/-- A state in which no listener of a pipe was added, and the pipes are the same. -/
structure Cleaner (s t : Streams ι α) : Prop where
  pipes : t.pipes = s.pipes
  clean : ∀ k, s.Clean k → t.Clean k

omit [DecidableEq ι] [DecidableEq α] in
theorem Pending.mono {t : Streams ι α} (h : Cleaner s t) {i : ι} {kind : Str} {made : ℕ}
    {rest : List (StreamListener α)} (hp : s.Pending i kind made rest) :
    t.Pending i kind made rest := by
  intro k hk p hget hcleanup
  rw [h.pipes] at hget
  rcases hp k hk p hget hcleanup with hclean | hrest
  · exact Or.inl (h.clean k hclean)
  · exact Or.inr hrest

/-- The rest of `Sound` for a state with the same emits. -/
theorem Sound.of_cleaner {t : Streams ι α} (h : s.Sound) (hc : Cleaner s t)
    (htable : t.lists = TableOp.replay t.ops)
    (hcounted : ∀ k p, s.pipes[k]? = some p → s.Whole k p → t.Clean k ∨ t.Whole k p)
    (hemits : t.emits = s.emits) (hemitted : t.emitted = s.emitted)
    (honce : t.progress = s.progress) : t.Sound where
  table := htable
  unmade k hk := hc.clean k (h.unmade k (by rw [← hc.pipes]; exact hk))
  counted k p hget := by
    rw [hc.pipes] at hget
    rcases h.counted k p hget with hclean | hwhole
    · exact Or.inl (hc.clean k hclean)
    · exact hcounted k p hget hwhole
  running e he := by
    rw [hemits] at he
    rw [hc.pipes]
    exact ⟨(h.running e he).1, (h.running e he).2.mono hc⟩
  past x hx := by
    rw [hemitted] at hx
    rw [hc.pipes]
    exact ⟨(h.past x hx).1, (h.past x hx).2.mono hc⟩
  once k := by
    rw [honce]
    exact h.once k

theorem perform_table (h : s.lists = TableOp.replay s.ops)
    (ops : List (TableOp (ι × Str) (StreamListener α))) :
    (s.perform ops).lists = TableOp.replay (s.perform ops).ops := by
  unfold Streams.perform
  rw [TableOp.replay_append, ← h]

/-- Other code does what it likes with its own listeners. -/
theorem Sound.perform (h : s.Sound) {ops : List (TableOp (ι × Str) (StreamListener α))}
    (hops : ∀ o ∈ ops, StreamListener.owner o.element = none) : (s.perform ops).Sound := by
  have hothers (k : ℕ) : ∀ o ∈ ops, StreamListener.owner o.element ≠ some k :=
    fun o ho hk => absurd ((hops o ho).symm.trans hk) nofun
  apply h.of_cleaner (t := s.perform ops) ⟨rfl, fun k hclean => hclean.perform (hothers k)⟩
    (perform_table h.table ops) _ rfl rfl rfl
  exact fun k _ _ hwhole => Or.inr (hwhole.perform (hothers k))

theorem cleanup_cleaner (s : Streams ι α) (k : ℕ) (p : Pipe ι) : Cleaner s (s.cleanup k p) :=
  ⟨rfl, fun _ hclean => hclean.cleanup p⟩

theorem Sound.cleanup (h : s.Sound) {k : ℕ} {p : Pipe ι} (hget : s.pipes[k]? = some p) :
    (s.cleanup k p).Sound ∧ (s.cleanup k p).Clean k := by
  constructor
  · apply h.of_cleaner (s.cleanup_cleaner k p) (perform_table h.table _) _ rfl rfl rfl
    intro j q hj hwhole
    by_cases hne : k = j
    · subst hne
      obtain rfl := Option.some_inj.mp (hget.symm.trans hj)
      exact Or.inl hwhole.cleanup
    · exact Or.inr (hwhole.perform (removes_owner p hne))
  · rcases h.counted k p hget with hclean | hwhole
    · exact hclean.cleanup p
    · exact hwhole.cleanup

/-- A new pipe is registered, and the others are as they were. -/
theorem Sound.pipe (h : s.Sound) (source dest : ι) (finish : Bool) :
    (s.pipe source dest finish).Sound := by
  unfold Streams.pipe
  generalize hp : (⟨source, dest, !(s.object dest).isStdio && finish⟩ : Pipe ι) = p
  have hold {k : ℕ} (hk : k < s.pipes.length) : (s.pipes ++ [p])[k]? = s.pipes[k]? :=
    List.getElem?_append_left hk
  have hothers {k : ℕ} (hne : s.pipes.length ≠ k) {t : Streams ι α} (hclean : t.Clean k) :
      (t.perform (TableOp.adds (p.registered s.pipes.length))).Clean k :=
    hclean.perform (adds_owner p hne)
  have hpending {i : ι} {kind : Str} {made : ℕ} {rest : List (StreamListener α)}
      (hmade : made ≤ s.pipes.length) (hpending : s.Pending i kind made rest) :
      ({ s with pipes := s.pipes ++ [p] }.perform
        (TableOp.adds (p.registered s.pipes.length))).Pending i kind made rest := by
    intro k hk q hget hcleanup
    have hlt : k < s.pipes.length := hk.trans_le hmade
    have hsame : s.pipes[k]? = some q := (hold hlt).symm.trans hget
    rcases hpending k hk q hsame hcleanup with hclean | hrest
    · exact Or.inl (hothers (t := { s with pipes := s.pipes ++ [p] }) hlt.ne' hclean)
    · exact Or.inr hrest
  refine ⟨?_, fun k hk => ?_, fun k q hget => ?_, fun e he => ?_, fun x hx => ?_, h.once⟩
  · exact perform_table (s := { s with pipes := s.pipes ++ [p] }) h.table _
  · have hlength : s.pipes.length + 1 ≤ k := by simpa [Streams.perform] using hk
    exact hothers (t := { s with pipes := s.pipes ++ [p] }) (Nat.ne_of_lt hlength)
      (h.unmade k (Nat.le_of_succ_le hlength))
  · have hget : (s.pipes ++ [p])[k]? = some q := hget
    rcases Nat.lt_trichotomy k s.pipes.length with hlt | heq | hgt
    · rw [hold hlt] at hget
      rcases h.counted k q hget with hclean | hwhole
      · exact Or.inl (hothers (t := { s with pipes := s.pipes ++ [p] }) hlt.ne' hclean)
      · right
        exact Whole.perform (s := { s with pipes := s.pipes ++ [p] }) hwhole
          (adds_owner p hlt.ne')
    · subst heq
      have hq : p = q := by simpa using hget
      subst hq
      right
      intro key l hl
      refine (TableOp.count_adds s.lists (p.registered s.pipes.length) key l).trans ?_
      rw [List.count_eq_zero.mpr (h.unmade _ le_rfl key l hl), Nat.zero_add]
    · have hnone : (s.pipes ++ [p])[k]? = none := by
        rw [List.getElem?_eq_none_iff]
        simpa using hgt
      exact absurd (hnone.symm.trans hget) (by simp)
  · obtain ⟨hmade, hrest⟩ := h.running e he
    have hlength : s.pipes.length ≤ (s.pipes ++ [p]).length := by simp
    exact ⟨hmade.trans hlength, hpending hmade hrest⟩
  · obtain ⟨hmade, hrest⟩ := h.past x hx
    have hlength : s.pipes.length ≤ (s.pipes ++ [p]).length := by simp
    exact ⟨hmade.trans hlength, hpending hmade hrest⟩

/-- Emits that are cut short. -/
theorem Sound.setEmits (h : s.Sound) {emits : List (StreamEmit ι α)}
    (hemits : ∀ e ∈ emits, e.made ≤ s.pipes.length ∧ s.Pending e.stream e.kind e.made e.rest) :
    ({ s with emits } : Streams ι α).Sound :=
  ⟨h.table, h.unmade, h.counted, hemits, h.past, h.once⟩

theorem Sound.raise (h : s.Sound) (depth : ℕ) : (s.raise depth).Sound :=
  h.setEmits fun e he => h.running e (List.mem_of_mem_drop he)

theorem Sound.ends (h : s.Sound) {i : ι} {kind : Str} {made : ℕ} (hmade : made ≤ s.pipes.length)
    (hpending : s.Pending i kind made []) : (s.ends i kind made).Sound := by
  refine ⟨h.table, h.unmade, h.counted, h.running, fun x hx => ?_, h.once⟩
  rcases List.mem_append.mp hx with hx | hx
  · exact h.past x hx
  · rw [List.mem_singleton.mp hx]
    exact ⟨hmade, hpending⟩

/-- Without a listener for 'error' no pipe is registered on the stream. -/
theorem Sound.deserted (h : s.Sound) {i : ι} (hnone : s.lists (i, "error".toList) = []) {k : ℕ}
    {p : Pipe ι} (hget : s.pipes[k]? = some p) (hi : i = p.source ∨ i = p.dest) : s.Clean k := by
  rcases h.counted k p hget with hclean | hwhole
  · exact hclean
  · obtain ⟨f, -, hmem⟩ := hwhole.listens ⟨Or.inr (Or.inr rfl), hi⟩
    rw [hnone] at hmem
    exact absurd hmem List.not_mem_nil

theorem Sound.emit (h : s.Sound) (i : ι) (kind : Str) (depth : ℕ) : (s.emit i kind depth).Sound := by
  unfold Streams.emit
  split_ifs with hraise
  · obtain ⟨rfl, hnone⟩ := hraise
    apply Sound.raise
    apply h.ends le_rfl
    exact fun k _ p hget hcleanup => Or.inl (h.deserted hnone hget hcleanup.2)
  · apply h.setEmits
    intro e he
    rcases List.mem_cons.mp he with rfl | he
    · refine ⟨le_rfl, fun k _ p hget hcleanup => ?_⟩
      rcases h.counted k p hget with hclean | hwhole
      · exact Or.inl hclean
      · exact Or.inr (hwhole.listens hcleanup)
    · exact h.running e he

theorem Sound.setProgress (h : s.Sound) {k : ℕ} {progress : PipeProgress}
    (hprogress : progress.finished ≤ if progress.didOnend then 1 else 0) :
    (s.setProgress k progress).Sound := by
  refine ⟨h.table, h.unmade, h.counted, h.running, h.past, fun j => ?_⟩
  by_cases hj : j = k
  · subst hj
    simpa [Streams.setProgress] using hprogress
  · simpa [Streams.setProgress, hj] using h.once j

omit [DecidableEq α] in
theorem resume_progress (s : Streams ι α) (i : ι) (k : ℕ) :
    ((s.resume i).progress k).finished = (s.progress k).finished ∧
    ((s.resume i).progress k).didOnend = (s.progress k).didOnend := by
  unfold Streams.resume
  dsimp only
  split_ifs <;> exact ⟨rfl, rfl⟩

theorem Sound.resume (h : s.Sound) (i : ι) : (s.resume i).Sound := by
  refine ⟨h.table, h.unmade, h.counted, h.running, h.past, fun k => ?_⟩
  obtain ⟨hfinished, hdid⟩ := s.resume_progress i k
  rw [hfinished, hdid]
  exact h.once k

theorem Sound.ondrain (h : s.Sound) (i : ι) : (s.ondrain i).Sound := by
  unfold Streams.ondrain
  split_ifs
  · exact h.resume i
  · exact h

theorem Sound.onend (h : s.Sound) (k : ℕ) : (s.onend k).Sound := by
  have honce := h.once k
  unfold Streams.onend
  split_ifs with hdid
  · exact h
  · apply h.setProgress
    rw [if_neg hdid] at honce
    exact Nat.succ_le_succ honce

theorem Sound.onclose (h : s.Sound) (k : ℕ) (p : Pipe ι) : (s.onclose k p).Sound := by
  have honce := h.once k
  unfold Streams.onclose
  by_cases hdid : (s.progress k).didOnend = true
  · rw [if_pos hdid]
    exact h
  · rw [if_neg hdid] at honce ⊢
    apply h.setProgress
    have hdestroy : (if (s.object p.dest).destroy = true then 1 else 0) ≤ 1 := by
      split_ifs <;> omega
    exact Nat.add_le_add honce hdestroy

/-- A listener is called: the listeners of a pipe that is to end are gone, or are still to be called. -/
theorem Sound.call (h : s.Sound) {e : StreamEmit ι α} {emits : List (StreamEmit ι α)}
    (hemits : s.emits = e :: emits) {l : StreamListener α} {rest : List (StreamListener α)}
    (hrest : e.rest = l :: rest) (depth : ℕ) :
    (({ s with emits := { e with rest } :: emits } : Streams ι α).call e depth l).Sound := by
  have hbelow : ∀ f ∈ emits, f.made ≤ s.pipes.length ∧ s.Pending f.stream f.kind f.made f.rest :=
    fun f hf => h.running f (by rw [hemits]; exact List.mem_cons_of_mem e hf)
  obtain ⟨hmade, hpending⟩ := h.running e (by rw [hemits]; exact List.mem_cons_self)
  rw [hrest] at hpending
  -- a listener that does not remove the others is not waited for
  have hothers (hl : ∀ k, l ≠ .func (.pipe k .cleanup) ∧ l ≠ .func (.pipe k .onerror)) :
      s.Pending e.stream e.kind e.made rest := by
    intro k hk p hget hcleanup
    rcases hpending k hk p hget hcleanup with hclean | ⟨f, hf, hmem⟩
    · exact Or.inl hclean
    · right
      refine ⟨f, hf, ?_⟩
      rcases List.mem_cons.mp hmem with heq | hmem
      · rcases hf with rfl | rfl
        · exact absurd heq.symm (hl k).1
        · exact absurd heq.symm (hl k).2
      · exact hmem
  -- one that does has removed them
  have hremoved {k : ℕ} {f : PipeFunction} (hl : l = .func (.pipe k f)) {t : Streams ι α}
      (hc : Cleaner s t) (hclean : t.Clean k) : t.Pending e.stream e.kind e.made rest := by
    intro j hj p hget hcleanup
    rw [hc.pipes] at hget
    rcases hpending j hj p hget hcleanup with hother | ⟨g, hg, hmem⟩
    · exact Or.inl (hc.clean j hother)
    · rcases List.mem_cons.mp hmem with heq | hmem
      · left
        rw [hl] at heq
        cases heq
        exact hclean
      · exact Or.inr ⟨g, hg, hmem⟩
  have hsame (hl : ∀ k, l ≠ .func (.pipe k .cleanup) ∧ l ≠ .func (.pipe k .onerror))
      (writing : Option ℕ) :
      ({ s with emits := { e with rest, writing } :: emits } : Streams ι α).Sound := by
    apply h.setEmits
    intro f hf
    rcases List.mem_cons.mp hf with rfl | hf
    · exact ⟨hmade, hothers hl⟩
    · exact hbelow f hf
  unfold Streams.call
  split
  · rename_i k f
    split
    · rename_i hnone
      have hnone : s.pipes[k]? = none := hnone
      apply h.setEmits
      intro g hg
      rcases List.mem_cons.mp hg with rfl | hg
      · refine ⟨hmade, fun j hj p hget hcleanup => ?_⟩
        rcases hpending j hj p hget hcleanup with hclean | ⟨f', hf', hmem⟩
        · exact Or.inl hclean
        · rcases List.mem_cons.mp hmem with heq | hmem
          · cases heq
            exact absurd (hnone.symm.trans hget) nofun
          · exact Or.inr ⟨f', hf', hmem⟩
      · exact hbelow g hg
    · rename_i p hget
      have hget : s.pipes[k]? = some p := hget
      obtain ⟨hsound, hclean⟩ := h.cleanup hget
      have hcleaner := s.cleanup_cleaner k p
      cases f with
      | ondata =>
        unfold Streams.ondata
        split_ifs
        · exact hsame (by simp) (some k)
        · exact hsame (by simp) e.writing
      | ondrain => exact (hsame (by simp) e.writing).ondrain e.stream
      | onend => exact (hsame (by simp) e.writing).onend k
      | onclose => exact (hsame (by simp) e.writing).onclose k p
      | onerror =>
        unfold Streams.onerror
        dsimp only
        split_ifs with hnone
        · have hnone : (s.cleanup k p).lists (e.stream, "error".toList) = [] := hnone
          have hends : ((s.cleanup k p).ends e.stream e.kind e.made).Sound := by
            apply hsound.ends hmade
            intro j _ q hj hcleanup
            exact Or.inl (hsound.deserted hnone hj hcleanup.2)
          apply hends.setEmits
          intro g hg
          have hg : g ∈ emits := List.mem_of_mem_drop hg
          exact ⟨(hbelow g hg).1, (hbelow g hg).2.mono hcleaner⟩
        · apply hsound.setEmits
          intro g hg
          rcases List.mem_cons.mp hg with rfl | hg
          · exact ⟨hmade, hremoved rfl hcleaner hclean⟩
          · exact ⟨(hbelow g hg).1, (hbelow g hg).2.mono hcleaner⟩
      | cleanup =>
        apply hsound.setEmits
        intro g hg
        rcases List.mem_cons.mp hg with rfl | hg
        · exact ⟨hmade, hremoved rfl hcleaner hclean⟩
        · exact ⟨(hbelow g hg).1, (hbelow g hg).2.mono hcleaner⟩
  · rename_i hl
    apply hsame _ e.writing
    exact fun k => ⟨fun heq => hl k _ heq, fun heq => hl k _ heq⟩

theorem Sound.next (h : s.Sound) (depth : ℕ) : (s.next depth).Sound := by
  unfold Streams.next
  split
  · exact h
  · rename_i e emits hemits
    split_ifs
    · exact h
    · obtain ⟨hmade, hpending⟩ := h.running e (by rw [hemits]; exact List.mem_cons_self)
      split
      · rename_i hrest
        rw [hrest] at hpending
        apply Sound.ends (s := { s with emits }) _ hmade hpending
        exact h.setEmits fun f hf => h.running f (by rw [hemits]; exact List.mem_cons_of_mem e hf)
      · rename_i l rest hrest
        exact h.call hemits hrest depth

theorem Sound.written (h : s.Sound) (full : Bool) : (s.written full).Sound := by
  unfold Streams.written
  split
  · exact h
  · rename_i e emits hemits
    split
    · exact h
    · rename_i k _
      have hidle : ({ s with emits := { e with writing := none } :: emits } : Streams ι α).Sound := by
        apply h.setEmits
        intro f hf
        rcases List.mem_cons.mp hf with rfl | hf
        · exact h.running e (by rw [hemits]; exact List.mem_cons_self)
        · exact h.running f (by rw [hemits]; exact List.mem_cons_of_mem e hf)
      dsimp only
      split_ifs
      · exact hidle.setProgress (h.once k)
      · exact hidle

theorem Sound.step (h : s.Sound) (a : StreamAction ι α) : (s.step a).Sound := by
  cases a with
  | addListener i kind l =>
    simp only [Streams.step]
    split_ifs with howner
    · exact h.perform (by simpa [TableOp.element] using howner)
    · exact h
  | removeListener i kind l =>
    simp only [Streams.step]
    split_ifs with howner
    · exact h.perform (by simpa [TableOp.element] using howner)
    · exact h
  | setObject i object => exact ⟨h.table, h.unmade, h.counted, h.running, h.past, h.once⟩
  | resume i => exact h.resume i
  | pipe source dest finish => exact h.pipe source dest finish
  | emit i kind depth => exact h.emit i kind depth
  | next depth => exact h.next depth
  | written full => exact h.written full
  | abort depth => exact h.raise _

/-- A stream is piped into another one twice, until its 'end'. -/
def twice : List (StreamAction Bool Unit) :=
  [.pipe false true true, .pipe false true false, .emit false "end".toList 0, .next 0, .next 0,
    .next 0, .next 0]

end Streams

end LuaNode
