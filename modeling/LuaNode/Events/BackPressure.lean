import LuaNode.Events.PipeCleanup

/-!
# Back-pressure

The function `ondrain` of a pipe has a parameter `source`, which hides that of `pipe`: what it resumes is
the stream that has emitted 'drain', which is the destination.
-/

namespace LuaNode

namespace Streams

variable {ι α : Type*} [DecidableEq ι] [DecidableEq α] {s : Streams ι α}

/-- In an `emit` of the destination the `ondrain` of a pipe is called that is active, and whose source
is readable and was paused by the pipe. -/
def Draining (s : Streams ι α) (k : ℕ) (p : Pipe ι) : StreamAction ι α → Prop
  | .next _ =>
    s.pipes[k]? = some p ∧
    (∃ e ∈ s.emits.head?, e.writing = none ∧ e.rest.head? = some (.func (.pipe k .ondrain))) ∧
    .func (.pipe k .ondrain) ∈ s.lists (p.dest, "drain".toList) ∧
    (s.progress k).paused = true ∧ (s.object p.source).readable = true
  | _ => False

/-- A source that was paused is resumed. -/
def Released (s : Streams ι α) (a : StreamAction ι α) : Prop :=
  ∀ k p, s.Draining k p a → ((s.step a).progress k).paused = false

/-- The source is its own destination, and has a method `resume`. -/
def SelfPiped (s : Streams ι α) (a : StreamAction ι α) : Prop :=
  ∀ k p, s.Draining k p a → p.dest = p.source ∧ (s.object p.source).resume = true

/-- The listener of a pipe is called for the events for which it was registered. -/
def Placed (s : Streams ι α) (i : ι) (kind : Str) (l : StreamListener α) : Prop :=
  ∀ k, StreamListener.owner l = some k →
    ∃ p, s.pipes[k]? = some p ∧ ((i, kind), l) ∈ p.registered k

structure Well (s : Streams ι α) : Prop extends Sound s where
  placed : ∀ e ∈ s.emits, ∀ l ∈ e.rest, s.Placed e.stream e.kind l

theorem init_well (object : ι → StreamObject) : (init object : Streams ι α).Well :=
  ⟨init_sound object, fun _ h => absurd h List.not_mem_nil⟩

/-- What is in a list is in its place. -/
theorem Sound.placed (h : s.Sound) {i : ι} {kind : Str} {l : StreamListener α}
    (hl : l ∈ s.lists (i, kind)) : s.Placed i kind l := by
  intro k howner
  by_cases hk : k < s.pipes.length
  · have hget : s.pipes[k]? = some s.pipes[k] := List.getElem?_eq_getElem hk
    refine ⟨s.pipes[k], hget, ?_⟩
    rcases h.counted k s.pipes[k] hget with hclean | hwhole
    · exact absurd hl (hclean (i, kind) l howner)
    · rw [← List.count_pos_iff, ← hwhole (i, kind) l howner, List.count_pos_iff]
      exact hl
  · exact absurd hl (h.unmade k (Nat.le_of_not_lt hk) (i, kind) l howner)

/-- The emits after a step are those before it, which may have called some of their listeners, or new
ones; and the pipes are still there. -/
structure Continues (s t : Streams ι α) : Prop where
  pipes : s.pipes <+: t.pipes
  emits : ∀ e ∈ t.emits, (∀ l ∈ e.rest, l ∈ s.lists (e.stream, e.kind)) ∨
    ∃ f ∈ s.emits, f.stream = e.stream ∧ f.kind = e.kind ∧ e.rest ⊆ f.rest

omit [DecidableEq ι] [DecidableEq α] in
theorem Continues.of_emits {t : Streams ι α} (hpipes : t.pipes = s.pipes)
    (hemits : t.emits = s.emits) : Continues s t := by
  refine ⟨by rw [hpipes], fun e he => Or.inr ⟨e, ?_, rfl, rfl, fun _ hl => hl⟩⟩
  rw [← hemits]
  exact he

omit [DecidableEq ι] [DecidableEq α] in
theorem Continues.trans_emits {t u : Streams ι α} (h : Continues s t) (hpipes : u.pipes = t.pipes)
    (hemits : u.emits ⊆ t.emits) : Continues s u :=
  ⟨by rw [hpipes]; exact h.pipes, fun e he => h.emits e (hemits he)⟩

theorem call_continues (s : Streams ι α) {e : StreamEmit ι α} {emits : List (StreamEmit ι α)}
    (hemits : s.emits = e :: emits) {l : StreamListener α} {rest : List (StreamListener α)}
    (hrest : e.rest = l :: rest) (depth : ℕ) :
    Continues s (({ s with emits := { e with rest } :: emits } : Streams ι α).call e depth l) := by
  have hnext (writing : Option ℕ) :
      Continues s { s with emits := { e with rest, writing } :: emits } := by
    refine ⟨List.prefix_rfl, fun f hf => Or.inr ?_⟩
    rcases List.mem_cons.mp hf with rfl | hf
    · exact ⟨e, by rw [hemits]; exact List.mem_cons_self, rfl, rfl,
        by rw [hrest]; exact List.subset_cons_self l rest⟩
    · exact ⟨f, by rw [hemits]; exact List.mem_cons_of_mem e hf, rfl, rfl, fun _ hl => hl⟩
  have hsame := hnext e.writing
  unfold Streams.call
  split
  · rename_i f
    split
    · exact hsame
    · cases f with
      | ondata =>
        unfold Streams.ondata
        split_ifs
        · exact hnext _
        · exact hsame
      | ondrain =>
        unfold Streams.ondrain
        split_ifs <;> exact hsame.trans_emits rfl fun _ hf => hf
      | onend =>
        unfold Streams.onend
        split_ifs <;> exact hsame.trans_emits rfl fun _ hf => hf
      | onclose =>
        unfold Streams.onclose
        split_ifs <;> exact hsame.trans_emits rfl fun _ hf => hf
      | onerror =>
        unfold Streams.onerror
        dsimp only
        split_ifs
        · exact hsame.trans_emits rfl fun _ hf => List.mem_of_mem_drop hf
        · exact hsame.trans_emits rfl fun _ hf => hf
      | cleanup => exact hsame.trans_emits rfl fun _ hf => hf
  · exact hsame

theorem step_continues (s : Streams ι α) (a : StreamAction ι α) : Continues s (s.step a) := by
  have hself : Continues s s := Continues.of_emits rfl rfl
  cases a with
  | addListener i kind l | removeListener i kind l =>
    simp only [Streams.step]
    split_ifs <;> exact Continues.of_emits rfl rfl
  | setObject | resume => exact Continues.of_emits rfl rfl
  | pipe source dest finish => exact ⟨List.prefix_append _ _, hself.emits⟩
  | emit i kind depth =>
    simp only [Streams.step, Streams.emit]
    split_ifs
    · exact hself.trans_emits rfl fun _ hf => List.mem_of_mem_drop hf
    · refine ⟨List.prefix_rfl, fun f hf => ?_⟩
      rcases List.mem_cons.mp hf with rfl | hf
      · exact Or.inl fun _ hl => hl
      · exact hself.emits f hf
  | next depth =>
    simp only [Streams.step, Streams.next]
    split
    · exact hself
    · rename_i e emits hemits
      split_ifs
      · exact hself
      · split
        · refine hself.trans_emits rfl fun f hf => ?_
          rw [hemits]
          exact List.mem_cons_of_mem e hf
        · rename_i hrest
          exact s.call_continues hemits hrest depth
  | written full =>
    simp only [Streams.step, Streams.written]
    split
    · exact hself
    · rename_i e emits hemits
      split
      · exact hself
      · have hidle : Continues s { s with emits := { e with writing := none } :: emits } := by
          refine ⟨List.prefix_rfl, fun f hf => Or.inr ?_⟩
          rcases List.mem_cons.mp hf with rfl | hf
          · exact ⟨e, by rw [hemits]; exact List.mem_cons_self, rfl, rfl, fun _ hl => hl⟩
          · exact ⟨f, by rw [hemits]; exact List.mem_cons_of_mem e hf, rfl, rfl, fun _ hl => hl⟩
        split_ifs <;> exact hidle.trans_emits rfl fun _ hf => hf
  | abort depth => exact hself.trans_emits rfl fun _ hf => List.mem_of_mem_drop hf

theorem Well.step (h : s.Well) (a : StreamAction ι α) : (s.step a).Well := by
  refine ⟨h.toSound.step a, fun e he l hl => ?_⟩
  obtain ⟨hpipes, hemits⟩ := s.step_continues a
  have hplaced : s.Placed e.stream e.kind l := by
    rcases hemits e he with hlists | ⟨f, hf, hstream, hkind, hsubset⟩
    · exact h.toSound.placed (hlists l hl)
    · rw [← hstream, ← hkind]
      exact h.placed f hf l (hsubset hl)
  intro k howner
  obtain ⟨p, hget, hmem⟩ := hplaced k howner
  refine ⟨p, ?_, hmem⟩
  rw [List.prefix_iff_getElem?.mp hpipes k (List.getElem?_eq_some_iff.mp hget).1]
  exact (List.getElem?_eq_getElem _).symm.trans hget

/-- What calls `ondrain` is an `emit` of the destination. -/
theorem Well.drain_stream (h : s.Well) {e : StreamEmit ι α} (he : e ∈ s.emits) {k : ℕ} {p : Pipe ι}
    (hget : s.pipes[k]? = some p) (hmem : .func (.pipe k .ondrain) ∈ e.rest) : e.stream = p.dest := by
  obtain ⟨q, hq, hregistered⟩ := h.placed e he _ hmem k rfl
  obtain rfl := Option.some_inj.mp (hget.symm.trans hq)
  unfold Pipe.registered at hregistered
  split_ifs at hregistered <;> simp at hregistered <;> exact hregistered.1

/-- The call of `ondrain` resumes the destination. -/
theorem Well.drain_step (h : s.Well) {k depth : ℕ} {p : Pipe ι}
    (hdrain : s.Draining k p (.next depth)) :
    (((s.step (.next depth)).progress k).paused = false ↔
      (s.object p.dest).readable = true ∧ (s.object p.dest).resume = true ∧ p.source = p.dest) := by
  obtain ⟨hget, ⟨e, hhead, hwriting, hrest⟩, -, hpaused, -⟩ := hdrain
  obtain ⟨emits, hemits⟩ : ∃ emits, s.emits = e :: emits := by
    cases hs : s.emits with
    | nil => simp [hs] at hhead
    | cons f fs =>
      rw [hs] at hhead
      obtain rfl := Option.some_inj.mp hhead
      exact ⟨fs, rfl⟩
  obtain ⟨rest, hlisteners⟩ : ∃ rest, e.rest = .func (.pipe k .ondrain) :: rest := by
    cases hr : e.rest with
    | nil => simp [hr] at hrest
    | cons l ls =>
      rw [hr] at hrest
      obtain rfl := Option.some_inj.mp hrest
      exact ⟨ls, rfl⟩
  have hstream := h.drain_stream (by rw [hemits]; exact List.mem_cons_self) hget
    (by rw [hlisteners]; exact List.mem_cons_self)
  have hstep : s.step (.next depth) =
      ({ s with emits := { e with rest } :: emits } : Streams ι α).ondrain p.dest := by
    simp only [Streams.step, Streams.next, hemits, hwriting, hlisteners, Streams.call, hget, hstream]
    rfl
  rw [hstep]
  unfold Streams.ondrain
  dsimp only
  split_ifs with hresumes
  · simp only [Streams.resume, hget, Option.map_some, Option.some_inj]
    split_ifs with hsource
    · exact iff_of_true rfl ⟨hresumes.1, hresumes.2, hsource⟩
    · exact iff_of_false (by simp [hpaused]) fun hall => hsource hall.2.2
  · exact iff_of_false (by simp [hpaused]) fun hall => hresumes ⟨hall.1, hall.2.1⟩

theorem Well.released_iff (h : s.Well) (a : StreamAction ι α) : s.Released a ↔ s.SelfPiped a := by
  have hpipe (k : ℕ) (p : Pipe ι) (hdrain : s.Draining k p a) :
      ((s.step a).progress k).paused = false ↔
        p.dest = p.source ∧ (s.object p.source).resume = true := by
    cases a with
    | next depth =>
      have hreadable := hdrain.2.2.2.2
      rw [h.drain_step hdrain]
      constructor
      · rintro ⟨-, hresume, hsource⟩
        exact ⟨hsource.symm, hsource ▸ hresume⟩
      · rintro ⟨hdest, hresume⟩
        rw [hdest]
        exact ⟨hreadable, hresume, rfl⟩
    | _ => exact hdrain.elim
  exact forall_congr' fun k => forall_congr' fun p =>
    ⟨fun hr hd => (hpipe k p hd).mp (hr hd), fun hr hd => (hpipe k p hd).mpr (hr hd)⟩

/-- In every run each 'drain' of a destination resumes the sources that were paused for it, if and only if
these are the destination itself (with a method `resume`). -/
theorem drain_resumes_iff (object : ι → StreamObject) (as : List (StreamAction ι α)) :
    Guarded step Released (init object) as ↔ Guarded step SelfPiped (init object) as := by
  constructor
  · exact guarded_imp (I := Well) (fun _ a h _ => h.step a) (fun _ a h => (h.released_iff a).mp)
      (init_well object)
  · exact guarded_imp (I := Well) (fun _ a h _ => h.step a) (fun _ a h => (h.released_iff a).mpr)
      (init_well object)

/-- A readable stream is piped into another one, which has a full buffer and then drains. -/
theorem drain_resumes_dest :
    ¬ ∀ (object : Bool → StreamObject) (as : List (StreamAction Bool Unit)),
      Guarded step Released (init object) as := by
  intro h
  have hrun := h (fun _ => ⟨true, true, true, true, true, false⟩)
    ([.pipe false true true, .emit false "data".toList 0, .next 0, .written true, .next 0,
      .emit true "drain".toList 0] ++ [.next 0])
  have hlast := ((guarded_append _ _ _).mp hrun).2.1 0 ⟨false, true, true⟩
    ⟨by decide, ⟨_, rfl, rfl, rfl⟩, by decide, by decide, rfl⟩
  revert hlast
  decide

end Streams

end LuaNode
