import Mathlib.Data.List.Basic
import Mathlib.Tactic.TypeStar

/-!
# Runs of a deterministic machine

The machines of this development are step functions `σ → ι → σ`: whatever the environment
may decide (which callback fires next, what a native call answers) is part of the event, so
a run is a fold over a list of events. A property is proved of one step and carried to every
run by the two induction rules below; the second one is for steps taken under a guard.
-/

namespace LuaNode

variable {σ ι : Type*}

/-- The state after a list of events. -/
def run (step : σ → ι → σ) (s : σ) (es : List ι) : σ := es.foldl step s

/-- Every event of the list meets the guard in the state in which it occurs. -/
def Guarded (step : σ → ι → σ) (G : σ → ι → Prop) : σ → List ι → Prop
  | _, [] => True
  | s, e :: es => G s e ∧ Guarded step G (step s e) es

/-- The states a run passes through, its first and its last one included. -/
def statesOf (step : σ → ι → σ) : σ → List ι → List σ
  | s, [] => [s]
  | s, e :: es => s :: statesOf step (step s e) es

section Rules

variable {step : σ → ι → σ} {G : σ → ι → Prop}

@[simp] theorem run_nil (s : σ) : run step s [] = s := rfl

@[simp] theorem run_cons (s : σ) (e : ι) (es : List ι) :
    run step s (e :: es) = run step (step s e) es := rfl

theorem run_append (s : σ) (es fs : List ι) :
    run step s (es ++ fs) = run step (run step s es) fs := by
  simp [run, List.foldl_append]

@[simp] theorem guarded_nil (s : σ) : Guarded step G s [] := trivial

@[simp] theorem guarded_cons (s : σ) (e : ι) (es : List ι) :
    Guarded step G s (e :: es) ↔ G s e ∧ Guarded step G (step s e) es := Iff.rfl

theorem guarded_append (s : σ) (es fs : List ι) :
    Guarded step G s (es ++ fs) ↔ Guarded step G s es ∧ Guarded step G (run step s es) fs := by
  induction es generalizing s with
  | nil => simp
  | cons e es ih => simp [ih, and_assoc]

instance decidableGuarded [∀ s e, Decidable (G s e)] :
    ∀ (s : σ) (es : List ι), Decidable (Guarded step G s es)
  | _, [] => inferInstanceAs (Decidable True)
  | s, e :: es =>
    have := decidableGuarded (step s e) es
    inferInstanceAs (Decidable (G s e ∧ Guarded step G (step s e) es))

/-- What one step preserves, a run preserves. -/
theorem run_invariant {I : σ → Prop} (hstep : ∀ s e, I s → I (step s e))
    {s : σ} (hs : I s) (es : List ι) : I (run step s es) := by
  induction es generalizing s with
  | nil => exact hs
  | cons e es ih => exact ih (hstep s e hs)

/-- What a step taken under the guard preserves, a guarded run preserves. -/
theorem guarded_invariant {I : σ → Prop} (hstep : ∀ s e, I s → G s e → I (step s e))
    {s : σ} (hs : I s) {es : List ι} (hg : Guarded step G s es) : I (run step s es) := by
  induction es generalizing s with
  | nil => exact hs
  | cons e es ih => exact ih (hstep s e hs hg.1) hg.2

theorem run_mem_statesOf (step : σ → ι → σ) (s : σ) (es : List ι) :
    run step s es ∈ statesOf step s es := by
  induction es generalizing s with
  | nil => simp [statesOf]
  | cons e es ih => exact List.mem_cons_of_mem _ (ih (step s e))

/-- An invariant holds of every state that a run passes through. -/
theorem states_invariant {I : σ → Prop} (hstep : ∀ s e, I s → I (step s e)) {s t : σ}
    (hs : I s) {es : List ι} (ht : t ∈ statesOf step s es) : I t := by
  induction es generalizing s with
  | nil =>
    rw [List.mem_singleton.mp ht]
    exact hs
  | cons e es ih =>
    rcases List.mem_cons.mp ht with rfl | ht
    · exact hs
    · exact ih (hstep s e hs) ht

/-- So does what is preserved under the guard, in a run that is guarded. -/
theorem guarded_states_invariant {I : σ → Prop} (hstep : ∀ s e, I s → G s e → I (step s e))
    {s t : σ} (hs : I s) {es : List ι} (hg : Guarded step G s es) (ht : t ∈ statesOf step s es) :
    I t := by
  induction es generalizing s with
  | nil =>
    rw [List.mem_singleton.mp ht]
    exact hs
  | cons e es ih =>
    rcases List.mem_cons.mp ht with rfl | ht
    · exact hs
    · exact ih (hstep s e hs hg.1) hg.2 ht

/-- A guard that does not look at the state. -/
theorem guarded_of_forall {p : ι → Prop} {es : List ι} (hes : ∀ e ∈ es, p e) (s : σ) :
    Guarded step (fun _ e => p e) s es := by
  induction es generalizing s with
  | nil => trivial
  | cons e es ih =>
    exact ⟨hes e (List.mem_cons_self ..), ih (fun f hf => hes f (List.mem_cons_of_mem _ hf)) _⟩

theorem guarded_and {G' : σ → ι → Prop} {s : σ} {es : List ι} (h : Guarded step G s es)
    (h' : Guarded step G' s es) : Guarded step (fun s e => G s e ∧ G' s e) s es := by
  induction es generalizing s with
  | nil => trivial
  | cons e es ih => exact ⟨⟨h.1, h'.1⟩, ih h.2 h'.2⟩

/-- What the guard gives in a state that meets the invariant, every step of a guarded run meets. -/
theorem guarded_imp {I : σ → Prop} {G' : σ → ι → Prop}
    (hstep : ∀ s e, I s → G s e → I (step s e)) (himp : ∀ s e, I s → G s e → G' s e)
    {s : σ} (hs : I s) {es : List ι} (hg : Guarded step G s es) : Guarded step G' s es := by
  induction es generalizing s with
  | nil => trivial
  | cons e es ih => exact ⟨himp s e hs hg.1, ih (hstep s e hs hg.1) hg.2⟩

/-- A map under which the steps of two machines agree takes the runs of one to those of the
other. -/
theorem run_map {τ : Type*} {step' : τ → ι → τ} (f : σ → τ)
    (hstep : ∀ s e, f (step s e) = step' (f s) e) (s : σ) (es : List ι) :
    f (run step s es) = run step' (f s) es := by
  induction es generalizing s with
  | nil => rfl
  | cons e es ih => rw [run_cons, run_cons, ih, hstep]

/-- A run that stays within `P` is guarded by it on both sides of every step. -/
theorem guarded_of_states {P : σ → Prop} {s : σ} {es : List ι}
    (h : ∀ t ∈ statesOf step s es, P t) : Guarded step (fun s e => P s ∧ P (step s e)) s es := by
  induction es generalizing s with
  | nil => trivial
  | cons e es ih =>
    obtain ⟨hs, hnext⟩ := List.forall_mem_cons.mp h
    refine ⟨⟨hs, hnext _ ?_⟩, ih hnext⟩
    cases es <;> simp [statesOf]

/-- When the guard keeps the invariant, and is what a step within `P` needs, a run stays within `P`
exactly when it is guarded; `p` is what all events of the run meet. -/
theorem states_iff_guarded_within {I P : σ → Prop} {p : ι → Prop} (hwithin : ∀ s, I s → P s)
    (hkeeps : ∀ s e, p e → I s → G s e → I (step s e))
    (hneeds : ∀ s e, p e → I s → P (step s e) → G s e) {s : σ} (hs : I s) {es : List ι}
    (hes : ∀ e ∈ es, p e) : (∀ t ∈ statesOf step s es, P t) ↔ Guarded step G s es := by
  induction es generalizing s with
  | nil => simp [statesOf, hwithin s hs]
  | cons e es ih =>
    obtain ⟨he, hes⟩ := List.forall_mem_cons.mp hes
    have hnext : (∀ t ∈ statesOf step (step s e) es, P t) → P (step s e) := by
      intro h
      cases es <;> exact h _ (by simp [statesOf])
    simp only [statesOf, List.forall_mem_cons, hwithin s hs, true_and, guarded_cons]
    constructor
    · intro h
      have hg := hneeds s e he hs (hnext h)
      exact ⟨hg, (ih (hkeeps s e he hs hg) hes).mp h⟩
    · rintro ⟨hge, hg⟩
      exact (ih (hkeeps s e he hs hge) hes).mpr hg

theorem states_iff_guarded_of {I P : σ → Prop} {p : ι → Prop}
    (hinv : ∀ s e, p e → I s → I (step s e))
    (hiff : ∀ s e, p e → I s → P s → (P (step s e) ↔ G s e)) {s : σ} (hs : I s) (hp : P s)
    {es : List ι} (hes : ∀ e ∈ es, p e) :
    (∀ t ∈ statesOf step s es, P t) ↔ Guarded step G s es :=
  states_iff_guarded_within (I := fun s => I s ∧ P s) (fun _ h => h.2)
    (fun s e he h hg => ⟨hinv s e he h.1, (hiff s e he h.1 h.2).mpr hg⟩)
    (fun s e he h => (hiff s e he h.1 h.2).mp) ⟨hs, hp⟩ hes

theorem states_iff_guarded {I P : σ → Prop} (hinv : ∀ s e, I s → I (step s e))
    (hiff : ∀ s e, I s → P s → (P (step s e) ↔ G s e)) {s : σ} (hs : I s) (hp : P s)
    (es : List ι) : (∀ t ∈ statesOf step s es, P t) ↔ Guarded step G s es :=
  states_iff_guarded_of (p := fun _ => True) (fun s e _ => hinv s e) (fun s e _ => hiff s e) hs hp
    (fun _ _ => trivial)

end Rules

end LuaNode
