import Mathlib.Data.List.Basic
import Mathlib.Logic.Function.Basic

/-!
# Tables of lists

A table has a list for each key. Elements are put at the end of a list, and taken away where they occur
first. What a sequence of operations makes of the elements that satisfy a predicate is what the
operations on these elements make.
-/

namespace LuaNode

inductive TableOp (κ α : Type*)
  | add (key : κ) (a : α)
  | remove (key : κ) (a : α)

namespace TableOp

variable {κ α : Type*}

def element : TableOp κ α → α
  | add _ a => a
  | remove _ a => a

variable [DecidableEq κ] [DecidableEq α]

def apply (t : κ → List α) : TableOp κ α → κ → List α
  | add key a => Function.update t key (t key ++ [a])
  | remove key a => Function.update t key ((t key).erase a)

/-- The table after a sequence of operations. -/
def applyAll (t : κ → List α) (ops : List (TableOp κ α)) : κ → List α := ops.foldl apply t

def replay (ops : List (TableOp κ α)) : κ → List α := applyAll (fun _ => []) ops

variable (t : κ → List α) (o : TableOp κ α) (ops : List (TableOp κ α))

theorem replay_append (ops' : List (TableOp κ α)) :
    replay (ops ++ ops') = applyAll (replay ops) ops' :=
  List.foldl_append

/-- An operation on an element that satisfies the predicate can be done after the filter. -/
theorem filter_apply {p : α → Bool} (h : p o.element = true) (key : κ) :
    (apply t o key).filter p = apply (fun k => (t k).filter p) o key := by
  cases o with
  | add k a =>
    by_cases hk : key = k
    · subst hk
      have ha : p a = true := h
      simp [apply, List.filter_append, ha]
    · simp [apply, hk]
  | remove k a =>
    by_cases hk : key = k
    · subst hk
      simp [apply, List.erase_filter]
    · simp [apply, hk]

/-- One on another element does not matter. -/
theorem filter_apply_other {p : α → Bool} (h : p o.element = false) (key : κ) :
    (apply t o key).filter p = (t key).filter p := by
  cases o with
  | add k a =>
    by_cases hk : key = k
    · subst hk
      have ha : p a = false := h
      simp [apply, List.filter_append, ha]
    · simp [apply, hk]
  | remove k a =>
    by_cases hk : key = k
    · subst hk
      have ha : a ∉ (t key).filter p := by
        intro hmem
        exact absurd ((List.mem_filter.mp hmem).2.symm.trans h) nofun
      simp only [apply, Function.update_self]
      rw [← List.erase_filter, List.erase_of_not_mem ha]
    · simp [apply, hk]

theorem filter_applyAll (p : α → Bool) (key : κ) :
    (applyAll t ops key).filter p =
      applyAll (fun k => (t k).filter p) (ops.filter fun o => p o.element) key := by
  induction ops generalizing t with
  | nil => rfl
  | cons o ops ih =>
    rw [List.filter_cons]
    cases h : p o.element with
    | true =>
      have hfun : (fun k => (apply t o k).filter p) = apply (fun k => (t k).filter p) o :=
        funext (filter_apply t o h)
      rw [if_pos rfl]
      exact (ih (apply t o)).trans (by rw [hfun]; rfl)
    | false =>
      have hfun : (fun k => (apply t o k).filter p) = fun k => (t k).filter p :=
        funext (filter_apply_other t o h)
      rw [if_neg nofun]
      exact (ih (apply t o)).trans (by rw [hfun])

/-- Where only elements that satisfy the predicate are left, the operations on the others might as well
not have been done. -/
theorem replay_of_forall {p : α → Bool} {key : κ} (h : ∀ a ∈ replay ops key, p a = true) :
    replay ops key = replay (ops.filter fun o => p o.element) key := by
  rw [← List.filter_eq_self.mpr h]
  exact filter_applyAll (fun _ => []) ops p key

/-! ### Counting -/

theorem count_apply_add (k key : κ) (a b : α) :
    (apply t (.add k a) key).count b =
      (t key).count b + if (k, a) = (key, b) then 1 else 0 := by
  by_cases hk : k = key
  · subst hk
    simp [apply, List.count_append, List.count_singleton]
  · simp [apply, hk, Ne.symm hk]

theorem count_apply_remove (k key : κ) (a b : α) :
    (apply t (.remove k a) key).count b =
      (t key).count b - if (k, a) = (key, b) then 1 else 0 := by
  by_cases hk : k = key
  · subst hk
    simp [apply, List.count_erase]
  · simp [apply, hk, Ne.symm hk]

/-- Operations on other elements do not matter. -/
theorem count_applyAll {a : α} (h : ∀ o ∈ ops, o.element ≠ a) (key : κ) :
    (applyAll t ops key).count a = (t key).count a := by
  induction ops generalizing t with
  | nil => rfl
  | cons o ops ih =>
    obtain ⟨ho, hops⟩ := List.forall_mem_cons.mp h
    refine (ih (apply t o) hops).trans ?_
    cases o with
    | add k b =>
      have hne : (k, b) ≠ (key, a) := fun heq => ho (congrArg Prod.snd heq)
      rw [count_apply_add, if_neg hne]
      rfl
    | remove k b =>
      have hne : (k, b) ≠ (key, a) := fun heq => ho (congrArg Prod.snd heq)
      rw [count_apply_remove, if_neg hne]
      rfl

/-- The operations that add, or remove, the entries of a list. -/
def adds (entries : List (κ × α)) : List (TableOp κ α) := entries.map fun e => .add e.1 e.2

def removes (entries : List (κ × α)) : List (TableOp κ α) := entries.map fun e => .remove e.1 e.2

theorem count_adds [BEq (κ × α)] [LawfulBEq (κ × α)] (entries : List (κ × α)) (key : κ) (a : α) :
    (applyAll t (adds entries) key).count a = (t key).count a + entries.count (key, a) := by
  induction entries generalizing t with
  | nil => rfl
  | cons e entries ih =>
    obtain ⟨k, b⟩ := e
    have hhead := count_apply_add t k key b a
    have htail := ih (apply t (.add k b))
    simp only [List.count_cons, beq_iff_eq]
    refine htail.trans ?_
    omega

theorem count_removes [BEq (κ × α)] [LawfulBEq (κ × α)] (entries : List (κ × α)) (key : κ) (a : α) :
    (applyAll t (removes entries) key).count a = (t key).count a - entries.count (key, a) := by
  induction entries generalizing t with
  | nil => rfl
  | cons e entries ih =>
    obtain ⟨k, b⟩ := e
    have hhead := count_apply_remove t k key b a
    have htail := ih (apply t (.remove k b))
    simp only [List.count_cons, beq_iff_eq]
    refine htail.trans ?_
    omega

end TableOp

end LuaNode
