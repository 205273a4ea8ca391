import Mathlib.Data.List.Infix
import Mathlib.Data.List.TakeWhile
import Mathlib.Tactic.TypeStar

/-!
# Common prefixes in lexicographic order

The lists that have a given prefix lie together in the lexicographic order: what is between two of
them has it too. So the least and the greatest list of a sorted one share exactly what all of
them share.
-/

namespace LuaNode

variable {α : Type*}

/-- `s ≤ t`, where elements are compared by their keys. -/
def lexLe (key : α → ℕ) : List α → List α → Bool
  | [], _ => true
  | _ :: _, [] => false
  | a :: s, b :: t => decide (key a < key b) || (decide (key a = key b) && lexLe key s t)

/-- The elements at the front of two lists, as far as they agree. -/
def agreement [DecidableEq α] (s t : List α) : List α :=
  ((s.zip t).takeWhile fun p => p.1 = p.2).map Prod.fst

section Order

variable {key : α → ℕ}

@[simp] theorem lexLe_nil (t : List α) : lexLe key [] t = true := by
  cases t <;> rfl

@[simp] theorem lexLe_cons_nil (a : α) (s : List α) : lexLe key (a :: s) [] = false := rfl

@[simp] theorem lexLe_cons (a b : α) (s t : List α) :
    lexLe key (a :: s) (b :: t) = true ↔
      key a < key b ∨ key a = key b ∧ lexLe key s t = true := by
  simp [lexLe]

theorem lexLe_refl (s : List α) : lexLe key s s = true := by
  induction s with
  | nil => simp
  | cons a s ih => simp [ih]

theorem lexLe_trans (s t u : List α) (hst : lexLe key s t = true) (htu : lexLe key t u = true) :
    lexLe key s u = true := by
  induction s generalizing t u with
  | nil => simp
  | cons a s ih =>
    cases t with
    | nil => simp at hst
    | cons b t =>
      cases u with
      | nil => simp at htu
      | cons c u =>
        rw [lexLe_cons] at hst htu ⊢
        rcases hst with hab | ⟨hab, hst⟩
        · rcases htu with hbc | ⟨hbc, -⟩
          · exact .inl (hab.trans hbc)
          · exact .inl (hbc ▸ hab)
        · rcases htu with hbc | ⟨hbc, htu⟩
          · exact .inl (hab ▸ hbc)
          · exact .inr ⟨hab.trans hbc, ih t u hst htu⟩

theorem lexLe_total (s t : List α) : (lexLe key s t || lexLe key t s) = true := by
  induction s generalizing t with
  | nil => simp
  | cons a s ih =>
    cases t with
    | nil => simp
    | cons b t =>
      have hrest := ih t
      simp only [Bool.or_eq_true, lexLe_cons] at hrest ⊢
      rcases lt_trichotomy (key a) (key b) with hlt | heq | hgt
      · exact .inl (.inl hlt)
      · rcases hrest with hst | hts
        · exact .inl (.inr ⟨heq, hst⟩)
        · exact .inr (.inr ⟨heq.symm, hts⟩)
      · exact .inr (.inl hgt)

/-- What lies between two lists with a prefix has this prefix. -/
theorem prefix_of_between (hkey : Function.Injective key) {p s t u : List α} (hs : p <+: s)
    (hu : p <+: u) (hst : lexLe key s t = true) (htu : lexLe key t u = true) : p <+: t := by
  induction p generalizing s t u with
  | nil => exact List.nil_prefix
  | cons a p ih =>
    obtain ⟨s', rfl⟩ := hs
    obtain ⟨u', rfl⟩ := hu
    cases t with
    | nil => simp at hst
    | cons b t =>
      rw [List.cons_append, lexLe_cons] at hst htu
      have hab : key a = key b := by omega
      have hrest : lexLe key (p ++ s') t = true ∧ lexLe key t (p ++ u') = true :=
        ⟨(hst.resolve_left hab.not_lt).2, (htu.resolve_left hab.not_gt).2⟩
      rw [hkey hab, List.cons_prefix_cons]
      exact ⟨rfl, ih (List.prefix_append p s') (List.prefix_append p u') hrest.1 hrest.2⟩

/-- In a sorted list everything is between the first element and the last one. -/
theorem between_of_pairwise {le : α → α → Prop} {first : α} {rest : List α}
    (h : (first :: rest).Pairwise le) (hrefl : ∀ a, le a a) :
    ∀ a ∈ first :: rest, le first a ∧ le a (rest.getLastD first) := by
  induction rest generalizing first with
  | nil =>
    intro a ha
    rw [List.mem_singleton.mp ha]
    exact ⟨hrefl first, hrefl first⟩
  | cons next rest ih =>
    obtain ⟨hfirst, hrest⟩ := List.pairwise_cons.mp h
    intro a ha
    rw [List.getLastD_cons]
    rcases List.mem_cons.mp ha with rfl | ha
    · exact ⟨hrefl a, hfirst _ List.getLastD_mem_cons⟩
    · exact ⟨hfirst a ha, (ih hrest a ha).2⟩

end Order

section Agreement

variable [DecidableEq α]

@[simp] theorem agreement_nil (t : List α) : agreement [] t = [] := rfl

@[simp] theorem agreement_cons_nil (a : α) (s : List α) : agreement (a :: s) [] = [] := rfl

theorem agreement_cons (a b : α) (s t : List α) :
    agreement (a :: s) (b :: t) = if a = b then a :: agreement s t else [] := by
  by_cases hab : a = b <;> simp [agreement, hab]

theorem agreement_prefix (s t : List α) : agreement s t <+: s ∧ agreement s t <+: t := by
  induction s generalizing t with
  | nil => simp
  | cons a s ih =>
    cases t with
    | nil => simp
    | cons b t =>
      rw [agreement_cons]
      split_ifs with hab
      · simp only [hab, List.cons_prefix_cons, true_and]
        exact ih t
      · simp

/-- A common prefix is a prefix of the agreement. -/
theorem prefix_agreement {p s t : List α} (hs : p <+: s) (ht : p <+: t) : p <+: agreement s t := by
  induction p generalizing s t with
  | nil => exact List.nil_prefix
  | cons a p ih =>
    obtain ⟨s', rfl⟩ := hs
    obtain ⟨t', rfl⟩ := ht
    rw [List.cons_append, List.cons_append, agreement_cons, if_pos rfl, List.cons_prefix_cons]
    exact ⟨rfl, ih (List.prefix_append p s') (List.prefix_append p t')⟩

/-- The extremes of a sorted list agree in exactly what all its elements share. -/
theorem prefix_agreement_iff {key : α → ℕ} (hkey : Function.Injective key) {first : List α}
    {rest : List (List α)}
    (hsorted : (first :: rest).Pairwise fun s t => lexLe key s t = true) (p : List α) :
    p <+: agreement first (rest.getLastD first) ↔ ∀ s ∈ first :: rest, p <+: s := by
  have hbetween := between_of_pairwise hsorted lexLe_refl
  obtain ⟨hleft, hright⟩ := agreement_prefix first (rest.getLastD first)
  constructor
  · intro hp s hs
    obtain ⟨hmin, hmax⟩ := hbetween s hs
    exact prefix_of_between hkey (hp.trans hleft) (hp.trans hright) hmin hmax
  · intro hall
    exact prefix_agreement (hall first (List.mem_cons_self ..)) (hall _ List.getLastD_mem_cons)

end Agreement

end LuaNode
