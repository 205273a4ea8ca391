import Mathlib.Data.List.Infix

/-!
# Words of a list

The maximal runs of elements that are no separators, as `s:gmatch("[^...]+")` finds them, and the texts
made of words with a separator between them.
-/

namespace LuaNode

variable {α : Type*}

theorem not_sep_of_mem_splitOnP {p : α → Bool} {s piece : List α} (h : piece ∈ s.splitOnP p) :
    ∀ c ∈ piece, p c = false := by
  induction s generalizing piece with
  | nil => simp_all
  | cons c s ih =>
    rw [List.splitOnP_cons_eq_if_modifyHead] at h
    split_ifs at h with hc
    · rcases List.mem_cons.mp h with rfl | h
      · simp
      · exact ih h
    · cases hpieces : s.splitOnP p with
      | nil => simp [hpieces] at h
      | cons first rest =>
        rw [hpieces, List.modifyHead_cons, List.mem_cons] at h
        rcases h with rfl | h
        · have hfirst := ih (hpieces ▸ List.mem_cons_self)
          exact List.forall_mem_cons.mpr ⟨by simpa using hc, hfirst⟩
        · exact ih (hpieces ▸ List.mem_cons_of_mem _ h)

variable (p : α → Bool)

/-- The runs of elements that are no separators. -/
def words (s : List α) : List (List α) := (s.splitOnP p).filter fun word => word ≠ []

variable {p}

@[simp] theorem words_nil : words p [] = [] := by simp [words]

theorem words_append_cons (s t : List α) {c : α} (hc : p c = true) :
    words p (s ++ c :: t) = words p s ++ words p t := by
  unfold words
  rw [List.splitOnP_append_cons _ _ hc, List.filter_append]

/-- Separators in front make no word. -/
theorem words_cons_sep (s : List α) {c : α} (hc : p c = true) : words p (c :: s) = words p s := by
  have happend := words_append_cons (p := p) [] s hc
  rwa [words_nil, List.nil_append, List.nil_append] at happend

theorem words_of_plain {s : List α} (h : ∀ c ∈ s, p c = false) :
    words p s = if s = [] then [] else [s] := by
  unfold words
  rw [List.splitOnP_eq_singleton h]
  by_cases hs : s = [] <;> simp [hs]

theorem mem_words {s word : List α} (h : word ∈ words p s) : word ≠ [] ∧ ∀ c ∈ word, p c = false := by
  obtain ⟨hpiece, hne⟩ := List.mem_filter.mp h
  exact ⟨of_decide_eq_true hne, not_sep_of_mem_splitOnP hpiece⟩

/-- The pieces of a text that is put together with separators come back, but for the empty ones. -/
theorem words_intercalate {sep : α} (hsep : p sep = true) {pieces : List (List α)}
    (h : ∀ piece ∈ pieces, piece ≠ [] ∧ ∀ c ∈ piece, p c = false) :
    words p ([sep].intercalate pieces) = pieces := by
  induction pieces with
  | nil => simp
  | cons piece rest ih =>
    obtain ⟨⟨hne, hplain⟩, hrest⟩ := List.forall_mem_cons.mp h
    have hpiece : words p piece = [piece] := by rw [words_of_plain hplain, if_neg hne]
    cases rest with
    | nil => rw [List.intercalate_singleton, hpiece]
    | cons second rest =>
      have happend : piece ++ [sep] ++ [sep].intercalate (second :: rest) =
          piece ++ sep :: [sep].intercalate (second :: rest) := by simp
      rw [List.intercalate_cons_cons, happend, words_append_cons _ _ hsep, hpiece, ih hrest]
      rfl

end LuaNode
