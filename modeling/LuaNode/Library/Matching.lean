import Mathlib.Data.List.Infix
import Mathlib.Tactic.TypeStar

/-!
# Words that are matched letter by letter

A matcher has read a text and knows whether it is the beginning of a word. Of several words the one
is looked for that the text is, with two rules: one word, behind which padding may stand and whose
letters are compared by their keys, and a set of words of which a few letters tell which it can be.
-/

namespace LuaNode

variable {α β : Type*}

/-! ### Words with padding -/

/-- The text is the word by the keys of its letters, and padding behind it. -/
def IsWord (key : α → β) (pad : α) (word : List β) (text : List α) : Prop :=
  ∃ w n, text = w ++ List.replicate n pad ∧ w.map key = word

/-- No text that begins so is the word. -/
def Misses (key : α → β) (pad : α) (word : List β) (text : List α) : Prop :=
  ∀ rest, ¬ IsWord key pad word (text ++ rest)

section Padding

variable {key : α → β} {pad a : α} {word : List β} {text : List α}

theorem Misses.append (h : Misses key pad word text) (rest : List α) :
    Misses key pad word (text ++ rest) := by
  intro more hmore
  rw [List.append_assoc] at hmore
  exact h _ hmore

theorem Misses.not_isWord (h : Misses key pad word text) : ¬ IsWord key pad word text := by
  have hnil := h []
  rwa [List.append_nil] at hnil

/-- A text that is shorter than the word, or as long, is the word letter by letter. -/
theorem IsWord.keys_front {rest : List α} (h : IsWord key pad word (text ++ rest))
    (hlength : text.length ≤ word.length) : text.map key <+: word := by
  obtain ⟨w, n, htext, rfl⟩ := h
  rw [List.length_map] at hlength
  have hw : text <+: w := by
    have hall : text <+: w ++ List.replicate n pad := htext ▸ List.prefix_append text rest
    exact List.prefix_of_prefix_length_le hall (List.prefix_append _ _) hlength
  exact hw.map key

/-- The text is all of the word. -/
theorem isWord_of_keys (h : text.map key = word) : IsWord key pad word text :=
  ⟨text, 0, by simp, h⟩

/-- A text is at most one word. -/
theorem isWord_iff : IsWord key pad word text ↔
    (text.take word.length).map key = word ∧ ∀ a ∈ text.drop word.length, a = pad := by
  constructor
  · rintro ⟨w, n, rfl, rfl⟩
    rw [List.length_map, List.take_left, List.drop_left]
    exact ⟨rfl, fun a ha => List.eq_of_mem_replicate ha⟩
  · rintro ⟨hword, hpad⟩
    refine ⟨text.take word.length, (text.drop word.length).length, ?_, hword⟩
    rw [← List.eq_replicate_of_mem hpad, List.take_append_drop]

instance [DecidableEq α] [DecidableEq β] : Decidable (IsWord key pad word text) :=
  decidable_of_iff _ isWord_iff.symm

theorem IsWord.append_pad (h : IsWord key pad word text) : IsWord key pad word (text ++ [pad]) := by
  obtain ⟨w, n, rfl, hw⟩ := h
  exact ⟨w, n + 1, by rw [List.replicate_succ', List.append_assoc], hw⟩

theorem IsWord.length_le (h : IsWord key pad word text) : word.length ≤ text.length := by
  obtain ⟨w, n, rfl, rfl⟩ := h
  simp

/-- A letter behind the word. -/
theorem IsWord.misses (h : IsWord key pad word text) (ha : a ≠ pad) :
    Misses key pad word (text ++ [a]) := by
  intro rest hmore
  obtain ⟨w, n, rfl, hw⟩ := h
  obtain ⟨w', n', htext, hw'⟩ := hmore
  have hlength : w.length = w'.length := by
    have hsame := congrArg List.length (hw.trans hw'.symm)
    simpa using hsame
  rw [List.append_assoc, List.append_assoc] at htext
  obtain ⟨-, hback⟩ := List.append_inj htext hlength
  have hmem : a ∈ List.replicate n' pad := by
    rw [← hback]
    simp
  exact ha (List.eq_of_mem_replicate hmem)

/-- A letter that the word does not have at its place. -/
theorem misses_of_letter {i : ℕ} (htext : text.map key = word.take i) (hi : i < word.length)
    (ha : word[i]? ≠ some (key a)) : Misses key pad word (text ++ [a]) := by
  intro rest hmore
  have hlength : text.length = i := by
    have h := congrArg List.length htext
    rw [List.length_map, List.length_take] at h
    omega
  have hprefix := hmore.keys_front (by simp; omega)
  have hget := List.prefix_iff_getElem?.mp hprefix i (by simp; omega)
  simp only [List.map_append, List.map_cons, List.map_nil] at hget
  rw [List.getElem_append_right (by simp; omega)] at hget
  exact ha (by simpa using hget)

/-- A text whose first letters the word does not have. -/
theorem misses_of_prefix {i : ℕ} (hi : i ≤ word.length) (htext : ¬ (text.take i).map key <+: word) :
    Misses key pad word text := by
  intro rest hmore
  rw [← List.take_append_drop i text, List.append_assoc] at hmore
  exact htext (hmore.keys_front (by rw [List.length_take]; omega))

end Padding

/-! ### Sets of words -/

/-- A text that goes on with a letter which its word does not have is no beginning of any. -/
theorem not_prefix_of_letter [DecidableEq α] {words : List (List α)} {word : List α} {a : α}
    {i k : ℕ} (hk : k ≤ i) (hi : i ≤ word.length)
    (hword : ∀ w ∈ words, word.take k <+: w → w = word) (ha : word[i]? ≠ some a) :
    ∀ w ∈ words, ¬ word.take i ++ [a] <+: w := by
  intro w hw hprefix
  have hfront : word.take k <+: w := by
    have htake : word.take k <+: word.take i := List.take_prefix_take_left hk
    exact htake.trans ((List.prefix_append _ _).trans hprefix)
  obtain rfl := hword w hw hfront
  have hlength : (w.take i).length = i := by
    rw [List.length_take]
    omega
  have hget := List.prefix_iff_getElem?.mp hprefix i (by simp; omega)
  rw [List.getElem_append_right (by omega)] at hget
  exact ha (by simpa using hget)

end LuaNode
