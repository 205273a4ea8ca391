import Mathlib.Data.List.Induction

/-!
# Names that lead from a root

A list of names is followed from a root, where `here` stands for the place one is at and `up` for the
place above it, which for the root is the root again. Names can be reduced one at a time: what is
left leads to the same place, and reduced names are left as they are.
-/

namespace LuaNode

variable {α : Type*} (here up : α)

/-- `here` stands alone, and `up` only in front. -/
structure Reduced (names : List α) : Prop where
  here_only : here ∈ names → names = [here]
  ups_lead : ∃ n rest, names = List.replicate n up ++ rest ∧ up ∉ rest

variable {here up}

theorem Reduced.nil : Reduced here up [] := ⟨by simp, 0, [], by simp⟩

theorem Reduced.singleton (name : α) : Reduced here up [name] where
  here_only := by simp +contextual
  ups_lead := by
    by_cases h : name = up
    · exact ⟨1, [], by simp [h]⟩
    · exact ⟨0, [name], by simp [Ne.symm h]⟩

theorem ups_of_last {n : ℕ} {rest names : List α} (hup : up ∉ rest)
    (h : names ++ [up] = List.replicate n up ++ rest) :
    ∃ m, names = List.replicate m up := by
  induction rest using List.reverseRecOn with
  | nil =>
    have hall : ∀ name ∈ names, name = up := by
      intro name hname
      have hmem : name ∈ List.replicate n up := by
        rw [List.append_nil] at h
        exact h ▸ List.mem_append_left _ hname
      exact List.eq_of_mem_replicate hmem
    exact ⟨names.length, List.eq_replicate_iff.mpr ⟨rfl, hall⟩⟩
  | append_singleton rest last =>
    rw [← List.append_assoc] at h
    have hlast : [up] = [last] := (List.append_inj' h rfl).2
    have hmem : up ∈ rest ++ [last] := by simp [← List.singleton_inj.mp hlast]
    exact absurd hmem hup

theorem Reduced.init {names : List α} {last : α} (h : Reduced here up (names ++ [last])) :
    Reduced here up names where
  here_only hmem := by
    have hlength := congrArg List.length (h.here_only (List.mem_append_left _ hmem))
    have hempty : names = [] := by simpa using hlength
    simp [hempty] at hmem
  ups_lead := by
    obtain ⟨n, rest, hnames, hup⟩ := h.ups_lead
    by_cases hlast : last = up
    · obtain ⟨m, hm⟩ := ups_of_last hup (hlast ▸ hnames)
      exact ⟨m, [], by simpa using hm⟩
    · induction rest using List.reverseRecOn with
      | nil =>
        have hmem : last ∈ List.replicate n up := by
          rw [List.append_nil] at hnames
          exact hnames ▸ by simp
        exact absurd (List.eq_of_mem_replicate hmem) hlast
      | append_singleton rest other =>
        rw [← List.append_assoc] at hnames
        have hinit := (List.append_inj' hnames rfl).1
        exact ⟨n, rest, hinit, fun hmem => hup (List.mem_append_left _ hmem)⟩

/-- One more `up` behind others. -/
theorem Reduced.concat_up {n : ℕ} (h : up ≠ here) : Reduced here up (List.replicate n up ++ [up]) where
  here_only hmem := by
    rw [← List.replicate_succ'] at hmem
    exact absurd (List.eq_of_mem_replicate hmem).symm h
  ups_lead := ⟨n + 1, [], by rw [List.append_nil, List.replicate_succ'], by simp⟩

/-- One more name that is neither of the two. -/
theorem Reduced.concat {names : List α} {name : α} (h : Reduced here up names) (hhere : here ∉ names)
    (hname : name ≠ here) (hup : name ≠ up) : Reduced here up (names ++ [name]) where
  here_only hmem := by
    have hnot : here ∉ names ++ [name] := by simp [hhere, Ne.symm hname]
    exact absurd hmem hnot
  ups_lead := by
    obtain ⟨n, rest, hnames, hrest⟩ := h.ups_lead
    exact ⟨n, rest ++ [name], by simp [hnames], by simp [hrest, Ne.symm hup]⟩

/-! ### Following and reducing -/

variable [DecidableEq α] (here up)

/-- The place a name leads to, a place being the names on the way to it. -/
def visit (place : List α) (name : α) : List α :=
  if name = here then place else if name = up then place.dropLast else place ++ [name]

def follow (names : List α) : List α := names.foldl (visit here up) []

/-- Reduced names with one more name. -/
def push (names : List α) (name : α) : List α :=
  match names.getLast? with
  | none => [name]
  | some last =>
    if name = here then names
    else if name = up ∧ last ≠ up ∧ last ≠ here then names.dropLast
    else if last = here then names.dropLast ++ [name]
    else names ++ [name]

def reduce (names : List α) : List α := names.foldl (push here up) []

variable {here up}

theorem follow_concat (names : List α) (name : α) :
    follow here up (names ++ [name]) = visit here up (follow here up names) name := by
  simp [follow]

theorem follow_here (names : List α) : follow here up (names ++ [here]) = follow here up names := by
  rw [follow_concat, visit, if_pos rfl]

/-- `up` takes a name back. -/
theorem follow_up (hne : up ≠ here) (names : List α) {name : α} (hhere : name ≠ here) (hup : name ≠ up) :
    visit here up (follow here up (names ++ [name])) up = follow here up names := by
  rw [follow_concat]
  simp [visit, hne, hhere, hup]

theorem push_concat (names : List α) (last name : α) :
    push here up (names ++ [last]) name =
      if name = here then names ++ [last]
      else if name = up ∧ last ≠ up ∧ last ≠ here then names
      else if last = here then names ++ [name]
      else names ++ [last] ++ [name] := by
  simp [push]

theorem reduce_concat (names : List α) (name : α) :
    reduce here up (names ++ [name]) = push here up (reduce here up names) name := by
  simp [reduce]

theorem follow_push (names : List α) (name : α) :
    follow here up (push here up names name) = visit here up (follow here up names) name := by
  induction names using List.reverseRecOn with
  | nil => exact follow_concat [] name
  | append_singleton names last =>
    rw [push_concat]
    split_ifs with hname hup hlast
    · rw [hname, visit, if_pos rfl]
    · rw [hup.1, follow_up (hup.1 ▸ hname) names hup.2.2 hup.2.1]
    · rw [hlast, follow_here, follow_concat]
    · rw [follow_concat]

/-- The reduced names lead to the same place. -/
theorem follow_reduce (names : List α) :
    follow here up (reduce here up names) = follow here up names := by
  induction names using List.reverseRecOn with
  | nil => rfl
  | append_singleton names name ih => rw [reduce_concat, follow_push, ih, follow_concat]

theorem Reduced.push {names : List α} (h : Reduced here up names) (name : α) :
    Reduced here up (push here up names name) := by
  induction names using List.reverseRecOn with
  | nil => exact .singleton name
  | append_singleton names last =>
    rw [push_concat]
    split_ifs with hname hup hlast
    · exact h
    · exact h.init
    · have hlength := congrArg List.length (h.here_only (by simp [hlast]))
      have hempty : names = [] := by simpa using hlength
      rw [hempty]
      exact .singleton name
    · have hhere : here ∉ names ++ [last] := by
        intro hmem
        have hsingle : names ++ [last] = [] ++ [here] := h.here_only hmem
        exact hlast (List.singleton_inj.mp (List.append_inj' hsingle rfl).2)
      by_cases hnameup : name = up
      · -- an `up` that takes nothing back stands behind others
        have hlastup : last = up := by
          by_contra hne
          exact hup ⟨hnameup, hne, hlast⟩
        obtain ⟨n, rest, hnames, hrest⟩ := h.ups_lead
        obtain ⟨m, hm⟩ := ups_of_last hrest (hlastup ▸ hnames)
        rw [hm, hlastup, hnameup, ← List.replicate_succ']
        exact .concat_up (hnameup ▸ hname)
      · exact h.concat hhere hname hnameup

theorem reduce_reduced (names : List α) : Reduced here up (reduce here up names) := by
  induction names using List.reverseRecOn with
  | nil => exact .nil
  | append_singleton names name ih =>
    rw [reduce_concat]
    exact ih.push name

/-- In reduced names nothing is left to reduce. -/
theorem push_of_reduced {names : List α} {name : α} (h : Reduced here up (names ++ [name])) :
    push here up names name = names ++ [name] := by
  induction names using List.reverseRecOn with
  | nil => rfl
  | append_singleton names last =>
    have hnot : here ∉ names ++ [last] ++ [name] := by
      intro hmem
      have hlength := congrArg List.length (h.here_only hmem)
      simp at hlength
    have hname : name ≠ here := fun heq => hnot (by simp [heq])
    have hlast : last ≠ here := fun heq => hnot (by simp [heq])
    have hups : ¬(name = up ∧ last ≠ up ∧ last ≠ here) := by
      rintro ⟨rfl, hlastup, -⟩
      obtain ⟨n, rest, hnames, hrest⟩ := h.ups_lead
      obtain ⟨m, hm⟩ := ups_of_last hrest hnames
      have hmem : last ∈ List.replicate m name := hm ▸ by simp
      exact hlastup (List.eq_of_mem_replicate hmem)
    rw [push_concat, if_neg hname, if_neg hups, if_neg hlast]

theorem reduce_of_reduced {names : List α} (h : Reduced here up names) : reduce here up names = names := by
  induction names using List.reverseRecOn with
  | nil => rfl
  | append_singleton names name ih => rw [reduce_concat, ih h.init, push_of_reduced h]

theorem mem_of_mem_push {names : List α} {name other : α} (h : other ∈ push here up names name) :
    other ∈ names ∨ other = name := by
  induction names using List.reverseRecOn with
  | nil => simpa [push] using h
  | append_singleton names last =>
    rw [push_concat] at h
    split_ifs at h <;> simp_all <;> tauto

/-- No name is made up. -/
theorem mem_of_mem_reduce {names : List α} {name : α} (h : name ∈ reduce here up names) :
    name ∈ names := by
  induction names using List.reverseRecOn with
  | nil => simp [reduce] at h
  | append_singleton names last ih =>
    rw [reduce_concat] at h
    rcases mem_of_mem_push h with hmem | rfl
    · exact List.mem_append_left _ (ih hmem)
    · simp

end LuaNode
