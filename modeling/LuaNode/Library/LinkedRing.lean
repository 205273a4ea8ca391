import Mathlib.Data.List.Chain
import Mathlib.Data.List.Nodup
import Mathlib.Data.Set.Insert
import Mathlib.Logic.Function.Basic

/-!
# Circular doubly linked lists

Every node has a pointer to the next and to the previous one, whether or not it is in a list. A list is a
ring through its head, which is a node of its own; its elements are listed along the pointers to the
previous node, which is from the oldest one to the newest one when new ones are put next to the head.
-/

namespace LuaNode

structure Links (ν : Type*) where
  next : ν → ν
  prev : ν → ν

namespace Links

variable {ν : Type*} {l l' : Links ν} {h a b : ν} {as us vs : List ν}

def Linked (l : Links ν) (a b : ν) : Prop := l.prev a = b ∧ l.next b = a

/-- The ring through `h` has the elements `as`. -/
structure Ring (l : Links ν) (h : ν) (as : List ν) : Prop where
  nodup : (h :: as).Nodup
  chain : (h :: as ++ [h]).IsChain l.Linked

/-- The pointers of a node have not changed. -/
def Same (l l' : Links ν) (a : ν) : Prop := l'.next a = l.next a ∧ l'.prev a = l.prev a

/-- No pointer leads out of the set. -/
def Closed (l : Links ν) (S : Set ν) : Prop := ∀ a ∈ S, l.next a ∈ S ∧ l.prev a ∈ S

/-- A chain looks at the previous node of all but the last one, and at the next node of all but the
first one. -/
theorem chain_congr (hprev : ∀ a ∈ as.dropLast, l'.prev a = l.prev a)
    (hnext : ∀ a ∈ as.tail, l'.next a = l.next a) (hchain : as.IsChain l.Linked) :
    as.IsChain l'.Linked := by
  induction as with
  | nil => exact .nil
  | cons a as ih =>
    cases as with
    | nil => exact .singleton a
    | cons b as =>
      obtain ⟨⟨hp, hn⟩, hrest⟩ := List.isChain_cons_cons.mp hchain
      apply List.isChain_cons_cons.mpr
      constructor
      · constructor
        · rw [hprev a List.mem_cons_self]
          exact hp
        · rw [hnext b List.mem_cons_self]
          exact hn
      · apply ih _ _ hrest
        · intro c hc
          exact hprev c (List.mem_cons_of_mem a hc)
        · intro c hc
          exact hnext c (List.mem_cons_of_mem b hc)

/-- A ring does not depend on the pointers of other nodes. -/
theorem Ring.congr (hring : l.Ring h as) (hsame : ∀ a ∈ h :: as, l.Same l' a) : l'.Ring h as := by
  refine ⟨hring.nodup, chain_congr (fun a ha => (hsame a ?_).2) (fun a ha => (hsame a ?_).1)
    hring.chain⟩
  · rwa [List.dropLast_concat] at ha
  · rw [List.cons_append, List.tail_cons] at ha
    rcases List.mem_append.mp ha with ha | ha
    · exact List.mem_cons_of_mem h ha
    · rw [List.mem_singleton.mp ha]
      exact List.mem_cons_self

theorem Closed.congr {S : Set ν} (hclosed : l.Closed S) (hsame : ∀ a ∈ S, l.Same l' a) :
    l'.Closed S := by
  intro a ha
  rw [(hsame a ha).1, (hsame a ha).2]
  exact hclosed a ha

theorem ring_nil (hprev : l.prev h = h) (hnext : l.next h = h) : l.Ring h [] :=
  ⟨List.nodup_singleton h, List.isChain_cons_cons.mpr ⟨⟨hprev, hnext⟩, .singleton h⟩⟩

/-- The oldest element is before the head. -/
theorem Ring.oldest (hring : l.Ring h (a :: as)) : l.prev h = a ∧ l.next a = h :=
  (List.isChain_cons_cons.mp hring.chain).1

theorem Ring.nil (hring : l.Ring h []) : l.prev h = h ∧ l.next h = h :=
  (List.isChain_cons_cons.mp hring.chain).1

/-- The newest element is next to the head. -/
theorem Ring.newest (hring : l.Ring h (as ++ [a])) : l.next h = a ∧ l.prev a = h := by
  have hchain := hring.chain
  rw [← List.cons_append, List.append_assoc] at hchain
  have hlinked := (List.isChain_append_cons_cons.mp hchain).2.1
  exact ⟨hlinked.2, hlinked.1⟩

theorem Ring.not_mem (hring : l.Ring h as) : h ∉ as :=
  (List.nodup_cons.mp hring.nodup).1

theorem Ring.prev_eq_head_iff (hring : l.Ring h as) : l.prev h = h ↔ as = [] := by
  cases as with
  | nil => exact iff_of_true hring.nil.1 rfl
  | cons a as =>
    apply iff_of_false
    · rw [hring.oldest.1]
      rintro rfl
      exact hring.not_mem List.mem_cons_self
    · exact List.cons_ne_nil a as

theorem Ring.next_eq_head_iff (hring : l.Ring h as) : l.next h = h ↔ as = [] := by
  induction as using List.reverseRecOn with
  | nil => exact iff_of_true hring.nil.2 rfl
  | append_singleton as a =>
    apply iff_of_false
    · rw [hring.newest.1]
      rintro rfl
      exact hring.not_mem (by simp)
    · simp

/-- Next to the head is the last one of the chain that begins with it. -/
theorem Ring.next_head (hring : l.Ring h as) : (h :: as).getLast? = some (l.next h) := by
  induction as using List.reverseRecOn with
  | nil => rw [hring.nil.2, List.getLast?_singleton]
  | append_singleton as a => rw [hring.newest.1, ← List.cons_append, List.getLast?_concat]

theorem Ring.prev_head (hring : l.Ring h as) : (as ++ [h]).head? = some (l.prev h) := by
  cases as with
  | nil => rw [hring.nil.1, List.nil_append, List.head?_cons]
  | cons a as => rw [hring.oldest.1, List.cons_append, List.head?_cons]

/-- An element between its neighbours. -/
theorem Ring.neighbours (hring : l.Ring h (us ++ b :: vs)) :
    (h :: us).getLast? = some (l.next b) ∧ (vs ++ [h]).head? = some (l.prev b) ∧
      l.prev (l.next b) = b ∧ l.next (l.prev b) = b := by
  have hchain := hring.chain
  rw [← List.cons_append, List.append_assoc] at hchain
  obtain ⟨-, hright, hleft⟩ := List.isChain_append.mp hchain
  have hlast := List.getLast?_eq_some_getLast (List.cons_ne_nil h us)
  have hfirst := List.head?_eq_some_head (l := vs ++ [h]) (by simp)
  obtain ⟨hp, hn⟩ := hleft _ hlast b rfl
  obtain ⟨hp', hn'⟩ := (List.isChain_cons.mp hright).1 _ hfirst
  rw [← hn] at hlast hp
  rw [← hp'] at hfirst hn'
  exact ⟨hlast, hfirst, hp, hn'⟩

/-! ### Changing the links -/

variable [DecidableEq ν]

def setNext (l : Links ν) (a b : ν) : Links ν := { l with next := Function.update l.next a b }

def setPrev (l : Links ν) (a b : ν) : Links ν := { l with prev := Function.update l.prev a b }

/-- The neighbours of a node are linked to each other; its own pointers stay. -/
def unlink (l : Links ν) (a : ν) : Links ν :=
  let l := l.setPrev (l.next a) (l.prev a)
  l.setNext (l.prev a) (l.next a)

/-- A node is put next to the head. -/
def append (l : Links ν) (h a : ν) : Links ν :=
  let l := l.setNext a (l.next h)
  let l := l.setPrev (l.next h) a
  let l := l.setPrev a h
  l.setNext h a

theorem unlink_prev (l : Links ν) (a x : ν) :
    (l.unlink a).prev x = if x = l.next a then l.prev a else l.prev x := by
  simp [unlink, setNext, setPrev, Function.update_apply]

theorem unlink_next (l : Links ν) (a x : ν) :
    (l.unlink a).next x = if x = l.prev a then l.next a else l.next x := by
  have hprev : Function.update l.prev (l.next a) (l.prev a) a = l.prev a := by
    rw [Function.update_apply]
    split_ifs <;> rfl
  have hnext : (l.unlink a).next = Function.update l.next (l.prev a) (l.next a) := by
    simp only [unlink, setNext, setPrev, hprev]
  rw [hnext, Function.update_apply]

theorem append_next (l : Links ν) (h a x : ν) :
    (l.append h a).next x = if x = h then a else if x = a then l.next h else l.next x := by
  simp [append, setNext, setPrev, Function.update_apply]

theorem append_prev (l : Links ν) (hne : a ≠ h) (x : ν) :
    (l.append h a).prev x = if x = a then h else if x = l.next h then a else l.prev x := by
  simp [append, setNext, setPrev, Function.update_apply, hne.symm]

omit [DecidableEq ν] in
theorem not_mem_dropLast (hnodup : as.Nodup) (hlast : as.getLast? = some a) : a ∉ as.dropLast := by
  obtain ⟨bs, rfl⟩ := List.getLast?_eq_some_iff.mp hlast
  rw [List.dropLast_concat]
  intro hmem
  exact (List.nodup_append'.mp hnodup).2.2 hmem (List.mem_singleton_self a)

omit [DecidableEq ν] in
theorem not_mem_tail (hnodup : as.Nodup) (hfirst : as.head? = some a) : a ∉ as.tail := by
  obtain ⟨bs, rfl⟩ := List.head?_eq_some_iff.mp hfirst
  exact (List.nodup_cons.mp hnodup).1

/-- An element is taken out of the ring. -/
theorem Ring.unlink (hring : l.Ring h (us ++ b :: vs)) : (l.unlink b).Ring h (us ++ vs) := by
  obtain ⟨hlast, hfirst, -, -⟩ := hring.neighbours
  have hnodup : (h :: us ++ b :: vs).Nodup := hring.nodup
  have hchain := hring.chain
  rw [← List.cons_append, List.append_assoc] at hchain
  obtain ⟨hleft, hright, -⟩ := List.isChain_append.mp hchain
  have hright : (vs ++ [h]).IsChain l.Linked := hright.tail
  obtain ⟨hnodupl, hnodupr, hdisjoint⟩ := List.nodup_append'.mp hnodup
  have hnodupvs : (vs ++ [h]).Nodup := by
    rw [List.nodup_append_comm]
    apply List.nodup_cons.mpr
    exact ⟨fun hmem => hdisjoint List.mem_cons_self (List.mem_cons_of_mem b hmem),
      (List.nodup_cons.mp hnodupr).2⟩
  have hnext : l.next b ∉ vs := fun hmem =>
    hdisjoint (List.mem_of_getLast? hlast) (List.mem_cons_of_mem b hmem)
  have hprev : l.prev b ∉ us := by
    intro hmem
    rcases List.mem_append.mp (List.mem_of_head? hfirst) with hvs | hh
    · exact hdisjoint (List.mem_cons_of_mem h hmem) (List.mem_cons_of_mem b hvs)
    · rw [List.mem_singleton.mp hh] at hmem
      exact (List.nodup_cons.mp hnodupl).1 hmem
  constructor
  · rw [← List.cons_append]
    exact hnodup.sublist ((List.Sublist.refl _).append (List.sublist_cons_self b vs))
  · rw [← List.cons_append, List.append_assoc]
    apply List.IsChain.append
    · apply chain_congr _ _ hleft
      · intro x hx
        rw [unlink_prev, if_neg]
        rintro rfl
        exact not_mem_dropLast hnodupl hlast hx
      · intro x hx
        rw [unlink_next, if_neg]
        rintro rfl
        exact hprev hx
    · apply chain_congr _ _ hright
      · intro x hx
        rw [unlink_prev, if_neg]
        rintro rfl
        rw [List.dropLast_concat] at hx
        exact hnext hx
      · intro x hx
        rw [unlink_next, if_neg]
        rintro rfl
        exact not_mem_tail hnodupvs hfirst hx
    · intro x hx y hy
      rw [hlast] at hx
      rw [hfirst] at hy
      obtain rfl := Option.some_inj.mp hx
      obtain rfl := Option.some_inj.mp hy
      exact ⟨by rw [unlink_prev, if_pos rfl], by rw [unlink_next, if_pos rfl]⟩

/-- A new element is put at the end. -/
theorem Ring.append (hring : l.Ring h as) (ha : a ∉ h :: as) : (l.append h a).Ring h (as ++ [a]) := by
  have hlast := hring.next_head
  have hne : a ≠ h := fun heq => ha (heq ▸ List.mem_cons_self)
  constructor
  · rw [← List.cons_append]
    apply List.nodup_append'.mpr
    refine ⟨hring.nodup, List.nodup_singleton a, ?_⟩
    exact List.disjoint_singleton.mpr ha
  · have hchain := hring.chain.left_of_append
    rw [← List.cons_append, List.append_assoc]
    apply List.IsChain.append
    · apply chain_congr _ _ hchain
      · intro x hx
        have hmem := List.dropLast_subset _ hx
        rw [append_prev l hne, if_neg, if_neg]
        · rintro rfl
          exact not_mem_dropLast hring.nodup hlast hx
        · rintro rfl
          exact ha hmem
      · intro x hx
        rw [append_next, if_neg, if_neg]
        · rintro rfl
          exact ha (List.mem_of_mem_tail hx)
        · rintro rfl
          exact hring.not_mem hx
    · apply List.isChain_cons_cons.mpr
      refine ⟨⟨?_, ?_⟩, .singleton h⟩
      · rw [append_prev l hne, if_pos rfl]
      · rw [append_next, if_pos rfl]
    · intro x hx y hy
      rw [hlast] at hx
      obtain rfl := Option.some_inj.mp hx
      obtain rfl := Option.some_inj.mp hy
      have hnext : l.next h ≠ a := by
        rintro rfl
        exact ha (List.mem_of_getLast? hlast)
      constructor
      · rw [append_prev l hne, if_neg hnext, if_pos rfl]
      · rw [append_next, if_neg hne, if_pos rfl]

/-- A node that still points to the head is put into the ring when there is no other one. -/
theorem Ring.rejoin (hring : l.Ring h []) (hnext : l.next a = h) (hne : a ≠ h) :
    ((l.unlink a).append h a).Ring h [a] := by
  have hhead : (l.unlink a).next h = h := by
    rw [unlink_next, hnext, hring.nil.2, ite_self]
  constructor
  · exact List.nodup_cons.mpr ⟨fun hmem => hne (List.mem_singleton.mp hmem).symm,
      List.nodup_singleton a⟩
  · apply List.isChain_cons_cons.mpr
    refine ⟨⟨?_, ?_⟩, List.isChain_cons_cons.mpr ⟨⟨?_, ?_⟩, .singleton h⟩⟩
    · rw [append_prev _ hne, if_neg hne.symm, hhead, if_pos rfl]
    · rw [append_next, if_neg hne, if_pos rfl, hhead]
    · rw [append_prev _ hne, if_pos rfl]
    · rw [append_next, if_pos rfl]

/-- A node whose pointers say that it is the oldest element can be taken out again. -/
theorem Ring.unlink_stale (hring : l.Ring h as) (hnext : l.next b = h) (hprev : l.prev b = l.prev h) :
    l.unlink b = l := by
  have holdest : l.next (l.prev h) = h := by
    cases as with
    | nil => rw [hring.nil.1, hring.nil.2]
    | cons a as => rw [hring.oldest.1, hring.oldest.2]
  have hn : (l.unlink b).next = l.next := by
    funext x
    rw [unlink_next]
    split_ifs with hx
    · rw [hx, hnext, hprev, holdest]
    · rfl
  have hp : (l.unlink b).prev = l.prev := by
    funext x
    rw [unlink_prev]
    split_ifs with hx
    · rw [hx, hnext, hprev]
    · rfl
  calc l.unlink b = ⟨(l.unlink b).next, (l.unlink b).prev⟩ := rfl
    _ = l := by rw [hn, hp]

/-! ### What stays within a set -/

variable {S : Set ν}

theorem Closed.unlink (hclosed : l.Closed S) (ha : a ∈ S) : (l.unlink a).Closed S := by
  intro x hx
  rw [unlink_next, unlink_prev]
  constructor
  · split_ifs
    · exact (hclosed a ha).1
    · exact (hclosed x hx).1
  · split_ifs
    · exact (hclosed a ha).2
    · exact (hclosed x hx).2

theorem Closed.append (hclosed : l.Closed S) (hh : h ∈ S) (hne : a ≠ h) :
    (l.append h a).Closed (insert a S) := by
  intro x hx
  rw [append_next, append_prev l hne]
  have hmem : x ≠ a → x ∈ S := fun hxa => (Set.mem_insert_iff.mp hx).resolve_left hxa
  constructor
  · split_ifs with hxh hxa
    · exact Set.mem_insert a S
    · exact Set.mem_insert_of_mem a (hclosed h hh).1
    · exact Set.mem_insert_of_mem a (hclosed x (hmem hxa)).1
  · split_ifs with hxa hxn
    · exact Set.mem_insert_of_mem a hh
    · exact Set.mem_insert a S
    · exact Set.mem_insert_of_mem a (hclosed x (hmem hxa)).2

theorem Closed.unlink_same (hclosed : l.Closed S) (ha : a ∈ S) {x : ν} (hx : x ∉ S) :
    l.Same (l.unlink a) x := by
  have hnext : x ≠ l.prev a := fun heq => hx (heq ▸ (hclosed a ha).2)
  have hprev : x ≠ l.next a := fun heq => hx (heq ▸ (hclosed a ha).1)
  exact ⟨by rw [unlink_next, if_neg hnext], by rw [unlink_prev, if_neg hprev]⟩

theorem Closed.append_same (hclosed : l.Closed S) (hh : h ∈ S) (hne : a ≠ h) {x : ν}
    (hx : x ∉ insert a S) : l.Same (l.append h a) x := by
  have hxa : x ≠ a := fun heq => hx (heq ▸ Set.mem_insert a S)
  have hxS : x ∉ S := fun hmem => hx (Set.mem_insert_of_mem a hmem)
  have hxh : x ≠ h := fun heq => hxS (heq ▸ hh)
  have hnext : x ≠ l.next h := fun heq => hxS (heq ▸ (hclosed h hh).1)
  constructor
  · rw [append_next, if_neg hxh, if_neg hxa]
  · rw [append_prev l hne, if_neg hxa, if_neg hnext]

/-! ### Nodes that point to the head -/

theorem Ring.unlink_next_eq (hring : l.Ring h (us ++ b :: vs)) {x : ν} (hx : l.next x = h) :
    (l.unlink b).next x = h := by
  rw [unlink_next, if_neg, hx]
  rintro rfl
  obtain ⟨-, -, -, hback⟩ := hring.neighbours
  have hmem : h ∈ us ++ b :: vs := by simp [← hx, hback]
  exact hring.not_mem hmem

theorem unlink_next_of_stale (hb : l.next b = h) {x : ν} (hx : l.next x = h) :
    (l.unlink b).next x = h := by
  rw [unlink_next, hb, hx, ite_self]

theorem append_next_of_ne {x : ν} (hxh : x ≠ h) (hxa : x ≠ a) :
    (l.append h a).next x = l.next x := by
  rw [append_next, if_neg hxh, if_neg hxa]

end Links

end LuaNode
