import LuaNode.Library.LuaObjects
import LuaNode.Library.Substring
import LuaNode.Library.Words
import Mathlib.Data.List.DropRight

/-!
# Completion in the REPL

`REPLServer:complete` takes the letters, dots and colons at the end of a line for a path through the global
environment and lists the fields of the value at its end. It stops at a value that is nil or false, but
not at one that cannot be indexed.
-/

namespace LuaNode.Repl

open LuaHeap

def keywords : List Str :=
  ["and", "break", "do", "else", "elseif", "end", "false", "for", "function", "if", "in", "local",
    "nil", "not", "or", "repeat", "return", "then", "true", "until", "while"].map String.toList

/-- The heap, and what the callback has been called with: the completions and `completeOn`. -/
structure Completing where
  heap : LuaHeap
  calls : List (List Str × Option Str)

def Completing.callback (s : Completing) (completions : List Str) (completeOn : Option Str) : Completing :=
  { s with calls := s.calls ++ [(completions, completeOn)] }

/-- The groups with what contains the filter. -/
def filtered (groups : List (List Str)) : Option Str → List (List Str)
  | none => groups
  | some filter =>
    (groups.map fun group => group.filter (contains filter)).filter fun group => group ≠ []

/-- The groups from the last to the first, each of them sorted, with empty strings between them. -/
def listed (groups : List (List Str)) : List Str :=
  (groups.reverse.flatMap fun group => group.mergeSort bytesLe ++ [[]]).rdropWhile fun c => c = []

def completionGroupsLoaded (s : Completing) (err : Option Str) (completionGroups : List (List Str))
    (completeOn filter : Option Str) : Except Str Completing :=
  match err with
  | some err => .error err
  | none => .ok (s.callback (listed (filtered completionGroups filter)) completeOn)

/-- `line:match("^%s*(%.%w*)$")`. -/
def commandMatch (line : Str) : Option Str :=
  match line.dropWhile isSpace with
  | '.' :: rest => if rest.all Char.isAlphanum then some ('.' :: rest) else none
  | _ => none

/-- `[.:%a_]`. -/
def isPathChar (c : Char) : Bool := c = '.' || c = ':' || c.isAlpha || c = '_'

/-- `[.:]`. -/
def isDelim (c : Char) : Bool := c = '.' || c = ':'

/-- A list in two before the longest end of elements with a property. -/
def splitEnd (p : Char → Bool) (s : Str) : Str × Str := (s.rdropWhile p, s.rtakeWhile p)

/-- `w:match("^"..typed)` for a text of letters, underscores, colons and dots; a dot stands for any
character. -/
def matchesFront : Str → Str → Bool
  | [], _ => true
  | _ :: _, [] => false
  | p :: typed, c :: w => (p = '.' || p = c) && matchesFront typed w

/-- `front:match("[^%w_]$")`. -/
def endsOutsideWord (front : Str) : Bool := front.getLast?.any fun c => !(c.isAlphanum || c = '_')

/-- The loop over the names of a path; the value at its end, or none if it is cut short. -/
def walk (call : Getter) : List Str → LuaHeap → LuaObject → Except Str (Option LuaObject × LuaHeap)
  | [], h, t => .ok (some t, h)
  | w :: names, h, t =>
    match index call h t (.string w) with
    | .error e => .error e
    | .ok (t, h) => if t.truthy then walk call names h t else .ok (none, h)

/-- `append_candidates`. -/
def appendCandidates (h : LuaHeap) (leading last : Str) (all : Bool) (group : List Str) :
    LuaObject → Except Str (List Str)
  | .table ref =>
    .ok (group ++ (h.entries ref).filterMap fun entry =>
      match entry with
      | (.string k, _) => if all || sub k 1 last.length = last then some (leading ++ k) else none
      | _ => none)
  | t => .error ("bad argument #1 to 'pairs' (table expected, got ".toList ++ t.typeName ++ ")".toList)

/-- `mt.__index` in `if mt and type(mt.__index) == "table" then append_candidates(mt.__index)`, where it is
looked up twice. -/
def inheritedIndex (call : Getter) (h : LuaHeap) (mt : LuaObject) :
    Except Str (Option LuaObject × LuaHeap) :=
  if mt.truthy then
    match index call h mt (.string "__index".toList) with
    | .error e => .error e
    | .ok (v, h) =>
      if v.isTable then
        (index call h mt (.string "__index".toList)).map fun again => (some again.1, again.2)
      else .ok (none, h)
  else .ok (none, h)

/-- All candidates for the value at the end of the path. -/
def candidates (call : Getter) (h : LuaHeap) (leading last : Str) (all : Bool) (t : LuaObject) :
    Except Str (List Str × LuaHeap) :=
  let mt := h.getmetatable t
  match if t.isTable then appendCandidates h leading last all [] t else .ok [] with
  | .error e => .error e
  | .ok group =>
    match inheritedIndex call h mt with
    | .error e => .error e
    | .ok (none, h) => .ok (group, h)
    | .ok (some v, h) => (appendCandidates h leading last all group v).map fun group => (group, h)

def complete (call : Getter) (globals : ℕ) (commands : List Str) (line : Str) (s : Completing) :
    Except Str Completing :=
  match commandMatch line with
  | some found =>
    completionGroupsLoaded s none [commands] (some found) (if found ≠ [] then some found else none)
  | none =>
    let (front, typed) := splitEnd isPathChar line
    if typed = [] then .ok (s.callback [] none)
    else if (endsOutsideWord front ∧ typed = ['.']) ∨ typed = [':'] then .ok (s.callback [] none)
    else
      let group := (keywords.filter (matchesFront typed)).map (front ++ ·)
      let completionGroups := if group = [] then [] else [group]
      let (leading, last) := splitEnd (fun c => !isDelim c) typed
      let names := if leading = [] then [] else words isDelim leading.dropLast
      let all := leading ≠ [] && last = []
      match walk call names s.heap (.table globals) with
      | .error e => .error e
      | .ok (none, h) => .ok ({ s with heap := h }.callback [] none)
      | .ok (some t, h) =>
        match candidates call h (front ++ leading) last all t with
        | .error e => .error e
        | .ok (group, h) =>
          let completionGroups := completionGroups ++ if group = [] then [] else [group]
          completionGroupsLoaded { s with heap := h } none completionGroups (some line) (some line)

/-! ### When it is total -/

/-- No error is raised, the callback is called once, and the completions begin with `completeOn`. -/
def Completes (call : Getter) (globals : ℕ) (commands : List Str) (line : Str) (s : Completing) : Prop :=
  ∃ s' completions completeOn, complete call globals commands line s = .ok s' ∧
    s'.calls = s.calls ++ [(completions, completeOn)] ∧
    ∀ c ∈ completions, c ≠ [] → ∀ text, completeOn = some text → text <+: c

/-- The metatable of a value, where it has one, can be asked for `__index`, and answers with a table again
if it did so the first time. -/
def Inspectable (call : Getter) (h : LuaHeap) (t : LuaObject) : Prop :=
  (h.getmetatable t).truthy = true →
    ∃ v h', index call h (h.getmetatable t) (.string "__index".toList) = .ok (v, h') ∧
      (v.isTable = true → ∃ ref h'',
        index call h' (h.getmetatable t) (.string "__index".toList) = .ok (.table ref, h''))

/-- Every value on the path up to the first that is nil or false can be indexed with the next name. -/
def Followable (call : Getter) : List Str → LuaHeap → LuaObject → Prop
  | [], h, t => Inspectable call h t
  | w :: names, h, t =>
    ∃ v h', index call h t (.string w) = .ok (v, h') ∧ (v.truthy = true → Followable call names h' v)

/-- The names of the path at the end of a line, unless the line is one that nothing is looked up for. -/
def pathNames (line : Str) : Option (List Str) :=
  let (front, typed) := splitEnd isPathChar line
  if typed = [] ∨ (endsOutsideWord front ∧ typed = ['.']) ∨ typed = [':'] then none
  else
    let leading := (splitEnd (fun c => !isDelim c) typed).1
    some (if leading = [] then [] else words isDelim leading.dropLast)

/-- For a command line, the commands that contain it begin with it; otherwise the path can be followed. -/
def Completable (call : Getter) (globals : ℕ) (commands : List Str) (line : Str) (h : LuaHeap) : Prop :=
  match commandMatch line with
  | some found => ∀ command ∈ commands, found <:+: command → found <+: command
  | none => ∀ names, pathNames line = some names → Followable call names h (.table globals)

/-! ### What is listed -/

theorem mem_rdropWhile {c : Str} (hc : c ≠ []) (l : List Str) :
    c ∈ l.rdropWhile (fun c => c = []) ↔ c ∈ l := by
  constructor
  · intro h
    exact (List.rdropWhile_prefix _ _).subset h
  · intro h
    rw [← List.rdropWhile_append_rtakeWhile (p := fun c : Str => decide (c = [])) (l := l)] at h
    rcases List.mem_append.mp h with h | h
    · exact h
    · have hempty := List.mem_rtakeWhile_imp h
      exact absurd (of_decide_eq_true hempty) hc

theorem mem_listed {c : Str} (hc : c ≠ []) (groups : List (List Str)) (filter : Str) :
    c ∈ listed (filtered groups (some filter)) ↔ ∃ group ∈ groups, c ∈ group ∧ filter <:+: c := by
  unfold listed
  rw [mem_rdropWhile hc, List.mem_flatMap]
  constructor
  · rintro ⟨group, hgroup, hmem⟩
    rw [List.mem_reverse] at hgroup
    obtain ⟨hgroup, -⟩ := List.mem_filter.mp hgroup
    obtain ⟨group, hgroups, rfl⟩ := List.mem_map.mp hgroup
    rcases List.mem_append.mp hmem with hmem | hmem
    · rw [List.mem_mergeSort] at hmem
      obtain ⟨hmem, hfilter⟩ := List.mem_filter.mp hmem
      exact ⟨group, hgroups, hmem, (contains_iff _ _).mp hfilter⟩
    · exact absurd (List.mem_singleton.mp hmem) hc
  · rintro ⟨group, hgroup, hmem, hfilter⟩
    have hkept : c ∈ group.filter (contains filter) :=
      List.mem_filter.mpr ⟨hmem, (contains_iff _ _).mpr hfilter⟩
    refine ⟨group.filter (contains filter), ?_, List.mem_append_left _ (List.mem_mergeSort.mpr hkept)⟩
    rw [List.mem_reverse]
    refine List.mem_filter.mpr ⟨List.mem_map_of_mem hgroup, ?_⟩
    exact decide_eq_true (List.ne_nil_of_mem hkept)

theorem splitEnd_append (p : Char → Bool) (s : Str) : (splitEnd p s).1 ++ (splitEnd p s).2 = s :=
  List.rdropWhile_append_rtakeWhile

/-! ### Keywords -/

theorem keywords_letters : ∀ w ∈ keywords, ∀ c ∈ w, c.isAlpha = true := by
  have hall : keywords.all (fun w => w.all Char.isAlpha) = true := by decide +kernel
  intro w hw
  exact List.all_eq_true.mp (List.all_eq_true.mp hall w hw)

/-- A text without dots stands for itself. -/
theorem prefix_of_matchesFront {typed w : Str} (hdot : '.' ∉ typed) (h : matchesFront typed w = true) :
    typed <+: w := by
  induction typed generalizing w with
  | nil => exact List.nil_prefix
  | cons p typed ih =>
    obtain ⟨hp, htyped⟩ : '.' ≠ p ∧ '.' ∉ typed := by simpa using hdot
    cases w with
    | nil => cases h
    | cons c w =>
      obtain ⟨hpc, hrest⟩ : p = c ∧ matchesFront typed w = true := by
        simpa [matchesFront, Ne.symm hp] using h
      exact hpc ▸ List.cons_prefix_cons.mpr ⟨rfl, ih htyped hrest⟩

/-- What stands before the path does not end like it, so that it is in no keyword. -/
theorem keyword_starts {line w : Str} (hw : w ∈ keywords)
    (hmatch : matchesFront (splitEnd isPathChar line).2 w = true)
    (hin : line <:+: (splitEnd isPathChar line).1 ++ w) :
    line <+: (splitEnd isPathChar line).1 ++ w := by
  have hline := splitEnd_append isPathChar line
  have hlast : ∀ hne : (splitEnd isPathChar line).1 ≠ [],
      ¬isPathChar ((splitEnd isPathChar line).1.getLast hne) = true :=
    fun hne => List.rdropWhile_last_not _ _ hne
  generalize (splitEnd isPathChar line).1 = front at *
  generalize (splitEnd isPathChar line).2 = typed at *
  subst hline
  have hletters := keywords_letters w hw
  induction front using List.reverseRecOn with
  | nil =>
    have hdot : '.' ∉ typed := by
      intro hmem
      have hletter := hletters '.' (hin.subset hmem)
      exact absurd hletter (by decide)
    exact prefix_of_matchesFront hdot hmatch
  | append_singleton front f _ =>
    obtain ⟨before, behind, heq⟩ := hin
    cases before with
    | nil => exact ⟨behind, heq⟩
    | cons b before =>
      -- the last character in front of the path would be one of the keyword
      have hmem : f ∈ w := by
        have hdrop := congrArg (List.drop (front ++ [f]).length) heq
        rw [List.drop_left] at hdrop
        have hassoc : b :: before ++ (front ++ [f] ++ typed) ++ behind =
            (b :: before ++ front) ++ f :: (typed ++ behind) := by simp
        rw [hassoc, List.drop_append_of_le_length (by simp)] at hdrop
        exact hdrop ▸ List.mem_append_right _ List.mem_cons_self
      have hpath : isPathChar f = true := by
        simp [isPathChar, hletters f hmem]
      exact absurd hpath (by simpa using hlast (by simp))

/-! ### Candidates -/

section Candidates

variable {call : Getter} {h : LuaHeap} {leading last : Str} {all : Bool}

theorem exists_appendCandidates (group : List Str) {t : LuaObject} (ht : t.isTable = true) :
    ∃ group', appendCandidates h leading last all group t = .ok group' := by
  cases t with
  | table ref => exact ⟨_, rfl⟩
  | nil | boolean | number | string | function | userdata | thread => cases ht

theorem isTable_of_appendCandidates {group group' : List Str} {t : LuaObject}
    (hok : appendCandidates h leading last all group t = .ok group') : ∃ ref, t = .table ref := by
  cases t with
  | table ref => exact ⟨ref, rfl⟩
  | nil | boolean | number | string | function | userdata | thread => cases hok

/-- Candidates begin with what was typed. -/
theorem mem_appendCandidates (hall : all = true → last = []) {group group' : List Str} {t : LuaObject}
    (hok : appendCandidates h leading last all group t = .ok group') {c : Str} (hc : c ∈ group') :
    c ∈ group ∨ leading ++ last <+: c := by
  obtain ⟨ref, rfl⟩ := isTable_of_appendCandidates hok
  obtain rfl := Except.ok.inj hok
  rcases List.mem_append.mp hc with hc | hc
  · exact .inl hc
  · right
    obtain ⟨⟨key, value⟩, -, hentry⟩ := List.mem_filterMap.mp hc
    cases key with
    | nil | boolean | number | table | function | userdata | thread => cases hentry
    | string k =>
      simp only [Option.ite_none_right_eq_some, Option.some.injEq] at hentry
      obtain ⟨hk, rfl⟩ := hentry
      rw [List.prefix_append_right_inj]
      rcases Bool.or_eq_true_iff.mp hk with hk | hk
      · rw [hall hk]
        exact List.nil_prefix
      · have hsub : sub k 1 last.length = last := of_decide_eq_true hk
        rw [sub_one k (by omega), Int.toNat_natCast] at hsub
        exact hsub ▸ List.take_prefix _ _

theorem exists_inheritedIndex_iff (t : LuaObject) :
    (∃ v h', inheritedIndex call h (h.getmetatable t) = .ok (v, h') ∧
      ∀ v', v = some v' → v'.isTable = true) ↔ Inspectable call h t := by
  unfold inheritedIndex Inspectable
  generalize h.getmetatable t = mt
  generalize LuaObject.string "__index".toList = key
  by_cases hmt : mt.truthy = true
  · rw [if_pos hmt, forall_prop_of_true hmt]
    cases hfirst : index call h mt key with
    | error e => simp
    | ok first =>
      obtain ⟨v, h₁⟩ := first
      simp only
      by_cases hv : v.isTable = true
      · rw [if_pos hv]
        cases hsecond : index call h₁ mt key with
        | error e => simp [Except.map, hv, hsecond]
        | ok second =>
          have htable := LuaObject.isTable_iff (v := second.1)
          simp [Except.map, hv, hsecond, Prod.ext_iff, htable]
      · simp [hv]
  · simp [hmt]

/-- The candidates are found exactly where the metatable can be inspected. -/
theorem exists_candidates_iff (t : LuaObject) :
    (∃ group h', candidates call h leading last all t = .ok (group, h')) ↔ Inspectable call h t := by
  rw [← exists_inheritedIndex_iff]
  obtain ⟨own, hown⟩ : ∃ own : List Str,
      (if t.isTable then appendCandidates h leading last all [] t else .ok []) = .ok own := by
    split_ifs with ht
    · exact exists_appendCandidates [] ht
    · exact ⟨[], rfl⟩
  simp only [candidates, hown]
  cases hindex : inheritedIndex call h (h.getmetatable t) with
  | error e => simp
  | ok r =>
    obtain ⟨v, h'⟩ := r
    cases v with
    | none => simp
    | some v =>
      constructor
      · rintro ⟨group, h'', hok⟩
        refine ⟨some v, h', rfl, fun v' hv' => ?_⟩
        obtain rfl := Option.some.inj hv'
        cases happend : appendCandidates h' leading last all own v with
        | error e => simp [happend, Except.map] at hok
        | ok group' =>
          obtain ⟨ref, rfl⟩ := isTable_of_appendCandidates happend
          rfl
      · rintro ⟨v', h'', heq, htable⟩
        obtain ⟨rfl, rfl⟩ := Prod.mk.inj (Except.ok.inj heq)
        obtain ⟨ref, rfl⟩ := LuaObject.isTable_iff.mp (htable v rfl)
        exact ⟨_, h', rfl⟩

theorem mem_candidates (hall : all = true → last = []) {t : LuaObject} {group : List Str} {h' : LuaHeap}
    (hok : candidates call h leading last all t = .ok (group, h')) {c : Str} (hc : c ∈ group) :
    leading ++ last <+: c := by
  unfold candidates at hok
  simp only at hok
  split at hok
  next => cases hok
  next own hown =>
    have hstart : ∀ c ∈ own, leading ++ last <+: c := by
      intro c hc
      split_ifs at hown
      · exact (mem_appendCandidates hall hown hc).resolve_left (by simp)
      · obtain rfl := Except.ok.inj hown
        simp at hc
    split at hok
    next => cases hok
    next =>
      obtain ⟨rfl, rfl⟩ := Prod.mk.inj (Except.ok.inj hok)
      exact hstart c hc
    next v h'' _ =>
      cases happend : appendCandidates h'' leading last all own v with
      | error e => simp [happend, Except.map] at hok
      | ok group' =>
        rw [happend] at hok
        obtain ⟨rfl, rfl⟩ := Prod.mk.inj (Except.ok.inj hok)
        exact (mem_appendCandidates hall happend hc).elim (hstart c) id

end Candidates

/-! ### The path -/

/-- The loop is left without an error exactly where each value can be indexed. -/
theorem followable_iff (call : Getter) (names : List Str) (h : LuaHeap) (t : LuaObject) :
    Followable call names h t ↔
      ∃ r h', walk call names h t = .ok (r, h') ∧ ∀ v, r = some v → Inspectable call h' v := by
  induction names generalizing h t with
  | nil => simp [Followable, walk]
  | cons w names ih =>
    rw [Followable, walk]
    cases hindex : index call h t (.string w) with
    | error e => simp
    | ok r =>
      obtain ⟨v, h'⟩ := r
      simp only
      by_cases hv : v.truthy = true
      · rw [if_pos hv, ← ih]
        simp [hv]
      · simp [hv]

/-- Every value on the path up to the first that is nil or false is a table. -/
def OverTables (h : LuaHeap) : List Str → LuaObject → Prop
  | [], _ => True
  | w :: names, t =>
    ∃ ref, t = .table ref ∧
      ((h.rawget ref (.string w)).truthy = true → OverTables h names (h.rawget ref (.string w)))

/-- Without metatables only tables can be indexed. -/
theorem followable_plain_iff {call : Getter} {h : LuaHeap} (hplain : ∀ v, h.metatable v = none)
    (names : List Str) (t : LuaObject) : Followable call names h t ↔ OverTables h names t := by
  have hindex : ∀ v, h.metafield v "__index".toList = .nil := fun v => by rw [metafield, hplain]
  induction names generalizing t with
  | nil =>
    have hmt : h.getmetatable t = .nil := by rw [getmetatable, hplain]
    refine iff_of_true ?_ trivial
    intro htruthy
    rw [hmt] at htruthy
    cases htruthy
  | cons w names ih =>
    rw [Followable, OverTables]
    cases htable : t.isTable with
    | true =>
      obtain ⟨ref, rfl⟩ := LuaObject.isTable_iff.mp htable
      rw [index_table (hindex _)]
      simp [ih]
    | false =>
      rw [index_error htable (hindex t)]
      have hnone : ¬∃ ref, t = .table ref := by
        rw [← LuaObject.isTable_iff, htable]
        simp
      constructor
      · rintro ⟨v, h', hok, -⟩
        cases hok
      · rintro ⟨ref, href, -⟩
        exact absurd ⟨ref, href⟩ hnone

/-! ### Every line -/

/-- A line with a command. -/
theorem completes_command_iff {call : Getter} {globals : ℕ} {commands : List Str} {line found : Str}
    {s : Completing} (hfound : commandMatch line = some found) :
    Completes call globals commands line s ↔
      ∀ command ∈ commands, found <:+: command → found <+: command := by
  have hne : found ≠ [] := by
    unfold commandMatch at hfound
    split at hfound
    next =>
      split_ifs at hfound
      obtain rfl := Option.some.inj hfound
      simp
    next => cases hfound
  have hcomplete : complete call globals commands line s =
      .ok (s.callback (listed (filtered [commands] (some found))) (some found)) := by
    simp only [complete, hfound, if_pos hne]
    rfl
  have hmem : ∀ c, c ≠ [] → (c ∈ listed (filtered [commands] (some found)) ↔
      c ∈ commands ∧ found <:+: c) := by
    intro c hc
    rw [mem_listed hc]
    simp
  constructor
  · rintro ⟨s', completions, completeOn, hok, hcalls, hstart⟩ command hcommand hin
    rw [hcomplete] at hok
    obtain rfl := Except.ok.inj hok
    obtain ⟨rfl, rfl⟩ : listed (filtered [commands] (some found)) = completions ∧
        some found = completeOn := by
      simpa [Completing.callback] using hcalls
    have hcommandNe : command ≠ [] := by
      rintro rfl
      exact hne (List.infix_nil.mp hin)
    exact hstart command ((hmem command hcommandNe).mpr ⟨hcommand, hin⟩) hcommandNe found rfl
  · intro hcommands
    refine ⟨_, _, _, hcomplete, rfl, ?_⟩
    rintro c hc hcne text htext
    obtain rfl := Option.some.inj htext
    obtain ⟨hcommand, hin⟩ := (hmem c hcne).mp hc
    exact hcommands c hcommand hin

/-- Of the keywords and the candidates for a path, what is listed begins with the line. -/
theorem listed_starts {line : Str} {group : List Str} (hgroup : ∀ c ∈ group, line <+: c) :
    let found := (keywords.filter (matchesFront (splitEnd isPathChar line).2)).map
      ((splitEnd isPathChar line).1 ++ ·)
    ∀ c ∈ listed (filtered ((if found = [] then [] else [found]) ++ if group = [] then [] else [group])
      (some line)), c ≠ [] → line <+: c := by
  intro found c hc hne
  obtain ⟨members, hmembers, hmem, hin⟩ := (mem_listed hne _ _).mp hc
  rcases List.mem_append.mp hmembers with hmembers | hmembers
  · have heq : members = found := by
      split_ifs at hmembers
      · simp at hmembers
      · exact List.mem_singleton.mp hmembers
    rw [heq] at hmem
    obtain ⟨w, hw, rfl⟩ := List.mem_map.mp hmem
    obtain ⟨hkeyword, hmatch⟩ := List.mem_filter.mp hw
    exact keyword_starts hkeyword hmatch hin
  · have heq : members = group := by
      split_ifs at hmembers
      · simp at hmembers
      · exact List.mem_singleton.mp hmembers
    exact hgroup c (heq ▸ hmem)

section Path

variable {call : Getter} {globals : ℕ} {commands : List Str} {line : Str} {s : Completing}
  (hcommand : commandMatch line = none)

include hcommand

/-- A line that nothing is looked up for. -/
theorem completes_of_skipped
    (hskip : (splitEnd isPathChar line).2 = [] ∨
      (endsOutsideWord (splitEnd isPathChar line).1 ∧ (splitEnd isPathChar line).2 = ['.']) ∨
        (splitEnd isPathChar line).2 = [':']) :
    Completes call globals commands line s := by
  have hcomplete : complete call globals commands line s = .ok (s.callback [] none) := by
    simp only [complete, hcommand]
    rcases hskip with hempty | hdelim
    · rw [if_pos hempty]
    · rw [if_pos hdelim, ite_self]
  exact ⟨_, [], none, hcomplete, rfl, by simp⟩

/-- A line with a path: the lookups on it and those behind it answer. -/
theorem completes_path_iff (htyped : (splitEnd isPathChar line).2 ≠ [])
    (hdelim : ¬((endsOutsideWord (splitEnd isPathChar line).1 ∧ (splitEnd isPathChar line).2 = ['.']) ∨
      (splitEnd isPathChar line).2 = [':'])) {names : List Str} (hnames : pathNames line = some names) :
    Completes call globals commands line s ↔ Followable call names s.heap (.table globals) := by
  have hskip := not_or.mpr ⟨htyped, hdelim⟩
  simp only [pathNames, if_neg hskip, Option.some.injEq] at hnames
  subst hnames
  rw [followable_iff, Completes]
  simp only [complete, hcommand, if_neg htyped, if_neg hdelim]
  have hline := splitEnd_append isPathChar line
  have hpath := splitEnd_append (fun c => !isDelim c) (splitEnd isPathChar line).2
  cases walk call _ s.heap (.table globals) with
  | error e => simp
  | ok r =>
    obtain ⟨r, h⟩ := r
    cases r with
    | none => exact iff_of_true ⟨_, [], none, rfl, rfl, by simp⟩ ⟨none, h, rfl, by simp⟩
    | some t =>
      have hright : (∃ r h', Except.ok (ε := Str) (some t, h) = .ok (r, h') ∧
          ∀ v, r = some v → Inspectable call h' v) ↔ Inspectable call h t := by simp
      rw [hright, ← exists_candidates_iff t]
      simp only
      constructor
      · rintro ⟨s', completions, completeOn, hok, -, -⟩
        split at hok
        next => cases hok
        next group h' heq => exact ⟨group, h', heq⟩
      · rintro ⟨group, h', heq⟩
        rw [heq]
        refine ⟨_, _, _, rfl, rfl, ?_⟩
        intro c hc hne text htext
        obtain rfl := Option.some.inj htext
        refine listed_starts (fun c hc => ?_) c hc hne
        have hstart := mem_candidates (by simp) heq hc
        rwa [List.append_assoc, hpath, hline] at hstart

end Path

/-- Completion is total for a line exactly when the line is completable. -/
theorem completes_iff (call : Getter) (globals : ℕ) (commands : List Str) (line : Str) (s : Completing) :
    Completes call globals commands line s ↔ Completable call globals commands line s.heap := by
  unfold Completable
  cases hcommand : commandMatch line with
  | some found => exact completes_command_iff hcommand
  | none =>
    simp only
    by_cases hskip : (splitEnd isPathChar line).2 = [] ∨
        (endsOutsideWord (splitEnd isPathChar line).1 ∧ (splitEnd isPathChar line).2 = ['.']) ∨
          (splitEnd isPathChar line).2 = [':']
    · have hnames : pathNames line = none := by simp only [pathNames, if_pos hskip]
      rw [hnames]
      exact iff_of_true (completes_of_skipped hcommand hskip) (by simp)
    · obtain ⟨htyped, hdelim⟩ := not_or.mp hskip
      obtain ⟨names, hnames⟩ : ∃ names, pathNames line = some names := by
        simp only [pathNames, if_neg hskip]
        exact ⟨_, rfl⟩
      rw [completes_path_iff hcommand htyped hdelim hnames, hnames]
      simp

/-- A number on the path is indexed. -/
theorem complete_number :
    ¬∀ (call : Getter) (globals : ℕ) (commands : List Str) (line : Str) (s : Completing),
      Completes call globals commands line s := by
  intro h
  let heap : LuaHeap :=
    { entries := fun _ => [(.string ['a'], .number ['5'])]
      metatable := fun _ => none }
  obtain ⟨s', completions, completeOn, hok, -, -⟩ :=
    h (fun _ _ _ _ => .error []) 0 [] ['a', '.', 'b', '.', 'c'] ⟨heap, []⟩
  cases hok

end LuaNode.Repl
