import LuaNode.Library.Components
import LuaNode.Library.Text
import LuaNode.Library.Words

/-!
# Normalizing a path

`normalizeArray` takes the components of a path one at a time into a list of directories and keeps the
last of them in a variable of its own. What it computes are the reduced components, so that a
normalized path leads where the path leads and has nothing left to normalize.
-/

namespace LuaNode.Path

/-- The first character of `package.config`. -/
def dirSep (windows : Bool) : Char := if windows then '\\' else '/'

/-- `[\\/]`. -/
def isSep (c : Char) : Bool := c = '/' || c = '\\'

def dot : Str := ['.']

def dotdot : Str := ['.', '.']

/-- The local variables of `normalizeArray`. -/
structure Directories where
  directories : List Str
  prev : Option Str

/-- The body of the loop, for the part number `i` of `count` parts. -/
def normalizePart (keepBlanks : Bool) (count : ℕ) (s : Directories) (part : Str × ℕ) : Directories :=
  let (directory, i) := part
  -- blank, but neither the first nor the last
  if directory = [] ∧ i ≠ 1 ∧ i ≠ count ∧ keepBlanks = false then s
  else if directory = dot ∧ s.prev.isSome then s
  else if s.directories = [[]] ∧ (directory = dot ∨ directory = dotdot) then s
  else if directory = dotdot ∧ s.directories ≠ [] ∧ s.prev ≠ some dotdot ∧ s.prev ≠ some dot ∧
      s.prev.isSome ∧ (s.prev ≠ some [] ∨ keepBlanks) then
    { directories := s.directories.dropLast
      prev := s.directories.dropLast.getLast? }
  else
    let directories := if s.prev = some dot then s.directories.dropLast else s.directories
    { directories := directories ++ [directory]
      prev := some directory }

def normalizeArray (parts : List Str) (keepBlanks : Bool) : List Str :=
  ((parts.zipIdx 1).foldl (normalizePart keepBlanks parts.length) ⟨[], none⟩).directories

def normalize (windows : Bool) (path : Str) (keepBlanks : Bool) : Str :=
  let path := path.map fun c => if isSep c then dirSep windows else c
  let paths := normalizeArray (words (fun c => c = dirSep windows) path) keepBlanks
  if windows then [dirSep windows].intercalate paths
  else dirSep windows :: [dirSep windows].intercalate paths

/-- Where a path leads from the root; an empty component leads nowhere. -/
def resolve (path : Str) : List Str := follow dot dotdot (words isSep path)

/-- A path of reduced components. -/
def Canonical (path : Str) : Prop :=
  ∃ names, path = '/' :: ['/'].intercalate names ∧
    (∀ name ∈ names, name ≠ [] ∧ ∀ c ∈ name, isSep c = false) ∧ Reduced dot dotdot names

/-! ### The components -/

theorem isSep_dirSep (windows : Bool) : isSep (dirSep windows) = true := by
  cases windows <;> decide

/-- One kind of separator is as good as two. -/
theorem words_map_dirSep (windows : Bool) (path : Str) :
    words (fun c => c = dirSep windows) (path.map fun c => if isSep c then dirSep windows else c) =
      words isSep path := by
  unfold words
  congr 1
  induction path with
  | nil => simp
  | cons c path ih =>
    rw [List.map_cons, List.splitOnP_cons_eq_if_modifyHead, List.splitOnP_cons_eq_if_modifyHead, ih]
    by_cases hc : isSep c = true
    · simp [hc]
    · have hne : c ≠ dirSep windows := fun heq => hc (heq ▸ isSep_dirSep windows)
      simp [hc, hne]

theorem words_isSep_intercalate (windows : Bool) {names : List Str}
    (h : ∀ name ∈ names, name ≠ [] ∧ ∀ c ∈ name, isSep c = false) :
    words isSep ([dirSep windows].intercalate names) = names :=
  words_intercalate (isSep_dirSep windows) h

/-! ### The loop -/

/-- What the loop keeps. -/
structure Directories.Tracked (s : Directories) : Prop where
  prev_eq : s.prev = s.directories.getLast?
  no_blank : [] ∉ s.directories

theorem normalizePart_eq {s : Directories} (h : s.Tracked) (keepBlanks : Bool) (count i : ℕ)
    {directory : Str} (hne : directory ≠ []) :
    normalizePart keepBlanks count s (directory, i) =
      { directories := push dot dotdot s.directories directory
        prev := (push dot dotdot s.directories directory).getLast? } := by
  obtain ⟨directories, prev⟩ := s
  obtain ⟨hprev, hblank⟩ := h
  replace hprev : prev = directories.getLast? := hprev
  replace hblank : [] ∉ directories := hblank
  subst hprev
  induction directories using List.reverseRecOn with
  | nil => simp [normalizePart, push, hne]
  | append_singleton before last =>
    have hlast : last ≠ [] := by
      rintro rfl
      exact hblank (by simp)
    have hfirst : before ++ [last] ≠ [[]] := by
      intro heq
      exact hblank (by simp [heq])
    rw [push_concat]
    by_cases hdot : directory = dot
    · simp [normalizePart, hdot, dot]
    · have hkept : ¬(directory = [] ∧ i ≠ 1 ∧ i ≠ count ∧ keepBlanks = false) := fun h => hne h.1
      have hrooted : ¬(before ++ [last] = [[]] ∧ (directory = dot ∨ directory = dotdot)) :=
        fun h => hfirst h.1
      simp only [normalizePart, List.getLast?_concat, List.dropLast_concat]
      rw [if_neg hkept, if_neg fun h => hdot h.1, if_neg hrooted, if_neg hdot]
      by_cases hup : directory = dotdot ∧ last ≠ dotdot ∧ last ≠ dot
      · rw [if_pos (by simp [hup, hlast]), if_pos hup]
      · have hnot : ¬(directory = dotdot ∧ before ++ [last] ≠ [] ∧ some last ≠ some dotdot ∧
            some last ≠ some dot ∧ (some last).isSome ∧ (some last ≠ some [] ∨ keepBlanks)) :=
          fun h => hup ⟨h.1, by simpa using h.2.2.1, by simpa using h.2.2.2.1⟩
        rw [if_neg hnot, if_neg hup]
        by_cases hlastdot : last = dot <;> simp [hlastdot]

theorem Directories.Tracked.push {s : Directories} (h : s.Tracked) {directory : Str}
    (hne : directory ≠ []) :
    Directories.Tracked
      { directories := LuaNode.push dot dotdot s.directories directory
        prev := (LuaNode.push dot dotdot s.directories directory).getLast? } where
  prev_eq := rfl
  no_blank hmem := by
    rcases mem_of_mem_push hmem with hmem | heq
    · exact h.no_blank hmem
    · exact hne heq.symm

/-- The components without blanks are reduced. -/
theorem normalizeArray_eq {parts : List Str} (h : [] ∉ parts) (keepBlanks : Bool) :
    normalizeArray parts keepBlanks = reduce dot dotdot parts := by
  have hrun : ∀ (i : ℕ) (s : Directories), s.Tracked →
      ((parts.zipIdx i).foldl (normalizePart keepBlanks parts.length) s).directories =
        parts.foldl (LuaNode.push dot dotdot) s.directories := by
    generalize parts.length = count
    induction parts with
    | nil =>
      intro i s hs
      rfl
    | cons directory parts ih =>
      intro i s hs
      obtain ⟨hdirectory, hparts⟩ : [] ≠ directory ∧ [] ∉ parts := by simpa using h
      rw [List.zipIdx_cons, List.foldl_cons, normalizePart_eq hs _ _ _ (Ne.symm hdirectory),
        ih hparts _ _ (hs.push (Ne.symm hdirectory)), List.foldl_cons]
  exact hrun 1 ⟨[], none⟩ ⟨rfl, by simp⟩

theorem nil_not_mem_words {p : Char → Bool} (path : Str) : [] ∉ words p path :=
  fun h => (mem_words h).1 rfl

/-- The components of a normalized path. -/
def normalNames (path : Str) : List Str := reduce dot dotdot (words isSep path)

theorem normalize_eq (windows : Bool) (path : Str) (keepBlanks : Bool) :
    normalize windows path keepBlanks =
      if windows then [dirSep windows].intercalate (normalNames path)
      else dirSep windows :: [dirSep windows].intercalate (normalNames path) := by
  simp only [normalize, normalNames, words_map_dirSep]
  rw [normalizeArray_eq (nil_not_mem_words path)]

theorem normalNames_plain (path : Str) :
    ∀ name ∈ normalNames path, name ≠ [] ∧ ∀ c ∈ name, isSep c = false :=
  fun _ h => mem_words (mem_of_mem_reduce h)

theorem words_normalize (windows : Bool) (path : Str) (keepBlanks : Bool) :
    words isSep (normalize windows path keepBlanks) = normalNames path := by
  rw [normalize_eq]
  have hwords := words_isSep_intercalate windows (normalNames_plain path)
  split_ifs
  · exact hwords
  · rw [words_cons_sep _ (isSep_dirSep windows), hwords]

/-- Paths with the same components are normalized alike. -/
theorem normalize_congr (windows : Bool) {p q : Str} (h : words isSep p = words isSep q)
    (keepBlanks : Bool) : normalize windows p keepBlanks = normalize windows q keepBlanks := by
  rw [normalize_eq, normalize_eq, normalNames, h, normalNames]

theorem normalize_normalize (windows : Bool) (path : Str) (keepBlanks : Bool) :
    normalize windows (normalize windows path keepBlanks) keepBlanks =
      normalize windows path keepBlanks := by
  have hnames : normalNames (normalize windows path keepBlanks) = normalNames path := by
    rw [normalNames, words_normalize]
    exact reduce_of_reduced (reduce_reduced _)
  rw [normalize_eq windows (normalize windows path keepBlanks), hnames, ← normalize_eq]

theorem resolve_normalize (windows : Bool) (path : Str) (keepBlanks : Bool) :
    resolve (normalize windows path keepBlanks) = resolve path := by
  rw [resolve, words_normalize]
  exact follow_reduce _

/-! ### Every path -/

/-- A normalized path has nothing left to normalize, its components are reduced, and it leads where the
path leads. -/
theorem normalize_canonical (path : Str) (keepBlanks : Bool) :
    normalize false (normalize false path keepBlanks) keepBlanks = normalize false path keepBlanks ∧
      Canonical (normalize false path keepBlanks) ∧
      resolve (normalize false path keepBlanks) = resolve path := by
  refine ⟨normalize_normalize false path keepBlanks, ?_, resolve_normalize false path keepBlanks⟩
  exact ⟨normalNames path, normalize_eq false path keepBlanks, normalNames_plain path,
    reduce_reduced _⟩

end LuaNode.Path
