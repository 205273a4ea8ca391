import LuaNode.Library.Delimiter
import LuaNode.Path.Normalize

/-!
# The directory and the file of a path

A path is split at its last separator. Joined again the two parts are the normalized path; but a path
without a separator is split into `"."` and no file.
-/

namespace LuaNode.Path

/-- `string.match(path, "^(.*)[/\\]([^/\\]*)$")`, and the two cases behind it. -/
def splitpath (windows : Bool) (path : Str) : Str × Option Str :=
  let inFile : Char → Bool := fun c => !isSep c
  match path.reverse.dropWhile inFile with
  | [] => (dot, none)
  | _ :: front =>
    let file := (path.reverse.takeWhile inFile).reverse
    if front = [] then ([dirSep windows], some file) else (front.reverse, some file)

def dirname (windows : Bool) (path : Str) : Str := (splitpath windows path).1

/-- `basename` called without an extension. -/
def basename (windows : Bool) (path : Str) : Option Str := (splitpath windows path).2

def join (windows : Bool) (t : List Str) : Str :=
  normalize windows ([dirSep windows].intercalate t) false

theorem splitpath_of_plain (windows : Bool) {path : Str} (h : ∀ c ∈ path, isSep c = false) :
    splitpath windows path = (dot, none) := by
  have hdrop : path.reverse.dropWhile (fun c => !isSep c) = [] := by
    rw [List.dropWhile_eq_nil_iff]
    intro c hc
    simp [h c (List.mem_reverse.mp hc)]
  simp only [splitpath, hdrop]

/-- At the last separator. -/
theorem splitpath_append (windows : Bool) (front : Str) {c : Char} {file : Str} (hc : isSep c = true)
    (h : ∀ c ∈ file, isSep c = false) :
    splitpath windows (front ++ c :: file) =
      (if front = [] then [dirSep windows] else front, some file) := by
  have hfile : ∀ d ∈ file.reverse, (!isSep d) = true := by
    intro d hd
    simp [h d (List.mem_reverse.mp hd)]
  have hstop : ∀ d ∈ (c :: front.reverse).head?, (!isSep d) = false := by simpa using hc
  have hreverse : (front ++ c :: file).reverse = file.reverse ++ c :: front.reverse := by simp
  simp only [splitpath, hreverse]
  rw [dropWhile_append_stop hfile hstop, takeWhile_append_stop hfile hstop]
  by_cases hfront : front = [] <;> simp [hfront]

theorem exists_last_sep {path : Str} (h : ∃ c ∈ path, isSep c = true) :
    ∃ front c file, path = front ++ c :: file ∧ isSep c = true ∧ ∀ d ∈ file, isSep d = false := by
  induction path using List.reverseRecOn with
  | nil => simp at h
  | append_singleton path last ih =>
    by_cases hlast : isSep last = true
    · exact ⟨path, last, [], rfl, hlast, by simp⟩
    · have hbefore : ∃ c ∈ path, isSep c = true := by
        obtain ⟨c, hmem, hc⟩ := h
        rcases List.mem_append.mp hmem with hmem | hmem
        · exact ⟨c, hmem, hc⟩
        · rw [List.mem_singleton.mp hmem] at hc
          exact absurd hc hlast
      obtain ⟨front, c, file, rfl, hc, hfile⟩ := ih hbefore
      refine ⟨front, c, file ++ [last], by simp, hc, ?_⟩
      intro d hd
      rcases List.mem_append.mp hd with hd | hd
      · exact hfile d hd
      · rw [List.mem_singleton.mp hd]
        exact Bool.eq_false_of_not_eq_true hlast

/-- The directory and the file have the components of the path. -/
theorem join_split (windows : Bool) (front : Str) {c : Char} (file : Str) (hc : isSep c = true) :
    join windows [if front = [] then [dirSep windows] else front, file] =
      normalize windows (front ++ c :: file) false := by
  have hsep := isSep_dirSep windows
  have hroot : words isSep (if front = [] then [dirSep windows] else front) = words isSep front := by
    split_ifs with hfront
    · rw [words_cons_sep _ hsep, hfront]
    · rfl
  refine normalize_congr windows ?_ false
  rw [List.intercalate_cons_cons, List.intercalate_singleton, List.append_assoc, List.singleton_append,
    words_append_cons _ _ hsep, hroot, words_append_cons _ _ hc]

/-! ### Every path -/

/-- A path has a directory and a file that are joined to the normalized path exactly when it has a
separator. -/
theorem split_join_iff (windows : Bool) (path : Str) :
    (∃ file, basename windows path = some file ∧
      join windows [dirname windows path, file] = normalize windows path false) ↔
    ∃ c ∈ path, isSep c = true := by
  constructor
  · rintro ⟨file, hfile, -⟩
    by_contra hnone
    have hplain : ∀ c ∈ path, isSep c = false := by
      intro c hc
      exact Bool.eq_false_of_not_eq_true fun hsep => hnone ⟨c, hc, hsep⟩
    rw [basename, splitpath_of_plain windows hplain] at hfile
    simp at hfile
  · intro hsep
    obtain ⟨front, c, file, rfl, hc, hfile⟩ := exists_last_sep hsep
    have hsplit := splitpath_append windows front hc hfile
    refine ⟨file, by rw [basename, hsplit], ?_⟩
    rw [dirname, hsplit]
    exact join_split windows front file hc

/-- The file `a` has no name. -/
theorem no_basename :
    ¬∀ path : Str, path ≠ [] → ∃ file, basename false path = some file ∧
      join false [dirname false path, file] = normalize false path false := by
  intro h
  obtain ⟨file, hfile, -⟩ := h ['a'] (by simp)
  have hnone : basename false ['a'] = none := by decide
  rw [hnone] at hfile
  cases hfile

end LuaNode.Path
