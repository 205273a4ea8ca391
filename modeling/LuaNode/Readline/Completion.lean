import LuaNode.Library.LexPrefix
import LuaNode.Readline.Interface

/-!
# Completion

`commonPrefix` looks at the least and the greatest string only, which is enough. The listing of several
completions is written out here with the loops of `_tabComplete`: `maxColumns` is 0 when the
longest string does not fit on the screen, and then there are infinitely many rows; it is `math.huge` when
`output` has no columns, and then there are none.
-/

namespace LuaNode.Readline

/-! ### The common prefix -/

theorem bytesLe_eq (s t : Str) : bytesLe s t = lexLe Char.toNat s t := by
  induction s generalizing t with
  | nil => simp [bytesLe]
  | cons c s ih =>
    cases t with
    | nil => simp [bytesLe]
    | cons d t =>
      have hsame : (c == d) = decide (c.toNat = d.toNat) := by
        rw [Bool.eq_iff_iff]
        simp only [beq_iff_eq, decide_eq_true_eq]
        exact ⟨congrArg _, fun h => Char.toNat_inj.mp h⟩
      simp [bytesLe, lexLe, hsame, ih]

theorem bytesLe_trans (s t u : Str) (hst : bytesLe s t = true) (htu : bytesLe t u = true) :
    bytesLe s u = true := by
  rw [bytesLe_eq] at hst htu ⊢
  exact lexLe_trans s t u hst htu

theorem bytesLe_total (s t : Str) : (bytesLe s t || bytesLe t s) = true := by
  rw [bytesLe_eq, bytesLe_eq]
  exact lexLe_total s t

theorem sorted_mergeSort (strings : List Str) :
    (strings.mergeSort bytesLe).Pairwise fun s t => lexLe Char.toNat s t = true := by
  have hsorted : (strings.mergeSort bytesLe).Pairwise fun s t => bytesLe s t = true :=
    List.pairwise_mergeSort bytesLe_trans bytesLe_total strings
  simpa only [bytesLe_eq] using hsorted

/-- The prefixes of `commonPrefix` are those that all the strings share. -/
theorem prefix_commonPrefix_iff {strings : List Str} (hne : strings ≠ []) (p : Str) :
    p <+: commonPrefix strings ↔ ∀ s ∈ strings, p <+: s := by
  have hsorted := sorted_mergeSort strings
  have hmem (s : Str) : s ∈ strings.mergeSort bytesLe ↔ s ∈ strings := List.mem_mergeSort
  unfold commonPrefix
  cases hstrings : strings.mergeSort bytesLe with
  | nil =>
    have hlength : (strings.mergeSort bytesLe).length = strings.length := List.length_mergeSort strings
    rw [hstrings] at hlength
    exact absurd (List.length_eq_zero_iff.mp hlength.symm) hne
  | cons first rest =>
    rw [hstrings] at hsorted hmem
    have hinj : Function.Injective Char.toNat := fun c d h => Char.toNat_inj.mp h
    calc p <+: agreement first (rest.getLastD first)
        ↔ ∀ s ∈ first :: rest, p <+: s := prefix_agreement_iff hinj hsorted p
      _ ↔ ∀ s ∈ strings, p <+: s := by simp only [hmem]

/-- `commonPrefix` is a prefix of every string of a list that is not empty, and every other one
is a prefix of it. -/
theorem commonPrefix_greatest (strings : List Str) (hne : strings ≠ []) :
    (∀ s ∈ strings, commonPrefix strings <+: s) ∧
      ∀ p, (∀ s ∈ strings, p <+: s) → p <+: commonPrefix strings :=
  ⟨(prefix_commonPrefix_iff hne _).mp List.prefix_rfl,
    fun p hp => (prefix_commonPrefix_iff hne p).mpr hp⟩

theorem commonPrefix_greatest_pair :
    commonPrefix ["list".toList, "lines".toList] <+: "lines".toList ∧
      "li".toList <+: commonPrefix ["list".toList, "lines".toList] := by
  obtain ⟨hshared, hgreatest⟩ := commonPrefix_greatest ["list".toList, "lines".toList] (by decide)
  exact ⟨hshared _ (by decide), hgreatest _ (by decide)⟩

/-! ### The loops of the listing -/

/-- What the listing writes, one by one. -/
inductive Piece
  | item (text : Str)
  | space
  | newline

def Piece.written : Piece → Written
  | .item text => .text text
  | .space => .text [' ']
  | .newline => .text crlf

def Piece.item? : Piece → Option Str
  | .item text => some text
  | _ => none

/-- The completions among what is written. -/
def items (pieces : List Piece) : List Str := pieces.filterMap Piece.item?

/-- The loop over the columns of a row, which breaks after the last item. -/
def writeCells (group : List Str) (width maxColumns row : ℕ) : List ℕ → List Piece
  | [] => []
  | col :: cols =>
    match group[row * maxColumns + col]? with
    | none => []
    | some text =>
      .item text :: (if col < maxColumns - 1 then List.replicate (width - text.length) .space else []) ++
        writeCells group width maxColumns row cols

def writeRow (group : List Str) (width maxColumns row : ℕ) : List Piece :=
  writeCells group width maxColumns row (List.range' 0 maxColumns) ++ [.newline]

/-- `math.ceil(#group / maxColumns)` of a group that is not empty, or `none` for `math.huge`. -/
def minRows (length maxColumns : ℕ) : Option ℕ :=
  if maxColumns = 0 then none else some ((length + maxColumns - 1) / maxColumns)

/-- `row > minRows - 1`. -/
def beyond (row : ℕ) : Option ℕ → Bool
  | none => false
  | some rows => rows ≤ row

/-- The loop over the rows, from `row` on, and the newline after it, when it ends after at most
`fuel` rows. -/
def writeRows (group : List Str) (width maxColumns : ℕ) : ℕ → ℕ → Option (List Piece)
  | 0, row => if beyond row (minRows group.length maxColumns) then some [.newline] else none
  | fuel + 1, row =>
    if beyond row (minRows group.length maxColumns) then some [.newline]
    else (writeRows group width maxColumns fuel (row + 1)).map
      fun rest => writeRow group width maxColumns row ++ rest

/-- `handleGroup`. Of infinitely many columns there are `math.ceil(0)` rows. -/
def writeGroup (width : ℕ) (maxColumns : Option ℕ) (fuel : ℕ) (group : List Str) :
    Option (List Piece) :=
  if group = [] then some []
  else
    match maxColumns with
    | none => some [.newline]
    | some columns => writeRows group width columns fuel 0

/-- The loop over the completions, where an empty string ends a group. -/
def writeGroups (width : ℕ) (maxColumns : Option ℕ) (fuel : ℕ) (group : List Str) :
    List Str → Option (List Piece)
  | [] => writeGroup width maxColumns fuel group
  | c :: completions =>
    if c = [] then
      match writeGroup width maxColumns fuel group with
      | none => none
      | some first => (writeGroups width maxColumns fuel [] completions).map fun rest => first ++ rest
    else writeGroups width maxColumns fuel (group ++ [c]) completions

/-- The length of the longest completion and two spaces. -/
def itemWidth (completions : List Str) : ℕ := (completions.map List.length).foldl max 0 + 2

/-- The listing of `_tabComplete` on a screen of so many columns, when each loop over rows ends after
at most `fuel` of them. -/
def writeListing (columns : Option ℕ) (completions : List Str) (fuel : ℕ) : Option (List Piece) :=
  let width := itemWidth completions
  let maxColumns := columns.map fun columns => columns / width
  (writeGroups width maxColumns fuel [] completions).map fun pieces => .newline :: pieces

/-! ### What a group writes -/

section Group

variable {group : List Str} {width maxColumns : ℕ}

@[simp] theorem items_append (ps qs : List Piece) : items (ps ++ qs) = items ps ++ items qs :=
  List.filterMap_append

@[simp] theorem items_nil : items [] = [] := rfl

@[simp] theorem items_newline (ps : List Piece) : items (.newline :: ps) = items ps := rfl

@[simp] theorem items_item (text : Str) (ps : List Piece) :
    items (.item text :: ps) = text :: items ps := rfl

@[simp] theorem items_spaces (n : ℕ) : items (List.replicate n .space) = [] := by
  induction n with
  | zero => rfl
  | succ n ih => exact ih

/-- The cells from a column on hold the items from there on, up to the end of the row. -/
theorem items_writeCells (row col n : ℕ) :
    items (writeCells group width maxColumns row (List.range' col n)) =
      (group.drop (row * maxColumns + col)).take n := by
  induction n generalizing col with
  | zero => simp [writeCells]
  | succ n ih =>
    rw [List.range'_succ, writeCells]
    cases htext : group[row * maxColumns + col]? with
    | none =>
      have hbeyond : group.length ≤ row * maxColumns + col := List.getElem?_eq_none_iff.mp htext
      simp [List.drop_eq_nil_of_le hbeyond]
    | some text =>
      obtain ⟨hlt, rfl⟩ := List.getElem?_eq_some_iff.mp htext
      have hpadding : items (if col < maxColumns - 1
          then List.replicate (width - (group[row * maxColumns + col]).length) .space else []) = [] := by
        split_ifs <;> simp
      dsimp only
      rw [List.cons_append, items_item, items_append, hpadding, List.nil_append, ih,
        List.drop_eq_getElem_cons hlt, List.take_succ_cons, Nat.add_assoc]

theorem items_writeRow (row : ℕ) :
    items (writeRow group width maxColumns row) =
      (group.drop (row * maxColumns)).take maxColumns := by
  simp [writeRow, items_writeCells]

/-- With at least one column the rows end when all items are written. -/
theorem beyond_minRows (hcolumns : 0 < maxColumns) (row : ℕ) :
    beyond row (minRows group.length maxColumns) = true ↔ group.length ≤ row * maxColumns := by
  simp only [minRows, hcolumns.ne', if_false, beyond, decide_eq_true_eq]
  rw [Nat.div_le_iff_le_mul_add_pred hcolumns, Nat.mul_comm row]
  omega

/-- What the loop over the rows writes, when it ends. -/
theorem items_writeRows (hcolumns : 0 < maxColumns) {fuel row : ℕ} {pieces : List Piece}
    (h : writeRows group width maxColumns fuel row = some pieces) :
    items pieces = group.drop (row * maxColumns) := by
  induction fuel generalizing row pieces with
  | zero =>
    simp only [writeRows, beyond_minRows hcolumns] at h
    split_ifs at h with hdone
    cases h
    simp [List.drop_eq_nil_of_le hdone]
  | succ fuel ih =>
    simp only [writeRows, beyond_minRows hcolumns] at h
    split_ifs at h with hdone
    · cases h
      simp [List.drop_eq_nil_of_le hdone]
    · obtain ⟨rest, hrest, rfl⟩ := Option.map_eq_some_iff.mp h
      rw [items_append, items_writeRow, ih hrest, Nat.succ_mul, ← List.drop_drop,
        List.take_append_drop]

theorem writeRows_ends (hcolumns : 0 < maxColumns) {fuel row : ℕ}
    (hfuel : group.length ≤ row + fuel) :
    ∃ pieces, writeRows group width maxColumns fuel row = some pieces := by
  induction fuel generalizing row with
  | zero =>
    have hdone : group.length ≤ row * maxColumns :=
      hfuel.trans (Nat.le_mul_of_pos_right row hcolumns)
    exact ⟨[.newline], by simp [writeRows, beyond_minRows hcolumns, hdone]⟩
  | succ fuel ih =>
    obtain ⟨rest, hrest⟩ : ∃ rest, writeRows group width maxColumns fuel (row + 1) = some rest :=
      ih (by omega)
    simp only [writeRows, hrest]
    split_ifs <;> exact ⟨_, rfl⟩

/-- Without a column the rows do not end. -/
theorem writeRows_zero (fuel row : ℕ) : writeRows group width 0 fuel row = none := by
  induction fuel generalizing row with
  | zero => simp [writeRows, minRows, beyond]
  | succ fuel ih => simp [writeRows, minRows, beyond, ih]

end Group

/-! ### What the listing writes -/

section Listing

variable {width fuel : ℕ} {group completions : List Str} {pieces : List Piece}

/-- With at least one column every group ends, and writes its items in order. -/
theorem writeGroups_ends {columns : ℕ} (hcolumns : 0 < columns)
    (hfuel : group.length + completions.length ≤ fuel) :
    ∃ pieces, writeGroups width (some columns) fuel group completions = some pieces ∧
      items pieces = group ++ completions.filter fun c => c ≠ [] := by
  have hgroup (group : List Str) (hlength : group.length ≤ fuel) :
      ∃ pieces, writeGroup width (some columns) fuel group = some pieces ∧ items pieces = group := by
    unfold writeGroup
    split_ifs with hempty
    · exact ⟨[], rfl, hempty.symm⟩
    · obtain ⟨pieces, hpieces⟩ : ∃ pieces, writeRows group width columns fuel 0 = some pieces :=
        writeRows_ends hcolumns (by omega)
      exact ⟨pieces, hpieces, by simpa using items_writeRows hcolumns hpieces⟩
  induction completions generalizing group with
  | nil =>
    obtain ⟨pieces, hpieces, hitems⟩ := hgroup group (by simpa using hfuel)
    exact ⟨pieces, hpieces, by simpa using hitems⟩
  | cons c completions ih =>
    simp only [List.length_cons] at hfuel
    by_cases hc : c = []
    · obtain ⟨first, hfirst, hitems⟩ := hgroup group (by omega)
      obtain ⟨rest, hrest, hrestItems⟩ :
          ∃ rest, writeGroups width (some columns) fuel [] completions = some rest ∧
            items rest = [] ++ completions.filter fun c => c ≠ [] := ih (by simp; omega)
      refine ⟨first ++ rest, by simp [writeGroups, hc, hfirst, hrest], ?_⟩
      simpa [hc, hitems] using hrestItems
    · have hlength : (group ++ [c]).length + completions.length ≤ fuel := by
        simp only [List.length_append, List.length_singleton]
        omega
      obtain ⟨pieces, hpieces, hitems⟩ := ih hlength
      exact ⟨pieces, by simp [writeGroups, hc, hpieces], by simpa [hc] using hitems⟩

/-- Without a column no group that has an item ends. -/
theorem writeGroups_zero (h : writeGroups width (some 0) fuel group completions = some pieces) :
    group = [] ∧ ∀ c ∈ completions, c = [] := by
  have hgroup {group : List Str} {pieces : List Piece}
      (h : writeGroup width (some 0) fuel group = some pieces) : group = [] := by
    by_contra hne
    simp [writeGroup, hne, writeRows_zero] at h
  induction completions generalizing group pieces with
  | nil => exact ⟨hgroup h, by simp⟩
  | cons c completions ih =>
    unfold writeGroups at h
    split_ifs at h with hc
    · cases hfirst : writeGroup width (some 0) fuel group with
      | none => simp [hfirst] at h
      | some first =>
        simp only [hfirst] at h
        obtain ⟨rest, hrest, -⟩ := Option.map_eq_some_iff.mp h
        exact ⟨hgroup hfirst, List.forall_mem_cons.mpr ⟨hc, (ih hrest).2⟩⟩
    · exact absurd (ih h).1 (by simp)

/-- Of infinitely many columns no item is written. -/
theorem writeGroups_none (width fuel : ℕ) (group completions : List Str) :
    ∃ pieces, writeGroups width none fuel group completions = some pieces ∧ items pieces = [] := by
  have hgroup (group : List Str) :
      ∃ pieces, writeGroup width none fuel group = some pieces ∧ items pieces = [] := by
    unfold writeGroup
    split_ifs
    · exact ⟨[], rfl, rfl⟩
    · exact ⟨[.newline], rfl, rfl⟩
  induction completions generalizing group with
  | nil => exact hgroup group
  | cons c completions ih =>
    by_cases hc : c = []
    · obtain ⟨first, hfirst, hitems⟩ := hgroup group
      obtain ⟨rest, hrest, hrestItems⟩ := ih []
      exact ⟨first ++ rest, by simp [writeGroups, hc, hfirst, hrest], by simp [hitems, hrestItems]⟩
    · obtain ⟨pieces, hpieces, hitems⟩ := ih (group ++ [c])
      exact ⟨pieces, by simp [writeGroups, hc, hpieces], hitems⟩

theorem writeGroups_empty (maxColumns : Option ℕ) (h : ∀ c ∈ completions, c = []) :
    writeGroups width maxColumns fuel [] completions = some [] := by
  induction completions with
  | nil => rfl
  | cons c completions ih =>
    obtain ⟨hc, hrest⟩ := List.forall_mem_cons.mp h
    simp [writeGroups, writeGroup, hc, ih hrest]

theorem filter_nonempty_eq_nil : (completions.filter fun c => c ≠ []) = [] ↔ ∀ c ∈ completions, c = [] := by
  simp [List.filter_eq_nil_iff]

end Listing

/-! ### The listing of the interface -/

section Written

variable {group : List Str} {width columns : ℕ}

/-- What the cell of a row and a column holds. -/
def cellText (group : List Str) (width columns row col : ℕ) : List Written :=
  match group[row * columns + col]? with
  | none => []
  | some item =>
    .text item :: if col < columns - 1 then
      List.replicate (width - item.length) (.text [' ']) else []

theorem cellText_beyond {row col : ℕ} (h : group.length ≤ row * columns + col) :
    cellText group width columns row col = [] := by
  rw [cellText, List.getElem?_eq_none h]

theorem written_writeCells (row col n : ℕ) :
    (writeCells group width columns row (List.range' col n)).map Piece.written =
      (List.range' col n).flatMap (cellText group width columns row) := by
  induction n generalizing col with
  | zero => rfl
  | succ n ih =>
    rw [List.range'_succ, writeCells, List.flatMap_cons]
    cases hitem : group[row * columns + col]? with
    | none =>
      have hlength : group.length ≤ row * columns + col := List.getElem?_eq_none_iff.mp hitem
      have hrest : (List.range' (col + 1) n).flatMap (cellText group width columns row) = [] := by
        rw [List.flatMap_eq_nil_iff]
        intro next hnext
        have hafter := (List.mem_range'_1.mp hnext).1
        exact cellText_beyond (by omega)
      rw [hrest, cellText_beyond hlength]
      rfl
    | some item =>
      dsimp only
      rw [List.map_append, ih, cellText, hitem]
      split_ifs <;> simp [Piece.written]

theorem written_writeRow (row : ℕ) :
    (writeRow group width columns row).map Piece.written =
      (List.range columns).flatMap (cellText group width columns row) ++ [.text crlf] := by
  rw [writeRow, List.map_append, written_writeCells, ← List.range_eq_range']
  rfl

theorem written_writeRows (hcolumns : 0 < columns) {fuel row : ℕ} {pieces : List Piece}
    (h : writeRows group width columns fuel row = some pieces) :
    pieces.map Piece.written =
      (List.range' row ((group.length + columns - 1) / columns - row)).flatMap (fun row =>
        (List.range columns).flatMap (cellText group width columns row) ++ [.text crlf]) ++
          [.text crlf] := by
  have hbeyond (row : ℕ) : beyond row (minRows group.length columns) = true ↔
      (group.length + columns - 1) / columns ≤ row := by simp [minRows, beyond, hcolumns.ne']
  induction fuel generalizing row pieces with
  | zero =>
    simp only [writeRows, hbeyond] at h
    split_ifs at h with hdone
    cases h
    rw [Nat.sub_eq_zero_of_le hdone]
    rfl
  | succ fuel ih =>
    simp only [writeRows, hbeyond] at h
    split_ifs at h with hdone
    · cases h
      rw [Nat.sub_eq_zero_of_le hdone]
      rfl
    · obtain ⟨rest, hrest, rfl⟩ := Option.map_eq_some_iff.mp h
      have hmore : (group.length + columns - 1) / columns - row =
          (group.length + columns - 1) / columns - (row + 1) + 1 := by omega
      rw [List.map_append, written_writeRow, ih hrest, hmore, List.range'_succ, List.flatMap_cons,
        ← List.append_assoc]

theorem written_writeGroup {maxColumns : Option ℕ} {fuel : ℕ} {pieces : List Piece}
    (h : writeGroup width maxColumns fuel group = some pieces) :
    pieces.map Piece.written = handleGroup group width maxColumns := by
  unfold writeGroup at h
  unfold handleGroup
  split_ifs at h ⊢ with hempty
  · cases h
    rfl
  · rcases maxColumns with _ | columns
    · cases h
      rfl
    · rcases columns.eq_zero_or_pos with rfl | hcolumns
      · simp [writeRows_zero] at h
      · have hwritten := written_writeRows hcolumns h
        rw [Nat.sub_zero, ← List.range_eq_range'] at hwritten
        exact hwritten

theorem modifyHead_nil_append (groups : List (List Str)) :
    groups.modifyHead ([] ++ ·) = groups := by
  cases groups <;> simp

/-- A group that has been begun is the first one of the rest. -/
theorem written_writeGroups {maxColumns : Option ℕ} {fuel : ℕ} {completions : List Str}
    {pieces : List Piece} (h : writeGroups width maxColumns fuel group completions = some pieces) :
    pieces.map Piece.written = ((completions.splitOn []).modifyHead (group ++ ·)).flatMap
      fun group => handleGroup group width maxColumns := by
  induction completions generalizing group pieces with
  | nil => simpa using written_writeGroup h
  | cons c completions ih =>
    rw [List.splitOn_eq_splitOnP, List.splitOnP_cons_eq_if_modifyHead, ← List.splitOn_eq_splitOnP]
    unfold writeGroups at h
    split_ifs at h with hc
    · cases hfirst : writeGroup width maxColumns fuel group with
      | none => simp [hfirst] at h
      | some first =>
        simp only [hfirst] at h
        obtain ⟨rest, hrest, rfl⟩ := Option.map_eq_some_iff.mp h
        have hnext := ih hrest
        rw [modifyHead_nil_append] at hnext
        simp [hc, written_writeGroup hfirst, hnext]
    · simp [hc, ih h, List.modifyHead_modifyHead, Function.comp_def]

end Written

/-- The listing of the interface is that of the loops, or the loops do not end. -/
theorem listCompletions_eq (s : Interface) (completions : List Str) :
    (∃ fuel pieces, writeListing s.columns completions fuel = some pieces ∧
        s.listCompletions completions = s.put (pieces.map Piece.written)) ∨
      (∀ fuel, writeListing s.columns completions fuel = none) ∧
        (s.listCompletions completions).status = .looping := by
  by_cases hloops : (s.columns.map fun columns => columns / itemWidth completions) = some 0 ∧
      completions.any fun c => c ≠ []
  · have hlooping : s.listCompletions completions = { s.put [.text crlf] with status := .looping } :=
      if_pos hloops
    refine .inr ⟨fun fuel => ?_, by rw [hlooping]⟩
    obtain ⟨hzero, hany⟩ := hloops
    obtain ⟨c, hc, hne⟩ := List.any_eq_true.mp hany
    rw [writeListing, hzero, Option.map_eq_none_iff, Option.eq_none_iff_forall_ne_some]
    intro pieces hpieces
    exact of_decide_eq_true hne ((writeGroups_zero hpieces).2 c hc)
  · have hlisting : s.listCompletions completions = (s.put [.text crlf]).put
        ((completions.splitOn []).flatMap fun group => handleGroup group (itemWidth completions)
          (s.columns.map fun columns => columns / itemWidth completions)) := if_neg hloops
    obtain ⟨fuel, pieces, hpieces⟩ : ∃ fuel pieces, writeGroups (itemWidth completions)
        (s.columns.map fun columns => columns / itemWidth completions) fuel [] completions =
          some pieces := by
      cases hcolumns : s.columns.map fun columns => columns / itemWidth completions with
      | none =>
        obtain ⟨pieces, hpieces, -⟩ := writeGroups_none (itemWidth completions) 0 [] completions
        exact ⟨0, pieces, hpieces⟩
      | some columns =>
        rcases columns.eq_zero_or_pos with rfl | hpos
        · have hempty : ∀ c ∈ completions, c = [] := by
            simpa [hcolumns] using hloops
          exact ⟨0, [], writeGroups_empty _ hempty⟩
        · obtain ⟨pieces, hpieces, -⟩ :
              ∃ pieces, writeGroups (itemWidth completions) (some columns) completions.length []
                  completions = some pieces ∧
                items pieces = [] ++ completions.filter fun c => c ≠ [] :=
            writeGroups_ends hpos (by simp)
          exact ⟨completions.length, pieces, hpieces⟩
    refine .inl ⟨fuel, .newline :: pieces, by simp [writeListing, hpieces], ?_⟩
    have hwritten := written_writeGroups hpieces
    rw [modifyHead_nil_append] at hwritten
    rw [hlisting, ← hwritten]
    simp [Interface.put, Piece.written]

/-- The listing ends and writes every completion that is not empty once and in order, exactly when the
number of columns is known and the longest completion fits in it with two spaces, or there is
nothing to write. -/
theorem listing_complete_iff (columns : Option ℕ) (completions : List Str) :
    (∃ fuel pieces, writeListing columns completions fuel = some pieces ∧
        items pieces = completions.filter fun c => c ≠ []) ↔
      (∃ n, columns = some n ∧ itemWidth completions ≤ n) ∨ ∀ c ∈ completions, c = [] := by
  have hwidth : 0 < itemWidth completions := by simp [itemWidth]
  constructor
  · rintro ⟨fuel, pieces, hpieces, hitems⟩
    obtain ⟨rest, hrest, rfl⟩ := Option.map_eq_some_iff.mp hpieces
    rw [items_newline] at hitems
    rcases columns with _ | n
    · obtain ⟨written, hwritten, hnone⟩ :=
        writeGroups_none (itemWidth completions) fuel [] completions
      rw [Option.map_none, hwritten, Option.some.injEq] at hrest
      rw [← hrest, hnone] at hitems
      exact .inr (filter_nonempty_eq_nil.mp hitems.symm)
    · by_cases hfits : itemWidth completions ≤ n
      · exact .inl ⟨n, rfl, hfits⟩
      · have hzero : n / itemWidth completions = 0 := Nat.div_eq_of_lt (by omega)
        rw [Option.map_some, hzero] at hrest
        exact .inr (writeGroups_zero hrest).2
  · rintro (⟨n, rfl, hfits⟩ | hempty)
    · obtain ⟨pieces, hpieces, hitems⟩ :
          ∃ pieces, writeGroups (itemWidth completions) (some (n / itemWidth completions))
              completions.length [] completions = some pieces ∧
            items pieces = [] ++ completions.filter fun c => c ≠ [] :=
        writeGroups_ends (Nat.div_pos hfits hwidth) (by simp)
      exact ⟨completions.length, .newline :: pieces, by simp [writeListing, hpieces], by simpa using hitems⟩
    · exact ⟨0, [.newline], by simp [writeListing, writeGroups_empty _ hempty],
        (filter_nonempty_eq_nil.mpr hempty).symm⟩

/-- On a screen of three columns two completions of two characters are listed without end. -/
theorem listing_complete_broken :
    ¬ ∀ (columns : Option ℕ) (completions : List Str), columns ≠ some 0 → 2 ≤ completions.length →
      ∃ fuel pieces, writeListing columns completions fuel = some pieces ∧
        items pieces = completions.filter fun c => c ≠ [] := by
  intro h
  obtain ⟨fuel, pieces, hpieces, -⟩ :=
    h (some 3) ["ls".toList, "ln".toList] (by decide) (by decide)
  obtain ⟨rest, hrest, -⟩ := Option.map_eq_some_iff.mp hpieces
  have hzero : (some 3).map (fun columns => columns / itemWidth ["ls".toList, "ln".toList]) = some 0 := by
    decide
  rw [hzero] at hrest
  exact absurd ((writeGroups_zero hrest).2 "ls".toList (by simp)) (by decide)

end LuaNode.Readline
