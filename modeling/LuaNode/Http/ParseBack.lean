import LuaNode.Http.HeaderBlock
import LuaNode.Library.Separators

/-!
# Reading a header block back

A recipient splits the block at every CRLF and each line at its first ": ". `_storeHeader` puts names
and values into the block as they are, and looks for no separator in them: what comes back is what
went in exactly when there is none.
-/

namespace LuaNode

/-- The lines of a text, with one more behind the last CRLF. -/
def splitLines : Str → List Str := splitPieces '\r' '\n'

/-- The name and the value of a line. -/
def splitField : Str → Option (Str × Str) := breakFirst ':' ' '

/-- The block consists of the first line, a line for each pair and the empty line. -/
def ParsesBack (block firstLine : Str) (pairs : List (Str × Str)) : Prop :=
  ∃ fields, splitLines block = firstLine :: (fields ++ [[], []]) ∧
    fields.map splitField = pairs.map some

/-- No separator in the name, and none of lines in the value. -/
structure Separable (l : Str × Str) : Prop where
  name : ¬crlf <:+: l.1
  field : ¬": ".toList <:+: l.1
  value : ¬crlf <:+: l.2

instance decidableSeparable (l : Str × Str) : Decidable (Separable l) :=
  decidable_of_iff (¬crlf <:+: l.1 ∧ ¬": ".toList <:+: l.1 ∧ ¬crlf <:+: l.2)
    ⟨fun h => ⟨h.1, h.2.1, h.2.2⟩, fun h => ⟨h.name, h.field, h.value⟩⟩

/-- A header line without its CRLF. -/
def fieldText (l : Str × Str) : Str := l.1 ++ ": ".toList ++ l.2

theorem splitField_iff (l : Str × Str) :
    splitField (fieldText l) = some l ↔ ¬": ".toList <:+: l.1 := by
  unfold splitField fieldText
  rw [List.append_assoc]
  exact breakFirst_append (by decide) l.1 l.2

/-- A separator of lines in the line is one in the name or one in the value. -/
theorem crlf_infix_field (l : Str × Str) :
    crlf <:+: fieldText l ↔ crlf <:+: l.1 ∨ crlf <:+: l.2 := by
  have htext : fieldText l = l.1 ++ ':' :: ([] ++ ' ' :: l.2) := by simp [fieldText]
  have hempty : ¬crlf <:+: [] := fun h => absurd h.length_le (by simp [crlf])
  have hspace := infix_append_cons (a := '\r') (b := '\n') (c := ' ') (by decide) (by decide) [] l.2
  rw [htext]
  exact (infix_append_cons (by decide) (by decide) l.1 _).trans
    (or_congr_right (hspace.trans (or_iff_right hempty)))

theorem splitLines_crlf (l r : Str) : splitLines (l ++ crlf ++ r) = splitLines l ++ splitLines r := by
  rw [List.append_assoc]
  exact splitPieces_append (by decide) l r

theorem splitLines_block (pairs : List (Str × Str)) (r : Str) :
    splitLines (blockText pairs ++ r) = pairs.flatMap (fun l => splitLines (fieldText l)) ++
      splitLines r := by
  induction pairs with
  | nil => rfl
  | cons l pairs ih =>
    have htext : blockText (l :: pairs) ++ r = fieldText l ++ crlf ++ (blockText pairs ++ r) := by
      simp [blockText, headerLine, fieldText]
    rw [htext, splitLines_crlf, ih, List.flatMap_cons, List.append_assoc]

/-- A text without a separator is one line. -/
theorem length_splitLines (l : Str) :
    1 ≤ (splitLines l).length ∧ ((splitLines l).length = 1 ↔ ¬crlf <:+: l) :=
  ⟨List.length_pos_of_ne_nil (splitPieces_ne_nil l), length_splitPieces_iff l⟩

/-- As many lines as pairs: every pair has one. -/
theorem flatMap_splitLines {pairs : List (Str × Str)} :
    pairs.length ≤ (pairs.flatMap fun l => splitLines (fieldText l)).length ∧
    ((pairs.flatMap fun l => splitLines (fieldText l)).length = pairs.length →
      ∀ l ∈ pairs, ¬crlf <:+: fieldText l) := by
  induction pairs with
  | nil => simp
  | cons l pairs ih =>
    obtain ⟨hpos, hone⟩ := length_splitLines (fieldText l)
    rw [List.flatMap_cons, List.length_append, List.length_cons, List.forall_mem_cons, ← hone]
    refine ⟨by omega, fun h => ⟨by omega, ih.2 (by omega)⟩⟩

theorem parsesBack_block {firstLine : Str} (hfirst : ¬crlf <:+: firstLine)
    (pairs : List (Str × Str)) :
    ParsesBack (firstLine ++ crlf ++ blockText pairs ++ crlf) firstLine pairs ↔
      ∀ l ∈ pairs, Separable l := by
  have hsplit : splitLines (firstLine ++ crlf ++ blockText pairs ++ crlf) =
      firstLine :: (pairs.flatMap (fun l => splitLines (fieldText l)) ++ [[], []]) := by
    have hone : splitLines firstLine = [firstLine] := splitPieces_eq hfirst
    rw [List.append_assoc (firstLine ++ crlf), splitLines_crlf, splitLines_block, hone]
    rfl
  have hwhole (hlines : ∀ l ∈ pairs, ¬crlf <:+: fieldText l) :
      pairs.flatMap (fun l => splitLines (fieldText l)) = pairs.map fieldText := by
    rw [← List.flatMap_singleton' (pairs.map fieldText), List.flatMap_map]
    exact List.flatMap_congr fun l hl => splitPieces_eq (hlines l hl)
  unfold ParsesBack
  rw [hsplit]
  constructor
  · rintro ⟨fields, hfields, hpairs⟩
    have hsame := List.append_cancel_right (List.cons.inj hfields).2
    have hlength : (pairs.flatMap fun l => splitLines (fieldText l)).length = pairs.length := by
      rw [hsame, ← List.length_map (f := splitField), hpairs, List.length_map]
    have hlines := flatMap_splitLines.2 hlength
    rw [← hsame, hwhole hlines, List.map_map] at hpairs
    intro l hl
    have hnone := not_or.mp (mt (crlf_infix_field l).mpr (hlines l hl))
    exact ⟨hnone.1, (splitField_iff l).mp (List.map_inj_left.mp hpairs l hl), hnone.2⟩
  · intro h
    have hlines : ∀ l ∈ pairs, ¬crlf <:+: fieldText l := fun l hl hsep =>
      ((crlf_infix_field l).mp hsep).elim (h l hl).name (h l hl).value
    refine ⟨_, rfl, ?_⟩
    rw [hwhole hlines, List.map_map]
    exact List.map_congr_left fun l hl => (splitField_iff l).mpr (h l hl).field

/-! ### The block of a message -/

/-- A date has no line break. -/
theorem automatic_separable {m : OutgoingMessage} (hdate : ¬crlf <:+: m.runtime.date)
    (lines : List (Str × Scalar)) : ∀ l ∈ automatic m lines, Separable l := by
  have hdates (sent : Bool) : ∀ l ∈ dateLines m sent, Separable l := by
    unfold dateLines
    split_ifs
    · intro l hl
      rw [List.mem_singleton.mp hl]
      have hname : ¬crlf <:+: "Date".toList ∧ ¬": ".toList <:+: "Date".toList := by decide
      exact ⟨hname.1, hname.2, hdate⟩
    · simp
  have hconnections (sent length : Bool) : ∀ l ∈ connectionLines m sent length, Separable l := by
    unfold connectionLines
    split_ifs <;> decide
  have hencodings (length sent : Bool) : ∀ l ∈ encodingLines m length sent, Separable l := by
    unfold encodingLines
    split_ifs <;> decide
  intro l hl
  rcases List.mem_append.mp hl with hl | hl
  · rcases List.mem_append.mp hl with hl | hl
    · exact hdates _ l hl
    · exact hconnections _ _ l hl
  · exact hencodings _ _ l hl

namespace OutgoingMessage

/-- The lines that a header table has in the block, in the order in which they are stored. -/
def tableLines (m : OutgoingMessage) (headers : HeaderTable) : List (Str × Scalar) :=
  headerLines (headers.walk m.runtime)

/-- When `_storeHeader` takes a header table behind a first line, its block reads back as the lines of
the table and those that it adds of its own, exactly when no line of the table has a separator in it. -/
theorem parsesBack_iff (m : OutgoingMessage) (s : Socket) {firstLine : Str} (headers : HeaderTable)
    {r : Option Bool} (hcr : '\r' ∉ firstLine) (hdate : ¬crlf <:+: m.runtime.date)
    (hstored : (m.storeHeader s (firstLine ++ crlf) headers).ret = .ok r) :
    ∃ block, (m.storeHeader s (firstLine ++ crlf) headers).self.header = some block ∧
      (ParsesBack block firstLine
          (lineTexts (m.tableLines headers) ++ automatic m (m.tableLines headers)) ↔
        ∀ l ∈ lineTexts (m.tableLines headers), Separable l) := by
  rw [storeHeader_eq] at hstored ⊢
  rcases hblock : m.renderBlock (firstLine ++ crlf) headers with ⟨err, m'⟩ | ⟨m', early⟩
  · rw [hblock] at hstored
    cases hstored
  · obtain ⟨hframe, hsome, -⟩ := renderBlock_ok hblock
    obtain ⟨-, -, hbody, -⟩ := sendBlock_ok s rfl hframe hsome
    obtain ⟨-, rfl, -⟩ := (renderBlock_iff ..).mp hblock
    refine ⟨_, congrArg OutgoingMessage.header hbody, ?_⟩
    have hfirst : ¬crlf <:+: firstLine := fun h => hcr (h.subset (by decide))
    have hall := parsesBack_block hfirst (blockLines m (m.tableLines headers))
    unfold blockLines at hall
    rw [List.forall_mem_append] at hall
    exact hall.trans (and_iff_left (automatic_separable hdate _))

theorem parsesBack_plain :
    ∃ block, ((init 0 .serverResponse (.inOrder [])).storeHeader (.fresh [])
      ("HTTP/1.1 200 OK".toList ++ crlf)
      (.map [("X".toList, .one (.str "a: b".toList))])).self.header = some block ∧
    ParsesBack block "HTTP/1.1 200 OK".toList [("X".toList, "a: b".toList),
      ("Connection".toList, "keep-alive".toList),
      ("Transfer-Encoding".toList, "chunked".toList)] := by
  have hfirst : '\r' ∉ "HTTP/1.1 200 OK".toList := by decide
  obtain ⟨block, hheader, hiff⟩ := parsesBack_iff (init 0 .serverResponse (.inOrder []))
    (.fresh []) (.map [("X".toList, .one (.str "a: b".toList))]) hfirst (by decide) rfl
  exact ⟨block, hheader, hiff.mpr (by decide)⟩

/-- A value with a line break in it is the line of another header. -/
theorem parsesBack_split :
    ∃ block, ((init 0 .serverResponse (.inOrder [])).storeHeader (.fresh [])
      ("HTTP/1.1 200 OK".toList ++ crlf)
      (.map [("X".toList, .one (.str "a\r\nSet-Cookie: b".toList))])).self.header = some block ∧
    ¬ParsesBack block "HTTP/1.1 200 OK".toList [("X".toList, "a\r\nSet-Cookie: b".toList),
      ("Connection".toList, "keep-alive".toList),
      ("Transfer-Encoding".toList, "chunked".toList)] := by
  refine ⟨_, rfl, fun h => ?_⟩
  have hfirst : ¬crlf <:+: "HTTP/1.1 200 OK".toList := by decide
  have hall := (parsesBack_block hfirst [("X".toList, "a\r\nSet-Cookie: b".toList),
    ("Connection".toList, "keep-alive".toList), ("Transfer-Encoding".toList, "chunked".toList)]).mp h
  exact absurd (hall _ (List.mem_cons_self ..)) (by decide)

end OutgoingMessage

end LuaNode
