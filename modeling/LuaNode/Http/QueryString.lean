import LuaNode.Library.Delimiter
import LuaNode.Library.LuaStack
import LuaNode.Library.PercentCoding
import LuaNode.Library.Words
import Mathlib.Logic.Function.Basic

/-!
# Query strings

`url_encode_arguments` writes a table as `key=value` pairs with `&` between them, and `parse` reads the
pairs of a query string into a table. The decoder, which comes from another library than the encoder,
makes a line feed of every CRLF: the table comes back exactly when there is no CRLF in it.
-/

namespace LuaNode.QueryString

/-- `[A-Za-z0-9_]`. -/
def unreserved (c : Char) : Bool := c.isAlphanum || c = '_'

/-- `Url.escape`. -/
def escape (s : Str) : Str := percentEncode unreserved s

/-- `url_encode_arguments`, for the pairs in the order in which `pairs` finds them. -/
def urlEncodeArguments (arguments : List (Str × Str)) : Str :=
  ['&'].intercalate (arguments.map fun argument => escape argument.1 ++ '=' :: escape argument.2)

/-- `s:gsub("\r\n", "\n")`. -/
def crlfToLf : Str → Str
  | '\r' :: '\n' :: s => '\n' :: crlfToLf s
  | c :: s => c :: crlfToLf s
  | [] => []

/-- `url_decode`, of a string. -/
def urlDecode (str : Str) : Str :=
  let str := str.map fun c => if c = '+' then ' ' else c
  crlfToLf (percentDecode str)

/-- `[&=]`. -/
def isDelim (c : Char) : Bool := c = '&' || c = '='

/-- The captures of `([^&=]+)=([^&=]*)&?` at the beginning of a string, and what is behind the match. -/
def matchField (s : Str) : Option (Str × Str × Str) :=
  let key := s.takeWhile fun c => !isDelim c
  match s.dropWhile fun c => !isDelim c with
  | '=' :: behind =>
    if key = [] then none
    else
      let val := behind.takeWhile fun c => !isDelim c
      match behind.dropWhile fun c => !isDelim c with
      | '&' :: rest => some (key, val, rest)
      | rest => some (key, val, rest)
  | _ => none

/-- `string.gmatch(qs, "([^&=]+)=([^&=]*)&?")`; the first argument counts the characters of the last match
that are still to be passed over. -/
def gmatchFields : ℕ → Str → List (Str × Str)
  | _, [] => []
  | passed + 1, _ :: s => gmatchFields passed s
  | 0, c :: s =>
    match matchField (c :: s) with
    | none => gmatchFields 0 s
    | some (key, val, rest) => (key, val) :: gmatchFields (s.length - rest.length) s

/-- What is in a field of the table. -/
inductive FieldValue
  | one (value : Str)
  | many (values : List Str)

abbrev Fields := Str → Option FieldValue

def insertField (overwrite : Bool) (tab : Fields) (name value : Str) : Fields :=
  let field :=
    if overwrite then .one value
    else
      match tab name with
      | none => .one value
      | some (.many values) => .many (values ++ [value])
      | some (.one first) => .many [first, value]
  Function.update tab name (some field)

def parse (qs : LuaValue) (tab : Option Fields) (overwrite : Bool) : Except Str Fields :=
  let tab := tab.getD fun _ => none
  match qs with
  | .string qs =>
    .ok ((gmatchFields 0 qs).foldl
      (fun tab field => insertField overwrite tab (urlDecode field.1) (urlDecode field.2)) tab)
  | .nil => .ok tab
  | .boolean false => .ok tab
  | _ => .error "luanode.querystring.parse: invalid query string".toList

/-- A table from strings that are not empty to strings, with its pairs in some order. -/
structure Arguments where
  entries : List (Str × Str)
  nodup : (entries.map Prod.fst).Nodup
  named : ∀ entry ∈ entries, entry.1 ≠ []
  bytes : ∀ entry ∈ entries, (∀ c ∈ entry.1, c.toNat < 256) ∧ ∀ c ∈ entry.2, c.toNat < 256

def Arguments.table (t : Arguments) : Fields := fun name => (t.entries.lookup name).map .one

/-! ### Line ends -/

theorem crlfToLf_length_le (s : Str) : (crlfToLf s).length ≤ s.length := by
  fun_induction crlfToLf s with
  | case1 s ih =>
    rw [List.length_cons, List.length_cons, List.length_cons]
    omega
  | case2 c s hnot ih =>
    rw [List.length_cons, List.length_cons]
    omega
  | case3 => exact le_rfl

/-- A string keeps its length only where it has no CRLF. -/
theorem crlfToLf_length_iff (s : Str) : (crlfToLf s).length = s.length ↔ ¬crlf <:+: s := by
  fun_induction crlfToLf s with
  | case1 s ih =>
    have hle := crlfToLf_length_le s
    refine iff_of_false ?_ (not_not.mpr ⟨[], s, rfl⟩)
    rw [List.length_cons, List.length_cons, List.length_cons]
    omega
  | case2 c s hnot ih =>
    have hcons : crlf <:+: c :: s ↔ crlf <:+: s := by
      rw [List.infix_cons_iff, or_iff_right]
      rintro ⟨rest, hrest⟩
      obtain ⟨rfl, rfl⟩ := List.cons_eq_cons.mp hrest
      exact hnot rest rfl rfl
    rw [List.length_cons, List.length_cons, hcons, ← ih]
    omega
  | case3 => simp [crlf]

theorem crlfToLf_eq_iff (s : Str) : crlfToLf s = s ↔ ¬crlf <:+: s := by
  constructor
  · intro h
    exact (crlfToLf_length_iff s).mp (congrArg List.length h)
  · intro h
    fun_induction crlfToLf s with
    | case1 s ih => exact absurd ⟨[], s, rfl⟩ h
    | case2 c s hnot ih => rw [ih fun hin => h (hin.trans (List.suffix_cons c s).isInfix)]
    | case3 => rfl

/-! ### Reading the pairs -/

theorem isDelim_of_unreserved {c : Char} (h : unreserved c = true) : isDelim c = false ∧ c ≠ '+' := by
  have hamp : c ≠ '&' := by
    rintro rfl
    exact absurd h (by decide)
  have heq : c ≠ '=' := by
    rintro rfl
    exact absurd h (by decide)
  have hplus : c ≠ '+' := by
    rintro rfl
    exact absurd h (by decide)
  exact ⟨by simp [isDelim, hamp, heq], hplus⟩

/-- Neither a delimiter nor a plus sign is in an escaped string. -/
theorem escape_plain {s : Str} (h : ∀ c ∈ s, c.toNat < 256) :
    ∀ c ∈ escape s, isDelim c = false ∧ c ≠ '+' := by
  have hdigit : ∀ d < 16, isDelim d.digitChar = false ∧ d.digitChar ≠ '+' := by decide
  exact forall_mem_percentEncode (fun _ => isDelim_of_unreserved) (by decide) hdigit h

/-- An escaped string is decoded to itself, but for its line ends. -/
theorem urlDecode_escape {s : Str} (h : ∀ c ∈ s, c.toNat < 256) : urlDecode (escape s) = crlfToLf s := by
  have hmap : ((escape s).map fun c => if c = '+' then ' ' else c) = escape s := by
    refine (List.map_congr_left fun c hc => ?_).trans (List.map_id _)
    rw [if_neg (escape_plain h c hc).2]
    rfl
  have hdecode : percentDecode (escape s) = s := percentDecode_encode (by decide) h
  unfold urlDecode
  rw [hmap]
  exact congrArg crlfToLf hdecode

theorem gmatchFields_passed (passed : ℕ) (s : Str) :
    gmatchFields passed s = gmatchFields 0 (s.drop passed) := by
  induction s generalizing passed with
  | nil => simp [gmatchFields]
  | cons c s ih =>
    cases passed with
    | zero => rfl
    | succ passed => rw [gmatchFields, ih, List.drop_succ_cons]

section Pair

variable {key val rest tail : Str} (hkey : ∀ c ∈ key, isDelim c = false)
  (hval : ∀ c ∈ val, isDelim c = false) (htail : tail = '&' :: rest ∨ tail = [] ∧ rest = [])

include hkey hval htail

theorem matchField_pair (hne : key ≠ []) :
    matchField (key ++ '=' :: (val ++ tail)) = some (key, val, rest) := by
  have hkey' : ∀ c ∈ key, (!isDelim c) = true := fun c hc => by simp [hkey c hc]
  have hval' : ∀ c ∈ val, (!isDelim c) = true := fun c hc => by simp [hval c hc]
  have hequals : ∀ c ∈ ('=' :: (val ++ tail)).head?, (!isDelim c) = false := by simp [isDelim]
  have hstop : ∀ c ∈ tail.head?, (!isDelim c) = false := by
    rcases htail with rfl | ⟨rfl, -⟩ <;> simp [isDelim]
  simp only [matchField]
  rw [takeWhile_append_stop hkey' hequals, dropWhile_append_stop hkey' hequals]
  simp only
  rw [if_neg hne, takeWhile_append_stop hval' hstop, dropWhile_append_stop hval' hstop]
  rcases htail with rfl | ⟨rfl, rfl⟩ <;> rfl

/-- A pair is read, and then those behind it. -/
theorem gmatchFields_pair (hne : key ≠ []) :
    gmatchFields 0 (key ++ '=' :: (val ++ tail)) = (key, val) :: gmatchFields 0 rest := by
  have hmatch := matchField_pair hkey hval htail hne
  obtain ⟨before, hbefore⟩ : ∃ before, val ++ tail = before ++ rest := by
    rcases htail with rfl | ⟨rfl, rfl⟩
    · exact ⟨val ++ ['&'], by simp⟩
    · exact ⟨val, rfl⟩
  cases key with
  | nil => exact absurd rfl hne
  | cons c key =>
    rw [List.cons_append] at hmatch ⊢
    rw [gmatchFields, hmatch]
    simp only
    have hlength : (key ++ '=' :: (val ++ tail)).length - rest.length = (key ++ '=' :: before).length := by
      rw [hbefore]
      simp only [List.length_append, List.length_cons]
      omega
    have hassoc : key ++ '=' :: (before ++ rest) = (key ++ '=' :: before) ++ rest := by simp
    rw [gmatchFields_passed, hlength, hbefore, hassoc, List.drop_left]

end Pair

/-- The pairs of an encoded table are read in their order. -/
theorem gmatchFields_encode {arguments : List (Str × Str)} (hnamed : ∀ argument ∈ arguments, argument.1 ≠ [])
    (hbytes : ∀ argument ∈ arguments,
      (∀ c ∈ argument.1, c.toNat < 256) ∧ ∀ c ∈ argument.2, c.toNat < 256) :
    gmatchFields 0 (urlEncodeArguments arguments) =
      arguments.map fun argument => (escape argument.1, escape argument.2) := by
  induction arguments with
  | nil => rfl
  | cons argument arguments ih =>
    obtain ⟨hfirst, hrest⟩ := List.forall_mem_cons.mp hnamed
    obtain ⟨⟨hkeyBytes, hvalBytes⟩, hrestBytes⟩ := List.forall_mem_cons.mp hbytes
    have hkey : ∀ c ∈ escape argument.1, isDelim c = false := fun c hc => (escape_plain hkeyBytes c hc).1
    have hval : ∀ c ∈ escape argument.2, isDelim c = false := fun c hc => (escape_plain hvalBytes c hc).1
    have hne : escape argument.1 ≠ [] := percentEncode_ne_nil hfirst
    have hbehind := ih hrest hrestBytes
    cases arguments with
    | nil =>
      have hend : ([] : Str) = '&' :: [] ∨ ([] : Str) = [] ∧ ([] : Str) = [] := .inr ⟨rfl, rfl⟩
      have hpair := gmatchFields_pair hkey hval hend hne
      simpa [urlEncodeArguments, gmatchFields] using hpair
    | cons second arguments =>
      let behind := urlEncodeArguments (second :: arguments)
      have htail : '&' :: behind = '&' :: behind ∨ '&' :: behind = [] ∧ behind = [] := .inl rfl
      have hpair := gmatchFields_pair hkey hval htail hne
      rw [hbehind] at hpair
      simpa [urlEncodeArguments, behind] using hpair

/-! ### Tables -/

theorem lookup_of_mem {entries : List (Str × Str)} (h : (entries.map Prod.fst).Nodup) {name value : Str}
    (hmem : (name, value) ∈ entries) : entries.lookup name = some value := by
  induction entries with
  | nil => simp at hmem
  | cons entry entries ih =>
    obtain ⟨hfresh, hnodup⟩ := List.nodup_cons.mp h
    rcases List.mem_cons.mp hmem with rfl | hmem
    · exact List.lookup_cons_self
    · have hne : (name == entry.1) = false := by
        rw [beq_eq_false_iff_ne]
        rintro rfl
        exact hfresh (List.mem_map.mpr ⟨_, hmem, rfl⟩)
      rw [List.lookup_cons, hne]
      exact ih hnodup hmem

/-- The fields of a table after those of a list. -/
def insertAll (tab : Fields) (fields : List (Str × Str)) : Fields :=
  fields.foldl (fun tab field => insertField false tab field.1 field.2) tab

theorem isSome_insertField (tab : Fields) (name value other : Str) :
    (insertField false tab name value other).isSome = true ↔ (tab other).isSome = true ∨ other = name := by
  by_cases hother : other = name
  · simp [insertField, hother]
  · simp [insertField, hother]

/-- Every field has a value, and nothing else has. -/
theorem isSome_insertAll (tab : Fields) (fields : List (Str × Str)) (name : Str) :
    (insertAll tab fields name).isSome = true ↔
      (tab name).isSome = true ∨ name ∈ fields.map Prod.fst := by
  induction fields generalizing tab with
  | nil => simp [insertAll]
  | cons field fields ih =>
    have hstep : insertAll tab (field :: fields) =
        insertAll (insertField false tab field.1 field.2) fields := rfl
    rw [hstep, ih, isSome_insertField, List.map_cons, List.mem_cons, or_assoc]

/-- Fields of different names that the table does not have yet. -/
theorem insertAll_eq (tab : Fields) {fields : List (Str × Str)} (h : (fields.map Prod.fst).Nodup)
    (hfresh : ∀ field ∈ fields, tab field.1 = none) (name : Str) :
    insertAll tab fields name = ((fields.lookup name).map .one).or (tab name) := by
  induction fields generalizing tab with
  | nil => rfl
  | cons field fields ih =>
    obtain ⟨hnot, hnodup⟩ := List.nodup_cons.mp h
    obtain ⟨hfirst, hrest⟩ := List.forall_mem_cons.mp hfresh
    have hinsert : insertField false tab field.1 field.2 =
        Function.update tab field.1 (some (.one field.2)) := by
      simp [insertField, hfirst]
    have hstep : insertAll tab (field :: fields) =
        insertAll (Function.update tab field.1 (some (.one field.2))) fields := by
      rw [← hinsert]
      rfl
    have hfresh' : ∀ other ∈ fields,
        Function.update tab field.1 (some (.one field.2)) other.1 = none := by
      intro other hother
      have hne : other.1 ≠ field.1 := fun heq => hnot (heq ▸ List.mem_map_of_mem hother)
      rw [Function.update_of_ne hne]
      exact hrest other hother
    rw [hstep, ih _ hnodup hfresh', List.lookup_cons]
    by_cases hname : name = field.1
    · have hnone : fields.lookup name = none := by
        rw [List.lookup_eq_none_iff]
        intro other hother
        have hne : other.1 ≠ field.1 := fun heq => hnot (heq ▸ List.mem_map_of_mem hother)
        simpa [hname] using Ne.symm hne
      simp [hname, hname ▸ hnone]
    · rw [Function.update_of_ne hname, beq_eq_false_iff_ne.mpr hname]

/-- Where every key is what becomes of some key, and a key that is changed gets shorter, no key is
changed. -/
theorem fixed_of_onto {keys : List Str} {f : Str → Str}
    (hshort : ∀ s, f s ≠ s → (f s).length < s.length)
    (honto : ∀ key ∈ keys, ∃ source ∈ keys, f source = key) : ∀ key ∈ keys, f key = key := by
  by_contra! hchanged
  -- there would be keys of any length
  have hlong : ∀ n : ℕ, ∃ key ∈ keys, f key ≠ key ∧ n ≤ key.length := by
    intro n
    induction n with
    | zero =>
      obtain ⟨key, hkey, hne⟩ := hchanged
      exact ⟨key, hkey, hne, Nat.zero_le _⟩
    | succ n ih =>
      obtain ⟨key, hkey, hne, hlength⟩ := ih
      obtain ⟨source, hsource, rfl⟩ := honto key hkey
      have hsourceChanged : f source ≠ source := fun heq => hne (congrArg f heq)
      have hshorter := hshort source hsourceChanged
      exact ⟨source, hsource, hsourceChanged, by omega⟩
  obtain ⟨bound, hbound⟩ : ∃ bound, ∀ key ∈ keys, key.length ≤ bound := by
    clear hchanged honto hlong
    induction keys with
    | nil => exact ⟨0, by simp⟩
    | cons key keys ih =>
      obtain ⟨bound, hbound⟩ := ih
      refine ⟨max key.length bound, List.forall_mem_cons.mpr ⟨le_max_left _ _, fun other hother => ?_⟩⟩
      exact (hbound other hother).trans (le_max_right _ _)
  obtain ⟨key, hkey, -, hlength⟩ := hlong (bound + 1)
  have hle := hbound key hkey
  omega

/-! ### Every table -/

/-- An encoded table is parsed as the table whose line ends are decoded. -/
theorem parse_encode (t : Arguments) :
    parse (.string (urlEncodeArguments t.entries)) none false =
      .ok (insertAll (fun _ => none)
        (t.entries.map fun entry => (crlfToLf entry.1, crlfToLf entry.2))) := by
  have hfold : ∀ entries : List (Str × Str),
      (∀ entry ∈ entries, (∀ c ∈ entry.1, c.toNat < 256) ∧ ∀ c ∈ entry.2, c.toNat < 256) →
      (entries.map fun entry => (urlDecode (escape entry.1), urlDecode (escape entry.2))) =
        entries.map fun entry => (crlfToLf entry.1, crlfToLf entry.2) := by
    intro entries hbytes
    refine List.map_congr_left fun entry hentry => ?_
    rw [urlDecode_escape (hbytes entry hentry).1, urlDecode_escape (hbytes entry hentry).2]
  rw [← hfold t.entries t.bytes]
  simp only [parse, gmatchFields_encode t.named t.bytes, insertAll, List.foldl_map, Option.getD_none]

theorem crlfToLf_shortens (s : Str) (h : crlfToLf s ≠ s) : (crlfToLf s).length < s.length := by
  have hlength : (crlfToLf s).length ≠ s.length := by
    intro heq
    exact h ((crlfToLf_eq_iff s).mpr ((crlfToLf_length_iff s).mp heq))
  have hle := crlfToLf_length_le s
  omega

/-- Where the table comes back, so do its keys. -/
theorem keys_unchanged {t : Arguments}
    (h : insertAll (fun _ => none)
      (t.entries.map fun entry => (crlfToLf entry.1, crlfToLf entry.2)) = t.table) :
    ∀ key ∈ t.entries.map Prod.fst, crlfToLf key = key := by
  refine fixed_of_onto crlfToLf_shortens fun key hkey => ?_
  obtain ⟨entry, hentry, rfl⟩ := List.mem_map.mp hkey
  have hsome : (t.table entry.1).isSome = true := by
    rw [Arguments.table, lookup_of_mem t.nodup hentry]
    rfl
  rw [← h, isSome_insertAll] at hsome
  have hmem := hsome.resolve_left (by simp)
  obtain ⟨field, hfield, heq⟩ := List.mem_map.mp hmem
  obtain ⟨source, hsource, rfl⟩ := List.mem_map.mp hfield
  exact ⟨source.1, List.mem_map_of_mem hsource, heq⟩

/-- With its keys, its values come back. -/
theorem values_unchanged {t : Arguments}
    (h : insertAll (fun _ => none)
      (t.entries.map fun entry => (crlfToLf entry.1, crlfToLf entry.2)) = t.table) :
    ∀ entry ∈ t.entries, crlfToLf entry.2 = entry.2 := by
  have hkeys := keys_unchanged h
  have hmap : (t.entries.map fun entry => (crlfToLf entry.1, crlfToLf entry.2)) =
      t.entries.map fun entry => (entry.1, crlfToLf entry.2) :=
    List.map_congr_left fun entry hentry => by rw [hkeys _ (List.mem_map_of_mem hentry)]
  have hnodup : ((t.entries.map fun entry => (entry.1, crlfToLf entry.2)).map Prod.fst).Nodup := by
    rw [List.map_map]
    exact t.nodup
  intro entry hentry
  have hmem : (entry.1, crlfToLf entry.2) ∈
      t.entries.map fun entry => (entry.1, crlfToLf entry.2) := List.mem_map_of_mem hentry
  have hfield := congrFun h entry.1
  rw [hmap, insertAll_eq _ hnodup (by simp), lookup_of_mem hnodup hmem, Arguments.table,
    lookup_of_mem t.nodup hentry] at hfield
  simpa using hfield

/-- A table without CRLF is inserted as it is. -/
theorem insertAll_unchanged {t : Arguments}
    (h : ∀ entry ∈ t.entries, ¬crlf <:+: entry.1 ∧ ¬crlf <:+: entry.2) :
    insertAll (fun _ => none)
      (t.entries.map fun entry => (crlfToLf entry.1, crlfToLf entry.2)) = t.table := by
  have hmap : (t.entries.map fun entry => (crlfToLf entry.1, crlfToLf entry.2)) = t.entries := by
    refine (List.map_congr_left fun entry hentry => ?_).trans (List.map_id _)
    rw [(crlfToLf_eq_iff _).mpr (h entry hentry).1, (crlfToLf_eq_iff _).mpr (h entry hentry).2]
    rfl
  rw [hmap]
  funext name
  rw [insertAll_eq _ t.nodup (by simp), Option.or_none]
  rfl

/-- A table comes back exactly when there is no CRLF in its keys and its values. -/
theorem parse_encode_iff (t : Arguments) :
    parse (.string (urlEncodeArguments t.entries)) none false = .ok t.table ↔
      ∀ entry ∈ t.entries, ¬crlf <:+: entry.1 ∧ ¬crlf <:+: entry.2 := by
  rw [parse_encode]
  constructor
  · intro h entry hentry
    have htable := Except.ok.inj h
    have hkey := keys_unchanged htable entry.1 (List.mem_map_of_mem hentry)
    have hvalue := values_unchanged htable entry hentry
    exact ⟨(crlfToLf_eq_iff _).mp hkey, (crlfToLf_eq_iff _).mp hvalue⟩
  · intro h
    exact congrArg Except.ok (insertAll_unchanged h)

/-- The CRLF of a value is read as a line feed. -/
theorem parse_encode_crlf :
    ¬∀ t : Arguments, parse (.string (urlEncodeArguments t.entries)) none false = .ok t.table := by
  intro h
  let t : Arguments :=
    { entries := [(['k'], crlf)]
      nodup := by simp
      named := by simp
      bytes := by simp [crlf] }
  have htable := Except.ok.inj ((parse_encode t).symm.trans (h t))
  have hread : insertAll (fun _ => none) [(['k'], ['\n'])] ['k'] = some (.one ['\n']) := rfl
  have hwritten : t.table ['k'] = some (.one crlf) := rfl
  have hsame : some (FieldValue.one ['\n']) = some (.one crlf) :=
    hread.symm.trans ((congrFun htable ['k']).trans hwritten)
  exact absurd hsame (by simp [crlf])

end LuaNode.QueryString
