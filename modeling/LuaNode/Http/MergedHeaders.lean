import LuaNode.Http.HeaderBlock

/-!
# The headers of `setHeader` and those of `writeHead`

`setHeader` files a header under the lower-case form of its name, so that the last call for a name
counts, however it is spelled. `writeHead` merges its own map into the headers as they were spelled:
a name that comes in two spellings has two lines. `oneLine_iff` says when every name has one.
-/

namespace LuaNode

/-! ### Assignments to a map -/

section Assign

variable {β : Type} {t : List (Str × β)} {k : Str} {v : β}

theorem mem_assign {p : Str × β} : p ∈ assign t k v ↔ p = (k, v) ∨ p ∈ t ∧ p.1 ≠ k := by
  unfold assign
  split_ifs with hk
  · obtain ⟨q, hq, hqk⟩ := List.any_eq_true.mp hk
    have hqk : q.1 = k := by simpa using hqk
    rw [List.mem_map]
    constructor
    · rintro ⟨r, hr, rfl⟩
      by_cases hrk : r.1 = k
      · exact Or.inl (if_pos hrk)
      · rw [if_neg hrk]
        exact Or.inr ⟨hr, hrk⟩
    · rintro (rfl | ⟨hp, hpk⟩)
      · exact ⟨q, hq, if_pos hqk⟩
      · exact ⟨p, hp, if_neg hpk⟩
  · have hk : ∀ p ∈ t, p.1 ≠ k := fun p hp hpk =>
      hk (List.any_eq_true.mpr ⟨p, hp, decide_eq_true hpk⟩)
    rw [List.mem_append, List.mem_singleton, or_comm]
    exact or_congr_right ⟨fun hp => ⟨hp, hk p hp⟩, And.left⟩

theorem nodup_assign (h : (t.map Prod.fst).Nodup) : ((assign t k v).map Prod.fst).Nodup := by
  unfold assign
  split_ifs with hk
  · have hkeys : (t.map fun p => if p.1 = k then (k, v) else p).map Prod.fst = t.map Prod.fst := by
      rw [List.map_map]
      refine List.map_congr_left fun p _ => ?_
      by_cases hp : p.1 = k
      · rw [Function.comp_apply, if_pos hp, hp]
      · rw [Function.comp_apply, if_neg hp]
    rw [hkeys]
    exact h
  · have hk : ∀ p ∈ t, p.1 ≠ k := fun p hp hpk =>
      hk (List.any_eq_true.mpr ⟨p, hp, decide_eq_true hpk⟩)
    rw [List.map_append, List.map_cons, List.map_nil, List.nodup_append]
    refine ⟨h, List.nodup_singleton _, ?_⟩
    rintro _ hmem _ hsingle rfl
    obtain ⟨p, hp, rfl⟩ := List.mem_map.mp hmem
    exact hk p hp (List.mem_singleton.mp hsingle)

/-- A map after the assignments of the loop in `writeHead`. -/
theorem mem_assignAll {entries : List (Str × β)} (h : (entries.map Prod.fst).Nodup)
    {p : Str × β} :
    p ∈ entries.foldl (fun t p => assign t p.1 p.2) t ↔
      p ∈ entries ∨ p ∈ t ∧ ∀ e ∈ entries, e.1 ≠ p.1 := by
  induction entries generalizing t with
  | nil => simp
  | cons e entries ih =>
    rw [List.map_cons, List.nodup_cons] at h
    rw [List.foldl_cons, ih h.2, mem_assign, List.mem_cons, List.forall_mem_cons]
    have hother : p = e → ∀ e' ∈ entries, e'.1 ≠ p.1 := by
      rintro rfl e' he' heq
      exact h.1 (List.mem_map.mpr ⟨e', he', heq⟩)
    have hsymm : p.1 ≠ e.1 ↔ e.1 ≠ p.1 := ne_comm
    tauto

theorem nodup_assignAll (entries : List (Str × β)) (h : (t.map Prod.fst).Nodup) :
    ((entries.foldl (fun t p => assign t p.1 p.2) t).map Prod.fst).Nodup := by
  induction entries generalizing t with
  | nil => exact h
  | cons e entries ih => exact ih (nodup_assign h)

end Assign

/-! ### The headers that are set -/

inductive HeaderCall
  | set (name : Str) (value : HeaderValue)
  | remove (name : Str)
  deriving DecidableEq

/-- The header that the calls leave under a name, with its spelling: the last one that was set and
not removed since. -/
def lastSet (calls : List HeaderCall) (key : Str) : Option (Str × HeaderValue) :=
  calls.foldl (fun last c => match c with
    | .set name value => if lower name = key then some (name, value) else last
    | .remove name => if lower name = key then none else last) none

namespace OutgoingMessage

def headerCall (m : OutgoingMessage) (s : Socket) : HeaderCall → OutgoingMessage
  | .set name value => (m.setHeader s name value).self
  | .remove name => (m.removeHeader s name).self

def headerCalls (m : OutgoingMessage) (s : Socket) (calls : List HeaderCall) : OutgoingMessage :=
  calls.foldl (fun m c => m.headerCall s c) m

/-- A map of strings. -/
def stringTable (entries : List (Str × Str)) : HeaderTable :=
  .map (entries.map fun e => (e.1, .one (.str e.2)))

/-- The table of headers that is left by the calls. -/
structure Keeps (m : OutgoingMessage) (calls : List HeaderCall) : Prop where
  header : m.header = none
  nodup : ((m.headers.getD []).map Prod.fst).Nodup
  mem : ∀ key e, (key, e) ∈ m.headers.getD [] ↔ lastSet calls key = some e

end OutgoingMessage

theorem lastSet_lower {calls : List HeaderCall} {key : Str} {e : Str × HeaderValue}
    (h : lastSet calls key = some e) : lower e.1 = key := by
  induction calls using List.reverseRecOn with
  | nil => cases h
  | append_singleton calls c ih =>
    unfold lastSet at h ih
    rw [List.foldl_append, List.foldl_cons, List.foldl_nil] at h
    cases c with
    | set name value =>
      dsimp only at h
      split_ifs at h with hname
      · cases h
        exact hname
      · exact ih h
    | remove name =>
      dsimp only at h
      split_ifs at h
      exact ih h

namespace OutgoingMessage

theorem keeps_step {m : OutgoingMessage} {calls : List HeaderCall} (h : m.Keeps calls)
    (s : Socket) (c : HeaderCall) : (m.headerCall s c).Keeps (calls ++ [c]) := by
  have hlast (key : Str) : lastSet (calls ++ [c]) key = match c with
      | .set name value => if lower name = key then some (name, value) else lastSet calls key
      | .remove name => if lower name = key then none else lastSet calls key := by
    unfold lastSet
    rw [List.foldl_append]
    rfl
  cases c with
  | set name value =>
    simp only [headerCall, setHeader, h.header, Option.isSome_none, Bool.false_eq_true, if_false]
    refine ⟨rfl, nodup_assign h.nodup, fun key e => ?_⟩
    rw [hlast, Option.getD_some, mem_assign, h.mem]
    by_cases hkey : lower name = key
    · simp [hkey, eq_comm]
    · simp [hkey, Ne.symm hkey]
  | remove name =>
    have htable : (m.headerCall s (.remove name)).headers.getD [] =
        (m.headers.getD []).filter fun p => p.1 ≠ lower name := by
      simp only [headerCall, removeHeader, h.header, Option.isSome_none, Bool.false_eq_true, if_false]
      cases m.headers <;> rfl
    refine ⟨?_, ?_, fun key e => ?_⟩
    · simp [headerCall, removeHeader, h.header]
    · rw [htable]
      exact (List.Sublist.map Prod.fst List.filter_sublist).nodup h.nodup
    · rw [hlast, htable, List.mem_filter, h.mem]
      by_cases hkey : lower name = key
      · simp [hkey]
      · simp [hkey, Ne.symm hkey]

theorem keeps_calls {m : OutgoingMessage} (hheader : m.header = none) (hnone : m.headers = none)
    (s : Socket) (calls : List HeaderCall) : (m.headerCalls s calls).Keeps calls := by
  induction calls using List.reverseRecOn with
  | nil =>
    refine ⟨hheader, ?_, fun key e => ?_⟩
    · simp [headerCalls, hnone]
    · simp [headerCalls, hnone, lastSet]
  | append_singleton calls c ih =>
    have h := keeps_step ih s c
    unfold headerCalls at h ⊢
    rw [List.foldl_append]
    exact h

/-- The map that `writeHead` stores, given a map of strings. -/
theorem headHeaders_strings {m : OutgoingMessage} {calls : List HeaderCall} (h : m.Keeps calls)
    {entries : List (Str × Str)} (hmap : (entries.map Prod.fst).Nodup) :
    ∃ merged, m.headHeaders (some (stringTable entries)) = .ok (.map merged) ∧
      (merged.map Prod.fst).Nodup ∧
      ∀ p, p ∈ merged ↔ (∃ e ∈ entries, p = (e.1, .one (.str e.2))) ∨
        lastSet calls (lower p.1) = some p ∧ ∀ e ∈ entries, e.1 ≠ p.1 := by
  have hstrings : ((entries.map fun e => (e.1, HeaderValue.one (.str e.2))).map
      Prod.fst).Nodup := by
    rw [List.map_map]
    exact hmap
  have hmem (p : Str × HeaderValue) : p ∈ entries.map (fun e => (e.1, HeaderValue.one (.str e.2))) ↔
      ∃ e ∈ entries, p = (e.1, .one (.str e.2)) := by
    simp only [List.mem_map, eq_comm]
  have hrendered (p : Str × HeaderValue) :
      p ∈ (m.headers.getD []).map Prod.snd ↔ lastSet calls (lower p.1) = some p := by
    rw [List.mem_map]
    constructor
    · rintro ⟨⟨key, e⟩, hkey, rfl⟩
      have hlast := (h.mem key e).mp hkey
      rw [lastSet_lower hlast]
      exact hlast
    · exact fun hlast => ⟨_, (h.mem _ p).mpr hlast, rfl⟩
  have hnames : (((m.headers.getD []).map Prod.snd).map Prod.fst).Nodup := by
    refine List.Nodup.of_map lower ?_
    have hkeys : ((m.headers.getD []).map fun q => lower q.2.1) = (m.headers.getD []).map Prod.fst :=
      List.map_congr_left fun q hq => lastSet_lower ((h.mem q.1 q.2).mp hq)
    rw [List.map_map, List.map_map]
    exact hkeys ▸ h.nodup
  unfold headHeaders renderHeaders
  cases hheaders : m.headers with
  | none =>
    refine ⟨_, rfl, hstrings, fun p => ?_⟩
    have hnone : lastSet calls (lower p.1) ≠ some p := by
      simpa [hheaders] using hrendered p
    rw [hmem]
    simp [hnone]
  | some table =>
    rw [hheaders, Option.getD_some] at hrendered hnames
    refine ⟨(entries.map fun e => (e.1, HeaderValue.one (.str e.2))).foldl
      (fun t p => assign t p.1 p.2) (table.map Prod.snd), ?_, nodup_assignAll _ hnames, fun p => ?_⟩
    · simp [h.header, stringTable, HeaderTable.isArray, HeaderTable.entries]
    · rw [mem_assignAll hstrings, hmem, hrendered, List.forall_mem_map]

end OutgoingMessage

/-! ### One line for each header -/

/-- The values on the lines with this name, whatever the case of its letters. -/
def valuesOf (key : Str) (lines : List (Str × Str)) : List Str :=
  (lines.filter fun l => lower l.1 = key).map Prod.snd

theorem valuesOf_append (key : Str) (lines lines' : List (Str × Str)) :
    valuesOf key (lines ++ lines') = valuesOf key lines ++ valuesOf key lines' := by
  simp [valuesOf]

theorem headerKind_date {name : Str} (h : lower name = "date".toList) :
    headerKind name = some .date := by
  unfold headerKind
  rw [h]
  decide

theorem headerKind_connection {name : Str} (h : lower name = "connection".toList) :
    headerKind name = some .connection := by
  unfold headerKind
  rw [h]
  decide

theorem valuesOf_other {key : Str} {lines : List (Str × Str)} (h : ∀ l ∈ lines, lower l.1 ≠ key) :
    valuesOf key lines = [] := by
  unfold valuesOf
  rw [List.filter_eq_nil_iff.mpr (by simpa using h), List.map_nil]

/-- The lines that the program adds in one place: at most one, and none when the kind has been sent. -/
structure Added (word : Str) (sent : Bool) (lines : List (Str × Str)) : Prop where
  name : ∀ l ∈ lines, lower l.1 = word
  single : lines.length ≤ 1
  none : sent = true → lines = []

theorem dateLines_added (m : OutgoingMessage) (sent : Bool) :
    Added "date".toList sent (dateLines m sent) := by
  have hname : lower "Date".toList = "date".toList := by decide
  unfold dateLines
  split_ifs with h
  · refine ⟨fun l hl => ?_, le_rfl, fun hsent => ?_⟩
    · rw [List.mem_singleton.mp hl]
      exact hname
    · simp [hsent] at h
  · exact ⟨fun l hl => absurd hl List.not_mem_nil, Nat.zero_le _, fun _ => rfl⟩

theorem connectionLines_added (m : OutgoingMessage) (sent sentContentLength : Bool) :
    Added "connection".toList sent (connectionLines m sent sentContentLength) := by
  unfold connectionLines
  split_ifs with h hk
  · exact ⟨fun l hl => absurd hl List.not_mem_nil, Nat.zero_le _, fun _ => rfl⟩
  all_goals
    refine ⟨fun l hl => ?_, le_rfl, fun hsent => absurd hsent h⟩
    rw [List.mem_singleton.mp hl]
    decide

theorem encodingLines_added (m : OutgoingMessage) (sentContentLength sent : Bool) :
    Added "transfer-encoding".toList sent (encodingLines m sentContentLength sent) := by
  unfold encodingLines
  split_ifs with h
  · refine ⟨fun l hl => ?_, le_rfl, fun hsent => ?_⟩
    · rw [List.mem_singleton.mp hl]
      decide
    · simp [hsent] at h
  · exact ⟨fun l hl => absurd hl List.not_mem_nil, Nat.zero_le _, fun _ => rfl⟩

theorem Added.values {word : Str} {sent : Bool} {lines : List (Str × Str)}
    (h : Added word sent lines) (key : Str) :
    (key ≠ word → valuesOf key lines = []) ∧ (valuesOf key lines).length ≤ 1 ∧
    (sent = true → valuesOf key lines = []) := by
  refine ⟨fun hkey => valuesOf_other fun l hl heq => hkey (heq.symm.trans (h.name l hl)), ?_,
    fun hsent => ?_⟩
  · unfold valuesOf
    rw [List.length_map]
    exact (List.length_filter_le _ _).trans h.single
  · rw [h.none hsent]
    rfl

/-- The automatic lines do not repeat a name, neither one of theirs nor one of the others. -/
theorem automatic_values (m : OutgoingMessage) (lines : List (Str × Scalar)) (key : Str) :
    (valuesOf key (automatic m lines)).length ≤ 1 ∧
    (valuesOf key (lineTexts lines) ≠ [] → valuesOf key (automatic m lines) = []) := by
  have hkind {kind : HeaderKind} (hk : ∀ name, lower name = key → headerKind name = some kind)
      (hne : valuesOf key (lineTexts lines) ≠ []) : hasKind kind lines = true := by
    obtain ⟨value, hvalue⟩ := List.exists_mem_of_ne_nil _ hne
    simp only [valuesOf, lineTexts, List.mem_map, List.mem_filter, decide_eq_true_eq] at hvalue
    obtain ⟨-, ⟨⟨l, hl, rfl⟩, hname⟩, -⟩ := hvalue
    exact List.any_eq_true.mpr ⟨l, hl, decide_eq_true (hk _ hname)⟩
  obtain ⟨hdate, hdate1, hdate0⟩ := (dateLines_added m (hasKind .date lines)).values key
  obtain ⟨hconn, hconn1, hconn0⟩ := (connectionLines_added m (hasKind .connection lines)
    (hasKind .contentLength lines)).values key
  obtain ⟨henc, henc1, henc0⟩ := (encodingLines_added m (hasKind .contentLength lines)
    (hasKind .transferEncoding lines)).values key
  unfold automatic
  rw [valuesOf_append, valuesOf_append]
  by_cases hkey : key = "date".toList
  · subst hkey
    rw [hconn (by decide), henc (by decide), List.append_nil, List.append_nil]
    exact ⟨hdate1, fun hne => hdate0 (hkind (fun _ => headerKind_date) hne)⟩
  rw [hdate hkey, List.nil_append]
  by_cases hkey : key = "connection".toList
  · subst hkey
    rw [henc (by decide), List.append_nil]
    exact ⟨hconn1, fun hne => hconn0 (hkind (fun _ => headerKind_connection) hne)⟩
  rw [hconn hkey, List.nil_append]
  by_cases hkey : key = "transfer-encoding".toList
  · subst hkey
    exact ⟨henc1, fun hne => henc0 (hkind (fun _ => headerKind_transferEncoding) hne)⟩
  rw [henc hkey]
  exact ⟨Nat.zero_le _, fun _ => rfl⟩

/-- The values on the lines of a table come from its entries under the name. -/
theorem valuesOf_lines (key : Str) (t : List (Str × HeaderValue)) :
    valuesOf key (lineTexts (headerLines t)) =
      (t.filter fun p => lower p.1 = key).flatMap fun p => p.2.scalars.map Scalar.text := by
  induction t with
  | nil => rfl
  | cons p t ih =>
    have hlines : lineTexts (headerLines (p :: t)) =
        p.2.scalars.map (fun v => (p.1, v.text)) ++ lineTexts (headerLines t) := by
      simp [lineTexts, headerLines, Function.comp_def]
    rw [hlines, valuesOf_append, ih, List.filter_cons]
    by_cases hp : lower p.1 = key
    · simp [valuesOf, hp, List.filter_map, Function.comp_def]
    · simp [valuesOf, hp, List.filter_map, Function.comp_def]

section Groups

variable {α β : Type*} {g : List α} {f : α → List β} {p q : α}

/-- One element gives all that a list without duplicates is mapped to. -/
theorem flatMap_single (hnodup : g.Nodup) (hp : p ∈ g) (hother : ∀ q ∈ g, q ≠ p → f q = []) :
    g.flatMap f = f p := by
  obtain ⟨a, b, rfl⟩ := List.append_of_mem hp
  have hsplit := List.nodup_append.mp hnodup
  have ha : a.flatMap f = [] := List.flatMap_eq_nil_iff.mpr fun q hq =>
    hother q (List.mem_append_left _ hq) (hsplit.2.2 q hq p (List.mem_cons_self ..))
  have hb : b.flatMap f = [] := List.flatMap_eq_nil_iff.mpr fun q hq =>
    hother q (List.mem_append_right _ (List.mem_cons_of_mem _ hq)) fun heq =>
      (List.nodup_cons.mp hsplit.2.1).1 (heq ▸ hq)
  rw [List.flatMap_append, List.flatMap_cons, ha, hb, List.nil_append, List.append_nil]

theorem length_flatMap_le (hp : p ∈ g) : (f p).length ≤ (g.flatMap f).length := by
  obtain ⟨a, b, rfl⟩ := List.append_of_mem hp
  simp only [List.flatMap_append, List.flatMap_cons, List.length_append]
  omega

theorem length_flatMap_two (hp : p ∈ g) (hq : q ∈ g) (hne : p ≠ q) (hfp : f p ≠ [])
    (hfq : f q ≠ []) : 2 ≤ (g.flatMap f).length := by
  obtain ⟨a, b, rfl⟩ := List.append_of_mem hp
  have hp1 := List.length_pos_of_ne_nil hfp
  have hq1 := List.length_pos_of_ne_nil hfq
  have hmem : q ∈ a ∨ q ∈ b := by
    rcases List.mem_append.mp hq with ha | hb
    · exact Or.inl ha
    · exact Or.inr ((List.mem_cons.mp hb).resolve_left (Ne.symm hne))
  simp only [List.flatMap_append, List.flatMap_cons, List.length_append]
  rcases hmem with ha | hb
  · have := length_flatMap_le (f := f) ha
    omega
  · have := length_flatMap_le (f := f) hb
    omega

end Groups

/-- The value that a name has been given: by `writeHead` in any spelling, or else by `setHeader`. -/
def headerGiven (calls : List HeaderCall) (entries : List (Str × Str)) (key : Str) :
    Option HeaderValue :=
  match entries.find? fun e => lower e.1 = key with
  | some e => some (.one (.str e.2))
  | none => (lastSet calls key).map Prod.snd

/-- No name has two lines, and the line of a name has the value that it has been given. -/
structure OneLine (value : Str → Option HeaderValue) (lines : List (Str × Str)) : Prop where
  single : ∀ key, (valuesOf key lines).length ≤ 1
  value : ∀ key v, value key = some v → v.scalars ≠ [] →
    valuesOf key lines = v.scalars.map Scalar.text

/-- `writeHead` spells every name in one way, and in the way of `setHeader`; what it does not mention
has one value. -/
structure OneSpelling (calls : List HeaderCall) (entries : List (Str × Str)) : Prop where
  spelled : ∀ e ∈ entries, ∀ e' ∈ entries, lower e.1 = lower e'.1 → e = e'
  same : ∀ e ∈ entries, ∀ name v, lastSet calls (lower e.1) = some (name, v) →
    name = e.1 ∨ v.scalars = []
  lone : ∀ key name v, lastSet calls key = some (name, v) → (∀ e ∈ entries, lower e.1 ≠ key) →
    v.scalars.length ≤ 1

theorem OneSpelling.given_single {calls : List HeaderCall} {entries : List (Str × Str)}
    (h : OneSpelling calls entries) {key : Str} {v : HeaderValue}
    (hv : headerGiven calls entries key = some v) : v.scalars.length ≤ 1 := by
  unfold headerGiven at hv
  split at hv
  · cases hv
    exact le_rfl
  next hfind =>
    obtain ⟨⟨name, v⟩, hlast, rfl⟩ := Option.map_eq_some_iff.mp hv
    exact h.lone key name v hlast (by simpa using hfind)

/-- A table that `writeHead` has merged, in any order. -/
structure Merged (calls : List HeaderCall) (entries : List (Str × Str))
    (t : List (Str × HeaderValue)) : Prop where
  nodup : t.Nodup
  mem : ∀ p, p ∈ t ↔ (∃ e ∈ entries, p = (e.1, .one (.str e.2))) ∨
    lastSet calls (lower p.1) = some p ∧ ∀ e ∈ entries, e.1 ≠ p.1

namespace Merged

variable {calls : List HeaderCall} {entries : List (Str × Str)} {t : List (Str × HeaderValue)}

/-- In one spelling, the lines with a name have the value that it has been given. -/
theorem values (h : Merged calls entries t) (hone : OneSpelling calls entries) (key : Str) :
    valuesOf key (lineTexts (headerLines t)) =
      ((headerGiven calls entries key).map fun v => v.scalars.map Scalar.text).getD [] := by
  have hgroup (p : Str × HeaderValue) :
      p ∈ t.filter (fun p => lower p.1 = key) ↔ p ∈ t ∧ lower p.1 = key := by
    simp [List.mem_filter]
  have hnodup := h.nodup.filter fun p => decide (lower p.1 = key)
  rw [valuesOf_lines]
  unfold headerGiven
  cases hfind : entries.find? fun e => lower e.1 = key with
  | some e =>
    have hmem := List.mem_of_find?_eq_some hfind
    have hkey : lower e.1 = key := by simpa using List.find?_some hfind
    rw [flatMap_single hnodup ((hgroup (e.1, .one (.str e.2))).mpr
      ⟨(h.mem _).mpr (Or.inl ⟨e, hmem, rfl⟩), hkey⟩)]
    · rfl
    · intro q hq hne
      obtain ⟨hqt, hqkey⟩ := (hgroup q).mp hq
      rcases (h.mem q).mp hqt with ⟨e', he', rfl⟩ | ⟨hlast, hother⟩
      · rw [hone.spelled e' he' e hmem (hqkey.trans hkey.symm)] at hne
        exact absurd rfl hne
      · rw [hqkey, ← hkey] at hlast
        rcases hone.same e hmem q.1 q.2 hlast with heq | hempty
        · exact absurd heq.symm (hother e hmem)
        · rw [hempty]
          rfl
  | none =>
    have hentries : ∀ e ∈ entries, lower e.1 ≠ key := by simpa using hfind
    have hlastset {q : Str × HeaderValue} (hq : q ∈ t.filter fun p => lower p.1 = key) :
        lastSet calls key = some q := by
      obtain ⟨hqt, hqkey⟩ := (hgroup q).mp hq
      rcases (h.mem q).mp hqt with ⟨e, he, rfl⟩ | ⟨hlast, -⟩
      · exact absurd hqkey (hentries e he)
      · exact hqkey ▸ hlast
    cases hlast : lastSet calls key with
    | none =>
      rw [List.flatMap_eq_nil_iff.mpr fun q hq => absurd ((hlastset hq).symm.trans hlast) (by simp)]
      rfl
    | some p =>
      have hkey := lastSet_lower hlast
      have hother : ∀ e ∈ entries, e.1 ≠ p.1 := by
        rintro e he heq
        exact hentries e he (heq ▸ hkey)
      rw [flatMap_single hnodup ((hgroup p).mpr
        ⟨(h.mem p).mpr (Or.inr ⟨hkey.symm ▸ hlast, hother⟩), hkey⟩)]
      · rfl
      · intro q hq hne
        exact absurd (Option.some.inj ((hlastset hq).symm.trans hlast)) hne

/-- Two spellings of a name make two lines. -/
theorem oneSpelling (h : Merged calls entries t)
    (hsingle : ∀ key, (valuesOf key (lineTexts (headerLines t))).length ≤ 1) :
    OneSpelling calls entries := by
  have hgroup {p : Str × HeaderValue} (hp : p ∈ t) :
      p ∈ t.filter (fun q => lower q.1 = lower p.1) := by
    simp [List.mem_filter, hp]
  have hentry {e : Str × Str} (he : e ∈ entries) : (e.1, HeaderValue.one (.str e.2)) ∈ t :=
    (h.mem _).mpr (Or.inl ⟨e, he, rfl⟩)
  -- of two entries under one name, one has no line
  have htwo {p q : Str × HeaderValue} (hp : p ∈ t) (hq : q ∈ t) (hkey : lower p.1 = lower q.1)
      (hps : p.2.scalars ≠ []) (hqs : q.2.scalars ≠ []) : p = q := by
    by_contra hne
    have hlength := hsingle (lower q.1)
    rw [valuesOf_lines] at hlength
    have := length_flatMap_two (f := fun p => p.2.scalars.map Scalar.text) (hkey ▸ hgroup hp)
      (hgroup hq) hne (by simpa using hps) (by simpa using hqs)
    omega
  have hspelled : ∀ e ∈ entries, ∀ e' ∈ entries, lower e.1 = lower e'.1 → e = e' := by
    intro e he e' he' hkey
    have heq := htwo (hentry he) (hentry he') hkey (by simp [HeaderValue.scalars])
      (by simp [HeaderValue.scalars])
    simpa [Prod.ext_iff] using heq
  refine ⟨hspelled, fun e he name v hlast => ?_, fun key name v hlast hother => ?_⟩
  · have hkey : lower name = lower e.1 := lastSet_lower hlast
    by_contra hne
    obtain ⟨hname, hscalars⟩ := not_or.mp hne
    by_cases hmem : ∃ e' ∈ entries, e'.1 = name
    · obtain ⟨e', he', rfl⟩ := hmem
      exact hname (congrArg Prod.fst (hspelled e' he' e he hkey))
    · have hother : ∀ e' ∈ entries, e'.1 ≠ name := fun e' he' heq => hmem ⟨e', he', heq⟩
      have hset : (name, v) ∈ t := (h.mem _).mpr (Or.inr ⟨hkey ▸ hlast, hother⟩)
      exact hname (congrArg Prod.fst
        (htwo hset (hentry he) hkey hscalars (by simp [HeaderValue.scalars])))
  · have hkey : lower name = key := lastSet_lower hlast
    have hset : (name, v) ∈ t := (h.mem _).mpr (Or.inr ⟨hkey.symm ▸ hlast, by
      rintro e he rfl
      exact hother e he hkey⟩)
    have hlength := hsingle (lower name)
    rw [valuesOf_lines] at hlength
    have := length_flatMap_le (f := fun p => p.2.scalars.map Scalar.text) (hgroup hset)
    rw [List.length_map] at this
    exact this.trans hlength

end Merged

namespace OutgoingMessage

/-- The lines of the header block that `writeHead` stores, unless it raises. -/
def headLines (m : OutgoingMessage) (statusCode : ℕ) (headers : HeaderTable) :
    Option (List (Str × Str)) :=
  let m := { m with statusCode := statusCode }
  match m.headHeaders (some headers) with
  | .error _ => none
  | .ok headers =>
    let lines := headerLines (headers.walk m.runtime)
    if lines.any raises then none else some (blockLines (m.prepareHead statusCode) lines)

theorem prepareHead_runtime (m : OutgoingMessage) (statusCode : ℕ) :
    (m.prepareHead statusCode).runtime = m.runtime := by
  unfold prepareHead
  dsimp only
  split_ifs <;> rfl

/-- `writeHead` stores these lines behind its status line. -/
theorem writeHead_lines {m : OutgoingMessage} {statusCode : ℕ} {headers : HeaderTable}
    {lines : List (Str × Str)} (h : m.headLines statusCode headers = some lines) (s : Socket)
    (reasonPhrase : Option Str) :
    (m.writeHead s statusCode reasonPhrase (some headers)).self.header =
      some (statusLine statusCode reasonPhrase ++ blockText lines ++ crlf) ∧
    (m.writeHead s statusCode reasonPhrase (some headers)).ret = .ok none := by
  rw [writeHead_eq]
  unfold headLines at h
  unfold headBlock
  dsimp only at h ⊢
  cases hheaders : headHeaders { m with statusCode := statusCode } (some headers) with
  | error e => simp [hheaders] at h
  | ok table =>
    simp only [hheaders] at h ⊢
    split_ifs at h with hraises
    obtain rfl := Option.some.inj h
    have hblock := (renderBlock_iff (prepareHead { m with statusCode := statusCode } statusCode) _
      (statusLine statusCode reasonPhrase) table _).mpr ⟨by
        rw [prepareHead_runtime]
        simpa using hraises, rfl, rfl⟩
    rw [prepareHead_runtime] at hblock
    have hframe := (renderBlock_ok hblock).1
    have hsent := sendBlock_ok s hblock hframe rfl
    rw [hblock] at hsent ⊢
    exact ⟨congrArg OutgoingMessage.header hsent.2.2.1, hsent.2.2.2⟩

/-- After any calls of `setHeader` and `removeHeader`, the header block that `writeHead` stores with a
map of strings has one line for each name, with the value that counts, exactly when the spellings
agree. -/
theorem oneLine_iff {m : OutgoingMessage} (hheader : m.header = none) (hnone : m.headers = none)
    (s : Socket) (calls : List HeaderCall) (statusCode : ℕ) {entries : List (Str × Str)}
    (hmap : (entries.map Prod.fst).Nodup) {lines : List (Str × Str)}
    (hlines : (m.headerCalls s calls).headLines statusCode (stringTable entries) = some lines) :
    OneLine (headerGiven calls entries) lines ↔ OneSpelling calls entries := by
  have hkeeps := keeps_calls hheader hnone s calls
  generalize m.headerCalls s calls = m at hkeeps hlines
  have hkeeps : Keeps { m with statusCode := statusCode } calls := ⟨hkeeps.1, hkeeps.2, hkeeps.3⟩
  obtain ⟨merged, hmerged, hnodup, hmem⟩ := headHeaders_strings hkeeps hmap
  unfold headLines at hlines
  simp only [hmerged] at hlines
  split_ifs at hlines
  obtain rfl := Option.some.inj hlines
  generalize prepareHead _ statusCode = m'
  set lines := headerLines (HeaderTable.walk m.runtime (.map merged))
  have htable : Merged calls entries (m.runtime.pairs merged) := by
    have hperm := m.runtime.pairs_perm merged
    exact ⟨hperm.nodup_iff.mpr (List.Nodup.of_map Prod.fst hnodup),
      fun p => hperm.mem_iff.trans (hmem p)⟩
  have hvalues (key : Str) : valuesOf key (blockLines m' lines) =
      valuesOf key (lineTexts lines) ++ valuesOf key (automatic m' lines) := valuesOf_append ..
  constructor
  · intro h
    refine htable.oneSpelling fun key => ?_
    have hsingle := h.single key
    rw [hvalues, List.length_append] at hsingle
    exact (Nat.le_add_right _ _).trans hsingle
  · intro hone
    have hset (key : Str) : valuesOf key (lineTexts lines) =
        ((headerGiven calls entries key).map fun v => v.scalars.map Scalar.text).getD [] :=
      htable.values hone key
    refine ⟨fun key => ?_, fun key v hgiven hne => ?_⟩
    · obtain ⟨hsingle, hnone⟩ := automatic_values m' lines key
      rw [hvalues]
      by_cases hempty : valuesOf key (lineTexts lines) = []
      · rw [hempty, List.nil_append]
        exact hsingle
      · rw [hnone hempty, List.append_nil, hset]
        cases hgiven : headerGiven calls entries key with
        | none => exact Nat.zero_le _
        | some v =>
          have hlength := hone.given_single hgiven
          simpa using hlength
    · have hkey : valuesOf key (lineTexts lines) = v.scalars.map Scalar.text := by
        rw [hset, hgiven]
        rfl
      rw [hvalues, (automatic_values m' lines key).2 (by simpa [hkey] using hne), hkey,
        List.append_nil]

/-- A fresh response. -/
def freshResponse : OutgoingMessage :=
  serverResponse 0 (.inOrder []) ⟨"GET".toList, 1, 1, true, none⟩

theorem oneLine_plain :
    OneLine (headerGiven [.set "Server".toList (.one (.str "a".toList))]
      [("Content-Type".toList, "b".toList)])
      [("Server".toList, "a".toList), ("Content-Type".toList, "b".toList), ("Date".toList, []),
        ("Connection".toList, "keep-alive".toList),
        ("Transfer-Encoding".toList, "chunked".toList)] := by
  have hmap : ([("Content-Type".toList, "b".toList)].map Prod.fst).Nodup := List.nodup_singleton _
  refine (oneLine_iff (m := freshResponse) rfl rfl (.fresh []) _ 200 hmap (by decide)).mpr
    ⟨?_, ?_, ?_⟩
  · simp
  · simp [lastSet, lower]
  · intro key name v hlast _
    unfold lastSet at hlast
    simp only [List.foldl_cons, List.foldl_nil] at hlast
    split_ifs at hlast
    cases hlast
    exact le_rfl

/-- `setHeader` and `writeHead` in two spellings. -/
theorem oneLine_spellings :
    ∃ lines, (freshResponse.headerCalls (.fresh [])
      [.set "Content-Type".toList (.one (.str "a".toList))]).headLines 200
        (stringTable [("content-type".toList, "b".toList)]) = some lines ∧
    ¬OneLine (headerGiven [.set "Content-Type".toList (.one (.str "a".toList))]
      [("content-type".toList, "b".toList)]) lines := by
  refine ⟨_, rfl, fun h => ?_⟩
  exact absurd (h.single "content-type".toList) (by decide)

end OutgoingMessage

end LuaNode
