import LuaNode.Http.BodyDelivery

/-!
# Trailers

The lines after the body of a message go through the fields that put the headers together. What
holds a line is emptied by the line after it, when the message is not complete yet, so that the
line is taken for a header.
-/

namespace LuaNode

namespace Headers

/-- Of several values the first one stays. -/
def FirstWins (field : Str) : Prop :=
  field ≠ "set-cookie".toList ∧ field ∉ commaFields ∧ ¬ "x-".toList.isPrefixOf field = true

/-- The lines that a table gets. -/
def addLines (dest : Headers) (pairs : List (Str × Str)) : Headers :=
  pairs.foldl (fun h p => h.addLine (lower p.1) p.2) dest

variable {field : Str}

/-- The three ways to merge. -/
theorem merge_cases (field : Str) :
    (FirstWins field ∧ ∀ entry value,
      merge field entry value = dropDuplicate (fun _ => entry) field value field) ∨
    (¬ FirstWins field ∧ ∀ entry value,
      merge field entry value = appendValue (fun _ => entry) field value field) ∨
    (¬ FirstWins field ∧ ∀ entry value,
      merge field entry value = commaSeparate (fun _ => entry) field value field) := by
  unfold merge addLine FirstWins
  by_cases hcookie : field = "set-cookie".toList
  · refine .inr (.inl ⟨fun h => h.1 hcookie, fun entry value => ?_⟩)
    rw [if_pos hcookie]
  · by_cases hcomma : field ∈ commaFields
    · refine .inr (.inr ⟨fun h => h.2.1 hcomma, fun entry value => ?_⟩)
      rw [if_neg hcookie, if_pos hcomma]
    · by_cases hx : "x-".toList.isPrefixOf field = true
      · refine .inr (.inr ⟨fun h => h.2.2 hx, fun entry value => ?_⟩)
        rw [if_neg hcookie, if_neg hcomma, if_pos hx]
      · refine .inl ⟨⟨hcookie, hcomma, hx⟩, fun entry value => ?_⟩
        rw [if_neg hcookie, if_neg hcomma, if_neg hx]

theorem merge_firstWins (hfirst : FirstWins field) (entry : Option HeaderEntry) (value : Str) :
    merge field entry value = some (entry.getD (.text value)) := by
  rcases merge_cases field with ⟨-, hmerge⟩ | ⟨hnot, -⟩ | ⟨hnot, -⟩
  · rw [hmerge]
    cases entry <;> simp [dropDuplicate]
  · exact absurd hfirst hnot
  · exact absurd hfirst hnot

/-- The entry that is there stays. -/
theorem foldl_firstWins (hfirst : FirstWins field) (values : List Str) (entry : HeaderEntry) :
    values.foldl (merge field) (some entry) = some entry := by
  induction values with
  | nil => rfl
  | cons value values ih => rw [List.foldl_cons, merge_firstWins hfirst, Option.getD_some, ih]

theorem merge_ne_none (field value : Str) (entry : Option HeaderEntry) :
    merge field entry value ≠ none := by
  rcases merge_cases field with ⟨-, hmerge⟩ | ⟨-, hmerge⟩ | ⟨-, hmerge⟩
  all_goals
    rw [hmerge]
    rcases entry with _ | _ | _ <;> simp [dropDuplicate, appendValue, commaSeparate]

theorem foldl_merge_ne_none {values : List Str} (h : values ≠ []) (entry : Option HeaderEntry) :
    values.foldl (merge field) entry ≠ none := by
  obtain ⟨init, last, rfl⟩ := List.eq_nil_or_concat' values |>.resolve_left h
  rw [List.foldl_append]
  exact merge_ne_none field last _

/-- Where the values are joined, one value more is seen. -/
theorem foldl_ne_of_not_firstWins (hnot : ¬ FirstWins field) {values : List Str}
    (hvalues : values ≠ []) (value : Str) :
    (values ++ [value]).foldl (merge field) none ≠ merge field none value := by
  obtain ⟨first, rest, rfl⟩ := List.exists_cons_of_ne_nil hvalues
  rcases merge_cases field with ⟨hfirst, -⟩ | ⟨-, hmerge⟩ | ⟨-, hmerge⟩
  · exact absurd hfirst hnot
  · have hlist (list rest : List Str) :
        rest.foldl (merge field) (some (.list list)) = some (.list (list ++ rest)) := by
      induction rest generalizing list with
      | nil => simp
      | cons v rest ih => simp [hmerge, appendValue, ih]
    have hone (v : Str) : merge field none v = some (.list [v]) := by simp [hmerge, appendValue]
    rw [List.cons_append, List.foldl_cons, hone, hone, hlist]
    simp
  · have htext (text : Str) (rest : List Str) :
        ∃ t, rest.foldl (merge field) (some (.text text)) = some (.text t) := by
      induction rest generalizing text with
      | nil => exact ⟨text, rfl⟩
      | cons v rest ih =>
        rw [List.foldl_cons, hmerge]
        simpa [commaSeparate] using ih _
    have hone (v : Str) : merge field none v = some (.text v) := by simp [hmerge, commaSeparate]
    obtain ⟨t, ht⟩ := htext first rest
    have hall : (first :: rest).foldl (merge field) none = some (.text t) := by
      rw [List.foldl_cons, hone, ht]
    rw [List.foldl_append, hall, hone, List.foldl_cons, List.foldl_nil, hmerge]
    simp only [commaSeparate, Function.update_self]
    intro heq
    have hlength := congrArg List.length (HeaderEntry.text.inj (Option.some.inj heq))
    simp at hlength
    omega

theorem valuesOf_eq_nil {pairs : List (Str × Str)} (h : ∀ t ∈ pairs, lower t.1 ≠ field) :
    valuesOf field pairs = [] := by
  rw [valuesOf, List.map_eq_nil_iff, List.filter_eq_nil_iff]
  simpa using h

theorem valuesOf_eq_map {pairs : List (Str × Str)} (h : ∀ t ∈ pairs, lower t.1 = field) :
    valuesOf field pairs = pairs.map Prod.snd := by
  rw [valuesOf, List.filter_eq_self.mpr (by simpa using h)]

/-- When the table of the last line alone is that of all lines, and the other lines do not change
the headers: there are no others, or all of them are as good as the last one and the headers have
their field. -/
theorem addLines_iff (headers : Headers) (init : List (Str × Str)) (last : Str × Str) :
    (addLines empty [last] = addLines empty (init ++ [last]) ∧ addLines headers init = headers) ↔
      init = [] ∨ FirstWins (lower last.1) ∧ headers (lower last.1) ≠ none ∧
        (∀ t ∈ init, lower t.1 = lower last.1) ∧ init.head?.map Prod.snd = some last.2 := by
  have hlast : valuesOf (lower last.1) [last] = [last.2] := by simp [valuesOf]
  constructor
  · rintro ⟨htrailers, hheaders⟩
    by_cases hinit : init = []
    · exact .inl hinit
    · have hall : ∀ t ∈ init, lower t.1 = lower last.1 := by
        intro t ht
        by_contra hne
        have hat := congrFun htrailers (lower t.1)
        have hmem : t.2 ∈ valuesOf (lower t.1) (init ++ [last]) :=
          List.mem_map.mpr ⟨t, List.mem_filter.mpr ⟨List.mem_append_left _ ht, by simp⟩, rfl⟩
        have hlast : valuesOf (lower t.1) [last] = [] :=
          valuesOf_eq_nil (by simpa using Ne.symm hne)
        rw [addLines, addLines, foldl_addLine, foldl_addLine, hlast] at hat
        exact foldl_merge_ne_none (List.ne_nil_of_mem hmem) _ hat.symm
      have hvalues : valuesOf (lower last.1) init = init.map Prod.snd := valuesOf_eq_map hall
      have hne : init.map Prod.snd ≠ [] := by simpa using hinit
      have hboth : valuesOf (lower last.1) (init ++ [last]) = init.map Prod.snd ++ [last.2] := by
        rw [← hvalues]
        simp [valuesOf]
      have hat := congrFun htrailers (lower last.1)
      rw [addLines, addLines, foldl_addLine, foldl_addLine, hlast, hboth, List.foldl_cons,
        List.foldl_nil] at hat
      have hfirst : FirstWins (lower last.1) := by
        by_contra hnot
        exact foldl_ne_of_not_firstWins hnot hne last.2 hat.symm
      refine .inr ⟨hfirst, fun hnone => ?_, hall, ?_⟩
      · have hat := congrFun hheaders (lower last.1)
        rw [addLines, foldl_addLine, hvalues, hnone] at hat
        exact foldl_merge_ne_none hne _ hat
      · obtain ⟨first, rest, rfl⟩ := List.exists_cons_of_ne_nil hinit
        rw [List.map_cons, List.cons_append, List.foldl_cons, merge_firstWins hfirst,
          merge_firstWins hfirst, foldl_firstWins hfirst] at hat
        simpa [empty, eq_comm] using hat
  · rintro (rfl | ⟨hfirst, hsome, hall, hhead⟩)
    · exact ⟨rfl, rfl⟩
    · obtain ⟨first, rest, rfl⟩ := List.exists_cons_of_ne_nil (l := init) (by
        rintro rfl
        simp at hhead)
      have hvalue : first.2 = last.2 := by simpa using hhead
      have hvalues := valuesOf_eq_map hall
      constructor
      · funext name
        rw [addLines, addLines, foldl_addLine, foldl_addLine]
        by_cases hname : name = lower last.1
        · subst hname
          have hboth : valuesOf (lower last.1) (first :: rest ++ [last]) =
              first.2 :: (rest.map Prod.snd ++ [last.2]) := by
            rw [valuesOf_eq_map (List.forall_mem_append.mpr ⟨hall, by simp⟩)]
            simp
          rw [hlast, hboth, List.foldl_cons, List.foldl_cons, List.foldl_nil,
            merge_firstWins hfirst, merge_firstWins hfirst, foldl_firstWins hfirst, hvalue]
        · rw [valuesOf_eq_nil (by simpa using Ne.symm hname), valuesOf_eq_nil]
          intro t ht
          rcases List.mem_append.mp ht with ht | ht
          · rw [hall t ht]
            exact Ne.symm hname
          · rw [List.mem_singleton.mp ht]
            exact Ne.symm hname
      · funext name
        rw [addLines, foldl_addLine]
        by_cases hname : name = lower last.1
        · subst hname
          obtain ⟨entry, hentry⟩ := Option.ne_none_iff_exists'.mp hsome
          rw [hentry, foldl_firstWins hfirst]
        · rw [valuesOf_eq_nil fun t ht => by rw [hall t ht]; exact Ne.symm hname]
          rfl

theorem addLines_ne_none_iff (pairs : List (Str × Str)) (field : Str) :
    addLines empty pairs field ≠ none ↔ ∃ h ∈ pairs, lower h.1 = field := by
  rw [addLines, foldl_addLine]
  constructor
  · intro hsome
    by_contra hnone
    push Not at hnone
    rw [valuesOf_eq_nil hnone] at hsome
    exact hsome rfl
  · rintro ⟨h, hmem, hfield⟩
    have hvalue : h.2 ∈ valuesOf field pairs :=
      List.mem_map.mpr ⟨h, List.mem_filter.mpr ⟨hmem, by simpa using hfield⟩, rfl⟩
    exact foldl_merge_ne_none (List.ne_nil_of_mem hvalue) _

/-- At most one trailer, or any number of them for a field that the headers have and whose first
value stays, when the last value is the first one. -/
def Spared (headers trailers : List (Str × Str)) : Prop :=
  trailers.length ≤ 1 ∨ ∃ field value, FirstWins field ∧
    (∃ h ∈ headers, lower h.1 = field) ∧ (∀ t ∈ trailers, lower t.1 = field) ∧
    trailers.head?.map Prod.snd = some value ∧ trailers.getLast?.map Prod.snd = some value

/-- When it cannot be seen that all trailers but the last one have become headers. -/
theorem spared_iff (headers trailers : List (Str × Str)) :
    (addLines empty trailers.getLast?.toList = addLines empty trailers ∧
      addLines (addLines empty headers) trailers.dropLast = addLines empty headers) ↔
      Spared headers trailers := by
  rcases List.eq_nil_or_concat' trailers with rfl | ⟨init, last, rfl⟩
  · exact iff_of_true ⟨rfl, rfl⟩ (.inl (Nat.zero_le 1))
  · rw [List.getLast?_concat, List.dropLast_concat, Option.toList_some, addLines_iff,
      addLines_ne_none_iff]
    constructor
    · rintro (rfl | ⟨hfirst, hheaders, hall, hhead⟩)
      · exact .inl (by simp)
      · refine .inr ⟨lower last.1, last.2, hfirst, hheaders, ?_, ?_, by simp⟩
        · exact List.forall_mem_append.mpr ⟨hall, by simp⟩
        · cases init with
          | nil => simp at hhead
          | cons t init => simpa using hhead
    · rintro (hlength | ⟨field, value, hfirst, hheaders, hall, hhead, hlast⟩)
      · left
        simpa using hlength
      · obtain ⟨hinit, hfield⟩ := List.forall_mem_append.mp hall
        have hsame : lower last.1 = field := by simpa using hfield
        subst hsame
        cases init with
        | nil => exact .inl rfl
        | cons t init =>
          refine .inr ⟨hfirst, hheaders, hinit, ?_⟩
          have hvalue : last.2 = value := by
            rw [List.getLast?_concat] at hlast
            exact Option.some.inj hlast
          rw [hvalue]
          simpa using hhead

end Headers

namespace IncomingMessage

/-- What a line goes by and where it goes. -/
def tables (m : IncomingMessage) : Bool × Headers × Headers :=
  (m.complete, m.headers, m.trailers)

variable {m n : IncomingMessage}

theorem tables_addHeaderLine (h : m.tables = n.tables) (field value : Str) :
    (m.addHeaderLine field value).tables = (n.addHeaderLine field value).tables := by
  simp only [tables, Prod.mk.injEq] at h
  obtain ⟨hcomplete, hheaders, htrailers⟩ := h
  unfold addHeaderLine tables
  rw [hcomplete]
  split_ifs <;> simp [hheaders, htrailers]

theorem tables_complete (h : m.tables = n.tables) :
    ({ m with complete := true } : IncomingMessage).tables =
      ({ n with complete := true } : IncomingMessage).tables := by
  simp only [tables, Prod.mk.injEq, true_and] at h ⊢
  exact h.2

@[simp]
theorem tables_emitEnd (m : IncomingMessage) : m.emitEnd.tables = m.tables := by
  unfold emitEnd
  split_ifs <;> rfl

end IncomingMessage

namespace MessageParser

/-- What the parser reads and writes to put the lines together. -/
def lines (p : MessageParser) : Option Str × Option Str × Bool × Headers × Headers :=
  (p.field, p.value, p.incoming.tables)

variable {p q : MessageParser}

theorem lines_mk {f v : Option Str} {m n : IncomingMessage} (h : m.tables = n.tables) :
    (⟨f, v, m⟩ : MessageParser).lines = (⟨f, v, n⟩ : MessageParser).lines := by
  simp only [lines, h]

theorem tables_flush {m n : IncomingMessage} (h : m.tables = n.tables) (f v : Option Str) :
    (⟨f, v, m⟩ : MessageParser).flush.tables = (⟨f, v, n⟩ : MessageParser).flush.tables := by
  cases f <;> cases v
  case some.some field value => exact IncomingMessage.tables_addHeaderLine h field value
  all_goals exact h

theorem tables_onBody (p : MessageParser) (data : Str) :
    (p.onBody data).lines = p.lines := by
  unfold onBody lines
  dsimp only
  split_ifs <;> rfl

theorem lines_onMessageComplete (p : MessageParser) :
    p.onMessageComplete.lines =
      (p.field, p.value,
        ({ p with incoming := { p.incoming with complete := true } } : MessageParser).flush.tables) := by
  unfold onMessageComplete lines
  dsimp only
  split_ifs
  · rfl
  · rfl
  · rw [IncomingMessage.tables_emitEnd]
    rfl

/-- The lines do not depend on how the body is delivered. -/
theorem lines_step (h : p.lines = q.lines) (c : Callback) : (p.step c).lines = (q.step c).lines := by
  obtain ⟨f, v, m⟩ := p
  obtain ⟨g, w, n⟩ := q
  obtain ⟨rfl, htail⟩ := Prod.mk.inj h
  obtain ⟨rfl, htables⟩ := Prod.mk.inj htail
  unfold step
  split_ifs
  · exact h
  · cases c with
    | messageBegin => rfl
    | url data => exact h
    | headerField data =>
      cases f <;> cases v
      case some.some field value =>
        exact lines_mk (IncomingMessage.tables_addHeaderLine htables field value)
      all_goals exact lines_mk htables
    | headerValue data => cases v <;> exact lines_mk htables
    | headersComplete info =>
      have hlines (m : IncomingMessage) : ((⟨f, v, m⟩ : MessageParser).onHeadersComplete info).lines =
          (if f.isSome && v.isSome then none else f, if f.isSome && v.isSome then none else v,
            (⟨f, v, m⟩ : MessageParser).flush.tables) := rfl
      dsimp only
      rw [hlines, hlines, tables_flush htables f v]
    | body data =>
      dsimp only
      rw [tables_onBody, tables_onBody]
      exact h
    | messageComplete =>
      dsimp only
      rw [lines_onMessageComplete, lines_onMessageComplete]
      dsimp only
      rw [tables_flush (IncomingMessage.tables_complete htables) f v]

end MessageParser

namespace BodyDelivery

/-- The lines are those of a parser that does nothing but run the callbacks. -/
def Follows (s : BodyDelivery) : Prop :=
  s.parser.lines = (run MessageParser.step ⟨none, none, .init⟩ s.history).lines

/-- A change of the delivery only. -/
def Quiet (s t : BodyDelivery) : Prop := t.parser.lines = s.parser.lines ∧ t.history = s.history

variable {s t : BodyDelivery}

theorem Follows.quiet (h : s.Follows) (hquiet : s.Quiet t) : t.Follows := by
  unfold Follows
  rw [hquiet.1, hquiet.2]
  exact h

theorem Quiet.trans {u : BodyDelivery} (h : s.Quiet t) (h' : t.Quiet u) : s.Quiet u :=
  ⟨h'.1.trans h.1, h'.2.trans h.2⟩

theorem quiet_setMessage {m : IncomingMessage} (h : m.tables = s.message.tables) :
    s.Quiet (s.setMessage m) :=
  ⟨MessageParser.lines_mk h, rfl⟩

theorem quiet_emitEnd (s : BodyDelivery) : s.Quiet (s.setMessage s.message.emitEnd) :=
  quiet_setMessage (by simp)

theorem quiet_emitPending (s : BodyDelivery) (callback : Bool) :
    s.Quiet (s.emitPending callback) := by
  unfold emitPending
  split_ifs
  · exact ⟨rfl, rfl⟩
  · exact s.quiet_emitEnd
  · exact ⟨rfl, rfl⟩

theorem quiet_endPending (s : BodyDelivery) (callback : Bool) :
    s.Quiet (s.endPending callback) := by
  unfold endPending
  dsimp only
  split_ifs
  · exact quiet_emitEnd { s with running := none }
  · exact ⟨rfl, rfl⟩

theorem quiet_endMessage (s : BodyDelivery) : s.Quiet s.endMessage :=
  quiet_setMessage (by rw [IncomingMessage.tables_emitEnd]; rfl)

theorem quiet_loop (s : BodyDelivery) (callback : Bool) : s.Quiet (s.loop callback) := by
  unfold loop
  split_ifs
  · exact s.quiet_endPending callback
  · split
    · exact s.quiet_endPending callback
    · exact ⟨rfl, rfl⟩
    · next rest _ =>
      have hset : s.Quiet (s.setMessage { s.message with pendings := rest }) := ⟨rfl, rfl⟩
      dsimp only
      split_ifs
      · exact ⟨rfl, rfl⟩
      · exact (hset.trans (quiet_endMessage _)).trans (quiet_endPending _ callback)

theorem Follows.runCallback (h : s.Follows) (c : Callback) : (s.runCallback c).Follows := by
  unfold Follows BodyDelivery.runCallback
  rw [run_append]
  exact MessageParser.lines_step h c

theorem Follows.step (h : s.Follows) (e : Event) : (s.step e).Follows := by
  unfold BodyDelivery.step
  cases e with
  | callback c =>
    dsimp only
    split_ifs
    · exact h.runCallback c
    · exact h
  | pause => exact h.quiet ⟨rfl, rfl⟩
  | resume => exact (h.quiet ⟨rfl, rfl⟩).quiet (quiet_emitPending _ false)
  | tick =>
    dsimp only
    split
    · exact Follows.quiet (s := { s with ticks := _ }) h (quiet_loop _ _)
    · exact h
  | returned =>
    dsimp only
    split
    · exact h.quiet (s.quiet_loop _)
    · exact h
  | close completes =>
    have habort : s.abort.Follows := by
      unfold abort
      dsimp only
      split_ifs
      · exact Follows.quiet (s := { s with closed := true }) h (quiet_emitPending _ true)
      · exact h
    unfold close
    dsimp only
    split_ifs
    · exact h
    · exact habort.runCallback _
    · exact habort

/-- In every run the lines are those of the callbacks alone. -/
theorem run_follows (es : List Event) : (run step init es).Follows :=
  run_invariant (I := Follows) (fun _ e h => h.step e) (show init.Follows from rfl) es

/-- The callbacks of a message with trailers. -/
def messageCallbacks (urls : List Str) (lines : List HeaderLine) (info : HeadersInfo)
    (bodies : List Str) (trailers : List HeaderLine) : List Callback :=
  MessageParser.headCallbacks urls lines info ++ bodies.map .body ++
    trailers.flatMap HeaderLine.callbacks ++ [.messageComplete]

/-- The field and the value of each line. -/
def pairs (lines : List HeaderLine) : List (Str × Str) := lines.map fun l => (l.field, l.value)

theorem lines_bodies (p : MessageParser) (bodies : List Str) :
    (run MessageParser.step p (bodies.map .body)).lines = p.lines := by
  induction bodies generalizing p with
  | nil => rfl
  | cons data bodies ih =>
    rw [List.map_cons, run_cons, ih]
    exact p.tables_onBody data

/-- The end of a message whose lines come after the headers `m.headers`. -/
theorem tables_trailers {p : MessageParser} (hfield : p.field = none) (hvalue : p.value = none)
    (hcomplete : p.incoming.complete = false) (trailers : List HeaderLine) :
    (run MessageParser.step p
      (trailers.flatMap HeaderLine.callbacks ++ [.messageComplete])).incoming.tables =
      (true, p.incoming.headers.addLines (pairs trailers).dropLast,
        p.incoming.trailers.addLines (pairs trailers).getLast?.toList) := by
  have hend (q : MessageParser) : (run MessageParser.step q [.messageComplete]).incoming.tables =
      ({ q with incoming := { q.incoming with complete := true } } : MessageParser).flush.tables :=
    congrArg (fun l => l.2.2) (MessageParser.lines_onMessageComplete q)
  obtain ⟨f, v, m⟩ := p
  dsimp only at hfield hvalue hcomplete
  subst hfield hvalue
  rw [run_append, hend]
  rcases List.eq_nil_or_concat' trailers with rfl | ⟨init, last, rfl⟩
  · rfl
  · obtain ⟨heven, hflush⟩ := MessageParser.run_lines (p := ⟨none, none, m⟩) rfl init
    have hinit := hflush.trans (IncomingMessage.addHeaderLines_headers hcomplete (pairs init))
    rw [List.flatMap_append, run_append, List.flatMap_cons, List.flatMap_nil, List.append_nil,
      MessageParser.run_line heven last, hinit]
    simp [MessageParser.flush, IncomingMessage.addHeaderLine, IncomingMessage.tables, pairs,
      Headers.addLines]

/-- The last trailer is a trailer, the others go to the headers. -/
theorem tables_message (urls : List Str) (lines : List HeaderLine) (info : HeadersInfo)
    (bodies : List Str) (trailers : List HeaderLine) :
    (run MessageParser.step ⟨none, none, .init⟩
      (messageCallbacks urls lines info bodies trailers)).incoming.tables =
      (true,
        Headers.addLines (IncomingMessage.init.addHeaderLines (pairs lines)).headers
          (pairs trailers).dropLast,
        Headers.addLines .empty (pairs trailers).getLast?.toList) := by
  obtain ⟨hfield, hvalue, hcomplete, htrailers, hheaders⟩ :=
    MessageParser.run_head ⟨none, none, .init⟩ urls lines info
  have hbodies := lines_bodies (run MessageParser.step ⟨none, none, .init⟩
    (MessageParser.headCallbacks urls lines info)) bodies
  simp only [MessageParser.lines, IncomingMessage.tables, Prod.mk.injEq] at hbodies
  obtain ⟨hfield', hvalue', hcomplete', hheaders', htrailers'⟩ := hbodies
  have hsplit : messageCallbacks urls lines info bodies trailers =
      MessageParser.headCallbacks urls lines info ++ (bodies.map .body ++
        (trailers.flatMap HeaderLine.callbacks ++ [.messageComplete])) := by
    simp [messageCallbacks]
  rw [hsplit, run_append, run_append,
    tables_trailers (hfield'.trans hfield) (hvalue'.trans hvalue) (hcomplete'.trans hcomplete),
    hheaders'.trans hheaders, htrailers'.trans htrailers]
  rfl

/-- When a message with trailers is complete, its tables of headers and trailers are as they
should be only with one trailer, or where it cannot be seen: the others have become headers. -/
theorem trailers_iff (es : List Event) (urls : List Str) (lines : List HeaderLine)
    (info : HeadersInfo) (bodies : List Str) (trailers : List HeaderLine)
    (hmessage : .messageBegin :: (run step init es).history =
      messageCallbacks urls lines info bodies trailers) :
    ((run step init es).message.trailers = Headers.addLines .empty (pairs trailers) ∧
      (run step init es).message.headers =
        (run MessageParser.step ⟨none, none, .init⟩
          (MessageParser.headCallbacks urls lines info)).incoming.headers) ↔
      Headers.Spared (pairs lines) (pairs trailers) := by
  have hlines : (run step init es).parser.lines =
      (run MessageParser.step ⟨none, none, .init⟩
        (messageCallbacks urls lines info bodies trailers)).lines := by
    rw [← hmessage]
    exact run_follows es
  have htables := (congrArg (fun l => l.2.2) hlines).trans
    (tables_message urls lines info bodies trailers)
  simp only [IncomingMessage.tables, MessageParser.lines, Prod.mk.injEq] at htables
  obtain ⟨-, hheaders, htrailers⟩ := htables
  have hhead := (MessageParser.run_head ⟨none, none, .init⟩ urls lines info).2.2.2.2
  have hfold : (IncomingMessage.init.addHeaderLines (pairs lines)).headers =
      Headers.addLines .empty (pairs lines) :=
    congrArg IncomingMessage.headers
      (IncomingMessage.addHeaderLines_headers (m := .init) rfl (pairs lines))
  rw [hfold] at hheaders
  rw [message, hheaders, htrailers, hhead.trans hfold, ← Headers.spared_iff]

theorem trailers_iff_one :
    let info : HeadersInfo := ⟨false, [], 200, 1, 1, true, false⟩
    let foo : HeaderLine := ⟨["X-".toList, "Foo".toList], ["bar".toList], by decide, by decide⟩
    let s := run step init ([.headersComplete info, .body "body".toList,
      .headerField "X-".toList, .headerField "Foo".toList, .headerValue "bar".toList,
      .messageComplete].map .callback)
    .messageBegin :: s.history = messageCallbacks [] [] info ["body".toList] [foo] ∧
      s.message.trailers = Headers.addLines .empty (pairs [foo]) := by
  intro info foo s
  have hmessage : .messageBegin :: s.history =
      messageCallbacks [] [] info ["body".toList] [foo] := rfl
  exact ⟨hmessage, ((trailers_iff _ [] [] info ["body".toList] [foo] hmessage).mpr
    (.inl (by decide))).1⟩

/-- Of two trailers the first one becomes a header. -/
theorem trailer_in_headers :
    let info : HeadersInfo := ⟨false, [], 200, 1, 1, true, false⟩
    let foo : HeaderLine := ⟨["X-Foo".toList], ["bar".toList], by decide, by decide⟩
    let baz : HeaderLine := ⟨["X-Baz".toList], ["quux".toList], by decide, by decide⟩
    let s := run step init ([.headersComplete info, .body "body".toList,
      .headerField "X-Foo".toList, .headerValue "bar".toList, .headerField "X-Baz".toList,
      .headerValue "quux".toList, .messageComplete].map .callback)
    .messageBegin :: s.history = messageCallbacks [] [] info ["body".toList] [foo, baz] ∧
      s.message.emitted = [.data "body".toList, .end] ∧
      s.message.trailers "x-foo".toList = none ∧
      s.message.headers "x-foo".toList = some (.text "bar".toList) :=
  ⟨rfl, by decide, by decide, by decide⟩

end BodyDelivery

end LuaNode
