import LuaNode.Library.Runs
import LuaNode.Library.Text

/-!
# The read modes of the native socket

`Socket::Read` of `luanode_net.cpp` and its three handlers. `read("*l")`, `read("*a")` and `read(n)` go
through the stream buffer `m_inputBuffer`, in which a receive may leave more than was asked for;
`read()` goes through an array of its own. The receives that the system completes are events, so that
the bytes come in any segments. Only one read is under way at a time, and `read_callback` is set.
-/

namespace LuaNode.Net

/-- An error of a receive: the end of the stream, or another one by its text. -/
inductive ReceiveError
  | eof
  | other (message : Str)
  deriving DecidableEq

/-- The argument of `read`. -/
inductive ReadMode
  | some
  | line
  | all
  | size (num : ℕ)
  deriving DecidableEq

/-- `ReadSizeCondition`, which does not look at the error. -/
def readSizeCondition (requestedNum accumulatedLen : ℕ) : ℕ :=
  if requestedNum ≤ accumulatedLen then 0 else 65536

/-- `ReadEofCondition`. -/
def readEofCondition (error : Option ReceiveError) : ℕ :=
  if error = some .eof then 0 else 65536

/-- The completion condition of an `async_read`. -/
inductive ReadCondition
  | size (requestedNum : ℕ)
  | eof
  deriving DecidableEq

/-- How much more may be transferred: nothing when the read is to complete. -/
def ReadCondition.answer : ReadCondition → Option ReceiveError → ℕ → ℕ
  | .size requestedNum, _, accumulatedLen => readSizeCondition requestedNum accumulatedLen
  | .eof, error, _ => readEofCondition error

/-- The read that is under way. -/
inductive PendingRead
  /-- `async_read_some` into `m_inputArray` -/
  | readSome
  /-- `async_read_until` the delimiter -/
  | readUntil
  /-- `async_read`, with what it has transferred -/
  | read (condition : ReadCondition) (transferred : ℕ)
  /-- the handler was posted, the buffer having what it needs -/
  | posted (bytesTransferred : ℕ)
  deriving DecidableEq

/-- A call of `read_callback`. -/
structure ReadCall where
  error : Option ReceiveError
  data : Option Str
  deriving DecidableEq

structure InputSocket where
  /-- `m_inputBuffer` -/
  inputBuffer : Str
  pending : Option PendingRead
  /-- the calls of `read_callback` so far -/
  calls : List ReadCall
  /-- the bytes that the receives have brought so far -/
  received : Str
  deriving DecidableEq

inductive InputEvent
  | read (mode : ReadMode)
  /-- a receive brings bytes, at least one -/
  | receive (data : Str) (some : data ≠ [])
  /-- a receive fails -/
  | fail (error : ReceiveError)
  /-- the posted handler runs -/
  | post

/-- How long the first line of a text is, its delimiter included. -/
def lineLength : Str → Option ℕ
  | [] => none
  | c :: rest => if c = '\n' then some 1 else (lineLength rest).map (· + 1)

namespace InputSocket

variable (s : InputSocket)

def init : InputSocket := ⟨[], none, [], []⟩

/-- The data handed to `read_callback`, joined. -/
def delivered : Str := s.calls.flatMap fun c => c.data.getD []

def callBack (error : Option ReceiveError) (data : Option Str) : InputSocket :=
  { s with pending := none, calls := s.calls ++ [⟨error, data⟩] }

/-- The first bytes of the buffer go to `read_callback` and are consumed. -/
def handOver (error : Option ReceiveError) (size : ℕ) : InputSocket :=
  { s.callBack error (some (s.inputBuffer.take size)) with
    inputBuffer := s.inputBuffer.drop size }

/-- `HandleReadDelimited`. -/
def handleReadDelimited (error : Option ReceiveError) (bytesTransferred : ℕ) : InputSocket :=
  if error = none then s.handOver none bytesTransferred
  -- regardless of 'bytes_transferred' whatever is available is pushed
  else if s.inputBuffer.length > 0 then s.handOver error s.inputBuffer.length
  else s.callBack error none

/-- `HandleReadSome`. -/
def handleReadSome (error : Option ReceiveError) (data : Str) : InputSocket :=
  if error = none then s.callBack none (some data) else s.callBack error none

/-- `HandleReadSize`. -/
def handleReadSize (error : Option ReceiveError) (bytesTransferred : ℕ) : InputSocket :=
  if error = none then s.handOver none bytesTransferred
  else if bytesTransferred > 0 then s.handOver error bytesTransferred
  else s.callBack error none

/-- `Read`. -/
def read : ReadMode → InputSocket
  | .some => { s with pending := some .readSome }
  | .line =>
    match lineLength s.inputBuffer with
    | some length => { s with pending := some (.posted length) }
    | none => { s with pending := some .readUntil }
  | .all => { s with pending := some (.read .eof 0) }
  | .size num =>
    let size := s.inputBuffer.length
    if num ≤ size then { s with pending := some (.posted num) }
    else { s with pending := some (.read (.size (num - size)) 0) }

/-- A receive into the buffer, of an `async_read` that goes on until its condition is met. -/
def transfer (condition : ReadCondition) (transferred : ℕ) (error : Option ReceiveError)
    (data : Str) : InputSocket :=
  let s := { s with inputBuffer := s.inputBuffer ++ data, received := s.received ++ data }
  let transferred := transferred + data.length
  if condition.answer error transferred = 0 then s.handleReadSize error transferred
  else { s with pending := some (.read condition transferred) }

/-- A receive into the buffer, of an `async_read_until`. -/
def search (data : Str) : InputSocket :=
  let s := { s with inputBuffer := s.inputBuffer ++ data, received := s.received ++ data }
  match lineLength s.inputBuffer with
  | some length => s.handleReadDelimited none length
  | none => s

def step : InputEvent → InputSocket
  | .read mode => if s.pending = none then s.read mode else s
  | .receive data _ =>
    match s.pending with
    | some .readSome => { s.handleReadSome none data with received := s.received ++ data }
    | some .readUntil => s.search data
    | some (.read condition transferred) => s.transfer condition transferred none data
    | some (.posted _) | none => s
  | .fail error =>
    match s.pending with
    | some .readSome => s.handleReadSome (some error) []
    | some .readUntil => s.handleReadDelimited (some error) 0
    | some (.read condition transferred) => s.transfer condition transferred (some error) []
    | some (.posted _) | none => s
  | .post =>
    match s.pending with
    | some (.posted bytesTransferred) => s.handleReadSize none bytesTransferred
    | _ => s

/-- What every read relies on: the bytes that came are those that were handed over, and behind them
those in the buffer. -/
structure Accounted : Prop where
  bytes : s.delivered ++ s.inputBuffer = s.received
  posted : ∀ n, s.pending = some (.posted n) → n ≤ s.inputBuffer.length
  transferred : ∀ c n, s.pending = some (.read c n) → n ≤ s.inputBuffer.length

variable {s}

@[simp] theorem delivered_callBack (error : Option ReceiveError) (data : Option Str) :
    (s.callBack error data).delivered = s.delivered ++ data.getD [] := by
  simp [delivered, callBack]

theorem lineLength_le {text : Str} {n : ℕ} (h : lineLength text = some n) : n ≤ text.length := by
  induction text generalizing n with
  | nil => cases h
  | cons c rest ih =>
    unfold lineLength at h
    split_ifs at h
    · cases h
      exact Nat.succ_le_succ (Nat.zero_le _)
    · obtain ⟨k, hk, rfl⟩ := Option.map_eq_some_iff.mp h
      exact Nat.succ_le_succ (ih hk)

/-- Handing over the first bytes of the buffer keeps the account. -/
theorem Accounted.handOver (h : s.delivered ++ s.inputBuffer = s.received)
    (error : Option ReceiveError) (size : ℕ) : (s.handOver error size).Accounted := by
  refine ⟨?_, ?_, ?_⟩
  · have hdelivered : (s.handOver error size).delivered = s.delivered ++ s.inputBuffer.take size :=
      delivered_callBack error _
    calc (s.handOver error size).delivered ++ s.inputBuffer.drop size
        = s.delivered ++ (s.inputBuffer.take size ++ s.inputBuffer.drop size) := by
          rw [hdelivered, List.append_assoc]
      _ = s.received := by rw [List.take_append_drop, h]
  · rintro n ⟨⟩
  · rintro c n ⟨⟩

theorem Accounted.callBack (h : s.delivered ++ s.inputBuffer = s.received)
    (error : Option ReceiveError) : (s.callBack error none).Accounted := by
  refine ⟨?_, ?_, ?_⟩
  · have hdelivered : (s.callBack error none).delivered = s.delivered := by simp
    rw [hdelivered]
    exact h
  · rintro n ⟨⟩
  · rintro c n ⟨⟩

theorem Accounted.handleReadSize (h : s.delivered ++ s.inputBuffer = s.received)
    (error : Option ReceiveError) (bytesTransferred : ℕ) :
    (s.handleReadSize error bytesTransferred).Accounted := by
  unfold InputSocket.handleReadSize
  split_ifs
  · exact .handOver h none bytesTransferred
  · exact .handOver h error bytesTransferred
  · exact .callBack h error

theorem Accounted.handleReadDelimited (h : s.delivered ++ s.inputBuffer = s.received)
    (error : Option ReceiveError) (bytesTransferred : ℕ) :
    (s.handleReadDelimited error bytesTransferred).Accounted := by
  unfold InputSocket.handleReadDelimited
  split_ifs
  · exact .handOver h none bytesTransferred
  · exact .handOver h error _
  · exact .callBack h error

theorem Accounted.read (h : s.Accounted) (mode : ReadMode) : (s.read mode).Accounted := by
  cases mode with
  | some => exact ⟨h.bytes, by rintro n ⟨⟩, by rintro c n ⟨⟩⟩
  | line =>
    unfold InputSocket.read
    cases hline : lineLength s.inputBuffer with
    | none => exact ⟨h.bytes, by rintro n ⟨⟩, by rintro c n ⟨⟩⟩
    | some length =>
      refine ⟨h.bytes, ?_, by rintro c n ⟨⟩⟩
      rintro n ⟨⟩
      exact lineLength_le hline
  | all =>
    refine ⟨h.bytes, by rintro n ⟨⟩, ?_⟩
    rintro c n ⟨⟩
    exact Nat.zero_le _
  | size num =>
    unfold InputSocket.read
    dsimp only
    split_ifs with hnum
    · refine ⟨h.bytes, ?_, by rintro c n ⟨⟩⟩
      rintro n ⟨⟩
      exact hnum
    · refine ⟨h.bytes, by rintro n ⟨⟩, ?_⟩
      rintro c n ⟨⟩
      exact Nat.zero_le _

theorem Accounted.transfer (h : s.Accounted) {condition : ReadCondition} {transferred : ℕ}
    (hpending : s.pending = some (.read condition transferred)) (error : Option ReceiveError)
    (data : Str) : (s.transfer condition transferred error data).Accounted := by
  have hbytes : s.delivered ++ (s.inputBuffer ++ data) = s.received ++ data := by
    rw [← List.append_assoc, h.bytes]
  unfold InputSocket.transfer
  dsimp only
  split_ifs
  · exact Accounted.handleReadSize hbytes error _
  · refine ⟨hbytes, by rintro n ⟨⟩, ?_⟩
    rintro c n ⟨⟩
    have hle := h.transferred condition transferred hpending
    simpa using hle

theorem Accounted.search (h : s.Accounted) (hpending : s.pending = some .readUntil) (data : Str) :
    (s.search data).Accounted := by
  have hbytes : s.delivered ++ (s.inputBuffer ++ data) = s.received ++ data := by
    rw [← List.append_assoc, h.bytes]
  unfold InputSocket.search
  dsimp only
  cases lineLength (s.inputBuffer ++ data) with
  | some length => exact Accounted.handleReadDelimited hbytes none length
  | none =>
    refine ⟨hbytes, fun n hn => ?_, fun c n hn => ?_⟩
    · cases hpending.symm.trans hn
    · cases hpending.symm.trans hn

/-- `read()` gets bytes when there are none left over in the buffer. -/
def NoSurplus (s : InputSocket) : InputEvent → Prop
  | .receive _ _ => s.pending = some .readSome → s.inputBuffer = []
  | _ => True

theorem Accounted.step (h : s.Accounted) {e : InputEvent} (hsurplus : s.NoSurplus e) :
    (s.step e).Accounted := by
  cases e with
  | read mode =>
    unfold InputSocket.step
    dsimp only
    split_ifs
    · exact h.read mode
    · exact h
  | receive data hdata =>
    unfold InputSocket.step
    cases hpending : s.pending with
    | none => simpa only [hpending] using h
    | some p =>
      cases p with
      | readSome =>
        have hempty := hsurplus hpending
        have hbytes := h.bytes
        rw [hempty, List.append_nil] at hbytes
        refine ⟨?_, by rintro n ⟨⟩, by rintro c n ⟨⟩⟩
        simp [handleReadSome, InputSocket.callBack, delivered, hempty, ← hbytes]
      | readUntil => exact h.search hpending data
      | read condition transferred => exact h.transfer hpending none data
      | posted n => exact h
  | fail error =>
    unfold InputSocket.step
    cases hpending : s.pending with
    | none => exact h
    | some p =>
      cases p with
      | readSome => exact .callBack h.bytes (some error)
      | readUntil => exact .handleReadDelimited h.bytes (some error) 0
      | read condition transferred => exact h.transfer hpending (some error) []
      | posted n => exact h
  | post =>
    unfold InputSocket.step
    cases hpending : s.pending with
    | none => exact h
    | some p =>
      cases p with
      | posted n => exact .handleReadSize h.bytes none n
      | _ => exact h

/-- In every run of reads in any modes, over any segments, in which `read()` gets bytes only when the
buffer holds none, what has been delivered is a prefix of what has been received. -/
theorem delivered_prefix {es : List InputEvent} (hes : Guarded step NoSurplus init es) :
    ∀ t ∈ statesOf step init es, t.delivered <+: t.received := by
  intro t ht
  have hinit : init.Accounted := ⟨rfl, by rintro n ⟨⟩, by rintro c n ⟨⟩⟩
  have h := guarded_states_invariant (fun s e hs hg => hs.step hg) hinit hes ht
  exact ⟨t.inputBuffer, h.bytes⟩

theorem delivered_line_size :
    let t := run step init [.read .line, .receive "a\nb".toList (by decide), .read (.size 1), .post,
      .read .some, .receive "c".toList (by decide)]
    t.delivered <+: t.received := by
  have hguarded : Guarded step NoSurplus init [.read .line, .receive "a\nb".toList (by decide),
      .read (.size 1), .post, .read .some, .receive "c".toList (by decide)] :=
    ⟨trivial, fun _ => rfl, trivial, trivial, trivial, fun _ => rfl, trivial⟩
  exact delivered_prefix hguarded _ (run_mem_statesOf step init _)

/-- `read("*l")` leaves a byte in the buffer that `read()` passes over. -/
theorem delivered_skips :
    let t := run step init [.read .line, .receive "a\nb".toList (by decide), .read .some,
      .receive "c".toList (by decide)]
    ¬t.delivered <+: t.received := by
  decide

/-! ### Counted reads -/

theorem answer_size_iff {requestedNum accumulatedLen : ℕ} {error : Option ReceiveError} :
    (ReadCondition.size requestedNum).answer error accumulatedLen = 0 ↔
      requestedNum ≤ accumulatedLen := by
  simp [ReadCondition.answer, readSizeCondition]

variable (s) in
/-- A counted read is under way, `arrived` being what its receives have brought. -/
structure Counting (n : ℕ) (arrived : Str) (t : InputSocket) : Prop where
  pending : t.pending = some (.read (.size (n - s.inputBuffer.length)) arrived.length)
  buffer : t.inputBuffer = s.inputBuffer ++ arrived
  received : t.received = s.received ++ arrived
  calls : t.calls = s.calls
  under : arrived.length < n - s.inputBuffer.length

variable (s) in
/-- A read has completed, having delivered the first `size` bytes. -/
structure Counted (size : ℕ) (arrived : Str) (t : InputSocket) : Prop where
  pending : t.pending = none
  buffer : t.inputBuffer = (s.inputBuffer ++ arrived).drop size
  received : t.received = s.received ++ arrived
  calls : t.calls = s.calls ++ [⟨none, some ((s.inputBuffer ++ arrived).take size)⟩]

/-- A counted read completes when its receives have brought what the buffer lacked, and then hands
over as many bytes as they have brought. -/
theorem Counting.step {n : ℕ} {arrived : Str} {t : InputSocket} (h : s.Counting n arrived t)
    (e : InputEvent) :
    (∃ arrived, s.Counting n arrived (t.step e)) ∨
    ∃ arrived, n - s.inputBuffer.length ≤ arrived.length ∧
      s.Counted arrived.length arrived (t.step e) := by
  cases e with
  | read mode =>
    refine Or.inl ⟨arrived, ?_⟩
    have hstep : t.step (.read mode) = t := if_neg (by simp [h.pending])
    rw [hstep]
    exact h
  | receive data hdata =>
    have hstep : t.step (.receive data hdata) =
        t.transfer (.size (n - s.inputBuffer.length)) arrived.length none data := by
      simp [InputSocket.step, h.pending]
    rw [hstep]
    unfold InputSocket.transfer
    dsimp only
    rw [← List.length_append, h.buffer, h.received, List.append_assoc, List.append_assoc]
    by_cases hdone : n - s.inputBuffer.length ≤ (arrived ++ data).length
    · rw [if_pos (answer_size_iff.mpr hdone)]
      refine Or.inr ⟨arrived ++ data, hdone, rfl, rfl, rfl, ?_⟩
      simp [InputSocket.handleReadSize, InputSocket.handOver, InputSocket.callBack, h.calls]
    · rw [if_neg (mt answer_size_iff.mp hdone)]
      exact Or.inl ⟨arrived ++ data, rfl, rfl, rfl, h.calls, Nat.lt_of_not_le hdone⟩
  | fail error =>
    -- the condition does not look at the error
    have hstep : t.step (.fail error) =
        t.transfer (.size (n - s.inputBuffer.length)) arrived.length (some error) [] := by
      simp [InputSocket.step, h.pending]
    rw [hstep]
    unfold InputSocket.transfer
    dsimp only
    rw [List.length_nil, Nat.add_zero, if_neg (mt answer_size_iff.mp (Nat.not_le.mpr h.under)),
      List.append_nil, List.append_nil]
    exact Or.inl ⟨arrived, rfl, h.buffer, h.received, h.calls, h.under⟩
  | post =>
    refine Or.inl ⟨arrived, ?_⟩
    have hstep : t.step .post = t := by simp [InputSocket.step, h.pending]
    rw [hstep]
    exact h

/-- A run of one read ends with the event at which it completes. -/
theorem guarded_done {t : InputSocket} (hdone : t.pending = none) {es : List InputEvent}
    (hunder : Guarded step (fun t _ => t.pending ≠ none) t es) : run step t es = t := by
  cases es with
  | nil => rfl
  | cons e es => exact absurd hdone hunder.1

theorem Counting.run {n : ℕ} {arrived : Str} {t : InputSocket} (h : s.Counting n arrived t)
    {es : List InputEvent} (hunder : Guarded InputSocket.step (fun t _ => t.pending ≠ none) t es)
    (hdone : (LuaNode.run InputSocket.step t es).pending = none) :
    ∃ arrived, n - s.inputBuffer.length ≤ arrived.length ∧
      s.Counted arrived.length arrived (LuaNode.run InputSocket.step t es) := by
  induction es generalizing arrived t with
  | nil => cases h.pending.symm.trans hdone
  | cons e es ih =>
    rcases h.step e with ⟨arrived, hcounting⟩ | ⟨arrived, henough, hcounted⟩
    · exact ih hcounting hunder.2 hdone
    · have hrun := guarded_done hcounted.pending hunder.2
      refine ⟨arrived, henough, ?_⟩
      rw [run_cons, hrun]
      exact hcounted

/-- With enough in the buffer the handler is posted. -/
theorem posted_run {n : ℕ} {t : InputSocket} (hpending : t.pending = some (.posted n))
    {es : List InputEvent} (hunder : Guarded step (fun t _ => t.pending ≠ none) t es)
    (hdone : (run step t es).pending = none) : run step t es = t.handOver none n := by
  induction es with
  | nil => cases hpending.symm.trans hdone
  | cons e es ih =>
    by_cases he : e = .post
    · subst he
      have hstep : t.step .post = t.handOver none n := by
        simp [step, hpending, handleReadSize]
      rw [run_cons]
      rw [guarded_cons] at hunder
      rw [hstep] at hunder ⊢
      exact guarded_done rfl hunder.2
    · have hstep : t.step e = t := by
        cases e with
        | post => exact absurd rfl he
        | _ => simp [step, hpending]
      rw [run_cons] at hdone ⊢
      rw [guarded_cons] at hunder
      rw [hstep] at hunder hdone ⊢
      exact ih hunder.2 hdone

/-- A counted read delivers the next `n` bytes and leaves the surplus in the buffer exactly when the
buffer has them all, or the receives of the read bring just as many. -/
theorem read_exact_iff {n : ℕ} {es : List InputEvent} (hidle : s.pending = none)
    (hunder : Guarded step (fun t _ => t.pending ≠ none) (s.step (.read (.size n))) es)
    (hdone : (run step s (.read (.size n) :: es)).pending = none) {arrived : Str}
    (harrived : (run step s (.read (.size n) :: es)).received = s.received ++ arrived) :
    s.Counted n arrived (run step s (.read (.size n) :: es)) ↔
      n ≤ s.inputBuffer.length ∨ arrived.length = n := by
  rw [run_cons] at hdone harrived ⊢
  have hread : s.step (.read (.size n)) = s.read (.size n) := if_pos hidle
  rw [hread] at hunder hdone harrived ⊢
  by_cases hn : n ≤ s.inputBuffer.length
  · have hposted : s.read (.size n) = { s with pending := some (.posted n) } := if_pos hn
    rw [hposted] at hunder hdone harrived ⊢
    have hrun := posted_run rfl hunder hdone
    rw [hrun] at harrived ⊢
    have hnone : arrived = [] := by
      have hsame : s.received = s.received ++ arrived := harrived
      simpa using hsame
    subst hnone
    refine iff_of_true ⟨rfl, ?_, ?_, ?_⟩ (Or.inl hn)
    · simp [handOver]
    · simp [handOver, callBack]
    · simp [handOver, callBack]
  · have hcounting : s.Counting n [] (s.read (.size n)) := by
      have hsize : s.read (.size n) =
          { s with pending := some (.read (.size (n - s.inputBuffer.length)) 0) } := if_neg hn
      rw [hsize]
      exact ⟨rfl, (List.append_nil _).symm, (List.append_nil _).symm, rfl,
        Nat.sub_pos_of_lt (Nat.lt_of_not_le hn)⟩
    obtain ⟨arrived', henough, hcounted⟩ := hcounting.run hunder hdone
    obtain rfl : arrived' = arrived :=
      List.append_cancel_left (hcounted.received.symm.trans harrived)
    rw [or_iff_right hn]
    constructor
    · intro h
      have hcalls := List.append_cancel_left (hcounted.calls.symm.trans h.calls)
      have hlength : (min arrived'.length (s.inputBuffer ++ arrived').length) =
          min n (s.inputBuffer ++ arrived').length := by
        simpa using congrArg (fun calls => (calls.flatMap fun c => c.data.getD []).length) hcalls
      rw [List.length_append] at hlength
      omega
    · rintro rfl
      exact hcounted

theorem read_exact_two :
    init.Counted 2 "ab".toList (run step init [.read (.size 2), .receive "a".toList (by decide),
      .receive "b".toList (by decide)]) := by
  have hunder : Guarded step (fun t _ => t.pending ≠ none) (init.step (.read (.size 2)))
      [.receive "a".toList (by decide), .receive "b".toList (by decide)] :=
    ⟨by decide, by decide, trivial⟩
  exact (read_exact_iff rfl hunder rfl rfl).mpr (Or.inr rfl)

/-- One receive may bring more than was asked for: all of it is delivered. -/
theorem read_exact_surplus :
    let t := run step init [.read (.size 2), .receive "abc".toList (by decide)]
    t.pending = none ∧ t.received = "abc".toList ∧ ¬init.Counted 2 "abc".toList t :=
  ⟨rfl, rfl, fun h => absurd h.calls (by decide)⟩

end InputSocket

end LuaNode.Net
