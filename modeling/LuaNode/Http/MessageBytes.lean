import LuaNode.Http.Delivery
import LuaNode.Http.HeaderBlock

/-!
# The bytes of a message

Three results on what a message puts on the wire, for every sequence of calls and every schedule
of its delivery: a finished message gets no more bytes, a chunked message decodes to what was
written, and a message without a body is its header block. Each of them is a fact about the
encoder that is carried over by the steps of `Delivery`.
-/

namespace LuaNode

namespace Encoder

variable {e : Encoder}

/-- A call that has nothing to say once the message is finished: everything but a string for the
body. -/
def Quiet (e : Encoder) (c : Call) : Prop :=
  ∀ data encoding, c = .write (.text data) encoding → data = [] ∨ e.hasBody = false

instance decidableQuiet (e : Encoder) : ∀ c : Call, Decidable (e.Quiet c)
  | .write (.text data) encoding =>
    decidable_of_iff (data = [] ∨ e.hasBody = false)
      ⟨fun h _ _ heq => by cases heq; exact h, fun h => h data encoding rfl⟩
  | .write .other _ => isTrue (by intro _ _ h; cases h)
  | .setHeader _ _ => isTrue (by intro _ _ h; cases h)
  | .removeHeader _ => isTrue (by intro _ _ h; cases h)
  | .addTrailers _ => isTrue (by intro _ _ h; cases h)
  | .writeHead _ _ _ => isTrue (by intro _ _ h; cases h)
  | .writeContinue => isTrue (by intro _ _ h; cases h)
  | .finish _ _ => isTrue (by intro _ _ h; cases h)

theorem call_quiet (hfin : e.finished = true) {c : Call} (hc : e.Quiet c) :
    (e.call c).2 = [] := by
  cases c with
  | write chunk encoding =>
    cases chunk with
    | other => rfl
    | text data =>
      rcases hc data encoding rfl with rfl | hbody
      · simp [call, writeChunk, write_nil]
      · simp [call, writeChunk, write_bodiless hbody]
  | finish data encoding =>
    rcases data with _ | ⟨_ | _⟩ <;> simp [call, finishChunk, finish, hfin]
  | _ => rfl

/-- A message that is finished and has sent its block stays so. -/
theorem call_done (hfin : e.finished = true) (hsent : e.blockSent = true) (c : Call) :
    (e.call c).1.finished = true ∧ (e.call c).1.blockSent = true := by
  cases c with
  | write chunk encoding =>
    cases chunk with
    | other => exact ⟨hfin, hsent⟩
    | text data =>
      simp only [call, writeChunk, write, emit, hsent, if_true]
      split_ifs <;> exact ⟨hfin, hsent⟩
  | finish data encoding =>
    rcases data with _ | ⟨_ | _⟩ <;> simp [call, finishChunk, finish, hfin, hsent]
  | _ => exact ⟨hfin, hsent⟩

theorem emit_sent (data : Str) : (e.emit data).1.blockSent = true := by
  unfold emit
  split_ifs with h
  · exact h
  · rfl

/-- `finish` sends the block. -/
theorem finishChunk_sent (hopen : e.finished = false) (data : Option Chunk)
    (h : (e.finishChunk data).1.finished = true) : (e.finishChunk data).1.blockSent = true := by
  have hfinish : ∀ d, (e.finish d).1.blockSent = true := by
    intro d
    unfold finish
    rw [if_neg (by simp [hopen])]
    exact emit_sent _
  rcases data with _ | ⟨d | _⟩
  · exact hfinish []
  · exact hfinish d
  · unfold finishChunk at h ⊢
    split_ifs at h ⊢
    · simp [hopen] at h
    · exact hfinish []

end Encoder

namespace Delivery

variable {w : Delivery}

/-- The steps that are no calls move bytes. -/
theorem moves_step (w : Delivery) {e : Event} (he : ∀ c, e ≠ .call c) : Moves w (w.step e) := by
  cases e with
  | call c => exact absurd rfl (he c)
  | attach => exact w.moves_attach
  | flush => exact w.moves_flushEvent
  | shut => exact w.moves_shut
  | destroy => exact w.moves_destroy
  | pass owner => exact w.moves_pass owner

/-- A call on a message whose header is stored. -/
theorem call_step (hh : w.msg.header.isSome) {c : Call} (hc : c.isBody = true) :
    (w.step (.call c)).msg.header = w.msg.header ∧
    (w.step (.call c)).msg.encoder = (w.msg.encoder.call c).1 ∧
    (w.socket.destroyed = false ∨ w.msg.connection = false →
      (w.step (.call c)).stream = w.stream ++ (w.msg.encoder.call c).2) ∧
    ((w.step (.call c)).stream = w.stream ++ (w.msg.encoder.call c).2 ∨
      (w.step (.call c)).stream = w.stream) ∧
    (w.step (.call c)).socket.destroyed = w.socket.destroyed ∧
    (w.step (.call c)).socket.writable = w.socket.writable := by
  have h := apply_refines hh w.socket hc
  have hsame := w.settle_same (c.apply w.msg w.socket)
  obtain ⟨hstream, -⟩ := w.settle_stream (c.apply w.msg w.socket)
  obtain ⟨-, hw, hd⟩ := w.settle_msg (c.apply w.msg w.socket)
  simp only [step]
  rw [hsame.header, hsame.encoder, hstream, hw, hd, h.effect.destroyed, h.effect.writable]
  exact ⟨by rw [h.frame], h.encoder, h.effect.stream_eq, h.effect.stream_cases, rfl, rfl⟩

/-! ### A finished message is sealed -/

/-- The state `finish` leaves. -/
structure Done (w : Delivery) : Prop where
  header : w.msg.header.isSome
  finished : w.msg.finished = true
  sent : w.msg.headerSent = true

/-- The calls after `finish` are those of a handler that is done with the header; while the
message can still get bytes to the wire none of them writes a string to its body. -/
def AfterFinish (w : Delivery) : Event → Prop
  | .call c => c.isBody = true ∧ (w.Deliverable → w.msg.encoder.Quiet c)
  | _ => True

instance decidableAfterFinish (w : Delivery) : ∀ e, Decidable (w.AfterFinish e)
  | .call _ => inferInstanceAs (Decidable (_ ∧ (_ → _)))
  | .attach | .flush | .shut | .destroy | .pass _ => isTrue trivial

theorem done_step (h : w.Done) {e : Event} (hg : w.AfterFinish e) :
    (w.step e).Done ∧ (w.Deliverable → (w.step e).stream = w.stream) ∧
    w.stream <+: (w.step e).stream := by
  by_cases he : ∃ c, e = .call c
  · obtain ⟨c, rfl⟩ := he
    obtain ⟨hc, hquiet⟩ := hg
    obtain ⟨hheader, henc, hlive, hcases, -, -⟩ := call_step h.header hc
    have hfin : w.msg.encoder.finished = true := h.finished
    obtain ⟨hfin', hsent'⟩ := Encoder.call_done hfin h.sent c
    rw [← henc] at hfin' hsent'
    refine ⟨⟨by rw [hheader]; exact h.header, hfin', hsent'⟩, fun hd => ?_, ?_⟩
    · have hdead : w.socket.destroyed = false := by
        by_contra hdead
        simp [Deliverable, w.socket.closed (by simpa using hdead)] at hd
      rw [hlive (Or.inl hdead), Encoder.call_quiet hfin (hquiet hd), List.append_nil]
    · rcases hcases with heq | heq <;> rw [heq]
      exact List.prefix_append _ _
  · have hm := w.moves_step fun c hc => he ⟨c, hc⟩
    have henc := hm.same.encoder
    refine ⟨⟨by rw [hm.same.header]; exact h.header, ?_, ?_⟩, fun _ => hm.stream, ?_⟩
    · exact (congrArg Encoder.finished henc).trans h.finished
    · exact (congrArg Encoder.blockSent henc).trans h.sent
    · rw [hm.stream]

/-- The bytes of a message are settled: they are `total`, or the part of it that got through. -/
structure Settled (total : Str) (w : Delivery) : Prop where
  done : w.Done
  proper : w.Proper
  sent : w.sent <+: total
  kept : w.OnTrack → total <+: w.stream
  exact : w.Deliverable → w.stream = total
  gone : w.gone = true → w.sent = total

theorem settled_step {total : Str} (h : w.Settled total) {e : Event} (hg : w.AfterFinish e) :
    (w.step e).Settled total := by
  obtain ⟨hdone, hsame, hgrow⟩ := done_step h.done hg
  have hf := follows_step h.proper e
  have hsent : (w.step e).sent <+: total := by
    by_cases hd : w.Deliverable
    · rw [← h.exact hd, ← hsame hd]
      exact List.prefix_append _ _
    · rw [hf.hold hd]
      exact h.sent
  have hkept : w.OnTrack → total <+: (w.step e).stream := fun ht => (h.kept ht).trans hgrow
  refine ⟨hdone, step_proper h.proper e, hsent, fun ht => hkept (hf.track ht), ?_, fun hgone => ?_⟩
  · intro hd
    have hd' := hf.back hd
    rw [hsame hd', h.exact hd']
  · obtain ⟨-, hcase⟩ := hf.leave hgone
    rcases hcase with hwas | ⟨ht, hout⟩
    · have hd : ¬ w.Deliverable := fun hd => by simp [hd.2.1] at hwas
      rw [hf.hold hd]
      exact h.gone hwas
    · have hall : (w.step e).stream = (w.step e).sent := by
        rw [stream_eq_sent, hout, List.flatten_nil, List.append_nil]
      have hback := hkept ht
      rw [hall] at hback
      exact hsent.eq_of_length_le hback.length_le

/-- The state in which `finish` returns. -/
theorem finish_done (hgone : w.gone = false) (hopen : w.msg.finished = false)
    {data : Option Chunk} {encoding : Option Str} {v : Option Bool}
    (hret : (w.msg.finish w.socket data encoding).ret = .ok v) :
    (w.step (.call (.finish data encoding))).Settled
      (w.step (.call (.finish data encoding))).stream := by
  have hspec := w.msg.ensureHeader_spec w.socket
  have hproper : w.Proper := fun hg => by simp [hgone] at hg
  have hf := follows_call hproper (.finish data encoding)
  have hfin := OutgoingMessage.finish_finished w.msg w.socket data hret
  -- the header is stored, so the call refines the encoder's
  have hdone : (w.step (.call (.finish data encoding))).Done := by
    have hsame := w.settle_same (w.msg.finish w.socket data encoding)
    obtain ⟨-, hkeep, hmatch⟩ := hspec
    cases hopened : w.msg.opened with
    | none =>
      rw [hopened] at hmatch
      obtain ⟨-, err, herr⟩ := hmatch
      rw [OutgoingMessage.finish_unopened hopen herr, herr] at hret
      cases hret
    | some r =>
      rw [hopened] at hmatch
      obtain ⟨-, -, hsome, hok⟩ := hmatch
      have href := OutgoingMessage.finish_refines hsome (w.msg.ensureHeader w.socket).socket data
        encoding
      rw [← OutgoingMessage.finish_opened hopen hok hsome] at href
      have henc : (w.msg.ensureHeader w.socket).self.encoder.finished = false :=
        hkeep.trans hopen
      have hsent := Encoder.finishChunk_sent henc data
        ((congrArg Encoder.finished href.encoder).symm.trans hfin)
      rw [← href.encoder] at hsent
      refine ⟨?_, ?_, ?_⟩
      · change (w.settle (w.msg.finish w.socket data encoding)).msg.header.isSome
        rw [hsame.header, href.frame]
        exact hsome
      · exact (congrArg Encoder.finished hsame.encoder).trans hfin
      · exact (congrArg Encoder.blockSent hsame.encoder).trans hsent
  refine ⟨hdone, step_proper hproper _, List.prefix_append _ _, fun _ => List.prefix_rfl,
    fun _ => rfl, fun hg => ?_⟩
  obtain ⟨-, hcase⟩ := hf.leave hg
  rcases hcase with hwas | ⟨-, hout⟩
  · simp [hgone] at hwas
  · rw [stream_eq_sent, hout, List.flatten_nil, List.append_nil]

/-- Once `finish` has returned, in every run in which no string is written to the body while it
could still get to the wire, the message contributes the bytes it had then: on a connection that
lives all of them, and on one that dies a part from the front. -/
theorem finished_sealed (w : Delivery) (hgone : w.gone = false)
    (hopen : w.msg.finished = false) (data : Option Chunk) (encoding : Option Str)
    (v : Option Bool) (hret : (w.msg.finish w.socket data encoding).ret = .ok v)
    (es : List Event)
    (hg : Guarded step AfterFinish (w.step (.call (.finish data encoding))) es) :
    let total := (w.step (.call (.finish data encoding))).stream
    let w' := run step (w.step (.call (.finish data encoding))) es
    w'.sent <+: total ∧ (w'.Deliverable → w'.stream = total) ∧
      (w'.gone = true → w'.sent = total) := by
  intro total w'
  have h : w'.Settled total :=
    guarded_invariant (I := Settled total) (fun _ _ h hg => settled_step h hg)
      (finish_done hgone hopen hret) hg
  exact ⟨h.sent, h.exact, h.gone⟩

/-- A request with a body that has just been given its socket. -/
def postRequest : Delivery :=
  step ⟨(OutgoingMessage.clientRequest 1 (.inOrder []) (.fresh []) { method := "POST".toList }).self,
    .fresh [], false⟩ .attach

theorem finished_sealed_post :
    let w := postRequest.step (.call (.finish (some (.text "a".toList)) none))
    let w' := run step w [.call (.finish none none), .call (.addTrailers []), .flush]
    w'.sent <+: w.stream ∧ (w'.Deliverable → w'.stream = w.stream) ∧
      (w'.gone = true → w'.sent = w.stream) :=
  finished_sealed postRequest rfl rfl (some (.text "a".toList)) none _ rfl
    [.call (.finish none none), .call (.addTrailers []), .flush] (by decide)

/-- A string written behind `finish` goes out behind the last chunk. -/
theorem late_write_appended :
    ¬ ∀ (w : Delivery), w.gone = false → w.msg.finished = false →
      ∀ (data : Option Chunk) (encoding : Option Str) (v : Option Bool),
      (w.msg.finish w.socket data encoding).ret = .ok v →
      ∀ es : List Event, (∀ c, .call c ∈ es → c.isBody = true) →
      let total := (w.step (.call (.finish data encoding))).stream
      let w' := run step (w.step (.call (.finish data encoding))) es
      w'.sent <+: total ∧ (w'.Deliverable → w'.stream = total) ∧
        (w'.gone = true → w'.sent = total) := by
  intro h
  have hbad := h postRequest rfl rfl (some (.text "a".toList)) none _ rfl
    [.call (.write (.text "b".toList) none)] (by simp [Call.isBody])
  revert hbad
  decide

end Delivery

/-! ### The chunked coding -/

/-- The strings that a call adds to the body: an empty one adds nothing. -/
def Call.chunks : Call → List Str
  | .write (.text data) _ | .finish (some (.text data)) _ => if data = [] then [] else [data]
  | _ => []

theorem Call.chunks_ne_nil (c : Call) : ∀ d ∈ c.chunks, d ≠ [] := by
  intro d hd
  unfold chunks at hd
  split at hd
  · split_ifs at hd <;> simp_all
  · split_ifs at hd <;> simp_all
  · simp at hd

namespace Encoder

variable {e : Encoder} {pre b : Str} {ds : List Str}

/-- The bytes `b` of a chunked message: what went out before it, the block, a chunk for each of
the strings `ds`, and the end. -/
structure Emitted (pre : Str) (ds : List Str) (e : Encoder) (b : Str) : Prop where
  bytes : b = pre ++ if e.blockSent then
    e.block ++ ds.flatMap encodeChunk ++ (if e.finished then e.ending else []) else []
  unsent : e.blockSent = false → ds = [] ∧ e.finished = false

/-- Whether the block is still to be sent or not, bytes end up behind the chunks. -/
theorem Emitted.emit (h : Emitted pre ds e b) (hopen : e.finished = false) (data : Str) :
    b ++ (e.emit data).2 = pre ++ (e.block ++ ds.flatMap encodeChunk ++ data) := by
  unfold Encoder.emit
  rw [h.bytes, hopen]
  cases hsent : e.blockSent with
  | true => simp
  | false => simp [(h.unsent hsent).1]

theorem emit_fields (e : Encoder) (data : Str) :
    (e.emit data).1 = { e with blockSent := true } := by
  unfold Encoder.emit
  split_ifs with h
  · rw [← h]
  · rfl

theorem Emitted.write (h : Emitted pre ds e b) (hbody : e.hasBody = true)
    (hchunked : e.chunked = true) (hopen : e.finished = false) (data : Str) :
    Emitted pre (ds ++ if data = [] then [] else [data]) (e.write data).1
      (b ++ (e.write data).2) := by
  unfold Encoder.write
  by_cases hdata : data = []
  · rw [if_pos hdata, if_pos (Or.inr hdata)]
    simpa using h
  · rw [if_neg hdata, if_neg (by simp [hbody, hdata]), emit_fields, h.emit hopen]
    refine ⟨?_, fun hs => by simp at hs⟩
    simp [hopen, frame, hchunked]

theorem Emitted.finish (h : Emitted pre ds e b) (hbody : e.hasBody = true)
    (hchunked : e.chunked = true) (hopen : e.finished = false) (data : Str) :
    Emitted pre (ds ++ if data = [] then [] else [data]) (e.finish data).1
      (b ++ (e.finish data).2) := by
  have hw := h.write hbody hchunked hopen data
  have hopen' : (e.write data).1.finished = false := by
    unfold Encoder.write
    split_ifs
    · exact hopen
    · rw [emit_fields]; exact hopen
  have hfinish : e.finish data = ({ (e.write data).1 with blockSent := true, finished := true },
      (e.write data).2 ++ ((e.write data).1.emit (e.write data).1.ending).2) := by
    unfold Encoder.finish
    rw [if_neg (by simp [hopen])]
    dsimp only
    rw [emit_fields]
  rw [hfinish, ← List.append_assoc, hw.emit hopen']
  refine ⟨?_, fun hs => by simp at hs⟩
  simp [ending]

/-- Every call keeps to the coding. -/
theorem Emitted.call (h : Emitted pre ds e b) (hbody : e.hasBody = true)
    (hchunked : e.chunked = true) (hopen : e.finished = false) (c : Call) :
    Emitted pre (ds ++ c.chunks) (e.call c).1 (b ++ (e.call c).2) := by
  have hsame : Emitted pre (ds ++ []) e (b ++ []) := by simpa using h
  cases c with
  | write chunk encoding =>
    cases chunk with
    | other => exact hsame
    | text data => exact h.write hbody hchunked hopen data
  | finish data encoding =>
    rcases data with _ | ⟨data | _⟩
    · exact h.finish hbody hchunked hopen []
    · exact h.finish hbody hchunked hopen data
    · have hraise : e.call (.finish (some .other) encoding) = (e, []) := by
        simp [Encoder.call, finishChunk, hbody]
      rw [hraise]
      exact hsame
  | addTrailers headers =>
    refine ⟨?_, fun hs => ⟨by simpa [Call.chunks] using (h.unsent hs).1, hopen⟩⟩
    have hbytes := h.bytes
    rw [hopen] at hbytes
    simpa [Encoder.call, addTrailers, Call.chunks, hopen] using hbytes
  | _ => exact hsame

/-- Calls do not change the framing. -/
theorem call_framing (e : Encoder) (c : Call) :
    (e.call c).1.hasBody = e.hasBody ∧ (e.call c).1.chunked = e.chunked := by
  have hwrite : ∀ data, (e.write data).1.hasBody = e.hasBody ∧
      (e.write data).1.chunked = e.chunked := by
    intro data
    unfold Encoder.write
    split_ifs
    · exact ⟨rfl, rfl⟩
    · rw [emit_fields]; exact ⟨rfl, rfl⟩
  have hfinish : ∀ data, (e.finish data).1.hasBody = e.hasBody ∧
      (e.finish data).1.chunked = e.chunked := by
    intro data
    unfold Encoder.finish
    split_ifs
    · exact ⟨rfl, rfl⟩
    · dsimp only
      rw [emit_fields]
      exact hwrite data
  cases c with
  | write chunk encoding =>
    cases chunk with
    | other => exact ⟨rfl, rfl⟩
    | text data => exact hwrite data
  | finish data encoding =>
    rcases data with _ | ⟨data | _⟩
    · exact hfinish []
    · exact hfinish data
    · simp only [Encoder.call, finishChunk]
      split_ifs
      · exact ⟨rfl, rfl⟩
      · exact hfinish []
  | _ => exact ⟨rfl, rfl⟩

end Encoder

namespace Delivery

variable {w w' : Delivery} {pre : Str} {ds : List Str}

/-- The strings an event adds to the body. -/
def Event.chunks : Event → List Str
  | .call c => c.chunks
  | _ => []

/-- The strings a run adds to the body. -/
def written (es : List Event) : List Str := es.flatMap Event.chunks

/-- A message under way on a socket that lives: no call behind `finish` and none that raises,
and the header is stored once. -/
def Scheduled (w : Delivery) : Event → Prop
  | .call c => w.msg.finished = false ∧ (∃ v, (c.apply w.msg w.socket).ret = .ok v) ∧
      (c.isBody = true ∨
        w.msg.header = none ∧ ∃ status reason headers, c = .writeHead status reason headers)
  | .shut | .destroy => False
  | .attach | .flush | .pass _ => True

/-- A message that has sent at most its header block, `pre` being what its stream held before. -/
structure Unwritten (pre : Str) (w : Delivery) : Prop where
  writable : w.socket.writable = true
  present : w.gone = false
  unfinished : w.msg.finished = false
  unstored : w.msg.header = none → w.msg.headerSent = false
  stream : w.stream = pre ++ if w.msg.headerSent then w.msg.header.getD [] else []
  clear : w.msg.connection = true → w.socket.httpMessage = some w.msg.id → w.msg.output = []

/-- The invariant of a message that is written in chunks. -/
structure Framing (pre : Str) (ds : List Str) (w : Delivery) : Prop where
  writable : w.socket.writable = true
  proper : w.Proper
  left : w.gone = true → w.msg.finished = true ∧ w.sent = w.stream
  clear : w.msg.connection = true → w.socket.httpMessage = some w.msg.id → w.msg.output = []
  fresh : w.msg.header = none → w.msg.headerSent = false ∧ w.msg.finished = false ∧ ds = [] ∧
    w.stream = pre
  body : w.msg.header.isSome → w.msg.hasBody = true → w.msg.chunkedEncoding = true →
    Encoder.Emitted pre ds w.msg.encoder w.stream

theorem Unwritten.framing (h : Unwritten pre w) : Framing pre [] w where
  writable := h.writable
  proper := fun hg => by simp [h.present] at hg
  left := fun hg => by simp [h.present] at hg
  clear := h.clear
  fresh := fun hnone => ⟨h.unstored hnone, h.unfinished, rfl, by
    rw [h.stream, h.unstored hnone]; simp⟩
  body := fun _ _ _ => by
    have hopen : w.msg.encoder.finished = false := h.unfinished
    refine ⟨?_, fun _ => ⟨rfl, hopen⟩⟩
    rw [h.stream, hopen]
    simp only [List.flatMap_nil, List.append_nil, Bool.false_eq_true, if_false]
    rfl

theorem alive (h : w.socket.writable = true) : w.socket.destroyed = false := by
  by_contra hd
  simp [w.socket.closed (by simpa using hd)] at h

/-- On a writable socket the buffer of the message that has it stays empty. -/
theorem settle_clear {o : Outcome} {p : Str} (hw : w.socket.writable = true)
    (he : Effect w.msg w.socket o.self o.socket p)
    (hs : o.finish = true → Sealed o.self o.socket)
    (hclear : w.msg.connection = true → w.socket.httpMessage = some w.msg.id →
      w.msg.output = []) :
    (w.settle o).msg.connection = true →
      (w.settle o).socket.httpMessage = some (w.settle o).msg.id →
      (w.settle o).msg.output = [] := by
  rcases w.settle_cases hs with heq | ⟨-, -, -, hout⟩
  · rw [heq]
    intro hc hm
    rw [he.connection] at hc
    rw [he.httpMessage, he.id] at hm
    exact he.drained hc hw hm (hclear hc hm)
  · exact fun _ _ => hout

theorem settle_left {o : Outcome} (hs : o.finish = true → Sealed o.self o.socket)
    (hg : w.gone = false) (hgone : (w.settle o).gone = true) :
    (w.settle o).msg.finished = true ∧ (w.settle o).sent = (w.settle o).stream := by
  rcases w.settle_cases hs with heq | ⟨hfin, -, -, hout⟩
  · rw [heq] at hgone
    simp [hg] at hgone
  · refine ⟨?_, ?_⟩
    · exact (congrArg Encoder.finished (w.settle_same o).encoder).trans (hs hfin).finished
    · rw [stream_eq_sent, hout, List.flatten_nil, List.append_nil]

/-- The steps that are no calls. -/
theorem framing_moves (h : Framing pre ds w) (hm : Moves w w') (hf : Follows w w')
    (hw : w'.socket.writable = true)
    (hclear : w'.msg.connection = true → w'.socket.httpMessage = some w'.msg.id →
      w'.msg.output = [])
    (hleft : w.gone = false → w'.gone = true → w'.msg.finished = true) :
    Framing pre ds w' := by
  have henc := hm.same.encoder
  have hsent : w'.msg.headerSent = w.msg.headerSent := congrArg Encoder.blockSent henc
  have hfin : w'.msg.finished = w.msg.finished := congrArg Encoder.finished henc
  refine ⟨hw, fun hg => (hf.leave hg).1, fun hg => ?_, hclear, ?_, ?_⟩
  · obtain ⟨-, hcase⟩ := hf.leave hg
    cases hwas : w.gone with
    | true =>
      obtain ⟨hfinished, hall⟩ := h.left hwas
      have hd : ¬ w.Deliverable := fun hd => by simp [hd.2.1] at hwas
      exact ⟨hfin.trans hfinished, by rw [hf.hold hd, hm.stream, hall]⟩
    | false =>
      refine ⟨hleft hwas hg, ?_⟩
      rcases hcase with hwas' | ⟨-, hout⟩
      · simp [hwas] at hwas'
      · rw [stream_eq_sent, hout, List.flatten_nil, List.append_nil]
  · rw [hm.same.header, hsent, hfin, hm.stream]
    exact h.fresh
  · rw [hm.same.header, henc, hm.stream]
    intro hh hb hc
    exact h.body hh ((congrArg Encoder.hasBody henc).symm.trans hb)
      ((congrArg Encoder.chunked henc).symm.trans hc)

/-- A flush, `a` being the state in which it starts. -/
theorem framing_flush {a : Delivery} (h : Framing pre ds w)
    (hm : a.socket.httpMessage = some a.msg.id) (hw : a.socket.writable = true)
    (hmoves : Moves w (w.settle (a.msg.flush a.socket)))
    (hfollows : Follows w (w.settle (a.msg.flush a.socket))) :
    Framing pre ds (w.settle (a.msg.flush a.socket)) := by
  have heff := (a.msg.flush_effect a.socket hm).1
  have hs := a.msg.flush_sealed a.socket hm
  refine framing_moves h hmoves hfollows ?_ ?_ fun hg hgone => (settle_left hs hg hgone).1
  · rw [(w.settle_msg _).2.1, heff.writable, hw]
  · rcases w.settle_cases hs with heq | ⟨-, -, -, hout⟩
    · rw [heq]
      intro hc _
      exact a.msg.flush_output a.socket hw (heff.connection.symm.trans hc) hm
    · exact fun _ _ => hout

theorem framing_attach (h : Framing pre ds w) : Framing pre ds (w.step .attach) := by
  have hmoves := w.moves_attach
  have hfollows := follows_attach h.proper
  rcases w.step_attach with heq | ⟨-, -, heq | ⟨hw, -⟩⟩
  · rw [heq]
    exact h
  · rw [heq] at hmoves hfollows ⊢
    exact framing_flush (a := w.given) h rfl h.writable hmoves hfollows
  · simp [h.writable] at hw

theorem framing_flushEvent (h : Framing pre ds w) : Framing pre ds (w.step .flush) := by
  have hmoves := w.moves_flushEvent
  have hfollows := follows_flush h.proper
  simp only [step] at hmoves hfollows ⊢
  split_ifs at hmoves hfollows ⊢ with hm
  · exact framing_flush (a := w) h hm h.writable hmoves hfollows
  · exact h

theorem framing_pass (h : Framing pre ds w) (owner : Option ℕ) :
    Framing pre ds (w.step (.pass owner)) := by
  have hmoves := w.moves_pass owner
  have hfollows := follows_step h.proper (.pass owner)
  simp only [step] at hmoves hfollows ⊢
  split_ifs at hmoves hfollows ⊢ with hp
  · exact framing_moves h hmoves hfollows h.writable (fun _ hm => absurd hm hp.1)
      fun hg hgone => by simp [hg] at hgone
  · exact h

/-- A call on a message whose header is stored. -/
theorem framing_body (h : Framing pre ds w) (hh : w.msg.header.isSome)
    (hopen : w.msg.finished = false) {c : Call} (hc : c.isBody = true) :
    Framing pre (ds ++ c.chunks) (w.step (.call c)) := by
  obtain ⟨hheader, henc, hlive, -, -, hw⟩ := call_step hh hc
  have hgone : w.gone = false := by
    by_contra hg
    simp [(h.left (by simpa using hg)).1] at hopen
  have hstream := hlive (Or.inl (alive h.writable))
  obtain ⟨hbody, hchunked⟩ := Encoder.call_framing w.msg.encoder c
  rw [← henc] at hbody hchunked
  refine ⟨hw.trans h.writable, step_proper h.proper _, settle_left apply_sealed hgone,
    settle_clear h.writable (apply_effect c _ _) apply_sealed h.clear, ?_, ?_⟩
  · intro hnone
    rw [hheader] at hnone
    simp [hnone] at hh
  · intro _ hb hk
    rw [henc, hstream]
    exact (h.body hh (hbody.symm.trans hb) (hchunked.symm.trans hk)).call (hbody.symm.trans hb)
      (hchunked.symm.trans hk) hopen c

/-- Storing the header begins the message. -/
theorem framing_opens (h : Framing pre ds w) (hnone : w.msg.header = none)
    (ho : Opens w w') (hsome : w'.msg.header.isSome) : Framing pre ds w' := by
  obtain ⟨-, hopen, rfl, hpre⟩ := h.fresh hnone
  have hgone : w'.gone = false := by
    rw [ho.gone]
    by_contra hg
    simp [(h.left (by simpa using hg)).1] at hopen
  have hstream := ho.effect.stream_eq (Or.inl (alive h.writable))
  have hw : w'.socket.writable = true := ho.effect.writable.trans h.writable
  refine ⟨hw, fun hg => by simp [hgone] at hg, fun hg => by simp [hgone] at hg, ?_, ?_, ?_⟩
  · intro hc hm
    have hc' := ho.effect.connection.symm.trans hc
    have hm' : w.socket.httpMessage = some w.msg.id := by
      rw [← ho.effect.httpMessage, ← ho.id]
      exact hm
    exact ho.effect.drained hc' h.writable hm' (h.clear hc' hm')
  · intro hnone'
    simp [hnone'] at hsome
  · intro _ _ _
    have hopen' : w'.msg.encoder.finished = false := ho.finished.trans hopen
    refine ⟨?_, fun _ => ⟨rfl, hopen'⟩⟩
    have hpre' : w.msg.stream w.socket = pre := hpre
    change w'.msg.stream w'.socket = _
    rw [hstream, hpre', hopen']
    simp only [List.flatMap_nil, List.append_nil, Bool.false_eq_true, if_false]
    rfl

/-- A call that leaves the header alone. -/
theorem framing_setup (h : Framing pre ds w) (hnone : w.msg.header = none)
    (he : Effect w.msg w.socket w'.msg w'.socket []) (hheader : w'.msg.header = none)
    (hsent : w'.msg.headerSent = w.msg.headerSent) (hfin : w'.msg.finished = w.msg.finished)
    (hgone : w'.gone = w.gone) : Framing pre ds w' := by
  obtain ⟨hunsent, hopen, hds, hpre⟩ := h.fresh hnone
  have hin : w.gone = false := by
    by_contra hg
    simp [(h.left (by simpa using hg)).1] at hopen
  have hstream := he.stream_eq (Or.inl (alive h.writable))
  rw [List.append_nil] at hstream
  refine ⟨he.writable.trans h.writable, fun hg => by simp [hgone, hin] at hg,
    fun hg => by simp [hgone, hin] at hg, ?_, fun _ => ?_, fun hsome => by simp [hheader] at hsome⟩
  · intro hc hm
    have hc' := he.connection.symm.trans hc
    have hm' : w.socket.httpMessage = some w.msg.id := by
      rw [← he.httpMessage, ← he.id]
      exact hm
    exact he.drained hc' h.writable hm' (h.clear hc' hm')
  · exact ⟨hsent.trans hunsent, hfin.trans hopen, hds, hstream.trans hpre⟩

theorem setup_chunks {c : Call} (hc : c.isSetup = true) : c.chunks = [] := by
  cases c with
  | write chunk encoding => cases hc
  | finish data encoding => cases hc
  | _ => rfl

/-- One step of a scheduled message. -/
theorem framing_step (h : Framing pre ds w) {e : Event} (hg : w.Scheduled e) :
    Framing pre (ds ++ e.chunks) (w.step e) := by
  cases e with
  | call c =>
    obtain ⟨hopen, hok, hc⟩ := hg
    change Framing pre (ds ++ c.chunks) _
    rcases hc with hc | ⟨hnone, status, reason, headers, rfl⟩
    · by_cases hnone : w.msg.header = none
      · rcases call_unstored w hnone hopen hc with
          ⟨hset, hheader, he, hsent, hfin, -, hgone⟩ | ⟨-, hensure, heq⟩ | ⟨-, ⟨err, -, herr⟩, -⟩
        · rw [setup_chunks hset, List.append_nil]
          exact framing_setup h hnone he hheader hsent hfin hgone
        · obtain ⟨hopens, hsome, -⟩ := w.opened_opens hnone hensure
          rw [heq]
          exact framing_body (framing_opens h hnone hopens hsome) hsome
            (hopens.finished.trans hopen) hc
        · obtain ⟨v, hv⟩ := hok
          rw [herr] at hv
          cases hv
      · exact framing_body h (Option.isSome_iff_ne_none.mpr hnone) hopen hc
    · obtain ⟨hopens, hsome, -⟩ := w.writeHead_opens hok
      rw [show (Call.writeHead status reason headers).chunks = [] from rfl, List.append_nil]
      exact framing_opens h hnone hopens hsome
  | attach => simpa [Event.chunks] using framing_attach h
  | flush => simpa [Event.chunks] using framing_flushEvent h
  | shut => exact hg.elim
  | destroy => exact hg.elim
  | pass owner => simpa [Event.chunks] using framing_pass h owner

/-- A run adds the strings of its calls, in order. By induction on the events. -/
theorem framing_run {es : List Event} (h : Framing pre ds w)
    (hg : Guarded step Scheduled w es) : Framing pre (ds ++ written es) (run step w es) := by
  induction es generalizing w ds with
  | nil => simpa [written] using h
  | cons e es ih =>
    have hstep := ih (framing_step h hg.1) hg.2
    rw [List.append_assoc] at hstep
    exact hstep

/-- `finish` is the last call, and what it finishes stays finished. -/
theorem finished_run {es : List Event} (hg : Guarded step Scheduled w es)
    (hfin : w.msg.finished = true ∨ ∃ data encoding, .call (.finish data encoding) ∈ es) :
    (run step w es).msg.finished = true := by
  induction es generalizing w with
  | nil => simpa using hfin
  | cons e es ih =>
    refine ih hg.2 ?_
    rcases hfin with hfin | ⟨data, encoding, hmem⟩
    · refine Or.inl ?_
      by_cases he : ∃ c, e = .call c
      · obtain ⟨c, rfl⟩ := he
        have hopen := hg.1.1
        rw [hfin] at hopen
        cases hopen
      · have hm := w.moves_step fun c hc => he ⟨c, hc⟩
        exact (congrArg Encoder.finished hm.same.encoder).trans hfin
    · rcases List.mem_cons.mp hmem with rfl | hmem
      · obtain ⟨v, hv⟩ := hg.1.2.1
        refine Or.inl ?_
        have hfin := OutgoingMessage.finish_finished w.msg w.socket data hv
        exact (congrArg Encoder.finished (w.settle_same _).encoder).trans hfin
      · exact Or.inr ⟨data, encoding, hmem⟩

theorem written_ne_nil (es : List Event) : ∀ d ∈ written es, d ≠ [] := by
  intro d hd
  obtain ⟨e, -, he⟩ := List.mem_flatMap.mp hd
  cases e with
  | call c => exact c.chunks_ne_nil d he
  | _ => simp [Event.chunks] at he

/-- The bytes of a message that is finished in chunks, and that they are on the wire when the message
has its socket, or has left it. -/
theorem chunked_stream (pre : Str) (w : Delivery) (h : Unwritten pre w) (es : List Event)
    (hg : Guarded step Scheduled w es) (hfin : ∃ data encoding, .call (.finish data encoding) ∈ es)
    (hbody : (run step w es).msg.hasBody = true)
    (hchunked : (run step w es).msg.chunkedEncoding = true) :
    ∃ block, (run step w es).msg.header = some block ∧
      (run step w es).stream = pre ++ (block ++ ((written es).flatMap encodeChunk ++
        (hex 0 ++ crlf ++ ((run step w es).msg.trailer ++ crlf)))) ∧
      ((run step w es).gone = true ∨ (run step w es).msg.connection = true ∧
          (run step w es).socket.httpMessage = some (run step w es).msg.id →
        (run step w es).sent = (run step w es).stream) := by
  set w' := run step w es
  have hframing : Framing pre (written es) w' := by
    simpa using framing_run h.framing hg
  have hfinished : w'.msg.encoder.finished = true := finished_run hg (Or.inr hfin)
  have hsome : w'.msg.header.isSome := by
    by_contra hnone
    have hopen := (hframing.fresh (by simpa using hnone)).2.1
    rw [show w'.msg.finished = true from hfinished] at hopen
    cases hopen
  obtain ⟨block, hblock⟩ := Option.isSome_iff_exists.mp hsome
  have hemitted := hframing.body hsome hbody hchunked
  have hsent : w'.msg.encoder.blockSent = true := by
    by_contra hs
    have := (hemitted.unsent (by simpa using hs)).2
    rw [hfinished] at this
    cases this
  have hend : w'.msg.encoder.ending = hex 0 ++ crlf ++ (w'.msg.trailer ++ crlf) := by
    have hc : w'.msg.encoder.chunked = true := hchunked
    unfold Encoder.ending
    rw [if_pos hc]
    rfl
  refine ⟨block, hblock, ?_, fun hdone => ?_⟩
  · have hb : w'.msg.encoder.block = block := by
      simp [OutgoingMessage.encoder, hblock]
    rw [hemitted.bytes, hsent, hfinished, hend, hb]
    simp only [if_true, List.append_assoc]
  · rcases hdone with hgone | ⟨hconn, hmsg⟩
    · exact (hframing.left hgone).2
    · rw [stream_eq_sent, hframing.clear hconn hmsg, List.flatten_nil, List.append_nil]

/-- The round trip of a chunked message. Whatever the schedule, the stream of a finished message
is its header block and a text that decodes to the strings written, in order; and when the
message has its socket, or has left it, the stream is on the wire. -/
theorem chunked_round_trip (pre : Str) (w : Delivery) (h : Unwritten pre w) (es : List Event)
    (hg : Guarded step Scheduled w es)
    (hfin : ∃ data encoding, .call (.finish data encoding) ∈ es) :
    let w' := run step w es
    w'.msg.hasBody = true → w'.msg.chunkedEncoding = true →
      ∃ block text, w'.msg.header = some block ∧ w'.stream = pre ++ (block ++ text) ∧
        decodeChunks text = some (written es, w'.msg.trailer ++ crlf) ∧
        (w'.gone = true ∨ w'.msg.connection = true ∧ w'.socket.httpMessage = some w'.msg.id →
          w'.sent = pre ++ (block ++ text)) := by
  intro w' hbody hchunked
  obtain ⟨block, hblock, hstream, hsent⟩ := chunked_stream pre w h es hg hfin hbody hchunked
  exact ⟨block, _, hblock, hstream, decodeChunks_encode _ (written_ne_nil es) _,
    fun hdone => (hsent hdone).trans hstream⟩

/-- A response that the server has just made. -/
theorem serverResponse_unwritten (id : ℕ) (runtime : Runtime) (req : IncomingRequest)
    (results : List Bool) :
    Unwritten [] ⟨serverResponse id runtime req, .fresh results, false⟩ :=
  ⟨rfl, rfl, rfl, fun _ => rfl, rfl, fun h => by cases h⟩

/-- A response that starts in the buffer and ends on the socket. -/
theorem chunked_round_trip_queued :
    let w := run step ⟨serverResponse 0 (.inOrder []) plainRequest, .fresh [], false⟩
      [.call (.write (.text "a".toList) none), .attach, .call (.write (.text []) none),
        .call (.finish (some (.text "b".toList)) none)]
    ∃ block text, w.msg.header = some block ∧ w.stream = [] ++ (block ++ text) ∧
      decodeChunks text = some (["a".toList, "b".toList], w.msg.trailer ++ crlf) ∧
      (w.gone = true ∨ w.msg.connection = true ∧ w.socket.httpMessage = some w.msg.id →
        w.sent = [] ++ (block ++ text)) :=
  chunked_round_trip [] ⟨serverResponse 0 (.inOrder []) plainRequest, .fresh [], false⟩
    (serverResponse_unwritten 0 (.inOrder []) plainRequest [])
    [.call (.write (.text "a".toList) none), .attach, .call (.write (.text []) none),
      .call (.finish (some (.text "b".toList)) none)]
    ⟨⟨rfl, ⟨_, rfl⟩, Or.inl rfl⟩, trivial, ⟨rfl, ⟨_, rfl⟩, Or.inl rfl⟩, ⟨rfl, ⟨_, rfl⟩, Or.inl rfl⟩,
      trivial⟩
    ⟨some (.text "b".toList), none, by simp⟩ rfl rfl

end Delivery

/-! ### Messages without a body -/

namespace Stored

variable {st st' : Stored} {err : LuaError}

theorem store_error_self {field : Str} {value : Scalar}
    (h : st.store field value = .error (err, st')) : st'.self = st.self := by
  unfold store at h
  dsimp only at h
  split at h
  all_goals first
    | (cases h; rfl)
    | (split_ifs at h)
    | cases h

/-- Lines that do not ask for chunks leave the message unchunked, also when one raises. -/
theorem storeAll_error_fields {lines : List (Str × Scalar)}
    (h : st.storeAll lines = .error (err, st'))
    (hword : hasWord .transferEncoding "chunk".toList lines = false) :
    st'.self.header = st.self.header ∧ st'.self.headerSent = st.self.headerSent ∧
    st'.self.chunkedEncoding = st.self.chunkedEncoding := by
  induction lines generalizing st with
  | nil => cases h
  | cons l lines ih =>
    rw [hasWord, List.any_cons, Bool.or_eq_false_iff] at hword
    unfold storeAll at h
    cases hl : raises l with
    | false =>
      rw [store_ok st hl] at h
      have hrest := ih h hword.2
      have hone : (st.collect [l]).self.chunkedEncoding = st.self.chunkedEncoding := by
        change (st.self.chunkedEncoding || hasWord _ _ [l]) = _
        rw [hasWord, List.any_cons, hword.1]
        simp
      exact ⟨hrest.1, hrest.2.1, hrest.2.2.trans hone⟩
    | true =>
      obtain ⟨e, he⟩ := store_raises st hl
      rw [he] at h
      cases h
      rw [store_error_self he]
      exact ⟨rfl, rfl, rfl⟩

end Stored

/-- What the parts of `_storeHeader` before its last statement leave, `lines` being the header
lines they are given. -/
def BlockSpec (m : OutgoingMessage) (lines : List (Str × Scalar)) :
    Except (LuaError × OutgoingMessage) (OutgoingMessage × Bool) → Prop
  | .ok (m', _) => (∃ block, m'.header = some block ∧ crlf ++ crlf <:+ block) ∧
      (m.chunkedEncoding = false → hasWord .transferEncoding "chunk".toList lines = false →
        m'.hasBody = false → m'.chunkedEncoding = false)
  | .error (_, m') => hasWord .transferEncoding "chunk".toList lines = false →
      m'.header = m.header ∧ m'.headerSent = m.headerSent ∧
      m'.chunkedEncoding = m.chunkedEncoding

/-- Lines end in CRLF, so the block ends in an empty line. -/
theorem blockText_crlf (firstLine : Str) (h : crlf <:+ firstLine) (ls : List (Str × Str)) :
    crlf <:+ firstLine ++ blockText ls := by
  induction ls using List.reverseRecOn with
  | nil => simpa [blockText] using h
  | append_singleton ls l _ =>
    refine ⟨firstLine ++ blockText ls ++ (l.1 ++ ": ".toList ++ l.2), ?_⟩
    simp [blockText, headerLine]

theorem renderBlock_spec (m : OutgoingMessage) (firstLine : Str) (hline : crlf <:+ firstLine)
    (headers : HeaderTable) :
    BlockSpec m (headerLines (headers.walk m.runtime)) (m.renderBlock firstLine headers) := by
  rcases hr : m.renderBlock firstLine headers with ⟨err, m'⟩ | ⟨m', early⟩
  · intro hword
    unfold OutgoingMessage.renderBlock at hr
    split at hr
    next e st hst =>
      cases hr
      exact Stored.storeAll_error_fields hst hword
    next => cases hr
  · obtain ⟨-, rfl, -⟩ := (renderBlock_iff _ _ _ _ _).mp hr
    refine ⟨⟨_, rfl, ?_⟩, fun hchunked hword hbody => ?_⟩
    · obtain ⟨front, hfront⟩ :=
        blockText_crlf firstLine hline (blockLines m (headerLines (headers.walk m.runtime)))
      exact ⟨front, by rw [← hfront]; simp⟩
    · have hbody' : m.hasBody = false := hbody
      simp only [OutgoingMessage.stored, hchunked, hword, hbody', Bool.false_and, Bool.or_false]
      split_ifs <;> rfl

theorem headBlock_spec (m : OutgoingMessage) (statusCode : ℕ) (reasonPhrase : Option Str)
    (headers : Option HeaderTable) :
    BlockSpec m (storedLines m headers) (m.headBlock statusCode reasonPhrase headers) := by
  have hheaders : OutgoingMessage.headHeaders { m with statusCode := statusCode } headers =
      m.headHeaders headers := rfl
  unfold OutgoingMessage.headBlock storedLines
  dsimp only
  rw [hheaders]
  cases ht : m.headHeaders headers with
  | error e => exact fun _ => ⟨rfl, rfl, rfl⟩
  | ok t =>
    obtain ⟨p, hp⟩ : ∃ p : OutgoingMessage,
      p = OutgoingMessage.prepareHead { m with statusCode := statusCode } statusCode := ⟨_, rfl⟩
    have hfields : p.runtime = m.runtime ∧ p.header = m.header ∧
        p.headerSent = m.headerSent ∧ p.chunkedEncoding = m.chunkedEncoding := by
      rw [hp]
      unfold OutgoingMessage.prepareHead
      dsimp only
      split_ifs <;> exact ⟨rfl, rfl, rfl, rfl⟩
    have hspec := renderBlock_spec p (OutgoingMessage.statusLine statusCode reasonPhrase)
      (List.suffix_append _ _) t
    rw [hfields.1] at hspec
    dsimp only
    rw [← hp]
    rcases hr : p.renderBlock (OutgoingMessage.statusLine statusCode reasonPhrase) t with
      ⟨err, m'⟩ | ⟨m', early⟩ <;> rw [hr] at hspec
    · intro hword
      obtain ⟨hh, hs, hc⟩ := hspec hword
      exact ⟨hh.trans hfields.2.1, hs.trans hfields.2.2.1, hc.trans hfields.2.2.2⟩
    · exact ⟨hspec.1, fun hchunked => hspec.2 (hfields.2.2.2.trans hchunked)⟩

/-- The header lines of `_implicitHeader`. -/
def implicitLines (m : OutgoingMessage) : List (Str × Scalar) :=
  match m.kind with
  | .serverResponse => storedLines m none
  | .clientRequest =>
    match m.renderHeaders with
    | .error _ => []
    | .ok headers => headerLines ((HeaderTable.map headers).walk m.runtime)

theorem implicitBlock_spec (m : OutgoingMessage) :
    BlockSpec m (implicitLines m) m.implicitBlock := by
  unfold implicitLines OutgoingMessage.implicitBlock
  cases m.kind with
  | serverResponse => exact headBlock_spec m m.statusCode none none
  | clientRequest =>
    dsimp only
    cases hr : m.renderHeaders with
    | error e => exact fun _ => ⟨rfl, rfl, rfl⟩
    | ok headers =>
      refine renderBlock_spec m _ ?_ (.map headers)
      exact ⟨m.method ++ " ".toList ++ m.path ++ " HTTP/1.1".toList, by simp [crlf]⟩

namespace Encoder

variable {e : Encoder}

theorem finish_bodiless (hbody : e.hasBody = false) (hchunked : e.chunked = false) (data : Str) :
    e.finish data = if e.finished then (e, []) else
      ({ e with blockSent := true, finished := true }, if e.blockSent then [] else e.block) := by
  unfold finish
  by_cases hfin : e.finished = true
  · rw [if_pos hfin, if_pos hfin]
  · have hend : e.ending = [] := by simp [ending, hchunked]
    have hemit : (e.emit []).2 = if e.blockSent then [] else e.block := by
      unfold emit
      split_ifs <;> simp
    rw [if_neg hfin, if_neg hfin, write_bodiless hbody]
    dsimp only
    rw [hend, hemit, emit_fields, List.nil_append]

/-- Without a body and without chunks a call sends the block, if it is still to be sent, or
nothing. -/
theorem call_bodiless (hbody : e.hasBody = false) (hchunked : e.chunked = false) (c : Call) :
    (e.blockSent = true → (e.call c).2 = [] ∧ (e.call c).1.blockSent = true) ∧
    (e.blockSent = false →
      ((e.call c).1.blockSent = false ∧ (e.call c).2 = [] ∧
        (e.call c).1.finished = e.finished) ∨
      ((e.call c).1.blockSent = true ∧ (e.call c).2 = e.block) ∨ e.finished = true) := by
  have hkeep : ∀ r : Encoder × Str, r.2 = [] → r.1.blockSent = e.blockSent →
      r.1.finished = e.finished →
      (e.blockSent = true → r.2 = [] ∧ r.1.blockSent = true) ∧
      (e.blockSent = false → (r.1.blockSent = false ∧ r.2 = [] ∧ r.1.finished = e.finished) ∨
        (r.1.blockSent = true ∧ r.2 = e.block) ∨ e.finished = true) :=
    fun r hp hs hf => ⟨fun h => ⟨hp, hs.trans h⟩, fun h => Or.inl ⟨hs.trans h, hp, hf⟩⟩
  have hfinish : ∀ data, (e.blockSent = true →
      (e.finish data).2 = [] ∧ (e.finish data).1.blockSent = true) ∧
      (e.blockSent = false → ((e.finish data).1.blockSent = false ∧ (e.finish data).2 = [] ∧
        (e.finish data).1.finished = e.finished) ∨
      ((e.finish data).1.blockSent = true ∧ (e.finish data).2 = e.block) ∨
        e.finished = true) := by
    intro data
    rw [finish_bodiless hbody hchunked]
    split_ifs with hfin hsent
    · exact hkeep (e, []) rfl rfl rfl
    · exact ⟨fun _ => ⟨rfl, rfl⟩, fun h => by simp [hsent] at h⟩
    · exact ⟨fun h => absurd h hsent, fun _ => Or.inr (Or.inl ⟨rfl, rfl⟩)⟩
  cases c with
  | write chunk encoding =>
    cases chunk with
    | other => exact hkeep (e, []) rfl rfl rfl
    | text data =>
      rw [show e.call (.write (.text data) encoding) = (e, []) from write_bodiless hbody data]
      exact hkeep (e, []) rfl rfl rfl
  | finish data encoding =>
    rcases data with _ | ⟨data | _⟩
    · exact hfinish []
    · exact hfinish data
    · simpa only [call, finishChunk, hbody, Bool.false_eq_true, if_false] using hfinish []
  | addTrailers headers => exact hkeep (e.addTrailers headers, []) rfl rfl rfl
  | _ => exact hkeep (e, []) rfl rfl rfl

end Encoder

namespace Delivery

variable {w w' : Delivery}

/-- The header lines that a call passes to `_storeHeader`. -/
def givenLines (w : Delivery) : Call → List (Str × Scalar)
  | .writeHead _ _ headers => storedLines w.msg headers
  | .write _ _ | .finish _ _ => if w.msg.header = none then implicitLines w.msg else []
  | _ => []

/-- The header is stored once, and no line of it that is taken for 'Transfer-Encoding' asks for
chunks. -/
def Unchunked (w : Delivery) : Event → Prop
  | .call c => (c.isBody = true ∨
      w.msg.header = none ∧ ∃ status reason headers, c = .writeHead status reason headers) ∧
      hasWord .transferEncoding "chunk".toList (w.givenLines c) = false
  | _ => True

theorem givenLines_implicit (hnone : w.msg.header = none) {c : Call} (hc : c.isBody = true)
    (hset : c.isSetup = false) : w.givenLines c = implicitLines w.msg := by
  cases c with
  | write chunk encoding => exact if_pos hnone
  | finish data encoding => exact if_pos hnone
  | writeHead statusCode reasonPhrase headers => cases hc
  | _ => cases hset

/-- A message of which nothing has been sent and whose header is not stored. -/
structure Untouched (w : Delivery) : Prop where
  header : w.msg.header = none
  unsent : w.msg.headerSent = false
  unfinished : w.msg.finished = false
  unchunked : w.msg.chunkedEncoding = false
  stream : w.stream = []

/-- The invariant of a message that has no body once its header is stored. -/
structure Bare (w : Delivery) : Prop where
  fresh : w.msg.header = none → w.Untouched
  block : ∀ block, w.msg.header = some block → crlf ++ crlf <:+ block
  unchunked : w.msg.header.isSome → w.msg.hasBody = false → w.msg.chunkedEncoding = false
  pending : ∀ block, w.msg.header = some block → w.msg.hasBody = false →
    w.msg.headerSent = false → w.stream = [] ∧ w.msg.finished = false
  stream : ∀ block, w.msg.header = some block → w.msg.hasBody = false →
    w.stream = [] ∨ w.stream = block
  sent : ∀ block, w.msg.header = some block → w.msg.hasBody = false →
    w.msg.headerSent = true → w.socket.destroyed = false → w.stream = block

/-- The steps that are no calls. -/
theorem bare_moves (h : Bare w) (hm : Moves w w') : Bare w' := by
  have henc := hm.same.encoder
  have hbody : w'.msg.hasBody = w.msg.hasBody := congrArg Encoder.hasBody henc
  have hchunked : w'.msg.chunkedEncoding = w.msg.chunkedEncoding := congrArg Encoder.chunked henc
  have hsent : w'.msg.headerSent = w.msg.headerSent := congrArg Encoder.blockSent henc
  have hfin : w'.msg.finished = w.msg.finished := congrArg Encoder.finished henc
  have hheader := hm.same.header
  refine ⟨fun hnone => ?_, ?_, ?_, ?_, ?_, ?_⟩
  · obtain ⟨h1, h2, h3, h4, h5⟩ := h.fresh (hheader ▸ hnone)
    exact ⟨hnone, hsent.trans h2, hfin.trans h3, hchunked.trans h4, hm.stream.trans h5⟩
  · rw [hheader]; exact h.block
  · rw [hheader, hbody, hchunked]; exact h.unchunked
  · rw [hheader, hbody, hsent, hfin, hm.stream]; exact h.pending
  · rw [hheader, hbody, hm.stream]; exact h.stream
  · rw [hheader, hbody, hsent, hm.stream]
    intro block hb hnb hs hd
    refine h.sent block hb hnb hs ?_
    by_contra hdead
    rw [hm.destroyed (by simpa using hdead)] at hd
    cases hd

/-- A call on a message whose header is stored. -/
theorem bare_body (h : Bare w) (hsome : w.msg.header.isSome) {c : Call} (hc : c.isBody = true) :
    Bare (w.step (.call c)) := by
  obtain ⟨hheader, henc, hlive, hcases, hdestroyed, -⟩ := call_step hsome hc
  obtain ⟨hbody, hchunked⟩ := Encoder.call_framing w.msg.encoder c
  rw [← henc] at hbody hchunked
  have hbody' : (w.step (.call c)).msg.hasBody = w.msg.hasBody := hbody
  have hchunked' : (w.step (.call c)).msg.chunkedEncoding = w.msg.chunkedEncoding := hchunked
  obtain ⟨block, hblock⟩ := Option.isSome_iff_exists.mp hsome
  have hb : w.msg.encoder.block = block := by simp [OutgoingMessage.encoder, hblock]
  -- the three facts about a message without a body, together
  have hbare : w.msg.hasBody = false →
      ((w.step (.call c)).msg.headerSent = false →
        (w.step (.call c)).stream = [] ∧ (w.step (.call c)).msg.finished = false) ∧
      ((w.step (.call c)).stream = [] ∨ (w.step (.call c)).stream = block) ∧
      ((w.step (.call c)).msg.headerSent = true → w.socket.destroyed = false →
        (w.step (.call c)).stream = block) := by
    intro hnb
    have hsent' : (w.step (.call c)).msg.headerSent = (w.msg.encoder.call c).1.blockSent :=
      congrArg Encoder.blockSent henc
    have hfin' : (w.step (.call c)).msg.finished = (w.msg.encoder.call c).1.finished :=
      congrArg Encoder.finished henc
    obtain ⟨hold, hnew⟩ := Encoder.call_bodiless (e := w.msg.encoder) hnb (h.unchunked hsome hnb) c
    rw [hsent', hfin']
    cases hs : w.msg.headerSent with
    | true =>
      obtain ⟨hp, hb'⟩ := hold hs
      have hstream : (w.step (.call c)).stream = w.stream := by
        rcases hcases with heq | heq
        · rw [heq, hp, List.append_nil]
        · exact heq
      rw [hstream, hb']
      exact ⟨(fun hf => by cases hf), h.stream block hblock hnb,
        fun _ hd => h.sent block hblock hnb hs hd⟩
    | false =>
      obtain ⟨hempty, hopen⟩ := h.pending block hblock hnb hs
      rcases hnew hs with ⟨hb', hp, hf⟩ | ⟨hb', hp⟩ | hf
      · have hstream : (w.step (.call c)).stream = [] := by
          rcases hcases with heq | heq
          · rw [heq, hp, hempty, List.append_nil]
          · rw [heq, hempty]
        rw [hstream, hb', hf]
        exact ⟨fun _ => ⟨rfl, hopen⟩, Or.inl rfl, fun hf => by cases hf⟩
      · rw [hp, hb, hempty, List.nil_append] at hcases hlive
        rw [hb']
        exact ⟨(fun hf => by cases hf), hcases.symm, fun _ hd => hlive (Or.inl hd)⟩
      · exact absurd hf (by rw [show w.msg.encoder.finished = false from hopen]; simp)
  refine ⟨fun hnone => ?_, ?_, ?_, ?_, ?_, ?_⟩
  · rw [hheader] at hnone
    simp [hnone] at hsome
  · rw [hheader]; exact h.block
  · rw [hheader, hbody', hchunked']; exact h.unchunked
  all_goals
    rw [hheader, hbody', hblock]
    rintro b ⟨rfl⟩ hnb
  · exact (hbare hnb).1
  · exact (hbare hnb).2.1
  · rw [hdestroyed]
    exact (hbare hnb).2.2

/-- A call that leaves the header alone. -/
theorem bare_setup (h : Bare w) (hnone : w.msg.header = none)
    (he : Effect w.msg w.socket w'.msg w'.socket []) (hheader : w'.msg.header = none)
    (hsent : w'.msg.headerSent = w.msg.headerSent) (hfin : w'.msg.finished = w.msg.finished)
    (hchunked : w'.msg.chunkedEncoding = w.msg.chunkedEncoding) : Bare w' := by
  obtain ⟨-, h2, h3, h4, h5⟩ := h.fresh hnone
  have hstream : w'.stream = [] := by
    rcases he.stream_cases with heq | heq
    · exact (heq.trans (List.append_nil _)).trans h5
    · exact heq.trans h5
  refine ⟨fun _ => ⟨hheader, hsent.trans h2, hfin.trans h3, hchunked.trans h4, hstream⟩,
    ?_, ?_, ?_, ?_, ?_⟩
  all_goals simp [hheader]

/-- Storing the header. -/
theorem bare_opens (h : Bare w) (hnone : w.msg.header = none) (ho : Opens w w')
    {block : Str} (hblock : w'.msg.header = some block) (hend : crlf ++ crlf <:+ block)
    (hchunked : w'.msg.hasBody = false → w'.msg.chunkedEncoding = false) : Bare w' := by
  obtain ⟨-, -, hopen, -, hempty⟩ := h.fresh hnone
  have heff := ho.effect
  rw [hblock, Option.getD_some] at heff
  have hlive := heff.stream_eq
  have hcases := heff.stream_cases
  rw [show w.msg.stream w.socket = [] from hempty, List.nil_append] at hlive hcases
  refine ⟨fun hn => ?_, ?_, fun _ => hchunked, ?_, ?_, ?_⟩
  · rw [hblock] at hn
    cases hn
  all_goals
    rw [hblock]
    rintro b ⟨rfl⟩
  · exact hend
  · intro _ hs
    rw [if_neg (by simp [hs]), or_self] at hcases
    exact ⟨hcases, ho.finished.trans hopen⟩
  · intro _
    rcases hcases with heq | heq
    · cases hs : w'.msg.headerSent with
      | true => exact Or.inr (heq.trans (if_pos hs))
      | false => exact Or.inl (heq.trans (if_neg (by simp [hs])))
    · exact Or.inl heq
  · intro _ hs hd
    exact (hlive (Or.inl (heff.destroyed ▸ hd))).trans (if_pos hs)

/-- The header could not be rendered: `_storeHeader` raised on one of its lines. -/
theorem bare_error (h : Bare w) (hnone : w.msg.header = none) {m : OutgoingMessage}
    (hframe : HeadFrame w.msg m) (hkeep : m.header = w.msg.header ∧
      m.headerSent = w.msg.headerSent ∧ m.chunkedEncoding = w.msg.chunkedEncoding) :
    Bare ⟨m, w.socket, w.gone⟩ :=
  bare_setup h hnone (hframe.effect w.socket) (hkeep.1.trans hnone) hkeep.2.1
    hframe.encoder.2 hkeep.2.2

/-- The first of the calls that store the header by themselves, or one that leaves it alone. -/
theorem bare_unstored (h : Bare w) (hnone : w.msg.header = none) {c : Call}
    (hc : c.isBody = true)
    (hword : hasWord .transferEncoding "chunk".toList (w.givenLines c) = false) :
    Bare (w.step (.call c)) := by
  obtain ⟨-, -, hopen, hchunked, -⟩ := h.fresh hnone
  rcases call_unstored w hnone hopen hc with
    ⟨-, hheader, he, hsent, hfin, hch, -⟩ | ⟨hset, hensure, heq⟩ | ⟨hset, ⟨err, herr, -⟩, heq⟩
  · exact bare_setup h hnone he hheader hsent hfin hch
  · have hspec := implicitBlock_spec w.msg
    rw [givenLines_implicit hnone hc hset] at hword
    obtain ⟨hopens, hsome, m', early, hm', hheader, hbody, hch⟩ := w.opened_opens hnone hensure
    rw [hm'] at hspec
    obtain ⟨⟨block, hblock, hend⟩, hun⟩ := hspec
    rw [heq]
    refine bare_body (bare_opens h hnone hopens (hheader.trans hblock) hend fun hnb => ?_) hsome hc
    exact hch.trans (hun hchunked hword (hbody.symm.trans hnb))
  · have hspec := implicitBlock_spec w.msg
    rw [givenLines_implicit hnone hc hset] at hword
    obtain ⟨m', hm', hopened⟩ := w.opened_error hnone herr
    rw [hm'] at hspec
    rw [heq, hopened]
    exact bare_error h hnone (OutgoingMessage.implicitBlock_error hm') (hspec hword)

/-- `writeHead` on a message without a header. -/
theorem bare_writeHead (h : Bare w) (hnone : w.msg.header = none) (statusCode : ℕ)
    (reasonPhrase : Option Str) (headers : Option HeaderTable)
    (hword : hasWord .transferEncoding "chunk".toList (storedLines w.msg headers) = false) :
    Bare (w.step (.call (.writeHead statusCode reasonPhrase headers))) := by
  obtain ⟨-, -, -, hchunked, -⟩ := h.fresh hnone
  have hspec := headBlock_spec w.msg statusCode reasonPhrase headers
  cases hret : ((Call.writeHead statusCode reasonPhrase headers).apply w.msg w.socket).ret with
  | ok v =>
    obtain ⟨hopens, -, m', early, hm', hheader, hbody, hch⟩ := w.writeHead_opens ⟨v, hret⟩
    rw [hm'] at hspec
    obtain ⟨⟨block, hblock, hend⟩, hun⟩ := hspec
    refine bare_opens h hnone hopens (hheader.trans hblock) hend fun hnb => ?_
    exact hch.trans (hun hchunked hword (hbody.symm.trans hnb))
  | error err =>
    rcases w.writeHead_error hret with heq | ⟨m', hm', heq⟩
    · rw [heq]
      exact h
    · rw [hm'] at hspec
      rw [heq]
      exact bare_error h hnone (OutgoingMessage.headBlock_error hm') (hspec hword)

theorem bare_step (h : Bare w) {e : Event} (hg : w.Unchunked e) : Bare (w.step e) := by
  by_cases he : ∃ c, e = .call c
  · obtain ⟨c, rfl⟩ := he
    obtain ⟨hc, hword⟩ := hg
    rcases hc with hc | ⟨hnone, status, reason, headers, rfl⟩
    · by_cases hnone : w.msg.header = none
      · exact bare_unstored h hnone hc hword
      · exact bare_body h (Option.isSome_iff_ne_none.mpr hnone) hc
    · exact bare_writeHead h hnone status reason headers hword
  · exact bare_moves h (w.moves_step fun c hc => he ⟨c, hc⟩)

theorem Untouched.bare (h : w.Untouched) : Bare w := by
  refine ⟨fun _ => h, ?_, ?_, ?_, ?_, ?_⟩
  all_goals simp [h.header]

/-- A message without a body is its header block: it has sent a part of it from the front, and
on a connection that lives the stream of a finished one is the block, which ends in the empty
line. -/
theorem bodiless_exact (w : Delivery) (h : w.Untouched) (es : List Event)
    (hg : Guarded step Unchunked w es) :
    let w' := run step w es
    ∀ block, w'.msg.header = some block → w'.msg.hasBody = false →
      crlf ++ crlf <:+ block ∧ w'.sent <+: block ∧ (w'.stream = [] ∨ w'.stream = block) ∧
      (w'.msg.finished = true → w'.socket.destroyed = false → w'.stream = block) := by
  intro w' block hblock hnb
  have hbare : Bare w' := guarded_invariant (I := Bare) (fun _ _ h hg => bare_step h hg) h.bare hg
  have hstream := hbare.stream block hblock hnb
  refine ⟨hbare.block block hblock, ?_, hstream, fun hfin hd => ?_⟩
  · have hpre : w'.sent <+: w'.stream := List.prefix_append _ _
    rcases hstream with heq | heq <;> rw [heq] at hpre
    · rw [List.prefix_nil.mp hpre]
      exact List.nil_prefix
    · exact hpre
  · cases hs : w'.msg.headerSent with
    | true => exact hbare.sent block hblock hnb hs hd
    | false =>
      have hopen := (hbare.pending block hblock hnb hs).2
      rw [hfin] at hopen
      cases hopen

/-- A response that the server has just made. -/
theorem serverResponse_untouched (id : ℕ) (runtime : Runtime) (req : IncomingRequest)
    (results : List Bool) : Untouched ⟨serverResponse id runtime req, .fresh results, false⟩ :=
  ⟨rfl, rfl, rfl, rfl, rfl⟩

/-- The response to a HEAD request. -/
def headResponse : Delivery :=
  ⟨serverResponse 0 (.inOrder []) { plainRequest with method := "HEAD".toList }, .fresh [], false⟩

/-- A response to HEAD that writes a body, on the socket and in the buffer. -/
theorem bodiless_exact_head :
    let w := run step headResponse [.call (.write (.text "a".toList) none), .attach,
      .call (.finish (some (.text "b".toList)) none)]
    ∀ block, w.msg.header = some block → w.msg.hasBody = false →
      crlf ++ crlf <:+ block ∧ w.sent <+: block ∧ (w.stream = [] ∨ w.stream = block) ∧
      (w.msg.finished = true → w.socket.destroyed = false → w.stream = block) :=
  bodiless_exact headResponse (serverResponse_untouched _ _ _ _)
    [.call (.write (.text "a".toList) none), .attach,
      .call (.finish (some (.text "b".toList)) none)]
    ⟨⟨Or.inl rfl, by decide⟩, trivial, ⟨Or.inl rfl, by decide⟩, trivial⟩

/-- With 'Transfer-Encoding: chunked' among its headers, the response to HEAD ends in a last
chunk. -/
theorem head_chunk_sent :
    ¬ ∀ (w : Delivery), w.Untouched → ∀ es : List Event,
      (∀ c, .call c ∈ es → c.isBody = true) →
      let w' := run step w es
      ∀ block, w'.msg.header = some block → w'.msg.hasBody = false →
        crlf ++ crlf <:+ block ∧ w'.sent <+: block ∧ (w'.stream = [] ∨ w'.stream = block) ∧
        (w'.msg.finished = true → w'.socket.destroyed = false → w'.stream = block) := by
  intro h
  have hbad := h headResponse (serverResponse_untouched _ _ _ _)
    [.attach, .call (.setHeader "Transfer-Encoding".toList (.one (.str "chunked".toList))),
      .call (.finish none none)] (by simp [Call.isBody]) _ rfl rfl
  revert hbad
  decide

end Delivery

end LuaNode
