import LuaNode.Http.HeaderBlock
import LuaNode.Http.ServerConnection

/-!
# The three records of a server connection

`incoming` has the requests that are not answered, `socket._httpMessage` the response that has the
socket and `outgoing` those behind it: three records of one order, which the assertions of the listener
of 'finish' rest on. A response that is the last one leaves the others in `outgoing` and the socket
without an owner, and the next request is then attached before them.
-/

namespace LuaNode

/-- A connection, and whether its parser may still find a request: not after the end of what the
client sends, nor after 'close', where it goes back to the pool. -/
structure ServerSession where
  conn : ServerConnection
  parsing : Bool

namespace ServerConnection

/-- The three records tell one order. -/
def InOrder (c : ServerConnection) : Prop :=
  c.incoming = c.socket.httpMessage.toList ++ c.outgoing

/-- The assertions of the listener of 'finish' of response `i`, and of those that it leads to. -/
def finishHolds : List ℕ → ServerConnection → ℕ → Bool
  | outgoing, c, i =>
    let d := c.depart i
    d.2 && ((d.1.responses i).msg.last ||
      match outgoing with
      | [] => true
      | j :: rest =>
        let o := (d.1.responses j).msg.assignSocket d.1.socket
        d.1.socket.httpMessage.isNone &&
          (!o.finish || finishHolds rest (({ d.1 with outgoing := rest } : ServerConnection).put j o) j))

def performHolds (c : ServerConnection) (i : ℕ) (p : Str)
    (f : OutgoingMessage → Socket → Outcome) : Bool :=
  let o := f (c.responses i).msg c.socket
  !o.finish || finishHolds c.outgoing ((c.record i p).put i o) i

/-- The assertions of a step hold. `onIncoming` calls `assignSocket` under the test of its
assertion. -/
def holds (c : ServerConnection) : Event → Bool
  | .call i f => if i < c.count then c.performHolds i ((c.responses i).msg.produces f) f.apply else true
  | .flush =>
    match c.socket.httpMessage with
    | none => true
    | some i => c.performHolds i [] OutgoingMessage.flush
  | _ => true

end ServerConnection

namespace ServerSession

open ServerConnection (Event)

variable {s : ServerSession}

def initial (runtime : Runtime) (results : List Bool) (httpAllowHalfOpen checkContinue : Bool) :
    ServerSession :=
  ⟨.initial runtime results httpAllowHalfOpen checkContinue, true⟩

def step (s : ServerSession) : Event → ServerSession
  | .request runtime req => if s.parsing then { s with conn := s.conn.onIncoming runtime req } else s
  | .onend => if s.parsing then ⟨s.conn.onend, false⟩ else s
  | .close => if s.conn.socket.destroyed then ⟨s.conn.step .close, false⟩ else s
  | e => { s with conn := s.conn.step e }

/-- The records tell one order; after the end there may be nothing in `incoming`. -/
def Agree (s : ServerSession) : Prop :=
  (s.parsing = false ∧ s.conn.incoming = []) ∨
    s.conn.InOrder

/-- No request comes when a response that was the last one has left others behind. -/
def Prompt (s : ServerSession) : Event → Prop
  | .request _ _ => s.parsing = true → s.conn.socket.httpMessage = none → s.conn.outgoing = []
  | _ => True

def Holds (s : ServerSession) (e : Event) : Prop := s.conn.holds e = true

end ServerSession

namespace ServerConnection

variable {c : ServerConnection}

/-- What the responses are numbered by. -/
structure Numbered (c : ServerConnection) : Prop where
  ids : ∀ j, (c.responses j).msg.id = j
  waiting : ∀ j ∈ c.outgoing, j < c.count

theorem Numbered.put (h : Numbered c) {i : ℕ} {o : Outcome} (hid : o.self.id = i) :
    Numbered (c.put i o) := by
  refine ⟨fun j => ?_, h.waiting⟩
  rw [put_msg]
  split_ifs with hj
  · rw [hid, hj]
  · exact h.ids j

theorem Numbered.record (h : Numbered c) (i : ℕ) (p : Str) : Numbered (c.record i p) := by
  obtain ⟨-, hcount, hout, -⟩ := c.record_rest i p
  refine ⟨fun j => ?_, ?_⟩
  · rw [(c.record_msg i p j).1]
    exact h.ids j
  · rw [hcount, hout]
    exact h.waiting

theorem Numbered.leave (h : Numbered c) (i : ℕ) : Numbered (c.leave i) := by
  refine ⟨fun j => ?_, h.waiting⟩
  rw [(leave_fields c i j).1]
  exact h.ids j

/-- The owner of the socket departs, when it is first in `incoming` or that is empty. -/
theorem depart_owner (h : Numbered c) {i : ℕ} (howner : c.socket.httpMessage = some i)
    (hin : c.incoming = [] ∨ c.incoming.head? = some i) :
    (c.depart i).2 = true ∧ Numbered (c.depart i).1 ∧
    (c.depart i).1.socket.httpMessage = none ∧ (c.depart i).1.count = c.count ∧
    (c.depart i).1.outgoing = c.outgoing ∧ (c.depart i).1.incoming = c.incoming.tail := by
  have hdetach : (c.responses i).msg.detachSocket c.socket =
      ⟨{ (c.responses i).msg with connection := false }, { c.socket with httpMessage := none },
        .ok none, false⟩ := by
    unfold OutgoingMessage.detachSocket
    rw [if_neg (by simp [howner, h.ids])]
  have hdepart : c.depart i = ((({ c with incoming := c.incoming.tail } : ServerConnection).put i
      ⟨{ (c.responses i).msg with connection := false }, { c.socket with httpMessage := none },
        .ok none, false⟩).leave i, true) := by
    unfold depart
    rw [if_pos hin]
    simp only [hdetach]
  have hnumbered : Numbered { c with incoming := c.incoming.tail } := ⟨h.ids, h.waiting⟩
  rw [hdepart]
  exact ⟨rfl, (hnumbered.put (h.ids i)).leave i, rfl, rfl, rfl, rfl⟩

theorem assignSocket_owner (m : OutgoingMessage) {s : Socket} (hs : s.httpMessage = none) :
    (m.assignSocket s).self.id = m.id ∧ (m.assignSocket s).socket.httpMessage = some m.id := by
  have heffect := (OutgoingMessage.flush_effect { m with connection := true }
    { s with httpMessage := some m.id } rfl).1
  rw [assignSocket_eq m s hs]
  exact ⟨heffect.id, heffect.httpMessage⟩

/-- What a step leaves of the records: an empty `incoming` stays empty, and the order stays. -/
structure Keeps (c c' : ServerConnection) : Prop where
  numbered : Numbered c'
  emptied : c.incoming = [] → c'.incoming = []
  order : InOrder c → InOrder c'

/-- The records of the owner of the socket, when it has departed. -/
theorem depart_records (h : Numbered c) {i : ℕ} (howner : c.socket.httpMessage = some i)
    (hin : c.incoming = [] ∨ InOrder c) :
    (c.depart i).2 = true ∧ Keeps c (c.depart i).1 ∧ (c.depart i).1.socket.httpMessage = none ∧
    (c.depart i).1.outgoing = c.outgoing := by
  have hhead : c.incoming = [] ∨ c.incoming.head? = some i := by
    rcases hin with hnone | horder
    · exact Or.inl hnone
    · rw [horder, howner]
      exact Or.inr rfl
  obtain ⟨hok, hnumbered, hvacant, -, hout, htail⟩ := depart_owner h howner hhead
  refine ⟨hok, ⟨hnumbered, fun hnone => ?_, fun horder => ?_⟩, hvacant, hout⟩
  · rw [htail, hnone]
    rfl
  · unfold InOrder at horder ⊢
    rw [htail, horder, howner, hvacant, hout]
    rfl

/-- The next response is attached. -/
theorem assign_records (h : Numbered c) {j : ℕ} {rest : List ℕ} (hout : c.outgoing = j :: rest)
    (hvacant : c.socket.httpMessage = none) :
    let c' := ({ c with outgoing := rest } : ServerConnection).put j
      ((c.responses j).msg.assignSocket c.socket)
    Keeps c c' ∧ c'.socket.httpMessage = some j ∧ c'.outgoing = rest := by
  obtain ⟨hid, howner⟩ := assignSocket_owner (c.responses j).msg hvacant
  rw [h.ids] at hid howner
  have hrest : Numbered { c with outgoing := rest } := by
    refine ⟨h.ids, fun k hk => h.waiting k ?_⟩
    rw [hout]
    exact List.mem_cons_of_mem j hk
  refine ⟨⟨hrest.put hid, id, fun horder => ?_⟩, howner, rfl⟩
  unfold InOrder at horder ⊢
  change c.incoming = ((c.responses j).msg.assignSocket c.socket).socket.httpMessage.toList ++ rest
  rw [horder, hvacant, hout, howner]
  rfl

theorem Keeps.trans {c₁ c₂ c₃ : ServerConnection} (h₁ : Keeps c₁ c₂) (h₂ : Keeps c₂ c₃) :
    Keeps c₁ c₃ :=
  ⟨h₂.numbered, fun h => h₂.emptied (h₁.emptied h), fun h => h₂.order (h₁.order h)⟩

/-- The listener of 'finish' of the owner of the socket. By induction on the queue: each response
that leaves brings in the next one. -/
theorem onFinish_records (outgoing : List ℕ) : ∀ {c : ServerConnection} {i : ℕ}, Numbered c →
    c.outgoing = outgoing → c.socket.httpMessage = some i → c.incoming = [] ∨ InOrder c →
    finishHolds outgoing c i = true ∧ Keeps c (onFinish outgoing c i) := by
  induction outgoing with
  | nil =>
    intro c i h hout howner hin
    obtain ⟨hok, hkeeps, hvacant, hsame⟩ := depart_records h howner hin
    unfold finishHolds onFinish
    dsimp only
    rw [hok, if_neg (by simp)]
    refine ⟨by simp, ?_⟩
    split_ifs
    · exact hkeeps.trans ⟨⟨hkeeps.numbered.ids, hkeeps.numbered.waiting⟩, id, id⟩
    · refine hkeeps.trans ⟨⟨hkeeps.numbered.ids, by simp⟩, id, fun horder => ?_⟩
      unfold InOrder at horder ⊢
      rw [horder, hsame, hout]
      rfl
  | cons j rest ih =>
    intro c i h hout howner hin
    obtain ⟨hok, hkeeps, hvacant, hsame⟩ := depart_records h howner hin
    obtain ⟨hassign, hnext, hrest⟩ := assign_records hkeeps.numbered (hsame.trans hout) hvacant
    have hboth := hkeeps.trans hassign
    have hin' : _ ∨ InOrder _ := hin.imp hboth.emptied hboth.order
    obtain ⟨hholds, hfinish⟩ := ih hboth.numbered hrest hnext hin'
    unfold finishHolds onFinish
    dsimp only [List.tail_cons]
    rw [hok, hvacant, if_neg (by simp), hholds]
    refine ⟨by simp, ?_⟩
    split_ifs
    · exact hkeeps.trans ⟨⟨hkeeps.numbered.ids, hkeeps.numbered.waiting⟩, id, id⟩
    · exact hboth.trans hfinish
    · exact hboth

theorem put_records {i : ℕ} {o : Outcome} (h : Numbered c) (p : Str) (hid : o.self.id = i)
    (howner : o.socket.httpMessage = c.socket.httpMessage) :
    Keeps c ((c.record i p).put i o) ∧ ((c.record i p).put i o).outgoing = c.outgoing ∧
      (InOrder ((c.record i p).put i o) ↔ InOrder c) := by
  obtain ⟨-, -, hout, hin⟩ := c.record_rest i p
  have hiff : InOrder ((c.record i p).put i o) ↔ InOrder c := by
    unfold InOrder
    change (c.record i p).incoming = o.socket.httpMessage.toList ++ (c.record i p).outgoing ↔ _
    rw [hin, howner, hout]
  exact ⟨⟨(h.record i p).put hid, fun hnone => hin.trans hnone, hiff.mpr⟩, hout, hiff⟩

/-- A method of response `i`, with the listener of 'finish'. -/
theorem perform_records (h : Numbered c) (hin : c.incoming = [] ∨ InOrder c) {i : ℕ} {p : Str}
    {f : OutgoingMessage → Socket → Outcome}
    (he : Effect (c.responses i).msg c.socket (f (c.responses i).msg c.socket).self
      (f (c.responses i).msg c.socket).socket p)
    (hs : (f (c.responses i).msg c.socket).finish = true →
      Sealed (f (c.responses i).msg c.socket).self (f (c.responses i).msg c.socket).socket) :
    c.performHolds i p f = true ∧ Keeps c (c.perform i p f) := by
  have hid := he.id.trans (h.ids i)
  obtain ⟨hkeeps, hout, -⟩ := put_records h p hid he.httpMessage
  unfold performHolds perform
  dsimp only
  cases hfin : (f (c.responses i).msg c.socket).finish with
  | false => exact ⟨rfl, hkeeps⟩
  | true =>
    have howner := (hs hfin).httpMessage
    rw [hid] at howner
    obtain ⟨hholds, hfinish⟩ := onFinish_records _ hkeeps.numbered hout howner
      (hin.imp hkeeps.emptied hkeeps.order)
    rw [hholds, if_pos rfl, hout]
    exact ⟨rfl, hkeeps.trans hfinish⟩

theorem call_records (h : Numbered c) (hin : c.incoming = [] ∨ InOrder c) (i : ℕ) (f : Call) :
    c.performHolds i ((c.responses i).msg.produces f) f.apply = true ∧ Keeps c (c.call i f) :=
  perform_records h hin (apply_effect f _ _) apply_sealed

theorem flush_records (h : Numbered c) (hin : c.incoming = [] ∨ InOrder c) {i : ℕ}
    (howner : c.socket.httpMessage = some i) :
    c.performHolds i [] OutgoingMessage.flush = true ∧
      Keeps c (c.perform i [] OutgoingMessage.flush) := by
  have hm : c.socket.httpMessage = some (c.responses i).msg.id := by rw [h.ids, howner]
  exact perform_records h hin (OutgoingMessage.flush_effect _ _ hm).1
    (OutgoingMessage.flush_sealed _ _ hm)

section Requests

variable (runtime : Runtime) (req : IncomingRequest)

theorem Numbered.born (h : Numbered c) : Numbered (c.born runtime req) := by
  refine ⟨fun j => ?_, fun j hj => (h.waiting j hj).trans (Nat.lt_succ_self _)⟩
  by_cases hj : j = c.count
  · subst hj
    rw [born_msg]
    rfl
  · rw [born_other runtime req hj]
    exact h.ids j

/-- A new request keeps the order exactly if it is not attached before others that wait. -/
theorem enqueue_records (h : Numbered c) (horder : InOrder c) :
    Numbered (c.enqueue runtime req) ∧
      (InOrder (c.enqueue runtime req) ↔ (c.socket.httpMessage = none → c.outgoing = [])) := by
  have hborn := h.born runtime req
  have henqueue : c.enqueue runtime req =
      if c.socket.httpMessage.isSome then
        { c.born runtime req with outgoing := c.outgoing ++ [c.count] }
      else (c.born runtime req).put c.count
        ((serverResponse c.count runtime req).assignSocket c.socket) := rfl
  unfold InOrder at horder
  rw [henqueue]
  split_ifs with howner
  · refine ⟨⟨hborn.ids, ?_⟩, ?_⟩
    · intro j hj
      rcases List.mem_append.mp hj with hj | hj
      · exact hborn.waiting j hj
      · rw [List.mem_singleton.mp hj]
        exact Nat.lt_succ_self _
    · have hnone : c.socket.httpMessage ≠ none := by simpa [Option.isSome_iff_ne_none] using howner
      refine iff_of_true ?_ fun h => absurd h hnone
      change c.incoming ++ [c.count] = c.socket.httpMessage.toList ++ (c.outgoing ++ [c.count])
      rw [horder, List.append_assoc]
  · have hnone : c.socket.httpMessage = none := by simpa using howner
    obtain ⟨hid, howner⟩ := assignSocket_owner (serverResponse c.count runtime req) hnone
    refine ⟨hborn.put hid, ?_⟩
    change c.incoming ++ [c.count] = ((serverResponse c.count runtime req).assignSocket
      c.socket).socket.httpMessage.toList ++ c.outgoing ↔ _
    rw [howner, horder, hnone]
    change c.outgoing ++ [c.count] = c.count :: c.outgoing ↔ (_ → c.outgoing = [])
    cases hout : c.outgoing with
    | nil => simp
    | cons j rest =>
      have hlt := h.waiting j (by simp [hout])
      simp only [List.cons_append, List.cons.injEq, reduceCtorEq, imp_false, not_true_eq_false,
        iff_false, not_and]
      intro hj
      omega

/-- The 100 Continue changes nothing in the records. -/
theorem writeContinue_records (h : Numbered c) (i : ℕ) :
    Numbered (c.call i .writeContinue) ∧ (InOrder (c.call i .writeContinue) ↔ InOrder c) := by
  have heffect := apply_effect .writeContinue (c.responses i).msg c.socket
  have hfinish : (Call.writeContinue.apply (c.responses i).msg c.socket).finish = false := by
    cases hk : (c.responses i).msg.kind <;>
      simp [Call.apply, OutgoingMessage.writeContinue, hk]
  obtain ⟨hkeeps, -, hiff⟩ := put_records h ((c.responses i).msg.produces .writeContinue)
    (heffect.id.trans (h.ids i)) heffect.httpMessage
  unfold call perform
  dsimp only
  rw [if_neg (by simp [hfinish])]
  exact ⟨hkeeps.numbered, hiff⟩

theorem onIncoming_records (h : Numbered c) (horder : InOrder c) :
    Numbered (c.onIncoming runtime req) ∧
      (InOrder (c.onIncoming runtime req) ↔ (c.socket.httpMessage = none → c.outgoing = [])) := by
  obtain ⟨hnumbered, hiff⟩ := enqueue_records runtime req h horder
  unfold onIncoming
  dsimp only
  split_ifs with hexpect hlisteners
  · exact ⟨hnumbered.put (hnumbered.ids _), hiff⟩
  · obtain ⟨hcalled, hsame⟩ := writeContinue_records (hnumbered.put (i := c.count)
      (o := ⟨{ ((c.enqueue runtime req).responses c.count).msg with expectContinue := true },
        (c.enqueue runtime req).socket, .ok none, false⟩) (hnumbered.ids _)) c.count
    exact ⟨hcalled, hsame.trans hiff⟩
  · exact ⟨hnumbered, hiff⟩

end Requests

end ServerConnection

namespace ServerSession

open ServerConnection

variable {s t : ServerSession}

theorem Agree.listed (hs : s.Agree) : s.conn.incoming = [] ∨ s.conn.InOrder :=
  hs.imp And.right id

/-- A step that keeps the records of the connection. -/
theorem Agree.keeps (hs : s.Agree) {c : ServerConnection} (hk : Keeps s.conn c) :
    ({ s with conn := c } : ServerSession).Agree := by
  rcases hs with ⟨hended, hnone⟩ | horder
  · exact Or.inl ⟨hended, hk.emptied hnone⟩
  · exact Or.inr (hk.order horder)

theorem onend_records {c : ServerConnection} (h : Numbered c) :
    Numbered c.onend ∧ (InOrder c → c.onend.incoming = [] ∨ InOrder c.onend) := by
  have hmark : ∀ i, Numbered (c.markLast i) := fun i => h.put (h.ids i)
  unfold onend
  split_ifs
  · exact ⟨⟨h.ids, h.waiting⟩, fun _ => Or.inl rfl⟩
  · split
    · exact ⟨hmark _, Or.inr⟩
    · exact ⟨hmark _, Or.inr⟩
    · exact ⟨⟨h.ids, h.waiting⟩, Or.inr⟩

/-- A step from records that agree: its assertions hold, and the records agree again unless a request
is attached before others that wait. -/
theorem step_records (h : Numbered s.conn) (hs : s.Agree) (e : Event) :
    Numbered (s.step e).conn ∧ s.Holds e ∧ ((s.step e).Agree ↔ s.Prompt e) := by
  cases e with
  | request runtime req =>
    unfold step Holds Prompt
    dsimp only
    split_ifs with hparsing
    · have horder := hs.resolve_left (by simp [hparsing])
      obtain ⟨hnumbered, hiff⟩ := onIncoming_records runtime req h horder
      refine ⟨hnumbered, rfl, ?_⟩
      unfold Agree
      simp only [hparsing, Bool.true_eq_false, false_and, false_or, true_implies]
      exact hiff
    · exact ⟨h, rfl, iff_of_true hs fun hp => absurd hp hparsing⟩
  | call i f =>
    have hcall := call_records h hs.listed i f
    unfold step Holds holds ServerConnection.step
    dsimp only
    split_ifs
    · exact ⟨hcall.2.numbered, hcall.1, iff_of_true (hs.keeps hcall.2) trivial⟩
    · exact ⟨h, rfl, iff_of_true hs trivial⟩
  | flush =>
    obtain hnone | ⟨i, howner⟩ := Option.eq_none_or_eq_some s.conn.socket.httpMessage
    · simp only [step, Holds, holds, ServerConnection.step, hnone]
      exact ⟨h, trivial, iff_of_true hs trivial⟩
    · obtain ⟨hholds, hkeeps⟩ := flush_records h hs.listed howner
      simp only [step, Holds, holds, ServerConnection.step, howner]
      exact ⟨hkeeps.numbered, hholds, iff_of_true (hs.keeps hkeeps) trivial⟩
  | onend =>
    unfold step
    dsimp only
    split_ifs with hparsing
    · have horder := hs.resolve_left (by simp [hparsing])
      obtain ⟨hnumbered, hrecords⟩ := onend_records h
      refine ⟨hnumbered, rfl, iff_of_true ?_ trivial⟩
      exact (hrecords horder).imp (fun hnone => ⟨rfl, hnone⟩) id
    · exact ⟨h, rfl, iff_of_true hs trivial⟩
  | shut => exact ⟨⟨h.ids, h.waiting⟩, rfl, iff_of_true hs trivial⟩
  | destroy => exact ⟨⟨h.ids, h.waiting⟩, rfl, iff_of_true hs trivial⟩
  | close =>
    unfold step ServerConnection.step
    dsimp only
    split_ifs
    · exact ⟨⟨h.ids, h.waiting⟩, rfl, iff_of_true (Or.inl ⟨rfl, rfl⟩) trivial⟩
    · exact ⟨h, rfl, iff_of_true hs trivial⟩

end ServerSession

end LuaNode
