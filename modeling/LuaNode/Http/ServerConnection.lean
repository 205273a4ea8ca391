import LuaNode.Http.Calls
import LuaNode.Library.Runs

/-!
# A server connection

`connectionListener` of `lib/luanode/http.lua`: responses are made in request order, one of
them is attached to the socket, the later ones wait in `outgoing`, and the listener of 'finish'
hands the socket on. A connection that speaks HTTP to the end is modelled: no upgrade. The
response to request `i` has the number `i`; it is also the number that the socket's log of
writes carries.
-/

namespace LuaNode

/-- A response, with two facts that the program does not keep: the bytes produced until it left
the connection, and its `_last` when it did. -/
structure Response where
  msg : OutgoingMessage
  produced : Str
  done : Option Bool

structure ServerConnection where
  socket : Socket
  /-- the number of requests so far -/
  count : ℕ
  responses : ℕ → Response
  outgoing : List ℕ
  incoming : List ℕ
  /-- `server.httpAllowHalfOpen` -/
  httpAllowHalfOpen : Bool
  /-- the server has listeners for 'checkContinue' -/
  checkContinue : Bool

namespace ServerConnection

/-- `connectionListener`: a new connection. -/
def initial (runtime : Runtime) (results : List Bool) (httpAllowHalfOpen checkContinue : Bool) :
    ServerConnection where
  socket := .fresh results
  count := 0
  responses := fun i => ⟨.init i .serverResponse runtime, [], none⟩
  outgoing := []
  incoming := []
  httpAllowHalfOpen := httpAllowHalfOpen
  checkContinue := checkContinue

/-- Response `i` and the socket after a method of the response. -/
def put (c : ServerConnection) (i : ℕ) (o : Outcome) : ServerConnection :=
  { c with
    socket := o.socket
    responses := Function.update c.responses i { c.responses i with msg := o.self } }

/-- Response `i` produces bytes, unless it has left the connection. -/
def record (c : ServerConnection) (i : ℕ) (p : Str) : ServerConnection :=
  if (c.responses i).done = none then
    { c with
      responses := Function.update c.responses i
        { c.responses i with produced := (c.responses i).produced ++ p } }
  else c

/-- Response `i` leaves the connection. -/
def leave (c : ServerConnection) (i : ℕ) : ServerConnection :=
  { c with
    responses := Function.update c.responses i
      { c.responses i with
        done := (c.responses i).done.or (some (c.responses i).msg.last) } }

/-- The listener of 'finish' of response `i` up to its test of `_last`, and whether the
assertions on the way hold. -/
def depart (c : ServerConnection) (i : ℕ) : ServerConnection × Bool :=
  if c.incoming = [] ∨ c.incoming.head? = some i then
    let c := { c with incoming := c.incoming.tail }
    let o := (c.responses i).msg.detachSocket c.socket
    match o.ret with
    | .error _ => (c, false)
    | .ok _ => ((c.put i o).leave i, true)
  else (c, false)

/-- The listener of 'finish' of response `i`; the first argument is `outgoing`. The next
response may be finished already, and then its own listener runs. -/
def onFinish : List ℕ → ServerConnection → ℕ → ServerConnection
  | outgoing, c, i =>
    let d := c.depart i
    if d.2 = false then d.1
    else if (d.1.responses i).msg.last then { d.1 with socket := d.1.socket.shut }
    else
      let c := { d.1 with outgoing := outgoing.tail }
      match outgoing with
      | [] => c
      | j :: rest =>
        let o := (c.responses j).msg.assignSocket c.socket
        let c := c.put j o
        if o.finish then onFinish rest c j else c

/-- A method of response `i` that produces the bytes `p`. -/
def perform (c : ServerConnection) (i : ℕ) (p : Str)
    (f : OutgoingMessage → Socket → Outcome) : ServerConnection :=
  let o := f (c.responses i).msg c.socket
  let c := (c.record i p).put i o
  if o.finish then onFinish c.outgoing c i else c

def call (c : ServerConnection) (i : ℕ) (f : Call) : ServerConnection :=
  c.perform i ((c.responses i).msg.produces f) f.apply

/-- The new response of `onIncoming`, attached to the socket or put into the queue. -/
def enqueue (c : ServerConnection) (runtime : Runtime) (req : IncomingRequest) :
    ServerConnection :=
  let i := c.count
  let res := serverResponse i runtime req
  let c := { c with
    count := i + 1
    incoming := c.incoming ++ [i]
    responses := Function.update c.responses i { c.responses i with msg := res } }
  if c.socket.httpMessage.isSome then { c with outgoing := c.outgoing ++ [i] }
  else c.put i (res.assignSocket c.socket)

/-- `parser.onIncoming`, up to the call of the user's handler. -/
def onIncoming (c : ServerConnection) (runtime : Runtime) (req : IncomingRequest) :
    ServerConnection :=
  let i := c.count
  let c := c.enqueue runtime req
  if req.expectContinue then
    let c := c.put i ⟨{ (c.responses i).msg with expectContinue := true }, c.socket, .ok none,
      false⟩
    if c.checkContinue then c else c.call i .writeContinue
  else c

/-- `res._last = true` for response `i`. -/
def markLast (c : ServerConnection) (i : ℕ) : ServerConnection :=
  c.put i ⟨{ (c.responses i).msg with last := true }, c.socket, .ok none, false⟩

/-- `socket.onend`, when the parser does not complain. -/
def onend (c : ServerConnection) : ServerConnection :=
  if c.httpAllowHalfOpen = false then { c with incoming := [], socket := c.socket.shut }
  else
    match c.outgoing.getLast?, c.socket.httpMessage with
    | some i, _ => c.markLast i
    | none, some i => c.markLast i
    | none, none => { c with socket := c.socket.shut }

inductive Event
  /-- a request has been parsed -/
  | request (runtime : Runtime) (req : IncomingRequest)
  /-- a handler calls a method of response `i` -/
  | call (i : ℕ) (f : Call)
  /-- `_flush` of the response that has the socket -/
  | flush
  /-- the client has sent everything -/
  | onend
  /-- the socket is finished by other code, or destroyed: a parse error, a timeout -/
  | shut
  | destroy
  /-- 'close' is emitted by a destroyed socket -/
  | close

def step (c : ServerConnection) : Event → ServerConnection
  | .request runtime req => c.onIncoming runtime req
  | .call i f => if i < c.count then c.call i f else c
  | .flush =>
    match c.socket.httpMessage with
    | none => c
    | some i => c.perform i [] OutgoingMessage.flush
  | .onend => c.onend
  | .shut => { c with socket := c.socket.shut }
  | .destroy => { c with socket := c.socket.destroy }
  | .close => if c.socket.destroyed then { c with incoming := [] } else c

/-- The bytes handed to `socket:write`. -/
def wire (c : ServerConnection) : Str := c.socket.written.flatMap Prod.snd

/-- The bytes of the first `n` responses, in request order. -/
def produced (c : ServerConnection) (n : ℕ) : Str :=
  (List.range n).flatMap fun i => (c.responses i).produced

/-! ### What is on the wire -/

/-- The responses before `k` are on the wire in full and in order, followed by a part of
response `k`. -/
structure Wire (c : ServerConnection) (k : ℕ) : Prop where
  ids : ∀ j, (c.responses j).msg.id = j
  bound : k ≤ c.count
  left : ∀ j < k, (c.responses j).done = some false
  complete : ∀ j < k, c.socket.sentBy j = (c.responses j).produced
  current : c.socket.sentBy k <+: (c.responses k).produced
  present : k < c.count ∨ c.socket.sentBy k = []
  order : c.socket.written.Pairwise fun a b => a.1 ≤ b.1
  upto : ∀ e ∈ c.socket.written, e.1 ≤ k
  bytes : c.wire = c.produced k ++ c.socket.sentBy k

/-- On a writable socket response `k` is the one attached, if it exists, the later ones wait in
order, and nothing of them is lost. -/
structure Live (c : ServerConnection) (k : ℕ) : Prop where
  owner : c.socket.httpMessage = if k < c.count then some k else none
  outgoing : c.outgoing = List.range' (k + 1) (c.count - (k + 1))
  incoming : c.incoming = List.range' k (c.count - k)
  connection : ∀ j, (c.responses j).msg.connection = true ↔ c.socket.httpMessage = some j
  stream : ∀ j, k ≤ j → (c.responses j).msg.stream c.socket = (c.responses j).produced
  unsent : ∀ j, k ≤ j → c.socket.httpMessage ≠ some j → c.socket.sentBy j = []
  pending : ∀ j, k ≤ j → (c.responses j).done = none
  unborn : ∀ j, c.count ≤ j → (c.responses j).produced = []

/-- The invariant of a connection. Once the socket takes no more writes, what is on the wire
stays as it is. -/
def Ordered (c : ServerConnection) : Prop :=
  ∃ k, c.Wire k ∧ (c.socket.writable = true → c.Live k)

section Fields

variable (c : ServerConnection) (i : ℕ) (o : Outcome) (p : Str)

theorem put_msg (j : ℕ) :
    ((c.put i o).responses j).msg = if j = i then o.self else (c.responses j).msg := by
  by_cases h : j = i
  · subst h; simp [put]
  · simp [put, h]

theorem put_ghost (j : ℕ) :
    ((c.put i o).responses j).produced = (c.responses j).produced ∧
    ((c.put i o).responses j).done = (c.responses j).done := by
  by_cases h : j = i
  · subst h; simp [put]
  · simp [put, h]

theorem record_msg (j : ℕ) :
    ((c.record i p).responses j).msg = (c.responses j).msg ∧
    ((c.record i p).responses j).done = (c.responses j).done := by
  unfold record
  split_ifs
  · by_cases h : j = i
    · subst h; simp
    · simp [h]
  · exact ⟨rfl, rfl⟩

theorem record_produced (j : ℕ) :
    ((c.record i p).responses j).produced =
      if j = i ∧ (c.responses i).done = none then (c.responses j).produced ++ p
      else (c.responses j).produced := by
  unfold record
  by_cases hd : (c.responses i).done = none
  · by_cases h : j = i
    · subst h; simp [hd]
    · simp [h, hd]
  · simp [hd]

theorem record_rest : (c.record i p).socket = c.socket ∧ (c.record i p).count = c.count ∧
    (c.record i p).outgoing = c.outgoing ∧ (c.record i p).incoming = c.incoming := by
  unfold record
  split_ifs <;> exact ⟨rfl, rfl, rfl, rfl⟩

theorem leave_fields (j : ℕ) :
    ((c.leave i).responses j).msg = (c.responses j).msg ∧
    ((c.leave i).responses j).produced = (c.responses j).produced ∧
    ((c.leave i).responses j).done =
      if j = i then (c.responses i).done.or (some (c.responses i).msg.last)
      else (c.responses j).done := by
  by_cases h : j = i
  · subst h; simp [leave]
  · simp [leave, h]

end Fields

namespace Wire

variable {c c' : ServerConnection} {k : ℕ}

/-- Steps that write for response `k` only, and add nothing to the responses before it. -/
theorem grow (h : Wire c k) (q : List Str)
    (hw : c'.socket.written = c.socket.written ++ q.map (fun d => (k, d)))
    (hids : ∀ j, (c'.responses j).msg.id = j) (hcount : c.count ≤ c'.count)
    (hleft : ∀ j < k, (c'.responses j).done = some false)
    (hprod : ∀ j < k, (c'.responses j).produced = (c.responses j).produced)
    (hcur : c'.socket.sentBy k <+: (c'.responses k).produced)
    (hpresent : k < c'.count ∨ c'.socket.sentBy k = []) : Wire c' k where
  ids := hids
  bound := h.bound.trans hcount
  left := hleft
  complete := by
    intro j hj
    rw [Effect.sentBy_append c.socket q k j c'.socket hw, if_neg (by omega), List.append_nil,
      hprod j hj]
    exact h.complete j hj
  current := hcur
  present := hpresent
  order := by
    rw [hw, List.pairwise_append]
    refine ⟨h.order, ?_, ?_⟩
    · rw [List.pairwise_map]
      exact List.pairwise_of_forall fun _ _ => le_rfl
    · intro a ha b hb
      obtain ⟨d, -, rfl⟩ := List.mem_map.mp hb
      exact h.upto a ha
  upto := by
    intro e he
    rw [hw, List.mem_append] at he
    rcases he with he | he
    · exact h.upto e he
    · obtain ⟨d, -, rfl⟩ := List.mem_map.mp he
      exact le_rfl
  bytes := by
    have hsent := Effect.sentBy_append c.socket q k k c'.socket hw
    have hproduced : c'.produced k = c.produced k := by
      unfold produced
      exact List.flatMap_congr fun j hj => hprod j (List.mem_range.mp hj)
    have hwire : c'.wire = c.wire ++ q.flatten := by
      unfold wire
      rw [hw, List.flatMap_append]
      congr 1
      simp [List.flatMap_map]
    rw [hwire, h.bytes, hproduced, hsent, if_pos rfl, List.append_assoc]

/-- Steps that write nothing. -/
theorem quiet (h : Wire c k) (hw : c'.socket.written = c.socket.written)
    (hids : ∀ j, (c'.responses j).msg.id = j) (hcount : c.count ≤ c'.count)
    (hleft : ∀ j < k, (c'.responses j).done = some false)
    (hprod : ∀ j < k, (c'.responses j).produced = (c.responses j).produced)
    (hcur : (c.responses k).produced <+: (c'.responses k).produced) : Wire c' k := by
  have hsent : c'.socket.sentBy k = c.socket.sentBy k := by simp [Socket.sentBy, hw]
  refine h.grow [] (by simpa using hw) hids hcount hleft hprod ?_ ?_
  · rw [hsent]
    exact h.current.trans hcur
  · rw [hsent]
    exact h.present.imp_left fun hk => hk.trans_le hcount

/-- Response `k` is complete and has left. -/
theorem next (h : Wire c k) (hk : k < c.count) (hleft : (c.responses k).done = some false)
    (hsent : c.socket.sentBy k = (c.responses k).produced) : Wire c (k + 1) := by
  have hnone : c.socket.sentBy (k + 1) = [] := by
    unfold Socket.sentBy
    rw [List.filter_eq_nil_iff.mpr, List.flatMap_nil]
    intro e he
    have := h.upto e he
    simp only [decide_eq_true_eq]
    omega
  refine ⟨h.ids, hk, ?_, ?_, ?_, Or.inr hnone, h.order, ?_, ?_⟩
  · intro j hj
    rcases Nat.lt_succ_iff_lt_or_eq.mp hj with hj | rfl
    · exact h.left j hj
    · exact hleft
  · intro j hj
    rcases Nat.lt_succ_iff_lt_or_eq.mp hj with hj | rfl
    · exact h.complete j hj
    · exact hsent
  · rw [hnone]
    exact List.nil_prefix
  · exact fun e he => (h.upto e he).trans (Nat.le_succ k)
  · rw [h.bytes, hnone, hsent, List.append_nil]
    simp [produced, List.range_succ]

theorem produced_mono (c : ServerConnection) {a b : ℕ} (hab : a ≤ b) :
    c.produced a <+: c.produced b := by
  obtain ⟨d, rfl⟩ := Nat.exists_eq_add_of_le hab
  unfold produced
  rw [List.range_add, List.flatMap_append]
  exact List.prefix_append _ _

theorem wire_prefix (h : Wire c k) : c.wire <+: c.produced c.count := by
  rw [h.bytes]
  rcases h.present with hk | hnone
  · have hnext : c.produced (k + 1) = c.produced k ++ (c.responses k).produced := by
      simp [produced, List.range_succ]
    refine List.IsPrefix.trans ?_ (produced_mono c hk)
    rw [hnext]
    exact List.prefix_append_right_inj _ |>.mpr h.current
  · rw [hnone, List.append_nil]
    exact produced_mono c h.bound

end Wire

/-! ### Methods of a response -/

section Perform

variable {c : ServerConnection} {k i : ℕ} {o : Outcome} {p : Str}

/-- A method that keeps the socket's owner is seen on the wire only if the response owns a
writable socket, and then the response is the current one. -/
theorem put_wire (h : Wire c k) (hl : c.socket.writable = true → Live c k)
    (he : Effect (c.responses i).msg c.socket o.self o.socket p) :
    Wire ((c.record i p).put i o) k := by
  obtain ⟨hsock, hcount, -, -⟩ := c.record_rest i p
  have hids : ∀ j, (((c.record i p).put i o).responses j).msg.id = j := by
    intro j
    rw [put_msg]
    split_ifs with hj
    · rw [he.id, h.ids, hj]
    · rw [(c.record_msg i p j).1, h.ids]
  have hleft : ∀ j < k, (((c.record i p).put i o).responses j).done = some false := by
    intro j hj
    rw [(put_ghost _ i o j).2, (c.record_msg i p j).2]
    exact h.left j hj
  have hprod : ∀ j < k, (((c.record i p).put i o).responses j).produced =
      (c.responses j).produced := by
    intro j hj
    rw [(put_ghost _ i o j).1, record_produced, if_neg]
    rintro ⟨rfl, hnone⟩
    simp [h.left j hj] at hnone
  have hgrow : (c.responses k).produced <+:
      (((c.record i p).put i o).responses k).produced := by
    rw [(put_ghost _ i o k).1, record_produced]
    split_ifs
    · exact List.prefix_append _ _
    · exact List.prefix_rfl
  by_cases hown : c.socket.writable = true ∧ c.socket.httpMessage = some i
  · have hlive := hl hown.1
    obtain ⟨rfl, hk⟩ : k = i ∧ k < c.count := by
      have := hlive.owner
      rw [hown.2] at this
      split_ifs at this with hk
      exact ⟨by simpa using this.symm, hk⟩
    obtain ⟨q, hq, -, -⟩ := he.wire
    refine h.grow q (by simpa [put, h.ids] using hq) hids hcount.ge hleft hprod ?_
      (Or.inl (hk.trans_le hcount.ge))
    have hd : c.socket.destroyed = false := by
      by_contra hd
      simp [c.socket.closed (by simpa using hd)] at hown
    have hstream := he.stream_eq (Or.inl hd)
    rw [hlive.stream k le_rfl] at hstream
    rw [(put_ghost _ k o k).1, record_produced, if_pos ⟨rfl, hlive.pending k le_rfl⟩, ← hstream]
    have hid : o.self.id = k := he.id.trans (h.ids k)
    unfold OutgoingMessage.stream
    rw [hid]
    exact List.prefix_append _ _
  · have hw : o.socket.written = c.socket.written := by
      refine he.written_eq ?_
      rw [h.ids]
      by_cases hwr : c.socket.writable = true
      · exact Or.inr (Or.inr fun hm => hown ⟨hwr, hm⟩)
      · exact Or.inr (Or.inl (by simpa using hwr))
    exact h.quiet hw hids hcount.ge hleft hprod hgrow

/-- The bytes of the responses that wait, and of the current one, are all accounted for. -/
theorem put_live (h : Wire c k) (hl : Live c k) (hi : i < c.count)
    (hw : c.socket.writable = true)
    (he : Effect (c.responses i).msg c.socket o.self o.socket p) :
    Live ((c.record i p).put i o) k := by
  obtain ⟨hsock, hcount, hout, hin⟩ := c.record_rest i p
  have hd : c.socket.destroyed = false := by
    by_contra hd
    simp [c.socket.closed (by simpa using hd)] at hw
  have hmsg : ((c.record i p).put i o).socket.httpMessage = c.socket.httpMessage := he.httpMessage
  have hother : ∀ j, j ≠ i → o.socket.sentBy j = c.socket.sentBy j := fun j hj =>
    he.sentBy_other (by rwa [h.ids])
  refine ⟨?_, ?_, ?_, ?_, ?_, ?_, ?_, ?_⟩
  · rw [hmsg, hl.owner]
    simp [put, hcount]
  · simp only [put, hout, hcount]
    exact hl.outgoing
  · simp only [put, hin, hcount]
    exact hl.incoming
  · intro j
    rw [hmsg, put_msg]
    split_ifs with hj
    · rw [he.connection, hj]
      exact hl.connection i
    · rw [(c.record_msg i p j).1]
      exact hl.connection j
  · intro j hj
    rw [(put_ghost _ i o j).1, record_produced, put_msg]
    by_cases hji : j = i
    · rw [if_pos hji, if_pos ⟨hji, hji ▸ hl.pending j hj⟩, hji]
      rw [← hl.stream i (hji ▸ hj)]
      exact he.stream_eq (Or.inl hd)
    · rw [if_neg hji, if_neg fun hc => hji hc.1, (c.record_msg i p j).1, ← hl.stream j hj]
      unfold OutgoingMessage.stream
      simp only [put, h.ids, hother j hji]
  · intro j hj hne
    rw [hmsg] at hne
    have hsame : o.socket.sentBy j = c.socket.sentBy j := by
      by_cases hji : j = i
      · have hwritten : o.socket.written = c.socket.written :=
          he.written_eq (Or.inr (Or.inr (by rw [h.ids, ← hji]; exact hne)))
        simp [Socket.sentBy, hwritten]
      · exact hother j hji
    exact hsame.trans (hl.unsent j hj hne)
  · intro j hj
    rw [(put_ghost _ i o j).2, (c.record_msg i p j).2]
    exact hl.pending j hj
  · intro j hj
    have hj' : c.count ≤ j := hcount ▸ hj
    rw [(put_ghost _ i o j).1, record_produced, if_neg (by omega)]
    exact hl.unborn j hj'

theorem put_ordered (h : Wire c k) (hl : c.socket.writable = true → Live c k)
    (hi : c.socket.writable = true → i < c.count)
    (he : Effect (c.responses i).msg c.socket o.self o.socket p) :
    Wire ((c.record i p).put i o) k ∧
    (((c.record i p).put i o).socket.writable = true → Live ((c.record i p).put i o) k) := by
  refine ⟨put_wire h hl he, fun hw => ?_⟩
  have hw' : c.socket.writable = true := he.writable ▸ hw
  exact put_live h (hl hw') (hi hw') hw' he

end Perform

/-! ### The socket changes hands -/

/-- No response has the socket, and `k` is to be the next one. -/
structure Vacant (c : ServerConnection) (k : ℕ) : Prop where
  owner : c.socket.httpMessage = none
  outgoing : c.outgoing = List.range' (k + 1) (c.count - (k + 1))
  incoming : c.incoming = List.range' k (c.count - k)
  connection : ∀ j, (c.responses j).msg.connection = false
  stream : ∀ j, k ≤ j → (c.responses j).msg.stream c.socket = (c.responses j).produced
  unsent : ∀ j, k ≤ j → c.socket.sentBy j = []
  pending : ∀ j, k ≤ j → (c.responses j).done = none
  unborn : ∀ j, c.count ≤ j → (c.responses j).produced = []

section Handover

variable {c : ServerConnection} {k i : ℕ}

theorem Vacant.live (h : Vacant c k) (hk : c.count ≤ k) : Live c k where
  owner := by rw [if_neg (by omega), h.owner]
  outgoing := h.outgoing
  incoming := h.incoming
  connection := fun j => by simp [h.connection j, h.owner]
  stream := h.stream
  unsent := fun j hj _ => h.unsent j hj
  pending := h.pending
  unborn := h.unborn

/-- `assignSocket` on a socket that has no owner. -/
theorem assignSocket_eq (m : OutgoingMessage) (s : Socket) (hs : s.httpMessage = none) :
    m.assignSocket s =
      { m with connection := true }.flush { s with httpMessage := some m.id } := by
  unfold OutgoingMessage.assignSocket
  rw [if_neg (by simp [hs])]

/-- The response that is attached becomes the current one; what it had buffered is moved to the
socket. -/
theorem Vacant.assign (h : Vacant c k) (hwire : Wire c k) (hk : k < c.count) :
    let o := (c.responses k).msg.assignSocket c.socket
    Wire (c.put k o) k ∧ ((c.put k o).socket.writable = true → Live (c.put k o) k) ∧
    (c.put k o).socket.writable = c.socket.writable ∧
    (o.finish = true → Sealed ((c.put k o).responses k).msg (c.put k o).socket) := by
  intro o
  have hid := hwire.ids k
  have ho : o = _ := assignSocket_eq (c.responses k).msg c.socket h.owner
  -- the connection between the assignments of `assignSocket` and its call of `_flush`
  let a : ServerConnection := { c with
    socket := { c.socket with httpMessage := some (c.responses k).msg.id }
    responses := Function.update c.responses k
      { c.responses k with msg := { (c.responses k).msg with connection := true } } }
  have hresp : ∀ j, (a.responses j).produced = (c.responses j).produced ∧
      (a.responses j).done = (c.responses j).done ∧
      (a.responses j).msg.id = (c.responses j).msg.id ∧
      (a.responses j).msg.output = (c.responses j).msg.output := by
    intro j
    by_cases hj : j = k
    · subst hj; simp [a]
    · simp [a, hj]
  have hawire : Wire a k :=
    hwire.quiet rfl (fun j => by rw [(hresp j).2.2.1, hwire.ids j]) le_rfl
      (fun j hj => by rw [(hresp j).2.1, hwire.left j hj]) (fun j _ => (hresp j).1)
      (by rw [(hresp k).1])
  have halive : Live a k := by
    refine ⟨?_, h.outgoing, h.incoming, ?_, ?_, ?_, ?_, ?_⟩
    · rw [if_pos hk]
      exact congrArg some hid
    · intro j
      by_cases hj : j = k
      · subst hj; simp [a, hid]
      · simp [a, hid, hj, h.connection j, Ne.symm hj]
    · intro j hj
      rw [(hresp j).1, ← h.stream j hj]
      unfold OutgoingMessage.stream
      rw [(hresp j).2.2.1, (hresp j).2.2.2]
      rfl
    · exact fun j hj _ => h.unsent j hj
    · exact fun j hj => (hresp j).2.1.trans (h.pending j hj)
    · exact fun j hj => (hresp j).1.trans (h.unborn j hj)
  have hmsg : (a.responses k).msg = { (c.responses k).msg with connection := true } := by
    simp [a]
  have hm : a.socket.httpMessage = some (a.responses k).msg.id := by
    rw [hawire.ids k]
    exact congrArg some hid
  have ho' : o = (a.responses k).msg.flush a.socket := by rw [hmsg]; exact ho
  have heff := ((a.responses k).msg.flush_effect a.socket hm).1
  rw [← ho'] at heff
  have hput : (a.record k []).put k o = c.put k o := by
    unfold put record
    split_ifs <;> simp [a]
  obtain ⟨hw', hl'⟩ := put_ordered hawire (fun _ => halive) (fun _ => hk) heff
  rw [hput] at hw' hl'
  refine ⟨hw', hl', heff.writable, fun hfin => ?_⟩
  rw [put_msg, if_pos rfl]
  rw [ho'] at hfin
  have hsealed := (a.responses k).msg.flush_sealed a.socket hm hfin
  rw [← ho'] at hsealed
  exact hsealed

/-- A method that writes nothing changes nothing on the wire. -/
theorem put_quiet (h : Wire c k) {o : Outcome} (hid : o.self.id = i)
    (hw : o.socket.written = c.socket.written) : Wire (c.put i o) k := by
  refine h.quiet hw ?_ le_rfl ?_ ?_ ?_
  · intro j
    rw [put_msg]
    split_ifs with hj
    · rw [hid, hj]
    · exact h.ids j
  · exact fun j hj => (put_ghost c i o j).2.trans (h.left j hj)
  · exact fun j _ => (put_ghost c i o j).1
  · rw [(put_ghost c i o k).1]

theorem leave_wire (h : Wire c k) (i : ℕ) : Wire (c.leave i) k := by
  refine h.quiet rfl (fun j => ?_) le_rfl ?_ (fun j _ => (leave_fields c i j).2.1) ?_
  · rw [(leave_fields c i j).1]
    exact h.ids j
  · intro j hj
    rw [(leave_fields c i j).2.2]
    split_ifs with hji
    · rw [← hji, h.left j hj]
      rfl
    · exact h.left j hj
  · rw [(leave_fields c i k).2.1]

theorem detachSocket_quiet (m : OutgoingMessage) (s : Socket) :
    (m.detachSocket s).self.id = m.id ∧ (m.detachSocket s).socket.written = s.written ∧
    (m.detachSocket s).socket.writable = s.writable := by
  unfold OutgoingMessage.detachSocket
  split_ifs <;> exact ⟨rfl, rfl, rfl⟩

theorem assignSocket_shut (m : OutgoingMessage) (s : Socket) (hw : s.writable = false) :
    (m.assignSocket s).self.id = m.id ∧ (m.assignSocket s).socket.written = s.written ∧
    (m.assignSocket s).socket.writable = false := by
  unfold OutgoingMessage.assignSocket
  split_ifs
  · exact ⟨rfl, rfl, hw⟩
  · have h := (OutgoingMessage.flush_effect { m with connection := true }
      { s with httpMessage := some m.id } rfl).1
    exact ⟨h.id, h.written_eq (Or.inr (Or.inl hw)), h.writable.trans hw⟩

theorem depart_wire (h : Wire c k) (i : ℕ) :
    Wire (c.depart i).1 k ∧ (c.depart i).1.socket.writable = c.socket.writable := by
  unfold depart
  split_ifs
  · obtain ⟨hid, hwritten, hwritable⟩ := detachSocket_quiet (c.responses i).msg c.socket
    have htail : Wire { c with incoming := c.incoming.tail } k :=
      h.quiet rfl h.ids le_rfl h.left (fun _ _ => rfl) List.prefix_rfl
    dsimp only
    split
    · exact ⟨htail, rfl⟩
    · exact ⟨leave_wire (put_quiet htail (hid.trans (h.ids i)) hwritten) i, hwritable⟩
  · exact ⟨h, rfl⟩

/-- When the socket takes no more writes, the listener of 'finish' changes nothing on the
wire. By induction on the queue: each response that leaves brings in the next one. -/
theorem onFinish_shut (outgoing : List ℕ) : ∀ {c : ServerConnection} {i : ℕ},
    Wire c k → c.socket.writable = false →
    Wire (onFinish outgoing c i) k ∧ (onFinish outgoing c i).socket.writable = false := by
  induction outgoing with
  | nil =>
    intro c i h hw
    obtain ⟨hd, hdw⟩ := depart_wire h i
    unfold onFinish
    dsimp only
    split_ifs
    · exact ⟨hd, hdw.trans hw⟩
    · exact ⟨hd.quiet rfl hd.ids le_rfl hd.left (fun _ _ => rfl) List.prefix_rfl, rfl⟩
    · exact ⟨hd.quiet rfl hd.ids le_rfl hd.left (fun _ _ => rfl) List.prefix_rfl, hdw.trans hw⟩
  | cons j rest ih =>
    intro c i h hw
    obtain ⟨hd, hdw⟩ := depart_wire h i
    have hpop : Wire { (c.depart i).1 with outgoing := rest } k :=
      hd.quiet rfl hd.ids le_rfl hd.left (fun _ _ => rfl) List.prefix_rfl
    obtain ⟨hid, hwritten, hshut⟩ :=
      assignSocket_shut ((c.depart i).1.responses j).msg (c.depart i).1.socket (hdw.trans hw)
    have hput := put_quiet (i := j) hpop (hid.trans (hd.ids j)) hwritten
    unfold onFinish
    dsimp only [List.tail_cons]
    split_ifs
    · exact ⟨hd, hdw.trans hw⟩
    · exact ⟨hd.quiet rfl hd.ids le_rfl hd.left (fun _ _ => rfl) List.prefix_rfl, rfl⟩
    · exact ih hput hshut
    · exact ⟨hput, hshut⟩

/-- The current response leaves with everything sent, and the socket is vacant. -/
theorem depart_live (h : Wire c i) (hl : Live c i) (hi : i < c.count)
    (hs : Sealed (c.responses i).msg c.socket) :
    (c.depart i).2 = true ∧ (c.depart i).1.count = c.count ∧
    ((c.depart i).1.responses i).done = some ((c.depart i).1.responses i).msg.last ∧
    (((c.depart i).1.responses i).msg.last = false →
      Wire (c.depart i).1 (i + 1) ∧
      ∀ out, out = List.range' (i + 2) (c.count - (i + 2)) →
        Vacant { (c.depart i).1 with outgoing := out } (i + 1)) := by
  have hin : c.incoming.head? = some i := by
    rw [hl.incoming, List.head?_range', if_neg (by omega)]
  have howner : c.socket.httpMessage = some (c.responses i).msg.id := hs.httpMessage
  have hdetach : (c.responses i).msg.detachSocket c.socket =
      ⟨{ (c.responses i).msg with connection := false }, { c.socket with httpMessage := none },
        .ok none, false⟩ := by
    unfold OutgoingMessage.detachSocket
    rw [if_neg (by simp [howner])]
  let c₁ : ServerConnection := { c with incoming := c.incoming.tail }
  let o : Outcome := ⟨{ (c.responses i).msg with connection := false },
    { c.socket with httpMessage := none }, .ok none, false⟩
  have hdepart : c.depart i = ((c₁.put i o).leave i, true) := by
    unfold depart
    rw [if_pos (Or.inr hin)]
    simp only [hdetach]
    rfl
  have hmsg : ∀ j, (((c₁.put i o).leave i).responses j).msg =
      if j = i then { (c.responses i).msg with connection := false }
      else (c.responses j).msg := by
    intro j
    rw [(leave_fields _ i j).1, put_msg]
  have hprod : ∀ j, (((c₁.put i o).leave i).responses j).produced =
      (c.responses j).produced := by
    intro j
    rw [(leave_fields _ i j).2.1, (put_ghost c₁ i o j).1]
  have hdone : ∀ j, (((c₁.put i o).leave i).responses j).done =
      if j = i then some (c.responses i).msg.last else (c.responses j).done := by
    intro j
    rw [(leave_fields _ i j).2.2, (put_ghost c₁ i o i).2, (put_ghost c₁ i o j).2, put_msg,
      if_pos rfl]
    have : (c₁.responses i).done = none := hl.pending i le_rfl
    rw [this]
    rfl
  rw [hdepart]
  refine ⟨rfl, rfl, ?_, fun hlast => ?_⟩
  · rw [hdone, hmsg, if_pos rfl, if_pos rfl]
  · rw [hmsg, if_pos rfl] at hlast
    have hwire : Wire ((c₁.put i o).leave i) i := by
      have hd := (depart_wire h i).1
      rw [hdepart] at hd
      exact hd
    have hsent : c.socket.sentBy i = (c.responses i).produced := by
      have hstream := hl.stream i le_rfl
      unfold OutgoingMessage.stream at hstream
      rw [hs.output, h.ids] at hstream
      simpa using hstream
    refine ⟨hwire.next hi ?_ ?_, fun out hout => ⟨rfl, ?_, ?_, ?_, ?_, ?_, ?_, ?_⟩⟩
    · rw [hdone, if_pos rfl, hlast]
    · rw [hprod]
      exact hsent
    · rw [hout]
      rfl
    · change c.incoming.tail = _
      rw [hl.incoming, List.tail_range']
      rfl
    · intro j
      change (((c₁.put i o).leave i).responses j).msg.connection = false
      rw [hmsg]
      split_ifs with hj
      · rfl
      · have hcj := hl.connection j
        rw [howner, h.ids] at hcj
        simpa [Ne.symm hj] using hcj
    · intro j hj
      change (((c₁.put i o).leave i).responses j).msg.stream _ =
        (((c₁.put i o).leave i).responses j).produced
      rw [hmsg, if_neg (by omega), hprod]
      exact hl.stream j (by omega)
    · intro j hj
      exact hl.unsent j (by omega) (by rw [howner, h.ids]; simp; omega)
    · intro j hj
      change (((c₁.put i o).leave i).responses j).done = none
      rw [hdone, if_neg (by omega)]
      exact hl.pending j (by omega)
    · exact fun j hj => (hprod j).trans (hl.unborn j hj)

/-- The listener of 'finish' of the current response hands the socket on. By induction on the
queue: each response that leaves brings in the next one. -/
theorem onFinish_live (outgoing : List ℕ) : ∀ {c : ServerConnection} {i : ℕ},
    Wire c i → Live c i → i < c.count → c.socket.writable = true → c.outgoing = outgoing →
    Sealed (c.responses i).msg c.socket → Ordered (onFinish outgoing c i) := by
  induction outgoing with
  | nil =>
    intro c i h hl hi hw hout hs
    obtain ⟨hok, hcount, hdone, hgo⟩ := depart_live h hl hi hs
    have hd := (depart_wire h i).1
    have hlen : c.count - (i + 1) = 0 := by
      simpa using congrArg List.length (hl.outgoing.symm.trans hout)
    unfold onFinish
    dsimp only [List.tail_nil]
    rw [if_neg (by simp [hok])]
    split_ifs with hlast
    · exact ⟨i, hd.quiet rfl hd.ids le_rfl hd.left (fun _ _ => rfl) List.prefix_rfl, by
        simp [Socket.shut]⟩
    · obtain ⟨hwire, hvacant⟩ := hgo (by simpa using hlast)
      have hv := hvacant [] (by rw [show c.count - (i + 2) = 0 by omega]; rfl)
      exact ⟨i + 1, hwire.quiet rfl hwire.ids le_rfl hwire.left (fun _ _ => rfl) List.prefix_rfl,
        fun _ => hv.live (by change (c.depart i).1.count ≤ i + 1; omega)⟩
  | cons j rest ih =>
    intro c i h hl hi hw hout hs
    obtain ⟨hok, hcount, hdone, hgo⟩ := depart_live h hl hi hs
    obtain ⟨hd, hdw⟩ := depart_wire h i
    have hrange := hl.outgoing.symm.trans hout
    have hlen : c.count - (i + 1) = rest.length + 1 := by
      simpa using congrArg List.length hrange
    rw [show c.count - (i + 1) = c.count - (i + 2) + 1 by omega, List.range'_succ] at hrange
    obtain ⟨rfl, hrest⟩ := List.cons.inj hrange
    unfold onFinish
    dsimp only [List.tail_cons]
    rw [if_neg (by simp [hok])]
    split_ifs with hlast hfin
    · exact ⟨i, hd.quiet rfl hd.ids le_rfl hd.left (fun _ _ => rfl) List.prefix_rfl, by
        simp [Socket.shut]⟩
    all_goals
      obtain ⟨hwire, hvacant⟩ := hgo (by simpa using hlast)
      have hv := hvacant rest hrest.symm
      have hpop : Wire { (c.depart i).1 with outgoing := rest } (i + 1) :=
        hwire.quiet rfl hwire.ids le_rfl hwire.left (fun _ _ => rfl) List.prefix_rfl
      have hbound : i + 1 < (c.depart i).1.count := by omega
      obtain ⟨hputw, hputl, hputwr, hputs⟩ := hv.assign hpop hbound
    · have hwr := hputwr.trans (hdw.trans hw)
      exact ih hputw (hputl hwr) hbound hwr rfl (hputs hfin)
    · exact ⟨i + 1, hputw, hputl⟩

end Handover

/-! ### Every step keeps the order -/

section Steps

variable {c : ServerConnection}

/-- A method of response `i`, with the listener of 'finish'. -/
theorem perform_ordered (h : Ordered c) {i : ℕ} {p : Str}
    {f : OutgoingMessage → Socket → Outcome} (hi : c.socket.writable = true → i < c.count)
    (he : Effect (c.responses i).msg c.socket (f (c.responses i).msg c.socket).self
      (f (c.responses i).msg c.socket).socket p)
    (hs : (f (c.responses i).msg c.socket).finish = true →
      Sealed (f (c.responses i).msg c.socket).self (f (c.responses i).msg c.socket).socket) :
    Ordered (c.perform i p f) := by
  obtain ⟨k, hwire, hlive⟩ := h
  obtain ⟨hw', hl'⟩ := put_ordered hwire hlive hi he
  unfold perform
  dsimp only
  split_ifs with hfin
  · cases hwr : ((c.record i p).put i (f (c.responses i).msg c.socket)).socket.writable with
    | false =>
      obtain ⟨hend, hshut⟩ := onFinish_shut _ (i := i) hw' hwr
      exact ⟨k, hend, fun hw => by rw [hshut] at hw; cases hw⟩
    | true =>
      have hl := hl' hwr
      have hsealed := hs hfin
      have hmsg : (((c.record i p).put i (f (c.responses i).msg c.socket)).responses i).msg =
          (f (c.responses i).msg c.socket).self := by
        rw [put_msg, if_pos rfl]
      have hid : (f (c.responses i).msg c.socket).self.id = i := he.id.trans (hwire.ids i)
      have howner : some i = if k < _ then some k else none :=
        (hsealed.httpMessage.trans (congrArg some hid)).symm.trans hl.owner
      split_ifs at howner with hk
      obtain rfl : i = k := by simpa using howner
      exact onFinish_live _ hw' hl hk hwr rfl (by rw [hmsg]; exact hsealed)
  · exact ⟨k, hw', hl'⟩

theorem call_ordered (h : Ordered c) {i : ℕ} (hi : i < c.count) (f : Call) :
    Ordered (c.call i f) :=
  perform_ordered h (fun _ => hi) (apply_effect f _ _) apply_sealed

/-- Assignments to fields of responses that have no part in the bytes. -/
theorem put_field (h : Ordered c) {i : ℕ} {m : OutgoingMessage} {ret : Except LuaError (Option Bool)}
    (hi : c.socket.writable = true → i < c.count) (hid : m.id = (c.responses i).msg.id)
    (hkind : m.kind = (c.responses i).msg.kind)
    (hconn : m.connection = (c.responses i).msg.connection)
    (hout : m.output = (c.responses i).msg.output) :
    Ordered (c.put i ⟨m, c.socket, ret, false⟩) := by
  have he : Effect (c.responses i).msg c.socket m c.socket [] :=
    Effect.still c.socket hid hkind hconn hout
  have hnone : c.record i [] = c := by
    unfold record
    split_ifs <;> simp
  have hp := perform_ordered (p := []) (f := fun _ s => ⟨m, s, ret, false⟩) h hi he (by simp)
  rw [perform, hnone] at hp
  exact hp

/-- The connection has a new response, not attached and not in the queue. -/
def born (c : ServerConnection) (runtime : Runtime) (req : IncomingRequest) : ServerConnection :=
  { c with
    count := c.count + 1
    incoming := c.incoming ++ [c.count]
    responses := Function.update c.responses c.count
      { c.responses c.count with msg := serverResponse c.count runtime req } }

section Born

variable (runtime : Runtime) (req : IncomingRequest)

theorem born_msg (c : ServerConnection) :
    ((c.born runtime req).responses c.count).msg = serverResponse c.count runtime req := by
  simp [born]

theorem born_other {j : ℕ} (hj : j ≠ c.count) :
    (c.born runtime req).responses j = c.responses j := by
  simp [born, hj]

theorem born_ghost (c : ServerConnection) (j : ℕ) :
    ((c.born runtime req).responses j).produced = (c.responses j).produced ∧
      ((c.born runtime req).responses j).done = (c.responses j).done := by
  by_cases hj : j = c.count
  · subst hj
    simp [born]
  · rw [born_other runtime req hj]
    exact ⟨rfl, rfl⟩

theorem Wire.born (h : Wire c k) : Wire (c.born runtime req) k := by
  refine h.quiet rfl (fun j => ?_) (Nat.le_succ _)
    (fun j hj => (born_ghost runtime req c j).2.trans (h.left j hj))
    (fun j _ => (born_ghost runtime req c j).1) (by rw [(born_ghost runtime req c k).1])
  by_cases hj : j = c.count
  · subst hj
    rw [born_msg]
    rfl
  · rw [born_other runtime req hj, h.ids]

theorem Live.owner_ne (h : Live c k) : c.socket.httpMessage ≠ some c.count := by
  rw [h.owner]
  split_ifs with hk
  · simp; omega
  · simp

theorem Live.born_stream (h : Live c k) {j : ℕ} (hj : k ≤ j) :
    ((c.born runtime req).responses j).msg.stream c.socket =
      ((c.born runtime req).responses j).produced := by
  rw [(born_ghost runtime req c j).1]
  by_cases hjc : j = c.count
  · subst hjc
    rw [born_msg, h.unborn _ le_rfl]
    have hsent := h.unsent c.count hj h.owner_ne
    simpa [OutgoingMessage.stream, serverResponse, OutgoingMessage.init] using hsent
  · rw [born_other runtime req hjc]
    exact h.stream j hj

theorem Live.born_connection (h : Live c k) (j : ℕ) :
    ((c.born runtime req).responses j).msg.connection = true ↔
      c.socket.httpMessage = some j := by
  by_cases hjc : j = c.count
  · subst hjc
    simp [born_msg, serverResponse, OutgoingMessage.init, h.owner_ne]
  · rw [born_other runtime req hjc]
    exact h.connection j

theorem Live.born_pending (h : Live c k) {j : ℕ} (hj : k ≤ j) :
    ((c.born runtime req).responses j).done = none :=
  (born_ghost runtime req c j).2.trans (h.pending j hj)

theorem Live.born_unborn (h : Live c k) {j : ℕ} (hj : c.count + 1 ≤ j) :
    ((c.born runtime req).responses j).produced = [] :=
  (born_ghost runtime req c j).1.trans (h.unborn j ((Nat.le_succ _).trans hj))

/-- While a response is attached, the new one waits behind the others. -/
theorem Live.queue (h : Live c k) (howner : c.socket.httpMessage.isSome) :
    Live { c.born runtime req with outgoing := c.outgoing ++ [c.count] } k := by
  have hk : k < c.count := by
    have hsome := h.owner
    split_ifs at hsome with hk
    · exact hk
    · simp [hsome] at howner
  refine ⟨?_, ?_, ?_, h.born_connection runtime req, fun _ => h.born_stream runtime req, h.unsent,
    fun _ => h.born_pending runtime req, fun _ => h.born_unborn runtime req⟩
  · change c.socket.httpMessage = if k < c.count + 1 then some k else none
    rw [if_pos (by omega)]
    exact h.owner.trans (if_pos hk)
  · change c.outgoing ++ [c.count] = List.range' (k + 1) (c.count + 1 - (k + 1))
    rw [h.outgoing, show c.count + 1 - (k + 1) = c.count - (k + 1) + 1 by omega,
      List.range'_concat]
    congr 2
    omega
  · change c.incoming ++ [c.count] = List.range' k (c.count + 1 - k)
    rw [h.incoming, show c.count + 1 - k = c.count - k + 1 by omega, List.range'_concat]
    congr 2
    omega

/-- While none is attached, the new one may be. -/
theorem Live.vacant_born (h : Live c k) (hnone : c.socket.httpMessage = none)
    (hk : k = c.count) : Vacant (c.born runtime req) k := by
  refine ⟨hnone, ?_, ?_, fun j => ?_, fun _ => h.born_stream runtime req,
    fun j hj => h.unsent j hj (by simp [hnone]), fun _ => h.born_pending runtime req,
    fun _ => h.born_unborn runtime req⟩
  · change c.outgoing = List.range' (k + 1) (c.count + 1 - (k + 1))
    rw [h.outgoing]
    congr 1
    omega
  · change c.incoming ++ [c.count] = List.range' k (c.count + 1 - k)
    rw [h.incoming, hk]
    simp
  · have hconnection := h.born_connection runtime req j
    rw [hnone] at hconnection
    simpa using hconnection

end Born

/-- The connection takes a new request. -/
theorem enqueue_ordered (h : Ordered c) (runtime : Runtime) (req : IncomingRequest) :
    Ordered (c.enqueue runtime req) := by
  obtain ⟨k, hwire, hlive⟩ := h
  have hborn : Wire (c.born runtime req) k := hwire.born runtime req
  have henqueue : c.enqueue runtime req =
      if c.socket.httpMessage.isSome then
        { c.born runtime req with outgoing := c.outgoing ++ [c.count] }
      else (c.born runtime req).put c.count
        ((serverResponse c.count runtime req).assignSocket c.socket) := rfl
  rw [henqueue]
  split_ifs with howner
  · exact ⟨k, hborn.quiet rfl hborn.ids le_rfl hborn.left (fun _ _ => rfl) List.prefix_rfl,
      fun hw => (hlive hw).queue runtime req howner⟩
  · have hnone : c.socket.httpMessage = none := by simpa using howner
    cases hw : c.socket.writable with
    | false =>
      obtain ⟨hid, hwritten, hshut⟩ :=
        assignSocket_shut (serverResponse c.count runtime req) c.socket hw
      refine ⟨k, put_quiet (i := c.count) hborn hid hwritten, fun hw' => ?_⟩
      rw [show ((c.born runtime req).put c.count _).socket.writable = false from hshut] at hw'
      cases hw'
    | true =>
      have hl := hlive hw
      have hk : k = c.count := by
        have hnot := hl.owner
        have hbound := hwire.bound
        rw [hnone] at hnot
        split_ifs at hnot with hlt
        omega
      obtain ⟨hputw, hputl, -, -⟩ :=
        (hl.vacant_born runtime req hnone hk).assign hborn (show k < c.count + 1 by omega)
      subst hk
      rw [born_msg] at hputw hputl
      exact ⟨c.count, hputw, hputl⟩

theorem onIncoming_ordered (h : Ordered c) (runtime : Runtime) (req : IncomingRequest) :
    Ordered (c.onIncoming runtime req) := by
  have henq := enqueue_ordered h runtime req
  have hcount : c.count < (c.enqueue runtime req).count := by
    unfold enqueue
    dsimp only
    split_ifs <;> exact Nat.lt_succ_self _
  have hput : Ordered ((c.enqueue runtime req).put c.count
      ⟨{ ((c.enqueue runtime req).responses c.count).msg with expectContinue := true },
        (c.enqueue runtime req).socket, .ok none, false⟩) :=
    put_field henq (fun _ => hcount) rfl rfl rfl rfl
  unfold onIncoming
  dsimp only
  split_ifs
  · exact hput
  · exact call_ordered hput hcount .writeContinue
  · exact henq

/-- The socket takes no more writes; `s` is the socket then. -/
theorem shut_ordered (h : Ordered c) (s : Socket) (incoming : List ℕ)
    (hw : s.written = c.socket.written) (hs : s.writable = false) :
    Ordered { c with socket := s, incoming := incoming } := by
  obtain ⟨k, hwire, -⟩ := h
  exact ⟨k, hwire.quiet hw hwire.ids le_rfl hwire.left (fun _ _ => rfl) List.prefix_rfl,
    fun hw' => by rw [show _ = false from hs] at hw'; cases hw'⟩

/-- The response that has the socket, and those in the queue, exist. -/
theorem owner_lt {k i : ℕ} (hl : Live c k)
    (hi : c.outgoing.getLast? = some i ∨ c.socket.httpMessage = some i) : i < c.count := by
  rcases hi with hi | hi
  · have hmem := List.mem_of_getLast? hi
    rw [hl.outgoing, List.mem_range'_1] at hmem
    omega
  · rw [hl.owner] at hi
    split_ifs at hi with hk
    obtain rfl : k = i := by simpa using hi
    exact hk

theorem onend_ordered (h : Ordered c) : Ordered c.onend := by
  have hmark : ∀ i, (c.outgoing.getLast? = some i ∨ c.socket.httpMessage = some i) →
      Ordered (c.markLast i) := by
    intro i hi
    obtain ⟨k, hwire, hlive⟩ := h
    exact put_field ⟨k, hwire, hlive⟩ (fun hw => owner_lt (hlive hw) hi) rfl rfl rfl rfl
  unfold onend
  split_ifs
  · exact shut_ordered h c.socket.shut [] rfl rfl
  · split
    next i hout => exact hmark i (Or.inl hout)
    next i _ hmsg => exact hmark i (Or.inr hmsg)
    · exact shut_ordered h c.socket.shut c.incoming rfl rfl

theorem step_ordered (c : ServerConnection) (e : Event) (h : Ordered c) :
    Ordered (c.step e) := by
  cases e with
  | request runtime req => exact onIncoming_ordered h runtime req
  | call i f =>
    simp only [step]
    split_ifs with hi
    · exact call_ordered h hi f
    · exact h
  | flush =>
    simp only [step]
    split
    · exact h
    next i hm =>
      obtain ⟨k, hwire, hlive⟩ := h
      have hm' : c.socket.httpMessage = some (c.responses i).msg.id := by rw [hwire.ids, hm]
      exact perform_ordered ⟨k, hwire, hlive⟩ (fun hw => owner_lt (hlive hw) (Or.inr hm))
        (OutgoingMessage.flush_effect _ _ hm').1 (OutgoingMessage.flush_sealed _ _ hm')
  | onend => exact onend_ordered h
  | shut => exact shut_ordered h c.socket.shut c.incoming rfl rfl
  | destroy => exact shut_ordered h c.socket.destroy c.incoming rfl rfl
  | close =>
    simp only [step]
    split_ifs with hd
    · exact shut_ordered h c.socket [] rfl (c.socket.closed hd)
    · exact h

theorem initial_ordered (runtime : Runtime) (results : List Bool)
    (httpAllowHalfOpen checkContinue : Bool) :
    Ordered (initial runtime results httpAllowHalfOpen checkContinue) := by
  refine ⟨0, ⟨fun _ => rfl, le_rfl, ?_, ?_, ?_, Or.inr rfl, ?_, ?_, ?_⟩, fun _ => ?_⟩
  · simp
  · simp
  · simp [initial, Socket.fresh, Socket.sentBy]
  · simp [initial, Socket.fresh]
  · simp [initial, Socket.fresh]
  · rfl
  · refine ⟨rfl, rfl, rfl, ?_, ?_, ?_, ?_, ?_⟩ <;>
      simp [initial, Socket.fresh, OutgoingMessage.init, OutgoingMessage.stream, Socket.sentBy]

end Steps

/-- Pipelined responses. However the calls of the handlers on their responses are interleaved
with each other and with the fate of the socket, what has been written is a prefix of the
responses in request order; a response is written only when the earlier ones are complete; and
nothing is written for a response behind one that left with `_last`. -/
theorem pipelined (runtime : Runtime) (results : List Bool)
    (httpAllowHalfOpen checkContinue : Bool) (es : List Event) :
    let c := run step (initial runtime results httpAllowHalfOpen checkContinue) es
    c.wire <+: c.produced c.count ∧
    c.socket.written.Pairwise (fun a b => a.1 ≤ b.1) ∧
    (∀ e ∈ c.socket.written, ∀ j < e.1, c.socket.sentBy j = (c.responses j).produced) ∧
    ∀ i, (c.responses i).done = some true → ∀ e ∈ c.socket.written, e.1 ≤ i := by
  intro c
  obtain ⟨k, h, -⟩ : Ordered c :=
    run_invariant step_ordered (initial_ordered runtime results httpAllowHalfOpen checkContinue) es
  refine ⟨?_, h.order, ?_, ?_⟩
  · exact h.wire_prefix
  · intro e he j hj
    exact h.complete j (hj.trans_le (h.upto e he))
  · intro i hi e he
    refine (h.upto e he).trans ?_
    by_contra hlt
    simp [h.left i (by omega)] at hi

end ServerConnection

end LuaNode
