import LuaNode.Http.Calls
import LuaNode.Library.Runs

/-!
# A connection that is kept alive

One connection of an agent, the requests of its name, and what releases the connection: the end
of a response. `responseOnEnd` emits 'free', the agent gives the connection to the request that
waits longest, and a tick later `onSocket` attaches that request and flushes it. Writing is up to
the handlers of the requests, whose calls may come at any time.
-/

namespace LuaNode

structure KeepAlive where
  socket : Socket
  /-- the requests made so far; request `i` is the one with the id `i` -/
  requests : List OutgoingMessage
  /-- `requests[name]` of the agent -/
  waiting : List ℕ
  /-- the request for which `onSocket` has posted a tick -/
  pending : Option ℕ
  /-- the requests that got the connection, in order -/
  owners : List ℕ
  /-- the requests that have a response, `req.res` -/
  answered : List ℕ
  /-- the requests whose response has ended -/
  responded : List ℕ
  /-- the stream of a request when its `finish` returned -/
  ended : List (ℕ × Str)

/-- What happens around the connection. -/
inductive KeepAliveEvent
  /-- a request is made, and waits -/
  | request (runtime : Runtime) (options : RequestOptions)
  /-- another connection of the pool takes the request that waits longest -/
  | elsewhere
  /-- the agent gives the new connection to its first request -/
  | open
  /-- the tick posted by `onSocket` -/
  | tick
  | call (i : ℕ) (c : Call)
  /-- a response arrives for the request that has the connection; `keepAlive` tells whether the
  server wants to go on -/
  | response (keepAlive : Bool)
  /-- the response ends -/
  | responseEnd
  /-- other code finishes or destroys the socket -/
  | shut
  | destroy

namespace KeepAlive

/-- A fresh connection; `results` are the answers of the coming calls of `socket:write`. -/
def init (results : List Bool) : KeepAlive := ⟨.fresh results, [], [], none, [], [], [], []⟩

/-- The 'free' listener of the agent. -/
def free (w : KeepAlive) : KeepAlive :=
  match w.waiting with
  | i :: rest =>
    if w.socket.destroyed then w
    else { w with waiting := rest, pending := some i }
  | [] => { w with socket := w.socket.destroy }

/-- `socket._httpMessage`, with its number. -/
def owner (w : KeepAlive) : Option (ℕ × OutgoingMessage) :=
  w.socket.httpMessage.bind fun i => w.requests[i]?.map fun m => (i, m)

/-- `parserOnIncomingClient`. A second response is an error. The response to a CONNECT request
takes the connection out of the pool; it has no 'end'. -/
def onIncoming (w : KeepAlive) (i : ℕ) (m : OutgoingMessage) (keepAlive : Bool) : KeepAlive :=
  if i ∈ w.answered then { w with socket := w.socket.destroy }
  else if m.method = "CONNECT".toList then w
  else
    { w with
      answered := w.answered ++ [i]
      requests := w.requests.set i { m with shouldKeepAlive := m.shouldKeepAlive && keepAlive } }

/-- `responseOnEnd`. -/
def responseOnEnd (w : KeepAlive) (i : ℕ) (m : OutgoingMessage) : KeepAlive :=
  let w := { w with responded := w.responded ++ [i] }
  if m.shouldKeepAlive then w.free
  else if w.socket.writable then { w with socket := w.socket.shut }
  else w

def step (w : KeepAlive) : KeepAliveEvent → KeepAlive
  | .request runtime options =>
    let o := OutgoingMessage.clientRequest w.requests.length runtime w.socket options
    match o.ret with
    | .error _ => w
    | .ok _ =>
      { w with
        requests := w.requests ++ [o.self]
        waiting := w.waiting ++ [w.requests.length] }
  | .elsewhere => { w with waiting := w.waiting.tail }
  | .open =>
    match w.waiting with
    | i :: rest =>
      if w.owners = [] ∧ w.pending = none then { w with waiting := rest, pending := some i } else w
    | [] => w
  | .tick =>
    match w.pending.bind fun i => w.requests[i]?.map fun m => (i, m) with
    | none => w
    | some (i, m) =>
      let o := m.onSocket w.socket
      { w with
        socket := o.socket
        requests := w.requests.set i o.self
        pending := none
        owners := w.owners ++ [i] }
  | .call i c =>
    match w.requests[i]? with
    | none => w
    | some m =>
      let o := c.apply m w.socket
      { w with
        socket := o.socket
        requests := w.requests.set i o.self
        ended := if m.finished = false ∧ o.self.finished = true then
          w.ended ++ [(i, o.self.stream o.socket)] else w.ended }
  | .response keepAlive =>
    match w.owner with
    | none => w
    | some (i, m) => w.onIncoming i m keepAlive
  | .responseEnd =>
    match w.owner with
    | none => w
    | some (i, m) =>
      if i ∈ w.answered ∧ i ∉ w.responded then w.responseOnEnd i m else w
  | .shut => { w with socket := w.socket.shut }
  | .destroy => { w with socket := w.socket.destroy }

/-- The bytes of request `i` that were handed to the socket. -/
def sent (w : KeepAlive) (i : ℕ) : Str := w.socket.sentBy i

/-- All that the request had produced when its `finish` returned is on the wire. -/
def Complete (w : KeepAlive) (i : ℕ) : Prop := ∃ t, (i, t) ∈ w.ended ∧ t <+: w.sent i

end KeepAlive

namespace OutgoingMessage

/-! ### What the constructor of `ClientRequest` makes -/

/-- A request that has not been given a connection and is not finished. -/
structure Unattached (id : ℕ) (m : OutgoingMessage) : Prop where
  id : m.id = id
  connection : m.connection = false
  finished : m.finished = false

variable {m m' : OutgoingMessage} {id : ℕ}

theorem Unattached.headFrame (h : Unattached id m) (hf : HeadFrame m m') : Unattached id m' := by
  rw [hf]
  exact ⟨h.id, h.connection, h.finished⟩

theorem Unattached.andThen {o : Outcome} {f : OutgoingMessage → Socket → Outcome}
    (h : Unattached id o.self) (hf : ∀ m s, Unattached id m → Unattached id (f m s).self) :
    Unattached id (o.andThen f).self := by
  unfold Outcome.andThen
  split
  · exact h
  · exact hf _ _ h

theorem Unattached.setHeader (h : Unattached id m) (s : Socket) (name : Str)
    (value : HeaderValue) : Unattached id (m.setHeader s name value).self := by
  unfold OutgoingMessage.setHeader
  split_ifs
  · exact h
  · exact ⟨h.id, h.connection, h.finished⟩

theorem Unattached.setHeaders (h : Unattached id m) (s : Socket)
    (entries : List (Str × HeaderValue)) : Unattached id (m.setHeaders s entries).self := by
  induction entries generalizing m s with
  | nil => exact h
  | cons p ps ih => exact (h.setHeader s p.1 p.2).andThen fun m s hm => ih hm s

theorem Unattached.setHostHeader (h : Unattached id m) (s : Socket) (options : RequestOptions) :
    Unattached id (m.setHostHeader s options).self := by
  unfold OutgoingMessage.setHostHeader
  by_cases hset : (m.getHeader "host".toList).isNone ∧ options.setHost = false
  · rw [if_pos hset]
    exact h.setHeader s _ _
  · rw [if_neg hset]
    exact h

theorem Unattached.storeHeader (h : Unattached id m) (s : Socket) (firstLine : Str)
    (headers : HeaderTable) : Unattached id (m.storeHeader s firstLine headers).self := by
  rw [storeHeader_eq]
  rcases hb : m.renderBlock firstLine headers with ⟨err, m'⟩ | ⟨m', early⟩
  · exact h.headFrame (renderBlock_error hb)
  · obtain ⟨hframe, hsome, -⟩ := renderBlock_ok hb
    obtain ⟨heff, henc, -, -⟩ := sendBlock_ok (r := .ok (m', early)) s rfl hframe hsome
    have hfin : (m'.earlyBytes early).1.finished = m'.finished := by
      unfold earlyBytes Encoder.emit
      split_ifs <;> rfl
    refine ⟨heff.id.trans h.id, heff.connection.trans h.connection, ?_⟩
    exact (congrArg Encoder.finished henc).trans (hfin.trans (h.headFrame hframe).finished)

theorem Unattached.storeEarly (h : Unattached id m) (s : Socket) (options : RequestOptions) :
    Unattached id (m.storeEarly s options).self := by
  unfold OutgoingMessage.storeEarly
  dsimp only
  split
  · exact h.storeHeader s _ _
  · split_ifs
    · split
      · exact h
      · exact h.storeHeader s _ _
    · exact h

theorem clientRequest_unattached (id : ℕ) (runtime : Runtime) (s : Socket)
    (options : RequestOptions) : Unattached id (clientRequest id runtime s options).self := by
  unfold clientRequest
  dsimp only
  have hinit : ∀ method path, Unattached id
      { init id .clientRequest runtime with method := method, path := path } :=
    fun _ _ => ⟨rfl, rfl, rfl⟩
  refine ((hinit _ _).setHeaders s _).andThen fun m s hm => ?_
  refine (hm.setHostHeader s options).andThen fun m s hm => ?_
  split_ifs
  · exact hm
  · refine (Unattached.storeEarly ?_ s options).andThen fun m s hm => ?_
    · exact ⟨hm.id, hm.connection, hm.finished⟩
    · exact ⟨hm.id, hm.connection, hm.finished⟩

end OutgoingMessage

namespace KeepAlive

variable {w w' : KeepAlive}

/-! ### Turns -/

/-- The requests that have or had the connection, the one that will get it, and those that wait. -/
def line (w : KeepAlive) : List ℕ := w.owners ++ w.pending.toList ++ w.waiting

/-- The place of a request in the order in which the connection was given away. -/
def turn (w : KeepAlive) (i : ℕ) : ℕ := w.owners.idxOf i

/-- What holds between events, whatever the handlers do. -/
structure Turns (w : KeepAlive) : Prop where
  ids : ∀ (i : ℕ) (m : OutgoingMessage), w.requests[i]? = some m → m.id = i
  nodup : w.line.Nodup
  known : ∀ i ∈ w.line, i < w.requests.length
  attached : ∀ (i : ℕ) (m : OutgoingMessage), w.requests[i]? = some m →
    (m.connection = true ↔ i ∈ w.owners)
  owner : w.socket.httpMessage = w.owners.getLast?
  tags : ∀ p ∈ w.socket.written, p.1 ∈ w.owners
  order : (w.socket.written.map fun p => w.turn p.1).Pairwise (· ≤ ·)
  ended : ∀ (i : ℕ) (m : OutgoingMessage), w.requests[i]? = some m → m.finished = true →
    ∃ t, (i, t) ∈ w.ended ∧ t <+: m.stream w.socket

/-- The buffer of the request that has a live connection is empty. -/
def Clear (w : KeepAlive) : Prop :=
  ∀ (i : ℕ) (m : OutgoingMessage), w.socket.httpMessage = some i → w.requests[i]? = some m →
    w.socket.writable = true → m.output = []

/-- A socket that takes no more bytes, or takes them no longer. -/
structure Closes (s s' : Socket) : Prop where
  written : s'.written = s.written
  httpMessage : s'.httpMessage = s.httpMessage
  writable : s'.writable = true → s.writable = true

theorem closes_shut (s : Socket) : Closes s s.shut := ⟨rfl, rfl, fun h => by cases h⟩

theorem closes_destroy (s : Socket) : Closes s s.destroy := ⟨rfl, rfl, fun h => by cases h⟩

theorem Turns.closes (h : Turns w) {s : Socket} (hs : Closes w.socket s) :
    Turns { w with socket := s } := by
  refine ⟨h.ids, h.nodup, h.known, h.attached, hs.httpMessage.trans h.owner, ?_, ?_, ?_⟩
  · rw [hs.written]; exact h.tags
  · have horder := h.order
    dsimp only [turn] at horder ⊢
    rw [hs.written]
    exact horder
  · intro i m hget hfin
    obtain ⟨t, ht, hpre⟩ := h.ended i m hget hfin
    refine ⟨t, ht, ?_⟩
    unfold OutgoingMessage.stream Socket.sentBy at hpre ⊢
    rw [hs.written]
    exact hpre

/-- The owner is the last one in the order. -/
theorem Turns.owner_last (h : Turns w) {i : ℕ} (hi : w.socket.httpMessage = some i) :
    i ∈ w.owners ∧ ∀ j ∈ w.owners, w.turn j ≤ w.turn i := by
  rw [h.owner] at hi
  obtain ⟨front, hfront⟩ := List.getLast?_eq_some_iff.mp hi
  have hnodup : w.owners.Nodup :=
    (List.nodup_append.mp (List.nodup_append.mp h.nodup).1).1
  rw [hfront] at hnodup
  have hnot : i ∉ front := fun hin =>
    (List.nodup_append.mp hnodup).2.2 i hin i (List.mem_singleton_self i) rfl
  have hturn : w.turn i = front.length := by
    unfold turn
    rw [hfront, List.idxOf_append_of_notMem hnot]
    simp
  refine ⟨by rw [hfront]; simp, fun j hj => ?_⟩
  have hlt : w.turn j < w.owners.length := List.idxOf_lt_length_of_mem hj
  rw [hturn]
  rw [hfront, List.length_append, List.length_singleton] at hlt
  omega

/-- What changes with a call, or with the tick of `onSocket`. -/
theorem mem_set {l : List OutgoingMessage} {i j : ℕ} {m m' : OutgoingMessage}
    (h : (l.set i m)[j]? = some m') : j = i ∧ m' = m ∨ j ≠ i ∧ l[j]? = some m' := by
  rw [List.getElem?_set] at h
  split_ifs at h with hji
  · exact Or.inl ⟨hji.symm, by cases h; rfl⟩
  · exact Or.inr ⟨fun heq => hji heq.symm, h⟩

/-- The stream of a request grows. -/
theorem stream_grows {m m' : OutgoingMessage} {s s' : Socket} {p : Str}
    (h : Effect m s m' s' p) : m.stream s <+: m'.stream s' := by
  rcases h.stream_cases with heq | heq <;> rw [heq]
  exact List.prefix_append _ _

/-- Strings written by the owner keep the order of the turns. -/
theorem order_append {written : List (ℕ × Str)} {q : List Str} {turn : ℕ → ℕ} {i : ℕ}
    (horder : (written.map fun p => turn p.1).Pairwise (· ≤ ·))
    (hlast : q ≠ [] → ∀ p ∈ written, turn p.1 ≤ turn i) :
    ((written ++ q.map fun c => (i, c)).map fun p => turn p.1).Pairwise (· ≤ ·) := by
  rw [List.map_append, List.pairwise_append]
  refine ⟨horder, ?_, ?_⟩
  · rw [List.map_map]
    exact List.pairwise_map.mpr (List.pairwise_of_forall fun _ _ => le_rfl)
  · intro a ha b hb
    obtain ⟨p, hp, rfl⟩ := List.mem_map.mp ha
    rw [List.map_map] at hb
    obtain ⟨c, hc, rfl⟩ := List.mem_map.mp hb
    exact hlast (List.ne_nil_of_mem hc) p hp

/-- A request and the socket change under an effect: by a call, or by the flush of `onSocket`. -/
def changed (w : KeepAlive) (i : ℕ) (m : OutgoingMessage) (s : Socket)
    (ended : List (ℕ × Str)) : KeepAlive :=
  { w with socket := s, requests := w.requests.set i m, ended := ended }

section Effects

variable {i : ℕ} {m m' : OutgoingMessage} {s' : Socket} {p : Str}

theorem turns_effect (ended : List (ℕ × Str)) (h : Turns w) (hget : w.requests[i]? = some m)
    (heff : Effect m w.socket m' s' p) (hkeep : ∀ x ∈ w.ended, x ∈ ended)
    (hended : m'.finished = true → m.finished = true ∨ (i, m'.stream s') ∈ ended) :
    Turns (w.changed i m' s' ended) := by
  have hid := h.ids i m hget
  obtain ⟨q, hwritten, hlive, -⟩ := heff.wire
  rw [hid] at hwritten hlive
  refine ⟨fun j n hj => ?_, h.nodup, fun j hj => ?_, fun j n hj => ?_,
    heff.httpMessage.trans h.owner, fun x hx => ?_, ?_, fun j n hj hfin => ?_⟩
  · rcases mem_set hj with ⟨rfl, rfl⟩ | ⟨-, hj'⟩
    · exact heff.id.trans hid
    · exact h.ids j n hj'
  · refine (h.known j hj).trans_eq ?_
    exact List.length_set.symm
  · rcases mem_set hj with ⟨rfl, rfl⟩ | ⟨-, hj'⟩
    · rw [heff.connection]
      exact h.attached j m hget
    · exact h.attached j n hj'
  · rw [show (w.changed i m' s' ended).socket = s' from rfl, hwritten] at hx
    rcases List.mem_append.mp hx with hx | hx
    · exact h.tags x hx
    · obtain ⟨c, hc, rfl⟩ := List.mem_map.mp hx
      obtain ⟨-, -, hmsg⟩ := hlive (List.ne_nil_of_mem hc)
      exact (h.owner_last hmsg).1
  · rw [show (w.changed i m' s' ended).socket = s' from rfl, hwritten]
    refine order_append h.order fun hq x hx => ?_
    obtain ⟨-, -, hmsg⟩ := hlive hq
    exact (h.owner_last hmsg).2 x.1 (h.tags x hx)
  · rcases mem_set hj with ⟨rfl, rfl⟩ | ⟨hne, hj'⟩
    · rcases hended hfin with hwas | hnew
      · obtain ⟨t, ht, hpre⟩ := h.ended j m hget hwas
        exact ⟨t, hkeep _ ht, hpre.trans (stream_grows heff)⟩
      · exact ⟨_, hnew, List.prefix_rfl⟩
    · obtain ⟨t, ht, hpre⟩ := h.ended j n hj' hfin
      refine ⟨t, hkeep _ ht, ?_⟩
      have hother := heff.sentBy_other (j := j) (by rw [hid]; exact hne)
      unfold OutgoingMessage.stream at hpre ⊢
      rw [h.ids j n hj'] at hpre ⊢
      rw [show (w.changed i m' s' ended).socket = s' from rfl, hother]
      exact hpre

theorem clear_effect (ended : List (ℕ × Str)) (h : Turns w) (hc : w.Clear)
    (hget : w.requests[i]? = some m)
    (heff : Effect m w.socket m' s' p) : (w.changed i m' s' ended).Clear := by
  intro j n hmsg hj hw
  have hmsg' : w.socket.httpMessage = some j := heff.httpMessage.symm.trans hmsg
  have hw' : w.socket.writable = true := heff.writable.symm.trans hw
  rcases mem_set hj with ⟨rfl, rfl⟩ | ⟨-, hj'⟩
  · have hconn : m.connection = true := (h.attached j m hget).mpr (h.owner_last hmsg').1
    exact heff.drained hconn hw' (by rw [h.ids j m hget]; exact hmsg') (hc j m hmsg' hget hw')
  · exact hc j n hmsg' hj' hw'

end Effects

/-- The state between the assignments of `onSocket` and the flush. -/
def given (w : KeepAlive) (i : ℕ) (m : OutgoingMessage) : KeepAlive :=
  { w with
    socket := { w.socket with httpMessage := some m.id }
    requests := w.requests.set i { m with connection := true }
    pending := none
    owners := w.owners ++ [i] }

section Given

variable {i : ℕ} {m : OutgoingMessage}

theorem Turns.pending_new (h : Turns w) (hpending : w.pending = some i) : i ∉ w.owners := by
  intro hi
  have hnodup := (List.nodup_append.mp h.nodup).1
  rw [hpending] at hnodup
  exact (List.nodup_append.mp hnodup).2.2 i hi i (by simp) rfl

theorem turn_given {j : ℕ} (hj : j ∈ w.owners) : (w.given i m).turn j = w.turn j :=
  List.idxOf_append_of_mem hj

theorem turns_given (h : Turns w) (hpending : w.pending = some i)
    (hget : w.requests[i]? = some m) : Turns (w.given i m) := by
  have hid := h.ids i m hget
  have hline : (w.given i m).line = w.line := by
    simp [line, given, hpending]
  refine ⟨fun j n hj => ?_, hline ▸ h.nodup, fun j hj => ?_, fun j n hj => ?_, ?_,
    fun x hx => List.mem_append_left _ (h.tags x hx), ?_, fun j n hj hfin => ?_⟩
  · rcases mem_set hj with ⟨rfl, rfl⟩ | ⟨-, hj'⟩
    · exact hid
    · exact h.ids j n hj'
  · rw [hline] at hj
    exact (h.known j hj).trans_eq List.length_set.symm
  · rcases mem_set hj with ⟨rfl, rfl⟩ | ⟨hne, hj'⟩
    · simp [given]
    · rw [h.attached j n hj']
      simp [given, hne]
  · simp [given, hid]
  · have hsame : (w.socket.written.map fun p => (w.given i m).turn p.1) =
        w.socket.written.map fun p => w.turn p.1 :=
      List.map_congr_left fun x hx => turn_given (h.tags x hx)
    exact hsame ▸ h.order
  · rcases mem_set hj with ⟨rfl, rfl⟩ | ⟨-, hj'⟩
    · exact h.ended j m hget hfin
    · exact h.ended j n hj' hfin

end Given

/-- `onSocket` attaches the request and flushes it on a live socket. -/
theorem onSocket_spec (m : OutgoingMessage) (s : Socket) :
    let o := m.onSocket s
    Effect { m with connection := true } { s with httpMessage := some m.id } o.self o.socket [] ∧
    o.self.finished = m.finished ∧ (s.writable = true → o.self.output = []) := by
  intro o
  have heq : o = m.onSocket s := rfl
  unfold OutgoingMessage.onSocket at heq
  dsimp only at heq
  by_cases hw : s.writable = true
  · rw [if_pos hw] at heq
    obtain ⟨heff, -, henc⟩ := OutgoingMessage.flush_effect { m with connection := true }
      { s with httpMessage := some m.id } rfl
    rw [heq]
    exact ⟨heff, congrArg Encoder.finished henc, fun _ => OutgoingMessage.flush_output _ _ hw rfl rfl⟩
  · rw [if_neg hw] at heq
    rw [heq]
    exact ⟨.refl _ _, rfl, fun hw' => absurd hw' hw⟩

/-! ### Complete requests -/

/-- What holds between events when no request loses the connection before it has finished: a
live connection was given away by complete requests, and so was every connection on which a
later request has written. -/
structure Kept (w : KeepAlive) : Prop where
  sealed : w.socket.writable = true → ∀ a ∈ w.owners,
    w.socket.httpMessage ≠ some a ∨ w.pending.isSome → w.Complete a
  complete : ∀ a ∈ w.owners, ∀ p ∈ w.socket.written, w.turn a < w.turn p.1 → w.Complete a

/-- What happens to a complete request. -/
theorem Complete.mono {a : ℕ} (h : w.Complete a) (hended : ∀ x ∈ w.ended, x ∈ w'.ended)
    (hsent : w.sent a <+: w'.sent a) : w'.Complete a := by
  obtain ⟨t, ht, hpre⟩ := h
  exact ⟨t, hended _ ht, hpre.trans hsent⟩

theorem sent_grows {m m' : OutgoingMessage} {s s' : Socket} {p : Str} (h : Effect m s m' s' p)
    (a : ℕ) : s.sentBy a <+: s'.sentBy a := by
  obtain ⟨q, hwritten, -⟩ := h.wire
  rw [Effect.sentBy_append s q m.id a s' hwritten]
  exact List.prefix_append _ _

theorem kept_effect {i : ℕ} {m m' : OutgoingMessage} {s' : Socket} {p : Str}
    (ended : List (ℕ × Str)) (h : Turns w) (hk : w.Kept) (hget : w.requests[i]? = some m)
    (heff : Effect m w.socket m' s' p) (hkeep : ∀ x ∈ w.ended, x ∈ ended) :
    (w.changed i m' s' ended).Kept := by
  have hmono : ∀ a, w.Complete a → (w.changed i m' s' ended).Complete a := fun a ha =>
    ha.mono hkeep (sent_grows heff a)
  have hid := h.ids i m hget
  obtain ⟨q, hwritten, hlive, -⟩ := heff.wire
  rw [hid] at hwritten hlive
  refine ⟨fun hw a ha hcase => hmono a ?_, fun a ha x hx hlt => hmono a ?_⟩
  · refine hk.sealed (heff.writable.symm.trans hw) a ha (hcase.imp_left fun hne heq => hne ?_)
    exact heff.httpMessage.trans heq
  · rw [show (w.changed i m' s' ended).socket = s' from rfl, hwritten] at hx
    rcases List.mem_append.mp hx with hx | hx
    · exact hk.complete a ha x hx hlt
    · -- the owner writes, so the socket is live and all the others have released it
      obtain ⟨c, hc, rfl⟩ := List.mem_map.mp hx
      obtain ⟨-, hw, hmsg⟩ := hlive (List.ne_nil_of_mem hc)
      refine hk.sealed hw a ha (Or.inl fun heq => ?_)
      rw [hmsg] at heq
      cases heq
      exact Nat.lt_irrefl _ hlt

theorem kept_given {i : ℕ} {m : OutgoingMessage} (h : Turns w) (hk : w.Kept)
    (hpending : w.pending = some i) (hget : w.requests[i]? = some m) : (w.given i m).Kept := by
  have hid := h.ids i m hget
  have hnew := h.pending_new hpending
  have hturn : (w.given i m).turn i = w.owners.length := by
    unfold turn given
    dsimp only
    rw [List.idxOf_append_of_notMem hnew]
    simp
  have hmono : ∀ a, w.Complete a → (w.given i m).Complete a := fun a ha =>
    ha.mono (fun _ hx => hx) List.prefix_rfl
  refine ⟨fun hw a ha hcase => ?_, fun a ha x hx hlt => ?_⟩
  · rcases List.mem_append.mp ha with ha | ha
    · exact hmono a (hk.sealed hw a ha (Or.inr (by rw [hpending]; rfl)))
    · rw [List.mem_singleton.mp ha] at hcase
      simp [given, hid] at hcase
  · have hx' := h.tags x hx
    rw [turn_given hx'] at hlt
    rcases List.mem_append.mp ha with ha | ha
    · rw [turn_given ha] at hlt
      exact hmono a (hk.complete a ha x hx hlt)
    · rw [List.mem_singleton.mp ha, hturn] at hlt
      exact absurd (List.idxOf_lt_length_of_mem hx') (by unfold turn at hlt; omega)

theorem Kept.closes (hk : w.Kept) {s : Socket} (hs : Closes w.socket s) :
    Kept { w with socket := s } := by
  have hmono : ∀ a, w.Complete a → Complete { w with socket := s } a := fun a ha =>
    ha.mono (fun _ hx => hx) (by unfold sent Socket.sentBy; rw [hs.written])
  refine ⟨fun hw a ha hcase => hmono a ?_, fun a ha x hx hlt => hmono a ?_⟩
  · exact hk.sealed (hs.writable hw) a ha (hcase.imp_left fun hne heq =>
      hne (hs.httpMessage.trans heq))
  · rw [show KeepAlive.socket { w with socket := s } = s from rfl, hs.written] at hx
    exact hk.complete a ha x hx hlt

theorem Clear.closes (hc : w.Clear) {s : Socket} (hs : Closes w.socket s) :
    Clear { w with socket := s } :=
  fun i m hmsg hget hw => hc i m (hs.httpMessage.symm.trans hmsg) hget (hs.writable hw)

/-- The response of a request that is given away has not ended before the request is finished. -/
def Released (w : KeepAlive) : KeepAliveEvent → Prop
  | .responseEnd => ∀ p ∈ w.owner, p.1 ∈ w.answered → p.1 ∉ w.responded →
      p.2.shouldKeepAlive = true → w.waiting ≠ [] → p.2.finished = true
  | _ => True

instance decidableReleased (w : KeepAlive) : ∀ e, Decidable (w.Released e)
  | .responseEnd => inferInstanceAs (Decidable (∀ p ∈ _, _))
  | .request _ _ | .elsewhere | .open | .tick | .call _ _ | .response _ | .shut | .destroy =>
    isTrue trivial

theorem owner_some {i : ℕ} {m : OutgoingMessage} (h : w.owner = some (i, m)) :
    w.socket.httpMessage = some i ∧ w.requests[i]? = some m := by
  unfold owner at h
  obtain ⟨j, hj, h⟩ := Option.bind_eq_some_iff.mp h
  obtain ⟨n, hn, heq⟩ := Option.map_eq_some_iff.mp h
  cases heq
  exact ⟨hj, hn⟩

/-- Requests move up in the line, or leave it. -/
theorem Turns.relined (h : Turns w) (pending : Option ℕ) (waiting answered responded : List ℕ)
    (hsub : (pending.toList ++ waiting).Sublist
      (w.pending.toList ++ w.waiting)) :
    Turns { w with
      pending := pending, waiting := waiting, answered := answered, responded := responded } := by
  have hline : (w.owners ++ pending.toList ++ waiting).Sublist w.line := by
    unfold line
    rw [List.append_assoc, List.append_assoc]
    exact hsub.append_left w.owners
  exact ⟨h.ids, hline.nodup h.nodup, fun i hi => h.known i (hline.subset hi), h.attached, h.owner,
    h.tags, h.order, h.ended⟩

theorem turns_request (h : Turns w) {m : OutgoingMessage}
    (hm : OutgoingMessage.Unattached w.requests.length m) :
    Turns { w with
      requests := w.requests ++ [m], waiting := w.waiting ++ [w.requests.length] } := by
  have hnew : w.requests.length ∉ w.line := fun hin => Nat.lt_irrefl _ (h.known _ hin)
  have hline : KeepAlive.line { w with
      requests := w.requests ++ [m], waiting := w.waiting ++ [w.requests.length] } =
      w.line ++ [w.requests.length] := by
    simp [line]
  have hget : ∀ (i : ℕ) (n : OutgoingMessage), (w.requests ++ [m])[i]? = some n →
      w.requests[i]? = some n ∨ i = w.requests.length ∧ n = m := by
    intro i n hi
    rw [List.getElem?_append] at hi
    split_ifs at hi with hlt
    · exact Or.inl hi
    · rw [List.getElem?_singleton] at hi
      split_ifs at hi with hzero
      cases hi
      exact Or.inr ⟨by omega, rfl⟩
  refine ⟨fun i n hi => ?_, ?_, fun i hi => ?_, fun i n hi => ?_, h.owner, h.tags, h.order,
    fun i n hi hfin => ?_⟩
  · rcases hget i n hi with hi | ⟨rfl, rfl⟩
    · exact h.ids i n hi
    · exact hm.id
  · rw [hline]
    exact h.nodup.append (List.nodup_singleton _) (List.disjoint_singleton.mpr hnew)
  · rw [hline] at hi
    rw [List.length_append, List.length_singleton]
    rcases List.mem_append.mp hi with hi | hi
    · exact Nat.lt_add_right 1 (h.known i hi)
    · rw [List.mem_singleton.mp hi]
      exact Nat.lt_add_one _
  · rcases hget i n hi with hi | ⟨rfl, rfl⟩
    · exact h.attached i n hi
    · rw [hm.connection]
      refine ⟨fun hf => (by cases hf), fun hown => absurd ?_ hnew⟩
      exact List.mem_append_left _ (List.mem_append_left _ hown)
  · rcases hget i n hi with hi | ⟨rfl, rfl⟩
    · exact h.ended i n hi hfin
    · rw [hm.finished] at hfin
      cases hfin

theorem clear_request (h : Turns w) (hc : w.Clear) (m : OutgoingMessage) (waiting : List ℕ) :
    Clear { w with requests := w.requests ++ [m], waiting := waiting } := by
  intro i n hmsg hi hw
  have hown := (h.owner_last hmsg).1
  have hlt := h.known i (List.mem_append_left _ (List.mem_append_left _ hown))
  have hi' : (w.requests ++ [m])[i]? = some n := hi
  rw [List.getElem?_append_left hlt] at hi'
  exact hc i n hmsg hi' hw

/-- The 'free' listener moves the request that waits longest up, or destroys the socket. -/
theorem free_cases (w : KeepAlive) :
    w.free = w ∨ w.free = { w with socket := w.socket.destroy } ∨
    ∃ i rest, w.waiting = i :: rest ∧ w.free = { w with waiting := rest, pending := some i } := by
  unfold free
  cases hw : w.waiting with
  | nil => exact Or.inr (Or.inl rfl)
  | cons i rest =>
    dsimp only
    split_ifs
    · exact Or.inl rfl
    · exact Or.inr (Or.inr ⟨i, rest, rfl, rfl⟩)

theorem responseOnEnd_cases (w : KeepAlive) (i : ℕ) (m : OutgoingMessage) :
    m.shouldKeepAlive = true ∧
      w.responseOnEnd i m = free { w with responded := w.responded ++ [i] } ∨
    m.shouldKeepAlive = false ∧
      (w.responseOnEnd i m =
        { w with responded := w.responded ++ [i], socket := w.socket.shut } ∨
      w.responseOnEnd i m = { w with responded := w.responded ++ [i] }) := by
  unfold responseOnEnd
  dsimp only
  cases m.shouldKeepAlive with
  | true => exact Or.inl ⟨rfl, rfl⟩
  | false =>
    refine Or.inr ⟨rfl, ?_⟩
    by_cases hw : w.socket.writable = true
    · exact Or.inl (by simp [hw])
    · exact Or.inr (by simp [hw])

theorem Turns.hand (h : Turns w) {i : ℕ} {rest : List ℕ} (hwait : w.waiting = i :: rest) :
    Turns { w with waiting := rest, pending := some i } := by
  refine h.relined (some i) rest w.answered w.responded ?_
  rw [hwait]
  exact List.sublist_append_right _ _

theorem turns_free (h : Turns w) (hc : w.Clear) : Turns w.free ∧ w.free.Clear := by
  rcases w.free_cases with heq | heq | ⟨i, rest, hwait, heq⟩ <;> rw [heq]
  · exact ⟨h, hc⟩
  · exact ⟨h.closes (closes_destroy _), hc.closes (closes_destroy _)⟩
  · exact ⟨h.hand hwait, hc⟩

theorem step_tick (w : KeepAlive) :
    w.step .tick = w ∨ ∃ i m, w.pending = some i ∧ w.requests[i]? = some m ∧
      (w.given i m).requests[i]? = some { m with connection := true } ∧
      w.step .tick = (w.given i m).changed i (m.onSocket w.socket).self
        (m.onSocket w.socket).socket w.ended := by
  simp only [step]
  cases hpending : w.pending with
  | none => exact Or.inl rfl
  | some i =>
    cases hget : w.requests[i]? with
    | none => exact Or.inl (by simp [hget])
    | some m =>
      refine Or.inr ⟨i, m, rfl, hget, ?_, ?_⟩
      · have hlt : i < w.requests.length := (List.getElem?_eq_some_iff.mp hget).1
        simp [given, hlt]
      · simp [hget, changed, given]

/-- The invariants of the connection hold whatever the handlers do. -/
theorem turns_step (h : Turns w) (hc : w.Clear) (e : KeepAliveEvent) :
    Turns (w.step e) ∧ (w.step e).Clear := by
  cases e with
  | request runtime options =>
    simp only [step]
    have hm := OutgoingMessage.clientRequest_unattached w.requests.length runtime w.socket options
    split
    · exact ⟨h, hc⟩
    · exact ⟨turns_request h hm, clear_request h hc _ _⟩
  | elsewhere =>
    refine ⟨h.relined w.pending w.waiting.tail w.answered w.responded ?_, hc⟩
    exact (List.tail_sublist w.waiting).append_left _
  | «open» =>
    simp only [step]
    split
    next i rest hwait =>
      split_ifs
      · exact ⟨h.hand hwait, hc⟩
      · exact ⟨h, hc⟩
    · exact ⟨h, hc⟩
  | tick =>
    rcases w.step_tick with heq | ⟨i, m, hpending, hget, hgiven, heq⟩ <;> rw [heq]
    · exact ⟨h, hc⟩
    · obtain ⟨heff, hfin, hout⟩ := onSocket_spec m w.socket
      refine ⟨turns_effect w.ended (turns_given h hpending hget) hgiven heff (fun _ hx => hx)
        fun hf => Or.inl (hfin.symm.trans hf), fun j n hmsg hj hw => ?_⟩
      have hmsg' : some m.id = some j := heff.httpMessage.symm.trans hmsg
      rw [h.ids i m hget] at hmsg'
      cases hmsg'
      rcases mem_set hj with ⟨-, rfl⟩ | ⟨hne, -⟩
      · exact hout (heff.writable.symm.trans hw)
      · exact absurd rfl hne
  | call i c =>
    simp only [step]
    cases hget : w.requests[i]? with
    | none => exact ⟨h, hc⟩
    | some m =>
      have heff := apply_effect c m w.socket
      refine ⟨turns_effect _ h hget heff (fun x hx => ?_) fun hfin => ?_,
        clear_effect _ h hc hget heff⟩
      · split_ifs
        · exact List.mem_append_left _ hx
        · exact hx
      · cases hwas : m.finished with
        | true => exact Or.inl rfl
        | false => exact Or.inr (by rw [if_pos ⟨rfl, hfin⟩]; simp)
  | response keepAlive =>
    simp only [step]
    cases howner : w.owner with
    | none => exact ⟨h, hc⟩
    | some p =>
      obtain ⟨i, m⟩ := p
      obtain ⟨-, hget⟩ := owner_some howner
      dsimp only
      unfold onIncoming
      split_ifs
      · exact ⟨h.closes (closes_destroy _), hc.closes (closes_destroy _)⟩
      · exact ⟨h, hc⟩
      · have heff : Effect m w.socket
            { m with shouldKeepAlive := m.shouldKeepAlive && keepAlive } w.socket [] :=
          .still _ rfl rfl rfl rfl
        have hturns := turns_effect w.ended h hget heff (fun _ hx => hx) Or.inl
        exact ⟨hturns.relined w.pending w.waiting (w.answered ++ [i]) w.responded (.refl _),
          clear_effect w.ended h hc hget heff⟩
  | responseEnd =>
    simp only [step]
    cases howner : w.owner with
    | none => exact ⟨h, hc⟩
    | some p =>
      obtain ⟨i, m⟩ := p
      have h' := h.relined w.pending w.waiting w.answered (w.responded ++ [i]) (.refl _)
      dsimp only
      split_ifs
      · rcases w.responseOnEnd_cases i m with ⟨-, heq⟩ | ⟨-, heq | heq⟩ <;> rw [heq]
        · exact turns_free h' hc
        · exact ⟨h'.closes (closes_shut _), hc.closes (closes_shut _)⟩
        · exact ⟨h', hc⟩
      · exact ⟨h, hc⟩
  | shut => exact ⟨h.closes (closes_shut _), hc.closes (closes_shut _)⟩
  | destroy => exact ⟨h.closes (closes_destroy _), hc.closes (closes_destroy _)⟩

/-- A connection is given away by a complete request. -/
theorem kept_free (h : Turns w) (hc : w.Clear) (hk : w.Kept)
    (howner : ∀ i m, w.socket.httpMessage = some i → w.requests[i]? = some m →
      w.waiting ≠ [] → m.finished = true) : w.free.Kept := by
  rcases w.free_cases with heq | heq | ⟨j, rest, hwait, heq⟩ <;> rw [heq]
  · exact hk
  · exact hk.closes (closes_destroy _)
  · refine ⟨fun hw a ha _ => ?_, hk.complete⟩
    by_cases hmsg : w.socket.httpMessage = some a
    · have hlt := h.known a (List.mem_append_left _ (List.mem_append_left _ ha))
      obtain ⟨m, hget⟩ : ∃ m, w.requests[a]? = some m := ⟨_, List.getElem?_eq_getElem hlt⟩
      obtain ⟨t, ht, hpre⟩ := h.ended a m hget (howner a m hmsg hget (by simp [hwait]))
      have hout := hc a m hmsg hget hw
      unfold OutgoingMessage.stream at hpre
      rw [hout, List.flatten_nil, List.append_nil, h.ids a m hget] at hpre
      exact ⟨t, ht, hpre⟩
    · exact hk.sealed hw a ha (Or.inl hmsg)

theorem kept_step (h : Turns w) (hc : w.Clear) (hk : w.Kept) {e : KeepAliveEvent}
    (hg : w.Released e) : (w.step e).Kept := by
  cases e with
  | request runtime options =>
    simp only [step]
    split
    · exact hk
    · exact ⟨hk.sealed, hk.complete⟩
  | elsewhere => exact ⟨hk.sealed, hk.complete⟩
  | «open» =>
    simp only [step]
    split
    next i rest hwait =>
      split_ifs with hfirst
      · refine ⟨fun _ a ha => ?_, hk.complete⟩
        rw [hfirst.1] at ha
        cases ha
      · exact hk
    · exact hk
  | tick =>
    rcases w.step_tick with heq | ⟨i, m, hpending, hget, hgiven, heq⟩ <;> rw [heq]
    · exact hk
    · exact kept_effect w.ended (turns_given h hpending hget)
        (kept_given h hk hpending hget) hgiven (onSocket_spec m w.socket).1 fun _ hx => hx
  | call i c =>
    simp only [step]
    cases hget : w.requests[i]? with
    | none => exact hk
    | some m =>
      refine kept_effect _ h hk hget (apply_effect c m w.socket) fun x hx => ?_
      split_ifs
      · exact List.mem_append_left _ hx
      · exact hx
  | response keepAlive =>
    simp only [step]
    cases howner : w.owner with
    | none => exact hk
    | some p =>
      dsimp only
      unfold onIncoming
      split_ifs
      · exact hk.closes (closes_destroy _)
      · exact hk
      · exact ⟨hk.sealed, hk.complete⟩
  | responseEnd =>
    simp only [step]
    cases howner : w.owner with
    | none => exact hk
    | some p =>
      obtain ⟨i, m⟩ := p
      have h' := h.relined w.pending w.waiting w.answered (w.responded ++ [i]) (.refl _)
      have hk' : Kept { w with responded := w.responded ++ [i] } := ⟨hk.sealed, hk.complete⟩
      dsimp only
      split_ifs with hends
      · rcases w.responseOnEnd_cases i m with ⟨halive, heq⟩ | ⟨-, heq | heq⟩ <;> rw [heq]
        · refine kept_free h' hc hk' fun j n hmsg hget hwait => ?_
          obtain ⟨hmsg', hget'⟩ := owner_some howner
          obtain rfl : i = j := by
            rw [hmsg'] at hmsg
            exact Option.some.inj hmsg
          obtain rfl : m = n := by
            rw [hget'] at hget
            exact Option.some.inj hget
          exact hg (i, m) howner hends.1 hends.2 halive hwait
        · exact hk'.closes (closes_shut _)
        · exact hk'
      · exact hk
  | shut => exact hk.closes (closes_shut _)
  | destroy => exact hk.closes (closes_destroy _)

theorem init_turns (results : List Bool) : Turns (init results) ∧ (init results).Clear := by
  refine ⟨⟨?_, ?_, ?_, ?_, rfl, ?_, ?_, ?_⟩, ?_⟩ <;> simp [init, line, Clear, Socket.fresh]

/-- The requests of a connection take turns. No request writes after one that got the connection
later; and when no request loses the connection before it is finished, a request that has written
comes after complete ones: all that they had produced when `finish` returned is on the wire. -/
theorem requests_take_turns (results : List Bool) (es : List KeepAliveEvent) :
    let w := run step (init results) es
    (w.socket.written.map fun p => w.turn p.1).Pairwise (· ≤ ·) ∧
    (Guarded step Released (init results) es →
      ∀ a ∈ w.owners, ∀ p ∈ w.socket.written, w.turn a < w.turn p.1 → w.Complete a) := by
  intro w
  constructor
  · have h : Turns w ∧ w.Clear := run_invariant (I := fun w => Turns w ∧ w.Clear)
      (fun _ e h => turns_step h.1 h.2 e) (init_turns results) es
    exact h.1.order
  · intro hg
    have hinit : (init results).Kept := by
      constructor <;> simp [init]
    have h : (Turns w ∧ w.Clear) ∧ w.Kept :=
      guarded_invariant (I := fun w => (Turns w ∧ w.Clear) ∧ w.Kept)
        (fun _ e h hg => ⟨turns_step h.1.1 h.1.2 e, kept_step h.1.1 h.1.2 h.2 hg⟩)
        ⟨init_turns results, hinit⟩ hg
    exact h.2.complete

/-- A POST and a GET on one connection; the response to the POST ends after the POST. -/
theorem requests_take_turns_two :
    let es : List KeepAliveEvent :=
      [.request (.inOrder []) { method := "POST".toList }, .request (.inOrder []) {}, .open, .tick,
        .call 0 (.finish (some (.text "a".toList)) none), .call 1 (.finish none none),
        .response true, .responseEnd, .tick]
    let w := run step (init []) es
    (w.socket.written.map fun p => w.turn p.1).Pairwise (· ≤ ·) ∧
    ∀ a ∈ w.owners, ∀ p ∈ w.socket.written, w.turn a < w.turn p.1 → w.Complete a :=
  ⟨(requests_take_turns [] _).1, (requests_take_turns [] _).2 (by decide)⟩

/-- When the response to the POST ends first, the GET goes out before the POST is finished. -/
theorem early_response_interleaves :
    ¬ ∀ (results : List Bool) (es : List KeepAliveEvent),
      let w := run step (init results) es
      ∀ a ∈ w.owners, ∀ p ∈ w.socket.written, w.turn a < w.turn p.1 → w.Complete a := by
  intro h
  obtain ⟨es, hes⟩ : ∃ es : List KeepAliveEvent, es =
      [.request (.inOrder []) { method := "POST".toList }, .request (.inOrder []) {}, .open, .tick,
        .call 0 (.write (.text "a".toList) none), .call 1 (.finish none none), .response true,
        .responseEnd, .tick] := ⟨_, rfl⟩
  have hended : (run step (init []) es).ended.all fun x => x.1 ≠ 0 := by
    rw [hes]
    decide
  obtain ⟨t, ht, -⟩ := h [] es 0 (by rw [hes]; decide)
    (1, ((run step (init []) es).socket.written.getLastD (0, [])).2) (by rw [hes]; decide)
    (by rw [hes]; decide)
  have := List.all_eq_true.mp hended (0, t) ht
  simp at this

end KeepAlive

end LuaNode
