import LuaNode.Http.Calls
import LuaNode.Library.Runs

/-!
# The agent

`Agent` of `lib/luanode/http.lua`: for each name, a pool of at most `maxSockets` connections and
a queue of the requests that wait for one. The world around it holds every connection that was
ever made, with its listeners, and three logs that no function reads: the requests added, the
requests handed to a connection, and the calls of `removeSocket`.
-/

namespace LuaNode

/-- A request as the agent sees it. -/
structure Request where
  id : ℕ
  /-- `req:getHeader("host")` -/
  hostHeader : Option HeaderValue
  deriving DecidableEq

/-- `sockets[name]`: the sockets filed in the table, and its field `length`. -/
structure Pool where
  length : ℤ
  members : List ℕ
  deriving DecidableEq

structure Agent where
  maxSockets : ℕ
  requests : Str → Option (List Request)
  sockets : Str → Option Pool

/-- A connection made by `createSocket`, with what its listeners have captured. -/
structure Connection where
  name : Str
  host : Str
  port : ℕ
  localAddress : Option Str
  servername : Str
  socket : Socket
  /-- the tick that will emit 'close' is posted -/
  closing : Bool
  /-- 'close' has been emitted -/
  closed : Bool
  onFree : Bool
  onClose : Bool
  onRemove : Bool

/-- The agent, its connections by number, and the logs. -/
structure World where
  agent : Agent
  connections : List Connection
  added : List (Str × Request)
  handed : List (Str × Request × ℕ)
  removals : List (Str × ℕ)

/-- What a listener leaves behind: an error does not undo what was done before it. -/
structure Reply where
  world : World
  error : Option LuaError

/-- `host .. ":" .. port`, and the local address if there is one. -/
def poolName (host : Str) (port : ℕ) (localAddress : Option Str) : Str :=
  match localAddress with
  | none => host ++ ":".toList ++ decimal port
  | some localAddress => host ++ ":".toList ++ decimal port ++ ":".toList ++ localAddress

/-- `options.servername`: the host, or the Host header up to its colon. Only a string has a
method `gsub`. -/
def servername (host : Str) (req : Option Request) : Except LuaError Str :=
  match req.bind Request.hostHeader with
  | none => .ok host
  | some (.one (.str hostHeader)) => .ok (hostHeader.takeWhile (· ≠ ':'))
  | some (.one (.num _)) => .error "attempt to index local 'hostHeader' (a number value)"
  | some (.many _) => .error "attempt to call method 'gsub' (a nil value)"

/-- An agent that has not been used. -/
def Agent.init (maxSockets : ℕ) : Agent := ⟨maxSockets, fun _ => none, fun _ => none⟩

namespace World

def init (maxSockets : ℕ) : World := ⟨.init maxSockets, [], [], [], []⟩

/-- `requests[name]` and `sockets[name]`. -/
def setRequests (w : World) (name : Str) (q : Option (List Request)) : World :=
  { w with agent := { w.agent with requests := Function.update w.agent.requests name q } }

def setSockets (w : World) (name : Str) (p : Option Pool) : World :=
  { w with agent := { w.agent with sockets := Function.update w.agent.sockets name p } }

/-- Changes one connection. -/
def modify (w : World) (s : ℕ) (f : Connection → Connection) : World :=
  { w with connections := w.connections.modify s f }

/-- `req:onSocket(socket)`. -/
def onSocket (w : World) (name : Str) (req : Request) (s : ℕ) : World :=
  { w with handed := w.handed ++ [(name, req, s)] }

/-- `socket:destroy()`: the first call posts the tick that emits 'close'. -/
def destroySocket (w : World) (s : ℕ) : World :=
  w.modify s fun c =>
    if c.socket.destroyed then c else { c with socket := c.socket.destroy, closing := true }

/-- A new connection is filed under its name. -/
def fileSocket (w : World) (c : Connection) : World :=
  let p := (w.agent.sockets c.name).getD ⟨0, []⟩
  { w with connections := w.connections ++ [c] }.setSockets c.name
    (some ⟨p.length + 1, p.members ++ [w.connections.length]⟩)

/-- `Agent:createSocket`. Before the connection is made nothing is changed. -/
def createSocket (w : World) (name host : Str) (port : ℕ) (localAddress : Option Str)
    (req : Option Request) : Except LuaError (World × ℕ) :=
  match servername host req with
  | .error e => .error e
  | .ok servername =>
    .ok (w.fileSocket ⟨name, host, port, localAddress, servername, .fresh [], false, false, true,
      true, true⟩, w.connections.length)

/-- The 'free' listener of the agent. -/
def agentFree (w : World) (s : ℕ) (c : Connection) : World :=
  let name := poolName c.host c.port c.localAddress
  match w.agent.requests name with
  | some (req :: rest) =>
    if c.socket.destroyed then w.destroySocket s
    else
      -- an empty queue is removed, "don't leak"
      (w.onSocket name req s).setRequests name (if rest = [] then none else some rest)
  | _ => w.destroySocket s

/-- `socket:emit("free")`. -/
def emitFree (w : World) (s : ℕ) : World :=
  match w.connections[s]? with
  | none => w
  | some c => if c.onFree then w.agentFree s c else w

/-- The first half of `removeSocket`: the socket leaves the table, and an empty table leaves
the agent. The assertion stands after the assignment of `length`. -/
def unlist (w : World) (s : ℕ) (name : Str) : Reply :=
  match w.agent.sockets name with
  | none => ⟨w, none⟩
  | some p =>
    let p := if s ∈ p.members then Pool.mk (p.length - 1) (p.members.erase s) else p
    if p.length = 0 then
      if p.members = [] then ⟨w.setSockets name none, none⟩
      else ⟨w.setSockets name (some p), some "assertion failed!"⟩
    else ⟨w.setSockets name (some p), none⟩

/-- `Agent:removeSocket`. Its second test holds of every queue: in Lua 0 is true. -/
def removeSocket (w : World) (s : ℕ) (name host : Str) (port : ℕ) (localAddress : Option Str) :
    Reply :=
  let r := { w with removals := w.removals ++ [(name, s)] }.unlist s name
  match r.error with
  | some e => ⟨r.world, some e⟩
  | none =>
    match r.world.agent.requests name with
    | none => r
    | some q =>
      match r.world.createSocket name host port localAddress q.head? with
      | .error e => ⟨r.world, some e⟩
      | .ok (w, s) => ⟨w.emitFree s, none⟩

/-- `socket:emit("close")`. The listener of the agent is the first one; the one that clears the
hang-up timer comes behind it. -/
def emitClose (w : World) (s : ℕ) (c : Connection) : Reply :=
  let r := if c.onClose then w.removeSocket s c.name c.host c.port c.localAddress else ⟨w, none⟩
  match r.error with
  | some e => ⟨r.world.modify s fun c => { c with closed := true }, some e⟩
  | none =>
    ⟨r.world.modify s fun c =>
      { c with closed := true, socket := { c.socket with hangupTimer := false } }, none⟩

/-- `socket:emit("agentRemove")`. -/
def emitRemove (w : World) (s : ℕ) (c : Connection) : Reply :=
  if c.onRemove then
    let r := w.removeSocket s c.name c.host c.port c.localAddress
    match r.error with
    | some e => ⟨r.world, some e⟩
    | none =>
      ⟨r.world.modify s fun c => { c with onFree := false, onClose := false, onRemove := false },
        none⟩
  else ⟨w, none⟩

/-- `Agent:addRequest`. -/
def addRequest (w : World) (req : Request) (host : Str) (port : ℕ)
    (localAddress : Option Str) : Reply :=
  let name := poolName host port localAddress
  let p := (w.agent.sockets name).getD ⟨0, []⟩
  let w := w.setSockets name (some p)
  if p.length < w.agent.maxSockets then
    match w.createSocket name host port localAddress (some req) with
    | .error e => ⟨w, some e⟩
    | .ok (w, s) => ⟨{ w.onSocket name req s with added := w.added ++ [(name, req)] }, none⟩
  else
    let q := (w.agent.requests name).getD []
    ⟨{ w.setRequests name (some (q ++ [req])) with added := w.added ++ [(name, req)] }, none⟩

end World

/-- What happens to an agent and its connections. Events that name no connection, or one that
is not in the state they need, do nothing. -/
inductive AgentEvent
  | addRequest (req : Request) (host : Str) (port : ℕ) (localAddress : Option Str)
  /-- a direct call of `createSocket` -/
  | createSocket (name host : Str) (port : ℕ) (localAddress : Option Str) (req : Option Request)
  /-- 'free' is emitted on the connection -/
  | free (s : ℕ)
  /-- other code destroys the connection -/
  | destroy (s : ℕ)
  /-- the tick posted by `destroy` emits 'close' -/
  | tick (s : ℕ)
  /-- a message writes to the connection -/
  | write (s : ℕ) (m : OutgoingMessage) (data : Str) (encoding : Option Str)
  /-- the hang-up timer of `_writeRaw` fires and emits 'close' -/
  | timer (s : ℕ)
  /-- 'agentRemove' is emitted on the connection -/
  | agentRemove (s : ℕ)
  /-- a direct call of `removeSocket` -/
  | removeSocket (s : ℕ) (name host : Str) (port : ℕ) (localAddress : Option Str)

namespace World

/-- An error that leaves a listener is dropped by the event loop. -/
def step (w : World) : AgentEvent → World
  | .addRequest req host port localAddress => (w.addRequest req host port localAddress).world
  | .createSocket name host port localAddress req =>
    match w.createSocket name host port localAddress req with
    | .error _ => w
    | .ok (w, _) => w
  | .free s => w.emitFree s
  | .destroy s => w.destroySocket s
  | .tick s =>
    match w.connections[s]? with
    | none => w
    | some c =>
      if c.closing then (w.emitClose s c).world.modify s fun c => { c with closing := false }
      else w
  | .write s m data encoding =>
    w.modify s fun c => { c with socket := (m.writeRaw c.socket data encoding).socket }
  | .timer s =>
    match w.connections[s]? with
    | none => w
    | some c =>
      if c.socket.hangupTimer then
        (w.emitClose s c).world.modify s fun c =>
          { c with socket := { c.socket with hangupTimer := false } }
      else w
  | .agentRemove s =>
    match w.connections[s]? with
    | none => w
    | some c => (w.emitRemove s c).world
  | .removeSocket s name host port localAddress =>
    if s < w.connections.length then (w.removeSocket s name host port localAddress).world else w

/-! ### What the operations do to the pools -/

section Pools

variable {w w' : World}

def members (w : World) (name : Str) : List ℕ := ((w.agent.sockets name).getD ⟨0, []⟩).members

/-- The field `length` of `sockets[name]`. -/
def size (w : World) (name : Str) : ℤ := ((w.agent.sockets name).getD ⟨0, []⟩).length

def queue (w : World) (name : Str) : List Request := (w.agent.requests name).getD []

theorem sockets_update (w : World) (name n : Str) (p : Option Pool) :
    (w.setSockets name p).agent.sockets n = if n = name then p else w.agent.sockets n := by
  simp [setSockets, Function.update_apply]

theorem members_setSockets (w : World) (name n : Str) (p : Option Pool) :
    (w.setSockets name p).members n =
      if n = name then (p.getD ⟨0, []⟩).members else w.members n := by
  unfold members
  rw [sockets_update]
  split_ifs <;> rfl

theorem size_setSockets (w : World) (name n : Str) (p : Option Pool) :
    (w.setSockets name p).size n =
      if n = name then (p.getD ⟨0, []⟩).length else w.size n := by
  unfold size
  rw [sockets_update]
  split_ifs <;> rfl

end Pools

end World

/-- The part of a connection that the pools depend on. -/
structure Card where
  name : Str
  closed : Bool
  onFree : Bool
  onClose : Bool
  onRemove : Bool

def Connection.card (c : Connection) : Card := ⟨c.name, c.closed, c.onFree, c.onClose, c.onRemove⟩

/-- 'close' has not been emitted, and the listeners of the agent are in place. -/
def Card.Active (k : Card) : Prop :=
  k.closed = false ∧ k.onFree = true ∧ k.onClose = true ∧ k.onRemove = true

namespace World

section Pools

variable {w w' : World}

def cards (w : World) : List Card := w.connections.map Connection.card

/-- The accounts of an agent: a pool lists the connections made for its name and not removed. -/
structure Accounts (w : World) : Prop where
  nodup : ∀ name, (w.members name).Nodup
  length : ∀ name, w.size name = (w.members name).length
  exact : ∀ name s, s ∈ w.members name ↔
    (∃ k, w.cards[s]? = some k ∧ k.name = name) ∧ (name, s) ∉ w.removals
  active : ∀ name s k, s ∈ w.members name → w.cards[s]? = some k → k.Active
  known : ∀ p ∈ w.removals, p.2 < w.cards.length

/-- A step that leaves the pools alone. -/
structure Keeps (w w' : World) : Prop where
  maxSockets : w'.agent.maxSockets = w.agent.maxSockets
  members : ∀ name, w'.members name = w.members name
  size : ∀ name, w'.size name = w.size name
  removals : w'.removals = w.removals
  cards : w'.cards = w.cards

theorem Keeps.refl (w : World) : Keeps w w := ⟨rfl, fun _ => rfl, fun _ => rfl, rfl, rfl⟩

theorem Keeps.trans {a b c : World} (hab : Keeps a b) (hbc : Keeps b c) : Keeps a c :=
  ⟨hbc.maxSockets.trans hab.maxSockets, fun n => (hbc.members n).trans (hab.members n),
    fun n => (hbc.size n).trans (hab.size n), hbc.removals.trans hab.removals,
    hbc.cards.trans hab.cards⟩

theorem Accounts.keeps (h : Accounts w) (hk : Keeps w w') : Accounts w' := by
  refine ⟨fun n => ?_, fun n => ?_, fun n s => ?_, fun n s k => ?_, ?_⟩
  · rw [hk.members]; exact h.nodup n
  · rw [hk.members, hk.size]; exact h.length n
  · rw [hk.members, hk.removals, hk.cards]; exact h.exact n s
  · rw [hk.members, hk.cards]; exact h.active n s k
  · rw [hk.removals, hk.cards]; exact h.known

theorem cards_modify (w : World) (s t : ℕ) (f : Connection → Connection) :
    (w.modify s f).cards[t]? =
      if s = t then w.connections[t]?.map fun c => (f c).card else w.cards[t]? := by
  simp only [cards, modify, List.getElem?_map, List.getElem?_modify]
  split_ifs <;> simp [Function.comp_def]

theorem keeps_modify (w : World) (s : ℕ) {f : Connection → Connection}
    (hf : ∀ c, (f c).card = c.card) : Keeps w (w.modify s f) := by
  refine ⟨rfl, fun _ => rfl, fun _ => rfl, rfl, List.ext_getElem? fun t => ?_⟩
  rw [cards_modify]
  split_ifs
  · simp [hf, cards]
  · rfl

/-- A connection that no pool lists may be changed, but for its name. -/
theorem Accounts.modify (h : Accounts w) {s : ℕ} {f : Connection → Connection}
    (hname : ∀ c, (f c).name = c.name) (hs : ∀ name, s ∉ w.members name) :
    Accounts (w.modify s f) := by
  have hmade : ∀ (name : Str) (t : ℕ),
      (∃ k : Card, (w.modify s f).cards[t]? = some k ∧ k.name = name) ↔
      ∃ k : Card, w.cards[t]? = some k ∧ k.name = name := by
    intro name t
    rw [cards_modify]
    split_ifs
    · cases hc : w.connections[t]? <;> simp [cards, hc, Connection.card, hname]
    · rfl
  refine ⟨h.nodup, h.length, fun name t => ?_, fun name t k hmem hk => ?_, ?_⟩
  · rw [hmade]
    exact h.exact name t
  · have hne : s ≠ t := by
      rintro rfl
      exact hs name hmem
    rw [cards_modify, if_neg hne] at hk
    exact h.active name t k hmem hk
  · intro p hp
    have := h.known p hp
    simpa [cards, World.modify] using this

theorem cards_fileSocket (w : World) (c : Connection) :
    (w.fileSocket c).cards = w.cards ++ [c.card] := by
  simp [fileSocket, cards, setSockets]

theorem members_fileSocket (w : World) (c : Connection) (n : Str) :
    (w.fileSocket c).members n =
      if n = c.name then w.members n ++ [w.cards.length] else w.members n := by
  unfold fileSocket
  rw [members_setSockets]
  split_ifs with h
  · simp [members, cards, h]
  · rfl

theorem size_fileSocket (w : World) (c : Connection) (n : Str) :
    (w.fileSocket c).size n = w.size n + if n = c.name then 1 else 0 := by
  unfold fileSocket
  rw [size_setSockets]
  split_ifs with h
  · simp [size, h]
  · simp only [add_zero]
    rfl

theorem Accounts.fresh (h : Accounts w) (name : Str) : w.cards.length ∉ w.members name := by
  intro hmem
  obtain ⟨⟨k, hk, -⟩, -⟩ := (h.exact name _).mp hmem
  simp at hk

theorem Accounts.fileSocket (h : Accounts w) {c : Connection} (hc : c.card.Active) :
    Accounts (w.fileSocket c) := by
  have hremovals : (w.fileSocket c).removals = w.removals := rfl
  have hget : ∀ t k, (w.fileSocket c).cards[t]? = some k ↔
      w.cards[t]? = some k ∨ t = w.cards.length ∧ c.card = k := by
    intro t k
    rw [cards_fileSocket, List.getElem?_append]
    split_ifs with hlt
    · simp [Nat.ne_of_lt hlt]
    · rw [List.getElem?_eq_none (Nat.le_of_not_lt hlt)]
      rcases Nat.eq_or_lt_of_le (Nat.le_of_not_lt hlt) with heq | hgt
      · simp [← heq]
      · have h1 : t - w.cards.length ≠ 0 := Nat.sub_ne_zero_of_lt hgt
        simp [h1, Nat.ne_of_gt hgt]
  have hnew : ∀ name, (name, w.cards.length) ∉ w.removals := fun name hmem =>
    absurd (h.known _ hmem) (Nat.lt_irrefl _)
  refine ⟨fun n => ?_, fun n => ?_, fun n t => ?_, fun n t k hmem hk => ?_, ?_⟩
  · rw [members_fileSocket]
    split_ifs
    · exact (h.nodup n).append (List.nodup_singleton _)
        (List.disjoint_singleton.mpr (h.fresh n))
    · exact h.nodup n
  · rw [members_fileSocket, size_fileSocket, h.length]
    split_ifs <;> simp
  · rw [hremovals, members_fileSocket]
    have hexact := h.exact n t
    constructor
    · intro hmem
      by_cases ht : t = w.cards.length
      · have hn : n = c.name := by
          by_contra hn
          rw [if_neg hn, ht] at hmem
          exact h.fresh n hmem
        rw [ht]
        exact ⟨⟨c.card, (hget _ _).mpr (Or.inr ⟨rfl, rfl⟩), hn.symm⟩, hnew n⟩
      · have hmem' : t ∈ w.members n := by
          split_ifs at hmem
          · simpa [ht] using hmem
          · exact hmem
        obtain ⟨⟨k, hk, hkn⟩, hrem⟩ := hexact.mp hmem'
        exact ⟨⟨k, (hget _ _).mpr (Or.inl hk), hkn⟩, hrem⟩
    · rintro ⟨⟨k, hk, hkn⟩, hrem⟩
      rcases (hget _ _).mp hk with hk | ⟨rfl, rfl⟩
      · have hmem' := hexact.mpr ⟨⟨k, hk, hkn⟩, hrem⟩
        split_ifs
        · exact List.mem_append_left _ hmem'
        · exact hmem'
      · have hn : n = c.name := hkn.symm
        rw [if_pos hn]
        simp
  · rcases (hget _ _).mp hk with hk | ⟨rfl, rfl⟩
    · refine h.active n t k ?_ hk
      rw [members_fileSocket] at hmem
      have hne : t ≠ w.cards.length := by
        rintro rfl
        simp at hk
      split_ifs at hmem
      · simpa [hne] using hmem
      · exact hmem
    · exact hc
  · intro p hp
    rw [cards_fileSocket, List.length_append]
    exact Nat.lt_add_right _ (h.known p hp)

/-- What the first half of `removeSocket` leaves of an agent whose accounts are in order. -/
structure Unlisted (w : World) (s : ℕ) (name : Str) (w' : World) : Prop where
  maxSockets : w'.agent.maxSockets = w.agent.maxSockets
  requests : w'.agent.requests = w.agent.requests
  connections : w'.connections = w.connections
  logs : w'.added = w.added ∧ w'.handed = w.handed
  members : ∀ n, w'.members n = if n = name then (w.members n).erase s else w.members n
  size : ∀ n, w'.size n = w.size n - if n = name ∧ s ∈ w.members n then 1 else 0
  accounts : Accounts w'

/-- Once the table is as it should be, so are the accounts. -/
theorem Accounts.erase (h : Accounts w) {s : ℕ} (hs : s < w.cards.length) {name : Str}
    (hconn : w'.connections = w.connections) (hrem : w'.removals = w.removals ++ [(name, s)])
    (hmem : ∀ n, w'.members n = if n = name then (w.members n).erase s else w.members n)
    (hsize : ∀ n, w'.size n = w.size n - if n = name ∧ s ∈ w.members n then 1 else 0) :
    Accounts w' := by
  have hcards : w'.cards = w.cards := by rw [cards, hconn]; rfl
  refine ⟨fun n => ?_, fun n => ?_, fun n t => ?_, fun n t k ht hk => ?_, ?_⟩
  · rw [hmem]
    split_ifs
    · exact (h.nodup n).erase s
    · exact h.nodup n
  · rw [hmem, hsize, h.length]
    by_cases hn : n = name
    · by_cases hin : s ∈ w.members n
      · rw [if_pos ⟨hn, hin⟩, if_pos hn, List.length_erase_of_mem hin]
        have := List.length_pos_of_mem hin
        omega
      · rw [if_neg (by simp [hin]), if_pos hn, List.erase_of_not_mem hin]
        simp
    · simp [hn]
  · rw [hmem, hcards, hrem]
    have hexact := h.exact n t
    by_cases hn : n = name
    · subst hn
      rw [if_pos rfl, (h.nodup n).mem_erase_iff, hexact]
      simp only [List.mem_append, List.mem_singleton, Prod.mk.injEq, true_and]
      tauto
    · rw [if_neg hn, hexact]
      simp [hn]
  · rw [hmem] at ht
    rw [hcards] at hk
    refine h.active n t k ?_ hk
    split_ifs at ht
    · exact List.mem_of_mem_erase ht
    · exact ht
  · rw [hrem, hcards]
    intro p hp
    rcases List.mem_append.mp hp with hp | hp
    · exact h.known p hp
    · rw [List.mem_singleton.mp hp]
      exact hs

/-- The table without a socket. -/
def without (p : Pool) (s : ℕ) : Pool :=
  if s ∈ p.members then Pool.mk (p.length - 1) (p.members.erase s) else p

theorem without_members (p : Pool) (s : ℕ) : (without p s).members = p.members.erase s := by
  unfold without
  split_ifs with hin
  · rfl
  · exact (List.erase_of_not_mem hin).symm

theorem without_length (p : Pool) (s : ℕ) :
    (without p s).length = p.length - if s ∈ p.members then 1 else 0 := by
  unfold without
  split_ifs <;> simp

/-- The field `length` goes on counting. -/
theorem without_count {p : Pool} (hlength : p.length = p.members.length) (s : ℕ) :
    (without p s).length = (without p s).members.length := by
  rw [without_members, without_length]
  split_ifs with hin
  · rw [List.length_erase_of_mem hin]
    have hpos := List.length_pos_of_mem hin
    omega
  · rw [List.erase_of_not_mem hin]
    omega

/-- Whether the table is kept or not, it holds what is left, and the assertion holds. -/
theorem unlist_some {w : World} {name : Str} {p : Pool} (hp : w.agent.sockets name = some p)
    (hlength : p.length = p.members.length) (s : ℕ) :
    ∃ p' : Option Pool, w.unlist s name = ⟨w.setSockets name p', none⟩ ∧
      p'.getD ⟨0, []⟩ = without p s := by
  have hcount := without_count hlength s
  have hunlist : w.unlist s name =
      if (without p s).length = 0 then
        if (without p s).members = [] then ⟨w.setSockets name none, none⟩
        else ⟨w.setSockets name (some (without p s)), some "assertion failed!"⟩
      else ⟨w.setSockets name (some (without p s)), none⟩ := by
    unfold unlist
    rw [hp]
    rfl
  by_cases hzero : (without p s).length = 0
  · have hnil : (without p s).members = [] := List.eq_nil_of_length_eq_zero (by omega)
    refine ⟨none, by rw [hunlist, if_pos hzero, if_pos hnil], ?_⟩
    generalize without p s = q at hzero hnil ⊢
    obtain ⟨l, ms⟩ := q
    change l = 0 at hzero
    change ms = [] at hnil
    rw [hzero, hnil]
    rfl
  · exact ⟨some (without p s), by rw [hunlist, if_neg hzero], rfl⟩

/-- The assertion of `removeSocket` holds. -/
theorem unlist_spec (h : Accounts w) {s : ℕ} (hs : s < w.cards.length) (name : Str) :
    let r := { w with removals := w.removals ++ [(name, s)] }.unlist s name
    r.error = none ∧ Unlisted w s name r.world := by
  intro r
  have hlength := h.length name
  cases hsockets : w.agent.sockets name with
  | none =>
    have hempty : w.members name = [] := by simp [members, hsockets]
    have hr : r = ⟨{ w with removals := w.removals ++ [(name, s)] }, none⟩ := by
      simp [r, unlist, hsockets]
    rw [hr]
    have hmem : ∀ n, World.members { w with removals := w.removals ++ [(name, s)] } n =
        if n = name then (w.members n).erase s else w.members n := by
      intro n
      split_ifs with hn
      · subst hn
        rw [hempty]
        exact hempty
      · rfl
    have hsize : ∀ n, World.size { w with removals := w.removals ++ [(name, s)] } n =
        w.size n - if n = name ∧ s ∈ w.members n then 1 else 0 := by
      intro n
      rw [if_neg (by rintro ⟨rfl, hin⟩; simp [hempty] at hin), sub_zero]
      rfl
    exact ⟨rfl, rfl, rfl, rfl, ⟨rfl, rfl⟩, hmem, hsize, h.erase hs rfl rfl hmem hsize⟩
  | some p =>
    have hpm : w.members name = p.members := by simp [members, hsockets]
    have hpl : w.size name = p.length := by simp [size, hsockets]
    rw [hpl, hpm] at hlength
    obtain ⟨p', hp', hdefault⟩ : ∃ p' : Option Pool,
        r = ⟨World.setSockets { w with removals := w.removals ++ [(name, s)] } name p', none⟩ ∧
        p'.getD ⟨0, []⟩ = without p s :=
      unlist_some (w := { w with removals := w.removals ++ [(name, s)] }) hsockets hlength s
    rw [hp']
    have hmem : ∀ n, (World.setSockets { w with removals := w.removals ++ [(name, s)] } name
        p').members n = if n = name then (w.members n).erase s else w.members n := by
      intro n
      rw [members_setSockets, hdefault]
      split_ifs with hn
      · rw [hn, hpm, without_members]
      · rfl
    have hsize : ∀ n, (World.setSockets { w with removals := w.removals ++ [(name, s)] } name
        p').size n = w.size n - if n = name ∧ s ∈ w.members n then 1 else 0 := by
      intro n
      rw [size_setSockets, hdefault]
      by_cases hn : n = name
      · rw [if_pos hn, hn, hpl, hpm, without_length]
        simp
      · simp only [hn, if_false, false_and, sub_zero]
        rfl
    exact ⟨rfl, rfl, rfl, rfl, ⟨rfl, rfl⟩, hmem, hsize, h.erase hs rfl rfl hmem hsize⟩

theorem keeps_destroySocket (w : World) (s : ℕ) : Keeps w (w.destroySocket s) :=
  w.keeps_modify s fun c => by split_ifs <;> rfl

theorem keeps_agentFree (w : World) (s : ℕ) (c : Connection) : Keeps w (w.agentFree s c) := by
  unfold agentFree
  dsimp only
  split
  · split_ifs
    · exact w.keeps_destroySocket s
    · exact ⟨rfl, fun _ => rfl, fun _ => rfl, rfl, rfl⟩
    · exact ⟨rfl, fun _ => rfl, fun _ => rfl, rfl, rfl⟩
  · exact w.keeps_destroySocket s

theorem keeps_emitFree (w : World) (s : ℕ) : Keeps w (w.emitFree s) := by
  unfold emitFree
  split
  · exact .refl w
  · split_ifs
    · exact w.keeps_agentFree s _
    · exact .refl w

/-- A Host header that `createSocket` can use: none, or a string. -/
def plain (req : Option Request) : Bool :=
  match req.bind Request.hostHeader with
  | none | some (.one (.str _)) => true
  | _ => false

/-- `createSocket` raises on a Host header that is no string, and files the connection else. -/
theorem createSocket_cases (w : World) (name host : Str) (port : ℕ) (localAddress : Option Str)
    (req : Option Request) :
    (plain req = false ∧ ∃ err, w.createSocket name host port localAddress req = .error err) ∨
    (plain req = true ∧ ∃ servername,
      w.createSocket name host port localAddress req =
        .ok (w.fileSocket ⟨name, host, port, localAddress, servername, .fresh [], false, false,
          true, true, true⟩, w.connections.length)) := by
  unfold createSocket servername plain
  rcases req.bind Request.hostHeader with _ | ⟨_ | _⟩ | _
  · exact Or.inr ⟨rfl, _, rfl⟩
  · exact Or.inr ⟨rfl, _, rfl⟩
  · exact Or.inl ⟨rfl, _, rfl⟩
  · exact Or.inl ⟨rfl, _, rfl⟩

/-- `removeSocket` makes a new connection for the name. -/
def renews (w : World) (name : Str) : Bool :=
  match w.agent.requests name with
  | none => false
  | some q => plain q.head?

/-- What `removeSocket` does: the socket is not listed any more, and if requests are waiting a
new connection is filed and freed. -/
theorem removeSocket_cases (h : Accounts w) {s : ℕ} (hs : s < w.cards.length)
    (name host : Str) (port : ℕ) (localAddress : Option Str) :
    ∃ w₁, Unlisted w s name w₁ ∧
      (w.renews name = false ∧
        (w.removeSocket s name host port localAddress).world = w₁ ∨
      w.renews name = true ∧ ∃ servername,
        w.removeSocket s name host port localAddress =
          ⟨(w₁.fileSocket ⟨name, host, port, localAddress, servername, .fresh [], false, false,
            true, true, true⟩).emitFree w.connections.length, none⟩) := by
  obtain ⟨herror, hun⟩ := unlist_spec h hs name
  unfold removeSocket renews
  dsimp only
  obtain ⟨r, hr⟩ : ∃ r, r = { w with removals := w.removals ++ [(name, s)] }.unlist s name :=
    ⟨_, rfl⟩
  rw [← hr] at herror hun ⊢
  refine ⟨r.world, hun, ?_⟩
  simp only [herror, hun.requests]
  cases hq : w.agent.requests name with
  | none => exact Or.inl ⟨rfl, rfl⟩
  | some q =>
    rw [← hun.connections]
    rcases r.world.createSocket_cases name host port localAddress q.head? with
      ⟨hplain, err, herr⟩ | ⟨hplain, servername, hok⟩
    · exact Or.inl ⟨hplain, by simp only [herr]⟩
    · exact Or.inr ⟨hplain, servername, by simp only [hok]⟩

/-- The change that `removeSocket` makes to `length`. -/
def change (w : World) (s : ℕ) (name : Str) : ℤ :=
  (if w.renews name then 1 else 0) - (if s ∈ w.members name then 1 else 0)

theorem removeSocket_pools (h : Accounts w) {s : ℕ} (hs : s < w.cards.length)
    (name host : Str) (port : ℕ) (localAddress : Option Str) :
    let w' := (w.removeSocket s name host port localAddress).world
    Accounts w' ∧ w'.agent.maxSockets = w.agent.maxSockets ∧
    (∀ n, w'.size n = w.size n + if n = name then w.change s name else 0) ∧
    s ∉ w'.members name ∧ (∀ n, n ≠ name → w'.members n = w.members n) := by
  intro w'
  obtain ⟨w₁, hun, hcase⟩ := removeSocket_cases h hs name host port localAddress
  have hgone : s ∉ w₁.members name := by
    rw [hun.members, if_pos rfl, (h.nodup name).mem_erase_iff]
    exact fun hne => hne.1 rfl
  rcases hcase with ⟨hrenews, heq⟩ | ⟨hrenews, servername, heq⟩
  · rw [show w' = w₁ from heq]
    refine ⟨hun.accounts, hun.maxSockets, fun n => ?_, hgone, fun n hn => ?_⟩
    · rw [hun.size, change, hrenews]
      by_cases hn : n = name
      · subst hn
        simp only [true_and, if_true, Bool.false_eq_true, if_false]
        omega
      · simp [hn]
    · rw [hun.members, if_neg hn]
  · obtain ⟨c, hc⟩ : ∃ c : Connection, c =
      ⟨name, host, port, localAddress, servername, .fresh [], false, false, true, true, true⟩ :=
      ⟨_, rfl⟩
    have hname : c.name = name := by rw [hc]
    have hw' : w' = (w₁.fileSocket c).emitFree w.connections.length := by
      rw [hc]
      exact congrArg Reply.world heq
    have hkeeps := (w₁.fileSocket c).keeps_emitFree w.connections.length
    have hactive : c.card.Active := by rw [hc]; exact ⟨rfl, rfl, rfl, rfl⟩
    rw [hw']
    refine ⟨(hun.accounts.fileSocket hactive).keeps hkeeps, hkeeps.maxSockets.trans hun.maxSockets,
      fun n => ?_, ?_, fun n hn => ?_⟩
    · rw [hkeeps.size, size_fileSocket, hun.size, change, hrenews, hname]
      by_cases hn : n = name
      · subst hn
        simp only [true_and, if_true]
        omega
      · simp [hn]
    · have hcards : w₁.cards.length = w.cards.length := by rw [cards, hun.connections]; rfl
      rw [hkeeps.members, members_fileSocket, hname, if_pos rfl, List.mem_append, hcards]
      simp [hgone, Nat.ne_of_lt hs]
    · rw [hkeeps.members, members_fileSocket, hname, if_neg hn, hun.members, if_neg hn]

/-- The removal of a connection from its own pool, if the connection passes the test. -/
def removalIf (w : World) (s : ℕ) (test : Connection → Bool) : Option (ℕ × Str) :=
  match w.connections[s]? with
  | none => none
  | some c => if test c then some (s, c.name) else none

/-- The call of `removeSocket` that an event makes. -/
def removal (w : World) : AgentEvent → Option (ℕ × Str)
  | .tick s => w.removalIf s fun c => c.closing && c.onClose
  | .timer s => w.removalIf s fun c => c.socket.hangupTimer && c.onClose
  | .agentRemove s => w.removalIf s fun c => c.onRemove
  | .removeSocket s name _ _ _ => if s < w.connections.length then some (s, name) else none
  | _ => none

/-- A listener of the agent runs `removeSocket`, and then the connection is changed. -/
theorem removed_pools (h : Accounts w) {s : ℕ} {c : Connection}
    (hget : w.connections[s]? = some c) {f : Connection → Connection} (hf : ∀ c, (f c).name = c.name) :
    let w' := (w.removeSocket s c.name c.host c.port c.localAddress).world.modify s f
    Accounts w' ∧ w'.agent.maxSockets = w.agent.maxSockets ∧
    ∀ n, w'.size n = w.size n + if n = c.name then w.change s c.name else 0 := by
  intro w'
  have hk : w.cards[s]? = some c.card := by simp [cards, hget]
  have hs : s < w.cards.length := (List.getElem?_eq_some_iff.mp hk).1
  obtain ⟨haccounts, hmax, hsize, hgone, hother⟩ :=
    removeSocket_pools h hs c.name c.host c.port c.localAddress
  refine ⟨haccounts.modify hf fun name hmem => ?_, hmax, hsize⟩
  by_cases hn : name = c.name
  · exact hgone (hn ▸ hmem)
  · -- a connection is listed under its own name only
    rw [hother name hn] at hmem
    obtain ⟨⟨k, hk', hkn⟩, -⟩ := (h.exact name s).mp hmem
    rw [hk] at hk'
    cases hk'
    exact hn hkn.symm

theorem emitClose_pools (h : Accounts w) {s : ℕ} {c : Connection}
    (hget : w.connections[s]? = some c) :
    let w' := (w.emitClose s c).world
    Accounts w' ∧ w'.agent.maxSockets = w.agent.maxSockets ∧
    ∀ n, w'.size n = w.size n + if c.onClose = true ∧ n = c.name then w.change s c.name else 0 := by
  intro w'
  have hk : w.cards[s]? = some c.card := by simp [cards, hget]
  unfold w' emitClose
  dsimp only
  cases honClose : c.onClose with
  | true =>
    simp only [if_true, true_and]
    split <;> exact removed_pools h hget fun _ => rfl
  | false =>
    simp only [Bool.false_eq_true, if_false, false_and, add_zero]
    refine ⟨h.modify (fun _ => rfl) fun name hmem => ?_, rfl, fun _ => rfl⟩
    obtain ⟨-, -, hon, -⟩ := h.active name s c.card hmem hk
    rw [show c.onClose = true from hon] at honClose
    cases honClose

theorem emitRemove_pools (h : Accounts w) {s : ℕ} {c : Connection}
    (hget : w.connections[s]? = some c) :
    let w' := (w.emitRemove s c).world
    Accounts w' ∧ w'.agent.maxSockets = w.agent.maxSockets ∧
    ∀ n, w'.size n = w.size n +
      if c.onRemove = true ∧ n = c.name then w.change s c.name else 0 := by
  intro w'
  have hk : w.cards[s]? = some c.card := by simp [cards, hget]
  have hs : s < w.cards.length := (List.getElem?_eq_some_iff.mp hk).1
  unfold w' emitRemove
  dsimp only
  cases honRemove : c.onRemove with
  | true =>
    simp only [if_true, true_and]
    split
    · obtain ⟨haccounts, hmax, hsize, -⟩ :=
        removeSocket_pools h hs c.name c.host c.port c.localAddress
      exact ⟨haccounts, hmax, hsize⟩
    · exact removed_pools h hget fun _ => rfl
  | false =>
    simp only [Bool.false_eq_true, if_false, false_and, add_zero]
    exact ⟨h, trivial, fun _ => trivial⟩

/-- The same for the call that an event makes. -/
def due (w : World) (name : Str) : Option (ℕ × Str) → ℤ
  | none => 0
  | some (s, name') => if name = name' then w.change s name' else 0

/-- The change that an event makes to `length`. -/
def gain (w : World) (name : Str) : AgentEvent → ℤ
  | .addRequest req host port localAddress =>
    if name = poolName host port localAddress ∧
      w.size (poolName host port localAddress) < w.agent.maxSockets ∧ plain (some req) = true
    then 1 else 0
  | .createSocket name' _ _ _ req => if name = name' ∧ plain req = true then 1 else 0
  | e => w.due name (w.removal e)

theorem keeps_setSockets (w : World) (name : Str) :
    Keeps w (w.setSockets name (some ((w.agent.sockets name).getD ⟨0, []⟩))) := by
  refine ⟨rfl, fun n => ?_, fun n => ?_, rfl, rfl⟩
  · rw [members_setSockets]
    split_ifs with hn
    · rw [hn]; rfl
    · rfl
  · rw [size_setSockets]
    split_ifs with hn
    · rw [hn]; rfl
    · rfl

theorem createSocket_pools (h : Accounts w) {name host : Str} {port : ℕ}
    {localAddress : Option Str} {req : Option Request} {s : ℕ}
    (hok : w.createSocket name host port localAddress req = .ok (w', s)) :
    Accounts w' ∧ w'.agent.maxSockets = w.agent.maxSockets ∧
    (∀ n, w'.size n = w.size n + if n = name then 1 else 0) ∧ plain req = true := by
  rcases w.createSocket_cases name host port localAddress req with
    ⟨-, err, herr⟩ | ⟨hplain, servername, hfile⟩
  · rw [herr] at hok
    cases hok
  · rw [hfile] at hok
    obtain ⟨c, hc⟩ : ∃ c : Connection, c =
      ⟨name, host, port, localAddress, servername, .fresh [], false, false, true, true, true⟩ :=
      ⟨_, rfl⟩
    rw [← hc] at hok
    have hname : c.name = name := by rw [hc]
    have hactive : c.card.Active := by rw [hc]; exact ⟨rfl, rfl, rfl, rfl⟩
    cases hok
    exact ⟨h.fileSocket hactive, rfl, fun n => by rw [size_fileSocket, hname], hplain⟩

theorem createSocket_error {name host : Str} {port : ℕ} {localAddress : Option Str}
    {req : Option Request} {err : LuaError}
    (h : w.createSocket name host port localAddress req = .error err) : plain req = false := by
  rcases w.createSocket_cases name host port localAddress req with
    ⟨hplain, -⟩ | ⟨-, servername, hfile⟩
  · exact hplain
  · rw [hfile] at h
    cases h

/-- 'close' is emitted by a tick or by a timer, which is then spent. -/
theorem spent_pools (h : Accounts w) {s : ℕ} {c : Connection}
    (hget : w.connections[s]? = some c) {f : Connection → Connection}
    (hf : ∀ c, (f c).card = c.card) :
    let w' := (w.emitClose s c).world.modify s f
    Accounts w' ∧ w'.agent.maxSockets = w.agent.maxSockets ∧
    ∀ n, w'.size n = w.size n + if c.onClose = true ∧ n = c.name then w.change s c.name else 0 := by
  obtain ⟨haccounts, hmax, hsize⟩ := emitClose_pools h hget
  exact ⟨haccounts.keeps (keeps_modify _ s hf), hmax, hsize⟩

/-- `addRequest` makes a connection for the request while there is room, and queues it else. -/
theorem addRequest_cases (w : World) (req : Request) (host : Str) (port : ℕ)
    (localAddress : Option Str) {name : Str} (hname : name = poolName host port localAddress)
    {w₁ : World} (hw₁ : w₁ = w.setSockets name (some ((w.agent.sockets name).getD ⟨0, []⟩))) :
    let w' := (w.addRequest req host port localAddress).world
    w.size name < w.agent.maxSockets ∧
      (plain (some req) = false ∧ w' = w₁ ∨
      plain (some req) = true ∧ ∃ servername,
        w' = { (w₁.fileSocket ⟨name, host, port, localAddress, servername, .fresh [], false, false,
          true, true, true⟩).onSocket name req w.connections.length with
          added := w.added ++ [(name, req)] }) ∨
    ¬ w.size name < w.agent.maxSockets ∧
      w' = { w₁.setRequests name (some (w.queue name ++ [req])) with
        added := w.added ++ [(name, req)] } := by
  intro w'
  subst hname
  have heq : w' = (w.addRequest req host port localAddress).world := rfl
  unfold addRequest at heq
  dsimp only at heq
  have hsize : ((w.agent.sockets (poolName host port localAddress)).getD ⟨0, []⟩).length =
      w.size (poolName host port localAddress) := rfl
  rw [← hw₁, hsize] at heq
  have hmax : w₁.agent.maxSockets = w.agent.maxSockets := by rw [hw₁]; rfl
  have hrequests : w₁.agent.requests = w.agent.requests := by rw [hw₁]; rfl
  have hconn : w₁.connections = w.connections := by rw [hw₁]; rfl
  have hadded : w₁.added = w.added := by rw [hw₁]; rfl
  by_cases hlt : w.size (poolName host port localAddress) < w.agent.maxSockets
  · refine Or.inl ⟨hlt, ?_⟩
    rw [hmax, if_pos hlt] at heq
    rcases w₁.createSocket_cases (poolName host port localAddress) host port localAddress
      (some req) with ⟨hplain, err, herr⟩ | ⟨hplain, servername, hok⟩
    · rw [herr] at heq
      exact Or.inl ⟨hplain, heq⟩
    · rw [hok] at heq
      refine Or.inr ⟨hplain, servername, heq.trans ?_⟩
      rw [← hadded, ← hconn]
      rfl
  · refine Or.inr ⟨hlt, ?_⟩
    rw [hmax, if_neg hlt] at heq
    rw [heq, hrequests, hadded]
    rfl

/-- What a step does to the pools: the accounts stay in order, and `length` follows. -/
theorem step_pools (h : Accounts w) (e : AgentEvent) :
    Accounts (w.step e) ∧ (w.step e).agent.maxSockets = w.agent.maxSockets ∧
    ∀ n, (w.step e).size n = w.size n + w.gain n e := by
  have hkeep : ∀ w', Keeps w w' → (∀ n, w.gain n e = 0) →
      Accounts w' ∧ w'.agent.maxSockets = w.agent.maxSockets ∧
      ∀ n, w'.size n = w.size n + w.gain n e := fun w' hk hg =>
    ⟨h.keeps hk, hk.maxSockets, fun n => by rw [hk.size, hg, add_zero]⟩
  cases e with
  | addRequest req host port localAddress =>
    have hset := w.keeps_setSockets (poolName host port localAddress)
    simp only [step, gain]
    rcases w.addRequest_cases req host port localAddress rfl rfl with
      ⟨hlt, ⟨hplain, heq⟩ | ⟨hplain, servername, heq⟩⟩ | ⟨hlt, heq⟩ <;> rw [heq]
    · simp only [hplain, Bool.false_eq_true, and_false, if_false, add_zero]
      exact ⟨h.keeps hset, hset.maxSockets, hset.size⟩
    · simp only [hlt, hplain, and_true]
      refine ⟨((h.keeps hset).fileSocket ⟨rfl, rfl, rfl, rfl⟩).keeps
        ⟨rfl, fun _ => rfl, fun _ => rfl, rfl, rfl⟩, rfl, fun n => ?_⟩
      exact (size_fileSocket _ _ n).trans (by rw [hset.size])
    · simp only [hlt, false_and, and_false, if_false, add_zero]
      exact ⟨h.keeps (hset.trans ⟨rfl, fun _ => rfl, fun _ => rfl, rfl, rfl⟩), hset.maxSockets,
        fun n => hset.size n⟩
  | createSocket name host port localAddress req =>
    simp only [step, gain]
    cases hc : w.createSocket name host port localAddress req with
    | error err => 
      simp only [createSocket_error hc, Bool.false_eq_true, and_false, if_false, add_zero]
      exact ⟨h, trivial, fun _ => trivial⟩
    | ok r =>
      obtain ⟨w', s⟩ := r
      obtain ⟨haccounts, hmax, hsize, hplain⟩ := createSocket_pools h hc
      simp only [hplain, and_true]
      exact ⟨haccounts, hmax, hsize⟩
  | free s => exact hkeep _ (w.keeps_emitFree s) fun _ => rfl
  | destroy s => exact hkeep _ (w.keeps_destroySocket s) fun _ => rfl
  | tick s =>
    cases hget : w.connections[s]? with
    | none => simpa [step, gain, due, removal, removalIf, hget] using h
    | some c =>
      simp only [step, gain, due, removal, removalIf, hget]
      by_cases hclosing : c.closing = true
      · rw [if_pos hclosing]
        obtain ⟨haccounts, hmax, hsize⟩ :=
          spent_pools h hget (f := fun c => { c with closing := false }) fun _ => rfl
        refine ⟨haccounts, hmax, fun n => (hsize n).trans ?_⟩
        by_cases honClose : c.onClose = true <;> simp [hclosing, honClose]
      · simpa [hclosing] using h
  | write s m data encoding => exact hkeep _ (w.keeps_modify s fun _ => rfl) fun _ => rfl
  | timer s =>
    cases hget : w.connections[s]? with
    | none => simpa [step, gain, due, removal, removalIf, hget] using h
    | some c =>
      simp only [step, gain, due, removal, removalIf, hget]
      by_cases htimer : c.socket.hangupTimer = true
      · rw [if_pos htimer]
        obtain ⟨haccounts, hmax, hsize⟩ := spent_pools h hget
          (f := fun c => { c with socket := { c.socket with hangupTimer := false } }) fun _ => rfl
        refine ⟨haccounts, hmax, fun n => (hsize n).trans ?_⟩
        by_cases honClose : c.onClose = true <;> simp [htimer, honClose]
      · simpa [htimer] using h
  | agentRemove s =>
    cases hget : w.connections[s]? with
    | none => simpa [step, gain, due, removal, removalIf, hget] using h
    | some c =>
      simp only [step, gain, due, removal, removalIf, hget]
      obtain ⟨haccounts, hmax, hsize⟩ := emitRemove_pools h hget
      refine ⟨haccounts, hmax, fun n => (hsize n).trans ?_⟩
      by_cases honRemove : c.onRemove = true <;> simp [honRemove]
  | removeSocket s name host port localAddress =>
    simp only [step, gain, due, removal]
    split_ifs with hs
    · obtain ⟨haccounts, hmax, hsize, -⟩ :=
        removeSocket_pools h (by simpa [cards] using hs) name host port localAddress
      exact ⟨haccounts, hmax, hsize⟩
    · exact ⟨h, rfl, fun n => (add_zero _).symm⟩

end Pools

/-! ### The accounts of the agent -/

section Accounting

variable {w : World}

/-- No pool is larger than the agent allows. -/
def Bounded (w : World) : Prop := ∀ name, w.size name ≤ w.agent.maxSockets

/-- `createSocket` is called directly only while there is room, and `removeSocket` only for a
socket that is listed, or when it makes no new connection or there is room for one. -/
def WithinLimit (w : World) : AgentEvent → Prop
  | .createSocket name _ _ _ req => plain req = true → w.size name < w.agent.maxSockets
  | e => ∀ r ∈ w.removal e,
      r.1 ∈ w.members r.2 ∨ w.renews r.2 = false ∨ w.size r.2 < w.agent.maxSockets

theorem due_bounded (hb : w.Bounded) (r : Option (ℕ × Str)) :
    (∀ n, w.size n + w.due n r ≤ w.agent.maxSockets) ↔
    ∀ p ∈ r, p.1 ∈ w.members p.2 ∨ w.renews p.2 = false ∨
      w.size p.2 < w.agent.maxSockets := by
  rcases r with _ | ⟨s, name⟩
  · simp only [due, add_zero, Option.not_mem_none, false_implies, implies_true, iff_true]
    exact hb
  · have hname := hb name
    have hchange : w.size name + w.change s name ≤ w.agent.maxSockets ↔
        (s ∈ w.members name ∨ w.renews name = false ∨ w.size name < w.agent.maxSockets) := by
      unfold change
      cases w.renews name <;> by_cases hs : s ∈ w.members name <;> simp [hs] <;> omega
    constructor
    · rintro h _ ⟨rfl⟩
      exact hchange.mp (by simpa [due] using h name)
    · intro h n
      have hn := hb n
      simp only [due]
      split_ifs with heq
      · rw [heq]
        exact hchange.mpr (h (s, name) rfl)
      · rw [add_zero]
        exact hn

/-- A step that starts within the bound ends within it exactly when it meets the condition. -/
theorem step_bounded (h : Accounts w) (hb : w.Bounded) (e : AgentEvent) :
    (w.step e).Bounded ↔ w.WithinLimit e := by
  obtain ⟨-, hmax, hsize⟩ := step_pools h e
  have hiff : (w.step e).Bounded ↔ ∀ n, w.size n + w.gain n e ≤ w.agent.maxSockets := by
    unfold Bounded
    rw [hmax]
    exact forall_congr' fun n => by rw [hsize]
  rw [hiff]
  cases e with
  | addRequest req host port localAddress =>
    refine ⟨fun _ r hr => (by cases hr), fun _ n => ?_⟩
    have hn := hb n
    simp only [gain]
    split_ifs with hroom
    · rw [hroom.1]
      omega
    · omega
  | createSocket name host port localAddress req =>
    simp only [gain, WithinLimit]
    constructor
    · intro hall hplain
      have := hall name
      simp only [hplain, and_self, if_true] at this
      omega
    · intro hroom n
      have hn := hb n
      split_ifs with hcase
      · have := hroom hcase.2
        rw [hcase.1]
        omega
      · omega
  | free s => exact due_bounded hb none
  | destroy s => exact due_bounded hb none
  | write s m data encoding => exact due_bounded hb none
  | tick s => exact due_bounded hb (w.removal (.tick s))
  | timer s => exact due_bounded hb (w.removal (.timer s))
  | agentRemove s => exact due_bounded hb (w.removal (.agentRemove s))
  | removeSocket s name host port localAddress =>
    exact due_bounded hb (w.removal (.removeSocket s name host port localAddress))

/-- The pool of a name lists each live connection made for the name and not removed, once, and
no other; `length` is the number of connections listed. -/
def Accounted (w : World) (name : Str) : Prop :=
  (w.members name).Nodup ∧ w.size name = (w.members name).length ∧
  ∀ s, s ∈ w.members name ↔ ∃ c, w.connections[s]? = some c ∧ c.name = name ∧
    c.closed = false ∧ (name, s) ∉ w.removals

theorem Accounts.accounted (h : Accounts w) (name : Str) : w.Accounted name := by
  refine ⟨h.nodup name, h.length name, fun s => ?_⟩
  have hcard : ∀ k, w.cards[s]? = some k ↔ ∃ c, w.connections[s]? = some c ∧ c.card = k := by
    intro k
    simp [cards]
  constructor
  · intro hs
    obtain ⟨⟨k, hk, hkn⟩, hrem⟩ := (h.exact name s).mp hs
    obtain ⟨hopen, -⟩ := h.active name s k hs hk
    obtain ⟨c, hc, rfl⟩ := (hcard k).mp hk
    exact ⟨c, hc, hkn, hopen, hrem⟩
  · rintro ⟨c, hc, hcn, -, hrem⟩
    exact (h.exact name s).mpr ⟨⟨c.card, (hcard _).mpr ⟨c, hc, rfl⟩, hcn⟩, hrem⟩

theorem init_accounts (maxSockets : ℕ) : Accounts (init maxSockets) := by
  refine ⟨fun _ => List.nodup_nil, fun _ => rfl, fun name s => ?_, fun name s k hs => ?_, ?_⟩
  · simp [init, members, cards, Agent.init]
  · simp [init, members, Agent.init] at hs
  · simp [init]

/-- In every state of every run the accounts of the agent are in order, and the pools stay
within the limit throughout exactly when every step meets the condition. -/
theorem accounts_kept (maxSockets : ℕ) (es : List AgentEvent) :
    (∀ w ∈ statesOf step (init maxSockets) es, ∀ name, w.Accounted name) ∧
    ((∀ w ∈ statesOf step (init maxSockets) es, ∀ name, w.size name ≤ maxSockets) ↔
      Guarded step WithinLimit (init maxSockets) es) := by
  have hinv : ∀ w e, Accounts w ∧ w.agent.maxSockets = maxSockets →
      Accounts (w.step e) ∧ (w.step e).agent.maxSockets = maxSockets := by
    rintro w e ⟨h, hmax⟩
    obtain ⟨h', hmax', -⟩ := step_pools h e
    exact ⟨h', hmax'.trans hmax⟩
  have hinit : Accounts (init maxSockets) ∧ (init maxSockets).agent.maxSockets = maxSockets :=
    ⟨init_accounts maxSockets, rfl⟩
  constructor
  · intro w hw name
    exact (states_invariant hinv hinit hw).1.accounted name
  · refine states_iff_guarded (I := fun w => Accounts w ∧ w.agent.maxSockets = maxSockets)
      (P := fun w => ∀ name, w.size name ≤ maxSockets) hinv ?_ hinit ?_ es
    · rintro w e ⟨h, hmax⟩ hb
      have hmax' := (hinv w e ⟨h, hmax⟩).2
      have hstep := step_bounded h (fun name => by rw [hmax]; exact hb name) e
      unfold Bounded at hstep
      rw [hmax'] at hstep
      exact hstep
    · exact fun name => by simp [init, size, Agent.init]

/-- The request whose connection dies, as it writes once more. -/
def lateRequest : OutgoingMessage :=
  { OutgoingMessage.init 0 .clientRequest (.inOrder []) with connection := true }

/-- A late write has 'close' emitted a second time, and the second time the queue is not empty
either. -/
theorem hangup_exceeds :
    ¬ ∀ (maxSockets : ℕ), 1 ≤ maxSockets → ∀ es : List AgentEvent,
      (∀ name host port localAddress req,
        AgentEvent.createSocket name host port localAddress req ∉ es) →
      (∀ s name host port localAddress,
        AgentEvent.removeSocket s name host port localAddress ∉ es) →
      ∀ w ∈ statesOf step (init maxSockets) es, ∀ name,
        w.Accounted name ∧ w.size name ≤ maxSockets := by
  intro h
  obtain ⟨es, hes⟩ : ∃ es : List AgentEvent, es =
      [.addRequest ⟨0, none⟩ "a".toList 80 none, .addRequest ⟨1, none⟩ "a".toList 80 none,
      .addRequest ⟨2, none⟩ "a".toList 80 none, .destroy 0, .tick 0,
      .write 0 lateRequest "x".toList none, .timer 0] := ⟨_, rfl⟩
  have hbad := (h 1 le_rfl es (by simp [hes]) (by simp [hes]) (run step (init 1) es)
    (run_mem_statesOf _ _ _) "a:80".toList).2
  rw [hes] at hbad
  revert hbad
  decide

end Accounting

end World

end LuaNode
