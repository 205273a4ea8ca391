import LuaNode.Library.LuaStack
import LuaNode.Library.Runs

/-!
# Datagrams

`Socket:send` of `datagram.lua` and the native `SendTo` and `HandleSendTo` below it. The native
socket takes one send at a time and answers `false` to another; `sendto` does not look at the
answer. A callback runs between `completed` and `returned`, and what it calls are events of their own.
-/

namespace LuaNode.Datagram

inductive Kind
  | udp4
  | udp6
  deriving DecidableEq

def Kind.name : Kind → Str
  | udp4 => "udp4".toList
  | udp6 => "udp6".toList

/-- The arguments of `Socket:send`. -/
structure SendArguments where
  buffer : LuaValue
  offset : LuaValue
  length : LuaValue
  port : LuaValue
  address : LuaValue
  callback : LuaValue

/-- What `async_send_to` is given; the native layer sends the buffer whole. -/
structure Sending where
  /-- the call of `send` it comes from, counted from 0 -/
  call : ℕ
  data : Str
  port : LuaValue
  address : Str
  callback : LuaValue

/-- `Datagram::Socket`. -/
structure UdpSocket where
  /-- `m_pending_writes` -/
  pendingWrites : ℕ
  /-- `m_pending_reads` -/
  pendingReads : ℕ
  /-- `m_close_pending` -/
  closePending : Bool
  isOpen : Bool
  /-- the calls of `async_send_to`, in order -/
  started : List Sending
  /-- those of them that have not completed -/
  inFlight : List Sending
  /-- those that have, with the error if there was one -/
  completions : List (Sending × Option Str)
  /-- `HandleSendTo` is calling a callback -/
  handling : Bool

/-- How a call into the native layer ends. -/
inductive NativeAnswer
  | returns (b : Bool)
  | raises (message : Str)

/-- `type(v) == 'number'`. -/
def hasNumberType : LuaValue → Bool
  | .number _ => true
  | _ => false

/-- `luaL_argerror` through `luaL_typerror`, for a method. -/
def badArgument (index : ℕ) (expected : Str) (v : LuaValue) : Str :=
  "bad argument #".toList ++ decimal index ++ " to 'sendto' (".toList ++ expected ++
    " expected, got ".toList ++ v.typeName ++ ")".toList

section

-- `numeric` says which strings Lua converts to a number, `isIP` which ones `Net.isIP` accepts
variable (numeric isIP : Str → Bool)

/-- `lua_isnumber`. -/
def isNumber : LuaValue → Bool
  | .number _ => true
  | .string text => numeric text
  | _ => false

namespace UdpSocket

variable (fd : UdpSocket)

/-- After `bind`, with the read of `_startWatcher`. -/
def bound : UdpSocket where
  pendingWrites := 0
  pendingReads := 1
  closePending := false
  isOpen := true
  started := []
  inFlight := []
  completions := []
  handling := false

/-- `SendTo`. The address is one that `isIP` has accepted, so that `from_string` reads it. -/
def sendTo (call : ℕ) (buffer port address callback : LuaValue) : UdpSocket × NativeAnswer :=
  if fd.pendingWrites > 0 then (fd, .returns false)
  else if isNumber numeric port = false then
    (fd, .raises (badArgument 5 "number".toList port))
  else
    match address.toString? with
    | none => (fd, .raises (badArgument 6 "string".toList address))
    | some ip =>
      match buffer with
      | .string data =>
        let sending : Sending := ⟨call, data, port, ip, callback⟩
        ({ fd with
            pendingWrites := fd.pendingWrites + 1
            started := fd.started ++ [sending]
            inFlight := fd.inFlight ++ [sending] }, .returns true)
      | _ => (fd, .raises ("Socket::Write, unhandled type '".toList ++ buffer.typeName ++ ['\'']))

/-- The first half of `HandleSendTo`; the error is `none` when the datagram has been sent. -/
def handleSendTo (error : Option Str) : UdpSocket :=
  match fd.inFlight with
  | [] => fd
  | sending :: rest =>
    { fd with
      inFlight := rest
      completions := fd.completions ++ [(sending, error)]
      pendingWrites := fd.pendingWrites - 1
      handling := true }

/-- `if(m_close_pending && m_pending_writes == 0 && m_pending_reads == 0)`. -/
def closeIfPending : UdpSocket :=
  if fd.closePending = true ∧ fd.pendingWrites = 0 ∧ fd.pendingReads = 0 then
    { fd with isOpen := false }
  else fd

def handleReceive : UdpSocket :=
  { fd with pendingReads := fd.pendingReads - 1 }.closeIfPending

def close : UdpSocket :=
  if fd.pendingWrites > 0 then { fd with closePending := true } else { fd with isOpen := false }

end UdpSocket

/-- A call of `dns.lookup` that has not been answered. -/
structure Lookup where
  call : ℕ
  arguments : SendArguments

structure Socket where
  kind : Kind
  fd : UdpSocket
  /-- `self.fd` is not nil -/
  running : Bool
  lookups : List Lookup
  /-- the calls of `send`, in order -/
  passed : List SendArguments
  /-- the calls that have raised an error, with its message -/
  raised : List (ℕ × Str)
  /-- the calls whose name was not found, which the callback and an 'error' event tell -/
  notFound : List (ℕ × Str)

inductive Event
  | send (arguments : SendArguments)
  /-- the answer to the oldest lookup: an error or an address -/
  | answered (answer : Except Str Str)
  /-- the system has sent a datagram, or failed to -/
  | completed (error : Option Str)
  /-- the callback of a completion returns -/
  | returned
  /-- the read of `_startWatcher` completes -/
  | received
  | close

namespace Socket

variable (s : Socket)

def bound (kind : Kind) : Socket := ⟨kind, .bound, true, [], [], [], []⟩

def raise (call : ℕ) (message : Str) : Socket := { s with raised := s.raised ++ [(call, message)] }

/-- `Socket:sendto`: what `SendTo` returns is not looked at. -/
def sendto (call : ℕ) (a : SendArguments) (address : LuaValue) : Socket :=
  if s.running = false then
    s.raise call "attempt to index field 'fd' (a nil value)".toList
  else
    match s.fd.sendTo numeric call a.buffer a.port address a.callback with
    | (fd, .returns _) => { s with fd }
    | (fd, .raises message) => { s with fd }.raise call message

/-- The body of `Socket:send`, for a call that has been counted. -/
def sendCall (call : ℕ) (a : SendArguments) : Socket :=
  if hasNumberType a.offset = false ∨ hasNumberType a.length = false then
    s.raise call "send takes offset and length as args 2 and 3".toList
  else
    match a.address with
    | .string address =>
      if isIP address then s.sendto numeric call a a.address
      else { s with lookups := s.lookups ++ [⟨call, a⟩] }
    | _ => s.raise call (s.kind.name ++ " sockets must send to port, address".toList)

def pass (a : SendArguments) : Socket := { s with passed := s.passed ++ [a] }

def send (a : SendArguments) : Socket :=
  (s.pass a).sendCall numeric isIP s.passed.length a

/-- The callback of `dnsLookup`. -/
def lookedUp (answer : Except Str Str) : Socket :=
  match s.lookups with
  | [] => s
  | l :: rest =>
    match answer with
    | .error message =>
      { s with lookups := rest, notFound := s.notFound ++ [(l.call, message)] }
    | .ok ip => { s with lookups := rest }.sendto numeric l.call l.arguments (.string ip)

def step : Event → Socket
  | .send a => s.send numeric isIP a
  | .answered answer => s.lookedUp numeric answer
  | .completed error =>
    if s.fd.handling then s else { s with fd := s.fd.handleSendTo error }
  | .returned =>
    if s.fd.handling then
      { s with fd := { s.fd with handling := false }.closeIfPending }
    else s
  | .received =>
    if s.fd.pendingReads > 0 then { s with fd := s.fd.handleReceive } else s
  | .close => if s.running then { s with fd := s.fd.close, running := false } else s

/-- `Socket:send` gets past its own checks, and `fd` is there. -/
def Reaches (a : SendArguments) : Prop :=
  s.running = true ∧ hasNumberType a.offset = true ∧ hasNumberType a.length = true ∧
    ∃ address, a.address = .string address

/-- The sends that have been begun are in the order of their calls, each with what its call was
given, and each is in flight or has completed, once. -/
structure InOrder : Prop where
  increasing : (s.fd.started.map Sending.call).Pairwise (· < ·)
  theirs : ∀ x ∈ s.fd.started, ∃ a, s.passed[x.call]? = some a ∧
    a.buffer = .string x.data ∧ a.port = x.port ∧ a.address = .string x.address ∧
      a.callback = x.callback
  completed : s.fd.completions.map Prod.fst ++ s.fd.inFlight = s.fd.started
  pending : s.fd.pendingWrites = s.fd.inFlight.length
  raised : ∀ r ∈ s.raised, r.1 < s.passed.length
  lookups : s.lookups = []

/-- Every datagram passed to `send` was handed to `async_send_to`, once and in the order of the
calls, or the call has raised an error. -/
structure NoneLost : Prop where
  inOrder : s.InOrder
  told : ∀ i < s.passed.length,
    i ∈ s.fd.started.map Sending.call ∨ i ∈ s.raised.map Prod.fst

/-- The sends go to literal addresses. -/
def Literal : Event → Prop
  | .send a => ∀ address, a.address = .string address → isIP address = true
  | _ => True

/-- No send that reaches the native socket finds another one pending. -/
def NonePending : Event → Prop
  | .send a => s.Reaches a → s.fd.pendingWrites = 0
  | _ => True

variable {s} {a : SendArguments} {call : ℕ}

/-! ### What a send does -/

/-- The state after a send is begun. -/
def begin (call : ℕ) (a : SendArguments) (data ip : Str) : Socket :=
  { s with fd :=
    { s.fd with
      pendingWrites := s.fd.pendingWrites + 1
      started := s.fd.started ++ [⟨call, data, a.port, ip, a.callback⟩]
      inFlight := s.fd.inFlight ++ [⟨call, data, a.port, ip, a.callback⟩] } }

/-- While a send is pending, another one has no effect at all. -/
theorem sendto_pending (hrunning : s.running = true) (hpending : 0 < s.fd.pendingWrites)
    (address : LuaValue) : s.sendto numeric call a address = s := by
  unfold sendto UdpSocket.sendTo
  rw [if_neg (by simp [hrunning]), if_pos hpending]

/-- When none is, the datagram is handed over or the call raises an error. -/
theorem sendto_idle (hidle : s.running = true → s.fd.pendingWrites = 0) (call : ℕ) (ip : Str) :
    (∃ message, s.sendto numeric call a (.string ip) = s.raise call message) ∨
      ∃ data, a.buffer = .string data ∧
        s.sendto numeric call a (.string ip) = s.begin call a data ip := by
  unfold sendto
  split_ifs with hrunning
  · exact .inl ⟨_, rfl⟩
  have hnone := hidle (by simpa using hrunning)
  unfold UdpSocket.sendTo
  rw [if_neg (by omega)]
  by_cases hport : isNumber numeric a.port = false
  · rw [if_pos hport]
    exact .inl ⟨_, rfl⟩
  rw [if_neg hport]
  cases hbuffer : a.buffer with
  | string data => exact .inr ⟨data, rfl, rfl⟩
  | _ => exact .inl ⟨_, rfl⟩

theorem sendCall_literal (hliteral : Literal isIP (.send a)) (call : ℕ) :
    (¬ s.Reaches a ∧ ∃ message, s.sendCall numeric isIP call a = s.raise call message) ∨
      ∃ ip, a.address = .string ip ∧
        s.sendCall numeric isIP call a = s.sendto numeric call a (.string ip) ∧
          (s.running = true → s.Reaches a) := by
  unfold sendCall
  split_ifs with hnumbers
  · refine .inl ⟨?_, _, rfl⟩
    rintro ⟨-, hoffset, hlength, -⟩
    simp [hoffset, hlength] at hnumbers
  simp only [not_or, Bool.not_eq_false] at hnumbers
  cases haddress : a.address with
  | string ip =>
    have hip := hliteral ip haddress
    exact .inr ⟨ip, rfl, if_pos hip, fun h => ⟨h, hnumbers.1, hnumbers.2, ip, haddress⟩⟩
  | _ =>
    refine .inl ⟨?_, _, rfl⟩
    rintro ⟨-, -, -, ip, hip⟩
    rw [haddress] at hip
    cases hip

/-- What a call of `send` with a literal address does. -/
theorem send_cases (hliteral : Literal isIP (.send a)) :
    (s.NonePending (.send a) ∧ ∃ message,
        s.send numeric isIP a = (s.pass a).raise s.passed.length message) ∨
      (s.NonePending (.send a) ∧ ∃ data ip, a.buffer = .string data ∧ a.address = .string ip ∧
        s.send numeric isIP a = (s.pass a).begin s.passed.length a data ip) ∨
      (¬ s.NonePending (.send a) ∧ s.send numeric isIP a = s.pass a) := by
  unfold send
  rcases sendCall_literal numeric isIP (s := s.pass a) hliteral s.passed.length with
    ⟨hnot, hraise⟩ | ⟨ip, haddress, heq, hreaches⟩
  · exact .inl ⟨fun h => absurd h hnot, hraise⟩
  rw [heq]
  by_cases hidle : s.running = true → s.fd.pendingWrites = 0
  · have hnone : s.NonePending (.send a) := fun h => hidle h.1
    rcases sendto_idle numeric (s := s.pass a) (a := a) hidle s.passed.length ip with hraise | ⟨data, hbuffer, heq⟩
    · exact .inl ⟨hnone, hraise⟩
    · exact .inr (.inl ⟨hnone, data, ip, hbuffer, haddress, heq⟩)
  · obtain ⟨hrunning, hpending⟩ := Classical.not_imp.mp hidle
    refine .inr (.inr ⟨fun h => hpending (h (hreaches hrunning)), ?_⟩)
    exact sendto_pending numeric (s := s.pass a) hrunning (Nat.pos_of_ne_zero hpending) _

/-! ### The order of the sends -/

theorem InOrder.raise (h : s.InOrder) (hcall : call < s.passed.length) (message : Str) :
    (s.raise call message).InOrder where
  increasing := h.increasing
  theirs := h.theirs
  completed := h.completed
  pending := h.pending
  raised := by
    intro r hr
    rcases List.mem_append.mp hr with hr | hr
    · exact h.raised r hr
    · rw [List.mem_singleton.mp hr]
      exact hcall
  lookups := h.lookups

theorem InOrder.pass (h : s.InOrder) (a : SendArguments) :
    (s.pass a).InOrder where
  increasing := h.increasing
  theirs := by
    intro x hx
    obtain ⟨b, hb, hrest⟩ := h.theirs x hx
    exact ⟨b, List.getElem?_append_left (List.getElem?_eq_some_iff.mp hb).1 ▸ hb, hrest⟩
  completed := h.completed
  pending := h.pending
  raised := by
    intro r hr
    have := h.raised r hr
    simp only [Socket.pass, List.length_append, List.length_singleton]
    omega
  lookups := h.lookups

theorem InOrder.call_lt (h : s.InOrder) {x : Sending} (hx : x ∈ s.fd.started) :
    x.call < s.passed.length := by
  obtain ⟨b, hb, -⟩ := h.theirs x hx
  exact (List.getElem?_eq_some_iff.mp hb).1

theorem InOrder.begin (h : s.InOrder) {data ip : Str} (hbuffer : a.buffer = .string data)
    (haddress : a.address = .string ip) :
    ((s.pass a).begin s.passed.length a data ip).InOrder where
  increasing := by
    simp only [Socket.begin, List.map_append, List.map_cons, List.map_nil]
    refine List.pairwise_append.mpr ⟨h.increasing, List.pairwise_singleton .., ?_⟩
    intro i hi j hj
    obtain ⟨x, hx, rfl⟩ := List.mem_map.mp hi
    rw [List.mem_singleton.mp hj]
    exact h.call_lt hx
  theirs := by
    intro x hx
    rcases List.mem_append.mp hx with hx | hx
    · exact (h.pass a).theirs x hx
    · rw [List.mem_singleton.mp hx]
      exact ⟨a, by simp [Socket.begin, Socket.pass], hbuffer, rfl, haddress, rfl⟩
  completed := by
    have := h.completed
    simp only [Socket.begin, Socket.pass, ← this, List.append_assoc]
  pending := by
    have := h.pending
    simp [Socket.begin, Socket.pass, this]
  raised := (h.pass a).raised
  lookups := h.lookups

@[simp] theorem closeIfPending_started (fd : UdpSocket) :
    fd.closeIfPending.started = fd.started := by
  unfold UdpSocket.closeIfPending
  split_ifs <;> rfl

@[simp] theorem closeIfPending_completions (fd : UdpSocket) :
    fd.closeIfPending.completions = fd.completions := by
  unfold UdpSocket.closeIfPending
  split_ifs <;> rfl

@[simp] theorem closeIfPending_inFlight (fd : UdpSocket) :
    fd.closeIfPending.inFlight = fd.inFlight := by
  unfold UdpSocket.closeIfPending
  split_ifs <;> rfl

@[simp] theorem closeIfPending_pendingWrites (fd : UdpSocket) :
    fd.closeIfPending.pendingWrites = fd.pendingWrites := by
  unfold UdpSocket.closeIfPending
  split_ifs <;> rfl

/-- What a step that is not a call of `send` leaves as it is. -/
structure Quiet (s t : Socket) : Prop where
  passed : t.passed = s.passed
  raised : t.raised = s.raised
  lookups : t.lookups = s.lookups
  started : t.fd.started = s.fd.started

theorem InOrder.quiet {t : Socket} (h : s.InOrder) (hq : Quiet s t)
    (hcompleted : t.fd.completions.map Prod.fst ++ t.fd.inFlight = t.fd.started)
    (hpending : t.fd.pendingWrites = t.fd.inFlight.length) : t.InOrder where
  increasing := by
    rw [hq.started]
    exact h.increasing
  theirs := by
    rw [hq.started, hq.passed]
    exact h.theirs
  completed := hcompleted
  pending := hpending
  raised := by
    rw [hq.raised, hq.passed]
    exact h.raised
  lookups := by rw [hq.lookups, h.lookups]

theorem handleSendTo_inOrder (h : s.InOrder) (error : Option Str) :
    { s with fd := s.fd.handleSendTo error }.InOrder ∧
      Quiet s { s with fd := s.fd.handleSendTo error } := by
  unfold UdpSocket.handleSendTo
  cases hflight : s.fd.inFlight with
  | nil => exact ⟨h, ⟨rfl, rfl, rfl, rfl⟩⟩
  | cons x rest =>
    have hquiet : Quiet s
        { s with fd :=
          { s.fd with
            inFlight := rest
            completions := s.fd.completions ++ [(x, error)]
            pendingWrites := s.fd.pendingWrites - 1
            handling := true } } := ⟨rfl, rfl, rfl, rfl⟩
    have hcompleted := h.completed
    have hpending := h.pending
    rw [hflight] at hcompleted hpending
    refine ⟨h.quiet hquiet ?_ ?_, hquiet⟩
    · simpa using hcompleted
    · simp [hpending]

theorem step_other (h : s.InOrder) {e : Event} (he : ¬ ∃ a, e = .send a) :
    (s.step numeric isIP e).InOrder ∧ Quiet s (s.step numeric isIP e) := by
  have hsame : s.InOrder ∧ Quiet s s := ⟨h, ⟨rfl, rfl, rfl, rfl⟩⟩
  cases e with
  | send a => exact absurd ⟨a, rfl⟩ he
  | answered answer => simpa [step, lookedUp, h.lookups] using hsame
  | completed error =>
    simp only [step]
    split_ifs
    · exact hsame
    · exact handleSendTo_inOrder h error
  | returned =>
    simp only [step]
    split_ifs
    · have hquiet : Quiet s { s with fd := { s.fd with handling := false }.closeIfPending } :=
        ⟨rfl, rfl, rfl, by simp⟩
      exact ⟨h.quiet hquiet (by simpa using h.completed) (by simpa using h.pending), hquiet⟩
    · exact hsame
  | received =>
    simp only [step, UdpSocket.handleReceive]
    split_ifs
    · have hquiet : Quiet s
          { s with fd := { s.fd with pendingReads := s.fd.pendingReads - 1 }.closeIfPending } :=
        ⟨rfl, rfl, rfl, by simp⟩
      exact ⟨h.quiet hquiet (by simpa using h.completed) (by simpa using h.pending), hquiet⟩
    · exact hsame
  | close =>
    simp only [step, UdpSocket.close]
    split_ifs <;> exact ⟨h.quiet ⟨rfl, rfl, rfl, rfl⟩ h.completed h.pending, ⟨rfl, rfl, rfl, rfl⟩⟩

/-- A call of `send` keeps the order, whether or not a send is pending. -/
theorem InOrder.send (h : s.InOrder) (hliteral : Literal isIP (.send a)) :
    (s.send numeric isIP a).InOrder := by
  rcases send_cases numeric isIP (s := s) hliteral with
    ⟨-, message, heq⟩ | ⟨-, data, ip, hbuffer, haddress, heq⟩ | ⟨-, heq⟩
  · rw [heq]
    exact (h.pass a).raise (by simp [Socket.pass]) message
  · rw [heq]
    exact h.begin hbuffer haddress
  · rw [heq]
    exact h.pass a

theorem InOrder.step (h : s.InOrder) {e : Event} (hliteral : Literal isIP e) :
    (s.step numeric isIP e).InOrder := by
  by_cases he : ∃ a, e = .send a
  · obtain ⟨a, rfl⟩ := he
    exact h.send numeric isIP hliteral
  · exact (step_other numeric isIP h he).1

/-! ### What becomes of a datagram -/

/-- The call before `passed` grows is not among those that are told of. -/
theorem InOrder.not_told (h : s.InOrder) :
    ¬ (s.passed.length ∈ s.fd.started.map Sending.call ∨
      s.passed.length ∈ s.raised.map Prod.fst) := by
  rintro (hin | hin)
  · obtain ⟨x, hx, hcall⟩ := List.mem_map.mp hin
    exact absurd (h.call_lt hx) (by omega)
  · obtain ⟨r, hr, hcall⟩ := List.mem_map.mp hin
    exact absurd (h.raised r hr) (by omega)

/-- A datagram is told of exactly when no send is pending where its call reaches the native
socket. -/
theorem noneLost_send (h : s.NoneLost) (hliteral : Literal isIP (.send a)) :
    (s.send numeric isIP a).NoneLost ↔ s.NonePending (.send a) := by
  have hin := h.inOrder.send numeric isIP hliteral
  have hlast (i : ℕ) (hi : i < (s.passed ++ [a]).length) :
      i < s.passed.length ∨ i = s.passed.length := by
    rw [List.length_append, List.length_singleton] at hi
    omega
  rcases send_cases numeric isIP (s := s) hliteral with
    ⟨hnone, message, heq⟩ | ⟨hnone, data, ip, hbuffer, haddress, heq⟩ | ⟨hpending, heq⟩
  · rw [heq] at hin ⊢
    refine iff_of_true ⟨hin, fun i hi => ?_⟩ hnone
    rcases hlast i hi with hi | rfl
    · exact (h.told i hi).imp_right fun hr => by simp [Socket.raise, Socket.pass, hr]
    · exact .inr (by simp [Socket.raise])
  · rw [heq] at hin ⊢
    refine iff_of_true ⟨hin, fun i hi => ?_⟩ hnone
    rcases hlast i hi with hi | rfl
    · exact (h.told i hi).imp_left fun hs => by simp [Socket.begin, Socket.pass, hs]
    · exact .inl (by simp [Socket.begin])
  · rw [heq]
    refine iff_of_false (fun hlost => ?_) hpending
    exact h.inOrder.not_told (hlost.told s.passed.length (by simp [Socket.pass]))

theorem noneLost_step (h : s.NoneLost) {e : Event} (hliteral : Literal isIP e) :
    (s.step numeric isIP e).NoneLost ↔ s.NonePending e := by
  by_cases he : ∃ a, e = .send a
  · obtain ⟨a, rfl⟩ := he
    exact noneLost_send numeric isIP h hliteral
  have hnone : s.NonePending e := by
    cases e with
    | send a => exact absurd ⟨a, rfl⟩ he
    | _ => trivial
  obtain ⟨hin, hquiet⟩ := step_other numeric isIP h.inOrder he
  refine iff_of_true ⟨hin, fun i hi => ?_⟩ hnone
  rw [hquiet.started, hquiet.raised]
  exact h.told i (hquiet.passed ▸ hi)

theorem noneLost_bound (kind : Kind) : (bound kind).NoneLost where
  inOrder :=
    { increasing := List.Pairwise.nil
      theirs := fun x hx => by cases hx
      completed := rfl
      pending := rfl
      raised := fun r hr => by cases hr
      lookups := rfl }
  told := fun i hi => absurd hi (Nat.not_lt_zero i)

/-- No datagram is lost silently exactly when no call of `send` reaches the native socket while a
send is pending. -/
theorem none_lost_iff (kind : Kind) {es : List Event} (hliteral : ∀ e ∈ es, Literal isIP e) :
    (∀ t ∈ statesOf (step numeric isIP) (bound kind) es, t.NoneLost) ↔
      Guarded (step numeric isIP) NonePending (bound kind) es := by
  have hkeeps : ∀ (s : Socket) (e : Event), Literal isIP e → s.InOrder →
      (s.step numeric isIP e).InOrder := fun _ _ he h => h.step numeric isIP he
  have hiff : ∀ (s : Socket) (e : Event), Literal isIP e → s.InOrder → s.NoneLost →
      ((s.step numeric isIP e).NoneLost ↔ s.NonePending e) :=
    fun _ _ he _ h => noneLost_step numeric isIP h he
  exact states_iff_guarded_of hkeeps hiff (noneLost_bound kind).inOrder (noneLost_bound kind) hliteral

/-- A datagram of one byte to a port of the local host. -/
def hello (byte : Char) : SendArguments where
  buffer := .string [byte]
  offset := .number ['0']
  length := .number ['1']
  port := .number "8124".toList
  address := .string "127.0.0.1".toList
  callback := .function

/-- The second send waits for the completion of the first one. -/
theorem none_lost_two :
    (run (step (fun _ => false) fun _ => true) (bound .udp4)
      [.send (hello 'a'), .completed none, .send (hello 'b')]).NoneLost :=
  (none_lost_iff (fun _ => false) (fun _ => true) .udp4 (by simp [Literal])).mpr
    (by simp [NonePending, Reaches, hello, hasNumberType, step, send, pass, sendCall, sendto,
      UdpSocket.sendTo, isNumber, bound, UdpSocket.bound, LuaValue.toString?,
      UdpSocket.handleSendTo]) _ (run_mem_statesOf ..)

/-- Of two sends in a row the second one is neither handed over nor told of. -/
theorem second_send_lost :
    ¬ ∀ (numeric isIP : Str → Bool) (kind : Kind) (es : List Event),
      (∀ e ∈ es, Literal isIP e) →
        ∀ t ∈ statesOf (step numeric isIP) (bound kind) es, t.NoneLost := by
  intro h
  have hlost := h (fun _ => false) (fun _ => true) .udp4 [.send (hello 'a'), .send (hello 'b')]
    (by simp [Literal]) _ (run_mem_statesOf ..)
  have htold := hlost.told 1 (by
    simp [hello, hasNumberType, step, send, pass, sendCall, sendto, UdpSocket.sendTo, isNumber,
      bound, UdpSocket.bound, LuaValue.toString?])
  simp [hello, hasNumberType, step, send, pass, sendCall, sendto, UdpSocket.sendTo, isNumber,
    bound, UdpSocket.bound, LuaValue.toString?] at htold

end Socket

end

end LuaNode.Datagram
