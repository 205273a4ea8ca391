import LuaNode.Library.LuaStack
import LuaNode.Library.Runs

/-!
# Calls that wait for the socket

`ClientRequest:_deferToConnect` of `http.lua` and its callers. A call runs at once, in the 'socket' of the
request or in the 'connect' of the socket. The two events call the listeners one after the other, and
what a callback does are events between two `next`. The socket has the methods that it is asked for,
and they return; whoever calls `abort` catches its error.
-/

namespace LuaNode.ClientRequest

/-- A call of `_deferToConnect`. -/
structure DeferredCall where
  method : Option Str
  arguments : List LuaValue
  /-- it is `self._deferToConnect(method)`, with a dot -/
  dotted : Bool

inductive Happening
  /-- `self.socket[method](self.socket, ...)` of the call with this number -/
  | invoked (call : ℕ) (method : Str) (arguments : List LuaValue)
  /-- `cb()` -/
  | calledBack (call : ℕ)
  | raised (call : ℕ) (message : Str)

def Happening.call : Happening → ℕ
  | invoked call _ _ => call
  | calledBack call => call
  | raised call _ => call

/-! ### Packing and unpacking -/

/-- `t[k]` of `t = { n = select("#", ...), ... }`. -/
def index (arguments : List LuaValue) : ℕ → LuaValue
  | 0 => .nil
  | k + 1 => arguments.getD k .nil

/-- What `#t` may be. -/
def IsBorder (arguments : List LuaValue) (j : ℕ) : Prop :=
  (j = 0 ∨ (index arguments j).isNil = false) ∧ (index arguments (j + 1)).isNil = true

/-- `unpack(t, i, j)`. -/
def unpack (arguments : List LuaValue) (i j : ℕ) : List LuaValue :=
  (List.range (j + 1 - i)).map fun k => index arguments (i + k)

section

-- the border that `#` finds
variable (border : (arguments : List LuaValue) → {j : ℕ // IsBorder arguments j})

/-- `unpack(arguments, arguments.n)`: from the last argument on, up to `#arguments`. -/
def unpackLast (arguments : List LuaValue) : List LuaValue :=
  unpack arguments arguments.length (border arguments).val

namespace DeferredCall

variable (c : DeferredCall)

/-- The last argument is a function. -/
def hasCallback : Bool := (index c.arguments c.arguments.length).isFunction

/-- What the two listeners do. -/
def execute (call : ℕ) : List Happening :=
  (c.method.toList.map fun method => .invoked call method (unpackLast border c.arguments)) ++
    if c.hasCallback then [.calledBack call] else []

/-- With a dot `self` is the string "destroy", whose field `socket` is nil. -/
def outcome (call : ℕ) : List Happening :=
  if c.dotted then [.raised call "attempt to call method 'once' (a nil value)".toList]
  else c.execute border call

/-- One invocation with the arguments given, and then the callback. -/
def expected (call : ℕ) : List Happening :=
  (c.method.toList.map fun method => .invoked call method c.arguments) ++
    if c.hasCallback then [.calledBack call] else []

/-- The call is made with a colon, and with one argument that is not nil when a method is called. -/
def Plain : Prop :=
  c.dotted = false ∧ (c.method = none ∨ ∃ v : LuaValue, v.isNil = false ∧ c.arguments = [v])

end DeferredCall

/-! ### The request -/

/-- A listener that an emission has yet to call. -/
inductive Waiter
  /-- `onSocket` of a call -/
  | socket (call : ℕ)
  /-- the listener of 'connect' of a call -/
  | connect (call : ℕ)
  deriving DecidableEq

structure DeferringRequest where
  /-- `self.socket.writable`, when there is a socket -/
  socket : Option Bool
  /-- 'connect' has been emitted -/
  connected : Bool
  /-- the calls of `_deferToConnect` so far -/
  made : List DeferredCall
  /-- those whose `onSocket` listens to 'socket' -/
  onSocket : List ℕ
  /-- those that listen to 'connect' of the socket -/
  onConnect : List ℕ
  /-- the emissions that run, the innermost first -/
  frames : List (List Waiter)
  log : List Happening

inductive DeferEvent
  /-- a call of `_deferToConnect` with a colon -/
  | defer (method : Option Str) (arguments : List LuaValue)
  | setNoDelay (arguments : List LuaValue)
  | setSocketKeepAlive (arguments : List LuaValue)
  | abort
  /-- a socket is assigned -/
  | assigned (writable : Bool)
  | connected
  /-- the socket is no longer writable -/
  | closed
  /-- an emission calls its next listener, or ends -/
  | next

namespace DeferringRequest

variable (s : DeferringRequest)

def fresh : DeferringRequest := ⟨none, false, [], [], [], [], []⟩

def invoke (call : ℕ) : DeferringRequest :=
  match s.made[call]? with
  | none => s
  | some c => { s with log := s.log ++ c.execute border call }

/-- The local function `onSocket`. -/
def atSocket (call : ℕ) : DeferringRequest :=
  if s.socket = some true then s.invoke border call
  else { s with onConnect := s.onConnect ++ [call] }

def deferToConnect (method : Option Str) (arguments : List LuaValue) : DeferringRequest :=
  let call := s.made.length
  let c : DeferredCall := ⟨method, arguments, false⟩
  let t := { s with made := s.made ++ [c] }
  if t.socket = none then { t with onSocket := t.onSocket ++ [call] } else t.atSocket border call

def setNoDelay (arguments : List LuaValue) : DeferringRequest :=
  s.deferToConnect border (some "setNoDelay".toList) arguments

def setSocketKeepAlive (arguments : List LuaValue) : DeferringRequest :=
  s.deferToConnect border (some "setKeepAlive".toList) arguments

/-- `abort`: it destroys the socket, or calls `_deferToConnect` with a dot. -/
def abort : DeferringRequest :=
  if s.socket = none then
    let c : DeferredCall := ⟨some "destroy".toList, [], true⟩
    { s with made := s.made ++ [c], log := s.log ++ c.outcome border s.made.length }
  else { s with socket := some false }

/-- A listener that `once` has added is called. -/
def wake : Waiter → DeferringRequest
  | .socket call => { s with onSocket := s.onSocket.erase call }.atSocket border call
  | .connect call => { s with onConnect := s.onConnect.erase call }.invoke border call

def next : DeferringRequest :=
  match s.frames with
  | [] => s
  | [] :: frames => { s with frames }
  | (w :: rest) :: frames => { s with frames := rest :: frames }.wake border w

/-- A request is assigned one socket, which connects once. -/
def step : DeferEvent → DeferringRequest
  | .defer method arguments => s.deferToConnect border method arguments
  | .setNoDelay arguments => s.setNoDelay border arguments
  | .setSocketKeepAlive arguments => s.setSocketKeepAlive border arguments
  | .abort => s.abort border
  | .assigned writable =>
    if s.socket = none then
      { s with socket := some writable, frames := s.onSocket.map .socket :: s.frames }
    else s
  | .connected =>
    if s.socket = some false ∧ s.connected = false then
      { s with
        socket := some true
        connected := true
        frames := s.onConnect.map .connect :: s.frames }
    else s
  | .closed => if s.socket = none then s else { s with socket := some false }
  | .next => s.next border

def Waiting (call : ℕ) : Prop := call ∈ s.onSocket ∨ call ∈ s.onConnect

/-- What has happened for one call. -/
def happened (call : ℕ) : List Happening := s.log.filter fun h => h.call = call

/-- The socket is writable, and no emission runs. -/
def Settled : Prop := s.socket = some true ∧ s.frames = []

/-- The waiting calls, each in its list once, and the listeners that the emissions have yet to
call. -/
structure Queued : Prop where
  nodup : (s.onSocket ++ s.onConnect).Nodup
  made : ∀ i, s.Waiting i → i < s.made.length
  colon : ∀ i c, s.Waiting i → s.made[i]? = some c → c.dotted = false
  frames : s.frames.flatten.Nodup
  socket : ∀ i, .socket i ∈ s.frames.flatten → i ∈ s.onSocket
  connect : ∀ i, .connect i ∈ s.frames.flatten → i ∈ s.onConnect
  unassigned : s.socket = none → s.frames.flatten = [] ∧ s.onConnect = []
  unconnected : s.connected = false → ∀ i, .connect i ∉ s.frames.flatten
  /-- who waits for an event that has come is about to be called -/
  assigned : s.socket ≠ none → ∀ i ∈ s.onSocket, .socket i ∈ s.frames.flatten
  writable : s.socket = some true → ∀ i ∈ s.onConnect, .connect i ∈ s.frames.flatten

/-- Nothing has happened for a call that waits, and to another one everything. -/
structure Logged : Prop where
  known : ∀ h ∈ s.log, h.call < s.made.length
  waiting : ∀ i, s.Waiting i → s.happened i = []
  done : ∀ i c, s.made[i]? = some c → ¬ s.Waiting i → s.happened i = c.outcome border i

end DeferringRequest

variable {border} {s : DeferringRequest}

/-! ### One call -/

theorem execute_call (c : DeferredCall) (i : ℕ) : ∀ h ∈ c.execute border i, h.call = i := by
  intro h hh
  rcases List.mem_append.mp hh with hh | hh
  · obtain ⟨method, -, rfl⟩ := List.mem_map.mp hh
    rfl
  · split_ifs at hh with hcallback
    · rw [List.mem_singleton.mp hh]
      rfl
    · cases hh

theorem outcome_call (c : DeferredCall) (i : ℕ) : ∀ h ∈ c.outcome border i, h.call = i := by
  unfold DeferredCall.outcome
  split_ifs
  · intro h hh
    rw [List.mem_singleton.mp hh]
    rfl
  · exact execute_call c i

/-- The arguments come back from `unpack` exactly when there is one, and it is not nil. -/
theorem unpackLast_iff (arguments : List LuaValue) :
    unpackLast border arguments = arguments ↔
      ∃ v : LuaValue, v.isNil = false ∧ arguments = [v] := by
  obtain ⟨hborder, hafter⟩ := (border arguments).property
  have hbeyond (k : ℕ) (hk : arguments.length < k) : index arguments k = .nil := by
    obtain ⟨k, rfl⟩ : ∃ m, k = m + 1 := ⟨k - 1, by omega⟩
    simp [index, List.getElem?_eq_none (show arguments.length ≤ k by omega)]
  have hle : (border arguments).val ≤ arguments.length := by
    by_contra hgt
    rcases hborder with hzero | hvalue
    · omega
    · rw [hbeyond _ (by omega)] at hvalue
      cases hvalue
  constructor
  · intro hsame
    have hlength := congrArg List.length hsame
    simp only [unpackLast, unpack, List.length_map, List.length_range] at hlength
    have hone : arguments.length = 1 := by omega
    obtain ⟨v, rfl⟩ := List.length_eq_one_iff.mp hone
    have hlast : (border [v]).val = 1 := by
      simp only [List.length_singleton] at hlength
      omega
    refine ⟨v, ?_, rfl⟩
    simpa [hlast, index] using hborder
  · rintro ⟨v, hv, rfl⟩
    have hlast : (border [v]).val = 1 := by
      have hnone : (border [v]).val ≠ 0 := by
        intro hzero
        rw [hzero] at hafter
        simp [index, hv] at hafter
      simp only [List.length_singleton] at hle
      omega
    simp [unpackLast, unpack, hlast, index]

/-- What happens for a call is what is expected of it exactly when it is plain. -/
theorem outcome_iff (c : DeferredCall) (i : ℕ) :
    c.outcome border i = c.expected i ↔ c.Plain := by
  unfold DeferredCall.outcome DeferredCall.Plain
  split_ifs with hdotted
  · refine iff_of_false (fun h => ?_) (by simp [hdotted])
    have hraised : Happening.raised i "attempt to call method 'once' (a nil value)".toList ∈
        c.expected i := by
      rw [← h]
      exact List.mem_singleton_self _
    rcases List.mem_append.mp hraised with hin | hin
    · obtain ⟨method, -, hmethod⟩ := List.mem_map.mp hin
      cases hmethod
    · split_ifs at hin with hcallback
      · cases List.mem_singleton.mp hin
      · cases hin
  · unfold DeferredCall.execute DeferredCall.expected
    rw [List.append_cancel_right_eq]
    cases hmethod : c.method with
    | none => simp [hdotted]
    | some method => simp [hdotted, unpackLast_iff]

/-! ### The log -/

namespace DeferringRequest

theorem filter_call {hs : List Happening} {i : ℕ} (hhs : ∀ h ∈ hs, h.call = i) (j : ℕ) :
    (hs.filter fun h => h.call = j) = if j = i then hs else [] := by
  split_ifs with hji
  · exact List.filter_eq_self.mpr fun h hh => by simp [hhs h hh, hji]
  · exact List.filter_eq_nil_iff.mpr fun h hh => by simp [hhs h hh, Ne.symm hji]

variable (border s) in
/-- All is as `Logged` says, but for one call that has been taken off its list or is new. -/
structure LoggedBut (i : ℕ) : Prop where
  known : ∀ h ∈ s.log, h.call < s.made.length
  waiting : ∀ j, s.Waiting j → s.happened j = []
  done : ∀ j c, j ≠ i → s.made[j]? = some c → ¬ s.Waiting j → s.happened j = c.outcome border j
  taken : ¬ s.Waiting i
  fresh : s.happened i = []

/-- What is to happen for the call happens. -/
theorem LoggedBut.happen {i : ℕ} (h : s.LoggedBut border i) {c : DeferredCall}
    (hc : s.made[i]? = some c) :
    { s with log := s.log ++ c.outcome border i }.Logged border := by
  have hlt : i < s.made.length := (List.getElem?_eq_some_iff.mp hc).1
  have hcalls : ∀ x ∈ c.outcome border i, x.call = i := outcome_call c i
  have hhappened (j : ℕ) : ({ s with log := s.log ++ c.outcome border i } : DeferringRequest).happened j =
      s.happened j ++ if j = i then c.outcome border i else [] := by
    rw [happened, List.filter_append, filter_call hcalls]
    rfl
  constructor
  · intro x hx
    rcases List.mem_append.mp hx with hx | hx
    · exact h.known x hx
    · rw [hcalls x hx]
      exact hlt
  · intro j hj
    have hji : j ≠ i := fun hji => h.taken (hji ▸ hj)
    rw [hhappened, if_neg hji, List.append_nil]
    exact h.waiting j hj
  · intro j d hd hj
    rw [hhappened]
    by_cases hji : j = i
    · subst hji
      obtain rfl : c = d := by
        rw [hc] at hd
        exact Option.some.inj hd
      simp [h.fresh]
    · rw [if_neg hji, List.append_nil]
      exact h.done j d hji hd hj

theorem LoggedBut.invoke {i : ℕ} (h : s.LoggedBut border i) {c : DeferredCall}
    (hc : s.made[i]? = some c) (hcolon : c.dotted = false) : (s.invoke border i).Logged border := by
  have houtcome : c.outcome border i = c.execute border i := by
    simp [DeferredCall.outcome, hcolon]
  have hhappened := h.happen hc
  rw [houtcome] at hhappened
  simpa only [DeferringRequest.invoke, hc] using hhappened

/-- The call is put on a list. -/
theorem LoggedBut.wait {i : ℕ} (h : s.LoggedBut border i) {t : DeferringRequest}
    (hlog : t.log = s.log) (hmade : t.made = s.made)
    (hwaiting : ∀ j, t.Waiting j ↔ s.Waiting j ∨ j = i) : t.Logged border where
  known := by
    rw [hlog, hmade]
    exact h.known
  waiting := by
    intro j hj
    rw [happened, hlog]
    rcases (hwaiting j).mp hj with hj | rfl
    · exact h.waiting j hj
    · exact h.fresh
  done := by
    intro j c hc hj
    rw [hmade] at hc
    obtain ⟨hj, hji⟩ := not_or.mp (mt (hwaiting j).mpr hj)
    rw [happened, hlog]
    exact h.done j c hji hc hj

/-- A new call. -/
theorem Logged.made (h : s.Logged border) (hq : s.Queued) (c : DeferredCall) :
    { s with made := s.made ++ [c] }.LoggedBut border s.made.length where
  known := by
    intro x hx
    have := h.known x hx
    simp only [List.length_append, List.length_singleton]
    omega
  waiting := h.waiting
  done := by
    intro j d hji hd hj
    have hlt : j < s.made.length := by
      have := (List.getElem?_eq_some_iff.mp hd).1
      simp only [List.length_append, List.length_singleton] at this
      omega
    rw [List.getElem?_append_left hlt] at hd
    exact h.done j d hd hj
  taken := fun hw => lt_irrefl _ (hq.made _ hw)
  fresh := by
    refine List.filter_eq_nil_iff.mpr fun x hx => ?_
    have := h.known x hx
    simp only [decide_eq_true_eq]
    omega

/-- A call is taken off its list. -/
theorem Logged.taken (h : s.Logged border) {i : ℕ} (hi : s.Waiting i) {t : DeferringRequest}
    (hlog : t.log = s.log) (hmade : t.made = s.made)
    (hwaiting : ∀ j, t.Waiting j ↔ s.Waiting j ∧ j ≠ i) : t.LoggedBut border i where
  known := by
    rw [hlog, hmade]
    exact h.known
  waiting := by
    intro j hj
    rw [happened, hlog]
    exact h.waiting j ((hwaiting j).mp hj).1
  done := by
    intro j c hji hc hj
    rw [happened, hlog]
    rw [hmade] at hc
    exact h.done j c hc fun hw => hj ((hwaiting j).mpr ⟨hw, hji⟩)
  taken := fun hw => ((hwaiting i).mp hw).2 rfl
  fresh := by
    rw [happened, hlog]
    exact h.waiting i hi

theorem LoggedBut.atSocket {i : ℕ} (h : s.LoggedBut border i) {c : DeferredCall}
    (hc : s.made[i]? = some c) (hcolon : c.dotted = false) : (s.atSocket border i).Logged border := by
  unfold DeferringRequest.atSocket
  split_ifs
  · exact h.invoke hc hcolon
  · refine h.wait rfl rfl fun j => ?_
    simp only [Waiting, List.mem_append, List.mem_singleton, or_assoc]

/-! ### The lists -/

/-- Whatever is logged. -/
theorem Queued.log (h : s.Queued) (log : List Happening) : { s with log }.Queued where
  nodup := h.nodup
  made := h.made
  colon := h.colon
  frames := h.frames
  socket := h.socket
  connect := h.connect
  unassigned := h.unassigned
  unconnected := h.unconnected
  assigned := h.assigned
  writable := h.writable

theorem Queued.invoke (h : s.Queued) (i : ℕ) : (s.invoke border i).Queued := by
  unfold DeferringRequest.invoke
  cases s.made[i]? with
  | none => exact h
  | some c => exact h.log _

/-- A call that is not on a list. -/
theorem Queued.pass (h : s.Queued) (c : DeferredCall) : { s with made := s.made ++ [c] }.Queued where
  nodup := h.nodup
  made := by
    intro i hi
    have := h.made i hi
    simp only [List.length_append, List.length_singleton]
    omega
  colon := by
    intro i d hi hd
    rw [List.getElem?_append_left (h.made i hi)] at hd
    exact h.colon i d hi hd
  frames := h.frames
  socket := h.socket
  connect := h.connect
  unassigned := h.unassigned
  unconnected := h.unconnected
  assigned := h.assigned
  writable := h.writable

/-- The calls that wait, and one more that has been made with a colon. -/
theorem Queued.added (h : s.Queued) {i : ℕ} {c : DeferredCall} (hc : s.made[i]? = some c)
    (hcolon : c.dotted = false) (j : ℕ) (hj : s.Waiting j ∨ j = i) :
    j < s.made.length ∧ ∀ d, s.made[j]? = some d → d.dotted = false := by
  rcases hj with hj | rfl
  · exact ⟨h.made j hj, fun d hd => h.colon j d hj hd⟩
  · refine ⟨(List.getElem?_eq_some_iff.mp hc).1, fun d hd => ?_⟩
    rw [hc] at hd
    rw [← Option.some.inj hd]
    exact hcolon

/-- A call that begins to listen to 'connect'. -/
theorem Queued.listen (h : s.Queued) {i : ℕ} {c : DeferredCall} (hi : ¬ s.Waiting i)
    (hc : s.made[i]? = some c) (hcolon : c.dotted = false) (hsocket : s.socket = some false) :
    { s with onConnect := s.onConnect ++ [i] }.Queued := by
  have hadded (j : ℕ) (hj : j ∈ s.onSocket ∨ j ∈ s.onConnect ++ [i]) :=
    h.added hc hcolon j (by simpa [Waiting, or_assoc] using hj)
  exact
    { nodup := by
        rw [← List.append_assoc]
        refine List.Nodup.append h.nodup (List.nodup_singleton i) ?_
        intro j hj hji
        rw [List.mem_singleton.mp hji] at hj
        exact hi (List.mem_append.mp hj)
      made := fun j hj => (hadded j hj).1
      colon := fun j d hj => (hadded j hj).2 d
      frames := h.frames
      socket := h.socket
      connect := fun j hj => List.mem_append_left _ (h.connect j hj)
      unassigned := fun hnone => by simp [hsocket] at hnone
      unconnected := h.unconnected
      assigned := h.assigned
      writable := fun htrue => by simp [hsocket] at htrue }

theorem Queued.atSocket (h : s.Queued) {i : ℕ} {c : DeferredCall} (hi : ¬ s.Waiting i)
    (hc : s.made[i]? = some c) (hcolon : c.dotted = false) (hsocket : s.socket ≠ none) :
    (s.atSocket border i).Queued := by
  unfold DeferringRequest.atSocket
  split_ifs with htrue
  · exact h.invoke i
  · refine h.listen hi hc hcolon ?_
    obtain ⟨writable, hwritable⟩ := Option.ne_none_iff_exists'.mp hsocket
    cases writable <;> simp_all

/-- A new call that begins to listen to 'socket'. -/
theorem Queued.listenSocket (h : s.Queued) {i : ℕ} {c : DeferredCall} (hi : ¬ s.Waiting i)
    (hc : s.made[i]? = some c) (hcolon : c.dotted = false) (hsocket : s.socket = none) :
    { s with onSocket := s.onSocket ++ [i] }.Queued := by
  have hadded (j : ℕ) (hj : j ∈ s.onSocket ++ [i] ∨ j ∈ s.onConnect) :=
    h.added hc hcolon j (by simpa [Waiting, or_right_comm] using hj)
  exact
    { nodup := by
        rw [List.append_assoc, List.singleton_append, List.nodup_middle, List.nodup_cons]
        exact ⟨fun hin => hi (List.mem_append.mp hin), h.nodup⟩
      made := fun j hj => (hadded j hj).1
      colon := fun j d hj => (hadded j hj).2 d
      frames := h.frames
      socket := fun j hj => List.mem_append_left _ (h.socket j hj)
      connect := h.connect
      unassigned := h.unassigned
      unconnected := h.unconnected
      assigned := fun hsome => absurd hsocket hsome
      writable := h.writable }

/-- An emission is about to call a listener, which takes its call off the list. -/
theorem Queued.take (h : s.Queued) {w : Waiter} {rest : List Waiter} {frames : List (List Waiter)}
    (hframes : s.frames = (w :: rest) :: frames) {onSocket onConnect : List ℕ}
    (hsocket : onSocket.Sublist s.onSocket) (hconnect : onConnect.Sublist s.onConnect)
    (hkeptSocket : ∀ i ∈ s.onSocket, i ∈ onSocket ↔ .socket i ≠ w)
    (hkeptConnect : ∀ i ∈ s.onConnect, i ∈ onConnect ↔ .connect i ≠ w) :
    { s with frames := rest :: frames, onSocket, onConnect }.Queued := by
  have hflat : s.frames.flatten = w :: (rest :: frames).flatten := by
    rw [hframes]
    rfl
  have hwas (x : Waiter) (hx : x ∈ (rest :: frames).flatten) : x ∈ s.frames.flatten := by
    rw [hflat]
    exact List.mem_cons_of_mem _ hx
  have hfresh := h.frames
  rw [hflat, List.nodup_cons] at hfresh
  -- a listener that is still to be called is not the one that is called now
  have hother (x : Waiter) (hx : x ∈ (rest :: frames).flatten) : x ≠ w := by
    rintro rfl
    exact hfresh.1 hx
  have hwaiting (i : ℕ) (hi : i ∈ onSocket ∨ i ∈ onConnect) : s.Waiting i :=
    hi.imp (fun hi => hsocket.subset hi) fun hi => hconnect.subset hi
  have hstill {x : Waiter} (hx : x ∈ s.frames.flatten) (hne : x ≠ w) :
      x ∈ (rest :: frames).flatten := by
    rw [hflat] at hx
    exact (List.mem_cons.mp hx).resolve_left hne
  exact
    { nodup := h.nodup.sublist (hsocket.append hconnect)
      made := fun i hi => h.made i (hwaiting i hi)
      colon := fun i c hi => h.colon i c (hwaiting i hi)
      frames := hfresh.2
      socket := fun i hi => (hkeptSocket i (h.socket i (hwas _ hi))).mpr (hother _ hi)
      connect := fun i hi => (hkeptConnect i (h.connect i (hwas _ hi))).mpr (hother _ hi)
      unassigned := by
        intro hnone
        have hempty := (h.unassigned hnone).1
        rw [hflat] at hempty
        cases hempty
      unconnected := fun hfalse i hi => h.unconnected hfalse i (hwas _ hi)
      assigned := by
        intro hsome i hi
        have hin := hsocket.subset hi
        exact hstill (h.assigned hsome i hin) ((hkeptSocket i hin).mp hi)
      writable := by
        intro htrue i hi
        have hin := hconnect.subset hi
        exact hstill (h.writable htrue i hin) ((hkeptConnect i hin).mp hi) }

/-! ### Runs -/

variable (border s) in
/-- What every step keeps. -/
structure Kept : Prop where
  queued : s.Queued
  logged : s.Logged border

theorem Kept.defer (h : s.Kept border) (method : Option Str) (arguments : List LuaValue) :
    (s.deferToConnect border method arguments).Kept border := by
  have hqueued := h.queued.pass ⟨method, arguments, false⟩
  have hbut := h.logged.made h.queued ⟨method, arguments, false⟩
  have hc : (s.made ++ [(⟨method, arguments, false⟩ : DeferredCall)])[s.made.length]? =
      some ⟨method, arguments, false⟩ := by simp
  unfold deferToConnect
  dsimp only
  split_ifs with hsocket
  · refine ⟨hqueued.listenSocket hbut.taken hc rfl hsocket, hbut.wait rfl rfl fun j => ?_⟩
    simp only [Waiting, List.mem_append, List.mem_singleton]
    tauto
  · exact ⟨hqueued.atSocket hbut.taken hc rfl hsocket, hbut.atSocket hc rfl⟩

/-- The socket is no longer writable. -/
theorem Kept.closed (h : s.Kept border) (hsocket : s.socket ≠ none) :
    { s with socket := some false }.Kept border where
  queued :=
    { nodup := h.queued.nodup
      made := h.queued.made
      colon := h.queued.colon
      frames := h.queued.frames
      socket := h.queued.socket
      connect := h.queued.connect
      unassigned := by simp
      unconnected := h.queued.unconnected
      assigned := fun _ => h.queued.assigned hsocket
      writable := by simp }
  logged := ⟨h.logged.known, h.logged.waiting, h.logged.done⟩

theorem Kept.abort (h : s.Kept border) : (s.abort border).Kept border := by
  unfold DeferringRequest.abort
  dsimp only
  split_ifs with hsocket
  · have hbut := h.logged.made h.queued ⟨some "destroy".toList, [], true⟩
    exact ⟨(h.queued.pass _).log _, hbut.happen (by simp)⟩
  · exact h.closed hsocket

theorem Kept.assigned (h : s.Kept border) (hsocket : s.socket = none) (writable : Bool) :
    { s with
      socket := some writable
      frames := s.onSocket.map .socket :: s.frames }.Kept border where
  queued := by
    obtain ⟨hframes, hconnect⟩ := h.queued.unassigned hsocket
    have hnodup := h.queued.nodup
    have hinjective : Function.Injective Waiter.socket := fun _ _ hij => Waiter.socket.inj hij
    have hflat : (s.onSocket.map Waiter.socket :: s.frames).flatten = s.onSocket.map .socket := by
      rw [List.flatten_cons, hframes, List.append_nil]
    exact
      { nodup := hnodup
        made := h.queued.made
        colon := h.queued.colon
        frames := by
          rw [hflat]
          exact (List.nodup_append.mp hnodup).1.map hinjective
        socket := fun i hi => by simpa [hflat] using hi
        connect := fun i hi => by simp [hflat] at hi
        unassigned := by simp
        unconnected := fun _ i hi => by simp [hflat] at hi
        assigned := fun _ i hi => by simpa [hflat] using hi
        writable := fun _ i hi => by simp [hconnect] at hi }
  logged := ⟨h.logged.known, h.logged.waiting, h.logged.done⟩

theorem Kept.connected (h : s.Kept border) (hsocket : s.socket = some false)
    (hconnected : s.connected = false) :
    { s with
      socket := some true
      connected := true
      frames := s.onConnect.map .connect :: s.frames }.Kept border where
  queued := by
    have hq := h.queued
    have hinjective : Function.Injective Waiter.connect := fun _ _ hij => Waiter.connect.inj hij
    have hnone := hq.unconnected hconnected
    exact
      { nodup := hq.nodup
        made := hq.made
        colon := hq.colon
        frames := by
          rw [List.flatten_cons]
          refine List.Nodup.append ((List.nodup_append.mp hq.nodup).2.1.map hinjective) hq.frames ?_
          intro w hw hin
          obtain ⟨i, -, rfl⟩ := List.mem_map.mp hw
          exact hnone i hin
        socket := by
          intro i hi
          rw [List.flatten_cons] at hi
          exact hq.socket i (by simpa using hi)
        connect := by
          intro i hi
          rw [List.flatten_cons] at hi
          rcases List.mem_append.mp hi with hi | hi
          · simpa using hi
          · exact absurd hi (hnone i)
        unassigned := by simp
        unconnected := by simp
        assigned := by
          intro _ i hi
          rw [List.flatten_cons]
          exact List.mem_append_right _ (hq.assigned (by simp [hsocket]) i hi)
        writable := by
          intro _ i hi
          rw [List.flatten_cons]
          exact List.mem_append_left _ (List.mem_map_of_mem hi) }
  logged := ⟨h.logged.known, h.logged.waiting, h.logged.done⟩

/-- What is known of a call that waits. -/
theorem Queued.call (h : s.Queued) {i : ℕ} (hi : s.Waiting i) :
    ∃ c, s.made[i]? = some c ∧ c.dotted = false := by
  obtain ⟨c, hc⟩ : ∃ c, s.made[i]? = some c := ⟨_, List.getElem?_eq_getElem (h.made i hi)⟩
  exact ⟨c, hc, h.colon i c hi hc⟩

theorem Kept.wakeSocket (h : s.Kept border) {i : ℕ} {rest : List Waiter}
    {frames : List (List Waiter)} (hframes : s.frames = (.socket i :: rest) :: frames) :
    ({ s with frames := rest :: frames }.wake border (.socket i)).Kept border := by
  have hq := h.queued
  obtain ⟨hnodup, -, hdisjoint⟩ := List.nodup_append.mp hq.nodup
  have hi : i ∈ s.onSocket := hq.socket i (by simp [hframes])
  have hsocket : s.socket ≠ none := by
    intro hnone
    have hempty := (hq.unassigned hnone).1
    simp [hframes] at hempty
  obtain ⟨c, hc, hcolon⟩ := hq.call (.inl hi)
  have herased : (s.onSocket.erase i).Sublist s.onSocket := List.erase_sublist
  have hqueued := hq.take hframes herased (List.Sublist.refl _)
    (fun j hj => by simp [hnodup.mem_erase_iff, hj]) (by simp)
  have hbut : { s with frames := rest :: frames, onSocket := s.onSocket.erase i }.LoggedBut border i :=
    h.logged.taken (.inl hi) rfl rfl fun j => by
      have hconnect : i ∉ s.onConnect := fun hin => hdisjoint i hi i hin rfl
      simp only [Waiting, hnodup.mem_erase_iff]
      constructor
      · rintro (⟨hji, hj⟩ | hj)
        · exact ⟨.inl hj, hji⟩
        · exact ⟨.inr hj, fun hji => hconnect (hji ▸ hj)⟩
      · rintro ⟨hj | hj, hji⟩
        · exact .inl ⟨hji, hj⟩
        · exact .inr hj
  exact ⟨hqueued.atSocket hbut.taken hc hcolon hsocket, hbut.atSocket hc hcolon⟩

theorem Kept.wakeConnect (h : s.Kept border) {i : ℕ} {rest : List Waiter}
    {frames : List (List Waiter)} (hframes : s.frames = (.connect i :: rest) :: frames) :
    ({ s with frames := rest :: frames }.wake border (.connect i)).Kept border := by
  have hq := h.queued
  obtain ⟨-, hnodup, hdisjoint⟩ := List.nodup_append.mp hq.nodup
  have hi : i ∈ s.onConnect := hq.connect i (by simp [hframes])
  obtain ⟨c, hc, hcolon⟩ := hq.call (.inr hi)
  have herased : (s.onConnect.erase i).Sublist s.onConnect := List.erase_sublist
  have hqueued := hq.take hframes (List.Sublist.refl _) herased (by simp)
    fun j hj => by simp [hnodup.mem_erase_iff, hj]
  have hbut : { s with frames := rest :: frames, onConnect := s.onConnect.erase i }.LoggedBut border i :=
    h.logged.taken (.inr hi) rfl rfl fun j => by
      have hsocket : i ∉ s.onSocket := fun hin => hdisjoint i hin i hi rfl
      simp only [Waiting, hnodup.mem_erase_iff]
      constructor
      · rintro (hj | ⟨hji, hj⟩)
        · exact ⟨.inl hj, fun hji => hsocket (hji ▸ hj)⟩
        · exact ⟨.inr hj, hji⟩
      · rintro ⟨hj | hj, hji⟩
        · exact .inl hj
        · exact .inr ⟨hji, hj⟩
  exact ⟨hqueued.invoke i, hbut.invoke hc hcolon⟩

theorem Kept.next (h : s.Kept border) : (s.next border).Kept border := by
  unfold DeferringRequest.next
  split
  · exact h
  · rename_i frames hframes
    have hflat : s.frames.flatten = frames.flatten := by
      rw [hframes]
      rfl
    have hq := h.queued
    refine ⟨?_, ⟨h.logged.known, h.logged.waiting, h.logged.done⟩⟩
    exact
      { nodup := hq.nodup
        made := hq.made
        colon := hq.colon
        frames := hflat ▸ hq.frames
        socket := hflat ▸ hq.socket
        connect := hflat ▸ hq.connect
        unassigned := hflat ▸ hq.unassigned
        unconnected := hflat ▸ hq.unconnected
        assigned := hflat ▸ hq.assigned
        writable := hflat ▸ hq.writable }
  · rename_i w rest frames hframes
    cases w with
    | socket i => exact h.wakeSocket hframes
    | connect i => exact h.wakeConnect hframes

theorem Kept.step (h : s.Kept border) (e : DeferEvent) : (s.step border e).Kept border := by
  cases e with
  | defer method arguments => exact h.defer method arguments
  | setNoDelay arguments => exact h.defer _ arguments
  | setSocketKeepAlive arguments => exact h.defer _ arguments
  | abort => exact h.abort
  | assigned writable =>
    simp only [DeferringRequest.step]
    split_ifs with hsocket
    · exact h.assigned hsocket writable
    · exact h
  | connected =>
    simp only [DeferringRequest.step]
    split_ifs with hready
    · exact h.connected hready.1 hready.2
    · exact h
  | closed =>
    simp only [DeferringRequest.step]
    split_ifs with hsocket
    · exact h
    · exact h.closed hsocket
  | next => exact h.next

theorem kept_fresh : fresh.Kept border where
  queued :=
    { nodup := List.nodup_nil
      made := by simp [fresh, Waiting]
      colon := by simp [fresh, Waiting]
      frames := by simp [fresh]
      socket := by simp [fresh]
      connect := by simp [fresh]
      unassigned := by simp [fresh]
      unconnected := by simp [fresh]
      assigned := by simp [fresh]
      writable := by simp [fresh] }
  logged := ⟨by simp [fresh], by simp [fresh, happened], by simp [fresh]⟩

/-- Nobody waits once the socket is writable and no emission runs. -/
theorem Queued.settled (h : s.Queued) (hsettled : s.Settled) (i : ℕ) : ¬ s.Waiting i := by
  obtain ⟨hsocket, hframes⟩ := hsettled
  rintro (hi | hi)
  · have hin := h.assigned (by simp [hsocket]) i hi
    simp [hframes] at hin
  · have hin := h.writable hsocket i hi
    simp [hframes] at hin

variable (border)

theorem kept_run (es : List DeferEvent) : (run (step border) fresh es).Kept border :=
  run_invariant (fun _ e h => h.step e) kept_fresh es

/-- While a call waits nothing has happened for it, and the socket is not writable or its listener is
about to be called. When it no longer waits, the method has been invoked once with the arguments
given, and then the callback has been called once, exactly when the call is plain. -/
theorem deferred_iff (es : List DeferEvent) {i : ℕ} {c : DeferredCall}
    (hc : (run (step border) fresh es).made[i]? = some c) :
    ((run (step border) fresh es).Waiting i →
        (run (step border) fresh es).happened i = [] ∧ ¬ (run (step border) fresh es).Settled) ∧
      (¬ (run (step border) fresh es).Waiting i →
        ((run (step border) fresh es).happened i = c.expected i ↔ c.Plain)) := by
  have hkept := kept_run border es
  constructor
  · intro hwaiting
    exact ⟨hkept.logged.waiting i hwaiting, fun hsettled => hkept.queued.settled hsettled i hwaiting⟩
  · intro hdone
    rw [hkept.logged.done i c hc hdone]
    exact outcome_iff c i

/-- A border: the arguments before the first nil. -/
def firstBorder : (arguments : List LuaValue) → {j : ℕ // IsBorder arguments j}
  | [] => ⟨0, .inl rfl, rfl⟩
  | v :: rest =>
    if hv : v.isNil = true then ⟨0, .inl rfl, hv⟩
    else
      ⟨(firstBorder rest).val + 1, by
        obtain ⟨hborder, hafter⟩ := (firstBorder rest).property
        refine ⟨.inr ?_, hafter⟩
        cases hval : (firstBorder rest).val with
        | zero => simpa [index] using hv
        | succ k =>
          rw [hval] at hborder
          simpa [index] using hborder⟩

/-- `setNoDelay(true)` before there is a socket. -/
theorem deferred_setNoDelay :
    (run (step firstBorder) fresh
        [.setNoDelay [.boolean true], .assigned true, .next]).happened 0 =
      [.invoked 0 "setNoDelay".toList [.boolean true]] := by
  have hiff := (deferred_iff firstBorder
    [.setNoDelay [.boolean true], .assigned true, .next] (i := 0)
    (c := ⟨some "setNoDelay".toList, [.boolean true], false⟩) rfl).2
  refine (hiff ?_).mpr ⟨rfl, .inr ⟨.boolean true, rfl, rfl⟩⟩
  simp [run, step, fresh, Waiting, setNoDelay, deferToConnect, next, wake, atSocket, invoke]

/-- `setSocketKeepAlive(true, 1000)` on a writable socket invokes `setKeepAlive(1000)`. -/
theorem deferred_setKeepAlive :
    ¬ ∀ (border : (arguments : List LuaValue) → {j : ℕ // IsBorder arguments j})
      (es : List DeferEvent) (i : ℕ) (c : DeferredCall),
      (run (step border) fresh es).made[i]? = some c →
        ¬ (run (step border) fresh es).Waiting i →
          (run (step border) fresh es).happened i = c.expected i := by
  intro h
  let c : DeferredCall := ⟨some "setKeepAlive".toList, [.boolean true, .number "1000".toList], false⟩
  let es : List DeferEvent := [.assigned true, .setSocketKeepAlive c.arguments]
  have hc : (run (step firstBorder) fresh es).made[0]? = some c := rfl
  have hdone : ¬ (run (step firstBorder) fresh es).Waiting 0 := by
    simp [es, run, step, fresh, Waiting, setSocketKeepAlive, deferToConnect, atSocket, invoke]
  have hexpected := h firstBorder es 0 c hc hdone
  rw [(kept_run firstBorder es).logged.done 0 c hc hdone] at hexpected
  obtain ⟨-, hnone | ⟨v, -, harguments⟩⟩ := (outcome_iff c 0).mp hexpected
  · cases hnone
  · cases harguments

end DeferringRequest

end

end LuaNode.ClientRequest
