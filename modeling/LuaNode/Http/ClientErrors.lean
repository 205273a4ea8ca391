import LuaNode.Net.Socket

/-!
# The errors of a client's request

A `ClientRequest` from its event 'socket' on, with the socket that it has: the handlers of
`http.lua` that emit 'error' on the request. Code of the user runs in the listeners of the request
and of its response, and may call the socket; what a handler does after its listeners waits for
them. The listeners return, and do not emit 'error' themselves. What the parser makes of the data,
and whether the message was the last one of the socket, is given.
-/

namespace LuaNode

open Net (Posted SocketEvent)

/-- The handlers of the request that let code of the user run. -/
inductive RequestHandler
  | socketError
  | lookup
  | socketClose
  | socketEnd
  | socketData
  deriving DecidableEq

/-- What runs: the loop has the control, the listeners of the socket's 'data' or 'end' run,
`parser:execute` runs its callbacks, or a handler waits for listeners, having emitted 'error' or
not. -/
inductive ClientPhase
  | loop
  | reading
  | executing
  | ending
  | handler (h : RequestHandler) (emitted : Bool)
  deriving DecidableEq

/-- What `parser:execute` answers, with what the message tells. -/
inductive Executed
  | parseError (err : Option Str)
  | upgrade (handled : Bool)
  | complete
  | more

structure ClientErrors where
  socket : Net.Socket
  /-- `socket.parser` is not nil -/
  parser : Bool
  /-- `socket.ondata` and `socket.onend` are set -/
  handlers : Bool
  /-- the listeners of the socket's 'error' and 'close' are there -/
  listening : Bool
  /-- `req.res` is not nil -/
  res : Bool
  /-- `_hadError` -/
  hadError : Bool
  /-- the events 'error' of the request -/
  errors : List Str
  phase : ClientPhase

namespace ClientErrors

inductive Event
  /-- the socket on its own, or called by the user -/
  | socket (e : SocketEvent)
  | connectError (message : Str)
  | lookupError (message : Str)
  /-- data come in -/
  | data
  /-- the listeners of the socket's 'data' return -/
  | ondata
  /-- `parserOnIncomingClient`, for a final response or for a 'continue' -/
  | incoming (continues : Bool)
  | executed (outcome : Executed)
  /-- the end of a response that keeps the socket alive -/
  | keepAlive
  | eof
  /-- the listeners of the socket's 'end' return -/
  | onend
  /-- the loop runs what was posted first -/
  | tick
  /-- the listeners that a handler waits for return -/
  | returned

variable (s : ClientErrors)

def init (socket : Net.Socket) : ClientErrors :=
  ⟨socket, true, true, true, false, false, [], .loop⟩

def hangUpError : Str := "socket hang up".toList

def freeParser : ClientErrors :=
  if s.parser then { s with parser := false, handlers := false } else s

def destroy : ClientErrors := { s with socket := s.socket.destroy none .destroy }

def emitError (h : RequestHandler) (message : Str) : ClientErrors :=
  { s with errors := s.errors ++ [message], phase := .handler h true }

/-- `socketCloseListener`; a response that has not ended is of no interest here. -/
def socketCloseListener : ClientErrors :=
  if ¬ s.res ∧ ¬ s.hadError then s.emitError .socketClose hangUpError
  else { s with phase := .handler .socketClose false }

def socketOnEnd : ClientErrors :=
  if ¬ s.res then s.emitError .socketEnd hangUpError
  else { s with phase := .handler .socketEnd false }

/-- `socketOnData` after `parser:execute`. -/
def socketOnData : Executed → ClientErrors
  | .parseError err =>
    s.freeParser.destroy.emitError .socketData (err.getD "parse error".toList)
  | .upgrade handled =>
    let s := { s with res := true, handlers := false, phase := .loop }
    if handled then { s with listening := false }.freeParser else s.destroy.freeParser
  | .complete => { s.freeParser with phase := .loop }
  | .more => { s with phase := .loop }

/-- The rest of a handler. -/
def rest (h : RequestHandler) (emitted : Bool) : ClientErrors :=
  let s := { s with hadError := s.hadError || emitted, phase := .loop }
  match h with
  | .socketError => s.freeParser.destroy
  | .lookup => s.freeParser.destroy.destroy
  | .socketClose => s.freeParser
  | .socketEnd => s.freeParser.destroy
  | .socketData => s

/-- `parserOnIncomingClient`. -/
def onIncoming (continues : Bool) : ClientErrors :=
  if s.res then s.destroy else { s with res := !continues }

/-- What was posted is emitted on the socket. -/
def emitPosted : Posted → ClientErrors
  | .error message => if s.listening then s.emitError .socketError message else s
  | .lookup message => if s.listening then s.emitError .lookup message else s
  | .close _ => if s.listening then s.socketCloseListener else s

def idle : Bool := s.phase = .loop && !s.socket.draining

/-- A call of the user, or a handler of the event loop. -/
def isCall : SocketEvent → Bool
  | .write _ | .finish _ _ | .destroySoon | .destroy _ | .drained _ => true
  | _ => false

def step : Event → ClientErrors
  | .socket .onread => s -- the end of what is read is `eof`
  | .socket e => if isCall e ∨ s.idle then { s with socket := s.socket.step e } else s
  | .connectError message =>
    if s.idle then { s with socket := s.socket.destroy (some message) .destroy } else s
  | .lookupError message =>
    if s.idle ∧ ¬ s.socket.destroyed then
      { s with socket := { s.socket with posted := s.socket.posted ++ [.lookup message] } }
    else s
  | .data =>
    if s.idle ∧ ¬ s.socket.destroyed then { s with phase := .reading } else s
  | .ondata =>
    if s.phase = .reading then { s with phase := if s.handlers then .executing else .loop } else s
  | .incoming continues => if s.phase = .executing then s.onIncoming continues else s
  | .executed outcome => if s.phase = .executing then s.socketOnData outcome else s
  | .keepAlive => if s.res then { s with listening := false } else s
  | .eof =>
    if s.idle ∧ ¬ s.socket.destroyed ∧ ¬ s.socket.flagGotEof then
      { s with socket := s.socket.onread, phase := .ending }
    else s
  | .onend =>
    if s.phase = .ending then
      if s.handlers then s.socketOnEnd else { s with phase := .loop }
    else s
  | .tick =>
    match s.socket.posted with
    | [] => s
    | p :: posted =>
      if s.idle then { s with socket := { s.socket with posted := posted } }.emitPosted p else s
  | .returned =>
    match s.phase with
    | .handler h emitted => s.rest h emitted
    | _ => s

/-- An error of the socket is not emitted on a request that has had one. -/
def Unmarked : Event → Prop
  | .tick => s.idle = true → s.listening = true → ∀ message,
    s.socket.posted.head? = some (.error message) ∨
      s.socket.posted.head? = some (.lookup message) → s.hadError = false
  | _ => True

/-! ### One error -/

/-- An error is noted by `_hadError` when its listeners have returned, and by then `socketOnData`
and `socketOnEnd` are gone. -/
structure Inv (s : ClientErrors) : Prop where
  marked : s.errors ≠ [] → s.hadError = true ∨ ∃ h, s.phase = .handler h true
  detached : s.errors ≠ [] →
    s.handlers = false ∨ ∃ h emitted, s.phase = .handler h emitted ∧ h ≠ .socketData
  executing : s.phase = .executing → s.errors = []
  hadError : s.hadError = true → s.errors ≠ []
  handlers : s.handlers = true → s.parser = true
  emitted : ∀ h, s.phase = .handler h true → s.errors ≠ []

variable {s} {t : ClientErrors}

theorem init_inv (socket : Net.Socket) : (init socket).Inv := by
  refine ⟨fun h => absurd rfl h, fun h => absurd rfl h, fun h => ?_, fun h => ?_, fun _ => rfl,
    fun h hphase => ?_⟩
  · cases h
  · cases h
  · cases hphase

/-- What the invariant is about. -/
def account (s : ClientErrors) : List Str × Bool × Bool × Bool × ClientPhase :=
  (s.errors, s.hadError, s.handlers, s.parser, s.phase)

theorem Inv.congr (h : s.Inv) (ht : t.account = s.account) : t.Inv := by
  simp only [account, Prod.mk.injEq] at ht
  obtain ⟨herrors, hhad, hhandlers, hparser, hphase⟩ := ht
  constructor
  · rw [herrors, hhad, hphase]; exact h.marked
  · rw [herrors, hhandlers, hphase]; exact h.detached
  · rw [herrors, hphase]; exact h.executing
  · rw [herrors, hhad]; exact h.hadError
  · rw [hhandlers, hparser]; exact h.handlers
  · rw [herrors, hphase]; exact h.emitted

theorem freeParser_eq (hhandlers : s.handlers = true → s.parser = true) :
    s.freeParser = { s with parser := false, handlers := false } := by
  unfold freeParser
  split_ifs with hparser
  · rfl
  · cases s
    simp_all

/-- While no listener is waited for, an error that there was is noted. -/
theorem Inv.marked_of (h : s.Inv) (hphase : ∀ k emitted, s.phase ≠ .handler k emitted)
    (herrors : s.errors ≠ []) : s.hadError = true :=
  (h.marked herrors).resolve_right fun ⟨k, hk⟩ => hphase k true hk

theorem Inv.detached_of (h : s.Inv) (hphase : ∀ k emitted, s.phase ≠ .handler k emitted)
    (herrors : s.errors ≠ []) : s.handlers = false :=
  (h.detached herrors).resolve_right fun ⟨k, emitted, hk, _⟩ => hphase k emitted hk

theorem Inv.errors_of_handlers (h : s.Inv) (hphase : ∀ k emitted, s.phase ≠ .handler k emitted)
    (hhandlers : s.handlers = true) : s.errors = [] := by
  by_contra herrors
  rw [h.detached_of hphase herrors] at hhandlers
  cases hhandlers

/-- A phase in which no listener is waited for and no parser runs. -/
theorem Inv.toPhase (h : s.Inv) (hphase : ∀ k emitted, s.phase ≠ .handler k emitted)
    {phase : ClientPhase} (hnew : ∀ k emitted, phase ≠ .handler k emitted)
    (hexec : phase = .executing → s.errors = []) : ({ s with phase := phase } : ClientErrors).Inv :=
  ⟨fun herrors => .inl (h.marked_of hphase herrors),
    fun herrors => .inl (h.detached_of hphase herrors), hexec, h.hadError, h.handlers,
    fun k hk => absurd hk (hnew k true)⟩

theorem Inv.emitError (h : s.Inv) (k : RequestHandler) (message : Str)
    (hk : k = .socketData → s.handlers = false) : (s.emitError k message).Inv := by
  have hne : s.errors ++ [message] ≠ [] := by simp
  refine ⟨fun _ => .inr ⟨k, rfl⟩, fun _ => ?_, fun hexec => ?_, fun _ => hne, h.handlers,
    fun _ _ => hne⟩
  · by_cases hdata : k = .socketData
    · exact .inl (hk hdata)
    · exact .inr ⟨k, true, rfl, hdata⟩
  · cases hexec

theorem Inv.toHandler (h : s.Inv) (hphase : ∀ k emitted, s.phase ≠ .handler k emitted)
    (k : RequestHandler) : ({ s with phase := .handler k false } : ClientErrors).Inv :=
  ⟨fun herrors => .inl (h.marked_of hphase herrors),
    fun herrors => .inl (h.detached_of hphase herrors), nofun, h.hadError,
    h.handlers, nofun⟩

theorem Inv.freeParser (h : s.Inv) : s.freeParser.Inv := by
  rw [freeParser_eq h.handlers]
  exact ⟨h.marked, fun _ => .inl rfl, h.executing, h.hadError, nofun,
    h.emitted⟩

/-- A handler that does not follow a parse error ends with the parser detached. -/
theorem rest_account (h : s.Inv) (k : RequestHandler) (emitted : Bool) :
    (s.rest k emitted).account = (s.errors, s.hadError || emitted,
      if k = .socketData then (s.handlers, s.parser, .loop) else (false, false, .loop)) := by
  have hfree := freeParser_eq (s := { s with hadError := s.hadError || emitted, phase := .loop })
    h.handlers
  cases k <;> simp [rest, account, destroy, hfree]

theorem Inv.rest (h : s.Inv) {k : RequestHandler} {emitted : Bool}
    (hphase : s.phase = .handler k emitted) : (s.rest k emitted).Inv := by
  have hmarked : s.errors ≠ [] → (s.hadError || emitted) = true := by
    intro herrors
    rcases h.marked herrors with hhad | ⟨j, hj⟩
    · simp [hhad]
    · rw [hphase] at hj
      cases hj
      simp
  have herrors : (s.hadError || emitted) = true → s.errors ≠ [] := by
    intro hor
    rcases Bool.or_eq_true_iff.mp hor with hhad | rfl
    · exact h.hadError hhad
    · exact h.emitted k hphase
  have haccount := rest_account h k emitted
  by_cases hdata : k = .socketData
  · rw [if_pos hdata] at haccount
    have hdetached : s.errors ≠ [] → s.handlers = false := by
      intro hne
      refine (h.detached hne).resolve_right ?_
      rintro ⟨j, b, hj, hjdata⟩
      rw [hphase] at hj
      cases hj
      exact hjdata hdata
    have hloop : ({ s with
        hadError := s.hadError || emitted
        phase := .loop } : ClientErrors).Inv :=
      ⟨fun hne => .inl (hmarked hne), fun hne => .inl (hdetached hne), nofun,
        herrors, h.handlers, nofun⟩
    exact hloop.congr haccount
  · rw [if_neg hdata] at haccount
    have hloop : ({ s with
        hadError := s.hadError || emitted
        handlers := false
        parser := false
        phase := .loop } : ClientErrors).Inv :=
      ⟨fun hne => .inl (hmarked hne), fun _ => .inl rfl, nofun,
        herrors, nofun, nofun⟩
    exact hloop.congr haccount

theorem Inv.socketOnData (h : s.Inv) (hphase : s.phase = .executing) (outcome : Executed) :
    (s.socketOnData outcome).Inv := by
  have hrunning : ∀ k emitted, s.phase ≠ .handler k emitted := by
    intro k emitted hk
    rw [hphase] at hk
    cases hk
  have hnone := h.executing hphase
  cases outcome with
  | parseError err =>
    have hfree : s.freeParser.destroy.Inv := h.freeParser.congr rfl
    refine hfree.emitError .socketData _ fun _ => ?_
    rw [freeParser_eq h.handlers]
    rfl
  | upgrade handled =>
    have hloop : ({ s with res := true, handlers := false, phase := .loop } : ClientErrors).Inv :=
      ⟨fun hne => absurd hnone hne, fun _ => .inl rfl, fun _ => hnone, h.hadError,
        nofun, nofun⟩
    unfold ClientErrors.socketOnData
    dsimp only
    split_ifs
    · exact Inv.freeParser (hloop.congr rfl)
    · exact Inv.freeParser (hloop.congr rfl)
  | complete =>
    have hfree := h.freeParser
    refine hfree.toPhase ?_ nofun nofun
    rw [freeParser_eq h.handlers]
    exact hrunning
  | more => exact h.toPhase hrunning nofun nofun

/-! ### Steps -/

theorem loop_of_idle (h : s.idle = true) : s.phase = .loop := by
  simp only [idle, Bool.and_eq_true, decide_eq_true_eq] at h
  exact h.1

theorem running_of_loop (h : s.phase = .loop) (k : RequestHandler) (emitted : Bool) :
    s.phase ≠ .handler k emitted := by
  rw [h]
  intro hk
  cases hk

theorem Inv.errors_of_unmarked (h : s.Inv) (hloop : s.phase = .loop) (hhad : s.hadError = false) :
    s.errors = [] := by
  by_contra herrors
  rw [h.marked_of (running_of_loop hloop) herrors] at hhad
  cases hhad

theorem Inv.socketCloseListener (h : s.Inv) (hloop : s.phase = .loop) :
    s.socketCloseListener.Inv := by
  unfold ClientErrors.socketCloseListener
  split_ifs
  · exact h.emitError .socketClose _ nofun
  · exact h.toHandler (running_of_loop hloop) _

theorem Inv.socketOnEnd (h : s.Inv) (hphase : s.phase = .ending) : s.socketOnEnd.Inv := by
  unfold ClientErrors.socketOnEnd
  split_ifs
  · refine h.toHandler (fun k emitted hk => ?_) _
    rw [hphase] at hk
    cases hk
  · exact h.emitError .socketEnd _ nofun

theorem Inv.emitPosted (h : s.Inv) (hloop : s.phase = .loop) (p : Posted) :
    (s.emitPosted p).Inv := by
  unfold ClientErrors.emitPosted
  cases p <;> dsimp only <;> split_ifs
  · exact h.emitError .socketError _ nofun
  · exact h
  · exact h.socketCloseListener hloop
  · exact h
  · exact h.emitError .lookup _ nofun
  · exact h

theorem Inv.step (h : s.Inv) (e : Event) : (s.step e).Inv := by
  have hloop : s.idle = true → ∀ k emitted, s.phase ≠ .handler k emitted :=
    fun hidle => running_of_loop (loop_of_idle hidle)
  cases e <;> unfold ClientErrors.step <;> dsimp only
  case socket e =>
    have hsocket : ({ s with socket := s.socket.step e } : ClientErrors).Inv := h.congr rfl
    cases e <;> dsimp only
    case onread => exact h
    all_goals
      split_ifs
      · exact hsocket
      · exact h
  case connectError message =>
    split_ifs
    · exact h.congr rfl
    · exact h
  case lookupError message =>
    split_ifs
    · exact h.congr rfl
    · exact h
  case data =>
    split_ifs with hdata
    · exact h.toPhase (hloop hdata.1) nofun nofun
    · exact h
  case ondata =>
    split_ifs with hreading hhandlers
    · have hrunning : ∀ k emitted, s.phase ≠ .handler k emitted := by simp [hreading]
      exact h.toPhase hrunning nofun fun _ => h.errors_of_handlers hrunning hhandlers
    · exact h.toPhase (by simp [hreading]) nofun nofun
    · exact h
  case incoming continues =>
    unfold onIncoming
    split_ifs <;> first | exact h | exact h.congr rfl
  case executed outcome =>
    split_ifs with hphase
    · exact h.socketOnData hphase outcome
    · exact h
  case keepAlive =>
    split_ifs
    · exact h.congr rfl
    · exact h
  case eof =>
    split_ifs with heof
    · have hending : ({ s with phase := .ending } : ClientErrors).Inv :=
        h.toPhase (hloop heof.1) nofun nofun
      exact hending.congr rfl
    · exact h
  case onend =>
    split_ifs with hending
    · exact h.socketOnEnd hending
    · exact h.toPhase (by simp [hending]) nofun nofun
    · exact h
  case tick =>
    split
    · exact h
    · next p posted _ =>
      split_ifs with hidle
      · have hposted : ({ s with
            socket := { s.socket with posted := posted } } : ClientErrors).Inv := h.congr rfl
        exact hposted.emitPosted (loop_of_idle hidle) p
      · exact h
  case returned =>
    split
    · next hphase => exact h.rest hphase
    · exact h

/-! ### At most one error -/

/-- What is new among the errors: nothing, or the first one. -/
def First (errors new : List Str) : Prop :=
  new = errors ∨ errors = [] ∧ ∃ message, new = [message]

theorem first_emitError (hnone : s.errors = []) (k : RequestHandler) (message : Str) :
    First s.errors (s.emitError k message).errors :=
  .inr ⟨hnone, message, by simp [emitError, hnone]⟩

theorem First.length_le {errors new : List Str} (h : First errors new)
    (hlength : errors.length ≤ 1) : new.length ≤ 1 := by
  rcases h with rfl | ⟨-, message, rfl⟩
  · exact hlength
  · simp

@[simp] theorem freeParser_errors (s : ClientErrors) : s.freeParser.errors = s.errors := by
  unfold freeParser
  split_ifs <;> rfl

@[simp] theorem destroy_errors (s : ClientErrors) : s.destroy.errors = s.errors := rfl

@[simp] theorem rest_errors (s : ClientErrors) (k : RequestHandler) (emitted : Bool) :
    (s.rest k emitted).errors = s.errors := by
  cases k <;> simp [rest]

/-- An error of the socket is emitted when it is listened to. -/
theorem emitPosted_errors {p : Posted} {message : Str}
    (hp : p = .error message ∨ p = .lookup message) (hlistening : s.listening = true) :
    (s.emitPosted p).errors = s.errors ++ [message] := by
  rcases hp with rfl | rfl <;> simp [emitPosted, hlistening, emitError]

theorem first_socketCloseListener (h : s.Inv) (hloop : s.phase = .loop) :
    First s.errors s.socketCloseListener.errors := by
  unfold ClientErrors.socketCloseListener
  split_ifs with hmissing
  · exact first_emitError (h.errors_of_unmarked hloop (by simpa using hmissing.2)) _ _
  · exact .inl rfl

theorem first_socketOnEnd (h : s.Inv) (hphase : s.phase = .ending) (hhandlers : s.handlers = true) :
    First s.errors s.socketOnEnd.errors := by
  unfold ClientErrors.socketOnEnd
  split_ifs
  · exact .inl rfl
  · exact first_emitError (h.errors_of_handlers (by simp [hphase]) hhandlers) _ _

theorem first_socketOnData (h : s.Inv) (hphase : s.phase = .executing) (outcome : Executed) :
    First s.errors (s.socketOnData outcome).errors := by
  cases outcome with
  | parseError err =>
    refine .inr ⟨h.executing hphase, err.getD "parse error".toList, ?_⟩
    simp [ClientErrors.socketOnData, emitError, h.executing hphase]
  | upgrade handled =>
    refine .inl ?_
    unfold ClientErrors.socketOnData
    dsimp only
    split_ifs <;> simp
  | complete => exact .inl (by simp [ClientErrors.socketOnData])
  | more => exact .inl rfl

/-- Only an error of the socket may reach a request that has had an error. -/
theorem step_first (h : s.Inv) {e : Event} (he : s.Unmarked e) :
    First s.errors (s.step e).errors := by
  cases e <;> unfold ClientErrors.step <;> dsimp only
  case incoming continues =>
    unfold onIncoming
    split_ifs <;> exact .inl rfl
  case executed outcome =>
    split_ifs with hphase
    · exact first_socketOnData h hphase outcome
    · exact .inl rfl
  case onend =>
    split_ifs with hphase hhandlers
    · exact first_socketOnEnd h hphase hhandlers
    all_goals exact .inl rfl
  case tick =>
    split
    · exact .inl rfl
    · next p posted hposted =>
      split_ifs with hidle
      · have hloop := loop_of_idle hidle
        have hpop : ({ s with
            socket := { s.socket with posted := posted } } : ClientErrors).Inv := h.congr rfl
        cases hlistening : s.listening with
        | false => cases p <;> exact .inl (by simp [emitPosted])
        | true =>
          have hunmarked := he hidle hlistening
          rw [hposted] at hunmarked
          cases p with
          | error message =>
            have hnone := h.errors_of_unmarked hloop (hunmarked message (.inl rfl))
            exact .inr ⟨hnone, message, by simp [emitPosted_errors (.inl rfl), hnone]⟩
          | lookup message =>
            have hnone := h.errors_of_unmarked hloop (hunmarked message (.inr rfl))
            exact .inr ⟨hnone, message, by simp [emitPosted_errors (.inr rfl), hnone]⟩
          | close hadError =>
            have hclose := first_socketCloseListener hpop hloop
            simpa [emitPosted, hlistening] using hclose
      · exact .inl rfl
  case returned =>
    split
    · exact .inl (by simp)
    · exact .inl rfl
  case socket e =>
    cases e <;> dsimp only
    case onread => exact .inl rfl
    all_goals split_ifs <;> exact .inl rfl
  all_goals split_ifs <;> exact .inl rfl

/-- It does when it is not guarded against. -/
theorem unmarked_of_length (h : s.Inv) {e : Event} (hlength : (s.step e).errors.length ≤ 1) :
    s.Unmarked e := by
  cases e with
  | tick =>
    intro hidle hlistening message hhead
    by_contra hhad
    have herrors := h.hadError (by simpa using hhad)
    have hsecond : ∃ p posted, s.socket.posted = p :: posted ∧
        (p = .error message ∨ p = .lookup message) := by
      cases hposted : s.socket.posted with
      | nil => simp [hposted] at hhead
      | cons p posted => exact ⟨p, posted, rfl, by simpa [hposted] using hhead⟩
    obtain ⟨p, posted, hposted, hp⟩ := hsecond
    have hpop : (s.step .tick).errors = s.errors ++ [message] := by
      unfold ClientErrors.step
      simp only [hposted, hidle, if_true]
      exact emitPosted_errors hp hlistening
    rw [hpop, List.length_append, List.length_singleton] at hlength
    exact herrors (List.length_eq_zero_iff.mp (by omega))
  | _ => trivial

/-- A request emits 'error' at most once in the runs, and in no others, in which the errors of the
socket do not reach a request that has noted one. -/
theorem one_error_iff (socket : Net.Socket) (es : List Event) :
    (∀ t ∈ statesOf step (init socket) es, t.errors.length ≤ 1) ↔
      Guarded step Unmarked (init socket) es :=
  states_iff_guarded (I := Inv) (P := fun t => t.errors.length ≤ 1) (fun _ e h => h.step e)
    (fun _ _ h hlength => ⟨unmarked_of_length h, fun he => (step_first h he).length_le hlength⟩)
    (init_inv socket) (Nat.zero_le 1) es

/-- Data that do not parse destroy the socket; when the listener of the error destroys the request
with an error of its own, that one is emitted, too. -/
theorem second_error :
    (run step (init (Net.Socket.connected true false))
      [.data, .ondata, .executed (.parseError none), .socket (.destroy (some "x".toList)),
        .returned, .tick, .returned, .tick]).errors = ["parse error".toList, "x".toList] := by
  decide

end ClientErrors

end LuaNode
