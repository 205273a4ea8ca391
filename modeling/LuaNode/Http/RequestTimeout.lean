import LuaNode.Library.Runs
import LuaNode.Library.Text
import Mathlib.Data.Rat.Defs
import Mathlib.Algebra.Order.Ring.Unbundled.Rat

/-!
# Timeouts of a client request

`ClientRequest:setTimeout` and `clearTimeout` of `http.lua` over `Socket:setTimeout` of `net.lua`. A call
that finds no writable socket repeats itself in the 'socket' of the request or in the 'connect' of
the socket, with its own closure for a callback. Every listener is a wrapper that `once` has
made. An emission calls its listeners one after the other, and what a callback does are events between
two `next`; nobody else listens to these events, and callbacks return.
-/

namespace LuaNode.ClientRequest

/-- What a wrapper of `once` calls. -/
inductive TimeoutCallback
  /-- a callback given to `setTimeout` or `clearTimeout` -/
  | user
  /-- the `emitTimeout` of an execution of `setTimeout` -/
  | emitTimeout (closure : ℕ)
  deriving DecidableEq

structure TimeoutListener where
  /-- each wrapper is a function of its own -/
  id : ℕ
  callback : TimeoutCallback
  deriving DecidableEq

/-- A call of `setTimeout` that waits: its milliseconds and its closure. -/
structure Postponed where
  msecs : ℚ
  closure : ℕ
  deriving DecidableEq

/-- A listener that an emission has yet to call. -/
inductive TimeoutCall
  /-- of 'timeout' of the socket -/
  | socket (l : TimeoutListener)
  /-- of 'timeout' of the request -/
  | request (l : TimeoutListener)
  /-- of 'socket' of the request -/
  | atSocket (p : Postponed)
  /-- of 'connect' of the socket -/
  | atConnect (p : Postponed)
  deriving DecidableEq

structure TimedRequest where
  /-- `self.socket.writable`, when there is a socket -/
  socket : Option Bool
  /-- `self.timeoutCb` -/
  timeoutCb : Option ℕ
  /-- the socket is in the list of an idle timer -/
  enrolled : Bool
  onSocket : List Postponed
  onConnect : List Postponed
  /-- the listeners of 'timeout' of the request and of its socket -/
  requestTimeout : List TimeoutListener
  socketTimeout : List TimeoutListener
  /-- how many closures and wrappers there are -/
  closures : ℕ
  wrappers : ℕ
  /-- the emissions that run, the innermost first -/
  frames : List (List TimeoutCall)
  /-- the idle timeouts of the socket, and how often the request has emitted 'timeout' -/
  idles : ℕ
  emitted : ℕ
  /-- the wrappers whose callback of a user has run -/
  ran : List ℕ
  raised : List Str
  /-- an error is on its way to a `pcall` -/
  failing : Bool

inductive TimeoutEvent
  | setTimeout (msecs : ℚ) (callback : Bool)
  | clearTimeout (callback : Bool)
  /-- a socket is assigned -/
  | assigned (writable : Bool)
  | connected
  /-- the socket is no longer writable -/
  | closed
  /-- somebody else enrolls the socket, or takes it out -/
  | enroll (enrolled : Bool)
  /-- `Socket:_onTimeout` -/
  | idle
  /-- an emission calls its next listener, or ends -/
  | next
  /-- the error ends this many emissions -/
  | caught (emissions : ℕ)

namespace TimedRequest

variable (s : TimedRequest)

def fresh : TimedRequest where
  socket := none
  timeoutCb := none
  enrolled := false
  onSocket := []
  onConnect := []
  requestTimeout := []
  socketTimeout := []
  closures := 0
  wrappers := 0
  frames := []
  idles := 0
  emitted := 0
  ran := []
  raised := []
  failing := false

def raise (message : Str) : TimedRequest :=
  { s with raised := s.raised ++ [message], failing := true }

/-- `self:once("timeout", callback)`. -/
def once (callback : TimeoutCallback) : TimedRequest :=
  { s with
    requestTimeout := s.requestTimeout ++ [⟨s.wrappers, callback⟩]
    wrappers := s.wrappers + 1 }

/-- `Socket:setTimeout` with a closure. The closure that `removeListener` looks for is in none of the
wrappers. -/
def socketSetTimeout (msecs : ℚ) (closure : ℕ) : TimedRequest :=
  if msecs > 0 then
    { s with
      enrolled := true
      socketTimeout := s.socketTimeout ++ [⟨s.wrappers, .emitTimeout closure⟩]
      wrappers := s.wrappers + 1 }
  else if msecs = 0 then { s with enrolled := false }
  else s

/-- What `setTimeout` does after it has registered the callback. With an earlier closure it calls
`self.socket.setTimeout` with a dot, where `msecs` is that closure. -/
def applyTimeout (msecs : ℚ) : TimedRequest :=
  let closure := s.closures
  let t := { s with closures := s.closures + 1 }
  match t.socket, t.timeoutCb with
  | some true, some _ => t.raise "attempt to compare number with function".toList
  | some true, none => { t with timeoutCb := some closure }.socketSetTimeout msecs closure
  | some false, _ => { t with onConnect := t.onConnect ++ [⟨msecs, closure⟩] }
  | none, _ => { t with onSocket := t.onSocket ++ [⟨msecs, closure⟩] }

def setTimeout (msecs : ℚ) (callback : Option TimeoutCallback) : TimedRequest :=
  match callback with
  | none => s.applyTimeout msecs
  | some callback => (s.once callback).applyTimeout msecs

/-- The callback that a user gives. -/
def given (callback : Bool) : Option TimeoutCallback := if callback then some .user else none

/-- `self:emit("timeout")` of the request. -/
def emit : TimedRequest :=
  { s with
    emitted := s.emitted + 1
    frames := s.requestTimeout.map .request :: s.frames }

def callBack (l : TimeoutListener) : TimedRequest :=
  match l.callback with
  | .user => { s with ran := s.ran ++ [l.id] }
  | .emitTimeout _ => s.emit

/-- A wrapper takes itself off its list and calls its callback. -/
def wake : TimeoutCall → TimedRequest
  | .socket l => { s with socketTimeout := s.socketTimeout.erase l }.callBack l
  | .request l => { s with requestTimeout := s.requestTimeout.erase l }.callBack l
  | .atSocket p =>
    { s with onSocket := s.onSocket.erase p }.setTimeout p.msecs (some (.emitTimeout p.closure))
  | .atConnect p =>
    { s with onConnect := s.onConnect.erase p }.setTimeout p.msecs (some (.emitTimeout p.closure))

def next : TimedRequest :=
  match s.frames with
  | [] => s
  | [] :: frames => { s with frames }
  | (c :: rest) :: frames => { s with frames := rest :: frames }.wake c

/-- Sockets are assigned and connect, and idle timers run out, when no emission runs. -/
def act : TimeoutEvent → TimedRequest
  | .setTimeout msecs callback => s.setTimeout msecs (given callback)
  | .clearTimeout callback => s.setTimeout 0 (given callback)
  | .assigned writable =>
    if s.socket = none ∧ s.frames = [] then
      { s with socket := some writable, frames := [s.onSocket.map .atSocket] }
    else s
  | .connected =>
    if s.socket = some false ∧ s.frames = [] then
      { s with socket := some true, frames := [s.onConnect.map .atConnect] }
    else s
  | .closed => if s.socket = none then s else { s with socket := some false }
  | .enroll enrolled => if s.socket = none then s else { s with enrolled }
  | .idle =>
    if s.enrolled = true ∧ s.frames = [] then
      { s with idles := s.idles + 1, frames := [s.socketTimeout.map .socket] }
    else s
  | .next => s.next
  | .caught _ => s

def step (e : TimeoutEvent) : TimedRequest :=
  if s.failing then
    match e with
    | .caught emissions => { s with frames := s.frames.drop emissions, failing := false }
    | _ => s
  else s.act e

/-- No call has raised an error, no callback has run twice, and the request has emitted 'timeout' once
for each idle timeout: before the end of its emission at most once. -/
structure Sound : Prop where
  quiet : s.raised = []
  runsOnce : s.ran.Nodup
  atMost : s.emitted ≤ s.idles
  exactly : s.frames = [] → s.emitted = s.idles

/-- No listener of 'timeout' of the request is a closure of its own. -/
def OnlyUsers : Prop := ∀ l ∈ s.requestTimeout, l.callback = .user

/-- `setTimeout` would not find an earlier closure on a writable socket. -/
def FirstTime : Prop := s.socket = some true → s.timeoutCb = none

/-- When `setTimeout` is executed on a writable socket, now or in an event it has waited for, it is
for the first time; and when the socket is idle, one closure listens to it and none to the
request. -/
def Ready : TimeoutEvent → Prop
  | .setTimeout _ _ | .clearTimeout _ => s.FirstTime
  | .next =>
    ∀ p rest frames, s.frames = (.atSocket p :: rest) :: frames ∨
      s.frames = (.atConnect p :: rest) :: frames → s.FirstTime
  | .idle =>
    s.enrolled = true → s.frames = [] → (∃ l, s.socketTimeout = [l]) ∧ s.OnlyUsers
  | _ => True

/-! ### The invariant -/

/-- The wrapper that an emission of 'timeout' of the request has yet to call. -/
def listenerOf : TimeoutCall → Option TimeoutListener
  | .request l => some l
  | _ => none

/-- An idle timeout whose closure has not been called yet, and no other emission. -/
def Idling : Prop :=
  ∃ l, s.frames.flatten = [.socket l] ∧ (∃ closure, l.callback = .emitTimeout closure) ∧
    s.OnlyUsers ∧ s.emitted + 1 = s.idles

/-- No emission has a closure to call. -/
def Emitted : Prop := (∀ l, .socket l ∉ s.frames.flatten) ∧ s.emitted = s.idles

structure Orderly : Prop where
  quiet : s.raised = []
  running : s.failing = false
  /-- the wrappers on the list of the request are different, and not among those that have run -/
  listed : (s.requestTimeout.map TimeoutListener.id).Nodup
  below : ∀ l ∈ s.requestTimeout, l.id < s.wrappers
  runsOnce : s.ran.Nodup
  ran : ∀ i ∈ s.ran, i < s.wrappers ∧ i ∉ s.requestTimeout.map TimeoutListener.id
  /-- an emission calls wrappers that are still on the list, each once -/
  waiting : ∀ l, .request l ∈ s.frames.flatten → l ∈ s.requestTimeout ∧ l.callback = .user
  waitingOnce : (s.frames.flatten.filterMap listenerOf).Nodup
  closures : ∀ l ∈ s.socketTimeout, ∃ closure, l.callback = .emitTimeout closure
  phase : s.Idling ∨ s.Emitted

variable {s}

theorem Orderly.sound (h : s.Orderly) : s.Sound where
  quiet := h.quiet
  runsOnce := h.runsOnce
  atMost := by
    rcases h.phase with ⟨l, -, -, -, hcount⟩ | ⟨-, hcount⟩ <;> omega
  exactly := by
    intro hframes
    rcases h.phase with ⟨l, hflat, -⟩ | ⟨-, hcount⟩
    · simp [hframes] at hflat
    · exact hcount

/-- What the invariant does not look at. -/
theorem Orderly.elsewhere (h : s.Orderly) (socket : Option Bool) (timeoutCb : Option ℕ)
    (enrolled : Bool) (onSocket onConnect : List Postponed) (closures : ℕ) :
    { s with socket, timeoutCb, enrolled, onSocket, onConnect, closures }.Orderly where
  quiet := h.quiet
  running := h.running
  listed := h.listed
  below := h.below
  runsOnce := h.runsOnce
  ran := h.ran
  waiting := h.waiting
  waitingOnce := h.waitingOnce
  closures := h.closures
  phase := h.phase

/-! ### Registering -/

theorem Orderly.once (h : s.Orderly) {callback : TimeoutCallback}
    (hcallback : callback = .user ∨ s.Emitted) : (s.once callback).Orderly where
  quiet := h.quiet
  running := h.running
  listed := by
    simp only [TimedRequest.once, List.map_append, List.map_cons, List.map_nil]
    refine List.Nodup.append h.listed (List.nodup_singleton _) ?_
    intro i hi hnew
    obtain ⟨l, hl, rfl⟩ := List.mem_map.mp hi
    have := h.below l hl
    rw [List.mem_singleton.mp hnew] at this
    omega
  below := by
    intro l hl
    rcases List.mem_append.mp hl with hl | hl
    · exact Nat.lt_succ_of_lt (h.below l hl)
    · rw [List.mem_singleton.mp hl]
      exact Nat.lt_succ_self _
  runsOnce := h.runsOnce
  ran := by
    intro i hi
    obtain ⟨hlt, hnot⟩ := h.ran i hi
    refine ⟨Nat.lt_succ_of_lt hlt, ?_⟩
    simp only [TimedRequest.once, List.map_append, List.map_cons, List.map_nil, List.mem_append,
      List.mem_singleton, not_or]
    exact ⟨hnot, hlt.ne⟩
  waiting := by
    intro l hl
    obtain ⟨hin, huser⟩ := h.waiting l hl
    exact ⟨List.mem_append_left _ hin, huser⟩
  waitingOnce := h.waitingOnce
  closures := h.closures
  phase := by
    rcases hcallback with rfl | hemitted
    · refine h.phase.imp_left ?_
      rintro ⟨l, hflat, hclosure, husers, hcount⟩
      refine ⟨l, hflat, hclosure, fun x hx => ?_, hcount⟩
      rcases List.mem_append.mp hx with hx | hx
      · exact husers x hx
      · rw [List.mem_singleton.mp hx]
    · exact .inr hemitted

theorem Orderly.socketSetTimeout (h : s.Orderly) (msecs : ℚ) (closure : ℕ) :
    (s.socketSetTimeout msecs closure).Orderly := by
  unfold TimedRequest.socketSetTimeout
  split_ifs
  · exact
      { quiet := h.quiet
        running := h.running
        listed := h.listed
        below := fun l hl => Nat.lt_succ_of_lt (h.below l hl)
        runsOnce := h.runsOnce
        ran := fun i hi => ⟨Nat.lt_succ_of_lt (h.ran i hi).1, (h.ran i hi).2⟩
        waiting := h.waiting
        waitingOnce := h.waitingOnce
        closures := by
          intro l hl
          rcases List.mem_append.mp hl with hl | hl
          · exact h.closures l hl
          · rw [List.mem_singleton.mp hl]
            exact ⟨closure, rfl⟩
        phase := h.phase }
  · exact h.elsewhere ..
  · exact h

theorem Orderly.applyTimeout (h : s.Orderly) (hfirst : s.FirstTime) (msecs : ℚ) :
    (s.applyTimeout msecs).Orderly := by
  unfold TimedRequest.applyTimeout
  dsimp only
  split
  · rename_i closure hsocket hclosure
    simp [hfirst hsocket] at hclosure
  · exact (h.elsewhere ..).socketSetTimeout _ _
  · exact h.elsewhere ..
  · exact h.elsewhere ..

theorem Orderly.setTimeout (h : s.Orderly) (hfirst : s.FirstTime) (msecs : ℚ)
    {callback : Option TimeoutCallback} (hcallback : ∀ c ∈ callback, c = .user ∨ s.Emitted) :
    (s.setTimeout msecs callback).Orderly := by
  cases callback with
  | none => exact h.applyTimeout hfirst msecs
  | some callback => exact (h.once (hcallback callback rfl)).applyTimeout hfirst msecs

theorem Orderly.userTimeout (h : s.Orderly) (hfirst : s.FirstTime) (msecs : ℚ) (callback : Bool) :
    (s.setTimeout msecs (given callback)).Orderly := by
  refine h.setTimeout hfirst msecs fun c hc => .inl ?_
  cases callback
  · cases hc
  · exact (Option.some.inj hc).symm

/-! ### Emitting -/

/-- What is left of the emissions when the innermost one calls its next listener. -/
theorem Orderly.pop (h : s.Orderly) (hemitted : s.Emitted) {frames : List (List TimeoutCall)}
    (hsub : frames.flatten.Sublist s.frames.flatten) : { s with frames }.Orderly where
  quiet := h.quiet
  running := h.running
  listed := h.listed
  below := h.below
  runsOnce := h.runsOnce
  ran := h.ran
  waiting := fun l hl => h.waiting l (hsub.subset hl)
  waitingOnce := h.waitingOnce.sublist (hsub.filterMap _)
  closures := h.closures
  phase := .inr ⟨fun l hl => hemitted.1 l (hsub.subset hl), hemitted.2⟩

/-- New emissions begin when none runs. -/
theorem Orderly.begin (h : s.Orderly) {t : TimedRequest} (ht : t.Emitted)
    (hrequest : ∀ l, .request l ∉ t.frames.flatten) (hquiet : t.raised = s.raised)
    (hfailing : t.failing = s.failing) (hlist : t.requestTimeout = s.requestTimeout)
    (hsocket : t.socketTimeout = s.socketTimeout) (hwrappers : t.wrappers = s.wrappers)
    (hran : t.ran = s.ran) : t.Orderly where
  quiet := hquiet.trans h.quiet
  running := hfailing.trans h.running
  listed := hlist ▸ h.listed
  below := by
    rw [hlist, hwrappers]
    exact h.below
  runsOnce := hran ▸ h.runsOnce
  ran := by
    rw [hran, hlist, hwrappers]
    exact h.ran
  waiting := fun l hl => absurd hl (hrequest l)
  waitingOnce := by
    have hnone : t.frames.flatten.filterMap listenerOf = [] := by
      refine List.filterMap_eq_nil_iff.mpr fun c hc => ?_
      cases c with
      | request l => exact absurd hc (hrequest l)
      | _ => rfl
    rw [hnone]
    exact List.nodup_nil
  closures := hsocket ▸ h.closures
  phase := .inr ht

/-- A callback of a user runs. -/
theorem Orderly.wakeUser (h : s.Orderly) {l : TimeoutListener} {rest : List TimeoutCall}
    {frames : List (List TimeoutCall)} (hframes : s.frames = (.request l :: rest) :: frames) :
    ({ s with frames := rest :: frames }.wake (.request l)).Orderly := by
  have hflat : s.frames.flatten = .request l :: (rest :: frames).flatten := by
    rw [hframes]
    rfl
  obtain ⟨hin, huser⟩ := h.waiting l (by rw [hflat]; exact List.mem_cons_self ..)
  have hemitted : s.Emitted := by
    rcases h.phase with ⟨x, hx, -⟩ | hemitted
    · rw [hflat] at hx
      simp at hx
    · exact hemitted
  have honce := h.waitingOnce
  rw [hflat] at honce
  obtain ⟨hnot, honce⟩ := List.nodup_cons.mp honce
  have hnodup : s.requestTimeout.Nodup := h.listed.of_map
  -- no other wrapper on the list has the number of this one
  have hgone : l.id ∉ (s.requestTimeout.erase l).map TimeoutListener.id := by
    intro hid
    obtain ⟨x, hx, hxl⟩ := List.mem_map.mp hid
    obtain ⟨hne, hx⟩ := hnodup.mem_erase_iff.mp hx
    exact hne (List.inj_on_of_nodup_map h.listed hx hin hxl)
  simp only [wake, callBack, huser]
  exact
    { quiet := h.quiet
      running := h.running
      listed := h.listed.sublist (List.erase_sublist.map _)
      below := fun x hx => h.below x (List.mem_of_mem_erase hx)
      runsOnce := by
        refine List.Nodup.append h.runsOnce (List.nodup_singleton _) ?_
        intro i hi hnew
        rw [List.mem_singleton.mp hnew] at hi
        exact (h.ran _ hi).2 (List.mem_map_of_mem hin)
      ran := by
        intro i hi
        rcases List.mem_append.mp hi with hi | hi
        · obtain ⟨hlt, hnotin⟩ := h.ran i hi
          exact ⟨hlt, fun hid => hnotin ((List.erase_sublist.map _).subset hid)⟩
        · rw [List.mem_singleton.mp hi]
          exact ⟨h.below l hin, hgone⟩
      waiting := by
        intro x hx
        have hmem := h.waiting x (by rw [hflat]; exact List.mem_cons_of_mem _ hx)
        have hxl : x ≠ l := by
          rintro rfl
          exact hnot (List.mem_filterMap.mpr ⟨_, hx, rfl⟩)
        exact ⟨(List.mem_erase_of_ne hxl).mpr hmem.1, hmem.2⟩
      waitingOnce := honce
      closures := h.closures
      phase := .inr ⟨fun x hx => hemitted.1 x (by rw [hflat]; exact List.mem_cons_of_mem _ hx),
        hemitted.2⟩ }

/-- The closure of an idle timeout runs, and the request emits 'timeout'. -/
theorem Orderly.wakeClosure (h : s.Orderly) {l : TimeoutListener} {rest : List TimeoutCall}
    {frames : List (List TimeoutCall)} (hframes : s.frames = (.socket l :: rest) :: frames) :
    ({ s with frames := rest :: frames }.wake (.socket l)).Orderly := by
  have hflat : s.frames.flatten = .socket l :: (rest :: frames).flatten := by
    rw [hframes]
    rfl
  rcases h.phase with ⟨x, hx, ⟨closure, hclosure⟩, husers, hcount⟩ | hemitted
  · rw [hflat, List.cons.injEq, TimeoutCall.socket.injEq] at hx
    obtain ⟨rfl, hrest⟩ := hx
    have hnew : ({ s with
        frames := rest :: frames
        socketTimeout := s.socketTimeout.erase l } : TimedRequest).emit.frames.flatten =
          s.requestTimeout.map .request := by
      rw [emit, List.flatten_cons, hrest, List.append_nil]
    have hlisteners : (s.requestTimeout.map TimeoutCall.request).filterMap listenerOf =
        s.requestTimeout := by
      rw [List.filterMap_map]
      exact List.filterMap_some
    simp only [wake, callBack, hclosure]
    exact
      { quiet := h.quiet
        running := h.running
        listed := h.listed
        below := h.below
        runsOnce := h.runsOnce
        ran := h.ran
        waiting := by
          intro y hy
          rw [hnew] at hy
          obtain ⟨z, hz, hzy⟩ := List.mem_map.mp hy
          rw [TimeoutCall.request.injEq] at hzy
          exact ⟨hzy ▸ hz, husers y (hzy ▸ hz)⟩
        waitingOnce := by
          rw [hnew, hlisteners]
          exact h.listed.of_map
        closures := fun y hy => h.closures y (List.mem_of_mem_erase hy)
        phase := by
          refine .inr ⟨fun y hy => ?_, hcount⟩
          rw [hnew] at hy
          simp at hy }
  · exact absurd (by rw [hflat]; exact List.mem_cons_self ..) (hemitted.1 l)

/-- An emission has called its last listener. -/
theorem Orderly.ended (h : s.Orderly) {frames : List (List TimeoutCall)}
    (hflat : frames.flatten = s.frames.flatten) : { s with frames }.Orderly where
  quiet := h.quiet
  running := h.running
  listed := h.listed
  below := h.below
  runsOnce := h.runsOnce
  ran := h.ran
  waiting := fun l hl => h.waiting l (hflat ▸ hl)
  waitingOnce := by
    rw [hflat]
    exact h.waitingOnce
  closures := h.closures
  phase := by
    refine h.phase.imp ?_ ?_
    · rintro ⟨l, hl, hrest⟩
      exact ⟨l, hflat.trans hl, hrest⟩
    · rintro ⟨hnone, hcount⟩
      exact ⟨fun l hl => hnone l (hflat ▸ hl), hcount⟩

/-- A postponed call of `setTimeout` repeats itself, from a state that differs in the lists of those
that wait. -/
theorem Orderly.wakePostponed (h : s.Orderly) {c : TimeoutCall} {rest : List TimeoutCall}
    {frames : List (List TimeoutCall)} (hframes : s.frames = (c :: rest) :: frames)
    (hc : ∀ l, c ≠ .socket l) (hfirst : s.FirstTime) (onSocket onConnect : List Postponed)
    (p : Postponed) :
    ({ s with frames := rest :: frames, onSocket, onConnect }.setTimeout p.msecs
      (some (.emitTimeout p.closure))).Orderly := by
  have hflat : s.frames.flatten = c :: (rest :: frames).flatten := by
    rw [hframes]
    rfl
  have hemitted : s.Emitted := by
    rcases h.phase with ⟨l, hl, -⟩ | hemitted
    · rw [hflat] at hl
      exact absurd (List.cons.inj hl).1 (hc l)
    · exact hemitted
  have hsub : (rest :: frames).flatten.Sublist s.frames.flatten := by
    rw [hflat]
    exact List.sublist_cons_self ..
  have hpopped := h.pop hemitted hsub
  have hlisted : { s with frames := rest :: frames, onSocket, onConnect }.Orderly :=
    hpopped.elsewhere ..
  have hnone : { s with frames := rest :: frames, onSocket, onConnect }.Emitted :=
    ⟨fun l hl => hemitted.1 l (by rw [hflat]; exact List.mem_cons_of_mem _ hl), hemitted.2⟩
  exact hlisted.setTimeout hfirst p.msecs fun _ _ => .inr hnone

theorem Orderly.next (h : s.Orderly) (hready : s.Ready .next) : s.next.Orderly := by
  unfold TimedRequest.next
  split
  · exact h
  · rename_i frames hframes
    refine h.ended ?_
    rw [hframes]
    rfl
  · rename_i c rest frames hframes
    cases c with
    | socket l => exact h.wakeClosure hframes
    | request l => exact h.wakeUser hframes
    | atSocket p =>
      exact h.wakePostponed hframes (by simp) (hready p rest frames (.inl hframes)) _ _ p
    | atConnect p =>
      exact h.wakePostponed hframes (by simp) (hready p rest frames (.inr hframes)) _ _ p

/-! ### Runs -/

theorem Orderly.idle (h : s.Orderly) (hready : s.Ready .idle) : (s.act .idle).Orderly := by
  simp only [TimedRequest.act]
  split_ifs with hidle
  · obtain ⟨⟨l, hl⟩, husers⟩ := hready hidle.1 hidle.2
    have hcount : s.emitted = s.idles := h.sound.exactly hidle.2
    have hclosure := h.closures l (by simp [hl])
    exact
      { quiet := h.quiet
        running := h.running
        listed := h.listed
        below := h.below
        runsOnce := h.runsOnce
        ran := h.ran
        waiting := fun x hx => by simp [hl] at hx
        waitingOnce := by simp [hl, List.filterMap_cons, listenerOf]
        closures := h.closures
        phase := .inl ⟨l, by simp [hl], hclosure, husers, by simp [hcount]⟩ }
  · exact h

/-- A step that meets `Ready` keeps order. -/
theorem Orderly.step (h : s.Orderly) {e : TimeoutEvent} (hready : s.Ready e) :
    (s.step e).Orderly := by
  have hcount : s.frames = [] → s.emitted = s.idles := h.sound.exactly
  unfold TimedRequest.step
  rw [if_neg (by simp [h.running])]
  cases e with
  | setTimeout msecs callback => exact h.userTimeout hready msecs callback
  | clearTimeout callback => exact h.userTimeout hready 0 callback
  | assigned writable =>
    simp only [TimedRequest.act]
    split_ifs with hnone
    · exact h.begin ⟨by simp, hcount hnone.2⟩ (by simp) rfl rfl rfl rfl rfl rfl
    · exact h
  | connected =>
    simp only [TimedRequest.act]
    split_ifs with hnone
    · exact h.begin ⟨by simp, hcount hnone.2⟩ (by simp) rfl rfl rfl rfl rfl rfl
    · exact h
  | closed =>
    simp only [TimedRequest.act]
    split_ifs
    · exact h
    · exact h.elsewhere ..
  | enroll enrolled =>
    simp only [TimedRequest.act]
    split_ifs
    · exact h
    · exact h.elsewhere ..
  | idle => exact h.idle hready
  | next => exact h.next hready
  | caught emissions => exact h

theorem orderly_fresh : fresh.Orderly where
  quiet := rfl
  running := rfl
  listed := List.nodup_nil
  below := by simp [fresh]
  runsOnce := List.nodup_nil
  ran := by simp [fresh]
  waiting := by simp [fresh]
  waitingOnce := by simp [fresh]
  closures := by simp [fresh]
  phase := .inr ⟨by simp [fresh], rfl⟩

/-- In every run whose steps meet `Ready`, no call raises an error and each idle timeout emits
'timeout' on the request once, in every state. -/
theorem timeouts_sound {es : List TimeoutEvent} (hready : Guarded step Ready fresh es) :
    ∀ t ∈ statesOf step fresh es, t.Sound := fun _ ht =>
  (guarded_states_invariant (fun _ _ h hr => h.step hr) orderly_fresh hready ht).sound

/-- One timeout of a second on a writable socket. -/
theorem timeouts_sound_one :
    (run step fresh [.assigned true, .next, .setTimeout 1000 true, .idle, .next, .next]).Sound :=
  timeouts_sound (by
    simp [Ready, step, act, fresh, FirstTime, next, setTimeout, given, once, applyTimeout,
      socketSetTimeout, OnlyUsers, wake, callBack, emit]) _ (run_mem_statesOf ..)

/-- A second `setTimeout`, or a `clearTimeout`, on the socket raises an error. -/
theorem second_timeout_raises :
    ¬ ∀ (es : List TimeoutEvent), ∀ t ∈ statesOf step fresh es, t.Sound := by
  intro h
  have hsound := h [.assigned true, .next, .setTimeout 1000 true, .clearTimeout false] _
    (run_mem_statesOf ..)
  have hquiet := hsound.quiet
  simp [run, step, act, fresh, next, setTimeout, given, once, applyTimeout, socketSetTimeout,
    raise] at hquiet

/-- A timeout set before there is a socket: the closure that stands in for the callback when the call
repeats itself emits 'timeout' a second time. -/
example : (run step fresh [.setTimeout 1000 true, .assigned true, .next, .next, .idle, .next,
    .next, .next]).emitted = 2 := by decide

end TimedRequest

end LuaNode.ClientRequest
