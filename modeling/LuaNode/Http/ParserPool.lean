import LuaNode.Http.ClientErrors
import Mathlib.Data.List.Nodup
import Mathlib.Logic.Function.Basic

/-!
# The pool of parsers

The `FreeList` of `free_list.lua`, and the parsers that `http.lua` takes from it for the connections
of its servers and for its client requests: who holds which parser, from `connectionListener` and
`onSocket` to `freeParser`. Parsers and sockets are numbered. The events of a socket come in any
order; a handler of the event loop that lets code of the user run, by a listener or by a callback of
the parser, waits for it, and meanwhile no other handler runs, but the user may emit 'connection' on
a server. What the parsers parse, and `req.parser`, that nothing reads, are left out.
-/

namespace LuaNode

/-- The list is a map from the elements to themselves. -/
structure FreeList (α : Type*) where
  map : List α
  count : ℕ
  max : ℕ

inductive Allocated (α : Type*)
  | stored (element : α)
  /-- the constructor is called -/
  | constructed
  /-- `next` of an empty map is nil, and no index -/
  | failed

namespace FreeList

variable {α : Type*}

def new (max : ℕ) : FreeList α := ⟨[], 0, max⟩

variable [DecidableEq α] (l : FreeList α)

/-- `alloc`; the order of `next` is not specified. -/
def alloc (pick : ℕ) : Allocated α × FreeList α :=
  if l.count > 0 then
    let l := { l with count := l.count - 1 }
    match l.map[pick % l.map.length]? with
    | none => (.failed, l)
    | some element => (.stored element, { l with map := l.map.erase element })
  else (.constructed, l)

def free (element : α) : FreeList α :=
  if l.count < l.max then
    if element ∈ l.map then l -- a warning
    else { l with map := element :: l.map, count := l.count + 1 }
  else l

/-- A map has an element once. -/
structure Valid (l : FreeList α) : Prop where
  nodup : l.map.Nodup
  count : l.count = l.map.length
  max : l.count ≤ l.max

variable {l}

omit [DecidableEq α] in
theorem new_valid (max : ℕ) : (new max : FreeList α).Valid :=
  ⟨List.nodup_nil, rfl, Nat.zero_le max⟩

theorem alloc_of_count (hcount : l.count = 0) (pick : ℕ) : l.alloc pick = (.constructed, l) :=
  if_neg (by omega)

/-- While elements are counted, one of them is taken. -/
theorem Valid.alloc_of_pos (h : l.Valid) (hpos : 0 < l.count) (pick : ℕ) :
    ∃ a ∈ l.map, l.alloc pick =
      (.stored a, { l with count := l.count - 1, map := l.map.erase a }) := by
  have hlength : pick % l.map.length < l.map.length := Nat.mod_lt _ (h.count ▸ hpos)
  refine ⟨l.map[pick % l.map.length], List.getElem_mem hlength, ?_⟩
  unfold alloc
  rw [if_pos hpos]
  simp [List.getElem?_eq_getElem hlength]

theorem Valid.erase (h : l.Valid) {a : α} (ha : a ∈ l.map) :
    ({ l with count := l.count - 1, map := l.map.erase a } : FreeList α).Valid := by
  have hcount := h.count
  have hmax := h.max
  refine ⟨h.nodup.erase a, ?_, ?_⟩
  · change l.count - 1 = (l.map.erase a).length
    rw [List.length_erase_of_mem ha, hcount]
  · change l.count - 1 ≤ l.max
    omega

theorem Valid.free (h : l.Valid) (a : α) : (l.free a).Valid := by
  unfold FreeList.free
  split_ifs with hmax hmem
  · exact h
  · refine ⟨List.nodup_cons.mpr ⟨hmem, h.nodup⟩, ?_, hmax⟩
    simp [h.count]
  · exact h

theorem mem_free {a b : α} (hb : b ∈ (l.free a).map) : b = a ∨ b ∈ l.map := by
  unfold free at hb
  split_ifs at hb
  · exact .inr hb
  · exact List.mem_cons.mp hb
  · exact .inr hb

end FreeList

inductive Side
  | client
  | server
  deriving DecidableEq

structure PooledParser where
  socket : Option ℕ
  /-- `incoming` is not nil -/
  incoming : Bool
  /-- `parserOnIncomingClient`, or the closure of a `connectionListener` -/
  onIncoming : Option Side
  deriving DecidableEq

/-- A parser of the constructor. -/
def PooledParser.new : PooledParser := ⟨none, false, none⟩

/-- What is called with the data of a socket, or with its end: `socketOnData` and `socketOnEnd`, the
closures of a `connectionListener` over its parser, or a function of the user. -/
inductive Feed
  | client
  | server (parser : ℕ)
  | user
  deriving DecidableEq

structure SocketLinks where
  parser : Option ℕ
  ondata : Option Feed
  onend : Option Feed
  /-- how many times `socketErrorListener` is there -/
  onError : ℕ
  /-- how many times `socketCloseListener` is there -/
  onClose : ℕ
  /-- how many functions `serverSocketCloseListener` are there -/
  onServerClose : ℕ

/-- The data or the end of the socket go to the parser. -/
def SocketLinks.Holds (links : SocketLinks) (p : ℕ) : Prop :=
  links.parser = some p ∨ links.ondata = some (.server p) ∨ links.onend = some (.server p)

/-- What a handler does with the parser that it has read: `parser:execute`, `freeParser` when the
listeners and `parser:finish` have returned, or `parser:finish` alone. -/
inductive ParserTask
  | execute (side : Side)
  | release
  | finish
  deriving DecidableEq

structure RunningHandler where
  socket : ℕ
  parser : Option ℕ
  task : ParserTask

structure ParserPool where
  /-- `parsers` -/
  free : FreeList ℕ
  parsers : ℕ → PooledParser
  /-- how many parsers were constructed -/
  made : ℕ
  sockets : ℕ → SocketLinks
  running : Option RunningHandler

namespace ParserPool

inductive Event
  /-- a socket is accepted, or 'connection' is emitted with it -/
  | connection (socket pick : ℕ)
  /-- what `onSocket` posted -/
  | onSocket (socket pick : ℕ)
  | data (socket : ℕ)
  | messageBegin
  | executed (outcome : Executed)
  | eof (socket : ℕ)
  | error (socket : ℕ)
  | close (socket : ℕ) (side : Side)
  /-- the listeners, and `parser:finish`, return -/
  | returned
  /-- one of them raises an error -/
  | raised
  | responseEnd (socket : ℕ) (shouldKeepAlive : Bool)
  /-- the user sets `ondata` and `onend` -/
  | setHandlers (socket : ℕ)

variable (w : ParserPool)

def init : ParserPool :=
  ⟨.new 1000, fun _ => .new, 0, fun _ => ⟨none, none, none, 0, 0, 0⟩, none⟩

def setSocket (socket : ℕ) (links : SocketLinks) : ParserPool :=
  { w with sockets := Function.update w.sockets socket links }

def setParser (p : ℕ) (parser : PooledParser) : ParserPool :=
  { w with parsers := Function.update w.parsers p parser }

/-- `parsers:alloc()`. -/
def alloc (pick : ℕ) : Option ℕ × ParserPool :=
  match w.free.alloc pick with
  | (.stored p, free) => (some p, { w with free })
  | (.constructed, free) =>
    (some w.made, { w.setParser w.made .new with free, made := w.made + 1 })
  | (.failed, free) => (none, { w with free })

def freeParser (p : ℕ) : ParserPool :=
  let w :=
    match (w.parsers p).socket with
    | none => w
    | some socket =>
      w.setSocket socket { w.sockets socket with onend := none, ondata := none, parser := none }
  { w.setParser p { w.parsers p with onIncoming := none, socket := none, incoming := false } with
    free := w.free.free p }

def connectionListener (socket pick : ℕ) : ParserPool :=
  match w.alloc pick with
  | (none, w) => w
  | (some p, w) =>
    (w.setParser p ⟨some socket, false, some .server⟩).setSocket socket { w.sockets socket with
      parser := some p
      ondata := some (.server p)
      onend := some (.server p)
      onServerClose := (w.sockets socket).onServerClose + 1 }

def onSocket (socket pick : ℕ) : ParserPool :=
  match w.alloc pick with
  | (none, w) => w
  | (some p, w) =>
    (w.setParser p ⟨some socket, false, some .client⟩).setSocket socket { w.sockets socket with
      parser := some p
      ondata := some .client
      onend := some .client
      onError := (w.sockets socket).onError + 1
      onClose := (w.sockets socket).onClose + 1 }

def start (socket : ℕ) (parser : Option ℕ) (task : ParserTask) : ParserPool :=
  { w with running := some ⟨socket, parser, task⟩ }

def stop : ParserPool := { w with running := none }

/-- `socketOnData`, or the `ondata` of a server, up to `parser:execute`. -/
def ondata (socket : ℕ) : ParserPool :=
  match (w.sockets socket).ondata with
  | some .client =>
    match (w.sockets socket).parser with
    | none => w -- an error
    | some p => w.start socket (some p) (.execute .client)
  | some (.server p) => w.start socket (some p) (.execute .server)
  | _ => w

/-- `socketOnEnd`, or the `onend` of a server, up to the code of the user. -/
def onend (socket : ℕ) : ParserPool :=
  match (w.sockets socket).onend with
  | some .client => w.start socket (w.sockets socket).parser .release
  | some (.server p) => w.start socket (some p) .finish
  | _ => w

/-- The listeners of 'close', one at a time. -/
def onClose (socket : ℕ) : Side → ParserPool
  | .client =>
    if (w.sockets socket).onClose > 0 then w.start socket (w.sockets socket).parser .release else w
  | .server =>
    if (w.sockets socket).onServerClose > 0 then
      match (w.sockets socket).parser with
      | none => w
      | some p => w.freeParser p
    else w

/-- The rest of `socketOnData`. An upgrade lets `parser:finish` and the listeners of the request run
before it frees the parser. -/
def clientExecuted (socket p : ℕ) (outcome : Executed) : ParserPool :=
  let w := w.stop
  match outcome with
  | .parseError _ => w.freeParser p
  | .upgrade handled =>
    if (w.parsers p).incoming then
      let links := { w.sockets socket with ondata := none, onend := none }
      let links :=
        if handled then { links with onClose := links.onClose - 1, onError := links.onError - 1 }
        else links
      (w.setSocket socket links).start socket (some p) .release
    else w
  | .complete => if (w.parsers p).incoming then w.freeParser p else w
  | .more => w

/-- The rest of the `ondata` of a server. -/
def serverExecuted (socket p : ℕ) (outcome : Executed) : ParserPool :=
  let w := w.stop
  match outcome with
  | .upgrade _ =>
    if (w.parsers p).incoming then
      let links := w.sockets socket
      (w.setSocket socket { links with
        ondata := none
        onend := none
        onServerClose := links.onServerClose - 1 }).start socket (some p) .release
    else w
  | _ => w

/-- `responseOnEnd`. -/
def responseOnEnd (socket : ℕ) (shouldKeepAlive : Bool) : ParserPool :=
  if shouldKeepAlive then
    let links := w.sockets socket
    w.setSocket socket { links with onClose := links.onClose - 1, onError := links.onError - 1 }
  else w

def step : Event → ParserPool
  | .connection socket pick => w.connectionListener socket pick
  | .onSocket socket pick => if w.running.isNone then w.onSocket socket pick else w
  | .data socket => if w.running.isNone then w.ondata socket else w
  | .messageBegin =>
    match w.running with
    | some ⟨_, some p, .execute _⟩ => w.setParser p { w.parsers p with incoming := true }
    | _ => w
  | .executed outcome =>
    match w.running with
    | some ⟨socket, some p, .execute .client⟩ => w.clientExecuted socket p outcome
    | some ⟨socket, some p, .execute .server⟩ => w.serverExecuted socket p outcome
    | _ => w
  | .eof socket => if w.running.isNone then w.onend socket else w
  | .error socket =>
    if w.running.isNone ∧ (w.sockets socket).onError > 0 then
      w.start socket (w.sockets socket).parser .release
    else w
  | .close socket side => if w.running.isNone then w.onClose socket side else w
  | .returned =>
    match w.running with
    | some ⟨_, some p, .release⟩ => w.stop.freeParser p
    | some ⟨_, _, .execute _⟩ => w
    | _ => w.stop
  | .raised => w.stop
  | .responseEnd socket shouldKeepAlive => w.responseOnEnd socket shouldKeepAlive
  | .setHandlers socket =>
    w.setSocket socket { w.sockets socket with ondata := some .user, onend := some .user }

/-! ### Who holds a parser -/

/-- The socket, or the handler that runs for it, holds the parser. -/
def Feeds (p socket : ℕ) : Prop :=
  (w.sockets socket).Holds p ∨ ∃ task, w.running = some ⟨socket, some p, task⟩

def Attached (p socket : ℕ) : Prop := (w.parsers p).socket = some socket ∨ w.Feeds p socket

/-- A parser knows the socket that holds it; one that has no socket is as the constructor made
it. -/
structure Inv (w : ParserPool) : Prop where
  valid : w.free.Valid
  stored : ∀ p ∈ w.free.map, p < w.made ∧ (w.parsers p).socket = none
  fresh : ∀ p, w.made ≤ p → (w.parsers p).socket = none
  clean : ∀ p, (w.parsers p).socket = none → w.parsers p = .new
  feeds : ∀ p socket, w.Feeds p socket → (w.parsers p).socket = some socket
  client : ∀ socket, (w.sockets socket).ondata = some .client →
    (w.sockets socket).parser ≠ none

variable {w} {p socket : ℕ}

theorem init_inv : init.Inv := by
  refine ⟨FreeList.new_valid 1000, nofun, fun _ _ => rfl, fun _ _ => rfl,
    fun p socket hfeeds => ?_, nofun⟩
  rcases hfeeds with hholds | ⟨task, hrunning⟩
  · rcases hholds with h | h | h <;> cases h
  · cases hrunning

theorem Inv.attached (h : w.Inv) (hattached : w.Attached p socket) :
    (w.parsers p).socket = some socket :=
  hattached.elim id (h.feeds p socket)

theorem Inv.not_stored (h : w.Inv) (hattached : w.Attached p socket) : p ∉ w.free.map := by
  intro hp
  have hnone := (h.stored p hp).2
  rw [h.attached hattached] at hnone
  cases hnone

/-- The sockets may lose what they hold. -/
theorem Inv.setSocket (h : w.Inv) {links : SocketLinks}
    (hholds : ∀ p, links.Holds p → (w.sockets socket).Holds p)
    (hclient : links.ondata = some .client → links.parser ≠ none) :
    (w.setSocket socket links).Inv := by
  refine ⟨h.valid, h.stored, h.fresh, h.clean, fun p s hfeeds => h.feeds p s ?_, fun s => ?_⟩
  · refine hfeeds.imp_left fun hheld => ?_
    by_cases hs : s = socket
    · subst hs
      exact hholds p (by simpa [ParserPool.setSocket] using hheld)
    · simpa [ParserPool.setSocket, Function.update_of_ne hs] using hheld
  · by_cases hs : s = socket
    · subst hs
      simpa [ParserPool.setSocket] using hclient
    · simpa [ParserPool.setSocket, Function.update_of_ne hs] using h.client s

/-- The functions of a socket are taken away, or replaced by those of the user. -/
theorem Inv.unlink (h : w.Inv) {links : SocketLinks}
    (hparser : links.parser = (w.sockets socket).parser)
    (hondata : links.ondata = none ∨ links.ondata = some .user)
    (honend : links.onend = none ∨ links.onend = some .user) : (w.setSocket socket links).Inv := by
  refine h.setSocket (fun p hheld => .inl ?_) fun hclient => ?_
  · rw [← hparser]
    rcases hheld with hp | hserver | hserver
    · exact hp
    · rw [hserver] at hondata
      simp at hondata
    · rw [hserver] at honend
      simp at honend
  · rw [hclient] at hondata
    simp at hondata

theorem Inv.start (h : w.Inv) {parser : Option ℕ} (task : ParserTask)
    (hparser : ∀ p, parser = some p → (w.parsers p).socket = some socket) :
    (w.start socket parser task).Inv := by
  refine ⟨h.valid, h.stored, h.fresh, h.clean, fun p s hfeeds => ?_, h.client⟩
  rcases hfeeds with hheld | ⟨task, hrunning⟩
  · exact h.feeds p s (.inl hheld)
  · simp only [ParserPool.start, Option.some.injEq, RunningHandler.mk.injEq] at hrunning
    obtain ⟨rfl, hp, -⟩ := hrunning
    exact hparser p hp

theorem Inv.stop (h : w.Inv) : w.stop.Inv := by
  refine ⟨h.valid, h.stored, h.fresh, h.clean, fun p s hfeeds => h.feeds p s (.inl ?_), h.client⟩
  rcases hfeeds with hheld | ⟨task, hrunning⟩
  · exact hheld
  · cases hrunning

/-- A parser that no one holds is given to a socket. What the socket held before is forgotten. -/
theorem Inv.attach (h : w.Inv) {p : ℕ} (hmade : p < w.made) (hstored : p ∉ w.free.map)
    (hsocket : (w.parsers p).socket = none) (socket : ℕ) (side : Side) {links : SocketLinks}
    (hholds : ∀ q, links.Holds q → q = p) (hparser : links.parser = some p) :
    ((w.setParser p ⟨some socket, false, some side⟩).setSocket socket links).Inv := by
  have hother : ∀ q, q ≠ p →
      Function.update w.parsers p ⟨some socket, false, some side⟩ q = w.parsers q :=
    fun q hq => Function.update_of_ne hq _ _
  have hself : Function.update w.parsers p ⟨some socket, false, some side⟩ p =
      ⟨some socket, false, some side⟩ := Function.update_self _ _ _
  refine ⟨h.valid, fun q hq => ?_, fun q hq => ?_, fun q hnone => ?_, fun q s hfeeds => ?_,
    fun s hclient => ?_⟩
  · have hne : q ≠ p := fun heq => hstored (heq ▸ hq)
    exact ⟨(h.stored q hq).1, (congrArg _ (hother q hne)).trans (h.stored q hq).2⟩
  · have hne : q ≠ p := by
      rintro rfl
      exact absurd hmade (Nat.not_lt.mpr hq)
    exact (congrArg _ (hother q hne)).trans (h.fresh q hq)
  · change (Function.update w.parsers p _ q).socket = none at hnone
    change Function.update w.parsers p _ q = .new
    by_cases hne : q = p
    · rw [hne, hself] at hnone
      cases hnone
    · rw [hother q hne] at hnone ⊢
      exact h.clean q hnone
  · change (Function.update w.parsers p _ q).socket = some s
    have hold : w.Feeds q s → (Function.update w.parsers p ⟨some socket, false, some side⟩
        q).socket = some s := by
      intro hfed
      have hsome := h.feeds q s hfed
      have hne : q ≠ p := by
        rintro rfl
        rw [hsocket] at hsome
        cases hsome
      rw [hother q hne]
      exact hsome
    rcases hfeeds with hheld | hrunning
    · change (Function.update w.sockets socket links s).Holds q at hheld
      by_cases hs : s = socket
      · rw [hs, Function.update_self] at hheld
        rw [hholds q hheld, hself, hs]
      · rw [Function.update_of_ne hs] at hheld
        exact hold (.inl hheld)
    · exact hold (.inr hrunning)
  · change (Function.update w.sockets socket links s).ondata = _ at hclient
    change (Function.update w.sockets socket links s).parser ≠ none
    by_cases hs : s = socket
    · rw [hs, Function.update_self, hparser]
      exact Option.some_ne_none p
    · rw [Function.update_of_ne hs] at hclient ⊢
      exact h.client s hclient

/-- `alloc` takes a parser that no one holds, and it is as the constructor made it. -/
theorem Inv.alloc (h : w.Inv) (pick : ℕ) :
    ∃ p free made, w.alloc pick = (some p, { w with free, made }) ∧
      ({ w with free, made } : ParserPool).Inv ∧ p < made ∧ p ∉ free.map ∧
      w.parsers p = .new := by
  rcases Nat.eq_zero_or_pos w.free.count with hcount | hpos
  · have hnone := h.fresh w.made le_rfl
    have hnew : w.setParser w.made .new = w := by
      simp [setParser, ← h.clean w.made hnone]
    have hstored : w.made ∉ w.free.map := fun hmem => absurd (h.stored _ hmem).1 (lt_irrefl _)
    refine ⟨w.made, w.free, w.made + 1, ?_, ?_, Nat.lt_succ_self _, hstored, h.clean _ hnone⟩
    · simp [ParserPool.alloc, FreeList.alloc_of_count hcount, hnew]
    · exact ⟨h.valid, fun q hq => ⟨Nat.lt_succ_of_lt (h.stored q hq).1, (h.stored q hq).2⟩,
        fun q hq => h.fresh q (Nat.le_of_succ_le hq), h.clean, h.feeds, h.client⟩
  · obtain ⟨p, hp, halloc⟩ := h.valid.alloc_of_pos hpos pick
    have hkept : ∀ q ∈ w.free.map.erase p, q ∈ w.free.map := fun q => List.mem_of_mem_erase
    refine ⟨p, { w.free with count := w.free.count - 1, map := w.free.map.erase p }, w.made, ?_,
      ?_, (h.stored p hp).1, h.valid.nodup.not_mem_erase, h.clean p (h.stored p hp).2⟩
    · simp [ParserPool.alloc, halloc]
    · exact ⟨h.valid.erase hp, fun q hq => h.stored q (hkept q hq), h.fresh, h.clean, h.feeds,
        h.client⟩

/-- What the sockets hold after `freeParser`. -/
theorem freeParser_holds (h : w.Inv) {q s : ℕ}
    (hheld : ((w.freeParser p).sockets s).Holds q) : (w.sockets s).Holds q ∧ q ≠ p := by
  have hp : (w.sockets s).Holds p → (w.parsers p).socket = some s := fun hs => h.feeds p s (.inl hs)
  unfold ParserPool.freeParser at hheld
  cases hsocket : (w.parsers p).socket with
  | none =>
    simp only [hsocket] at hheld
    refine ⟨hheld, ?_⟩
    rintro rfl
    rw [hp hheld] at hsocket
    cases hsocket
  | some t =>
    simp only [hsocket] at hheld
    by_cases hs : s = t
    · subst hs
      simp [ParserPool.setSocket, setParser, SocketLinks.Holds] at hheld
    · simp only [ParserPool.setSocket, setParser, Function.update_of_ne hs] at hheld
      refine ⟨hheld, ?_⟩
      rintro rfl
      rw [hp hheld] at hsocket
      exact hs (Option.some.inj hsocket)

theorem freeParser_client (h : w.Inv) {s : ℕ}
    (hclient : ((w.freeParser p).sockets s).ondata = some .client) :
    ((w.freeParser p).sockets s).parser ≠ none := by
  unfold ParserPool.freeParser at hclient ⊢
  cases hsocket : (w.parsers p).socket with
  | none =>
    simp only [hsocket] at hclient ⊢
    exact h.client s hclient
  | some t =>
    simp only [hsocket] at hclient ⊢
    by_cases hs : s = t
    · subst hs
      simp [ParserPool.setSocket, setParser] at hclient
    · simp only [ParserPool.setSocket, setParser, Function.update_of_ne hs] at hclient ⊢
      exact h.client s hclient

theorem freeParser_parsers (w : ParserPool) (p : ℕ) :
    (w.freeParser p).parsers = Function.update w.parsers p .new := by
  unfold ParserPool.freeParser
  cases (w.parsers p).socket <;> rfl

theorem freeParser_free (w : ParserPool) (p : ℕ) :
    (w.freeParser p).free = w.free.free p ∧ (w.freeParser p).made = w.made ∧
      (w.freeParser p).running = w.running := by
  unfold ParserPool.freeParser
  cases (w.parsers p).socket <;> exact ⟨rfl, rfl, rfl⟩

/-- `freeParser` takes the parser from the socket that holds it, and no handler goes on with it. -/
theorem Inv.freeParser (h : w.Inv) (hrunning : w.running = none) (hmade : p < w.made) :
    (w.freeParser p).Inv := by
  obtain ⟨hfree, hcount, hrun⟩ := freeParser_free w p
  have hother : ∀ q, q ≠ p → (w.freeParser p).parsers q = w.parsers q := by
    intro q hq
    rw [freeParser_parsers, Function.update_of_ne hq]
  have hself : (w.freeParser p).parsers p = .new := by
    rw [freeParser_parsers, Function.update_self]
  refine ⟨?_, fun q hq => ?_, fun q hq => ?_, fun q hnone => ?_, fun q s hfeeds => ?_,
    fun s => freeParser_client h⟩
  · rw [hfree]
    exact h.valid.free p
  · rw [hfree] at hq
    rw [hcount]
    by_cases hne : q = p
    · rw [hne, hself]
      exact ⟨hmade, rfl⟩
    · rw [hother q hne]
      exact h.stored q ((FreeList.mem_free hq).resolve_left hne)
  · rw [hcount] at hq
    have hne : q ≠ p := by
      rintro rfl
      exact absurd hmade (Nat.not_lt.mpr hq)
    rw [hother q hne]
    exact h.fresh q hq
  · by_cases hne : q = p
    · rw [hne, hself]
    · rw [hother q hne] at hnone ⊢
      exact h.clean q hnone
  · rcases hfeeds with hheld | ⟨task, htask⟩
    · obtain ⟨hold, hne⟩ := freeParser_holds h hheld
      rw [hother q hne]
      exact h.feeds q s (.inl hold)
    · rw [hrun, hrunning] at htask
      cases htask

/-! ### Every step -/

theorem Inv.lt_made (h : w.Inv) (hsocket : (w.parsers p).socket = some socket) : p < w.made := by
  by_contra hmade
  rw [h.fresh p (Nat.not_lt.mp hmade)] at hsocket
  cases hsocket

theorem Inv.connectionListener (h : w.Inv) (socket pick : ℕ) :
    (w.connectionListener socket pick).Inv := by
  obtain ⟨p, free, made, halloc, hinv, hmade, hstored, hnew⟩ := h.alloc pick
  unfold ParserPool.connectionListener
  rw [halloc]
  refine hinv.attach hmade hstored (by simp [hnew, PooledParser.new]) socket .server
    (fun q hq => ?_) rfl
  rcases hq with hq | hq | hq <;> cases hq <;> rfl

theorem Inv.onSocket (h : w.Inv) (socket pick : ℕ) : (w.onSocket socket pick).Inv := by
  obtain ⟨p, free, made, halloc, hinv, hmade, hstored, hnew⟩ := h.alloc pick
  unfold ParserPool.onSocket
  rw [halloc]
  refine hinv.attach hmade hstored (by simp [hnew, PooledParser.new]) socket .client
    (fun q hq => ?_) rfl
  rcases hq with hq | hq | hq <;> cases hq
  rfl

/-- A handler reads the parser of its socket. -/
theorem Inv.start_parser (h : w.Inv) (socket : ℕ) (task : ParserTask) :
    (w.start socket (w.sockets socket).parser task).Inv :=
  h.start task fun p hp => h.feeds p socket (.inl (.inl hp))

theorem Inv.ondata (h : w.Inv) (socket : ℕ) : (w.ondata socket).Inv := by
  unfold ParserPool.ondata
  split
  · next hclient =>
    cases hparser : (w.sockets socket).parser with
    | none => exact absurd hparser (h.client socket hclient)
    | some p =>
      have hstart := h.start_parser socket (.execute .client)
      rwa [hparser] at hstart
  · next p hserver =>
    refine h.start _ fun q hq => ?_
    cases hq
    exact h.feeds p socket (.inl (.inr (.inl hserver)))
  · exact h

theorem Inv.onend (h : w.Inv) (socket : ℕ) : (w.onend socket).Inv := by
  unfold ParserPool.onend
  split
  · exact h.start_parser socket _
  · next p hserver =>
    refine h.start _ fun q hq => ?_
    cases hq
    exact h.feeds p socket (.inl (.inr (.inr hserver)))
  · exact h

theorem Inv.onClose (h : w.Inv) (hrunning : w.running = none) (socket : ℕ) (side : Side) :
    (w.onClose socket side).Inv := by
  cases side with
  | client =>
    unfold ParserPool.onClose
    dsimp only
    split_ifs
    · exact h.start_parser socket _
    · exact h
  | server =>
    unfold ParserPool.onClose
    dsimp only
    split_ifs
    · split
      · exact h
      · next p hp => exact h.freeParser hrunning (h.lt_made (h.feeds p socket (.inl (.inl hp))))
    · exact h

/-- An upgrade takes the functions of the socket away, and the handler goes on with its parser. -/
theorem Inv.upgrade (h : w.Inv) (hp : (w.parsers p).socket = some socket) {links : SocketLinks}
    (hparser : links.parser = (w.sockets socket).parser) (hondata : links.ondata = none)
    (honend : links.onend = none) :
    ((w.setSocket socket links).start socket (some p) .release).Inv := by
  refine (h.unlink hparser (.inl hondata) (.inl honend)).start _ fun q hq => ?_
  cases hq
  exact hp

theorem Inv.clientExecuted (h : w.Inv) (hp : (w.parsers p).socket = some socket)
    (outcome : Executed) : (w.clientExecuted socket p outcome).Inv := by
  have hfreed : (w.stop.freeParser p).Inv := h.stop.freeParser rfl (h.lt_made hp)
  unfold ParserPool.clientExecuted
  cases outcome <;> dsimp only
  case parseError => exact hfreed
  case more => exact h.stop
  case upgrade handled =>
    split_ifs
    · exact h.stop.upgrade hp rfl rfl rfl
    · exact h.stop.upgrade hp rfl rfl rfl
    · exact h.stop
  case complete =>
    split_ifs
    · exact hfreed
    · exact h.stop

theorem Inv.serverExecuted (h : w.Inv) (hp : (w.parsers p).socket = some socket)
    (outcome : Executed) : (w.serverExecuted socket p outcome).Inv := by
  unfold ParserPool.serverExecuted
  cases outcome <;> dsimp only
  case upgrade handled =>
    split_ifs
    · exact h.stop.upgrade hp rfl rfl rfl
    · exact h.stop
  all_goals exact h.stop

theorem Inv.messageBegin (h : w.Inv) (hp : (w.parsers p).socket = some socket) :
    (w.setParser p { w.parsers p with incoming := true }).Inv := by
  have hsocket : ∀ q, (Function.update w.parsers p { w.parsers p with incoming := true } q).socket =
      (w.parsers q).socket := by
    intro q
    by_cases hq : q = p
    · rw [hq, Function.update_self]
    · rw [Function.update_of_ne hq]
  refine ⟨h.valid, fun q hq => ⟨(h.stored q hq).1, (hsocket q).trans (h.stored q hq).2⟩,
    fun q hq => (hsocket q).trans (h.fresh q hq), fun q hnone => ?_,
    fun q s hfeeds => (hsocket q).trans (h.feeds q s hfeeds), h.client⟩
  have hold := (hsocket q).symm.trans hnone
  have hne : q ≠ p := by
    rintro rfl
    rw [hp] at hold
    cases hold
  exact (Function.update_of_ne hne _ _).trans (h.clean q hold)

theorem Inv.step (h : w.Inv) (e : Event) : (w.step e).Inv := by
  have hrunning : ∀ {h'}, w.running = some h' → ∀ p, h'.parser = some p →
      (w.parsers p).socket = some h'.socket := by
    rintro ⟨socket, parser, task⟩ hrun p rfl
    exact h.feeds p socket (.inr ⟨task, hrun⟩)
  cases e <;> unfold ParserPool.step <;> dsimp only
  case connection socket pick => exact h.connectionListener socket pick
  case onSocket socket pick =>
    split_ifs
    · exact h.onSocket socket pick
    · exact h
  case data socket =>
    split_ifs
    · exact h.ondata socket
    · exact h
  case messageBegin =>
    split
    · next hrun => exact h.messageBegin (hrunning hrun _ rfl)
    · exact h
  case executed outcome =>
    split
    · next hrun => exact h.clientExecuted (hrunning hrun _ rfl) outcome
    · next hrun => exact h.serverExecuted (hrunning hrun _ rfl) outcome
    · exact h
  case eof socket =>
    split_ifs
    · exact h.onend socket
    · exact h
  case error socket =>
    split_ifs
    · exact h.start_parser socket _
    · exact h
  case close socket side =>
    split_ifs with hnone
    · exact h.onClose (Option.isNone_iff_eq_none.mp hnone) socket side
    · exact h
  case returned =>
    split
    · next hrun => exact h.stop.freeParser rfl (h.lt_made (hrunning hrun _ rfl))
    · exact h
    · exact h.stop
  case raised => exact h.stop
  case responseEnd socket shouldKeepAlive =>
    unfold responseOnEnd
    split_ifs
    · exact h.setSocket (fun _ hq => hq) (h.client socket)
    · exact h
  case setHandlers socket =>
    exact h.unlink rfl (.inr rfl) (.inr rfl)

/-- In every run of connections and requests a parser is attached to one socket at most, and then it
is not in the free list, which has no parser twice and counts what it stores. A parser that is
allocated is attached to no socket. -/
theorem attached_to_one (es : List Event) :
    let w := run step init es
    (∀ p s t, w.Attached p s → w.Attached p t → s = t) ∧
    (∀ p s, w.Attached p s → p ∉ w.free.map) ∧
    w.free.map.Nodup ∧ w.free.count = w.free.map.length ∧ w.free.count ≤ w.free.max ∧
    ∀ pick, ∃ p, (w.alloc pick).1 = some p ∧ ∀ s, ¬ w.Attached p s := by
  intro w
  have hinv : w.Inv := run_invariant (I := Inv) (fun _ e h => h.step e) init_inv es
  refine ⟨fun p s t hs ht => ?_, fun p s => hinv.not_stored, hinv.valid.nodup, hinv.valid.count,
    hinv.valid.max, fun pick => ?_⟩
  · have hsome := hinv.attached hs
    rw [hinv.attached ht] at hsome
    exact (Option.some.inj hsome).symm
  · obtain ⟨p, free, made, halloc, -, -, -, hnew⟩ := hinv.alloc pick
    refine ⟨p, by rw [halloc], fun s hs => ?_⟩
    have hsome := hinv.attached hs
    rw [hnew] at hsome
    cases hsome

end ParserPool

end LuaNode
