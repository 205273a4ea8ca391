import LuaNode.Events.EventEmitter
import LuaNode.Http.KeepAlive
import LuaNode.Http.ServerConnection

/-!
# 'drain' from the socket to the message

`http.lua` has two functions `httpSocketSetup`. That of the server makes `ondrain` a listener of the
socket's 'drain'; that of the client, which `onSocket` calls for each request that gets the socket,
puts a function into the field `ondrain` of the socket. `afterWrite` of `net.lua` emits 'drain' and
does not look at the field.

A connection is one of those of `ServerConnection` or `KeepAlive`, with the event emitter of its
socket, on which other code adds and removes listeners of its own and which it may make emit. A
listener runs until it returns, and everything else may happen meanwhile.
-/

namespace LuaNode

/-- The functions that listen to a socket: `ondrain`, which is local to `http.lua`, and those of
other code. -/
inductive SocketFunction
  | ondrain
  | other (f : ℕ)
  deriving DecidableEq

/-- A listener that other code has made. -/
def Listener.ofOther : Listener ℕ → Listener SocketFunction
  | .func f => .func (.other f)
  | .callback id kind listener => .callback id kind listener.ofOther

/-- An operation of other code. -/
def Op.ofOther {β : Type*} : Op ℕ β → Op SocketFunction β
  | .addListener kind listener => .addListener kind listener.ofOther
  | .once kind listener => .once kind listener.ofOther
  | .removeListener kind listener => .removeListener kind listener.ofOther
  | .removeAllListeners kind => .removeAllListeners kind
  | .listeners kind => .listeners kind
  | .emit kind values => .emit kind values

def Action.ofOther {β : Type*} : Action ℕ β → Action SocketFunction β
  | .op o => .op o.ofOther
  | .ret stop => .ret stop

/-- `ondrain` is called. -/
def Observation.isOndrain {β : Type*} : Observation SocketFunction β → Bool
  | .called (.func .ondrain) _ _ => true
  | _ => false

inductive HttpConnection
  | server (c : ServerConnection)
  | client (w : KeepAlive)

/-- `socket._httpMessage`. -/
def HttpConnection.httpMessage : HttpConnection → Option ℕ
  | .server c => c.socket.httpMessage
  | .client w => w.socket.httpMessage

def HttpConnection.isServer : HttpConnection → Bool
  | .server _ => true
  | .client _ => false

/-- What the client's `httpSocketSetup` leaves on a socket, with a function in the field `ondrain`
that would read it. -/
structure OndrainField where
  outgoing : List ℕ
  destroyOnDrain : Bool

structure HttpSocket where
  connection : HttpConnection
  emitter : EventEmitter SocketFunction Str
  ondrain : Option OndrainField
  /-- the messages that `ondrain` has made emit 'drain', in order -/
  drained : List ℕ

/-- What happens around the socket. `emit` of 'drain' is done by `afterWrite`. -/
inductive HttpSocketEvent
  | server (e : ServerConnection.Event)
  | client (e : KeepAliveEvent)
  | emitter (a : Action ℕ Str)

namespace HttpSocket

variable (s : HttpSocket)

/-- The emitter goes on to `e`; in each call of `ondrain` the message that is attached emits. -/
def relay (e : EventEmitter SocketFunction Str) : HttpSocket :=
  { s with
    emitter := e
    drained := s.drained ++
      ((e.log.drop s.emitter.log.length).filter Observation.isOndrain).flatMap fun _ =>
        s.connection.httpMessage.toList }

/-- `httpSocketSetup` of the server. -/
def serverSetup : HttpSocket :=
  s.relay ((s.emitter.removeListener "drain".toList (.func .ondrain)).addListener "drain".toList
    (.func .ondrain))

/-- `httpSocketSetup` of the client. -/
def clientSetup : HttpSocket := { s with ondrain := some ⟨[], false⟩ }

/-- A new connection; `connectionListener` sets the socket of a server up. -/
def start (connection : HttpConnection) (events : Bool) : HttpSocket :=
  let s : HttpSocket := ⟨connection, .init events, none, []⟩
  match connection with
  | .server _ => s.serverSetup
  | .client _ => s

def step : HttpSocketEvent → HttpSocket
  | .server e =>
    match s.connection with
    | .server c => { s with connection := .server (c.step e) }
    | .client _ => s
  | .client e =>
    match s.connection with
    | .server _ => s
    | .client w =>
      match e, w.pending with
      | .tick, some _ => { s with connection := .client (w.step .tick) }.clientSetup
      | e, _ => { s with connection := .client (w.step e) }
  | .emitter a => s.relay (s.emitter.step a.ofOther)

/-- The messages that have to emit 'drain' for this event. -/
def due : HttpSocketEvent → List ℕ
  | .emitter (.op (.emit kind _)) =>
    if kind = "drain".toList then s.connection.httpMessage.toList else []
  | _ => []

/-- When the socket emits 'drain' the attached message emits it once, and no other message does;
at other times the socket makes no message emit. -/
def Relays (e : HttpSocketEvent) : Prop := (s.step e).drained = s.drained ++ s.due e

instance (e : HttpSocketEvent) : Decidable (s.Relays e) := inferInstanceAs (Decidable (_ = _))

/-- `ondrain` is a listener of the socket's 'drain'. -/
def Listens : Prop :=
  .func .ondrain ∈ EventEmitter.toList (s.emitter.entry "drain".toList)

instance : Decidable s.Listens := inferInstanceAs (Decidable (_ ∈ _))

/-- When the socket emits 'drain', no message is attached, or it is a server's connection and nobody
has removed all listeners of its 'drain'. -/
def Attended : HttpSocketEvent → Prop
  | .emitter (.op (.emit kind _)) =>
    kind = "drain".toList → s.connection.httpMessage ≠ none →
      s.connection.isServer = true ∧ s.Listens
  | _ => True

end HttpSocket

/-! ### Listeners of other code -/

/-- The function of a listener is not `ondrain`. -/
def Listener.Other : Listener SocketFunction → Prop
  | .func f => f ≠ .ondrain
  | .callback _ _ listener => listener.Other

def After.Other : After SocketFunction → Prop
  | .result => True
  | .append _ listener => listener.Other

theorem Listener.ofOther_other (l : Listener ℕ) : l.ofOther.Other := by
  induction l with
  | func f => exact nofun
  | callback id kind listener ih => exact ih

theorem Listener.Other.ne {l : Listener SocketFunction} (h : l.Other) : l ≠ .func .ondrain := by
  rintro rfl
  exact h rfl

namespace ListenerLists

variable {e : ListenerLists SocketFunction Str}

/-- `ondrain` can be the first listener of 'drain', and is nowhere else. -/
structure Tidy (e : ListenerLists SocketFunction Str) : Prop where
  others : ∀ kind, kind ≠ "drain".toList → ∀ l ∈ e.lists kind, l.Other
  behind : ∀ l ∈ (e.lists "drain".toList).tail, l.Other
  emissions : ∀ m ∈ e.emissions, (∀ l ∈ m.rest, l.Other) ∧ m.after.Other

/-- `ondrain` is the first listener of 'drain'. -/
def First (e : ListenerLists SocketFunction Str) : Prop :=
  (e.lists "drain".toList).head? = some (.func .ondrain)

/-- The calls of `ondrain` on the way from `e` to `e'`, on which it does not become a listener, and
stays one unless all are removed. -/
structure Calls (e e' : ListenerLists SocketFunction Str) (removed : Bool)
    (calls : List (Observation SocketFunction Str)) : Prop where
  tidy : Tidy e'
  log : ∃ new, e'.log = e.log ++ new ∧ new.filter Observation.isOndrain = calls
  first : First e' → First e
  stays : removed = false → First e → First e'

theorem Tidy.first_iff (h : Tidy e) :
    First e ↔ .func .ondrain ∈ e.lists "drain".toList := by
  have hbehind := h.behind
  unfold First
  cases hl : e.lists "drain".toList with
  | nil => simp
  | cons a rest =>
    rw [hl] at hbehind
    have hrest : .func .ondrain ∉ rest := fun hmem => (hbehind _ hmem).ne rfl
    simp [hrest, eq_comm]

theorem tidy_of_empty (hempty : ∀ kind, e.lists kind = [])
    (hemissions : ∀ m ∈ e.emissions, (∀ l ∈ m.rest, l.Other) ∧ m.after.Other) : Tidy e where
  others kind _ := by simp [hempty kind]
  behind := by simp [hempty]
  emissions := hemissions

theorem not_first_of_empty (hempty : ∀ kind, e.lists kind = []) : ¬First e := by
  simp [First, hempty]

theorem calls_refl (h : Tidy e) : Calls e e false [] :=
  ⟨h, ⟨[], by simp, rfl⟩, id, fun _ => id⟩

/-- Nothing is called while the lists change. -/
theorem calls_setList (h : Tidy e) {kind : Str} {list : List (Listener SocketFunction)}
    {removed : Bool} (hothers : kind ≠ "drain".toList → ∀ l ∈ list, l.Other)
    (hbehind : kind = "drain".toList → (∀ l ∈ list.tail, l.Other) ∧
      (list.head? = some (.func .ondrain) → First e) ∧
      (removed = false → First e → list.head? = some (.func .ondrain))) :
    Calls e (e.setList kind list) removed [] := by
  by_cases hkind : kind = "drain".toList
  · obtain ⟨htail, hfirst, hstays⟩ := hbehind hkind
    subst hkind
    refine ⟨⟨?_, ?_, h.emissions⟩, ⟨[], by simp [setList], rfl⟩, ?_, ?_⟩
    · intro k hk
      have hsame : (e.setList "drain".toList list).lists k = e.lists k :=
        Function.update_of_ne hk _ _
      rw [hsame]
      exact h.others k hk
    · simpa [setList] using htail
    · simpa [setList, First] using hfirst
    · simpa [setList, First] using hstays
  · have hdrain : (e.setList kind list).lists "drain".toList = e.lists "drain".toList := by
      simp only [setList]
      exact Function.update_of_ne (Ne.symm hkind) _ _
    refine ⟨⟨?_, ?_, h.emissions⟩, ⟨[], by simp [setList], rfl⟩, ?_, ?_⟩
    · intro k hk
      by_cases hkk : k = kind
      · subst hkk
        simpa [setList] using hothers hk
      · simpa [setList, hkk] using h.others k hk
    · rw [hdrain]
      exact h.behind
    · simp only [First, hdrain]
      exact id
    · simp only [First, hdrain]
      exact fun _ => id

theorem calls_remove (h : Tidy e) (kind : Str) {l : Listener SocketFunction}
    (hl : l ≠ .func .ondrain) : Calls e (e.remove kind l) false [] := by
  apply calls_setList h
  · intro hkind l' hmem
    exact h.others kind hkind l' (List.mem_of_mem_erase hmem)
  · rintro rfl
    have hbehind := h.behind
    unfold First
    cases hlist : e.lists "drain".toList with
    | nil => simp
    | cons a rest =>
      rw [hlist] at hbehind
      by_cases ha : a = l
      · subst ha
        rw [List.erase_cons_head]
        refine ⟨fun l' hmem => hbehind l' (List.mem_of_mem_tail hmem), fun hhead => ?_, ?_⟩
        · exact absurd rfl (hbehind _ (List.mem_of_mem_head? hhead)).ne
        · intro _ hfirst
          exact absurd (Option.some.inj hfirst) hl
      · rw [List.erase_cons_tail (by simpa using ha)]
        exact ⟨fun l' hmem => hbehind l' (List.mem_of_mem_erase hmem), id, fun _ => id⟩

theorem calls_append (h : Tidy e) (kind : Str) {l : Listener SocketFunction} (hl : l.Other) :
    Calls e (e.append kind l) false [] := by
  apply calls_setList h
  · intro hkind l' hmem
    rcases List.mem_append.mp hmem with hmem | hmem
    · exact h.others kind hkind l' hmem
    · rw [List.mem_singleton.mp hmem]
      exact hl
  · rintro rfl
    have hbehind := h.behind
    unfold First
    cases hlist : e.lists "drain".toList with
    | nil =>
      refine ⟨nofun, fun hhead => ?_, fun _ => nofun⟩
      exact absurd (Option.some.inj hhead) hl.ne
    | cons a rest =>
      rw [hlist] at hbehind
      refine ⟨fun l' hmem => ?_, id, fun _ => id⟩
      rcases List.mem_append.mp hmem with hmem | hmem
      · exact hbehind l' hmem
      · rw [List.mem_singleton.mp hmem]
        exact hl

theorem calls_removeAll (h : Tidy e) (kind : Option Str) : Calls e (e.removeAll kind) true [] := by
  cases kind with
  | none =>
    have hempty (kind : Str) : (e.removeAll none).lists kind = [] := rfl
    exact ⟨tidy_of_empty hempty h.emissions, ⟨[], by simp [removeAll], rfl⟩,
      fun hfirst => absurd hfirst (not_first_of_empty hempty), by simp⟩
  | some kind => exact calls_setList h (fun _ => by simp) fun _ => ⟨by simp, by simp, by simp⟩

/-- Observations that are no calls of `ondrain`. -/
theorem calls_observe (h : Tidy e) {o : Observation SocketFunction Str}
    (ho : o.isOndrain = false) : Calls e (e.observe o) false [] :=
  ⟨⟨h.others, h.behind, h.emissions⟩, ⟨[o], rfl, by simp [ho]⟩, id, fun _ => id⟩

theorem calls_finish (h : Tidy e) {after : After SocketFunction} (hafter : after.Other)
    (result : Bool) : Calls e (e.finish after result) false [] := by
  cases after with
  | result => exact calls_observe h rfl
  | append kind listener => exact calls_append h kind hafter

theorem calls_trans {e' e'' : ListenerLists SocketFunction Str}
    {calls : List (Observation SocketFunction Str)} (h : Calls e e' false calls)
    (h' : Calls e' e'' false []) : Calls e e'' false calls := by
  obtain ⟨new, hnew, hcalls⟩ := h.log
  obtain ⟨new', hnew', hcalls'⟩ := h'.log
  refine ⟨h'.tidy, ⟨new ++ new', ?_, ?_⟩, fun hf => h.first (h'.first hf),
    fun hr hf => h'.stays hr (h.stays hr hf)⟩
  · rw [hnew', hnew, List.append_assoc]
  · rw [List.filter_append, hcalls, hcalls', List.append_nil]

theorem calls_enter (h : Tidy e) (l : Listener SocketFunction) :
    Calls e (enter l e) false [] := by
  induction l generalizing e with
  | func f => exact calls_refl h
  | callback id kind listener ih =>
    have hremove := calls_remove h kind (l := .callback id kind listener) nofun
    exact calls_trans hremove (ih hremove.tidy)

theorem calls_call (h : Tidy e) {m : Emission SocketFunction Str}
    (hm : (∀ l ∈ m.rest, l.Other) ∧ m.after.Other) :
    Calls e (e.call m) false
      ([.called m.current m.kind m.args].filter Observation.isOndrain) := by
  have hpush : Calls e
      { e with
        emissions := m :: e.emissions
        log := e.log ++ [.called m.current m.kind m.args] } false
      ([.called m.current m.kind m.args].filter Observation.isOndrain) :=
    ⟨⟨h.others, h.behind, List.forall_mem_cons.mpr ⟨hm, h.emissions⟩⟩, ⟨_, rfl, rfl⟩, id,
      fun _ => id⟩
  exact calls_trans hpush (calls_enter hpush.tidy m.current)

theorem filter_other {l : Listener SocketFunction} (hl : l ≠ .func .ondrain) (kind : Str)
    (args : Args SocketFunction Str) :
    [Observation.called l kind args].filter Observation.isOndrain = [] := by
  rcases l with f | _
  · cases f with
    | ondrain => exact absurd rfl hl
    | other f => rfl
  · rfl

theorem Tidy.rest (h : Tidy e) {kind : Str} {l : Listener SocketFunction}
    {rest : List (Listener SocketFunction)} (hlist : e.lists kind = l :: rest) :
    ∀ l' ∈ rest, l'.Other := by
  by_cases hkind : kind = "drain".toList
  · subst hkind
    have hbehind := h.behind
    rw [hlist] at hbehind
    exact hbehind
  · have hall := h.others kind hkind
    rw [hlist] at hall
    exact fun l' hmem => hall l' (List.mem_cons_of_mem l hmem)

theorem emit_nil {kind : Str} (hlist : e.lists kind = []) (hkind : kind ≠ "error".toList)
    (args : Args SocketFunction Str) (after : After SocketFunction) :
    e.emit kind args after = e.finish after false := by
  unfold emit
  rw [hlist]
  exact if_neg hkind

theorem calls_emit_cons (h : Tidy e) {kind : Str} {l : Listener SocketFunction}
    {rest : List (Listener SocketFunction)} (hlist : e.lists kind = l :: rest)
    (args : Args SocketFunction Str) {after : After SocketFunction} (hafter : after.Other) :
    Calls e (e.emit kind args after) false
      ([.called l kind args].filter Observation.isOndrain) := by
  unfold emit
  rw [hlist]
  exact calls_call h (m := ⟨kind, args, l, rest, after⟩) ⟨h.rest hlist, hafter⟩

/-- `ondrain` is called by the `emit` of 'drain' that finds it in the list. -/
theorem calls_emit_first (h : Tidy e) (hfirst : First e) (args : Args SocketFunction Str)
    {after : After SocketFunction} (hafter : after.Other) :
    Calls e (e.emit "drain".toList args after) false
      [.called (.func .ondrain) "drain".toList args] := by
  obtain ⟨rest, hlist⟩ := List.head?_eq_some_iff.mp hfirst
  exact calls_emit_cons h hlist args hafter

theorem calls_emit_quiet (h : Tidy e) {kind : Str} (hquiet : kind = "drain".toList → ¬First e)
    (args : Args SocketFunction Str) {after : After SocketFunction} (hafter : after.Other) :
    Calls e (e.emit kind args after) false [] := by
  cases hlist : e.lists kind with
  | nil =>
    unfold emit
    rw [hlist]
    dsimp only
    split_ifs
    · exact calls_observe h rfl
    · exact calls_finish h hafter false
  | cons l rest =>
    have hl : l ≠ .func .ondrain := by
      by_cases hkind : kind = "drain".toList
      · rintro rfl
        subst hkind
        exact hquiet rfl (by rw [First, hlist]; rfl)
      · apply Listener.Other.ne
        apply h.others kind hkind
        rw [hlist]
        exact List.mem_cons_self
    have hcall := calls_emit_cons h hlist args hafter
    rw [filter_other hl] at hcall
    exact hcall

theorem calls_add (h : Tidy e) (kind : Str) {l : Listener SocketFunction} (hl : l.Other) :
    Calls e (e.add kind l) false [] := by
  have hkind : "newListener".toList ≠ "drain".toList := by decide
  have hafter : (After.append kind l).Other := hl
  exact calls_emit_quiet h (fun heq => absurd heq hkind) _ hafter

theorem calls_ret (h : Tidy e) (stop : Bool) : Calls e (e.ret stop) false [] := by
  unfold ret
  cases hem : e.emissions with
  | nil => exact calls_refl h
  | cons m rest =>
    have hall := h.emissions
    rw [hem] at hall
    obtain ⟨⟨hrest, hafter⟩, hemissions⟩ := List.forall_mem_cons.mp hall
    have hpop : Calls e { e with emissions := rest } false [] :=
      ⟨⟨h.others, h.behind, hemissions⟩, ⟨[], by simp, rfl⟩, id, fun _ => id⟩
    dsimp only
    split_ifs
    · exact calls_trans hpop (calls_finish hpop.tidy hafter true)
    · cases hm : m.rest with
      | nil => exact calls_trans hpop (calls_finish hpop.tidy hafter false)
      | cons l ls =>
        rw [hm] at hrest
        obtain ⟨hl, hls⟩ := List.forall_mem_cons.mp hrest
        have hcall := calls_call hpop.tidy (m := { m with current := l, rest := ls })
          ⟨hls, hafter⟩
        rw [filter_other hl.ne] at hcall
        exact calls_trans hpop hcall

/-- `removeAllListeners`, of 'drain' or of all events. -/
def removesAll : Action ℕ Str → Bool
  | .op (.removeAllListeners _) => true
  | _ => false

/-- The calls of `ondrain` in a step of the emitter. -/
theorem calls_step (h : Tidy e) (a : Action ℕ Str) :
    (∃ values, a = .op (.emit "drain".toList values) ∧ First e ∧
      Calls e (e.step a.ofOther) false
        [.called (.func .ondrain) "drain".toList (.given values)]) ∨
    ((∀ values, a = .op (.emit "drain".toList values) → ¬First e) ∧
      Calls e (e.step a.ofOther) (removesAll a) []) := by
  cases a with
  | ret stop => exact Or.inr ⟨nofun, calls_ret h stop⟩
  | op o =>
    cases o with
    | addListener kind l => exact Or.inr ⟨nofun, calls_add h kind l.ofOther_other⟩
    | once kind l =>
      have hmade : Calls e { e with made := e.made + 1 } false [] :=
        ⟨⟨h.others, h.behind, h.emissions⟩, ⟨[], by simp, rfl⟩, id, fun _ => id⟩
      have hl : (Listener.callback e.made kind l.ofOther).Other := l.ofOther_other
      exact Or.inr ⟨nofun, calls_trans hmade (calls_add hmade.tidy kind hl)⟩
    | removeListener kind l => exact Or.inr ⟨nofun, calls_remove h kind l.ofOther_other.ne⟩
    | removeAllListeners kind => exact Or.inr ⟨nofun, calls_removeAll h kind⟩
    | listeners kind => exact Or.inr ⟨nofun, calls_observe h rfl⟩
    | emit kind values =>
      by_cases hdrain : kind = "drain".toList ∧ First e
      · obtain ⟨rfl, hfirst⟩ := hdrain
        exact Or.inl ⟨values, rfl, hfirst, calls_emit_first h hfirst _ trivial⟩
      · refine Or.inr ⟨?_, calls_emit_quiet h (fun hkind hfirst => hdrain ⟨hkind, hfirst⟩) _ trivial⟩
        intro values' heq hfirst
        cases heq
        exact hdrain ⟨rfl, hfirst⟩

end ListenerLists

namespace HttpSocket

open ListenerLists

variable {s : HttpSocket}

/-- On a client's socket `ondrain` is not a listener. -/
structure Sound (s : HttpSocket) : Prop where
  tidy : Tidy s.emitter.toLists
  client : s.connection.isServer = false → ¬First s.emitter.toLists

theorem Sound.listens_iff (h : s.Sound) : s.Listens ↔ First s.emitter.toLists :=
  h.tidy.first_iff.symm

theorem relay_drained {e : EventEmitter SocketFunction Str} {removed : Bool}
    {calls : List (Observation SocketFunction Str)}
    (h : Calls s.emitter.toLists e.toLists removed calls) :
    (s.relay e).drained =
      s.drained ++ calls.flatMap fun _ => s.connection.httpMessage.toList := by
  obtain ⟨new, hnew, hcalls⟩ := h.log
  have hlog : e.log = s.emitter.log ++ new := hnew
  unfold relay
  rw [hlog, List.drop_left, hcalls]

/-- The steps of the http module leave the emitter alone and make nobody emit. -/
theorem step_http {e : HttpSocketEvent} (he : ∀ a, e ≠ .emitter a) :
    (s.step e).emitter = s.emitter ∧ (s.step e).drained = s.drained ∧
    (s.step e).connection.isServer = s.connection.isServer := by
  cases e with
  | emitter a => exact absurd rfl (he a)
  | server e =>
    simp only [step]
    cases hc : s.connection with
    | server c => exact ⟨rfl, rfl, rfl⟩
    | client w =>
      rw [hc]
      exact ⟨rfl, rfl, rfl⟩
  | client e =>
    simp only [step]
    cases hc : s.connection with
    | server c =>
      rw [hc]
      exact ⟨rfl, rfl, rfl⟩
    | client w =>
      dsimp only
      split <;> exact ⟨rfl, rfl, rfl⟩

theorem Sound.calls {s : HttpSocket} {a : Action ℕ Str} {removed : Bool}
    {calls : List (Observation SocketFunction Str)} (h : s.Sound)
    (hcalls : Calls s.emitter.toLists (s.emitter.toLists.step a.ofOther) removed calls) :
    (s.step (.emitter a)).Sound ∧
    (s.step (.emitter a)).drained =
      s.drained ++ calls.flatMap fun _ => s.connection.httpMessage.toList := by
  have hstep : (s.emitter.step a.ofOther).toLists = s.emitter.toLists.step a.ofOther :=
    s.emitter.toLists_step a.ofOther
  rw [← hstep] at hcalls
  exact ⟨⟨hcalls.tidy, fun hclient hfirst => h.client hclient (hcalls.first hfirst)⟩,
    relay_drained hcalls⟩

/-- The socket emits 'drain', or does something else, and `ondrain` is not called. -/
theorem relays_iff_quiet {a : Action ℕ Str} (h : s.Sound)
    (hquiet : ∀ values, a = .op (.emit "drain".toList values) → ¬First s.emitter.toLists)
    (hdrained : (s.step (.emitter a)).drained = s.drained) :
    s.Relays (.emitter a) ↔ s.Attended (.emitter a) := by
  have hdue : s.Relays (.emitter a) ↔ s.due (.emitter a) = [] := by
    unfold Relays
    rw [hdrained]
    exact List.self_eq_append_right
  rw [hdue]
  rcases a with o | stop
  · cases o with
    | emit kind values =>
      simp only [due, Attended]
      by_cases hkind : kind = "drain".toList
      · subst hkind
        have hlistens : ¬s.Listens := fun hl => hquiet values rfl (h.listens_iff.mp hl)
        rw [if_pos rfl]
        simp [hlistens]
      · rw [if_neg hkind]
        exact iff_of_true rfl fun heq => absurd heq hkind
    | _ => exact iff_of_true rfl trivial
  · exact iff_of_true rfl trivial

/-- What a step does to the listeners, and which messages emit. -/
theorem sound_step (h : s.Sound) (e : HttpSocketEvent) :
    (s.step e).Sound ∧ (s.Relays e ↔ s.Attended e) := by
  by_cases he : ∀ a, e ≠ .emitter a
  · obtain ⟨hemitter, hdrained, hserver⟩ := step_http (s := s) he
    have hplain : s.due e = [] ∧ s.Attended e := by
      cases e with
      | emitter a => exact absurd rfl (he a)
      | server e => exact ⟨rfl, trivial⟩
      | client e => exact ⟨rfl, trivial⟩
    refine ⟨⟨?_, ?_⟩, iff_of_true ?_ hplain.2⟩
    · rw [hemitter]
      exact h.tidy
    · rw [hemitter, hserver]
      exact h.client
    · unfold Relays
      rw [hdrained, hplain.1, List.append_nil]
  · obtain ⟨a, rfl⟩ := not_forall_not.mp he
    rcases calls_step h.tidy a with ⟨values, rfl, hfirst, hcalls⟩ | ⟨hquiet, hcalls⟩
    · obtain ⟨hsound, hdrained⟩ := h.calls hcalls
      refine ⟨hsound, iff_of_true ?_ fun _ _ => ⟨?_, h.listens_iff.mpr hfirst⟩⟩
      · simpa [Relays, due] using hdrained
      · rcases Bool.eq_false_or_eq_true s.connection.isServer with hserver | hclient
        · exact hserver
        · exact absurd hfirst (h.client hclient)
    · obtain ⟨hsound, hdrained⟩ := h.calls hcalls
      exact ⟨hsound, relays_iff_quiet h hquiet (by simpa using hdrained)⟩

/-- On a server's connection `ondrain` stays a listener until listeners are removed wholesale. -/
theorem listens_step (h : s.Sound) (hl : s.Listens) {e : HttpSocketEvent}
    (he : ∀ kind, e ≠ .emitter (.op (.removeAllListeners kind))) : (s.step e).Listens := by
  have hfirst := h.listens_iff.mp hl
  apply (sound_step h e).1.listens_iff.mpr
  by_cases hhttp : ∀ a, e ≠ .emitter a
  · rw [(step_http (s := s) hhttp).1]
    exact hfirst
  · obtain ⟨a, rfl⟩ := not_forall_not.mp hhttp
    have hstep : (s.step (.emitter a)).emitter.toLists = s.emitter.toLists.step a.ofOther :=
      s.emitter.toLists_step a.ofOther
    rw [hstep]
    have hkeeps : removesAll a = false := by
      rcases a with o | stop
      · cases o with
        | removeAllListeners kind => exact absurd rfl (he kind)
        | _ => rfl
      · rfl
    rcases calls_step h.tidy a with ⟨values, rfl, -, hcalls⟩ | ⟨-, hcalls⟩
    · exact hcalls.stays rfl hfirst
    · exact hcalls.stays hkeeps hfirst

/-- A fresh socket; on that of a server `ondrain` listens. -/
theorem start_sound (connection : HttpConnection) (events : Bool) :
    (start connection events).Sound ∧
    (connection.isServer = true → (start connection events).Listens) := by
  have hinit : (EventEmitter.init events : EventEmitter SocketFunction Str).toLists = .init := by
    cases events <;> rfl
  cases connection with
  | client w =>
    have hempty (kind : Str) :
        (ListenerLists.init : ListenerLists SocketFunction Str).lists kind = [] := rfl
    have hsound : Sound ⟨.client w, .init events, none, []⟩ := by
      refine ⟨?_, fun _ => ?_⟩
      · rw [hinit]
        exact ListenerLists.tidy_of_empty hempty fun _ hm => absurd hm List.not_mem_nil
      · rw [hinit]
        exact ListenerLists.not_first_of_empty hempty
    exact ⟨hsound, fun hserver => absurd hserver Bool.false_ne_true⟩
  | server c =>
    have hlists : (start (.server c) events).emitter.toLists =
        ListenerLists.append .init "drain".toList (.func .ondrain) := by
      have hadd := EventEmitter.toLists_addListener
        ((EventEmitter.init events : EventEmitter SocketFunction Str).removeListener
          "drain".toList (.func .ondrain)) "drain".toList (.func .ondrain)
      have hsame : (ListenerLists.init : ListenerLists SocketFunction Str).remove "drain".toList
          (.func .ondrain) = .init := EventEmitter.setList_self .init "drain".toList
      rw [EventEmitter.toLists_removeListener, hinit, hsame] at hadd
      exact hadd.trans (emit_nil rfl (by decide) _ _)
    have hfirst : First (start (.server c) events).emitter.toLists := by
      rw [hlists]
      simp [First, append, setList, ListenerLists.init]
    have hsound : (start (.server c) events).Sound := by
      refine ⟨?_, fun hclient => absurd hclient.symm Bool.false_ne_true⟩
      rw [hlists]
      refine ⟨fun kind hkind => ?_, ?_, fun _ hm => absurd hm List.not_mem_nil⟩
      · have hnone : (ListenerLists.append .init "drain".toList (.func .ondrain) :
            ListenerLists SocketFunction Str).lists kind = [] := Function.update_of_ne hkind _ _
        rw [hnone]
        simp
      · simp [append, setList, ListenerLists.init]
    exact ⟨hsound, fun _ => hsound.listens_iff.mpr hfirst⟩

/-- In every run around a connection, whatever requests or responses have its socket in turn, each
'drain' of the socket makes the attached message emit 'drain' once, and no other message, exactly as
long as there is no attached message or the connection is a server's that listens. -/
theorem drain_reaches_message (connection : HttpConnection) (events : Bool)
    (es : List HttpSocketEvent) :
    Guarded step Relays (start connection events) es ↔
      Guarded step Attended (start connection events) es := by
  have hstep : ∀ (s : HttpSocket) (e : HttpSocketEvent), s.Sound → (s.step e).Sound :=
    fun s e h => (sound_step h e).1
  have hstart := (start_sound connection events).1
  constructor
  · intro h
    exact guarded_imp (I := Sound) (fun s e hs _ => hstep s e hs)
      (fun s e hs he => (sound_step hs e).2.mp he) hstart h
  · intro h
    exact guarded_imp (I := Sound) (fun s e hs _ => hstep s e hs)
      (fun s e hs he => (sound_step hs e).2.mpr he) hstart h

/-- A request writes, `write` returns false, and the socket emits 'drain': the request does not. -/
theorem client_is_not_drained :
    ¬ ∀ (connection : HttpConnection) (events : Bool) (es : List HttpSocketEvent),
      Guarded step Relays (start connection events) es := by
  intro h
  have hrun := h (.client (.init [true, false])) true
    [.client (.request (.inOrder []) { method := "POST".toList }), .client .open, .client .tick,
      .client (.call 0 (.write (.text "a".toList) none)),
      .emitter (.op (.emit "drain".toList []))]
  revert hrun
  decide

end HttpSocket

end LuaNode
