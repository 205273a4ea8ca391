import LuaNode.Http.Agent

/-!
# The queues of the agent

A request that is added to the agent is handed to a connection at once or waits in the queue of
its name. The queues are served in order, and as long as one of them is not empty there is a
connection in the pool whose next 'free' or 'close' serves it.
-/

namespace LuaNode

/-- The connection was filed under the name that its 'free' listener computes, and 'close' is on
its way once it is destroyed. -/
structure Connection.Sound (c : Connection) : Prop where
  filed : c.name = poolName c.host c.port c.localAddress
  dying : c.socket.destroyed = true → c.closing = true ∨ c.closed = true

namespace World

variable {w w' : World}

/-- The requests of a name that were handed to a connection, in order. -/
def handedTo (w : World) (name : Str) : List Request :=
  (w.handed.filter fun p => p.1 = name).map fun p => p.2.1

/-- The requests that were added under a name, in order. -/
def addedTo (w : World) (name : Str) : List Request :=
  (w.added.filter fun p => p.1 = name).map Prod.snd

/-- The queues hold what was added and not yet handed over, and an empty queue is removed. -/
structure Queued (w : World) : Prop where
  order : ∀ name, w.handedTo name ++ w.queue name = w.addedTo name
  tidy : ∀ name, w.agent.requests name ≠ some []
  sound : ∀ (s : ℕ) (c : Connection), w.connections[s]? = some c → c.Sound

/-- Requests wait only while the pool is full. -/
def Full (w : World) : Prop := ∀ name, w.queue name ≠ [] → w.agent.maxSockets ≤ w.size name

theorem Queued.same (h : Queued w) (hrequests : w'.agent.requests = w.agent.requests)
    (hconn : w'.connections = w.connections) (hadded : w'.added = w.added)
    (hhanded : w'.handed = w.handed) : Queued w' := by
  refine ⟨fun name => ?_, fun name => ?_, fun s c => ?_⟩
  · unfold handedTo queue addedTo
    rw [hrequests, hadded, hhanded]
    exact h.order name
  · rw [hrequests]
    exact h.tidy name
  · rw [hconn]
    exact h.sound s c

theorem Queued.modify (h : Queued w) (s : ℕ) {f : Connection → Connection}
    (hf : ∀ c, w.connections[s]? = some c → (f c).Sound) : Queued (w.modify s f) := by
  refine ⟨h.order, h.tidy, fun t c hc => ?_⟩
  simp only [World.modify, List.getElem?_modify] at hc
  split_ifs at hc with hst
  · subst hst
    obtain ⟨c', hc', rfl⟩ := Option.map_eq_some_iff.mp hc
    exact hf c' hc'
  · exact h.sound t c (by simpa using hc)

theorem Queued.fileSocket (h : Queued w) {c : Connection} (hc : c.Sound) :
    Queued (w.fileSocket c) := by
  refine ⟨h.order, h.tidy, fun t d hd => ?_⟩
  have hconn : (w.fileSocket c).connections = w.connections ++ [c] := rfl
  rw [hconn, List.getElem?_append] at hd
  split_ifs at hd with hlt
  · exact h.sound t d hd
  · rw [List.getElem?_singleton] at hd
    split_ifs at hd
    cases hd
    exact hc

theorem Queued.destroySocket (h : Queued w) (s : ℕ) : Queued (w.destroySocket s) := by
  refine h.modify s fun c hc => ?_
  have hsound := h.sound s c hc
  split_ifs
  · exact hsound
  · exact ⟨hsound.filed, fun _ => Or.inl rfl⟩

/-- Handing the head of a queue to a connection. -/
theorem Queued.hand (h : Queued w) {name : Str} {req : Request} {rest : List Request}
    (hq : w.agent.requests name = some (req :: rest)) (s : ℕ) :
    Queued ((w.onSocket name req s).setRequests name (if rest = [] then none else some rest)) := by
  refine ⟨fun n => ?_, fun n => ?_, h.sound⟩
  · have horder := h.order n
    unfold handedTo queue addedTo at horder ⊢
    by_cases hn : n = name
    · subst hn
      rw [hq] at horder
      have hrest : (if rest = [] then none else some rest).getD [] = rest := by
        split_ifs with hrest
        · exact hrest.symm
        · rfl
      simpa [onSocket, setRequests, hrest] using horder
    · have hn' : name ≠ n := fun heq => hn heq.symm
      simpa [onSocket, setRequests, hn, hn'] using horder
  · simp only [setRequests, Function.update_apply]
    split_ifs
    · simp
    · simpa using fun hrest => by simp_all
    · exact h.tidy n

/-- Queueing a request. -/
theorem Queued.push (h : Queued w) (name : Str) (req : Request) :
    Queued { w.setRequests name (some (w.queue name ++ [req])) with
      added := w.added ++ [(name, req)] } := by
  refine ⟨fun n => ?_, fun n => ?_, h.sound⟩
  · have horder := h.order n
    unfold handedTo queue addedTo at horder ⊢
    by_cases hn : n = name
    · subst hn
      simp [setRequests, ← horder]
    · have hn' : name ≠ n := fun heq => hn heq.symm
      simpa [setRequests, hn, hn'] using horder
  · simp only [setRequests, Function.update_apply]
    split_ifs
    · simp
    · exact h.tidy n

/-- Handing a request over as it is added, when no other is waiting. -/
theorem Queued.direct (h : Queued w) {name : Str} (hempty : w.queue name = []) (req : Request)
    (s : ℕ) : Queued { w.onSocket name req s with added := w.added ++ [(name, req)] } := by
  refine ⟨fun n => ?_, h.tidy, h.sound⟩
  have horder := h.order n
  by_cases hn : n = name
  · subst hn
    rw [hempty] at horder
    have hq : World.queue { w.onSocket n req s with added := w.added ++ [(n, req)] } n = [] :=
      hempty
    rw [hq]
    unfold handedTo addedTo at horder ⊢
    simpa [onSocket] using horder
  · have hn' : name ≠ n := fun heq => hn heq.symm
    unfold handedTo queue addedTo at horder ⊢
    simpa [onSocket, hn'] using horder

/-- The 'free' listener serves the queue of the connection's name or destroys the connection. -/
theorem agentFree_cases (w : World) (s : ℕ) (c : Connection) :
    (c.socket.destroyed = false ∧ ∃ req rest,
      w.agent.requests (poolName c.host c.port c.localAddress) = some (req :: rest) ∧
      w.agentFree s c = (w.onSocket (poolName c.host c.port c.localAddress) req s).setRequests
        (poolName c.host c.port c.localAddress) (if rest = [] then none else some rest)) ∨
    w.agentFree s c = w.destroySocket s := by
  unfold agentFree
  dsimp only
  split
  next req rest hq =>
    by_cases hd : c.socket.destroyed = true
    · exact Or.inr (if_pos hd)
    · exact Or.inl ⟨by simpa using hd, req, rest, hq, if_neg hd⟩
  · exact Or.inr rfl

theorem Full.mono (hf : w.Full) (hmax : w'.agent.maxSockets = w.agent.maxSockets)
    (hq : ∀ n, w'.queue n ≠ [] → w.queue n ≠ [] ∧ w.size n ≤ w'.size n) : w'.Full := by
  intro n hn
  obtain ⟨hold, hsize⟩ := hq n hn
  rw [hmax]
  exact (hf n hold).trans hsize

/-- What waits after a 'free' was waiting before. -/
theorem agentFree_queue (w : World) (s : ℕ) (c : Connection) {n : Str}
    (h : (w.agentFree s c).queue n ≠ []) : w.queue n ≠ [] := by
  rcases w.agentFree_cases s c with ⟨-, req, rest, hq, heq⟩ | heq <;> rw [heq] at h
  · by_cases hn : n = poolName c.host c.port c.localAddress
    · simp [queue, hn, hq]
    · simpa [queue, onSocket, setRequests, hn] using h
  · exact h

theorem emitFree_served (h : Queued w) (hf : w.Full) (s : ℕ) :
    Queued (w.emitFree s) ∧ (w.emitFree s).Full := by
  have hkeeps := w.keeps_emitFree s
  unfold emitFree at hkeeps ⊢
  cases hget : w.connections[s]? with
  | none => exact ⟨h, hf⟩
  | some c =>
    rw [hget] at hkeeps
    dsimp only at hkeeps ⊢
    by_cases hon : c.onFree = true
    · rw [if_pos hon] at hkeeps ⊢
      refine ⟨?_, hf.mono hkeeps.maxSockets fun n hn =>
        ⟨w.agentFree_queue s c hn, (hkeeps.size n).ge⟩⟩
      rcases w.agentFree_cases s c with ⟨-, req, rest, hq, heq⟩ | heq <;> rw [heq]
      · exact h.hand hq s
      · exact h.destroySocket s
    · rw [if_neg hon]
      exact ⟨h, hf⟩

/-- A socket may leave the pool: it is not listed, or no request is waiting that has a Host
header `createSocket` cannot use. -/
def Replaceable (w : World) (s : ℕ) (name : Str) : Prop :=
  s ∈ w.members name → plain (w.queue name).head? = true

theorem renews_of_plain {name : Str} (hq : w.queue name ≠ [])
    (hplain : plain (w.queue name).head? = true) : w.renews name = true := by
  unfold renews
  cases hrequests : w.agent.requests name with
  | none => simp [queue, hrequests] at hq
  | some q => simpa [queue, hrequests] using hplain

theorem removeSocket_served (ha : Accounts w) (h : Queued w) (hf : w.Full) {s : ℕ}
    (hs : s < w.cards.length) {name host : Str} {port : ℕ} {localAddress : Option Str}
    (hname : name = poolName host port localAddress) (hr : w.Replaceable s name) :
    Queued (w.removeSocket s name host port localAddress).world ∧
      (w.removeSocket s name host port localAddress).world.Full := by
  obtain ⟨w₁, hun, hcase⟩ := removeSocket_cases ha hs name host port localAddress
  have h₁ : Queued w₁ := h.same hun.requests hun.connections hun.logs.1 hun.logs.2
  have hqueue : ∀ n, w₁.queue n = w.queue n := fun n => by rw [queue, hun.requests]; rfl
  rcases hcase with ⟨hrenews, heq⟩ | ⟨hrenews, servername, heq⟩
  · rw [heq]
    refine ⟨h₁, hf.mono hun.maxSockets fun n hn => ?_⟩
    rw [hqueue] at hn
    refine ⟨hn, ?_⟩
    rw [hun.size]
    -- the pool shrinks only when nothing is waiting
    have hlisted : ¬ (n = name ∧ s ∈ w.members n) := by
      rintro ⟨rfl, hin⟩
      rw [renews_of_plain hn (hr hin)] at hrenews
      cases hrenews
    rw [if_neg hlisted, sub_zero]
  · rw [heq]
    refine emitFree_served (h₁.fileSocket ⟨hname, fun hd => by cases hd⟩) ?_ _
    refine hf.mono hun.maxSockets fun n hn => ?_
    have hn' : w.queue n ≠ [] := by
      rw [← hqueue]
      exact hn
    refine ⟨hn', ?_⟩
    rw [size_fileSocket, hun.size]
    by_cases heqn : n = name
    · simp only [heqn, true_and, if_true]
      split_ifs <;> omega
    · simp [heqn]

/-- No socket leaves a pool while the request at the head of the queue has a Host header that is
no string. -/
def Usable (w : World) : AgentEvent → Prop
  | .createSocket name host port localAddress _ => name = poolName host port localAddress
  | .removeSocket s name host port localAddress =>
    name = poolName host port localAddress ∧ w.Replaceable s name
  | e => ∀ r ∈ w.removal e, w.Replaceable r.1 r.2

instance decidableReplaceable (w : World) (s : ℕ) (name : Str) :
    Decidable (w.Replaceable s name) := inferInstanceAs (Decidable (_ → _))

instance decidableUsable (w : World) : ∀ e, Decidable (w.Usable e)
  | .createSocket _ _ _ _ _ => inferInstanceAs (Decidable (_ = _))
  | .removeSocket _ _ _ _ _ => inferInstanceAs (Decidable (_ ∧ _))
  | .addRequest _ _ _ _ | .free _ | .destroy _ | .tick _ | .write _ _ _ _ | .timer _
  | .agentRemove _ => inferInstanceAs (Decidable (∀ r ∈ _, _))

theorem emitClose_served (ha : Accounts w) (h : Queued w) (hf : w.Full) {s : ℕ} {c : Connection}
    (hget : w.connections[s]? = some c) (hr : c.onClose = true → w.Replaceable s c.name) :
    Queued (w.emitClose s c).world ∧ (w.emitClose s c).world.Full ∧
    ∀ c', (w.emitClose s c).world.connections[s]? = some c' → c'.closed = true := by
  have hs : s < w.cards.length := by
    simpa [cards] using (List.getElem?_eq_some_iff.mp hget).1
  -- the listener of the agent first, and then the flags of the connection
  have hflags : ∀ (w₁ : World) (f : Connection → Connection), Queued w₁ → w₁.Full →
      (∀ c, (f c).closed = true ∧ (c.Sound → (f c).Sound)) →
      Queued (w₁.modify s f) ∧ (w₁.modify s f).Full ∧
      ∀ c', (w₁.modify s f).connections[s]? = some c' → c'.closed = true := by
    intro w₁ f h₁ hf₁ hsound
    refine ⟨h₁.modify s fun c hc => (hsound c).2 (h₁.sound s c hc), hf₁, fun c' hc' => ?_⟩
    simp only [World.modify, List.getElem?_modify_eq] at hc'
    obtain ⟨d, -, rfl⟩ := Option.map_eq_some_iff.mp hc'
    exact (hsound d).1
  unfold emitClose
  dsimp only
  by_cases hon : c.onClose = true
  · rw [if_pos hon]
    obtain ⟨h₁, hf₁⟩ := removeSocket_served ha h hf hs (h.sound s c hget).filed (hr hon)
    split
    · exact hflags _ _ h₁ hf₁ fun c => ⟨rfl, fun hc => ⟨hc.filed, fun _ => Or.inr rfl⟩⟩
    · exact hflags _ _ h₁ hf₁ fun c => ⟨rfl, fun hc => ⟨hc.filed, fun _ => Or.inr rfl⟩⟩
  · rw [if_neg hon]
    exact hflags _ _ h hf fun c => ⟨rfl, fun hc => ⟨hc.filed, fun _ => Or.inr rfl⟩⟩

theorem addRequest_served (h : Queued w) (hf : w.Full) (req : Request)
    (host : Str) (port : ℕ) (localAddress : Option Str) :
    Queued (w.addRequest req host port localAddress).world ∧
      (w.addRequest req host port localAddress).world.Full := by
  have hset := w.keeps_setSockets (poolName host port localAddress)
  have h₁ : Queued (w.setSockets (poolName host port localAddress)
      (some ((w.agent.sockets (poolName host port localAddress)).getD ⟨0, []⟩))) :=
    h.same rfl rfl rfl rfl
  rcases w.addRequest_cases req host port localAddress rfl rfl with
    ⟨hlt, ⟨-, heq⟩ | ⟨-, servername, heq⟩⟩ | ⟨hlt, heq⟩ <;> rw [heq]
  · exact ⟨h₁, hf.mono rfl fun n hn => ⟨hn, (hset.size n).ge⟩⟩
  · -- there is room, so nothing is waiting
    have hempty : w.queue (poolName host port localAddress) = [] := by
      by_contra hq
      have := hf _ hq
      omega
    refine ⟨Queued.direct (h₁.fileSocket ⟨rfl, fun hd => by cases hd⟩) hempty req _, ?_⟩
    refine hf.mono rfl fun n hn => ⟨hn, ?_⟩
    refine le_trans ?_ (size_fileSocket _ _ n).ge
    rw [hset.size]
    split_ifs <;> omega
  · refine ⟨h₁.push _ req, fun n hn => ?_⟩
    have hsize := hset.size n
    change (w.agent.maxSockets : ℤ) ≤ World.size (w.setSockets _ _) n
    rw [hsize]
    by_cases hname : n = poolName host port localAddress
    · rw [hname]
      omega
    · refine hf n fun hq => hn ?_
      simpa [queue, setRequests, setSockets, hname] using hq

/-- What holds of an agent between events. -/
structure Served (w : World) : Prop where
  accounts : Accounts w
  queued : Queued w
  full : w.Full
  enough : 1 ≤ w.agent.maxSockets

theorem served_step (h : Served w) {e : AgentEvent} (hg : w.Usable e) : Served (w.step e) := by
  obtain ⟨ha, hq, hf, henough⟩ := h
  obtain ⟨ha', hmax, hsize⟩ := step_pools ha e
  suffices hserved : Queued (w.step e) ∧ (w.step e).Full from
    ⟨ha', hserved.1, hserved.2, by rw [hmax]; exact henough⟩
  have hremoves : ∀ (s : ℕ) (c : Connection) (test : Connection → Bool),
      w.connections[s]? = some c → test c = true →
      (∀ r ∈ w.removalIf s test, w.Replaceable r.1 r.2) → w.Replaceable s c.name := by
    intro s c test hget htest hall
    exact hall (s, c.name) (by simp [removalIf, hget, htest])
  cases e with
  | addRequest req host port localAddress => exact addRequest_served hq hf req host port localAddress
  | createSocket name host port localAddress req =>
    simp only [step]
    rcases w.createSocket_cases name host port localAddress req with
      ⟨-, err, heq⟩ | ⟨-, servername, heq⟩
    · rw [heq]
      exact ⟨hq, hf⟩
    · simp only [step, heq] at hsize
      rw [heq]
      refine ⟨hq.fileSocket ⟨hg, fun hd => by cases hd⟩, hf.mono rfl fun n hn => ⟨hn, ?_⟩⟩
      rw [size_fileSocket]
      split_ifs <;> omega
  | free s => exact emitFree_served hq hf s
  | destroy s => exact ⟨hq.destroySocket s, hf⟩
  | tick s =>
    simp only [step]
    cases hget : w.connections[s]? with
    | none => exact ⟨hq, hf⟩
    | some c =>
      by_cases hclosing : c.closing = true
      · simp only [hclosing, if_true]
        obtain ⟨hq', hf', hclosed⟩ := emitClose_served ha hq hf hget fun hon =>
          hremoves s c _ hget (by simp [hclosing, hon]) hg
        exact ⟨hq'.modify s fun c' hc' =>
          ⟨(hq'.sound s c' hc').filed, fun _ => Or.inr (hclosed c' hc')⟩, hf'⟩
      · simp only [hclosing]
        exact ⟨hq, hf⟩
  | write s m data encoding =>
    refine ⟨hq.modify s fun c hc => ⟨(hq.sound s c hc).filed, fun hd => ?_⟩, hf⟩
    refine (hq.sound s c hc).dying ?_
    rw [← (m.writeRaw_refines c.socket data encoding).effect.destroyed]
    exact hd
  | timer s =>
    simp only [step]
    cases hget : w.connections[s]? with
    | none => exact ⟨hq, hf⟩
    | some c =>
      by_cases htimer : c.socket.hangupTimer = true
      · simp only [htimer, if_true]
        obtain ⟨hq', hf', -⟩ := emitClose_served ha hq hf hget fun hon =>
          hremoves s c _ hget (by simp [htimer, hon]) hg
        exact ⟨hq'.modify s fun c' hc' =>
          ⟨(hq'.sound s c' hc').filed, (hq'.sound s c' hc').dying⟩, hf'⟩
      · simp only [htimer]
        exact ⟨hq, hf⟩
  | agentRemove s =>
    simp only [step]
    cases hget : w.connections[s]? with
    | none => exact ⟨hq, hf⟩
    | some c =>
      have hs : s < w.cards.length := by
        simpa [cards] using (List.getElem?_eq_some_iff.mp hget).1
      dsimp only
      unfold emitRemove
      by_cases hon : c.onRemove = true
      · rw [if_pos hon]
        obtain ⟨hq', hf'⟩ := removeSocket_served ha hq hf hs (hq.sound s c hget).filed
          (hremoves s c _ hget hon hg)
        dsimp only
        split
        · exact ⟨hq', hf'⟩
        · exact ⟨hq'.modify s fun c' hc' =>
            ⟨(hq'.sound s c' hc').filed, (hq'.sound s c' hc').dying⟩, hf'⟩
      · rw [if_neg hon]
        exact ⟨hq, hf⟩
  | removeSocket s name host port localAddress =>
    simp only [step]
    split_ifs with hs
    · exact removeSocket_served ha hq hf (by simpa [cards] using hs) hg.1 hg.2
    · exact ⟨hq, hf⟩

theorem init_served {maxSockets : ℕ} (h : 1 ≤ maxSockets) : Served (init maxSockets) where
  accounts := init_accounts maxSockets
  queued := by
    refine ⟨fun name => ?_, fun name => ?_, fun s c hc => ?_⟩
    · simp [handedTo, addedTo, queue, init, Agent.init]
    · simp [init, Agent.init]
    · simp [init] at hc
  full := fun n hn => absurd rfl hn
  enough := h

/-- The next 'free' of a live connection serves the queue of its name. -/
theorem free_serves (h : Queued w) {s : ℕ} {c : Connection} (hget : w.connections[s]? = some c)
    (hon : c.onFree = true) (hlive : c.socket.destroyed = false) {req : Request}
    {rest : List Request} (hq : w.agent.requests c.name = some (req :: rest)) :
    (w.emitFree s).handed = w.handed ++ [(c.name, req, s)] := by
  rw [(h.sound s c hget).filed] at hq ⊢
  unfold emitFree
  rw [hget]
  dsimp only
  rw [if_pos hon]
  unfold agentFree
  simp only [hq, hlive, Bool.false_eq_true, if_false]
  rfl

/-- So does its 'close', through the connection that takes its place. -/
theorem close_serves (ha : Accounts w) (h : Queued w) {s : ℕ} {c : Connection}
    (hget : w.connections[s]? = some c) (hon : c.onClose = true) {req : Request}
    {rest : List Request} (hq : w.agent.requests c.name = some (req :: rest))
    (hplain : plain (some req) = true) :
    (w.emitClose s c).world.handed = w.handed ++ [(c.name, req, w.connections.length)] := by
  have hs : s < w.cards.length := by
    simpa [cards] using (List.getElem?_eq_some_iff.mp hget).1
  obtain ⟨w₁, hun, hcase⟩ := removeSocket_cases ha hs c.name c.host c.port c.localAddress
  have hrenews : w.renews c.name = true :=
    renews_of_plain (by simp [queue, hq]) (by simpa [queue, hq] using hplain)
  rcases hcase with ⟨hno, -⟩ | ⟨-, servername, heq⟩
  · rw [hrenews] at hno
    cases hno
  · obtain ⟨d, hd⟩ : ∃ d : Connection, d = ⟨c.name, c.host, c.port, c.localAddress, servername,
      .fresh [], false, false, true, true, true⟩ := ⟨_, rfl⟩
    rw [← hd] at heq
    have hsound : d.Sound := by
      rw [hd]
      exact ⟨(h.sound s c hget).filed, fun hd => by cases hd⟩
    have h₁ : Queued (w₁.fileSocket d) :=
      (h.same hun.requests hun.connections hun.logs.1 hun.logs.2).fileSocket hsound
    have hget₁ : (w₁.fileSocket d).connections[w.connections.length]? = some d := by
      simp [fileSocket, setSockets, hun.connections]
    have hq₁ : (w₁.fileSocket d).agent.requests d.name = some (req :: rest) := by
      have hrequests : (w₁.fileSocket d).agent.requests = w.agent.requests := hun.requests
      rw [hrequests, hd]
      exact hq
    have hhanded : ((w₁.fileSocket d).emitFree w.connections.length).handed =
        w.handed ++ [(c.name, req, w.connections.length)] := by
      rw [free_serves h₁ hget₁ (by rw [hd]) (by rw [hd]; rfl) hq₁]
      have : (w₁.fileSocket d).handed = w.handed := hun.logs.2
      rw [this, hd]
    unfold emitClose
    simp only [hon, if_true, heq]
    exact hhanded

/-- The queues lose nothing and strand nothing. For every name the requests handed over and
those that wait are the requests added, in order; and a queue that is not empty has a connection
in the pool that has not emitted 'close', carries the listeners, and serves the head of the
queue with its next event: 'free' if it is alive, else the 'close' that is on its way. -/
theorem queue_served (maxSockets : ℕ) (hmax : 1 ≤ maxSockets) (es : List AgentEvent)
    (hg : Guarded step Usable (init maxSockets) es) :
    let w := run step (init maxSockets) es
    (∀ name, w.handedTo name ++ w.queue name = w.addedTo name) ∧
    ∀ name q, w.agent.requests name = some q → ∃ req rest s c,
      q = req :: rest ∧ s ∈ w.members name ∧ w.connections[s]? = some c ∧ c.name = name ∧
      c.closed = false ∧ c.onFree = true ∧ c.onClose = true ∧
      (c.socket.destroyed = false → (w.step (.free s)).handed = w.handed ++ [(name, req, s)]) ∧
      (c.socket.destroyed = true → c.closing = true) ∧
      (plain (some req) = true → (w.emitClose s c).world.handed =
        w.handed ++ [(name, req, w.connections.length)]) := by
  intro w
  have h : Served w :=
    guarded_invariant (I := Served) (fun _ _ h hg => served_step h hg) (init_served hmax) hg
  refine ⟨h.queued.order, fun name q hq => ?_⟩
  cases q with
  | nil => exact absurd hq (h.queued.tidy name)
  | cons req rest =>
    -- the pool is full, so it has a member
    have hfull := h.full name (by simp [queue, hq])
    have hlength := h.accounts.length name
    have hpos : 0 < (w.members name).length := by
      have := h.enough
      omega
    obtain ⟨s, hs⟩ := List.exists_mem_of_length_pos hpos
    obtain ⟨-, -, hexact⟩ := h.accounts.accounted name
    obtain ⟨c, hget, rfl, hopen, -⟩ := (hexact s).mp hs
    have hcard : w.cards[s]? = some c.card := by simp [cards, hget]
    obtain ⟨-, honFree, honClose, -⟩ := h.accounts.active c.name s c.card hs hcard
    refine ⟨req, rest, s, c, rfl, hs, hget, rfl, hopen, honFree, honClose, fun hlive => ?_,
      fun hdead => ?_, fun hplain => ?_⟩
    · exact free_serves h.queued hget honFree hlive hq
    · exact ((h.queued.sound s c hget).dying hdead).resolve_right (by simp [hopen])
    · exact close_serves h.accounts h.queued hget honClose hq hplain

/-- Two requests and one connection: the second request waits for the 'close' of the first. -/
theorem queue_served_close :
    let w := run step (init 1) [.addRequest ⟨0, none⟩ "a".toList 80 none,
      .addRequest ⟨1, some (.one (.str "b".toList))⟩ "a".toList 80 none, .destroy 0]
    (∀ name, w.handedTo name ++ w.queue name = w.addedTo name) ∧
    ∀ name q, w.agent.requests name = some q → ∃ req rest s c,
      q = req :: rest ∧ s ∈ w.members name ∧ w.connections[s]? = some c ∧ c.name = name ∧
      c.closed = false ∧ c.onFree = true ∧ c.onClose = true ∧
      (c.socket.destroyed = false → (w.step (.free s)).handed = w.handed ++ [(name, req, s)]) ∧
      (c.socket.destroyed = true → c.closing = true) ∧
      (plain (some req) = true → (w.emitClose s c).world.handed =
        w.handed ++ [(name, req, w.connections.length)]) :=
  queue_served 1 le_rfl [.addRequest ⟨0, none⟩ "a".toList 80 none,
    .addRequest ⟨1, some (.one (.str "b".toList))⟩ "a".toList 80 none, .destroy 0] (by decide)

/-- A request whose Host header is a table is left in the queue when the connection closes: its
replacement cannot be made. -/
theorem table_host_stranded :
    ¬ ∀ (maxSockets : ℕ), 1 ≤ maxSockets → ∀ es : List AgentEvent,
      (∀ name host port localAddress req,
        AgentEvent.createSocket name host port localAddress req ∉ es) →
      (∀ s name host port localAddress,
        AgentEvent.removeSocket s name host port localAddress ∉ es) →
      let w := run step (init maxSockets) es
      ∀ name q, w.agent.requests name = some q → ∃ s, s ∈ w.members name := by
  intro h
  obtain ⟨es, hes⟩ : ∃ es : List AgentEvent, es =
      [.addRequest ⟨0, none⟩ "a".toList 80 none,
      .addRequest ⟨1, some (.many [.str "b".toList])⟩ "a".toList 80 none, .destroy 0, .tick 0] :=
    ⟨_, rfl⟩
  have hbad := h 1 le_rfl es (by simp [hes]) (by simp [hes])
  rw [hes] at hbad
  obtain ⟨s, hs⟩ := hbad "a:80".toList [⟨1, some (.many [.str "b".toList])⟩] (by decide)
  have hempty : (run step (init 1) [.addRequest ⟨0, none⟩ "a".toList 80 none,
      .addRequest ⟨1, some (.many [.str "b".toList])⟩ "a".toList 80 none, .destroy 0,
      .tick 0]).members "a:80".toList = [] := by decide
  rw [hempty] at hs
  simp at hs

end World

end LuaNode
