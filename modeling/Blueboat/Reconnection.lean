import Blueboat.Library.Machine
import Blueboat.Room

set_option autoImplicit false

/-! `Room::allow_reconnection` among joins, leaves and timers of one room on which `dispose` is not
called. Each label is what runs under the game lock at a stretch. -/
namespace Blueboat.Reconnection

open Machine

/-- What one call of `allow_reconnection` shares with its join listener and its timer; `timeout` is
the handle, which is empty until `set_timeout` has returned, with its flag `cancelled`. -/
structure Wait where
  clientId : Str
  resolved : Bool
  joinSub : ℕ
  timeout : Option Bool

/-- A call of `set_value`, with `clients_` at that instant. -/
structure Setting where
  wait : ℕ
  value : Bool
  byTimer : Bool
  clients : List SimpleClient
  deriving DecidableEq

/-- `Client *`; the objects are numbered in the order in which `add_client` made them. -/
abbrev ClientRef := ℕ

/-- `on_join_listeners.call` for a client, with the listeners that it has not come to. -/
structure Loop where
  client : ClientRef
  left : List (ℕ × JoinCallback)

/-- `objects` is what each `Client` was made with. Those in `leaving` are out of `clients_`, and are
destroyed when their `remove_client` returns; `dangling` has those that were read afterwards.
`running` is the loop that has called a listener of the application, under the game lock; in `parked`
are those whose listener waits in an `allow_reconnection` of its own. The worker has called the timer
callback of `started`. -/
structure State where
  objects : ClientRef → SimpleClient
  nextClient : ClientRef
  clients : List ClientRef
  leaving : List ClientRef
  dangling : List ClientRef
  onJoinListeners : List (ℕ × JoinCallback)
  nextCallback : ℕ
  waits : ℕ → Wait
  nextWait : ℕ
  tasks : List ℕ
  started : Option ℕ
  running : Option Loop
  parked : List Loop
  log : List Setting

def State.initial : State where
  objects := fun _ => ⟨[], [], [], []⟩
  nextClient := 0
  clients := []
  leaving := []
  dangling := []
  onJoinListeners := []
  nextCallback := 0
  waits := fun _ => ⟨[], false, 0, none⟩
  nextWait := 0
  tasks := []
  started := none
  running := none
  parked := []
  log := []

namespace State

def members (s : State) : List SimpleClient := s.clients.map s.objects

/-- The object has been made and not yet destroyed. -/
def Alive (s : State) (client : ClientRef) : Prop := client ∈ s.clients ∨ client ∈ s.leaving

instance (s : State) (client : ClientRef) : Decidable (s.Alive client) :=
  inferInstanceAs (Decidable (client ∈ s.clients ∨ client ∈ s.leaving))

/-- `if (!resolved->exchange(true)) promise->set_value(value)`. -/
def resolve (s : State) (v : ℕ) (value byTimer : Bool) : State :=
  if (s.waits v).resolved then s
  else { s with
    waits := Function.update s.waits v { s.waits v with resolved := true }
    log := s.log ++ [⟨v, value, byTimer, s.members⟩] }

def clearTimeout (s : State) (v : ℕ) : State :=
  let wait := { s.waits v with timeout := (s.waits v).timeout.map fun _ => true }
  { s with waits := Function.update s.waits v wait }

def clearJoinSub (s : State) (v : ℕ) : State :=
  { s with onJoinListeners := s.onJoinListeners.filter fun l => l.1 != (s.waits v).joinSub }

def rejoined (s : State) (v : ℕ) (joined : ClientRef) : State :=
  if (s.objects joined).id ≠ (s.waits v).clientId then s
  else ((s.resolve v true false).clearTimeout v).clearJoinSub v

def reconnectTimeout (s : State) (v : ℕ) : State :=
  let reconnected := s.members.any fun c => c.id = (s.waits v).clientId
  (s.resolve v reconnected true).clearJoinSub v

/-- `on_join_listeners.call` up to the next listener of the application. Nothing is said of what comes
after a read of a destroyed client. -/
def callJoinListeners (s : State) (client : ClientRef) : List (ℕ × JoinCallback) → State
  | [] => s
  | listener :: left =>
    if listener ∈ s.onJoinListeners then
      match listener.2 with
      | .wait v =>
        if s.Alive client then (s.rejoined v client).callJoinListeners client left
        else { s with dangling := client :: s.dangling }
      | .app => { s with running := some ⟨client, left⟩ }
    else s.callJoinListeners client left

end State

/-- `allow` and `arm` are the two halves of `allow_reconnection`, `leave` and `left` those of
`remove_client`: `on_leave` and the leave listeners, which run between them, may wait as well. -/
inductive Label where
  | allow (clientId : Str)
  | arm (wait : ℕ)
  | listen
  | join (client : SimpleClient)
  | leave (sessionId : Str)
  | left (client : ClientRef)
  | fire (wait : ℕ)
  | callback
  | listenerReturns
  | listenerThrows
  | listenerWaits
  | listenerResumes (index : ℕ)

def step (s : State) : Label → Option State
  | .allow clientId => some { s with
      onJoinListeners := s.onJoinListeners ++ [(s.nextCallback, .wait s.nextWait)]
      nextCallback := s.nextCallback + 1
      waits := Function.update s.waits s.nextWait ⟨clientId, false, s.nextCallback, none⟩
      nextWait := s.nextWait + 1 }
  | .arm v =>
    if v < s.nextWait ∧ (s.waits v).timeout = none then some { s with
      waits := Function.update s.waits v { s.waits v with timeout := some false }
      tasks := s.tasks ++ [v] }
    else none
  | .listen => some { s with
      onJoinListeners := s.onJoinListeners ++ [(s.nextCallback, .app)]
      nextCallback := s.nextCallback + 1 }
  | .join client =>
    match s.running with
    | none => some ({ s with
        objects := Function.update s.objects s.nextClient client
        nextClient := s.nextClient + 1
        clients := s.clients ++ [s.nextClient] }.callJoinListeners s.nextClient s.onJoinListeners)
    | some _ => none
  | .leave sessionId =>
    match s.clients.find? fun c => (s.objects c).sessionId = sessionId with
    | none => some s
    | some client => some { s with
        clients := s.clients.eraseP fun c => (s.objects c).sessionId = sessionId
        leaving := client :: s.leaving }
  | .left client =>
    if client ∈ s.leaving then some { s with leaving := s.leaving.erase client } else none
  | .fire v =>
    if s.started = none ∧ v ∈ s.tasks then
      if (s.waits v).timeout = some true then some { s with tasks := s.tasks.erase v }
      else some { s with tasks := s.tasks.erase v, started := some v }
    else none
  | .callback =>
    match s.started, s.running with
    | some v, none => some ({ s with started := none }.reconnectTimeout v)
    | _, _ => none
  | .listenerReturns =>
    match s.running with
    | some loop => some ({ s with running := none }.callJoinListeners loop.client loop.left)
    | none => none
  | .listenerThrows =>
    match s.running with
    | some _ => some { s with running := none }
    | none => none
  | .listenerWaits =>
    match s.running with
    | some loop => some { s with running := none, parked := s.parked ++ [loop] }
    | none => none
  | .listenerResumes index =>
    match s.running, s.parked[index]? with
    | none, some loop => some { s with running := some loop, parked := s.parked.eraseIdx index }
    | _, _ => none

/-! ## What is claimed, and when it holds -/

def Present (clients : List SimpleClient) (id : Str) : Prop := ∃ c ∈ clients, c.id = id

/-- A promise is set to true while the client is there, and to false by the timer while it is not. -/
def Setting.Truthful (clientId : Str) (e : Setting) : Prop :=
  (e.value = true → Present e.clients clientId) ∧
    (e.value = false → e.byTimer = true ∧ ¬ Present e.clients clientId)

/-- The timer of the wait is still to be set, or it is queued, or its callback has been called. -/
def State.Due (s : State) (v : ℕ) : Prop :=
  (s.waits v).timeout = none ∨
    (s.waits v).timeout = some false ∧ (v ∈ s.tasks ∨ s.started = some v)

structure Resolves (s : State) : Prop where
  undangled : s.dangling = []
  once : (s.log.map Setting.wait).Nodup
  truthful : ∀ e ∈ s.log, e.Truthful (s.waits e.wait).clientId
  unregistered : ∀ e ∈ s.log, ∀ id, (id, JoinCallback.wait e.wait) ∉ s.onJoinListeners
  due : ∀ v < s.nextWait, v ∉ s.log.map Setting.wait → s.Due v

def State.loops (s : State) : List Loop := s.running.toList ++ s.parked

def State.awaits (s : State) (loop : Loop) : Bool :=
  loop.left.any fun l =>
    match l.2 with
    | .wait v => !(s.waits v).resolved && (s.waits v).clientId == (s.objects loop.client).id
    | .app => false

/-- The loop has yet to come to the listener of some wait, which reads its client. -/
def State.reads (s : State) (loop : Loop) : Bool :=
  loop.left.any fun l =>
    match l.2 with
    | .wait _ => decide (l ∈ s.onJoinListeners)
    | .app => false

/-- No leave takes the last client with its id away before the loop that was begun for it has come
to the listeners of the waits for it, and none destroys the client of a loop that has yet to come to
the listener of any wait. -/
def Stays (s : State) : Label → Prop
  | .leave sessionId => ∀ loop ∈ s.loops, s.awaits loop = true →
      Present ((s.clients.eraseP fun c => (s.objects c).sessionId = sessionId).map s.objects)
        (s.objects loop.client).id
  | .left client => ∀ loop ∈ s.loops, s.reads loop = true → loop.client ≠ client
  | _ => True

instance (clients : List SimpleClient) (id : Str) : Decidable (Present clients id) :=
  inferInstanceAs (Decidable (∃ c ∈ clients, c.id = id))

instance (s : State) : (label : Label) → Decidable (Stays s label)
  | .leave sessionId => inferInstanceAs (Decidable (∀ loop ∈ s.loops, s.awaits loop = true →
      Present ((s.clients.eraseP fun c => (s.objects c).sessionId = sessionId).map s.objects)
        (s.objects loop.client).id))
  | .left client => inferInstanceAs (Decidable (∀ loop ∈ s.loops, s.reads loop = true →
      loop.client ≠ client))
  | .allow _ | .arm _ | .listen | .join _ | .fire _ | .callback | .listenerReturns
  | .listenerThrows | .listenerWaits | .listenerResumes _ => inferInstanceAs (Decidable True)

/-! ## The invariant -/

structure Sound (s : State) : Prop where
  listens : ∀ {id v}, (id, JoinCallback.wait v) ∈ s.onJoinListeners →
    v < s.nextWait ∧ id = (s.waits v).joinSub ∧ (s.waits v).resolved = false
  drawn : ∀ {v}, v < s.nextWait → (s.waits v).joinSub < s.nextCallback
  distinct : ∀ {v v'}, v < s.nextWait → v' < s.nextWait →
    (s.waits v).joinSub = (s.waits v').joinSub → v = v'
  due : ∀ {v}, v < s.nextWait → (s.waits v).resolved = false → s.Due v
  queued : ∀ {v}, v ∈ s.tasks ∨ s.started = some v → v < s.nextWait ∧ (s.waits v).timeout ≠ none
  set : ∀ {v}, v ∈ s.log.map Setting.wait ↔ v < s.nextWait ∧ (s.waits v).resolved = true
  once : (s.log.map Setting.wait).Nodup
  truthful : ∀ e ∈ s.log, e.Truthful (s.waits e.wait).clientId
  left : ∀ loop ∈ s.loops, ∀ {id v}, (id, JoinCallback.wait v) ∈ loop.left → v < s.nextWait
  vouched : ∀ loop ∈ s.loops, s.awaits loop = true → Present s.members (s.objects loop.client).id
  made : ∀ {c}, s.Alive c → c < s.nextClient
  begun : ∀ loop ∈ s.loops, loop.client < s.nextClient
  alive : ∀ loop ∈ s.loops, s.reads loop = true → s.Alive loop.client
  undangled : s.dangling = []

theorem sound_initial : Sound State.initial where
  listens := nofun
  drawn := nofun
  distinct := nofun
  due := nofun
  queued := by rintro v (h | h) <;> cases h
  set := by simp [State.initial]
  once := List.nodup_nil
  truthful := nofun
  left := nofun
  vouched := nofun
  made := by rintro c (h | h) <;> cases h
  begun := nofun
  alive := nofun
  undangled := rfl

theorem Sound.resolves {s : State} (h : Sound s) : Resolves s where
  undangled := h.undangled
  once := h.once
  truthful := h.truthful
  unregistered := by
    intro e mem id registered
    have resolved := (h.set.1 (List.mem_map_of_mem mem)).2
    rw [(h.listens registered).2.2] at resolved
    cases resolved
  due := by
    intro v made unset
    refine h.due made (Bool.eq_false_of_not_eq_true fun resolved => ?_)
    exact unset (h.set.2 ⟨made, resolved⟩)

/-- Wait `v` is resolved, its listener is removed, and nothing else happens to the others. -/
structure Settles (s : State) (v : ℕ) (s' : State) : Prop where
  objects : s'.objects = s.objects
  nextClient : s'.nextClient = s.nextClient
  clients : s'.clients = s.clients
  leaving : s'.leaving = s.leaving
  dangling : s'.dangling = s.dangling
  nextCallback : s'.nextCallback = s.nextCallback
  nextWait : s'.nextWait = s.nextWait
  tasks : s'.tasks = s.tasks
  started : s'.started = s.started
  running : s'.running = s.running
  parked : s'.parked = s.parked
  others : ∀ {v'}, v' ≠ v → s'.waits v' = s.waits v'
  resolved : (s'.waits v).resolved = true
  clientId : (s'.waits v).clientId = (s.waits v).clientId
  joinSub : (s'.waits v).joinSub = (s.waits v).joinSub
  timeout : (s.waits v).timeout ≠ none → (s'.waits v).timeout ≠ none
  listeners : s'.onJoinListeners =
    s.onJoinListeners.filter fun l => l.1 != (s.waits v).joinSub
  log : (s.waits v).resolved = true ∧ s'.log = s.log ∨
    (s.waits v).resolved = false ∧ ∃ e : Setting, s'.log = s.log ++ [e] ∧ e.wait = v ∧
      e.Truthful (s.waits v).clientId

theorem Settles.loops {s s' : State} {v : ℕ} (h : Settles s v s') : s'.loops = s.loops := by
  rw [State.loops, h.running, h.parked]
  rfl

theorem Settles.members {s s' : State} {v : ℕ} (h : Settles s v s') : s'.members = s.members := by
  rw [State.members, h.clients, h.objects]
  rfl

theorem Settles.alive {s s' : State} {v : ℕ} (h : Settles s v s') (c : ClientRef) :
    s'.Alive c ↔ s.Alive c := by
  rw [State.Alive, h.clients, h.leaving]
  rfl

theorem Settles.sameClient {s s' : State} {v : ℕ} (h : Settles s v s') (v' : ℕ) :
    (s'.waits v').clientId = (s.waits v').clientId := by
  by_cases same : v' = v
  · subst same
    exact h.clientId
  · rw [h.others same]

theorem Settles.sameJoinSub {s s' : State} {v : ℕ} (h : Settles s v s') (v' : ℕ) :
    (s'.waits v').joinSub = (s.waits v').joinSub := by
  by_cases same : v' = v
  · subst same
    exact h.joinSub
  · rw [h.others same]

/-- What is awaited after a wait was settled was awaited before. -/
theorem Settles.awaits {s s' : State} {v : ℕ} (h : Settles s v s') {loop : Loop}
    (awaits : s'.awaits loop = true) : s.awaits loop = true := by
  obtain ⟨l, mem, waiting⟩ := List.any_eq_true.1 awaits
  refine List.any_eq_true.2 ⟨l, mem, ?_⟩
  cases callback : l.2 with
  | app => simp [callback] at waiting
  | wait v' =>
    simp only [callback] at waiting ⊢
    have other : v' ≠ v := by
      rintro rfl
      simp [h.resolved] at waiting
    rw [h.others other, h.objects] at waiting
    exact waiting

/-- Listeners are only removed. -/
theorem reads_of_subset {s s' : State} {loop : Loop}
    (fewer : ∀ {id v}, (id, JoinCallback.wait v) ∈ loop.left →
      (id, JoinCallback.wait v) ∈ s'.onJoinListeners → (id, JoinCallback.wait v) ∈ s.onJoinListeners)
    (reads : s'.reads loop = true) : s.reads loop = true := by
  obtain ⟨⟨id, callback⟩, mem, registered⟩ := List.any_eq_true.1 reads
  refine List.any_eq_true.2 ⟨(id, callback), mem, ?_⟩
  cases callback with
  | app => cases registered
  | wait v => exact decide_eq_true (fewer mem (of_decide_eq_true registered))

theorem Settles.reads {s s' : State} {v : ℕ} (h : Settles s v s') {loop : Loop}
    (reads : s'.reads loop = true) : s.reads loop = true :=
  reads_of_subset (fun _ registered => List.mem_of_mem_filter (h.listeners ▸ registered)) reads

/-- What is settled is noted once, and truthfully. -/
theorem Sound.settled_log {s s' : State} {v : ℕ} (h : Sound s) (made : v < s.nextWait)
    (settles : Settles s v s') : (s'.log.map Setting.wait).Nodup ∧
      (∀ {v'}, v' ∈ s'.log.map Setting.wait ↔ v' < s.nextWait ∧ (s'.waits v').resolved = true) ∧
      ∀ e ∈ s'.log, e.Truthful (s.waits e.wait).clientId := by
  rcases settles.log with ⟨resolved, log⟩ | ⟨unresolved, e, log, rfl, truthful⟩
  · rw [log]
    refine ⟨h.once, fun {v'} => h.set.trans ?_, h.truthful⟩
    by_cases same : v' = v
    · subst same
      rw [settles.resolved, resolved]
    · rw [settles.others same]
  · have unset : e.wait ∉ s.log.map Setting.wait := fun mem => by
      have resolved := (h.set.1 mem).2
      rw [unresolved] at resolved
      cases resolved
    rw [log, List.map_append, List.map_singleton]
    refine ⟨?_, fun {v'} => ?_, fun e' mem => ?_⟩
    · exact List.nodup_append.2 ⟨h.once, List.nodup_singleton _, fun a ha b hb => by
        rw [List.mem_singleton.1 hb]
        rintro rfl
        exact unset ha⟩
    · rw [List.mem_append, List.mem_singleton]
      by_cases same : v' = e.wait
      · subst same
        exact ⟨fun _ => ⟨made, settles.resolved⟩, fun _ => .inr rfl⟩
      · rw [settles.others same, h.set]
        exact ⟨fun mem => mem.resolve_right same, .inl⟩
    · rcases List.mem_append.1 mem with mem | mem
      · exact h.truthful e' mem
      · obtain rfl := List.mem_singleton.1 mem
        exact truthful

theorem Sound.settled {s s' : State} {v : ℕ} (h : Sound s) (made : v < s.nextWait)
    (settles : Settles s v s') : Sound s' := by
  obtain ⟨once, set, truthful⟩ := h.settled_log made settles
  refine
    { listens := ?_, drawn := ?_, distinct := ?_, due := ?_, queued := ?_, set := ?_, once := once,
      truthful := ?_, left := ?_, vouched := ?_, made := ?_, begun := ?_, alive := ?_
      undangled := settles.dangling.trans h.undangled }
  · intro id v' registered
    rw [settles.listeners] at registered
    obtain ⟨registered, other⟩ := List.mem_filter.1 registered
    obtain ⟨made', rfl, unresolved⟩ := h.listens registered
    have other : v' ≠ v := by
      rintro rfl
      simp at other
    rw [settles.nextWait, settles.others other]
    exact ⟨made', rfl, unresolved⟩
  · intro v' made'
    rw [settles.nextWait] at made'
    rw [settles.sameJoinSub, settles.nextCallback]
    exact h.drawn made'
  · intro v₁ v₂ made₁ made₂ same
    rw [settles.nextWait] at made₁ made₂
    rw [settles.sameJoinSub, settles.sameJoinSub] at same
    exact h.distinct made₁ made₂ same
  · intro v' made' unresolved
    rw [settles.nextWait] at made'
    have other : v' ≠ v := by
      rintro rfl
      rw [settles.resolved] at unresolved
      cases unresolved
    rw [settles.others other] at unresolved
    rw [State.Due, settles.others other, settles.tasks, settles.started]
    exact h.due made' unresolved
  · intro v' queued
    rw [settles.tasks, settles.started] at queued
    obtain ⟨made', armed⟩ := h.queued queued
    refine ⟨settles.nextWait ▸ made', ?_⟩
    by_cases same : v' = v
    · subst same
      exact settles.timeout armed
    · rw [settles.others same]
      exact armed
  · intro v'
    rw [settles.nextWait]
    exact set
  · intro e mem
    rw [settles.sameClient]
    exact truthful e mem
  · intro loop mem id v' later
    rw [settles.loops] at mem
    rw [settles.nextWait]
    exact h.left loop mem later
  · intro loop mem awaits
    rw [settles.loops] at mem
    rw [settles.members, settles.objects]
    exact h.vouched loop mem (settles.awaits awaits)
  · intro c alive
    rw [settles.nextClient]
    exact h.made ((settles.alive c).1 alive)
  · intro loop mem
    rw [settles.loops] at mem
    rw [settles.nextClient]
    exact h.begun loop mem
  · intro loop mem reads
    rw [settles.loops] at mem
    exact (settles.alive _).2 (h.alive loop mem (settles.reads reads))

/-! ## The two resolvers -/

/-- Whoever finds the flag unset tells the truth; the flag is set afterwards in any case. -/
theorem resolve_waits (s : State) (v : ℕ) (value byTimer : Bool) :
    (s.resolve v value byTimer).waits =
      Function.update s.waits v { s.waits v with resolved := true } := by
  unfold State.resolve
  split
  case isTrue resolved =>
    rw [← resolved]
    exact (Function.update_eq_self v s.waits).symm
  case isFalse => rfl

theorem resolve_log (s : State) (v : ℕ) (value byTimer : Bool)
    (truthful : (s.waits v).resolved = false →
      Setting.Truthful (s.waits v).clientId ⟨v, value, byTimer, s.members⟩) :
    (s.waits v).resolved = true ∧ (s.resolve v value byTimer).log = s.log ∨
      (s.waits v).resolved = false ∧ ∃ e : Setting, (s.resolve v value byTimer).log = s.log ++ [e] ∧
        e.wait = v ∧ e.Truthful (s.waits v).clientId := by
  unfold State.resolve
  cases resolved : (s.waits v).resolved with
  | true => exact .inl ⟨rfl, rfl⟩
  | false => exact .inr ⟨rfl, _, rfl, rfl, truthful resolved⟩

theorem resolve_same (s : State) (v : ℕ) (value byTimer : Bool) : s.resolve v value byTimer =
    { s with
      waits := (s.resolve v value byTimer).waits
      log := (s.resolve v value byTimer).log } := by
  unfold State.resolve
  split <;> rfl

theorem settles_of {s s' : State} {v : ℕ} (wait : Wait)
    (same : s' = { s with
      waits := Function.update s.waits v wait
      onJoinListeners := s.onJoinListeners.filter fun l => l.1 != (s.waits v).joinSub
      log := s'.log })
    (resolved : wait.resolved = true) (clientId : wait.clientId = (s.waits v).clientId)
    (joinSub : wait.joinSub = (s.waits v).joinSub)
    (timeout : (s.waits v).timeout ≠ none → wait.timeout ≠ none)
    (log : (s.waits v).resolved = true ∧ s'.log = s.log ∨
      (s.waits v).resolved = false ∧ ∃ e : Setting, s'.log = s.log ++ [e] ∧ e.wait = v ∧
        e.Truthful (s.waits v).clientId) : Settles s v s' := by
  have waits : s'.waits = Function.update s.waits v wait := by rw [same]
  have self : s'.waits v = wait := by rw [waits, Function.update_self]
  exact
    { objects := by rw [same]
      nextClient := by rw [same]
      clients := by rw [same]
      leaving := by rw [same]
      dangling := by rw [same]
      nextCallback := by rw [same]
      nextWait := by rw [same]
      tasks := by rw [same]
      started := by rw [same]
      running := by rw [same]
      parked := by rw [same]
      others := fun other => by rw [waits, Function.update_of_ne other]
      resolved := by rw [self, resolved]
      clientId := by rw [self, clientId]
      joinSub := by rw [self, joinSub]
      timeout := by
        rw [self]
        exact timeout
      listeners := by rw [same]
      log := log }

theorem settles_rejoined {s : State} {v : ℕ} {joined : ClientRef}
    (same : (s.objects joined).id = (s.waits v).clientId)
    (present : (s.waits v).resolved = false → Present s.members (s.objects joined).id) :
    Settles s v (s.rejoined v joined) := by
  have log := resolve_log s v true false fun unresolved =>
    ⟨fun _ => same ▸ present unresolved, nofun⟩
  have waits := resolve_waits s v true false
  rw [State.rejoined, if_neg (not_not_intro same)]
  refine settles_of { s.waits v with
    resolved := true
    timeout := (s.waits v).timeout.map fun _ => true } ?_ rfl rfl rfl (by simp) log
  rw [resolve_same, waits]
  simp [State.clearTimeout, State.clearJoinSub]

theorem settles_reconnectTimeout (s : State) (v : ℕ) : Settles s v (s.reconnectTimeout v) := by
  have log := resolve_log s v (s.members.any fun c => c.id = (s.waits v).clientId) true
    fun _ => by
      refine ⟨fun yes => ?_, fun no => ⟨rfl, ?_⟩⟩
      · obtain ⟨c, mem, same⟩ := List.any_eq_true.1 yes
        exact ⟨c, mem, of_decide_eq_true same⟩
      · rintro ⟨c, mem, same⟩
        exact absurd (decide_eq_true same) (List.any_eq_false.1 no c mem)
  refine settles_of { s.waits v with resolved := true } ?_ rfl rfl rfl id log
  rw [State.reconnectTimeout]
  dsimp only
  rw [resolve_same, resolve_waits]
  simp [State.clearJoinSub]

/-! ## The loop over the listeners -/

structure Minded (s : State) (loop : Loop) : Prop where
  left : ∀ {id v}, (id, JoinCallback.wait v) ∈ loop.left → v < s.nextWait
  vouched : s.awaits loop = true → Present s.members (s.objects loop.client).id
  begun : loop.client < s.nextClient
  alive : s.reads loop = true → s.Alive loop.client

theorem Sound.minded {s : State} (h : Sound s) {loop : Loop} (mem : loop ∈ s.loops) :
    Minded s loop where
  left := h.left loop mem
  vouched := h.vouched loop mem
  begun := h.begun loop mem
  alive := h.alive loop mem

theorem Minded.tail {s : State} {client : ClientRef} {listener : ℕ × JoinCallback}
    {left : List (ℕ × JoinCallback)} (h : Minded s ⟨client, listener :: left⟩) :
    Minded s ⟨client, left⟩ where
  left := fun mem => h.left (List.mem_cons_of_mem _ mem)
  vouched := fun awaits => h.vouched <| by
    rw [State.awaits, List.any_cons]
    exact Bool.or_eq_true_iff.2 (.inr awaits)
  begun := h.begun
  alive := fun reads => h.alive <| by
    rw [State.reads, List.any_cons]
    exact Bool.or_eq_true_iff.2 (.inr reads)

theorem Minded.settled {s s' : State} {v : ℕ} {loop : Loop} (h : Minded s loop)
    (settles : Settles s v s') : Minded s' loop where
  left := fun mem => settles.nextWait ▸ h.left mem
  vouched := fun awaits => by
    rw [settles.members, settles.objects]
    exact h.vouched (settles.awaits awaits)
  begun := settles.nextClient ▸ h.begun
  alive := fun reads => (settles.alive _).2 (h.alive (settles.reads reads))

/-- The loops that are under way change. -/
theorem Sound.withLoops {s s' : State} (h : Sound s)
    (same : s' = { s with running := s'.running, parked := s'.parked })
    (loops : ∀ l ∈ s'.loops, Minded s l) : Sound s' := by
  rw [same] at loops ⊢
  exact
    { h with
      due := h.due
      made := h.made
      left := fun l mem => (loops l mem).left
      vouched := fun l mem => (loops l mem).vouched
      begun := fun l mem => (loops l mem).begun
      alive := fun l mem => (loops l mem).alive }

theorem Sound.fewer {s s' : State} (h : Sound s)
    (same : s' = { s with running := s'.running, parked := s'.parked })
    (loops : ∀ l ∈ s'.loops, l ∈ s.loops) : Sound s' :=
  h.withLoops same fun l mem => h.minded (loops l mem)

theorem Sound.callJoinListeners {s : State} (h : Sound s) (running : s.running = none)
    {client : ClientRef} {listeners : List (ℕ × JoinCallback)}
    (minded : Minded s ⟨client, listeners⟩) : Sound (s.callJoinListeners client listeners) := by
  induction listeners generalizing s with
  | nil => exact h
  | cons listener listeners ih =>
    rw [State.callJoinListeners]
    split
    case isFalse => exact ih h running minded.tail
    case isTrue registered =>
      obtain ⟨id, callback⟩ := listener
      cases callback with
      | app =>
        refine h.withLoops rfl fun l mem => ?_
        rcases List.mem_cons.1 (show l ∈ ⟨client, listeners⟩ :: s.parked from mem) with rfl | mem
        · exact minded.tail
        · exact h.minded (List.mem_append_right _ mem)
      | wait v =>
        have reads : s.reads ⟨client, (id, .wait v) :: listeners⟩ = true := by
          rw [State.reads, List.any_cons]
          simp [registered]
        dsimp only
        rw [if_pos (minded.alive reads)]
        by_cases same : (s.objects client).id = (s.waits v).clientId
        · have settles : Settles s v (s.rejoined v client) :=
            settles_rejoined same fun unresolved => minded.vouched <| by
              rw [State.awaits, List.any_cons]
              simp [unresolved, same]
          exact ih (h.settled (h.listens registered).1 settles) (settles.running.trans running)
            (minded.tail.settled settles)
        · rw [State.rejoined, if_pos same]
          exact ih h running minded.tail

/-! ## Every step -/

/-- A wait that is not made yet is not awaited either. -/
theorem awaits_congr {s s' : State} {loop : Loop}
    (client : s'.objects loop.client = s.objects loop.client)
    (same : ∀ {id v}, (id, JoinCallback.wait v) ∈ loop.left → (s'.waits v).resolved =
      (s.waits v).resolved ∧ (s'.waits v).clientId = (s.waits v).clientId) :
    s'.awaits loop = s.awaits loop := by
  rw [State.awaits, State.awaits, Bool.eq_iff_iff, List.any_eq_true, List.any_eq_true]
  refine exists_congr fun l => and_congr_right fun mem => ?_
  obtain ⟨id, callback⟩ := l
  cases callback with
  | app => exact Iff.rfl
  | wait v =>
    dsimp only
    rw [(same mem).1, (same mem).2, client]

theorem Sound.allow {s : State} (h : Sound s) (clientId : Str) {s' : State}
    (last : step s (.allow clientId) = some s') : Sound s' := by
  obtain rfl := Option.some.inj last
  generalize made : Function.update s.waits s.nextWait _ = waits
  have new : waits s.nextWait = ⟨clientId, false, s.nextCallback, none⟩ := by
    rw [← made, Function.update_self]
  have old : ∀ {v}, v < s.nextWait → waits v = s.waits v := fun lt => by
    rw [← made, Function.update_of_ne (Nat.ne_of_lt lt)]
  have cases_lt : ∀ {v}, v < s.nextWait + 1 → v < s.nextWait ∨ v = s.nextWait := fun lt =>
    Nat.lt_or_eq_of_le (Nat.le_of_lt_succ lt)
  refine
    { listens := ?_, drawn := ?_, distinct := ?_, due := ?_, queued := ?_, set := ?_, once := h.once,
      truthful := ?_, left := ?_, vouched := ?_, made := h.made, begun := h.begun, alive := ?_
      undangled := h.undangled }
  · intro id v registered
    rcases List.mem_append.1 registered with registered | registered
    · have before := h.listens registered
      refine ⟨Nat.lt_succ_of_lt before.1, ?_⟩
      change id = (waits v).joinSub ∧ (waits v).resolved = false
      rw [old before.1]
      exact before.2
    · cases List.mem_singleton.1 registered
      refine ⟨Nat.lt_succ_self _, ?_⟩
      change s.nextCallback = (waits s.nextWait).joinSub ∧ (waits s.nextWait).resolved = false
      rw [new]
      exact ⟨rfl, rfl⟩
  · intro v lt
    change (waits v).joinSub < s.nextCallback + 1
    rcases cases_lt lt with lt | rfl
    · rw [old lt]
      exact Nat.lt_succ_of_lt (h.drawn lt)
    · rw [new]
      exact Nat.lt_succ_self _
  · intro v v' lt lt' same
    change (waits v).joinSub = (waits v').joinSub at same
    rcases cases_lt lt with lt | rfl <;> rcases cases_lt lt' with lt' | rfl
    · rw [old lt, old lt'] at same
      exact h.distinct lt lt' same
    · rw [old lt, new] at same
      exact absurd same (Nat.ne_of_lt (h.drawn lt))
    · rw [old lt', new] at same
      exact absurd same.symm (Nat.ne_of_lt (h.drawn lt'))
    · rfl
  · intro v lt unresolved
    change (waits v).resolved = false at unresolved
    change (waits v).timeout = none ∨ (waits v).timeout = some false ∧
      (v ∈ s.tasks ∨ s.started = some v)
    rcases cases_lt lt with lt | rfl
    · rw [old lt] at unresolved ⊢
      exact h.due lt unresolved
    · rw [new]
      exact .inl rfl
  · intro v queued
    have before := h.queued queued
    refine ⟨Nat.lt_succ_of_lt before.1, ?_⟩
    change (waits v).timeout ≠ none
    rw [old before.1]
    exact before.2
  · intro v
    change v ∈ s.log.map Setting.wait ↔ v < s.nextWait + 1 ∧ (waits v).resolved = true
    refine h.set.trans ⟨fun before => ?_, fun after => ?_⟩
    · rw [old before.1]
      exact ⟨Nat.lt_succ_of_lt before.1, before.2⟩
    · rcases cases_lt after.1 with lt | rfl
      · rw [old lt] at after
        exact ⟨lt, after.2⟩
      · rw [new] at after
        exact absurd after.2 Bool.false_ne_true
  · intro e mem
    have before := (h.set.1 (List.mem_map_of_mem mem)).1
    change e.Truthful (waits e.wait).clientId
    rw [old before]
    exact h.truthful e mem
  · intro loop mem id v later
    exact Nat.lt_succ_of_lt (h.left loop mem later)
  · intro loop mem awaits
    refine h.vouched loop mem ?_
    rw [← awaits]
    refine Eq.symm (awaits_congr ?_ fun later => ?_)
    · rfl
    · change (waits _).resolved = _ ∧ (waits _).clientId = _
      rw [old (h.left loop mem later)]
      exact ⟨rfl, rfl⟩
  · intro loop mem reads
    refine h.alive loop mem (reads_of_subset (fun later registered => ?_) reads)
    refine (List.mem_append.1 registered).resolve_right fun new => ?_
    cases List.mem_singleton.1 new
    exact absurd (h.left loop mem later) (Nat.lt_irrefl _)

theorem Sound.arm {s : State} (h : Sound s) (v : ℕ) {s' : State}
    (last : step s (.arm v) = some s') : Sound s' := by
  rw [step] at last
  split at last
  case isFalse => cases last
  case isTrue fresh =>
  obtain rfl := Option.some.inj last
  generalize made : Function.update s.waits v _ = waits
  have self : waits v = { s.waits v with timeout := some false } := by
    rw [← made, Function.update_self]
  have other : ∀ {v'}, v' ≠ v → waits v' = s.waits v' := fun ne => by
    rw [← made, Function.update_of_ne ne]
  have same : ∀ v', (waits v').resolved = (s.waits v').resolved ∧
      (waits v').clientId = (s.waits v').clientId ∧ (waits v').joinSub = (s.waits v').joinSub := by
    intro v'
    by_cases eq : v' = v
    · subst eq
      rw [self]
      exact ⟨rfl, rfl, rfl⟩
    · rw [other eq]
      exact ⟨rfl, rfl, rfl⟩
  refine
    { listens := fun registered => ?_, drawn := fun lt => ?_, distinct := fun lt lt' eq => ?_
      due := fun {v'} lt unresolved => ?_, queued := fun {v'} queued => ?_, set := h.set.trans ?_
      once := h.once, truthful := fun e mem => ?_, left := h.left
      vouched := fun loop mem awaits => ?_, made := h.made, begun := h.begun, alive := h.alive
      undangled := h.undangled }
  · rw [(same _).1, (same _).2.2]
    exact h.listens registered
  · rw [(same _).2.2]
    exact h.drawn lt
  · rw [(same _).2.2, (same _).2.2] at eq
    exact h.distinct lt lt' eq
  · rw [(same _).1] at unresolved
    change (waits v').timeout = none ∨ (waits v').timeout = some false ∧
      (v' ∈ s.tasks ++ [v] ∨ s.started = some v')
    by_cases eq : v' = v
    · subst eq
      rw [self]
      exact .inr ⟨rfl, .inl (List.mem_append_right _ (List.mem_singleton_self _))⟩
    · rw [other eq]
      exact (h.due lt unresolved).imp id (And.imp id (Or.imp (List.mem_append_left _) id))
  · change v' < s.nextWait ∧ (waits v').timeout ≠ none
    by_cases eq : v' = v
    · subst eq
      rw [self]
      exact ⟨fresh.1, nofun⟩
    · rw [other eq]
      refine h.queued (queued.imp (fun mem => ?_) id)
      exact (List.mem_append.1 mem).resolve_right fun mem => eq (List.mem_singleton.1 mem)
  · change _ ↔ _ ∧ (waits _).resolved = true
    rw [(same _).1]
  · change e.Truthful (waits e.wait).clientId
    rw [(same _).2.1]
    exact h.truthful e mem
  · refine h.vouched loop mem ?_
    rw [← awaits]
    refine Eq.symm (awaits_congr ?_ fun _ => ⟨(same _).1, (same _).2.1⟩)
    rfl

theorem Sound.join {s : State} (h : Sound s) (client : SimpleClient) {s' : State}
    (last : step s (.join client) = some s') : Sound s' := by
  rw [step] at last
  split at last
  case h_2 => cases last
  case h_1 running =>
  obtain rfl := Option.some.inj last
  generalize updated : Function.update s.objects s.nextClient client = objects
  have new : objects s.nextClient = client := by rw [← updated, Function.update_self]
  have old : ∀ {c}, c < s.nextClient → objects c = s.objects c := fun lt => by
    rw [← updated, Function.update_of_ne (Nat.ne_of_lt lt)]
  have members : (s.clients ++ [s.nextClient]).map objects = s.members ++ [client] := by
    rw [List.map_append, List.map_singleton, new]
    exact congrArg (· ++ [client]) (List.map_congr_left fun c mem => old (h.made (.inl mem)))
  have joined : Sound { s with
      objects := objects
      nextClient := s.nextClient + 1
      clients := s.clients ++ [s.nextClient] } :=
    { h with
      due := h.due
      vouched := fun loop mem awaits => by
        have same := old (h.begun loop mem)
        have before : s.awaits loop = true := by
          rw [← awaits]
          refine Eq.symm (awaits_congr same fun _ => ?_)
          exact ⟨rfl, rfl⟩
        obtain ⟨c, mem, eq⟩ := h.vouched loop mem before
        refine ⟨c, ?_, eq.trans (congrArg SimpleClient.id same.symm)⟩
        rw [State.members, members]
        exact List.mem_append_left _ mem
      made := by
        rintro c (mem | mem)
        · rcases List.mem_append.1 mem with mem | mem
          · exact Nat.lt_succ_of_lt (h.made (.inl mem))
          · exact Nat.lt_succ_of_le (Nat.le_of_eq (List.mem_singleton.1 mem))
        · exact Nat.lt_succ_of_lt (h.made (.inr mem))
      begun := fun loop mem => Nat.lt_succ_of_lt (h.begun loop mem)
      alive := fun loop mem reads => (h.alive loop mem reads).imp (List.mem_append_left _) id }
  refine joined.callJoinListeners running
    { left := fun mem => (h.listens mem).1
      vouched := fun _ => ⟨client, ?_, (congrArg SimpleClient.id new).symm⟩
      begun := Nat.lt_succ_self _
      alive := fun _ => .inl (List.mem_append_right _ (List.mem_singleton_self _)) }
  rw [State.members, members]
  exact List.mem_append_right _ (List.mem_singleton_self _)

theorem mem_eraseP_or {p : ClientRef → Bool} {clients : List ClientRef} {c client : ClientRef}
    (found : clients.find? p = some client) (mem : c ∈ clients) :
    c ∈ clients.eraseP p ∨ c = client := by
  induction clients with
  | nil => cases found
  | cons a clients ih =>
    cases test : p a with
    | true =>
      rw [List.find?_cons_of_pos test] at found
      rw [List.eraseP_cons_of_pos test]
      obtain rfl := Option.some.inj found
      exact (List.mem_cons.1 mem).symm
    | false =>
      have fails : ¬ p a = true := by simp [test]
      rw [List.find?_cons_of_neg fails] at found
      rw [List.eraseP_cons_of_neg fails]
      rcases List.mem_cons.1 mem with rfl | mem
      · exact .inl List.mem_cons_self
      · exact (ih found mem).imp (List.mem_cons_of_mem _) id

theorem Sound.leave {s : State} (h : Sound s) (sessionId : Str) (stays : Stays s (.leave sessionId))
    {s' : State} (last : step s (.leave sessionId) = some s') : Sound s' := by
  rw [step] at last
  split at last
  case h_1 =>
    obtain rfl := Option.some.inj last
    exact h
  case h_2 client found =>
  obtain rfl := Option.some.inj last
  refine
    { h with
      due := h.due, vouched := stays, made := ?_
      alive := fun loop mem reads => ?_ }
  · rintro c (mem | mem)
    · exact h.made (.inl (List.mem_of_mem_eraseP mem))
    · rcases List.mem_cons.1 mem with rfl | mem
      · exact h.made (.inl (List.mem_of_find?_eq_some found))
      · exact h.made (.inr mem)
  · rcases h.alive loop mem reads with member | leaving
    · rcases mem_eraseP_or found member with member | rfl
      · exact .inl member
      · exact .inr List.mem_cons_self
    · exact .inr (List.mem_cons_of_mem _ leaving)

theorem Sound.gone {s : State} (h : Sound s) (client : ClientRef) (stays : Stays s (.left client))
    {s' : State} (last : step s (.left client) = some s') : Sound s' := by
  rw [step] at last
  split at last
  case isFalse => cases last
  case isTrue =>
  obtain rfl := Option.some.inj last
  refine
    { h with
      due := h.due, made := fun alive => h.made (alive.imp id List.mem_of_mem_erase)
      alive := fun loop mem reads => ?_ }
  refine (h.alive loop mem reads).imp id fun leaving => ?_
  exact (List.mem_erase_of_ne (stays loop mem reads)).2 leaving

theorem Sound.fire {s : State} (h : Sound s) (v : ℕ) {s' : State}
    (last : step s (.fire v) = some s') : Sound s' := by
  rw [step] at last
  split at last
  case isFalse => cases last
  case isTrue idle =>
  split at last
  case isTrue cancelled =>
    obtain rfl := Option.some.inj last
    refine { h with
      made := h.made, due := fun {v'} lt unresolved => ?_, queued := fun queued => ?_ }
    · refine (h.due lt unresolved).imp id fun armed => ⟨armed.1, armed.2.imp (fun mem => ?_) id⟩
      have other : v' ≠ v := by
        rintro rfl
        rw [cancelled] at armed
        cases armed.1
      exact (List.mem_erase_of_ne other).2 mem
    · exact h.queued (queued.imp List.mem_of_mem_erase id)
  case isFalse =>
    obtain rfl := Option.some.inj last
    refine { h with
      made := h.made, due := fun {v'} lt unresolved => ?_, queued := fun {v'} queued => ?_ }
    · refine (h.due lt unresolved).imp id fun armed => ⟨armed.1, ?_⟩
      rw [idle.1] at armed
      have mem := armed.2.resolve_right nofun
      by_cases same : v' = v
      · exact .inr (congrArg some same.symm)
      · exact .inl ((List.mem_erase_of_ne same).2 mem)
    · refine h.queued (.inl ?_)
      rcases queued with mem | same
      · exact List.mem_of_mem_erase mem
      · obtain rfl := Option.some.inj same
        exact idle.2

theorem reconnectTimeout_started (s : State) (v : ℕ) :
    { s with started := none }.reconnectTimeout v =
      { s.reconnectTimeout v with started := none } := by
  simp only [State.reconnectTimeout, State.resolve]
  split <;> rfl

theorem Sound.callback {s : State} (h : Sound s) {s' : State}
    (last : step s .callback = some s') : Sound s' := by
  rw [step] at last
  split at last
  case h_2 => cases last
  case h_1 v started running =>
  obtain rfl := Option.some.inj last
  have settles := settles_reconnectTimeout s v
  have sound := h.settled (h.queued (.inr started)).1 settles
  rw [reconnectTimeout_started]
  refine { sound with
    made := sound.made, due := fun {v'} lt unresolved => ?_, queued := fun queued => ?_ }
  · refine (sound.due lt unresolved).imp id fun armed => ⟨armed.1, .inl ?_⟩
    refine armed.2.resolve_right fun same => ?_
    rw [settles.started, started] at same
    obtain rfl := Option.some.inj same
    exact absurd (settles.resolved.symm.trans unresolved) nofun
  · exact sound.queued (queued.imp id nofun)

theorem Sound.step {s s' : State} {label : Label} (h : Sound s) (stays : Stays s label)
    (last : step s label = some s') : Sound s' := by
  cases label with
  | allow clientId => exact h.allow clientId last
  | arm v => exact h.arm v last
  | listen =>
    obtain rfl := Option.some.inj last
    refine { h with
      listens := fun registered => ?_
      drawn := fun lt => Nat.lt_succ_of_lt (h.drawn lt)
      due := h.due
      made := h.made
      alive := fun loop mem reads => ?_ }
    · refine h.listens ((List.mem_append.1 registered).resolve_right fun mem => ?_)
      cases List.mem_singleton.1 mem
    · refine h.alive loop mem (reads_of_subset (fun _ registered => ?_) reads)
      refine (List.mem_append.1 registered).resolve_right fun new => ?_
      cases List.mem_singleton.1 new
  | join client => exact h.join client last
  | leave sessionId => exact h.leave sessionId stays last
  | left client => exact h.gone client stays last
  | fire v => exact h.fire v last
  | callback => exact h.callback last
  | listenerReturns =>
    rw [Reconnection.step] at last
    split at last
    case h_2 => cases last
    case h_1 loop running =>
    obtain rfl := Option.some.inj last
    have mem : loop ∈ s.loops := by
      rw [State.loops, running]
      exact List.mem_cons_self
    have paused : Sound { s with running := none } :=
      h.fewer rfl fun l mem => List.mem_append_right _ mem
    have minded := h.minded mem
    exact paused.callJoinListeners rfl
      ⟨minded.left, minded.vouched, minded.begun, minded.alive⟩
  | listenerThrows =>
    rw [Reconnection.step] at last
    split at last
    case h_2 => cases last
    case h_1 loop running =>
    obtain rfl := Option.some.inj last
    exact h.fewer rfl fun l mem => List.mem_append_right _ mem
  | listenerWaits =>
    rw [Reconnection.step] at last
    split at last
    case h_2 => cases last
    case h_1 loop running =>
    obtain rfl := Option.some.inj last
    refine h.fewer rfl fun l mem => ?_
    rw [State.loops, running]
    exact List.mem_append.2 (List.mem_append.1 (show l ∈ s.parked ++ [loop] from mem)).symm
  | listenerResumes index =>
    rw [Reconnection.step] at last
    split at last
    case h_2 => cases last
    case h_1 loop running found =>
    obtain rfl := Option.some.inj last
    refine h.fewer rfl fun l mem => List.mem_append_right _ ?_
    rcases List.mem_append.1 mem with mem | mem
    · obtain rfl := List.mem_singleton.1 mem
      exact List.mem_of_getElem? found
    · exact List.mem_of_mem_eraseIdx mem

/-- As long as no leave takes a client away before the loop over the join listeners that was begun
for it has come to those that wait for it, and none destroys it before the loop has come to those that
read it, every wait is resolved once, truthfully, and until then its timer is due. -/
theorem resolves_once {labels : List Label} {s : State}
    (run : Run step Stays State.initial labels s) : Resolves s :=
  (run.invariant sound_initial fun h stays last => h.step stays last).resolves

/-- A listener of the application does not itself remove the client that it was called for. -/
def Polite (s : State) : Label → Prop
  | .leave sessionId => ∀ loop, s.running = some loop →
      s.clients.find? (fun c => (s.objects c).sessionId = sessionId) ≠ some loop.client
  | _ => True

instance (s : State) : (label : Label) → Decidable (Polite s label)
  | .leave sessionId => decidable_of_iff (∀ loop ∈ s.running,
      s.clients.find? (fun c => (s.objects c).sessionId = sessionId) ≠ some loop.client) Iff.rfl
  | .allow _ | .arm _ | .listen | .join _ | .left _ | .fire _ | .callback | .listenerReturns
  | .listenerThrows | .listenerWaits | .listenerResumes _ => inferInstanceAs (Decidable True)

def anna : SimpleClient := ⟨lit "anna", lit "s1", [], []⟩

def bert : SimpleClient := ⟨lit "bert", lit "s2", [], []⟩

/-- The room's own listener waits for somebody else; meanwhile the client that has just rejoined
leaves again, and `on_leave` waits as well. -/
def leavesMeanwhile : List Label :=
  [.join anna, .listen, .allow (lit "bert"), .arm 0, .join bert, .listenerWaits, .leave (lit "s2"),
    .listenerResumes 0, .listenerReturns]

theorem rejoined_absent : ¬ ∀ (labels : List Label) (s : State),
    Run step Polite State.initial labels s → Resolves s := by
  intro h
  obtain ⟨s, run, log⟩ := exists_run step (fun s label => decide (Polite s label)) State.initial
    leavesMeanwhile (fun s => decide (s.log = [⟨0, true, false, [anna]⟩]) &&
      decide ((s.waits 0).clientId = lit "bert")) (by decide +kernel)
  obtain ⟨log, waited⟩ := (Bool.and_eq_true ..).mp log
  have resolves := h leavesMeanwhile s (run.weaken fun h => of_decide_eq_true h)
  have truthful := resolves.truthful ⟨0, true, false, [anna]⟩ (by simp [of_decide_eq_true log])
  obtain ⟨c, mem, same⟩ := truthful.1 rfl
  obtain rfl := List.mem_singleton.1 mem
  rw [of_decide_eq_true waited] at same
  exact absurd same (by decide)

/-- The same, but `on_leave` returns: `remove_client` destroys the client that the loop goes on with. -/
def leavesForGood : List Label :=
  [.join anna, .listen, .allow (lit "bert"), .arm 0, .join bert, .listenerWaits, .leave (lit "s2"),
    .left 1, .listenerResumes 0, .listenerReturns]

theorem rejoined_dangling : ∃ s, Run step Polite State.initial leavesForGood s ∧ s.dangling = [1] := by
  obtain ⟨s, run, dangling⟩ := exists_run step (fun s label => decide (Polite s label)) State.initial
    leavesForGood (fun s => decide (s.dangling = [1])) (by decide +kernel)
  exact ⟨s, run.weaken fun h => of_decide_eq_true h, of_decide_eq_true dangling⟩

/-- One wait ends with a join, whose timer callback has been called already, one with its timer. A loop
that waits goes on with a client that is still there. -/
def rejoinsAndLeaves : List Label :=
  [.join anna, .listen, .allow (lit "bert"), .allow (lit "carl"), .arm 1, .arm 0, .fire 0,
    .join bert, .listenerWaits, .leave (lit "s1"), .left 0, .listenerResumes 0, .listenerReturns,
    .callback, .join anna, .listenerReturns, .leave (lit "s2"), .left 1, .fire 1, .callback]

theorem resolves_once_rejoinsAndLeaves : ∃ s,
    Run step Stays State.initial rejoinsAndLeaves s ∧ Resolves s ∧
      s.log = [⟨0, true, false, [bert]⟩, ⟨1, false, true, [anna]⟩] := by
  obtain ⟨s, run, log⟩ := exists_run step (fun s label => decide (Stays s label)) State.initial
    rejoinsAndLeaves (fun s => decide (s.log = [⟨0, true, false, [bert]⟩,
      ⟨1, false, true, [anna]⟩])) (by decide +kernel)
  have stays := run.weaken fun h => of_decide_eq_true h
  exact ⟨s, stays, resolves_once stays, of_decide_eq_true log⟩

end Blueboat.Reconnection
