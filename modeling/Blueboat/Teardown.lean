import Blueboat.Room
import Mathlib.Data.List.Basic

set_option autoImplicit false

/-! `Room::dispose` and `Room::remove_client`, which call each other and are called again by the
hooks that they call. -/
namespace Blueboat.Teardown

/-- What the two functions do that is seen from outside. -/
inductive Event where
  | removedFromRoom (client : SimpleClient)
  | callLeaveListeners (client : SimpleClient) (intentional : Bool)
  | onLeave (client : SimpleClient) (intentional : Bool)
  | beforeDispose
  | clearAutoDisposeTimer
  | removeRoom
  | unsubscribeGameMessage
  | unsubscribePlayerLeft
  | onDispose
  | onRoomDisposed
  deriving DecidableEq

structure State where
  room : Room
  log : List Event

def State.note (s : State) (events : List Event) : State := { s with log := s.log ++ events }

/-- What a hook does until it returns. After each call that it makes it sees the room and all that
has happened so far. -/
inductive Body where
  | ret
  | dispose (next : State → Body)
  | removeFromRoom (sessionId : Str) (next : State → Body)

structure Hooks where
  onLeave : State → SimpleClient → Bool → Body
  beforeDispose : State → Body
  onDispose : State → Body

inductive Call where
  | dispose
  | removeClient (sessionId : Str) (intentional : Bool)
  deriving DecidableEq

section
variable (self : Call → State → Option State)

def Body.run : Body → State → Option State
  | .ret, s => some s
  | .dispose next, s => (self .dispose s).bind fun s' => (next s').run s'
  | .removeFromRoom sessionId next, s =>
    (self (.removeClient sessionId true) s).bind fun s' => (next s').run s'

def removeClient (hooks : Hooks) (sessionId : Str) (intentional : Bool) (s : State) :
    Option State :=
  match s.room.member sessionId with
  | none => some s
  | some client =>
    let s : State := { s with room := s.room.eraseMember sessionId }
    let s := s.note [.removedFromRoom client, .callLeaveListeners client intentional,
      .onLeave client intentional]
    ((hooks.onLeave s client intentional).run self s).bind fun s =>
      if s.room.clients = [] then self .dispose s else some s

def removeEach : List Str → State → Option State
  | [], s => some s
  | sessionId :: left, s => (self (.removeClient sessionId true) s).bind (removeEach left)

/-- What `dispose` gives up between `before_dispose` and `on_dispose`. -/
def release (s : State) : State :=
  let s := s.note [.clearAutoDisposeTimer, .removeRoom, .unsubscribeGameMessage,
    .unsubscribePlayerLeft]
  { s with
    room := { s.room with autoDisposeTimer := none, gameMessageSub := none, playerLeftSub := none } }

def dispose (hooks : Hooks) (s : State) : Option State :=
  if s.room.disposing then some s
  else
    let snapshot := s.room.clients.map SimpleClient.sessionId
    let s : State := { s with room := { s.room with disposing := true } }
    (removeEach self snapshot s).bind fun s =>
      let s := s.note [.beforeDispose]
      ((hooks.beforeDispose s).run self s).bind fun s =>
        let s := (release s).note [.onDispose]
        ((hooks.onDispose s).run self s).bind fun s => some (s.note [.onRoomDisposed])

end

/-- The calls of the two functions; `none` where they nest deeper than `depth`. -/
def perform (hooks : Hooks) : ℕ → Call → State → Option State
  | 0, _, _ => none
  | depth + 1, .dispose, s => dispose (perform hooks depth) hooks s
  | depth + 1, .removeClient sessionId intentional, s =>
    removeClient (perform hooks depth) hooks sessionId intentional s

def performAll (hooks : Hooks) (depth : ℕ) : List Call → State → Option State
  | [], s => some s
  | call :: later, s => (perform hooks depth call s).bind (performAll hooks depth later)

/-! ## What a call comes to -/

def leaves (entry : SimpleClient × Bool) : List Event :=
  [.removedFromRoom entry.1, .callLeaveListeners entry.1 entry.2, .onLeave entry.1 entry.2]

def ending : List Event :=
  [.beforeDispose, .clearAutoDisposeTimer, .removeRoom, .unsubscribeGameMessage,
    .unsubscribePlayerLeft, .onDispose, .onRoomDisposed]

structure Outcome (s : State) (gone : List (SimpleClient × Bool)) (ended : Bool) (s' : State) :
    Prop where
  clients : (gone.map Prod.fst ++ s'.room.clients).Perm s.room.clients
  log : s'.log = s.log ++ gone.flatMap leaves ++ if ended then ending else []
  disposing : s'.room.disposing = (s.room.disposing || ended)
  first : ended = true → s.room.disposing = false ∧ s'.room.clients = []

theorem Outcome.refl (s : State) : Outcome s [] false s where
  clients := .refl _
  log := by simp
  disposing := by simp
  first := nofun

theorem Outcome.not_ended {s s' : State} {gone : List (SimpleClient × Bool)} {ended : Bool}
    (outcome : Outcome s gone ended s') (disposing : s.room.disposing = true) : ended = false := by
  cases ended with
  | false => rfl
  | true =>
    have before := (outcome.first rfl).1
    rw [disposing] at before
    exact nomatch before

/-- Nobody is left to go where nobody is there. -/
theorem Outcome.nobody {s s' : State} {gone : List (SimpleClient × Bool)} {ended : Bool}
    (outcome : Outcome s gone ended s') (empty : s.room.clients = []) :
    gone = [] ∧ s'.room.clients = [] := by
  have left := outcome.clients
  rw [empty, List.perm_nil, List.append_eq_nil_iff, List.map_eq_nil_iff] at left
  exact left

theorem Outcome.trans {s s' s'' : State} {gone gone' : List (SimpleClient × Bool)}
    {ended ended' : Bool} (first : Outcome s gone ended s') (second : Outcome s' gone' ended' s'') :
    Outcome s (gone ++ gone') (ended || ended') s'' := by
  cases ended with
  | true =>
    obtain ⟨before, empty⟩ := first.first rfl
    have disposing : s'.room.disposing = true := by rw [first.disposing, Bool.or_true]
    obtain rfl := second.not_ended disposing
    obtain ⟨rfl, empty'⟩ := second.nobody empty
    refine ⟨?_, ?_, ?_, fun _ => ⟨before, empty'⟩⟩
    · have left := first.clients
      rw [empty] at left
      rw [empty', List.append_nil gone]
      exact left
    · rw [second.log, first.log]
      simp
    · rw [second.disposing, first.disposing]
      simp
  | false =>
    refine ⟨?_, ?_, ?_, fun ended => ?_⟩
    · rw [List.map_append, List.append_assoc]
      exact (second.clients.append_left _).trans first.clients
    · rw [second.log, first.log]
      simp
    · rw [second.disposing, first.disposing]
      simp
    · obtain ⟨before, empty⟩ := second.first (by simpa using ended)
      refine ⟨?_, empty⟩
      rw [first.disposing] at before
      simpa using before

/-- How deep the calls may still nest: each entry can leave once, and the room can end once. -/
def State.budget (s : State) : ℕ := s.room.clients.length + if s.room.disposing then 0 else 1

theorem Outcome.budget_le {s s' : State} {gone : List (SimpleClient × Bool)} {ended : Bool}
    (outcome : Outcome s gone ended s') : s'.budget ≤ s.budget := by
  have length := outcome.clients.length_eq
  rw [List.length_append] at length
  have flag : (if s'.room.disposing then 0 else 1) ≤ if s.room.disposing then 0 else 1 := by
    rw [outcome.disposing]
    cases s.room.disposing <;> cases ended <;> decide
  rw [State.budget, State.budget]
  omega

/-! ## One call -/

theorem member_erased {room : Room} {sessionId : Str} {client : SimpleClient}
    (found : room.member sessionId = some client) : client.sessionId = sessionId ∧
      (client :: (room.eraseMember sessionId).clients).Perm room.clients := by
  obtain ⟨isThat, before, after, split, others⟩ := List.find?_eq_some_iff_append.1 found
  have erased : (room.eraseMember sessionId).clients = before ++ after := by
    change room.clients.eraseP _ = _
    rw [split, List.eraseP_append_right _ (by simpa using others)]
    exact congrArg (before ++ ·) (List.eraseP_cons_of_pos isThat)
  refine ⟨by simpa using isThat, ?_⟩
  rw [erased, split]
  exact List.perm_middle.symm

theorem sessionIds_erased (room : Room) (sessionId : Str) :
    (room.eraseMember sessionId).clients.map SimpleClient.sessionId =
      (room.clients.map SimpleClient.sessionId).erase sessionId := by
  have same : (fun c : SimpleClient => decide (c.sessionId = sessionId)) =
      (fun id => id == sessionId) ∘ SimpleClient.sessionId := by
    funext c
    exact (Bool.beq_eq_decide_eq c.sessionId sessionId).symm
  rw [List.erase_eq_eraseP', List.eraseP_map, ← same]
  rfl

theorem sessionIds_absent {room : Room} {sessionId : Str} (absent : room.member sessionId = none) :
    (room.clients.map SimpleClient.sessionId).erase sessionId =
      room.clients.map SimpleClient.sessionId := by
  refine List.erase_of_not_mem fun mem => ?_
  obtain ⟨client, mem, same⟩ := List.mem_map.1 mem
  exact absurd (decide_eq_true same) (List.find?_eq_none.1 absent client mem)

theorem Outcome.sessionIds {s s' : State} {gone : List (SimpleClient × Bool)} {ended : Bool}
    (outcome : Outcome s gone ended s') : (s'.room.clients.map SimpleClient.sessionId).Subperm
      (s.room.clients.map SimpleClient.sessionId) := by
  have left := outcome.clients.map SimpleClient.sessionId
  rw [List.map_append] at left
  exact (List.sublist_append_right _ _).subperm.trans left.subperm

/-- A call to `dispose` leaves the room disposed, and one to `remove_client` takes one entry with
that session out; where it takes the last one, it disposes the room. -/
def Answered : Call → State → State → Prop
  | .dispose, _, s' => s'.room.disposing = true
  | .removeClient sessionId _, s, s' =>
    (s'.room.clients.map SimpleClient.sessionId).Subperm
      ((s.room.clients.map SimpleClient.sessionId).erase sessionId) ∧
    (s.room.clients ≠ [] → s'.room.clients = [] → s'.room.disposing = true)

/-- The calls that a hook makes on a room with less than `budget` left return. -/
def Serves (self : Call → State → Option State) (budget : ℕ) : Prop :=
  ∀ call s, s.budget < budget → ∃ s' gone ended,
    self call s = some s' ∧ Outcome s gone ended s' ∧ Answered call s s'

section
variable {self : Call → State → Option State} {budget : ℕ} (serves : Serves self budget)
include serves

theorem Serves.bind {call : Call} {s : State} {next : State → Option State}
    (h : s.budget < budget)
    (ih : ∀ s' : State, s'.budget < budget → ∃ t gone ended,
      next s' = some t ∧ Outcome s' gone ended t) :
    ∃ t gone ended, (self call s).bind next = some t ∧ Outcome s gone ended t := by
  obtain ⟨s', gone, ended, called, outcome, -⟩ := serves call s h
  obtain ⟨t, gone', ended', ran, outcome'⟩ := ih s' (Nat.lt_of_le_of_lt outcome.budget_le h)
  refine ⟨t, gone ++ gone', ended || ended', ?_, outcome.trans outcome'⟩
  rw [called]
  exact ran

theorem Body.run_outcome (body : Body) (s : State) (h : s.budget < budget) :
    ∃ s' gone ended, body.run self s = some s' ∧ Outcome s gone ended s' := by
  induction body generalizing s with
  | ret => exact ⟨s, [], false, rfl, .refl s⟩
  | dispose next ih => exact serves.bind h fun s' h' => ih s' s' h'
  | removeFromRoom sessionId next ih => exact serves.bind h fun s' h' => ih s' s' h'

/-- The loop ends with nobody left, whatever the hooks do to the rest of the snapshot. -/
theorem removeEach_outcome (snapshot : List Str) (s : State) (h : s.budget < budget)
    (disposing : s.room.disposing = true)
    (covers : (s.room.clients.map SimpleClient.sessionId).Subperm snapshot) :
    ∃ s' gone, removeEach self snapshot s = some s' ∧ Outcome s gone false s' ∧
      s'.room.clients = [] := by
  induction snapshot generalizing s with
  | nil =>
    rw [List.subperm_nil, List.map_eq_nil_iff] at covers
    exact ⟨s, [], rfl, .refl s, covers⟩
  | cons sessionId left ih =>
    obtain ⟨s₁, gone, ended, called, outcome, fewer, -⟩ :=
      serves (.removeClient sessionId true) s h
    obtain rfl := outcome.not_ended disposing
    have covered : (s₁.room.clients.map SimpleClient.sessionId).Subperm left := by
      have erased := covers.erase sessionId
      rw [List.erase_cons_head] at erased
      exact fewer.trans erased
    obtain ⟨s', gone', looped, outcome', empty⟩ :=
      ih s₁ (Nat.lt_of_le_of_lt outcome.budget_le h) (by rw [outcome.disposing, disposing]; rfl)
        covered
    refine ⟨s', gone ++ gone', ?_, outcome.trans outcome', empty⟩
    rw [removeEach, called]
    exact looped

theorem removeClient_serves (hooks : Hooks) (sessionId : Str) (intentional : Bool) (s : State)
    (h : s.budget < budget + 1) : ∃ s' gone ended,
      removeClient self hooks sessionId intentional s = some s' ∧ Outcome s gone ended s' ∧
        Answered (.removeClient sessionId intentional) s s' := by
  rw [removeClient]
  cases found : s.room.member sessionId with
  | none =>
    refine ⟨s, [], false, rfl, .refl s, ?_, fun some none => absurd none some⟩
    rw [sessionIds_absent found]
  | some client =>
    dsimp only
    generalize erased : State.note _ _ = s₁
    have first : Outcome s [(client, intentional)] false s₁ := by
      subst erased
      exact ⟨(member_erased found).2, by simp [State.note, leaves], by
        rw [Bool.or_false]; rfl, nofun⟩
    have fewer : s₁.room.clients.map SimpleClient.sessionId =
        (s.room.clients.map SimpleClient.sessionId).erase sessionId := by
      subst erased
      exact sessionIds_erased s.room sessionId
    have less : s₁.budget < budget := by
      have length := first.clients.length_eq
      have flag := first.disposing
      rw [List.length_append, List.length_map, List.length_singleton] at length
      rw [Bool.or_false] at flag
      rw [State.budget] at h ⊢
      rw [flag]
      omega
    obtain ⟨s₂, gone, ended, ran, outcome⟩ := (hooks.onLeave s₁ client intentional).run_outcome
      serves s₁ less
    rw [ran, Option.bind_some]
    split
    case isTrue empty =>
      obtain ⟨s₃, gone', ended', called, outcome', disposed⟩ :=
        serves .dispose s₂ (Nat.lt_of_le_of_lt outcome.budget_le less)
      refine ⟨s₃, _, _, called, (first.trans outcome).trans outcome', ?_, fun _ _ => disposed⟩
      rw [← fewer]
      exact outcome'.sessionIds.trans outcome.sessionIds
    case isFalse members =>
      refine ⟨s₂, _, _, rfl, first.trans outcome, ?_, fun _ empty => absurd empty members⟩
      rw [← fewer]
      exact outcome.sessionIds

/-- A hook that is called when the room is about to end finds nobody and nothing to do. -/
theorem Body.run_ended (body : Body) (s : State) (h : s.budget < budget)
    (disposing : s.room.disposing = true) (empty : s.room.clients = []) :
    ∃ s', body.run self s = some s' ∧ Outcome s [] false s' ∧ s'.room.clients = [] := by
  obtain ⟨s', gone, ended, ran, outcome⟩ := body.run_outcome serves s h
  obtain rfl := outcome.not_ended disposing
  obtain ⟨rfl, empty'⟩ := outcome.nobody empty
  exact ⟨s', ran, outcome, empty'⟩

theorem dispose_serves (hooks : Hooks) (s : State) (h : s.budget < budget + 1) :
    ∃ s' gone ended, dispose self hooks s = some s' ∧ Outcome s gone ended s' ∧
      Answered .dispose s s' := by
  rw [dispose]
  split
  case isTrue disposing => exact ⟨s, [], false, rfl, .refl s, disposing⟩
  case isFalse fresh =>
    dsimp only
    generalize begun : State.mk _ _ = s₀
    have disposing : s₀.room.disposing = true := by rw [← begun]
    have clients : s₀.room.clients = s.room.clients := by rw [← begun]
    have log : s₀.log = s.log := by rw [← begun]
    have less : s₀.budget < budget := by
      rw [State.budget, if_neg fresh] at h
      rw [State.budget, if_pos disposing, clients]
      exact Nat.lt_of_succ_lt_succ h
    obtain ⟨s₁, gone, looped, outcome, empty⟩ := removeEach_outcome serves
      (s.room.clients.map SimpleClient.sessionId) s₀ less disposing (by rw [clients])
    have disposing₁ : s₁.room.disposing = true := by rw [outcome.disposing, disposing]; rfl
    have less₁ : s₁.budget < budget := Nat.lt_of_le_of_lt outcome.budget_le less
    obtain ⟨s₂, ran, outcome₂, empty₂⟩ :=
      (hooks.beforeDispose (s₁.note [.beforeDispose])).run_ended serves
        (s₁.note [.beforeDispose]) less₁ disposing₁ empty
    have disposing₂ : s₂.room.disposing = true := by
      rw [outcome₂.disposing, Bool.or_false]
      exact disposing₁
    have less₂ : s₂.budget < budget := Nat.lt_of_le_of_lt outcome₂.budget_le less₁
    obtain ⟨s₃, ran', outcome₃, empty₃⟩ :=
      (hooks.onDispose ((release s₂).note [.onDispose])).run_ended serves
        ((release s₂).note [.onDispose]) less₂ disposing₂ empty₂
    have disposing₃ : s₃.room.disposing = true := by
      rw [outcome₃.disposing, Bool.or_false]
      exact disposing₂
    refine ⟨s₃.note [.onRoomDisposed], gone, true, ?_, ⟨?_, ?_, ?_, ?_⟩, disposing₃⟩
    · rw [looped, Option.bind_some, ran, Option.bind_some, ran']
      rfl
    · have left := outcome.clients
      rw [empty, clients] at left
      change (gone.map Prod.fst ++ s₃.room.clients).Perm _
      rw [empty₃]
      exact left
    · have log₁ := outcome.log
      have log₂ := outcome₂.log
      have log₃ := outcome₃.log
      simp only [State.note, release, log, ending] at *
      rw [log₃, log₂, log₁]
      simp
    · exact disposing₃.trans (Bool.or_true _).symm
    · exact fun _ => ⟨Bool.eq_false_of_not_eq_true fresh, empty₃⟩

end

theorem perform_serves (hooks : Hooks) (depth : ℕ) : Serves (perform hooks depth) depth := by
  induction depth with
  | zero => exact fun call s h => absurd h (Nat.not_lt_zero _)
  | succ depth ih =>
    intro call s h
    cases call with
    | dispose => exact dispose_serves ih hooks s h
    | removeClient sessionId intentional =>
      exact removeClient_serves ih hooks sessionId intentional s h

/-! ## The disposal of a room -/

/-- Nothing more happens in a room that has been disposed. -/
theorem performAll_ended (hooks : Hooks) (depth : ℕ) (later : List Call) {s : State}
    (disposing : s.room.disposing = true) (empty : s.room.clients = []) :
    performAll hooks (depth + 1) later s = some s := by
  induction later with
  | nil => rfl
  | cons call later ih =>
    have unchanged : perform hooks (depth + 1) call s = some s := by
      cases call with
      | dispose => rw [perform, dispose, if_pos disposing]
      | removeClient sessionId intentional =>
        rw [perform, removeClient, Room.member, empty]
        rfl
    rw [performAll, unchanged]
    exact ih

def Call.Disposes (room : Room) : Call → Prop
  | .dispose => True
  | .removeClient sessionId _ => ∃ client, room.clients = [client] ∧ client.sessionId = sessionId

/-- Whatever the hooks do meanwhile, and whatever is called later: the calls return, everybody has
left once, and then the room has ended once. -/
theorem disposes_once (hooks : Hooks) {s : State} {call : Call} (later : List Call) {depth : ℕ}
    (fresh : s.room.disposing = false) (disposes : call.Disposes s.room)
    (deep : s.room.clients.length + 2 ≤ depth) :
    ∃ s', ∃ gone : List (SimpleClient × Bool),
      performAll hooks depth (call :: later) s = some s' ∧ s'.room.clients = [] ∧
      (gone.map Prod.fst).Perm s.room.clients ∧
      s'.log = s.log ++ gone.flatMap leaves ++ ending := by
  have less : s.budget < depth := by
    rw [State.budget, fresh]
    exact deep
  obtain ⟨s', gone, ended, called, outcome, answered⟩ := perform_serves hooks depth call s less
  have disposed : s'.room.disposing = true := by
    cases call with
    | dispose => exact answered
    | removeClient sessionId intentional =>
      obtain ⟨client, alone, rfl⟩ := disposes
      refine answered.2 (by rw [alone]; exact List.cons_ne_nil _ _) ?_
      have fewer := answered.1
      rw [alone, List.map_singleton, List.erase_cons_head, List.subperm_nil] at fewer
      exact List.map_eq_nil_iff.1 fewer
  obtain rfl : ended = true := by
    rw [outcome.disposing, fresh] at disposed
    exact disposed
  have empty := (outcome.first rfl).2
  refine ⟨s', gone, ?_, empty, ?_, outcome.log⟩
  · obtain ⟨depth, rfl⟩ := Nat.exists_eq_add_of_lt (Nat.lt_of_lt_of_le (Nat.succ_pos _) deep)
    rw [performAll, called, Option.bind_some]
    exact performAll_ended hooks _ later disposed empty
  · have left := outcome.clients
    rw [empty, List.append_nil] at left
    exact left

def insistent : Hooks where
  onLeave := fun _ client _ => .dispose fun _ => .removeFromRoom client.sessionId fun s =>
    match s.room.clients with
    | [] => .ret
    | other :: _ => .removeFromRoom other.sessionId fun _ => .dispose fun _ => .ret
  beforeDispose := fun _ => .dispose fun _ => .removeFromRoom (lit "a") fun _ => .ret
  onDispose := fun _ => .removeFromRoom (lit "a") fun _ => .dispose fun _ => .ret

def threeEntries : State where
  room :=
    { Room.fresh with
      clients := [⟨lit "x", lit "a", [], []⟩, ⟨lit "y", lit "b", [], []⟩,
        ⟨lit "z", lit "a", [], []⟩] }
  log := []

theorem disposes_once_insistent : ∃ s', ∃ gone : List (SimpleClient × Bool),
    performAll insistent 5 [.dispose, .removeClient (lit "b") false] threeEntries = some s' ∧
      s'.room.clients = [] ∧ (gone.map Prod.fst).Perm threeEntries.room.clients ∧
      s'.log = [] ++ gone.flatMap leaves ++ ending :=
  disposes_once insistent [.removeClient (lit "b") false] rfl trivial (Nat.le_refl 5)

example : (perform insistent 5 (.removeClient (lit "b") false) threeEntries).map State.log =
    some (leaves (⟨lit "y", lit "b", [], []⟩, false) ++ leaves (⟨lit "x", lit "a", [], []⟩, true) ++
      leaves (⟨lit "z", lit "a", [], []⟩, true) ++ ending) := by decide

end Blueboat.Teardown
