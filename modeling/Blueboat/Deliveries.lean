import Mathlib.Data.Fintype.Basic
import Mathlib.Logic.Function.Basic
import Blueboat.MemoryPubSub
import Blueboat.Library.Machine

set_option autoImplicit false

/-! `MemoryPubSub` under handlers that use it while they are called. The threads take turns under
the game lock; a handler that gives the lock up leaves its delivery half done. -/
namespace Blueboat.Deliveries

open Machine

inductive Event where
  | invoked (id : ℕ)
  | unsubscribed (id : ℕ)
  deriving DecidableEq

/-- `subscriptions` are the keys and ids that the closures of the `PubSubSubscription`s capture. A
thread has one list of listeners that are still to be called for each delivery it is in. -/
structure State (T H : Type) where
  pubsub : PubSub H
  nextId : ℕ
  subscriptions : List (Str × ℕ)
  deliveries : T → List (List (Listener H))
  log : List Event

def State.initial {T H : Type} : State T H where
  pubsub := PubSub.empty
  nextId := 0
  subscriptions := []
  deliveries := fun _ => []
  log := []

/-- A thread calls the bus, or the innermost delivery it is in goes on: to the next listener of its
copy, to its end, or away with an exception of the handler. -/
inductive Op (H : Type) where
  | on (key : Str) (handler : H)
  | unsubscribe (key : Str) (id : ℕ)
  | publish (key : Str)
  | next
  | finish
  | abandon

section
variable {T H : Type} [DecidableEq T]

def step (s : State T H) : T × Op H → Option (State T H)
  | (_, .on key handler) => some { s with
      pubsub := s.pubsub.on key s.nextId handler
      nextId := s.nextId + 1
      subscriptions := (key, s.nextId) :: s.subscriptions }
  | (_, .unsubscribe key id) =>
    if (key, id) ∈ s.subscriptions then some { s with
      pubsub := s.pubsub.unsubscribe key id
      log := s.log ++ [.unsubscribed id] }
    else none
  | (t, .publish key) => some { s with
      deliveries :=
        Function.update s.deliveries t (s.pubsub.listenersOf key :: s.deliveries t) }
  | (t, .next) =>
    match s.deliveries t with
    | (listener :: left) :: outer => some { s with
        deliveries := Function.update s.deliveries t (left :: outer)
        log := s.log ++ [.invoked listener.id] }
    | _ => none
  | (t, .finish) =>
    match s.deliveries t with
    | [] :: outer => some { s with deliveries := Function.update s.deliveries t outer }
    | _ => none
  | (t, .abandon) =>
    match s.deliveries t with
    | _ :: outer => some { s with deliveries := Function.update s.deliveries t outer }
    | _ => none

/-- No handler is invoked after `unsubscribe` for it has returned. -/
def Quiet (log : List Event) : Prop :=
  log.Pairwise fun before after => ∀ id, before = .unsubscribed id → after ≠ .invoked id

def State.Pending (s : State T H) (id : ℕ) : Prop :=
  ∃ t, ∃ listeners ∈ s.deliveries t, ∃ l ∈ listeners, l.id = id

def Drained (s : State T H) : T × Op H → Prop
  | (_, .unsubscribe _ id) => ¬ s.Pending id
  | _ => True

instance [Fintype T] (s : State T H) (id : ℕ) : Decidable (s.Pending id) :=
  inferInstanceAs (Decidable (∃ t, ∃ listeners ∈ s.deliveries t, ∃ l ∈ listeners, l.id = id))

instance [Fintype T] (s : State T H) : (a : T × Op H) → Decidable (Drained s a)
  | (_, .unsubscribe _ id) => inferInstanceAs (Decidable (¬ s.Pending id))
  | (_, .on ..) | (_, .publish _) | (_, .next) | (_, .finish) | (_, .abandon) => .isTrue trivial

structure Registered (s : State T H) : Prop where
  recorded : ∀ key, ∀ l ∈ s.pubsub.listenersOf key, (key, l.id) ∈ s.subscriptions
  one_key : ∀ p ∈ s.subscriptions, ∀ q ∈ s.subscriptions, p.2 = q.2 → p.1 = q.1
  drawn : ∀ p ∈ s.subscriptions, p.2 < s.nextId
  pending_drawn : ∀ id, s.Pending id → id < s.nextId

structure Gone (s : State T H) : Prop where
  registered : Registered s
  unsubscribed : ∀ id, .unsubscribed id ∈ s.log →
    id < s.nextId ∧ ¬ s.Pending id ∧ ∀ key, ∀ l ∈ s.pubsub.listenersOf key, l.id ≠ id
  quiet : Quiet s.log

/-- What a step does to a delivery in progress. -/
structure Proceeds (s s' : State T H) : Prop where
  pubsub : s'.pubsub = s.pubsub
  nextId : s'.nextId = s.nextId
  subscriptions : s'.subscriptions = s.subscriptions
  pending : ∀ id, s'.Pending id → s.Pending id
  log : s'.log = s.log ∨ ∃ id, s.Pending id ∧ s'.log = s.log ++ [.invoked id]

theorem pending_update {s : State T H} {t : T} {frames : List (List (Listener H))} {id : ℕ}
    (h : ∃ t', ∃ listeners ∈ Function.update s.deliveries t frames t', ∃ l ∈ listeners, l.id = id) :
    s.Pending id ∨ ∃ listeners ∈ frames, ∃ l ∈ listeners, l.id = id := by
  obtain ⟨t', listeners, mem, named⟩ := h
  by_cases same : t' = t
  · subst same
    rw [Function.update_self] at mem
    exact .inr ⟨listeners, mem, named⟩
  · rw [Function.update_of_ne same] at mem
    exact .inl ⟨t', listeners, mem, named⟩

theorem step_unsubscribe {s s' : State T H} {t : T} {key : Str} {id : ℕ}
    (h : step s (t, .unsubscribe key id) = some s') : (key, id) ∈ s.subscriptions ∧
      s' = { s with
        pubsub := s.pubsub.unsubscribe key id
        log := s.log ++ [.unsubscribed id] } := by
  rw [step] at h
  split at h
  · rename_i issued
    exact ⟨issued, (Option.some.inj h).symm⟩
  · cases h

theorem step_next {s s' : State T H} {t : T} (h : step s (t, .next) = some s') :
    ∃ listener left outer, s.deliveries t = (listener :: left) :: outer ∧
      s' = { s with
        deliveries := Function.update s.deliveries t (left :: outer)
        log := s.log ++ [.invoked listener.id] } := by
  rw [step] at h
  split at h
  · rename_i listener left outer top
    exact ⟨listener, left, outer, top, (Option.some.inj h).symm⟩
  · cases h

theorem step_finish {s s' : State T H} {t : T} (h : step s (t, .finish) = some s') :
    ∃ outer, s.deliveries t = [] :: outer ∧
      s' = { s with deliveries := Function.update s.deliveries t outer } := by
  rw [step] at h
  split at h
  · rename_i outer top
    exact ⟨outer, top, (Option.some.inj h).symm⟩
  · cases h

theorem step_abandon {s s' : State T H} {t : T} (h : step s (t, .abandon) = some s') :
    ∃ left outer, s.deliveries t = left :: outer ∧
      s' = { s with deliveries := Function.update s.deliveries t outer } := by
  rw [step] at h
  split at h
  · rename_i left outer top
    exact ⟨left, outer, top, (Option.some.inj h).symm⟩
  · cases h

/-- A delivery that ends calls no one any more. -/
theorem proceeds_pop {s : State T H} {t : T} {left : List (Listener H)}
    {outer : List (List (Listener H))} (top : s.deliveries t = left :: outer) :
    Proceeds s { s with deliveries := Function.update s.deliveries t outer } := by
  refine ⟨rfl, rfl, rfl, fun id pending => ?_, .inl rfl⟩
  rcases pending_update pending with pending | ⟨listeners, mem, named⟩
  · exact pending
  · exact ⟨t, listeners, top ▸ List.mem_cons_of_mem _ mem, named⟩

theorem step_cases {s s' : State T H} {t : T} {op : Op H} (h : step s (t, op) = some s') :
    (∃ key handler, op = .on key handler ∧ s' = { s with
      pubsub := s.pubsub.on key s.nextId handler
      nextId := s.nextId + 1
      subscriptions := (key, s.nextId) :: s.subscriptions }) ∨
    (∃ key id, op = .unsubscribe key id ∧ (key, id) ∈ s.subscriptions ∧ s' = { s with
      pubsub := s.pubsub.unsubscribe key id
      log := s.log ++ [.unsubscribed id] }) ∨
    (∃ key, op = .publish key ∧ s' = { s with
      deliveries :=
        Function.update s.deliveries t (s.pubsub.listenersOf key :: s.deliveries t) }) ∨
    Proceeds s s' := by
  cases op with
  | on key handler => exact .inl ⟨key, handler, rfl, (Option.some.inj h).symm⟩
  | unsubscribe key id =>
    obtain ⟨issued, same⟩ := step_unsubscribe h
    exact .inr (.inl ⟨key, id, rfl, issued, same⟩)
  | publish key => exact .inr (.inr (.inl ⟨key, rfl, (Option.some.inj h).symm⟩))
  | next =>
    obtain ⟨listener, left, outer, top, rfl⟩ := step_next h
    have here : listener :: left ∈ s.deliveries t := top ▸ List.mem_cons_self ..
    refine .inr (.inr (.inr ⟨rfl, rfl, rfl, fun id pending => ?_, .inr ⟨listener.id, ?_, rfl⟩⟩))
    · rcases pending_update pending with pending | ⟨listeners, mem, l, hl, named⟩
      · exact pending
      · rcases List.mem_cons.1 mem with rfl | mem
        · exact ⟨t, _, here, l, List.mem_cons_of_mem _ hl, named⟩
        · exact ⟨t, listeners, top ▸ List.mem_cons_of_mem _ mem, l, hl, named⟩
    · exact ⟨t, _, here, listener, List.mem_cons_self .., rfl⟩
  | finish =>
    obtain ⟨outer, top, rfl⟩ := step_finish h
    exact .inr (.inr (.inr (proceeds_pop top)))
  | abandon =>
    obtain ⟨left, outer, top, rfl⟩ := step_abandon h
    exact .inr (.inr (.inr (proceeds_pop top)))

theorem registered_step {s s' : State T H} {t : T} {op : Op H} (hs : Registered s)
    (h : step s (t, op) = some s') : Registered s' := by
  obtain ⟨key, handler, rfl, rfl⟩ | ⟨key, id, rfl, issued, rfl⟩ | ⟨key, rfl, rfl⟩ | goes :=
    step_cases h
  · have fresh : ∀ p ∈ s.subscriptions, p.2 ≠ s.nextId := fun p hp same =>
      absurd (hs.drawn p hp) (by omega)
    refine ⟨fun key' l hl => ?_, fun p hp q hq same => ?_, fun p hp => ?_, fun id pending => ?_⟩
    · rcases PubSub.mem_listenersOf_on.1 hl with hl | ⟨rfl, rfl⟩
      · exact List.mem_cons_of_mem _ (hs.recorded key' l hl)
      · exact List.mem_cons_self ..
    · rcases List.mem_cons.1 hp with rfl | hp <;> rcases List.mem_cons.1 hq with rfl | hq
      · rfl
      · exact absurd same.symm (fresh q hq)
      · exact absurd same (fresh p hp)
      · exact hs.one_key p hp q hq same
    · change p.2 < s.nextId + 1
      rcases List.mem_cons.1 hp with rfl | hp
      · exact Nat.lt_succ_self _
      · exact Nat.lt_succ_of_lt (hs.drawn p hp)
    · exact Nat.lt_succ_of_lt (hs.pending_drawn id pending)
  · refine ⟨fun key' l hl => ?_, hs.one_key, hs.drawn, hs.pending_drawn⟩
    exact hs.recorded key' l (PubSub.mem_listenersOf_unsubscribe.1 hl).1
  · refine ⟨hs.recorded, hs.one_key, hs.drawn, fun id pending => ?_⟩
    rcases pending_update pending with pending | ⟨listeners, mem, l, hl, rfl⟩
    · exact hs.pending_drawn id pending
    · rcases List.mem_cons.1 mem with rfl | mem
      · exact hs.drawn _ (hs.recorded key l hl)
      · exact hs.pending_drawn _ ⟨t, listeners, mem, l, hl, rfl⟩
  · refine ⟨?_, ?_, ?_, fun id pending => ?_⟩
    · rw [goes.pubsub, goes.subscriptions]
      exact hs.recorded
    · rw [goes.subscriptions]
      exact hs.one_key
    · rw [goes.subscriptions, goes.nextId]
      exact hs.drawn
    · rw [goes.nextId]
      exact hs.pending_drawn id (goes.pending id pending)

theorem quiet_concat {log : List Event} {e : Event} (h : Quiet log)
    (last : ∀ id, e = .invoked id → .unsubscribed id ∉ log) : Quiet (log ++ [e]) := by
  refine List.pairwise_append.2 ⟨h, List.pairwise_singleton _ _, ?_⟩
  rintro before mem after hafter id rfl rfl
  obtain rfl := List.mem_singleton.1 hafter
  exact last id rfl mem

theorem gone_step {s s' : State T H} {a : T × Op H} (hs : Gone s) (drained : Drained s a)
    (h : step s a = some s') : Gone s' := by
  obtain ⟨t, op⟩ := a
  have registered := registered_step hs.registered h
  obtain ⟨key, handler, rfl, rfl⟩ | ⟨key, id, rfl, issued, rfl⟩ | ⟨key, rfl, rfl⟩ | goes :=
    step_cases h
  · refine ⟨registered, fun id hid => ?_, hs.quiet⟩
    obtain ⟨drawn, calm, absent⟩ := hs.unsubscribed id hid
    refine ⟨Nat.lt_succ_of_lt drawn, calm, fun key' l hl => ?_⟩
    rcases PubSub.mem_listenersOf_on.1 hl with hl | ⟨-, rfl⟩
    · exact absent key' l hl
    · exact Nat.ne_of_gt drawn
  · refine ⟨registered, fun id' hid => ?_, quiet_concat hs.quiet fun _ same => nomatch same⟩
    rcases List.mem_append.1 hid with hid | hid
    · obtain ⟨drawn, calm, absent⟩ := hs.unsubscribed id' hid
      exact ⟨drawn, calm, fun key' l hl =>
        absent key' l (PubSub.mem_listenersOf_unsubscribe.1 hl).1⟩
    · obtain rfl : id' = id := by simpa using hid
      refine ⟨hs.registered.drawn _ issued, drained, fun key' l hl same => ?_⟩
      obtain ⟨hl, other⟩ := PubSub.mem_listenersOf_unsubscribe.1 hl
      have recorded := hs.registered.recorded key' l hl
      exact other (hs.registered.one_key _ recorded _ issued same) same
  · refine ⟨registered, fun id hid => ?_, hs.quiet⟩
    obtain ⟨drawn, calm, absent⟩ := hs.unsubscribed id hid
    refine ⟨drawn, fun pending => ?_, absent⟩
    rcases pending_update pending with pending | ⟨listeners, mem, l, hl, named⟩
    · exact calm pending
    · rcases List.mem_cons.1 mem with rfl | mem
      · exact absent key l hl named
      · exact calm ⟨t, listeners, mem, l, hl, named⟩
  · have old : ∀ id, .unsubscribed id ∈ s'.log → .unsubscribed id ∈ s.log := by
      intro id hid
      rcases goes.log with log | ⟨_, -, log⟩
      · exact log ▸ hid
      · rw [log] at hid
        simpa using hid
    refine ⟨registered, fun id hid => ?_, ?_⟩
    · obtain ⟨drawn, calm, absent⟩ := hs.unsubscribed id (old id hid)
      exact ⟨goes.nextId ▸ drawn, fun pending => calm (goes.pending id pending),
        goes.pubsub ▸ absent⟩
    · rcases goes.log with log | ⟨called, pending, log⟩
      · exact log ▸ hs.quiet
      · rw [log]
        refine quiet_concat hs.quiet fun id same hid => ?_
        obtain rfl := Event.invoked.inj same
        exact (hs.unsubscribed _ hid).2.1 pending

omit [DecidableEq T] in
theorem gone_initial : Gone (State.initial : State T H) := by
  refine ⟨⟨fun key l hl => ?_, fun _ h => (nomatch h), fun _ h => (nomatch h), ?_⟩,
    fun _ h => (nomatch h), .nil⟩
  · simp [State.initial] at hl
  · rintro id ⟨_, _, mem, -⟩
    cases mem

/-- The innermost delivery of a thread calls what it has left. -/
theorem exists_next {s : State T H} {t : T} {before left : List (Listener H)}
    {outer : List (List (Listener H))} (top : s.deliveries t = (before ++ left) :: outer) :
    ∃ ops s', Run step Drained s ops s' ∧ s'.deliveries t = left :: outer ∧
      s'.log = s.log ++ before.map fun l => .invoked l.id := by
  induction before generalizing s with
  | nil => exact ⟨[], s, .nil, top, by simp⟩
  | cons l before ih =>
    have one : step s (t, .next) = some { s with
        deliveries := Function.update s.deliveries t ((before ++ left) :: outer)
        log := s.log ++ [.invoked l.id] } := by
      simp only [step, top, List.cons_append]
    obtain ⟨ops, s', run, top', log⟩ := ih (s := { s with
        deliveries := Function.update s.deliveries t ((before ++ left) :: outer)
        log := s.log ++ [.invoked l.id] }) (Function.update_self t _ s.deliveries)
    refine ⟨_, s', (Run.one (by trivial) one).append run, top', ?_⟩
    rw [log, List.map_cons, List.append_assoc, List.singleton_append]

theorem exists_finish {s : State T H} {t : T} {outer : List (List (Listener H))}
    (top : s.deliveries t = [] :: outer) :
    ∃ s', Run step Drained s [(t, .finish)] s' ∧ s'.deliveries t = outer ∧ s'.log = s.log := by
  have one : step s (t, .finish) = some { s with
      deliveries := Function.update s.deliveries t outer } := by
    simp only [step, top]
  exact ⟨_, .one (by trivial) one, Function.update_self t _ s.deliveries, rfl⟩

/-- A listener that some delivery has still to call is called when the handlers return. -/
theorem invoked_of_pending {s : State T H} {id : ℕ} (pending : s.Pending id) :
    ∃ ops s' later, Run step Drained s ops s' ∧ s'.log = s.log ++ later ∧ .invoked id ∈ later := by
  obtain ⟨t, listeners, mem, l, hl, rfl⟩ := pending
  obtain ⟨before, after, rfl⟩ := List.append_of_mem hl
  generalize frames : s.deliveries t = stack at mem
  induction stack generalizing s with
  | nil => cases mem
  | cons top outer ih =>
    rcases List.mem_cons.1 mem with rfl | mem
    · rw [List.append_cons] at frames
      obtain ⟨ops, s', run, -, log⟩ := exists_next frames
      exact ⟨ops, s', _, run, log, List.mem_map_of_mem (by simp)⟩
    · have whole : s.deliveries t = (top ++ []) :: outer := by rw [List.append_nil, frames]
      obtain ⟨ops, s₁, run₁, frames₁, log₁⟩ := exists_next whole
      obtain ⟨s₂, run₂, frames₂, log₂⟩ := exists_finish frames₁
      obtain ⟨ops', s', later, run, log, called⟩ := ih frames₂ mem
      refine ⟨_, s', (top.map fun l => .invoked l.id) ++ later, (run₁.append run₂).append run, ?_,
        List.mem_append_right _ called⟩
      rw [log, log₂, log₁, List.append_assoc]

theorem late_of_pending {s s' : State T H} {t : T} {key : Str} {id : ℕ} (pending : s.Pending id)
    (h : step s (t, .unsubscribe key id) = some s') :
    ∃ ops s'', Run step Drained s' ops s'' ∧ ¬ Quiet s''.log := by
  obtain ⟨-, rfl⟩ := step_unsubscribe h
  have pending' : State.Pending { s with
      pubsub := s.pubsub.unsubscribe key id
      log := s.log ++ [.unsubscribed id] } id := pending
  obtain ⟨ops, s'', later, run, log, called⟩ := invoked_of_pending pending'
  refine ⟨ops, s'', run, fun quiet => ?_⟩
  rw [log] at quiet
  exact (List.pairwise_append.1 quiet).2.2 (.unsubscribed id) (by simp) _ called id rfl rfl

/-- As long as a listener is unsubscribed only when every delivery in progress is past it, no
handler is invoked after it has been unsubscribed; and any other call of `unsubscribe` can be
followed by such an invocation. -/
theorem no_late_delivery {ops : List (T × Op H)} {s : State T H}
    (run : Run step Drained State.initial ops s) :
    Quiet s.log ∧ ∀ a s', step s a = some s' →
      ((∀ ops s'', Run step Drained s' ops s'' → Quiet s''.log) ↔ Drained s a) := by
  have gone := run.invariant (P := Gone) gone_initial gone_step
  refine ⟨gone.quiet, fun a s' last => ⟨fun quiet => ?_, fun drained ops s'' later => ?_⟩⟩
  · obtain ⟨t, op⟩ := a
    cases op with
    | unsubscribe key id =>
      intro pending
      obtain ⟨ops, s'', later, late⟩ := late_of_pending pending last
      exact late (quiet ops s'' later)
    | _ => trivial
  · exact (later.invariant (P := Gone) (gone_step gone drained last) gone_step).quiet

end

/-- A handler unsubscribes the listener that the same delivery calls next. -/
def crossed : List (Unit × Op Unit) :=
  [((), .on [] ()), ((), .on [] ()), ((), .publish []), ((), .next), ((), .unsubscribe [] 1),
    ((), .next)]

theorem late_delivery :
    ¬ ∀ (ops : List (Unit × Op Unit)) (s : State Unit Unit),
      Run step (fun _ _ => True) State.initial ops s → Quiet s.log := by
  intro h
  obtain ⟨s, run, log⟩ := exists_run step (fun _ _ => true) State.initial crossed
    (fun s => s.log == [.invoked 0, .unsubscribed 1, .invoked 1]) (by decide +kernel)
  have quiet := h crossed s (run.weaken fun _ => trivial)
  rw [beq_iff_eq.1 log] at quiet
  simp [Quiet] at quiet

def ownHandler : List (Unit × Op Unit) :=
  [((), .on [] ()), ((), .on [] ()), ((), .publish []), ((), .next), ((), .unsubscribe [] 0),
    ((), .next), ((), .finish)]

theorem no_late_delivery_ownHandler :
    ∃ s : State Unit Unit, Run step Drained State.initial ownHandler s ∧ Quiet s.log := by
  obtain ⟨s, run, -⟩ := exists_run step (fun s a => decide (Drained s a)) State.initial
    ownHandler (fun _ => true) (by decide +kernel)
  have drained := run.weaken fun h => of_decide_eq_true h
  exact ⟨s, drained, (no_late_delivery drained).1⟩

end Blueboat.Deliveries
