import Mathlib.Data.List.Forall2
import Blueboat.Deliveries

set_option autoImplicit false

/-! What `MemoryPubSub` holds and delivers while handlers subscribe, unsubscribe and publish. -/
namespace Blueboat.Deliveries

open Machine

/-- One call of `publish`: the subscriptions of its key when it began, the copy that it goes through
and the part of it that has been called. -/
structure Publication (H : Type) where
  subscribed : List (Listener H)
  copy : List (Listener H)
  invoked : List (Listener H)
  finished : Bool

/-- A state of the bus with all that was ever subscribed, in order, the ids that were unsubscribed,
and the publications. `running` numbers the deliveries of each thread. -/
structure History (T H : Type) where
  state : State T H
  made : List (Str × Listener H)
  gone : List ℕ
  publications : ℕ → Publication H
  nextPublication : ℕ
  running : T → List ℕ

namespace History
variable {T H : Type}

def initial : History T H where
  state := State.initial
  made := []
  gone := []
  publications := fun _ => ⟨[], [], [], false⟩
  nextPublication := 0
  running := fun _ => []

/-- The subscriptions made on the key and not yet unsubscribed, in the order of their making. -/
def live (h : History T H) (key : Str) : List (Listener H) :=
  ((h.made.filter fun p => p.1 = key).map Prod.snd).filter fun l => l.id ∉ h.gone

variable [DecidableEq T]

def record (h : History T H) (s : State T H) : T × Op H → History T H
  | (_, .on key handler) => { h with
      state := s
      made := h.made ++ [(key, ⟨h.state.nextId, handler⟩)] }
  | (_, .unsubscribe _ id) => { h with state := s, gone := id :: h.gone }
  | (t, .publish key) => { h with
      state := s
      publications := Function.update h.publications h.nextPublication
        ⟨h.live key, h.state.pubsub.listenersOf key, [], false⟩
      nextPublication := h.nextPublication + 1
      running := Function.update h.running t (h.nextPublication :: h.running t) }
  | (t, .next) =>
    match h.running t, h.state.deliveries t with
    | n :: _, (listener :: _) :: _ =>
      let p := h.publications n
      { h with
        state := s
        publications :=
          Function.update h.publications n { p with invoked := p.invoked ++ [listener] } }
    | _, _ => { h with state := s }
  | (t, .finish) =>
    match h.running t with
    | n :: outer => { h with
        state := s
        publications :=
          Function.update h.publications n { h.publications n with finished := true }
        running := Function.update h.running t outer }
    | [] => { h with state := s }
  | (t, .abandon) => { h with
      state := s
      running := Function.update h.running t (h.running t).tail }

def step (h : History T H) (a : T × Op H) : Option (History T H) :=
  (Deliveries.step h.state a).map fun s => h.record s a

theorem state_record (h : History T H) (s : State T H) (a : T × Op H) : (h.record s a).state = s := by
  obtain ⟨t, op⟩ := a
  cases op with
  | next | finish =>
    rw [record]
    split <;> rfl
  | _ => rfl

/-- Every run of the bus has a history. -/
theorem exists_history {ops : List (T × Op H)} {s : State T H}
    (run : Run Deliveries.step (fun _ _ => True) State.initial ops s) :
    ∃ h : History T H, Run step (fun _ _ => True) initial ops h ∧ h.state = s := by
  induction run with
  | nil => exact ⟨initial, .nil, rfl⟩
  | snoc _ _ last ih =>
    obtain ⟨h, before, rfl⟩ := ih
    exact ⟨_, .snoc before trivial (by rw [step, last]; rfl), state_record ..⟩

end History

section
variable {T H : Type}

structure Registry (h : History T H) : Prop where
  holds : ∀ key, h.state.pubsub.listenersOf key = h.live key
  nonempty : ∀ key listeners, h.state.pubsub.listeners.lookup key = some listeners → listeners ≠ []
  issued : ∀ key id, (key, id) ∈ h.state.subscriptions → ∃ l, (key, l) ∈ h.made ∧ l.id = id
  drawn : ∀ p ∈ h.made, p.2.id < h.state.nextId
  ids : (h.made.map fun p => p.2.id).Nodup
  gone : ∀ id ∈ h.gone, id < h.state.nextId

theorem live_on [DecidableEq T] (h : History T H) (s : State T H) (t : T) (key : Str) (handler : H)
    (fresh : h.state.nextId ∉ h.gone) (key' : Str) :
    (h.record s (t, .on key handler)).live key' =
      h.live key' ++ if key' = key then [⟨h.state.nextId, handler⟩] else [] := by
  rw [History.live, History.live, History.record, List.filter_append, List.map_append,
    List.filter_append]
  congr 1
  by_cases same : key' = key
  · subst same
    simp [fresh]
  · simp [same, Ne.symm same]

theorem live_unsubscribe [DecidableEq T] (h : History T H) (s : State T H) (t : T) (key : Str)
    (id : ℕ) (key' : Str) : (h.record s (t, .unsubscribe key id)).live key' =
      (h.live key').filter fun l => l.id != id := by
  rw [History.live, History.live, History.record, List.filter_filter]
  refine List.filter_congr fun l _ => ?_
  by_cases same : l.id = id <;> simp [same]

theorem mem_live {h : History T H} {key : Str} {l : Listener H} :
    l ∈ h.live key ↔ (key, l) ∈ h.made ∧ l.id ∉ h.gone := by
  rw [History.live, List.mem_filter, List.mem_map]
  constructor
  · rintro ⟨⟨p, mem, rfl⟩, live⟩
    obtain ⟨made, keyed⟩ := List.mem_filter.1 mem
    obtain rfl : p.1 = key := of_decide_eq_true keyed
    exact ⟨made, of_decide_eq_true live⟩
  · rintro ⟨made, live⟩
    exact ⟨⟨(key, l), List.mem_filter.2 ⟨made, decide_eq_true rfl⟩, rfl⟩, decide_eq_true live⟩

/-- An id belongs to one key. -/
theorem Registry.one_key {h : History T H} (registry : Registry h) {p q : Str × Listener H}
    (hp : p ∈ h.made) (hq : q ∈ h.made) (same : p.2.id = q.2.id) : p = q :=
  List.inj_on_of_nodup_map registry.ids hp hq same

theorem registry_initial : Registry (History.initial : History T H) where
  holds key := PubSub.listenersOf_empty key
  nonempty _ _ h := (nomatch h)
  issued _ _ h := (nomatch h)
  drawn _ h := (nomatch h)
  ids := .nil
  gone _ h := (nomatch h)

theorem Registry.congr {h h' : History T H} (registry : Registry h)
    (pubsub : h'.state.pubsub = h.state.pubsub) (nextId : h'.state.nextId = h.state.nextId)
    (subscriptions : h'.state.subscriptions = h.state.subscriptions) (made : h'.made = h.made)
    (gone : h'.gone = h.gone) : Registry h' where
  holds key := by
    have live : h'.live key = h.live key := by rw [History.live, History.live, made, gone]
    rw [pubsub, live]
    exact registry.holds key
  nonempty := pubsub ▸ registry.nonempty
  issued := by
    rw [subscriptions, made]
    exact registry.issued
  drawn := by
    rw [made, nextId]
    exact registry.drawn
  ids := made ▸ registry.ids
  gone := by
    rw [gone, nextId]
    exact registry.gone

theorem lookup_on (ps : PubSub H) (key key' : Str) (id : ℕ) (handler : H)
    {listeners : List (Listener H)} (h : (ps.on key id handler).listeners.lookup key' = some listeners) :
    listeners ≠ [] ∨ ps.listeners.lookup key' = some listeners := by
  by_cases same : key' = key
  · subst same
    rw [PubSub.on, AList.lookup_insert] at h
    obtain rfl := Option.some.inj h
    exact .inl (by simp)
  · rw [PubSub.on, AList.lookup_insert_ne same] at h
    exact .inr h

theorem lookup_unsubscribe_ne (ps : PubSub H) {key key' : Str} (ne : key' ≠ key) (id : ℕ) :
    (ps.unsubscribe key id).listeners.lookup key' = ps.listeners.lookup key' := by
  unfold PubSub.unsubscribe
  split
  · rfl
  · split
    · exact AList.lookup_erase_ne ne
    · exact AList.lookup_insert_ne ne

theorem lookup_unsubscribe_self (ps : PubSub H) (key : Str) (id : ℕ) :
    (ps.unsubscribe key id).listeners.lookup key ≠ some [] ∨ ps.listeners.lookup key = some [] := by
  unfold PubSub.unsubscribe
  split
  · rename_i absent
    exact .inl (by rw [absent]; exact nofun)
  · split
    · exact .inl (by rw [AList.lookup_erase]; exact nofun)
    · rename_i left some
      exact .inl (by rw [AList.lookup_insert]; exact fun same => some (Option.some.inj same))

variable [DecidableEq T]

theorem registry_on {h : History T H} (registry : Registry h) (t : T) (key : Str) (handler : H)
    {h' : History T H} (last : History.step h (t, .on key handler) = some h') : Registry h' := by
  obtain ⟨s, stepped, rfl⟩ := Option.map_eq_some_iff.1 last
  obtain rfl := Option.some.inj stepped
  have fresh : h.state.nextId ∉ h.gone := fun mem =>
    absurd (registry.gone _ mem) (Nat.lt_irrefl _)
  refine ⟨fun key' => ?_, fun key' listeners found => ?_, fun key' id mem => ?_, fun p mem => ?_, ?_,
    fun id mem => Nat.lt_succ_of_lt (registry.gone id mem)⟩
  · rw [live_on h _ t key handler fresh, ← registry.holds]
    change (h.state.pubsub.on key h.state.nextId handler).listenersOf key' = _
    by_cases same : key' = key
    · subst same
      rw [PubSub.listenersOf_on_self, if_pos rfl]
    · rw [PubSub.listenersOf_on_ne same, if_neg same, List.append_nil]
  · rcases lookup_on _ _ _ _ _ found with some | before
    · exact some
    · exact registry.nonempty key' listeners before
  · rcases List.mem_cons.1 mem with same | mem
    · cases same
      exact ⟨_, List.mem_append_right _ (List.mem_singleton_self _), rfl⟩
    · obtain ⟨l, made, named⟩ := registry.issued key' id mem
      exact ⟨l, List.mem_append_left _ made, named⟩
  · rcases List.mem_append.1 mem with mem | mem
    · exact Nat.lt_succ_of_lt (registry.drawn p mem)
    · rw [List.mem_singleton.1 mem]
      exact Nat.lt_succ_self _
  · change ((h.made ++ [(key, _)]).map _).Nodup
    rw [List.map_append, List.nodup_append]
    refine ⟨registry.ids, List.nodup_singleton _, fun a ha b hb same => ?_⟩
    obtain ⟨p, hp, rfl⟩ := List.mem_map.1 ha
    have drawn := registry.drawn p hp
    rw [same, List.mem_singleton.1 hb] at drawn
    exact absurd drawn (Nat.lt_irrefl _)

theorem registry_unsubscribe {h : History T H} (registry : Registry h) (t : T) (key : Str) (id : ℕ)
    {h' : History T H} (last : History.step h (t, .unsubscribe key id) = some h') : Registry h' := by
  obtain ⟨s, stepped, rfl⟩ := Option.map_eq_some_iff.1 last
  obtain ⟨issued, rfl⟩ := step_unsubscribe stepped
  obtain ⟨l, made, named⟩ := registry.issued key id issued
  refine ⟨fun key' => ?_, fun key' listeners found empty => ?_, registry.issued, registry.drawn,
    registry.ids, fun id' mem => ?_⟩
  · rw [live_unsubscribe]
    change (h.state.pubsub.unsubscribe key id).listenersOf key' = _
    by_cases same : key' = key
    · subst same
      rw [PubSub.listenersOf_unsubscribe_self, registry.holds]
    · rw [PubSub.listenersOf_unsubscribe_ne same, registry.holds]
      refine (List.filter_eq_self.2 fun l' mem => ?_).symm
      refine bne_iff_ne.2 fun other => same ?_
      have made' := (mem_live.1 mem).1
      exact congrArg Prod.fst (registry.one_key made' made (other.trans named.symm))
  · subst empty
    by_cases same : key' = key
    · subst same
      rcases lookup_unsubscribe_self h.state.pubsub key' id with some | before
      · exact some found
      · exact registry.nonempty key' [] before rfl
    · exact registry.nonempty key' [] ((lookup_unsubscribe_ne _ same id).symm.trans found) rfl
  · rcases List.mem_cons.1 mem with rfl | mem
    · exact named ▸ registry.drawn _ made
    · exact registry.gone id' mem

theorem registry_step {h h' : History T H} {a : T × Op H} (registry : Registry h)
    (last : History.step h a = some h') : Registry h' := by
  obtain ⟨t, op⟩ := a
  cases op with
  | on key handler => exact registry_on registry t key handler last
  | unsubscribe key id => exact registry_unsubscribe registry t key id last
  | publish key =>
    obtain ⟨s, stepped, rfl⟩ := Option.map_eq_some_iff.1 last
    obtain rfl := Option.some.inj stepped
    exact registry.congr rfl rfl rfl rfl rfl
  | next =>
    obtain ⟨s, stepped, rfl⟩ := Option.map_eq_some_iff.1 last
    obtain ⟨listener, left, outer, -, rfl⟩ := step_next stepped
    rw [History.record]
    split <;> exact registry.congr rfl rfl rfl rfl rfl
  | finish =>
    obtain ⟨s, stepped, rfl⟩ := Option.map_eq_some_iff.1 last
    obtain ⟨outer, -, rfl⟩ := step_finish stepped
    rw [History.record]
    split <;> exact registry.congr rfl rfl rfl rfl rfl
  | abandon =>
    obtain ⟨s, stepped, rfl⟩ := Option.map_eq_some_iff.1 last
    obtain ⟨left, outer, -, rfl⟩ := step_abandon stepped
    exact registry.congr rfl rfl rfl rfl rfl

/-! Deliveries. -/

def Continues (publications : ℕ → Publication H) (next : ℕ) (left : List (Listener H)) (n : ℕ) :
    Prop :=
  n < next ∧ (publications n).copy = (publications n).invoked ++ left

structure Delivered (p : Publication H) : Prop where
  copy : p.copy = p.subscribed
  ids : (p.subscribed.map Listener.id).Nodup
  invoked : p.invoked <+: p.copy
  finished : p.finished = true → p.invoked = p.copy

structure Frames (h : History T H) : Prop where
  continues : ∀ t, List.Forall₂ (Continues h.publications h.nextPublication) (h.state.deliveries t)
    (h.running t)
  nodup : ∀ t, (h.running t).Nodup
  apart : ∀ t t', t ≠ t' → ∀ n ∈ h.running t, n ∉ h.running t'
  delivered : ∀ n < h.nextPublication, Delivered (h.publications n)

omit [DecidableEq T] in
theorem frames_initial : Frames (History.initial : History T H) where
  continues _ := .nil
  nodup _ := .nil
  apart _ _ _ _ h := (nomatch h)
  delivered _ h := (nomatch h)

omit [DecidableEq T] in
theorem continues_self {publications : ℕ → Publication H} {next n : ℕ} {p : Publication H}
    {left : List (Listener H)} (lt : n < next) (copy : p.copy = p.invoked ++ left) :
    Continues (Function.update publications n p) next left n :=
  ⟨lt, by rw [Function.update_self]; exact copy⟩

omit [DecidableEq T] in
theorem continues_update {publications : ℕ → Publication H} {next next' n : ℕ} {p : Publication H}
    {frames : List (List (Listener H))} {numbers : List ℕ}
    (h : List.Forall₂ (Continues publications next) frames numbers) (le : next ≤ next')
    (other : n ∉ numbers) :
    List.Forall₂ (Continues (Function.update publications n p) next') frames numbers := by
  induction h with
  | nil => exact .nil
  | @cons left m frames numbers here _ ih =>
    have ne : m ≠ n := fun same => other (same ▸ List.mem_cons_self)
    refine .cons ⟨here.1.trans_le le, ?_⟩ (ih fun mem => other (List.mem_cons_of_mem _ mem))
    rw [Function.update_of_ne ne]
    exact here.2

omit [DecidableEq T] in
theorem Frames.below {h : History T H} (frames : Frames h) {t : T} {n : ℕ} (mem : n ∈ h.running t) :
    n < h.nextPublication := by
  have all := frames.continues t
  generalize h.running t = numbers at all mem
  generalize h.state.deliveries t = left at all
  induction all with
  | nil => cases mem
  | cons here _ ih =>
    rcases List.mem_cons.1 mem with rfl | mem
    · exact here.1
    · exact ih mem

omit [DecidableEq T] in
/-- Publication `n` of thread `t` goes on to `p`, and nothing else changes. -/
theorem Frames.advance {h h' : History T H} (frames : Frames h) {t : T} {n : ℕ} {outer : List ℕ}
    (top : h.running t = n :: outer) {p : Publication H} (delivered : Delivered p)
    (publications : h'.publications = Function.update h.publications n p)
    (next : h'.nextPublication = h.nextPublication)
    (others : ∀ t', t' ≠ t → h'.state.deliveries t' = h.state.deliveries t' ∧
      h'.running t' = h.running t')
    (same : List.Forall₂ (Continues h'.publications h'.nextPublication) (h'.state.deliveries t)
      (h'.running t))
    (sub : h'.running t <:+ n :: outer) : Frames h' := by
  have shrinks : ∀ t', h'.running t' <:+ h.running t' := fun t' => by
    by_cases this : t' = t
    · subst this
      rwa [top]
    · rw [(others t' this).2]
  refine ⟨fun t' => ?_, fun t' => (frames.nodup t').sublist (shrinks t').sublist,
    fun t₁ t₂ ne m hm hm' => ?_, fun m lt => ?_⟩
  · by_cases this : t' = t
    · subst this
      exact same
    · rw [(others t' this).1, (others t' this).2, publications, next]
      refine continues_update (frames.continues t') (Nat.le_refl _) fun mem => ?_
      exact frames.apart t t' (Ne.symm this) n (top ▸ List.mem_cons_self) mem
  · exact frames.apart t₁ t₂ ne m ((shrinks t₁).mem hm) ((shrinks t₂).mem hm')
  · rw [publications]
    rw [next] at lt
    by_cases this : m = n
    · subst this
      rwa [Function.update_self]
    · rw [Function.update_of_ne this]
      exact frames.delivered m lt

theorem frames_publish {h h' : History T H} (registry : Registry h) (frames : Frames h) {t : T}
    {key : Str} (last : History.step h (t, .publish key) = some h') : Frames h' := by
  obtain ⟨s, stepped, rfl⟩ := Option.map_eq_some_iff.1 last
  obtain rfl := Option.some.inj stepped
  have new : ∀ t', h.nextPublication ∉ h.running t' := fun t' mem =>
    absurd (frames.below mem) (Nat.lt_irrefl _)
  have rest : ∀ t', List.Forall₂ (Continues (Function.update h.publications h.nextPublication
      ⟨h.live key, h.state.pubsub.listenersOf key, [], false⟩) (h.nextPublication + 1))
      (h.state.deliveries t') (h.running t') := fun t' =>
    continues_update (frames.continues t') (Nat.le_succ _) (new t')
  have ran : ∀ t' n, n ∈ Function.update h.running t (h.nextPublication :: h.running t) t' →
      n ∈ h.running t' ∨ t' = t ∧ n = h.nextPublication := fun t' n mem => by
    by_cases this : t' = t
    · subst this
      rw [Function.update_self] at mem
      exact (List.mem_cons.1 mem).symm.imp_right fun same => ⟨rfl, same⟩
    · rw [Function.update_of_ne this] at mem
      exact .inl mem
  refine ⟨fun t' => ?_, fun t' => ?_, fun t₁ t₂ ne m hm hm' => ?_, fun m lt => ?_⟩
  · change List.Forall₂ _ (Function.update h.state.deliveries t _ t') (Function.update h.running t _ t')
    by_cases this : t' = t
    · subst this
      rw [Function.update_self, Function.update_self]
      exact .cons (continues_self (Nat.lt_succ_self _) rfl) (rest t')
    · rw [Function.update_of_ne this, Function.update_of_ne this]
      exact rest t'
  · change (Function.update h.running t _ t').Nodup
    by_cases this : t' = t
    · subst this
      rw [Function.update_self]
      exact List.nodup_cons.2 ⟨new t', frames.nodup t'⟩
    · rw [Function.update_of_ne this]
      exact frames.nodup t'
  · rcases ran t₁ m hm with hm | ⟨same, first⟩ <;> rcases ran t₂ m hm' with hm' | ⟨same', second⟩
    · exact frames.apart t₁ t₂ ne m hm hm'
    · exact new t₁ (second ▸ hm)
    · exact new t₂ (first ▸ hm')
    · exact ne (same.trans same'.symm)
  · change Delivered (Function.update h.publications _ _ m)
    by_cases this : m = h.nextPublication
    · subst this
      rw [Function.update_self]
      refine ⟨registry.holds key, ?_, List.nil_prefix, fun done => by cases done⟩
      have made : ((h.made.filter fun p => p.1 = key).map Prod.snd).map Listener.id =
          (h.made.filter fun p => p.1 = key).map fun p => p.2.id := List.map_map
      change ((h.live key).map Listener.id).Nodup
      refine List.Nodup.sublist (List.filter_sublist.map _) ?_
      rw [made]
      exact registry.ids.sublist (List.filter_sublist.map _)
    · rw [Function.update_of_ne this]
      exact frames.delivered m (Nat.lt_of_le_of_ne (Nat.le_of_lt_succ lt) this)

omit [DecidableEq T] in
/-- The innermost delivery of a thread and its number. -/
theorem Frames.top {h : History T H} (frames : Frames h) {t : T} {left : List (Listener H)}
    {outer : List (List (Listener H))} (top : h.state.deliveries t = left :: outer) :
    ∃ n numbers, h.running t = n :: numbers ∧
      Continues h.publications h.nextPublication left n ∧
      List.Forall₂ (Continues h.publications h.nextPublication) outer numbers := by
  have all := frames.continues t
  rw [top] at all
  generalize h.running t = numbers at all
  cases all with
  | @cons _ n _ numbers here rest => exact ⟨n, numbers, rfl, here, rest⟩

theorem frames_next {h h' : History T H} (frames : Frames h) {t : T}
    (last : History.step h (t, .next) = some h') : Frames h' := by
  obtain ⟨s, stepped, rfl⟩ := Option.map_eq_some_iff.1 last
  obtain ⟨listener, left, outer, top, rfl⟩ := step_next stepped
  obtain ⟨n, numbers, running, ⟨lt, copy⟩, rest⟩ := frames.top top
  have delivered := frames.delivered n lt
  have fresh : n ∉ numbers := (List.nodup_cons.1 (running ▸ frames.nodup t)).1
  have copy' : (h.publications n).copy = ((h.publications n).invoked ++ [listener]) ++ left := by
    rw [copy, List.append_assoc, List.singleton_append]
  have calls : Delivered { h.publications n with
      invoked := (h.publications n).invoked ++ [listener] } := by
    refine ⟨delivered.copy, delivered.ids, ⟨left, copy'.symm⟩, fun done => ?_⟩
    have whole := delivered.finished done
    rw [copy] at whole
    have lengths := congrArg List.length whole
    simp at lengths
  rw [History.record, running, top]
  refine frames.advance running calls rfl rfl (fun t' ne => ⟨Function.update_of_ne ne .., rfl⟩) ?_ ?_
  · change List.Forall₂ _ (Function.update h.state.deliveries t _ t) (h.running t)
    rw [Function.update_self, running]
    exact .cons (continues_self lt copy') (continues_update rest (Nat.le_refl _) fresh)
  · change h.running t <:+ n :: numbers
    rw [running]

theorem frames_finish {h h' : History T H} (frames : Frames h) {t : T}
    (last : History.step h (t, .finish) = some h') : Frames h' := by
  obtain ⟨s, stepped, rfl⟩ := Option.map_eq_some_iff.1 last
  obtain ⟨outer, top, rfl⟩ := step_finish stepped
  obtain ⟨n, numbers, running, ⟨lt, copy⟩, rest⟩ := frames.top top
  have delivered := frames.delivered n lt
  have fresh : n ∉ numbers := (List.nodup_cons.1 (running ▸ frames.nodup t)).1
  have ends : Delivered { h.publications n with finished := true } :=
    ⟨delivered.copy, delivered.ids, delivered.invoked, fun _ => by
      rw [copy, List.append_nil]⟩
  rw [History.record, running]
  refine frames.advance running ends rfl rfl
    (fun t' ne => ⟨Function.update_of_ne ne .., Function.update_of_ne ne ..⟩) ?_ ?_
  · change List.Forall₂ _ (Function.update h.state.deliveries t _ t)
      (Function.update h.running t _ t)
    rw [Function.update_self, Function.update_self]
    exact continues_update rest (Nat.le_refl _) fresh
  · change Function.update h.running t _ t <:+ _
    rw [Function.update_self]
    exact List.suffix_cons n numbers

theorem frames_abandon {h h' : History T H} (frames : Frames h) {t : T}
    (last : History.step h (t, .abandon) = some h') : Frames h' := by
  obtain ⟨s, stepped, rfl⟩ := Option.map_eq_some_iff.1 last
  obtain ⟨left, outer, top, rfl⟩ := step_abandon stepped
  obtain ⟨n, numbers, running, ⟨lt, -⟩, rest⟩ := frames.top top
  refine frames.advance running (frames.delivered n lt) (Function.update_eq_self n _).symm rfl
    (fun t' ne => ⟨Function.update_of_ne ne .., Function.update_of_ne ne ..⟩) ?_ ?_
  · change List.Forall₂ _ (Function.update h.state.deliveries t _ t)
      (Function.update h.running t _ t)
    rw [Function.update_self, Function.update_self, running]
    exact rest
  · change Function.update h.running t _ t <:+ _
    rw [Function.update_self, running]
    exact List.suffix_cons n numbers

theorem frames_step {h h' : History T H} {a : T × Op H} (registry : Registry h) (frames : Frames h)
    (last : History.step h a = some h') : Frames h' := by
  obtain ⟨t, op⟩ := a
  cases op with
  | publish key => exact frames_publish registry frames last
  | next => exact frames_next frames last
  | finish => exact frames_finish frames last
  | abandon => exact frames_abandon frames last
  | on key handler =>
    obtain ⟨s, stepped, rfl⟩ := Option.map_eq_some_iff.1 last
    obtain rfl := Option.some.inj stepped
    exact ⟨frames.continues, frames.nodup, frames.apart, frames.delivered⟩
  | unsubscribe key id =>
    obtain ⟨s, stepped, rfl⟩ := Option.map_eq_some_iff.1 last
    obtain ⟨-, rfl⟩ := step_unsubscribe stepped
    exact ⟨frames.continues, frames.nodup, frames.apart, frames.delivered⟩

/-- In every state that is reached the bus holds for each key exactly what was subscribed to it and
not unsubscribed, in order, and no empty list; an `unsubscribe` takes its own listener away and leaves
every other key as it is; and a publication that has finished has called what was subscribed when it
began, each listener once and in order. -/
theorem registry_exact {ops : List (T × Op H)} {h : History T H}
    (run : Run History.step (fun _ _ => True) History.initial ops h) :
    (∀ key, h.state.pubsub.listenersOf key = h.live key ∧
      h.state.pubsub.listeners.lookup key ≠ some []) ∧
    (∀ t key id h', History.step h (t, .unsubscribe key id) = some h' →
      h'.state.pubsub.listenersOf key = (h.live key).filter (fun l => l.id != id) ∧
      ∀ key', key' ≠ key →
        h'.state.pubsub.listeners.lookup key' = h.state.pubsub.listeners.lookup key') ∧
    ∀ n < h.nextPublication,
      ((h.publications n).subscribed.map Listener.id).Nodup ∧
      (h.publications n).invoked <+: (h.publications n).subscribed ∧
      ((h.publications n).finished = true →
        (h.publications n).invoked = (h.publications n).subscribed) := by
  obtain ⟨registry, frames⟩ := run.invariant (P := fun h => Registry h ∧ Frames h)
    ⟨registry_initial, frames_initial⟩ fun both _ last =>
      ⟨registry_step both.1 last, frames_step both.1 both.2 last⟩
  refine ⟨fun key => ⟨registry.holds key, fun empty => registry.nonempty key [] empty rfl⟩,
    fun t key id h' last => ?_, fun n lt => ?_⟩
  · obtain ⟨s, stepped, rfl⟩ := Option.map_eq_some_iff.1 last
    obtain ⟨-, rfl⟩ := step_unsubscribe stepped
    refine ⟨?_, fun key' ne => lookup_unsubscribe_ne h.state.pubsub ne id⟩
    change (h.state.pubsub.unsubscribe key id).listenersOf key = _
    rw [PubSub.listenersOf_unsubscribe_self, registry.holds]
  · have delivered := frames.delivered n lt
    refine ⟨delivered.ids, delivered.copy ▸ delivered.invoked, fun done => ?_⟩
    rw [delivered.finished done, delivered.copy]

end

/-- A handler unsubscribes itself and publishes again on its key before the outer delivery goes on. -/
def nested : List (Unit × Op Unit) :=
  [((), .on [] ()), ((), .on [] ()), ((), .publish []), ((), .next), ((), .unsubscribe [] 0),
    ((), .publish []), ((), .next), ((), .finish), ((), .next), ((), .finish),
    ((), .unsubscribe [] 0)]

theorem registry_exact_nested : ∃ h : History Unit Unit,
    Run History.step (fun _ _ => True) History.initial nested h ∧
      h.state.pubsub.listenersOf [] = h.live [] := by
  obtain ⟨h, run, -⟩ := exists_run History.step (fun _ _ => true) History.initial nested
    (fun _ => true) (by decide +kernel)
  have always := run.weaken fun _ => trivial
  exact ⟨h, always, ((registry_exact always).1 []).1⟩

end Blueboat.Deliveries
