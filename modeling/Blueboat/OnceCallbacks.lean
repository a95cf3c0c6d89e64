import Mathlib.Data.List.Nodup
import Blueboat.Callback
import Blueboat.Library.Machine

set_option autoImplicit false

/-! Runs of a `Callback`: what is added and cleared, and the calls, one inside of the callback of the
other to any depth. -/
namespace Blueboat.Reentry

open Machine

/-- A call under way: the bounds of its loop, and the entry whose callback runs. -/
structure Pass where
  storage : ℕ
  slot : ℕ
  last : ℕ
  running : Option ℕ
  deriving DecidableEq, Repr

/-- The innermost pass comes first. `lost`: a pass has read outside of `entries_`. The rest is history:
the entries invoked, those added to be called once only, and the repeating ones that have been added
and not cleared. -/
structure State where
  callback : Callback
  passes : List Pass
  lost : Bool
  invoked : List ℕ
  onces : List ℕ
  repeating : List ℕ

inductive Event where
  | add (once : Bool)
  | clear (id : ℕ)
  | clearAll
  | call
  | next
  | ret
  | throw
  deriving DecidableEq, Repr

def Callback.clearAll (c : Callback) : Callback := c.removeIf fun _ => true

section
variable (grow : ℕ → ℕ)

def State.add (s : State) (once : Bool) : State :=
  { s with
    callback := s.callback.add grow once
    onces := if once then s.onces ++ [s.callback.nextId] else s.onces
    repeating := if once then s.repeating else s.repeating ++ [s.callback.nextId] }

def State.clear (s : State) (id : ℕ) : State :=
  { s with callback := s.callback.remove id, repeating := s.repeating.filter (· != id) }

def State.clearAll (s : State) : State :=
  { s with callback := s.callback.clearAll, repeating := [] }

def State.call (s : State) : State :=
  { s with passes := ⟨s.callback.storage, 0, s.callback.entries.length, none⟩ :: s.passes }

/-- The head of the loop of `call`, and what follows the loop. -/
def State.next (s : State) (pass : Pass) (outer : List Pass) : State :=
  if pass.slot = pass.last then
    { s with
      callback :=
        if s.callback.entries.any Entry.spent then s.callback.removeCalledOnce else s.callback
      passes := outer }
  else if s.callback.storage = pass.storage then
    match s.callback.entries[pass.slot]? with
    | none => { s with lost := true }
    | some entry =>
      if entry.calledOnce && entry.once then
        { s with passes := { pass with slot := pass.slot + 1 } :: outer }
      else
        { s with
          passes := { pass with running := some entry.id } :: outer
          invoked := s.invoked ++ [entry.id] }
  else { s with lost := true }

/-- The callback returns: `entry.called_once = true`. -/
def State.ret (s : State) (pass : Pass) (outer : List Pass) : State :=
  { s with
    callback := s.callback.mark pass.storage pass.slot
    passes := { pass with slot := pass.slot + 1, running := none } :: outer }

def State.free (s : State) : Bool :=
  match s.passes with
  | [] => true
  | pass :: _ => pass.running.isSome

def step (s : State) : Event → Option State
  | .add once => if s.free then some (s.add grow once) else none
  | .clear id => if s.free then some (s.clear id) else none
  | .clearAll => if s.free then some s.clearAll else none
  | .call => if s.free then some s.call else none
  | .next =>
    match s.passes with
    | pass :: outer => if pass.running.isNone && !s.lost then some (s.next pass outer) else none
    | [] => none
  | .ret =>
    match s.passes with
    | pass :: outer => if pass.running.isSome then some (s.ret pass outer) else none
    | [] => none
  | .throw =>
    match s.passes with
    | pass :: outer => if pass.running.isSome then some { s with passes := outer } else none
    | [] => none

def State.initial : State where
  callback := ⟨[], 0, 0, 0, nofun, .nil⟩
  passes := []
  lost := false
  invoked := []
  onces := []
  repeating := []

/-- No pass has read outside of `entries_`; an entry that is to be called once has been invoked once
at most, and is gone when the outermost call returns; a repeating one stays until it is cleared. -/
structure OnceOnly (s : State) : Prop where
  inside : s.lost = false
  once : ∀ id ∈ s.onces, s.invoked.count id ≤ 1
  gone : ∀ s', step grow s .next = some s' → s'.passes = [] → ∀ id ∈ s'.onces, id ∈ s'.invoked →
    id ∉ s'.callback.ids
  stay : ∀ id ∈ s.repeating, ∃ e ∈ s.callback.entries, e.id = id ∧ e.once = false

end

/-- The passes read inside of `entries_` and reach no only-once entry whose callback runs; the callback
of such an entry returns, with the entry in its slot or removed. -/
structure Orderly (s : State) (a : Event) : Prop where
  inside : a = .next → ∀ pass outer, s.passes = pass :: outer → pass.slot ≠ pass.last →
    s.callback.storage = pass.storage ∧ pass.slot < s.callback.entries.length
  apart : a = .next → ∀ pass outer, s.passes = pass :: outer → pass.slot ≠ pass.last →
    ∀ e, s.callback.entries[pass.slot]? = some e → e.once = true → e.calledOnce = false →
      ∀ p ∈ s.passes, p.running ≠ some e.id
  marks : a = .ret → ∀ pass outer, s.passes = pass :: outer → ∀ e ∈ s.callback.entries,
    e.once = true → pass.running = some e.id →
      s.callback.storage = pass.storage ∧ s.callback.entries[pass.slot]? = some e
  returns : a = .throw → ∀ pass outer, s.passes = pass :: outer → ∀ e ∈ s.callback.entries,
    e.once = true → pass.running ≠ some e.id

/-! The repeating entries of a list, and what the operations do to them. -/

def Callback.repeaters (c : Callback) : List ℕ := (c.entries.filter fun e => !e.once).map Entry.id

theorem repeaters_add (grow : ℕ → ℕ) (c : Callback) (once : Bool) :
    (c.add grow once).repeaters = c.repeaters ++ if once then [] else [c.nextId] := by
  rw [Callback.repeaters, Callback.add, List.filter_append, List.map_append]
  cases once <;> rfl

theorem repeaters_remove (c : Callback) (id : ℕ) :
    (c.remove id).repeaters = c.repeaters.filter (· != id) := by
  rw [Callback.repeaters, Callback.repeaters, List.filter_map, List.filter_filter]
  change ((c.entries.filter fun e => !(e.id == id)).filter _).map _ = _
  rw [List.filter_filter]
  refine congrArg _ (List.filter_congr fun e _ => ?_)
  exact Bool.and_comm _ _

/-- Repeating entries are never spent. -/
theorem repeaters_removeCalledOnce (c : Callback) : c.removeCalledOnce.repeaters = c.repeaters := by
  rw [Callback.repeaters, Callback.repeaters]
  change ((c.entries.filter fun e => !e.spent).filter _).map _ = _
  rw [List.filter_filter]
  refine congrArg _ (List.filter_congr fun e _ => ?_)
  rw [Entry.spent]
  cases e.once <;> simp

/-- An entry after the write is one of before, marked if it is in the slot. -/
theorem mem_mark {c : Callback} {storage slot : ℕ} {e : Entry}
    (mem : e ∈ (c.mark storage slot).entries) : ∃ e₀ ∈ c.entries, e.id = e₀.id ∧ e.once = e₀.once ∧
      (e₀.calledOnce = true → e.calledOnce = true) ∧
      (c.storage = storage → c.entries[slot]? = some e₀ → e.calledOnce = true) := by
  change e ∈ (if c.storage = storage then c.entries.modify slot _ else c.entries) at mem
  split at mem
  · obtain ⟨i, bound, rfl⟩ := List.getElem_of_mem mem
    rw [List.length_modify] at bound
    refine ⟨c.entries[i], List.getElem_mem bound, ?_⟩
    rw [List.getElem_modify]
    split
    · exact ⟨rfl, rfl, fun _ => rfl, fun _ _ => rfl⟩
    · rename_i other
      refine ⟨rfl, rfl, fun called => called, fun _ here => absurd ?_ other⟩
      obtain ⟨bound', same⟩ := List.getElem?_eq_some_iff.1 here
      have apart := List.pairwise_iff_getElem.1 c.ordered
      simp only [List.length_map, List.getElem_map] at apart
      rcases Nat.lt_trichotomy slot i with before | here | after
      · have lower := apart slot i bound' bound before
        rw [same] at lower
        exact absurd lower (Nat.lt_irrefl _)
      · exact here
      · have lower := apart i slot bound bound' after
        rw [same] at lower
        exact absurd lower (Nat.lt_irrefl _)
  · rename_i moved
    exact ⟨e, mem, rfl, rfl, id, fun same => absurd same moved⟩

theorem repeaters_mark (c : Callback) (storage slot : ℕ) :
    (c.mark storage slot).repeaters = c.repeaters := by
  have pairs : (c.mark storage slot).entries.map (fun e => (e.id, e.once)) =
      c.entries.map fun e => (e.id, e.once) := by
    change (if c.storage = storage then c.entries.modify slot _ else c.entries).map _ = _
    split
    · refine List.ext_getElem (by simp) fun i _ _ => ?_
      rw [List.getElem_map, List.getElem_modify, List.getElem_map]
      split <;> rfl
    · rfl
  have only : ∀ c : Callback, c.repeaters =
      ((c.entries.map fun e => (e.id, e.once)).filter fun p => !p.2).map Prod.fst := fun c => by
    rw [List.filter_map, List.map_map]
    rfl
  rw [only, only, pairs]

/-- An only-once entry that has been invoked is marked, or its callback runs. -/
structure Ordered (s : State) : Prop where
  inside : s.lost = false
  drawn : ∀ id, id ∈ s.onces ∨ id ∈ s.invoked → id < s.callback.nextId
  kind : ∀ e ∈ s.callback.entries, e.once = true ↔ e.id ∈ s.onces
  repeating : s.callback.repeaters = s.repeating
  spent : ∀ e ∈ s.callback.entries, e.once = true → e.id ∈ s.invoked →
    e.calledOnce = true ∨ ∃ p ∈ s.passes, p.running = some e.id
  once : ∀ id ∈ s.onces, s.invoked.count id ≤ 1

section
variable {grow : ℕ → ℕ} {s s' : State} {a : Event}

/-! The loop goes on, and a callback comes back, in the innermost pass. -/

theorem step_next (last : Reentry.step grow s .next = some s') : ∃ pass outer,
    s.passes = pass :: outer ∧ pass.running = none ∧ s.lost = false ∧ s' = s.next pass outer := by
  rw [Reentry.step] at last
  split at last
  · rename_i pass outer passes
    obtain ⟨runs, same⟩ := Option.ite_none_right_eq_some.1 last
    rw [Bool.and_eq_true, Option.isNone_iff_eq_none, Bool.not_eq_true'] at runs
    exact ⟨pass, outer, passes, runs.1, runs.2, (Option.some.inj same).symm⟩
  · cases last

theorem step_ret (last : Reentry.step grow s .ret = some s') : ∃ pass outer,
    s.passes = pass :: outer ∧ pass.running.isSome = true ∧ s' = s.ret pass outer := by
  rw [Reentry.step] at last
  split at last
  · rename_i pass outer passes
    obtain ⟨runs, same⟩ := Option.ite_none_right_eq_some.1 last
    exact ⟨pass, outer, passes, runs, (Option.some.inj same).symm⟩
  · cases last

theorem step_throw (last : Reentry.step grow s .throw = some s') : ∃ pass outer,
    s.passes = pass :: outer ∧ pass.running.isSome = true ∧ s' = { s with passes := outer } := by
  rw [Reentry.step] at last
  split at last
  · rename_i pass outer passes
    obtain ⟨runs, same⟩ := Option.ite_none_right_eq_some.1 last
    exact ⟨pass, outer, passes, runs, (Option.some.inj same).symm⟩
  · cases last

theorem Ordered.initial : Ordered State.initial :=
  ⟨rfl, nofun, nofun, rfl, nofun, nofun⟩

/-- The list of entries shrinks; nothing else changes but what is repeating. -/
theorem Ordered.shrink (h : Ordered s) {callback : Callback} {repeating : List ℕ}
    (fewer : callback.entries ⊆ s.callback.entries) (nextId : callback.nextId = s.callback.nextId)
    (repeats : callback.repeaters = repeating) :
    Ordered { s with callback := callback, repeating := repeating } where
  inside := h.inside
  drawn id listed := by rw [nextId]; exact h.drawn id listed
  kind e mem := h.kind e (fewer mem)
  repeating := repeats
  spent e mem := h.spent e (fewer mem)
  once := h.once

theorem Ordered.add (h : Ordered s) (once : Bool) : Ordered (s.add grow once) := by
  have new : ∀ id, id ∈ s.onces ∨ id ∈ s.invoked → id ≠ s.callback.nextId := fun id listed =>
    Nat.ne_of_lt (h.drawn id listed)
  have onces : ∀ id, id ∈ (s.add grow once).onces ↔
      id ∈ s.onces ∨ once = true ∧ id = s.callback.nextId := by
    intro id
    unfold State.add
    cases once <;> simp
  refine ⟨h.inside, fun id listed => ?_, fun e mem => ?_, ?_, fun e mem only called => ?_,
    fun id listed => ?_⟩
  · change id < s.callback.nextId + 1
    rw [onces] at listed
    rcases listed with (old | ⟨-, rfl⟩) | called
    · exact Nat.lt_succ_of_lt (h.drawn id (.inl old))
    · exact Nat.lt_succ_self _
    · exact Nat.lt_succ_of_lt (h.drawn id (.inr called))
  · rw [onces]
    rcases List.mem_append.1 mem with mem | mem
    · have other : e.id ≠ s.callback.nextId := Nat.ne_of_lt (s.callback.drawn _ (List.mem_map_of_mem mem))
      rw [h.kind e mem]
      exact ⟨.inl, fun listed => listed.resolve_right fun both => other both.2⟩
    · obtain rfl := List.mem_singleton.1 mem
      exact ⟨fun only => .inr ⟨only, rfl⟩, fun listed => (listed.resolve_left
        fun old => new _ (.inl old) rfl).1⟩
  · change (s.callback.add grow once).repeaters = if once then _ else _
    rw [repeaters_add, h.repeating]
    cases once with
    | true => exact List.append_nil _
    | false => rfl
  · rcases List.mem_append.1 mem with mem | mem
    · exact h.spent e mem only called
    · obtain rfl := List.mem_singleton.1 mem
      exact absurd rfl (new _ (.inr called))
  · rcases (onces id).1 listed with old | ⟨-, rfl⟩
    · exact h.once id old
    · have none : s.callback.nextId ∉ s.invoked := fun called => new _ (.inr called) rfl
      rw [show (s.add grow once).invoked = s.invoked from rfl, List.count_eq_zero_of_not_mem none]
      exact Nat.zero_le 1

theorem Ordered.clear (h : Ordered s) (id : ℕ) : Ordered (s.clear id) := by
  refine h.shrink List.filter_sublist.subset rfl ?_
  rw [repeaters_remove, h.repeating]

theorem Ordered.clearAll (h : Ordered s) : Ordered s.clearAll := by
  refine h.shrink List.filter_sublist.subset rfl ?_
  rw [Callback.repeaters, Callback.clearAll, Callback.removeIf]
  simp

theorem Ordered.call (h : Ordered s) : Ordered s.call where
  inside := h.inside
  drawn := h.drawn
  kind := h.kind
  repeating := h.repeating
  spent e mem only called := (h.spent e mem only called).imp_right
    fun ⟨p, listed, runs⟩ => ⟨p, List.mem_cons_of_mem _ listed, runs⟩
  once := h.once

/-- A pass that is not in a callback ends. -/
theorem Ordered.ends (h : Ordered s) {pass : Pass} {outer : List Pass}
    (passes : s.passes = pass :: outer) (loops : pass.running = none) {callback : Callback}
    (fewer : callback.entries ⊆ s.callback.entries) (nextId : callback.nextId = s.callback.nextId)
    (repeats : callback.repeaters = s.callback.repeaters) :
    Ordered { s with callback := callback, passes := outer } := by
  have shrunk := h.shrink fewer nextId (repeats.trans h.repeating)
  refine ⟨shrunk.inside, shrunk.drawn, shrunk.kind, shrunk.repeating, fun e mem only called => ?_,
    shrunk.once⟩
  refine (h.spent e (fewer mem) only called).imp_right fun ⟨p, listed, runs⟩ => ?_
  rw [passes] at listed
  rcases List.mem_cons.1 listed with rfl | listed
  · cases loops.symm.trans runs
  · exact ⟨p, listed, runs⟩

theorem Ordered.next (h : Ordered s) {pass : Pass} {outer : List Pass} (orderly : Orderly s .next)
    (passes : s.passes = pass :: outer) (loops : pass.running = none) : Ordered (s.next pass outer) := by
  have others : ∀ {e : Entry} {pass' : Pass}, (∃ p ∈ s.passes, p.running = some e.id) →
      ∃ p ∈ pass' :: outer, p.running = some e.id := by
    rintro e pass' ⟨p, listed, runs⟩
    rw [passes] at listed
    rcases List.mem_cons.1 listed with rfl | listed
    · cases loops.symm.trans runs
    · exact ⟨p, List.mem_cons_of_mem _ listed, runs⟩
  unfold State.next
  split
  · split
    · exact h.ends passes loops List.filter_sublist.subset rfl (repeaters_removeCalledOnce _)
    · exact h.ends passes loops (List.Subset.refl _) rfl rfl
  rename_i more
  obtain ⟨same, bound⟩ := orderly.inside rfl pass outer passes more
  rw [if_pos same]
  split
  · rename_i read
    exact absurd bound (Nat.not_lt.2 (List.getElem?_eq_none_iff.1 read))
  rename_i entry read
  have mem : entry ∈ s.callback.entries := List.mem_of_getElem? read
  split
  · exact ⟨h.inside, h.drawn, h.kind, h.repeating, fun e mem only called =>
      (h.spent e mem only called).imp_right others, h.once⟩
  rename_i unspent
  -- an only-once entry that has been invoked is spent, or its callback runs
  have first : entry.once = true → entry.id ∉ s.invoked := by
    intro only called
    rw [only, Bool.and_true] at unspent
    obtain ⟨p, listed, runs⟩ := (h.spent entry mem only called).resolve_left unspent
    exact orderly.apart rfl pass outer passes more entry read only
      (Bool.eq_false_iff.2 unspent) p listed runs
  refine ⟨h.inside, fun id listed => ?_, h.kind, h.repeating, fun e listed only called => ?_,
    fun id listed => ?_⟩
  · rcases listed with listed | called
    · exact h.drawn id (.inl listed)
    · rcases List.mem_append.1 called with called | called
      · exact h.drawn id (.inr called)
      · obtain rfl := List.mem_singleton.1 called
        exact s.callback.drawn _ (List.mem_map_of_mem mem)
  · rcases List.mem_append.1 called with called | called
    · exact (h.spent e listed only called).imp_right others
    · exact .inr ⟨_, List.mem_cons_self, (congrArg some (List.mem_singleton.1 called)).symm⟩
  · dsimp only at listed ⊢
    rw [List.count_append]
    by_cases here : id = entry.id
    · subst here
      have none := first ((h.kind entry mem).2 listed)
      rw [List.count_eq_zero_of_not_mem none]
      rw [Nat.zero_add]
      exact List.count_le_length
    · rw [List.count_eq_zero_of_not_mem (l := [entry.id]) (by simpa using here)]
      exact h.once id listed

theorem Ordered.ret (h : Ordered s) {pass : Pass} {outer : List Pass} (orderly : Orderly s .ret)
    (passes : s.passes = pass :: outer) : Ordered (s.ret pass outer) := by
  refine ⟨h.inside, h.drawn, fun e mem => ?_, (repeaters_mark ..).trans h.repeating,
    fun e mem only called => ?_, h.once⟩
  · obtain ⟨e₀, mem₀, id, once, -⟩ := mem_mark mem
    rw [id, once]
    exact h.kind e₀ mem₀
  · obtain ⟨e₀, mem₀, id, once, stays, marks⟩ := mem_mark mem
    rw [once] at only
    rw [id] at called ⊢
    rcases h.spent e₀ mem₀ only called with called | ⟨p, listed, runs⟩
    · exact .inl (stays called)
    · rw [passes] at listed
      rcases List.mem_cons.1 listed with rfl | listed
      · obtain ⟨same, here⟩ := orderly.marks rfl p outer passes e₀ mem₀ only runs
        exact .inl (marks same here)
      · exact .inr ⟨p, List.mem_cons_of_mem _ listed, runs⟩

theorem Ordered.throw (h : Ordered s) {pass : Pass} {outer : List Pass} (orderly : Orderly s .throw)
    (passes : s.passes = pass :: outer) : Ordered { s with passes := outer } := by
  refine ⟨h.inside, h.drawn, h.kind, h.repeating, fun e mem only called => ?_, h.once⟩
  refine (h.spent e mem only called).imp_right fun ⟨p, listed, runs⟩ => ?_
  rw [passes] at listed
  rcases List.mem_cons.1 listed with rfl | listed
  · exact absurd runs (orderly.returns rfl p outer passes e mem only)
  · exact ⟨p, listed, runs⟩

theorem Ordered.step (h : Ordered s) (orderly : Orderly s a) (last : step grow s a = some s') :
    Ordered s' := by
  cases a with
  | add once =>
    obtain ⟨-, same⟩ := Option.ite_none_right_eq_some.1 last
    obtain rfl := Option.some.inj same
    exact h.add once
  | clear id =>
    obtain ⟨-, same⟩ := Option.ite_none_right_eq_some.1 last
    obtain rfl := Option.some.inj same
    exact h.clear id
  | clearAll =>
    obtain ⟨-, same⟩ := Option.ite_none_right_eq_some.1 last
    obtain rfl := Option.some.inj same
    exact h.clearAll
  | call =>
    obtain ⟨-, same⟩ := Option.ite_none_right_eq_some.1 last
    obtain rfl := Option.some.inj same
    exact h.call
  | next =>
    obtain ⟨pass, outer, passes, loops, -, rfl⟩ := step_next last
    exact h.next orderly passes loops
  | ret =>
    obtain ⟨pass, outer, passes, -, rfl⟩ := step_ret last
    exact h.ret orderly passes
  | throw =>
    obtain ⟨pass, outer, passes, -, rfl⟩ := step_throw last
    exact h.throw orderly passes

/-- When the outermost call returns, its pass removes what is spent. -/
theorem Ordered.gone (h : Ordered s) (last : Reentry.step grow s .next = some s') (over_ : s'.passes = []) :
    ∀ id ∈ s'.onces, id ∈ s'.invoked → id ∉ s'.callback.ids := by
  obtain ⟨pass, outer, passes, loops, -, rfl⟩ := step_next last
  unfold State.next at over_ ⊢
  split at over_
  · rename_i ends
    rw [if_pos ends]
    obtain rfl : outer = [] := over_
    intro id once called listed
    -- an entry that is left is not spent
    have kept : ∀ e, e ∈ (if s.callback.entries.any Entry.spent then s.callback.removeCalledOnce
        else s.callback).entries → e ∈ s.callback.entries ∧ e.spent = false := by
      intro e mem
      split at mem
      · obtain ⟨mem, unspent⟩ := List.mem_filter.1 mem
        exact ⟨mem, by simpa using unspent⟩
      · rename_i none
        refine ⟨mem, Bool.eq_false_iff.2 fun spent => none ?_⟩
        exact List.any_eq_true.2 ⟨e, mem, spent⟩
    obtain ⟨e, mem, rfl⟩ := List.mem_map.1 listed
    obtain ⟨mem, unspent⟩ := kept e mem
    have only := (h.kind e mem).2 once
    rw [Entry.spent, only, Bool.and_true] at unspent
    rcases h.spent e mem only called with marked | ⟨p, listed, inside⟩
    · cases unspent.symm.trans marked
    · rw [passes] at listed
      obtain rfl := List.mem_singleton.1 listed
      cases loops.symm.trans inside
  · split at over_
    · split at over_
      · cases passes.symm.trans over_
      · split at over_ <;> cases over_
    · cases passes.symm.trans over_

theorem Ordered.onceOnly (h : Ordered s) : OnceOnly grow s := by
  refine ⟨h.inside, h.once, fun s' last over_ => h.gone last over_, fun id listed => ?_⟩
  rw [← h.repeating] at listed
  obtain ⟨e, mem, rfl⟩ := List.mem_map.1 listed
  obtain ⟨mem, repeats⟩ := List.mem_filter.1 mem
  exact ⟨e, mem, rfl, by simpa using repeats⟩

/-- In a run in which the passes read inside of `entries_` and reach no only-once entry whose callback
runs, and the callback of such an entry returns and leaves it where it is or removed, each of them is
invoked once at most. -/
theorem once_only {as : List Event} (run : Run (step grow) Orderly State.initial as s) :
    OnceOnly grow s := by
  have ordered : Ordered s := run.invariant .initial fun h orderly last => h.step orderly last
  exact ordered.onceOnly

/-! Callbacks that leave the `Callback` alone. -/

/-- While a call is under way nothing is added, cleared or called, and no callback throws. -/
def LeavesAlone (s : State) (a : Event) : Prop := s.passes ≠ [] → a = .next ∨ a = .ret

/-- There is one pass at most, and the list is the one that it began with. -/
def Single (s : State) : Prop :=
  ∀ pass outer, s.passes = pass :: outer → outer = [] ∧ pass.storage = s.callback.storage ∧
    pass.last = s.callback.entries.length ∧ pass.slot ≤ pass.last ∧
      ∀ id, pass.running = some id → ∃ e, s.callback.entries[pass.slot]? = some e ∧ e.id = id

theorem Single.orderly (h : Single s) (leaves : LeavesAlone s a)
    (last : step grow s a = some s') : Orderly s a := by
  refine ⟨?_, ?_, ?_, ?_⟩
  · rintro rfl pass outer passes more
    obtain ⟨-, same, ends, bound, -⟩ := h pass outer passes
    exact ⟨same.symm, by omega⟩
  · rintro rfl pass outer passes - e - - - p listed runs
    obtain ⟨rfl, -⟩ := h pass outer passes
    rw [passes] at listed
    obtain rfl := List.mem_singleton.1 listed
    rw [step, passes] at last
    obtain ⟨loops, -⟩ := Option.ite_none_right_eq_some.1 last
    rw [runs] at loops
    cases loops
  · rintro rfl pass outer passes e mem - runs
    obtain ⟨-, same, -, -, here⟩ := h pass outer passes
    obtain ⟨e', read, id⟩ := here _ runs
    refine ⟨same.symm, read.trans (congrArg some ?_)⟩
    have distinct : (s.callback.entries.map Entry.id).Nodup := s.callback.ordered.imp Nat.ne_of_lt
    exact List.inj_on_of_nodup_map distinct (List.mem_of_getElem? read) mem id
  · rintro rfl pass outer passes
    exact absurd (leaves (passes ▸ List.cons_ne_nil _ _)) (by decide)

theorem Single.next (h : Single s) {pass : Pass} {outer : List Pass} (passes : s.passes = pass :: outer)
    (loops : pass.running = none) : Single (s.next pass outer) := by
  obtain ⟨rfl, same, ends, bound, -⟩ := h pass outer passes
  unfold State.next
  split
  · exact fun _ _ none => (nomatch none)
  rename_i more
  rw [if_pos same.symm]
  split
  · exact h
  rename_i entry read
  split
  all_goals
    rintro pass' outer' passes'
    obtain ⟨rfl, rfl⟩ := List.cons.inj passes'
  · refine ⟨rfl, same, ends, Nat.succ_le_of_lt (Nat.lt_of_le_of_ne bound more), fun id runs => ?_⟩
    cases loops.symm.trans runs
  · refine ⟨rfl, same, ends, bound, fun id runs => ?_⟩
    obtain rfl := Option.some.inj runs
    exact ⟨entry, read, rfl⟩

theorem Single.ret (h : Single s) {pass : Pass} {outer : List Pass} (passes : s.passes = pass :: outer)
    (runs : pass.running.isSome = true) : Single (s.ret pass outer) := by
  obtain ⟨rfl, same, ends, -, here⟩ := h pass outer passes
  obtain ⟨id, runs⟩ := Option.isSome_iff_exists.1 runs
  obtain ⟨e, read, -⟩ := here id runs
  have bound := (List.getElem?_eq_some_iff.1 read).1
  have length : (s.callback.mark pass.storage pass.slot).entries.length = s.callback.entries.length := by
    simpa [Callback.ids] using congrArg List.length (ids_mark s.callback pass.storage pass.slot)
  rintro pass' outer' passes'
  obtain ⟨rfl, rfl⟩ := List.cons.inj passes'
  exact ⟨rfl, same, ends.trans length.symm, by dsimp only; omega, fun _ none => by cases none⟩

theorem Single.step (h : Single s) (leaves : LeavesAlone s a) (last : Reentry.step grow s a = some s') :
    Single s' := by
  have idle : a ≠ .next → a ≠ .ret → s.passes = [] := by
    intro next ret
    by_contra under
    exact (leaves under).elim next ret
  cases a with
  | add once | clear id | clearAll =>
    obtain ⟨-, same⟩ := Option.ite_none_right_eq_some.1 last
    obtain rfl := Option.some.inj same
    intro pass outer passes
    cases (idle (by simp) (by simp)).symm.trans passes
  | call =>
    obtain ⟨-, same⟩ := Option.ite_none_right_eq_some.1 last
    obtain rfl := Option.some.inj same
    rintro pass outer passes
    obtain ⟨rfl, rfl⟩ := List.cons.inj passes
    exact ⟨idle (by simp) (by simp), rfl, rfl, Nat.zero_le _, fun _ none => by cases none⟩
  | next =>
    obtain ⟨pass, outer, passes, loops, -, rfl⟩ := step_next last
    exact h.next passes loops
  | ret =>
    obtain ⟨pass, outer, passes, runs, rfl⟩ := step_ret last
    exact h.ret passes runs
  | throw =>
    obtain ⟨pass, outer, passes, -⟩ := step_throw last
    cases (idle (by simp) (by simp)).symm.trans passes

/-- Callbacks that leave the `Callback` alone are called in order. -/
theorem orderly_of_leavesAlone {as : List Event}
    (run : Run (step grow) LeavesAlone State.initial as s) :
    Single s ∧ Run (step grow) Orderly State.initial as s := by
  induction run with
  | nil => exact ⟨fun _ _ none => (nomatch none), .nil⟩
  | snoc _ leaves last ih => exact ⟨ih.1.step leaves last, ih.2.snoc (ih.1.orderly leaves last) last⟩

end

def orderlyCheck (s : State) (a : Event) : Bool :=
  match s.passes with
  | [] => true
  | pass :: _ =>
    match a with
    | .next =>
      pass.slot == pass.last || (s.callback.storage == pass.storage &&
        match s.callback.entries[pass.slot]? with
        | none => false
        | some e => !e.once || e.calledOnce || s.passes.all fun p => p.running != some e.id)
    | .ret => s.callback.entries.all fun e => !e.once || pass.running != some e.id ||
        s.callback.storage == pass.storage && s.callback.entries[pass.slot]? == some e
    | .throw => s.callback.entries.all fun e => !e.once || pass.running != some e.id
    | _ => true

theorem orderlyCheck_sound {s : State} {a : Event} (h : orderlyCheck s a = true) : Orderly s a := by
  refine ⟨?_, ?_, ?_, ?_⟩
  · rintro rfl pass outer passes more
    rw [orderlyCheck, passes] at h
    obtain ⟨same, bound⟩ := Bool.and_eq_true_iff.1 ((Bool.or_eq_true_iff.1 h).resolve_left
      fun ends => more (beq_iff_eq.1 ends))
    refine ⟨beq_iff_eq.1 same, ?_⟩
    split at bound
    · cases bound
    · rename_i e read
      exact (List.getElem?_eq_some_iff.1 read).1
  · rintro rfl pass outer passes more e read only unmarked p listed
    rw [orderlyCheck, passes] at h
    obtain ⟨-, apart⟩ := Bool.and_eq_true_iff.1 ((Bool.or_eq_true_iff.1 h).resolve_left
      fun ends => more (beq_iff_eq.1 ends))
    rw [read] at apart
    simp only [only, unmarked, Bool.not_true, Bool.false_or, List.all_eq_true] at apart
    simpa using apart p (passes ▸ listed)
  · rintro rfl pass outer passes e mem only runs
    rw [orderlyCheck, passes] at h
    have each := List.all_eq_true.1 h e mem
    simpa [only, runs] using each
  · rintro rfl pass outer passes e mem only
    rw [orderlyCheck, passes] at h
    have each := List.all_eq_true.1 h e mem
    simpa [only] using each

/-- An only-once entry and a repeating one, whose callback calls once more. -/
def callsAgain : List Event :=
  [.add true, .add false, .call, .next, .ret, .next, .call, .next, .next, .ret, .next, .ret, .next]

theorem once_only_again : ∃ as s, Run (step (2 * ·)) Orderly State.initial as s ∧
    s.invoked = [0, 1, 1] ∧ s.passes = [] ∧ OnceOnly (2 * ·) s := by
  have found : (execute (step (2 * ·)) orderlyCheck State.initial callsAgain).any (fun s =>
      s.invoked == [0, 1, 1] && s.passes.isEmpty) = true := by decide +kernel
  obtain ⟨s, run, finished⟩ := exists_run _ _ _ _ _ found
  obtain ⟨invoked, over_⟩ := Bool.and_eq_true_iff.1 finished
  have run' : Run _ Orderly _ _ s := run.weaken orderlyCheck_sound
  exact ⟨_, s, run', beq_iff_eq.1 invoked, List.isEmpty_iff.1 over_, once_only run'⟩

/-- The callback of an only-once entry calls, and is invoked again. -/
theorem invoked_twice : ¬ ∀ (grow : ℕ → ℕ) (as : List Event) (s : State),
    Run (step grow) (fun _ _ => True) State.initial as s → OnceOnly grow s := by
  intro once
  have found : (execute (step (2 * ·)) (fun _ _ => true) State.initial
      [.add true, .call, .next, .call, .next]).any (fun s =>
        s.onces == [0] && s.invoked == [0, 0]) = true := by decide +kernel
  obtain ⟨s, run, finished⟩ := exists_run _ _ _ _ _ found
  obtain ⟨onces, invoked⟩ := Bool.and_eq_true_iff.1 finished
  have most := (once _ _ s (run.weaken fun _ => trivial)).once 0 (by rw [beq_iff_eq.1 onces]; simp)
  rw [beq_iff_eq.1 invoked] at most
  exact absurd most (by decide)

end Blueboat.Reentry
