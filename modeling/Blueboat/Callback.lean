import Mathlib.Data.List.Basic

set_option autoImplicit false

/-! `Callback::call` while the callbacks clear subscriptions and add entries. The range-for fixes
where `entries_` begins and ends when it is entered; the vector behind it keeps moving. -/
namespace Blueboat.Reentry

/-- `random_id()` is a counter. -/
structure Entry where
  id : ℕ
  once : Bool
  calledOnce : Bool
  deriving DecidableEq, Repr

def Entry.spent (e : Entry) : Bool := e.calledOnce && e.once

theorem ids_modify (entries : List Entry) (slot : ℕ) :
    (entries.modify slot fun e => { e with calledOnce := true }).map Entry.id =
      entries.map Entry.id := by
  refine List.ext_getElem (by simp) fun i _ _ => ?_
  rw [List.getElem_map, List.getElem_modify, List.getElem_map]
  split <;> rfl

/-- The vector `entries_` with its capacity; `storage` counts how often it has been moved. -/
structure Callback where
  entries : List Entry
  capacity : ℕ
  storage : ℕ
  nextId : ℕ
  drawn : ∀ id ∈ entries.map Entry.id, id < nextId
  ordered : (entries.map Entry.id).Pairwise (· < ·)

def Callback.ids (c : Callback) : List ℕ := c.entries.map Entry.id

inductive Action where
  | clear (id : ℕ)
  | add (once : Bool)
  deriving DecidableEq, Repr

section
variable (grow : ℕ → ℕ)

/-- `push_back` moves the vector to a larger storage when its capacity is used up. -/
def Callback.add (c : Callback) (once : Bool) : Callback where
  entries := c.entries ++ [⟨c.nextId, once, false⟩]
  capacity :=
    if c.entries.length < c.capacity then c.capacity
    else max (grow c.capacity) (c.entries.length + 1)
  storage := if c.entries.length < c.capacity then c.storage else c.storage + 1
  nextId := c.nextId + 1
  drawn := by
    intro id hid
    rw [List.map_append, List.mem_append] at hid
    rcases hid with hid | hid
    · exact Nat.lt_succ_of_lt (c.drawn id hid)
    · obtain rfl := List.mem_singleton.1 hid
      exact Nat.lt_succ_self _
  ordered := by
    rw [List.map_append]
    refine List.pairwise_append.2 ⟨c.ordered, List.pairwise_singleton _ _, ?_⟩
    intro i hi j hj
    obtain rfl := List.mem_singleton.1 hj
    exact c.drawn i hi

def Callback.removeIf (c : Callback) (p : Entry → Bool) : Callback where
  entries := c.entries.filter fun e => !p e
  capacity := c.capacity
  storage := c.storage
  nextId := c.nextId
  drawn := fun id hid => c.drawn id ((List.filter_sublist.map _).subset hid)
  ordered := c.ordered.sublist (List.filter_sublist.map _)

def Callback.remove (c : Callback) (id : ℕ) : Callback := c.removeIf fun e => e.id == id

def Callback.removeCalledOnce (c : Callback) : Callback := c.removeIf Entry.spent

def Callback.perform (c : Callback) : Action → Callback
  | .clear id => c.remove id
  | .add once => c.add grow once

def Callback.performAll (c : Callback) (actions : List Action) : Callback :=
  actions.foldl (Callback.perform grow) c

/-- `entry.called_once = true` through the reference of the loop: whatever stands in that slot now.
A write past the end of `entries_`, or into a storage that has been given up, changes no entry. -/
def Callback.mark (c : Callback) (storage slot : ℕ) : Callback where
  entries :=
    if c.storage = storage then c.entries.modify slot fun e => { e with calledOnce := true }
    else c.entries
  capacity := c.capacity
  storage := c.storage
  nextId := c.nextId
  drawn := by
    split
    · rw [ids_modify]
      exact c.drawn
    · exact c.drawn
  ordered := by
    split
    · rw [ids_modify]
      exact c.ordered
    · exact c.ordered

/-- The rest of the loop, `left` slots before the end fixed at its start: the ids of the entries it
invokes. It fails where it reads outside of `entries_`. -/
def callLoop (acts : ℕ → List Action) (storage : ℕ) :
    ℕ → ℕ → Callback → Option (List ℕ × Callback)
  | 0, _, c => some ([], c)
  | left + 1, slot, c =>
    if c.storage = storage then
      match c.entries[slot]? with
      | none => none
      | some entry =>
        if entry.calledOnce && entry.once then callLoop acts storage left (slot + 1) c
        else
          (callLoop acts storage left (slot + 1)
            ((c.performAll grow (acts entry.id)).mark storage slot)).map
            fun rest => (entry.id :: rest.1, rest.2)
    else none

def Callback.call (acts : ℕ → List Action) (c : Callback) : Option (List ℕ × Callback) :=
  (callLoop grow acts c.storage c.entries.length 0 c).map fun r =>
    (r.1, if r.2.entries.any Entry.spent then r.2.removeCalledOnce else r.2)

def Action.cleared : Action → Option ℕ
  | .clear id => some id
  | .add _ => none

/-- The entries of a call in order, less those that an entry invoked before has cleared. -/
def due (acts : ℕ → List Action) : List ℕ → List Entry → List ℕ
  | _, [] => []
  | cleared, e :: rest =>
    if e.spent = true ∨ e.id ∈ cleared then due acts cleared rest
    else
      e.id :: due acts (cleared ++ (acts e.id).filterMap Action.cleared) rest

/-- The call reads no element outside of `entries_` and invokes each entry that was there when it
began and is not removed before its turn, once and in order, and no other. -/
def InvokesDue (acts : ℕ → List Action) (c : Callback) : Prop :=
  ∃ c', c.call grow acts = some (due acts [] c.entries, c')

def actionsBeforeLast (acts : ℕ → List Action) (entries : List Entry) : List Action :=
  (entries.dropLast.filter fun e => !e.spent).flatMap fun e => acts e.id

/-- The entries in front of the last one clear no entry that was there when the call began, and
what they add fits in the capacity of the vector. -/
def Undisturbed (acts : ℕ → List Action) (c : Callback) : Prop :=
  (∀ e ∈ c.entries, .clear e.id ∉ actionsBeforeLast acts c.entries) ∧
    (c.performAll grow (actionsBeforeLast acts c.entries)).storage = c.storage

end

@[simp] theorem ids_mark (c : Callback) (storage slot : ℕ) : (c.mark storage slot).ids = c.ids := by
  unfold Callback.ids Callback.mark
  split
  · exact ids_modify _ _
  · rfl

@[simp] theorem ids_remove (c : Callback) (id : ℕ) :
    (c.remove id).ids = c.ids.filter fun i => !(i == id) := by
  unfold Callback.ids Callback.remove Callback.removeIf
  rw [List.filter_map]
  rfl

section
variable (grow : ℕ → ℕ)

@[simp] theorem ids_add (c : Callback) (once : Bool) :
    (c.add grow once).ids = c.ids ++ [c.nextId] := by
  simp [Callback.ids, Callback.add]

theorem performAll_append (c : Callback) (before actions : List Action) :
    c.performAll grow (before ++ actions) = (c.performAll grow before).performAll grow actions :=
  List.foldl_append

theorem perform_nextId (c : Callback) (a : Action) : c.nextId ≤ (c.perform grow a).nextId := by
  cases a with
  | clear id => exact Nat.le_refl _
  | add once => exact Nat.le_succ _

theorem perform_storage (c : Callback) (a : Action) : c.storage ≤ (c.perform grow a).storage := by
  cases a with
  | clear id => exact Nat.le_refl _
  | add once =>
    change c.storage ≤ if _ then c.storage else c.storage + 1
    split
    · exact Nat.le_refl _
    · exact Nat.le_succ _

/-- What holds of each action holds of a list of them. -/
theorem performAll_induction {P : Callback → Callback → Prop} (refl : ∀ c, P c c)
    (trans : ∀ {c d e}, P c d → P d e → P c e) (c : Callback) (actions : List Action)
    (step : ∀ c, ∀ a ∈ actions, P c (c.perform grow a)) : P c (c.performAll grow actions) := by
  induction actions generalizing c with
  | nil => exact refl c
  | cons a actions ih =>
    exact trans (step c a (List.mem_cons_self ..))
      (ih _ fun d b hb => step d b (List.mem_cons_of_mem _ hb))

theorem performAll_nextId (c : Callback) (actions : List Action) :
    c.nextId ≤ (c.performAll grow actions).nextId :=
  performAll_induction (P := fun c d => c.nextId ≤ d.nextId) grow (fun _ => Nat.le_refl _)
    Nat.le_trans c actions fun c a _ => perform_nextId grow c a

theorem performAll_storage (c : Callback) (actions : List Action) :
    c.storage ≤ (c.performAll grow actions).storage :=
  performAll_induction (P := fun c d => c.storage ≤ d.storage) grow (fun _ => Nat.le_refl _)
    Nat.le_trans c actions fun c a _ => perform_storage grow c a

structure Alike (c d : Callback) : Prop where
  ids : c.ids = d.ids
  capacity : c.capacity = d.capacity
  storage : c.storage = d.storage
  nextId : c.nextId = d.nextId

theorem alike_mark (c : Callback) (storage slot : ℕ) : Alike (c.mark storage slot) c :=
  ⟨ids_mark c storage slot, rfl, rfl, rfl⟩

theorem Alike.perform {c d : Callback} (h : Alike c d) (a : Action) :
    Alike (c.perform grow a) (d.perform grow a) := by
  cases a with
  | clear id =>
    refine ⟨?_, h.capacity, h.storage, h.nextId⟩
    change (c.remove id).ids = (d.remove id).ids
    rw [ids_remove, ids_remove, h.ids]
  | add once =>
    have length : c.entries.length = d.entries.length := by
      simpa [Callback.ids] using congrArg List.length h.ids
    refine ⟨?_, ?_, ?_, congrArg (· + 1) h.nextId⟩
    · change (c.add grow once).ids = (d.add grow once).ids
      rw [ids_add, ids_add, h.ids, h.nextId]
    · simp only [Callback.perform, Callback.add, length, h.capacity]
    · simp only [Callback.perform, Callback.add, length, h.capacity, h.storage]

theorem Alike.performAll {c d : Callback} (h : Alike c d) (actions : List Action) :
    Alike (c.performAll grow actions) (d.performAll grow actions) := by
  induction actions generalizing c d with
  | nil => exact h
  | cons a actions ih => exact ih (h.perform grow a)

/-- At `slot` the loop still sees the entries it began with, `rest` from here on. Entries whose id
is not below `first` were added since. -/
def InStep (first : ℕ) (olds : List ℕ) (slot : ℕ) (rest : List Entry) (c : Callback) : Prop :=
  ∃ done added, c.entries = done ++ (rest ++ added) ∧ done.length = slot ∧
    done.map Entry.id ++ rest.map Entry.id = olds ∧
    ∀ e ∈ added, first ≤ e.id ∧ e.calledOnce = false

theorem filter_ids {entries : List Entry} {id : ℕ} (h : id ∉ entries.map Entry.id) :
    entries.filter (fun e => !(e.id == id)) = entries := by
  refine List.filter_eq_self.2 fun e he => ?_
  have other : e.id ≠ id := fun same => h (same ▸ List.mem_map_of_mem he)
  simpa using other

theorem InStep.perform {first slot : ℕ} {olds : List ℕ} {rest : List Entry} {c : Callback}
    (h : InStep first olds slot rest c) (fresh : first ≤ c.nextId) {a : Action}
    (keeps : ∀ id ∈ olds, a ≠ .clear id) : InStep first olds slot rest (c.perform grow a) := by
  obtain ⟨done, added, entries, length, same, new⟩ := h
  cases a with
  | clear id =>
    have other : id ∉ olds := fun hid => keeps id hid rfl
    rw [← same, List.mem_append, not_or] at other
    refine ⟨done, added.filter fun e => !(e.id == id), ?_, length, same, ?_⟩
    · change c.entries.filter (fun e => !(e.id == id)) = _
      rw [entries, List.filter_append, List.filter_append, filter_ids other.1, filter_ids other.2]
    · exact fun e he => new e (List.mem_of_mem_filter he)
  | add once =>
    refine ⟨done, added ++ [⟨c.nextId, once, false⟩], ?_, length, same, ?_⟩
    · change c.entries ++ [_] = _
      rw [entries, List.append_assoc, List.append_assoc]
    · intro e he
      rcases List.mem_append.1 he with he | he
      · exact new e he
      · obtain rfl := List.mem_singleton.1 he
        exact ⟨fresh, rfl⟩

theorem InStep.performAll {first slot : ℕ} {olds : List ℕ} {rest : List Entry} {c : Callback}
    (h : InStep first olds slot rest c) (fresh : first ≤ c.nextId) {actions : List Action}
    (keeps : ∀ id ∈ olds, .clear id ∉ actions) :
    InStep first olds slot rest (c.performAll grow actions) := by
  induction actions generalizing c with
  | nil => exact h
  | cons a actions ih =>
    refine ih (h.perform grow fresh fun id hid same => keeps id hid ?_)
      (Nat.le_trans fresh (perform_nextId grow c a)) fun id hid hin => keeps id hid ?_
    · exact same ▸ List.mem_cons_self ..
    · exact List.mem_cons_of_mem _ hin

/-- The entry the loop stands at is marked and the loop moves on. -/
theorem InStep.mark {first slot : ℕ} {olds : List ℕ} {e : Entry} {rest : List Entry} {c : Callback}
    (h : InStep first olds slot (e :: rest) c) :
    InStep first olds (slot + 1) rest (c.mark c.storage slot) := by
  obtain ⟨done, added, entries, rfl, same, new⟩ := h
  refine ⟨done ++ [{ e with calledOnce := true }], added, ?_, by simp, by simpa using same, new⟩
  simp only [Callback.mark, if_true, entries]
  rw [List.modify_eq_take_cons_drop (by simp)]
  simp

theorem InStep.advance {first slot : ℕ} {olds : List ℕ} {e : Entry} {rest : List Entry}
    {c : Callback} (h : InStep first olds slot (e :: rest) c) :
    InStep first olds (slot + 1) rest c := by
  obtain ⟨done, added, entries, rfl, same, new⟩ := h
  exact ⟨done ++ [e], added, by simpa using entries, by simp, by simpa using same, new⟩

theorem InStep.read {first slot : ℕ} {olds : List ℕ} {e : Entry} {rest : List Entry} {c : Callback}
    (h : InStep first olds slot (e :: rest) c) : c.entries[slot]? = some e := by
  obtain ⟨done, added, entries, rfl, -, -⟩ := h
  simp [entries]

/-- Fewer than `total` of the entries the call began with are left, and those added since have not
been called from `slot` on. -/
structure Behind (first total slot : ℕ) (c : Callback) : Prop where
  fresh : first ≤ c.nextId
  fewer : (c.ids.filter (· < first)).length < total
  unmarked : ∀ e ∈ c.entries.drop slot, first ≤ e.id → e.calledOnce = false

theorem perform_olds {first : ℕ} {c : Callback} (fresh : first ≤ c.nextId) (a : Action) :
    ((c.perform grow a).ids.filter (· < first)).Sublist (c.ids.filter (· < first)) := by
  cases a with
  | clear id =>
    change ((c.remove id).ids.filter _).Sublist _
    rw [ids_remove]
    exact List.filter_sublist.filter _
  | add once =>
    change ((c.add grow once).ids.filter _).Sublist _
    rw [ids_add, List.filter_append]
    simp [Nat.not_lt.2 fresh]

theorem performAll_olds {first : ℕ} {c : Callback} (fresh : first ≤ c.nextId)
    (actions : List Action) :
    ((c.performAll grow actions).ids.filter (· < first)).Sublist (c.ids.filter (· < first)) := by
  induction actions generalizing c with
  | nil => exact .refl _
  | cons a actions ih =>
    exact (ih (Nat.le_trans fresh (perform_nextId grow c a))).trans (perform_olds grow fresh a)

theorem Behind.perform {first total slot : ℕ} {c : Callback} (h : Behind first total slot c)
    (a : Action) : Behind first total slot (c.perform grow a) := by
  refine ⟨Nat.le_trans h.fresh (perform_nextId grow c a),
    Nat.lt_of_le_of_lt (perform_olds grow h.fresh a).length_le h.fewer, ?_⟩
  intro e he new
  cases a with
  | clear id => exact h.unmarked e ((List.filter_sublist.drop slot).subset he) new
  | add once =>
    change e ∈ (c.entries ++ [_]).drop slot at he
    rw [List.drop_append] at he
    rcases List.mem_append.1 he with he | he
    · exact h.unmarked e he new
    · obtain rfl := List.mem_singleton.1 (List.mem_of_mem_drop he)
      rfl

theorem Behind.performAll {first total slot : ℕ} {c : Callback} (h : Behind first total slot c)
    (actions : List Action) : Behind first total slot (c.performAll grow actions) := by
  induction actions generalizing c with
  | nil => exact h
  | cons a actions ih => exact ih (h.perform grow a)

theorem Behind.advance {first total slot : ℕ} {c : Callback} (h : Behind first total slot c) :
    Behind first total (slot + 1) c := by
  refine ⟨h.fresh, h.fewer, fun e he => h.unmarked e ?_⟩
  rw [← List.drop_drop] at he
  exact List.mem_of_mem_drop he

theorem Behind.mark {first total slot : ℕ} {c : Callback} (h : Behind first total slot c)
    (storage : ℕ) : Behind first total (slot + 1) (c.mark storage slot) := by
  refine ⟨h.fresh, by rw [ids_mark]; exact h.fewer, ?_⟩
  unfold Callback.mark
  split
  · rw [List.drop_modify_of_lt _ _ _ _ (Nat.lt_succ_self slot)]
    exact h.advance.unmarked
  · exact h.advance.unmarked

/-- The entries the call began with come first, so that fewer than `slot + 1` of them do not reach
up to `slot`. -/
theorem Behind.beyond {first slot : ℕ} {c : Callback} (h : Behind first (slot + 1) slot c)
    {e : Entry} (read : c.entries[slot]? = some e) : first ≤ e.id := by
  refine Nat.not_lt.1 fun old => ?_
  obtain ⟨hslot, rfl⟩ := List.getElem?_eq_some_iff.1 read
  have olds : ∀ id ∈ c.ids.take (slot + 1), id < first := by
    intro id hid
    obtain ⟨i, hi, rfl⟩ := List.getElem_of_mem hid
    rw [List.getElem_take]
    have hi : i < slot + 1 := by simp at hi; omega
    rcases Nat.lt_or_ge i slot with before | there
    · have lower := List.pairwise_iff_getElem.1 c.ordered i slot
        (by simp; omega) (by simpa using hslot) before
      rw [List.getElem_map (f := Entry.id) (l := c.entries) (i := slot)] at lower
      exact Nat.lt_trans lower old
    · obtain rfl : i = slot := by omega
      simpa [Callback.ids] using old
  have filtered : (c.ids.take (slot + 1)).filter (· < first) = c.ids.take (slot + 1) :=
    List.filter_eq_self.2 fun id hid => by simpa using olds id hid
  have kept : (c.ids.take (slot + 1)).Sublist (c.ids.filter (· < first)) := by
    rw [← filtered]
    exact (List.take_sublist _ _).filter _
  have length : (c.ids.take (slot + 1)).length = slot + 1 := by
    simp [Callback.ids]; omega
  have := kept.length_le
  have := h.fewer
  omega

/-- A loop that is behind fails or ends up at an entry that was added since it began. -/
theorem Behind.invokes {first : ℕ} (acts : ℕ → List Action) (storage : ℕ) {left slot : ℕ}
    {c : Callback} (h : Behind first (slot + left) slot c) (more : 0 < left)
    {r : List ℕ × Callback} (done : callLoop grow acts storage left slot c = some r) :
    ∃ id ∈ r.1, first ≤ id := by
  induction left generalizing slot c r with
  | zero => exact absurd more (Nat.lt_irrefl 0)
  | succ left ih =>
    rw [callLoop] at done
    split at done
    · split at done
      · cases done
      · rename_i e read
        have total : slot + (left + 1) = slot + 1 + left := by omega
        rw [total] at h
        split at done
        · rename_i spent
          rcases Nat.eq_zero_or_pos left with rfl | more
          · have marked := h.unmarked e (List.mem_of_getElem? (i := 0) (by simpa using read))
              (h.beyond read)
            simp [marked] at spent
          · exact ih h.advance more done
        · obtain ⟨rest, loop, rfl⟩ := Option.map_eq_some_iff.1 done
          rcases Nat.eq_zero_or_pos left with rfl | more
          · exact ⟨e.id, List.mem_cons_self .., h.beyond read⟩
          · obtain ⟨id, hid, new⟩ := ih ((h.performAll grow _).mark storage) more loop
            exact ⟨id, List.mem_cons_of_mem _ hid, new⟩
    · cases done

theorem absent_perform {id : ℕ} {c : Callback} (drawn : id < c.nextId) (h : id ∉ c.ids)
    (a : Action) : id ∉ (c.perform grow a).ids := by
  cases a with
  | clear other =>
    change id ∉ (c.remove other).ids
    rw [ids_remove]
    exact fun hin => h (List.mem_of_mem_filter hin)
  | add once =>
    change id ∉ (c.add grow once).ids
    rw [ids_add, List.mem_append, List.mem_singleton, not_or]
    exact ⟨h, Nat.ne_of_lt drawn⟩

theorem absent_performAll {id : ℕ} {c : Callback} (drawn : id < c.nextId) (h : id ∉ c.ids)
    (actions : List Action) : id ∉ (c.performAll grow actions).ids := by
  induction actions generalizing c with
  | nil => exact h
  | cons a actions ih =>
    exact ih (Nat.lt_of_lt_of_le drawn (perform_nextId grow c a)) (absent_perform grow drawn h a)

/-- A subscription that has been cleared does not come back. -/
theorem cleared_performAll {id : ℕ} {c : Callback} (drawn : id < c.nextId) {actions : List Action}
    (cleared : .clear id ∈ actions) : id ∉ (c.performAll grow actions).ids := by
  induction actions generalizing c with
  | nil => cases cleared
  | cons a actions ih =>
    have drawn' := Nat.lt_of_lt_of_le drawn (perform_nextId grow c a)
    rcases List.mem_cons.1 cleared with rfl | cleared
    · refine absent_performAll grow drawn' ?_ actions
      change id ∉ (c.remove id).ids
      rw [ids_remove]
      exact fun hin => by simpa using List.of_mem_filter hin
    · exact ih drawn' cleared

theorem InStep.olds_eq {first slot : ℕ} {olds : List ℕ} {rest : List Entry} {c : Callback}
    (h : InStep first olds slot rest c) (lower : ∀ id ∈ olds, id < first) :
    c.ids.filter (· < first) = olds := by
  obtain ⟨done, added, entries, -, same, new⟩ := h
  have ids : c.ids = olds ++ added.map Entry.id := by
    simp [Callback.ids, entries, ← same]
  rw [ids, List.filter_append, List.filter_eq_self.2 fun id hid => by simpa using lower id hid,
    List.filter_eq_nil_iff.2, List.append_nil]
  intro id hid
  obtain ⟨e, he, rfl⟩ := List.mem_map.1 hid
  have := (new e he).1
  simp; omega

theorem InStep.total {first slot : ℕ} {olds : List ℕ} {rest : List Entry} {c : Callback}
    (h : InStep first olds slot rest c) : slot + rest.length = olds.length := by
  obtain ⟨done, added, -, rfl, rfl, -⟩ := h
  simp

theorem InStep.drop {first slot : ℕ} {olds : List ℕ} {rest : List Entry} {c : Callback}
    (h : InStep first olds slot rest c) (e : Entry) (he : e ∈ c.entries.drop slot)
    (lower : ∀ id ∈ olds, id < first) (new : first ≤ e.id) : e.calledOnce = false := by
  obtain ⟨done, added, entries, rfl, rfl, fresh⟩ := h
  rw [entries, List.drop_left] at he
  rcases List.mem_append.1 he with old | he
  · have := lower e.id (List.mem_append_right _ (List.mem_map_of_mem old))
    omega
  · exact (fresh e he).2

/-- Once one of the entries the call began with has been cleared, the loop is behind. -/
theorem InStep.behind {first slot : ℕ} {olds : List ℕ} {rest : List Entry} {c : Callback}
    (h : InStep first olds slot rest c) (lower : ∀ id ∈ olds, id < first)
    (fresh : first ≤ c.nextId) {actions : List Action} {id : ℕ} (old : id ∈ olds)
    (cleared : .clear id ∈ actions) :
    Behind first (slot + rest.length) slot (c.performAll grow actions) := by
  have start : Behind first (slot + rest.length + 1) slot c := by
    refine ⟨fresh, ?_, fun e he new => h.drop e he lower new⟩
    rw [h.olds_eq lower, h.total]
    exact Nat.lt_succ_self _
  refine ⟨(start.performAll grow actions).fresh, ?_, (start.performAll grow actions).unmarked⟩
  have sub := performAll_olds grow fresh actions
  rw [h.olds_eq lower] at sub
  rw [h.total]
  refine Nat.lt_of_le_of_ne sub.length_le fun same => ?_
  have present := sub.eq_of_length same ▸ old
  exact cleared_performAll grow (Nat.lt_of_lt_of_le (lower id old) fresh) cleared
    (List.mem_of_mem_filter present)

end

theorem actionsBeforeLast_spent (acts : ℕ → List Action) {e : Entry} (spent : e.spent = true)
    (rest : List Entry) : actionsBeforeLast acts (e :: rest) = actionsBeforeLast acts rest := by
  cases rest with
  | nil => rfl
  | cons d rest => simp [actionsBeforeLast, spent]

theorem actionsBeforeLast_cons (acts : ℕ → List Action) {e : Entry} (spent : e.spent = false)
    (d : Entry) (rest : List Entry) :
    actionsBeforeLast acts (e :: d :: rest) = acts e.id ++ actionsBeforeLast acts (d :: rest) := by
  simp [actionsBeforeLast, spent]

theorem mem_due {acts : ℕ → List Action} {cleared : List ℕ} {entries : List Entry} {id : ℕ}
    (h : id ∈ due acts cleared entries) : id ∈ entries.map Entry.id := by
  induction entries generalizing cleared with
  | nil => cases h
  | cons e rest ih =>
    rw [due] at h
    split at h
    · exact List.mem_cons_of_mem _ (ih h)
    · rcases List.mem_cons.1 h with rfl | h
      · exact List.mem_cons_self ..
      · exact List.mem_cons_of_mem _ (ih h)

section
variable (grow : ℕ → ℕ) (acts : ℕ → List Action)

theorem callLoop_moved {storage left slot : ℕ} {c : Callback} (moved : c.storage ≠ storage)
    (more : 0 < left) : callLoop grow acts storage left slot c = none := by
  obtain ⟨left, rfl⟩ := Nat.exists_eq_succ_of_ne_zero (Nat.ne_of_gt more)
  rw [callLoop, if_neg moved]

def Careful (olds : List ℕ) (c : Callback) (actions : List Action) : Prop :=
  (∀ id ∈ olds, .clear id ∉ actions) ∧ (c.performAll grow actions).storage = c.storage

theorem careful_append {olds : List ℕ} {c : Callback} {before actions : List Action} :
    Careful grow olds c (before ++ actions) ↔
      Careful grow olds c before ∧ Careful grow olds (c.performAll grow before) actions := by
  unfold Careful
  rw [performAll_append]
  have moves := performAll_storage grow c before
  have moves' := performAll_storage grow (c.performAll grow before) actions
  constructor
  · rintro ⟨keeps, stays⟩
    refine ⟨⟨fun id hid hin => keeps id hid (List.mem_append_left _ hin), by omega⟩,
      fun id hid hin => keeps id hid (List.mem_append_right _ hin), by omega⟩
  · rintro ⟨⟨keeps, stays⟩, keeps', stays'⟩
    refine ⟨fun id hid hin => ?_, stays'.trans stays⟩
    rcases List.mem_append.1 hin with hin | hin
    · exact keeps id hid hin
    · exact keeps' id hid hin

theorem Alike.careful {olds : List ℕ} {c d : Callback} (h : Alike c d) (actions : List Action) :
    Careful grow olds c actions ↔ Careful grow olds d actions := by
  unfold Careful
  rw [(h.performAll grow actions).storage, h.storage]

theorem map_cons_iff {loop : Option (List ℕ × Callback)} {id : ℕ} {ids : List ℕ} :
    (∃ c', loop.map (fun rest => (id :: rest.1, rest.2)) = some (id :: ids, c')) ↔
      ∃ c', loop = some (ids, c') := by
  cases loop with
  | none => simp
  | some r => simp [Prod.ext_iff]

theorem clear_of_cleared {actions : List Action} {id : ℕ}
    (h : id ∈ actions.filterMap Action.cleared) : .clear id ∈ actions := by
  obtain ⟨a, ha, cleared⟩ := List.mem_filterMap.1 h
  cases a with
  | clear other => exact Option.some.inj cleared ▸ ha
  | add once => cases cleared

/-- From a slot at which the loop is in step, it invokes what is due and nothing else exactly when
the entries in front of the last one are careful. -/
theorem callLoop_iff {first : ℕ} {olds cleared : List ℕ} (lower : ∀ id ∈ olds, id < first)
    {rest : List Entry} {slot : ℕ} {c : Callback} (h : InStep first olds slot rest c)
    (fresh : first ≤ c.nextId) (other : ∀ id ∈ olds, id ∉ cleared) :
    (∃ c', callLoop grow acts c.storage rest.length slot c = some (due acts cleared rest, c')) ↔
      Careful grow olds c (actionsBeforeLast acts rest) := by
  induction rest generalizing slot c cleared with
  | nil => exact ⟨fun _ => ⟨fun _ _ => List.not_mem_nil, rfl⟩, fun _ => ⟨c, rfl⟩⟩
  | cons e rest ih =>
    have present : e.id ∈ olds := by
      obtain ⟨done, added, -, -, rfl, -⟩ := h
      simp
    rw [List.length_cons, callLoop, if_pos rfl, h.read]
    change (∃ c', (if e.spent = true then _ else _) = _) ↔ _
    rw [due]
    by_cases spent : e.spent = true
    · rw [if_pos spent, if_pos (.inl spent), actionsBeforeLast_spent acts spent]
      exact ih h.advance fresh other
    rw [if_neg spent, if_neg (not_or.2 ⟨spent, other e.id present⟩), map_cons_iff]
    cases rest with
    | nil =>
      exact ⟨fun _ => ⟨fun _ _ => List.not_mem_nil, rfl⟩, fun _ => ⟨_, rfl⟩⟩
    | cons d rest =>
      rw [actionsBeforeLast_cons acts (Bool.eq_false_iff.2 spent), careful_append]
      have alike := alike_mark (c.performAll grow (acts e.id)) c.storage slot
      have fresh' := Nat.le_trans fresh (performAll_nextId grow c (acts e.id))
      by_cases moved : (c.performAll grow (acts e.id)).storage ≠ c.storage
      · rw [callLoop_moved grow acts (alike.storage.trans_ne moved) (List.length_pos_of_mem
          (List.mem_cons_self ..))]
        exact ⟨fun ⟨_, h⟩ => (nomatch h), fun both => absurd both.1.2 moved⟩
      have stays := not_not.1 moved
      by_cases keeps : ∀ id ∈ olds, .clear id ∉ acts e.id
      · have next := (h.performAll grow fresh keeps).mark
        rw [stays] at next
        have other' : ∀ id ∈ olds, id ∉ cleared ++ (acts e.id).filterMap Action.cleared := by
          intro id hid hin
          rcases List.mem_append.1 hin with hin | hin
          · exact other id hid hin
          · exact keeps id hid (clear_of_cleared hin)
        have rest_iff := ih next fresh' other'
        rw [alike.storage, stays] at rest_iff
        rw [rest_iff, alike.careful grow]
        exact ⟨fun rest => ⟨⟨keeps, stays⟩, rest⟩, And.right⟩
      · refine ⟨fun ⟨c', loop⟩ => ?_, fun both => absurd both.1.1 keeps⟩
        obtain ⟨id, old, gone⟩ : ∃ id ∈ olds, .clear id ∈ acts e.id := by simpa using keeps
        -- The due entries are among those the call began with, and the loop invokes another one.
        have behind := (h.behind grow lower fresh old gone).mark c.storage
        have total : slot + (e :: d :: rest).length = slot + 1 + (d :: rest).length := by
          simp only [List.length_cons]
          omega
        rw [total] at behind
        obtain ⟨new, invoked, beyond⟩ := behind.invokes grow acts c.storage (Nat.succ_pos _) loop
        have among : new ∈ olds := by
          obtain ⟨done, added, -, -, rfl, -⟩ := h
          exact List.mem_append_right _ (List.mem_cons_of_mem _ (mem_due invoked))
        have := lower new among
        omega

/-- A call invokes the entries that are due, and reads nothing outside of `entries_`, exactly when
it leaves the entries it began with in place up to the last one. -/
theorem call_iff (c : Callback) : InvokesDue grow acts c ↔ Undisturbed grow acts c := by
  have start : InStep c.nextId c.ids 0 c.entries c :=
    ⟨[], [], by simp, rfl, rfl, fun _ h => nomatch h⟩
  have lower : ∀ id ∈ c.ids, id < c.nextId := c.drawn
  have loop := callLoop_iff grow acts lower start (Nat.le_refl _) fun _ _ => List.not_mem_nil
  have careful : Careful grow c.ids c (actionsBeforeLast acts c.entries) ↔
      Undisturbed grow acts c := by
    refine and_congr_left fun _ => ?_
    simp [Callback.ids]
  rw [← careful, ← loop]
  unfold InvokesDue Callback.call
  cases callLoop grow acts c.storage c.entries.length 0 c with
  | none => simp
  | some r => simp [Prod.ext_iff]

end

/-- A wait of a room for a member: an entry that clears its own subscription. -/
def ownSubscription (id : ℕ) : List Action := [.clear id]

def waits : Callback where
  entries := [⟨0, false, false⟩, ⟨1, false, false⟩]
  capacity := 2
  storage := 0
  nextId := 2
  drawn := by decide
  ordered := by decide

/-- The first of two waits is resolved, the second one is passed over, and the loop reads the slot
past the end of `entries_`. -/
theorem call_waits :
    ¬ ∀ (grow : ℕ → ℕ) (acts : ℕ → List Action) (c : Callback), InvokesDue grow acts c := by
  intro h
  obtain ⟨c', eq⟩ := h (2 * ·) ownSubscription waits
  have : waits.call (2 * ·) ownSubscription = none := by decide
  rw [this] at eq
  cases eq

end Blueboat.Reentry
