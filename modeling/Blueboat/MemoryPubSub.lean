import Blueboat.MemoryStorage

set_option autoImplicit false

/-! `memory_pubsub.cpp`, over any type of handlers. A listener's random id is a number here. -/
namespace Blueboat

structure Listener (H : Type) where
  id : ℕ
  handler : H
  deriving DecidableEq

structure PubSub (H : Type) where
  listeners : Dict (List (Listener H))

namespace PubSub
variable {H : Type}

def empty : PubSub H := ⟨∅⟩

/-- The listeners that `publish` copies. -/
def listenersOf (ps : PubSub H) (key : Str) : List (Listener H) :=
  match ps.listeners.lookup key with
  | none => []
  | some listeners => listeners

def on (ps : PubSub H) (key : Str) (id : ℕ) (handler : H) : PubSub H :=
  ⟨ps.listeners.insert key (ps.listenersOf key ++ [⟨id, handler⟩])⟩

def unsubscribe (ps : PubSub H) (key : Str) (id : ℕ) : PubSub H :=
  match ps.listeners.lookup key with
  | none => ps
  | some listeners =>
    match listeners.filter fun l => l.id != id with
    | [] => ⟨ps.listeners.erase key⟩
    | left => ⟨ps.listeners.insert key left⟩

@[simp] theorem listenersOf_empty (key : Str) : (empty : PubSub H).listenersOf key = [] := by
  simp [empty, listenersOf]

@[simp] theorem listenersOf_on_self (ps : PubSub H) (key : Str) (id : ℕ) (handler : H) :
    (ps.on key id handler).listenersOf key = ps.listenersOf key ++ [⟨id, handler⟩] := by
  rw [listenersOf, on]
  simp only [AList.lookup_insert]

theorem listenersOf_on_ne {key key' : Str} (h : key' ≠ key) (ps : PubSub H) (id : ℕ)
    (handler : H) : (ps.on key id handler).listenersOf key' = ps.listenersOf key' := by
  simp only [listenersOf, on, AList.lookup_insert_ne h]

@[simp] theorem listenersOf_unsubscribe_self (ps : PubSub H) (key : Str) (id : ℕ) :
    (ps.unsubscribe key id).listenersOf key = (ps.listenersOf key).filter fun l => l.id != id := by
  unfold unsubscribe
  cases hl : ps.listeners.lookup key with
  | none => simp [listenersOf, hl]
  | some listeners =>
    have hof : ps.listenersOf key = listeners := by simp [listenersOf, hl]
    rw [hof]
    cases hf : listeners.filter fun l => l.id != id with
    | nil => simp [listenersOf, hf]
    | cons l ls => simp [listenersOf, hf]

theorem listenersOf_unsubscribe_ne {key key' : Str} (h : key' ≠ key) (ps : PubSub H) (id : ℕ) :
    (ps.unsubscribe key id).listenersOf key' = ps.listenersOf key' := by
  unfold unsubscribe
  split
  · rfl
  · split
    · simp only [listenersOf, AList.lookup_erase_ne h]
    · simp only [listenersOf, AList.lookup_insert_ne h]

theorem mem_listenersOf_on {ps : PubSub H} {key key' : Str} {id : ℕ} {handler : H}
    {l : Listener H} : l ∈ (ps.on key id handler).listenersOf key' ↔
      l ∈ ps.listenersOf key' ∨ (key' = key ∧ l = ⟨id, handler⟩) := by
  by_cases h : key' = key
  · subst h; simp
  · simp [listenersOf_on_ne h, h]

theorem mem_listenersOf_unsubscribe {ps : PubSub H} {key key' : Str} {id : ℕ} {l : Listener H} :
    l ∈ (ps.unsubscribe key id).listenersOf key' ↔
      l ∈ ps.listenersOf key' ∧ (key' = key → l.id ≠ id) := by
  by_cases h : key' = key
  · subst h; simp
  · simp [listenersOf_unsubscribe_ne h, h]

theorem nodup_on {ps : PubSub H} {key key' : Str} {id : ℕ} {handler : H}
    (h : ((ps.listenersOf key').map Listener.id).Nodup)
    (fresh : ∀ l ∈ ps.listenersOf key', l.id ≠ id) :
    (((ps.on key id handler).listenersOf key').map Listener.id).Nodup := by
  by_cases hkey : key' = key
  · subst hkey
    rw [listenersOf_on_self, List.map_append, List.nodup_append]
    refine ⟨h, List.nodup_singleton _, ?_⟩
    rintro i hi _ hid rfl
    obtain ⟨l, hl, rfl⟩ := List.mem_map.1 hi
    exact fresh l hl (List.mem_singleton.1 hid)
  · rwa [listenersOf_on_ne hkey]

theorem nodup_unsubscribe {ps : PubSub H} {key key' : Str} {id : ℕ}
    (h : ((ps.listenersOf key').map Listener.id).Nodup) :
    (((ps.unsubscribe key id).listenersOf key').map Listener.id).Nodup := by
  by_cases hkey : key' = key
  · subst hkey
    rw [listenersOf_unsubscribe_self]
    exact h.sublist (List.filter_sublist.map _)
  · rwa [listenersOf_unsubscribe_ne hkey]

end PubSub
end Blueboat
