import Blueboat.Json
import Mathlib.Data.List.AList

set_option autoImplicit false

/-! `memory_storage.cpp`. Times are milliseconds of the steady clock. -/
namespace Blueboat

/-- A `std::unordered_map` with string keys. -/
abbrev Dict (β : Type) := AList (fun _ : Str => β)

structure Entry where
  value : Str
  expiresAt : Option ℤ

structure MemoryStorage where
  entries : Dict Entry

namespace MemoryStorage

def threeHours : ℤ := 3 * 60 * 60 * 1000

def expired (now : ℤ) (entry : Entry) : Bool :=
  match entry.expiresAt with
  | none => false
  | some t => t < now

def get (s : MemoryStorage) (now : ℤ) (key : Str) : Option Str :=
  match s.entries.lookup key with
  | none => none
  | some entry => if expired now entry then none else some entry.value

def set (s : MemoryStorage) (now : ℤ) (key value : Str) (noExpiration : Bool) : MemoryStorage :=
  let expiresAt := if noExpiration then none else some (now + threeHours)
  ⟨s.entries.insert key ⟨value, expiresAt⟩⟩

def remove (s : MemoryStorage) (key : Str) : MemoryStorage := ⟨s.entries.erase key⟩

/-- The storage after `fetch_keys`, which erases every expired entry it passes. -/
def purge (s : MemoryStorage) (now : ℤ) : MemoryStorage :=
  ⟨⟨s.entries.entries.filter fun e => !expired now e.2,
    s.entries.nodupKeys.sublist List.filter_sublist⟩⟩

def fetchKeys (s : MemoryStorage) (now : ℤ) (pre : Str) : List Str :=
  (((s.purge now).entries.entries.map Sigma.fst).filter fun key => pre.isPrefixOf key).map
    fun key => key.drop pre.length

theorem lookup_purge (s : MemoryStorage) (now : ℤ) (key : Str) :
    (s.purge now).entries.lookup key = (s.entries.lookup key).filter fun e => !expired now e := by
  apply Option.ext
  intro e
  rw [Option.filter_eq_some_iff]
  have hpurge := AList.mem_lookup_iff (s := (s.purge now).entries) (a := key) (b := e)
  have hs := AList.mem_lookup_iff (s := s.entries) (a := key) (b := e)
  simp only [Option.mem_def] at hpurge hs
  rw [hpurge, hs, purge, List.mem_filter]

@[simp] theorem get_purge (s : MemoryStorage) (now : ℤ) (key : Str) :
    (s.purge now).get now key = s.get now key := by
  unfold get
  rw [lookup_purge]
  cases s.entries.lookup key with
  | none => rfl
  | some e => by_cases h : expired now e = true <;> simp [Option.filter, h]

theorem get_set_self (s : MemoryStorage) (now : ℤ) (key value : Str) (forever : Bool) :
    (s.set now key value forever).get now key = some value := by
  have fresh : ∀ v : Str, expired now ⟨v, some (now + threeHours)⟩ = false := fun v =>
    decide_eq_false (by unfold threeHours; omega)
  cases forever
  · simp [get, set, fresh]
  · simp [get, set, expired]

theorem lookup_set_ne {key key' : Str} (h : key' ≠ key) (s : MemoryStorage) (now : ℤ)
    (value : Str) (forever : Bool) :
    (s.set now key value forever).entries.lookup key' = s.entries.lookup key' :=
  AList.lookup_insert_ne h

theorem get_set_ne {key key' : Str} (h : key' ≠ key) (s : MemoryStorage) (now at' : ℤ)
    (value : Str) (forever : Bool) :
    (s.set now key value forever).get at' key' = s.get at' key' := by
  simp only [get, lookup_set_ne h]

theorem lookup_remove_ne {key key' : Str} (h : key' ≠ key) (s : MemoryStorage) :
    (s.remove key).entries.lookup key' = s.entries.lookup key' :=
  AList.lookup_erase_ne h

theorem lookup_remove_self (s : MemoryStorage) (key : Str) :
    (s.remove key).entries.lookup key = none :=
  AList.lookup_erase key s.entries

theorem get_eq_some {s : MemoryStorage} {now : ℤ} {key value : Str} :
    s.get now key = some value ↔
      ∃ e, s.entries.lookup key = some e ∧ expired now e = false ∧ e.value = value := by
  unfold get
  cases s.entries.lookup key with
  | none => simp
  | some e => by_cases h : expired now e = true <;> simp [h]

theorem mem_fetchKeys {s : MemoryStorage} {now : ℤ} {pre key : Str} :
    key ∈ s.fetchKeys now pre ↔ ∃ value, s.get now (pre ++ key) = some value := by
  unfold fetchKeys
  simp only [List.mem_map, List.mem_filter]
  constructor
  · rintro ⟨k, ⟨⟨e, he, rfl⟩, hpre⟩, rfl⟩
    obtain ⟨t, ht⟩ := List.isPrefixOf_iff_prefix.1 hpre
    refine ⟨e.2.value, ?_⟩
    rw [← ht, List.drop_left, ht, get_eq_some]
    have hmem : e ∈ s.entries.entries ∧ (!expired now e.2) = true := List.mem_filter.1 he
    exact ⟨e.2, AList.mem_lookup_iff.2 hmem.1, by simpa using hmem.2, rfl⟩
  · rintro ⟨value, h⟩
    obtain ⟨e, hl, hexp, -⟩ := get_eq_some.1 h
    refine ⟨pre ++ key, ⟨⟨⟨pre ++ key, e⟩, ?_, rfl⟩, by simp⟩, List.drop_left⟩
    exact List.mem_filter.2 ⟨AList.mem_lookup_iff.1 hl, by simp [hexp]⟩

end MemoryStorage
end Blueboat
