import Blueboat.MemoryStorage

set_option autoImplicit false

/-! Sequences of operations on the storage while the clock runs, against a map that forgets nothing:
there an entry is only no longer visible once its time is over. -/
namespace Blueboat.TimedMap

open MemoryStorage

inductive Op where
  | get (key : Str)
  | set (key value : Str) (noExpiration : Bool)
  | remove (key : Str)
  | fetchKeys (pre : Str)

/-- An operation and what the clock shows while it runs. `fetch_keys` reads the clock once for each
entry that it passes. -/
structure Event where
  op : Op
  first : ℤ
  last : ℤ
  clock : Str → ℤ
  within : ∀ key, first ≤ clock key ∧ clock key ≤ last

inductive Result where
  | value (value : Option Str)
  | done
  | keys (keys : List Str)

def purgeBy (s : MemoryStorage) (clock : Str → ℤ) : MemoryStorage :=
  ⟨⟨s.entries.entries.filter fun e => !expired (clock e.1) e.2,
    s.entries.nodupKeys.sublist List.filter_sublist⟩⟩

def fetchKeysBy (s : MemoryStorage) (clock : Str → ℤ) (pre : Str) : List Str :=
  (((purgeBy s clock).entries.entries.map Sigma.fst).filter fun key => pre.isPrefixOf key).map
    fun key => key.drop pre.length

def step (s : MemoryStorage) (e : Event) : MemoryStorage × Result :=
  match e.op with
  | .get key => (s, .value (s.get (e.clock key) key))
  | .set key value noExpiration => (s.set (e.clock key) key value noExpiration, .done)
  | .remove key => (s.remove key, .done)
  | .fetchKeys pre => (purgeBy s e.clock, .keys (fetchKeysBy s e.clock pre))

def results (s : MemoryStorage) : List Event → List Result
  | [] => []
  | e :: es => (step s e).2 :: results (step s e).1 es

/-- The map that nothing is purged from. -/
abbrev Reference := Str → Option Entry

def visible (a : Reference) (now : ℤ) (key : Str) : Option Str :=
  match a key with
  | none => none
  | some e =>
    match e.expiresAt with
    | none => some e.value
    | some expiry => if now ≤ expiry then some e.value else none

def Reference.step (a : Reference) (e : Event) : Reference :=
  match e.op with
  | .set key value true => Function.update a key (some ⟨value, none⟩)
  | .set key value false => Function.update a key (some ⟨value, some (e.clock key + threeHours)⟩)
  | .remove key => Function.update a key none
  | .get _ | .fetchKeys _ => a

/-- What the reference map answers; the keys may come in any order, each of them once. -/
def Answers (a : Reference) (e : Event) (result : Result) : Prop :=
  match e.op with
  | .get key => result = .value (visible a (e.clock key) key)
  | .set .. | .remove _ => result = .done
  | .fetchKeys pre => ∃ keys, result = .keys keys ∧ keys.Nodup ∧
      ∀ suffix, suffix ∈ keys ↔ (visible a (e.clock (pre ++ suffix)) (pre ++ suffix)).isSome

def Agrees (a : Reference) : List Event → List Result → Prop
  | [], results => results = []
  | _ :: _, [] => False
  | e :: es, result :: results => Answers a e result ∧ Agrees (a.step e) es results

/-- The clock never goes back. -/
def Monotone (events : List Event) : Prop := events.Pairwise fun e e' => e.last ≤ e'.first

/-- With one reading of the clock these are the operations of the model of the storage. -/
theorem fetchKeysBy_const (s : MemoryStorage) (now : ℤ) (pre : Str) :
    purgeBy s (fun _ => now) = s.purge now ∧ fetchKeysBy s (fun _ => now) pre = s.fetchKeys now pre :=
  ⟨rfl, rfl⟩

/-- The storage holds what the reference map does, apart from entries that had expired by `now`. -/
def Refines (now : ℤ) (s : MemoryStorage) (a : Reference) : Prop :=
  ∀ key, s.entries.lookup key = a key ∨
    s.entries.lookup key = none ∧ ∃ e, a key = some e ∧ expired now e = true

theorem expired_later {now now' : ℤ} (le : now ≤ now') {e : Entry} (h : expired now e = true) :
    expired now' e = true := by
  unfold expired at h ⊢
  cases hexp : e.expiresAt with
  | none => rw [hexp] at h; exact h
  | some expiry =>
    rw [hexp] at h
    have before : expiry < now := of_decide_eq_true h
    exact decide_eq_true (by omega)

theorem visible_eq (a : Reference) (now : ℤ) (key : Str) :
    visible a now key = match a key with
      | none => none
      | some e => if expired now e then none else some e.value := by
  unfold visible
  cases a key with
  | none => rfl
  | some e =>
    obtain ⟨value, expiresAt⟩ := e
    cases expiresAt with
    | none => rfl
    | some expiry =>
      by_cases h : now ≤ expiry
      · simp [expired, h]
      · simp [expired, h, Int.not_le.1 h]

theorem Refines.later {now now' : ℤ} {s : MemoryStorage} {a : Reference} (h : Refines now s a)
    (le : now ≤ now') : Refines now' s a := by
  intro key
  rcases h key with same | ⟨absent, e, stored, past⟩
  · exact .inl same
  · exact .inr ⟨absent, e, stored, expired_later le past⟩

theorem Refines.get {now now' : ℤ} {s : MemoryStorage} {a : Reference} (h : Refines now s a)
    (le : now ≤ now') (key : Str) : s.get now' key = visible a now' key := by
  rw [visible_eq, MemoryStorage.get]
  rcases h key with same | ⟨absent, e, stored, past⟩
  · cases found : a key with
    | none => rw [same, found]
    | some e => rw [same, found]
  · rw [absent, stored]
    simp [expired_later le past]

theorem lookup_purgeBy (s : MemoryStorage) (clock : Str → ℤ) (key : Str) :
    (purgeBy s clock).entries.lookup key =
      (s.entries.lookup key).filter fun e => !expired (clock key) e := by
  apply Option.ext
  intro e
  rw [Option.filter_eq_some_iff]
  have purged := AList.mem_lookup_iff (s := (purgeBy s clock).entries) (a := key) (b := e)
  have whole := AList.mem_lookup_iff (s := s.entries) (a := key) (b := e)
  simp only [Option.mem_def] at purged whole
  rw [purged, whole, purgeBy, List.mem_filter]

theorem mem_fetchKeysBy (s : MemoryStorage) (clock : Str → ℤ) (pre suffix : Str) :
    suffix ∈ fetchKeysBy s clock pre ↔ (s.get (clock (pre ++ suffix)) (pre ++ suffix)).isSome := by
  have kept : (∃ e, (purgeBy s clock).entries.lookup (pre ++ suffix) = some e) ↔
      (s.get (clock (pre ++ suffix)) (pre ++ suffix)).isSome := by
    rw [lookup_purgeBy, MemoryStorage.get]
    cases s.entries.lookup (pre ++ suffix) with
    | none => simp
    | some e => by_cases h : expired (clock (pre ++ suffix)) e = true <;> simp [Option.filter, h]
  rw [← kept, fetchKeysBy]
  constructor
  · intro mem
    obtain ⟨key, named, rfl⟩ := List.mem_map.1 mem
    obtain ⟨stored, starts⟩ := List.mem_filter.1 named
    obtain ⟨e, here, rfl⟩ := List.mem_map.1 stored
    obtain ⟨rest, whole⟩ := List.isPrefixOf_iff_prefix.1 starts
    refine ⟨e.2, ?_⟩
    rw [← whole, List.drop_left, whole]
    exact AList.mem_lookup_iff.2 here
  · rintro ⟨e, found⟩
    refine List.mem_map.2 ⟨pre ++ suffix, List.mem_filter.2 ⟨?_, ?_⟩, List.drop_left⟩
    · exact List.mem_map.2 ⟨⟨pre ++ suffix, e⟩, AList.mem_lookup_iff.1 found, rfl⟩
    · exact List.isPrefixOf_iff_prefix.2 (List.prefix_append pre suffix)

/-- Two keys with one prefix differ in what follows it. -/
theorem nodup_fetchKeysBy (s : MemoryStorage) (clock : Str → ℤ) (pre : Str) :
    (fetchKeysBy s clock pre).Nodup := by
  refine List.Nodup.map_on ?_ (List.Nodup.filter _ (purgeBy s clock).entries.nodupKeys)
  intro key hkey key' hkey' same
  obtain ⟨suffix, rfl⟩ := List.isPrefixOf_iff_prefix.1 (List.mem_filter.1 hkey).2
  obtain ⟨suffix', rfl⟩ := List.isPrefixOf_iff_prefix.1 (List.mem_filter.1 hkey').2
  rw [List.drop_left, List.drop_left] at same
  rw [same]

/-- What is erased is not visible any more, now or later. -/
theorem Refines.purge {now now' : ℤ} {s : MemoryStorage} {a : Reference} (h : Refines now s a)
    {clock : Str → ℤ} (within : ∀ key, now ≤ clock key ∧ clock key ≤ now') :
    Refines now' (purgeBy s clock) a := by
  intro key
  rw [lookup_purgeBy]
  have le : now ≤ now' := (within key).1.trans (within key).2
  rcases h key with same | ⟨absent, e, stored, past⟩
  · cases stored : a key with
    | none =>
      rw [same, stored]
      exact .inl rfl
    | some e =>
      rw [same, stored]
      by_cases past : expired (clock key) e = true
      · exact .inr ⟨by simp [Option.filter, past], e, rfl, expired_later (within key).2 past⟩
      · exact .inl (by simp [Option.filter, past])
  · rw [absent]
    exact .inr ⟨rfl, e, stored, expired_later le past⟩

theorem Refines.update {now : ℤ} {s s' : MemoryStorage} {a : Reference} (h : Refines now s a)
    {key : Str} {e : Option Entry} (here : s'.entries.lookup key = e)
    (other : ∀ key', key' ≠ key → s'.entries.lookup key' = s.entries.lookup key') :
    Refines now s' (Function.update a key e) := by
  intro key'
  by_cases same : key' = key
  · subst same
    rw [Function.update_self]
    exact .inl here
  · rw [Function.update_of_ne same, other key' same]
    exact h key'

theorem Refines.step {now : ℤ} {s : MemoryStorage} {a : Reference} (h : Refines now s a) {e : Event}
    (le : now ≤ e.first) :
    Answers a e (TimedMap.step s e).2 ∧ Refines e.last (TimedMap.step s e).1 (a.step e) := by
  have started := h.later le
  have ended : e.first ≤ e.last := (e.within []).1.trans (e.within []).2
  unfold Answers TimedMap.step Reference.step
  cases e.op with
  | get key =>
    refine ⟨?_, started.later ended⟩
    change Result.value _ = _
    rw [started.get (e.within key).1]
  | set key value noExpiration =>
    refine ⟨rfl, ?_⟩
    have other := fun key' (ne : key' ≠ key) =>
      lookup_set_ne ne s (e.clock key) value noExpiration
    cases noExpiration with
    | true => exact (started.later ended).update (AList.lookup_insert s.entries) other
    | false => exact (started.later ended).update (AList.lookup_insert s.entries) other
  | remove key =>
    refine ⟨rfl, (started.later ended).update (lookup_remove_self s key) fun key' ne => ?_⟩
    exact lookup_remove_ne ne s
  | fetchKeys pre =>
    refine ⟨⟨_, rfl, nodup_fetchKeysBy s e.clock pre, fun suffix => ?_⟩, started.purge e.within⟩
    rw [mem_fetchKeysBy, started.get (e.within _).1]

theorem Refines.run {now : ℤ} {s : MemoryStorage} {a : Reference} (h : Refines now s a)
    {events : List Event} (monotone : Monotone events) (le : ∀ e ∈ events, now ≤ e.first) :
    Agrees a events (results s events) := by
  induction events generalizing now s a with
  | nil => rfl
  | cons e es ih =>
    obtain ⟨later, rest⟩ := List.pairwise_cons.1 monotone
    obtain ⟨answers, refines⟩ := h.step (le e List.mem_cons_self)
    exact ⟨answers, ih refines rest later⟩

theorem refines_empty (now : ℤ) : Refines now ⟨∅⟩ fun _ => none := fun _ => .inl rfl

/-- Every run of a fresh storage under a clock that never goes back gives the results of the map that
forgets nothing. -/
theorem results_agree {events : List Event} (monotone : Monotone events) :
    Agrees (fun _ => none) events (results ⟨∅⟩ events) := by
  cases events with
  | nil => rfl
  | cons e es =>
    obtain ⟨later, -⟩ := List.pairwise_cons.1 monotone
    refine (refines_empty e.first).run monotone fun e' mem => ?_
    rcases List.mem_cons.1 mem with rfl | mem
    · exact Int.le_refl _
    · exact ((e.within []).1.trans (e.within []).2).trans (later e' mem)

def atTime (op : Op) (now : ℤ) : Event where
  op := op
  first := now
  last := now
  clock _ := now
  within _ := ⟨Int.le_refl now, Int.le_refl now⟩

/-- An entry is read at its last moment, found expired one millisecond later, purged and set again. -/
def ageing : List Event :=
  [atTime (.set (lit "room:a") (lit "1") false) 0, atTime (.set (lit "b") (lit "2") true) 5,
    atTime (.get (lit "room:a")) threeHours, atTime (.fetchKeys []) (threeHours + 1),
    atTime (.set (lit "room:a") (lit "3") false) (threeHours + 2),
    atTime (.fetchKeys (lit "room:")) (threeHours + 2)]

theorem results_agree_ageing : Agrees (fun _ => none) ageing (results ⟨∅⟩ ageing) :=
  results_agree (by unfold Monotone; decide)

end Blueboat.TimedMap
