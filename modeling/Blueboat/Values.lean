import Blueboat.Library.Machine
import Blueboat.Snapshots

set_option autoImplicit false

/-! `GameValues` over sequences of calls, and over interleavings of the two storage calls that each
`set` makes. -/
namespace Blueboat

/-! A value is changed by its first pass through text and by no later one. -/

theorem reread_obj {fields : List (Str × Json)}
    (sorted : (fields.map Prod.fst).Pairwise (· < ·)) :
    (Json.obj fields).reread = .obj (fields.map fun f => (f.1, f.2.reread)) := by
  rw [Json.reread, rereadFields_ordered (by simpa using sorted)]
  rfl

theorem orderedFields_iff {fields : List (Str × Json)} :
    Json.orderedFields fields = true ↔ ∀ f ∈ fields, f.2.ordered = true := by
  refine ⟨orderedFields_mem, fun h => ?_⟩
  induction fields with
  | nil => rfl
  | cons f fields ih =>
    obtain ⟨k, x⟩ := f
    rw [Json.orderedFields, Bool.and_eq_true]
    exact ⟨h (k, x) List.mem_cons_self, ih fun f hf => h f (List.mem_cons_of_mem _ hf)⟩

theorem ordered_obj {fields : List (Str × Json)} : (Json.obj fields).ordered = true ↔
    (fields.map Prod.fst).Pairwise (· < ·) ∧ ∀ f ∈ fields, f.2.ordered = true := by
  rw [Json.ordered, Bool.and_eq_true, decide_eq_true_eq, orderedFields_iff]

theorem ordered_arr {xs : List Json} :
    (Json.arr xs).ordered = true ↔ ∀ x ∈ xs, x.ordered = true := by
  rw [Json.ordered]
  refine ⟨orderedList_mem, fun h => ?_⟩
  induction xs with
  | nil => rfl
  | cons x xs ih =>
    rw [Json.orderedList, Bool.and_eq_true]
    exact ⟨h x List.mem_cons_self, ih fun y hy => h y (List.mem_cons_of_mem _ hy)⟩

theorem rereadList_eq (xs : List Json) : Json.rereadList xs = xs.map Json.reread := by
  induction xs with
  | nil => rfl
  | cons x xs ih => rw [Json.rereadList, ih, List.map_cons]

theorem keys_reread (fields : List (Str × Json)) :
    (fields.map fun f => (f.1, f.2.reread)).map Prod.fst = fields.map Prod.fst := by
  rw [List.map_map]
  rfl

theorem ordered_reread {j : Json} (h : j.ordered = true) : j.reread.ordered = true := by
  induction j using Json.induction with
  | int n => unfold Json.reread; split_ifs <;> rfl
  | float bits => unfold Json.reread; split_ifs <;> rfl
  | null | bool b | uint n | str s => rfl
  | arr xs ih =>
    rw [Json.reread, rereadList_eq, ordered_arr]
    intro y hy
    obtain ⟨x, hx, rfl⟩ := List.mem_map.1 hy
    exact ih x hx (ordered_arr.1 h x hx)
  | obj fields ih =>
    obtain ⟨sorted, inner⟩ := ordered_obj.1 h
    rw [reread_obj sorted, ordered_obj, keys_reread]
    refine ⟨sorted, fun g hg => ?_⟩
    obtain ⟨f, hf, rfl⟩ := List.mem_map.1 hg
    exact ih f hf (inner f hf)

theorem reread_reread {j : Json} (h : j.ordered = true) : j.reread.reread = j.reread := by
  induction j using Json.induction with
  | int n =>
    by_cases sign : 0 ≤ n
    · simp [Json.reread, sign]
    · simp [Json.reread, sign]
  | float bits =>
    by_cases finite : Json.finite bits = true
    · simp [Json.reread, finite]
    · simp [Json.reread, finite]
  | null | bool b | uint n | str s => rfl
  | arr xs ih =>
    rw [Json.reread, rereadList_eq, Json.reread, rereadList_eq, List.map_map]
    refine congrArg Json.arr (List.map_congr_left fun x hx => ?_)
    exact ih x hx (ordered_arr.1 h x hx)
  | obj fields ih =>
    obtain ⟨sorted, inner⟩ := ordered_obj.1 h
    rw [reread_obj sorted, reread_obj (by rw [keys_reread]; exact sorted), List.map_map]
    refine congrArg Json.obj (List.map_congr_left fun f hf => ?_)
    exact congrArg (Prod.mk f.1) (ih f hf (inner f hf))

theorem isObject_reread (j : Json) : j.reread.isObject = j.isObject := by
  cases j with
  | int n => unfold Json.reread; split_ifs <;> rfl
  | float bits => unfold Json.reread; split_ifs <;> rfl
  | null | bool b | uint n | str s | arr xs | obj fields => rfl

theorem keys_assign (k : Str) (v : Json) (fields : List (Str × Json)) {k' : Str}
    (mem : k' ∈ (Json.assign k v fields).map Prod.fst) : k' = k ∨ k' ∈ fields.map Prod.fst := by
  induction fields with
  | nil => exact .inl (List.mem_singleton.1 mem)
  | cons f fields ih =>
    obtain ⟨a, x⟩ := f
    unfold Json.assign at mem
    split_ifs at mem with same lt
    · subst same
      exact .inr mem
    · exact List.mem_cons.1 mem
    · rcases List.mem_cons.1 mem with rfl | mem
      · exact .inr List.mem_cons_self
      · exact (ih mem).imp_right (List.mem_cons_of_mem _)

theorem sorted_assign (k : Str) (v : Json) {fields : List (Str × Json)}
    (sorted : (fields.map Prod.fst).Pairwise (· < ·)) :
    ((Json.assign k v fields).map Prod.fst).Pairwise (· < ·) := by
  induction fields with
  | nil => exact List.pairwise_singleton _ _
  | cons f fields ih =>
    obtain ⟨a, x⟩ := f
    obtain ⟨first, rest⟩ := List.pairwise_cons.1 sorted
    unfold Json.assign
    split_ifs with same lt
    · subst same
      exact sorted
    · refine List.pairwise_cons.2 ⟨fun b hb => ?_, sorted⟩
      rcases List.mem_cons.1 hb with rfl | hb
      · exact lt
      · exact List.lt_trans lt (first b hb)
    · refine List.pairwise_cons.2 ⟨fun b hb => ?_, ih rest⟩
      rcases keys_assign k v fields hb with rfl | hb
      · exact Std.lt_of_le_of_ne lt (Ne.symm same)
      · exact first b hb

theorem ordered_assign {k : Str} {v : Json} {fields : List (Str × Json)}
    (value : v.ordered = true) (h : (Json.obj fields).ordered = true) :
    (Json.obj (Json.assign k v fields)).ordered = true := by
  obtain ⟨sorted, inner⟩ := ordered_obj.1 h
  refine ordered_obj.2 ⟨sorted_assign k v sorted, ?_⟩
  clear sorted h
  induction fields with
  | nil =>
    intro f hf
    rw [List.mem_singleton.1 hf]
    exact value
  | cons g fields ih =>
    obtain ⟨a, x⟩ := g
    have here := inner (a, x) List.mem_cons_self
    have rest := fun f (hf : f ∈ fields) => inner f (List.mem_cons_of_mem _ hf)
    unfold Json.assign
    split_ifs
    · exact List.forall_mem_cons.2 ⟨value, rest⟩
    · exact List.forall_mem_cons.2 ⟨value, List.forall_mem_cons.2 ⟨here, rest⟩⟩
    · exact List.forall_mem_cons.2 ⟨here, ih rest⟩

theorem lookup_map_reread (fields : List (Str × Json)) (key : Str) :
    (fields.map fun f => (f.1, f.2.reread)).lookup key = (fields.lookup key).map Json.reread := by
  induction fields with
  | nil => rfl
  | cons f fields ih =>
    obtain ⟨k, x⟩ := f
    rw [List.map_cons, List.lookup_cons, List.lookup_cons]
    cases key == k with
    | true => rfl
    | false => exact ih

namespace Values

open Machine

structure Document (J : JsonText) (s : MemoryStorage) (d : Json) : Prop where
  holds : ∀ now, GameValues.getAll J s now = d
  ordered : d.ordered = true
  settled : d.reread = d
  utf8 : d.utf8 = true

variable {J : JsonText}

theorem document_empty : Document J ⟨∅⟩ (.obj []) :=
  ⟨fun _ => rfl, rfl, rfl, rfl⟩

theorem setAll_valid (hJ : J.Lawful) (s : MemoryStorage) (now : ℤ) {values : Json}
    (ordered : values.ordered = true) (utf8 : values.utf8 = true) :
    ∃ s', GameValues.setAll J s now values = .ok s' ∧ Document J s' values.reread := by
  obtain ⟨text, dump, parses⟩ := hJ.dump_valid _ utf8
  refine ⟨s.set now Protocol.GAME_VALUES text true, ?_, fun later => ?_, ordered_reread ordered,
    reread_reread ordered, utf8_reread utf8⟩
  · rw [GameValues.setAll, Sio.dumpText, dump]
    rfl
  · have stored : (s.set now Protocol.GAME_VALUES text true).get later Protocol.GAME_VALUES =
        some text := MemoryStorage.get_eq_some.2 ⟨_, AList.lookup_insert _, rfl, rfl⟩
    rw [GameValues.getAll, stored]
    dsimp only
    rw [parses]

theorem setAll_invalid (hJ : J.Lawful) (s : MemoryStorage) (now : ℤ) {values : Json}
    (utf8 : values.utf8 = false) : ∃ x, GameValues.setAll J s now values = .error x := by
  obtain ⟨what, dump⟩ := hJ.dump_invalid _ utf8
  exact ⟨.std what, by rw [GameValues.setAll, Sio.dumpText, dump]; rfl⟩

theorem Document.get {s : MemoryStorage} {fields : List (Str × Json)}
    (h : Document J s (.obj fields)) (now : ℤ) (key : Str) (default : Json) :
    GameValues.get J s now key default = (fields.lookup key).getD default := by
  rw [GameValues.get, h.holds]
  rfl

/-- The fields of the document that is stored after an assignment. -/
theorem Document.lookup_assigned {s s' : MemoryStorage} {fields : List (Str × Json)}
    (h : Document J s (.obj fields)) {key : Str} {value : Json} (ordered : value.ordered = true)
    (h' : Document J s' (Json.obj (Json.assign key value fields)).reread) :
    ∃ fields', Document J s' (.obj fields') ∧ fields'.lookup key = some value.reread ∧
      ∀ key', key' ≠ key → fields'.lookup key' = fields.lookup key' := by
  have sorted := (ordered_obj.1 (ordered_assign (k := key) ordered h.ordered)).1
  have same : (fields.map fun f => (f.1, f.2.reread)) = fields := by
    have settled := h.settled
    rw [reread_obj (ordered_obj.1 h.ordered).1] at settled
    exact Json.obj.inj settled
  refine ⟨_, reread_obj sorted ▸ h', ?_, fun key' ne => ?_⟩
  · rw [lookup_map_reread, Json.lookup_assign_self]
    rfl
  · rw [lookup_map_reread, Json.lookup_assign_ne ne, ← lookup_map_reread, same]

/-! Sequences of calls. -/

inductive Op where
  | setAll (values : Value)
  | set (key : Str) (value : Value)
  | reset

def Op.Valid : Op → Prop
  | .setAll values => values.json.utf8 = true ∧ values.json.finiteNumbers = true
  | .set key value =>
    utf8Valid key = true ∧ value.json.utf8 = true ∧ value.json.finiteNumbers = true
  | .reset => True

def Op.StoresObject : Op → Prop
  | .setAll values => values.json.isObject = true
  | .set .. | .reset => True

def Op.call (J : JsonText) (s : MemoryStorage) (now : ℤ) : Op → Except Exn MemoryStorage
  | .setAll values => GameValues.setAll J s now values.json
  | .set key value => GameValues.set J s now key value.json
  | .reset => GameValues.reset J s now

/-- A call that throws leaves the storage as it is. -/
def step (J : JsonText) (s : MemoryStorage) (e : ℤ × Op) : MemoryStorage :=
  match e.2.call J s e.1 with
  | .ok s' => s'
  | .error _ => s

def run (J : JsonText) (ops : List (ℤ × Op)) : MemoryStorage := ops.foldl (step J) ⟨∅⟩

/-- What the callers of `GameValues` rely on. -/
structure IsMap (J : JsonText) (s : MemoryStorage) : Prop where
  object : ∀ now, (GameValues.getAll J s now).isObject = true
  set : ∀ now key (value : Value), (Op.set key value).Valid →
    ∃ s', GameValues.set J s now key value.json = .ok s' ∧
      (∀ later default, (GameValues.get J s' later key default).eqv value.json = true) ∧
      ∀ key', key' ≠ key → ∀ later default,
        GameValues.get J s' later key' default = GameValues.get J s now key' default

theorem set_object (hJ : J.Lawful) {s : MemoryStorage} {fields : List (Str × Json)}
    (h : Document J s (.obj fields)) (now : ℤ) {key : Str} {value : Json}
    (ordered : value.ordered = true) (keyed : utf8Valid key = true) (utf8 : value.utf8 = true) :
    ∃ s', GameValues.set J s now key value = .ok s' ∧
      Document J s' (Json.obj (Json.assign key value fields)).reread := by
  obtain ⟨s', stores, document⟩ := setAll_valid hJ s now (ordered_assign (k := key) ordered h.ordered)
    (utf8Fields_assign keyed utf8 h.utf8)
  exact ⟨s', by rw [GameValues.set, h.holds]; exact stores, document⟩

theorem isMap_of_object (hJ : J.Lawful) {s : MemoryStorage} {fields : List (Str × Json)}
    (h : Document J s (.obj fields)) : IsMap J s where
  object now := by
    rw [h.holds]
    rfl
  set now key value valid := by
    obtain ⟨keyed, utf8, finite⟩ := valid
    obtain ⟨s', stores, document⟩ := set_object hJ h now value.ordered keyed utf8
    obtain ⟨fields', document', here, other⟩ := h.lookup_assigned value.ordered document
    refine ⟨s', stores, fun later default => ?_, fun key' ne later default => ?_⟩
    · rw [document'.get, here]
      exact eqv_reread value.ordered finite
    · rw [document'.get, h.get, other key' ne]

theorem exists_fields {d : Json} (h : d.isObject = true) : ∃ fields, d = .obj fields := by
  cases d with
  | obj fields => exact ⟨fields, rfl⟩
  | _ => cases h

def Op.next (d : Json) : Op → Json
  | .setAll values => values.json.reread
  | .set key value =>
    match GameValues.assignIn d key value.json with
    | .ok values => values.reread
    | .error _ => d
  | .reset => .obj []

theorem ordered_assignIn {d value values : Json} {key : Str} (h : d.ordered = true)
    (ordered : value.ordered = true) (assigned : GameValues.assignIn d key value = .ok values) :
    values.ordered = true := by
  cases d with
  | obj fields =>
    obtain rfl := Except.ok.inj assigned
    exact ordered_assign ordered h
  | null =>
    obtain rfl := Except.ok.inj assigned
    exact ordered_obj.2 ⟨List.pairwise_singleton _ _, by simpa using ordered⟩
  | _ => cases assigned

theorem Document.step (hJ : J.Lawful) {s : MemoryStorage} {d : Json} (h : Document J s d)
    {e : ℤ × Op} (valid : e.2.Valid) : Document J (Values.step J s e) (e.2.next d) := by
  obtain ⟨now, op⟩ := e
  cases op with
  | setAll values =>
    obtain ⟨s', stores, document⟩ := setAll_valid hJ s now values.ordered valid.1
    rw [Values.step, Op.call, stores]
    exact document
  | reset =>
    obtain ⟨s', stores, document⟩ := setAll_valid hJ s now (show (Json.obj []).ordered = true from rfl) rfl
    rw [Values.step, Op.call, GameValues.reset, stores]
    exact document
  | set key value =>
    obtain ⟨keyed, utf8, -⟩ := valid
    rw [Values.step, Op.call, GameValues.set, h.holds, Op.next]
    cases assigned : GameValues.assignIn d key value.json with
    | error x => exact h
    | ok values =>
      obtain ⟨s', stores, document⟩ := setAll_valid hJ s now
        (ordered_assignIn h.ordered value.ordered assigned)
        (Snapshots.utf8_assignIn h.utf8 keyed utf8 assigned)
      dsimp only [Except.bind]
      rw [stores]
      exact document

theorem isObject_next {d : Json} {op : Op} (h : d.isObject = true) (stores : op.StoresObject) :
    (op.next d).isObject = true := by
  obtain ⟨fields, rfl⟩ := exists_fields h
  cases op with
  | setAll values => exact (isObject_reread _).trans stores
  | set key value => exact isObject_reread (.obj (Json.assign key value.json fields))
  | reset => rfl

theorem run_append (ops : List (ℤ × Op)) (e : ℤ × Op) :
    run J (ops ++ [e]) = step J (run J ops) e := by
  rw [run, List.foldl_append]
  rfl

/-- The document after a sequence of calls. -/
theorem exists_document (hJ : J.Lawful) {ops : List (ℤ × Op)} (valid : ∀ e ∈ ops, e.2.Valid) :
    ∃ d, Document J (run J ops) d ∧ ((∀ e ∈ ops, e.2.StoresObject) → d.isObject = true) := by
  induction ops using List.reverseRecOn with
  | nil => exact ⟨_, document_empty, fun _ => rfl⟩
  | append_singleton ops e ih =>
    obtain ⟨d, document, object⟩ := ih fun e he => valid e (List.mem_append_left _ he)
    have last : e ∈ ops ++ [e] := List.mem_append_right _ (List.mem_singleton_self e)
    refine ⟨_, run_append ops e ▸ document.step hJ (valid e last), fun stores => ?_⟩
    exact isObject_next (object fun e he => stores e (List.mem_append_left _ he)) (stores e last)

/-- The values are a map at every moment exactly if every document that was stored as a whole was an
object. -/
theorem isMap_iff (hJ : J.Lawful) {ops : List (ℤ × Op)} (valid : ∀ e ∈ ops, e.2.Valid) :
    (∀ done, done <+: ops → IsMap J (run J done)) ↔ ∀ e ∈ ops, e.2.StoresObject := by
  constructor
  · intro always e he
    obtain ⟨before, after, rfl⟩ := List.append_of_mem he
    have isMap := always (before ++ [e]) ⟨after, by simp⟩
    have earlier : ∀ e ∈ before, e.2.Valid := fun e he => valid e (List.mem_append_left _ he)
    obtain ⟨d, document, -⟩ := exists_document hJ earlier
    have stored := run_append before e ▸ document.step hJ (valid e he)
    have object := isMap.object 0
    rw [stored.holds] at object
    obtain ⟨now, op⟩ := e
    cases op with
    | setAll values => exact (isObject_reread _).symm.trans object
    | set key value => trivial
    | reset => trivial
  · rintro stores done ⟨rest, rfl⟩
    have earlier : ∀ e ∈ done, e.2.Valid := fun e he => valid e (List.mem_append_left _ he)
    obtain ⟨d, document, object⟩ := exists_document hJ earlier
    obtain ⟨fields, rfl⟩ := exists_fields (object fun e he =>
      stores e (List.mem_append_left _ he))
    exact isMap_of_object hJ document

def scores : List (ℤ × Op) :=
  [(0, .reset), (5, .set (lit "round") ⟨.uint 3, rfl⟩), (9, .setAll ⟨.obj [(lit "round", .uint 4)], by decide⟩)]

theorem isMap_iff_scores :
    (∀ done, done <+: scores → IsMap Text.reference (run Text.reference done)) ↔
      ∀ e ∈ scores, e.2.StoresObject :=
  isMap_iff Text.reference_lawful (by
    intro e he
    simp only [scores, List.mem_cons, List.not_mem_nil, or_false] at he
    rcases he with rfl | rfl | rfl
    · trivial
    · exact ⟨by decide, by decide, by decide⟩
    · exact ⟨by decide, by decide⟩)

/-- The admin route stores a number. -/
theorem isMap_number : ¬ ∀ (J : JsonText) (ops : List (ℤ × Op)), J.Lawful →
    (∀ e ∈ ops, e.2.Valid) → ∀ done, done <+: ops → IsMap J (run J done) := by
  intro law
  have number : (Op.setAll ⟨.uint 5, rfl⟩).Valid := ⟨rfl, rfl⟩
  have isMap := law Text.reference [(0, .setAll ⟨.uint 5, rfl⟩)] Text.reference_lawful
    (List.forall_mem_singleton.2 number) _ (List.prefix_refl _)
  have document := document_empty.step Text.reference_lawful (e := (0, .setAll ⟨.uint 5, rfl⟩))
    number
  have object := isMap.object 0
  rw [run, List.foldl_cons, List.foldl_nil, document.holds] at object
  cases object

/-! Interleavings: `set` reads the whole document and later writes it back as a whole. -/

/-- A `set` between its two storage calls. `seen` is not in the source: how many writes had been made
when the document was read. -/
structure Writing where
  key : Str
  value : Json
  values : Json
  seen : ℕ

/-- `stored` is not in the source: the updates whose write was made, in order. -/
structure State (T : Type) where
  now : ℤ
  storage : MemoryStorage
  writing : T → Option Writing
  stored : List (Str × Json)

def State.initial {T : Type} : State T := ⟨0, ⟨∅⟩, fun _ => none, []⟩

inductive Action (T : Type) where
  | pass (milliseconds : ℕ)
  | read (t : T) (key : Str) (value : Value)
  | write (t : T)

section
variable {T : Type} [DecidableEq T]

def act (J : JsonText) (s : State T) : Action T → Option (State T)
  | .pass milliseconds => some { s with now := s.now + milliseconds }
  | .read t key value =>
    match s.writing t, GameValues.assignIn (GameValues.getAll J s.storage s.now) key value.json with
    | some _, _ => none
    | none, .error _ => some s
    | none, .ok values => some { s with
        writing := Function.update s.writing t (some ⟨key, value.json, values, s.stored.length⟩) }
  | .write t =>
    match s.writing t with
    | none => none
    | some w =>
      match GameValues.setAll J s.storage s.now w.values with
      | .error _ => some { s with writing := Function.update s.writing t none }
      | .ok storage => some { s with
          storage := storage
          writing := Function.update s.writing t none
          stored := s.stored ++ [(w.key, w.value)] }

/-- No other write was made since the document was read. -/
def Current (s : State T) : Action T → Prop
  | .write t => ∀ w, s.writing t = some w → w.seen = s.stored.length
  | .pass _ | .read .. => True

instance (s : State T) : (a : Action T) → Decidable (Current s a)
  | .write t =>
    match started : s.writing t with
    | none => .isTrue fun w same => by cases started.symm.trans same
    | some w =>
      decidable_of_iff (w.seen = s.stored.length)
        ⟨fun seen w' same => Option.some.inj (started.symm.trans same) ▸ seen,
          fun current => current w started⟩
  | .pass _ | .read .. => .isTrue trivial

def lastOf (stored : List (Str × Json)) (key : Str) : Option Json := stored.reverse.lookup key

/-- Each key has the value that it was last set to. -/
def Kept (J : JsonText) (s : State T) : Prop :=
  ∀ key value, lastOf s.stored key = some value →
    ∀ now default, GameValues.get J s.storage now key default = value.reread

/-- The stored document is what the updates make of an empty one, and a `set` that has seen all of
them is about to write that document with its own update. -/
def Serial (J : JsonText) (s : State T) : Prop :=
  ∃ fields, Document J s.storage (.obj fields) ∧
    (∀ key, fields.lookup key = (lastOf s.stored key).map Json.reread) ∧
    ∀ t w, s.writing t = some w → w.value.ordered = true ∧ w.seen ≤ s.stored.length ∧
      (w.seen = s.stored.length → w.values = .obj (Json.assign w.key w.value fields))

theorem lastOf_append_self (stored : List (Str × Json)) (key : Str) (value : Json) :
    lastOf (stored ++ [(key, value)]) key = some value := by
  rw [lastOf, List.reverse_append]
  simp

theorem lastOf_append_ne {key key' : Str} (h : key' ≠ key) (stored : List (Str × Json))
    (value : Json) : lastOf (stored ++ [(key, value)]) key' = lastOf stored key' := by
  rw [lastOf, List.reverse_append]
  simp [lastOf, List.lookup_cons, beq_false_of_ne h]

omit [DecidableEq T] in
theorem serial_initial : Serial J (State.initial : State T) :=
  ⟨[], document_empty, fun _ => rfl, fun _ _ h => (nomatch h)⟩

theorem serial_act (hJ : J.Lawful) {s s' : State T} {a : Action T} (serial : Serial J s)
    (current : Current s a) (h : act J s a = some s') : Serial J s' := by
  obtain ⟨fields, document, values, writing⟩ := serial
  cases a with
  | pass milliseconds =>
    obtain rfl := Option.some.inj h
    exact ⟨fields, document, values, writing⟩
  | read t key value =>
    rw [act, document.holds] at h
    split at h
    · cases h
    · obtain rfl := Option.some.inj h
      exact ⟨fields, document, values, writing⟩
    · rename_i assigned
      obtain rfl := Option.some.inj h
      refine ⟨fields, document, values, fun t' w started => ?_⟩
      by_cases same : t' = t
      · subst same
        obtain rfl := Option.some.inj ((Function.update_self t' _ s.writing).symm.trans started)
        exact ⟨value.ordered, Nat.le_refl _, fun _ => (Except.ok.inj assigned).symm⟩
      · exact writing t' w ((Function.update_of_ne same _ s.writing).symm.trans started)
  | write t =>
    rw [act] at h
    split at h
    · cases h
    · rename_i w started
      obtain ⟨ordered, -, whole⟩ := writing t w started
      have others : ∀ {t' w'}, Function.update s.writing t none t' = some w' →
          s.writing t' = some w' := fun {t' w'} started => by
        by_cases same : t' = t
        · subst same
          cases (Function.update_self t' _ s.writing).symm.trans started
        · exact (Function.update_of_ne same _ s.writing).symm.trans started
      split at h
      · obtain rfl := Option.some.inj h
        exact ⟨fields, document, values, fun t' w' started => writing t' w' (others started)⟩
      · rename_i storage stores
        obtain rfl := Option.some.inj h
        have written := whole (current w started)
        have utf8 : w.values.utf8 = true := by
          by_contra invalid
          obtain ⟨x, fails⟩ := setAll_invalid hJ s.storage s.now (Bool.eq_false_iff.2 invalid)
          cases fails.symm.trans stores
        rw [written] at stores utf8
        obtain ⟨storage', stores', document'⟩ := setAll_valid hJ s.storage s.now
          (ordered_assign ordered document.ordered) utf8
        obtain rfl := Except.ok.inj (stores.symm.trans stores')
        obtain ⟨fields', stored, here, other⟩ := document.lookup_assigned ordered document'
        refine ⟨fields', stored, fun key => ?_, fun t' w' started => ?_⟩
        · by_cases same : key = w.key
          · subst same
            rw [here, lastOf_append_self]
            rfl
          · rw [other key same, lastOf_append_ne same]
            exact values key
        · obtain ⟨ordered', seen, -⟩ := writing t' w' (others started)
          have longer : (s.stored ++ [(w.key, w.value)]).length = s.stored.length + 1 :=
            List.length_append
          refine ⟨ordered', by rw [longer]; omega, fun all => ?_⟩
          rw [longer] at all
          omega

/-- As long as no write falls between the read and the write of another `set`, no update is lost. -/
theorem updates_kept (hJ : J.Lawful) {actions : List (Action T)} {s : State T}
    (run : Run (act J) Current State.initial actions s) : Kept J s := by
  obtain ⟨fields, document, values, -⟩ := run.invariant (P := Serial J) serial_initial
    (serial_act hJ)
  intro key value last now default
  rw [document.get, values, last]
  rfl

end

def crossing : List (Action Bool) :=
  [.read false (lit "a") ⟨.uint 1, rfl⟩, .read true (lit "b") ⟨.uint 2, rfl⟩, .write false, .write true]

theorem update_lost : ¬ ∀ (J : JsonText) (actions : List (Action Bool)) (s : State Bool), J.Lawful →
    Run (act J) (fun _ _ => True) State.initial actions s →
      ∀ key₁ value₁ key₂ value₂, key₁ ≠ key₂ → lastOf s.stored key₁ = some value₁ →
        lastOf s.stored key₂ = some value₂ → ∀ now default,
          GameValues.get J s.storage now key₁ default = value₁.reread ∧
          GameValues.get J s.storage now key₂ default = value₂.reread := by
  intro law
  obtain ⟨s, run, found⟩ := exists_run (act Text.reference) (fun _ _ => true) State.initial crossing
    (fun s => (lastOf s.stored (lit "a")).any (fun value => !value.reread.isNull) &&
      (lastOf s.stored (lit "b")).isSome &&
      (GameValues.get Text.reference s.storage 0 (lit "a") .null).isNull) (by decide +kernel)
  rw [Bool.and_eq_true, Bool.and_eq_true] at found
  obtain ⟨⟨first, second⟩, lost⟩ := found
  obtain ⟨value₁, last₁, present⟩ := (Option.any_eq_true ..).1 first
  obtain ⟨value₂, last₂⟩ := Option.isSome_iff_exists.1 second
  have kept := law Text.reference crossing s Text.reference_lawful (run.weaken fun _ => trivial)
    (lit "a") value₁ (lit "b") value₂ (by decide) last₁ last₂ 0 .null
  rw [kept.1] at lost
  rw [lost] at present
  cases present

def oneByOne : List (Action Bool) :=
  [.read false (lit "a") ⟨.uint 1, rfl⟩, .write false, .read true (lit "b") ⟨.uint 2, rfl⟩, .write true]

theorem updates_kept_oneByOne : ∃ s : State Bool,
    Run (act Text.reference) Current State.initial oneByOne s ∧ Kept Text.reference s := by
  obtain ⟨s, run, -⟩ := exists_run (act Text.reference) (fun s a => decide (Current s a))
    State.initial oneByOne (fun _ => true) (by decide +kernel)
  have current := run.weaken fun h => of_decide_eq_true h
  exact ⟨s, current, updates_kept Text.reference_lawful current⟩

end Values

end Blueboat
