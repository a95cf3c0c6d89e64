import Blueboat.Json
import Blueboat.Library.MessagePack

set_option autoImplicit false

/-! `msgpack_codec.cpp`: the recursive encoder, the separately written decoder, and that decoding
what was encoded gives an equal value. -/
namespace Blueboat

open MessagePack

/-- The packer calls and `unpack` of the MessagePack library; a failed `unpack` throws. -/
structure MsgpackC where
  packNil : Str
  packTrue : Str
  packFalse : Str
  packUint64 : UInt64 → Str
  packInt64 : Int64 → Str
  packDouble : UInt64 → Str
  packStr : UInt32 → Str
  packArray : UInt32 → Str
  packMap : UInt32 → Str
  unpack : Str → Except Str Object

/-- A double may be packed as the integer it equals. -/
inductive IsDouble (bits : UInt64) : Object → Prop where
  | float64 : IsDouble bits (.float64 bits)
  | posInt {n : UInt64} (h : Json.floatEq (Json.uintToDouble n) bits = true) :
    IsDouble bits (.posInt n)
  | negInt {n : Int64} (h : Json.floatEq (Json.intToDouble n) bits = true) :
    IsDouble bits (.negInt n)

/-- The packer writes, and `unpack` reads, single objects of the MessagePack format. -/
structure MsgpackC.Lawful (M : MsgpackC) : Prop where
  packNil : Encodes .nil M.packNil
  packTrue : Encodes (.bool true) M.packTrue
  packFalse : Encodes (.bool false) M.packFalse
  packUint64 : ∀ n, Encodes (.posInt n) (M.packUint64 n)
  packInt64 : ∀ n, Encodes (if 0 ≤ n then .posInt n.toUInt64 else .negInt n) (M.packInt64 n)
  packDouble : ∀ bits, Json.isNaN bits = false → ∃ o, IsDouble bits o ∧ Encodes o (M.packDouble bits)
  packStr : ∀ n, Sized .str n.toNat (M.packStr n)
  packArray : ∀ n, Sized .arr n.toNat (M.packArray n)
  packMap : ∀ n, Sized .map n.toNat (M.packMap n)
  unpack : ∀ o bs, Encodes o bs → M.unpack bs = .ok o

section
variable (M : MsgpackC)

def packString (s : Str) : Str := M.packStr (UInt32.ofNat s.length) ++ s

mutual
def packJson : Json → Str
  | .null => M.packNil
  | .bool b => if b then M.packTrue else M.packFalse
  | .uint n => M.packUint64 n
  | .int n => M.packInt64 n
  | .float bits => M.packDouble bits
  | .str s => packString M s
  | .arr xs => M.packArray (UInt32.ofNat xs.length) ++ packElements xs
  | .obj fs => M.packMap (UInt32.ofNat fs.length) ++ packFields fs
def packElements : List Json → Str
  | [] => []
  | x :: xs => packJson x ++ packElements xs
def packFields : List (Str × Json) → Str
  | [] => []
  | (k, x) :: fs => packString M k ++ packJson x ++ packFields fs
end

def keyOf : Object → Str
  | .str s => s
  | _ => []

mutual
def unpackObject : Object → Json
  | .nil => .null
  | .bool b => .bool b
  | .posInt n => .uint n
  | .negInt n => .int n
  | .float32 bits => .float bits
  | .float64 bits => .float bits
  | .str s => .str s
  | .bin s => .str s
  | .arr xs => .arr (unpackElements xs)
  | .map kvs => .obj (unpackFields [] kvs)
  | .ext _ _ => .null
def unpackElements : List Object → List Json
  | [] => []
  | x :: xs => unpackObject x :: unpackElements xs
def unpackFields (map : List (Str × Json)) : List (Object × Object) → List (Str × Json)
  | [] => map
  | (k, v) :: kvs => unpackFields (Json.assign (keyOf k) (unpackObject v) map) kvs
end

def encodeMsgpack (value : Json) : Str := packJson M value

def decodeMsgpack (bytes : Str) : Except Exn Json :=
  match M.unpack bytes with
  | .ok o => .ok (unpackObject o)
  | .error what => .error (.std what)

end

mutual
/-- Every length is below `2 ^ 32` and no float is a NaN. -/
def packable : Json → Bool
  | .str s => s.length < 2 ^ 32
  | .float bits => !Json.isNaN bits
  | .arr xs => xs.length < 2 ^ 32 && packableList xs
  | .obj fs => fs.length < 2 ^ 32 && packableFields fs
  | _ => true
def packableList : List Json → Bool
  | [] => true
  | x :: xs => packable x && packableList xs
def packableFields : List (Str × Json) → Bool
  | [] => true
  | (k, x) :: fs => k.length < 2 ^ 32 && packable x && packableFields fs
end

mutual
/-- How a decoded value differs from the encoded one: in the kind of its numbers only. -/
def Copies : Json → Json → Prop
  | .int n, y => y = if 0 ≤ n then .uint n.toUInt64 else .int n
  | .float bits, y => ∃ o, IsDouble bits o ∧ y = unpackObject o
  | .arr xs, y => ∃ ys, y = .arr ys ∧ CopiesList xs ys
  | .obj fs, y => ∃ gs, y = .obj gs ∧ CopiesFields fs gs
  | x, y => y = x
def CopiesList : List Json → List Json → Prop
  | [], ys => ys = []
  | x :: xs, ys => ∃ y ys', ys = y :: ys' ∧ Copies x y ∧ CopiesList xs ys'
def CopiesFields : List (Str × Json) → List (Str × Json) → Prop
  | [], gs => gs = []
  | (k, x) :: fs, gs => ∃ y gs', gs = (k, y) :: gs' ∧ Copies x y ∧ CopiesFields fs gs'
end

theorem floatEq_self {bits : UInt64} (h : Json.isNaN bits = false) :
    Json.floatEq bits bits = true := by
  simp [Json.floatEq, h]

theorem Copies.eqv {x : Json} (hx : packable x = true) : ∀ {y}, Copies x y → y.eqv x = true := by
  induction x using Json.induction with
  | null => rintro y rfl; rfl
  | bool b => rintro y rfl; simp [Json.eqv]
  | int n =>
    rintro y rfl
    split_ifs <;> simp [Json.eqv]
  | uint n => rintro y rfl; simp [Json.eqv]
  | float bits =>
    rintro y ⟨o, ho, rfl⟩
    cases ho with
    | float64 => simpa [unpackObject, Json.eqv] using floatEq_self (by simpa [packable] using hx)
    | posInt h => simpa [unpackObject, Json.eqv] using h
    | negInt h => simpa [unpackObject, Json.eqv] using h
  | str s => rintro y rfl; simp [Json.eqv]
  | arr xs ih =>
    rintro y ⟨ys, rfl, h⟩
    simp only [packable, Bool.and_eq_true] at hx
    change Json.eqvList ys xs = true
    replace hx := hx.2
    induction xs generalizing ys with
    | nil => obtain rfl := h; rfl
    | cons x xs ih' =>
      obtain ⟨y, ys', rfl, hy, hys⟩ := h
      simp only [packableList, Bool.and_eq_true] at hx
      simp only [Json.eqvList, Bool.and_eq_true]
      exact ⟨ih x (by simp) hx.1 hy, ih' (fun z hz => ih z (by simp [hz])) _ hys hx.2⟩
  | obj fs ih =>
    rintro y ⟨gs, rfl, h⟩
    simp only [packable, Bool.and_eq_true] at hx
    change Json.eqvFields gs fs = true
    replace hx := hx.2
    induction fs generalizing gs with
    | nil => obtain rfl := h; rfl
    | cons f fs ih' =>
      obtain ⟨k, x⟩ := f
      obtain ⟨y, gs', rfl, hy, hgs⟩ := h
      simp only [packableFields, Bool.and_eq_true] at hx
      simp only [Json.eqvFields, Bool.and_eq_true, beq_self_eq_true, true_and]
      exact ⟨ih (k, x) (by simp) hx.1.2 hy, ih' (fun z hz => ih z (by simp [hz])) _ hgs hx.2⟩

theorem assign_last {k : Str} {fs : List (Str × Json)} (h : ∀ f ∈ fs, f.1 < k) (x : Json) :
    Json.assign k x fs = fs ++ [(k, x)] := by
  induction fs with
  | nil => rfl
  | cons f fs ih =>
    obtain ⟨k', y⟩ := f
    have hlt : k' < k := h (k', y) (by simp)
    have hne : k ≠ k' := by rintro rfl; exact List.lt_irrefl k hlt
    unfold Json.assign
    rw [if_neg hne, if_neg (List.lt_asymm hlt), ih (fun g hg => h g (by simp [hg]))]
    rfl

theorem CopiesFields.keys {fs gs : List (Str × Json)} (h : CopiesFields fs gs) :
    gs.map Prod.fst = fs.map Prod.fst := by
  induction fs generalizing gs with
  | nil => obtain rfl := h; rfl
  | cons f fs ih =>
    obtain ⟨k, x⟩ := f
    obtain ⟨y, gs', rfl, _, hgs⟩ := h
    simp [ih hgs]

theorem unpackFields_sorted {map : List (Str × Json)} {kvs : List (Object × Object)}
    (h : ((map.map Prod.fst) ++ kvs.map fun kv => keyOf kv.1).Pairwise (· < ·)) :
    unpackFields map kvs = map ++ kvs.map fun kv => (keyOf kv.1, unpackObject kv.2) := by
  induction kvs generalizing map with
  | nil => simp [unpackFields]
  | cons kv kvs ih =>
    obtain ⟨k, v⟩ := kv
    have below : ∀ f ∈ map, f.1 < keyOf k := fun f hf =>
      (List.pairwise_append.1 h).2.2 f.1 (List.mem_map_of_mem hf) (keyOf k) (by simp)
    rw [unpackFields, assign_last below, ih (by simpa using h)]
    simp

theorem toNat_length {n : ℕ} (h : n < 2 ^ 32) : (UInt32.ofNat n).toNat = n := by
  simp only [UInt32.toNat_ofNat']
  omega

def Packs (M : MsgpackC) (x : Json) : Prop :=
  ∃ o, Encodes o (packJson M x) ∧ Copies x (unpackObject o)

theorem packString_encodes {M : MsgpackC} (hM : M.Lawful) {s : Str} (h : s.length < 2 ^ 32) :
    Encodes (.str s) (packString M s) := by
  have hs := hM.packStr (UInt32.ofNat s.length)
  rw [toNat_length h] at hs
  exact ⟨_, hs, rfl⟩

theorem packElements_encodes {M : MsgpackC} {xs : List Json} (h : ∀ x ∈ xs, Packs M x) :
    ∃ os, EncodesList os (packElements M xs) ∧ os.length = xs.length ∧
      CopiesList xs (unpackElements os) := by
  induction xs with
  | nil => exact ⟨[], rfl, rfl, rfl⟩
  | cons x xs ih =>
    obtain ⟨o, henc, hcopy⟩ := h x (by simp)
    obtain ⟨os, hencs, hlen, hcopies⟩ := ih fun y hy => h y (by simp [hy])
    exact ⟨o :: os, ⟨_, _, henc, hencs, rfl⟩, by simp [hlen], ⟨_, _, rfl, hcopy, hcopies⟩⟩

theorem packFields_encodes {M : MsgpackC} (hM : M.Lawful) {fs : List (Str × Json)}
    (hk : ∀ f ∈ fs, f.1.length < 2 ^ 32) (h : ∀ f ∈ fs, Packs M f.2) :
    ∃ kvs, EncodesPairs kvs (packFields M fs) ∧ kvs.length = fs.length ∧
      CopiesFields fs (kvs.map fun kv => (keyOf kv.1, unpackObject kv.2)) := by
  induction fs with
  | nil => exact ⟨[], rfl, rfl, rfl⟩
  | cons f fs ih =>
    obtain ⟨k, x⟩ := f
    obtain ⟨o, henc, hcopy⟩ := h (k, x) (by simp)
    obtain ⟨kvs, hencs, hlen, hcopies⟩ :=
      ih (fun g hg => hk g (by simp [hg])) fun g hg => h g (by simp [hg])
    have hkey := packString_encodes hM (hk (k, x) (by simp))
    exact ⟨(.str k, o) :: kvs, ⟨_, _, _, hkey, henc, hencs, rfl⟩, by simp [hlen],
      ⟨_, _, rfl, hcopy, hcopies⟩⟩

theorem packableList_mem {xs : List Json} (h : packableList xs = true) :
    ∀ x ∈ xs, packable x = true := by
  induction xs with
  | nil => simp
  | cons x xs ih => simp only [packableList, Bool.and_eq_true] at h; simpa using ⟨h.1, ih h.2⟩

theorem packableFields_mem {fs : List (Str × Json)} (h : packableFields fs = true) :
    ∀ f ∈ fs, f.1.length < 2 ^ 32 ∧ packable f.2 = true := by
  induction fs with
  | nil => simp
  | cons f fs ih =>
    obtain ⟨k, x⟩ := f
    simp only [packableFields, Bool.and_eq_true, decide_eq_true_eq] at h
    intro g hg
    rcases List.mem_cons.1 hg with rfl | hg
    · exact h.1
    · exact ih h.2 g hg

theorem orderedList_mem {xs : List Json} (h : Json.orderedList xs = true) :
    ∀ x ∈ xs, x.ordered = true := by
  induction xs with
  | nil => simp
  | cons x xs ih => simp only [Json.orderedList, Bool.and_eq_true] at h; simpa using ⟨h.1, ih h.2⟩

theorem orderedFields_mem {fs : List (Str × Json)} (h : Json.orderedFields fs = true) :
    ∀ f ∈ fs, f.2.ordered = true := by
  induction fs with
  | nil => simp
  | cons f fs ih =>
    obtain ⟨k, x⟩ := f
    simp only [Json.orderedFields, Bool.and_eq_true] at h
    intro g hg
    rcases List.mem_cons.1 hg with rfl | hg
    · exact h.1
    · exact ih h.2 g hg

theorem packJson_packs {M : MsgpackC} (hM : M.Lawful) (x : Json) (hp : packable x = true)
    (ho : x.ordered = true) : Packs M x := by
  induction x using Json.induction with
  | null => exact ⟨.nil, hM.packNil, rfl⟩
  | bool b => cases b; exacts [⟨_, hM.packFalse, rfl⟩, ⟨_, hM.packTrue, rfl⟩]
  | int n =>
    refine ⟨_, hM.packInt64 n, ?_⟩
    change unpackObject _ = _
    split_ifs <;> rfl
  | uint n => exact ⟨_, hM.packUint64 n, rfl⟩
  | float bits =>
    obtain ⟨o, hd, henc⟩ := hM.packDouble bits (by simpa [packable] using hp)
    exact ⟨o, henc, o, hd, rfl⟩
  | str s => exact ⟨_, packString_encodes hM (by simpa [packable] using hp), rfl⟩
  | arr xs ih =>
    simp only [packable, Bool.and_eq_true, decide_eq_true_eq] at hp
    obtain ⟨os, henc, hlen, hcopy⟩ := packElements_encodes (M := M) fun x (hx : x ∈ xs) =>
      ih x hx (packableList_mem hp.2 x hx) (orderedList_mem ho x hx)
    have hs := hM.packArray (UInt32.ofNat xs.length)
    rw [toNat_length hp.1, ← hlen] at hs
    exact ⟨.arr os, ⟨_, _, hs, henc, by rw [packJson, hlen]⟩, _, rfl, hcopy⟩
  | obj fs ih =>
    simp only [packable, Bool.and_eq_true, decide_eq_true_eq] at hp
    simp only [Json.ordered, Bool.and_eq_true, decide_eq_true_eq] at ho
    obtain ⟨kvs, henc, hlen, hcopy⟩ := packFields_encodes hM
      (fun f (hf : f ∈ fs) => (packableFields_mem hp.2 f hf).1) fun f hf =>
        ih f hf (packableFields_mem hp.2 f hf).2 (orderedFields_mem ho.2 f hf)
    have hs := hM.packMap (UInt32.ofNat fs.length)
    rw [toNat_length hp.1, ← hlen] at hs
    have hsorted : (kvs.map fun kv => keyOf kv.1).Pairwise (· < ·) := by
      have hkeys := hcopy.keys
      rw [List.map_map] at hkeys
      rw [← hkeys] at ho
      exact ho.1
    refine ⟨.map kvs, ⟨_, _, hs, henc, by rw [packJson, hlen]⟩, _, rfl, ?_⟩
    rw [unpackFields_sorted (by simpa using hsorted)]
    exact hcopy

theorem decode_encode {M : MsgpackC} (hM : M.Lawful) {x : Json} (hp : packable x = true)
    (ho : x.ordered = true) :
    ∃ y, decodeMsgpack M (encodeMsgpack M x) = .ok y ∧ Copies x y := by
  obtain ⟨o, henc, hcopy⟩ := packJson_packs hM x hp ho
  exact ⟨_, by simp only [decodeMsgpack, encodeMsgpack, hM.unpack o _ henc], hcopy⟩

def shortest : MsgpackC where
  packNil := [0xc0]
  packTrue := [0xc3]
  packFalse := [0xc2]
  packUint64 := shortUint
  packInt64 := shortInt
  packDouble := double
  packStr := shortStr
  packArray := shortArray
  packMap := shortMap
  unpack bytes :=
    match MessagePack.unpack bytes with
    | some o => .ok o
    | none => .error (lit "insufficient bytes")

theorem shortest_lawful : shortest.Lawful where
  packNil := ⟨0xc0, rfl, rfl⟩
  packTrue := ⟨0xc3, rfl, rfl⟩
  packFalse := ⟨0xc2, rfl, rfl⟩
  packUint64 := shortUint_encodes
  packInt64 := shortInt_encodes
  packDouble bits _ := ⟨_, .float64, double_encodes bits⟩
  packStr := shortStr_sized
  packArray := shortArray_sized
  packMap := shortMap_sized
  unpack o bs h := by
    have hread := unpack_encodes h []
    rw [List.append_nil] at hread
    simp only [shortest, hread]

end Blueboat
