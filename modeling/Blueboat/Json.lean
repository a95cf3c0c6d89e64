import Mathlib.Algebra.Group.Int.Defs
import Mathlib.Algebra.Group.Nat.Defs
import Mathlib.Data.List.Basic
import Mathlib.Data.Nat.Log

set_option autoImplicit false

/-! The JSON value of the repository (`nlohmann::json`, aliased `Value`): the tree, the accessors
that throw on a type mismatch, and the text form behind `dump` and `parse`. -/
namespace Blueboat

/-- `std::string`: bytes, of any encoding. -/
abbrev Str := List UInt8

/-- A string literal of the source; all of them are ASCII. -/
def lit (s : String) : Str := s.toList.map fun c => UInt8.ofNat c.toNat

/-- A thrown object: a `std::exception` with its `what()`, or anything else. -/
inductive Exn where
  | std (what : Str)
  | other
  deriving DecidableEq

def isDigit (b : UInt8) : Bool := 0x30 ≤ b && b ≤ 0x39

def isCont (b : UInt8) : Bool := 0x80 ≤ b && b ≤ 0xBF

def utf8Two (a b : UInt8) : Bool := 0xC2 ≤ a && a ≤ 0xDF && isCont b

def utf8Three (a b c : UInt8) : Bool :=
  isCont c &&
    ((a == 0xE0 && 0xA0 ≤ b && b ≤ 0xBF) || (a == 0xED && 0x80 ≤ b && b ≤ 0x9F) ||
      (0xE1 ≤ a && a ≤ 0xEF && a != 0xED && isCont b))

def utf8Four (a b c d : UInt8) : Bool :=
  isCont c && isCont d &&
    ((a == 0xF0 && 0x90 ≤ b && b ≤ 0xBF) || (a == 0xF4 && 0x80 ≤ b && b ≤ 0x8F) ||
      (0xF1 ≤ a && a ≤ 0xF3 && isCont b))

/-- Well-formed UTF-8: no overlong form, no surrogate, nothing above U+10FFFF. -/
def utf8Valid : Str → Bool
  | [] => true
  | [a] => a < 0x80
  | [a, b] => if a < 0x80 then utf8Valid [b] else utf8Two a b
  | [a, b, c] =>
    if a < 0x80 then utf8Valid [b, c]
    else if utf8Two a b then utf8Valid [c]
    else utf8Three a b c
  | a :: b :: c :: d :: s =>
    if a < 0x80 then utf8Valid (b :: c :: d :: s)
    else if utf8Two a b then utf8Valid (c :: d :: s)
    else if utf8Three a b c then utf8Valid (d :: s)
    else utf8Four a b c d && utf8Valid s

/-- `number_integer` is signed and `number_unsigned` unsigned, both 64 bits wide; a float is its
IEEE-754 bit pattern; an object is the `std::map` as its list of fields in key order. -/
inductive Json where
  | null
  | bool (b : Bool)
  | int (n : Int64)
  | uint (n : UInt64)
  | float (bits : UInt64)
  | str (s : Str)
  | arr (xs : List Json)
  | obj (fields : List (Str × Json))

namespace Json

theorem induction {P : Json → Prop} (null : P .null) (bool : ∀ b, P (.bool b))
    (int : ∀ n, P (.int n)) (uint : ∀ n, P (.uint n)) (float : ∀ b, P (.float b))
    (str : ∀ s, P (.str s)) (arr : ∀ xs, (∀ x ∈ xs, P x) → P (.arr xs))
    (obj : ∀ fs, (∀ f ∈ fs, P f.2) → P (.obj fs)) (j : Json) : P j := by
  refine @Json.rec P (fun xs => ∀ x ∈ xs, P x) (fun fs => ∀ f ∈ fs, P f.2) (fun f => P f.2)
    null bool int uint float str arr obj ?nil ?cons ?fnil ?fcons ?mk j
  case nil => simp
  case cons => intro x xs hx hxs; simpa using ⟨hx, hxs⟩
  case fnil => simp
  case fcons => rintro ⟨k, x⟩ fs hx hfs; simpa using ⟨hx, fun a b h => hfs (a, b) h⟩
  case mk => exact fun _ _ h => h

/-! Field tables. `assign` is `map[key] = value`, `emplace` keeps an existing entry. -/

def assign (k : Str) (v : Json) : List (Str × Json) → List (Str × Json)
  | [] => [(k, v)]
  | (k', v') :: fs =>
    if k = k' then (k, v) :: fs
    else if k < k' then (k, v) :: (k', v') :: fs
    else (k', v') :: assign k v fs

def emplace (fs : List (Str × Json)) (f : Str × Json) : List (Str × Json) :=
  if (fs.lookup f.1).isSome then fs else assign f.1 f.2 fs

/-- An object written as an initialiser list. -/
def ofFields (fs : List (Str × Json)) : Json := .obj (fs.foldl emplace [])

theorem lookup_assign_self (k : Str) (v : Json) (fs : List (Str × Json)) :
    (assign k v fs).lookup k = some v := by
  induction fs with
  | nil => simp [assign]
  | cons f fs ih =>
    obtain ⟨k', v'⟩ := f
    unfold assign
    split_ifs with h h'
    · simp
    · simp
    · rw [List.lookup_cons, beq_false_of_ne h]; exact ih

theorem lookup_assign_ne {k k' : Str} (h : k' ≠ k) (v : Json) (fs : List (Str × Json)) :
    (assign k v fs).lookup k' = fs.lookup k' := by
  induction fs with
  | nil => simp [assign, List.lookup_cons, beq_false_of_ne h]
  | cons f fs ih =>
    obtain ⟨a, v'⟩ := f
    unfold assign
    split_ifs with hk hlt
    · subst hk; simp [List.lookup_cons, beq_false_of_ne h]
    · simp [List.lookup_cons, beq_false_of_ne h]
    · simp only [List.lookup_cons, ih]

/-! Accessors. Each mismatch throws the `type_error` or `out_of_range` of the library. -/

def typeName : Json → Str
  | .null => lit "null"
  | .bool _ => lit "boolean"
  | .int _ | .uint _ | .float _ => lit "number"
  | .str _ => lit "string"
  | .arr _ => lit "array"
  | .obj _ => lit "object"

def isObject : Json → Bool
  | .obj _ => true
  | _ => false

def isString : Json → Bool
  | .str _ => true
  | _ => false

def isNull : Json → Bool
  | .null => true
  | _ => false

def find? (j : Json) (key : Str) : Option Json :=
  match j with
  | .obj fs => fs.lookup key
  | _ => none

def contains (j : Json) (key : Str) : Bool := (j.find? key).isSome

def atKey (j : Json) (key : Str) : Except Exn Json :=
  match j with
  | .obj fs =>
    match fs.lookup key with
    | some v => .ok v
    | none =>
      .error (.std (lit "[json.exception.out_of_range.403] key '" ++ key ++ lit "' not found"))
  | _ => .error (.std (lit "[json.exception.type_error.304] cannot use at() with " ++ j.typeName))

def getString : Json → Except Exn Str
  | .str s => .ok s
  | j => .error (.std
      (lit "[json.exception.type_error.302] type must be string, but is " ++ j.typeName))

/-- A double cast to a signed integer of `width` bits: toward zero; out of range the processor's
indefinite value. -/
def truncate (width : ℕ) (bits : UInt64) : ℤ :=
  let exponent := bits.toNat / 2 ^ 52 % 2 ^ 11
  let mantissa := bits.toNat % 2 ^ 52
  if exponent < 1023 then 0
  else if 1023 + (width - 1) ≤ exponent then -2 ^ (width - 1)
  else
    let shift := exponent - 1023
    let magnitude : ℕ :=
      if shift ≤ 52 then (2 ^ 52 + mantissa) / 2 ^ (52 - shift)
      else (2 ^ 52 + mantissa) * 2 ^ (shift - 52)
    if bits.toNat / 2 ^ 63 = 1 then -magnitude else magnitude

/-- `get<int>`: any number or boolean, narrowed to 32 bits. -/
def getInt : Json → Except Exn Int32
  | .bool b => .ok (if b then 1 else 0)
  | .int n => .ok n.toInt32
  | .uint n => .ok n.toUInt32.toInt32
  | .float bits => .ok (Int32.ofInt (truncate 32 bits))
  | j => .error (.std
      (lit "[json.exception.type_error.302] type must be number, but is " ++ j.typeName))

def getInt64 : Json → Except Exn Int64
  | .bool b => .ok (if b then 1 else 0)
  | .int n => .ok n
  | .uint n => .ok n.toInt64
  | .float bits => .ok (Int64.ofInt (truncate 64 bits))
  | j => .error (.std
      (lit "[json.exception.type_error.302] type must be number, but is " ++ j.typeName))

def valueOf (j : Json) (key : Str) : Except Exn (Option Json) :=
  match j with
  | .obj fs => .ok (fs.lookup key)
  | _ => .error (.std
      (lit "[json.exception.type_error.306] cannot use value() with " ++ j.typeName))

def value {α : Type} (get : Json → Except Exn α) (j : Json) (key : Str) (default : α) :
    Except Exn α :=
  match j.valueOf key with
  | .error x => .error x
  | .ok none => .ok default
  | .ok (some v) => get v

def valueJson : Json → Str → Json → Except Exn Json := value .ok
def valueString : Json → Str → Str → Except Exn Str := value getString
def valueInt : Json → Str → Int32 → Except Exn Int32 := value getInt
def valueInt64 : Json → Str → Int64 → Except Exn Int64 := value getInt64

/-! The text form. `dump` accepts exactly valid UTF-8 and writes a NaN or an infinity as `null`;
`parse` reads a number without sign as unsigned and keeps the last of two equal keys. -/

mutual
def utf8 : Json → Bool
  | .str s => utf8Valid s
  | .arr xs => utf8List xs
  | .obj fs => utf8Fields fs
  | _ => true
def utf8List : List Json → Bool
  | [] => true
  | x :: xs => x.utf8 && utf8List xs
def utf8Fields : List (Str × Json) → Bool
  | [] => true
  | (k, x) :: fs => utf8Valid k && x.utf8 && utf8Fields fs
end

def finite (bits : UInt64) : Bool := bits.toNat / 2 ^ 52 % 2 ^ 11 != 2 ^ 11 - 1

mutual
def reread : Json → Json
  | .int n => if 0 ≤ n then .uint n.toUInt64 else .int n
  | .float bits => if finite bits then .float bits else .null
  | .arr xs => .arr (rereadList xs)
  | .obj fs => .obj (rereadFields [] fs)
  | j => j
def rereadList : List Json → List Json
  | [] => []
  | x :: xs => x.reread :: rereadList xs
def rereadFields (read : List (Str × Json)) : List (Str × Json) → List (Str × Json)
  | [] => read
  | (k, x) :: fs => rereadFields (assign k x.reread read) fs
end

/-! Equality. Numbers of different kinds are compared as the library does: a signed and an
unsigned one as signed, a float and an integer as doubles. -/

def isNaN (bits : UInt64) : Bool := !finite bits && bits.toNat % 2 ^ 52 != 0

def floatEq (a b : UInt64) : Bool :=
  !isNaN a && !isNaN b && (a == b || (a.toNat % 2 ^ 63 == 0 && b.toNat % 2 ^ 63 == 0))

/-- The double nearest to a natural number below `2 ^ 64`, ties to even. -/
def natToDouble (n : ℕ) : UInt64 :=
  if n = 0 then 0
  else
    let k := Nat.log2 n
    if k ≤ 52 then UInt64.ofNat ((k + 1023) * 2 ^ 52 + (n - 2 ^ k) * 2 ^ (52 - k))
    else
      let unit := 2 ^ (k - 52)
      let q := n / unit
      let up := 2 * (n % unit) > unit || (2 * (n % unit) == unit && q % 2 == 1)
      UInt64.ofNat ((k + 1022) * 2 ^ 52 + (if up then q + 1 else q))

def uintToDouble (n : UInt64) : UInt64 := natToDouble n.toNat

def intToDouble (n : Int64) : UInt64 :=
  if 0 ≤ n then natToDouble n.toInt.natAbs else natToDouble n.toInt.natAbs ||| 0x8000000000000000

mutual
def eqv : Json → Json → Bool
  | .null, .null => true
  | .bool a, .bool b => a == b
  | .int a, .int b => a == b
  | .uint a, .uint b => a == b
  | .float a, .float b => floatEq a b
  | .int a, .uint b => a == b.toInt64
  | .uint a, .int b => a.toInt64 == b
  | .int a, .float b => floatEq (intToDouble a) b
  | .float a, .int b => floatEq a (intToDouble b)
  | .uint a, .float b => floatEq (uintToDouble a) b
  | .float a, .uint b => floatEq a (uintToDouble b)
  | .str a, .str b => a == b
  | .arr xs, .arr ys => eqvList xs ys
  | .obj fs, .obj gs => eqvFields fs gs
  | _, _ => false
def eqvList : List Json → List Json → Bool
  | [], [] => true
  | x :: xs, y :: ys => x.eqv y && eqvList xs ys
  | _, _ => false
def eqvFields : List (Str × Json) → List (Str × Json) → Bool
  | [], [] => true
  | (k, x) :: fs, (k', y) :: gs => k == k' && x.eqv y && eqvFields fs gs
  | _, _ => false
end

mutual
/-- The keys of every object are strictly increasing, as a `std::map` holds them. -/
def ordered : Json → Bool
  | .arr xs => orderedList xs
  | .obj fs => decide ((fs.map Prod.fst).Pairwise (· < ·)) && orderedFields fs
  | _ => true
def orderedList : List Json → Bool
  | [] => true
  | x :: xs => x.ordered && orderedList xs
def orderedFields : List (Str × Json) → Bool
  | [] => true
  | (_, x) :: fs => x.ordered && orderedFields fs
end

end Json

/-- A tree that the library can build. -/
structure Value where
  json : Json
  ordered : json.ordered = true

/-- `dump` and `parse` of the JSON library; the error is the `what()` of what they throw. -/
structure JsonText where
  dump : Json → Except Str Str
  parse : Str → Except Str Json

structure JsonText.Lawful (J : JsonText) : Prop where
  dump_valid : ∀ j : Json, j.utf8 = true → ∃ t, J.dump j = .ok t ∧ J.parse t = .ok j.reread
  dump_invalid : ∀ j : Json, j.utf8 = false → ∃ what, J.dump j = .error what

end Blueboat
