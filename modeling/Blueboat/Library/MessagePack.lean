import Mathlib.Data.List.Basic
import Mathlib.Data.Nat.Log
import Mathlib.Tactic.Ring

set_option autoImplicit false

/-! The MessagePack wire format: the table of first bytes, the relation between an object and
its encodings, and a reader that accepts every encoding. A writer may pick any of the encodings;
the relation does not ask for the shortest one. -/
namespace MessagePack

abbrev Bytes := List UInt8

/-- A `float32` is kept widened to the 64-bit pattern of the same value. -/
inductive Object where
  | nil
  | bool (b : Bool)
  | posInt (n : UInt64)
  | negInt (n : Int64)
  | float32 (bits : UInt64)
  | float64 (bits : UInt64)
  | str (s : Bytes)
  | bin (s : Bytes)
  | arr (xs : List Object)
  | map (kvs : List (Object × Object))
  | ext (tag : UInt8) (s : Bytes)

def bigEndian : ℕ → ℕ → Bytes
  | 0, _ => []
  | w + 1, n => bigEndian w (n / 256) ++ [UInt8.ofNat (n % 256)]

def ofBigEndian (bs : Bytes) : ℕ := bs.foldl (fun n b => 256 * n + b.toNat) 0

@[simp] theorem bigEndian_length (w n : ℕ) : (bigEndian w n).length = w := by
  induction w generalizing n with
  | zero => rfl
  | succ w ih => simp [bigEndian, ih]

theorem ofBigEndian_bigEndian {w n : ℕ} (h : n < 256 ^ w) : ofBigEndian (bigEndian w n) = n := by
  induction w generalizing n with
  | zero => simp [bigEndian, ofBigEndian] at h ⊢; omega
  | succ w ih =>
    have hd : n / 256 < 256 ^ w := Nat.div_lt_of_lt_mul (by rw [Nat.pow_succ] at h; omega)
    have hrec := ih hd
    simp only [ofBigEndian] at hrec
    simp only [bigEndian, ofBigEndian, List.foldl_append, List.foldl_cons, List.foldl_nil, hrec]
    rw [UInt8.toNat_ofNat_of_lt' (by simp [UInt8.size]; omega)]
    omega

inductive Kind where
  | str | bin | arr | map | ext
  deriving DecidableEq

/-- What a first byte announces: a whole object, a number of the given width, or a `Kind` whose
size is in the byte (`count`) or in the `w` bytes after it (`size`). -/
inductive Head where
  | whole (o : Object)
  | uint (w : ℕ)
  | int (w : ℕ)
  | float32
  | float64
  | count (k : Kind) (n : ℕ)
  | size (k : Kind) (w : ℕ)

def tags : List (UInt8 × Head) :=
  [(0xc0, .whole .nil), (0xc2, .whole (.bool false)), (0xc3, .whole (.bool true)),
    (0xc4, .size .bin 1), (0xc5, .size .bin 2), (0xc6, .size .bin 4),
    (0xc7, .size .ext 1), (0xc8, .size .ext 2), (0xc9, .size .ext 4),
    (0xca, .float32), (0xcb, .float64),
    (0xcc, .uint 1), (0xcd, .uint 2), (0xce, .uint 4), (0xcf, .uint 8),
    (0xd0, .int 1), (0xd1, .int 2), (0xd2, .int 4), (0xd3, .int 8),
    (0xd4, .count .ext 1), (0xd5, .count .ext 2), (0xd6, .count .ext 4), (0xd7, .count .ext 8),
    (0xd8, .count .ext 16), (0xd9, .size .str 1), (0xda, .size .str 2), (0xdb, .size .str 4),
    (0xdc, .size .arr 2), (0xdd, .size .arr 4), (0xde, .size .map 2), (0xdf, .size .map 4)]

/-- The first-byte table; `0xc1` is never used. -/
def head (b : UInt8) : Option Head :=
  if b < 0x80 then some (.whole (.posInt b.toUInt64))
  else if b < 0x90 then some (.count .map (b.toNat - 0x80))
  else if b < 0xa0 then some (.count .arr (b.toNat - 0x90))
  else if b < 0xc0 then some (.count .str (b.toNat - 0xa0))
  else if 0xe0 ≤ b then some (.whole (.negInt (Int64.ofInt (b.toNat - 256))))
  else tags.lookup b

def widen (bits : ℕ) : UInt64 :=
  let sign := bits / 2 ^ 31 * 2 ^ 63
  let exponent := bits / 2 ^ 23 % 2 ^ 8
  let mantissa := bits % 2 ^ 23
  if exponent = 255 then UInt64.ofNat (sign + 2047 * 2 ^ 52 + mantissa * 2 ^ 29)
  else if exponent = 0 then
    if mantissa = 0 then UInt64.ofNat sign
    else
      let k := Nat.log2 mantissa
      UInt64.ofNat (sign + (k + 874) * 2 ^ 52 + (mantissa - 2 ^ k) * 2 ^ (52 - k))
  else UInt64.ofNat (sign + (exponent + 896) * 2 ^ 52 + mantissa * 2 ^ 29)

/-- `bs` is a first byte, with the bytes of a size after it if it needs them, that announces `n`
items of the kind. -/
def Sized (k : Kind) (n : ℕ) (bs : Bytes) : Prop :=
  (∃ b, head b = some (.count k n) ∧ bs = [b]) ∨
    ∃ b w, head b = some (.size k w) ∧ n < 256 ^ w ∧ bs = b :: bigEndian w n

def Whole (o : Object) (bs : Bytes) : Prop := ∃ b, head b = some (.whole o) ∧ bs = [b]

mutual
/-- `bs` is one of the encodings of the object. -/
def Encodes : Object → Bytes → Prop
  | .nil, bs => Whole .nil bs
  | .bool b, bs => Whole (.bool b) bs
  | .posInt n, bs => Whole (.posInt n) bs ∨
      (∃ b w, head b = some (.uint w) ∧ n.toNat < 256 ^ w ∧ bs = b :: bigEndian w n.toNat) ∨
      ∃ b w, head b = some (.int w) ∧ 2 * n.toNat < 256 ^ w ∧ bs = b :: bigEndian w n.toNat
  | .negInt n, bs => Whole (.negInt n) bs ∨
      ∃ b w, ∃ m : ℕ, head b = some (.int w) ∧ n.toInt = (m : ℤ) - 256 ^ w ∧ m < 256 ^ w ∧
        256 ^ w ≤ 2 * m ∧ bs = b :: bigEndian w m
  | .float32 d, bs => ∃ b m, head b = some .float32 ∧ m < 256 ^ 4 ∧ d = widen m ∧
      bs = b :: bigEndian 4 m
  | .float64 d, bs => ∃ b, head b = some .float64 ∧ bs = b :: bigEndian 8 d.toNat
  | .str s, bs => ∃ size, Sized .str s.length size ∧ bs = size ++ s
  | .bin s, bs => ∃ size, Sized .bin s.length size ∧ bs = size ++ s
  | .ext t s, bs => ∃ size, Sized .ext s.length size ∧ bs = size ++ t :: s
  | .arr xs, bs => ∃ size body, Sized .arr xs.length size ∧ EncodesList xs body ∧
      bs = size ++ body
  | .map kvs, bs => ∃ size body, Sized .map kvs.length size ∧ EncodesPairs kvs body ∧
      bs = size ++ body
def EncodesList : List Object → Bytes → Prop
  | [], bs => bs = []
  | x :: xs, bs => ∃ b₁ b₂, Encodes x b₁ ∧ EncodesList xs b₂ ∧ bs = b₁ ++ b₂
def EncodesPairs : List (Object × Object) → Bytes → Prop
  | [], bs => bs = []
  | (k, v) :: kvs, bs => ∃ b₁ b₂ b₃, Encodes k b₁ ∧ Encodes v b₂ ∧ EncodesPairs kvs b₃ ∧
      bs = b₁ ++ b₂ ++ b₃
end

/-! The reader. -/

abbrev Reader (α : Type) := Bytes → Option (α × Bytes)

def take (n : ℕ) : Reader Bytes := fun bs =>
  if n ≤ bs.length then some (bs.take n, bs.drop n) else none

def number (w : ℕ) : Reader ℕ := fun bs => (take w bs).map fun p => (ofBigEndian p.1, p.2)

def many {α : Type} (r : Reader α) : ℕ → Reader (List α)
  | 0, bs => some ([], bs)
  | n + 1, bs =>
    match r bs with
    | none => none
    | some (x, bs) => (many r n bs).map fun p => (x :: p.1, p.2)

def pair {α : Type} (r : Reader α) : Reader (α × α) := fun bs =>
  match r bs with
  | none => none
  | some (k, bs) => (r bs).map fun p => ((k, p.1), p.2)

def ofSigned (w m : ℕ) : Object :=
  if 2 * m < 256 ^ w then .posInt (UInt64.ofNat m)
  else .negInt (Int64.ofInt ((m : ℤ) - 256 ^ w))

def items (r : Reader Object) (n : ℕ) : Kind → Reader Object
  | .str, bs => (take n bs).map fun p => (.str p.1, p.2)
  | .bin, bs => (take n bs).map fun p => (.bin p.1, p.2)
  | .ext, [] => none
  | .ext, t :: bs => (take n bs).map fun p => (.ext t p.1, p.2)
  | .arr, bs => (many r n bs).map fun p => (.arr p.1, p.2)
  | .map, bs => (many (pair r) n bs).map fun p => (.map p.1, p.2)

/-- Reads one object; `fuel` bounds the nesting. -/
def read : ℕ → Reader Object
  | 0, _ => none
  | _ + 1, [] => none
  | fuel + 1, b :: bs =>
    match head b with
    | none => none
    | some (.whole o) => some (o, bs)
    | some (.uint w) => (number w bs).map fun p => (.posInt (UInt64.ofNat p.1), p.2)
    | some (.int w) => (number w bs).map fun p => (ofSigned w p.1, p.2)
    | some .float32 => (number 4 bs).map fun p => (.float32 (widen p.1), p.2)
    | some .float64 => (number 8 bs).map fun p => (.float64 (UInt64.ofNat p.1), p.2)
    | some (.count k n) => items (read fuel) n k bs
    | some (.size k w) =>
      match number w bs with
      | none => none
      | some (n, bs) => items (read fuel) n k bs

theorem take_append (bs rest : Bytes) : take bs.length (bs ++ rest) = some (bs, rest) := by
  simp [take]

theorem number_append {w n : ℕ} (h : n < 256 ^ w) (rest : Bytes) :
    number w (bigEndian w n ++ rest) = some (n, rest) := by
  have hw : take w (bigEndian w n ++ rest) = some (bigEndian w n, rest) := by
    simpa using take_append (bigEndian w n) rest
  simp [number, hw, ofBigEndian_bigEndian h]

theorem Sized.read {k : Kind} {n : ℕ} {size : Bytes} (h : Sized k n size) (fuel : ℕ)
    (body : Bytes) :
    MessagePack.read (fuel + 1) (size ++ body) = items (MessagePack.read fuel) n k body := by
  rcases h with ⟨b, hb, rfl⟩ | ⟨b, w, hb, hn, rfl⟩
  · simp [MessagePack.read, hb]
  · simp [MessagePack.read, hb, number_append hn]

theorem Sized.length_pos {k : Kind} {n : ℕ} {size : Bytes} (h : Sized k n size) :
    0 < size.length := by
  rcases h with ⟨b, _, rfl⟩ | ⟨b, w, _, _, rfl⟩ <;> simp

theorem Whole.read {o : Object} {bs : Bytes} (h : Whole o bs) (fuel : ℕ) (rest : Bytes) :
    MessagePack.read (fuel + 1) (bs ++ rest) = some (o, rest) := by
  obtain ⟨b, hb, rfl⟩ := h
  simp [MessagePack.read, hb]

/-- The reader takes back any encoding of `o` from the front of its input. -/
def Reads (o : Object) : Prop :=
  ∀ bs, Encodes o bs → ∀ fuel rest, bs.length ≤ fuel → read fuel (bs ++ rest) = some (o, rest)

theorem Whole.length {o : Object} {bs : Bytes} (h : Whole o bs) : bs.length = 1 := by
  obtain ⟨b, _, rfl⟩ := h; rfl

theorem Whole.reads {o : Object} {bs : Bytes} (h : Whole o bs) {fuel : ℕ} (hf : bs.length ≤ fuel)
    (rest : Bytes) : MessagePack.read fuel (bs ++ rest) = some (o, rest) := by
  obtain ⟨f, rfl⟩ : ∃ f, fuel = f + 1 := ⟨fuel - 1, by have := h.length; omega⟩
  exact h.read f rest

theorem many_reads {xs : List Object} (hx : ∀ x ∈ xs, Reads x) {bs : Bytes}
    (h : EncodesList xs bs) {fuel : ℕ} (hf : bs.length ≤ fuel) (rest : Bytes) :
    many (read fuel) xs.length (bs ++ rest) = some (xs, rest) := by
  induction xs generalizing bs with
  | nil => obtain rfl := h; rfl
  | cons x xs ih =>
    obtain ⟨b₁, b₂, h₁, h₂, rfl⟩ := h
    simp only [List.length_append] at hf
    have first := hx x (by simp) b₁ h₁ fuel (b₂ ++ rest) (by omega)
    have others := ih (fun y hy => hx y (by simp [hy])) h₂ (by omega)
    simp [many, first, others]

theorem pairs_reads {kvs : List (Object × Object)}
    (hx : ∀ kv ∈ kvs, Reads kv.1 ∧ Reads kv.2) {bs : Bytes} (h : EncodesPairs kvs bs)
    {fuel : ℕ} (hf : bs.length ≤ fuel) (rest : Bytes) :
    many (pair (read fuel)) kvs.length (bs ++ rest) = some (kvs, rest) := by
  induction kvs generalizing bs with
  | nil => obtain rfl := h; rfl
  | cons kv kvs ih =>
    obtain ⟨k, v⟩ := kv
    obtain ⟨b₁, b₂, b₃, h₁, h₂, h₃, rfl⟩ := h
    simp only [List.length_append] at hf
    have key := (hx (k, v) (by simp)).1 b₁ h₁ fuel (b₂ ++ (b₃ ++ rest)) (by omega)
    have value := (hx (k, v) (by simp)).2 b₂ h₂ fuel (b₃ ++ rest) (by omega)
    have others := ih (fun y hy => hx y (by simp [hy])) h₃ (by omega)
    simp only [List.append_assoc]
    simp [many, pair, key, value, others]

theorem Object.induction {P : Object → Prop} (nil : P .nil) (bool : ∀ b, P (.bool b))
    (posInt : ∀ n, P (.posInt n)) (negInt : ∀ n, P (.negInt n)) (float32 : ∀ d, P (.float32 d))
    (float64 : ∀ d, P (.float64 d)) (str : ∀ s, P (.str s)) (bin : ∀ s, P (.bin s))
    (arr : ∀ xs, (∀ x ∈ xs, P x) → P (.arr xs))
    (map : ∀ kvs, (∀ kv ∈ kvs, P kv.1 ∧ P kv.2) → P (.map kvs)) (ext : ∀ t s, P (.ext t s))
    (o : Object) : P o := by
  refine @Object.rec P (fun xs => ∀ x ∈ xs, P x) (fun kvs => ∀ kv ∈ kvs, P kv.1 ∧ P kv.2)
    (fun kv => P kv.1 ∧ P kv.2) nil bool posInt negInt float32 float64 str bin arr map ext
    ?nil ?cons ?pnil ?pcons ?mk o
  case nil => simp
  case cons => intro x xs hx hxs; simpa using ⟨hx, hxs⟩
  case pnil => simp
  case pcons =>
    intro kv kvs hkv hkvs kv' h'
    rcases List.mem_cons.1 h' with rfl | h'
    · exact hkv
    · exact hkvs kv' h'
  case mk => exact fun _ _ hk hv => ⟨hk, hv⟩

theorem reads (o : Object) : Reads o := by
  induction o using Object.induction with
  | nil => exact fun bs h fuel rest hf => Whole.reads h hf rest
  | bool b => exact fun bs h fuel rest hf => Whole.reads h hf rest
  | posInt n =>
    intro bs h fuel rest hf
    rcases h with h | ⟨b, w, hb, hn, rfl⟩ | ⟨b, w, hb, hn, rfl⟩
    · exact h.reads hf rest
    · obtain ⟨f, rfl⟩ : ∃ f, fuel = f + 1 := ⟨fuel - 1, by simp at hf; omega⟩
      simp [read, hb, number_append hn]
    · obtain ⟨f, rfl⟩ : ∃ f, fuel = f + 1 := ⟨fuel - 1, by simp at hf; omega⟩
      have hlt : n.toNat < 256 ^ w := by omega
      simp [read, hb, number_append hlt, ofSigned, hn]
  | negInt n =>
    intro bs h fuel rest hf
    rcases h with h | ⟨b, w, m, hb, hn, hm, hneg, rfl⟩
    · exact h.reads hf rest
    · obtain ⟨f, rfl⟩ : ∃ f, fuel = f + 1 := ⟨fuel - 1, by simp at hf; omega⟩
      have hval : ofSigned w m = .negInt n := by
        rw [ofSigned, if_neg (Nat.not_lt.2 hneg), ← hn, Int64.ofInt_toInt]
      simp [read, hb, number_append hm, hval]
  | float32 d =>
    rintro bs ⟨b, m, hb, hm, rfl, rfl⟩ fuel rest hf
    obtain ⟨f, rfl⟩ : ∃ f, fuel = f + 1 := ⟨fuel - 1, by simp at hf; omega⟩
    simp [read, hb, number_append hm]
  | float64 d =>
    rintro bs ⟨b, hb, rfl⟩ fuel rest hf
    obtain ⟨f, rfl⟩ : ∃ f, fuel = f + 1 := ⟨fuel - 1, by simp at hf; omega⟩
    have hd : d.toNat < 256 ^ 8 := d.toNat_lt
    simp [read, hb, number_append hd]
  | str s =>
    rintro bs ⟨size, hs, rfl⟩ fuel rest hf
    have := hs.length_pos
    obtain ⟨f, rfl⟩ : ∃ f, fuel = f + 1 := ⟨fuel - 1, by simp at hf; omega⟩
    rw [List.append_assoc, hs.read]
    simp [items, take_append]
  | bin s =>
    rintro bs ⟨size, hs, rfl⟩ fuel rest hf
    have := hs.length_pos
    obtain ⟨f, rfl⟩ : ∃ f, fuel = f + 1 := ⟨fuel - 1, by simp at hf; omega⟩
    rw [List.append_assoc, hs.read]
    simp [items, take_append]
  | ext t s =>
    rintro bs ⟨size, hs, rfl⟩ fuel rest hf
    have := hs.length_pos
    obtain ⟨f, rfl⟩ : ∃ f, fuel = f + 1 := ⟨fuel - 1, by simp at hf; omega⟩
    rw [List.append_assoc, hs.read]
    simp [items, take_append]
  | arr xs ih =>
    rintro bs ⟨size, body, hs, hb, rfl⟩ fuel rest hf
    have := hs.length_pos
    obtain ⟨f, rfl⟩ : ∃ f, fuel = f + 1 := ⟨fuel - 1, by simp at hf; omega⟩
    simp only [List.length_append] at hf
    rw [List.append_assoc, hs.read]
    simp [items, many_reads ih hb (by omega : body.length ≤ f)]
  | map kvs ih =>
    rintro bs ⟨size, body, hs, hb, rfl⟩ fuel rest hf
    have := hs.length_pos
    obtain ⟨f, rfl⟩ : ∃ f, fuel = f + 1 := ⟨fuel - 1, by simp at hf; omega⟩
    simp only [List.length_append] at hf
    rw [List.append_assoc, hs.read]
    simp [items, pairs_reads ih hb (by omega : body.length ≤ f)]

/-- Reads a text that holds one object; further bytes are ignored. -/
def unpack (bs : Bytes) : Option Object := (read bs.length bs).map Prod.fst

theorem unpack_encodes {o : Object} {bs : Bytes} (h : Encodes o bs) (rest : Bytes) :
    unpack (bs ++ rest) = some o := by
  have hread := reads o bs h (bs ++ rest).length rest (by simp)
  rw [unpack, hread]
  rfl

/-! The shortest encodings. -/

def shortUint (n : UInt64) : Bytes :=
  if n < 0x80 then [n.toUInt8]
  else if n < 0x100 then 0xcc :: bigEndian 1 n.toNat
  else if n < 0x10000 then 0xcd :: bigEndian 2 n.toNat
  else if n < 0x100000000 then 0xce :: bigEndian 4 n.toNat
  else 0xcf :: bigEndian 8 n.toNat

def shortInt (n : Int64) : Bytes :=
  if 0 ≤ n then shortUint n.toUInt64
  else if -32 ≤ n then [UInt8.ofNat (n.toInt + 256).toNat]
  else if -128 ≤ n then 0xd0 :: bigEndian 1 (n.toInt + 256 ^ 1).toNat
  else if -32768 ≤ n then 0xd1 :: bigEndian 2 (n.toInt + 256 ^ 2).toNat
  else if -2147483648 ≤ n then 0xd2 :: bigEndian 4 (n.toInt + 256 ^ 4).toNat
  else 0xd3 :: bigEndian 8 (n.toInt + 256 ^ 8).toNat

def double (bits : UInt64) : Bytes := 0xcb :: bigEndian 8 bits.toNat

def shortStr (n : UInt32) : Bytes :=
  if n < 32 then [0xa0 + n.toUInt8]
  else if n < 0x100 then 0xd9 :: bigEndian 1 n.toNat
  else if n < 0x10000 then 0xda :: bigEndian 2 n.toNat
  else 0xdb :: bigEndian 4 n.toNat

def shortArray (n : UInt32) : Bytes :=
  if n < 16 then [0x90 + n.toUInt8]
  else if n < 0x10000 then 0xdc :: bigEndian 2 n.toNat
  else 0xdd :: bigEndian 4 n.toNat

def shortMap (n : UInt32) : Bytes :=
  if n < 16 then [0x80 + n.toUInt8]
  else if n < 0x10000 then 0xde :: bigEndian 2 n.toNat
  else 0xdf :: bigEndian 4 n.toNat

theorem head_count : (∀ n < 32, head (0xa0 + UInt8.ofNat n) = some (.count .str n)) ∧
    (∀ n < 16, head (0x90 + UInt8.ofNat n) = some (.count .arr n)) ∧
    ∀ n < 16, head (0x80 + UInt8.ofNat n) = some (.count .map n) := by
  have sum : ∀ a n, a + n < 256 → (UInt8.ofNat a + UInt8.ofNat n).toNat = a + n := by
    intro a n h
    rw [UInt8.toNat_add, UInt8.toNat_ofNat', UInt8.toNat_ofNat']
    omega
  refine ⟨fun n hn => ?_, fun n hn => ?_, fun n hn => ?_⟩
  · have hval := sum 0xa0 n (by omega)
    change (0xa0 + UInt8.ofNat n).toNat = 0xa0 + n at hval
    rw [head, if_neg, if_neg, if_neg, if_pos, hval, Nat.add_sub_cancel_left]
    all_goals simp only [UInt8.lt_iff_toNat_lt, hval, UInt8.reduceToNat]; omega
  · have hval := sum 0x90 n (by omega)
    change (0x90 + UInt8.ofNat n).toNat = 0x90 + n at hval
    rw [head, if_neg, if_neg, if_pos, hval, Nat.add_sub_cancel_left]
    all_goals simp only [UInt8.lt_iff_toNat_lt, hval, UInt8.reduceToNat]; omega
  · have hval := sum 0x80 n (by omega)
    change (0x80 + UInt8.ofNat n).toNat = 0x80 + n at hval
    rw [head, if_neg, if_pos, hval, Nat.add_sub_cancel_left]
    all_goals simp only [UInt8.lt_iff_toNat_lt, hval, UInt8.reduceToNat]; omega

theorem shortStr_sized (n : UInt32) : Sized .str n.toNat (shortStr n) := by
  have hn := n.toNat_lt
  unfold shortStr
  split_ifs with h₁ h₂ h₃ <;> simp only [UInt32.lt_iff_toNat_lt] at *
  · exact .inl ⟨_, head_count.1 n.toNat h₁, by simp⟩
  · exact .inr ⟨0xd9, 1, rfl, h₂, rfl⟩
  · exact .inr ⟨0xda, 2, rfl, h₃, rfl⟩
  · exact .inr ⟨0xdb, 4, rfl, hn, rfl⟩

theorem shortArray_sized (n : UInt32) : Sized .arr n.toNat (shortArray n) := by
  have hn := n.toNat_lt
  unfold shortArray
  split_ifs with h₁ h₂ <;> simp only [UInt32.lt_iff_toNat_lt] at *
  · exact .inl ⟨_, head_count.2.1 n.toNat h₁, by simp⟩
  · exact .inr ⟨0xdc, 2, rfl, h₂, rfl⟩
  · exact .inr ⟨0xdd, 4, rfl, hn, rfl⟩

theorem shortMap_sized (n : UInt32) : Sized .map n.toNat (shortMap n) := by
  have hn := n.toNat_lt
  unfold shortMap
  split_ifs with h₁ h₂ <;> simp only [UInt32.lt_iff_toNat_lt] at *
  · exact .inl ⟨_, head_count.2.2 n.toNat h₁, by simp⟩
  · exact .inr ⟨0xde, 2, rfl, h₂, rfl⟩
  · exact .inr ⟨0xdf, 4, rfl, hn, rfl⟩

theorem double_encodes (bits : UInt64) : Encodes (.float64 bits) (double bits) :=
  ⟨0xcb, rfl, rfl⟩

theorem shortUint_encodes (n : UInt64) : Encodes (.posInt n) (shortUint n) := by
  have hn := n.toNat_lt
  unfold shortUint
  split_ifs with h₁ h₂ h₃ h₄ <;> simp only [UInt64.lt_iff_toNat_lt] at *
  · refine .inl ⟨n.toUInt8, ?_, rfl⟩
    have hval : n.toUInt8.toNat = n.toNat := by
      simp; simp at h₁; omega
    have hlt : n.toUInt8 < 0x80 := by
      rw [UInt8.lt_iff_toNat_lt, hval]; exact h₁
    have hback : n.toUInt8.toUInt64 = n := by
      apply UInt64.toNat_inj.1; simpa using hval
    simp [head, hlt, hback]
  · exact .inr (.inl ⟨0xcc, 1, rfl, h₂, rfl⟩)
  · exact .inr (.inl ⟨0xcd, 2, rfl, h₃, rfl⟩)
  · exact .inr (.inl ⟨0xce, 4, rfl, h₄, rfl⟩)
  · exact .inr (.inl ⟨0xcf, 8, rfl, hn, rfl⟩)

theorem signed_encodes {b : UInt8} {w : ℕ} {n : Int64} (hb : head b = some (.int w))
    (hneg : n.toInt < 0) (hlow : -(256 ^ w : ℤ) ≤ 2 * n.toInt) :
    Encodes (.negInt n) (b :: bigEndian w (n.toInt + 256 ^ w).toNat) := by
  refine .inr ⟨b, w, _, hb, ?_, ?_, ?_, rfl⟩
  · omega
  · have : ((256 ^ w : ℕ) : ℤ) = 256 ^ w := by norm_cast
    omega
  · have : ((256 ^ w : ℕ) : ℤ) = 256 ^ w := by norm_cast
    omega

theorem shortInt_encodes (n : Int64) :
    Encodes (if 0 ≤ n then .posInt n.toUInt64 else .negInt n) (shortInt n) := by
  have hlow := n.le_toInt
  unfold shortInt
  split_ifs with h₀ h₁ h₂ h₃ h₄
  · exact shortUint_encodes _
  all_goals simp only [Int64.le_iff_toInt_le, not_le] at *
  · refine .inl ⟨_, ?_, rfl⟩
    change n.toInt < 0 at h₀
    change (-32 : ℤ) ≤ n.toInt at h₁
    have hval : (UInt8.ofNat (n.toInt + 256).toNat).toNat = (n.toInt + 256).toNat :=
      UInt8.toNat_ofNat_of_lt' (by simp [UInt8.size]; omega)
    have hback : Int64.ofInt (((n.toInt + 256).toNat : ℤ) - 256) = n := by
      have : ((n.toInt + 256).toNat : ℤ) - 256 = n.toInt := by omega
      rw [this, Int64.ofInt_toInt]
    simp only [head, UInt8.lt_iff_toNat_lt, UInt8.le_iff_toNat_le, hval, hback]
    rw [if_neg, if_neg, if_neg, if_neg, if_pos] <;> simp <;> omega
  · exact signed_encodes rfl h₀ (by change (-128 : ℤ) ≤ n.toInt at h₂; omega)
  · exact signed_encodes rfl h₀ (by change (-32768 : ℤ) ≤ n.toInt at h₃; omega)
  · exact signed_encodes rfl h₀ (by change (-2147483648 : ℤ) ≤ n.toInt at h₄; omega)
  · exact signed_encodes rfl h₀ (by omega)

end MessagePack
