import Blueboat.Json

set_option autoImplicit false

/-! A `JsonText` that can be run: the compact text of `dump`, and a reader of compact texts. A
float is written as its bit pattern with an exponent mark instead of in decimal. -/
namespace Blueboat.Text

def quote : UInt8 := 0x22
def backslash : UInt8 := 0x5c
def comma : UInt8 := 0x2c
def colon : UInt8 := 0x3a
def minus : UInt8 := 0x2d

/-! Naturals. -/

def decimal : ℕ → ℕ → Str
  | 0, _ => []
  | fuel + 1, n =>
    if n < 10 then [UInt8.ofNat (48 + n)] else decimal fuel (n / 10) ++ [UInt8.ofNat (48 + n % 10)]

/-- Twenty digits hold every 64-bit number. -/
def natural (n : ℕ) : Str := decimal 20 n

def readDigits : ℕ → Str → ℕ × Str
  | n, [] => (n, [])
  | n, b :: bs => if isDigit b then readDigits (10 * n + (b.toNat - 48)) bs else (n, b :: bs)

def noDigit : Str → Bool
  | [] => true
  | b :: _ => !isDigit b

theorem readDigits_stop {n : ℕ} {rest : Str} (h : noDigit rest = true) :
    readDigits n rest = (n, rest) := by
  cases rest with
  | nil => rfl
  | cons b bs => simp only [noDigit, Bool.not_eq_true'] at h; simp [readDigits, h]

theorem readDigits_digit {n d : ℕ} (hd : d < 10) (rest : Str) :
    readDigits n (UInt8.ofNat (48 + d) :: rest) = readDigits (10 * n + d) rest := by
  have hval : (UInt8.ofNat (48 + d)).toNat = 48 + d :=
    UInt8.toNat_ofNat_of_lt' (by simp [UInt8.size]; omega)
  have hdigit : isDigit (UInt8.ofNat (48 + d)) = true := by
    simp only [isDigit, Bool.and_eq_true, decide_eq_true_eq, UInt8.le_iff_toNat_le, hval]
    exact ⟨by simp, by simp; omega⟩
  rw [readDigits, if_pos hdigit, hval, Nat.add_sub_cancel_left]

theorem readDigits_decimal (fuel : ℕ) {n : ℕ} (h : n < 10 ^ fuel) (m : ℕ) (rest : Str) :
    ∃ k, readDigits m (decimal fuel n ++ rest) = readDigits (10 ^ k * m + n) rest := by
  induction fuel generalizing n rest with
  | zero => exact ⟨0, by simp at h; simp [decimal, h]⟩
  | succ fuel ih =>
    unfold decimal
    split_ifs with hn
    · exact ⟨1, by simpa using readDigits_digit hn rest⟩
    · have hdiv : n / 10 < 10 ^ fuel := by
        apply Nat.div_lt_of_lt_mul
        rw [Nat.pow_succ] at h
        omega
      obtain ⟨k, hk⟩ := ih hdiv (UInt8.ofNat (48 + n % 10) :: rest)
      refine ⟨k + 1, ?_⟩
      rw [List.append_assoc, List.singleton_append, hk, readDigits_digit (Nat.mod_lt n (by omega))]
      congr 1
      rw [Nat.pow_succ, Nat.mul_add, ← Nat.mul_assoc, Nat.mul_comm 10 (10 ^ k)]
      omega

theorem readDigits_natural {n : ℕ} (h : n < 2 ^ 64) {rest : Str} (hr : noDigit rest = true) :
    readDigits 0 (natural n ++ rest) = (n, rest) := by
  obtain ⟨k, hk⟩ := readDigits_decimal 20 (by omega : n < 10 ^ 20) 0 rest
  rw [natural, hk, Nat.mul_zero, Nat.zero_add, readDigits_stop hr]

theorem decimal_head (fuel n : ℕ) :
    ∃ d ds, decimal (fuel + 1) n = UInt8.ofNat (48 + d) :: ds ∧ d < 10 := by
  induction fuel generalizing n with
  | zero =>
    unfold decimal
    split_ifs with hn
    · exact ⟨n, [], rfl, hn⟩
    · exact ⟨n % 10, [], rfl, Nat.mod_lt n (by omega)⟩
  | succ fuel ih =>
    unfold decimal
    split_ifs with hn
    · exact ⟨n, [], rfl, hn⟩
    · obtain ⟨d, ds, hd, hlt⟩ := ih (n / 10)
      exact ⟨d, ds ++ [UInt8.ofNat (48 + n % 10)], by rw [hd]; rfl, hlt⟩

/-! Strings. -/

def shortEscapes : List (UInt8 × UInt8) :=
  [(0x08, 0x62), (0x09, 0x74), (0x0a, 0x6e), (0x0c, 0x66), (0x0d, 0x72), (quote, quote),
    (backslash, backslash)]

def hexDigit (n : ℕ) : UInt8 := if n < 10 then UInt8.ofNat (48 + n) else UInt8.ofNat (87 + n)

def hexValue (b : UInt8) : ℕ := if b < 0x3a then b.toNat - 48 else b.toNat - 87

def escape (b : UInt8) : Str :=
  match shortEscapes.lookup b with
  | some c => [backslash, c]
  | none =>
    if b < 0x20 then
      [backslash, 0x75, 0x30, 0x30, hexDigit (b.toNat / 16), hexDigit (b.toNat % 16)]
    else [b]

def unescape (c : UInt8) : Option UInt8 := (shortEscapes.map Prod.swap).lookup c

def quoted (s : Str) : Str := quote :: (s.flatMap escape ++ [quote])

def consFst (b : UInt8) (p : Str × Str) : Str × Str := (b :: p.1, p.2)

/-- The rest of a string after its opening quote; of the `\u` escapes only `\u00..`. -/
def readString : Str → Option (Str × Str)
  | [] => none
  | b :: bs =>
    if b = quote then some ([], bs)
    else if b = backslash then
      match bs with
      | [] => none
      | c :: bs =>
        if c = 0x75 then
          match bs with
          | 0x30 :: 0x30 :: h :: l :: bs =>
            (readString bs).map (consFst (UInt8.ofNat (16 * hexValue h + hexValue l)))
          | _ => none
        else
          match unescape c with
          | none => none
          | some b => (readString bs).map (consFst b)
    else (readString bs).map (consFst b)

inductive Escaped (b : UInt8) : Str → Prop where
  | plain (hq : b ≠ quote) (hb : b ≠ backslash) : Escaped b [b]
  | short (c : UInt8) (hc : c ≠ 0x75) (hu : unescape c = some b) : Escaped b [backslash, c]
  | hex (h l : UInt8) (hv : UInt8.ofNat (16 * hexValue h + hexValue l) = b) :
    Escaped b [backslash, 0x75, 0x30, 0x30, h, l]

theorem escape_short {b c : UInt8} (h : shortEscapes.lookup b = some c) :
    c ≠ 0x75 ∧ unescape c = some b := by
  have checked : shortEscapes.all (fun p => p.2 ≠ 0x75 ∧ unescape p.2 = some p.1) = true := by decide
  have table : ∀ p ∈ shortEscapes, p.2 ≠ 0x75 ∧ unescape p.2 = some p.1 := by
    simpa only [List.all_eq_true, decide_eq_true_eq] using checked
  obtain ⟨before, after, hl, -⟩ := List.lookup_eq_some_iff.1 h
  exact table (b, c) (by rw [hl]; simp)

theorem hex_round_trip :
    ∀ n < 32, 16 * hexValue (hexDigit (n / 16)) + hexValue (hexDigit (n % 16)) = n := by
  decide

theorem escape_escaped (b : UInt8) : Escaped b (escape b) := by
  unfold escape
  split
  · rename_i c hc
    exact .short c (escape_short hc).1 (escape_short hc).2
  · rename_i hc
    split_ifs with hb
    · refine .hex _ _ ?_
      rw [hex_round_trip b.toNat (by simpa [UInt8.lt_iff_toNat_lt] using hb)]
      exact UInt8.ofNat_toNat
    · refine .plain ?_ ?_
      · rintro rfl; exact absurd hc (by decide)
      · rintro rfl; exact absurd hc (by decide)

theorem readString_escape (b : UInt8) (rest : Str) :
    readString (escape b ++ rest) = (readString rest).map (consFst b) := by
  generalize he : escape b = e
  have h : Escaped b e := he ▸ escape_escaped b
  cases h with
  | plain hq hb =>
    rw [List.singleton_append, readString.eq_def]
    simp only [hq, hb, if_false]
  | short c hc hu =>
    have hne : backslash ≠ quote := by decide
    rw [List.cons_append, List.singleton_append, readString.eq_def]
    simp only [hne, hc, hu, if_false, if_true]
  | hex h l hv =>
    have hne : backslash ≠ quote := by decide
    rw [List.cons_append, readString.eq_def]
    simp only [List.cons_append, List.nil_append, hne, hv, if_false, if_true]

theorem readString_quoted (s rest : Str) :
    readString (s.flatMap escape ++ [quote] ++ rest) = some (s, rest) := by
  induction s with
  | nil =>
    rw [List.flatMap_nil, List.nil_append, List.singleton_append, readString.eq_def]
    simp only [if_true]
  | cons b s ih =>
    rw [List.flatMap_cons, List.append_assoc, List.append_assoc, readString_escape,
      ← List.append_assoc, ih]
    rfl

/-! Values. -/

mutual
def text : Json → Str
  | .null => lit "null"
  | .bool b => if b then lit "true" else lit "false"
  | .int n =>
    if 0 ≤ n then natural n.toUInt64.toNat else minus :: natural n.toInt.natAbs
  | .uint n => natural n.toNat
  | .float bits => if Json.finite bits then natural bits.toNat ++ lit "e0" else lit "null"
  | .str s => quoted s
  | .arr xs => 0x5b :: ((textList xs).tail ++ [0x5d])
  | .obj fs => 0x7b :: ((textFields fs).tail ++ [0x7d])
def textList : List Json → Str
  | [] => []
  | x :: xs => comma :: (text x ++ textList xs)
def textFields : List (Str × Json) → Str
  | [] => []
  | (k, x) :: fs => comma :: (quoted k ++ colon :: (text x ++ textFields fs))
end

def strip (word : Str) (bs : Str) : Option Str :=
  if word.isPrefixOf bs then some (bs.drop word.length) else none

def readNumber (bs : Str) : Json × Str :=
  let (n, rest) := readDigits 0 bs
  match strip (lit "e0") rest with
  | some rest => (.float (UInt64.ofNat n), rest)
  | none => (.uint (UInt64.ofNat n), rest)

abbrev ValueReader := Str → Option (Json × Str)

def readItems (r : ValueReader) : ℕ → Str → Option (List Json × Str)
  | 0, _ => none
  | fuel + 1, bs =>
    match r bs with
    | some (x, b :: bs) =>
      if b = comma then (readItems r fuel bs).map fun p => (x :: p.1, p.2)
      else if b = 0x5d then some ([x], bs)
      else none
    | _ => none

def readField (r : ValueReader) (bs : Str) : Option ((Str × Json) × Str) :=
  match strip [quote] bs with
  | none => none
  | some bs =>
    match readString bs with
    | some (k, b :: bs) => if b = colon then (r bs).map fun p => ((k, p.1), p.2) else none
    | _ => none

def readFields (r : ValueReader) : ℕ → List (Str × Json) → Str → Option (List (Str × Json) × Str)
  | 0, _, _ => none
  | fuel + 1, fs, bs =>
    match readField r bs with
    | some ((k, x), b :: bs) =>
      if b = comma then readFields r fuel (Json.assign k x fs) bs
      else if b = 0x7d then some (Json.assign k x fs, bs)
      else none
    | _ => none

def words : List (Str × Json) :=
  [(lit "null", .null), (lit "true", .bool true), (lit "false", .bool false),
    (lit "[]", .arr []), (lit "{}", .obj [])]

def readWord (bs : Str) : Option (Json × Str) :=
  words.findSome? fun w => (strip w.1 bs).map fun rest => (w.2, rest)

/-- Reads a value; `fuel` bounds the nesting. -/
def readValue : ℕ → ValueReader
  | 0, _ => none
  | _ + 1, [] => none
  | fuel + 1, b :: bs =>
    match readWord (b :: bs) with
    | some p => some p
    | none =>
      if b = quote then (readString bs).map fun p => (.str p.1, p.2)
      else if b = 0x5b then (readItems (readValue fuel) fuel bs).map fun p => (.arr p.1, p.2)
      else if b = 0x7b then (readFields (readValue fuel) fuel [] bs).map fun p => (.obj p.1, p.2)
      else if b = minus then
        let (n, rest) := readDigits 0 bs
        some (.int (Int64.ofInt (-n)), rest)
      else if isDigit b then some (readNumber (b :: bs))
      else none

def parse (bs : Str) : Except Str Json :=
  match readValue bs.length bs with
  | some (j, []) => .ok j
  | _ => .error (lit "[json.exception.parse_error.101] parse error: syntax error")

def dump (j : Json) : Except Str Str :=
  if j.utf8 then .ok (text j)
  else .error (lit "[json.exception.type_error.316] invalid UTF-8 byte")

/-- What may stand after a value. -/
def Follow (rest : Str) : Prop :=
  rest = [] ∨ ∃ b bs, rest = b :: bs ∧ (b = comma ∨ b = 0x5d ∨ b = 0x7d)

def Reads (r : ValueReader) (x : Json) : Prop :=
  ∀ rest, Follow rest → r (text x ++ rest) = some (x.reread, rest)

theorem Follow.noDigit {rest : Str} (h : Follow rest) : noDigit rest = true := by
  rcases h with rfl | ⟨b, bs, rfl, rfl | rfl | rfl⟩ <;> rfl

theorem Follow.strip_mark {rest : Str} (h : Follow rest) : strip (lit "e0") rest = none := by
  rcases h with rfl | ⟨b, bs, rfl, rfl | rfl | rfl⟩ <;> rfl

theorem follow_comma (rest : Str) : Follow (comma :: rest) := .inr ⟨_, _, rfl, .inl rfl⟩

theorem readItems_text {r : ValueReader} {x : Json} {xs : List Json} (hx : Reads r x)
    (hxs : ∀ y ∈ xs, Reads r y) {fuel : ℕ} (hf : xs.length < fuel) (rest : Str) :
    readItems r fuel (text x ++ (textList xs ++ 0x5d :: rest)) =
      some (Json.rereadList (x :: xs), rest) := by
  induction xs generalizing x fuel with
  | nil =>
    obtain ⟨f, rfl⟩ : ∃ f, fuel = f + 1 := ⟨fuel - 1, by simp at hf; omega⟩
    have first := hx (0x5d :: rest) (.inr ⟨_, _, rfl, .inr (.inl rfl)⟩)
    have hne : (0x5d : UInt8) ≠ comma := by decide
    simp [readItems, textList, first, hne, Json.rereadList]
  | cons y ys ih =>
    obtain ⟨f, rfl⟩ : ∃ f, fuel = f + 1 := ⟨fuel - 1, by simp at hf; omega⟩
    have first := hx (comma :: (text y ++ (textList ys ++ 0x5d :: rest))) (follow_comma _)
    have others := ih (hxs y (by simp)) (fun z hz => hxs z (by simp [hz]))
      (by simp at hf; omega : ys.length < f)
    simp [readItems, textList, first, others, Json.rereadList]

theorem readField_text {r : ValueReader} {k : Str} {x : Json} (hx : Reads r x) {rest : Str}
    (hr : Follow rest) :
    readField r (quoted k ++ colon :: (text x ++ rest)) = some ((k, x.reread), rest) := by
  have hkey : strip [quote] (quoted k ++ colon :: (text x ++ rest)) =
      some (k.flatMap escape ++ [quote] ++ colon :: (text x ++ rest)) := by
    simp [strip, quoted]
  simp only [readField, hkey, readString_quoted, if_true, hx rest hr, Option.map_some]

theorem readFields_text {r : ValueReader} {k : Str} {x : Json} {fs : List (Str × Json)}
    (hx : Reads r x) (hfs : ∀ f ∈ fs, Reads r f.2) {fuel : ℕ} (hf : fs.length < fuel)
    (read : List (Str × Json)) (rest : Str) :
    readFields r fuel read (quoted k ++ colon :: (text x ++ (textFields fs ++ 0x7d :: rest))) =
      some (Json.rereadFields read ((k, x) :: fs), rest) := by
  induction fs generalizing k x fuel read with
  | nil =>
    obtain ⟨f, rfl⟩ : ∃ f, fuel = f + 1 := ⟨fuel - 1, by simp at hf; omega⟩
    have follow : Follow (0x7d :: rest) := .inr ⟨_, _, rfl, .inr (.inr rfl)⟩
    have first := readField_text (k := k) hx follow
    have hne : (0x7d : UInt8) ≠ comma := by decide
    simp [readFields, textFields, first, hne, Json.rereadFields]
  | cons g fs ih =>
    obtain ⟨k', y⟩ := g
    obtain ⟨f, rfl⟩ : ∃ f, fuel = f + 1 := ⟨fuel - 1, by simp at hf; omega⟩
    have first := readField_text (k := k) hx
      (follow_comma (quoted k' ++ colon :: (text y ++ (textFields fs ++ 0x7d :: rest))))
    have others := ih (k := k') (x := y) (hfs (k', y) (by simp)) (fun z hz => hfs z (by simp [hz]))
      (by simp at hf; omega : fs.length < f) (Json.assign k x.reread read)
    simp [readFields, textFields, first, others, Json.rereadFields]

theorem strip_head {c b : UInt8} (h : c ≠ b) (word bs : Str) : strip (c :: word) (b :: bs) = none := by
  simp [strip, List.isPrefixOf, h]

theorem strip_second {a c b : UInt8} (h : c ≠ b) (word bs : Str) :
    strip (a :: c :: word) (a :: b :: bs) = none := by
  simp [strip, List.isPrefixOf, h]

theorem readWord_head {b : UInt8} (h : b ∉ [0x6e, 0x74, 0x66, 0x5b, 0x7b]) (bs : Str) :
    readWord (b :: bs) = none := by
  simp only [List.mem_cons, List.not_mem_nil, or_false, not_or] at h
  obtain ⟨hn, ht, hf, ha, ho⟩ := h
  have null := strip_head (Ne.symm hn) (lit "ull") bs
  have true' := strip_head (Ne.symm ht) (lit "rue") bs
  have false' := strip_head (Ne.symm hf) (lit "alse") bs
  have arr := strip_head (Ne.symm ha) (lit "]") bs
  have obj := strip_head (Ne.symm ho) (lit "\x7d") bs
  change strip (lit "null") (b :: bs) = none at null
  change strip (lit "true") (b :: bs) = none at true'
  change strip (lit "false") (b :: bs) = none at false'
  change strip (lit "[]") (b :: bs) = none at arr
  change strip (lit "{}") (b :: bs) = none at obj
  simp [readWord, words, null, true', false', arr, obj]

theorem digit_facts : ∀ d < 10, UInt8.ofNat (48 + d) ∉ [0x6e, 0x74, 0x66, 0x5b, 0x7b] ∧
    UInt8.ofNat (48 + d) ≠ quote ∧ UInt8.ofNat (48 + d) ≠ 0x5b ∧ UInt8.ofNat (48 + d) ≠ 0x7b ∧
    UInt8.ofNat (48 + d) ≠ minus ∧ isDigit (UInt8.ofNat (48 + d)) = true ∧
    UInt8.ofNat (48 + d) ≠ 0x5d := by
  decide

theorem readValue_natural (n : ℕ) (fuel : ℕ) (rest : Str) :
    readValue (fuel + 1) (natural n ++ rest) = some (readNumber (natural n ++ rest)) := by
  obtain ⟨d, ds, hd, hlt⟩ := decimal_head 19 n
  change natural n = _ at hd
  obtain ⟨hword, hq, ha, ho, hm, hdigit, -⟩ := digit_facts d hlt
  rw [hd, List.cons_append, readValue, readWord_head hword]
  simp only [hq, ha, ho, hm, hdigit, if_false, if_true]

theorem readNumber_natural {n : ℕ} (h : n < 2 ^ 64) {rest : Str} (hr : Follow rest) :
    readNumber (natural n ++ rest) = (.uint (UInt64.ofNat n), rest) := by
  simp only [readNumber, readDigits_natural h hr.noDigit, hr.strip_mark]

theorem readNumber_float {n : ℕ} (h : n < 2 ^ 64) (rest : Str) :
    readNumber (natural n ++ (lit "e0" ++ rest)) = (.float (UInt64.ofNat n), rest) := by
  have hdigits := readDigits_natural h (rfl : noDigit (lit "e0" ++ rest) = true)
  have hmark : strip (lit "e0") (lit "e0" ++ rest) = some rest := by simp [strip]
  simp only [readNumber, hdigits, hmark]

theorem text_head (x : Json) : ∃ b bs, text x = b :: bs ∧ b ≠ 0x5d := by
  have number : ∀ n, ∃ b bs, natural n = b :: bs ∧ b ≠ 0x5d := fun n => by
    obtain ⟨d, ds, hd, hlt⟩ := decimal_head 19 n
    exact ⟨_, ds, hd, (digit_facts d hlt).2.2.2.2.2.2⟩
  cases x with
  | null => exact ⟨_, _, rfl, by decide⟩
  | bool b => cases b <;> exact ⟨_, _, rfl, by decide⟩
  | int n =>
    unfold text
    split_ifs
    · exact number _
    · exact ⟨_, _, rfl, by decide⟩
  | uint n => exact number _
  | float bits =>
    unfold text
    split_ifs
    · obtain ⟨b, bs, hb, hne⟩ := number bits.toNat
      exact ⟨b, bs ++ lit "e0", by rw [hb]; rfl, hne⟩
    · exact ⟨_, _, rfl, by decide⟩
  | str s => exact ⟨_, _, rfl, by decide⟩
  | arr xs => exact ⟨_, _, rfl, by decide⟩
  | obj fs => exact ⟨_, _, rfl, by decide⟩

theorem readWord_array (x : Json) (rest : Str) : readWord (0x5b :: (text x ++ rest)) = none := by
  obtain ⟨b, bs, hb, hne⟩ := text_head x
  have arr := strip_second (a := 0x5b) (Ne.symm hne) [] (bs ++ rest)
  change strip (lit "[]") _ = none at arr
  rw [hb, List.cons_append]
  simp only [readWord, words, List.findSome?_cons, List.findSome?_nil, arr, Option.map_none]
  rfl

theorem readWord_object (k rest : Str) : readWord (0x7b :: (quoted k ++ rest)) = none := by
  have obj := strip_second (a := 0x7b) (by decide : (0x7d : UInt8) ≠ quote) []
    (k.flatMap escape ++ [quote] ++ rest)
  change strip (lit "{}") _ = none at obj
  rw [quoted, List.cons_append]
  simp only [readWord, words, List.findSome?_cons, List.findSome?_nil, obj, Option.map_none]
  rfl

theorem length_textList {x : Json} {xs : List Json} (h : x ∈ xs) :
    (text x).length < (textList xs).length := by
  induction xs with
  | nil => simp at h
  | cons y ys ih =>
    rcases List.mem_cons.1 h with rfl | h
    · simp only [textList, List.length_cons, List.length_append]; omega
    · have := ih h
      simp only [textList, List.length_cons, List.length_append]; omega

theorem length_le_textList (xs : List Json) : xs.length ≤ (textList xs).length := by
  induction xs with
  | nil => simp
  | cons y ys ih => simp only [textList, List.length_cons, List.length_append]; omega

theorem length_textFields {f : Str × Json} {fs : List (Str × Json)} (h : f ∈ fs) :
    (text f.2).length < (textFields fs).length := by
  induction fs with
  | nil => simp at h
  | cons g gs ih =>
    obtain ⟨k, x⟩ := g
    rcases List.mem_cons.1 h with rfl | h
    · simp only [textFields, List.length_cons, List.length_append]; omega
    · have := ih h
      simp only [textFields, List.length_cons, List.length_append]; omega

theorem length_le_textFields (fs : List (Str × Json)) : fs.length ≤ (textFields fs).length := by
  induction fs with
  | nil => simp
  | cons g gs ih => obtain ⟨k, x⟩ := g; simp only [textFields, List.length_cons, List.length_append]; omega

theorem readValue_minus {n : ℕ} (h : n < 2 ^ 64) (fuel : ℕ) {rest : Str} (hr : Follow rest) :
    readValue (fuel + 1) (minus :: (natural n ++ rest)) = some (.int (Int64.ofInt (-n)), rest) := by
  have hword : minus ∉ [0x6e, 0x74, 0x66, 0x5b, 0x7b] := by decide
  have hq : minus ≠ quote := by decide
  have ha : minus ≠ 0x5b := by decide
  have ho : minus ≠ 0x7b := by decide
  rw [readValue, readWord_head hword]
  simp only [hq, ha, ho, if_false, if_true, readDigits_natural h hr.noDigit]

theorem readValue_text (j : Json) : ∀ fuel, (text j).length ≤ fuel → Reads (readValue fuel) j := by
  have positive : ∀ {j : Json} {fuel : ℕ}, (text j).length ≤ fuel → ∃ f, fuel = f + 1 := by
    intro j fuel hf
    obtain ⟨b, bs, hb, -⟩ := text_head j
    rw [hb] at hf
    exact ⟨fuel - 1, by simp at hf; omega⟩
  induction j using Json.induction with
  | null =>
    intro fuel hf rest _
    obtain ⟨f, rfl⟩ := positive hf
    rfl
  | bool b =>
    intro fuel hf rest _
    obtain ⟨f, rfl⟩ := positive hf
    cases b <;> rfl
  | int n =>
    intro fuel hf rest hr
    obtain ⟨f, rfl⟩ := positive hf
    unfold text Json.reread
    split_ifs with hn
    · rw [readValue_natural, readNumber_natural n.toUInt64.toNat_lt hr, UInt64.ofNat_toNat]
    · have hneg : n.toInt < 0 := by
        simpa [Int64.le_iff_toInt_le] using hn
      have habs : (n.toInt.natAbs : ℤ) = -n.toInt := by omega
      have hlt : n.toInt.natAbs < 2 ^ 64 := by
        have := n.le_toInt
        omega
      rw [List.cons_append, readValue_minus hlt f hr, habs, Int.neg_neg, Int64.ofInt_toInt]
  | uint n =>
    intro fuel hf rest hr
    obtain ⟨f, rfl⟩ := positive hf
    change readValue (f + 1) (natural n.toNat ++ rest) = some (.uint n, rest)
    rw [readValue_natural, readNumber_natural n.toNat_lt hr, UInt64.ofNat_toNat]
  | float bits =>
    intro fuel hf rest hr
    obtain ⟨f, rfl⟩ := positive hf
    unfold text Json.reread
    split_ifs
    · rw [List.append_assoc, readValue_natural, readNumber_float bits.toNat_lt,
        UInt64.ofNat_toNat]
    · rfl
  | str s =>
    intro fuel hf rest hr
    obtain ⟨f, rfl⟩ := positive hf
    have hword : quote ∉ [0x6e, 0x74, 0x66, 0x5b, 0x7b] := by decide
    change readValue (f + 1) (quote :: (s.flatMap escape ++ [quote] ++ rest)) = some (.str s, rest)
    rw [readValue, readWord_head hword]
    simp only [if_true, readString_quoted, Option.map_some]
  | arr xs ih =>
    intro fuel hf rest hr
    obtain ⟨f, rfl⟩ := positive hf
    cases xs with
    | nil => rfl
    | cons x xs =>
      have reads : ∀ y ∈ x :: xs, Reads (readValue f) y := fun y hy => by
        refine ih y hy f ?_
        have := length_textList hy
        simp [text, textList] at hf this ⊢
        omega
      have hlen : xs.length < f := by
        have := length_le_textList xs
        simp [text, textList] at hf
        omega
      have items := readItems_text (reads x (by simp))
        (fun y hy => reads y (List.mem_cons_of_mem x hy)) hlen rest
      have ha : (0x5b : UInt8) ≠ quote := by decide
      simp only [text, textList, List.tail_cons, List.cons_append, List.append_assoc,
        List.nil_append, Json.reread]
      rw [readValue, readWord_array]
      simp only [ha, if_false, if_true, items, Option.map_some]
  | obj fs ih =>
    intro fuel hf rest hr
    obtain ⟨f, rfl⟩ := positive hf
    cases fs with
    | nil => rfl
    | cons g fs =>
      obtain ⟨k, x⟩ := g
      have reads : ∀ y ∈ (k, x) :: fs, Reads (readValue f) y.2 := fun y hy => by
        refine ih y hy f ?_
        have := length_textFields hy
        simp [text, textFields] at hf this ⊢
        omega
      have hlen : fs.length < f := by
        have := length_le_textFields fs
        simp [text, textFields] at hf
        omega
      have fields := readFields_text (k := k) (reads (k, x) (by simp))
        (fun y hy => reads y (List.mem_cons_of_mem (k, x) hy)) hlen [] rest
      have hq : (0x7b : UInt8) ≠ quote := by decide
      have ha : (0x7b : UInt8) ≠ 0x5b := by decide
      simp only [text, textFields, List.tail_cons, List.cons_append, List.append_assoc,
        List.nil_append, Json.reread]
      rw [readValue, readWord_object]
      simp only [hq, ha, if_false, if_true, fields, Option.map_some]

def reference : JsonText := ⟨dump, parse⟩

theorem reference_lawful : reference.Lawful where
  dump_valid j hj := by
    refine ⟨text j, by simp [reference, dump, hj], ?_⟩
    have whole := readValue_text j (text j).length le_rfl [] (.inl rfl)
    rw [List.append_nil] at whole
    simp [reference, parse, whole]
  dump_invalid j hj := ⟨_, by simp only [reference, dump, hj]; rfl⟩

end Blueboat.Text
