import Mathlib.Algebra.Group.Nat.Defs
import Mathlib.Data.List.Basic

set_option autoImplicit false

/-! Base64: groups of four characters for three bytes, the last group filled up with `=`. The reader
takes `=` for zero bits wherever it stands, so that what is filled up has to be cut off afterwards. -/
namespace Base64

def value (b : UInt8) : Option ℕ :=
  if 0x41 ≤ b ∧ b ≤ 0x5a then some (b.toNat - 0x41)
  else if 0x61 ≤ b ∧ b ≤ 0x7a then some (b.toNat - 0x61 + 26)
  else if 0x30 ≤ b ∧ b ≤ 0x39 then some (b.toNat - 0x30 + 52)
  else if b = 0x2b then some 62
  else if b = 0x2f then some 63
  else if b = 0x3d then some 0
  else none

def digit (n : ℕ) : UInt8 :=
  if n < 26 then UInt8.ofNat (0x41 + n)
  else if n < 52 then UInt8.ofNat (0x61 + (n - 26))
  else if n < 62 then UInt8.ofNat (0x30 + (n - 52))
  else if n = 62 then 0x2b
  else 0x2f

def group (a b c d : ℕ) : List UInt8 :=
  let n := ((a * 64 + b) * 64 + c) * 64 + d
  [UInt8.ofNat (n / 65536), UInt8.ofNat (n / 256 % 256), UInt8.ofNat (n % 256)]

def decodeGroups : List UInt8 → Option (List UInt8)
  | [] => some []
  | a :: b :: c :: d :: rest => do
    let out ← decodeGroups rest
    return group (← value a) (← value b) (← value c) (← value d) ++ out
  | _ => none

def bits (a b c : UInt8) : ℕ := a.toNat * 65536 + b.toNat * 256 + c.toNat

def encode : List UInt8 → List UInt8
  | [] => []
  | [a] => [digit (bits a 0 0 / 262144), digit (bits a 0 0 / 4096 % 64), 0x3d, 0x3d]
  | [a, b] =>
    [digit (bits a b 0 / 262144), digit (bits a b 0 / 4096 % 64), digit (bits a b 0 / 64 % 64), 0x3d]
  | a :: b :: c :: rest =>
    [digit (bits a b c / 262144), digit (bits a b c / 4096 % 64), digit (bits a b c / 64 % 64),
      digit (bits a b c % 64)] ++ encode rest

def fill (n : ℕ) : ℕ := (3 - n % 3) % 3

theorem value_digit {n : ℕ} (h : n < 64) : value (digit n) = some n := by
  revert n
  decide

theorem digit_ne {n : ℕ} (h : n < 64) : digit n ≠ 0x3d := by
  revert n
  decide

theorem bits_lt (a b c : UInt8) : bits a b c < 2 ^ 24 := by
  have ha := a.toNat_lt
  have hb := b.toNat_lt
  have hc := c.toNat_lt
  rw [bits]
  omega

theorem group_bits (a b c : UInt8) : group (bits a b c / 262144) (bits a b c / 4096 % 64)
    (bits a b c / 64 % 64) (bits a b c % 64) = [a, b, c] := by
  have hb := b.toNat_lt
  have hc := c.toNat_lt
  have lt := bits_lt a b c
  have whole : ((bits a b c / 262144 * 64 + bits a b c / 4096 % 64) * 64 + bits a b c / 64 % 64) * 64 +
      bits a b c % 64 = bits a b c := by omega
  have first : bits a b c / 65536 = a.toNat := by rw [bits]; omega
  have second : bits a b c / 256 % 256 = b.toNat := by rw [bits]; omega
  have third : bits a b c % 256 = c.toNat := by rw [bits]; omega
  rw [group, whole, first, second, third]
  simp

theorem decode_group {a b c w x y z : UInt8} (hw : value w = some (bits a b c / 262144))
    (hx : value x = some (bits a b c / 4096 % 64)) (hy : value y = some (bits a b c / 64 % 64))
    (hz : value z = some (bits a b c % 64)) {rest out : List UInt8}
    (after : decodeGroups rest = some out) :
    decodeGroups (w :: x :: y :: z :: rest) = some (a :: b :: c :: out) := by
  rw [decodeGroups, hw, hx, hy, hz, after]
  exact congrArg some (congrArg (· ++ out) (group_bits a b c))

theorem value_digit_bits (a b c : UInt8) :
    value (digit (bits a b c / 262144)) = some (bits a b c / 262144) :=
  value_digit (by have lt := bits_lt a b c; omega)

theorem value_digit_mod (n : ℕ) : value (digit (n % 64)) = some (n % 64) :=
  value_digit (Nat.mod_lt n (by decide))

/-- What was encoded is read back, and a zero byte for each character that fills up the last group. -/
theorem decodeGroups_encode (s : List UInt8) :
    decodeGroups (encode s) = some (s ++ List.replicate (fill s.length) 0) := by
  induction s using encode.induct with
  | case1 => rfl
  | case2 a =>
    have none : bits a 0 0 / 64 % 64 = 0 ∧ bits a 0 0 % 64 = 0 := by
      simp only [bits, UInt8.toNat_zero]
      omega
    exact decode_group (b := 0) (c := 0) (value_digit_bits a 0 0) (value_digit_mod _)
      (by rw [none.1]; rfl) (by rw [none.2]; rfl) rfl
  | case3 a b =>
    have none : bits a b 0 % 64 = 0 := by
      simp only [bits, UInt8.toNat_zero]
      omega
    exact decode_group (c := 0) (value_digit_bits a b 0) (value_digit_mod _) (value_digit_mod _)
      (by rw [none]; rfl) rfl
  | case4 a b c rest ih =>
    have same : fill (a :: b :: c :: rest).length = fill rest.length := by
      simp only [fill, List.length_cons]
      omega
    rw [same]
    exact decode_group (value_digit_bits a b c) (value_digit_mod _) (value_digit_mod _)
      (value_digit_mod _) ih

theorem decodeGroups_cons {a b c d : UInt8} {rest out : List UInt8}
    (h : decodeGroups (a :: b :: c :: d :: rest) = some out) :
    (∀ x ∈ [a, b, c, d], value x ≠ none) ∧
      ∃ bytes out', decodeGroups rest = some out' ∧ bytes.length = 3 ∧ out = bytes ++ out' := by
  rw [decodeGroups] at h
  simp only [Option.bind_eq_bind, Option.bind_eq_some_iff, Option.pure_def, Option.some.injEq] at h
  obtain ⟨out', after, na, ha, nb, hb, nc, hc, nd, hd, rfl⟩ := h
  refine ⟨?_, _, out', after, rfl, rfl⟩
  simp [ha, hb, hc, hd]

/-- Three bytes are written for four characters. -/
theorem length_decodeGroups {s out : List UInt8} (h : decodeGroups s = some out) :
    4 * out.length = 3 * s.length := by
  induction s using decodeGroups.induct generalizing out with
  | case1 =>
    obtain rfl := Option.some.inj h
    rfl
  | case2 a b c d rest ih =>
    obtain ⟨-, bytes, out', after, three, rfl⟩ := decodeGroups_cons h
    have rest := ih after
    simp only [List.length_append, List.length_cons, three]
    omega
  | case3 s short uneven =>
    rw [decodeGroups] at h
    · cases h
    · exact short
    · exact uneven

theorem value_of_decodeGroups {s out : List UInt8} (h : decodeGroups s = some out) :
    ∀ b ∈ s, value b ≠ none := by
  induction s using decodeGroups.induct generalizing out with
  | case1 => exact fun b mem => (nomatch mem)
  | case2 a b c d rest ih =>
    obtain ⟨chars, bytes, out', after, -, -⟩ := decodeGroups_cons h
    intro x mem
    rcases List.mem_append.1 (show x ∈ [a, b, c, d] ++ rest from mem) with mem | mem
    · exact chars x mem
    · exact ih after x mem
  | case3 s short uneven =>
    rw [decodeGroups] at h
    · cases h
    · exact short
    · exact uneven

theorem length_encode (s : List UInt8) : (encode s).length = 4 * ((s.length + 2) / 3) := by
  induction s using encode.induct with
  | case1 => rfl
  | case2 a => simp [encode]
  | case3 a b => simp [encode]
  | case4 a b c rest ih =>
    rw [encode, List.length_append, ih]
    simp only [List.length_cons, List.length_nil]
    omega

/-- The characters that fill up the last group are the last ones. -/
theorem countP_encode (s : List UInt8) :
    ((encode s).reverse.take 2).countP (· = 0x3d) = fill s.length := by
  induction s using encode.induct with
  | case1 => rfl
  | case2 a => rfl
  | case3 a b =>
    have third : digit (bits a b 0 / 64 % 64) ≠ 0x3d := digit_ne (Nat.mod_lt _ (by decide))
    simp [encode, third, fill]
  | case4 a b c rest ih =>
    have third : digit (bits a b c / 64 % 64) ≠ 0x3d := digit_ne (Nat.mod_lt _ (by decide))
    have fourth : digit (bits a b c % 64) ≠ 0x3d := digit_ne (Nat.mod_lt _ (by decide))
    have same : fill (a :: b :: c :: rest).length = fill rest.length := by
      simp only [fill, List.length_cons]
      omega
    rw [same, ← ih, encode, List.reverse_append]
    cases rest with
    | nil => simp [encode, third, fourth]
    | cons d rest =>
      have two : 2 ≤ (encode (d :: rest)).reverse.length := by
        rw [List.length_reverse, length_encode]
        simp only [List.length_cons]
        omega
      rw [List.take_append_of_le_length two]

/-- Without what fills up the last group, the bytes are those that were encoded. -/
theorem take_decode (s : List UInt8) :
    (s ++ List.replicate (fill s.length) 0).take
      ((s ++ List.replicate (fill s.length) 0).length - fill s.length) = s := by
  rw [List.length_append, List.length_replicate, Nat.add_sub_cancel, List.take_left]

end Base64
