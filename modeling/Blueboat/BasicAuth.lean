import Mathlib.Data.List.TakeWhile
import Blueboat.Admin
import Blueboat.Library.Base64

set_option autoImplicit false

/-! `Server::check_basic_auth`, with what is known of `EVP_DecodeBlock`. A header is at most 64 KiB long,
so its length fits an `int`. -/
namespace Blueboat.BasicAuth

open Admin Base64
open Http (Request)

/-- `EVP_DecodeBlock` decodes the groups of what is left after trimming characters that are not of the
alphabet at both ends. -/
structure DecodeBlock (decodeBlock : Str → Option Str) : Prop where
  trims : ∀ text, ∃ before core after, text = before ++ (core ++ after) ∧
    (∀ b ∈ before ++ after, value b = none) ∧ decodeBlock text = decodeGroups core

/-! OpenSSL's own trimming: blanks at the start, and at the end also line breaks and `-` while more than
three characters are left. -/

def isBlank (b : UInt8) : Bool := b == 0x20 || b == 0x09

def isEnd (b : UInt8) : Bool := isBlank b || b == 0x0a || b == 0x0d || b == 0x2d

/-- On the reversed text. -/
def stripEnd : Str → Str
  | [] => []
  | b :: rest => if 3 ≤ rest.length ∧ isEnd b = true then stripEnd rest else b :: rest

def evpDecodeBlock (text : Str) : Option Str :=
  decodeGroups (stripEnd (text.dropWhile isBlank).reverse).reverse

theorem value_isEnd {b : UInt8} (h : isEnd b = true) : value b = none := by
  simp only [isEnd, isBlank, Bool.or_eq_true, beq_iff_eq] at h
  rcases h with (((rfl | rfl) | rfl) | rfl) | rfl <;> rfl

theorem stripEnd_spec (s : Str) : ∃ stripped, s = stripped ++ stripEnd s ∧
    ∀ b ∈ stripped, value b = none := by
  induction s with
  | nil => exact ⟨[], rfl, fun b mem => (nomatch mem)⟩
  | cons b rest ih =>
    rw [stripEnd]
    split
    · rename_i last
      obtain ⟨stripped, split, blank⟩ := ih
      refine ⟨b :: stripped, congrArg (b :: ·) split, fun c mem => ?_⟩
      rcases List.mem_cons.1 mem with rfl | mem
      · exact value_isEnd last.2
      · exact blank c mem
    · exact ⟨[], rfl, fun b mem => (nomatch mem)⟩

theorem evpDecodeBlock_trims : DecodeBlock evpDecodeBlock where
  trims text := by
    obtain ⟨stripped, split, blank⟩ := stripEnd_spec (text.dropWhile isBlank).reverse
    refine ⟨text.takeWhile isBlank, (stripEnd (text.dropWhile isBlank).reverse).reverse,
      stripped.reverse, ?_, fun b mem => ?_, rfl⟩
    · rw [← List.reverse_append, ← split, List.reverse_reverse, List.takeWhile_append_dropWhile]
    · rcases List.mem_append.1 mem with mem | mem
      · refine value_isEnd ?_
        rw [isEnd, List.mem_takeWhile_imp mem]
        rfl
      · exact blank b (List.mem_reverse.1 mem)

theorem padding_le_two (text : Str) : padding text ≤ 2 :=
  List.countP_le_length.trans (List.length_take_le 2 _)

theorem mem_of_padding {text : Str} (h : padding text ≠ 0) : 0x3d ∈ text := by
  obtain ⟨b, mem, same⟩ := List.countP_pos_iff.1 (Nat.pos_of_ne_zero h)
  obtain rfl : b = 0x3d := of_decide_eq_true same
  exact List.mem_reverse.1 (List.mem_of_mem_take mem)

/-- The padding that is counted at the end of the text is not longer than what was written. -/
theorem DecodeBlock.padding_le {decodeBlock : Str → Option Str} (law : DecodeBlock decodeBlock)
    {text out : Str} (h : decodeBlock text = some out) : padding text ≤ out.length := by
  obtain ⟨before, core, after, split, outside, decoded⟩ := law.trims text
  have three := length_decodeGroups (decoded ▸ h)
  have two := padding_le_two text
  by_cases none : padding text = 0
  · omega
  · have inside : 0x3d ∈ core := by
      have mem := mem_of_padding none
      rw [split, List.mem_append, List.mem_append] at mem
      rcases mem with mem | mem | mem
      · exact absurd (outside _ (List.mem_append_left _ mem)) (by decide)
      · exact mem
      · exact absurd (outside _ (List.mem_append_right _ mem)) (by decide)
    have some := List.length_pos_of_mem inside
    omega

def withDecoder (s : Surroundings) (decodeBlock : Str → Option Str) (law : DecodeBlock decodeBlock) :
    Surroundings :=
  { s with decodeBlock, decodeBlock_length := law.padding_le }

/-- The bytes that a text stands for: those of its groups, but for as many as its last two characters
fill up. -/
def Decodes (text bytes : Str) : Prop :=
  ∃ before core after out, text = before ++ (core ++ after) ∧
    (∀ b ∈ before ++ after, value b = none) ∧ decodeGroups core = some out ∧
    bytes = out.take (out.length - padding text)

theorem base64Decode_decodes {s : Surroundings} (law : DecodeBlock s.decodeBlock) {text : Str}
    (h : base64Decode s text ≠ []) : Decodes text (base64Decode s text) := by
  rw [base64Decode] at h ⊢
  split at h
  · exact absurd rfl h
  · rename_i groups
    rw [if_neg groups]
    obtain ⟨before, core, after, split, outside, decoded⟩ := law.trims text
    cases out : s.decodeBlock text with
    | none =>
      rw [out] at h
      exact absurd rfl h
    | some bytes => exact ⟨before, core, after, bytes, split, outside, decoded ▸ out, rfl⟩

/-- A canonical text has nothing to trim. -/
theorem DecodeBlock.encode {decodeBlock : Str → Option Str} (law : DecodeBlock decodeBlock) (s : Str) :
    decodeBlock (Base64.encode s) = some (s ++ List.replicate (fill s.length) 0) := by
  obtain ⟨before, core, after, split, outside, decoded⟩ := law.trims (Base64.encode s)
  have inside := value_of_decodeGroups (decodeGroups_encode s)
  have none : before = [] ∧ after = [] := by
    refine ⟨List.eq_nil_iff_forall_not_mem.2 fun b mem => ?_,
      List.eq_nil_iff_forall_not_mem.2 fun b mem => ?_⟩
    · exact inside b (by simp [split, mem]) (outside b (List.mem_append_left _ mem))
    · exact inside b (by simp [split, mem]) (outside b (List.mem_append_right _ mem))
  obtain ⟨rfl, rfl⟩ := none
  rw [List.nil_append, List.append_nil] at split
  rw [decoded, ← split, decodeGroups_encode]

theorem base64Decode_encode {s : Surroundings} (law : DecodeBlock s.decodeBlock) {bytes : Str}
    (some : bytes ≠ []) : base64Decode s (Base64.encode bytes) = bytes := by
  have length := length_encode bytes
  have positive := List.length_pos_of_ne_nil some
  have groups : ¬ (Base64.encode bytes = [] ∨ (Base64.encode bytes).length % 4 ≠ 0) := by
    rintro (empty | uneven)
    · rw [empty, List.length_nil] at length
      omega
    · omega
  rw [base64Decode, if_neg groups, law.encode, padding, countP_encode]
  exact take_decode bytes

theorem splitColon {user password : Str} (plain : 0x3a ∉ user) :
    (user ++ 0x3a :: password).takeWhile (· ≠ 0x3a) = user := by
  have passes : ∀ b ∈ user, decide (b ≠ 0x3a) = true := fun b mem => by
    simpa using ne_of_mem_of_not_mem mem plain
  rw [List.takeWhile_append_of_pos passes, List.takeWhile_cons_of_neg (by decide), List.append_nil]

theorem drop_password (user password : Str) :
    (user ++ 0x3a :: password).drop (user.length + 1) = password := by
  rw [List.append_cons]
  exact List.drop_left' (by simp)

theorem drop_basic (text : Str) : (lit "Basic " ++ text).drop 6 = text :=
  List.drop_left' (by decide)

theorem checkBasicAuth_iff (s : Surroundings) {admins : Dict Str} (nonempty : admins.keys ≠ [])
    (request : Request) : checkBasicAuth s admins request = true ↔
      ∃ text user password,
        request.headers.lookup (lit "authorization") = some (lit "Basic " ++ text) ∧
        0x3a ∉ user ∧ base64Decode s text = user ++ 0x3a :: password ∧
        admins.lookup user = some password := by
  rw [checkBasicAuth, if_neg nonempty]
  constructor
  · intro passes
    split at passes
    · cases passes
    rename_i value header
    split at passes
    · cases passes
    rename_i basic
    have starts : lit "Basic " <+: value := by simpa using basic
    obtain ⟨text, rfl⟩ := starts
    rw [drop_basic] at passes
    dsimp only at passes
    rw [Bool.and_eq_true, List.contains_iff_mem, beq_iff_eq] at passes
    obtain ⟨colon, entry⟩ := passes
    obtain ⟨user, password, split, plain⟩ := List.eq_append_cons_of_mem colon
    rw [split, splitColon plain, drop_password] at entry
    exact ⟨text, user, password, header, plain, split, entry⟩
  · rintro ⟨text, user, password, header, plain, decoded, entry⟩
    have basic : (!(lit "Basic ").isPrefixOf (lit "Basic " ++ text)) = false := by
      simp [List.isPrefixOf_iff_prefix]
    rw [header]
    dsimp only
    rw [basic, drop_basic, decoded, splitColon plain, drop_password, entry]
    simp

/-- Exactly the credentials of `admins` pass; whatever passes stands for one of them; and the length that
`base64_decode` computes is not negative. -/
theorem checkBasicAuth_correct (s : Surroundings) {decodeBlock : Str → Option Str}
    (law : DecodeBlock decodeBlock) {admins : Dict Str} (nonempty : admins.keys ≠ []) (request : Request) :
    (∀ user password, 0x3a ∉ user → request.headers.lookup (lit "authorization") =
        some (lit "Basic " ++ Base64.encode (user ++ 0x3a :: password)) →
      (checkBasicAuth (withDecoder s decodeBlock law) admins request = true ↔
        admins.lookup user = some password)) ∧
    (checkBasicAuth (withDecoder s decodeBlock law) admins request = true →
      ∃ text user password,
        request.headers.lookup (lit "authorization") = some (lit "Basic " ++ text) ∧
        0x3a ∉ user ∧ Decodes text (user ++ 0x3a :: password) ∧
        admins.lookup user = some password) ∧
    ∀ text out, decodeBlock text = some out → padding text ≤ out.length := by
  refine ⟨fun user password plain header => ?_, fun passes => ?_, fun text out => law.padding_le⟩
  · have some : user ++ 0x3a :: password ≠ [] := by simp
    have decoded := base64Decode_encode (s := withDecoder s decodeBlock law) law some
    rw [checkBasicAuth_iff _ nonempty]
    constructor
    · rintro ⟨text, user', password', header', plain', decoded', entry⟩
      have same : text = Base64.encode (user ++ 0x3a :: password) :=
        List.append_cancel_left (Option.some.inj (header'.symm.trans header))
      rw [same, decoded] at decoded'
      have userSame : user = user' := by
        rw [← splitColon plain, decoded', splitColon plain']
      have passwordSame : password = password' := by
        rw [← drop_password user password, decoded', userSame, drop_password]
      rw [userSame, passwordSame]
      exact entry
    · exact fun entry => ⟨_, user, password, header, plain, decoded, entry⟩
  · obtain ⟨text, user, password, header, plain, decoded, entry⟩ :=
      (checkBasicAuth_iff _ nonempty request).1 passes
    refine ⟨text, user, password, header, plain, ?_, entry⟩
    rw [← decoded]
    exact base64Decode_decodes law (by simp [decoded])

/-- A password may contain colons. -/
theorem checkBasicAuth_colon : checkBasicAuth (withDecoder calm evpDecodeBlock evpDecodeBlock_trims)
    ((∅ : Dict Str).insert (lit "ann") (lit "se:cret"))
    { method := lit "GET"
      path := lit "/blueboat-panel"
      query := []
      headers := (∅ : Dict Str).insert (lit "authorization") (lit "Basic YW5uOnNlOmNyZXQ=")
      body := [] } = true :=
  ((checkBasicAuth_correct calm evpDecodeBlock_trims (by decide) _).1 (lit "ann") (lit "se:cret")
    (by decide) (by decide)).2 (by decide)

end Blueboat.BasicAuth
