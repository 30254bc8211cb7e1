import Mathlib.Data.List.Basic

/-! # Percent Encoding

    Texts in which the bytes outside an allowed set of characters stand as
    `%` and two hexadecimal digits, and queries made of such texts.

    * `encode`, `decode`: bytes, for any allowed set.
    * `encodeString`, `decodeString`: strings, by way of UTF-8.
    * `pair`, `join`, `readQuery`: `key=value` segments between ampersands.

    What is written can be read again if the set does not allow the
    characters that the reader splits at (`decodeString_encodeString`,
    `readQuery_join`). -/

namespace Percent

/-! ## Section 1: Bytes -/

def hexDigit (n : Nat) : Char := Char.ofNat (if n < 10 then 48 + n else 55 + n)

def hexValue (c : Char) : Option Nat :=
  if '0' ≤ c ∧ c ≤ '9' then some (c.toNat - 48)
  else if 'A' ≤ c ∧ c ≤ 'F' then some (c.toNat - 55)
  else if 'a' ≤ c ∧ c ≤ 'f' then some (c.toNat - 87)
  else none

/-- A byte as an allowed character, or escaped. -/
def encodeByte (allowed : Char → Bool) (b : UInt8) : List Char :=
  if b.toNat < 128 ∧ allowed (Char.ofNat b.toNat) then [Char.ofNat b.toNat]
  else ['%', hexDigit (b.toNat / 16), hexDigit (b.toNat % 16)]

def encode (allowed : Char → Bool) (bs : List UInt8) : List Char :=
  bs.flatMap (encodeByte allowed)

def decode : List Char → Option (List UInt8)
  | [] => some []
  | '%' :: high :: low :: cs =>
    match hexValue high, hexValue low with
    | some h, some l => (decode cs).map fun bs => UInt8.ofNat (h * 16 + l) :: bs
    | _, _ => none
  | c :: cs =>
    if c ≠ '%' ∧ c.toNat < 128 then (decode cs).map fun bs => UInt8.ofNat c.toNat :: bs else none

/-- The characters of an encoded text. -/
def Written (allowed : Char → Bool) (c : Char) : Prop :=
  allowed c = true ∨ c = '%' ∨ (hexValue c).isSome

theorem hexValue_hexDigit : ∀ n < 16, hexValue (hexDigit n) = some n := by decide

theorem decode_cons {c : Char} (hc : c ≠ '%') (hascii : c.toNat < 128) (cs : List Char) :
    decode (c :: cs) = (decode cs).map fun bs => UInt8.ofNat c.toNat :: bs := by
  rw [decode.eq_def]
  split
  · next heq => cases heq
  · next heq => exact absurd (List.cons.inj heq).1 hc
  · next heq =>
    obtain ⟨rfl, rfl⟩ := List.cons.inj heq
    exact if_pos ⟨hc, hascii⟩

theorem ofNat_toNat_of_lt {n : Nat} (h : n < 128) : (Char.ofNat n).toNat = n := by
  have hvalid : n.isValidChar := .inl (by omega)
  rw [Char.ofNat, dif_pos hvalid]
  rfl

theorem decode_encodeByte {allowed : Char → Bool} (hpercent : allowed '%' = false) (b : UInt8)
    (cs : List Char) :
    decode (encodeByte allowed b ++ cs) = (decode cs).map fun bs => b :: bs := by
  have hb := b.toNat_lt
  unfold encodeByte
  split
  · next hallowed =>
    have hc : Char.ofNat b.toNat ≠ '%' := by
      intro heq
      rw [heq, hpercent] at hallowed
      exact Bool.false_ne_true hallowed.2
    have htoNat := ofNat_toNat_of_lt hallowed.1
    rw [List.singleton_append, decode_cons hc (by omega), htoNat, UInt8.ofNat_toNat]
  · -- an escape
    have hbyte : UInt8.ofNat (b.toNat / 16 * 16 + b.toNat % 16) = b := by
      rw [Nat.div_add_mod', UInt8.ofNat_toNat]
    show (match hexValue _, hexValue _ with | some h, some l => _ | _, _ => none) = _
    rw [hexValue_hexDigit _ (by omega), hexValue_hexDigit _ (by omega)]
    simp only [hbyte]
    rfl

/-- **What is encoded can be decoded.** -/
theorem decode_encode {allowed : Char → Bool} (hpercent : allowed '%' = false) (bs : List UInt8) :
    decode (encode allowed bs) = some bs := by
  induction bs with
  | nil => rfl
  | cons b bs ih =>
    show decode (encodeByte allowed b ++ encode allowed bs) = _
    rw [decode_encodeByte hpercent, ih]
    rfl

theorem written_of_mem {allowed : Char → Bool} {bs : List UInt8} {c : Char}
    (h : c ∈ encode allowed bs) : Written allowed c := by
  obtain ⟨b, -, hb⟩ := List.mem_flatMap.mp h
  have hlt := b.toNat_lt
  unfold encodeByte at hb
  split at hb
  · next hallowed =>
    rw [List.mem_singleton.mp hb]
    exact .inl hallowed.2
  · simp only [List.mem_cons, List.not_mem_nil, or_false] at hb
    rcases hb with rfl | rfl | rfl
    · exact .inr (.inl rfl)
    · right; right
      rw [hexValue_hexDigit _ (by omega)]
      rfl
    · right; right
      rw [hexValue_hexDigit _ (by omega)]
      rfl

/-! ## Section 2: Strings -/

def encodeString (allowed : Char → Bool) (s : String) : List Char :=
  encode allowed s.toByteArray.data.toList

def decodeString (cs : List Char) : Option String :=
  (decode cs).bind fun bs => String.fromUTF8? ⟨bs.toArray⟩

/-- **Round trip**: every string can be read back. -/
theorem decodeString_encodeString {allowed : Char → Bool} (hpercent : allowed '%' = false)
    (s : String) : decodeString (encodeString allowed s) = some s := by
  unfold decodeString encodeString
  rw [decode_encode hpercent, Option.bind_some]
  unfold String.fromUTF8?
  rw [dif_pos s.isValidUTF8]
  rfl

/-! ## Section 3: Queries -/

/-- `key=value`. -/
def pair (allowed : Char → Bool) (p : String × String) : List Char :=
  encodeString allowed p.1 ++ '=' :: encodeString allowed p.2

def readPair (cs : List Char) : Option (String × String) :=
  match cs.splitOn '=' with
  | [key, value] => do some (← decodeString key, ← decodeString value)
  | _ => none

def join (segments : List (List Char)) : List Char := (segments.intersperse ['&']).flatten

/-- The pairs of a query; what is no pair is left out. -/
def readQuery (cs : List Char) : List (String × String) := (cs.splitOn '&').filterMap readPair

/-- The set allows none of the characters that the reader splits at. -/
structure Safe (allowed : Char → Bool) : Prop where
  percent : allowed '%' = false
  equals : allowed '=' = false
  ampersand : allowed '&' = false

section

variable {allowed : Char → Bool}

theorem not_mem_encodeString {c : Char} (hc : allowed c = false) (hpercent : c ≠ '%')
    (hdigit : hexValue c = none) (s : String) : c ∉ encodeString allowed s := by
  intro hmem
  rcases written_of_mem hmem with h | h | h
  · rw [hc] at h
    cases h
  · exact hpercent h
  · rw [hdigit] at h
    cases h

theorem readPair_pair (h : Safe allowed) (p : String × String) :
    readPair (pair allowed p) = some p := by
  have hequals : ∀ s, '=' ∉ encodeString allowed s :=
    not_mem_encodeString h.equals (by decide) (by decide)
  unfold readPair pair
  rw [List.splitOn_append_cons_self_of_not_mem (hequals p.1), List.splitOn_eq_singleton (hequals p.2)]
  simp only [decodeString_encodeString h.percent]
  rfl

theorem ampersand_not_mem_pair (h : Safe allowed) (p : String × String) :
    '&' ∉ pair allowed p := by
  have hampersand : ∀ s, '&' ∉ encodeString allowed s :=
    not_mem_encodeString h.ampersand (by decide) (by decide)
  unfold pair
  simp [hampersand]

theorem splitOn_join {segments : List (List Char)} (hne : segments ≠ [])
    (h : ∀ s ∈ segments, '&' ∉ s) : (join segments).splitOn '&' = segments :=
  List.splitOn_intercalate '&' h hne

/-- **Reading a query**: the segments may be joined in any order, and are read
    in that order. -/
theorem readQuery_join (h : Safe allowed) {segments : List (List Char)}
    {ps : List (String × String)} (hsegments : segments.Perm (ps.map (pair allowed))) :
    (readQuery (join segments)).Perm ps ∧
      (segments = ps.map (pair allowed) → readQuery (join segments) = ps) := by
  have hread : (ps.map (pair allowed)).filterMap readPair = ps := by
    have hpair : readPair ∘ pair allowed = some := funext fun p => readPair_pair h p
    rw [List.filterMap_map, hpair, List.filterMap_some]
  have hquery : readQuery (join segments) = segments.filterMap readPair := by
    by_cases hne : segments = []
    · rw [hne]
      decide
    · unfold readQuery
      rw [splitOn_join hne]
      intro s hs
      obtain ⟨p, -, rfl⟩ := List.mem_map.mp (hsegments.mem_iff.mp hs)
      exact ampersand_not_mem_pair h p
  rw [hquery]
  constructor
  · have hperm := hsegments.filterMap readPair
    rwa [hread] at hperm
  · rintro rfl
    exact hread

end

end Percent
