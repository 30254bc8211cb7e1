import Mathlib.Tactic.Common

/-! # JSON Texts (RFC 8259)

    JSON values and a parser for JSON texts, over lists of characters.

    * `stringBody`: what follows an opening quotation mark, with the
      escapes of section 7 of the RFC.
    * `value`, `members`, `elements`: the recursive part of the grammar,
      with a fuel argument for the nesting.
    * `Parses text v`: `text` is a JSON text that denotes `v`, for some
      amount of fuel.  `parse` runs with twice the length of the text as
      fuel, which is enough (`parses_iff`).

    A string is *plain* if it can stand between quotation marks as it is.
    A string body that denotes as many characters as it is written with is
    plain (`stringBody_raw`): every escape is longer than what it denotes. -/

namespace Json

/-! ## Section 1: Values -/

/-- A JSON number `mantissa * 10 ^ exponent`. -/
structure Number where
  mantissa : Int
  exponent : Int
deriving DecidableEq, Repr

/-- A JSON value.  The members of an object are kept as they are written,
    repeated names included. -/
inductive Value where
  | null
  | bool (b : Bool)
  | number (n : Number)
  | str (s : List Char)
  | arr (elements : List Value)
  | obj (members : List (List Char × Value))
deriving Repr

/-! ## Section 2: Strings -/

/-- A character that may stand unescaped in a JSON string. -/
def plainChar (c : Char) : Prop :=
  c ≠ '"' ∧ c ≠ '\\' ∧ 0x20 ≤ c.toNat

instance (c : Char) : Decidable (plainChar c) := by
  unfold plainChar; infer_instance

/-- A string all of whose characters may stand unescaped. -/
def Plain (cs : List Char) : Prop := ∀ c ∈ cs, plainChar c

instance (cs : List Char) : Decidable (Plain cs) :=
  List.decidableBAll plainChar cs

/-- The two-character escapes, by the character after the backslash. -/
def simpleEscape : Char → Option Char
  | '"' => some '"'
  | '\\' => some '\\'
  | '/' => some '/'
  | 'b' => some (Char.ofNat 0x08)
  | 'f' => some (Char.ofNat 0x0C)
  | 'n' => some '\n'
  | 'r' => some '\r'
  | 't' => some '\t'
  | _ => none

def hexDigit (c : Char) : Option Nat :=
  if '0' ≤ c ∧ c ≤ '9' then some (c.toNat - 48)
  else if 'a' ≤ c ∧ c ≤ 'f' then some (c.toNat - 87)
  else if 'A' ≤ c ∧ c ≤ 'F' then some (c.toNat - 55)
  else none

/-- The code unit written as four hexadecimal digits. -/
def hex4 (a b c d : Char) : Option Nat :=
  match hexDigit a, hexDigit b, hexDigit c, hexDigit d with
  | some x, some y, some z, some w => some (((x * 16 + y) * 16 + z) * 16 + w)
  | _, _, _, _ => none

def isHighSurrogate (u : Nat) : Bool := 0xD800 ≤ u && u < 0xDC00

def isLowSurrogate (u : Nat) : Bool := 0xDC00 ≤ u && u < 0xE000

/-- The character a surrogate pair stands for. -/
def surrogatePair (hi lo : Nat) : Char :=
  Char.ofNat (0x10000 + (hi - 0xD800) * 0x400 + (lo - 0xDC00))

/-- Apply `f` to what was read, leaving the text after it. -/
def onFst {α β : Type} (f : α → β) (p : α × List Char) : β × List Char := (f p.1, p.2)

/-- The string that starts after an opening quotation mark, and the text
    after its closing one.  A surrogate that is not part of a pair denotes
    no character and is rejected. -/
def stringBody : List Char → Option (List Char × List Char)
  | [] => none
  | c :: cs =>
    if c = '"' then some ([], cs)
    else if c = '\\' then
      match cs with
      | 'u' :: x₁ :: x₂ :: x₃ :: x₄ :: rest =>
        match hex4 x₁ x₂ x₃ x₄ with
        | none => none
        | some u =>
          if isHighSurrogate u then
            -- the other half of the pair has to follow
            match rest with
            | '\\' :: 'u' :: y₁ :: y₂ :: y₃ :: y₄ :: rest =>
              match hex4 y₁ y₂ y₃ y₄ with
              | none => none
              | some lo =>
                if isLowSurrogate lo then
                  (stringBody rest).map (onFst (surrogatePair u lo :: ·))
                else none
            | _ => none
          else if isLowSurrogate u then none
          else (stringBody rest).map (onFst (Char.ofNat u :: ·))
      | e :: rest =>
        match simpleEscape e with
        | none => none
        | some d => (stringBody rest).map (onFst (d :: ·))
      | [] => none
    else if c.toNat < 0x20 then none
    else (stringBody cs).map (onFst (c :: ·))

/-! ## Section 3: Numbers and literals -/

def isWs (c : Char) : Bool := c = ' ' || c = '\t' || c = '\n' || c = '\r'

def skipWs (cs : List Char) : List Char := cs.dropWhile isWs

def natOfDigits (ds : List Char) : Nat :=
  ds.foldl (fun n d => 10 * n + (d.toNat - 48)) 0

/-- The digits of a number's integer part: no leading zero. -/
def intDigits (ds : List Char) : Bool :=
  match ds with
  | [] => false
  | ['0'] => true
  | '0' :: _ => false
  | _ => true

/-- Fraction digits after a decimal point, or none where there is no point. -/
def fracPart : List Char → Option (List Char × List Char)
  | '.' :: cs =>
    if cs.takeWhile Char.isDigit = [] then none
    else some (cs.takeWhile Char.isDigit, cs.dropWhile Char.isDigit)
  | cs => some ([], cs)

def signed (negative : Bool) (n : Nat) : Int := if negative then -n else n

/-- The digits of an exponent, with its sign. -/
def expDigits (negative : Bool) (cs : List Char) : Option (Int × List Char) :=
  if cs.takeWhile Char.isDigit = [] then none
  else
    some (signed negative (natOfDigits (cs.takeWhile Char.isDigit)), cs.dropWhile Char.isDigit)

def expPart : List Char → Option (Int × List Char)
  | 'e' :: '-' :: cs | 'E' :: '-' :: cs => expDigits true cs
  | 'e' :: '+' :: cs | 'E' :: '+' :: cs => expDigits false cs
  | 'e' :: cs | 'E' :: cs => expDigits false cs
  | cs => some (0, cs)

/-- A number without its sign. -/
def unsigned (negative : Bool) (cs : List Char) : Option (Value × List Char) :=
  if intDigits (cs.takeWhile Char.isDigit) then
    (fracPart (cs.dropWhile Char.isDigit)).bind fun (frac, cs') =>
      (expPart cs').map fun (exp, rest) =>
        (.number ⟨signed negative (natOfDigits (cs.takeWhile Char.isDigit ++ frac)),
          exp - frac.length⟩, rest)
  else none

/-- The values that hold no other values, strings apart. -/
def literal : List Char → Option (Value × List Char)
  | 't' :: 'r' :: 'u' :: 'e' :: cs => some (.bool true, cs)
  | 'f' :: 'a' :: 'l' :: 's' :: 'e' :: cs => some (.bool false, cs)
  | 'n' :: 'u' :: 'l' :: 'l' :: cs => some (.null, cs)
  | '-' :: cs => unsigned true cs
  | cs => unsigned false cs

/-! ## Section 4: Values, objects and arrays -/

/-- The text after a given character, if it starts with it. -/
def expect (c : Char) : List Char → Option (List Char)
  | [] => none
  | d :: cs => if d = c then some cs else none

/-- The name of a member and the text after its colon. -/
def memberName (cs : List Char) : Option (List Char × List Char) :=
  (expect '"' cs).bind fun cs =>
    (stringBody cs).bind fun (name, cs) =>
      (expect ':' (skipWs cs)).map fun cs => (name, skipWs cs)

mutual

/-- The value the text starts with, and the text after it. -/
def value : Nat → List Char → Option (Value × List Char)
  | 0, _ => none
  | _ + 1, [] => none
  | fuel + 1, c :: cs =>
    if c = '{' then
      match expect '}' (skipWs cs) with
      | some rest => some (.obj [], rest)
      | none => (members fuel (skipWs cs)).map (onFst .obj)
    else if c = '[' then
      match expect ']' (skipWs cs) with
      | some rest => some (.arr [], rest)
      | none => (elements fuel (skipWs cs)).map (onFst .arr)
    else if c = '"' then (stringBody cs).map (onFst .str)
    else literal (c :: cs)

/-- The members of an object, up to its closing brace. -/
def members : Nat → List Char → Option (List (List Char × Value) × List Char)
  | 0, _ => none
  | fuel + 1, cs =>
    (memberName cs).bind fun (name, cs) =>
      (value fuel cs).bind fun (v, cs) =>
        match expect ',' (skipWs cs) with
        | some cs => (members fuel (skipWs cs)).map (onFst ((name, v) :: ·))
        | none => (expect '}' (skipWs cs)).map fun rest => ([(name, v)], rest)

/-- The elements of an array, up to its closing bracket. -/
def elements : Nat → List Char → Option (List Value × List Char)
  | 0, _ => none
  | fuel + 1, cs =>
    (value fuel cs).bind fun (v, cs) =>
      match expect ',' (skipWs cs) with
      | some cs => (elements fuel (skipWs cs)).map (onFst (v :: ·))
      | none => (expect ']' (skipWs cs)).map fun rest => ([v], rest)

end

/-- A JSON text: one value with white space around it. -/
def parseText (fuel : Nat) (text : List Char) : Option Value :=
  match value fuel (skipWs text) with
  | some (v, rest) => if skipWs rest = [] then some v else none
  | none => none

/-- `text` is a JSON text that denotes `v`. -/
def Parses (text : List Char) (v : Value) : Prop :=
  ∃ fuel, parseText fuel text = some v

/-- Parse a JSON text, with fuel for any nesting it may have. -/
def parse (text : List Char) : Option Value := parseText (2 * text.length) text

/-! ## Section 5: Strings and what they are written with -/

/-- A quotation mark ends the string. -/
theorem stringBody_quote (cs : List Char) : stringBody ('"' :: cs) = some ([], cs) := by
  rw [stringBody.eq_def]
  simp

/-- A plain character denotes itself. -/
theorem stringBody_plainChar {c : Char} (h : plainChar c) (cs : List Char) :
    stringBody (c :: cs) = (stringBody cs).map (onFst (c :: ·)) := by
  obtain ⟨hq, hb, hctl⟩ := h
  rw [stringBody.eq_def]
  simp only [if_neg hq, if_neg hb, if_neg (Nat.not_lt.mpr hctl)]

/-- A plain string denotes itself. -/
theorem stringBody_plain {s : List Char} (h : Plain s) (rest : List Char) :
    stringBody (s ++ '"' :: rest) = some (s, rest) := by
  induction s with
  | nil => exact stringBody_quote rest
  | cons c cs ih =>
    have hc : plainChar c := h c List.mem_cons_self
    have hcs : Plain cs := fun d hd => h d (List.mem_cons_of_mem _ hd)
    rw [List.cons_append, stringBody_plainChar hc, ih hcs]
    rfl

/-- What a string body was written with: no control character, and at least
    as many characters as it denotes, with equality for plain strings only. -/
structure Raw (raw s : List Char) : Prop where
  noControl : ∀ c ∈ raw, 0x20 ≤ c.toNat
  length_le : s.length ≤ raw.length
  eq_of_length : s.length = raw.length → s = raw ∧ Plain raw

theorem Raw.nil : Raw [] [] := by
  refine ⟨by simp, by simp, fun _ => ⟨rfl, by simp [Plain]⟩⟩

theorem Raw.plainChar {raw s : List Char} {c : Char} (h : Raw raw s) (hc : plainChar c) :
    Raw (c :: raw) (c :: s) := by
  refine ⟨?_, ?_, ?_⟩
  · intro d hd
    rcases List.mem_cons.mp hd with rfl | hd
    · exact hc.2.2
    · exact h.noControl d hd
  · simpa using h.length_le
  · intro hlen
    obtain ⟨rfl, hplain⟩ := h.eq_of_length (by simpa using hlen)
    refine ⟨rfl, ?_⟩
    intro d hd
    rcases List.mem_cons.mp hd with rfl | hd
    · exact hc
    · exact hplain d hd

/-- An escape takes more characters than the one it denotes. -/
theorem Raw.escape {raw s esc : List Char} (h : Raw raw s) (d : Char)
    (hesc : ∀ c ∈ esc, 0x20 ≤ c.toNat) (hlen : 2 ≤ esc.length) :
    Raw (esc ++ raw) (d :: s) := by
  have hle := h.length_le
  refine ⟨?_, ?_, ?_⟩
  · intro c hc
    rcases List.mem_append.mp hc with hc | hc
    · exact hesc c hc
    · exact h.noControl c hc
  · simp only [List.length_append, List.length_cons]
    omega
  · intro heq
    simp only [List.length_append, List.length_cons] at heq
    omega

theorem hexDigit_noControl {c : Char} {n : Nat} (h : hexDigit c = some n) : 0x20 ≤ c.toNat := by
  have hle : ∀ {a b : Char}, a ≤ b → a.toNat ≤ b.toNat := fun h => h
  unfold hexDigit at h
  split at h
  · next h' => exact Nat.le_trans (by decide) (hle h'.1)
  split at h
  · next h' => exact Nat.le_trans (by decide) (hle h'.1)
  split at h
  · next h' => exact Nat.le_trans (by decide) (hle h'.1)
  · simp at h

theorem hex4_noControl {a b c d : Char} {u : Nat} (h : hex4 a b c d = some u) :
    ∀ x ∈ ['\\', 'u', a, b, c, d], 0x20 ≤ x.toNat := by
  unfold hex4 at h
  split at h
  · next ha hb hc hd =>
    simp only [List.mem_cons, List.not_mem_nil, or_false, forall_eq_or_imp, forall_eq]
    exact ⟨by decide, by decide, hexDigit_noControl ha, hexDigit_noControl hb,
      hexDigit_noControl hc, hexDigit_noControl hd⟩
  · simp at h

theorem simpleEscape_noControl {e d : Char} (h : simpleEscape e = some d) :
    ∀ x ∈ ['\\', e], 0x20 ≤ x.toNat := by
  have he : 0x20 ≤ e.toNat := by
    unfold simpleEscape at h
    split at h <;> first | decide | simp at h
  simp only [List.mem_cons, List.not_mem_nil, or_false, forall_eq_or_imp, forall_eq]
  exact ⟨by decide, he⟩

theorem map_onFst_eq_some {α β : Type} {r : Option (α × List Char)} {f : α → β} {b : β}
    {rest : List Char} (h : r.map (onFst f) = some (b, rest)) :
    ∃ a, r = some (a, rest) ∧ b = f a := by
  obtain ⟨⟨a, rest'⟩, hr, heq⟩ := Option.map_eq_some_iff.mp h
  simp only [onFst, Prod.mk.injEq] at heq
  obtain ⟨rfl, rfl⟩ := heq
  exact ⟨a, hr, rfl⟩

/-- A string body ends at a quotation mark, and what stands before that is
    longer than the string it denotes unless it is plain. -/
theorem stringBody_raw {cs s rest : List Char} (h : stringBody cs = some (s, rest)) :
    ∃ raw, cs = raw ++ '"' :: rest ∧ Raw raw s := by
  fun_induction stringBody cs generalizing s with
  | case2 =>
    -- the closing quotation mark
    obtain ⟨rfl, rfl⟩ := Prod.mk.inj (Option.some.inj h)
    exact ⟨[], rfl, .nil⟩
  | case5 x₁ x₂ x₃ x₄ u hx _ y₁ y₂ y₃ y₄ cs lo hy _ _ ih =>
    -- a surrogate pair: twelve characters for one
    obtain ⟨s', hs', rfl⟩ := map_onFst_eq_some h
    obtain ⟨raw, rfl, hraw⟩ := ih hs'
    refine ⟨['\\', 'u', x₁, x₂, x₃, x₄] ++ (['\\', 'u', y₁, y₂, y₃, y₄] ++ raw), rfl, ?_⟩
    rw [← List.append_assoc]
    refine hraw.escape _ ?_ (by simp)
    intro c hc
    rcases List.mem_append.mp hc with hc | hc
    · exact hex4_noControl hx c hc
    · exact hex4_noControl hy c hc
  | case9 x₁ x₂ x₃ x₄ cs u hx _ _ _ ih =>
    -- a code unit on its own: six characters for one
    obtain ⟨s', hs', rfl⟩ := map_onFst_eq_some h
    obtain ⟨raw, rfl, hraw⟩ := ih hs'
    exact ⟨['\\', 'u', x₁, x₂, x₃, x₄] ++ raw, rfl,
      hraw.escape _ (hex4_noControl hx) (by simp)⟩
  | case11 e cs _ d he _ ih =>
    -- a two-character escape
    obtain ⟨s', hs', rfl⟩ := map_onFst_eq_some h
    obtain ⟨raw, rfl, hraw⟩ := ih hs'
    exact ⟨['\\', e] ++ raw, rfl, hraw.escape _ (simpleEscape_noControl he) (by simp)⟩
  | case14 c cs hq hb hctl ih =>
    -- a plain character, for itself
    obtain ⟨s', hs', rfl⟩ := map_onFst_eq_some h
    obtain ⟨raw, rfl, hraw⟩ := ih hs'
    exact ⟨c :: raw, rfl, hraw.plainChar ⟨hq, hb, Nat.not_lt.mp hctl⟩⟩
  | _ => cases h

/-- A string that reads back as itself in front of a quotation mark is plain,
    if no other quotation mark stands between that one and the next control
    character.  An escaped quotation mark would need such a second one. -/
theorem plain_of_stringBody {m s t rest : List Char} {ctl : Char}
    (h : stringBody (m ++ '"' :: (s ++ ctl :: t)) = some (m, rest))
    (hs : '"' ∉ s) (hctl : ctl.toNat < 0x20) : Plain m := by
  obtain ⟨raw, heq, hraw⟩ := stringBody_raw h
  rcases Nat.eq_or_lt_of_le hraw.length_le with hlen | hlt
  · obtain ⟨rfl, hplain⟩ := hraw.eq_of_length hlen
    exact hplain
  · exfalso
    -- `raw` goes past the quotation mark after `m`
    obtain ⟨more, rfl⟩ : ∃ more, raw = m ++ '"' :: more := by
      have hpre : m ++ ['"'] <+: raw := by
        have hleft : m ++ ['"'] <+: m ++ '"' :: (s ++ ctl :: t) := ⟨s ++ ctl :: t, by simp⟩
        have hright : raw <+: m ++ '"' :: (s ++ ctl :: t) := ⟨'"' :: rest, heq.symm⟩
        exact List.prefix_of_prefix_length_le hleft hright (by simpa using Nat.succ_le_of_lt hlt)
      obtain ⟨more, rfl⟩ := hpre
      exact ⟨more, by simp⟩
    have htail : s ++ ctl :: t = more ++ '"' :: rest := by
      simpa using heq
    -- its own end is then a quotation mark of `s`, or it holds the control character
    rcases List.append_eq_append_iff.mp htail with ⟨as, rfl, has⟩ | ⟨bs, rfl, hbs⟩
    · cases as with
      | nil =>
        have hc : ctl = '"' := by simpa using congrArg List.head? has
        rw [hc] at hctl
        exact absurd hctl (by decide)
      | cons a as =>
        have hc : ctl = a := by simpa using congrArg List.head? has
        have := hraw.noControl ctl (by simp [hc])
        omega
    · cases bs with
      | nil =>
        have hc : ctl = '"' := by simpa using (congrArg List.head? hbs).symm
        rw [hc] at hctl
        exact absurd hctl (by decide)
      | cons b bs =>
        have hb : b = '"' := by simpa using (congrArg List.head? hbs).symm
        exact hs (by simp [hb])

/-! ## Section 6: Fuel

    Every part of a text that is read is at least one character long, so a
    text as long as its fuel is read to its end. -/

theorem skipWs_length_le (cs : List Char) : (skipWs cs).length ≤ cs.length :=
  (List.dropWhile_suffix isWs).length_le

theorem stringBody_length_lt {cs s rest : List Char} (h : stringBody cs = some (s, rest)) :
    rest.length < cs.length := by
  obtain ⟨raw, rfl, _⟩ := stringBody_raw h
  simp only [List.length_append, List.length_cons]
  omega

theorem expect_eq_some {c : Char} {cs rest : List Char} (h : expect c cs = some rest) :
    cs = c :: rest := by
  cases cs with
  | nil => simp [expect] at h
  | cons d ds =>
    by_cases hd : d = c
    · simp only [expect, if_pos hd, Option.some.injEq] at h
      rw [hd, h]
    · simp [expect, hd] at h

theorem expect_skipWs_length_lt {c : Char} {cs rest : List Char}
    (h : expect c (skipWs cs) = some rest) : rest.length < cs.length := by
  have hlen := congrArg List.length (expect_eq_some h)
  have hws := skipWs_length_le cs
  simp only [List.length_cons] at hlen
  omega

theorem memberName_length_lt {cs name rest : List Char}
    (h : memberName cs = some (name, rest)) : rest.length < cs.length := by
  simp only [memberName, Option.bind_eq_some_iff, Option.map_eq_some_iff, Prod.mk.injEq] at h
  obtain ⟨cs₁, h₁, ⟨s, cs₂⟩, h₂, cs₃, h₃, -, rfl⟩ := h
  have hquote := congrArg List.length (expect_eq_some h₁)
  have hbody := stringBody_length_lt h₂
  have hcolon := expect_skipWs_length_lt h₃
  have hws := skipWs_length_le cs₃
  simp only [List.length_cons] at hquote
  dsimp only at hcolon ⊢
  omega

theorem digits_length_le (cs : List Char) :
    (cs.dropWhile Char.isDigit).length ≤ cs.length :=
  (List.dropWhile_suffix Char.isDigit).length_le

theorem fracPart_length_le {cs ds rest : List Char} (h : fracPart cs = some (ds, rest)) :
    rest.length ≤ cs.length := by
  unfold fracPart at h
  split at h
  · next cs =>
    split at h
    · simp at h
    · obtain ⟨-, rfl⟩ := Prod.mk.inj (Option.some.inj h)
      have := digits_length_le cs
      simp only [List.length_cons]
      omega
  · obtain ⟨-, rfl⟩ := Prod.mk.inj (Option.some.inj h)
    exact Nat.le_refl _

theorem expDigits_length_le {negative : Bool} {cs rest : List Char} {e : Int}
    (h : expDigits negative cs = some (e, rest)) : rest.length ≤ cs.length := by
  unfold expDigits at h
  split at h
  · simp at h
  · obtain ⟨-, rfl⟩ := Prod.mk.inj (Option.some.inj h)
    exact digits_length_le cs

theorem expPart_length_le {cs rest : List Char} {e : Int} (h : expPart cs = some (e, rest)) :
    rest.length ≤ cs.length := by
  unfold expPart at h
  split at h
  case h_7 =>
    obtain ⟨-, rfl⟩ := Prod.mk.inj (Option.some.inj h)
    exact Nat.le_refl _
  all_goals
    have := expDigits_length_le h
    simp only [List.length_cons]
    omega

theorem unsigned_length_lt {negative : Bool} {cs rest : List Char} {v : Value}
    (h : unsigned negative cs = some (v, rest)) : rest.length < cs.length := by
  unfold unsigned at h
  split at h
  · next hint =>
    simp only [Option.bind_eq_some_iff, Option.map_eq_some_iff, Prod.mk.injEq] at h
    obtain ⟨⟨frac, cs₁⟩, h₁, ⟨e, cs₂⟩, h₂, -, rfl⟩ := h
    have hfrac := fracPart_length_le h₁
    have hexp := expPart_length_le h₂
    -- the integer part has a digit
    have hdigit : 0 < (cs.takeWhile Char.isDigit).length := by
      rw [List.length_pos_iff]
      intro hnil
      simp [hnil, intDigits] at hint
    have hsplit := congrArg List.length
      (List.takeWhile_append_dropWhile (p := Char.isDigit) (l := cs))
    simp only [List.length_append] at hsplit
    dsimp only at hexp ⊢
    omega
  · simp at h

theorem literal_length_lt {cs rest : List Char} {v : Value}
    (h : literal cs = some (v, rest)) : rest.length < cs.length := by
  unfold literal at h
  split at h
  case h_4 =>
    have := unsigned_length_lt h
    simp only [List.length_cons]
    omega
  case h_5 => exact unsigned_length_lt h
  all_goals
    obtain ⟨-, rfl⟩ := Prod.mk.inj (Option.some.inj h)
    simp only [List.length_cons]
    omega

/-- What `r` reads from `cs` with this fuel it reads with any fuel of twice
    the length of `cs` (and `extra`), and it reads at least one character.
    An array inside an array takes two units for its one character. -/
def Settled {α : Type} (extra : Nat) (r : Nat → List Char → Option (α × List Char))
    (fuel : Nat) : Prop :=
  ∀ cs a rest, r fuel cs = some (a, rest) →
    rest.length < cs.length ∧ ∀ m, 2 * cs.length + extra ≤ m → r m cs = some (a, rest)

/-- It is enough to look at fuels that are not zero. -/
theorem settled_of_succ {α : Type} {r : Nat → List Char → Option (α × List Char)}
    {cs : List Char} {extra : Nat} {a : α} {rest : List Char}
    (h : rest.length < cs.length ∧
      ∀ k, 2 * cs.length + extra ≤ k + 1 → r (k + 1) cs = some (a, rest)) :
    rest.length < cs.length ∧ ∀ m, 2 * cs.length + extra ≤ m → r m cs = some (a, rest) := by
  refine ⟨h.1, ?_⟩
  intro m hm
  obtain ⟨k, rfl⟩ : ∃ k, m = k + 1 := ⟨m - 1, by have := h.1; omega⟩
  exact h.2 k hm

theorem value_settled {fuel : Nat} (hmem : Settled 0 members fuel)
    (helem : Settled 1 elements fuel) : Settled 0 value (fuel + 1) := by
  intro cs v rest h
  cases cs with
  | nil => simp [value] at h
  | cons c cs =>
    have hws := skipWs_length_le cs
    apply settled_of_succ
    simp only [value, List.length_cons] at h ⊢
    -- each kind of value is read the same way with either fuel
    by_cases hobj : c = '{'
    · simp only [if_pos hobj] at h ⊢
      cases hclose : expect '}' (skipWs cs) with
      | some rest' =>
        simp only [hclose, Option.some.injEq, Prod.mk.injEq] at h ⊢
        have := expect_skipWs_length_lt hclose
        exact ⟨by rw [← h.2]; omega, fun _ _ => h⟩
      | none =>
        simp only [hclose] at h ⊢
        obtain ⟨ms, hms, rfl⟩ := map_onFst_eq_some h
        obtain ⟨hlt, hall⟩ := hmem _ _ _ hms
        refine ⟨by omega, ?_⟩
        intro k hk
        rw [hall k (by omega)]
        rfl
    simp only [if_neg hobj] at h ⊢
    by_cases harr : c = '['
    · simp only [if_pos harr] at h ⊢
      cases hclose : expect ']' (skipWs cs) with
      | some rest' =>
        simp only [hclose, Option.some.injEq, Prod.mk.injEq] at h ⊢
        have := expect_skipWs_length_lt hclose
        exact ⟨by rw [← h.2]; omega, fun _ _ => h⟩
      | none =>
        simp only [hclose] at h ⊢
        obtain ⟨vs, hvs, rfl⟩ := map_onFst_eq_some h
        obtain ⟨hlt, hall⟩ := helem _ _ _ hvs
        refine ⟨by omega, ?_⟩
        intro k hk
        rw [hall k (by omega)]
        rfl
    simp only [if_neg harr] at h ⊢
    by_cases hstr : c = '"'
    · simp only [if_pos hstr] at h ⊢
      obtain ⟨s, hs, rfl⟩ := map_onFst_eq_some h
      have := stringBody_length_lt hs
      exact ⟨by omega, fun _ _ => h⟩
    · simp only [if_neg hstr] at h ⊢
      exact ⟨by simpa using literal_length_lt h, fun _ _ => h⟩

theorem members_settled {fuel : Nat} (hval : Settled 0 value fuel)
    (hmem : Settled 0 members fuel) : Settled 0 members (fuel + 1) := by
  intro cs ms rest h
  apply settled_of_succ
  simp only [members, Option.bind_eq_some_iff] at h
  obtain ⟨⟨name, cs₁⟩, hname, ⟨v, cs₂⟩, hv, h⟩ := h
  have hlt₁ := memberName_length_lt hname
  obtain ⟨hlt₂, hall⟩ := hval _ _ _ hv
  dsimp only at hlt₂ hall h
  have hstep : ∀ k, 2 * cs.length ≤ k + 1 → value k cs₁ = some (v, cs₂) :=
    fun k hk => hall k (by omega)
  simp only [members, hname, Option.bind_some]
  cases hcomma : expect ',' (skipWs cs₂) with
  | some cs₃ =>
    simp only [hcomma] at h
    have hlt₃ := expect_skipWs_length_lt hcomma
    have hws := skipWs_length_le cs₃
    obtain ⟨ms', hms, rfl⟩ := map_onFst_eq_some h
    obtain ⟨hlt₄, hall₄⟩ := hmem _ _ _ hms
    refine ⟨by omega, ?_⟩
    intro k hk
    simp only [hstep k hk, Option.bind_some, hcomma]
    rw [hall₄ k (by omega)]
    rfl
  | none =>
    simp only [hcomma, Option.map_eq_some_iff, Prod.mk.injEq] at h
    obtain ⟨rest', hclose, rfl, rfl⟩ := h
    have hlt₃ := expect_skipWs_length_lt hclose
    refine ⟨by omega, ?_⟩
    intro k hk
    simp only [hstep k hk, Option.bind_some, hcomma, hclose, Option.map_some]

theorem elements_settled {fuel : Nat} (hval : Settled 0 value fuel)
    (helem : Settled 1 elements fuel) : Settled 1 elements (fuel + 1) := by
  intro cs vs rest h
  apply settled_of_succ
  simp only [elements, Option.bind_eq_some_iff] at h
  obtain ⟨⟨v, cs₂⟩, hv, h⟩ := h
  obtain ⟨hlt₂, hall⟩ := hval _ _ _ hv
  dsimp only at h
  simp only [elements]
  cases hcomma : expect ',' (skipWs cs₂) with
  | some cs₃ =>
    simp only [hcomma] at h
    have hlt₃ := expect_skipWs_length_lt hcomma
    have hws := skipWs_length_le cs₃
    obtain ⟨vs', hvs, rfl⟩ := map_onFst_eq_some h
    obtain ⟨hlt₄, hall₄⟩ := helem _ _ _ hvs
    refine ⟨by omega, ?_⟩
    intro k hk
    simp only [hall k (by omega), Option.bind_some, hcomma]
    rw [hall₄ k (by omega)]
    rfl
  | none =>
    simp only [hcomma, Option.map_eq_some_iff, Prod.mk.injEq] at h
    obtain ⟨rest', hclose, rfl, rfl⟩ := h
    have hlt₃ := expect_skipWs_length_lt hclose
    refine ⟨by omega, ?_⟩
    intro k hk
    simp only [hall k (by omega), Option.bind_some, hcomma, hclose, Option.map_some]

/-- The three readers settle together, by induction on the fuel. -/
theorem settled (fuel : Nat) :
    Settled 0 value fuel ∧ Settled 0 members fuel ∧ Settled 1 elements fuel := by
  induction fuel with
  | zero =>
    refine ⟨?_, ?_, ?_⟩
    · intro cs a rest h
      simp [value] at h
    · intro cs a rest h
      simp [members] at h
    · intro cs a rest h
      simp [elements] at h
  | succ fuel ih =>
    obtain ⟨hval, hmem, helem⟩ := ih
    exact ⟨value_settled hmem helem, members_settled hval hmem, elements_settled hval helem⟩

/-- Twice the length of the text is enough fuel to parse it. -/
theorem parses_iff {text : List Char} {v : Value} : Parses text v ↔ parse text = some v := by
  constructor
  · rintro ⟨fuel, h⟩
    unfold parseText at h
    split at h
    · next v' rest hv =>
      have hws := skipWs_length_le text
      have hsettled := ((settled fuel).1 _ _ _ hv).2 (2 * text.length) (by omega)
      rw [parse, parseText, hsettled]
      exact h
    · simp at h
  · intro h
    exact ⟨2 * text.length, h⟩

/-! ## Section 7: Objects of strings -/

/-- A quotation mark starts a string value. -/
theorem value_string (fuel : Nat) (cs : List Char) :
    value (fuel + 1) ('"' :: cs) = (stringBody cs).map (onFst .str) := by
  rfl

/-- A plain name, its colon and one blank. -/
theorem memberName_plain {name : List Char} (h : Plain name) (cs : List Char) :
    memberName ('"' :: (name ++ '"' :: ':' :: ' ' :: '"' :: cs)) = some (name, '"' :: cs) := by
  have hname : stringBody (name ++ '"' :: ':' :: ' ' :: '"' :: cs) =
      some (name, ':' :: ' ' :: '"' :: cs) := stringBody_plain h _
  show (stringBody (name ++ '"' :: ':' :: ' ' :: '"' :: cs)).bind _ = _
  rw [hname]
  rfl

/-- A member whose value is a string, and what may follow it. -/
theorem members_string {name : List Char} (h : Plain name) (fuel : Nat) (cs : List Char) :
    members (fuel + 2) ('"' :: (name ++ '"' :: ':' :: ' ' :: '"' :: cs)) =
      (stringBody cs).bind fun (s, cs) =>
        match expect ',' (skipWs cs) with
        | some cs => (members (fuel + 1) (skipWs cs)).map (onFst ((name, .str s) :: ·))
        | none => (expect '}' (skipWs cs)).map fun rest => ([(name, .str s)], rest) := by
  rw [members, memberName_plain h]
  simp only [Option.bind_some, value_string]
  cases stringBody cs with
  | none => rfl
  | some p => rfl

/-- A member that a comma follows. -/
theorem members_string_comma {name s cs rest : List Char} (h : Plain name)
    (hs : stringBody cs = some (s, ',' :: rest)) (fuel : Nat) :
    members (fuel + 2) ('"' :: (name ++ '"' :: ':' :: ' ' :: '"' :: cs)) =
      (members (fuel + 1) (skipWs rest)).map (onFst ((name, .str s) :: ·)) := by
  rw [members_string h, hs]
  rfl

/-- The last member, before a line break and the closing brace. -/
theorem members_string_last {name s cs rest : List Char} (h : Plain name)
    (hs : stringBody cs = some (s, '\n' :: '}' :: rest)) (fuel : Nat) :
    members (fuel + 2) ('"' :: (name ++ '"' :: ':' :: ' ' :: '"' :: cs)) =
      some ([(name, .str s)], rest) := by
  rw [members_string h, hs]
  rfl

/-- The first member that is read has the name and the string that stand there. -/
theorem members_string_head {name cs rest : List Char} {m : List Char × Value}
    {ms : List (List Char × Value)} {fuel : Nat} (h : Plain name)
    (hms : members (fuel + 2) ('"' :: (name ++ '"' :: ':' :: ' ' :: '"' :: cs)) =
      some (m :: ms, rest)) :
    ∃ s rest', stringBody cs = some (s, rest') ∧ m = (name, .str s) := by
  rw [members_string h, Option.bind_eq_some_iff] at hms
  obtain ⟨⟨s, cs'⟩, hs, hms⟩ := hms
  refine ⟨s, cs', hs, ?_⟩
  dsimp only at hms
  split at hms
  · obtain ⟨ms', -, heq⟩ := map_onFst_eq_some hms
    exact (List.cons.inj heq).1
  · obtain ⟨rest', -, heq⟩ := Option.map_eq_some_iff.mp hms
    exact (List.cons.inj (Prod.mk.inj heq).1).1.symm

/-! ## Section 8: Short objects -/

theorem unsigned_ne_obj {negative : Bool} {cs rest : List Char} {ms : List (List Char × Value)} :
    unsigned negative cs ≠ some (.obj ms, rest) := by
  intro h
  unfold unsigned at h
  split at h
  · simp only [Option.bind_eq_some_iff, Option.map_eq_some_iff, Prod.mk.injEq] at h
    obtain ⟨_, _, _, _, hv, _⟩ := h
    cases hv
  · cases h

theorem literal_ne_obj {cs rest : List Char} {ms : List (List Char × Value)} :
    literal cs ≠ some (.obj ms, rest) := by
  intro h
  unfold literal at h
  split at h
  case h_4 => exact unsigned_ne_obj h
  case h_5 => exact unsigned_ne_obj h
  all_goals cases h

/-- An object starts with a brace, and then closes or has a member. -/
theorem value_obj {fuel : Nat} {cs rest : List Char} {ms : List (List Char × Value)}
    (h : value fuel cs = some (.obj ms, rest)) :
    ∃ fuel' cs', cs = '{' :: cs' ∧
      (expect '}' (skipWs cs') = some rest ∨ members fuel' (skipWs cs') = some (ms, rest)) := by
  cases fuel with
  | zero => simp [value] at h
  | succ fuel =>
    cases cs with
    | nil => simp [value] at h
    | cons c cs =>
      simp only [value] at h
      split at h
      · next hc =>
        subst hc
        refine ⟨fuel, cs, rfl, ?_⟩
        split at h
        · next rest' hclose =>
          left
          rw [hclose, (Prod.mk.inj (Option.some.inj h)).2]
        · obtain ⟨ms', hms, heq⟩ := map_onFst_eq_some h
          right
          rw [hms, Value.obj.inj heq]
      split at h
      · split at h
        · cases h
        · obtain ⟨_, _, heq⟩ := map_onFst_eq_some h
          cases heq
      split at h
      · obtain ⟨_, _, heq⟩ := map_onFst_eq_some h
        cases heq
      · exact absurd h literal_ne_obj

theorem members_length {fuel : Nat} {cs rest : List Char} {ms : List (List Char × Value)}
    (h : members fuel cs = some (ms, rest)) : 2 ≤ cs.length := by
  cases fuel with
  | zero => simp [members] at h
  | succ fuel =>
    simp only [members, Option.bind_eq_some_iff] at h
    obtain ⟨⟨name, cs₁⟩, hname, -⟩ := h
    simp only [memberName, Option.bind_eq_some_iff] at hname
    obtain ⟨cs₂, hquote, ⟨s, cs₃⟩, hbody, -⟩ := hname
    rw [expect_eq_some hquote]
    have := stringBody_length_lt hbody
    simp only [List.length_cons]
    omega

/-- The only object written with two characters is the empty one. -/
theorem parse_obj_of_length {text : List Char} {ms : List (List Char × Value)}
    (h : parse text = some (.obj ms)) (hlen : text.length ≤ 2) : text = ['{', '}'] := by
  unfold parse parseText at h
  split at h
  · next v rest hv =>
    split at h
    · obtain rfl := Option.some.inj h
      obtain ⟨fuel, cs, hcs, hrest⟩ := value_obj hv
      -- nothing is skipped, as the object itself takes two characters
      have hone : 1 ≤ (skipWs cs).length := by
        rcases hrest with hclose | hms
        · rw [expect_eq_some hclose]
          simp
        · have := members_length hms
          omega
      have hws := skipWs_length_le cs
      have hlen' : (skipWs text).length = cs.length + 1 := by
        rw [hcs, List.length_cons]
      have hws' := skipWs_length_le text
      have htext : skipWs text = text :=
        (List.dropWhile_suffix isWs).eq_of_length (by show (skipWs text).length = _; omega)
      rcases hrest with hclose | hms
      · -- the closing brace is the second character
        have hskip : skipWs cs = cs :=
          (List.dropWhile_suffix isWs).eq_of_length (by show (skipWs cs).length = _; omega)
        have hcs' := expect_eq_some hclose
        rw [hskip] at hcs'
        rw [← htext, hcs, hcs']
        have : rest = [] := by
          rw [← List.length_eq_zero_iff]
          rw [hcs', List.length_cons] at hlen'
          omega
        rw [this]
      · -- a member takes two characters more
        have := members_length hms
        omega
    · cases h
  · cases h

end Json
