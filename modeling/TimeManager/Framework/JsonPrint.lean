import Mathlib.Data.List.Nodup
import TimeManager.Framework.Json

/-! # Writing JSON Texts

    A writer for JSON values that puts in no white space, and the round
    trip: `parse (print v) = some v` for every value `v`.

    What follows a value in a text could continue a number, so the lemmas on
    the readers are about a printed value and any `rest` that does not
    (`Stops rest`).  Fuel is no concern here: what is read with some fuel is
    read with any that is twice the length of the text (`settled`). -/

namespace Json

/-! ## Section 1: The writer -/

/-- The character after the backslash, where there is an escape of two
    characters. -/
def shortEscape (c : Char) : Option Char :=
  if c = '"' then some '"'
  else if c = '\\' then some '\\'
  else if c = '/' then some '/'
  else if c = Char.ofNat 0x08 then some 'b'
  else if c = Char.ofNat 0x0C then some 'f'
  else if c = '\n' then some 'n'
  else if c = '\r' then some 'r'
  else if c = '\t' then some 't'
  else none

/-- What stands for a character between quotation marks. -/
def escapeChar (c : Char) : List Char :=
  match shortEscape c with
  | some e => ['\\', e]
  | none =>
    if c.toNat < 0x20 then
      ['\\', 'u', '0', '0', Nat.digitChar (c.toNat / 16), Nat.digitChar (c.toNat % 16)]
    else [c]

def printString (s : List Char) : List Char := '"' :: (s.flatMap escapeChar ++ ['"'])

def printInt (i : Int) : List Char :=
  if i < 0 then '-' :: Nat.toDigits 10 i.natAbs else Nat.toDigits 10 i.natAbs

def printNumber (n : Number) : List Char :=
  printInt n.mantissa ++ if n.exponent = 0 then [] else 'e' :: printInt n.exponent

/-- A comma, if anything follows. -/
def comma {α : Type} : List α → List Char
  | [] => []
  | _ :: _ => [',']

mutual

def print : Value → List Char
  | .null => ['n', 'u', 'l', 'l']
  | .bool true => ['t', 'r', 'u', 'e']
  | .bool false => ['f', 'a', 'l', 's', 'e']
  | .number n => printNumber n
  | .str s => printString s
  | .arr vs => '[' :: printElements vs
  | .obj ms => '{' :: printMembers ms

/-- The elements of an array and its closing bracket. -/
def printElements : List Value → List Char
  | [] => [']']
  | v :: vs => print v ++ (comma vs ++ printElements vs)

/-- The members of an object and its closing brace. -/
def printMembers : List (List Char × Value) → List Char
  | [] => ['}']
  | m :: ms => printMember m ++ (comma ms ++ printMembers ms)

def printMember : List Char × Value → List Char
  | (name, v) => printString name ++ ':' :: print v

end

/-! ## Section 2: Strings -/

theorem simpleEscape_of_shortEscape {c e : Char} (h : shortEscape c = some e) :
    simpleEscape e = some c := by
  unfold shortEscape at h
  repeat' split at h
  all_goals first
    | cases h; next hc => rw [hc]; rfl
    | cases h

theorem stringBody_simpleEscape {e d : Char} (h : simpleEscape e = some d) (cs : List Char) :
    stringBody ('\\' :: e :: cs) = (stringBody cs).map (onFst (d :: ·)) := by
  have hu : e ≠ 'u' := by
    rintro rfl
    cases h
  rw [stringBody.eq_def]
  simp only [Char.reduceEq, if_false, if_true]
  split
  · next heq => exact absurd (List.cons.inj heq).1 hu
  · next heq =>
    obtain ⟨rfl, rfl⟩ := List.cons.inj heq
    rw [h]
  · next heq => cases heq

/-- The escapes of the control characters. -/
theorem hex4_control : ∀ n < 0x20,
    hex4 '0' '0' (Nat.digitChar (n / 16)) (Nat.digitChar (n % 16)) = some n := by
  decide

theorem stringBody_control {c : Char} (h : c.toNat < 0x20) (cs : List Char) :
    stringBody ('\\' :: 'u' :: '0' :: '0' :: Nat.digitChar (c.toNat / 16) ::
      Nat.digitChar (c.toNat % 16) :: cs) = (stringBody cs).map (onFst (c :: ·)) := by
  have hhigh : isHighSurrogate c.toNat = false := by
    simp only [isHighSurrogate, Bool.and_eq_false_iff, decide_eq_false_iff_not]
    omega
  have hlow : isLowSurrogate c.toNat = false := by
    simp only [isLowSurrogate, Bool.and_eq_false_iff, decide_eq_false_iff_not]
    omega
  rw [stringBody.eq_def]
  simp [hex4_control c.toNat h, hhigh, hlow]

/-- What stands for a character denotes it. -/
theorem stringBody_escapeChar (c : Char) (cs : List Char) :
    stringBody (escapeChar c ++ cs) = (stringBody cs).map (onFst (c :: ·)) := by
  unfold escapeChar
  cases hshort : shortEscape c with
  | some e => exact stringBody_simpleEscape (simpleEscape_of_shortEscape hshort) cs
  | none =>
    dsimp only
    split
    · next hctl => exact stringBody_control hctl cs
    · next hctl =>
      have hplain : plainChar c := by
        refine ⟨?_, ?_, Nat.le_of_not_lt hctl⟩
        · rintro rfl
          cases hshort
        · rintro rfl
          cases hshort
      exact stringBody_plainChar hplain cs

/-- A printed string denotes the string. -/
theorem stringBody_flatMap (s rest : List Char) :
    stringBody (s.flatMap escapeChar ++ '"' :: rest) = some (s, rest) := by
  induction s with
  | nil => exact stringBody_quote rest
  | cons c s ih =>
    rw [List.flatMap_cons, List.append_assoc, stringBody_escapeChar, ih]
    rfl

/-! ## Section 3: Numbers -/

/-- A text that does not continue a number. -/
def Stops (rest : List Char) : Prop :=
  ∀ c ∈ rest.head?, c.isDigit = false ∧ c ≠ '.' ∧ c ≠ 'e' ∧ c ≠ 'E'

theorem Stops.nil : Stops [] := by
  intro c hc
  cases hc

theorem intDigits_append {ds : List Char} (h : intDigits ds = true) (hzero : ds ≠ ['0'])
    (es : List Char) : intDigits (ds ++ es) = true := by
  cases ds with
  | nil => cases h
  | cons d ds =>
    by_cases hd : d = '0'
    · subst hd
      cases ds with
      | nil => exact absurd rfl hzero
      | cons d' ds => cases h
    · unfold intDigits
      split
      · next heq => cases heq
      · next heq => exact absurd (List.cons.inj heq).1 hd
      · next heq => exact absurd (List.cons.inj heq).1 hd
      · rfl

theorem natOfDigits_toDigits (n : Nat) : natOfDigits (Nat.toDigits 10 n) = n := by
  have h := @Nat.ofDigitChars_ten_toDigits n
  rw [Nat.ofDigitChars_eq_foldl] at h
  exact h

/-- Decimal digits have no leading zero. -/
theorem intDigits_toDigits (n : Nat) : intDigits (Nat.toDigits 10 n) = true := by
  induction n using Nat.strongRecOn with
  | ind n ih =>
    by_cases hlt : n < 10
    · have hall : ∀ m < 10, intDigits [Nat.digitChar m] = true := by decide
      rw [Nat.toDigits_of_lt_base hlt]
      exact hall n hlt
    · rw [Nat.toDigits_of_base_le (by decide) (Nat.le_of_not_lt hlt)]
      apply intDigits_append (ih (n / 10) (by omega))
      intro hzero
      have hval := natOfDigits_toDigits (n / 10)
      rw [hzero] at hval
      have : n / 10 = 0 := hval.symm
      omega

/-- Decimal digits start with a digit. -/
theorem toDigits_eq_cons (n : Nat) :
    ∃ d ds, Nat.toDigits 10 n = d :: ds ∧ d.isDigit = true := by
  cases h : Nat.toDigits 10 n with
  | nil => exact absurd h Nat.toDigits_ne_nil
  | cons d ds =>
    have hmem : d ∈ Nat.toDigits 10 n := by
      rw [h]
      exact List.mem_cons_self
    exact ⟨d, ds, rfl, Nat.isDigit_of_mem_toDigits (by decide) (by decide) hmem⟩

theorem takeWhile_toDigits (n : Nat) {rest : List Char}
    (hrest : ∀ c ∈ rest.head?, c.isDigit = false) :
    (Nat.toDigits 10 n ++ rest).takeWhile Char.isDigit = Nat.toDigits 10 n ∧
      (Nat.toDigits 10 n ++ rest).dropWhile Char.isDigit = rest := by
  have hdigits : ∀ c ∈ Nat.toDigits 10 n, c.isDigit = true :=
    fun c hc => Nat.isDigit_of_mem_toDigits (by decide) (by decide) hc
  rw [List.takeWhile_append_of_pos hdigits, List.dropWhile_append_of_pos hdigits]
  cases rest with
  | nil => simp
  | cons c cs => simp [hrest c rfl]

theorem expDigits_toDigits (negative : Bool) (n : Nat) {rest : List Char}
    (hrest : ∀ c ∈ rest.head?, c.isDigit = false) :
    expDigits negative (Nat.toDigits 10 n ++ rest) = some (signed negative n, rest) := by
  obtain ⟨htake, hdrop⟩ := takeWhile_toDigits n hrest
  unfold expDigits
  rw [htake, hdrop, if_neg Nat.toDigits_ne_nil, natOfDigits_toDigits]

theorem expPart_digit {d : Char} (hd : d.isDigit = true) (cs : List Char) :
    expPart ('e' :: d :: cs) = expDigits false (d :: cs) := by
  have hminus : d ≠ '-' := by
    rintro rfl
    cases hd
  have hplus : d ≠ '+' := by
    rintro rfl
    cases hd
  simp [expPart, hminus, hplus]

/-- The exponent of a printed number, if it has one. -/
theorem expPart_print {e : Int} {rest : List Char} (hrest : Stops rest) :
    expPart ((if e = 0 then [] else 'e' :: printInt e) ++ rest) = some (e, rest) := by
  have hdigit : ∀ c ∈ rest.head?, c.isDigit = false := fun c hc => (hrest c hc).1
  by_cases he : e = 0
  · rw [if_pos he, he, List.nil_append]
    cases rest with
    | nil => rfl
    | cons c cs =>
      obtain ⟨-, -, hlower, hupper⟩ := hrest c rfl
      unfold expPart
      split
      case h_7 => rfl
      all_goals
        next heq =>
        obtain ⟨rfl, -⟩ := List.cons.inj heq
        contradiction
  · rw [if_neg he]
    unfold printInt
    split
    · next hneg =>
      show expDigits true (Nat.toDigits 10 e.natAbs ++ rest) = _
      rw [expDigits_toDigits true _ hdigit, signed, if_pos rfl]
      congr 2
      omega
    · next hneg =>
      have hsplit : expPart ('e' :: (Nat.toDigits 10 e.natAbs ++ rest)) =
          expDigits false (Nat.toDigits 10 e.natAbs ++ rest) := by
        obtain ⟨d, ds, hds, hd⟩ := toDigits_eq_cons e.natAbs
        rw [hds, List.cons_append]
        exact expPart_digit hd _
      rw [List.cons_append, hsplit, expDigits_toDigits false _ hdigit, signed, if_neg (by decide)]
      congr 2
      omega

/-- A printed number without its sign. -/
theorem unsigned_print (negative : Bool) (n : Nat) (e : Int) {rest : List Char}
    (hrest : Stops rest) :
    unsigned negative (Nat.toDigits 10 n ++ ((if e = 0 then [] else 'e' :: printInt e) ++ rest)) =
      some (.number ⟨signed negative n, e⟩, rest) := by
  generalize hexp : (if e = 0 then [] else 'e' :: printInt e) ++ rest = exp
  -- the exponent or what follows the number ends its digits
  have hstop : ∀ c ∈ exp.head?, c.isDigit = false ∧ c ≠ '.' := by
    intro c hc
    by_cases he : e = 0
    · rw [if_pos he, List.nil_append] at hexp
      subst hexp
      exact ⟨(hrest c hc).1, (hrest c hc).2.1⟩
    · rw [if_neg he] at hexp
      subst hexp
      obtain rfl := Option.some.inj hc
      decide
  obtain ⟨htake, hdrop⟩ := takeWhile_toDigits n fun c hc => (hstop c hc).1
  have hfrac : fracPart exp = some ([], exp) := by
    unfold fracPart
    split
    · exact absurd rfl (hstop '.' rfl).2
    · rfl
  unfold unsigned
  rw [htake, hdrop, if_pos (intDigits_toDigits n), hfrac, Option.bind_some]
  dsimp only
  rw [← hexp, expPart_print hrest]
  simp [natOfDigits_toDigits]

theorem literal_digit {d : Char} (hd : d.isDigit = true) (cs : List Char) :
    literal (d :: cs) = unsigned false (d :: cs) := by
  unfold literal
  split
  case h_5 => rfl
  all_goals
    next heq =>
    obtain ⟨rfl, -⟩ := List.cons.inj heq
    cases hd

/-- A printed number is read back. -/
theorem literal_printNumber (n : Number) {rest : List Char} (hrest : Stops rest) :
    literal (printNumber n ++ rest) = some (.number n, rest) := by
  unfold printNumber
  rw [List.append_assoc, printInt]
  split
  · next hneg =>
    rw [List.cons_append]
    show unsigned true _ = _
    have habs : -(n.mantissa.natAbs : Int) = n.mantissa := by omega
    rw [unsigned_print true _ _ hrest, signed, if_pos rfl, habs]
  · next hneg =>
    obtain ⟨d, ds, hds, hd⟩ := toDigits_eq_cons n.mantissa.natAbs
    have habs : (n.mantissa.natAbs : Int) = n.mantissa := by omega
    rw [hds, List.cons_append, literal_digit hd, ← List.cons_append, ← hds,
      unsigned_print false _ _ hrest, signed, if_neg (by decide), habs]

/-! ## Section 4: Values -/

/-- A character that a printed value may start with. -/
def opens (c : Char) : Bool :=
  c.isDigit || c ∈ ['n', 't', 'f', '-', '"', '[', '{']

theorem opens_digit {d : Char} (hd : d.isDigit = true) : opens d = true := by
  simp [opens, hd]

theorem printNumber_eq_cons (n : Number) :
    ∃ c cs, printNumber n = c :: cs ∧ (c = '-' ∨ c.isDigit = true) := by
  unfold printNumber printInt
  split
  · exact ⟨'-', _, List.cons_append, .inl rfl⟩
  · obtain ⟨d, ds, hds, hd⟩ := toDigits_eq_cons n.mantissa.natAbs
    rw [hds]
    exact ⟨d, _, List.cons_append, .inr hd⟩

theorem print_eq_cons (v : Value) : ∃ c cs, print v = c :: cs ∧ opens c = true := by
  cases v with
  | null => exact ⟨_, _, rfl, by decide⟩
  | bool b => cases b <;> exact ⟨_, _, rfl, by decide⟩
  | number n =>
    obtain ⟨c, cs, hprint, rfl | hc⟩ := printNumber_eq_cons n
    · exact ⟨'-', cs, by rw [print, hprint], by decide⟩
    · exact ⟨c, cs, by rw [print, hprint], opens_digit hc⟩
  | str s => exact ⟨'"', _, by rw [print, printString], by decide⟩
  | arr vs => exact ⟨'[', _, by rw [print], by decide⟩
  | obj ms => exact ⟨'{', _, by rw [print], by decide⟩

/-- No white space is skipped before what a value may start with. -/
theorem skipWs_of_opens {c : Char} (h : opens c = true) (cs : List Char) :
    skipWs (c :: cs) = c :: cs := by
  have hws : isWs c = false := by
    by_contra hws
    simp only [isWs, Bool.or_eq_true, decide_eq_true_eq, Bool.not_eq_false] at hws
    rcases hws with ((rfl | rfl) | rfl) | rfl <;> cases h
  simp [skipWs, hws]

theorem skipWs_print (v : Value) (rest : List Char) :
    skipWs (print v ++ rest) = print v ++ rest := by
  obtain ⟨c, cs, hprint, hc⟩ := print_eq_cons v
  rw [hprint]
  exact skipWs_of_opens hc _

/-- A value is not the end of an array. -/
theorem expect_print {b : Char} (hb : opens b = false) (v : Value) (rest : List Char) :
    expect b (print v ++ rest) = none := by
  obtain ⟨c, cs, hprint, hc⟩ := print_eq_cons v
  have hne : c ≠ b := by
    rintro rfl
    rw [hc] at hb
    cases hb
  rw [hprint, List.cons_append, expect, if_neg hne]

/-- What is read with some fuel is read with any that is enough. -/
theorem value_of_fuel {fuel m : Nat} {cs rest : List Char} {v : Value}
    (h : value fuel cs = some (v, rest)) (hm : 2 * cs.length ≤ m) :
    value m cs = some (v, rest) :=
  ((settled fuel).1 cs v rest h).2 m hm

theorem members_of_fuel {fuel m : Nat} {cs rest : List Char} {ms : List (List Char × Value)}
    (h : members fuel cs = some (ms, rest)) (hm : 2 * cs.length ≤ m) :
    members m cs = some (ms, rest) :=
  ((settled fuel).2.1 cs ms rest h).2 m hm

theorem elements_of_fuel {fuel m : Nat} {cs rest : List Char} {vs : List Value}
    (h : elements fuel cs = some (vs, rest)) (hm : 2 * cs.length + 1 ≤ m) :
    elements m cs = some (vs, rest) :=
  ((settled fuel).2.2 cs vs rest h).2 m hm

/-- The value `v` is read from `text`, whatever stands after it. -/
def ReadsValue (text : List Char) (v : Value) : Prop :=
  ∀ rest, Stops rest → ∃ fuel, value fuel (text ++ rest) = some (v, rest)

def ReadsElements (text : List Char) (vs : List Value) : Prop :=
  ∀ rest, ∃ fuel, elements fuel (text ++ rest) = some (vs, rest)

def ReadsMembers (text : List Char) (ms : List (List Char × Value)) : Prop :=
  ∀ rest, ∃ fuel, members fuel (text ++ rest) = some (ms, rest)

/-- A value other than a string, an object or an array. -/
theorem value_literal {c : Char} {cs rest : List Char} {v : Value}
    (hc : c ∉ ['{', '[', '"']) (h : literal (c :: cs) = some (v, rest)) :
    value 1 (c :: cs) = some (v, rest) := by
  simp only [List.mem_cons, List.not_mem_nil, or_false, not_or] at hc
  obtain ⟨hobj, harr, hstr⟩ := hc
  rw [value]
  simp only [if_neg hobj, if_neg harr, if_neg hstr, h]

theorem readsValue_number (n : Number) : ReadsValue (printNumber n) (.number n) := by
  intro rest hrest
  have h := literal_printNumber n hrest
  obtain ⟨c, cs, hprint, hc⟩ := printNumber_eq_cons n
  rw [hprint] at h ⊢
  refine ⟨1, value_literal ?_ h⟩
  intro hmem
  simp only [List.mem_cons, List.not_mem_nil, or_false] at hmem
  rcases hc with rfl | hc
  · simp at hmem
  · rcases hmem with rfl | rfl | rfl <;> cases hc

theorem readsValue_string (s : List Char) : ReadsValue (printString s) (.str s) := by
  intro rest _
  refine ⟨1, ?_⟩
  rw [printString, List.cons_append, List.append_assoc, value_string]
  show (stringBody (s.flatMap escapeChar ++ '"' :: rest)).map _ = _
  rw [stringBody_flatMap]
  rfl

/-- An array is read if its elements are, or if it has none. -/
theorem readsValue_arr {vs : List Value} (h : vs ≠ [] → ReadsElements (printElements vs) vs) :
    ReadsValue ('[' :: printElements vs) (.arr vs) := by
  intro rest _
  cases vs with
  | nil => exact ⟨1, by rw [printElements]; rfl⟩
  | cons v vs =>
    obtain ⟨fuel, hfuel⟩ := h (List.cons_ne_nil v vs) rest
    refine ⟨fuel + 1, ?_⟩
    have hskip : skipWs (printElements (v :: vs) ++ rest) = printElements (v :: vs) ++ rest := by
      rw [printElements, List.append_assoc]
      exact skipWs_print v _
    have hclose : expect ']' (printElements (v :: vs) ++ rest) = none := by
      rw [printElements, List.append_assoc]
      exact expect_print (by decide) v _
    rw [List.cons_append, value]
    simp only [Char.reduceEq, if_false, if_true, hskip, hclose, hfuel]
    rfl

/-- An object is read if its members are, or if it has none. -/
theorem readsValue_obj {ms : List (List Char × Value)}
    (h : ms ≠ [] → ReadsMembers (printMembers ms) ms) :
    ReadsValue ('{' :: printMembers ms) (.obj ms) := by
  intro rest _
  cases ms with
  | nil => exact ⟨1, by rw [printMembers]; rfl⟩
  | cons m ms =>
    obtain ⟨fuel, hfuel⟩ := h (List.cons_ne_nil m ms) rest
    refine ⟨fuel + 1, ?_⟩
    obtain ⟨cs, hcs⟩ : ∃ cs, printMembers (m :: ms) ++ rest = '"' :: cs := by
      rw [printMembers, printMember, printString]
      exact ⟨_, rfl⟩
    rw [hcs] at hfuel
    rw [List.cons_append, value, hcs]
    simp only [if_true, skipWs_of_opens (c := '"') (by decide), hfuel]
    rfl

/-- What follows a value inside an array or an object does not continue it. -/
theorem Stops.cons {c : Char} (h : c ∈ [',', ']', '}']) (cs : List Char) : Stops (c :: cs) := by
  intro d hd
  obtain rfl := Option.some.inj hd
  simp only [List.mem_cons, List.not_mem_nil, or_false] at h
  rcases h with rfl | rfl | rfl <;> decide

/-- The elements of an array, from the first one and the rest. -/
theorem readsElements_cons {v : Value} {vs : List Value} (hv : ReadsValue (print v) v)
    (hvs : vs ≠ [] → ReadsElements (printElements vs) vs) :
    ReadsElements (printElements (v :: vs)) (v :: vs) := by
  intro rest
  rw [printElements, List.append_assoc, List.append_assoc]
  cases vs with
  | nil =>
    rw [comma, printElements, List.nil_append]
    obtain ⟨fuel, hfuel⟩ := hv _ (.cons (c := ']') (by decide) rest)
    refine ⟨fuel + 1, ?_⟩
    rw [elements]
    show (value fuel (print v ++ ']' :: rest)).bind _ = _
    rw [hfuel]
    rfl
  | cons w ws =>
    obtain ⟨fuel₁, h₁⟩ := hv _ (.cons (c := ',') (by decide) (printElements (w :: ws) ++ rest))
    obtain ⟨fuel₂, h₂⟩ := hvs (List.cons_ne_nil w ws) rest
    -- enough fuel for both
    refine ⟨2 * (print v ++ ',' :: (printElements (w :: ws) ++ rest)).length + 2, ?_⟩
    have hskip : skipWs (printElements (w :: ws) ++ rest) = printElements (w :: ws) ++ rest := by
      rw [printElements, List.append_assoc]
      exact skipWs_print w _
    have hfirst := value_of_fuel h₁ (Nat.le_succ_of_le (Nat.le_refl _))
    have hrest := elements_of_fuel
      (m := 2 * (print v ++ ',' :: (printElements (w :: ws) ++ rest)).length + 1) h₂
      (by simp only [List.length_append, List.length_cons]; omega)
    rw [elements, comma]
    show (value _ (print v ++ ',' :: (printElements (w :: ws) ++ rest))).bind _ = _
    rw [hfirst, Option.bind_some]
    show (elements _ (skipWs (printElements (w :: ws) ++ rest))).map _ = _
    rw [hskip, hrest]
    rfl

/-- The name of a printed member, and the text after its colon. -/
theorem memberName_print (name : List Char) (v : Value) (rest : List Char) :
    memberName (printString name ++ ':' :: (print v ++ rest)) = some (name, print v ++ rest) := by
  rw [printString, List.cons_append, List.append_assoc]
  show (stringBody (name.flatMap escapeChar ++ '"' :: ':' :: (print v ++ rest))).bind _ = _
  rw [stringBody_flatMap]
  show some (name, skipWs (print v ++ rest)) = _
  rw [skipWs_print]

/-- The members of an object, from the first one and the rest. -/
theorem readsMembers_cons {name : List Char} {v : Value} {ms : List (List Char × Value)}
    (hv : ReadsValue (print v) v) (hms : ms ≠ [] → ReadsMembers (printMembers ms) ms) :
    ReadsMembers (printMembers ((name, v) :: ms)) ((name, v) :: ms) := by
  intro rest
  have hname := memberName_print name v (comma ms ++ (printMembers ms ++ rest))
  rw [printMembers, printMember, List.append_assoc, List.append_assoc, List.cons_append,
    List.append_assoc]
  cases ms with
  | nil =>
    rw [comma, printMembers, List.nil_append] at hname ⊢
    obtain ⟨fuel, hfuel⟩ := hv _ (.cons (c := '}') (by decide) rest)
    refine ⟨fuel + 1, ?_⟩
    rw [members]
    show (memberName (printString name ++ ':' :: (print v ++ '}' :: rest))).bind _ = _
    rw [show memberName (printString name ++ ':' :: (print v ++ '}' :: rest)) = _ from hname]
    show (value fuel (print v ++ '}' :: rest)).bind _ = _
    rw [hfuel]
    rfl
  | cons m ms' =>
    obtain ⟨fuel₁, h₁⟩ := hv _ (.cons (c := ',') (by decide) (printMembers (m :: ms') ++ rest))
    obtain ⟨fuel₂, h₂⟩ := hms (List.cons_ne_nil m ms') rest
    -- enough fuel for both
    refine ⟨2 * (print v ++ ',' :: (printMembers (m :: ms') ++ rest)).length + 1, ?_⟩
    obtain ⟨cs, hcs⟩ : ∃ cs, printMembers (m :: ms') ++ rest = '"' :: cs := by
      rw [printMembers, printMember, printString]
      exact ⟨_, rfl⟩
    have hfirst := value_of_fuel h₁ (Nat.le_refl _)
    have hrest := members_of_fuel
      (m := 2 * (print v ++ ',' :: (printMembers (m :: ms') ++ rest)).length) h₂
      (by simp only [List.length_append, List.length_cons]; omega)
    rw [members, hname, Option.bind_some]
    show (value _ (print v ++ ',' :: (printMembers (m :: ms') ++ rest))).bind _ = _
    rw [hfirst, Option.bind_some]
    show (members _ (skipWs (printMembers (m :: ms') ++ rest))).map _ = _
    rw [hcs, skipWs_of_opens (by decide), ← hcs, hrest]
    rfl

mutual

/-- Every printed value is read back, by structural induction. -/
theorem readsValue_print : ∀ v : Value, ReadsValue (print v) v
  | .null => fun _ _ => ⟨1, rfl⟩
  | .bool true => fun _ _ => ⟨1, rfl⟩
  | .bool false => fun _ _ => ⟨1, rfl⟩
  | .number n => by
    rw [print]
    exact readsValue_number n
  | .str s => by
    rw [print]
    exact readsValue_string s
  | .arr vs => by
    rw [print]
    exact readsValue_arr (readsElements_print vs)
  | .obj ms => by
    rw [print]
    exact readsValue_obj (readsMembers_print ms)

theorem readsElements_print : ∀ vs : List Value, vs ≠ [] → ReadsElements (printElements vs) vs
  | [] => fun h => absurd rfl h
  | v :: vs => fun _ => readsElements_cons (readsValue_print v) (readsElements_print vs)

theorem readsMembers_print :
    ∀ ms : List (List Char × Value), ms ≠ [] → ReadsMembers (printMembers ms) ms
  | [] => fun h => absurd rfl h
  | (_, v) :: ms => fun _ => readsMembers_cons (readsValue_print v) (readsMembers_print ms)

end

/-- **Round trip**: a printed value is parsed to the value. -/
theorem parse_print (v : Value) : parse (print v) = some v := by
  obtain ⟨fuel, hfuel⟩ := readsValue_print v [] Stops.nil
  have hskip : skipWs (print v) = print v := by
    have h := skipWs_print v []
    rwa [List.append_nil] at h
  rw [List.append_nil] at hfuel
  rw [← parses_iff]
  refine ⟨fuel, ?_⟩
  rw [parseText, hskip, hfuel]
  rfl

/-- Values are equal if they are printed alike. -/
instance : DecidableEq Value := fun v w => decidable_of_iff (print v = print w) <| by
  constructor
  · intro h
    have hparse := congrArg parse h
    rw [parse_print, parse_print] at hparse
    exact Option.some.inj hparse
  · exact congrArg print

/-! ## Section 5: Members in any order -/

section

variable {α β : Type} [BEq α] [LawfulBEq α]

/-- Where no name is repeated, a member is found wherever it stands. -/
theorem lookup_eq_some_iff_mem {ms : List (α × β)} (hnd : (ms.map Prod.fst).Nodup) {k : α} {v : β} :
    ms.lookup k = some v ↔ (k, v) ∈ ms := by
  induction ms with
  | nil => simp
  | cons m ms ih =>
    obtain ⟨k', v'⟩ := m
    rw [List.map_cons, List.nodup_cons] at hnd
    rw [List.lookup_cons, List.mem_cons, Prod.mk.injEq]
    by_cases hk : k = k'
    · subst hk
      have hother : (k, v) ∉ ms := fun hmem => hnd.1 (List.mem_map.mpr ⟨(k, v), hmem, rfl⟩)
      simp [hother, eq_comm]
    · simp [beq_false_of_ne hk, hk, ih hnd.2]

end

end Json
