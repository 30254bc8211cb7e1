import Mathlib.Algebra.Group.Int.Defs
import TimeManager.Framework.Json
import TimeManager.Managers.Data

/-! # Decoding Responses

    `JSONDecoder` for the three types the responses are decoded into.  The
    handlers only need the three functions (`JSONDecoder`); `JSONDecoder.standard`
    is what Foundation does with a UTF-8 body: a member that is absent or
    `null` is `nil` where the property is optional, and decoding throws
    where a value does not have the type of its property. -/

namespace TimeManager

/-- What `JSONDecoder` makes of a body, by the type that is asked for;
    `none` where it throws. -/
structure JSONDecoder where
  loginResultData : List UInt8 → Option LoginResultData
  taskList : List UInt8 → Option TaskList
  taskDetail : List UInt8 → Option TaskDetail

namespace JSONDecoder

/-! ## Section 1: Values -/

def string : Json.Value → Option String
  | .str s => some (String.ofList s)
  | _ => none

/-- The integer a number denotes, if it is one and fits. -/
def integer (n : Json.Number) : Option Int :=
  -- a fraction is an integer too if its digits are zeros
  if 0 ≤ n.exponent then some (n.mantissa * 10 ^ n.exponent.toNat)
  else if n.mantissa % 10 ^ (-n.exponent).toNat = 0 then
    some (n.mantissa / 10 ^ (-n.exponent).toNat)
  else none

def int : Json.Value → Option Int
  | .number n => (integer n).bind fun i => if -2 ^ 63 ≤ i ∧ i < 2 ^ 63 then some i else none
  | _ => none

def array {α : Type} (decode : Json.Value → Option α) : Json.Value → Option (List α)
  | .arr vs => vs.mapM decode
  | _ => none

def object : Json.Value → Option (List (List Char × Json.Value))
  | .obj ms => some ms
  | _ => none

/-- `decode`: the member has to be there. -/
def required {α : Type} (decode : Json.Value → Option α)
    (ms : List (List Char × Json.Value)) (key : String) : Option α :=
  (ms.lookup key.toList).bind decode

/-- `decodeIfPresent`: an absent member and `null` are `nil`. -/
def ifPresent {α : Type} (decode : Json.Value → Option α)
    (ms : List (List Char × Json.Value)) (key : String) : Option (Option α) :=
  match ms.lookup key.toList with
  | none => some none
  | some .null => some none
  | some v => (decode v).map some

/-! ## Section 2: The types of the responses -/

def priorityEnum (v : Json.Value) : Option PriorityEnum :=
  (string v).bind fun s => [.high, .low, .normal].find? fun p : PriorityEnum => p.rawValue = s

def taskData (v : Json.Value) : Option TaskData := do
  let ms ← object v
  some ⟨← required int ms "id", ← required string ms "title", ← required int ms "dueBy",
    ← required priorityEnum ms "priority"⟩

def «meta» (v : Json.Value) : Option Meta := do
  let ms ← object v
  some ⟨← required int ms "current", ← required int ms "limit", ← required int ms "count"⟩

def field (v : Json.Value) : Option LoginResultData.Field := do
  let ms ← object v
  some ⟨← ifPresent (array string) ms "password", ← ifPresent (array string) ms "email"⟩

def decodeLoginResultData (v : Json.Value) : Option LoginResultData := do
  let ms ← object v
  some ⟨← ifPresent string ms "token", ← ifPresent string ms "message",
    ← ifPresent field ms "fields"⟩

def decodeTaskList (v : Json.Value) : Option TaskList := do
  let ms ← object v
  some ⟨← ifPresent (array taskData) ms "tasks", ← ifPresent «meta» ms "meta",
    ← ifPresent string ms "message"⟩

def decodeTaskDetail (v : Json.Value) : Option TaskDetail := do
  let ms ← object v
  some ⟨← ifPresent taskData ms "task", ← ifPresent string ms "message"⟩

/-- The JSON value of a UTF-8 body. -/
def body (data : List UInt8) : Option Json.Value :=
  (String.fromUTF8? ⟨data.toArray⟩).bind fun text => Json.parse text.toList

def standard : JSONDecoder where
  loginResultData data := (body data).bind decodeLoginResultData
  taskList data := (body data).bind decodeTaskList
  taskDetail data := (body data).bind decodeTaskDetail

/-! ## Section 3: Bodies of two bytes -/

/-- Every character takes at least one byte. -/
theorem length_le_size_utf8Encode (cs : List Char) : cs.length ≤ cs.utf8Encode.size := by
  induction cs with
  | nil => simp
  | cons c cs ih =>
    have hpos := c.utf8Size_pos
    rw [← List.singleton_append, List.utf8Encode_append, ByteArray.size_append,
      List.utf8Encode_singleton]
    simp only [List.length_append, List.length_singleton, List.size_toByteArray,
      String.length_utf8EncodeChar]
    omega

theorem toByteArray_of_fromUTF8? {b : ByteArray} {text : String}
    (h : String.fromUTF8? b = some text) : text.toByteArray = b := by
  unfold String.fromUTF8? at h
  split at h
  · obtain rfl := Option.some.inj h
    rfl
  · cases h

/-- The only body of two bytes that decodes is the empty object. -/
theorem taskList_of_length_two {data : List UInt8} (hlen : data.length = 2)
    (h : (standard.taskList data).isSome) : data = [0x7b, 0x7d] := by
  obtain ⟨list, h⟩ := Option.isSome_iff_exists.mp h
  obtain ⟨v, hv, hlist⟩ := Option.bind_eq_some_iff.mp h
  obtain ⟨text, htext, hparse⟩ := Option.bind_eq_some_iff.mp hv
  have hbytes := toByteArray_of_fromUTF8? htext
  -- only an object is decoded as a list
  cases v with
  | obj ms =>
    have hle := length_le_size_utf8Encode text.toList
    rw [String.utf8Encode_toList, hbytes] at hle
    -- two bytes hold at most two characters
    have htwo : text.toList.length ≤ 2 := by
      refine Nat.le_trans hle ?_
      simp [ByteArray.size, hlen]
    have hchars := Json.parse_obj_of_length hparse htwo
    have htext' : text = "\x7b\x7d" := String.toList_inj.mp hchars
    subst htext'
    have hdata : data = "\x7b\x7d".toByteArray.data.toList :=
      (congrArg (fun b => b.data.toList) hbytes).symm
    rw [hdata]
    rfl
  | _ => cases hlist

end JSONDecoder

end TimeManager
