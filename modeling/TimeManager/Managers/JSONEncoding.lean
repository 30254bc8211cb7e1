import TimeManager.Managers.JSONReplies
import TimeManager.Managers.RequesterURL

/-! # The Bodies of Requests

    `JSONEncoding`: the parameters of a save travel as one JSON object.
    `JSONSerialization` writes the entries of a dictionary in no order one
    could rely on, and with white space and escapes of its own.  However it
    writes them, the parameters can be read back (`JSONEncoding.read_encode`). -/

namespace TimeManager

namespace JSONEncoding

def value : ParameterValue → Json.Value
  | .string s => .str s.toList
  | .int n => .number ⟨n, 0⟩

def member (p : String × ParameterValue) : List Char × Json.Value := (p.1.toList, value p.2)

end JSONEncoding

/-- What `JSONSerialization` makes of a dictionary: some JSON text of it. -/
structure JSONSerialization where
  text : List (String × ParameterValue) → String
  parses : ∀ parameters, ∃ ms, Json.parse (text parameters).toList = some (.obj ms) ∧
    ms.Perm (parameters.map JSONEncoding.member)

namespace JSONSerialization

/-- The entries in the order of the dictionary, without white space. -/
def compact : JSONSerialization where
  text parameters := String.ofList (Json.print (.obj (parameters.map JSONEncoding.member)))
  parses parameters := ⟨_, by rw [String.toList_ofList, Json.parse_print], .refl _⟩

instance : Inhabited JSONSerialization := ⟨compact⟩

end JSONSerialization

namespace JSONEncoding

def encode (s : JSONSerialization) (parameters : List (String × ParameterValue)) : List UInt8 :=
  (s.text parameters).toByteArray.data.toList

/-! ## Reading -/

def readValue : Json.Value → Option ParameterValue
  | .str s => some (.string (String.ofList s))
  | .number n => (JSONDecoder.integer n).map .int
  | _ => none

def readMember (m : List Char × Json.Value) : Option (String × ParameterValue) :=
  (readValue m.2).map fun v => (String.ofList m.1, v)

/-- The parameters in a body, in their order there. -/
def read (data : List UInt8) : Option (List (String × ParameterValue)) := do
  let ms ← JSONDecoder.object (← JSONDecoder.body data)
  ms.mapM readMember

theorem readMember_member (p : String × ParameterValue) : readMember (member p) = some p := by
  obtain ⟨name, v⟩ := p
  cases v with
  | string s => simp [readMember, member, value, readValue]
  | int n => simp [readMember, member, value, readValue, JSONDecoder.integer]

/-- Members in any order are read in that order. -/
theorem mapM_readMember {ms : List (List Char × Json.Value)}
    (h : ∀ m ∈ ms, (readMember m).isSome) : ms.mapM readMember = some (ms.filterMap readMember) := by
  induction ms with
  | nil => rfl
  | cons m ms ih =>
    obtain ⟨p, hp⟩ := Option.isSome_iff_exists.mp (h m List.mem_cons_self)
    rw [List.mapM_cons, ih fun m hm => h m (List.mem_cons_of_mem _ hm),
      List.filterMap_cons_some hp, hp]
    rfl

/-- **Round trip**: what is written can be read back, as the dictionary it is. -/
theorem read_encode (s : JSONSerialization) (parameters : List (String × ParameterValue)) :
    ∃ ps, read (encode s parameters) = some ps ∧ ps.Perm parameters := by
  obtain ⟨ms, hparse, hperm⟩ := s.parses parameters
  refine ⟨ms.filterMap readMember, ?_, ?_⟩
  · have hsome : ∀ m ∈ ms, (readMember m).isSome := by
      intro m hm
      obtain ⟨p, _, rfl⟩ := List.mem_map.mp (hperm.mem_iff.mp hm)
      rw [readMember_member]
      rfl
    unfold read encode
    rw [JSONDecoder.body_of_text, hparse]
    exact mapM_readMember hsome
  · have hback : (parameters.map member).filterMap readMember = parameters := by
      rw [List.filterMap_map]
      have hid : readMember ∘ member = some := funext readMember_member
      rw [hid, List.filterMap_some]
    have hread := hperm.filterMap readMember
    rw [hback] at hread
    exact hread

end JSONEncoding

/-- The body of a request as it is sent.  (The parameters of a GET request
    travel in its URL.) -/
def Request.sentBody (s : JSONSerialization) (request : Request) : Option (List UInt8) :=
  match request.parameters with
  | .none => none
  | .query _ => none
  | .json parameters => some (JSONEncoding.encode s parameters)
  | .httpBody text => some text.toByteArray.data.toList

end TimeManager
