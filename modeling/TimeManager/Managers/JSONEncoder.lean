import TimeManager.Managers.JSONReplies

/-! # Encoding Replies

    The types of the replies are `Codable`, so they are encoded as well as
    decoded: an object with a member for each property, less the properties
    that are `nil`.  `JSONEncoder` promises no order of the members, so an
    encoder here comes with an order of its own, any it likes.

    This is one way to write a reply among those that `responses_round_trip`
    is about, the one that a server has which is built on these types.  What
    is encoded means what was encoded (`meansTaskList_encode`), so it is
    decoded to itself. -/

namespace TimeManager

/-- An encoder is the order in which it writes the members of an object. -/
structure JSONEncoder where
  order : List (List Char × Json.Value) → List (List Char × Json.Value)
  perm : ∀ ms, (order ms).Perm ms

namespace JSONEncoder

/-- The order in which the properties are declared. -/
def declared : JSONEncoder := ⟨id, fun _ => .refl _⟩

/-! ## Section 1: Values -/

def string (s : String) : Json.Value := .str s.toList

def int (i : Int) : Json.Value := .number ⟨i, 0⟩

def array {α : Type} (encode : α → Json.Value) (as : List α) : Json.Value :=
  .arr (as.map encode)

/-- `encode`: the member is there. -/
def required {α : Type} (encode : α → Json.Value) (key : String) (a : α) :
    List (List Char × Json.Value) :=
  [(key.toList, encode a)]

/-- `encodeIfPresent`: `nil` has no member. -/
def ifPresent {α : Type} (encode : α → Json.Value) (key : String) (a : Option α) :
    List (List Char × Json.Value) :=
  a.toList.map fun a => (key.toList, encode a)

def priorityEnum (priority : PriorityEnum) : Json.Value := string priority.rawValue

section

variable (e : JSONEncoder)

def object (ms : List (List Char × Json.Value)) : Json.Value := .obj (e.order ms)

/-! ## Section 2: The types of the responses -/

def taskData (task : TaskData) : Json.Value :=
  e.object (required int "id" task.id ++ (required string "title" task.title ++
    (required int "dueBy" task.dueBy ++ required priorityEnum "priority" task.priority)))

def «meta» (mt : Meta) : Json.Value :=
  e.object (required int "current" mt.current ++ (required int "limit" mt.limit ++
    required int "count" mt.count))

def field (fields : LoginResultData.Field) : Json.Value :=
  e.object (ifPresent (array string) "password" fields.password ++
    ifPresent (array string) "email" fields.email)

def encodeLoginResultData (result : LoginResultData) : Json.Value :=
  e.object (ifPresent string "token" result.token ++ (ifPresent string "message" result.message ++
    ifPresent e.field "fields" result.fields))

def encodeTaskList (list : TaskList) : Json.Value :=
  e.object (ifPresent (array e.taskData) "tasks" list.tasks ++
    (ifPresent e.meta "meta" list.meta ++ ifPresent string "message" list.message))

end

/-- The UTF-8 body of a JSON value. -/
def body (v : Json.Value) : List UInt8 := (String.ofList (Json.print v)).toByteArray.data.toList

def loginResultData (e : JSONEncoder) (result : LoginResultData) : List UInt8 :=
  body (e.encodeLoginResultData result)

def taskList (e : JSONEncoder) (list : TaskList) : List UInt8 := body (e.encodeTaskList list)

end JSONEncoder

namespace JSONEncoder

/-! ## Section 3: What is encoded -/

section

variable {α : Type} {means : Json.Value → α → Prop} {encode : α → Json.Value}
  {ms : List (List Char × Json.Value)} {key : String}

theorem meansArray_encode (h : ∀ a, means (encode a) a) (as : List α) :
    MeansArray means (array encode as) as := by
  refine ⟨_, rfl, ?_⟩
  rw [List.forall₂_map_left_iff, List.forall₂_same]
  exact fun a _ => h a

/-- An encoder writes the members in its order. -/
theorem meansObject_encode (e : JSONEncoder) {members : List (List Char × Json.Value) → Prop}
    (hnd : (ms.map Prod.fst).Nodup) (h : members (e.order ms)) : MeansObject members (e.object ms) :=
  ⟨_, rfl, ((e.perm ms).map Prod.fst).nodup_iff.mpr hnd, h⟩

/-- A member that is written has the value, in whatever order. -/
theorem hasMember_order (e : JSONEncoder) {v : Json.Value} {a : α} (h : means v a)
    (hmem : (key.toList, v) ∈ ms) : HasMember means (e.order ms) key a :=
  ⟨_, (e.perm ms).mem_iff.mpr hmem, h⟩

/-- A property that is `nil` is not written. -/
theorem mayHaveMember_order (e : JSONEncoder) {a : Option α} (h : ∀ x, means (encode x) x)
    (hmem : ∀ v, (key.toList, v) ∈ ms ↔ ∃ x ∈ a, v = encode x) :
    MayHaveMember means (e.order ms) key a := by
  cases a with
  | none =>
    intro v hv
    obtain ⟨x, hx, -⟩ := (hmem v).mp ((e.perm ms).mem_iff.mp hv)
    cases hx
  | some x => exact hasMember_order e (h x) ((hmem _).mpr ⟨x, rfl, rfl⟩)

theorem keys_ifPresent (a : Option α) :
    ((ifPresent encode key a).map Prod.fst).Sublist [key.toList] := by
  cases a with
  | none => exact List.nil_sublist _
  | some a => exact List.Sublist.refl _

theorem mem_ifPresent {a : Option α} {name : List Char} {v : Json.Value} :
    (name, v) ∈ ifPresent encode key a ↔ name = key.toList ∧ ∃ x ∈ a, v = encode x := by
  unfold ifPresent
  cases a <;> simp

end

theorem meansString_encode (s : String) : MeansString (string s) s := rfl

theorem meansInt_encode (i : Int) : MeansInt (int i) i := rfl

theorem meansPriority_encode (priority : PriorityEnum) :
    MeansPriority (priorityEnum priority) priority := rfl

theorem meansTaskData_encode (e : JSONEncoder) (task : TaskData) :
    MeansTaskData (e.taskData task) task := by
  have hkeys : ["id".toList, "title".toList, "dueBy".toList, "priority".toList].Nodup := by decide
  refine meansObject_encode e hkeys ⟨?_, ?_, ?_, ?_⟩
  · exact hasMember_order e (meansInt_encode task.id) (by simp [required])
  · exact hasMember_order e (meansString_encode task.title) (by simp [required])
  · exact hasMember_order e (meansInt_encode task.dueBy) (by simp [required])
  · exact hasMember_order e (meansPriority_encode task.priority) (by simp [required])

theorem meansMeta_encode (e : JSONEncoder) (mt : Meta) : MeansMeta (e.meta mt) mt := by
  have hkeys : ["current".toList, "limit".toList, "count".toList].Nodup := by decide
  refine meansObject_encode e hkeys ⟨?_, ?_, ?_⟩
  · exact hasMember_order e (meansInt_encode mt.current) (by simp [required])
  · exact hasMember_order e (meansInt_encode mt.limit) (by simp [required])
  · exact hasMember_order e (meansInt_encode mt.count) (by simp [required])

theorem meansField_encode (e : JSONEncoder) (fields : LoginResultData.Field) :
    MeansField (e.field fields) fields := by
  refine meansObject_encode e ?_ ⟨?_, ?_⟩
  · rw [List.map_append]
    exact ((keys_ifPresent _).append (keys_ifPresent _)).nodup (by decide)
  · exact mayHaveMember_order e (meansArray_encode meansString_encode) (by simp [mem_ifPresent])
  · exact mayHaveMember_order e (meansArray_encode meansString_encode) (by simp [mem_ifPresent])

theorem meansLoginResultData_encode (e : JSONEncoder) (result : LoginResultData) :
    MeansLoginResultData (e.encodeLoginResultData result) result := by
  refine meansObject_encode e ?_ ⟨?_, ?_, ?_⟩
  · rw [List.map_append, List.map_append]
    exact ((keys_ifPresent _).append
      ((keys_ifPresent _).append (keys_ifPresent _))).nodup (by decide)
  · exact mayHaveMember_order e meansString_encode (by simp [mem_ifPresent])
  · exact mayHaveMember_order e meansString_encode (by simp [mem_ifPresent])
  · exact mayHaveMember_order e (meansField_encode e) (by simp [mem_ifPresent])

theorem meansTaskList_encode (e : JSONEncoder) (list : TaskList) :
    MeansTaskList (e.encodeTaskList list) list := by
  refine meansObject_encode e ?_ ⟨?_, ?_, ?_⟩
  · rw [List.map_append, List.map_append]
    exact ((keys_ifPresent _).append
      ((keys_ifPresent _).append (keys_ifPresent _))).nodup (by decide)
  · exact mayHaveMember_order e (meansArray_encode (meansTaskData_encode e))
      (by simp [mem_ifPresent])
  · exact mayHaveMember_order e (meansMeta_encode e) (by simp [mem_ifPresent])
  · exact mayHaveMember_order e meansString_encode (by simp [mem_ifPresent])

/-- The body of a JSON value is read back. -/
theorem body_body (v : Json.Value) : JSONDecoder.body (body v) = some v := by
  rw [body, JSONDecoder.body_of_text, String.toList_ofList, Json.parse_print]

/-- A login response that is encoded is read. -/
theorem decode_loginResultData (e : JSONEncoder) (result : LoginResultData) :
    JSONDecoder.standard.loginResultData (e.loginResultData result) = some result := by
  show (JSONDecoder.body (body _)).bind _ = _
  rw [body_body, Option.bind_some]
  exact (JSONDecoder.reads_loginResultData.exactly (meansLoginResultData_encode e result)).of_fits
    trivial

/-- A list that is encoded is read, or throws where it does not fit. -/
theorem decode_taskList (e : JSONEncoder) (list : TaskList) :
    JSONDecoder.standard.taskList (e.taskList list) =
      if FitInt list.ints then some list else none := by
  show (JSONDecoder.body (body _)).bind _ = _
  rw [body_body, Option.bind_some]
  exact (JSONDecoder.reads_taskList.exactly (meansTaskList_encode e list)).eq_ite

end JSONEncoder

end TimeManager
