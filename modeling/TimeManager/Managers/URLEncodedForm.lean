import Mathlib
import TimeManager.Framework.Checked
import TimeManager.Framework.Percent
import TimeManager.Managers.RequesterURL

/-! # Queries on the Wire

    The parameters of a list request go into the URL, as Alamofire encodes
    them: key by key into a component, and this as percent-encoded `key=value`
    segments, sorted, between ampersands.

    A key that is an integer makes the component an array, which drops what is
    there already, is dropped by the next other key, and is no query of its
    own.  A flat dictionary of strings can be read back from its query exactly
    if it has no such key (`query_round_trip_iff`).  Those of list requests
    have none, and from what the server gets it can tell the operations apart,
    with all their arguments but the id of a new task (`received_eq_iff`). -/

namespace TimeManager

open Checked

/-! ## Section 1: The encoder -/

/-- `CharacterSet.urlQueryAllowed`. -/
def urlQueryAllowed (c : Char) : Bool :=
  c.isAlphanum || "!$&'()*+,-./:;=?@_~".toList.contains c

def generalDelimitersToEncode : String := ":#[]@"

def subDelimitersToEncode : String := "!$&'()*+,;="

def afURLQueryAllowed (c : Char) : Bool :=
  urlQueryAllowed c &&
    !(generalDelimitersToEncode.toList ++ subDelimitersToEncode.toList).contains c

/-- `Int(text)` of a text without its sign. -/
def digitsValue (digits : List Char) : Option Int :=
  if digits ≠ [] ∧ digits.all Char.isDigit then some (Nat.ofDigitChars 10 digits 0) else none

/-- The `intValue` of a dictionary's key: `Int(stringValue)`. -/
def intValue (stringValue : String) : Option Int :=
  let value := match stringValue.toList with
    | '+' :: digits => digitsValue digits
    | '-' :: digits => (digitsValue digits).map fun n => -n
    | digits => digitsValue digits
  value.filter fun n => InRange n

/-- Why a dictionary is not encoded. -/
inductive EncodingFailure where
  /-- `Error.invalidRootObject` is thrown. -/
  | invalidRootObject
  /-- An array is accessed at a negative index, and the app aborts. -/
  | indexOutOfRange
deriving DecidableEq, Repr

/-- What a flat dictionary of strings is encoded to. -/
inductive URLEncodedFormComponent where
  | array (items : List String)
  | object (pairs : List (String × String))
deriving DecidableEq, Repr

/-- `set(to:at:)`, at the path of one key. -/
def URLEncodedFormComponent.set (context : URLEncodedFormComponent) (child key : String) :
    Except EncodingFailure URLEncodedFormComponent :=
  match intValue key, context with
  | some index, .array items =>
    if items.length > index then
      if 0 ≤ index then .ok (.array (items.set index.toNat child)) else .error .indexOutOfRange
    else .ok (.array (items ++ [child]))
  | some _, .object _ => .ok (.array [child])
  | none, .object pairs =>
    match pairs.findIdx? (fun p => p.1 = key) with
    | some index => .ok (.object (pairs.set index (key, child)))
    | none => .ok (.object (pairs ++ [(key, child)]))
  | none, .array _ => .ok (.object [(key, child)])

/-- The order of `sorted()` on texts of ASCII characters. -/
def asciiLE : List Char → List Char → Bool
  | [], _ => true
  | _ :: _, [] => false
  | c :: cs, d :: ds => decide (c < d) || (decide (c = d) && asciiLE cs ds)

namespace URLEncodedFormSerializer

/-- `SpaceEncoding.percentEscaped`. -/
def spaceEncoding (cs : List Char) : List Char :=
  cs.flatMap fun c => if c = ' ' then "%20".toList else [c]

def escape (query : String) : List Char :=
  spaceEncoding (Percent.encodeString (fun c => afURLQueryAllowed c || c = ' ') query)

/-- Keys and values are escaped, so the segments are texts of ASCII characters. -/
def serialize (object : List (String × String)) : List Char :=
  Percent.join
    ((object.map fun p => escape p.1 ++ '=' :: escape p.2).insertionSort fun s t => asciiLE s t)

end URLEncodedFormSerializer

namespace URLEncodedFormEncoder

/-- The pairs of the dictionary, in the order in which it holds them, are set
    one after another. -/
def component (dictionary : List (String × String)) :
    Except EncodingFailure URLEncodedFormComponent :=
  dictionary.foldlM (fun context p => context.set p.2 p.1) (.object [])

def encode (dictionary : List (String × String)) : Except EncodingFailure (List Char) :=
  (component dictionary).bind fun
    | .object object => .ok (URLEncodedFormSerializer.serialize object)
    | .array _ => .error .invalidRootObject

end URLEncodedFormEncoder

/-- `Destination.methodDependent`. -/
def encodesParametersInURL : HTTPMethod → Bool
  | .get => true
  | .delete => true
  | .post => false
  | .put => false

/-- The URL of the request that is sent, if there is one. -/
def Request.sentURL (r : Request) : Except EncodingFailure (List Char) :=
  match r.parameters with
  | .query ps =>
    if encodesParametersInURL r.method then
      (URLEncodedFormEncoder.encode ps).map fun query =>
        if query = [] then r.url.toList else r.url.toList ++ '?' :: query
    else .ok r.url.toList
  | _ => .ok r.url.toList

/-! ## Section 2: Round trip -/

theorem safe_afURLQueryAllowed : Percent.Safe afURLQueryAllowed :=
  ⟨by decide, by decide, by decide⟩

/-- On each byte: a space is let through and then escaped. -/
theorem spaceEncoding_encodeByte : ∀ n < 256, URLEncodedFormSerializer.spaceEncoding
    (Percent.encodeByte (fun c => afURLQueryAllowed c || c = ' ') (UInt8.ofNat n)) =
      Percent.encodeByte afURLQueryAllowed (UInt8.ofNat n) := by
  decide +kernel

/-- What is escaped is as if spaces were not allowed. -/
theorem escape_eq (query : String) :
    URLEncodedFormSerializer.escape query = Percent.encodeString afURLQueryAllowed query := by
  show List.flatMap _ (List.flatMap _ _) = List.flatMap _ _
  rw [List.flatMap_assoc]
  apply List.flatMap_congr
  intro b _
  have hbyte := spaceEncoding_encodeByte b.toNat b.toNat_lt
  rw [UInt8.ofNat_toNat] at hbyte
  exact hbyte

theorem serialize_eq (object : List (String × String)) :
    URLEncodedFormSerializer.serialize object =
      Percent.join ((object.map (Percent.pair afURLQueryAllowed)).insertionSort fun s t => asciiLE s t) := by
  unfold URLEncodedFormSerializer.serialize
  simp only [escape_eq]
  rfl

/-- The pairs that are serialized can be read back. -/
theorem readQuery_serialize (object : List (String × String)) :
    (Percent.readQuery (URLEncodedFormSerializer.serialize object)).Perm object := by
  rw [serialize_eq]
  exact (Percent.readQuery_join safe_afURLQueryAllowed (List.perm_insertionSort _ _)).1

/-! ### Keys that are integers -/

/-- The component is an array, or has no key that is an integer. -/
def URLEncodedFormComponent.NoIntKeys : URLEncodedFormComponent → Prop
  | .array _ => True
  | .object pairs => ∀ p ∈ pairs, intValue p.1 = none

/-- **Step lemma**: setting a pair puts no integer among the keys. -/
theorem URLEncodedFormComponent.NoIntKeys.set {context context' : URLEncodedFormComponent}
    {child key : String} (h : context.NoIntKeys) (hset : context.set child key = .ok context') :
    context'.NoIntKeys := by
  cases hkey : intValue key with
  | some index =>
    cases context with
    | array items =>
      simp only [URLEncodedFormComponent.set, hkey] at hset
      split at hset
      · split at hset
        · obtain rfl := Except.ok.inj hset
          trivial
        · cases hset
      · obtain rfl := Except.ok.inj hset
        trivial
    | object pairs =>
      simp only [URLEncodedFormComponent.set, hkey] at hset
      obtain rfl := Except.ok.inj hset
      trivial
  | none =>
    cases context with
    | array items =>
      simp only [URLEncodedFormComponent.set, hkey] at hset
      obtain rfl := Except.ok.inj hset
      intro p hp
      rw [List.mem_singleton.mp hp]
      exact hkey
    | object pairs =>
      simp only [URLEncodedFormComponent.set, hkey] at hset
      split at hset
      · obtain rfl := Except.ok.inj hset
        intro p hp
        rcases List.mem_or_eq_of_mem_set hp with hp | rfl
        · exact h p hp
        · exact hkey
      · obtain rfl := Except.ok.inj hset
        intro p hp
        rcases List.mem_append.mp hp with hp | hp
        · exact h p hp
        · rw [List.mem_singleton.mp hp]
          exact hkey

/-- **Run lemma**: nor does encoding a dictionary. -/
theorem noIntKeys_component {dictionary : List (String × String)}
    {context : URLEncodedFormComponent}
    (h : URLEncodedFormEncoder.component dictionary = .ok context) : context.NoIntKeys := by
  have hrun : ∀ (ps : List (String × String)) (start : URLEncodedFormComponent), start.NoIntKeys →
      ps.foldlM (fun context p => context.set p.2 p.1) start = .ok context → context.NoIntKeys := by
    intro ps
    induction ps with
    | nil =>
      intro start hstart hps
      obtain rfl := Except.ok.inj hps
      exact hstart
    | cons p ps ih =>
      intro start hstart hps
      rw [List.foldlM_cons] at hps
      obtain ⟨next, hnext, hps⟩ := bind_eq_ok.mp hps
      exact ih next (hstart.set hnext) hps
  exact hrun dictionary (.object []) (fun p hp => by cases hp) h

/-- A pair with a new key that is no integer comes after the others. -/
theorem set_of_new {object : List (String × String)} {p : String × String}
    (hkey : intValue p.1 = none) (hnew : p.1 ∉ object.map Prod.fst) :
    (URLEncodedFormComponent.object object).set p.2 p.1 = .ok (.object (object ++ [p])) := by
  have hfind : object.findIdx? (fun q => q.1 = p.1) = none := by
    rw [List.findIdx?_eq_none_iff]
    intro q hq
    apply decide_eq_false
    intro heq
    exact hnew (heq ▸ List.mem_map_of_mem hq)
  simp only [URLEncodedFormComponent.set, hkey, hfind]

/-- Without keys that are integers the component is the dictionary. -/
theorem component_eq {dictionary : List (String × String)}
    (hnodup : (dictionary.map Prod.fst).Nodup) (hkeys : ∀ p ∈ dictionary, intValue p.1 = none) :
    URLEncodedFormEncoder.component dictionary = .ok (.object dictionary) := by
  have hrun : ∀ ps object : List (String × String), ((object ++ ps).map Prod.fst).Nodup →
      (∀ p ∈ ps, intValue p.1 = none) →
      ps.foldlM (fun context p => context.set p.2 p.1) (URLEncodedFormComponent.object object) =
        .ok (.object (object ++ ps)) := by
    intro ps
    induction ps with
    | nil =>
      intro object _ _
      rw [List.append_nil]
      rfl
    | cons p ps ih =>
      intro object hnodup hkeys
      have hnew : p.1 ∉ object.map Prod.fst := by
        rw [List.map_append, List.map_cons] at hnodup
        intro hmem
        exact List.disjoint_of_nodup_append hnodup hmem List.mem_cons_self
      have hsplit : object ++ p :: ps = object ++ [p] ++ ps := by simp
      rw [hsplit] at hnodup ⊢
      rw [List.foldlM_cons, set_of_new (hkeys p List.mem_cons_self) hnew]
      exact ih _ hnodup fun q hq => hkeys q (List.mem_cons_of_mem p hq)
  exact hrun dictionary [] hnodup hkeys

/-- What is encoded without keys that are integers. -/
theorem encode_eq {dictionary : List (String × String)}
    (hnodup : (dictionary.map Prod.fst).Nodup) (hkeys : ∀ p ∈ dictionary, intValue p.1 = none) :
    URLEncodedFormEncoder.encode dictionary =
      .ok (URLEncodedFormSerializer.serialize dictionary) := by
  unfold URLEncodedFormEncoder.encode
  rw [component_eq hnodup hkeys]
  rfl

/-- **Round trip.**  The pairs of a dictionary of strings can be read back from
    the query that it is encoded to exactly if no key is an integer: such a
    key is never in the query, or no query comes about. -/
theorem query_round_trip_iff {dictionary : List (String × String)}
    (hnodup : (dictionary.map Prod.fst).Nodup) :
    (∃ query, URLEncodedFormEncoder.encode dictionary = .ok query ∧
      (Percent.readQuery query).Perm dictionary) ↔ ∀ p ∈ dictionary, intValue p.1 = none := by
  constructor
  · rintro ⟨query, hencode, hperm⟩
    obtain ⟨context, hcomponent, hquery⟩ := bind_eq_ok.mp hencode
    cases context with
    | array array => cases hquery
    | object object =>
      obtain rfl := Except.ok.inj hquery
      -- the pairs of the object are those of the dictionary
      have hsame := (readQuery_serialize object).symm.trans hperm
      intro p hp
      exact noIntKeys_component hcomponent p (hsame.mem_iff.mpr hp)
  · intro hkeys
    exact ⟨_, encode_eq hnodup hkeys, readQuery_serialize dictionary⟩

/-- A key that is an integer takes the pair before it out of the query. -/
theorem query_round_trip_iff_loses :
    URLEncodedFormEncoder.encode [("sort", "a"), ("0", "b"), ("page", "2")] = .ok "page=2".toList ∧
      URLEncodedFormEncoder.encode [("0", "b")] = .error .invalidRootObject ∧
      ∃ query, URLEncodedFormEncoder.encode [("page", "2"), ("a b", "c&d")] = .ok query ∧
        (Percent.readQuery query).Perm [("page", "2"), ("a b", "c&d")] :=
  ⟨by decide +kernel, by decide +kernel,
    (query_round_trip_iff (by decide)).mpr (by decide +kernel)⟩

/-! ## Section 3: List requests -/

/-- The segments of a list request are in their order. -/
theorem segments_sorted (page sort : String) :
    ([("page", page), ("sort", sort)].map (Percent.pair afURLQueryAllowed)).insertionSort
        (fun s t => asciiLE s t) =
      [("page", page), ("sort", sort)].map (Percent.pair afURLQueryAllowed) := by
  have hlt : asciiLE (Percent.pair afURLQueryAllowed ("page", page))
      (Percent.pair afURLQueryAllowed ("sort", sort)) := by
    have hpage : Percent.encodeString afURLQueryAllowed "page" = "page".toList := by decide +kernel
    have hsort : Percent.encodeString afURLQueryAllowed "sort" = "sort".toList := by decide +kernel
    unfold Percent.pair
    rw [hpage, hsort]
    rfl
  simp only [List.map_cons, List.map_nil, List.insertionSort_cons, List.insertionSort_nil,
    List.orderedInsert_nil, List.orderedInsert_cons_of_le (fun s t : List Char => asciiLE s t = true) _ hlt]

theorem readQuery_list (page sort : String) :
    Percent.readQuery (URLEncodedFormSerializer.serialize [("page", page), ("sort", sort)]) =
      [("page", page), ("sort", sort)] := by
  rw [serialize_eq, segments_sorted]
  exact (Percent.readQuery_join safe_afURLQueryAllowed (.refl _)).2 rfl

/-- The query of a list request. -/
theorem encode_list (page sort : String) :
    URLEncodedFormEncoder.encode [("page", page), ("sort", sort)] =
      .ok (URLEncodedFormSerializer.serialize [("page", page), ("sort", sort)]) := by
  have hpage : intValue "page" = none := by decide +kernel
  have hsort : intValue "sort" = none := by decide +kernel
  have hne : "page" ≠ "sort" := by decide
  exact encode_eq (by simp [hne]) (by simp [hpage, hsort])

/-! ## Section 4: What the server gets -/

/-- The path of a URL, and its query. -/
def readURL (url : List Char) : List Char × List (String × String) :=
  (url.takeWhile (· ≠ '?'), Percent.readQuery ((url.dropWhile (· ≠ '?')).drop 1))

/-- A request as the server gets it, less its headers. -/
structure Received where
  method : HTTPMethod
  path : List Char
  query : List (String × String)
  body : Parameters
deriving DecidableEq

/-- What the server gets of a request, if it is sent. -/
def Request.received (r : Request) : Except EncodingFailure Received :=
  r.sentURL.map fun url =>
    { method := r.method
      path := (readURL url).1
      query := (readURL url).2
      body := match r.parameters with
        | .query _ => .none
        | ps => ps }

/-- The operations that the server cannot tell apart. -/
def Operation.SameAs : Operation → Operation → Prop
  | .loginUser user, .loginUser user' =>
    user.doRegister = user'.doRegister ∧ RequesterURL.loginBody user = RequesterURL.loginBody user'
  | .getTaskList request, .getTaskList request' => request = request'
  | .deleteTask id, .deleteTask id' => id = id'
  | .updateTask task, .updateTask task' => task = task'
  | .createTask task, .createTask task' =>
    task.title = task'.title ∧ task.dueBy = task'.dueBy ∧ task.priority = task'.priority
  | _, _ => False

theorem readURL_of_not_mem {path : List Char} (h : '?' ∉ path) : readURL path = (path, []) := by
  have hall : ∀ c ∈ path, decide (c ≠ '?') = true := by
    intro c hc
    exact decide_eq_true fun heq => h (heq ▸ hc)
  unfold readURL
  rw [List.takeWhile_eq_self_iff.mpr hall, List.dropWhile_eq_nil_iff.mpr hall]
  rfl

theorem readURL_append {path : List Char} (h : '?' ∉ path) (query : List Char) :
    readURL (path ++ '?' :: query) = (path, Percent.readQuery query) := by
  have hall : ∀ c ∈ path, decide (c ≠ '?') = true := by
    intro c hc
    exact decide_eq_true fun heq => h (heq ▸ hc)
  unfold readURL
  rw [List.takeWhile_append_of_pos hall, List.dropWhile_append_of_pos hall]
  simp

theorem received_of_not_query {r : Request} (hurl : '?' ∉ r.url.toList)
    (hparameters : ∀ ps, r.parameters ≠ .query ps) :
    r.received = .ok ⟨r.method, r.url.toList, [], r.parameters⟩ := by
  obtain ⟨method, url, headers, parameters⟩ := r
  cases parameters with
  | query ps => exact absurd rfl (hparameters ps)
  | _ =>
    unfold Request.received Request.sentURL
    simp only [Except.map, readURL_of_not_mem hurl]

/-- An id is written without a question mark. -/
theorem not_mem_repr (id : Int) : '?' ∉ (toString id).toList := by
  have hnat : ∀ n : Nat, '?' ∉ n.repr.toList := by
    intro n hmem
    rw [Nat.toList_repr] at hmem
    have hdigit := Nat.isDigit_of_mem_toDigits (by decide) (by decide) hmem
    exact absurd hdigit (by decide)
  rw [Int.toString_eq_repr, Int.repr_eq_if]
  split
  · exact hnat _
  · rw [String.toList_append, List.mem_append]
    rintro (h | h)
    · exact absurd h (by decide)
    · exact hnat _ h

theorem not_mem_taskURL (id : Int) :
    '?' ∉ (RequesterURL.mainURL ++ "/tasks/" ++ toString id).toList := by
  have hmain : '?' ∉ (RequesterURL.mainURL ++ "/tasks/").toList := by decide
  rw [String.toList_append, List.mem_append]
  rintro (h | h)
  · exact hmain h
  · exact not_mem_repr id h

theorem taskURL_injective {id id' : Int}
    (h : (RequesterURL.mainURL ++ "/tasks/" ++ toString id).toList =
      (RequesterURL.mainURL ++ "/tasks/" ++ toString id').toList) : id = id' := by
  rw [@String.toList_append _ (toString id), @String.toList_append _ (toString id'),
    List.append_cancel_left_eq, String.toList_inj] at h
  exact Int.repr_injective h

theorem sortParameter_injective {sorting sorting' : SortingTypesEnum} {direction direction' : Bool}
    (h : RequesterURL.sortParameter sorting direction = RequesterURL.sortParameter sorting' direction') :
    sorting = sorting' ∧ direction = direction' := by
  cases sorting <;> cases sorting' <;> cases direction <;> cases direction' <;>
    first | exact ⟨rfl, rfl⟩ | exact absurd h (by decide)

/-- A list request as the server gets it. -/
theorem received_getTaskList (userToken : Option String) (request : ListRequest) :
    (RequesterURL.getTaskList userToken request).received =
      .ok ⟨.get, (RequesterURL.mainURL ++ "/tasks").toList, [("page", toString request.page),
        ("sort", RequesterURL.sortParameter request.sorting request.direction)], .none⟩ := by
  have hurl : '?' ∉ (RequesterURL.mainURL ++ "/tasks").toList := by decide
  have hne : URLEncodedFormSerializer.serialize [("page", toString request.page),
      ("sort", RequesterURL.sortParameter request.sorting request.direction)] ≠ [] := by
    intro hnil
    have hread := readQuery_list (toString request.page)
      (RequesterURL.sortParameter request.sorting request.direction)
    rw [hnil] at hread
    cases hread
  unfold Request.received Request.sentURL RequesterURL.getTaskList
  simp only [encodesParametersInURL, if_true, encode_list, Except.map, if_neg hne,
    readURL_append hurl, readQuery_list]

/-- The other requests as the server gets them. -/
theorem received_loginUser (user : LoginData) :
    (RequesterURL.loginUser user).received =
      .ok ⟨.post, (RequesterURL.loginUser user).url.toList, [], .httpBody (RequesterURL.loginBody user)⟩ := by
  apply received_of_not_query
  · show '?' ∉ (RequesterURL.mainURL ++ (if user.doRegister then "/users" else "/auth")).toList
    cases user.doRegister <;> decide
  · intro ps h
    cases h

theorem received_deleteTask (userToken : Option String) (id : Int) :
    (RequesterURL.deleteTask userToken id).received =
      .ok ⟨.delete, (RequesterURL.mainURL ++ "/tasks/" ++ toString id).toList, [], .none⟩ :=
  received_of_not_query (not_mem_taskURL id) (by intro ps h; cases h)

theorem received_updateTask (userToken : Option String) (task : TaskData) :
    (RequesterURL.updateTask userToken task).received =
      .ok ⟨.put, (RequesterURL.mainURL ++ "/tasks/" ++ toString task.id).toList, [],
        RequesterURL.taskParameters task⟩ :=
  received_of_not_query (not_mem_taskURL task.id) (by intro ps h; cases h)

theorem received_createTask (userToken : Option String) (task : TaskData) :
    (RequesterURL.createTask userToken task).received =
      .ok ⟨.post, (RequesterURL.mainURL ++ "/tasks").toList, [], RequesterURL.taskParameters task⟩ := by
  apply received_of_not_query
  · show '?' ∉ (RequesterURL.mainURL ++ "/tasks").toList
    decide
  · intro ps h
    cases h

theorem taskParameters_eq_iff {task task' : TaskData} :
    RequesterURL.taskParameters task = RequesterURL.taskParameters task' ↔
      task.title = task'.title ∧ task.dueBy = task'.dueBy ∧ task.priority = task'.priority := by
  have hpriority : ∀ p p' : PriorityEnum, p.rawValue = p'.rawValue ↔ p = p' := by
    intro p p'
    cases p <;> cases p' <;> decide
  unfold RequesterURL.taskParameters
  simp [hpriority]

theorem loginURL_eq_iff {user user' : LoginData} :
    (RequesterURL.loginUser user).url.toList = (RequesterURL.loginUser user').url.toList ↔
      user.doRegister = user'.doRegister := by
  show (RequesterURL.mainURL ++ (if user.doRegister then "/users" else "/auth")).toList =
    (RequesterURL.mainURL ++ (if user'.doRegister then "/users" else "/auth")).toList ↔ _
  cases user.doRegister <;> cases user'.doRegister <;> decide

/-- A login does not go where tasks are created. -/
theorem loginURL_ne (user : LoginData) :
    (RequesterURL.loginUser user).url.toList ≠ (RequesterURL.mainURL ++ "/tasks").toList := by
  show (RequesterURL.mainURL ++ (if user.doRegister then "/users" else "/auth")).toList ≠ _
  cases user.doRegister <;> decide

/-- Every operation is sent. -/
theorem exists_received (op : Operation) (userToken : Option String) :
    ∃ r, (op.request userToken).received = .ok r ∧ r.method = (op.request userToken).method := by
  cases op with
  | loginUser user => exact ⟨_, received_loginUser user, rfl⟩
  | getTaskList request => exact ⟨_, received_getTaskList userToken request, rfl⟩
  | deleteTask id => exact ⟨_, received_deleteTask userToken id, rfl⟩
  | updateTask task => exact ⟨_, received_updateTask userToken task, rfl⟩
  | createTask task => exact ⟨_, received_createTask userToken task, rfl⟩

/-- Requests of different methods are received differently. -/
theorem received_ne {op op' : Operation} {userToken userToken' : Option String}
    (h : (op.request userToken).method ≠ (op'.request userToken').method) :
    (op.request userToken).received ≠ (op'.request userToken').received := by
  obtain ⟨r, hr, hmethod⟩ := exists_received op userToken
  obtain ⟨r', hr', hmethod'⟩ := exists_received op' userToken'
  rw [hr, hr']
  intro heq
  obtain rfl := Except.ok.inj heq
  exact h (hmethod.symm.trans hmethod')

/-- **What the server can tell.**  Every operation is sent, and two operations
    are received alike, whatever tokens are stored, exactly if they are the
    same one: the server can tell their kind, and all their arguments but the
    id of a task to create and how the text of a login body came about. -/
theorem received_eq_iff (op op' : Operation) (userToken userToken' : Option String) :
    (∃ r, (op.request userToken).received = .ok r) ∧
    ((op.request userToken).received = (op'.request userToken').received ↔ op.SameAs op') := by
  refine ⟨(exists_received op userToken).imp fun _ h => h.1, ?_⟩
  have hint : ∀ i j : Int, toString i = toString j ↔ i = j :=
    fun i j => ⟨fun h => Int.repr_injective h, fun h => h ▸ rfl⟩
  have hmethod : (op.request userToken).method ≠ (op'.request userToken').method →
      ¬ op.SameAs op' → ((op.request userToken).received = (op'.request userToken').received ↔
        op.SameAs op') := fun hne hno => iff_of_false (received_ne hne) hno
  cases op with
  | loginUser user =>
    cases op' with
    | loginUser user' =>
      show (RequesterURL.loginUser user).received = (RequesterURL.loginUser user').received ↔ _
      rw [received_loginUser, received_loginUser]
      simp [loginURL_eq_iff, Operation.SameAs]
    | createTask task' =>
      show (RequesterURL.loginUser user).received = (RequesterURL.createTask _ task').received ↔ False
      rw [received_loginUser, received_createTask, Except.ok.injEq]
      exact iff_of_false (fun h => loginURL_ne user (congrArg Received.path h)) id
    | _ => exact hmethod (by intro h; cases h) id
  | getTaskList request =>
    cases op' with
    | getTaskList request' =>
      show (RequesterURL.getTaskList _ request).received =
        (RequesterURL.getTaskList _ request').received ↔ request = request'
      rw [received_getTaskList, received_getTaskList, Except.ok.injEq]
      constructor
      · intro h
        simp only [Received.mk.injEq, List.cons.injEq, Prod.mk.injEq, true_and, and_true, hint] at h
        obtain ⟨page, sorting, direction⟩ := request
        obtain ⟨page', sorting', direction'⟩ := request'
        obtain ⟨rfl, rfl⟩ := sortParameter_injective h.2
        obtain rfl : page = page' := h.1
        rfl
      · rintro rfl
        rfl
    | _ => exact hmethod (by intro h; cases h) id
  | deleteTask taskID =>
    cases op' with
    | deleteTask taskID' =>
      show (RequesterURL.deleteTask _ taskID).received =
        (RequesterURL.deleteTask _ taskID').received ↔ taskID = taskID'
      rw [received_deleteTask, received_deleteTask, Except.ok.injEq]
      exact ⟨fun h => taskURL_injective (congrArg Received.path h), fun h => h ▸ rfl⟩
    | _ => exact hmethod (by intro h; cases h) id
  | updateTask task =>
    cases op' with
    | updateTask task' =>
      show (RequesterURL.updateTask _ task).received =
        (RequesterURL.updateTask _ task').received ↔ task = task'
      rw [received_updateTask, received_updateTask, Except.ok.injEq]
      constructor
      · intro h
        have hid := taskURL_injective (congrArg Received.path h)
        obtain ⟨htitle, hdueBy, hpriority⟩ := taskParameters_eq_iff.mp (congrArg Received.body h)
        obtain ⟨id, title, dueBy, priority⟩ := task
        obtain ⟨id', title', dueBy', priority'⟩ := task'
        subst hid htitle hdueBy hpriority
        rfl
      · rintro rfl
        rfl
    | _ => exact hmethod (by intro h; cases h) id
  | createTask task =>
    cases op' with
    | loginUser user' =>
      show (RequesterURL.createTask _ task).received = (RequesterURL.loginUser user').received ↔ False
      rw [received_loginUser, received_createTask, Except.ok.injEq]
      exact iff_of_false (fun h => loginURL_ne user' (congrArg Received.path h).symm) id
    | createTask task' =>
      show (RequesterURL.createTask _ task).received = (RequesterURL.createTask _ task').received ↔ _
      rw [received_createTask, received_createTask, Except.ok.injEq, Received.mk.injEq]
      simp only [true_and]
      exact taskParameters_eq_iff
    | _ => exact hmethod (by intro h; cases h) id

end TimeManager
