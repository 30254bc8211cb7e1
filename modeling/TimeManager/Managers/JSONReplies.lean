import TimeManager.Framework.Checked
import TimeManager.Framework.JsonPrint
import TimeManager.Managers.JSONDecoder

/-! # What Bodies Mean

    A JSON value means a reply if it is an object with a member for each
    property, among any others and in any order.  A property that is `nil` has
    no member, or `null`.

    Whatever text a body is, with any white space and escapes, it is decoded to
    the reply that it means, provided that its integers fit in an `Int`
    (`responses_round_trip`). -/

namespace TimeManager

/-! ## Section 1: The integers of a reply -/

def TaskData.ints (task : TaskData) : List Int := [task.id, task.dueBy]

def Meta.ints (mt : Meta) : List Int := [mt.current, mt.limit, mt.count]

def TaskList.ints (list : TaskList) : List Int :=
  (list.tasks.getD []).flatMap TaskData.ints ++ list.meta.toList.flatMap Meta.ints

def TaskDetail.ints (detail : TaskDetail) : List Int := detail.task.toList.flatMap TaskData.ints

/-- All of these are values of the type `Int` of the source. -/
def FitInt (is : List Int) : Prop := ∀ i ∈ is, Checked.InRange i

instance (is : List Int) : Decidable (FitInt is) := by
  unfold FitInt; infer_instance

theorem fitInt_append {is js : List Int} : FitInt (is ++ js) ↔ FitInt is ∧ FitInt js :=
  List.forall_mem_append

theorem fitInt_flatMap {α : Type} {ints : α → List Int} {as : List α} :
    FitInt (as.flatMap ints) ↔ ∀ a ∈ as, FitInt (ints a) := by
  constructor
  · intro h a ha i hi
    exact h i (List.mem_flatMap.mpr ⟨a, ha, hi⟩)
  · intro h i hi
    obtain ⟨a, ha, hi⟩ := List.mem_flatMap.mp hi
    exact h a ha i hi

theorem TaskList.fitInt_iff {list : TaskList} : FitInt list.ints ↔
    (∀ tasks ∈ list.tasks, ∀ task ∈ tasks, FitInt task.ints) ∧
      ∀ mt ∈ list.meta, FitInt mt.ints := by
  rw [TaskList.ints, fitInt_append, fitInt_flatMap, fitInt_flatMap]
  cases list.tasks <;> simp

theorem TaskDetail.fitInt_iff {detail : TaskDetail} : FitInt detail.ints ↔
    ∀ task ∈ detail.task, FitInt task.ints := by
  rw [TaskDetail.ints, fitInt_flatMap]
  simp

/-! ## Section 2: What a JSON value means -/

def MeansString (v : Json.Value) (s : String) : Prop := v = .str s.toList

/-- An integer is written without a fraction. -/
def MeansInt (v : Json.Value) (i : Int) : Prop := v = .number ⟨i, 0⟩

def MeansPriority (v : Json.Value) (priority : PriorityEnum) : Prop :=
  MeansString v priority.rawValue

section

variable {α : Type} (means : Json.Value → α → Prop)

def MeansArray (v : Json.Value) (as : List α) : Prop := ∃ vs, v = .arr vs ∧ List.Forall₂ means vs as

/-- Objects do not name a member twice. -/
def MeansObject (members : List (List Char × Json.Value) → Prop) (v : Json.Value) : Prop :=
  ∃ ms, v = .obj ms ∧ (ms.map Prod.fst).Nodup ∧ members ms

def HasMember (ms : List (List Char × Json.Value)) (key : String) (a : α) : Prop :=
  ∃ v, (key.toList, v) ∈ ms ∧ means v a

/-- A member that is absent or `null` means `nil`. -/
def MayHaveMember (ms : List (List Char × Json.Value)) (key : String) : Option α → Prop
  | none => ∀ v, (key.toList, v) ∈ ms → v = .null
  | some a => HasMember means ms key a

end

def MeansTaskData (v : Json.Value) (task : TaskData) : Prop :=
  MeansObject (fun ms => HasMember MeansInt ms "id" task.id ∧
    HasMember MeansString ms "title" task.title ∧ HasMember MeansInt ms "dueBy" task.dueBy ∧
    HasMember MeansPriority ms "priority" task.priority) v

def MeansMeta (v : Json.Value) (mt : Meta) : Prop :=
  MeansObject (fun ms => HasMember MeansInt ms "current" mt.current ∧
    HasMember MeansInt ms "limit" mt.limit ∧ HasMember MeansInt ms "count" mt.count) v

def MeansField (v : Json.Value) (fields : LoginResultData.Field) : Prop :=
  MeansObject (fun ms => MayHaveMember (MeansArray MeansString) ms "password" fields.password ∧
    MayHaveMember (MeansArray MeansString) ms "email" fields.email) v

def MeansLoginResultData (v : Json.Value) (result : LoginResultData) : Prop :=
  MeansObject (fun ms => MayHaveMember MeansString ms "token" result.token ∧
    MayHaveMember MeansString ms "message" result.message ∧
    MayHaveMember MeansField ms "fields" result.fields) v

def MeansTaskList (v : Json.Value) (list : TaskList) : Prop :=
  MeansObject (fun ms => MayHaveMember (MeansArray MeansTaskData) ms "tasks" list.tasks ∧
    MayHaveMember MeansMeta ms "meta" list.meta ∧
    MayHaveMember MeansString ms "message" list.message) v

def MeansTaskDetail (v : Json.Value) (detail : TaskDetail) : Prop :=
  MeansObject (fun ms => MayHaveMember MeansTaskData ms "task" detail.task ∧
    MayHaveMember MeansString ms "message" detail.message) v

namespace JSONDecoder

/-! ## Section 3: Reading values -/

/-- The result is `a`, or nothing where `a` does not fit. -/
structure Exactly {α : Type} (result : Option α) (a : α) (fits : Prop) : Prop where
  of_fits : fits → result = some a
  of_not_fits : ¬ fits → result = none

theorem Exactly.pure {α : Type} (a : α) : Exactly (some a) a True :=
  ⟨fun _ => rfl, fun h => absurd trivial h⟩

theorem Exactly.congr {α : Type} {result : Option α} {a : α} {p q : Prop}
    (h : Exactly result a p) (hpq : p ↔ q) : Exactly result a q :=
  ⟨fun hq => h.of_fits (hpq.mpr hq), fun hq => h.of_not_fits fun hp => hq (hpq.mp hp)⟩

theorem Exactly.eq_ite {α : Type} {result : Option α} {a : α} {p : Prop} [Decidable p]
    (h : Exactly result a p) : result = if p then some a else none := by
  split
  · next hp => exact h.of_fits hp
  · next hp => exact h.of_not_fits hp

/-- Both parts have to fit. -/
theorem Exactly.bind {α β : Type} {result : Option α} {f : α → Option β} {a : α} {b : β}
    {p q : Prop} (h : Exactly result a p) (hf : Exactly (f a) b q) :
    Exactly (result.bind f) b (p ∧ q) := by
  constructor
  · rintro ⟨hp, hq⟩
    rw [h.of_fits hp, Option.bind_some, hf.of_fits hq]
  · intro hpq
    by_cases hp : p
    · rw [h.of_fits hp, Option.bind_some, hf.of_not_fits fun hq => hpq ⟨hp, hq⟩]
    · rw [h.of_not_fits hp, Option.bind_none]

theorem Exactly.map {α β : Type} {result : Option α} {a : α} {p : Prop} (h : Exactly result a p)
    (f : α → β) : Exactly (result.map f) (f a) p := by
  constructor
  · intro hp
    rw [h.of_fits hp, Option.map_some]
  · intro hp
    rw [h.of_not_fits hp, Option.map_none]

/-- The decoder reads what a value means, if it fits. -/
structure Reads {α : Type} (decode : Json.Value → Option α) (means : Json.Value → α → Prop)
    (fits : α → Prop) : Prop where
  exactly : ∀ {v a}, means v a → Exactly (decode v) a (fits a)
  /-- `null` stands for a property that is `nil`. -/
  ne_null : ∀ {v a}, means v a → v ≠ .null

theorem reads_string : Reads string MeansString fun _ => True := by
  constructor
  · rintro v s rfl
    have hstring : string (.str s.toList) = some s := by simp [string]
    rw [hstring]
    exact .pure s
  · rintro v s rfl
    exact Json.Value.noConfusion

theorem reads_int : Reads int MeansInt Checked.InRange := by
  constructor
  · rintro v i rfl
    have hinteger : integer ⟨i, 0⟩ = some i := by simp [integer]
    rw [int, hinteger, Option.bind_some]
    exact ⟨fun hfits => if_pos hfits, fun hfits => if_neg hfits⟩
  · rintro v i rfl
    exact Json.Value.noConfusion

theorem reads_priorityEnum : Reads priorityEnum MeansPriority fun _ => True := by
  constructor
  · intro v priority h
    refine ⟨fun _ => ?_, fun hno => absurd trivial hno⟩
    rw [priorityEnum, (reads_string.exactly h).of_fits trivial, Option.bind_some]
    cases priority <;> decide
  · intro v priority h
    exact reads_string.ne_null h

section

variable {α : Type} {decode : Json.Value → Option α} {means : Json.Value → α → Prop}
  {fits : α → Prop}

/-- Where every element fits, the array does. -/
theorem Reads.array (h : Reads decode means fits) :
    Reads (array decode) (MeansArray means) fun as => ∀ a ∈ as, fits a := by
  constructor
  · rintro v as ⟨vs, rfl, hall⟩
    show Exactly (vs.mapM decode) as _
    induction hall with
    | nil => exact (Exactly.pure []).congr (by simp)
    | @cons v a vs as hv _ ih =>
      rw [List.mapM_cons]
      exact ((h.exactly hv).bind (ih.bind (.pure (a :: as)))).congr (by simp)
  · rintro v as ⟨vs, rfl, -⟩
    exact Json.Value.noConfusion

variable {ms : List (List Char × Json.Value)} {key : String}

/-- A member that is there is read, wherever it stands. -/
theorem Reads.required (h : Reads decode means fits) (hnd : (ms.map Prod.fst).Nodup) {a : α}
    (hm : HasMember means ms key a) : Exactly (required decode ms key) a (fits a) := by
  obtain ⟨v, hmem, hv⟩ := hm
  rw [JSONDecoder.required, (Json.lookup_eq_some_iff_mem hnd).mpr hmem]
  exact h.exactly hv

/-- A member that may be missing is read. -/
theorem Reads.ifPresent (h : Reads decode means fits) (hnd : (ms.map Prod.fst).Nodup)
    {a : Option α} (hm : MayHaveMember means ms key a) :
    Exactly (ifPresent decode ms key) a (∀ x ∈ a, fits x) := by
  cases a with
  | none =>
    have hnil : JSONDecoder.ifPresent decode ms key = some none := by
      unfold JSONDecoder.ifPresent
      split
      · rfl
      · rfl
      · next v hnull hv =>
        exact absurd (hm v ((Json.lookup_eq_some_iff_mem hnd).mp hv)) hnull
    rw [hnil]
    exact (Exactly.pure none).congr (by simp)
  | some x =>
    obtain ⟨v, hmem, hv⟩ := hm
    have hlook := (Json.lookup_eq_some_iff_mem hnd).mpr hmem
    unfold JSONDecoder.ifPresent
    split
    · next heq => rw [heq] at hlook; cases hlook
    · next heq =>
      rw [heq] at hlook
      exact absurd (Option.some.inj hlook).symm (h.ne_null hv)
    · next heq =>
      rw [heq] at hlook
      obtain rfl := Option.some.inj hlook
      exact ((h.exactly hv).map some).congr (by simp)

/-- An object that is decoded to what its members mean. -/
theorem reads_object {members : α → List (List Char × Json.Value) → Prop}
    (h : ∀ a ms, (ms.map Prod.fst).Nodup → members a ms → Exactly (decode (.obj ms)) a (fits a)) :
    Reads decode (fun v a => MeansObject (members a) v) fits := by
  constructor
  · rintro v a ⟨ms, rfl, hnd, hms⟩
    exact h a ms hnd hms
  · rintro v a ⟨ms, rfl, -⟩
    exact Json.Value.noConfusion

end

/-! ## Section 4: Reading replies -/

theorem reads_taskData : Reads taskData MeansTaskData fun task => FitInt task.ints := by
  apply reads_object
  rintro task ms hnd ⟨hid, htitle, hdueBy, hpriority⟩
  exact ((reads_int.required hnd hid).bind ((reads_string.required hnd htitle).bind
    ((reads_int.required hnd hdueBy).bind ((reads_priorityEnum.required hnd hpriority).bind
      (.pure task))))).congr (by simp [FitInt, TaskData.ints])

theorem reads_meta : Reads «meta» MeansMeta fun mt => FitInt mt.ints := by
  apply reads_object
  rintro mt ms hnd ⟨hcurrent, hlimit, hcount⟩
  exact ((reads_int.required hnd hcurrent).bind ((reads_int.required hnd hlimit).bind
    ((reads_int.required hnd hcount).bind (.pure mt)))).congr (by simp [FitInt, Meta.ints])

theorem reads_field : Reads field MeansField fun _ => True := by
  apply reads_object
  rintro fields ms hnd ⟨hpassword, hemail⟩
  exact ((reads_string.array.ifPresent hnd hpassword).bind
    ((reads_string.array.ifPresent hnd hemail).bind (.pure fields))).congr (by simp)

theorem reads_loginResultData : Reads decodeLoginResultData MeansLoginResultData fun _ => True := by
  apply reads_object
  rintro result ms hnd ⟨htoken, hmessage, hfields⟩
  exact ((reads_string.ifPresent hnd htoken).bind ((reads_string.ifPresent hnd hmessage).bind
    ((reads_field.ifPresent hnd hfields).bind (.pure result)))).congr (by simp)

theorem reads_taskList : Reads decodeTaskList MeansTaskList fun list => FitInt list.ints := by
  apply reads_object
  rintro list ms hnd ⟨htasks, hmeta, hmessage⟩
  exact ((reads_taskData.array.ifPresent hnd htasks).bind ((reads_meta.ifPresent hnd hmeta).bind
    ((reads_string.ifPresent hnd hmessage).bind (.pure list)))).congr (by
      rw [TaskList.fitInt_iff]
      simp)

theorem reads_taskDetail : Reads decodeTaskDetail MeansTaskDetail fun detail => FitInt detail.ints := by
  apply reads_object
  rintro detail ms hnd ⟨htask, hmessage⟩
  exact ((reads_taskData.ifPresent hnd htask).bind ((reads_string.ifPresent hnd hmessage).bind
    (.pure detail))).congr (by
      rw [TaskDetail.fitInt_iff]
      simp)

/-- The body of a text is parsed as the text. -/
theorem body_of_text (text : String) : body text.toByteArray.data.toList = Json.parse text.toList := by
  have hutf8 : String.fromUTF8? ⟨text.toByteArray.data.toList.toArray⟩ = some text := by
    unfold String.fromUTF8?
    rw [dif_pos text.isValidUTF8]
    rfl
  rw [body, hutf8, Option.bind_some]

/-! ## Section 5: What decodes fits -/

theorem inRange_of_int {v : Json.Value} {i : Int} (h : int v = some i) : Checked.InRange i := by
  cases v with
  | number n =>
    obtain ⟨j, -, hj⟩ := Option.bind_eq_some_iff.mp h
    split at hj
    · next hfits =>
      obtain rfl := Option.some.inj hj
      exact hfits
    · cases hj
  | _ => cases h

theorem fitInt_of_taskData {v : Json.Value} {task : TaskData} (h : taskData v = some task) :
    FitInt task.ints := by
  simp only [taskData, Option.bind_eq_bind, Option.bind_eq_some_iff, Option.some.injEq] at h
  obtain ⟨ms, -, id, hid, title, -, dueBy, hdueBy, priority, -, rfl⟩ := h
  obtain ⟨_, -, hid⟩ := Option.bind_eq_some_iff.mp hid
  obtain ⟨_, -, hdueBy⟩ := Option.bind_eq_some_iff.mp hdueBy
  intro i hi
  simp only [TaskData.ints, List.mem_cons, List.not_mem_nil, or_false] at hi
  rcases hi with rfl | rfl
  · exact inRange_of_int hid
  · exact inRange_of_int hdueBy

theorem fitInt_of_meta {v : Json.Value} {mt : Meta} (h : «meta» v = some mt) :
    FitInt mt.ints := by
  simp only [«meta», Option.bind_eq_bind, Option.bind_eq_some_iff, Option.some.injEq] at h
  obtain ⟨ms, -, current, hcurrent, limit, hlimit, count, hcount, rfl⟩ := h
  obtain ⟨_, -, hcurrent⟩ := Option.bind_eq_some_iff.mp hcurrent
  obtain ⟨_, -, hlimit⟩ := Option.bind_eq_some_iff.mp hlimit
  obtain ⟨_, -, hcount⟩ := Option.bind_eq_some_iff.mp hcount
  intro i hi
  simp only [Meta.ints, List.mem_cons, List.not_mem_nil, or_false] at hi
  rcases hi with rfl | rfl | rfl
  · exact inRange_of_int hcurrent
  · exact inRange_of_int hlimit
  · exact inRange_of_int hcount

/-- Where a property is decoded to a value, some JSON value was. -/
theorem of_ifPresent {α : Type} {decode : Json.Value → Option α}
    {ms : List (List Char × Json.Value)} {key : String} {a : Option α} {x : α}
    (h : ifPresent decode ms key = some a) (hx : x ∈ a) : ∃ v, decode v = some x := by
  unfold ifPresent at h
  split at h
  · obtain rfl := Option.some.inj h
    cases hx
  · obtain rfl := Option.some.inj h
    cases hx
  · next v _ _ =>
    obtain ⟨y, hy, rfl⟩ := Option.map_eq_some_iff.mp h
    obtain rfl := Option.some.inj hx
    exact ⟨v, hy⟩

theorem of_mapM {α β : Type} {f : α → Option β} {as : List α} {bs : List β} {b : β}
    (h : as.mapM f = some bs) (hb : b ∈ bs) : ∃ a ∈ as, f a = some b := by
  induction as generalizing bs with
  | nil =>
    obtain rfl := Option.some.inj h
    cases hb
  | cons a as ih =>
    simp only [List.mapM_cons, Option.bind_eq_bind, Option.bind_eq_some_iff, Option.pure_def,
      Option.some.injEq] at h
    obtain ⟨c, hc, cs, hcs, rfl⟩ := h
    rcases List.mem_cons.mp hb with rfl | hb
    · exact ⟨a, List.mem_cons_self, hc⟩
    · obtain ⟨a', ha', hfa⟩ := ih hcs hb
      exact ⟨a', List.mem_cons_of_mem a ha', hfa⟩

theorem of_array {α : Type} {decode : Json.Value → Option α} {v : Json.Value} {as : List α}
    {a : α} (h : array decode v = some as) (ha : a ∈ as) : ∃ w, decode w = some a := by
  cases v with
  | arr vs =>
    obtain ⟨w, -, hw⟩ := of_mapM h ha
    exact ⟨w, hw⟩
  | _ => cases h

theorem fitInt_of_taskList {v : Json.Value} {list : TaskList} (h : decodeTaskList v = some list) :
    FitInt list.ints := by
  simp only [decodeTaskList, Option.bind_eq_bind, Option.bind_eq_some_iff, Option.some.injEq] at h
  obtain ⟨ms, -, tasks, htasks, mt, hmt, message, -, rfl⟩ := h
  intro i hi
  simp only [TaskList.ints, List.mem_append, List.mem_flatMap, Option.mem_toList] at hi
  rcases hi with ⟨task, htask, hi⟩ | ⟨mt', hmt', hi⟩
  · cases tasks with
    | none => cases htask
    | some tasks =>
      obtain ⟨v, hv⟩ := of_ifPresent htasks rfl
      obtain ⟨w, hw⟩ := of_array hv htask
      exact fitInt_of_taskData hw i hi
  · obtain ⟨v, hv⟩ := of_ifPresent hmt hmt'
    exact fitInt_of_meta hv i hi

theorem fitInt_of_taskDetail {v : Json.Value} {detail : TaskDetail}
    (h : decodeTaskDetail v = some detail) : FitInt detail.ints := by
  simp only [decodeTaskDetail, Option.bind_eq_bind, Option.bind_eq_some_iff,
    Option.some.injEq] at h
  obtain ⟨ms, -, task, htask, message, -, rfl⟩ := h
  intro i hi
  simp only [TaskDetail.ints, List.mem_flatMap, Option.mem_toList] at hi
  obtain ⟨task', htask', hi⟩ := hi
  obtain ⟨v, hv⟩ := of_ifPresent htask htask'
  exact fitInt_of_taskData hv i hi

/-- **What a body means is what the app reads.**  Whatever JSON text a body is,
    it is decoded to the reply that it means, or to nothing where an integer
    of it does not fit; and no body at all is decoded to a reply that does not
    fit. -/
theorem responses_round_trip {text : String} {v : Json.Value}
    (hparse : Json.parse text.toList = some v) :
    (∀ result, MeansLoginResultData v result →
      standard.loginResultData text.toByteArray.data.toList = some result) ∧
    (∀ list, MeansTaskList v list → standard.taskList text.toByteArray.data.toList =
      if FitInt list.ints then some list else none) ∧
    (∀ detail, MeansTaskDetail v detail → standard.taskDetail text.toByteArray.data.toList =
      if FitInt detail.ints then some detail else none) ∧
    (∀ data, ∀ list ∈ standard.taskList data, FitInt list.ints) ∧
    ∀ data, ∀ detail ∈ standard.taskDetail data, FitInt detail.ints := by
  have hbody : body text.toByteArray.data.toList = some v := (body_of_text text).trans hparse
  refine ⟨?_, ?_, ?_, ?_, ?_⟩
  · intro result hmeans
    show (body _).bind _ = _
    rw [hbody, Option.bind_some]
    exact (reads_loginResultData.exactly hmeans).of_fits trivial
  · intro list hmeans
    show (body _).bind _ = _
    rw [hbody, Option.bind_some]
    exact (reads_taskList.exactly hmeans).eq_ite
  · intro detail hmeans
    show (body _).bind _ = _
    rw [hbody, Option.bind_some]
    exact (reads_taskDetail.exactly hmeans).eq_ite
  · intro data list hlist
    obtain ⟨v, -, hv⟩ := Option.bind_eq_some_iff.mp hlist
    exact fitInt_of_taskList hv
  · intro data detail hdetail
    obtain ⟨v, -, hv⟩ := Option.bind_eq_some_iff.mp hdetail
    exact fitInt_of_taskDetail hv

/-- A list with white space, an escape, `null`, and members that the app does
    not know. -/
theorem responses_round_trip_taskList :
    standard.taskList "\x7b \"meta\": null, \"took\": [0.5],\n \"tasks\": [\x7b\"priority\": \"High\", \"title\": \"\\u0061\",\t\"note\": \x7b\x7d, \"dueBy\": 0, \"id\": 7\x7d] \x7d".toByteArray.data.toList =
      some ⟨some [⟨7, "a", 0, .high⟩], none, none⟩ := by
  have hparse : Json.parse "\x7b \"meta\": null, \"took\": [0.5],\n \"tasks\": [\x7b\"priority\": \"High\", \"title\": \"\\u0061\",\t\"note\": \x7b\x7d, \"dueBy\": 0, \"id\": 7\x7d] \x7d".toList =
      some (.obj [("meta".toList, .null), ("took".toList, .arr [.number ⟨5, -1⟩]),
        ("tasks".toList, .arr [.obj [("priority".toList, .str "High".toList),
          ("title".toList, .str "a".toList), ("note".toList, .obj []),
          ("dueBy".toList, .number ⟨0, 0⟩), ("id".toList, .number ⟨7, 0⟩)]])]) := by
    decide +kernel
  have htask : MeansTaskData (.obj [("priority".toList, .str "High".toList),
      ("title".toList, .str "a".toList), ("note".toList, .obj []),
      ("dueBy".toList, .number ⟨0, 0⟩), ("id".toList, .number ⟨7, 0⟩)]) ⟨7, "a", 0, .high⟩ :=
    ⟨_, rfl, by decide, ⟨.number ⟨7, 0⟩, by simp, rfl⟩, ⟨.str "a".toList, by simp, rfl⟩,
      ⟨.number ⟨0, 0⟩, by simp, rfl⟩, ⟨.str "High".toList, by simp, rfl⟩⟩
  rw [(responses_round_trip hparse).2.1 ⟨some [⟨7, "a", 0, .high⟩], none, none⟩
    ⟨_, rfl, by decide, ⟨_, by simp, _, rfl, .cons htask .nil⟩, by simp [MayHaveMember],
      by simp [MayHaveMember]⟩, if_pos (by decide)]

end JSONDecoder

end TimeManager
