import TimeManager.Framework.Json
import TimeManager.Managers.RequesterURL

/-! # The Body of a Login Request

    `loginUser` writes the mail and the password into a JSON template as
    they are.  The body reads back as the two of them exactly when both are
    plain: no quotation mark, no backslash and no control character
    (`loginBody_denotes_iff`). -/

namespace TimeManager

open RequesterURL

/-! ## Section 1: The text of the body -/

/-- The members a login body is to denote. -/
def loginMembers (user : LoginData) : List (List Char × Json.Value) :=
  [("email".toList, .str user.mail.toList), ("password".toList, .str user.password.toList)]

/-- The body of the request is a JSON object with exactly the mail and the
    password as its members. -/
def BodyDenotes (user : LoginData) : Prop :=
  ∃ text ms, (loginUser user).parameters = .httpBody text ∧
    Json.Parses text.toList (.obj ms) ∧ ms.Perm (loginMembers user)

/-- The body from the quotation mark of the second member's name on. -/
def passwordPart (user : LoginData) : List Char :=
  '"' :: ("password".toList ++ '"' :: ':' :: ' ' :: '"' ::
    (user.password.toList ++ '"' :: '\n' :: '}' :: []))

/-- The body from the quotation mark of the first member's name on. -/
def emailPart (user : LoginData) : List Char :=
  '"' :: ("email".toList ++ '"' :: ':' :: ' ' :: '"' ::
    (user.mail.toList ++ '"' :: ',' :: '\n' :: ' ' :: ' ' :: ' ' :: ' ' :: passwordPart user))

theorem loginBody_toList (user : LoginData) :
    (loginBody user).toList = '{' :: '\n' :: ' ' :: ' ' :: ' ' :: ' ' :: emailPart user := by
  unfold loginBody
  rw [String.toList_append, String.toList_append, String.toList_append, String.toList_append]
  have hopen : "\x7b\n    \"email\": \"".toList =
      '{' :: '\n' :: ' ' :: ' ' :: ' ' :: ' ' :: '"' ::
        ("email".toList ++ ['"', ':', ' ', '"']) := by decide
  have hmid : "\",\n    \"password\": \"".toList =
      '"' :: ',' :: '\n' :: ' ' :: ' ' :: ' ' :: ' ' :: '"' ::
        ("password".toList ++ ['"', ':', ' ', '"']) := by decide
  have hclose : "\"\n\x7d".toList = ['"', '\n', '}'] := by decide
  rw [hopen, hmid, hclose]
  simp only [emailPart, passwordPart, List.append_assoc, List.cons_append, List.nil_append]

/-- White space before a quotation mark is skipped. -/
theorem skipWs_indented (cs : List Char) :
    Json.skipWs ('\n' :: ' ' :: ' ' :: ' ' :: ' ' :: '"' :: cs) = '"' :: cs := by
  rfl

/-- A body is read as the members from the first name on. -/
theorem value_loginBody (user : LoginData) (fuel : Nat) :
    Json.value (fuel + 1) (loginBody user).toList =
      (Json.members fuel (emailPart user)).map (Json.onFst .obj) := by
  rw [loginBody_toList, Json.value]
  rfl

theorem plain_email : Json.Plain "email".toList := by decide

theorem plain_password : Json.Plain "password".toList := by decide

/-! ## Section 2: What the members are read as -/

variable {user : LoginData}

/-- A plain password is read as itself. -/
theorem members_passwordPart (h : Json.Plain user.password.toList) (fuel : Nat) :
    Json.members (fuel + 2) (passwordPart user) =
      some ([("password".toList, .str user.password.toList)], []) :=
  Json.members_string_last plain_password (Json.stringBody_plain h _) fuel

/-- Behind a plain mail the second member is read. -/
theorem members_emailPart (h : Json.Plain user.mail.toList) (fuel : Nat) :
    Json.members (fuel + 2) (emailPart user) =
      (Json.members (fuel + 1) (passwordPart user)).map
        (Json.onFst (("email".toList, .str user.mail.toList) :: ·)) := by
  rw [emailPart, Json.members_string_comma plain_email (Json.stringBody_plain h _)]
  rw [passwordPart, skipWs_indented]

/-- A mail that is read as itself is plain: behind the quotation mark after
    it the body has a comma and a line break. -/
theorem plain_mail_of_members {fuel : Nat} {m : List Char × Json.Value}
    {ms : List (List Char × Json.Value)} {rest : List Char}
    (h : Json.members (fuel + 2) (emailPart user) = some (m :: ms, rest))
    (hm : m.2 = .str user.mail.toList) : Json.Plain user.mail.toList := by
  obtain ⟨s, rest', hs, rfl⟩ := Json.members_string_head plain_email h
  obtain rfl : s = user.mail.toList := Json.Value.str.inj hm
  exact Json.plain_of_stringBody (s := [',']) hs (by decide) (by decide)

/-- A password that is read as itself is plain. -/
theorem plain_password_of_members {fuel : Nat} {m : List Char × Json.Value}
    {ms : List (List Char × Json.Value)} {rest : List Char}
    (h : Json.members (fuel + 2) (passwordPart user) = some (m :: ms, rest))
    (hm : m.2 = .str user.password.toList) : Json.Plain user.password.toList := by
  obtain ⟨s, rest', hs, rfl⟩ := Json.members_string_head plain_password h
  obtain rfl : s = user.password.toList := Json.Value.str.inj hm
  exact Json.plain_of_stringBody (s := []) hs (by decide) (by decide)

/-! ## Section 3: When the body denotes the mail and the password -/

/-- A plain mail and a plain password are read back. -/
theorem bodyDenotes_of_plain (hmail : Json.Plain user.mail.toList)
    (hpassword : Json.Plain user.password.toList) : BodyDenotes user := by
  refine ⟨_, loginMembers user, rfl, ⟨4, ?_⟩, .refl _⟩
  -- the body starts with its brace
  have hws : Json.skipWs (loginBody user).toList = (loginBody user).toList := by
    rw [loginBody_toList]
    rfl
  rw [Json.parseText, hws, value_loginBody, members_emailPart hmail,
    members_passwordPart hpassword]
  rfl

/-- A body that denotes them was read with enough fuel for both members. -/
theorem members_of_bodyDenotes (h : BodyDenotes user) :
    ∃ fuel ms rest, Json.members (fuel + 3) (emailPart user) = some (ms, rest) ∧
      ms.Perm (loginMembers user) := by
  obtain ⟨text, ms, htext, hparses, hperm⟩ := h
  obtain rfl : loginBody user = text := Parameters.httpBody.inj htext
  rw [Json.parses_iff, Json.parse] at hparses
  have hws : Json.skipWs (loginBody user).toList = (loginBody user).toList := by
    rw [loginBody_toList]
    rfl
  -- the opening brace and the blanks alone give four units of fuel
  obtain ⟨fuel, hfuel⟩ : ∃ fuel, 2 * (loginBody user).toList.length = fuel + 4 := by
    refine ⟨2 * (loginBody user).toList.length - 4, ?_⟩
    rw [loginBody_toList]
    simp only [List.length_cons]
    omega
  -- what is read is an object, and nothing follows it
  rw [hfuel, Json.parseText, hws, value_loginBody] at hparses
  split at hparses
  · next v rest hv =>
    obtain ⟨ms', hms', rfl⟩ := Json.map_onFst_eq_some hv
    split at hparses
    · obtain rfl : ms' = ms := Json.Value.obj.inj (Option.some.inj hparses)
      exact ⟨fuel, ms', rest, hms', hperm⟩
    · cases hparses
  · cases hparses

/-- The two names differ, so a member list with the first member first has
    the second member second. -/
theorem loginMembers_perm_cons {v : Json.Value} {ms : List (List Char × Json.Value)}
    (h : (("email".toList, v) :: ms).Perm (loginMembers user)) :
    v = .str user.mail.toList ∧ ms = [("password".toList, .str user.password.toList)] := by
  have hne : "email".toList ≠ "password".toList := by decide
  -- the first member is one of the two, and by its name the mail
  have hmem := h.subset List.mem_cons_self
  simp only [loginMembers, List.mem_cons, List.not_mem_nil, or_false, Prod.mk.injEq, hne,
    false_and, true_and] at hmem
  obtain rfl := hmem
  exact ⟨rfl, List.perm_singleton.mp ((List.perm_cons _).mp h)⟩

theorem plain_of_bodyDenotes (h : BodyDenotes user) :
    Json.Plain user.mail.toList ∧ Json.Plain user.password.toList := by
  obtain ⟨fuel, ms, rest, hms, hperm⟩ := members_of_bodyDenotes h
  cases ms with
  | nil => exact absurd hperm.length_eq (by simp [loginMembers])
  | cons m ms =>
    obtain ⟨s, rest', hs, rfl⟩ := Json.members_string_head plain_email hms
    obtain ⟨hv, rfl⟩ := loginMembers_perm_cons hperm
    have hmail := plain_mail_of_members hms hv
    refine ⟨hmail, ?_⟩
    -- the mail being plain, the rest is read from the second name on
    rw [members_emailPart hmail] at hms
    obtain ⟨ms', hms', heq⟩ := Json.map_onFst_eq_some hms
    obtain rfl := (List.cons.inj heq).2
    exact plain_password_of_members hms' rfl

/-- **The login body.**  It denotes exactly the mail and the password if and
    only if both are plain. -/
theorem loginBody_denotes_iff (user : LoginData) :
    BodyDenotes user ↔ Json.Plain user.mail.toList ∧ Json.Plain user.password.toList :=
  ⟨plain_of_bodyDenotes, fun h => bodyDenotes_of_plain h.1 h.2⟩

/-- A quotation mark in the password ends its string early. -/
theorem not_loginBody_denotes : ¬ BodyDenotes ⟨"a@b.c", "pass\"word", false⟩ := by
  intro h
  have hplain := (plain_of_bodyDenotes h).2
  exact absurd hplain (by decide)

end TimeManager
