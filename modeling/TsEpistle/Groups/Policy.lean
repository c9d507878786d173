import TsEpistle.Access.GroupAccess
import TsEpistle.Library.Checked
import TsEpistle.Pages.Approvals

/-! Group policies (`server/operations/group-administration.ts`): the scope of an administrator
and the normal form of a policy. -/

namespace TsEpistle.Groups
open Library Access

structure ApplicationError where
  message : String
  status : Nat
  deriving DecidableEq, Repr

def fail {α : Type} (message : String) (status : Nat) : Except ApplicationError α :=
  .error ⟨message, status⟩

def check (holds : Bool) (message : String) (status : Nat) : Except ApplicationError Unit :=
  if holds then .ok () else fail message status

theorem check_ok {holds : Bool} {message : String} {status : Nat} {u : Unit}
    (h : check holds message status = .ok u) : holds = true := by
  unfold check at h
  split at h
  · assumption
  · cases h

/-- The keys of `groupPermissions`, and whether each is page scoped. -/
def groupPermissions : List (JsString × Bool) :=
  (["read:pages", "write:pages", "manage:pages", "delete:pages", "read:source", "read:history",
    "write:styles", "write:scripts", "read:assets", "write:assets", "manage:assets",
    "read:comments", "write:comments", "manage:comments", "read:glossary",
    "manage:glossary"].map fun key => (js key, true))
  ++ (["read:notes", "write:notes", "use:agents", "use:agent-browser", "use:mcp", "write:users",
    "manage:users", "write:groups", "manage:groups", "manage:navigation", "manage:theme",
    "manage:api", "manage:system"].map fun key => (js key, false))

/-- The part after the last colon. -/
def lastPart (p : JsString) : JsString := (p.reverse.takeWhile (· ≠ 58)).reverse

def administrative (p : JsString) : Bool :=
  ["users", "groups", "navigation", "theme", "api", "system"].any fun part => lastPart p = js part

def groupAuthorityAllows (permissions target : List JsString) : Bool :=
  permissions.contains (js "manage:system")
    || (!(target.any fun p => endsWith p (js ":system") || p = js "write:scripts")
      && (permissions.contains (js "manage:groups") || !target.any administrative))

/-- What `new URL` tells of a text. -/
structure Url where
  (protocol username password : JsString)

/-- What the store takes from its surroundings: URL parsing, regular expressions, lower case in
the language of the host, and SHA-256, whose values are of a type `η`. -/
structure Surroundings (κ κ' η : Type) where
  parseUrl : JsString → Option Url
  safeRegex : JsString → Bool
  lower : JsString → JsString
  hash : κ → η
  createHash : κ' → η

def Surroundings.redirectAllowed {κ κ' η : Type} (around : Surroundings κ κ' η) (redirectOnLogin : JsString) : Bool :=
  (around.parseUrl redirectOnLogin).any fun url =>
    (url.protocol = js "http:" || url.protocol = js "https:") && url.username.isEmpty && url.password.isEmpty
      && !redirectOnLogin.contains 92 && !startsWith redirectOnLogin (js "//")
      && (startsWith redirectOnLogin (js "/") || startsWith redirectOnLogin (js "http://")
        || startsWith redirectOnLogin (js "https://"))

/-- `Array.prototype.sort` without a comparison. -/
def sorted (values : List JsString) : List JsString := values.insertionSort (· ≤ ·)

theorem sorted_perm (values : List JsString) : (sorted values).Perm values := List.perm_insertionSort _ values

@[simp] theorem mem_sorted {value : JsString} {values : List JsString} :
    value ∈ sorted values ↔ value ∈ values := (sorted_perm values).mem_iff

def textValue (value : JsString) (label : String) (minimum maximum : Nat) :
    Except ApplicationError JsString := do
  let text := Pages.trim value
  check (minimum ≤ text.length && text.length ≤ maximum)
    s!"{label} must contain {minimum}–{maximum} characters." 400
  return text

def strings (value : List JsString) : Except ApplicationError (List JsString) := do
  check (value.length ≤ 100 && decide value.Nodup) "Choose a bounded list of unique values." 400
  return value

/-- A rule as it is sent; a match type or an effect that is none of the known ones is `none`. -/
structure RuleInput where
  id : JsString
  «match» : Option GroupRuleMatch
  path : JsString
  deny : Option Bool
  roles : List JsString
  locales : Option (List JsString)
  deriving DecidableEq, Repr

structure PolicyInput where
  name : JsString
  description : Option JsString
  redirectOnLogin : JsString
  permissions : List JsString
  pageRules : List RuleInput
  deriving DecidableEq, Repr

structure GroupPolicyDraft where
  (name description redirectOnLogin : JsString)
  permissions : List JsString
  pageRules : List AccessRule
  deriving DecidableEq, Repr

/-- `path.replace(/\/+$/, '')` for subtrees. -/
def normalizeGroupRulePath (kind : Option GroupRuleMatch) (path : JsString) : JsString :=
  if kind = some .SUBTREE then (path.reverse.dropWhile (· = 47)).reverse else path

/-- `/^[a-zA-Z0-9_-]{1,24}$/` -/
def isLocale (locale : JsString) : Bool :=
  1 ≤ locale.length && locale.length ≤ 24 && locale.all fun c =>
    (97 ≤ c ∧ c ≤ 122) ∨ (65 ≤ c ∧ c ≤ 90) ∨ (48 ≤ c ∧ c ≤ 57) ∨ c = 95 ∨ c = 45

def pageScoped (role : JsString) : Bool := groupPermissions.contains (role, true)

def recognized (permission : JsString) : Bool := groupPermissions.any (·.1 = permission)

section
variable {κ κ' η : Type} (around : Surroundings κ κ' η)

def normalizeRule (rule : RuleInput) : Except ApplicationError AccessRule := do
  let id ← textValue rule.id "Rule identifier" 1 64
  let path ← textValue rule.path "Rule path" 0 500
  let path := normalizeGroupRulePath rule.match path
  let roles ← strings rule.roles
  let locales ← strings (rule.locales.getD [])
  match rule.match, rule.deny with
  | some kind, some deny => do
      check (!roles.isEmpty && roles.all pageScoped)
        "Choose at least one page-scoped action for every rule." 400
      check (locales.all isLocale) "Choose valid language codes." 400
      check (!(kind = .TAG || kind = .REGEX) || !path.isEmpty)
        "Tag and regular-expression rules need a value." 400
      check (kind ≠ .REGEX || around.safeRegex path)
        "Use a valid, non-exponential regular expression." 400
      return ⟨some id, kind, path, deny, sorted roles, some (sorted locales)⟩
  | _, _ => fail "Choose a rule match type and effect." 400

def normalizeGroupPolicy (value : PolicyInput) (existingPermissions : List JsString) :
    Except ApplicationError GroupPolicyDraft := do
  let name ← textValue value.name "Group name" 1 255
  let description ← textValue (value.description.getD []) "Group description" 0 1000
  let redirectOnLogin ← textValue
    (if value.redirectOnLogin.isEmpty then js "/" else value.redirectOnLogin)
    "Sign-in destination" 1 255
  let permissions ← strings value.permissions
  let permissions := sorted permissions
  check (permissions.all fun p => recognized p || existingPermissions.contains p)
    "Choose a recognized permission." 400
  check (!permissions.contains (js "use:agent-browser") || permissions.contains (js "use:agents"))
    "Agent browsing also requires Use the Wiki Agent." 400
  check (around.redirectAllowed redirectOnLogin)
    "Use a workspace path starting with / or an HTTP(S) destination." 400
  check (value.pageRules.length ≤ 100) "Use at most 100 page rules." 400
  let pageRules ← value.pageRules.mapM (normalizeRule around)
  check (decide (pageRules.map AccessRule.id).Nodup) "Page-rule identifiers must be unique." 400
  return ⟨name, description, redirectOnLogin, permissions, pageRules⟩

end

/-! ## Scope -/

/-- A permission of a list in scope is in scope. -/
theorem allows_mem {permissions target : List JsString} {q : JsString}
    (h : groupAuthorityAllows permissions target = true) (hq : q ∈ target) :
    groupAuthorityAllows permissions [q] = true := by
  simp only [groupAuthorityAllows, Bool.or_eq_true, Bool.and_eq_true, Bool.not_eq_true', List.any_eq_false] at h ⊢
  rcases h with hsystem | ⟨hplain, hgroups | hcontent⟩
  · exact .inl hsystem
  · refine .inr ⟨fun p hp => ?_, .inl hgroups⟩
    rw [List.mem_singleton.mp hp]
    exact hplain q hq
  · refine .inr ⟨fun p hp => ?_, .inr fun p hp => ?_⟩
    · rw [List.mem_singleton.mp hp]
      exact hplain q hq
    · rw [List.mem_singleton.mp hp]
      exact hcontent q hq

/-- Full system administration is outside the scope of everyone else. -/
theorem system_outside {permissions : List JsString} (h : permissions.contains (js "manage:system") = false) :
    groupAuthorityAllows permissions [js "manage:system"] = false := by
  rw [groupAuthorityAllows, h]
  have hends : endsWith (js "manage:system") (js ":system") = true := by decide
  simp [hends]

end TsEpistle.Groups
