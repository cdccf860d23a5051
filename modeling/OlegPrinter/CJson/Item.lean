/-
  The tree `cJSON_Parse` builds, and the lookup of a member.

  An item is a `CJson` with the fields its type uses; the items of an array or an object
  hang below it in a chain linked by `next` (`Chain`), each with its name `string`, which
  is NULL in an array. `prev` and the two flag bits are left out: nothing here reads them.

  * `getObjectItem`: the search of `cJSON_GetObjectItemCaseSensitive`.
  * `CJson.member`: the first member of that name; `getObjectItem_eq` is what the search has to do
    with it.
-/
import OlegPrinter.Lib.Bytes

namespace OlegPrinter

open CLib

/-- What printing asks of a `double`. -/
structure Double where
  /-- `isnan(d) || isinf(d)` -/
  nanOrInf : Bool
  /-- `d == (double) i` -/
  equals : Int → Bool
  /-- `%1.15g` -/
  precision15 : CStr
  /-- Reading that back gives `d`, up to `DBL_EPSILON`. -/
  recovered : Bool
  /-- `%1.17g` -/
  precision17 : CStr

mutual

/-- `cJSON`, by its type. A pointer to a string may be NULL. -/
inductive CJson where
  | invalid
  | null
  | false
  | true
  | number (valueint : Int) (valuedouble : Double)
  | raw (valuestring : Option CStr)
  | string (valuestring : Option CStr)
  | array (child : Chain)
  | object (child : Chain)

/-- The items from one `child` pointer on. -/
inductive Chain where
  | nil
  | cons (string : Option CStr) (item : CJson) (next : Chain)

end

/-- `item->child`. -/
def CJson.child : CJson → Chain
  | .array child => child
  | .object child => child
  | _ => .nil

/-- `cJSON_IsNumber`, of an item. -/
def CJson.isNumber : CJson → Bool
  | .number _ _ => Bool.true
  | _ => Bool.false

/-- The loop of `get_object_item`, case-sensitive: it stops at the first name that is NULL or
    equal, and a NULL name is no match. -/
def Chain.find (name : CStr) : Chain → Option CJson
  | .nil => none
  | .cons none _ _ => none
  | .cons (some string) item next =>
    if strcmp name.bytes string.bytes = 0 then some item else next.find name

/-- `cJSON_GetObjectItemCaseSensitive`. -/
def getObjectItem (object : Option CJson) (name : Option CStr) : Option CJson :=
  match object, name with
  | some object, some name => object.child.find name
  | _, _ => none

/-- The names and items of a chain, in order. -/
def Chain.entries : Chain → List (Option CStr × CJson)
  | .nil => []
  | .cons string item next => (string, item) :: next.entries

/-- The first member of that name. -/
def CJson.member (item : CJson) (name : CStr) : Option CJson :=
  (item.child.entries.find? fun e => e.1 = some name).map Prod.snd

theorem strcmp_cstr_iff (s t : CStr) : strcmp s.bytes t.bytes = 0 ↔ s = t := by
  rw [strcmp_eq_zero_iff, cstr_eq_self s.noNul, cstr_eq_self t.noNul]
  exact ⟨CStr.ext, fun h => h ▸ rfl⟩

theorem Chain.find_eq (name : CStr) (chain : Chain) :
    chain.find name = none ∨
      chain.find name = (chain.entries.find? fun e => e.1 = some name).map Prod.snd := by
  induction chain using Chain.find.induct name with
  | case1 => exact Or.inl rfl
  | case2 item next => exact Or.inl rfl
  | case3 string item next h =>
    obtain rfl := (strcmp_cstr_iff name string).mp h
    right
    simp [Chain.find, Chain.entries, h]
  | case4 string item next h ih =>
    have hne : string ≠ name := fun heq => h ((strcmp_cstr_iff name string).mpr heq.symm)
    simpa [Chain.find, Chain.entries, h, hne] using ih

/-- The search gives the member, or NULL where a NULL name precedes it. -/
theorem getObjectItem_eq (item : CJson) (name : CStr) :
    getObjectItem (some item) (some name) = none ∨
      getObjectItem (some item) (some name) = item.member name :=
  Chain.find_eq name item.child

end OlegPrinter
