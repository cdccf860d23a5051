/-
  Arrays and objects as they are in memory: items that point to one another.

  * `Heap`: which blocks are allocated, and for each field of `cJSON` what it is in each of them. The fields
    are those that link items, the name, and the flags of a reference (whose `child` is not its own) and of a name
    that is not its own either. The children of an item are linked by `next` and `prev`, the first one's `prev`
    pointing to the last. What an item has for a value is left out: nothing here looks at it.
  * A name is a constant of the caller's or stands in a block, and these are apart from the blocks of items.
  * A field of NULL, or of a block that is not allocated, is a fault; so is reading or freeing a name in a block that is
    not allocated, and freeing a constant.
  * `newItem` and `cJSONStrdup` are given what `malloc` returns.
  * The loops over `next` and the recursion of `cJSONDelete` are bounded by a number of turns.
-/
import OlegPrinter.Lib.Attempt
import OlegPrinter.Lib.Bytes
import Mathlib.Logic.Function.Basic

namespace OlegPrinter

open CLib

/-! ## Memory -/

abbrev ItemPtr := Nat

abbrev TextPtr := Nat

/-- A pointer to a string. A constant stays as it is for good. -/
inductive NamePtr where
  | const (s : CStr)
  | block (b : TextPtr)
  deriving DecidableEq

/-- `text` is what stands in the blocks of strings that are allocated. -/
structure Heap where
  live : ItemPtr → Bool
  next : ItemPtr → Option ItemPtr
  prev : ItemPtr → Option ItemPtr
  child : ItemPtr → Option ItemPtr
  string : ItemPtr → Option NamePtr
  isReference : ItemPtr → Bool
  stringIsConst : ItemPtr → Bool
  text : TextPtr → Option CStr

namespace Heap

abbrev Action (α : Type) := Attempt Heap α

/-- A field. -/
def field {α : Type} (f : Heap → ItemPtr → α) (p : Option ItemPtr) : Action α := fun h =>
  match p with
  | some p => if h.live p then .accept (f h p) h else .fault .badPointer
  | none => .fault .badPointer

/-- An assignment to a field. -/
def assign (f : ItemPtr → Heap → Heap) (p : Option ItemPtr) : Action Unit := fun h =>
  match p with
  | some p => if h.live p then .accept () (f p h) else .fault .badPointer
  | none => .fault .badPointer

def setNext (p next : Option ItemPtr) : Action Unit :=
  assign (fun p h => { h with next := Function.update h.next p next }) p

def setPrev (p prev : Option ItemPtr) : Action Unit :=
  assign (fun p h => { h with prev := Function.update h.prev p prev }) p

def setChild (p child : Option ItemPtr) : Action Unit :=
  assign (fun p h => { h with child := Function.update h.child p child }) p

def setString (p : Option ItemPtr) (string : Option NamePtr) : Action Unit :=
  assign (fun p h => { h with string := Function.update h.string p string }) p

def setStringIsConst (p : Option ItemPtr) (isConst : Bool) : Action Unit :=
  assign (fun p h => { h with stringIsConst := Function.update h.stringIsConst p isConst }) p

/-- `deallocate`. -/
def free (p : Option ItemPtr) : Action Unit :=
  assign (fun p h => { h with live := Function.update h.live p false }) p

/-! ## Names -/

/-- The string that a pointer points to. -/
def read (name : NamePtr) : Action CStr := fun h =>
  match name with
  | .const s => .accept s h
  | .block b =>
    match h.text b with
    | some s => .accept s h
    | none => .fault .badPointer

/-- `deallocate`, of a string. -/
def freeText (name : NamePtr) : Action Unit := fun h =>
  match name with
  | .const _ => .fault .badPointer
  | .block b =>
    match h.text b with
    | some _ => .accept () { h with text := Function.update h.text b none }
    | none => .fault .badPointer

/-- `cJSON_strdup`, with what `malloc` returns. -/
def cJSONStrdup (copy : Option TextPtr) (string : NamePtr) : Action (Option NamePtr) := do
  let s ← read string
  match copy with
  | none => pure none
  | some b => do
    Attempt.modify fun h => { h with text := Function.update h.text b (some s) }
    pure (some (.block b))

/-- The name of an item is freed, if it has one of its own. -/
def freeString (p : Option ItemPtr) : Action Unit := do
  let isConst ← field stringIsConst p
  let string ← field string p
  match string with
  | none => pure ()
  | some name => Attempt.when (isConst = false) (freeText name)

/-! ## Items -/

/-- A block filled with zeros. -/
def alloc (p : ItemPtr) (h : Heap) : Heap where
  live := Function.update h.live p true
  next := Function.update h.next p none
  prev := Function.update h.prev p none
  child := Function.update h.child p none
  string := Function.update h.string p none
  isReference := Function.update h.isReference p false
  stringIsConst := Function.update h.stringIsConst p false
  text := h.text

/-- `cJSON_New_Item`, with what `malloc` returns. -/
def newItem (block : Option ItemPtr) : Action (Option ItemPtr) := do
  match block with
  | none => pure none
  | some p => do
    Attempt.modify (alloc p)
    pure (some p)

/-- `cJSON_Delete`: an item, what is behind it, and what is below them. -/
def cJSONDelete : ℕ → Option ItemPtr → Action Unit
  | _, none => pure ()
  | 0, some _ => Attempt.fault .outOfTurns
  | n + 1, some p => do
    let next ← field next (some p)
    let isReference ← field isReference (some p)
    let child ← field child (some p)
    Attempt.when (isReference = false ∧ child ≠ none) (cJSONDelete n child)
    freeString (some p)
    free (some p)
    cJSONDelete n next

/-- `create_reference`. -/
def createReference (block item : Option ItemPtr) : Action (Option ItemPtr) := do
  if item = none then pure none
  else do
    let reference ← newItem block
    if reference = none then pure none
    else do
      -- the copy
      let child ← field child item
      setChild reference child
      let isConst ← field stringIsConst item
      setStringIsConst reference isConst
      -- what is not copied
      setString reference none
      assign (fun p h => { h with isReference := Function.update h.isReference p true }) reference
      setPrev reference none
      setNext reference none
      pure reference

/-! ## Searches -/

/-- The loop of `cJSON_GetArraySize`. -/
def sizeFrom : ℕ → Option ItemPtr → Action ℕ
  | _, none => pure 0
  | 0, some _ => Attempt.fault .outOfTurns
  | n + 1, some p => do
    let next ← field next (some p)
    let size ← sizeFrom n next
    pure (size + 1)

/-- `cJSON_GetArraySize`. What is returned is an `int`. -/
def cJSONGetArraySize (n : ℕ) (array : Option ItemPtr) : Action Int := do
  if array = none then pure 0
  else do
    let child ← field child array
    let size ← sizeFrom n child
    pure (BitVec.ofNat 32 size).toInt

/-- The loop of `get_array_item`. -/
def itemFrom : ℕ → Option ItemPtr → Action (Option ItemPtr)
  | _, none => pure none
  | 0, some p => pure (some p)
  | index + 1, some p => do
    let next ← field next (some p)
    itemFrom index next

/-- `get_array_item`. -/
def getArrayItem (array : Option ItemPtr) (index : ℕ) : Action (Option ItemPtr) := do
  if array = none then pure none
  else do
    let child ← field child array
    itemFrom index child

/-- `cJSON_GetArrayItem`. -/
def cJSONGetArrayItem (array : Option ItemPtr) (index : Int) : Action (Option ItemPtr) := do
  if index < 0 then pure none else getArrayItem array index.toNat

/-- `tolower`. -/
def tolower (b : UInt8) : UInt8 := if 0x41 ≤ b ∧ b ≤ 0x5a then b + 0x20 else b

/-- `case_insensitive_strcmp`, of two strings. -/
def caseInsensitiveStrcmp : List UInt8 → List UInt8 → Int
  | [], [] => 0
  | [], b :: _ => -((tolower b).toNat : Int)
  | a :: _, [] => (tolower a).toNat
  | a :: s, b :: t =>
    if tolower a = tolower b then caseInsensitiveStrcmp s t
    else ((tolower a).toNat : Int) - (tolower b).toNat

/-- The names are equal, in the way that is asked for. -/
def sameName (caseSensitive : Bool) (name string : CStr) : Bool :=
  if caseSensitive then strcmp name.bytes string.bytes = 0
  else caseInsensitiveStrcmp name.bytes string.bytes = 0

/-- The loops of `get_object_item`. A NULL name ends the search only if case matters. -/
def memberFrom (caseSensitive : Bool) (name : NamePtr) : ℕ → Option ItemPtr → Action (Option ItemPtr)
  | _, none => pure none
  | 0, some _ => Attempt.fault .outOfTurns
  | n + 1, some p => do
    let string ← field string (some p)
    match string with
    | none =>
      if caseSensitive then pure none
      else do
        let next ← field next (some p)
        memberFrom caseSensitive name n next
    | some string => do
      let name' ← read name
      let string ← read string
      if sameName caseSensitive name' string then pure (some p)
      else do
        let next ← field next (some p)
        memberFrom caseSensitive name n next

/-- `get_object_item`. -/
def getObjectItem (n : ℕ) (object : Option ItemPtr) (name : Option NamePtr) (caseSensitive : Bool) :
    Action (Option ItemPtr) := do
  match name with
  | none => pure none
  | some name =>
    if object = none then pure none
    else do
      let child ← field child object
      memberFrom caseSensitive name n child

/-! ## Adding -/

/-- `suffix_object`. -/
def suffixObject (prev item : Option ItemPtr) : Action Unit := do
  setNext prev item
  setPrev item prev

/-- `add_item_to_array`. -/
def addItemToArray (array item : Option ItemPtr) : Action Bool := do
  if item = none ∨ array = none ∨ array = item then pure false
  else do
    let child ← field child array
    if child = none then do
      setChild array item
      setPrev item item
      setNext item none
      pure true
    else do
      let last ← field prev child
      if last ≠ none then do
        suffixObject last item
        let child ← field Heap.child array
        setPrev child item
        pure true
      else pure true

/-- `cJSON_AddItemReferenceToArray`. -/
def cJSONAddItemReferenceToArray (block : Option ItemPtr) (array item : Option ItemPtr) : Action Bool := do
  if array = none then pure false
  else do
    let reference ← createReference block item
    addItemToArray array reference

/-- `add_item_to_object`. A constant key is not copied. -/
def addItemToObject (copy : Option TextPtr) (object : Option ItemPtr) (string : Option NamePtr)
    (item : Option ItemPtr) (constantKey : Bool) : Action Bool := do
  match string with
  | none => pure false
  | some string =>
    if object = none ∨ item = none ∨ object = item then pure false
    else do
      let newKey ← if constantKey then pure (some string) else cJSONStrdup copy string
      if newKey = none then pure false
      else do
        freeString item
        setString item newKey
        setStringIsConst item constantKey
        addItemToArray object item

/-- `cJSON_AddItemReferenceToObject`. -/
def cJSONAddItemReferenceToObject (block : Option ItemPtr) (copy : Option TextPtr) (object : Option ItemPtr)
    (string : Option NamePtr) (item : Option ItemPtr) : Action Bool := do
  if object = none ∨ string = none then pure false
  else do
    let reference ← createReference block item
    addItemToObject copy object string reference false

/-! ## Detaching -/

/-- `cJSON_DetachItemViaPointer`. -/
def detachItemViaPointer (parent item : Option ItemPtr) : Action (Option ItemPtr) := do
  if parent = none ∨ item = none then pure none
  else do
    let first ← field child parent
    -- not the first element
    Attempt.when (item ≠ first) do
      let prev ← field prev item
      let next ← field next item
      setNext prev next
    let next ← field next item
    -- not the last element
    Attempt.when (next ≠ none) do
      let prev ← field prev item
      setPrev next prev
    let first ← field child parent
    let next ← field Heap.next item
    -- the first element
    Attempt.when (item = first) do
      setChild parent next
    -- the last element
    Attempt.when (item ≠ first ∧ next = none) do
      let prev ← field prev item
      setPrev first prev
    setPrev item none
    setNext item none
    pure item

/-- `cJSON_DetachItemFromArray`. -/
def cJSONDetachItemFromArray (array : Option ItemPtr) (which : Int) : Action (Option ItemPtr) := do
  if which < 0 then pure none
  else do
    let item ← getArrayItem array which.toNat
    detachItemViaPointer array item

/-- `cJSON_DetachItemFromObject` and `cJSON_DetachItemFromObjectCaseSensitive`. -/
def detachItemFromObject (n : ℕ) (object : Option ItemPtr) (string : Option NamePtr) (caseSensitive : Bool) :
    Action (Option ItemPtr) := do
  let item ← getObjectItem n object string caseSensitive
  detachItemViaPointer object item

/-- `cJSON_DeleteItemFromArray`. -/
def cJSONDeleteItemFromArray (n : ℕ) (array : Option ItemPtr) (which : Int) : Action Unit := do
  let item ← cJSONDetachItemFromArray array which
  cJSONDelete n item

/-- `cJSON_DeleteItemFromObject` and `cJSON_DeleteItemFromObjectCaseSensitive`. -/
def deleteItemFromObject (n : ℕ) (object : Option ItemPtr) (string : Option NamePtr) (caseSensitive : Bool) :
    Action Unit := do
  let item ← detachItemFromObject n object string caseSensitive
  cJSONDelete n item

/-! ## Inserting and replacing -/

/-- `cJSON_InsertItemInArray`. -/
def cJSONInsertItemInArray (array : Option ItemPtr) (which : Int) (newitem : Option ItemPtr) :
    Action Bool := do
  if which < 0 then pure false
  else do
    let afterInserted ← getArrayItem array which.toNat
    if afterInserted = none then addItemToArray array newitem
    else do
      setNext newitem afterInserted
      let prev ← field prev afterInserted
      setPrev newitem prev
      setPrev afterInserted newitem
      let first ← field child array
      if afterInserted = first then do
        setChild array newitem
        pure true
      else do
        let prev ← field Heap.prev newitem
        setNext prev newitem
        pure true

/-- The first item: `parent->child` becomes the replacement. -/
def replaceFirst (parent item replacement : Option ItemPtr) : Action Unit := do
  let last ← field prev item
  Attempt.when (last = item) (setPrev replacement replacement)
  setChild parent replacement

/-- Another: the item in front of it is linked to the replacement, and the first to the last. -/
def replaceOther (parent replacement : Option ItemPtr) : Action Unit := do
  let prev ← field prev replacement
  Attempt.when (prev ≠ none) (setNext prev replacement)
  let next ← field next replacement
  Attempt.when (next = none) do
    let first ← field child parent
    setPrev first replacement

/-- What points to `item` points to the replacement. -/
def replaceIn (parent item replacement : Option ItemPtr) : Action Unit := do
  let first ← field child parent
  if first = item then replaceFirst parent first replacement else replaceOther parent replacement

/-- `replacement` gets the links of `item`, which has none any more. -/
def takePlace (parent item replacement : Option ItemPtr) : Action Unit := do
  let next ← field next item
  setNext replacement next
  let prev ← field prev item
  setPrev replacement prev
  let next ← field Heap.next replacement
  Attempt.when (next ≠ none) (setPrev next replacement)
  replaceIn parent item replacement
  setNext item none
  setPrev item none

/-- `cJSON_ReplaceItemViaPointer`. -/
def replaceItemViaPointer (n : ℕ) (parent item replacement : Option ItemPtr) : Action Bool := do
  if parent = none ∨ replacement = none ∨ item = none then pure false
  else if replacement = item then pure true
  else do
    takePlace parent item replacement
    cJSONDelete n item
    pure true

/-- `cJSON_ReplaceItemInArray`. -/
def cJSONReplaceItemInArray (n : ℕ) (array : Option ItemPtr) (which : Int) (newitem : Option ItemPtr) :
    Action Bool := do
  if which < 0 then pure false
  else do
    let item ← getArrayItem array which.toNat
    replaceItemViaPointer n array item newitem

/-- `replace_item_in_object`. -/
def replaceItemInObject (n : ℕ) (copy : Option TextPtr) (object : Option ItemPtr) (string : Option NamePtr)
    (replacement : Option ItemPtr) (caseSensitive : Bool) : Action Bool := do
  match string with
  | none => pure false
  | some string =>
    if replacement = none then pure false
    else do
      freeString replacement
      let newKey ← cJSONStrdup copy string
      setString replacement newKey
      if newKey = none then pure false
      else do
        setStringIsConst replacement false
        let item ← getObjectItem n object (some string) caseSensitive
        replaceItemViaPointer n object item replacement

end Heap

end OlegPrinter
