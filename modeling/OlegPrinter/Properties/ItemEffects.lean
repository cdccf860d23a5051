/-
  The interface for arrays and objects, call by call.

  * `Call`: a call, with what `malloc` returns in it. A string that is passed is a constant, or the name of an item.
    `Call.run` is what the code does.
  * `Call.Effect`: what the call is for, as a change of the items and their lists of children, without pointers
    from one to another.
  * `Call.Legal`: what the caller has to see to. An item that is added belongs to nothing, and the list is not
    below it; an item that is deleted belongs to nothing; a list that is searched is one of an item's own. A string
    that is passed can be read: in a replacement by name it is not the replacement's own, which is freed before
    the string is copied. What is not to be copied is a constant.
-/
import OlegPrinter.Properties.ItemDeletion

namespace OlegPrinter

open CLib

/-! ## Effects -/

namespace Items

section

variable (A : Items)

def itemAt (array : Option ItemPtr) (index : Int) : Option ItemPtr :=
  array.bind fun p => if index < 0 then none else (A.children p)[index.toNat]?

def member (object : Option ItemPtr) (name : Option Name) (caseSensitive : Bool) : Option ItemPtr :=
  object.bind fun p => name.bind fun name => A.named caseSensitive name.text (A.children p)

/-- If there was memory for it. -/
def Made (block : Option ItemPtr) (A' : Items) : Prop :=
  match block with
  | some b => A.Created b ⟨none, false⟩ A'
  | none => A' = A

/-- An item behind the others. No item is added to itself. -/
def Added (array item : Option ItemPtr) (r : Bool) (A' : Items) : Prop :=
  match array, item with
  | some p, some x =>
    if p = x then r = false ∧ A' = A else r = true ∧ A.Rearranged p (A.children p ++ [x]) A'
  | _, _ => r = false ∧ A' = A

/-- The name that an item gets: a constant key, or a copy if there is memory for one. -/
def newKey (copy : Option TextPtr) (string : Name) (constantKey : Bool) : Option Name :=
  if constantKey then some string else copy.map fun b => .copy b string.text

/-- The same, under a name, if it gets one. -/
def AddedNamed (copy : Option TextPtr) (object : Option ItemPtr) (string : Option Name) (item : Option ItemPtr)
    (constantKey r : Bool) (A' : Items) : Prop :=
  match object, string, item with
  | some p, some s, some x =>
    if p = x ∨ newKey copy s constantKey = none then r = false ∧ A' = A
    else ∃ A₁, A.Renamed x (newKey copy s constantKey) A₁ ∧ A₁.Added (some p) (some x) r A'
  | _, _, _ => r = false ∧ A' = A

def Referenced (block item r : Option ItemPtr) (A' : Items) : Prop :=
  match block, item with
  | some b, some _ => r = some b ∧ A.Created b ⟨none, true⟩ A'
  | _, _ => r = none ∧ A' = A

def Detached (parent item r : Option ItemPtr) (A' : Items) : Prop :=
  match parent, item with
  | some p, some x => r = some x ∧ A.Rearranged p ((A.children p).erase x) A'
  | _, _ => r = none ∧ A' = A

def Deleted (item : Option ItemPtr) (A' : Items) : Prop :=
  match item with
  | some x => A.Pruned x A'
  | none => A' = A

/-- At an index, or behind the last. -/
def Inserted (array : Option ItemPtr) (which : Int) (newitem : Option ItemPtr) (r : Bool) (A' : Items) :
    Prop :=
  match array, newitem with
  | some p, some x =>
    if which < 0 ∨ p = x then r = false ∧ A' = A
    else r = true ∧ A.Rearranged p
      ((A.children p).take which.toNat ++ x :: (A.children p).drop which.toNat) A'
  | _, _ => r = false ∧ A' = A

/-- One for another, which is deleted. -/
def Replaced (parent item replacement : Option ItemPtr) (r : Bool) (A' : Items) : Prop :=
  match parent, item, replacement with
  | some p, some x, some y =>
    r = true ∧ if y = x then A' = A
      else ∃ A₁, A.Rearranged p ((A.children p).replace x y) A₁ ∧ A₁.Pruned x A'
  | _, _, _ => r = false ∧ A' = A

/-- The replacement has the name first. Without memory for it, it has none. -/
def ReplacedNamed (copy : Option TextPtr) (object : Option ItemPtr) (string : Option Name)
    (replacement : Option ItemPtr) (caseSensitive r : Bool) (A' : Items) : Prop :=
  match string, replacement with
  | some s, some y =>
    if copy = none then r = false ∧ A.Renamed y none A'
    else ∃ A₁, A.Renamed y (newKey copy s false) A₁ ∧
      A₁.Replaced object (A₁.member object (some s) caseSensitive) (some y) r A'
  | _, _ => r = false ∧ A' = A

/-! ### What they ask for -/

def Owns (array : Option ItemPtr) : Prop := ∀ p ∈ array, A.Owner p

/-- The block is free. -/
def Free (block : Option ItemPtr) : Prop := ∀ b ∈ block, A.label b = none

def MayRead (string : Option Name) : Prop := ∀ s ∈ string, A.Readable none s

/-- When the name of `item` is gone, the string can be read and the block of its copy is free. -/
structure MayName (item : Option ItemPtr) (copy : Option TextPtr) (string : Option Name) : Prop where
  readable : ∀ s ∈ string, A.Readable item s
  spare : ∀ b ∈ copy, A.Spare item b

def MayAdd (array item : Option ItemPtr) : Prop :=
  ∀ p ∈ array, ∀ x ∈ item, p ≠ x → A.Owner p ∧ A.Attachable p x

def MayDetach (parent item : Option ItemPtr) : Prop := ∀ p ∈ parent, ∀ x ∈ item, x ∈ A.children p

def MayDelete (item : Option ItemPtr) : Prop := ∀ x ∈ item, A.Live x ∧ A.forest.IsRoot x

def MayReplace (parent item replacement : Option ItemPtr) : Prop :=
  ∀ p ∈ parent, ∀ x ∈ item, ∀ y ∈ replacement, y ≠ x → x ∈ A.children p ∧ A.Attachable p y

end

end Items

namespace Heap

/-! ## Calls -/

inductive Call where
  | newItem (block : Option ItemPtr)
  | delete (item : Option ItemPtr)
  | getArraySize (array : Option ItemPtr)
  | getArrayItem (array : Option ItemPtr) (index : Int)
  | getObjectItem (object : Option ItemPtr) (name : Option Name) (caseSensitive : Bool)
  | addItemToArray (array item : Option ItemPtr)
  | addItemToObject (copy : Option TextPtr) (object : Option ItemPtr) (string : Option Name)
      (item : Option ItemPtr) (constantKey : Bool)
  | addItemReferenceToArray (block array item : Option ItemPtr)
  | addItemReferenceToObject (block : Option ItemPtr) (copy : Option TextPtr) (object : Option ItemPtr)
      (string : Option Name) (item : Option ItemPtr)
  | detachItemViaPointer (parent item : Option ItemPtr)
  | detachItemFromArray (array : Option ItemPtr) (which : Int)
  | detachItemFromObject (object : Option ItemPtr) (string : Option Name) (caseSensitive : Bool)
  | deleteItemFromArray (array : Option ItemPtr) (which : Int)
  | deleteItemFromObject (object : Option ItemPtr) (string : Option Name) (caseSensitive : Bool)
  | insertItemInArray (array : Option ItemPtr) (which : Int) (newitem : Option ItemPtr)
  | replaceItemViaPointer (parent item replacement : Option ItemPtr)
  | replaceItemInArray (array : Option ItemPtr) (which : Int) (newitem : Option ItemPtr)
  | replaceItemInObject (copy : Option TextPtr) (object : Option ItemPtr) (string : Option Name)
      (replacement : Option ItemPtr) (caseSensitive : Bool)

/-- What is returned. -/
inductive Reply where
  | nothing
  | bool (b : Bool)
  | item (p : Option ItemPtr)
  | size (i : Int)
  deriving DecidableEq

namespace Call

def run (n : ℕ) : Call → Action Reply
  | .newItem block => do pure (.item (← Heap.newItem block))
  | .delete item => do
    cJSONDelete n item
    pure .nothing
  | .getArraySize array => do pure (.size (← cJSONGetArraySize n array))
  | .getArrayItem array index => do pure (.item (← cJSONGetArrayItem array index))
  | .getObjectItem object name caseSensitive => do
    pure (.item (← Heap.getObjectItem n object (name.map Name.ptr) caseSensitive))
  | .addItemToArray array item => do pure (.bool (← Heap.addItemToArray array item))
  | .addItemToObject copy object string item constantKey => do
    pure (.bool (← Heap.addItemToObject copy object (string.map Name.ptr) item constantKey))
  | .addItemReferenceToArray block array item => do
    pure (.bool (← cJSONAddItemReferenceToArray block array item))
  | .addItemReferenceToObject block copy object string item => do
    pure (.bool (← cJSONAddItemReferenceToObject block copy object (string.map Name.ptr) item))
  | .detachItemViaPointer parent item => do pure (.item (← Heap.detachItemViaPointer parent item))
  | .detachItemFromArray array which => do pure (.item (← cJSONDetachItemFromArray array which))
  | .detachItemFromObject object string caseSensitive => do
    pure (.item (← Heap.detachItemFromObject n object (string.map Name.ptr) caseSensitive))
  | .deleteItemFromArray array which => do
    cJSONDeleteItemFromArray n array which
    pure .nothing
  | .deleteItemFromObject object string caseSensitive => do
    Heap.deleteItemFromObject n object (string.map Name.ptr) caseSensitive
    pure .nothing
  | .insertItemInArray array which newitem => do
    pure (.bool (← cJSONInsertItemInArray array which newitem))
  | .replaceItemViaPointer parent item replacement => do
    pure (.bool (← Heap.replaceItemViaPointer n parent item replacement))
  | .replaceItemInArray array which newitem => do
    pure (.bool (← cJSONReplaceItemInArray n array which newitem))
  | .replaceItemInObject copy object string replacement caseSensitive => do
    pure (.bool (← Heap.replaceItemInObject n copy object (string.map Name.ptr) replacement caseSensitive))

/-- What the items are then, and what is returned. -/
def Effect (A : Items) (r : Reply) (A' : Items) : Call → Prop
  | .newItem block => r = .item block ∧ A.Made block A'
  | .delete item => r = .nothing ∧ A.Deleted item A'
  | .getArraySize array => A' = A ∧
      r = .size (array.elim 0 fun p => (BitVec.ofNat 32 (A.children p).length).toInt)
  | .getArrayItem array index => A' = A ∧ r = .item (A.itemAt array index)
  | .getObjectItem object name caseSensitive => A' = A ∧ r = .item (A.member object name caseSensitive)
  | .addItemToArray array item => ∃ b, r = .bool b ∧ A.Added array item b A'
  | .addItemToObject copy object string item constantKey =>
    ∃ b, r = .bool b ∧ A.AddedNamed copy object string item constantKey b A'
  | .addItemReferenceToArray block array item => ∃ b, r = .bool b ∧
      if array = none then b = false ∧ A' = A
      else ∃ reference A₁, A.Referenced block item reference A₁ ∧ A₁.Added array reference b A'
  | .addItemReferenceToObject block copy object string item => ∃ b, r = .bool b ∧
      if object = none ∨ string = none then b = false ∧ A' = A
      else ∃ reference A₁, A.Referenced block item reference A₁ ∧
        A₁.AddedNamed copy object string reference false b A'
  | .detachItemViaPointer parent item => ∃ x, r = .item x ∧ A.Detached parent item x A'
  | .detachItemFromArray array which => ∃ x, r = .item x ∧ A.Detached array (A.itemAt array which) x A'
  | .detachItemFromObject object string caseSensitive =>
    ∃ x, r = .item x ∧ A.Detached object (A.member object string caseSensitive) x A'
  | .deleteItemFromArray array which => r = .nothing ∧
      ∃ x A₁, A.Detached array (A.itemAt array which) x A₁ ∧ A₁.Deleted x A'
  | .deleteItemFromObject object string caseSensitive => r = .nothing ∧
      ∃ x A₁, A.Detached object (A.member object string caseSensitive) x A₁ ∧ A₁.Deleted x A'
  | .insertItemInArray array which newitem => ∃ b, r = .bool b ∧ A.Inserted array which newitem b A'
  | .replaceItemViaPointer parent item replacement =>
    ∃ b, r = .bool b ∧ A.Replaced parent item replacement b A'
  | .replaceItemInArray array which newitem =>
    ∃ b, r = .bool b ∧ A.Replaced array (A.itemAt array which) newitem b A'
  | .replaceItemInObject copy object string replacement caseSensitive =>
    ∃ b, r = .bool b ∧ A.ReplacedNamed copy object string replacement caseSensitive b A'

/-- What the caller sees to. -/
def Legal (A : Items) : Call → Prop
  | .newItem block => A.Free block
  | .delete item => A.MayDelete item
  | .getArraySize array => A.Owns array
  | .getArrayItem array _ => A.Owns array
  | .getObjectItem object name _ => A.Owns object ∧ A.MayRead name
  | .addItemToArray array item => A.MayAdd array item
  | .addItemToObject copy object string item constantKey => A.MayAdd object item ∧
      A.MayName none copy string ∧ (constantKey = true → ∀ s ∈ string, s.isConst = true)
  | .addItemReferenceToArray block array item =>
    A.Free block ∧ A.Owns array ∧ ∀ x ∈ item, A.Live x
  | .addItemReferenceToObject block copy object string item =>
    A.Free block ∧ A.Owns object ∧ (∀ x ∈ item, A.Live x) ∧ A.MayName none copy string
  | .detachItemViaPointer parent item => A.MayDetach parent item
  | .detachItemFromArray array _ => A.Owns array
  | .detachItemFromObject object string _ => A.Owns object ∧ A.MayRead string
  | .deleteItemFromArray array _ => A.Owns array
  | .deleteItemFromObject object string _ => A.Owns object ∧ A.MayRead string
  | .insertItemInArray array which newitem => A.Owns array ∧ A.MayAdd array newitem ∧
      (A.itemAt array which ≠ none → newitem ≠ none ∧ newitem ≠ array)
  | .replaceItemViaPointer parent item replacement => A.MayReplace parent item replacement
  | .replaceItemInArray array which newitem =>
    A.Owns array ∧ A.MayReplace array (A.itemAt array which) newitem
  | .replaceItemInObject copy object string replacement _ => A.Owns object ∧
      (∀ y ∈ replacement, A.Live y) ∧ (∀ p ∈ object, ∀ y ∈ replacement, A.Attachable p y) ∧
      A.MayName replacement copy string

end Call

end Heap

end OlegPrinter
