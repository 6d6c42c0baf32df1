import YulTree.Text.Basic

/-!
# JSON values

The values in which trees and selections are exchanged.  An object is the list of its
fields, and equality of values is decided by `Json.same`.
-/

namespace YulTree

/-- A JSON value.  A number is its digits without the point, and the number of digits after
the point. -/
inductive Json where
  | null
  | bool (value : Bool)
  | number (digits : Int) (decimals : Nat)
  | string (text : Text)
  | array (items : List Json)
  | object (fields : List (Text × Json))
  deriving Repr

namespace Json

instance : Inhabited Json := ⟨.null⟩

def integer (value : Int) : Json := .number value 0

def natural (value : Nat) : Json := .integer value

mutual

def same : Json → Json → Bool
  | .null, .null => true
  | .bool a, .bool b => a == b
  | .number a m, .number b n => a == b && m == n
  | .string a, .string b => a == b
  | .array a, .array b => sameItems a b
  | .object a, .object b => sameFields a b
  | _, _ => false

def sameItems : List Json → List Json → Bool
  | [], [] => true
  | a :: rest, b :: others => same a b && sameItems rest others
  | _, _ => false

def sameFields : List (Text × Json) → List (Text × Json) → Bool
  | [], [] => true
  | (name, a) :: rest, (label, b) :: others =>
      name == label && same a b && sameFields rest others
  | _, _ => false

end

mutual

theorem same_iff : ∀ a b : Json, same a b = true ↔ a = b
  | .null, b => by cases b <;> simp [same]
  | .bool _, b => by cases b <;> simp [same]
  | .number _ _, b => by cases b <;> simp [same]
  | .string _, b => by cases b <;> simp [same]
  | .array items, b => by cases b <;> simp [same, sameItems_iff items]
  | .object fields, b => by cases b <;> simp [same, sameFields_iff fields]

private theorem sameItems_iff : ∀ a b : List Json, sameItems a b = true ↔ a = b
  | [], b => by cases b <;> simp [sameItems]
  | a :: rest, b => by cases b <;> simp [sameItems, same_iff a, sameItems_iff rest]

private theorem sameFields_iff :
    ∀ a b : List (Text × Json), sameFields a b = true ↔ a = b
  | [], b => by cases b <;> simp [sameFields]
  | (name, a) :: rest, b => by
      cases b <;> simp [sameFields, same_iff a, sameFields_iff rest, Prod.ext_iff]

end

instance : DecidableEq Json := fun a b => decidable_of_iff _ (same_iff a b)

end Json

end YulTree
