import PolicySchema.Table

/-!
# JSON values

A JSON value keeps the members of an object in the order in which they are written, repeated keys
included. `lastOfEach` is the value in which the last member of each key counts.
-/

namespace PolicySchema

/-- A JSON number as it is written: digits before and after the point, and an exponent of ten. -/
structure JsonNumber where
  negative : Bool
  whole : List Nat
  fraction : List Nat
  exponent : Int
  deriving DecidableEq, Repr

/-- A JSON value. -/
inductive Json where
  | null
  | bool (b : Bool)
  | number (n : JsonNumber)
  | string (s : String)
  | array (items : List Json)
  | object (members : List (String × Json))

namespace Json

mutual

/-- The number of arrays and objects that enclose one another along the deepest path. -/
def depth : Json → Nat
  | null | bool _ | number _ | string _ => 0
  | array items => depthItems items + 1
  | object members => depthMembers members + 1

/-- The greatest depth of an item. -/
def depthItems : List Json → Nat
  | [] => 0
  | item :: rest => max (depth item) (depthItems rest)

/-- The greatest depth of a member's value. -/
def depthMembers : List (String × Json) → Nat
  | [] => 0
  | (_, value) :: rest => max (depth value) (depthMembers rest)

end

mutual

/-- The value in which each object has its members in key order and, of several with one key, only
the last. -/
def lastOfEach : Json → Json
  | null => null
  | bool b => bool b
  | number n => number n
  | string s => string s
  | array items => array (lastOfEachItems items)
  | object members => object (Table.ofList (lastOfEachMembers members)).entries

/-- Items with repeated keys inside them removed. -/
def lastOfEachItems : List Json → List Json
  | [] => []
  | item :: rest => lastOfEach item :: lastOfEachItems rest

/-- Members with repeated keys inside their values removed. -/
def lastOfEachMembers : List (String × Json) → List (String × Json)
  | [] => []
  | (key, value) :: rest => (key, lastOfEach value) :: lastOfEachMembers rest

end

mutual

/-- Every number in the value satisfies a condition. -/
def allNumbers (p : JsonNumber → Bool) : Json → Bool
  | null | bool _ | string _ => true
  | number n => p n
  | array items => allNumbersItems p items
  | object members => allNumbersMembers p members

/-- Every number in the items satisfies a condition. -/
def allNumbersItems (p : JsonNumber → Bool) : List Json → Bool
  | [] => true
  | item :: rest => allNumbers p item && allNumbersItems p rest

/-- Every number in the members' values satisfies a condition. -/
def allNumbersMembers (p : JsonNumber → Bool) : List (String × Json) → Bool
  | [] => true
  | (_, value) :: rest => allNumbers p value && allNumbersMembers p rest

end

end Json

end PolicySchema
