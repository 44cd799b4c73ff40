import EntityQuery.Number.Binary64

/-!
# JSON values

The values of JSON, with whole numbers apart from fractional ones and the members of an object in
the order in which they were written. A repeated key stays: what to make of it is up to the one who
reads the object.
-/

namespace EntityQuery

/-- A JSON value. -/
inductive Json
  | null
  | bool (b : Bool)
  /-- A number written without fraction and exponent. -/
  | int (n : Int)
  /-- Any other number. -/
  | float (x : Binary64)
  | string (s : String)
  | array (items : List Json)
  | object (members : List (String × Json))

namespace Json

/-- An optional value, `null` when there is none. -/
def ofOption {α : Type} (encode : α → Json) : Option α → Json
  | none => null
  | some a => encode a

/-- A list of values. -/
def ofList {α : Type} (encode : α → Json) (as : List α) : Json := array (as.map encode)

/-- A natural number. -/
def ofNat (n : Nat) : Json := int n

/-- The members of an object by key: of equal keys the last one counts. -/
def insertMember (key : String) (value : Json) :
    List (String × Json) → List (String × Json)
  | [] => [(key, value)]
  | (k, v) :: rest =>
    if key < k then (key, value) :: (k, v) :: rest
    else if key = k then (k, value) :: rest
    else (k, v) :: insertMember key value rest

/-- A value with the members of every object in ascending order of their keys, each key once with
its last value. -/
def sorted : Json → Json
  | array items => array (sortedItems items)
  | object members =>
    object ((sortedMembers members).foldl (fun done (k, v) => insertMember k v done) [])
  | other => other
where
  /-- A list with every value sorted. -/
  sortedItems : List Json → List Json
    | [] => []
    | x :: xs => sorted x :: sortedItems xs
  /-- Members with every value sorted. -/
  sortedMembers : List (String × Json) → List (String × Json)
    | [] => []
    | (k, v) :: rest => (k, sorted v) :: sortedMembers rest

/-- How deep a value is nested; one that is neither array nor object has depth one. -/
def depth : Json → Nat
  | array items => 1 + itemsDepth items
  | object members => 1 + membersDepth members
  | _ => 1
where
  /-- The greatest depth of some values, zero when there are none. -/
  itemsDepth : List Json → Nat
    | [] => 0
    | x :: xs => max (depth x) (itemsDepth xs)
  /-- The greatest depth of the values of some members, zero when there are none. -/
  membersDepth : List (String × Json) → Nat
    | [] => 0
    | (_, v) :: rest => max (depth v) (membersDepth rest)

/-- The value of a member of an object: the last one under the key. -/
def get? (key : String) : Json → Option Json
  | object members => (members.reverse.find? fun m => m.1 == key).map (·.2)
  | _ => none

end Json

end EntityQuery
