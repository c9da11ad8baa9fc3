/-!
# JSON values

The values of JSON, as far as tokens need them: natural numbers are apart from all other
numbers. A record is read from an object or from an array, by the list of its fields.
-/

namespace GrammarTokens

/-- A JSON value. A number that is not written as a natural number is kept as it is written. -/
inductive Json where
  | null
  | bool (b : Bool)
  | natural (n : Nat)
  | number (written : String)
  | string (s : String)
  | array (items : List Json)
  | object (fields : List (String × Json))
deriving Repr, Inhabited

namespace Json

/-- The fields with one of them set to a value. -/
def insert (fields : List (String × Json)) (name : String) (value : Json) :
    List (String × Json) :=
  match fields with
  | [] => [(name, value)]
  | field :: later =>
    if field.1 = name then (name, value) :: later else field :: insert later name value

/-- An object. Of fields with the same name the last one counts. -/
def ofFields (fields : List (String × Json)) : Json :=
  object (fields.foldl (fun fields field => insert fields field.1 field.2) [])

/-- A number of 64 bits. -/
def toNat? : Json → Option Nat
  | natural n => if n < UInt64.size then some n else none
  | _ => none

/-- A string. -/
def toString? : Json → Option String
  | string s => some s
  | _ => none

/-- The values of a record's fields: from an object by their names, where other fields do not
matter, or from an array of exactly these fields in their order. -/
def record? (names : List String) : Json → Option (List Json)
  | object fields => names.mapM fun name => fields.lookup name
  | array items => if items.length = names.length then some items else none
  | _ => none

end Json

end GrammarTokens
