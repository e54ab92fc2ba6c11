import DocTemplate.Dictionary

/-!
# JSON values

Objects keep their members in the order in which they are written, repeated
names included.  Of members with the same name the last one counts.  A number
is kept as it is written.
-/

namespace DocTemplate

inductive Json
  | null
  | bool (value : Bool)
  | number (literal : String)
  | string (value : String)
  | array (items : List Json)
  | object (members : List (String × Json))
deriving Repr, Inhabited

namespace Json

/-- The number of a natural. -/
def natural (value : Nat) : Json := .number (toString value)

/-- The number of an integer. -/
def integer (value : Int) : Json :=
  .number <|
    if value < 0 then "-" ++ toString value.natAbs else toString value.natAbs

/-- The object of a dictionary, with its members in key order. -/
def ofDictionary (dictionary : Dictionary Json) : Json :=
  .object dictionary.entries

/-- The member that counts for a name. -/
def member? (members : List (String × Json)) (name : String) : Option Json :=
  members.reverse.lookup name

end Json
end DocTemplate
