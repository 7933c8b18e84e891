/-!
# JSON values

`Json` is the tree that a JSON text denotes. A number is an integer of 64 bits,
with a sign or without one, or a finite double. An object is the list of its
members; `insertMember` keeps such a list sorted by name, with one member a
name, which is the form objects have once they are read.
-/

namespace RowGuard

/-- A JSON number. -/
inductive Number where
  | int (n : Int) (fits : -0x8000000000000000 ≤ n ∧ n < 0x10000000000000000)
  | float (x : Float) (finite : x.isFinite = true)

/-- A signed word as a number. -/
def Number.ofInt64 (n : Int64) : Number :=
  .int n.toInt ⟨Int64.le_toInt n, by have := Int64.toInt_lt n; omega⟩

/-- An unsigned word as a number. -/
def Number.ofUInt64 (n : UInt64) : Number :=
  .int n.toNat ⟨by omega, by have := n.toNat_lt; omega⟩

/-- An integer as a number, if it fits. -/
def Number.ofInt? (n : Int) : Option Number :=
  if fits : -0x8000000000000000 ≤ n ∧
    n < 0x10000000000000000 then some (.int n fits) else none

/-- A double as a number, if it is finite. -/
def Number.ofFloat? (x : Float) : Option Number :=
  if finite : x.isFinite = true then some (.float x finite) else none

/-- A JSON value. -/
inductive Json where
  | null
  | bool (b : Bool)
  | number (n : Number)
  | string (s : String)
  | array (items : List Json)
  | object (members : List (String × Json))

namespace Json

/-- A count as a JSON number. -/
def count (n : Nat) : Json := .number (.ofUInt64 (.ofNat n))

/-- Sets the member `name` of a list sorted by name. A later value replaces an
earlier one. -/
def insertMember {α : Type} (name : String) (value : α) :
    List (String × α) → List (String × α)
  | [] => [(name, value)]
  | (other, kept) :: rest =>
    if name < other then (name, value) :: (other, kept) :: rest
    else if name = other then (name, value) :: rest
    else (other, kept) :: insertMember name value rest

/-- The members sorted by name; of several with one name the last stays. -/
def sortMembers {α : Type} (members : List (String × α)) : List (String × α) :=
  members.foldl (fun sorted member => insertMember member.1 member.2 sorted) []

/-- The string in a JSON string. -/
def string? : Json → Option String
  | .string s => some s
  | _ => none

/-- The member called `name` of an object. -/
def member? (name : String) : Json → Option Json
  | .object members => members.lookup name
  | _ => none

end Json

end RowGuard
