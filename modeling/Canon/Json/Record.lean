import Canon.Double.Reading
import Canon.Json.Basic

/-!
# Records

A record is written as an object, whose members are found by name, or as an array of its fields in their declared
order. An object may hold members that the record does not know, even more than once; one that it knows may occur only
once. What such unknown members hold is not looked at.
-/

namespace Canon.Json

/-- The largest number of arrays and objects around each other in what is looked at. -/
def maxDepth : Nat := 127

/-! ## Fields -/

/-- The member with the given name: none if there is none of it, and a failure if there are two. -/
def member? (name : String) (members : List Member) : Option (Option Json) :=
  match members.filter fun m => m.1 = some name with
  | [] => some none
  | [m] => some (some m.2)
  | _ => none

/-- The members with the given names. The names in the object must all be texts. -/
def membersNamed? (names : List String) (members : List Member) : Option (List (Option Json)) :=
  if members.all fun m => m.1.isSome then names.mapM fun name => member? name members else none

/-- The fields of a record, in the order of their names. An array may leave off fields at its end. -/
def record? (names : List String) : Json → Option (List (Option Json))
  | .object members => membersNamed? names members
  | .array items => if items.length ≤ names.length then some (names.zipIdx.map fun (_, i) => items[i]?) else none
  | _ => none

def orDefault {α : Type} (default : α) (decode : Json → Option α) : Option Json → Option α
  | none => some default
  | some j => decode j

def nullable {α : Type} (decode : Json → Option α) : Json → Option (Option α)
  | .null => some none
  | j => (decode j).map some

def listOf {α : Type} (decode : Json → Option α) (j : Json) : Option (List α) := do
  (← j.items?).mapM decode

/-! ## Numbers -/

def intIn? (low high : Int) (j : Json) : Option Int := do
  let n ← j.int?
  if low ≤ n && n ≤ high then some n else none

def int64? (j : Json) : Option Int64 := (j.intIn? Int64.minValue.toInt Int64.maxValue.toInt).map Int64.ofInt

def uint32? (j : Json) : Option UInt32 := (j.intIn? 0 (UInt32.size - 1 : Nat)).map fun n => UInt32.ofNat n.toNat

def natural? (j : Json) : Option Nat := (j.intIn? 0 (UInt64.size - 1 : Nat)).map Int.toNat

def Number.double? (n : Number) : Option Double := Double.read? n.negative n.numeral

/-- Every number is read as a double, one written as an integer too, unless it is too large. -/
def double? : Json → Option Double
  | .number n => n.double?
  | _ => none

/-! ## Values that are looked at as a whole -/

mutual

/-- Whether a value can be kept: its texts are texts, its numbers fit a double, and it has no more than `room` arrays
and objects around each other. -/
def fits : Nat → Json → Bool
  | _, .null | _, .bool _ => true
  | _, .number n => n.double?.isSome
  | _, .string text => text.isSome
  | 0, .array _ | 0, .object _ => false
  | room + 1, .array items => allFit room items
  | room + 1, .object members => allMembersFit room members

def allFit : Nat → List Json → Bool
  | _, [] => true
  | room, item :: rest => fits room item && allFit room rest

def allMembersFit : Nat → List (Text × Json) → Bool
  | _, [] => true
  | room, (name, value) :: rest => name.isSome && fits room value && allMembersFit room rest

end

end Canon.Json
