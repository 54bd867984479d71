import Canon.Json.Basic

/-!
# Reading JSON

The reader is a machine that takes one byte at a time and keeps the arrays and objects that are still open on a stack,
so a text of any depth is read without recursion. It accepts strict JSON: no comments, no trailing commas, no leading
zeros, no raw control characters in strings and nothing after the value.

Only the grammar is checked here. A string literal that spells no text and a number too large for a double are read
like any other, and it is for the decoder to say whether they matter.
-/

namespace Canon.Json

def isBlank (c : Char) : Bool := c = ' ' || c = '\n' || c = '\r' || c = '\t'

/-! ## String literals -/

/-- What a string literal is made of: a byte, or a UTF-16 unit that a `\u` escape spells. -/
inductive Piece where
  | byte (value : UInt8)
  | unit (value : Nat)
  deriving DecidableEq, Repr

def isLeading (u : Nat) : Bool := 0xD800 ≤ u && u < 0xDC00
def isTrailing (u : Nat) : Bool := 0xDC00 ≤ u && u < 0xE000

/-- The bytes that the pieces stand for, or none where a surrogate has no partner. -/
def pieceBytes : List Piece → Option (List UInt8)
  | [] => some []
  | .byte b :: rest => (pieceBytes rest).map (b :: ·)
  | .unit u :: rest =>
    if isTrailing u then none
    else if isLeading u then
      match rest with
      | .unit v :: rest =>
        if isTrailing v then
          let c := Char.ofNat (0x10000 + (u - 0xD800) * 0x400 + (v - 0xDC00))
          (pieceBytes rest).map (c.toString.toUTF8.toList ++ ·)
        else none
      | _ => none
    else (pieceBytes rest).map ((Char.ofNat u).toString.toUTF8.toList ++ ·)

def textOf (pieces : List Piece) : Text :=
  (pieceBytes pieces).bind fun bytes => String.fromUTF8? ⟨bytes.toArray⟩

inductive Escape where
  | none
  | backslash
  | hex (count : Nat) (value : Nat)
  deriving DecidableEq, Repr

def shortEscape : Char → Option UInt8
  | '"' => some 0x22
  | '\\' => some 0x5C
  | '/' => some 0x2F
  | 'b' => some 0x08
  | 'f' => some 0x0C
  | 'n' => some 0x0A
  | 'r' => some 0x0D
  | 't' => some 0x09
  | _ => none

def hexDigit? (c : Char) : Option Nat :=
  if c.isDigit then some (c.toNat - '0'.toNat)
  else if 'a' ≤ c && c ≤ 'f' then some (c.toNat - 'a'.toNat + 10)
  else if 'A' ≤ c && c ≤ 'F' then some (c.toNat - 'A'.toNat + 10)
  else Option.none

/-! ## Number literals -/

/-- The last part of a number literal read so far. -/
inductive NumberPart where
  | sign | zero | whole | point | fraction | mark | exponentSign | exponent
  deriving DecidableEq, Repr

structure NumberDraft where
  negative : Bool
  whole : Nat
  /-- The digits behind the point, latest first. -/
  fraction : List (Fin 10)
  exponentNegative : Bool
  exponent : Nat
  part : NumberPart
  deriving DecidableEq, Repr

namespace NumberDraft

def start? (c : Char) : Option NumberDraft :=
  if c = '-' then some ⟨true, 0, [], false, 0, .sign⟩
  else if c = '0' then some ⟨false, 0, [], false, 0, .zero⟩
  else if c.isDigit then some ⟨false, (digitValue c).val, [], false, 0, .whole⟩
  else none

/-- The literal with one character more, or none if the character does not belong to it. -/
def extend? (d : NumberDraft) (c : Char) : Option NumberDraft :=
  let digit := digitValue c
  match d.part with
  | .sign =>
    if c = '0' then some { d with part := .zero }
    else if c.isDigit then some { d with whole := digit.val, part := .whole }
    else none
  | .zero =>
    if c = '.' then some { d with part := .point }
    else if c = 'e' || c = 'E' then some { d with part := .mark }
    else none
  | .whole =>
    if c.isDigit then some { d with whole := d.whole * 10 + digit.val }
    else if c = '.' then some { d with part := .point }
    else if c = 'e' || c = 'E' then some { d with part := .mark }
    else none
  | .point =>
    if c.isDigit then some { d with fraction := digit :: d.fraction, part := .fraction }
    else none
  | .fraction =>
    if c.isDigit then some { d with fraction := digit :: d.fraction }
    else if c = 'e' || c = 'E' then some { d with part := .mark }
    else none
  | .mark =>
    if c = '+' then some { d with part := .exponentSign }
    else if c = '-' then some { d with exponentNegative := true, part := .exponentSign }
    else if c.isDigit then some { d with exponent := digit.val, part := .exponent }
    else none
  | .exponentSign =>
    if c.isDigit then some { d with exponent := digit.val, part := .exponent }
    else none
  | .exponent =>
    if c.isDigit then some { d with exponent := d.exponent * 10 + digit.val }
    else none

def number? (d : NumberDraft) : Option Number :=
  let exponent : Int := if d.exponentNegative then -(d.exponent : Int) else d.exponent
  match d.part with
  | .zero | .whole => some ⟨d.negative, { whole := d.whole }⟩
  | .fraction => some ⟨d.negative, { whole := d.whole, fraction := d.fraction.reverse }⟩
  | .exponent => some ⟨d.negative, { whole := d.whole, fraction := d.fraction.reverse, exponent := some exponent }⟩
  | .sign | .point | .mark | .exponentSign => none

end NumberDraft

/-! ## The machine -/

/-- An array or an object that is still open, with what it holds so far, latest first. -/
inductive Frame where
  | items (done : List Json)
  | members (done : List Member) (name : Text)

inductive Purpose where
  | value
  | name (done : List Member)

inductive Mode where
  /-- A value, or the end of the array that has just been opened. -/
  | value (mayClose : Bool)
  /-- The name of a member, or the end of the object that has just been opened. -/
  | name (done : List Member) (mayClose : Bool)
  | colon (done : List Member) (name : Text)
  | word (rest : List Char) (value : Json)
  | number (draft : NumberDraft)
  | string (purpose : Purpose) (pieces : List Piece) (escape : Escape)
  /-- A value is complete. -/
  | after (value : Json)

structure State where
  mode : Mode
  stack : List Frame

def State.start : State := ⟨.value false, []⟩

def beginValue (c : Char) (stack : List Frame) : Option State :=
  match c with
  | '{' => some ⟨.name [] true, stack⟩
  | '[' => some ⟨.value true, .items [] :: stack⟩
  | '"' => some ⟨.string .value [] .none, stack⟩
  | 't' => some ⟨.word ['r', 'u', 'e'] (.bool true), stack⟩
  | 'f' => some ⟨.word ['a', 'l', 's', 'e'] (.bool false), stack⟩
  | 'n' => some ⟨.word ['u', 'l', 'l'] .null, stack⟩
  | _ => (NumberDraft.start? c).map fun draft => ⟨.number draft, stack⟩

/-- A value is complete, and what follows it decides what it belongs to. -/
def endValue (value : Json) (c : Char) (stack : List Frame) : Option State :=
  match c, stack with
  | ',', .items done :: stack => some ⟨.value false, .items (value :: done) :: stack⟩
  | ',', .members done name :: stack => some ⟨.name ((name, value) :: done) false, stack⟩
  | ']', .items done :: stack => some ⟨.after (.array (value :: done).reverse), stack⟩
  | '}', .members done name :: stack => some ⟨.after (.object ((name, value) :: done).reverse), stack⟩
  | c, stack => if isBlank c then some ⟨.after value, stack⟩ else none

def endString (purpose : Purpose) (pieces : List Piece) (stack : List Frame) : State :=
  let text := textOf pieces.reverse
  match purpose with
  | .value => ⟨.after (.string text), stack⟩
  | .name done => ⟨.colon done text, stack⟩

def stepString (purpose : Purpose) (pieces : List Piece) (escape : Escape) (b : UInt8)
    (stack : List Frame) : Option State :=
  let c := Char.ofUInt8 b
  match escape with
  | .none =>
    if c = '"' then some (endString purpose pieces stack)
    else if c = '\\' then some ⟨.string purpose pieces .backslash, stack⟩
    else if b < 0x20 then none
    else some ⟨.string purpose (.byte b :: pieces) .none, stack⟩
  | .backslash =>
    if c = 'u' then some ⟨.string purpose pieces (.hex 0 0), stack⟩
    else (shortEscape c).map fun b => ⟨.string purpose (.byte b :: pieces) .none, stack⟩
  | .hex count value =>
    (hexDigit? c).map fun d =>
      let value := value * 16 + d
      if count = 3 then ⟨.string purpose (.unit value :: pieces) .none, stack⟩
      else ⟨.string purpose pieces (.hex (count + 1) value), stack⟩

def step (s : State) (b : UInt8) : Option State :=
  let c := Char.ofUInt8 b
  match s.mode with
  | .value mayClose =>
    if isBlank c then some s
    else match c, mayClose, s.stack with
      | ']', true, .items _ :: stack => some ⟨.after (.array []), stack⟩
      | _, _, _ => beginValue c s.stack
  | .name done mayClose =>
    if isBlank c then some s
    else if c = '"' then some ⟨.string (.name done) [] .none, s.stack⟩
    else if c = '}' && mayClose then some ⟨.after (.object []), s.stack⟩
    else none
  | .colon done name =>
    if isBlank c then some s
    else if c = ':' then some ⟨.value false, .members done name :: s.stack⟩
    else none
  | .word rest value =>
    match rest with
    | [] => endValue value c s.stack
    | next :: rest => if c = next then some ⟨.word rest value, s.stack⟩ else none
  | .number draft =>
    match draft.extend? c with
    | some draft => some ⟨.number draft, s.stack⟩
    | none => draft.number?.bind fun n => endValue (.number n) c s.stack
  | .string purpose pieces escape => stepString purpose pieces escape b s.stack
  | .after value => endValue value c s.stack

def State.value? (s : State) : Option Json :=
  match s.mode, s.stack with
  | .after value, [] => some value
  | .word [] value, [] => some value
  | .number draft, [] => draft.number?.map .number
  | _, _ => none

/-- The value that the bytes spell, if they are one strict JSON text. -/
def read? (bytes : List UInt8) : Option Json :=
  (bytes.foldlM step State.start).bind State.value?

end Canon.Json
