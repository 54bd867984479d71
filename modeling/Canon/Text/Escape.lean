/-!
# Escapes

String literals and the symbols of native functions are printed between quotes. Exactly newline, tab, carriage return,
backslash and single quote are written as a backslash and a letter; everything else is copied.
-/

namespace Canon.Text

/-- The character that stands for `c` behind a backslash. -/
def escapeLetter : Char → Option Char
  | '\n' => some 'n'
  | '\t' => some 't'
  | '\r' => some 'r'
  | '\\' => some '\\'
  | '\'' => some '\''
  | _ => none

def needsEscape (c : Char) : Bool :=
  c = '\n' || c = '\t' || c = '\r' || c = '\\' || c = '\''

def escapeChar (c : Char) : List Char :=
  match escapeLetter c with
  | some letter => ['\\', letter]
  | none => [c]

def escapeChars (s : List Char) : List Char := s.flatMap escapeChar

/-- A text made safe between quotes. A text in which nothing had to change is passed on as it is. -/
inductive Escaped where
  | unchanged (text : String)
  | rewritten (text : String)
  deriving DecidableEq, Repr

def Escaped.text : Escaped → String
  | .unchanged text => text
  | .rewritten text => text

def Escaped.isUnchanged : Escaped → Bool
  | .unchanged _ => true
  | .rewritten _ => false

def escape (s : String) : Escaped :=
  if s.toList.any needsEscape then .rewritten (String.ofList (escapeChars s.toList)) else .unchanged s

/-! ## The test and the table name the same characters -/

theorem needsEscape_iff (c : Char) : needsEscape c = true ↔ (escapeLetter c).isSome := by
  unfold needsEscape escapeLetter
  split <;> simp_all

theorem escapeChar_of_not_needsEscape {c : Char} (h : needsEscape c = false) : escapeChar c = [c] := by
  have hn : escapeLetter c = none := by
    cases hl : escapeLetter c with
    | none => rfl
    | some letter => simp [(needsEscape_iff c).mpr (by simp [hl])] at h
  simp [escapeChar, hn]

/-- Both ways of building the text give the text that the table spells. -/
theorem escape_text (s : String) : (escape s).text = String.ofList (escapeChars s.toList) := by
  unfold escape
  split
  · rfl
  · next h =>
    have hall : ∀ c ∈ s.toList, escapeChar c = [c] := fun c hc =>
      escapeChar_of_not_needsEscape (by
        cases hn : needsEscape c with
        | false => rfl
        | true => exact absurd (List.any_eq_true.mpr ⟨c, hc, hn⟩) h)
    have hcopy : ∀ l : List Char, (∀ c ∈ l, escapeChar c = [c]) → escapeChars l = l := by
      intro l
      induction l with
      | nil => intro _; rfl
      | cons c l ih =>
        intro hl
        have hcons : escapeChars (c :: l) = escapeChar c ++ escapeChars l := rfl
        rw [hcons, hl c (by simp), ih (fun d hd => hl d (by simp [hd]))]
        rfl
    rw [hcopy _ hall]
    simp [Escaped.text]

end Canon.Text
