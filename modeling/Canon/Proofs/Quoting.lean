import Canon.Text.Escape

/-!
# Reading quoted text

What stands between quotes is read back by undoing the five escapes up to the first quote that is not escaped.
-/

namespace Canon.Text

/-- The character that a letter behind a backslash stands for. -/
def unescapeLetter : Char → Option Char
  | 'n' => some '\n'
  | 't' => some '\t'
  | 'r' => some '\r'
  | '\\' => some '\\'
  | '\'' => some '\''
  | _ => none

/-- Reads up to the closing quote, and tells what follows it. A backslash before any other letter is copied. -/
def readQuoted (quote : Char) : List Char → Option (List Char × List Char)
  | [] => none
  | '\\' :: letter :: rest =>
    match unescapeLetter letter with
    | some c => (readQuoted quote rest).map fun (text, after) => (c :: text, after)
    | none => (readQuoted quote (letter :: rest)).map fun (text, after) => ('\\' :: text, after)
  | c :: rest =>
    if c = quote then some ([], rest) else (readQuoted quote rest).map fun (text, after) => (c :: text, after)

theorem unescapeLetter_escapeLetter {c letter : Char} (h : escapeLetter c = some letter) :
    unescapeLetter letter = some c := by
  unfold escapeLetter at h
  split at h <;> first
    | (cases h; rfl)
    | cases h

theorem ne_backslash {c : Char} (h : escapeLetter c = none) : c ≠ '\\' := by
  rintro rfl
  cases h

theorem not_mem_escapeChars {c : Char} (hescaped : needsEscape c = true) (hletter : unescapeLetter c = none)
    (text : List Char) : c ∉ escapeChars text := by
  intro hmem
  obtain ⟨d, -, hd⟩ := List.mem_flatMap.mp hmem
  unfold escapeChar at hd
  split at hd
  · next letter hwritten =>
    simp only [List.mem_cons, List.not_mem_nil, or_false] at hd
    rcases hd with rfl | rfl
    · simp [unescapeLetter] at hletter
    · simp [unescapeLetter_escapeLetter hwritten] at hletter
  · next hcopied =>
    obtain rfl := List.mem_singleton.mp hd
    simp [needsEscape_iff, hcopied] at hescaped

theorem readQuoted_escaped {quote letter c : Char} (h : unescapeLetter letter = some c) (rest : List Char) :
    readQuoted quote ('\\' :: letter :: rest) =
      (readQuoted quote rest).map fun (text, after) => (c :: text, after) := by
  rw [readQuoted, h]

theorem readQuoted_plain {quote c : Char} (hc : c ≠ '\\') (hquote : c ≠ quote) (rest : List Char) :
    readQuoted quote (c :: rest) = (readQuoted quote rest).map fun (text, after) => (c :: text, after) := by
  rw [readQuoted.eq_3 _ _ _ fun _ _ h => absurd h hc, if_neg hquote]

theorem readQuoted_close {quote : Char} (hquote : quote ≠ '\\') (rest : List Char) :
    readQuoted quote (quote :: rest) = some ([], rest) := by
  rw [readQuoted.eq_3 _ _ _ fun _ _ h => absurd h hquote, if_pos rfl]

theorem readQuoted_escapeChars {quote : Char} (hquote : quote ≠ '\\') {text : List Char}
    (htext : ∀ c ∈ text, escapeLetter c = none → c ≠ quote) (rest : List Char) :
    readQuoted quote (escapeChars text ++ quote :: rest) = some (text, rest) := by
  induction text with
  | nil => exact readQuoted_close hquote rest
  | cons c text ih =>
    have hrest := ih fun d hd => htext d (List.mem_cons_of_mem _ hd)
    rw [escapeChars, List.flatMap_cons, List.append_assoc, ← escapeChars, escapeChar]
    cases hletter : escapeLetter c with
    | some letter =>
      simp only [List.cons_append, List.nil_append]
      rw [readQuoted_escaped (unescapeLetter_escapeLetter hletter), hrest]
      rfl
    | none =>
      simp only [List.cons_append, List.nil_append]
      rw [readQuoted_plain (ne_backslash hletter) (htext c List.mem_cons_self hletter), hrest]
      rfl

end Canon.Text
