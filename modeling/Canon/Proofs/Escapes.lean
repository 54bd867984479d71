import Canon.Proofs.Literals

/-!
# Undoing escapes

Escaped text is read back character by character, and each character is known to have been escaped or copied. What is
escaped is nothing that a reader between single quotes would stop at, so the symbol of a native function is read back
from its declaration, whatever the symbol is and whatever follows.
-/

namespace Canon

open Print

namespace Text

/-- The characters that a text stands for, each with whether it is written as an escape. A backslash before any other
letter stands for itself. -/
def readEscapes : List Char → List (Char × Bool)
  | [] => []
  | '\\' :: letter :: rest =>
    match unescapeLetter letter with
    | some c => (c, true) :: readEscapes rest
    | none => ('\\', false) :: readEscapes (letter :: rest)
  | c :: rest => (c, false) :: readEscapes rest

/-- Puts the character in place of each escape, and copies all else. -/
def unescape (text : List Char) : List Char := (readEscapes text).map Prod.fst

/-- The text of the symbol of a native function. -/
def symbolText (s : String) : String := "'" ++ (escape s).text ++ "'"

/-- Reads the symbol of a native function, and tells what follows it. -/
def readSymbol : List Char → Option (List Char × List Char)
  | '\'' :: text => readQuoted '\'' text
  | _ => none

/-! ## Character by character -/

theorem readEscapes_escaped {letter c : Char} (h : unescapeLetter letter = some c) (rest : List Char) :
    readEscapes ('\\' :: letter :: rest) = (c, true) :: readEscapes rest := by
  rw [readEscapes, h]

theorem readEscapes_plain {c : Char} (hc : c ≠ '\\') (rest : List Char) :
    readEscapes (c :: rest) = (c, false) :: readEscapes rest := by
  rw [readEscapes.eq_3 _ _ fun _ _ h => absurd h hc]

theorem readEscapes_escapeChars (text rest : List Char) :
    readEscapes (escapeChars text ++ rest) = text.map (fun c => (c, needsEscape c)) ++ readEscapes rest := by
  induction text with
  | nil => rfl
  | cons c text ih =>
    have hmark := needsEscape_iff c
    rw [escapeChars, List.flatMap_cons, List.append_assoc, ← escapeChars, escapeChar, List.map_cons, List.cons_append]
    cases hletter : escapeLetter c with
    | some letter =>
      have hescaped : needsEscape c = true := hmark.mpr (by rw [hletter, Option.isSome_some])
      simp only [List.cons_append, List.nil_append]
      rw [readEscapes_escaped (unescapeLetter_escapeLetter hletter), ih, hescaped]
    | none =>
      have hcopied : needsEscape c = false := by
        rw [Bool.eq_false_iff]
        intro hneeds
        rw [hletter] at hmark
        cases hmark.mp hneeds
      simp only [List.cons_append, List.nil_append]
      rw [readEscapes_plain (ne_backslash hletter), ih, hcopied]

theorem readEscapes_escape (s : String) :
    readEscapes (escape s).text.toList = s.toList.map fun c => (c, needsEscape c) := by
  have h := readEscapes_escapeChars s.toList []
  rw [List.append_nil] at h
  rw [escape_text, String.toList_ofList, h]
  simp [readEscapes]

theorem unescape_escape (s : String) : unescape (escape s).text.toList = s.toList := by
  rw [unescape, readEscapes_escape, List.map_map]
  simp [Function.comp_def]

theorem escaped_of_mem_readEscapes {s : String} {c : Char} (hc : needsEscape c = true) :
    (c, false) ∉ readEscapes (escape s).text.toList := by
  rw [readEscapes_escape]
  intro hmem
  obtain ⟨d, -, hd⟩ := List.mem_map.mp hmem
  obtain ⟨rfl, hcopied⟩ := Prod.mk.inj hd
  rw [hc] at hcopied
  cases hcopied

/-! ## Between single quotes -/

theorem readSymbol_symbolText (s : String) (rest : List Char) :
    readSymbol ((symbolText s).toList ++ rest) = some (s.toList, rest) := by
  have hquoted : ∀ c ∈ s.toList, escapeLetter c = none → c ≠ '\'' := by
    rintro c - hcopied rfl
    cases hcopied
  have hread := readQuoted_escapeChars (by decide : '\'' ≠ '\\') hquoted rest
  simpa [symbolText, escape_text, readSymbol] using hread

theorem needsEscape_iff_mem (c : Char) : needsEscape c = true ↔ c ∈ ['\n', '\t', '\r', '\\', '\''] := by
  simp [needsEscape]
  tauto

theorem escape_isUnchanged_iff (s : String) :
    (escape s).isUnchanged = true ↔ ∀ c ∈ s.toList, c ∉ ['\n', '\t', '\r', '\\', '\''] := by
  simp only [← needsEscape_iff_mem]
  unfold escape
  split
  · next hany =>
    obtain ⟨c, hc, hneeds⟩ := List.any_eq_true.mp hany
    simp only [Escaped.isUnchanged, Bool.false_eq_true, false_iff]
    intro hnone
    exact hnone c hc hneeds
  · next hany =>
    simp only [Escaped.isUnchanged, true_iff]
    intro c hc hneeds
    exact hany (List.any_eq_true.mpr ⟨c, hc, hneeds⟩)

end Text

/-! ## The declaration of a native function -/

/-- The declaration of a function up to its parameters. -/
def FunctionDecl.header (function : FunctionDecl) : String :=
  "function " ++ function.returnType.keyword ++ " " ++ function.name ++ "(" ++
    ((", ".intercalate (function.params.map fun param => param.type.keyword ++ " " ++ param.name)) ++ ")")

namespace Program

theorem printFunction_native {p : Program} {id : FunctionId} {function : FunctionDecl} {symbol : String}
    (hfound : p.function id = .ok function) (hbody : function.body = .native symbol) (self : NodeId → Print Unit) :
    p.printFunction self id =
      (do writeIndent
          write (function.header ++ " native " ++ Text.symbolText symbol ++ ";\n") : Print Unit) := by
  have hparams : commaSeparated (fun param => write (param.type.keyword ++ " " ++ param.name)) function.params =
      write (", ".intercalate (function.params.map fun param => param.type.keyword ++ " " ++ param.name)) := by
    apply commaSeparated_write
    rw [List.forall₂_map_right_iff]
    exact List.forall₂_same.mpr fun _ _ => rfl
  have hopen : " native '" = " native " ++ "'" := rfl
  have hclose : "';\n" = "'" ++ ";\n" := rfl
  unfold printFunction
  rw [hfound, look_ok, pure_bind, hbody, hparams, hopen, hclose]
  simp only [FunctionDecl.header, Text.symbolText, String.append_assoc, write_append, bind_assoc]

/-- Escaped text is undone to what was escaped, and holds no raw line feed, tab, carriage return or single quote. The
symbol of a native function is read back from its declaration, whatever follows. Text is passed on as it is exactly if
nothing in it has to be escaped, and then too it is what the table of escapes spells. -/
theorem escape_reversible (s : String) :
    Text.unescape (Text.escape s).text.toList = s.toList ∧
    (∀ c ∈ ['\n', '\t', '\r'], c ∉ (Text.escape s).text.toList) ∧
    ('\'', false) ∉ Text.readEscapes (Text.escape s).text.toList ∧
    (∀ rest, Text.readSymbol ((Text.symbolText s).toList ++ rest) = some (s.toList, rest)) ∧
    (∀ p : Program, ∀ self id function, p.function id = .ok function → function.body = .native s →
      p.printFunction self id =
        (do writeIndent
            write (function.header ++ " native " ++ Text.symbolText s ++ ";\n") : Print Unit)) ∧
    ((Text.escape s).isUnchanged = true ↔ ∀ c ∈ s.toList, c ∉ ['\n', '\t', '\r', '\\', '\'']) ∧
    (Text.escape s).text = String.ofList (Text.escapeChars s.toList) := by
  refine ⟨Text.unescape_escape s, ?_, Text.escaped_of_mem_readEscapes rfl, Text.readSymbol_symbolText s, ?_,
    Text.escape_isUnchanged_iff s, Text.escape_text s⟩
  · intro c hc
    rw [Text.escape_text, String.toList_ofList]
    simp only [List.mem_cons, List.not_mem_nil, or_false] at hc
    rcases hc with rfl | rfl | rfl <;> exact Text.not_mem_escapeChars rfl rfl s.toList
  · intro p self id function hfound hbody
    exact printFunction_native hfound hbody self

/-- A symbol with a quote behind a backslash, a tab, and a letter behind two backslashes. -/
def quotedSymbol : String := "it\\'s\t\\\\n"

def quotingFunction : FunctionDecl := ⟨"f", .int, [⟨"x", .double⟩, ⟨"s", .string⟩], .native quotedSymbol⟩

def quoting : Program := ⟨#[.block ⟨0⟩ []], #[{ functions := [⟨0⟩] }], #[], #[quotingFunction], ⟨0⟩⟩

theorem escape_reversible_quoting : (Text.escape quotedSymbol).text = "it\\\\\\'s\\t\\\\\\\\n" ∧
    Text.unescape "it\\\\\\'s\\t\\\\\\\\n".toList = quotedSymbol.toList ∧
    '\t' ∉ "it\\\\\\'s\\t\\\\\\\\n".toList ∧
    quoting.printFunction (fun _ => pure ()) ⟨0⟩ =
      (do writeIndent
          write "function int f(double x, string s) native 'it\\\\\\'s\\t\\\\\\\\n';\n" : Print Unit) ∧
    (∀ rest, Text.readSymbol ("'it\\\\\\'s\\t\\\\\\\\n'".toList ++ rest) = some (quotedSymbol.toList, rest)) ∧
    (Text.escape quotedSymbol).isUnchanged = false := by
  obtain ⟨hundone, hraw, -, hread, hprint, hunchanged, -⟩ := escape_reversible quotedSymbol
  have hescaped : (Text.escape quotedSymbol).text = "it\\\\\\'s\\t\\\\\\\\n" := by decide +kernel
  have hsymbol : Text.symbolText quotedSymbol = "'it\\\\\\'s\\t\\\\\\\\n'" := by decide +kernel
  have hheader : quotingFunction.header = "function int f(double x, string s)" := by decide +kernel
  have hline := hprint quoting (fun _ => pure ()) ⟨0⟩ quotingFunction rfl rfl
  rw [hescaped] at hundone hraw
  rw [hsymbol] at hread hline
  rw [hheader] at hline
  refine ⟨hescaped, hundone, hraw '\t' (by decide), hline, hread, ?_⟩
  rw [Bool.eq_false_iff]
  intro hpassed
  exact hunchanged.mp hpassed '\t' (by decide) (by decide)

end Program

end Canon
