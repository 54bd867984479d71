import Canon.Proofs.DoubleText
import Canon.Proofs.Quoting
import Canon.Proofs.Safety

/-!
# String literals

A string literal is written between double quotes, and a double quote in it is not escaped. It is therefore read back if
it has none; if it has one, it is read up to there. What a list of literals tells is what they come to with the text
between two literals put between them, which may itself be part of a literal.
-/

namespace Canon

open Print

namespace Text

/-- The text of a string literal. -/
def literal (s : String) : String := "\"" ++ (escape s).text ++ "\""

/-- Reads a string literal, and tells what follows it. -/
def readLiteral : List Char → Option (List Char × List Char)
  | '"' :: text => readQuoted '"' text
  | _ => none

/-- What stands between the contents of two literals in a list. -/
def literalBreak : String := "\", \""

/-- The text of a print statement with these literals. -/
def printed (literals : List String) : String := "print(" ++ (", ".intercalate (literals.map literal) ++ ")")

/-! ## One literal -/

theorem literal_chars (s : String) : (literal s).toList = '"' :: (escapeChars s.toList ++ ['"']) := by
  simp [literal, escape_text]

theorem escapeChars_append (s t : List Char) : escapeChars (s ++ t) = escapeChars s ++ escapeChars t :=
  List.flatMap_append

theorem quote_not_escaped {s : List Char} (h : '"' ∉ s) : ∀ c ∈ s, escapeLetter c = none → c ≠ '"' := by
  rintro c hc - rfl
  exact h hc

theorem readLiteral_plain {s : String} (h : '"' ∉ s.toList) (rest : List Char) :
    readLiteral ((literal s).toList ++ rest) = some (s.toList, rest) := by
  have hread := readQuoted_escapeChars (by decide : '"' ≠ '\\') (quote_not_escaped h) rest
  simpa [literal_chars, readLiteral] using hread

theorem readLiteral_quote {s : String} {before after : List Char} (hs : s.toList = before ++ '"' :: after)
    (hbefore : '"' ∉ before) (rest : List Char) :
    readLiteral ((literal s).toList ++ rest) = some (before, escapeChars after ++ '"' :: rest) := by
  have hcopied : escapeChars ('"' :: after) = '"' :: escapeChars after := rfl
  have hread := readQuoted_escapeChars (by decide : '"' ≠ '\\') (quote_not_escaped hbefore)
    (escapeChars after ++ '"' :: rest)
  rw [literal_chars, hs, escapeChars_append, hcopied]
  simpa [readLiteral] using hread

theorem readLiteral_eq_iff (s : String) (rest : List Char) :
    readLiteral ((literal s).toList ++ rest) = some (s.toList, rest) ↔ '"' ∉ s.toList := by
  constructor
  · intro hread hquote
    obtain ⟨before, after, hs, hbefore⟩ := List.eq_append_cons_of_mem hquote
    rw [readLiteral_quote hs hbefore, hs] at hread
    have hlength := congrArg (fun found => (found.map fun read => read.1.length).getD 0) hread
    simp at hlength
  · intro hplain
    exact readLiteral_plain hplain rest

/-! ## Lists of literals -/

theorem escapeChars_injective : Function.Injective escapeChars := by
  -- A single quote is always escaped, so what is escaped can be read back behind one.
  intro s t h
  have hread (s : List Char) : readQuoted '\'' (escapeChars s ++ ['\'']) = some (s, []) := by
    apply readQuoted_escapeChars (by decide)
    rintro c - hc rfl
    cases hc
  have hboth := hread s
  rw [h, hread t] at hboth
  exact (congrArg Prod.fst (Option.some.inj hboth)).symm

theorem literal_append (s t : String) : literal s ++ ", " ++ literal t = literal (s ++ literalBreak ++ t) := by
  have hbreak : escapeChars literalBreak.toList = literalBreak.toList := rfl
  apply String.toList_inj.mp
  simp only [String.toList_append, literal_chars, escapeChars_append, hbreak]
  simp [literalBreak]

theorem intercalate_literal {literals : List String} (h : literals ≠ []) :
    ", ".intercalate (literals.map literal) = literal (literalBreak.intercalate literals) := by
  induction literals with
  | nil => exact absurd rfl h
  | cons s literals ih =>
    cases literals with
    | nil => simp
    | cons t literals =>
      have hrest := ih (List.cons_ne_nil _ _)
      rw [List.map_cons] at hrest
      rw [List.map_cons, List.map_cons, String.intercalate_cons_cons, hrest, literal_append,
        String.intercalate_cons_cons]

theorem literal_injective : Function.Injective literal := by
  intro s t h
  have hchars := congrArg String.toList h
  rw [literal_chars, literal_chars, List.cons_inj_right, List.append_cancel_right_eq] at hchars
  exact String.toList_inj.mp (escapeChars_injective hchars)

/-- Two lists of literals are printed alike exactly if they come to the same with the breaks between them. -/
theorem printed_eq_iff (xs ys : List String) :
    printed xs = printed ys ↔ (xs = [] ↔ ys = []) ∧ literalBreak.intercalate xs = literalBreak.intercalate ys := by
  have hnone {zs : List String} (hzs : zs ≠ []) : printed [] ≠ printed zs := by
    intro h
    have hchars := congrArg String.toList h
    simp [printed, intercalate_literal hzs, literal_chars] at hchars
  unfold printed at hnone ⊢
  by_cases hxs : xs = [] <;> by_cases hys : ys = []
  · simp [hxs, hys]
  · simpa [hxs, hys] using hnone hys
  · simpa [hxs, hys] using (hnone hxs).symm
  · simp only [intercalate_literal hxs, intercalate_literal hys, hxs, hys, true_and, String.append_right_inj,
      String.append_left_inj]
    exact literal_injective.eq_iff

/-- What stands behind the first of the literals. -/
def behind (literals : List String) : String :=
  if literals = [] then "" else literalBreak ++ literalBreak.intercalate literals

theorem intercalate_cons (s : String) (literals : List String) :
    literalBreak.intercalate (s :: literals) = s ++ behind literals := by
  cases literals with
  | nil => simp [behind]
  | cons t literals => simp [behind, String.append_assoc]

theorem behind_begins (literals : List String) : ∀ c ∈ (behind literals).toList.head?, (c != '"') = false := by
  unfold behind
  split
  · simp
  · simp [literalBreak]

theorem behind_inj {xs ys : List String} (h : behind xs = behind ys) :
    (xs = [] ↔ ys = []) ∧ literalBreak.intercalate xs = literalBreak.intercalate ys := by
  have hnone (zs : List String) : "" ≠ literalBreak ++ literalBreak.intercalate zs := by
    intro hempty
    have hchars := congrArg String.toList hempty
    simp [literalBreak] at hchars
  unfold behind at h
  split_ifs at h with hxs hys hys
  · simp [hxs, hys]
  · exact absurd h (hnone ys)
  · exact absurd h.symm (hnone xs)
  · exact ⟨by simp [hxs, hys], by simpa using h⟩

theorem eq_of_intercalate_eq {xs ys : List String} (hxs : ∀ s ∈ xs, '"' ∉ s.toList) (hys : ∀ s ∈ ys, '"' ∉ s.toList)
    (hnil : xs = [] ↔ ys = []) (h : literalBreak.intercalate xs = literalBreak.intercalate ys) : xs = ys := by
  induction xs generalizing ys with
  | nil => exact (hnil.mp rfl).symm
  | cons x xs ih =>
    cases ys with
    | nil => simp at hnil
    | cons y ys =>
      obtain ⟨hx, hxs⟩ := List.forall_mem_cons.mp hxs
      obtain ⟨hy, hys⟩ := List.forall_mem_cons.mp hys
      have hkeep {s : String} (hs : '"' ∉ s.toList) : ∀ c ∈ s.toList, (c != '"') = true := by
        intro c hc
        simp only [bne_iff_ne]
        rintro rfl
        exact hs hc
      rw [intercalate_cons, intercalate_cons] at h
      have hchars := congrArg String.toList h
      rw [String.toList_append, String.toList_append] at hchars
      -- The first break is where the first quote is.
      obtain ⟨hfirst, hrest⟩ := run_append_inj (hkeep hx) (hkeep hy) (behind_begins xs) (behind_begins ys) hchars
      obtain ⟨hnil, hrest⟩ := behind_inj (String.toList_inj.mp hrest)
      rw [String.toList_inj.mp hfirst, ih hxs hys hnil hrest]

end Text

/-! ## What is printed -/

namespace Program

variable {p : Program}

theorem printWithin_of_node {id : NodeId} {node : Node} (hnode : p.node? id = some node) (depth : Nat) :
    p.printWithin (depth + 1) id = forM (p.layout node) (playPiece p (p.printWithin depth)) := by
  have hfound : p.node id = .ok node := by
    rw [node?_eq] at hnode
    cases hlook : p.node id with
    | error fault => rw [hlook] at hnode; cases hnode
    | ok found => rw [hlook] at hnode; cases hnode; rfl
  rw [printWithin, play_layout, hfound, look_ok, pure_bind]

theorem printWithin_string {id : NodeId} {s : String} (hnode : p.node? id = some (.string s)) (depth : Nat) :
    p.printWithin (depth + 1) id = write (Text.literal s) := by
  rw [printWithin_of_node hnode]
  simp [layout, playPiece, Text.literal]

theorem commaSeparated_write {α : Type} {item : α → Print Unit} {as : List α} {texts : List String}
    (h : List.Forall₂ (fun a text => item a = write text) as texts) :
    commaSeparated item as = write (", ".intercalate texts) := by
  induction h with
  | nil => simp [commaSeparated, write_empty]
  | @cons a text as texts ha hrest ih =>
    cases hrest with
    | nil => simpa [commaSeparated] using ha
    | cons hb hrest =>
      rw [commaSeparated, ih, ha, String.intercalate_cons_cons, String.append_assoc, write_append, write_append]
      simp

/-- A print statement whose arguments are these literals. -/
def PrintsLiterals (p : Program) (id : NodeId) (literals : List String) : Prop :=
  ∃ args, p.node? id = some (.print args) ∧ List.Forall₂ (fun arg s => p.node? arg = some (.string s)) args literals

theorem PrintsLiterals.print_eq {id : NodeId} {literals : List String} (h : p.PrintsLiterals id literals) :
    p.print id = write (Text.printed literals) := by
  obtain ⟨args, hnode, hargs⟩ := h
  have hsize : 0 < p.nodes.size := Nat.lt_of_le_of_lt (Nat.zero_le _) (hasNode_iff.mp ⟨_, hnode⟩)
  obtain ⟨depth, hdepth⟩ := Nat.exists_eq_succ_of_ne_zero (Nat.ne_of_gt hsize)
  have hwrites : List.Forall₂ (fun arg text => p.printWithin p.nodes.size arg = write text) args
      (literals.map Text.literal) := by
    rw [List.forall₂_map_right_iff, hdepth]
    exact hargs.imp fun arg s harg => printWithin_string harg depth
  rw [print, printWithin_of_node hnode]
  simp only [layout, List.forM_cons, playPiece, play_layoutArgs, printArgs, commaSeparated_write hwrites]
  simp only [Text.printed, ← write_append]
  rfl

/-- A string literal is read back, whatever follows it, exactly if it has no double quote, and else up to its first one.
Print statements of literals are printed alike exactly if the literals come to the same with the breaks between them, so
those of literals without quotes only if the literals are the same. -/
theorem literal_read_back_iff (p q : Program) :
    (∀ id s, p.node? id = some (.string s) → ∃ text, p.print id = write text ∧ ∀ rest,
      (Text.readLiteral (text.toList ++ rest) = some (s.toList, rest) ↔ '"' ∉ s.toList) ∧
      ∀ before after, s.toList = before ++ '"' :: after → '"' ∉ before →
        Text.readLiteral (text.toList ++ rest) = some (before, Text.escapeChars after ++ '"' :: rest)) ∧
    ∀ id id' xs ys, p.PrintsLiterals id xs → q.PrintsLiterals id' ys →
      ∃ text text', p.print id = write text ∧ q.print id' = write text' ∧
        (text = text' ↔ (xs = [] ↔ ys = []) ∧ Text.literalBreak.intercalate xs = Text.literalBreak.intercalate ys) ∧
        ((∀ s ∈ xs, '"' ∉ s.toList) → (∀ s ∈ ys, '"' ∉ s.toList) → text = text' → xs = ys) := by
  constructor
  · intro id s hnode
    refine ⟨Text.literal s, printWithin_string hnode _, fun rest => ⟨Text.readLiteral_eq_iff s rest, ?_⟩⟩
    intro before after hs hbefore
    exact Text.readLiteral_quote hs hbefore rest
  · intro id id' xs ys hxs hys
    refine ⟨_, _, hxs.print_eq, hys.print_eq, Text.printed_eq_iff xs ys, ?_⟩
    intro hplain hplain' htext
    obtain ⟨hnil, hsame⟩ := (Text.printed_eq_iff xs ys).mp htext
    exact Text.eq_of_intercalate_eq hplain hplain' hnil hsame

/-- A program that prints one literal with a break inside, and two literals. -/
def breaking : Program where
  nodes := #[.string "a\", \"b", .print [⟨0⟩], .string "a", .string "b", .print [⟨2⟩, ⟨3⟩], .block ⟨0⟩ [⟨1⟩, ⟨4⟩]]
  scopes := #[{}]
  vars := #[]
  functions := #[]
  root := ⟨5⟩

theorem breaking_one : breaking.PrintsLiterals ⟨1⟩ ["a\", \"b"] := ⟨_, rfl, .cons rfl .nil⟩

theorem breaking_two : breaking.PrintsLiterals ⟨4⟩ ["a", "b"] := ⟨_, rfl, .cons rfl (.cons rfl .nil)⟩

theorem literal_read_back_breaking : ∃ one two, breaking.print ⟨1⟩ = write one ∧ breaking.print ⟨4⟩ = write two ∧
    one = two ∧ ∃ text, breaking.print ⟨0⟩ = write text ∧
      Text.readLiteral (text.toList ++ ")".toList) = some (['a'], ", \"b\")".toList) := by
  obtain ⟨hliterals, hprinted⟩ := literal_read_back_iff breaking breaking
  obtain ⟨text, hprint, hread⟩ := hliterals ⟨0⟩ _ rfl
  obtain ⟨one, two, hone, htwo, hsame, -⟩ := hprinted _ _ _ _ breaking_one breaking_two
  refine ⟨one, two, hone, htwo, hsame.mpr (by decide), text, hprint, ?_⟩
  exact (hread _).2 ['a'] ", \"b".toList rfl (by decide)

/-- In a validated program a literal is not read back, and two print statements of different literals are printed
alike. -/
theorem quote_ends_literal : breaking.validate = .ok () ∧
    breaking.print ⟨0⟩ = write "\"a\", \"b\"" ∧
    Text.readLiteral "\"a\", \"b\"".toList = some (['a'], ", \"b\"".toList) ∧
    breaking.PrintsLiterals ⟨1⟩ ["a\", \"b"] ∧ breaking.print ⟨1⟩ = write "print(\"a\", \"b\")" ∧
    breaking.PrintsLiterals ⟨4⟩ ["a", "b"] ∧ breaking.print ⟨4⟩ = write "print(\"a\", \"b\")" := by
  have hliteral : breaking.node? ⟨0⟩ = some (.string "a\", \"b") := rfl
  refine ⟨by decide, ?_, by decide, breaking_one, ?_, breaking_two, ?_⟩
  · exact printWithin_string hliteral _
  · exact breaking_one.print_eq
  · exact breaking_two.print_eq

end Program

end Canon
