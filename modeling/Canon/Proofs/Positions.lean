import Canon.Tool.SyntaxError
import Mathlib.Algebra.GroupWithZero.Nat
import Mathlib.Data.List.Induction
import Mathlib.Data.Prod.Lex
import Mathlib.Order.Bounds.Basic

/-!
# Lines, columns and characters

A byte offset is turned into a number of characters by one loop, and into a line and a column by another. Both stop at the
same character: the lines before it, each with its line feed, and the column add up to the number of characters.
-/

namespace Canon.Text

/-! ## Characters before an offset -/

/-- The characters of `chars`, the first of which starts at byte `start`, that start before byte `offset`. -/
def charsBefore (offset start : Nat) (chars : List Char) : List Char :=
  ((charStarts start chars).takeWhile fun (start, _) => start < offset).map Prod.snd

theorem charsBefore_nil (offset start : Nat) : charsBefore offset start [] = [] := rfl

theorem charsBefore_cons (offset start : Nat) (c : Char) (rest : List Char) : charsBefore offset start (c :: rest) =
    if start < offset then c :: charsBefore offset (start + c.utf8Size) rest else [] := by
  rw [charsBefore, charStarts, List.takeWhile_cons]
  by_cases h : start < offset
  · simp [h, charsBefore]
  · simp [h]

theorem length_charsBefore (source : String) (offset : Nat) :
    (charsBefore offset 0 source.toList).length = charOffset source offset := by
  rw [charsBefore, List.length_map, charOffset]

/-- The loop that counts lines stops where the one that counts characters does. -/
theorem advanceTo_eq (offset start : Nat) (p : Position) (chars : List Char) :
    p.advanceTo offset start chars = (charsBefore offset start chars).foldl Position.advance p := by
  induction chars generalizing start p with
  | nil => rfl
  | cons c rest ih =>
    rw [Position.advanceTo, charsBefore_cons]
    by_cases h : start < offset
    · rw [if_neg (Nat.not_le_of_lt h), if_pos h, ih, List.foldl_cons]
    · rw [if_pos (Nat.le_of_not_lt h), if_neg h, List.foldl_nil]

theorem charsBefore_eq_take (offset start : Nat) (chars : List Char) :
    charsBefore offset start chars = chars.take (charsBefore offset start chars).length := by
  induction chars generalizing start with
  | nil => rfl
  | cons c rest ih =>
    rw [charsBefore_cons]
    split
    · rw [List.length_cons, List.take_succ_cons, ← ih]
    · rfl

theorem le_size_charsBefore (offset start : Nat) (chars : List Char) :
    min offset (start + (String.ofList chars).utf8ByteSize) ≤
      start + (String.ofList (charsBefore offset start chars)).utf8ByteSize := by
  induction chars generalizing start with
  | nil => simp [charsBefore_nil]
  | cons c rest ih =>
    rw [charsBefore_cons]
    split
    · have hrest := ih (start + c.utf8Size)
      simp only [String.ofList_cons, String.utf8ByteSize_append, String.utf8ByteSize_singleton]
      omega
    · omega

theorem size_take_lt (offset start : Nat) (chars : List Char) {n : Nat}
    (hn : n < (charsBefore offset start chars).length) :
    start + (String.ofList (chars.take n)).utf8ByteSize <
      min offset (start + (String.ofList chars).utf8ByteSize) := by
  induction chars generalizing start n with
  | nil => cases hn
  | cons c rest ih =>
    rw [charsBefore_cons] at hn
    split at hn
    · have hpos := c.utf8Size_pos
      simp only [String.ofList_cons, String.utf8ByteSize_append, String.utf8ByteSize_singleton]
      cases n with
      | zero =>
        rw [List.take_zero, String.ofList_nil, String.utf8ByteSize_empty]
        omega
      | succ n =>
        have hrest := ih (start + c.utf8Size) (Nat.lt_of_succ_lt_succ hn)
        simp only [List.take_succ_cons, String.ofList_cons, String.utf8ByteSize_append, String.utf8ByteSize_singleton]
        omega
    · cases hn

theorem charsBefore_eq (source : String) (offset : Nat) :
    charsBefore offset 0 source.toList = source.toList.take (charOffset source offset) := by
  rw [← length_charsBefore]
  exact charsBefore_eq_take offset 0 source.toList

theorem charOffset_isLeast (source : String) (offset : Nat) :
    IsLeast {n | min offset source.utf8ByteSize ≤ (String.ofList (source.toList.take n)).utf8ByteSize}
      (charOffset source offset) := by
  have hreaches := le_size_charsBefore offset 0 source.toList
  rw [String.ofList_toList, charsBefore_eq, Nat.zero_add, Nat.zero_add] at hreaches
  refine ⟨hreaches, fun n hn => ?_⟩
  by_contra hlt
  rw [← length_charsBefore] at hlt
  have hfewer := size_take_lt offset 0 source.toList (Nat.lt_of_not_le hlt)
  rw [String.ofList_toList, Nat.zero_add, Nat.zero_add] at hfewer
  exact Nat.not_le_of_lt hfewer hn

theorem charsBefore_of_le {offset start : Nat} {chars : List Char}
    (h : start + (String.ofList chars).utf8ByteSize ≤ offset) : charsBefore offset start chars = chars := by
  induction chars generalizing start with
  | nil => rfl
  | cons c rest ih =>
    have hpos := c.utf8Size_pos
    simp only [String.ofList_cons, String.utf8ByteSize_append, String.utf8ByteSize_singleton] at h
    rw [charsBefore_cons, if_pos (by omega), ih (by omega)]

theorem charOffset_of_le {source : String} {offset : Nat} (h : source.utf8ByteSize ≤ offset) :
    charOffset source offset = source.length := by
  rw [← length_charsBefore, charsBefore_of_le (by rwa [String.ofList_toList, Nat.zero_add]), String.length_toList]

/-! ## Places in the lines of a text -/

/-- The number of characters of the first lines, with the line feed behind each of them. -/
def lineStart (lines : List (List Char)) (n : Nat) : Nat := ((lines.take n).map fun line => line.length + 1).sum

theorem lineStart_zero (lines : List (List Char)) : lineStart lines 0 = 0 := rfl

theorem lineStart_cons (line : List Char) (lines : List (List Char)) (n : Nat) :
    lineStart (line :: lines) (n + 1) = line.length + 1 + lineStart lines n := by
  rw [lineStart, List.take_succ_cons, List.map_cons, List.sum_cons, lineStart]

theorem lineStart_succ {lines : List (List Char)} {n : Nat} {line : List Char} (h : lines[n]? = some line) :
    lineStart lines (n + 1) = lineStart lines n + (line.length + 1) := by
  simp [lineStart, List.take_add_one, h]

theorem lineStart_mono (lines : List (List Char)) {m n : Nat} (h : m ≤ n) : lineStart lines m ≤ lineStart lines n := by
  obtain ⟨d, rfl⟩ := Nat.exists_eq_add_of_le h
  simp [lineStart, List.take_add]

namespace Position

/-- A position lies in one of the lines, and has so many characters ahead of it. -/
structure IsAt (p : Position) (lines : List (List Char)) (index : Nat) : Prop where
  inLine : ∃ line, lines[p.line]? = some line ∧ p.column ≤ line.length
  index : lineStart lines p.line + p.column = index

section IsAt

variable {lines : List (List Char)} {p q : Position} {i j : Nat}

theorem IsAt.lt_of_line (hp : p.IsAt lines i) (hq : q.IsAt lines j) (h : p.line < q.line) : i < j := by
  obtain ⟨line, hline, hcolumn⟩ := hp.inLine
  have hindex := hp.index
  calc i
    _ = lineStart lines p.line + p.column := hindex.symm
    _ < lineStart lines (p.line + 1) := by rw [lineStart_succ hline]; omega
    _ ≤ lineStart lines q.line := lineStart_mono lines h
    _ ≤ j := by rw [← hq.index]; omega

theorem IsAt.lt_of_toLex (hp : p.IsAt lines i) (hq : q.IsAt lines j)
    (h : toLex (p.line, p.column) < toLex (q.line, q.column)) : i < j := by
  rcases Prod.Lex.toLex_lt_toLex.mp h with hline | ⟨hline, hcolumn⟩
  · exact hp.lt_of_line hq hline
  · have hpi := hp.index
    have hqj := hq.index
    simp only at hline hcolumn
    rw [hline] at hpi
    omega

theorem IsAt.lt_iff (hp : p.IsAt lines i) (hq : q.IsAt lines j) :
    toLex (p.line, p.column) < toLex (q.line, q.column) ↔ i < j := by
  refine ⟨hp.lt_of_toLex hq, fun h => ?_⟩
  rcases lt_trichotomy (toLex (p.line, p.column)) (toLex (q.line, q.column)) with hlt | heq | hgt
  · exact hlt
  · obtain ⟨hline, hcolumn⟩ := Prod.mk.inj (toLex.injective heq)
    have hpi := hp.index
    have hqj := hq.index
    rw [hline, hcolumn] at hpi
    omega
  · exact absurd (hq.lt_of_toLex hp hgt) (Nat.lt_asymm h)

theorem IsAt.unique (hp : p.IsAt lines i) (hq : q.IsAt lines i) : p = q := by
  rcases lt_trichotomy (toLex (p.line, p.column)) (toLex (q.line, q.column)) with hlt | heq | hgt
  · exact absurd (hp.lt_of_toLex hq hlt) (Nat.lt_irrefl i)
  · obtain ⟨hline, hcolumn⟩ := Prod.mk.inj (toLex.injective heq)
    cases p
    cases q
    exact congrArg₂ Position.mk hline hcolumn
  · exact absurd (hq.lt_of_toLex hp hgt) (Nat.lt_irrefl i)

end IsAt

theorem foldl_advance (q : Position) (chars : List Char) : chars.foldl advance q =
    ⟨q.line + (chars.foldl advance ⟨0, 0⟩).line,
      if (chars.foldl advance ⟨0, 0⟩).line = 0 then q.column + (chars.foldl advance ⟨0, 0⟩).column
      else (chars.foldl advance ⟨0, 0⟩).column⟩ := by
  induction chars using List.reverseRecOn with
  | nil => simp
  | append_singleton chars c ih =>
    simp only [List.foldl_append, List.foldl_cons, List.foldl_nil, ih]
    by_cases hc : c = '\n'
    · simp [advance, hc, Nat.add_assoc]
    · by_cases hline : (chars.foldl advance ⟨0, 0⟩).line = 0 <;> simp [advance, hc, hline, Nat.add_assoc]

theorem IsAt.below_newline {p : Position} {lines : List (List Char)} {index : Nat} (h : p.IsAt lines index) :
    Position.IsAt ⟨p.line + 1, p.column⟩ ([] :: lines) (index + 1) := by
  obtain ⟨line, hline, hcolumn⟩ := h.inLine
  have hindex := h.index
  refine ⟨⟨line, hline, hcolumn⟩, ?_⟩
  change lineStart ([] :: lines) (p.line + 1) + p.column = index + 1
  rw [lineStart_cons, List.length_nil]
  omega

theorem IsAt.behind_char {p : Position} {first : List Char} {lines : List (List Char)} {index : Nat}
    (h : p.IsAt (first :: lines) index) (c : Char) :
    Position.IsAt ⟨p.line, if p.line = 0 then p.column + 1 else p.column⟩ ((c :: first) :: lines) (index + 1) := by
  obtain ⟨line, column⟩ := p
  obtain ⟨text, htext, hcolumn⟩ := h.inLine
  have hindex := h.index
  cases line with
  | zero =>
    obtain rfl : first = text := Option.some.inj htext
    refine ⟨⟨c :: first, rfl, Nat.succ_le_succ hcolumn⟩, ?_⟩
    rw [lineStart_zero] at hindex ⊢
    exact congrArg Nat.succ hindex
  | succ n =>
    refine ⟨⟨text, htext, hcolumn⟩, ?_⟩
    change lineStart (first :: lines) (n + 1) + column = index at hindex
    change lineStart ((c :: first) :: lines) (n + 1) + column = index + 1
    rw [lineStart_cons] at hindex ⊢
    rw [List.length_cons]
    omega

theorem isAt_foldl_advance (before after : List Char) :
    (before.foldl advance ⟨0, 0⟩).IsAt ((before ++ after).splitOn '\n') before.length := by
  induction before with
  | nil =>
    obtain ⟨first, lines, hlines⟩ := List.exists_cons_of_ne_nil (List.splitOn_ne_nil '\n' after)
    rw [List.nil_append, hlines]
    exact ⟨⟨first, rfl, Nat.zero_le _⟩, rfl⟩
  | cons c before ih =>
    rw [List.foldl_cons, foldl_advance, List.cons_append, List.splitOn_cons_eq_if_modifyHead, List.length_cons]
    by_cases hc : c = '\n'
    · simp only [advance, hc, beq_self_eq_true, if_true, Nat.zero_add, Nat.add_comm 1, ite_self]
      exact ih.below_newline
    · obtain ⟨first, lines, hlines⟩ := List.exists_cons_of_ne_nil (List.splitOn_ne_nil '\n' (before ++ after))
      simp only [advance, hc, beq_iff_eq, if_false, Nat.zero_add, Nat.add_comm 1, hlines, List.modifyHead_cons]
      rw [hlines] at ih
      exact ih.behind_char c

theorem ofOffset_isAt (source : String) (offset : Nat) :
    (ofOffset source offset).IsAt (source.toList.splitOn '\n') (charOffset source offset) := by
  have hplace := isAt_foldl_advance (charsBefore offset 0 source.toList)
    (source.toList.drop (charOffset source offset))
  rw [charsBefore_eq, List.take_append_drop, ← charsBefore_eq, length_charsBefore, ← advanceTo_eq] at hplace
  exact hplace

end Position

end Canon.Text

namespace Canon

open Text Position

theorem reportedChar?_eq {source : String} (h : source ≠ "") (e : SyntaxError) :
    e.reportedChar? source = some (min (charOffset source e.offset) (source.length - 1)) :=
  if_neg fun hlength => h (String.length_eq_zero_iff.mp hlength)

/-- The line and column of an offset and its number of characters name the same place: the number of characters is the
least that takes the bytes up to the offset, and that many characters are ahead of the column in its line. So the one is
known from the other and in the same order, both stand still past the end, and a report points into the text, at that
character if there is one. -/
theorem position_names_char (source : String) (offset : Nat) :
    IsLeast {n | min offset source.utf8ByteSize ≤ (String.ofList (source.toList.take n)).utf8ByteSize}
      (charOffset source offset) ∧
    (ofOffset source offset).IsAt (source.toList.splitOn '\n') (charOffset source offset) ∧
    (∀ other, charOffset source other = charOffset source offset → ofOffset source other = ofOffset source offset) ∧
    (∀ other, charOffset source offset < charOffset source other ↔
      toLex ((ofOffset source offset).line, (ofOffset source offset).column) <
        toLex ((ofOffset source other).line, (ofOffset source other).column)) ∧
    (source.utf8ByteSize ≤ offset →
      charOffset source offset = source.length ∧ ofOffset source offset = ofOffset source source.utf8ByteSize) ∧
    (source ≠ "" → ∀ message, ∃ start, SyntaxError.reportedChar? ⟨offset, message⟩ source = some start ∧
      start = min (charOffset source offset) (source.length - 1) ∧ start < source.length ∧
      (charOffset source offset < source.length → start = charOffset source offset)) := by
  have hplace (other : Nat) := ofOffset_isAt source other
  have hsame (other : Nat) (h : charOffset source other = charOffset source offset) :
      ofOffset source other = ofOffset source offset :=
    (h ▸ hplace other).unique (hplace offset)
  refine ⟨charOffset_isLeast source offset, hplace offset, hsame, ?_, ?_, ?_⟩
  · intro other
    exact ((hplace offset).lt_iff (hplace other)).symm
  · intro hend
    have hlength : charOffset source offset = source.length := charOffset_of_le hend
    exact ⟨hlength, (hsame _ ((charOffset_of_le (Nat.le_refl _)).trans hlength.symm)).symm⟩
  · intro hsource message
    have hlength : source.length ≠ 0 := fun h => hsource (String.length_eq_zero_iff.mp h)
    refine ⟨_, reportedChar?_eq hsource ⟨offset, message⟩, rfl, by dsimp only; omega, ?_⟩
    intro hinside
    exact Nat.min_eq_left (Nat.le_sub_one_of_lt hinside)

-- The offset lies inside the character of four bytes in the second line.
example : charOffset "a\né𝄞b" 6 = 4 ∧ Position.ofOffset "a\né𝄞b" 6 = ⟨1, 2⟩ := by decide

end Canon
