import Canon.Proofs.Positions
import Canon.Tool.Run
import Mathlib.Data.List.Infix

/-!
# The two reports of a syntax error

A syntax error is told in one line on standard output, and an annotated report points at its character. The one counts
lines by their line feeds, and for the other lines end in more ways. So the report is as many lines further down as
lines have ended without a line feed before the error, and the two name the same place exactly if none has.
-/

namespace Canon.Text

/-! ## Ends of lines that only a report knows -/

/-- Whether the first of these characters ends a line of a report, and is no line feed. -/
def endsReportOnly : List Char → Bool
  | [] => false
  | c :: rest => endsReportLine c rest.head? && c != '\n'

/-- How many of the first characters end a line of a report, and are no line feeds. -/
def reportOnlyEnds (n : Nat) (chars : List Char) : Nat := (chars.tails.take n).countP endsReportOnly

theorem reportOnlyEnds_nil (n : Nat) : reportOnlyEnds n [] = 0 := by
  cases n <;> simp [reportOnlyEnds, endsReportOnly]

theorem reportOnlyEnds_cons (n : Nat) (c : Char) (rest : List Char) :
    reportOnlyEnds (n + 1) (c :: rest) = reportOnlyEnds n rest + (endsReportOnly (c :: rest)).toNat := by
  rw [reportOnlyEnds, List.tails_cons, List.take_succ_cons, List.countP_cons, reportOnlyEnds]
  cases endsReportOnly (c :: rest) <;> simp

theorem endsReportLine_eq {c : Char} {rest : List Char} (h : endsReportOnly (c :: rest) = false) :
    endsReportLine c rest.head? = (c == '\n') := by
  unfold endsReportOnly at h
  by_cases hc : c = '\n'
  · simp [endsReportLine, hc]
  · rw [beq_false_of_ne hc]
    simpa [hc] using h

theorem endsReportLine_toNat (c : Char) (rest : List Char) :
    (endsReportLine c rest.head?).toNat = (c == '\n').toNat + (endsReportOnly (c :: rest)).toNat := by
  cases honly : endsReportOnly (c :: rest) with
  | false => rw [endsReportLine_eq honly, Bool.toNat_false, Nat.add_zero]
  | true =>
    unfold endsReportOnly at honly
    obtain ⟨hends, hc⟩ := Bool.and_eq_true_iff.mp honly
    rw [hends, beq_false_of_ne (bne_iff_ne.mp hc), Bool.toNat_false, Nat.zero_add]

/-! ## One character in front -/

namespace Position

/-- A position in a text, when one more character stands in front of the text. -/
def shifted (ends : Bool) (p : Position) : Position :=
  if ends then ⟨p.line + 1, p.column⟩ else if p.line = 0 then ⟨0, p.column + 1⟩ else p

theorem shifted_line (ends : Bool) (p : Position) : (p.shifted ends).line = p.line + ends.toNat := by
  unfold shifted
  split
  · simp_all
  · split <;> simp_all

theorem foldl_advance_cons (c : Char) (rest : List Char) :
    (c :: rest).foldl advance ⟨0, 0⟩ = (rest.foldl advance ⟨0, 0⟩).shifted (c == '\n') := by
  rw [List.foldl_cons, foldl_advance]
  unfold shifted
  by_cases hc : c = '\n'
  · simp [advance, hc, Nat.add_comm]
  · by_cases hline : (rest.foldl advance ⟨0, 0⟩).line = 0
    · simp [advance, hc, hline, Nat.add_comm]
    · simp [advance, hc, hline]

theorem oneBased_inj {p q : Position} : p.oneBased = q.oneBased ↔ p = q := by
  obtain ⟨line, column⟩ := p
  obtain ⟨line', column'⟩ := q
  simp [oneBased]

end Position

open Position

theorem reportPosition_cons (n : Nat) (c : Char) (rest : List Char) :
    reportPosition (n + 1) (c :: rest) = (reportPosition n rest).shifted (endsReportLine c rest.head?) := rfl

/-! ## A character of the source in both reports -/

theorem reportPosition_line (n : Nat) (chars : List Char) :
    (reportPosition n chars).line = ((chars.take n).foldl advance ⟨0, 0⟩).line + reportOnlyEnds n chars := by
  induction chars generalizing n with
  | nil => cases n <;> simp [reportPosition, reportOnlyEnds_nil]
  | cons c rest ih =>
    cases n with
    | zero => simp [reportPosition, reportOnlyEnds]
    | succ n =>
      rw [reportPosition_cons, List.take_succ_cons, foldl_advance_cons, reportOnlyEnds_cons, shifted_line, shifted_line,
        endsReportLine_toNat, ih]
      omega

theorem reportPosition_eq_iff (n : Nat) (chars : List Char) :
    reportPosition n chars = (chars.take n).foldl advance ⟨0, 0⟩ ↔ reportOnlyEnds n chars = 0 := by
  constructor
  · intro h
    have hline := reportPosition_line n chars
    rw [h] at hline
    omega
  · intro h
    induction chars generalizing n with
    | nil => cases n <;> simp [reportPosition]
    | cons c rest ih =>
      cases n with
      | zero => simp [reportPosition]
      | succ n =>
        rw [reportOnlyEnds_cons, Nat.add_eq_zero_iff, Bool.toNat_eq_zero] at h
        obtain ⟨hrest, honly⟩ := h
        rw [reportPosition_cons, List.take_succ_cons, foldl_advance_cons, ih n hrest, endsReportLine_eq honly]

/-! ## Character boundaries -/

theorem charsBefore_append (start : Nat) (before after : List Char) :
    charsBefore (start + (String.ofList before).utf8ByteSize) start (before ++ after) = before := by
  induction before generalizing start with
  | nil => cases after <;> simp [charsBefore_nil, charsBefore_cons]
  | cons c before ih =>
    have hpos := c.utf8Size_pos
    have hrest := ih (start + c.utf8Size)
    simp only [String.ofList_cons, String.utf8ByteSize_append, String.utf8ByteSize_singleton, List.cons_append,
      charsBefore_cons]
    rw [if_pos (by omega), ← Nat.add_assoc, hrest]

theorem charOffset_append (before after : String) :
    charOffset (before ++ after) before.utf8ByteSize = before.length := by
  have hbefore := charsBefore_append 0 before.toList after.toList
  rw [String.ofList_toList, Nat.zero_add] at hbefore
  rw [← length_charsBefore, String.toList_append, hbefore, String.length_toList]

theorem charOffset_lt_length {source : String} {offset : Nat}
    (hboundary : String.Pos.Raw.IsValid source ⟨offset⟩) (hinside : offset < source.utf8ByteSize) :
    charOffset source offset < source.length := by
  obtain ⟨before, after, rfl, hoffset⟩ := String.Pos.Raw.isValid_iff_exists_append.mp hboundary
  obtain rfl : offset = before.utf8ByteSize := congrArg String.Pos.Raw.byteIdx hoffset
  have hafter : after.length ≠ 0 := by
    intro hempty
    rw [String.length_eq_zero_iff.mp hempty] at hinside
    simp at hinside
  rw [charOffset_append, String.length_append]
  omega

end Canon.Text

namespace Canon

open Text Position

namespace SyntaxError

theorem reported?_eq {e : SyntaxError} {source : String} (hinside : charOffset source e.offset < source.length) :
    e.reported? source = some (reportPosition (charOffset source e.offset) source.toList).oneBased := by
  have hsource : source ≠ "" := by
    rintro rfl
    simp at hinside
  unfold reported?
  rw [reportedChar?_eq hsource, Nat.min_eq_left (Nat.le_sub_one_of_lt hinside), Option.map_some]

end SyntaxError

/-- The line on standard output tells one place and the report shows one. At a character of the source the place that is
shown is as many lines below the one that is told as lines of the report have ended before it without a line feed, and
the two are the same exactly if none has. -/
theorem reports_agree_iff (path source : String) (notes : List Note) (e : SyntaxError)
    (hboundary : String.Pos.Raw.IsValid source ⟨e.offset⟩) (hinside : e.offset < source.utf8ByteSize) :
    ∃ told shown : Position,
      (Outcome.ofFailure path source notes (.syntaxError e)).stdout =
        "Cannot parse program: expression at " ++ (told.text ++ "; error '" ++ e.message ++ "'") ++ "\n" ∧
      (Outcome.ofFailure path source notes (.syntaxError e)).report = some ⟨path, shown⟩ ∧
      shown.line = told.line + reportOnlyEnds (charOffset source e.offset) source.toList ∧
      (told = shown ↔ reportOnlyEnds (charOffset source e.offset) source.toList = 0) := by
  have htold : ofOffset source e.offset = (source.toList.take (charOffset source e.offset)).foldl advance ⟨0, 0⟩ := by
    rw [ofOffset, advanceTo_eq, charsBefore_eq]
  refine ⟨(ofOffset source e.offset).oneBased, (reportPosition (charOffset source e.offset) source.toList).oneBased,
    rfl, ?_, ?_, ?_⟩
  · simp [Outcome.ofFailure, SyntaxError.reported?_eq (charOffset_lt_length hboundary hinside)]
  · have hline := reportPosition_line (charOffset source e.offset) source.toList
    rw [← htold] at hline
    simp only [oneBased]
    omega
  · rw [oneBased_inj, eq_comm, htold]
    exact reportPosition_eq_iff _ _

/-- Lines that end with a carriage return and a line feed, and with a line separator. -/
def separatedLines : String := "x\r\né\u2028y"

def separatedOutcome (offset : Nat) : Outcome :=
  Outcome.ofFailure "a" separatedLines [] (.syntaxError ⟨offset, "m"⟩)

theorem reports_agree_iff_separated :
    (∃ told : Position, (separatedOutcome 3).stdout =
        "Cannot parse program: expression at " ++ (told.text ++ "; error '" ++ "m" ++ "'") ++ "\n" ∧
      (separatedOutcome 3).report = some ⟨"a", told⟩) ∧
    ∃ told shown : Position, (separatedOutcome 8).stdout =
        "Cannot parse program: expression at " ++ (told.text ++ "; error '" ++ "m" ++ "'") ++ "\n" ∧
      (separatedOutcome 8).report = some ⟨"a", shown⟩ ∧ shown.line = told.line + 1 ∧ told ≠ shown := by
  constructor
  · obtain ⟨told, shown, htold, hshown, -, hsame⟩ :=
      reports_agree_iff "a" separatedLines [] ⟨3, "m"⟩ (by decide) (by decide)
    obtain rfl : told = shown := hsame.mpr (by decide)
    exact ⟨told, htold, hshown⟩
  · obtain ⟨told, shown, htold, hshown, hline, hsame⟩ :=
      reports_agree_iff "a" separatedLines [] ⟨8, "m"⟩ (by decide) (by decide)
    exact ⟨told, shown, htold, hshown, hline, fun h => absurd (hsame.mp h) (by decide)⟩

/-- At a character of the source the line tells `1,3` and the report shows `2:1`, because a carriage return ends a line
of the report alone. -/
theorem carriage_return_parts_reports :
    String.Pos.Raw.IsValid "a\rb" ⟨2⟩ ∧ 2 < "a\rb".utf8ByteSize ∧
    (Outcome.ofFailure "prog.mvm" "a\rb" [] (.syntaxError ⟨2, "m"⟩)).stdout =
      "Cannot parse program: expression at 1,3; error 'm'\n" ∧
    (Outcome.ofFailure "prog.mvm" "a\rb" [] (.syntaxError ⟨2, "m"⟩)).report = some ⟨"prog.mvm", ⟨2, 1⟩⟩ := by
  refine ⟨by decide, by decide, by decide +kernel, by decide⟩

end Canon
