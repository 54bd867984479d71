import Canon.Proofs.DoubleText
import Canon.Proofs.Quoting
import Canon.Proofs.Source

/-!
# Reading the printed text

A reader for what the printer writes. It reads by the first characters of what is left, and goes back nowhere. Each part
has a lemma that says what is read from its text, whatever follows.
-/

namespace Canon.Source

/-- Reads something from the front of a text, or fails. -/
abbrev Reader := StateT (List Char) Option

section Steps

variable {α β : Type}

theorem read_bind {x : Reader α} {f : α → Reader β} {text rest : List Char} {a : α} (h : x text = some (a, rest)) :
    (x >>= f) text = f a rest := by
  simp [bind, StateT.bind, h]

/-! ## Steps of a reader -/

def expect (s : String) : Reader Unit := fun text =>
  if s.toList.isPrefixOf text then some ((), text.drop s.toList.length) else none

def peek : Reader (Option Char) := fun text => some (text.head?, text)

def takeAll (keep : Char → Bool) : Reader (List Char) := fun text => some (text.takeWhile keep, text.dropWhile keep)

def given (found : Option α) : Reader α := fun text => found.map (·, text)

/-- Reads what is quoted, behind the first quote and including the second. -/
def quoted (quote : Char) : Reader String := fun text =>
  (Text.readQuoted quote text).map fun (chars, rest) => (String.ofList chars, rest)

theorem expect_append (s : String) (rest : List Char) : expect s (s.toList ++ rest) = some ((), rest) := by
  simp [expect, List.isPrefixOf_iff_prefix]

theorem head?_append_of_mem {text : List α} {a : α} (h : a ∈ text.head?) (rest : List α) :
    (text ++ rest).head? = some a := Option.mem_def.mp (List.mem_head?_append_of_mem_head? h)

theorem stops_at {keep : Char → Bool} (c : Char) {rest : List Char} (hrest : rest.head? = some c)
    (hc : keep c = false) : ∀ d ∈ rest.head?, keep d = false := by
  rw [hrest]
  rintro d ⟨⟩
  exact hc

theorem takeAll_run {keep : Char → Bool} {run rest : List Char} (hrun : ∀ c ∈ run, keep c = true)
    (hrest : ∀ c ∈ rest.head?, keep c = false) : takeAll keep (run ++ rest) = some (run, rest) := by
  rw [takeAll, takeWhile_run hrun hrest, dropWhile_run hrun hrest]

theorem quoted_escape {quote : Char} (hquote : quote ≠ '\\') {s : String}
    (hs : ∀ c ∈ s.toList, Text.escapeLetter c = none → c ≠ quote) (rest : List Char) :
    quoted quote ((Text.escape s).text.toList ++ quote :: rest) = some (s, rest) := by
  rw [quoted, Text.escape_text, String.toList_ofList, Text.readQuoted_escapeChars hquote hs]
  exact congrArg (fun text => some (text, rest)) String.ofList_toList

/-! ## Lists -/

/-- Reads the rest of a list, each item behind a comma, and the parenthesis that closes it. -/
def readMore (item : Reader α) : Nat → Reader (List α)
  | 0 => given none
  | fuel + 1 => do
    if (← peek) = some ')' then
      expect ")"
      return []
    else
      expect ", "
      let a ← item
      return a :: (← readMore item fuel)

/-- Reads a list behind the parenthesis that opens it. -/
def readList (item : Reader α) (fuel : Nat) : Reader (List α) := do
  if (← peek) = some ')' then
    expect ")"
    return []
  else
    let a ← item
    return a :: (← readMore item fuel)

def EndsItem (rest : List Char) : Prop := rest.head? = some ',' ∨ rest.head? = some ')'

/-- An item is read from its text, which does not look like the end of the list. -/
structure ReadsItem (item : Reader α) (text : List Char) (a : α) : Prop where
  begins : ∃ c ∈ text.head?, c ≠ ')'
  reads : ∀ rest, EndsItem rest → item (text ++ rest) = some (a, rest)

/-- The text of a list without its parentheses. -/
def listText : List (List Char) → List Char
  | [] => []
  | text :: texts => text ++ texts.flatMap fun text => ", ".toList ++ text

theorem endsItem_more (texts : List (List Char)) (rest : List Char) :
    EndsItem (texts.flatMap (fun text => ", ".toList ++ text) ++ (")".toList ++ rest)) := by
  cases texts with
  | nil => exact Or.inr rfl
  | cons text texts => exact Or.inl rfl

theorem readMore_texts {item : Reader α} {texts : List (List Char)} {as : List α}
    (h : List.Forall₂ (ReadsItem item) texts as) {fuel : Nat} (hfuel : texts.length < fuel) (rest : List Char) :
    readMore item fuel (texts.flatMap (fun text => ", ".toList ++ text) ++ (")".toList ++ rest)) = some (as, rest) := by
  induction h generalizing fuel with
  | nil =>
    obtain ⟨fuel, rfl⟩ := Nat.exists_eq_succ_of_ne_zero (Nat.ne_of_gt hfuel)
    rfl
  | @cons text a texts as hitem _ ih =>
    obtain ⟨fuel, rfl⟩ := Nat.exists_eq_succ_of_ne_zero (Nat.ne_of_gt (Nat.lt_of_le_of_lt (Nat.zero_le _) hfuel))
    rw [List.flatMap_cons, List.append_assoc, List.append_assoc, readMore]
    rw [read_bind (a := some ',') rfl, if_neg (by decide), read_bind (expect_append ", " _),
      read_bind (hitem.reads _ (endsItem_more texts rest)), read_bind (ih (Nat.lt_of_succ_lt_succ hfuel))]
    rfl

theorem readList_texts {item : Reader α} {texts : List (List Char)} {as : List α}
    (h : List.Forall₂ (ReadsItem item) texts as) {fuel : Nat} (hfuel : texts.length ≤ fuel) (rest : List Char) :
    readList item fuel (listText texts ++ (")".toList ++ rest)) = some (as, rest) := by
  cases h with
  | nil => rfl
  | @cons text a texts as hitem hitems =>
    obtain ⟨c, hc, hne⟩ := hitem.begins
    rw [listText, List.append_assoc, readList, read_bind (rfl : peek _ = some (_, _)), head?_append_of_mem hc,
      if_neg (by simpa using hne), read_bind (hitem.reads _ (endsItem_more texts rest)),
      read_bind (readMore_texts hitems (Nat.lt_of_succ_le hfuel) rest)]
    rfl

/-! A list is at least as long as what it is made of. -/

theorem length_le_listText {texts : List (List Char)} : ∀ text ∈ texts, text.length ≤ (listText texts).length := by
  cases texts with
  | nil => exact List.forall_mem_nil _
  | cons first texts =>
    refine List.forall_mem_cons.mpr ⟨by simp [listText], fun text htext => ?_⟩
    obtain ⟨before, after, rfl⟩ := List.append_of_mem htext
    simp only [listText, List.flatMap_append, List.flatMap_cons, List.length_append]
    omega

theorem length_texts_le (texts : List (List Char)) : texts.length ≤ (listText texts).length + 1 := by
  have hmore (texts : List (List Char)) :
      texts.length ≤ (texts.flatMap fun text => ", ".toList ++ text).length := by
    induction texts with
    | nil => exact Nat.le_refl 0
    | cons text texts ih =>
      have hcomma : ", ".toList.length = 2 := rfl
      rw [List.flatMap_cons, List.length_append, List.length_append, List.length_cons]
      omega
  cases texts with
  | nil => exact Nat.zero_le _
  | cons text texts =>
    have := hmore texts
    rw [listText, List.length_append, List.length_cons]
    omega

end Steps

/-! ## Expressions -/

def numberText : Expr → Option (List Char)
  | .int value => some (intText value.toInt)
  | .double value => if value.isFinite then some value.text.toList else none
  | _ => none

open Classical in
/-- The literal that is written in a certain way. -/
noncomputable def literal? (token : List Char) : Option Expr :=
  if h : ∃ e, numberText e = some token then some h.choose else none

def binaryOf? (symbol : List Char) : Option BinaryOp := BinaryOp.all.find? (·.symbol.toList = symbol)

/-- Reads an operator up to the blank behind it. -/
def readOp {α : Type} (opOf? : List Char → Option α) : Reader α := do
  given (opOf? (← takeAll (· != ' ')))

theorem readOp_run {α : Type} {opOf? : List Char → Option α} {symbol : List Char} {op : α}
    (hop : opOf? symbol = some op) (hsymbol : symbol.all (· != ' ') = true) (rest : List Char) :
    readOp opOf? (symbol ++ (" ".toList ++ rest)) = some (op, " ".toList ++ rest) := by
  rw [readOp, read_bind (takeAll_run (List.all_eq_true.mp hsymbol) (stops_at ' ' rfl (by decide))), hop]
  rfl

/-- Whether a number is left, and a blank follows it. -/
def atLiteral : Reader Bool := fun text => some ((text.dropWhile isNumberChar).head? = some ' ', text)

def readUnary (op : UnaryOp) (expr : Reader Expr) : Reader Expr := do
  let operand ← expr
  expect ")"
  return .unary op operand

def readBinary (expr : Reader Expr) : Reader Expr := do
  let left ← expr
  expect " "
  let op ← readOp binaryOf?
  expect " "
  let right ← expr
  expect ")"
  return .binary op left right

/-- Reads an operation behind the parenthesis that opens it. A minus sign belongs to a literal if that is the left
operand of a binary operation, and is an operator otherwise. -/
def readOperation (expr : Reader Expr) : Reader Expr := do
  let head ← peek
  let literal ← atLiteral
  if head = some '!' then
    expect "!"
    readUnary .not expr
  else if head = some '-' ∧ literal = false then
    expect "-"
    readUnary .neg expr
  else readBinary expr

def isNumberStart (c : Char) : Bool := c.isDigit || c = '-'

noncomputable def readExpr : Nat → Reader Expr
  | 0 => given none
  | fuel + 1 => do
    let head ← peek
    if head = some '(' then
      expect "("
      readOperation (readExpr fuel)
    else if head = some '"' then
      expect "\""
      return .string (← quoted '"')
    else if head.any isNumberStart then
      given (literal? (← takeAll isNumberChar))
    else
      let name ← takeAll isNameChar
      if (← peek) = some '(' then
        expect "("
        return .call (String.ofList name) (← readList (readExpr fuel) fuel)
      else return .load (String.ofList name)

inductive Opening : List Char → Prop where
  | number {token : List Char} (h : IsNumber token) : Opening token
  | paren (tail : List Char) : Opening ('(' :: tail)
  | quote (tail : List Char) : Opening ('"' :: tail)
  | word {name : String} (tail : List Char) (hname : isName name = true) (htail : ∀ c ∈ tail.head?, c = '(') :
      Opening (name.toList ++ tail)

def EndsExpr (rest : List Char) : Prop := ∃ c ∈ rest.head?, c = ' ' ∨ c = ')' ∨ c = ',' ∨ c = ';'

theorem EndsExpr.stops {rest : List Char} (h : EndsExpr rest) {keep : Char → Bool}
    (hkeep : [' ', ')', ',', ';'].any keep = false) : ∀ c ∈ rest.head?, keep c = false := by
  obtain ⟨d, hd, hends⟩ := h
  intro c hc
  obtain rfl : d = c := Option.some.inj (hd.symm.trans hc)
  exact Bool.eq_false_iff.mpr (List.any_eq_false.mp hkeep d (by simpa using hends))

structure ReadsExpr (text : List Char) (e : Expr) : Prop where
  opening : Opening text
  reads : ∀ fuel rest, text.length < fuel → EndsExpr rest → readExpr fuel (text ++ rest) = some (e, rest)

/-! ### Beginnings and ends -/

theorem not_isDigit_of_isAlpha {c : Char} (h : c.isAlpha = true) : c.isDigit = false := by
  unfold Char.isAlpha Char.isUpper Char.isLower at h
  unfold Char.isDigit
  simp only [Bool.or_eq_true, Bool.and_eq_true, decide_eq_true_eq, UInt32.le_iff_toNat_le, Bool.and_eq_false_iff,
    decide_eq_false_iff_not, ge_iff_le] at h ⊢
  have hA : 'A'.val.toNat = 65 := rfl
  have ha : 'a'.val.toNat = 97 := rfl
  have h9 : '9'.val.toNat = 57 := rfl
  omega

theorem not_isNumberStart {c : Char} (h : isNameStart c = true) : isNumberStart c = false := by
  simp only [isNameStart, Bool.or_eq_true, decide_eq_true_eq] at h
  rcases h with h | rfl
  · have hminus : c ≠ '-' := by
      rintro rfl
      cases h
    simp [isNumberStart, not_isDigit_of_isAlpha h, hminus]
  · decide

theorem isName_begins {name : String} (h : isName name = true) : ∃ c ∈ name.toList.head?, isNameStart c = true := by
  simp only [isName, Bool.and_eq_true, Option.any_eq_true] at h
  obtain ⟨⟨⟨c, hc, hstart⟩, -⟩, -⟩ := h
  exact ⟨c, hc, hstart⟩

theorem isNameChar_of_isName {name : String} (h : isName name = true) : ∀ c ∈ name.toList, isNameChar c = true := by
  simp only [isName, Bool.and_eq_true, List.all_eq_true] at h
  exact h.1.2

def opensExpr (c : Char) : Bool := isNumberStart c || c = '(' || c = '"' || isNameStart c

theorem Opening.begins {text : List Char} (h : Opening text) : ∃ c ∈ text.head?, opensExpr c = true := by
  cases h with
  | number h =>
    obtain ⟨c, hc, hstart⟩ := h.begins
    exact ⟨c, hc, by rcases hstart with h | rfl <;> simp [opensExpr, isNumberStart, *]⟩
  | paren tail => exact ⟨'(', rfl, rfl⟩
  | quote tail => exact ⟨'"', rfl, rfl⟩
  | word tail hname htail =>
    obtain ⟨c, hc, hstart⟩ := isName_begins hname
    exact ⟨c, head?_append_of_mem hc tail, by simp [opensExpr, hstart]⟩

theorem Opening.head_ne {text : List Char} (h : Opening text) {c : Char} (hc : opensExpr c = false)
    (rest : List Char) : (text ++ rest).head? ≠ some c := by
  obtain ⟨d, hd, hopens⟩ := h.begins
  rw [head?_append_of_mem hd]
  intro heq
  obtain rfl : d = c := Option.some.inj heq
  rw [hc] at hopens
  cases hopens

theorem head_dropWhile_ne {text rest : List Char} {keep : Char → Bool} {d : Char} (htext : ∀ c ∈ text, c ≠ ' ')
    (hrest : rest.head? = some d) (hd : d ≠ ' ') (hkeep : keep d = false) :
    ((text ++ rest).dropWhile keep).head? ≠ some ' ' := by
  induction text with
  | nil =>
    cases rest with
    | nil => cases hrest
    | cons c rest =>
      obtain rfl : c = d := Option.some.inj hrest
      simpa [hkeep] using hd
  | cons c text ih =>
    rw [List.forall_mem_cons] at htext
    rw [List.cons_append, List.dropWhile_cons]
    split
    · exact ih htext.2
    · simpa using htext.1

theorem Opening.not_literal {text rest : List Char} (h : Opening text) (hrest : rest.head? = some ')') :
    ((text ++ rest).dropWhile isNumberChar).head? ≠ some ' ' := by
  have hblank {keep : Char → Bool} (hkeep : keep ' ' = false) {c : Char} (hc : keep c = true) : c ≠ ' ' := by
    rintro rfl
    rw [hkeep] at hc
    cases hc
  cases h with
  | number h => exact head_dropWhile_ne (fun c hc => hblank (by decide) (h.chars c hc)) hrest (by decide) (by decide)
  | paren tail =>
    exact @head_dropWhile_ne [] _ _ '(' (List.forall_mem_nil _) rfl (by decide) (by decide)
  | quote tail =>
    exact @head_dropWhile_ne [] _ _ '"' (List.forall_mem_nil _) rfl (by decide) (by decide)
  | @word name tail hname htail =>
    have hchars : ∀ c ∈ name.toList, c ≠ ' ' := fun c hc => hblank (by decide) (isNameChar_of_isName hname c hc)
    rw [List.append_assoc]
    cases tail with
    | nil => exact head_dropWhile_ne hchars hrest (by decide) (by decide)
    | cons c tail =>
      obtain rfl := htail c rfl
      exact head_dropWhile_ne hchars (rfl : _ = some '(') (by decide) (by decide)

/-! ### Literals -/

theorem isNumber_numberText {e : Expr} {token : List Char} (h : numberText e = some token) : IsNumber token := by
  cases e with
  | int value =>
    obtain rfl := Option.some.inj h
    exact isNumber_intText _
  | double value =>
    simp only [numberText] at h
    split at h
    · obtain rfl := Option.some.inj h
      exact Double.isNumber_text ‹_›
    · cases h
  | _ => cases h

theorem numberText_inj {e e' : Expr} {token : List Char} (h : numberText e = some token)
    (h' : numberText e' = some token) : e = e' := by
  have hdouble {value : Double} (h : numberText (.double value) = some token) :
      value.isFinite = true ∧ value.text.toList = token := by
    simp only [numberText] at h
    split at h
    · exact ⟨‹_›, Option.some.inj h⟩
    · cases h
  cases e with
  | int value =>
    have htoken : intText value.toInt = token := Option.some.inj h
    cases e' with
    | int value' =>
      have htoken' : intText value'.toInt = token := Option.some.inj h'
      rw [Int64.toInt_inj.mp (intText_injective (htoken.trans htoken'.symm))]
    | double value' =>
      obtain ⟨hfinite, htoken'⟩ := hdouble h'
      exact absurd (htoken'.trans htoken.symm) (Double.text_ne_intText hfinite _)
    | _ => cases h'
  | double value =>
    obtain ⟨hfinite, htoken⟩ := hdouble h
    cases e' with
    | int value' =>
      have htoken' : intText value'.toInt = token := Option.some.inj h'
      exact absurd (htoken.trans htoken'.symm) (Double.text_ne_intText hfinite _)
    | double value' =>
      obtain ⟨hfinite', htoken'⟩ := hdouble h'
      rw [Double.text_injective hfinite hfinite' (String.toList_inj.mp (htoken.trans htoken'.symm))]
    | _ => cases h'
  | _ => cases h

theorem literal?_numberText {e : Expr} {token : List Char} (h : numberText e = some token) :
    literal? token = some e := by
  have hex : ∃ e, numberText e = some token := ⟨e, h⟩
  rw [literal?, dif_pos hex, numberText_inj hex.choose_spec h]

/-! ### Reading an expression -/

theorem ReadsExpr.item {text : List Char} {e : Expr} (h : ReadsExpr text e) {fuel : Nat} (hfuel : text.length < fuel) :
    ReadsItem (readExpr fuel) text e where
  begins := by
    obtain ⟨c, hc, hopens⟩ := h.opening.begins
    refine ⟨c, hc, ?_⟩
    rintro rfl
    cases hopens
  reads rest hrest := by
    refine h.reads fuel rest hfuel ?_
    rcases hrest with hrest | hrest
    · exact ⟨',', hrest, by decide⟩
    · exact ⟨')', hrest, by decide⟩

theorem readExpr_paren (fuel : Nat) (rest : List Char) :
    readExpr (fuel + 1) ("(".toList ++ rest) = readOperation (readExpr fuel) rest := by
  rw [readExpr, read_bind (rfl : peek _ = some (some '(', _)), if_pos rfl, read_bind (expect_append "(" _)]

theorem readBinary_reads {fuel : Nat} {left right : List Char} {e e' : Expr} (hleft : ReadsExpr left e)
    (hright : ReadsExpr right e') (hleftFuel : left.length < fuel) (hrightFuel : right.length < fuel) (op : BinaryOp)
    (rest : List Char) :
    readBinary (readExpr fuel) (left ++ (" ".toList ++ (op.symbol.toList ++ (" ".toList ++ (right ++
      (")".toList ++ rest)))))) = some (.binary op e e', rest) := by
  have hsymbol : op.symbol.toList.all (· != ' ') = true := by cases op <;> decide
  have hop : binaryOf? op.symbol.toList = some op := by cases op <;> decide
  rw [readBinary, read_bind (hleft.reads _ _ hleftFuel ⟨' ', rfl, by decide⟩), read_bind (expect_append " " _),
    read_bind (readOp_run hop hsymbol _), read_bind (expect_append " " _),
    read_bind (hright.reads _ _ hrightFuel ⟨')', rfl, by decide⟩), read_bind (expect_append ")" _)]
  rfl

theorem readOperation_binary {left rest : List Char} (hleft : Opening left) (hrest : rest.head? = some ' ')
    (expr : Reader Expr) : readOperation expr (left ++ rest) = readBinary expr (left ++ rest) := by
  have hminus : ¬ ((left ++ rest).head? = some '-' ∧
      decide (((left ++ rest).dropWhile isNumberChar).head? = some ' ') = false) := by
    rintro ⟨hhead, hliteral⟩
    cases hleft with
    | number h =>
      have hdrop : (left ++ rest).dropWhile isNumberChar = rest := by
        refine dropWhile_run h.chars fun c hc => ?_
        obtain rfl : ' ' = c := Option.some.inj (hrest.symm.trans hc)
        decide
      rw [hdrop, hrest] at hliteral
      cases hliteral
    | paren tail => cases hhead
    | quote tail => cases hhead
    | word tail hname htail =>
      obtain ⟨c, hc, hstart⟩ := isName_begins hname
      rw [List.append_assoc, head?_append_of_mem hc] at hhead
      obtain rfl : c = '-' := Option.some.inj hhead
      cases hstart
  rw [readOperation, read_bind (rfl : peek _ = some (_, _)), read_bind (rfl : atLiteral _ = some (_, _)),
    if_neg (hleft.head_ne (by decide) rest), if_neg hminus]

theorem readOperation_not (expr : Reader Expr) (rest : List Char) :
    readOperation expr ("!".toList ++ rest) = readUnary .not expr rest := by
  rw [readOperation, read_bind (rfl : peek _ = some (some '!', _)), read_bind (rfl : atLiteral _ = some (_, _)),
    if_pos rfl, read_bind (expect_append "!" rest)]

theorem readOperation_neg {text rest : List Char} (htext : Opening text) (hrest : rest.head? = some ')')
    (expr : Reader Expr) : readOperation expr ("-".toList ++ (text ++ rest)) = readUnary .neg expr (text ++ rest) := by
  have hliteral : decide ((("-".toList ++ (text ++ rest)).dropWhile isNumberChar).head? = some ' ') = false :=
    decide_eq_false (htext.not_literal hrest)
  rw [readOperation, read_bind (rfl : peek _ = some (some '-', _)), read_bind (rfl : atLiteral _ = some (_, _)),
    if_neg (by decide), if_pos ⟨rfl, hliteral⟩, read_bind (expect_append "-" _)]

theorem ReadsExpr.binary {left right : List Char} {e e' : Expr} (hleft : ReadsExpr left e) (hright : ReadsExpr right e')
    (op : BinaryOp) : ReadsExpr ("(".toList ++ (left ++ (" ".toList ++ (op.symbol.toList ++ (" ".toList ++ (right ++
      ")".toList)))))) (.binary op e e') where
  opening := .paren _
  reads fuel rest hfuel _ := by
    obtain ⟨fuel, rfl⟩ := Nat.exists_eq_succ_of_ne_zero (Nat.ne_zero_of_lt hfuel)
    have hopen : "(".toList.length = 1 := rfl
    simp only [List.length_append] at hfuel
    simp only [List.append_assoc]
    rw [readExpr_paren, readOperation_binary hleft.opening rfl]
    exact readBinary_reads hleft hright (by omega) (by omega) op rest

theorem ReadsExpr.unary {text : List Char} {e : Expr} (h : ReadsExpr text e) (op : UnaryOp) :
    ReadsExpr ("(".toList ++ (op.symbol.toList ++ (text ++ ")".toList))) (.unary op e) where
  opening := .paren _
  reads fuel rest hfuel _ := by
    obtain ⟨fuel, rfl⟩ := Nat.exists_eq_succ_of_ne_zero (Nat.ne_zero_of_lt hfuel)
    have hopen : "(".toList.length = 1 := rfl
    simp only [List.length_append] at hfuel
    have hunary : readUnary op (readExpr fuel) (text ++ (")".toList ++ rest)) = some (.unary op e, rest) := by
      rw [readUnary, read_bind (h.reads _ _ (by omega) ⟨')', rfl, by decide⟩), read_bind (expect_append ")" rest)]
      rfl
    simp only [List.append_assoc]
    rw [readExpr_paren]
    cases op with
    | neg => exact (readOperation_neg h.opening rfl _).trans hunary
    | not => exact (readOperation_not _ _).trans hunary

theorem ReadsExpr.string {value : String} (hvalue : '"' ∉ value.toList) :
    ReadsExpr ("\"".toList ++ ((Text.escape value).text.toList ++ "\"".toList)) (.string value) where
  opening := .quote _
  reads fuel rest hfuel _ := by
    obtain ⟨fuel, rfl⟩ := Nat.exists_eq_succ_of_ne_zero (Nat.ne_zero_of_lt hfuel)
    have hquote : ∀ c ∈ value.toList, Text.escapeLetter c = none → c ≠ '"' := by
      rintro c hc - rfl
      exact hvalue hc
    have hquoted : quoted '"' ((Text.escape value).text.toList ++ ("\"".toList ++ rest)) = some (value, rest) :=
      quoted_escape (by decide) hquote rest
    simp only [List.append_assoc]
    rw [readExpr, read_bind (rfl : peek _ = some (some '"', _)), if_neg (by decide), if_pos rfl,
      read_bind (expect_append "\"" _), read_bind hquoted]
    rfl

theorem ReadsExpr.literal {e : Expr} {token : List Char} (h : numberText e = some token) : ReadsExpr token e where
  opening := .number (isNumber_numberText h)
  reads fuel rest hfuel hrest := by
    obtain ⟨fuel, rfl⟩ := Nat.exists_eq_succ_of_ne_zero (Nat.ne_zero_of_lt hfuel)
    have hnumber := isNumber_numberText h
    obtain ⟨c, hc, hstart⟩ := hnumber.begins
    have hnumeric : (some c).any isNumberStart = true := by simpa [isNumberStart] using hstart
    have hends : ∀ c ∈ rest.head?, isNumberChar c = false := hrest.stops (by decide)
    rw [readExpr, read_bind (rfl : peek _ = some (_, _)), head?_append_of_mem hc]
    rw [if_neg (by rintro ⟨⟩; cases hnumeric), if_neg (by rintro ⟨⟩; cases hnumeric), if_pos hnumeric,
      read_bind (takeAll_run hnumber.chars hends), literal?_numberText h]
    rfl

theorem readExpr_word {name : String} (hname : isName name = true) (fuel : Nat) {rest : List Char}
    (hrest : ∀ c ∈ rest.head?, isNameChar c = false) : readExpr (fuel + 1) (name.toList ++ rest) =
      if rest.head? = some '(' then
        (do expect "("; return Expr.call name (← readList (readExpr fuel) fuel) : Reader Expr) rest
      else some (.load name, rest) := by
  obtain ⟨c, hc, hstart⟩ := isName_begins hname
  have hnumeric : ¬ (some c).any isNumberStart = true := by simp [not_isNumberStart hstart]
  rw [readExpr, read_bind (rfl : peek _ = some (_, _)), head?_append_of_mem hc]
  rw [if_neg (by rintro ⟨⟩; cases hstart), if_neg (by rintro ⟨⟩; cases hstart), if_neg hnumeric,
    read_bind (takeAll_run (isNameChar_of_isName hname) hrest), read_bind (rfl : peek _ = some (_, _)),
    String.ofList_toList]
  split <;> rfl

theorem ReadsExpr.load {name : String} (hname : isName name = true) : ReadsExpr name.toList (.load name) where
  opening := by simpa using Opening.word [] hname (by simp)
  reads fuel rest hfuel hrest := by
    obtain ⟨fuel, rfl⟩ := Nat.exists_eq_succ_of_ne_zero (Nat.ne_zero_of_lt hfuel)
    have hcall : ¬ rest.head? = some '(' := by
      obtain ⟨d, hd, hends⟩ := hrest
      rw [hd]
      rcases hends with rfl | rfl | rfl | rfl <;> decide
    rw [readExpr_word hname fuel (hrest.stops (by decide)), if_neg hcall]

theorem readsItems {texts : List (List Char)} {es : List Expr} (h : List.Forall₂ ReadsExpr texts es) {fuel : Nat}
    (hfuel : ∀ text ∈ texts, text.length < fuel) : List.Forall₂ (ReadsItem (readExpr fuel)) texts es := by
  induction h with
  | nil => exact .nil
  | cons hfirst _ ih =>
    rw [List.forall_mem_cons] at hfuel
    exact .cons (hfirst.item hfuel.1) (ih hfuel.2)

theorem readList_args {texts : List (List Char)} {es : List Expr} (h : List.Forall₂ ReadsExpr texts es) {fuel : Nat}
    (hfuel : (listText texts).length < fuel) (rest : List Char) :
    readList (readExpr fuel) fuel (listText texts ++ (")".toList ++ rest)) = some (es, rest) := by
  have hlength := length_texts_le texts
  exact readList_texts (readsItems h fun text htext => (length_le_listText text htext).trans_lt hfuel) (by omega) rest

theorem ReadsExpr.call {name : String} (hname : isName name = true) {texts : List (List Char)} {es : List Expr}
    (h : List.Forall₂ ReadsExpr texts es) :
    ReadsExpr (name.toList ++ ("(".toList ++ (listText texts ++ ")".toList))) (.call name es) where
  opening := .word _ hname (by simp)
  reads fuel rest hfuel _ := by
    obtain ⟨fuel, rfl⟩ := Nat.exists_eq_succ_of_ne_zero (Nat.ne_zero_of_lt hfuel)
    have hopen : "(".toList.length = 1 := rfl
    simp only [List.length_append] at hfuel
    have hcall (rest : List Char) : ("(".toList ++ rest).head? = some '(' := rfl
    simp only [List.append_assoc]
    rw [readExpr_word hname fuel (stops_at '(' rfl (by decide)), if_pos (hcall _), read_bind (expect_append "(" _),
      read_bind (readList_args h (by omega) rest)]
    rfl

/-! ## Lines -/

/-- What a line is, as far as its first word tells. -/
inductive Head where
  | var (type : VarType)
  | function | forIn | whileLoop | ifElse | print | ret
  deriving DecidableEq, Repr

def heads : List (String × Head) :=
  VarType.all.map (fun type => (type.keyword, .var type)) ++
    [("function", .function), ("for", .forIn), ("while", .whileLoop), ("if", .ifElse), ("print", .print),
      ("return", .ret)]

def headOf? (word : List Char) : Option Head := (heads.find? (·.1.toList = word)).map (·.2)

def peekWord : Reader (List Char) := fun text => some (text.takeWhile isNameChar, text)

def readName : Reader String := do return String.ofList (← takeAll isNameChar)

def typeOf? (word : List Char) : Option VarType := VarType.all.find? (·.keyword.toList = word)

def assignOf? (symbol : List Char) : Option AssignOp := AssignOp.all.find? (·.symbol.toList = symbol)

def readType : Reader VarType := do given (typeOf? (← takeAll isNameChar))

def readParam : Reader Param := do
  let type ← readType
  expect " "
  return { name := ← readName, type }

structure Signature where
  type : VarType
  name : String
  params : List Param
  deriving DecidableEq, Repr

def readSignature (fuel : Nat) : Reader Signature := do
  expect "function "
  let type ← readType
  expect " "
  let name ← readName
  expect "("
  return { type, name, params := ← readList readParam fuel }

def readFunction (lines : Reader (List Line)) (fuel : Nat) : Reader Line := do
  let signature ← readSignature fuel
  expect " "
  if (← peek) = some 'n' then
    expect "native '"
    let symbol ← quoted '\''
    expect ";"
    return .native signature.type signature.name signature.params symbol
  else
    expect "\x7b\n"
    let body ← lines
    expect "\x7d"
    return .function signature.type signature.name signature.params body

def readIf (expr : Reader Expr) (lines : Reader (List Line)) : Reader Line := do
  expect "if ("
  let cond ← expr
  expect ") \x7b\n"
  let body ← lines
  expect "\x7d"
  if (← peek) = some ' ' then
    expect " else \x7b\n"
    let other ← lines
    expect "\x7d"
    return .ifElse cond body other
  else return .ifThen cond body

def readReturn (expr : Reader Expr) : Reader Line := do
  expect "return"
  if (← peek) = some ' ' then
    expect " "
    let value ← expr
    expect ";"
    return .ret (some value)
  else
    expect ";"
    return .ret none

def Expr.name? : Expr → Option String
  | .load name => some name
  | _ => none

/-- Reads a line that begins with no keyword. -/
def readSimple (expr : Reader Expr) : Reader Line := do
  let e ← expr
  if (← peek) = some ' ' then
    let name ← given e.name?
    expect " "
    let op ← readOp assignOf?
    expect " "
    let value ← expr
    expect ";"
    return .store name op value
  else
    expect ";"
    return .expr e

/-- Reads a line of which the first word is known, up to the end of the line. -/
def readBehind (expr : Reader Expr) (lines : Reader (List Line)) (fuel : Nat) : Option Head → Reader Line
  | some (.var type) => do
    expect type.keyword
    expect " "
    let name ← readName
    expect ";"
    return .var type name
  | some .function => readFunction lines fuel
  | some .forIn => do
    expect "for ("
    let name ← readName
    expect " in "
    let range ← expr
    expect ") \x7b\n"
    let body ← lines
    expect "\x7d\n"
    return .forIn name range body
  | some .whileLoop => do
    expect "while ("
    let cond ← expr
    expect ") \x7b\n"
    let body ← lines
    expect "\x7d\n"
    return .whileLoop cond body
  | some .ifElse => readIf expr lines
  | some .print => do
    expect "print"
    expect "("
    let args ← readList expr fuel
    expect ";"
    return .print args
  | some .ret => readReturn expr
  | none => readSimple expr

def readLine (expr : Reader Expr) (lines : Reader (List Line)) (fuel : Nat) : Reader Line := do
  readBehind expr lines fuel (headOf? (← peekWord))

/-- Reads lines up to the brace that closes their block, or to the end. -/
noncomputable def readLines : Nat → Reader (List Line)
  | 0 => given none
  | fuel + 1 => do
    let _ ← takeAll (· = ' ')
    let head ← peek
    if head = none ∨ head = some '\x7d' then return []
    else
      let line ← readLine (readExpr fuel) (readLines fuel) fuel
      expect "\n"
      return line :: (← readLines fuel)

/-- A line is read from a text, which does not look like the end of a block. -/
structure ReadsLine (text : List Char) (line : Line) : Prop where
  begins : ∃ c ∈ text.head?, c ≠ ' ' ∧ c ≠ '\x7d'
  reads : ∀ fuel rest, text.length ≤ fuel →
    readLine (readExpr fuel) (readLines fuel) fuel (text ++ ("\n".toList ++ rest)) = some (line, "\n".toList ++ rest)

/-- The lines of a block are read from a text, whatever blanks stand before the end of the block. -/
def ReadsLines (text : List Char) (lines : List Line) : Prop :=
  ∀ fuel margin rest, text.length < fuel → (∀ c ∈ margin, c = ' ') → (rest = [] ∨ rest.head? = some '\x7d') →
    readLines fuel (text ++ (margin ++ rest)) = some (lines, rest)

/-! ### Lines after lines -/

theorem ReadsLines.nil : ReadsLines [] [] := by
  intro fuel margin rest hfuel hmargin hrest
  obtain ⟨fuel, rfl⟩ := Nat.exists_eq_succ_of_ne_zero (Nat.ne_zero_of_lt hfuel)
  have hblanks : ∀ c ∈ margin, decide (c = ' ') = true := fun c hc => decide_eq_true (hmargin c hc)
  have hend : ∀ c ∈ rest.head?, decide (c = ' ') = false := by
    rcases hrest with rfl | hrest
    · simp
    · rw [hrest]
      simp
  have hclose : rest.head? = none ∨ rest.head? = some '\x7d' := hrest.imp (fun h => by rw [h]; rfl) id
  rw [List.nil_append, readLines, read_bind (takeAll_run hblanks hend), read_bind (rfl : peek _ = some (_, _)),
    if_pos hclose]
  rfl

theorem ReadsLines.cons {text more margin : List Char} {line : Line} {lines : List Line} (hline : ReadsLine text line)
    (hlines : ReadsLines more lines) (hmargin : ∀ c ∈ margin, c = ' ') :
    ReadsLines (margin ++ (text ++ ("\n".toList ++ more))) (line :: lines) := by
  intro fuel after rest hfuel hafter hrest
  obtain ⟨fuel, rfl⟩ := Nat.exists_eq_succ_of_ne_zero (Nat.ne_zero_of_lt hfuel)
  have hblanks : ∀ c ∈ margin, decide (c = ' ') = true := fun c hc => decide_eq_true (hmargin c hc)
  obtain ⟨c, hc, hblank, hclose⟩ := hline.begins
  have hend (rest : List Char) : ∀ d ∈ (text ++ rest).head?, decide (d = ' ') = false :=
    stops_at c (head?_append_of_mem hc rest) (decide_eq_false hblank)
  have hopen : ¬ (some c = none ∨ some c = some '\x7d') := by simpa using hclose
  have hnewline : "\n".toList.length = 1 := rfl
  simp only [List.length_append] at hfuel
  simp only [List.append_assoc]
  rw [readLines, read_bind (takeAll_run hblanks (hend _)), read_bind (rfl : peek _ = some (_, _)),
    head?_append_of_mem hc, if_neg hopen, read_bind (hline.reads fuel _ (by omega)), read_bind (expect_append "\n" _),
    read_bind (hlines fuel after rest (by omega) hafter hrest)]
  rfl

/-! ### Reading a line -/

section Line

variable {expr : Reader Expr} {lines : Reader (List Line)} {fuel : Nat}

theorem readLine_word {word rest : List Char} (hword : ∀ c ∈ word, isNameChar c = true)
    (hrest : ∀ c ∈ rest.head?, isNameChar c = false) :
    readLine expr lines fuel (word ++ rest) = readBehind expr lines fuel (headOf? word) (word ++ rest) := by
  have hpeek : peekWord (word ++ rest) = some (word, word ++ rest) := by rw [peekWord, takeWhile_run hword hrest]
  rw [readLine, read_bind hpeek]

theorem readLine_keyword (word : String) (head : Head) {text : List Char}
    (hword : text.takeWhile isNameChar = word.toList) (hhead : headOf? word.toList = some head) :
    readLine expr lines fuel text = readBehind expr lines fuel (some head) text := by
  rw [readLine, read_bind (rfl : peekWord text = some (_, _)), hword, hhead]

theorem keyword_chars (type : VarType) : ∀ c ∈ type.keyword.toList, isNameChar c = true :=
  List.all_eq_true.mp (by cases type <;> decide)

theorem readType_run (type : VarType) (rest : List Char) :
    readType (type.keyword.toList ++ (" ".toList ++ rest)) = some (type, " ".toList ++ rest) := by
  have htype : typeOf? type.keyword.toList = some type := by cases type <;> decide
  rw [readType, read_bind (takeAll_run (keyword_chars type) (stops_at ' ' rfl (by decide))), htype]
  rfl

theorem readName_run {name : String} (hname : isName name = true) {rest : List Char}
    (hrest : ∀ c ∈ rest.head?, isNameChar c = false) : readName (name.toList ++ rest) = some (name, rest) := by
  rw [readName, read_bind (takeAll_run (isNameChar_of_isName hname) hrest)]
  exact congrArg (fun name => some (name, rest)) String.ofList_toList

end Line

theorem headOf?_name {name : String} (hname : isName name = true) : headOf? name.toList = none := by
  have hkeyword : ∀ head ∈ heads, head.1 ∈ keywords := by decide
  have hfind : heads.find? (·.1.toList = name.toList) = none := by
    refine List.find?_eq_none.mpr fun head hhead heq => ?_
    have hname : name ∉ keywords := by simp [isName] at hname; exact hname.2
    rw [← String.toList_inj.mp (of_decide_eq_true heq)] at hname
    exact hname (hkeyword head hhead)
  rw [headOf?, hfind]
  rfl

theorem headOf?_other {word : List Char} (hword : ∀ c ∈ word.head?, c.isAlpha = false) : headOf? word = none := by
  have halpha : ∀ head ∈ heads, head.1.toList.head?.any Char.isAlpha = true := by decide
  have hfind : heads.find? (·.1.toList = word) = none := by
    refine List.find?_eq_none.mpr fun head hhead heq => ?_
    have hany := halpha head hhead
    rw [of_decide_eq_true heq, Option.any_eq_true] at hany
    obtain ⟨c, hc, hcalpha⟩ := hany
    rw [hword c hc] at hcalpha
    cases hcalpha
  rw [headOf?, hfind]
  rfl

theorem readLine_simple {expr : Reader Expr} {lines : Reader (List Line)} {fuel : Nat} {text rest : List Char}
    (htext : Opening text) (hrest : EndsExpr rest) :
    readLine expr lines fuel (text ++ rest) = readSimple expr (text ++ rest) := by
  have hpeek : peekWord (text ++ rest) = some ((text ++ rest).takeWhile isNameChar, text ++ rest) := rfl
  have hhead : headOf? ((text ++ rest).takeWhile isNameChar) = none := by
    cases htext with
    | number h =>
      obtain ⟨c, hc, hstart⟩ := h.begins
      refine headOf?_other fun d hd => ?_
      rw [List.head?_takeWhile, head?_append_of_mem hc] at hd
      obtain rfl : c = d := Option.some.inj (Option.mem_filter_iff.mp hd).1
      rcases hstart with hdigit | rfl
      · exact Bool.eq_false_iff.mpr fun halpha => by rw [not_isDigit_of_isAlpha halpha] at hdigit; cases hdigit
      · decide
    | paren tail => rfl
    | quote tail => rfl
    | @word name tail hname htail =>
      have hend : ∀ c ∈ (tail ++ rest).head?, isNameChar c = false := by
        cases tail with
        | nil => exact hrest.stops (by decide)
        | cons c tail =>
          rintro d ⟨⟩
          rw [htail c rfl]
          decide
      rw [List.append_assoc, takeWhile_run (isNameChar_of_isName hname) hend, headOf?_name hname]
  rw [readLine, read_bind hpeek, hhead, readBehind]

theorem Opening.begins_line {text : List Char} (h : Opening text) (rest : List Char) :
    ∃ c ∈ (text ++ rest).head?, c ≠ ' ' ∧ c ≠ '\x7d' := by
  obtain ⟨c, hc, hopens⟩ := h.begins
  refine ⟨c, head?_append_of_mem hc rest, ?_, ?_⟩ <;> (rintro rfl; cases hopens)

/-! ### Lines of every kind -/

theorem ReadsLine.expr {text : List Char} {e : Expr} (h : ReadsExpr text e) :
    ReadsLine (text ++ ";".toList) (.expr e) where
  begins := h.opening.begins_line _
  reads fuel rest hfuel := by
    have hsemicolon : ";".toList.length = 1 := rfl
    rw [List.length_append] at hfuel
    rw [List.append_assoc, readLine_simple h.opening ⟨';', rfl, by decide⟩, readSimple,
      read_bind (h.reads fuel _ (by omega) ⟨';', rfl, by decide⟩), read_bind (rfl : peek _ = some (some ';', _)),
      if_neg (by decide), read_bind (expect_append ";" _)]
    rfl

theorem ReadsLine.store {name : String} (hname : isName name = true) {text : List Char} {e : Expr}
    (h : ReadsExpr text e) (op : AssignOp) :
    ReadsLine (name.toList ++ (" ".toList ++ (op.symbol.toList ++ (" ".toList ++ (text ++
      ";".toList))))) (.store name op e) where
  begins := (ReadsExpr.load hname).opening.begins_line _
  reads fuel rest hfuel := by
    have hsymbol : op.symbol.toList.all (· != ' ') = true := by cases op <;> decide
    have hop : assignOf? op.symbol.toList = some op := by cases op <;> decide
    have hblank : " ".toList.length = 1 := rfl
    simp only [List.length_append] at hfuel
    simp only [List.append_assoc]
    rw [readLine_simple (ReadsExpr.load hname).opening ⟨' ', rfl, by decide⟩, readSimple,
      read_bind ((ReadsExpr.load hname).reads fuel _ (by omega) ⟨' ', rfl, by decide⟩),
      read_bind (rfl : peek _ = some (some ' ', _)), if_pos rfl,
      read_bind (rfl : given (Expr.load name).name? _ = some (name, _)),
      read_bind (expect_append " " _), read_bind (readOp_run hop hsymbol _), read_bind (expect_append " " _),
      read_bind (h.reads fuel _ (by omega) ⟨';', rfl, by decide⟩),
      read_bind (expect_append ";" _)]
    rfl

theorem ReadsLine.var {name : String} (hname : isName name = true) (type : VarType) :
    ReadsLine (type.keyword.toList ++ (" ".toList ++ (name.toList ++ ";".toList))) (.var type name) where
  begins := by cases type <;> exact ⟨_, rfl, by decide⟩
  reads fuel rest hfuel := by
    have hhead : headOf? type.keyword.toList = some (.var type) := by cases type <;> decide
    simp only [List.append_assoc]
    rw [readLine_word (keyword_chars type) (stops_at ' ' rfl (by decide)), hhead, readBehind,
      read_bind (expect_append _ _),
      read_bind (expect_append " " _), read_bind (readName_run hname (stops_at ';' rfl (by decide))),
      read_bind (expect_append ";" _)]
    rfl

def paramText (param : Param) : List Char := param.type.keyword.toList ++ (" ".toList ++ param.name.toList)

theorem readParam_item {param : Param} (hname : isName param.name = true) :
    ReadsItem readParam (paramText param) param where
  begins := by
    rw [paramText]
    cases param.type <;> exact ⟨_, rfl, by decide⟩
  reads rest hrest := by
    have hend : ∀ c ∈ rest.head?, isNameChar c = false := by
      rcases hrest with hrest | hrest <;> (rw [hrest]; rintro c ⟨⟩; decide)
    simp only [paramText, List.append_assoc]
    rw [readParam, read_bind (readType_run _ _), read_bind (expect_append " " _), read_bind (readName_run hname hend)]
    rfl

theorem readList_params {params : List Param} (hparams : ∀ param ∈ params, isName param.name = true) {fuel : Nat}
    (hfuel : (listText (params.map paramText)).length < fuel) (rest : List Char) :
    readList readParam fuel (listText (params.map paramText) ++ (")".toList ++ rest)) = some (params, rest) := by
  have hitems : List.Forall₂ (ReadsItem readParam) (params.map paramText) params :=
    List.forall₂_map_left_iff.mpr (List.forall₂_same.mpr fun param hparam => readParam_item (hparams param hparam))
  have hlength := length_texts_le (params.map paramText)
  exact readList_texts hitems (by omega) rest

def signatureText (type : VarType) (name : String) (params : List Param) : List Char :=
  "function ".toList ++ (type.keyword.toList ++ (" ".toList ++ (name.toList ++ ("(".toList ++
    (listText (params.map paramText) ++ ")".toList)))))

theorem readSignature_reads {name : String} (hname : isName name = true) {params : List Param}
    (hparams : ∀ param ∈ params, isName param.name = true) (type : VarType) {fuel : Nat}
    (hfuel : (signatureText type name params).length ≤ fuel) (rest : List Char) :
    readSignature fuel (signatureText type name params ++ rest) = some (⟨type, name, params⟩, rest) := by
  have hopen : "(".toList.length = 1 := rfl
  unfold signatureText at hfuel ⊢
  simp only [List.length_append] at hfuel
  simp only [List.append_assoc]
  rw [readSignature, read_bind (expect_append "function " _), read_bind (readType_run type _),
    read_bind (expect_append " " _), read_bind (readName_run hname (stops_at '(' rfl (by decide))),
    read_bind (expect_append "(" _), read_bind (readList_params hparams (by omega) _)]
  rfl

section Bodies

variable {name : String} {params : List Param} {text body other margin margin' : List Char} {e : Expr}
  {lines lines' : List Line} {texts : List (List Char)} {es : List Expr}

theorem ReadsLines.close (h : ReadsLines body lines) {fuel : Nat} (hfuel : body.length < fuel)
    (hmargin : ∀ c ∈ margin, c = ' ') (rest : List Char) :
    readLines fuel (body ++ (margin ++ ("\x7d".toList ++ rest))) = some (lines, "\x7d".toList ++ rest) :=
  h fuel margin _ hfuel hmargin (Or.inr rfl)

theorem ReadsLine.native (hname : isName name = true) (hparams : ∀ param ∈ params, isName param.name = true)
    (type : VarType) (symbol : String) :
    ReadsLine (signatureText type name params ++ (" native '".toList ++ ((Text.escape symbol).text.toList ++
      "';".toList))) (.native type name params symbol) where
  begins := ⟨'f', rfl, by decide⟩
  reads fuel rest hfuel := by
    have hquote : ∀ c ∈ symbol.toList, Text.escapeLetter c = none → c ≠ '\'' := by
      rintro c - hc rfl
      cases hc
    have hquoted : quoted '\'' ((Text.escape symbol).text.toList ++ ("';".toList ++ ("\n".toList ++ rest))) =
        some (symbol, ";".toList ++ ("\n".toList ++ rest)) := quoted_escape (by decide) hquote _
    have hblank : " native '".toList = " ".toList ++ "native '".toList := rfl
    rw [List.length_append] at hfuel
    simp only [hblank, List.append_assoc]
    rw [readLine_keyword "function" .function rfl (by decide), readBehind, readFunction,
      read_bind (readSignature_reads hname hparams type (by omega) _), read_bind (expect_append " " _),
      read_bind (rfl : peek _ = some (some 'n', _)), if_pos rfl, read_bind (expect_append "native '" _),
      read_bind hquoted, read_bind (expect_append ";" _)]
    rfl

theorem ReadsLine.function (hname : isName name = true) (hparams : ∀ param ∈ params, isName param.name = true)
    (hbody : ReadsLines body lines) (hmargin : ∀ c ∈ margin, c = ' ') (type : VarType) :
    ReadsLine (signatureText type name params ++ (" \x7b\n".toList ++ (body ++ (margin ++ "\x7d".toList))))
      (.function type name params lines) where
  begins := ⟨'f', rfl, by decide⟩
  reads fuel rest hfuel := by
    have hblank : " \x7b\n".toList = " ".toList ++ "\x7b\n".toList := rfl
    have hopen : " \x7b\n".toList.length = 3 := rfl
    simp only [List.length_append] at hfuel
    simp only [hblank, List.append_assoc]
    rw [readLine_keyword "function" .function rfl (by decide), readBehind, readFunction,
      read_bind (readSignature_reads hname hparams type (by omega) _), read_bind (expect_append " " _),
      read_bind (rfl : peek _ = some (some '\x7b', _)), if_neg (by decide),
      read_bind (expect_append "\x7b\n" _), read_bind (hbody.close (by omega) hmargin _),
      read_bind (expect_append "\x7d" _)]
    rfl

theorem ReadsLine.forIn (hname : isName name = true) (hrange : ReadsExpr text e) (hbody : ReadsLines body lines)
    (hmargin : ∀ c ∈ margin, c = ' ') :
    ReadsLine ("for (".toList ++ (name.toList ++ (" in ".toList ++ (text ++ (") \x7b\n".toList ++ (body ++ (margin ++
      "\x7d\n".toList))))))) (.forIn name e lines) where
  begins := ⟨'f', rfl, by decide⟩
  reads fuel rest hfuel := by
    have hclose : "\x7d\n".toList = "\x7d".toList ++ "\n".toList := rfl
    have hopen : ") \x7b\n".toList.length = 4 := rfl
    simp only [List.length_append] at hfuel
    simp only [hclose, List.append_assoc]
    rw [readLine_keyword "for" .forIn rfl (by decide), readBehind, read_bind (expect_append "for (" _),
      read_bind (readName_run hname (stops_at ' ' rfl (by decide))), read_bind (expect_append " in " _),
      read_bind (hrange.reads fuel _ (by omega) ⟨')', rfl, by decide⟩), read_bind (expect_append ") \x7b\n" _),
      read_bind (hbody.close (by omega) hmargin _)]
    exact read_bind (expect_append "\x7d\n" _)

theorem ReadsLine.whileLoop (hcond : ReadsExpr text e) (hbody : ReadsLines body lines)
    (hmargin : ∀ c ∈ margin, c = ' ') :
    ReadsLine ("while (".toList ++ (text ++ (") \x7b\n".toList ++ (body ++ (margin ++ "\x7d\n".toList)))))
      (.whileLoop e lines) where
  begins := ⟨'w', rfl, by decide⟩
  reads fuel rest hfuel := by
    have hclose : "\x7d\n".toList = "\x7d".toList ++ "\n".toList := rfl
    have hopen : ") \x7b\n".toList.length = 4 := rfl
    simp only [List.length_append] at hfuel
    simp only [hclose, List.append_assoc]
    rw [readLine_keyword "while" .whileLoop rfl (by decide), readBehind, read_bind (expect_append "while (" _),
      read_bind (hcond.reads fuel _ (by omega) ⟨')', rfl, by decide⟩), read_bind (expect_append ") \x7b\n" _),
      read_bind (hbody.close (by omega) hmargin _)]
    exact read_bind (expect_append "\x7d\n" _)

theorem ReadsLine.ifThen (hcond : ReadsExpr text e) (hbody : ReadsLines body lines) (hmargin : ∀ c ∈ margin, c = ' ') :
    ReadsLine ("if (".toList ++ (text ++ (") \x7b\n".toList ++ (body ++ (margin ++ "\x7d".toList)))))
      (.ifThen e lines) where
  begins := ⟨'i', rfl, by decide⟩
  reads fuel rest hfuel := by
    have hopen : ") \x7b\n".toList.length = 4 := rfl
    simp only [List.length_append] at hfuel
    simp only [List.append_assoc]
    rw [readLine_keyword "if" .ifElse rfl (by decide), readBehind, readIf, read_bind (expect_append "if (" _),
      read_bind (hcond.reads fuel _ (by omega) ⟨')', rfl, by decide⟩), read_bind (expect_append ") \x7b\n" _),
      read_bind (hbody.close (by omega) hmargin _), read_bind (expect_append "\x7d" _),
      read_bind (rfl : peek _ = some (some '\n', _)), if_neg (by decide)]
    rfl

theorem ReadsLine.ifElse (hcond : ReadsExpr text e) (hbody : ReadsLines body lines) (hmargin : ∀ c ∈ margin, c = ' ')
    (hother : ReadsLines other lines') (hmargin' : ∀ c ∈ margin', c = ' ') :
    ReadsLine ("if (".toList ++ (text ++ (") \x7b\n".toList ++ (body ++ (margin ++ ("\x7d".toList ++
      (" else \x7b\n".toList ++ (other ++ (margin' ++ "\x7d".toList))))))))) (.ifElse e lines lines') where
  begins := ⟨'i', rfl, by decide⟩
  reads fuel rest hfuel := by
    have hopen : ") \x7b\n".toList.length = 4 := rfl
    simp only [List.length_append] at hfuel
    simp only [List.append_assoc]
    rw [readLine_keyword "if" .ifElse rfl (by decide), readBehind, readIf, read_bind (expect_append "if (" _),
      read_bind (hcond.reads fuel _ (by omega) ⟨')', rfl, by decide⟩), read_bind (expect_append ") \x7b\n" _),
      read_bind (hbody.close (by omega) hmargin _), read_bind (expect_append "\x7d" _),
      read_bind (rfl : peek _ = some (some ' ', _)), if_pos rfl, read_bind (expect_append " else \x7b\n" _),
      read_bind (hother.close (by omega) hmargin' _), read_bind (expect_append "\x7d" _)]
    rfl

end Bodies

theorem ReadsLine.print {texts : List (List Char)} {es : List Expr} (h : List.Forall₂ ReadsExpr texts es) :
    ReadsLine ("print".toList ++ ("(".toList ++ (listText texts ++ (")".toList ++ ";".toList)))) (.print es) where
  begins := ⟨'p', rfl, by decide⟩
  reads fuel rest hfuel := by
    have hopen : "(".toList.length = 1 := rfl
    simp only [List.length_append] at hfuel
    simp only [List.append_assoc]
    rw [readLine_keyword "print" .print rfl (by decide), readBehind, read_bind (expect_append "print" _),
      read_bind (expect_append "(" _), read_bind (readList_args h (by omega) _), read_bind (expect_append ";" _)]
    rfl

theorem ReadsLine.retNone : ReadsLine ("return".toList ++ ";".toList) (.ret none) where
  begins := ⟨'r', rfl, by decide⟩
  reads fuel rest _ := by
    rw [List.append_assoc, readLine_keyword "return" .ret rfl (by decide), readBehind, readReturn,
      read_bind (expect_append "return" _), read_bind (rfl : peek _ = some (some ';', _)), if_neg (by decide),
      read_bind (expect_append ";" _)]
    rfl

theorem ReadsLine.ret {text : List Char} {e : Expr} (h : ReadsExpr text e) :
    ReadsLine ("return".toList ++ (" ".toList ++ (text ++ ";".toList))) (.ret (some e)) where
  begins := ⟨'r', rfl, by decide⟩
  reads fuel rest hfuel := by
    have hblank : " ".toList.length = 1 := rfl
    simp only [List.length_append] at hfuel
    simp only [List.append_assoc]
    rw [readLine_keyword "return" .ret rfl (by decide), readBehind, readReturn, read_bind (expect_append "return" _),
      read_bind (rfl : peek _ = some (some ' ', _)), if_pos rfl, read_bind (expect_append " " _),
      read_bind (h.reads fuel _ (by omega) ⟨';', rfl, by decide⟩), read_bind (expect_append ";" _)]
    rfl

end Canon.Source
