import Canon.Proofs.Margins
import Canon.Proofs.Readable

/-!
# Line by line

The text of a program is a list of lines, each with its text and the number of bodies around it. The list depends on the
program alone. In a width, a line begins with as many spaces as that number of steps has.
-/

namespace Canon

open Source

/-! ## Rows -/

/-- A line without its indentation and its end. -/
inductive Row where
  /-- A line with so many bodies around it. -/
  | line (level : Nat) (text : List Char)
  | empty
  deriving DecidableEq, Repr

namespace Row

def deeper : Row → Row
  | .line level text => .line (level + 1) text
  | .empty => .empty

def chars (width : Nat) : Row → List Char
  | .line level text => List.replicate (level * width) ' ' ++ (text ++ ['\n'])
  | .empty => ['\n']

end Row

/-- The rows of something with a body: a line that opens it, the body, and a line that closes it. -/
def bodyRows (opening : List Char) (body : List Row) (closing : List Char) : List Row :=
  .line 0 opening :: (body.map Row.deeper ++ [.line 0 closing])

def argsText (args : List (List Char)) : List Char := "(".toList ++ (listText args ++ ")".toList)

namespace Source

mutual

def Expr.chars : Expr → List Char
  | .binary op left right =>
    "(".toList ++ (left.chars ++ (" ".toList ++ (op.symbol.toList ++ (" ".toList ++ (right.chars ++ ")".toList)))))
  | .unary op operand => "(".toList ++ (op.symbol.toList ++ (operand.chars ++ ")".toList))
  | .string value => "\"".toList ++ ((Text.escape value).text.toList ++ "\"".toList)
  | .double value => value.text.toList
  | .int value => (toString value.toInt).toList
  | .load name => name.toList
  | .call name args => name.toList ++ argsText (Expr.allChars args)

def Expr.allChars : List Expr → List (List Char)
  | [] => []
  | e :: es => e.chars :: Expr.allChars es

end

theorem Expr.allChars_eq (es : List Expr) : Expr.allChars es = es.map Expr.chars := by
  induction es with
  | nil => rfl
  | cons e es ih => rw [Expr.allChars, ih, List.map_cons]

mutual

def Line.rows : Line → List Row
  | .var type name => [.line 0 (type.keyword.toList ++ (" ".toList ++ (name.toList ++ ";".toList)))]
  | .native type name params symbol =>
    [.line 0 (signatureText type name params ++
      (" native '".toList ++ ((Text.escape symbol).text.toList ++ "';".toList)))]
  | .function type name params body =>
    bodyRows (signatureText type name params ++ " \x7b".toList) (allRows body) "\x7d".toList
  | .expr value => [.line 0 (value.chars ++ ";".toList)]
  | .store name op value =>
    [.line 0 (name.toList ++ (" ".toList ++ (op.symbol.toList ++ (" ".toList ++ (value.chars ++ ";".toList)))))]
  | .forIn name range body =>
    bodyRows ("for (".toList ++ (name.toList ++ (" in ".toList ++ (range.chars ++ ") \x7b".toList)))) (allRows body)
      "\x7d".toList ++ [.empty]
  | .whileLoop cond body =>
    bodyRows ("while (".toList ++ (cond.chars ++ ") \x7b".toList)) (allRows body) "\x7d".toList ++ [.empty]
  | .ifThen cond body => bodyRows ("if (".toList ++ (cond.chars ++ ") \x7b".toList)) (allRows body) "\x7d".toList
  | .ifElse cond body other =>
    .line 0 ("if (".toList ++ (cond.chars ++ ") \x7b".toList)) ::
      ((allRows body).map Row.deeper ++ bodyRows "\x7d else \x7b".toList (allRows other) "\x7d".toList)
  | .print args => [.line 0 ("print".toList ++ (argsText (Expr.allChars args) ++ ";".toList))]
  | .ret none => [.line 0 "return;".toList]
  | .ret (some value) => [.line 0 ("return ".toList ++ (value.chars ++ ";".toList))]

def allRows : List Line → List Row
  | [] => []
  | line :: lines => line.rows ++ allRows lines

end

end Source

/-! ## Texts of one line -/

/-- A text that can stand behind an indentation. -/
structure OneLine (text : List Char) : Prop where
  begins : ∃ c ∈ text.head?, c ≠ ' '
  unbroken : '\n' ∉ text

theorem OneLine.append {text more : List Char} (h : OneLine text) (hmore : '\n' ∉ more) : OneLine (text ++ more) where
  begins := by
    obtain ⟨c, hc, hne⟩ := h.begins
    exact ⟨c, head?_append_of_mem hc more, hne⟩
  unbroken := by
    simpa using ⟨h.unbroken, hmore⟩

/-- Only lines that are empty as a whole have no text of their own. -/
def Row.Tidy : Row → Prop
  | .line _ text => OneLine text
  | .empty => True

theorem OneLine.fixed {text : List Char} (h : (text.head?.any (· ≠ ' ') && !text.contains '\n') = true) :
    OneLine text := by
  simp only [Bool.and_eq_true, Option.any_eq_true, decide_eq_true_eq, Bool.not_eq_true', List.contains_eq_mem,
    decide_eq_false_iff_not] at h
  exact ⟨h.1, h.2⟩

theorem oneLine_brace : OneLine "\x7d".toList := .fixed rfl

theorem OneLine.opened {opening more : List Char} (h : (opening.head?.any (· ≠ ' ') && !opening.contains '\n') = true)
    (hmore : '\n' ∉ more) : OneLine (opening ++ more) := (OneLine.fixed h).append hmore

/-- Whether a text is an identifier, or a keyword. -/
def isIdentifier (name : String) : Bool := name.toList.head?.any isNameStart && name.toList.all isNameChar

theorem isIdentifier_of_isName {name : String} (h : isName name = true) : isIdentifier name = true := by
  simp only [isName, Bool.and_eq_true] at h
  simp only [isIdentifier, Bool.and_eq_true]
  exact h.1

theorem isIdentifier_chars {name : String} (h : isIdentifier name = true) : name.toList.all isNameChar = true := by
  rw [isIdentifier, Bool.and_eq_true] at h
  exact h.2

theorem isIdentifier_begins {name : String} (h : isIdentifier name = true) :
    ∃ c ∈ name.toList.head?, isNameStart c = true := by
  simp only [isIdentifier, Bool.and_eq_true, Option.any_eq_true] at h
  exact h.1

theorem oneLine_identifier {name : String} (h : isIdentifier name = true) : OneLine name.toList := by
  obtain ⟨c, hc, hstart⟩ := isIdentifier_begins h
  refine ⟨⟨c, hc, ?_⟩, fun hbreak => ?_⟩
  · rintro rfl
    cases hstart
  · cases List.all_eq_true.mp (isIdentifier_chars h) _ hbreak

theorem oneLine_isNumber {token : List Char} (h : IsNumber token) : OneLine token where
  begins := by
    obtain ⟨c, hc, hstart⟩ := h.begins
    refine ⟨c, hc, ?_⟩
    rintro rfl
    rcases hstart with h | h <;> cases h
  unbroken hbreak := by cases h.chars _ hbreak

theorem oneLine_double (x : Double) : OneLine x.text.toList := by
  by_cases hfinite : x.isFinite = true
  · exact oneLine_isNumber (Double.isNumber_text hfinite)
  · cases hnan : x.isNaN with
    | true => exact .fixed (by simp [Double.text, hnan])
    | false => cases hsign : x.isNegative <;> exact .fixed (by simp [Double.text, hnan, hfinite, hsign])

theorem oneLine_keyword (type : VarType) : OneLine type.keyword.toList := by
  cases type <;> exact .fixed rfl

theorem newline_not_mem_escape (s : String) : '\n' ∉ (Text.escape s).text.toList := by
  rw [Text.escape_text, String.toList_ofList]
  exact Text.not_mem_escapeChars rfl rfl s.toList

theorem newline_not_mem_listText {texts : List (List Char)} (h : ∀ text ∈ texts, '\n' ∉ text) :
    '\n' ∉ listText texts := by
  cases texts with
  | nil => exact List.not_mem_nil
  | cons text texts =>
    obtain ⟨htext, htexts⟩ := List.forall_mem_cons.mp h
    simpa [listText, htext] using htexts

theorem newline_not_mem_argsText {texts : List (List Char)} (h : ∀ text ∈ texts, '\n' ∉ text) :
    '\n' ∉ argsText texts := by
  have hlist := newline_not_mem_listText h
  simpa [argsText] using hlist

/-! ## Ink -/

/-- What a walk leaves behind, without a width. -/
inductive Ink where
  | margin (level : Nat)
  | char (c : Char)
  deriving DecidableEq, Repr

def Ink.deeper : Ink → Ink
  | .margin level => .margin (level + 1)
  | .char c => .char c

def Ink.chars (width : Nat) : Ink → List Char
  | .margin level => List.replicate (level * width) ' '
  | .char c => [c]

def inkText (text : List Char) : List Ink := text.map .char

def Row.ink : Row → List Ink
  | .line level text => .margin level :: inkText (text ++ ['\n'])
  | .empty => inkText ['\n']

def Act.ink : Act → List Ink
  | .text s => inkText s.toList
  | .margin level => [.margin level]
  | _ => []

def Piece.ink (below : NodeId → List Ink) : Piece → List Ink
  | .look _ => []
  | .text s => inkText s.toList
  | .margin => [.margin 0]
  | .node id => below id
  | .body id => (below id).map Ink.deeper

@[simp] theorem inkText_nil : inkText [] = [] := rfl

@[simp] theorem inkText_cons (c : Char) (text : List Char) : inkText (c :: text) = .char c :: inkText text := rfl

@[simp] theorem inkText_append (a b : List Char) : inkText (a ++ b) = inkText a ++ inkText b := List.map_append

theorem inkText_deeper (text : List Char) : (inkText text).map Ink.deeper = inkText text := by
  simp [inkText, Ink.deeper]

theorem inkText_chars (width : Nat) (text : List Char) : (inkText text).flatMap (Ink.chars width) = text := by
  simp [inkText, List.flatMap_map, Ink.chars]

theorem Act.ink_deeper (act : Act) : act.deeper.ink = act.ink.map Ink.deeper := by
  cases act with
  | text s => exact (inkText_deeper _).symm
  | _ => rfl

theorem Act.ink_chars (width : Nat) (act : Act) : act.ink.flatMap (Ink.chars width) = act.chars width 0 := by
  cases act with
  | text s => exact inkText_chars width _
  | margin level => simp [Act.ink, Ink.chars, Act.chars]
  | _ => rfl

theorem Row.ink_deeper (row : Row) : row.deeper.ink = row.ink.map Ink.deeper := by
  cases row with
  | line level text => rw [Row.ink, List.map_cons, inkText_deeper]; rfl
  | empty => exact (inkText_deeper _).symm

theorem Row.ink_chars (width : Nat) (row : Row) : row.ink.flatMap (Ink.chars width) = row.chars width := by
  cases row with
  | line level text => rw [Row.ink, List.flatMap_cons, inkText_chars]; rfl
  | empty => exact inkText_chars width _

theorem rows_deeper_ink (rows : List Row) :
    (rows.map Row.deeper).flatMap Row.ink = (rows.flatMap Row.ink).map Ink.deeper := by
  rw [List.flatMap_map, List.map_flatMap]
  exact List.flatMap_congr fun row _ => row.ink_deeper

namespace Program

variable {p : Program}

/-- The ink of a node. -/
def inkWithin (p : Program) (depth : Nat) (id : NodeId) : List Ink := (p.walkWithin depth id).flatMap Act.ink

theorem ink_acts (depth : Nat) (piece : Piece) :
    (piece.acts (p.walkWithin depth)).flatMap Act.ink = piece.ink (p.inkWithin depth) := by
  cases piece with
  | body id =>
    rw [Piece.acts, List.flatMap_map, Piece.ink, inkWithin, List.map_flatMap]
    exact List.flatMap_congr fun act _ => act.ink_deeper
  | text s => exact List.flatMap_singleton _ _
  | _ => rfl

theorem inkWithin_succ {id : NodeId} {node : Node} (hnode : p.node? id = some node) (depth : Nat) :
    p.inkWithin (depth + 1) id = (p.layout node).flatMap (Piece.ink (p.inkWithin depth)) := by
  rw [inkWithin, walkWithin, hnode, Option.map_some, Option.getD_some, List.flatMap_cons, List.flatMap_assoc]
  exact List.flatMap_congr fun piece _ => ink_acts depth piece

theorem commas_ink {α : Type} {below : NodeId → List Ink} {item : α → List Piece} {as : List α}
    {texts : List (List Char)}
    (h : List.Forall₂ (fun a text => (item a).flatMap (Piece.ink below) = inkText text) as texts) :
    (commas item as).flatMap (Piece.ink below) = inkText (listText texts) := by
  induction h with
  | nil => rfl
  | @cons a text as texts ha hrest ih =>
    cases hrest with
    | nil => simpa [commas, listText] using ha
    | @cons b text' as texts' hb hrest =>
      have hcommas : commas item (a :: b :: as) = item a ++ .text ", " :: commas item (b :: as) := rfl
      rw [hcommas, List.flatMap_append, List.flatMap_cons, ih, ha]
      simp only [listText, Piece.ink, List.flatMap_cons, inkText_append, List.append_assoc]

/-! ## Programs that are printed line by line -/

/-- A node whose operands are expressions, whose statements are not blocks, and whose names are identifiers. -/
structure RegularNode (p : Program) (node : Node) : Prop where
  operands : ∀ id ∈ node.operands, (p.node? id).any Node.isExpr = true
  stmts : ∀ id ∈ node.stmts, (p.node? id).any (!·.isBlock) = true
  names : ∀ name ∈ p.namesIn node, isIdentifier name = true

instance (p : Program) (node : Node) : Decidable (p.RegularNode node) :=
  decidable_of_iff ((∀ id ∈ node.operands, (p.node? id).any Node.isExpr = true) ∧
    (∀ id ∈ node.stmts, (p.node? id).any (!·.isBlock) = true) ∧ ∀ name ∈ p.namesIn node, isIdentifier name = true)
    ⟨fun ⟨operands, stmts, names⟩ => ⟨operands, stmts, names⟩, fun h => ⟨h.operands, h.stmts, h.names⟩⟩

/-- A validated program in which every node that is printed is regular. Its names may be keywords, and its literals are
any. -/
structure Regular (p : Program) : Prop where
  valid : p.validate = .ok ()
  nodes : ∀ id node, p.Met id → p.node? id = some node → p.RegularNode node

theorem WellShaped.regular (h : p.WellShaped) : p.Regular where
  valid := h.valid
  nodes id node hmet hnode := by
    obtain ⟨operands, stmts, names⟩ := h.nodes id node hmet hnode
    exact ⟨operands, stmts, fun name hname => isIdentifier_of_isName (names name hname)⟩

theorem Regular.linked (h : p.Regular) : p.Linked := (wellFormed_of_validate h.valid).toLinked

theorem isIdentifier_var {id : VarId} (hnames : ∀ name ∈ p.varNames [id], isIdentifier name = true) {var : Var}
    (hvar : p.var? id = some var) : isIdentifier var.name = true :=
  hnames _ (by simp [varNames, hvar])

/-! ## Expressions -/

/-- An expression stands on its line. -/
def ExprInks (p : Program) (depth : Nat) : Prop :=
  ∀ id node, p.Reached depth id → p.node? id = some node → node.isExpr = true →
    ∃ e, p.exprWithin depth id = some e ∧ p.inkWithin depth id = inkText e.chars ∧ OneLine e.chars

variable (hregular : p.Regular)

include hregular in
theorem operand_inks {depth : Nat} (hexprs : p.ExprInks depth) {id : NodeId} {node : Node}
    (hreached : p.Reached (depth + 1) id) (hnode : p.node? id = some node) :
    ∀ b ∈ node.operands, ∃ e, p.exprWithin depth b = some e ∧ p.inkWithin depth b = inkText e.chars ∧
      OneLine e.chars := by
  intro b hb
  obtain ⟨operand, hoperand, hexpr⟩ :=
    (Option.any_eq_true _ _).mp ((hregular.nodes id node hreached.met hnode).operands b hb)
  have hbelow : b ∈ p.below id := mem_below_of_children hnode (operands_subset_children node hb)
  exact hexprs b operand (hreached.below hregular.linked hbelow) hoperand hexpr

theorem args_ink {depth : Nat} (args : List NodeId) (h : ∀ b ∈ args, ∃ e, p.exprWithin depth b = some e ∧
      p.inkWithin depth b = inkText e.chars ∧ OneLine e.chars) :
    ∃ es, args.mapM (p.exprWithin depth) = some es ∧
      (layoutArgs args).flatMap (Piece.ink (p.inkWithin depth)) = inkText (argsText (Expr.allChars es)) ∧
      '\n' ∉ argsText (Expr.allChars es) := by
  obtain ⟨es, hes, hinks⟩ := mapM_forall₂ fun b hb => by
    obtain ⟨e, he, hink⟩ := h b hb
    exact ⟨e, he, fun (_ : Unit) => hink⟩
  obtain ⟨hlines, htexts⟩ : (∀ e ∈ es, '\n' ∉ e.chars) ∧
      List.Forall₂ (fun e b => p.inkWithin depth b = inkText e.chars) es args :=
    (List.forall₂_and_left _ _).mp ((hinks ()).flip.imp fun e b hink => ⟨hink.2.unbroken, hink.1⟩)
  have hargs : (commas (fun id => [.node id]) args).flatMap (Piece.ink (p.inkWithin depth)) =
      inkText (listText (Expr.allChars es)) := by
    apply commas_ink
    rw [Expr.allChars_eq, List.forall₂_map_right_iff]
    exact htexts.flip.imp fun b e hink => by simpa [Piece.ink] using hink
  refine ⟨es, hes, by simp [layoutArgs, hargs, Piece.ink, argsText], newline_not_mem_argsText ?_⟩
  rw [Expr.allChars_eq]
  exact List.forall_mem_map.mpr hlines

include hregular in
theorem exprInks_succ {depth : Nat} (hexprs : p.ExprInks depth) : p.ExprInks (depth + 1) := by
  intro id node hreached hnode hexpr
  have hnodeShape := hregular.nodes id node hreached.met hnode
  have hresolves := hregular.linked.nodes node (mem_toList_of_lookup hnode)
  have hoperand := operand_inks hregular hexprs hreached hnode
  simp only [exprWithin, hnode, Option.bind_some, inkWithin_succ hnode]
  cases node with
  | binary op left right =>
    obtain ⟨e, he, hink, hline⟩ := hoperand left (by simp [Node.operands])
    obtain ⟨e', he', hink', hline'⟩ := hoperand right (by simp [Node.operands])
    refine ⟨.binary op e e', by simp [exprOf, he, he'], by simp [layout, Piece.ink, hink, hink', Expr.chars], ?_⟩
    have hop : '\n' ∉ op.symbol.toList := by cases op <;> decide
    exact .opened rfl (by simp [hop, hline.unbroken, hline'.unbroken])
  | unary op operand =>
    obtain ⟨e, he, hink, hline⟩ := hoperand operand (by simp [Node.operands])
    refine ⟨.unary op e, by simp [exprOf, he], by simp [layout, Piece.ink, hink, Expr.chars], ?_⟩
    have hop : '\n' ∉ op.symbol.toList := by cases op <;> decide
    exact .opened rfl (by simp [hop, hline.unbroken])
  | string value =>
    refine ⟨.string value, rfl, by simp [layout, Piece.ink, Expr.chars], ?_⟩
    exact .opened rfl (by simp [newline_not_mem_escape])
  | double value => exact ⟨.double value, rfl, by simp [layout, Piece.ink, Expr.chars], oneLine_double value⟩
  | int value =>
    exact ⟨.int value, rfl, by simp [layout, Piece.ink, Expr.chars], oneLine_isNumber (isNumber_intText _)⟩
  | load var =>
    obtain ⟨found, hvar⟩ := hresolves.vars var List.mem_cons_self
    refine ⟨.load found.name, by simp [exprOf, hvar], by simp [layout, Program.found, hvar, Piece.ink, Expr.chars], ?_⟩
    exact oneLine_identifier (isIdentifier_var hnodeShape.names hvar)
  | call name args =>
    obtain ⟨es, hes, hink, hline⟩ := args_ink args hoperand
    refine ⟨.call name es, by simp [exprOf, hes], by simp [layout, Piece.ink, hink, Expr.chars], ?_⟩
    exact (oneLine_identifier (hnodeShape.names name List.mem_cons_self)).append hline
  | _ => cases hexpr

/-! ## Statements -/

/-- The rows of these lines are what is written. -/
structure Writes (ink : List Ink) (lines : List Line) : Prop where
  ink_eq : ink = (allRows lines).flatMap Row.ink
  tidy : ∀ row ∈ allRows lines, row.Tidy

def LineInks (p : Program) (depth : Nat) : Prop :=
  ∀ id node, p.Reached depth id → p.node? id = some node → node.isBlock = false →
    ∃ line, p.lineWithin depth id = some line ∧
      Writes (.margin 0 :: (p.inkWithin depth id ++ inkText ((if node.isCompound then [] else [';']) ++ ['\n']))) [line]

def BlockInks (p : Program) (depth : Nat) : Prop :=
  ∀ id, p.Reached depth id → p.HasBlock id → ∃ lines, p.linesWithin depth id = some lines ∧
    Writes (p.inkWithin depth id) lines

theorem layoutBody_ink {below : NodeId → List Ink} (body : NodeId) (close : String) :
    (layoutBody body close).flatMap (Piece.ink below) =
      (below body).map Ink.deeper ++ .margin 0 :: inkText close.toList := by
  simp [layoutBody, Piece.ink]

theorem bodyRows_ink (opening : List Char) (body : List Row) (closing : List Char) :
    (bodyRows opening body closing).flatMap Row.ink = .margin 0 :: (inkText (opening ++ ['\n']) ++
      ((body.flatMap Row.ink).map Ink.deeper ++ .margin 0 :: inkText (closing ++ ['\n']))) := by
  simp [bodyRows, Row.ink, rows_deeper_ink]

theorem Row.tidy_deeper {row : Row} : row.deeper.Tidy ↔ row.Tidy := by cases row <;> rfl

theorem tidy_head {opening : List Char} {body rest : List Row} (hopening : OneLine opening)
    (hbody : ∀ row ∈ body, row.Tidy) (hrest : ∀ row ∈ rest, row.Tidy) :
    ∀ row ∈ .line 0 opening :: (body.map Row.deeper ++ rest), row.Tidy := by
  simp only [List.forall_mem_cons, List.forall_mem_append, List.forall_mem_map, Row.tidy_deeper]
  exact ⟨hopening, hbody, hrest⟩

theorem bodyRows_tidy {opening : List Char} {body : List Row} {closing : List Char} (hopening : OneLine opening)
    (hbody : ∀ row ∈ body, row.Tidy) (hclosing : OneLine closing) :
    ∀ row ∈ bodyRows opening body closing, row.Tidy :=
  tidy_head hopening hbody (List.forall_mem_singleton.mpr hclosing)

theorem tidy_loop {rows : List Row} (h : ∀ row ∈ rows, row.Tidy) : ∀ row ∈ rows ++ [.empty], row.Tidy :=
  List.forall_mem_append.mpr ⟨h, List.forall_mem_singleton.mpr trivial⟩

theorem Writes.rows {ink : List Ink} {line : Line} {rows : List Row} (htidy : ∀ row ∈ rows, row.Tidy)
    (hrows : line.rows = rows) (hink : ink = rows.flatMap Row.ink) : Writes ink [line] := by
  have hall : allRows [line] = rows := by rw [allRows, allRows, List.append_nil, hrows]
  exact ⟨by rw [hall, hink], by rwa [hall]⟩

theorem Writes.line {ink : List Ink} {line : Line} {text : List Char} (hrows : line.rows = [.line 0 text])
    (hink : ink = .margin 0 :: inkText (text ++ ['\n'])) (hline : OneLine text) : Writes ink [line] := by
  have htidy : ∀ row ∈ [Row.line 0 text], row.Tidy := List.forall_mem_singleton.mpr hline
  exact .rows htidy hrows (by rw [hink, List.flatMap_singleton, Row.ink])

/-- What is written for a node on a line of its own. -/
def lineInk (p : Program) (below : NodeId → List Ink) (node : Node) : List Ink :=
  .margin 0 :: ((p.layout node).flatMap (Piece.ink below) ++
    inkText ((if node.isCompound then [] else [';']) ++ ['\n']))

section Kinds

variable {below : NodeId → List Ink} {value body : NodeId} {e : Expr} {lines : List Line} {var : VarId} {found : Var}

theorem writes_expr {node : Node} (hexpr : node.isExpr = true)
    (hink : (p.layout node).flatMap (Piece.ink below) = inkText e.chars) (hline : OneLine e.chars) :
    Writes (p.lineInk below node) [.expr e] := by
  have hcompound : node.isCompound = false := by cases node <;> first | rfl | cases hexpr
  refine .line rfl ?_ (hline.append (by decide : '\n' ∉ ";".toList))
  simp [lineInk, hink, hcompound]

theorem writes_store (hvar : p.var? var = some found) (hname : isIdentifier found.name = true)
    (hink : below value = inkText e.chars) (hline : OneLine e.chars) (op : AssignOp) :
    Writes (p.lineInk below (.store var op value)) [.store found.name op e] := by
  have hop : '\n' ∉ op.symbol.toList := by cases op <;> decide
  refine .line rfl ?_ ((oneLine_identifier hname).append (by simp [hop, hline.unbroken]))
  simp [lineInk, layout, Program.found, hvar, Piece.ink, hink, Node.isCompound]

theorem writes_forIn (hvar : p.var? var = some found) (hname : isIdentifier found.name = true)
    (hink : below value = inkText e.chars) (hline : OneLine e.chars) (hbody : Writes (below body) lines) :
    Writes (p.lineInk below (.forIn var value body)) [.forIn found.name e lines] := by
  have hopening : OneLine ("for (".toList ++ (found.name.toList ++ (" in ".toList ++ (e.chars ++ ") \x7b".toList)))) :=
    .opened rfl (by simp [(oneLine_identifier hname).unbroken, hline.unbroken])
  refine .rows (tidy_loop (bodyRows_tidy hopening hbody.tidy oneLine_brace)) rfl ?_
  simp [lineInk, layout, Program.found, hvar, layoutBody_ink, Piece.ink, hink, hbody.ink_eq, Node.isCompound,
    bodyRows_ink, Row.ink]

theorem writes_whileLoop (hink : below value = inkText e.chars) (hline : OneLine e.chars)
    (hbody : Writes (below body) lines) :
    Writes (p.lineInk below (.whileLoop value body)) [.whileLoop e lines] := by
  have hopening : OneLine ("while (".toList ++ (e.chars ++ ") \x7b".toList)) := .opened rfl (by simp [hline.unbroken])
  refine .rows (tidy_loop (bodyRows_tidy hopening hbody.tidy oneLine_brace)) rfl ?_
  simp [lineInk, layout, layoutBody_ink, Piece.ink, hink, hbody.ink_eq, Node.isCompound, bodyRows_ink, Row.ink]

theorem oneLine_if (hline : OneLine e.chars) : OneLine ("if (".toList ++ (e.chars ++ ") \x7b".toList)) :=
  .opened rfl (by simp [hline.unbroken])

theorem writes_ifThen (hink : below value = inkText e.chars) (hline : OneLine e.chars)
    (hbody : Writes (below body) lines) :
    Writes (p.lineInk below (.ifElse value body none)) [.ifThen e lines] := by
  refine .rows (bodyRows_tidy (oneLine_if hline) hbody.tidy oneLine_brace) rfl ?_
  simp [lineInk, layout, layoutBody_ink, Piece.ink, hink, hbody.ink_eq, Node.isCompound, bodyRows_ink]

theorem writes_ifElse (hink : below value = inkText e.chars) (hline : OneLine e.chars)
    (hbody : Writes (below body) lines) {elseBlock : NodeId} {elseLines : List Line}
    (helse : Writes (below elseBlock) elseLines) :
    Writes (p.lineInk below (.ifElse value body (some elseBlock))) [.ifElse e lines elseLines] := by
  have hother : OneLine "\x7d else \x7b".toList := .fixed rfl
  refine .rows (tidy_head (oneLine_if hline) hbody.tidy (bodyRows_tidy hother helse.tidy oneLine_brace)) rfl ?_
  simp [lineInk, layout, layoutBody_ink, Piece.ink, hink, hbody.ink_eq, helse.ink_eq, Node.isCompound, bodyRows_ink,
    rows_deeper_ink, Row.ink]

theorem writes_print {args : List NodeId} {es : List Expr}
    (hink : (layoutArgs args).flatMap (Piece.ink below) = inkText (argsText (Expr.allChars es)))
    (hline : '\n' ∉ argsText (Expr.allChars es)) : Writes (p.lineInk below (.print args)) [.print es] := by
  refine .line rfl ?_ (.opened rfl (by simp [hline]))
  simp [lineInk, layout, hink, Piece.ink, Node.isCompound]

theorem writes_retNone : Writes (p.lineInk below (.ret none)) [.ret none] := by
  refine .line rfl ?_ (.fixed rfl)
  simp [lineInk, layout, Piece.ink, Node.isCompound]

theorem writes_ret (hink : below value = inkText e.chars) (hline : OneLine e.chars) :
    Writes (p.lineInk below (.ret (some value))) [.ret (some e)] := by
  refine .line rfl ?_ (.opened rfl (by simp [hline.unbroken]))
  simp [lineInk, layout, Piece.ink, hink, Node.isCompound]

end Kinds

include hregular in
theorem body_inks {depth : Nat} (hblocks : p.BlockInks depth) {id : NodeId} {node : Node}
    (hreached : p.Reached (depth + 1) id) (hnode : p.node? id = some node) :
    ∀ b ∈ node.bodies, ∃ lines, p.linesWithin depth b = some lines ∧ Writes (p.inkWithin depth b) lines := by
  intro b hb
  have hbelow : b ∈ p.below id := mem_below_of_children hnode (bodies_subset_children node hb)
  exact hblocks b (hreached.below hregular.linked hbelow)
    ((hregular.linked.nodes node (mem_toList_of_lookup hnode)).bodies b hb)

include hregular in
theorem lineInks_succ {depth : Nat} (hexprs : p.ExprInks depth) (hblocks : p.BlockInks depth) :
    p.LineInks (depth + 1) := by
  intro id node hreached hnode hblock
  have hnames := (hregular.nodes id node hreached.met hnode).names
  have hresolves := hregular.linked.nodes node (mem_toList_of_lookup hnode)
  have hoperand := operand_inks hregular hexprs hreached hnode
  have hbody := body_inks hregular hblocks hreached hnode
  by_cases hexpr : node.isExpr = true
  · obtain ⟨e, he, hink, hline⟩ := exprInks_succ hregular hexprs id node hreached hnode hexpr
    rw [exprWithin, hnode, Option.bind_some] at he
    rw [inkWithin_succ hnode] at hink ⊢
    exact ⟨.expr e, by simp [lineWithin, hnode, lineOf_expr hexpr, he], writes_expr hexpr hink hline⟩
  simp only [lineWithin, hnode, Option.bind_some, inkWithin_succ hnode]
  cases node with
  | store var op value =>
    obtain ⟨found, hvar⟩ := hresolves.vars var List.mem_cons_self
    obtain ⟨e, he, hink, hline⟩ := hoperand value List.mem_cons_self
    exact ⟨.store found.name op e, by simp [lineOf, hvar, he],
      writes_store hvar (isIdentifier_var hnames hvar) hink hline op⟩
  | forIn var range body =>
    obtain ⟨found, hvar⟩ := hresolves.vars var List.mem_cons_self
    obtain ⟨e, he, hink, hline⟩ := hoperand range List.mem_cons_self
    obtain ⟨lines, hlines, hwrites⟩ := hbody body List.mem_cons_self
    exact ⟨.forIn found.name e lines, by simp [lineOf, hvar, he, hlines],
      writes_forIn hvar (isIdentifier_var hnames hvar) hink hline hwrites⟩
  | whileLoop cond body =>
    obtain ⟨e, he, hink, hline⟩ := hoperand cond List.mem_cons_self
    obtain ⟨lines, hlines, hwrites⟩ := hbody body List.mem_cons_self
    exact ⟨.whileLoop e lines, by simp [lineOf, he, hlines], writes_whileLoop hink hline hwrites⟩
  | ifElse cond thenBlock elseBlock =>
    obtain ⟨e, he, hink, hline⟩ := hoperand cond List.mem_cons_self
    obtain ⟨lines, hlines, hwrites⟩ := hbody thenBlock List.mem_cons_self
    cases elseBlock with
    | none => exact ⟨.ifThen e lines, by simp [lineOf, he, hlines], writes_ifThen hink hline hwrites⟩
    | some elseBlock =>
      obtain ⟨lines', hlines', hwrites'⟩ := hbody elseBlock (by simp [Node.bodies])
      exact ⟨.ifElse e lines lines', by simp [lineOf, he, hlines, hlines'], writes_ifElse hink hline hwrites hwrites'⟩
  | print args =>
    obtain ⟨es, hes, hink, hline⟩ := args_ink args hoperand
    exact ⟨.print es, by simp [lineOf, hes], writes_print hink hline⟩
  | ret value =>
    cases value with
    | none => exact ⟨.ret none, rfl, writes_retNone⟩
    | some value =>
      obtain ⟨e, he, hink, hline⟩ := hoperand value List.mem_cons_self
      exact ⟨.ret (some e), by simp [lineOf, he], writes_ret hink hline⟩
  | block scope stmts => cases hblock
  | _ => exact absurd rfl hexpr

/-! ## Blocks -/

theorem Writes.nil : Writes [] [] := ⟨rfl, List.forall_mem_nil _⟩

theorem allRows_append (lines lines' : List Line) : allRows (lines ++ lines') = allRows lines ++ allRows lines' := by
  induction lines with
  | nil => rfl
  | cons line lines ih => rw [List.cons_append, allRows, allRows, ih, List.append_assoc]

theorem Writes.append {ink ink' : List Ink} {lines lines' : List Line} (h : Writes ink lines)
    (h' : Writes ink' lines') : Writes (ink ++ ink') (lines ++ lines') where
  ink_eq := by rw [allRows_append, List.flatMap_append, h.ink_eq, h'.ink_eq]
  tidy := by
    rw [allRows_append]
    exact List.forall_mem_append.mpr ⟨h.tidy, h'.tidy⟩

theorem writes_mapM {ι : Type} {value : ι → Option Line} {ink : ι → List Ink} {items : List ι}
    (h : ∀ i ∈ items, ∃ line, value i = some line ∧ Writes (ink i) [line]) :
    ∃ lines, items.mapM value = some lines ∧ Writes (items.flatMap ink) lines := by
  induction items with
  | nil => exact ⟨[], rfl, .nil⟩
  | cons i items ih =>
    obtain ⟨⟨line, hline, hwrites⟩, hitems⟩ := List.forall_mem_cons.mp h
    obtain ⟨lines, hlines, hrest⟩ := ih hitems
    exact ⟨line :: lines, by simp [List.mapM_cons, hline, hlines], hwrites.append hrest⟩

theorem writes_var {below : NodeId → List Ink} {id : VarId} {var : Var} (hvar : p.var? id = some var)
    (hname : isIdentifier var.name = true) :
    Writes ((p.layoutVar id).flatMap (Piece.ink below)) [.var var.type var.name] := by
  refine .line rfl ?_ ((oneLine_keyword var.type).append (by simp [(oneLine_identifier hname).unbroken]))
  simp [layoutVar, found, hvar, Piece.ink]

theorem params_ink {below : NodeId → List Ink} (params : List Param) :
    (commas (fun param => [.text (param.type.keyword ++ " " ++ param.name)]) params).flatMap (Piece.ink below) =
      inkText (listText (params.map paramText)) := by
  apply commas_ink
  rw [List.forall₂_map_right_iff]
  apply List.forall₂_same.mpr
  intro param _
  simp [Piece.ink, paramText]

theorem oneLine_signature {function : FunctionDecl} (hnames : ∀ name ∈ function.names, isIdentifier name = true) :
    OneLine (signatureText function.returnType function.name function.params) := by
  have hname := oneLine_identifier (hnames function.name List.mem_cons_self)
  have hparams : '\n' ∉ listText (function.params.map paramText) := by
    apply newline_not_mem_listText
    rw [List.forall_mem_map]
    intro param hparam
    have hparamName := oneLine_identifier (hnames param.name (List.mem_cons_of_mem _ (List.mem_map_of_mem hparam)))
    simp [paramText, (oneLine_keyword param.type).unbroken, hparamName.unbroken]
  exact .opened rfl (by simp [(oneLine_keyword function.returnType).unbroken, hname.unbroken, hparams])

theorem layoutFunction_ink {below : NodeId → List Ink} {id : FunctionId} {function : FunctionDecl}
    (hfunction : p.function? id = some function) : (p.layoutFunction id).flatMap (Piece.ink below) =
      .margin 0 :: (inkText (signatureText function.returnType function.name function.params) ++
        match function.body with
        | .native symbol => inkText (" native '".toList ++ ((Text.escape symbol).text.toList ++ "';\n".toList))
        | .block body =>
          inkText " \x7b\n".toList ++ ((below body).map Ink.deeper ++ .margin 0 :: inkText "\x7d\n".toList)) := by
  rw [layoutFunction, found, hfunction]
  unfold signatureText
  cases hb : function.body with
  | native symbol => simp [hb, params_ink, Piece.ink]
  | block body => simp [hb, params_ink, Piece.ink, layoutBody_ink]

theorem writes_function {depth : Nat} {id : FunctionId} {function : FunctionDecl}
    (hfunction : p.function? id = some function) (hnames : ∀ name ∈ function.names, isIdentifier name = true)
    (hbody : ∀ b ∈ function.bodies, ∃ lines, p.linesWithin depth b = some lines ∧ Writes (p.inkWithin depth b) lines) :
    ∃ line, p.functionLine (p.linesWithin depth) id = some line ∧
      Writes ((p.layoutFunction id).flatMap (Piece.ink (p.inkWithin depth))) [line] := by
  have hsignature := oneLine_signature hnames
  cases hb : function.body with
  | native symbol =>
    refine ⟨.native function.returnType function.name function.params symbol, by simp [functionLine, hfunction, hb],
      .line rfl ?_ (hsignature.append (by simp [newline_not_mem_escape]))⟩
    rw [layoutFunction_ink hfunction, hb]
    simp
  | block body =>
    obtain ⟨lines, hlines, hwrites⟩ := hbody body (by simp [FunctionDecl.bodies, hb])
    have hopening := hsignature.append (by decide : '\n' ∉ " \x7b".toList)
    refine ⟨.function function.returnType function.name function.params lines,
      by simp [functionLine, hfunction, hb, hlines], .rows (bodyRows_tidy hopening hwrites.tidy oneLine_brace) rfl ?_⟩
    rw [layoutFunction_ink hfunction, hb]
    simp [bodyRows_ink, hwrites.ink_eq]

section Scopes

variable {depth : Nat} {id : NodeId} {scope : ScopeId} {found : Scope} {stmts : List NodeId}

include hregular in
theorem var_inks (hreached : p.Reached depth id) (hnode : p.node? id = some (.block scope stmts))
    (hscope : p.scope? scope = some found) (below : NodeId → List Ink) :
    ∀ var ∈ found.vars, ∃ line, p.varLine var = some line ∧
      Writes ((p.layoutVar var).flatMap (Piece.ink below)) [line] := by
  intro id hid
  obtain ⟨var, hvar⟩ := (hregular.linked.scopes found (mem_toList_of_lookup hscope)).vars id hid
  have hname : isIdentifier var.name = true :=
    (hregular.nodes _ _ hreached.met hnode).names _ (name_mem_namesIn hscope hid hvar stmts)
  exact ⟨.var var.type var.name, by simp [varLine, hvar], writes_var hvar hname⟩

include hregular in
theorem function_inks (hblocks : p.BlockInks depth) (hreached : p.Reached (depth + 1) id)
    (hnode : p.node? id = some (.block scope stmts)) (hscope : p.scope? scope = some found) :
    ∀ function ∈ found.functions, ∃ line, p.functionLine (p.linesWithin depth) function = some line ∧
      Writes ((p.layoutFunction function).flatMap (Piece.ink (p.inkWithin depth))) [line] := by
  intro f hf
  obtain ⟨function, hfunction⟩ := (hregular.linked.scopes found (mem_toList_of_lookup hscope)).functions f hf
  have hnames : ∀ name ∈ function.names, isIdentifier name = true := fun name hname =>
    (hregular.nodes _ _ hreached.met hnode).names _ (names_subset_namesIn hscope hf hfunction stmts hname)
  apply writes_function hfunction hnames
  intro body hbody
  exact hblocks body (hreached.below hregular.linked (mem_below_of_bodies hscope hnode hf hfunction hbody))
    (hregular.linked.bodies function (mem_toList_of_lookup hfunction) body hbody)

include hregular in
theorem stmt_inks (hlines : p.LineInks depth) (hreached : p.Reached (depth + 1) id)
    (hnode : p.node? id = some (.block scope stmts)) :
    ∀ stmt ∈ stmts, ∃ line, p.lineWithin depth stmt = some line ∧
      Writes ((p.layoutStmt stmt).flatMap (Piece.ink (p.inkWithin depth))) [line] := by
  intro stmt hmem
  obtain ⟨node, hstmt, hblock⟩ :=
    (Option.any_eq_true _ _).mp ((hregular.nodes _ _ hreached.met hnode).stmts stmt hmem)
  have hbelow : stmt ∈ p.below id := mem_below_of_children hnode hmem
  obtain ⟨line, hline, hwrites⟩ :=
    hlines stmt node (hreached.below hregular.linked hbelow) hstmt (by simpa using hblock)
  refine ⟨line, hline, ?_⟩
  cases hcompound : node.isCompound <;> simpa [layoutStmt, Program.found, hstmt, hcompound, Piece.ink] using hwrites

end Scopes

include hregular in
theorem blockInks_succ {depth : Nat} (hlines : p.LineInks depth) (hblocks : p.BlockInks depth) :
    p.BlockInks (depth + 1) := by
  rintro id hreached ⟨scope, stmts, hnode⟩
  obtain ⟨found, hscope⟩ := (hregular.linked.nodes _ (mem_toList_of_lookup hnode)).scopes scope List.mem_cons_self
  obtain ⟨varLines, hvarLines, hvars⟩ := writes_mapM (var_inks hregular hreached hnode hscope (p.inkWithin depth))
  obtain ⟨functionLines, hfunctionLines, hfunctions⟩ :=
    writes_mapM (function_inks hregular hblocks hreached hnode hscope)
  obtain ⟨stmtLines, hstmtLines, hstmts⟩ := writes_mapM (stmt_inks hregular hlines hreached hnode)
  refine ⟨varLines ++ (functionLines ++ stmtLines), ?_, ?_⟩
  · simp [linesWithin, hnode, linesOf, hscope, hvarLines, hfunctionLines, hstmtLines]
  · rw [inkWithin_succ hnode]
    simpa [layout, layoutBlock, Program.found, hscope, Piece.ink, List.flatMap_assoc] using
      hvars.append (hfunctions.append hstmts)

include hregular in
theorem inks (depth : Nat) : p.ExprInks depth ∧ p.LineInks depth ∧ p.BlockInks depth := by
  induction depth with
  | zero => exact ⟨fun _ _ h => h.not_zero.elim, fun _ _ h => h.not_zero.elim, fun _ h => h.not_zero.elim⟩
  | succ depth ih =>
    obtain ⟨hexprs, hlines, hblocks⟩ := ih
    exact ⟨exprInks_succ hregular hexprs, lineInks_succ hregular hexprs hblocks, blockInks_succ hregular hlines hblocks⟩

/-! ## Whole programs -/

theorem margin_mem_ink {depth level : Nat} {id : NodeId} :
    .margin level ∈ p.inkWithin depth id ↔ .margin level ∈ p.walkWithin depth id := by
  rw [inkWithin, List.mem_flatMap]
  constructor
  · rintro ⟨act, hact, hink⟩
    cases act with
    | margin level' =>
      obtain rfl : level = level' := by simpa [Act.ink] using hink
      exact hact
    | _ => simp [Act.ink, inkText] at hink
  · intro hact
    exact ⟨_, hact, List.mem_singleton_self _⟩

theorem margin_mem_rows {rows : List Row} {level : Nat} :
    .margin level ∈ rows.flatMap Row.ink ↔ ∃ text, .line level text ∈ rows := by
  rw [List.mem_flatMap]
  constructor
  · rintro ⟨row, hrow, hink⟩
    cases row with
    | line level' text =>
      obtain rfl : level = level' := by simpa [Row.ink, inkText] using hink
      exact ⟨text, hrow⟩
    | empty => simp [Row.ink, inkText] at hink
  · rintro ⟨text, hrow⟩
    exact ⟨_, hrow, List.mem_cons_self⟩

/-- A regular program has a list of lines, with the depth of each, that is its text in every width in which no line is
indented too far. It is the list of the lines of its source tree. They stand as deep as the bodies around them, and only
those behind loops are empty. -/
theorem render_eq_rows (hregular : p.Regular) : ∃ source, p.source? = some source ∧
    (∀ row ∈ allRows source, row.Tidy) ∧
    (∀ level, (∃ text, .line level text ∈ allRows source) ↔ p.LineAt p.root level) ∧
    ∀ width, (∀ level text, .line level text ∈ allRows source → level * width ≤ maxIndent) →
      p.render width = .ok (String.ofList ((allRows source).flatMap (Row.chars width))) := by
  have hlinked := hregular.linked
  have hends : .endless ∉ p.walkWithin (p.nodes.size + 1) p.root := hlinked.endless_not_mem_walk (Nat.lt_succ_self _)
  obtain ⟨source, hsource, hwrites⟩ :=
    (inks hregular (p.nodes.size + 1)).2.2 p.root ⟨Relation.ReflTransGen.refl, hends⟩ hlinked.root
  have hlevels : ∀ level, (∃ text, .line level text ∈ allRows source) ↔ p.LineAt p.root level := by
    intro level
    rw [← margin_mem_rows, ← hwrites.ink_eq, margin_mem_ink, hlinked.lineAt_iff]
  refine ⟨source, hsource, hwrites.tidy, hlevels, fun width hfits => ?_⟩
  obtain ⟨text, htext⟩ := hlinked.render_iff.mpr fun level hline => by
    obtain ⟨text, hrow⟩ := (hlevels level).mpr hline
    exact hfits level text hrow
  rw [htext]
  apply congrArg Except.ok
  apply String.toList_inj.mp
  calc text.toList = (p.walkWithin (p.nodes.size + 1) p.root).flatMap (Act.chars width 0) :=
        transcript_text ((renderFrom_eq_ok p width p.root text).mp htext)
    _ = (p.inkWithin (p.nodes.size + 1) p.root).flatMap (Ink.chars width) := by
        rw [inkWithin, List.flatMap_assoc]
        exact List.flatMap_congr fun act _ => (act.ink_chars width).symm
    _ = (allRows source).flatMap (Row.chars width) := by
        rw [hwrites.ink_eq, List.flatMap_assoc]
        exact List.flatMap_congr fun row _ => row.ink_chars width
    _ = (String.ofList ((allRows source).flatMap (Row.chars width))).toList := String.toList_ofList.symm

/-- Names that are keywords, and a literal with a quote and a newline, in bodies inside each other. -/
def keyed : Program where
  nodes := #[.block ⟨0⟩ [⟨1⟩], .forIn ⟨0⟩ ⟨2⟩ ⟨5⟩, .binary .range ⟨3⟩ ⟨4⟩, .int 1, .int 2, .block ⟨1⟩ [⟨6⟩],
    .ifElse ⟨7⟩ ⟨8⟩ (some ⟨9⟩), .load ⟨0⟩, .block ⟨2⟩ [⟨10⟩], .block ⟨3⟩ [], .print [⟨11⟩], .string "a\"\n",
    .block ⟨4⟩ [⟨13⟩], .ret none]
  scopes := #[{ vars := [⟨0⟩], functions := [⟨0⟩] }, {}, {}, {}, {}]
  vars := #[⟨"in", .string⟩]
  functions := #[⟨"while", .void, [], .block ⟨12⟩⟩]
  root := ⟨0⟩

theorem render_eq_rows_keyed : keyed.Regular ∧ keyed.render 3 = .ok
    ("string in;\nfunction void while() \x7b\n   return;\n\x7d\nfor (in in (1 .. 2)) \x7b\n   if (in) \x7b\n" ++
      "      print(\"a\"\\n\");\n   \x7d else \x7b\n   \x7d\n\x7d\n\n") := by
  have hregular : keyed.Regular :=
    ⟨by decide, fun _ node _ hnode => (by decide +kernel : ∀ node ∈ keyed.nodes.toList, keyed.RegularNode node) node
      (mem_toList_of_lookup hnode)⟩
  obtain ⟨source, hsource, -, -, hrender⟩ := render_eq_rows hregular
  cases hsource
  refine ⟨hregular, (hrender 3 ?_).trans ?_⟩
  · intro level text hrow
    have hlevel : level ≤ 2 := by
      simp [allRows, Line.rows, bodyRows, Row.deeper] at hrow
      omega
    unfold maxIndent
    omega
  · exact congrArg Except.ok (by decide +kernel)

end Program

end Canon
