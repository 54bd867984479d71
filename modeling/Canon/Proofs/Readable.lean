import Canon.Proofs.Reader
import Canon.Proofs.Truncation

/-!
# The text tells the program

The text of a well-shaped program is read back as its source tree, so two such programs with one text have one source
tree.
-/

namespace Canon

open Source

/-! ## Texts -/

def Act.chars (width indent : Nat) : Act → List Char
  | .text s => s.toList
  | .margin level => List.replicate (indent + level * width) ' '
  | _ => []

def Piece.chars (width indent : Nat) (below : Nat → NodeId → List Char) : Piece → List Char
  | .look _ => []
  | .text s => s.toList
  | .margin => List.replicate indent ' '
  | .node id => below indent id
  | .body id => below (indent + width) id

theorem Act.chars_deeper (width indent : Nat) (act : Act) :
    act.deeper.chars width indent = act.chars width (indent + width) := by
  cases act with
  | margin level =>
    have hlevel : indent + (level + 1) * width = indent + width + level * width := by rw [Nat.succ_mul]; omega
    simp only [Act.deeper, Act.chars, hlevel]
  | _ => rfl

theorem output_chars {p : Program} {indent width : Nat} {act : Act} {s : String}
    (h : act.output p indent width = .ok s) : s.toList = act.chars width indent := by
  have hlook (ref : Ref) (h : (p.fetchRef ref).map (fun _ => "") = .ok s) : s.toList = [] := by
    cases hfetch : p.fetchRef ref with
    | error fault => rw [hfetch] at h; cases h
    | ok _ => rw [hfetch] at h; cases h; rfl
  cases act with
  | enter id => exact hlook _ h
  | look ref => exact hlook ref h
  | text text => cases h; rfl
  | margin level =>
    rw [Act.output] at h
    split at h
    · cases h
    · cases h
      exact String.toList_ofList
  | endless => cases h

theorem transcript_text {p : Program} {indent width : Nat} {acts : List Act} {text : String}
    (h : transcript p indent width acts = ⟨text, none⟩) : text.toList = acts.flatMap (Act.chars width indent) := by
  induction acts generalizing text with
  | nil => cases h; rfl
  | cons act acts ih =>
    rw [transcript] at h
    cases hout : act.output p indent width with
    | error fault => rw [hout] at h; cases h
    | ok s =>
      rw [hout] at h
      obtain ⟨htext, hfault⟩ := Transcript.mk.inj h
      have hrest := @ih (transcript p indent width acts).text (by rw [← hfault])
      rw [← htext, String.toList_append, hrest, output_chars hout, List.flatMap_cons]

namespace Program

variable {p : Program}

/-- The text of a node, so many columns from the left margin. -/
def textAt (p : Program) (width depth indent : Nat) (id : NodeId) : List Char :=
  (p.walkWithin depth id).flatMap (Act.chars width indent)

theorem chars_acts (width depth indent : Nat) (piece : Piece) :
    (piece.acts (p.walkWithin depth)).flatMap (Act.chars width indent) =
      piece.chars width indent (p.textAt width depth) := by
  cases piece with
  | body id =>
    rw [Piece.acts, List.flatMap_map, Piece.chars, textAt]
    exact congrArg ((p.walkWithin depth id).flatMap ·) (funext (Act.chars_deeper width indent))
  | margin => simp [Piece.acts, Piece.chars, Act.chars]
  | node id => rfl
  | look ref => rfl
  | text s => exact List.flatMap_singleton _ _

theorem chars_flatMap_acts (width depth indent : Nat) (pieces : List Piece) :
    (pieces.flatMap (Piece.acts (p.walkWithin depth))).flatMap (Act.chars width indent) =
      pieces.flatMap (Piece.chars width indent (p.textAt width depth)) := by
  rw [List.flatMap_assoc]
  exact List.flatMap_congr fun piece _ => chars_acts width depth indent piece

theorem textAt_succ {id : NodeId} {node : Node} (hnode : p.node? id = some node) (width depth indent : Nat) :
    p.textAt width (depth + 1) indent id =
      (p.layout node).flatMap (Piece.chars width indent (p.textAt width depth)) := by
  rw [textAt, walkWithin, hnode, Option.map_some, Option.getD_some, List.flatMap_cons]
  exact chars_flatMap_acts width depth indent (p.layout node)

theorem commas_chars {α : Type} {width indent : Nat} {below : Nat → NodeId → List Char} (item : α → List Piece)
    (as : List α) : (commas item as).flatMap (Piece.chars width indent below) =
      listText (as.map fun a => (item a).flatMap (Piece.chars width indent below)) := by
  induction as with
  | nil => rfl
  | cons a rest ih =>
    cases rest with
    | nil => simp [commas, listText]
    | cons b rest =>
      have hcommas : commas item (a :: b :: rest) = item a ++ .text ", " :: commas item (b :: rest) := rfl
      rw [hcommas, List.flatMap_append, List.flatMap_cons, ih, List.map_cons, List.map_cons, List.map_cons, listText,
        listText, List.flatMap_cons, List.append_assoc]
      rfl

/-! ## Nodes that are reached -/

/-- A node that is met, from where the walk goes down to the leaves. -/
structure Reached (p : Program) (depth : Nat) (id : NodeId) : Prop where
  met : p.Met id
  ends : .endless ∉ p.walkWithin depth id

theorem Reached.not_zero {id : NodeId} (h : p.Reached 0 id) : False := h.ends List.mem_cons_self

theorem Reached.below (hlinked : p.Linked) {depth : Nat} {a b : NodeId} (h : p.Reached (depth + 1) a)
    (hb : b ∈ p.below a) : p.Reached depth b where
  met := h.met.tail hb
  ends := fun hend => h.ends (hlinked.endless_mem_succ.mpr ⟨b, hb, hend⟩)

/-! ## Expressions -/

theorem mapM_forall₂ {ι β κ : Type} {value : ι → Option β} {holds : κ → ι → β → Prop} {items : List ι}
    (h : ∀ i ∈ items, ∃ b, value i = some b ∧ ∀ k, holds k i b) :
    ∃ bs, items.mapM value = some bs ∧ ∀ k, List.Forall₂ (holds k) items bs := by
  induction items with
  | nil => exact ⟨[], rfl, fun _ => .nil⟩
  | cons i items ih =>
    obtain ⟨⟨b, hb, hholds⟩, hitems⟩ := List.forall_mem_cons.mp h
    obtain ⟨bs, hbs, hrest⟩ := ih hitems
    exact ⟨b :: bs, by simp [List.mapM_cons, hb, hbs], fun k => .cons (hholds k) (hrest k)⟩

theorem WellShaped.linked (h : p.WellShaped) : p.Linked := (wellFormed_of_validate h.valid).toLinked

theorem mem_below_of_children {id b : NodeId} {node : Node} (hnode : p.node? id = some node) (hb : b ∈ node.children) :
    b ∈ p.below id := by
  rw [below_of_node hnode]
  exact List.mem_append_right _ hb

section Declared

variable {scope : ScopeId} {found : Scope} (hscope : p.scope? scope = some found)

include hscope in
theorem name_mem_namesIn {id : VarId} (hid : id ∈ found.vars) {var : Var} (hvar : p.var? id = some var)
    (stmts : List NodeId) : var.name ∈ p.namesIn (.block scope stmts) := by
  simp only [namesIn, hscope, Option.map_some, Option.getD_some]
  exact List.mem_append_left _ (List.mem_flatMap.mpr ⟨id, hid, by simp [hvar]⟩)

include hscope in
theorem names_subset_namesIn {id : FunctionId} (hid : id ∈ found.functions) {function : FunctionDecl}
    (hfunction : p.function? id = some function) (stmts : List NodeId) :
    function.names ⊆ p.namesIn (.block scope stmts) := by
  intro name hname
  simp only [namesIn, hscope, Option.map_some, Option.getD_some]
  exact List.mem_append_right _ (List.mem_flatMap.mpr ⟨id, hid, by simpa [hfunction] using hname⟩)

include hscope in
theorem mem_below_of_bodies {block : NodeId} {stmts : List NodeId} (hnode : p.node? block = some (.block scope stmts))
    {id : FunctionId} (hid : id ∈ found.functions) {function : FunctionDecl} (hfunction : p.function? id = some function)
    {body : NodeId} (hbody : body ∈ function.bodies) : body ∈ p.below block := by
  have hdeclared : id ∈ p.declaredBy block := by
    simpa [declaredBy, scopesOf, hnode, Node.scopes, functionsOf, hscope] using hid
  exact Linked.mem_below.mpr (.inl ⟨id, hdeclared, by simpa [bodiesOf, hfunction] using hbody⟩)

end Declared

theorem operands_subset_children (node : Node) : node.operands ⊆ node.children := by
  cases node with
  | binary op left right => exact List.Subset.refl _
  | _ => simp [Node.operands, Node.children]

theorem bodies_subset_children (node : Node) : node.bodies ⊆ node.children := by
  cases node with
  | ifElse cond thenBlock elseBlock => exact List.subset_cons_self cond _
  | _ => simp [Node.bodies, Node.children]

theorem isName_var {id : VarId} (hnames : ∀ name ∈ p.varNames [id], isName name = true) {var : Var}
    (hvar : p.var? id = some var) : isName var.name = true :=
  hnames _ (by simp [varNames, hvar])

variable (hshape : p.WellShaped) (hplain : p.PlainLiterals)

def ExprReads (p : Program) (width depth : Nat) : Prop :=
  ∀ id node, p.Reached depth id → p.node? id = some node → node.isExpr = true →
    ∃ e, p.exprWithin depth id = some e ∧ ∀ indent, ReadsExpr (p.textAt width depth indent id) e

include hshape in
theorem operand_reads {width depth : Nat} (hexprs : p.ExprReads width depth) {id : NodeId} {node : Node}
    (hreached : p.Reached (depth + 1) id) (hnode : p.node? id = some node) :
    ∀ b ∈ node.operands, ∃ e, p.exprWithin depth b = some e ∧
      ∀ indent, ReadsExpr (p.textAt width depth indent b) e := by
  intro b hb
  obtain ⟨operand, hoperand, hexpr⟩ :=
    (Option.any_eq_true _ _).mp ((hshape.nodes id node hreached.met hnode).operands b hb)
  have hbelow : b ∈ p.below id := mem_below_of_children hnode (operands_subset_children node hb)
  exact hexprs b operand (hreached.below hshape.linked hbelow) hoperand hexpr

include hshape hplain in
theorem exprReads_succ {width depth : Nat} (hexprs : p.ExprReads width depth) : p.ExprReads width (depth + 1) := by
  intro id node hreached hnode hexpr
  have hnodeShape := hshape.nodes id node hreached.met hnode
  have hresolves := hshape.linked.nodes node (mem_toList_of_lookup hnode)
  have hoperand := operand_reads hshape hexprs hreached hnode
  simp only [exprWithin, hnode, Option.bind_some, textAt_succ hnode]
  cases node with
  | binary op left right =>
    obtain ⟨e, he, hreads⟩ := hoperand left (by simp [Node.operands])
    obtain ⟨e', he', hreads'⟩ := hoperand right (by simp [Node.operands])
    refine ⟨.binary op e e', by simp [exprOf, he, he'], fun indent => ?_⟩
    simpa [layout, Piece.chars] using (hreads indent).binary (hreads' indent) op
  | unary op operand =>
    obtain ⟨e, he, hreads⟩ := hoperand operand (by simp [Node.operands])
    refine ⟨.unary op e, by simp [exprOf, he], fun indent => ?_⟩
    simpa [layout, Piece.chars] using (hreads indent).unary op
  | string value =>
    have hquote : '"' ∉ value.toList := by simpa [Node.isPlain] using hplain id _ hreached.met hnode
    refine ⟨.string value, rfl, fun indent => ?_⟩
    simpa [layout, Piece.chars] using ReadsExpr.string hquote
  | double value =>
    have hfinite : value.isFinite = true := hplain id _ hreached.met hnode
    refine ⟨.double value, rfl, fun indent => ?_⟩
    have htext : numberText (.double value) = some value.text.toList := by simp [numberText, hfinite]
    simpa [layout, Piece.chars] using ReadsExpr.literal htext
  | int value =>
    refine ⟨.int value, rfl, fun indent => ?_⟩
    have htext : numberText (.int value) = some (toString value.toInt).toList := rfl
    simpa [layout, Piece.chars] using ReadsExpr.literal htext
  | load var =>
    obtain ⟨found, hvar⟩ := hresolves.vars var List.mem_cons_self
    refine ⟨.load found.name, by simp [exprOf, hvar], fun indent => ?_⟩
    simpa [layout, Program.found, hvar, Piece.chars] using ReadsExpr.load (isName_var hnodeShape.names hvar)
  | call name args =>
    obtain ⟨es, hes, hreads⟩ := mapM_forall₂ hoperand
    refine ⟨.call name es, by simp [exprOf, show args.mapM (p.exprWithin depth) = some es from hes], fun indent => ?_⟩
    have hname := hnodeShape.names name List.mem_cons_self
    have hcall := ReadsExpr.call hname (List.forall₂_map_left_iff.mpr (hreads indent))
    simpa [layout, layoutArgs, commas_chars, Piece.chars, Node.operands] using hcall
  | _ => cases hexpr

/-! ## Statements -/

def LineReads (p : Program) (width depth : Nat) : Prop :=
  ∀ id node, p.Reached depth id → p.node? id = some node → node.isBlock = false →
    ∃ line, p.lineWithin depth id = some line ∧ ∀ indent,
      ReadsLine (p.textAt width depth indent id ++ if node.isCompound then [] else ";".toList) line

def BlockReads (p : Program) (width depth : Nat) : Prop :=
  ∀ id, p.Reached depth id → p.HasBlock id → ∃ lines, p.linesWithin depth id = some lines ∧
    ∀ indent, ReadsLines (p.textAt width depth indent id) lines

theorem lineOf_expr {expr : NodeId → Option Expr} {body : NodeId → Option (List Line)} {node : Node}
    (h : node.isExpr = true) : p.lineOf expr body node = (p.exprOf expr node).map .expr := by
  rw [Option.map_eq_bind]
  cases node <;> first
    | rfl
    | cases h

theorem mem_margin (indent : Nat) : ∀ c ∈ List.replicate indent ' ', c = ' ' := fun _ => List.eq_of_mem_replicate

/-- What is written for a node between the margin and the end of its line. -/
def lineText (p : Program) (width indent : Nat) (below : Nat → NodeId → List Char) (node : Node) : List Char :=
  (p.layout node).flatMap (Piece.chars width indent below) ++ if node.isCompound then [] else ";".toList

section Kinds

variable {width indent : Nat} {below : Nat → NodeId → List Char} {value body : NodeId} {e : Expr} {lines : List Line}
  {var : VarId} {found : Var}

theorem reads_expr {node : Node} (hexpr : node.isExpr = true)
    (h : ReadsExpr ((p.layout node).flatMap (Piece.chars width indent below)) e) :
    ReadsLine (p.lineText width indent below node) (.expr e) := by
  have hcompound : node.isCompound = false := by cases node <;> first | rfl | cases hexpr
  rw [lineText, hcompound]
  exact ReadsLine.expr h

theorem reads_store (hvar : p.var? var = some found) (hname : isName found.name = true)
    (h : ReadsExpr (below indent value) e) (op : AssignOp) :
    ReadsLine (p.lineText width indent below (.store var op value)) (.store found.name op e) := by
  simpa [lineText, layout, Program.found, hvar, Piece.chars, Node.isCompound] using ReadsLine.store hname h op

theorem reads_forIn (hvar : p.var? var = some found) (hname : isName found.name = true)
    (h : ReadsExpr (below indent value) e) (hbody : ReadsLines (below (indent + width) body) lines) :
    ReadsLine (p.lineText width indent below (.forIn var value body)) (.forIn found.name e lines) := by
  simpa [lineText, layout, Program.found, hvar, layoutBody, Piece.chars, Node.isCompound] using
    ReadsLine.forIn hname h hbody (mem_margin indent)

theorem reads_whileLoop (h : ReadsExpr (below indent value) e) (hbody : ReadsLines (below (indent + width) body) lines) :
    ReadsLine (p.lineText width indent below (.whileLoop value body)) (.whileLoop e lines) := by
  simpa [lineText, layout, layoutBody, Piece.chars, Node.isCompound] using
    ReadsLine.whileLoop h hbody (mem_margin indent)

theorem reads_ifThen (h : ReadsExpr (below indent value) e) (hbody : ReadsLines (below (indent + width) body) lines) :
    ReadsLine (p.lineText width indent below (.ifElse value body none)) (.ifThen e lines) := by
  simpa [lineText, layout, layoutBody, Piece.chars, Node.isCompound] using
    ReadsLine.ifThen h hbody (mem_margin indent)

theorem reads_ifElse (h : ReadsExpr (below indent value) e) (hbody : ReadsLines (below (indent + width) body) lines)
    {elseBlock : NodeId} {elseLines : List Line} (helse : ReadsLines (below (indent + width) elseBlock) elseLines) :
    ReadsLine (p.lineText width indent below (.ifElse value body (some elseBlock))) (.ifElse e lines elseLines) := by
  simpa [lineText, layout, layoutBody, Piece.chars, Node.isCompound] using
    ReadsLine.ifElse h hbody (mem_margin indent) helse (mem_margin indent)

theorem reads_print {args : List NodeId} {es : List Expr}
    (h : List.Forall₂ (fun b => ReadsExpr (below indent b)) args es) :
    ReadsLine (p.lineText width indent below (.print args)) (.print es) := by
  have hprint := ReadsLine.print (List.forall₂_map_left_iff.mpr h)
  simpa [lineText, layout, layoutArgs, commas_chars, Piece.chars, Node.isCompound] using hprint

theorem reads_retNone : ReadsLine (p.lineText width indent below (.ret none)) (.ret none) := by
  simpa [lineText, layout, Piece.chars, Node.isCompound] using ReadsLine.retNone

theorem reads_ret (h : ReadsExpr (below indent value) e) :
    ReadsLine (p.lineText width indent below (.ret (some value))) (.ret (some e)) := by
  simpa [lineText, layout, Piece.chars, Node.isCompound] using ReadsLine.ret h

end Kinds

include hshape in
theorem body_reads {width depth : Nat} (hblocks : p.BlockReads width depth) {id : NodeId} {node : Node}
    (hreached : p.Reached (depth + 1) id) (hnode : p.node? id = some node) :
    ∀ b ∈ node.bodies, ∃ lines, p.linesWithin depth b = some lines ∧
      ∀ indent, ReadsLines (p.textAt width depth indent b) lines := by
  intro b hb
  have hbelow : b ∈ p.below id := mem_below_of_children hnode (bodies_subset_children node hb)
  exact hblocks b (hreached.below hshape.linked hbelow)
    ((hshape.linked.nodes node (mem_toList_of_lookup hnode)).bodies b hb)

include hshape hplain in
theorem lineReads_succ {width depth : Nat} (hexprs : p.ExprReads width depth) (hblocks : p.BlockReads width depth) :
    p.LineReads width (depth + 1) := by
  intro id node hreached hnode hblock
  have hnames := (hshape.nodes id node hreached.met hnode).names
  have hresolves := hshape.linked.nodes node (mem_toList_of_lookup hnode)
  have hoperand := operand_reads hshape hexprs hreached hnode
  have hbody := body_reads hshape hblocks hreached hnode
  by_cases hexpr : node.isExpr = true
  · obtain ⟨e, he, hreads⟩ := exprReads_succ hshape hplain hexprs id node hreached hnode hexpr
    rw [exprWithin, hnode, Option.bind_some] at he
    simp only [textAt_succ hnode] at hreads ⊢
    exact ⟨.expr e, by simp [lineWithin, hnode, lineOf_expr hexpr, he], fun indent => reads_expr hexpr (hreads indent)⟩
  simp only [lineWithin, hnode, Option.bind_some, textAt_succ hnode]
  cases node with
  | store var op value =>
    obtain ⟨found, hvar⟩ := hresolves.vars var List.mem_cons_self
    obtain ⟨e, he, hreads⟩ := hoperand value List.mem_cons_self
    exact ⟨.store found.name op e, by simp [lineOf, hvar, he],
      fun indent => reads_store hvar (isName_var hnames hvar) (hreads indent) op⟩
  | forIn var range body =>
    obtain ⟨found, hvar⟩ := hresolves.vars var List.mem_cons_self
    obtain ⟨e, he, hreads⟩ := hoperand range List.mem_cons_self
    obtain ⟨lines, hlines, hreadsLines⟩ := hbody body List.mem_cons_self
    exact ⟨.forIn found.name e lines, by simp [lineOf, hvar, he, hlines],
      fun indent => reads_forIn hvar (isName_var hnames hvar) (hreads indent) (hreadsLines (indent + width))⟩
  | whileLoop cond body =>
    obtain ⟨e, he, hreads⟩ := hoperand cond List.mem_cons_self
    obtain ⟨lines, hlines, hreadsLines⟩ := hbody body List.mem_cons_self
    exact ⟨.whileLoop e lines, by simp [lineOf, he, hlines],
      fun indent => reads_whileLoop (hreads indent) (hreadsLines (indent + width))⟩
  | ifElse cond thenBlock elseBlock =>
    obtain ⟨e, he, hreads⟩ := hoperand cond List.mem_cons_self
    obtain ⟨lines, hlines, hreadsLines⟩ := hbody thenBlock List.mem_cons_self
    cases elseBlock with
    | none =>
      exact ⟨.ifThen e lines, by simp [lineOf, he, hlines],
        fun indent => reads_ifThen (hreads indent) (hreadsLines (indent + width))⟩
    | some elseBlock =>
      obtain ⟨lines', hlines', hreadsLines'⟩ := hbody elseBlock (by simp [Node.bodies])
      exact ⟨.ifElse e lines lines', by simp [lineOf, he, hlines, hlines'],
        fun indent => reads_ifElse (hreads indent) (hreadsLines (indent + width)) (hreadsLines' (indent + width))⟩
  | print args =>
    obtain ⟨es, hes, hreads⟩ := mapM_forall₂ hoperand
    have hvalues : args.mapM (p.exprWithin depth) = some es := hes
    exact ⟨.print es, by simp [lineOf, hvalues], fun indent => reads_print (hreads indent)⟩
  | ret value =>
    cases value with
    | none => exact ⟨.ret none, rfl, fun indent => reads_retNone⟩
    | some value =>
      obtain ⟨e, he, hreads⟩ := hoperand value List.mem_cons_self
      exact ⟨.ret (some e), by simp [lineOf, he], fun indent => reads_ret (hreads indent)⟩
  | block scope stmts => cases hblock
  | _ => exact absurd rfl hexpr

/-! ## Blocks -/

def WritesLine (text : List Char) (line : Line) : Prop :=
  ∃ margin body, text = margin ++ (body ++ "\n".toList) ∧ (∀ c ∈ margin, c = ' ') ∧ ReadsLine body line

theorem readsLines_append {ι : Type} {text : ι → List Char} {items : List ι} {lines : List Line}
    (h : List.Forall₂ (fun i => WritesLine (text i)) items lines) {more : List Char} {moreLines : List Line}
    (hmore : ReadsLines more moreLines) : ReadsLines (items.flatMap text ++ more) (lines ++ moreLines) := by
  induction h with
  | nil => exact hmore
  | @cons i line items lines hfirst _ ih =>
    obtain ⟨margin, body, htext, hmargin, hline⟩ := hfirst
    rw [List.flatMap_cons, htext]
    simpa [List.append_assoc] using ReadsLines.cons hline ih hmargin

theorem params_chars {width indent : Nat} {below : Nat → NodeId → List Char} (params : List Param) :
    (commas (fun param => [.text (param.type.keyword ++ " " ++ param.name)]) params).flatMap
      (Piece.chars width indent below) = listText (params.map paramText) := by
  rw [commas_chars]
  refine congrArg listText (List.map_congr_left fun param _ => ?_)
  simp [Piece.chars, paramText]

section Lines

variable {width indent : Nat} {below : Nat → NodeId → List Char}

theorem layoutVar_chars {id : VarId} {var : Var} (hvar : p.var? id = some var) :
    (p.layoutVar id).flatMap (Piece.chars width indent below) = List.replicate indent ' ' ++
      (var.type.keyword.toList ++ (" ".toList ++ (var.name.toList ++ ";\n".toList))) := by
  simp [layoutVar, found, hvar, Piece.chars]

theorem layoutFunction_chars {id : FunctionId} {function : FunctionDecl} (hfunction : p.function? id = some function) :
    (p.layoutFunction id).flatMap (Piece.chars width indent below) = List.replicate indent ' ' ++
      (signatureText function.returnType function.name function.params ++ match function.body with
        | .native symbol => " native '".toList ++ ((Text.escape symbol).text.toList ++ "';\n".toList)
        | .block body =>
          " \x7b\n".toList ++ (below (indent + width) body ++ (List.replicate indent ' ' ++ "\x7d\n".toList))) := by
  unfold signatureText
  cases hbody : function.body <;>
    simp [layoutFunction, found, hfunction, hbody, layoutBody, params_chars, Piece.chars]

theorem layoutStmt_chars {id : NodeId} {node : Node} (hnode : p.node? id = some node) :
    (p.layoutStmt id).flatMap (Piece.chars width indent below) = List.replicate indent ' ' ++
      (below indent id ++ ((if node.isCompound then [] else ";".toList) ++ "\n".toList)) := by
  cases hcompound : node.isCompound <;> simp [layoutStmt, found, hnode, hcompound, Piece.chars]

end Lines

theorem writesLine_var {width indent : Nat} {below : Nat → NodeId → List Char} {id : VarId} {var : Var}
    (hvar : p.var? id = some var) (hname : isName var.name = true) :
    WritesLine ((p.layoutVar id).flatMap (Piece.chars width indent below)) (.var var.type var.name) := by
  have hend : ";\n".toList = ";".toList ++ "\n".toList := rfl
  refine ⟨List.replicate indent ' ', _, ?_, mem_margin _, ReadsLine.var hname var.type⟩
  simp [layoutVar_chars hvar, hend]

theorem writesLine_function {width depth : Nat} {id : FunctionId} {function : FunctionDecl}
    (hfunction : p.function? id = some function) (hnames : ∀ name ∈ function.names, isName name = true)
    (hbody : ∀ b ∈ function.bodies, ∃ lines, p.linesWithin depth b = some lines ∧
      ∀ indent, ReadsLines (p.textAt width depth indent b) lines) :
    ∃ line, p.functionLine (p.linesWithin depth) id = some line ∧ ∀ indent,
      WritesLine ((p.layoutFunction id).flatMap (Piece.chars width indent (p.textAt width depth))) line := by
  have hname : isName function.name = true := hnames _ List.mem_cons_self
  have hparams : ∀ param ∈ function.params, isName param.name = true := fun param hparam =>
    hnames _ (List.mem_cons_of_mem _ (List.mem_map_of_mem hparam))
  cases hb : function.body with
  | native symbol =>
    refine ⟨.native function.returnType function.name function.params symbol, by simp [functionLine, hfunction, hb],
      fun indent => ⟨List.replicate indent ' ', _, ?_, mem_margin _, ReadsLine.native hname hparams _ symbol⟩⟩
    have hend : "';\n".toList = "';".toList ++ "\n".toList := rfl
    simp [layoutFunction_chars hfunction, hb, hend]
  | block body =>
    obtain ⟨lines, hlines, hreads⟩ := hbody body (by simp [FunctionDecl.bodies, hb])
    refine ⟨.function function.returnType function.name function.params lines,
      by simp [functionLine, hfunction, hb, hlines], fun indent => ⟨List.replicate indent ' ', _, ?_, mem_margin _,
        ReadsLine.function hname hparams (hreads (indent + width)) (mem_margin indent) _⟩⟩
    have hend : "\x7d\n".toList = "\x7d".toList ++ "\n".toList := rfl
    simp [layoutFunction_chars hfunction, hb, hend]

section Scopes

variable {width depth : Nat} {id : NodeId} {scope : ScopeId} {found : Scope} {stmts : List NodeId}

include hshape in
theorem var_writes (hreached : p.Reached depth id) (hnode : p.node? id = some (.block scope stmts))
    (hscope : p.scope? scope = some found) (width : Nat) (below : Nat → NodeId → List Char) :
    ∀ var ∈ found.vars, ∃ line, p.varLine var = some line ∧ ∀ indent,
      WritesLine ((p.layoutVar var).flatMap (Piece.chars width indent below)) line := by
  intro id hid
  obtain ⟨var, hvar⟩ := (hshape.linked.scopes found (mem_toList_of_lookup hscope)).vars id hid
  have hname : isName var.name = true :=
    (hshape.nodes _ _ hreached.met hnode).names _ (name_mem_namesIn hscope hid hvar stmts)
  exact ⟨.var var.type var.name, by simp [varLine, hvar], fun indent => writesLine_var hvar hname⟩

include hshape in
theorem function_writes (hblocks : p.BlockReads width depth) (hreached : p.Reached (depth + 1) id)
    (hnode : p.node? id = some (.block scope stmts)) (hscope : p.scope? scope = some found) :
    ∀ function ∈ found.functions, ∃ line, p.functionLine (p.linesWithin depth) function = some line ∧ ∀ indent,
      WritesLine ((p.layoutFunction function).flatMap (Piece.chars width indent (p.textAt width depth))) line := by
  intro f hf
  obtain ⟨function, hfunction⟩ := (hshape.linked.scopes found (mem_toList_of_lookup hscope)).functions f hf
  have hnames : ∀ name ∈ function.names, isName name = true := fun name hname =>
    (hshape.nodes _ _ hreached.met hnode).names _ (names_subset_namesIn hscope hf hfunction stmts hname)
  refine writesLine_function hfunction hnames fun body hbody => ?_
  exact hblocks body (hreached.below hshape.linked (mem_below_of_bodies hscope hnode hf hfunction hbody))
    (hshape.linked.bodies function (mem_toList_of_lookup hfunction) body hbody)

include hshape in
theorem stmt_writes (hlines : p.LineReads width depth) (hreached : p.Reached (depth + 1) id)
    (hnode : p.node? id = some (.block scope stmts)) :
    ∀ stmt ∈ stmts, ∃ line, p.lineWithin depth stmt = some line ∧ ∀ indent,
      WritesLine ((p.layoutStmt stmt).flatMap (Piece.chars width indent (p.textAt width depth))) line := by
  intro stmt hmem
  obtain ⟨node, hstmt, hblock⟩ :=
    (Option.any_eq_true _ _).mp ((hshape.nodes _ _ hreached.met hnode).stmts stmt hmem)
  have hbelow : stmt ∈ p.below id := mem_below_of_children hnode hmem
  obtain ⟨line, hline, hreads⟩ :=
    hlines stmt node (hreached.below hshape.linked hbelow) hstmt (by simpa using hblock)
  refine ⟨line, hline, fun indent => ⟨List.replicate indent ' ', _, ?_, mem_margin _, hreads indent⟩⟩
  simp [layoutStmt_chars hstmt]

end Scopes

include hshape in
theorem blockReads_succ {width depth : Nat} (hlines : p.LineReads width depth) (hblocks : p.BlockReads width depth) :
    p.BlockReads width (depth + 1) := by
  rintro id hreached ⟨scope, stmts, hnode⟩
  obtain ⟨found, hscope⟩ := (hshape.linked.nodes _ (mem_toList_of_lookup hnode)).scopes scope List.mem_cons_self
  obtain ⟨varLines, hvarLines, hreadVars⟩ :=
    mapM_forall₂ (var_writes hshape hreached hnode hscope width (p.textAt width depth))
  obtain ⟨functionLines, hfunctionLines, hreadFunctions⟩ :=
    mapM_forall₂ (function_writes hshape hblocks hreached hnode hscope)
  obtain ⟨stmtLines, hstmtLines, hreadStmts⟩ := mapM_forall₂ (stmt_writes hshape hlines hreached hnode)
  refine ⟨varLines ++ (functionLines ++ stmtLines), ?_, fun indent => ?_⟩
  · simp [linesWithin, hnode, linesOf, hscope, hvarLines, hfunctionLines, hstmtLines]
  · rw [textAt_succ hnode]
    have hread := readsLines_append (hreadVars indent)
      (readsLines_append (hreadFunctions indent) (readsLines_append (hreadStmts indent) .nil))
    simpa [layout, layoutBlock, Program.found, hscope, Piece.chars, List.flatMap_assoc] using hread

include hshape hplain in
theorem reads_back (width depth : Nat) :
    p.ExprReads width depth ∧ p.LineReads width depth ∧ p.BlockReads width depth := by
  induction depth with
  | zero => exact ⟨fun _ _ h => h.not_zero.elim, fun _ _ h => h.not_zero.elim, fun _ h => h.not_zero.elim⟩
  | succ depth ih =>
    obtain ⟨hexprs, hlines, hblocks⟩ := ih
    exact ⟨exprReads_succ hshape hplain hexprs, lineReads_succ hshape hplain hexprs hblocks,
      blockReads_succ hshape hlines hblocks⟩

/-! ## Whole programs -/

end Program

noncomputable def Source.read? (text : String) : Option (List Line) :=
  (readLines (text.toList.length + 1) text.toList).map Prod.fst

theorem Source.read?_eq {text : String} {lines : List Line} (h : ReadsLines text.toList lines) :
    read? text = some lines := by
  have hread := h (text.toList.length + 1) [] [] (Nat.lt_succ_self _) (List.forall_mem_nil _) (Or.inl rfl)
  rw [List.append_nil, List.append_nil] at hread
  rw [read?, hread]
  rfl

namespace Program

variable {p : Program}

/-- What the printer writes is read back. -/
theorem read?_render (hshape : p.WellShaped) (hplain : p.PlainLiterals) {width : Nat} {text : String}
    (h : p.render width = .ok text) : p.source? = read? text ∧ p.source?.isSome = true := by
  have hreached : p.Reached (p.nodes.size + 1) p.root :=
    ⟨Relation.ReflTransGen.refl, hshape.linked.endless_not_mem_walk (Nat.lt_succ_self _)⟩
  obtain ⟨lines, hlines, hreads⟩ := (reads_back hshape hplain width _).2.2 p.root hreached hshape.linked.root
  have htext := transcript_text ((renderFrom_eq_ok p width p.root text).mp h)
  have hread := hreads 0
  rw [textAt, ← htext] at hread
  rw [source?, hlines, read?_eq hread]
  exact ⟨rfl, rfl⟩

theorem wellShaped_of_forall (hvalid : p.validate = .ok ()) (h : ∀ node ∈ p.nodes.toList, p.Shaped node) :
    p.WellShaped :=
  ⟨hvalid, fun _ node _ hnode => h node (mem_toList_of_lookup hnode)⟩

theorem plainLiterals_of_forall (h : ∀ node ∈ p.nodes.toList, node.isPlain = true) : p.PlainLiterals :=
  fun _ node _ hnode => h node (mem_toList_of_lookup hnode)

/-- Two well-shaped programs that are printed as one text have one source tree. -/
theorem source_eq_of_render_eq {q : Program} {width : Nat} {text : String} (hp : p.WellShaped) (hq : q.WellShaped)
    (hpPlain : p.PlainLiterals) (hqPlain : q.PlainLiterals) (hpText : p.render width = .ok text)
    (hqText : q.render width = .ok text) : ∃ source, p.source? = some source ∧ q.source? = some source := by
  obtain ⟨hpRead, hpSome⟩ := read?_render hp hpPlain hpText
  obtain ⟨hqRead, -⟩ := read?_render hq hqPlain hqText
  obtain ⟨source, hsource⟩ := Option.isSome_iff_exists.mp hpSome
  exact ⟨source, hsource, hqRead.trans (hpRead.symm.trans hsource)⟩

theorem source_eq_of_render_eq_stored :
    let p : Program :=
      { nodes := #[.block ⟨0⟩ [⟨1⟩], .store ⟨0⟩ .assign ⟨2⟩, .binary .sub ⟨3⟩ ⟨4⟩, .int (-5), .call "f" [⟨5⟩],
          .load ⟨0⟩]
        scopes := #[{ vars := [⟨0⟩], functions := [⟨0⟩] }]
        vars := #[⟨"x", .int⟩]
        functions := #[⟨"f", .int, [⟨"n", .int⟩], .native "it's"⟩]
        root := ⟨0⟩ }
    let q : Program :=
      { nodes := #[.int (-5), .load ⟨1⟩, .call "f" [⟨1⟩], .binary .sub ⟨0⟩ ⟨2⟩, .store ⟨1⟩ .assign ⟨3⟩, .print [],
          .block ⟨1⟩ [⟨4⟩]]
        scopes := #[{}, { vars := [⟨1⟩], functions := [⟨1⟩] }]
        vars := #[⟨"y", .double⟩, ⟨"x", .int⟩]
        functions := #[⟨"g", .void, [], .native ""⟩, ⟨"f", .int, [⟨"n", .int⟩], .native "it's"⟩]
        root := ⟨6⟩ }
    ∃ source, p.source? = some source ∧ q.source? = some source := by
  intro p q
  have hok {result : Except Fault String} {text : String} (h : result.toOption = some text) : result = .ok text := by
    cases result with
    | ok _ => exact congrArg Except.ok (Option.some.inj h)
    | error _ => cases h
  have hpText : p.render 4 = .ok "int x;\nfunction int f(int n) native 'it\\'s';\nx = (-5 - f(x));\n" :=
    hok (by decide +kernel)
  have hqText : q.render 4 = .ok "int x;\nfunction int f(int n) native 'it\\'s';\nx = (-5 - f(x));\n" :=
    hok (by decide +kernel)
  exact source_eq_of_render_eq (wellShaped_of_forall (by decide) (by decide +kernel))
    (wellShaped_of_forall (by decide) (by decide +kernel)) (plainLiterals_of_forall (by decide +kernel))
    (plainLiterals_of_forall (by decide +kernel)) hpText hqText

end Program

end Canon
