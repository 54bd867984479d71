import Canon.Proofs.Recursion

/-!
# What a text depends on

The text of a program depends on what the printer meets on its walk from the root, and not on the ids by which it gets
there. Two programs have the same text if ids of the one can be mapped to ids of the other so that what is met on the
walk of the first is carried along. Two ids may be mapped to one, and nothing is asked of what is not met, nor of the
parents of scopes.
-/

namespace Canon

/-! ## Mapping ids -/

structure Renaming where
  node : NodeId → NodeId
  scope : ScopeId → ScopeId
  var : VarId → VarId
  function : FunctionId → FunctionId

def Renaming.same : Renaming := ⟨id, id, id, id⟩

variable (r : Renaming)

def Node.rename : Node → Node
  | .binary op left right => .binary op (r.node left) (r.node right)
  | .unary op operand => .unary op (r.node operand)
  | .block scope stmts => .block (r.scope scope) (stmts.map r.node)
  | .store var op value => .store (r.var var) op (r.node value)
  | .string value => .string value
  | .double value => .double value
  | .int value => .int value
  | .load var => .load (r.var var)
  | .forIn var range body => .forIn (r.var var) (r.node range) (r.node body)
  | .whileLoop cond body => .whileLoop (r.node cond) (r.node body)
  | .ifElse cond thenBlock elseBlock => .ifElse (r.node cond) (r.node thenBlock) (elseBlock.map r.node)
  | .call name args => .call name (args.map r.node)
  | .print args => .print (args.map r.node)
  | .ret value => .ret (value.map r.node)

def Scope.rename (scope : Scope) : Scope :=
  ⟨scope.vars.map r.var, scope.functions.map r.function, scope.parent.map r.scope⟩

def FunctionBody.rename : FunctionBody → FunctionBody
  | .block id => .block (r.node id)
  | .native symbol => .native symbol

def FunctionDecl.rename (function : FunctionDecl) : FunctionDecl := { function with body := function.body.rename r }

theorem Node.rename_same (node : Node) : node.rename .same = node := by
  cases node <;> simp [rename, Renaming.same]

theorem FunctionDecl.rename_same (function : FunctionDecl) : function.rename .same = function := by
  obtain ⟨name, type, params, body⟩ := function
  cases body <;> rfl

def Ref.rename : Ref → Ref
  | .node id => .node (r.node id)
  | .scope id => .scope (r.scope id)
  | .var id => .var (r.var id)
  | .function id => .function (r.function id)

def Piece.rename : Piece → Piece
  | .look ref => .look (ref.rename r)
  | .node id => .node (r.node id)
  | .body id => .body (r.node id)
  | .text s => .text s
  | .margin => .margin

def Act.rename : Act → Act
  | .enter id => .enter (r.node id)
  | .look ref => .look (ref.rename r)
  | .text s => .text s
  | .margin level => .margin level
  | .endless => .endless

/-- The id that an act looks up. -/
def Act.ref? : Act → Option Ref
  | .enter id => some (.node id)
  | .look ref => some ref
  | _ => none

namespace Program

/-- The ids that the printer meets on its way through a program, in the order of the way. -/
def met (p : Program) : List Ref := (p.walkWithin (p.nodes.size + 1) p.root).filterMap Act.ref?

end Program

namespace Renaming

variable {r} {p q : Program}

/-- The second program has at the image of an id what the first has there, with its ids mapped. The parent of a scope is
left out of it. -/
def Matches (r : Renaming) (p q : Program) : Ref → Prop
  | .node id => ∃ node, p.node? id = some node ∧ q.node? (r.node id) = some (node.rename r)
  | .scope id => ∃ scope image, p.scope? id = some scope ∧ q.scope? (r.scope id) = some image ∧
      image.vars = scope.vars.map r.var ∧ image.functions = scope.functions.map r.function
  | .var id => ∃ var, p.var? id = some var ∧ q.var? (r.var id) = some var
  | .function id => ∃ function, p.function? id = some function ∧ q.function? (r.function id) = some (function.rename r)

theorem Matches.hasRef {ref : Ref} (h : r.Matches p q ref) : p.HasRef ref := by
  cases ref with
  | scope id =>
    obtain ⟨scope, _, hscope, -⟩ := h
    exact ⟨scope, hscope⟩
  | _ id =>
    obtain ⟨part, hpart, -⟩ := h
    exact ⟨part, hpart⟩

theorem Matches.hasRef_image {ref : Ref} (h : r.Matches p q ref) : q.HasRef (ref.rename r) := by
  cases ref with
  | scope id =>
    obtain ⟨_, image, -, himage, -⟩ := h
    exact ⟨image, himage⟩
  | _ id =>
    obtain ⟨_, -, himage⟩ := h
    exact ⟨_, himage⟩

end Renaming

namespace Program

variable {r} {p q : Program}

/-! ## The layout of a node -/

theorem found_rename {α : Type} (ref : Ref) {a b : α} {pieces image : α → List Piece}
    (h : image b = (pieces a).map (Piece.rename r)) :
    found (ref.rename r) (some b) image = (found ref (some a) pieces).map (Piece.rename r) := by
  simp [found, Piece.rename, h]

theorem commas_rename {α β : Type} {item : α → List Piece} {image : β → List Piece} {f : α → β}
    (h : ∀ a, image (f a) = (item a).map (Piece.rename r)) (as : List α) :
    commas image (as.map f) = (commas item as).map (Piece.rename r) := by
  induction as with
  | nil => rfl
  | cons a rest ih =>
    cases rest with
    | nil => exact h a
    | cons b rest =>
      simp only [List.map_cons] at ih
      simp only [List.map_cons, commas, List.map_append, h, ih]
      rfl

theorem layoutArgs_rename (args : List NodeId) :
    layoutArgs (args.map r.node) = (layoutArgs args).map (Piece.rename r) := by
  have hcommas := @commas_rename r NodeId NodeId (fun id => [.node id]) (fun id => [.node id]) r.node (fun _ => rfl) args
  simp [layoutArgs, hcommas, Piece.rename]

theorem layoutBody_rename (body : NodeId) (close : String) :
    layoutBody (r.node body) close = (layoutBody body close).map (Piece.rename r) := rfl

theorem layoutVar_rename {id : VarId} (h : r.Matches p q (.var id)) :
    q.layoutVar (r.var id) = (p.layoutVar id).map (Piece.rename r) := by
  obtain ⟨var, hvar, himage⟩ := h
  rw [layoutVar, layoutVar, hvar, himage]
  exact found_rename (.var id) rfl

theorem layoutFunction_rename {id : FunctionId} (h : r.Matches p q (.function id)) :
    q.layoutFunction (r.function id) = (p.layoutFunction id).map (Piece.rename r) := by
  obtain ⟨function, hfunction, himage⟩ := h
  rw [layoutFunction, layoutFunction, hfunction, himage]
  refine found_rename (.function id) ?_
  have hparams := @commas_rename r Param Param (fun param => [.text (param.type.keyword ++ " " ++ param.name)])
    (fun param => [.text (param.type.keyword ++ " " ++ param.name)]) (fun param => param) (fun _ => rfl) function.params
  rw [List.map_id'] at hparams
  cases hbody : function.body <;>
    simp [FunctionDecl.rename, FunctionBody.rename, hbody, ← hparams, layoutBody_rename, Piece.rename]

theorem layoutStmt_rename {id : NodeId} (h : r.Matches p q (.node id)) :
    q.layoutStmt (r.node id) = (p.layoutStmt id).map (Piece.rename r) := by
  obtain ⟨node, hnode, himage⟩ := h
  have hcompound : (node.rename r).isCompound = node.isCompound := by cases node <;> rfl
  rw [layoutStmt, layoutStmt, hnode, himage]
  refine congrArg (.margin :: .node (r.node id) :: ·) (found_rename (.node id) ?_)
  rw [hcompound]
  cases node.isCompound <;> rfl

theorem flatMap_rename {α β : Type} {pieces : α → List Piece} {image : β → List Piece} {f : α → β} {as : List α}
    (h : ∀ a ∈ as, image (f a) = (pieces a).map (Piece.rename r)) :
    (as.map f).flatMap image = (as.flatMap pieces).map (Piece.rename r) := by
  rw [List.flatMap_map, List.map_flatMap]
  exact List.flatMap_congr h

theorem layoutBlock_rename {scope : ScopeId} {stmts : List NodeId}
    (h : ∀ ref, .look ref ∈ p.layoutBlock scope stmts → r.Matches p q ref) :
    q.layoutBlock (r.scope scope) (stmts.map r.node) = (p.layoutBlock scope stmts).map (Piece.rename r) := by
  obtain ⟨found, image, hfound, himage, hvars, hfunctions⟩ := h (.scope scope) List.mem_cons_self
  simp only [layoutBlock, Program.found, hfound, Option.map_some, Option.getD_some, List.mem_cons, List.mem_append,
    List.mem_flatMap] at h
  rw [layoutBlock, layoutBlock, hfound, himage]
  refine found_rename (.scope scope) ?_
  have hvar : ∀ id ∈ found.vars, q.layoutVar (r.var id) = (p.layoutVar id).map (Piece.rename r) :=
    fun id hid => layoutVar_rename (h _ (.inr (.inl ⟨id, hid, List.mem_cons_self⟩)))
  have hfunction : ∀ id ∈ found.functions, q.layoutFunction (r.function id) = (p.layoutFunction id).map (Piece.rename r) :=
    fun id hid => layoutFunction_rename (h _ (.inr (.inr (.inl ⟨id, hid, List.mem_cons_self⟩))))
  have hstmt : ∀ id ∈ stmts, q.layoutStmt (r.node id) = (p.layoutStmt id).map (Piece.rename r) := fun id hid =>
    layoutStmt_rename (h _ (.inr (.inr (.inr ⟨id, hid, by simp [layoutStmt, Program.found]⟩))))
  rw [hvars, hfunctions, flatMap_rename hvar, flatMap_rename hfunction, flatMap_rename hstmt, List.map_append,
    List.map_append]

theorem layout_rename {node : Node} (h : ∀ ref, .look ref ∈ p.layout node → r.Matches p q ref) :
    q.layout (node.rename r) = (p.layout node).map (Piece.rename r) := by
  cases node with
  | block scope stmts => exact layoutBlock_rename h
  | store var op value =>
    obtain ⟨found, hfound, himage⟩ := h (.var var) List.mem_cons_self
    simp only [Node.rename, layout, hfound, himage]
    exact found_rename (.var var) rfl
  | load var =>
    obtain ⟨found, hfound, himage⟩ := h (.var var) List.mem_cons_self
    simp only [Node.rename, layout, hfound, himage]
    exact found_rename (.var var) rfl
  | forIn var range body =>
    obtain ⟨found, hfound, himage⟩ := h (.var var) List.mem_cons_self
    simp only [Node.rename, layout, hfound, himage]
    exact found_rename (.var var) rfl
  | ifElse cond thenBlock elseBlock => cases elseBlock <;> rfl
  | call name args => simp [Node.rename, layout, layoutArgs_rename, Piece.rename]
  | print args => simp [Node.rename, layout, layoutArgs_rename, Piece.rename]
  | ret value => cases value <;> rfl
  | _ => rfl

/-! ## The walk -/

theorem deeper_rename (act : Act) : (act.rename r).deeper = act.deeper.rename r := by cases act <;> rfl

theorem deeper_ref? (act : Act) : act.deeper.ref? = act.ref? := by cases act <;> rfl

theorem acts_rename {below image : NodeId → List Act} {piece : Piece}
    (h : ∀ id, piece.node? = some id → image (r.node id) = (below id).map (Act.rename r)) :
    (piece.rename r).acts image = (piece.acts below).map (Act.rename r) := by
  cases piece with
  | node id => exact h id rfl
  | body id =>
    simp only [Piece.rename, Piece.acts, h id rfl, List.map_map]
    exact List.map_congr_left fun act _ => deeper_rename act
  | _ => rfl

theorem mem_acts_of_ref? {below : NodeId → List Act} {piece : Piece} {id : NodeId} (hid : piece.node? = some id) {act : Act}
    (hact : act ∈ below id) : ∃ outer ∈ piece.acts below, outer.ref? = act.ref? := by
  cases piece with
  | node b =>
    cases hid
    exact ⟨act, hact, rfl⟩
  | body b =>
    cases hid
    exact ⟨act.deeper, List.mem_map_of_mem hact, deeper_ref? act⟩
  | _ => cases hid

theorem walkWithin_rename {depth : Nat} {id : NodeId}
    (h : ∀ act ∈ p.walkWithin depth id, ∀ ref, act.ref? = some ref → r.Matches p q ref) :
    q.walkWithin depth (r.node id) = (p.walkWithin depth id).map (Act.rename r) := by
  induction depth generalizing id with
  | zero => rfl
  | succ depth ih =>
    obtain ⟨node, hnode, himage⟩ := h (.enter id) List.mem_cons_self (.node id) rfl
    simp only [walkWithin, hnode, himage, Option.map_some, Option.getD_some, List.map_cons, List.mem_cons, List.mem_flatMap]
      at h ⊢
    have hlayout : q.layout (node.rename r) = (p.layout node).map (Piece.rename r) :=
      layout_rename fun ref href => h (.look ref) (.inr ⟨_, href, List.mem_cons_self⟩) ref rfl
    rw [hlayout, List.flatMap_map, List.map_flatMap]
    refine congrArg (.enter (r.node id) :: ·) (List.flatMap_congr fun piece hpiece => acts_rename fun b hb => ih ?_)
    intro act hact ref href
    obtain ⟨outer, houter, hsame⟩ := mem_acts_of_ref? hb hact
    exact h outer (.inr ⟨piece, hpiece, houter⟩) ref (hsame.trans href)

/-! ## The text -/

theorem output_rename {act : Act} (h : ∀ ref, act.ref? = some ref → r.Matches p q ref) (indent width : Nat) :
    (act.rename r).output q indent width = act.output p indent width := by
  cases act with
  | enter id =>
    have href := h (.node id) rfl
    have himage : q.fetchRef (.node (r.node id)) = .ok () := fetchRef_of_hasRef href.hasRef_image
    rw [Act.rename, Act.output, Act.output, fetchRef_of_hasRef href.hasRef, himage]
  | look ref =>
    have href := h ref rfl
    rw [Act.rename, Act.output, Act.output, fetchRef_of_hasRef href.hasRef, fetchRef_of_hasRef href.hasRef_image]
  | _ => rfl

theorem transcript_rename {acts : List Act} (h : ∀ act ∈ acts, ∀ ref, act.ref? = some ref → r.Matches p q ref)
    (indent width : Nat) : transcript q indent width (acts.map (Act.rename r)) = transcript p indent width acts := by
  induction acts with
  | nil => rfl
  | cons act acts ih =>
    obtain ⟨hact, hacts⟩ := List.forall_mem_cons.mp h
    rw [List.map_cons, transcript, transcript, output_rename hact, ih hacts]

theorem endless_mem_rename {acts : List Act} : .endless ∈ acts.map (Act.rename r) ↔ .endless ∈ acts := by
  rw [List.mem_map]
  constructor
  · rintro ⟨act, hact, hrename⟩
    cases act with
    | endless => exact hact
    | _ => cases hrename
  · exact fun hend => ⟨_, hend, rfl⟩

end Program

/-! ## Programs of one text -/

namespace Renaming

/-- What the printer meets in the first program is carried along to the second. -/
structure Carries (r : Renaming) (p q : Program) : Prop where
  root : q.root = r.node p.root
  nodes : ∀ id node, .node id ∈ p.met → p.node? id = some node → q.node? (r.node id) = some (node.rename r)
  scopes : ∀ id scope, .scope id ∈ p.met → p.scope? id = some scope → ∃ image, q.scope? (r.scope id) = some image ∧
    image.vars = scope.vars.map r.var ∧ image.functions = scope.functions.map r.function
  vars : ∀ id var, .var id ∈ p.met → p.var? id = some var → q.var? (r.var id) = some var
  functions : ∀ id function, .function id ∈ p.met → p.function? id = some function →
    q.function? (r.function id) = some (function.rename r)

variable {r : Renaming} {p q : Program}

theorem Carries.matches (h : r.Carries p q) {ref : Ref} (hmet : ref ∈ p.met) (href : p.HasRef ref) :
    r.Matches p q ref := by
  cases ref with
  | node id =>
    obtain ⟨node, hnode⟩ := href
    exact ⟨node, hnode, h.nodes id node hmet hnode⟩
  | scope id =>
    obtain ⟨scope, hscope⟩ := href
    obtain ⟨image, himage, hparts⟩ := h.scopes id scope hmet hscope
    exact ⟨scope, image, hscope, himage, hparts⟩
  | var id =>
    obtain ⟨var, hvar⟩ := href
    exact ⟨var, hvar, h.vars id var hmet hvar⟩
  | function id =>
    obtain ⟨function, hfunction⟩ := href
    exact ⟨function, hfunction, h.functions id function hmet hfunction⟩

theorem Carries.of_matches (hroot : q.root = r.node p.root) (h : ∀ ref ∈ p.met, r.Matches p q ref) : r.Carries p q where
  root := hroot
  nodes id node hmet hnode := by
    obtain ⟨_, hsame, himage⟩ := h _ hmet
    cases hsame.symm.trans hnode
    exact himage
  scopes id scope hmet hscope := by
    obtain ⟨_, image, hsame, himage⟩ := h _ hmet
    cases hsame.symm.trans hscope
    exact ⟨image, himage⟩
  vars id var hmet hvar := by
    obtain ⟨_, hsame, himage⟩ := h _ hmet
    cases hsame.symm.trans hvar
    exact himage
  functions id function hmet hfunction := by
    obtain ⟨_, hsame, himage⟩ := h _ hmet
    cases hsame.symm.trans hfunction
    exact himage

/-- The whole store of the first program is found under other ids in the second. -/
structure Renumbers (r : Renaming) (p q : Program) : Prop where
  root : q.root = r.node p.root
  nodes : ∀ id, q.node? (r.node id) = (p.node? id).map (Node.rename r)
  scopes : ∀ id, q.scope? (r.scope id) = (p.scope? id).map (Scope.rename r)
  vars : ∀ id, q.var? (r.var id) = p.var? id
  functions : ∀ id, q.function? (r.function id) = (p.function? id).map (FunctionDecl.rename r)

theorem Renumbers.carries (h : r.Renumbers p q) : r.Carries p q where
  root := h.root
  nodes id node _ hnode := by rw [h.nodes, hnode]; rfl
  scopes id scope _ hscope := ⟨scope.rename r, by rw [h.scopes, hscope]; rfl, rfl, rfl⟩
  vars id var _ hvar := by rw [h.vars, hvar]
  functions id function _ hfunction := by rw [h.functions, hfunction]; rfl

end Renaming

namespace Program

variable {p q : Program} {r : Renaming}

/-- Two programs have the same parts where the printer comes on its way through the first, but for the parents of
scopes. -/
structure AgreesWhereMet (p q : Program) : Prop where
  root : q.root = p.root
  nodes : ∀ id, .node id ∈ p.met → q.node? id = p.node? id
  scopes : ∀ id, .scope id ∈ p.met → ∀ scope, p.scope? id = some scope →
    ∃ parent, q.scope? id = some { scope with parent }
  vars : ∀ id, .var id ∈ p.met → q.var? id = p.var? id
  functions : ∀ id, .function id ∈ p.met → q.function? id = p.function? id

theorem AgreesWhereMet.carries (h : p.AgreesWhereMet q) : Renaming.same.Carries p q where
  root := h.root
  nodes id node hmet hnode := by rw [Node.rename_same, ← hnode]; exact h.nodes id hmet
  scopes id scope hmet hscope := by
    obtain ⟨parent, himage⟩ := h.scopes id hmet scope hscope
    exact ⟨_, himage, (List.map_id _).symm, (List.map_id _).symm⟩
  vars id var hmet hvar := by rw [← hvar]; exact h.vars id hmet
  functions id function hmet hfunction := by
    rw [FunctionDecl.rename_same, ← hfunction]
    exact h.functions id hmet

theorem matches_of_met (h : ∀ ref ∈ p.met, r.Matches p q ref) :
    ∀ act ∈ p.walkWithin (p.nodes.size + 1) p.root, ∀ ref, act.ref? = some ref → r.Matches p q ref :=
  fun act hact ref href => h ref (List.mem_filterMap.mpr ⟨act, hact, href⟩)

theorem render_of_carries (hends : p.WalkEnds p.root) (hresolves : ∀ ref ∈ p.met, p.HasRef ref)
    (h : r.Carries p q) (width : Nat) : q.render width = p.render width := by
  have hmatches := matches_of_met fun ref hmet => h.matches hmet (hresolves ref hmet)
  have hwalk := walkWithin_rename hmatches
  have hend := hends.endless_not_mem
  have hendImage : .endless ∉ q.walkWithin (p.nodes.size + 1) (r.node p.root) := by
    rw [hwalk, endless_mem_rename]
    exact hend
  rw [render, render, h.root, renderFrom_eq_of_end hendImage, renderFrom_eq_of_end hend, hwalk,
    transcript_rename hmatches]

theorem rendered_of_resolves (hends : p.WalkEnds p.root) (hresolves : ∀ ref ∈ p.met, p.HasRef ref) (width : Nat) :
    (∃ text, p.render width = .ok text) ∨ p.render width = .error .indentTooWide := by
  have hacts : ∀ act ∈ p.walkWithin (p.nodes.size + 1) p.root, act.Resolves p := by
    intro act hact
    cases act with
    | enter id => exact hresolves (.node id) (List.mem_filterMap.mpr ⟨_, hact, rfl⟩)
    | look ref => exact hresolves ref (List.mem_filterMap.mpr ⟨_, hact, rfl⟩)
    | _ => trivial
  rw [render, renderFrom_eq]
  cases hfault : (transcript p 0 width (p.walkWithin (p.nodes.size + 1) p.root)).fault with
  | none => exact .inl (Transcript.exists_rendered_iff.mpr hfault)
  | some fault =>
    cases transcript_fault hacts hends.endless_not_mem hfault
    exact .inr (by rw [Transcript.rendered, hfault])

/-- If the walk of the printer ends and meets no id in vain, every program that what is met can be carried to has the same
text in every width, or neither has one because its lines are indented too far. So what is not met has no bearing on the
text, nor have the parents of scopes and the numbering. -/
theorem render_sees_what_is_met (hends : p.WalkEnds p.root) (hresolves : ∀ ref ∈ p.met, p.HasRef ref) (width : Nat) :
    (∀ (q : Program) (r : Renaming), r.Carries p q → q.render width = p.render width) ∧
    ((∃ text, p.render width = .ok text) ∨ p.render width = .error .indentTooWide) ∧
    (∀ q, p.AgreesWhereMet q → q.render width = p.render width) ∧
    ∀ (q : Program) (r : Renaming), r.Renumbers p q → q.render width = p.render width :=
  ⟨fun _ _ h => render_of_carries hends hresolves h width, rendered_of_resolves hends hresolves width,
    fun _ h => render_of_carries hends hresolves h.carries width,
    fun _ _ h => render_of_carries hends hresolves h.carries width⟩

/-- A program and another that has its parts in another order, one number for two of its nodes, other parents, and nothing
of what is not met. -/
theorem render_sees_what_is_met_shuffled :
    let p : Program :=
      { nodes := #[.block ⟨0⟩ [⟨1⟩, ⟨3⟩], .store ⟨0⟩ .assign ⟨2⟩, .int 1, .call "f" [⟨4⟩], .int 1, .block ⟨1⟩ [], .load ⟨9⟩]
        scopes := #[{ vars := [⟨0⟩], functions := [⟨0⟩] }, { parent := some ⟨0⟩ }]
        vars := #[⟨"x", .int⟩]
        functions := #[{ name := "f", returnType := .void, params := [], body := .block ⟨5⟩ }]
        root := ⟨0⟩ }
    let q : Program :=
      { nodes := #[.int 1, .block ⟨0⟩ [], .call "f" [⟨0⟩], .store ⟨1⟩ .assign ⟨0⟩, .block ⟨1⟩ [⟨3⟩, ⟨2⟩]]
        scopes := #[{}, { vars := [⟨1⟩], functions := [⟨0⟩], parent := some ⟨7⟩ }]
        vars := #[⟨"y", .double⟩, ⟨"x", .int⟩]
        functions := #[{ name := "f", returnType := .void, params := [], body := .block ⟨1⟩ }]
        root := ⟨4⟩ }
    p.WalkEnds p.root ∧ (∀ ref ∈ p.met, p.HasRef ref) ∧ q.render 2 = p.render 2 ∧
      p.render 2 = .ok "int x;\nfunction void f() \x7b\n\x7d\nx = 1;\nf(1);\n" := by
  intro p q
  let r : Renaming :=
    { node := fun id => ⟨[4, 3, 0, 2, 0, 1].getD id.index.toNat 0⟩
      scope := fun id => ⟨[1, 0].getD id.index.toNat 0⟩
      var := fun _ => ⟨1⟩
      function := fun id => id }
  have hmet : p.met = [.node ⟨0⟩, .scope ⟨0⟩, .var ⟨0⟩, .function ⟨0⟩, .node ⟨5⟩, .scope ⟨1⟩, .node ⟨1⟩, .var ⟨0⟩,
      .node ⟨2⟩, .node ⟨1⟩, .node ⟨3⟩, .node ⟨4⟩, .node ⟨3⟩] := by decide
  have hends : p.WalkEnds p.root := ⟨4, by decide⟩
  have hmatches : ∀ ref ∈ p.met, r.Matches p q ref := by
    rw [hmet]
    simp only [List.forall_mem_cons]
    refine ⟨⟨_, rfl, rfl⟩, ⟨_, _, rfl, rfl, rfl, rfl⟩, ⟨_, rfl, rfl⟩, ⟨_, rfl, rfl⟩, ⟨_, rfl, rfl⟩, ⟨_, _, rfl, rfl, rfl, rfl⟩,
      ⟨_, rfl, rfl⟩, ⟨_, rfl, rfl⟩, ⟨_, rfl, rfl⟩, ⟨_, rfl, rfl⟩, ⟨_, rfl, rfl⟩, ⟨_, rfl, rfl⟩, ⟨_, rfl, rfl⟩, by simp⟩
  have hresolves : ∀ ref ∈ p.met, p.HasRef ref := fun ref hin => (hmatches ref hin).hasRef
  have hcarries : r.Carries p q := .of_matches rfl hmatches
  exact ⟨hends, hresolves, (render_sees_what_is_met hends hresolves 2).1 q r hcarries, by decide +kernel⟩

end Program

end Canon
