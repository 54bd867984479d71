import Canon.Proofs.Validation
import Canon.Proofs.Walk

/-!
# Printing a validated program

A program that passed validation is printed in a walk that ends, looks nothing up in vain, and enters no node and no
declaration of a function twice. All that can go wrong is a line that is indented too far.
-/

open scoped List

namespace Canon

open Print

/-! ## What is printed inside a node -/

def Piece.node? : Piece → Option NodeId
  | .node id => some id
  | .body id => some id
  | _ => none

def Piece.function? : Piece → Option FunctionId
  | .look (.function id) => some id
  | _ => none

namespace Program

def bodiesOf (p : Program) (id : FunctionId) : List NodeId := ((p.function? id).map FunctionDecl.bodies).getD []

/-- The nodes that are printed directly inside a node: the bodies of the functions that its scope declares, and its
children. -/
def below (p : Program) (id : NodeId) : List NodeId := (p.declaredBy id).flatMap p.bodiesOf ++ p.childrenOf id

/-- The second node is printed directly inside the first. -/
def Encloses (p : Program) (a b : NodeId) : Prop := b ∈ p.below a

variable {p : Program}

theorem commas_flatMap {α β : Type} (item : α → List Piece) {part : Piece → List β} (hpart : part (.text ", ") = [])
    (as : List α) : (commas item as).flatMap part = as.flatMap fun a => (item a).flatMap part := by
  induction as with
  | nil => rfl
  | cons a rest ih =>
    cases rest with
    | nil => simp [commas]
    | cons b rest =>
      rw [List.flatMap_cons, ← ih]
      simp [commas, hpart]

theorem commas_filterMap {α β : Type} (item : α → List Piece) {pick : Piece → Option β}
    (hpick : pick (.text ", ") = none) (as : List α) :
    (commas item as).filterMap pick = as.flatMap fun a => (item a).filterMap pick := by
  simp only [List.filterMap_eq_flatMap_toList]
  exact commas_flatMap item (congrArg Option.toList hpick) as

theorem commas_nodes {α : Type} (item : α → List Piece) (as : List α) :
    (commas item as).filterMap Piece.node? = as.flatMap fun a => (item a).filterMap Piece.node? :=
  commas_filterMap item rfl as

theorem commas_functions {α : Type} (item : α → List Piece) (as : List α) :
    (commas item as).filterMap Piece.function? = as.flatMap fun a => (item a).filterMap Piece.function? :=
  commas_filterMap item rfl as

attribute [local simp] List.filterMap_cons Piece.node? Piece.function? commas_nodes commas_functions

theorem layoutVar_nodes (id : VarId) : (p.layoutVar id).filterMap Piece.node? = [] := by
  cases h : p.var? id <;> simp [layoutVar, found, h]

theorem layoutVar_functions (id : VarId) : (p.layoutVar id).filterMap Piece.function? = [] := by
  cases h : p.var? id <;> simp [layoutVar, found, h]

theorem layoutFunction_nodes (id : FunctionId) : (p.layoutFunction id).filterMap Piece.node? = p.bodiesOf id := by
  cases h : p.function? id with
  | none => simp [layoutFunction, found, h, bodiesOf]
  | some function =>
    cases hbody : function.body <;>
      simp [layoutFunction, found, h, bodiesOf, FunctionDecl.bodies, hbody, layoutBody]

theorem layoutFunction_functions (id : FunctionId) : (p.layoutFunction id).filterMap Piece.function? = [id] := by
  cases h : p.function? id with
  | none => simp [layoutFunction, found, h]
  | some function => cases hbody : function.body <;> simp [layoutFunction, found, h, hbody, layoutBody]

theorem layoutStmt_nodes (id : NodeId) : (p.layoutStmt id).filterMap Piece.node? = [id] := by
  cases h : p.node? id with
  | none => simp [layoutStmt, found, h]
  | some node => cases hc : node.isCompound <;> simp [layoutStmt, found, h, hc]

theorem layoutStmt_functions (id : NodeId) : (p.layoutStmt id).filterMap Piece.function? = [] := by
  cases h : p.node? id with
  | none => simp [layoutStmt, found, h]
  | some node => cases hc : node.isCompound <;> simp [layoutStmt, found, h, hc]

theorem layoutArgs_nodes (args : List NodeId) : (layoutArgs args).filterMap Piece.node? = args := by
  simp [layoutArgs]

theorem layoutArgs_functions (args : List NodeId) : (layoutArgs args).filterMap Piece.function? = [] := by
  simp [layoutArgs]

theorem layoutBlock_nodes {scope : ScopeId} {stmts : List NodeId} (h : p.HasScope scope) :
    (p.layoutBlock scope stmts).filterMap Piece.node? = (p.functionsOf scope).flatMap p.bodiesOf ++ stmts := by
  obtain ⟨found, hscope⟩ := h
  simp [layoutBlock, Program.found, hscope, functionsOf, List.filterMap_flatMap, layoutVar_nodes,
    layoutFunction_nodes, layoutStmt_nodes]

theorem layoutBlock_functions {scope : ScopeId} {stmts : List NodeId} :
    (p.layoutBlock scope stmts).filterMap Piece.function? = p.functionsOf scope := by
  cases hscope : p.scope? scope with
  | none => simp [layoutBlock, found, hscope, functionsOf]
  | some found =>
    have hvars : found.vars.flatMap (fun _ => ([] : List FunctionId)) = [] := by simp
    have hstmts : stmts.flatMap (fun _ => ([] : List FunctionId)) = [] := by simp
    simp [layoutBlock, Program.found, hscope, functionsOf, List.filterMap_flatMap, layoutVar_functions,
      layoutFunction_functions, layoutStmt_functions, hvars, hstmts]

theorem layout_nodes {node : Node} (h : p.NodeResolves node) : (p.layout node).filterMap Piece.node? =
    (node.scopes.flatMap p.functionsOf).flatMap p.bodiesOf ++ node.children := by
  cases node with
  | block scope stmts =>
    rw [layout, layoutBlock_nodes (h.scopes scope List.mem_cons_self)]
    simp [Node.scopes, Node.children]
  | store var op value =>
    obtain ⟨found, hvar⟩ := h.vars var List.mem_cons_self
    simp [layout, Program.found, hvar, Node.scopes, Node.children]
  | load var =>
    obtain ⟨found, hvar⟩ := h.vars var List.mem_cons_self
    simp [layout, Program.found, hvar, Node.scopes, Node.children]
  | forIn var range body =>
    obtain ⟨found, hvar⟩ := h.vars var List.mem_cons_self
    simp [layout, Program.found, hvar, layoutBody, Node.scopes, Node.children]
  | ifElse cond thenBlock elseBlock => cases elseBlock <;> simp [layout, layoutBody, Node.scopes, Node.children]
  | ret value => cases value <;> simp [layout, Node.scopes, Node.children]
  | _ => simp [layout, layoutBody, layoutArgs_nodes, Node.scopes, Node.children]

theorem layout_functions (node : Node) :
    (p.layout node).filterMap Piece.function? = node.scopes.flatMap p.functionsOf := by
  cases node with
  | block scope stmts =>
    rw [layout, layoutBlock_functions]
    simp [Node.scopes]
  | store var op value => cases hvar : p.var? var <;> simp [layout, found, hvar, Node.scopes]
  | load var => cases hvar : p.var? var <;> simp [layout, found, hvar, Node.scopes]
  | forIn var range body => cases hvar : p.var? var <;> simp [layout, found, hvar, layoutBody, Node.scopes]
  | ifElse cond thenBlock elseBlock => cases elseBlock <;> simp [layout, layoutBody, Node.scopes]
  | ret value => cases value <;> simp [layout, Node.scopes]
  | _ => simp [layout, layoutBody, layoutArgs_functions, Node.scopes]

end Program

/-! ## What a walk enters -/

def Act.node? : Act → Option NodeId
  | .enter id => some id
  | _ => none

def Act.function? : Act → Option FunctionId
  | .look (.function id) => some id
  | _ => none

def entered (acts : List Act) : List NodeId := acts.filterMap Act.node?

def declared (acts : List Act) : List FunctionId := acts.filterMap Act.function?

theorem Act.deeper_node? (act : Act) : act.deeper.node? = act.node? := by cases act <;> rfl

theorem Act.deeper_function? (act : Act) : act.deeper.function? = act.function? := by cases act <;> rfl

theorem entered_deeper (acts : List Act) : entered (acts.map Act.deeper) = entered acts := by
  rw [entered, List.filterMap_map]
  exact congrArg (acts.filterMap ·) (funext Act.deeper_node?)

theorem declared_deeper (acts : List Act) : declared (acts.map Act.deeper) = declared acts := by
  rw [declared, List.filterMap_map]
  exact congrArg (acts.filterMap ·) (funext Act.deeper_function?)

theorem entered_append (a b : List Act) : entered (a ++ b) = entered a ++ entered b := List.filterMap_append

theorem declared_append (a b : List Act) : declared (a ++ b) = declared a ++ declared b := List.filterMap_append

theorem entered_acts (below : NodeId → List Act) (pieces : List Piece) :
    entered (pieces.flatMap (Piece.acts below)) =
      (pieces.filterMap Piece.node?).flatMap fun id => entered (below id) := by
  induction pieces with
  | nil => rfl
  | cons piece pieces ih =>
    rw [List.flatMap_cons, entered_append, ih, List.filterMap_cons]
    cases piece with
    | body id => rw [Piece.acts, entered_deeper]; rfl
    | _ => rfl

theorem declared_acts (below : NodeId → List Act) (pieces : List Piece) :
    declared (pieces.flatMap (Piece.acts below)) ~
      pieces.filterMap Piece.function? ++ (pieces.filterMap Piece.node?).flatMap fun id => declared (below id) := by
  have hmove {a b c d : List FunctionId} (h : d ~ b ++ c) : a ++ d ~ b ++ (a ++ c) :=
    (h.append_left a).trans (by
      rw [← List.append_assoc, ← List.append_assoc]
      exact List.perm_append_comm.append_right c)
  induction pieces with
  | nil => rfl
  | cons piece pieces ih =>
    rw [List.flatMap_cons, declared_append]
    cases piece with
    | node id => exact hmove ih
    | body id => rw [Piece.acts, declared_deeper]; exact hmove ih
    | look ref =>
      cases ref with
      | function id => exact ih.cons id
      | _ => exact ih
    | _ => exact ih

theorem endless_mem_deeper {acts : List Act} : .endless ∈ acts.map Act.deeper ↔ .endless ∈ acts := by
  rw [List.mem_map]
  constructor
  · rintro ⟨act, hact, hdeeper⟩
    cases act with
    | endless => exact hact
    | _ => cases hdeeper
  · exact fun hend => ⟨_, hend, rfl⟩

theorem endless_mem_acts {below : NodeId → List Act} {pieces : List Piece} :
    .endless ∈ pieces.flatMap (Piece.acts below) ↔ ∃ id ∈ pieces.filterMap Piece.node?, .endless ∈ below id := by
  constructor
  · intro h
    obtain ⟨piece, hpiece, hact⟩ := List.mem_flatMap.mp h
    cases piece with
    | node id => exact ⟨id, List.mem_filterMap.mpr ⟨_, hpiece, rfl⟩, hact⟩
    | body id => exact ⟨id, List.mem_filterMap.mpr ⟨_, hpiece, rfl⟩, endless_mem_deeper.mp hact⟩
    | _ => simp [Piece.acts] at hact
  · rintro ⟨id, hid, hend⟩
    obtain ⟨piece, hpiece, hnode⟩ := List.mem_filterMap.mp hid
    refine List.mem_flatMap.mpr ⟨piece, hpiece, ?_⟩
    cases piece with
    | node id =>
      cases hnode
      exact hend
    | body id =>
      cases hnode
      exact endless_mem_deeper.mpr hend
    | _ => cases hnode

namespace Program

variable {p : Program}

def HasRef (p : Program) : Ref → Prop
  | .node id => p.HasNode id
  | .scope id => p.HasScope id
  | .var id => p.HasVar id
  | .function id => p.HasFunction id

end Program

def Piece.Resolves (p : Program) : Piece → Prop
  | .look ref => p.HasRef ref
  | _ => True

def Act.Resolves (p : Program) : Act → Prop
  | .enter id => p.HasNode id
  | .look ref => p.HasRef ref
  | _ => True

theorem Act.resolves_deeper {p : Program} {act : Act} : act.deeper.Resolves p ↔ act.Resolves p := by
  cases act <;> rfl

namespace Program

variable {p : Program}

/-! ## Nothing is met twice -/

theorem below_of_node {id : NodeId} {node : Node} (h : p.node? id = some node) :
    p.below id = (node.scopes.flatMap p.functionsOf).flatMap p.bodiesOf ++ node.children := by
  simp [below, declaredBy, scopesOf, childrenOf, h]

namespace Linked

theorem entered_walk (h : p.Linked) (depth : Nat) (id : NodeId) :
    entered (p.walkWithin (depth + 1) id) =
      id :: (p.below id).flatMap fun id => entered (p.walkWithin depth id) := by
  cases hnode : p.node? id with
  | none => simp [walkWithin, hnode, entered, Act.node?, below, declaredBy, scopesOf, childrenOf]
  | some node =>
    have hresolves := h.nodes node (mem_toList_of_lookup hnode)
    rw [below_of_node hnode, ← layout_nodes hresolves, ← entered_acts]
    simp [walkWithin, hnode, entered, Act.node?]

theorem declared_walk (h : p.Linked) (depth : Nat) (id : NodeId) :
    declared (p.walkWithin (depth + 1) id) ~
      p.declaredBy id ++ (p.below id).flatMap fun id => declared (p.walkWithin depth id) := by
  cases hnode : p.node? id with
  | none =>
    simp [walkWithin, hnode, declared, List.filterMap_cons, Act.function?, below, declaredBy, scopesOf, childrenOf]
  | some node =>
    have hresolves := h.nodes node (mem_toList_of_lookup hnode)
    have hdeclared : p.declaredBy id = (p.layout node).filterMap Piece.function? := by
      simp [declaredBy, scopesOf, hnode, layout_functions]
    rw [below_of_node hnode, ← layout_nodes hresolves, hdeclared]
    refine List.Perm.trans ?_ (declared_acts (p.walkWithin depth) (p.layout node))
    simp [walkWithin, hnode, declared, List.filterMap_cons, Act.function?]

theorem declared_perm (h : p.Linked) (depth : Nat) (id : NodeId) :
    declared (p.walkWithin depth id) ~ (entered (p.walkWithin depth id)).flatMap p.declaredBy := by
  induction depth generalizing id with
  | zero => rfl
  | succ depth ih =>
    refine (h.declared_walk depth id).trans ?_
    rw [h.entered_walk, List.flatMap_cons, List.flatMap_assoc]
    exact (List.Perm.flatMap_left _ fun id _ => ih id).append_left _

theorem entered_perm (h : p.Linked) (depth : Nat) (id : NodeId) :
    entered (p.walkWithin (depth + 1) id) ~ id :: (entered (p.walkWithin depth id)).flatMap p.below := by
  induction depth generalizing id with
  | zero =>
    rw [h.entered_walk]
    simp [walkWithin, entered, List.filterMap_cons, Act.node?]
  | succ depth ih =>
    rw [h.entered_walk]
    refine List.Perm.cons id ?_
    calc (p.below id).flatMap (fun id => entered (p.walkWithin (depth + 1) id))
        ~ (p.below id).flatMap (fun id => [id] ++ (entered (p.walkWithin depth id)).flatMap p.below) :=
          List.Perm.flatMap_left _ fun id _ => ih id
      _ ~ (p.below id).flatMap (fun id => [id]) ++
          (p.below id).flatMap (fun id => (entered (p.walkWithin depth id)).flatMap p.below) :=
          (List.flatMap_append_perm _ _ _).symm
      _ = (entered (p.walkWithin (depth + 1) id)).flatMap p.below := by
          rw [h.entered_walk, List.flatMap_cons, List.flatMap_assoc, List.flatMap_singleton']

theorem nodup_scopesOf (h : p.Linked) {ids : List NodeId} (hids : ids.Nodup) : (ids.flatMap p.scopesOf).Nodup := by
  have hlookup := nodup_flatMap_lookup h.ownerships (position_injective NodeId.index_injective) hids
  simp only [Array.getElem?_toList] at hlookup
  exact hlookup

theorem nodup_declaredBy (h : p.Linked) {ids : List NodeId} (hids : ids.Nodup) : (ids.flatMap p.declaredBy).Nodup := by
  have hlookup :=
    nodup_flatMap_lookup h.declarations (position_injective ScopeId.index_injective) (h.nodup_scopesOf hids)
  simp only [Array.getElem?_toList, List.flatMap_assoc] at hlookup
  exact hlookup

theorem nodup_bodiesOf (h : p.Linked) {ids : List FunctionId} (hids : ids.Nodup) : (ids.flatMap p.bodiesOf).Nodup := by
  have hbodies := (List.nodup_append.mp (List.nodup_cons.mp h.places).2).2.1
  have hlookup := nodup_flatMap_lookup hbodies (position_injective FunctionId.index_injective) hids
  simp only [Array.getElem?_toList] at hlookup
  exact hlookup

theorem mem_bodies_of_mem_bodiesOf {id : NodeId} {f : FunctionId} (hid : id ∈ p.bodiesOf f) :
    id ∈ p.functions.toList.flatMap FunctionDecl.bodies := by
  obtain ⟨function, hfunction, hid⟩ := mem_getD_map.mp hid
  exact List.mem_flatMap.mpr ⟨function, mem_toList_of_lookup hfunction, hid⟩

theorem mem_below {a b : NodeId} : b ∈ p.below a ↔ (∃ f ∈ p.declaredBy a, b ∈ p.bodiesOf f) ∨ b ∈ p.childrenOf a := by
  rw [below, List.mem_append, List.mem_flatMap]

theorem root_not_mem_below (h : p.Linked) (id : NodeId) : p.root ∉ p.below id := by
  have hroot := (List.nodup_cons.mp h.places).1
  rw [List.mem_append] at hroot
  rw [mem_below]
  rintro (⟨f, -, hbody⟩ | hchild)
  · exact hroot (Or.inr (mem_bodies_of_mem_bodiesOf hbody))
  · exact hroot (Or.inl (mem_children_of_mem_childrenOf hchild))

theorem nodup_below (h : p.Linked) {ids : List NodeId} (hids : ids.Nodup) : (ids.flatMap p.below).Nodup := by
  have hsplit := List.flatMap_append_perm ids (fun id => (p.declaredBy id).flatMap p.bodiesOf) p.childrenOf
  refine hsplit.nodup_iff.mp (List.nodup_append.mpr ⟨?_, h.nodup_childrenOf hids, ?_⟩)
  · rw [← List.flatMap_assoc]
    exact h.nodup_bodiesOf (h.nodup_declaredBy hids)
  · rintro a ha b hb rfl
    obtain ⟨id, -, hid⟩ := List.mem_flatMap.mp ha
    obtain ⟨f, -, hbody⟩ := List.mem_flatMap.mp hid
    obtain ⟨_, -, hchild⟩ := List.mem_flatMap.mp hb
    exact h.body_not_mem_childrenOf (mem_bodies_of_mem_bodiesOf hbody) hchild

theorem encloses_of_mem_entered (h : p.Linked) {depth : Nat} {id a : NodeId}
    (ha : a ∈ entered (p.walkWithin depth id)) : Relation.ReflTransGen p.Encloses id a := by
  induction depth generalizing id with
  | zero => cases ha
  | succ depth ih =>
    rw [h.entered_walk, List.mem_cons, List.mem_flatMap] at ha
    rcases ha with rfl | ⟨b, hb, ha⟩
    · exact .refl
    · exact .head hb (ih ha)

theorem nodup_entered_of (h : p.Linked) {id : NodeId} (hback : ¬ Relation.TransGen p.Encloses id id) (depth : Nat) :
    (entered (p.walkWithin depth id)).Nodup := by
  induction depth with
  | zero => exact List.nodup_nil
  | succ depth ih =>
    refine (h.entered_perm depth id).nodup_iff.mpr (List.nodup_cons.mpr ⟨fun hmem => hback ?_, h.nodup_below ih⟩)
    obtain ⟨a, ha, hid⟩ := List.mem_flatMap.mp hmem
    exact .tail' (h.encloses_of_mem_entered ha) hid

theorem root_not_enclosed (h : p.Linked) {id : NodeId} : ¬ Relation.TransGen p.Encloses id p.root := by
  intro hpath
  obtain ⟨a, -, hroot⟩ := Relation.TransGen.tail'_iff.mp hpath
  exact h.root_not_mem_below a hroot

theorem nodup_entered (h : p.Linked) (depth : Nat) : (entered (p.walkWithin depth p.root)).Nodup :=
  h.nodup_entered_of h.root_not_enclosed depth

theorem nodup_declared (h : p.Linked) (depth : Nat) : (declared (p.walkWithin depth p.root)).Nodup :=
  (h.declared_perm depth p.root).nodup_iff.mpr (h.nodup_declaredBy (h.nodup_entered depth))

/-! ## Nothing is looked up in vain -/

theorem hasNode_of_mem_below (h : p.Linked) {a b : NodeId} (hb : b ∈ p.below a) : p.HasNode b := by
  rcases mem_below.mp hb with ⟨f, -, hbody⟩ | hchild
  · obtain ⟨function, hfunction, hid⟩ := mem_getD_map.mp hbody
    exact (h.bodies function (mem_toList_of_lookup hfunction) b hid).hasNode
  · exact h.hasNode_of_mem_childrenOf hchild

theorem hasNode_of_encloses (h : p.Linked) {id a : NodeId} (hid : p.HasNode id)
    (ha : Relation.ReflTransGen p.Encloses id a) : p.HasNode a := by
  induction ha with
  | refl => exact hid
  | tail _ hb _ => exact h.hasNode_of_mem_below hb

theorem resolves_commas {α : Type} {item : α → List Piece} (hitem : ∀ a, ∀ piece ∈ item a, piece.Resolves p)
    (as : List α) : ∀ piece ∈ commas item as, piece.Resolves p := by
  induction as with
  | nil => exact List.forall_mem_nil _
  | cons a rest ih =>
    cases rest with
    | nil => exact hitem a
    | cons b rest => exact List.forall_mem_append.mpr ⟨hitem a, List.forall_mem_cons.mpr ⟨trivial, ih⟩⟩

theorem resolves_found {α : Type} {ref : Ref} {part : Option α} {pieces : α → List Piece} (href : p.HasRef ref)
    (hpart : ∀ a, part = some a → ∀ piece ∈ pieces a, piece.Resolves p) :
    ∀ piece ∈ found ref part pieces, piece.Resolves p := by
  refine List.forall_mem_cons.mpr ⟨href, fun piece hpiece => ?_⟩
  obtain ⟨a, ha, hpiece⟩ := mem_getD_map.mp hpiece
  exact hpart a ha piece hpiece

theorem resolves_layoutArgs (args : List NodeId) : ∀ piece ∈ layoutArgs args, piece.Resolves p := by
  have hargs := @resolves_commas p NodeId (fun id => [.node id]) (by simp [Piece.Resolves]) args
  simpa [layoutArgs, or_imp, forall_and, Piece.Resolves] using hargs

theorem resolves_layoutVar {id : VarId} (h : p.HasVar id) : ∀ piece ∈ p.layoutVar id, piece.Resolves p :=
  resolves_found h fun var _ => by simp [Piece.Resolves]

theorem resolves_layoutFunction {id : FunctionId} (h : p.HasFunction id) :
    ∀ piece ∈ p.layoutFunction id, piece.Resolves p := by
  refine resolves_found h fun function _ => ?_
  have hparams := @resolves_commas p Param (fun param => [.text (param.type.keyword ++ " " ++ param.name)])
    (by simp [Piece.Resolves]) function.params
  cases hbody : function.body <;> simpa [layoutBody, or_imp, forall_and, Piece.Resolves] using hparams

theorem resolves_layoutStmt {id : NodeId} (h : p.HasNode id) : ∀ piece ∈ p.layoutStmt id, piece.Resolves p := by
  have hfound := @resolves_found p _ (.node id) (p.node? id)
    (fun node => (if node.isCompound then [] else [.text ";"]) ++ [.text "\n"]) h
    fun node _ => by cases node.isCompound <;> simp [Piece.Resolves]
  exact List.forall_mem_cons.mpr ⟨trivial, List.forall_mem_cons.mpr ⟨trivial, hfound⟩⟩

theorem resolves_layoutBlock (h : p.Linked) {id : ScopeId} (hid : p.HasScope id) {stmts : List NodeId}
    (hstmts : ∀ id ∈ stmts, p.HasNode id) : ∀ piece ∈ p.layoutBlock id stmts, piece.Resolves p := by
  refine resolves_found hid fun scope hscope => ?_
  have hparts := h.scopes scope (mem_toList_of_lookup hscope)
  simp only [List.forall_mem_append, List.forall_mem_flatMap]
  exact ⟨fun var hvar => resolves_layoutVar (hparts.vars var hvar),
    fun function hfunction => resolves_layoutFunction (hparts.functions function hfunction),
    fun stmt hstmt => resolves_layoutStmt (hstmts stmt hstmt)⟩

theorem resolves_layout (h : p.Linked) {node : Node} (hnode : p.NodeResolves node) :
    ∀ piece ∈ p.layout node, piece.Resolves p := by
  cases node with
  | block scope stmts =>
    exact h.resolves_layoutBlock (hnode.scopes scope List.mem_cons_self) hnode.children
  | store var op value =>
    exact resolves_found (hnode.vars var List.mem_cons_self) fun _ _ => by simp [Piece.Resolves]
  | load var => exact resolves_found (hnode.vars var List.mem_cons_self) fun _ _ => by simp [Piece.Resolves]
  | forIn var range body =>
    exact resolves_found (hnode.vars var List.mem_cons_self) fun _ _ => by simp [layoutBody, Piece.Resolves]
  | ifElse cond thenBlock elseBlock => cases elseBlock <;> simp [layout, layoutBody, Piece.Resolves]
  | call name args => exact List.forall_mem_cons.mpr ⟨trivial, resolves_layoutArgs args⟩
  | print args => exact List.forall_mem_cons.mpr ⟨trivial, resolves_layoutArgs args⟩
  | ret value => cases value <;> simp [layout, Piece.Resolves]
  | _ => simp [layout, layoutBody, Piece.Resolves]

theorem resolves_walk (h : p.Linked) {depth : Nat} {id : NodeId} (hid : p.HasNode id) :
    ∀ act ∈ p.walkWithin depth id, act.Resolves p := by
  induction depth generalizing id with
  | zero => simp [walkWithin, Act.Resolves]
  | succ depth ih =>
    obtain ⟨node, hnode⟩ := hid
    have hresolves := h.nodes node (mem_toList_of_lookup hnode)
    simp only [walkWithin, hnode, Option.map_some, Option.getD_some]
    refine List.forall_mem_cons.mpr ⟨⟨node, hnode⟩, List.forall_mem_flatMap.mpr fun piece hpiece => ?_⟩
    have hbelow : ∀ b, piece.node? = some b → ∀ act ∈ p.walkWithin depth b, act.Resolves p := by
      intro b hb
      refine ih (h.hasNode_of_mem_below (a := id) ?_)
      rw [below_of_node hnode, ← layout_nodes hresolves]
      exact List.mem_filterMap.mpr ⟨piece, hpiece, hb⟩
    cases piece with
    | look ref =>
      have href : p.HasRef ref := h.resolves_layout hresolves _ hpiece
      simpa [Piece.acts, Act.Resolves] using href
    | node b => exact hbelow b rfl
    | body b => simpa [Piece.acts, Act.resolves_deeper] using hbelow b rfl
    | text s => simp [Piece.acts, Act.Resolves]
    | margin => simp [Piece.acts, Act.Resolves]

/-! ## The walk ends -/

theorem endless_mem_succ (h : p.Linked) {depth : Nat} {id : NodeId} :
    .endless ∈ p.walkWithin (depth + 1) id ↔ ∃ b ∈ p.below id, .endless ∈ p.walkWithin depth b := by
  cases hnode : p.node? id with
  | none => simp [walkWithin, hnode, below, declaredBy, scopesOf, childrenOf]
  | some node =>
    rw [below_of_node hnode, ← layout_nodes (h.nodes node (mem_toList_of_lookup hnode)), ← endless_mem_acts]
    simp [walkWithin, hnode]

theorem depth_le_of_endless (h : p.Linked) {depth : Nat} {id : NodeId} (hend : .endless ∈ p.walkWithin depth id) :
    depth ≤ (entered (p.walkWithin depth id)).length := by
  induction depth generalizing id with
  | zero => exact Nat.zero_le _
  | succ depth ih =>
    obtain ⟨b, hb, hend⟩ := h.endless_mem_succ.mp hend
    have hle : (entered (p.walkWithin depth b)).length ≤
        ((p.below id).flatMap fun id => entered (p.walkWithin depth id)).length := by
      obtain ⟨before, after, hsplit⟩ := List.append_of_mem hb
      rw [hsplit, List.flatMap_append, List.flatMap_cons, List.length_append, List.length_append]
      omega
    rw [h.entered_walk, List.length_cons]
    have := ih hend
    omega

theorem endless_not_mem_of (h : p.Linked) {id : NodeId} (hid : p.HasNode id)
    (hback : ¬ Relation.TransGen p.Encloses id id) {depth : Nat} (hdepth : p.nodes.size < depth) :
    .endless ∉ p.walkWithin depth id := by
  intro hend
  have hlower := h.depth_le_of_endless hend
  have hupper := length_le_size (h.nodup_entered_of hback depth) fun a ha =>
    h.hasNode_of_encloses hid (h.encloses_of_mem_entered ha)
  omega

theorem endless_not_mem_walk (h : p.Linked) {depth : Nat} (hdepth : p.nodes.size < depth) :
    .endless ∉ p.walkWithin depth p.root :=
  h.endless_not_mem_of h.root.hasNode h.root_not_enclosed hdepth

end Linked

theorem walk_of_le {depth deeper : Nat} {id : NodeId} (hend : .endless ∉ p.walkWithin depth id) (hle : depth ≤ deeper) :
    p.walkWithin deeper id = p.walkWithin depth id := by
  induction depth generalizing id deeper with
  | zero => exact absurd List.mem_cons_self hend
  | succ depth ih =>
    obtain ⟨deeper, rfl⟩ := Nat.exists_eq_add_of_le' (Nat.le_of_add_left_le hle)
    cases hnode : p.node? id with
    | none => simp [walkWithin, hnode]
    | some node =>
      simp only [walkWithin, hnode, Option.map_some, Option.getD_some, List.mem_cons, reduceCtorEq, false_or] at hend ⊢
      have hpiece : ∀ piece ∈ p.layout node, .endless ∉ piece.acts (p.walkWithin depth) :=
        fun piece hpiece hact => hend (List.mem_flatMap.mpr ⟨piece, hpiece, hact⟩)
      refine congrArg _ (List.flatMap_congr fun piece hmem => ?_)
      have hsame := hpiece piece hmem
      cases piece with
      | node b => exact ih hsame (Nat.le_of_succ_le_succ hle)
      | body b =>
        rw [Piece.acts, endless_mem_deeper] at hsame
        exact congrArg _ (ih hsame (Nat.le_of_succ_le_succ hle))
      | _ => rfl

/-! ## Printing is safe -/

theorem fetchRef_of_hasRef {ref : Ref} (h : p.HasRef ref) : p.fetchRef ref = .ok () := by
  cases ref with
  | _ id =>
    obtain ⟨part, hpart⟩ := h
    simp only [node?, scope?, var?, function?] at hpart
    simp only [fetchRef, node, scope, var, function, fetch, hpart]
    rfl

theorem output_of_resolves {act : Act} {indent width : Nat} (hact : act.Resolves p) (hend : act ≠ .endless)
    (hmargin : ∀ level, act = .margin level → indent + level * width ≤ maxIndent) :
    ∃ s, act.output p indent width = .ok s := by
  cases act with
  | enter id =>
    have href : p.HasRef (.node id) := hact
    exact ⟨"", by rw [Act.output, fetchRef_of_hasRef href]; rfl⟩
  | look ref => exact ⟨"", by rw [Act.output, fetchRef_of_hasRef hact]; rfl⟩
  | text s => exact ⟨s, rfl⟩
  | margin level =>
    have hfits := hmargin level rfl
    exact ⟨_, by rw [Act.output, if_neg (by omega)]⟩
  | endless => exact absurd rfl hend

/-- Acts that look nothing up in vain, are not cut off, and enter nothing twice. -/
structure Safe (p : Program) (acts : List Act) : Prop where
  resolves : ∀ act ∈ acts, act.Resolves p
  ends : .endless ∉ acts
  nodes : (entered acts).Nodup
  functions : (declared acts).Nodup

theorem Linked.safe_walk (h : p.Linked) {depth : Nat} (hdepth : p.nodes.size < depth) :
    p.Safe (p.walkWithin depth p.root) where
  resolves := h.resolves_walk h.root.hasNode
  ends := h.endless_not_mem_walk hdepth
  nodes := h.nodup_entered depth
  functions := h.nodup_declared depth

theorem output_error {act : Act} {indent width : Nat} {fault : Fault} (hact : act.Resolves p) (hend : act ≠ .endless)
    (h : act.output p indent width = .error fault) : fault = .indentTooWide := by
  cases act with
  | enter id =>
    have href : p.HasRef (.node id) := hact
    rw [Act.output, fetchRef_of_hasRef href] at h
    cases h
  | look ref =>
    rw [Act.output, fetchRef_of_hasRef hact] at h
    cases h
  | text s => cases h
  | margin level =>
    rw [Act.output] at h
    split at h
    · exact (Except.error.inj h).symm
    · cases h
  | endless => exact absurd rfl hend

theorem transcript_fault {acts : List Act} {indent width : Nat} {fault : Fault}
    (hresolves : ∀ act ∈ acts, act.Resolves p) (hend : .endless ∉ acts)
    (h : (transcript p indent width acts).fault = some fault) : fault = .indentTooWide := by
  induction acts with
  | nil => cases h
  | cons act acts ih =>
    rw [transcript] at h
    cases hout : act.output p indent width with
    | error other =>
      rw [hout] at h
      cases h
      exact output_error (hresolves act List.mem_cons_self) (fun heq => hend (heq ▸ List.mem_cons_self)) hout
    | ok s =>
      rw [hout] at h
      exact ih (fun act hact => hresolves act (List.mem_cons_of_mem _ hact))
        (fun hmem => hend (List.mem_cons_of_mem _ hmem)) h

theorem print_fault {id : NodeId} {printer : Printer} {broken : Break}
    (hsafe : p.Safe (p.walkWithin (p.nodes.size + 1) id)) (h : p.print id printer = .error broken) :
    broken.fault = .indentTooWide := by
  rw [print, printWithin_run, deliver_run] at h
  exact transcript_fault hsafe.resolves hsafe.ends (Transcript.fault_of_leave h)

theorem render_cases (hsafe : p.Safe (p.walkWithin (p.nodes.size + 1) p.root)) (width : Nat) :
    (∃ text, p.render width = .ok text) ∨ p.render width = .error .indentTooWide := by
  unfold render renderFrom
  cases hrun : p.print p.root (Printer.start width) with
  | error broken => exact Or.inr (congrArg Except.error (print_fault hsafe hrun))
  | ok done => exact Or.inl ⟨_, rfl⟩

/-- Printing a validated program from its root ends, looks nothing up in vain, and enters no node and no function twice.
It fails on its own only where a line is indented too far. -/
theorem print_safe_of_validate (h : p.validate = .ok ()) :
    p.Safe (p.walkWithin (p.nodes.size + 1) p.root) ∧
    (∀ depth, p.nodes.size < depth → p.walkWithin depth p.root = p.walkWithin (p.nodes.size + 1) p.root ∧
      p.printWithin depth p.root = p.print p.root) ∧
    p.print p.root = forM (p.walkWithin (p.nodes.size + 1) p.root) (playAct p) ∧
    (∀ printer broken, p.print p.root printer = .error broken → broken.fault = .indentTooWide) ∧
    ∀ width, (∃ text, p.render width = .ok text) ∨ p.render width = .error .indentTooWide := by
  have hsafe := (wellFormed_of_validate h).toLinked.safe_walk (Nat.lt_succ_self _)
  have hwalk : ∀ depth, p.nodes.size < depth →
      p.walkWithin depth p.root = p.walkWithin (p.nodes.size + 1) p.root :=
    fun depth hdepth => walk_of_le hsafe.ends hdepth
  refine ⟨hsafe, fun depth hdepth => ⟨hwalk depth hdepth, ?_⟩, ?_, fun printer broken => print_fault hsafe,
    render_cases hsafe⟩
  · simp only [print, printWithin_eq_play]
    exact congrArg (forM · (playAct p)) (hwalk depth hdepth)
  · rw [print, printWithin_eq_play]

/-- A program with a function whose body prints, and an unreachable block that is below itself. -/
theorem print_safe_of_validate_nested :
    let p : Program :=
      { nodes := #[.block ⟨0⟩ [⟨1⟩], .call "f" [], .block ⟨1⟩ [⟨3⟩], .print [], .block ⟨2⟩ [⟨4⟩]]
        scopes := #[{ functions := [⟨0⟩] }, {}, {}]
        vars := #[]
        functions := #[{ name := "f", returnType := .void, params := [], body := .block ⟨2⟩ }]
        root := ⟨0⟩ }
    p.validate = .ok () ∧ p.Safe (p.walkWithin (p.nodes.size + 1) p.root) ∧
      entered (p.walkWithin (p.nodes.size + 1) p.root) = [⟨0⟩, ⟨2⟩, ⟨3⟩, ⟨1⟩] := by
  refine ⟨by decide, (print_safe_of_validate (by decide)).1, by decide⟩

end Program

end Canon
