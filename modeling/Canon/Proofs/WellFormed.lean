import Canon.Program.Validate
import Mathlib.Data.List.Nodup
import Mathlib.Data.List.Perm.Subperm
import Mathlib.Logic.Relation

/-!
# Well-formed programs

A program is well formed when every id leads somewhere, every body is a block, no node hangs in two places, no scope has
two owners and no function two declarations, and no function is declared inside its own body.
-/

namespace Canon

section Lookup

variable {α β ι : Type}

theorem eq_index_of_mem {store : List α} {out : α → List β} (h : (store.flatMap out).Nodup) {i j : Nat} {a c : α}
    (hi : store[i]? = some a) (hj : store[j]? = some c) {b : β} (ha : b ∈ out a) (hc : b ∈ out c) : i = j := by
  have hpair := List.pairwise_iff_getElem.mp (List.nodup_flatMap.mp h).2
  obtain ⟨hi', rfl⟩ := List.getElem?_eq_some_iff.mp hi
  obtain ⟨hj', rfl⟩ := List.getElem?_eq_some_iff.mp hj
  rcases Nat.lt_trichotomy i j with hlt | heq | hlt
  · exact absurd hc (hpair i j hi' hj' hlt ha)
  · exact heq
  · exact absurd ha (hpair j i hj' hi' hlt hc)

theorem nodup_flatMap_lookup {store : List α} {out : α → List β} (h : (store.flatMap out).Nodup)
    {pos : ι → Nat} (hpos : Function.Injective pos) {ids : List ι} (hids : ids.Nodup) :
    (ids.flatMap fun i => (store[pos i]?.map out).getD []).Nodup := by
  refine List.nodup_flatMap.mpr ⟨fun i _ => ?_, hids.imp fun {i j} hij => ?_⟩
  · cases hs : store[pos i]? with
    | none => simp
    | some a => exact (List.nodup_flatMap.mp h).1 a (List.mem_of_getElem? hs)
  · intro b hi hj
    cases hsi : store[pos i]? with
    | none => simp [hsi] at hi
    | some a =>
      cases hsj : store[pos j]? with
      | none => simp [hsj] at hj
      | some c =>
        simp only [hsi, hsj, Option.map_some, Option.getD_some] at hi hj
        exact hij (hpos (eq_index_of_mem h hsi hsj hi hj))

theorem mem_getD_map {part : Option α} {out : α → List β} {b : β} :
    b ∈ (part.map out).getD [] ↔ ∃ a, part = some a ∧ b ∈ out a := by
  cases part <;> simp

end Lookup

theorem NodeId.index_injective : Function.Injective NodeId.index := by
  rintro ⟨i⟩ ⟨j⟩ h
  exact congrArg NodeId.mk h

theorem ScopeId.index_injective : Function.Injective ScopeId.index := by
  rintro ⟨i⟩ ⟨j⟩ h
  exact congrArg ScopeId.mk h

theorem FunctionId.index_injective : Function.Injective FunctionId.index := by
  rintro ⟨i⟩ ⟨j⟩ h
  exact congrArg FunctionId.mk h

theorem position_injective {ι : Type} {index : ι → UInt32} (h : Function.Injective index) :
    Function.Injective fun id => (index id).toNat := fun _ _ heq => h (UInt32.toNat_inj.mp heq)

/-! ## What a part refers to -/

namespace Node

/-- The scope that a block owns. -/
def scopes : Node → List ScopeId
  | .block scope _ => [scope]
  | _ => []

def vars : Node → List VarId
  | .store var _ _ => [var]
  | .load var => [var]
  | .forIn var _ _ => [var]
  | _ => []

/-- The children that have to be blocks. -/
def bodies : Node → List NodeId
  | .forIn _ _ body => [body]
  | .whileLoop _ body => [body]
  | .ifElse _ thenBlock elseBlock => thenBlock :: elseBlock.toList
  | _ => []

end Node

def FunctionDecl.bodies (function : FunctionDecl) : List NodeId :=
  match function.body with
  | .block body => [body]
  | .native _ => []

/-- The id that the function at an index goes by. -/
def FunctionId.ofIndex (i : Nat) : FunctionId := ⟨UInt32.ofNat i⟩

namespace Program

def HasNode (p : Program) (id : NodeId) : Prop := ∃ node, p.node? id = some node

def HasScope (p : Program) (id : ScopeId) : Prop := ∃ scope, p.scope? id = some scope

def HasVar (p : Program) (id : VarId) : Prop := ∃ var, p.var? id = some var

def HasFunction (p : Program) (id : FunctionId) : Prop := ∃ function, p.function? id = some function

def HasBlock (p : Program) (id : NodeId) : Prop := ∃ scope stmts, p.node? id = some (.block scope stmts)

structure NodeResolves (p : Program) (node : Node) : Prop where
  children : ∀ id ∈ node.children, p.HasNode id
  scopes : ∀ id ∈ node.scopes, p.HasScope id
  vars : ∀ id ∈ node.vars, p.HasVar id
  bodies : ∀ id ∈ node.bodies, p.HasBlock id

structure ScopeResolves (p : Program) (scope : Scope) : Prop where
  parent : ∀ id ∈ scope.parent, p.HasScope id
  vars : ∀ id ∈ scope.vars, p.HasVar id
  functions : ∀ id ∈ scope.functions, p.HasFunction id

/-- Every place where a node hangs: at the root, below another node, or as the body of a function. -/
def places (p : Program) : List NodeId :=
  p.root :: (p.nodes.toList.flatMap Node.children ++ p.functions.toList.flatMap FunctionDecl.bodies)

def ownerships (p : Program) : List ScopeId := p.nodes.toList.flatMap Node.scopes

def declarations (p : Program) : List FunctionId := p.scopes.toList.flatMap Scope.functions

def childrenOf (p : Program) (id : NodeId) : List NodeId := ((p.node? id).map Node.children).getD []

def scopesOf (p : Program) (id : NodeId) : List ScopeId := ((p.node? id).map Node.scopes).getD []

def functionsOf (p : Program) (id : ScopeId) : List FunctionId := ((p.scope? id).map Scope.functions).getD []

def declaredBy (p : Program) (id : NodeId) : List FunctionId := (p.scopesOf id).flatMap p.functionsOf

/-- A function is declared by a block that can be reached over children. -/
def DeclaresBelow (p : Program) (id : NodeId) (f : FunctionId) : Prop :=
  ∃ block, Relation.ReflTransGen (fun a b => b ∈ p.childrenOf a) id block ∧ f ∈ p.declaredBy block

/-- Every id leads to what it should, and every part hangs in one place at most. -/
structure Linked (p : Program) : Prop where
  root : p.HasBlock p.root
  nodes : ∀ node ∈ p.nodes.toList, p.NodeResolves node
  scopes : ∀ scope ∈ p.scopes.toList, p.ScopeResolves scope
  bodies : ∀ function ∈ p.functions.toList, ∀ id ∈ function.bodies, p.HasBlock id
  places : p.places.Nodup
  ownerships : p.ownerships.Nodup
  declarations : p.declarations.Nodup

structure WellFormed (p : Program) : Prop extends Linked p where
  outside : ∀ i function, p.functions.toList[i]? = some function →
    ∀ id ∈ function.bodies, ¬ p.DeclaresBelow id (.ofIndex i)

/-! ## Ids that lead somewhere -/

variable {p : Program}

theorem hasNode_iff {id : NodeId} : p.HasNode id ↔ id.index.toNat < p.nodes.size := by
  rw [HasNode, node?, ← Option.isSome_iff_exists]
  simp

theorem hasScope_iff {id : ScopeId} : p.HasScope id ↔ id.index.toNat < p.scopes.size := by
  rw [HasScope, scope?, ← Option.isSome_iff_exists]
  simp

theorem hasFunction_iff {id : FunctionId} : p.HasFunction id ↔ id.index.toNat < p.functions.size := by
  rw [HasFunction, function?, ← Option.isSome_iff_exists]
  simp

theorem HasBlock.hasNode {id : NodeId} (h : p.HasBlock id) : p.HasNode id := by
  obtain ⟨scope, stmts, hnode⟩ := h
  exact ⟨_, hnode⟩

theorem mem_toList_of_lookup {α : Type} {store : Array α} {i : Nat} {a : α} (h : store[i]? = some a) :
    a ∈ store.toList := by
  rw [← Array.getElem?_toList] at h
  exact List.mem_of_getElem? h

theorem childrenOf_eq {id : NodeId} {node : Node} (h : p.node? id = some node) : p.childrenOf id = node.children := by
  simp [childrenOf, h]

theorem length_le_size {ids : List NodeId} (hids : ids.Nodup) (hhas : ∀ id ∈ ids, p.HasNode id) :
    ids.length ≤ p.nodes.size := by
  have hinj := position_injective NodeId.index_injective
  have hsub : ids.map (fun id => id.index.toNat) ⊆ List.range p.nodes.size := by
    intro i hi
    obtain ⟨id, hid, rfl⟩ := List.mem_map.mp hi
    exact List.mem_range.mpr (hasNode_iff.mp (hhas id hid))
  have hle := (List.subperm_of_subset ((List.nodup_map_iff hinj).mpr hids) hsub).length_le
  simpa using hle

/-! ## Parts hang in one place -/

namespace Linked

theorem hasNode_of_mem_childrenOf (h : p.Linked) {a b : NodeId} (hb : b ∈ p.childrenOf a) : p.HasNode b := by
  obtain ⟨node, hnode, hb⟩ := mem_getD_map.mp hb
  exact (h.nodes node (mem_toList_of_lookup hnode)).children b hb

theorem nodup_childrenOf (h : p.Linked) {ids : List NodeId} (hids : ids.Nodup) : (ids.flatMap p.childrenOf).Nodup := by
  have hchildren := (List.nodup_append.mp (List.nodup_cons.mp h.places).2).1
  have hlookup := nodup_flatMap_lookup hchildren (position_injective NodeId.index_injective) hids
  simp only [Array.getElem?_toList] at hlookup
  exact hlookup

theorem mem_children_of_mem_childrenOf {a b : NodeId} (hb : b ∈ p.childrenOf a) :
    b ∈ p.nodes.toList.flatMap Node.children := by
  obtain ⟨node, hnode, hb⟩ := mem_getD_map.mp hb
  exact List.mem_flatMap.mpr ⟨node, mem_toList_of_lookup hnode, hb⟩

theorem body_not_mem_childrenOf (h : p.Linked) {body a : NodeId}
    (hbody : body ∈ p.functions.toList.flatMap FunctionDecl.bodies) : body ∉ p.childrenOf a := fun hmem =>
  (List.nodup_append.mp (List.nodup_cons.mp h.places).2).2.2 body (mem_children_of_mem_childrenOf hmem) body hbody rfl

end Linked

end Program

end Canon
