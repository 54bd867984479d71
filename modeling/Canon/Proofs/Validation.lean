import Canon.Proofs.Checks
import Canon.Proofs.WellFormed

/-!
# Validation

Every check passes exactly when its rule holds, and so validation accepts exactly the well-formed programs.
-/

open scoped List

namespace Canon

namespace Program

/-! ## References -/

theorem fetch_eq_ok {α : Type} {store : Array α} {i : UInt32} {a : α} :
    fetch store i = .ok a ↔ store[i.toNat]? = some a := by
  unfold fetch
  cases store[i.toNat]? <;> simp

theorem expectNode_eq_ok {p : Program} {id : NodeId} : p.expectNode id = .ok () ↔ p.HasNode id := by
  rw [expectNode, ite_reject_eq_ok, pure_eq_ok, Option.isSome_iff_exists]
  exact and_iff_left rfl

theorem expectScope_eq_ok {p : Program} {id : ScopeId} : p.expectScope id = .ok () ↔ p.HasScope id := by
  rw [expectScope, ite_reject_eq_ok, pure_eq_ok, Option.isSome_iff_exists]
  exact and_iff_left rfl

theorem expectVar_eq_ok {p : Program} {id : VarId} : p.expectVar id = .ok () ↔ p.HasVar id := by
  rw [expectVar, ite_reject_eq_ok, pure_eq_ok, Option.isSome_iff_exists]
  exact and_iff_left rfl

theorem expectFunction_eq_ok {p : Program} {id : FunctionId} : p.expectFunction id = .ok () ↔ p.HasFunction id := by
  rw [expectFunction, ite_reject_eq_ok, pure_eq_ok, Option.isSome_iff_exists]
  exact and_iff_left rfl

theorem isBlock_iff {node : Node} : node.isBlock = true ↔ ∃ scope stmts, node = .block scope stmts := by
  cases node <;> simp [Node.isBlock]

theorem expectBlock_eq_ok {p : Program} {id : NodeId} : p.expectBlock id = .ok () ↔ p.HasBlock id := by
  unfold expectBlock HasBlock
  cases p.node? id with
  | none => simp [reject]
  | some node =>
    rw [ite_reject_eq_ok, pure_eq_ok, isBlock_iff]
    simp

theorem checkReferences_eq_ok {p : Program} {node : Node} : p.checkReferences node = .ok () ↔ p.NodeResolves node := by
  have hall : p.checkReferences node = .ok () ↔ (∀ id ∈ node.children, p.HasNode id) ∧
      (∀ id ∈ node.scopes, p.HasScope id) ∧ (∀ id ∈ node.vars, p.HasVar id) ∧ ∀ id ∈ node.bodies, p.HasBlock id := by
    unfold checkReferences
    rw [bind_unit_eq_ok, forM_eq_ok]
    simp only [expectNode_eq_ok]
    refine and_congr_right fun _ => ?_
    cases node <;>
      simp [-List.forM_eq_forM, Node.scopes, Node.vars, Node.bodies, bind_unit_eq_ok, forM_eq_ok, expectScope_eq_ok,
        expectVar_eq_ok, expectBlock_eq_ok, pure_eq_ok]
  rw [hall]
  exact ⟨fun ⟨hc, hs, hv, hb⟩ => ⟨hc, hs, hv, hb⟩, fun ⟨hc, hs, hv, hb⟩ => ⟨hc, hs, hv, hb⟩⟩

theorem checkScope_eq_ok {p : Program} {scope : Scope} : p.checkScope scope = .ok () ↔ p.ScopeResolves scope := by
  rw [checkScope, bind_unit_eq_ok, bind_unit_eq_ok, forM_eq_ok, forM_eq_ok, forM_eq_ok]
  simp only [Option.mem_toList, expectScope_eq_ok, expectVar_eq_ok, expectFunction_eq_ok]
  exact ⟨fun ⟨hp, hv, hf⟩ => ⟨hp, hv, hf⟩, fun ⟨hp, hv, hf⟩ => ⟨hp, hv, hf⟩⟩

/-! ## Passes -/

section Passes

variable {p : Program} {size : Nat} (seen : List UInt32)

theorem checkNode_eq_ok (node : Node) (m : Marks) :
    p.checkNode (.after p.nodes.size seen) node = .ok m ↔
      (p.NodeResolves node ∧ Marks.Fresh p.nodes.size seen (node.children.map NodeId.index)) ∧
      m = .after p.nodes.size (seen ++ node.children.map NodeId.index) := by
  unfold checkNode
  rw [bind_unit_eq_ok, checkReferences_eq_ok, and_assoc]
  exact and_congr_right fun _ => Marks.claims_eq_ok NodeId.index .sharedNode _ _ _

theorem checkBody_eq_ok (function : FunctionDecl) (m : Marks) :
    p.checkBody (.after p.nodes.size seen) function = .ok m ↔
      ((∀ id ∈ function.bodies, p.HasBlock id) ∧
        Marks.Fresh p.nodes.size seen (function.bodies.map NodeId.index)) ∧
      m = .after p.nodes.size (seen ++ function.bodies.map NodeId.index) := by
  unfold checkBody FunctionDecl.bodies
  cases function.body with
  | native symbol => simp [pure_eq_ok, Marks.fresh_nil, @eq_comm _ m]
  | block body => simp [bind_unit_eq_ok, expectBlock_eq_ok, claimNode, Marks.claim_eq_ok, and_assoc]

theorem claimScope_eq_ok (node : Node) (m : Marks) :
    claimScope (.after size seen) node = .ok m ↔
      (True ∧ Marks.Fresh size seen (node.scopes.map ScopeId.index)) ∧
      m = .after size (seen ++ node.scopes.map ScopeId.index) := by
  cases node <;> simp [claimScope, Node.scopes, pure_eq_ok, Marks.claim_eq_ok, Marks.fresh_nil, @eq_comm _ m]

theorem claimFunctions_eq_ok (scope : Scope) (m : Marks) :
    claimFunctions (.after size seen) scope = .ok m ↔
      (True ∧ Marks.Fresh size seen (scope.functions.map FunctionId.index)) ∧
      m = .after size (seen ++ scope.functions.map FunctionId.index) := by
  rw [claimFunctions, Marks.claims_eq_ok FunctionId.index .sharedFunction, true_and]

end Passes

/-! ## The walk for a declaration -/

theorem declaresBelow_cons {p : Program} {f : FunctionId} {fuel : Nat} {id : NodeId} {stack : List NodeId} {node : Node}
    (hnode : p.node? id = some node) (hscopes : ∀ id ∈ node.scopes, p.HasScope id) :
    p.declaresBelow f (fuel + 1) (id :: stack) =
      if f ∈ p.declaredBy id then .ok true else p.declaresBelow f fuel (node.children.reverse ++ stack) := by
  have hok : p.node id = .ok node := fetch_eq_ok.mpr hnode
  rw [declaresBelow, hok]
  cases node with
  | block scope stmts =>
    obtain ⟨found, hfound⟩ := hscopes scope (by simp [Node.scopes])
    have hscope : p.scope scope = .ok found := fetch_eq_ok.mpr hfound
    simp [hscope, declaredBy, scopesOf, functionsOf, hnode, hfound, Node.scopes, bind, Except.bind, pure, Except.pure]
  | _ => simp [declaredBy, scopesOf, hnode, Node.scopes, bind, Except.bind, pure, Except.pure]

theorem declaresBelow_iff {p : Program} {id : NodeId} {f : FunctionId} :
    p.DeclaresBelow id f ↔ f ∈ p.declaredBy id ∨ ∃ child ∈ p.childrenOf id, p.DeclaresBelow child f := by
  constructor
  · rintro ⟨block, hpath, hf⟩
    rcases hpath.cases_head with rfl | ⟨child, hchild, hrest⟩
    · exact .inl hf
    · exact .inr ⟨child, hchild, block, hrest, hf⟩
  · rintro (hf | ⟨child, hchild, block, hrest, hf⟩)
    · exact ⟨id, .refl, hf⟩
    · exact ⟨block, .head hchild hrest, hf⟩

/-- The walk from a body: what is on the stack or was taken off it is the body and the children of what was taken off,
and nothing was taken off twice. -/
structure Walked (p : Program) (body : NodeId) (stack taken : List NodeId) : Prop where
  perm : (stack ++ taken).Perm (body :: taken.flatMap p.childrenOf)
  nodup : (stack ++ taken).Nodup
  hasNode : ∀ id ∈ stack ++ taken, p.HasNode id

namespace Walked

variable {p : Program} {function : FunctionDecl} {body : NodeId}

theorem start (hbody : p.HasNode body) : p.Walked body [body] [] where
  perm := by simp
  nodup := by simp
  hasNode := by simpa using hbody

theorem step (hlinked : p.Linked) (hfunction : function ∈ p.functions.toList) (hbody : body ∈ function.bodies)
    {id : NodeId} {stack taken : List NodeId} {node : Node} (hnode : p.node? id = some node)
    (h : p.Walked body (id :: stack) taken) : p.Walked body (node.children.reverse ++ stack) (id :: taken) := by
  have hperm : ((node.children.reverse ++ stack) ++ id :: taken).Perm (body :: (id :: taken).flatMap p.childrenOf) := by
    rw [List.flatMap_cons, childrenOf_eq hnode, List.append_assoc]
    calc node.children.reverse ++ (stack ++ id :: taken)
      _ ~ node.children ++ (id :: stack ++ taken) := (List.reverse_perm _).append List.perm_middle
      _ ~ node.children ++ body :: taken.flatMap p.childrenOf := h.perm.append_left _
      _ ~ body :: (node.children ++ taken.flatMap p.childrenOf) := List.perm_middle
  have htaken : (id :: taken).Nodup := h.nodup.sublist (by simp)
  have hnodup : (body :: (id :: taken).flatMap p.childrenOf).Nodup := by
    refine List.nodup_cons.mpr ⟨fun hmem => ?_, hlinked.nodup_childrenOf htaken⟩
    obtain ⟨a, -, ha⟩ := List.mem_flatMap.mp hmem
    exact hlinked.body_not_mem_childrenOf (List.mem_flatMap.mpr ⟨function, hfunction, hbody⟩) ha
  refine ⟨hperm, hperm.nodup_iff.mpr hnodup, fun a ha => ?_⟩
  rcases List.mem_cons.mp (hperm.mem_iff.mp ha) with rfl | hmem
  · exact (hlinked.bodies function hfunction a hbody).hasNode
  · obtain ⟨b, -, hb⟩ := List.mem_flatMap.mp hmem
    exact hlinked.hasNode_of_mem_childrenOf hb

end Walked

theorem declaresBelow_walked {p : Program} (hlinked : p.Linked) {function : FunctionDecl} {body : NodeId}
    (hfunction : function ∈ p.functions.toList) (hbody : body ∈ function.bodies) (f : FunctionId) (fuel : Nat)
    (stack taken : List NodeId) (hwalked : p.Walked body stack taken) (hfuel : fuel + taken.length = p.nodes.size) :
    ∃ found, p.declaresBelow f fuel stack = .ok found ∧ (found = true ↔ ∃ id ∈ stack, p.DeclaresBelow id f) := by
  induction fuel generalizing stack taken with
  | zero =>
    cases stack with
    | nil => exact ⟨false, by rw [declaresBelow]; rfl, by simp⟩
    | cons id stack =>
      have hle := length_le_size hwalked.nodup hwalked.hasNode
      simp only [List.length_append, List.length_cons] at hle
      omega
  | succ fuel ih =>
    cases stack with
    | nil => exact ⟨false, by rw [declaresBelow]; rfl, by simp⟩
    | cons id stack =>
      obtain ⟨node, hnode⟩ := hwalked.hasNode id (by simp)
      rw [declaresBelow_cons hnode (hlinked.nodes node (mem_toList_of_lookup hnode)).scopes]
      by_cases hf : f ∈ p.declaredBy id
      · exact ⟨true, if_pos hf, by simpa using .inl (declaresBelow_iff.mpr (.inl hf))⟩
      · obtain ⟨found, hfound, hiff⟩ := ih _ _ (hwalked.step hlinked hfunction hbody hnode) (by simp; omega)
        refine ⟨found, by rw [if_neg hf, hfound], hiff.trans ?_⟩
        simp only [List.mem_append, List.mem_reverse, List.mem_cons, or_and_right, exists_or, exists_eq_left]
        rw [@declaresBelow_iff p id, childrenOf_eq hnode]
        simp [hf]

theorem checkSelfDeclaration_of_block {p : Program} (hlinked : p.Linked) {function : FunctionDecl} {body : NodeId}
    (hfunction : function ∈ p.functions.toList) (hbody : function.body = .block body) (f : FunctionId) :
    ∃ found : Bool, (found = true ↔ p.DeclaresBelow body f) ∧
      p.checkSelfDeclaration f function = if found then reject (.selfDeclaring f) else pure () := by
  have hmem : body ∈ function.bodies := by simp [FunctionDecl.bodies, hbody]
  obtain ⟨found, hfound, hiff⟩ := declaresBelow_walked hlinked hfunction hmem f p.nodes.size [body] []
    (.start (hlinked.bodies function hfunction body hmem).hasNode) rfl
  have hlook : Check.look (p.declaresBelow f p.nodes.size [body]) = .ok found := mapError_eq_ok.mpr hfound
  refine ⟨found, by simpa using hiff, ?_⟩
  unfold checkSelfDeclaration
  simp only [hbody, hlook]
  rfl

theorem checkSelfDeclaration_eq_ok {p : Program} (hlinked : p.Linked) {f : FunctionId} {function : FunctionDecl}
    (hfunction : function ∈ p.functions.toList) :
    p.checkSelfDeclaration f function = .ok () ↔ ∀ id ∈ function.bodies, ¬ p.DeclaresBelow id f := by
  cases hbody : function.body with
  | native symbol => simp [checkSelfDeclaration, FunctionDecl.bodies, hbody, pure_eq_ok]
  | block body =>
    obtain ⟨found, hiff, hcheck⟩ := checkSelfDeclaration_of_block hlinked hfunction hbody f
    simp only [FunctionDecl.bodies, hbody, List.mem_singleton, forall_eq]
    rw [← hiff, hcheck]
    cases found <;> simp [pure, Except.pure, reject]

/-! ## The whole program -/

theorem fresh_places {p : Program} : Marks.Fresh p.nodes.size [] (p.places.map NodeId.index) ↔
    Marks.Fresh p.nodes.size [] [p.root.index] ∧
    Marks.Fresh p.nodes.size [p.root.index] ((p.nodes.toList.flatMap Node.children).map NodeId.index) ∧
    Marks.Fresh p.nodes.size ([p.root.index] ++ (p.nodes.toList.flatMap Node.children).map NodeId.index)
      ((p.functions.toList.flatMap FunctionDecl.bodies).map NodeId.index) := by
  have hplaces : p.places =
      [p.root] ++ (p.nodes.toList.flatMap Node.children ++ p.functions.toList.flatMap FunctionDecl.bodies) := rfl
  rw [hplaces, List.map_append, Marks.fresh_append, List.map_append, Marks.fresh_append]
  rfl

theorem validate_eq_ok {p : Program} : p.validate = .ok () ↔
    p.HasBlock p.root ∧ (∀ node ∈ p.nodes.toList, p.NodeResolves node) ∧
    (∀ scope ∈ p.scopes.toList, p.ScopeResolves scope) ∧
    (∀ function ∈ p.functions.toList, ∀ id ∈ function.bodies, p.HasBlock id) ∧
    Marks.Fresh p.nodes.size [] (p.places.map NodeId.index) ∧ p.checkDeclarations = .ok () := by
  unfold validate claimNode
  rw [bind_unit_eq_ok, expectBlock_eq_ok, bind_eq_ok_of fun _ => Marks.claim_empty,
    bind_eq_ok_of fun m => Marks.foldlM_eq_ok _ _ _ checkNode_eq_ok p.nodes.toList _ m, bind_unit_eq_ok, forM_eq_ok,
    bind_eq_ok_of fun m => Marks.foldlM_eq_ok _ _ _ checkBody_eq_ok p.functions.toList _ m, fresh_places]
  simp only [checkScope_eq_ok]
  tauto

theorem checkDeclarations_eq_ok {p : Program} : p.checkDeclarations = .ok () ↔
    Marks.Fresh p.scopes.size [] (p.ownerships.map ScopeId.index) ∧
    Marks.Fresh p.functions.size [] (p.declarations.map FunctionId.index) ∧
    ∀ i function, p.functions.toList[i]? = some function → p.checkSelfDeclaration (.ofIndex i) function = .ok () := by
  unfold checkDeclarations
  simp only [← Marks.after_nil]
  rw [bind_eq_ok_of fun m => Marks.foldlM_eq_ok _ _ _ claimScope_eq_ok p.nodes.toList [] m,
    bind_eq_ok_of fun m => Marks.foldlM_eq_ok _ _ _ claimFunctions_eq_ok p.scopes.toList [] m, forM_eq_ok]
  simp only [Prod.forall, List.mem_zipIdx_iff_getElem?, implies_true, true_and]
  rw [forall_comm]
  rfl

theorem hasNode_of_mem_places {p : Program} (hroot : p.HasBlock p.root)
    (hnodes : ∀ node ∈ p.nodes.toList, p.NodeResolves node)
    (hbodies : ∀ function ∈ p.functions.toList, ∀ id ∈ function.bodies, p.HasBlock id) {id : NodeId}
    (h : id ∈ p.places) : p.HasNode id := by
  simp only [places, List.mem_cons, List.mem_append, List.mem_flatMap] at h
  rcases h with rfl | ⟨node, hnode, hid⟩ | ⟨function, hfunction, hid⟩
  · exact hroot.hasNode
  · exact (hnodes node hnode).children id hid
  · exact (hbodies function hfunction id hid).hasNode

theorem hasScope_of_mem_ownerships {p : Program} (hnodes : ∀ node ∈ p.nodes.toList, p.NodeResolves node) {id : ScopeId}
    (h : id ∈ p.ownerships) : p.HasScope id := by
  obtain ⟨node, hnode, hid⟩ := List.mem_flatMap.mp h
  exact (hnodes node hnode).scopes id hid

theorem hasFunction_of_mem_declarations {p : Program} (hscopes : ∀ scope ∈ p.scopes.toList, p.ScopeResolves scope)
    {id : FunctionId} (h : id ∈ p.declarations) : p.HasFunction id := by
  obtain ⟨scope, hscope, hid⟩ := List.mem_flatMap.mp h
  exact (hscopes scope hscope).functions id hid

theorem wellFormed_of_validate {p : Program} (h : p.validate = .ok ()) : p.WellFormed := by
  obtain ⟨hroot, hnodes, hscopes, hbodies, hplaces, hdeclarations⟩ := validate_eq_ok.mp h
  obtain ⟨howned, hdeclared, hself⟩ := checkDeclarations_eq_ok.mp hdeclarations
  have hlinked : p.Linked :=
    { root := hroot, nodes := hnodes, scopes := hscopes, bodies := hbodies
      places := hplaces.2.1.of_map _
      ownerships := howned.2.1.of_map _
      declarations := hdeclared.2.1.of_map _ }
  refine ⟨hlinked, fun i function hi => ?_⟩
  exact (checkSelfDeclaration_eq_ok hlinked (List.mem_of_getElem? hi)).mp (hself i function hi)

theorem validate_of_wellFormed {p : Program} (h : p.WellFormed) : p.validate = .ok () := by
  refine validate_eq_ok.mpr ⟨h.root, h.nodes, h.scopes, h.bodies, ?_, checkDeclarations_eq_ok.mpr ⟨?_, ?_, ?_⟩⟩
  · exact (Marks.fresh_map_iff NodeId.index_injective fun id hid =>
      hasNode_iff.mp (hasNode_of_mem_places h.root h.nodes h.bodies hid)).mpr h.places
  · exact (Marks.fresh_map_iff ScopeId.index_injective fun id hid =>
      hasScope_iff.mp (hasScope_of_mem_ownerships h.nodes hid)).mpr h.ownerships
  · exact (Marks.fresh_map_iff FunctionId.index_injective fun id hid =>
      hasFunction_iff.mp (hasFunction_of_mem_declarations h.scopes hid)).mpr h.declarations
  · intro i function hi
    exact (checkSelfDeclaration_eq_ok h.toLinked (List.mem_of_getElem? hi)).mpr (h.outside i function hi)

/-- Validation accepts exactly the well-formed programs. -/
theorem validate_eq_ok_iff_wellFormed (p : Program) : p.validate = .ok () ↔ p.WellFormed :=
  ⟨wellFormed_of_validate, validate_of_wellFormed⟩

end Program

end Canon
