import Canon.Proofs.Validation

/-!
# Validation looks nothing up in vain

Some look-ups of a validation are made without asking first whether there is something to be found. Each of them comes
after a check that has asked, so a validation ends in a defect or in nothing, and never in a fault.
-/

namespace Canon

/-! ## Checks without a fault -/

/-- A check that passes or names a defect. -/
def Check.Faultless {α : Type} (x : Check α) : Prop := ∀ fault, x ≠ .error (.fault fault)

namespace Check

variable {α β : Type}

theorem faultless_ok (a : α) : Faultless (.ok a : Check α) := by
  intro fault h
  cases h

theorem faultless_reject (d : Defect) : Faultless (reject d : Check α) := by
  intro fault h
  cases h

theorem Faultless.ite {c : Prop} [Decidable c] {x y : Check α} (hx : x.Faultless) (hy : y.Faultless) :
    (if c then x else y).Faultless := by
  split
  · exact hx
  · exact hy

theorem Faultless.bind {x : Check α} {f : α → Check β} (hx : x.Faultless)
    (hf : ∀ a, x = .ok a → (f a).Faultless) : (x >>= f).Faultless := by
  cases x with
  | error rejection =>
    intro fault h
    cases h
    exact hx fault rfl
  | ok a => exact hf a rfl

theorem faultless_forM {l : List α} {f : α → Check Unit} (h : ∀ a ∈ l, (f a).Faultless) : (l.forM f).Faultless := by
  rw [List.forM_eq_forM]
  induction l with
  | nil => exact faultless_ok ()
  | cons a l ih =>
    obtain ⟨ha, hl⟩ := List.forall_mem_cons.mp h
    rw [List.forM_cons]
    exact ha.bind fun _ _ => ih hl

end Check

open Check

namespace Marks

theorem claim_faultless {size : Nat} {i : UInt32} (hi : i.toNat < size) (seen : List UInt32) (d : Defect) :
    ((after size seen).claim i d).Faultless := by
  rw [claim_after, if_pos hi]
  exact .ite (faultless_reject d) (faultless_ok _)

theorem foldlM_faultless {α ι : Type} {size : Nat} {step : Marks → α → Check Marks} {index : ι → UInt32}
    {ids : α → List ι} {good : α → Prop}
    (hstep : ∀ seen a m, step (after size seen) a = .ok m ↔
      (good a ∧ Fresh size seen ((ids a).map index)) ∧ m = after size (seen ++ (ids a).map index))
    {l : List α} (hl : ∀ a ∈ l, ∀ seen, (step (after size seen) a).Faultless) (seen : List UInt32) :
    (l.foldlM step (after size seen)).Faultless := by
  induction l generalizing seen with
  | nil => exact faultless_ok _
  | cons a l ih =>
    obtain ⟨ha, hl⟩ := List.forall_mem_cons.mp hl
    rw [List.foldlM_cons]
    refine (ha seen).bind fun m hm => ?_
    obtain ⟨-, rfl⟩ := (hstep seen a m).mp hm
    exact ih hl _

theorem claims_faultless {α : Type} {size : Nat} {index : α → UInt32} {shared : α → Defect} {l : List α}
    (hl : ∀ a ∈ l, (index a).toNat < size) (seen : List UInt32) :
    (l.foldlM (fun (marks : Marks) a => marks.claim (index a) (shared a)) (after size seen)).Faultless := by
  refine @foldlM_faultless α α size _ index (fun a => [a]) (fun _ => True) ?_ l ?_ seen
  · intro seen a m
    simp [claim_eq_ok]
  · intro a ha seen
    exact claim_faultless (hl a ha) seen _

end Marks

namespace Program

variable {p : Program}

/-! ## References -/

theorem expectNode_faultless (id : NodeId) : (p.expectNode id).Faultless := .ite (faultless_ok ()) (faultless_reject _)

theorem expectScope_faultless (id : ScopeId) : (p.expectScope id).Faultless :=
  .ite (faultless_ok ()) (faultless_reject _)

theorem expectVar_faultless (id : VarId) : (p.expectVar id).Faultless := .ite (faultless_ok ()) (faultless_reject _)

theorem expectFunction_faultless (id : FunctionId) : (p.expectFunction id).Faultless :=
  .ite (faultless_ok ()) (faultless_reject _)

theorem expectBlock_faultless (id : NodeId) : (p.expectBlock id).Faultless := by
  unfold expectBlock
  cases p.node? id with
  | none => exact faultless_reject _
  | some node => exact .ite (faultless_ok ()) (faultless_reject _)

theorem checkReferences_faultless (node : Node) : (p.checkReferences node).Faultless := by
  unfold checkReferences
  refine (faultless_forM fun id _ => expectNode_faultless id).bind fun _ _ => ?_
  cases node with
  | block scope stmts => exact expectScope_faultless scope
  | store var op value => exact expectVar_faultless var
  | load var => exact expectVar_faultless var
  | forIn var range body => exact (expectVar_faultless var).bind fun _ _ => expectBlock_faultless body
  | whileLoop cond body => exact expectBlock_faultless body
  | ifElse cond thenBlock elseBlock =>
    exact (expectBlock_faultless thenBlock).bind fun _ _ => faultless_forM fun id _ => expectBlock_faultless id
  | _ => exact faultless_ok ()

theorem checkScope_faultless (scope : Scope) : (p.checkScope scope).Faultless := by
  unfold checkScope
  refine (faultless_forM fun id _ => expectScope_faultless id).bind fun _ _ => ?_
  refine (faultless_forM fun id _ => expectVar_faultless id).bind fun _ _ => ?_
  exact faultless_forM fun id _ => expectFunction_faultless id

/-! ## Passes -/

section Passes

variable (seen : List UInt32)

theorem checkNode_faultless (node : Node) : (p.checkNode (.after p.nodes.size seen) node).Faultless := by
  unfold checkNode
  refine (checkReferences_faultless node).bind fun _ hrefs => ?_
  have hchildren := (checkReferences_eq_ok.mp hrefs).children
  exact Marks.claims_faultless (fun id hid => hasNode_iff.mp (hchildren id hid)) seen

theorem checkBody_faultless (function : FunctionDecl) : (p.checkBody (.after p.nodes.size seen) function).Faultless := by
  unfold checkBody
  cases function.body with
  | native symbol => exact faultless_ok _
  | block body =>
    refine (expectBlock_faultless body).bind fun _ hbody => ?_
    exact Marks.claim_faultless (hasNode_iff.mp (expectBlock_eq_ok.mp hbody).hasNode) seen _

theorem claimScope_faultless {node : Node} (h : p.NodeResolves node) :
    (claimScope (.after p.scopes.size seen) node).Faultless := by
  cases node with
  | block scope stmts => exact Marks.claim_faultless (hasScope_iff.mp (h.scopes scope List.mem_cons_self)) seen _
  | _ => exact faultless_ok _

theorem claimFunctions_faultless {scope : Scope} (h : p.ScopeResolves scope) :
    (claimFunctions (.after p.functions.size seen) scope).Faultless :=
  Marks.claims_faultless (fun id hid => hasFunction_iff.mp (h.functions id hid)) seen

end Passes

theorem checkSelfDeclaration_faultless (hlinked : p.Linked) {f : FunctionId} {function : FunctionDecl}
    (hfunction : function ∈ p.functions.toList) : (p.checkSelfDeclaration f function).Faultless := by
  cases hbody : function.body with
  | native symbol =>
    unfold checkSelfDeclaration
    rw [hbody]
    exact faultless_ok ()
  | block body =>
    obtain ⟨found, -, hcheck⟩ := checkSelfDeclaration_of_block hlinked hfunction hbody f
    rw [hcheck]
    exact .ite (faultless_reject _) (faultless_ok ())

/-- What the passes before the declarations have established. -/
structure Placed (p : Program) : Prop where
  root : p.HasBlock p.root
  nodes : ∀ node ∈ p.nodes.toList, p.NodeResolves node
  scopes : ∀ scope ∈ p.scopes.toList, p.ScopeResolves scope
  bodies : ∀ function ∈ p.functions.toList, ∀ id ∈ function.bodies, p.HasBlock id
  places : p.places.Nodup

theorem checkDeclarations_faultless (h : p.Placed) : p.checkDeclarations.Faultless := by
  unfold checkDeclarations
  simp only [← Marks.after_nil]
  have hclaimScope := fun seen node m => @claimScope_eq_ok p.scopes.size seen node m
  have hclaimFunctions := fun seen scope m => @claimFunctions_eq_ok p.functions.size seen scope m
  refine (Marks.foldlM_faultless hclaimScope (fun node hnode seen => claimScope_faultless seen (h.nodes node hnode))
    []).bind fun _ hpass => ?_
  have howned := ((Marks.foldlM_eq_ok _ _ _ hclaimScope _ _ _).mp hpass).1.2
  refine (Marks.foldlM_faultless hclaimFunctions
    (fun scope hscope seen => claimFunctions_faultless seen (h.scopes scope hscope)) []).bind fun _ hpass => ?_
  have hdeclared := ((Marks.foldlM_eq_ok _ _ _ hclaimFunctions _ _ _).mp hpass).1.2
  have hlinked : p.Linked :=
    { root := h.root, nodes := h.nodes, scopes := h.scopes, bodies := h.bodies, places := h.places
      ownerships := howned.2.1.of_map _
      declarations := hdeclared.2.1.of_map _ }
  refine faultless_forM fun part hpart => ?_
  obtain ⟨function, i⟩ := part
  exact checkSelfDeclaration_faultless hlinked (List.mem_of_getElem? (List.mem_zipIdx_iff_getElem?.mp hpart))

theorem validate_faultless (p : Program) : p.validate.Faultless := by
  unfold validate claimNode
  refine (expectBlock_faultless p.root).bind fun _ hroot => ?_
  have hblock := expectBlock_eq_ok.mp hroot
  have hindex := hasNode_iff.mp hblock.hasNode
  rw [← Marks.after_nil]
  refine (Marks.claim_faultless hindex [] _).bind fun _ hclaim => ?_
  obtain ⟨hfirst, rfl⟩ := Marks.claim_eq_ok.mp hclaim
  have hcheckNode := fun seen node m => @checkNode_eq_ok p seen node m
  refine (Marks.foldlM_faultless hcheckNode (fun node _ seen => checkNode_faultless seen node) _).bind fun _ hpass => ?_
  obtain ⟨⟨hnodes, hchildren⟩, rfl⟩ := (Marks.foldlM_eq_ok _ _ _ hcheckNode _ _ _).mp hpass
  refine (faultless_forM fun scope _ => checkScope_faultless scope).bind fun _ hpass => ?_
  have hscopes := fun scope hscope => checkScope_eq_ok.mp (forM_eq_ok.mp hpass scope hscope)
  have hcheckBody := fun seen function m => @checkBody_eq_ok p seen function m
  refine (Marks.foldlM_faultless hcheckBody (fun function _ seen => checkBody_faultless seen function) _).bind
    fun _ hpass => ?_
  obtain ⟨⟨hbodies, hbodyIds⟩, -⟩ := (Marks.foldlM_eq_ok _ _ _ hcheckBody _ _ _).mp hpass
  have hplaces := fresh_places.mpr ⟨hfirst, hchildren, hbodyIds⟩
  exact checkDeclarations_faultless ⟨hblock, hnodes, hscopes, hbodies, hplaces.2.1.of_map _⟩

end Program

end Canon
