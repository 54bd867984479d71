import Canon.Proofs.Validation

/-!
# Defects are there

A defect that validation names is a rule that the program breaks, at the id that is named.
-/

namespace Canon

/-! ## Checks that tell the truth -/

/-- Of every defect that a check names something holds. -/
def Check.Blames {α : Type} (x : Check α) (bad : Defect → Prop) : Prop := ∀ d, x = .error (.defect d) → bad d

namespace Check

variable {α β : Type} {bad : Defect → Prop}

theorem blames_ok (a : α) : Blames (.ok a : Check α) bad := by
  intro d h
  cases h

theorem blames_reject {d : Defect} (h : bad d) : Blames (reject d : Check α) bad := by
  intro d' h'
  cases h'
  exact h

theorem blames_expect {part : Option α} {d : Defect} (h : (¬ ∃ a, part = some a) → bad d) :
    Blames (if part.isSome then pure () else reject d : Check Unit) bad := by
  split
  · exact blames_ok ()
  · rename_i hnone
    exact blames_reject (h fun hsome => hnone (Option.isSome_iff_exists.mpr hsome))

theorem blames_look (found : Except Fault α) : (look found).Blames bad := by
  intro d h
  cases found <;> cases h

theorem Blames.mono {x : Check α} {worse : Defect → Prop} (h : x.Blames bad) (himp : ∀ d, bad d → worse d) :
    x.Blames worse := fun d hd => himp d (h d hd)

theorem Blames.bind {x : Check α} {f : α → Check β} (hx : x.Blames bad) (hf : ∀ a, x = .ok a → (f a).Blames bad) :
    (x >>= f).Blames bad := by
  cases x with
  | error rejection =>
    intro d h
    cases h
    exact hx d rfl
  | ok a => exact hf a rfl

theorem blames_forM {l : List α} {f : α → Check Unit} (h : ∀ a ∈ l, (f a).Blames bad) : (l.forM f).Blames bad := by
  rw [List.forM_eq_forM]
  induction l with
  | nil => exact blames_ok ()
  | cons a l ih =>
    obtain ⟨ha, hl⟩ := List.forall_mem_cons.mp h
    rw [List.forM_cons]
    exact ha.bind fun _ _ => ih hl

end Check

open Check

namespace Marks

variable {ι : Type} {index : ι → UInt32} {shared : ι → Defect} {size : Nat}

/-- Among ids there is one that comes a second time, or that has been met before. -/
def Repeats (index : ι → UInt32) (seen : List UInt32) (ids : List ι) (id : ι) : Prop :=
  ∃ before after, ids = before ++ id :: after ∧ index id ∈ seen ++ before.map index

theorem Repeats.append_right {seen : List UInt32} {ids : List ι} {id : ι} (h : Repeats index seen ids id)
    (rest : List ι) : Repeats index seen (ids ++ rest) id := by
  obtain ⟨before, after, rfl, hmem⟩ := h
  exact ⟨before, after ++ rest, by simp, hmem⟩

theorem Repeats.append_left {seen : List UInt32} {ids rest : List ι} {id : ι}
    (h : Repeats index (seen ++ ids.map index) rest id) : Repeats index seen (ids ++ rest) id := by
  obtain ⟨before, after, rfl, hmem⟩ := h
  exact ⟨ids ++ before, after, by simp, by simpa [or_assoc] using hmem⟩

theorem Repeats.two_le_count [DecidableEq ι] (hinj : Function.Injective index) (met : List ι) {ids : List ι} {id : ι}
    (h : Repeats index (met.map index) ids id) : 2 ≤ (met ++ ids).count id := by
  obtain ⟨before, after, rfl, hmem⟩ := h
  have hbefore : id ∈ met ++ before := by
    rw [← List.map_append] at hmem
    exact (List.mem_map_of_injective hinj).mp hmem
  have hpos := List.count_pos_iff.mpr hbefore
  rw [← List.append_assoc, List.count_append, List.count_cons_self]
  omega

theorem claim_blames {seen : List UInt32} {i : UInt32} {d : Defect} {bad : Defect → Prop} (h : i ∈ seen → bad d) :
    ((after size seen).claim i d).Blames bad := by
  rw [claim_after]
  split
  · split
    · exact blames_reject (h (by assumption))
    · exact blames_ok _
  · intro d' h'
    cases h'

theorem foldlM_blames {α : Type} {step : Marks → α → Check Marks} {ids : α → List ι} {good : α → Prop}
    {bad : Defect → Prop}
    (hstep : ∀ seen a m, step (after size seen) a = .ok m ↔
      (good a ∧ Fresh size seen ((ids a).map index)) ∧ m = after size (seen ++ (ids a).map index))
    {l : List α}
    (hl : ∀ a ∈ l, ∀ seen, (step (after size seen) a).Blames fun d =>
      bad d ∨ ∃ id, d = shared id ∧ Repeats index seen (ids a) id)
    (seen : List UInt32) : (l.foldlM step (after size seen)).Blames fun d =>
      bad d ∨ ∃ id, d = shared id ∧ Repeats index seen (l.flatMap ids) id := by
  induction l generalizing seen with
  | nil => exact blames_ok _
  | cons a l ih =>
    obtain ⟨ha, hl⟩ := List.forall_mem_cons.mp hl
    rw [List.foldlM_cons, List.flatMap_cons]
    refine Blames.bind ((ha seen).mono fun d hd => ?_) fun m hm => ?_
    · exact hd.imp_right fun ⟨id, hid, hrepeats⟩ => ⟨id, hid, hrepeats.append_right _⟩
    · obtain ⟨-, rfl⟩ := (hstep seen a m).mp hm
      exact (ih hl _).mono fun d hd => hd.imp_right fun ⟨id, hid, hrepeats⟩ => ⟨id, hid, hrepeats.append_left⟩

theorem claims_blames {l : List ι} (seen : List UInt32) :
    (l.foldlM (fun (marks : Marks) a => marks.claim (index a) (shared a)) (after size seen)).Blames fun d =>
      ∃ id, d = shared id ∧ Repeats index seen l id := by
  have hpass : (l.foldlM (fun (marks : Marks) a => marks.claim (index a) (shared a)) (after size seen)).Blames fun d =>
      False ∨ ∃ id, d = shared id ∧ Repeats index seen (l.flatMap fun a => [a]) id := by
    have hstep : ∀ seen a m, (after size seen).claim (index a) (shared a) = .ok m ↔
        (True ∧ Fresh size seen ([a].map index)) ∧ m = after size (seen ++ [a].map index) := by simp [claim_eq_ok]
    refine foldlM_blames hstep (fun a _ seen => ?_) seen
    exact claim_blames fun hmem => .inr ⟨a, rfl, [], [], rfl, by simpa using hmem⟩
  simpa using hpass

end Marks

theorem Node.bodies_subset {node : Node} : node.bodies ⊆ node.children := by
  cases node <;> simp [bodies, children]

namespace Program

def UsesScope (p : Program) (id : ScopeId) : Prop :=
  (∃ node ∈ p.nodes.toList, id ∈ node.scopes) ∨ ∃ scope ∈ p.scopes.toList, scope.parent = some id

def UsesVar (p : Program) (id : VarId) : Prop :=
  (∃ node ∈ p.nodes.toList, id ∈ node.vars) ∨ ∃ scope ∈ p.scopes.toList, id ∈ scope.vars

/-- A node is used where a block is needed. -/
def NeedsBlock (p : Program) (id : NodeId) : Prop :=
  id = p.root ∨ (∃ node ∈ p.nodes.toList, id ∈ node.bodies) ∨ ∃ function ∈ p.functions.toList, id ∈ function.bodies

/-- What it takes for a defect to be there: the id is used in that place and is not what it should be. -/
def Broken (p : Program) : Defect → Prop
  | .missingNode id => id ∈ p.places ∧ ¬ p.HasNode id
  | .missingScope id => p.UsesScope id ∧ ¬ p.HasScope id
  | .missingVar id => p.UsesVar id ∧ ¬ p.HasVar id
  | .missingFunction id => id ∈ p.declarations ∧ ¬ p.HasFunction id
  | .notABlock id => p.NeedsBlock id ∧ p.HasNode id ∧ ¬ p.HasBlock id
  | .sharedNode id => 2 ≤ p.places.count id
  | .sharedScope id => 2 ≤ p.ownerships.count id
  | .sharedFunction id => 2 ≤ p.declarations.count id
  | .selfDeclaring id => ∃ i function, p.functions.toList[i]? = some function ∧ id = .ofIndex i ∧
      ∃ body ∈ function.bodies, p.DeclaresBelow body id

variable {p : Program}

/-! ## References -/

theorem expectNode_blames {id : NodeId} (h : id ∈ p.places) : (p.expectNode id).Blames p.Broken :=
  blames_expect fun hnone => ⟨h, hnone⟩

theorem expectScope_blames {id : ScopeId} (h : p.UsesScope id) : (p.expectScope id).Blames p.Broken :=
  blames_expect fun hnone => ⟨h, hnone⟩

theorem expectVar_blames {id : VarId} (h : p.UsesVar id) : (p.expectVar id).Blames p.Broken :=
  blames_expect fun hnone => ⟨h, hnone⟩

theorem expectFunction_blames {id : FunctionId} (h : id ∈ p.declarations) : (p.expectFunction id).Blames p.Broken :=
  blames_expect fun hnone => ⟨h, hnone⟩

theorem expectBlock_blames {id : NodeId} (hplace : id ∈ p.places) (h : p.NeedsBlock id) :
    (p.expectBlock id).Blames p.Broken := by
  unfold expectBlock
  cases hnode : p.node? id with
  | none => exact blames_reject ⟨hplace, by simp [HasNode, hnode]⟩
  | some node =>
    dsimp only
    split
    · exact blames_ok ()
    · rename_i hblock
      have hnone : ¬ p.HasBlock id := by
        rintro ⟨scope, stmts, hsome⟩
        cases hnode.symm.trans hsome
        exact hblock rfl
      exact blames_reject ⟨h, ⟨node, hnode⟩, hnone⟩

theorem mem_places_of_mem_children {node : Node} (hnode : node ∈ p.nodes.toList) {id : NodeId}
    (hid : id ∈ node.children) : id ∈ p.places :=
  List.mem_cons_of_mem _ (List.mem_append_left _ (List.mem_flatMap.mpr ⟨node, hnode, hid⟩))

theorem mem_places_of_mem_bodies {function : FunctionDecl} (hfunction : function ∈ p.functions.toList) {id : NodeId}
    (hid : id ∈ function.bodies) : id ∈ p.places :=
  List.mem_cons_of_mem _ (List.mem_append_right _ (List.mem_flatMap.mpr ⟨function, hfunction, hid⟩))

theorem checkReferences_blames {node : Node} (hnode : node ∈ p.nodes.toList) :
    (p.checkReferences node).Blames p.Broken := by
  have hscope (id : ScopeId) (hid : id ∈ node.scopes) : (p.expectScope id).Blames p.Broken :=
    expectScope_blames (.inl ⟨node, hnode, hid⟩)
  have hvar (id : VarId) (hid : id ∈ node.vars) : (p.expectVar id).Blames p.Broken :=
    expectVar_blames (.inl ⟨node, hnode, hid⟩)
  have hblock (id : NodeId) (hid : id ∈ node.bodies) : (p.expectBlock id).Blames p.Broken :=
    expectBlock_blames (mem_places_of_mem_children hnode (Node.bodies_subset hid)) (.inr (.inl ⟨node, hnode, hid⟩))
  unfold checkReferences
  refine Blames.bind (blames_forM fun id hid => expectNode_blames (mem_places_of_mem_children hnode hid)) fun _ _ => ?_
  cases node with
  | block scope stmts => exact hscope scope List.mem_cons_self
  | store var op value => exact hvar var List.mem_cons_self
  | load var => exact hvar var List.mem_cons_self
  | forIn var range body => exact (hvar var List.mem_cons_self).bind fun _ _ => hblock body List.mem_cons_self
  | whileLoop cond body => exact hblock body List.mem_cons_self
  | ifElse cond thenBlock elseBlock =>
    refine (hblock thenBlock List.mem_cons_self).bind fun _ _ => ?_
    exact blames_forM fun id hid => hblock id (List.mem_cons_of_mem _ hid)
  | _ => exact blames_ok ()

theorem checkScope_blames {scope : Scope} (hscope : scope ∈ p.scopes.toList) :
    (p.checkScope scope).Blames p.Broken := by
  unfold checkScope
  refine (blames_forM fun id hid => expectScope_blames (.inr ⟨scope, hscope, by simpa using hid⟩)).bind fun _ _ => ?_
  refine (blames_forM fun id hid => expectVar_blames (.inr ⟨scope, hscope, hid⟩)).bind fun _ _ => ?_
  exact blames_forM fun id hid => expectFunction_blames (List.mem_flatMap.mpr ⟨scope, hscope, hid⟩)

/-! ## The walk for a declaration -/

theorem declaresBelow_step {f : FunctionId} {fuel : Nat} {id : NodeId} {stack : List NodeId}
    (h : p.declaresBelow f (fuel + 1) (id :: stack) = .ok true) : f ∈ p.declaredBy id ∨
      ∃ node, p.node? id = some node ∧ p.declaresBelow f fuel (node.children.reverse ++ stack) = .ok true := by
  rw [declaresBelow] at h
  obtain ⟨node, hnode, h⟩ := bind_eq_ok.mp h
  have hsome : p.node? id = some node := fetch_eq_ok.mp hnode
  cases node with
  | block scope stmts =>
    obtain ⟨found, hfound, h⟩ := bind_eq_ok.mp h
    have hscope : p.scope? scope = some found := fetch_eq_ok.mp hfound
    by_cases hf : f ∈ found.functions
    · exact .inl (by simpa [declaredBy, scopesOf, functionsOf, hsome, hscope, Node.scopes] using hf)
    · exact .inr ⟨_, hsome, by simpa [hf, bind, Except.bind, pure, Except.pure] using h⟩
  | _ => exact .inr ⟨_, hsome, h⟩

theorem declaresBelow_sound {f : FunctionId} {fuel : Nat} {stack : List NodeId}
    (h : p.declaresBelow f fuel stack = .ok true) : ∃ id ∈ stack, p.DeclaresBelow id f := by
  induction fuel generalizing stack with
  | zero => cases stack <;> cases h
  | succ fuel ih =>
    cases stack with
    | nil => cases h
    | cons id stack =>
      rcases declaresBelow_step h with hf | ⟨node, hnode, hrest⟩
      · exact ⟨id, List.mem_cons_self, declaresBelow_iff.mpr (.inl hf)⟩
      obtain ⟨below, hbelow, hdeclares⟩ := ih hrest
      rcases List.mem_append.mp hbelow with hchild | hrest
      · refine ⟨id, List.mem_cons_self, declaresBelow_iff.mpr (.inr ⟨below, ?_, hdeclares⟩)⟩
        rw [childrenOf_eq hnode]
        exact List.mem_reverse.mp hchild
      · exact ⟨below, List.mem_cons_of_mem _ hrest, hdeclares⟩

theorem checkSelfDeclaration_blames {i : Nat} {function : FunctionDecl} (hi : p.functions.toList[i]? = some function) :
    (p.checkSelfDeclaration (.ofIndex i) function).Blames p.Broken := by
  unfold checkSelfDeclaration
  cases hbody : function.body with
  | native symbol => exact blames_ok ()
  | block body =>
    refine (blames_look _).bind fun found hfound => ?_
    cases found with
    | false => exact blames_ok ()
    | true =>
      obtain ⟨id, hid, hdeclares⟩ := declaresBelow_sound (mapError_eq_ok.mp hfound)
      refine blames_reject ⟨i, function, hi, rfl, body, ?_, ?_⟩
      · simp [FunctionDecl.bodies, hbody]
      · rwa [← List.mem_singleton.mp hid]

/-! ## Passes -/

section Passes

variable (seen : List UInt32) (bad : Defect → Prop)

theorem checkNode_blames {node : Node} (hnode : node ∈ p.nodes.toList) :
    (p.checkNode (.after p.nodes.size seen) node).Blames fun d =>
      p.Broken d ∨ ∃ id, d = .sharedNode id ∧ Marks.Repeats NodeId.index seen node.children id := by
  unfold checkNode
  refine ((checkReferences_blames hnode).mono fun d hd => .inl hd).bind fun _ _ => ?_
  exact (Marks.claims_blames seen).mono fun d hd => .inr hd

theorem checkBody_blames {function : FunctionDecl} (hfunction : function ∈ p.functions.toList) :
    (p.checkBody (.after p.nodes.size seen) function).Blames fun d =>
      p.Broken d ∨ ∃ id, d = .sharedNode id ∧ Marks.Repeats NodeId.index seen function.bodies id := by
  unfold checkBody
  cases hbody : function.body with
  | native symbol => exact blames_ok _
  | block body =>
    have hmem : body ∈ function.bodies := by simp [FunctionDecl.bodies, hbody]
    have hblock : (p.expectBlock body).Blames p.Broken :=
      expectBlock_blames (mem_places_of_mem_bodies hfunction hmem) (.inr (.inr ⟨function, hfunction, hmem⟩))
    refine (hblock.mono fun d hd => .inl hd).bind fun _ _ => ?_
    refine Marks.claim_blames fun hseen => .inr ⟨body, rfl, [], [], ?_, by simpa using hseen⟩
    simp [FunctionDecl.bodies, hbody]

theorem claimScope_blames {size : Nat} (node : Node) : (claimScope (.after size seen) node).Blames fun d =>
    bad d ∨ ∃ id, d = .sharedScope id ∧ Marks.Repeats ScopeId.index seen node.scopes id := by
  cases node with
  | block scope stmts => exact Marks.claim_blames fun hseen => .inr ⟨scope, rfl, [], [], rfl, by simpa using hseen⟩
  | _ => exact blames_ok _

theorem claimFunctions_blames {size : Nat} (scope : Scope) : (claimFunctions (.after size seen) scope).Blames fun d =>
    bad d ∨ ∃ id, d = .sharedFunction id ∧ Marks.Repeats FunctionId.index seen scope.functions id :=
  (Marks.claims_blames seen).mono fun _ hd => .inr hd

end Passes

theorem checkDeclarations_blames : p.checkDeclarations.Blames p.Broken := by
  unfold checkDeclarations
  simp only [← Marks.after_nil]
  refine Blames.bind ((Marks.foldlM_blames (fun seen node m => claimScope_eq_ok seen node m)
    (fun node _ seen => claimScope_blames seen p.Broken node) []).mono fun d hd => ?_) fun _ _ => ?_
  · obtain hbroken | ⟨id, rfl, hrepeats⟩ := hd
    · exact hbroken
    · exact Marks.Repeats.two_le_count ScopeId.index_injective [] hrepeats
  refine Blames.bind ((Marks.foldlM_blames (fun seen scope m => claimFunctions_eq_ok seen scope m)
    (fun scope _ seen => claimFunctions_blames seen p.Broken scope) []).mono fun d hd => ?_) fun _ _ => ?_
  · obtain hbroken | ⟨id, rfl, hrepeats⟩ := hd
    · exact hbroken
    · exact Marks.Repeats.two_le_count FunctionId.index_injective [] hrepeats
  refine blames_forM fun part hpart => ?_
  obtain ⟨function, i⟩ := part
  exact checkSelfDeclaration_blames (List.mem_zipIdx_iff_getElem?.mp hpart)

/-- A defect that validation names is there. -/
theorem broken_of_validate : p.validate.Blames p.Broken := by
  unfold validate claimNode
  refine (expectBlock_blames List.mem_cons_self (.inl rfl)).bind fun _ _ => ?_
  rw [← Marks.after_nil]
  refine Blames.bind (Marks.claim_blames fun hmem => by cases hmem) fun _ hclaim => ?_
  obtain ⟨-, rfl⟩ := Marks.claim_eq_ok.mp hclaim
  have hsplit : p.places = ([p.root] ++ p.nodes.toList.flatMap Node.children) ++
      p.functions.toList.flatMap FunctionDecl.bodies := rfl
  refine Blames.bind ((Marks.foldlM_blames (fun seen node m => checkNode_eq_ok seen node m)
    (fun node hnode seen => checkNode_blames seen hnode) _).mono fun d hd => ?_) fun _ hpass => ?_
  · obtain hbroken | ⟨id, rfl, hrepeats⟩ := hd
    · exact hbroken
    · have hcount := Marks.Repeats.two_le_count NodeId.index_injective [p.root] hrepeats
      change 2 ≤ p.places.count id
      rw [hsplit, List.count_append]
      omega
  obtain ⟨-, rfl⟩ := (Marks.foldlM_eq_ok _ _ _ (fun seen node m => checkNode_eq_ok seen node m) _ _ _).mp hpass
  refine (blames_forM fun scope hscope => checkScope_blames hscope).bind fun _ _ => ?_
  refine Blames.bind ((Marks.foldlM_blames (fun seen function m => checkBody_eq_ok seen function m)
    (fun function hfunction seen => checkBody_blames seen hfunction) _).mono fun d hd => ?_) fun _ _ => ?_
  · obtain hbroken | ⟨id, rfl, hrepeats⟩ := hd
    · exact hbroken
    · rw [List.nil_append, ← List.map_singleton, ← List.map_append] at hrepeats
      change 2 ≤ p.places.count id
      rw [hsplit]
      exact hrepeats.two_le_count NodeId.index_injective _
  exact checkDeclarations_blames

end Program

end Canon
