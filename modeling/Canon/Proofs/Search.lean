import Canon.Proofs.Faultless

/-!
# Searching a body for a declaration

The last check of a validation searches the body of every function for a declaration of that function. The search keeps
no record of where it has been. It ends because of what the checks before it have established: no node hangs in two
places, and the body hangs below no node, so that the search comes to no node twice, whatever cycles there are elsewhere.
-/

namespace Canon.Program

variable {p : Program} {f : FunctionId}

/-! ## The search by itself -/

/-- A search that ends: what is on the stack, the nodes that are taken off it in turn, and whether the function is found.
Every node that is taken off is there, and so is its scope if it is a block. Nothing is counted. -/
inductive Search (p : Program) (f : FunctionId) : List NodeId → List NodeId → Bool → Prop
  | empty : Search p f [] [] false
  | declared {id : NodeId} {stack : List NodeId} {node : Node} (hnode : p.node? id = some node)
      (hscopes : ∀ scope ∈ node.scopes, p.HasScope scope) (hf : f ∈ p.declaredBy id) :
      Search p f (id :: stack) [id] true
  | descend {id : NodeId} {stack taken : List NodeId} {node : Node} {found : Bool} (hnode : p.node? id = some node)
      (hscopes : ∀ scope ∈ node.scopes, p.HasScope scope) (hf : f ∉ p.declaredBy id)
      (hrest : Search p f (node.children.reverse ++ stack) taken found) : Search p f (id :: stack) (id :: taken) found

theorem Search.declaresBelow_eq {stack taken : List NodeId} {found : Bool} (h : p.Search f stack taken found)
    {fuel : Nat} (hfuel : taken.length ≤ fuel) : p.declaresBelow f fuel stack = .ok found := by
  induction h generalizing fuel with
  | empty => rw [declaresBelow]; rfl
  | declared hnode hscopes hf =>
    obtain ⟨fuel, rfl⟩ := Nat.exists_eq_add_of_le' hfuel
    exact (declaresBelow_cons hnode hscopes).trans (if_pos hf)
  | descend hnode hscopes hf _ ih =>
    obtain ⟨fuel, rfl⟩ := Nat.exists_eq_add_of_le' (Nat.le_trans (Nat.le_add_left 1 _) hfuel)
    rw [declaresBelow_cons hnode hscopes, if_neg hf]
    exact ih (Nat.le_of_succ_le_succ hfuel)

theorem exists_node_of_declaresBelow {fuel : Nat} {id : NodeId} {stack : List NodeId} {found : Bool}
    (h : p.declaresBelow f (fuel + 1) (id :: stack) = .ok found) :
    ∃ node, p.node? id = some node ∧ ∀ scope ∈ node.scopes, p.HasScope scope := by
  rw [declaresBelow] at h
  obtain ⟨node, hnode, h⟩ := bind_eq_ok.mp h
  refine ⟨node, fetch_eq_ok.mp hnode, fun scope hscope => ?_⟩
  cases node with
  | block owned stmts =>
    obtain ⟨part, hpart, -⟩ := bind_eq_ok.mp h
    cases List.mem_singleton.mp hscope
    exact ⟨part, fetch_eq_ok.mp hpart⟩
  | _ => cases hscope

theorem exists_search_of_declaresBelow {fuel : Nat} {stack : List NodeId} {found : Bool}
    (h : p.declaresBelow f fuel stack = .ok found) : ∃ taken, p.Search f stack taken found ∧ taken.length ≤ fuel := by
  induction fuel generalizing stack with
  | zero =>
    cases stack with
    | nil =>
      cases h
      exact ⟨[], .empty, Nat.zero_le _⟩
    | cons id stack => cases h
  | succ fuel ih =>
    cases stack with
    | nil =>
      cases h
      exact ⟨[], .empty, Nat.zero_le _⟩
    | cons id stack =>
      obtain ⟨node, hnode, hscopes⟩ := exists_node_of_declaresBelow h
      rw [declaresBelow_cons hnode hscopes] at h
      by_cases hf : f ∈ p.declaredBy id
      · rw [if_pos hf] at h
        cases h
        exact ⟨[id], .declared hnode hscopes hf, Nat.succ_le_succ (Nat.zero_le _)⟩
      · rw [if_neg hf] at h
        obtain ⟨taken, hrest, hlength⟩ := ih h
        exact ⟨id :: taken, .descend hnode hscopes hf hrest, Nat.succ_le_succ hlength⟩

theorem Search.nodup (hlinked : p.Linked) {function : FunctionDecl} {body : NodeId}
    (hfunction : function ∈ p.functions.toList) (hbody : body ∈ function.bodies) {stack taken before : List NodeId}
    {found : Bool} (h : p.Search f stack taken found) (hwalked : p.Walked body stack before) :
    (taken.reverse ++ before).Nodup := by
  induction h generalizing before with
  | empty => simpa using hwalked.nodup
  | declared hnode hscopes hf => exact hwalked.nodup.sublist (by simp)
  | descend hnode hscopes hf _ ih => simpa using ih (hwalked.step hlinked hfunction hbody hnode)

/-! ## The searches of a validation -/

/-- The checks before the first search. -/
def link (p : Program) : Check Unit := do
  p.expectBlock p.root
  let parents ← claimNode (Marks.empty p.nodes.size) p.root
  let parents ← p.nodes.toList.foldlM p.checkNode parents
  p.scopes.toList.forM p.checkScope
  let _ ← p.functions.toList.foldlM p.checkBody parents
  let _ ← p.nodes.toList.foldlM claimScope (Marks.empty p.scopes.size)
  let _ ← p.scopes.toList.foldlM claimFunctions (Marks.empty p.functions.size)
  pure ()

def searchAll (p : Program) (functions : List (FunctionDecl × Nat)) : Check Unit :=
  functions.forM fun (function, i) => p.checkSelfDeclaration (.ofIndex i) function

/-- All that validation does before it comes to the function at an index. -/
def checksBefore (p : Program) (i : Nat) : Check Unit := do
  p.link
  p.searchAll (p.functions.toList.zipIdx.take i)

theorem validate_eq_link (p : Program) : p.validate = (do p.link; p.searchAll p.functions.toList.zipIdx) := by
  simp only [validate, link, checkDeclarations, bind_assoc]
  rfl

theorem searchAll_append (a b : List (FunctionDecl × Nat)) :
    p.searchAll (a ++ b) = (do p.searchAll a; p.searchAll b) := by
  simp only [searchAll, List.forM_eq_forM, List.forM_append]

theorem searchAll_cons (function : FunctionDecl) (i : Nat) (rest : List (FunctionDecl × Nat)) :
    p.searchAll ((function, i) :: rest) = (do p.checkSelfDeclaration (.ofIndex i) function; p.searchAll rest) := by
  simp only [searchAll, List.forM_eq_forM, List.forM_cons]

theorem validate_eq_checksBefore {i : Nat} {function : FunctionDecl} (h : p.functions.toList[i]? = some function) :
    p.validate = (do
      p.checksBefore i
      p.checkSelfDeclaration (.ofIndex i) function
      p.searchAll (p.functions.toList.zipIdx.drop (i + 1))) := by
  have hpart : p.functions.toList.zipIdx[i]? = some (function, i) := by simp [h]
  obtain ⟨hi, hget⟩ := List.getElem?_eq_some_iff.mp hpart
  have hdrop : p.functions.toList.zipIdx.drop i = (function, i) :: p.functions.toList.zipIdx.drop (i + 1) := by
    rw [List.drop_eq_getElem_cons hi, hget]
  rw [validate_eq_link, checksBefore, bind_assoc]
  refine bind_congr fun _ => ?_
  rw [← searchAll_cons, ← hdrop, ← searchAll_append, List.take_append_drop]

theorem linked_of_link (h : p.link = .ok ()) : p.Linked := by
  unfold link claimNode at h
  rw [bind_unit_eq_ok, expectBlock_eq_ok, bind_eq_ok_of fun _ => Marks.claim_empty,
    bind_eq_ok_of fun m => Marks.foldlM_eq_ok _ _ _ checkNode_eq_ok p.nodes.toList _ m, bind_unit_eq_ok, forM_eq_ok,
    bind_eq_ok_of fun m => Marks.foldlM_eq_ok _ _ _ checkBody_eq_ok p.functions.toList _ m] at h
  simp only [← Marks.after_nil] at h
  rw [bind_eq_ok_of fun m => Marks.foldlM_eq_ok _ _ _ claimScope_eq_ok p.nodes.toList [] m,
    bind_eq_ok_of fun m => Marks.foldlM_eq_ok _ _ _ claimFunctions_eq_ok p.scopes.toList [] m] at h
  obtain ⟨hroot, hfirst, ⟨hnodes, hchildren⟩, hscopes, ⟨hbodies, hbodyIds⟩, ⟨-, howned⟩, ⟨-, hdeclared⟩, -⟩ := h
  have hplaces := fresh_places.mpr ⟨hfirst, hchildren, hbodyIds⟩
  exact
    { root := hroot
      nodes := hnodes
      scopes := fun scope hscope => checkScope_eq_ok.mp (hscopes scope hscope)
      bodies := hbodies
      places := hplaces.2.1.of_map _
      ownerships := howned.2.1.of_map _
      declarations := hdeclared.2.1.of_map _ }

theorem linked_of_checksBefore {i : Nat} (h : p.checksBefore i = .ok ()) : p.Linked :=
  linked_of_link (bind_unit_eq_ok.mp h).1

/-- Validation searches a body for a function: it has come to that function, and nothing before has been wrong. -/
def Searches (p : Program) (f : FunctionId) (body : NodeId) : Prop :=
  ∃ i function, p.functions.toList[i]? = some function ∧ f = .ofIndex i ∧ function.body = .block body ∧
    p.checksBefore i = .ok ()

theorem Searches.exists_search {body : NodeId} (h : p.Searches f body) :
    ∃ taken found, p.Search f [body] taken found ∧ taken.Nodup ∧ taken.length ≤ p.nodes.size := by
  obtain ⟨i, function, hi, -, hblock, hbefore⟩ := h
  have hlinked := linked_of_checksBefore hbefore
  have hfunction := List.mem_of_getElem? hi
  have hbody : body ∈ function.bodies := by simp [FunctionDecl.bodies, hblock]
  have hstart : p.Walked body [body] [] := .start (hlinked.bodies function hfunction body hbody).hasNode
  obtain ⟨found, hfound, -⟩ := declaresBelow_walked hlinked hfunction hbody f p.nodes.size [body] [] hstart rfl
  obtain ⟨taken, hsearch, hlength⟩ := exists_search_of_declaresBelow hfound
  have hnodup := hsearch.nodup hlinked hfunction hbody hstart
  exact ⟨taken, found, hsearch, List.nodup_reverse.mp (by simpa using hnodup), hlength⟩

/-- Validation of any program comes to an end without a fault: nothing is looked up or marked that is not there. Every
search for a declaration that it makes takes each node off the stack at most once, and so ends before it has taken off
more than there are, whether it is counted or not. -/
theorem validate_survives (p : Program) :
    p.validate.Faultless ∧
    (∀ i function, p.functions.toList[i]? = some function → p.validate = (do
      p.checksBefore i
      p.checkSelfDeclaration (.ofIndex i) function
      p.searchAll (p.functions.toList.zipIdx.drop (i + 1)))) ∧
    ∀ f body, p.Searches f body → ∃ taken found, p.Search f [body] taken found ∧ taken.Nodup ∧
      taken.length ≤ p.nodes.size ∧ ∀ fuel, p.nodes.size ≤ fuel → p.declaresBelow f fuel [body] = .ok found := by
  refine ⟨validate_faultless p, fun i function hi => validate_eq_checksBefore hi, fun f body h => ?_⟩
  obtain ⟨taken, found, hsearch, hnodup, hlength⟩ := h.exists_search
  exact ⟨taken, found, hsearch, hnodup, hlength, fun fuel hfuel =>
    hsearch.declaresBelow_eq (Nat.le_trans hlength hfuel)⟩

/-- A body is searched in a program with a node that is below itself and two that are below each other. -/
theorem validate_survives_cycles :
    let p : Program :=
      { nodes := #[.block ⟨0⟩ [], .block ⟨1⟩ [⟨2⟩, ⟨3⟩], .print [⟨4⟩], .ret none, .int 1, .print [⟨5⟩], .unary .neg ⟨7⟩,
          .unary .neg ⟨6⟩]
        scopes := #[{ functions := [⟨0⟩] }, {}]
        vars := #[]
        functions := #[{ name := "f", returnType := .void, params := [], body := .block ⟨1⟩ }]
        root := ⟨0⟩ }
    p.Searches ⟨0⟩ ⟨1⟩ ∧ p.declaresBelow ⟨0⟩ 4 [⟨1⟩] = .ok false ∧
      ∃ taken, p.Search ⟨0⟩ [⟨1⟩] taken false ∧ taken.Nodup ∧ taken.length ≤ 8 := by
  intro p
  have hsearches : p.Searches ⟨0⟩ ⟨1⟩ := ⟨0, _, rfl, rfl, rfl, by decide⟩
  obtain ⟨taken, found, hsearch, hnodup, hlength, hcounted⟩ := (validate_survives p).2.2 ⟨0⟩ ⟨1⟩ hsearches
  have hfound : p.declaresBelow ⟨0⟩ 8 [⟨1⟩] = .ok false := by decide
  cases hfound.symm.trans (hcounted 8 (Nat.le_refl _))
  exact ⟨hsearches, by decide, taken, hsearch, hnodup, hlength⟩

end Canon.Program
