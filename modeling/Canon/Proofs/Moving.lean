import Canon.Proofs.Margins
import Canon.Proofs.Recursion

/-!
# Moving a statement into the block behind it

In a block, the last statement before an inner block is moved to the front of the inner block. The program stays valid.
What the printer does is the same up to the order of two things: the line of the statement, and the beginning of the
inner block with its declarations.
-/

open scoped List

namespace Canon

open Print Relation

namespace Program

variable {p : Program}

/-! ## Trees -/

namespace Linked

theorem eq_of_mem_below (h : p.Linked) {a b c : NodeId} (ha : c ∈ p.below a) (hb : c ∈ p.below b) : a = b := by
  by_contra hne
  have hnodup : ([a, b].flatMap p.below).Nodup := h.nodup_below (by simpa using hne)
  simp only [List.flatMap_cons, List.flatMap_nil, List.append_nil, List.nodup_append] at hnodup
  exact hnodup.2.2 c ha c hb rfl

theorem not_cycle_of_met (h : p.Linked) {a : NodeId} (hmet : p.Met a) : ¬ TransGen p.Encloses a a := by
  intro hcycle
  have hend := h.endless_of_encloses hmet (h.endless_of_cycle hcycle)
  exact h.endless_not_mem_walk (Nat.lt_succ_self _) (hend (p.nodes.size + 1))

theorem eq_of_encloses (h : p.Linked) {a b c d : NodeId} (hmet : p.Met a) (hb : b ∈ p.below a) (hc : c ∈ p.below a)
    (hbd : ReflTransGen p.Encloses b d) (hcd : ReflTransGen p.Encloses c d) : b = c := by
  have hunique : Relator.RightUnique (Function.swap p.Encloses) := fun _ _ _ hx hy => h.eq_of_mem_below hx hy
  have hapart {b c : NodeId} (hb : b ∈ p.below a) (hc : c ∈ p.below a) (hbc : ReflTransGen p.Encloses b c) : b = c := by
    rcases hbc.cases_tail with rfl | ⟨e, hbe, hec⟩
    · rfl
    · obtain rfl := h.eq_of_mem_below hc hec
      exact absurd (TransGen.head' hb hbe) (h.not_cycle_of_met hmet)
  rcases ReflTransGen.total_of_right_unique hunique hbd.swap hcd.swap with hbc | hcb
  · exact (hapart hc hb hbc.swap).symm
  · exact hapart hb hc hcb.swap

end Linked

/-! ## Whole walks -/

def walk (p : Program) (id : NodeId) : List Act := p.walkWithin (p.nodes.size + 1) id

namespace Linked

theorem endless_not_mem_of_met (h : p.Linked) {id : NodeId} (hmet : p.Met id) : .endless ∉ p.walk id := by
  intro hend
  have hid := h.hasNode_of_encloses h.root.hasNode hmet
  exact h.endless_not_mem_of hid (h.not_cycle_of_met hmet) (Nat.lt_succ_self _) hend

theorem walk_eq (h : p.Linked) {id : NodeId} (hmet : p.Met id) {node : Node} (hnode : p.node? id = some node) :
    p.walk id = .enter id :: (p.layout node).flatMap (Piece.acts p.walk) := by
  have hdeeper := walk_of_le (h.endless_not_mem_of_met hmet) (Nat.le_succ _)
  rw [walk, ← hdeeper, walkWithin, hnode]
  rfl

end Linked

theorem acts_congr {pieces : List Piece} {below below' : NodeId → List Act}
    (h : ∀ id ∈ pieces.filterMap Piece.node?, below id = below' id) :
    pieces.flatMap (Piece.acts below) = pieces.flatMap (Piece.acts below') := by
  apply List.flatMap_congr
  intro piece hpiece
  cases piece with
  | node id => exact h id (List.mem_filterMap.mpr ⟨_, hpiece, rfl⟩)
  | body id => exact congrArg _ (h id (List.mem_filterMap.mpr ⟨_, hpiece, rfl⟩))
  | _ => rfl

theorem Linked.exists_piece (h : p.Linked) {a b : NodeId} {node : Node} (hnode : p.node? a = some node)
    (hb : b ∈ p.below a) : ∃ left piece right, p.layout node = left ++ piece :: right ∧
      (∀ c ∈ left.filterMap Piece.node? ++ right.filterMap Piece.node?, c ∈ p.below a ∧ c ≠ b) ∧
      ∃ extra, (∀ below, piece.acts below = (below b).map Act.deeper^[extra]) ∧
        ∀ {level d}, p.NestedIn b level d → p.NestedIn a (level + extra) d := by
  have hresolves := h.nodes node (mem_toList_of_lookup hnode)
  have hnodes := layout_nodes hresolves
  rw [← below_of_node hnode] at hnodes
  have hnodup : (p.below a).Nodup := by simpa using h.nodup_below (List.nodup_singleton a)
  obtain ⟨piece, hpiece, hid⟩ := List.mem_filterMap.mp (hnodes ▸ hb)
  obtain ⟨left, right, hlayout⟩ := List.append_of_mem hpiece
  have hsplit : p.below a = left.filterMap Piece.node? ++ b :: right.filterMap Piece.node? := by
    rw [← hnodes, hlayout, List.filterMap_append, List.filterMap_cons, hid]
  rw [hsplit, List.nodup_middle, List.nodup_cons] at hnodup
  refine ⟨left, piece, right, hlayout, fun c hc => ⟨?_, fun heq => hnodup.1 (heq ▸ hc)⟩, ?_⟩
  · rw [hsplit]
    simp only [List.mem_append, List.mem_cons] at hc ⊢
    tauto
  · cases piece with
    | node c =>
      cases hid
      refine ⟨0, fun below => by simp [Piece.acts], fun hnested => ?_⟩
      exact .inPlace hnode ((node_mem_layout hresolves).mp hpiece) hnested
    | body c =>
      cases hid
      refine ⟨1, fun below => by simp [Piece.acts], fun hnested => ?_⟩
      rcases (body_mem_layout hresolves).mp hpiece with hbody | ⟨f, hf, hbody⟩
      · exact .body hnode hbody hnested
      · exact .function (Linked.declaredBy_eq hnode ▸ hf) hbody hnested
    | _ => cases hid

/-- The declarations of a block. -/
def layoutScope (p : Program) (scope : ScopeId) : List Piece :=
  ((p.scope? scope).map fun found => found.vars.flatMap p.layoutVar ++ found.functions.flatMap p.layoutFunction).getD []

theorem layoutBlock_eq {scope : ScopeId} (h : p.HasScope scope) (stmts : List NodeId) :
    p.layoutBlock scope stmts = .look (.scope scope) :: (p.layoutScope scope ++ stmts.flatMap p.layoutStmt) := by
  obtain ⟨found, hscope⟩ := h
  simp [layoutBlock, layoutScope, Program.found, hscope]

theorem below_block {id : NodeId} {scope : ScopeId} {stmts : List NodeId}
    (hnode : p.node? id = some (.block scope stmts)) : p.below id = (p.functionsOf scope).flatMap p.bodiesOf ++ stmts := by
  simp [below_of_node hnode, Node.scopes, Node.children]

theorem layoutScope_congr {scope : ScopeId} (hscope : p.HasScope scope) {below below' : NodeId → List Act}
    (h : ∀ id ∈ (p.functionsOf scope).flatMap p.bodiesOf, below id = below' id) :
    (p.layoutScope scope).flatMap (Piece.acts below) = (p.layoutScope scope).flatMap (Piece.acts below') := by
  have hnodes := @layoutBlock_nodes p scope [] hscope
  apply acts_congr
  rw [layoutBlock_eq hscope, List.filterMap_cons, List.flatMap_nil, List.append_nil, List.append_nil] at hnodes
  intro id hid
  exact h id (hnodes ▸ hid)

theorem layoutStmts_congr {stmts : List NodeId} {below below' : NodeId → List Act}
    (h : ∀ id ∈ stmts, below id = below' id) :
    (stmts.flatMap p.layoutStmt).flatMap (Piece.acts below) =
      (stmts.flatMap p.layoutStmt).flatMap (Piece.acts below') := by
  apply acts_congr
  simpa [List.filterMap_flatMap, layoutStmt_nodes] using h

theorem Linked.hasScope_block (h : p.Linked) {id : NodeId} {scope : ScopeId} {stmts : List NodeId}
    (hnode : p.node? id = some (.block scope stmts)) : p.HasScope scope :=
  (h.nodes _ (mem_toList_of_lookup hnode)).scopes scope List.mem_cons_self

theorem Linked.walk_block (h : p.Linked) {id : NodeId} (hmet : p.Met id) {scope : ScopeId} {stmts : List NodeId}
    (hnode : p.node? id = some (.block scope stmts)) : p.walk id = .enter id :: .look (.scope scope) ::
      ((p.layoutScope scope).flatMap (Piece.acts p.walk) ++
        (stmts.flatMap p.layoutStmt).flatMap (Piece.acts p.walk)) := by
  rw [h.walk_eq hmet hnode, layout, layoutBlock_eq (h.hasScope_block hnode), List.flatMap_cons, List.flatMap_append]
  rfl

/-! ## The move -/

def setNode (p : Program) (id : NodeId) (node : Node) : Program :=
  { p with nodes := p.nodes.setIfInBounds id.index.toNat node }

theorem node?_setNode_self {id : NodeId} (h : p.HasNode id) (node : Node) :
    (p.setNode id node).node? id = some node := by
  have hid := hasNode_iff.mp h
  simp [node?, setNode, hid]

theorem node?_setNode_ne {id other : NodeId} (h : other ≠ id) (node : Node) :
    (p.setNode id node).node? other = p.node? other := by
  have hne : id.index.toNat ≠ other.index.toNat := fun heq => h (position_injective NodeId.index_injective heq.symm)
  simp [node?, setNode, Array.getElem?_setIfInBounds_ne hne]

open Classical in
theorem perm_of_exchanges {β : Type} {x y z a b c d : List β} (hfirst : y ++ a ~ z ++ b) (hsecond : x ++ c ~ y ++ d)
    (hsame : a ++ c ~ b ++ d) : x ~ z := by
  -- Elements are counted: what was taken out and put in is the same in the end.
  simp only [List.perm_iff_count, List.count_append] at hfirst hsecond hsame ⊢
  intro e
  have := hfirst e
  have := hsecond e
  have := hsame e
  omega

theorem flatMap_set_perm {α β : Type} (f : α → List β) {l : List α} {i : Nat} {a : α} (h : l[i]? = some a) (b : α) :
    (l.set i b).flatMap f ++ f a ~ l.flatMap f ++ f b := by
  induction l generalizing i with
  | nil => cases h
  | cons c l ih =>
    cases i with
    | zero =>
      cases h
      simp only [List.set_cons_zero, List.flatMap_cons, List.append_assoc]
      exact ((List.perm_append_comm_assoc ..).trans (List.perm_append_comm.append_left _)).trans
        (List.perm_append_comm_assoc ..)
    | succ i => simpa using (ih h).append_left (f c)

/-- An inner block that is met, and the statement before it in an outer block. -/
structure Move (p : Program) where
  outer : NodeId
  inner : NodeId
  stmt : NodeId
  outerScope : ScopeId
  innerScope : ScopeId
  before : List NodeId
  after : List NodeId
  stmts : List NodeId
  outer_eq : p.node? outer = some (.block outerScope (before ++ stmt :: inner :: after))
  inner_eq : p.node? inner = some (.block innerScope stmts)
  met : p.Met inner

namespace Move

variable (m : p.Move)

/-- The program with the statement at the front of the inner block. -/
def result : Program :=
  (p.setNode m.outer (.block m.outerScope (m.before ++ m.inner :: m.after))).setNode m.inner
    (.block m.innerScope (m.stmt :: m.stmts))

section Places

variable (h : p.Linked)

theorem inner_mem_children : m.inner ∈ p.childrenOf m.outer := by simp [childrenOf_eq m.outer_eq, Node.children]

theorem stmt_mem_children : m.stmt ∈ p.childrenOf m.outer := by simp [childrenOf_eq m.outer_eq, Node.children]

theorem inner_mem_below : m.inner ∈ p.below m.outer := Linked.mem_below.mpr (.inr m.inner_mem_children)

theorem stmt_mem_below : m.stmt ∈ p.below m.outer := Linked.mem_below.mpr (.inr m.stmt_mem_children)

include h in
theorem met_outer : p.Met m.outer := by
  rcases m.met.cases_tail with hroot | ⟨a, hpath, ha⟩
  · exact absurd (hroot ▸ m.inner_mem_below) (h.root_not_mem_below m.outer)
  · exact h.eq_of_mem_below ha m.inner_mem_below ▸ hpath

include h in
theorem hasNode_stmt : p.HasNode m.stmt :=
  h.hasNode_of_encloses h.root.hasNode ((m.met_outer h).tail m.stmt_mem_below)

include h in
theorem outer_ne_inner : m.outer ≠ m.inner := by
  intro heq
  have hself : m.inner ∈ p.below m.inner := heq ▸ m.inner_mem_below
  exact h.not_cycle_of_met m.met (.single hself)

end Places

/-! ## What is looked up after the move -/

section Lookups

variable (h : p.Linked)

include h in
theorem result_inner : m.result.node? m.inner = some (.block m.innerScope (m.stmt :: m.stmts)) := by
  have hnode : (p.setNode m.outer (.block m.outerScope (m.before ++ m.inner :: m.after))).HasNode m.inner :=
    ⟨_, (node?_setNode_ne (m.outer_ne_inner h).symm _).trans m.inner_eq⟩
  exact node?_setNode_self hnode _

include h in
theorem result_outer : m.result.node? m.outer = some (.block m.outerScope (m.before ++ m.inner :: m.after)) := by
  rw [result, node?_setNode_ne (m.outer_ne_inner h)]
  exact node?_setNode_self ⟨_, m.outer_eq⟩ _

theorem result_other {id : NodeId} (houter : id ≠ m.outer) (hinner : id ≠ m.inner) :
    m.result.node? id = p.node? id := by
  rw [result, node?_setNode_ne hinner, node?_setNode_ne houter]

theorem result_size : m.result.nodes.size = p.nodes.size := by simp [result, setNode]

include h in
theorem result_map {α : Type} (f : Node → α)
    (hblock : ∀ scope stmts stmts', f (.block scope stmts) = f (.block scope stmts')) (id : NodeId) :
    (m.result.node? id).map f = (p.node? id).map f := by
  by_cases hinner : id = m.inner
  · rw [hinner, m.result_inner h, m.inner_eq, Option.map_some, Option.map_some, hblock]
  · by_cases houter : id = m.outer
    · rw [houter, m.result_outer h, m.outer_eq, Option.map_some, Option.map_some, hblock]
    · rw [m.result_other houter hinner]

theorem result_hasNode {id : NodeId} : m.result.HasNode id ↔ p.HasNode id := by
  rw [hasNode_iff, hasNode_iff, result_size]

include h in
theorem result_hasBlock {id : NodeId} (hblock : p.HasBlock id) : m.result.HasBlock id := by
  by_cases hinner : id = m.inner
  · exact ⟨_, _, hinner ▸ m.result_inner h⟩
  · by_cases houter : id = m.outer
    · exact ⟨_, _, houter ▸ m.result_outer h⟩
    · obtain ⟨scope, stmts, hnode⟩ := hblock
      exact ⟨scope, stmts, (m.result_other houter hinner).trans hnode⟩

end Lookups

/-! ## The result is valid -/

section Valid

variable (h : p.Linked)

include h in
theorem result_flatMap_perm {β : Type} (f : Node → List β)
    (hsame : f (.block m.outerScope (m.before ++ m.stmt :: m.inner :: m.after)) ++ f (.block m.innerScope m.stmts) ~
      f (.block m.outerScope (m.before ++ m.inner :: m.after)) ++ f (.block m.innerScope (m.stmt :: m.stmts))) :
    m.result.nodes.toList.flatMap f ~ p.nodes.toList.flatMap f := by
  have houter := (Array.getElem?_toList ..).trans m.outer_eq
  have hne : m.outer.index.toNat ≠ m.inner.index.toNat :=
    fun heq => m.outer_ne_inner h (position_injective NodeId.index_injective heq)
  have hinner (node : Node) : (p.nodes.toList.set m.outer.index.toNat node)[m.inner.index.toNat]? =
      some (.block m.innerScope m.stmts) :=
    (List.getElem?_set_ne hne).trans ((Array.getElem?_toList ..).trans m.inner_eq)
  have hfirst := flatMap_set_perm f houter (.block m.outerScope (m.before ++ m.inner :: m.after))
  have hsecond := flatMap_set_perm f (hinner (.block m.outerScope (m.before ++ m.inner :: m.after)))
    (.block m.innerScope (m.stmt :: m.stmts))
  rw [result, setNode, setNode, Array.toList_setIfInBounds, Array.toList_setIfInBounds]
  exact perm_of_exchanges hfirst hsecond hsame

include h in
theorem result_nodeResolves {node : Node} (hnode : p.NodeResolves node) : m.result.NodeResolves node where
  children id hid := m.result_hasNode.mpr (hnode.children id hid)
  scopes := hnode.scopes
  vars := hnode.vars
  bodies id hid := m.result_hasBlock h (hnode.bodies id hid)

include h in
theorem result_linked : m.result.Linked where
  root := m.result_hasBlock h h.root
  nodes := by
    intro node hnode
    have houter := h.nodes _ (mem_toList_of_lookup m.outer_eq)
    have hinner := h.nodes _ (mem_toList_of_lookup m.inner_eq)
    rw [result, setNode, setNode, Array.toList_setIfInBounds, Array.toList_setIfInBounds] at hnode
    apply m.result_nodeResolves h
    rcases List.mem_or_eq_of_mem_set hnode with hnode | rfl
    · rcases List.mem_or_eq_of_mem_set hnode with hnode | rfl
      · exact h.nodes node hnode
      · refine ⟨fun id hid => houter.children id ?_, houter.scopes, houter.vars, houter.bodies⟩
        simp only [Node.children, List.mem_append, List.mem_cons] at hid ⊢
        tauto
    · refine ⟨List.forall_mem_cons.mpr ⟨houter.children m.stmt ?_, hinner.children⟩, hinner.scopes, hinner.vars,
        hinner.bodies⟩
      simp [Node.children]
  scopes scope hscope := by
    obtain ⟨parent, vars, functions⟩ := h.scopes scope hscope
    exact ⟨parent, vars, functions⟩
  bodies function hfunction id hid := m.result_hasBlock h (h.bodies function hfunction id hid)
  places := by
    refine (List.Perm.nodup_iff ?_).mpr h.places
    refine ((m.result_flatMap_perm h Node.children ?_).append_right _).cons _
    simp only [Node.children, List.append_assoc, List.cons_append]
    exact (@List.perm_middle _ m.stmt (m.inner :: m.after) m.stmts).symm.append_left _
  ownerships := (m.result_flatMap_perm h Node.scopes (List.Perm.refl _)).nodup_iff.mpr h.ownerships
  declarations := h.declarations

include h in
theorem result_childrenOf {a b : NodeId} (hb : b ∈ m.result.childrenOf a) :
    b ∈ p.childrenOf a ∨ a = m.inner ∧ b = m.stmt := by
  by_cases hinner : a = m.inner
  · rw [hinner, childrenOf_eq (m.result_inner h), Node.children, List.mem_cons] at hb
    rcases hb with rfl | hb
    · exact .inr ⟨hinner, rfl⟩
    · exact .inl (by rwa [hinner, childrenOf_eq m.inner_eq])
  · by_cases houter : a = m.outer
    · rw [houter, childrenOf_eq (m.result_outer h), Node.children] at hb
      rw [houter, childrenOf_eq m.outer_eq, Node.children]
      simp only [List.mem_append, List.mem_cons] at hb ⊢
      tauto
    · rw [childrenOf, m.result_other houter hinner] at hb
      exact .inl hb

include h in
theorem result_declaredBy (id : NodeId) : m.result.declaredBy id = p.declaredBy id := by
  rw [declaredBy, scopesOf, m.result_map h Node.scopes (fun _ _ _ => rfl)]
  rfl

theorem result_validate (hvalid : p.validate = .ok ()) : m.result.validate = .ok () := by
  -- The moved statement is reached by way of the inner block, and was reached before by way of the outer one.
  have hformed := wellFormed_of_validate hvalid
  have h := hformed.toLinked
  apply validate_of_wellFormed
  refine ⟨m.result_linked h, fun i function hfunction body hbody => ?_⟩
  rintro ⟨block, hpath, hdeclared⟩
  refine hformed.outside i function hfunction body hbody ⟨block, ?_, m.result_declaredBy h block ▸ hdeclared⟩
  have hne : body ≠ m.inner := by
    rintro rfl
    exact h.body_not_mem_childrenOf (List.mem_flatMap.mpr ⟨function, List.mem_of_getElem? hfunction, hbody⟩)
      m.inner_mem_children
  clear hdeclared
  induction hpath with
  | refl => exact .refl
  | @tail a b _ hstep ih =>
    rcases m.result_childrenOf h hstep with hb | ⟨rfl, rfl⟩
    · exact ih.tail hb
    · rcases ih.cases_tail with heq | ⟨c, hpath, hc⟩
      · exact absurd heq.symm hne
      · have hparent : c = m.outer :=
          h.eq_of_mem_below (Linked.mem_below.mpr (.inr hc)) m.inner_mem_below
        exact hpath.tail (hparent ▸ m.stmt_mem_children)

end Valid

/-! ## What is printed -/

section Walks

variable (h : p.Linked)

include h in
theorem result_layoutStmt (id : NodeId) : m.result.layoutStmt id = p.layoutStmt id := by
  rw [layoutStmt, layoutStmt, found, found, m.result_map h _ (fun _ _ _ => rfl)]

include h in
theorem result_layout (node : Node) : m.result.layout node = p.layout node := by
  cases node with
  | block scope stmts =>
    have hstmts : stmts.flatMap m.result.layoutStmt = stmts.flatMap p.layoutStmt :=
      List.flatMap_congr fun id _ => m.result_layoutStmt h id
    rw [layout, layout, layoutBlock, layoutBlock, hstmts]
    rfl
  | _ => rfl

theorem result_below {a : NodeId} (houter : a ≠ m.outer) (hinner : a ≠ m.inner) : m.result.below a = p.below a := by
  rw [below, below, declaredBy, declaredBy, scopesOf, scopesOf, childrenOf, childrenOf, m.result_other houter hinner]
  rfl

include h in
theorem result_walkWithin {depth : Nat} {id : NodeId} (houter : ¬ ReflTransGen p.Encloses id m.outer)
    (hinner : id ≠ m.inner) : m.result.walkWithin depth id = p.walkWithin depth id := by
  induction depth generalizing id with
  | zero => rfl
  | succ depth ih =>
    have hne : id ≠ m.outer := fun heq => houter (heq ▸ .refl)
    rw [walkWithin, walkWithin, m.result_other hne hinner]
    cases hnode : p.node? id with
    | none => rfl
    | some node =>
      have hbelow : ∀ b ∈ (p.layout node).filterMap Piece.node?,
          m.result.walkWithin depth b = p.walkWithin depth b := by
        intro b hb
        rw [layout_nodes (h.nodes node (mem_toList_of_lookup hnode)), ← below_of_node hnode] at hb
        refine ih (fun hpath => houter (.head hb hpath)) ?_
        rintro rfl
        exact hne (h.eq_of_mem_below hb m.inner_mem_below)
      simp only [Option.map_some, Option.getD_some, m.result_layout h]
      exact congrArg _ (acts_congr hbelow)

include h in
theorem result_walk {id : NodeId} (houter : ¬ ReflTransGen p.Encloses id m.outer) (hinner : id ≠ m.inner) :
    m.result.walk id = p.walk id := by
  rw [walk, walk, result_size]
  exact m.result_walkWithin h houter hinner

include h in
theorem result_walk_next {a b c : NodeId} (hmet : p.Met a) (houter : a ≠ m.outer) (hb : b ∈ p.below a)
    (hpath : ReflTransGen p.Encloses b m.outer) (hc : c ∈ p.below a) (hne : c ≠ b) :
    m.result.walk c = p.walk c := by
  apply m.result_walk h
  · intro hcpath
    exact hne (h.eq_of_encloses hmet hc hb hcpath hpath)
  · rintro rfl
    exact houter (h.eq_of_mem_below hc m.inner_mem_below)

include h in
theorem exists_context {a : NodeId} (hpath : ReflTransGen p.Encloses a m.outer) (hmet : p.Met a)
    (hmetResult : m.result.Met a) : m.result.Met m.outer ∧ ∃ level before after, p.NestedIn a level m.outer ∧
      p.walk a = before ++ ((p.walk m.outer).map Act.deeper^[level] ++ after) ∧
      m.result.walk a = before ++ ((m.result.walk m.outer).map Act.deeper^[level] ++ after) := by
  induction hpath using ReflTransGen.head_induction_on with
  | refl => exact ⟨hmetResult, 0, [], [], .here, by simp, by simp⟩
  | @head a b hstep hpath ih =>
    have hb : b ∈ p.below a := hstep
    have houter : a ≠ m.outer := by
      rintro rfl
      exact h.not_cycle_of_met hmet (.head' hstep hpath)
    have hinner : a ≠ m.inner := by
      rintro rfl
      exact h.not_cycle_of_met hmet (.tail (.head' hstep hpath) m.inner_mem_below)
    obtain ⟨hmetOuter, level, before, after, hnested, hwalk, hresult⟩ :=
      ih (hmet.tail hstep) (hmetResult.tail (m.result_below houter hinner ▸ hb))
    obtain ⟨node, hnode⟩ := h.hasNode_of_encloses h.root.hasNode hmet
    obtain ⟨left, piece, right, hlayout, hother, extra, hacts, hplace⟩ := h.exists_piece hnode hb
    have hsame := fun c hc => m.result_walk_next h hmet houter hb hpath (hother c hc).1 (hother c hc).2
    obtain ⟨hleft, hright⟩ := List.forall_mem_append.mp hsame
    refine ⟨hmetOuter, level + extra, .enter a :: (left.flatMap (Piece.acts p.walk) ++ before.map Act.deeper^[extra]),
      after.map Act.deeper^[extra] ++ right.flatMap (Piece.acts p.walk), hplace hnested, ?_, ?_⟩
    · rw [h.walk_eq hmet hnode, hlayout, List.flatMap_append, List.flatMap_cons, hacts, hwalk]
      simp [Nat.add_comm level, Function.iterate_add]
    · rw [(m.result_linked h).walk_eq hmetResult ((m.result_other houter hinner).trans hnode), m.result_layout h,
        hlayout, List.flatMap_append, List.flatMap_cons, hacts, hresult, acts_congr hleft, acts_congr hright]
      simp [Nat.add_comm level, Function.iterate_add]

/-- What is printed for the moved statement. -/
def line : List Act := (p.layoutStmt m.stmt).flatMap (Piece.acts p.walk)

/-- What is printed for the inner block before its statements. -/
def head : List Act :=
  .margin 0 :: .enter m.inner :: .look (.scope m.innerScope) ::
    (p.layoutScope m.innerScope).flatMap (Piece.acts p.walk)

/-- What is printed in the outer block before the moved statement. -/
def opening : List Act :=
  .enter m.outer :: .look (.scope m.outerScope) :: ((p.layoutScope m.outerScope).flatMap (Piece.acts p.walk) ++
    (m.before.flatMap p.layoutStmt).flatMap (Piece.acts p.walk))

/-- What is printed from the statements of the inner block on. -/
def rest : List Act :=
  (m.stmts.flatMap p.layoutStmt).flatMap (Piece.acts p.walk) ++ .look (.node m.inner) :: .text ";" :: .text "\n" ::
    (m.after.flatMap p.layoutStmt).flatMap (Piece.acts p.walk)

theorem layoutStmt_inner :
    p.layoutStmt m.inner = [.margin, .node m.inner, .look (.node m.inner), .text ";", .text "\n"] := by
  simp [layoutStmt, found, m.inner_eq, Node.isCompound]

include h in
theorem walk_outer : p.walk m.outer = m.opening ++ ((m.line ++ m.head) ++ m.rest) := by
  rw [h.walk_block (m.met_outer h) m.outer_eq]
  simp only [List.flatMap_append, List.flatMap_cons, m.layoutStmt_inner, Piece.acts, h.walk_block m.met m.inner_eq,
    opening, line, head, rest]
  simp

include h in
theorem result_walk_outer :
    ∀ c ∈ ((p.functionsOf m.outerScope).flatMap p.bodiesOf ++ (m.before ++ [m.stmt])) ++ m.after,
      m.result.walk c = p.walk c := by
  have hsplit : p.below m.outer =
      ((p.functionsOf m.outerScope).flatMap p.bodiesOf ++ (m.before ++ [m.stmt])) ++ m.inner :: m.after := by
    simp [below_block m.outer_eq]
  have hnodup : (p.below m.outer).Nodup := by simpa using h.nodup_below (List.nodup_singleton m.outer)
  rw [hsplit, List.nodup_middle, List.nodup_cons] at hnodup
  intro c hc
  have hbelow : c ∈ p.below m.outer := by
    rw [hsplit]
    exact List.mem_append.mpr ((List.mem_append.mp hc).imp_right (List.mem_cons_of_mem _))
  apply m.result_walk h
  · intro hpath
    exact h.not_cycle_of_met (m.met_outer h) (.head' hbelow hpath)
  · rintro rfl
    exact hnodup.1 hc

include h in
theorem result_walk_inner : ∀ c ∈ (p.functionsOf m.innerScope).flatMap p.bodiesOf ++ m.stmts,
    m.result.walk c = p.walk c := by
  rw [← below_block m.inner_eq]
  intro c hc
  apply m.result_walk h
  · intro hpath
    exact h.not_cycle_of_met (m.met_outer h) (.head m.inner_mem_below (.head' hc hpath))
  · rintro rfl
    exact h.not_cycle_of_met m.met (.single hc)

include h in
theorem result_walk_block (hmet : m.result.Met m.outer) :
    m.result.walk m.outer = m.opening ++ ((m.head ++ m.line) ++ m.rest) := by
  have hlinked := m.result_linked h
  have hmetInner : m.result.Met m.inner := by
    refine hmet.tail ?_
    rw [below_block (m.result_outer h)]
    simp
  have hstmts : m.result.layoutStmt = p.layoutStmt := funext (m.result_layoutStmt h)
  have hscopes : m.result.layoutScope = p.layoutScope := rfl
  have houter := m.result_walk_outer h
  simp only [List.forall_mem_append, List.forall_mem_singleton] at houter
  obtain ⟨⟨hbodies, hbefore, hstmt⟩, hafter⟩ := houter
  obtain ⟨hinnerBodies, hinnerStmts⟩ := List.forall_mem_append.mp (m.result_walk_inner h)
  have hline : (p.layoutStmt m.stmt).flatMap (Piece.acts m.result.walk) = m.line :=
    acts_congr (by simpa [layoutStmt_nodes] using hstmt)
  rw [hlinked.walk_block hmet (m.result_outer h)]
  simp only [hstmts, hscopes, List.flatMap_append, List.flatMap_cons, m.layoutStmt_inner, Piece.acts,
    hlinked.walk_block hmetInner (m.result_inner h), layoutScope_congr (h.hasScope_block m.outer_eq) hbodies,
    layoutScope_congr (h.hasScope_block m.inner_eq) hinnerBodies, layoutStmts_congr hbefore, layoutStmts_congr hafter,
    layoutStmts_congr hinnerStmts, hline, opening, head, rest]
  simp

include h in
/-- In the walk from the root, the line of the statement and the head of the inner block have changed places. They are
as deep as there are bodies around the outer block. -/
theorem walks_swapped : ∃ level before after, p.NestedIn p.root level m.outer ∧
    p.walk p.root = before ++ ((m.line ++ m.head).map Act.deeper^[level] ++ after) ∧
    m.result.walk p.root = before ++ ((m.head ++ m.line).map Act.deeper^[level] ++ after) := by
  obtain ⟨hmet, level, before, after, hnested, hwalk, hresult⟩ := m.exists_context h (m.met_outer h) .refl .refl
  refine ⟨level, before ++ m.opening.map Act.deeper^[level], m.rest.map Act.deeper^[level] ++ after, hnested, ?_, ?_⟩
  · rw [hwalk, m.walk_outer h]
    simp
  · rw [hresult, m.result_walk_block h hmet]
    simp

end Walks

end Move

end Program

end Canon
