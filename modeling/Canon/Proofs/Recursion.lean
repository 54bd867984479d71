import Canon.Proofs.Safety

/-!
# Functions declared inside themselves

The body of a function is printed where the function is declared. A function that is declared inside its own body,
directly or by way of other functions, is therefore printed without end, and in a validated program nothing else is.
Validation turns down what declares itself directly. Functions that are declared in each other's bodies pass, as long as
the root does not lead to them.
-/

open Relation

namespace Canon.Program

variable {p : Program}

/-- A block under the body of the first function declares the second. -/
def Declares (p : Program) (f g : FunctionId) : Prop := ∃ body ∈ p.bodiesOf f, p.DeclaresBelow body g

/-- The walk from a node comes to an end, if only it may go deep enough. -/
def WalkEnds (p : Program) (id : NodeId) : Prop := ∃ depth, .endless ∉ p.walkWithin depth id

/-! ## Walks that end -/

section Depth

variable (ends : Nat → NodeId → Prop) (hmono : ∀ {depth : Nat} {id : NodeId}, ends depth id → ends (depth + 1) id)
  (hstep : ∀ {depth : Nat} {id : NodeId}, ends (depth + 2) id → ¬ ends (depth + 1) id →
    p.HasNode id ∧ ∃ b, ends (depth + 1) b ∧ ¬ ends depth b)

include hmono hstep

theorem exists_nodes_of_ends {depth : Nat} {id : NodeId} (hend : ends (depth + 1) id) (hcut : ¬ ends depth id) :
    ∃ ids : List NodeId, ids.length = depth ∧ ids.Nodup ∧ ∀ a ∈ ids, p.HasNode a ∧ ends (depth + 1) a := by
  induction depth generalizing id with
  | zero => exact ⟨[], rfl, List.nodup_nil, by simp⟩
  | succ depth ih =>
    obtain ⟨hid, b, hendBelow, hcutBelow⟩ := hstep hend hcut
    obtain ⟨ids, hlength, hnodup, hids⟩ := ih hendBelow hcutBelow
    refine ⟨id :: ids, by rw [List.length_cons, hlength], List.nodup_cons.mpr ⟨fun hmem => ?_, hnodup⟩, ?_⟩
    · exact hcut (hids id hmem).2
    · exact List.forall_mem_cons.mpr ⟨⟨hid, hend⟩, fun a ha => ⟨(hids a ha).1, hmono (hids a ha).2⟩⟩

theorem ends_of_ends (hzero : ∀ id, ¬ ends 0 id) {depth : Nat} {id : NodeId} (h : ends depth id) :
    ends (p.nodes.size + 1) id := by
  induction depth with
  | zero => exact absurd h (hzero id)
  | succ depth ih =>
    by_cases hbefore : ends depth id
    · exact ih hbefore
    · obtain ⟨ids, hlength, hnodup, hids⟩ := exists_nodes_of_ends ends hmono hstep h hbefore
      have hnodes := length_le_size hnodup fun a ha => (hids a ha).1
      have hle : depth + 1 ≤ p.nodes.size + 1 := by omega
      generalize p.nodes.size + 1 = deepest at hle
      induction hle with
      | refl => exact h
      | step _ ih => exact hmono ih

end Depth

theorem endless_mem_walk_succ {depth : Nat} {id : NodeId} {node : Node} (hnode : p.node? id = some node) :
    .endless ∈ p.walkWithin (depth + 1) id ↔
      ∃ b ∈ (p.layout node).filterMap Piece.node?, .endless ∈ p.walkWithin depth b := by
  rw [← endless_mem_acts]
  simp [walkWithin, hnode]

theorem WalkEnds.endless_not_mem {id : NodeId} (h : p.WalkEnds id) : .endless ∉ p.walkWithin (p.nodes.size + 1) id := by
  obtain ⟨depth, hend⟩ := h
  refine ends_of_ends (fun depth id => .endless ∉ p.walkWithin depth id) ?_ ?_ (fun _ h => h List.mem_cons_self) hend
  · intro depth id hend
    rw [walk_of_le hend (Nat.le_succ depth)]
    exact hend
  · intro depth id hend hcut
    cases hnode : p.node? id with
    | none => simp [walkWithin, hnode] at hcut
    | some node =>
      obtain ⟨b, hb, hcutBelow⟩ := (endless_mem_walk_succ hnode).mp (not_not.mp hcut)
      have hendBelow := fun hact => hend ((endless_mem_walk_succ hnode).mpr ⟨b, hb, hact⟩)
      exact ⟨⟨node, hnode⟩, b, hendBelow, not_not_intro hcutBelow⟩

theorem renderFrom_eq_of_end {depth : Nat} {id : NodeId} (hend : .endless ∉ p.walkWithin depth id) (width : Nat) :
    p.renderFrom width id = (transcript p 0 width (p.walkWithin depth id)).rendered := by
  have hfull := WalkEnds.endless_not_mem ⟨depth, hend⟩
  have hsame : p.walkWithin (p.nodes.size + 1) id = p.walkWithin depth id := by
    rcases Nat.le_total depth (p.nodes.size + 1) with hle | hle
    · exact walk_of_le hend hle
    · exact (walk_of_le hfull hle).symm
  rw [renderFrom_eq, hsame]

/-! ## Cycles of nodes -/

namespace Linked

theorem endless_of_cycle (h : p.Linked) {id : NodeId} (hcycle : TransGen p.Encloses id id) (depth : Nat) :
    .endless ∈ p.walkWithin depth id := by
  induction depth generalizing id with
  | zero => exact List.mem_cons_self
  | succ depth ih =>
    obtain ⟨b, hb, hback⟩ := TransGen.head'_iff.mp hcycle
    exact h.endless_mem_succ.mpr ⟨b, hb, ih (TransGen.tail' hback hb)⟩

theorem endless_of_encloses (h : p.Linked) {a b : NodeId} (hpath : ReflTransGen p.Encloses a b)
    (hend : ∀ depth, .endless ∈ p.walkWithin depth b) (depth : Nat) : .endless ∈ p.walkWithin depth a := by
  induction hpath using ReflTransGen.head_induction_on generalizing depth with
  | refl => exact hend depth
  | head hstep _ ih =>
    cases depth with
    | zero => exact List.mem_cons_self
    | succ depth => exact h.endless_mem_succ.mpr ⟨_, hstep, ih depth⟩

theorem walkEnds_iff (h : p.Linked) {id : NodeId} (hid : p.HasNode id) :
    p.WalkEnds id ↔ ¬ TransGen p.Encloses id id := by
  constructor
  · rintro ⟨depth, hend⟩ hcycle
    exact hend (h.endless_of_cycle hcycle depth)
  · intro hback
    exact ⟨p.nodes.size + 1, h.endless_not_mem_of hid hback (Nat.lt_succ_self _)⟩

end Linked

theorem exists_fault_of_endless {id : NodeId} (hend : .endless ∈ p.walkWithin (p.nodes.size + 1) id) (width : Nat) :
    ∃ fault, p.renderFrom width id = .error fault := by
  cases hrender : p.renderFrom width id with
  | error fault => exact ⟨fault, rfl⟩
  | ok text =>
    rw [renderFrom_eq] at hrender
    have houtput := transcript_fault_eq_none.mp (Transcript.exists_rendered_iff.mp ⟨text, hrender⟩) _ hend
    obtain ⟨s, hs⟩ := houtput
    cases hs

/-! ## Cycles of declarations -/

namespace Linked

theorem eq_of_mem_bodiesOf (h : p.Linked) {f g : FunctionId} {id : NodeId} (hf : id ∈ p.bodiesOf f)
    (hg : id ∈ p.bodiesOf g) : f = g := by
  by_contra hne
  have hnodup : ([f, g].flatMap p.bodiesOf).Nodup := h.nodup_bodiesOf (by simpa using hne)
  simp only [List.flatMap_cons, List.flatMap_nil, List.append_nil, List.nodup_append] at hnodup
  exact hnodup.2.2 id hf id hg rfl

end Linked

theorem bodiesOf_subsingleton {f : FunctionId} {a b : NodeId} (ha : a ∈ p.bodiesOf f) (hb : b ∈ p.bodiesOf f) :
    a = b := by
  obtain ⟨function, hfunction, ha⟩ := mem_getD_map.mp ha
  obtain ⟨_, hsame, hb⟩ := mem_getD_map.mp hb
  cases hfunction.symm.trans hsame
  cases hbody : function.body with
  | native symbol => simp [FunctionDecl.bodies, hbody] at ha
  | block body => simp_all [FunctionDecl.bodies]

theorem encloses_of_children {a b : NodeId} (hpath : ReflTransGen (fun a b => b ∈ p.childrenOf a) a b) :
    ReflTransGen p.Encloses a b :=
  ReflTransGen.mono (fun _ _ hchild => Linked.mem_below.mpr (.inr hchild)) _ _ hpath

theorem encloses_of_declares {f g : FunctionId} (h : p.Declares f g) {a b : NodeId} (ha : a ∈ p.bodiesOf f)
    (hb : b ∈ p.bodiesOf g) : TransGen p.Encloses a b := by
  obtain ⟨body, hbody, block, hpath, hdeclared⟩ := h
  cases bodiesOf_subsingleton ha hbody
  exact .tail' (encloses_of_children hpath) (Linked.mem_below.mpr (.inl ⟨g, hdeclared, hb⟩))

theorem encloses_of_transGen {f g : FunctionId} (h : TransGen p.Declares f g) {a b : NodeId} (ha : a ∈ p.bodiesOf f)
    (hb : b ∈ p.bodiesOf g) : TransGen p.Encloses a b := by
  induction h generalizing b with
  | single hstep => exact encloses_of_declares hstep ha hb
  | tail _ hstep ih =>
    obtain ⟨body, hbody, _⟩ := id hstep
    exact (ih hbody).trans (encloses_of_declares hstep hbody hb)

theorem declares_of_encloses {f : FunctionId} {body a : NodeId} (hbody : body ∈ p.bodiesOf f)
    (hpath : ReflTransGen p.Encloses body a) : ∃ g, ReflTransGen p.Declares f g ∧
      ∃ start ∈ p.bodiesOf g, ReflTransGen (fun a b => b ∈ p.childrenOf a) start a := by
  induction hpath with
  | refl => exact ⟨f, .refl, body, hbody, .refl⟩
  | tail _ hstep ih =>
    obtain ⟨g, hg, start, hstart, hunder⟩ := ih
    rcases Linked.mem_below.mp hstep with ⟨k, hk, hkbody⟩ | hchild
    · exact ⟨k, hg.tail ⟨start, hstart, _, hunder, hk⟩, _, hkbody, .refl⟩
    · exact ⟨g, hg, start, hstart, hunder.tail hchild⟩

namespace Linked

/-- The walk comes back to a body exactly when the function is declared inside itself. -/
theorem cycle_iff_declares (h : p.Linked) {f : FunctionId} {body : NodeId} (hbody : body ∈ p.bodiesOf f) :
    TransGen p.Encloses body body ↔ TransGen p.Declares f f := by
  constructor
  · intro hcycle
    obtain ⟨a, hpath, hlast⟩ := TransGen.tail'_iff.mp hcycle
    obtain ⟨g, hg, start, hstart, hunder⟩ := declares_of_encloses hbody hpath
    -- A body is no child, so the last step goes from a declaration to its body.
    rcases mem_below.mp hlast with ⟨k, hk, hkbody⟩ | hchild
    · cases h.eq_of_mem_bodiesOf hkbody hbody
      exact .tail' hg ⟨start, hstart, a, hunder, hk⟩
    · exact absurd hchild (h.body_not_mem_childrenOf (mem_bodies_of_mem_bodiesOf hbody))
  · intro hcycle
    exact encloses_of_transGen hcycle hbody hbody

theorem hasNode_of_mem_bodiesOf (h : p.Linked) {f : FunctionId} {body : NodeId} (hbody : body ∈ p.bodiesOf f) :
    p.HasNode body := by
  obtain ⟨function, hfunction, hid⟩ := mem_getD_map.mp hbody
  exact (h.bodies function (mem_toList_of_lookup hfunction) body hid).hasNode

theorem not_cycle_of_declared (h : p.Linked) {f : FunctionId} {depth : Nat}
    (hf : f ∈ declared (p.walkWithin depth p.root)) : ¬ TransGen p.Declares f f := by
  intro hcycle
  obtain ⟨a, ha, hdeclared⟩ := List.mem_flatMap.mp ((h.declared_perm depth p.root).mem_iff.mp hf)
  obtain ⟨g, hstep, -⟩ := TransGen.head'_iff.mp hcycle
  obtain ⟨body, hbody, -⟩ := hstep
  have hpath : ReflTransGen p.Encloses p.root body :=
    (h.encloses_of_mem_entered ha).tail (mem_below.mpr (.inl ⟨f, hdeclared, hbody⟩))
  have hend := h.endless_of_encloses hpath (h.endless_of_cycle ((h.cycle_iff_declares hbody).mpr hcycle))
  exact h.endless_not_mem_walk (Nat.lt_succ_self _) (hend (p.nodes.size + 1))

end Linked

theorem WellFormed.not_declares_self (h : p.WellFormed) (f : FunctionId) : ¬ p.Declares f f := by
  rintro ⟨body, hbody, hdeclares⟩
  obtain ⟨function, hfunction, hid⟩ := mem_getD_map.mp hbody
  rw [function?, ← Array.getElem?_toList] at hfunction
  have hindex : FunctionId.ofIndex f.index.toNat = f := by simp [FunctionId.ofIndex]
  refine h.outside _ function hfunction body hid ?_
  rw [hindex]
  exact hdeclares

/-- In a validated program the walk through the body of a function ends exactly when the function is not declared inside
itself, by way of others or not. It is not declared there directly, nor is any function that the root leads to. -/
theorem walkEnds_iff_of_validate (h : p.validate = .ok ()) :
    (∀ f, ∀ body ∈ p.bodiesOf f, p.WalkEnds body ↔ ¬ TransGen p.Declares f f) ∧ (∀ f, ¬ p.Declares f f) ∧
    ∀ depth, ∀ f ∈ declared (p.walkWithin depth p.root), ¬ TransGen p.Declares f f := by
  have hformed := wellFormed_of_validate h
  have hlinked := hformed.toLinked
  refine ⟨fun f body hbody => ?_, hformed.not_declares_self, fun depth f => hlinked.not_cycle_of_declared⟩
  rw [hlinked.walkEnds_iff (hlinked.hasNode_of_mem_bodiesOf hbody), hlinked.cycle_iff_declares hbody]

theorem walkEnds_iff_of_validate_inner :
    let p : Program :=
      { nodes := #[.block ⟨0⟩ [], .block ⟨1⟩ [], .block ⟨2⟩ []]
        scopes := #[{ functions := [⟨0⟩] }, { functions := [⟨1⟩] }, {}]
        vars := #[]
        functions := #[{ name := "f", returnType := .void, params := [], body := .block ⟨1⟩ },
          { name := "g", returnType := .void, params := [], body := .block ⟨2⟩ }]
        root := ⟨0⟩ }
    p.validate = .ok () ∧ p.Declares ⟨0⟩ ⟨1⟩ ∧ p.WalkEnds ⟨1⟩ := by
  intro p
  have hvalid : p.validate = .ok () := by decide
  have hwalks := walkEnds_iff_of_validate hvalid
  refine ⟨hvalid, ⟨⟨1⟩, by decide, ⟨1⟩, .refl, by decide⟩, (hwalks.1 ⟨0⟩ ⟨1⟩ (by decide)).mpr ?_⟩
  exact hwalks.2.2 (p.nodes.size + 1) ⟨0⟩ (by decide)

/-- Two functions that are declared in each other's bodies pass validation, and the walk through the body of the first
never ends. -/
theorem mutual_declarations_pass :
    let p : Program :=
      { nodes := #[.block ⟨0⟩ [], .block ⟨1⟩ [], .block ⟨2⟩ []]
        scopes := #[{}, { functions := [⟨1⟩] }, { functions := [⟨0⟩] }]
        vars := #[]
        functions := #[{ name := "f", returnType := .void, params := [], body := .block ⟨1⟩ },
          { name := "g", returnType := .void, params := [], body := .block ⟨2⟩ }]
        root := ⟨0⟩ }
    p.validate = .ok () ∧ p.Declares ⟨0⟩ ⟨1⟩ ∧ p.Declares ⟨1⟩ ⟨0⟩ ∧ (∀ depth, .endless ∈ p.walkWithin depth ⟨1⟩) ∧
      ∀ width, ∃ fault, p.renderFrom width ⟨1⟩ = .error fault := by
  intro p
  have hvalid : p.validate = .ok () := by decide
  have hfirst : p.Declares ⟨0⟩ ⟨1⟩ := ⟨⟨1⟩, by decide, ⟨1⟩, .refl, by decide⟩
  have hsecond : p.Declares ⟨1⟩ ⟨0⟩ := ⟨⟨2⟩, by decide, ⟨2⟩, .refl, by decide⟩
  have hlinked := (wellFormed_of_validate hvalid).toLinked
  have hcycle : TransGen p.Encloses ⟨1⟩ ⟨1⟩ :=
    (hlinked.cycle_iff_declares (by decide)).mpr (.tail (.single hfirst) hsecond)
  have hend := hlinked.endless_of_cycle hcycle
  exact ⟨hvalid, hfirst, hsecond, hend, exists_fault_of_endless (hend _)⟩

end Canon.Program
