import Canon.Proofs.Source
import Canon.Proofs.Decoding
import Canon.Proofs.Stages

/-!
# How far lines are indented

A line is indented by the width of a step for every body around it, and there is a limit to that, which validation knows
nothing of. Here it is said how deep the lines of a program stand, and so which programs can be printed in which widths.
-/

namespace Canon.Program

variable {p : Program}

/-! ## Nesting -/

/-- The second node is printed inside the first, or is the first, so many bodies deeper. -/
inductive NestedIn (p : Program) : NodeId → Nat → NodeId → Prop
  | here {a : NodeId} : NestedIn p a 0 a
  | inPlace {a b c : NodeId} {node : Node} {level : Nat} (hnode : p.node? a = some node)
    (hb : b ∈ node.operands ++ node.stmts) (hc : NestedIn p b level c) : NestedIn p a level c
  | body {a b c : NodeId} {node : Node} {level : Nat} (hnode : p.node? a = some node) (hb : b ∈ node.bodies)
    (hc : NestedIn p b level c) : NestedIn p a (level + 1) c
  | function {a b c : NodeId} {f : FunctionId} {level : Nat} (hf : f ∈ p.declaredBy a) (hb : b ∈ p.bodiesOf f)
    (hc : NestedIn p b level c) : NestedIn p a (level + 1) c

/-- Whether the text of a node has lines that begin at its margin: those of a block, and the last line of a body. -/
def HasLines (p : Program) : Node → Prop
  | .block scope stmts => stmts ≠ [] ∨ ∃ found, p.scope? scope = some found ∧ (found.vars ≠ [] ∨ found.functions ≠ [])
  | node => node.isCompound = true

/-- A line begins so many bodies deep, where the text of a node is printed. -/
def LineAt (p : Program) (id : NodeId) (level : Nat) : Prop :=
  ∃ b node, p.NestedIn id level b ∧ p.node? b = some node ∧ p.HasLines node

/-! ## Margins in the layout of a node -/

theorem mem_found {α : Type} {ref : Ref} {part : Option α} {pieces : α → List Piece} {piece : Piece} :
    piece ∈ found ref part pieces ↔ piece = .look ref ∨ ∃ a, part = some a ∧ piece ∈ pieces a := by
  rw [found, List.mem_cons, mem_getD_map]

theorem mem_commas {α : Type} {item : α → List Piece} {as : List α} {piece : Piece} (h : piece ≠ .text ", ") :
    piece ∈ commas item as ↔ ∃ a ∈ as, piece ∈ item a := by
  induction as with
  | nil => simp [commas]
  | cons a rest ih =>
    cases rest with
    | nil => simp [commas]
    | cons b rest =>
      have hcommas : commas item (a :: b :: rest) = item a ++ .text ", " :: commas item (b :: rest) := rfl
      rw [hcommas, List.mem_append, List.mem_cons, ih, or_iff_right h]
      simp only [List.exists_mem_cons_iff]

theorem margin_mem_layoutVar {id : VarId} (h : p.HasVar id) : .margin ∈ p.layoutVar id := by
  obtain ⟨var, hvar⟩ := h
  simp [layoutVar, mem_found, hvar]

theorem margin_mem_layoutFunction {id : FunctionId} (h : p.HasFunction id) : .margin ∈ p.layoutFunction id := by
  obtain ⟨function, hfunction⟩ := h
  simp [layoutFunction, mem_found, hfunction]

theorem node_not_mem_layoutFunction {id : FunctionId} {b : NodeId} : .node b ∉ p.layoutFunction id := by
  simp only [layoutFunction, mem_found, List.mem_cons, List.mem_append]
  rintro (h | ⟨function, -, h⟩)
  · cases h
  · cases hbody : function.body <;> simp [hbody, mem_commas, layoutBody] at h

theorem body_mem_layoutFunction {id : FunctionId} {b : NodeId} : .body b ∈ p.layoutFunction id ↔ b ∈ p.bodiesOf id := by
  rw [layoutFunction, mem_found, bodiesOf, mem_getD_map]
  simp only [reduceCtorEq, false_or]
  refine exists_congr fun function => and_congr_right fun _ => ?_
  cases hbody : function.body <;> simp [mem_commas, layoutBody, FunctionDecl.bodies, hbody]

section Layout

variable {node : Node} (h : p.NodeResolves node)

include h

theorem margin_mem_layout (hlinked : p.Linked) : .margin ∈ p.layout node ↔ p.HasLines node := by
  cases node with
  | block scope stmts =>
    obtain ⟨found, hscope⟩ := h.scopes scope List.mem_cons_self
    have hparts := hlinked.scopes found (mem_toList_of_lookup hscope)
    have hvars : (∃ id ∈ found.vars, .margin ∈ p.layoutVar id) ↔ found.vars ≠ [] :=
      ⟨fun ⟨id, hid, _⟩ => List.ne_nil_of_mem hid, fun hne => by
        obtain ⟨id, hid⟩ := List.exists_mem_of_ne_nil _ hne
        exact ⟨id, hid, margin_mem_layoutVar (hparts.vars id hid)⟩⟩
    have hfunctions : (∃ id ∈ found.functions, .margin ∈ p.layoutFunction id) ↔ found.functions ≠ [] :=
      ⟨fun ⟨id, hid, _⟩ => List.ne_nil_of_mem hid, fun hne => by
        obtain ⟨id, hid⟩ := List.exists_mem_of_ne_nil _ hne
        exact ⟨id, hid, margin_mem_layoutFunction (hparts.functions id hid)⟩⟩
    have hstmts : (∃ id ∈ stmts, .margin ∈ p.layoutStmt id) ↔ stmts ≠ [] :=
      ⟨fun ⟨id, hid, _⟩ => List.ne_nil_of_mem hid, fun hne => by
        obtain ⟨id, hid⟩ := List.exists_mem_of_ne_nil _ hne
        exact ⟨id, hid, List.mem_cons_self⟩⟩
    simp only [layout, layoutBlock, mem_found, hscope, List.mem_append, List.mem_flatMap, hvars, hfunctions, hstmts,
      HasLines, Option.some.injEq, exists_eq_left', reduceCtorEq, false_or]
    tauto
  | store var op value => simp [layout, mem_found, HasLines, Node.isCompound]
  | load var => simp [layout, mem_found, HasLines, Node.isCompound]
  | forIn var range body =>
    obtain ⟨found, hvar⟩ := h.vars var List.mem_cons_self
    simp [layout, mem_found, hvar, layoutBody, HasLines, Node.isCompound]
  | ifElse cond thenBlock elseBlock => simp [layout, layoutBody, HasLines, Node.isCompound]
  | ret value => cases value <;> simp [layout, HasLines, Node.isCompound]
  | _ => simp [layout, layoutArgs, layoutBody, mem_commas, HasLines, Node.isCompound]

theorem node_mem_layout {b : NodeId} : .node b ∈ p.layout node ↔ b ∈ node.operands ++ node.stmts := by
  cases node with
  | block scope stmts =>
    obtain ⟨found, hscope⟩ := h.scopes scope List.mem_cons_self
    simp [layout, layoutBlock, layoutVar, layoutStmt, mem_found, hscope, node_not_mem_layoutFunction, Node.operands,
      Node.stmts]
  | store var op value =>
    obtain ⟨found, hvar⟩ := h.vars var List.mem_cons_self
    simp [layout, mem_found, hvar, Node.operands, Node.stmts]
  | load var => simp [layout, mem_found, Node.operands, Node.stmts]
  | forIn var range body =>
    obtain ⟨found, hvar⟩ := h.vars var List.mem_cons_self
    simp [layout, layoutBody, mem_found, hvar, Node.operands, Node.stmts]
  | ifElse cond thenBlock elseBlock =>
    cases elseBlock <;> simp [layout, layoutBody, Node.operands, Node.stmts]
  | ret value => cases value <;> simp [layout, Node.operands, Node.stmts]
  | _ => simp [layout, layoutArgs, layoutBody, mem_commas, Node.operands, Node.stmts]

theorem body_mem_layout {b : NodeId} : .body b ∈ p.layout node ↔
    b ∈ node.bodies ∨ ∃ f ∈ node.scopes.flatMap p.functionsOf, b ∈ p.bodiesOf f := by
  cases node with
  | block scope stmts =>
    obtain ⟨found, hscope⟩ := h.scopes scope List.mem_cons_self
    simp [layout, layoutBlock, layoutVar, layoutStmt, mem_found, hscope, body_mem_layoutFunction, Node.bodies,
      Node.scopes, functionsOf]
  | store var op value => simp [layout, mem_found, Node.bodies, Node.scopes]
  | load var => simp [layout, mem_found, Node.bodies, Node.scopes]
  | forIn var range body =>
    obtain ⟨found, hvar⟩ := h.vars var List.mem_cons_self
    simp [layout, layoutBody, mem_found, hvar, Node.bodies, Node.scopes]
  | ifElse cond thenBlock elseBlock => cases elseBlock <;> simp [layout, layoutBody, Node.bodies, Node.scopes]
  | ret value => cases value <;> simp [layout, Node.bodies, Node.scopes]
  | _ => simp [layout, layoutArgs, layoutBody, mem_commas, Node.bodies, Node.scopes]

end Layout

/-! ## Margins in a walk -/

theorem mem_walk_succ {depth : Nat} {id : NodeId} {node : Node} (hnode : p.node? id = some node) {act : Act} :
    act ∈ p.walkWithin (depth + 1) id ↔
      act = .enter id ∨ ∃ piece ∈ p.layout node, act ∈ piece.acts (p.walkWithin depth) := by
  simp [walkWithin, hnode]

theorem margin_mem_deeper {acts : List Act} {level : Nat} :
    .margin level ∈ acts.map Act.deeper ↔ ∃ outer, level = outer + 1 ∧ .margin outer ∈ acts := by
  rw [List.mem_map]
  constructor
  · rintro ⟨act, hact, hdeeper⟩
    cases act with
    | margin outer =>
      cases hdeeper
      exact ⟨outer, rfl, hact⟩
    | _ => cases hdeeper
  · rintro ⟨outer, rfl, hact⟩
    exact ⟨_, hact, rfl⟩

theorem LineAt.lift {a b : NodeId} {level deeper : Nat}
    (hstep : ∀ {c}, p.NestedIn b level c → p.NestedIn a deeper c) (h : p.LineAt b level) : p.LineAt a deeper := by
  obtain ⟨c, node, hnested, hnode, hlines⟩ := h
  exact ⟨c, node, hstep hnested, hnode, hlines⟩

namespace Linked

theorem declaredBy_eq {id : NodeId} {node : Node} (hnode : p.node? id = some node) :
    p.declaredBy id = node.scopes.flatMap p.functionsOf := by
  simp [declaredBy, scopesOf, hnode]

theorem lineAt_of_margin (h : p.Linked) {depth level : Nat} {id : NodeId}
    (hmargin : .margin level ∈ p.walkWithin depth id) : p.LineAt id level := by
  induction depth generalizing id level with
  | zero => simp [walkWithin] at hmargin
  | succ depth ih =>
    cases hnode : p.node? id with
    | none => simp [walkWithin, hnode] at hmargin
    | some node =>
      have hresolves := h.nodes node (mem_toList_of_lookup hnode)
      rcases (mem_walk_succ hnode).mp hmargin with henter | ⟨piece, hpiece, hact⟩
      · cases henter
      · cases piece with
        | look ref => simp [Piece.acts] at hact
        | text s => simp [Piece.acts] at hact
        | margin =>
          obtain rfl : level = 0 := by simpa [Piece.acts] using hact
          exact ⟨id, node, .here, hnode, (margin_mem_layout hresolves h).mp hpiece⟩
        | node b => exact (ih hact).lift (.inPlace hnode ((node_mem_layout hresolves).mp hpiece))
        | body b =>
          obtain ⟨outer, rfl, houter⟩ := margin_mem_deeper.mp hact
          rcases (body_mem_layout hresolves).mp hpiece with hb | ⟨f, hf, hb⟩
          · exact (ih houter).lift (.body hnode hb)
          · exact (ih houter).lift (.function (declaredBy_eq hnode ▸ hf) hb)

theorem exists_node_of_declaredBy {id : NodeId} {f : FunctionId} (hf : f ∈ p.declaredBy id) :
    ∃ node, p.node? id = some node ∧ f ∈ node.scopes.flatMap p.functionsOf := by
  cases hnode : p.node? id with
  | none => simp [declaredBy, scopesOf, hnode] at hf
  | some node => exact ⟨node, rfl, declaredBy_eq hnode ▸ hf⟩

theorem margin_of_body {depth level : Nat} {a b : NodeId} {node : Node} (hnode : p.node? a = some node)
    (hbody : .body b ∈ p.layout node) (hend : .endless ∉ p.walkWithin depth a)
    (hbelow : ∀ {depth}, .endless ∉ p.walkWithin depth b → .margin level ∈ p.walkWithin depth b) :
    .margin (level + 1) ∈ p.walkWithin depth a := by
  cases depth with
  | zero => exact absurd List.mem_cons_self hend
  | succ depth =>
    have hdeeper : .endless ∉ p.walkWithin depth b := fun hact =>
      hend ((mem_walk_succ hnode).mpr (.inr ⟨_, hbody, endless_mem_deeper.mpr hact⟩))
    exact (mem_walk_succ hnode).mpr (.inr ⟨_, hbody, margin_mem_deeper.mpr ⟨level, rfl, hbelow hdeeper⟩⟩)

theorem margin_of_nested (h : p.Linked) {depth level : Nat} {id b : NodeId} (hnested : p.NestedIn id level b)
    {node : Node} (hnode : p.node? b = some node) (hlines : p.HasLines node) (hend : .endless ∉ p.walkWithin depth id) :
    .margin level ∈ p.walkWithin depth id := by
  induction hnested generalizing depth with
  | here =>
    cases depth with
    | zero => exact absurd List.mem_cons_self hend
    | succ depth =>
      have hresolves := h.nodes node (mem_toList_of_lookup hnode)
      exact (mem_walk_succ hnode).mpr (.inr ⟨_, (margin_mem_layout hresolves h).mpr hlines, List.mem_cons_self⟩)
  | inPlace houter hb _ ih =>
    cases depth with
    | zero => exact absurd List.mem_cons_self hend
    | succ depth =>
      have hpiece := (node_mem_layout (h.nodes _ (mem_toList_of_lookup houter))).mpr hb
      have hbelow : .endless ∉ p.walkWithin depth _ := fun hact =>
        hend ((mem_walk_succ houter).mpr (.inr ⟨_, hpiece, hact⟩))
      exact (mem_walk_succ houter).mpr (.inr ⟨_, hpiece, ih hnode hbelow⟩)
  | body houter hb _ ih =>
    have hbody := (body_mem_layout (h.nodes _ (mem_toList_of_lookup houter))).mpr (.inl hb)
    exact margin_of_body houter hbody hend (ih hnode)
  | function hf hb _ ih =>
    obtain ⟨outer, houter, hdeclared⟩ := exists_node_of_declaredBy hf
    have hbody := (body_mem_layout (h.nodes _ (mem_toList_of_lookup houter))).mpr (.inr ⟨_, hdeclared, hb⟩)
    exact margin_of_body houter hbody hend (ih hnode)

theorem lineAt_iff (h : p.Linked) {level : Nat} :
    p.LineAt p.root level ↔ .margin level ∈ p.walkWithin (p.nodes.size + 1) p.root := by
  constructor
  · rintro ⟨b, node, hnested, hnode, hlines⟩
    exact h.margin_of_nested hnested hnode hlines (h.endless_not_mem_walk (Nat.lt_succ_self _))
  · exact h.lineAt_of_margin

end Linked

/-! ## What can be printed -/

/-- The lines of a program keep within the limit in this width. -/
def MarginsFit (p : Program) (width : Nat) : Prop := ∀ level, p.LineAt p.root level → level * width ≤ maxIndent

/-- A program that is linked is printed exactly in the widths in which its margins fit. -/
theorem Linked.render_iff (h : p.Linked) {width : Nat} : (∃ text, p.render width = .ok text) ↔ p.MarginsFit width := by
  have hsafe := h.safe_walk (Nat.lt_succ_self p.nodes.size)
  rw [render, renderFrom_eq, Transcript.exists_rendered_iff, transcript_fault_eq_none]
  constructor
  · rintro houtput level ⟨b, node, hnested, hnode, hlines⟩
    obtain ⟨s, hs⟩ := houtput _ (h.margin_of_nested hnested hnode hlines hsafe.ends)
    rw [Act.output] at hs
    split at hs
    · cases hs
    · omega
  · intro hfit act hact
    refine output_of_resolves (hsafe.resolves act hact) (fun hend => hsafe.ends (hend ▸ hact)) fun level hlevel => ?_
    rw [Nat.zero_add]
    exact hfit level (h.lineAt_of_margin (hlevel ▸ hact))

theorem Linked.render_wide (h : p.Linked) {width : Nat} (hfit : ¬ p.MarginsFit width) :
    p.render width = .error .indentTooWide :=
  (render_cases (h.safe_walk (Nat.lt_succ_self _)) width).resolve_left fun htext => hfit (h.render_iff.mp htext)

/-- A validated program is printed exactly in the widths in which its margins fit, and fails on its own in the others. It
is printed in all widths that the command line takes if no line stands deeper than 1023 bodies. A run that comes to print
it ends with one of its two exit codes only if the margins fit. -/
theorem printed_iff_of_validate (h : p.validate = .ok ()) :
    (∀ width, (p.MarginsFit width → ∃ text, p.render width = .ok text) ∧
      (¬ p.MarginsFit width → p.render width = .error .indentTooWide)) ∧
    ((∀ width ≤ maxWidth, ∃ text, p.render width = .ok text) ↔ ∀ level, p.LineAt p.root level → level ≤ 1023) ∧
    ∀ (host : Host) options path, options.completions = none → options.file = some path →
      host.Accepts options path p →
      ((host.run options).exitCode = 0 ∨ (host.run options).exitCode = 1 ↔ p.MarginsFit options.indent) := by
  have hlinked := (wellFormed_of_validate h).toLinked
  refine ⟨fun width => ⟨hlinked.render_iff.mpr, hlinked.render_wide⟩, ⟨fun hall level hline => ?_, fun hlevel width hwidth => ?_⟩,
    fun host options path hcompletions hfile haccepts => ?_⟩
  · have hfits := hlinked.render_iff.mp (hall maxWidth (le_refl _)) level hline
    unfold maxWidth maxIndent at hfits
    omega
  · refine hlinked.render_iff.mpr fun level hline => ?_
    have hbound := Nat.mul_le_mul (hlevel level hline) hwidth
    unfold maxWidth at hbound
    unfold maxIndent
    omega
  · obtain ⟨⟨source, hreplies⟩, hvalid⟩ := haccepts
    rw [Host.run_eq_runFile hcompletions hfile]
    by_cases hfit : p.MarginsFit options.indent
    · obtain ⟨text, hrender⟩ := hlinked.render_iff.mpr hfit
      simp [(Host.runFile_printed hreplies hvalid hrender).exitCode, hfit]
    · have hends := Host.runFile_fault hreplies hvalid (hlinked.render_wide hfit)
      simp [hends.exitCode, hfit, faultCode]

/-! ## Functions inside each other -/

/-- Every function but the last declares the next one in its body. The root declares the first. -/
def nested (count : Nat) : Program where
  nodes := ((List.range (count + 1)).map fun i => Node.block ⟨UInt32.ofNat i⟩ []).toArray
  scopes := ((List.range (count + 1)).map fun i =>
    { functions := if i < count then [FunctionId.ofIndex i] else [] : Scope }).toArray
  vars := #[]
  functions := ((List.range count).map fun i =>
    { name := "f", returnType := .void, params := [], body := .block ⟨UInt32.ofNat (i + 1)⟩ : FunctionDecl }).toArray
  root := ⟨UInt32.ofNat 0⟩

theorem ofNat_inj {i j : Nat} (hi : i < UInt32.size) (hj : j < UInt32.size) (h : UInt32.ofNat i = UInt32.ofNat j) :
    i = j := by
  rw [← UInt32.toNat_ofNat_of_lt' hi, ← UInt32.toNat_ofNat_of_lt' hj, h]

theorem nodup_ids {ι : Type} {make : UInt32 → ι} (hmake : Function.Injective make) {count : Nat}
    (hcount : count ≤ UInt32.size) : ((List.range count).map fun i => make (UInt32.ofNat i)).Nodup := by
  refine List.Nodup.map_on (fun i hi j hj h => ?_) List.nodup_range
  rw [List.mem_range] at hi hj
  exact ofNat_inj (by omega) (by omega) (hmake h)

section Nested

variable {count : Nat}

theorem nested_node {i : Nat} (hi : i ≤ count) (hcount : count < UInt32.size) :
    (nested count).node? ⟨UInt32.ofNat i⟩ = some (.block ⟨UInt32.ofNat i⟩ []) := by
  have hplace : (UInt32.ofNat i).toNat = i := UInt32.toNat_ofNat_of_lt' (by omega)
  simp only [node?, nested, hplace, List.getElem?_toArray, List.getElem?_map, List.getElem?_range (Nat.lt_succ_of_le hi)]
  rfl

theorem nested_scope {i : Nat} (hi : i ≤ count) (hcount : count < UInt32.size) :
    (nested count).scope? ⟨UInt32.ofNat i⟩ = some { functions := if i < count then [.ofIndex i] else [] } := by
  have hplace : (UInt32.ofNat i).toNat = i := UInt32.toNat_ofNat_of_lt' (by omega)
  simp only [scope?, nested, hplace, List.getElem?_toArray, List.getElem?_map, List.getElem?_range (Nat.lt_succ_of_le hi)]
  rfl

theorem nested_declaredBy {i : Nat} (hi : i ≤ count) (hcount : count < UInt32.size) :
    (nested count).declaredBy ⟨UInt32.ofNat i⟩ = if i < count then [FunctionId.ofIndex i] else [] := by
  rw [Linked.declaredBy_eq (nested_node hi hcount), Node.scopes, List.flatMap_singleton, functionsOf,
    nested_scope hi hcount]
  rfl

theorem nested_bodiesOf {i : Nat} (hi : i < count) (hcount : count < UInt32.size) :
    (nested count).bodiesOf (.ofIndex i) = [⟨UInt32.ofNat (i + 1)⟩] := by
  have hplace : (UInt32.ofNat i).toNat = i := UInt32.toNat_ofNat_of_lt' (by omega)
  simp only [bodiesOf, function?, FunctionId.ofIndex, nested, hplace, List.getElem?_toArray, List.getElem?_map,
    List.getElem?_range hi]
  rfl

theorem nested_childrenOf (id : NodeId) : (nested count).childrenOf id = [] := by
  cases hnode : (nested count).node? id with
  | none => simp [childrenOf, hnode]
  | some node =>
    have hmem := mem_toList_of_lookup hnode
    simp only [nested, List.mem_map] at hmem
    obtain ⟨i, -, rfl⟩ := hmem
    rw [childrenOf_eq hnode, Node.children]

theorem nested_hasBlock {i : Nat} (hi : i ≤ count) (hcount : count < UInt32.size) :
    (nested count).HasBlock ⟨UInt32.ofNat i⟩ := ⟨_, _, nested_node hi hcount⟩

theorem nested_linked (hcount : count < UInt32.size) : (nested count).Linked where
  root := nested_hasBlock (Nat.zero_le _) hcount
  nodes := by
    intro node hnode
    simp only [nested, List.mem_map, List.mem_range] at hnode
    obtain ⟨i, hi, rfl⟩ := hnode
    have hscope : (nested count).HasScope ⟨UInt32.ofNat i⟩ := by
      rw [hasScope_iff, UInt32.toNat_ofNat_of_lt' (by omega)]
      simpa [nested] using hi
    exact ⟨by simp [Node.children], by simpa [Node.scopes] using hscope, by simp [Node.vars], by simp [Node.bodies]⟩
  scopes := by
    intro scope hscope
    simp only [nested, List.mem_map, List.mem_range] at hscope
    obtain ⟨i, hi, rfl⟩ := hscope
    refine ⟨by simp, by simp, fun f hf => ?_⟩
    dsimp only at hf
    split at hf
    · next hlt =>
      rw [List.mem_singleton.mp hf, hasFunction_iff, FunctionId.ofIndex, UInt32.toNat_ofNat_of_lt' (by omega)]
      simpa [nested] using hlt
    · cases hf
  bodies := by
    intro function hfunction id hid
    simp only [nested, List.mem_map, List.mem_range] at hfunction
    obtain ⟨i, hi, rfl⟩ := hfunction
    rw [FunctionDecl.bodies, List.mem_singleton] at hid
    exact hid ▸ nested_hasBlock hi hcount
  places := by
    have hchildren : (nested count).nodes.toList.flatMap Node.children = [] := by
      simp only [nested, List.flatMap_map, Node.children, List.flatMap_eq_nil_iff, implies_true]
    have hbodies : (nested count).functions.toList.flatMap FunctionDecl.bodies =
        (List.range count).map fun i => NodeId.mk (UInt32.ofNat (i + 1)) := by
      rw [List.map_eq_flatMap]
      simp only [nested, List.flatMap_map, FunctionDecl.bodies]
    have hplaces : (nested count).places = (List.range (count + 1)).map fun i => NodeId.mk (UInt32.ofNat i) := by
      rw [places, hchildren, hbodies, List.nil_append, List.range_succ_eq_map, List.map_cons, List.map_map]
      rfl
    rw [hplaces]
    exact nodup_ids (fun _ _ h => congrArg NodeId.index h) hcount
  ownerships := by
    have hownerships : (nested count).ownerships = (List.range (count + 1)).map fun i => ScopeId.mk (UInt32.ofNat i) := by
      rw [List.map_eq_flatMap]
      simp only [ownerships, nested, List.flatMap_map, Node.scopes]
    rw [hownerships]
    exact nodup_ids (fun _ _ h => congrArg ScopeId.index h) hcount
  declarations := by
    have hdeclared : (List.range count).flatMap (fun i => if i < count then [FunctionId.ofIndex i] else []) =
        (List.range count).flatMap fun i => [FunctionId.mk (UInt32.ofNat i)] :=
      List.flatMap_congr fun i hi => if_pos (List.mem_range.mp hi)
    have hdeclarations : (nested count).declarations =
        (List.range count).map fun i => FunctionId.mk (UInt32.ofNat i) := by
      rw [List.map_eq_flatMap, ← hdeclared]
      simp only [declarations, nested, List.flatMap_map, List.range_succ, List.flatMap_append, List.flatMap_singleton,
        lt_irrefl, if_false, List.append_nil]
    rw [hdeclarations]
    exact nodup_ids (fun _ _ h => congrArg FunctionId.index h) hcount.le

theorem nested_validate (hcount : count < UInt32.size) : (nested count).validate = .ok () := by
  refine validate_of_wellFormed { nested_linked hcount with outside := ?_ }
  rintro i function hfunction body hbody ⟨block, hpath, hdeclares⟩
  have hi : i < count := by simpa [nested] using (List.getElem?_eq_some_iff.mp hfunction).1
  -- Nothing hangs below the body, so it would have to declare the function itself.
  obtain rfl : body = block := by
    rcases Relation.ReflTransGen.cases_head hpath with heq | ⟨b, hb, -⟩
    · exact heq
    · rw [nested_childrenOf] at hb
      cases hb
  obtain rfl : body = ⟨UInt32.ofNat (i + 1)⟩ := by
    simp only [nested, List.getElem?_map, List.getElem?_range hi, Option.map_some, Option.some.injEq] at hfunction
    subst hfunction
    exact List.mem_singleton.mp hbody
  rw [nested_declaredBy hi hcount] at hdeclares
  split at hdeclares
  · have hsame := ofNat_inj (by omega) (by omega) (congrArg FunctionId.index (List.mem_singleton.mp hdeclares))
    omega
  · cases hdeclares

theorem nested_nestedIn (hcount : count < UInt32.size) {i level : Nat} (hi : i + level ≤ count) :
    (nested count).NestedIn ⟨UInt32.ofNat i⟩ level ⟨UInt32.ofNat (i + level)⟩ := by
  induction level generalizing i with
  | zero => exact .here
  | succ level ih =>
    have hstep : (nested count).NestedIn ⟨UInt32.ofNat (i + 1)⟩ level ⟨UInt32.ofNat (i + (level + 1))⟩ := by
      have hinner := ih (i := i + 1) (by omega)
      rwa [show i + 1 + level = i + (level + 1) by omega] at hinner
    have hdeclared : FunctionId.ofIndex i ∈ (nested count).declaredBy ⟨UInt32.ofNat i⟩ := by
      rw [nested_declaredBy (by omega) hcount, if_pos (by omega)]
      exact List.mem_singleton_self _
    have hbody : ⟨UInt32.ofNat (i + 1)⟩ ∈ (nested count).bodiesOf (.ofIndex i) := by
      rw [nested_bodiesOf (by omega) hcount]
      exact List.mem_singleton_self _
    exact .function hdeclared hbody hstep

theorem nested_lineAt (hcount : count < UInt32.size) {level : Nat} (hlevel : level < count) :
    (nested count).LineAt (nested count).root level := by
  have hnested : (nested count).NestedIn ⟨UInt32.ofNat 0⟩ level ⟨UInt32.ofNat (0 + level)⟩ :=
    nested_nestedIn hcount (by omega)
  rw [Nat.zero_add] at hnested
  refine ⟨_, _, hnested, nested_node hlevel.le hcount, .inr ⟨_, nested_scope hlevel.le hcount, .inr ?_⟩⟩
  rw [if_pos hlevel]
  exact List.cons_ne_nil _ _

end Nested

/-- A front end that replies with a program, whatever the source. -/
def hostOf (double : Double → Json) (p : Program) : Host where
  fileContents _ := .ok []
  runFrontEnd _ _ := .ok ⟨(Json.ofMembers [("ok", p.encodeWith double)]).render.toUTF8.toList, .code 0⟩
  explain _ := ""

theorem hostOf_accepts {double : Double → Json} {p : Program} (hdoubles : p.ReadsDoubles double)
    (hvalid : p.validate = .ok ()) {options : Options} {command : Command} (hbackend : options.backend = .print)
    (hconfigures : options.Configures command) (path : String) : (hostOf double p).Accepts options path p := by
  have hloads : (hostOf double p).Loads path "" := ⟨[], rfl, by decide⟩
  have hreply := Reply.ofBytes?_form hdoubles (p.encodeWith_form double)
  exact ⟨⟨"", command, _, ⟨hloads, hbackend, hconfigures, rfl⟩, hreply⟩, hvalid⟩

theorem nested_readsDoubles (double : Double → Json) (count : Nat) : (nested count).ReadsDoubles double := by
  rintro node hnode x rfl
  simp [nested] at hnode

theorem printed_iff_of_validate_pair :
    (nested 2).validate = .ok () ∧ (nested 2).LineAt (nested 2).root 1 ∧
    (nested 2).render (maxIndent + 1) = .error .indentTooWide := by
  have hvalid : (nested 2).validate = .ok () := nested_validate (by decide)
  have hline : (nested 2).LineAt (nested 2).root 1 := nested_lineAt (by decide) (by decide)
  refine ⟨hvalid, hline, ((printed_iff_of_validate hvalid).1 (maxIndent + 1)).2 fun hfits => ?_⟩
  exact absurd (hfits 1 hline) (by decide)

def deepOptions : Options := ⟨true, false, false, maxWidth, some "fe", 0, none, some "a.mvm"⟩

/-- A sound program of 1025 functions inside each other has no text in the greatest width, and the run that should print
it ends with neither of its exit codes. -/
theorem nested_overflows :
    (nested 1025).validate = .ok () ∧ (nested 1025).render maxWidth = .error .indentTooWide ∧
    CommandLine.read ["-p", "--indent=64", "--frontend=fe", "a.mvm"] {} = .ok deepOptions ∧
    ((hostOf (fun _ => .null) (nested 1025)).run deepOptions).exitCode = 101 := by
  have hsmall : 1025 < UInt32.size := by decide
  have hvalid := nested_validate hsmall
  have hrender : (nested 1025).render maxWidth = .error .indentTooWide := by
    refine (nested_linked hsmall).render_wide fun hfits => ?_
    have hlimit := hfits 1024 (nested_lineAt hsmall (by omega))
    unfold maxWidth maxIndent at hlimit
    omega
  have hwords : Text.words "fe" = ["fe"] := by decide +kernel
  have hconfigures : deepOptions.Configures ⟨"fe", []⟩ := ⟨"fe", rfl, Text.words_eq_iff.mp hwords⟩
  obtain ⟨⟨source, hreplies⟩, -⟩ :=
    hostOf_accepts (nested_readsDoubles _ 1025) hvalid rfl hconfigures "a.mvm"
  refine ⟨hvalid, hrender, by decide +kernel, ?_⟩
  rw [Host.run_eq_runFile rfl rfl, (Host.runFile_fault hreplies hvalid hrender).exitCode]
  rfl

end Canon.Program
