import Canon.Proofs.Readable
import Canon.Proofs.Renaming
import Canon.Proofs.Session

/-!
# Printing what has not been checked

A program that has not been checked is printed up to the first id that leads nowhere. What the walk holds behind that id
does not matter, not even whether it ends.
-/

namespace Canon

/-! ## Lists that agree as long as all is fine -/

/-- Two lists that are the same up to their first item that is not fine, or to the end if there is none. -/
inductive SameUntil {α : Type} (fine : α → Prop) : List α → List α → Prop
  | nil : SameUntil fine [] []
  | stop {a : α} {s t : List α} (h : ¬ fine a) : SameUntil fine (a :: s) (a :: t)
  | next {a : α} {s t : List α} (h : SameUntil fine s t) : SameUntil fine (a :: s) (a :: t)

namespace SameUntil

variable {α : Type} {fine : α → Prop} {s t u v : List α}

theorem refl (s : List α) : SameUntil fine s s := by
  induction s with
  | nil => exact .nil
  | cons a s ih => exact .next ih

theorem append (h : SameUntil fine s t) (hrest : (∀ a ∈ s, fine a) → SameUntil fine u v) :
    SameUntil fine (s ++ u) (t ++ v) := by
  induction h with
  | nil => exact hrest (List.forall_mem_nil _)
  | stop hbad => exact .stop hbad
  | @next a s t _ ih =>
    by_cases ha : fine a
    · apply SameUntil.next
      exact ih fun hs => hrest (List.forall_mem_cons.mpr ⟨ha, hs⟩)
    · exact .stop ha

theorem flatMap {β : Type} {f g : β → List α} (h : ∀ b, SameUntil fine (f b) (g b)) (bs : List β) :
    SameUntil fine (bs.flatMap f) (bs.flatMap g) := by
  induction bs with
  | nil => exact .nil
  | cons b bs ih => exact (h b).append fun _ => ih

theorem map {f : α → α} (hf : ∀ a, fine (f a) ↔ fine a) (h : SameUntil fine s t) :
    SameUntil fine (s.map f) (t.map f) := by
  induction h with
  | nil => exact .nil
  | @stop a s t hbad => exact .stop fun hfine => hbad ((hf a).mp hfine)
  | next _ ih => exact .next ih

theorem forall_iff (h : SameUntil fine s t) : (∀ a ∈ s, fine a) ↔ ∀ a ∈ t, fine a := by
  induction h with
  | nil => rfl
  | stop hbad => simp [hbad]
  | next _ ih => simp only [List.forall_mem_cons, ih]

theorem split (h : SameUntil fine s t) {before after : List α} {a : α} (hs : s = before ++ a :: after)
    (hbefore : ∀ b ∈ before, fine b) : ∃ rest, t = before ++ a :: rest := by
  induction h generalizing before with
  | nil => simp at hs
  | @stop b s t hbad =>
    cases before with
    | nil =>
      cases hs
      exact ⟨t, rfl⟩
    | cons c before =>
      cases hs
      exact absurd (hbefore b List.mem_cons_self) hbad
  | @next b s t h ih =>
    cases before with
    | nil =>
      cases hs
      exact ⟨t, rfl⟩
    | cons c before =>
      obtain ⟨rfl, htail⟩ := List.cons.inj hs
      obtain ⟨rest, rfl⟩ := ih htail fun b hb => hbefore b (List.mem_cons_of_mem _ hb)
      exact ⟨rest, rfl⟩

end SameUntil

/-! ## Look-ups -/

theorem Act.resolves_iff {p : Program} {act : Act} : act.Resolves p ↔ ∀ ref, act.ref? = some ref → p.HasRef ref := by
  cases act <;> simp [Act.Resolves, Act.ref?, Program.HasRef]

theorem forall_resolves_iff {p : Program} {acts : List Act} :
    (∀ act ∈ acts, act.Resolves p) ↔ ∀ ref ∈ acts.filterMap Act.ref?, p.HasRef ref := by
  constructor
  · intro h ref href
    obtain ⟨act, hact, hsome⟩ := List.mem_filterMap.mp href
    exact Act.resolves_iff.mp (h act hact) ref hsome
  · intro h act hact
    exact Act.resolves_iff.mpr fun ref href => h ref (List.mem_filterMap.mpr ⟨act, hact, href⟩)

/-- The ids that are looked up for a piece of a layout, if it is known what is looked up for the nodes below. -/
def Piece.refs (below : NodeId → List Ref) : Piece → List Ref
  | .look ref => [ref]
  | .node id => below id
  | .body id => below id
  | _ => []

theorem refs_acts {below : NodeId → List Act} (pieces : List Piece) :
    (pieces.flatMap (Piece.acts below)).filterMap Act.ref? =
      pieces.flatMap (Piece.refs fun id => (below id).filterMap Act.ref?) := by
  rw [List.filterMap_flatMap]
  apply List.flatMap_congr
  intro piece _
  cases piece with
  | body id =>
    rw [Piece.acts, List.filterMap_map]
    exact congrArg ((below id).filterMap ·) (funext Program.deeper_ref?)
  | _ => rfl

namespace Program

variable {p : Program}

/-- The ids that the printer looks up at a node behind the id of the node, if it is known what it looks up below.

In a block, these are the scope, all its variables, each of its functions and what its body looks up, and then the
statements. Each statement is looked up a second time when it has been printed, as the semicolon depends on it. In other
nodes the variable comes before the children. -/
def lookupsOf (p : Program) (below : NodeId → List Ref) : Node → List Ref
  | .block scope stmts => .scope scope :: ((p.scope? scope).map fun found =>
      found.vars.map .var ++ (found.functions.flatMap (fun id => .function id :: (p.bodiesOf id).flatMap below) ++
        stmts.flatMap fun id => below id ++ [.node id])).getD []
  | node => node.vars.map .var ++ node.children.flatMap below

/-- The ids that the printer looks up to print a node with at most `depth` nodes around each other, in the order in which
it looks them up as long as it finds them. -/
def lookupsWithin (p : Program) : Nat → NodeId → List Ref
  | 0, _ => []
  | depth + 1, id => .node id :: ((p.node? id).map (p.lookupsOf (p.lookupsWithin depth))).getD []

section Layout

variable {below : NodeId → List Ref}

attribute [local simp] Piece.refs Node.vars Node.children

theorem commas_refs {α : Type} (item : α → List Piece) (as : List α) :
    (commas item as).flatMap (Piece.refs below) = as.flatMap fun a => (item a).flatMap (Piece.refs below) :=
  commas_flatMap item rfl as

theorem layoutArgs_refs (args : List NodeId) : (layoutArgs args).flatMap (Piece.refs below) = args.flatMap below := by
  simp [layoutArgs, commas_refs, Piece.refs]

theorem layoutVar_refs (id : VarId) : (p.layoutVar id).flatMap (Piece.refs below) = [.var id] := by
  cases hvar : p.var? id <;> simp [layoutVar, found, hvar, Piece.refs]

theorem layoutFunction_refs (id : FunctionId) :
    (p.layoutFunction id).flatMap (Piece.refs below) = .function id :: (p.bodiesOf id).flatMap below := by
  cases hfunction : p.function? id with
  | none => simp [layoutFunction, found, hfunction, bodiesOf, Piece.refs]
  | some function =>
    cases hbody : function.body <;>
      simp [layoutFunction, found, hfunction, hbody, bodiesOf, FunctionDecl.bodies, layoutBody, commas_refs, Piece.refs]

theorem layoutStmt_refs (id : NodeId) : (p.layoutStmt id).flatMap (Piece.refs below) = below id ++ [.node id] := by
  cases hnode : p.node? id with
  | none => simp [layoutStmt, found, hnode, Piece.refs]
  | some node => cases hcompound : node.isCompound <;> simp [layoutStmt, found, hnode, hcompound, Piece.refs]

theorem layoutBlock_refs {scope : ScopeId} {found : Scope} (hscope : p.scope? scope = some found) (stmts : List NodeId) :
    (p.layoutBlock scope stmts).flatMap (Piece.refs below) = .scope scope :: (found.vars.map .var ++
      (found.functions.flatMap (fun id => .function id :: (p.bodiesOf id).flatMap below) ++
        stmts.flatMap fun id => below id ++ [.node id])) := by
  simp [layoutBlock, Program.found, hscope, Piece.refs, List.flatMap_assoc, layoutVar_refs, layoutFunction_refs,
    layoutStmt_refs, List.map_eq_flatMap]

theorem lookupsOf_sameUntil {looked : NodeId → List Ref} (hbelow : ∀ id, SameUntil p.HasRef (looked id) (below id))
    (node : Node) : SameUntil p.HasRef (p.lookupsOf looked node) ((p.layout node).flatMap (Piece.refs below)) := by
  have hchildren := SameUntil.flatMap hbelow node.children
  have hvar {id : VarId} (hnone : p.var? id = none) : ¬ p.HasRef (.var id) := by
    rintro ⟨var, hsome⟩
    cases hnone.symm.trans hsome
  cases node with
  | block scope stmts =>
    cases hscope : p.scope? scope with
    | none =>
      simp only [lookupsOf, layout, layoutBlock, found, hscope]
      exact .refl _
    | some found =>
      rw [layout, layoutBlock_refs hscope, lookupsOf, hscope]
      have hfunction (id : FunctionId) : SameUntil p.HasRef (.function id :: (p.bodiesOf id).flatMap looked)
          (.function id :: (p.bodiesOf id).flatMap below) := .next (.flatMap hbelow _)
      have hstmt (id : NodeId) : SameUntil p.HasRef (looked id ++ [.node id]) (below id ++ [.node id]) :=
        (hbelow id).append fun _ => .refl _
      apply SameUntil.next
      apply (SameUntil.refl _).append
      intro _
      exact (SameUntil.flatMap hfunction _).append fun _ => SameUntil.flatMap hstmt _
  | store var op value =>
    cases hfound : p.var? var with
    | none => exact .stop (hvar hfound)
    | some var => simpa [lookupsOf, layout, found, hfound] using hchildren.next
  | load var =>
    cases hfound : p.var? var with
    | none => exact .stop (hvar hfound)
    | some var => simpa [lookupsOf, layout, found, hfound] using hchildren.next
  | forIn var range body =>
    cases hfound : p.var? var with
    | none => exact .stop (hvar hfound)
    | some var => simpa [lookupsOf, layout, layoutBody, found, hfound] using hchildren.next
  | ifElse cond thenBlock elseBlock => cases elseBlock <;> simpa [lookupsOf, layout, layoutBody] using hchildren
  | ret value => cases value <;> simpa [lookupsOf, layout] using hchildren
  | _ => simpa [lookupsOf, layout, layoutArgs_refs, layoutBody] using hchildren

end Layout

theorem lookups_sameUntil (depth : Nat) (id : NodeId) :
    SameUntil p.HasRef (p.lookupsWithin depth id) ((p.walkWithin depth id).filterMap Act.ref?) := by
  induction depth generalizing id with
  | zero => exact .nil
  | succ depth ih =>
    cases hnode : p.node? id with
    | none =>
      rw [lookupsWithin, walkWithin, hnode]
      exact .refl _
    | some node =>
      simp only [lookupsWithin, walkWithin, hnode, Option.map_some, Option.getD_some, List.filterMap_cons, Act.ref?,
        refs_acts]
      exact .next (lookupsOf_sameUntil ih node)

/-! ## Walks that stop -/

/-- The walk is cut off only behind an id that leads nowhere. The printer never comes there: it stops at that id, or at
the end of the walk. -/
def Stops (p : Program) (acts : List Act) : Prop :=
  ∀ before after, acts = before ++ .endless :: after → ∃ act ∈ before, ¬ act.Resolves p

theorem stops_nil : p.Stops [] := by
  intro before after h
  simp at h

theorem stops_cons {act : Act} {acts : List Act} :
    p.Stops (act :: acts) ↔ ¬ act.Resolves p ∨ act ≠ .endless ∧ p.Stops acts := by
  constructor
  · intro h
    by_cases hact : act.Resolves p
    · refine .inr ⟨?_, ?_⟩
      · rintro rfl
        obtain ⟨_, hmem, -⟩ := h [] acts rfl
        cases hmem
      · intro before after hacts
        obtain ⟨other, hother, hbad⟩ := h (act :: before) after (congrArg (act :: ·) hacts)
        rcases List.mem_cons.mp hother with rfl | hother
        · exact absurd hact hbad
        · exact ⟨other, hother, hbad⟩
    · exact .inl hact
  · intro h before after hacts
    cases before with
    | nil =>
      cases hacts
      rcases h with hbad | ⟨hne, -⟩
      · exact absurd trivial hbad
      · exact absurd rfl hne
    | cons first before =>
      obtain ⟨rfl, htail⟩ := List.cons.inj hacts
      rcases h with hbad | ⟨-, hstops⟩
      · exact ⟨act, List.mem_cons_self, hbad⟩
      · obtain ⟨other, hother, hbad⟩ := hstops before after htail
        exact ⟨other, List.mem_cons_of_mem _ hother, hbad⟩

theorem stops_append {a b : List Act} :
    p.Stops (a ++ b) ↔ p.Stops a ∧ ((∀ act ∈ a, act.Resolves p) → p.Stops b) := by
  induction a with
  | nil => simp [stops_nil]
  | cons act a ih =>
    rw [List.cons_append, stops_cons, stops_cons, ih, List.forall_mem_cons]
    tauto

theorem stops_deeper {acts : List Act} : p.Stops (acts.map Act.deeper) ↔ p.Stops acts := by
  induction acts with
  | nil => rfl
  | cons act acts ih =>
    have hendless : act.deeper = .endless ↔ act = .endless := by cases act <;> simp [Act.deeper]
    rw [List.map_cons, stops_cons, stops_cons, ih, Act.resolves_deeper, ne_eq, hendless]

theorem stops_singleton {act : Act} (h : act ≠ .endless) : p.Stops [act] := stops_cons.mpr (.inr ⟨h, stops_nil⟩)

theorem not_stops_endless : ¬ p.Stops [.endless] := by
  intro h
  obtain ⟨_, hmem, -⟩ := h [] [] rfl
  cases hmem

theorem stops_of_sameUntil {s t : List Act} (h : SameUntil (Act.Resolves p) s t) (hs : p.Stops s) : p.Stops t := by
  induction h with
  | nil => exact hs
  | stop hbad => exact stops_cons.mpr (.inl hbad)
  | next _ ih =>
    rcases stops_cons.mp hs with hbad | ⟨hne, hs⟩
    · exact stops_cons.mpr (.inl hbad)
    · exact stops_cons.mpr (.inr ⟨hne, ih hs⟩)

section Below

variable {below deeper : NodeId → List Act}
  (hbelow : ∀ id, p.Stops (below id) → SameUntil (Act.Resolves p) (below id) (deeper id))

include hbelow

theorem piece_sameUntil {piece : Piece} (h : p.Stops (piece.acts below)) :
    SameUntil (Act.Resolves p) (piece.acts below) (piece.acts deeper) := by
  cases piece with
  | node id => exact hbelow id h
  | body id => exact (hbelow id (stops_deeper.mp h)).map fun _ => Act.resolves_deeper
  | _ => exact .refl _

theorem acts_sameUntil {pieces : List Piece} (h : p.Stops (pieces.flatMap (Piece.acts below))) :
    SameUntil (Act.Resolves p) (pieces.flatMap (Piece.acts below)) (pieces.flatMap (Piece.acts deeper)) := by
  induction pieces with
  | nil => exact .nil
  | cons piece pieces ih =>
    rw [List.flatMap_cons, stops_append] at h
    exact (piece_sameUntil hbelow h.1).append fun hall => ih (h.2 hall)

theorem exists_cut {pieces : List Piece} (hcut : ¬ p.Stops (pieces.flatMap (Piece.acts below)))
    (hstops : p.Stops (pieces.flatMap (Piece.acts deeper))) :
    ∃ id, ¬ p.Stops (below id) ∧ p.Stops (deeper id) := by
  induction pieces with
  | nil => exact absurd stops_nil hcut
  | cons piece pieces ih =>
    rw [List.flatMap_cons, stops_append] at hcut hstops
    by_cases hpiece : p.Stops (piece.acts below)
    · -- The cut is behind this piece, and the printer comes behind it on either walk.
      obtain ⟨hall, hrest⟩ := Classical.not_imp.mp fun hrest => hcut ⟨hpiece, hrest⟩
      have hsame := (piece_sameUntil hbelow hpiece).forall_iff
      exact ih hrest (hstops.2 (hsame.mp hall))
    · cases piece with
      | node id => exact ⟨id, hpiece, hstops.1⟩
      | body id => exact ⟨id, fun h => hpiece (stops_deeper.mpr h), stops_deeper.mp hstops.1⟩
      | _ => exact (hpiece (stops_singleton (by simp))).elim

end Below

theorem stops_walk_succ {depth : Nat} {id : NodeId} {node : Node} (hnode : p.node? id = some node) :
    p.Stops (p.walkWithin (depth + 1) id) ↔ p.Stops ((p.layout node).flatMap (Piece.acts (p.walkWithin depth))) := by
  have hfound : (Act.enter id).Resolves p := ⟨node, hnode⟩
  simp [walkWithin, hnode, stops_cons, hfound]

theorem walk_sameUntil {depth deeper : Nat} {id : NodeId} (h : p.Stops (p.walkWithin depth id)) (hle : depth ≤ deeper) :
    SameUntil (Act.Resolves p) (p.walkWithin depth id) (p.walkWithin deeper id) := by
  induction depth generalizing id deeper with
  | zero => exact absurd h not_stops_endless
  | succ depth ih =>
    obtain ⟨deeper, rfl⟩ := Nat.exists_eq_add_of_le' (Nat.le_of_add_left_le hle)
    cases hnode : p.node? id with
    | none =>
      rw [walkWithin, walkWithin, hnode]
      exact .refl _
    | some node =>
      have hsame := acts_sameUntil (fun b hb => ih hb (Nat.le_of_succ_le_succ hle)) ((stops_walk_succ hnode).mp h)
      simpa only [walkWithin, hnode, Option.map_some, Option.getD_some] using hsame.next

theorem stops_of_stops {depth : Nat} {id : NodeId} (h : p.Stops (p.walkWithin depth id)) :
    p.Stops (p.walkWithin (p.nodes.size + 1) id) := by
  have hmore {depth : Nat} {id : NodeId} (h : p.Stops (p.walkWithin depth id)) :
      SameUntil (Act.Resolves p) (p.walkWithin depth id) (p.walkWithin (depth + 1) id) :=
    walk_sameUntil h (Nat.le_succ depth)
  refine ends_of_ends (fun depth id => p.Stops (p.walkWithin depth id)) ?_ ?_ (fun _ => not_stops_endless) h
  · intro depth id h
    exact stops_of_sameUntil (hmore h) h
  · intro depth id hstops hcut
    cases hnode : p.node? id with
    | none =>
      rw [walkWithin, hnode] at hcut
      exact absurd (stops_singleton (by simp)) hcut
    | some node =>
      rw [stops_walk_succ hnode] at hstops hcut
      obtain ⟨b, hcutBelow, hstopsBelow⟩ := exists_cut (fun _ => hmore) hcut hstops
      exact ⟨⟨node, hnode⟩, b, hstopsBelow, hcutBelow⟩

/-! ## What is written -/

def storeSize (p : Program) : Ref → Nat
  | .node _ => p.nodes.size
  | .scope _ => p.scopes.size
  | .var _ => p.vars.size
  | .function _ => p.functions.size

theorem fetch_eq_error {α : Type} {store : Array α} {i : UInt32} (h : ¬ ∃ a, store[i.toNat]? = some a) :
    fetch store i = .error (.dangling store.size i.toNat) := by
  unfold fetch
  cases hpart : store[i.toNat]? with
  | none => rfl
  | some a => exact absurd ⟨a, hpart⟩ h

theorem fetchRef_of_not_hasRef {ref : Ref} (h : ¬ p.HasRef ref) :
    p.fetchRef ref = .error (.dangling (p.storeSize ref) ref.index.toNat) := by
  cases ref with
  | node id => exact congrArg (Except.map _) (fetch_eq_error h)
  | scope id => exact congrArg (Except.map _) (fetch_eq_error h)
  | var id => exact congrArg (Except.map _) (fetch_eq_error h)
  | function id => exact congrArg (Except.map _) (fetch_eq_error h)

section Written

variable {indent width : Nat}

theorem output_of_not_hasRef {act : Act} {ref : Ref} (hact : act.ref? = some ref) (h : ¬ p.HasRef ref) :
    act.output p indent width = .error (.dangling (p.storeSize ref) ref.index.toNat) := by
  cases act with
  | enter id =>
    cases hact
    rw [Act.output, fetchRef_of_not_hasRef h]
    rfl
  | look other =>
    cases hact
    rw [Act.output, fetchRef_of_not_hasRef h]
    rfl
  | _ => cases hact

/-- No line that the printer comes to begins too far to the right. -/
def Narrow (p : Program) (indent width : Nat) (acts : List Act) : Prop :=
  ∀ before level after, acts = before ++ .margin level :: after → (∀ act ∈ before, act.Resolves p) →
    indent + level * width ≤ maxIndent

theorem transcript_sameUntil {s t : List Act} (h : SameUntil (Act.Resolves p) s t) :
    transcript p indent width s = transcript p indent width t := by
  induction h with
  | nil => rfl
  | @stop act s t hbad =>
    obtain ⟨ref, hsome, href⟩ : ∃ ref, act.ref? = some ref ∧ ¬ p.HasRef ref := by
      simpa [Act.resolves_iff] using hbad
    rw [transcript, transcript, output_of_not_hasRef hsome href]
  | next _ ih => rw [transcript, transcript, ih]

theorem transcript_append {a : List Act} {text : String} (h : transcript p indent width a = ⟨text, none⟩)
    (b : List Act) : transcript p indent width (a ++ b) =
      ⟨text ++ (transcript p indent width b).text, (transcript p indent width b).fault⟩ := by
  induction a generalizing text with
  | nil =>
    cases h
    rw [List.nil_append, String.empty_append]
  | cons act a ih =>
    rw [transcript] at h
    rw [List.cons_append, transcript]
    cases hout : act.output p indent width with
    | error fault => rw [hout] at h; cases h
    | ok s =>
      rw [hout] at h
      obtain ⟨rfl, hfault⟩ := Transcript.mk.inj h
      have hrest : transcript p indent width a = ⟨(transcript p indent width a).text, none⟩ := by rw [← hfault]
      rw [ih hrest, String.append_assoc]

theorem transcript_of_resolves {done rest : List Act} (hstops : p.Stops (done ++ rest))
    (hnarrow : p.Narrow indent width (done ++ rest)) (hdone : ∀ act ∈ done, act.Resolves p) :
    transcript p indent width done = ⟨String.ofList (done.flatMap (Act.chars width indent)), none⟩ := by
  have hfault : (transcript p indent width done).fault = none := by
    apply transcript_fault_eq_none.mpr
    intro act hact
    obtain ⟨before, after, rfl⟩ := List.append_of_mem hact
    have hbefore : ∀ act ∈ before, act.Resolves p := fun act h => hdone act (List.mem_append_left _ h)
    rw [List.append_assoc, List.cons_append] at hstops hnarrow
    apply output_of_resolves (hdone act hact)
    · rintro rfl
      obtain ⟨other, hother, hbad⟩ := hstops before (after ++ rest) rfl
      exact hbad (hbefore other hother)
    · rintro level rfl
      exact hnarrow before level (after ++ rest) rfl hbefore
  have hwhole : transcript p indent width done = ⟨(transcript p indent width done).text, none⟩ := by rw [← hfault]
  rw [hwhole, ← transcript_text hwhole, String.ofList_toList]

end Written

end Program

/-- The sink of a printer that has written the text of some acts. -/
def Printer.sinkAfter (printer : Printer) (acts : List Act) : Sink :=
  { printer.sink with
      written := printer.sink.written ++ String.ofList (acts.flatMap (Act.chars printer.width printer.indent)) }

namespace Program

variable {p : Program}

theorem exists_acts_of_lookups {acts : List Act} {before after : List Ref} {ref : Ref}
    (h : acts.filterMap Act.ref? = before ++ ref :: after) : ∃ done act rest, acts = done ++ act :: rest ∧
      done.filterMap Act.ref? = before ∧ act.ref? = some ref := by
  obtain ⟨first, second, rfl, hfirst, hsecond⟩ := List.filterMap_eq_append_iff.mp h
  obtain ⟨silent, act, rest, rfl, hsilent, hact, -⟩ := List.filterMap_eq_cons_iff.mp hsecond
  refine ⟨first ++ silent, act, rest, by rw [List.append_assoc], ?_, hact⟩
  rw [List.filterMap_append, hfirst, List.filterMap_eq_nil_iff.mpr hsilent, List.append_nil]

section Printing

variable {depth : Nat} {id : NodeId} {printer : Printer} (hstops : p.Stops (p.walkWithin depth id))
  (hroom : printer.sink.room = none)

include hstops hroom

theorem print_eq {text : String} {fault : Option Fault}
    (h : transcript p printer.indent printer.width (p.walkWithin depth id) = ⟨text, fault⟩) :
    p.print id printer = (Transcript.mk text fault).leave printer
      (true, { printer.sink with written := printer.sink.written ++ text }) := by
  have hsame : transcript p printer.indent printer.width (p.walkWithin (p.nodes.size + 1) id) = ⟨text, fault⟩ := by
    rw [← h]
    rcases Nat.le_total depth (p.nodes.size + 1) with hle | hle
    · exact (transcript_sameUntil (walk_sameUntil hstops hle)).symm
    · exact transcript_sameUntil (walk_sameUntil (stops_of_stops hstops) hle)
  rw [print, printWithin_run, hsame, Print.deliver_run]
  simp only [Sink.write, hroom]

variable (hnarrow : p.Narrow printer.indent printer.width (p.walkWithin depth id))

include hnarrow

theorem print_of_found (h : ∀ ref ∈ p.lookupsWithin depth id, p.HasRef ref) :
    p.print id printer = .ok (.ok (), { printer with sink := printer.sinkAfter (p.walkWithin depth id) }) := by
  have hwalk := List.append_nil (p.walkWithin depth id)
  have hdone : ∀ act ∈ p.walkWithin depth id, act.Resolves p :=
    forall_resolves_iff.mpr ((lookups_sameUntil depth id).forall_iff.mp h)
  exact print_eq hstops hroom (transcript_of_resolves (hwalk.symm ▸ hstops) (hwalk.symm ▸ hnarrow) hdone)

theorem print_of_missing {before after : List Ref} {ref : Ref} (hsplit : p.lookupsWithin depth id = before ++ ref :: after)
    (hbefore : ∀ found ∈ before, p.HasRef found) (href : ¬ p.HasRef ref) :
    ∃ done act rest, p.walkWithin depth id = done ++ act :: rest ∧ done.filterMap Act.ref? = before ∧
      act.ref? = some ref ∧
      p.print id printer = .error ⟨.dangling (p.storeSize ref) ref.index.toNat, printer.sinkAfter done⟩ := by
  obtain ⟨later, hrefs⟩ := (lookups_sameUntil depth id).split hsplit hbefore
  obtain ⟨done, act, rest, hwalk, rfl, hact⟩ := exists_acts_of_lookups hrefs
  refine ⟨done, act, rest, hwalk, rfl, hact, ?_⟩
  have hrest : transcript p printer.indent printer.width (act :: rest) =
      ⟨"", some (.dangling (p.storeSize ref) ref.index.toNat)⟩ := by
    rw [transcript, output_of_not_hasRef hact href]
  have hdone := transcript_of_resolves (hwalk ▸ hstops) (hwalk ▸ hnarrow) (forall_resolves_iff.mpr hbefore)
  have hwhole := transcript_append hdone (act :: rest)
  rw [hrest, String.append_empty, ← hwalk] at hwhole
  exact print_eq hstops hroom hwhole

end Printing

theorem exists_first_missing {refs : List Ref} (h : ¬ ∀ ref ∈ refs, p.HasRef ref) : ∃ before ref after,
    refs = before ++ ref :: after ∧ (∀ found ∈ before, p.HasRef found) ∧ ¬ p.HasRef ref := by
  classical
  cases hfind : refs.find? (fun ref => ¬ p.HasRef ref) with
  | none =>
    refine absurd (fun ref href => ?_) h
    simpa using List.find?_eq_none.mp hfind ref href
  | some ref =>
    obtain ⟨hmissing, before, after, hsplit, hbefore⟩ := List.find?_eq_some_iff_append.mp hfind
    exact ⟨before, ref, after, hsplit, by simpa using hbefore, by simpa using hmissing⟩

/-- Whether a program has been checked or not, a node of it is printed to its end exactly if every id that is looked up on
the way leads somewhere. If not, the printer fails at the first that does not, with the length of the store and the index
that it looked up, and it has written the text of the walk up to there and nothing else. The walk need not end behind that
id, and only the lines before it have to keep within the limit. -/
theorem print_stops_at_first_missing {depth : Nat} {id : NodeId} {printer : Printer}
    (hstops : p.Stops (p.walkWithin depth id)) (hroom : printer.sink.room = none)
    (hnarrow : p.Narrow printer.indent printer.width (p.walkWithin depth id)) :
    ((∃ after, p.print id printer = .ok (.ok (), after)) ↔ ∀ ref ∈ p.lookupsWithin depth id, p.HasRef ref) ∧
    ((∀ ref ∈ p.lookupsWithin depth id, p.HasRef ref) →
      p.print id printer = .ok (.ok (), { printer with sink := printer.sinkAfter (p.walkWithin depth id) })) ∧
    ∀ before ref after, p.lookupsWithin depth id = before ++ ref :: after → (∀ found ∈ before, p.HasRef found) →
      ¬ p.HasRef ref → ∃ done act rest, p.walkWithin depth id = done ++ act :: rest ∧
        done.filterMap Act.ref? = before ∧ act.ref? = some ref ∧
        p.print id printer = .error ⟨.dangling (p.storeSize ref) ref.index.toNat, printer.sinkAfter done⟩ := by
  have hmissing := @print_of_missing p depth id printer hstops hroom hnarrow
  refine ⟨⟨?_, fun h => ⟨_, print_of_found hstops hroom hnarrow h⟩⟩, print_of_found hstops hroom hnarrow,
    fun _ _ _ => hmissing⟩
  rintro ⟨after, hprint⟩
  by_contra hnot
  obtain ⟨before, ref, behind, hsplit, hbefore, href⟩ := exists_first_missing hnot
  obtain ⟨_, _, _, -, -, -, hrun⟩ := hmissing hsplit hbefore href
  rw [hrun] at hprint
  cases hprint

/-- A block whose first statement prints a node that is not there, and whose second is the block itself. -/
theorem print_stops_at_first_missing_cyclic :
    let p : Program :=
      { nodes := #[.block ⟨0⟩ [⟨1⟩, ⟨0⟩], .print [⟨2⟩, ⟨7⟩], .load ⟨0⟩]
        scopes := #[{ vars := [⟨0⟩] }]
        vars := #[⟨"x", .int⟩]
        functions := #[]
        root := ⟨0⟩ }
    p.Stops (p.walkWithin 3 ⟨0⟩) ∧ .endless ∈ p.walkWithin 3 ⟨0⟩ ∧
      ∃ done, p.print ⟨0⟩ (Printer.start 2) = .error ⟨.dangling 3 7, (Printer.start 2).sinkAfter done⟩ ∧
        ((Printer.start 2).sinkAfter done).written = "int x;\nprint(x, " := by
  intro p
  have hwalk : p.walkWithin 3 ⟨0⟩ =
      (p.walkWithin 3 ⟨0⟩).take 13 ++ .enter ⟨7⟩ :: (p.walkWithin 3 ⟨0⟩).drop 14 := by decide +kernel
  have hmissing : ¬ p.HasRef (.node ⟨7⟩) := by
    rintro ⟨node, hnode⟩
    cases hnode
  have hstops : p.Stops (p.walkWithin 3 ⟨0⟩) := by
    rw [hwalk, stops_append]
    refine ⟨fun before after hsplit => ?_, fun _ => stops_cons.mpr (.inl hmissing)⟩
    have hend : .endless ∉ (p.walkWithin 3 ⟨0⟩).take 13 := by decide +kernel
    exact absurd (hsplit ▸ List.mem_append_right _ List.mem_cons_self) hend
  have hnarrow : p.Narrow 0 2 (p.walkWithin 3 ⟨0⟩) := by
    intro before level after hsplit _
    -- Only a margin is changed by going deeper.
    have hlevels : ∀ act ∈ p.walkWithin 3 ⟨0⟩, act = .margin 0 ∨ act.deeper = act := by decide +kernel
    rcases hlevels (.margin level) (hsplit ▸ List.mem_append_right _ List.mem_cons_self) with hlevel | hlevel
    · cases hlevel
      decide
    · simp [Act.deeper] at hlevel
  have hlookups : p.lookupsWithin 3 ⟨0⟩ = [.node ⟨0⟩, .scope ⟨0⟩, .var ⟨0⟩, .node ⟨1⟩, .node ⟨2⟩, .var ⟨0⟩] ++
      .node ⟨7⟩ :: (p.lookupsWithin 3 ⟨0⟩).drop 7 := by decide +kernel
  have hprint := @print_stops_at_first_missing p 3 ⟨0⟩ (Printer.start 2) hstops rfl hnarrow
  obtain ⟨done, act, rest, -, -, -, hrun⟩ := hprint.2.2 _ _ _ hlookups
    (by simp [HasRef, HasNode, HasScope, HasVar, node?, scope?, var?, p]) hmissing
  have hbroken : p.print ⟨0⟩ (Printer.start 2) = .error ⟨.dangling 3 7, ⟨"int x;\nprint(x, ", none⟩⟩ := by
    decide +kernel
  refine ⟨hstops, by decide +kernel, done, hrun, ?_⟩
  have hsink := congrArg Break.sink (Except.error.inj (hrun.symm.trans hbroken))
  exact congrArg Sink.written hsink

end Program

end Canon
