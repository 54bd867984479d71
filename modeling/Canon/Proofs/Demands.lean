import Canon.Proofs.Blame
import Canon.Proofs.Search

/-!
# The order of the checks

What validation asks of a program is laid out as a list of demands, in the order in which they are asked. Whether a demand
is met depends on the program, and for what may be there only once on the demands before it. Validation names the first
demand that is not met, and everything before it has been met.
-/

namespace Canon

inductive Demand where
  | node (id : NodeId)
  | scope (id : ScopeId)
  | var (id : VarId)
  | function (id : FunctionId)
  | block (id : NodeId)
  /-- The node hangs here, and nowhere before. -/
  | place (id : NodeId)
  /-- The scope is owned here, and nowhere before. -/
  | owner (id : ScopeId)
  /-- The function is declared here, and nowhere before. -/
  | declaration (id : FunctionId)
  /-- The function is not declared below the body. -/
  | outside (f : FunctionId) (body : NodeId)
  deriving DecidableEq, Repr

/-! ## The list of demands -/

def Node.demands (node : Node) : List Demand :=
  node.children.map .node ++ (node.scopes.map .scope ++ (node.vars.map .var ++ node.bodies.map .block)) ++
    node.children.map .place

def Scope.demands (scope : Scope) : List Demand :=
  scope.parent.toList.map .scope ++ (scope.vars.map .var ++ scope.functions.map .function)

def FunctionDecl.demands (function : FunctionDecl) : List Demand :=
  function.bodies.map .block ++ function.bodies.map .place

namespace Program

def searchDemands (functions : List (FunctionDecl × Nat)) : List Demand :=
  functions.flatMap fun (function, i) => function.bodies.map (.outside (.ofIndex i))

def linkDemands (p : Program) : List Demand :=
  [.block p.root, .place p.root] ++ (p.nodes.toList.flatMap Node.demands ++ (p.scopes.toList.flatMap Scope.demands ++
    (p.functions.toList.flatMap FunctionDecl.demands ++ (p.ownerships.map .owner ++ p.declarations.map .declaration))))

/-- All that is asked: of the root; of every node, that its children are there, then its scope or variable, that its
bodies are blocks, and that its children hang nowhere before; of every scope; of the bodies of functions; of who owns and
declares what; and of what is declared below the bodies. -/
def demands (p : Program) : List Demand := p.linkDemands ++ searchDemands p.functions.toList.zipIdx

end Program

/-! ## Demands that are met -/

/-- A demand is not met, if the others have been asked before, and that is the defect. -/
def Demand.Breaks (p : Program) (asked : List Demand) : Demand → Defect → Prop
  | .node id, d => ¬ p.HasNode id ∧ d = .missingNode id
  | .scope id, d => ¬ p.HasScope id ∧ d = .missingScope id
  | .var id, d => ¬ p.HasVar id ∧ d = .missingVar id
  | .function id, d => ¬ p.HasFunction id ∧ d = .missingFunction id
  | .block id, d => (¬ p.HasNode id ∧ d = .missingNode id) ∨ (p.HasNode id ∧ ¬ p.HasBlock id ∧ d = .notABlock id)
  | .place id, d => .place id ∈ asked ∧ d = .sharedNode id
  | .owner id, d => .owner id ∈ asked ∧ d = .sharedScope id
  | .declaration id, d => .declaration id ∈ asked ∧ d = .sharedFunction id
  | .outside f body, d => p.DeclaresBelow body f ∧ d = .selfDeclaring f

def Demand.Met (p : Program) (asked : List Demand) (demand : Demand) : Prop := ∀ d, ¬ demand.Breaks p asked d

/-- Each of the demands is met when it is asked, after the others and those ahead of it. -/
def AllMet (p : Program) (asked : List Demand) (demands : List Demand) : Prop :=
  ∀ before demand after, demands = before ++ demand :: after → demand.Met p (asked ++ before)

/-- The first of the demands that is not met is broken by this defect. -/
def FirstBroken (p : Program) (asked : List Demand) (demands : List Demand) (d : Defect) : Prop :=
  ∃ before demand after, demands = before ++ demand :: after ∧ AllMet p asked before ∧
    demand.Breaks p (asked ++ before) d

section Demands

variable {p : Program} {asked : List Demand}

theorem Demand.Breaks.unique {demand : Demand} {d d' : Defect} (h : demand.Breaks p asked d)
    (h' : demand.Breaks p asked d') : d = d' := by
  cases demand with
  | block id =>
    rcases h with ⟨hnone, rfl⟩ | ⟨hnode, -, rfl⟩ <;> rcases h' with ⟨hnone', rfl⟩ | ⟨hnode', -, rfl⟩
    · rfl
    · exact absurd hnode' hnone
    · exact absurd hnode hnone'
    · rfl
  | _ => exact h.2.trans h'.2.symm

theorem allMet_nil : AllMet p asked [] := by
  intro before demand after h
  cases before <;> cases h

theorem allMet_cons {demand : Demand} {demands : List Demand} :
    AllMet p asked (demand :: demands) ↔ demand.Met p asked ∧ AllMet p (asked ++ [demand]) demands := by
  constructor
  · intro h
    refine ⟨by simpa using h [] demand demands rfl, fun before other after hsplit => ?_⟩
    simpa using h (demand :: before) other after (by rw [hsplit]; rfl)
  · rintro ⟨hfirst, hrest⟩ before other after hsplit
    cases before with
    | nil =>
      cases hsplit
      simpa using hfirst
    | cons first before =>
      cases hsplit
      simpa using hrest before other after rfl

theorem allMet_append {a b : List Demand} :
    AllMet p asked (a ++ b) ↔ AllMet p asked a ∧ AllMet p (asked ++ a) b := by
  induction a generalizing asked with
  | nil => simp [allMet_nil]
  | cons demand a ih => rw [List.cons_append, allMet_cons, allMet_cons, ih, and_assoc, List.append_assoc]; rfl

theorem FirstBroken.append_right {a : List Demand} {d : Defect} (h : FirstBroken p asked a d) (b : List Demand) :
    FirstBroken p asked (a ++ b) d := by
  obtain ⟨before, demand, after, rfl, hbefore, hbreaks⟩ := h
  exact ⟨before, demand, after ++ b, by simp, hbefore, hbreaks⟩

theorem FirstBroken.append_left {a b : List Demand} {d : Defect} (ha : AllMet p asked a)
    (h : FirstBroken p (asked ++ a) b d) : FirstBroken p asked (a ++ b) d := by
  obtain ⟨before, demand, after, rfl, hbefore, hbreaks⟩ := h
  exact ⟨a ++ before, demand, after, by simp, allMet_append.mpr ⟨ha, hbefore⟩, by rwa [← List.append_assoc]⟩

theorem FirstBroken.not_allMet {demands : List Demand} {d : Defect} (h : FirstBroken p asked demands d) :
    ¬ AllMet p asked demands := by
  obtain ⟨before, demand, after, hsplit, -, hbreaks⟩ := h
  exact fun hall => hall before demand after hsplit d hbreaks

theorem firstBroken_cons {demand : Demand} {demands : List Demand} {d : Defect} :
    FirstBroken p asked (demand :: demands) d ↔
      demand.Breaks p asked d ∨ demand.Met p asked ∧ FirstBroken p (asked ++ [demand]) demands d := by
  constructor
  · rintro ⟨before, broken, after, hsplit, hbefore, hbreaks⟩
    cases before with
    | nil =>
      cases hsplit
      exact .inl (by simpa using hbreaks)
    | cons first before =>
      cases hsplit
      obtain ⟨hfirst, hbefore⟩ := allMet_cons.mp hbefore
      exact .inr ⟨hfirst, before, broken, after, rfl, hbefore, by simpa using hbreaks⟩
  · rintro (hbreaks | ⟨hmet, before, broken, after, rfl, hbefore, hbreaks⟩)
    · exact ⟨[], demand, demands, rfl, allMet_nil, by simpa using hbreaks⟩
    · exact ⟨demand :: before, broken, after, rfl, allMet_cons.mpr ⟨hmet, hbefore⟩, by simpa using hbreaks⟩

theorem FirstBroken.unique {demands : List Demand} {d d' : Defect} (h : FirstBroken p asked demands d)
    (h' : FirstBroken p asked demands d') : d = d' := by
  induction demands generalizing asked with
  | nil =>
    obtain ⟨before, demand, after, hsplit, -⟩ := h
    cases before <;> cases hsplit
  | cons demand demands ih =>
    rcases firstBroken_cons.mp h with hbreaks | ⟨hmet, hrest⟩ <;>
      rcases firstBroken_cons.mp h' with hbreaks' | ⟨hmet', hrest'⟩
    · exact hbreaks.unique hbreaks'
    · exact absurd hbreaks (hmet' d)
    · exact absurd hbreaks' (hmet d')
    · exact ih hrest hrest'

end Demands

/-! ## Checks in the order of demands -/

/-- A check asks what is demanded in this order: it passes when all of it is met, and names what is not met first. -/
structure Check.Asks {α : Type} (x : Check α) (p : Program) (asked demands : List Demand) : Prop where
  passes : ∀ a, x = .ok a → AllMet p asked demands
  names : ∀ d, x = .error (.defect d) → FirstBroken p asked demands d

namespace Check

variable {α β : Type} {p : Program} {asked demands more : List Demand}

theorem asks_pure (a : α) : Asks (.ok a : Check α) p asked [] := ⟨fun _ _ => allMet_nil, fun d h => by cases h⟩

theorem Asks.bind {x : Check α} {f : α → Check β} (hx : x.Asks p asked demands)
    (hf : ∀ a, x = .ok a → (f a).Asks p (asked ++ demands) more) : (x >>= f).Asks p asked (demands ++ more) := by
  cases x with
  | error rejection =>
    refine ⟨fun b h => (by cases h), fun d h => ?_⟩
    cases h
    exact (hx.names d rfl).append_right more
  | ok a =>
    have hfirst := hx.passes a rfl
    have hrest := hf a rfl
    exact ⟨fun b h => allMet_append.mpr ⟨hfirst, hrest.passes b h⟩, fun d h => .append_left hfirst (hrest.names d h)⟩

theorem asks_one {x : Check α} {demand : Demand} (hok : ∀ a, x = .ok a → demand.Met p asked)
    (herror : ∀ d, x = .error (.defect d) → demand.Breaks p asked d) : x.Asks p asked [demand] := by
  refine ⟨fun a h => allMet_cons.mpr ⟨hok a h, allMet_nil⟩, fun d h => ?_⟩
  exact firstBroken_cons.mpr (.inl (herror d h))

theorem asks_expect {part : Option α} {demand : Demand} {d : Defect}
    (hbreaks : ∀ d', demand.Breaks p asked d' ↔ (¬ ∃ a, part = some a) ∧ d' = d) :
    Asks (if part.isSome then pure () else reject d : Check Unit) p asked [demand] := by
  cases part with
  | none =>
    refine asks_one (fun a h => by cases h) fun d' h => ?_
    cases h
    exact (hbreaks d).mpr ⟨by simp, rfl⟩
  | some a =>
    refine asks_one (fun _ _ d' h => ?_) (fun d' h => by cases h)
    exact ((hbreaks d').mp h).1 ⟨a, rfl⟩

theorem asks_forM {l : List α} {f : α → Check Unit} {demands : α → List Demand}
    (h : ∀ a ∈ l, ∀ asked, (f a).Asks p asked (demands a)) : (l.forM f).Asks p asked (l.flatMap demands) := by
  rw [List.forM_eq_forM]
  induction l generalizing asked with
  | nil => exact asks_pure ()
  | cons a l ih =>
    obtain ⟨ha, hl⟩ := List.forall_mem_cons.mp h
    rw [List.forM_cons, List.flatMap_cons]
    exact (ha asked).bind fun _ _ => ih hl

theorem asks_forM_map {l : List α} {f : α → Check Unit} {demand : α → Demand}
    (h : ∀ a asked, (f a).Asks p asked [demand a]) : (l.forM f).Asks p asked (l.map demand) := by
  rw [List.map_eq_flatMap]
  exact asks_forM fun a _ asked => h a asked

end Check

open Check

/-! ## Claims -/

section Claims

variable {ι : Type} {index : ι → UInt32} {shared : ι → Defect} {claim : ι → Demand}
variable {p : Program} {asked : List Demand} {size : Nat} {seen : List UInt32}

/-- A kind of demand that asks that an id has not been claimed before. -/
structure IsClaim (p : Program) (index : ι → UInt32) (shared : ι → Defect) (claim : ι → Demand) : Prop where
  index_injective : Function.Injective index
  claim_injective : Function.Injective claim
  breaks : ∀ asked id d, (claim id).Breaks p asked d ↔ claim id ∈ asked ∧ d = shared id

/-- The marks are set for what has been claimed. -/
def Tracks (index : ι → UInt32) (claim : ι → Demand) (seen : List UInt32) (asked : List Demand) : Prop :=
  ∀ id, index id ∈ seen ↔ claim id ∈ asked

theorem Tracks.append (hinj : Function.Injective index) (h : Tracks index claim seen asked) {ids : List ι}
    {demands : List Demand} (hids : ∀ id, id ∈ ids ↔ claim id ∈ demands) :
    Tracks index claim (seen ++ ids.map index) (asked ++ demands) := by
  intro id
  rw [List.mem_append, List.mem_append, List.mem_map_of_injective hinj, h id, hids id]

theorem Tracks.skip (h : Tracks index claim seen asked) {demands : List Demand} (hdemands : ∀ id, claim id ∉ demands) :
    Tracks index claim seen (asked ++ demands) := by
  intro id
  simp [h id, hdemands id]

theorem tracks_nil (hasked : ∀ id, claim id ∉ asked) : Tracks index claim [] asked := by
  intro id
  simp [hasked id]

theorem IsClaim.claim_asks (hclaim : IsClaim p index shared claim) (h : Tracks index claim seen asked) (id : ι) :
    ((Marks.after size seen).claim (index id) (shared id)).Asks p asked [claim id] := by
  rw [Marks.claim_after]
  split
  · split
    · rename_i hseen
      refine asks_one (fun m hm => by cases hm) fun d hd => ?_
      cases hd
      exact (hclaim.breaks asked id _).mpr ⟨(h id).mp hseen, rfl⟩
    · rename_i hseen
      refine asks_one (fun m _ d hd => ?_) (fun d hd => by cases hd)
      exact hseen ((h id).mpr ((hclaim.breaks asked id d).mp hd).1)
  · exact asks_one (fun m hm => by cases hm) (fun d hd => by cases hd)

theorem IsClaim.foldlM_asks {α : Type} (hclaim : IsClaim p index shared claim) {step : Marks → α → Check Marks}
    {ids : α → List ι} {demands : α → List Demand} {good : α → Prop}
    (hstep : ∀ seen a m, step (.after size seen) a = .ok m ↔
      (good a ∧ Marks.Fresh size seen ((ids a).map index)) ∧ m = .after size (seen ++ (ids a).map index))
    (hdemands : ∀ a id, id ∈ ids a ↔ claim id ∈ demands a) {l : List α}
    (hasks : ∀ a ∈ l, ∀ seen asked, Tracks index claim seen asked → (step (.after size seen) a).Asks p asked (demands a))
    (h : Tracks index claim seen asked) : (l.foldlM step (.after size seen)).Asks p asked (l.flatMap demands) := by
  induction l generalizing seen asked with
  | nil => exact asks_pure _
  | cons a l ih =>
    obtain ⟨ha, hl⟩ := List.forall_mem_cons.mp hasks
    rw [List.foldlM_cons, List.flatMap_cons]
    refine (ha seen asked h).bind fun m hm => ?_
    obtain ⟨-, rfl⟩ := (hstep seen a m).mp hm
    exact ih hl (h.append hclaim.index_injective (hdemands a))

theorem IsClaim.claims_asks (hclaim : IsClaim p index shared claim) (h : Tracks index claim seen asked) (l : List ι) :
    (l.foldlM (fun (marks : Marks) id => marks.claim (index id) (shared id)) (.after size seen)).Asks p asked
      (l.map claim) := by
  have hstep : ∀ seen a m, (Marks.after size seen).claim (index a) (shared a) = .ok m ↔
      (True ∧ Marks.Fresh size seen ([a].map index)) ∧ m = .after size (seen ++ [a].map index) := by
    simp [Marks.claim_eq_ok]
  rw [List.map_eq_flatMap]
  refine hclaim.foldlM_asks hstep (fun a id => ?_) (fun a _ seen asked h => hclaim.claim_asks h a) h
  simp [hclaim.claim_injective.eq_iff]

end Claims

namespace Program

variable {p : Program} {asked : List Demand}

theorem place_isClaim : IsClaim p NodeId.index .sharedNode .place :=
  ⟨NodeId.index_injective, fun _ _ h => Demand.place.inj h, fun _ _ _ => Iff.rfl⟩

theorem owner_isClaim : IsClaim p ScopeId.index .sharedScope .owner :=
  ⟨ScopeId.index_injective, fun _ _ h => Demand.owner.inj h, fun _ _ _ => Iff.rfl⟩

theorem declaration_isClaim : IsClaim p FunctionId.index .sharedFunction .declaration :=
  ⟨FunctionId.index_injective, fun _ _ h => Demand.declaration.inj h, fun _ _ _ => Iff.rfl⟩

/-! ## References -/

theorem expectNode_asks (id : NodeId) (asked : List Demand) : (p.expectNode id).Asks p asked [.node id] :=
  asks_expect fun _ => Iff.rfl

theorem expectScope_asks (id : ScopeId) (asked : List Demand) : (p.expectScope id).Asks p asked [.scope id] :=
  asks_expect fun _ => Iff.rfl

theorem expectVar_asks (id : VarId) (asked : List Demand) : (p.expectVar id).Asks p asked [.var id] :=
  asks_expect fun _ => Iff.rfl

theorem expectFunction_asks (id : FunctionId) (asked : List Demand) : (p.expectFunction id).Asks p asked [.function id] :=
  asks_expect fun _ => Iff.rfl

theorem expectBlock_asks (id : NodeId) (asked : List Demand) : (p.expectBlock id).Asks p asked [.block id] := by
  refine asks_one (fun _ h d hd => ?_) fun d h => ?_
  · have hblock := expectBlock_eq_ok.mp h
    rcases hd with ⟨hnone, -⟩ | ⟨-, hnone, -⟩
    · exact hnone hblock.hasNode
    · exact hnone hblock
  · have hblock : ¬ p.HasBlock id := by
      intro hblock
      rw [expectBlock_eq_ok.mpr hblock] at h
      cases h
    unfold expectBlock at h
    cases hnode : p.node? id with
    | none =>
      simp only [hnode] at h
      cases h
      exact .inl ⟨by simp [HasNode, hnode], rfl⟩
    | some node =>
      simp only [hnode] at h
      split at h
      · cases h
      · cases h
        exact .inr ⟨⟨node, hnode⟩, hblock, rfl⟩

theorem checkReferences_asks (node : Node) (asked : List Demand) : (p.checkReferences node).Asks p asked
    (node.children.map .node ++ (node.scopes.map .scope ++ (node.vars.map .var ++ node.bodies.map .block))) := by
  unfold checkReferences
  refine (asks_forM_map expectNode_asks).bind fun _ _ => ?_
  cases node with
  | block scope stmts => exact expectScope_asks scope _
  | store var op value => exact expectVar_asks var _
  | load var => exact expectVar_asks var _
  | forIn var range body => exact (expectVar_asks var _).bind fun _ _ => expectBlock_asks body _
  | whileLoop cond body => exact expectBlock_asks body _
  | ifElse cond thenBlock elseBlock =>
    exact (expectBlock_asks thenBlock _).bind fun _ _ => asks_forM_map expectBlock_asks
  | _ => exact asks_pure ()

theorem checkScope_asks (scope : Scope) (asked : List Demand) : (p.checkScope scope).Asks p asked scope.demands := by
  unfold checkScope
  refine (asks_forM_map expectScope_asks).bind fun _ _ => ?_
  refine (asks_forM_map expectVar_asks).bind fun _ _ => ?_
  exact asks_forM_map expectFunction_asks

/-! ## Passes -/

section Passes

variable {size : Nat} {seen : List UInt32}

theorem place_mem_demands (node : Node) (id : NodeId) : id ∈ node.children ↔ .place id ∈ node.demands := by
  simp [Node.demands]

theorem place_mem_bodies (function : FunctionDecl) (id : NodeId) :
    id ∈ function.bodies ↔ .place id ∈ function.demands := by
  simp [FunctionDecl.demands]

theorem checkNode_asks (node : Node) (h : Tracks NodeId.index .place seen asked) :
    (p.checkNode (.after p.nodes.size seen) node).Asks p asked node.demands := by
  unfold checkNode Node.demands
  refine (checkReferences_asks node asked).bind fun _ _ => place_isClaim.claims_asks ?_ node.children
  simpa [Tracks] using h

theorem checkBody_asks (function : FunctionDecl) (h : Tracks NodeId.index .place seen asked) :
    (p.checkBody (.after p.nodes.size seen) function).Asks p asked function.demands := by
  unfold checkBody FunctionDecl.demands FunctionDecl.bodies
  cases function.body with
  | native symbol => exact asks_pure _
  | block body =>
    refine (expectBlock_asks body asked).bind fun _ _ => place_isClaim.claim_asks ?_ body
    simpa [Tracks] using h

theorem claimScope_asks (node : Node) (h : Tracks ScopeId.index .owner seen asked) :
    (claimScope (.after size seen) node).Asks p asked (node.scopes.map .owner) := by
  cases node with
  | block scope stmts => exact owner_isClaim.claim_asks h scope
  | _ => exact asks_pure _

theorem claimFunctions_asks (scope : Scope) (h : Tracks FunctionId.index .declaration seen asked) :
    (claimFunctions (.after size seen) scope).Asks p asked (scope.functions.map .declaration) :=
  declaration_isClaim.claims_asks h scope.functions

theorem nodes_asks (h : Tracks NodeId.index .place seen asked) :
    (p.nodes.toList.foldlM p.checkNode (.after p.nodes.size seen)).Asks p asked (p.nodes.toList.flatMap Node.demands) :=
  place_isClaim.foldlM_asks (fun seen node m => checkNode_eq_ok seen node m) place_mem_demands
    (fun node _ _ _ h => checkNode_asks node h) h

theorem bodies_asks (h : Tracks NodeId.index .place seen asked) :
    (p.functions.toList.foldlM p.checkBody (.after p.nodes.size seen)).Asks p asked
      (p.functions.toList.flatMap FunctionDecl.demands) :=
  place_isClaim.foldlM_asks (fun seen function m => checkBody_eq_ok seen function m) place_mem_bodies
    (fun function _ _ _ h => checkBody_asks function h) h

theorem owners_asks (h : Tracks ScopeId.index .owner seen asked) :
    (p.nodes.toList.foldlM claimScope (.after size seen)).Asks p asked (p.ownerships.map .owner) := by
  rw [ownerships, List.map_flatMap]
  exact owner_isClaim.foldlM_asks (fun seen node m => claimScope_eq_ok seen node m) (by simp)
    (fun node _ _ _ h => claimScope_asks node h) h

theorem declarations_asks (h : Tracks FunctionId.index .declaration seen asked) :
    (p.scopes.toList.foldlM claimFunctions (.after size seen)).Asks p asked (p.declarations.map .declaration) := by
  rw [declarations, List.map_flatMap]
  exact declaration_isClaim.foldlM_asks (fun seen scope m => claimFunctions_eq_ok seen scope m) (by simp)
    (fun scope _ _ _ h => claimFunctions_asks scope h) h

end Passes

/-! ## The whole program -/

theorem link_asks : p.link.Asks p [] p.linkDemands := by
  unfold link linkDemands claimNode
  simp only [← Marks.after_nil]
  refine (expectBlock_asks p.root []).bind fun _ _ => ?_
  have hroot : Tracks NodeId.index .place [] ([] ++ [.block p.root]) := tracks_nil (by simp)
  refine (place_isClaim.claim_asks hroot p.root).bind fun _ hclaim => ?_
  obtain ⟨-, rfl⟩ := Marks.claim_eq_ok.mp hclaim
  have hplaced : Tracks NodeId.index .place ([] ++ [p.root].map NodeId.index)
      ([] ++ [.block p.root] ++ [.place p.root]) := hroot.append NodeId.index_injective (by simp)
  refine (nodes_asks hplaced).bind fun _ hpass => ?_
  obtain ⟨-, rfl⟩ := (Marks.foldlM_eq_ok _ _ _ checkNode_eq_ok _ _ _).mp hpass
  have hchildren : ∀ id, id ∈ p.nodes.toList.flatMap Node.children ↔ .place id ∈ p.nodes.toList.flatMap Node.demands := by
    simp [place_mem_demands]
  refine (asks_forM fun scope _ asked => checkScope_asks scope asked).bind fun _ _ => ?_
  have hscopes : ∀ id, .place id ∉ p.scopes.toList.flatMap Scope.demands := by simp [Scope.demands]
  refine (bodies_asks ((hplaced.append NodeId.index_injective hchildren).skip hscopes)).bind fun _ _ => ?_
  -- Nothing has been asked about owners and declarations so far.
  refine (owners_asks (tracks_nil ?_)).bind fun _ _ => ?_
  · simp [Node.demands, Scope.demands, FunctionDecl.demands]
  rw [← List.append_nil (p.declarations.map _)]
  refine (declarations_asks (tracks_nil ?_)).bind fun _ _ => asks_pure ()
  simp [Node.demands, Scope.demands, FunctionDecl.demands]

theorem checkSelfDeclaration_asks (hlinked : p.Linked) {i : Nat} {function : FunctionDecl}
    (hi : p.functions.toList[i]? = some function) (asked : List Demand) :
    (p.checkSelfDeclaration (.ofIndex i) function).Asks p asked (function.bodies.map (.outside (.ofIndex i))) := by
  cases hbody : function.body with
  | native symbol =>
    simp only [checkSelfDeclaration, FunctionDecl.bodies, hbody]
    exact asks_pure ()
  | block body =>
    obtain ⟨found, hiff, hcheck⟩ := checkSelfDeclaration_of_block hlinked (List.mem_of_getElem? hi) hbody (.ofIndex i)
    simp only [FunctionDecl.bodies, hbody, hcheck, List.map_singleton]
    cases found with
    | false =>
      refine asks_one (fun _ _ d hd => ?_) (fun d h => by cases h)
      exact absurd (hiff.mpr hd.1) Bool.false_ne_true
    | true =>
      refine asks_one (fun _ h => by cases h) fun d h => ?_
      cases h
      exact ⟨hiff.mp rfl, rfl⟩

theorem searchAll_asks (hlinked : p.Linked) (asked : List Demand) :
    (p.searchAll p.functions.toList.zipIdx).Asks p asked (searchDemands p.functions.toList.zipIdx) := by
  unfold searchAll searchDemands
  refine asks_forM fun part hpart asked => ?_
  obtain ⟨function, i⟩ := part
  exact checkSelfDeclaration_asks hlinked (List.mem_zipIdx_iff_getElem?.mp hpart) asked

theorem validate_asks (p : Program) : p.validate.Asks p [] p.demands := by
  rw [validate_eq_link, demands]
  exact link_asks.bind fun _ hlink => searchAll_asks (linked_of_link hlink) _

theorem validate_eq_ok_iff_allMet : p.validate = .ok () ↔ AllMet p [] p.demands := by
  refine ⟨(validate_asks p).passes (), fun h => ?_⟩
  cases hvalid : p.validate with
  | ok _ => rfl
  | error rejection =>
    cases rejection with
    | defect d => exact absurd h ((validate_asks p).names d hvalid).not_allMet
    | fault fault => exact absurd hvalid (validate_faultless p fault)

theorem validate_eq_error_iff {d : Defect} : p.validate = .error (.defect d) ↔ FirstBroken p [] p.demands d := by
  refine ⟨(validate_asks p).names d, fun h => ?_⟩
  cases hvalid : p.validate with
  | ok _ => exact absurd ((validate_asks p).passes () hvalid) h.not_allMet
  | error rejection =>
    cases rejection with
    | defect d' => rw [h.unique ((validate_asks p).names d' hvalid)]
    | fault fault => exact absurd hvalid (validate_faultless p fault)

/-- A scope has two blocks as its owners. -/
def OwnedTwice (p : Program) (id : ScopeId) : Prop :=
  ∃ (i j : Nat) (stmts others : List NodeId), i < j ∧ p.nodes[i]? = some (.block id stmts) ∧
    p.nodes[j]? = some (.block id others)

theorem exists_block_of_mem_scopes {node : Node} {id : ScopeId} (h : id ∈ node.scopes) :
    ∃ stmts, node = .block id stmts := by
  cases node with
  | block scope stmts =>
    obtain rfl : id = scope := List.mem_singleton.mp h
    exact ⟨stmts, rfl⟩
  | _ => cases h

theorem exists_owners {nodes : List Node} {id : ScopeId} (h : 2 ≤ (nodes.flatMap Node.scopes).count id) :
    ∃ (i j : Nat) (a b : Node), i < j ∧ nodes[i]? = some a ∧ nodes[j]? = some b ∧ id ∈ a.scopes ∧ id ∈ b.scopes := by
  -- No node has more than one scope, so a scope that comes twice comes from two nodes.
  induction nodes with
  | nil => cases h
  | cons node nodes ih =>
    rw [List.flatMap_cons, List.count_append] at h
    by_cases hrest : 2 ≤ (nodes.flatMap Node.scopes).count id
    · obtain ⟨i, j, a, b, hij, ha, hb, hids⟩ := ih hrest
      exact ⟨i + 1, j + 1, a, b, Nat.succ_lt_succ hij, ha, hb, hids⟩
    · have hone : node.scopes.count id ≤ 1 := by
        cases node with
        | block scope stmts => exact List.count_le_length
        | _ => exact Nat.zero_le 1
      have hnode : id ∈ node.scopes := List.count_pos_iff.mp (by omega)
      have hmem : id ∈ nodes.flatMap Node.scopes := List.count_pos_iff.mp (by omega)
      obtain ⟨b, hb, hid⟩ := List.mem_flatMap.mp hmem
      obtain ⟨j, hj⟩ := List.mem_iff_getElem?.mp hb
      exact ⟨0, j + 1, node, b, Nat.succ_pos j, rfl, hj, hnode, hid⟩

theorem ownedTwice_of_count {id : ScopeId} (h : 2 ≤ p.ownerships.count id) : p.OwnedTwice id := by
  obtain ⟨i, j, a, b, hij, ha, hb, hida, hidb⟩ := exists_owners h
  obtain ⟨stmts, rfl⟩ := exists_block_of_mem_scopes hida
  obtain ⟨others, rfl⟩ := exists_block_of_mem_scopes hidb
  rw [Array.getElem?_toList] at ha hb
  exact ⟨i, j, stmts, others, hij, ha, hb⟩

/-- Validation names the first demand that is not met. What it names is there: an id that leads nowhere is used in that
place, a node that is no block is used as one, a node hangs in two places, a scope has two owners, a function two
declarations, or a function is declared below its own body. -/
theorem validate_names_first (p : Program) :
    (p.validate = .ok () ↔ AllMet p [] p.demands) ∧
    (∀ d, p.validate = .error (.defect d) ↔ FirstBroken p [] p.demands d) ∧
    (∀ d, p.validate = .error (.defect d) → p.Broken d) ∧
    ∀ id, p.validate = .error (.defect (.sharedScope id)) → p.OwnedTwice id :=
  ⟨validate_eq_ok_iff_allMet, fun _ => validate_eq_error_iff, broken_of_validate,
    fun _ h => ownedTwice_of_count (broken_of_validate _ h)⟩

theorem validate_names_first_shared :
    let p : Program :=
      { nodes := #[.block ⟨0⟩ [⟨1⟩, ⟨2⟩, ⟨1⟩], .load ⟨9⟩, .block ⟨0⟩ []]
        scopes := #[{}]
        vars := #[]
        functions := #[]
        root := ⟨0⟩ }
    p.validate = .error (.defect (.sharedNode ⟨1⟩)) ∧ FirstBroken p [] p.demands (.sharedNode ⟨1⟩) ∧
      2 ≤ p.places.count ⟨1⟩ ∧ ¬ p.HasVar ⟨9⟩ ∧ p.OwnedTwice ⟨0⟩ := by
  intro p
  have hvalid : p.validate = .error (.defect (.sharedNode ⟨1⟩)) := by decide
  obtain ⟨-, hfirst, hbroken, -⟩ := validate_names_first p
  refine ⟨hvalid, (hfirst _).mp hvalid, hbroken _ hvalid, ?_, ⟨0, 2, _, _, by decide, rfl, rfl⟩⟩
  rintro ⟨var, hvar⟩
  cases hvar

end Program

end Canon
