import Canon.Proofs.Blame
import Canon.Proofs.Session

/-!
# Disciplined sessions

A session that passes on only ids it has been given, and none of them to two places, ends in a program that validation
accepts. Whatever a session does, it declares only functions that are there, and each of them once.
-/

namespace Canon

/-! ## What a session passes on -/

/-- The ids that a call passes on. -/
def Call.refs : Call → List Ref
  | .node call => call.node.children.map .node ++ call.node.scopes.map .scope ++ call.node.vars.map .var
  | .addScope parent => parent.toList.map .scope
  | .addVar scope _ => [.scope scope]
  | .addFunction scope function => .scope scope :: function.bodies.map .node

namespace Session

/-- The ids that have been given. -/
def answers (s : Session) : List Ref := s.log.filterMap (·.answer.toOption)

/-- The places where a session hangs nodes: the root, below other nodes, and the bodies of functions. -/
def hung (calls : List Call) (root : NodeId) : List NodeId :=
  root :: ((calls.filterMap Call.node?).flatMap Node.children ++
    (calls.filterMap Call.function?).flatMap FunctionDecl.bodies)

/-- The nodes that are given where a block is needed. -/
def needBlocks (calls : List Call) (root : NodeId) : List NodeId :=
  root :: ((calls.filterMap Call.node?).flatMap Node.bodies ++
    (calls.filterMap Call.function?).flatMap FunctionDecl.bodies)

structure Disciplined (calls : List Call) (root : NodeId) : Prop where
  /-- Every id that a call passes on has been given by a call before it. -/
  given : ∀ i call, calls[i]? = some call → call.refs ⊆ (run (calls.take i)).answers
  blocks : ∀ id ∈ needBlocks calls root, ∃ call scope stmts, call.node = .block scope stmts ∧
    Entry.mk (.node call) (.ok (.node id)) ∈ (run calls).log
  hung : (hung calls root).Nodup
  scopes : ((calls.filterMap Call.node?).flatMap Node.scopes).Nodup
  /-- No function is declared in a scope that a block of its own body owns. -/
  outside : ∀ scope function, .addFunction scope function ∈ calls → ∀ body ∈ function.bodies, ∀ block,
    Relation.ReflTransGen (fun a b => b ∈ ((run calls).builder.finish root).childrenOf a) body block →
      scope ∉ ((run calls).builder.finish root).scopesOf block

end Session

/-! ## Ids that have been given lead somewhere -/

/-- There is something at an id. -/
def Program.Has (p : Program) : Ref → Prop
  | .node id => p.HasNode id
  | .scope id => p.HasScope id
  | .var id => p.HasVar id
  | .function id => p.HasFunction id

theorem Program.Holds.has {p : Program} {ref : Ref} {call : Call} (h : p.Holds ref call) : p.Has ref := by
  cases ref <;> cases call <;> first
    | exact ⟨_, h⟩
    | exact ⟨_, h.choose_spec.1⟩
    | exact h.elim

namespace Session

variable {calls : List Call} {s : Session}

namespace Kept

theorem holds_of_mem_log (h : s.Kept calls) (hfit : Call.Fit calls) (root : NodeId) {call : Call} {ref : Ref}
    (hentry : Entry.mk call (.ok ref) ∈ s.log) : (s.builder.finish root).Holds ref call := by
  obtain ⟨i, other, hcall, heq⟩ := h.log_mem hentry
  obtain ⟨rfl, hanswer⟩ := Entry.mk.inj heq
  obtain ⟨-, rfl⟩ := Call.answerAfter_eq_ok.mp hanswer.symm
  exact h.holds hfit root hcall

theorem has_of_mem_answers (h : s.Kept calls) (hfit : Call.Fit calls) (root : NodeId) {ref : Ref}
    (hanswer : ref ∈ s.answers) : (s.builder.finish root).Has ref := by
  obtain ⟨⟨call, answer⟩, hentry, hsome⟩ := List.mem_filterMap.mp hanswer
  cases answer with
  | error fault => cases hsome
  | ok other =>
    cases hsome
    exact (h.holds_of_mem_log hfit root hentry).has

theorem log_take_subset (h : s.Kept calls) (i : Nat) : (run (calls.take i)).log ⊆ s.log := by
  intro e he
  obtain ⟨j, call, hcall, rfl⟩ := (run_kept (calls.take i)).log_mem he
  have hij : j < i := by
    have hlt := (List.getElem?_eq_some_iff.mp hcall).1
    rw [List.length_take] at hlt
    omega
  rw [List.getElem?_take_of_lt hij] at hcall
  rw [List.take_take, Nat.min_eq_left (Nat.le_of_lt hij)]
  refine List.mem_of_getElem? (i := j) ?_
  rw [h.log, hcall]
  rfl

end Kept

theorem Disciplined.has {root : NodeId} (h : Disciplined calls root) (hfit : Call.Fit calls) {call : Call}
    (hcall : call ∈ calls) (ref : Ref) (href : ref ∈ call.refs) : ((run calls).builder.finish root).Has ref := by
  obtain ⟨i, hi⟩ := List.mem_iff_getElem?.mp hcall
  have hkept := run_kept calls
  obtain ⟨e, he, hanswer⟩ := List.mem_filterMap.mp (h.given i call hi href)
  exact hkept.has_of_mem_answers hfit root (List.mem_filterMap.mpr ⟨e, hkept.log_take_subset i he, hanswer⟩)

theorem Disciplined.hasBlock {root : NodeId} (h : Disciplined calls root) (hfit : Call.Fit calls) {id : NodeId}
    (hid : id ∈ needBlocks calls root) : ((run calls).builder.finish root).HasBlock id := by
  obtain ⟨call, scope, stmts, hblock, hentry⟩ := h.blocks id hid
  have hnode : ((run calls).builder.finish root).node? id = some call.node :=
    (run_kept calls).holds_of_mem_log hfit root hentry
  exact ⟨scope, stmts, hblock ▸ hnode⟩

/-! ## What a session declares -/

namespace Kept

variable (h : s.Kept calls) (hfit : Call.Fit calls) (root : NodeId)

include h

theorem mem_log_of_mem_vars {scope : Scope} (hscope : scope ∈ s.builder.scopes.toList) {id : VarId}
    (hid : id ∈ scope.vars) : .var id ∈ s.answers := by
  obtain ⟨i, hi⟩ := List.mem_iff_getElem?.mp hscope
  rw [Array.getElem?_toList] at hi
  rw [(h.scope_fields hi).1] at hid
  obtain ⟨e, he, hpicked⟩ := List.mem_filterMap.mp hid
  exact List.mem_filterMap.mpr ⟨e, he, by rw [(varIn?_picked hpicked).1]; rfl⟩

theorem exists_call_of_declared {i : Nat} {scope : Scope} (hscope : s.builder.scopes[i]? = some scope) {id : FunctionId}
    (hid : id ∈ scope.functions) : ∃ target function,
      Entry.mk (.addFunction target function) (.ok (.function id)) ∈ s.log ∧ target.index.toNat = i := by
  rw [(h.scope_fields hscope).2] at hid
  obtain ⟨⟨call, answer⟩, he, hpicked⟩ := List.mem_filterMap.mp hid
  obtain ⟨target, function, rfl, rfl, htarget⟩ := Entry.functionIn?_eq_some.mp hpicked
  exact ⟨target, function, he, htarget⟩

include hfit

theorem hasFunction_of_mem_declarations {id : FunctionId} (hid : id ∈ (s.builder.finish root).declarations) :
    (s.builder.finish root).HasFunction id := by
  obtain ⟨scope, hscope, hid⟩ := List.mem_flatMap.mp hid
  obtain ⟨i, hi⟩ := List.mem_iff_getElem?.mp hscope
  rw [Array.getElem?_toList] at hi
  obtain ⟨target, function, hentry, -⟩ := h.exists_call_of_declared hi hid
  exact ⟨function, h.holds_of_mem_log hfit root hentry⟩

end Kept

/-! ## Disciplined sessions end well -/

section Disciplined

variable {root : NodeId}

theorem Disciplined.nodeResolves (h : Disciplined calls root) (hfit : Call.Fit calls) {node : Node}
    (hnode : node ∈ calls.filterMap Call.node?) : ((run calls).builder.finish root).NodeResolves node := by
  obtain ⟨call, hcall, hsome⟩ := List.mem_filterMap.mp hnode
  cases call with
  | node call =>
    cases hsome
    constructor
    · exact fun id hid => h.has hfit hcall (.node id) (by simp [Call.refs, hid])
    · exact fun id hid => h.has hfit hcall (.scope id) (by simp [Call.refs, hid])
    · exact fun id hid => h.has hfit hcall (.var id) (by simp [Call.refs, hid])
    · refine fun id hid => h.hasBlock hfit (List.mem_cons_of_mem _ (List.mem_append_left _ ?_))
      exact List.mem_flatMap.mpr ⟨call.node, hnode, hid⟩
  | _ => cases hsome

theorem Disciplined.scopeResolves (h : Disciplined calls root) (hfit : Call.Fit calls) {scope : Scope}
    (hscope : scope ∈ (run calls).builder.scopes.toList) : ((run calls).builder.finish root).ScopeResolves scope := by
  have hkept := run_kept calls
  constructor
  · obtain ⟨i, hi⟩ := List.mem_iff_getElem?.mp hscope
    rw [Array.getElem?_toList, hkept.scopes] at hi
    obtain ⟨parent, hparent, rfl⟩ := Option.map_eq_some_iff.mp hi
    obtain ⟨call, hcall, hsome⟩ := List.mem_filterMap.mp (List.mem_of_getElem? hparent)
    cases call with
    | addScope parent =>
      cases hsome
      intro id hid
      exact h.has hfit hcall (.scope id) (by simpa [Call.refs] using hid)
    | _ => cases hsome
  · exact fun id hid => hkept.has_of_mem_answers hfit root (hkept.mem_log_of_mem_vars hscope hid)
  · exact fun id hid => hkept.hasFunction_of_mem_declarations hfit root (List.mem_flatMap.mpr ⟨scope, hscope, hid⟩)

theorem Kept.function_eq (h : s.Kept calls) (hfit : Call.Fit calls) {i : Nat} {function : FunctionDecl}
    (hi : s.builder.functions.toList[i]? = some function) {target : ScopeId} {other : FunctionDecl}
    (hentry : Entry.mk (.addFunction target other) (.ok (.function (.ofIndex i))) ∈ s.log) : other = function := by
  have hlt : i < UInt32.size := by
    have hsize := (List.getElem?_eq_some_iff.mp hi).1
    rw [Array.length_toList, h.size_functions] at hsize
    exact Nat.lt_trans hsize (hfit .function)
  have hholds := h.holds_of_mem_log hfit ⟨0⟩ hentry
  have hlookup : s.builder.functions[(UInt32.ofNat i).toNat]? = some other := hholds
  rw [UInt32.toNat_ofNat_of_lt' hlt, ← Array.getElem?_toList, hi] at hlookup
  exact (Option.some.inj hlookup).symm

theorem Disciplined.outside_body (h : Disciplined calls root) (hfit : Call.Fit calls) {i : Nat}
    {function : FunctionDecl} (hi : (run calls).builder.functions.toList[i]? = some function) {body : NodeId}
    (hbody : body ∈ function.bodies) : ¬ ((run calls).builder.finish root).DeclaresBelow body (.ofIndex i) := by
  rintro ⟨block, hpath, hdeclared⟩
  obtain ⟨scope, howned, hdeclared⟩ := List.mem_flatMap.mp hdeclared
  obtain ⟨found, hfound, hmem⟩ := mem_getD_map.mp hdeclared
  have hkept := run_kept calls
  obtain ⟨target, other, hentry, hindex⟩ := hkept.exists_call_of_declared hfound hmem
  obtain rfl : target = scope := ScopeId.index_injective (UInt32.toNat_inj.mp hindex)
  obtain rfl := hkept.function_eq hfit hi hentry
  obtain ⟨j, call, hcall, heq⟩ := hkept.log_mem hentry
  obtain ⟨rfl, -⟩ := Entry.mk.inj heq
  exact h.outside target other (List.mem_of_getElem? hcall) body hbody block hpath howned

theorem Disciplined.wellFormed (h : Disciplined calls root) (hfit : Call.Fit calls) :
    ((run calls).builder.finish root).WellFormed := by
  have hkept := run_kept calls
  have hnodes : ((run calls).builder.finish root).nodes.toList = calls.filterMap Call.node? := hkept.nodes
  have hfunctions : ((run calls).builder.finish root).functions.toList = calls.filterMap Call.function? :=
    hkept.functions
  exact {
    root := h.hasBlock hfit List.mem_cons_self
    nodes := fun node hnode => h.nodeResolves hfit (hnodes ▸ hnode)
    scopes := fun scope hscope => h.scopeResolves hfit hscope
    bodies := fun function hfunction id hid => by
      refine h.hasBlock hfit (List.mem_cons_of_mem _ (List.mem_append_right _ ?_))
      exact List.mem_flatMap.mpr ⟨function, hfunctions ▸ hfunction, hid⟩
    places := by
      rw [Program.places, hnodes, hfunctions]
      exact h.hung
    ownerships := by
      rw [Program.ownerships, hnodes]
      exact h.scopes
    declarations := hkept.nodup_functions hfit
    outside := fun i function hi body hbody => h.outside_body hfit hi hbody }

end Disciplined

/-- No session ends in a program that declares a function that is not there, or one twice; and a disciplined session ends
in a program that validation accepts. -/
theorem validate_run {calls : List Call} (hfit : Call.Fit calls) (root : NodeId) :
    (∀ f, ((run calls).builder.finish root).validate ≠ .error (.defect (.missingFunction f)) ∧
      ((run calls).builder.finish root).validate ≠ .error (.defect (.sharedFunction f))) ∧
    (Disciplined calls root → ((run calls).builder.finish root).validate = .ok ()) := by
  have hkept := run_kept calls
  refine ⟨fun f => ⟨fun hmissing => ?_, fun hshared => ?_⟩, fun h => Program.validate_of_wellFormed (h.wellFormed hfit)⟩
  · obtain ⟨hdeclared, hnone⟩ := Program.broken_of_validate _ hmissing
    exact hnone (hkept.hasFunction_of_mem_declarations hfit root hdeclared)
  · have htwice : 2 ≤ ((run calls).builder.finish root).declarations.count f := Program.broken_of_validate _ hshared
    have honce := List.nodup_iff_count_le_one.mp (hkept.nodup_functions hfit) f
    exact absurd (Nat.le_trans htwice honce) (by decide)

/-- A variable that is set, and a function with a body of its own. -/
def layered : List Call :=
  [.addScope none, .addVar ⟨0⟩ ⟨"x", .int⟩, .node (.int 1), .node (.store ⟨0⟩ .assign ⟨0⟩), .addScope (some ⟨0⟩),
    .node (.print []), .node (.block ⟨1⟩ [⟨2⟩]), .addFunction ⟨0⟩ ⟨"f", .void, [], .block ⟨3⟩⟩,
    .node (.push (.block ⟨0⟩ [⟨1⟩]))]

theorem validate_run_layered : Call.Fit layered ∧ Disciplined layered ⟨4⟩ ∧
    ((run layered).builder.finish ⟨4⟩).validate = .ok () := by
  have hfit : Call.Fit layered := by
    intro kind
    cases kind <;> decide
  have hdisciplined : Disciplined layered ⟨4⟩ := by
    constructor
    · have hall : ∀ i (hi : i < layered.length), layered[i].refs ⊆ (run (layered.take i)).answers := by decide
      intro i call hcall
      obtain ⟨hi, rfl⟩ := List.getElem?_eq_some_iff.mp hcall
      exact hall i hi
    · have hneed : needBlocks layered ⟨4⟩ = [⟨4⟩, ⟨3⟩] := by decide
      rw [hneed]
      refine List.forall_mem_cons.mpr ⟨⟨.push (.block ⟨0⟩ [⟨1⟩]), _, _, rfl, ?_⟩,
        List.forall_mem_singleton.mpr ⟨.block ⟨1⟩ [⟨2⟩], _, _, rfl, ?_⟩⟩
      · exact List.mem_of_getElem? (i := 8) rfl
      · exact List.mem_of_getElem? (i := 6) rfl
    · decide
    · decide
    · intro scope function hmem body hbody block hpath
      obtain ⟨rfl, rfl⟩ : scope = ⟨0⟩ ∧ function = ⟨"f", .void, [], .block ⟨3⟩⟩ := by simpa [layered] using hmem
      obtain rfl := List.mem_singleton.mp hbody
      -- Below the body there is the body itself and what it prints, and neither owns the outer scope.
      have hclosed : ∀ a ∈ [(⟨3⟩ : NodeId), ⟨2⟩], ∀ b ∈ ((run layered).builder.finish ⟨4⟩).childrenOf a,
          b ∈ [(⟨3⟩ : NodeId), ⟨2⟩] := by decide
      have hbelow : block ∈ [(⟨3⟩ : NodeId), ⟨2⟩] := by
        induction hpath with
        | refl => exact List.mem_cons_self
        | tail _ hchild ih => exact hclosed _ ih _ hchild
      have howned : ∀ a ∈ [(⟨3⟩ : NodeId), ⟨2⟩], ⟨0⟩ ∉ ((run layered).builder.finish ⟨4⟩).scopesOf a := by decide
      exact howned block hbelow
  exact ⟨hfit, hdisciplined, (validate_run hfit ⟨4⟩).2 hdisciplined⟩

end Session

end Canon
