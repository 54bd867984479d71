import Canon.Program.Builder
import Canon.Proofs.Walk
import Canon.Proofs.WellFormed
import Mathlib.Data.List.Induction

/-!
# Sessions with a builder

A session is a list of calls on one builder. The parts of each kind are numbered in the order in which they are added,
and what is added once stays as it is: a later call adds a part of its own and writes its id at the end of one scope. A
variable or function whose scope does not exist is added all the same and declared nowhere.
-/

namespace Canon

/-! ## Calls -/

inductive Kind where
  | node | scope | var | function
  deriving DecidableEq, Repr

/-- A call that adds a node: any node can be pushed, and for every kind of node there is a call of its own. -/
inductive NodeCall where
  | push (node : Node)
  | int (value : Int64)
  | double (value : Double)
  | string (value : String)
  | load (var : VarId)
  | binary (op : BinaryOp) (left right : NodeId)
  | unary (op : UnaryOp) (operand : NodeId)
  | call (name : String) (args : List NodeId)
  | store (var : VarId) (op : AssignOp) (value : NodeId)
  | print (args : List NodeId)
  | ret (value : Option NodeId)
  | forIn (var : VarId) (range body : NodeId)
  | whileLoop (cond body : NodeId)
  | ifElse (cond thenBlock : NodeId) (elseBlock : Option NodeId)
  | block (scope : ScopeId) (stmts : List NodeId)
  deriving DecidableEq, Repr

/-- One call on a builder. -/
inductive Call where
  | node (call : NodeCall)
  | addScope (parent : Option ScopeId)
  | addVar (scope : ScopeId) (var : Var)
  | addFunction (scope : ScopeId) (function : FunctionDecl)
  deriving DecidableEq, Repr

/-- The id of a part by its place in the store of its kind. -/
def Ref.ofPlace : Kind → Nat → Ref
  | .node, i => .node ⟨UInt32.ofNat i⟩
  | .scope, i => .scope ⟨UInt32.ofNat i⟩
  | .var, i => .var ⟨UInt32.ofNat i⟩
  | .function, i => .function ⟨UInt32.ofNat i⟩

def Ref.index : Ref → UInt32
  | .node id => id.index
  | .scope id => id.index
  | .var id => id.index
  | .function id => id.index

/-- The node that a call gives. -/
def NodeCall.node : NodeCall → Node
  | .push node => node
  | .int value => .int value
  | .double value => .double value
  | .string value => .string value
  | .load var => .load var
  | .binary op left right => .binary op left right
  | .unary op operand => .unary op operand
  | .call name args => .call name args
  | .store var op value => .store var op value
  | .print args => .print args
  | .ret value => .ret value
  | .forIn var range body => .forIn var range body
  | .whileLoop cond body => .whileLoop cond body
  | .ifElse cond thenBlock elseBlock => .ifElse cond thenBlock elseBlock
  | .block scope stmts => .block scope stmts

namespace Call

def kind : Call → Kind
  | .node _ => .node
  | .addScope _ => .scope
  | .addVar .. => .var
  | .addFunction .. => .function

def node? : Call → Option Node
  | .node call => some call.node
  | _ => none

def parent? : Call → Option (Option ScopeId)
  | .addScope parent => some parent
  | _ => none

def var? : Call → Option Var
  | .addVar _ var => some var
  | _ => none

def function? : Call → Option FunctionDecl
  | .addFunction _ function => some function
  | _ => none

/-- The scope in which a call declares something. -/
def target? : Call → Option ScopeId
  | .addVar scope _ => some scope
  | .addFunction scope _ => some scope
  | _ => none

/-- How many calls add a part of a kind. -/
def countOf (kind : Kind) (calls : List Call) : Nat := calls.countP (·.kind = kind)

/-- The id of the part that a call adds after others. -/
def slot (before : List Call) (call : Call) : Ref := .ofPlace call.kind (countOf call.kind before)

/-- The scope in which a call declares something has been added before. -/
def Lands (before : List Call) (call : Call) : Prop := ∀ scope ∈ call.target?, scope.index.toNat < countOf .scope before

/-- How a call is answered after others: with the id of its part, unless its scope does not exist. -/
def answerAfter (before : List Call) (call : Call) : Except Fault Ref :=
  match call.target? with
  | none => .ok (call.slot before)
  | some scope =>
    if scope.index.toNat < countOf .scope before then .ok (call.slot before)
    else .error (.dangling (countOf .scope before) scope.index.toNat)

end Call

namespace Builder

def performNode (b : Builder) : NodeCall → NodeId × Builder
  | .push node => b.push node
  | .int value => b.int value
  | .double value => b.double value
  | .string value => b.string value
  | .load var => b.load var
  | .binary op left right => b.binary op left right
  | .unary op operand => b.unary op operand
  | .call name args => b.call name args
  | .store var op value => b.store var op value
  | .print args => b.print args
  | .ret value => b.ret value
  | .forIn var range body => b.forIn var range body
  | .whileLoop cond body => b.whileLoop cond body
  | .ifElse cond thenBlock elseBlock => b.ifElse cond thenBlock elseBlock
  | .block scope stmts => b.block scope stmts

def perform (b : Builder) : Call → Except Fault Ref × Builder
  | .node call => (.ok (.node (b.performNode call).1), (b.performNode call).2)
  | .addScope parent => (.ok (.scope (b.addScope parent).1), (b.addScope parent).2)
  | .addVar scope var => ((b.addVar scope var).1.map .var, (b.addVar scope var).2)
  | .addFunction scope function => ((b.addFunction scope function).1.map .function, (b.addFunction scope function).2)

end Builder

/-! ## Sessions -/

structure Entry where
  call : Call
  answer : Except Fault Ref

/-- What has been called and answered so far, and what has been built. -/
structure Session where
  log : List Entry := []
  builder : Builder := {}

/-- A variable that was declared in the scope at an index. -/
def Entry.varIn? (i : Nat) : Entry → Option VarId
  | ⟨.addVar scope _, .ok (.var id)⟩ => if scope.index.toNat = i then some id else none
  | _ => none

def Entry.functionIn? (i : Nat) : Entry → Option FunctionId
  | ⟨.addFunction scope _, .ok (.function id)⟩ => if scope.index.toNat = i then some id else none
  | _ => none

namespace Session

def step (s : Session) (call : Call) : Session :=
  { log := s.log ++ [⟨call, (s.builder.perform call).1⟩], builder := (s.builder.perform call).2 }

def run (calls : List Call) : Session := calls.foldl step {}

/-- The variables that the calls without a fault have declared in a scope, in the order of the calls. -/
def varsIn (s : Session) (scope : ScopeId) : List VarId := s.log.filterMap (Entry.varIn? scope.index.toNat)

def functionsIn (s : Session) (scope : ScopeId) : List FunctionId :=
  s.log.filterMap (Entry.functionIn? scope.index.toNat)

end Session

namespace Entry

variable {e : Entry} {i : Nat}

theorem varIn?_eq_some {id : VarId} : e.varIn? i = some id ↔
    ∃ scope var, e.call = .addVar scope var ∧ e.answer = .ok (.var id) ∧ scope.index.toNat = i := by
  obtain ⟨call, answer⟩ := e
  constructor
  · intro h
    unfold varIn? at h
    split at h
    · rename_i scope var id' heq
      cases heq
      split at h
      · cases h
        exact ⟨scope, var, rfl, rfl, by assumption⟩
      · cases h
    · cases h
  · rintro ⟨scope, var, rfl, rfl, hscope⟩
    simp [varIn?, hscope]

theorem functionIn?_eq_some {id : FunctionId} : e.functionIn? i = some id ↔
    ∃ scope function, e.call = .addFunction scope function ∧ e.answer = .ok (.function id) ∧ scope.index.toNat = i := by
  obtain ⟨call, answer⟩ := e
  constructor
  · intro h
    unfold functionIn? at h
    split at h
    · rename_i scope function id' heq
      cases heq
      split at h
      · cases h
        exact ⟨scope, function, rfl, rfl, by assumption⟩
      · cases h
    · cases h
  · rintro ⟨scope, function, rfl, rfl, hscope⟩
    simp [functionIn?, hscope]

end Entry

theorem filterMap_concat {α β : Type} (f : α → Option β) (l : List α) (a : α) :
    (l ++ [a]).filterMap f = l.filterMap f ++ (f a).toList := by
  cases h : f a <;> simp [h]

/-! ## One call -/

namespace Builder

variable {b : Builder}

theorem performNode_eq (b : Builder) (call : NodeCall) : b.performNode call = b.push call.node := by
  cases call <;> rfl

theorem declareIn_answer (b : Builder) (scope : ScopeId) (declare : Scope → Scope) : (b.declareIn scope declare).1 =
    if scope.index.toNat < b.scopes.size then .ok () else .error (.dangling b.scopes.size scope.index.toNat) := by
  simp only [declareIn]
  by_cases hscope : scope.index.toNat < b.scopes.size
  · simp [hscope]
  · rw [Array.getElem?_eq_none (Nat.le_of_not_lt hscope), if_neg hscope]

theorem declareIn_scopes (b : Builder) (scope : ScopeId) (declare : Scope → Scope) (i : Nat) :
    (b.declareIn scope declare).2.scopes[i]? =
      b.scopes[i]?.map fun s => if scope.index.toNat = i then declare s else s := by
  simp only [declareIn]
  cases htarget : b.scopes[scope.index.toNat]? with
  | none =>
    by_cases heq : scope.index.toNat = i
    · subst heq
      simp [htarget]
    · simp [heq]
  | some target =>
    by_cases heq : scope.index.toNat = i
    · subst heq
      obtain ⟨hlt, rfl⟩ := Array.getElem?_eq_some_iff.mp htarget
      simp [hlt]
    · simp [heq]

theorem declareIn_keeps (b : Builder) (scope : ScopeId) (declare : Scope → Scope) :
    (b.declareIn scope declare).2 = { b with scopes := (b.declareIn scope declare).2.scopes } := by
  simp only [declareIn]
  cases b.scopes[scope.index.toNat]? <;> rfl

theorem declareIn_size (b : Builder) (scope : ScopeId) (declare : Scope → Scope) :
    (b.declareIn scope declare).2.scopes.size = b.scopes.size := by
  simp only [declareIn]
  cases b.scopes[scope.index.toNat]? <;> simp

theorem perform_size (b : Builder) (call : Call) :
    (b.perform call).2.scopes.size = b.scopes.size + Call.countOf .scope [call] := by
  cases call with
  | node call => simp [perform, performNode_eq, push, Call.countOf, Call.kind]
  | addScope parent => simp [perform, addScope, Call.countOf, Call.kind]
  | addVar scope var => exact declareIn_size _ _ _
  | addFunction scope function => exact declareIn_size _ _ _

theorem perform_addVar (b : Builder) (scope : ScopeId) (var : Var) : (b.perform (.addVar scope var)).1 =
    if scope.index.toNat < b.scopes.size then .ok (.var ⟨nextIndex b.vars⟩)
    else .error (.dangling b.scopes.size scope.index.toNat) := by
  simp only [perform, addVar, declareIn_answer]
  split <;> rfl

theorem perform_addFunction (b : Builder) (scope : ScopeId) (function : FunctionDecl) :
    (b.perform (.addFunction scope function)).1 =
      if scope.index.toNat < b.scopes.size then .ok (.function ⟨nextIndex b.functions⟩)
      else .error (.dangling b.scopes.size scope.index.toNat) := by
  simp only [perform, addFunction, declareIn_answer]
  split <;> rfl

theorem perform_stores (b : Builder) (call : Call) :
    (b.perform call).2.nodes.toList = b.nodes.toList ++ call.node?.toList ∧
    (b.perform call).2.vars.toList = b.vars.toList ++ call.var?.toList ∧
    (b.perform call).2.functions.toList = b.functions.toList ++ call.function?.toList := by
  cases call with
  | node call => simp [perform, performNode_eq, push, Call.node?, Call.var?, Call.function?]
  | addScope parent => simp [perform, addScope, Call.node?, Call.var?, Call.function?]
  | addVar scope var =>
    rw [perform, addVar, declareIn_keeps]
    simp [Call.node?, Call.var?, Call.function?]
  | addFunction scope function =>
    rw [perform, addFunction, declareIn_keeps]
    simp [Call.node?, Call.var?, Call.function?]

theorem perform_scope {i : Nat} {found : Scope} (h : b.scopes[i]? = some found) (call : Call) :
    (b.perform call).2.scopes[i]? = some ⟨found.vars ++ (Entry.varIn? i ⟨call, (b.perform call).1⟩).toList,
      found.functions ++ (Entry.functionIn? i ⟨call, (b.perform call).1⟩).toList, found.parent⟩ := by
  have hi : i < b.scopes.size := (Array.getElem?_eq_some_iff.mp h).1
  cases call with
  | node call => simp [perform, performNode_eq, push, h, Entry.varIn?, Entry.functionIn?]
  | addScope parent => simp [perform, addScope, Array.getElem?_push, h, Nat.ne_of_lt hi, Entry.varIn?, Entry.functionIn?]
  | addVar scope var =>
    have hscopes : (b.perform (.addVar scope var)).2.scopes[i]? = some (if scope.index.toNat = i then
        { found with vars := found.vars ++ [⟨nextIndex b.vars⟩] } else found) := by
      simp [perform, addVar, declareIn_scopes, h]
    rw [hscopes, perform_addVar]
    by_cases heq : scope.index.toNat = i
    · simp [heq, hi, Entry.varIn?, Entry.functionIn?]
    · rw [if_neg heq]
      split <;> simp [heq, Entry.varIn?, Entry.functionIn?]
  | addFunction scope function =>
    have hscopes : (b.perform (.addFunction scope function)).2.scopes[i]? = some (if scope.index.toNat = i then
        { found with functions := found.functions ++ [⟨nextIndex b.functions⟩] } else found) := by
      simp [perform, addFunction, declareIn_scopes, h]
    rw [hscopes, perform_addFunction]
    by_cases heq : scope.index.toNat = i
    · simp [heq, hi, Entry.varIn?, Entry.functionIn?]
    · rw [if_neg heq]
      split <;> simp [heq, Entry.varIn?, Entry.functionIn?]

theorem perform_beyond {i : Nat} (h : b.scopes[i]? = none) (call : Call) :
    (b.perform call).2.scopes[i]? = (call.parent?.toList[i - b.scopes.size]?).map (fun parent => { parent }) ∧
    Entry.varIn? i ⟨call, (b.perform call).1⟩ = none ∧ Entry.functionIn? i ⟨call, (b.perform call).1⟩ = none := by
  have hi : b.scopes.size ≤ i := Array.getElem?_eq_none_iff.mp h
  cases call with
  | node call => simp [perform, performNode_eq, push, h, Entry.varIn?, Entry.functionIn?, Call.parent?]
  | addScope parent =>
    simp only [perform, addScope, Array.getElem?_push, h, Call.parent?, Entry.varIn?, Entry.functionIn?, and_self,
      and_true, Option.toList_some]
    by_cases heq : i = b.scopes.size
    · simp [heq]
    · rw [if_neg heq, List.getElem?_eq_none (by simp; omega)]
      rfl
  | addVar scope var =>
    refine ⟨by simp [perform, addVar, declareIn_scopes, h, Call.parent?], ?_⟩
    rw [perform_addVar]
    split
    · have hne : scope.index.toNat ≠ i := by omega
      simp [Entry.varIn?, Entry.functionIn?, hne]
    · simp [Entry.varIn?, Entry.functionIn?]
  | addFunction scope function =>
    refine ⟨by simp [perform, addFunction, declareIn_scopes, h, Call.parent?], ?_⟩
    rw [perform_addFunction]
    split
    · have hne : scope.index.toNat ≠ i := by omega
      simp [Entry.varIn?, Entry.functionIn?, hne]
    · simp [Entry.varIn?, Entry.functionIn?]

end Builder

/-! ## What a session keeps -/

namespace Call

theorem countOf_append (kind : Kind) (a b : List Call) : countOf kind (a ++ b) = countOf kind a + countOf kind b :=
  List.countP_append

theorem length_filterMap {α : Type} {part? : Call → Option α} {kind : Kind}
    (h : ∀ call, (part? call).isSome = decide (call.kind = kind)) (calls : List Call) :
    (calls.filterMap part?).length = countOf kind calls := by
  rw [List.length_filterMap_eq_countP, countOf]
  simp only [h]

end Call

namespace Session

/-- What there is after some calls: every call has been answered as it should, every store holds what the calls gave, and
every scope what the calls without a fault have declared in it. -/
structure Kept (calls : List Call) (s : Session) : Prop where
  log : ∀ i, s.log[i]? = calls[i]?.map fun call => Entry.mk call (call.answerAfter (calls.take i))
  nodes : s.builder.nodes.toList = calls.filterMap Call.node?
  vars : s.builder.vars.toList = calls.filterMap Call.var?
  functions : s.builder.functions.toList = calls.filterMap Call.function?
  size : s.builder.scopes.size = Call.countOf .scope calls
  scopes : ∀ i, s.builder.scopes[i]? = (calls.filterMap Call.parent?)[i]?.map fun parent =>
    Scope.mk (s.log.filterMap (Entry.varIn? i)) (s.log.filterMap (Entry.functionIn? i)) parent

variable {calls : List Call} {s : Session}

namespace Kept

theorem size_nodes (h : s.Kept calls) : s.builder.nodes.size = Call.countOf .node calls := by
  rw [← Array.length_toList, h.nodes]
  exact Call.length_filterMap (fun call => by cases call <;> rfl) calls

theorem size_vars (h : s.Kept calls) : s.builder.vars.size = Call.countOf .var calls := by
  rw [← Array.length_toList, h.vars]
  exact Call.length_filterMap (fun call => by cases call <;> rfl) calls

theorem size_functions (h : s.Kept calls) : s.builder.functions.size = Call.countOf .function calls := by
  rw [← Array.length_toList, h.functions]
  exact Call.length_filterMap (fun call => by cases call <;> rfl) calls

theorem exists_scope (h : s.Kept calls) {id : ScopeId} (hid : id.index.toNat < Call.countOf .scope calls) :
    ∃ scope, s.builder.scopes[id.index.toNat]? = some scope :=
  ⟨_, Array.getElem?_eq_getElem (h.size.symm ▸ hid)⟩

theorem answer_eq (h : s.Kept calls) (call : Call) : (s.builder.perform call).1 = call.answerAfter calls := by
  cases call with
  | node call => simp [Builder.perform, Builder.performNode_eq, Builder.push, nextIndex, h.size_nodes, Call.answerAfter,
      Call.target?, Call.slot, Call.kind, Ref.ofPlace]
  | addScope parent => simp [Builder.perform, Builder.addScope, nextIndex, h.size, Call.answerAfter, Call.target?,
      Call.slot, Call.kind, Ref.ofPlace]
  | addVar scope var =>
    rw [Builder.perform_addVar, h.size, nextIndex, h.size_vars]
    rfl
  | addFunction scope function =>
    rw [Builder.perform_addFunction, h.size, nextIndex, h.size_functions]
    rfl

theorem log_step (h : s.Kept calls) (call : Call) : (s.step call).log = s.log ++ [⟨call, call.answerAfter calls⟩] := by
  rw [← h.answer_eq]
  rfl

theorem length_log (h : s.Kept calls) : s.log.length = calls.length := by
  refine Nat.le_antisymm (List.getElem?_eq_none_iff.mp ?_) (List.getElem?_eq_none_iff.mp ?_)
  · simp [h.log]
  · have hnone := h.log s.log.length
    simpa using hnone.symm

theorem log_mem (h : s.Kept calls) {e : Entry} (he : e ∈ s.log) : ∃ i call, calls[i]? = some call ∧
    e = ⟨call, call.answerAfter (calls.take i)⟩ := by
  obtain ⟨i, hi⟩ := List.mem_iff_getElem?.mp he
  rw [h.log] at hi
  obtain ⟨call, hcall, heq⟩ := Option.map_eq_some_iff.mp hi
  exact ⟨i, call, hcall, heq.symm⟩

theorem target_lt (h : s.Kept calls) {e : Entry} (he : e ∈ s.log) {scope : ScopeId} (hscope : e.call.target? = some scope)
    {ref : Ref} (hanswer : e.answer = .ok ref) : scope.index.toNat < Call.countOf .scope calls := by
  obtain ⟨i, call, -, rfl⟩ := h.log_mem he
  have htarget : call.target? = some scope := hscope
  have hcount : Call.countOf .scope (calls.take i) ≤ Call.countOf .scope calls := (List.take_sublist i calls).countP_le
  simp only [Call.answerAfter, htarget] at hanswer
  split at hanswer
  · omega
  · cases hanswer

theorem varIn?_beyond (h : s.Kept calls) {i : Nat} (hi : Call.countOf .scope calls ≤ i) :
    s.log.filterMap (Entry.varIn? i) = [] := by
  refine List.filterMap_eq_nil_iff.mpr fun e he => Option.eq_none_iff_forall_ne_some.mpr fun id hid => ?_
  obtain ⟨scope, var, hcall, hanswer, rfl⟩ := Entry.varIn?_eq_some.mp hid
  have htarget : e.call.target? = some scope := by rw [hcall]; rfl
  have hlt := h.target_lt he htarget hanswer
  omega

theorem functionIn?_beyond (h : s.Kept calls) {i : Nat} (hi : Call.countOf .scope calls ≤ i) :
    s.log.filterMap (Entry.functionIn? i) = [] := by
  refine List.filterMap_eq_nil_iff.mpr fun e he => Option.eq_none_iff_forall_ne_some.mpr fun id hid => ?_
  obtain ⟨scope, function, hcall, hanswer, rfl⟩ := Entry.functionIn?_eq_some.mp hid
  have htarget : e.call.target? = some scope := by rw [hcall]; rfl
  have hlt := h.target_lt he htarget hanswer
  omega

theorem length_parents (h : s.Kept calls) : (calls.filterMap Call.parent?).length = s.builder.scopes.size := by
  rw [h.size]
  exact Call.length_filterMap (fun call => by cases call <;> rfl) calls

theorem getElem?_log_step (h : s.Kept calls) (call : Call) (i : Nat) : (s.step call).log[i]? =
    (calls ++ [call])[i]?.map fun c => Entry.mk c (c.answerAfter ((calls ++ [call]).take i)) := by
  rw [h.log_step]
  rcases Nat.lt_trichotomy i calls.length with hi | hi | hi
  · rw [List.getElem?_append_left (h.length_log ▸ hi), List.getElem?_append_left hi, h.log,
      List.take_append_of_le_length (Nat.le_of_lt hi)]
  · subst hi
    rw [← h.length_log, List.getElem?_concat_length, h.length_log, List.getElem?_concat_length, List.take_left]
    rfl
  · rw [List.getElem?_eq_none (by simp [h.length_log]; omega), List.getElem?_eq_none (by simp; omega)]
    rfl

theorem scopes_step (h : s.Kept calls) (call : Call) (i : Nat) : (s.step call).builder.scopes[i]? =
    ((calls ++ [call]).filterMap Call.parent?)[i]?.map fun parent =>
      Scope.mk ((s.step call).log.filterMap (Entry.varIn? i)) ((s.step call).log.filterMap (Entry.functionIn? i))
        parent := by
  have hparents : (calls ++ [call]).filterMap Call.parent? = calls.filterMap Call.parent? ++ call.parent?.toList :=
    filterMap_concat Call.parent? calls call
  have hvars : (s.step call).log.filterMap (Entry.varIn? i) =
      s.log.filterMap (Entry.varIn? i) ++ (Entry.varIn? i ⟨call, (s.builder.perform call).1⟩).toList := by
    rw [Session.step, filterMap_concat]
  have hfunctions : (s.step call).log.filterMap (Entry.functionIn? i) =
      s.log.filterMap (Entry.functionIn? i) ++ (Entry.functionIn? i ⟨call, (s.builder.perform call).1⟩).toList := by
    rw [Session.step, filterMap_concat]
  rw [hparents, hvars, hfunctions]
  cases hscope : s.builder.scopes[i]? with
  | some found =>
    have hlt : i < (calls.filterMap Call.parent?).length :=
      h.length_parents ▸ (Array.getElem?_eq_some_iff.mp hscope).1
    have hfound := h.scopes i
    rw [hscope] at hfound
    obtain ⟨parent, hparent, rfl⟩ := Option.map_eq_some_iff.mp hfound.symm
    rw [List.getElem?_append_left hlt, hparent]
    exact Builder.perform_scope hscope call
  | none =>
    have hle := Array.getElem?_eq_none_iff.mp hscope
    obtain ⟨hnew, hvar, hfunction⟩ := Builder.perform_beyond hscope call
    have hcount : Call.countOf .scope calls ≤ i := h.size ▸ hle
    rw [hvar, hfunction, h.varIn?_beyond hcount, h.functionIn?_beyond hcount,
      List.getElem?_append_right (h.length_parents ▸ hle), h.length_parents]
    exact hnew

theorem step (h : s.Kept calls) (call : Call) : (s.step call).Kept (calls ++ [call]) where
  log := h.getElem?_log_step call
  nodes := by rw [Session.step, (Builder.perform_stores _ _).1, h.nodes, filterMap_concat]
  vars := by rw [Session.step, (Builder.perform_stores _ _).2.1, h.vars, filterMap_concat]
  functions := by rw [Session.step, (Builder.perform_stores _ _).2.2, h.functions, filterMap_concat]
  size := by rw [Session.step, Builder.perform_size, h.size, Call.countOf_append]
  scopes := h.scopes_step call

theorem empty : Session.Kept [] {} :=
  ⟨fun _ => rfl, rfl, rfl, rfl, rfl, fun _ => rfl⟩

end Kept

theorem run_kept (calls : List Call) : (run calls).Kept calls := by
  induction calls using List.reverseRecOn with
  | nil => exact .empty
  | append_singleton calls call ih =>
    rw [run, List.foldl_append]
    exact ih.step call

end Session

/-! ## Ids -/

theorem Ref.ofPlace_inj {k l : Kind} {i j : Nat} (hi : i < UInt32.size) (hj : j < UInt32.size)
    (h : Ref.ofPlace k i = .ofPlace l j) : k = l ∧ i = j := by
  have hindex : UInt32.ofNat i = UInt32.ofNat j → i = j := fun hofNat => by
    have hnat := congrArg UInt32.toNat hofNat
    rwa [UInt32.toNat_ofNat_of_lt' hi, UInt32.toNat_ofNat_of_lt' hj] at hnat
  cases k <;> cases l <;> simp [ofPlace] at h <;> exact ⟨rfl, hindex h⟩

namespace Call

variable {calls : List Call} {i j : Nat} {call : Call}

/-- There are ids for all parts. -/
def Fit (calls : List Call) : Prop := ∀ kind, countOf kind calls < UInt32.size

theorem countOf_take_lt (hcall : calls[i]? = some call) (hij : i < j) :
    countOf call.kind (calls.take i) < countOf call.kind (calls.take j) := by
  have hsub : (calls.take (i + 1)).Sublist (calls.take j) := (List.take_prefix_take_left (by omega)).sublist
  have hle : countOf call.kind (calls.take (i + 1)) ≤ countOf call.kind (calls.take j) := hsub.countP_le
  rw [List.take_add_one, hcall, countOf_append] at hle
  simp [countOf] at hle ⊢
  omega

theorem countOf_take_lt_self (hcall : calls[i]? = some call) :
    countOf call.kind (calls.take i) < countOf call.kind calls := by
  have hi := (List.getElem?_eq_some_iff.mp hcall).1
  simpa using countOf_take_lt hcall hi

theorem slot_inj (hfit : Fit calls) {other : Call} (hcall : calls[i]? = some call) (hother : calls[j]? = some other)
    (h : call.slot (calls.take i) = other.slot (calls.take j)) : i = j := by
  have hi := countOf_take_lt_self hcall
  have hj := countOf_take_lt_self hother
  obtain ⟨hkind, hcount⟩ := Ref.ofPlace_inj (Nat.lt_trans hi (hfit _)) (Nat.lt_trans hj (hfit _)) h
  rcases Nat.lt_trichotomy i j with hij | hij | hij
  · have hlt := countOf_take_lt hcall hij
    rw [hcount, hkind] at hlt
    omega
  · exact hij
  · have hlt := countOf_take_lt hother hij
    rw [← hcount, ← hkind] at hlt
    omega

theorem index_slot (hfit : Fit calls) (hcall : calls[i]? = some call) :
    (call.slot (calls.take i)).index.toNat = countOf call.kind (calls.take i) := by
  have hlt : countOf call.kind (calls.take i) < UInt32.size := Nat.lt_trans (countOf_take_lt_self hcall) (hfit _)
  rw [slot]
  cases call <;> exact UInt32.toNat_ofNat_of_lt' hlt

theorem getElem?_filterMap {α : Type} {part? : Call → Option α}
    (h : ∀ other, (part? other).isSome = decide (other.kind = call.kind)) (hcall : calls[i]? = some call) {part : α}
    (hpart : part? call = some part) :
    (calls.filterMap part?)[countOf call.kind (calls.take i)]? = some part := by
  have hi := (List.getElem?_eq_some_iff.mp hcall).1
  have hsplit : calls = calls.take i ++ call :: calls.drop (i + 1) := by
    rw [← (List.getElem?_eq_some_iff.mp hcall).2, ← List.drop_eq_getElem_cons hi, List.take_append_drop]
  conv_lhs => rw [hsplit]
  rw [List.take_left' (by simp; omega), List.filterMap_append, ← length_filterMap h,
    List.getElem?_append_right (Nat.le_refl _)]
  simp [hpart]

theorem answerAfter_eq_ok {before : List Call} {ref : Ref} :
    call.answerAfter before = .ok ref ↔ call.Lands before ∧ ref = call.slot before := by
  unfold answerAfter Lands
  cases call.target? with
  | none => simp [eq_comm]
  | some scope =>
    by_cases hscope : scope.index.toNat < countOf .scope before <;> simp [hscope, eq_comm]

end Call

namespace Session.Kept

variable {calls : List Call} {s : Session}

theorem answers_inj (h : s.Kept calls) (hfit : Call.Fit calls) {i j : Nat} {e other : Entry} (he : s.log[i]? = some e)
    (hother : s.log[j]? = some other) {ref : Ref} (hanswer : e.answer = .ok ref) (hsame : other.answer = .ok ref) :
    i = j := by
  rw [h.log] at he hother
  obtain ⟨call, hcall, rfl⟩ := Option.map_eq_some_iff.mp he
  obtain ⟨call', hcall', rfl⟩ := Option.map_eq_some_iff.mp hother
  exact Call.slot_inj hfit hcall hcall'
    ((Call.answerAfter_eq_ok.mp hanswer).2.symm.trans (Call.answerAfter_eq_ok.mp hsame).2)

section Declared

variable {α : Type} {pick : Nat → Entry → Option α} {toRef : α → Ref} {field : Scope → List α}
  (hpick : ∀ {i e a}, pick i e = some a →
    e.answer = .ok (toRef a) ∧ ∃ scope, e.call.target? = some scope ∧ scope.index.toNat = i)
  (hfield : ∀ {i scope}, s.builder.scopes[i]? = some scope → field scope = s.log.filterMap (pick i))

include hpick hfield

theorem mem_declared (h : s.Kept calls) {a : α} :
    a ∈ s.builder.scopes.toList.flatMap field ↔ ∃ e ∈ s.log, ∃ i, pick i e = some a := by
  rw [List.mem_flatMap]
  constructor
  · rintro ⟨scope, hscope, ha⟩
    obtain ⟨i, hi⟩ := List.mem_iff_getElem?.mp hscope
    rw [Array.getElem?_toList] at hi
    rw [hfield hi] at ha
    obtain ⟨e, he, hpicked⟩ := List.mem_filterMap.mp ha
    exact ⟨e, he, i, hpicked⟩
  · rintro ⟨e, he, i, hpicked⟩
    obtain ⟨hanswer, scope, htarget, rfl⟩ := hpick hpicked
    obtain ⟨found, hfound⟩ := h.exists_scope (h.target_lt he htarget hanswer)
    refine ⟨found, Program.mem_toList_of_lookup hfound, ?_⟩
    rw [hfield hfound]
    exact List.mem_filterMap.mpr ⟨e, he, hpicked⟩

theorem nodup_declared (h : s.Kept calls) (hfit : Call.Fit calls) : (s.builder.scopes.toList.flatMap field).Nodup := by
  have hsame : ∀ {i j k l : Nat} {e other : Entry} {a : α}, s.log[i]? = some e → s.log[j]? = some other →
      pick k e = some a → pick l other = some a → i = j := fun he hother hk hl =>
    h.answers_inj hfit he hother (hpick hk).1 (hpick hl).1
  refine List.nodup_flatMap.mpr ⟨fun scope hscope => ?_, List.pairwise_iff_getElem.mpr fun i j hi hj hij a ha hb => ?_⟩
  · obtain ⟨k, hk⟩ := List.mem_iff_getElem?.mp hscope
    rw [Array.getElem?_toList] at hk
    rw [hfield hk]
    refine List.pairwise_filterMap.mpr (List.pairwise_iff_getElem.mpr fun i j hi hj hij a ha b hb heq => ?_)
    subst heq
    have hij' := hsame (List.getElem?_eq_getElem hi) (List.getElem?_eq_getElem hj) ha hb
    omega
  · have hscope (k : Nat) (hk : k < s.builder.scopes.toList.length) : s.builder.scopes[k]? =
        some s.builder.scopes.toList[k] := by rw [← Array.getElem?_toList, List.getElem?_eq_getElem hk]
    rw [hfield (hscope i hi)] at ha
    rw [hfield (hscope j hj)] at hb
    obtain ⟨e, he, hpe⟩ := List.mem_filterMap.mp ha
    obtain ⟨other, hother, hpother⟩ := List.mem_filterMap.mp hb
    obtain ⟨k, hk⟩ := List.mem_iff_getElem?.mp he
    obtain ⟨l, hl⟩ := List.mem_iff_getElem?.mp hother
    obtain rfl := hsame hk hl hpe hpother
    cases Option.some.inj (hk.symm.trans hl)
    obtain ⟨-, scope, htarget, rfl⟩ := hpick hpe
    obtain ⟨-, scope', htarget', rfl⟩ := hpick hpother
    cases htarget.symm.trans htarget'
    omega

theorem mem_declared_iff (h : s.Kept calls) (hfit : Call.Fit calls) {i : Nat} {call : Call}
    (hcall : calls[i]? = some call) {scope : ScopeId} (htarget : call.target? = some scope) {a : α}
    (hslot : toRef a = call.slot (calls.take i))
    (hdeclares : pick scope.index.toNat ⟨call, .ok (toRef a)⟩ = some a) :
    a ∈ s.builder.scopes.toList.flatMap field ↔ scope.index.toNat < Call.countOf .scope (calls.take i) := by
  have hentry : s.log[i]? = some ⟨call, call.answerAfter (calls.take i)⟩ := by rw [h.log, hcall]; rfl
  rw [h.mem_declared hpick hfield]
  constructor
  · rintro ⟨e, he, k, hpicked⟩
    obtain ⟨j, hj⟩ := List.mem_iff_getElem?.mp he
    have hanswer := (hpick hpicked).1
    rw [h.log] at hj
    obtain ⟨other, hother, rfl⟩ := Option.map_eq_some_iff.mp hj
    obtain ⟨hlands, href⟩ := Call.answerAfter_eq_ok.mp hanswer
    obtain rfl := Call.slot_inj hfit hcall hother (hslot.symm.trans href)
    cases hcall.symm.trans hother
    exact hlands scope htarget
  · intro hlt
    have hlands : call.Lands (calls.take i) := by
      intro other hother
      cases htarget.symm.trans hother
      exact hlt
    rw [Call.answerAfter_eq_ok.mpr ⟨hlands, hslot⟩] at hentry
    exact ⟨_, List.mem_of_getElem? hentry, _, hdeclares⟩

end Declared

end Session.Kept

/-! ## The program that a session ends in -/

namespace Program

/-- At the id of a call's part a program holds what the call gave. -/
def Holds (p : Program) : Ref → Call → Prop
  | .node id, .node call => p.node? id = some call.node
  | .scope id, .addScope parent => ∃ scope, p.scope? id = some scope ∧ scope.parent = parent
  | .var id, .addVar _ var => p.var? id = some var
  | .function id, .addFunction _ function => p.function? id = some function
  | _, _ => False

/-- How often a variable or function is declared, in all scopes together. -/
def timesDeclared (p : Program) : Ref → Nat
  | .var id => (p.scopes.toList.flatMap Scope.vars).count id
  | .function id => p.declarations.count id
  | _ => 0

end Program

namespace Session

/-- A program that says what the calls of a session have said, and how each of them was answered. -/
structure Exact (calls : List Call) (s : Session) (p : Program) : Prop where
  length : s.log.length = calls.length
  answers : ∀ i call, calls[i]? = some call → s.log[i]? = some (Entry.mk call (call.answerAfter (calls.take i)))
  /-- The parts of a kind are numbered from zero in the order of the calls that add them. -/
  ids : ∀ i call, calls[i]? = some call →
    (call.slot (calls.take i)).index.toNat = Call.countOf call.kind (calls.take i)
  holds : ∀ i call, calls[i]? = some call → p.Holds (call.slot (calls.take i)) call
  nodes : p.nodes.size = Call.countOf .node calls
  scopes : p.scopes.size = Call.countOf .scope calls
  vars : p.vars.size = Call.countOf .var calls
  functions : p.functions.size = Call.countOf .function calls
  varsIn : ∀ id scope, p.scope? id = some scope → scope.vars = s.varsIn id
  functionsIn : ∀ id scope, p.scope? id = some scope → scope.functions = s.functionsIn id
  /-- What a call declares is declared once, or never if the scope was not there. -/
  declared : ∀ i call scope, calls[i]? = some call → call.target? = some scope →
    p.timesDeclared (call.slot (calls.take i)) =
      if scope.index.toNat < Call.countOf .scope (calls.take i) then 1 else 0

variable {calls : List Call} {s : Session}

namespace Kept

theorem scope_fields (h : s.Kept calls) {i : Nat} {scope : Scope} (hscope : s.builder.scopes[i]? = some scope) :
    scope.vars = s.log.filterMap (Entry.varIn? i) ∧ scope.functions = s.log.filterMap (Entry.functionIn? i) := by
  rw [h.scopes] at hscope
  obtain ⟨parent, -, rfl⟩ := Option.map_eq_some_iff.mp hscope
  exact ⟨rfl, rfl⟩

theorem holds (h : s.Kept calls) (hfit : Call.Fit calls) (root : NodeId) {i : Nat} {call : Call}
    (hcall : calls[i]? = some call) : (s.builder.finish root).Holds (call.slot (calls.take i)) call := by
  have hindex := Call.index_slot hfit hcall
  cases call with
  | node call =>
    have hpart : (calls.filterMap Call.node?)[Call.countOf .node (calls.take i)]? = some call.node :=
      Call.getElem?_filterMap (fun other => by cases other <;> rfl) hcall rfl
    rw [← h.nodes, Array.getElem?_toList] at hpart
    exact (congrArg (s.builder.nodes[·]?) hindex).trans hpart
  | addScope parent =>
    have hpart : (calls.filterMap Call.parent?)[Call.countOf .scope (calls.take i)]? = some parent :=
      Call.getElem?_filterMap (fun other => by cases other <;> rfl) hcall rfl
    have hscope := h.scopes (Call.countOf .scope (calls.take i))
    rw [hpart] at hscope
    exact ⟨_, (congrArg (s.builder.scopes[·]?) hindex).trans hscope, rfl⟩
  | addVar scope var =>
    have hpart : (calls.filterMap Call.var?)[Call.countOf .var (calls.take i)]? = some var :=
      Call.getElem?_filterMap (fun other => by cases other <;> rfl) hcall rfl
    rw [← h.vars, Array.getElem?_toList] at hpart
    exact (congrArg (s.builder.vars[·]?) hindex).trans hpart
  | addFunction scope function =>
    have hpart : (calls.filterMap Call.function?)[Call.countOf .function (calls.take i)]? = some function :=
      Call.getElem?_filterMap (fun other => by cases other <;> rfl) hcall rfl
    rw [← h.functions, Array.getElem?_toList] at hpart
    exact (congrArg (s.builder.functions[·]?) hindex).trans hpart

theorem varIn?_picked {i : Nat} {e : Entry} {id : VarId} (h : e.varIn? i = some id) :
    e.answer = .ok (.var id) ∧ ∃ scope, e.call.target? = some scope ∧ scope.index.toNat = i := by
  obtain ⟨scope, var, hcall, hanswer, hscope⟩ := Entry.varIn?_eq_some.mp h
  exact ⟨hanswer, scope, by rw [hcall]; rfl, hscope⟩

theorem functionIn?_picked {i : Nat} {e : Entry} {id : FunctionId} (h : e.functionIn? i = some id) :
    e.answer = .ok (.function id) ∧ ∃ scope, e.call.target? = some scope ∧ scope.index.toNat = i := by
  obtain ⟨scope, function, hcall, hanswer, hscope⟩ := Entry.functionIn?_eq_some.mp h
  exact ⟨hanswer, scope, by rw [hcall]; rfl, hscope⟩

theorem nodup_vars (h : s.Kept calls) (hfit : Call.Fit calls) :
    (s.builder.scopes.toList.flatMap Scope.vars).Nodup :=
  h.nodup_declared varIn?_picked (fun hscope => (h.scope_fields hscope).1) hfit

theorem nodup_functions (h : s.Kept calls) (hfit : Call.Fit calls) :
    (s.builder.scopes.toList.flatMap Scope.functions).Nodup :=
  h.nodup_declared functionIn?_picked (fun hscope => (h.scope_fields hscope).2) hfit

theorem timesDeclared_eq (h : s.Kept calls) (hfit : Call.Fit calls) (root : NodeId) {i : Nat} {call : Call}
    (hcall : calls[i]? = some call) {scope : ScopeId} (htarget : call.target? = some scope) :
    (s.builder.finish root).timesDeclared (call.slot (calls.take i)) =
      if scope.index.toNat < Call.countOf .scope (calls.take i) then 1 else 0 := by
  cases call with
  | node call => cases htarget
  | addScope parent => cases htarget
  | addVar scope' var =>
    cases htarget
    have hmem := h.mem_declared_iff varIn?_picked (fun hscope => (h.scope_fields hscope).1) hfit hcall rfl
      (a := ⟨UInt32.ofNat (Call.countOf .var (calls.take i))⟩) rfl (Entry.varIn?_eq_some.mpr ⟨scope, var, rfl, rfl, rfl⟩)
    exact (h.nodup_vars hfit).count.trans (if_congr hmem rfl rfl)
  | addFunction scope' function =>
    cases htarget
    have hmem := h.mem_declared_iff functionIn?_picked (fun hscope => (h.scope_fields hscope).2) hfit hcall rfl
      (a := ⟨UInt32.ofNat (Call.countOf .function (calls.take i))⟩) rfl
      (Entry.functionIn?_eq_some.mpr ⟨scope, function, rfl, rfl, rfl⟩)
    exact (h.nodup_functions hfit).count.trans (if_congr hmem rfl rfl)

end Kept

/-- A program says exactly what the calls of its session have said, whatever the root and whichever calls were in vain.
Finishing sets the root and nothing else. -/
theorem run_exact {calls : List Call} (hfit : Call.Fit calls) (root : NodeId) :
    Exact calls (run calls) ((run calls).builder.finish root) ∧
    (run calls).builder.finish root =
      { nodes := (run calls).builder.nodes, scopes := (run calls).builder.scopes, vars := (run calls).builder.vars
        functions := (run calls).builder.functions, root } := by
  have h := run_kept calls
  refine ⟨?_, rfl⟩
  exact {
    length := h.length_log
    answers := fun i call hcall => by rw [h.log, hcall]; rfl
    ids := fun i call hcall => Call.index_slot hfit hcall
    holds := fun i call hcall => h.holds hfit root hcall
    nodes := h.size_nodes
    scopes := h.size
    vars := h.size_vars
    functions := h.size_functions
    varsIn := fun id scope hscope => (h.scope_fields hscope).1
    functionsIn := fun id scope hscope => (h.scope_fields hscope).2
    declared := fun i call scope hcall htarget => h.timesDeclared_eq hfit root hcall htarget }

/-- Three variables, of which the second is meant for a scope that comes too late. -/
def strayed : List Call :=
  [.addScope none, .addVar ⟨0⟩ ⟨"a", .int⟩, .addVar ⟨1⟩ ⟨"b", .int⟩, .addScope (some ⟨0⟩), .addVar ⟨0⟩ ⟨"c", .double⟩,
    .addFunction ⟨1⟩ ⟨"f", .void, [], .native "f"⟩, .node (.load ⟨0⟩), .node (.int 1), .node (.binary .sub ⟨0⟩ ⟨1⟩),
    .node (.print [⟨2⟩]), .node (.block ⟨0⟩ [⟨3⟩])]

theorem run_exact_strayed : Call.Fit strayed ∧ Exact strayed (run strayed) ((run strayed).builder.finish ⟨4⟩) ∧
    (run strayed).varsIn ⟨0⟩ = [⟨0⟩, ⟨2⟩] := by
  have hfit : Call.Fit strayed := by
    intro kind
    cases kind <;> decide
  exact ⟨hfit, (run_exact hfit ⟨4⟩).1, by decide⟩

end Session

end Canon
