import Mathlib.Data.List.Forall2
import Canon.Program.Decode
import Canon.Program.Encode

/-!
# The ways to write a program

In the exchange format a program may be written in many ways. Each of its parts may be an object with its fields by
name, where fields with their defaults are left off, or an array of its fields in their order, and each name may stand by
itself or as the only member of an object. Here it is said of every part which values write it. A double is written in
one way, which is a parameter.
-/

namespace Canon

open Json

/-! ## Records -/

/-- A field of a record: the values that write it, and whether it holds its default. -/
structure Field where
  name : String
  Form : Json → Prop
  IsDefault : Prop

/-- The members of an object, in the order of the fields. A default need not be written. -/
inductive Members : List Field → List Member → Prop
  | nil : Members [] []
  | written {field : Field} {fields : List Field} {value : Json} {members : List Member} (hvalue : field.Form value)
    (hrest : Members fields members) : Members (field :: fields) ((some field.name, value) :: members)
  | omitted {field : Field} {fields : List Field} {members : List Member} (hdefault : field.IsDefault)
    (hrest : Members fields members) : Members (field :: fields) members

/-- The items of an array, which may end before fields that all hold their defaults. -/
inductive Items : List Field → List Json → Prop
  | ends {fields : List Field} (hdefaults : ∀ field ∈ fields, field.IsDefault) : Items fields []
  | written {field : Field} {fields : List Field} {value : Json} {items : List Json} (hvalue : field.Form value)
    (hrest : Items fields items) : Items (field :: fields) (value :: items)

inductive RecordForm (fields : List Field) : Json → Prop
  | keyed {members : List Member} (hmembers : Members fields members) : RecordForm fields (.object members)
  | positional {items : List Json} (hitems : Items fields items) : RecordForm fields (.array items)

/-! ## Fields -/

inductive NameForm (name : String) : Json → Prop
  | plain : NameForm name (ofString name)
  | wrapped : NameForm name (ofMembers [(name, .null)])

/-- An array that writes one part after the other. -/
def ListForm {α : Type} (Form : α → Json → Prop) (parts : List α) (j : Json) : Prop :=
  ∃ items, j = .array items ∧ List.Forall₂ Form parts items

namespace Field

/-- Written in one way only. -/
def fixed (name : String) (value : Json) : Field := ⟨name, (· = value), False⟩

def optional (name : String) (value : Json) (isDefault : Prop) : Field := ⟨name, (· = value), isDefault⟩

def named (name : String) (value : String) : Field := ⟨name, NameForm value, False⟩

def listed {α : Type} (name : String) (Form : α → Json → Prop) (parts : List α) : Field :=
  ⟨name, ListForm Form parts, False⟩

end Field

/-! ## Parts of a program -/

def Var.fields (v : Var) : List Field := [.fixed "name" (ofString v.name), .named "ty" v.type.name]

def Var.Form (v : Var) : Json → Prop := RecordForm v.fields

def Param.fields (p : Param) : List Field := [.fixed "name" (ofString p.name), .named "ty" p.type.name]

def Param.Form (p : Param) : Json → Prop := RecordForm p.fields

def Scope.fields (s : Scope) : List Field :=
  [.optional "vars" (encodeList VarId.encode s.vars) (s.vars = []),
    .optional "functions" (encodeList FunctionId.encode s.functions) (s.functions = []),
    .optional "parent" (encodeOption ScopeId.encode s.parent) (s.parent = none)]

def Scope.Form (s : Scope) : Json → Prop := RecordForm s.fields

def FunctionDecl.fields (f : FunctionDecl) : List Field :=
  [.fixed "name" (ofString f.name), .named "return_type" f.returnType.name, .listed "params" Param.Form f.params,
    .fixed "body" f.body.encode]

def FunctionDecl.Form (f : FunctionDecl) : Json → Prop := RecordForm f.fields

/-! A node names its kind first, and in an array it leaves nothing off. -/

namespace Node

def kind : Node → String
  | .binary .. => "binary_op"
  | .unary .. => "unary_op"
  | .block .. => "block"
  | .store .. => "store"
  | .string _ => "string_literal"
  | .double _ => "double_literal"
  | .int _ => "int_literal"
  | .load _ => "load"
  | .forIn .. => "for"
  | .whileLoop .. => "while"
  | .ifElse .. => "if"
  | .call .. => "call"
  | .print _ => "print"
  | .ret _ => "return"

def fields (double : Double → Json) : Node → List Field
  | .binary op left right => [.named "op" op.name, .fixed "left" left.encode, .fixed "right" right.encode]
  | .unary op operand => [.named "op" op.name, .fixed "operand" operand.encode]
  | .block scope stmts => [.fixed "scope" scope.encode, .fixed "stmts" (encodeList NodeId.encode stmts)]
  | .store var op value => [.fixed "var" var.encode, .named "op" op.name, .fixed "value" value.encode]
  | .string value => [.fixed "value" (ofString value)]
  | .double value => [.fixed "value" (double value)]
  | .int value => [.fixed "value" (.ofInt value.toInt)]
  | .load var => [.fixed "var" var.encode]
  | .forIn var range body => [.fixed "var" var.encode, .fixed "range" range.encode, .fixed "body" body.encode]
  | .whileLoop cond body => [.fixed "cond" cond.encode, .fixed "body" body.encode]
  | .ifElse cond thenBlock elseBlock =>
    [.fixed "cond" cond.encode, .fixed "then_block" thenBlock.encode,
      .optional "else_block" (encodeOption NodeId.encode elseBlock) (elseBlock = none)]
  | .call name args => [.fixed "name" (ofString name), .fixed "args" (encodeList NodeId.encode args)]
  | .print args => [.fixed "args" (encodeList NodeId.encode args)]
  | .ret value => [.optional "value" (encodeOption NodeId.encode value) (value = none)]

inductive Form (double : Double → Json) (node : Node) : Json → Prop
  | keyed {members : List Member} (hmembers : Members (node.fields double) members) :
    Form double node (.object ((some "kind", ofString node.kind) :: members))
  | positional {items : List Json} (hitems : List.Forall₂ Field.Form (node.fields double) items) :
    Form double node (.array (ofString node.kind :: items))

end Node

def Program.fields (double : Double → Json) (p : Program) : List Field :=
  [.listed "nodes" (Node.Form double) p.nodes.toList, .listed "scopes" Scope.Form p.scopes.toList,
    .listed "vars" Var.Form p.vars.toList,
    { Field.listed "functions" FunctionDecl.Form p.functions.toList with IsDefault := p.functions = #[] },
    .fixed "root" p.root.encode]

def Program.Form (double : Double → Json) (p : Program) : Json → Prop := RecordForm (p.fields double)

/-! ## An encoding is one of the ways -/

theorem encodeList_form {α : Type} {Form : α → Json → Prop} {encode : α → Json} {parts : List α}
    (h : ∀ part ∈ parts, Form part (encode part)) : ListForm Form parts (encodeList encode parts) :=
  ⟨_, rfl, List.forall₂_map_right_iff.mpr (List.forall₂_same.mpr h)⟩

theorem Var.encode_form (v : Var) : v.Form v.encode := .keyed (.written rfl (.written .plain .nil))

theorem Param.encode_form (p : Param) : p.Form p.encode := .keyed (.written rfl (.written .plain .nil))

theorem Scope.encode_form (s : Scope) : s.Form s.encode :=
  .keyed (.written rfl (.written rfl (.written rfl .nil)))

theorem FunctionDecl.encode_form (f : FunctionDecl) : f.Form f.encode :=
  have hparams := encodeList_form fun (param : Param) (_ : param ∈ f.params) => param.encode_form
  .keyed (.written rfl (.written .plain (.written hparams (.written rfl .nil))))

theorem Node.encodeWith_form (double : Double → Json) (n : Node) : n.Form double (n.encodeWith double) := by
  cases n with
  | binary => exact .keyed (.written .plain (.written rfl (.written rfl .nil)))
  | unary => exact .keyed (.written .plain (.written rfl .nil))
  | block => exact .keyed (.written rfl (.written rfl .nil))
  | store => exact .keyed (.written rfl (.written .plain (.written rfl .nil)))
  | string => exact .keyed (.written rfl .nil)
  | double => exact .keyed (.written rfl .nil)
  | int => exact .keyed (.written rfl .nil)
  | load => exact .keyed (.written rfl .nil)
  | forIn => exact .keyed (.written rfl (.written rfl (.written rfl .nil)))
  | whileLoop => exact .keyed (.written rfl (.written rfl .nil))
  | ifElse => exact .keyed (.written rfl (.written rfl (.written rfl .nil)))
  | call => exact .keyed (.written rfl (.written rfl .nil))
  | print => exact .keyed (.written rfl .nil)
  | ret => exact .keyed (.written rfl .nil)

theorem Program.encodeWith_form (double : Double → Json) (p : Program) : p.Form double (p.encodeWith double) := by
  have hnodes := encodeList_form fun (node : Node) (_ : node ∈ p.nodes.toList) => node.encodeWith_form double
  have hscopes := encodeList_form fun (scope : Scope) (_ : scope ∈ p.scopes.toList) => scope.encode_form
  have hvars := encodeList_form fun (var : Var) (_ : var ∈ p.vars.toList) => var.encode_form
  have hfunctions := encodeList_form fun (f : FunctionDecl) (_ : f ∈ p.functions.toList) => f.encode_form
  exact .keyed (.written hnodes (.written hscopes (.written hvars (.written hfunctions (.written rfl .nil)))))

end Canon
