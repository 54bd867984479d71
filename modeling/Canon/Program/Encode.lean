import Canon.Json.Basic
import Canon.Program.Basic

/-!
# Encoding a program

Every part is written as an object with all of its fields, those that hold their defaults too. How a double is written
is left open: the exchange format takes a number that is read back as it, and a dump can show the bits instead.
-/

namespace Canon

open Json

def NodeId.encode (id : NodeId) : Json := .ofInt id.index.toNat

def ScopeId.encode (id : ScopeId) : Json := .ofInt id.index.toNat

def VarId.encode (id : VarId) : Json := .ofInt id.index.toNat

def FunctionId.encode (id : FunctionId) : Json := .ofInt id.index.toNat

def encodeOption {α : Type} (encode : α → Json) : Option α → Json
  | some a => encode a
  | none => .null

def encodeList {α : Type} (encode : α → Json) (as : List α) : Json := .array (as.map encode)

def Node.encodeWith (double : Double → Json) : Node → Json
  | .binary op left right =>
    ofMembers [("kind", ofString "binary_op"), ("op", ofString op.name), ("left", left.encode), ("right", right.encode)]
  | .unary op operand =>
    ofMembers [("kind", ofString "unary_op"), ("op", ofString op.name), ("operand", operand.encode)]
  | .block scope stmts =>
    ofMembers [("kind", ofString "block"), ("scope", scope.encode), ("stmts", encodeList NodeId.encode stmts)]
  | .store var op value =>
    ofMembers [("kind", ofString "store"), ("var", var.encode), ("op", ofString op.name), ("value", value.encode)]
  | .string value => ofMembers [("kind", ofString "string_literal"), ("value", ofString value)]
  | .double value => ofMembers [("kind", ofString "double_literal"), ("value", double value)]
  | .int value => ofMembers [("kind", ofString "int_literal"), ("value", .ofInt value.toInt)]
  | .load var => ofMembers [("kind", ofString "load"), ("var", var.encode)]
  | .forIn var range body =>
    ofMembers [("kind", ofString "for"), ("var", var.encode), ("range", range.encode), ("body", body.encode)]
  | .whileLoop cond body => ofMembers [("kind", ofString "while"), ("cond", cond.encode), ("body", body.encode)]
  | .ifElse cond thenBlock elseBlock =>
    ofMembers [("kind", ofString "if"), ("cond", cond.encode), ("then_block", thenBlock.encode),
      ("else_block", encodeOption NodeId.encode elseBlock)]
  | .call name args =>
    ofMembers [("kind", ofString "call"), ("name", ofString name), ("args", encodeList NodeId.encode args)]
  | .print args => ofMembers [("kind", ofString "print"), ("args", encodeList NodeId.encode args)]
  | .ret value => ofMembers [("kind", ofString "return"), ("value", encodeOption NodeId.encode value)]

def Var.encode (v : Var) : Json := ofMembers [("name", ofString v.name), ("ty", ofString v.type.name)]

def Param.encode (p : Param) : Json := ofMembers [("name", ofString p.name), ("ty", ofString p.type.name)]

def Scope.encode (s : Scope) : Json :=
  ofMembers [("vars", encodeList VarId.encode s.vars), ("functions", encodeList FunctionId.encode s.functions),
    ("parent", encodeOption ScopeId.encode s.parent)]

def FunctionBody.encode : FunctionBody → Json
  | .block id => ofMembers [("block", id.encode)]
  | .native symbol => ofMembers [("native", ofString symbol)]

def FunctionDecl.encode (f : FunctionDecl) : Json :=
  ofMembers [("name", ofString f.name), ("return_type", ofString f.returnType.name),
    ("params", encodeList Param.encode f.params), ("body", f.body.encode)]

def Program.encodeWith (double : Double → Json) (p : Program) : Json :=
  ofMembers [("nodes", encodeList (Node.encodeWith double) p.nodes.toList),
    ("scopes", encodeList Scope.encode p.scopes.toList), ("vars", encodeList Var.encode p.vars.toList),
    ("functions", encodeList FunctionDecl.encode p.functions.toList), ("root", p.root.encode)]

end Canon
