import Canon.Proofs.Decoding

/-!
# Decoding keeps what is written

Every value that a program is decoded from has a normal form: its records are objects with all of their fields in order
and nothing else, what was left off is put in, and names stand by themselves. All else is copied. The program is encoded
as just this.
-/

namespace Canon

open Json

/-! ## Normal forms -/

namespace Json

/-- A field of a record: the member of an object with this name, or the item of an array at this place. -/
def field? (name : String) (place : Nat) : Json → Option Json
  | .object members => (members.find? fun m => m.1 = some name).map Prod.snd
  | .array items => items[place]?
  | _ => none

/-- The fields with these names, at these places and behind. -/
def fieldsFrom (place : Nat) (names : List String) (j : Json) : List (Option Json) :=
  (names.zipIdx place).map fun (name, i) => j.field? name i

/-- What a field is called, what becomes of its value, and what is put in where it is left off. -/
structure Slot where
  name : String
  form : Json → Json
  missing : Json

namespace Slot

def kept (name : String) : Slot := ⟨name, id, .null⟩

def formed (name : String) (form : Json → Json) : Slot := ⟨name, form, .null⟩

/-- Left off where it is an empty list. -/
def orEmpty (slot : Slot) : Slot := { slot with missing := .array [] }

def fill (slot : Slot) : Option Json → Json
  | some j => slot.form j
  | none => slot.missing

end Slot

def fillSlots (slots : List Slot) (found : List (Option Json)) : List (String × Json) :=
  List.zipWith (fun slot found => (slot.name, slot.fill found)) slots found

def recordForm (slots : List Slot) (j : Json) : Json :=
  ofMembers (fillSlots slots (j.fieldsFrom 0 (slots.map Slot.name)))

def listForm (form : Json → Json) : Json → Json
  | .array items => .array (items.map form)
  | j => j

/-- A name in an object of its own, with nothing in it, is taken out. -/
def nameForm (isNothing : Json → Bool) : Json → Json
  | .object [(name, value)] => if isNothing value then .string name else .object [(name, value)]
  | j => j

/-- A number is written anew as the double that it denotes. -/
def doubleForm (double : Double → Json) (j : Json) : Json := (j.double?.map double).getD j

end Json

def Var.slots : List Slot := [.kept "name", .formed "ty" (nameForm isNull)]

def Scope.slots : List Slot := [.orEmpty (.kept "vars"), .orEmpty (.kept "functions"), .kept "parent"]

def FunctionDecl.slots : List Slot :=
  [.kept "name", .formed "return_type" (nameForm isNull), .formed "params" (listForm (recordForm Var.slots)),
    .kept "body"]

section Nodes

variable (isNothing : Json → Bool) (double : Double → Json)

/-- The fields of a node of this kind. What counts as nothing behind the name of an operator is left open. -/
def Node.slots : String → List Slot
  | "binary_op" => [.formed "op" (nameForm isNothing), .kept "left", .kept "right"]
  | "unary_op" => [.formed "op" (nameForm isNothing), .kept "operand"]
  | "block" => [.kept "scope", .kept "stmts"]
  | "store" => [.kept "var", .formed "op" (nameForm isNothing), .kept "value"]
  | "string_literal" => [.kept "value"]
  | "double_literal" => [.formed "value" (doubleForm double)]
  | "int_literal" => [.kept "value"]
  | "load" => [.kept "var"]
  | "for" => [.kept "var", .kept "range", .kept "body"]
  | "while" => [.kept "cond", .kept "body"]
  | "if" => [.kept "cond", .kept "then_block", .kept "else_block"]
  | "call" => [.kept "name", .kept "args"]
  | "print" => [.kept "args"]
  | "return" => [.kept "value"]
  | _ => []

def Node.normal (j : Json) : Json :=
  recordForm (.kept "kind" :: Node.slots isNothing double (((j.field? "kind" 0).bind text?).getD "")) j

def Program.slots : List Slot :=
  [.formed "nodes" (listForm (Node.normal isNothing double)), .formed "scopes" (listForm (recordForm Scope.slots)),
    .formed "vars" (listForm (recordForm Var.slots)),
    .orEmpty (.formed "functions" (listForm (recordForm FunctionDecl.slots))), .kept "root"]

def Program.normal : Json → Json := recordForm (Program.slots isNothing double)

end Nodes

/-! ## Values -/

/-- What is decoded is encoded as the normal form of what was written. -/
def Keeps {α : Type} (decode : Json → Option α) (encode : α → Json) (form : Json → Json) : Prop :=
  ∀ {j : Json} {a : α}, decode j = some a → encode a = form j

theorem text?_keeps : Keeps text? ofString id := by
  intro j s h
  cases j with
  | string text => exact congrArg Json.string h.symm
  | _ => cases h

theorem int?_keeps : Keeps Json.int? ofInt id := by
  intro j n h
  cases j with
  | number written =>
    obtain ⟨negative, whole, fraction, exponent⟩ := written
    simp only [Json.int?, Number.int?, Numeral.isPlain, Option.ite_none_right_eq_some, Option.some.injEq,
      Bool.and_eq_true, List.isEmpty_iff, Option.isNone_iff_eq_none, Bool.not_eq_true', Bool.and_eq_false_iff,
      decide_eq_false_iff_not] at h
    obtain ⟨⟨⟨rfl, rfl⟩, hsign⟩, rfl⟩ := h
    have hnumber : Number.ofInt (if negative then -(whole : Int) else whole) = ⟨negative, { whole }⟩ := by
      cases negative with
      | true =>
        have hwhole : 0 < whole := by simpa [Nat.pos_iff_ne_zero] using hsign
        simp [Number.ofInt, hwhole]
      | false => simp [Number.ofInt]
    exact congrArg Json.number hnumber
  | _ => cases h

theorem intIn?_eq_some {low high n : Int} {j : Json} (h : j.intIn? low high = some n) :
    j = .ofInt n ∧ low ≤ n ∧ n ≤ high := by
  obtain ⟨m, hm, hbounds⟩ := Option.bind_eq_some_iff.mp h
  simp only [Bool.and_eq_true, decide_eq_true_eq, Option.ite_none_right_eq_some, Option.some.injEq] at hbounds
  obtain ⟨hbounds, rfl⟩ := hbounds
  exact ⟨(int?_keeps hm).symm, hbounds⟩

theorem uint32?_keeps : Keeps uint32? (fun n => ofInt n.toNat) id := by
  intro j n h
  obtain ⟨m, hm, rfl⟩ := Option.map_eq_some_iff.mp h
  obtain ⟨rfl, hlow, hhigh⟩ := intIn?_eq_some hm
  have hsmall : m.toNat < UInt32.size := by
    unfold UInt32.size at hhigh ⊢
    omega
  simp only [UInt32.toNat_ofNat_of_lt' hsmall, Int.toNat_of_nonneg hlow]
  rfl

theorem int64?_keeps : Keeps int64? (fun n => ofInt n.toInt) id := by
  intro j n h
  obtain ⟨m, hm, rfl⟩ := Option.map_eq_some_iff.mp h
  obtain ⟨rfl, hlow, hhigh⟩ := intIn?_eq_some hm
  simp only [Int64.toInt_ofInt_of_le hlow (Int.lt_of_le_of_lt hhigh (by decide))]
  rfl

theorem index_keeps {ι : Type} {make : UInt32 → ι} {index : ι → UInt32} (h : ∀ i, index (make i) = i) :
    Keeps (fun j => j.uint32?.map make) (fun id => ofInt (index id).toNat) id := by
  intro j id hdecode
  obtain ⟨i, hi, rfl⟩ := Option.map_eq_some_iff.mp hdecode
  simp only [h]
  exact uint32?_keeps hi

theorem NodeId.decode?_keeps : Keeps NodeId.decode? NodeId.encode id := index_keeps fun _ => rfl

theorem ScopeId.decode?_keeps : Keeps ScopeId.decode? ScopeId.encode id := index_keeps fun _ => rfl

theorem VarId.decode?_keeps : Keeps VarId.decode? VarId.encode id := index_keeps fun _ => rfl

theorem FunctionId.decode?_keeps : Keeps FunctionId.decode? FunctionId.encode id := index_keeps fun _ => rfl

theorem double?_keeps (double : Double → Json) : Keeps Json.double? double (doubleForm double) := by
  intro j x h
  rw [doubleForm, h]
  rfl

/-! ## Names -/

theorem nameIn?_keeps (isNothing : Json → Bool) : Keeps (nameIn? isNothing) ofString (nameForm isNothing) := by
  intro j name h
  unfold nameIn? at h
  split at h
  · exact congrArg Json.string h.symm
  · obtain ⟨hnothing, rfl⟩ := Option.ite_none_right_eq_some.mp h
    exact (if_pos hnothing).symm
  · cases h

theorem named_keeps {α : Type} {ofName? : String → Option α} {name : α → String} (isNothing : Json → Bool)
    (hname : ∀ {s a}, ofName? s = some a → name a = s) :
    Keeps (fun j => (nameIn? isNothing j).bind ofName?) (fun a => ofString (name a)) (nameForm isNothing) := by
  intro j a h
  obtain ⟨s, hs, ha⟩ := Option.bind_eq_some_iff.mp h
  obtain rfl := hname ha
  exact nameIn?_keeps isNothing hs

theorem BinaryOp.name_of_ofName? {name : String} {op : BinaryOp} (h : ofName? name = some op) : op.name = name := by
  simpa using List.find?_some h

theorem UnaryOp.name_of_ofName? {name : String} {op : UnaryOp} (h : ofName? name = some op) : op.name = name := by
  simpa using List.find?_some h

theorem AssignOp.name_of_ofName? {name : String} {op : AssignOp} (h : ofName? name = some op) : op.name = name := by
  simpa using List.find?_some h

theorem VarType.name_of_ofName? {name : String} {ty : VarType} (h : ofName? name = some ty) : ty.name = name := by
  simpa using List.find?_some h

theorem VarType.decode?_keeps : Keeps VarType.decode? (fun ty => ofString ty.name) (nameForm isNull) :=
  named_keeps isNull VarType.name_of_ofName?

/-! ## Lists and what may be null -/

theorem Keeps.mapM {α : Type} {decode : Json → Option α} {encode : α → Json} {form : Json → Json}
    (h : Keeps decode encode form) {items : List Json} {as : List α} (hitems : items.mapM decode = some as) :
    as.map encode = items.map form := by
  induction items generalizing as with
  | nil =>
    cases hitems
    rfl
  | cons item items ih =>
    simp only [List.mapM_cons, Option.bind_eq_bind, Option.bind_eq_some_iff, Option.pure_def,
      Option.some.injEq] at hitems
    obtain ⟨a, ha, as, has, rfl⟩ := hitems
    rw [List.map_cons, List.map_cons, h ha, ih has]

theorem Keeps.listOf {α : Type} {decode : Json → Option α} {encode : α → Json} {form : Json → Json}
    (h : Keeps decode encode form) : Keeps (listOf decode) (encodeList encode) (listForm form) := by
  intro j as hdecode
  obtain ⟨items, hitems, has⟩ := Option.bind_eq_some_iff.mp hdecode
  cases j with
  | array written =>
    cases hitems
    exact congrArg Json.array (h.mapM has)
  | _ => cases hitems

theorem listForm_id : listForm id = id := by
  funext j
  cases j <;> simp [listForm]

theorem Keeps.list {α : Type} {decode : Json → Option α} {encode : α → Json} (h : Keeps decode encode id) :
    Keeps (Json.listOf decode) (encodeList encode) id := by
  intro j as hdecode
  rw [h.listOf hdecode, listForm_id]

theorem Keeps.nullable {α : Type} {decode : Json → Option α} {encode : α → Json} (h : Keeps decode encode id) :
    Keeps (nullable decode) (encodeOption encode) id := by
  intro j o hdecode
  unfold Json.nullable at hdecode
  split at hdecode
  · cases hdecode
    rfl
  · obtain ⟨a, ha, rfl⟩ := Option.map_eq_some_iff.mp hdecode
    exact h ha

/-! ## Fields -/

theorem Keeps.orDefault {α : Type} {decode : Json → Option α} {encode : α → Json} {default a : α}
    {found : Option Json} (slot : Slot) (h : Keeps decode encode slot.form) (hmissing : encode default = slot.missing)
    (hdecode : orDefault default decode found = some a) : encode a = slot.fill found := by
  cases found with
  | none =>
    cases hdecode
    exact hmissing
  | some j => exact h hdecode

theorem member?_eq_some {name : String} {members : List Member} {found : Option Json}
    (h : member? name members = some found) (place : Nat) : (Json.object members).field? name place = found := by
  unfold member? at h
  rw [field?, ← List.head?_filter]
  split at h
  · next hnone =>
    rw [hnone]
    exact Option.some.inj h
  · next m hone =>
    rw [hone]
    exact Option.some.inj h
  · cases h

theorem fieldsFrom_cons (place : Nat) (name : String) (names : List String) (j : Json) :
    j.fieldsFrom place (name :: names) = j.field? name place :: j.fieldsFrom (place + 1) names := rfl

theorem fieldsFrom_items (before items : List Json) {names : List String} (h : items.length = names.length) :
    (Json.array (before ++ items)).fieldsFrom before.length names = items.map some := by
  induction items generalizing before names with
  | nil =>
    obtain rfl := List.length_eq_zero_iff.mp h.symm
    rfl
  | cons item items ih =>
    cases names with
    | nil => cases h
    | cons name names =>
      have hrest := ih (before ++ [item]) (Nat.succ.inj h)
      rw [List.length_append, List.append_assoc] at hrest
      rw [fieldsFrom_cons, List.map_cons, ← hrest, field?, List.getElem?_append_right (Nat.le_refl _), Nat.sub_self]
      rfl

theorem membersNamed?_eq_some {names : List String} {members : List Member} {found : List (Option Json)}
    (h : membersNamed? names members = some found) (place : Nat) :
    found = (Json.object members).fieldsFrom place names := by
  obtain ⟨-, hfound⟩ := Option.ite_none_right_eq_some.mp h
  clear h
  induction names generalizing found place with
  | nil =>
    cases hfound
    rfl
  | cons name names ih =>
    simp only [List.mapM_cons, Option.bind_eq_bind, Option.bind_eq_some_iff, Option.pure_def,
      Option.some.injEq] at hfound
    obtain ⟨o, ho, others, hothers, rfl⟩ := hfound
    rw [fieldsFrom_cons, ← ih (place + 1) hothers, member?_eq_some ho]

theorem recordForm_eq (slots : List Slot) {j : Json} {found : List (Option Json)}
    (h : j.record? (slots.map Slot.name) = some found) : recordForm slots j = ofMembers (fillSlots slots found) := by
  cases j with
  | object members =>
    obtain rfl := membersNamed?_eq_some h 0
    rfl
  | array items =>
    obtain ⟨-, hfound⟩ := Option.ite_none_right_eq_some.mp h
    cases hfound
    rfl
  | _ => cases h

/-! ## Declarations -/

theorem Var.decode?_keeps : Keeps Var.decode? Var.encode (recordForm Var.slots) := by
  intro j v h
  obtain ⟨found, hfound, h⟩ := Option.bind_eq_some_iff.mp h
  rw [recordForm_eq Var.slots hfound]
  split at h
  · simp only [Option.bind_eq_bind, Option.bind_eq_some_iff, Option.some.injEq] at h
    obtain ⟨name, hname, type, htype, rfl⟩ := h
    have htype : ofString type.name = _ := VarType.decode?_keeps htype
    rw [Var.encode, text?_keeps hname, htype]
    rfl
  · cases h

theorem Param.decode?_keeps : Keeps Param.decode? Param.encode (recordForm Var.slots) := by
  intro j p h
  obtain ⟨found, hfound, h⟩ := Option.bind_eq_some_iff.mp h
  rw [recordForm_eq Var.slots hfound]
  split at h
  · simp only [Option.bind_eq_bind, Option.bind_eq_some_iff, Option.some.injEq] at h
    obtain ⟨name, hname, type, htype, rfl⟩ := h
    have htype : ofString type.name = _ := VarType.decode?_keeps htype
    rw [Param.encode, text?_keeps hname, htype]
    rfl
  · cases h

theorem Scope.decode?_keeps : Keeps Scope.decode? Scope.encode (recordForm Scope.slots) := by
  intro j s h
  obtain ⟨found, hfound, h⟩ := Option.bind_eq_some_iff.mp h
  rw [recordForm_eq Scope.slots hfound]
  split at h
  · simp only [Option.bind_eq_bind, Option.bind_eq_some_iff, Option.some.injEq] at h
    obtain ⟨vars, hvars, functions, hfunctions, parent, hparent, rfl⟩ := h
    have hvars := Keeps.orDefault (.orEmpty (.kept "vars")) VarId.decode?_keeps.list rfl hvars
    have hfunctions := Keeps.orDefault (.orEmpty (.kept "functions")) FunctionId.decode?_keeps.list rfl hfunctions
    have hparent := Keeps.orDefault (.kept "parent") ScopeId.decode?_keeps.nullable rfl hparent
    rw [Scope.encode, hvars, hfunctions, hparent]
    rfl
  · cases h

theorem FunctionBody.decode?_keeps : Keeps FunctionBody.decode? FunctionBody.encode id := by
  intro j body h
  unfold FunctionBody.decode? at h
  split at h
  · obtain ⟨block, hblock, rfl⟩ := Option.map_eq_some_iff.mp h
    rw [FunctionBody.encode, NodeId.decode?_keeps hblock]
    rfl
  · obtain ⟨symbol, hsymbol, rfl⟩ := Option.map_eq_some_iff.mp h
    rw [FunctionBody.encode, text?_keeps hsymbol]
    rfl
  · cases h

theorem FunctionDecl.decode?_keeps :
    Keeps FunctionDecl.decode? FunctionDecl.encode (recordForm FunctionDecl.slots) := by
  intro j f h
  obtain ⟨found, hfound, h⟩ := Option.bind_eq_some_iff.mp h
  rw [recordForm_eq FunctionDecl.slots hfound]
  split at h
  · simp only [Option.bind_eq_bind, Option.bind_eq_some_iff, Option.some.injEq] at h
    obtain ⟨name, hname, type, htype, params, hparams, body, hbody, rfl⟩ := h
    have htype : ofString type.name = _ := VarType.decode?_keeps htype
    rw [FunctionDecl.encode, text?_keeps hname, htype, Param.decode?_keeps.listOf hparams,
      FunctionBody.decode?_keeps hbody]
    rfl
  · cases h

/-! ## Nodes -/

section Nodes

variable (double : Double → Json)

theorem Node.ofFields?_keeps {kind : String} {found : List (Option Json)} {node : Node}
    (h : ofFields? kind found = some node) : node.encodeWith double =
      ofMembers (("kind", ofString kind) :: fillSlots (slots isNullOrEmpty double kind) found) := by
  have hbinary {j : Json} {op : BinaryOp} (h : ∃ s, nameIn? isNullOrEmpty j = some s ∧ BinaryOp.ofName? s = some op) :
      ofString op.name = nameForm isNullOrEmpty j :=
    named_keeps isNullOrEmpty BinaryOp.name_of_ofName? (Option.bind_eq_some_iff.mpr h)
  have hunary {j : Json} {op : UnaryOp} (h : ∃ s, nameIn? isNullOrEmpty j = some s ∧ UnaryOp.ofName? s = some op) :
      ofString op.name = nameForm isNullOrEmpty j :=
    named_keeps isNullOrEmpty UnaryOp.name_of_ofName? (Option.bind_eq_some_iff.mpr h)
  have hassign {j : Json} {op : AssignOp} (h : ∃ s, nameIn? isNullOrEmpty j = some s ∧ AssignOp.ofName? s = some op) :
      ofString op.name = nameForm isNullOrEmpty j :=
    named_keeps isNullOrEmpty AssignOp.name_of_ofName? (Option.bind_eq_some_iff.mpr h)
  unfold ofFields? at h
  -- One case for each kind, with as many fields as the kind has.
  split at h
  all_goals simp only [Option.bind_eq_bind, Option.bind_eq_some_iff, Option.some.injEq, reduceCtorEq] at h
  · obtain ⟨op, hop, left, hleft, right, hright, rfl⟩ := h
    rw [encodeWith, hbinary hop, NodeId.decode?_keeps hleft, NodeId.decode?_keeps hright]
    rfl
  · obtain ⟨op, hop, operand, hoperand, rfl⟩ := h
    rw [encodeWith, hunary hop, NodeId.decode?_keeps hoperand]
    rfl
  · obtain ⟨scope, hscope, stmts, hstmts, rfl⟩ := h
    rw [encodeWith, ScopeId.decode?_keeps hscope, NodeId.decode?_keeps.list hstmts]
    rfl
  · obtain ⟨op, hop, var, hvar, value, hvalue, rfl⟩ := h
    rw [encodeWith, VarId.decode?_keeps hvar, hassign hop, NodeId.decode?_keeps hvalue]
    rfl
  · obtain ⟨value, hvalue, rfl⟩ := h
    rw [encodeWith, text?_keeps hvalue]
    rfl
  · obtain ⟨value, hvalue, rfl⟩ := h
    rw [encodeWith, double?_keeps double hvalue]
    rfl
  · obtain ⟨value, hvalue, rfl⟩ := h
    have hvalue : ofInt value.toInt = _ := int64?_keeps hvalue
    rw [encodeWith, hvalue]
    rfl
  · obtain ⟨var, hvar, rfl⟩ := h
    rw [encodeWith, VarId.decode?_keeps hvar]
    rfl
  · obtain ⟨var, hvar, range, hrange, body, hbody, rfl⟩ := h
    rw [encodeWith, VarId.decode?_keeps hvar, NodeId.decode?_keeps hrange, NodeId.decode?_keeps hbody]
    rfl
  · obtain ⟨cond, hcond, body, hbody, rfl⟩ := h
    rw [encodeWith, NodeId.decode?_keeps hcond, NodeId.decode?_keeps hbody]
    rfl
  · obtain ⟨cond, hcond, thenBlock, hthen, elseBlock, helse, rfl⟩ := h
    have helse := Keeps.orDefault (.kept "else_block") NodeId.decode?_keeps.nullable rfl helse
    rw [encodeWith, NodeId.decode?_keeps hcond, NodeId.decode?_keeps hthen, helse]
    rfl
  · obtain ⟨name, hname, args, hargs, rfl⟩ := h
    rw [encodeWith, text?_keeps hname, NodeId.decode?_keeps.list hargs]
    rfl
  · obtain ⟨args, hargs, rfl⟩ := h
    rw [encodeWith, NodeId.decode?_keeps.list hargs]
    rfl
  · obtain ⟨value, hvalue, rfl⟩ := h
    have hvalue := Keeps.orDefault (.kept "value") NodeId.decode?_keeps.nullable rfl hvalue
    rw [encodeWith, hvalue]
    rfl

theorem Node.slots_names {kind : String} {names : List String} (h : fieldNames kind = some names) :
    (slots isNullOrEmpty double kind).map Slot.name = names := by
  unfold fieldNames at h
  split at h
  all_goals cases h
  all_goals rfl

theorem Node.normal_eq {j kindJson : Json} {kind : String} {names : List String}
    (hkind : j.field? "kind" 0 = some kindJson) (htext : kindJson.text? = some kind)
    (hnames : fieldNames kind = some names) : normal isNullOrEmpty double j =
      ofMembers (("kind", ofString kind) :: fillSlots (slots isNullOrEmpty double kind) (j.fieldsFrom 1 names)) := by
  have hslots : ((j.field? "kind" 0).bind text?).getD "" = kind := by
    rw [hkind, Option.bind_some, htext, Option.getD_some]
  have hname : (Slot.kept "kind").name = "kind" := rfl
  have hform : ofString kind = kindJson := text?_keeps htext
  rw [normal, hslots, recordForm, List.map_cons, slots_names double hnames, hname, fieldsFrom_cons, hkind, hform]
  rfl

theorem Node.decode?_keeps (room : Nat) :
    Keeps (Node.decode? room) (Node.encodeWith double) (Node.normal isNullOrEmpty double) := by
  intro j node h
  obtain ⟨-, h⟩ := Option.ite_none_right_eq_some.mp h
  split at h
  · simp only [Option.bind_eq_bind, Option.bind_eq_some_iff] at h
    obtain ⟨o, ho, kindJson, rfl, kind, htext, names, hnames, found, hfound, hnode⟩ := h
    rw [normal_eq double (member?_eq_some ho 0) htext hnames, ← membersNamed?_eq_some hfound 1]
    exact ofFields?_keeps double hnode
  · next kindJson items _ =>
    simp only [Option.bind_eq_bind, Option.bind_eq_some_iff] at h
    obtain ⟨kind, htext, names, hnames, h⟩ := h
    obtain ⟨hlength, hnode⟩ := Option.ite_none_right_eq_some.mp h
    have hfound : (Json.array (kindJson :: items)).fieldsFrom 1 names = items.map some :=
      fieldsFrom_items [kindJson] items hlength
    rw [normal_eq double rfl htext hnames, hfound]
    exact ofFields?_keeps double hnode
  · cases h

end Nodes

/-! ## Programs -/

theorem Program.decode?_keeps (double : Double → Json) :
    Keeps Program.decode? (Program.encodeWith double) (Program.normal isNullOrEmpty double) := by
  intro j p h
  obtain ⟨found, hfound, h⟩ := Option.bind_eq_some_iff.mp h
  rw [Program.normal, recordForm_eq (Program.slots isNullOrEmpty double) hfound]
  split at h
  · simp only [Option.bind_eq_bind, Option.bind_eq_some_iff, Option.some.injEq] at h
    obtain ⟨nodes, hnodes, scopes, hscopes, vars, hvars, functions, hfunctions, root, hroot, rfl⟩ := h
    have hnodes := Keeps.listOf (Node.decode?_keeps double _) hnodes
    have hscopes := Keeps.listOf Scope.decode?_keeps hscopes
    have hvars := Keeps.listOf Var.decode?_keeps hvars
    have hfunctions := Keeps.orDefault (.orEmpty (.formed "functions" (listForm (recordForm FunctionDecl.slots))))
      (Keeps.listOf FunctionDecl.decode?_keeps) rfl hfunctions
    simp only [encodeWith, hnodes, hscopes, hvars, hfunctions, NodeId.decode?_keeps hroot]
    rfl
  · cases h

/-- A program is encoded as the normal form of whatever it was decoded from, however its doubles are written. What is
decoded as an id or an integer is written as just this number. -/
theorem Program.encodeWith_of_decode? : (∀ j p, Program.decode? j = some p → ∀ double : Double → Json,
      p.encodeWith double = Program.normal isNullOrEmpty double j) ∧
    (∀ (j : Json) n, j.uint32? = some n ↔ j = .ofInt n.toNat) ∧
    ∀ (j : Json) n, j.int64? = some n ↔ j = .ofInt n.toInt := by
  refine ⟨?_, fun j n => ⟨fun h => (uint32?_keeps h).symm, ?_⟩, fun j n => ⟨fun h => (int64?_keeps h).symm, ?_⟩⟩
  · intro j p h double
    exact Program.decode?_keeps double h
  · rintro rfl
    exact uint32?_ofInt n
  · rintro rfl
    exact int64?_ofInt n

/-- An array of the fields, in which all kinds of forms occur. -/
def mixed : Json :=
  .array [
    .array [
      ofMembers [("stmts", .array [.ofInt 1]), ("scope", .ofInt 0), ("kind", ofString "block"), ("line", .ofInt 7)],
      .array [ofString "store", .ofInt 0, .object [(some "sub_assign", .object [])], .ofInt 2],
      .array [ofString "unary_op", ofMembers [("neg", .null)], .ofInt 3],
      .array [ofString "double_literal", .ofInt 1]],
    .array [ofMembers [("vars", .array [.ofInt 0])]],
    .array [.array [ofString "x", ofMembers [("double", .null)]]],
    .array [],
    .ofInt 0]

def mixedProgram : Program where
  nodes := #[.block ⟨0⟩ [⟨1⟩], .store ⟨0⟩ .subAssign ⟨2⟩, .unary .neg ⟨3⟩, .double ⟨0x3FF0000000000000⟩]
  scopes := #[{ vars := [⟨0⟩] }]
  vars := #[⟨"x", .double⟩]
  functions := #[]
  root := ⟨0⟩

theorem Program.encodeWith_of_decode?_mixed : Program.decode? mixed = some mixedProgram ∧
    ∀ double : Double → Json, mixedProgram.encodeWith double = Program.normal isNullOrEmpty double mixed := by
  have hdecode : Program.decode? mixed = some mixedProgram := by decide +kernel
  exact ⟨hdecode, Program.encodeWith_of_decode?.1 mixed mixedProgram hdecode⟩

/-- A program of one node that is below itself, with an empty object behind the name of its operator. -/
def emptied : Json :=
  ofMembers [
    ("nodes", .array [.array [ofString "unary_op", .object [(some "neg", .object [])], .ofInt 0]]),
    ("scopes", .array []), ("vars", .array []), ("root", .ofInt 0)]

/-- In a node, a name with an empty object behind it is read as the name. -/
theorem Program.encode_emptied_ne : ∃ p, Program.decode? emptied = some p ∧
    ∀ double : Double → Json, p.encodeWith double ≠ Program.normal isNull double emptied := by
  refine ⟨⟨#[.unary .neg ⟨0⟩], #[], #[], #[], ⟨0⟩⟩, by decide +kernel, fun double h => ?_⟩
  have hop := congrArg (fun j => (((j.field? "nodes" 0).bind items?).bind (·[0]?)).bind fun node =>
    (node.field? "op" 1).bind text?) h
  cases hop

end Canon
