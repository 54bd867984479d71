import Canon.Proofs.Forms
import Canon.Proofs.JsonText
import Canon.Proofs.Overflow
import Canon.Tool.FrontEnd

/-!
# A program is read back

However a program is written, it is decoded to itself: each part is found where the form of its record puts it, and
nothing else decodes to the same place. The one assumption is that the doubles of the program are read as what they were
written for, which not every reader of numbers sees to.
-/

namespace Canon

open Json

/-! ## Records -/

namespace Json

theorem member?_absent {name : String} {members : List Member} (h : ∀ m ∈ members, m.1 ≠ some name) :
    member? name members = some none := by
  have hnone : members.filter (fun m => m.1 = some name) = [] := by simpa using h
  rw [member?, hnone]

theorem member?_append {name : String} {before after : List Member} (h : ∀ m ∈ before, m.1 ≠ some name) :
    member? name (before ++ after) = member? name after := by
  have hnone : before.filter (fun m => m.1 = some name) = [] := by simpa using h
  rw [member?, List.filter_append, hnone, List.nil_append, member?]

theorem member?_cons {name : String} {value : Json} {members : List Member} (h : ∀ m ∈ members, m.1 ≠ some name) :
    member? name ((some name, value) :: members) = some (some value) := by
  have hnone : members.filter (fun m => m.1 = some name) = [] := by simpa using h
  rw [member?, List.filter_cons_of_pos (by simp), hnone]

end Json

/-- What is found for a field: a value that writes it, or nothing if it holds its default. -/
def Field.Finds (field : Field) : Option Json → Prop
  | some value => field.Form value
  | none => field.IsDefault

namespace Members

variable {fields : List Field} {members : List Member}

theorem name_mem (h : Members fields members) : ∀ m ∈ members, ∃ field ∈ fields, m.1 = some field.name := by
  induction h with
  | nil => simp
  | written hvalue hrest ih =>
    refine List.forall_mem_cons.mpr ⟨⟨_, List.mem_cons_self, rfl⟩, fun m hm => ?_⟩
    obtain ⟨field, hfield, hname⟩ := ih m hm
    exact ⟨field, List.mem_cons_of_mem _ hfield, hname⟩
  | omitted hdefault hrest ih =>
    intro m hm
    obtain ⟨field, hfield, hname⟩ := ih m hm
    exact ⟨field, List.mem_cons_of_mem _ hfield, hname⟩

theorem name_ne {name : String} (h : Members fields members) (hname : name ∉ fields.map Field.name) :
    ∀ m ∈ members, m.1 ≠ some name := by
  rintro m hm heq
  obtain ⟨field, hfield, hfound⟩ := h.name_mem m hm
  rw [heq, Option.some.injEq] at hfound
  exact hname (hfound ▸ List.mem_map_of_mem hfield)

theorem mapM_member? (h : Members fields members) (hnodup : (fields.map Field.name).Nodup) {before : List Member}
    (hbefore : ∀ m ∈ before, ∀ field ∈ fields, m.1 ≠ some field.name) : ∃ found, List.Forall₂ Field.Finds fields found ∧
      (fields.map Field.name).mapM (fun name => member? name (before ++ members)) = some found := by
  induction h generalizing before with
  | nil => exact ⟨[], .nil, rfl⟩
  | @written field fields value members hvalue hrest ih =>
    obtain ⟨hname, hnodup⟩ := List.nodup_cons.mp hnodup
    have hskip : ∀ m ∈ before ++ [(some field.name, value)], ∀ other ∈ fields, m.1 ≠ some other.name := by
      intro m hm other hother
      rcases List.mem_append.mp hm with hm | hm
      · exact hbefore m hm other (List.mem_cons_of_mem _ hother)
      · rw [List.mem_singleton.mp hm]
        exact fun heq => hname (Option.some.inj heq ▸ List.mem_map_of_mem hother)
    obtain ⟨found, hfound, hmap⟩ := ih hnodup hskip
    rw [List.append_assoc, List.singleton_append] at hmap
    refine ⟨some value :: found, .cons hvalue hfound, ?_⟩
    rw [List.map_cons, List.mapM_cons, hmap, member?_append (fun m hm => hbefore m hm field List.mem_cons_self),
      member?_cons (hrest.name_ne hname)]
    rfl
  | @omitted field fields members hdefault hrest ih =>
    obtain ⟨hname, hnodup⟩ := List.nodup_cons.mp hnodup
    obtain ⟨found, hfound, hmap⟩ := ih hnodup fun m hm other hother => hbefore m hm other (List.mem_cons_of_mem _ hother)
    refine ⟨none :: found, .cons hdefault hfound, ?_⟩
    rw [List.map_cons, List.mapM_cons, hmap, member?_append (fun m hm => hbefore m hm field List.mem_cons_self),
      member?_absent (hrest.name_ne hname)]
    rfl

theorem membersNamed? (h : Members fields members) (hnodup : (fields.map Field.name).Nodup) {before : List Member}
    (hbefore : ∀ m ∈ before, m.1.isSome ∧ ∀ field ∈ fields, m.1 ≠ some field.name) : ∃ found,
      List.Forall₂ Field.Finds fields found ∧
      membersNamed? (fields.map Field.name) (before ++ members) = some found := by
  obtain ⟨found, hfound, hmap⟩ := h.mapM_member? hnodup fun m hm => (hbefore m hm).2
  refine ⟨found, hfound, ?_⟩
  have hnamed : (before ++ members).all (fun m => m.1.isSome) = true := by
    rw [List.all_append, Bool.and_eq_true, List.all_eq_true, List.all_eq_true]
    refine ⟨fun m hm => (hbefore m hm).1, fun m hm => ?_⟩
    obtain ⟨field, -, hname⟩ := h.name_mem m hm
    rw [hname]
    rfl
  rw [Json.membersNamed?, if_pos hnamed, hmap]

end Members

namespace Items

theorem length_le {fields : List Field} {items : List Json} (h : Items fields items) : items.length ≤ fields.length := by
  induction h with
  | ends => exact Nat.zero_le _
  | written hvalue hrest ih => exact Nat.succ_le_succ ih

theorem finds_defaults {fields : List Field} (h : ∀ field ∈ fields, field.IsDefault) :
    List.Forall₂ Field.Finds fields (List.replicate fields.length none) := by
  induction fields with
  | nil => exact .nil
  | cons field fields ih =>
    obtain ⟨hfield, hfields⟩ := List.forall_mem_cons.mp h
    exact .cons hfield (ih hfields)

theorem finds {fields : List Field} {items : List Json} (h : Items fields items) :
    List.Forall₂ Field.Finds fields ((List.range fields.length).map (items[·]?)) := by
  induction h with
  | @ends fields hdefaults =>
    have hnone : (List.range fields.length).map (([] : List Json)[·]?) = List.replicate fields.length none := by
      simp [List.map_const']
    rw [hnone]
    exact finds_defaults hdefaults
  | written hvalue hrest ih =>
    rw [List.length_cons, List.range_succ_eq_map, List.map_cons, List.map_map]
    exact .cons hvalue ih

end Items

theorem RecordForm.record? {fields : List Field} {j : Json} (h : RecordForm fields j) (names : List String)
    (hnames : fields.map Field.name = names) (hnodup : names.Nodup) :
    ∃ found, List.Forall₂ Field.Finds fields found ∧ j.record? names = some found := by
  subst hnames
  cases h with
  | keyed hmembers => exact @Members.membersNamed? _ _ hmembers hnodup [] (by simp)
  | @positional items hitems =>
    refine ⟨_, hitems.finds, ?_⟩
    have hplaces : (fields.map Field.name).zipIdx.map Prod.snd = List.range fields.length := by
      rw [List.zipIdx_map_snd, List.length_map, List.range_eq_range']
    rw [Json.record?, if_pos (by rw [List.length_map]; exact hitems.length_le), ← hplaces, List.map_map]
    rfl

/-! ## Values -/

theorem intIn?_ofInt {low high n : Int} (hlow : low ≤ n) (hhigh : n ≤ high) :
    (Json.ofInt n).intIn? low high = some n := by
  have hint : (Json.ofInt n).int? = some n := Json.Number.int?_ofInt n
  simp [Json.intIn?, hint, hlow, hhigh]

theorem uint32?_ofInt (n : UInt32) : (Json.ofInt n.toNat).uint32? = some n := by
  have hlt := n.toNat_lt
  have hhigh : (n.toNat : Int) ≤ (UInt32.size - 1 : Nat) := by
    unfold UInt32.size
    omega
  rw [Json.uint32?, intIn?_ofInt (Int.natCast_nonneg _) hhigh, Option.map_some, Int.toNat_natCast, UInt32.ofNat_toNat]

theorem int64?_ofInt (n : Int64) : (Json.ofInt n.toInt).int64? = some n := by
  rw [Json.int64?, intIn?_ofInt (Int64.minValue_le_toInt n) n.toInt_le, Option.map_some, Int64.ofInt_toInt]

theorem NodeId.decode?_encode (id : NodeId) : NodeId.decode? id.encode = some id := by
  rw [NodeId.decode?, NodeId.encode, uint32?_ofInt]
  rfl

theorem ScopeId.decode?_encode (id : ScopeId) : ScopeId.decode? id.encode = some id := by
  rw [ScopeId.decode?, ScopeId.encode, uint32?_ofInt]
  rfl

theorem VarId.decode?_encode (id : VarId) : VarId.decode? id.encode = some id := by
  rw [VarId.decode?, VarId.encode, uint32?_ofInt]
  rfl

theorem FunctionId.decode?_encode (id : FunctionId) : FunctionId.decode? id.encode = some id := by
  rw [FunctionId.decode?, FunctionId.encode, uint32?_ofInt]
  rfl

theorem listOf_form {α : Type} {Form : α → Json → Prop} {decode : Json → Option α} {parts : List α} {j : Json}
    (hform : ListForm Form parts j) (h : ∀ part ∈ parts, ∀ j, Form part j → decode j = some part) :
    listOf decode j = some parts := by
  obtain ⟨items, rfl, hitems⟩ := hform
  have hmap : items.mapM decode = some parts := by
    induction hitems with
    | nil => rfl
    | cons hitem hitems ih =>
      obtain ⟨hpart, hparts⟩ := List.forall_mem_cons.mp h
      rw [List.mapM_cons, hpart _ hitem, ih hparts]
      rfl
  exact hmap

theorem listOf_encodeList {α : Type} {encode : α → Json} {decode : Json → Option α}
    (h : ∀ a, decode (encode a) = some a) (as : List α) : listOf decode (encodeList encode as) = some as :=
  listOf_form (@encodeList_form α (fun a j => j = encode a) encode as fun _ _ => rfl) fun a _ _ hj => hj ▸ h a

theorem nullable_encodeOption {α : Type} {encode : α → Json} {decode : Json → Option α}
    (h : ∀ a, decode (encode a) = some a) (hnull : decode .null = none) (o : Option α) :
    nullable decode (encodeOption encode o) = some o := by
  cases o with
  | none => rfl
  | some a =>
    have hdecode := h a
    rw [encodeOption]
    unfold nullable
    split
    · next heq => rw [heq, hnull] at hdecode; cases hdecode
    · rw [hdecode]; rfl

theorem nameIn?_form {name : String} {j : Json} {isNothing : Json → Bool} (h : NameForm name j)
    (hnull : isNothing .null = true) : nameIn? isNothing j = some name := by
  cases h with
  | plain => rfl
  | wrapped => exact if_pos hnull

/-! ## Fields -/

namespace Field

theorem finds_fixed {name : String} {value : Json} {found : Option Json} :
    (Field.fixed name value).Finds found ↔ found = some value := by
  cases found <;> simp [Finds, fixed]

theorem finds_named {name value : String} {found : Option Json} :
    (Field.named name value).Finds found ↔ ∃ j, NameForm value j ∧ found = some j := by
  cases found <;> simp [Finds, named]

theorem finds_listed {α : Type} {name : String} {Form : α → Json → Prop} {parts : List α} {found : Option Json} :
    (Field.listed name Form parts).Finds found ↔ ∃ j, ListForm Form parts j ∧ found = some j := by
  cases found <;> simp [Finds, listed]

theorem orDefault_optional {α : Type} {name : String} {a default : α} {encode : α → Json} {decode : Json → Option α}
    {found : Option Json} (h : (Field.optional name (encode a) (a = default)).Finds found)
    (hdecode : decode (encode a) = some a) : orDefault default decode found = some a := by
  cases found with
  | none => rw [orDefault, show a = default from h]
  | some j => rw [orDefault, show j = encode a from h, hdecode]

end Field

/-! ## Parts -/

theorem VarType.decode?_form {ty : VarType} {j : Json} (h : NameForm ty.name j) : VarType.decode? j = some ty := by
  rw [VarType.decode?, nameIn?_form h rfl, Option.bind_some, VarType.ofName?_name]

theorem Var.decode?_form {v : Var} {j : Json} (h : v.Form j) : Var.decode? j = some v := by
  obtain ⟨found, hfound, hrecord⟩ := RecordForm.record? h ["name", "ty"] rfl (by decide)
  simp only [Var.fields, List.forall₂_cons_left_iff, List.forall₂_nil_left_iff, Field.finds_fixed, Field.finds_named]
    at hfound
  obtain ⟨_, _, rfl, ⟨_, _, ⟨ty, hty, rfl⟩, rfl, rfl⟩, rfl⟩ := hfound
  simp only [Var.decode?, hrecord, VarType.decode?_form hty, Option.bind_eq_bind, Option.bind_some, ofString, text?]

theorem Param.decode?_form {p : Param} {j : Json} (h : p.Form j) : Param.decode? j = some p := by
  obtain ⟨found, hfound, hrecord⟩ := RecordForm.record? h ["name", "ty"] rfl (by decide)
  simp only [Param.fields, List.forall₂_cons_left_iff, List.forall₂_nil_left_iff, Field.finds_fixed, Field.finds_named]
    at hfound
  obtain ⟨_, _, rfl, ⟨_, _, ⟨ty, hty, rfl⟩, rfl, rfl⟩, rfl⟩ := hfound
  simp only [Param.decode?, hrecord, VarType.decode?_form hty, Option.bind_eq_bind, Option.bind_some, ofString, text?]

theorem Scope.decode?_form {s : Scope} {j : Json} (h : s.Form j) : Scope.decode? j = some s := by
  obtain ⟨found, hfound, hrecord⟩ := RecordForm.record? h ["vars", "functions", "parent"] rfl (by decide)
  simp only [Scope.fields, List.forall₂_cons_left_iff, List.forall₂_nil_left_iff] at hfound
  obtain ⟨vars, _, hvars, ⟨functions, _, hfunctions, ⟨parent, _, hparent, rfl, rfl⟩, rfl⟩, rfl⟩ := hfound
  have hvars := Field.orDefault_optional hvars (listOf_encodeList VarId.decode?_encode s.vars)
  have hfunctions := Field.orDefault_optional hfunctions (listOf_encodeList FunctionId.decode?_encode s.functions)
  have hparent := Field.orDefault_optional hparent (nullable_encodeOption ScopeId.decode?_encode rfl s.parent)
  simp only [Scope.decode?, hrecord, hvars, hfunctions, hparent, Option.bind_eq_bind, Option.bind_some]

theorem FunctionBody.decode?_encode (body : FunctionBody) : FunctionBody.decode? body.encode = some body := by
  cases body with
  | block id =>
    have hid := NodeId.decode?_encode id
    simp only [FunctionBody.encode, ofMembers, List.map_cons, List.map_nil, FunctionBody.decode?, hid, Option.map_some]
  | native symbol => rfl

theorem FunctionDecl.decode?_form {f : FunctionDecl} {j : Json} (h : f.Form j) : FunctionDecl.decode? j = some f := by
  obtain ⟨found, hfound, hrecord⟩ := RecordForm.record? h ["name", "return_type", "params", "body"] rfl (by decide)
  simp only [FunctionDecl.fields, List.forall₂_cons_left_iff, List.forall₂_nil_left_iff, Field.finds_fixed,
    Field.finds_named, Field.finds_listed] at hfound
  obtain ⟨_, _, rfl, ⟨_, _, ⟨ty, hty, rfl⟩, ⟨_, _, ⟨params, hparams, rfl⟩, ⟨_, _, rfl, rfl, rfl⟩, rfl⟩, rfl⟩, rfl⟩ :=
    hfound
  have hparams := listOf_form hparams fun param _ _ => Param.decode?_form
  simp only [FunctionDecl.decode?, hrecord, VarType.decode?_form hty, hparams, FunctionBody.decode?_encode,
    Option.bind_eq_bind, Option.bind_some, ofString, text?]

/-! ## Nodes -/

namespace Node

variable {double : Double → Json}

theorem fieldNames_kind (double : Double → Json) (n : Node) :
    fieldNames n.kind = some ((n.fields double).map Field.name) := by cases n <;> rfl

theorem nodup_names (double : Double → Json) (n : Node) : ("kind" :: (n.fields double).map Field.name).Nodup := by
  cases n <;> simp [fields, Field.fixed, Field.named, Field.optional]

/-- The doubles of the node are read as what they were written for. -/
def ReadsDoubles (double : Double → Json) (n : Node) : Prop := ∀ x, n = .double x → (double x).double? = some x

theorem ofFields?_finds {n : Node} (hdoubles : n.ReadsDoubles double) {found : List (Option Json)}
    (h : List.Forall₂ Field.Finds (n.fields double) found) : ofFields? n.kind found = some n := by
  have hop {name : String} {j : Json} (h : NameForm name j) : nameIn? isNullOrEmpty j = some name := nameIn?_form h rfl
  have hids := listOf_encodeList NodeId.decode?_encode
  have hid? := nullable_encodeOption NodeId.decode?_encode rfl
  cases n <;> simp only [fields, List.forall₂_cons_left_iff, List.forall₂_nil_left_iff, Field.finds_fixed,
    Field.finds_named] at h
  case binary op left right =>
    obtain ⟨_, _, ⟨name, hname, rfl⟩, ⟨_, _, rfl, ⟨_, _, rfl, rfl, rfl⟩, rfl⟩, rfl⟩ := h
    simp only [kind, ofFields?, hop hname, BinaryOp.ofName?_name, NodeId.decode?_encode, Option.bind_eq_bind,
      Option.bind_some]
  case unary op operand =>
    obtain ⟨_, _, ⟨name, hname, rfl⟩, ⟨_, _, rfl, rfl, rfl⟩, rfl⟩ := h
    simp only [kind, ofFields?, hop hname, UnaryOp.ofName?_name, NodeId.decode?_encode, Option.bind_eq_bind,
      Option.bind_some]
  case block scope stmts =>
    obtain ⟨_, _, rfl, ⟨_, _, rfl, rfl, rfl⟩, rfl⟩ := h
    simp only [kind, ofFields?, ScopeId.decode?_encode, hids, Option.bind_eq_bind, Option.bind_some]
  case store var op value =>
    obtain ⟨_, _, rfl, ⟨_, _, ⟨name, hname, rfl⟩, ⟨_, _, rfl, rfl, rfl⟩, rfl⟩, rfl⟩ := h
    simp only [kind, ofFields?, hop hname, AssignOp.ofName?_name, VarId.decode?_encode, NodeId.decode?_encode,
      Option.bind_eq_bind, Option.bind_some]
  case string value =>
    obtain ⟨_, _, rfl, rfl, rfl⟩ := h
    rfl
  case double value =>
    obtain ⟨_, _, rfl, rfl, rfl⟩ := h
    simp only [kind, ofFields?, hdoubles value rfl, Option.bind_eq_bind, Option.bind_some]
  case int value =>
    obtain ⟨_, _, rfl, rfl, rfl⟩ := h
    simp only [kind, ofFields?, int64?_ofInt, Option.bind_eq_bind, Option.bind_some]
  case load var =>
    obtain ⟨_, _, rfl, rfl, rfl⟩ := h
    simp only [kind, ofFields?, VarId.decode?_encode, Option.bind_eq_bind, Option.bind_some]
  case forIn var range body =>
    obtain ⟨_, _, rfl, ⟨_, _, rfl, ⟨_, _, rfl, rfl, rfl⟩, rfl⟩, rfl⟩ := h
    simp only [kind, ofFields?, VarId.decode?_encode, NodeId.decode?_encode, Option.bind_eq_bind, Option.bind_some]
  case whileLoop cond body =>
    obtain ⟨_, _, rfl, ⟨_, _, rfl, rfl, rfl⟩, rfl⟩ := h
    simp only [kind, ofFields?, NodeId.decode?_encode, Option.bind_eq_bind, Option.bind_some]
  case ifElse cond thenBlock elseBlock =>
    obtain ⟨_, _, rfl, ⟨_, _, rfl, ⟨other, _, hother, rfl, rfl⟩, rfl⟩, rfl⟩ := h
    simp only [kind, ofFields?, NodeId.decode?_encode, Field.orDefault_optional hother (hid? elseBlock),
      Option.bind_eq_bind, Option.bind_some]
  case call name args =>
    obtain ⟨_, _, rfl, ⟨_, _, rfl, rfl, rfl⟩, rfl⟩ := h
    simp only [kind, ofFields?, ofString, text?, hids, Option.bind_eq_bind, Option.bind_some]
  case print args =>
    obtain ⟨_, _, rfl, rfl, rfl⟩ := h
    simp only [kind, ofFields?, hids, Option.bind_eq_bind, Option.bind_some]
  case ret value =>
    obtain ⟨other, _, hother, rfl, rfl⟩ := h
    simp only [kind, ofFields?, Field.orDefault_optional hother (hid? value), Option.bind_eq_bind, Option.bind_some]

/-! A node is kept as a whole before it is decoded, and every form of it can be. -/

theorem fits_ofInt {n : Int} (h : n.natAbs < 2 ^ 64) (room : Nat) : (Json.ofInt n).fits room = true := by
  rw [Json.ofInt, Json.fits]
  exact Json.double?_ofInt_isSome h

theorem fits_index (n : UInt32) (room : Nat) : (Json.ofInt n.toNat).fits room = true :=
  have hlt := n.toNat_lt
  fits_ofInt (by omega) room

theorem allFit_iff {room : Nat} {items : List Json} : allFit room items = true ↔ ∀ item ∈ items, item.fits room = true := by
  induction items with
  | nil => simp [allFit]
  | cons item items ih => simp [allFit, ih]

theorem fits_ids (ids : List NodeId) (room : Nat) : (encodeList NodeId.encode ids).fits (room + 1) = true := by
  rw [encodeList, Json.fits, allFit_iff]
  intro item hitem
  obtain ⟨id, -, rfl⟩ := List.mem_map.mp hitem
  exact fits_index id.index room

theorem fits_id? (id? : Option NodeId) (room : Nat) : (encodeOption NodeId.encode id?).fits room = true := by
  cases id? with
  | none => cases room <;> rfl
  | some id => exact fits_index id.index room

theorem fits_name {name : String} {j : Json} (h : NameForm name j) (room : Nat) : j.fits (room + 1) = true := by
  cases h with
  | plain => rfl
  | wrapped => cases room <;> rfl

theorem fits_double {n : Node} (h : n.ReadsDoubles double) {x : Double} (hx : n = .double x) (room : Nat) :
    (double x).fits room = true := by
  have hread := h x hx
  cases hencoded : double x with
  | number number =>
    rw [hencoded] at hread
    rw [Json.fits, show number.double? = some x from hread]
    rfl
  | _ =>
    rw [hencoded] at hread
    cases hread

theorem fits_fixed {name : String} {value : Json} {room : Nat} (h : value.fits room = true) :
    ∀ written, (Field.fixed name value).Form written → written.fits room = true := by
  rintro _ rfl
  exact h

theorem fits_optional {name : String} {value : Json} {isDefault : Prop} {room : Nat} (h : value.fits room = true) :
    ∀ written, (Field.optional name value isDefault).Form written → written.fits room = true := by
  rintro _ rfl
  exact h

theorem fits_fields {n : Node} (hdoubles : n.ReadsDoubles double) (room : Nat) :
    ∀ field ∈ n.fields double, ∀ value, field.Form value → value.fits (room + 1) = true := by
  have hid (name : String) (id : UInt32) := @fits_fixed name _ _ (fits_index id (room + 1))
  have hids (name : String) (ids : List NodeId) := @fits_fixed name _ _ (fits_ids ids room)
  have hid? (name : String) (id? : Option NodeId) := @fits_optional name _ (id? = none) _ (fits_id? id? (room + 1))
  have hname (name value : String) : ∀ written, (Field.named name value).Form written → written.fits (room + 1) = true :=
    fun _ hform => fits_name hform room
  have htext (name value : String) := @fits_fixed name (ofString value) (room + 1) rfl
  have hnone : ∀ field ∈ ([] : List Field), ∀ value, field.Form value → value.fits (room + 1) = true := by simp
  cases n <;> simp only [fields, List.forall_mem_cons]
  case binary => exact ⟨hname _ _, hid _ _, hid _ _, hnone⟩
  case unary => exact ⟨hname _ _, hid _ _, hnone⟩
  case block => exact ⟨hid _ _, hids _ _, hnone⟩
  case store => exact ⟨hid _ _, hname _ _, hid _ _, hnone⟩
  case string => exact ⟨htext _ _, hnone⟩
  case double => exact ⟨fits_fixed (fits_double hdoubles rfl _), hnone⟩
  case int value =>
    have hlow := Int64.le_toInt value
    have hhigh := value.toInt_lt
    exact ⟨fits_fixed (fits_ofInt (by omega) _), hnone⟩
  case load => exact ⟨hid _ _, hnone⟩
  case forIn => exact ⟨hid _ _, hid _ _, hid _ _, hnone⟩
  case whileLoop => exact ⟨hid _ _, hid _ _, hnone⟩
  case ifElse => exact ⟨hid _ _, hid _ _, hid? _ _, hnone⟩
  case call => exact ⟨htext _ _, hids _ _, hnone⟩
  case print => exact ⟨hids _ _, hnone⟩
  case ret => exact ⟨hid? _ _, hnone⟩

theorem fits_members {fields : List Field} {members : List Member} (h : Members fields members) {room : Nat}
    (hfields : ∀ field ∈ fields, ∀ value, field.Form value → value.fits room = true) :
    allMembersFit room members = true := by
  induction h with
  | nil => rfl
  | written hvalue hrest ih =>
    obtain ⟨hfield, hfields⟩ := List.forall_mem_cons.mp hfields
    rw [allMembersFit, hfield _ hvalue, ih hfields]
    rfl
  | omitted hdefault hrest ih => exact ih (List.forall_mem_cons.mp hfields).2

theorem fits_items {fields : List Field} {items : List Json} (h : List.Forall₂ Field.Form fields items) {room : Nat}
    (hfields : ∀ field ∈ fields, ∀ value, field.Form value → value.fits room = true) : allFit room items = true := by
  induction h with
  | nil => rfl
  | cons hvalue hrest ih =>
    obtain ⟨hfield, hfields⟩ := List.forall_mem_cons.mp hfields
    rw [allFit, hfield _ hvalue, ih hfields]
    rfl

theorem fits_form {n : Node} (hdoubles : n.ReadsDoubles double) {j : Json} (h : n.Form double j) (room : Nat) :
    j.fits (room + 2) = true := by
  have hfields := fits_fields hdoubles room
  cases h with
  | keyed hmembers =>
    rw [Json.fits, allMembersFit, fits_members hmembers hfields]
    rfl
  | positional hitems =>
    rw [Json.fits, allFit, fits_items hitems hfields]
    rfl

theorem decode?_form {n : Node} (hdoubles : n.ReadsDoubles double) {j : Json} (h : n.Form double j) (room : Nat) :
    Node.decode? (room + 2) j = some n := by
  obtain ⟨hkind, hnodup⟩ := List.nodup_cons.mp (n.nodup_names double)
  have hfits := fits_form hdoubles h room
  unfold Node.decode?
  rw [if_pos hfits]
  cases h with
  | @keyed members hmembers =>
    have hbefore : ∀ m ∈ [(some "kind", ofString n.kind)], m.1.isSome ∧ ∀ field ∈ n.fields double, m.1 ≠ some field.name := by
      intro m hm
      rw [List.mem_singleton.mp hm]
      exact ⟨rfl, fun field hfield heq => hkind (Option.some.inj heq ▸ List.mem_map_of_mem hfield)⟩
    obtain ⟨found, hfound, hmap⟩ := hmembers.membersNamed? hnodup hbefore
    have htext : (ofString n.kind).text? = some n.kind := rfl
    rw [List.singleton_append] at hmap
    simp only [member?_cons (hmembers.name_ne hkind), htext, fieldNames_kind double, hmap, Option.bind_eq_bind, Option.bind_some,
      ofFields?_finds hdoubles hfound]
  | @positional items hitems =>
    have hlength : items.length = ((n.fields double).map Field.name).length := by rw [List.length_map, hitems.length_eq]
    have hfound : List.Forall₂ Field.Finds (n.fields double) (items.map some) := List.forall₂_map_right_iff.mpr hitems
    have htext : (ofString n.kind).text? = some n.kind := rfl
    simp only [htext, fieldNames_kind double, Option.bind_eq_bind, Option.bind_some]
    rw [if_pos hlength, ofFields?_finds hdoubles hfound]

end Node

/-! ## Programs -/

section

variable {double : Double → Json} {p : Program}

/-- The doubles of the program are read back from the numbers that they are written as. They are finite then: no number
is read as one of the others. -/
def Program.ReadsDoubles (double : Double → Json) (p : Program) : Prop := ∀ node ∈ p.nodes, node.ReadsDoubles double

theorem Program.decodeAt?_form (hdoubles : p.ReadsDoubles double) {j : Json} (h : p.Form double j) {depth : Nat}
    (hdepth : depth + 4 ≤ maxDepth) : Program.decodeAt? depth j = some p := by
  obtain ⟨found, hfound, hrecord⟩ :=
    RecordForm.record? h ["nodes", "scopes", "vars", "functions", "root"] rfl (by decide)
  simp only [Program.fields, List.forall₂_cons_left_iff, List.forall₂_nil_left_iff, Field.finds_fixed,
    Field.finds_listed] at hfound
  obtain ⟨_, _, ⟨nodes, hnodes, rfl⟩, ⟨_, _, ⟨scopes, hscopes, rfl⟩, ⟨_, _, ⟨vars, hvars, rfl⟩,
    ⟨functions, _, hfunctions, ⟨_, _, rfl, rfl, rfl⟩, rfl⟩, rfl⟩, rfl⟩, rfl⟩ := hfound
  have hroom : maxDepth - (depth + 2) = maxDepth - (depth + 4) + 2 := by omega
  have hnodes : listOf (Node.decode? (maxDepth - (depth + 2))) nodes = some p.nodes.toList :=
    listOf_form hnodes fun node hnode j hj =>
      hroom ▸ Node.decode?_form (hdoubles node (Array.mem_toList_iff.mp hnode)) hj _
  have hscopes := listOf_form hscopes fun scope _ _ => Scope.decode?_form
  have hvars := listOf_form hvars fun var _ _ => Var.decode?_form
  have hfunctions : orDefault [] (listOf FunctionDecl.decode?) functions = some p.functions.toList := by
    cases functions with
    | none =>
      have hdefault : p.functions = #[] := hfunctions
      rw [hdefault]
      rfl
    | some j => exact listOf_form hfunctions fun f _ _ => FunctionDecl.decode?_form
  simp only [Program.decodeAt?, hrecord, hnodes, hscopes, hvars, hfunctions, NodeId.decode?_encode, Option.bind_eq_bind,
    Option.bind_some, Array.toArray_toList]

theorem Reply.ofBytes?_form (hdoubles : p.ReadsDoubles double) {j : Json} (h : p.Form double j) :
    Reply.ofBytes? (ofMembers [("ok", j)]).render.toUTF8.toList = some (.ok p) := by
  have hinside : Program.decodeAt? 1 j = some p := Program.decodeAt?_form hdoubles h (by decide)
  have hreply : Reply.decode? (ofMembers [("ok", j)]) = some (.ok p) := by
    simp only [ofMembers, List.map_cons, List.map_nil, Reply.decode?, hinside, Option.map_some]
  rw [Reply.ofBytes?, Json.read?_render, Option.bind_some, hreply]

/-- The encoding of a program is one way to write it. However it is written, it is decoded to itself: as a value, as the
bytes of a text, and as the reply of a front end. Doubles may be written in any way in which those of the program are
read back. -/
theorem Program.decode?_written (hdoubles : p.ReadsDoubles double) : p.Form double (p.encodeWith double) ∧
    ∀ j, p.Form double j → Program.decode? j = some p ∧
      (Json.read? j.render.toUTF8.toList).bind Program.decode? = some p ∧
      Reply.ofBytes? (ofMembers [("ok", j)]).render.toUTF8.toList = some (.ok p) := by
  refine ⟨p.encodeWith_form double, fun j hform => ?_⟩
  have hdecode : Program.decode? j = some p := Program.decodeAt?_form hdoubles hform (by decide)
  refine ⟨hdecode, ?_, Reply.ofBytes?_form hdoubles hform⟩
  rw [Json.read?_render, Option.bind_some, hdecode]

end

/-- Writes a double as it is printed. -/
def printedNumber (x : Double) : Json := .number ⟨x.isNegative, x.shortest.numeral Double.lowestPrinted⟩

/-- A program that adds a tenth to its only variable and returns. -/
def tenth : Program where
  nodes := #[.block ⟨0⟩ [⟨1⟩, ⟨3⟩], .store ⟨0⟩ .addAssign ⟨2⟩, .double ⟨0x3FB999999999999A⟩, .ret none]
  scopes := #[{ vars := [⟨0⟩] }]
  vars := #[⟨"x", .double⟩]
  functions := #[]
  root := ⟨0⟩

theorem tenthDigit_lt : 1 < 10 := by decide

/-- Objects and arrays by turns, with what need not be written left off. -/
def tenthWritten : Json :=
  ofMembers [
    ("nodes", .array [
      ofMembers [("kind", ofString "block"), ("scope", .ofInt 0), ("stmts", .array [.ofInt 1, .ofInt 3])],
      .array [ofString "store", .ofInt 0, ofMembers [("add_assign", .null)], .ofInt 2],
      .array [ofString "double_literal", .number ⟨false, { whole := 0, fraction := [⟨1, tenthDigit_lt⟩] }⟩],
      ofMembers [("kind", ofString "return")]]),
    ("scopes", .array [.array [.array [.ofInt 0]]]),
    ("vars", .array [.array [ofString "x", ofMembers [("double", .null)]]]),
    ("root", .ofInt 0)]

theorem Program.decode?_written_tenth : tenth.ReadsDoubles printedNumber ∧ tenth.Form printedNumber tenthWritten ∧
    Program.decode? (tenth.encodeWith printedNumber) = some tenth ∧ Program.decode? tenthWritten = some tenth ∧
    (Json.read? tenthWritten.render.toUTF8.toList).bind Program.decode? = some tenth := by
  have hvalue : printedNumber ⟨0x3FB999999999999A⟩ = .number ⟨false, { whole := 0, fraction := [1] }⟩ := by
    rw [printedNumber, Json.number.injEq]
    decide +kernel
  have hdoubles : tenth.ReadsDoubles printedNumber := by
    intro node hnode x hx
    subst hx
    have hx : x = ⟨0x3FB999999999999A⟩ := by simpa [tenth] using hnode
    rw [hx, hvalue]
    show Double.read? false { whole := 0, fraction := [1] } = _
    decide +kernel
  have hform : tenth.Form printedNumber tenthWritten := by
    refine .keyed (.written ⟨_, rfl, ?_⟩ (.written ⟨_, rfl, ?_⟩ (.written ⟨_, rfl, ?_⟩ (.omitted rfl (.written rfl .nil)))))
    · exact .cons (.keyed (.written rfl (.written rfl .nil))) (.cons (.positional (.cons rfl (.cons .wrapped (.cons rfl .nil))))
        (.cons (.positional (.cons hvalue.symm .nil)) (.cons (.keyed (.omitted rfl .nil)) .nil)))
    · exact .cons (.positional (.written rfl (.ends (by simp [Field.optional])))) .nil
    · exact .cons (.positional (.written rfl (.written .wrapped (.ends (by simp))))) .nil
  obtain ⟨hencoded, hwritten⟩ := Program.decode?_written hdoubles
  obtain ⟨hdecode, htext, -⟩ := hwritten tenthWritten hform
  exact ⟨hdoubles, hform, (hwritten _ hencoded).1, hdecode, htext⟩

end Canon
