import Canon.Proofs.Decoding
import Mathlib.Data.Option.Defs
import Mathlib.Logic.Relation

/-!
# How a program is presented

Members of an object may stand in any order, and an object that is decoded as a record may hold members that the record
does not know. Neither changes what is decoded, nor whether something is. Which members a node knows depends on its
kind, and what its other members hold must fit where it stands.
-/

namespace Canon

open Json

/-! ## Roles -/

/-- What a value is decoded as. -/
inductive Role where
  | program | node | scope | var | param | function
  | list (item : Role)
  | other

/-- The fields of the kind that the members of a node name. -/
def Node.namesIn? (members : List Member) : Option (List String) := do
  fieldNames (← (← (← member? "kind" members)).text?)

namespace Role

/-- The fields of a record. Those of a node depend on its kind. -/
def names : Role → List String
  | .program => ["nodes", "scopes", "vars", "functions", "root"]
  | .scope => ["vars", "functions", "parent"]
  | .var | .param => ["name", "ty"]
  | .function => ["name", "return_type", "params", "body"]
  | .node | .list _ | .other => []

/-- What a member of an object is decoded as. -/
def member : Role → Text → Role
  | .program, some "nodes" => .list .node
  | .program, some "scopes" => .list .scope
  | .program, some "vars" => .list .var
  | .program, some "functions" => .list .function
  | .function, some "params" => .list .param
  | _, _ => .other

/-- What an item of an array is decoded as. -/
def item : Role → Nat → Role
  | .list item, _ => item
  | role, i => (role.names[i]?.map fun name => role.member (some name)).getD .other

/-- A name by which the members of an object do not count. -/
def Unknown : Role → List Member → String → Prop
  | .node, members, name => name ≠ "kind" ∧ ∀ names, Node.namesIn? members = some names → name ∉ names
  | .list _, _, _ | .other, _, _ => False
  | role, _, name => name ∉ role.names

end Role

/-- The same value in another presentation, inside `depth` arrays and objects: the members of one object are in another
order, or there is one more of them that does not count. -/
inductive Rearranges : Nat → Role → Json → Json → Prop where
  | same {depth role j} : Rearranges depth role j j
  | reorder {depth role members members'} (h : List.Perm members members') :
    Rearranges depth role (.object members) (.object members')
  /-- A node is kept as a whole, so what is added to it must fit where it stands. Other records do not look at it. -/
  | add {depth role before after name value} (hname : role.Unknown (before ++ after) name)
    (hvalue : role = .node → value.fits (maxDepth - (depth + 1)) = true) :
    Rearranges depth role (.object (before ++ after)) (.object (before ++ (some name, value) :: after))
  | member {depth role before after name value value'}
    (h : Rearranges (depth + 1) (role.member name) value value') :
    Rearranges depth role (.object (before ++ (name, value) :: after)) (.object (before ++ (name, value') :: after))
  | item {depth role before after value value'}
    (h : Rearranges (depth + 1) (role.item before.length) value value') :
    Rearranges depth role (.array (before ++ value :: after)) (.array (before ++ value' :: after))

/-! ## Decoders that do not see it -/

/-- A decoder that takes all presentations of a value for the same. -/
def Blind {α : Type} (depth : Nat) (role : Role) (decode : Json → α) : Prop :=
  ∀ j j', Rearranges depth role j j' → decode j = decode j'

section Options

variable {α β : Type} {R : α → α → Prop} {o o' : Option α}

theorem rel_refl (h : ∀ a, R a a) (o : Option α) : Option.Rel R o o := by
  cases o with
  | none => exact .none
  | some a => exact .some (h a)

theorem rel_bind {S : β → β → Prop} {f g : α → Option β} (h : Option.Rel R o o')
    (hfg : ∀ a b, R a b → Option.Rel S (f a) (g b)) : Option.Rel S (o >>= f) (o' >>= g) := by
  cases h with
  | none => exact .none
  | some h => exact hfg _ _ h

theorem bind_eq_of_rel {f g : α → Option β} (h : Option.Rel R o o') (hfg : ∀ a b, o = some a → R a b → f a = g b) :
    (o >>= f) = (o' >>= g) := by
  cases h with
  | none => rfl
  | some h => exact hfg _ _ rfl h

end Options

section Values

variable {depth : Nat} {role : Role}

theorem text?_blind : Blind depth role text? := by
  rintro _ _ h
  cases h <;> rfl

theorem int?_blind : Blind depth role Json.int? := by
  rintro _ _ h
  cases h <;> rfl

theorem double?_blind : Blind depth role Json.double? := by
  rintro _ _ h
  cases h <;> rfl

theorem uint32?_blind : Blind depth role uint32? := by
  rintro _ _ h
  rw [uint32?, uint32?, intIn?, intIn?, int?_blind _ _ h]

theorem int64?_blind : Blind depth role int64? := by
  rintro _ _ h
  rw [int64?, int64?, intIn?, intIn?, int?_blind _ _ h]

theorem NodeId.decode?_blind : Blind depth role NodeId.decode? := fun _ _ h =>
  congrArg (Option.map NodeId.mk) (uint32?_blind _ _ h)

theorem ScopeId.decode?_blind : Blind depth role ScopeId.decode? := fun _ _ h =>
  congrArg (Option.map ScopeId.mk) (uint32?_blind _ _ h)

theorem VarId.decode?_blind : Blind depth role VarId.decode? := fun _ _ h =>
  congrArg (Option.map VarId.mk) (uint32?_blind _ _ h)

theorem FunctionId.decode?_blind : Blind depth role FunctionId.decode? := fun _ _ h =>
  congrArg (Option.map FunctionId.mk) (uint32?_blind _ _ h)

theorem nullable_blind {α : Type} {decode : Json → Option α} (hdecode : Blind depth role decode) :
    Blind depth role (nullable decode) := by
  rintro _ _ h
  have heq := hdecode _ _ h
  cases h with
  | same => rfl
  | _ => exact congrArg (Option.map some) heq

theorem listOf_blind {α : Type} {decode : Json → Option α} (hdecode : ∀ i, Blind (depth + 1) (role.item i) decode) :
    Blind depth role (listOf decode) := by
  rintro _ _ h
  cases h with
  | item hitem => simp only [listOf, items?, Option.bind_eq_bind, Option.bind_some, List.mapM_append, List.mapM_cons,
      hdecode _ _ _ hitem]
  | _ => rfl

theorem orDefault_blind {α : Type} {default : α} {decode : Json → Option α} (hdecode : Blind depth role decode)
    {o o' : Option Json} (h : Option.Rel (Rearranges depth role) o o') :
    orDefault default decode o = orDefault default decode o' := by
  cases h with
  | none => rfl
  | some h => exact hdecode _ _ h

end Values

/-! ## Names -/

section Names

variable {depth : Nat}

theorem Rearranges.other_object {members : List Member} {j' : Json}
    (h : Rearranges depth .other (.object members) j') : ∃ members', j' = .object members' ∧
      members'.length = members.length ∧ ∀ m, members = [m] → ∃ value, members' = [(m.1, value)] ∧
        Rearranges (depth + 1) .other m.2 value := by
  cases h with
  | same => exact ⟨members, rfl, rfl, fun m hm => ⟨m.2, hm, .same⟩⟩
  | reorder hperm =>
    refine ⟨_, rfl, hperm.length_eq.symm, ?_⟩
    rintro m rfl
    exact ⟨m.2, List.singleton_perm.mp hperm ▸ rfl, .same⟩
  | add hname => exact hname.elim
  | @member _ _ before after name value value' hvalue =>
    refine ⟨_, rfl, by simp, fun m hm => ?_⟩
    obtain ⟨rfl, hm⟩ : before = [] ∧ (name, value) :: after = [m] := by
      simpa [List.append_eq_singleton_iff] using hm
    cases hm
    exact ⟨value', rfl, hvalue⟩

theorem isNull_blind : Blind depth .other isNull := by
  rintro _ _ h
  cases h <;> rfl

theorem isNullOrEmpty_blind : Blind depth .other isNullOrEmpty := by
  intro j j' h
  cases j with
  | object members =>
    obtain ⟨members', rfl, hlength, -⟩ := h.other_object
    cases members <;> cases members' <;> first | rfl | cases hlength
  | _ => cases h <;> rfl

theorem nameIn?_blind {isNothing : Json → Bool} (hnothing : Blind (depth + 1) .other isNothing) :
    Blind depth .other (nameIn? isNothing) := by
  intro j j' h
  cases j with
  | object members =>
    obtain ⟨members', rfl, hlength, hone⟩ := h.other_object
    match members, members', hlength with
    | [], [], _ => rfl
    | [(name, value)], _, _ =>
      obtain ⟨value', rfl, hvalue⟩ := hone _ rfl
      rw [nameIn?, nameIn?, hnothing _ _ hvalue]
    | _ :: _ :: _, _ :: _ :: _, _ => rfl
  | _ => cases h <;> rfl

theorem VarType.decode?_blind : Blind depth .other VarType.decode? := fun _ _ h =>
  congrArg (Option.bind · VarType.ofName?) (nameIn?_blind isNull_blind _ _ h)

theorem FunctionBody.decode?_single (name : Text) (value : Json) : FunctionBody.decode? (.object [(name, value)]) =
    if name = some "block" then (NodeId.decode? value).map .block
    else if name = some "native" then value.text?.map .native else none := by
  unfold decode?
  split <;> simp_all

theorem FunctionBody.decode?_many (m m' : Member) (rest : List Member) :
    FunctionBody.decode? (.object (m :: m' :: rest)) = none := by
  unfold decode?
  split <;> simp_all

theorem FunctionBody.decode?_blind : Blind depth .other FunctionBody.decode? := by
  intro j j' h
  cases j with
  | object members =>
    obtain ⟨members', rfl, hlength, hone⟩ := h.other_object
    match members, members', hlength with
    | [], [], _ => rfl
    | [(name, value)], _, _ =>
      obtain ⟨value', rfl, hvalue⟩ := hone _ rfl
      rw [decode?_single, decode?_single, NodeId.decode?_blind _ _ hvalue, text?_blind _ _ hvalue]
    | _ :: _ :: _, _ :: _ :: _, _ => rw [decode?_many, decode?_many]
  | _ => cases h <;> rfl

end Names

/-! ## Fields -/

namespace Role

theorem not_unknown {role : Role} {name : String} (h : name ∈ role.names) (members : List Member) :
    ¬ role.Unknown members name := by
  cases role <;> simp_all [names, Unknown]

@[simp] theorem item_node (i : Nat) : Role.node.item i = .other := by simp [item, names]

@[simp] theorem item_other (i : Nat) : Role.other.item i = .other := by simp [item, names]

theorem item_eq {role : Role} {i : Nat} {name : String} (h : role.names[i]? = some name) :
    role.item i = role.member (some name) := by
  cases role <;> simp_all [names, item]

end Role

/-- The fields of a record in two presentations of it. -/
inductive Found (depth : Nat) (role : Role) : List String → List (Option Json) → List (Option Json) → Prop where
  | nil : Found depth role [] [] []
  | cons {name names o o' os os'} (head : Option.Rel (Rearranges (depth + 1) (role.member (some name))) o o')
    (tail : Found depth role names os os') : Found depth role (name :: names) (o :: os) (o' :: os')

namespace Rearranges

variable {depth : Nat} {role : Role} {members members' : List Member}

theorem symm_other {j j' : Json} (h : Rearranges depth role j j') (hrole : role = .other) :
    Rearranges depth role j' j := by
  induction h with
  | same => exact .same
  | reorder hperm => exact .reorder hperm.symm
  | add hname => subst hrole; exact hname.elim
  | member _ ih => subst hrole; exact .member (ih rfl)
  | @item _ _ before after value value' _ ih => subst hrole; exact .item (ih (Role.item_other _))

/-- What is found among the members of one name. -/
def sole? : List Member → Option (Option Json)
  | [] => some none
  | [m] => some (some m.2)
  | _ => none

theorem member?_eq_sole (name : String) (members : List Member) :
    Json.member? name members = sole? (members.filter fun m => m.1 = some name) := by
  unfold Json.member? sole?
  rfl

theorem sole?_perm (h : List.Perm members members') : sole? members = sole? members' := by
  match members, members', h.length_eq with
  | [], [], _ => rfl
  | [m], _, _ => rw [List.singleton_perm.mp h]
  | _ :: _ :: _, _ :: _ :: _, _ => rfl

theorem member?_perm (h : List.Perm members members') (name : String) :
    Json.member? name members = Json.member? name members' := by
  rw [member?_eq_sole, member?_eq_sole, sole?_perm (h.filter _)]

theorem member?_insert {name other : String} (hne : other ≠ name) (before after : List Member) (value : Json) :
    Json.member? name (before ++ (some other, value) :: after) = Json.member? name (before ++ after) := by
  rw [member?_eq_sole, member?_eq_sole, List.filter_append, List.filter_append, List.filter_cons_of_neg (by simpa)]

theorem sole?_replace {name : Text} {value value' : Json} {R : Json → Json → Prop} (h : R value value')
    (before after : List Member) : Option.Rel (Option.Rel R) (sole? (before ++ (name, value) :: after))
      (sole? (before ++ (name, value') :: after)) := by
  match before, after with
  | [], [] => exact .some (.some h)
  | [], _ :: _ => exact .none
  | [_], _ => exact .none
  | _ :: _ :: _, _ => exact .none

theorem member? (h : Rearranges depth role (.object members) (.object members')) {name : String}
    (hknown : ¬ role.Unknown members name) :
    Option.Rel (Option.Rel (Rearranges (depth + 1) (role.member (some name)))) (Json.member? name members)
      (Json.member? name members') := by
  have hsame : ∀ o, Option.Rel (Option.Rel (Rearranges (depth + 1) (role.member (some name)))) o o :=
    rel_refl (rel_refl fun _ => .same)
  cases h with
  | same => exact hsame _
  | reorder hperm => rw [member?_perm hperm]; exact hsame _
  | @add _ _ before after other value hname =>
    have hne : other ≠ name := by
      rintro rfl
      exact hknown hname
    rw [member?_insert hne]
    exact hsame _
  | @member _ _ before after other value value' hvalue =>
    rw [member?_eq_sole, member?_eq_sole, List.filter_append, List.filter_append]
    by_cases hother : other = some name
    · subst hother
      rw [List.filter_cons_of_pos (by simp), List.filter_cons_of_pos (by simp)]
      exact sole?_replace hvalue _ _
    · rw [List.filter_cons_of_neg (by simpa), List.filter_cons_of_neg (by simpa)]
      exact hsame _

theorem all_named (h : Rearranges depth role (.object members) (.object members')) :
    (members.all fun m => m.1.isSome) = members'.all fun m => m.1.isSome := by
  cases h with
  | same => rfl
  | reorder hperm => exact hperm.all_eq
  | add => simp
  | member => simp

theorem membersNamed? (h : Rearranges depth role (.object members) (.object members')) {names : List String}
    (hknown : ∀ name ∈ names, ¬ role.Unknown members name) : Option.Rel (Found depth role names)
      (Json.membersNamed? names members) (Json.membersNamed? names members') := by
  have hmap : Option.Rel (Found depth role names) (names.mapM fun name => Json.member? name members)
      (names.mapM fun name => Json.member? name members') := by
    induction names with
    | nil => exact .some .nil
    | cons name names ih =>
      obtain ⟨hname, hnames⟩ := List.forall_mem_cons.mp hknown
      rw [List.mapM_cons, List.mapM_cons]
      refine rel_bind (h.member? hname) fun _ _ hhead => rel_bind (ih hnames) fun _ _ htail => ?_
      exact .some (.cons hhead htail)
  unfold Json.membersNamed?
  rw [h.all_named]
  split
  · exact hmap
  · exact .none

theorem found_items {items items' : List Json} {names : List String} {n : Nat}
    (h : ∀ (i : Nat) name, names[i]? = some name →
      Option.Rel (Rearranges (depth + 1) (role.member (some name))) items[n + i]? items'[n + i]?) :
    Found depth role names ((names.zipIdx n).map fun (_, i) => items[i]?)
      ((names.zipIdx n).map fun (_, i) => items'[i]?) := by
  induction names generalizing n with
  | nil => exact .nil
  | cons name names ih =>
    refine .cons (h 0 name rfl) (ih fun i other hi => ?_)
    have hnext := h (i + 1) other hi
    rwa [show n + (i + 1) = n + 1 + i by omega] at hnext

theorem record?_items {items items' : List Json} (hlength : items.length = items'.length)
    (h : ∀ (i : Nat) name, role.names[i]? = some name →
      Option.Rel (Rearranges (depth + 1) (role.member (some name))) items[i]? items'[i]?) :
    Option.Rel (Found depth role role.names) (Json.record? role.names (.array items))
      (Json.record? role.names (.array items')) := by
  rw [Json.record?, Json.record?, hlength]
  split
  · exact .some (found_items fun i name hname => by simpa using h i name hname)
  · exact .none

theorem record? {j j' : Json} (h : Rearranges depth role j j') (names : List String) (hnames : role.names = names) :
    Option.Rel (Found depth role names) (j.record? names) (j'.record? names) := by
  subst hnames
  have hobject {members members' : List Member} (h : Rearranges depth role (.object members) (.object members')) :=
    h.membersNamed? fun name hname => Role.not_unknown hname members
  cases h with
  | @same _ _ j =>
    cases j with
    | object members => exact hobject .same
    | array items => exact record?_items rfl fun _ _ _ => rel_refl (fun _ => .same) _
    | _ => exact .none
  | reorder hperm => exact hobject (.reorder hperm)
  | add hname hvalue => exact hobject (.add hname hvalue)
  | member hvalue => exact hobject (.member hvalue)
  | @item _ _ before after value value' hvalue =>
    refine record?_items (by simp) fun i name hname => ?_
    rcases Nat.lt_or_ge i before.length with hi | hi
    · rw [List.getElem?_append_left hi, List.getElem?_append_left hi]
      exact rel_refl (fun _ => .same) _
    · rw [List.getElem?_append_right hi, List.getElem?_append_right hi, List.getElem?_cons, List.getElem?_cons]
      -- A field by its index is the field by its name.
      split
      · obtain rfl : i = before.length := by omega
        exact .some (Role.item_eq hname ▸ hvalue)
      · exact rel_refl (fun _ => .same) _

end Rearranges

/-! ## Values that are looked at as a whole -/

theorem Json.allMembersFit_iff {room : Nat} {members : List Member} :
    allMembersFit room members = true ↔ ∀ m ∈ members, m.1.isSome = true ∧ m.2.fits room = true := by
  induction members with
  | nil => simp [allMembersFit]
  | cons m members ih => simp [allMembersFit, ih]

theorem room_cases (depth : Nat) : maxDepth - depth = 0 ∨
    ∃ room, maxDepth - depth = room + 1 ∧ maxDepth - (depth + 1) = room := by
  rcases Nat.eq_zero_or_pos (maxDepth - depth) with hzero | hpos
  · exact .inl hzero
  · exact .inr ⟨maxDepth - depth - 1, by omega, by omega⟩

theorem Rearranges.fits {depth : Nat} {role : Role} {j j' : Json} (h : Rearranges depth role j j')
    (hrole : role = .node ∨ role = .other) : j.fits (maxDepth - depth) = j'.fits (maxDepth - depth) := by
  induction h with
  | same => rfl
  | @reorder depth _ members members' hperm =>
    obtain hroom | ⟨room, hroom, -⟩ := room_cases depth
    · rw [hroom]; rfl
    · rw [hroom, Json.fits, Json.fits, Bool.eq_iff_iff, allMembersFit_iff, allMembersFit_iff]
      simp only [hperm.mem_iff]
  | @add depth role before after name value hname hvalue =>
    obtain rfl : role = .node := hrole.resolve_right (by rintro rfl; exact hname)
    have hvalue := hvalue rfl
    obtain hroom | ⟨room, hroom, hinner⟩ := room_cases depth
    · rw [hroom]; rfl
    · rw [hinner] at hvalue
      rw [hroom, Json.fits, Json.fits, Bool.eq_iff_iff, allMembersFit_iff, allMembersFit_iff]
      simp only [List.forall_mem_append, List.forall_mem_cons, hvalue, Option.isSome_some, and_self, true_and]
  | @member depth role before after name value value' _ ih =>
    have hother : role.member name = .other := by rcases hrole with rfl | rfl <;> rfl
    have ih := ih (.inr hother)
    obtain hroom | ⟨room, hroom, hinner⟩ := room_cases depth
    · rw [hroom]; rfl
    · rw [hinner] at ih
      rw [hroom, Json.fits, Json.fits, Bool.eq_iff_iff, allMembersFit_iff, allMembersFit_iff]
      simp only [List.forall_mem_append, List.forall_mem_cons, ih]
  | @item depth role before after value value' _ ih =>
    have hother : role.item before.length = .other := by rcases hrole with rfl | rfl <;> simp
    have ih := ih (.inr hother)
    obtain hroom | ⟨room, hroom, hinner⟩ := room_cases depth
    · rw [hroom]; rfl
    · rw [hinner] at ih
      rw [hroom, Json.fits, Json.fits, Bool.eq_iff_iff, Node.allFit_iff, Node.allFit_iff]
      simp only [List.forall_mem_append, List.forall_mem_cons, ih]

/-! ## Nodes -/

section Nodes

variable {depth : Nat}

theorem Node.ofFields?_of_rel {kind : String} {os os' : List (Option Json)} {n : Node}
    (hrel : List.Forall₂ (Option.Rel (Rearranges depth .other)) os os') (h : ofFields? kind os = some n) :
    ofFields? kind os' = some n := by
  have hname {j j' : Json} (h : Rearranges depth .other j j') : nameIn? isNullOrEmpty j = nameIn? isNullOrEmpty j' :=
    nameIn?_blind isNullOrEmpty_blind _ _ h
  have hid {j j' : Json} (h : Rearranges depth .other j j') : NodeId.decode? j = NodeId.decode? j' :=
    NodeId.decode?_blind _ _ h
  have hids {j j' : Json} (h : Rearranges depth .other j j') : listOf NodeId.decode? j = listOf NodeId.decode? j' :=
    listOf_blind (fun _ => NodeId.decode?_blind) _ _ h
  have hid? {o o' : Option Json} (h : Option.Rel (Rearranges depth .other) o o') :
      orDefault none (nullable NodeId.decode?) o = orDefault none (nullable NodeId.decode?) o' :=
    orDefault_blind (nullable_blind NodeId.decode?_blind) h
  unfold ofFields? at h
  -- One case for each kind, with as many fields as the kind has.
  split at h
  · rcases hrel with _ | ⟨⟨hop⟩, _ | ⟨⟨hleft⟩, _ | ⟨⟨hright⟩, _ | _⟩⟩⟩
    rwa [hname hop, hid hleft, hid hright] at h
  · rcases hrel with _ | ⟨⟨hop⟩, _ | ⟨⟨hoperand⟩, _ | _⟩⟩
    rwa [hname hop, hid hoperand] at h
  · rcases hrel with _ | ⟨⟨hscope⟩, _ | ⟨⟨hstmts⟩, _ | _⟩⟩
    rwa [ScopeId.decode?_blind _ _ hscope, hids hstmts] at h
  · rcases hrel with _ | ⟨⟨hvar⟩, _ | ⟨⟨hop⟩, _ | ⟨⟨hvalue⟩, _ | _⟩⟩⟩
    rwa [VarId.decode?_blind _ _ hvar, hname hop, hid hvalue] at h
  · rcases hrel with _ | ⟨⟨hvalue⟩, _ | _⟩
    rwa [text?_blind _ _ hvalue] at h
  · rcases hrel with _ | ⟨⟨hvalue⟩, _ | _⟩
    rwa [double?_blind _ _ hvalue] at h
  · rcases hrel with _ | ⟨⟨hvalue⟩, _ | _⟩
    rwa [int64?_blind _ _ hvalue] at h
  · rcases hrel with _ | ⟨⟨hvar⟩, _ | _⟩
    rwa [VarId.decode?_blind _ _ hvar] at h
  · rcases hrel with _ | ⟨⟨hvar⟩, _ | ⟨⟨hrange⟩, _ | ⟨⟨hbody⟩, _ | _⟩⟩⟩
    rwa [VarId.decode?_blind _ _ hvar, hid hrange, hid hbody] at h
  · rcases hrel with _ | ⟨⟨hcond⟩, _ | ⟨⟨hbody⟩, _ | _⟩⟩
    rwa [hid hcond, hid hbody] at h
  · rcases hrel with _ | ⟨⟨hcond⟩, _ | ⟨⟨hthen⟩, _ | ⟨helse, _ | _⟩⟩⟩
    rwa [hid hcond, hid hthen, hid? helse] at h
  · rcases hrel with _ | ⟨⟨hcalled⟩, _ | ⟨⟨hargs⟩, _ | _⟩⟩
    rwa [text?_blind _ _ hcalled, hids hargs] at h
  · rcases hrel with _ | ⟨⟨hargs⟩, _ | _⟩
    rwa [hids hargs] at h
  · rcases hrel with _ | ⟨hvalue, _ | _⟩
    rwa [hid? hvalue] at h
  · cases h

theorem Node.ofFields?_eq_of_rel {kind : String} {os os' : List (Option Json)}
    (h : List.Forall₂ (Option.Rel (Rearranges depth .other)) os os') : ofFields? kind os = ofFields? kind os' := by
  have hback : List.Forall₂ (Option.Rel (Rearranges depth .other)) os' os := by
    refine h.flip.imp fun o o' hrel => ?_
    cases hrel with
    | none => exact .none
    | some hvalue => exact .some (hvalue.symm_other rfl)
  exact Option.ext fun n => ⟨ofFields?_of_rel h, ofFields?_of_rel hback⟩

theorem Found.forall₂ {names : List String} {os os' : List (Option Json)} (h : Found depth .node names os os') :
    List.Forall₂ (Option.Rel (Rearranges (depth + 1) .other)) os os' := by
  induction h with
  | nil => exact .nil
  | cons head _ ih => exact .cons head ih

theorem Node.decodeMembers_eq {members members' : List Member}
    (h : Rearranges depth .node (.object members) (.object members')) :
    (do
      let kind ← (← (← member? "kind" members)).text?
      ofFields? kind (← membersNamed? (← fieldNames kind) members)) =
    (do
      let kind ← (← (← member? "kind" members')).text?
      ofFields? kind (← membersNamed? (← fieldNames kind) members')) := by
  have hkind : Option.Rel (Option.Rel (Rearranges (depth + 1) .other)) (member? "kind" members)
      (member? "kind" members') := h.member? fun hunknown => hunknown.1 rfl
  refine bind_eq_of_rel hkind fun o o' ho hrel => bind_eq_of_rel hrel fun value value' hvalue hrel => ?_
  rw [text?_blind _ _ hrel]
  cases htext : value'.text? with
  | none => rfl
  | some kind =>
    cases hnames : fieldNames kind with
    | none => simp only [Option.bind_eq_bind, Option.bind_some, hnames, Option.bind_none]
    | some names =>
      -- What was added is known by neither side, since both name the same kind.
      have hin : namesIn? members = some names := by
        simp only [namesIn?, ho, hvalue, text?_blind _ _ hrel, htext, hnames, Option.bind_eq_bind, Option.bind_some]
      simp only [Option.bind_eq_bind, Option.bind_some, hnames]
      exact bind_eq_of_rel (h.membersNamed? fun name hname hunknown => hunknown.2 names hin hname) fun _ _ _ hfound =>
        ofFields?_eq_of_rel hfound.forall₂

theorem Rearranges.forall₂_items {value value' : Json} (h : Rearranges depth .other value value')
    (before after : List Json) : List.Forall₂ (Option.Rel (Rearranges depth .other))
      ((before ++ value :: after).map some) ((before ++ value' :: after).map some) := by
  have hsame (o : Option Json) : Option.Rel (Rearranges depth .other) o o := rel_refl (fun _ => .same) o
  induction before with
  | nil => exact .cons (.some h) (List.forall₂_same.mpr fun o _ => hsame o)
  | cons item before ih => exact .cons (hsame _) ih

theorem Node.decode?_blind : Blind depth .node (Node.decode? (maxDepth - depth)) := by
  intro j j' h
  unfold Node.decode?
  rw [h.fits (.inl rfl)]
  split
  · cases h with
    | same => rfl
    | reorder hperm => exact @decodeMembers_eq depth _ _ (.reorder hperm)
    | add hname hvalue => exact decodeMembers_eq (.add hname hvalue)
    | member hvalue => exact decodeMembers_eq (.member hvalue)
    | @item _ _ before after value value' hvalue =>
      rw [Role.item_node] at hvalue
      cases before with
      | nil => simp only [List.nil_append, text?_blind _ _ hvalue]
      | cons kind before =>
        simp only [List.cons_append, List.length_append, List.length_cons,
          ofFields?_eq_of_rel (hvalue.forall₂_items before after)]
  · rfl

end Nodes

/-! ## Records -/

section Records

variable {depth : Nat}

theorem Var.decode?_blind : Blind depth .var Var.decode? := by
  intro j j' h
  refine bind_eq_of_rel (h.record? _ rfl) fun os os' _ hfound => ?_
  rcases hfound with _ | ⟨hname, _ | ⟨htype, _ | _⟩⟩
  cases hname with
  | none => rfl
  | some hname =>
    cases htype with
    | none => rfl
    | some htype => simp only [text?_blind _ _ hname, VarType.decode?_blind _ _ htype]

theorem Param.decode?_blind : Blind depth .param Param.decode? := by
  intro j j' h
  refine bind_eq_of_rel (h.record? _ rfl) fun os os' _ hfound => ?_
  rcases hfound with _ | ⟨hname, _ | ⟨htype, _ | _⟩⟩
  cases hname with
  | none => rfl
  | some hname =>
    cases htype with
    | none => rfl
    | some htype => simp only [text?_blind _ _ hname, VarType.decode?_blind _ _ htype]

theorem Scope.decode?_blind : Blind depth .scope Scope.decode? := by
  intro j j' h
  refine bind_eq_of_rel (h.record? _ rfl) fun os os' _ hfound => ?_
  rcases hfound with _ | ⟨hvars, _ | ⟨hfunctions, _ | ⟨hparent, _ | _⟩⟩⟩
  simp only [orDefault_blind (listOf_blind fun _ => VarId.decode?_blind) hvars,
    orDefault_blind (listOf_blind fun _ => FunctionId.decode?_blind) hfunctions,
    orDefault_blind (nullable_blind ScopeId.decode?_blind) hparent]

theorem FunctionDecl.decode?_blind : Blind depth .function FunctionDecl.decode? := by
  intro j j' h
  refine bind_eq_of_rel (h.record? _ rfl) fun os os' _ hfound => ?_
  rcases hfound with _ | ⟨hname, _ | ⟨htype, _ | ⟨hparams, _ | ⟨hbody, _ | _⟩⟩⟩⟩
  cases hname with
  | none => rfl
  | some hname =>
    cases htype with
    | none => rfl
    | some htype =>
      cases hparams with
      | none => rfl
      | some hparams =>
        cases hbody with
        | none => rfl
        | some hbody =>
          simp only [text?_blind _ _ hname, VarType.decode?_blind _ _ htype, FunctionBody.decode?_blind _ _ hbody,
            listOf_blind (fun _ => Param.decode?_blind) _ _ hparams]

theorem Program.decodeAt?_blind : Blind depth .program (Program.decodeAt? depth) := by
  intro j j' h
  refine bind_eq_of_rel (h.record? _ rfl) fun os os' _ hfound => ?_
  rcases hfound with _ | ⟨hnodes, _ | ⟨hscopes, _ | ⟨hvars, _ | ⟨hfunctions, _ | ⟨hroot, _ | _⟩⟩⟩⟩⟩
  cases hnodes with
  | none => rfl
  | some hnodes =>
    cases hscopes with
    | none => rfl
    | some hscopes =>
      cases hvars with
      | none => rfl
      | some hvars =>
        cases hroot with
        | none => rfl
        | some hroot =>
          simp only [listOf_blind (fun _ => Node.decode?_blind) _ _ hnodes,
            listOf_blind (fun _ => Scope.decode?_blind) _ _ hscopes,
            listOf_blind (fun _ => Var.decode?_blind) _ _ hvars,
            orDefault_blind (listOf_blind fun _ => FunctionDecl.decode?_blind) hfunctions,
            NodeId.decode?_blind _ _ hroot]

end Records

/-- However the members of objects are ordered, and whatever members that do not count are added or left out, the same
program is decoded, or none. -/
theorem Program.decode?_presented {j j' : Json} (h : Relation.EqvGen (Rearranges 0 .program) j j') :
    Program.decode? j = Program.decode? j' := by
  induction h with
  | rel j j' h => exact Program.decodeAt?_blind _ _ h
  | refl j => rfl
  | symm j j' _ ih => exact ih.symm
  | trans j j' j'' _ _ ih ih' => exact ih.trans ih'

/-- A program of one node that loads a variable, with more members in the node. -/
def loading (extra : List Member) : Json :=
  ofMembers [("nodes", .array [.object ((some "kind", ofString "load") :: (some "var", ofInt 0) :: extra)]),
    ("scopes", .array []), ("vars", .array []), ("root", ofInt 0)]

/-- The program with a member that a load does not know, and with the kind of the node behind all others. -/
def loadingTurned : Json :=
  ofMembers [("scopes", .array []), ("vars", .array []), ("root", ofInt 0), ("nodes", .array
    [ofMembers [("var", ofInt 0), ("left", .array [.null]), ("kind", ofString "load")]])]

theorem load_unknown : Role.node.Unknown [(some "kind", ofString "load"), (some "var", ofInt 0)] "left" := by
  refine ⟨by decide, fun names hnames => ?_⟩
  cases hnames
  decide

theorem Program.decode?_presented_load : Relation.EqvGen (Rearranges 0 .program) (loading []) loadingTurned ∧
    Program.decode? (loading []) = Program.decode? loadingTurned := by
  have hinside {j j' : Json} (h : Rearranges 2 .node j j') (rest : List Member) : Rearranges 0 .program
      (.object ((some "nodes", .array [j]) :: rest)) (.object ((some "nodes", .array [j']) :: rest)) :=
    @Rearranges.member 0 .program [] rest (some "nodes") _ _ (@Rearranges.item 1 (.list .node) [] [] _ _ h)
  have hadd := @Rearranges.add 2 .node [(some "kind", ofString "load"), (some "var", ofInt 0)] [] "left"
    (.array [.null]) load_unknown fun _ => rfl
  have hturn : Rearranges 2 .node
      (.object [(some "kind", ofString "load"), (some "var", ofInt 0), (some "left", .array [.null])])
      (.object [(some "var", ofInt 0), (some "left", .array [.null]), (some "kind", ofString "load")]) :=
    .reorder (@List.perm_append_comm _ [_] _)
  have hpresented : Relation.EqvGen (Rearranges 0 .program) (loading []) loadingTurned :=
    .trans _ _ _ (.rel _ _ (hinside hadd _)) (.trans _ _ _ (.rel _ _ (hinside hturn _))
      (.rel _ _ (.reorder (@List.perm_append_comm _ [_] _))))
  exact ⟨hpresented, Program.decode?_presented hpresented⟩

/-! ## What does not fit -/

/-- Arrays inside each other, one more than `n`. -/
def nested : Nat → Json
  | 0 => .array []
  | n + 1 => .array [nested n]

theorem fits_nested (n room : Nat) : (nested n).fits room = decide (n < room) := by
  induction n generalizing room with
  | zero => cases room <;> simp [nested, Json.fits, allFit]
  | succ n ih => cases room <;> simp [nested, Json.fits, allFit, ih]

/-- What a node does not know counts nevertheless if it is too deep for its place, though it would fit on its own. -/
theorem Program.decode?_nested_member : (nested 124).fits maxDepth = true ∧
    Role.node.Unknown [(some "kind", ofString "load"), (some "var", ofInt 0)] "left" ∧
    Program.decode? (loading []) = some ⟨#[.load ⟨0⟩], #[], #[], #[], ⟨0⟩⟩ ∧
    Program.decode? (loading [(some "left", nested 124)]) = none := by
  refine ⟨by rw [fits_nested]; decide, load_unknown, by decide +kernel, ?_⟩
  decide +kernel

end Canon
