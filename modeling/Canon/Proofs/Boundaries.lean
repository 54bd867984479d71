import Canon.Proofs.Moving
import Canon.Proofs.Rows

/-!
# Where an inner block begins

Nothing is written for the beginning of a block but its declarations. A statement that is moved into the block behind it
is still seen before that block in the text if the block declares nothing and stands at the left margin.
-/

namespace Canon

open Source

/-! ## How declarations begin -/

def declarers : List (List Char) := "function".toList :: VarType.all.map (·.keyword.toList)

/-- A text that begins with a word that declares, a space, and the beginning of a name. -/
def OpensDeclaration (text : List Char) : Prop :=
  ∃ word ∈ declarers, ∃ c rest, isNameStart c = true ∧ text = word ++ ' ' :: c :: rest

theorem OpensDeclaration.append {text : List Char} (h : OpensDeclaration text) (more : List Char) :
    OpensDeclaration (text ++ more) := by
  obtain ⟨word, hword, c, rest, hc, rfl⟩ := h
  exact ⟨word, hword, c, rest ++ more, hc, by simp⟩

theorem opensDeclaration_of_word {word : List Char} (hword : word ∈ declarers) {text : List Char}
    (h : ∃ c ∈ text.head?, isNameStart c = true) (more : List Char) :
    OpensDeclaration (word ++ (" ".toList ++ (text ++ more))) := by
  obtain ⟨c, hhead, hc⟩ := h
  obtain ⟨tail, rfl⟩ := List.head?_eq_some_iff.mp hhead
  exact ⟨word, hword, c, tail ++ more, hc, rfl⟩

theorem declarers_chars : ∀ word ∈ declarers, word.all isNameChar = true := by decide

theorem OpensDeclaration.begins {text : List Char} (h : OpensDeclaration text) :
    ∃ c ∈ text.head?, c.isAlpha = true := by
  obtain ⟨word, hword, c, rest, -, rfl⟩ := h
  obtain ⟨d, hd, halpha⟩ := (Option.any_eq_true _ _).mp
    ((by decide : ∀ word ∈ declarers, word.head?.any Char.isAlpha = true) word hword)
  exact ⟨d, head?_append_of_mem hd _, halpha⟩

theorem not_opensDeclaration {word rest : List Char} (hword : word.all isNameChar = true)
    (hrest : ∀ c ∈ rest.head?, isNameChar c = false)
    (hother : word ∈ declarers → ∀ c tail, rest = ' ' :: c :: tail → isNameStart c = false) :
    ¬ OpensDeclaration (word ++ rest) := by
  rintro ⟨declarer, hdeclarer, c, tail, hc, heq⟩
  have hread := takeAll_run (List.all_eq_true.mp hword) hrest
  rw [heq, takeAll_run (List.all_eq_true.mp (declarers_chars declarer hdeclarer)) (stops_at ' ' rfl (by decide))] at hread
  obtain ⟨rfl, rfl⟩ := Prod.mk.inj (Option.some.inj hread)
  exact absurd hc (by simp [hother hdeclarer c tail rfl])

/-! ## How statements begin -/

/-- A text that does not begin with a space or as a declaration does, whatever follows. -/
structure OpensStatement (text : List Char) : Prop where
  begins : ∃ c ∈ text.head?, c ≠ ' '
  undeclared : ∀ more, ¬ OpensDeclaration (text ++ more)

theorem OpensStatement.append {text : List Char} (h : OpensStatement text) (more : List Char) :
    OpensStatement (text ++ more) where
  begins := by
    obtain ⟨c, hc, hne⟩ := h.begins
    exact ⟨c, head?_append_of_mem hc more, hne⟩
  undeclared rest := by
    rw [List.append_assoc]
    exact h.undeclared (more ++ rest)

theorem OpensStatement.word {word : List Char} (hword : word.all isNameChar = true) {mark : Char}
    (hmark : isNameChar mark = false) (hspace : mark ≠ ' ') : OpensStatement (word ++ [mark]) where
  begins := by
    cases word with
    | nil => exact ⟨mark, rfl, hspace⟩
    | cons c word =>
      refine ⟨c, rfl, ?_⟩
      rintro rfl
      cases List.all_eq_true.mp hword _ List.mem_cons_self
  undeclared more := by
    rw [List.append_assoc]
    refine not_opensDeclaration hword (stops_at mark rfl hmark) fun _ c tail heq => ?_
    exact absurd (List.head_eq_of_cons_eq heq) hspace

theorem OpensStatement.spaced {word : List Char} (hword : word.all isNameChar = true) (hsome : word ≠ [])
    {mark : Char} (hmark : isNameStart mark = false) : OpensStatement (word ++ [' ', mark]) where
  begins := by
    obtain ⟨c, rest, rfl⟩ := List.exists_cons_of_ne_nil hsome
    refine ⟨c, rfl, ?_⟩
    rintro rfl
    cases List.all_eq_true.mp hword _ List.mem_cons_self
  undeclared more := by
    rw [List.append_assoc]
    refine not_opensDeclaration hword (stops_at ' ' rfl (by decide)) fun _ c tail heq => ?_
    obtain ⟨-, rfl, -⟩ : True ∧ mark = c ∧ more = tail := by simpa using heq
    exact hmark

theorem OpensStatement.number {token : List Char} (h : IsNumber token) : OpensStatement token where
  begins := (oneLine_isNumber h).begins
  undeclared more hopens := by
    obtain ⟨c, hc, hstart⟩ := h.begins
    obtain ⟨d, hd, halpha⟩ := hopens.begins
    obtain rfl : c = d := Option.some.inj ((head?_append_of_mem hc more).symm.trans hd)
    rcases hstart with hdigit | rfl
    · exact absurd hdigit (by simp [not_isDigit_of_isAlpha halpha])
    · cases halpha

theorem OpensStatement.mark {mark : Char} (hmark : isNameChar mark = false) (hspace : mark ≠ ' ') :
    OpensStatement [mark] := @OpensStatement.word [] rfl _ hmark hspace

theorem isIdentifier_ne_nil {name : String} (h : isIdentifier name = true) : name.toList ≠ [] := by
  obtain ⟨c, hc, -⟩ := isIdentifier_begins h
  exact List.ne_nil_of_mem (List.mem_of_mem_head? hc)

theorem isIdentifier_ends {name : String} (h : isIdentifier name = true) :
    ∃ front c, name.toList = front ++ [c] ∧ isNameChar c = true := by
  obtain ⟨front, c, hchars⟩ := (List.eq_nil_or_concat' name.toList).resolve_left (isIdentifier_ne_nil h)
  exact ⟨front, c, hchars, List.all_eq_true.mp (isIdentifier_chars h) c (by simp [hchars])⟩

theorem OpensStatement.double (x : Double) : OpensStatement (x.text.toList ++ [';']) := by
  by_cases hfinite : x.isFinite = true
  · exact (OpensStatement.number (Double.isNumber_text hfinite)).append _
  · cases hnan : x.isNaN with
    | true =>
      have htext : x.text.toList = "NaN".toList := by simp [Double.text, hnan]
      exact htext ▸ .word (by decide) (by decide) (by decide)
    | false =>
      cases hsign : x.isNegative with
      | true =>
        have htext : x.text.toList = ['-'] ++ "inf".toList := by simp [Double.text, hnan, hfinite, hsign]
        exact htext ▸ ((OpensStatement.mark (by decide) (by decide)).append _).append _
      | false =>
        have htext : x.text.toList = "inf".toList := by simp [Double.text, hnan, hfinite, hsign]
        exact htext ▸ .word (by decide) (by decide) (by decide)

namespace Program

variable {p : Program}

theorem opensStatement_layout {node : Node} (hresolves : p.NodeResolves node) (hblock : node.isBlock = false)
    (hnames : ∀ name ∈ p.namesIn node, isIdentifier name = true) (width indent : Nat)
    (below : Nat → NodeId → List Char) :
    OpensStatement ((p.layout node).flatMap (Piece.chars width indent below) ++
      ((if node.isCompound then [] else [';']) ++ ['\n'])) := by
  cases node with
  | binary op left right =>
    simpa [layout, Piece.chars] using (OpensStatement.mark (by decide : isNameChar '(' = false) (by decide)).append _
  | unary op operand =>
    simpa [layout, Piece.chars] using (OpensStatement.mark (by decide : isNameChar '(' = false) (by decide)).append _
  | block scope stmts => cases hblock
  | store var op value =>
    obtain ⟨found, hvar⟩ := hresolves.vars var List.mem_cons_self
    have hname := isIdentifier_var hnames hvar
    obtain ⟨mark, rest, hop, hmark⟩ : ∃ mark rest, op.symbol.toList = mark :: rest ∧ isNameStart mark = false := by
      cases op <;> exact ⟨_, _, rfl, by decide⟩
    simpa [layout, Program.found, hvar, Piece.chars, hop] using
      (OpensStatement.spaced (isIdentifier_chars hname) (isIdentifier_ne_nil hname) hmark).append _
  | string value =>
    simpa [layout, Piece.chars] using (OpensStatement.mark (by decide : isNameChar '"' = false) (by decide)).append _
  | double value => simpa [layout, Piece.chars, Node.isCompound] using (OpensStatement.double value).append _
  | int value =>
    simpa [layout, Piece.chars, intText] using (OpensStatement.number (isNumber_intText value.toInt)).append _
  | load var =>
    obtain ⟨found, hvar⟩ := hresolves.vars var List.mem_cons_self
    have hname := isIdentifier_var hnames hvar
    simpa [layout, Program.found, hvar, Piece.chars, Node.isCompound] using
      (OpensStatement.word (isIdentifier_chars hname) (by decide : isNameChar ';' = false) (by decide)).append _
  | forIn var range body =>
    obtain ⟨found, hvar⟩ := hresolves.vars var List.mem_cons_self
    simpa [layout, Program.found, hvar, Piece.chars] using
      (OpensStatement.spaced (by decide : ("for".toList).all isNameChar = true) (by decide)
        (by decide : isNameStart '(' = false)).append _
  | whileLoop cond body =>
    simpa [layout, Piece.chars] using
      (OpensStatement.spaced (by decide : ("while".toList).all isNameChar = true) (by decide)
        (by decide : isNameStart '(' = false)).append _
  | ifElse cond thenBlock elseBlock =>
    simpa [layout, Piece.chars] using
      (OpensStatement.spaced (by decide : ("if".toList).all isNameChar = true) (by decide)
        (by decide : isNameStart '(' = false)).append _
  | call name args =>
    have hname := hnames name List.mem_cons_self
    simpa [layout, layoutArgs, Piece.chars] using
      (OpensStatement.word (isIdentifier_chars hname) (by decide : isNameChar '(' = false) (by decide)).append _
  | print args =>
    simpa [layout, layoutArgs, Piece.chars] using
      (OpensStatement.word (by decide : ("print".toList).all isNameChar = true)
        (by decide : isNameChar '(' = false) (by decide)).append _
  | ret value =>
    cases value with
    | none =>
      simpa [layout, Piece.chars, Node.isCompound] using
        (OpensStatement.word (by decide : ("return".toList).all isNameChar = true)
          (by decide : isNameChar ';' = false) (by decide)).append _
    | some value =>
      refine ⟨⟨'r', by simp [layout, Piece.chars], by decide⟩, fun more => ?_⟩
      have hreturn : "return".toList ∉ declarers := by decide
      simp only [layout, List.flatMap_cons, Piece.chars, List.append_assoc]
      exact not_opensDeclaration (by decide) (stops_at ' ' rfl (by decide)) fun hword => absurd hword hreturn

end Program

/-! ## How declarations end -/

/-- A text that does not end as an inner block does: with a semicolon behind a space or the end of a line. -/
structure ClosesDeclaration (text : List Char) : Prop where
  long : 3 ≤ text.length
  marked : ∀ c, [c, ';', '\n'] <:+ text → c ≠ ' ' ∧ c ≠ '\n'

theorem ClosesDeclaration.prepend {text : List Char} (h : ClosesDeclaration text) (front : List Char) :
    ClosesDeclaration (front ++ text) where
  long := h.long.trans (by simp)
  marked c hend := h.marked c (List.suffix_of_suffix_length_le hend (List.suffix_append front text) h.long)

theorem ClosesDeclaration.semicolon {c : Char} (hspace : c ≠ ' ') (hbreak : c ≠ '\n') :
    ClosesDeclaration [c, ';', '\n'] where
  long := le_refl _
  marked d hend := by
    obtain ⟨rfl, -⟩ := List.cons_eq_cons.mp (hend.eq_of_length rfl)
    exact ⟨hspace, hbreak⟩

theorem ClosesDeclaration.brace (c : Char) (front : List Char) :
    ClosesDeclaration (c :: (front ++ "\x7d\n".toList)) where
  long := by simp
  marked d hend := by
    have hbrace : ['\x7d', '\n'] <:+ c :: (front ++ "\x7d\n".toList) := List.suffix_append (c :: front) _
    have hshort : ['\x7d', '\n'] <:+ [d, ';', '\n'] := List.suffix_of_suffix_length_le hbrace hend (by simp)
    simp [List.suffix_cons_iff] at hshort

/-- The lines of a declaration, so many columns from the left margin. -/
structure IsDeclaration (indent : Nat) (text : List Char) : Prop where
  opens : ∃ body, text = List.replicate indent ' ' ++ body ∧ OpensDeclaration body
  closes : ClosesDeclaration text

theorem IsDeclaration.append {indent : Nat} {text text' : List Char} (h : IsDeclaration indent text)
    (h' : IsDeclaration indent text') : IsDeclaration indent (text ++ text') where
  opens := by
    obtain ⟨body, rfl, hopens⟩ := h.opens
    exact ⟨body ++ text', List.append_assoc .., hopens.append text'⟩
  closes := h'.closes.prepend text

theorem IsDeclaration.flatten {indent : Nat} {texts : List (List Char)} (h : ∀ text ∈ texts, IsDeclaration indent text)
    (hsome : texts ≠ []) : IsDeclaration indent texts.flatten := by
  induction texts with
  | nil => exact absurd rfl hsome
  | cons text texts ih =>
    obtain ⟨htext, htexts⟩ := List.forall_mem_cons.mp h
    by_cases hrest : texts = []
    · simpa [hrest] using htext
    · exact htext.append (ih htexts hrest)

namespace Program

variable {p : Program} {width indent : Nat} {below : Nat → NodeId → List Char}

theorem isDeclaration_var {id : VarId} {var : Var} (hvar : p.var? id = some var)
    (hname : isIdentifier var.name = true) :
    IsDeclaration indent ((p.layoutVar id).flatMap (Piece.chars width indent below)) where
  opens := by
    have hword : var.type.keyword.toList ∈ declarers := by cases var.type <;> decide
    exact ⟨_, layoutVar_chars hvar, opensDeclaration_of_word hword (isIdentifier_begins hname) ";\n".toList⟩
  closes := by
    obtain ⟨front, c, hchars, hc⟩ := isIdentifier_ends hname
    have hspace : c ≠ ' ' := by
      rintro rfl
      cases hc
    have hbreak : c ≠ '\n' := by
      rintro rfl
      cases hc
    simpa [layoutVar_chars hvar, hchars] using (ClosesDeclaration.semicolon hspace hbreak).prepend
      (List.replicate indent ' ' ++ (var.type.keyword.toList ++ (' ' :: front)))

theorem isDeclaration_function {id : FunctionId} (hfunction : p.HasFunction id) :
    IsDeclaration indent ((p.layoutFunction id).flatMap (Piece.chars width indent below)) := by
  obtain ⟨function, hfunction⟩ := hfunction
  have hkeyword : ∃ c ∈ function.returnType.keyword.toList.head?, isNameStart c = true := by
    cases function.returnType <;> exact ⟨_, rfl, by decide⟩
  have hopens : OpensDeclaration (signatureText function.returnType function.name function.params) :=
    opensDeclaration_of_word (by decide : "function".toList ∈ declarers) hkeyword _
  rw [layoutFunction_chars hfunction]
  refine ⟨⟨_, rfl, hopens.append _⟩, (ClosesDeclaration.prepend ?_ _).prepend _⟩
  cases function.body with
  | native symbol =>
    have hend : ClosesDeclaration "';\n".toList := .semicolon (by decide) (by decide)
    exact (hend.prepend _).prepend _
  | block body =>
    have hend := ClosesDeclaration.brace '\n' (below (indent + width) body ++ List.replicate indent ' ')
    simpa using hend.prepend [' ', '\x7b']

theorem isDeclaration_scope (h : p.Linked) {id : ScopeId} {scope : Scope} (hscope : p.scope? id = some scope)
    {stmts : List NodeId} (hnames : ∀ name ∈ p.namesIn (.block id stmts), isIdentifier name = true)
    (hsome : ¬ (scope.vars = [] ∧ scope.functions = [])) :
    IsDeclaration indent ((p.layoutScope id).flatMap (Piece.chars width indent below)) := by
  have htext : (p.layoutScope id).flatMap (Piece.chars width indent below) =
      (scope.vars.map (fun var => (p.layoutVar var).flatMap (Piece.chars width indent below)) ++
        scope.functions.map fun f => (p.layoutFunction f).flatMap (Piece.chars width indent below)).flatten := by
    simp [layoutScope, hscope, List.flatMap_assoc, ← List.flatMap_def]
  rw [htext]
  apply IsDeclaration.flatten
  · simp only [List.forall_mem_append, List.forall_mem_map]
    have hresolves := h.scopes scope (mem_toList_of_lookup hscope)
    refine ⟨fun v hv => ?_, fun f hf => isDeclaration_function (hresolves.functions f hf)⟩
    obtain ⟨var, hvar⟩ := hresolves.vars v hv
    exact isDeclaration_var hvar (hnames _ (name_mem_namesIn hscope hv hvar stmts))
  · simpa [-not_and] using hsome

end Program

/-! ## How inner blocks end -/

/-- A text is made of whole lines. -/
def WholeLines (text : List Char) : Prop := ∀ c ∈ text.getLast?, c = '\n'

theorem WholeLines.append {text text' : List Char} (h : WholeLines text) (h' : WholeLines text') :
    WholeLines (text ++ text') := by
  intro c hc
  rw [List.getLast?_append] at hc
  cases hlast : text'.getLast? with
  | none => exact h c (by simpa [hlast] using hc)
  | some d => exact h' c (by simpa [hlast] using hc)

theorem WholeLines.flatMap {α : Type} {text : α → List Char} {as : List α} (h : ∀ a ∈ as, WholeLines (text a)) :
    WholeLines (as.flatMap text) := by
  induction as with
  | nil => simp [WholeLines]
  | cons a as ih =>
    obtain ⟨ha, has⟩ := List.forall_mem_cons.mp h
    exact ha.append (ih has)

theorem WholeLines.of_end (text : List Char) : WholeLines (text ++ ['\n']) := by simp [WholeLines]

namespace Program

variable {p : Program} {width indent : Nat} {below : Nat → NodeId → List Char}

theorem wholeLines_var (id : VarId) : WholeLines ((p.layoutVar id).flatMap (Piece.chars width indent below)) := by
  cases hvar : p.var? id with
  | none => simp [layoutVar, found, hvar, Piece.chars, WholeLines]
  | some var => simp [layoutVar_chars hvar, WholeLines, List.getLast?_append, List.getLast?_cons]

theorem wholeLines_function (id : FunctionId) :
    WholeLines ((p.layoutFunction id).flatMap (Piece.chars width indent below)) := by
  cases hfunction : p.function? id with
  | none => simp [layoutFunction, found, hfunction, Piece.chars, WholeLines]
  | some function =>
    cases hbody : function.body <;>
      simp [layoutFunction_chars hfunction, hbody, WholeLines, List.getLast?_append, List.getLast?_cons]

theorem wholeLines_block (scope : ScopeId) {stmts : List NodeId} (hstmts : ∀ id ∈ stmts, p.HasNode id) :
    WholeLines ((p.layoutBlock scope stmts).flatMap (Piece.chars width indent below)) := by
  have hlines : WholeLines ((stmts.flatMap p.layoutStmt).flatMap (Piece.chars width indent below)) := by
    rw [List.flatMap_assoc]
    refine .flatMap fun id hid => ?_
    obtain ⟨node, hnode⟩ := hstmts id hid
    simp only [layoutStmt_chars hnode, ← List.append_assoc]
    exact .of_end _
  cases hscope : p.scope? scope with
  | none => simp [layoutBlock, found, hscope, Piece.chars, WholeLines]
  | some found =>
    have hvars : WholeLines ((found.vars.flatMap p.layoutVar).flatMap (Piece.chars width indent below)) := by
      rw [List.flatMap_assoc]
      exact .flatMap fun id _ => wholeLines_var id
    have hfunctions :
        WholeLines ((found.functions.flatMap p.layoutFunction).flatMap (Piece.chars width indent below)) := by
      rw [List.flatMap_assoc]
      exact .flatMap fun id _ => wholeLines_function id
    simpa [layoutBlock, Program.found, hscope, Piece.chars] using hvars.append (hfunctions.append hlines)

end Program

/-! ## Texts that change places -/

theorem chars_deeper (width indent level : Nat) (acts : List Act) :
    (acts.map Act.deeper^[level]).flatMap (Act.chars width indent) =
      acts.flatMap (Act.chars width (indent + level * width)) := by
  have hact (act : Act) : (Act.deeper^[level] act).chars width indent = act.chars width (indent + level * width) := by
    induction level generalizing indent with
    | zero => simp
    | succ level ih =>
      rw [Function.iterate_succ_apply', Act.chars_deeper, ih, Nat.succ_mul]
      congr 1
      omega
  rw [List.flatMap_map]
  exact List.flatMap_congr fun act _ => hact act

section Places

variable {indent : Nat}

theorem spaces_swap_iff (text : List Char) : (text ++ ['\n']) ++ List.replicate indent ' ' =
    List.replicate indent ' ' ++ (text ++ ['\n']) ↔ indent = 0 := by
  constructor
  · intro heq
    cases indent with
    | zero => rfl
    | succ indent =>
      have hlast := congrArg List.getLast? heq
      simp [List.getLast?_cons, List.getLast?_replicate] at hlast
  · rintro rfl
    simp

theorem statement_swap_ne {text : List Char} (htext : OpensStatement text) {declarations : List Char}
    (h : IsDeclaration indent declarations) :
    (List.replicate indent ' ' ++ text) ++ (List.replicate indent ' ' ++ declarations) ≠
      (List.replicate indent ' ' ++ declarations) ++ (List.replicate indent ' ' ++ text) := by
  -- The two sides begin differently: with a statement, and with a space or a declaration.
  obtain ⟨body, rfl, hopens⟩ := h.opens
  intro heq
  simp only [List.append_assoc, List.append_cancel_left_eq] at heq
  cases indent with
  | zero => exact htext.undeclared body ((by simpa using heq : text ++ body = body ++ text) ▸ hopens.append text)
  | succ indent =>
    obtain ⟨c, hc, hne⟩ := htext.begins
    have hhead := head?_append_of_mem hc (List.replicate (indent + 1) ' ' ++ (List.replicate (indent + 1) ' ' ++ body))
    rw [heq] at hhead
    exact hne (Option.some.inj hhead).symm

theorem block_swap_ne {lines : List Char} (hlines : WholeLines lines) {declarations : List Char}
    (h : IsDeclaration indent declarations) :
    (List.replicate indent ' ' ++ (lines ++ [';', '\n'])) ++ (List.replicate indent ' ' ++ declarations) ≠
      (List.replicate indent ' ' ++ declarations) ++ (List.replicate indent ' ' ++ (lines ++ [';', '\n'])) := by
  -- A block can begin with the same declarations, so the two sides are told apart by their ends.
  intro heq
  rcases List.eq_nil_or_concat' (List.replicate indent ' ' ++ lines) with hnil | ⟨front, c, hfront⟩
  · -- There is only a semicolon, and the declarations do not begin with one.
    obtain ⟨hspaces, rfl⟩ := List.append_eq_nil_iff.mp hnil
    obtain ⟨body, rfl, hopens⟩ := h.opens
    obtain ⟨c, hc, halpha⟩ := hopens.begins
    simp only [hspaces, List.nil_append] at heq
    have hhead := head?_append_of_mem hc [';', '\n']
    rw [← heq] at hhead
    obtain rfl : ';' = c := Option.some.inj hhead
    cases halpha
  · have hlast : (List.replicate indent ' ' ++ lines).getLast? = some c := by simp [hfront]
    have hend : [c, ';', '\n'] <:+ List.replicate indent ' ' ++ (lines ++ [';', '\n']) := by
      rw [← List.append_assoc, hfront]
      exact ⟨front, by simp⟩
    have hcloses := h.closes.prepend (List.replicate indent ' ')
    have hsuffix : [c, ';', '\n'] <:+ List.replicate indent ' ' ++ declarations := by
      have hwhole := hend.trans (List.suffix_append (List.replicate indent ' ' ++ declarations) _)
      rw [← heq] at hwhole
      exact List.suffix_of_suffix_length_le hwhole (List.suffix_append _ _) hcloses.long
    obtain ⟨hspace, hbreak⟩ := hcloses.marked c hsuffix
    rw [List.getLast?_append] at hlast
    cases hline : lines.getLast? with
    | none =>
      rw [hline, Option.none_or] at hlast
      exact hspace (List.eq_of_mem_replicate (List.mem_of_getLast? hlast))
    | some d =>
      obtain rfl : d = c := by simpa [hline] using hlast
      exact hbreak (hlines d hline)

end Places

namespace Program

variable {p : Program}

namespace Move

variable (m : p.Move)

/-- The inner block declares nothing. -/
def Bare : Prop := ∃ scope, p.scope? m.innerScope = some scope ∧ scope.vars = [] ∧ scope.functions = []

/-- The names that are written for the moved statement and for the declarations of the inner block are identifiers. -/
structure Named : Prop where
  stmt : ∀ node, p.node? m.stmt = some node → ∀ name ∈ p.namesIn node, isIdentifier name = true
  inner : ∀ name ∈ p.namesIn (.block m.innerScope m.stmts), isIdentifier name = true

/-- The line of the moved statement, so many columns from the left margin. -/
def lineText (width indent : Nat) : List Char := m.line.flatMap (Act.chars width indent)

/-- What is written for the beginning of the inner block, so many columns from the left margin. -/
def headText (width indent : Nat) : List Char := m.head.flatMap (Act.chars width indent)

variable (width indent : Nat)

theorem lineText_eq {node : Node} (hnode : p.node? m.stmt = some node) : m.lineText width indent =
    List.replicate indent ' ' ++ ((p.layout node).flatMap (Piece.chars width indent (p.textAt width p.nodes.size)) ++
      ((if node.isCompound then [] else [';']) ++ ['\n'])) := by
  rw [← textAt_succ hnode]
  exact (chars_flatMap_acts width (p.nodes.size + 1) indent _).trans (layoutStmt_chars hnode)

theorem headText_eq : m.headText width indent = List.replicate indent ' ' ++
    (p.layoutScope m.innerScope).flatMap (Piece.chars width indent (p.textAt width (p.nodes.size + 1))) := by
  rw [← chars_flatMap_acts]
  simp only [headText, head, List.flatMap_cons, Act.chars, Nat.zero_mul, Nat.add_zero, List.nil_append]
  rfl

section Texts

variable (h : p.Linked)

include h in
theorem swap_iff_of_bare (hbare : m.Bare) : m.lineText width indent ++ m.headText width indent =
    m.headText width indent ++ m.lineText width indent ↔ indent = 0 := by
  obtain ⟨node, hnode⟩ := m.hasNode_stmt h
  obtain ⟨scope, hscope, hvars, hfunctions⟩ := hbare
  have hhead : m.headText width indent = List.replicate indent ' ' := by
    simp [m.headText_eq, layoutScope, hscope, hvars, hfunctions]
  obtain ⟨text, hline⟩ : ∃ text, m.lineText width indent = text ++ ['\n'] :=
    ⟨_, by rw [m.lineText_eq width indent hnode, ← List.append_assoc, ← List.append_assoc]⟩
  rw [hhead, hline]
  exact spaces_swap_iff text

include h in
theorem swap_iff (hnamed : m.Named) : m.lineText width indent ++ m.headText width indent =
    m.headText width indent ++ m.lineText width indent ↔ indent = 0 ∧ m.Bare := by
  by_cases hbare : m.Bare
  · rw [m.swap_iff_of_bare width indent h hbare]
    exact (and_iff_left hbare).symm
  · refine ⟨fun heq => absurd heq ?_, fun hboth => absurd hboth.2 hbare⟩
    obtain ⟨node, hnode⟩ := m.hasNode_stmt h
    obtain ⟨scope, hscope⟩ := h.hasScope_block m.inner_eq
    have hdeclares : IsDeclaration indent ((p.layoutScope m.innerScope).flatMap
        (Piece.chars width indent (p.textAt width (p.nodes.size + 1)))) :=
      isDeclaration_scope h hscope hnamed.inner fun hnone => hbare ⟨scope, hscope, hnone⟩
    have hresolves := h.nodes node (mem_toList_of_lookup hnode)
    rw [m.lineText_eq width indent hnode, m.headText_eq]
    cases hblock : node.isBlock with
    | false => exact statement_swap_ne (opensStatement_layout hresolves hblock (hnamed.stmt node hnode) _ _ _) hdeclares
    | true =>
      obtain ⟨scope, stmts, rfl⟩ : ∃ scope stmts, node = .block scope stmts := by
        cases node <;> simp [Node.isBlock] at hblock ⊢
      exact block_swap_ne (wholeLines_block scope hresolves.children) hdeclares

include h in
theorem result_marginsFit : m.result.MarginsFit width ↔ p.MarginsFit width := by
  obtain ⟨level, before, after, -, hwalk, hresult⟩ := m.walks_swapped h
  have hmargin (level : Nat) : .margin level ∈ m.result.walk p.root ↔ .margin level ∈ p.walk p.root := by
    rw [hresult, hwalk]
    simp only [List.mem_append, List.map_append]
    tauto
  have hline (level : Nat) : m.result.LineAt m.result.root level ↔ p.LineAt p.root level :=
    (m.result_linked h).lineAt_iff.trans ((hmargin level).trans h.lineAt_iff.symm)
  simp only [MarginsFit, hline]

end Texts

end Move

/-- A statement that is moved into the block behind it leaves a valid program, which can be printed in the same widths.
Its text is another one, but for two cases, in which the line of the statement and the beginning of the block can change
places. One is that the block declares nothing and is not indented, because no body is around it or the width is zero.
The other needs names that are not identifiers. -/
theorem render_result_eq_iff (hvalid : p.validate = .ok ()) (m : p.Move) : m.result.validate = .ok () ∧
    ∃ level, p.NestedIn p.root level m.outer ∧ ∀ width,
      (¬ p.MarginsFit width → p.render width = .error .indentTooWide ∧ m.result.render width = .error .indentTooWide) ∧
      (p.MarginsFit width → ∃ text text', p.render width = .ok text ∧ m.result.render width = .ok text' ∧
        (text = text' ↔ m.lineText width (level * width) ++ m.headText width (level * width) =
          m.headText width (level * width) ++ m.lineText width (level * width)) ∧
        (m.Bare → (text = text' ↔ level * width = 0)) ∧
        (m.Named → (text = text' ↔ level * width = 0 ∧ m.Bare))) := by
  have h := (wellFormed_of_validate hvalid).toLinked
  have hresult := m.result_linked h
  obtain ⟨level, before, after, hnested, hwalk, hwalkResult⟩ := m.walks_swapped h
  refine ⟨m.result_validate hvalid, level, hnested, fun width => ⟨fun hwide => ?_, fun hfits => ?_⟩⟩
  · exact ⟨h.render_wide hwide, hresult.render_wide fun hfits => hwide ((m.result_marginsFit width h).mp hfits)⟩
  · obtain ⟨text, htext⟩ := h.render_iff.mpr hfits
    obtain ⟨text', htext'⟩ := hresult.render_iff.mpr ((m.result_marginsFit width h).mpr hfits)
    have hchars : text.toList = (p.walk p.root).flatMap (Act.chars width 0) :=
      transcript_text ((renderFrom_eq_ok p width p.root text).mp htext)
    have hchars' : text'.toList = (m.result.walk p.root).flatMap (Act.chars width 0) :=
      transcript_text ((renderFrom_eq_ok m.result width p.root text').mp htext')
    have hswap : text = text' ↔ m.lineText width (level * width) ++ m.headText width (level * width) =
        m.headText width (level * width) ++ m.lineText width (level * width) := by
      rw [← String.toList_inj, hchars, hchars', hwalk, hwalkResult]
      simp only [List.flatMap_append, List.append_cancel_left_eq, List.append_cancel_right_eq, chars_deeper,
        Nat.zero_add]
      exact Iff.rfl
    exact ⟨text, text', htext, htext', hswap, fun hbare => hswap.trans (m.swap_iff_of_bare width _ h hbare),
      fun hnamed => hswap.trans (m.swap_iff width _ h hnamed)⟩

/-- A statement before a block with these declarations. -/
def parted (inner : Scope) : Program where
  nodes := #[.block ⟨0⟩ [⟨1⟩, ⟨2⟩], .print [], .block ⟨1⟩ []]
  scopes := #[{}, inner]
  vars := #[⟨"b", .int⟩]
  functions := #[]
  root := ⟨0⟩

def partedMove (inner : Scope) : (parted inner).Move where
  outer := ⟨0⟩
  inner := ⟨2⟩
  stmt := ⟨1⟩
  outerScope := ⟨0⟩
  innerScope := ⟨1⟩
  before := []
  after := []
  stmts := []
  outer_eq := rfl
  inner_eq := rfl
  met := .single (Linked.mem_below.mpr (.inr (List.mem_cons_of_mem _ List.mem_cons_self)))

theorem render_result_eq_iff_declared : (parted { vars := [⟨0⟩] }).validate = .ok () ∧
    (partedMove { vars := [⟨0⟩] }).Named ∧
    ∃ text text', (parted { vars := [⟨0⟩] }).render 4 = .ok text ∧
      (partedMove { vars := [⟨0⟩] }).result.render 4 = .ok text' ∧ text ≠ text' := by
  have hvalid : (parted { vars := [⟨0⟩] }).validate = .ok () := by decide
  have hnamed : (partedMove { vars := [⟨0⟩] }).Named := ⟨fun node hnode => by cases hnode; decide, by decide⟩
  have hfits : (parted { vars := [⟨0⟩] }).MarginsFit 4 :=
    (wellFormed_of_validate hvalid).toLinked.render_iff.mp ⟨"print();\nint b;\n;\n", by decide +kernel⟩
  obtain ⟨-, level, -, hrender⟩ := render_result_eq_iff hvalid (partedMove { vars := [⟨0⟩] })
  obtain ⟨text, text', htext, htext', -, -, hiff⟩ := (hrender 4).2 hfits
  refine ⟨hvalid, hnamed, text, text', htext, htext', fun heq => ?_⟩
  obtain ⟨scope, hscope, hvars, -⟩ := ((hiff hnamed).mp heq).2
  cases hscope
  cases hvars

/-- The two texts are the same although the statement is in another block. -/
theorem render_result_eq : (parted {}).validate = .ok () ∧ (partedMove {}).result.validate = .ok () ∧
    (parted {}).render 4 = .ok "print();\n;\n" ∧ (partedMove {}).result.render 4 = .ok "print();\n;\n" := by
  decide +kernel

end Program

end Canon
