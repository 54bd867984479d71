import Canon.Json.Reader
import Canon.Json.Writer
import Canon.Proofs.DoubleText

/-!
# What is written is read back

The reader is followed through the bytes of a written value: through a string literal, through a number literal, and then
through what is inside brackets and braces. Every value comes back as it was, and so does a string literal that spells no
text.
-/

namespace Canon

/-! ## Bytes -/

theorem toList_loop (bytes : ByteArray) (i : Nat) (seen : List UInt8) :
    ByteArray.toList.loop bytes i seen = seen.reverse ++ bytes.data.toList.drop i := by
  fun_induction ByteArray.toList.loop bytes i seen with
  | case1 i seen h ih =>
    have hi : i < bytes.data.toList.length := h
    have hget : bytes.get! i = bytes.data.toList[i] := getElem!_pos bytes.data i h
    rw [ih, List.reverse_cons, List.append_assoc, List.drop_eq_getElem_cons hi, hget]
    rfl
  | case2 i seen h =>
    rw [List.drop_eq_nil_of_le (Nat.le_of_not_lt h), List.append_nil]

theorem toList_bytes (bytes : ByteArray) : bytes.toList = bytes.data.toList := toList_loop bytes 0 []

theorem toUTF8_toList (s : String) : s.toUTF8.toList = s.toList.flatMap String.utf8EncodeChar := by
  have hbytes : s.toUTF8 = s.toList.utf8Encode := by
    rw [String.toUTF8_eq_toByteArray, ← String.toByteArray_ofList, String.ofList_toList]
  rw [hbytes, toList_bytes, List.utf8Encode, List.data_toByteArray]

theorem fromUTF8?_bytes (s : String) : String.fromUTF8? ⟨(s.toList.flatMap String.utf8EncodeChar).toArray⟩ = some s := by
  have hbytes : (⟨(s.toList.flatMap String.utf8EncodeChar).toArray⟩ : ByteArray) = s.toByteArray := by
    rw [← String.toUTF8_eq_toByteArray, ← toUTF8_toList, toList_bytes]
  rw [hbytes, String.fromUTF8?, dif_pos s.isValidUTF8]
  rfl

theorem ofUInt8_toUInt8 {c : Char} (h : c.val ≤ 127) : Char.ofUInt8 c.toUInt8 = c := by
  apply Char.ext
  apply UInt32.toNat.inj
  have hsmall : c.val.toNat ≤ 127 := h
  change c.val.toUInt8.toUInt32.toNat = c.val.toNat
  rw [UInt8.toNat_toUInt32, UInt32.toNat_toUInt8]
  omega

theorem mem_utf8EncodeChar {c : Char} {b : UInt8} (h : b ∈ String.utf8EncodeChar c) :
    (c.val ≤ 127 ∧ b = c.toUInt8) ∨ 128 ≤ b.toNat := by
  unfold String.utf8EncodeChar at h
  dsimp only at h
  split at h
  · next hsmall => exact .inl ⟨hsmall, List.mem_singleton.mp h⟩
  · refine .inr ?_
    split_ifs at h <;> simp only [List.mem_cons, List.not_mem_nil, or_false] at h <;>
      rcases h with rfl | rfl | rfl | rfl <;> simp only [UInt8.toNat_ofNat'] <;> omega

namespace Json

/-! ## The machine on a text -/

/-- The state after the bytes of a text. -/
def run (cs : List Char) (s : State) : Option State := (cs.flatMap String.utf8EncodeChar).foldlM step s

theorem run_append (cs ds : List Char) (s : State) : run (cs ++ ds) s = (run cs s).bind (run ds) := by
  unfold run
  rw [List.flatMap_append, List.foldlM_append]
  rfl

theorem run_ascii {c : Char} (h : c.val ≤ 127) (s : State) : run [c] s = step s c.toUInt8 := by
  have hbyte : String.utf8EncodeChar c = [c.toUInt8] := String.utf8EncodeChar_eq_singleton (Char.utf8Size_eq_one_iff.mpr h)
  rw [run, List.flatMap_singleton, hbyte, List.foldlM_cons]
  exact bind_pure (step s c.toUInt8)

theorem run_then {cs : List Char} {s t : State} (h : run cs s = some t) (ds : List Char) :
    run (cs ++ ds) s = run ds t := by
  rw [run_append, h]
  rfl

theorem run_then_cons {c : Char} {s t : State} (h : run [c] s = some t) (ds : List Char) :
    run (c :: ds) s = run ds t := run_then h ds

theorem read?_ofList (cs : List Char) : read? (String.ofList cs).toUTF8.toList = (run cs .start).bind State.value? := by
  rw [toUTF8_toList, String.toList_ofList]
  rfl

/-! ## String literals -/

/-- What a character is read as between quotes. -/
def piecesOf (c : Char) : List Piece :=
  if c.toNat < 0x20 && c ≠ '\n' && c ≠ '\r' && c ≠ '\t' then [.unit c.toNat]
  else (String.utf8EncodeChar c).map .byte

theorem pieceBytes_bytes (bytes : List UInt8) (rest : List Piece) :
    pieceBytes (bytes.map .byte ++ rest) = (pieceBytes rest).map (bytes ++ ·) := by
  induction bytes with
  | nil => simp
  | cons b bytes ih =>
    rw [List.map_cons, List.cons_append, pieceBytes, ih, Option.map_map]
    rfl

theorem pieceBytes_piecesOf (c : Char) (rest : List Piece) :
    pieceBytes (piecesOf c ++ rest) = (pieceBytes rest).map (String.utf8EncodeChar c ++ ·) := by
  unfold piecesOf
  split
  · next h =>
    have hsmall : c.toNat < 0x20 := by simp at h; omega
    have htrailing : isTrailing c.toNat = false := by simp [isTrailing]; omega
    have hleading : isLeading c.toNat = false := by simp [isLeading]; omega
    have hbytes : (Char.ofNat c.toNat).toString.toUTF8.toList = String.utf8EncodeChar c := by
      rw [Char.ofNat_toNat, toUTF8_toList]
      simp
    rw [List.singleton_append, pieceBytes.eq_def]
    simp only [htrailing, hleading, hbytes, Bool.false_eq_true, if_false]
  · exact pieceBytes_bytes _ rest

theorem pieceBytes_text (cs : List Char) :
    pieceBytes (cs.flatMap piecesOf) = some (cs.flatMap String.utf8EncodeChar) := by
  induction cs with
  | nil => rfl
  | cons c cs ih =>
    rw [List.flatMap_cons, pieceBytes_piecesOf, ih]
    rfl

theorem textOf_text (s : String) : textOf (s.toList.flatMap piecesOf) = some s := by
  rw [textOf, pieceBytes_text]
  exact fromUTF8?_bytes s

theorem run_bytes {bytes : List UInt8} (purpose : Purpose) (stack : List Frame)
    (h : ∀ b ∈ bytes, Char.ofUInt8 b ≠ '"' ∧ Char.ofUInt8 b ≠ '\\' ∧ ¬ b < 0x20) (pieces : List Piece) :
    bytes.foldlM step ⟨.string purpose pieces .none, stack⟩ =
      some ⟨.string purpose ((bytes.map .byte).reverse ++ pieces) .none, stack⟩ := by
  induction bytes generalizing pieces with
  | nil => rfl
  | cons b bytes ih =>
    obtain ⟨⟨hquote, hbackslash, hcontrol⟩, hrest⟩ := List.forall_mem_cons.mp h
    have hstep : step ⟨.string purpose pieces .none, stack⟩ b =
        some ⟨.string purpose (.byte b :: pieces) .none, stack⟩ := by
      simp only [step, stepString, if_neg hquote, if_neg hbackslash, if_neg hcontrol]
    rw [List.foldlM_cons, hstep]
    simp only [Option.bind_eq_bind, Option.bind_some, ih hrest, List.map_cons, List.reverse_cons, List.append_assoc,
      List.singleton_append]

/-! A control character without a letter of its own is written with four digits of base sixteen. -/

theorem hexDigit?_hexDigit : ∀ d < 16, hexDigit? (hexDigit d) = some d := by decide

theorem hexDigit_ascii : ∀ d < 16, (hexDigit d).val ≤ 127 := by decide

theorem run_hexDigit {d : Nat} (h : d < 16) (purpose : Purpose) (pieces : List Piece) (stack : List Frame)
    (count value : Nat) : run [hexDigit d] ⟨.string purpose pieces (.hex count value), stack⟩ =
      some (if count = 3 then ⟨.string purpose (.unit (value * 16 + d) :: pieces) .none, stack⟩
        else ⟨.string purpose pieces (.hex (count + 1) (value * 16 + d)), stack⟩) := by
  rw [run_ascii (hexDigit_ascii d h)]
  simp only [step, stepString, ofUInt8_toUInt8 (hexDigit_ascii d h), hexDigit?_hexDigit d h, Option.map_some]

theorem run_unit {n : Nat} (h : n < 0x10000) (purpose : Purpose) (pieces : List Piece) (stack : List Frame) :
    run ('\\' :: 'u' :: hexDigits 4 n) ⟨.string purpose pieces .none, stack⟩ =
      some ⟨.string purpose (.unit n :: pieces) .none, stack⟩ := by
  have hdigits : hexDigits 4 n =
      [hexDigit (n / 16 / 16 / 16 % 16), hexDigit (n / 16 / 16 % 16), hexDigit (n / 16 % 16), hexDigit (n % 16)] := rfl
  have hbackslash : run ['\\'] ⟨.string purpose pieces .none, stack⟩ = some ⟨.string purpose pieces .backslash, stack⟩ :=
    rfl
  have hletter : run ['u'] ⟨.string purpose pieces .backslash, stack⟩ =
      some ⟨.string purpose pieces (.hex 0 0), stack⟩ := rfl
  have hvalue : (((0 * 16 + n / 16 / 16 / 16 % 16) * 16 + n / 16 / 16 % 16) * 16 + n / 16 % 16) * 16 + n % 16 = n := by
    omega
  have hdigit (m : Nat) := run_hexDigit (Nat.mod_lt m (by decide : 0 < 16)) purpose pieces stack
  rw [hdigits, run_then_cons hbackslash, run_then_cons hletter, run_then_cons (hdigit _ 0 0)]
  rw [if_neg (by decide), run_then_cons (hdigit _ _ _), if_neg (by decide), run_then_cons (hdigit _ _ _),
    if_neg (by decide), hdigit, if_pos rfl, hvalue]

theorem plain_bytes {c : Char} (hquote : c ≠ '"') (hbackslash : c ≠ '\\') (hcontrol : ¬ c.toNat < 0x20) {b : UInt8}
    (h : b ∈ String.utf8EncodeChar c) : Char.ofUInt8 b ≠ '"' ∧ Char.ofUInt8 b ≠ '\\' ∧ ¬ b < 0x20 := by
  have hvalue : (Char.ofUInt8 b).toNat = b.toNat := rfl
  rcases mem_utf8EncodeChar h with ⟨hsmall, rfl⟩ | hlarge
  · rw [ofUInt8_toUInt8 hsmall] at hvalue ⊢
    exact ⟨hquote, hbackslash, fun hlt => hcontrol (hvalue ▸ hlt)⟩
  · refine ⟨?_, ?_, fun hlt => ?_⟩
    · intro heq
      rw [heq] at hvalue
      exact absurd (hvalue ▸ hlarge) (by decide)
    · intro heq
      rw [heq] at hvalue
      exact absurd (hvalue ▸ hlarge) (by decide)
    · have hlt : b.toNat < 0x20 := hlt
      omega

theorem run_writeChar (c : Char) (purpose : Purpose) (pieces : List Piece) (stack : List Frame) :
    run (writeChar c) ⟨.string purpose pieces .none, stack⟩ =
      some ⟨.string purpose ((piecesOf c).reverse ++ pieces) .none, stack⟩ := by
  by_cases hletter : c = '"' ∨ c = '\\' ∨ c = '\n' ∨ c = '\r' ∨ c = '\t'
  · rcases hletter with rfl | rfl | rfl | rfl | rfl <;> rfl
  · simp only [not_or] at hletter
    obtain ⟨hquote, hbackslash, hn, hr, ht⟩ := hletter
    by_cases hcontrol : c.toNat < 0x20
    · have hwritten : writeChar c = '\\' :: 'u' :: hexDigits 4 c.toNat := by
        simp [writeChar, hquote, hbackslash, hn, hr, ht, hcontrol]
      have hpieces : piecesOf c = [.unit c.toNat] := by simp [piecesOf, hcontrol, hn, hr, ht]
      rw [hwritten, hpieces]
      exact run_unit (by omega) purpose pieces stack
    · have hwritten : writeChar c = [c] := by simp [writeChar, hquote, hbackslash, hn, hr, ht, hcontrol]
      have hpieces : piecesOf c = (String.utf8EncodeChar c).map .byte := by simp [piecesOf, hcontrol]
      rw [hwritten, hpieces, run, List.flatMap_singleton]
      exact run_bytes purpose stack (fun b hb => plain_bytes hquote hbackslash hcontrol hb) pieces

theorem run_writeChars (cs : List Char) (purpose : Purpose) (pieces : List Piece) (stack : List Frame) :
    run (cs.flatMap writeChar) ⟨.string purpose pieces .none, stack⟩ =
      some ⟨.string purpose ((cs.flatMap piecesOf).reverse ++ pieces) .none, stack⟩ := by
  induction cs generalizing pieces with
  | nil => rfl
  | cons c cs ih =>
    rw [List.flatMap_cons, run_then (run_writeChar c purpose pieces stack), ih, List.flatMap_cons, List.reverse_append,
      List.append_assoc]

theorem run_writeText (text : Text) : ∃ cs pieces, writeText text = '"' :: cs ∧ textOf pieces.reverse = text ∧
    ∀ purpose stack, run cs ⟨.string purpose [] .none, stack⟩ = some (endString purpose pieces stack) := by
  cases text with
  | none => exact ⟨_, [.unit 0xD800], rfl, rfl, fun _ _ => rfl⟩
  | some s =>
    refine ⟨_, (s.toList.flatMap piecesOf).reverse, rfl, ?_, fun purpose stack => ?_⟩
    · rw [List.reverse_reverse]
      exact textOf_text s
    · have hclosed := run_then (run_writeChars s.toList purpose [] stack) ['"']
      rw [List.append_nil] at hclosed
      exact hclosed

theorem run_name (name : Text) (done : List Member) (mayClose : Bool) (stack : List Frame) :
    run (writeText name) ⟨.name done mayClose, stack⟩ = some ⟨.colon done name, stack⟩ := by
  obtain ⟨cs, pieces, hwritten, htext, hrun⟩ := run_writeText name
  have hopen : run ['"'] ⟨.name done mayClose, stack⟩ = some ⟨.string (.name done) [] .none, stack⟩ := rfl
  rw [hwritten, run_then_cons hopen, hrun, endString, htext]

theorem run_string (text : Text) (mayClose : Bool) (stack : List Frame) :
    run (writeText text) ⟨.value mayClose, stack⟩ = some ⟨.after (.string text), stack⟩ := by
  obtain ⟨cs, pieces, hwritten, htext, hrun⟩ := run_writeText text
  have hopen : run ['"'] ⟨.value mayClose, stack⟩ = some ⟨.string .value [] .none, stack⟩ := by cases mayClose <;> rfl
  rw [hwritten, run_then_cons hopen, hrun, endString, htext]

/-! ## Number literals -/

namespace NumberDraft

/-- The draft behind more characters. -/
def extendBy? (d : NumberDraft) (cs : List Char) : Option NumberDraft := cs.foldlM extend? d

theorem extendBy?_append (d : NumberDraft) (cs ds : List Char) :
    d.extendBy? (cs ++ ds) = (d.extendBy? cs).bind (·.extendBy? ds) := List.foldlM_append

theorem extendBy?_cons (d : NumberDraft) (c : Char) (cs : List Char) :
    d.extendBy? (c :: cs) = (d.extend? c).bind (·.extendBy? cs) := rfl

/-- Nothing but the sign has been read. -/
def signed (negative : Bool) : NumberDraft := ⟨negative, 0, [], false, 0, .sign⟩

theorem digitValue_val {c : Char} (h : c.isDigit = true) : (digitValue c).val = c.toNat - '0'.toNat := by
  obtain ⟨hlow, hhigh⟩ := Char.isDigit_iff_toNat.mp h
  have hzero : '0'.toNat = 48 := rfl
  have hnine : '9'.toNat = 57 := rfl
  exact Nat.mod_eq_of_lt (by omega)

theorem digitValue_digitChar (d : Fin 10) : digitValue (digitChar d) = d := by
  revert d
  decide

theorem leading_ne_zero {n : Nat} (h : 0 < n) : ∃ c cs, digitsOf n = c :: cs ∧ c ≠ '0' := by
  induction n using Nat.strongRecOn with
  | ind n ih =>
    unfold digitsOf
    by_cases hsmall : n < 10
    · have hleading : ∀ n < 10, 0 < n → Nat.digitChar n ≠ '0' := by decide
      exact ⟨_, [], Nat.toDigits_of_lt_base hsmall, hleading n hsmall h⟩
    · obtain ⟨c, cs, hdigits, hleading⟩ := ih (n / 10) (by omega) (by omega)
      refine ⟨c, cs ++ [(n % 10).digitChar], ?_, hleading⟩
      rw [Nat.toDigits_of_base_le (by decide) (by omega), ← digitsOf, hdigits, List.cons_append]

theorem digitsOf_cons (n : Nat) : ∃ c cs, digitsOf n = c :: cs ∧ c.isDigit = true ∧ (∀ d ∈ cs, d.isDigit = true) ∧
    (0 < n → c ≠ '0') ∧ Nat.ofDigitChars 10 cs (c.toNat - '0'.toNat) = n := by
  obtain ⟨c, cs, hdigits⟩ : ∃ c cs, digitsOf n = c :: cs := List.exists_cons_of_ne_nil Nat.toDigits_ne_nil
  have hall : ∀ d ∈ c :: cs, d.isDigit = true := fun d hd => isDigit_of_mem_digitsOf (hdigits ▸ hd)
  obtain ⟨hdigit, hrest⟩ := List.forall_mem_cons.mp hall
  refine ⟨c, cs, hdigits, hdigit, hrest, fun hpos => ?_, ?_⟩
  · obtain ⟨c', cs', hdigits', hleading⟩ := leading_ne_zero hpos
    rw [hdigits] at hdigits'
    exact (List.cons.inj hdigits').1 ▸ hleading
  · have hvalue : Nat.ofDigitChars 10 (digitsOf n) 0 = n := Nat.ofDigitChars_ten_toDigits
    rwa [hdigits, Nat.ofDigitChars_cons, Nat.mul_zero, Nat.zero_add] at hvalue

theorem extendBy?_digits {cs : List Char} (h : ∀ c ∈ cs, c.isDigit = true) (negative : Bool) (n : Nat) :
    extendBy? ⟨negative, n, [], false, 0, .whole⟩ cs = some ⟨negative, Nat.ofDigitChars 10 cs n, [], false, 0, .whole⟩ := by
  induction cs generalizing n with
  | nil => rfl
  | cons c cs ih =>
    obtain ⟨hdigit, hrest⟩ := List.forall_mem_cons.mp h
    have hstep : extend? ⟨negative, n, [], false, 0, .whole⟩ c =
        some ⟨negative, 10 * n + (c.toNat - '0'.toNat), [], false, 0, .whole⟩ := by
      simp only [extend?, hdigit, if_true, digitValue_val hdigit, Nat.mul_comm]
    rw [extendBy?_cons, hstep, Option.bind_some, ih hrest, Nat.ofDigitChars_cons]

theorem extendBy?_whole (negative : Bool) (n : Nat) : ∃ part, (part = .zero ∨ part = .whole) ∧
    (signed negative).extendBy? (digitsOf n) = some ⟨negative, n, [], false, 0, part⟩ := by
  rcases Nat.eq_zero_or_pos n with rfl | hpos
  · exact ⟨.zero, .inl rfl, rfl⟩
  · obtain ⟨c, cs, hdigits, hdigit, hrest, hleading, hvalue⟩ := digitsOf_cons n
    have hfirst : (signed negative).extend? c = some ⟨negative, c.toNat - '0'.toNat, [], false, 0, .whole⟩ := by
      simp only [signed, extend?, hdigit, hleading hpos, if_true, if_false, digitValue_val hdigit]
    exact ⟨.whole, .inr rfl, by rw [hdigits, extendBy?_cons, hfirst, Option.bind_some, extendBy?_digits hrest, hvalue]⟩

theorem extendBy?_fractionDigits (digits : List (Fin 10)) (negative : Bool) (n : Nat) (seen : List (Fin 10)) :
    extendBy? ⟨negative, n, seen, false, 0, .fraction⟩ (digits.map digitChar) =
      some ⟨negative, n, digits.reverse ++ seen, false, 0, .fraction⟩ := by
  induction digits generalizing seen with
  | nil => rfl
  | cons d digits ih =>
    have hstep : extend? ⟨negative, n, seen, false, 0, .fraction⟩ (digitChar d) =
        some ⟨negative, n, d :: seen, false, 0, .fraction⟩ := by
      simp only [extend?, Numeral.digitChar_isDigit, if_true, digitValue_digitChar]
    rw [List.map_cons, extendBy?_cons, hstep, Option.bind_some, ih, List.reverse_cons, List.append_assoc]
    rfl

/-- Where a literal stands behind its whole number and its fraction: it may end there, or go on with an exponent. -/
def Rests (part : NumberPart) (fraction : List (Fin 10)) : Prop :=
  (part = .zero ∨ part = .whole) ∧ fraction = [] ∨ part = .fraction

theorem extendBy?_fraction {part : NumberPart} (hpart : part = .zero ∨ part = .whole) (negative : Bool) (n : Nat)
    (fraction : List (Fin 10)) : ∃ rest, Rests rest fraction ∧
      extendBy? ⟨negative, n, [], false, 0, part⟩ (Numeral.fractionText fraction) =
        some ⟨negative, n, fraction.reverse, false, 0, rest⟩ := by
  cases fraction with
  | nil => exact ⟨part, .inl ⟨hpart, rfl⟩, rfl⟩
  | cons d digits =>
    refine ⟨.fraction, .inr rfl, ?_⟩
    have hpoint : extend? ⟨negative, n, [], false, 0, part⟩ '.' = some ⟨negative, n, [], false, 0, .point⟩ := by
      rcases hpart with rfl | rfl <;> rfl
    have hfirst : extend? ⟨negative, n, [], false, 0, .point⟩ (digitChar d) =
        some ⟨negative, n, [d], false, 0, .fraction⟩ := by
      simp only [extend?, Numeral.digitChar_isDigit, if_true, digitValue_digitChar]
    rw [Numeral.fractionText_cons, extendBy?_cons, hpoint, Option.bind_some, List.map_cons, extendBy?_cons, hfirst,
      Option.bind_some, extendBy?_fractionDigits, List.reverse_cons]

theorem extendBy?_exponentDigits {cs : List Char} (h : ∀ c ∈ cs, c.isDigit = true) (negative : Bool) (n : Nat)
    (seen : List (Fin 10)) (down : Bool) (e : Nat) : extendBy? ⟨negative, n, seen, down, e, .exponent⟩ cs =
      some ⟨negative, n, seen, down, Nat.ofDigitChars 10 cs e, .exponent⟩ := by
  induction cs generalizing e with
  | nil => rfl
  | cons c cs ih =>
    obtain ⟨hdigit, hrest⟩ := List.forall_mem_cons.mp h
    have hstep : extend? ⟨negative, n, seen, down, e, .exponent⟩ c =
        some ⟨negative, n, seen, down, 10 * e + (c.toNat - '0'.toNat), .exponent⟩ := by
      simp only [extend?, hdigit, if_true, digitValue_val hdigit, Nat.mul_comm]
    rw [extendBy?_cons, hstep, Option.bind_some, ih hrest, Nat.ofDigitChars_cons]

theorem extendBy?_exponentNumber {part : NumberPart} (hpart : part = .mark ∨ part = .exponentSign) (negative : Bool)
    (n : Nat) (seen : List (Fin 10)) (down : Bool) (e : Nat) :
    extendBy? ⟨negative, n, seen, down, 0, part⟩ (digitsOf e) = some ⟨negative, n, seen, down, e, .exponent⟩ := by
  obtain ⟨c, cs, hdigits, hdigit, hrest, -, hvalue⟩ := digitsOf_cons e
  have hplus : c ≠ '+' := by rintro rfl; exact absurd hdigit (by decide)
  have hminus : c ≠ '-' := by rintro rfl; exact absurd hdigit (by decide)
  have hfirst : extend? ⟨negative, n, seen, down, 0, part⟩ c =
      some ⟨negative, n, seen, down, c.toNat - '0'.toNat, .exponent⟩ := by
    rcases hpart with rfl | rfl <;> simp [extend?, hdigit, hplus, hminus, digitValue_val hdigit]
  rw [hdigits, extendBy?_cons, hfirst, Option.bind_some, extendBy?_exponentDigits hrest, hvalue]

theorem extendBy?_exponent {part : NumberPart} {fraction : List (Fin 10)} (hrest : Rests part fraction) (negative : Bool)
    (n : Nat) (exponent : Option Int) : ∃ d,
      extendBy? ⟨negative, n, fraction.reverse, false, 0, part⟩ (Numeral.exponentText exponent) = some d ∧
      d.number? = some ⟨negative, { whole := n, fraction, exponent }⟩ := by
  cases exponent with
  | none =>
    refine ⟨_, rfl, ?_⟩
    rcases hrest with ⟨rfl | rfl, rfl⟩ | rfl <;> simp [number?]
  | some e =>
    have hmark : extend? ⟨negative, n, fraction.reverse, false, 0, part⟩ 'e' =
        some ⟨negative, n, fraction.reverse, false, 0, .mark⟩ := by
      rcases hrest with ⟨rfl | rfl, rfl⟩ | rfl <;> rfl
    by_cases he : 0 ≤ e
    · refine ⟨⟨negative, n, fraction.reverse, false, e.toNat, .exponent⟩, ?_, ?_⟩
      · rw [Numeral.exponentText, extendBy?_cons, hmark, Option.bind_some, intText_nonneg he,
          extendBy?_exponentNumber (.inl rfl)]
      · simp [number?, Int.toNat_of_nonneg he]
    · refine ⟨⟨negative, n, fraction.reverse, true, (-e).toNat, .exponent⟩, ?_, ?_⟩
      · have hsign : extend? ⟨negative, n, fraction.reverse, false, 0, .mark⟩ '-' =
            some ⟨negative, n, fraction.reverse, true, 0, .exponentSign⟩ := rfl
        rw [Numeral.exponentText, extendBy?_cons, hmark, Option.bind_some, intText_neg he, extendBy?_cons, hsign,
          Option.bind_some, extendBy?_exponentNumber (.inr rfl)]
      · have hvalue : -((-e).toNat : Int) = e := by omega
        simp only [number?, if_true, hvalue, List.reverse_reverse]

theorem extendBy?_text (negative : Bool) (n : Numeral) :
    ∃ d, (signed negative).extendBy? n.text = some d ∧ d.number? = some ⟨negative, n⟩ := by
  obtain ⟨part, hpart, hwhole⟩ := extendBy?_whole negative n.whole
  obtain ⟨rest, hrest, hfraction⟩ := extendBy?_fraction hpart negative n.whole n.fraction
  obtain ⟨d, hexponent, hnumber⟩ := extendBy?_exponent hrest negative n.whole n.exponent
  refine ⟨d, ?_, hnumber⟩
  rw [Numeral.text_eq, extendBy?_append, hwhole, Option.bind_some, extendBy?_append, hfraction, Option.bind_some,
    hexponent]

theorem extend?_ascii {d d' : NumberDraft} {c : Char} (h : d.extend? c = some d') : c.val ≤ 127 := by
  by_contra hlarge
  have hne : ∀ a : Char, a.val ≤ 127 → c ≠ a := fun a ha heq => hlarge (heq ▸ ha)
  have hdigit : c.isDigit = false := by
    rw [Bool.eq_false_iff]
    exact fun hc => hlarge ((Char.isDigit_iff_toNat.mp hc).2.trans (by decide))
  unfold extend? at h
  cases hpart : d.part <;> simp [hpart, hdigit, hne] at h

theorem start?_digit {c : Char} (h : c.isDigit = true) : start? c = (signed false).extend? c := by
  have hminus : c ≠ '-' := by rintro rfl; exact absurd h (by decide)
  simp only [start?, extend?, signed, if_neg hminus]

end NumberDraft

theorem run_draft {d d' : NumberDraft} {cs : List Char} (h : d.extendBy? cs = some d') (stack : List Frame) :
    run cs ⟨.number d, stack⟩ = some ⟨.number d', stack⟩ := by
  induction cs generalizing d with
  | nil =>
    cases h
    rfl
  | cons c cs ih =>
    rw [NumberDraft.extendBy?_cons, Option.bind_eq_some_iff] at h
    obtain ⟨e, hstep, hrest⟩ := h
    have hascii := NumberDraft.extend?_ascii hstep
    have hrun : run [c] ⟨.number d, stack⟩ = some ⟨.number e, stack⟩ := by
      rw [run_ascii hascii]
      simp only [step, ofUInt8_toUInt8 hascii, hstep]
    rw [run_then_cons hrun, ih hrest]

theorem run_digit {c : Char} {d : NumberDraft} (hdigit : c.isDigit = true)
    (h : (NumberDraft.signed false).extend? c = some d) (mayClose : Bool) (stack : List Frame) :
    run [c] ⟨.value mayClose, stack⟩ = some ⟨.number d, stack⟩ := by
  have hascii := NumberDraft.extend?_ascii h
  have hne : ∀ a : Char, a.isDigit = false → c ≠ a := by
    rintro a ha rfl
    exact absurd hdigit (by simp [ha])
  have hblank : isBlank c = false := by simp [isBlank, hne]
  have hbegin : beginValue c stack = some ⟨.number d, stack⟩ := by
    unfold beginValue
    split <;> first | exact absurd rfl (hne _ rfl) | skip
    rw [NumberDraft.start?_digit hdigit, h]
    rfl
  rw [run_ascii hascii]
  simp only [step, ofUInt8_toUInt8 hascii, hblank, Bool.false_eq_true, if_false]
  split
  · exact absurd rfl (hne _ rfl)
  · exact hbegin

theorem run_number (n : Number) (mayClose : Bool) (stack : List Frame) : ∃ d, d.number? = some n ∧
    run n.write ⟨.value mayClose, stack⟩ = some ⟨.number d, stack⟩ := by
  obtain ⟨negative, numeral⟩ := n
  obtain ⟨d, hextend, hnumber⟩ := NumberDraft.extendBy?_text negative numeral
  refine ⟨d, hnumber, ?_⟩
  cases negative with
  | true =>
    have hsign : run ['-'] ⟨.value mayClose, stack⟩ = some ⟨.number (.signed true), stack⟩ := by cases mayClose <;> rfl
    exact (run_then_cons hsign _).trans (run_draft hextend stack)
  | false =>
    obtain ⟨c, cs, hdigits, hdigit, -⟩ := NumberDraft.digitsOf_cons numeral.whole
    have hwritten : Number.write ⟨false, numeral⟩ = numeral.text := rfl
    rw [Numeral.text_eq, hdigits, List.cons_append, NumberDraft.extendBy?_cons, Option.bind_eq_some_iff] at hextend
    obtain ⟨e, hfirst, hrest⟩ := hextend
    rw [hwritten, Numeral.text_eq, hdigits, List.cons_append, run_then_cons (run_digit hdigit hfirst mayClose stack)]
    exact run_draft hrest stack

/-! ## Values inside each other -/

/-- What may stand behind a value inside another. -/
def EndsValue (c : Char) : Prop := c = ',' ∨ c = ']' ∨ c = '}'

theorem EndsValue.ascii {c : Char} (h : EndsValue c) : c.val ≤ 127 := by rcases h with rfl | rfl | rfl <;> decide

/-- A value has been read. The machine waits for what is behind it, if the text does not end. -/
structure Complete (s : State) (value : Json) (stack : List Frame) : Prop where
  value? : stack = [] → s.value? = some value
  next : ∀ c, EndsValue c → run [c] s = endValue value c stack

theorem complete_after (value : Json) (stack : List Frame) : Complete ⟨.after value, stack⟩ value stack where
  value? := by rintro rfl; rfl
  next c hc := by
    rw [run_ascii hc.ascii]
    simp only [step, ofUInt8_toUInt8 hc.ascii]

theorem complete_word (value : Json) (stack : List Frame) : Complete ⟨.word [] value, stack⟩ value stack where
  value? := by rintro rfl; rfl
  next c hc := by
    rw [run_ascii hc.ascii]
    simp only [step, ofUInt8_toUInt8 hc.ascii]

theorem complete_number {d : NumberDraft} {n : Number} (h : d.number? = some n) (stack : List Frame) :
    Complete ⟨.number d, stack⟩ (.number n) stack where
  value? := by
    rintro rfl
    simp only [State.value?, h, Option.map_some]
  next c hc := by
    have hnone : d.extend? c = none := by
      unfold NumberDraft.extend?
      rcases hc with rfl | rfl | rfl <;> cases d.part <;> rfl
    rw [run_ascii hc.ascii]
    simp only [step, ofUInt8_toUInt8 hc.ascii, hnone, h, Option.bind_some]

/-- Reading the text of a value completes it, wherever a value may stand. -/
def ReadsBack (value : Json) : Prop :=
  ∀ mayClose stack, ∃ s, run (write value) ⟨.value mayClose, stack⟩ = some s ∧ Complete s value stack

theorem run_items {items : List Json} (hne : items ≠ []) (h : ∀ item ∈ items, ReadsBack item) (mayClose : Bool)
    (done : List Json) (stack : List Frame) :
    run (writeItems items ++ [']']) ⟨.value mayClose, .items done :: stack⟩ =
      some ⟨.after (.array (done.reverse ++ items)), stack⟩ := by
  induction items generalizing mayClose done with
  | nil => exact absurd rfl hne
  | cons item rest ih =>
    obtain ⟨hitem, hrest⟩ := List.forall_mem_cons.mp h
    obtain ⟨s, hrun, hcomplete⟩ := hitem mayClose (.items done :: stack)
    cases rest with
    | nil =>
      rw [writeItems, run_then hrun, hcomplete.next ']' (.inr (.inl rfl)), endValue, List.reverse_cons]
    | cons next rest =>
      have hcomma : run [','] s = some ⟨.value false, .items (item :: done) :: stack⟩ := hcomplete.next ',' (.inl rfl)
      rw [writeItems, List.append_assoc, run_then hrun, List.cons_append, run_then_cons hcomma,
        ih (List.cons_ne_nil _ _) hrest, List.reverse_cons, List.append_assoc, List.singleton_append]
      exact List.cons_ne_nil _ _

theorem run_members {members : List Member} (hne : members ≠ []) (h : ∀ m ∈ members, ReadsBack m.2) (mayClose : Bool)
    (done : List Member) (stack : List Frame) :
    run (writeMembers members ++ ['}']) ⟨.name done mayClose, stack⟩ =
      some ⟨.after (.object (done.reverse ++ members)), stack⟩ := by
  induction members generalizing mayClose done with
  | nil => exact absurd rfl hne
  | cons member rest ih =>
    obtain ⟨name, value⟩ := member
    obtain ⟨hvalue, hrest⟩ := List.forall_mem_cons.mp h
    obtain ⟨s, hrun, hcomplete⟩ := hvalue false (.members done name :: stack)
    have hcolon : run [':'] ⟨.colon done name, stack⟩ = some ⟨.value false, .members done name :: stack⟩ := rfl
    have hnamed : ∀ cs, run (writeText name ++ (':' :: (write value ++ cs))) ⟨.name done mayClose, stack⟩ = run cs s := by
      intro cs
      rw [run_then (run_name name done mayClose stack), run_then_cons hcolon, run_then hrun]
    cases rest with
    | nil =>
      rw [writeMembers, List.append_assoc, List.cons_append, hnamed, hcomplete.next '}' (.inr (.inr rfl)), endValue,
        List.reverse_cons]
    | cons next rest =>
      have hcomma : run [','] s = some ⟨.name ((name, value) :: done) false, stack⟩ := hcomplete.next ',' (.inl rfl)
      rw [writeMembers, List.append_assoc, List.append_assoc, List.cons_append, hnamed, List.cons_append,
        run_then_cons hcomma, ih (List.cons_ne_nil _ _) hrest, List.reverse_cons, List.append_assoc,
        List.singleton_append]
      all_goals exact List.cons_ne_nil _ _

mutual

theorem readsBack : (value : Json) → ReadsBack value
  | .null, mayClose, stack => ⟨⟨.word [] .null, stack⟩, by cases mayClose <;> rfl, complete_word _ _⟩
  | .bool true, mayClose, stack => ⟨⟨.word [] (.bool true), stack⟩, by cases mayClose <;> rfl, complete_word _ _⟩
  | .bool false, mayClose, stack => ⟨⟨.word [] (.bool false), stack⟩, by cases mayClose <;> rfl, complete_word _ _⟩
  | .number n, mayClose, stack => by
    obtain ⟨d, hnumber, hrun⟩ := run_number n mayClose stack
    exact ⟨_, hrun, complete_number hnumber stack⟩
  | .string text, mayClose, stack => ⟨_, run_string text mayClose stack, complete_after _ _⟩
  | .array [], mayClose, stack => ⟨⟨.after (.array []), stack⟩, by cases mayClose <;> rfl, complete_after _ _⟩
  | .array (item :: rest), mayClose, stack => by
    have hopen : run ['['] ⟨.value mayClose, stack⟩ = some ⟨.value true, .items [] :: stack⟩ := by cases mayClose <;> rfl
    refine ⟨_, ?_, complete_after _ _⟩
    rw [write, List.cons_append, run_then_cons hopen]
    exact run_items (List.cons_ne_nil _ _) (readsBackAll (item :: rest)) true [] stack
  | .object [], mayClose, stack => ⟨⟨.after (.object []), stack⟩, by cases mayClose <;> rfl, complete_after _ _⟩
  | .object (member :: rest), mayClose, stack => by
    have hopen : run ['{'] ⟨.value mayClose, stack⟩ = some ⟨.name [] true, stack⟩ := by cases mayClose <;> rfl
    refine ⟨_, ?_, complete_after _ _⟩
    rw [write, List.cons_append, run_then_cons hopen]
    exact run_members (List.cons_ne_nil _ _) (readsBackMembers (member :: rest)) true [] stack

theorem readsBackAll : (items : List Json) → ∀ item ∈ items, ReadsBack item
  | [] => by simp
  | item :: rest => List.forall_mem_cons.mpr ⟨readsBack item, readsBackAll rest⟩

theorem readsBackMembers : (members : List Member) → ∀ m ∈ members, ReadsBack m.2
  | [] => by simp
  | (_, value) :: rest => List.forall_mem_cons.mpr ⟨readsBack value, readsBackMembers rest⟩

end

/-- What is written is read back, whatever the value. -/
theorem read?_render (j : Json) : read? j.render.toUTF8.toList = some j := by
  obtain ⟨s, hrun, hcomplete⟩ := readsBack j false []
  rw [render, read?_ofList, State.start, hrun, Option.bind_some, hcomplete.value? rfl]

end Json

end Canon
