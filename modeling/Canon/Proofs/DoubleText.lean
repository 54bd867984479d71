import Canon.Double.Text
import Canon.Proofs.Rounding

/-!
# The text of numbers

The text of a number is a run of digits, points, signs and `e`, and it tells integers and finite doubles apart: from
each other, and each from all others of its kind.
-/

namespace Canon

/-! ## Runs -/

section Runs

variable {keep : Char → Bool} {run rest : List Char}

theorem takeWhile_run (hrun : ∀ c ∈ run, keep c = true) (hrest : ∀ c ∈ rest.head?, keep c = false) :
    (run ++ rest).takeWhile keep = run := by
  rw [List.takeWhile_append_of_pos hrun]
  cases rest with
  | nil => simp
  | cons c rest => simp [hrest c (by simp)]

theorem dropWhile_run (hrun : ∀ c ∈ run, keep c = true) (hrest : ∀ c ∈ rest.head?, keep c = false) :
    (run ++ rest).dropWhile keep = rest := by
  rw [List.dropWhile_append_of_pos hrun]
  cases rest with
  | nil => simp
  | cons c rest => simp [hrest c (by simp)]

theorem run_append_inj {run' rest' : List Char} (hrun : ∀ c ∈ run, keep c = true) (hrun' : ∀ c ∈ run', keep c = true)
    (hrest : ∀ c ∈ rest.head?, keep c = false) (hrest' : ∀ c ∈ rest'.head?, keep c = false)
    (h : run ++ rest = run' ++ rest') : run = run' ∧ rest = rest' := by
  have htake := congrArg (List.takeWhile keep) h
  have hdrop := congrArg (List.dropWhile keep) h
  rw [takeWhile_run hrun hrest, takeWhile_run hrun' hrest'] at htake
  rw [dropWhile_run hrun hrest, dropWhile_run hrun' hrest'] at hdrop
  exact ⟨htake, hdrop⟩

end Runs

def isNumberChar (c : Char) : Bool := c.isDigit || c = '.' || c = 'e' || c = '-'

/-- A run of such characters that begins with a digit or a sign. -/
structure IsNumber (token : List Char) : Prop where
  begins : ∃ c ∈ token.head?, c.isDigit = true ∨ c = '-'
  chars : ∀ c ∈ token, isNumberChar c = true

theorem isNumberChar_of_isDigit {c : Char} (h : c.isDigit = true) : isNumberChar c = true := by
  simp [isNumberChar, h]

/-! ## Integers -/

theorem isDigit_of_mem_digitsOf {n : Nat} {c : Char} (h : c ∈ digitsOf n) : c.isDigit = true :=
  Nat.isDigit_of_mem_toDigits (by decide) (by decide) h

theorem digitsOf_injective : Function.Injective digitsOf := by
  intro m n h
  rw [← Nat.ofDigitChars_ten_toDigits (n := m), ← Nat.ofDigitChars_ten_toDigits (n := n)]
  exact congrArg (Nat.ofDigitChars 10 · 0) h

theorem digitsOf_begins (n : Nat) : ∃ c ∈ (digitsOf n).head?, c.isDigit = true := by
  cases hdigits : digitsOf n with
  | nil => exact absurd hdigits Nat.toDigits_ne_nil
  | cons c rest =>
    have hmem : c ∈ digitsOf n := by rw [hdigits]; exact List.mem_cons_self
    exact ⟨c, rfl, isDigit_of_mem_digitsOf hmem⟩

def intText (n : Int) : List Char := (toString n).toList

theorem intText_nonneg {n : Int} (h : 0 ≤ n) : intText n = digitsOf n.toNat := by
  rw [intText, Int.toString_eq_repr, Int.repr_eq_if, if_pos h, Nat.toList_repr, digitsOf]

theorem intText_neg {n : Int} (h : ¬ 0 ≤ n) : intText n = '-' :: digitsOf (-n).toNat := by
  rw [intText, Int.toString_eq_repr, Int.repr_eq_if, if_neg h, String.toList_append, Nat.toList_repr, digitsOf]
  rfl

theorem digitsOf_ne_neg (m n : Nat) : digitsOf m ≠ '-' :: digitsOf n := by
  intro h
  obtain ⟨c, hc, hdigit⟩ := digitsOf_begins m
  rw [h] at hc
  obtain rfl := Option.some.inj hc
  exact absurd hdigit (by decide)

theorem intText_injective : Function.Injective intText := by
  intro m n h
  by_cases hm : 0 ≤ m <;> by_cases hn : 0 ≤ n
  · rw [intText_nonneg hm, intText_nonneg hn] at h
    have := digitsOf_injective h
    omega
  · rw [intText_nonneg hm, intText_neg hn] at h
    exact absurd h (digitsOf_ne_neg _ _)
  · rw [intText_neg hm, intText_nonneg hn] at h
    exact absurd h.symm (digitsOf_ne_neg _ _)
  · rw [intText_neg hm, intText_neg hn] at h
    have := digitsOf_injective (List.cons.inj h).2
    omega

theorem intText_chars {n : Int} {c : Char} (h : c ∈ intText n) : c.isDigit = true ∨ c = '-' := by
  by_cases hn : 0 ≤ n
  · rw [intText_nonneg hn] at h
    exact Or.inl (isDigit_of_mem_digitsOf h)
  · rw [intText_neg hn, List.mem_cons] at h
    exact h.symm.imp_left isDigit_of_mem_digitsOf

theorem intText_begins (n : Int) : ∃ c ∈ (intText n).head?, c.isDigit = true ∨ c = '-' := by
  by_cases hn : 0 ≤ n
  · rw [intText_nonneg hn]
    obtain ⟨c, hc, hdigit⟩ := digitsOf_begins n.toNat
    exact ⟨c, hc, Or.inl hdigit⟩
  · rw [intText_neg hn]
    exact ⟨'-', rfl, Or.inr rfl⟩

theorem isNumber_intText (n : Int) : IsNumber (intText n) where
  begins := intText_begins n
  chars c hc := (intText_chars hc).elim isNumberChar_of_isDigit fun h => by rw [h]; rfl

/-! ## Numerals -/

def digitsNat (digits : List (Fin 10)) : Nat := digits.foldl (fun n (d : Fin 10) => 10 * n + d.val) 0

theorem lastDigits_length (count n : Nat) : (lastDigits count n).length = count := by
  induction count generalizing n with
  | zero => rfl
  | succ count ih => rw [lastDigits, List.length_append, ih, List.length_singleton]

theorem digitsNat_lastDigits (count n : Nat) : digitsNat (lastDigits count n) = n % 10 ^ count := by
  induction count generalizing n with
  | zero => rw [pow_zero, Nat.mod_one]; rfl
  | succ count ih =>
    have hlast : digitsNat (lastDigits (count + 1) n) = 10 * digitsNat (lastDigits count (n / 10)) + n % 10 := by
      rw [lastDigits, digitsNat, List.foldl_append]
      rfl
    rw [hlast, ih, pow_succ', Nat.mod_mul, add_comm]

namespace Numeral

def value (n : Numeral) : ℚ :=
  ((n.whole * 10 ^ n.fraction.length + digitsNat n.fraction : Nat) : ℚ) *
    10 ^ (n.exponent.getD 0 - n.fraction.length)

def fractionText (fraction : List (Fin 10)) : List Char :=
  if fraction.isEmpty then [] else '.' :: fraction.map digitChar

def exponentText : Option Int → List Char
  | some e => 'e' :: intText e
  | none => []

theorem text_eq (n : Numeral) : n.text = digitsOf n.whole ++ (fractionText n.fraction ++ exponentText n.exponent) := by
  rw [text, List.append_assoc]
  cases n.exponent <;> rfl

theorem digitChar_isDigit (d : Fin 10) : (digitChar d).isDigit = true := by
  revert d
  decide

theorem digitChar_injective : Function.Injective digitChar := by
  unfold Function.Injective
  decide

theorem exponentText_injective : Function.Injective exponentText := by
  rintro (_ | e) (_ | e') h
  · rfl
  · cases h
  · cases h
  · rw [intText_injective (List.cons.inj h).2]

theorem exponentText_head (exponent : Option Int) : ∀ c ∈ (exponentText exponent).head?, c = 'e' := by
  cases exponent <;> simp [exponentText]

theorem fractionText_cons (d : Fin 10) (digits : List (Fin 10)) :
    fractionText (d :: digits) = '.' :: (d :: digits).map digitChar := rfl

theorem not_isDigit_exponent (exponent : Option Int) : ∀ c ∈ (exponentText exponent).head?, c.isDigit = false := by
  intro c hc
  rw [exponentText_head exponent c hc]
  rfl

theorem not_isDigit_fraction (n : Numeral) :
    ∀ c ∈ (fractionText n.fraction ++ exponentText n.exponent).head?, c.isDigit = false := by
  cases n.fraction with
  | nil => exact not_isDigit_exponent n.exponent
  | cons d digits =>
    rw [fractionText_cons]
    rintro c hc
    obtain rfl := Option.some.inj hc
    rfl

theorem fractionText_inj {fraction fraction' : List (Fin 10)} {exponent exponent' : Option Int}
    (h : fractionText fraction ++ exponentText exponent = fractionText fraction' ++ exponentText exponent') :
    fraction = fraction' ∧ exponent = exponent' := by
  have hpoint (d : Fin 10) (digits : List (Fin 10)) (exponent exponent' : Option Int) :
      fractionText (d :: digits) ++ exponentText exponent ≠ exponentText exponent' := by
    intro h
    have := exponentText_head exponent' '.' (by rw [← h]; rfl)
    cases this
  cases fraction with
  | nil =>
    cases fraction' with
    | nil => exact ⟨rfl, exponentText_injective h⟩
    | cons d digits => exact absurd h.symm (hpoint d digits exponent' exponent)
  | cons d digits =>
    cases fraction' with
    | nil => exact absurd h (hpoint d digits exponent exponent')
    | cons d' digits' =>
      rw [fractionText_cons, fractionText_cons, List.cons_append, List.cons_append] at h
      have hdigits (ds : List (Fin 10)) : ∀ c ∈ ds.map digitChar, c.isDigit = true := by
        simpa using fun d _ => digitChar_isDigit d
      obtain ⟨hfraction, hexponent⟩ := run_append_inj (hdigits _) (hdigits _) (not_isDigit_exponent exponent)
        (not_isDigit_exponent exponent') (List.cons.inj h).2
      exact ⟨List.map_injective_iff.mpr digitChar_injective hfraction, exponentText_injective hexponent⟩

theorem text_injective : Function.Injective text := by
  intro m n h
  rw [text_eq, text_eq] at h
  obtain ⟨hdigits, hrest⟩ := run_append_inj (fun _ => isDigit_of_mem_digitsOf) (fun _ => isDigit_of_mem_digitsOf)
    (not_isDigit_fraction m) (not_isDigit_fraction n) h
  obtain ⟨hfraction, hexponent⟩ := fractionText_inj hrest
  have hwhole := digitsOf_injective hdigits
  cases m
  cases n
  simp only at hwhole hfraction hexponent
  rw [hwhole, hfraction, hexponent]

theorem mark_mem_text {n : Numeral} (h : n.isPlain = false) : '.' ∈ n.text ∨ 'e' ∈ n.text := by
  rw [text_eq]
  obtain ⟨whole, fraction, exponent⟩ := n
  cases fraction with
  | cons d digits => exact Or.inl (by simp [fractionText_cons])
  | nil =>
    cases exponent with
    | some e => exact Or.inr (by simp [exponentText])
    | none => cases h

theorem isNumber_text (n : Numeral) : IsNumber n.text where
  begins := by
    obtain ⟨c, hc, hdigit⟩ := digitsOf_begins n.whole
    exact ⟨c, by rw [text_eq]; exact List.mem_head?_append_of_mem_head? hc, Or.inl hdigit⟩
  chars := by
    rw [text_eq]
    simp only [List.forall_mem_append]
    refine ⟨fun c hc => isNumberChar_of_isDigit (isDigit_of_mem_digitsOf hc), ?_, ?_⟩
    · cases n.fraction with
      | nil => exact List.forall_mem_nil _
      | cons d digits =>
        rw [fractionText_cons]
        refine List.forall_mem_cons.mpr ⟨rfl, List.forall_mem_map.mpr fun d _ => ?_⟩
        exact isNumberChar_of_isDigit (digitChar_isDigit d)
    · cases n.exponent with
      | none => exact List.forall_mem_nil _
      | some e => exact List.forall_mem_cons.mpr ⟨rfl, (isNumber_intText e).chars⟩

end Numeral

/-! ## Decimals -/

namespace Decimal

theorem pointed_value (d : Decimal) (places : Nat) :
    (((d.digits / 10 ^ places) * 10 ^ places + d.digits % 10 ^ places : Nat) : ℚ) = d.digits := by
  rw [Nat.div_add_mod']

theorem positional_value (d : Decimal) : d.positional.value = d.value := by
  unfold positional
  split
  · rename_i hexp
    obtain ⟨e, he⟩ := Int.eq_ofNat_of_zero_le hexp
    rw [Numeral.value, lastDigits_length, digitsNat_lastDigits, Decimal.value, he]
    simp only [Option.getD_none, tenTo, Nat.pow_eq]
    push_cast
    norm_num
    ring
  · rename_i hexp
    rw [Numeral.value, lastDigits_length, digitsNat_lastDigits, Decimal.value]
    simp only [Option.getD_none, tenTo, Nat.pow_eq, pointed_value]
    rw [show (0 : Int) - ((-d.exponent).toNat : Nat) = d.exponent by omega]

theorem scientific_value (d : Decimal) : d.scientific.value = d.value := by
  rw [scientific, Numeral.value, lastDigits_length, digitsNat_lastDigits, Decimal.value]
  simp only [Option.getD_some, tenTo, Nat.pow_eq, pointed_value, order]
  rw [add_sub_cancel_right]

theorem numeral_value (d : Decimal) (lowest : Int) : (d.numeral lowest).value = d.value := by
  unfold numeral
  split
  · exact d.positional_value
  · exact d.scientific_value

theorem numeral_not_plain (d : Decimal) (lowest : Int) : (d.numeral lowest).isPlain = false := by
  unfold numeral
  split
  · unfold positional
    split
    · rfl
    · rename_i hexp
      obtain ⟨places, hplaces⟩ := Nat.exists_eq_succ_of_ne_zero (by omega : (-d.exponent).toNat ≠ 0)
      simp [Numeral.isPlain, hplaces, lastDigits]
  · simp [scientific, Numeral.isPlain]

end Decimal

/-! ## Doubles -/

namespace Double

/-- The text of the absolute value of a finite double. -/
def bareText (x : Double) : List Char := (x.shortest.numeral lowestPrinted).text

theorem isFinite_iff {x : Double} : x.isFinite = true ↔ x.rank < 2047 * twoTo 52 := by
  rw [isFinite, decide_eq_true_eq, exponentField_eq, Nat.div_lt_iff_lt_mul (by decide)]

theorem text_of_isFinite {x : Double} (h : x.isFinite = true) :
    x.text.toList = if x.isNegative then '-' :: x.bareText else x.bareText := by
  have hnan : x.isNaN = false := by
    have hfield : x.exponentField < 2047 := by simpa [isFinite] using h
    simp [isNaN, hfield.ne]
  simp only [text, hnan, h, if_true, Bool.false_eq_true, if_false, String.toList_append, String.toList_ofList, bareText]
  cases x.isNegative <;> rfl

theorem eq_of_rank {x y : Double} (hsign : x.isNegative = y.isNegative) (hrank : x.rank = y.rank) : x = y := by
  have hx := x.bits.toNat_lt
  have hy := y.bits.toNat_lt
  have hbits : x.bits.toNat = y.bits.toNat := by
    have hsign : x.bits.toNat / twoTo 63 = 1 ↔ y.bits.toNat / twoTo 63 = 1 := decide_eq_decide.mp hsign
    simp only [rank, twoTo, Nat.pow_eq, Nat.reducePow] at hsign hrank
    omega
  cases x
  cases y
  exact congrArg Double.mk (UInt64.toNat_inj.mp hbits)

theorem bareText_begins (x : Double) : ∃ c ∈ x.bareText.head?, c.isDigit = true := by
  obtain ⟨c, hc, hdigit⟩ := digitsOf_begins (x.shortest.numeral lowestPrinted).whole
  exact ⟨c, by rw [bareText, Numeral.text_eq]; exact List.mem_head?_append_of_mem_head? hc, hdigit⟩

theorem bareText_ne_neg (x : Double) (text : List Char) : x.bareText ≠ '-' :: text := by
  intro h
  obtain ⟨c, hc, hdigit⟩ := bareText_begins x
  rw [h] at hc
  obtain rfl := Option.some.inj hc
  cases hdigit

/-- Finite doubles with one text are the same, with the sign of a zero. -/
theorem text_injective {x y : Double} (hx : x.isFinite = true) (hy : y.isFinite = true) (h : x.text = y.text) :
    x = y := by
  have htext := congrArg String.toList h
  rw [text_of_isFinite hx, text_of_isFinite hy] at htext
  have hbare (h : x.bareText = y.bareText) : x.rank = y.rank := by
    have hvalue := congrArg Numeral.value (Numeral.text_injective h)
    rw [Decimal.numeral_value, Decimal.numeral_value] at hvalue
    exact rank_eq_of_shortest (isFinite_iff.mp hx) (isFinite_iff.mp hy) hvalue
  cases hxs : x.isNegative <;> cases hys : y.isNegative <;>
    simp only [hxs, hys, if_true, if_false, Bool.false_eq_true] at htext
  · exact eq_of_rank (hxs.trans hys.symm) (hbare htext)
  · exact absurd htext (bareText_ne_neg x _)
  · exact absurd htext.symm (bareText_ne_neg y _)
  · exact eq_of_rank (hxs.trans hys.symm) (hbare (List.cons.inj htext).2)

theorem isNumber_text {x : Double} (h : x.isFinite = true) : IsNumber x.text.toList := by
  have hbare := Numeral.isNumber_text (x.shortest.numeral lowestPrinted)
  rw [text_of_isFinite h]
  cases x.isNegative with
  | false => exact hbare
  | true => exact ⟨⟨'-', rfl, Or.inr rfl⟩, List.forall_mem_cons.mpr ⟨rfl, hbare.chars⟩⟩

theorem text_ne_intText {x : Double} (h : x.isFinite = true) (n : Int) : x.text.toList ≠ intText n := by
  intro htext
  have hmark {c : Char} (hc : c ∈ x.bareText) : c.isDigit = true ∨ c = '-' := by
    refine intText_chars (n := n) ?_
    rw [← htext, text_of_isFinite h]
    cases x.isNegative
    · exact hc
    · exact List.mem_cons_of_mem _ hc
  rcases Numeral.mark_mem_text (x.shortest.numeral_not_plain lowestPrinted) with hpoint | hexponent
  · exact absurd (hmark hpoint) (by decide)
  · exact absurd (hmark hexponent) (by decide)

end Double

end Canon
