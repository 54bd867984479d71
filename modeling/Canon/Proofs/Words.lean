import Canon.Text.Blank

/-!
# The words of a text

The words of a text are told without saying how they are found: nothing but blanks is left out between them and around
them, and no blank is in one. So a text has one list of words, and none exactly if it is blank.
-/

namespace Canon.Text

/-- These are the words of a text, in their order: between them and around them are only blanks, each is as long as can be,
and none is empty. -/
inductive HasWords : List Char → List (List Char) → Prop
  | nil : HasWords [] []
  | blank {c : Char} {text : List Char} {words : List (List Char)} (hc : isBlank c = true) (h : HasWords text words) :
    HasWords (c :: text) words
  | word {word text : List Char} {words : List (List Char)} (hne : word ≠ []) (hword : ∀ c ∈ word, isBlank c = false)
    (hends : ∀ c ∈ text.head?, isBlank c = true) (h : HasWords text words) : HasWords (word ++ text) (word :: words)

theorem splitWords_append {word text : List Char} (hword : ∀ c ∈ word, isBlank c = false) :
    splitWords (word ++ text) = (word ++ (splitWords text).1, (splitWords text).2) := by
  induction word with
  | nil => rfl
  | cons c word ih =>
    obtain ⟨hc, hword⟩ := List.forall_mem_cons.mp hword
    rw [List.cons_append, splitWords, hc, ih hword]
    rfl

theorem splitWords_of_ends {text : List Char} (hends : ∀ c ∈ text.head?, isBlank c = true) :
    splitWords text = ([], joinWords (splitWords text)) := by
  cases text with
  | nil => rfl
  | cons c text =>
    rw [splitWords, hends c rfl]
    rfl

theorem HasWords.joinWords_eq {text : List Char} {words : List (List Char)} (h : HasWords text words) :
    joinWords (splitWords text) = words := by
  induction h with
  | nil => rfl
  | blank hc h ih =>
    rw [splitWords, hc]
    exact ih
  | @word word text words hne hword hends h ih =>
    rw [splitWords_append hword, splitWords_of_ends hends, ih, List.append_nil, joinWords, if_neg (by simpa using hne)]

theorem HasWords.joinWords {word text : List Char} {words : List (List Char)} (hword : ∀ c ∈ word, isBlank c = false)
    (hends : ∀ c ∈ text.head?, isBlank c = true) (h : HasWords text words) :
    HasWords (word ++ text) (joinWords (word, words)) := by
  cases word with
  | nil => exact h
  | cons c word => exact .word (List.cons_ne_nil c word) hword hends h

theorem splitWords_spec (text : List Char) : ∃ rest, text = (splitWords text).1 ++ rest ∧
    (∀ c ∈ (splitWords text).1, isBlank c = false) ∧ (∀ c ∈ rest.head?, isBlank c = true) ∧
    HasWords rest (splitWords text).2 := by
  induction text with
  | nil => exact ⟨[], rfl, by simp [splitWords], by simp, .nil⟩
  | cons c text ih =>
    obtain ⟨rest, htext, hword, hends, hrest⟩ := ih
    rw [splitWords]
    cases hc : isBlank c with
    | false => exact ⟨rest, congrArg (c :: ·) htext, List.forall_mem_cons.mpr ⟨hc, hword⟩, hends, hrest⟩
    | true =>
      have hall := HasWords.joinWords hword hends hrest
      rw [← htext] at hall
      exact ⟨c :: text, rfl, by simp, by simpa using hc, .blank hc hall⟩

theorem hasWords_splitWords (text : List Char) : HasWords text (joinWords (splitWords text)) := by
  obtain ⟨rest, htext, hword, hends, hrest⟩ := splitWords_spec text
  have hall := HasWords.joinWords hword hends hrest
  rwa [← htext] at hall

theorem words_eq_iff {s : String} {ws : List String} : words s = ws ↔ HasWords s.toList (ws.map String.toList) := by
  constructor
  · rintro rfl
    have hwords := hasWords_splitWords s.toList
    simpa [words, Function.comp_def] using hwords
  · intro h
    rw [words, h.joinWords_eq, List.map_map]
    simp [Function.comp_def]

/-- Nothing but blanks has no words. -/
theorem hasWords_nil_iff {text : List Char} : HasWords text [] ↔ ∀ c ∈ text, isBlank c = true := by
  constructor
  · intro h
    generalize hnone : ([] : List (List Char)) = words at h
    induction h with
    | nil => simp
    | blank hc h ih => exact List.forall_mem_cons.mpr ⟨hc, ih hnone⟩
    | word => cases hnone
  · intro h
    induction text with
    | nil => exact .nil
    | cons c text ih =>
      obtain ⟨hc, htext⟩ := List.forall_mem_cons.mp h
      exact .blank hc (ih htext)

end Canon.Text
