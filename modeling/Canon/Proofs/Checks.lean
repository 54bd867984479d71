import Canon.Program.Validate
import Mathlib.Data.List.Nodup
import Mathlib.Tactic.Tauto

/-!
# What a passed check has established

A sequence of checks passes when each of them does. Marks are known by the list of ids that have been met: a further id
is let through when the store has it and the list does not.
-/

namespace Canon

section Except

variable {ε α β : Type}

theorem bind_eq_ok {x : Except ε α} {f : α → Except ε β} {b : β} :
    (x >>= f) = .ok b ↔ ∃ a, x = .ok a ∧ f a = .ok b := by
  cases x with
  | error e => simp [bind, Except.bind]
  | ok a => simp [bind, Except.bind]

theorem bind_unit_eq_ok {x : Except ε Unit} {f : Unit → Except ε β} {b : β} :
    (x >>= f) = .ok b ↔ x = .ok () ∧ f () = .ok b := by
  rw [bind_eq_ok]
  exact ⟨fun ⟨(), hx, hf⟩ => ⟨hx, hf⟩, fun ⟨hx, hf⟩ => ⟨(), hx, hf⟩⟩

theorem bind_eq_ok_of {x : Except ε α} {f : α → Except ε β} {c : Prop} {a : α} {b : β}
    (hx : ∀ m, x = .ok m ↔ c ∧ m = a) : (x >>= f) = .ok b ↔ c ∧ f a = .ok b := by
  rw [bind_eq_ok]
  constructor
  · rintro ⟨m, hm, hf⟩
    obtain ⟨hc, rfl⟩ := (hx m).mp hm
    exact ⟨hc, hf⟩
  · rintro ⟨hc, hf⟩
    exact ⟨a, (hx a).mpr ⟨hc, rfl⟩, hf⟩

theorem pure_eq_ok {a b : α} : (pure a : Except ε α) = .ok b ↔ a = b := by
  simp [pure, Except.pure]

theorem mapError_eq_ok {ε' : Type} {x : Except ε α} {f : ε → ε'} {a : α} : x.mapError f = .ok a ↔ x = .ok a := by
  cases x with
  | error e => simp [Except.mapError]
  | ok b => simp [Except.mapError]

theorem forM_eq_ok {l : List α} {f : α → Except ε Unit} : l.forM f = .ok () ↔ ∀ a ∈ l, f a = .ok () := by
  rw [List.forM_eq_forM]
  induction l with
  | nil => simp [pure, Except.pure]
  | cons a l ih => rw [List.forM_cons, bind_unit_eq_ok, ih, List.forall_mem_cons]

theorem ite_reject_eq_ok {c : Prop} [Decidable c] {x : Check α} {d : Defect} {a : α} :
    (if c then x else reject d) = .ok a ↔ c ∧ x = .ok a := by
  by_cases h : c <;> simp [h, reject]

end Except

/-! ## Marks -/

namespace Marks

def mark (m : Marks) (index : UInt32) : Marks := ⟨m.met.setIfInBounds index.toNat true⟩

/-- The marks on a store once these parts of it have been met. -/
def after (size : Nat) (ids : List UInt32) : Marks := ids.foldl mark (empty size)

theorem after_nil (size : Nat) : after size [] = empty size := rfl

theorem after_concat (size : Nat) (ids : List UInt32) (i : UInt32) :
    after size (ids ++ [i]) = (after size ids).mark i := by
  simp [after, List.foldl_append]

theorem size_foldl_mark (m : Marks) (ids : List UInt32) : (ids.foldl mark m).met.size = m.met.size := by
  induction ids generalizing m with
  | nil => rfl
  | cons i ids ih => rw [List.foldl_cons, ih]; simp [mark]

theorem size_after (size : Nat) (ids : List UInt32) : (after size ids).met.size = size := by
  simp [after, size_foldl_mark, empty]

theorem mark_met (m : Marks) (i j : UInt32) (hi : i.toNat < m.met.size) :
    (m.mark j).met[i.toNat]? = if i = j then some true else m.met[i.toNat]? := by
  rw [mark, Array.getElem?_setIfInBounds]
  by_cases h : i = j
  · subst h; simp [hi]
  · rw [if_neg (by rw [UInt32.toNat_inj]; exact fun hj => h hj.symm), if_neg h]

theorem foldl_mark_met (m : Marks) (ids : List UInt32) (i : UInt32) (hi : i.toNat < m.met.size) :
    (ids.foldl mark m).met[i.toNat]? = if i ∈ ids then some true else m.met[i.toNat]? := by
  induction ids generalizing m with
  | nil => simp
  | cons j ids ih =>
    rw [List.foldl_cons, ih (m.mark j) (by simpa [mark] using hi), mark_met m i j hi]
    by_cases h : i = j <;> simp [h]

theorem after_met (size : Nat) (ids : List UInt32) (i : UInt32) (hi : i.toNat < size) :
    (after size ids).met[i.toNat]? = some (decide (i ∈ ids)) := by
  rw [after, foldl_mark_met _ _ _ (by simpa [empty] using hi)]
  by_cases h : i ∈ ids <;> simp [h, empty, hi]

theorem claim_after (size : Nat) (ids : List UInt32) (i : UInt32) (d : Defect) :
    (after size ids).claim i d =
      if i.toNat < size then (if i ∈ ids then reject d else .ok (after size (ids ++ [i])))
      else .error (.fault (.dangling size i.toNat)) := by
  unfold claim visit
  by_cases hi : i.toNat < size
  · rw [after_met size ids i hi, if_pos hi, after_concat]
    by_cases h : i ∈ ids <;> simp [h, Check.look, Except.mapError, bind, Except.bind, pure, Except.pure, mark]
  · have hnone : (after size ids).met[i.toNat]? = none := Array.getElem?_eq_none (by rw [size_after]; omega)
    rw [hnone, size_after, if_neg hi]
    rfl

/-- Ids that can be met in this order after others have been. -/
def Fresh (size : Nat) (seen new : List UInt32) : Prop :=
  (∀ i ∈ new, i.toNat < size) ∧ new.Nodup ∧ ∀ i ∈ new, i ∉ seen

theorem claim_eq_ok {size : Nat} {ids : List UInt32} {i : UInt32} {d : Defect} {m : Marks} :
    (after size ids).claim i d = .ok m ↔ Fresh size ids [i] ∧ m = after size (ids ++ [i]) := by
  rw [claim_after]
  by_cases hi : i.toNat < size <;> by_cases h : i ∈ ids <;> simp [Fresh, hi, h, reject, eq_comm]

theorem claim_empty {size : Nat} {i : UInt32} {d : Defect} {m : Marks} :
    (empty size).claim i d = .ok m ↔ Fresh size [] [i] ∧ m = after size [i] :=
  @claim_eq_ok size [] i d m

theorem fresh_nil (size : Nat) (seen : List UInt32) : Fresh size seen [] := by simp [Fresh]

theorem fresh_append {size : Nat} {seen a b : List UInt32} :
    Fresh size seen (a ++ b) ↔ Fresh size seen a ∧ Fresh size (seen ++ a) b := by
  simp only [Fresh, List.mem_append, List.nodup_append, not_or]
  constructor
  · rintro ⟨hin, ⟨ha, hb, hab⟩, hnew⟩
    exact ⟨⟨fun i hi => hin i (.inl hi), ha, fun i hi => hnew i (.inl hi)⟩, fun i hi => hin i (.inr hi), hb,
      fun i hi => ⟨hnew i (.inr hi), fun h => hab i h i hi rfl⟩⟩
  · rintro ⟨⟨hina, ha, hnewa⟩, hinb, hb, hnewb⟩
    refine ⟨fun i hi => hi.elim (hina i) (hinb i), ⟨ha, hb, ?_⟩, fun i hi => hi.elim (hnewa i) fun h => (hnewb i h).1⟩
    rintro i hi j hj rfl
    exact (hnewb i hj).2 hi

theorem foldlM_eq_ok {α ι : Type} {size : Nat} {step : Marks → α → Check Marks} (index : ι → UInt32)
    (ids : α → List ι) (good : α → Prop)
    (hstep : ∀ seen a m, step (after size seen) a = .ok m ↔
      (good a ∧ Fresh size seen ((ids a).map index)) ∧ m = after size (seen ++ (ids a).map index))
    (l : List α) (seen : List UInt32) (m : Marks) :
    l.foldlM step (after size seen) = .ok m ↔ ((∀ a ∈ l, good a) ∧ Fresh size seen ((l.flatMap ids).map index)) ∧
      m = after size (seen ++ (l.flatMap ids).map index) := by
  induction l generalizing seen with
  | nil => simp [fresh_nil, pure, Except.pure, eq_comm]
  | cons a l ih =>
    rw [List.foldlM_cons, bind_eq_ok_of (hstep seen a), ih, List.flatMap_cons, List.map_append, fresh_append,
      List.forall_mem_cons, ← List.append_assoc]
    tauto

theorem claims_eq_ok {α : Type} {size : Nat} (index : α → UInt32) (shared : α → Defect) (l : List α)
    (seen : List UInt32) (m : Marks) :
    l.foldlM (fun marks a => marks.claim (index a) (shared a)) (after size seen) = .ok m ↔
      Fresh size seen (l.map index) ∧ m = after size (seen ++ l.map index) := by
  rw [foldlM_eq_ok index (fun a => [a]) (fun _ => True) fun seen a m => by simp [claim_eq_ok]]
  simp

theorem fresh_map_iff {α : Type} {size : Nat} {index : α → UInt32} (hinj : Function.Injective index) {l : List α}
    (hin : ∀ a ∈ l, (index a).toNat < size) : Fresh size [] (l.map index) ↔ l.Nodup := by
  simp only [Fresh, List.nodup_map_iff hinj, List.forall_mem_map, List.not_mem_nil, not_false_eq_true, implies_true,
    and_true]
  exact and_iff_right hin

end Marks

end Canon
