import Mathlib.Data.List.Basic

/-!
# The last element satisfying a predicate

What `rfind` and `rposition` select in a vector that grows at its end. `Thinned` relates a list to
one with elements dropped; the functions do not mind as long as nothing dropped satisfies their
predicate.
-/

namespace NusaDb

open List Bool

variable {α : Type}

/-- Apply `f` to the last element satisfying `p`, if there is one. -/
def modifyLast (p : α → Bool) (f : α → α) : List α → List α
  | [] => []
  | a :: l => if l.any p then a :: modifyLast p f l else if p a then f a :: l else a :: l

def eraseLast (p : α → Bool) : List α → List α
  | [] => []
  | a :: l => if l.any p then a :: eraseLast p l else if p a then l else a :: l

def findLast? (p : α → Bool) : List α → Option α
  | [] => none
  | a :: l => if l.any p then findLast? p l else if p a then some a else none

variable {p : α → Bool} {f : α → α} {a : α} {l l' : List α}

lemma modifyLast_of_not_any (h : l.any p = false) : modifyLast p f l = l := by
  cases l with
  | nil => rfl
  | cons a l =>
    rw [any_cons, or_eq_false_iff] at h
    simp [modifyLast, h.1, h.2]

lemma eraseLast_of_not_any (h : l.any p = false) : eraseLast p l = l := by
  cases l with
  | nil => rfl
  | cons a l =>
    rw [any_cons, or_eq_false_iff] at h
    simp [eraseLast, h.1, h.2]

lemma findLast?_eq_none_iff : findLast? p l = none ↔ l.any p = false := by
  induction l with
  | nil => simp [findLast?]
  | cons a l ih =>
    unfold findLast?
    cases hl : l.any p with
    | true => simp [hl, ih]
    | false => cases hp : p a <;> simp [hl, hp]

lemma modifyLast_append_singleton (h : p a = true) :
    modifyLast p f (l ++ [a]) = l ++ [f a] := by
  induction l with
  | nil => simp [modifyLast, h]
  | cons b l ih => simp [modifyLast, h, ih]

lemma eraseLast_append_singleton (h : p a = true) : eraseLast p (l ++ [a]) = l := by
  induction l with
  | nil => simp [eraseLast, h]
  | cons b l ih => simp [eraseLast, h, ih]

lemma findLast?_append_singleton (h : p a = true) : findLast? p (l ++ [a]) = some a := by
  induction l with
  | nil => simp [findLast?, h]
  | cons b l ih => simp [findLast?, h, ih]

lemma any_modifyLast {q : α → Bool} (hq : ∀ a, p a = true → q (f a) = q a) (l : List α) :
    (modifyLast p f l).any q = l.any q := by
  induction l with
  | nil => rfl
  | cons a l ih =>
    unfold modifyLast
    split
    · rw [any_cons, any_cons, ih]
    split
    · rename_i ha
      rw [any_cons, any_cons, hq a ha]
    · rfl

lemma any_eraseLast {q : α → Bool} (hq : ∀ a, p a = true → q a = false) (l : List α) :
    (eraseLast p l).any q = l.any q := by
  induction l with
  | nil => rfl
  | cons a l ih =>
    unfold eraseLast
    split
    · rw [any_cons, any_cons, ih]
    split
    · rename_i ha
      rw [any_cons, hq a ha, Bool.false_or]
    · rfl

lemma mem_modifyLast {b : α} (h : b ∈ modifyLast p f l) : b ∈ l ∨ ∃ a ∈ l, b = f a := by
  induction l with
  | nil => exact .inl h
  | cons a l ih =>
    unfold modifyLast at h
    split at h
    · rcases mem_cons.mp h with rfl | h
      · exact .inl mem_cons_self
      rcases ih h with hold | ⟨a', ha', rfl⟩
      · exact .inl (mem_cons_of_mem _ hold)
      · exact .inr ⟨a', mem_cons_of_mem _ ha', rfl⟩
    · split at h
      · rcases mem_cons.mp h with rfl | h
        · exact .inr ⟨a, mem_cons_self, rfl⟩
        · exact .inl (mem_cons_of_mem _ h)
      · exact .inl h

lemma eraseLast_sublist (p : α → Bool) (l : List α) : (eraseLast p l).Sublist l := by
  induction l with
  | nil => exact .slnil
  | cons a l ih =>
    unfold eraseLast
    split
    · exact ih.cons_cons a
    split
    · exact sublist_cons_self a l
    · exact Sublist.refl _

/-- The first list is the second with some elements left out, each of them droppable. -/
inductive Thinned (d : α → Prop) : List α → List α → Prop
  | nil : Thinned d [] []
  | keep {a : α} {l l' : List α} (h : Thinned d l l') : Thinned d (a :: l) (a :: l')
  | drop {a : α} {l l' : List α} (ha : d a) (h : Thinned d l l') : Thinned d l (a :: l')

variable {d d' : α → Prop}

lemma Thinned.refl (d : α → Prop) (l : List α) : Thinned d l l := by
  induction l with
  | nil => exact .nil
  | cons a l ih => exact .keep ih

variable (h : Thinned d l l')

include h

lemma Thinned.mono (hd : ∀ a, d a → d' a) : Thinned d' l l' := by
  induction h with
  | nil => exact .nil
  | keep _ ih => exact .keep ih
  | drop ha _ ih => exact .drop (hd _ ha) ih

lemma Thinned.append_right (m : List α) : Thinned d (l ++ m) (l' ++ m) := by
  induction h with
  | nil => exact .refl d m
  | keep _ ih => exact .keep ih
  | drop ha _ ih => exact .drop ha ih

lemma Thinned.filter_left {keep : α → Bool} (hkeep : ∀ a, keep a = false → d a) :
    Thinned d (l.filter keep) l' := by
  induction h with
  | nil => exact .nil
  | @keep a _ _ _ ih =>
    cases hk : keep a with
    | true =>
      rw [filter_cons_of_pos hk]
      exact .keep ih
    | false =>
      rw [filter_cons_of_neg (by rw [hk]; exact false_ne_true)]
      exact .drop (hkeep a hk) ih
  | drop ha _ ih => exact .drop ha ih

variable (hp : ∀ a, d a → p a = false)

include hp

lemma Thinned.any_eq : l.any p = l'.any p := by
  induction h with
  | nil => rfl
  | keep _ ih => rw [any_cons, any_cons, ih]
  | drop ha _ ih => rw [any_cons, hp _ ha, Bool.false_or, ih]

lemma Thinned.modifyLast : Thinned d (modifyLast p f l) (modifyLast p f l') := by
  induction h with
  | nil => exact .nil
  | @keep a l l' h ih =>
    unfold NusaDb.modifyLast
    rw [h.any_eq hp]
    split
    · exact .keep ih
    split
    · exact .keep h
    · exact .keep h
  | @drop a l l' ha h ih =>
    show Thinned d _ (if l'.any p then _ else _)
    rw [hp a ha]
    split
    · exact .drop ha ih
    rename_i hany
    rw [modifyLast_of_not_any (by rw [h.any_eq hp]; exact eq_false_iff.mpr hany)]
    exact .drop ha h

lemma Thinned.eraseLast : Thinned d (eraseLast p l) (eraseLast p l') := by
  induction h with
  | nil => exact .nil
  | @keep a l l' h ih =>
    unfold NusaDb.eraseLast
    rw [h.any_eq hp]
    split
    · exact .keep ih
    split
    · exact h
    · exact .keep h
  | @drop a l l' ha h ih =>
    show Thinned d _ (if l'.any p then _ else _)
    rw [hp a ha]
    split
    · exact .drop ha ih
    rename_i hany
    rw [eraseLast_of_not_any (by rw [h.any_eq hp]; exact eq_false_iff.mpr hany)]
    exact .drop ha h

lemma Thinned.findLast? : findLast? p l = findLast? p l' := by
  induction h with
  | nil => rfl
  | @keep a l l' h ih =>
    unfold NusaDb.findLast?
    rw [h.any_eq hp, ih]
  | @drop a l l' ha h ih =>
    show _ = if l'.any p then _ else _
    rw [hp a ha]
    split
    · exact ih
    rename_i hany
    rw [findLast?_eq_none_iff.mpr (by rw [h.any_eq hp]; exact eq_false_iff.mpr hany)]
    rfl

end NusaDb
