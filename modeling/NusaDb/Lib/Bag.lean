import Mathlib

/-!
# Bags of rows up to a classification

Lists as multisets of the classes of their elements. Taking out the first element of a class takes
one occurrence out of the bag, and two lists with the same bag can be lined up class by class.
-/

namespace Bag

open List

variable {α κ : Type}

def classes (cls : α → κ) (l : List α) : Multiset κ := (l.map cls : List κ)

variable {cls : α → κ}

@[simp] lemma classes_nil : classes cls [] = 0 := rfl

@[simp] lemma classes_cons (a : α) (l : List α) :
    classes cls (a :: l) = cls a ::ₘ classes cls l := rfl

lemma classes_append (l m : List α) : classes cls (l ++ m) = classes cls l + classes cls m := by
  simp [classes]

lemma cons_classes_eraseP {p : α → Bool} {k : κ} {l : List α}
    (hp : ∀ a ∈ l, p a = true ↔ cls a = k) (hk : k ∈ classes cls l) :
    k ::ₘ classes cls (l.eraseP p) = classes cls l := by
  induction l with
  | nil => exact absurd hk (Multiset.notMem_zero k)
  | cons a l ih =>
    rcases hpa : p a with - | -
    · -- the first element is of another class and stays
      have hne : cls a ≠ k := fun h => absurd ((hp a mem_cons_self).mpr h) (by simp [hpa])
      rw [classes_cons, Multiset.mem_cons] at hk
      have hrest := ih (fun b hb => hp b (mem_cons_of_mem _ hb)) (hk.resolve_left hne.symm)
      rw [eraseP_cons_of_neg (by simp [hpa]), classes_cons, classes_cons, Multiset.cons_swap, hrest]
    · rw [eraseP_cons_of_pos hpa, classes_cons, (hp a mem_cons_self).mp hpa]

lemma exists_perm_forall₂ {l m : List α} (h : classes cls l = classes cls m) :
    ∃ n : List α, n.Perm m ∧ Forall₂ (fun a b => cls a = cls b) l n := by
  induction l generalizing m with
  | nil =>
    have hm : m = [] := by
      cases m with
      | nil => rfl
      | cons b m =>
        rw [classes_nil, classes_cons] at h
        exact absurd h.symm Multiset.cons_ne_zero
    exact ⟨[], hm ▸ Perm.refl _, .nil⟩
  | cons a l ih =>
    have hmem : cls a ∈ classes cls m := by
      rw [← h, classes_cons]
      exact Multiset.mem_cons_self _ _
    obtain ⟨b, hb, hcls⟩ := mem_map.mp (Multiset.mem_coe.mp hmem)
    obtain ⟨m1, m2, rfl⟩ := append_of_mem hb
    have hrest : classes cls l = classes cls (m1 ++ m2) := by
      rw [classes_cons, classes_append, classes_cons, hcls, Multiset.add_cons] at h
      rw [classes_append]
      exact (Multiset.cons_inj_right _).mp h
    obtain ⟨n, hperm, hall⟩ := ih hrest
    exact ⟨b :: n, (hperm.cons b).trans perm_middle.symm, .cons hcls.symm hall⟩

variable {β : Type} {R : α → β → Prop} {l : List α} {m : List β} (h : List.Forall₂ R l m)

include β h

lemma forall₂_mem : Forall₂ (fun a b => a ∈ l ∧ b ∈ m ∧ R a b) l m := by
  induction h with
  | nil => exact .nil
  | cons hab _ ih =>
    refine .cons ⟨mem_cons_self, mem_cons_self, hab⟩ (ih.imp ?_)
    exact fun a b h => ⟨mem_cons_of_mem _ h.1, mem_cons_of_mem _ h.2.1, h.2.2⟩

lemma exists_of_forall₂ {b : β} (hb : b ∈ m) : ∃ a ∈ l, R a b := by
  induction h with
  | nil => cases hb
  | cons hab _ ih =>
    rcases mem_cons.mp hb with rfl | hb
    · exact ⟨_, mem_cons_self, hab⟩
    · obtain ⟨a, ha, hab⟩ := ih hb
      exact ⟨a, mem_cons_of_mem _ ha, hab⟩

end Bag
