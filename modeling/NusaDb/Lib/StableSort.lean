import Mathlib.Data.List.Sort

/-!
# Stable sorting and selection

Sorting by a key and dropping elements commute, since the sort is stable. One more element is placed
somewhere among the sorted rest, and sorted parts of a list merge into the sorted list.
-/

namespace NusaDb

open List

variable {α κ : Type} [LinearOrder κ] (key : α → κ)

lemma filter_orderedInsert {p : α → Bool} {a : α} (hp : p a) {l : List α}
    (hl : l.Pairwise fun x y => key x ≤ key y) :
    (l.orderedInsert (fun x y => key x ≤ key y) a).filter p =
      (l.filter p).orderedInsert (fun x y => key x ≤ key y) a := by
  induction l with
  | nil => exact filter_cons_of_pos hp
  | cons b l ih =>
    obtain ⟨hhead, htail⟩ := pairwise_cons.mp hl
    by_cases hab : key a ≤ key b
    · rw [orderedInsert_cons_of_le _ l hab, filter_cons_of_pos hp]
      -- everything left of the list is past `a`, so `a` stays in front
      have hall : ∀ c ∈ (b :: l).filter p, key a ≤ key c := by
        intro c hc
        rcases mem_cons.mp (mem_filter.mp hc).1 with rfl | hc
        · exact hab
        · exact hab.trans (hhead c hc)
      cases hrest : (b :: l).filter p with
      | nil => rfl
      | cons c rest =>
        rw [hrest] at hall
        exact (orderedInsert_cons_of_le _ rest (hall c mem_cons_self)).symm
    · rw [orderedInsert_of_not_le _ l hab]
      cases hb : p b with
      | true =>
        rw [filter_cons_of_pos hb, filter_cons_of_pos hb, ih htail]
        exact (orderedInsert_of_not_le _ (l.filter p) hab).symm
      | false =>
        have hnb : ¬p b = true := by
          rw [hb]
          exact Bool.false_ne_true
        rw [filter_cons_of_neg hnb, filter_cons_of_neg hnb, ih htail]

lemma filter_insertionSort (p : α → Bool) (l : List α) :
    (l.insertionSort fun x y => key x ≤ key y).filter p =
      (l.filter p).insertionSort fun x y => key x ≤ key y := by
  induction l with
  | nil => rfl
  | cons a l ih =>
    cases ha : p a with
    | true =>
      rw [insertionSort_cons, filter_orderedInsert key ha (pairwise_insertionSort _ l), ih,
        filter_cons_of_pos ha, insertionSort_cons]
    | false =>
      have hna : ¬p a = true := by
        rw [ha]
        exact Bool.false_ne_true
      rw [insertionSort_cons, filter_cons_of_neg hna, ← ih, orderedInsert_eq_take_drop,
        filter_append, filter_cons_of_neg hna, ← filter_append,
        takeWhile_append_dropWhile]

lemma exists_insertionSort_cons (a : α) (l : List α) :
    ∃ front back, (l.insertionSort fun x y => key x ≤ key y) = front ++ back ∧
      ((a :: l).insertionSort fun x y => key x ≤ key y) = front ++ a :: back := by
  let sorted := l.insertionSort fun x y => key x ≤ key y
  refine ⟨sorted.takeWhile fun b => ¬key a ≤ key b, sorted.dropWhile fun b => ¬key a ≤ key b, ?_, ?_⟩
  · exact takeWhile_append_dropWhile.symm
  · exact insertionSort_cons_eq_take_drop _ a l

lemma insertionSort_least {a : α} {front back : List α} (hfront : ∀ b ∈ front, key a < key b)
    (hback : ∀ b ∈ back, key a ≤ key b) :
    ((front ++ a :: back).insertionSort fun x y => key x ≤ key y) =
      a :: (front ++ back).insertionSort fun x y => key x ≤ key y := by
  induction front with
  | nil => exact insertionSort_cons_of_forall_rel _ hback
  | cons b front ih =>
    have hab : ¬key b ≤ key a := not_le.mpr (hfront b mem_cons_self)
    rw [cons_append, insertionSort_cons, ih fun c hc => hfront c (mem_cons_of_mem b hc)]
    exact orderedInsert_of_not_le _ _ hab

lemma orderedInsert_comm {a b : α} (hba : key b < key a) (l : List α) :
    (l.orderedInsert (fun x y => key x ≤ key y) b).orderedInsert (fun x y => key x ≤ key y) a =
      (l.orderedInsert (fun x y => key x ≤ key y) a).orderedInsert
        (fun x y => key x ≤ key y) b := by
  have hab : ¬key a ≤ key b := not_le.mpr hba
  induction l with
  | nil => simp [hab, hba.le]
  | cons c l ih =>
    by_cases hac : key a ≤ key c
    · simp [hac, hab, hba.le, hba.le.trans hac]
    by_cases hbc : key b ≤ key c
    · simp [hac, hbc, hab]
    · simp [hac, hbc, ih]

lemma insertionSort_append (front back : List α) :
    ((front ++ back).insertionSort fun x y => key x ≤ key y) =
      front.foldr (orderedInsert fun x y => key x ≤ key y)
        (back.insertionSort fun x y => key x ≤ key y) := by
  induction front with
  | nil => rfl
  | cons a front ih => rw [cons_append, insertionSort_cons, ih, foldr_cons]

lemma foldr_orderedInsert (a : α) (l rest : List α) :
    (l.orderedInsert (fun x y => key x ≤ key y) a).foldr
        (orderedInsert fun x y => key x ≤ key y) rest =
      (l.foldr (orderedInsert fun x y => key x ≤ key y) rest).orderedInsert
        (fun x y => key x ≤ key y) a := by
  induction l with
  | nil => rfl
  | cons b l ih =>
    by_cases hab : key a ≤ key b
    · rw [orderedInsert_cons_of_le _ l hab]
      rfl
    · rw [orderedInsert_of_not_le _ l hab, foldr_cons, ih, foldr_cons]
      exact (orderedInsert_comm key (not_le.mp hab) _).symm

lemma insertionSort_flatten (parts : List (List α)) :
    ((parts.map fun part => part.insertionSort fun x y => key x ≤ key y).flatten.insertionSort
        fun x y => key x ≤ key y) = parts.flatten.insertionSort fun x y => key x ≤ key y := by
  induction parts with
  | nil => rfl
  | cons part parts ih =>
    rw [map_cons, flatten_cons, insertionSort_append, ih, flatten_cons, insertionSort_append]
    induction part with
    | nil => rfl
    | cons a part ih => rw [insertionSort_cons, foldr_orderedInsert, ih, foldr_cons]

lemma filter_key_insertionSort (k : κ) (l : List α) :
    ((l.insertionSort fun x y => key x ≤ key y).filter fun x => key x = k) =
      l.filter fun x => key x = k := by
  rw [filter_insertionSort]
  apply Pairwise.insertionSort_eq
  apply pairwise_of_forall_mem_list
  intro a ha b hb
  simp only [mem_filter, decide_eq_true_eq] at ha hb
  exact (ha.2.trans hb.2.symm).le

section MergeRuns

variable (le : α → α → Bool)

/-- The least head of the runs, and what is left of them. Of equal heads it is that of the earliest
run. -/
def popLeast : List (List α) → Option (α × List (List α))
  | [] => none
  | [] :: runs => popLeast runs
  | (a :: run) :: runs =>
    match popLeast runs with
    | none => some (a, run :: runs)
    | some (b, rest) =>
      if le a b then some (a, run :: runs) else some (b, (a :: run) :: rest)

/-- The first `fuel` elements of the runs merged. -/
def mergeRuns : Nat → List (List α) → List α
  | 0, _ => []
  | fuel + 1, runs =>
    match popLeast le runs with
    | none => []
    | some (a, rest) => a :: mergeRuns fuel rest

variable {le}

lemma popLeast_eq_none {runs : List (List α)} (h : popLeast le runs = none) :
    runs.flatten = [] := by
  fun_induction popLeast le runs with
  | case1 => rfl
  | case2 runs ih => exact ih h
  | case3 | case4 | case5 => cases h

/-- The popped element is the least head, and of equals the one of the earliest run. -/
lemma popLeast_eq_some {runs rest : List (List α)} {a : α}
    (h : popLeast le runs = some (a, rest)) :
    ∃ front back, runs.flatten = front ++ a :: back ∧ rest.flatten = front ++ back ∧
      ((∀ x ∈ runs.flatten, ∀ y ∈ runs.flatten, le x y ↔ key x ≤ key y) →
        (∀ run ∈ runs, run.Pairwise fun x y => key x ≤ key y) →
        (∀ b ∈ front, key a < key b) ∧ (∀ b ∈ back, key a ≤ key b) ∧
          ∀ run ∈ rest, run.Pairwise fun x y => key x ≤ key y) := by
  fun_induction popLeast le runs generalizing a rest with
  | case1 => cases h
  | case2 runs ih =>
    obtain ⟨front, back, hruns, hrest, horder⟩ := ih h
    exact ⟨front, back, hruns, hrest, fun hle hsorted =>
      horder hle fun run hrun => hsorted run (mem_cons_of_mem _ hrun)⟩
  | case3 b run runs hnone =>
    cases h
    refine ⟨[], run ++ runs.flatten, rfl, rfl, fun _ hsorted => ?_⟩
    simp only [mem_cons, forall_eq_or_imp, pairwise_cons] at hsorted
    simp only [popLeast_eq_none hnone, append_nil, mem_cons, forall_eq_or_imp]
    exact ⟨by simp, hsorted.1.1, hsorted.1.2, hsorted.2⟩
  | case4 b run runs c rest' hsome hbc ih =>
    cases h
    obtain ⟨front, back, hruns, -, horder⟩ := ih hsome
    refine ⟨[], run ++ runs.flatten, rfl, rfl, fun hle hsorted => ?_⟩
    simp only [mem_cons, forall_eq_or_imp, pairwise_cons] at hsorted
    obtain ⟨hfront, hback, -⟩ := horder
      (fun x hx y hy => hle x (mem_append_right _ hx) y (mem_append_right _ hy)) hsorted.2
    have hkey : key b ≤ key c := (hle b (by simp) c (by simp [hruns])).mp hbc
    simp only [hruns, mem_append, mem_cons, forall_eq, or_imp, forall_and]
    exact ⟨by simp, ⟨hsorted.1.1, fun x hx => hkey.trans (hfront x hx).le, hkey,
      fun x hx => hkey.trans (hback x hx)⟩, hsorted.1.2, hsorted.2⟩
  | case5 b run runs c rest' hsome hbc ih =>
    cases h
    obtain ⟨front, back, hruns, hrest, horder⟩ := ih hsome
    refine ⟨b :: run ++ front, back, by simp [hruns], by simp [hrest], fun hle hsorted => ?_⟩
    simp only [mem_cons, forall_eq_or_imp, pairwise_cons] at hsorted
    obtain ⟨hfront, hback, hsorted'⟩ := horder
      (fun x hx y hy => hle x (mem_append_right _ hx) y (mem_append_right _ hy)) hsorted.2
    have hkey : key c < key b :=
      not_le.mp fun h => hbc ((hle b (by simp) c (by simp [hruns])).mpr h)
    simp only [cons_append, mem_append, mem_cons, forall_eq, or_imp, forall_and, pairwise_cons]
    exact ⟨⟨hkey, fun x hx => hkey.trans_le (hsorted.1.1 x hx), hfront⟩, hback, hsorted.1, hsorted'⟩

lemma mergeRuns_perm {fuel : Nat} {runs : List (List α)} (hfuel : runs.flatten.length ≤ fuel) :
    mergeRuns le fuel runs ~ runs.flatten := by
  induction fuel generalizing runs with
  | zero => rw [length_eq_zero_iff.mp (Nat.le_zero.mp hfuel), mergeRuns]
  | succ fuel ih =>
    unfold mergeRuns
    split
    case h_1 hnone => rw [popLeast_eq_none hnone]
    case h_2 a rest hsome =>
      obtain ⟨front, back, hruns, hrest, -⟩ := popLeast_eq_some (fun _ => 0) hsome
      rw [hruns] at hfuel ⊢
      simp only [length_append, length_cons] at hfuel
      apply ((ih (by rw [hrest, length_append]; omega)).cons a).trans
      rw [hrest]
      exact perm_middle.symm

lemma mergeRuns_eq_insertionSort {fuel : Nat} {runs : List (List α)}
    (hle : ∀ x ∈ runs.flatten, ∀ y ∈ runs.flatten, le x y ↔ key x ≤ key y)
    (hsorted : ∀ run ∈ runs, run.Pairwise fun x y => key x ≤ key y)
    (hfuel : runs.flatten.length ≤ fuel) :
    mergeRuns le fuel runs = runs.flatten.insertionSort fun x y => key x ≤ key y := by
  induction fuel generalizing runs with
  | zero => rw [length_eq_zero_iff.mp (Nat.le_zero.mp hfuel), mergeRuns, insertionSort_nil]
  | succ fuel ih =>
    unfold mergeRuns
    split
    case h_1 hnone => rw [popLeast_eq_none hnone, insertionSort_nil]
    case h_2 a rest hsome =>
      obtain ⟨front, back, hruns, hrest, horder⟩ := popLeast_eq_some key hsome
      obtain ⟨hfront, hback, hsorted'⟩ := horder hle hsorted
      rw [hruns] at hle hfuel ⊢
      simp only [length_append, length_cons] at hfuel
      have hmem : ∀ x ∈ rest.flatten, x ∈ front ++ a :: back := by
        intro x hx
        rw [hrest] at hx
        exact (mem_append.mp hx).elim (mem_append_left _)
          fun h => mem_append_right _ (mem_cons_of_mem a h)
      rw [insertionSort_least key hfront hback, ← hrest]
      exact congrArg (a :: ·) (ih (fun x hx y hy => hle x (hmem x hx) y (hmem y hy)) hsorted'
        (by rw [hrest, length_append]; omega))

end MergeRuns

end NusaDb
