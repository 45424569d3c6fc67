import Mathlib.Data.List.Forall2

/-!
# Logs with savepoints

A log holds its items newest first; going back to a mark drops what was logged since and every newer
mark. `MarkedLog` keeps with each mark what the log held then; a program keeps how long the log was
(`MarkedLog.ofCounts`). `MarkedLog.Rel` relates two logs marked together, so that a relation of
their items survives going back.
-/

namespace NusaDb

open List

/-- A log and its marks, newest first, each with what the log held. -/
structure MarkedLog (ν α : Type) where
  items : List α
  marks : List (ν × List α)

namespace MarkedLog

variable {ν α β : Type}

def ofCounts (items : List α) (marks : List (ν × Nat)) : MarkedLog ν α :=
  ⟨items, marks.map fun p => (p.1, items.drop (items.length - p.2))⟩

def map (f : List α → List β) (log : MarkedLog ν α) : MarkedLog ν β :=
  ⟨f log.items, log.marks.map fun p => (p.1, f p.2)⟩

def push (log : MarkedLog ν α) (new : List α) : MarkedLog ν α :=
  { log with items := new ++ log.items }

section

variable [DecidableEq ν]

def mark (log : MarkedLog ν α) (name : ν) : MarkedLog ν α :=
  { log with marks := (name, log.items) :: log.marks.filter (·.1 ≠ name) }

def release (log : MarkedLog ν α) (name : ν) : MarkedLog ν α :=
  { log with marks := (log.marks.dropWhile (·.1 ≠ name)).tail }

def backTo (log : MarkedLog ν α) (name : ν) : MarkedLog ν α :=
  match log.marks.dropWhile (·.1 ≠ name) with
  | [] => log
  | (n, cut) :: older => ⟨cut, (n, cut) :: older⟩

end

/-- The counts lie within the log, and no older mark counts more. -/
structure CountsOk (items : List α) (marks : List (ν × Nat)) : Prop where
  le : ∀ p ∈ marks, p.2 ≤ items.length
  sorted : marks.Pairwise fun a b => b.2 ≤ a.2

section

variable {items : List α} {marks : List (ν × Nat)}

lemma ofCounts_push (hle : ∀ p ∈ marks, p.2 ≤ items.length) (new : List α) :
    ofCounts (new ++ items) marks = (ofCounts items marks).push new := by
  unfold ofCounts push
  congr 1
  refine map_congr_left fun p hp => ?_
  have hp := hle p hp
  have hlen : (new ++ items).length - p.2 = new.length + (items.length - p.2) := by
    rw [length_append]
    omega
  rw [hlen, ← drop_drop, drop_left]

variable (hok : CountsOk items marks)

include hok

lemma CountsOk.push (new : List α) : CountsOk (new ++ items) marks :=
  ⟨fun p hp => Nat.le_trans (hok.le p hp) (by rw [length_append]; omega), hok.sorted⟩

lemma CountsOk.sublist {marks' : List (ν × Nat)} (hsub : marks'.Sublist marks) :
    CountsOk items marks' :=
  ⟨fun p hp => hok.le p (hsub.subset hp), hok.sorted.sublist hsub⟩

variable [DecidableEq ν]

omit hok in
lemma ofCounts_mark (items : List α) (marks : List (ν × Nat)) (name : ν) :
    ofCounts items ((name, items.length) :: marks.filter (·.1 ≠ name)) =
      (ofCounts items marks).mark name := by
  unfold ofCounts mark
  rw [map_cons, Nat.sub_self, drop_zero, filter_map]
  rfl

omit hok in
lemma ofCounts_release (items : List α) (marks : List (ν × Nat)) (name : ν) :
    ofCounts items (marks.dropWhile (·.1 ≠ name)).tail = (ofCounts items marks).release name := by
  unfold ofCounts release
  rw [dropWhile_map, map_tail]
  rfl

lemma ofCounts_backTo {name n : ν} {m : Nat} {older : List (ν × Nat)}
    (hdrop : marks.dropWhile (·.1 ≠ name) = (n, m) :: older) :
    ofCounts (items.drop (items.length - m)) ((n, m) :: older) = (ofCounts items marks).backTo name := by
  have hbelow : ∀ q ∈ (n, m) :: older, q.2 ≤ m := by
    have hsub : ((n, m) :: older).Pairwise fun a b => b.2 ≤ a.2 :=
      hdrop ▸ hok.sorted.sublist (dropWhile_sublist _)
    intro q hq
    rcases mem_cons.mp hq with rfl | hq
    · exact Nat.le_refl _
    · exact (pairwise_cons.mp hsub).1 q hq
  have hmarks : (ofCounts items marks).marks.dropWhile (·.1 ≠ name) =
      ((n, m) :: older).map fun p => (p.1, items.drop (items.length - p.2)) := by
    unfold ofCounts
    rw [dropWhile_map, ← hdrop]
    rfl
  unfold backTo
  rw [hmarks]
  unfold ofCounts
  rw [map_cons, map_cons]
  congr 1
  -- what a mark at or below the cut saved is found again in what the cut leaves
  have hcut : ∀ q ∈ (n, m) :: older, (items.drop (items.length - m)).drop
      ((items.drop (items.length - m)).length - q.2) = items.drop (items.length - q.2) := by
    intro q hq
    have hq := hbelow q hq
    rw [drop_drop, length_drop]
    congr 1
    omega
  congr 1
  · rw [hcut (n, m) mem_cons_self]
  · refine map_congr_left fun q hq => ?_
    rw [hcut q (mem_cons_of_mem _ hq)]

lemma CountsOk.mark (name : ν) :
    CountsOk items ((name, items.length) :: marks.filter (·.1 ≠ name)) := by
  refine ⟨fun p hp => ?_, pairwise_cons.mpr ⟨fun p hp => ?_, hok.sorted.filter _⟩⟩
  · rcases mem_cons.mp hp with rfl | hp
    · exact Nat.le_refl _
    · exact hok.le p (mem_of_mem_filter hp)
  · exact hok.le p (mem_of_mem_filter hp)

lemma CountsOk.backTo {name n : ν} {m : Nat} {older : List (ν × Nat)}
    (hdrop : marks.dropWhile (·.1 ≠ name) = (n, m) :: older) :
    CountsOk (items.drop (items.length - m)) ((n, m) :: older) := by
  have hsub : ((n, m) :: older).Sublist marks := hdrop ▸ dropWhile_sublist _
  have hsorted := hok.sorted.sublist hsub
  have hmark : m ≤ items.length := hok.le (n, m) (hsub.subset mem_cons_self)
  refine ⟨fun p hp => ?_, hsorted⟩
  rw [length_drop]
  rcases mem_cons.mp hp with rfl | hp
  · show m ≤ _
    omega
  · have hle := (pairwise_cons.mp hsorted).1 p hp
    omega

end

section

variable [DecidableEq ν] (f : List α → List β) (log : MarkedLog ν α) (name : ν)

lemma map_mark : (log.mark name).map f = (log.map f).mark name := by
  unfold map mark
  rw [map_cons, filter_map]
  rfl

lemma map_release : (log.release name).map f = (log.map f).release name := by
  unfold map release
  rw [dropWhile_map, map_tail]
  rfl

lemma map_backTo : (log.backTo name).map f = (log.map f).backTo name := by
  have hmarks : (log.map f).marks.dropWhile (·.1 ≠ name) =
      (log.marks.dropWhile (·.1 ≠ name)).map fun p => (p.1, f p.2) := by
    unfold map
    rw [dropWhile_map]
    rfl
  unfold backTo
  rw [hmarks]
  cases log.marks.dropWhile (·.1 ≠ name) with
  | nil | cons => rfl

end

/-- The relation holds of the items, and mark by mark of what the marks saved. -/
structure Rel (R : List α → List β → Prop) (a : MarkedLog ν α) (b : MarkedLog ν β) : Prop where
  items : R a.items b.items
  marks : List.Forall₂ (fun p q => p.1 = q.1 ∧ R p.2 q.2) a.marks b.marks

variable {R R' : List α → List β → Prop}

lemma Rel.names {as : List α} {bs : List β} {ps qs : List (ν × Nat)}
    (h : Rel R (ofCounts as ps) (ofCounts bs qs)) : qs.map Prod.fst = ps.map Prod.fst := by
  have hmarks := h.marks
  unfold ofCounts at hmarks
  rw [forall₂_map_left_iff, forall₂_map_right_iff] at hmarks
  clear h
  induction hmarks with
  | nil => rfl
  | cons hp _ ih => exact congrArg₂ List.cons hp.1.symm ih

variable {a : MarkedLog ν α} {b : MarkedLog ν β} (h : Rel R a b)

include h

lemma Rel.mono_sublist (hsub : ∀ p ∈ a.marks, p.2.Sublist a.items)
    (hR : ∀ x y, x.Sublist a.items → R x y → R' x y) : Rel R' a b := by
  refine ⟨hR _ _ (Sublist.refl _) h.items, ?_⟩
  obtain ⟨items, marks⟩ := a
  obtain ⟨items', marks'⟩ := b
  have hmarks := h.marks
  dsimp only at hmarks hsub hR ⊢
  clear h
  induction hmarks with
  | nil => exact .nil
  | @cons p q ps qs hpq hrest ih =>
    refine .cons ⟨hpq.1, hR _ _ (hsub p mem_cons_self) hpq.2⟩ (ih fun p' hp' => ?_)
    exact hsub p' (mem_cons_of_mem _ hp')

lemma Rel.push {new : List α} {new' : List β} (hnew : R (new ++ a.items) (new' ++ b.items)) :
    Rel R (a.push new) (b.push new') :=
  ⟨hnew, h.marks⟩

variable [DecidableEq ν] (name : ν)

lemma Rel.dropWhile :
    Forall₂ (fun p q => p.1 = q.1 ∧ R p.2 q.2) (a.marks.dropWhile (·.1 ≠ name))
      (b.marks.dropWhile (·.1 ≠ name)) := by
  obtain ⟨items, marks⟩ := a
  obtain ⟨items', marks'⟩ := b
  have hmarks := h.marks
  dsimp only at hmarks ⊢
  clear h
  induction hmarks with
  | nil => exact .nil
  | @cons p q ps qs hpq hrest ih =>
    by_cases hp : p.1 = name
    · have hq : q.1 = name := hpq.1 ▸ hp
      rw [dropWhile_cons_of_neg (by simpa using hp), dropWhile_cons_of_neg (by simpa using hq)]
      exact .cons hpq hrest
    · have hq : q.1 ≠ name := hpq.1 ▸ hp
      rw [dropWhile_cons_of_pos (by simpa using hp), dropWhile_cons_of_pos (by simpa using hq)]
      exact ih

lemma Rel.mark : Rel R (a.mark name) (b.mark name) := by
  refine ⟨h.items, .cons ⟨rfl, h.items⟩ (rel_filter ?_ h.marks)⟩
  intro p q hpq
  simp [hpq.1]

lemma Rel.release : Rel R (a.release name) (b.release name) := by
  refine ⟨h.items, ?_⟩
  have hdrop := h.dropWhile name
  unfold MarkedLog.release
  generalize a.marks.dropWhile (·.1 ≠ name) = ps at hdrop
  generalize b.marks.dropWhile (·.1 ≠ name) = qs at hdrop
  cases hdrop with
  | nil => exact .nil
  | cons _ hrest => exact hrest

lemma Rel.backTo : Rel R (a.backTo name) (b.backTo name) := by
  have hdrop := h.dropWhile name
  unfold MarkedLog.backTo
  generalize a.marks.dropWhile (·.1 ≠ name) = ps at hdrop
  generalize b.marks.dropWhile (·.1 ≠ name) = qs at hdrop
  cases hdrop with
  | nil => exact h
  | @cons p q ps qs hpq hrest => exact ⟨hpq.2, .cons ⟨hpq.1, hpq.2⟩ hrest⟩

end MarkedLog

end NusaDb
