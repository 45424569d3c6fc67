import Mathlib.Data.List.Pairwise
import NusaDb.Lib.Multiplicity

/-!
# Telling elements apart by key

The walks of `Multiplicity` with keys in the place of comparisons do the same as long as elements
that are the same have one key (`Respects`), elements of one key are the same (`Distinguishes`) and
what has no key need not be found (`Finds`).
-/

namespace NusaDb.Multiplicity

open List

variable {α κ : Type} [BEq κ] (same : α → α → Bool) (key : α → Option κ)

/-- One element, over the keys seen and the elements kept; without a key it is compared. -/
def dedupeStep (st : List κ × List α) (x : α) : List κ × List α :=
  match key x with
  | some k => if st.1.contains k then st else (k :: st.1, st.2 ++ [x])
  | none => if st.2.any (same · x) then st else (st.1, st.2 ++ [x])

def dedupeKeyed (xs : List α) : List α := (xs.foldl (dedupeStep same key) ([], [])).2

def presentKeyed (ys : List α) (x : α) : Bool :=
  match key x with
  | some k => (ys.filterMap key).contains k
  | none => false

def countKeys (ys : List α) : List (κ × Nat) := (ys.filterMap key).foldl (bump (· == ·)) []

def takeKey (counts : List (κ × Nat)) (x : α) : Bool × List (κ × Nat) :=
  match key x with
  | some k => takeOne (· == ·) counts k
  | none => (false, counts)

def Respects (xs : List α) : Prop := ∀ a ∈ xs, ∀ b ∈ xs, same a b = true → key a = key b

def Distinguishes (xs : List α) : Prop :=
  ∀ a ∈ xs, ∀ b ∈ xs, ∀ k, key a = some k → key b = some k → same a b = true

/-- An element is found by its key where there is one it is the same as: a key that occurs belongs
to such an element too. -/
structure Finds (ys : List α) (x : α) : Prop where
  keyed : ∀ k, key x = some k → (∃ y ∈ ys, key y = some k) → ∃ y ∈ ys, same x y = true
  keyless : key x = none → ∀ y ∈ ys, same x y = false

variable {same key} {xs ys : List α}

lemma foldl_dedupeStep_append (xs : List α) (x : α) :
    (xs ++ [x]).foldl (dedupeStep same key) ([], [])
      = dedupeStep same key (xs.foldl (dedupeStep same key) ([], [])) x := by
  rw [foldl_append]
  rfl

lemma mem_dedupeKeyed {x : α} (hx : x ∈ dedupeKeyed same key xs) : x ∈ xs := by
  induction xs using reverseRecOn with
  | nil => exact hx
  | append_singleton xs y ih =>
    rw [dedupeKeyed, foldl_dedupeStep_append, dedupeStep] at hx
    have hsplit : x ∈ dedupeKeyed same key xs ∨ x = y := by
      rw [dedupeKeyed]
      cases hkey : key y <;> simp only [hkey] at hx <;> split_ifs at hx <;>
        first | exact .inl hx | simpa using hx
    rcases hsplit with hold | rfl
    · exact mem_append_left _ (ih hold)
    · simp

variable [LawfulBEq κ]

/-- What the walk has seen are the keys of what it kept, and no two elements kept have one key. -/
structure Seen (key : α → Option κ) (st : List κ × List α) : Prop where
  keys : ∀ k, k ∈ st.1 ↔ ∃ x ∈ st.2, key x = some k
  apart : st.2.Pairwise fun a b => ∀ k, key a = some k → key b ≠ some k

lemma Seen.step {st : List κ × List α} (h : Seen key st) (x : α) :
    Seen key (dedupeStep same key st x) := by
  rw [dedupeStep]
  cases hkey : key x with
  | none =>
    split_ifs
    · exact h
    constructor
    · intro k
      simp [h.keys k, hkey]
    · refine pairwise_append.mpr ⟨h.apart, pairwise_singleton _ _, ?_⟩
      intro a _ b hb k _
      rw [mem_singleton.mp hb, hkey]
      simp
  | some k =>
    simp only
    split_ifs with hseen
    · exact h
    constructor
    · intro other
      simp only [mem_cons, h.keys other, mem_append, not_mem_nil, or_false]
      constructor
      · rintro (rfl | ⟨y, hy, hyk⟩)
        · exact ⟨x, .inr rfl, hkey⟩
        · exact ⟨y, .inl hy, hyk⟩
      · rintro ⟨y, hy | rfl, hyk⟩
        · exact .inr ⟨y, hy, hyk⟩
        · exact .inl (Option.some.inj (hyk.symm.trans hkey))
    · refine pairwise_append.mpr ⟨h.apart, pairwise_singleton _ _, ?_⟩
      intro a ha b hb k' hak hbk
      rw [mem_singleton.mp hb, hkey] at hbk
      -- a kept element with this key would have made it seen
      apply hseen
      rw [contains_iff_mem, h.keys k]
      exact ⟨a, ha, hak.trans hbk.symm⟩

lemma seen_dedupe (xs : List α) : Seen key (xs.foldl (dedupeStep same key) ([], [])) := by
  induction xs using reverseRecOn with
  | nil => exact ⟨by simp, Pairwise.nil⟩
  | append_singleton xs x ih =>
    rw [foldl_dedupeStep_append]
    exact ih.step x

lemma dedupeKeyed_eq (hresp : Respects same key xs) (hdist : Distinguishes same key xs) :
    dedupeKeyed same key xs = dedupe same xs := by
  induction xs using reverseRecOn with
  | nil => rfl
  | append_singleton xs x ih =>
    have hmem : ∀ y ∈ xs, y ∈ xs ++ [x] := fun y hy => mem_append_left [x] hy
    have hx : x ∈ xs ++ [x] := by simp
    have hkept := ih (fun a ha b hb => hresp a (hmem a ha) b (hmem b hb))
      fun a ha b hb => hdist a (hmem a ha) b (hmem b hb)
    rw [dedupeKeyed] at hkept
    rw [dedupeKeyed, foldl_dedupeStep_append, dedupe_append, dedupeStep]
    rcases hkey : key x with _ | k
    · simp only [hkept]; split_ifs <;> simp [hkept]
    have hiff : (xs.foldl (dedupeStep same key) ([], [])).1.contains k
        = (dedupe same xs).any (same · x) := by
      rw [Bool.eq_iff_iff, contains_iff_mem, (seen_dedupe xs).keys k, hkept, any_eq_true]
      refine exists_congr fun y => and_congr_right fun hy => ?_
      have hy' := hmem y ((dedupe_sublist same xs).mem hy)
      exact ⟨fun hyk => hdist y hy' x hx k hyk hkey, fun hyx => by rw [hresp y hy' x hx hyx, hkey]⟩
    simp only [hiff]
    split_ifs <;> simp [hkept]

lemma distinguishes_of_kept {dom : α → Prop} (h : EquivOn same dom) (hdom : ∀ x ∈ xs, dom x)
    (hresp : Respects same key xs)
    (hkept : ∀ x ∈ xs, ∃ y ∈ dedupeKeyed same key xs, same x y = true) :
    Distinguishes same key xs := by
  intro a ha b hb k hak hbk
  obtain ⟨a', ha', haa⟩ := hkept a ha
  obtain ⟨b', hb', hbb⟩ := hkept b hb
  have hak' : key a' = some k := by rw [← hresp a ha a' (mem_dedupeKeyed ha') haa, hak]
  have hbk' : key b' = some k := by rw [← hresp b hb b' (mem_dedupeKeyed hb') hbb, hbk]
  have heq : a' = b' := by
    by_contra hne
    have hsymm : Std.Symm fun a b : α => ∀ k, key a = some k → key b ≠ some k :=
      ⟨fun _ _ hab k hbk hak => hab k hak hbk⟩
    exact (seen_dedupe xs).apart.forall ha' hb' hne k hak' hbk'
  rw [← heq] at hbb
  have hda' := hdom a' (mem_dedupeKeyed ha')
  exact h.trans a a' b (hdom a ha) hda' (hdom b hb) haa (h.symm b a' (hdom b hb) hda' hbb)

lemma presentKeyed_iff (ys : List α) (x : α) :
    presentKeyed key ys x = true ↔ ∃ k, key x = some k ∧ ∃ y ∈ ys, key y = some k := by
  rw [presentKeyed]
  cases key x <;> simp

lemma Finds.present {x : α} (hfinds : Finds same key ys x)
    (hresp : ∀ y ∈ ys, same x y = true → key x = key y) :
    presentKeyed key ys x = ys.any (same x ·) := by
  rw [Bool.eq_iff_iff, presentKeyed_iff, any_eq_true]
  constructor
  · rintro ⟨k, hk, hys⟩
    exact hfinds.keyed k hk hys
  · rintro ⟨y, hy, hxy⟩
    cases hk : key x with
    | none => exact absurd hxy (by simp [hfinds.keyless hk y hy])
    | some k => exact ⟨k, rfl, y, hy, by rw [← hresp y hy hxy, hk]⟩

lemma equivOn_beq : EquivOn (fun a b : κ => a == b) fun _ => True where
  refl _ _ := beq_self_eq_true _
  symm _ _ _ _ h := by rwa [BEq.comm]
  trans _ _ _ _ _ _ hab hbc := by rw [eq_of_beq hab]; exact hbc

/-- With a key an element is counted alike by key and by element, and without one nothing is
counted. -/
structure CountsAgree (same : α → α → Bool) (key : α → Option κ) (dom : α → Prop) (xs : List α)
    (byKey : List (κ × Nat)) (counts : List (α × Nat)) : Prop where
  keysIn : KeysIn dom counts
  keyed : ∀ x ∈ xs, ∀ k, key x = some k → available (· == ·) byKey k = available same counts x
  keyless : ∀ x ∈ xs, key x = none → available same counts x = 0

variable {dom : α → Prop} (h : EquivOn same dom) (hin : ∀ x ∈ xs, dom x)

include h hin

lemma CountsAgree.take (hresp : Respects same key xs) (hdist : Distinguishes same key xs)
    {byKey : List (κ × Nat)} {counts : List (α × Nat)}
    (hagree : CountsAgree same key dom xs byKey counts) {y : α} (hy : y ∈ xs) :
    (takeKey key byKey y).1 = (takeOne same counts y).1 ∧
      CountsAgree same key dom xs (takeKey key byKey y).2 (takeOne same counts y).2 := by
  have hnext : ∀ x ∈ xs, available same (takeOne same counts y).2 x
      = available same counts x - if same y x then 1 else 0 :=
    fun x hx => available_takeOne h hagree.keysIn (hin x hx) (hin y hy)
  have hkeyless : ∀ x ∈ xs, key x = none → available same (takeOne same counts y).2 x = 0 := by
    intro x hx hkey
    rw [hnext x hx, hagree.keyless x hx hkey, Nat.zero_sub]
  rw [takeOne_fst]
  cases hkey : key y with
  | none =>
    have hzero := hagree.keyless y hy hkey
    rw [show takeKey key byKey y = (false, byKey) by simp [takeKey, hkey], hzero]
    refine ⟨rfl, hagree.keysIn.takeOne _ y, fun x hx k hxk => ?_, hkeyless⟩
    show available (· == ·) byKey k = _
    rw [hnext x hx, hagree.keyed x hx k hxk]
    split_ifs with hyx
    · -- `y` counts nothing, so neither does what is the same
      rw [← available_congr h hagree.keysIn (hin y hy) (hin x hx) hyx, hzero]
    · rfl
  | some k =>
    rw [show takeKey key byKey y = takeOne (· == ·) byKey k by simp [takeKey, hkey], takeOne_fst,
      hagree.keyed y hy k hkey]
    refine ⟨rfl, hagree.keysIn.takeOne _ y, fun x hx k' hxk => ?_, hkeyless⟩
    have hsame : (k == k') = same y x := by
      rw [Bool.eq_iff_iff, beq_iff_eq]
      constructor
      · rintro rfl
        exact hdist y hy x hx k hkey hxk
      · intro hyx
        exact Option.some.inj (hkey.symm.trans ((hresp y hy x hx hyx).trans hxk))
    rw [available_takeOne equivOn_beq (fun _ _ => trivial) trivial trivial, hnext x hx,
      hagree.keyed x hx k' hxk, hsame]

lemma countsAgree_countKeys (hys : ∀ y ∈ ys, dom y)
    (hresp : ∀ x ∈ xs, ∀ y ∈ ys, same x y = true → key x = key y)
    (hdist : ∀ x ∈ xs, ∀ y ∈ ys, ∀ k, key x = some k → key y = some k → same x y = true)
    (hnone : ∀ x ∈ xs, key x = none → ∀ y ∈ ys, same x y = false) :
    CountsAgree same key dom xs (countKeys key ys) (ys.foldl (bump same) []) := by
  refine ⟨keysIn_foldl_bump hys, ?_, ?_⟩
  · intro x hx k hkey
    rw [countKeys, available_foldl_bump equivOn_beq (fun _ _ => trivial) trivial,
      available_foldl_bump h hys (hin x hx), countP_filterMap]
    apply countP_congr
    intro y hy
    cases hyk : key y with
    | none =>
      have hne : same x y = false := by
        by_contra hxy
        have heq := hresp x hx y hy (by simpa using hxy)
        rw [hkey, hyk] at heq
        cases heq
      simp [hne]
    | some k' =>
      simp only [Option.map_some, Option.getD_some, beq_iff_eq]
      constructor
      · rintro rfl
        exact hdist x hx y hy k hkey hyk
      · intro hxy
        exact Option.some.inj (hkey.symm.trans ((hresp x hx y hy hxy).trans hyk))
  · intro x hx hkey
    rw [available_foldl_bump h hys (hin x hx), countP_eq_zero]
    intro y hy
    rw [hnone x hx hkey y hy]
    simp

end NusaDb.Multiplicity
