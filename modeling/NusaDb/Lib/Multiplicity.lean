import Mathlib.Data.List.Basic
import Mathlib.Data.List.Induction
import Mathlib.Order.Basic

/-!
# Multiplicities up to an equivalence

Lists whose elements count as one when `same` says so: keeping the first of each class, counting the
classes of a list, and taking counted occurrences off one by one.
-/

namespace NusaDb.Multiplicity

open List

variable {α : Type}

/-- On `dom`, `same` is an equivalence. -/
structure EquivOn (same : α → α → Bool) (dom : α → Prop) : Prop where
  refl : ∀ x, dom x → same x x = true
  symm : ∀ x y, dom x → dom y → same x y = true → same y x = true
  trans : ∀ x y z, dom x → dom y → dom z → same x y = true → same y z = true → same x z = true

namespace EquivOn

variable {same : α → α → Bool} {dom : α → Prop}

lemma comm (h : EquivOn same dom) {x y : α} (hx : dom x) (hy : dom y) : same x y = same y x := by
  cases hxy : same x y with
  | true => exact (h.symm x y hx hy hxy).symm
  | false =>
    cases hyx : same y x with
    | true => exact absurd (h.symm y x hy hx hyx) (by simp [hxy])
    | false => rfl

variable (h : EquivOn same dom) {x y z : α} (hx : dom x) (hy : dom y) (hz : dom z)
  (hxy : same x y = true)

include h hx hy hz hxy

lemma congr : same x z = same y z := by
  cases hyz : same y z with
  | true => exact h.trans x y z hx hy hz hxy hyz
  | false =>
    cases hxz : same x z with
    | true => exact absurd (h.trans y x z hy hx hz (h.symm x y hx hy hxy) hxz) (by simp [hyz])
    | false => rfl

lemma apart (hxz : ¬ same x z = true) : same z y = false := by
  rw [h.comm hz hy]
  by_contra hyz
  exact hxz (h.trans x y z hx hy hz hxy (by simpa using hyz))

end EquivOn

variable (same : α → α → Bool)

def dedupe (xs : List α) : List α :=
  xs.foldl (fun out x => if out.any (same · x) then out else out ++ [x]) []

lemma dedupe_append (xs : List α) (x : α) :
    dedupe same (xs ++ [x])
      = if (dedupe same xs).any (same · x) then dedupe same xs else dedupe same xs ++ [x] := by
  rw [dedupe, foldl_append]
  rfl

lemma dedupe_sublist (xs : List α) : (dedupe same xs).Sublist xs := by
  induction xs using reverseRecOn with
  | nil => exact Sublist.refl []
  | append_singleton xs x ih =>
    rw [dedupe_append]
    split_ifs
    · exact ih.trans (sublist_append_left xs [x])
    · exact ih.append (Sublist.refl [x])

variable {xs : List α} {x : α}

section

variable {dom : α → Prop} (h : EquivOn same dom) (hxs : ∀ y ∈ xs, dom y)

include dom h hxs

lemma countP_dedupe (hx : dom x) :
    (dedupe same xs).countP (same x) = if 0 < xs.countP (same x) then 1 else 0 := by
  induction xs using reverseRecOn with
  | nil => rfl
  | append_singleton xs y ih =>
    have hxs' : ∀ z ∈ xs, dom z := fun z hz => hxs z (mem_append_left _ hz)
    have hy : dom y := hxs y (by simp)
    have hkept : ∀ z ∈ dedupe same xs, dom z := fun z hz => hxs' z ((dedupe_sublist same xs).mem hz)
    have hcount := ih hxs'
    rw [dedupe_append, countP_append, countP_singleton]
    by_cases hany : (dedupe same xs).any (same · y) = true
    · rw [if_pos hany, hcount]
      obtain ⟨z, hz, hzy⟩ := any_eq_true.mp hany
      by_cases hxy : same x y = true
      · -- the element kept for `y` stands for `x` too
        have hpos : 0 < xs.countP (same x) := by
          refine countP_pos_iff.mpr ⟨z, (dedupe_sublist same xs).mem hz, ?_⟩
          exact h.trans x y z hx hy (hkept z hz) hxy (h.symm z y (hkept z hz) hy hzy)
        rw [if_pos hpos, if_pos (by omega)]
      · simp [hxy]
    · rw [if_neg hany, countP_append, countP_singleton, hcount]
      by_cases hxy : same x y = true
      · -- nothing kept is the same as `x`, since it would be the same as `y`
        have hzero : (dedupe same xs).countP (same x) = 0 := by
          refine countP_eq_zero.mpr fun z hz hxz => hany (any_eq_true.mpr ⟨z, hz, ?_⟩)
          exact h.trans z x y (hkept z hz) hx hy (h.symm x z hx (hkept z hz) hxz) hxy
        rw [hcount] at hzero
        rw [hzero, if_pos hxy, if_pos (by omega)]
      · simp [hxy]

lemma exists_mem_dedupe (hx : x ∈ xs) : ∃ y ∈ dedupe same xs, same x y = true := by
  have hcount := countP_dedupe same h hxs (hxs x hx)
  rw [if_pos (countP_pos_iff.mpr ⟨x, hx, h.refl x (hxs x hx)⟩)] at hcount
  exact countP_pos_iff.mp (by omega)

end

def bump : List (α × Nat) → α → List (α × Nat)
  | [], x => [(x, 1)]
  | (k, n) :: rest, x => if same k x then (k, n + 1) :: rest else (k, n) :: bump rest x

def available : List (α × Nat) → α → Nat
  | [], _ => 0
  | (k, n) :: rest, x => if same k x then n else available rest x

def takeOne : List (α × Nat) → α → Bool × List (α × Nat)
  | [], _ => (false, [])
  | (k, n) :: rest, x =>
    if same k x then (if n > 0 then (true, (k, n - 1) :: rest) else (false, (k, n) :: rest))
    else ((takeOne rest x).1, (k, n) :: (takeOne rest x).2)

variable {same} {dom : α → Prop}

def KeysIn (dom : α → Prop) (counts : List (α × Nat)) : Prop := ∀ c ∈ counts, dom c.1

variable {counts : List (α × Nat)}

lemma KeysIn.bump (h : KeysIn dom counts) (hx : dom x) : KeysIn dom (bump same counts x) := by
  induction counts with
  | nil =>
    intro c hc
    rw [mem_singleton.mp hc]
    exact hx
  | cons c counts ih =>
    have hhead : dom c.1 := h c mem_cons_self
    have htail : KeysIn dom counts := fun d hd => h d (mem_cons_of_mem c hd)
    rw [Multiplicity.bump]
    split_ifs
    · exact forall_mem_cons.mpr ⟨hhead, htail⟩
    · exact forall_mem_cons.mpr ⟨hhead, ih htail⟩

lemma KeysIn.takeOne (h : KeysIn dom counts) (same : α → α → Bool) (x : α) :
    KeysIn dom (takeOne same counts x).2 := by
  induction counts with
  | nil => exact h
  | cons c counts ih =>
    have hhead : dom c.1 := h c mem_cons_self
    have htail : KeysIn dom counts := fun d hd => h d (mem_cons_of_mem c hd)
    rw [Multiplicity.takeOne]
    split_ifs
    · exact forall_mem_cons.mpr ⟨hhead, htail⟩
    · exact forall_mem_cons.mpr ⟨hhead, htail⟩
    · exact forall_mem_cons.mpr ⟨hhead, ih htail⟩

section

variable (h : EquivOn same dom) (hk : KeysIn dom counts) {y : α} (hx : dom x) (hy : dom y)

include h hk hx hy

lemma available_congr (hxy : same x y = true) : available same counts x = available same counts y := by
  induction counts with
  | nil => rfl
  | cons c counts ih =>
    have hc : dom c.1 := hk c mem_cons_self
    rw [available, available, h.comm hc hx, h.comm hc hy, h.congr hx hy hc hxy,
      ih fun d hd => hk d (mem_cons_of_mem c hd)]

lemma available_bump :
    available same (bump same counts y) x = available same counts x + if same y x then 1 else 0 :=
      by
  induction counts with
  | nil => simp [bump, available]
  | cons c counts ih =>
    have hc : dom c.1 := hk c mem_cons_self
    have htail := ih fun d hd => hk d (mem_cons_of_mem c hd)
    rw [bump]
    by_cases hcy : same c.1 y = true
    · rw [if_pos hcy, available, available, h.congr hc hy hx hcy]
      split_ifs <;> rfl
    rw [if_neg hcy, available, available, htail]
    by_cases hcx : same c.1 x = true
    · -- `c` is the entry of `x`, so `y` is not the same as `x`
      simp [hcx, h.apart hc hx hy hcx hcy]
    · rw [if_neg hcx, if_neg hcx]

end

lemma keysIn_foldl_bump (hxs : ∀ y ∈ xs, dom y) : KeysIn dom (xs.foldl (bump same) []) := by
  induction xs using reverseRecOn with
  | nil => exact fun c hc => absurd hc not_mem_nil
  | append_singleton xs y ih =>
    rw [foldl_append]
    exact (ih fun z hz => hxs z (mem_append_left _ hz)).bump (hxs y (by simp))

lemma available_foldl_bump (h : EquivOn same dom) (hxs : ∀ y ∈ xs, dom y) (hx : dom x) :
    available same (xs.foldl (bump same) []) x = xs.countP (same x) := by
  induction xs using reverseRecOn with
  | nil => rfl
  | append_singleton xs y ih =>
    have hy : dom y := hxs y (by simp)
    have hxs' : ∀ z ∈ xs, dom z := fun z hz => hxs z (mem_append_left _ hz)
    rw [foldl_append, countP_append, countP_singleton, ← ih hxs', h.comm hx hy]
    exact available_bump h (keysIn_foldl_bump hxs') hx hy

lemma takeOne_fst (counts : List (α × Nat)) (x : α) :
    (takeOne same counts x).1 = decide (0 < available same counts x) := by
  induction counts with
  | nil => rfl
  | cons c counts ih =>
    rw [takeOne, available]
    split_ifs with hcx hn
    · exact (decide_eq_true hn).symm
    · exact (decide_eq_false hn).symm
    · exact ih

lemma available_takeOne (h : EquivOn same dom) (hk : KeysIn dom counts) {y : α} (hx : dom x)
    (hy : dom y) :
    available same (takeOne same counts y).2 x
      = available same counts x - if same y x then 1 else 0 := by
  induction counts with
  | nil => simp [takeOne, available]
  | cons c counts ih =>
    have hc : dom c.1 := hk c mem_cons_self
    have htail := ih fun d hd => hk d (mem_cons_of_mem c hd)
    rw [takeOne]
    by_cases hcy : same c.1 y = true
    · split_ifs with hn <;> simp only [available, h.congr hc hy hx hcy] <;> split_ifs <;> omega
    rw [if_neg hcy, available, available, htail]
    by_cases hcx : same c.1 x = true
    · simp [hcx, h.apart hc hx hy hcx hcy]
    · rw [if_neg hcx, if_neg hcx]

/-- The elements for which an occurrence was taken, or, without `keep`, the others. -/
def consume {σ : Type} (probe : σ → α → Bool × σ) (keep : Bool) : σ → List α → List α
  | _, [] => []
  | s, x :: xs =>
    if (probe s x).1 = keep then x :: consume probe keep (probe s x).2 xs
    else consume probe keep (probe s x).2 xs

lemma consume_sublist {σ : Type} (probe : σ → α → Bool × σ) (keep : Bool) (s : σ) (xs : List α) :
    (consume probe keep s xs).Sublist xs := by
  induction xs generalizing s with
  | nil => exact Sublist.refl []
  | cons x xs ih =>
    rw [consume]
    split_ifs
    · exact (ih _).cons_cons x
    · exact (ih _).cons x

lemma consume_eq {σ τ : Type} {probe : σ → α → Bool × σ} {probe' : τ → α → Bool × τ} {keep : Bool}
    {r : σ → τ → Prop}
    (hstep : ∀ s t, r s t → ∀ x ∈ xs, (probe s x).1 = (probe' t x).1 ∧ r (probe s x).2 (probe' t x).2) :
    ∀ {s t}, r s t → consume probe keep s xs = consume probe' keep t xs := by
  induction xs with
  | nil => exact fun _ => rfl
  | cons x xs ih =>
    intro s t hst
    obtain ⟨hsame, hnext⟩ := hstep s t hst x mem_cons_self
    have htail := ih (fun s t hst y hy => hstep s t hst y (mem_cons_of_mem x hy)) hnext
    rw [consume, consume, hsame, htail]

lemma countP_consume (h : EquivOn same dom) (hxs : ∀ y ∈ xs, dom y) (hx : dom x) (keep : Bool) :
    ∀ {counts : List (α × Nat)}, KeysIn dom counts →
      (consume (takeOne same) keep counts xs).countP (same x)
        = if keep then min (xs.countP (same x)) (available same counts x)
          else xs.countP (same x) - available same counts x := by
  induction xs with
  | nil => cases keep <;> simp [consume]
  | cons y xs ih =>
    intro counts hk
    have hy : dom y := hxs y mem_cons_self
    have htail := ih (fun z hz => hxs z (mem_cons_of_mem y hz)) (hk.takeOne same y)
    rw [available_takeOne h hk hx hy, h.comm hy hx] at htail
    rw [consume, takeOne_fst, countP_cons]
    by_cases hxy : same x y = true
    · rw [available_congr h hk hy hx (by rw [h.comm hy hx]; exact hxy)]
      cases keep <;> by_cases hpos : 0 < available same counts x <;>
        simp [hpos, hxy] at htail ⊢ <;> omega
    · cases keep <;> by_cases hpos : 0 < available same counts y <;>
        simp [hpos, hxy] at htail ⊢ <;> omega

end NusaDb.Multiplicity
