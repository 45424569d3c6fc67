import NusaDb.Lib.Fallible
import NusaDb.Rls.Plan

/-!
# Filters that an index range answers

A sort is dropped for a capped index scan only where the filter is exactly the range the index was
given. Then every row of the range passes it, so the cap counts no row the filter would drop.
-/

namespace NusaDb.Rls

open List Option Bool NusaDb.Sql KeyPart

variable {F O T X N E : Type} (pl : Planner F O T X N E)

/-! ## Conjuncts -/

lemma applyAnd_eq_true {l r : SqlValue F O} :
    applyAnd l r = .bool true ↔ l = .bool true ∧ r = .bool true := by
  constructor
  · intro h
    unfold applyAnd at h
    split at h <;> simp_all
  · rintro ⟨rfl, rfl⟩
    rfl

variable {row : Row F O}

lemma eval_and_eq_true {left right : TypedExpr F O X N} :
    eval pl.toEvaluator row (.binary left .and right) = .ok (.bool true) ↔
      eval pl.toEvaluator row left = .ok (.bool true) ∧
        eval pl.toEvaluator row right = .ok (.bool true) := by
  rw [eval_binary_eq_ok]
  constructor
  · rintro ⟨l, r, hl, hr, happly⟩
    obtain ⟨rfl, rfl⟩ := applyAnd_eq_true.mp (Except.ok.inj happly)
    exact ⟨hl, hr⟩
  · rintro ⟨hl, hr⟩
    exact ⟨_, _, hl, hr, rfl⟩

lemma eval_eq_true_iff (row : Row F O) (e : TypedExpr F O X N) :
    eval pl.toEvaluator row e = .ok (.bool true) ↔
      ∀ c ∈ splitConjuncts e, eval pl.toEvaluator row c = .ok (.bool true) := by
  fun_induction splitConjuncts e with
  | case1 left right ihl ihr =>
    rw [eval_and_eq_true, ihl, ihr]
    exact forall_mem_append.symm
  | case2 e _ => simp

variable {e c : TypedExpr F O X N}

lemma splitConjuncts_of_mem (h : c ∈ splitConjuncts e) : splitConjuncts c = [c] := by
  fun_induction splitConjuncts e with
  | case1 left right ihl ihr =>
    rcases mem_append.mp h with h | h
    · exact ihl h
    · exact ihr h
  | case2 e he =>
    cases mem_singleton.mp h
    rw [splitConjuncts]
    exact he

lemma splitConjuncts_foldl (rest : List (TypedExpr F O X N)) :
    ∀ acc : TypedExpr F O X N, (∀ c ∈ rest, splitConjuncts c = [c]) →
      splitConjuncts (rest.foldl (fun acc next => .binary acc .and next) acc) =
        splitConjuncts acc ++ rest := by
  induction rest with
  | nil =>
    intro acc _
    exact (append_nil _).symm
  | cons c rest ih =>
    intro acc h
    rw [foldl_cons, ih _ fun d hd => h d (mem_cons_of_mem c hd), splitConjuncts,
      h c mem_cons_self, append_assoc, singleton_append]

lemma splitConjuncts_rebuildAnd {e' : TypedExpr F O X N}
    (h : rebuildAnd (splitConjuncts e) = some e') : splitConjuncts e' = splitConjuncts e := by
  cases hsplit : splitConjuncts e with
  | nil =>
    rw [hsplit] at h
    cases h
  | cons c rest =>
    have hmem : ∀ d ∈ c :: rest, splitConjuncts d = [d] := by
      intro d hd
      rw [← hsplit] at hd
      exact splitConjuncts_of_mem hd
    rw [hsplit] at h
    cases h
    rw [splitConjuncts_foldl rest c fun d hd => hmem d (mem_cons_of_mem c hd),
      hmem c mem_cons_self, singleton_append]

lemma splitConjuncts_ne_nil (e : TypedExpr F O X N) : splitConjuncts e ≠ [] := by
  fun_induction splitConjuncts e with
  | case1 left right ihl _ => exact append_ne_nil_of_left_ne_nil ihl _
  | case2 e _ => exact cons_ne_nil _ _

/-! ## What a conjunct asks of a column -/

/-- The encoded keys of a column stand in the order of its values and of the literals brought to its
type (`is_index_safe_value`). -/
structure KeysInOrder : Prop where
  encode : ∀ ty value bound x, isIndexSafeValue pl value → coerceIndexBound pl value ty = some bound →
    pl.hasType ty x →
    (pl.encodeIndexKey [x] < pl.encodeIndexKey [bound] ↔ pl.types.compare x value = .lt) ∧
    (pl.encodeIndexKey [bound] < pl.encodeIndexKey [x] ↔ pl.types.compare x value = .gt)
  swap : ∀ ty value bound x, isIndexSafeValue pl value → coerceIndexBound pl value ty = some bound →
    pl.hasType ty x → pl.types.compare value x = (pl.types.compare x value).swap

def LowerMet (x : SqlValue F O) : SqlValue F O × Bool → Prop
  | (v, true) => pl.types.compare x v ≠ .lt
  | (v, false) => pl.types.compare x v = .gt

def UpperMet (x : SqlValue F O) : SqlValue F O × Bool → Prop
  | (v, true) => pl.types.compare x v ≠ .gt
  | (v, false) => pl.types.compare x v = .lt

def opSides (op : BinaryOp X) (v : SqlValue F O) : Option (RangeSide F O × RangeSide F O) :=
  match op with
  | .eq => some (some (v, true), some (v, true))
  | .gt => some (some (v, false), none)
  | .gtEq => some (some (v, true), none)
  | .lt => some (none, some (v, false))
  | .ltEq => some (none, some (v, true))
  | _ => none

/-- A conjunct that bounds `col` by literals that its type admits, and nothing else. -/
inductive Bounds (col : Nat) (ty : ColumnType T) (c : TypedExpr F O X N) :
    RangeSide F O → RangeSide F O → Prop
  | between {low high : SqlValue F O}
      (h : (KeyPart.column col).betweenBounds pl c = some (low, high))
      (hlow : (coerceIndexBound pl low ty).isSome) (hhigh : (coerceIndexBound pl high ty).isSome) :
      Bounds col ty c (some (low, true)) (some (high, true))
  | comparison {op : BinaryOp X} {v : SqlValue F O} {lo hi : RangeSide F O}
      (hnone : (KeyPart.column col).betweenBounds pl c = none)
      (h : (KeyPart.column col).opLiteral pl c = some (op, v)) (hsafe : isIndexSafeValue pl v)
      (hv : (coerceIndexBound pl v ty).isSome) (hop : opSides op v = some (lo, hi)) :
      Bounds col ty c lo hi

variable {col : Nat}

lemma is_column (h : (column col).is pl e) : e = .column col := by
  unfold is at h
  split at h
  next hpart => cases hpart; rw [beq_iff_eq.mp h]
  next => cases h
  next hpart => cases hpart

variable {op : BinaryOp X} {v : SqlValue F O}

lemma opLiteral_column (h : (column col).opLiteral pl c = some (op, v)) :
    c = .binary (.column col) op (.literal v) ∨ ∃ op', flipComparison op' = some op ∧ c = .binary
      (.literal v) op' (.column col) := by
  unfold opLiteral at h
  split at h
  next left op' value =>
    split at h
    next his =>
      cases h
      exact .inl (is_column pl his ▸ rfl)
    next =>
      split at h
      next value' =>
        split at h
        next his => exact absurd (is_column pl his) (by simp)
        next => cases h
      next => cases h
  next value op' right _ =>
    split at h
    next his =>
      obtain ⟨flipped, hflip, hpair⟩ := map_eq_some_iff.mp h
      cases hpair
      exact .inr ⟨op', hflip, is_column pl his ▸ rfl⟩
    next => cases h
  next => cases h

lemma betweenBounds_column {low high : SqlValue F O}
    (h : (column col).betweenBounds pl c = some (low, high)) :
    c = .between (.column col) (.literal low) (.literal high) false false ∧ isIndexSafeValue pl low
      ∧ isIndexSafeValue pl high := by
  unfold betweenBounds at h
  split at h
  next operand l h' =>
    split at h
    next hall =>
      cases h
      rw [and_eq_true, and_eq_true] at hall
      exact ⟨is_column pl hall.1.1 ▸ rfl, hall.1.2, hall.2⟩
    next => cases h
  next => cases h

lemma ne_null_of_isIndexSafeValue (h : isIndexSafeValue pl v) : v ≠ .null := by
  rintro rfl
  cases h

lemma applyComparison_of_ne_null {test : Ordering → Bool} {l r : SqlValue F O} (hl : l ≠ .null)
    (hr : r ≠ .null) :
    applyComparison pl.toEvaluator test l r = .bool (test (pl.types.compare l r)) := by
  unfold applyComparison
  split
  next => exact absurd rfl hl
  next => exact absurd rfl hr
  next => rfl

variable {x : SqlValue F O} {lo hi : RangeSide F O}

lemma applyBinary_of_met (hx : x ≠ .null) (hv : v ≠ .null) (hop : opSides op v = some (lo, hi))
    (hlo : ∀ b, lo = some b → LowerMet pl x b) (hhi : ∀ b, hi = some b → UpperMet pl x b) :
    applyBinary pl.toEvaluator op x v = .ok (.bool true) := by
  have hholds {test : Ordering → Bool} (h : test (pl.types.compare x v) = true) :
      (.ok (applyComparison pl.toEvaluator test x v) : Except E _) = .ok (.bool true) := by
    rw [applyComparison_of_ne_null pl hx hv, h]
  cases op with
  | eq =>
    cases hop
    have h1 := hlo _ rfl
    have h2 := hhi _ rfl
    apply hholds
    cases h : pl.types.compare x v with
    | lt => exact absurd h h1
    | eq => rfl
    | gt => exact absurd h h2
  | gt =>
    cases hop
    exact hholds (beq_iff_eq.mpr (hlo _ rfl))
  | gtEq =>
    cases hop
    exact hholds (bne_iff_ne.mpr (hlo _ rfl))
  | lt =>
    cases hop
    exact hholds (beq_iff_eq.mpr (hhi _ rfl))
  | ltEq =>
    cases hop
    exact hholds (bne_iff_ne.mpr (hhi _ rfl))
  | and | or | notEq | other => cases hop

lemma applyBinary_flip {op' : BinaryOp X} (hx : x ≠ .null) (hv : v ≠ .null)
    (hswap : pl.types.compare v x = (pl.types.compare x v).swap)
    (hflip : flipComparison op' = some op) :
    applyBinary pl.toEvaluator op' v x = applyBinary pl.toEvaluator op x v := by
  cases op' with
  | eq | lt | ltEq | gt | gtEq =>
    cases hflip
    rw [applyBinary, applyBinary, applyComparison_of_ne_null pl hx hv,
      applyComparison_of_ne_null pl hv hx, hswap]
    cases pl.types.compare x v <;> rfl
  | and | or | notEq | other => cases hflip

structure Cell (col : Nat) (ty : ColumnType T) (row : Row F O) (x : SqlValue F O) : Prop where
  get : row[col]? = some x
  notNull : x ≠ .null
  hasType : pl.hasType ty x

variable {ty : ColumnType T}

lemma Cell.eval (h : Cell pl col ty row x) : eval pl.toEvaluator row (.column col) = .ok x := by
  rw [Rls.eval, h.get]

lemma Bounds.eval (hk : KeysInOrder pl) (h : Bounds pl col ty c lo hi)
    (hcell : Cell pl col ty row x) (hlo : ∀ b, lo = some b → LowerMet pl x b)
    (hhi : ∀ b, hi = some b → UpperMet pl x b) :
    Rls.eval pl.toEvaluator row c = .ok (.bool true) := by
  cases h with
  | @between low high hbetween hlow hhigh =>
    obtain ⟨rfl, hsafeLow, hsafeHigh⟩ := betweenBounds_column pl hbetween
    refine (eval_between_eq_ok _).mpr ⟨x, low, high, hcell.eval pl, rfl, rfl, ?_⟩
    have h1 : pl.types.compare x low ≠ .lt := hlo _ rfl
    have h2 : pl.types.compare x high ≠ .gt := hhi _ rfl
    unfold applyBetween
    split
    next => exact absurd rfl hcell.notNull
    next => exact absurd rfl (ne_null_of_isIndexSafeValue pl hsafeLow)
    next => exact absurd rfl (ne_null_of_isIndexSafeValue pl hsafeHigh)
    next => simp [h1, h2]
  | @comparison op v _ _ hnone hliteral hsafe hv hop =>
    have hvn := ne_null_of_isIndexSafeValue pl hsafe
    have hmet := applyBinary_of_met pl hcell.notNull hvn hop hlo hhi
    rcases opLiteral_column pl hliteral with rfl | ⟨op', hflip, rfl⟩
    · exact (eval_binary_eq_ok _).mpr ⟨x, v, hcell.eval pl, rfl, hmet⟩
    obtain ⟨bound, hbound⟩ := isSome_iff_exists.mp hv
    refine (eval_binary_eq_ok _).mpr ⟨v, x, rfl, hcell.eval pl, ?_⟩
    rw [applyBinary_flip pl hcell.notNull hvn (hk.swap ty v bound x hsafe hbound hcell.hasType) hflip]
    exact hmet

lemma opSides_of_opBounds {n : Nat × Nat} (v : SqlValue F O) (h : opBounds op = some n) :
    ∃ lo hi, opSides op v = some (lo, hi) ∧ n = (lo.toList.length, hi.toList.length) := by
  cases op with
  | eq | gt | gtEq | lt | ltEq => exact ⟨_, _, rfl, (some.inj h).symm⟩
  | and | or | notEq | other => cases h

lemma bounds_of_rangeSides {n : Nat × Nat} (h : rangeSides pl col ty c = some n) :
    ∃ lo hi, Bounds pl col ty c lo hi ∧ n = (lo.toList.length, hi.toList.length) := by
  unfold rangeSides at h
  split at h
  next low high hbetween =>
    split at h
    next hboth =>
      cases h
      rw [and_eq_true] at hboth
      exact ⟨_, _, .between hbetween hboth.1 hboth.2, rfl⟩
    next => cases h
  next hnone =>
    split at h
    next op v hliteral =>
      split at h
      next husable =>
        rw [and_eq_true] at husable
        obtain ⟨lo, hi, hop, hn⟩ := opSides_of_opBounds v h
        exact ⟨lo, hi, .comparison hnone hliteral husable.1 husable.2 hop, hn⟩
      next => cases h
    next => cases h

/-! ## The range that the conjuncts give -/

def IsEquality (col : Nat) (c : TypedExpr F O X N) : Prop :=
  (KeyPart.column col).betweenBounds pl c = none ∧
    ∃ v, (KeyPart.column col).opLiteral pl c = some (.eq, v)

lemma keyPartStep_of_bounds (h : Bounds pl col ty c lo hi) (hne : ¬IsEquality pl col c)
    (stats : Option (ScanStats F O X N)) (found : ColumnBounds F O) :
    (keyPartStep pl (.column col) stats found c).eq = found.eq ∧
      (keyPartStep pl (.column col) stats found c).lo = found.lo.or lo ∧
      (keyPartStep pl (.column col) stats found c).hi = found.hi.or hi := by
  cases h with
  | between h _ _ =>
    rw [keyPartStep, h]
    exact ⟨rfl, rfl, rfl⟩
  | @comparison op v _ _ hnone h hsafe _ hop =>
    rw [keyPartStep, hnone, h]
    simp only [hsafe, if_true]
    cases op with
    | eq => exact absurd ⟨hnone, v, h⟩ hne
    | gt | gtEq | lt | ltEq =>
      cases hop
      simp [ColumnBounds.add]
    | and | or | notEq | other => cases hop

/-- The conjuncts bound the column one by one: the sides `los` and `his` in order. -/
structure AllBounds (col : Nat) (ty : ColumnType T) (cs : List (TypedExpr F O X N))
    (sides : List (RangeSide F O × RangeSide F O)) : Prop where
  each : List.Forall₂ (fun c s => Bounds pl col ty c s.1 s.2) cs sides
  lower : (sides.filterMap (·.1)).length ≤ 1
  upper : (sides.filterMap (·.2)).length ≤ 1

lemma Bounds.sides (h : Bounds pl col ty c lo hi) :
    1 ≤ lo.toList.length + hi.toList.length ∧
      (IsEquality pl col c → lo.toList.length + hi.toList.length = 2) := by
  cases h with
  | between h _ _ => exact ⟨Nat.le_add_left 1 1, fun _ => rfl⟩
  | @comparison op v _ _ hnone h hsafe _ hop =>
    refine ⟨?_, ?_⟩
    · cases op <;> cases hop <;> simp
    · rintro ⟨-, v', heq⟩
      rw [h] at heq
      cases heq
      cases hop
      rfl

variable {cs : List (TypedExpr F O X N)} {sides : List (RangeSide F O × RangeSide F O)}

lemma length_filterMap_cons {α β : Type} (f : α → Option β) (a : α) (l : List α) :
    ((a :: l).filterMap f).length = (f a).toList.length + (l.filterMap f).length := by
  cases h : f a <;> simp [h, add_comm]

lemma head?_filterMap_cons {α β : Type} (f : α → Option β) (a : α) (l : List α) :
    ((a :: l).filterMap f).head? = (f a).or (l.filterMap f).head? := by
  cases h : f a <;> simp [h]

/-- If no conjunct is an equality, each side of the range is the first one given. -/
lemma foldl_keyPartStep (h : Forall₂ (fun c s => Bounds pl col ty c s.1 s.2) cs sides)
    (hne : ∀ c ∈ cs, ¬IsEquality pl col c) (stats : Option (ScanStats F O X N)) :
    ∀ found : ColumnBounds F O,
      (cs.foldl (keyPartStep pl (.column col) stats) found).eq = found.eq ∧
      (cs.foldl (keyPartStep pl (.column col) stats) found).lo =
        found.lo.or (sides.filterMap (·.1)).head? ∧
      (cs.foldl (keyPartStep pl (.column col) stats) found).hi =
        found.hi.or (sides.filterMap (·.2)).head? := by
  induction h with
  | nil =>
    intro found
    exact ⟨rfl, (or_none).symm, (or_none).symm⟩
  | @cons c s cs sides hhead _ ih =>
    intro found
    obtain ⟨heq, hlo, hhi⟩ := keyPartStep_of_bounds pl hhead (hne c mem_cons_self) stats found
    obtain ⟨ieq, ilo, ihi⟩ := ih (fun d hd => hne d (mem_cons_of_mem c hd))
      (keyPartStep pl (.column col) stats found c)
    rw [foldl_cons, head?_filterMap_cons, head?_filterMap_cons, ← Option.or_assoc,
      ← Option.or_assoc, ← hlo, ← hhi]
    exact ⟨ieq.trans heq, ilo, ihi⟩

lemma exists_sides {counts : List (Nat × Nat)} (h : cs.mapM (rangeSides pl col ty) = some counts) :
    ∃ sides : List (RangeSide F O × RangeSide F O),
      Forall₂ (fun c s => Bounds pl col ty c s.1 s.2) cs sides ∧
      (sides.filterMap (·.1)).length = (counts.map (·.1)).sum ∧
      (sides.filterMap (·.2)).length = (counts.map (·.2)).sum := by
  induction Fallible.mapM_eq_some.mp h with
  | nil => exact ⟨[], .nil, rfl, rfl⟩
  | cons hn hrest ih =>
    obtain ⟨lo, hi, hbounds, rfl⟩ := bounds_of_rangeSides pl hn
    obtain ⟨sides, hsides, hlower, hupper⟩ := ih (Fallible.mapM_eq_some.mpr hrest)
    refine ⟨(lo, hi) :: sides, .cons hbounds hsides, ?_, ?_⟩
    · rw [length_filterMap_cons, hlower, map_cons, sum_cons]
    · rw [length_filterMap_cons, hupper, map_cons, sum_cons]

variable {columns : List (Column T)} {predicate : TypedExpr F O X N}

lemma allBounds_of_exact {c : Column T} (hcol : columns[col]? = some c)
    (h : predicateIsExactlyTheIndexRange pl columns predicate col) :
    ∃ sides, AllBounds pl col c.ty (splitConjuncts predicate) sides := by
  rw [predicateIsExactlyTheIndexRange, hcol] at h
  cases hcounts : (splitConjuncts predicate).mapM (rangeSides pl col c.ty) with
  | none =>
    simp only [hcounts] at h
    cases h
  | some counts =>
    simp only [hcounts, decide_eq_true_eq] at h
    obtain ⟨sides, hsides, hlower, hupper⟩ := exists_sides pl hcounts
    exact ⟨sides, hsides, hlower ▸ h.1, hupper ▸ h.2⟩

lemma length_le_sides (h : Forall₂ (fun c s => Bounds pl col ty c s.1 s.2) cs sides) :
    cs.length ≤ (sides.filterMap (·.1)).length + (sides.filterMap (·.2)).length ∧
      ((∃ c ∈ cs, IsEquality pl col c) →
        cs.length < (sides.filterMap (·.1)).length + (sides.filterMap (·.2)).length) := by
  induction h with
  | nil =>
    refine ⟨Nat.zero_le _, ?_⟩
    rintro ⟨c, hc, -⟩
    cases hc
  | @cons c s cs sides hhead _ ih =>
    obtain ⟨hone, htwo⟩ := hhead.sides pl
    rw [length_filterMap_cons, length_filterMap_cons, length_cons]
    refine ⟨by omega, ?_⟩
    rintro ⟨d, hd, heq⟩
    rcases mem_cons.mp hd with rfl | hd
    · have := htwo heq
      omega
    · have := ih.2 ⟨d, hd, heq⟩
      omega

lemma AllBounds.eq_singleton (h : AllBounds pl col ty cs sides) (hc : c ∈ cs)
    (heq : IsEquality pl col c) : cs = [c] := by
  have hlt := (length_le_sides pl h.each).2 ⟨c, hc, heq⟩
  have hlower := h.lower
  have hupper := h.upper
  cases cs with
  | nil => cases hc
  | cons d cs =>
    cases cs with
    | nil => rw [mem_singleton.mp hc]
    | cons d' cs =>
      rw [length_cons, length_cons] at hlt
      omega

/-! ## The scan -/

variable {filter : TypedExpr F O X N} {stats : Option (ScanStats F O X N)}

lemma exists_candidate {indexes : List (IndexMeta F O T X N)} {scan : IndexScan F O T X N}
    (h : tryIndexScan pl columns indexes filter stats = some scan) :
    ∃ index ∈ indexes, ∃ cand, candidate pl columns filter stats index = some cand ∧
      cand.scan = scan := by
  have hpick : ∀ best c, pickBetter pl best c = some c ∨ pickBetter pl best c = best := by
    intro best c
    unfold pickBetter
    split
    · exact .inl rfl
    · exact ite_eq_or_eq _ _ _
  have hfold : ∀ (cands : List (Candidate F O T X N)) (best : Option (Candidate F O T X N)) cand,
      cands.foldl (pickBetter pl) best = some cand → best = some cand ∨ cand ∈ cands := by
    intro cands
    induction cands with
    | nil =>
      intro best cand h
      exact .inl h
    | cons c cands ih =>
      intro best cand h
      rcases ih (pickBetter pl best c) cand h with h | h
      · rcases hpick best c with hc | hc
        · cases hc.symm.trans h
          exact .inr mem_cons_self
        · exact .inl (hc.symm.trans h)
      · exact .inr (mem_cons_of_mem c h)
  obtain ⟨cand, hcand, hscan⟩ := map_eq_some_iff.mp h
  rcases hfold _ none cand hcand with h | h
  · cases h
  · obtain ⟨index, hindex, hc⟩ := mem_filterMap.mp h
    exact ⟨index, hindex, cand, hc, hscan⟩

variable {index : IndexMeta F O T X N} {cand : Candidate F O T X N}

lemma candidate_column {c : Column T} (hkey : index.key = .columns [col])
    (hcol : columns[col]? = some c) (h : candidate pl columns filter stats index = some cand) :
    cand.scan.index = index ∧ cand.scan.keyColumns = 1 ∧
      (∀ v bound, (keyPartBounds pl (splitConjuncts filter) (.column col) stats).eq = some v →
        coerceIndexBound pl v c.ty = some bound →
        cand.scan.lo = .included [bound] ∧ cand.scan.hi = .included [bound]) ∧
      ((keyPartBounds pl (splitConjuncts filter) (.column col) stats).eq = none →
        cand.scan.lo = sideBound [] (coerceSide pl c.ty
          (keyPartBounds pl (splitConjuncts filter) (.column col) stats).lo) ∧
        cand.scan.hi = sideBound [] (coerceSide pl c.ty
          (keyPartBounds pl (splitConjuncts filter) (.column col) stats).hi)) := by
  have hparts : index.parts columns = [(.column col, c.ty)] := by
    simp [IndexMeta.parts, hkey, hcol]
  rw [candidate, hparts] at h
  split at h
  next => cases h
  next hnonempty =>
    split at h
    next => cases h
    cases h
    refine ⟨rfl, rfl, ?_, ?_⟩
    · intro v bound hv hbound
      simp [boundParts, hv, hbound, sideBound]
    · intro hnone
      simp only [boundParts, hnone, bind_none] at hnonempty ⊢
      split
      next => exact ⟨rfl, rfl⟩
      next hsides =>
        rw [if_neg hsides] at hnonempty
        simp at hnonempty

section

variable (hk : KeysInOrder pl) {inc : Bool} (hsafe : isIndexSafeValue pl v)
  (hv : (coerceIndexBound pl v ty).isSome) (hx : pl.hasType ty x)

include hk hsafe hv hx

lemma lowerMet_of_below {lo : Sql.Bound (List (SqlValue F O))}
    (hlo : lo = sideBound [] (coerceSide pl ty (some (v, inc))))
    (hin : (encodeLo pl 1 lo).below (pl.encodeIndexKey [x])) : LowerMet pl x (v, inc) := by
  obtain ⟨bound, hbound⟩ := isSome_iff_exists.mp hv
  have hcmp := hk.encode ty v bound x hsafe hbound hx
  subst hlo
  cases inc with
  | true =>
    have hle : pl.encodeIndexKey [bound] ≤ pl.encodeIndexKey [x] := by
      simpa [coerceSide, hbound, sideBound, encodeLo, Sql.Bound.below] using hin
    show pl.types.compare x v ≠ .lt
    exact fun h => not_lt.mpr hle (hcmp.1.mpr h)
  | false =>
    have hlt : pl.encodeIndexKey [bound] < pl.encodeIndexKey [x] := by
      simpa [coerceSide, hbound, sideBound, encodeLo, Sql.Bound.below] using hin
    exact hcmp.2.mp hlt

lemma upperMet_of_above {hi : Sql.Bound (List (SqlValue F O))}
    (hhi : hi = sideBound [] (coerceSide pl ty (some (v, inc))))
    (hin : (encodeHi pl 1 hi).above (pl.encodeIndexKey [x])) : UpperMet pl x (v, inc) := by
  obtain ⟨bound, hbound⟩ := isSome_iff_exists.mp hv
  have hcmp := hk.encode ty v bound x hsafe hbound hx
  subst hhi
  cases inc with
  | true =>
    have hle : pl.encodeIndexKey [x] ≤ pl.encodeIndexKey [bound] := by
      simpa [coerceSide, hbound, sideBound, encodeHi, Sql.Bound.above] using hin
    show pl.types.compare x v ≠ .gt
    exact fun h => not_lt.mpr hle (hcmp.2.mpr h)
  | false =>
    have hlt : pl.encodeIndexKey [x] < pl.encodeIndexKey [bound] := by
      simpa [coerceSide, hbound, sideBound, encodeHi, Sql.Bound.above] using hin
    exact hcmp.1.mp hlt

end

lemma Bounds.usable (h : Bounds pl col ty c lo hi) (b : SqlValue F O × Bool)
    (hb : lo = some b ∨ hi = some b) :
    isIndexSafeValue pl b.1 ∧ (coerceIndexBound pl b.1 ty).isSome := by
  cases h with
  | between h hlow hhigh =>
    obtain ⟨-, hsafeLow, hsafeHigh⟩ := betweenBounds_column pl h
    rcases hb with hb | hb
    · cases hb
      exact ⟨hsafeLow, hlow⟩
    · cases hb
      exact ⟨hsafeHigh, hhigh⟩
  | @comparison op v _ _ _ _ hsafe hv hop =>
    have hval : b.1 = v := by
      cases op <;> cases hop <;> rcases hb with hb | hb <;> cases hb <;> rfl
    rw [hval]
    exact ⟨hsafe, hv⟩

lemma eval_of_inRange_equality (hk : KeysInOrder pl) {c : Column T}
    (hkey : index.key = .columns [col]) (hcol : columns[col]? = some c)
    (hcand : candidate pl columns filter stats index = some cand) {conjunct : TypedExpr F O X N}
    (hsplit : splitConjuncts filter = [conjunct]) (hb : Bounds pl col c.ty conjunct lo hi)
    (heq : IsEquality pl col conjunct) (hcell : Cell pl col c.ty row x)
    (hin : cand.scan.inRange pl row) : eval pl.toEvaluator row conjunct = .ok (.bool true) := by
  obtain ⟨hindex, hkeyColumns, hpoint, -⟩ := candidate_column pl hkey hcol hcand
  obtain ⟨hnone, v, hliteral⟩ := heq
  have hkeyOf : cand.scan.encodedKey pl row = pl.encodeIndexKey [x] := by
    simp [IndexScan.encodedKey, hindex, IndexMeta.keyOf, hkey, hcell.get]
  cases hb with
  | between h _ _ =>
    rw [hnone] at h
    cases h
  | @comparison op w _ _ _ h hsafe hv hop =>
    rw [hliteral] at h
    cases h
    obtain ⟨bound, hbound⟩ := isSome_iff_exists.mp hv
    have hfound : (keyPartBounds pl (splitConjuncts filter) (.column col) stats).eq = some v := by
      simp [hsplit, keyPartBounds, keyPartStep, hnone, hliteral, hsafe, ColumnBounds.add]
    obtain ⟨hlo, hhi⟩ := hpoint v bound hfound hbound
    rw [IndexScan.inRange, and_eq_true, hkeyOf, hkeyColumns, hlo, hhi] at hin
    have hside : (Sql.Bound.included [bound] : Sql.Bound (List (SqlValue F O))) =
        sideBound [] (coerceSide pl c.ty (some (v, true))) := by
      simp [coerceSide, hbound, sideBound]
    refine Bounds.eval pl hk (.comparison hnone hliteral hsafe hv rfl) hcell ?_ ?_
    · rintro b hb
      cases hb
      exact lowerMet_of_below pl hk hsafe hv hcell.hasType hside hin.1
    · rintro b hb
      cases hb
      exact upperMet_of_above pl hk hsafe hv hcell.hasType hside hin.2

lemma head?_of_mem {α : Type} {l : List α} {a : α} (hlen : l.length ≤ 1) (ha : a ∈ l) :
    l.head? = some a := by
  cases l with
  | nil => cases ha
  | cons b l =>
    have hnil : l = [] := eq_nil_of_length_eq_zero (by simpa using hlen)
    subst hnil
    rw [mem_singleton.mp ha, head?_cons]

/-- The scan of an exact range finds only rows that satisfy the predicate. -/
lemma eval_of_inRange (hk : KeysInOrder pl) {c : Column T} (hkey : index.key = .columns [col])
    (hcol : columns[col]? = some c) (hnotNull : c.nullable = false)
    (hcand : candidate pl columns filter stats index = some cand)
    (hsplit : splitConjuncts predicate = splitConjuncts filter)
    (hexact : predicateIsExactlyTheIndexRange pl columns predicate col)
    (hrow : RowOf pl columns row) (hin : cand.scan.inRange pl row) :
    eval pl.toEvaluator row predicate = .ok (.bool true) := by
  obtain ⟨sides, hall⟩ := allBounds_of_exact pl hcol hexact
  -- the cell of the ordering column
  obtain ⟨x, hx⟩ : ∃ x, row[col]? = some x := by
    have hlt : col < columns.length := (List.getElem?_eq_some_iff.mp hcol).1
    rw [← hrow.length] at hlt
    exact ⟨_, getElem?_eq_getElem hlt⟩
  have hne := hrow.notNull col c x hcol hnotNull hx
  have hcell : Cell pl col c.ty row x := ⟨hx, hne, (hrow.typed col c x hcol hx).resolve_left hne⟩
  rw [eval_eq_true_iff]
  intro conjunct hmem
  obtain ⟨s, hs, hbounds⟩ : ∃ s ∈ sides, Bounds pl col c.ty conjunct s.1 s.2 := by
    obtain ⟨i, hi, rfl⟩ := getElem_of_mem hmem
    have hlen := hall.each.length_eq
    exact ⟨sides[i], getElem_mem _, hall.each.get hi (hlen ▸ hi)⟩
  by_cases hequality : ∃ d ∈ splitConjuncts predicate, IsEquality pl col d
  · obtain ⟨d, hd, heq⟩ := hequality
    have hsingle := hall.eq_singleton pl hd heq
    rw [hsingle] at hmem
    cases mem_singleton.mp hmem
    exact eval_of_inRange_equality pl hk hkey hcol hcand (hsplit ▸ hsingle) hbounds heq hcell hin
  have hne : ∀ d ∈ splitConjuncts predicate, ¬IsEquality pl col d :=
    fun d hd heq => hequality ⟨d, hd, heq⟩
  obtain ⟨hindex, hkeyColumns, -, hrange⟩ := candidate_column pl hkey hcol hcand
  obtain ⟨heq, hlo, hhi⟩ :=
    foldl_keyPartStep pl hall.each hne stats ⟨none, none, none, pl.one, pl.one⟩
  rw [hsplit] at heq hlo hhi
  obtain ⟨hscanLo, hscanHi⟩ := hrange heq
  have hkeyOf : cand.scan.encodedKey pl row = pl.encodeIndexKey [x] := by
    simp [IndexScan.encodedKey, hindex, IndexMeta.keyOf, hkey, hcell.get]
  rw [IndexScan.inRange, and_eq_true, hkeyOf, hkeyColumns] at hin
  refine hbounds.eval pl hk hcell ?_ ?_
  · intro b hb
    obtain ⟨hsafe, hv⟩ := hbounds.usable pl b (.inl hb)
    refine lowerMet_of_below pl hk hsafe hv hcell.hasType ?_ hin.1
    rw [hscanLo]
    congr 2
    rw [keyPartBounds, hlo, none_or]
    exact head?_of_mem hall.lower (mem_filterMap.mpr ⟨s, hs, hb⟩)
  · intro b hb
    obtain ⟨hsafe, hv⟩ := hbounds.usable pl b (.inr hb)
    refine upperMet_of_above pl hk hsafe hv hcell.hasType ?_ hin.2
    rw [hscanHi]
    congr 2
    rw [keyPartBounds, hhi, none_or]
    exact head?_of_mem hall.upper (mem_filterMap.mpr ⟨s, hs, hb⟩)

end NusaDb.Rls
