import NusaDb.Agg.Accumulator

/-!
# Running totals that start over

`fold_value` keeps a decimal total as an `Option`, `none` standing both for "nothing seen" and for
"overflowed". So a term after an overflow is added to zero, and the total is that of the values
since the last overflow (`sinceOverflow`).
-/

namespace NusaDb.Agg

open List Sql
open Decimal (FitsUnits)
open Decimal

/-- The number a finite decimal contributes, `⊤` for a `NaN`. -/
def lift (f : Decimal → ℚ) (d : Decimal) : WithTop ℚ := if d.isNan then ⊤ else (f d : WithTop ℚ)

variable {ds : List Decimal}

lemma sum_lift_finite {f : Decimal → ℚ} (h : ∀ d ∈ ds, d.isNan = false) :
    (ds.map (lift f)).sum = (((ds.map f).sum : ℚ) : WithTop ℚ) := by
  induction ds with
  | nil => rfl
  | cons d ds ih =>
    rw [map_cons, sum_cons, ih fun e he => h e (mem_cons_of_mem d he), lift,
      h d mem_cons_self, map_cons, sum_cons]
    rfl

lemma sum_lift_nan {f : Decimal → ℚ} {d : Decimal} (hd : d ∈ ds) (hn : d.isNan = true) :
    (ds.map (lift f)).sum = ⊤ := by
  induction ds with
  | nil => cases hd
  | cons e ds ih =>
    rw [map_cons, sum_cons]
    obtain rfl | hd := mem_cons.mp hd
    · simp [lift, hn]
    · rw [ih hd, add_top]

def segScale (seg : List Decimal) : Nat := seg.foldl (fun s d => max s d.scale) 0

lemma segScale_append (seg : List Decimal) (d : Decimal) :
    segScale (seg ++ [d]) = max (segScale seg) d.scale := by
  simp [segScale]

variable {seg : List Decimal}

/-- Adding one more term to the sum of `seg` overflows: the term has, or, in units of the larger
scale, the sum so far, the term or the new sum is no `i128`. -/
def Overflows (seg : List Decimal) : Option Decimal → Prop
  | none => True
  | some d => (∀ e ∈ seg, e.isNan = false) ∧ d.isNan = false ∧
      ¬ (FitsUnits ((seg.map Decimal.toRat).sum * 10 ^ max (segScale seg) d.scale) ∧
        FitsUnits (d.toRat * 10 ^ max (segScale seg) d.scale) ∧
        FitsUnits (((seg.map Decimal.toRat).sum + d.toRat) * 10 ^ max (segScale seg) d.scale))

instance (seg : List Decimal) : (t : Option Decimal) → Decidable (Overflows seg t)
  | none => .isTrue trivial
  | some _ => inferInstanceAs (Decidable (_ ∧ _))

/-- `t` is the sum of `seg`, as the code holds it. -/
structure IsTotalOf (seg : List Decimal) (t : Decimal) : Prop where
  valid : t.Valid
  value : t.value = (seg.map (lift Decimal.toRat)).sum
  finite : (∀ d ∈ seg, d.isNan = false) → t.isNan = false ∧ t.scale = segScale seg

lemma isTotalOf_nil : IsTotalOf [] .zero where
  valid := valid_zero
  value := value_zero
  finite := fun _ => ⟨rfl, rfl⟩

namespace IsTotalOf

variable {seg : List Decimal} {t d : Decimal} (h : IsTotalOf seg t)

include h

lemma toRat (hfinite : ∀ d ∈ seg, d.isNan = false) : t.toRat = (seg.map toRat).sum := by
  have hvalue := h.value
  rw [value_of_finite (h.finite hfinite).1, sum_lift_finite hfinite, WithTop.coe_inj]
    at hvalue
  exact hvalue

lemma isNan (hd : d ∈ seg) (hn : d.isNan = true) : t.isNan = true := by
  have hvalue := h.value
  rw [sum_lift_nan hd hn] at hvalue
  by_contra hfinite
  rw [value_of_finite (by simpa using hfinite)] at hvalue
  exact WithTop.coe_ne_top hvalue

lemma checkedAdd_eq_none_iff (hd : d.Valid) : t.checkedAdd d = none ↔ Overflows seg (some d) := by
  by_cases hseg : ∀ e ∈ seg, e.isNan = false
  · cases hdn : d.isNan with
    | true => simp [Overflows, checkedAdd, hdn]
    | false =>
      obtain ⟨htn, hscale⟩ := h.finite hseg
      rw [checkedAdd_finite h.valid hd htn hdn, h.toRat hseg, hscale]
      simp only [Overflows, hdn, true_and, and_iff_right hseg, ite_eq_right_iff, reduceCtorEq,
        imp_false]
  · have hnan : t.isNan = true := by
      simp only [not_forall, Bool.not_eq_false] at hseg
      obtain ⟨e, he, hn⟩ := hseg
      exact h.isNan he hn
    refine iff_of_false ?_ fun hover => hseg hover.1
    simp [checkedAdd, hnan]

lemma add {t' : Decimal} (hd : d.Valid) (hadd : t.checkedAdd d = some t') :
    IsTotalOf (seg ++ [d]) t' := by
  obtain ⟨hvalid, hvalue⟩ := checkedAdd_value h.valid hd hadd
  refine ⟨hvalid, ?_, ?_⟩
  · rw [hvalue, h.value, map_append, sum_append, map_singleton, sum_singleton]
    rfl
  · intro hfinite
    have hdn : d.isNan = false := hfinite d (by simp)
    obtain ⟨htn, hscale⟩ := h.finite fun e he => hfinite e (mem_append_left _ he)
    rw [checkedAdd_finite h.valid hd htn hdn] at hadd
    split_ifs at hadd
    obtain rfl := Option.some.inj hadd
    rw [segScale_append, ← hscale]
    exact ⟨isNan_of_scale_le (max_le (h.valid.scale_le htn) (hd.scale_le hdn)), rfl⟩

end IsTotalOf

variable (term : Decimal → Option Decimal)

def runningTotal (ds : List Decimal) : Option Decimal :=
  ds.foldl (fun total d => addTerm total (term d)) none

def sinceOverflow (ds : List Decimal) : List Decimal :=
  ds.foldl (fun seg d => if Overflows (seg.filterMap term) (term d) then [] else seg ++ [d]) []

lemma runningTotal_append (ds : List Decimal) (d : Decimal) :
    runningTotal term (ds ++ [d]) = addTerm (runningTotal term ds) (term d) := by
  simp [runningTotal]

lemma sinceOverflow_append (ds : List Decimal) (d : Decimal) :
    sinceOverflow term (ds ++ [d])
      = if Overflows ((sinceOverflow term ds).filterMap term) (term d) then []
        else sinceOverflow term ds ++ [d] := by
  rw [sinceOverflow, foldl_append]
  rfl

structure Running (ds : List Decimal) : Prop where
  suffix : ∃ pre, ds = pre ++ sinceOverflow term ds
  terms : ∀ d ∈ sinceOverflow term ds, (term d).isSome = true
  missing : runningTotal term ds = none ↔ sinceOverflow term ds = []
  total : IsTotalOf ((sinceOverflow term ds).filterMap term) ((runningTotal term ds).getD .zero)

/-- Induction from the right: each value is added, or overflows and empties the total. -/
lemma running (ds : List Decimal) (hterm : ∀ d ∈ ds, ∀ t, term d = some t → t.Valid) :
    Running term ds := by
  induction ds using reverseRecOn with
  | nil => exact ⟨⟨[], rfl⟩, fun d hd => absurd hd not_mem_nil, iff_of_true rfl rfl,
      isTotalOf_nil⟩
  | append_singleton ds d ih =>
    obtain ⟨⟨pre, hpre⟩, hterms, -, htotal⟩ :=
      ih fun e he => hterm e (mem_append_left _ he)
    have hsince := sinceOverflow_append term ds d
    have hrun := runningTotal_append term ds d
    by_cases hover : Overflows ((sinceOverflow term ds).filterMap term) (term d)
    · rw [if_pos hover] at hsince
      -- the total is lost, whether the term or the addition overflowed
      have hnone : runningTotal term (ds ++ [d]) = none := by
        rw [hrun, addTerm]
        cases ht : term d with
        | none => rfl
        | some t =>
          rw [ht] at hover
          exact (htotal.checkedAdd_eq_none_iff (hterm d (by simp) t ht)).mpr hover
      exact ⟨⟨ds ++ [d], by rw [hsince, append_nil]⟩, by simp [hsince], by simp [hsince, hnone],
        by simpa [hsince, hnone] using isTotalOf_nil⟩
    · rw [if_neg hover] at hsince
      obtain ⟨t, ht⟩ : ∃ t, term d = some t := by
        cases ht : term d with
        | none => exact absurd (by rw [ht]; trivial) hover
        | some t => exact ⟨t, rfl⟩
      have hvalid : t.Valid := hterm d (by simp) t ht
      rw [ht, ← htotal.checkedAdd_eq_none_iff hvalid] at hover
      obtain ⟨t', hadd⟩ := Option.ne_none_iff_exists'.mp hover
      have hsome : runningTotal term (ds ++ [d]) = some t' := by
        rw [hrun, addTerm, ht]
        exact hadd
      refine ⟨⟨pre, ?_⟩, ?_, ?_, ?_⟩
      · rw [hsince, ← append_assoc, ← hpre]
      · intro e he
        rw [hsince] at he
        obtain he | he := mem_append.mp he
        · exact hterms e he
        · rw [mem_singleton.mp he, ht]
          rfl
      · simp [hsince, hsome]
      · rw [hsince, hsome, filterMap_append]
        simpa [ht] using htotal.add hvalid hadd

variable {term}

/-- What one term stands for: the number `stored`, `NaN` for `NaN`. -/
def Stores (term : Decimal → Option Decimal) (stored : Decimal → ℚ) (d : Decimal) : Prop :=
  ∀ t, term d = some t → t.Valid ∧ t.isNan = d.isNan ∧ (d.isNan = false → t.toRat = stored d)

variable {stored : Decimal → ℚ}

lemma sum_terms (hsome : ∀ d ∈ seg, (term d).isSome = true)
    (hstores : ∀ d ∈ seg, Stores term stored d) :
    ((seg.filterMap term).map (lift toRat)).sum = (seg.map (lift stored)).sum := by
  induction seg with
  | nil => rfl
  | cons d seg ih =>
    obtain ⟨t, ht⟩ := Option.isSome_iff_exists.mp (hsome d mem_cons_self)
    obtain ⟨-, hnan, hrat⟩ := hstores d mem_cons_self t ht
    have hhead : lift toRat t = lift stored d := by
      cases hn : d.isNan with
      | true => simp [lift, hnan, hn]
      | false => simp [lift, hnan, hn, hrat hn]
    rw [filterMap_cons_some ht, map_cons, sum_cons, map_cons, sum_cons,
      hhead, ih (fun e he => hsome e (mem_cons_of_mem d he))
        (fun e he => hstores e (mem_cons_of_mem d he))]

lemma runningTotal_value {t : Decimal} (hstores : ∀ d ∈ ds, Stores term stored d)
    (ht : runningTotal term ds = some t) :
    t.value = ((sinceOverflow term ds).map (lift stored)).sum := by
  have hrun := running term ds fun d hd s hs => (hstores d hd s hs).1
  obtain ⟨pre, hpre⟩ := hrun.suffix
  have htotal := hrun.total.value
  rw [ht, Option.getD_some] at htotal
  rw [htotal]
  apply sum_terms hrun.terms
  intro d hd
  apply hstores
  rw [hpre]
  exact mem_append_right _ hd

/-- No value is folded after an overflow, or leaving out those before makes no difference: a `NaN`
follows, or what was left out is finite and sums to zero. -/
def Kept (ds : List Decimal) : Prop :=
  ∀ pre post, ds = pre ++ post → sinceOverflow some ds = post →
    post = [] ∨ (∃ d ∈ post, d.isNan = true) ∨
      (∀ d ∈ pre, d.isNan = false) ∧ (pre.map toRat).sum = 0

/-- Over finite values the total is finite, and the sum of what is stored for the values since the
last overflow. -/
lemma runningTotal_finite {t : Decimal} (hstores : ∀ d ∈ ds, Stores term stored d)
    (hfinite : ∀ d ∈ ds, d.isNan = false) (ht : runningTotal term ds = some t) :
    t.Valid ∧ t.isNan = false ∧ t.toRat = ((sinceOverflow term ds).map stored).sum := by
  have hrun := running term ds fun d hd s hs => (hstores d hd s hs).1
  obtain ⟨pre, hpre⟩ := hrun.suffix
  have hsince : ∀ d ∈ sinceOverflow term ds, d.isNan = false := by
    intro d hd
    apply hfinite
    rw [hpre]
    exact mem_append_right _ hd
  have hvalue := runningTotal_value hstores ht
  rw [sum_lift_finite hsince] at hvalue
  have hvalid := hrun.total.valid
  rw [ht, Option.getD_some] at hvalid
  cases hn : t.isNan with
  | true =>
    rw [value_of_nan hn] at hvalue
    exact absurd hvalue.symm WithTop.coe_ne_top
  | false =>
    rw [value_of_finite hn, WithTop.coe_inj] at hvalue
    exact ⟨hvalid, rfl, hvalue⟩

lemma some_stores {d : Decimal} (hd : d.Valid) : Stores some toRat d := by
  rintro t ⟨⟩
  exact ⟨hd, rfl, fun _ => rfl⟩

/-- **The running total of the values is missing or exact exactly when nothing that counts was left
out.** -/
theorem runningTotal_exact_iff (hds : ∀ d ∈ ds, d.Valid) :
    (∀ t, runningTotal some ds = some t → t.value = (ds.map (lift toRat)).sum) ↔ Kept ds := by
  have hstores : ∀ d ∈ ds, Stores some toRat d := fun d hd => some_stores (hds d hd)
  have hrun := running some ds fun d hd s hs => (hstores d hd s hs).1
  obtain ⟨pre, hpre⟩ := hrun.suffix
  -- the only splitting to look at
  have hsplit : Kept ds ↔
      (sinceOverflow some ds = [] ∨ (∃ d ∈ sinceOverflow some ds, d.isNan = true) ∨
        (∀ d ∈ pre, d.isNan = false) ∧ (pre.map toRat).sum = 0) := by
    constructor
    · exact fun h => h pre _ hpre rfl
    · rintro h pre' post hds rfl
      rw [append_cancel_right (hds.symm.trans hpre)]
      exact h
  rw [hsplit]
  rcases htotal : runningTotal some ds with _ | t
  · simp [hrun.missing.mp htotal]
  have hne : sinceOverflow some ds ≠ [] := fun h => by
    rw [hrun.missing.mpr h] at htotal
    cases htotal
  have hvalue := runningTotal_value hstores htotal
  have hall : (ds.map (lift toRat)).sum
      = (pre.map (lift toRat)).sum + ((sinceOverflow some ds).map (lift toRat)).sum := by
    conv_lhs => rw [hpre]
    rw [map_append, sum_append]
  simp only [Option.some.injEq, forall_eq', hvalue, hall, hne, false_or]
  generalize sinceOverflow some ds = post
  by_cases hpost : ∃ d ∈ post, d.isNan = true
  · -- a `NaN` after the last overflow swallows whatever was left out
    obtain ⟨d, hd, hn⟩ := hpost
    refine iff_of_true ?_ (Or.inl ⟨d, hd, hn⟩)
    rw [sum_lift_nan hd hn, add_top]
  have hfinite : ∀ d ∈ post, d.isNan = false := by simpa using hpost
  simp only [hpost, false_or, sum_lift_finite hfinite]
  by_cases hbefore : ∀ d ∈ pre, d.isNan = false
  · rw [sum_lift_finite hbefore, ← WithTop.coe_add, WithTop.coe_inj, and_iff_right hbefore]
    constructor <;> intro h <;> linarith
  · refine iff_of_false ?_ fun h => hbefore h.1
    simp only [not_forall, Bool.not_eq_false] at hbefore
    obtain ⟨d, hd, hn⟩ := hbefore
    rw [sum_lift_nan hd hn, top_add]
    exact WithTop.coe_ne_top

end NusaDb.Agg
