import NusaDb.Btree.Entries

/-!
# Index walks

A walk visits the entries of a key range once each, in key order and, under one key, in row order.
So what it collects depends only on what the index holds at each position
(`filterMap_walkRows_congr`).
-/

namespace NusaDb

open List Option Bool

lemma EntryKey.lt_iff {a b : EntryKey} :
    a < b ↔ a.key < b.key ∨ (a.key = b.key ∧ a.row < b.row) := by
  show a.toPair < b.toPair ↔ _
  unfold EntryKey.toPair
  rw [Prod.Lex.toLex_lt_toLex]

def WalkBefore (backward : Bool) (a b : EntryKey) : Prop :=
  (if backward then b.key < a.key else a.key < b.key) ∨ (a.key = b.key ∧ a.row < b.row)

lemma Bound.admitsTo_of_lt {hi : Bound} {k k' : Key} (h : hi.admitsTo k = true) (hlt : k' < k) :
    hi.admitsTo k' = true := by
  cases hi with
  | included b =>
    simp only [Bound.admitsTo, decide_eq_true_eq] at h ⊢
    exact le_trans (le_of_lt hlt) h
  | excluded b =>
    simp only [Bound.admitsTo, decide_eq_true_eq] at h ⊢
    exact lt_trans hlt h
  | unbounded => rfl

namespace IndexData

variable {d : IndexData} {lo hi : Bound} {p : EntryKey × List EntryMeta}

lemma mem_scan : p ∈ d.scan lo hi ↔
    d.entries.get? p.1 = some p.2 ∧ lo.admitsFrom p.1.key = true ∧ hi.admitsTo p.1.key = true := by
  unfold scan
  rw [mem_filter, and_eq_true, show p = (p.1, p.2) from rfl, OrdMap.mem_toList]

lemma scan_sorted (d : IndexData) (lo hi : Bound) :
    (d.scan lo hi).Pairwise fun a b => a.1 < b.1 :=
  d.entries.sorted.filter _

lemma mem_scan_key {key : Key} : p ∈ d.scan (.included key) (.included key) ↔
    d.entries.get? p.1 = some p.2 ∧ p.1.key = key := by
  rw [mem_scan]
  simp only [Bound.admitsFrom, Bound.admitsTo, decide_eq_true_eq]
  constructor
  · intro h
    exact ⟨h.1, le_antisymm h.2.2 h.2.1⟩
  · intro h
    exact ⟨h.1, le_of_eq h.2.symm, le_of_eq h.2⟩

variable {last : EntryKey × List EntryMeta}

lemma scan_below (hlast : last ∈ d.scan lo hi) :
    d.scan lo (.excluded last.1.key) = (d.scan lo hi).filter fun p => decide (p.1.key < last.1.key) := by
  unfold scan
  rw [List.filter_filter]
  refine filter_congr fun p _ => ?_
  have hadm := (mem_scan.mp hlast).2.2
  have hexcl : (Bound.excluded last.1.key).admitsTo p.1.key = decide (p.1.key < last.1.key) := rfl
  rw [hexcl]
  cases hlt : decide (p.1.key < last.1.key) with
  | true =>
    have hin := Bound.admitsTo_of_lt hadm (of_decide_eq_true hlt)
    rw [hin, Bool.true_and]
  | false => rw [Bool.false_and, Bool.and_false]

lemma getLast_greatest (hlast : (d.scan lo hi).getLast? = some last) :
    last ∈ d.scan lo hi ∧ ∀ p ∈ d.scan lo hi, p.1.key ≤ last.1.key := by
  obtain ⟨before, hsplit⟩ := getLast?_eq_some_iff.mp hlast
  have hsorted := d.scan_sorted lo hi
  rw [hsplit] at hsorted ⊢
  refine ⟨mem_append_right _ mem_cons_self, ?_⟩
  intro p hp
  rcases mem_append.mp hp with hb | hl
  · have hlt := (pairwise_append.mp hsorted).2.2 p hb last mem_cons_self
    rcases EntryKey.lt_iff.mp hlt with h | ⟨h, _⟩
    · exact le_of_lt h
    · exact le_of_eq h
  · rw [mem_singleton.mp hl]

/-- Walking down from the upper bound meets every entry of the scan once, highest first. -/
lemma walkRowsBackward_spec (d : IndexData) (lo : Bound) (fuel : Nat) (hi : Bound)
    (hfuel : (d.scan lo hi).length < fuel) :
    (∀ p, p ∈ d.walkRowsBackward lo fuel hi ↔ p ∈ d.scan lo hi) ∧
      (d.walkRowsBackward lo fuel hi).Pairwise fun a b => WalkBefore true a.1 b.1 := by
  induction fuel generalizing hi with
  | zero => exact absurd hfuel (Nat.not_lt_zero _)
  | succ fuel ih =>
    unfold walkRowsBackward
    cases hlast : (d.scan lo hi).getLast? with
    | none =>
      rw [getLast?_eq_none_iff] at hlast
      rw [hlast]
      exact ⟨fun p => Iff.rfl, Pairwise.nil⟩
    | some last =>
      obtain ⟨hmem, hgreat⟩ := getLast_greatest hlast
      have hbelow := scan_below hmem
      -- the greatest key leaves the range, so the rest is shorter
      have hshort : (d.scan lo (.excluded last.1.key)).length < fuel := by
        have hlt : (d.scan lo (.excluded last.1.key)).length < (d.scan lo hi).length := by
          rw [hbelow]
          refine length_filter_lt_length_iff_exists.mpr ⟨last, hmem, ?_⟩
          simp
        omega
      obtain ⟨hrestMem, hrestSorted⟩ := ih (.excluded last.1.key) hshort
      constructor
      · intro p
        rw [mem_append, hrestMem, mem_scan_key, hbelow, mem_filter, decide_eq_true_eq]
        constructor
        · intro h
          rcases h with ⟨hget, hkey⟩ | ⟨hin, _⟩
          · have hl := mem_scan.mp hmem
            exact mem_scan.mpr ⟨hget, hkey ▸ hl.2.1, hkey ▸ hl.2.2⟩
          · exact hin
        · intro hin
          rcases lt_or_eq_of_le (hgreat p hin) with hlt | heq
          · exact .inr ⟨hin, hlt⟩
          · exact .inl ⟨(mem_scan.mp hin).1, heq⟩
      · refine pairwise_append.mpr ⟨?_, hrestSorted, ?_⟩
        · refine (d.scan_sorted _ _).imp_of_mem ?_
          intro a b ha hb hab
          have hka := (mem_scan_key.mp ha).2
          have hkb := (mem_scan_key.mp hb).2
          rcases EntryKey.lt_iff.mp hab with hlt | ⟨_, hrow⟩
          · exact absurd hlt (by rw [hka, hkb]; exact lt_irrefl _)
          · exact .inr ⟨hka.trans hkb.symm, hrow⟩
        · intro a ha b hb
          have hka := (mem_scan_key.mp ha).2
          rw [hrestMem, hbelow, mem_filter, decide_eq_true_eq] at hb
          refine .inl ?_
          rw [if_pos rfl, hka]
          exact hb.2

lemma mem_walkRows (d : IndexData) (lo hi : Bound) (backward : Bool)
    (p : EntryKey × List EntryMeta) : p ∈ d.walkRows lo hi backward ↔ p ∈ d.scan lo hi := by
  unfold walkRows
  split
  · have hlen : (d.scan lo hi).length < d.entries.toList.length + 1 :=
      Nat.lt_succ_of_le (length_filter_le ..)
    exact (d.walkRowsBackward_spec lo _ hi hlen).1 p
  · rfl

lemma walkRows_sorted (d : IndexData) (lo hi : Bound) (backward : Bool) :
    (d.walkRows lo hi backward).Pairwise fun a b => WalkBefore backward a.1 b.1 := by
  cases backward with
  | true =>
    have hlen : (d.scan lo hi).length < d.entries.toList.length + 1 :=
      Nat.lt_succ_of_le (length_filter_le ..)
    exact (d.walkRowsBackward_spec lo _ hi hlen).2
  | false =>
    refine (d.scan_sorted lo hi).imp fun h => ?_
    exact EntryKey.lt_iff.mp h

def collect {γ : Type} (d : IndexData) (f : EntryKey → List EntryMeta → Option γ) (lo hi : Bound)
    (backward : Bool) : List (EntryKey × γ) :=
  (d.walkRows lo hi backward).filterMap fun p => (f p.1 p.2).map fun c => (p.1, c)

variable {γ : Type}

lemma collect_sorted (d : IndexData) (f : EntryKey → List EntryMeta → Option γ) (lo hi : Bound)
    (backward : Bool) :
    (d.collect f lo hi backward).Pairwise fun a b => WalkBefore backward a.1 b.1 := by
  refine (d.walkRows_sorted lo hi backward).filterMap _ ?_
  intro a a' haa b hb b' hb'
  obtain ⟨_, _, rfl⟩ := map_eq_some_iff.mp hb
  obtain ⟨_, _, rfl⟩ := map_eq_some_iff.mp hb'
  exact haa

variable {f : EntryKey → List EntryMeta → Option γ}

lemma mem_collect {backward : Bool} {q : EntryKey × γ} :
    q ∈ d.collect f lo hi backward ↔ (d.entries.get? q.1).bind (f q.1) = some q.2 ∧
      lo.admitsFrom q.1.key = true ∧ hi.admitsTo q.1.key = true := by
  unfold collect
  rw [mem_filterMap]
  constructor
  · intro h
    obtain ⟨p, hp, hq⟩ := h
    rw [mem_walkRows, mem_scan] at hp
    obtain ⟨c, hc, rfl⟩ := map_eq_some_iff.mp hq
    exact ⟨by rw [hp.1]; exact hc, hp.2⟩
  · intro h
    obtain ⟨metas, hget, hg⟩ := bind_eq_some_iff.mp h.1
    refine ⟨(q.1, metas), ?_, ?_⟩
    · rw [mem_walkRows, mem_scan]
      exact ⟨hget, h.2⟩
    · show (f q.1 metas).map _ = _
      rw [hg]
      rfl

lemma filterMap_walkRows (d : IndexData) (f : EntryKey → List EntryMeta → Option γ)
    (lo hi : Bound) (backward : Bool) :
    ((d.walkRows lo hi backward).filterMap fun p => f p.1 p.2) =
      (d.collect f lo hi backward).map Prod.snd := by
  unfold collect
  rw [map_filterMap]
  refine filterMap_congr fun p _ => ?_
  show f p.1 p.2 = ((f p.1 p.2).map fun c => (p.1, c)).map Prod.snd
  rw [Option.map_map]
  exact map_id'.symm

lemma not_admits_of_empty (h : indexRangeIsEmpty lo hi = true) (key : Key) :
    ¬(lo.admitsFrom key = true ∧ hi.admitsTo key = true) := by
  intro hkey
  cases lo <;> cases hi <;>
    simp only [indexRangeIsEmpty, Bound.admitsFrom, Bound.admitsTo, decide_eq_true_eq,
      false_eq_true] at h hkey
  · exact absurd (lt_of_lt_of_le h (le_trans hkey.1 hkey.2)) (lt_irrefl _)
  · exact absurd (lt_of_le_of_lt hkey.1 (lt_of_lt_of_le hkey.2 h)) (lt_irrefl _)
  · exact absurd (lt_of_lt_of_le hkey.1 (le_trans hkey.2 h)) (lt_irrefl _)
  · exact absurd (lt_trans hkey.1 (lt_of_lt_of_le hkey.2 h)) (lt_irrefl _)

end IndexData

end NusaDb
