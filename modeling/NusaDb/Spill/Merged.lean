import NusaDb.Lib.Bag
import NusaDb.Spill.Sort

/-!
# The external sort is the stable sort
-/

namespace NusaDb.Spill

open List Sql Fallible

namespace Sorter

variable {E F O T R B : Type} {L : Type} [LinearOrder L] (s : Sorter E F O T R B)
  (key : R → List (SqlValue F O))

def stableSort (rows : List R) : List R :=
  rows.insertionSort fun a b => (s.compareKeys (key a) (key b)).isLE

/-- `out` is the input, ordered by the keys, with rows that tie on every key in input order. -/
structure Delivers (rows out : List R) : Prop where
  same : out ~ rows
  ordered : out.Pairwise fun a b => (s.compareKeys (key a) (key b)).isLE
  stable : ∀ a ∈ rows, (out.filter fun b => s.compareKeys (key a) (key b) = .eq) =
    rows.filter fun b => s.compareKeys (key a) (key b) = .eq

lemma exists_forall₂ {α β : Type} {R : α → β → Prop} {Q : β → α → Prop} {l : List α}
    (h : ∀ a ∈ l, ∃ b, R a b ∧ Q b a) : ∃ m, Forall₂ R l m ∧ Forall₂ Q m l := by
  induction l with
  | nil => exact ⟨[], .nil, .nil⟩
  | cons a l ih =>
    obtain ⟨b, hab, hba⟩ := h a mem_cons_self
    obtain ⟨m, hlm, hml⟩ := ih fun c hc => h c (mem_cons_of_mem a hc)
    exact ⟨b :: m, .cons hab hlm, .cons hba hml⟩

lemma flatten_cutRuns (budget : MemBudget) (buf rows : List R) :
    (s.cutRuns budget buf rows).1.flatten ++ (s.cutRuns budget buf rows).2 = buf ++ rows := by
  fun_induction cutRuns s budget buf rows with
  | case1 => simp
  | case2 budget buf row rows _ ih => simpa using ih
  | case3 budget buf row rows _ later ih =>
    simp only [later, flatten_cons, append_assoc, ih]
    rfl

lemma cutRuns_eq_nil (budget : MemBudget) (buf rows : List R) :
    (s.cutRuns budget buf rows).1 = [] ↔ s.Admits budget rows := by
  fun_induction cutRuns s budget buf rows with
  | case1 => exact iff_of_true rfl trivial
  | case2 budget buf row rows hadmit ih => simp [Admits, hadmit, ih]
  | case3 budget buf row rows hrefuse later ih => simp [Admits, hrefuse]

variable {s key}

section Whole

variable {rows : List R} (hkeys : ∀ row ∈ rows, s.evalKeys row = .ok (key row))

include hkeys

section

variable {part : List R} (hpart : ∀ row ∈ part, row ∈ rows)

include hpart

lemma mapM_decorate : part.mapM s.decorate = .ok (part.map fun row => (key row, row)) := by
  rw [mapM_eq_ok, forall₂_map_right_iff, forall₂_same]
  intro row hrow
  rw [decorate, hkeys row (hpart row hrow)]
  rfl

lemma sortRows_eq : s.sortRows part = .ok (s.stableSort key part) := by
  have hsort := map_insertionSort
    (fun a b => (s.compareKeys (key a) (key b)).isLE = true)
    (s.headLE · · = true)
    (fun row => (key row, row)) part fun _ _ _ _ => Iff.rfl
  rw [sortRows, mapM_decorate hkeys hpart]
  show Except.ok _ = _
  rw [← hsort, map_map]
  exact congrArg Except.ok (map_id _)

lemma spillRun_eq_ok {file : List B} :
    s.spillRun part = .ok file ↔ Forall₂ (fun row bytes => s.codec.encodeRow row = .ok bytes)
      (s.stableSort key part) file := by
  rw [spillRun, sortRows_eq hkeys hpart]
  exact mapM_eq_ok

end

variable {place : List (SqlValue F O) → L} (hplace : ∀ a ∈ rows, ∀ b ∈ rows,
  s.compareKeys (key a) (key b) = compare (place (key a)) (place (key b)))

omit hkeys in
include hplace in
lemma compareKeys_isLE {a b : R} (ha : a ∈ rows) (hb : b ∈ rows) :
    (s.compareKeys (key a) (key b)).isLE ↔ place (key a) ≤ place (key b) := by
  rw [hplace a ha b hb]
  exact Ordering.ne_gt_iff_isLE.symm.trans compare_le_iff_le

omit hkeys in
include hplace in
lemma stableSort_eq {part : List R} (hpart : ∀ row ∈ part, row ∈ rows) :
    s.stableSort key part = part.insertionSort fun a b => place (key a) ≤ place (key b) := by
  have hsort := map_insertionSort
    (fun a b => (s.compareKeys (key a) (key b)).isLE = true)
    (fun a b => place (key a) ≤ place (key b)) id part
    fun a ha b hb => compareKeys_isLE hplace (hpart a ha) (hpart b hb)
  rw [map_id, map_id] at hsort
  exact hsort

omit hkeys in
include hplace in
lemma delivers_stableSort : s.Delivers key rows (s.stableSort key rows) where
  same := perm_insertionSort _ rows
  ordered := by
    have hmem : ∀ row ∈ s.stableSort key rows, row ∈ rows := fun row => (mem_insertionSort _).mp
    apply Pairwise.imp_of_mem (R := fun a b => place (key a) ≤ place (key b))
    · exact fun ha hb => (compareKeys_isLE hplace (hmem _ ha) (hmem _ hb)).mpr
    · rw [stableSort_eq hplace fun _ => id]
      exact pairwise_insertionSort (fun a b => place (key a) ≤ place (key b)) rows
  stable := by
    intro a ha
    have hties : ∀ b ∈ rows, decide (s.compareKeys (key a) (key b) = .eq) =
        decide (place (key b) = place (key a)) := by
      intro b hb
      rw [hplace a ha b hb, decide_eq_decide, compare_eq_iff_eq, eq_comm]
    have hsorted : ∀ b ∈ s.stableSort key rows, b ∈ rows := fun b => (mem_insertionSort _).mp
    rw [filter_congr hties, filter_congr fun b hb => hties b (hsorted b hb),
      stableSort_eq hplace fun _ => id]
    exact filter_key_insertionSort (fun row => place (key row)) (place (key a)) rows

omit hkeys in
lemma length_flatten_stableSort (parts : List (List R)) :
    (parts.map (s.stableSort key)).flatten.length = parts.flatten.length := by
  rw [length_flatten, length_flatten, map_map]
  exact congrArg sum (map_congr_left fun part _ => length_insertionSort _ part)

omit hkeys in
lemma reads_of_readRun {file : List B} {run : List (List (SqlValue F O) × R)}
    (h : s.readRun file = .ok run) :
    Forall₂ (fun bytes row => s.codec.decodeRow bytes = .ok row) file (run.map (·.2)) := by
  obtain ⟨rows, hrows, h⟩ := bind_eq_ok.mp h
  have hrun : run.map (·.2) = rows := by
    rw [← forall₂_eq_eq_eq, forall₂_map_left_iff]
    apply Forall₂.flip
    refine (mapM_eq_ok.mp h).imp fun row x hx => ?_
    obtain ⟨keys, -, rfl⟩ := map_eq_ok.mp hx
    rfl
  rw [hrun]
  exact mapM_eq_ok.mp hrows

omit hkeys in
lemma mem_of_flatten {parts : List (List R)} (hparts : parts.flatten = rows) :
    ∀ part ∈ parts, ∀ row ∈ part, row ∈ rows :=
  fun _ hpart _ hrow => hparts ▸ mem_flatten_of_mem hpart hrow

include hplace in
/-- Where rows come back as written, merging the runs is a stable sort of the whole. -/
lemma merge_of_roundTrips {parts : List (List R)} (hparts : parts.flatten = rows)
    (htrips : ∀ row ∈ rows, s.codec.RoundTrips row) :
    ∃ files runs, parts.mapM s.spillRun = .ok files ∧ files.mapM s.readRun = .ok runs ∧
      (mergeRuns s.headLE rows.length runs).map (·.2) = s.stableSort key rows := by
  have hpart := mem_of_flatten hparts
  have hsorted : ∀ part ∈ parts, ∀ row ∈ s.stableSort key part, row ∈ rows :=
    fun part hmem row hrow => hpart part hmem row ((mem_insertionSort _).mp hrow)
  let runs := (parts.map (s.stableSort key)).map (map fun row => (key row, row))
  obtain ⟨files, hfiles, hread⟩ := exists_forall₂ (l := parts)
    (R := fun part file => s.spillRun part = .ok file)
    (Q := fun file part => s.readRun file =
      .ok ((s.stableSort key part).map fun row => (key row, row))) (by
      intro part hmem
      obtain ⟨file, hfile, hread⟩ := exists_forall₂ (l := s.stableSort key part)
        fun row hrow => htrips row (hsorted part hmem row hrow)
      refine ⟨file, (spillRun_eq_ok hkeys (hpart part hmem)).mpr hfile, ?_⟩
      rw [readRun, mapM_eq_ok.mpr hread]
      exact mapM_decorate hkeys (hsorted part hmem))
  have hruns : files.mapM s.readRun = .ok runs := by
    simp only [runs, mapM_eq_ok, map_map, forall₂_map_right_iff]
    exact hread
  have hflat : runs.flatten =
      (parts.map (s.stableSort key)).flatten.map fun row => (key row, row) := map_flatten.symm
  have hmem : ∀ x ∈ runs.flatten, ∃ row ∈ rows, (key row, row) = x := by
    intro x hx
    rw [hflat] at hx
    obtain ⟨row, hrow, rfl⟩ := mem_map.mp hx
    obtain ⟨_, hrun, hrow⟩ := mem_flatten.mp hrow
    obtain ⟨part, hpart, rfl⟩ := mem_map.mp hrun
    exact ⟨row, hsorted part hpart row hrow, rfl⟩
  have hlength : runs.flatten.length ≤ rows.length := by
    rw [hflat, length_map, length_flatten_stableSort, hparts]
  refine ⟨files, runs, mapM_eq_ok.mpr hfiles, hruns, ?_⟩
  have hdecorated := map_insertionSort (fun a b => place (key a) ≤ place (key b))
    (fun x y : List (SqlValue F O) × R => place x.1 ≤ place y.1) (fun row => (key row, row))
    (parts.map (s.stableSort key)).flatten fun _ _ _ _ => Iff.rfl
  rw [mergeRuns_eq_insertionSort (fun x => place x.1) ?_ ?_ hlength, hflat, ← hdecorated,
    map_map, map_congr_left fun part hmem => stableSort_eq hplace (hpart part hmem),
    insertionSort_flatten fun row => place (key row), hparts, stableSort_eq hplace fun _ => id]
  · exact map_id _
  · intro x hx y hy
    obtain ⟨a, ha, rfl⟩ := hmem x hx
    obtain ⟨b, hb, rfl⟩ := hmem y hy
    exact compareKeys_isLE hplace ha hb
  · intro run hrun
    simp only [runs, map_map, mem_map] at hrun
    obtain ⟨part, hmem, rfl⟩ := hrun
    show ((s.stableSort key part).map fun row => (key row, row)).Pairwise _
    rw [pairwise_map, stableSort_eq hplace (hpart part hmem)]
    exact pairwise_insertionSort (fun a b => place (key a) ≤ place (key b)) part

lemma roundTrips_of_merge {parts : List (List R)} {files : List (List B)}
    {runs : List (List (List (SqlValue F O) × R))} (hparts : parts.flatten = rows)
    (hfiles : parts.mapM s.spillRun = .ok files) (hruns : files.mapM s.readRun = .ok runs)
    (hmerge : (mergeRuns s.headLE rows.length runs).map (·.2) = s.stableSort key rows) :
    ∀ row ∈ rows, s.codec.RoundTrips row := by
  have hwritten : Forall₂ (fun row bytes => s.codec.encodeRow row = .ok bytes)
      (parts.map (s.stableSort key)).flatten files.flatten := by
    apply rel_flatten
    rw [forall₂_map_left_iff]
    exact ((forall₂_and_left parts files).mpr ⟨mem_of_flatten hparts, mapM_eq_ok.mp hfiles⟩).imp
      fun part file h => (spillRun_eq_ok hkeys h.1).mp h.2
  have hread : Forall₂ (fun bytes row => s.codec.decodeRow bytes = .ok row)
      files.flatten (runs.map (map (·.2))).flatten := by
    apply rel_flatten
    rw [forall₂_map_right_iff]
    exact (mapM_eq_ok.mp hruns).imp fun file run h => reads_of_readRun h
  have hlength : runs.flatten.length ≤ rows.length := by
    rw [← length_map (·.2), map_flatten, ← hread.length_eq, ← hwritten.length_eq,
      length_flatten_stableSort, hparts]
  intro row hrow
  have hmem : row ∈ (mergeRuns s.headLE rows.length runs).map (·.2) := by
    rw [hmerge]
    exact (mem_insertionSort _).mpr hrow
  rw [((mergeRuns_perm hlength).map _).mem_iff, map_flatten] at hmem
  obtain ⟨bytes, hbytes, hdecode⟩ := Bag.exists_of_forall₂ hread hmem
  obtain ⟨written, -, hencode⟩ := Bag.exists_of_forall₂ hwritten hbytes
  exact s.codec.again hencode hdecode

/-- Sorting delivers the stable sort of the input exactly when nothing is spilled or every row comes
back from disk as it was written. -/
theorem sortedRows_eq_stableSort_iff (limit : Nat)
    (hord : Ordered s.compareKeys (· ∈ rows.map key)) :
    s.Delivers key rows (s.stableSort key rows) ∧
      (s.sortedRows limit rows = .ok (s.stableSort key rows) ↔
        s.Admits { used := 0, limit } rows ∨ ∀ row ∈ rows, s.codec.RoundTrips row) := by
  obtain ⟨L, _, place, hplace⟩ := hord
  replace hplace : ∀ a ∈ rows, ∀ b ∈ rows,
      s.compareKeys (key a) (key b) = compare (place (key a)) (place (key b)) :=
    fun a ha b hb => hplace _ _ (mem_map_of_mem ha) (mem_map_of_mem hb)
  refine ⟨delivers_stableSort hplace, ?_⟩
  have hflat := s.flatten_cutRuns { used := 0, limit } [] rows
  rw [← s.cutRuns_eq_nil { used := 0, limit } []]
  unfold sortedRows
  generalize s.cutRuns { used := 0, limit } [] rows = cut at *
  by_cases hcut : cut.1 = []
  · have hall : cut.2 = rows := by simpa [hcut] using hflat
    simp only [hcut, if_true, true_or, iff_true, hall]
    exact sortRows_eq hkeys fun _ => id
  have hparts : (cut.1 ++ if cut.2 = [] then [] else [cut.2]).flatten = rows := by
    rw [flatten_append, ← show _ = rows from hflat]
    split
    case isTrue hnil => rw [hnil, flatten_nil]
    case isFalse => rw [flatten_singleton]
  simp only [hcut, if_false, false_or]
  constructor
  · intro h
    obtain ⟨files, hfiles, h⟩ := bind_eq_ok.mp h
    obtain ⟨runs, hruns, h⟩ := bind_eq_ok.mp h
    exact roundTrips_of_merge hkeys hparts hfiles hruns (Except.ok.inj h)
  · intro htrips
    obtain ⟨files, runs, hfiles, hruns, hmerge⟩ :=
      merge_of_roundTrips hkeys hplace hparts htrips
    rw [hfiles]
    show (files.mapM s.readRun >>= _) = _
    rw [hruns]
    exact congrArg Except.ok hmerge

end Whole

end Sorter

/-- An `f64`; a finite one other than zero by its bits. -/
inductive Double where
  | zero (negative : Bool)
  | finite (bits : Nat)
  | infinite (negative : Bool)
  | nan
deriving DecidableEq, Repr

def Double.fmtNum : Double → Double
  | .zero _ => .zero false
  | x => x

def Double.isFinite : Double → Bool
  | .zero _ | .finite _ => true
  | .infinite _ | .nan => false

/-- A value of a row: an integer is written by its bits, a point as the text `format` gives it. -/
inductive Cell where
  | int (n : Int)
  | point (x y : Double)
deriving DecidableEq, Repr

inductive Error where
  | malformedTuple (offset : Nat)
deriving DecidableEq, Repr

/-- `write_value`, where a text stands for the numbers printed in it. -/
def writeValue : Cell → Cell
  | .int n => .int n
  | .point x y => .point x.fmtNum y.fmtNum

/-- `read_value`; `parse` takes finite numbers only. -/
def readValue : Cell → Except Error Cell
  | .int n => .ok (.int n)
  | .point x y =>
    if x.isFinite && y.isFinite then .ok (.point x y) else .error (.malformedTuple 0)

lemma readValue_eq_ok {written cell : Cell} (h : readValue written = .ok cell) :
    written = cell := by
  cases written with
  | int n => exact Except.ok.inj h
  | point x y =>
    rw [readValue] at h
    split at h
    · exact Except.ok.inj h
    · cases h

lemma writeValue_writeValue (cell : Cell) : writeValue (writeValue cell) = writeValue cell := by
  have hfmt : ∀ x : Double, x.fmtNum.fmtNum = x.fmtNum := by rintro (_ | _ | _ | _) <;> rfl
  cases cell with
  | int n => rfl
  | point x y => simp only [writeValue, hfmt]

def rowCodec : Codec Error (List Cell) (List Cell) where
  encodeRow row := .ok (row.map writeValue)
  decodeRow bytes := bytes.mapM readValue
  again := by
    intro row row' bytes hencode hdecode
    cases hencode
    have hsame : row.map writeValue = row' := by
      rw [← forall₂_eq_eq_eq]
      exact (mapM_eq_ok.mp hdecode).imp fun _ _ => readValue_eq_ok
    refine ⟨row.map writeValue, ?_, hdecode⟩
    rw [← hsame, map_map]
    exact congrArg Except.ok (map_congr_left fun cell _ => writeValue_writeValue cell)

def firstKey : List Cell → SqlValue Unit Empty
  | .int n :: _ => .int n
  | _ => .null

def byFirst : Sorter Error Unit Empty Empty (List Cell) (List Cell) where
  types :=
    { floatTotalCmp := fun _ _ => .eq, intToFloat := fun _ => (), decimalToFloat := fun _ => ()
      floatNeg := id, compareOther := fun _ _ => .eq, typeRank := fun _ => 5
      castOther := fun _ _ => none, encodeOther := fun _ _ => none }
  keys := [{ expr := fun row => .ok (firstKey row), ascending := true, nulls := .default }]
  rowBytes := fun row => 16 * row.length
  codec := rowCodec

/-- The product `point '(1e200,0)' * point '(1e200,0)'` is infinite: a sort in memory delivers it, a
sort that spills fails to read it back. -/
theorem spilled_point_unreadable :
    byFirst.sortedRows 0 [[.int 2, .point (.infinite false) (.zero false)],
        [.int 1, .point (.zero false) (.zero false)]] =
      .ok [[.int 1, .point (.zero false) (.zero false)],
        [.int 2, .point (.infinite false) (.zero false)]] ∧
    byFirst.sortedRows 32 [[.int 2, .point (.infinite false) (.zero false)],
        [.int 1, .point (.zero false) (.zero false)]] = .error (.malformedTuple 0) :=
  ⟨rfl, rfl⟩

theorem sortedRows_eq_stableSort_iff_ints :
    byFirst.sortedRows 16 [[.int 2], [.int 1]] = .ok [[.int 1], [.int 2]] := by
  have hord : Ordered byFirst.compareKeys
      (· ∈ [[Cell.int 2], [.int 1]].map fun row => [firstKey row]) := by
    refine ⟨Int, inferInstance, fun keys => if keys = [.int 1] then 1 else 2, ?_⟩
    simp only [map_cons, map_nil, mem_cons, not_mem_nil, or_false]
    rintro a b (rfl | rfl) (rfl | rfl) <;> rfl
  have hkeys : ∀ row ∈ [[Cell.int 2], [.int 1]], byFirst.evalKeys row = .ok [firstKey row] :=
    fun _ _ => rfl
  refine (Sorter.sortedRows_eq_stableSort_iff hkeys 16 hord).2.mpr (.inr ?_)
  simp only [mem_cons, not_mem_nil, or_false]
  rintro row (rfl | rfl) <;> exact ⟨_, rfl, rfl⟩

end NusaDb.Spill
