import NusaDb.Sql.KeyRange

/-!
# Spelling probes

An index may hold a `CHAR(n)` value with some of its trailing blanks. `probe_ranges` spells out the
leading columns while there are few combinations, and covers the rest from its shortest spelling to
a key above the longest.

`SpellsKey` says what a spelling is by the width of the column; `Spells` says it by the room the
code works out. The proof of `probe_ranges_exact` follows the loop: `Covers` holds of the ranges of
the columns behind, and `Covers.cons` puts one more column before them.
-/

namespace NusaDb.Sql

open List Fallible

variable {F I R : Type}

abbrev Values (F I R : Type) := List (SqlValue F (Scalar I R))

/-- A `ColumnType`, as far as it matters here. -/
inductive ProbeType where
  | char (width : Nat)
  | float
  | other (ty : KeyType)
deriving DecidableEq, Repr

/-- What a key may hold in a column of the type; a float is one with a key, so no `NaN`. -/
inductive OfType (op : Unopened F I R) : ProbeType → SqlValue F (Scalar I R) → Prop where
  | char (width : Nat) (text : List UInt8) : OfType op (.char width) (.other (.text text))
  | float {f : F} {bytes : List UInt8} (h : op.floatKey f = some bytes) : OfType op .float (.float f)
  | other {ty : KeyType} {v : SqlValue F (Scalar I R)} (h : HasType ty v) : OfType op (.other ty) v

abbrev ProbeKey (op : Unopened F I R) (types : List ProbeType) :=
  { key : Values F I R // Forall₂ (OfType op) types key }

def charCount (text : List UInt8) : Nat := text.countP fun b => b < 0x80 || 0xC0 ≤ b

def slackOf : ProbeType → SqlValue F (Scalar I R) → Nat
  | .char width, .other (.text text) => width - charCount text
  | _, _ => 0

def push (suffix : List UInt8) : SqlValue F (Scalar I R) → SqlValue F (Scalar I R)
  | .other (.text text) => .other (.text (text ++ suffix))
  | value => value

def pad (n : Nat) : SqlValue F (Scalar I R) → SqlValue F (Scalar I R) := push (replicate n 0x20)

def maxSpellings : Nat := 256

abbrev Ranges (F I R : Type) := List (Values F I R × Values F I R)

abbrev Columns (F I R : Type) := List (SqlValue F (Scalar I R) × Nat)

/-- `ceiling` from the first of these columns on; the byte is `AFTER_BLANK`. -/
def ceiling : Columns F I R → Values F I R
  | [] => []
  | (value, extra) :: rest =>
    if maxSpellings < extra then [push [0x21] value]
    else if 0 < extra then pad extra value :: ceiling rest
    else value :: ceiling rest

/-- `tail`, by the ends of its range; `k` spells the columns before `rest`. -/
def tailKeys (rest : Columns F I R) (k : Values F I R) : Values F I R × Values F I R :=
  (k ++ rest.map (·.1), k ++ if rest.all (·.2 == 0) then rest.map (·.1) else ceiling rest)

def allowed (combos : List (Values F I R)) : Nat := maxSpellings / max combos.length 1

/-- The loop over the columns before the last; `combos` spell those it has passed. -/
def probeKeys (combos : List (Values F I R)) : Columns F I R → Ranges F I R
  | (value, extra) :: next :: rest =>
    if extra = 0 then probeKeys (combos.map (· ++ [value])) (next :: rest)
    else if extra < allowed combos then
      probeKeys (combos.flatMap fun k => (range (extra + 1)).map fun n => k ++ [pad n value])
        (next :: rest)
    else combos.flatMap fun k =>
      (range (max (allowed combos) 1)).map (fun n => tailKeys (next :: rest) (k ++ [pad n value])) ++
        [(k ++ pad (max (allowed combos) 1) value :: (next :: rest).map (·.1),
          k ++ ceiling ((value, extra) :: next :: rest))]
  | rest => combos.map (tailKeys rest)

def slacked : List ProbeType → Values F I R → Columns F I R
  | ty :: types, value :: key => (value, slackOf ty value) :: slacked types key
  | _, key => key.map (·, 0)

def Unopened.probeRanges (op : Unopened F I R) (key : Values F I R) (types : List ProbeType) :
    Except KeyError (List (Bound (List UInt8) × Bound (List UInt8))) :=
  (probeKeys [[]] (slacked types key)).mapM fun r => do
    let lo ← op.encodeIndexKey r.1
    let hi ← op.encodeIndexKey r.2
    .ok (.included lo, .included hi)

section

variable {as bs : Values F I R} {v w : SqlValue F (Scalar I R)} {extra m n : Nat}

lemma columnOrder_self (v : SqlValue F (Scalar I R)) : columnOrder v v = .eq := by
  rcases v with _ | _ | _ | _ | _ | s
  all_goals try simp [columnOrder]
  cases s <;> simp [scalarOrder]

lemma pad_zero (v : SqlValue F (Scalar I R)) : pad 0 v = v := by
  rcases v with _ | _ | _ | _ | _ | s
  all_goals try rfl
  cases s <;> simp [pad, push]

lemma compare_blanks (m n : Nat) :
    compare (replicate m 0x20 : List UInt8) (replicate n 0x20) = compare m n := by
  induction m generalizing n with
  | zero => cases n <;> rfl
  | succ m ih =>
    cases n with
    | zero => rfl
    | succ n =>
      rw [replicate_succ, replicate_succ, compare_cons_self, ih, Nat.compare_eq_ite_lt,
        Nat.compare_eq_ite_lt]
      simp

lemma columnOrder_push (text a b : List UInt8) :
    columnOrder (push a (.other (.text text)) : SqlValue F (Scalar I R))
      (push b (.other (.text text))) = compare a b := by
  show compare (text ++ a) (text ++ b) = _
  rw [LexOrder.compare_append rfl, Std.compare_self, Ordering.eq_then]

def IsColumn (c : SqlValue F (Scalar I R) × Nat) : Prop :=
  0 < c.2 → ∃ text, c.1 = .other (.text text)

lemma IsColumn.order_pad (h : IsColumn (v, extra)) (hm : m ≤ extra) (hn : n ≤ extra) :
    columnOrder (pad m v) (pad n v) = compare m n := by
  rcases Nat.eq_zero_or_pos extra with rfl | hpos
  · rw [Nat.le_zero.mp hm, Nat.le_zero.mp hn, columnOrder_self]
    rfl
  · obtain ⟨text, rfl⟩ := h hpos
    rw [pad, pad, columnOrder_push, compare_blanks]

/-- Every value with some of the blanks it has room for. -/
def Spells (columns : Columns F I R) (s : Values F I R) : Prop :=
  Forall₂ (fun c w => ∃ n ≤ c.2, w = pad n c.1) columns s

/-- The key `hi`, of all columns or fewer, sorts above `s` or with it. -/
def Above (hi s : Values F I R) : Prop :=
  tupleOrder hi s = .gt ∨ tupleOrder hi s = .eq ∧ hi.length = s.length

lemma Above.cons (h : Above as bs) (hvw : columnOrder v w ≠ .lt) : Above (v :: as) (w :: bs) := by
  unfold Above at h ⊢
  rw [tupleOrder]
  cases hc : columnOrder v w with
  | lt => exact absurd hc hvw
  | eq => simpa using h
  | gt => exact .inl rfl

variable {columns : Columns F I R} {s : Values F I R} {ranges others : Ranges F I R}

def Respells (c : SqlValue F (Scalar I R) × Nat) (w : SqlValue F (Scalar I R)) : Prop :=
  ∃ suffix, w = push suffix c.1

abbrev IsKey (columns : Columns F I R) (k : Values F I R) : Prop :=
  Forall₂ Respells (columns.take k.length) k

lemma IsKey.cons {c : SqlValue F (Scalar I R) × Nat} (hw : Respells c w) (h : IsKey columns s) :
    IsKey (c :: columns) (w :: s) := by
  rw [IsKey, length_cons, take_succ_cons]
  exact .cons hw h

lemma respells_self (c : SqlValue F (Scalar I R) × Nat) : Respells c c.1 :=
  ⟨[], (pad_zero c.1).symm⟩

lemma respells_bare (columns : Columns F I R) : Forall₂ Respells columns (columns.map (·.1)) :=
  forall₂_map_right_iff.mpr (forall₂_same.mpr fun c _ => respells_self c)

lemma isKey_ceiling (columns : Columns F I R) : IsKey columns (ceiling columns) := by
  induction columns with
  | nil => exact .nil
  | cons c columns ih =>
    rw [ceiling]
    split_ifs
    · exact .cons ⟨_, rfl⟩ .nil
    · exact ih.cons ⟨_, rfl⟩
    · exact ih.cons (respells_self c)

lemma Spells.respells (h : Spells columns s) : Forall₂ Respells columns s := by
  refine h.imp fun c w hw => ?_
  obtain ⟨n, -, hw⟩ := hw
  exact ⟨_, hw⟩

section

variable (hcolumns : ∀ c ∈ columns, IsColumn c)

include hcolumns

lemma Spells.bare_le (h : Spells columns s) : tupleOrder (columns.map (·.1)) s ≠ .gt := by
  induction columns generalizing s with
  | nil =>
    simp [tupleOrder]
  | cons c columns ih =>
    obtain ⟨hc, hcolumns⟩ := forall_mem_cons.mp hcolumns
    obtain ⟨w, s, ⟨n, hn, rfl⟩, hs, rfl⟩ := forall₂_cons_left_iff.mp h
    have hcol := hc.order_pad (Nat.zero_le _) hn
    rw [pad_zero] at hcol
    rw [map_cons, tupleOrder, hcol]
    cases n <;> simp [Nat.compare_eq_ite_lt, ih hcolumns hs]

lemma Spells.above_ceiling (h : Spells columns s) : Above (ceiling columns) s := by
  induction columns generalizing s with
  | nil =>
    cases h
    exact .inr ⟨rfl, rfl⟩
  | cons c columns ih =>
    obtain ⟨hc, hcolumns⟩ := forall_mem_cons.mp hcolumns
    obtain ⟨w, s, ⟨n, hn, rfl⟩, hs, rfl⟩ := forall₂_cons_left_iff.mp h
    rw [ceiling]
    split_ifs with hcut hpos
    -- `AFTER_BLANK` is above the first blank, and above the end of a text without one
    · obtain ⟨text, htext⟩ := hc (Nat.zero_lt_of_lt hcut)
      left
      rw [tupleOrder, htext, pad, columnOrder_push]
      cases n <;> rfl
    · refine (ih hcolumns hs).cons ?_
      rw [hc.order_pad (le_rfl) hn]
      exact fun h => not_lt.mpr hn (Nat.compare_eq_lt.mp h)
    · obtain rfl : n = 0 := Nat.le_zero.mp (hn.trans (not_lt.mp hpos))
      rw [pad_zero]
      exact (ih hcolumns hs).cons (by rw [columnOrder_self]; decide)

end

/-- The ranges hold every spelling of the columns, and go up. -/
structure Covers (columns : Columns F I R) (ranges : Ranges F I R) : Prop where
  keys : ∀ r ∈ ranges, Forall₂ Respells columns r.1 ∧ IsKey columns r.2
  cover : ∀ s, Spells columns s → ∃ r ∈ ranges, tupleOrder r.1 s ≠ .gt ∧ Above r.2 s
  apart : ranges.Pairwise fun r r' => tupleOrder r.2 r'.1 = .lt

lemma covers_rest (hcolumns : ∀ c ∈ columns, IsColumn c) :
    Covers columns [(columns.map (·.1), ceiling columns)] where
  keys r hr := by
    cases mem_singleton.mp hr
    exact ⟨respells_bare columns, isKey_ceiling columns⟩
  cover s hs := ⟨_, mem_cons_self, hs.bare_le hcolumns, hs.above_ceiling hcolumns⟩
  apart := pairwise_singleton _ _

def spelled (v : SqlValue F (Scalar I R)) (m : Nat) (ranges : Ranges F I R) : Ranges F I R :=
  (range m).flatMap fun n => ranges.map fun r => (pad n v :: r.1, pad n v :: r.2)

lemma mem_spelled {r : Values F I R × Values F I R} :
    r ∈ spelled v m ranges ↔ ∃ n < m, ∃ q ∈ ranges, (pad n v :: q.1, pad n v :: q.2) = r := by
  simp [spelled]

lemma IsColumn.pad_lt (hc : IsColumn (v, extra)) (hmn : m < n) (hn : n ≤ extra) :
    tupleOrder (pad m v :: as) (pad n v :: bs) = .lt := by
  rw [tupleOrder, hc.order_pad (hmn.le.trans hn) hn, Nat.compare_eq_lt.mpr hmn]
  rfl

/-- A column spelled out, or its first `m` spellings and one range for the others. -/
lemma Covers.cons (h : Covers columns ranges) (hcolumns : ∀ c ∈ (v, extra) :: columns, IsColumn c)
    (hothers : m = extra + 1 ∧ others = [] ∨
      m ≤ extra ∧ others = [(pad m v :: columns.map (·.1), ceiling ((v, extra) :: columns))]) :
    Covers ((v, extra) :: columns) (spelled v m ranges ++ others) where
  keys r hr := by
    rcases mem_append.mp hr with hr | hr
    · obtain ⟨n, -, q, hq, rfl⟩ := mem_spelled.mp hr
      obtain ⟨hlo, hhi⟩ := h.keys q hq
      exact ⟨.cons ⟨_, rfl⟩ hlo, hhi.cons ⟨_, rfl⟩⟩
    · rcases hothers with ⟨-, rfl⟩ | ⟨-, rfl⟩
      · cases hr
      · cases mem_singleton.mp hr
        exact ⟨.cons ⟨_, rfl⟩ (respells_bare columns), isKey_ceiling _⟩
  cover s hs := by
    obtain ⟨w, s, ⟨n, hn, rfl⟩, htail, rfl⟩ := forall₂_cons_left_iff.mp hs
    by_cases hnm : n < m
    · obtain ⟨q, hq, hlo, hhi⟩ := h.cover s htail
      refine ⟨_, mem_append_left _ (mem_spelled.mpr ⟨n, hnm, q, hq, rfl⟩), ?_, hhi.cons ?_⟩
      · rwa [tupleOrder, columnOrder_self, Ordering.eq_then]
      · rw [columnOrder_self]
        decide
    -- past the spellings probed one by one there is only the last range
    · rcases hothers with ⟨rfl, -⟩ | ⟨hm, rfl⟩
      · exact absurd (Nat.lt_succ_of_le hn) hnm
      · refine ⟨_, mem_append_right _ mem_cons_self, ?_, hs.above_ceiling hcolumns⟩
        obtain ⟨hc, hrest⟩ := forall_mem_cons.mp hcolumns
        rw [tupleOrder, hc.order_pad hm hn, Ne, Ordering.then_eq_gt]
        rintro (h | ⟨-, h⟩)
        · exact hnm (Nat.compare_eq_gt.mp h)
        · exact Spells.bare_le hrest htail h
  apart := by
    have hc := hcolumns _ mem_cons_self
    refine pairwise_append.mpr ⟨pairwise_flatMap.mpr ⟨fun n _ => ?_, ?_⟩, ?_, ?_⟩
    · rw [pairwise_map]
      refine h.apart.imp fun {q q'} hlt => ?_
      rwa [tupleOrder, columnOrder_self, Ordering.eq_then]
    · refine pairwise_lt_range.imp_of_mem fun {n n'} _ hn' hlt r hr r' hr' => ?_
      obtain ⟨q, -, rfl⟩ := mem_map.mp hr
      obtain ⟨q', -, rfl⟩ := mem_map.mp hr'
      exact hc.pad_lt hlt (by have := mem_range.mp hn'; omega)
    · rcases hothers with ⟨-, rfl⟩ | ⟨-, rfl⟩ <;> simp
    · intro r hr r' hr'
      obtain ⟨n, hn, q, -, rfl⟩ := mem_spelled.mp hr
      rcases hothers with ⟨-, rfl⟩ | ⟨hm, rfl⟩
      · cases hr'
      · cases mem_singleton.mp hr'
        exact hc.pad_lt hn hm

lemma tailKeys_eq (k : Values F I R) :
    tailKeys columns k = (k ++ columns.map (·.1), k ++ ceiling columns) := by
  have hceiling : columns.all (·.2 == 0) → ceiling columns = columns.map (·.1) := by
    intro h
    induction columns with
    | nil => rfl
    | cons c columns ih =>
      rw [all_cons, Bool.and_eq_true, beq_iff_eq] at h
      simp [ceiling, h.1, ih h.2]
  unfold tailKeys
  split_ifs with h
  · rw [hceiling h]
  · rfl

def under (combos : List (Values F I R)) (ranges : Ranges F I R) : Ranges F I R :=
  combos.flatMap fun k => ranges.map fun r => (k ++ r.1, k ++ r.2)

lemma under_spelled (combos : List (Values F I R)) :
    under (combos.flatMap fun k => (range m).map fun n => k ++ [pad n v]) ranges =
      under combos (spelled v m ranges) := by
  simp [under, spelled, flatMap_assoc, flatMap_map, map_flatMap, Function.comp_def]

/-- The loop goes on alike for every combination. -/
lemma probeKeys_eq (combos : List (Values F I R)) (hcolumns : ∀ c ∈ columns, IsColumn c) :
    ∃ ranges, Covers columns ranges ∧ probeKeys combos columns = under combos ranges := by
  fun_induction probeKeys combos columns with
  | case1 combos v next rest ih =>
    obtain ⟨ranges, hcovers, heq⟩ := ih (forall_mem_cons.mp hcolumns).2
    refine ⟨_, hcovers.cons hcolumns (.inl ⟨rfl, rfl⟩), ?_⟩
    rw [heq, append_nil, ← under_spelled]
    simp [pad_zero, ← map_eq_flatMap]
  | case2 combos v extra next rest _ _ ih =>
    obtain ⟨ranges, hcovers, heq⟩ := ih (forall_mem_cons.mp hcolumns).2
    refine ⟨_, hcovers.cons hcolumns (.inl ⟨rfl, rfl⟩), ?_⟩
    rw [heq, append_nil, under_spelled]
  | case3 combos v extra next rest hextra hallowed =>
    have hm : max (allowed combos) 1 ≤ extra := by omega
    have hrest := covers_rest (forall_mem_cons.mp hcolumns).2
    refine ⟨_, hrest.cons hcolumns (.inr ⟨hm, rfl⟩), ?_⟩
    simp [under, spelled, tailKeys_eq, Function.comp_def, ← map_eq_flatMap]
  | case4 combos rest hnot =>
    refine ⟨_, covers_rest hcolumns, ?_⟩
    simp [under, tailKeys_eq, ← map_eq_flatMap]

lemma columns_slacked (types : List ProbeType) (key : Values F I R) :
    ∀ c ∈ slacked types key, IsColumn c := by
  fun_induction slacked types key with
  | case1 ty types v key ih =>
    refine forall_mem_cons.mpr ⟨fun hpos => ?_, ih⟩
    unfold slackOf at hpos
    split at hpos
    · exact ⟨_, rfl⟩
    · exact absurd hpos (lt_irrefl 0)
  | case2 _ key _ =>
    intro c hc hpos
    obtain ⟨v, -, rfl⟩ := mem_map.mp hc
    exact absurd hpos (lt_irrefl 0)

lemma tupleOrder_take (as bs : Values F I R) :
    tupleOrder as (bs.take as.length) = tupleOrder as bs := by
  induction as generalizing bs with
  | nil => rfl
  | cons a as ih => cases bs <;> simp [tupleOrder, ih]

variable (op : Unopened F I R) {x y key : List UInt8}

lemma HasType.push {ty : KeyType} (h : HasType ty v) (suffix : List UInt8) :
    HasType ty (push suffix v) := by
  cases h <;> constructor <;> assumption

lemma OfType.separate {op : Unopened F I R} {ty : ProbeType} (h : OfType op ty v)
    (a b : List UInt8) : FieldsSeparate op (push a v) (push b v) := by
  cases h with
  | char width text => exact separates_encodeField op (.text _) (.text _)
  | @float f bytes hf =>
    have hfield : op.encodeField (.float f) = .ok (1 :: bytes) := by rw [Unopened.encodeField, hf]
    refine ⟨1, bytes, 1, bytes, hfield, hfield, by decide, by decide, ?_⟩
    have hsep := separates_of_length (x := 1 :: bytes) rfl
    rwa [Std.compare_self] at hsep
  | other h => exact separates_encodeField op (h.push a) (h.push b)

/-- What the bytes of keys over the columns rest on. -/
def Separate (columns : Columns F I R) : Prop :=
  ∀ c ∈ columns, ∀ a b, Respells c a → Respells c b → FieldsSeparate op a b

lemma separate_slacked {op : Unopened F I R} {types : List ProbeType} {key : Values F I R}
    (h : Forall₂ (OfType op) types key) : Separate op (slacked types key) := by
  induction h with
  | nil => exact forall_mem_nil _
  | cons hv _ ih =>
    refine forall_mem_cons.mpr ⟨?_, ih⟩
    rintro _ _ ⟨a, rfl⟩ ⟨b, rfl⟩
    exact hv.separate a b

def Unopened.keyBytes (op : Unopened F I R) (k : Values F I R) : List UInt8 :=
  (op.encodeIndexKey k).toOption.getD []

variable {op} (hsep : Separate op columns)

include hsep

lemma Separate.take (n : Nat) : Separate op (columns.take n) :=
  fun c hc => hsep c (mem_of_mem_take hc)

lemma encode_keyBytes (h : IsKey columns as) : op.encodeIndexKey as = .ok (op.keyBytes as) := by
  obtain ⟨x, -, hx, -⟩ := separates_encodeIndexKey op (forall₂_of_common (hsep.take _) h h)
  rw [Unopened.keyBytes, hx]
  rfl

omit hsep in
lemma isKey_of_respells (h : Forall₂ Respells columns as) : IsKey columns as := by
  rwa [IsKey, ← h.length_eq, take_length]

lemma placed_keyBytes (ha : IsKey columns as) (hb : Forall₂ Respells columns bs) :
    Placed (op.keyBytes as) (op.keyBytes bs) (tupleOrder as bs) (as.length = bs.length) := by
  obtain ⟨x, hx, hplaced⟩ := compare_prefix op (encode_keyBytes hsep (isKey_of_respells hb))
    (forall₂_of_common (hsep.take _) ha (forall₂_take _ hb)) (forall₂_of_common hsep hb hb)
    (tupleOrder_take as bs)
  cases (encode_keyBytes hsep ha).symm.trans hx
  exact hplaced

omit hsep

def Within (key : List UInt8) (r : Bound (List UInt8) × Bound (List UInt8)) : Prop :=
  AtLeast (compare · key) r.1 ∧ AtMost (compare · key) r.2

lemma not_within_both (h : compare x y = .lt) {b c : List UInt8} :
    ¬(Within key (.included b, .included x) ∧ Within key (.included y, .included c)) := by
  rintro ⟨⟨-, hx⟩, hy, -⟩
  exact hx (Std.TransCmp.lt_of_lt_of_isLE h (Ordering.isLE_iff_ne_gt.mpr hy))

def Unopened.rangeBytes (op : Unopened F I R) (r : Values F I R × Values F I R) :
    Bound (List UInt8) × Bound (List UInt8) :=
  (.included (op.keyBytes r.1), .included (op.keyBytes r.2))

variable (h : Covers columns ranges)

include hsep h

lemma Covers.apart_bytes : (ranges.map op.rangeBytes).Pairwise
    fun r r' => ∀ bytes, ¬(Within bytes r ∧ Within bytes r') := by
  rw [pairwise_map]
  refine h.apart.imp_of_mem fun {r r'} hr hr' hlt bytes => not_within_both ?_
  rcases (placed_keyBytes hsep (h.keys r hr).2 (h.keys r' hr').1).alone with heq | ⟨heq, -⟩
  · exact heq.trans hlt
  · exact absurd (heq.symm.trans hlt) (by decide)

lemma Covers.within (hs : Spells columns s) :
    ∃ r ∈ ranges.map op.rangeBytes, Within (op.keyBytes s) r := by
  obtain ⟨r, hr, hlo, hhi⟩ := h.cover s hs
  obtain ⟨hlow, hhigh⟩ := h.keys r hr
  refine ⟨_, mem_map_of_mem hr, ?_, ?_⟩
  · show compare (op.keyBytes r.1) _ ≠ .gt
    rwa [(placed_keyBytes hsep (isKey_of_respells hlow) hs.respells).whole
      (hlow.length_eq.symm.trans hs.length_eq)]
  · show compare (op.keyBytes r.2) _ ≠ .lt
    have hplaced := placed_keyBytes hsep hhigh hs.respells
    rcases hhi with hgt | ⟨heq, hlen⟩
    · rcases hplaced.alone with h | ⟨h, -⟩ <;> simp [h, hgt] at *
    · rw [hplaced.whole hlen, heq]
      decide

end

lemma existsUnique_index {α : Type} {P : α → Prop} {xs : List α} (hex : ∃ x ∈ xs, P x)
    (h : xs.Pairwise fun x y => ¬(P x ∧ P y)) : ∃! i : Nat, ∃ x, xs[i]? = some x ∧ P x := by
  obtain ⟨_, hx, hp⟩ := hex
  obtain ⟨i, hi, rfl⟩ := mem_iff_getElem.mp hx
  refine ⟨i, ⟨_, getElem?_eq_getElem hi, hp⟩, ?_⟩
  rintro j ⟨_, hj, hq⟩
  obtain ⟨hlen, rfl⟩ := List.getElem?_eq_some_iff.mp hj
  rw [pairwise_iff_getElem] at h
  rcases Nat.lt_trichotomy j i with hlt | heq | hlt
  · exact absurd ⟨hq, hp⟩ (h j i hlen hi hlt)
  · exact heq
  · exact absurd ⟨hp, hq⟩ (h i j hi hlen hlt)

/-! ## The spellings of a key -/

/-- How an entry may hold a value: as it is, or a `CHAR` value with blanks up to the column's
width. -/
inductive SpelledAs : ProbeType → SqlValue F (Scalar I R) → SqlValue F (Scalar I R) → Prop where
  | bare (ty : ProbeType) (v : SqlValue F (Scalar I R)) : SpelledAs ty v v
  | blanks {width n : Nat} {text : List UInt8}
    (hwidth : charCount (text ++ replicate n 0x20) ≤ width) :
    SpelledAs (.char width) (.other (.text text)) (.other (.text (text ++ replicate n 0x20)))

lemma SpelledAs.exists_pad {ty : ProbeType} {v w : SqlValue F (Scalar I R)} (h : SpelledAs ty v w) :
    ∃ n ≤ slackOf ty v, w = pad n v := by
  cases h with
  | bare => exact ⟨0, Nat.zero_le _, (pad_zero v).symm⟩
  | @blanks width n text hwidth =>
    refine ⟨n, ?_, rfl⟩
    have hcount : charCount (text ++ replicate n 0x20) = charCount text + n := by
      simp [charCount, countP_replicate]
    rw [hcount] at hwidth
    exact Nat.le_sub_of_add_le' hwidth

/-- A spelling of the key, value by value. -/
def SpellsKey (types : List ProbeType) (key s : Values F I R) : Prop :=
  Forall₂ (fun c => SpelledAs c.1 c.2) (types.zip key) s

lemma SpellsKey.spells {op : Unopened F I R} {types : List ProbeType} {key s : Values F I R}
    (hkey : Forall₂ (OfType op) types key) (h : SpellsKey types key s) :
    Spells (slacked types key) s := by
  induction hkey generalizing s with
  | nil =>
    cases h
    exact .nil
  | cons _ _ ih =>
    obtain ⟨w, s, hw, hs, rfl⟩ := forall₂_cons_left_iff.mp h
    exact .cons hw.exists_pad (ih hs)

/-- **Probes cover a key once**: every spelling of the key lies in one of the ranges and in no other,
and no two ranges meet. -/
theorem probe_ranges_exact (op : Unopened F I R) (types : List ProbeType) (key : ProbeKey op types) :
    ∃ ranges, op.probeRanges key.1 types = .ok ranges ∧
      (∀ s, SpellsKey types key.1 s → ∃ bytes, op.encodeIndexKey s = .ok bytes ∧
        ∃! i : Nat, ∃ r, ranges[i]? = some r ∧ Within bytes r) ∧
      ranges.Pairwise fun r r' => ∀ bytes, ¬(Within bytes r ∧ Within bytes r') := by
  have hsep := separate_slacked key.2
  obtain ⟨keys, hcovers, hkeys⟩ := probeKeys_eq [[]] (columns_slacked types key.1)
  replace hkeys : probeKeys [[]] (slacked types key.1) = keys := by simpa [under] using hkeys
  have hapart := hcovers.apart_bytes hsep
  refine ⟨keys.map op.rangeBytes, ?_, fun s hs => ?_, hapart⟩
  · rw [Unopened.probeRanges, hkeys, mapM_eq_ok, forall₂_map_right_iff, forall₂_same]
    intro r hr
    obtain ⟨hlo, hhi⟩ := hcovers.keys r hr
    rw [encode_keyBytes hsep (isKey_of_respells hlo), encode_keyBytes hsep hhi]
    rfl
  · replace hs := hs.spells key.2
    exact ⟨_, encode_keyBytes hsep (isKey_of_respells hs.respells),
      existsUnique_index (hcovers.within hsep hs) (hapart.imp fun h => h _)⟩

end NusaDb.Sql
