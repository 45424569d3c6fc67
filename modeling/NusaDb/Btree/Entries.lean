import NusaDb.Btree.Index

/-!
# The entries of one row

Every operation on an index changes the entries of one row and looks at nothing else: each operation
of `IndexData` is the one of `RowEntries` at its row and the identity at every other.
-/

namespace NusaDb

open List Function OrdMap

/-- What an index holds for one row: its alive key, and its ranges under each key. -/
@[ext] structure RowEntries where
  alive : Option Key
  ranges : Key → List EntryMeta

namespace RowEntries

def set (r : RowEntries) (key : Key) (metas : List EntryMeta) : RowEntries :=
  { r with ranges := Function.update r.ranges key metas }

def stamp (r : RowEntries) (oldKey : Key) (txn : TxnId) : RowEntries :=
  r.set oldKey (modifyLast (fun m => m.xmax == noXmax) (fun m => { m with xmax := txn })
    (r.ranges oldKey))

def push (r : RowEntries) (key : Key) (range : EntryMeta) : RowEntries :=
  { r.set key (r.ranges key ++ [range]) with alive := some key }

def insert (r : RowEntries) (key : Key) (txn : TxnId) : RowEntries × AppliedInsert :=
  match r.alive with
  | some oldKey =>
    if oldKey = key then (r, .noop)
    else ((r.stamp oldKey txn).push key ⟨txn, noXmax⟩, .inserted (some oldKey))
  | none => (r.push key ⟨txn, noXmax⟩, .inserted none)

def clearAt (r : RowEntries) (key : Key) : RowEntries :=
  if r.alive = some key then { r with alive := none } else r

def removeInserted (r : RowEntries) (key : Key) (txn : TxnId) : RowEntries :=
  (r.set key (eraseLast (fun m => m.xmin == txn && m.xmax == noXmax) (r.ranges key))).clearAt key

def delete (r : RowEntries) (key : Key) : RowEntries × Option EntryMeta :=
  match findLast? (fun m => m.xmax == noXmax) (r.ranges key) with
  | none => (r, none)
  | some removed =>
    ((r.set key (eraseLast (fun m => m.xmax == noXmax) (r.ranges key))).clearAt key, some removed)

def unstamp (r : RowEntries) (key : Key) (txn : TxnId) : RowEntries :=
  if (r.ranges key).any fun m => m.xmax == txn then
    { r.set key (modifyLast (fun m => m.xmax == txn) (fun m => { m with xmax := noXmax })
        (r.ranges key)) with alive := some key }
  else r

def restore (r : RowEntries) (key : Key) (range : EntryMeta) : RowEntries :=
  if range.xmax = noXmax then { r.set key (r.ranges key ++ [range]) with alive := some key }
  else r.set key (r.ranges key ++ [range])

def purged (r : RowEntries) (settled : TxnId → Bool) : RowEntries :=
  { r with ranges := fun key =>
      (r.ranges key).filter fun m => !(m.xmax != noXmax && settled m.xmax) }

lemma set_self (r : RowEntries) (key : Key) : r.set key (r.ranges key) = r := by
  unfold set
  rw [update_eq_self]

end RowEntries

namespace IndexData

def rowEntries (d : IndexData) (row : RowId) : RowEntries :=
  ⟨d.aliveKey row, fun key => (d.load key row).getD []⟩

variable (d : IndexData) (key : Key) (row row' : RowId) (txn : TxnId)

lemma load_save (key key' : Key) (row row' : RowId) (metas : List EntryMeta) :
    ((d.save key row metas).load key' row').getD [] =
      if key' = key ∧ row' = row then metas else (d.load key' row').getD [] := by
  unfold save load
  have hpos : (⟨key, row⟩ : EntryKey) = ⟨key', row'⟩ ↔ key' = key ∧ row' = row := by
    rw [EntryKey.mk.injEq]
    exact ⟨fun h => ⟨h.1.symm, h.2.symm⟩, fun h => ⟨h.1.symm, h.2.symm⟩⟩
  split
  · rename_i hempty
    rw [get?_erase, isEmpty_iff.mp hempty]
    simp only [hpos]
    split <;> rfl
  · rw [get?_insert]
    simp only [hpos]
    split <;> rfl

lemma rowEntries_save (metas : List EntryMeta) : (d.save key row metas).rowEntries row' =
      if row' = row then (d.rowEntries row).set key metas else d.rowEntries row' := by
  split
  · rename_i hrow
    subst hrow
    refine RowEntries.ext rfl ?_
    funext key'
    show ((d.save key row' metas).load key' row').getD [] =
      update (d.rowEntries row').ranges key metas key'
    rw [load_save, update_apply]
    simp only [and_true]
    rfl
  · rename_i hrow
    refine RowEntries.ext rfl ?_
    funext key'
    show ((d.save key row metas).load key' row').getD [] = (d.load key' row').getD []
    rw [load_save, if_neg fun h => hrow h.2]

lemma rowEntries_setAlive (key : Key) : (d.setAlive row key).rowEntries row' =
      if row' = row then { d.rowEntries row with alive := some key } else d.rowEntries row' := by
  unfold setAlive rowEntries aliveKey
  rw [get?_insert]
  split
  · rename_i hrow
    subst hrow
    rw [if_pos rfl]
    rfl
  · rename_i hrow
    rw [if_neg (Ne.symm hrow)]
    rfl

lemma rowEntries_clearAlive : (d.clearAlive row).rowEntries row' =
      if row' = row then { d.rowEntries row with alive := none } else d.rowEntries row' := by
  unfold clearAlive rowEntries aliveKey
  rw [get?_erase]
  split
  · rename_i hrow
    subst hrow
    rw [if_pos rfl]
    rfl
  · rename_i hrow
    rw [if_neg (Ne.symm hrow)]
    rfl

lemma rowEntries_clearAliveAt : (d.clearAliveAt key row).rowEntries row' =
      if row' = row then (d.rowEntries row).clearAt key else d.rowEntries row' := by
  unfold clearAliveAt RowEntries.clearAt
  show _ = if row' = row then (if d.aliveKey row = some key then _ else _) else _
  split
  · rw [rowEntries_clearAlive]
  split
  · rename_i hrow
    rw [hrow]
  · rfl

lemma rowEntries_stampAlive (oldKey : Key) (row row' : RowId) (txn : TxnId) :
    (d.stampAlive oldKey row txn).rowEntries row' =
      if row' = row then (d.rowEntries row).stamp oldKey txn else d.rowEntries row' := by
  unfold stampAlive RowEntries.stamp
  cases hload : d.load oldKey row with
  | none =>
    have hnil : (d.rowEntries row).ranges oldKey = [] := by
      show (d.load oldKey row).getD [] = []
      rw [hload]
      rfl
    have hset := (d.rowEntries row).set_self oldKey
    rw [hnil] at hset
    rw [hnil]
    show d.rowEntries row' = if row' = row then (d.rowEntries row).set oldKey [] else _
    rw [hset]
    split
    · rename_i hrow
      rw [hrow]
    · rfl
  | some metas =>
    have hmetas : (d.rowEntries row).ranges oldKey = metas := by
      show (d.load oldKey row).getD [] = metas
      rw [hload]
      rfl
    rw [hmetas]
    exact rowEntries_save ..

lemma rowEntries_pushAlive (range : EntryMeta) : (d.pushAlive key row range).rowEntries row' =
      if row' = row then (d.rowEntries row).push key range else d.rowEntries row' := by
  unfold pushAlive RowEntries.push
  rw [rowEntries_setAlive, rowEntries_save, rowEntries_save, if_pos rfl]
  split
  · rfl
  · rfl

lemma rowEntries_applyInsert : (d.applyInsert key row txn).1.rowEntries row' =
      if row' = row then ((d.rowEntries row).insert key txn).1 else d.rowEntries row' := by
  unfold applyInsert RowEntries.insert
  show _ = if row' = row then Prod.fst (match d.aliveKey row with
    | some oldKey => _
    | none => _) else _
  rcases d.aliveKey row with _ | oldKey
  · exact rowEntries_pushAlive ..
  dsimp only
  split
  · split
    · rename_i hrow
      rw [hrow]
    · rfl
  · rw [rowEntries_pushAlive, rowEntries_stampAlive, rowEntries_stampAlive, if_pos rfl]
    split <;> rfl

lemma applyInsert_snd :
    (d.applyInsert key row txn).2 = ((d.rowEntries row).insert key txn).2 := by
  unfold applyInsert RowEntries.insert
  show _ = Prod.snd (match d.aliveKey row with
    | some oldKey => _
    | none => _)
  cases d.aliveKey row with
  | none => rfl
  | some oldKey =>
    dsimp only
    split <;> rfl

lemma rowEntries_removeInserted : (d.removeInserted key row txn).rowEntries row' =
      if row' = row then (d.rowEntries row).removeInserted key txn else d.rowEntries row' := by
  unfold removeInserted RowEntries.removeInserted
  cases hload : d.load key row with
  | none =>
    have hnil : (d.rowEntries row).ranges key = [] := by
      show (d.load key row).getD [] = []
      rw [hload]
      rfl
    have hset := (d.rowEntries row).set_self key
    rw [hnil] at hset
    rw [hnil]
    show (d.clearAliveAt key row).rowEntries row' =
      if row' = row then ((d.rowEntries row).set key []).clearAt key else _
    rw [hset]
    exact rowEntries_clearAliveAt ..
  | some metas =>
    have hmetas : (d.rowEntries row).ranges key = metas := by
      show (d.load key row).getD [] = metas
      rw [hload]
      rfl
    rw [hmetas]
    rw [rowEntries_clearAliveAt, rowEntries_save, rowEntries_save, if_pos rfl]
    split <;> rfl

lemma rowEntries_ite :
    d.rowEntries row' = if row' = row then d.rowEntries row else d.rowEntries row' := by
  split
  · rename_i hrow
    rw [hrow]
  · rfl

lemma rowEntries_applyDelete : (d.applyDelete key row).1.rowEntries row' =
      if row' = row then ((d.rowEntries row).delete key).1 else d.rowEntries row' := by
  unfold applyDelete RowEntries.delete
  have hmetas : (d.rowEntries row).ranges key = (d.load key row).getD [] := rfl
  rw [hmetas]
  rcases d.load key row with _ | metas
  · exact d.rowEntries_ite row row'
  dsimp only [Option.getD_some]
  cases findLast? (fun m => m.xmax == noXmax) metas with
  | none => exact d.rowEntries_ite row row'
  | some removed =>
    rw [rowEntries_clearAliveAt, rowEntries_save, rowEntries_save, if_pos rfl]
    split <;> rfl

lemma applyDelete_snd : (d.applyDelete key row).2 = ((d.rowEntries row).delete key).2 := by
  unfold applyDelete RowEntries.delete
  have hmetas : (d.rowEntries row).ranges key = (d.load key row).getD [] := rfl
  rw [hmetas]
  cases d.load key row with
  | none => rfl
  | some metas =>
    dsimp only [Option.getD_some]
    cases findLast? (fun m => m.xmax == noXmax) metas <;> rfl

lemma rowEntries_applyUnstamp : (d.applyUnstamp key row txn).rowEntries row' =
      if row' = row then (d.rowEntries row).unstamp key txn else d.rowEntries row' := by
  unfold applyUnstamp RowEntries.unstamp
  have hmetas : (d.rowEntries row).ranges key = (d.load key row).getD [] := rfl
  rw [hmetas]
  cases d.load key row with
  | none => exact d.rowEntries_ite row row'
  | some metas =>
    dsimp only [Option.getD_some]
    split
    · rw [rowEntries_setAlive, rowEntries_save, rowEntries_save, if_pos rfl]
      split <;> rfl
    · exact d.rowEntries_ite row row'

lemma rowEntries_restoreDeleted (range : EntryMeta) :
    (d.restoreDeleted key row range).rowEntries row' =
      if row' = row then (d.rowEntries row).restore key range else d.rowEntries row' := by
  unfold restoreDeleted RowEntries.restore
  split
  · rw [rowEntries_setAlive, rowEntries_save, rowEntries_save, if_pos rfl]
    split <;> rfl
  · rw [rowEntries_save]
    rfl

def purgeDrops (removed : List RowId) (settled : TxnId → Bool) (row : RowId) (m : EntryMeta) :
    Bool :=
  removed.contains row || (m.xmax != noXmax && settled m.xmax)

section

variable (removed : List RowId) (d : IndexData) (row : RowId) (settled : TxnId → Bool)

/-- Purging one entry drops settled, removed ranges of its key only. -/
lemma rowEntries_purgeEntry (e : EntryKey) :
    (purgeEntry removed settled d e).rowEntries row = if row = e.row then (d.rowEntries row).set
      e.key (((d.rowEntries row).ranges e.key).filter fun m => !purgeDrops removed settled row m)
      else d.rowEntries row := by
  unfold purgeEntry
  cases hload : d.load e.key e.row with
  | none =>
    dsimp only
    split
    · rename_i hrow
      subst hrow
      have hnil : (d.rowEntries e.row).ranges e.key = [] := by
        show (d.load e.key e.row).getD [] = []
        rw [hload]
        rfl
      have hset := (d.rowEntries e.row).set_self e.key
      rw [hnil] at hset
      rw [hnil]
      exact hset.symm
    · rfl
  | some metas =>
    have hmetas : (d.rowEntries e.row).ranges e.key = metas := by
      show (d.load e.key e.row).getD [] = metas
      rw [hload]
      rfl
    dsimp only
    split
    · -- nothing to drop: the filter is the identity
      rename_i hlen
      split
      · rename_i hrow
        subst hrow
        have hall := length_filter_eq_length_iff.mp hlen
        have hkept : metas.filter (fun m => !purgeDrops removed settled e.row m) = metas :=
          filter_eq_self.mpr hall
        rw [hmetas, hkept, ← hmetas, RowEntries.set_self]
      · rfl
    · rw [rowEntries_save]
      split
      · rename_i hrow
        subst hrow
        rw [hmetas]
        rfl
      · rfl

lemma rowEntries_purgeFold
    (targets : List EntryKey) :
    (targets.foldl (purgeEntry removed settled) d).rowEntries row =
      { d.rowEntries row with ranges := fun key =>
          if ⟨key, row⟩ ∈ targets then
            ((d.rowEntries row).ranges key).filter fun m => !purgeDrops removed settled row m
          else (d.rowEntries row).ranges key } := by
  induction targets generalizing d with
  | nil => simp
  | cons e targets ih =>
    rw [foldl_cons, ih, rowEntries_purgeEntry]
    split
    · rename_i hrow
      subst hrow
      refine RowEntries.ext rfl ?_
      funext key
      simp only [RowEntries.set, mem_cons]
      by_cases hkey : key = e.key
      · subst hkey
        simp [update_self, filter_filter]
      have hne : (⟨key, e.row⟩ : EntryKey) ≠ e := by
        intro heq
        exact hkey (congrArg EntryKey.key heq)
      simp [update_of_ne hkey, hne]
    · rename_i hrow
      refine RowEntries.ext rfl ?_
      funext key
      have hne : (⟨key, row⟩ : EntryKey) ≠ e := by
        intro heq
        exact hrow (congrArg EntryKey.row heq)
      simp [hne]

lemma rowEntries_clearFold :
    (removed.foldl clearAlive d).rowEntries row =
      if row ∈ removed then { d.rowEntries row with alive := none } else d.rowEntries row := by
  induction removed generalizing d with
  | nil => simp
  | cons r removed ih =>
    rw [foldl_cons, ih, rowEntries_clearAlive]
    by_cases hr : row = r
    · subst hr
      simp
    · simp [hr]

end

lemma mem_deadPairs {d : IndexData} {key : Key} {row : RowId} :
    ⟨key, row⟩ ∈ d.deadPairs ↔ ∃ m ∈ (d.rowEntries row).ranges key, m.xmax ≠ noXmax := by
  have hranges : (d.rowEntries row).ranges key = (d.entries.get? ⟨key, row⟩).getD [] := rfl
  unfold deadPairs
  rw [hranges, mem_map]
  constructor
  · intro h
    obtain ⟨⟨k, metas⟩, hmem, heq⟩ := h
    obtain ⟨hget, hany⟩ := mem_filter.mp hmem
    have hk : k = ⟨key, row⟩ := heq
    subst hk
    rw [mem_toList.mp hget]
    obtain ⟨m, hm, hx⟩ := any_eq_true.mp hany
    exact ⟨m, hm, by simpa using hx⟩
  · intro h
    obtain ⟨m, hm, hx⟩ := h
    rcases hget : d.entries.get? ⟨key, row⟩ with _ | metas <;> rw [hget] at hm
    · cases hm
    refine ⟨(⟨key, row⟩, metas), mem_filter.mpr ⟨mem_toList.mpr hget, ?_⟩, rfl⟩
    exact any_eq_true.mpr ⟨m, hm, by simpa using hx⟩

variable {row} in
/-- **Purge thins the entries**: a row that stays loses exactly its settled dead ranges. -/
theorem rowEntries_purge {removed : List RowId} (hrow : row ∉ removed) (settled : TxnId → Bool)
    (d : IndexData) : (d.purge removed settled).rowEntries row = (d.rowEntries row).purged settled := by
  unfold purge
  rw [rowEntries_clearFold, if_neg hrow, rowEntries_purgeFold]
  refine RowEntries.ext rfl ?_
  funext key
  have hdrops : ∀ m, purgeDrops removed settled row m = (m.xmax != noXmax && settled m.xmax) := by
    intro m
    simp [purgeDrops, hrow]
  simp only [hdrops, RowEntries.purged]
  split
  · rfl
  -- not a target: no range of it is dead
  rename_i hnot
  refine (filter_eq_self.mpr ?_).symm
  intro m hm
  have hdead : ⟨key, row⟩ ∉ d.deadPairs := by
    intro hmem
    exact hnot (mem_dedup.mpr (mem_append_left _ hmem))
  rw [mem_deadPairs] at hdead
  by_cases hx : m.xmax = noXmax
  · simp [hx]
  · exact absurd ⟨m, hm, hx⟩ hdead

end IndexData

end NusaDb
