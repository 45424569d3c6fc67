import NusaDb.Btree.EntryLog

/-!
# Key events of one row

What an index holds for a row is what its surviving key events left: a key entered, which ends the
range of the key before, or the alive key's range removed.
-/

namespace NusaDb

open List Function

open History (Ver)
open RowEntries IndexData

namespace RowEntries

def empty : RowEntries := ⟨none, fun _ => []⟩

/-- One event of `txn`: a key is entered, or the range of the alive key is removed. -/
def put (r : RowEntries) (txn : TxnId) : Option Key → RowEntries
  | some key => (r.insert key txn).1
  | none =>
    match r.alive with
    | none => r
    | some key => (r.delete key).1

def putOps (r : RowEntries) (pos : Pos) (txn : TxnId) : Option Key → List UndoOp
  | some key => r.insertOps pos.1 key pos.2 txn
  | none =>
    match r.alive with
    | none => []
    | some key => r.deleteOps pos.1 key pos.2

def putAll (r : RowEntries) (txn : TxnId) : List (Option Key) → RowEntries
  | [] => r
  | v :: older => (r.putAll txn older).put txn v

def putAllOps (r : RowEntries) (pos : Pos) (txn : TxnId) : List (Option Key) → List UndoOp
  | [] => []
  | v :: older => (r.putAll txn older).putOps pos txn v ++ r.putAllOps pos txn older

/-- What the events, newest first, leave of a row that had no entries. -/
def replay : List Ver → RowEntries
  | [] => empty
  | w :: older => (replay older).put w.txn w.value

/-- The alive key has one alive range, its last; every other range is dead. -/
structure Ok (r : RowEntries) : Prop where
  alive : ∀ key, r.alive = some key → ∃ old m, r.ranges key = old ++ [m] ∧ m.xmax = noXmax ∧
    ∀ m' ∈ old, m'.xmax ≠ noXmax
  dead : ∀ key, r.alive ≠ some key → ∀ m ∈ r.ranges key, m.xmax ≠ noXmax

variable {r : RowEntries} {txn : TxnId} {key oldKey : Key} {old : List EntryMeta} {m : EntryMeta}

lemma ranges_set_self (r : RowEntries) (key : Key) (metas : List EntryMeta) :
    (r.set key metas).ranges key = metas :=
  update_self ..

variable {key' : Key}

lemma ranges_set_other (r : RowEntries) (hne : key' ≠ key) (metas : List EntryMeta) :
    (r.set key metas).ranges key' = r.ranges key' :=
  update_of_ne hne ..

lemma ranges_push_self (r : RowEntries) (key : Key) (range : EntryMeta) :
    (r.push key range).ranges key = r.ranges key ++ [range] :=
  update_self ..

lemma ranges_push_other (r : RowEntries) (hne : key' ≠ key) (range : EntryMeta) :
    (r.push key range).ranges key' = r.ranges key' :=
  update_of_ne hne ..

lemma stamp_eq (hranges : r.ranges oldKey = old ++ [m]) (hm : m.xmax = noXmax) (txn : TxnId) :
    r.stamp oldKey txn = r.set oldKey (old ++ [{ m with xmax := txn }]) := by
  have hlast : modifyLast (fun m : EntryMeta => m.xmax == noXmax)
      (fun m => { m with xmax := txn }) (old ++ [m]) = old ++ [{ m with xmax := txn }] :=
    modifyLast_append_singleton (by rw [hm]; rfl)
  unfold stamp
  rw [hranges, hlast]

lemma delete_eq (halive : r.alive = some key) (hranges : r.ranges key = old ++ [m])
    (hm : m.xmax = noXmax) : r.delete key = ({ r.set key old with alive := none }, some m) := by
  have hm' : (m.xmax == noXmax) = true := beq_iff_eq.mpr hm
  have hfind : findLast? (fun m : EntryMeta => m.xmax == noXmax) (old ++ [m]) = some m :=
    findLast?_append_singleton hm'
  have herase : eraseLast (fun m : EntryMeta => m.xmax == noXmax) (old ++ [m]) = old :=
    eraseLast_append_singleton hm'
  unfold delete
  rw [hranges, hfind]
  rw [herase]
  unfold clearAt
  rw [if_pos (show (r.set key old).alive = some key from halive)]

lemma Ok.delete_eq_none (hok : r.Ok) (hne : r.alive ≠ some key) : r.delete key = (r, none) := by
  have hnone : (r.ranges key).any (fun m => m.xmax == noXmax) = false := by
    rw [any_eq_false]
    intro m hm
    rw [beq_iff_eq]
    exact hok.dead key hne m hm
  unfold delete
  rw [findLast?_eq_none_iff.mpr hnone]

lemma insert_eq_noop (halive : r.alive = some key) : r.insert key txn = (r, .noop) := by
  unfold insert
  rw [halive]
  exact if_pos rfl

lemma insert_eq_first (halive : r.alive = none) :
    r.insert key txn = (r.push key ⟨txn, noXmax⟩, .inserted none) := by
  unfold insert
  rw [halive]

lemma insert_eq_move (halive : r.alive = some oldKey) (hne : oldKey ≠ key) :
    r.insert key txn =
      ((r.stamp oldKey txn).push key ⟨txn, noXmax⟩, .inserted (some oldKey)) := by
  unfold insert
  rw [halive]
  exact if_neg hne

lemma alive_put (hok : r.Ok) (txn : TxnId) (v : Option Key) : (r.put txn v).alive = v := by
  cases v with
  | none =>
    unfold put
    cases halive : r.alive with
    | none => exact halive
    | some key =>
      obtain ⟨old, m, hranges, hm, -⟩ := hok.alive key halive
      dsimp only
      rw [delete_eq halive hranges hm]
  | some key =>
    show (r.insert key txn).1.alive = some key
    cases halive : r.alive with
    | none =>
      rw [insert_eq_first halive]
      rfl
    | some oldKey =>
      by_cases hk : oldKey = key
      · rw [insert_eq_noop (hk ▸ halive)]
        exact hk ▸ halive
      · rw [insert_eq_move halive hk]
        rfl

lemma Ok.push (hdead : ∀ key, ∀ m ∈ r.ranges key, m.xmax ≠ noXmax) (key : Key) (txn : TxnId) :
    (r.push key ⟨txn, noXmax⟩).Ok := by
  constructor
  · rintro key' hkey
    cases hkey
    exact ⟨r.ranges key, ⟨txn, noXmax⟩, r.ranges_push_self key _, rfl, hdead key⟩
  · intro key' hkey
    have hne : key' ≠ key := fun h => hkey (h ▸ rfl)
    rw [r.ranges_push_other hne]
    exact hdead key'

variable {metas : List EntryMeta}

lemma Ok.dead_set (hok : r.Ok) (halive : r.alive = some key) (hranges : r.ranges key = old ++ [m])
    (hmetas : ∀ m ∈ metas, m.xmax ≠ noXmax) :
    ∀ key', ∀ m ∈ (r.set key (old ++ metas)).ranges key', m.xmax ≠ noXmax := by
  intro key'
  by_cases hk : key' = key
  · subst hk
    rw [ranges_set_self]
    intro m' hm'
    rcases mem_append.mp hm' with hm' | hm'
    · obtain ⟨old', m2, hranges', -, hold⟩ := hok.alive key' halive
      obtain ⟨rfl, -⟩ := append_inj' (hranges.symm.trans hranges') rfl
      exact hold m' hm'
    · exact hmetas m' hm'
  · rw [r.ranges_set_other hk]
    exact hok.dead key' fun h => hk (Option.some.inj (h.symm.trans halive))

lemma Ok.put (hok : r.Ok) (htxn : txn ≠ noXmax) (v : Option Key) : (r.put txn v).Ok := by
  cases halive : r.alive with
  | none =>
    have hdead : ∀ key, ∀ m ∈ r.ranges key, m.xmax ≠ noXmax :=
      fun key => hok.dead key (by rw [halive]; exact nofun)
    cases v with
    | none =>
      unfold RowEntries.put
      rw [halive]
      exact hok
    | some key =>
      show (r.insert key txn).1.Ok
      rw [insert_eq_first halive]
      exact Ok.push hdead key txn
  | some oldKey =>
    obtain ⟨old, m, hranges, hm, -⟩ := hok.alive oldKey halive
    cases v with
    | none =>
      unfold RowEntries.put
      rw [halive]
      dsimp only
      rw [delete_eq halive hranges hm]
      have hdead : ∀ key, ∀ m ∈ (r.set oldKey (old ++ [])).ranges key, m.xmax ≠ noXmax :=
        hok.dead_set halive hranges nofun
      rw [append_nil] at hdead
      exact ⟨nofun, fun key _ => hdead key⟩
    | some key =>
      show (r.insert key txn).1.Ok
      by_cases hk : oldKey = key
      · rw [insert_eq_noop (hk ▸ halive)]
        exact hok
      rw [insert_eq_move halive hk, stamp_eq hranges hm]
      refine Ok.push (hok.dead_set halive hranges fun m' hm' => ?_) key txn
      rw [mem_singleton.mp hm']
      exact htxn

lemma Ok.empty : empty.Ok := ⟨nofun, nofun⟩

lemma Ok.putAll (hok : r.Ok) (htxn : txn ≠ noXmax) (vs : List (Option Key)) :
    (r.putAll txn vs).Ok := by
  induction vs with
  | nil => exact hok
  | cons v older ih => exact ih.put htxn v

variable {ws : List Ver}

lemma Ok.replay (hws : ∀ w ∈ ws, w.txn ≠ noXmax) : (replay ws).Ok := by
  induction ws with
  | nil => exact .empty
  | cons w ws ih =>
    exact (ih fun w' hw' => hws w' (mem_cons_of_mem _ hw')).put (hws w mem_cons_self) _

lemma replay_append (txn : TxnId) (vs : List (Option Key)) (ws : List Ver) :
    replay (vs.map (fun v => ⟨txn, v⟩) ++ ws) = (replay ws).putAll txn vs := by
  induction vs with
  | nil => rfl
  | cons v vs ih =>
    rw [map_cons, cons_append, replay, ih]
    rfl

lemma alive_replay (hws : ∀ w ∈ ws, w.txn ≠ noXmax) :
    (replay ws).alive = ws.head?.bind Ver.value := by
  cases ws with
  | nil => rfl
  | cons w ws =>
    exact alive_put (.replay fun w' hw' => hws w' (mem_cons_of_mem _ hw')) _ _

lemma removeInserted_push (r : RowEntries) (key : Key) (txn : TxnId) :
    (r.push key ⟨txn, noXmax⟩).removeInserted key txn = { r with alive := none } := by
  unfold removeInserted
  rw [ranges_push_self, eraseLast_append_singleton (by simp)]
  unfold clearAt
  rw [if_pos (show ((r.push key ⟨txn, noXmax⟩).set key _).alive = some key from rfl)]
  refine RowEntries.ext rfl ?_
  show Function.update (Function.update r.ranges key _) key (r.ranges key) = r.ranges
  rw [update_idem, update_eq_self]

/-- **Undoing an event takes the entries back.** -/
theorem undone_put (hok : r.Ok) (pos : Pos) (txn : TxnId) (v : Option Key) :
    (r.putOps pos txn v).foldl (undone txn) (r.put txn v) = r := by
  cases halive : r.alive with
  | none =>
    cases v with
    | none =>
      unfold putOps put
      rw [halive]
      rfl
    | some key =>
      show (r.insertOps pos.1 key pos.2 txn).foldl _ (r.insert key txn).1 = r
      unfold insertOps
      rw [insert_eq_first halive]
      show (r.push key ⟨txn, noXmax⟩).removeInserted key txn = r
      rw [removeInserted_push]
      exact RowEntries.ext halive.symm rfl
  | some oldKey =>
    obtain ⟨old, m, hranges, hm, -⟩ := hok.alive oldKey halive
    cases v with
    | none =>
      unfold putOps put
      rw [halive]
      dsimp only
      unfold deleteOps
      rw [delete_eq halive hranges hm]
      show restore _ oldKey m = r
      unfold restore
      rw [if_pos hm]
      refine RowEntries.ext halive.symm ?_
      show Function.update (Function.update r.ranges oldKey old) oldKey
        (update r.ranges oldKey old oldKey ++ [m]) = r.ranges
      rw [update_self, update_idem, ← hranges, update_eq_self]
    | some key =>
      show (r.insertOps pos.1 key pos.2 txn).foldl _ (r.insert key txn).1 = r
      unfold insertOps
      by_cases hk : oldKey = key
      · rw [insert_eq_noop (hk ▸ halive)]
        rfl
      rw [insert_eq_move halive hk, stamp_eq hranges hm]
      show ((push _ key ⟨txn, noXmax⟩).removeInserted key txn).unstamp oldKey txn = r
      rw [removeInserted_push]
      -- the range the move had ended is the last under the old key
      unfold unstamp
      rw [ranges_set_self, if_pos (by simp), modifyLast_append_singleton (by simp)]
      refine RowEntries.ext halive.symm ?_
      show Function.update (Function.update r.ranges oldKey _) oldKey
        (old ++ [{ m with xmax := noXmax }]) = r.ranges
      have hm' : ({ m with xmax := noXmax } : EntryMeta) = m := by
        cases m
        dsimp only at hm
        rw [hm]
      rw [update_idem, hm', ← hranges, update_eq_self]

lemma undone_putAll (hok : r.Ok) (htxn : txn ≠ noXmax) (pos : Pos)
    (newer older : List (Option Key)) {ops : List UndoOp}
    (hops : r.putAllOps pos txn (newer ++ older) = ops ++ r.putAllOps pos txn older) :
    ops.foldl (undone txn) (r.putAll txn (newer ++ older)) = r.putAll txn older := by
  induction newer generalizing ops with
  | nil =>
    have hnil : ops = [] := by
      exact self_eq_append_left.mp hops
    rw [hnil]
    rfl
  | cons v newer ih =>
    have hsplit : r.putAllOps pos txn (v :: newer ++ older) =
        (r.putAll txn (newer ++ older)).putOps pos txn v ++ r.putAllOps pos txn (newer ++ older) := rfl
    obtain ⟨rest, hrest⟩ : ∃ rest, r.putAllOps pos txn (newer ++ older) =
        rest ++ r.putAllOps pos txn older := by
      clear ih hops hsplit
      induction newer with
      | nil => exact ⟨[], rfl⟩
      | cons v newer ih =>
        obtain ⟨rest, hrest⟩ := ih
        exact ⟨_ ++ rest, by rw [cons_append, putAllOps, hrest, append_assoc]⟩
    have hops' : ops = (r.putAll txn (newer ++ older)).putOps pos txn v ++ rest := by
      rw [hsplit, hrest, ← append_assoc] at hops
      exact (append_cancel_right hops).symm
    rw [hops', foldl_append]
    show rest.foldl _ (foldl _ ((r.putAll txn (newer ++ older)).put txn v) _) = _
    rw [undone_put (hok.putAll htxn _)]
    exact ih hrest

lemma mem_set (hm : m ∈ (r.set key metas).ranges key') :
    key' = key ∧ m ∈ metas ∨ m ∈ r.ranges key' := by
  by_cases hk : key' = key
  · subst hk
    rw [ranges_set_self] at hm
    exact .inl ⟨rfl, hm⟩
  · rw [r.ranges_set_other hk] at hm
    exact .inr hm

lemma mem_push {range : EntryMeta} (hm : m ∈ (r.push key range).ranges key') :
    m = range ∨ m ∈ r.ranges key' := by
  rcases mem_set hm with ⟨rfl, hmem⟩ | hkept
  · exact (mem_append.mp hmem).symm.imp_left mem_singleton.mp
  · exact .inr hkept

/-- The ranges after a put are old, alive, or ended by `txn`. -/
lemma mem_put (hok : r.Ok) {v : Option Key} (hm : m ∈ (r.put txn v).ranges key) :
    m ∈ r.ranges key ∨ m.xmax = noXmax ∨ m.xmax = txn := by
  cases v with
  | none =>
    unfold put at hm
    cases halive : r.alive with
    | none =>
      rw [halive] at hm
      exact .inl hm
    | some key' =>
      obtain ⟨old, m0, hranges, hm0, -⟩ := hok.alive key' halive
      rw [halive] at hm
      dsimp only at hm
      rw [delete_eq halive hranges hm0] at hm
      rcases mem_set (r := r) hm with ⟨rfl, hold⟩ | hkept
      · exact .inl (hranges ▸ mem_append_left _ hold)
      · exact .inl hkept
  | some key' =>
    change m ∈ (r.insert key' txn).1.ranges key at hm
    cases halive : r.alive with
    | none =>
      rw [insert_eq_first halive] at hm
      rcases mem_push hm with rfl | hm
      · exact .inr (.inl rfl)
      · exact .inl hm
    | some oldKey =>
      by_cases hk : oldKey = key'
      · rw [insert_eq_noop (hk ▸ halive)] at hm
        exact .inl hm
      obtain ⟨old, m0, hranges, hm0, -⟩ := hok.alive oldKey halive
      rw [insert_eq_move halive hk, stamp_eq hranges hm0] at hm
      rcases mem_push hm with rfl | hm
      · exact .inr (.inl rfl)
      rcases mem_set hm with ⟨rfl, hmem⟩ | hkept
      · rcases mem_append.mp hmem with hold | hended
        · exact .inl (hranges ▸ mem_append_left _ hold)
        · rw [mem_singleton.mp hended]
          exact .inr (.inr rfl)
      · exact .inl hkept

lemma xmax_replay (hws : ∀ w ∈ ws, w.txn ≠ noXmax) (hm : m ∈ (replay ws).ranges key)
    (hx : m.xmax ≠ noXmax) : ∃ w ∈ ws, w.txn = m.xmax := by
  induction ws with
  | nil => exact nomatch hm
  | cons w ws ih =>
    have hws' : ∀ w' ∈ ws, w'.txn ≠ noXmax := fun w' hw' => hws w' (mem_cons_of_mem _ hw')
    rcases mem_put (Ok.replay hws') hm with hold | hnew | hended
    · obtain ⟨w', hw', heq⟩ := ih hws' hold
      exact ⟨w', mem_cons_of_mem _ hw', heq⟩
    · exact absurd hnew hx
    · exact ⟨w, mem_cons_self, hended.symm⟩

variable {view : ReadView} {ws : List Ver}

lemma entryVisible_of_seen (hws : ∀ w ∈ ws, w.txn ≠ noXmax) (hsees : ∀ w ∈ ws, view.sees w.txn =
    true) {metas : List EntryMeta} (hmetas : ∀ m ∈ metas, m.xmax ≠ noXmax ∧ m ∈ (replay ws).ranges
    key) : entryVisible metas view = false := by
  unfold entryVisible
  rw [any_eq_false]
  intro m hm
  obtain ⟨hx, hmem⟩ := hmetas m hm
  obtain ⟨w, hw, heq⟩ := xmax_replay hws hmem hx
  have hseen : view.sees m.xmax = true := heq ▸ hsees w hw
  simp [hx, hseen]

lemma entryVisible_append (metas metas' : List EntryMeta) (view : ReadView) :
    entryVisible (metas ++ metas') view = (entryVisible metas view || entryVisible metas' view) :=
  any_append

/-- **A view sees the entry of one key**: that of the newest event it sees. -/
theorem entryVisible_replay (hws : ∀ w ∈ ws, w.txn ≠ noXmax) (hkeys : ∀ w ∈ ws, w.value.isSome)
    (hbelow : SeesBelow view ws) (key : Key) :
    entryVisible ((replay ws).ranges key) view = true ↔ readVers view ws = some key := by
  induction ws generalizing key with
  | nil => exact ⟨nofun, nofun⟩
  | cons w ws ih =>
    have hws' : ∀ w' ∈ ws, w'.txn ≠ noXmax := fun w' hw' => hws w' (mem_cons_of_mem _ hw')
    have hkeys' : ∀ w' ∈ ws, w'.value.isSome := fun w' hw' => hkeys w' (mem_cons_of_mem _ hw')
    obtain ⟨hhead, hbelow'⟩ := pairwise_cons.mp hbelow
    have ih := ih hws' hkeys' hbelow'
    have hok := Ok.replay hws'
    obtain ⟨new, hnew⟩ := Option.isSome_iff_exists.mp (hkeys w mem_cons_self)
    have halive := alive_replay hws'
    rw [replay, readVers, hnew]
    show entryVisible (((replay ws).insert new w.txn).1.ranges key) view = true ↔ _
    cases ws with
    | nil =>
      rw [insert_eq_first halive]
      by_cases hk : key = new
      · subst hk
        rw [ranges_push_self]
        simp [entryVisible, replay, empty, readVers]
      · rw [ranges_push_other _ hk]
        have hne : ¬new = key := fun h => hk h.symm
        simp [entryVisible, replay, empty, readVers, hne]
    | cons w1 ws1 =>
      obtain ⟨oldKey, hold⟩ := Option.isSome_iff_exists.mp (hkeys' w1 mem_cons_self)
      rw [head?_cons, Option.bind_some, hold] at halive
      by_cases hmove : oldKey = new
      · -- the same key again: a view that sees this event sees the one before as well
        subst hmove
        rw [insert_eq_noop halive, ih key]
        by_cases hsees : view.sees w.txn = true
        · rw [if_pos hsees, readVers, if_pos (hhead w1 mem_cons_self hsees), hold]
        · rw [if_neg hsees]
      obtain ⟨old, m, hranges, hm, hdead⟩ := hok.alive oldKey halive
      rw [insert_eq_move halive hmove, stamp_eq hranges hm]
      have hnewRange : entryVisible [⟨w.txn, noXmax⟩] view = view.sees w.txn := by
        simp [entryVisible]
      by_cases hsees : view.sees w.txn = true
      · rw [if_pos hsees]
        have hall : ∀ w' ∈ w1 :: ws1, view.sees w'.txn = true :=
          fun w' hw' => hhead w' hw' hsees
        by_cases hk : key = new
        · subst hk
          rw [ranges_push_self, entryVisible_append, hnewRange, hsees, Bool.or_true]
          exact ⟨fun _ => rfl, fun _ => rfl⟩
        rw [ranges_push_other _ hk]
        refine ⟨fun hvis => ?_, fun heq => absurd (Option.some.inj heq).symm hk⟩
        exfalso
        by_cases hko : key = oldKey
        · subst hko
          rw [ranges_set_self, entryVisible_append, entryVisible_of_seen hws' hall
            fun m' hm' => ⟨hdead m' hm', hranges ▸ mem_append_left _ hm'⟩] at hvis
          simp [entryVisible, hsees, hws w mem_cons_self] at hvis
        · rw [ranges_set_other _ hko, ih key, readVers,
            if_pos (hall w1 mem_cons_self), hold] at hvis
          exact hko (Option.some.inj hvis).symm
      · -- an event the view does not see changes nothing for it
        rw [if_neg hsees]
        have hsees' := Bool.not_eq_true _ ▸ hsees
        have hstamp : ∀ key, entryVisible (((replay (w1 :: ws1)).set oldKey
            (old ++ [{ m with xmax := w.txn }])).ranges key) view = true ↔
              readVers view (w1 :: ws1) = some key := by
          intro key
          rw [← ih key]
          by_cases hko : key = oldKey
          · subst hko
            rw [ranges_set_self, hranges, entryVisible_append, entryVisible_append]
            simp [entryVisible, hsees', hm]
          · rw [ranges_set_other _ hko]
        by_cases hk : key = new
        · subst hk
          rw [ranges_push_self, entryVisible_append, hnewRange, hsees', Bool.or_false]
          exact hstamp key
        · rw [ranges_push_other _ hk]
          exact hstamp key

end RowEntries

end NusaDb
