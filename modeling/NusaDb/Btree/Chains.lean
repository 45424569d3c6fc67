import Mathlib.Data.List.Perm.Subperm
import NusaDb.Btree.History

/-!
# Version chains

How a row's leaf entry and the arena slots below it stand for the list of its surviving writes,
newest first. A chain may be cut below a settled version (one that every open view sees), and a row
whose delete is settled may be gone; nothing else may be missing.
-/

namespace NusaDb

open List

open History (Ver)

/-- The version `v` and the slots below it hold these versions, newest first. -/
inductive Chain (arena : Arena) (settled : TxnId → Prop) : Version → List Nat → List Ver → Prop
  | last {v : Version} {older : List Ver} (hundo : v.header.undo = none)
      (hcut : older = [] ∨ settled v.header.xmin) :
      Chain arena settled v [] (⟨v.header.xmin, some v.tuple⟩ :: older)
  | link {v prev : Version} {slot : Nat} {slots : List Nat} {older : List Ver}
      (hundo : v.header.undo = some slot) (hslot : arena.slot slot = some prev)
      (hlive : prev.header.xmax = noXmax) (hrest : Chain arena settled prev slots older) :
      Chain arena settled v (slot :: slots) (⟨v.header.xmin, some v.tuple⟩ :: older)

/-- A row's leaf entry, with the slots below it, holds these writes, newest first. -/
inductive RowRep (arena : Arena) (settled : TxnId → Prop) :
    Option Version → List Nat → List Ver → Prop
  | absent : RowRep arena settled none [] []
  | purged {txn : TxnId} {older : List Ver} (hset : settled txn) :
      RowRep arena settled none [] (⟨txn, none⟩ :: older)
  | live {v : Version} {slots : List Nat} {ws : List Ver} (hx : v.header.xmax = noXmax)
      (hchain : Chain arena settled v slots ws) : RowRep arena settled (some v) slots ws
  | dead {v : Version} {slots : List Nat} {ws : List Ver} (hx : v.header.xmax ≠ noXmax)
      (hchain : Chain arena settled v slots ws) :
      RowRep arena settled (some v) slots (⟨v.header.xmax, none⟩ :: ws)

/-- `v` is what the undo entries of `txn` for one row, newest first, describe: each of them can be
undone in turn. -/
inductive Undoes (arena : Arena) (txn : TxnId) : Version → List UndoOp → Prop
  | done {v : Version} : Undoes arena txn v []
  | inserted {v : Version} {table : TableId} {row : RowId} (hv : v.header = RowMeta.fresh txn) :
      Undoes arena txn v [.inserted table row]
  | updated {v old : Version} {table : TableId} {row : RowId} {slot : Nat} {ops : List UndoOp}
      (hv : v.header = ⟨txn, noXmax, some slot⟩) (hslot : arena.slot slot = some old)
      (hold : old.header.xmax = noXmax) (hrest : Undoes arena txn old ops) :
      Undoes arena txn v (.updated table row old slot :: ops)
  | deleted {v old : Version} {table : TableId} {row : RowId} {ops : List UndoOp}
      (hv : v.header.xmax = txn) (hold : old.header.xmax = noXmax)
      (hmin : old.header.xmin = v.header.xmin) (htuple : old.tuple = v.tuple)
      (hrest : Undoes arena txn { v with header := { v.header with xmax := noXmax } } ops) :
      Undoes arena txn v (.deleted table row old :: ops)

def readVers (view : ReadView) : List Ver → Option Tuple
  | [] => none
  | w :: ws => if view.sees w.txn then w.value else readVers view ws

variable {arena arena' : Arena} {settled settled' : TxnId → Prop} {v : Version}
  {slots : List Nat} {ws : List Ver} {leaf : Option Version}

variable (hc : Chain arena settled v slots ws)

include hc

lemma Chain.congr (hslots : ∀ s ∈ slots, arena'.slot s = arena.slot s)
    (hset : ∀ x, settled x → settled' x) : Chain arena' settled' v slots ws := by
  induction hc with
  | last hundo hcut => exact .last hundo (hcut.imp_right (hset _))
  | @link v prev slot slots older hundo hslot hlive hrest ih =>
    have hslot' : arena'.slot slot = some prev := by
      rw [hslots slot (mem_cons_self ..), hslot]
    exact .link hundo hslot' hlive (ih fun s hs => hslots s (mem_cons_of_mem _ hs))

omit hc in
lemma RowRep.congr (hr : RowRep arena settled leaf slots ws)
    (hslots : ∀ s ∈ slots, arena'.slot s = arena.slot s)
    (hset : ∀ x, settled x → settled' x) : RowRep arena' settled' leaf slots ws := by
  cases hr with
  | absent => exact .absent
  | purged h => exact .purged (hset _ h)
  | live hx hc => exact .live hx (hc.congr hslots hset)
  | dead hx hc => exact .dead hx (hc.congr hslots hset)

lemma Chain.setXmax (x : TxnId) :
    Chain arena settled { v with header := { v.header with xmax := x } } slots ws := by
  cases hc with
  | last hundo hcut => exact .last (v := { v with header := { v.header with xmax := x } }) hundo hcut
  | link hundo hslot hlive hrest =>
    exact .link (v := { v with header := { v.header with xmax := x } }) hundo hslot hlive hrest

lemma Chain.slot_isSome : ∀ s ∈ slots, (arena.slot s).isSome := by
  induction hc with
  | last => intro s hs; cases hs
  | @link v prev slot slots older hundo hslot hlive hrest ih =>
    intro s hs
    rcases mem_cons.mp hs with rfl | hs
    · rw [hslot]; rfl
    · exact ih s hs

omit hc

lemma RowRep.slot_isSome (hr : RowRep arena settled leaf slots ws) :
    ∀ s ∈ slots, (arena.slot s).isSome := by
  cases hr with
  | absent | purged => intro s hs; cases hs
  | live _ hc | dead _ hc => exact hc.slot_isSome

lemma length_le_arena (hnodup : slots.Nodup) (hocc : ∀ s ∈ slots, (arena.slot s).isSome) :
    slots.length ≤ arena.length := by
  have hsub : slots ⊆ range arena.length := by
    intro s hs
    obtain ⟨w, hw⟩ := Option.isSome_iff_exists.mp (hocc s hs)
    exact mem_range.mpr (Arena.lt_length_of_slot hw)
  have hle := (hnodup.subperm hsub).length_le
  rwa [length_range] at hle

lemma Chain.of_undo {old : Version} {slot : Nat} (hc : Chain arena settled v slots ws)
    (hv : v.header.undo = some slot) (hslot : arena.slot slot = some old) :
    ∃ slots' older, slots = slot :: slots' ∧ ws = ⟨v.header.xmin, some v.tuple⟩ :: older ∧
      Chain arena settled old slots' older := by
  cases hc with
  | last hundo _ =>
    rw [hv] at hundo
    cases hundo
  | link hundo hslot' _ hrest =>
    obtain rfl := Option.some.inj (hv.symm.trans hundo)
    obtain rfl := Option.some.inj (hslot.symm.trans hslot')
    exact ⟨_, _, rfl, rfl, hrest⟩

lemma Undoes.congr {txn : TxnId} {ops : List UndoOp} (hu : Undoes arena txn v ops)
    (hc : Chain arena settled v slots ws)
    (hslots : ∀ s ∈ slots, arena'.slot s = arena.slot s) : Undoes arena' txn v ops := by
  induction hu generalizing slots ws with
  | done => exact .done
  | inserted hv => exact .inserted hv
  | @updated v old table row slot ops hv hslot hold hrest ih =>
    obtain ⟨slots', older, rfl, rfl, hrest'⟩ := hc.of_undo (by rw [hv]) hslot
    have hsame : arena'.slot slot = some old := by
      rw [hslots slot (mem_cons_self ..), hslot]
    exact .updated hv hsame hold (ih hrest' fun s hs => hslots s (mem_cons_of_mem _ hs))
  | @deleted v old table row ops hv hold hmin htuple hrest ih =>
    exact .deleted hv hold hmin htuple (ih (hc.setXmax noXmax) hslots)

def Visible.tuple (head : Tuple) : Visible → Tuple
  | .head => head
  | .arena t => t

lemma visibleTuple_eq_map (leaf : Version) (arena : Arena) (view : ReadView) :
    visibleTuple leaf arena view =
      (visibleVersion leaf.header arena view).map (Visible.tuple leaf.tuple) := by
  unfold visibleTuple
  cases visibleVersion leaf.header arena view with
  | none => rfl
  | some vis => cases vis <;> rfl

lemma Chain.visibleLoop_eq {view : ReadView} {head : Tuple} {fuel : Nat} {here : Visible}
    (hc : Chain arena settled v slots ws) (hset : ∀ x, settled x → view.sees x = true)
    (hlive : v.header.xmax = noXmax) (hfuel : slots.length < fuel)
    (hhere : here.tuple head = v.tuple) :
    (visibleLoop arena view fuel v.header here).map (Visible.tuple head) = readVers view ws := by
  induction hc generalizing fuel here with
  | @last v older hundo hcut =>
    obtain ⟨n, rfl⟩ : ∃ n, fuel = n + 1 := ⟨fuel - 1, by omega⟩
    simp only [visibleLoop, readVers, hundo, hlive, ne_eq, not_true_eq_false, false_and, if_false]
    rcases hcut with rfl | hcut
    · by_cases hs : view.sees v.header.xmin = true
      · simp [hs, hhere]
      · simp [hs, readVers]
    · simp [hset _ hcut, hhere]
  | @link v prev slot slots older hundo hslot hlive' hrest ih =>
    obtain ⟨n, rfl⟩ : ∃ n, fuel = n + 1 := ⟨fuel - 1, by omega⟩
    simp only [visibleLoop, readVers, hundo, hlive, hslot, ne_eq, not_true_eq_false, false_and,
      if_false]
    by_cases hs : view.sees v.header.xmin = true
    · simp [hs, hhere]
    · rw [if_neg hs, if_neg hs]
      exact ih hlive' (by simp only [length_cons] at hfuel; omega) rfl

def SeesBelow (view : ReadView) (ws : List Ver) : Prop :=
  ws.Pairwise fun a b => view.sees a.txn = true → view.sees b.txn = true

/-- **What a view sees of a row is decided by the row's writes**: the first one the view sees. -/
theorem RowRep.visibleTuple_eq {view : ReadView} (hr : RowRep arena settled (some v) slots ws)
    (hset : ∀ x, settled x → view.sees x = true) (hbelow : SeesBelow view ws)
    (hnodup : slots.Nodup) : visibleTuple v arena view = readVers view ws := by
  have hfuel := Nat.lt_succ_of_le (length_le_arena hnodup hr.slot_isSome)
  rw [visibleTuple_eq_map, visibleVersion]
  cases hr with
  | live hx hc => exact hc.visibleLoop_eq hset hx hfuel rfl
  | @dead _ _ ws hx hc =>
    -- the delete stamp only matters to a view that sees the version it is on
    have hlive := (hc.setXmax noXmax).visibleLoop_eq hset rfl hfuel
      (show Visible.head.tuple v.tuple = v.tuple from rfl)
    have hhead : ∃ older, ws = ⟨v.header.xmin, some v.tuple⟩ :: older := by
      cases hc with
      | last | link => exact ⟨_, rfl⟩
    obtain ⟨older, rfl⟩ := hhead
    have hdel : view.sees v.header.xmax = true → view.sees v.header.xmin = true := by
      intro h
      exact (pairwise_cons.mp hbelow).1 _ (mem_cons_self ..) h
    by_cases hs : view.sees v.header.xmax = true
    · simp [visibleLoop, readVers, hs, hdel hs, hx]
    have hnot : ¬(v.header.xmax ≠ noXmax ∧ view.sees v.header.xmax = true) := fun h => hs h.2
    rw [show readVers view (⟨v.header.xmax, none⟩ :: ⟨v.header.xmin, some v.tuple⟩ :: older) =
      readVers view (⟨v.header.xmin, some v.tuple⟩ :: older) from by simp [readVers, hs]]
    rw [← hlive]
    simp [visibleLoop, hnot]

/-- The loop frees the chain's slots and no others, given fuel for its length. -/
lemma Chain.freeChainLoop_spec {u : UndoDomain} {fuel : Nat}
    (hc : Chain u.arena settled v slots ws) (hnodup : slots.Nodup) (hfuel : slots.length ≤ fuel) :
    let u' := UndoDomain.freeChainLoop fuel u v.header.undo
    (∀ s, u'.arena.slot s = if s ∈ slots then none else u.arena.slot s) ∧
      u'.arena.length = u.arena.length ∧ u'.free = slots.reverse ++ u.free ∧
      u'.orphans = u.orphans := by
  induction slots generalizing v ws u fuel with
  | nil =>
    cases hc with
    | last hundo _ => cases fuel <;> simp [UndoDomain.freeChainLoop, hundo]
  | cons slot slots ih =>
    cases hc with
    | @link _ prev _ _ older hundo hslot hlive hrest =>
      obtain ⟨n, rfl⟩ : ∃ n, fuel = n + 1 := by
        refine ⟨fuel - 1, ?_⟩
        simp only [length_cons] at hfuel
        omega
      obtain ⟨hnot, hnodup'⟩ := nodup_cons.mp hnodup
      -- the state after the first round: the head slot is empty and on the free list
      let u1 : UndoDomain := { u with arena := u.arena.set slot none, free := slot :: u.free }
      have hlt : slot < u.arena.length := Arena.lt_length_of_slot hslot
      have hu1 : ∀ s, u1.arena.slot s = if s = slot then none else u.arena.slot s := by
        intro s
        rw [show u1.arena = u.arena.set slot none from rfl, Arena.slot_set]
        by_cases hs : slot = s
        · simp [hs.symm, hlt]
        · simp [hs, Ne.symm hs]
      have hframe : ∀ s ∈ slots, u1.arena.slot s = u.arena.slot s := by
        intro s hs
        rw [hu1, if_neg (fun h : s = slot => hnot (h ▸ hs))]
      have hstep : UndoDomain.freeChainLoop (n + 1) u v.header.undo =
          UndoDomain.freeChainLoop n u1 prev.header.undo := by
        simp only [UndoDomain.freeChainLoop, hundo, hslot]
        rfl
      have hn : slots.length ≤ n := by
        rw [length_cons] at hfuel
        omega
      obtain ⟨hslots, hlen, hfree, horphans⟩ :=
        ih (u := u1) (hrest.congr hframe (fun _ h => h)) hnodup' hn
      rw [hstep]
      refine ⟨?_, ?_, ?_, horphans⟩
      · intro s
        rw [hslots, hu1]
        by_cases hs : s = slot
        · simp [hs]
        · simp [hs]
      · rw [hlen]
        exact length_set ..
      · rw [hfree]
        simp [u1]

end NusaDb
