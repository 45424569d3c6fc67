import NusaDb.Btree.Effect

/-!
# The version store

The invariant between the rows with their undo chains, the surviving writes of each row (`vers`) and
the undo entries of the open transactions (`pend`), with the moves that row calls, undo and purge
make on it. Nothing refers to tables, views or the order of commits.
-/

namespace NusaDb

open Function

open History (Ver)

/-- Rows, chains and undo entries agree with the rows' surviving writes. -/
structure StoreInv (leaf : Loc → Option Version) (u : UndoDomain) (settled : TxnId → Prop)
    (vers : Loc → List Ver) (pend : TxnId → Loc → List UndoOp) (slots : Loc → List Nat) : Prop where
  owned : Owned u slots
  row : ∀ loc, RowRep u.arena settled (leaf loc) (slots loc) (vers loc)
  undo : ∀ txn loc, pend txn loc ≠ [] →
    ∃ v, leaf loc = some v ∧ Undoes u.arena txn v (pend txn loc)
  writer : ∀ txn txn' loc, pend txn loc ≠ [] → pend txn' loc ≠ [] → txn = txn'
  running : ∀ txn loc, pend txn loc ≠ [] → ¬settled txn ∧ txn ≠ noXmax

variable {leaf : Loc → Option Version} {u u' : UndoDomain} {settled settled' : TxnId → Prop}
  {vers : Loc → List Ver} {pend pend' : TxnId → Loc → List UndoOp} {slots : Loc → List Nat}
  {loc : Loc} {txn : TxnId} {v : Version}

lemma StoreInv.init (settled : TxnId → Prop) :
    StoreInv (fun _ => none) ⟨[], [], []⟩ settled (fun _ => []) (fun _ _ => [])
      (fun _ => []) where
  owned := Owned.init
  row _ := .absent
  undo _ _ h := absurd rfl h
  writer _ _ _ h := absurd rfl h
  running _ _ h := absurd rfl h

variable {ss : List Nat} {ws : List Ver}

lemma RowRep.undoes_congr {arena arena' : Arena} {ops : List UndoOp}
    (hr : RowRep arena settled (some v) ss ws) (hslots : ∀ s ∈ ss, arena'.slot s = arena.slot s)
    (hu : Undoes arena txn v ops) : Undoes arena' txn v ops := by
  cases hr with
  | live _ hc | dead _ hc => exact hu.congr hc hslots

variable (hs : StoreInv leaf u settled vers pend slots)

include hs

lemma StoreInv.undoes (hv : leaf loc = some v) (txn : TxnId) :
    Undoes u.arena txn v (pend txn loc) := by
  by_cases hne : pend txn loc = []
  · rw [hne]
    exact .done
  obtain ⟨w, hw, hu⟩ := hs.undo txn loc hne
  rw [hv] at hw
  obtain rfl : v = w := Option.some.inj hw
  exact hu

lemma StoreInv.chain (hv : leaf loc = some v) (hlive : v.header.xmax = noXmax) :
    Chain u.arena settled v (slots loc) (vers loc) := by
  have hrow := hs.row loc
  rw [hv] at hrow
  generalize vers loc = ws at hrow
  cases hrow with
  | live _ hc => exact hc
  | dead hx _ => exact absurd hlive hx

/-- To change one row it is enough to look at that row. -/
lemma StoreInv.change (loc : Loc) (l : Option Version) (ss : List Nat) (ws : List Ver)
    (howned : Owned u' (update slots loc ss))
    (hframe : ∀ loc', loc' ≠ loc → ∀ s ∈ slots loc', u'.arena.slot s = u.arena.slot s)
    (hrow : RowRep u'.arena settled l ss ws)
    (hpend : ∀ txn loc', loc' ≠ loc → pend' txn loc' = pend txn loc')
    (hundo : ∀ txn, pend' txn loc ≠ [] → ∃ v, l = some v ∧ Undoes u'.arena txn v (pend' txn loc))
    (hwriter : ∀ txn txn', pend' txn loc ≠ [] → pend' txn' loc ≠ [] → txn = txn')
    (hrunning : ∀ txn, pend' txn loc ≠ [] → ¬settled txn ∧ txn ≠ noXmax) :
    StoreInv (update leaf loc l) u' settled (update vers loc ws) pend'
      (update slots loc ss) := by
  refine ⟨howned, ?_, ?_, ?_, ?_⟩
  · intro loc'
    by_cases hl : loc' = loc
    · subst hl
      rw [update_self, update_self, update_self]
      exact hrow
    · rw [update_of_ne hl, update_of_ne hl, update_of_ne hl]
      exact (hs.row loc').congr (hframe loc' hl) fun _ h => h
  · intro txn loc' hne
    by_cases hl : loc' = loc
    · subst hl
      rw [update_self]
      exact hundo txn hne
    rw [update_of_ne hl]
    rw [hpend txn loc' hl] at hne ⊢
    obtain ⟨v, hv, hu⟩ := hs.undo txn loc' hne
    have hrow' := hs.row loc'
    rw [hv] at hrow'
    exact ⟨v, hv, hrow'.undoes_congr (hframe loc' hl) hu⟩
  · intro txn txn' loc' h h'
    by_cases hl : loc' = loc
    · subst hl
      exact hwriter txn txn' h h'
    rw [hpend txn loc' hl] at h
    rw [hpend txn' loc' hl] at h'
    exact hs.writer txn txn' loc' h h'
  · intro txn loc' h
    by_cases hl : loc' = loc
    · subst hl
      exact hrunning txn h
    · rw [hpend txn loc' hl] at h
      exact hs.running txn loc' h

lemma StoreInv.mono (hset : ∀ x, settled x → settled' x)
    (hrun : ∀ txn loc, pend txn loc ≠ [] → ¬settled' txn) :
    StoreInv leaf u settled' vers pend slots where
  owned := hs.owned
  row loc := (hs.row loc).congr (fun _ _ => rfl) hset
  undo := hs.undo
  writer := hs.writer
  running txn loc h := ⟨hrun txn loc h, (hs.running txn loc h).2⟩

lemma StoreInv.forget (hpend : ∀ txn loc, pend' txn loc = [] ∨ pend' txn loc = pend txn loc) :
    StoreInv leaf u settled vers pend' slots := by
  have hsub : ∀ {txn : TxnId} {loc : Loc}, pend' txn loc ≠ [] → pend' txn loc = pend txn loc := by
    intro txn loc h
    exact (hpend txn loc).resolve_left h
  refine ⟨hs.owned, hs.row, ?_, ?_, ?_⟩
  · intro txn loc h
    rw [hsub h]
    exact hs.undo txn loc (hsub h ▸ h)
  · intro txn txn' loc h h'
    exact hs.writer txn txn' loc (hsub h ▸ h) (hsub h' ▸ h')
  · intro txn loc h
    exact hs.running txn loc (hsub h ▸ h)

omit hs

lemma RowRep.vers_of_some {arena : Arena} (hr : RowRep arena settled (some v) ss ws) :
    ∃ older, ws = (if v.header.xmax = noXmax then [] else [⟨v.header.xmax, none⟩]) ++
      ⟨v.header.xmin, some v.tuple⟩ :: older := by
  cases hr with
  | live hx hc =>
    rw [if_pos hx]
    cases hc with
    | last | link => exact ⟨_, rfl⟩
  | dead hx hc =>
    rw [if_neg hx]
    cases hc with
    | last | link => exact ⟨_, rfl⟩

variable (hs : StoreInv leaf u settled vers pend slots)

include hs

lemma StoreInv.leaf_none_of_vers_nil (hnil : vers loc = []) :
    leaf loc = none ∧ slots loc = [] := by
  have hr := hs.row loc
  rw [hnil] at hr
  generalize leaf loc = l at hr
  generalize slots loc = ss at hr
  cases hr with
  | absent => exact ⟨rfl, rfl⟩
  | live _ hc => cases hc

variable {ops : List UndoOp}

/-- A change of one row that only `txn` has writes to: its undo entries become `ops`. -/
lemma StoreInv.rewrite (l : Option Version) (ss : List Nat)
    (hothers : ∀ txn', txn' ≠ txn → pend txn' loc = [])
    (htxn : ¬settled txn ∧ txn ≠ noXmax) (hpend : ∀ txn' loc', pend' txn' loc' =
      if txn' = txn ∧ loc' = loc then ops else pend txn' loc')
    (howned : Owned u' (update slots loc ss))
    (hkeep : ∀ loc', loc' ≠ loc → ∀ s ∈ slots loc', u'.arena.slot s = u.arena.slot s)
    (hrow : RowRep u'.arena settled l ss ws)
    (hundo : ops ≠ [] → ∃ v, l = some v ∧ Undoes u'.arena txn v ops) :
    StoreInv (update leaf loc l) u' settled (update vers loc ws) pend'
      (update slots loc ss) := by
  have hpendAt : ∀ txn', pend' txn' loc ≠ [] → txn' = txn ∧ pend' txn' loc = ops := by
    intro txn' hne
    rw [hpend] at hne ⊢
    by_cases ht : txn' = txn
    · exact ⟨ht, if_pos ⟨ht, rfl⟩⟩
    · rw [if_neg (fun h => ht h.1), hothers txn' ht] at hne
      exact absurd rfl hne
  refine hs.change loc l ss ws howned hkeep hrow ?_ ?_ ?_ ?_
  · intro txn' loc' hl
    rw [hpend, if_neg (fun h => hl h.2)]
  · intro txn' hne
    obtain ⟨rfl, hp⟩ := hpendAt txn' hne
    rw [hp] at hne ⊢
    exact hundo hne
  · intro txn' txn'' h h'
    rw [(hpendAt txn' h).1, (hpendAt txn'' h').1]
  · intro txn' h
    exact (hpendAt txn' h).1 ▸ htxn

lemma StoreInv.insertRow (hnil : vers loc = []) (htxn : ¬settled txn ∧ txn ≠ noXmax)
    (tuple : Tuple) (hpend : ∀ txn' loc', pend' txn' loc' =
      if txn' = txn ∧ loc' = loc then [.inserted loc.1 loc.2] else pend txn' loc') :
    StoreInv (update leaf loc (some ⟨RowMeta.fresh txn, tuple⟩)) u settled
      (update vers loc [⟨txn, some tuple⟩]) pend' slots := by
  obtain ⟨hleaf, hslots⟩ := hs.leaf_none_of_vers_nil hnil
  have hnone : ∀ txn', pend txn' loc = [] := by
    intro txn'
    by_contra hne
    obtain ⟨v, hv, _⟩ := hs.undo txn' loc hne
    rw [hleaf] at hv
    cases hv
  have hself : update slots loc [] = slots := by
    rw [← hslots, update_eq_self]
  have hnew := hs.rewrite (some ⟨RowMeta.fresh txn, tuple⟩) [] (fun txn' _ => hnone txn') htxn
    hpend (by rw [hself]; exact hs.owned) (fun _ _ _ _ => rfl) (.live rfl (.last rfl (.inl rfl)))
    fun _ => ⟨_, rfl, .inserted rfl⟩
  rwa [hself] at hnew

section

variable {old : Version} (hold : leaf loc = some old) (hlive : old.header.xmax = noXmax)
  (htxn : ¬settled txn ∧ txn ≠ noXmax) (hothers : ∀ txn', txn' ≠ txn → pend txn' loc = [])

include hold hlive htxn hothers

lemma StoreInv.updateRow (tuple : Tuple)
    (hpend : ∀ txn' loc', pend' txn' loc' =
      if txn' = txn ∧ loc' = loc then .updated loc.1 loc.2 old (u.park old).2 :: pend txn loc
      else pend txn' loc') :
    StoreInv (update leaf loc (some ⟨⟨txn, noXmax, some (u.park old).2⟩, tuple⟩))
      (u.park old).1 settled (update vers loc (⟨txn, some tuple⟩ :: vers loc)) pend'
      (update slots loc ((u.park old).2 :: slots loc)) := by
  obtain ⟨hslot, hempty, -, -, -⟩ := UndoDomain.park_spec hs.owned.freeEmpty old
  have howned := hs.owned.park loc old
  generalize (u.park old).1 = u' at *
  generalize (u.park old).2 = i at *
  have hkeep : ∀ loc', ∀ s ∈ slots loc', u'.arena.slot s = u.arena.slot s := by
    intro loc' s hmem
    have hne : s ≠ i := by
      rintro rfl
      have hocc := hs.owned.occupied loc' s hmem
      rw [hempty] at hocc
      cases hocc
    rw [hslot, if_neg hne]
  have hparked : u'.arena.slot i = some old := by
    rw [hslot, if_pos rfl]
  have hchain := hs.chain hold hlive
  have hundoes := (hs.undoes hold txn).congr hchain (hkeep loc)
  have hchain := hchain.congr (hkeep loc) fun _ h => h
  exact hs.rewrite _ _ hothers htxn hpend howned (fun loc' _ => hkeep loc')
    (.live rfl (.link rfl hparked hlive hchain))
    fun _ => ⟨_, rfl, .updated rfl hparked hlive hundoes⟩

lemma StoreInv.deleteRow (hpend : ∀ txn' loc', pend' txn' loc' =
      if txn' = txn ∧ loc' = loc then .deleted loc.1 loc.2 old :: pend txn loc
      else pend txn' loc') :
    StoreInv
      (update leaf loc (some { old with header := { old.header with xmax := txn } })) u
      settled (update vers loc (⟨txn, none⟩ :: vers loc)) pend' slots := by
  have hchain := hs.chain hold hlive
  have hback : { old with header := { old.header with xmax := noXmax } } = old := by
    rw [← hlive]
  have hself : update slots loc (slots loc) = slots := update_eq_self loc slots
  have hnew := hs.rewrite (some { old with header := { old.header with xmax := txn } }) (slots loc)
    hothers htxn hpend (by rw [hself]; exact hs.owned) (fun _ _ _ _ => rfl)
    (.dead htxn.2 (hchain.setXmax txn)) ?_
  · rwa [hself] at hnew
  · intro _
    refine ⟨_, rfl, .deleted rfl hlive rfl rfl ?_⟩
    show Undoes u.arena txn { old with header := { old.header with xmax := noXmax } } _
    rw [hback]
    exact hs.undoes hold txn

end

omit hs

def undoneLeaf (op : UndoOp) (l : Option Version) : Option Version :=
  match op with
  | .inserted .. => none
  | .updated _ _ old _ => l.map fun _ => old
  | .deleted _ _ old => l.map fun v => { v with header := { v.header with xmax := old.header.xmax } }
  | .indexInserted .. => l
  | .indexDeleted .. => l

def undoneReclaim (op : UndoOp) (txn : TxnId) (u : UndoDomain) : UndoDomain :=
  match op with
  | .updated _ _ _ slot => u.pushOrphan slot txn
  | _ => u

variable {rest : List UndoOp}

lemma RowRep.undone {op : UndoOp} (hr : RowRep u.arena settled (some v) ss ws)
    (htxn : ¬settled txn ∧ txn ≠ noXmax) (hu : Undoes u.arena txn v (op :: rest)) :
    ∃ ss', (ss' = ss ∧ undoneReclaim op txn u = u ∨
        ∃ i, ss = i :: ss' ∧ undoneReclaim op txn u = u.pushOrphan i txn) ∧
      RowRep u.arena settled (undoneLeaf op (some v)) ss' ws.tail ∧
      (rest ≠ [] → ∃ v', undoneLeaf op (some v) = some v' ∧ Undoes u.arena txn v' rest) := by
  cases hu with
  | inserted hv =>
    -- an uncommitted first version: nothing can have been cut below it
    cases hr with
    | live hx hc =>
      cases hc with
      | last hundo hcut =>
        have hnil := hcut.resolve_right (by rw [hv]; exact htxn.1)
        subst hnil
        exact ⟨[], .inl ⟨rfl, rfl⟩, .absent, fun h => absurd rfl h⟩
      | link hundo => rw [hv] at hundo; cases hundo
    | dead hx hc => rw [hv] at hx; exact absurd rfl hx
  | @updated _ old _ _ slot _ hv hslot hold hrest =>
    cases hr with
    | live hx hc =>
      obtain ⟨ss', older, rfl, rfl, hrest'⟩ := hc.of_undo (by rw [hv]) hslot
      exact ⟨ss', .inr ⟨slot, rfl, rfl⟩, .live hold hrest', fun _ => ⟨old, rfl, hrest⟩⟩
    | dead hx hc => rw [hv] at hx; exact absurd rfl hx
  | @deleted _ old table row _ hv hold hmin htuple hrest =>
    cases hr with
    | live hx hc => exact absurd (hv.symm.trans hx) htxn.2
    | dead hx hc =>
      have hleaf : undoneLeaf (.deleted table row old) (some v) =
          some { v with header := { v.header with xmax := noXmax } } := by
        rw [← hold]
        rfl
      rw [hleaf]
      exact ⟨ss, .inl ⟨rfl, rfl⟩, .live rfl (hc.setXmax noXmax), fun _ => ⟨_, rfl, hrest⟩⟩

include hs

lemma StoreInv.undoRow {op : UndoOp} (hop : pend txn loc = op :: rest)
    (hpend : ∀ txn' loc', pend' txn' loc' =
      if txn' = txn ∧ loc' = loc then rest else pend txn' loc') :
    ∃ slots', StoreInv (update leaf loc (undoneLeaf op (leaf loc)))
      (undoneReclaim op txn u) settled (update vers loc (vers loc).tail) pend' slots' := by
  have hne : pend txn loc ≠ [] := by
    rw [hop]
    exact List.cons_ne_nil _ _
  obtain ⟨v, hv, hu⟩ := hs.undo txn loc hne
  have htxn := hs.running txn loc hne
  have hrow := hs.row loc
  rw [hv] at hrow
  rw [hop] at hu
  obtain ⟨ss', hss, hrow', hrest⟩ := hrow.undone htxn hu
  have hothers : ∀ txn', txn' ≠ txn → pend txn' loc = [] := by
    intro txn' ht
    by_contra h
    exact ht (hs.writer txn' txn loc h hne)
  have harena : (undoneReclaim op txn u).arena = u.arena := by
    cases op <;> rfl
  have howned : Owned (undoneReclaim op txn u) (update slots loc ss') := by
    rcases hss with ⟨rfl, hsame⟩ | ⟨i, hi, horph⟩
    · rw [hsame, update_eq_self]
      exact hs.owned
    · rw [horph]
      exact hs.owned.orphan txn hi
  refine ⟨update slots loc ss', ?_⟩
  rw [hv]
  refine hs.rewrite _ _ hothers htxn hpend howned (fun _ _ s _ => by rw [harena])
    (by rw [harena]; exact hrow') fun hne' => ?_
  rw [harena]
  exact hrest hne'

variable (hv : leaf loc = some v)

include hv

lemma StoreInv.freeChain_spec :
    (∀ s, (u.freeChain v.header.undo).arena.slot s =
        if s ∈ slots loc then none else u.arena.slot s) ∧
      (u.freeChain v.header.undo).arena.length = u.arena.length ∧
      (u.freeChain v.header.undo).free = (slots loc).reverse ++ u.free ∧
      (u.freeChain v.header.undo).orphans = u.orphans := by
  have hrow := hs.row loc
  rw [hv] at hrow
  have hlen := length_le_arena (hs.owned.nodup loc) hrow.slot_isSome
  generalize vers loc = ws at hrow
  cases hrow with
  | live _ hc | dead _ hc => exact hc.freeChainLoop_spec (hs.owned.nodup loc) hlen

lemma StoreInv.freeChain_frame :
    ∀ loc', loc' ≠ loc → ∀ s ∈ slots loc',
      (u.freeChain v.header.undo).arena.slot s = u.arena.slot s := by
  intro loc' hl s hmem
  rw [(hs.freeChain_spec hv).1, if_neg fun h => hl (hs.owned.disjoint loc' loc s hmem h)]

/-- A row whose delete is settled has no undo entries, and may go with its whole history. -/
lemma StoreInv.removeRow (hx : v.header.xmax ≠ noXmax) (hset : settled v.header.xmax) :
    StoreInv (update leaf loc none) (u.freeChain v.header.undo) settled vers pend
      (update slots loc []) := by
  have hrow := hs.row loc
  rw [hv] at hrow
  obtain ⟨hslot, hlen, hfree, horph⟩ := hs.freeChain_spec hv
  have hpurged : RowRep (u.freeChain v.header.undo).arena settled none [] (vers loc) := by
    generalize vers loc = ws at hrow ⊢
    cases hrow with
    | live hx' _ => exact absurd hx' hx
    | dead _ _ => exact .purged hset
  have hnone : ∀ txn, pend txn loc = [] := by
    intro txn
    by_contra hne
    have hu := hs.undoes hv txn
    have htxn := hs.running txn loc hne
    generalize pend txn loc = ops at hu hne
    cases hu with
    | done => exact hne rfl
    | inserted hh | updated hh => rw [hh] at hx; exact hx rfl
    | deleted hh => exact htxn.1 (hh ▸ hset)
  have hnew := hs.change loc _ _ _ (hs.owned.clear loc hslot hlen hfree horph)
    (hs.freeChain_frame hv) hpurged (fun txn loc' _ => Eq.refl (pend txn loc'))
    (fun txn h => absurd (hnone txn) h) (fun txn _ h => absurd (hnone txn) h)
    (fun txn h => absurd (hnone txn) h)
  rwa [update_eq_self] at hnew

/-- A chain may be cut below a settled version: no view reads further. -/
lemma StoreInv.cutRow (hundo : v.header.undo ≠ none) (hset : settled v.header.xmin) :
    StoreInv (update leaf loc (some { v with header := { v.header with undo := none } }))
      (u.freeChain v.header.undo) settled vers pend (update slots loc []) := by
  have hrow := hs.row loc
  rw [hv] at hrow
  obtain ⟨hslot, hlen, hfree, horph⟩ := hs.freeChain_spec hv
  let v' : Version := { v with header := { v.header with undo := none } }
  have hchain : ∀ {ss : List Nat} {ws : List Ver}, Chain u.arena settled v ss ws →
      Chain (u.freeChain v.header.undo).arena settled v' [] ws := by
    intro ss ws hc
    cases hc with
    | last | link => exact .last (v := v') rfl (.inr hset)
  have hcut : RowRep (u.freeChain v.header.undo).arena settled (some v') [] (vers loc) := by
    generalize vers loc = ws at hrow ⊢
    cases hrow with
    | live hx hc => exact .live hx (hchain hc)
    | dead hx hc => exact .dead (v := v') hx (hchain hc)
  have hundoes : ∀ txn, pend txn loc ≠ [] →
      Undoes (u.freeChain v.header.undo).arena txn v' (pend txn loc) := by
    intro txn hne
    have hu := hs.undoes hv txn
    have htxn := hs.running txn loc hne
    have hmin : v.header.xmin ≠ txn := fun h => htxn.1 (h ▸ hset)
    -- only a delete of a version the transaction did not write can be pending here
    generalize pend txn loc = ops at hu hne ⊢
    cases hu with
    | done => exact .done
    | inserted hh => rw [hh] at hundo; exact absurd rfl hundo
    | updated hh => rw [hh] at hmin; exact absurd rfl hmin
    | @deleted _ old _ _ rest hh hold hmin' htuple hrest =>
      have hrest' : rest = [] := by
        cases hrest with
        | done => rfl
        | inserted hh' | updated hh' =>
          have := congrArg RowMeta.xmin hh'
          exact absurd this hmin
        | deleted hh' => exact absurd hh'.symm htxn.2
      subst hrest'
      exact .deleted (v := v') hh hold hmin' htuple .done
  have hnew := hs.change loc _ _ _ (hs.owned.clear loc hslot hlen hfree horph)
    (hs.freeChain_frame hv) hcut (fun txn loc' _ => Eq.refl (pend txn loc'))
    (fun txn h => ⟨v', rfl, hundoes txn h⟩) (fun txn txn' h h' => hs.writer txn txn' loc h h')
    (fun txn h => hs.running txn loc h)
  rwa [update_eq_self] at hnew

omit hv

lemma StoreInv.purgeOrphans (judge : TxnId → Bool) :
    StoreInv leaf (u.purgeOrphans judge) settled vers pend slots := by
  have hframe : ∀ loc, ∀ s ∈ slots loc, (u.purgeOrphans judge).arena.slot s = u.arena.slot s :=
    fun loc s h => hs.owned.purgeOrphans_slot judge h
  refine ⟨hs.owned.purgeOrphans judge, ?_, ?_, hs.writer, hs.running⟩
  · intro loc
    exact (hs.row loc).congr (hframe loc) fun _ h => h
  · intro txn loc hne
    obtain ⟨v, hv, hu⟩ := hs.undo txn loc hne
    have hrow := hs.row loc
    rw [hv] at hrow
    exact ⟨v, hv, hrow.undoes_congr (hframe loc) hu⟩

end NusaDb
