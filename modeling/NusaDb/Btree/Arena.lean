import NusaDb.Btree.Chains

/-!
# Ownership of arena slots

Every occupied slot belongs to exactly one row's chain or to the orphan list, and the free list
names empty slots, each once (`Owned`).
-/

namespace NusaDb

open List Function UndoDomain Arena

variable {slots : Loc → List Nat} {u : UndoDomain} {loc : Loc}

def UndoDomain.orphanSlots (u : UndoDomain) : List Nat := u.orphans.map Prod.fst

/-- Who holds which slot: `slots loc` are the slots of the chain below the row `loc`. -/
structure Owned (u : UndoDomain) (slots : Loc → List Nat) : Prop where
  nodup : ∀ loc, (slots loc).Nodup
  disjoint : ∀ loc loc' s, s ∈ slots loc → s ∈ slots loc' → loc = loc'
  occupied : ∀ loc, ∀ s ∈ slots loc, (u.arena.slot s).isSome
  orphanNodup : u.orphanSlots.Nodup
  orphanOccupied : ∀ s ∈ u.orphanSlots, (u.arena.slot s).isSome
  orphanNotOwned : ∀ loc, ∀ s ∈ slots loc, s ∉ u.orphanSlots
  owner : ∀ s, (u.arena.slot s).isSome → (∃ loc, s ∈ slots loc) ∨ s ∈ u.orphanSlots
  freeNodup : u.free.Nodup
  freeEmpty : ∀ s ∈ u.free, s < u.arena.length ∧ u.arena.slot s = none

lemma Owned.init : Owned ⟨[], [], []⟩ (fun _ => []) where
  nodup _ := nodup_nil
  disjoint _ _ _ h := nomatch h
  occupied _ _ h := nomatch h
  orphanNodup := nodup_nil
  orphanOccupied _ h := nomatch h
  orphanNotOwned _ _ h := nomatch h
  owner s h := by simp at h
  freeNodup := nodup_nil
  freeEmpty _ h := nomatch h

lemma UndoDomain.park_spec (hfree : ∀ s ∈ u.free, s < u.arena.length ∧ u.arena.slot s = none)
    (v : Version) :
    let p := u.park v
    (∀ s, p.1.arena.slot s = if s = p.2 then some v else u.arena.slot s) ∧
      u.arena.slot p.2 = none ∧ p.1.orphans = u.orphans ∧
      (u.free = p.2 :: p.1.free ∨ (u.free = p.1.free ∧ p.2 ∉ u.free)) ∧
      u.arena.length ≤ p.1.arena.length := by
  obtain ⟨arena, free, orphans⟩ := u
  cases free with
  | cons i free =>
    obtain ⟨hlt, hempty⟩ := hfree i (mem_cons_self ..)
    refine ⟨?_, hempty, rfl, .inl rfl, ?_⟩
    · intro s
      show slot (arena.set i (some v)) s = if s = i then some v else slot arena s
      rw [slot_set]
      by_cases hs : i = s
      · rw [if_pos ⟨hs, hlt⟩, if_pos hs.symm]
      · rw [if_neg (fun h => hs h.1), if_neg (Ne.symm hs)]
    · show arena.length ≤ (arena.set i (some v)).length
      rw [length_set]
  | nil =>
    refine ⟨?_, ?_, rfl, .inr ⟨rfl, not_mem_nil⟩, ?_⟩
    · intro s
      exact slot_append_singleton arena (some v) s
    · show slot arena arena.length = none
      simp [slot]
    · show arena.length ≤ (arena ++ [some v]).length
      simp

variable {l : List Nat} {s : Nat}

lemma mem_update {loc' : Loc} :
    s ∈ update slots loc l loc' ↔ loc' = loc ∧ s ∈ l ∨ loc' ≠ loc ∧ s ∈ slots loc' := by
  by_cases hl : loc' = loc <;> simp [hl]

lemma exists_mem_update (h : ∃ loc', s ∈ slots loc') (hl : s ∈ slots loc → s ∈ l) :
    ∃ loc', s ∈ update slots loc l loc' := by
  obtain ⟨loc', hs⟩ := h
  refine ⟨loc', mem_update.mpr ?_⟩
  by_cases heq : loc' = loc
  · exact .inl ⟨heq, hl (heq ▸ hs)⟩
  · exact .inr ⟨heq, hs⟩

variable (ho : Owned u slots)

include ho

lemma Owned.nodup_update (hl : l.Nodup) : ∀ loc', (update slots loc l loc').Nodup :=
  (forall_update_iff slots fun _ l => l.Nodup).mpr ⟨hl, fun loc' _ => ho.nodup loc'⟩

/-- A parked version goes to a free slot or a new one, and its row owns it. -/
lemma Owned.park (loc : Loc) (v : Version) :
    Owned (u.park v).1 (update slots loc ((u.park v).2 :: slots loc)) := by
  obtain ⟨hslot, hempty, horph, hfree, hlen⟩ := park_spec ho.freeEmpty v
  generalize (u.park v).1 = u' at *
  generalize (u.park v).2 = i at *
  -- the parked slot was empty, so nobody held it
  have hfresh : ∀ loc', i ∉ slots loc' := by
    intro loc' hmem
    have hocc := ho.occupied loc' i hmem
    rw [hempty] at hocc
    cases hocc
  have hnorphan : i ∉ u.orphanSlots := by
    intro hmem
    have hocc := ho.orphanOccupied i hmem
    rw [hempty] at hocc
    cases hocc
  have horphSlots : u'.orphanSlots = u.orphanSlots := by
    unfold orphanSlots
    rw [horph]
  have hmem : ∀ {loc' : Loc} {s : Nat}, s ∈ update slots loc (i :: slots loc) loc' →
      (s = i ∧ loc' = loc) ∨ s ∈ slots loc' := by
    intro loc' s hs
    rcases mem_update.mp hs with ⟨rfl, hs⟩ | ⟨-, hs⟩
    · exact (mem_cons.mp hs).imp_left fun h => ⟨h, rfl⟩
    · exact .inr hs
  have hocc : ∀ s, (u.arena.slot s).isSome → (u'.arena.slot s).isSome := by
    intro s hs
    rw [hslot]
    split
    · rfl
    · exact hs
  refine ⟨ho.nodup_update (nodup_cons.mpr ⟨hfresh loc, ho.nodup loc⟩),
    ?_, ?_, ?_, ?_, ?_, ?_, ?_, ?_⟩
  · intro l1 l2 s h1 h2
    rcases hmem h1 with ⟨h1i, h1l⟩ | h1'
    · rcases hmem h2 with ⟨_, h2l⟩ | h2'
      · rw [h1l, h2l]
      · exact absurd (h1i ▸ h2') (hfresh l2)
    · rcases hmem h2 with ⟨h2i, _⟩ | h2'
      · exact absurd (h2i ▸ h1') (hfresh l1)
      · exact ho.disjoint l1 l2 s h1' h2'
  · intro loc' s hs
    rcases hmem hs with ⟨rfl, _⟩ | hs
    · rw [hslot, if_pos rfl]
      rfl
    · exact hocc s (ho.occupied loc' s hs)
  · rw [horphSlots]
    exact ho.orphanNodup
  · intro s hs
    rw [horphSlots] at hs
    exact hocc s (ho.orphanOccupied s hs)
  · intro loc' s hs
    rw [horphSlots]
    rcases hmem hs with ⟨rfl, _⟩ | hs
    · exact hnorphan
    · exact ho.orphanNotOwned loc' s hs
  · intro s hs
    rw [horphSlots]
    by_cases hsi : s = i
    · exact .inl ⟨loc, by rw [update_self, hsi]; exact mem_cons_self ..⟩
    rw [hslot, if_neg hsi] at hs
    exact (ho.owner s hs).imp_left fun h => exists_mem_update h (mem_cons_of_mem i)
  · rcases hfree with hfree | hfree
    · have hnodup := ho.freeNodup
      rw [hfree] at hnodup
      exact (nodup_cons.mp hnodup).2
    · exact hfree.1 ▸ ho.freeNodup
  · intro s hs
    have hs' : s ∈ u.free ∧ s ≠ i := by
      rcases hfree with hfree | ⟨hfree, hni⟩
      · have hnodup := ho.freeNodup
        rw [hfree] at hnodup
        refine ⟨hfree ▸ mem_cons_of_mem _ hs, ?_⟩
        rintro rfl
        exact (nodup_cons.mp hnodup).1 hs
      · refine ⟨hfree ▸ hs, ?_⟩
        rintro rfl
        exact hni (hfree ▸ hs)
    obtain ⟨hlt, hnone⟩ := ho.freeEmpty s hs'.1
    refine ⟨lt_of_lt_of_le hlt hlen, ?_⟩
    rw [hslot, if_neg hs'.2, hnone]

/-- An undone update leaves its slot to readers that may still walk into it. -/
lemma Owned.orphan {i : Nat} {rest : List Nat} (txn : TxnId) (hi : slots loc = i :: rest) :
    Owned (u.pushOrphan i txn) (update slots loc rest) := by
  have hnodup := ho.nodup loc
  rw [hi] at hnodup
  obtain ⟨hnot, hrest⟩ := nodup_cons.mp hnodup
  have himem : i ∈ slots loc := hi ▸ mem_cons_self ..
  have horphSlots : (u.pushOrphan i txn).orphanSlots = u.orphanSlots ++ [i] := by
    simp [orphanSlots, pushOrphan]
  have hmem : ∀ {loc' : Loc} {s : Nat}, s ∈ update slots loc rest loc' →
      s ∈ slots loc' ∧ s ≠ i := by
    intro loc' s hs
    rcases mem_update.mp hs with ⟨rfl, hrs⟩ | ⟨hl, hs⟩
    · exact ⟨hi ▸ mem_cons_of_mem _ hrs, fun h => hnot (h ▸ hrs)⟩
    refine ⟨hs, ?_⟩
    rintro rfl
    exact hl (ho.disjoint loc' loc s hs himem)
  refine ⟨ho.nodup_update hrest, ?_, ?_, ?_, ?_, ?_, ?_, ho.freeNodup, ho.freeEmpty⟩
  · intro l1 l2 s h1 h2
    exact ho.disjoint l1 l2 s (hmem h1).1 (hmem h2).1
  · intro loc' s hs
    exact ho.occupied loc' s (hmem hs).1
  · rw [horphSlots]
    refine nodup_append.mpr ⟨ho.orphanNodup, nodup_singleton i, ?_⟩
    intro a ha b hb
    rw [mem_singleton] at hb
    subst hb
    rintro rfl
    exact ho.orphanNotOwned loc a himem ha
  · intro s hs
    rw [horphSlots, mem_append, mem_singleton] at hs
    rcases hs with hs | rfl
    · exact ho.orphanOccupied s hs
    · exact ho.occupied loc s himem
  · intro loc' s hs
    rw [horphSlots, mem_append, mem_singleton]
    rintro (h | h)
    · exact ho.orphanNotOwned loc' s (hmem hs).1 h
    · exact (hmem hs).2 h
  · intro s hs
    rw [horphSlots, mem_append, mem_singleton]
    by_cases hsi : s = i
    · exact .inr (.inr hsi)
    rcases ho.owner s hs with h | h
    · refine .inl (exists_mem_update h fun hs' => ?_)
      rw [hi] at hs'
      exact (mem_cons.mp hs').resolve_left hsi
    · exact .inr (.inl h)

/-- A row whose slots are all freed owns none. -/
lemma Owned.clear {u' : UndoDomain} (loc : Loc)
    (hslot : ∀ s, u'.arena.slot s = if s ∈ slots loc then none else u.arena.slot s)
    (hlen : u'.arena.length = u.arena.length) (hfree : u'.free = (slots loc).reverse ++ u.free)
    (horph : u'.orphans = u.orphans) : Owned u' (update slots loc []) := by
  have horphSlots : u'.orphanSlots = u.orphanSlots := by
    unfold orphanSlots
    rw [horph]
  have hmem : ∀ {loc' : Loc} {s : Nat}, s ∈ update slots loc [] loc' →
      s ∈ slots loc' ∧ s ∉ slots loc := by
    intro loc' s hs
    rcases mem_update.mp hs with ⟨-, hs⟩ | ⟨hl, hs⟩
    · cases hs
    · exact ⟨hs, fun h => hl (ho.disjoint loc' loc s hs h)⟩
  have hkeep : ∀ s, s ∉ slots loc → u'.arena.slot s = u.arena.slot s := by
    intro s hs
    rw [hslot, if_neg hs]
  refine ⟨ho.nodup_update nodup_nil, ?_, ?_, ?_, ?_, ?_, ?_, ?_, ?_⟩
  · intro l1 l2 s h1 h2
    exact ho.disjoint l1 l2 s (hmem h1).1 (hmem h2).1
  · intro loc' s hs
    rw [hkeep s (hmem hs).2]
    exact ho.occupied loc' s (hmem hs).1
  · rw [horphSlots]
    exact ho.orphanNodup
  · intro s hs
    rw [horphSlots] at hs
    rw [hkeep s (fun h => ho.orphanNotOwned loc s h hs)]
    exact ho.orphanOccupied s hs
  · intro loc' s hs
    rw [horphSlots]
    exact ho.orphanNotOwned loc' s (hmem hs).1
  · intro s hs
    rw [horphSlots]
    rw [hslot] at hs
    split at hs
    · cases hs
    rename_i hnot
    exact (ho.owner s hs).imp_left fun h => exists_mem_update h fun hs' => absurd hs' hnot
  · rw [hfree]
    refine nodup_append.mpr ⟨nodup_reverse.mpr (ho.nodup loc), ho.freeNodup, ?_⟩
    intro a ha b hb
    rw [mem_reverse] at ha
    rintro rfl
    have hocc := ho.occupied loc a ha
    rw [(ho.freeEmpty a hb).2] at hocc
    cases hocc
  · intro s hs
    rw [hfree, mem_append, mem_reverse] at hs
    rw [hlen]
    rcases hs with hs | hs
    · obtain ⟨w, hw⟩ := Option.isSome_iff_exists.mp (ho.occupied loc s hs)
      exact ⟨lt_length_of_slot hw, by rw [hslot, if_pos hs]⟩
    obtain ⟨hlt, hnone⟩ := ho.freeEmpty s hs
    refine ⟨hlt, ?_⟩
    rw [hslot, hnone]
    split <;> rfl

/-- An orphan belongs to no row, so that freeing it takes nothing away. -/
lemma Owned.freeOrphan {before after : List (Nat × TxnId)} {i : Nat} {txn : TxnId}
    (horph : u.orphans = before ++ (i, txn) :: after) :
    Owned { arena := u.arena.set i none, free := i :: u.free, orphans := before ++ after }
      slots := by
  have hsplit : u.orphanSlots = before.map Prod.fst ++ i :: after.map Prod.fst := by
    simp [orphanSlots, horph]
  have hsplit' : orphanSlots
      { arena := u.arena.set i none, free := i :: u.free, orphans := before ++ after } =
      before.map Prod.fst ++ after.map Prod.fst := by
    simp [orphanSlots]
  have himem : i ∈ u.orphanSlots := by
    rw [hsplit]
    simp
  obtain ⟨w, hw⟩ := Option.isSome_iff_exists.mp (ho.orphanOccupied i himem)
  have hlt : i < u.arena.length := lt_length_of_slot hw
  have hslot : ∀ s, slot (u.arena.set i none) s = if i = s then none else u.arena.slot s := by
    intro s
    rw [slot_set]
    by_cases hs : i = s
    · rw [if_pos ⟨hs, hlt⟩, if_pos hs]
    · rw [if_neg (fun h => hs h.1), if_neg hs]
  have hnodup := ho.orphanNodup
  rw [hsplit, nodup_middle] at hnodup
  obtain ⟨hnot, hnodup'⟩ := nodup_cons.mp hnodup
  have hkeep : ∀ s, s ≠ i → (u.arena.slot s).isSome →
      (slot (u.arena.set i none) s).isSome := by
    intro s hs hocc
    rw [hslot, if_neg (Ne.symm hs)]
    exact hocc
  refine ⟨ho.nodup, ho.disjoint, ?_, ?_, ?_, ?_, ?_, ?_, ?_⟩
  · intro loc s hs
    exact hkeep s (fun h => ho.orphanNotOwned loc s hs (h ▸ himem)) (ho.occupied loc s hs)
  · rw [hsplit']
    exact hnodup'
  · intro s hs
    rw [hsplit'] at hs
    refine hkeep s (fun h => hnot (h ▸ hs)) (ho.orphanOccupied s ?_)
    rw [hsplit]
    simp only [mem_append, mem_cons] at hs ⊢
    exact hs.imp_right Or.inr
  · intro loc s hs hmem
    rw [hsplit'] at hmem
    refine ho.orphanNotOwned loc s hs ?_
    rw [hsplit]
    simp only [mem_append, mem_cons] at hmem ⊢
    exact hmem.imp_right Or.inr
  · intro s hocc
    have hne : s ≠ i := by
      rintro rfl
      rw [hslot, if_pos rfl] at hocc
      cases hocc
    rw [hslot, if_neg (Ne.symm hne)] at hocc
    refine (ho.owner s hocc).imp_right ?_
    intro hmem
    rw [hsplit'] 
    rw [hsplit] at hmem
    simp only [mem_append, mem_cons] at hmem ⊢
    exact hmem.imp_right fun h => h.resolve_left hne
  · refine nodup_cons.mpr ⟨?_, ho.freeNodup⟩
    intro hmem
    rw [(ho.freeEmpty i hmem).2] at hw
    cases hw
  · intro s hs
    show s < (u.arena.set i none).length ∧ _
    rw [length_set]
    rcases mem_cons.mp hs with rfl | hs
    · exact ⟨hlt, by rw [hslot, if_pos rfl]⟩
    obtain ⟨hlt', hnone⟩ := ho.freeEmpty s hs
    refine ⟨hlt', ?_⟩
    rw [hslot, hnone]
    split <;> rfl

omit ho in
/-- The orphans are judged one by one: `u.orphans` are those kept so far, `todo` those to come. -/
lemma Owned.purgeOrphanLoop (settled : TxnId → Bool) (todo : List (Nat × TxnId))
    (ho : Owned { u with orphans := u.orphans ++ todo } slots) :
    Owned (todo.foldl (purgeOrphan settled) u) slots := by
  induction todo generalizing u with
  | nil => simpa using ho
  | cons orphan todo ih =>
    obtain ⟨i, txn⟩ := orphan
    refine ih ?_
    unfold purgeOrphan
    by_cases hset : settled txn = true
    · have hocc := ho.orphanOccupied i (by simp [orphanSlots])
      obtain ⟨w, hw⟩ := Option.isSome_iff_exists.mp hocc
      have hw' : u.arena.slot i = some w := hw
      simp only [hset, if_true, hw']
      exact ho.freeOrphan rfl
    · rw [if_neg hset]
      simpa [pushOrphan] using ho
variable (settled : TxnId → Bool)

lemma Owned.purgeOrphans : Owned (u.purgeOrphans settled) slots := by
  refine Owned.purgeOrphanLoop (u := { u with orphans := [] }) settled u.orphans ?_
  simpa using ho

omit ho in
lemma Owned.purgeOrphanLoop_slot (todo : List (Nat × TxnId)) {s : Nat}
    (hs : ∀ o ∈ todo, o.1 ≠ s) :
    (todo.foldl (purgeOrphan settled) u).arena.slot s = u.arena.slot s := by
  induction todo generalizing u with
  | nil => rfl
  | cons orphan todo ih =>
    obtain ⟨i, txn⟩ := orphan
    rw [foldl_cons, ih fun o ho => hs o (mem_cons_of_mem _ ho)]
    have hne : i ≠ s := hs (i, txn) (mem_cons_self ..)
    unfold purgeOrphan
    split
    · split
      · rfl
      · rw [slot_set, if_neg (fun h => hne h.1)]
    · rfl

lemma Owned.purgeOrphans_slot {s : Nat} (hs : s ∈ slots loc) :
    (u.purgeOrphans settled).arena.slot s = u.arena.slot s := by
  refine Owned.purgeOrphanLoop_slot (u := { u with orphans := [] }) settled u.orphans ?_
  rintro o ho' rfl
  exact ho.orphanNotOwned loc o.1 hs (mem_map_of_mem ho')

end NusaDb
