import Mathlib.Order.Basic
import Mathlib.Data.List.Sort
import Mathlib.Data.List.Basic

/-!
# Ordered finite maps

A finite map over a linearly ordered key type, as the association list in strictly ascending key
order: `toList` is the in-order walk, and maps with the same lookups are equal (`OrdMap.ext_get?`).
-/

namespace NusaDb

open List Option

structure OrdMap (α β : Type) [LinearOrder α] where
  toList : List (α × β)
  sorted : toList.Pairwise (fun a b => a.1 < b.1)

namespace OrdMap

variable {α β γ : Type} [LinearOrder α]

def insertList (k : α) (v : β) : List (α × β) → List (α × β)
  | [] => [(k, v)]
  | (a, b) :: l =>
    if k < a then (k, v) :: (a, b) :: l
    else if k = a then (k, v) :: l
    else (a, b) :: insertList k v l

def eraseList (k : α) (l : List (α × β)) : List (α × β) :=
  l.filter (fun p => decide (p.1 ≠ k))

def getList? (l : List (α × β)) (k : α) : Option β :=
  (l.find? (fun p => decide (p.1 = k))).map Prod.snd

@[simp] lemma getList?_nil (k : α) : getList? ([] : List (α × β)) k = none := rfl

lemma getList?_cons (p : α × β) (l : List (α × β)) (k : α) :
    getList? (p :: l) k = if p.1 = k then some p.2 else getList? l k := by
  unfold getList?
  by_cases h : p.1 = k
  · simp [h]
  · simp [h]

lemma getList?_insertList (l : List (α × β)) (k k' : α) (v : β) :
    getList? (insertList k v l) k' = if k = k' then some v else getList? l k' := by
  induction l with
  | nil => simp [insertList, getList?_cons]
  | cons p l ih =>
    obtain ⟨a, b⟩ := p
    unfold insertList
    by_cases h1 : k < a
    · simp [h1, getList?_cons]
    by_cases h2 : k = a
    · subst h2
      by_cases h3 : k = k' <;> simp [getList?_cons, h3]
    rw [if_neg h1, if_neg h2, getList?_cons, ih, getList?_cons]
    by_cases h3 : a = k'
    · subst h3
      simp [h2]
    · simp [h3]

lemma getList?_eraseList (l : List (α × β)) (k k' : α) :
    getList? (eraseList k l) k' = if k = k' then none else getList? l k' := by
  induction l with
  | nil => simp [eraseList]
  | cons p l ih =>
    unfold eraseList at ih ⊢
    by_cases h : p.1 = k
    · rw [filter_cons_of_neg (by simp [h]), ih, getList?_cons]
      by_cases h' : k = k'
      · simp [h']
      · simp [h', h]
    rw [filter_cons_of_pos (by simp [h]), getList?_cons, ih, getList?_cons]
    by_cases h' : k = k'
    · subst h'
      simp [h]
    · simp [h']

variable {k : α} {v : β} {l : List (α × β)}

lemma mem_insertList {p : α × β} (h : p ∈ insertList k v l) : p = (k, v) ∨ p ∈ l := by
  induction l with
  | nil => simpa [insertList] using h
  | cons q l ih =>
    unfold insertList at h
    split at h
    · simpa using h
    split at h
    · rcases mem_cons.mp h with h | h
      · exact .inl h
      · exact .inr (mem_cons_of_mem _ h)
    rcases mem_cons.mp h with h | h
    · exact .inr (by simp [h])
    rcases ih h with h | h
    · exact .inl h
    · exact .inr (mem_cons_of_mem _ h)

lemma insertList_sorted (hl : l.Pairwise (fun a b => a.1 < b.1)) :
    (insertList k v l).Pairwise (fun a b => a.1 < b.1) := by
  induction l with
  | nil => simp [insertList]
  | cons q l ih =>
    rw [pairwise_cons] at hl
    unfold insertList
    split
    · rename_i hlt
      refine pairwise_cons.mpr ⟨?_, pairwise_cons.mpr hl⟩
      intro p hp
      rcases mem_cons.mp hp with rfl | hp
      · exact hlt
      · exact lt_trans hlt (hl.1 p hp)
    rename_i hnlt
    split
    · rename_i heq
      subst heq
      exact pairwise_cons.mpr hl
    rename_i hne
    refine pairwise_cons.mpr ⟨?_, ih hl.2⟩
    intro p hp
    rcases mem_insertList hp with rfl | hp
    · exact lt_of_le_of_ne (not_lt.mp hnlt) (Ne.symm hne)
    · exact hl.1 p hp

lemma mem_iff_getList? (hl : l.Pairwise (fun a b => a.1 < b.1)) :
    (k, v) ∈ l ↔ getList? l k = some v := by
  induction l with
  | nil => simp
  | cons p l ih =>
    rw [pairwise_cons] at hl
    rw [mem_cons, ih hl.2, getList?_cons]
    by_cases h : p.1 = k
    · -- the head holds the key, so the tail cannot
      have htail : getList? l k ≠ some v := by
        intro hw
        exact absurd (hl.1 _ ((ih hl.2).mpr hw)) (by simp [h])
      simp only [h, if_true, some.injEq]
      constructor
      · rintro (heq | hw)
        · rw [← heq]
        · exact absurd hw htail
      · rintro rfl
        exact .inl (by rw [← h])
    · simp only [h, if_false]
      constructor
      · rintro (heq | hw)
        · exact absurd (by rw [← heq]) h
        · exact hw
      · exact .inr

def empty : OrdMap α β := ⟨[], List.Pairwise.nil⟩

instance : Inhabited (OrdMap α β) := ⟨empty⟩

def get? (m : OrdMap α β) (k : α) : Option β := getList? m.toList k

def insert (m : OrdMap α β) (k : α) (v : β) : OrdMap α β :=
  ⟨insertList k v m.toList, insertList_sorted m.sorted⟩

def erase (m : OrdMap α β) (k : α) : OrdMap α β :=
  ⟨eraseList k m.toList, m.sorted.filter _⟩

def modify (m : OrdMap α β) (k : α) (f : β → β) : OrdMap α β :=
  match m.get? k with
  | none => m
  | some v => m.insert k (f v)

def keys (m : OrdMap α β) : List α := m.toList.map Prod.fst

def values (m : OrdMap α β) : List β := m.toList.map Prod.snd

def contains (m : OrdMap α β) (k : α) : Bool := (m.get? k).isSome

lemma get?_of_contains {m : OrdMap α β} {k : α} (h : ¬(!m.contains k) = true) :
    ∃ v, m.get? k = some v := by
  rw [Bool.not_eq_true', Bool.not_eq_false] at h
  exact isSome_iff_exists.mp h

section

variable (m : OrdMap α β) (k k' : α) (v : β)

lemma get?_insert : (m.insert k v).get? k' = if k = k' then some v else m.get? k' :=
  getList?_insertList m.toList k k' v

@[simp] lemma get?_insert_self : (m.insert k v).get? k = some v := by
  simp [get?_insert]

lemma get?_erase : (m.erase k).get? k' = if k = k' then none else m.get? k' :=
  getList?_eraseList m.toList k k'

@[simp] lemma get?_erase_self : (m.erase k).get? k = none := by
  simp [get?_erase]

lemma get?_modify (f : β → β) :
    (m.modify k f).get? k' = if k = k' then (m.get? k).map f else m.get? k' := by
  unfold modify
  cases h : m.get? k with
  | none =>
    by_cases hk : k = k'
    · subst hk; simp [h]
    · simp [hk]
  | some v => simp [get?_insert]

end

variable {m : OrdMap α β}

lemma mem_toList : (k, v) ∈ m.toList ↔ m.get? k = some v :=
  mem_iff_getList? m.sorted

lemma mem_values : v ∈ m.values ↔ ∃ k, m.get? k = some v := by
  unfold values
  rw [List.mem_map]
  constructor
  · rintro ⟨⟨k, w⟩, hmem, rfl⟩
    exact ⟨k, mem_toList.mp hmem⟩
  · rintro ⟨k, hk⟩
    exact ⟨(k, v), mem_toList.mpr hk, rfl⟩

lemma mem_keys : k ∈ m.keys ↔ (m.get? k).isSome := by
  unfold keys
  rw [List.mem_map, Option.isSome_iff_exists]
  constructor
  · rintro ⟨⟨k', v⟩, hmem, rfl⟩
    exact ⟨v, mem_toList.mp hmem⟩
  · rintro ⟨v, hv⟩
    exact ⟨(k, v), mem_toList.mpr hv, rfl⟩

lemma eq_of_pairwise_of_mem {r : γ → γ → Prop} (hasymm : ∀ a b, r a b → ¬r b a) {l l' : List γ}
    (hl : l.Pairwise r) (hl' : l'.Pairwise r) (hmem : ∀ a, a ∈ l ↔ a ∈ l') : l = l' := by
  have hne : ∀ a b, r a b → a ≠ b := by
    intro a b hab heq
    subst heq
    exact hasymm a a hab hab
  have hperm : l.Perm l' :=
    (perm_ext_iff_of_nodup (hl.imp (hne _ _)) (hl'.imp (hne _ _))).mpr hmem
  exact hperm.eq_of_pairwise (fun a b _ _ hab hba => absurd hba (hasymm a b hab)) hl hl'

lemma ext_get? {m' : OrdMap α β} (h : ∀ k, m.get? k = m'.get? k) : m = m' := by
  have hlist : m.toList = m'.toList := by
    refine eq_of_pairwise_of_mem (fun a b hab hba => lt_asymm hab hba) m.sorted m'.sorted ?_
    rintro ⟨k, v⟩
    rw [mem_toList, mem_toList, h k]
  cases m
  subst hlist
  rfl

lemma insert_eq_modify (hk : m.get? k = some v) (f : β → β) :
    m.insert k (f v) = m.modify k f := by
  refine ext_get? fun k' => ?_
  rw [get?_insert, get?_modify, hk]
  rfl

lemma keys_sorted (m : OrdMap α β) : m.keys.Pairwise (· < ·) :=
  pairwise_map.mpr m.sorted

variable {f : α × β → List γ}

lemma flatMap_eq_of_unique (hk : m.get? k = some v)
    (hother : ∀ k' v', m.get? k' = some v' → k' ≠ k → f (k', v') = []) :
    m.toList.flatMap f = f (k, v) := by
  obtain ⟨before, after, hsplit⟩ := append_of_mem (mem_toList.mpr hk)
  have hsorted := m.sorted
  rw [hsplit] at hsorted
  obtain ⟨_, hrest, hbefore⟩ := pairwise_append.mp hsorted
  have hafter := (pairwise_cons.mp hrest).1
  have hnil : ∀ p ∈ m.toList, p.1 ≠ k → f p = [] := by
    intro p hp hne
    exact hother p.1 p.2 (mem_toList.mp hp) hne
  have hmem : ∀ p, p ∈ before ∨ p ∈ after → p ∈ m.toList := by
    intro p hp
    rw [hsplit]
    simp only [mem_append, mem_cons]
    exact hp.imp_right Or.inr
  have h1 : before.flatMap f = [] := by
    apply flatMap_eq_nil_iff.mpr
    intro p hp
    have hlt : p.1 < k := hbefore p hp (k, v) (mem_cons_self ..)
    exact hnil p (hmem p (.inl hp)) (ne_of_lt hlt)
  have h2 : after.flatMap f = [] := by
    apply flatMap_eq_nil_iff.mpr
    intro p hp
    exact hnil p (hmem p (.inr hp)) (ne_of_gt (hafter p hp))
  rw [hsplit, flatMap_append, flatMap_cons, h1, h2, nil_append, append_nil]

lemma flatMap_eq_nil (h : ∀ k v, m.get? k = some v → f (k, v) = []) :
    m.toList.flatMap f = [] := by
  apply flatMap_eq_nil_iff.mpr
  rintro ⟨k, v⟩ hp
  exact h k v (mem_toList.mp hp)

lemma toList_modify (m : OrdMap α β) (k : α) (g : β → β) :
    (m.modify k g).toList = m.toList.map fun p => if p.1 = k then (p.1, g p.2) else p := by
  have hkey : ∀ p : α × β, (if p.1 = k then (p.1, g p.2) else p).1 = p.1 := by
    intro p
    split <;> rfl
  let mapped : OrdMap α β :=
    ⟨m.toList.map fun p => if p.1 = k then (p.1, g p.2) else p,
      pairwise_map.mpr (m.sorted.imp fun {a b} hab => by rw [hkey, hkey]; exact hab)⟩
  have heq : m.modify k g = mapped := by
    refine ext_get? fun k' => ?_
    refine ext fun v => ?_
    rw [get?_modify, ← mem_toList (m := mapped)]
    simp only [mapped, List.mem_map]
    constructor
    · intro h
      by_cases hk : k = k'
      · subst hk
        rw [if_pos rfl, map_eq_some_iff] at h
        obtain ⟨w, hw, rfl⟩ := h
        exact ⟨(k, w), mem_toList.mpr hw, by simp⟩
      · rw [if_neg hk] at h
        exact ⟨(k', v), mem_toList.mpr h, if_neg (Ne.symm hk)⟩
    · rintro ⟨⟨a, w⟩, hmem, heq⟩
      have hget := mem_toList.mp hmem
      by_cases hk : a = k
      · subst hk
        rw [if_pos rfl] at heq
        obtain ⟨rfl, rfl⟩ := Prod.mk.inj heq
        rw [if_pos rfl, hget]
        rfl
      · rw [if_neg hk] at heq
        obtain ⟨rfl, rfl⟩ := Prod.mk.inj heq
        rw [if_neg (Ne.symm hk), hget]
  rw [heq]

lemma flatMap_insert_nil (hk : m.get? k = none) (hf : f (k, v) = []) :
    (m.insert k v).toList.flatMap f = m.toList.flatMap f := by
  obtain ⟨l, hl⟩ := m
  unfold insert get? at *
  simp only at hk ⊢
  clear hl
  induction l with
  | nil => simp [insertList, hf]
  | cons p l ih =>
    obtain ⟨a, b⟩ := p
    rw [getList?_cons] at hk
    unfold insertList
    by_cases h1 : k < a
    · simp [h1, hf]
    by_cases h2 : k = a
    · rw [if_pos h2.symm] at hk
      cases hk
    · rw [if_neg (Ne.symm h2)] at hk
      rw [if_neg h1, if_neg h2, flatMap_cons, flatMap_cons, ih hk]

lemma flatMap_erase_nil (hf : ∀ v, m.get? k = some v → f (k, v) = []) :
    (m.erase k).toList.flatMap f = m.toList.flatMap f := by
  have key : ∀ l : List (α × β), (∀ p ∈ l, p.1 = k → f p = []) →
      (eraseList k l).flatMap f = l.flatMap f := by
    intro l hl
    unfold eraseList
    induction l with
    | nil => rfl
    | cons p l ih =>
      have hrest := ih fun q hq => hl q (mem_cons_of_mem _ hq)
      by_cases hp : p.1 = k
      · rw [filter_cons_of_neg (by simpa using hp), hrest, flatMap_cons,
          hl p (mem_cons_self ..) hp, nil_append]
      · rw [filter_cons_of_pos (by simpa using hp), flatMap_cons, flatMap_cons, hrest]
  refine key m.toList ?_
  rintro ⟨a, v⟩ hmem rfl
  exact hf v (mem_toList.mp hmem)

def mapVal (f : β → γ) (m : OrdMap α β) : OrdMap α γ :=
  ⟨m.toList.map fun p => (p.1, f p.2), List.pairwise_map.mpr m.sorted⟩

section

variable (f : β → γ) (m : OrdMap α β) (k : α)

lemma get?_mapVal : (m.mapVal f).get? k = (m.get? k).map f := by
  show getList? (m.toList.map fun p => (p.1, f p.2)) k = (getList? m.toList k).map f
  induction m.toList with
  | nil => rfl
  | cons p l ih =>
    rw [map_cons, getList?_cons, getList?_cons, ih]
    split <;> rfl

end

lemma mapVal_modify {f : β → γ} {g : β → β} {g' : γ → γ} (hg : ∀ v, f (g v) = g' (f v))
    (m : OrdMap α β) (k : α) : (m.modify k g).mapVal f = (m.mapVal f).modify k g' := by
  refine ext_get? fun k' => ?_
  rw [get?_mapVal, get?_modify, get?_modify, get?_mapVal, get?_mapVal]
  split
  · rw [Option.map_map, Option.map_map]
    congr 1
    funext v
    exact hg v
  · rfl

lemma modify_congr {f g : β → β} (h : ∀ v, m.get? k = some v → f v = g v) :
    m.modify k f = m.modify k g := by
  unfold modify
  cases hk : m.get? k with
  | none => rfl
  | some v =>
    dsimp only
    rw [h v hk]

lemma modify_id (m : OrdMap α β) (k : α) : m.modify k (fun v => v) = m := by
  refine ext_get? fun k' => ?_
  rw [get?_modify]
  split
  · rename_i hk
    subst hk
    exact map_id'
  · rfl

lemma map_get?_modify_self {g : β → γ} {f : β → β} (hf : ∀ v, g (f v) = g v) (m : OrdMap α β)
    (k k' : α) : ((m.modify k f).get? k').map g = (m.get? k').map g := by
  have hid : (m.modify k f).mapVal g = (m.mapVal g).modify k fun v => v := mapVal_modify hf m k
  rw [← get?_mapVal, hid, modify_id, get?_mapVal]

lemma isSome_get?_modify (m : OrdMap α β) (k k' : α) (f : β → β) :
    ((m.modify k f).get? k').isSome = (m.get? k').isSome := by
  have hunit := map_get?_modify_self (g := fun _ => ()) (f := f) (fun _ => rfl) m k k'
  rw [← isSome_map (f := fun _ => ()), hunit, isSome_map]

lemma nodup_toList (m : OrdMap α β) : m.toList.Nodup :=
  m.sorted.imp fun h heq => absurd (congrArg Prod.fst heq) h.ne

lemma insert_perm (m : OrdMap α β) (k : α) (v : β) :
    (m.insert k v).toList.Perm ((k, v) :: (m.erase k).toList) := by
  have hfresh : (k, v) ∉ (m.erase k).toList := by
    rw [mem_toList, get?_erase_self]
    exact some_ne_none v ∘ Eq.symm
  refine (perm_ext_iff_of_nodup (nodup_toList _)
    (nodup_cons.mpr ⟨hfresh, nodup_toList _⟩)).mpr fun e => ?_
  obtain ⟨k', v'⟩ := e
  rw [mem_cons, mem_toList, mem_toList, get?_insert, get?_erase, Prod.mk.injEq]
  by_cases hk : k = k'
  · rw [if_pos hk, if_pos hk]
    constructor
    · intro h
      exact .inl ⟨hk.symm, (some_inj.mp h).symm⟩
    · rintro (⟨-, rfl⟩ | h)
      · rfl
      · cases h
  · rw [if_neg hk, if_neg hk]
    constructor
    · exact .inr
    · rintro (⟨rfl, -⟩ | h)
      · exact absurd rfl hk
      · exact h

lemma insert_self_eq (h : m.get? k = some v) : m.insert k v = m := by
  refine ext_get? fun k' => ?_
  rw [get?_insert]
  split
  case isTrue hk => rw [← hk, h]
  case isFalse => rfl

lemma erase_eq_self (h : m.get? k = none) : m.erase k = m := by
  refine ext_get? fun k' => ?_
  rw [get?_erase]
  split
  case isTrue hk => rw [← hk, h]
  case isFalse => rfl

def count (p : β → Bool) (m : OrdMap α β) : Nat := m.toList.countP fun e => p e.2

lemma length_toList (m : OrdMap α β) : m.toList.length = m.count fun _ => true := by
  rw [count, countP_true]

lemma count_insert (p : β → Bool) (m : OrdMap α β) (k : α) (v : β) :
    (m.insert k v).count p = (m.erase k).count p + (p v).toNat := by
  unfold count
  rw [(insert_perm m k v).countP_eq, countP_cons]
  cases p v <;> rfl

lemma count_of_some {p : β → Bool} (h : m.get? k = some v) :
    m.count p = (m.erase k).count p + (p v).toNat := by
  rw [← count_insert, insert_self_eq h]

end OrdMap

lemma update_eq_some {α β : Type} [DecidableEq α] {f : α → Option β} {a t : α} {b : Option β} {v : β}
    (h : Function.update f a b t = some v) : t = a ∧ b = some v ∨ t ≠ a ∧ f t = some v := by
  by_cases ht : t = a
  · subst ht
    rw [Function.update_self] at h
    exact .inl ⟨rfl, h⟩
  · rw [Function.update_of_ne ht] at h
    exact .inr ⟨ht, h⟩

end NusaDb
