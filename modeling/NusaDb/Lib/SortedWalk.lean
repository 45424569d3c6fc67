import NusaDb.Lib.OrdMap

/-!
# Walking an ordered map in pieces

A walk collects what a partial function makes of each entry of a range, in order. Cut after some
entry, it is resumed by the range of the keys past that entry (`filter_after`).
-/

namespace NusaDb

open List Option

lemma takeWhile_eq_filter {α : Type} {p : α → Bool} {l : List α}
    (hl : l.Pairwise fun a b => p b = true → p a = true) : l.takeWhile p = l.filter p := by
  induction l with
  | nil => rfl
  | cons a l ih =>
    obtain ⟨hhead, htail⟩ := pairwise_cons.mp hl
    cases hp : p a with
    | true => rw [takeWhile_cons_of_pos hp, filter_cons_of_pos hp, ih htail]
    | false =>
      have hnone : ∀ b ∈ l, ¬p b = true := by
        intro b hb hpb
        rw [hhead b hb hpb] at hp
        cases hp
      rw [takeWhile_cons_of_neg (by rw [hp]; exact Bool.false_ne_true),
        filter_cons_of_neg (by rw [hp]; exact Bool.false_ne_true),
        filter_eq_nil_iff.mpr hnone]

namespace OrdMap

variable {α β γ : Type} [LinearOrder α]

lemma filter_after {m : OrdMap α β} {p p' : α → Bool} {taken rest : List (α × β)} {last : α × β}
    (hsplit : (m.toList.filter fun e => p e.1) = taken ++ last :: rest)
    (hp' : ∀ k, p' k = (p k && decide (last.1 < k))) :
    (m.toList.filter fun e => p' e.1) = rest := by
  have hsorted : (taken ++ last :: rest).Pairwise fun a b => a.1 < b.1 := by
    rw [← hsplit]
    exact m.sorted.filter _
  obtain ⟨-, htail, hbefore⟩ := pairwise_append.mp hsorted
  obtain ⟨hafter, -⟩ := pairwise_cons.mp htail
  have hrefine : (m.toList.filter fun e => p' e.1) =
      (m.toList.filter fun e => p e.1).filter fun e => decide (last.1 < e.1) := by
    rw [List.filter_filter]
    refine filter_congr fun e _ => ?_
    rw [hp', Bool.and_comm]
  have htaken : ∀ e ∈ taken, ¬decide (last.1 < e.1) = true := by
    intro e he
    rw [decide_eq_true_eq]
    exact lt_asymm (hbefore e he last mem_cons_self)
  have hrest : ∀ e ∈ rest, decide (last.1 < e.1) = true :=
    fun e he => decide_eq_true (hafter e he)
  rw [hrefine, hsplit, filter_append, filter_eq_nil_iff.mpr htaken, nil_append,
    filter_cons_of_neg (by rw [decide_eq_true_eq]; exact lt_irrefl _),
    filter_eq_self.mpr hrest]

def collect (m : OrdMap α β) (p : α → Bool) (f : α × β → Option γ) : List γ :=
  (m.toList.filter fun e => p e.1).filterMap f

lemma collect_congr {β' : Type} {m : OrdMap α β} {m' : OrdMap α β'} {f : α × β → Option γ}
    {f' : α × β' → Option γ}
    (hsame : ∀ k, (m.get? k).bind (fun v => f (k, v)) = (m'.get? k).bind fun v => f' (k, v))
    (p : α → Bool) : m.collect p f = m'.collect p f' := by
  -- each collected with its key, in strict key order, with the same members
  have hkeyed : ∀ {δ : Type} (m : OrdMap α δ) (f : α × δ → Option γ), m.collect p f =
      (m.collect p fun e => (f e).map fun c => (e.1, c)).map Prod.snd := by
    intro δ m f
    unfold collect
    rw [map_filterMap]
    refine filterMap_congr fun e _ => ?_
    rw [Option.map_map]
    exact map_id'.symm
  have hsorted : ∀ {δ : Type} (m : OrdMap α δ) (f : α × δ → Option γ),
      (m.collect p fun e => (f e).map fun c => (e.1, c)).Pairwise fun a b => a.1 < b.1 := by
    intro δ m f
    refine (m.sorted.filter _).filterMap _ ?_
    intro a a' haa b hb b' hb'
    obtain ⟨_, _, rfl⟩ := map_eq_some_iff.mp hb
    obtain ⟨_, _, rfl⟩ := map_eq_some_iff.mp hb'
    exact haa
  have hmem : ∀ {δ : Type} (m : OrdMap α δ) (f : α × δ → Option γ) (q : α × γ),
      (q ∈ m.collect p fun e => (f e).map fun c => (e.1, c)) ↔
        p q.1 = true ∧ (m.get? q.1).bind (fun v => f (q.1, v)) = some q.2 := by
    intro δ m f q
    unfold collect
    simp only [mem_filterMap, mem_filter, map_eq_some_iff, Prod.exists]
    constructor
    · rintro ⟨k, v, ⟨hin, hp⟩, c, hf, rfl⟩
      rw [mem_toList] at hin
      refine ⟨hp, ?_⟩
      rw [hin]
      exact hf
    · rintro ⟨hp, hbind⟩
      obtain ⟨v, hget, hf⟩ := bind_eq_some_iff.mp hbind
      exact ⟨q.1, v, ⟨mem_toList.mpr hget, hp⟩, q.2, hf, rfl⟩
  rw [hkeyed m f, hkeyed m' f']
  congr 1
  refine eq_of_pairwise_of_mem (fun a b hab => lt_asymm hab) (hsorted m f) (hsorted m' f') ?_
  intro q
  rw [hmem, hmem, hsame]

end OrdMap

end NusaDb
