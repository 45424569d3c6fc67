import Mathlib.Data.List.Forall2

/-!
# Computations that may fail

What a result of an `Except` computation says of its parts, and the invariant rule for a fold that
stops at the first error.
-/

namespace NusaDb.Fallible

variable {ε α β : Type}

lemma bind_eq_ok {x : Except ε α} {f : α → Except ε β} {b : β} :
    (x >>= f) = .ok b ↔ ∃ a, x = .ok a ∧ f a = .ok b := by
  cases x with
  | error e =>
    constructor
    · intro h
      cases h
    · rintro ⟨_, h, _⟩
      cases h
  | ok a =>
    constructor
    · intro h
      exact ⟨a, rfl, h⟩
    · rintro ⟨a', ha, h⟩
      cases ha
      exact h

lemma map_eq_ok {x : Except ε α} {f : α → β} {b : β} :
    x.map f = .ok b ↔ ∃ a, x = .ok a ∧ f a = b := by
  constructor
  · intro h
    cases x with
    | error e => cases h
    | ok a =>
      cases h
      exact ⟨a, rfl, rfl⟩
  · rintro ⟨a, rfl, rfl⟩
    rfl

lemma mapError_eq_ok {ε' : Type} {x : Except ε α} {f : ε → ε'} {a : α} :
    x.mapError f = .ok a ↔ x = .ok a := by
  constructor
  · intro h
    cases x with
    | error e => cases h
    | ok b =>
      cases h
      rfl
  · rintro rfl
    rfl

lemma foldlM_invariant {f : β → α → Except ε β} {P : β → Prop} {xs : List α}
    (hstep : ∀ a ∈ xs, ∀ b b', P b → f b a = .ok b' → P b') :
    ∀ {b b' : β}, xs.foldlM f b = .ok b' → P b → P b' := by
  induction xs with
  | nil =>
    intro b b' h hb
    cases h
    exact hb
  | cons x xs ih =>
    intro b b' h hb
    obtain ⟨mid, hmid, hrest⟩ := bind_eq_ok.mp h
    exact ih (fun a ha => hstep a (List.mem_cons_of_mem x ha)) hrest
      (hstep x List.mem_cons_self b mid hb hmid)

lemma mapM_eq_ok {f : α → Except ε β} {xs : List α} {ys : List β} :
    xs.mapM f = .ok ys ↔ List.Forall₂ (fun x y => f x = .ok y) xs ys := by
  induction xs generalizing ys with
  | nil =>
    rw [List.mapM_nil, List.forall₂_nil_left_iff]
    exact ⟨fun h => (Except.ok.inj h).symm, fun h => congrArg Except.ok h.symm⟩
  | cons x xs ih =>
    simp only [List.mapM_cons, List.forall₂_cons_left_iff, bind_eq_ok, ih]
    constructor
    · rintro ⟨y, hy, rest, hrest, h⟩
      exact ⟨y, rest, hy, hrest, (Except.ok.inj h).symm⟩
    · rintro ⟨y, rest, hy, hrest, rfl⟩
      exact ⟨y, hy, rest, hrest, rfl⟩

lemma mapM_eq_some {f : α → Option β} {xs : List α} {ys : List β} :
    xs.mapM f = some ys ↔ List.Forall₂ (fun x y => f x = some y) xs ys := by
  induction xs generalizing ys with
  | nil => simp [eq_comm]
  | cons x xs ih =>
    simp only [List.mapM_cons, List.forall₂_cons_left_iff, Option.bind_eq_bind,
      Option.bind_eq_some_iff, Option.pure_def, Option.some.injEq, ih]
    constructor
    · rintro ⟨y, hy, rest, hrest, rfl⟩
      exact ⟨y, rest, hy, hrest, rfl⟩
    · rintro ⟨y, rest, hy, hrest, rfl⟩
      exact ⟨y, hy, rest, hrest, rfl⟩

lemma exists_of_mem_mapM {f : α → Option β} {xs : List α} {ys : List β}
    (h : xs.mapM f = some ys) {y : β} (hy : y ∈ ys) : ∃ x ∈ xs, f x = some y := by
  obtain ⟨i, hi, rfl⟩ := List.mem_iff_getElem.mp hy
  have hall := List.forall₂_iff_get.mp (mapM_eq_some.mp h)
  have hx : i < xs.length := hall.1 ▸ hi
  exact ⟨xs[i], List.getElem_mem hx, hall.2 i hx hi⟩

/-- The only element that passes the test is the one that is found. -/
lemma find?_eq_some_of_unique {p : α → Bool} {xs : List α} {x : α} (hx : x ∈ xs)
    (hp : p x = true) (hunique : ∀ y ∈ xs, p y = true → y = x) : xs.find? p = some x := by
  cases h : xs.find? p with
  | none => exact absurd hp (List.find?_eq_none.mp h x hx)
  | some y => rw [hunique y (List.mem_of_find?_eq_some h) (List.find?_some h)]

end NusaDb.Fallible
