import Mathlib.Logic.Relation
import Mathlib.Data.List.Basic

/-!
# The worklist walk over a finite graph

`while let Some(current) = frontier.pop()`: mark and push every new successor of the popped node.
Each node is popped once, so `pool`, a list of every node an edge can lead to, bounds the rounds;
with that much fuel the marked nodes are the reachable ones (`mem_closure`).
-/

namespace Worklist

open List

variable {α : Type} [DecidableEq α]

/-- The marked nodes and the stack of marked nodes still to be popped. -/
structure State (α : Type) where
  seen : List α
  frontier : List α

/-- `if seen.insert(x) { frontier.push(x) }`. -/
def visit (st : State α) (x : α) : State α :=
  if x ∈ st.seen then st else ⟨x :: st.seen, x :: st.frontier⟩

def run (next : α → List α) : Nat → State α → List α
  | 0, st => st.seen
  | fuel + 1, st =>
    match st.frontier with
    | [] => st.seen
    | x :: rest => run next fuel ((next x).foldl visit ⟨st.seen, rest⟩)

def closure (next : α → List α) (fuel : Nat) (start : α) : List α :=
  run next fuel ⟨[start], [start]⟩

def Edge (next : α → List α) (a b : α) : Prop := b ∈ next a

abbrev Reach (next : α → List α) : α → α → Prop := Relation.ReflTransGen (Edge next)

lemma mem_seen_visit (st : State α) (x y : α) :
    y ∈ (visit st x).seen ↔ y ∈ st.seen ∨ y = x := by
  unfold visit
  split
  · constructor
    · exact Or.inl
    · rintro (h | rfl)
      · exact h
      · assumption
  · simp [or_comm]

lemma mem_frontier_visit (st : State α) (x y : α) :
    y ∈ (visit st x).frontier ↔ y ∈ st.frontier ∨ (y = x ∧ x ∉ st.seen) := by
  unfold visit
  split
  · simp [*]
  · simp [*, or_comm]
variable (xs : List α)

lemma mem_seen_foldl (st : State α) (y : α) :
    y ∈ (xs.foldl visit st).seen ↔ y ∈ st.seen ∨ y ∈ xs := by
  induction xs generalizing st with
  | nil => simp
  | cons x xs ih => simp [ih, mem_seen_visit, or_assoc]

lemma mem_frontier_foldl (st : State α) (y : α) :
    y ∈ (xs.foldl visit st).frontier ↔ y ∈ st.frontier ∨ (y ∈ xs ∧ y ∉ st.seen) := by
  induction xs generalizing st with
  | nil => simp
  | cons x xs ih =>
    rw [foldl_cons, ih, mem_frontier_visit, mem_seen_visit, mem_cons]
    grind

/-- What bounds the rounds still to come: the nodes on the stack and the pool's unmarked ones. -/
def potential (pool : List α) (st : State α) : Nat :=
  st.frontier.length + (pool.filter (fun y => y ∉ st.seen)).length

variable {pool : List α}

lemma potential_visit {x : α} (st : State α) (hx : x ∈ pool) :
    potential pool (visit st x) ≤ potential pool st := by
  unfold visit
  split
  · exact Nat.le_refl _
  rename_i hnew
  have hsplit : pool.filter (fun y => y ∉ x :: st.seen) =
      (pool.filter (fun y => y ∉ st.seen)).filter (fun y => y ≠ x) := by
    rw [filter_filter]
    exact filter_congr fun y _ => by simp [mem_cons, not_or]
  -- the node just marked leaves the unmarked part of the pool
  have hlt : (pool.filter (fun y => y ∉ x :: st.seen)).length <
      (pool.filter (fun y => y ∉ st.seen)).length := by
    rw [hsplit]
    refine length_filter_lt_length_iff_exists.mpr ⟨x, ?_, by simp⟩
    exact mem_filter.mpr ⟨hx, by simpa using hnew⟩
  simp only [potential, length_cons]
  omega

lemma potential_foldl (st : State α) (hxs : ∀ x ∈ xs, x ∈ pool) :
    potential pool (xs.foldl visit st) ≤ potential pool st := by
  induction xs generalizing st with
  | nil => exact Nat.le_refl _
  | cons x xs ih =>
    have hx := potential_visit st (hxs x mem_cons_self)
    have hrest := ih (visit st x) fun y hy => hxs y (mem_cons_of_mem _ hy)
    exact Nat.le_trans hrest hx

/-- The loop invariant: the marked nodes are reachable, and a marked node that has left the stack
has all its successors marked. -/
structure Walking (next : α → List α) (start : α) (st : State α) : Prop where
  start_seen : start ∈ st.seen
  reachable : ∀ x ∈ st.seen, Reach next start x
  pending_seen : ∀ x ∈ st.frontier, x ∈ st.seen
  done : ∀ x ∈ st.seen, x ∉ st.frontier → ∀ y ∈ next x, y ∈ st.seen

omit [DecidableEq α] in
lemma Walking.init (next : α → List α) (start : α) : Walking next start ⟨[start], [start]⟩ where
  start_seen := mem_cons_self
  reachable := by
    intro x hx
    rw [mem_singleton.mp hx]
  pending_seen := fun _ h => h
  done := fun _ h hout => absurd h hout

variable {next : α → List α} {start : α}

lemma Walking.pop {x : α} {seen rest : List α} (h : Walking next start ⟨seen, x :: rest⟩) :
    Walking next start ((next x).foldl visit ⟨seen, rest⟩) where
  start_seen := (mem_seen_foldl _ _ _).mpr (.inl h.start_seen)
  reachable := by
    intro y hy
    rcases (mem_seen_foldl _ _ _).mp hy with hold | hnew
    · exact h.reachable y hold
    · exact (h.reachable x (h.pending_seen x mem_cons_self)).tail hnew
  pending_seen := by
    intro y hy
    rcases (mem_frontier_foldl _ _ _).mp hy with hold | ⟨hnew, -⟩
    · exact (mem_seen_foldl _ _ _).mpr (.inl (h.pending_seen y (mem_cons_of_mem _ hold)))
    · exact (mem_seen_foldl _ _ _).mpr (.inr hnew)
  done := by
    intro y hy hout z hz
    rw [mem_frontier_foldl, not_or] at hout
    -- a node marked in this round is on the stack, so `y` was marked before
    have hseen : y ∈ seen := by
      by_contra hnot
      rcases (mem_seen_foldl _ _ _).mp hy with hold | hnew
      · exact hnot hold
      · exact hout.2 ⟨hnew, hnot⟩
    by_cases hyx : y = x
    · subst hyx
      exact (mem_seen_foldl _ _ _).mpr (.inr hz)
    · have hpending : y ∉ x :: rest := by simp [hyx, hout.1]
      exact (mem_seen_foldl _ _ _).mpr (.inl (h.done y hseen hpending z hz))

omit [DecidableEq α] in
lemma Walking.complete {seen : List α} (h : Walking next start ⟨seen, []⟩) {x : α}
    (hx : Reach next start x) : x ∈ seen := by
  induction hx with
  | refl => exact h.start_seen
  | tail _ hstep ih => exact h.done _ ih not_mem_nil _ hstep

lemma Walking.mem_run (hpool : ∀ a, ∀ b ∈ next a, b ∈ pool) (fuel : Nat) (st : State α)
    (h : Walking next start st) (hfuel : potential pool st ≤ fuel) (x : α) :
    x ∈ run next fuel st ↔ Reach next start x := by
  induction fuel generalizing st with
  | zero =>
    have hempty : st.frontier = [] := by
      refine eq_nil_of_length_eq_zero ?_
      unfold potential at hfuel
      omega
    obtain ⟨seen, frontier⟩ := st
    subst hempty
    exact ⟨h.reachable x, h.complete⟩
  | succ fuel ih =>
    obtain ⟨seen, frontier⟩ := st
    cases frontier with
    | nil => exact ⟨h.reachable x, h.complete⟩
    | cons y rest =>
      refine ih _ h.pop ?_
      have hround := potential_foldl (next y) ⟨seen, rest⟩ (hpool y)
      simp only [potential, length_cons] at hfuel hround ⊢
      omega

lemma mem_closure (hpool : ∀ a, ∀ b ∈ next a, b ∈ pool) (start x : α) :
    x ∈ closure next (pool.length + 1) start ↔ Reach next start x := by
  refine Walking.mem_run hpool _ _ (Walking.init next start) ?_ x
  have hle : (pool.filter (fun y => y ∉ [start])).length ≤ pool.length := length_filter_le _ _
  simp only [potential, length_cons, length_nil]
  omega

omit [DecidableEq α] in
lemma Reach.mem_of_closed {P : α → Prop} (hclosed : ∀ a b, P a → b ∈ next a → P b) {a b : α}
    (ha : P a) (h : Reach next a b) : P b := by
  induction h with
  | refl => exact ha
  | tail _ hstep ih => exact hclosed _ _ ih hstep

end Worklist
