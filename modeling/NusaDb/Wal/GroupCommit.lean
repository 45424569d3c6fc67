import Mathlib.Logic.Function.Basic
import Mathlib.Tactic.Common
import NusaDb.Lib.OrdMap

/-!
# Group commit

One `fsync` serves many committers. A call of `commit` is cut at its critical sections: the check
under the lock, the flush outside it, the update of the durable mark, and the wake-up. A list of
events is an interleaving of any number of threads. A flush that succeeds returns at least every
sequence appended before it started.
-/

namespace NusaDb.GroupCommit

open List Option Function

inductive Phase where
  /-- About to take the lock and look at the durable mark. -/
  | checking
  /-- Blocked on `progress`. -/
  | waiting
  /-- Has set `syncing` and left the lock. -/
  | elected
  /-- In `flush`, which started when `start` was the highest appended sequence. -/
  | flushing (start : Nat)
  /-- `flush` has returned: the sequence it made durable, or `none` for an error. -/
  | flushed (result : Option Nat)
  /-- Has cleared `syncing` and left the lock, about to wake the followers. -/
  | notifying (ok : Bool)
  | returned (ok : Bool)
  deriving DecidableEq, Repr

/-- One call of `commit`. -/
structure Call where
  seq : Nat
  /-- The highest sequence that had been appended when the call was made. -/
  known : Nat
  phase : Phase
  deriving DecidableEq, Repr

/-- What `commit` expects of its caller: the sequence, which counts from `1`, has been appended. The
code does not check it: a leader returns `Ok` whatever its flush has made durable. -/
def Call.Appended (c : Call) : Prop := 0 < c.seq ∧ c.seq ≤ c.known

structure Sys where
  durable : Nat
  syncing : Bool
  /-- The highest sequence appended to the log. -/
  appended : Nat
  calls : Nat → Option Call
  /-- What the flushes that succeeded returned, newest first. -/
  flushes : List Nat

def init : Sys := ⟨0, false, 0, fun _ => none, []⟩

inductive Event where
  | append (seq : Nat)
  | commit (t seq : Nat)
  | check (t : Nat)
  /-- A wake-up nobody asked for. -/
  | wake (t : Nat)
  | flush (t : Nat)
  | flushed (t : Nat) (result : Option Nat)
  | update (t : Nat)
  | notify (t : Nat)
  deriving DecidableEq, Repr

namespace Sys

def setPhase (s : Sys) (t : Nat) (c : Call) (phase : Phase) : Sys :=
  { s with calls := Function.update s.calls t (some { c with phase }) }

def wakeAll (s : Sys) : Sys :=
  { s with
    calls := fun t => (s.calls t).map fun c =>
      if c.phase = .waiting then { c with phase := .checking } else c }

def Idle (s : Sys) (t : Nat) : Prop :=
  match s.calls t with
  | none => True
  | some ⟨_, _, .returned _⟩ => True
  | some _ => False

instance (s : Sys) (t : Nat) : Decidable (s.Idle t) := by
  unfold Idle
  split <;> infer_instance

def append (s : Sys) (seq : Nat) : Sys := { s with appended := max s.appended seq }

def commit (s : Sys) (t seq : Nat) : Sys :=
  if s.Idle t then
    { s with calls := Function.update s.calls t (some ⟨seq, s.appended, .checking⟩) }
  else s

/-- The loop's body under the lock: return, wait, or leave the loop as the leader. -/
def check (s : Sys) (t : Nat) : Sys :=
  match s.calls t with
  | some ⟨seq, known, .checking⟩ =>
    if seq ≤ s.durable then s.setPhase t ⟨seq, known, .checking⟩ (.returned true)
    else if !s.syncing then { s with syncing := true }.setPhase t ⟨seq, known, .checking⟩ .elected
    else s.setPhase t ⟨seq, known, .checking⟩ .waiting
  | _ => s

def wake (s : Sys) (t : Nat) : Sys :=
  match s.calls t with
  | some ⟨seq, known, .waiting⟩ => s.setPhase t ⟨seq, known, .waiting⟩ .checking
  | _ => s

def flush (s : Sys) (t : Nat) : Sys :=
  match s.calls t with
  | some ⟨seq, known, .elected⟩ => s.setPhase t ⟨seq, known, .elected⟩ (.flushing s.appended)
  | _ => s

def flushed (s : Sys) (t : Nat) (result : Option Nat) : Sys :=
  match s.calls t, result with
  | some ⟨seq, known, .flushing start⟩, none => s.setPhase t ⟨seq, known, .flushing start⟩ (.flushed none)
  | some ⟨seq, known, .flushing start⟩, some made =>
    -- what the caller promises of its flush
    if start ≤ made then
      { s with flushes := made :: s.flushes }.setPhase t ⟨seq, known, .flushing start⟩
        (.flushed (some made))
    else s
  | _, _ => s

def update (s : Sys) (t : Nat) : Sys :=
  match s.calls t with
  | some ⟨seq, known, .flushed none⟩ =>
    { s with syncing := false }.setPhase t ⟨seq, known, .flushed none⟩ (.notifying false)
  | some ⟨seq, known, .flushed (some made)⟩ =>
    { s with syncing := false, durable := max s.durable made }.setPhase t
      ⟨seq, known, .flushed (some made)⟩ (.notifying true)
  | _ => s

def notify (s : Sys) (t : Nat) : Sys :=
  match s.calls t with
  | some ⟨seq, known, .notifying ok⟩ => s.wakeAll.setPhase t ⟨seq, known, .notifying ok⟩ (.returned ok)
  | _ => s

/-- One step; an event that cannot happen leaves the system as it is. -/
def step (s : Sys) : Event → Sys
  | .append seq => s.append seq
  | .commit t seq => s.commit t seq
  | .check t => s.check t
  | .wake t => s.wake t
  | .flush t => s.flush t
  | .flushed t result => s.flushed t result
  | .update t => s.update t
  | .notify t => s.notify t

def run (s : Sys) (events : List Event) : Sys := events.foldl step s

end Sys

/-- The call has set `syncing` and has not cleared it yet. -/
def Phase.Leads : Phase → Prop
  | .elected => True
  | .flushing _ => True
  | .flushed _ => True
  | _ => False

/-- The sequence is covered by a flush that succeeded, or is the zero that is durable from the
start. -/
def Sys.Covered (s : Sys) (seq : Nat) : Prop := seq = 0 ∨ ∃ made ∈ s.flushes, seq ≤ made

/-- The sequence a call that returns `Ok` must have found durable: none if it was not appended. -/
def Call.due (c : Call) : Nat := if c.seq ≤ c.known then c.seq else 0

/-- A waiter will be woken: by the leader, or by a call that is about to notify. -/
def Sys.Awaited (s : Sys) : Prop :=
  s.syncing = true ∨ ∃ t c ok, s.calls t = some c ∧ c.phase = .notifying ok

def Phase.Ok (s : Sys) (seq : Nat) : Phase → Prop
  | .waiting => s.Awaited
  | .flushing start => seq ≤ start
  | .flushed (some made) => seq ≤ made ∧ made ∈ s.flushes
  | .notifying true => s.Covered seq
  | .returned true => s.Covered seq
  | _ => True

structure Inv (s : Sys) : Prop where
  leads : ∀ t c, s.calls t = some c → c.phase.Leads → s.syncing = true
  sole : ∀ t t' c c', s.calls t = some c → s.calls t' = some c' → c.phase.Leads →
    c'.phase.Leads → t = t'
  appended : ∀ t c, s.calls t = some c → c.due ≤ s.appended
  phase : ∀ t c, s.calls t = some c → c.phase.Ok s c.due
  /-- The durable mark is what some flush returned. -/
  durable : s.Covered s.durable
  /-- A flush the durable mark does not cover is one whose leader has not updated the mark yet. -/
  settled : ∀ made ∈ s.flushes, made ≤ s.durable ∨
    ∃ t c, s.calls t = some c ∧ c.phase = .flushed (some made)

variable {s s₁ : Sys} {t : Nat} {c : Call} {seq known : Nat} {phase : Phase}

lemma Call.due_le (c : Call) : c.due ≤ c.seq := by
  unfold due
  split
  · exact le_rfl
  · exact Nat.zero_le _

lemma Call.Appended.due_eq (hc : c.Appended) : c.due = c.seq := if_pos hc.2

lemma Sys.Covered.mono (hc : s.Covered seq) (hflushes : s.flushes ⊆ s₁.flushes) :
    s₁.Covered seq := by
  rcases hc with hzero | ⟨made, hmem, hle⟩
  · exact .inl hzero
  · exact .inr ⟨made, hflushes hmem, hle⟩

lemma Sys.Covered.of_le {seq' : Nat} (hc : s.Covered seq) (hle : seq' ≤ seq) :
    s.Covered seq' := by
  rcases hc with hzero | ⟨made, hmem, hmade⟩
  · exact .inl (by omega)
  · exact .inr ⟨made, hmem, by omega⟩

lemma Phase.Ok.mono (hok : phase.Ok s seq) (hflushes : s.flushes ⊆ s₁.flushes)
    (hawaited : phase = .waiting → s.Awaited → s₁.Awaited) : phase.Ok s₁ seq := by
  cases phase with
  | waiting => exact hawaited rfl hok
  | flushed result =>
    cases result with
    | none => trivial
    | some made => exact ⟨hok.1, hflushes hok.2⟩
  | notifying ok | returned ok =>
    cases ok with
    | false => trivial
    | true => exact Sys.Covered.mono hok hflushes
  | flushing start => exact hok
  | checking | elected => trivial

lemma Inv.init : Inv init where
  leads _ _ hc := nomatch hc
  sole _ _ _ _ hc := nomatch hc
  appended _ _ hc := nomatch hc
  phase _ _ hc := nomatch hc
  durable := .inl rfl
  settled _ hm := nomatch hm

lemma Sys.calls_setPhase_self (s : Sys) (t : Nat) (c : Call) (phase : Phase) :
    (s.setPhase t c phase).calls t = some { c with phase } :=
  update_self ..

lemma Sys.calls_setPhase_other (s : Sys) {t t' : Nat} (hne : t' ≠ t) (c : Call) (phase : Phase) :
    (s.setPhase t c phase).calls t' = s.calls t' :=
  update_of_ne hne ..

lemma Sys.calls_setPhase {t' : Nat} {c' : Call}
    (hc' : (s.setPhase t c phase).calls t' = some c') :
    (t' = t ∧ c' = { c with phase }) ∨ (t' ≠ t ∧ s.calls t' = some c') := by
  by_cases ht : t' = t
  · subst ht
    rw [calls_setPhase_self] at hc'
    exact .inl ⟨rfl, (some.inj hc').symm⟩
  · rw [calls_setPhase_other s ht] at hc'
    exact .inr ⟨ht, hc'⟩

lemma Sys.exists_setPhase (phase : Phase) {P : Call → Prop} (hc : s.calls t = some c) (hno : ¬P c)
    (hex : ∃ t' c', s.calls t' = some c' ∧ P c') :
    ∃ t' c', (s.setPhase t c phase).calls t' = some c' ∧ P c' := by
  obtain ⟨t', c', hc', hP⟩ := hex
  refine ⟨t', c', ?_, hP⟩
  have hne : t' ≠ t := by
    rintro rfl
    obtain rfl : c = c' := some.inj (hc.symm.trans hc')
    exact hno hP
  rw [calls_setPhase_other s hne]
  exact hc'

variable (hinv : Inv s)

include hinv

namespace Inv

/-- **One call moves on**, and the rest of the system changes with it. -/
theorem move (hcalls : s₁.calls = s.calls) (happ : s₁.appended = s.appended)
    (hflushes : s.flushes ⊆ s₁.flushes) (hc : s.calls t = some c)
    (hlead : phase.Leads → s₁.syncing = true ∧
      ∀ t' c', s.calls t' = some c' → c'.phase.Leads → t' = t)
    (hother : ∀ t' c', t' ≠ t → s.calls t' = some c' → c'.phase.Leads → s₁.syncing = true)
    (hawaited : ∀ t' c', s.calls t' = some c' → c'.phase = .waiting → s.Awaited →
      (s₁.setPhase t c phase).Awaited) (hphase : phase.Ok (s₁.setPhase t c phase) c.due)
    (hdurable : s₁.Covered s₁.durable) (hsettled : ∀ made ∈ s₁.flushes, made ≤ s₁.durable ∨
      ∃ t' c', (s₁.setPhase t c phase).calls t' = some c' ∧ c'.phase = .flushed (some made)) :
    Inv (s₁.setPhase t c phase) where
  leads t' c' hc' hl := by
    rcases Sys.calls_setPhase hc' with ⟨rfl, rfl⟩ | ⟨hne, hold⟩
    · exact (hlead hl).1
    · exact hother t' c' hne (hcalls ▸ hold) hl
  sole t1 t2 c1 c2 hc1 hc2 hl1 hl2 := by
    rcases Sys.calls_setPhase hc1 with ⟨rfl, rfl⟩ | ⟨-, hold1⟩
    · rcases Sys.calls_setPhase hc2 with ⟨rfl, -⟩ | ⟨-, hold2⟩
      · rfl
      · exact ((hlead hl1).2 t2 c2 (hcalls ▸ hold2) hl2).symm
    · rcases Sys.calls_setPhase hc2 with ⟨rfl, rfl⟩ | ⟨-, hold2⟩
      · exact (hlead hl2).2 t1 c1 (hcalls ▸ hold1) hl1
      · exact hinv.sole t1 t2 c1 c2 (hcalls ▸ hold1) (hcalls ▸ hold2) hl1 hl2
  appended t' c' hc' := by
    show c'.due ≤ s₁.appended
    rw [happ]
    rcases Sys.calls_setPhase hc' with ⟨rfl, rfl⟩ | ⟨-, hold⟩
    · exact hinv.appended t' c hc
    · exact hinv.appended t' c' (hcalls ▸ hold)
  phase t' c' hc' := by
    rcases Sys.calls_setPhase hc' with ⟨rfl, rfl⟩ | ⟨-, hold⟩
    · exact hphase
    · exact (hinv.phase t' c' (hcalls ▸ hold)).mono hflushes (hawaited t' c' (hcalls ▸ hold))
  durable := hdurable
  settled := hsettled

lemma moveFollower (hc : s.calls t = some c) (hno : ∀ ok, c.phase ≠ .notifying ok)
    (hno' : ∀ made, c.phase ≠ .flushed (some made)) (hlead : phase.Leads → c.phase.Leads)
    (hphase : phase.Ok (s.setPhase t c phase) c.due) : Inv (s.setPhase t c phase) := by
  refine hinv.move rfl rfl (fun _ h => h) hc ?_ ?_ ?_ hphase hinv.durable ?_
  · intro hl
    refine ⟨hinv.leads t c hc (hlead hl), fun t' c' hc' hl' => ?_⟩
    exact hinv.sole t' t c' c hc' hc hl' (hlead hl)
  · intro t' c' _ hc' hl
    exact hinv.leads t' c' hc' hl
  · intro _ _ _ _ haw
    rcases haw with hsync | ⟨t', c', ok, hc', hn⟩
    · exact .inl hsync
    obtain ⟨t'', c'', hc'', hn'⟩ := Sys.exists_setPhase phase
      (P := fun c => c.phase = .notifying ok) hc (hno ok) ⟨t', c', hc', hn⟩
    exact .inr ⟨t'', c'', ok, hc'', hn'⟩
  · intro made hmade
    rcases hinv.settled made hmade with hle | hex
    · exact .inl hle
    · exact .inr (Sys.exists_setPhase phase (P := fun c => c.phase = .flushed (some made)) hc
        (hno' made) hex)

/-! ## The steps -/

lemma append (seq : Nat) : Inv (s.append seq) where
  leads := hinv.leads
  sole := hinv.sole
  appended t c hc := le_trans (hinv.appended t c hc) (le_max_left ..)
  phase t c hc := (hinv.phase t c hc).mono (fun _ h => h) fun _ h => h
  durable := hinv.durable
  settled := hinv.settled

lemma commit (t seq : Nat) : Inv (s.commit t seq) := by
  unfold Sys.commit
  split
  case isFalse => exact hinv
  case isTrue hidle =>
    -- an idle thread has no call that leads, notifies or is yet to update the mark
    have hreturned : ∀ c, s.calls t = some c → ∃ ok, c.phase = .returned ok := by
      intro c hc
      unfold Sys.Idle at hidle
      rw [hc] at hidle
      obtain ⟨q, n, phase⟩ := c
      cases phase with
      | returned ok => exact ⟨ok, rfl⟩
      | _ => exact hidle.elim
    have hcalls : ∀ t' c', update s.calls t (some ⟨seq, s.appended, .checking⟩) t' = some c' →
        (t' = t ∧ c' = ⟨seq, s.appended, .checking⟩) ∨ s.calls t' = some c' := by
      intro t' c' hc'
      rcases update_eq_some hc' with ⟨rfl, hnew⟩ | ⟨ht, hc'⟩
      · exact .inl ⟨rfl, (some.inj hnew).symm⟩
      · exact .inr hc'
    have hkept : ∀ t' c', s.calls t' = some c' → (∀ ok, c'.phase ≠ .returned ok) →
        update s.calls t (some ⟨seq, s.appended, .checking⟩) t' = some c' := by
      intro t' c' hc' hno
      have hne : t' ≠ t := by
        rintro rfl
        obtain ⟨ok, hok⟩ := hreturned c' hc'
        exact hno ok hok
      rw [update_of_ne hne]
      exact hc'
    refine ⟨?_, ?_, ?_, ?_, hinv.durable, ?_⟩
    · intro t' c' hc' hl
      rcases hcalls t' c' hc' with ⟨-, rfl⟩ | hold
      · exact hl.elim
      · exact hinv.leads t' c' hold hl
    · intro t1 t2 c1 c2 hc1 hc2 hl1 hl2
      rcases hcalls t1 c1 hc1 with ⟨-, rfl⟩ | hold1
      · exact hl1.elim
      rcases hcalls t2 c2 hc2 with ⟨-, rfl⟩ | hold2
      · exact hl2.elim
      exact hinv.sole t1 t2 c1 c2 hold1 hold2 hl1 hl2
    · intro t' c' hc'
      rcases hcalls t' c' hc' with ⟨-, rfl⟩ | hold
      · -- what was appended when the call was made
        show (if seq ≤ s.appended then seq else 0) ≤ s.appended
        split
        · assumption
        · exact Nat.zero_le _
      · exact hinv.appended t' c' hold
    · intro t' c' hc'
      rcases hcalls t' c' hc' with ⟨-, rfl⟩ | hold
      · trivial
      refine (hinv.phase t' c' hold).mono (fun _ h => h) fun _ haw => ?_
      rcases haw with hsync | ⟨t'', c'', ok, hc'', hn⟩
      · exact .inl hsync
      refine .inr ⟨t'', c'', ok, hkept t'' c'' hc'' ?_, hn⟩
      rw [hn]
      exact fun _ => nofun
    · intro made hmade
      rcases hinv.settled made hmade with hle | ⟨t', c', hc', hf⟩
      · exact .inl hle
      refine .inr ⟨t', c', hkept t' c' hc' ?_, hf⟩
      rw [hf]
      exact fun _ => nofun

lemma check (t : Nat) : Inv (s.check t) := by
  unfold Sys.check
  split
  case h_2 => exact hinv
  case h_1 seq known hc =>
    split
    case isTrue hle =>
      exact hinv.moveFollower hc nofun nofun nofun (hinv.durable.of_le ((Call.due_le _).trans hle))
    case isFalse =>
      split
      case isTrue hsync =>
        have hidle : s.syncing = false := by simpa using hsync
        have hnone : ∀ t' c', s.calls t' = some c' → ¬c'.phase.Leads := by
          intro t' c' hc' hl
          have htrue := hinv.leads t' c' hc' hl
          rw [hidle] at htrue
          cases htrue
        refine hinv.move rfl rfl (fun _ h => h) hc ?_ ?_ ?_ trivial hinv.durable ?_
        · intro _
          exact ⟨rfl, fun t' c' hc' hl => absurd hl (hnone t' c' hc')⟩
        · intro t' c' _ hc' hl
          exact absurd hl (hnone t' c' hc')
        · exact fun _ _ _ _ _ => .inl rfl
        · intro made hmade
          rcases hinv.settled made hmade with hle | ⟨t', c', hc', hf⟩
          · exact .inl hle
          refine absurd ?_ (hnone t' c' hc')
          rw [hf]
          trivial
      case isFalse hsync =>
        have htrue : s.syncing = true := by simpa using hsync
        exact hinv.moveFollower hc nofun nofun nofun (.inl htrue)

lemma wake (t : Nat) : Inv (s.wake t) := by
  unfold Sys.wake
  split
  case h_2 => exact hinv
  case h_1 seq known hc => exact hinv.moveFollower hc nofun nofun nofun trivial

lemma flush (t : Nat) : Inv (s.flush t) := by
  unfold Sys.flush
  split
  case h_2 => exact hinv
  case h_1 seq known hc =>
    exact hinv.moveFollower hc nofun nofun (fun _ => trivial) (hinv.appended t _ hc)

lemma flushed (t : Nat) (result : Option Nat) : Inv (s.flushed t result) := by
  unfold Sys.flushed
  split
  case h_3 => exact hinv
  case h_1 seq known start hc => exact hinv.moveFollower hc nofun nofun (fun _ => trivial) trivial
  case h_2 seq known start made hc =>
    split
    case isFalse => exact hinv
    case isTrue hmade =>
      have hstart : Call.due ⟨seq, known, .flushing start⟩ ≤ start := hinv.phase t _ hc
      have hl : (⟨seq, known, .flushing start⟩ : Call).phase.Leads := trivial
      refine hinv.move rfl rfl (fun _ h => mem_cons_of_mem _ h) hc ?_ ?_ ?_ ?_ ?_ ?_
      · intro _
        exact ⟨hinv.leads t _ hc hl, fun t' c' hc' hl' => hinv.sole t' t c' _ hc' hc hl' hl⟩
      · intro t' c' _ hc' hl'
        exact hinv.leads t' c' hc' hl'
      · exact fun _ _ _ _ _ => .inl (hinv.leads t _ hc hl)
      · exact ⟨hstart.trans hmade, mem_cons_self⟩
      · exact hinv.durable.mono fun _ h => mem_cons_of_mem _ h
      · intro made' hmem
        rcases mem_cons.mp hmem with rfl | hold
        · exact .inr ⟨t, _, Sys.calls_setPhase_self .., rfl⟩
        rcases hinv.settled made' hold with hle | hex
        · exact .inl hle
        · exact .inr (Sys.exists_setPhase (.flushed (some made))
            (P := fun c => c.phase = .flushed (some made')) hc nofun hex)

lemma updated {result : Option Nat} (hc : s.calls t = some ⟨seq, known, .flushed result⟩) :
    Inv ({ s with syncing := false, durable := max s.durable (result.getD 0) }.setPhase t
      ⟨seq, known, .flushed result⟩ (.notifying result.isSome)) := by
  have hl : (⟨seq, known, .flushed result⟩ : Call).phase.Leads := trivial
  refine hinv.move rfl rfl (fun _ h => h) hc nofun ?_ ?_ ?_ ?_ ?_
  · intro t' c' hne hc' hl'
    exact absurd (hinv.sole t' t c' _ hc' hc hl' hl) hne
  · exact fun _ _ _ _ _ => .inr ⟨t, _, _, Sys.calls_setPhase_self .., rfl⟩
  · cases result with
    | none => trivial
    | some made =>
      obtain ⟨hle, hmem⟩ := hinv.phase t _ hc
      exact .inr ⟨made, hmem, hle⟩
  · show Sys.Covered _ (max s.durable (result.getD 0))
    rcases le_total s.durable (result.getD 0) with hle | hle
    · rw [Nat.max_eq_right hle]
      cases result with
      | none => exact .inl rfl
      | some made => exact .inr ⟨made, (hinv.phase t _ hc).2, le_rfl⟩
    · rw [Nat.max_eq_left hle]
      exact hinv.durable
  · intro made hmade
    refine .inl ?_
    show made ≤ max s.durable (result.getD 0)
    rcases hinv.settled made hmade with hle | ⟨t', c', hc', hf⟩
    · exact le_trans hle (le_max_left ..)
    -- the flush in question is the leader's own
    have hl' : c'.phase.Leads := by
      rw [hf]
      trivial
    obtain rfl : t' = t := hinv.sole t' t c' _ hc' hc hl' hl
    obtain rfl : _ = c' := some.inj (hc.symm.trans hc')
    cases hf
    exact le_max_right ..

lemma update (t : Nat) : Inv (s.update t) := by
  unfold Sys.update
  split
  case h_3 => exact hinv
  case h_1 seq known hc =>
    have hnext := hinv.updated hc
    rw [getD_none, Nat.max_eq_left (Nat.zero_le _)] at hnext
    exact hnext
  case h_2 seq known made hc => exact hinv.updated hc

lemma wakeAll : Inv s.wakeAll := by
  have hcalls : ∀ t c, s.wakeAll.calls t = some c → ∃ c0, s.calls t = some c0 ∧
      c.due = c0.due ∧ (c.phase = .checking ∨ (c.phase = c0.phase ∧ c.phase ≠ .waiting)) := by
    intro t c hc
    obtain ⟨c0, hc0, rfl⟩ := map_eq_some_iff.mp hc
    refine ⟨c0, hc0, ?_⟩
    split
    case isTrue => exact ⟨rfl, .inl rfl⟩
    case isFalse hno => exact ⟨rfl, .inr ⟨rfl, hno⟩⟩
  have hkept : ∀ t c, s.calls t = some c → c.phase ≠ .waiting → s.wakeAll.calls t = some c := by
    intro t c hc hno
    show (s.calls t).map _ = some c
    rw [hc, map_some, if_neg hno]
  have hlead : ∀ t c, s.wakeAll.calls t = some c → c.phase.Leads →
      ∃ c0, s.calls t = some c0 ∧ c0.phase.Leads := by
    intro t c hc hl
    obtain ⟨c0, hc0, -, hcheck | ⟨hsame, -⟩⟩ := hcalls t c hc
    · rw [hcheck] at hl
      exact hl.elim
    · exact ⟨c0, hc0, hsame ▸ hl⟩
  refine ⟨?_, ?_, ?_, ?_, hinv.durable, ?_⟩
  · intro t c hc hl
    obtain ⟨c0, hc0, hl0⟩ := hlead t c hc hl
    exact hinv.leads t c0 hc0 hl0
  · intro t t' c c' hc hc' hl hl'
    obtain ⟨c0, hc0, hl0⟩ := hlead t c hc hl
    obtain ⟨c1, hc1, hl1⟩ := hlead t' c' hc' hl'
    exact hinv.sole t t' c0 c1 hc0 hc1 hl0 hl1
  · intro t c hc
    obtain ⟨c0, hc0, hseq, -⟩ := hcalls t c hc
    rw [hseq]
    exact hinv.appended t c0 hc0
  · intro t c hc
    obtain ⟨c0, hc0, hseq, hcheck | ⟨hsame, -⟩⟩ := hcalls t c hc
    · rw [hcheck]
      trivial
    rw [hsame, hseq]
    refine (hinv.phase t c0 hc0).mono (fun _ h => h) fun _ haw => ?_
    rcases haw with hsync | ⟨t', c', ok, hc', hn⟩
    · exact .inl hsync
    · exact .inr ⟨t', c', ok, hkept t' c' hc' (by rw [hn]; exact nofun), hn⟩
  · intro made hmade
    rcases hinv.settled made hmade with hle | ⟨t', c', hc', hf⟩
    · exact .inl hle
    · exact .inr ⟨t', c', hkept t' c' hc' (by rw [hf]; exact nofun), hf⟩

end Inv

omit hinv

lemma Sys.not_waiting_wakeAll (s : Sys) (t : Nat) (c : Call) (hc : s.wakeAll.calls t = some c) :
    c.phase ≠ .waiting := by
  obtain ⟨c0, -, rfl⟩ := map_eq_some_iff.mp hc
  split
  case isTrue => exact nofun
  case isFalse hno => exact hno

lemma Inv.notify (hinv : Inv s) (t : Nat) : Inv (s.notify t) := by
  unfold Sys.notify
  split
  case h_2 => exact hinv
  case h_1 seq known ok hc =>
    have hwoken := hinv.wakeAll
    have hc' : s.wakeAll.calls t = some ⟨seq, known, .notifying ok⟩ := by
      show (s.calls t).map _ = _
      rw [hc]
      rfl
    refine hwoken.move rfl rfl (fun _ h => h) hc' nofun ?_ ?_ ?_ hwoken.durable ?_
    · intro t' c' _ hold hl
      exact hwoken.leads t' c' hold hl
    · -- nobody is waiting, so nobody relies on this wake-up any more
      intro t' c' hold hwaiting
      exact absurd hwaiting (s.not_waiting_wakeAll t' c' hold)
    · have hok := hwoken.phase t _ hc'
      cases ok with
      | false => trivial
      | true => exact hok
    · intro made hmade
      rcases hwoken.settled made hmade with hle | hex
      · exact .inl hle
      · exact .inr (Sys.exists_setPhase (.returned ok)
          (P := fun c => c.phase = .flushed (some made)) hc' nofun hex)

lemma Inv.step (hinv : Inv s) (ev : Event) : Inv (s.step ev) := by
  cases ev with
  | append seq => exact hinv.append seq
  | commit t seq => exact hinv.commit t seq
  | check t => exact hinv.check t
  | wake t => exact hinv.wake t
  | flush t => exact hinv.flush t
  | flushed t result => exact hinv.flushed t result
  | update t => exact hinv.update t
  | notify t => exact hinv.notify t

lemma Inv.run (hinv : Inv s) (events : List Event) : Inv (s.run events) := by
  induction events generalizing s with
  | nil => exact hinv
  | cons ev events ih => exact ih (hinv.step ev)

/-! ## What a run keeps -/

structure Sys.Extends (s s₁ : Sys) : Prop where
  flushes : s.flushes <:+ s₁.flushes
  durable : s.durable ≤ s₁.durable

lemma Sys.Extends.refl (s : Sys) : s.Extends s := ⟨suffix_rfl, le_rfl⟩

/-- Flushes are never taken back, and the durable mark only grows. -/
lemma Sys.step_extends (s : Sys) (ev : Event) : s.Extends (s.step ev) := by
  cases ev with
  | append seq => exact ⟨suffix_rfl, le_rfl⟩
  | commit t seq =>
    show s.Extends (s.commit t seq)
    unfold Sys.commit
    split <;> exact ⟨suffix_rfl, le_rfl⟩
  | check t =>
    show s.Extends (s.check t)
    unfold Sys.check
    split
    · split
      · exact ⟨suffix_rfl, le_rfl⟩
      · split <;> exact ⟨suffix_rfl, le_rfl⟩
    · exact .refl s
  | wake t =>
    show s.Extends (s.wake t)
    unfold Sys.wake
    split <;> exact ⟨suffix_rfl, le_rfl⟩
  | flush t =>
    show s.Extends (s.flush t)
    unfold Sys.flush
    split <;> exact ⟨suffix_rfl, le_rfl⟩
  | flushed t result =>
    show s.Extends (s.flushed t result)
    unfold Sys.flushed
    split
    · exact ⟨suffix_rfl, le_rfl⟩
    · split
      · exact ⟨suffix_cons .., le_rfl⟩
      · exact .refl s
    · exact .refl s
  | update t =>
    show s.Extends (s.update t)
    unfold Sys.update
    split
    · exact ⟨suffix_rfl, le_rfl⟩
    · exact ⟨suffix_rfl, le_max_left ..⟩
    · exact .refl s
  | notify t =>
    show s.Extends (s.notify t)
    unfold Sys.notify
    split <;> exact ⟨suffix_rfl, le_rfl⟩

lemma Sys.run_extends (s : Sys) (events : List Event) : s.Extends (s.run events) := by
  induction events generalizing s with
  | nil => exact .refl s
  | cons ev events ih =>
    have hfirst := s.step_extends ev
    have hrest := ih (s.step ev)
    exact ⟨hfirst.flushes.trans hrest.flushes, le_trans hfirst.durable hrest.durable⟩

/-- What the call of thread `t` was made with: its sequence, and what had been appended. -/
def Sys.madeWith (s : Sys) (t : Nat) : Option (Nat × Nat) :=
  (s.calls t).map fun c => (c.seq, c.known)

lemma Sys.madeWith_setPhase (hcalls : s₁.calls = s.calls) (hc : s.calls t = some c) (phase : Phase)
    (t' : Nat) : (s₁.setPhase t c phase).madeWith t' = s.madeWith t' := by
  unfold Sys.madeWith
  by_cases ht : t' = t
  · subst ht
    rw [Sys.calls_setPhase_self, hc]
    rfl
  · rw [Sys.calls_setPhase_other _ ht, hcalls]

lemma Sys.madeWith_wakeAll (s : Sys) (t : Nat) : s.wakeAll.madeWith t = s.madeWith t := by
  unfold Sys.madeWith Sys.wakeAll
  rw [Option.map_map]
  congr 1
  funext c
  show (fun c : Call => (c.seq, c.known))
    (if c.phase = .waiting then { c with phase := .checking } else c) = (c.seq, c.known)
  split <;> rfl

/-- Only a new commit of `t` changes what its call was made with. -/
lemma Sys.madeWith_step (s : Sys) (ev : Event) (t : Nat) (hev : ∀ seq, ev ≠ .commit t seq) :
    (s.step ev).madeWith t = s.madeWith t := by
  cases ev with
  | append seq => rfl
  | commit t' seq =>
    show (s.commit t' seq).madeWith t = s.madeWith t
    have hne : t ≠ t' := fun h => hev seq (h ▸ rfl)
    unfold Sys.commit Sys.madeWith
    split
    · dsimp only
      rw [update_of_ne hne]
    · rfl
  | check t' =>
    show (s.check t').madeWith t = s.madeWith t
    unfold Sys.check
    split
    case h_2 => rfl
    case h_1 seq known hc =>
      split
      · exact madeWith_setPhase rfl hc _ t
      split
      · exact madeWith_setPhase rfl hc _ t
      · exact madeWith_setPhase rfl hc _ t
  | wake t' =>
    show (s.wake t').madeWith t = s.madeWith t
    unfold Sys.wake
    split
    case h_2 => rfl
    case h_1 seq known hc => exact madeWith_setPhase rfl hc _ t
  | flush t' =>
    show (s.flush t').madeWith t = s.madeWith t
    unfold Sys.flush
    split
    case h_2 => rfl
    case h_1 seq known hc => exact madeWith_setPhase rfl hc _ t
  | flushed t' result =>
    show (s.flushed t' result).madeWith t = s.madeWith t
    unfold Sys.flushed
    split
    case h_3 => rfl
    case h_1 seq known start hc => exact madeWith_setPhase rfl hc _ t
    case h_2 seq known start made hc =>
      split
      · exact madeWith_setPhase rfl hc _ t
      · rfl
  | update t' =>
    show (s.update t').madeWith t = s.madeWith t
    unfold Sys.update
    split
    case h_3 => rfl
    case h_1 seq known hc => exact madeWith_setPhase rfl hc _ t
    case h_2 seq known made hc => exact madeWith_setPhase rfl hc _ t
  | notify t' =>
    show (s.notify t').madeWith t = s.madeWith t
    unfold Sys.notify
    split
    case h_2 => rfl
    case h_1 seq known ok hc =>
      have hc' : s.wakeAll.calls t' = some ⟨seq, known, .notifying ok⟩ := by
        show (s.calls t').map _ = _
        rw [hc]
        rfl
      rw [madeWith_setPhase rfl hc']
      exact s.madeWith_wakeAll t

lemma Sys.madeWith_run (s : Sys) (events : List Event) (t : Nat)
    (hevents : ∀ seq, Event.commit t seq ∉ events) : (s.run events).madeWith t = s.madeWith t := by
  induction events generalizing s with
  | nil => rfl
  | cons ev events ih =>
    have hrest : ∀ seq, Event.commit t seq ∉ events :=
      fun seq h => hevents seq (mem_cons_of_mem _ h)
    have hfirst : ∀ seq, ev ≠ .commit t seq := fun seq h => hevents seq (h ▸ mem_cons_self)
    exact (ih (s.step ev) hrest).trans (s.madeWith_step ev t hfirst)

/-- What a reachable state `s` and the events after it guarantee. -/
structure Guarantee (s : Sys) (later : List Event) : Prop where
  /-- A call for an appended sequence returns `Ok` only after a flush that succeeded and covers
  it. -/
  covered : ∀ t c, s.calls t = some c → c.phase = .returned true → c.Appended →
    ∃ made ∈ s.flushes, c.seq ≤ made
  /-- At most one flush runs. -/
  sole : ∀ t t' c c' start start', s.calls t = some c → s.calls t' = some c' →
    c.phase = .flushing start → c'.phase = .flushing start' → t = t'
  durable : s.durable ≤ (s.run later).durable
  /-- After a failed flush, a call the durable mark does not cover returns `Ok` only after a later
  successful flush that covers it. -/
  failed : ∀ leader seq known, s.calls leader = some ⟨seq, known, .flushed none⟩ →
    ∀ t c, s.calls t = some c → c.Appended → s.durable < c.seq → (∀ q, Event.commit t q ∉ later) →
      ∀ c', (s.run later).calls t = some c' → c'.phase = .returned true →
        ∃ new, (s.run later).flushes = new ++ s.flushes ∧ ∃ made ∈ new, c.seq ≤ made
  /-- And it cannot sleep through: whoever waits has a leader, or a call about to wake it. -/
  awaited : ∀ t c, s.calls t = some c → c.phase = .waiting → s.Awaited

lemma Inv.covered (hinv : Inv s) (hc : s.calls t = some c) (hret : c.phase = .returned true)
    (happ : c.Appended) : ∃ made ∈ s.flushes, c.seq ≤ made := by
  have hok := hinv.phase t c hc
  rw [hret, happ.due_eq] at hok
  rcases hok with hzero | hex
  · exact absurd hzero happ.1.ne'
  · exact hex

lemma Inv.settled_of_failed (hinv : Inv s) {leader seq : Nat}
    (hl : s.calls leader = some ⟨seq, known, .flushed none⟩) : ∀ made ∈ s.flushes, made ≤ s.durable := by
  intro made hmade
  rcases hinv.settled made hmade with hle | ⟨t', c', hc', hf⟩
  · exact hle
  have hleads : c'.phase.Leads := by
    rw [hf]
    trivial
  obtain rfl : t' = leader := hinv.sole t' leader c' _ hc' hl hleads trivial
  obtain rfl : _ = c' := some.inj (hl.symm.trans hc')
  cases hf

/-- **Group commit is durable**: every interleaving of any number of committers keeps the
guarantee. -/
theorem commit_durable (before later : List Event) : Guarantee (init.run before) later := by
  have hinv := Inv.init.run before
  generalize init.run before = s at hinv
  refine ⟨fun t c hc hret happ => hinv.covered hc hret happ, ?_, (s.run_extends later).durable, ?_, ?_⟩
  · intro t t' c c' start start' hc hc' hf hf'
    refine hinv.sole t t' c c' hc hc' ?_ ?_
    · rw [hf]
      trivial
    · rw [hf']
      trivial
  · intro leader seq known hl t c hc happ hlt hno c' hc' hret
    -- the call is still the same one, so the flush that covers it covers `c`
    have hmade := s.madeWith_run later t hno
    unfold Sys.madeWith at hmade
    rw [hc', hc] at hmade
    obtain ⟨hseq, hknown⟩ := Prod.mk.inj (Option.some.inj hmade)
    have happ' : c'.Appended := by
      unfold Call.Appended
      rw [hseq, hknown]
      exact happ
    obtain ⟨made, hmem, hle⟩ := (hinv.run later).covered hc' hret happ'
    rw [hseq] at hle
    obtain ⟨new, hnew⟩ := (s.run_extends later).flushes
    refine ⟨new, hnew.symm, made, ?_, hle⟩
    -- an earlier flush does not cover the call
    rw [← hnew] at hmem
    rcases mem_append.mp hmem with hin | hold
    · exact hin
    · have hsettled := hinv.settled_of_failed hl made hold
      omega
  · intro t c hc hwaiting
    have hok := hinv.phase t c hc
    rw [hwaiting] at hok
    exact hok

/-- Without the caller's promise it is not: the leader of a flush that made `3` durable returns `Ok`
for the sequence `5`, and a call for `0`, which is durable from the start, returns without a flush. -/
theorem commit_unappended_returns :
    (let s := init.run [.append 3, .commit 0 5, .check 0, .flush 0, .flushed 0 (some 3), .update 0,
        .notify 0]
     s.calls 0 = some ⟨5, 3, .returned true⟩ ∧ s.flushes = [3]) ∧
    (let s := init.run [.commit 0 0, .check 0]
     s.calls 0 = some ⟨0, 0, .returned true⟩ ∧ s.flushes = []) := by
  decide

end NusaDb.GroupCommit
