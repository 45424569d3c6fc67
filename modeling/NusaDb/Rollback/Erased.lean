import NusaDb.Btree.KeySteps

/-!
# Histories without undone calls

`Engine.historyBut` is the history in which the calls a transaction made since a point were never
made. Until the return to the point the two differ only in that transaction's log, which runs ahead
(`OpenTxn.Ahead`).
-/

namespace NusaDb

open List History OpenTxn

def Op.writer : Op → Option TxnId
  | .insert txn _ _ => some txn
  | .insertBatch txn _ _ => some txn
  | .update txn _ _ _ => some txn
  | .delete txn _ _ => some txn
  | .indexInsert txn _ _ _ => some txn
  | .indexInsertBatch txn _ _ => some txn
  | .indexDelete txn _ _ _ => some txn
  | _ => none

/-- The histories that a run from `e` adds to `hk` without the calls that `skip` picks; the others
are recorded with the outcome they had. -/
def Engine.historyBut (skip : Op → Bool) : Engine → History × History → List Op → History × History
  | _, hk, [] => hk
  | e, hk, op :: ops =>
    (e.step op).1.historyBut skip
      (if skip op then hk else (hk.1.record (op, (e.step op).2), hk.2.recordKeys e op)) ops

def Op.writtenBy (txn : TxnId) (op : Op) : Bool := decide (op.writer = some txn)

/-- What a transaction can go back to: its start, or a savepoint. -/
inductive Point where
  | start
  | savepoint (name : String)

namespace Point

def SetBy (point : Point) (txn : TxnId) (op : Op) (out : Outcome) : Prop :=
  match point with
  | .start => (∃ level, op = .begin level) ∧ out = .ok (.txn txn)
  | .savepoint name => op = .savepoint txn name ∧ out.isOk = true

def undo (point : Point) (txn : TxnId) : Op :=
  match point with
  | .start => .rollback txn
  | .savepoint name => .rollbackTo txn name

/-- The call sets a savepoint of the same name, which takes the place of the point. -/
def ResetBy (point : Point) (txn : TxnId) (op : Op) : Prop :=
  match point with
  | .start => False
  | .savepoint name => op = .savepoint txn name

end Point

/-- Savepoints with `name` in both, set after `m` writes, and the same older ones. The newer ones
count `m` writes in the second list, and as many or more in the first. -/
inductive AheadMarks (name : String) (m : Nat) (older : List (String × Nat)) :
    List (String × Nat) → List (String × Nat) → Prop
  | here : AheadMarks name m older ((name, m) :: older) ((name, m) :: older)
  | newer {n : String} {c : Nat} {marks marks' : List (String × Nat)} (hne : n ≠ name) (hc : m ≤ c)
      (hrest : AheadMarks name m older marks marks') :
      AheadMarks name m older ((n, c) :: marks) ((n, m) :: marks')

/-- The log `o` has gone on since the savepoint `name`, and `o'` has not. -/
structure OpenTxn.Ahead (name : String) (o o' : OpenTxn) : Prop where
  level : o'.level = o.level
  snap : o'.snap = o.snap
  writes : ∃ extra, o.writes = extra ++ o'.writes
  marks : ∃ older, name ∉ older.map Prod.fst ∧
    AheadMarks name o'.writes.length older o.marks o'.marks

namespace Point

/-- How a transaction's log stands to the log without its calls since the point. One that rolls back
leaves nothing in either. -/
def Ahead (point : Point) (o o' : OpenTxn) : Prop :=
  match point with
  | .start => True
  | .savepoint name => OpenTxn.Ahead name o o'

def Gone (point : Point) (o : OpenTxn) : Prop :=
  match point with
  | .start => False
  | .savepoint name => name ∉ o.marks.map Prod.fst

end Point

/-! ## One log -/

section

variable {name : String} {m : Nat} {older marks marks' : List (String × Nat)} {o o' : OpenTxn}

section

variable (ha : AheadMarks name m older marks marks')

include ha

lemma AheadMarks.filter {name' : String} (hne : name' ≠ name) :
    AheadMarks name m (older.filter (·.1 ≠ name')) (marks.filter (·.1 ≠ name'))
      (marks'.filter (·.1 ≠ name')) := by
  induction ha with
  | here =>
    rw [filter_cons_of_pos (by simp [Ne.symm hne])]
    exact .here
  | @newer n c marks marks' hn hc _ ih =>
    by_cases heq : n = name'
    · rw [filter_cons_of_neg (by simp [heq]), filter_cons_of_neg (by simp [heq])]
      exact ih
    · rw [filter_cons_of_pos (by simp [heq]), filter_cons_of_pos (by simp [heq])]
      exact .newer hn hc ih

lemma AheadMarks.dropWhile (name' : String) :
    AheadMarks name m older (marks.dropWhile (·.1 ≠ name')) (marks'.dropWhile (·.1 ≠ name')) ∨
      marks'.dropWhile (·.1 ≠ name') = marks.dropWhile (·.1 ≠ name') ∧
      (marks.dropWhile (·.1 ≠ name')).Sublist older := by
  induction ha with
  | here =>
    by_cases heq : name = name'
    · rw [dropWhile_cons_of_neg (by simp [heq])]
      exact .inl .here
    · rw [dropWhile_cons_of_pos (by simp [heq])]
      exact .inr ⟨rfl, dropWhile_sublist _⟩
  | @newer n c marks marks' hn hc hrest ih =>
    by_cases heq : n = name'
    · rw [dropWhile_cons_of_neg (by simp [heq]), dropWhile_cons_of_neg (by simp [heq])]
      exact .inl (.newer hn hc hrest)
    · rw [dropWhile_cons_of_pos (by simp [heq]), dropWhile_cons_of_pos (by simp [heq])]
      exact ih

lemma AheadMarks.dropWhile_self :
    marks.dropWhile (·.1 ≠ name) = (name, m) :: older ∧ marks'.dropWhile (·.1 ≠ name) = (name, m) ::
      older := by
  induction ha with
  | here =>
    rw [dropWhile_cons_of_neg (by simp)]
    exact ⟨rfl, rfl⟩
  | @newer n c marks marks' hn hc hrest ih =>
    rw [dropWhile_cons_of_pos (by simp [hn]), dropWhile_cons_of_pos (by simp [hn])]
    exact ih

end

lemma not_mem_names_of_sublist (holder : name ∉ older.map Prod.fst) (hsub : marks.Sublist older) :
    name ∉ marks.map Prod.fst :=
  fun hmem => holder ((hsub.map Prod.fst).subset hmem)

lemma drop_ahead {α : Type} {all extra kept : List α} (hall : all = extra ++ kept) {c : Nat}
    (hc : kept.length ≤ c) : ∃ extra', all.drop (all.length - c) = extra' ++ kept := by
  refine ⟨extra.drop (all.length - c), ?_⟩
  have hle : all.length - c ≤ extra.length := by
    rw [hall, length_append]
    omega
  rw [hall, drop_append_of_le_length (by rwa [← hall])]

lemma drop_ahead_self {α : Type} {all extra kept : List α} (hall : all = extra ++ kept) :
    all.drop (all.length - kept.length) = kept := by
  rw [hall, length_append, Nat.add_sub_cancel, drop_left]

variable (ha : OpenTxn.Ahead name o o')

include ha

lemma OpenTxn.Ahead.write (w : Write) :
    Ahead name { o with writes := w :: o.writes } o' := by
  obtain ⟨extra, hextra⟩ := ha.writes
  exact ⟨ha.level, ha.snap, ⟨w :: extra, congrArg (w :: ·) hextra⟩, ha.marks⟩

lemma OpenTxn.Ahead.mark {name' : String} (hne : name' ≠ name) :
    Ahead name
      { o with marks := (name', o.writes.length) :: o.marks.filter (·.1 ≠ name') }
      { o' with marks := (name', o'.writes.length) :: o'.marks.filter (·.1 ≠ name') } := by
  obtain ⟨extra, hextra⟩ := ha.writes
  obtain ⟨older, holder, hmarks⟩ := ha.marks
  refine ⟨ha.level, ha.snap, ⟨extra, hextra⟩, older.filter (·.1 ≠ name'),
    not_mem_names_of_sublist holder filter_sublist, .newer hne ?_ (hmarks.filter hne)⟩
  show o'.writes.length ≤ o.writes.length
  rw [hextra, length_append]
  omega

lemma OpenTxn.Ahead.release (name' : String) :
    Ahead name { o with marks := (o.marks.dropWhile (·.1 ≠ name')).tail }
        { o' with marks := (o'.marks.dropWhile (·.1 ≠ name')).tail } ∨
      name ∉ (o.marks.dropWhile (·.1 ≠ name')).tail.map Prod.fst := by
  obtain ⟨older, holder, hmarks⟩ := ha.marks
  rcases hmarks.dropWhile name' with hd | ⟨-, hsub⟩
  · generalize o.marks.dropWhile (·.1 ≠ name') = d at hd ⊢
    generalize o'.marks.dropWhile (·.1 ≠ name') = d' at hd ⊢
    cases hd with
    | here => exact .inr holder
    | newer _ _ hrest => exact .inl ⟨ha.level, ha.snap, ha.writes, older, holder, hrest⟩
  · exact .inr (not_mem_names_of_sublist holder ((tail_sublist _).trans hsub))

omit ha in
lemma OpenTxn.backTo_of_dropWhile {n : String} {c : Nat}
    (hdrop : o.marks.dropWhile (·.1 ≠ name) = (n, c) :: older) :
    o.backTo name = { o with
      marks := (n, c) :: older
      writes := o.writes.drop (o.writes.length - c) } := by
  unfold backTo
  rw [hdrop]

lemma OpenTxn.Ahead.backTo (name' : String) :
    Ahead name (o.backTo name') (o'.backTo name') ∨
      name ∉ (o.backTo name').marks.map Prod.fst := by
  obtain ⟨extra, hextra⟩ := ha.writes
  obtain ⟨older, holder, hmarks⟩ := ha.marks
  have hown : o'.writes.drop (o'.writes.length - o'.writes.length) = o'.writes := by
    rw [Nat.sub_self, drop_zero]
  rcases hmarks.dropWhile name' with hd | ⟨heq, hsub⟩
  · generalize hdo : o.marks.dropWhile (·.1 ≠ name') = d at hd
    generalize hdo' : o'.marks.dropWhile (·.1 ≠ name') = d' at hd
    cases hd with
    | here =>
      rw [backTo_of_dropWhile hdo, backTo_of_dropWhile hdo', hown,
        drop_ahead_self hextra]
      exact .inl ⟨ha.level, ha.snap, ⟨[], rfl⟩, older, holder, .here⟩
    | newer hne hc hrest =>
      rw [backTo_of_dropWhile hdo, backTo_of_dropWhile hdo', hown]
      exact .inl ⟨ha.level, ha.snap, drop_ahead hextra hc, older, holder, .newer hne hc hrest⟩
  · cases hdo : o.marks.dropWhile (·.1 ≠ name') with
    | nil =>
      -- no savepoint of that name: neither log changes
      have hsame : o.backTo name' = o := by
        unfold OpenTxn.backTo
        rw [hdo]
      have hsame' : o'.backTo name' = o' := by
        unfold OpenTxn.backTo
        rw [heq, hdo]
      rw [hsame, hsame']
      exact .inl ha
    | cons p rest =>
      rw [backTo_of_dropWhile (n := p.1) (c := p.2) hdo]
      rw [hdo] at hsub
      exact .inr (not_mem_names_of_sublist holder hsub)

/-- **Going back to the savepoint** leaves the same log. -/
theorem OpenTxn.Ahead.backTo_self : o'.backTo name = o.backTo name := by
  obtain ⟨extra, hextra⟩ := ha.writes
  obtain ⟨older, -, hmarks⟩ := ha.marks
  obtain ⟨hdo, hdo'⟩ := hmarks.dropWhile_self
  rw [backTo_of_dropWhile hdo, backTo_of_dropWhile hdo', drop_ahead_self hextra,
    Nat.sub_self, drop_zero, ha.level, ha.snap]

omit ha

lemma OpenTxn.backTo_gone (hgone : name ∉ o.marks.map Prod.fst) (name' : String) :
    name ∉ (o.backTo name').marks.map Prod.fst := by
  unfold backTo
  split
  case h_1 => exact hgone
  case h_2 hdrop => exact not_mem_names_of_sublist hgone (hdrop ▸ dropWhile_sublist _)

end

/-! ## The histories -/

/-- Two histories that differ only in the log of one open transaction, which has the point. -/
structure Beside (point : Point) (txn : TxnId) (g g' : History) : Prop where
  commits : g'.commits = g.commits
  gids : g'.gids = g.gids
  others : ∀ t, t ≠ txn → g'.running.get? t = g.running.get? t
  own : ∃ o o', g.running.get? txn = some o ∧ g'.running.get? txn = some o' ∧ point.Ahead o o'

def Lost (point : Point) (txn : TxnId) (g : History) : Prop :=
  ∀ o, g.running.get? txn = some o → point.Gone o

/-- A history and the one without the calls of `txn` since the point, as long as it has the point. -/
def Kept (point : Point) (txn : TxnId) (g g' : History) : Prop :=
  Beside point txn g g' ∨ Lost point txn g

variable {point : Point} {txn t : TxnId} {g g' : History} {op : Op} {out : Outcome} {o o' : OpenTxn}

lemma Point.Ahead.refresh (ha : point.Ahead o o') (n : Nat) :
    point.Ahead
      (if o.level = .readCommitted ∨ o.level = .readUncommitted then { o with snap := n } else o)
      (if o'.level = .readCommitted ∨ o'.level = .readUncommitted then { o' with snap := n }
        else o') := by
  cases point with
  | start => exact trivial
  | savepoint name =>
    rw [ha.level]
    split
    · exact ⟨rfl, rfl, ha.writes, ha.marks⟩
    · exact ha

lemma Point.Gone.refresh (hgone : point.Gone o) (n : Nat) :
    point.Gone
      (if o.level = .readCommitted ∨ o.level = .readUncommitted then { o with snap := n }
        else o) := by
  split
  · exact hgone
  · exact hgone

/-- The change to a transaction's log that a savepoint call makes: the point stays or is lost. -/
structure Point.Steady (point : Point) (f : OpenTxn → OpenTxn) : Prop where
  ahead : ∀ o o', point.Ahead o o' → point.Ahead (f o) (f o') ∨ point.Gone (f o)
  gone : ∀ o, point.Gone o → point.Gone (f o)

lemma Point.steady_mark {name : String} (hne : point ≠ .savepoint name) :
    point.Steady fun o => { o with marks := (name, o.writes.length) :: o.marks.filter (·.1 ≠ name) } := by
  cases point with
  | start => exact ⟨fun _ _ _ => .inl trivial, fun _ h => h⟩
  | savepoint own =>
    have hne : name ≠ own := fun heq => hne (congrArg Point.savepoint heq.symm)
    refine ⟨fun o o' ha => .inl (Ahead.mark ha hne), fun o hgone hmem => ?_⟩
    rcases mem_cons.mp hmem with heq | hmem
    · exact hne heq.symm
    · exact not_mem_names_of_sublist hgone filter_sublist hmem

lemma Point.steady_release (point : Point) (name : String) :
    point.Steady fun o => { o with marks := (o.marks.dropWhile (·.1 ≠ name)).tail } := by
  cases point with
  | start => exact ⟨fun _ _ _ => .inl trivial, fun _ h => h⟩
  | savepoint own =>
    refine ⟨fun o o' ha => Ahead.release ha name, fun o hgone => ?_⟩
    exact not_mem_names_of_sublist hgone ((tail_sublist _).trans (dropWhile_sublist _))

lemma Point.steady_backTo (point : Point) (name : String) : point.Steady (backTo name) := by
  cases point with
  | start => exact ⟨fun _ _ _ => .inl trivial, fun _ h => h⟩
  | savepoint own =>
    exact ⟨fun o o' ha => Ahead.backTo ha name, fun o hgone => backTo_gone hgone name⟩

variable (hk : Kept point txn g g')

include hk

lemma Kept.modify {f f' : OpenTxn → OpenTxn} (hsame : g'.commits = g.commits → f' = f)
    (hf : t = txn → point.Steady f) : Kept point txn (g.modify t f) (g'.modify t f') := by
  rcases hk with hb | hlost
  · obtain rfl := hsame hb.commits
    obtain ⟨o, o', ho, ho', ha⟩ := hb.own
    have hothers : ∀ u, u ≠ txn →
        (g'.modify t f').running.get? u = (g.modify t f').running.get? u := by
      intro u hu
      rw [running_modify, running_modify]
      split
      case isTrue htu => rw [hb.others t (htu ▸ hu)]
      case isFalse => exact hb.others u hu
    by_cases ht : t = txn
    · subst ht
      have hget : (g.modify t f').running.get? t = some (f' o) := by
        rw [running_modify, if_pos rfl, ho]
        rfl
      have hget' : (g'.modify t f').running.get? t = some (f' o') := by
        rw [running_modify, if_pos rfl, ho']
        rfl
      rcases (hf rfl).ahead o o' ha with hahead | hgone
      · exact .inl ⟨hb.commits, hb.gids, hothers, f' o, f' o', hget, hget', hahead⟩
      refine .inr fun o1 ho1 => ?_
      obtain rfl : f' o = o1 := Option.some.inj (hget.symm.trans ho1)
      exact hgone
    · refine .inl ⟨hb.commits, hb.gids, hothers, o, o', ?_, ?_, ha⟩
      · rw [running_modify, if_neg ht, ho]
      · rw [running_modify, if_neg ht, ho']
  · refine .inr fun o ho => ?_
    rw [running_modify] at ho
    split at ho
    case isTrue ht =>
      subst ht
      obtain ⟨o1, ho1, rfl⟩ := Option.map_eq_some_iff.mp ho
      exact (hf rfl).gone o1 (hlost o1 ho1)
    case isFalse => exact hlost o ho

lemma Kept.write (ht : t ≠ txn) (w : Write) : Kept point txn (g.write t w) (g'.write t w) :=
  hk.modify (fun _ => rfl) fun heq => absurd heq ht

lemma Kept.writeOwn (w : Write) : Kept point txn (g.write txn w) g' := by
  rcases hk with hb | hlost
  · obtain ⟨o, o', ho, ho', ha⟩ := hb.own
    refine .inl ⟨hb.commits, hb.gids, fun t ht => ?_, { o with writes := w :: o.writes }, o', ?_,
      ho', ?_⟩
    · unfold History.write
      rw [running_modify, if_neg (Ne.symm ht), hb.others t ht]
    · unfold History.write
      rw [running_modify, if_pos rfl, ho]
      rfl
    · cases point with
      | start => exact trivial
      | savepoint name => exact OpenTxn.Ahead.write ha w
  · refine .inr fun o ho => ?_
    unfold History.write at ho
    rw [running_modify, if_pos rfl] at ho
    obtain ⟨o1, ho1, rfl⟩ := Option.map_eq_some_iff.mp ho
    exact hlost o1 ho1

lemma Kept.writeAll (ht : t ≠ txn) (ws : List Write) :
    Kept point txn (g.writeAll t ws) (g'.writeAll t ws) := by
  induction ws generalizing g g' with
  | nil => exact hk
  | cons w ws ih => exact ih (hk.write ht w)

lemma Kept.writeAllOwn (ws : List Write) : Kept point txn (g.writeAll txn ws) g' := by
  induction ws generalizing g with
  | nil => exact hk
  | cons w ws ih => exact ih (hk.writeOwn w)

lemma Kept.setGids {gids gids' : OrdMap String TxnId} (hsame : g'.gids = g.gids → gids' = gids) :
    Kept point txn { g with gids := gids } { g' with gids := gids' } := by
  rcases hk with hb | hlost
  · exact .inl ⟨hb.commits, hsame hb.gids, hb.others, hb.own⟩
  · exact .inr hlost

omit hk

lemma History.running_drop (g : History) (t u : TxnId) :
    (g.drop t).running.get? u = if t = u then none else g.running.get? u :=
  OrdMap.get?_erase ..

lemma Lost.drop_self (g : History) (txn : TxnId) : Lost point txn (g.drop txn) := by
  intro o ho
  rw [running_drop, if_pos rfl] at ho
  cases ho

lemma Lost.drop (hlost : Lost point txn g) (t : TxnId) : Lost point txn (g.drop t) := by
  intro o ho
  rw [running_drop] at ho
  split at ho
  case isTrue => cases ho
  case isFalse => exact hlost o ho

lemma Lost.commit (hlost : Lost point txn g) (t : TxnId) : Lost point txn (g.commit t) := by
  unfold History.commit
  split
  case h_1 => exact hlost
  case h_2 => exact hlost.drop t

lemma Beside.drop (hb : Beside point txn g g') (ht : t ≠ txn) :
    Beside point txn (g.drop t) (g'.drop t) := by
  obtain ⟨o, o', ho, ho', ha⟩ := hb.own
  refine ⟨hb.commits, hb.gids, fun u hu => ?_, o, o', ?_, ?_, ha⟩
  · rw [running_drop, running_drop, hb.others u hu]
  · rw [running_drop, if_neg ht, ho]
  · rw [running_drop, if_neg ht, ho']

include hk

lemma Kept.drop (t : TxnId) : Kept point txn (g.drop t) (g'.drop t) := by
  by_cases ht : t = txn
  · subst ht
    exact .inr (Lost.drop_self g t)
  rcases hk with hb | hlost
  · exact .inl (hb.drop ht)
  · exact .inr (hlost.drop t)

lemma Kept.commit (t : TxnId) : Kept point txn (g.commit t) (g'.commit t) := by
  rcases hk with hb | hlost
  case inr => exact .inr (hlost.commit t)
  by_cases ht : t = txn
  · subst ht
    obtain ⟨o, -, ho, -⟩ := hb.own
    refine .inr ?_
    rw [commit_eq ho]
    exact Lost.drop_self g t
  cases ho : g.running.get? t with
  | none =>
    have hsame : g.commit t = g ∧ g'.commit t = g' := by
      unfold History.commit
      rw [hb.others t ht, ho]
      exact ⟨rfl, rfl⟩
    rw [hsame.1, hsame.2]
    exact .inl hb
  | some o =>
    have hd := hb.drop ht
    rw [commit_eq ho, commit_eq ((hb.others t ht).trans ho)]
    exact .inl ⟨congrArg (· ++ [_]) hb.commits, hd.gids, hd.others, hd.own⟩

lemma Kept.begin {id : TxnId} (hid : id ≠ txn) (level : IsolationLevel) {n n' : Nat}
    (hsame : g'.commits = g.commits → n' = n) :
    Kept point txn { g with running := g.running.insert id ⟨level, n, [], []⟩ }
      { g' with running := g'.running.insert id ⟨level, n', [], []⟩ } := by
  have hget : ∀ (g : History) (n : Nat) (u : TxnId),
      (g.running.insert id ⟨level, n, [], []⟩).get? u =
        if id = u then some ⟨level, n, [], []⟩ else g.running.get? u :=
    fun g n u => OrdMap.get?_insert ..
  rcases hk with hb | hlost
  · obtain rfl := hsame hb.commits
    obtain ⟨o, o', ho, ho', ha⟩ := hb.own
    refine .inl ⟨hb.commits, hb.gids, fun u hu => ?_, o, o', ?_, ?_, ha⟩
    · show (g'.running.insert id _).get? u = (g.running.insert id _).get? u
      rw [hget, hget, hb.others u hu]
    · show (g.running.insert id _).get? txn = some o
      rw [hget, if_neg hid, ho]
    · show (g'.running.insert id _).get? txn = some o'
      rw [hget, if_neg hid, ho']
  · refine .inr fun o ho => hlost o ?_
    rwa [hget, if_neg hid] at ho

/-- **A call that is in both histories** keeps them side by side, unless it sets the point anew. -/
theorem Kept.record (hop : op.writer ≠ some txn) (hreset : ¬point.ResetBy txn op)
    (hbegin : ∀ level, op = .begin level → out ≠ .ok (.txn txn)) :
    Kept point txn (g.record (op, out)) (g'.record (op, out)) := by
  generalize hp : (op, out) = p
  unfold History.record
  split
  case h_1 level id =>
    cases hp
    refine hk.begin (fun heq => hbegin level rfl ?_) level fun hc => congrArg length hc
    rw [heq]
  case h_2 t v =>
    have hc : g'.commits = g.commits → g'.commits.length = g.commits.length := congrArg length
    refine hk.modify (fun h => by rw [hc h]) fun _ => ⟨fun o o' ha => ?_, fun o hgone => ?_⟩
    · exact .inl (ha.refresh _)
    · exact hgone.refresh _
  case h_3 => cases hp; exact hk.write (fun heq => hop (congrArg some heq)) _
  case h_4 t table tuples tids =>
    cases hp
    generalize tids.zip tuples = pairs
    induction pairs generalizing g g' with
    | nil => exact hk
    | cons p pairs ih => exact ih (hk.write (fun heq => hop (congrArg some heq)) _)
  case h_5 => cases hp; exact hk.write (fun heq => hop (congrArg some heq)) _
  case h_6 => cases hp; exact hk.write (fun heq => hop (congrArg some heq)) _
  case h_7 t name v =>
    cases hp
    refine hk.modify (fun _ => rfl) fun heq => Point.steady_mark fun hpoint => hreset ?_
    rw [hpoint, heq]
    rfl
  case h_8 t name v => exact hk.modify (fun _ => rfl) fun _ => point.steady_backTo name
  case h_9 t name v => exact hk.modify (fun _ => rfl) fun _ => point.steady_release name
  case h_10 => exact hk.commit _
  case h_11 => exact hk.drop _
  case h_12 => exact hk.drop _
  case h_13 => exact hk.setGids fun hgids => by rw [hgids]
  case h_14 =>
    split
    · exact hk
    · exact hk.drop _
  case h_15 gid owner finish v =>
    rcases hk with hb | hlost
    · rw [hb.gids]
      have hgids : Kept point txn { g with gids := g.gids.erase gid }
          { g' with gids := g.gids.erase gid } := Kept.setGids (.inl hb) fun _ => rfl
      split
      · exact .inl hb
      split
      · exact hgids.commit _
      · exact hgids.drop _
    · refine .inr ?_
      have hgids : Lost point txn { g with gids := g.gids.erase gid } := hlost
      split
      · exact hlost
      split
      · exact hgids.commit _
      · exact hgids.drop _
  case h_16 => exact hk

lemma Kept.recordOwn (hop : op.writer = some txn) (out : Outcome) :
    Kept point txn (g.record (op, out)) g' := by
  generalize hp : (op, out) = p
  unfold History.record
  split
  case h_3 => cases hp; cases hop; exact hk.writeOwn _
  case h_4 t table tuples tids =>
    cases hp
    cases hop
    generalize tids.zip tuples = pairs
    induction pairs generalizing g with
    | nil => exact hk
    | cons p pairs ih => exact ih (hk.writeOwn _)
  case h_5 => cases hp; cases hop; exact hk.writeOwn _
  case h_6 => cases hp; cases hop; exact hk.writeOwn _
  case h_16 => exact hk
  all_goals
    cases hp
    cases hop

omit hk

lemma Engine.writer_of_keyEvents {e : Engine} {ws : List Write}
    (hev : e.keyEvents op = some (t, ws)) : op.writer = some t := by
  cases op
  case indexInsert => cases hev; rfl
  case indexInsertBatch => cases hev; rfl
  case indexDelete => cases hev; rfl
  all_goals cases hev

lemma Kept.recordKeys (hk : Kept point txn g g') (e : Engine) (hop : op.writer ≠ some txn)
    (hreset : ¬point.ResetBy txn op)
    (hbegin : ∀ level, op = .begin level → (e.step op).2 ≠ .ok (.txn txn)) :
    Kept point txn (g.recordKeys e op) (g'.recordKeys e op) := by
  unfold History.recordKeys
  split
  case h_1 t ws hev =>
    exact hk.writeAll (fun heq => hop (heq ▸ Engine.writer_of_keyEvents hev)) ws
  case h_2 =>
    split
    · exact hk
    · exact hk.record hop hreset hbegin

lemma Kept.recordKeysOwn (hk : Kept point txn g g') (e : Engine) (hop : op.writer = some txn) :
    Kept point txn (g.recordKeys e op) g' := by
  unfold History.recordKeys
  split
  case h_1 t ws hev =>
    obtain rfl : txn = t := Option.some.inj (hop.symm.trans (Engine.writer_of_keyEvents hev))
    exact hk.writeAllOwn ws
  case h_2 =>
    split
    · exact hk
    · exact hk.recordOwn hop _

/-- **Going back to the point** leaves one history. -/
theorem Beside.undo (hb : Beside point txn g g') {v : Value} :
    g'.record (point.undo txn, .ok v) = g.record (point.undo txn, .ok v) := by
  obtain ⟨o, o', ho, ho', ha⟩ := hb.own
  have hfinish : ∀ {h h' : History}, h'.commits = h.commits → h'.gids = h.gids →
      (∀ t, h'.running.get? t = h.running.get? t) → h' = h := by
    rintro ⟨_, _, _⟩ ⟨_, _, _⟩ hcommits hgids hrunning
    cases hcommits
    cases hgids
    cases OrdMap.ext_get? hrunning
    rfl
  refine hfinish ?_ ?_ fun t => ?_
  · cases point with
    | start | savepoint => exact hb.commits
  · cases point with
    | start | savepoint => exact hb.gids
  cases point with
  | start =>
    show (g'.drop txn).running.get? t = (g.drop txn).running.get? t
    rw [running_drop, running_drop]
    split
    case isTrue => rfl
    case isFalse hne => exact hb.others t (Ne.symm hne)
  | savepoint name =>
    show (g'.modify txn (backTo name)).running.get? t =
      (g.modify txn (backTo name)).running.get? t
    rw [running_modify, running_modify]
    split
    case isTrue =>
      rw [ho, ho']
      exact congrArg some (Ahead.backTo_self ha)
    case isFalse hne => exact hb.others t (Ne.symm hne)

end NusaDb
