import NusaDb.Rbac.Statements

/-!
# Reaching superuser through memberships

A role is *powerless* when no superuser role can be reached from it through memberships.

* `Within` says what a statement can do to the catalog: it makes no superuser, and its new
  memberships lead from its recipients to the roles it grants. There is one lemma for each executor
  function; `within_run` puts them together, and uses the analyzer's checks on the `SUPERUSER`
  attribute.
* `powerless_of_mayAdministerRole` is what `may_administer_role` achieves: a session that is no
  superuser grants powerless roles only, or roles that are `Disguised`. Those are the defect: the
  check looks at the attribute of the granted role and not at where its memberships lead, and the
  bootstrap superuser has no row to look at.
* `Contained` is the invariant of a run (the users and the roles their connections run as are
  powerless). It is kept by every call that is `Confined`, which asks something only of a grant that
  the analyzer accepts.
-/

namespace NusaDb.Rbac

open List Fallible

namespace Catalog

variable {c c' c'' : Catalog} {user role : String}

def IsSuperuserRole (c : Catalog) (name : String) : Prop :=
  name = bootstrapSuperuser ∨ ∃ r ∈ c.roles, r.name = name ∧ r.superuser = true

instance decidableIsSuperuserRole (c : Catalog) (name : String) :
    Decidable (c.IsSuperuserRole name) :=
  inferInstanceAs (Decidable (_ ∨ _))

instance decidableReaches (c : Catalog) (user role : String) : Decidable (c.Reaches user role) :=
  decidable_of_iff _ mem_membershipClosure

def Powerless (c : Catalog) (user : String) : Prop :=
  ∀ name, c.Reaches user name → ¬ c.IsSuperuserRole name

lemma powerless_iff :
    c.Powerless user ↔ ∀ name ∈ c.membershipClosure user, ¬ c.IsSuperuserRole name :=
  forall_congr' fun _ => imp_congr_left mem_membershipClosure.symm

instance decidablePowerless (c : Catalog) (user : String) : Decidable (c.Powerless user) :=
  decidable_of_iff _ powerless_iff.symm

variable (h : c.Powerless user)

include h

lemma Powerless.of_reaches (hreach : c.Reaches user role) : c.Powerless role :=
  fun name hname => h name (hreach.trans hname)

lemma Powerless.ne_bootstrap : user ≠ bootstrapSuperuser :=
  fun heq => h user .refl (.inl heq)

lemma Powerless.resolve_superuser : (c.resolve user).superuser = false := by
  unfold resolve
  rw [if_neg (by simpa using h.ne_bootstrap)]
  refine any_eq_false.mpr ?_
  intro r hr hsuper
  rw [Bool.and_eq_true, contains_iff_mem] at hsuper
  exact h r.name (reaches_of_mem_effectiveRoles hsuper.2) (.inr ⟨r, hr, rfl, hsuper.1⟩)

lemma Powerless.assumed (hassume : c.mayAssumeRole user role = true) : c.Powerless role := by
  have hsuper := h.resolve_superuser
  unfold mayAssumeRole ResolvedSession.mayAssumeRole at hassume
  rw [hsuper, Bool.false_or] at hassume
  unfold resolve at hassume
  rw [if_neg (by simpa using h.ne_bootstrap)] at hassume
  exact h.of_reaches (mem_membershipClosure.mp (contains_iff_mem.mp hassume))

omit h

/-- `c'` has no new superuser role, and each new membership edge leads from one of `recipients` to
one of `granted`. -/
structure Within (recipients granted : List String) (c c' : Catalog) : Prop where
  edges : ∀ a, ∀ b ∈ c'.rolesOf a, b ∈ c.rolesOf a ∨ (a ∈ recipients ∧ b ∈ granted)
  superusers : ∀ name, c'.IsSuperuserRole name → c.IsSuperuserRole name

variable {recipients granted : List String}

lemma Within.refl (c : Catalog) : Within recipients granted c c :=
  ⟨fun _ _ => .inl, fun _ => id⟩

lemma Within.trans (h : Within recipients granted c c') (h' : Within recipients granted c' c'') :
    Within recipients granted c c'' where
  edges := by
    intro a b hb
    rcases h'.edges a b hb with hold | hnew
    · exact h.edges a b hold
    · exact .inr hnew
  superusers := fun name hname => h.superusers name (h'.superusers name hname)

lemma Within.of_subset (hroles : ∀ r ∈ c'.roles, r ∈ c.roles)
    (hedges : ∀ e ∈ c'.memberships, e ∈ c.memberships) : Within recipients granted c c' where
  edges := by
    intro a b hb
    obtain ⟨e, he, hmember, hrole⟩ := mem_rolesOf.mp hb
    exact .inl (mem_rolesOf.mpr ⟨e, hedges e he, hmember, hrole⟩)
  superusers := by
    rintro name (hboot | ⟨r, hr, hname, hsuper⟩)
    · exact .inl hboot
    · exact .inr ⟨r, hroles r hr, hname, hsuper⟩

lemma Within.insertMembership {member : String} {admin : Bool}
    (hedge : role ∈ c.rolesOf member ∨ (member ∈ recipients ∧ role ∈ granted)) :
    Within recipients granted c (c.insertMembership role member admin) where
  edges := by
    intro a b hb
    obtain ⟨e, he, rfl, rfl⟩ := mem_rolesOf.mp hb
    rcases mem_append.mp he with hold | hnew
    · exact .inl (mem_rolesOf.mpr ⟨e, mem_of_mem_filter hold, rfl, rfl⟩)
    · rw [mem_singleton.mp hnew]
      exact hedge
  superusers := fun _ => id

lemma Within.runGrantRole {admin : Bool} {edges : List (String × String)}
    (hedges : ∀ edge ∈ edges, edge.2 ∈ recipients ∧ edge.1 ∈ granted)
    (h : runGrantRole admin c edges = .ok c') : Within recipients granted c c' := by
  induction edges generalizing c with
  | nil =>
    cases h
    exact .refl _
  | cons edge edges ih =>
    unfold Catalog.runGrantRole at h
    split at h
    · cases h
    · obtain ⟨hedge, hrest⟩ := forall_mem_cons.mp hedges
      exact (Within.insertMembership (.inr hedge)).trans (ih hrest h)

variable {adminOptionFor : Bool}

lemma Within.revokeEdge (edge : String × String) :
    Within recipients granted c (revokeEdge adminOptionFor c edge) := by
  unfold Catalog.revokeEdge
  split
  · split
    · -- the admin option is dropped from an edge that is there
      rename_i hany
      obtain ⟨e, he, hmatch⟩ := any_eq_true.mp hany
      rw [Bool.and_eq_true, beq_iff_eq, beq_iff_eq] at hmatch
      exact .insertMembership (.inl (mem_rolesOf.mpr ⟨e, he, hmatch.2, hmatch.1⟩))
    · exact .refl c
  · exact .of_subset (fun _ => id) fun _ => mem_of_mem_filter

lemma Within.runRevokeRole (edges : List (String × String)) :
    Within recipients granted c (runRevokeRole adminOptionFor c edges) := by
  induction edges generalizing c with
  | nil => exact .refl c
  | cons edge edges ih => exact (Within.revokeEdge edge).trans ih

variable {name : String} {inRole : List String}

lemma Within.insertMemberships (hname : name ∈ recipients)
    (hroles : ∀ role ∈ inRole, role ∈ granted) :
    Within recipients granted c
      (inRole.foldl (fun c role => c.insertMembership role name false) c) := by
  induction inRole generalizing c with
  | nil => exact .refl c
  | cons role inRole ih =>
    obtain ⟨hrole, hrest⟩ := forall_mem_cons.mp hroles
    exact (Within.insertMembership (.inr ⟨hname, hrole⟩)).trans (ih hrest)

lemma Within.insertRole {row : RoleRecord} (hrow : row.superuser = false) :
    Within recipients granted c (c.insertRole row) where
  edges := fun _ _ => .inl
  superusers := by
    rintro name (hboot | ⟨r, hr, hname, hsuper⟩)
    · exact .inl hboot
    · rcases mem_append.mp hr with hold | hnew
      · exact .inr ⟨r, hold, hname, hsuper⟩
      · rw [mem_singleton.mp hnew, hrow] at hsuper
        cases hsuper

variable {options : RoleOptions}

lemma Within.runCreateRole {ifNotExists : Bool} (hsuper : options.superuser ≠ some true)
    (h : c.runCreateRole name ifNotExists options inRole = .ok c') : Within [name] inRole c c' := by
  unfold Catalog.runCreateRole at h
  split at h
  · split at h
    · cases h
      exact .refl c
    · cases h
  cases h
  have hflag : options.superuser.getD false = false := by
    rcases hoption : options.superuser with _ | _ | _
    · rfl
    · rfl
    · exact absurd hoption hsuper
  exact (Within.insertRole hflag).trans (.insertMemberships mem_cons_self fun _ => id)

lemma Within.runDropRole {ifExists : Bool} {names : List String}
    (h : runDropRole ifExists c names = .ok c') : Within recipients granted c c' := by
  induction names generalizing c with
  | nil =>
    cases h
    exact .refl _
  | cons name names ih =>
    unfold Catalog.runDropRole at h
    split at h
    · split at h
      · exact ih h
      · cases h
    split at h
    · cases h
    refine Within.trans (.of_subset ?_ ?_) (ih h)
    · exact fun _ => mem_of_mem_filter
    · exact fun _ => mem_of_mem_filter

lemma Within.runAlterRole (hsuper : options.superuser = none)
    (h : c.runAlterRole name options = .ok c') : Within recipients granted c c' := by
  unfold Catalog.runAlterRole at h
  split at h
  · cases h
  rename_i record hrecord
  cases h
  refine ⟨fun _ _ => .inl, ?_⟩
  rintro name (hboot | ⟨r, hr, hname, hflag⟩)
  · exact .inl hboot
  · rcases mem_append.mp hr with hold | hnew
    · exact .inr ⟨r, mem_of_mem_filter hold, hname, hflag⟩
    -- the rewritten row keeps the attribute it had
    subst hname
    rw [mem_singleton.mp hnew] at hflag ⊢
    rw [hsuper] at hflag
    exact .inr ⟨record, mem_of_find?_eq_some hrecord, rfl, hflag⟩

end Catalog

/-- The defect: a role without a `SUPERUSER` attribute of its own from which a superuser is reached.
The bootstrap superuser is one, since it has no row. -/
def Catalog.Disguised (c : Catalog) (role : String) : Prop :=
  (c.roles.any fun r => r.name == role && r.superuser) = false ∧ ¬c.Powerless role

instance Catalog.decidableDisguised (c : Catalog) (role : String) : Decidable (c.Disguised role) :=
  inferInstanceAs (Decidable (_ ∧ _))

/-- What a session that is no superuser may administer is powerless or disguised: its check refuses
a role with the attribute. -/
lemma Catalog.powerless_of_mayAdministerRole {c : Catalog} {actor role : String}
    (hactor : c.isSuperuser actor = false) (hmay : c.mayAdministerRole actor role = true)
    (hrole : ¬c.Disguised role) : c.Powerless role := by
  have hsuper : ¬(c.resolve actor).superuser = true := by
    rw [← isSuperuser, hactor]
    exact Bool.false_ne_true
  have hown : (c.roles.any fun r => r.name == role && r.superuser) = false := by
    unfold mayAdministerRole at hmay
    rw [if_neg hsuper] at hmay
    split at hmay
    · cases hmay
    · exact Bool.eq_false_iff.mpr ‹_›
  by_contra hpower
  exact hrole ⟨hown, hpower⟩

def Statement.granted : Statement → List String
  | .grantRole roles _ _ => roles
  | .createRole _ _ _ inRole => inRole
  | _ => []

def Statement.recipients : Statement → List String
  | .grantRole _ members _ => members
  | .createRole name _ _ _ => [name]
  | _ => []

/-- The analyzer asks of every role that a statement hands out whether the session may administer
it. -/
lemma Catalog.mayAdministerRole_of_granted {c : Catalog} {actor : String} {stmt : Statement}
    (haccepted : c.analyze actor stmt = .ok ()) :
    ∀ role ∈ stmt.granted, c.mayAdministerRole actor role = true := by
  cases stmt with
  | grantRole roles members admin =>
    obtain ⟨_, -, hmay⟩ := bind_eq_ok.mp haccepted
    exact requireAll_ok hmay
  | createRole name ifNotExists options inRole =>
    obtain ⟨_, -, hchecks⟩ := bind_eq_ok.mp haccepted
    obtain ⟨-, hchecks⟩ := require_bind_ok hchecks
    obtain ⟨-, hmay⟩ := require_bind_ok hchecks
    exact requireAll_ok hmay
  | revokeRole | dropRole | alterRole | setRole => exact fun _ h => absurd h not_mem_nil

lemma Catalog.mem_pairs {roles members : List String} {edge : String × String}
    (h : edge ∈ pairs roles members) : edge.2 ∈ members ∧ edge.1 ∈ roles := by
  obtain ⟨role, hrole, hedge⟩ := mem_flatMap.mp h
  obtain ⟨member, hmember, rfl⟩ := mem_map.mp hedge
  exact ⟨hmember, hrole⟩

lemma Catalog.within_run {c c' : Catalog} {actor : String} {stmt : Statement}
    (hactor : c.isSuperuser actor = false) (haccepted : c.analyze actor stmt = .ok ())
    (hrun : c.run stmt = .ok c') : Within stmt.recipients stmt.granted c c' := by
  cases stmt with
  | grantRole roles members admin => exact .runGrantRole (fun _ => mem_pairs) hrun
  | revokeRole roles members adminOptionFor =>
    cases hrun
    exact .runRevokeRole _
  | createRole name ifNotExists options inRole =>
    obtain ⟨_, -, hchecks⟩ := bind_eq_ok.mp haccepted
    obtain ⟨-, hchecks⟩ := require_bind_ok hchecks
    obtain ⟨hsuper, -⟩ := require_bind_ok hchecks
    refine .runCreateRole ?_ hrun
    simpa [hactor] using hsuper
  | dropRole names ifExists => exact .runDropRole hrun
  | alterRole name options =>
    obtain ⟨_, -, hchecks⟩ := bind_eq_ok.mp haccepted
    obtain ⟨-, hchecks⟩ := require_bind_ok hchecks
    have hsuper := require_ok hchecks
    refine .runAlterRole ?_ hrun
    simpa [hactor] using hsuper
  | setRole role =>
    cases hrun
    exact .refl c

namespace Catalog

variable {c c' : Catalog} {recipients granted : List String}

lemma Within.powerless_of_granted (h : Within recipients granted c c')
    (hgranted : ∀ role ∈ granted, c.Powerless role) {user : String} (huser : c.Powerless user) :
    c'.Powerless user := by
  intro name hreach hsuper
  have hclosed : ∀ a b, c.Powerless a → b ∈ c'.rolesOf a → c.Powerless b := by
    intro a b ha hb
    rcases h.edges a b hb with hold | ⟨-, hnew⟩
    · exact ha.of_reaches (.single hold)
    · exact hgranted b hnew
  have hname : c.Powerless name := Worklist.Reach.mem_of_closed hclosed huser hreach
  exact hname name .refl (h.superusers name hsuper)

lemma Within.powerless_of_unreached (h : Within recipients granted c c') {user : String}
    (hunreached : ∀ member ∈ recipients, ¬ c.Reaches user member) (huser : c.Powerless user) :
    c'.Powerless user := by
  intro name hreach hsuper
  have hclosed : ∀ a b, c.Reaches user a → b ∈ c'.rolesOf a → c.Reaches user b := by
    intro a b ha hb
    rcases h.edges a b hb with hold | ⟨hmember, -⟩
    · exact ha.tail hold
    · exact absurd ha (hunreached a hmember)
  have hname : c.Reaches user name := Worklist.Reach.mem_of_closed hclosed .refl hreach
  exact huser name hname (h.superusers name hsuper)

end Catalog

namespace System

/-- The roles to be kept from superuser: the users, and the roles their connections run as. -/
def watched (s : System) (users : List String) : List String :=
  users ++ s.connections.map Connection.current

/-- The analyzer accepts the statement for the role the connection runs as. -/
def accepts (s : System) (call : Nat × Statement) : Bool :=
  s.connections[call.1]?.any fun conn => (s.catalog.analyze conn.current call.2).isOk

/-- A call that is accepted hands out no disguised role to somebody a watched role can reach. -/
def Confined (s : System) (users : List String) (call : Nat × Statement) : Prop :=
  s.accepts call = true →
    (∃ member ∈ call.2.recipients, ∃ w ∈ s.watched users, s.catalog.Reaches w member) →
    ∀ role ∈ call.2.granted, ¬s.catalog.Disguised role

instance decidableConfined (s : System) (users : List String) (call : Nat × Statement) :
    Decidable (s.Confined users call) :=
  inferInstanceAs (Decidable (_ → _))

def RunConfined (users : List String) : System → List (Nat × Statement) → Prop
  | _, [] => True
  | s, call :: calls => s.Confined users call ∧ RunConfined users (s.step call) calls

/-- The users and the roles their connections run as are powerless. -/
structure Contained (s : System) (users : List String) : Prop where
  powerless : ∀ w ∈ s.watched users, s.catalog.Powerless w
  logins : ∀ conn ∈ s.connections, conn.login ∈ users

variable {s : System} {users : List String} (h : s.Contained users)

include h

lemma Contained.catalog {catalog : Catalog} {recipients granted : List String}
    (hwithin : Catalog.Within recipients granted s.catalog catalog)
    (hconfined : (∃ member ∈ recipients, ∃ w ∈ s.watched users, s.catalog.Reaches w member) →
      ∀ role ∈ granted, s.catalog.Powerless role) :
    Contained { s with catalog := catalog } users where
  powerless := by
    intro w hw
    by_cases hreached : ∃ member ∈ recipients, ∃ w ∈ s.watched users, s.catalog.Reaches w member
    · exact hwithin.powerless_of_granted (hconfined hreached) (h.powerless w hw)
    refine hwithin.powerless_of_unreached ?_ (h.powerless w hw)
    intro member hmember hreach
    exact hreached ⟨member, hmember, w, hw, hreach⟩
  logins := h.logins

lemma Contained.setRole {conn : Connection} {i : Nat} {assumed : Option String}
    (hconn : s.connections[i]? = some conn)
    (hassumed : ∀ role, assumed = some role → s.catalog.mayAssumeRole conn.login role = true) :
    Contained { s with connections := s.connections.set i { conn with assumed := assumed } } users where
  powerless := by
    have hlogin : s.catalog.Powerless conn.login :=
      h.powerless _ (mem_append_left _ (h.logins conn (mem_of_getElem? hconn)))
    intro w hw
    rcases mem_append.mp hw with huser | hcurrent
    · exact h.powerless w (mem_append_left _ huser)
    obtain ⟨other, hother, rfl⟩ := mem_map.mp hcurrent
    rcases mem_or_eq_of_mem_set hother with hold | rfl
    · exact h.powerless _ (mem_append_right _ (mem_map_of_mem hold))
    cases assumed with
    | none => exact hlogin
    | some role => exact hlogin.assumed (hassumed role rfl)
  logins := by
    intro other hother
    rcases mem_or_eq_of_mem_set hother with hold | rfl
    · exact h.logins other hold
    · exact h.logins conn (mem_of_getElem? hconn)

lemma Contained.execute {s' : System} {i : Nat} {stmt : Statement}
    (hconfined : s.Confined users (i, stmt)) (hok : s.execute i stmt = .ok s') :
    s'.Contained users := by
  unfold System.execute at hok
  split at hok
  · cases hok
    exact h
  rename_i conn hconn
  split at hok
  · obtain ⟨_, -, hok⟩ := bind_eq_ok.mp hok
    obtain ⟨assumed, hassumed, hok⟩ := bind_eq_ok.mp hok
    cases hok
    refine h.setRole hconn ?_
    intro target htarget
    subst htarget
    unfold Catalog.runSetRole at hassumed
    split at hassumed
    · cases hassumed
    obtain ⟨hmay, hrole⟩ := require_bind_ok hassumed
    cases hrole
    exact hmay
  · obtain ⟨_, haccepted, hok⟩ := bind_eq_ok.mp hok
    obtain ⟨catalog, hrun, hok⟩ := bind_eq_ok.mp hok
    cases hok
    have hcurrent : s.catalog.Powerless conn.current :=
      h.powerless _ (mem_append_right _ (mem_map_of_mem (mem_of_getElem? hconn)))
    have haccepts : s.accepts (i, stmt) = true := by
      rw [accepts, hconn, Option.any_some, haccepted]
      rfl
    refine h.catalog (Catalog.within_run hcurrent.resolve_superuser haccepted hrun) ?_
    -- the session may administer what it grants, so what is not disguised is powerless
    intro hreached role hrole
    exact Catalog.powerless_of_mayAdministerRole hcurrent.resolve_superuser
      (Catalog.mayAdministerRole_of_granted haccepted role hrole)
      (hconfined haccepts hreached role hrole)

lemma Contained.step {call : Nat × Statement} (hconfined : s.Confined users call) :
    (s.step call).Contained users := by
  unfold System.step
  split
  · exact h.execute hconfined ‹_›
  · exact h

variable {calls : List (Nat × Statement)}

lemma Contained.runCalls (hconfined : RunConfined users s calls) :
    (s.runCalls calls).Contained users := by
  induction calls generalizing s with
  | nil => exact h
  | cons call calls ih => exact ih (h.step hconfined.1) hconfined.2

omit h

lemma RunConfined.take (n : Nat) (h : RunConfined users s calls) :
    RunConfined users s (calls.take n) := by
  induction calls generalizing s n with
  | nil =>
    rw [take_nil]
    exact trivial
  | cons call calls ih =>
    cases n with
    | zero => exact trivial
    | succ n => exact ⟨h.1, ih n h.2⟩

/-- No escalation: after every step of a run of confined calls, neither a user nor a role a user may
assume resolves to a superuser, if none did at the start. -/
theorem users_stay_powerless (s : System) (users : List String)
    (husers : ∀ user ∈ users, s.catalog.Powerless user)
    (hconnections : ∀ conn ∈ s.connections, conn.login ∈ users ∧ conn.assumed = none)
    (calls : List (Nat × Statement)) (hconfined : RunConfined users s calls)
    (n : Nat) (user : String) (huser : user ∈ users) :
    let catalog := (s.runCalls (calls.take n)).catalog
    (catalog.resolve user).superuser = false ∧
      ∀ role, catalog.mayAssumeRole user role = true → (catalog.resolve role).superuser = false := by
  intro catalog
  have hstart : s.Contained users := by
    refine ⟨?_, fun conn hconn => (hconnections conn hconn).1⟩
    intro w hw
    rcases mem_append.mp hw with hmem | hcurrent
    · exact husers w hmem
    obtain ⟨conn, hconn, rfl⟩ := mem_map.mp hcurrent
    obtain ⟨hlogin, hnone⟩ := hconnections conn hconn
    unfold Connection.current
    rw [hnone]
    exact husers _ hlogin
  have hend := hstart.runCalls (hconfined.take n)
  have hpowerless := hend.powerless user (mem_append_left _ huser)
  exact ⟨hpowerless.resolve_superuser, fun role hrole => (hpowerless.assumed hrole).resolve_superuser⟩

/-- `admin` is a superuser, `dba` a member of it, and `mallory` holds `CREATEROLE` only. -/
def dbaSystem : System where
  catalog :=
    { roles :=
        [⟨"admin", true, false, false, false, true⟩, ⟨"dba", false, false, false, false, true⟩,
          ⟨"mallory", false, true, false, true, true⟩]
      memberships := [⟨"admin", "dba", false⟩] }
  connections := [{ login := "mallory" }]

/-- A run of confined calls: `mallory` tries to join `admin`, which the analyzer refuses, then
creates a role, joins it and assumes it. -/
theorem users_stay_powerless_created_role :
    let calls : List (Nat × Statement) :=
      [(0, .grantRole ["admin"] ["mallory"] false), (0, .createRole "staff" false {} []),
        (0, .grantRole ["staff"] ["mallory"] true), (0, .setRole (some "staff"))]
    dbaSystem.catalog.Powerless "mallory" ∧
      (dbaSystem.runCalls calls).connections = [⟨"mallory", some "staff"⟩] ∧
      ((dbaSystem.runCalls (calls.take 4)).catalog.resolve "mallory").superuser = false := by
  intro calls
  refine ⟨by decide, by decide, ?_⟩
  refine (users_stay_powerless dbaSystem ["mallory"] (by decide) (by decide) calls ?_ 4 "mallory"
    (by decide)).1
  exact ⟨by decide, by decide, by decide, by decide, trivial⟩

/-- The analyzer looks at the granted role's own attribute only: `mallory` is granted `dba` and is a
superuser; or is granted the bootstrap superuser, which has no row, and runs as it. -/
theorem mallory_becomes_superuser :
    dbaSystem.catalog.Powerless "mallory" ∧
      ((dbaSystem.runCalls [(0, .grantRole ["dba"] ["mallory"] false)]).catalog.resolve
        "mallory").superuser = true ∧
      (dbaSystem.runCalls [(0, .grantRole [bootstrapSuperuser] ["mallory"] false),
        (0, .setRole (some bootstrapSuperuser))]).connections =
          [⟨"mallory", some bootstrapSuperuser⟩] ∧
      ((dbaSystem.runCalls [(0, .grantRole [bootstrapSuperuser] ["mallory"] false)]).catalog.resolve
        bootstrapSuperuser).superuser = true := by
  refine ⟨by decide, by decide, by decide, by decide⟩

end System

end NusaDb.Rbac
