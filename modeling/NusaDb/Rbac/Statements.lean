import NusaDb.Lib.Fallible
import NusaDb.Rbac.Catalog

/-!
# The role statements

The analyzer's checks, the executor, and the connections. A plan carries its statement's own fields,
so one type stands for both. Every statement runs as the connection's assumed role, except
`SET ROLE`, which is authorized against the login role.
-/

namespace NusaDb.Rbac

structure RoleOptions where
  superuser : Option Bool := none
  login : Option Bool := none
  createDb : Option Bool := none
  createRole : Option Bool := none
  inherit : Option Bool := none
  deriving DecidableEq, Repr

inductive Statement where
  | grantRole (roles members : List String) (withAdminOption : Bool)
  | revokeRole (roles members : List String) (adminOptionFor : Bool)
  | createRole (name : String) (ifNotExists : Bool) (options : RoleOptions) (inRole : List String)
  | dropRole (names : List String) (ifExists : Bool)
  | alterRole (name : String) (options : RoleOptions)
  | setRole (role : Option String)
  deriving DecidableEq, Repr

def require (ok : Bool) (error : Error) : Except Error Unit :=
  if ok then .ok () else .error error

def requireAll (ok : String → Bool) (error : String → Error) : List String → Except Error Unit
  | [] => .ok ()
  | name :: names => do
    require (ok name) (error name)
    requireAll ok error names

lemma require_ok {ok : Bool} {error : Error} (h : require ok error = .ok ()) : ok = true := by
  cases ok with
  | true => rfl
  | false => cases h

lemma require_bind_ok {α : Type} {ok : Bool} {error : Error} {next : Unit → Except Error α}
    {result : α} (h : (require ok error >>= next) = .ok result) :
    ok = true ∧ next () = .ok result := by
  cases ok with
  | true => exact ⟨rfl, h⟩
  | false => cases h

lemma requireAll_ok {ok : String → Bool} {error : String → Error} {names : List String}
    (h : requireAll ok error names = .ok ()) : ∀ name ∈ names, ok name = true := by
  induction names with
  | nil => exact fun _ h => absurd h List.not_mem_nil
  | cons name names ih =>
    obtain ⟨hname, hrest⟩ := require_bind_ok h
    exact List.forall_mem_cons.mpr ⟨hname, ih hrest⟩

namespace Catalog

def roleMissing (role : String) : Error := .objectNotFound s!"role `{role}` does not exist"

def analyzeGrantRole (c : Catalog) (user : String) (roles members : List String) :
    Except Error Unit := do
  requireAll c.roleExists roleMissing (roles ++ members)
  requireAll (c.mayAdministerRole user) (fun role => .permissionDenied
    (s!"cannot grant membership in role `{role}` — the session is neither a superuser, a " ++
      "CREATEROLE role, nor a member of it WITH ADMIN OPTION")) roles

def analyzeRevokeRole (c : Catalog) (user : String) (roles members : List String) :
    Except Error Unit := do
  requireAll c.roleExists roleMissing (roles ++ members)
  requireAll (c.mayAdministerRole user) (fun role => .permissionDenied
    (s!"cannot revoke membership in role `{role}` — the session is neither a superuser, a " ++
      "CREATEROLE role, nor a member of it WITH ADMIN OPTION")) roles

/-- `analyze_create_role`: the roles named in `IN ROLE` need not exist. -/
def analyzeCreateRole (c : Catalog) (user name : String) (options : RoleOptions)
    (inRole : List String) : Except Error Unit := do
  validateRoleName name
  require (c.mayCreateRole user)
    (.permissionDenied "CREATE ROLE requires a superuser or a role with CREATEROLE")
  require (!(options.superuser == some true && !c.isSuperuser user))
    (.permissionDenied "only a superuser may create a superuser role")
  requireAll (c.mayAdministerRole user) (fun role => .permissionDenied
    s!"cannot add the new role to `{role}` — the session may not administer that role") inRole

def analyzeDropRole (c : Catalog) (user : String) : List String → Except Error Unit
  | [] => .ok ()
  | name :: names => do
    validateRoleName name
    require (c.mayAdministerRole user name) (.permissionDenied
      s!"cannot drop role `{name}` — requires a superuser or a role with CREATEROLE")
    analyzeDropRole c user names

def analyzeAlterRole (c : Catalog) (user name : String) (options : RoleOptions) :
    Except Error Unit := do
  validateRoleName name
  require (c.mayAdministerRole user name) (.permissionDenied
    s!"cannot alter role `{name}` — requires a superuser or a role with CREATEROLE")
  require (!(options.superuser.isSome && !c.isSuperuser user))
    (.permissionDenied "only a superuser may change the SUPERUSER attribute")

def roleNotAssumable (role : String) : Error := .permissionDenied
  s!"cannot SET ROLE to `{role}` — the session is not a member of it"

def analyzeSetRole (c : Catalog) (user : String) : Option String → Except Error Unit
  | none => .ok ()
  | some role => do
    require (c.roleExists role) (roleMissing role)
    require (c.mayAssumeRole user role) (roleNotAssumable role)

/-- What the analyzer requires of a statement run as `user`. -/
def analyze (c : Catalog) (user : String) : Statement → Except Error Unit
  | .grantRole roles members _ => c.analyzeGrantRole user roles members
  | .revokeRole roles members _ => c.analyzeRevokeRole user roles members
  | .createRole name _ options inRole => c.analyzeCreateRole user name options inRole
  | .dropRole names _ => c.analyzeDropRole user names
  | .alterRole name options => c.analyzeAlterRole user name options
  | .setRole role => c.analyzeSetRole user role

def pairs (roles members : List String) : List (String × String) :=
  roles.flatMap fun role => members.map fun member => (role, member)

/-- `run_grant_role`: each edge is checked against the memberships the previous ones left. -/
def runGrantRole (withAdminOption : Bool) : Catalog → List (String × String) → Except Error Catalog
  | c, [] => .ok c
  | c, (role, member) :: rest =>
    if c.wouldCreateCycle role member then
      .error (.invalidStatement
        s!"granting `{role}` to `{member}` would create a membership cycle")
    else runGrantRole withAdminOption (c.insertMembership role member withAdminOption) rest

/-- One pair of `run_revoke_role`: `ADMIN OPTION FOR` keeps the membership. -/
def revokeEdge (adminOptionFor : Bool) (c : Catalog) (edge : String × String) : Catalog :=
  if adminOptionFor then
    if c.memberships.any fun e => e.role == edge.1 && e.member == edge.2 then
      c.insertMembership edge.1 edge.2 false
    else c
  else c.deleteMembership edge.1 edge.2

def runRevokeRole (adminOptionFor : Bool) (c : Catalog) (edges : List (String × String)) : Catalog :=
  edges.foldl (revokeEdge adminOptionFor) c

def runCreateRole (c : Catalog) (name : String) (ifNotExists : Bool) (options : RoleOptions)
    (inRole : List String) : Except Error Catalog :=
  if (c.lookupRole name).isSome then
    if ifNotExists then .ok c
    else .error (.objectExists s!"role `{name}` already exists")
  else
    let created := c.insertRole
      { name := name
        superuser := options.superuser.getD false
        login := options.login.getD false
        createDb := options.createDb.getD false
        createRole := options.createRole.getD false
        inherit := options.inherit.getD true }
    .ok (inRole.foldl (fun c role => c.insertMembership role name false) created)

/-- `run_drop_role`. The grants a dropped role held are not read by any role statement. -/
def runDropRole (ifExists : Bool) : Catalog → List String → Except Error Catalog
  | c, [] => .ok c
  | c, name :: names =>
    if (c.lookupRole name).isNone then
      if ifExists then runDropRole ifExists c names else .error (roleMissing name)
    else match c.firstObjectOwnedBy name with
      | some object => .error (.dependentObjects
          (s!"cannot drop role `{name}`: it still owns `{object}` — reassign or drop the " ++
            "objects it owns first"))
      | none => runDropRole ifExists ((c.deleteMembershipsOf name).deleteRoleRow name) names

def runAlterRole (c : Catalog) (name : String) (options : RoleOptions) : Except Error Catalog :=
  match c.lookupRole name with
  | none => .error (roleMissing name)
  | some record => .ok (c.updateRole
      { record with
        superuser := options.superuser.getD record.superuser
        login := options.login.getD record.login
        createDb := options.createDb.getD record.createDb
        createRole := options.createRole.getD record.createRole
        inherit := options.inherit.getD record.inherit })

/-- `run_set_role`: the membership is checked again. -/
def runSetRole (c : Catalog) (actor : String) : Option String → Except Error (Option String)
  | none => .ok none
  | some role => do
    require (c.mayAssumeRole actor role) (roleNotAssumable role)
    .ok (some role)

def run (c : Catalog) : Statement → Except Error Catalog
  | .grantRole roles members withAdminOption => runGrantRole withAdminOption c (pairs roles members)
  | .revokeRole roles members adminOptionFor =>
    .ok (runRevokeRole adminOptionFor c (pairs roles members))
  | .createRole name ifNotExists options inRole => c.runCreateRole name ifNotExists options inRole
  | .dropRole names ifExists => runDropRole ifExists c names
  | .alterRole name options => c.runAlterRole name options
  | .setRole _ => .ok c

end Catalog

structure Connection where
  login : String
  assumed : Option String := none
  deriving DecidableEq, Repr

/-- `effective_user`: the role a statement runs as. -/
def Connection.current (conn : Connection) : String := conn.assumed.getD conn.login

structure System where
  catalog : Catalog
  connections : List Connection
  deriving DecidableEq, Repr

namespace System

/-- A statement on connection `i`: analyzed, then executed. -/
def execute (s : System) (i : Nat) (stmt : Statement) : Except Error System :=
  match s.connections[i]? with
  | none => .ok s
  | some conn => match stmt with
    | .setRole role => do
      s.catalog.analyze conn.login (.setRole role)
      let assumed ← s.catalog.runSetRole conn.login role
      .ok { s with connections := s.connections.set i { conn with assumed := assumed } }
    | stmt => do
      s.catalog.analyze conn.current stmt
      let catalog ← s.catalog.run stmt
      .ok { s with catalog := catalog }

def step (s : System) (call : Nat × Statement) : System :=
  match s.execute call.1 call.2 with
  | .ok s' => s'
  | .error _ => s

def runCalls (s : System) (calls : List (Nat × Statement)) : System := calls.foldl step s

end System

end NusaDb.Rbac
