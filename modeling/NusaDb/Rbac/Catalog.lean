import NusaDb.Lib.Worklist

/-!
# Roles, memberships and the resolved session

The role and membership catalogs and what `rbac.rs` reads off them: the roles a session holds, may
`SET ROLE` into and may administer, and whether it is a superuser. Both closures are one worklist
walk; the effective one stops at a role that does not inherit.
-/

namespace NusaDb.Rbac

/-- `BOOTSTRAP_SUPERUSER`: a superuser without a catalog row. -/
def bootstrapSuperuser : String := "nusadb-root"

def publicGrantee : String := "public"

inductive Error where
  | invalidStatement (message : String)
  | objectNotFound (message : String)
  | objectExists (message : String)
  | dependentObjects (message : String)
  | permissionDenied (message : String)
  deriving DecidableEq, Repr

structure RoleRecord where
  name : String
  superuser : Bool
  login : Bool
  createDb : Bool
  createRole : Bool
  inherit : Bool
  deriving DecidableEq, Repr

/-- One membership edge: the privileges of `role` flow to `member`. -/
structure MembershipRecord where
  role : String
  member : String
  admin : Bool
  deriving DecidableEq, Repr

structure Catalog where
  roles : List RoleRecord
  memberships : List MembershipRecord
  tables : List String := []
  owners : List (String × String) := []
  deriving DecidableEq, Repr

def eqIgnoreAsciiCase (a b : String) : Bool :=
  a.toList.map Char.toLower == b.toList.map Char.toLower

def validateRoleName (name : String) : Except Error Unit :=
  if name.isEmpty then
    .error (.invalidStatement "a role name may not be empty")
  else if eqIgnoreAsciiCase name publicGrantee then
    .error (.invalidStatement ("`public` is reserved for the pseudo-role every session belongs to " ++
      "and may not be created, altered, or dropped as a role"))
  else if eqIgnoreAsciiCase name bootstrapSuperuser then
    .error (.invalidStatement (s!"`{bootstrapSuperuser}` is reserved for the bootstrap superuser " ++
      "and may not be created, altered, or dropped as a role"))
  else .ok ()

namespace Catalog

def lookupRole (c : Catalog) (name : String) : Option RoleRecord :=
  c.roles.find? (·.name == name)

def insertRole (c : Catalog) (role : RoleRecord) : Catalog :=
  { c with roles := c.roles ++ [role] }

def deleteRoleRow (c : Catalog) (name : String) : Catalog :=
  { c with roles := c.roles.filter (·.name != name) }

/-- `update_role`: the rows of that name are deleted and the new one inserted. -/
def updateRole (c : Catalog) (role : RoleRecord) : Catalog :=
  (c.deleteRoleRow role.name).insertRole role

def deleteMembership (c : Catalog) (role member : String) : Catalog :=
  { c with memberships := c.memberships.filter fun e => !(e.role == role && e.member == member) }

/-- `insert_membership`: an existing edge is replaced. -/
def insertMembership (c : Catalog) (role member : String) (admin : Bool) : Catalog :=
  { c with memberships := (c.deleteMembership role member).memberships ++ [⟨role, member, admin⟩] }

def deleteMembershipsOf (c : Catalog) (name : String) : Catalog :=
  { c with memberships := c.memberships.filter fun e => !(e.role == name || e.member == name) }

/-- `object_owner` for a table: an unowned one belongs to the bootstrap superuser. -/
def objectOwner (c : Catalog) (object : String) : String :=
  ((c.owners.find? (·.1 == object)).map (·.2)).getD bootstrapSuperuser

def firstObjectOwnedBy (c : Catalog) (owner : String) : Option String :=
  c.tables.find? fun table => c.objectOwner table == owner

def roleExists (c : Catalog) (name : String) : Bool :=
  name == bootstrapSuperuser || (c.lookupRole name).isSome

def rolesOf (c : Catalog) (current : String) : List String :=
  (c.memberships.filter (·.member == current)).map (·.role)

def membersOf (c : Catalog) (current : String) : List String :=
  (c.memberships.filter (·.role == current)).map (·.member)

/-- The map is collected from the rows in order, so the last row of a name counts, and a role
without a row inherits. -/
def inherits (c : Catalog) (name : String) : Bool :=
  (((c.roles.filter (·.name == name)).getLast?).map (·.inherit)).getD true

def inheritedOf (c : Catalog) (current : String) : List String :=
  if c.inherits current then c.rolesOf current else []

/-- Each edge pushes its target once at most, so this many rounds empty the frontier. -/
def rounds (c : Catalog) : Nat := c.memberships.length + 1

def effectiveRoles (c : Catalog) (user : String) : List String :=
  Worklist.closure c.inheritedOf c.rounds user

/-- `membership_closure_from`: the same walk whatever the roles inherit. -/
def membershipClosure (c : Catalog) (user : String) : List String :=
  Worklist.closure c.rolesOf c.rounds user

/-- `would_create_cycle`: `role` is `member` or is found on the walk from `member` along the edges
from a role to its members. -/
def wouldCreateCycle (c : Catalog) (role member : String) : Bool :=
  role == member || (Worklist.closure c.membersOf c.rounds member).contains role

end Catalog

structure ResolvedSession where
  effective : List String
  assumable : List String
  superuser : Bool
  deriving DecidableEq, Repr

def Catalog.resolve (c : Catalog) (user : String) : ResolvedSession :=
  if user == bootstrapSuperuser then
    { effective := [user], assumable := [user], superuser := true }
  else
    { effective := c.effectiveRoles user
      assumable := c.membershipClosure user
      superuser := c.roles.any fun r => r.superuser && (c.effectiveRoles user).contains r.name }

def ResolvedSession.mayAssumeRole (s : ResolvedSession) (role : String) : Bool :=
  s.superuser || s.assumable.contains role

namespace Catalog

def mayAssumeRole (c : Catalog) (user role : String) : Bool :=
  (c.resolve user).mayAssumeRole role

def isSuperuser (c : Catalog) (user : String) : Bool := (c.resolve user).superuser

/-- Whether a role the session effectively holds has `CREATEROLE`. -/
def holdsCreateRole (c : Catalog) (user : String) : Bool :=
  c.roles.any fun r => r.createRole && (c.resolve user).effective.contains r.name

def mayCreateRole (c : Catalog) (user : String) : Bool :=
  (c.resolve user).superuser || c.holdsCreateRole user

/-- `may_administer_role`: only the role's own superuser attribute is looked at, not that of the
roles it is a member of. -/
def mayAdministerRole (c : Catalog) (user role : String) : Bool :=
  if (c.resolve user).superuser then true
  else if c.roles.any fun r => r.name == role && r.superuser then false
  else if c.holdsCreateRole user then true
  else c.memberships.any fun e =>
    e.role == role && e.admin && (c.resolve user).effective.contains e.member

end Catalog

namespace Catalog

variable {c : Catalog} {user role : String}

lemma mem_rolesOf : role ∈ c.rolesOf user ↔ ∃ e ∈ c.memberships, e.member = user ∧ e.role = role := by
  simp [rolesOf, and_assoc]

abbrev Reaches (c : Catalog) (user role : String) : Prop := Worklist.Reach c.rolesOf user role

lemma mem_membershipClosure : role ∈ c.membershipClosure user ↔ c.Reaches user role := by
  have hpool : ∀ a, ∀ b ∈ c.rolesOf a, b ∈ c.memberships.map (·.role) := by
    intro a b hb
    obtain ⟨e, he, -, rfl⟩ := mem_rolesOf.mp hb
    exact List.mem_map_of_mem he
  have h := Worklist.mem_closure hpool user role
  rwa [List.length_map] at h

lemma inheritedOf_subset (current : String) : ∀ b ∈ c.inheritedOf current, b ∈ c.rolesOf current := by
  intro b hb
  unfold inheritedOf at hb
  split at hb
  · exact hb
  · exact absurd hb List.not_mem_nil

lemma reaches_of_mem_effectiveRoles (h : role ∈ c.effectiveRoles user) : c.Reaches user role := by
  have hpool : ∀ a, ∀ b ∈ c.inheritedOf a, b ∈ c.memberships.map (·.role) := by
    intro a b hb
    obtain ⟨e, he, -, rfl⟩ := mem_rolesOf.mp (inheritedOf_subset a b hb)
    exact List.mem_map_of_mem he
  have hmem := Worklist.mem_closure hpool user role
  rw [List.length_map] at hmem
  exact Relation.ReflTransGen.mono inheritedOf_subset _ _ (hmem.mp h)

end Catalog

end NusaDb.Rbac
