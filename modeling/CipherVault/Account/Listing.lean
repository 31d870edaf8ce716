import CipherVault.Account.Grants
import CipherVault.Migrate.Classify

/-!
# Account.Listing

`list_secrets` of `services/account/src/secrets.rs`. The query takes the first rows by name; tag and
permission are looked at afterwards. `LIKE` on the escaped pattern is containment, whatever the case
of ASCII letters.
-/

namespace CipherVault.Account

open Crypto Network Migrate List

/-- A row of `secrets`, without the columns that are only shown. -/
structure SecretRow where
  (secretId tenantId projectId environmentId : Text)
  (repositoryBindingId serviceId : Option Text)
  name : Text
  tags : List Text
  status : Text
  deletedAtUtc : Option Nat
deriving DecidableEq

structure SecretListFilter where
  (projectId environmentId : Text)
  (tag status q : Option Text)
  limit : Int

def maxListLimit : Int := 500

def targetFromView (row : SecretRow) : AuthTarget :=
  ⟨row.tenantId, row.projectId, some row.environmentId, row.repositoryBindingId, row.serviceId⟩

section

variable (tables : PolicyTables) (claims : ScopeClaims) (attrs : RequestAttributes)
  (filter : SecretListFilter)

def mayRead (target : AuthTarget) : Bool := (tables.authorize claims .readMetadata target attrs).isOk

def listTarget : AuthTarget :=
  { tenantId := ((tables.projects.lookup filter.projectId).map ProjectRow.tenantId).getD []
    projectId := filter.projectId
    environmentId := some filter.environmentId
    repositoryBindingId := claims.repositoryBindingId
    serviceId := claims.serviceId }

def like (q name : Text) : Bool := trim q = [] ∨ Hex.lower (trim q) <:+: Hex.lower name

/-- The `WHERE` clause. -/
def selects (row : SecretRow) : Bool :=
  row.projectId = filter.projectId ∧ row.environmentId = filter.environmentId ∧ row.deletedAtUtc = none ∧
    filter.status.all (row.status = ·) ∧ filter.q.all (like · row.name) ∧
    (attrs.humanSession ∨ row.repositoryBindingId = claims.repositoryBindingId) ∧
    (attrs.humanSession ∨ row.serviceId = claims.serviceId)

def byName (rows : List SecretRow) : List SecretRow :=
  (sortBy (fun row : SecretRow => textKey row.name) rows).filter (selects claims attrs filter)

/-- What is asked of a row once it is fetched. -/
def keeps (row : SecretRow) : Bool :=
  mayRead tables claims attrs (targetFromView row) && filter.tag.all (row.tags.contains ·)

def SecretListFilter.rows : Nat := (max 1 (min filter.limit maxListLimit)).toNat

/-- None is the error `Denied`. -/
def listSecrets (rows : List SecretRow) : Option (List SecretRow) :=
  if mayRead tables claims attrs (listTarget tables claims filter) then
    some (((byName claims attrs filter rows).take filter.rows).filter (keeps tables claims attrs filter))
  else none

/-- The first rows in the order of names, among all that match. -/
def firstMatching (rows : List SecretRow) : List SecretRow :=
  ((byName claims attrs filter rows).filter (keeps tables claims attrs filter)).take filter.rows

end

/-- Filtering after a limit gives the first rows exactly when the limit cuts nothing off, or nothing
is filtered. -/
theorem filter_take_eq_iff {α : Type} (p : α → Bool) (n : Nat) (l : List α) :
    (l.take n).filter p = (l.filter p).take n ↔ (∀ a ∈ l.drop n, p a = false) ∨
    ∀ a ∈ l.take n, p a = true := by
  have hsp : l.filter p = (l.take n).filter p ++ (l.drop n).filter p := by
    rw [← filter_append, take_append_drop]
  have hle : ((l.take n).filter p).length ≤ n := (length_filter_le p _).trans (length_take_le n l)
  rw [hsp, take_append, take_of_length_le hle, self_eq_append_right, take_eq_nil_iff,
    filter_eq_nil_iff, or_comm]
  simp only [Bool.not_eq_true]
  refine or_congr_right' fun hla => ?_
  -- Something comes after the limit, so there are as many rows before it as it says.
  have hlen : (l.take n).length = n := by
    refine length_take_of_le (le_of_not_ge fun hshort => hla ?_)
    simp [drop_of_length_le hshort]
  rw [← length_filter_eq_length_iff, hlen]
  omega

/-- A listing is exact if and only if no matching row is beyond the limit, or no row within it fails
the tag. -/
theorem list_secrets_exact_iff (tables : PolicyTables) (claims : ScopeClaims) (attrs : RequestAttributes)
    (filter : SecretListFilter) (rows : List SecretRow) :
    listSecrets tables claims attrs filter rows = some (firstMatching tables claims attrs filter rows) ↔
      mayRead tables claims attrs (listTarget tables claims filter) = true ∧
        ((∀ row ∈ (byName claims attrs filter rows).drop filter.rows,
          keeps tables claims attrs filter row = false) ∨
          ∀ row ∈ (byName claims attrs filter rows).take filter.rows,
            keeps tables claims attrs filter row = true) := by
  rw [listSecrets, firstMatching, ← filter_take_eq_iff]
  split <;> simp [*]

namespace Tagged

open Grants

def secret (name : String) (tags : List Text) : SecretRow :=
  ⟨name.toList, "t".toList, "p".toList, "e".toList, none, none, name.toList, tags, "active".toList, none⟩

def tables : PolicyTables :=
  { twoAdmins with
    environments := (∅ : Dict Text EnvironmentRow).insert "e".toList ⟨"t".toList, "p".toList, 0, none⟩ }

def filter : SecretListFilter := ⟨"p".toList, "e".toList, some "x".toList, none, none, 1⟩

/-- The first secret does not have the tag, and the second one is not fetched. -/
theorem tagged_secret_missed :
    listSecrets tables (claimsOf "alice") human filter [secret "a" [], secret "b" ["x".toList]] = some [] ∧
      firstMatching tables (claimsOf "alice") human filter [secret "a" [], secret "b" ["x".toList]] =
        [secret "b" ["x".toList]] := by
  decide +kernel

end Tagged

end CipherVault.Account
