import Crpg.Rules.Definitions

/-!
# Packages and the campaign lock

`crpg-data/src/package.rs`: a flat catalogue of exact package versions is resolved against a list of
requirements, and the result becomes the campaign's lock. What the code takes from the `semver`
crate is the structure `Semver`: a version prints as its text, precedence is a total preorder that
ignores build metadata, and a range matches versions. The digest of the assets lock is a parameter.
-/

set_option autoImplicit false

namespace Crpg.Data

open Crpg.Lib Crpg.Rules

/-! ### Versions -/

/-- What the code uses of semantic versions and ranges. -/
structure Semver where
  Version : Type
  VersionReq : Type
  toText : Version → String
  reqText : VersionReq → String
  cmpPrecedence : Version → Version → Ordering
  matchesVersion : VersionReq → Version → Bool
  toText_injective : Function.Injective toText
  swap_precedence : ∀ first second,
    (cmpPrecedence first second).swap = cmpPrecedence second first
  trans_precedence : ∀ first second third, cmpPrecedence first second ≠ .gt →
    cmpPrecedence second third ≠ .gt → cmpPrecedence first third ≠ .gt

/-- The three numbers of a version's text; its build metadata does not count. -/
def releaseNumbers (text : String) : ℕ ×ₗ ℕ ×ₗ ℕ :=
  match ((text.toList.takeWhile (· ≠ '+')).splitOn '.').map fun digits ↦
      digits.foldl (fun number digit ↦ number * 10 + (digit.toNat - 48)) 0 with
  | [major, minor, patch] => toLex (major, toLex (minor, patch))
  | _ => toLex (0, toLex (0, 0))

/-- Released versions by their numbers, and the ranges from a version on. -/
def Semver.released : Semver where
  Version := String
  VersionReq := String
  toText := id
  reqText lowest := ">=" ++ lowest
  cmpPrecedence first second := compare (releaseNumbers first) (releaseNumbers second)
  matchesVersion lowest version := releaseNumbers lowest ≤ releaseNumbers version
  toText_injective := Function.injective_id
  swap_precedence _ _ := Std.OrientedOrd.eq_swap.symm
  trans_precedence first second third hfirst hsecond := by
    rw [compare_le_iff_le] at hfirst hsecond ⊢
    exact hfirst.trans hsecond

def Semver.rank (semver : Semver) (first second : semver.Version) : Ordering :=
  (semver.cmpPrecedence first second).then
    (compare (semver.toText first) (semver.toText second))

abbrev PackageId := String

abbrev Digest := Vector UInt8 32

inductive PackageKind
  | campaign
  | module
  | ruleset
deriving DecidableEq

/-- One authored dependency constraint. -/
structure PackageRequirement (semver : Semver) where
  kind : PackageKind
  package : PackageId
  version : semver.VersionReq

/-- One entry of the catalogue. -/
structure PackageCandidate (semver : Semver) where
  kind : PackageKind
  package : PackageId
  version : semver.Version
  checksum : Digest

/-- A selected exact version. -/
structure ResolvedPackage (semver : Semver) where
  kind : PackageKind
  package : PackageId
  version : semver.Version
  checksum : Digest

structure CampaignLock (semver : Semver) where
  packages : List (ResolvedPackage semver)
  assetsLock : Digest
  note : Option String

structure AssetsLock (α : Type) where
  assets : BTreeMap String α
  note : Option String

/-- Why packages are not resolved or a lock is refused. -/
inductive PackageError
  | packageKindConflict (package : PackageId)
  | candidateConflict (package : PackageId) (version : String)
  | unresolvedPackage (package : PackageId) (requirements : List String)
  | invalidLock (message : String)
deriving DecidableEq

/-! ### Resolution -/

section Resolve

variable {semver : Semver}

/-- `grouped_requirements`: the requirements of each package, in order. -/
def groupedRequirements (requirements : List (PackageRequirement semver)) :
    BTreeMap PackageId (List (PackageRequirement semver)) :=
  requirements.foldl (fun grouped requirement ↦ grouped.insert requirement.package
    ((grouped.get? requirement.package).getD [] ++ [requirement])) .empty

def groupKind (group : List (PackageRequirement semver)) : Option PackageKind :=
  group.head?.map PackageRequirement.kind

def PackageCandidate.key (candidate : PackageCandidate semver) : PackageId ×ₗ String :=
  toLex (candidate.package, semver.toText candidate.version)

/-- The catalogue by key, and the keys in conflict. -/
structure Catalog (semver : Semver) where
  entries : BTreeMap (PackageId ×ₗ String) (PackageCandidate semver)
  conflicts : List (PackageId ×ₗ String)

/-- One candidate is entered, or compared with the first of its key. -/
def Catalog.register (catalog : Catalog semver) (candidate : PackageCandidate semver) :
    Catalog semver :=
  match catalog.entries.get? candidate.key with
  | some previous =>
    if previous.kind ≠ candidate.kind ∨ previous.checksum ≠ candidate.checksum then
      { catalog with conflicts := catalog.conflicts ++ [candidate.key] }
    else catalog
  | none => { catalog with entries := catalog.entries.insert candidate.key candidate }

def PackageCandidate.satisfies (candidate : PackageCandidate semver) (package : PackageId)
    (group : List (PackageRequirement semver)) : Bool :=
  candidate.package = package && groupKind group = some candidate.kind &&
    group.all fun requirement ↦ semver.matchesVersion requirement.version candidate.version

/-- The entry of a candidate in the lock. -/
def PackageCandidate.resolved (candidate : PackageCandidate semver) : ResolvedPackage semver :=
  ⟨candidate.kind, candidate.package, candidate.version, candidate.checksum⟩

def selectPackage (catalog : List (PackageCandidate semver))
    (entry : PackageId × List (PackageRequirement semver)) :
    Except PackageError (ResolvedPackage semver) :=
  match maxBy (fun first second ↦ semver.rank first.version second.version)
      (catalog.filter fun candidate ↦ candidate.satisfies entry.1 entry.2) with
  | none => .error (.unresolvedPackage entry.1
      (sortDedup (entry.2.map fun requirement ↦ semver.reqText requirement.version)))
  | some candidate =>
    .ok ⟨candidate.kind, entry.1, candidate.version, candidate.checksum⟩

def resolvePackages (requirements : List (PackageRequirement semver))
    (candidates : List (PackageCandidate semver)) :
    Except PackageError (List (ResolvedPackage semver)) :=
  let grouped := groupedRequirements requirements
  match grouped.entries.find? fun entry ↦
      entry.2.any fun requirement ↦ groupKind entry.2 ≠ some requirement.kind with
  | some entry => .error (.packageKindConflict entry.1)
  | none =>
    let catalog := candidates.foldl Catalog.register ⟨.empty, []⟩
    match (sortDedup catalog.conflicts).head? with
    | some key => .error (.candidateConflict (ofLex key).1 (ofLex key).2)
    | none => grouped.entries.mapM (selectPackage catalog.entries.values)

/-! ### Locks -/

/-- `validate_campaign_lock`: the packages ascend strictly. -/
def validateCampaignLock (lock : CampaignLock semver) : Except PackageError Unit :=
  if (lock.packages.zip lock.packages.tail).any fun pair ↦ pair.2.package ≤ pair.1.package then
    .error (.invalidLock "packages must be unique and strictly ascending by package id")
  else .ok ()

def lockedPackages (lock : CampaignLock semver) : BTreeMap PackageId (ResolvedPackage semver) :=
  lock.packages.foldl (fun locked package ↦ locked.insert package.package package) .empty

def coverId (grouped : BTreeMap PackageId (List (PackageRequirement semver)))
    (locked : BTreeMap PackageId (ResolvedPackage semver)) (id : PackageId) :
    Except PackageError Unit :=
  match grouped.get? id, locked.get? id with
  | none, _ => .error (.invalidLock s!"unexpected locked package: {id}")
  | some _, none => .error (.invalidLock s!"missing locked package: {id}")
  | some group, some package =>
    if group.any fun requirement ↦ requirement.kind ≠ package.kind ||
        !semver.matchesVersion requirement.version package.version then
      .error (.invalidLock s!"locked kind/version does not satisfy requirements: {id}")
    else .ok ()

/-- `validate_coverage`: every required package is locked in a version that satisfies it, and no
other package is. -/
def validateCoverage (requirements : List (PackageRequirement semver))
    (lock : CampaignLock semver) : Except PackageError Unit :=
  let grouped := groupedRequirements requirements
  let locked := lockedPackages lock
  (sortDedup (grouped.keys ++ locked.keys)).forM (coverId grouped locked)

/-- One path of the assets lock, after others. -/
def checkAssetPath (seen : List String) (path : String) : Except PackageError (List String) :=
  let folded := path.map Char.toLower
  if ¬path.startsWith "assets/" ∨ folded = "assets/assets.lock" then
    .error (.invalidLock s!"invalid asset root: {path}")
  else if folded ∈ seen then .error (.invalidLock s!"asset path case collision: {path}")
  else .ok (folded :: seen)

/-- `validate_assets_lock`: the roots of the assets, and no two paths that differ in case. -/
def validateAssetsLock {α : Type} (lock : AssetsLock α) : Except PackageError Unit :=
  (lock.assets.keys.foldlM checkAssetPath []).map fun _ ↦ ()

def makeCampaignLock {α : Type} (assetsLockDigest : AssetsLock α → Except PackageError Digest)
    (requirements : List (PackageRequirement semver))
    (candidates : List (PackageCandidate semver)) (assets : AssetsLock α) :
    Except PackageError (CampaignLock semver) :=
  (validateAssetsLock assets).bind fun _ ↦
  (resolvePackages requirements candidates).bind fun packages ↦
  (assetsLockDigest assets).bind fun digest ↦
    .ok ⟨packages, digest, none⟩

end Resolve

end Crpg.Data
