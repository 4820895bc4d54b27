import PveMaster.Database
import PveMaster.Foundation.Versions

/-! `BackupService.update_target`, statement by statement.

The target is read without a lock, its version is compared, and the next one is written at the
commit. Between the two another update may have been committed. -/
namespace PveMaster.BackupTargets
open Prog

/-- A backup target with its version. -/
structure VersionedTarget extends BackupTarget where
  version : Nat
  deriving DecidableEq

instance : Keyed VersionedTarget Uuid := ⟨fun t => t.id⟩

structure TargetTables where
  targets : Table VersionedTarget
  auditLogs : List AuditLog

structure BackupTargetUpdate where
  isEnabled : Bool
  version : Nat

/-- A target as it was loaded and as it has been assigned, with the audit event. -/
structure TargetWrite where
  loaded : VersionedTarget
  current : VersionedTarget
  audit : AuditLog

/-- A row after the update of one that was loaded as `loaded`; the other columns are never assigned. -/
def flush (loaded current stored : VersionedTarget) : VersionedTarget :=
  { stored with
    isEnabled := written loaded.isEnabled current.isEnabled stored.isEnabled
    version := written loaded.version current.version stored.version }

/-- No constraint is on these columns. -/
def TargetWrite.apply (w : TargetWrite) (db : TargetTables) : Except Exn TargetTables :=
  .ok { targets := db.targets.update w.loaded.id (flush w.loaded w.current), auditLogs := db.auditLogs ++ [w.audit] }

/-- No row is ever selected for update. -/
abbrev TargetStatement : Type → Type := Statement TargetTables Uuid TargetWrite Unit Unit Exn Unit
abbrev TargetProg (α : Type) := Prog Exn TargetStatement α

def targetAudit (principal : Principal) (targetId : Uuid) : AuditLog where
  action := "BACKUP_TARGET_UPDATED"
  outcome := .succeeded
  actorUserId := some principal.userId
  actorRole := some principal.role
  organizationId := none
  workloadId := none
  operationId := none
  pveUpid := none
  resourceType := "backup_target"
  resourceId := some targetId
  errorCode := none

def assigned (payload : BackupTargetUpdate) (target : VersionedTarget) : VersionedTarget :=
  { target with isEnabled := payload.isEnabled, version := target.version + 1 }

def updateTarget (principal : Principal) (targetId : Uuid) (payload : BackupTargetUpdate) : TargetProg Unit := do
  ofExcept (requireServiceRole principal [.superAdmin])
  let target ← ofExcept (orRaise (← op (.read fun _ db => db.targets.get? targetId))
    (.app ⟨404, "BACKUP_TARGET_NOT_FOUND", "The backup target was not found.", []⟩))
  ofExcept (raiseIf (target.version ≠ payload.version)
    (.app ⟨409, "BACKUP_TARGET_VERSION_CONFLICT", "The backup target changed.", []⟩))
  perform (.commit ⟨target, assigned payload target, targetAudit principal target.id⟩ id)

structure TargetMessage where
  principal : Principal
  targetId : Uuid
  payload : BackupTargetUpdate

def targetSchema : Schema TargetTables Uuid TargetWrite Unit Unit Exn Unit TargetMessage where
  apply := TargetWrite.apply
  program m := updateTarget m.principal m.targetId m.payload

/-! ### Versions -/

def targetVersions : Versioned TargetTables Uuid TargetWrite TargetMessage where
  version k db := (db.targets.get? k).map VersionedTarget.version
  assigns w :=
    if w.current.version = w.loaded.version then none
    else some (w.loaded.id, w.loaded.version, w.current.version)
  carried m := some (m.targetId, m.payload.version)

theorem targetVersions_lawful : targetVersions.Lawful targetSchema where
  assigned w db db' k l a happly hassigns hthere := by
    cases happly
    have hassigns : (if w.current.version = w.loaded.version then none
      else some (w.loaded.id, w.loaded.version, w.current.version)) = some (k, l, a) := hassigns
    split at hassigns
    · cases hassigns
    next hne =>
    cases hassigns
    have hthere : ((db.targets.get? w.loaded.id).map VersionedTarget.version).isSome = true := hthere
    obtain ⟨t, ht⟩ := Option.isSome_iff_exists.mp (Option.isSome_map.symm.trans hthere)
    show ((db.targets.update w.loaded.id (flush w.loaded w.current)).get? w.loaded.id).map VersionedTarget.version = _
    rw [Table.get?_update_same ht rfl]
    exact congrArg some (written_of_ne t.version hne)
  others w db db' k n happly hnot hversion := by
    cases happly
    obtain ⟨t, ht, rfl⟩ := Option.map_eq_some_iff.mp hversion
    show ((db.targets.update w.loaded.id (flush w.loaded w.current)).get? k).map VersionedTarget.version = some t.version
    by_cases hk : k = w.loaded.id
    · subst hk
      have hsame : w.current.version = w.loaded.version := by
        by_contra hne
        exact hnot w.loaded.version w.current.version (if_neg hne)
      rw [Table.get?_update_same ht rfl]
      show some (written w.loaded.version w.current.version t.version) = some t.version
      rw [hsame, written_unchanged]
    · rw [Table.get?_update_of_ne _ hk, ht]
      rfl

/-- What an update commits is the version after the one it carries, of the target it is meant for. -/
theorem honest_updateTarget (m : TargetMessage) : targetVersions.Honest m (targetSchema.program m) := by
  refine Versioned.honest_ofExcept fun _ _ i db => Versioned.honest_ofExcept fun target htarget => ?_
  have hget : db.targets.get? m.targetId = some target := orRaise_ok.mp htarget
  refine Versioned.honest_ofExcept fun _ hversion => ⟨fun k l a ha => ?_, fun _ => trivial⟩
  have hassigns : (if target.version + 1 = target.version then none
    else some (target.id, target.version, target.version + 1)) = some (k, l, a) := ha
  rw [if_neg (Nat.succ_ne_self _)] at hassigns
  cases hassigns
  refine ⟨rfl, fun k' v hcarried => ?_⟩
  cases hcarried
  exact ⟨(Table.get?_key hget).symm, (not_not.mp (raiseIf_ok.mp hversion)).symm⟩

end PveMaster.BackupTargets
