import PveMaster.Accounts.Epochs
import PveMaster.Accounts.Waiting
import PveMaster.Ipam.Screening
import PveMaster.Ipam.Waiting

/-! Who waits for whom.

The accounts lock tokens before users when a session goes on or ends, and users before tokens when a
user is changed. The addresses are locked after their allocations, but for the approval of a
release. -/
namespace PveMaster.Waiting
open Prog

/-- The accounts and the addresses, with their calls at once: the two parts of the platform whose
calls lock several rows each. -/
abbrev locked (sec : Accounts.Security) := (Accounts.accounts sec).machine.product Addresses.ipamMachine

abbrev locks := Accounts.accountLocks.product Addresses.addressLocks

/-- What is not asked for in the order of the tables: tokens and memberships, and allocations. -/
def late : Accounts.Row ⊕ Addresses.IpamRow → Bool := Sum.elim Accounts.Row.late Addresses.IpamRow.late

abbrev AccountsStore := Store Accounts.Db Accounts.Row Accounts.Flush Accounts.AuthRequest

abbrev LockedOp := SumOp Accounts.AuthOp Addresses.IpamOp

abbrev LockedTransaction := Transaction Accounts.AuthRequest Accounts.Answer ⊕ Transaction Addresses.IpamMessage Unit

abbrev LockedStore := AccountsStore × Addresses.IpamStore

abbrev LockedMessage := (Nat × Accounts.AuthRequest) ⊕ (Nat × Addresses.IpamMessage)

abbrev LockedAction := Action LockedStore (Accounts.Draws × Draws) LockedMessage

/-- The rest of the platform locks none of these rows, and releases none. -/
def inside : Conditions Exn LockedOp LockedTransaction LockedStore (Accounts.Draws × Draws) LockedMessage where
  env s s' := s'.1.holder = s.1.holder ∧ s'.2.holder = s.2.holder

instance (m : LockedMessage) (s : LockedStore) : Decidable (inside.spawn m s) := .isTrue trivial

instance (θ : LockedTransaction) (p : Prog Exn LockedOp Unit) (i : Accounts.Draws × Draws) (s : LockedStore) :
    Decidable (inside.step θ p i s) := .isTrue trivial

instance (θ : LockedTransaction) (p : Prog Exn LockedOp Unit) (s : LockedStore) : Decidable (inside.crash θ p s) :=
  .isTrue trivial

def unlocked (accounts : Accounts.Db) (db : Db) : Sys Exn LockedOp LockedTransaction LockedStore :=
  Sys.idle (Store.unlocked _ _ _ accounts, Store.unlocked _ _ _ db)

/-- The system a run ends in. -/
def reached (sec : Accounts.Security) (accounts : Accounts.Db) (db : Db) (actions : List LockedAction) :
    Sys Exn LockedOp LockedTransaction LockedStore :=
  runFrom (Sys.next (locked sec)) (unlocked accounts db) actions

theorem ordered_locked (sec : Accounts.Security) (m : LockedMessage) : locks.Ranked late ((locked sec).start m).2 0 := by
  cases m with
  | inl m => exact Locking.ranked_left (Accounts.ordered_accounts sec m.2)
  | inr m => exact Locking.ranked_right (Addresses.ordered_program m.2)

/-- **No circle of waiting transactions**, in a state that any run of the accounts and the addresses
reaches, as long as nobody waits for a token, a membership or an allocation while holding a row that is
not before it. -/
theorem waiting_acyclic (sec : Accounts.Security) (accounts : Accounts.Db) (db : Db) (actions : List LockedAction)
    (hnumbers : (spawned (locked sec) locks.name actions).Nodup)
    (hmet : Along (Sys.next (locked sec)) inside.Met (unlocked accounts db) actions)
    (hclear : locks.Clear late (reached sec accounts db actions)) : ¬ locks.Cyclic (reached sec accounts db actions) := by
  refine Locking.not_cyclic_run (Locking.lawful_product (Store.locking_lawful _ _) Addresses.addressLocks_lawful)
    (ordered_locked sec) (fun s s' he k x hk => ?_) (fun k => ?_) hnumbers hmet hclear
  · cases k with
    | inl k =>
      have hsame : s'.1.holder = s.1.holder := he.1
      have hk : (s'.1.holder k).map Sum.inl = some x := hk
      rwa [hsame] at hk
    | inr k =>
      have hsame : s'.2.holder = s.2.holder := he.2
      have hk : (s'.2.holder k).map Sum.inr = some x := hk
      rwa [hsame] at hk
  · cases k <;> rfl

/-! ### A token and its user -/

def lockedSteps (pid n : Nat) : List LockedAction := List.replicate n (.step pid ({}, Ipam.firstDraws))

/-- Bob's session goes on while Bob changes the password; of this, a number of statements. -/
def passwordMeanwhile (n : Nat) : List LockedAction :=
  .spawn 0 (.inl (0, .refresh "first")) :: lockedSteps 0 3 ++
    .spawn 1 (.inl (1, .changePassword ⟨2, 0⟩ "old" "new")) :: lockedSteps 1 n

/-! ### An address and its allocation -/

theorem rested_lt : (0xfe80 <<< 112) + 2 < 2 ^ Family.v6.bits := by decide

/-- An address that has rested long enough for its release to be approved, and its allocation. -/
def restedAddress : IpAddress where
  id := 30
  poolId := 7
  address := ⟨.v6, (0xfe80 <<< 112) + 2, rested_lt⟩
  state := .quarantined
  reservedFor := none
  quarantinedUntil := some 0
  lastAllocatedAt := some 0
  version := 3

def restedAllocation : IpAllocation where
  id := 31
  ipAddressId := 30
  workloadId := some 20
  provisioningRequestId := none
  kind := .manual
  status := .quarantined
  allocatedById := 1
  allocatedAt := 0
  confirmedAt := some 0
  releasedAt := some 0
  releaseReason := some "move"
  version := 2

def restedDb : Db :=
  { Db.empty with
    ipam := { Db.empty.ipam with
      pools := .single Ipam.linkLocalPool
      addresses := .single restedAddress
      allocations := .single restedAllocation } }

/-- The allocation is released once more while its release is approved; of this, a number of
statements. -/
def approvalMeanwhile (n : Nat) : List LockedAction :=
  .spawn 2 (.inr (2, ⟨Ipam.root, .release 31 "move"⟩)) :: lockedSteps 2 1 ++
    .spawn 3 (.inr (3, ⟨Ipam.root, .approveRelease 30⟩)) :: lockedSteps 3 n

/-- The session waits for the user, whom the change of the password has locked, and the release for the
address. -/
theorem meanwhile_acyclic :
    ¬ locks.Cyclic (reached Accounts.plainSecurity Accounts.plainDb restedDb
      (passwordMeanwhile 3 ++ approvalMeanwhile 1)) :=
  waiting_acyclic Accounts.plainSecurity Accounts.plainDb restedDb (passwordMeanwhile 3 ++ approvalMeanwhile 1)
    (by decide) (Conditions.along_inside (by decide +kernel)) (Locking.clear_of_started (by decide +kernel))

/-- The change of the password asks for the token of the session, and the approval for the allocation. -/
theorem meanwhile_cyclic :
    locks.Cyclic (reached Accounts.plainSecurity Accounts.plainDb restedDb (passwordMeanwhile 6)) ∧
      locks.Cyclic (reached Accounts.plainSecurity Accounts.plainDb restedDb (approvalMeanwhile 3)) := by
  refine ⟨Locking.cyclic_of_two (x := .inl 0) (y := .inl 1)
      ⟨.inl (.user 2), ⟨0, ?_⟩, ?_, by decide⟩ ⟨.inl (.token 5), ⟨1, ?_⟩, ?_, by decide⟩,
    Locking.cyclic_of_two (x := .inr 2) (y := .inr 3)
      ⟨.inr (.address 30), ⟨2, ?_⟩, ?_, by decide⟩ ⟨.inr (.allocation 31), ⟨3, ?_⟩, ?_, by decide⟩⟩
  all_goals decide +kernel

end PveMaster.Waiting
