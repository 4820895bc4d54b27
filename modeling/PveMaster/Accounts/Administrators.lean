import PveMaster.Accounts.Epochs

/-! The last super administrator.

A call that takes a super administrator away counts them first, and locks none of those it
counts but its own. -/
namespace PveMaster.Accounts

variable {sec : Security} {db db' : Db} {m : AuthRequest} {w : Flush} {u : User}

/-- What `delete_user` counts. -/
def User.isAdmin (u : User) : Bool := u.role == .superAdmin && u.isActive && u.deletedAt.isNone

/-- The call demotes, deactivates or deletes a user who is an active super administrator, not deleted. -/
def AuthRequest.takesAdmin (db : Db) (m : AuthRequest) : Bool :=
  match m with
  | .updateUser _ userId _ | .deleteUser _ userId _ => (db.users.get? userId).any fun u => u.isAdmin && m.removes u
  | _ => false

/-- When a call that takes a super administrator away commits, there is another one. The guard has counted
before: it is not asked here, since the others can be gone by now. -/
def SparesAdmin (m : AuthRequest) (_ : Flush) (db : Db) : Prop := m.takesAdmin db = true → 1 < remainingSuperAdmins db

instance (m : AuthRequest) (w : Flush) (db : Db) : Decidable (SparesAdmin m w db) :=
  inferInstanceAs (Decidable (m.takesAdmin db = true → 1 < remainingSuperAdmins db))

theorem remaining_pos : 0 < remainingSuperAdmins db ↔ ∃ u ∈ db.users, u.isAdmin = true := by
  unfold remainingSuperAdmins
  rw [List.length_pos_iff_exists_mem]
  exact ⟨fun ⟨u, hu⟩ => ⟨u, Table.mem_select.mp hu⟩, fun ⟨u, hu⟩ => ⟨u, Table.mem_select.mpr hu⟩⟩

/-- Where there are two, there is one beside any given user. -/
theorem another_admin (h : 1 < remainingSuperAdmins db) (userId : Uuid) :
    ∃ u ∈ db.users, u.isAdmin = true ∧ u.id ≠ userId := by
  by_contra hall
  simp only [not_exists, not_and, not_not] at hall
  have hnodup := db.users.nodup_select (fun u => u.role == .superAdmin && u.isActive && u.deletedAt.isNone)
  have hmem : ∀ u ∈ db.users.select (fun u => u.role == .superAdmin && u.isActive && u.deletedAt.isNone),
      u ∈ db.users ∧ u.id = userId := by
    intro u hu
    obtain ⟨hmem, hadmin⟩ := Table.mem_select.mp hu
    exact ⟨hmem, hall u hmem hadmin⟩
  unfold remainingSuperAdmins at h
  generalize db.users.select (fun u => u.role == .superAdmin && u.isActive && u.deletedAt.isNone) = l at h hnodup hmem
  match l, h with
  | a :: b :: rest, _ =>
    obtain ⟨ha, hida⟩ := hmem a List.mem_cons_self
    obtain ⟨hb, hidb⟩ := hmem b (List.mem_cons_of_mem _ List.mem_cons_self)
    have hsame : a = b := Table.eq_of_key ha hb (hida.trans hidb.symm)
    rw [List.nodup_cons] at hnodup
    exact hnodup.1 (hsame ▸ List.mem_cons_self)

/-- A change of a super administrator that does not take them away. -/
theorem Edited.isAdmin {user' : User} (h : Edited sec u user' m) (hu : u.isAdmin = true)
    (hremoves : m.removes u = false) : user'.isAdmin = true := by
  simp only [User.isAdmin, Bool.and_eq_true, beq_iff_eq] at hu
  obtain ⟨⟨hrole, hactive⟩, hdeleted⟩ := hu
  cases m with
  | changePassword claims current new =>
    obtain ⟨-, -, salt, rfl⟩ := h
    simp [User.isAdmin, User.withPassword, hrole, hactive, hdeleted]
  | resetPassword claims userId new =>
    obtain ⟨-, salt, rfl⟩ := h
    simp [User.isAdmin, User.withPassword, hrole, hactive, hdeleted]
  | deleteUser claims userId version => simp [AuthRequest.removes, hrole, hactive] at hremoves
  | updateUser claims userId request =>
    obtain ⟨-, now, rfl⟩ := h
    simp only [AuthRequest.removes, UserUpdate.removesSuperAdmin, hrole, beq_self_eq_true, Bool.true_and,
      Bool.or_eq_false_iff] at hremoves
    obtain ⟨hsame, hstays⟩ := hremoves
    have hrole' : request.role.getD u.role = .superAdmin := by
      cases hr : request.role with
      | none => exact hrole
      | some role =>
        rw [hr] at hsame
        simpa using hsame
    have hactive' : request.isActive.getD u.isActive = true := by
      cases ha : request.isActive with
      | none => exact hactive
      | some active =>
        rw [ha] at hstays
        simpa using hstays
    simp [User.isAdmin, hrole', hactive', hdeleted]
  | login | refresh | logout => exact h.elim

theorem Edited.takesAdmin {user' : User} (h : Edited sec u user' m) (hu : u ∈ db.users) (hadmin : u.isAdmin = true)
    (hremoves : m.removes u = true) : m.takesAdmin db = true := by
  have hget : (db.users.get? u.id).any (fun u => u.isAdmin && m.removes u) = true := by
    have hfound : db.users.get? u.id = some u := Table.get?_of_mem hu
    rw [hfound, Option.any_some, hadmin, hremoves, Bool.and_self]
  cases m with
  | updateUser claims userId request | deleteUser claims userId version =>
    obtain ⟨hid, -⟩ := h
    rw [hid] at hget
    exact hget
  | login | refresh | logout | changePassword | resetPassword => cases hremoves

/-- What the guard has counted is enough where none of them has gone since. -/
theorem sparesAdmin_of_counted (h : Legal sec db m w) (hcounted : ∀ n ∈ w.counted, n ≤ remainingSuperAdmins db) :
    SparesAdmin m w db := by
  intro htakes
  cases h with
  | @changed _ user user' rows now removed counted audit hcurrent hpresent hedited hrevokes hguarded =>
    have hremoves : m.removes user = true := by
      cases m with
      | updateUser claims userId request | deleteUser claims userId version =>
        obtain ⟨rfl, -⟩ := hedited
        obtain ⟨u, hget, htaken⟩ := (Option.any_eq_true _ _).mp htakes
        cases hget.symm.trans hcurrent
        exact ((Bool.and_eq_true _ _).mp htaken).2
      | login | refresh | logout | changePassword | resetPassword => cases htakes
    obtain ⟨n, hn, htwo⟩ := hguarded hremoves
    exact htwo.trans_le (hcounted n hn)
  | _ => cases htakes

/-- **One commit** leaves a super administrator. -/
theorem admin_remains (h : Legal sec db m w) (hspares : SparesAdmin m w db) (hf : Flushed w db db')
    (hsome : 0 < remainingSuperAdmins db) : 0 < remainingSuperAdmins db' := by
  obtain ⟨u, hu, hadmin⟩ := remaining_pos.mp hsome
  have stays {v v' : User} (hv : v ∈ db.users) (he : w.onUser v = v') (hadmin : v'.isAdmin = true) :
      0 < remainingSuperAdmins db' := by
    refine remaining_pos.mpr ⟨v', ?_, hadmin⟩
    have hget : db.users.get? v.id = some v := Table.get?_of_mem hv
    have hget' := hf.user v.id
    rw [hget, Option.map_some, he] at hget'
    exact Table.get?_mem hget'
  have hchange := h.user hu
  generalize he : w.onUser u = u' at hchange
  cases hchange with
  | kept | reused | loggedOut => exact stays hu he hadmin
  | edited _ hpresent hedited hwrite hrevokes hguarded =>
    cases hremoves : m.removes u with
    | false => exact stays hu he (hedited.isAdmin hadmin hremoves)
    | true =>
      obtain ⟨v, hv, hvadmin, hne⟩ := another_admin (hspares (hedited.takesAdmin hu hadmin hremoves)) u.id
      have hkept : w.onUser v = v := by
        unfold Flush.onUser
        rw [hwrite]
        exact if_neg hne
      exact stays hv hkept hvadmin

/-- **A super administrator always remains**, if none is taken away at a commit that finds no other. -/
theorem super_admin_remains {actions : List AuthAction} (run : AuthRun sec (fun _ => True) SparesAdmin db actions)
    (hsome : 0 < remainingSuperAdmins db) : 0 < remainingSuperAdmins (after sec db actions).db := by
  have run' : AuthRun sec (fun _ => True) SparesAdmin db ([] ++ actions) := run
  exact run_keeps run' (fun c db db' log _ h _ hspares hlegal _ hf => admin_remains hlegal hspares hf h)
    (fun _ _ _ h => h) hsome

/-- Two super administrators. -/
def adminsDb : Db := plainTables ⟨[plainUser 1 "root@pve" .superAdmin, plainUser 2 "bob@pve" .customer,
  plainUser 3 "eve@pve" .superAdmin], by decide⟩

theorem adminsDb_sound : Sound adminsDb := plainTables_sound rfl rfl

def demotion : UserUpdate where
  displayName := none
  role := some .operator
  isActive := none
  version := none

/-- Root demotes Eve. -/
def demotionRun : List AuthAction := .spawn 0 (0, .updateUser ⟨1, 0⟩ 3 demotion) :: steps 0 8 {}

theorem demotion_leaves_root : 0 < remainingSuperAdmins (after plainSecurity adminsDb demotionRun).db :=
  super_admin_remains (checked_run adminsDb_sound (by decide) (by decide) (by decide +kernel)) (by decide)

/-- Root demotes Eve and, at the same time, themselves. -/
def demotions : List AuthAction :=
  .spawn 0 (0, .updateUser ⟨1, 0⟩ 3 demotion) :: steps 0 3 {} ++
    .spawn 1 (1, .updateUser ⟨1, 0⟩ 1 demotion) :: steps 1 8 {} ++ steps 0 5 {}

/-- Both calls have counted two. -/
theorem demotions_leave_none :
    AuthRun plainSecurity (fun _ => True) (fun _ _ _ => True) adminsDb demotions ∧
      0 < remainingSuperAdmins adminsDb ∧
      ¬ 0 < remainingSuperAdmins (after plainSecurity adminsDb demotions).db :=
  ⟨checked_run adminsDb_sound (by decide) (by decide) (by decide +kernel), by decide, by decide +kernel⟩

end PveMaster.Accounts
