import PveMaster.Accounts.Service
import PveMaster.Foundation.Waiting

/-! The order in which the accounts' transactions lock their rows.

A login goes from its throttle to the user, a refresh and a logout from the token to the user. The
calls on a user lock the user first and their tokens and memberships afterwards, and so does a
refresh that has found its token used: tokens and memberships are asked for late. -/
namespace PveMaster.Accounts
open Prog AuthProg Locking Store

def Row.rank : Row → Nat
  | .throttle _ => 0
  | .token _ => 1
  | .user _ => 2
  | .member _ => 3

/-- What may be asked for after a user has been locked. -/
def Row.late : Row → Bool
  | .token _ => true
  | .member _ => true
  | _ => false

abbrev accountLocks : Locking AuthOp (Transaction AuthRequest Answer) (Store Db Row Flush AuthRequest) Row Nat :=
  Store.locking Row.rank

section Programs
variable {sec : Security} {α : Type} {top n : Nat}

abbrev Ordered (p : AuthProg α) (top : Nat) : Prop := accountLocks.Ranked Row.late p top

abbrev OnlyLate (n : Nat) (p : AuthProg α) : Prop := p.Only (accountLocks.Below Row.late n)

theorem late_read {q : Db → α} : OnlyLate n (AuthProg.read q) := only_op below_read

theorem late_call {c : AuthCall} {q : Draws → α} : OnlyLate n (call c q) := only_op below_call

theorem late_lockRows {row : Uuid → Row} {wanted : Uuid → Db → Bool} (hlate : ∀ id, (row id).late = true)
    (hn : ∀ id, (row id).rank < n) (ids : List Uuid) : OnlyLate n (lockRows row wanted ids) := by
  induction ids with
  | nil => trivial
  | cons id rest ih => exact only_bind (only_op (below_lock (hlate id) (hn id))) fun _ => only_bind ih fun _ => trivial

theorem late_updateTokens {p : RefreshToken → Bool} : OnlyLate 2 (updateTokens p) :=
  only_bind (only_op below_read) fun found =>
    only_bind (late_lockRows (fun _ => rfl) (fun _ => Nat.lt_succ_self 1) found) fun _ => trivial

theorem late_deleteMembers {userId : Uuid} : OnlyLate 4 (deleteMembers userId) :=
  only_bind (only_op below_read) fun found => late_lockRows (fun _ => rfl) (fun _ => Nat.lt_succ_self 3) found

theorem late_principal {claims : AccessClaims} : OnlyLate n (getCurrentPrincipal claims) :=
  only_bind late_read fun _ => trivial

theorem late_guardLast {removing : Bool} {count : Db → Nat} {done : String} :
    OnlyLate n (guardLast removing count done) := by
  unfold guardLast
  split
  · exact only_bind late_read fun _ => only_bind (p := ofExcept _) trivial fun _ => trivial
  · trivial

theorem late_verified {user : Option User} {password : String} : OnlyLate n (verified sec user password) := by
  unfold verified
  split
  · exact late_call
  · exact late_call

theorem late_selectToken {tokenHash : Digest} : OnlyLate 2 (selectTokenForUpdate tokenHash) := by
  refine only_bind late_read fun t => ?_
  split
  · trivial
  · exact only_op (below_lock rfl (Nat.lt_succ_self 1))

theorem ordered_login {email password source : String} : Ordered (login sec email password source) 0 := by
  refine ranked_quiet late_read fun now => ranked_lock (Nat.zero_le _) fun throttle => ?_
  split
  · exact ranked_quiet late_call fun _ => ranked_commit trivial
  · refine ranked_quiet late_read fun user => ranked_quiet late_verified fun passwordValid => ?_
    split
    · exact ranked_commit trivial
    · exact ranked_quiet late_call fun d => ranked_lock (Nat.le_succ 1) fun _ => ranked_commit trivial

theorem ordered_refresh {rawToken : String} : Ordered (refresh sec rawToken) 0 := by
  refine ranked_quiet late_read fun now => ranked_below 2 late_selectToken fun stored => ?_
  split
  · trivial
  refine ranked_lock (Nat.le_refl 2) fun user => ?_
  split
  · trivial
  split
  · exact ranked_below 2 late_updateTokens fun rows => ranked_commit trivial
  split
  · exact ranked_commit trivial
  · exact ranked_quiet late_call fun d => ranked_commit trivial

theorem ordered_logout {rawToken : String} : Ordered (logout sec rawToken) 0 := by
  refine ranked_quiet late_read fun now => ranked_quiet late_read fun stored => ?_
  split
  · trivial
  refine ranked_quiet late_read fun user => ranked_below 2 late_updateTokens fun rows => ?_
  split
  · exact ranked_commit trivial
  · exact ranked_lock (Nat.le_refl 2) fun _ => ranked_commit trivial

/-- `_get_user` is the first lock of the calls on a user. -/
theorem ordered_getUser {userId : Uuid} {f : User → AuthProg α} (hf : ∀ user, Ordered (f user) 3) :
    Ordered (getUser userId >>= f) 0 := by
  unfold getUser
  rw [bind_assoc]
  exact ranked_lock (Nat.zero_le _) fun user => ranked_ofExcept hf

/-- The rest of a call on a user whose tokens may be revoked. -/
theorem ordered_revoking {userId : Uuid} {w : List Uuid × List Uuid → Flush} :
    Ordered (updateTokens (ofUser userId) >>= fun rows => commit (w rows) >>= fun _ => pure AuthResponse.done) 3 :=
  ranked_below 2 late_updateTokens fun _ => ranked_commit trivial

theorem ordered_changePassword {claims : AccessClaims} {currentPassword newPassword : String} :
    Ordered (changePassword sec claims currentPassword newPassword) 0 := by
  refine ranked_quiet late_principal fun principal => ordered_getUser fun user => ?_
  refine ranked_quiet late_call fun valid => ranked_ofExcept fun _ => ?_
  exact ranked_quiet late_call fun d => ranked_quiet late_read fun now => ordered_revoking

theorem ordered_resetPassword {claims : AccessClaims} {userId : Uuid} {newPassword : String} :
    Ordered (resetPassword sec claims userId newPassword) 0 := by
  refine ranked_quiet late_principal fun principal => ranked_ofExcept fun _ => ordered_getUser fun user => ?_
  exact ranked_quiet late_call fun d => ranked_quiet late_read fun now => ordered_revoking

theorem ordered_updateUser {claims : AccessClaims} {userId : Uuid} {request : UserUpdate} :
    Ordered (updateUser claims userId request) 0 := by
  refine ranked_quiet late_principal fun principal => ranked_ofExcept fun _ => ordered_getUser fun user => ?_
  refine ranked_ofExcept fun _ => ranked_quiet late_guardLast fun counted => ?_
  refine ranked_quiet late_read fun disabled => ranked_quiet late_read fun revoked => ?_
  split
  · exact ranked_below 2 late_updateTokens fun rows => ranked_commit trivial
  · exact ranked_commit trivial

theorem ordered_deleteUser {claims : AccessClaims} {userId : Uuid} {version : Nat} :
    Ordered (deleteUser claims userId version) 0 := by
  refine ranked_quiet late_principal fun principal => ranked_ofExcept fun _ => ranked_ofExcept fun _ => ?_
  refine ordered_getUser fun user => ranked_ofExcept fun _ => ranked_quiet late_guardLast fun counted => ?_
  refine ranked_quiet late_read fun now => ranked_below 4 late_deleteMembers fun removed => ?_
  exact ranked_below 2 late_updateTokens fun rows => ranked_commit trivial

/-- **Every request** asks for its rows in this order. -/
theorem ordered_accounts (sec : Security) (m : AuthRequest) : Ordered ((accounts sec).program m) 0 := by
  have hprogram : Ordered (m.program sec) 0 := by
    cases m with
    | login email password source => exact ordered_login
    | refresh rawToken => exact ordered_refresh
    | logout rawToken => exact ordered_logout
    | changePassword claims currentPassword newPassword => exact ordered_changePassword
    | updateUser claims userId request => exact ordered_updateUser
    | deleteUser claims userId version => exact ordered_deleteUser
    | resetPassword claims userId newPassword => exact ordered_resetPassword
  refine ranked_andThen (ranked_andThen hprogram fun _ _ => trivial) fun r top => ?_
  cases r with
  | ok answer => exact ranked_only (n := 0) (only_op below_answer)
  | error e => trivial

end Programs

end PveMaster.Accounts
