import PveMaster.Foundation.RelyGuarantee

/-! Transactions over one database, at the isolation level READ COMMITTED.

A statement sees what is committed when it starts. What a transaction writes is its own
until it commits, so a program hands all of it to its commit (`Statement.commit`). A row
that is selected for update, or that an update writes, is locked until the transaction
ends, and a statement that needs a locked row waits: it then sees the row as it is
committed by then, and keeps the lock if it still wants it (`Statement.lock`). A
transaction that ends otherwise, also the victim of a deadlock, leaves nothing behind but
its locks, and these are released.

`Rules` says what the commits of a system do, so that a transaction can rely on the rows it
has locked. `Crew` is a protocol of processes that are told apart by a name, here the
number of the transaction. -/
namespace PveMaster

/-- A transaction that has been committed: its number, its request and what it wrote. The log of
these is a history for theorems to speak of; no transaction can read it. -/
structure Committed (W μ : Type) where
  xid : Nat
  request : μ
  write : W
  deriving DecidableEq

/-- The committed rows, the transaction that holds the lock of a row, and what has been committed,
in its order. What a transaction has written and not committed is in its program, not here. -/
structure Store (D K W μ : Type) where
  db : D
  holder : K → Option Nat
  log : List (Committed W μ)

/-- What a transaction can do at once. Two statements of one transaction can have any number of
statements of others between them. -/
inductive Statement (D K W X A E ι : Type) (ρ : Type) where
  | read (q : ι → D → ρ)
  /-- `SELECT … FOR UPDATE` of one row, or an update of it: `wanted` is its condition. -/
  | lock (row : K) (wanted : D → Bool) (q : D → ρ)
  /-- The commit of everything that has been written. -/
  | commit (w : W) (k : Except E Unit → ρ)
  /-- Something outside the database. -/
  | call (x : X) (k : ι → ρ)
  | answer (a : A) (k : Unit → ρ)

/-- A transaction knows its number, the request it serves and what it has answered. -/
structure Transaction (μ A : Type) where
  xid : Nat
  request : μ
  answer : Option A := none

/-- What commits do to the rows, and the programs of the requests. A commit can be refused, as a
constraint does, and the transaction then goes on with the error. -/
structure Schema (D K W X A E ι μ : Type) where
  apply : W → D → Except E D
  program : μ → Prog E (Statement D K W X A E ι) Unit

namespace Store
variable {D K W μ : Type}

/-- The end of a transaction as the others see it: nothing of it is locked any more. -/
def release (s : Store D K W μ) (x : Nat) : Store D K W μ :=
  { s with holder := fun row => if s.holder row = some x then none else s.holder row }

def take [DecidableEq K] (s : Store D K W μ) (row : K) (x : Nat) : Store D K W μ :=
  { s with holder := fun r => if r = row then some x else s.holder r }

/-- What a commit leaves: its locks are released, and it is the last one of the log. -/
def commit (s : Store D K W μ) (db : D) (c : Committed W μ) : Store D K W μ :=
  { s with db := db, log := s.log ++ [c] }.release c.xid

@[simp] theorem release_db (s : Store D K W μ) (x : Nat) : (s.release x).db = s.db := rfl

@[simp] theorem release_log (s : Store D K W μ) (x : Nat) : (s.release x).log = s.log := rfl

@[simp] theorem take_db [DecidableEq K] (s : Store D K W μ) (row : K) (x : Nat) :
    (s.take row x).db = s.db := rfl

@[simp] theorem take_log [DecidableEq K] (s : Store D K W μ) (row : K) (x : Nat) :
    (s.take row x).log = s.log := rfl

@[simp] theorem commit_db (s : Store D K W μ) (db : D) (c : Committed W μ) : (s.commit db c).db = db := rfl

@[simp] theorem commit_log (s : Store D K W μ) (db : D) (c : Committed W μ) :
    (s.commit db c).log = s.log ++ [c] := rfl

theorem release_other {s : Store D K W μ} {x y : Nat} (hne : y ≠ x) {row : K} (h : s.holder row = some y) :
    (s.release x).holder row = some y := by
  show (if s.holder row = some x then none else s.holder row) = some y
  rw [if_neg, h]
  rw [h]
  exact fun he => hne (Option.some.inj he)

theorem take_other [DecidableEq K] {s : Store D K W μ} {x : Nat} {row r : K} (h : r ≠ row) :
    (s.take row x).holder r = s.holder r := if_neg h

@[simp] theorem take_same [DecidableEq K] (s : Store D K W μ) (row : K) (x : Nat) :
    (s.take row x).holder row = some x := if_pos rfl

end Store

/-- A store nobody has locked a row of. -/
def Store.unlocked {D : Type} (K W μ : Type) (db : D) : Store D K W μ := ⟨db, fun _ => none, []⟩

section Machine
variable {D K W X A E ι μ : Type} [DecidableEq K]

/-- The transactions of a schema as processes. A statement that asks for a row somebody else has
locked has no result, so its transaction stays where it is, and the row is looked at again when it
gets it. -/
def Schema.machine (S : Schema D K W X A E ι μ) :
    Machine E (Statement D K W X A E ι) (Transaction μ A) (Store D K W μ) ι (Nat × μ) where
  exec o i θ s :=
    match o with
    | .read q => some (θ, s, q i s.db)
    | .lock row wanted q =>
      match s.holder row with
      | some y => if y = θ.xid then some (θ, s, q s.db) else none
      | none => some (θ, if wanted s.db then s.take row θ.xid else s, q s.db)
    | .commit w k =>
      match S.apply w s.db with
      | .ok db => some (θ, s.commit db ⟨θ.xid, θ.request, w⟩, k (.ok ()))
      | .error e => some (θ, s.release θ.xid, k (.error e))
    | .call _ k => some (θ, s, k i)
    | .answer a k => some ({ θ with answer := some a }, s, k ())
  start m := (⟨m.1, m.2, none⟩, S.program m.2)
  drop θ s := s.release θ.xid

end Machine

section Exec
variable {D K W X A E ι μ ρ : Type} [DecidableEq K] {S : Schema D K W X A E ι μ}

/-- A transaction keeps its number and its request. -/
theorem exec_transaction {o : Statement D K W X A E ι ρ} {i : ι} {θ θ' : Transaction μ A}
    {s s' : Store D K W μ} {r : ρ} (h : S.machine.exec o i θ s = some (θ', s', r)) :
    θ'.xid = θ.xid ∧ θ'.request = θ.request := by
  cases o with
  | read q | call c k | answer a k =>
    cases h
    exact ⟨rfl, rfl⟩
  | lock row wanted q =>
    simp only [Schema.machine] at h
    split at h
    · split at h
      · cases h
        exact ⟨rfl, rfl⟩
      · cases h
    · cases h
      exact ⟨rfl, rfl⟩
  | commit w k =>
    simp only [Schema.machine] at h
    split at h
    · cases h
      exact ⟨rfl, rfl⟩
    · cases h
      exact ⟨rfl, rfl⟩

end Exec

/-! ### What a transaction may rely on -/

/-- What the commits of a system keep to: `Same row` is what stays of a row that another
transaction has locked, `Change` what a commit does, `Sound` what holds between commits, a commit
`fits` the state it is made in, and `Outside` is what the rest of the world does. -/
structure Rules (D K W μ : Type) where
  Same : K → D → D → Prop
  Change : μ → W → D → D → Prop
  Sound : D → Prop
  fits : μ → W → D → Prop := fun _ _ _ => True
  Outside : D → D → Prop

namespace Rules
variable {D K W μ : Type}

/-- What one action makes of the database. -/
inductive Moves (R : Rules D K W μ) (db db' : D) : Prop
  | commit (m : μ) (w : W) (h : R.Change m w db db')
  | outside (h : R.Outside db db')

/-- What any number of actions make of it: how the database may look when a transaction looks at
it again, its own locks apart. -/
def Later (R : Rules D K W μ) : D → D → Prop := Relation.ReflTransGen R.Moves

/-- Rules that can be relied on: leaving a row alone can be put together from smaller steps, and
the outside world leaves locked rows alone and the database sound. -/
structure Lawful (R : Rules D K W μ) : Prop where
  same_refl : ∀ row db, R.Same row db db
  same_trans : ∀ row db db' db'', R.Same row db db' → R.Same row db' db'' → R.Same row db db''
  outside : ∀ db db', R.Sound db → R.Outside db db' → R.Sound db' ∧ ∀ row, R.Same row db db'

/-- What a transaction does to the store: nothing but locks, or a commit. -/
inductive Writes (R : Rules D K W μ) (x : Nat) (s s' : Store D K W μ) : Prop
  | nothing (db : s'.db = s.db) (log : s'.log = s.log)
  | commit (m : μ) (w : W) (change : R.Change m w s.db s'.db) (log : s'.log = s.log ++ [⟨x, m, w⟩])

end Rules

section Contract
variable {D K W X A E ι μ α β ρ : Type}

/-- The contract of one transaction: the rows it has locked stay, and it leaves those of the
others. -/
def Rules.contract (R : Rules D K W μ) (x : Nat) :
    Contract (Statement D K W X A E ι) (Transaction μ A) (Store D K W μ) ι where
  may o _ θ s := R.Sound s.db ∧
    match o with
    | .commit w _ => R.fits θ.request w s.db
    | _ => True
  rely s s' := (∀ row, s.holder row = some x → s'.holder row = some x ∧ R.Same row s.db s'.db) ∧
    R.Later s.db s'.db
  guar s s' := (∀ row y, y ≠ x → s.holder row = some y →
    s'.holder row = some y ∧ R.Same row s.db s'.db) ∧ R.Writes x s s' ∧ (R.Sound s.db → R.Sound s'.db)

/-- The commits of a run fit the states they are made in. -/
def Rules.conditions (R : Rules D K W μ) :
    Conditions E (Statement D K W X A E ι) (Transaction μ A) (Store D K W μ) ι (Nat × μ) where
  step θ p _ s :=
    match p with
    | .node (.commit w _) _ => R.fits θ.request w s.db
    | _ => True
  env s s' := s'.holder = s.holder ∧ s'.log = s.log ∧ R.Outside s.db s'.db

variable {R : Rules D K W μ}

theorem Rules.Lawful.closed (hR : R.Lawful) (x : Nat) :
    (R.contract x : Contract (Statement D K W X A E ι) (Transaction μ A) (Store D K W μ) ι).Closed where
  refl s := ⟨fun row h => ⟨h, hR.same_refl row s.db⟩, Relation.ReflTransGen.refl⟩
  trans s s' s'' h h' := by
    refine ⟨fun row hrow => ?_, Relation.ReflTransGen.trans h.2 h'.2⟩
    obtain ⟨hrow', hsame⟩ := h.1 row hrow
    obtain ⟨hrow'', hsame'⟩ := h'.1 row hrow'
    exact ⟨hrow'', hR.same_trans _ _ _ _ hsame hsame'⟩

/-- What a transaction owes for a commit: it leaves the rows that others have locked, does what
the rules allow its request, and leaves the database sound. -/
structure Rules.Commits (R : Rules D K W μ) (x : Nat) (m : μ) (w : W) (s : Store D K W μ) (db : D) : Prop where
  others : ∀ row y, y ≠ x → s.holder row = some y → R.Same row s.db db
  change : R.Change m w s.db db
  sound : R.Sound db

theorem Rules.Writes.later {x : Nat} {s s' : Store D K W μ} (h : R.Writes x s s') : R.Later s.db s'.db := by
  cases h with
  | nothing db log =>
    rw [db]
    exact Relation.ReflTransGen.refl
  | commit m w change log => exact Relation.ReflTransGen.single (.commit m w change)

/-- What every single move keeps, any number of them keeps. -/
theorem Rules.Later.keeps {J : D → Prop} (step : ∀ db db', R.Moves db db' → J db → J db') {db db' : D}
    (h : R.Later db db') (hJ : J db) : J db' := by
  induction h with
  | refl => exact hJ
  | tail _ hmove ih => exact step _ _ hmove ih

variable [DecidableEq K] {S : Schema D K W X A E ι μ} {Q : Except E β → Transaction μ A → Store D K W μ → Prop}
  {θ : Transaction μ A} {s : Store D K W μ}

omit [DecidableEq K] in
theorem Rules.Lawful.guar_release (hR : R.Lawful) (x : Nat) (s : Store D K W μ) :
    (R.contract x : Contract (Statement D K W X A E ι) (Transaction μ A) _ ι).guar s (s.release x) :=
  ⟨fun row _ hne h => ⟨Store.release_other hne h, hR.same_refl row s.db⟩, .nothing rfl rfl, id⟩

omit [DecidableEq K] in
theorem Rules.Lawful.guar_same (hR : R.Lawful) (x : Nat) (s : Store D K W μ) :
    (R.contract x : Contract (Statement D K W X A E ι) (Transaction μ A) _ ι).guar s s :=
  ⟨fun row _ _ h => ⟨h, hR.same_refl row s.db⟩, .nothing rfl rfl, id⟩

theorem wp_read (hR : R.Lawful) {q : ι → D → α} {f : α → Prog E (Statement D K W X A E ι) β} {x : Nat}
    (h : ∀ i s', (R.contract x : Contract (Statement D K W X A E ι) (Transaction μ A) _ ι).rely s s' →
      R.Sound s'.db → wp S.machine (R.contract x) (f (q i s'.db)) Q θ s') :
    wp S.machine (R.contract x) (Prog.op (.read q) >>= f) Q θ s := by
  intro s' hr i θ' s'' r hmay hexec
  cases hexec
  exact ⟨hR.guar_same x s', h i s' hr hmay.1⟩

theorem wp_call (hR : R.Lawful) {c : X} {q : ι → α} {f : α → Prog E (Statement D K W X A E ι) β} {x : Nat}
    (h : ∀ i s', (R.contract x : Contract (Statement D K W X A E ι) (Transaction μ A) _ ι).rely s s' →
      R.Sound s'.db → wp S.machine (R.contract x) (f (q i)) Q θ s') :
    wp S.machine (R.contract x) (Prog.op (.call c q) >>= f) Q θ s := by
  intro s' hr i θ' s'' r hmay hexec
  cases hexec
  exact ⟨hR.guar_same x s', h i s' hr hmay.1⟩

/-- A row that is still wanted once nobody else holds it is locked from then on. -/
theorem wp_lock (hR : R.Lawful) {row : K} {wanted : D → Bool} {q : D → α}
    {f : α → Prog E (Statement D K W X A E ι) β}
    (h : ∀ s', (R.contract θ.xid : Contract (Statement D K W X A E ι) (Transaction μ A) _ ι).rely s s' →
      R.Sound s'.db → (wanted s'.db = true → s'.holder row = some θ.xid) →
        wp S.machine (R.contract θ.xid) (f (q s'.db)) Q θ s') :
    wp S.machine (R.contract θ.xid) (Prog.op (.lock row wanted q) >>= f) Q θ s := by
  intro s' hr i θ' s'' r hmay hexec
  have hexec : (match s'.holder row with
    | some y => if y = θ.xid then some (θ, s', q s'.db) else none
    | none => some (θ, if wanted s'.db then s'.take row θ.xid else s', q s'.db)) =
      some (θ', s'', r) := hexec
  cases hholder : s'.holder row with
  | some y =>
    rw [hholder] at hexec
    by_cases hy : y = θ.xid
    · simp only [hy, if_true] at hexec
      cases hexec
      exact ⟨hR.guar_same _ _, h s' hr hmay.1 fun _ => by rw [hholder, hy]⟩
    · simp only [hy, if_false] at hexec
      cases hexec
  | none =>
    rw [hholder] at hexec
    cases hexec
    by_cases hwanted : wanted s'.db = true
    · rw [if_pos hwanted]
      have hother {r : K} {y : Nat} (hr : s'.holder r = some y) : (s'.take row θ.xid).holder r = some y := by
        rw [Store.take_other, hr]
        rintro rfl
        rw [hholder] at hr
        cases hr
      refine ⟨⟨fun r y _ hr => ⟨hother hr, hR.same_refl _ _⟩, .nothing rfl rfl, id⟩, ?_⟩
      refine h (s'.take row θ.xid) ⟨fun r hr₁ => ?_, hr.2⟩ hmay.1 fun _ => s'.take_same row θ.xid
      obtain ⟨hheld, hsame⟩ := hr.1 r hr₁
      exact ⟨hother hheld, hsame⟩
    · rw [if_neg hwanted]
      exact ⟨hR.guar_same _ _, h s' hr hmay.1 fun hp => absurd hp hwanted⟩

theorem wp_commit (hR : R.Lawful) {w : W} {f : Unit → Prog E (Statement D K W X A E ι) β}
    (h : ∀ s', (R.contract θ.xid : Contract (Statement D K W X A E ι) (Transaction μ A) _ ι).rely s s' →
      R.Sound s'.db → R.fits θ.request w s'.db →
        (∀ db, S.apply w s'.db = .ok db → R.Commits θ.xid θ.request w s' db ∧
          wp S.machine (R.contract θ.xid) (f ()) Q θ (s'.commit db ⟨θ.xid, θ.request, w⟩)) ∧
        ∀ e, S.apply w s'.db = .error e → Q (.error e) θ (s'.release θ.xid)) :
    wp S.machine (R.contract θ.xid) (Prog.perform (.commit w id) >>= f) Q θ s := by
  intro s' hr i θ' s'' r hmay hexec
  obtain ⟨hok, herror⟩ := h s' hr hmay.1 hmay.2
  have hexec : (match S.apply w s'.db with
    | .ok db => some (θ, s'.commit db ⟨θ.xid, θ.request, w⟩, (Except.ok () : Except E Unit))
    | .error e => some (θ, s'.release θ.xid, .error e)) = some (θ', s'', r) := hexec
  cases happly : S.apply w s'.db with
  | ok db =>
    rw [happly] at hexec
    cases hexec
    obtain ⟨hcommits, hw⟩ := hok db happly
    exact ⟨⟨fun row y hne hrow => ⟨Store.release_other hne hrow, hcommits.others row y hne hrow⟩,
      .commit _ _ hcommits.change rfl, fun _ => hcommits.sound⟩, hw⟩
  | error e =>
    rw [happly] at hexec
    cases hexec
    exact ⟨hR.guar_release _ _, herror e happly⟩

/-- **Transactions that keep to their contracts** form a crew. -/
theorem Rules.Lawful.crew (hR : R.Lawful) {Q : Except E Unit → Transaction μ A → Store D K W μ → Prop}
    (hQ : ∀ r θ s s', (R.contract θ.xid : Contract (Statement D K W X A E ι) (Transaction μ A) _ ι).rely s s' →
      Q r θ s → Q r θ s')
    (start : ∀ x m s, R.Sound s.db → wp S.machine (R.contract x) (S.program m) Q ⟨x, m, none⟩ s) :
    Crew S.machine R.conditions Transaction.xid (fun s => R.Sound s.db)
      (fun θ p s => wp S.machine (R.contract θ.xid) p Q θ s)
      (fun x => (R.contract x : Contract (Statement D K W X A E ι) (Transaction μ A) _ ι).guar) := by
  refine Crew.of_wp hR.closed (fun x y s s' hne hg => ⟨fun row h => hg.1 row y hne.symm h, hg.2.1.later⟩)
    (fun x s s' hg => hg.2.2) hQ (fun m s hs _ => start m.1 m.2 s hs) (fun o k i θ s hs hc => ⟨hs, ?_⟩)
    (fun o i θ θ' s s' r hexec => ?_) (fun s s' hs he => ?_) (fun θ s => hR.guar_release θ.xid s)
  · cases o with
    | commit w k => exact hc
    | _ => trivial
  · exact (exec_transaction hexec).1
  · obtain ⟨hholder, -, houtside⟩ := he
    obtain ⟨hsound, hsame⟩ := hR.outside _ _ hs houtside
    exact ⟨hsound, fun x => ⟨fun row h => ⟨by rw [hholder]; exact h, hsame row⟩,
      Relation.ReflTransGen.single (.outside houtside)⟩⟩

end Contract

/-! ### Runs -/

section Run
variable {D K W X A E ι μ : Type} [DecidableEq K] {R : Rules D K W μ} {S : Schema D K W X A E ι μ}
  {L : Transaction μ A → Prog E (Statement D K W X A E ι) Unit → Store D K W μ → Prop}

/-- The state a run of transactions from some rows ends in. -/
abbrev Schema.after (S : Schema D K W X A E ι μ) (db : D) (actions : List (Action (Store D K W μ) ι (Nat × μ))) :
    Sys E (Statement D K W X A E ι) (Transaction μ A) (Store D K W μ) :=
  runFrom (Sys.next S.machine) (Sys.idle (Store.unlocked K W μ db)) actions

/-- A run of transactions with numbers of their own, for requests of some kind, from a sound
database. This is all that the theorems about a schema ask of a run. -/
structure Schema.Run (S : Schema D K W X A E ι μ) (R : Rules D K W μ) (kind : μ → Prop) (db : D)
    (actions : List (Action (Store D K W μ) ι (Nat × μ))) : Prop where
  sound : R.Sound db
  numbers : (spawned S.machine Transaction.xid actions).Nodup
  requests : ∀ pid m, Action.spawn pid m ∈ actions → kind m.2
  conditions : Along (Sys.next S.machine) R.conditions.Met (Sys.idle (Store.unlocked K W μ db)) actions

theorem Schema.Run.prefix {kind : μ → Prop} {db : D} {before after : List (Action (Store D K W μ) ι (Nat × μ))}
    (h : S.Run R kind db (before ++ after)) : S.Run R kind db before where
  sound := h.sound
  numbers := by
    have hn := h.numbers
    rw [spawned, List.filterMap_append, List.nodup_append] at hn
    exact hn.1
  requests pid m hm := h.requests pid m (List.mem_append_left _ hm)
  conditions := (along_append.mp h.conditions).1

/-- Every transaction serves a request of the kind. -/
theorem serving_next {kind : μ → Prop} {s : Sys E (Statement D K W X A E ι) (Transaction μ A) (Store D K W μ)}
    {a : Action (Store D K W μ) ι (Nat × μ)} (hs : ∀ pid θ p, s.procs pid = some (θ, p) → kind θ.request)
    (ha : ∀ pid m, a = .spawn pid m → kind m.2) :
    ∀ pid θ p, (s.next S.machine a).procs pid = some (θ, p) → kind θ.request := by
  intro q θ p hq
  have hdid := Sys.next_did S.machine s a
  generalize Sys.next S.machine s a = after at hdid hq
  cases hdid with
  | nothing | changed => exact hs q θ p hq
  | @spawned pid m hfree =>
    by_cases hqp : q = pid
    · rw [hqp, Sys.setProc_same] at hq
      cases hq
      exact ha pid m rfl
    · rw [Sys.setProc_of_ne _ _ hqp] at hq
      exact hs q θ p hq
  | @ended pid θ' p' _ hlive _ =>
    by_cases hqp : q = pid
    · rw [hqp, Sys.setProc_same] at hq
      cases hq
    · rw [Sys.setProc_of_ne _ _ hqp] at hq
      exact hs q θ p hq
  | @performed pid i θ₀ θ' ρ o k s' r hlive hexec =>
    by_cases hqp : q = pid
    · rw [hqp, Sys.setProc_same] at hq
      cases hq
      rw [(exec_transaction hexec).2]
      exact hs pid θ₀ _ hlive
    · rw [Sys.setProc_of_ne _ _ hqp] at hq
      exact hs q θ p hq

/-- Rules that allow of the requests of a kind what the first ones allow, so that a result about
every run of these is one about the runs of that kind. -/
structure Rules.Covers (R' R : Rules D K W μ) (kind : μ → Prop) : Prop where
  sound : ∀ db, R.Sound db → R'.Sound db
  fits : ∀ m w db, kind m → R.fits m w db → R'.fits m w db
  outside : ∀ db db', R.Outside db db' → R'.Outside db db'

/-- In a run the commits serve requests of the kind. -/
theorem Schema.Run.along {R' : Rules D K W μ} {kind : μ → Prop} {db : D}
    {actions : List (Action (Store D K W μ) ι (Nat × μ))} (h : S.Run R kind db actions) (hR : R'.Covers R kind) :
    Along (Sys.next S.machine) R'.conditions.Met (Sys.idle (Store.unlocked K W μ db)) actions := by
  have along {s : Sys E (Statement D K W X A E ι) (Transaction μ A) (Store D K W μ)}
      {l : List (Action (Store D K W μ) ι (Nat × μ))} (hs : ∀ pid θ p, s.procs pid = some (θ, p) → kind θ.request)
      (hl : ∀ pid m, Action.spawn pid m ∈ l → kind m.2) (ha : Along (Sys.next S.machine) R.conditions.Met s l) :
      Along (Sys.next S.machine) R'.conditions.Met s l := by
    induction l generalizing s with
    | nil => trivial
    | cons a rest ih =>
      refine ⟨?_, ih (serving_next hs fun pid m he => hl pid m (he ▸ List.mem_cons_self))
        (fun pid m hm => hl pid m (List.mem_cons_of_mem _ hm)) ha.2⟩
      have hmet := ha.1
      cases a with
      | spawn pid m => trivial
      | env f => exact ⟨hmet.1, hmet.2.1, hR.outside _ _ hmet.2.2⟩
      | crash pid =>
        simp only [Conditions.Met] at hmet ⊢
        cases s.procs pid <;> trivial
      | step pid i =>
        simp only [Conditions.Met] at hmet ⊢
        cases hp : s.procs pid with
        | none => trivial
        | some proc =>
          obtain ⟨θ, p⟩ := proc
          rw [hp] at hmet
          cases p with
          | done r => trivial
          | node o k =>
            cases o with
            | commit w k' => exact hR.fits _ _ _ (hs pid θ _ hp) hmet
            | _ => trivial
  exact along (fun _ _ _ hp => by cases hp) h.requests h.conditions

/-- A system of transactions that keep to the rules. -/
abbrev Schema.Lawful (S : Schema D K W X A E ι μ) (R : Rules D K W μ)
    (L : Transaction μ A → Prog E (Statement D K W X A E ι) Unit → Store D K W μ → Prop) : Prop :=
  Crew S.machine R.conditions Transaction.xid (fun s => R.Sound s.db) L
    (fun x => (R.contract x : Contract (Statement D K W X A E ι) (Transaction μ A) _ ι).guar)

/-- **What every commit keeps**, a run keeps. -/
theorem Schema.Lawful.keeps (h : S.Lawful R L) {J : D → List (Committed W μ) → Prop}
    (commit : ∀ c db db' log, R.Sound db → J db log → R.Change c.request c.write db db' → J db' (log ++ [c]))
    (outside : ∀ db db' log, R.Sound db → J db log → R.Outside db db' → J db' log)
    {s : Sys E (Statement D K W X A E ι) (Transaction μ A) (Store D K W μ)}
    {before after : List (Action (Store D K W μ) ι (Nat × μ))}
    (hs : s.Teamed S.machine Transaction.xid L (before ++ after)) (hsound : R.Sound s.shared.db)
    (hJ : J s.shared.db s.shared.log) (ha : Along (Sys.next S.machine) R.conditions.Met s before) :
    J (runFrom (Sys.next S.machine) s before).shared.db (runFrom (Sys.next S.machine) s before).shared.log := by
  refine Crew.keeps_run h (J := fun s => J s.db s.log) (fun s s' hs hchange hJ => ?_) hs hsound hJ ha
  cases hchange with
  | same => exact hJ
  | outside henv =>
    rw [henv.2.1]
    exact outside _ _ _ hs hJ henv.2.2
  | member x hguar =>
    cases hguar.2.1 with
    | nothing hdb hlog =>
      rw [hdb, hlog]
      exact hJ
    | commit m w hchange hlog =>
      rw [hlog]
      exact commit ⟨x, m, w⟩ _ _ _ hs hJ hchange

/-- The same from any point of a run. -/
theorem Schema.Run.keeps {R' : Rules D K W μ} {kind : μ → Prop} {db : D}
    {before after : List (Action (Store D K W μ) ι (Nat × μ))} (run : S.Run R kind db (before ++ after))
    (hR : R'.Covers R kind) (h : S.Lawful R' L) {J : D → List (Committed W μ) → Prop}
    (commit : ∀ c db db' log, R'.Sound db → J db log → R'.Change c.request c.write db db' → J db' (log ++ [c]))
    (outside : ∀ db db' log, R'.Sound db → J db log → R'.Outside db db' → J db' log)
    (hJ : J (S.after db before).shared.db (S.after db before).shared.log) :
    J (S.after db (before ++ after)).shared.db (S.after db (before ++ after)).shared.log := by
  have halong := along_append.mp (run.along hR)
  have hstart : (Sys.idle (Store.unlocked K W μ db)).Teamed S.machine Transaction.xid L (before ++ after) :=
    Team.teamed_idle run.numbers
  obtain ⟨hteamed, hsound⟩ := h.crew_run hstart (hR.sound db run.sound) halong.1
  rw [← List.append_nil after] at hteamed
  have hkept := h.keeps commit outside hteamed hsound hJ halong.2
  rw [Schema.after, runFrom_append]
  exact hkept

/-- Whether the commits of a run without outside actions fit, for runs on fixed inputs: it decides
there what `Rules.conditions` asks for. -/
def Rules.checks (R : Rules D K W μ) [∀ m w db, Decidable (R.fits m w db)] (S : Schema D K W X A E ι μ) :
    Sys E (Statement D K W X A E ι) (Transaction μ A) (Store D K W μ) →
      List (Action (Store D K W μ) ι (Nat × μ)) → Bool
  | _, [] => true
  | _, .env _ :: _ => false
  | s, a :: rest =>
    (match a with
      | .step pid _ =>
        match s.procs pid with
        | some (θ, .node (.commit w _) _) => decide (R.fits θ.request w s.shared.db)
        | _ => true
      | _ => true) && R.checks S (s.next S.machine a) rest

theorem Rules.along_of_checks [∀ m w db, Decidable (R.fits m w db)]
    {s : Sys E (Statement D K W X A E ι) (Transaction μ A) (Store D K W μ)}
    {actions : List (Action (Store D K W μ) ι (Nat × μ))} (h : R.checks S s actions = true) :
    Along (Sys.next S.machine) R.conditions.Met s actions := by
  induction actions generalizing s with
  | nil => trivial
  | cons a rest ih =>
    cases a with
    | env f => cases h
    | spawn pid m => exact ⟨trivial, ih h⟩
    | crash pid =>
      refine ⟨?_, ih h⟩
      simp only [Conditions.Met]
      cases s.procs pid <;> trivial
    | step pid i =>
      simp only [Rules.checks, Bool.and_eq_true] at h
      refine ⟨?_, ih h.2⟩
      have hfits := h.1
      simp only [Conditions.Met]
      cases hp : s.procs pid with
      | none => trivial
      | some proc =>
        obtain ⟨θ, p⟩ := proc
        rw [hp] at hfits
        cases p with
        | done r => trivial
        | node o k =>
          cases o with
          | commit w k' =>
            have hfit : R.fits θ.request w s.shared.db := of_decide_eq_true hfits
            exact hfit
          | _ => trivial

/-- The tables are sound at every point of a run. -/
theorem Schema.Run.sound_after {R' : Rules D K W μ} {kind : μ → Prop} {db : D}
    {actions : List (Action (Store D K W μ) ι (Nat × μ))} (run : S.Run R kind db actions)
    (hR : R'.Covers R kind) (h : S.Lawful R' L) : R'.Sound (S.after db actions).shared.db := by
  have hteamed : (Sys.idle (Store.unlocked K W μ db)).Teamed S.machine Transaction.xid L (actions ++ []) := by
    rw [List.append_nil]
    exact Team.teamed_idle run.numbers
  exact (h.crew_run hteamed (hR.sound db run.sound) (run.along hR)).2

end Run

end PveMaster
