import PveMaster.Foundation.Transactions
import PveMaster.Foundation.History

/-! Optimistic locking.

An update carries the version of the row it is meant for, and leaves the next one. The
history of the updates that succeeded is `OrderlyUpdates` when each of them found the version it
carried, no two of them carried the same one, and none was computed from a row that an
earlier one had already replaced. `Tracked` is the invariant behind it: versions only grow,
and every update of the history is behind the version of its row.

`Versioned` is how the rows of a schema are versioned. A program is `Guarded` when it
assigns the version of a row only while it has the row locked, from what it read of it
under the lock: the transactions of such programs have an orderly history in any order
(`Versioned.orderly`). -/
namespace PveMaster

/-- What an update that succeeded did to the version of its row, with what it was asked for and
what it was computed from. Two of these suffice to see that one of them was lost. -/
structure Update (K : Type) where
  row : K
  /-- The version the call asked for. -/
  carried : Nat
  /-- The version of the row it was computed from. -/
  read : Nat
  before : Option Nat
  after : Option Nat
  deriving DecidableEq

section Histories
variable {K : Type}

/-- A history without lost updates: every one moved its row from the version it was asked for to
the next, no two of a row were asked for with the same version, and none was computed from a row
that an earlier one had replaced. -/
structure OrderlyUpdates (h : List (Update K)) : Prop where
  step : ∀ u ∈ h, u.before = some u.carried ∧ u.after = some (u.carried + 1)
  once : h.Pairwise fun u v => u.row = v.row → u.carried ≠ v.carried
  kept : h.Pairwise fun u v => u.row = v.row → ∀ n, u.after = some n → n ≤ v.read

instance [DecidableEq K] (h : List (Update K)) : Decidable (OrderlyUpdates h) :=
  decidable_of_iff ((∀ u ∈ h, u.before = some u.carried ∧ u.after = some (u.carried + 1)) ∧
      (h.Pairwise fun u v => u.row = v.row → u.carried ≠ v.carried) ∧
      h.Pairwise fun u v => u.row = v.row → ∀ n ∈ u.after, n ≤ v.read)
    ⟨fun h => ⟨h.1, h.2.1, h.2.2⟩, fun h => ⟨h.step, h.once, h.kept⟩⟩

/-- The versions of rows that are there only grow, and no such row goes away. -/
def Grow (stored stored' : K → Option Nat) : Prop :=
  ∀ k n, stored k = some n → ∃ n', stored' k = some n' ∧ n ≤ n'

theorem Grow.refl (stored : K → Option Nat) : Grow stored stored := fun _ n h => ⟨n, h, n.le_refl⟩

theorem Grow.trans {s s' s'' : K → Option Nat} (h : Grow s s') (h' : Grow s' s'') : Grow s s'' := by
  intro k n hn
  obtain ⟨n', hn', hle⟩ := h k n hn
  obtain ⟨n'', hn'', hle'⟩ := h' k n' hn'
  exact ⟨n'', hn'', hle.trans hle'⟩

/-- Every update of a history is behind the version of its row: the invariant that keeps the
history orderly when the next update is put behind it. -/
structure Tracked (stored : K → Option Nat) (h : List (Update K)) : Prop where
  orderly : OrderlyUpdates h
  behind : ∀ u ∈ h, ∃ n, stored u.row = some n ∧ u.carried < n

theorem Tracked.nil (stored : K → Option Nat) : Tracked stored [] :=
  ⟨⟨nofun, .nil, .nil⟩, nofun⟩

theorem Tracked.grow {stored stored' : K → Option Nat} {h : List (Update K)} (ht : Tracked stored h)
    (hg : Grow stored stored') : Tracked stored' h := by
  refine ⟨ht.orderly, fun u hu => ?_⟩
  obtain ⟨n, hn, hlt⟩ := ht.behind u hu
  obtain ⟨n', hn', hle⟩ := hg _ n hn
  exact ⟨n', hn', hlt.trans_le hle⟩

/-- **An update that finds the version it carries**, and leaves the next one. -/
theorem Tracked.record {stored stored' : K → Option Nat} {h : List (Update K)} {k : K} {v : Nat}
    (ht : Tracked stored h) (hg : Grow stored stored') (hbefore : stored k = some v)
    (hafter : stored' k = some (v + 1)) :
    Tracked stored' (h ++ [⟨k, v, v, stored k, stored' k⟩]) := by
  have hbehind {u : Update K} (hu : u ∈ h) (hrow : u.row = k) : u.carried < v := by
    obtain ⟨n, hn, hlt⟩ := ht.behind u hu
    rw [hrow, hbefore] at hn
    cases hn
    exact hlt
  refine ⟨⟨fun u hu => ?_, ?_, ?_⟩, fun u hu => ?_⟩
  · rcases List.mem_append.mp hu with hold | hnew
    · exact ht.orderly.step u hold
    · cases List.mem_singleton.mp hnew
      exact ⟨hbefore, hafter⟩
  · refine List.pairwise_append.mpr ⟨ht.orderly.once, List.pairwise_singleton _ _, fun u hu w hw hrow => ?_⟩
    cases List.mem_singleton.mp hw
    exact (hbehind hu hrow).ne
  · refine List.pairwise_append.mpr ⟨ht.orderly.kept, List.pairwise_singleton _ _, fun u hu w hw hrow n hn => ?_⟩
    cases List.mem_singleton.mp hw
    have hstep := (ht.orderly.step u hu).2
    rw [hn] at hstep
    cases hstep
    exact hbehind hu hrow
  · rcases List.mem_append.mp hu with hold | hnew
    · exact (ht.grow hg).behind u hold
    · cases List.mem_singleton.mp hnew
      exact ⟨v + 1, hafter, v.lt_succ_self⟩

end Histories

/-! ### Schemas whose rows have versions -/

/-- How the rows of a schema are versioned: where the version of a row stands, which version a
commit assigns, and which one a request carries. -/
structure Versioned (D K W μ : Type) where
  version : K → D → Option Nat
  /-- The row whose version a commit assigns, the version it was loaded with and the new one. -/
  assigns : W → Option (K × Nat × Nat)
  /-- The row a request is meant for, and the version it carries. -/
  carried : μ → Option (K × Nat)

namespace Versioned
variable {D K W X A E ι μ α β : Type} {V : Versioned D K W μ}

/-- What a commit does to the versions of the rows that are there: the row it is about gets the
version it assigns, and all others keep theirs. -/
structure Lawful (V : Versioned D K W μ) (S : Schema D K W X A E ι μ) : Prop where
  assigned : ∀ w db db' k l a, S.apply w db = .ok db' → V.assigns w = some (k, l, a) →
    (V.version k db).isSome = true → V.version k db' = some a
  others : ∀ w db db' k n, S.apply w db = .ok db' → (∀ l a, V.assigns w ≠ some (k, l, a)) →
    V.version k db = some n → V.version k db' = some n

/-- A commit that a transaction may make with the rows it has locked, by their versions: the row
it assigns is one of them, the new version is the next one, and what the request carries is what
was locked. -/
def Allows (V : Versioned D K W μ) (m : μ) (held : K → Option Nat) (w : W) : Prop :=
  ∀ k l a, V.assigns w = some (k, l, a) →
    held k = some l ∧ a = l + 1 ∧ ∀ k' v, V.carried m = some (k', v) → k' = k ∧ v = l

/-- A commit that assigns the next version of a row as it is stored, the one that is asked for. -/
def Fits (V : Versioned D K W μ) (m : μ) (w : W) (db : D) : Prop :=
  ∀ k l a, V.assigns w = some (k, l, a) →
    V.version k db = some l ∧ a = l + 1 ∧ ∀ k' v, V.carried m = some (k', v) → k' = k ∧ v = l

/-- The rows that are locked are as they were when they were. -/
def Agrees (V : Versioned D K W μ) (held : K → Option Nat) (db : D) : Prop :=
  ∀ k n, held k = some n → V.version k db = some n

theorem Allows.fits {m : μ} {held : K → Option Nat} {w : W} {db : D} (h : V.Allows m held w)
    (hdb : V.Agrees held db) : V.Fits m w db := by
  intro k l a ha
  obtain ⟨hk, hrest⟩ := h k l a ha
  exact ⟨hdb k l hk, hrest⟩

theorem allows_none {m : μ} {held : K → Option Nat} {w : W} (h : V.assigns w = none) : V.Allows m held w := by
  intro k l a ha
  rw [h] at ha
  cases ha

variable [DecidableEq K]

/-- What a program keeps to, from the rows it has locked: each of its commits is allowed with
them. A row that is locked joins them with the version it has at that moment, and after a commit
none of them is left. -/
def Guarded (V : Versioned D K W μ) (m : μ) : Prog E (Statement D K W X A E ι) α →
    (Except E α → (K → Option Nat) → Prop) → (K → Option Nat) → Prop
  | .done r, Q, held => Q r held
  | .node o f, Q, held =>
    match o with
    | .read q => ∀ i db, V.Agrees held db → Guarded V m (f (q i db)) Q held
    | .lock row wanted q => ∀ db, V.Agrees held db →
      Guarded V m (f (q db)) Q (if wanted db then Function.update held row (V.version row db) else held)
    | .commit w c => V.Allows m held w ∧ ∀ r, Guarded V m (f (c r)) Q fun _ => none
    | .call _ c => ∀ i, Guarded V m (f (c i)) Q held
    | .answer _ c => Guarded V m (f (c ())) Q held

variable {m : μ} {held : K → Option Nat}

theorem guarded_mono {p : Prog E (Statement D K W X A E ι) α} {Q Q' : Except E α → (K → Option Nat) → Prop}
    (h : ∀ r held, Q r held → Q' r held) (hp : V.Guarded m p Q held) : V.Guarded m p Q' held := by
  induction p generalizing held with
  | done r => exact h r held hp
  | node o f ih =>
    cases o with
    | read q => exact fun i db hdb => ih _ (hp i db hdb)
    | lock row wanted q => exact fun db hdb => ih _ (hp db hdb)
    | commit w c => exact ⟨hp.1, fun r => ih _ (hp.2 r)⟩
    | call x c => exact fun i => ih _ (hp i)
    | answer a c => exact ih _ hp

theorem guarded_andThen {p : Prog E (Statement D K W X A E ι) α} {f : Except E α → Prog E (Statement D K W X A E ι) β}
    {Q : Except E β → (K → Option Nat) → Prop} (h : V.Guarded m p (fun r held => V.Guarded m (f r) Q held) held) :
    V.Guarded m (p.andThen f) Q held := by
  induction p generalizing held with
  | done r => exact h
  | node o g ih =>
    cases o with
    | read q => exact fun i db hdb => ih _ (h i db hdb)
    | lock row wanted q => exact fun db hdb => ih _ (h db hdb)
    | commit w c => exact ⟨h.1, fun r => ih _ (h.2 r)⟩
    | call x c => exact fun i => ih _ (h i)
    | answer a c => exact ih _ h

/-- What becomes of a sequence: an exception ends it. -/
theorem guarded_bind {p : Prog E (Statement D K W X A E ι) α} {f : α → Prog E (Statement D K W X A E ι) β}
    {Q : Except E β → (K → Option Nat) → Prop} (herror : ∀ e held, Q (.error e) held)
    (h : V.Guarded m p (fun r held => ∀ a, r = .ok a → V.Guarded m (f a) Q held) held) :
    V.Guarded m (p >>= f) Q held := by
  refine guarded_andThen (guarded_mono (fun r held hr => ?_) h)
  cases r with
  | ok a => exact hr a rfl
  | error e => exact herror e held

/-- A statement that commits nothing and locks no row that has a version. Programs of these keep
to everything that is asked here. -/
def Quiet (V : Versioned D K W μ) {ρ : Type} : Statement D K W X A E ι ρ → Prop
  | .lock row _ _ => ∀ db, V.version row db = none
  | .commit _ _ => False
  | _ => True

/-- A statement that assigns no version. -/
def Idle (V : Versioned D K W μ) {ρ : Type} : Statement D K W X A E ι ρ → Prop
  | .commit w _ => V.assigns w = none
  | _ => True

/-- Quiet statements leave the rows that are locked. -/
theorem guarded_quiet {p : Prog E (Statement D K W X A E ι) α} {f : α → Prog E (Statement D K W X A E ι) β}
    (hp : p.Only V.Quiet) (h : ∀ a, V.Guarded m (f a) (fun _ _ => True) held) :
    V.Guarded m (p >>= f) (fun _ _ => True) held := by
  refine guarded_bind (fun _ _ => trivial) ?_
  induction p with
  | done r => exact fun a _ => h a
  | node o g ih =>
    cases o with
    | read q => exact fun i db _ => ih _ (hp.2 _)
    | commit w c => exact hp.1.elim
    | call x c => exact fun i => ih _ (hp.2 _)
    | answer a c => exact ih _ (hp.2 _)
    | lock row wanted q =>
      intro db hdb
      have hfree : held row = none := by
        cases hrow : held row with
        | none => rfl
        | some n => exact absurd (hdb row n hrow) (by rw [hp.1 db]; nofun)
      have hsame : (if wanted db then Function.update held row (V.version row db) else held) = held := by
        split
        · rw [hp.1 db, ← hfree, Function.update_eq_self]
        · rfl
      rw [hsame]
      exact ih _ (hp.2 _)

theorem guarded_idle {p : Prog E (Statement D K W X A E ι) α} (hp : p.Only V.Idle) :
    V.Guarded m p (fun _ _ => True) held := by
  induction p generalizing held with
  | done r => trivial
  | node o f ih =>
    cases o with
    | read q => exact fun i db _ => ih _ (hp.2 _)
    | lock row wanted q => exact fun db _ => ih _ (hp.2 _)
    | commit w c => exact ⟨allows_none hp.1, fun r => ih _ (hp.2 _)⟩
    | call x c => exact fun i => ih _ (hp.2 _)
    | answer a c => exact ih _ (hp.2 _)

/-- A row that is locked is known by what is read of it. -/
theorem guarded_lock {row : K} {wanted : D → Bool} {q : D → α} {f : α → Prog E (Statement D K W X A E ι) β}
    (h : ∀ db, V.Guarded m (f (q db)) (fun _ _ => True)
      (if wanted db then Function.update held row (V.version row db) else held)) :
    V.Guarded m (Prog.op (.lock row wanted q) >>= f) (fun _ _ => True) held := fun db _ => h db

theorem guarded_ofExcept {r : Except E α} {f : α → Prog E (Statement D K W X A E ι) β}
    (h : ∀ a, r = .ok a → V.Guarded m (f a) (fun _ _ => True) held) :
    V.Guarded m (Prog.ofExcept r >>= f) (fun _ _ => True) held :=
  guarded_bind (fun _ _ => trivial) h

theorem guarded_commit {w : W} {f : Unit → Prog E (Statement D K W X A E ι) β} (hw : V.Allows m held w)
    (hf : ∀ held, V.Guarded m (f ()) (fun _ _ => True) held) :
    V.Guarded m (Prog.perform (.commit w id) >>= f) (fun _ _ => True) held :=
  guarded_bind (fun _ _ => trivial) ⟨hw, fun _ _ _ => hf _⟩

theorem guarded_attempt {p : Prog E (Statement D K W X A E ι) α}
    {Q : Except E (Except E α) → (K → Option Nat) → Prop}
    (h : V.Guarded m p (fun r held => Q (.ok r) held) held) : V.Guarded m p.attempt Q held :=
  guarded_andThen h

/-! ### Runs -/

section Run
variable (V : Versioned D K W μ) (S : Schema D K W X A E ι μ)

/-- What is recorded of a commit: the update, when the request carries a version. -/
def note {ρ : Type} (o : Statement D K W X A E ι ρ) (θ : Transaction μ A) (s : Store D K W μ) (_ : ρ)
    (h : List (Update K)) : List (Update K) :=
  match o with
  | .commit w _ =>
    match V.carried θ.request, V.assigns w, S.apply w s.db with
    | some (k, v), some (_, l, _), .ok db => h ++ [⟨k, v, l, V.version k s.db, V.version k db⟩]
    | _, _, _ => h
  | _ => h

/-- The transactions of a schema, and the history of their updates. -/
def machine : Machine E (Statement D K W X A E ι) (Transaction μ A) (Store D K W μ × List (Update K)) ι (Nat × μ) :=
  S.machine.recording (V.note S)

/-- The rest of the platform leaves the versions of the rows that are there. -/
def conditions : Conditions E (Statement D K W X A E ι) (Transaction μ A) (Store D K W μ × List (Update K)) ι
    (Nat × μ) where
  env s s' := s'.1.holder = s.1.holder ∧ s'.2 = s.2 ∧
    ∀ k n, V.version k s.1.db = some n → V.version k s'.1.db = some n

/-- The state a run from some rows ends in, and its history. -/
abbrev after (db : D) (actions : List (Action (Store D K W μ × List (Update K)) ι (Nat × μ))) :
    Store D K W μ × List (Update K) :=
  (runFrom (Sys.next (V.machine S)) (Sys.idle (Store.unlocked K W μ db, [])) actions).shared

/-- Every run under some conditions has an orderly history, from whatever rows it starts; a
transaction has a number of its own. -/
def OrderlyRuns (c : Conditions E (Statement D K W X A E ι) (Transaction μ A) (Store D K W μ × List (Update K)) ι
    (Nat × μ)) : Prop :=
  ∀ db actions, (spawned (V.machine S) Transaction.xid actions).Nodup →
    Along (Sys.next (V.machine S)) c.Met (Sys.idle (Store.unlocked K W μ db, [])) actions →
      OrderlyUpdates (V.after S db actions).2

/-- What a transaction knows: the rows it has locked are its own, and as they were when it locked
them. -/
def Knows (θ : Transaction μ A) (p : Prog E (Statement D K W X A E ι) Unit)
    (s : Store D K W μ × List (Update K)) : Prop :=
  ∃ held, V.Guarded θ.request p (fun _ _ => True) held ∧ ∀ k n, held k = some n →
    s.1.holder k = some θ.xid ∧ V.version k s.1.db = some n

/-- What a transaction leaves to the others: the rows they have locked, with their versions. -/
def Spares (x : Nat) (s s' : Store D K W μ × List (Update K)) : Prop :=
  ∀ k y, y ≠ x → s.1.holder k = some y → s'.1.holder k = some y ∧
    ∀ n, V.version k s.1.db = some n → V.version k s'.1.db = some n

variable {V S} {θ θ' : Transaction μ A} {s s' : Store D K W μ × List (Update K)}

/-- The step of a guarded transaction. -/
theorem step_guarded (hV : V.Lawful S) {ρ : Type} {o : Statement D K W X A E ι ρ}
    {f : ρ → Prog E (Statement D K W X A E ι) Unit} {i : ι} {r : ρ} (hknows : V.Knows θ (.node o f) s)
    (hexec : (V.machine S).exec o i θ s = some (θ', s', r)) :
    θ'.xid = θ.xid ∧ V.Spares θ.xid s s' ∧ V.Knows θ' (f r) s' := by
  obtain ⟨h, history⟩ := s
  obtain ⟨h', history'⟩ := s'
  obtain ⟨hstep, -⟩ := Machine.recording_exec hexec
  obtain ⟨held, hp, hheld⟩ := hknows
  have hagrees : V.Agrees held h.db := fun k n hk => (hheld k n hk).2
  have hsame : V.Spares θ.xid (h, history) (h, history') := fun k y _ hk => ⟨hk, fun n hn => hn⟩
  cases o with
  | read q =>
    cases hstep
    exact ⟨rfl, hsame, held, hp i h.db hagrees, hheld⟩
  | call x c =>
    cases hstep
    exact ⟨rfl, hsame, held, hp i, hheld⟩
  | answer a c =>
    cases hstep
    exact ⟨rfl, hsame, held, hp, hheld⟩
  | lock row wanted q =>
    have hp := hp h.db hagrees
    have hknows (h' : Store D K W μ) (hdb : h'.db = h.db)
        (hothers : ∀ k, h.holder k = some θ.xid → h'.holder k = some θ.xid)
        (hrow : wanted h.db = true → h'.holder row = some θ.xid) : V.Knows θ (f (q h.db)) (h', history') := by
      refine ⟨_, hp, fun k n hk => ?_⟩
      show h'.holder k = some θ.xid ∧ V.version k h'.db = some n
      rw [hdb]
      by_cases hwanted : wanted h.db = true
      · rw [if_pos hwanted] at hk
        by_cases hkrow : k = row
        · subst hkrow
          rw [Function.update_self] at hk
          exact ⟨hrow hwanted, hk⟩
        · rw [Function.update_of_ne hkrow] at hk
          exact ⟨hothers k (hheld k n hk).1, (hheld k n hk).2⟩
      · rw [if_neg hwanted] at hk
        exact ⟨hothers k (hheld k n hk).1, (hheld k n hk).2⟩
    simp only [Schema.machine] at hstep
    split at hstep
    · next y hy =>
      split at hstep
      · next hmine =>
        cases hstep
        exact ⟨rfl, hsame, hknows _ rfl (fun _ hk => hk) fun _ => by rw [hy, hmine]⟩
      · cases hstep
    · next hfree =>
      cases hstep
      by_cases hwanted : wanted h.db = true
      · rw [if_pos hwanted]
        have hothers (k : K) (y : Nat) (hk : h.holder k = some y) : (h.take row θ.xid).holder k = some y := by
          rw [Store.take_other, hk]
          rintro rfl
          rw [hfree] at hk
          cases hk
        exact ⟨rfl, fun k y _ hk => ⟨hothers k y hk, fun n hn => hn⟩,
          hknows _ rfl (fun k hk => hothers k _ hk) fun _ => h.take_same row θ.xid⟩
      · rw [if_neg hwanted]
        exact ⟨rfl, hsame, hknows _ rfl (fun _ hk => hk) fun hw => absurd hw hwanted⟩
  | commit w c =>
    obtain ⟨hallowed, hp⟩ := hp
    simp only [Schema.machine] at hstep
    split at hstep
    · next db happly =>
      cases hstep
      refine ⟨rfl, fun k y hne hk => ⟨Store.release_other hne hk, fun n hn => ?_⟩, _, hp _, fun _ _ hnone => by cases hnone⟩
      refine hV.others w h.db db k n happly (fun l a ha => ?_) hn
      -- the row the commit assigns is locked by the transaction itself
      have hmine := (hheld k l (hallowed k l a ha).1).1
      rw [hk] at hmine
      exact hne (Option.some.inj hmine)
    · cases hstep
      exact ⟨rfl, fun k y hne hk => ⟨Store.release_other hne hk, fun n hn => hn⟩, _, hp _, fun _ _ hnone => by cases hnone⟩

/-- What a step makes of the history. -/
theorem step_tracked (hV : V.Lawful S) {ρ : Type} {o : Statement D K W X A E ι ρ} {i : ι} {r : ρ}
    (hfits : ∀ w c, o = .commit w c → V.Fits θ.request w s.1.db)
    (hexec : (V.machine S).exec o i θ s = some (θ', s', r))
    (ht : Tracked (fun k => V.version k s.1.db) s.2) : Tracked (fun k => V.version k s'.1.db) s'.2 := by
  obtain ⟨h, history⟩ := s
  obtain ⟨h', history'⟩ := s'
  obtain ⟨hstep, hhistory⟩ := Machine.recording_exec hexec
  cases o with
  | read q | call x c | answer a c =>
    cases hstep
    cases hhistory
    exact ht
  | lock row wanted q =>
    cases hhistory
    have hdb : h'.db = h.db := by
      simp only [Schema.machine] at hstep
      split at hstep
      · split at hstep
        · cases hstep
          rfl
        · cases hstep
      · cases hstep
        split <;> rfl
    show Tracked (fun k => V.version k h'.db) history
    rw [hdb]
    exact ht
  | commit w c =>
    have hfits := hfits w c rfl
    simp only [Schema.machine] at hstep
    simp only [note] at hhistory
    cases happly : S.apply w h.db with
    | error e =>
      rw [happly] at hstep hhistory
      cases hstep
      have hsame : history' = history := by
        rw [hhistory]
        split <;> simp_all
      rw [hsame]
      exact ht
    | ok db =>
      rw [happly] at hstep hhistory
      cases hstep
      have hnext {k : K} {l a : Nat} (ha : V.assigns w = some (k, l, a)) : V.version k db = some a := by
        refine hV.assigned w h.db db k l a happly ha ?_
        rw [(hfits k l a ha).1]
        rfl
      have hgrow : Grow (fun k => V.version k h.db) fun k => V.version k db := by
        intro k n hn
        by_cases ha : ∃ l a, V.assigns w = some (k, l, a)
        · obtain ⟨l, a, ha⟩ := ha
          obtain ⟨hl, rfl, -⟩ := hfits k l a ha
          have hl : n = l := Option.some.inj (hn.symm.trans hl)
          exact ⟨l + 1, hnext ha, hl ▸ l.le_succ⟩
        · exact ⟨n, hV.others w h.db db k n happly (fun l a h => ha ⟨l, a, h⟩) hn, n.le_refl⟩
      cases hcarried : V.carried θ.request with
      | none =>
        rw [hcarried] at hhistory
        cases hhistory
        exact ht.grow hgrow
      | some kv =>
        obtain ⟨k, v⟩ := kv
        cases hassigns : V.assigns w with
        | none =>
          rw [hcarried, hassigns] at hhistory
          cases hhistory
          exact ht.grow hgrow
        | some kla =>
          obtain ⟨k', l, a⟩ := kla
          rw [hcarried, hassigns] at hhistory
          cases hhistory
          obtain ⟨hl, rfl, hsame⟩ := hfits k' l a hassigns
          obtain ⟨rfl, rfl⟩ := hsame k v hcarried
          exact ht.record hgrow hl (hnext hassigns)

theorem crew (hV : V.Lawful S) (hS : ∀ m, V.Guarded m (S.program m) (fun _ _ => True) fun _ => none) :
    Crew (V.machine S) V.conditions Transaction.xid (fun s => Tracked (fun k => V.version k s.1.db) s.2)
      V.Knows V.Spares where
  team :=
    { start := fun m s _ => ⟨_, hS m.2, nofun⟩
      step := fun o f i θ θ' s s' r hknows _ hexec => step_guarded hV hknows hexec
      drop := fun θ s k y hne hk => ⟨Store.release_other hne hk, fun n hn => hn⟩
      outside := fun θ p s s' he hknows => by
        obtain ⟨held, hp, hheld⟩ := hknows
        refine ⟨held, hp, fun k n hk => ?_⟩
        rw [he.1.1]
        exact ⟨(hheld k n hk).1, he.1.2.2 k n (hheld k n hk).2⟩
      stable := fun x θ p s s' hne hspares hknows => by
        obtain ⟨held, hp, hheld⟩ := hknows
        refine ⟨held, hp, fun k n hk => ?_⟩
        obtain ⟨hholder, hversion⟩ := hspares k θ.xid hne (hheld k n hk).1
        exact ⟨hholder, hversion n (hheld k n hk).2⟩ }
  step o f i θ θ' s s' r ht hknows _ hexec := by
    obtain ⟨held, hp, hheld⟩ := hknows
    refine step_tracked hV (fun w c ho => ?_) hexec ht
    subst ho
    exact hp.1.fits fun k n hk => (hheld k n hk).2
  drop θ s ht := ht
  env s s' ht he := by
    rw [he.2.1]
    exact ht.grow fun k n hn => ⟨n, he.2.2 k n hn, n.le_refl⟩

/-- **Updates under row locks**: in any order of their statements, the history of
transactions whose programs are guarded is orderly. -/
theorem orderly (hV : V.Lawful S) (hS : ∀ m, V.Guarded m (S.program m) (fun _ _ => True) fun _ => none) :
    V.OrderlyRuns S V.conditions := by
  intro db actions hnumbers hmet
  have hteamed := Team.teamed_idle (L := V.Knows) (s := ((Store.unlocked K W μ db, []) : Store D K W μ × List (Update K)))
    hnumbers
  rw [← List.append_nil actions] at hteamed
  exact ((crew hV hS).crew_run hteamed (Tracked.nil _) hmet).2.orderly

/-! ### Without locks -/

/-- A program whose commits assign the version after the one that is asked for, whatever it reads.
It locks nothing, so it is orderly only as long as nobody comes between its reading and its
commit. -/
def Honest (V : Versioned D K W μ) (m : μ) : Prog E (Statement D K W X A E ι) α → Prop
  | .done _ => True
  | .node o f =>
    match o with
    | .read q => ∀ i db, Honest V m (f (q i db))
    | .lock _ _ q => ∀ db, Honest V m (f (q db))
    | .commit w c => (∀ k l a, V.assigns w = some (k, l, a) →
        a = l + 1 ∧ ∀ k' v, V.carried m = some (k', v) → k' = k ∧ v = l) ∧ ∀ r, Honest V m (f (c r))
    | .call _ c => ∀ i, Honest V m (f (c i))
    | .answer _ c => Honest V m (f (c ()))

omit [DecidableEq K] in
theorem honest_ofExcept {r : Except E α} {f : α → Prog E (Statement D K W X A E ι) β} {m : μ}
    (h : ∀ a, r = .ok a → V.Honest m (f a)) : V.Honest m (Prog.ofExcept r >>= f) := by
  cases r with
  | ok a => exact h a rfl
  | error e => trivial

/-- The row a commit assigns still has the version it was loaded with. -/
def Current (V : Versioned D K W μ) (w : W) (db : D) : Prop :=
  ∀ kla ∈ V.assigns w, V.version kla.1 db = some kla.2.1

/-- No commit overtakes the one that was loaded before it: the condition under which honest
programs without locks have an orderly history. -/
def uncrossed (V : Versioned D K W μ) :
    Conditions E (Statement D K W X A E ι) (Transaction μ A) (Store D K W μ × List (Update K)) ι (Nat × μ) :=
  { V.conditions with
    step := fun _ p _ s =>
      match p with
      | .node (.commit w _) _ => V.Current w s.1.db
      | _ => True }

/-! What a run without an action of the others asks for can be checked. -/

instance (θ : Transaction μ A) (p : Prog E (Statement D K W X A E ι) Unit) (i : ι) (s : Store D K W μ × List (Update K)) :
    Decidable (V.conditions.step θ p i s) := .isTrue trivial

instance (θ : Transaction μ A) (p : Prog E (Statement D K W X A E ι) Unit) (s : Store D K W μ × List (Update K)) :
    Decidable (V.conditions.crash θ p s) := .isTrue trivial

instance (m : Nat × μ) (s : Store D K W μ × List (Update K)) :
    Decidable ((V.conditions : Conditions E (Statement D K W X A E ι) (Transaction μ A) (Store D K W μ × List (Update K)) ι
      (Nat × μ)).spawn m s) := .isTrue trivial

instance (w : W) (db : D) : Decidable (V.Current w db) :=
  inferInstanceAs (Decidable (∀ kla ∈ V.assigns w, V.version kla.1 db = some kla.2.1))

instance : (θ : Transaction μ A) → (p : Prog E (Statement D K W X A E ι) Unit) → (i : ι) →
    (s : Store D K W μ × List (Update K)) → Decidable (V.uncrossed.step θ p i s)
  | _, .node (.commit w _) _, _, s => inferInstanceAs (Decidable (V.Current w s.1.db))
  | _, .node (.read _) _, _, _ => .isTrue trivial
  | _, .node (.lock _ _ _) _, _, _ => .isTrue trivial
  | _, .node (.call _ _) _, _, _ => .isTrue trivial
  | _, .node (.answer _ _) _, _, _ => .isTrue trivial
  | _, .done _, _, _ => .isTrue trivial

instance (θ : Transaction μ A) (p : Prog E (Statement D K W X A E ι) Unit) (s : Store D K W μ × List (Update K)) :
    Decidable (V.uncrossed.crash θ p s) := .isTrue trivial

instance (m : Nat × μ) (s : Store D K W μ × List (Update K)) :
    Decidable ((V.uncrossed : Conditions E (Statement D K W X A E ι) (Transaction μ A) (Store D K W μ × List (Update K)) ι
      (Nat × μ)).spawn m s) := .isTrue trivial

/-- A program stays honest with what it is answered. -/
theorem honest_step {ρ : Type} {o : Statement D K W X A E ι ρ} {f : ρ → Prog E (Statement D K W X A E ι) Unit} {i : ι} {r : ρ}
    {m : μ} (hp : V.Honest m (.node o f)) (hexec : (V.machine S).exec o i θ s = some (θ', s', r)) : V.Honest m (f r) := by
  obtain ⟨h, history⟩ := s
  obtain ⟨h', history'⟩ := s'
  obtain ⟨hstep, -⟩ := Machine.recording_exec hexec
  cases o with
  | read q =>
    cases hstep
    exact hp i h.db
  | call x c =>
    cases hstep
    exact hp i
  | answer a c =>
    cases hstep
    exact hp
  | lock row wanted q =>
    simp only [Schema.machine] at hstep
    split at hstep
    · split at hstep
      · cases hstep
        exact hp h.db
      · cases hstep
    · cases hstep
      exact hp h.db
  | commit w c =>
    simp only [Schema.machine] at hstep
    split at hstep
    · cases hstep
      exact hp.2 _
    · cases hstep
      exact hp.2 _

/-- **Updates without locks**: the history is orderly when no update is committed on a row
that has got another version since it was loaded. -/
theorem orderly_uncrossed (hV : V.Lawful S) (hS : ∀ m, V.Honest m (S.program m)) : V.OrderlyRuns S V.uncrossed := by
  intro db actions _ hmet
  have hprotocol : Protocol (V.machine S) V.uncrossed (fun s => Tracked (fun k => V.version k s.1.db) s.2)
      (fun θ p _ => V.Honest θ.request p) (fun _ _ => True) :=
    { refl := fun _ => trivial
      start := fun m s _ _ => hS m.2
      step := fun o f i θ θ' s s' r ht hp hc hexec => by
        refine ⟨step_tracked hV (fun w c ho => ?_) hexec ht, trivial, ?_⟩
        · subst ho
          exact fun k l a ha => ⟨hc (k, l, a) ha, hp.1 k l a ha⟩
        · rw [(exec_transaction (Machine.recording_exec hexec).1).2]
          exact honest_step hp hexec
      drop := fun θ p s ht _ _ => ⟨ht, trivial⟩
      env := fun s s' ht he => by
        rw [he.2.1]
        exact ⟨ht.grow fun k n hn => ⟨n, he.2.2 k n hn, n.le_refl⟩, trivial⟩
      stable := fun θ p s s' _ hp => hp }
  exact (hprotocol.holds_run (Sys.holds_idle (Tracked.nil _)) hmet).shared.orderly

end Run

end Versioned
end PveMaster
