import PveMaster.Foundation.Transactions
import Mathlib.Logic.Relation
import Mathlib.Order.MinMax

/-! Locks, and who waits for whom.

A process asks for a row with its next operation, and waits while another has locked it. Where
the programs ask for rows in the order of their ranks, nobody waits in a circle. Some rows may be
asked for later than their rank, as long as nobody waits for them then: `Ranked` is what a program
keeps to, and `not_cyclic_run` what comes of it. -/
namespace PveMaster

/-- How the operations of a machine lock rows, which a process holds under its name. The rank of a
row is its place in the order in which programs should ask for rows. -/
structure Locking (Op : Type → Type) (Θ σ K ν : Type) where
  name : Θ → ν
  holder : σ → K → Option ν
  rank : K → Nat
  /-- The row an operation waits for while another holds it. -/
  asks : {ρ : Type} → Op ρ → Option K
  /-- What the ranks of the rows it may lock stay below. -/
  reach : {ρ : Type} → Op ρ → Nat
  /-- Whether it releases all that is held. -/
  ends : {ρ : Type} → Op ρ → Bool

namespace Locking
variable {E K ν ι μ α β Θ σ : Type} {Op : Type → Type} (L : Locking Op Θ σ K ν)

/-! ### Circles -/

/-- The row a program goes on with, if its next operation asks for one. -/
def next : Prog E Op α → Option K
  | .done _ => none
  | .node o _ => L.asks o

/-- Some process of that name is about to ask for the row. -/
def Asks (s : Sys E Op Θ σ) (x : ν) (k : K) : Prop :=
  ∃ pid, (s.procs pid).map (fun c => (L.name c.1, L.next c.2)) = some (x, some k)

/-- One process waits for a row another has locked: it can go on only when that one has ended. -/
def Waits (s : Sys E Op Θ σ) (x y : ν) : Prop := ∃ k, L.Asks s x k ∧ L.holder s.shared k = some y ∧ y ≠ x

/-- Some process waits for itself, by way of others: none of them can ever go on, and a database
ends one of them. -/
def Cyclic (s : Sys E Op Θ σ) : Prop := ∃ x, Relation.TransGen (L.Waits s) x x

/-- Who waits for one of these rows holds rows of lower ranks only. It is the condition on a state
under which asking for a row later than its rank does no harm. -/
def Clear (late : K → Bool) (s : Sys E Op Θ σ) : Prop :=
  ∀ x y k, late k = true → L.Asks s x k → L.holder s.shared k = some y → y ≠ x →
    ∀ r, L.holder s.shared r = some x → L.rank r < L.rank k

variable {L}

/-- Along a chain of waiting processes the ranks of the rows grow. -/
theorem chain_ranks {s : Sys E Op Θ σ} (h : L.Clear (fun _ => true) s) {x z : ν}
    (hchain : Relation.TransGen (L.Waits s) x z) :
    ∃ k k', (∃ y, L.Asks s x k ∧ L.holder s.shared k = some y ∧ y ≠ x) ∧ L.holder s.shared k' = some z ∧
      L.rank k ≤ L.rank k' := by
  induction hchain with
  | single hwaits =>
    obtain ⟨k, hasks, hholds, hne⟩ := hwaits
    exact ⟨k, k, ⟨_, hasks, hholds, hne⟩, hholds, Nat.le_refl _⟩
  | tail _ hwaits ih =>
    obtain ⟨k, k', hfirst, hholds', hle⟩ := ih
    obtain ⟨k'', hasks, hholds, hne⟩ := hwaits
    exact ⟨k, k'', hfirst, hholds, hle.trans (h _ _ k'' rfl hasks hholds hne k' hholds').le⟩

theorem not_cyclic {s : Sys E Op Θ σ} (h : L.Clear (fun _ => true) s) : ¬ L.Cyclic s := by
  rintro ⟨x, hchain⟩
  obtain ⟨k, k', ⟨y, hasks, hholds, hne⟩, hholds', hle⟩ := chain_ranks h hchain
  exact absurd hle (Nat.not_le.mpr (h x y k rfl hasks hholds hne k' hholds'))

theorem cyclic_of_two {s : Sys E Op Θ σ} {x y : ν} (h : L.Waits s x y) (h' : L.Waits s y x) : L.Cyclic s :=
  ⟨x, .tail (.single h) h'⟩

/-! ### Programs -/

variable (L)

/-- A program that asks for rows above those it holds, which are below `top`; the late ones it
asks for at any time. What it has come to hold is bounded by what its operations reach, whatever
they are answered with. -/
def Ranked (late : K → Bool) : Prog E Op α → Nat → Prop
  | .done _, _ => True
  | .node o f, top => (∀ k ∈ L.asks o, late k = false → top ≤ L.rank k) ∧
      ∀ r, Ranked late (f r) (if L.ends o then 0 else max top (L.reach o))

/-- An operation that releases nothing, and locks rows of lower ranks at most. -/
def Within (n : Nat) {ρ : Type} (o : Op ρ) : Prop := L.reach o ≤ n ∧ L.ends o = false

/-- An operation of these that asks for late rows at most. -/
def Below (late : K → Bool) (n : Nat) {ρ : Type} (o : Op ρ) : Prop := (∀ k ∈ L.asks o, late k = true) ∧ L.Within n o

variable {L} {late : K → Bool} {top : Nat}

theorem Ranked.mono {p : Prog E Op α} {top' : Nat} (h : L.Ranked late p top) (hle : top' ≤ top) : L.Ranked late p top' := by
  induction p generalizing top top' with
  | done r => trivial
  | node o f ih =>
    refine ⟨fun k hk hlate => hle.trans (h.1 k hk hlate), fun r => ih r (h.2 r) ?_⟩
    split
    · exact Nat.le_refl _
    · exact max_le_max hle (Nat.le_refl _)

/-- What comes after a program of which no more is known. -/
theorem ranked_andThen {p : Prog E Op α} {f : Except E α → Prog E Op β} (hp : L.Ranked late p top)
    (hf : ∀ r top, L.Ranked late (f r) top) : L.Ranked late (p.andThen f) top := by
  induction p generalizing top with
  | done r => exact hf r top
  | node o g ih => exact ⟨hp.1, fun r => ih r (hp.2 r)⟩

/-- A program that releases nothing, and what comes after it. -/
theorem ranked_bind {p : Prog E Op α} {f : α → Prog E Op β} (n : Nat) (hp : L.Ranked late p top)
    (hn : p.Only (L.Within n)) (hf : ∀ a, L.Ranked late (f a) (max top n)) : L.Ranked late (p >>= f) top := by
  induction p generalizing top with
  | done r =>
    cases r with
    | ok a => exact (hf a).mono (Nat.le_max_left _ _)
    | error e => trivial
  | node o g ih =>
    obtain ⟨⟨hreach, hends⟩, hrest⟩ := hn
    refine ⟨hp.1, fun r => ih r (hp.2 r) (hrest r) fun a => (hf a).mono ?_⟩
    rw [hends]
    exact max_le (max_le (Nat.le_max_left _ _) (hreach.trans (Nat.le_max_right _ _))) (Nat.le_max_right _ _)

theorem ranked_only {p : Prog E Op α} {n : Nat} (hp : p.Only (L.Below late n)) : L.Ranked late p top := by
  induction p generalizing top with
  | done r => trivial
  | node o g ih =>
    obtain ⟨⟨hasks, -⟩, hrest⟩ := hp
    refine ⟨fun k hk hlate => ?_, fun r => ih r (hrest r)⟩
    rw [hasks k hk] at hlate
    cases hlate

/-- A program that asks for late rows at most, and what comes after it. -/
theorem ranked_below {p : Prog E Op α} {f : α → Prog E Op β} (n : Nat) (hp : p.Only (L.Below late n))
    (hf : ∀ a, L.Ranked late (f a) (max top n)) : L.Ranked late (p >>= f) top :=
  ranked_bind n (ranked_only hp) (Prog.Only.mono (fun _ ho => ho.2) hp) hf

/-- A program without locks. -/
theorem ranked_quiet {p : Prog E Op α} {f : α → Prog E Op β} (hp : p.Only (L.Below late 0))
    (hf : ∀ a, L.Ranked late (f a) top) : L.Ranked late (p >>= f) top :=
  ranked_below 0 hp fun a => by rw [Nat.max_zero]; exact hf a

theorem ranked_ofExcept {r : Except E α} {f : α → Prog E Op β} (hf : ∀ a, L.Ranked late (f a) top) :
    L.Ranked late (Prog.ofExcept r >>= f) top := by
  cases r with
  | ok a => exact hf a
  | error e => trivial

theorem ranked_op {ρ : Type} {o : Op ρ} {f : ρ → Prog E Op β} (hasks : ∀ k ∈ L.asks o, late k = false → top ≤ L.rank k)
    (hf : ∀ r, L.Ranked late (f r) (if L.ends o then 0 else max top (L.reach o))) :
    L.Ranked late (Prog.op o >>= f) top := ⟨hasks, hf⟩

/-! ### Runs -/

section Run
variable (L) (M : Machine E Op Θ σ ι μ)

/-- The locks of a machine: an operation takes rows for its own process only, those it may reach,
and what ends a process takes none. -/
structure Lawful : Prop where
  name : ∀ {ρ : Type} (o : Op ρ) i θ θ' s s' r, M.exec o i θ s = some (θ', s', r) → L.name θ' = L.name θ
  others : ∀ {ρ : Type} (o : Op ρ) i θ θ' s s' r, M.exec o i θ s = some (θ', s', r) →
    ∀ k x, x ≠ L.name θ → L.holder s' k = some x → L.holder s k = some x
  own : ∀ {ρ : Type} (o : Op ρ) i θ θ' s s' r, M.exec o i θ s = some (θ', s', r) →
    ∀ k, L.holder s' k = some (L.name θ) →
      L.ends o = false ∧ (L.rank k < L.reach o ∨ L.holder s k = some (L.name θ))
  drop : ∀ θ s k x, L.holder (M.drop θ s) k = some x → L.holder s k = some x

/-- What a process knows of the rows it holds: they are below some bound from which on the rest of
its program asks. -/
def Knows (late : K → Bool) (θ : Θ) (p : Prog E Op Unit) (s : σ) : Prop :=
  ∃ top, L.Ranked late p top ∧ ∀ k, L.holder s k = some (L.name θ) → L.rank k < top

/-- What an action of one process does not do to the others: it takes no row for them. -/
def Spares (x : ν) (s s' : σ) : Prop := ∀ k y, y ≠ x → L.holder s' k = some y → L.holder s k = some y

def Holds (x : ν) (s : σ) : Prop := ∃ k, L.holder s k = some x

variable {L M} {c : Conditions E Op Θ σ ι μ}

theorem team (hL : L.Lawful M) (hstart : ∀ m, L.Ranked late (M.start m).2 0)
    (henv : ∀ s s', c.env s s' → ∀ k x, L.holder s' k = some x → L.holder s k = some x) :
    Team M (Team.untraced M c L.name L.Holds) L.name (L.Knows late) L.Spares where
  start m s hm := ⟨0, hstart m, fun k hk => absurd ⟨k, hk⟩ hm.2⟩
  step o f i θ θ' s s' r hknows _ hexec := by
    obtain ⟨top, hranked, hheld⟩ := hknows
    have hname := hL.name o i θ θ' s s' r hexec
    refine ⟨hname, fun k y hne hk => hL.others o i θ θ' s s' r hexec k y hne hk, _, hranked.2 r, fun k hk => ?_⟩
    rw [hname] at hk
    obtain ⟨hends, hk⟩ := hL.own o i θ θ' s s' r hexec k hk
    rw [hends]
    rcases hk with hreach | hold
    · exact hreach.trans_le (Nat.le_max_right _ _)
    · exact (hheld k hold).trans_le (Nat.le_max_left _ _)
  drop θ s k y _ hk := hL.drop θ s k y hk
  outside θ p s s' he hknows := by
    obtain ⟨top, hranked, hheld⟩ := hknows
    exact ⟨top, hranked, fun k hk => hheld k (henv s s' he k _ hk)⟩
  stable x θ p s s' hne hspares hknows := by
    obtain ⟨top, hranked, hheld⟩ := hknows
    exact ⟨top, hranked, fun k hk => hheld k (hspares k _ hne hk)⟩

/-- **Nobody waits in a circle**, in a run of programs that ask for their rows in the order of the ranks,
when the late ones are clear. -/
theorem not_cyclic_run (hL : L.Lawful M) (hstart : ∀ m, L.Ranked late (M.start m).2 0)
    (henv : ∀ s s', c.env s s' → ∀ k x, L.holder s' k = some x → L.holder s k = some x) {s : σ}
    (hfree : ∀ k, L.holder s k = none) {actions : List (Action σ ι μ)} (hnumbers : (spawned M L.name actions).Nodup)
    (hmet : Along (Sys.next M) c.Met (Sys.idle s) actions)
    (hclear : L.Clear late (runFrom (Sys.next M) (Sys.idle s) actions)) :
    ¬ L.Cyclic (runFrom (Sys.next M) (Sys.idle s) actions) := by
  have huntraced : Along (Sys.next M) (Team.untraced M c L.name L.Holds).Met (Sys.idle s) actions := by
    refine Team.along_untraced (fun o i θ θ' s s' r x hexec => ⟨hL.name o i θ θ' s s' r hexec, ?_⟩)
      (fun θ s x h => ?_) (fun s s' x he h => ?_) (fun pid θ p hp => by cases hp) hnumbers (fun x _ h => ?_) hmet
    · rintro ⟨k, hk⟩
      by_cases hx : x = L.name θ
      · exact Or.inr hx
      · exact Or.inl ⟨k, hL.others o i θ θ' s s' r hexec k x hx hk⟩
    · obtain ⟨k, hk⟩ := h
      exact Or.inl ⟨k, hL.drop θ s k x hk⟩
    · obtain ⟨k, hk⟩ := h
      exact ⟨k, henv s s' he k x hk⟩
    · obtain ⟨k, hk⟩ := h
      have hk : L.holder s k = some x := hk
      rw [hfree k] at hk
      cases hk
  have hteamed := Team.teamed_idle (L := L.Knows late) (s := s) hnumbers
  rw [← List.append_nil actions] at hteamed
  have heach := ((team hL hstart henv).teamed_run hteamed huntraced).each
  refine not_cyclic fun x y k _ hasks hholds hne r hr => ?_
  by_cases hlate : late k = true
  · exact hclear x y k hlate hasks hholds hne r hr
  obtain ⟨pid, hpid⟩ := hasks
  obtain ⟨⟨θ, p⟩, hp, hpair⟩ := Option.map_eq_some_iff.mp hpid
  cases p with
  | done _ => cases hpair
  | node o f =>
    obtain ⟨rfl, hnext⟩ := Prod.mk.inj hpair
    obtain ⟨top, hranked, hheld⟩ := heach pid θ _ hp
    exact (hheld r hr).trans_le (hranked.1 k hnext (Bool.eq_false_iff.mpr hlate))

/-- Where processes are started. -/
def started (actions : List (Action σ ι μ)) : List Nat :=
  actions.filterMap fun
    | .spawn pid _ => some pid
    | _ => none

theorem procs_unstarted {s : Sys E Op Θ σ} {actions : List (Action σ ι μ)} {pid : Nat} (hnone : s.procs pid = none)
    (h : pid ∉ started actions) : (runFrom (Sys.next M) s actions).procs pid = none := by
  induction actions generalizing s with
  | nil => exact hnone
  | cons a rest ih =>
    have hrest : pid ∉ started rest := fun hmem => by
      cases a with
      | spawn q m => exact h (List.mem_cons_of_mem _ hmem)
      | step q i => exact h hmem
      | crash q => exact h hmem
      | env f => exact h hmem
    refine ih (Sys.procs_none_next M hnone ?_) hrest
    rintro m rfl
    exact h List.mem_cons_self

/-- Nobody asks for a late row: the processes that are started can be looked through. -/
theorem clear_of_started {s : σ} {actions : List (Action σ ι μ)}
    (h : ∀ pid ∈ started actions, ∀ k ∈ ((runFrom (Sys.next M) (Sys.idle s) actions).procs pid).bind (fun c => L.next c.2),
      late k = false) : L.Clear late (runFrom (Sys.next M) (Sys.idle s) actions) := by
  rintro x y k hlate ⟨pid, hpid⟩ - - r -
  by_cases hmem : pid ∈ started actions
  · obtain ⟨c, hc, hpair⟩ := Option.map_eq_some_iff.mp hpid
    have hnext : L.next c.2 = some k := (Prod.mk.inj hpair).2
    have hnot := h pid hmem k (by rw [hc]; exact hnext)
    rw [hlate] at hnot
    cases hnot
  · rw [procs_unstarted rfl hmem] at hpid
    cases hpid

end Run

end Locking

/-! ### Transactions -/

section Transactions
variable {D K W X A E ι μ : Type}

/-- The locks of transactions, with ranks for the rows. A row is reached by the statement that
asks for it, and a commit, being the end of its transaction, releases all of them. -/
def Store.locking (rank : K → Nat) : Locking (Statement D K W X A E ι) (Transaction μ A) (Store D K W μ) K Nat where
  name := Transaction.xid
  holder := Store.holder
  rank := rank
  asks
    | .lock row _ _ => some row
    | _ => none
  reach
    | .lock row _ _ => rank row + 1
    | _ => 0
  ends
    | .commit _ _ => true
    | _ => false

theorem Store.release_holder {s : Store D K W μ} {x y : Nat} {k : K} (h : (s.release x).holder k = some y) :
    y ≠ x ∧ s.holder k = some y := by
  have h : (if s.holder k = some x then none else s.holder k) = some y := h
  split at h
  · cases h
  next hne => exact ⟨fun hxy => hne (hxy ▸ h), h⟩

variable [DecidableEq K]

theorem Store.take_holder {s : Store D K W μ} {row k : K} {x y : Nat} (h : (s.take row x).holder k = some y) :
    s.holder k = some y ∨ k = row ∧ y = x := by
  by_cases hrow : k = row
  · subst hrow
    rw [Store.take_same] at h
    exact Or.inr ⟨rfl, (Option.some.inj h).symm⟩
  · rw [Store.take_other hrow] at h
    exact Or.inl h

/-- What an operation of a transaction makes of the locks. -/
theorem Schema.exec_holder {S : Schema D K W X A E ι μ} {ρ : Type} {o : Statement D K W X A E ι ρ} {i : ι}
    {θ θ' : Transaction μ A} {s s' : Store D K W μ} {r : ρ} (h : S.machine.exec o i θ s = some (θ', s', r)) {k : K}
    {x : Nat} (hk : s'.holder k = some x) :
    match o with
    | .lock row _ _ => s.holder k = some x ∨ k = row ∧ x = θ.xid
    | .commit _ _ => x ≠ θ.xid ∧ s.holder k = some x
    | _ => s.holder k = some x := by
  cases o with
  | read q | call c k | answer a k =>
    cases h
    exact hk
  | lock row wanted q =>
    simp only [Schema.machine] at h
    split at h
    · split at h
      · cases h
        exact Or.inl hk
      · cases h
    · cases h
      split at hk
      · exact Store.take_holder hk
      · exact Or.inl hk
  | commit w k =>
    simp only [Schema.machine] at h
    split at h
    · cases h
      exact Store.release_holder hk
    · cases h
      exact Store.release_holder hk

theorem Store.locking_lawful (rank : K → Nat) (S : Schema D K W X A E ι μ) :
    (Store.locking rank : Locking (Statement D K W X A E ι) (Transaction μ A) _ K Nat).Lawful S.machine where
  name o i θ θ' s s' r h := (exec_transaction h).1
  others o i θ θ' s s' r h k x hne hk := by
    have hbefore := Schema.exec_holder h hk
    cases o with
    | read q | call c k | answer a k => exact hbefore
    | lock row wanted q => exact hbefore.elim id fun hown => absurd hown.2 hne
    | commit w k => exact hbefore.2
  own o i θ θ' s s' r h k hk := by
    have hbefore := Schema.exec_holder h hk
    cases o with
    | read q | call c k | answer a k => exact ⟨rfl, Or.inr hbefore⟩
    | lock row wanted q =>
      refine ⟨rfl, hbefore.elim Or.inr fun hown => Or.inl ?_⟩
      rw [hown.1]
      exact Nat.lt_succ_self _
    | commit w k => exact absurd rfl hbefore.1
  drop θ s k x h := (Store.release_holder h).2

end Transactions

/-! The programs of transactions. -/

namespace Store
variable {D K W X A E ι μ α β ρ : Type} {rank : K → Nat} {late : K → Bool} {top n : Nat}

theorem below_read {q : ι → D → ρ} :
    (locking rank : Locking (Statement D K W X A E ι) (Transaction μ A) (Store D K W μ) K Nat).Below late n (.read q) :=
  ⟨fun _ hk => (by cases hk), Nat.zero_le n, rfl⟩

theorem below_call {x : X} {k : ι → ρ} :
    (locking rank : Locking (Statement D K W X A E ι) (Transaction μ A) (Store D K W μ) K Nat).Below late n (.call x k) :=
  ⟨fun _ hk => (by cases hk), Nat.zero_le n, rfl⟩

theorem below_answer {a : A} {k : Unit → ρ} :
    (locking rank : Locking (Statement D K W X A E ι) (Transaction μ A) (Store D K W μ) K Nat).Below late n (.answer a k) :=
  ⟨fun _ hk => (by cases hk), Nat.zero_le n, rfl⟩

theorem below_lock {row : K} {wanted : D → Bool} {q : D → ρ} (hlate : late row = true) (hn : rank row < n) :
    (locking rank : Locking (Statement D K W X A E ι) (Transaction μ A) (Store D K W μ) K Nat).Below late n
      (.lock row wanted q) :=
  ⟨fun _ hk => Option.some.inj hk ▸ hlate, hn, rfl⟩

theorem ranked_lock {row : K} {wanted : D → Bool} {q : D → α} {f : α → Prog E (Statement D K W X A E ι) β}
    (hrank : top ≤ rank row)
    (hf : ∀ a, (locking rank : Locking (Statement D K W X A E ι) (Transaction μ A) (Store D K W μ) K Nat).Ranked late (f a)
      (rank row + 1)) :
    (locking rank : Locking (Statement D K W X A E ι) (Transaction μ A) (Store D K W μ) K Nat).Ranked late
      (Prog.op (.lock row wanted q) >>= f) top := by
  refine Locking.ranked_op (fun k hk _ => ?_) fun a => (hf a).mono ?_
  · cases hk
    exact hrank
  · exact max_le (hrank.trans (Nat.le_succ _)) (Nat.le_refl _)

theorem ranked_commit {w : W} {f : Unit → Prog E (Statement D K W X A E ι) β}
    (hf : (locking rank : Locking (Statement D K W X A E ι) (Transaction μ A) (Store D K W μ) K Nat).Ranked late (f ()) 0) :
    (locking rank : Locking (Statement D K W X A E ι) (Transaction μ A) (Store D K W μ) K Nat).Ranked late
      (Prog.perform (.commit w id) >>= f) top := by
  refine ⟨fun _ hk => (by cases hk), fun r => ?_⟩
  cases r with
  | ok _ => exact hf
  | error e => trivial

end Store
end PveMaster
