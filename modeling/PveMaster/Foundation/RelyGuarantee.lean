import PveMaster.Foundation.Process

/-! Rely-guarantee reasoning about interleaving processes.

A `Protocol` splits an invariant of a system into what holds of the shared state
and what each process knows (`L`). A process may change the shared state as the
guarantee `G` allows, and what another process knows must survive that. The rule
`Protocol.holds_run` turns the local obligations into an invariant of every run
whose actions meet the stated conditions.

`wp` is what a program needs to know so that it ends in a postcondition, while
others change the shared state as a rely `R` allows between any two of its
operations, and so that each of its own operations keeps to a guarantee. It is
compositional (`wp_bind`, `wp_attempt`, `wp_always`), and it is what a process
knows in a system (`Protocol.of_wp`). -/
namespace PveMaster

variable {E : Type} {Op : Type → Type} {Θ σ ι μ : Type}

/-! ### Conditions on a run -/

/-- What a run is assumed to keep to, action by action: which processes are started, which
operations are taken with which inputs, which processes are lost and what the outside world does.
A field that is not given allows everything. -/
structure Conditions (E : Type) (Op : Type → Type) (Θ σ ι μ : Type) where
  spawn : μ → σ → Prop := fun _ _ => True
  step : Θ → Prog E Op Unit → ι → σ → Prop := fun _ _ _ _ => True
  crash : Θ → Prog E Op Unit → σ → Prop := fun _ _ _ => True
  env : σ → σ → Prop

/-- An action meets the conditions in a system. An action on a process that is not there does
nothing and meets them. -/
def Conditions.Met (c : Conditions E Op Θ σ ι μ) (s : Sys E Op Θ σ) : Action σ ι μ → Prop
  | .spawn _ m => c.spawn m s.shared
  | .env f => c.env s.shared (f s.shared)
  | .step pid i =>
    match s.procs pid with
    | none => True
    | some (θ, p) => c.step θ p i s.shared
  | .crash pid =>
    match s.procs pid with
    | none => True
    | some (θ, p) => c.crash θ p s.shared

/-- Conditions that ask for more. -/
theorem Conditions.met_mono {c c' : Conditions E Op Θ σ ι μ} (spawn : ∀ m s, c.spawn m s → c'.spawn m s)
    (step : ∀ θ p i s, c.step θ p i s → c'.step θ p i s)
    (crash : ∀ θ p s, c.crash θ p s → c'.crash θ p s) (env : ∀ s s', c.env s s' → c'.env s s')
    {s : Sys E Op Θ σ} {a : Action σ ι μ} (h : c.Met s a) : c'.Met s a := by
  cases a with
  | spawn pid m => exact spawn m s.shared h
  | env f => exact env _ _ h
  | step pid i =>
    simp only [Conditions.Met] at h ⊢
    cases hp : s.procs pid with
    | none => trivial
    | some proc =>
      rw [hp] at h
      exact step _ _ i s.shared h
  | crash pid =>
    simp only [Conditions.Met] at h ⊢
    cases hp : s.procs pid with
    | none => trivial
    | some proc =>
      rw [hp] at h
      exact crash _ _ s.shared h

instance (c : Conditions E Op Θ σ ι μ) [∀ m s, Decidable (c.spawn m s)]
    [∀ θ p i s, Decidable (c.step θ p i s)] [∀ θ p s, Decidable (c.crash θ p s)]
    [∀ s s', Decidable (c.env s s')] :
    (s : Sys E Op Θ σ) → (a : Action σ ι μ) → Decidable (c.Met s a)
  | s, .spawn _ m => inferInstanceAs (Decidable (c.spawn m s.shared))
  | s, .env f => inferInstanceAs (Decidable (c.env s.shared (f s.shared)))
  | s, .step pid i =>
    show Decidable (match s.procs pid with
      | none => True
      | some (θ, p) => c.step θ p i s.shared) from
    match s.procs pid with
    | none => .isTrue trivial
    | some (θ, p) => inferInstanceAs (Decidable (c.step θ p i s.shared))
  | s, .crash pid =>
    show Decidable (match s.procs pid with
      | none => True
      | some (θ, p) => c.crash θ p s.shared) from
    match s.procs pid with
    | none => .isTrue trivial
    | some (θ, p) => inferInstanceAs (Decidable (c.crash θ p s.shared))

/-- The same conditions, and nothing happens outside: what a fixed run is checked for, since an
arbitrary function on states cannot be. -/
def Conditions.inside (c : Conditions E Op Θ σ ι μ) : Conditions E Op Θ σ ι μ where
  spawn := c.spawn
  step := c.step
  crash := c.crash
  env _ _ := False

theorem Conditions.met_inside {c : Conditions E Op Θ σ ι μ} {s : Sys E Op Θ σ} {a : Action σ ι μ}
    (ha : c.inside.Met s a) : c.Met s a := by
  cases a with
  | env f => cases ha
  | spawn pid m => exact ha
  | step pid i => exact ha
  | crash pid => exact ha

theorem Conditions.along_inside {c : Conditions E Op Θ σ ι μ} {M : Machine E Op Θ σ ι μ} {s : Sys E Op Θ σ}
    {actions : List (Action σ ι μ)} (h : Along (Sys.next M) c.inside.Met s actions) :
    Along (Sys.next M) c.Met s actions :=
  h.mono fun _ _ ha => Conditions.met_inside ha

instance (c : Conditions E Op Θ σ ι μ) [∀ m s, Decidable (c.spawn m s)] (m : μ) (s : σ) :
    Decidable (c.inside.spawn m s) := inferInstanceAs (Decidable (c.spawn m s))

instance (c : Conditions E Op Θ σ ι μ) [∀ θ p i s, Decidable (c.step θ p i s)] (θ : Θ) (p : Prog E Op Unit) (i : ι)
    (s : σ) : Decidable (c.inside.step θ p i s) := inferInstanceAs (Decidable (c.step θ p i s))

instance (c : Conditions E Op Θ σ ι μ) [∀ θ p s, Decidable (c.crash θ p s)] (θ : Θ) (p : Prog E Op Unit) (s : σ) :
    Decidable (c.inside.crash θ p s) := inferInstanceAs (Decidable (c.crash θ p s))

instance (c : Conditions E Op Θ σ ι μ) (s s' : σ) : Decidable (c.inside.env s s') := .isFalse id

/-! ### Protocols -/

/-- The local obligations of a system. `L` is what a process knows, given its memory and the rest
of its program, and `G` what an action may do to the shared state. Each action is looked at once,
on its own process; the other processes are covered by `stable` alone. -/
structure Protocol (M : Machine E Op Θ σ ι μ) (c : Conditions E Op Θ σ ι μ) (I : σ → Prop)
    (L : Θ → Prog E Op Unit → σ → Prop) (G : σ → σ → Prop) : Prop where
  refl : ∀ s, G s s
  start : ∀ m s, I s → c.spawn m s → L (M.start m).1 (M.start m).2 s
  step : ∀ {ρ : Type} (o : Op ρ) (k : ρ → Prog E Op Unit) (i : ι) (θ θ' : Θ) (s s' : σ) (r : ρ),
    I s → L θ (.node o k) s → c.step θ (.node o k) i s → M.exec o i θ s = some (θ', s', r) →
      I s' ∧ G s s' ∧ L θ' (k r) s'
  drop : ∀ θ p s, I s → L θ p s → (c.crash θ p s ∨ ∃ r, p = .done r) →
    I (M.drop θ s) ∧ G s (M.drop θ s)
  env : ∀ s s', I s → c.env s s' → I s' ∧ G s s'
  stable : ∀ θ p s s', G s s' → L θ p s → L θ p s'

/-- The shared state is sound and every process knows what it should: the invariant that
`Protocol.holds_run` carries through a run. -/
structure Sys.Holds (I : σ → Prop) (L : Θ → Prog E Op Unit → σ → Prop) (s : Sys E Op Θ σ) :
    Prop where
  shared : I s.shared
  each : ∀ pid θ p, s.procs pid = some (θ, p) → L θ p s.shared

namespace Protocol

variable {M : Machine E Op Θ σ ι μ} {c : Conditions E Op Θ σ ι μ} {I : σ → Prop}
  {L : Θ → Prog E Op Unit → σ → Prop} {G : σ → σ → Prop}

/-- A process that ends, and what the others know. -/
theorem holds_drop (h : Protocol M c I L G) {s : Sys E Op Θ σ} {pid : Nat} {θ : Θ}
    {p : Prog E Op Unit} (hs : s.Holds I L) (hp : s.procs pid = some (θ, p))
    (hend : c.crash θ p s.shared ∨ ∃ r, p = .done r) :
    (Sys.setProc { s with shared := M.drop θ s.shared } pid none).Holds I L ∧
      G s.shared (M.drop θ s.shared) := by
  obtain ⟨hI, hG⟩ := h.drop θ p s.shared hs.shared (hs.each pid θ p hp) hend
  refine ⟨⟨hI, fun q θ' p' hq => ?_⟩, hG⟩
  by_cases hqp : q = pid
  · rw [hqp, Sys.setProc_same] at hq
    cases hq
  · rw [Sys.setProc_of_ne _ _ hqp] at hq
    exact h.stable θ' p' _ _ hG (hs.each q θ' p' hq)

/-- **One action** keeps the invariant and changes the shared state as `G` allows. -/
theorem holds_next (h : Protocol M c I L G) {s : Sys E Op Θ σ} {a : Action σ ι μ}
    (hs : s.Holds I L) (ha : c.Met s a) :
    (s.next M a).Holds I L ∧ G s.shared (s.next M a).shared := by
  have others {s' : σ} (hG : G s.shared s') {pid q : Nat} {θ : Θ} {p : Prog E Op Unit}
      (x : Option (Θ × Prog E Op Unit)) (hne : q ≠ pid)
      (hq : (Sys.setProc { s with shared := s' } pid x).procs q = some (θ, p)) : L θ p s' := by
    rw [Sys.setProc_of_ne _ _ hne] at hq
    exact h.stable θ p _ _ hG (hs.each q θ p hq)
  have hdid := Sys.next_did M s a
  generalize Sys.next M s a = after at hdid ⊢
  cases hdid with
  | nothing => exact ⟨hs, h.refl _⟩
  | changed f =>
    obtain ⟨hI, hG⟩ := h.env _ _ hs.shared ha
    exact ⟨⟨hI, fun pid θ p hp => h.stable θ p _ _ hG (hs.each pid θ p hp)⟩, hG⟩
  | @spawned pid m hfree =>
    refine ⟨⟨hs.shared, fun q θ p hq => ?_⟩, h.refl _⟩
    by_cases hqp : q = pid
    · rw [hqp, Sys.setProc_same] at hq
      have hL := h.start m s.shared hs.shared ha
      rw [Option.some.inj hq] at hL
      exact hL
    · exact others (h.refl _) _ hqp hq
  | @ended pid θ p _ hp hends =>
    refine h.holds_drop hs hp ?_
    rcases hends with rfl | ⟨i, r, rfl, rfl⟩
    · simp only [Conditions.Met, hp] at ha
      exact Or.inl ha
    · exact Or.inr ⟨r, rfl⟩
  | @performed pid i θ θ' ρ o k s' r hp hexec =>
    simp only [Conditions.Met, hp] at ha
    obtain ⟨hI, hG, hL⟩ := h.step o k i θ θ' s.shared s' r hs.shared (hs.each pid θ _ hp) ha hexec
    refine ⟨⟨hI, fun q θ₂ p₂ hq => ?_⟩, hG⟩
    by_cases hqp : q = pid
    · rw [hqp, Sys.setProc_same] at hq
      cases hq
      exact hL
    · exact others hG _ hqp hq

/-- **A run** whose actions meet the conditions keeps the invariant. -/
theorem holds_run (h : Protocol M c I L G) {s : Sys E Op Θ σ} {actions : List (Action σ ι μ)}
    (hs : s.Holds I L) (ha : Along (Sys.next M) c.Met s actions) :
    (runFrom (Sys.next M) s actions).Holds I L := by
  have step : ∀ t a, t.Holds I L → c.Met t a → (Sys.next M t a).Holds I L :=
    fun _ _ ht hP => (h.holds_next ht hP).1
  exact run_invariant step hs ha

/-- What the guarantee keeps, a run keeps. -/
theorem keeps_run (h : Protocol M c I L G) {J : σ → Prop} (keeps : ∀ s s', G s s' → J s → J s')
    {s : Sys E Op Θ σ} {actions : List (Action σ ι μ)} (hs : s.Holds I L) (hJ : J s.shared)
    (ha : Along (Sys.next M) c.Met s actions) : J (runFrom (Sys.next M) s actions).shared := by
  have step : ∀ t a, (t.Holds I L ∧ J t.shared) → c.Met t a →
      ((Sys.next M t a).Holds I L ∧ J (Sys.next M t a).shared) := by
    intro t a ht hP
    obtain ⟨hnext, hG⟩ := h.holds_next ht.1 hP
    exact ⟨hnext, keeps _ _ hG ht.2⟩
  exact (run_invariant step ⟨hs, hJ⟩ ha).2

/-- What the process at one place keeps knowing besides, when its own actions meet more. -/
theorem followed_next (h : Protocol M c I L G) {pid : Nat} {R : Θ → Prog E Op Unit → σ → Prop}
    {d : Θ → Prog E Op Unit → σ → Prop} (start : ∀ m s, R (M.start m).1 (M.start m).2 s)
    (step : ∀ {ρ : Type} (o : Op ρ) (k : ρ → Prog E Op Unit) (i : ι) (θ θ' : Θ) (s s' : σ) (r : ρ),
      I s → R θ (.node o k) s → d θ (.node o k) s → M.exec o i θ s = some (θ', s', r) → R θ' (k r) s')
    (stable : ∀ θ p s s', G s s' → R θ p s → R θ p s')
    {s : Sys E Op Θ σ} {a : Action σ ι μ} (hs : s.Holds I L) (ha : c.Met s a)
    (hd : ∀ i θ p, a = .step pid i → s.procs pid = some (θ, p) → d θ p s.shared)
    (hR : ∀ θ p, s.procs pid = some (θ, p) → R θ p s.shared) :
    ∀ θ p, (s.next M a).procs pid = some (θ, p) → R θ p (s.next M a).shared := by
  intro θ p hp
  obtain ⟨-, hG⟩ := h.holds_next hs ha
  have hdid := Sys.next_did M s a
  generalize Sys.next M s a = after at hdid hp hG ⊢
  cases hdid with
  | nothing => exact hR θ p hp
  | changed f => exact stable θ p _ _ hG (hR θ p hp)
  | @spawned pid' m hfree =>
    by_cases hpid : pid = pid'
    · rw [hpid, Sys.setProc_same] at hp
      have := start m s.shared
      rw [Option.some.inj hp] at this
      exact this
    · rw [Sys.setProc_of_ne _ _ hpid] at hp
      exact hR θ p hp
  | @ended pid' θ' p' _ hlive _ =>
    by_cases hpid : pid = pid'
    · rw [hpid, Sys.setProc_same] at hp
      cases hp
    · rw [Sys.setProc_of_ne _ _ hpid] at hp
      exact stable θ p _ _ hG (hR θ p hp)
  | @performed pid' i θ₀ θ' ρ o k s' r hlive hexec =>
    by_cases hpid : pid = pid'
    · subst hpid
      rw [Sys.setProc_same] at hp
      cases hp
      exact step o k i θ₀ _ _ _ r hs.shared (hR _ _ hlive) (hd i _ _ rfl hlive) hexec
    · rw [Sys.setProc_of_ne _ _ hpid] at hp
      exact stable θ p _ _ hG (hR θ p hp)

end Protocol

/-! ### Teams

Processes told apart by a name. What a process does may depend on its name, and has to
leave alone only what the processes of other names know. -/

/-- The names of the processes a run starts, in the order in which it starts them. -/
def spawned {ν : Type} (M : Machine E Op Θ σ ι μ) (name : Θ → ν) (actions : List (Action σ ι μ)) :
    List ν :=
  actions.filterMap fun
    | .spawn _ m => some (name (M.start m).1)
    | _ => none

/-- The local obligations of processes that are told apart by a name. The guarantee of an action
depends on who takes it, and only the processes of other names have to survive it, so what a
process knows may be something it alone is free to change. -/
structure Team {ν : Type} (M : Machine E Op Θ σ ι μ) (c : Conditions E Op Θ σ ι μ) (name : Θ → ν)
    (L : Θ → Prog E Op Unit → σ → Prop) (G : ν → σ → σ → Prop) : Prop where
  start : ∀ m s, c.spawn m s → L (M.start m).1 (M.start m).2 s
  step : ∀ {ρ : Type} (o : Op ρ) (k : ρ → Prog E Op Unit) (i : ι) (θ θ' : Θ) (s s' : σ) (r : ρ),
    L θ (.node o k) s → c.step θ (.node o k) i s → M.exec o i θ s = some (θ', s', r) →
      name θ' = name θ ∧ G (name θ) s s' ∧ L θ' (k r) s'
  drop : ∀ θ s, G (name θ) s (M.drop θ s)
  outside : ∀ θ p s s', c.env s s' → L θ p s → L θ p s'
  stable : ∀ x θ p s s', name θ ≠ x → G x s s' → L θ p s → L θ p s'

/-- Every process knows what it should, the names are distinct, and none of them is given again by
the actions still to come. -/
structure Sys.Teamed {ν : Type} (M : Machine E Op Θ σ ι μ) (name : Θ → ν)
    (L : Θ → Prog E Op Unit → σ → Prop) (s : Sys E Op Θ σ) (rest : List (Action σ ι μ)) : Prop where
  each : ∀ pid θ p, s.procs pid = some (θ, p) → L θ p s.shared
  distinct : ∀ pid pid' θ θ' p p', s.procs pid = some (θ, p) → s.procs pid' = some (θ', p') →
    name θ = name θ' → pid = pid'
  unspawned : ∀ pid θ p, s.procs pid = some (θ, p) → name θ ∉ spawned M name rest
  fresh : (spawned M name rest).Nodup

namespace Team

variable {ν : Type} {M : Machine E Op Θ σ ι μ} {c : Conditions E Op Θ σ ι μ} {name : Θ → ν}
  {L : Θ → Prog E Op Unit → σ → Prop} {G : ν → σ → σ → Prop}

theorem spawned_cons (a : Action σ ι μ) (rest : List (Action σ ι μ)) :
    ∃ l, spawned M name (a :: rest) = l ++ spawned M name rest := by
  cases a with
  | spawn pid m => exact ⟨[name (M.start m).1], rfl⟩
  | step pid i => exact ⟨[], rfl⟩
  | crash pid => exact ⟨[], rfl⟩
  | env f => exact ⟨[], rfl⟩

/-- Names that have not been given, once an action is taken. -/
theorem teamed_mono {s : Sys E Op Θ σ} {a : Action σ ι μ} {rest : List (Action σ ι μ)}
    (hs : s.Teamed M name L (a :: rest)) : s.Teamed M name L rest := by
  obtain ⟨l, hl⟩ : ∃ l, spawned M name (a :: rest) = l ++ spawned M name rest :=
    spawned_cons a rest
  refine ⟨hs.each, hs.distinct, fun pid θ p hp hmem => hs.unspawned pid θ p hp ?_, ?_⟩
  · rw [hl]
    exact List.mem_append_right _ hmem
  · have := hs.fresh
    rw [hl] at this
    exact (List.nodup_append.mp this).2.1

/-- A process with a name of its own goes on, others stay, and they know what they did. -/
theorem teamed_set {s : Sys E Op Θ σ} {rest : List (Action σ ι μ)} {pid : Nat} {shared : σ}
    {x : Option (Θ × Prog E Op Unit)} (hs : s.Teamed M name L rest)
    (others : ∀ q θ p, q ≠ pid → s.procs q = some (θ, p) → L θ p shared)
    (mine : ∀ θ p, x = some (θ, p) → L θ p shared ∧ name θ ∉ spawned M name rest ∧
      ∀ q θ' p', q ≠ pid → s.procs q = some (θ', p') → name θ ≠ name θ') :
    (Sys.setProc { s with shared := shared } pid x).Teamed M name L rest := by
  have found {q : Nat} {θ : Θ} {p : Prog E Op Unit}
      (hq : (Sys.setProc { s with shared := shared } pid x).procs q = some (θ, p)) :
      q = pid ∧ x = some (θ, p) ∨ q ≠ pid ∧ s.procs q = some (θ, p) := by
    by_cases hqp : q = pid
    · rw [hqp, Sys.setProc_same] at hq
      exact Or.inl ⟨hqp, hq⟩
    · rw [Sys.setProc_of_ne _ _ hqp] at hq
      exact Or.inr ⟨hqp, hq⟩
  refine ⟨fun q θ p hq => ?_, fun q q' θ θ' p p' hq hq' hname => ?_, fun q θ p hq => ?_, hs.fresh⟩
  · rcases found hq with ⟨-, hx⟩ | ⟨hne, hp⟩
    · exact (mine θ p hx).1
    · exact others q θ p hne hp
  · rcases found hq with ⟨heq, hx⟩ | ⟨hne, hp⟩
    · rcases found hq' with ⟨heq', -⟩ | ⟨hne', hp'⟩
      · rw [heq, heq']
      · exact absurd hname ((mine θ p hx).2.2 q' θ' p' hne' hp')
    · rcases found hq' with ⟨-, hx'⟩ | ⟨-, hp'⟩
      · exact absurd hname.symm ((mine θ' p' hx').2.2 q θ p hne hp)
      · exact hs.distinct q q' θ θ' p p' hp hp' hname
  · rcases found hq with ⟨-, hx⟩ | ⟨-, hp⟩
    · exact (mine θ p hx).2.1
    · exact hs.unspawned q θ p hp

/-- **One action** of a team. -/
theorem teamed_next (h : Team M c name L G) {s : Sys E Op Θ σ} {a : Action σ ι μ}
    {rest : List (Action σ ι μ)} (hs : s.Teamed M name L (a :: rest)) (ha : c.Met s a) :
    (s.next M a).Teamed M name L rest := by
  have hrest := teamed_mono hs
  have others {pid : Nat} {θ : Θ} {p : Prog E Op Unit} (hp : s.procs pid = some (θ, p)) {s' : σ}
      (hG : G (name θ) s.shared s') (q : Nat) (θ' : Θ) (p' : Prog E Op Unit) (hne : q ≠ pid)
      (hq : s.procs q = some (θ', p')) : L θ' p' s' :=
    h.stable (name θ) θ' p' _ _ (fun hname => hne (hs.distinct q pid θ' θ p' p hq hp hname)) hG
      (hs.each q θ' p' hq)
  have hdid := Sys.next_did M s a
  generalize Sys.next M s a = after at hdid ⊢
  cases hdid with
  | nothing => exact hrest
  | changed f =>
    exact ⟨fun pid θ p hp => h.outside θ p _ _ ha (hs.each pid θ p hp), hrest.distinct,
      hrest.unspawned, hrest.fresh⟩
  | @spawned pid m hfree =>
    refine teamed_set hrest (fun q θ p _ hq => hs.each q θ p hq) fun θ p hx => ?_
    have hstart : M.start m = (θ, p) := Option.some.inj hx
    have hcons : PveMaster.spawned M name (.spawn pid m :: rest) =
      name (M.start m).1 :: PveMaster.spawned M name rest := rfl
    have hL := h.start m s.shared ha
    have hfresh := hs.fresh
    rw [hcons, hstart, List.nodup_cons] at hfresh
    rw [hstart] at hL
    refine ⟨hL, hfresh.1, fun q θ' p' _ hq hname => hs.unspawned q θ' p' hq ?_⟩
    rw [hcons, hstart, ← hname]
    exact List.mem_cons_self
  | @ended pid θ p _ hp _ =>
    exact teamed_set hrest (others hp (h.drop θ s.shared)) nofun
  | @performed pid i θ θ' ρ o k s' r hp hexec =>
    simp only [Conditions.Met, hp] at ha
    obtain ⟨hname, hG, hL⟩ := h.step o k i θ θ' s.shared s' r (hs.each pid θ _ hp) ha hexec
    refine teamed_set hrest (others hp hG) fun θ₂ p₂ hx => ?_
    have : (θ', k r) = (θ₂, p₂) := Option.some.inj hx
    cases this
    rw [hname]
    exact ⟨hL, hrest.unspawned pid θ _ hp, fun q θ' p' hne hq heq =>
      hne (hs.distinct pid q θ θ' _ p' hp hq heq).symm⟩

/-- **A run** of a team, cut anywhere. -/
theorem teamed_run (h : Team M c name L G) {s : Sys E Op Θ σ} {before after : List (Action σ ι μ)}
    (hs : s.Teamed M name L (before ++ after)) (ha : Along (Sys.next M) c.Met s before) :
    (runFrom (Sys.next M) s before).Teamed M name L after := by
  induction before generalizing s with
  | nil => exact hs
  | cons a rest ih => exact ih (h.teamed_next hs ha.1) ha.2

/-- What a team makes true of every next action is true along a run. -/
theorem along_run (h : Team M c name L G) {Q : Sys E Op Θ σ → Action σ ι μ → Prop}
    (holds : ∀ s a, (∀ pid θ p, s.procs pid = some (θ, p) → L θ p s.shared) → c.Met s a → Q s a)
    {s : Sys E Op Θ σ} {actions : List (Action σ ι μ)} (hs : s.Teamed M name L actions)
    (ha : Along (Sys.next M) c.Met s actions) : Along (Sys.next M) Q s actions := by
  induction actions generalizing s with
  | nil => trivial
  | cons a rest ih => exact ⟨holds s a hs.each ha.1, ih (h.teamed_next hs ha.1) ha.2⟩

/-- The same conditions on runs that start no process under a name with a trace. -/
def untraced (M : Machine E Op Θ σ ι μ) (c : Conditions E Op Θ σ ι μ) (name : Θ → ν) (U : ν → σ → Prop) :
    Conditions E Op Θ σ ι μ :=
  { c with spawn := fun m s => c.spawn m s ∧ ¬ U (name (M.start m).1) s }

/-- **Only a process of a name leaves its trace**, so a name that is yet to be given has none. -/
theorem along_untraced {U : ν → σ → Prop}
    (step : ∀ {ρ : Type} (o : Op ρ) (i : ι) (θ θ' : Θ) (s s' : σ) (r : ρ) x, M.exec o i θ s = some (θ', s', r) →
      name θ' = name θ ∧ (U x s' → U x s ∨ x = name θ))
    (drop : ∀ θ s x, U x (M.drop θ s) → U x s ∨ x = name θ) (env : ∀ s s' x, c.env s s' → U x s' → U x s)
    {s : Sys E Op Θ σ} {actions : List (Action σ ι μ)}
    (hprocs : ∀ pid θ p, s.procs pid = some (θ, p) → name θ ∉ spawned M name actions)
    (hfresh : (spawned M name actions).Nodup) (hU : ∀ x ∈ spawned M name actions, ¬ U x s.shared)
    (ha : Along (Sys.next M) c.Met s actions) : Along (Sys.next M) (untraced M c name U).Met s actions := by
  induction actions generalizing s with
  | nil => trivial
  | cons a rest ih =>
    obtain ⟨l, hl⟩ : ∃ l, spawned M name (a :: rest) = l ++ spawned M name rest := spawned_cons a rest
    have hrest {x : ν} (hx : x ∈ spawned M name rest) : x ∈ spawned M name (a :: rest) := by
      rw [hl]
      exact List.mem_append_right _ hx
    have hfresh' : (spawned M name rest).Nodup := by
      rw [hl] at hfresh
      exact (List.nodup_append.mp hfresh).2.1
    refine ⟨?_, ih ?_ hfresh' ?_ ha.2⟩
    · cases a with
      | spawn pid m => exact ⟨ha.1, hU _ List.mem_cons_self⟩
      | step pid i => exact ha.1
      | crash pid => exact ha.1
      | env f => exact ha.1
    · have hdid := Sys.next_did M s a
      generalize Sys.next M s a = after at hdid ⊢
      intro q θ p hq hx
      have found {shared : σ} {pid : Nat} {y : Option (Θ × Prog E Op Unit)}
          (hq : (Sys.setProc { s with shared := shared } pid y).procs q = some (θ, p)) :
          y = some (θ, p) ∨ s.procs q = some (θ, p) := by
        by_cases hqp : q = pid
        · rw [hqp, Sys.setProc_same] at hq
          exact Or.inl hq
        · rw [Sys.setProc_of_ne _ _ hqp] at hq
          exact Or.inr hq
      cases hdid with
      | nothing => exact hprocs q θ p hq (hrest hx)
      | changed f => exact hprocs q θ p hq (hrest hx)
      | spawned m free =>
        rcases @found s.shared _ _ hq with hy | hp
        · have hname : name θ = name (M.start m).1 := by rw [Option.some.inj hy]
          rw [hname] at hx
          exact (List.nodup_cons.mp (hfresh : (name (M.start m).1 :: spawned M name rest).Nodup)).1 hx
        · exact hprocs q θ p hp (hrest hx)
      | ended live ends =>
        rcases found hq with hy | hp
        · cases hy
        · exact hprocs q θ p hp (hrest hx)
      | performed live exec =>
        rcases found hq with hy | hp
        · cases hy
          rw [(step _ _ _ _ _ _ _ (name θ) exec).1] at hx
          exact hprocs _ _ _ live (hrest hx)
        · exact hprocs q θ p hp (hrest hx)
    · intro x hx hafter
      have hbefore := hU x (hrest hx)
      have hdid := Sys.next_did M s a
      generalize Sys.next M s a = after at hdid hafter
      cases hdid with
      | nothing => exact hbefore hafter
      | changed f => exact hbefore (env _ _ x ha.1 hafter)
      | spawned m free => exact hbefore hafter
      | ended live ends =>
        rcases drop _ _ x hafter with h | rfl
        · exact hbefore h
        · exact hprocs _ _ _ live (hrest hx)
      | performed live exec =>
        rcases (step _ _ _ _ _ _ _ x exec).2 hafter with h | rfl
        · exact hbefore h
        · exact hprocs _ _ _ live (hrest hx)

theorem teamed_idle {s : σ} {actions : List (Action σ ι μ)} (h : (spawned M name actions).Nodup) :
    (Sys.idle s : Sys E Op Θ σ).Teamed M name L actions := ⟨nofun, nofun, nofun, h⟩

/-! A team can learn more about the processes of one name, once none is started again. -/

/-- The same conditions on runs that do not give a name again, for what is known of the processes
of one name after the last of them has been started. -/
def sparing (M : Machine E Op Θ σ ι μ) (c : Conditions E Op Θ σ ι μ)
    (name : Θ → ν) (x : ν) : Conditions E Op Θ σ ι μ :=
  { c with spawn := fun m s => c.spawn m s ∧ name (M.start m).1 ≠ x }

theorem along_sparing {x : ν} {s : Sys E Op Θ σ} {actions : List (Action σ ι μ)}
    (hx : x ∉ spawned M name actions) (ha : Along (Sys.next M) c.Met s actions) :
    Along (Sys.next M) (sparing M c name x).Met s actions := by
  induction actions generalizing s with
  | nil => trivial
  | cons a rest ih =>
    obtain ⟨l, hl⟩ : ∃ l, spawned M name (a :: rest) = l ++ spawned M name rest :=
    spawned_cons a rest
    refine ⟨?_, ih (fun hmem => hx (by rw [hl]; exact List.mem_append_right _ hmem)) ha.2⟩
    cases a with
    | spawn pid m =>
      refine ⟨ha.1, fun heq => hx ?_⟩
      rw [← heq]
      exact List.mem_cons_self
    | step pid i => exact ha.1
    | crash pid => exact ha.1
    | env f => exact ha.1

/-- What the processes of one name keep knowing. -/
theorem strengthen (h : Team M c name L G) {x : ν} {R : Θ → Prog E Op Unit → σ → Prop}
    (own : ∀ {ρ : Type} (o : Op ρ) (k : ρ → Prog E Op Unit) (i : ι) (θ θ' : Θ) (s s' : σ) (r : ρ),
      name θ = x → L θ (.node o k) s → R θ (.node o k) s → c.step θ (.node o k) i s →
        M.exec o i θ s = some (θ', s', r) → R θ' (k r) s')
    (others : ∀ y θ p s s', y ≠ x → G y s s' → R θ p s → R θ p s')
    (outside : ∀ θ p s s', c.env s s' → R θ p s → R θ p s') :
    Team M (sparing M c name x) name (fun θ p s => L θ p s ∧ (name θ = x → R θ p s)) G where
  start m s hm := ⟨h.start m s hm.1, fun heq => absurd heq hm.2⟩
  step o k i θ θ' s s' r hL hc hexec := by
    obtain ⟨hname, hG, hL'⟩ := h.step o k i θ θ' s s' r hL.1 hc hexec
    exact ⟨hname, hG, hL', fun heq => own o k i θ θ' s s' r (hname ▸ heq) hL.1
      (hL.2 (hname ▸ heq)) hc hexec⟩
  drop := h.drop
  outside θ p s s' he hL := ⟨h.outside θ p s s' he hL.1, fun heq => outside θ p s s' he (hL.2 heq)⟩
  stable y θ p s s' hne hG hL := ⟨h.stable y θ p s s' hne hG hL.1, fun heq =>
    others y θ p s s' (fun hy => hne (heq.trans hy.symm)) hG (hL.2 heq)⟩

end Team

/-! ### Crews

A team beside an invariant of the shared state. -/

/-- The same conditions in states the invariant holds of. With these a team may use the invariant
without having to keep it. -/
def Conditions.during (c : Conditions E Op Θ σ ι μ) (I : σ → Prop) : Conditions E Op Θ σ ι μ where
  spawn m s := c.spawn m s ∧ I s
  step θ p i s := c.step θ p i s ∧ I s
  crash := c.crash
  env s s' := c.env s s' ∧ I s

/-- A team beside an invariant of the shared state: the team is proved in states that satisfy the
invariant, and the invariant from what the processes know. -/
structure Crew {ν : Type} (M : Machine E Op Θ σ ι μ) (c : Conditions E Op Θ σ ι μ) (name : Θ → ν)
    (I : σ → Prop) (L : Θ → Prog E Op Unit → σ → Prop) (G : ν → σ → σ → Prop) : Prop where
  team : Team M (c.during I) name L G
  step : ∀ {ρ : Type} (o : Op ρ) (k : ρ → Prog E Op Unit) (i : ι) (θ θ' : Θ) (s s' : σ) (r : ρ),
    I s → L θ (.node o k) s → c.step θ (.node o k) i s → M.exec o i θ s = some (θ', s', r) → I s'
  drop : ∀ θ s, I s → I (M.drop θ s)
  env : ∀ s s', I s → c.env s s' → I s'

namespace Crew

variable {ν : Type} {M : Machine E Op Θ σ ι μ} {c : Conditions E Op Θ σ ι μ} {name : Θ → ν}
  {I : σ → Prop} {L : Θ → Prog E Op Unit → σ → Prop} {G : ν → σ → σ → Prop}

theorem met_during {s : Sys E Op Θ σ} {a : Action σ ι μ} (hI : I s.shared) (ha : c.Met s a) :
    (c.during I).Met s a := by
  cases a with
  | spawn pid m => exact ⟨ha, hI⟩
  | env f => exact ⟨ha, hI⟩
  | step pid i =>
    simp only [Conditions.Met] at ha ⊢
    cases hp : s.procs pid with
    | none => trivial
    | some proc =>
      rw [hp] at ha
      exact ⟨ha, hI⟩
  | crash pid =>
    simp only [Conditions.Met] at ha ⊢
    cases hp : s.procs pid with
    | none => trivial
    | some proc =>
      rw [hp] at ha
      exact ha

/-- What an action of a crew may do to the shared state, whoever takes it. A property of states
that survives these survives a run. -/
inductive Changes (c : Conditions E Op Θ σ ι μ) (G : ν → σ → σ → Prop) (s : σ) : σ → Prop
  | same : Changes c G s s
  | outside {s' : σ} (h : c.env s s') : Changes c G s s'
  | member {s' : σ} (x : ν) (h : G x s s') : Changes c G s s'

/-- **One action** of a crew. -/
theorem crew_next (h : Crew M c name I L G) {s : Sys E Op Θ σ} {a : Action σ ι μ}
    {rest : List (Action σ ι μ)} (hs : s.Teamed M name L (a :: rest)) (hI : I s.shared) (ha : c.Met s a) :
    (s.next M a).Teamed M name L rest ∧ I (s.next M a).shared ∧
      Changes c G s.shared (s.next M a).shared := by
  have hduring := met_during hI ha
  refine ⟨h.team.teamed_next hs hduring, ?_⟩
  have hdid := Sys.next_did M s a
  generalize Sys.next M s a = after at hdid ⊢
  cases hdid with
  | nothing => exact ⟨hI, .same⟩
  | changed f => exact ⟨h.env _ _ hI ha, .outside ha⟩
  | spawned m hfree => exact ⟨hI, .same⟩
  | @ended pid θ p _ hp _ => exact ⟨h.drop θ s.shared hI, .member (name θ) (h.team.drop θ s.shared)⟩
  | @performed pid i θ θ' ρ o k s' r hp hexec =>
    simp only [Conditions.Met, hp] at ha hduring
    have hL := hs.each pid θ _ hp
    obtain ⟨-, hG, -⟩ := h.team.step o k i θ θ' s.shared s' r hL hduring hexec
    exact ⟨h.step o k i θ θ' s.shared s' r hI hL ha hexec, .member (name θ) hG⟩

/-- **A run** of a crew, cut anywhere. -/
theorem crew_run (h : Crew M c name I L G) {s : Sys E Op Θ σ} {before after : List (Action σ ι μ)}
    (hs : s.Teamed M name L (before ++ after)) (hI : I s.shared)
    (ha : Along (Sys.next M) c.Met s before) :
    (runFrom (Sys.next M) s before).Teamed M name L after ∧ I (runFrom (Sys.next M) s before).shared := by
  induction before generalizing s with
  | nil => exact ⟨hs, hI⟩
  | cons a rest ih =>
    obtain ⟨hs', hI', -⟩ := h.crew_next hs hI ha.1
    exact ih hs' hI' ha.2

/-- What every change keeps, a run keeps. -/
theorem keeps_run (h : Crew M c name I L G) {J : σ → Prop}
    (keeps : ∀ s s', I s → Changes c G s s' → J s → J s') {s : Sys E Op Θ σ}
    {before after : List (Action σ ι μ)} (hs : s.Teamed M name L (before ++ after)) (hI : I s.shared)
    (hJ : J s.shared) (ha : Along (Sys.next M) c.Met s before) :
    J (runFrom (Sys.next M) s before).shared := by
  induction before generalizing s with
  | nil => exact hJ
  | cons a rest ih =>
    obtain ⟨hs', hI', hchange⟩ := h.crew_next hs hI ha.1
    exact ih hs' hI' (keeps _ _ hI hchange hJ) ha.2

/-- What a crew makes true of every next action is true along a run. -/
theorem along_run (h : Crew M c name I L G) {Q : Sys E Op Θ σ → Action σ ι μ → Prop}
    (holds : ∀ s a, (∀ pid θ p, s.procs pid = some (θ, p) → L θ p s.shared) → I s.shared → c.Met s a →
      Q s a)
    {s : Sys E Op Θ σ} {actions : List (Action σ ι μ)} (hs : s.Teamed M name L actions) (hI : I s.shared)
    (ha : Along (Sys.next M) c.Met s actions) : Along (Sys.next M) Q s actions := by
  induction actions generalizing s with
  | nil => trivial
  | cons a rest ih =>
    obtain ⟨hs', hI', -⟩ := h.crew_next hs hI ha.1
    exact ⟨holds s a hs.each hI ha.1, ih hs' hI' ha.2⟩

end Crew

/-! ### Weakest preconditions -/

/-- What a program may rely on and has to guarantee. `may` restricts the inputs of its operations,
`rely` is what others can do between two of them, and `guar` bounds what each of its own does. -/
structure Contract (Op : Type → Type) (Θ σ ι : Type) where
  may : {ρ : Type} → Op ρ → ι → Θ → σ → Prop
  rely : σ → σ → Prop
  guar : σ → σ → Prop

/-- The interference a contract allows is any number of steps, so nothing is lost by stating it
for one pause at a time. -/
structure Contract.Closed (C : Contract Op Θ σ ι) : Prop where
  refl : ∀ s, C.rely s s
  trans : ∀ s s' s'', C.rely s s' → C.rely s' s'' → C.rely s s''

section WP
variable (M : Machine E Op Θ σ ι μ) (C : Contract Op Θ σ ι) {α β ρ : Type}

/-- The weakest precondition of a program: whatever others do before each of its operations, the
operation keeps to the guarantee and the rest of the program has its own precondition. At the end
the postcondition is asked for. -/
def wp : Prog E Op α → (Except E α → Θ → σ → Prop) → Θ → σ → Prop
  | .done r, Q, θ, s => Q r θ s
  | .node o k, Q, θ, s => ∀ s', C.rely s s' → ∀ i θ' s'' r, C.may o i θ s' →
      M.exec o i θ s' = some (θ', s'', r) → C.guar s' s'' ∧ wp (k r) Q θ' s''

variable {M C}

theorem wp_mono {p : Prog E Op α} {Q Q' : Except E α → Θ → σ → Prop} {θ : Θ} {s : σ}
    (h : ∀ r θ s, Q r θ s → Q' r θ s) (hp : wp M C p Q θ s) : wp M C p Q' θ s := by
  induction p generalizing θ s with
  | done r => exact h r θ s hp
  | node o k ih =>
    intro s' hr i θ' s'' r hmay hexec
    obtain ⟨hg, hw⟩ := hp s' hr i θ' s'' r hmay hexec
    exact ⟨hg, ih r hw⟩

/-- What a program needs to know survives interference, if its postcondition does here. -/
theorem wp_shift (hC : C.Closed) {p : Prog E Op α} {Q : Except E α → Θ → σ → Prop} {θ : Θ}
    {s s' : σ} (hQ : ∀ r, Q r θ s → Q r θ s') (hr : C.rely s s') (hp : wp M C p Q θ s) :
    wp M C p Q θ s' := by
  cases p with
  | done r => exact hQ r hp
  | node o k => exact fun s₁ hr₁ => hp s₁ (hC.trans s s' s₁ hr hr₁)

/-- What a program needs to know survives interference, if its postcondition does. -/
theorem wp_rely (hC : C.Closed) {p : Prog E Op α} {Q : Except E α → Θ → σ → Prop} {θ : Θ}
    {s s' : σ} (hQ : ∀ r θ s s', C.rely s s' → Q r θ s → Q r θ s') (hr : C.rely s s')
    (hp : wp M C p Q θ s) : wp M C p Q θ s' := wp_shift hC (fun r => hQ r θ s s' hr) hr hp

theorem wp_andThen {p : Prog E Op α} {f : Except E α → Prog E Op β}
    {Q : Except E β → Θ → σ → Prop} {θ : Θ} {s : σ} :
    wp M C (p.andThen f) Q θ s ↔ wp M C p (fun r θ s => wp M C (f r) Q θ s) θ s := by
  induction p generalizing θ s with
  | done r => exact Iff.rfl
  | node o k ih =>
    constructor
    · intro h s' hr i θ' s'' r hmay hexec
      obtain ⟨hg, hw⟩ := h s' hr i θ' s'' r hmay hexec
      exact ⟨hg, (ih r).mp hw⟩
    · intro h s' hr i θ' s'' r hmay hexec
      obtain ⟨hg, hw⟩ := h s' hr i θ' s'' r hmay hexec
      exact ⟨hg, (ih r).mpr hw⟩

@[simp] theorem wp_pure {a : α} {Q : Except E α → Θ → σ → Prop} {θ : Θ} {s : σ} :
    wp M C (pure a : Prog E Op α) Q θ s ↔ Q (.ok a) θ s := Iff.rfl

@[simp] theorem wp_raise {e : E} {Q : Except E α → Θ → σ → Prop} {θ : Θ} {s : σ} :
    wp M C (Prog.raise e : Prog E Op α) Q θ s ↔ Q (.error e) θ s := Iff.rfl

@[simp] theorem wp_ofExcept {x : Except E α} {Q : Except E α → Θ → σ → Prop} {θ : Θ} {s : σ} :
    wp M C (Prog.ofExcept x : Prog E Op α) Q θ s ↔ Q x θ s := Iff.rfl

/-- The bind rule: an error passes the rest of the program by. -/
theorem wp_bind {p : Prog E Op α} {f : α → Prog E Op β} {Q : Except E β → Θ → σ → Prop} {θ : Θ}
    {s : σ} (h : wp M C p (fun r θ s => match r with
      | .ok a => wp M C (f a) Q θ s
      | .error e => Q (.error e) θ s) θ s) : wp M C (p >>= f) Q θ s := by
  refine wp_andThen.mpr (wp_mono (fun r θ s hr => ?_) h)
  cases r with
  | ok a => exact hr
  | error e => exact hr

theorem wp_attempt {p : Prog E Op α} {Q : Except E (Except E α) → Θ → σ → Prop} {θ : Θ} {s : σ}
    (h : wp M C p (fun r θ s => Q (.ok r) θ s) θ s) : wp M C p.attempt Q θ s :=
  wp_andThen.mpr h

theorem wp_always {p : Prog E Op α} {last : Prog E Op Unit} {Q : Except E α → Θ → σ → Prop} {θ : Θ}
    {s : σ} (h : wp M C p (fun r θ s => wp M C last (fun l θ s => match l with
      | .ok _ => Q r θ s
      | .error e => Q (.error e) θ s) θ s) θ s) : wp M C (p.always last) Q θ s := by
  refine wp_andThen.mpr (wp_mono (fun r θ s hr => ?_) h)
  refine wp_andThen.mpr (wp_mono (fun l θ s hl => ?_) hr)
  cases l with
  | ok _ => exact hl
  | error e => exact hl

/-- One operation whose result is the value. -/
theorem wp_op {o : Op ρ} {Q : Except E ρ → Θ → σ → Prop} {θ : Θ} {s : σ}
    (h : ∀ s', C.rely s s' → ∀ i θ' s'' r, C.may o i θ s' → M.exec o i θ s' = some (θ', s'', r) →
      C.guar s' s'' ∧ Q (.ok r) θ' s'') : wp M C (Prog.op o) Q θ s := h

/-- One operation that can raise. -/
theorem wp_perform {o : Op (Except E ρ)} {Q : Except E ρ → Θ → σ → Prop} {θ : Θ} {s : σ}
    (h : ∀ s', C.rely s s' → ∀ i θ' s'' r, C.may o i θ s' → M.exec o i θ s' = some (θ', s'', r) →
      C.guar s' s'' ∧ Q r θ' s'') : wp M C (Prog.perform o) Q θ s := h

/-- A program of operations that each keep what the process knows. -/
theorem wp_only {P : {ρ : Type} → Op ρ → Prop} {J : Θ → σ → Prop}
    (stable : ∀ θ s s', C.rely s s' → J θ s → J θ s')
    (step : ∀ {ρ : Type} (o : Op ρ) i θ θ' s s' r, P o → J θ s → C.may o i θ s →
      M.exec o i θ s = some (θ', s', r) → C.guar s s' ∧ J θ' s')
    {p : Prog E Op α} (hp : p.Only P) {θ : Θ} {s : σ} (hJ : J θ s) : wp M C p (fun _ θ s => J θ s) θ s := by
  induction p generalizing θ s with
  | done r => exact hJ
  | node o k ih =>
    intro s' hr i θ' s'' r hmay hexec
    obtain ⟨hguar, hJ'⟩ := step o i θ θ' s' s'' r hp.1 (stable θ s s' hr hJ) hmay hexec
    exact ⟨hguar, ih r (hp.2 r) hJ'⟩

end WP

/-! ### Systems of such programs -/

section Soundness
variable {M : Machine E Op Θ σ ι μ} {C : Contract Op Θ σ ι} {c : Conditions E Op Θ σ ι μ}
  {Q : Except E Unit → Θ → σ → Prop}

/-- Programs that guarantee what the others rely on form a protocol, beside an invariant. -/
theorem Protocol.of_wp_during {I : σ → Prop} (hC : C.Closed) (hG : ∀ s s', C.guar s s' → C.rely s s')
    (keeps : ∀ s s', C.guar s s' → I s → I s')
    (hQ : ∀ r θ s s', C.rely s s' → Q r θ s → Q r θ s')
    (start : ∀ m s, I s → c.spawn m s → wp M C (M.start m).2 Q (M.start m).1 s)
    (may : ∀ {ρ : Type} (o : Op ρ) k i θ s, I s → c.step θ (.node o k) i s → C.may o i θ s)
    (env : ∀ s s', I s → c.env s s' → I s' ∧ C.rely s s')
    (drop : ∀ θ s, I s → I (M.drop θ s) ∧ C.rely s (M.drop θ s)) :
    Protocol M c I (fun θ p s => wp M C p Q θ s) C.rely where
  refl := hC.refl
  start := start
  step o k i θ θ' s s' r hI hL hc hexec := by
    obtain ⟨hg, hw⟩ := hL s (hC.refl s) i θ' s' r (may o k i θ s hI hc) hexec
    exact ⟨keeps s s' hg hI, hG s s' hg, hw⟩
  drop θ _ s hI _ _ := drop θ s hI
  env := env
  stable _ _ _ _ hr hw := wp_rely hC hQ hr hw

/-- Programs that guarantee what the others rely on form a protocol. -/
theorem Protocol.of_wp (hC : C.Closed) (hG : ∀ s s', C.guar s s' → C.rely s s')
    (hQ : ∀ r θ s s', C.rely s s' → Q r θ s → Q r θ s')
    (start : ∀ m s, c.spawn m s → wp M C (M.start m).2 Q (M.start m).1 s)
    (may : ∀ {ρ : Type} (o : Op ρ) k i θ s, c.step θ (.node o k) i s → C.may o i θ s)
    (env : ∀ s s', c.env s s' → C.rely s s') (drop : ∀ θ s, C.rely s (M.drop θ s)) :
    Protocol M c (fun _ => True) (fun θ p s => wp M C p Q θ s) C.rely :=
  .of_wp_during hC hG (fun _ _ _ _ => trivial) hQ (fun m s _ hm => start m s hm)
    (fun o k i θ s _ hc => may o k i θ s hc) (fun s s' _ h => ⟨trivial, env s s' h⟩)
    (fun θ s _ => ⟨trivial, drop θ s⟩)

/-- Programs whose guarantees the others may rely on form a crew. -/
theorem Crew.of_wp {ν : Type} {name : Θ → ν} {I : σ → Prop} {C : ν → Contract Op Θ σ ι}
    (hC : ∀ x, (C x).Closed) (apart : ∀ x y s s', x ≠ y → (C x).guar s s' → (C y).rely s s')
    (keeps : ∀ x s s', (C x).guar s s' → I s → I s')
    (hQ : ∀ r θ s s', (C (name θ)).rely s s' → Q r θ s → Q r θ s')
    (start : ∀ m s, I s → c.spawn m s →
      wp M (C (name (M.start m).1)) (M.start m).2 Q (M.start m).1 s)
    (may : ∀ {ρ : Type} (o : Op ρ) k i θ s, I s → c.step θ (.node o k) i s → (C (name θ)).may o i θ s)
    (named : ∀ {ρ : Type} (o : Op ρ) i θ θ' s s' r, M.exec o i θ s = some (θ', s', r) → name θ' = name θ)
    (env : ∀ s s', I s → c.env s s' → I s' ∧ ∀ x, (C x).rely s s')
    (drop : ∀ θ s, (C (name θ)).guar s (M.drop θ s)) :
    Crew M c name I (fun θ p s => wp M (C (name θ)) p Q θ s) (fun x => (C x).guar) where
  team :=
    { start := fun m s hm => start m s hm.2 hm.1
      step := fun o k i θ θ' s s' r hL hc hexec => by
        obtain ⟨hg, hw⟩ := hL s ((hC _).refl s) i θ' s' r (may o k i θ s hc.2 hc.1) hexec
        have hname := named o i θ θ' s s' r hexec
        refine ⟨hname, hg, ?_⟩
        rw [hname]
        exact hw
      drop := drop
      outside := fun θ p s s' he hL => by
        have hr := (env s s' he.2 he.1).2 (name θ)
        exact wp_shift (hC _) (fun r => hQ r θ s s' hr) hr hL
      stable := fun x θ p s s' hne hG hL => by
        have hr := apart x (name θ) s s' hne.symm hG
        exact wp_shift (hC _) (fun r => hQ r θ s s' hr) hr hL }
  step o k i θ θ' s s' r hI hL hc hexec := by
    obtain ⟨hg, -⟩ := hL s ((hC _).refl s) i θ' s' r (may o k i θ s hI hc) hexec
    exact keeps _ _ _ hg hI
  drop θ s hI := keeps _ _ _ (drop θ s) hI
  env s s' hI he := (env s s' hI he).1

end Soundness

theorem Sys.holds_idle {I : σ → Prop} {L : Θ → Prog E Op Unit → σ → Prop} {s : σ} (h : I s) :
    (Sys.idle s : Sys E Op Θ σ).Holds I L := ⟨h, nofun⟩

end PveMaster
