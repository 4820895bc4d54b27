import PveMaster.Console.Runs

/-! Console grants are single-use and revocable.

What a connection consumes is what its message presents, and what it opens is what it has
consumed. The token of a session is gone from Redis with the first that consumes it, in one
command; so of any number of connections that present it, in whatever order their commands come,
one at the most goes on. What was true of the user and of the workload when the session was made
is tested again after that. -/
namespace PveMaster.Console
open Prog

variable {rt : Runtime} {settings : ConsoleSettings} {hash : String → String}

/-! ### Attempts -/

/-- The only session a message may consume, and the only token. -/
def ConsoleMessage.Presents (settings : ConsoleSettings) (m : ConsoleMessage) {ρ : Type} (o : ConsoleOp ρ) : Prop :=
  match o with
  | .consume id token => ∃ w, m = .connect w ∧ w.sessionId = id ∧ w.token? settings = some token
  | _ => True

section Presents
variable {m : ConsoleMessage}

theorem only_loadConnection (g : ConsoleGrant) : (loadConnection rt g).Only (m.Presents settings) := by
  unfold loadConnection
  refine only_bind (only_perform trivial) fun found => ?_
  split
  · trivial
  · refine only_bind (only_perform trivial) fun workload => ?_
    split
    · trivial
    · split
      · trivial
      split
      · trivial
      split
      · trivial
      refine only_bind (only_perform trivial) fun client => ?_
      split <;> trivial

theorem only_serveConnection (g : ConsoleGrant) (c : ConsoleConnection) :
    (serveConnection g c).Only (m.Presents settings) := by
  unfold serveConnection
  refine only_bind (only_perform trivial) fun _ => only_bind (only_op trivial) fun _ => ?_
  refine only_bind (only_perform trivial) fun _ => only_bind only_done fun frame => only_bind ?_ fun _ => ?_
  · cases frame with
    | none => trivial
    | some frame => exact only_perform trivial
  · exact only_bind (only_op trivial) fun _ => only_perform trivial

theorem only_endConnection (g : ConsoleGrant) (client : Bool) (ended : Except Exn Unit) :
    (endConnection g client ended).Only (m.Presents settings) := by
  unfold endConnection
  refine only_bind ?_ fun _ => only_bind (only_op trivial) fun _ => ?_
  · cases client with
    | false => trivial
    | true => exact only_perform trivial
  · cases ended with
    | ok _ => trivial
    | error e =>
      dsimp only
      split <;> trivial

theorem only_holdConnection (g : ConsoleGrant) : (holdConnection rt g).Only (m.Presents settings) := by
  unfold holdConnection
  refine only_bind (only_attempt (only_loadConnection g)) fun loaded => ?_
  split
  · exact only_endConnection g _ _
  · exact only_endConnection g _ _
  · exact only_bind (only_attempt (only_serveConnection g _)) fun _ => only_endConnection g _ _

/-- **A message consumes** what it presents. -/
theorem only_program (m : ConsoleMessage) : (m.program rt settings).Only (m.Presents settings) := by
  cases m with
  | create principal workloadId =>
    refine only_bind ?_ fun _ => only_done
    unfold createSession
    refine only_bind (only_perform trivial) fun _ => only_bind (only_perform trivial) fun _ => ?_
    refine only_bind (only_op trivial) fun _ => only_bind (only_perform trivial) fun _ => ?_
    exact only_bind (only_perform trivial) fun _ => only_bind (only_perform trivial) fun _ => only_done
  | wait seconds => exact only_op trivial
  | connect w =>
    show (consoleWebsocket rt settings w).Only _
    unfold consoleWebsocket
    cases htoken : w.token? settings with
    | none => trivial
    | some token =>
      refine only_bind (only_op ⟨w, rfl, rfl, htoken⟩) fun values => ?_
      split
      · trivial
      · refine only_bind (only_op trivial) fun taken => ?_
        split
        · exact only_holdConnection _
        · trivial

/-- What is consumed is what the operation presents. -/
theorem exec_consumed {ρ : Type} {o : ConsoleOp ρ} {i : ConsoleInput} {θ θ' : ConsoleProcess} {s s' : Site} {r : ρ}
    (h : (consoleMachine rt settings hash).exec o i θ s = some (θ', s', r)) (hm : m.Presents settings o)
    {x : Consumption} (hx : x ∈ s'.consumed) :
    x ∈ s.consumed ∨ x.connection = θ.number ∧ m.Presents settings (.consume x.sessionId x.token) := by
  have hexec : o.exec rt hash i θ s = (θ', s', r) := Option.some.inj h
  have hstate : (o.exec rt hash i θ s).2.1 = s' := congrArg (fun out => out.2.1) hexec
  have quiet (hq : o.Quiet) : x ∈ s.consumed := by
    obtain ⟨-, hstill | ⟨id, ttl, rfl⟩⟩ := quiet_cases hq h
    · rw [hstill.consumed] at hx
      exact hx
    · rcases expire_cases s id ttl with hc | ⟨_, _, -, -, hc⟩ <;> rw [hc] at hx <;> exact hx
  have call {α : Type} {c : RedisOutcome} {out : Site × α} {failed : α} (hc : (c.call s out failed).1 = s')
      (hout : out.1.consumed = s.consumed) : x ∈ s.consumed := by
    rw [← hc] at hx
    rcases RedisOutcome.call_fst c s out failed with heq | heq
    · rw [heq] at hx
      exact hx
    · rw [heq, hout] at hx
      exact hx
  cases o with
  | consume id token =>
    have hc : (i.redis.call s (s.consume hash θ.number id token) []).1 = s' := hstate
    rw [← hc] at hx
    rcases RedisOutcome.call_fst i.redis s (s.consume hash θ.number id token) [] with heq | heq
    · rw [heq] at hx
      exact Or.inl hx
    · rw [heq] at hx
      unfold Site.consume at hx
      split at hx
      · split at hx
        · rcases List.mem_append.mp hx with hx | hx
          · exact Or.inl hx
          · rw [List.mem_singleton.mp hx]
            exact Or.inr ⟨rfl, hm⟩
        · exact Or.inl hx
      · exact Or.inl hx
  | hset g token => exact Or.inl (call hstate rfl)
  | acquire g ttl =>
    refine Or.inl (call hstate ?_)
    rcases acquire_cases θ.number s g ttl with hc | ⟨-, hc⟩ <;> rw [hc]
  | release g =>
    refine Or.inl (call hstate ?_)
    rcases release_cases s g with hc | ⟨_, -, -, hc⟩ <;> rw [hc]
  | user id => rw [← hstate] at hx; exact Or.inl hx
  | workload principal workloadId => rw [← hstate] at hx; exact Or.inl hx
  | dial g => rw [← hstate] at hx; exact Or.inl hx
  | relay g => rw [← hstate] at hx; exact Or.inl hx
  | relayed => rw [← hstate] at hx; exact Or.inl hx
  | _ => exact Or.inl (quiet trivial)

end Presents

/-- The calls of a run, without what is done in answer to them. -/
def calls (run : List (Action Site ConsoleInput ConsoleCall)) : List ConsoleCall :=
  run.filterMap fun
    | .spawn _ m => some m
    | _ => none

theorem numbers_eq (run : List (Action Site ConsoleInput ConsoleCall)) :
    numbers rt settings hash run = (calls run).map ConsoleCall.number := by
  unfold numbers spawned calls
  rw [List.map_filterMap]
  refine congrArg (List.filterMap · run) (funext fun a => ?_)
  cases a <;> rfl

/-- Whatever was consumed, a call has presented, and whatever is going to be. -/
structure Attempted (settings : ConsoleSettings) (A : List ConsoleCall)
    (s : Sys Exn ConsoleOp ConsoleProcess Site) : Prop where
  live : ∀ pid θ p, s.procs pid = some (θ, p) → ∃ m, ⟨θ.number, m⟩ ∈ A ∧ p.Only (m.Presents settings)
  consumed : ∀ x ∈ s.shared.consumed, ∃ m, ⟨x.connection, m⟩ ∈ A ∧
    m.Presents settings (.consume x.sessionId x.token)

theorem Attempted.mono {A B : List ConsoleCall} {s : Sys Exn ConsoleOp ConsoleProcess Site}
    (h : Attempted settings A s) (hAB : ∀ c ∈ A, c ∈ B) : Attempted settings B s where
  live pid θ p hp := by
    obtain ⟨m, hm, honly⟩ := h.live pid θ p hp
    exact ⟨m, hAB _ hm, honly⟩
  consumed x hx := by
    obtain ⟨m, hm, hpresents⟩ := h.consumed x hx
    exact ⟨m, hAB _ hm, hpresents⟩

theorem attempted_next {A : List ConsoleCall} {s : Sys Exn ConsoleOp ConsoleProcess Site}
    {a : Action Site ConsoleInput ConsoleCall} (h : Attempted settings A s) (ha : consoleRuns.Met s a) :
    Attempted settings (A ++ calls [a]) (s.next (consoleMachine rt settings hash) a) := by
  have hA : Attempted settings (A ++ calls [a]) s := h.mono fun _ hc => List.mem_append_left _ hc
  have hdid := Sys.next_did (consoleMachine rt settings hash) s a
  generalize Sys.next (consoleMachine rt settings hash) s a = after at hdid ⊢
  cases hdid with
  | nothing => exact hA
  | changed f =>
    have henv : f s.shared = { s.shared with db := (f s.shared).db } := ha
    refine ⟨hA.live, fun x hx => hA.consumed x ?_⟩
    have hx : x ∈ (f s.shared).consumed := hx
    rw [henv] at hx
    exact hx
  | @spawned pid m hfree =>
    refine ⟨fun q θ p hq => ?_, hA.consumed⟩
    by_cases hqp : q = pid
    · rw [hqp, Sys.setProc_same] at hq
      cases hq
      exact ⟨m.message, List.mem_append_right _ List.mem_cons_self, only_program m.message⟩
    · rw [Sys.setProc_of_ne _ _ hqp] at hq
      exact hA.live q θ p hq
  | @ended pid θ p _ hp _ =>
    refine ⟨fun q θ p hq => ?_, hA.consumed⟩
    by_cases hqp : q = pid
    · rw [hqp, Sys.setProc_same] at hq
      cases hq
    · rw [Sys.setProc_of_ne _ _ hqp] at hq
      exact hA.live q θ p hq
  | @performed pid i θ θ' ρ o k s' r hp hexec =>
    obtain ⟨m, hm, ho, hk⟩ := hA.live pid θ _ hp
    refine ⟨fun q θ₂ p₂ hq => ?_, fun x hx => ?_⟩
    · by_cases hqp : q = pid
      · rw [hqp, Sys.setProc_same] at hq
        cases hq
        rw [exec_number hexec]
        exact ⟨m, hm, hk r⟩
      · rw [Sys.setProc_of_ne _ _ hqp] at hq
        exact hA.live q θ₂ p₂ hq
    · rcases exec_consumed hexec ho hx with hx | ⟨hn, hpresents⟩
      · exact hA.consumed x hx
      · rw [hn]
        exact ⟨m, hm, hpresents⟩

theorem attempted_run {A : List ConsoleCall} {s : Sys Exn ConsoleOp ConsoleProcess Site}
    {run : List (Action Site ConsoleInput ConsoleCall)} (h : Attempted settings A s)
    (hrun : Along (Sys.next (consoleMachine rt settings hash)) consoleRuns.Met s run) :
    Attempted settings (A ++ calls run) (runFrom (Sys.next (consoleMachine rt settings hash)) s run) := by
  induction run generalizing A s with
  | nil => exact h.mono fun _ hc => List.mem_append_left _ hc
  | cons a rest ih =>
    have hcalls : calls (a :: rest) = calls [a] ++ calls rest := by
      rw [show a :: rest = [a] ++ rest from rfl]
      exact List.filterMap_append
    rw [hcalls, ← List.append_assoc]
    exact ih (attempted_next h hrun.1) hrun.2

/-! ### The grants of a run -/

/-- No token that is presented has the hash of another one that a session was created with. -/
def CollisionFree (settings : ConsoleSettings) (hash : String → String)
    (run : List (Action Site ConsoleInput ConsoleCall)) (s : Site) : Prop :=
  ∀ c ∈ s.created, ∀ n w token, ⟨n, .connect w⟩ ∈ calls run → w.token? settings = some token →
    hash c.token = hash token → c.token = token

/-- **Console grants** are single-use and revocable: a session leads to one connection at the
most, which has presented its token, and its user and its workload were found as they have to
be after the session was consumed; what is presented with another token is left alone. -/
theorem grants_single_use (rt : Runtime) (settings : ConsoleSettings) (hash : String → String) (db : Db)
    (run : List (Action Site ConsoleInput ConsoleCall)) (hnumbers : (numbers rt settings hash run).Nodup)
    (hrun : Along (Sys.next (consoleMachine rt settings hash)) consoleRuns.Met (Sys.idle (Site.idle db)) run)
    (hhash : CollisionFree settings hash run
      (runFrom (Sys.next (consoleMachine rt settings hash)) (Sys.idle (Site.idle db)) run).shared) :
    let s := (runFrom (Sys.next (consoleMachine rt settings hash)) (Sys.idle (Site.idle db)) run).shared
    (s.dialed.map fun d => d.grant.sessionId).Nodup ∧
      (∀ d ∈ s.dialed, ∃ x ∈ s.consumed, x.connection = d.connection ∧ x.sessionId = d.grant.sessionId ∧
        ⟨d.grant, x.token⟩ ∈ s.created) ∧
      (∀ d ∈ s.dialed, ∃ user workload u w, d.userState = some user ∧ d.workloadState = some workload ∧
        Admitted rt d.connection d.grant user workload u w) ∧
      (∀ c ∈ s.created, s.sessions c.grant.sessionId = none →
        ∃ x ∈ s.consumed, x.sessionId = c.grant.sessionId ∧ x.token = c.token) ∧
      ∀ n w, ⟨n, .connect w⟩ ∈ calls run →
        (∀ c ∈ s.created, c.grant.sessionId = w.sessionId → w.token? settings ≠ some c.token) →
          (∀ x ∈ s.consumed, x.connection ≠ n) ∧ ∀ d ∈ s.dialed, d.connection ≠ n := by
  have hsound := (sound_run hnumbers hrun).granted
  have hattempted : Attempted settings ([] ++ calls run)
      (runFrom (Sys.next (consoleMachine rt settings hash)) (Sys.idle (Site.idle db)) run) :=
    attempted_run ⟨(fun _ _ _ h => by cases h), fun _ h => by cases h⟩ hrun
  rw [numbers_eq] at hnumbers
  intro s
  -- a consumption is by the token of its session
  have same (x : Consumption) (hx : x ∈ s.consumed) (c : Creation) (hc : c ∈ s.created)
      (h : hash c.token = hash x.token) : c.token = x.token := by
    obtain ⟨m, hm, w, rfl, -, htoken⟩ := hattempted.consumed x hx
    exact hhash c hc _ w x.token hm htoken h
  have spent (x : Consumption) (hx : x ∈ s.consumed) : ∃ c ∈ s.created, c.grant.sessionId = x.sessionId ∧
      c.token = x.token := by
    obtain ⟨c, hc, hid, htoken⟩ := hsound.spent x hx
    exact ⟨c, hc, hid, same x hx c hc htoken⟩
  have opened (d : Dial) (hd : d ∈ s.dialed) : ∃ x ∈ s.consumed, x.connection = d.connection ∧
      x.sessionId = d.grant.sessionId ∧ ⟨d.grant, x.token⟩ ∈ s.created := by
    obtain ⟨x, hx, hn, hid, c, hc, hgrant, htoken⟩ := (hsound.opened d hd).granted
    refine ⟨x, hx, hn, hid, ?_⟩
    rw [← hgrant, ← same x hx c hc htoken]
    exact hc
  have unattempted (n : Nat) (w : WebsocketMessage) (hcall : ⟨n, .connect w⟩ ∈ calls run)
      (hwrong : ∀ c ∈ s.created, c.grant.sessionId = w.sessionId → w.token? settings ≠ some c.token) :
      ∀ x ∈ s.consumed, x.connection ≠ n := by
    intro x hx hn
    obtain ⟨m, hm, w', rfl, hid, htoken⟩ := hattempted.consumed x hx
    -- the call of this number
    have hcalls : (⟨x.connection, .connect w'⟩ : ConsoleCall) = ⟨n, .connect w⟩ :=
      List.inj_on_of_nodup_map hnumbers hm hcall hn
    cases hcalls
    obtain ⟨c, hc, hcid, hctoken⟩ := spent x hx
    refine hwrong c hc (hcid.trans hid.symm) ?_
    rw [htoken, hctoken]
  refine ⟨?_, opened, fun d hd => (hsound.opened d hd).admitted, ?_, fun n w hcall hwrong => ?_⟩
  · refine List.Nodup.map_on ?_ hsound.dials.of_map
    intro d hd e he hid
    obtain ⟨x, hx, hxn, hxid, -⟩ := opened d hd
    obtain ⟨y, hy, hyn, hyid, -⟩ := opened e he
    have hxy : x = y := List.inj_on_of_nodup_map hsound.single hx hy (hxid.trans (hid.trans hyid.symm))
    have hn : d.connection = e.connection := by rw [← hxn, ← hyn, hxy]
    exact List.inj_on_of_nodup_map hsound.dials hd he hn
  · intro c hc hnone
    rcases hsound.kept c hc with ⟨r, hr⟩ | ⟨x, hx, hid⟩
    · cases hnone.symm.trans hr
    · obtain ⟨c', hc', hid', htoken⟩ := spent x hx
      have heq : c' = c := List.inj_on_of_nodup_map hsound.once hc' hc (hid'.trans hid)
      exact ⟨x, hx, hid, by rw [← htoken, heq]⟩
  · refine ⟨unattempted n w hcall hwrong, fun d hd hn => ?_⟩
    obtain ⟨x, hx, hxn, -⟩ := opened d hd
    exact unattempted n w hcall hwrong x hx (hxn.trans hn)

/-- A session that is tried with another token, and then opened with its own. -/
def grantsRun : List ConsoleAction :=
  sampleCreation 0 7 ++ (sampleConnect 1 7 "other" :: acts 1 0 3) ++ (sampleConnect 2 7 "token" :: acts 2 0 13)

theorem grantsRun_collisionFree : CollisionFree sampleSettings sampleHash grantsRun (sampleRun grantsRun) := by
  have hcreated : ∀ c ∈ (sampleRun grantsRun).created, c.token = "token" := by decide +kernel
  have hcalls : ∀ call ∈ calls grantsRun, ∀ w, call.message = .connect w →
      w = sampleConnection 7 "other" ∨ w = sampleConnection 7 "token" := by
    intro call hcall w hw
    have hcalls : calls grantsRun = [⟨0, .create ⟨1, "admin", .superAdmin, 1⟩ 1⟩,
      ⟨1, .connect (sampleConnection 7 "other")⟩, ⟨2, .connect (sampleConnection 7 "token")⟩] := rfl
    rw [hcalls] at hcall
    simp only [List.mem_cons, List.not_mem_nil, or_false] at hcall
    rcases hcall with rfl | rfl | rfl
    · cases hw
    · exact Or.inl (ConsoleMessage.connect.inj hw).symm
    · exact Or.inr (ConsoleMessage.connect.inj hw).symm
  have hother : (sampleConnection 7 "other").token? sampleSettings = some "other" := by decide +kernel
  have hown : (sampleConnection 7 "token").token? sampleSettings = some "token" := by decide +kernel
  intro c hc n w token hcall htoken hhash
  rw [hcreated c hc] at hhash ⊢
  rcases hcalls _ hcall w rfl with rfl | rfl
  · rw [hother] at htoken
    cases htoken
    exact absurd hhash (by decide)
  · rw [hown] at htoken
    exact Option.some.inj htoken

theorem session_opened_once : ((sampleRun grantsRun).dialed.map fun d => d.grant.sessionId).Nodup ∧
    (∀ x ∈ (sampleRun grantsRun).consumed, x.connection ≠ 1) ∧
      (sampleRun grantsRun).dialed.map Dial.connection = [2] := by
  have hrun : Along (Sys.next (consoleMachine asciiRuntime sampleSettings sampleHash)) consoleRuns.inside.Met
      (Sys.idle (Site.idle sampleDb)) grantsRun := by decide +kernel
  have h := grants_single_use asciiRuntime sampleSettings sampleHash sampleDb grantsRun (by decide +kernel)
    (Conditions.along_inside hrun) grantsRun_collisionFree
  refine ⟨h.1, (h.2.2.2.2 1 (sampleConnection 7 "other") ?_ ?_).1, by decide +kernel⟩
  · exact List.mem_cons_of_mem _ List.mem_cons_self
  · have hcreated : ∀ c ∈ (sampleRun grantsRun).created, c.token = "token" := by decide +kernel
    have hother : (sampleConnection 7 "other").token? sampleSettings = some "other" := by decide +kernel
    intro c hc _ htoken
    rw [hother, hcreated c hc] at htoken
    exact absurd (Option.some.inj htoken) (by decide)

end PveMaster.Console
