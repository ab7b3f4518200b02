import DkimLite.Sign

/-!
# The reload monitor (`src/main.rs:12-21, 61-107`)

| here | there |
| --- | --- |
| `Attempt` | what one reload meets: `RuntimeConfig::load`, the FIPS status and the two locks |
| `reload` | the body of `if RELOAD.swap(..)` (`main.rs:77-95`) |
| `Monitor`, `MonitorEvent`, `Monitor.step` | the monitor thread, the signal handlers (`:15-21`) and a turn of its loop (`:76-97`) |
| `startDaemon` | the checks of `run_daemon` before the daemon starts (`:62-63`) |

`load` is any outcome; the FIPS check is the source's. The monitor is the only writer of the active
configuration, and it replaces it whole under the write lock, so the configuration other
threads see changes at a turn of the monitor or not at all. `{:?}` of a string is the parameter
`debugStr`.
-/

namespace DkimLite
open Rust

section
variable {Key : Type} (debugStr : List Char → String)

/-- `read` and `write` say whether the lock could be taken (it is not poisoned). -/
structure Attempt (Key : Type) where
  load : Except String (RuntimeConfig Key)
  kernelStatus : Except String (List Char)
  opensslIsFips : Bool
  read : Bool
  write : Bool

/-- `check_fips_environment` during this attempt. -/
def Attempt.checkFipsEnvironment (attempt : Attempt Key) (required : Bool) : Except String Unit :=
  checkFipsEnvironmentWith debugStr required attempt.kernelStatus attempt.opensslIsFips

/-- The active configuration afterwards and the line written to the log. -/
def reload (active : RuntimeConfig Key) (attempt : Attempt Key) : RuntimeConfig Key × Option String :=
  match attempt.load with
  | .ok config =>
    let oldListen := if attempt.read then some active.listen else none
    match attempt.checkFipsEnvironment debugStr config.requireFips with
    | .error error => (active, some ("dkim-lite: reload rejected: " ++ error))
    | .ok () =>
      if oldListen.map ListenAddr.compared ≠ some config.listen.compared then
        (active, some "dkim-lite: reload rejected: listen cannot change without restart")
      else if attempt.write then (config, some "dkim-lite: configuration reloaded")
      else (active, none)
  | .error error => (active, some ("dkim-lite: reload rejected: " ++ error))

/-- The configuration the daemon starts with. -/
def startDaemon (attempt : Attempt Key) : Except String (RuntimeConfig Key) := do
  let initial ← attempt.load
  attempt.checkFipsEnvironment debugStr initial.requireFips
  return initial

/-! ## The thread -/

structure Monitor (Key : Type) where
  active : RuntimeConfig Key
  reloadFlag : Bool := false
  shutdownFlag : Bool := false
  log : List String := []

inductive MonitorEvent (Key : Type) where
  /-- SIGHUP -/
  | reloadRequest
  /-- SIGTERM or SIGINT -/
  | shutdownRequest
  /-- A turn of the loop; the attempt is looked at if a reload was requested. -/
  | wake (attempt : Attempt Key)

namespace Monitor

def step (m : Monitor Key) : MonitorEvent Key → Monitor Key
  | .reloadRequest => { m with reloadFlag := true }
  | .shutdownRequest => { m with shutdownFlag := true }
  | .wake attempt =>
    if m.shutdownFlag then m
    else if m.reloadFlag then
      let (active, line) := reload debugStr m.active attempt
      { m with active, reloadFlag := false, log := m.log ++ line.toList }
    else m

def run (initial : RuntimeConfig Key) (events : List (MonitorEvent Key)) : Monitor Key :=
  events.foldl (step debugStr) { active := initial }

end Monitor

theorem Monitor.run_snoc (initial : RuntimeConfig Key) (events : List (MonitorEvent Key)) (e : MonitorEvent Key) :
    Monitor.run debugStr initial (events ++ [e]) = (Monitor.run debugStr initial events).step debugStr e := by
  simp [Monitor.run]

/-! ## What a reload may do -/

/-- An attempt confirms a configuration: it was loaded, and its FIPS requirement is met. -/
def Attempt.Confirms (attempt : Attempt Key) (config : RuntimeConfig Key) : Prop :=
  attempt.load = .ok config ∧ attempt.checkFipsEnvironment debugStr config.requireFips = .ok ()

/-- The daemon starts with a configuration that was confirmed. -/
theorem startDaemon_eq_ok {attempt : Attempt Key} {initial : RuntimeConfig Key} :
    startDaemon debugStr attempt = .ok initial ↔ attempt.Confirms debugStr initial := by
  unfold startDaemon Attempt.Confirms
  cases attempt.load with
  | error error => simp [bind, Except.bind]
  | ok config =>
    cases hfips : attempt.checkFipsEnvironment debugStr config.requireFips with
    | error error =>
      simp only [bind, Except.bind, hfips, reduceCtorEq, Except.ok.injEq, false_iff, not_and]
      rintro rfl
      simp [hfips]
    | ok _ =>
      simp only [bind, Except.bind, hfips, pure, Except.pure, Except.ok.injEq]
      exact ⟨fun h => h ▸ ⟨rfl, hfips⟩, fun h => h.1⟩

/-- An attempt to be rejected by a daemon that listens at `listen`: it does not load, it fails the
FIPS check, or it listens elsewhere. -/
def Attempt.Rejected (attempt : Attempt Key) (listen : ListenAddr) : Prop :=
  (∃ error, attempt.load = .error error) ∨ ∃ config, attempt.load = .ok config ∧
    ((∃ error, attempt.checkFipsEnvironment debugStr config.requireFips = .error error) ∨ ¬ config.listen.Same listen)

theorem Attempt.Rejected.listen_ne {attempt : Attempt Key} {listen : ListenAddr} (h : attempt.Rejected debugStr listen)
    {config : RuntimeConfig Key} (hconfirms : attempt.Confirms debugStr config) : ¬ config.listen.Same listen := by
  obtain ⟨hload, hfips⟩ := hconfirms
  rcases h with ⟨error, he⟩ | ⟨config', hload', h⟩
  · rw [hload] at he
    cases he
  · obtain rfl : config = config' := by rw [hload] at hload'; exact Except.ok.inj hload'
    rcases h with ⟨error, he⟩ | h
    · rw [hfips] at he
      cases he
    · exact h

/-- **The step**: a reload leaves the configuration alone, or replaces it by one that the attempt
confirms and that listens where the old one did. -/
theorem reload_cases (active : RuntimeConfig Key) (attempt : Attempt Key) :
    (reload debugStr active attempt).1 = active ∨
      attempt.Confirms debugStr (reload debugStr active attempt).1 ∧
        (reload debugStr active attempt).1.listen.Same active.listen := by
  unfold reload
  cases hload : attempt.load with
  | error error => exact Or.inl rfl
  | ok config =>
    simp only
    cases hfips : attempt.checkFipsEnvironment debugStr config.requireFips with
    | error error => exact Or.inl rfl
    | ok _ =>
      simp only
      by_cases hlisten : (if attempt.read then some active.listen else none).map ListenAddr.compared = some config.listen.compared
      · rw [if_neg (by simpa using hlisten)]
        cases attempt.write with
        | false => exact Or.inl rfl
        | true =>
          refine Or.inr ⟨⟨hload, hfips⟩, ?_⟩
          cases hread : attempt.read with
          | false => rw [hread] at hlisten; cases hlisten
          | true =>
            rw [hread, if_pos rfl] at hlisten
            exact (Option.some.inj hlisten).symm
      · rw [if_pos hlisten]
        exact Or.inl rfl

/-- What the active configuration is, at every moment. -/
def Validated (initial : RuntimeConfig Key) (events : List (MonitorEvent Key)) (active : RuntimeConfig Key) : Prop :=
  active = initial ∨ active.listen.Same initial.listen ∧
    ∃ attempt, MonitorEvent.wake attempt ∈ events ∧ attempt.Confirms debugStr active

theorem Validated.listen {initial active : RuntimeConfig Key} {events : List (MonitorEvent Key)}
    (h : Validated debugStr initial events active) : active.listen.Same initial.listen := by
  rcases h with rfl | ⟨hlisten, -⟩
  · exact .refl _
  · exact hlisten

theorem Validated.snoc {initial active : RuntimeConfig Key} {events : List (MonitorEvent Key)}
    (h : Validated debugStr initial events active) (e : MonitorEvent Key) :
    Validated debugStr initial (events ++ [e]) active := by
  rcases h with rfl | ⟨hlisten, attempt, hmem, hconfirms⟩
  · exact Or.inl rfl
  · exact Or.inr ⟨hlisten, attempt, List.mem_append_left _ hmem, hconfirms⟩

/-- The active configuration changes by a reload only. -/
theorem Monitor.active_step (m : Monitor Key) (e : MonitorEvent Key) :
    (m.step debugStr e).active = m.active ∨
      ∃ attempt, e = .wake attempt ∧ (m.step debugStr e).active = (reload debugStr m.active attempt).1 := by
  cases e with
  | reloadRequest => exact Or.inl rfl
  | shutdownRequest => exact Or.inl rfl
  | wake attempt =>
    unfold Monitor.step
    by_cases hshutdown : m.shutdownFlag = true
    · simp only [hshutdown, if_true]
      exact Or.inl trivial
    by_cases hreload : m.reloadFlag = true
    · simp only [hshutdown, hreload, if_true]
      exact Or.inr ⟨attempt, rfl, rfl⟩
    · simp only [hshutdown, hreload]
      exact Or.inl rfl

/-- The run: by induction on the events. -/
theorem validated_run (initial : RuntimeConfig Key) (events : List (MonitorEvent Key)) :
    Validated debugStr initial events (Monitor.run debugStr initial events).active := by
  induction events using List.reverseRecOn with
  | nil => exact Or.inl rfl
  | append_singleton events e ih =>
    rw [Monitor.run_snoc]
    rcases Monitor.active_step debugStr (Monitor.run debugStr initial events) e with hsame | ⟨attempt, rfl, hreload⟩
    · rw [hsame]
      exact ih.snoc debugStr e
    · rw [hreload]
      rcases reload_cases debugStr (Monitor.run debugStr initial events).active attempt with hsame | ⟨hconfirms, hlisten⟩
      · rw [hsame]
        exact ih.snoc debugStr _
      · exact Or.inr ⟨hlisten.trans (ih.listen debugStr), attempt, by simp, hconfirms⟩

/-- **The active configuration is always a validated one, and a rejected reload changes nothing.**
After every sequence of requests and attempts it is the initial one, or one that an attempt
loaded and confirmed and that listens at the initial address; an attempt that does not load, that
fails the FIPS check or that listens elsewhere leaves it as it was. -/
theorem active_validated (initial : RuntimeConfig Key) (events : List (MonitorEvent Key)) :
    Validated debugStr initial events (Monitor.run debugStr initial events).active ∧
      ∀ attempt : Attempt Key, attempt.Rejected debugStr initial.listen →
        (Monitor.run debugStr initial (events ++ [.wake attempt])).active =
          (Monitor.run debugStr initial events).active := by
  refine ⟨validated_run debugStr initial events, fun attempt hrejected => ?_⟩
  have hlisten := (validated_run debugStr initial events).listen debugStr
  rw [Monitor.run_snoc]
  rcases Monitor.active_step debugStr (Monitor.run debugStr initial events) (.wake attempt) with hsame | ⟨_, hwake, hreload⟩
  · exact hsame
  · cases hwake
    rw [hreload]
    refine (reload_cases debugStr _ attempt).resolve_right ?_
    rintro ⟨hconfirms, hsame⟩
    exact hrejected.listen_ne debugStr hconfirms (hsame.trans hlisten)

end

/-- The socket path spelled in another way, another selector, and FIPS required. -/
def exampleRespelled : RuntimeConfig Unit :=
  { exampleConfig with
    selector := ⟨ascii "s3", by decide, by decide⟩, listen := .unix (ascii "/run//./dkim-lite.sock/"), requireFips := true }

/-- A load of `config` in FIPS mode, where the locks can be taken. -/
def exampleAttempt (config : RuntimeConfig Unit) : Attempt Unit := ⟨.ok config, .ok ['1'], true, true, true⟩

theorem exampleAttempt_confirms (config : RuntimeConfig Unit) :
    (exampleAttempt config).Confirms String.ofList config :=
  ⟨rfl, checkFipsEnvironmentWith_ok.2 fun _ => ⟨⟨['1'], rfl, rfl⟩, rfl⟩⟩

/-- The same socket is accepted in another spelling, and another socket is not. -/
theorem active_validated_respelled : (exampleAttempt exampleRespelled).Confirms String.ofList exampleRespelled ∧
    (Monitor.run String.ofList exampleConfig [.reloadRequest, .wake (exampleAttempt exampleRespelled)]).active =
        exampleRespelled ∧
      Validated String.ofList exampleConfig [.reloadRequest, .wake (exampleAttempt exampleRespelled)] exampleRespelled ∧
      (Monitor.run String.ofList exampleConfig [.reloadRequest, .wake (exampleAttempt exampleRespelled), .reloadRequest,
        .wake (exampleAttempt { exampleConfig with listen := .unix (ascii "/run/s") })]).active = exampleRespelled := by
  have hreplaced : (Monitor.run String.ofList exampleConfig
      [.reloadRequest, .wake (exampleAttempt exampleRespelled)]).active = exampleRespelled := by decide
  obtain ⟨hvalidated, -⟩ :=
    active_validated String.ofList exampleConfig [.reloadRequest, .wake (exampleAttempt exampleRespelled)]
  obtain ⟨-, hrejected⟩ :=
    active_validated String.ofList exampleConfig [.reloadRequest, .wake (exampleAttempt exampleRespelled), .reloadRequest]
  refine ⟨exampleAttempt_confirms _, hreplaced, hreplaced ▸ hvalidated, (hrejected _ (Or.inr ⟨_, rfl, Or.inr ?_⟩)).trans hreplaced⟩
  decide

end DkimLite
