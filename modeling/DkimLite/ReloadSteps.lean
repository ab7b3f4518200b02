import DkimLite.ConfigLimits
import DkimLite.Reload
import DkimLite.Rust.Machine

/-!
# A reload, step by step (`src/main.rs:12-21, 75-98`)

| here | there |
| --- | --- |
| `ReloadPoint`, `Reloader.step` | the monitor thread: where it stands, and its next step |
| `ReloadEvent` | its steps; SIGHUP, SIGTERM and the rewriting of files, which come at any moment between them |
| `loadSpread` | `RuntimeConfig::load`, which reads the configuration file and, later, the key |

`Reload.lean` has a reload as one step. Here the signals and the rewrites fall between the swap of the
flag, the reads, the FIPS check, the comparison and the replacement. A file is read at one moment.

The flag is cleared before the files are read. So a SIGHUP is answered by a load that starts after it,
or it leaves the flag set (`Noticed`, `requests_answered`). What the load does to the active
configuration is `reload`, of an `Attempt` whose files and answers are those of the steps of this load
(`UnderWay`, `Attempted`).
-/

namespace DkimLite
open Rust Text

section
variable {Key : Type}

inductive ReloadPoint (Key : Type) where
  /-- `while !SHUTDOWN.load(..)` -/
  | test
  /-- `if RELOAD.swap(false, ..)` -/
  | swapping
  /-- in front of `RuntimeConfig::load` -/
  | starting
  /-- in front of `fs::read_to_string` -/
  | loading
  /-- with what was read -/
  | parsing (input : Except String (List Char))
  /-- `monitor_active.read()` -/
  | loaded (config : RuntimeConfig Key)
  /-- `check_fips_environment(..)` -/
  | checking (config : RuntimeConfig Key) (oldListen : Option ListenAddr)
  /-- `old_listen.as_ref() != Some(&config.listen)` -/
  | comparing (config : RuntimeConfig Key) (oldListen : Option ListenAddr)
  /-- `monitor_active.write()` -/
  | writing (config : RuntimeConfig Key)
  /-- `thread::sleep(..)` -/
  | sleeping
  | ended

inductive ReloadEvent where
  | sighup
  | sigterm
  /-- What the file system answers from now on. -/
  | rewrite (files : Files)
  | testShutdown
  | swap
  | startLoad
  | readConfig
  | readKey
  /-- `locked`: the lock could be taken (it is not poisoned). -/
  | readActive (locked : Bool)
  | checkFips (kernelStatus : Except String (List Char)) (opensslIsFips : Bool)
  | compare
  | replace (locked : Bool)
  | wake

structure Reloader (Key : Type) where
  point : ReloadPoint Key := .test
  active : RuntimeConfig Key
  files : Files
  reloadFlag : Bool := false
  shutdownFlag : Bool := false
  log : List String := []

variable (debugStr : List Char → String) (path : Bytes) (ssl : OpenSsl Key) (keys : KeyFormat Key)

/-- The first read of a load. -/
def readConfig (files : Files) : Except String (List Char) :=
  (files.readToString path).mapError fun e => "cannot read " ++ files.display path ++ ": " ++ e

/-- The rest of it. -/
def finishLoad (files : Files) (input : Except String (List Char)) : Except String (RuntimeConfig Key) := do
  let input ← input
  loadInput files ssl keys input

/-- `RuntimeConfig::load`, with its two reads at two moments. -/
def loadSpread (first second : Files) : Except String (RuntimeConfig Key) :=
  finishLoad ssl keys second (readConfig path first)

def rejected (error : String) : String := "dkim-lite: reload rejected: " ++ error

def Reloader.step (m : Reloader Key) (e : ReloadEvent) : Option (Reloader Key) :=
  match m.point, e with
  | _, .sighup => some { m with reloadFlag := true }
  | _, .sigterm => some { m with shutdownFlag := true }
  | _, .rewrite files => some { m with files }
  | .test, .testShutdown => some { m with point := if m.shutdownFlag then .ended else .swapping }
  | .swapping, .swap => some { m with reloadFlag := false, point := if m.reloadFlag then .starting else .sleeping }
  | .starting, .startLoad => some { m with point := .loading }
  | .loading, .readConfig => some { m with point := .parsing (readConfig path m.files) }
  | .parsing input, .readKey =>
    match finishLoad ssl keys m.files input with
    | .ok config => some { m with point := .loaded config }
    | .error error => some { m with point := .sleeping, log := m.log ++ [rejected error] }
  | .loaded config, .readActive locked =>
    some { m with point := .checking config (if locked then some m.active.listen else none) }
  | .checking config oldListen, .checkFips kernelStatus opensslIsFips =>
    match checkFipsEnvironmentWith debugStr config.requireFips kernelStatus opensslIsFips with
    | .error error => some { m with point := .sleeping, log := m.log ++ [rejected error] }
    | .ok () => some { m with point := .comparing config oldListen }
  | .comparing config oldListen, .compare =>
    if oldListen.map ListenAddr.compared ≠ some config.listen.compared then
      some { m with point := .sleeping, log := m.log ++ [rejected "listen cannot change without restart"] }
    else some { m with point := .writing config }
  | .writing config, .replace locked =>
    if locked then
      some { m with active := config, point := .sleeping, log := m.log ++ ["dkim-lite: configuration reloaded"] }
    else some { m with point := .sleeping }
  | .sleeping, .wake => some { m with point := .test }
  | _, _ => none

/-- Between two iterations. -/
def ReloadPoint.Between : ReloadPoint Key → Prop
  | .test | .swapping | .sleeping | .ended => True
  | _ => False

instance : (p : ReloadPoint Key) → Decidable p.Between
  | .test | .swapping | .sleeping | .ended => .isTrue trivial
  | .starting | .loading | .parsing _ | .loaded _ | .checking _ _ | .comparing _ _ | .writing _ => .isFalse id

/-- Inside a load. -/
def ReloadPoint.Inside : ReloadPoint Key → Prop
  | .loading | .parsing _ | .loaded _ | .checking _ _ | .comparing _ _ | .writing _ => True
  | _ => False

/-! ## The steps -/

/-- `Reloader.step`, case by case. -/
inductive ReloadStep (m : Reloader Key) : ReloadEvent → Reloader Key → Prop
  | sighup : ReloadStep m .sighup { m with reloadFlag := true }
  | sigterm : ReloadStep m .sigterm { m with shutdownFlag := true }
  | rewrite (files : Files) : ReloadStep m (.rewrite files) { m with files }
  | tested (hp : m.point = .test) {p : ReloadPoint Key} (hbetween : p = .ended ∨ p = .swapping) :
      ReloadStep m .testShutdown { m with point := p }
  | requested (hp : m.point = .swapping) (hflag : m.reloadFlag = true) :
      ReloadStep m .swap { m with reloadFlag := false, point := .starting }
  | quiet (hp : m.point = .swapping) (hflag : m.reloadFlag = false) :
      ReloadStep m .swap { m with reloadFlag := false, point := .sleeping }
  | started (hp : m.point = .starting) : ReloadStep m .startLoad { m with point := .loading }
  | read (hp : m.point = .loading) : ReloadStep m .readConfig { m with point := .parsing (readConfig path m.files) }
  | loads {input : Except String (List Char)} {config : RuntimeConfig Key} (hp : m.point = .parsing input)
      (hload : finishLoad ssl keys m.files input = .ok config) : ReloadStep m .readKey { m with point := .loaded config }
  | unloadable {input : Except String (List Char)} {error : String} (hp : m.point = .parsing input)
      (hload : finishLoad ssl keys m.files input = .error error) :
      ReloadStep m .readKey { m with point := .sleeping, log := m.log ++ [rejected error] }
  | looked {config : RuntimeConfig Key} (hp : m.point = .loaded config) (locked : Bool) :
      ReloadStep m (.readActive locked)
        { m with point := .checking config (if locked then some m.active.listen else none) }
  | unfit {config : RuntimeConfig Key} {oldListen : Option ListenAddr} {kernelStatus : Except String (List Char)}
      {opensslIsFips : Bool} {error : String} (hp : m.point = .checking config oldListen)
      (hfips : checkFipsEnvironmentWith debugStr config.requireFips kernelStatus opensslIsFips = .error error) :
      ReloadStep m (.checkFips kernelStatus opensslIsFips)
        { m with point := .sleeping, log := m.log ++ [rejected error] }
  | fit {config : RuntimeConfig Key} {oldListen : Option ListenAddr} {kernelStatus : Except String (List Char)}
      {opensslIsFips : Bool} (hp : m.point = .checking config oldListen)
      (hfips : checkFipsEnvironmentWith debugStr config.requireFips kernelStatus opensslIsFips = .ok ()) :
      ReloadStep m (.checkFips kernelStatus opensslIsFips) { m with point := .comparing config oldListen }
  | moved {config : RuntimeConfig Key} {oldListen : Option ListenAddr} (hp : m.point = .comparing config oldListen)
      (hlisten : oldListen.map ListenAddr.compared ≠ some config.listen.compared) :
      ReloadStep m .compare
        { m with point := .sleeping, log := m.log ++ [rejected "listen cannot change without restart"] }
  | same {config : RuntimeConfig Key} {oldListen : ListenAddr} (hp : m.point = .comparing config (some oldListen))
      (hlisten : config.listen.Same oldListen) : ReloadStep m .compare { m with point := .writing config }
  | replaced {config : RuntimeConfig Key} (hp : m.point = .writing config) :
      ReloadStep m (.replace true)
        { m with active := config, point := .sleeping, log := m.log ++ ["dkim-lite: configuration reloaded"] }
  | poisoned {config : RuntimeConfig Key} (hp : m.point = .writing config) :
      ReloadStep m (.replace false) { m with point := .sleeping }
  | woken (hp : m.point = .sleeping) : ReloadStep m .wake { m with point := .test }

variable {debugStr path ssl keys} in
theorem Reloader.step_cases {m u : Reloader Key} {e : ReloadEvent} (h : m.step debugStr path ssl keys e = some u) :
    ReloadStep debugStr path ssl keys m e u := by
  unfold Reloader.step at h
  split at h
  · cases h; exact .sighup
  · cases h; exact .sigterm
  · cases h; exact .rewrite _
  · rename_i hp
    cases h
    refine .tested hp ?_
    split
    · exact Or.inl rfl
    · exact Or.inr rfl
  · rename_i hp
    cases h
    cases hflag : m.reloadFlag with
    | true => exact .requested hp hflag
    | false => exact .quiet hp hflag
  · rename_i hp
    cases h
    exact .started hp
  · rename_i hp
    cases h
    exact .read hp
  · rename_i input hp
    split at h
    · rename_i config hload
      cases h
      exact .loads hp hload
    · rename_i error hload
      cases h
      exact .unloadable hp hload
  · rename_i config locked hp
    cases h
    exact .looked hp locked
  · rename_i config oldListen kernelStatus opensslIsFips hp
    split at h
    · rename_i error hfips
      cases h
      exact .unfit hp hfips
    · rename_i hfips
      cases h
      exact .fit hp hfips
  · rename_i config oldListen hp
    split at h
    · rename_i hlisten
      cases h
      exact .moved hp hlisten
    · rename_i hlisten
      cases h
      obtain ⟨old, rfl, hsame⟩ := Option.map_eq_some_iff.1 (not_not.1 hlisten)
      exact .same hp hsame.symm
  · rename_i config locked hp
    cases locked with
    | true => cases h; exact .replaced hp
    | false => cases h; exact .poisoned hp
  · rename_i hp
    cases h
    exact .woken hp
  · cases h

/-! ## What has become of the last load -/

/-- The outcome of a load whose files stood at its two reads. -/
def LoadOf (stood : ReloadEvent → Files → Prop) (result : Except String (RuntimeConfig Key)) : Prop :=
  ∃ first second, stood .readConfig first ∧ stood .readKey second ∧ result = loadSpread path ssl keys first second

/-- What the look at the active configuration gave, among the events `since` the load started. -/
def Looked (since : List ReloadEvent) (listen : ListenAddr) (oldListen : Option ListenAddr) : Prop :=
  ∃ locked : Bool, .readActive locked ∈ since ∧ oldListen = if locked then some listen else none

/-- The FIPS check among the events `since` confirmed the configuration. -/
def Fit (since : List ReloadEvent) (config : RuntimeConfig Key) : Prop :=
  ∃ status fips, .checkFips status fips ∈ since ∧
    checkFipsEnvironmentWith debugStr config.requireFips status fips = .ok ()

/-- The answers of an attempt are those of the events `since` it started, as far as it has come to ask. -/
structure Attempt.Met (attempt : Attempt Key) (listen : ListenAddr) (since : List ReloadEvent) : Prop where
  looked : ∀ config, attempt.load = .ok config → .readActive attempt.read ∈ since
  checked : ∀ config, attempt.load = .ok config → .checkFips attempt.kernelStatus attempt.opensslIsFips ∈ since
  compared : ∀ config, attempt.Confirms debugStr config → .compare ∈ since
  replaced : ∀ config, attempt.Confirms debugStr config → attempt.read = true → config.listen.Same listen →
    .replace attempt.write ∈ since

/-- How far a load has got that found the active configuration `old`: behind it is a part of an
`Attempt`, and in the end the whole of it. -/
def Progress (stood : ReloadEvent → Files → Prop) (since : List ReloadEvent) (old : RuntimeConfig Key) (m : Reloader Key) :
    Prop :=
  match m.point with
  | .starting => False
  | .loading => m.active = old
  | .parsing input => m.active = old ∧ ∃ first, stood .readConfig first ∧ input = readConfig path first
  | .loaded config => m.active = old ∧ LoadOf path ssl keys stood (.ok config)
  | .checking config oldListen =>
    m.active = old ∧ LoadOf path ssl keys stood (.ok config) ∧ Looked since old.listen oldListen
  | .comparing config oldListen =>
    m.active = old ∧ LoadOf path ssl keys stood (.ok config) ∧ Looked since old.listen oldListen ∧
      Fit debugStr since config
  | .writing config =>
    m.active = old ∧ LoadOf path ssl keys stood (.ok config) ∧ .readActive true ∈ since ∧ Fit debugStr since config ∧
      .compare ∈ since ∧ config.listen.Same old.listen
  | .test | .swapping | .sleeping | .ended =>
    ∃ attempt : Attempt Key, LoadOf path ssl keys stood attempt.load ∧ attempt.Met debugStr old.listen since ∧
      m.active = (reload debugStr old attempt).1

variable {debugStr path ssl keys}

theorem LoadOf.mono {stood stood' : ReloadEvent → Files → Prop} {result : Except String (RuntimeConfig Key)}
    (h : LoadOf path ssl keys stood result) (hstood : ∀ e f, stood e f → stood' e f) :
    LoadOf path ssl keys stood' result := by
  obtain ⟨first, second, hfirst, hsecond, heq⟩ := h
  exact ⟨first, second, hstood _ first hfirst, hstood _ second hsecond, heq⟩

section
variable {since since' : List ReloadEvent} {listen : ListenAddr} (hsince : since ⊆ since')
include hsince

theorem Looked.mono {oldListen : Option ListenAddr} (h : Looked since listen oldListen) : Looked since' listen oldListen := by
  obtain ⟨locked, hmem, hold⟩ := h
  exact ⟨locked, hsince hmem, hold⟩

theorem Fit.mono {config : RuntimeConfig Key} (h : Fit debugStr since config) : Fit debugStr since' config := by
  obtain ⟨status, fips, hmem, hok⟩ := h
  exact ⟨status, fips, hsince hmem, hok⟩

theorem Attempt.Met.mono {attempt : Attempt Key} (h : attempt.Met debugStr listen since) :
    attempt.Met debugStr listen since' where
  looked config hload := hsince (h.looked config hload)
  checked config hload := hsince (h.checked config hload)
  compared config hconfirms := hsince (h.compared config hconfirms)
  replaced config hconfirms hread hsame := hsince (h.replaced config hconfirms hread hsame)

theorem Progress.mono {stood stood' : ReloadEvent → Files → Prop} {old : RuntimeConfig Key} {m : Reloader Key}
    (h : Progress debugStr path ssl keys stood since old m) (hstood : ∀ e f, stood e f → stood' e f) :
    Progress debugStr path ssl keys stood' since' old m := by
  unfold Progress at h ⊢
  cases hpoint : m.point <;> simp only [hpoint] at h ⊢
  case loading => exact h
  case parsing =>
    obtain ⟨hactive, first, hfirst, hinput⟩ := h
    exact ⟨hactive, first, hstood _ first hfirst, hinput⟩
  case loaded => exact ⟨h.1, h.2.mono hstood⟩
  case checking =>
    obtain ⟨hactive, hload, hlooked⟩ := h
    exact ⟨hactive, hload.mono hstood, hlooked.mono hsince⟩
  case comparing =>
    obtain ⟨hactive, hload, hlooked, hfit⟩ := h
    exact ⟨hactive, hload.mono hstood, hlooked.mono hsince, hfit.mono hsince⟩
  case writing =>
    obtain ⟨hactive, hload, hread, hfit, hcompare, hsame⟩ := h
    exact ⟨hactive, hload.mono hstood, hsince hread, hfit.mono hsince, hsince hcompare, hsame⟩
  all_goals
    obtain ⟨attempt, hload, hmet, hactive⟩ := h
    exact ⟨attempt, hload.mono hstood, hmet.mono hsince, hactive⟩

end

section
variable {stood : ReloadEvent → Files → Prop} {since : List ReloadEvent} {old : RuntimeConfig Key} {m u : Reloader Key}
  {e : ReloadEvent}

/-- The progress does not depend on the flags, the files and the log. -/
theorem Progress.congr (h : Progress debugStr path ssl keys stood since old m) (hpoint : u.point = m.point)
    (hactive : u.active = m.active) : Progress debugStr path ssl keys stood since old u := by
  unfold Progress at h ⊢
  rw [hpoint, hactive]
  exact h

/-- Between two iterations the outcome is decided. -/
theorem Progress.decided (h : Progress debugStr path ssl keys stood since old m) (hbetween : m.point.Between) :
    ∃ attempt : Attempt Key, LoadOf path ssl keys stood attempt.load ∧ attempt.Met debugStr old.listen since ∧
      m.active = (reload debugStr old attempt).1 := by
  unfold Progress at h
  cases hpoint : m.point with
  | test | swapping | sleeping | ended => simpa only [hpoint] using h
  | _ => rw [hpoint] at hbetween; exact hbetween.elim

/-- Inside a load nothing is replaced yet. -/
theorem Progress.unchanged (h : Progress debugStr path ssl keys stood since old m) (hinside : m.point.Inside) :
    m.active = old := by
  unfold Progress at h
  cases hpoint : m.point <;> rw [hpoint] at h hinside
  case loading => exact h
  case parsing | loaded | checking | comparing | writing => exact h.1
  all_goals exact hinside.elim

/-! ## What an attempt does -/

section
variable {config : RuntimeConfig Key} {error : String} {status : Except String (List Char)} {fips read write : Bool}

theorem reload_unfit (hfips : checkFipsEnvironmentWith debugStr config.requireFips status fips = .error error) :
    reload debugStr old ⟨.ok config, status, fips, read, write⟩ = (old, some (rejected error)) := by
  simp only [reload, Attempt.checkFipsEnvironment, hfips]
  rfl

theorem reload_moved (hfips : checkFipsEnvironmentWith debugStr config.requireFips status fips = .ok ())
    (hlisten : (if read then some old.listen else none).map ListenAddr.compared ≠ some config.listen.compared) :
    reload debugStr old ⟨.ok config, status, fips, read, write⟩ =
      (old, some (rejected "listen cannot change without restart")) := by
  simp only [reload, Attempt.checkFipsEnvironment, hfips]
  rw [if_pos hlisten]
  rfl

theorem reload_written (hfips : checkFipsEnvironmentWith debugStr config.requireFips status fips = .ok ())
    (hsame : config.listen.Same old.listen) :
    reload debugStr old ⟨.ok config, status, fips, true, write⟩ =
      if write then (config, some "dkim-lite: configuration reloaded") else (old, none) := by
  simp only [reload, Attempt.checkFipsEnvironment, hfips]
  exact if_neg (not_not.2 (congrArg some hsame.symm))

theorem Attempt.Met.unloadable {listen : ListenAddr} :
    Attempt.Met debugStr (⟨.error error, status, fips, read, write⟩ : Attempt Key) listen since where
  looked _ hload := by cases hload
  checked _ hload := by cases hload
  compared _ hconfirms := by cases hconfirms.1
  replaced _ hconfirms := by cases hconfirms.1

/-- An attempt with its look and its check, which is what a configuration that loads comes to. -/
theorem Attempt.Met.of_answers {listen : ListenAddr} (hread : .readActive read ∈ since) (hcheck : .checkFips status fips ∈ since)
    (hcompare : checkFipsEnvironmentWith debugStr config.requireFips status fips = .ok () → .compare ∈ since)
    (hreplace : checkFipsEnvironmentWith debugStr config.requireFips status fips = .ok () → read = true →
      config.listen.Same listen → .replace write ∈ since) :
    Attempt.Met debugStr ⟨.ok config, status, fips, read, write⟩ listen since where
  looked _ _ := hread
  checked _ _ := hcheck
  compared config' hconfirms := by
    obtain ⟨hload, hfips⟩ := hconfirms
    cases hload
    exact hcompare hfips
  replaced config' hconfirms := by
    obtain ⟨hload, hfips⟩ := hconfirms
    cases hload
    exact hreplace hfips

end

/-- **The decision**: the step that ends a load makes of it an attempt, with the answers given since. -/
theorem Progress.decides (h : Progress debugStr path ssl keys stood since old m)
    (hstep : ReloadStep debugStr path ssl keys m e u) (hnow : stood e m.files) (hmem : e ∈ since) (hin : m.point.Inside)
    (hout : u.point = .sleeping) :
    ∃ attempt line, LoadOf path ssl keys stood attempt.load ∧ attempt.Met debugStr old.listen since ∧
      reload debugStr old attempt = (u.active, line) ∧ u.log = m.log ++ line.toList ∧
      u.reloadFlag = m.reloadFlag ∧ u.shutdownFlag = m.shutdownFlag := by
  cases hstep with
  | sighup => rw [hout] at hin; exact hin.elim
  | sigterm => rw [hout] at hin; exact hin.elim
  | rewrite files => rw [hout] at hin; exact hin.elim
  | unloadable hp hload =>
    simp only [Progress, hp] at h
    obtain ⟨rfl, first, hfirst, rfl⟩ := h
    exact ⟨⟨.error _, .error "", false, false, false⟩, _, ⟨first, m.files, hfirst, hnow, hload.symm⟩, .unloadable,
      rfl, rfl, rfl, rfl⟩
  | @unfit config oldListen status fips error hp hfips =>
    simp only [Progress, hp] at h
    obtain ⟨rfl, hload, locked, hread, -⟩ := h
    refine ⟨⟨.ok config, status, fips, locked, false⟩, some (rejected error), hload, ?_, reload_unfit hfips, rfl, rfl, rfl⟩
    refine .of_answers hread hmem (fun hok => ?_) fun hok => ?_ <;> rw [hfips] at hok <;> cases hok
  | @moved config oldListen hp hlisten =>
    simp only [Progress, hp] at h
    obtain ⟨rfl, hload, ⟨locked, hread, rfl⟩, status, fips, hcheck, hfips⟩ := h
    refine ⟨⟨.ok config, status, fips, locked, false⟩, some (rejected _), hload, ?_, reload_moved hfips hlisten, rfl, rfl, rfl⟩
    refine .of_answers hread hcheck (fun _ => hmem) ?_
    rintro - rfl hsame
    exact absurd (congrArg some hsame.symm) hlisten
  | @replaced config hp =>
    simp only [Progress, hp] at h
    obtain ⟨rfl, hload, hread, ⟨status, fips, hcheck, hfips⟩, hcompare, hsame⟩ := h
    exact ⟨⟨.ok config, status, fips, true, true⟩, some _, hload,
      .of_answers hread hcheck (fun _ => hcompare) fun _ _ _ => hmem, reload_written hfips hsame, rfl, rfl, rfl⟩
  | @poisoned config hp =>
    simp only [Progress, hp] at h
    obtain ⟨rfl, hload, hread, ⟨status, fips, hcheck, hfips⟩, hcompare, hsame⟩ := h
    exact ⟨⟨.ok config, status, fips, true, false⟩, none, hload,
      .of_answers hread hcheck (fun _ => hcompare) fun _ _ _ => hmem, reload_written hfips hsame, by simp, rfl, rfl⟩
  | tested hp _ => rw [hp] at hin; exact hin.elim
  | requested hp _ => rw [hp] at hin; exact hin.elim
  | quiet hp _ => rw [hp] at hin; exact hin.elim
  | started hp => rw [hp] at hin; exact hin.elim
  | woken hp => rw [hp] at hin; exact hin.elim
  | _ hp => cases hout

/-- **One step**: the load goes on with the files as they stand, until its outcome is decided. -/
theorem Progress.step (h : Progress debugStr path ssl keys stood since old m)
    (hstep : ReloadStep debugStr path ssl keys m e u) (hnow : stood e m.files) (hmem : e ∈ since) (hpoint : u.point ≠ .starting) :
    Progress debugStr path ssl keys stood since old u := by
  by_cases hdecides : m.point.Inside ∧ u.point = .sleeping
  · obtain ⟨attempt, line, hload, hmet, hreload, -⟩ := h.decides hstep hnow hmem hdecides.1 hdecides.2
    simp only [Progress, hdecides.2]
    exact ⟨attempt, hload, hmet, by rw [hreload]⟩
  cases hstep with
  | sighup => exact h.congr rfl rfl
  | sigterm => exact h.congr rfl rfl
  | rewrite files => exact h.congr rfl rfl
  | tested hp hbetween =>
    simp only [Progress, hp] at h
    rcases hbetween with rfl | rfl
    · exact h
    · exact h
  | requested hp hflag => exact absurd rfl hpoint
  | quiet hp hflag => simpa only [Progress, hp] using h
  | started hp => simp only [Progress, hp] at h
  | read hp =>
    simp only [Progress, hp] at h
    exact ⟨h, m.files, hnow, rfl⟩
  | loads hp hload =>
    simp only [Progress, hp] at h
    obtain ⟨hactive, first, hfirst, rfl⟩ := h
    exact ⟨hactive, first, m.files, hfirst, hnow, hload.symm⟩
  | looked hp locked =>
    simp only [Progress, hp] at h
    obtain ⟨hactive, hload⟩ := h
    exact ⟨hactive, hload, locked, hmem, by simp only [hactive]⟩
  | fit hp hfips =>
    simp only [Progress, hp] at h
    obtain ⟨hactive, hload, hlooked⟩ := h
    exact ⟨hactive, hload, hlooked, _, _, hmem, hfips⟩
  | same hp hsame =>
    simp only [Progress, hp] at h
    obtain ⟨hactive, hload, ⟨locked, hread, hlisten⟩, hfit⟩ := h
    cases locked with
    | true =>
      obtain rfl := Option.some.inj hlisten
      exact ⟨hactive, hload, hread, hfit, hmem, hsame⟩
    | false => cases hlisten
  | woken hp => simpa only [Progress, hp] using h
  | _ hp => exact absurd ⟨by rw [hp]; trivial, rfl⟩ hdecides

end

/-! ## A load under way -/

variable (debugStr path ssl keys)

/-- Event `e`, behind the start of a load, met these files. -/
def StoodAt (start : Reloader Key) (before since : List ReloadEvent) (e : ReloadEvent) (files : Files) : Prop :=
  ∃ es m, es ++ [e] <+: since ∧
    runs (Reloader.step debugStr path ssl keys) start (before ++ .startLoad :: es) = some m ∧ m.files = files

/-- The events `es` end in `m`: their last load found `old`, and so far has come to what `Progress` says. -/
structure UnderWay (start : Reloader Key) (es before since : List ReloadEvent) (old m : Reloader Key) : Prop where
  split : es = before ++ .startLoad :: since
  noLoad : .startLoad ∉ since
  found : runs (Reloader.step debugStr path ssl keys) start before = some old
  progress : Progress debugStr path ssl keys (StoodAt debugStr path ssl keys start before since) since old.active m

/-- The load that started behind `before` found `old`, and is this attempt: its files stood when it read them,
and its answers were given since. -/
structure Attempted (start : Reloader Key) (before since : List ReloadEvent) (old : Reloader Key) (attempt : Attempt Key) :
    Prop where
  noLoad : .startLoad ∉ since
  found : runs (Reloader.step debugStr path ssl keys) start before = some old
  load : LoadOf path ssl keys (StoodAt debugStr path ssl keys start before since) attempt.load
  met : attempt.Met debugStr old.active.listen since

variable {debugStr path ssl keys}

theorem StoodAt.snoc {start : Reloader Key} {before since : List ReloadEvent} {f : ReloadEvent} {files : Files}
    (h : StoodAt debugStr path ssl keys start before since f files) (e : ReloadEvent) :
    StoodAt debugStr path ssl keys start before (since ++ [e]) f files := by
  obtain ⟨es, m, hprefix, hrun, hfiles⟩ := h
  exact ⟨es, m, hprefix.trans (List.prefix_append _ _), hrun, hfiles⟩

section
variable {start old m u : Reloader Key} {es before since : List ReloadEvent} {e : ReloadEvent}

theorem UnderWay.now (h : UnderWay debugStr path ssl keys start es before since old m)
    (hrun : runs (Reloader.step debugStr path ssl keys) start es = some m) (e : ReloadEvent) :
    StoodAt debugStr path ssl keys start before (since ++ [e]) e m.files :=
  ⟨since, m, List.prefix_refl _, h.split ▸ hrun, rfl⟩

/-- What is known of a load, seen from one event later. -/
theorem UnderWay.later (h : UnderWay debugStr path ssl keys start es before since old m) (e : ReloadEvent) :
    Progress debugStr path ssl keys (StoodAt debugStr path ssl keys start before (since ++ [e])) (since ++ [e]) old.active m :=
  h.progress.mono (List.subset_append_left _ _) fun _ _ hf => hf.snoc e

/-- A load goes on, by a step that does not start another. -/
theorem UnderWay.step (h : UnderWay debugStr path ssl keys start es before since old m)
    (hrun : runs (Reloader.step debugStr path ssl keys) start es = some m)
    (hstep : ReloadStep debugStr path ssl keys m e u) (hload : e ≠ .startLoad) (hpoint : u.point ≠ .starting) :
    UnderWay debugStr path ssl keys start (es ++ [e]) before (since ++ [e]) old u where
  split := by rw [h.split, List.append_assoc, List.cons_append]
  noLoad := by
    rw [List.mem_append, List.mem_singleton]
    rintro (hmem | rfl)
    · exact h.noLoad hmem
    · exact hload rfl
  found := h.found
  progress := (h.later e).step hstep (h.now hrun e) (by simp) hpoint

/-- The load starts. -/
theorem UnderWay.started (hrun : runs (Reloader.step debugStr path ssl keys) start es = some m) (hpoint : u.point = .loading)
    (hactive : u.active = m.active) : UnderWay debugStr path ssl keys start (es ++ [.startLoad]) es [] m u where
  split := rfl
  noLoad := by simp
  found := hrun
  progress := by
    simp only [Progress, hpoint]
    exact hactive

/-- Between two iterations the last load is an attempt, and `reload` says what came of it. -/
theorem UnderWay.decided (h : UnderWay debugStr path ssl keys start es before since old m) (hbetween : m.point.Between) :
    ∃ attempt, Attempted debugStr path ssl keys start before since old attempt ∧
      m.active = (reload debugStr old.active attempt).1 := by
  obtain ⟨attempt, hload, hmet, hactive⟩ := h.progress.decided hbetween
  exact ⟨attempt, ⟨h.noLoad, h.found, hload, hmet⟩, hactive⟩

end

/-! ## No request is lost -/

variable (debugStr path ssl keys) in
/-- A request is still to be seen, or there was none, or its load is about to start, or it started after
the last SIGHUP. -/
def Noticed (start : Reloader Key) (es : List ReloadEvent) (m : Reloader Key) : Prop :=
  m.reloadFlag = true ∨ .sighup ∉ es ∨ m.point = .starting ∨
    ∃ before since old, UnderWay debugStr path ssl keys start es before since old m ∧ .sighup ∉ since

section
variable {start m u : Reloader Key} {es : List ReloadEvent} {e : ReloadEvent}

theorem notMem_snoc {since : List ReloadEvent} {f : ReloadEvent} (h : f ∉ since) (hne : e ≠ f) : f ∉ since ++ [e] := by
  rw [List.mem_append, List.mem_singleton]
  rintro (hmem | rfl)
  · exact h hmem
  · exact hne rfl

theorem Noticed.step (h : Noticed debugStr path ssl keys start es m)
    (hrun : runs (Reloader.step debugStr path ssl keys) start es = some m)
    (hstep : ReloadStep debugStr path ssl keys m e u) : Noticed debugStr path ssl keys start (es ++ [e]) u := by
  by_cases hsighup : e = .sighup
  · subst hsighup
    cases hstep with
    | sighup => exact Or.inl rfl
  by_cases hload : e = .startLoad
  · -- the load that answers everything so far
    subst hload
    cases hstep with
    | started hp => exact Or.inr (Or.inr (Or.inr ⟨es, [], m, .started hrun rfl rfl, by simp⟩))
  rcases h with hflag | hnone | hstarting | ⟨before, since, old, hanswered, hnone⟩
  · cases hstep with
    | sighup => exact absurd rfl hsighup
    | requested hp _ => exact Or.inr (Or.inr (Or.inl rfl))
    | quiet hp hclear => rw [hclear] at hflag; cases hflag
    | _ => exact Or.inl hflag
  · exact Or.inr (Or.inl (notMem_snoc hnone hsighup))
  · refine Or.inr (Or.inr (Or.inl ?_))
    cases hstep with
    | sighup => exact absurd rfl hsighup
    | sigterm => exact hstarting
    | rewrite files => exact hstarting
    | started hp => exact absurd rfl hload
    | _ hp => cases hstarting.symm.trans hp
  · by_cases hpoint : u.point = .starting
    · exact Or.inr (Or.inr (Or.inl hpoint))
    · exact Or.inr (Or.inr (Or.inr ⟨before, since ++ [e], old, hanswered.step hrun hstep hload hpoint,
        notMem_snoc hnone hsighup⟩))

/-- The run: by induction on the events. -/
theorem noticed_run (hrun : runs (Reloader.step debugStr path ssl keys) start es = some m) :
    Noticed debugStr path ssl keys start es m := by
  refine (runs_history (P := fun es m => runs (Reloader.step debugStr path ssl keys) start es = some m ∧
    Noticed debugStr path ssl keys start es m) hrun ⟨rfl, Or.inr (Or.inl (by simp))⟩ ?_).2
  intro es t e u ⟨ht, hnoticed⟩ hstep
  exact ⟨runs_snoc.2 ⟨t, ht, hstep⟩, hnoticed.step ht (Reloader.step_cases hstep)⟩

variable (debugStr path ssl keys) in
/-- The last load started after the last SIGHUP, and the active configuration is what `reload` makes of it
and of the one that was active then. If what it read was acceptable, and no lock was poisoned, that is the
new configuration; if it was rejected, the old one. -/
def UpToDate (start : Reloader Key) (es : List ReloadEvent) (m : Reloader Key) : Prop :=
  ∃ before since old attempt, es = before ++ .startLoad :: since ∧ .sighup ∉ since ∧
    Attempted debugStr path ssl keys start before since old attempt ∧
    m.active = (reload debugStr old.active attempt).1 ∧
    (∀ config, attempt.Confirms debugStr config → config.listen.Same old.active.listen →
      .readActive false ∉ since → .replace false ∉ since → m.active = config) ∧
    (attempt.Rejected debugStr old.active.listen → m.active = old.active)

/-- An acceptable attempt replaces the configuration, unless a lock was poisoned. -/
theorem reload_accepted {since : List ReloadEvent} {old config : RuntimeConfig Key} {attempt : Attempt Key}
    (hmet : attempt.Met debugStr old.listen since) (hconfirms : attempt.Confirms debugStr config)
    (hsame : config.listen.Same old.listen) (hread : .readActive false ∉ since) (hreplace : .replace false ∉ since) :
    (reload debugStr old attempt).1 = config := by
  obtain ⟨hload, hfips⟩ := hconfirms
  have hlooked := hmet.looked config hload
  have hreplaced := hmet.replaced config ⟨hload, hfips⟩
  obtain ⟨load, status, fips, read, write⟩ := attempt
  obtain rfl : load = .ok config := hload
  cases read with
  | false => exact absurd hlooked hread
  | true =>
    cases write with
    | false => exact absurd (hreplaced rfl hsame) hreplace
    | true => rw [reload_written hfips hsame, if_pos rfl]

/-- A rejected one leaves it as it was. -/
theorem reload_rejected {old : RuntimeConfig Key} {attempt : Attempt Key} (h : attempt.Rejected debugStr old.listen) :
    (reload debugStr old attempt).1 = old := by
  refine (reload_cases debugStr old attempt).resolve_right ?_
  rintro ⟨hconfirms, hsame⟩
  exact h.listen_ne debugStr hconfirms hsame

/-- **No reload request is lost.** For every interleaving: whenever the thread is between two
iterations and the flag is clear, the last SIGHUP, if there was one, has been answered. -/
theorem requests_answered (hrun : runs (Reloader.step debugStr path ssl keys) start es = some m)
    (hbetween : m.point.Between) (hclear : m.reloadFlag = false) (hsighup : .sighup ∈ es) :
    UpToDate debugStr path ssl keys start es m := by
  rcases noticed_run hrun with hflag | hnone | hstarting | ⟨before, since, old, h, hnone⟩
  · rw [hclear] at hflag
    cases hflag
  · exact absurd hsighup hnone
  · rw [hstarting] at hbetween
    exact hbetween.elim
  · obtain ⟨attempt, hattempted, hactive⟩ := h.decided hbetween
    refine ⟨before, since, old, attempt, h.split, hnone, hattempted, hactive, ?_, fun hrejected => ?_⟩
    · intro config hconfirms hsame hread hreplace
      exact hactive.trans (reload_accepted hattempted.met hconfirms hsame hread hreplace)
    · exact hactive.trans (reload_rejected hrejected)

end

end

/-- Nothing can be read. -/
def exampleMissing : Files where
  readToString _ := .error "No such file or directory (os error 2)"
  read _ := .error "No such file or directory (os error 2)"
  display _ := "dkim-lite.conf"

/-- A load that fails; a SIGHUP that comes in the middle of it is answered by another one, which is acceptable. -/
def exampleReloads : List ReloadEvent :=
  [.sighup, .testShutdown, .swap, .startLoad, .sighup, .readConfig, .readKey, .rewrite (exampleFiles "example.org"), .wake,
    .testShutdown, .swap, .startLoad, .readConfig, .readKey, .readActive true, .checkFips (.ok ['0']) false, .compare,
    .replace true]

theorem requests_answered_example : ∃ m : Reloader Unit, m.active.domain.bytes = ascii "example.org" ∧
    UpToDate String.ofList [] exampleSsl (exampleKeys 2048) { active := exampleConfig, files := exampleMissing }
      exampleReloads m := by
  have hruns : (runs (Reloader.step String.ofList [] exampleSsl (exampleKeys 2048))
      { active := exampleConfig, files := exampleMissing } exampleReloads).any (fun m =>
        decide (m.active.domain.bytes = ascii "example.org") && decide m.point.Between && !m.reloadFlag) = true := by
    decide +kernel
  obtain ⟨m, hrun, hm⟩ := (Option.any_eq_true _ _).1 hruns
  simp only [Bool.and_eq_true, decide_eq_true_eq, Bool.not_eq_true'] at hm
  obtain ⟨⟨hdomain, hbetween⟩, hclear⟩ := hm
  exact ⟨m, hdomain, requests_answered hrun hbetween hclear (by simp [exampleReloads])⟩

end DkimLite
