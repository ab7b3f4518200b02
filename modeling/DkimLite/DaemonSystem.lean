import DkimLite.DaemonEnd

/-!
# The daemon and its connections

`System.lean` has many connections and one active configuration, in any interleaving. `daemon_system`
says that the daemon is such a system: its packets are the packets of the system, and the
configurations that its monitor makes active are the reloads, each vetted before (`Vetted`). So what
holds of the system in every interleaving holds of the daemon.
-/

namespace DkimLite
open Rust Text

section
variable {ι Key : Type} {n : Nat}

/-! ## Every active configuration was vetted -/

section
variable (debugStr : List Char → String) (path : Bytes) (ssl : OpenSsl Key) (keys : KeyFormat Key)

/-- The initial configuration, or one that listens at the same address and that a reload of the run has read
and confirmed, with its own answer of the FIPS check. -/
def Vetted (initial : RuntimeConfig Key) (files : Files) (es : List ReloadEvent) (config : RuntimeConfig Key) : Prop :=
  config = initial ∨ config.listen.Same initial.listen ∧ ∃ before since old attempt, before ++ .startLoad :: since <+: es ∧
    Attempted debugStr path ssl keys { active := initial, files } before since old attempt ∧ attempt.Confirms debugStr config

variable {debugStr path ssl keys} {initial : RuntimeConfig Key} {files : Files}

theorem Vetted.mono {es es' : List ReloadEvent} {config : RuntimeConfig Key}
    (h : Vetted debugStr path ssl keys initial files es config) :
    Vetted debugStr path ssl keys initial files (es ++ es') config := by
  rcases h with rfl | ⟨hlisten, before, since, old, attempt, hprefix, h⟩
  · exact Or.inl rfl
  · exact Or.inr ⟨hlisten, before, since, old, attempt, hprefix.trans (List.prefix_append _ _), h⟩

theorem vetted_active {m : Reloader Key} {es : List ReloadEvent}
    (hrun : runs (Reloader.step debugStr path ssl keys) { active := initial, files } es = some m) :
    Vetted debugStr path ssl keys initial files es m.active := by
  obtain ⟨events, h⟩ := tracked_run hrun
  have hvalidated := validated_run debugStr initial events
  rw [h.tracks.active] at hvalidated
  rcases hvalidated with hinitial | ⟨hlisten, attempt, hmem, hconfirms⟩
  · exact Or.inl hinitial
  · obtain ⟨es', hprefix, before, since, old, rfl, hattempted⟩ := h.source.source hmem
    exact Or.inr ⟨hlisten, before, since, old, attempt, hprefix, hattempted, hconfirms⟩

end

/-! ## The daemon is a system -/

/-- The packets, as the system has them. -/
def DaemonEvent.packet? : DaemonEvent ι Key n → Option (SystemEvent ι Key)
  | .packet _ connection env bytes => some (.packet connection env bytes)
  | _ => none

def SystemEvent.isPacket : SystemEvent ι Key → Bool
  | .packet _ _ _ => true
  | .reload _ => false

section
variable [DecidableEq ι] {listener : Listener} {debugStr : List Char → String} {path : Bytes} {ssl : OpenSsl Key}
  {keys : KeyFormat Key} {initial : RuntimeConfig Key} {files : Files} {d u : Daemon ι Key n}
  {es : List (DaemonEvent ι Key n)} {e : DaemonEvent ι Key n}

variable (debugStr path ssl keys initial files) in
/-- The daemon, and the trace of the system that it is. -/
structure Traced (es : List (DaemonEvent ι Key n)) (d : Daemon ι Key n) (trace : List (SystemEvent ι Key)) : Prop where
  state : System.run initial trace = ⟨d.monitor.active, d.conns⟩
  packets : trace.filter SystemEvent.isPacket = es.filterMap DaemonEvent.packet?
  vetted : ∀ config, .reload config ∈ trace →
    Vetted debugStr path ssl keys initial files (es.filterMap DaemonEvent.monitor?) config

/-- A step in which the system does nothing. -/
theorem Traced.idle {trace : List (SystemEvent ι Key)} (h : Traced debugStr path ssl keys initial files es d trace)
    (hactive : u.monitor.active = d.monitor.active) (hconns : u.conns = d.conns) (hpacket : e.packet? = none) :
    Traced debugStr path ssl keys initial files (es ++ [e]) u trace where
  state := by rw [h.state, hactive, hconns]
  packets := by rw [filterMap_snoc, hpacket, h.packets, Option.toList_none, List.append_nil]
  vetted config hmem := by
    rw [filterMap_snoc]
    exact (h.vetted config hmem).mono

/-- The monitor replaces the active configuration, or leaves it as it is. -/
theorem Reloader.active_step {m v : Reloader Key} {f : ReloadEvent} (h : ReloadStep debugStr path ssl keys m f v) :
    v.active = m.active ∨ f = .replace true := by
  cases h with
  | replaced hp => exact Or.inr rfl
  | _ => exact Or.inl rfl

theorem Traced.step {trace : List (SystemEvent ι Key)} (h : Traced debugStr path ssl keys initial files es d trace)
    (hrun : runs (Daemon.step listener debugStr path ssl keys) (Daemon.start initial files) es = some d)
    (hstep : d.step listener debugStr path ssl keys e = some u) :
    ∃ more, Traced debugStr path ssl keys initial files (es ++ [e]) u (trace ++ more) := by
  have hactive := vetted_active (daemon_monitor (runs_snoc.2 ⟨d, hrun, hstep⟩))
  have hidle : u.monitor.active = d.monitor.active → u.conns = d.conns → e.packet? = none →
      ∃ more, Traced debugStr path ssl keys initial files (es ++ [e]) u (trace ++ more) := fun hsame hconns hpacket =>
    ⟨[], by rw [List.append_nil]; exact h.idle hsame hconns hpacket⟩
  cases Daemon.step_cases hstep with
  | @monitor f v hlive hmonitor =>
    rcases Reloader.active_step (Reloader.step_cases hmonitor) with hsame | hreplace
    · exact hidle hsame rfl rfl
    · refine ⟨[.reload v.active], ?_, ?_, fun config hmem => ?_⟩
      · rw [System.run_snoc, h.state]
        rfl
      · rw [List.filter_append, filterMap_snoc, h.packets]
        rfl
      · rcases List.mem_append.1 hmem with hmem | hmem
        · rw [filterMap_snoc]
          exact (h.vetted config hmem).mono
        · obtain rfl := SystemEvent.reload.inj (List.mem_singleton.1 hmem)
          exact hactive
  | relay _ _ _ => exact hidle rfl rfl rfl
  | pool _ _ _ => exact hidle rfl rfl rfl
  | stores _ _ => exact hidle rfl rfl rfl
  | joinsMonitor _ _ _ => exact hidle rfl rfl rfl
  | @packet i connection env packet hlive hw =>
    refine ⟨[.packet connection env packet], ?_, ?_, fun config hmem => ?_⟩
    · rw [System.run_snoc, h.state]
      rfl
    · rw [List.filter_append, filterMap_snoc, h.packets]
      rfl
    · rcases List.mem_append.1 hmem with hmem | hmem
      · rw [filterMap_snoc]
        exact (h.vetted config hmem).mono
      · cases List.mem_singleton.1 hmem

/-- **The daemon is a system**: by induction on its events. -/
theorem daemon_system
    (hrun : runs (Daemon.step listener debugStr path ssl keys) (Daemon.start initial files) es = some d) :
    ∃ trace, Traced debugStr path ssl keys initial files es d trace := by
  refine (runs_history (P := fun es d => runs (Daemon.step listener debugStr path ssl keys) (Daemon.start initial files) es =
    some d ∧ ∃ trace, Traced debugStr path ssl keys initial files es d trace) hrun ⟨rfl, [], rfl, rfl, by simp⟩ ?_).2
  rintro es t e u ⟨ht, trace, h⟩ hstep
  obtain ⟨more, hmore⟩ := h.step ht hstep
  exact ⟨runs_snoc.2 ⟨t, ht, hstep⟩, _, hmore⟩

end

end

/-- Between the field of a message and its end, the configuration changes to another domain. -/
def exampleRotating : List (DaemonEvent Nat Unit 1) :=
  exampleServed ++ [.monitor (.rewrite (exampleFiles "example.org")), .monitor .testShutdown, .monitor .swap,
    .monitor .startLoad, .monitor .readConfig, .monitor .readKey, .monitor (.readActive true),
    .monitor (.checkFips (.ok ['0']) false), .monitor .compare, .monitor (.replace true)]

theorem daemon_system_example : ∃ (d : Daemon Nat Unit 1) (trace : List (SystemEvent Nat Unit)),
    d.monitor.active.domain.bytes = ascii "example.org" ∧ (trace.filter SystemEvent.isPacket).length = 3 ∧
      Traced String.ofList [] exampleSsl (exampleKeys 2048) exampleConfig (exampleFiles "example.com") exampleRotating d
        trace := by
  have hruns : (runs (Daemon.step .unix String.ofList [] exampleSsl (exampleKeys 2048))
      (Daemon.start exampleConfig (exampleFiles "example.com")) exampleRotating).any
        (fun d => decide (d.monitor.active.domain.bytes = ascii "example.org")) = true := by decide +kernel
  obtain ⟨d, hrun, hdomain⟩ := (Option.any_eq_true _ _).1 hruns
  obtain ⟨trace, h⟩ := daemon_system hrun
  exact ⟨d, trace, of_decide_eq_true hdomain, by rw [h.packets]; rfl, h⟩

end DkimLite
