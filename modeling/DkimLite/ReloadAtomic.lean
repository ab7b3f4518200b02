import DkimLite.ReloadSteps

/-!
# The stepwise monitor does what the atomic one does (`src/main.rs:75-98`)

`Reload.lean` takes a reload as one event, `ReloadSteps.lean` lets signals and rewrites fall between its
steps. `atomic_reload` connects the two: whatever the interleaving, the active configuration and the
log are those of the atomic monitor after requests and attempts that follow the run (`Follows`). An
attempt stands where its outcome is decided; a signal that arrives during a load is put behind it, and
so is a request to shut down that arrives between the test of `SHUTDOWN` and the swap of `RELOAD`, which
the iteration does not see any more.
-/

namespace DkimLite
open Rust Text

section
variable {Key : Type} (debugStr : List Char → String) (path : Bytes) (ssl : OpenSsl Key) (keys : KeyFormat Key)

/-- What an event of the atomic monitor stands for, at the end of `es`: a signal that is still to be answered,
or the load that started last. -/
def MonitorEvent.From (start : Reloader Key) (es : List ReloadEvent) : MonitorEvent Key → Prop
  | .reloadRequest => .sighup ∈ es ∧ ∃ m, runs (Reloader.step debugStr path ssl keys) start es = some m ∧ m.reloadFlag = true
  | .shutdownRequest =>
    .sigterm ∈ es ∧ ∃ m, runs (Reloader.step debugStr path ssl keys) start es = some m ∧ m.shutdownFlag = true
  | .wake attempt => ∃ before since old, es = before ++ .startLoad :: since ∧
    Attempted debugStr path ssl keys start before since old attempt

/-- The events of the atomic monitor follow those of the run, each at the moment that it stands for. -/
inductive Follows (start : Reloader Key) : List ReloadEvent → List (MonitorEvent Key) → Prop
  | nil : Follows start [] []
  | snoc {es : List ReloadEvent} {events more : List (MonitorEvent Key)} {e : ReloadEvent} (h : Follows start es events)
      (hmore : ∀ a ∈ more, a.From debugStr path ssl keys start (es ++ [e])) : Follows start (es ++ [e]) (events ++ more)

/-- The signals that an iteration has not seen. -/
def unseen (reloadFlag shutdownFlag : Bool) : List (MonitorEvent Key) :=
  (if reloadFlag then [.reloadRequest] else []) ++ (if shutdownFlag then [.shutdownRequest] else [])

/-- The flags of the atomic monitor, where the stepwise one stands. -/
def Flags (m : Reloader Key) (reloadFlag shutdownFlag : Bool) : ReloadPoint Key → Prop
  | .test | .sleeping | .ended => reloadFlag = m.reloadFlag ∧ shutdownFlag = m.shutdownFlag
  | .swapping => reloadFlag = m.reloadFlag ∧ shutdownFlag = false
  | _ => reloadFlag = true ∧ shutdownFlag = false

/-- The atomic monitor `a`, and the stepwise one `m`. -/
structure Tracks (a : Monitor Key) (m : Reloader Key) : Prop where
  active : a.active = m.active
  log : a.log = m.log
  flags : Flags m a.reloadFlag a.shutdownFlag m.point

/-- The run so far, and the events it amounts to. -/
structure Tracked (initial : RuntimeConfig Key) (start : Reloader Key) (es : List ReloadEvent)
    (events : List (MonitorEvent Key)) (m : Reloader Key) : Prop where
  tracks : Tracks (Monitor.run debugStr initial events) m
  source : Follows debugStr path ssl keys start es events
  sighup : m.reloadFlag = true → .sighup ∈ es
  sigterm : m.shutdownFlag = true → .sigterm ∈ es
  inside : m.point.Inside → ∃ before since old, UnderWay debugStr path ssl keys start es before since old m

variable {debugStr path ssl keys}

/-- Each of the events stands for something in the run. -/
theorem Follows.source {start : Reloader Key} {es : List ReloadEvent} {events : List (MonitorEvent Key)}
    (h : Follows debugStr path ssl keys start es events) {a : MonitorEvent Key} (ha : a ∈ events) :
    ∃ es', es' <+: es ∧ a.From debugStr path ssl keys start es' := by
  induction h with
  | nil => cases ha
  | snoc h hmore ih =>
    rcases List.mem_append.1 ha with ha | ha
    · obtain ⟨es', hprefix, hfrom⟩ := ih ha
      exact ⟨es', hprefix.trans (List.prefix_append _ _), hfrom⟩
    · exact ⟨_, List.prefix_refl _, hmore a ha⟩

/-! ## The atomic monitor -/

theorem Monitor.run_unseen (initial : RuntimeConfig Key) (events : List (MonitorEvent Key)) (reloadFlag shutdownFlag : Bool) :
    Monitor.run debugStr initial (events ++ unseen reloadFlag shutdownFlag) =
      { Monitor.run debugStr initial events with
        reloadFlag := (Monitor.run debugStr initial events).reloadFlag || reloadFlag
        shutdownFlag := (Monitor.run debugStr initial events).shutdownFlag || shutdownFlag } := by
  unfold Monitor.run unseen
  rw [List.foldl_append]
  cases reloadFlag <;> cases shutdownFlag <;> simp [Monitor.step]

/-- A turn that answers a request, and the signals that it does not see. -/
theorem Monitor.run_answer {initial : RuntimeConfig Key} {events : List (MonitorEvent Key)} {attempt : Attempt Key}
    (hreload : (Monitor.run debugStr initial events).reloadFlag = true)
    (hshutdown : (Monitor.run debugStr initial events).shutdownFlag = false) (reloadFlag shutdownFlag : Bool) :
    Monitor.run debugStr initial ((events ++ [.wake attempt]) ++ unseen reloadFlag shutdownFlag) =
      { active := (reload debugStr (Monitor.run debugStr initial events).active attempt).1
        reloadFlag, shutdownFlag
        log := (Monitor.run debugStr initial events).log ++
          (reload debugStr (Monitor.run debugStr initial events).active attempt).2.toList } := by
  rw [Monitor.run_unseen, Monitor.run_snoc]
  simp [Monitor.step, hreload, hshutdown]

/-! ## The steps -/

section
variable {initial : RuntimeConfig Key} {start m u : Reloader Key} {es : List ReloadEvent} {events : List (MonitorEvent Key)}
  {e : ReloadEvent} {line : Option String}

theorem flags_inside {p : ReloadPoint Key} {b c : Bool} (hp : p.Inside) : Flags m b c p ↔ b = true ∧ c = false := by
  cases p <;> first | exact hp.elim | exact Iff.rfl

theorem Flags.congr {p : ReloadPoint Key} {b c : Bool} (h : Flags m b c p) (hreload : u.reloadFlag = m.reloadFlag)
    (hshutdown : u.shutdownFlag = m.shutdownFlag) : Flags u b c p := by
  unfold Flags at h ⊢
  rw [hreload, hshutdown]
  exact h

theorem mem_unseen {b c : Bool} {a : MonitorEvent Key} (h : a ∈ unseen b c) :
    a = .reloadRequest ∧ b = true ∨ a = .shutdownRequest ∧ c = true := by
  rcases List.mem_append.1 h with h | h
  · split at h
    · rename_i hb
      exact Or.inl ⟨List.mem_singleton.1 h, hb⟩
    · cases h
  · split at h
    · rename_i hc
      exact Or.inr ⟨List.mem_singleton.1 h, hc⟩
    · cases h

/-- The signals that are open at the end of a run. -/
theorem mem_unseen_from (hu : runs (Reloader.step debugStr path ssl keys) start es = some u)
    (hsighup : u.reloadFlag = true → .sighup ∈ es) (hsigterm : u.shutdownFlag = true → .sigterm ∈ es) {b c : Bool}
    (hb : b = true → u.reloadFlag = true) (hc : c = true → u.shutdownFlag = true) {a : MonitorEvent Key}
    (ha : a ∈ unseen b c) : a.From debugStr path ssl keys start es := by
  rcases mem_unseen ha with ⟨rfl, hset⟩ | ⟨rfl, hset⟩
  · exact ⟨hsighup (hb hset), u, hu, hb hset⟩
  · exact ⟨hsigterm (hc hset), u, hu, hc hset⟩

theorem Tracked.signals (h : Tracked debugStr path ssl keys initial start es events m)
    (hreload : u.reloadFlag = true → m.reloadFlag = true ∨ e = .sighup)
    (hshutdown : u.shutdownFlag = true → m.shutdownFlag = true ∨ e = .sigterm) :
    (u.reloadFlag = true → .sighup ∈ es ++ [e]) ∧ (u.shutdownFlag = true → .sigterm ∈ es ++ [e]) := by
  constructor
  · intro hset
    rcases hreload hset with hbefore | rfl
    · exact List.mem_append_left _ (h.sighup hbefore)
    · simp
  · intro hset
    rcases hshutdown hset with hbefore | rfl
    · exact List.mem_append_left _ (h.sigterm hbefore)
    · simp

/-- A step that neither replaces the configuration nor logs; the atomic monitor sees the signals. -/
theorem Tracked.seen (h : Tracked debugStr path ssl keys initial start es events m)
    (hu : runs (Reloader.step debugStr path ssl keys) start (es ++ [e]) = some u) (hactive : u.active = m.active)
    (hlog : u.log = m.log) (hreload : u.reloadFlag = true → m.reloadFlag = true ∨ e = .sighup)
    (hshutdown : u.shutdownFlag = true → m.shutdownFlag = true ∨ e = .sigterm) {b c : Bool}
    (hb : b = true → u.reloadFlag = true) (hc : c = true → u.shutdownFlag = true)
    (hflags : Flags u ((Monitor.run debugStr initial events).reloadFlag || b)
      ((Monitor.run debugStr initial events).shutdownFlag || c) u.point)
    (hinside : u.point.Inside → ∃ before since old, UnderWay debugStr path ssl keys start (es ++ [e]) before since old u) :
    Tracked debugStr path ssl keys initial start (es ++ [e]) (events ++ unseen b c) u := by
  obtain ⟨hsighup, hsigterm⟩ := h.signals hreload hshutdown
  refine ⟨?_, h.source.snoc fun a ha => mem_unseen_from hu hsighup hsigterm hb hc ha, hsighup, hsigterm, hinside⟩
  rw [Monitor.run_unseen]
  exact ⟨h.tracks.active.trans hactive.symm, h.tracks.log.trans hlog.symm, hflags⟩

/-- A step that the atomic monitor does not see. -/
theorem Tracked.hidden (h : Tracked debugStr path ssl keys initial start es events m)
    (hu : runs (Reloader.step debugStr path ssl keys) start (es ++ [e]) = some u) (hactive : u.active = m.active)
    (hlog : u.log = m.log) (hreload : u.reloadFlag = true → m.reloadFlag = true ∨ e = .sighup)
    (hshutdown : u.shutdownFlag = true → m.shutdownFlag = true ∨ e = .sigterm)
    (hflags : Flags u (Monitor.run debugStr initial events).reloadFlag (Monitor.run debugStr initial events).shutdownFlag u.point)
    (hinside : u.point.Inside → ∃ before since old, UnderWay debugStr path ssl keys start (es ++ [e]) before since old u) :
    ∃ more, Tracked debugStr path ssl keys initial start (es ++ [e]) (events ++ more) u := by
  refine ⟨unseen false false, h.seen hu hactive hlog hreload hshutdown (by simp) (by simp) ?_ hinside⟩
  rw [Bool.or_false, Bool.or_false]
  exact hflags

/-- Inside a load no other one starts. -/
theorem ReloadStep.ne_startLoad (hstep : ReloadStep debugStr path ssl keys m e u) (hin : m.point.Inside) : e ≠ .startLoad := by
  rintro rfl
  cases hstep with
  | started hp =>
    rw [hp] at hin
    exact hin.elim

/-- The load of which the thread is inside goes on. -/
theorem Tracked.underWay (h : Tracked debugStr path ssl keys initial start es events m)
    (hrun : runs (Reloader.step debugStr path ssl keys) start es = some m)
    (hstep : ReloadStep debugStr path ssl keys m e u) (hin : m.point.Inside) (hinside : u.point.Inside) :
    ∃ before since old, UnderWay debugStr path ssl keys start (es ++ [e]) before since old u := by
  obtain ⟨before, since, old, hload⟩ := h.inside hin
  refine ⟨before, since ++ [e], old, hload.step hrun hstep (hstep.ne_startLoad hin) fun hpoint => ?_⟩
  rw [hpoint] at hinside
  exact hinside

/-- A load is decided. -/
theorem Tracked.decided (h : Tracked debugStr path ssl keys initial start es events m)
    (hrun : runs (Reloader.step debugStr path ssl keys) start es = some m)
    (hstep : m.step debugStr path ssl keys e = some u) (hin : m.point.Inside) (hout : u.point = .sleeping) :
    ∃ more, Tracked debugStr path ssl keys initial start (es ++ [e]) (events ++ more) u := by
  have hcases := Reloader.step_cases hstep
  have hu := runs_snoc.2 ⟨m, hrun, hstep⟩
  have hnot := hcases.ne_startLoad hin
  obtain ⟨before, since, old, hunder⟩ := h.inside hin
  obtain ⟨attempt, line, hload, hmet, hreload, hlog, hsame⟩ :=
    (hunder.later e).decides hcases (hunder.now hrun e) (by simp) hin hout
  have hattempted : Attempted debugStr path ssl keys start before (since ++ [e]) old attempt :=
    ⟨notMem_snoc hunder.noLoad hnot, hunder.found, hload, hmet⟩
  have hflags := (flags_inside hin).1 h.tracks.flags
  obtain ⟨hsighup, hsigterm⟩ := h.signals (e := e) (fun hset => Or.inl (hsame.1 ▸ hset)) fun hset => Or.inl (hsame.2 ▸ hset)
  refine ⟨[.wake attempt] ++ unseen m.reloadFlag m.shutdownFlag, ?_, h.source.snoc fun a ha => ?_, hsighup, hsigterm, ?_⟩
  · rw [← List.append_assoc, Monitor.run_answer hflags.1 hflags.2, h.tracks.active, h.tracks.log,
      hunder.progress.unchanged hin, hreload]
    refine ⟨rfl, hlog.symm, ?_⟩
    rw [hout]
    exact ⟨hsame.1.symm, hsame.2.symm⟩
  · rcases List.mem_append.1 ha with ha | ha
    · obtain rfl := List.mem_singleton.1 ha
      exact ⟨before, since ++ [e], old, by rw [hunder.split, List.append_assoc, List.cons_append], hattempted⟩
    · exact mem_unseen_from hu hsighup hsigterm (fun hset => hsame.1.trans hset) (fun hset => hsame.2.trans hset) ha
  · intro hp
    rw [hout] at hp
    exact hp.elim

/-- The point a test of `SHUTDOWN` leads to. -/
theorem Reloader.tested (hp : m.point = .test) (hstep : m.step debugStr path ssl keys .testShutdown = some u) :
    u = { m with point := if m.shutdownFlag then .ended else .swapping } := by
  unfold Reloader.step at hstep
  rw [hp] at hstep
  exact (Option.some.inj hstep).symm

/-- One step inside a load that is not yet decided. -/
theorem Tracked.goesOn (h : Tracked debugStr path ssl keys initial start es events m)
    (hrun : runs (Reloader.step debugStr path ssl keys) start es = some m)
    (hu : runs (Reloader.step debugStr path ssl keys) start (es ++ [e]) = some u) (hin : m.point.Inside)
    (hstep : ReloadStep debugStr path ssl keys m e u) (hinside : u.point.Inside)
    (hsame : u.active = m.active ∧ u.log = m.log ∧ u.reloadFlag = m.reloadFlag ∧ u.shutdownFlag = m.shutdownFlag) :
    ∃ more, Tracked debugStr path ssl keys initial start (es ++ [e]) (events ++ more) u := by
  obtain ⟨hactive, hlog, hreload, hshutdown⟩ := hsame
  refine h.hidden hu hactive hlog ?_ ?_ ?_ fun _ => h.underWay hrun hstep hin hinside
  · rw [hreload]
    exact Or.inl
  · rw [hshutdown]
    exact Or.inl
  · rw [flags_inside hinside]
    exact (flags_inside hin).1 h.tracks.flags

/-- A signal: it is seen at once, or behind the load. -/
theorem Tracked.signal (h : Tracked debugStr path ssl keys initial start es events m)
    (hrun : runs (Reloader.step debugStr path ssl keys) start es = some m)
    (hu : runs (Reloader.step debugStr path ssl keys) start (es ++ [e]) = some u)
    (hstep : ReloadStep debugStr path ssl keys m e u) {b c : Bool}
    (hsame : u = { m with reloadFlag := m.reloadFlag || b, shutdownFlag := m.shutdownFlag || c })
    (hb : b = true → e = .sighup) (hc : c = true → e = .sigterm) :
    ∃ more, Tracked debugStr path ssl keys initial start (es ++ [e]) (events ++ more) u := by
  have hflags := h.tracks.flags
  have hactive : u.active = m.active := by rw [hsame]
  have hlog : u.log = m.log := by rw [hsame]
  have hpoint : u.point = m.point := by rw [hsame]
  have hreload : u.reloadFlag = true → m.reloadFlag = true ∨ e = .sighup := by
    rw [hsame, Bool.or_eq_true]
    exact Or.imp_right hb
  have hshutdown : u.shutdownFlag = true → m.shutdownFlag = true ∨ e = .sigterm := by
    rw [hsame, Bool.or_eq_true]
    exact Or.imp_right hc
  have hb' : b = true → u.reloadFlag = true := fun hset => by simp [hsame, hset]
  have hc' : c = true → u.shutdownFlag = true := fun hset => by simp [hsame, hset]
  have hinside : u.point.Inside →
      ∃ before since old, UnderWay debugStr path ssl keys start (es ++ [e]) before since old u := fun hin =>
    h.underWay hrun hstep (hpoint ▸ hin) hin
  by_cases hbetween : m.point = .test ∨ m.point = .sleeping ∨ m.point = .ended
  · refine ⟨_, h.seen hu hactive hlog hreload hshutdown hb' hc' ?_ hinside⟩
    rw [hsame]
    rcases hbetween with hp | hp | hp <;> simp only [hp] at hflags ⊢ <;> exact ⟨by rw [hflags.1], by rw [hflags.2]⟩
  · by_cases hswapping : m.point = .swapping
    · refine ⟨_, h.seen hu hactive hlog hreload hshutdown (c := false) hb' (by simp) ?_ hinside⟩
      rw [hsame]
      simp only [hswapping] at hflags ⊢
      exact ⟨by rw [hflags.1], by rw [hflags.2]; rfl⟩
    · refine ⟨_, h.seen hu hactive hlog hreload hshutdown (b := false) (c := false) (by simp) (by simp) ?_ hinside⟩
      rw [hsame]
      cases hp : m.point <;> simp_all [Flags]

theorem Tracked.step (h : Tracked debugStr path ssl keys initial start es events m)
    (hrun : runs (Reloader.step debugStr path ssl keys) start es = some m)
    (hstep : m.step debugStr path ssl keys e = some u) :
    ∃ more, Tracked debugStr path ssl keys initial start (es ++ [e]) (events ++ more) u := by
  have hcases := Reloader.step_cases hstep
  have hu := runs_snoc.2 ⟨m, hrun, hstep⟩
  have hflags := h.tracks.flags
  by_cases hin : m.point.Inside
  · by_cases hout : u.point = .sleeping
    · exact h.decided hrun hstep hin hout
    · cases hcases with
      | sighup => exact h.signal hrun hu .sighup (b := true) (c := false) (by simp) (fun _ => rfl) (by simp)
      | sigterm => exact h.signal hrun hu .sigterm (b := false) (c := true) (by simp) (by simp) fun _ => rfl
      | rewrite files => exact h.goesOn hrun hu hin (.rewrite files) hin ⟨rfl, rfl, rfl, rfl⟩
      | read hp => exact h.goesOn hrun hu hin (.read hp) trivial ⟨rfl, rfl, rfl, rfl⟩
      | loads hp hload => exact h.goesOn hrun hu hin (.loads hp hload) trivial ⟨rfl, rfl, rfl, rfl⟩
      | looked hp locked => exact h.goesOn hrun hu hin (.looked hp locked) trivial ⟨rfl, rfl, rfl, rfl⟩
      | fit hp hfips => exact h.goesOn hrun hu hin (.fit hp hfips) trivial ⟨rfl, rfl, rfl, rfl⟩
      | same hp hlisten => exact h.goesOn hrun hu hin (.same hp hlisten) trivial ⟨rfl, rfl, rfl, rfl⟩
      | tested hp _ => rw [hp] at hin; exact hin.elim
      | requested hp _ => rw [hp] at hin; exact hin.elim
      | quiet hp _ => rw [hp] at hin; exact hin.elim
      | started hp => rw [hp] at hin; exact hin.elim
      | woken hp => rw [hp] at hin; exact hin.elim
      | _ hp => exact absurd rfl hout
  · cases hcases with
    | sighup => exact h.signal hrun hu .sighup (b := true) (c := false) (by simp) (fun _ => rfl) (by simp)
    | sigterm => exact h.signal hrun hu .sigterm (b := false) (c := true) (by simp) (by simp) fun _ => rfl
    | rewrite files =>
      refine h.hidden hu rfl rfl Or.inl Or.inl ?_ fun hp => absurd hp hin
      exact hflags.congr rfl rfl
    | @tested hp point hbetween =>
      have hpoint : point = if m.shutdownFlag then .ended else .swapping :=
        congrArg Reloader.point (Reloader.tested hp hstep)
      rw [hp] at hflags
      refine h.hidden hu rfl rfl Or.inl Or.inl ?_ ?_
      · rw [hpoint]
        cases hshutdown : m.shutdownFlag with
        | true => exact ⟨hflags.1, hflags.2.trans hshutdown⟩
        | false => exact ⟨hflags.1, hflags.2.trans hshutdown⟩
      · rcases hbetween with rfl | rfl
        · exact fun hp => hp.elim
        · exact fun hp => hp.elim
    | requested hp hflag =>
      rw [hp] at hflags
      exact h.hidden hu rfl rfl (by simp) Or.inl ⟨hflags.1.trans hflag, hflags.2⟩ fun hp => hp.elim
    | quiet hp hflag =>
      -- a request to shut down may have come since the test
      rw [hp] at hflags
      refine ⟨unseen false m.shutdownFlag, ?_⟩
      apply h.seen hu
      · rfl
      · rfl
      · simp
      · exact Or.inl
      · simp
      · exact id
      · rw [Bool.or_false, hflags.2, Bool.false_or]
        exact ⟨hflags.1.trans hflag, rfl⟩
      · exact fun hp => hp.elim
    | started hp =>
      rw [hp] at hflags
      exact h.hidden hu rfl rfl Or.inl Or.inl hflags fun _ => ⟨es, [], m, .started hrun rfl rfl⟩
    | woken hp =>
      rw [hp] at hflags
      exact h.hidden hu rfl rfl Or.inl Or.inl hflags fun hp => hp.elim
    | read hp => exact absurd (hp ▸ trivial) hin
    | loads hp hload => exact absurd (hp ▸ trivial) hin
    | unloadable hp hload => exact absurd (hp ▸ trivial) hin
    | looked hp locked => exact absurd (hp ▸ trivial) hin
    | unfit hp hfips => exact absurd (hp ▸ trivial) hin
    | fit hp hfips => exact absurd (hp ▸ trivial) hin
    | moved hp hlisten => exact absurd (hp ▸ trivial) hin
    | same hp hlisten => exact absurd (hp ▸ trivial) hin
    | replaced hp => exact absurd (hp ▸ trivial) hin
    | poisoned hp => exact absurd (hp ▸ trivial) hin

variable (debugStr path ssl keys) in
/-- What the atomic monitor was asked and tried, and what came of it. -/
structure Amounts (initial : RuntimeConfig Key) (start : Reloader Key) (es : List ReloadEvent) (m : Reloader Key)
    (events : List (MonitorEvent Key)) : Prop where
  source : Follows debugStr path ssl keys start es events
  active : (Monitor.run debugStr initial events).active = m.active
  log : (Monitor.run debugStr initial events).log = m.log
  /-- Behind an iteration it has the same requests open. -/
  flags : m.point = .test ∨ m.point = .sleeping ∨ m.point = .ended →
    (Monitor.run debugStr initial events).reloadFlag = m.reloadFlag ∧
      (Monitor.run debugStr initial events).shutdownFlag = m.shutdownFlag

/-- The run: by induction on the events. -/
theorem tracked_run {files : Files}
    (hrun : runs (Reloader.step debugStr path ssl keys) { active := initial, files } es = some m) :
    ∃ events, Tracked debugStr path ssl keys initial { active := initial, files } es events m := by
  refine (runs_history (P := fun es m => runs (Reloader.step debugStr path ssl keys) { active := initial, files } es = some m ∧
    ∃ events, Tracked debugStr path ssl keys initial { active := initial, files } es events m) hrun ⟨rfl, [], ?_⟩ ?_).2
  · exact ⟨⟨rfl, rfl, rfl, rfl⟩, .nil, by simp, by simp, fun hp => hp.elim⟩
  · rintro es t e u ⟨ht, events, htracked⟩ hstep
    obtain ⟨more, hmore⟩ := htracked.step ht hstep
    exact ⟨runs_snoc.2 ⟨t, ht, hstep⟩, _, hmore⟩

/-- **A reload is atomic.** For every interleaving of signals and rewrites with the steps of the monitor:
its configuration and its log are those of the atomic monitor, after the requests that were made and the
loads that were started, in their order, each with the files that it read and the answers that it got. -/
theorem atomic_reload {files : Files}
    (hrun : runs (Reloader.step debugStr path ssl keys) { active := initial, files } es = some m) :
    ∃ events, Amounts debugStr path ssl keys initial { active := initial, files } es m events := by
  obtain ⟨events, h⟩ := tracked_run hrun
  refine ⟨events, h.source, h.tracks.active, h.tracks.log, fun hpoint => ?_⟩
  have hflags := h.tracks.flags
  rcases hpoint with hp | hp | hp <;> rw [hp] at hflags <;> exact hflags

end

end

/-- A signal comes during a load, and another between the test and the swap. -/
theorem atomic_reload_example : ∃ (m : Reloader Unit) (events : List (MonitorEvent Unit)),
    m.active.domain.bytes = ascii "example.org" ∧ m.shutdownFlag = true ∧
      Amounts String.ofList [] exampleSsl (exampleKeys 2048) exampleConfig { active := exampleConfig, files := exampleMissing }
        (exampleReloads ++ [.wake, .testShutdown, .sigterm, .swap]) m events := by
  have hruns : (runs (Reloader.step String.ofList [] exampleSsl (exampleKeys 2048))
      { active := exampleConfig, files := exampleMissing } (exampleReloads ++ [.wake, .testShutdown, .sigterm, .swap])).any
        (fun m => decide (m.active.domain.bytes = ascii "example.org") && m.shutdownFlag) = true := by decide +kernel
  obtain ⟨m, hrun, hm⟩ := (Option.any_eq_true _ _).1 hruns
  simp only [Bool.and_eq_true, decide_eq_true_eq] at hm
  obtain ⟨events, h⟩ := atomic_reload hrun
  exact ⟨m, events, hm.1, hm.2, h⟩

end DkimLite
