import GaugeConsole.Proofs.Calls
import GaugeConsole.Publisher

/-!
# What is served

A refresh asks the surface at one moment, publishes what it saw at a later one and counts what the
registry holds at a third, and in between the operator goes on. Whatever the order of their turns,
the view that is served is what the surface showed when the last refresh asked it, and these moments
never go back (`Scene.run_serves`). A view tells the counts of the refresh before it. Where nobody
else has a turn in between, the turns of a refresh come to `Session.refresh` (`Scene.run_refresh`).
-/

namespace GaugeConsole

theorem mem_mapM_ok {α β ε : Type} {f : α → Except ε β} :
    ∀ {as : List α} {bs : List β}, as.mapM f = .ok bs → ∀ a ∈ as, ∃ b ∈ bs, f a = .ok b
  | [], _, _, a, ha => absurd ha List.not_mem_nil
  | a' :: as, bs, h, a, ha => by
    rw [List.mapM_cons] at h
    rcases hb : f a' with e | b
    · rw [hb] at h
      cases h
    rcases hbs : as.mapM f with e | bs'
    · rw [hb, hbs] at h
      cases h
    rw [hb, hbs] at h
    obtain rfl : b :: bs' = bs := Except.ok.inj h
    rcases List.mem_cons.1 ha with rfl | ha
    · exact ⟨b, List.mem_cons_self, hb⟩
    · obtain ⟨b', hmem, hb'⟩ := mem_mapM_ok hbs a ha
      exact ⟨b', List.mem_cons_of_mem _ hmem, hb'⟩

/-- What is done by the operator, and by others on the surface. -/
inductive Act where
  | line (text : String)
  | call (c : Call)

namespace Console

def doing (c : Console) : Act → Console
  | .line text => (c.runLine text).1
  | .call k => { c with registry := c.registry.after k }

/-- The console after acts, the first of them first. -/
def doings (c : Console) (acts : List Act) : Console := acts.foldl doing c

/-- How many families and series are held. -/
def counts (c : Console) : ℕ × ℕ := (c.registry.familyCount, c.registry.seriesCount)

/-- How many families and series the self metrics tell of. -/
def gauges (c : Console) : ℕ × ℕ := (c.self.map fun m => (m.families, m.series)).getD (0, 0)

/-- The console with other traces of refreshes in its self metrics. -/
def traced (c : Console) (durations : Histogram) (counts : ℕ × ℕ) : Console :=
  { c with self := c.self.map fun m =>
    { m with refreshDuration := durations, families := counts.1, series := counts.2 } }

variable {c : Console} {d : Histogram} {n : ℕ × ℕ}

@[simp] theorem traced_registry : (c.traced d n).registry = c.registry := rfl

@[simp] theorem traced_traced {d' : Histogram} {n' : ℕ × ℕ} :
    (c.traced d n).traced d' n' = c.traced d' n' := by
  simp [traced, Function.comp_def]

theorem traced_recordCommand {word : String} :
    (c.traced d n).recordCommand word = (c.recordCommand word).traced d n := by
  simp [traced, recordCommand, Function.comp_def, SelfMetrics.recordCommand]

theorem traced_recordError {word : String} :
    (c.traced d n).recordError word = (c.recordError word).traced d n := by
  simp [traced, recordError, Function.comp_def, SelfMetrics.recordError]

theorem traced_settle {command : Command}
    {step : Registry × Except RegistryError (Option Lifetime)} :
    ((c.traced d n).settle command step).1 = (c.settle command step).1.traced d n := by
  unfold settle
  split
  · rfl
  · exact traced_recordError (c := { c with registry := step.1 })

theorem traced_execute {command : Command} :
    ((c.traced d n).execute command).1 = (c.execute command).1.traced d n := by
  unfold execute
  rw [traced_recordCommand]
  cases command with
  | set m v => exact traced_settle
  | del m => exact traced_settle
  | get m =>
    simp only [traced_registry]
    split
    · rfl
    · exact traced_recordError
  | help => rfl
  | exit => rfl

/-- What is done does not depend on the traces of refreshes, and leaves them alone. -/
theorem traced_doing : ∀ {a : Act}, (c.traced d n).doing a = (c.doing a).traced d n
  | .line text => by
    simp only [doing, runLine]
    split
    · exact traced_recordError
    · rfl
    · exact traced_execute
  | .call _ => rfl

theorem doings_concat {acts : List Act} {a : Act} :
    c.doings (acts ++ [a]) = (c.doings acts).doing a := by
  simp [doings]

theorem exists_traced (c : Console) : ∃ d, c = c.traced d c.gauges := by
  rcases c with ⟨r, _ | m⟩
  · exact ⟨.empty [], rfl⟩
  · exact ⟨m.refreshDuration, rfl⟩

theorem gauges_traced {m : SelfMetrics} (h : (c.traced d n).self = some m) :
    (m.families, m.series) = n := by
  obtain ⟨m', -, rfl⟩ := Option.map_eq_some_iff.1 h
  rfl

/-- A self metric that is on the surface is in the snapshot. -/
theorem expose_mem_snapshot {view : List MetricFamily} {m : SelfMetrics}
    (hview : c.snapshot = .ok view) (hm : c.self = some m) {stem : String} {k : SelfMetric}
    (hk : .self stem k ∈ c.registry.surface.collectors) : m.expose k ∈ view := by
  rw [Console.snapshot, Registry.snapshot] at hview
  rcases hshown : c.registry.surface.collectors.mapM (c.registry.collect c.self) with e | shown
  · rw [hshown] at hview
    cases hview
  rw [hshown] at hview
  obtain rfl : shown.flatten = view := Except.ok.inj hview
  obtain ⟨fs, hfs, hf⟩ := mem_mapM_ok hshown _ hk
  refine List.mem_flatten.2 ⟨fs, hfs, ?_⟩
  obtain rfl : [m.expose k] = fs := by
    rw [Registry.collect, hm] at hf
    exact Except.ok.inj hf
  exact List.mem_singleton_self _

end Console

namespace Session

variable {s : Session} {began : Binary64}

theorem ask_of_error {e : CollectError} (h : s.console.snapshot = .error e) :
    s.ask = ({ s with clock := s.clock.advance }, .error e) := by
  rw [ask, h]

theorem ask_of_ok {view : List MetricFamily} (h : s.console.snapshot = .ok view) :
    s.ask = ({ s with clock := s.clock.advance }, .ok view) := by
  rw [ask, h]

theorem account_publisher : (s.account began).publisher = s.publisher := by
  unfold account
  split <;> rfl

theorem account_console :
    ∀ (s : Session) (began : Binary64),
      ∃ d, (s.account began).console = s.console.traced d s.console.counts
  | ⟨⟨_, none⟩, _, _⟩, _ => ⟨.empty [], rfl⟩
  | ⟨⟨_, some m⟩, _, clock⟩, began => ⟨m.refreshDuration.observe (clock.now - began), rfl⟩

end Session

/-- How far the refresh that is under way has come. -/
inductive Phase where
  | idle
  | asked (began : Binary64) (view : List MetricFamily)
  | published (began : Binary64)

/-- A session and the refresh that is under way in it. -/
structure Scene where
  session : Session
  phase : Phase := .idle

inductive Turn where
  | act (a : Act)
  | refresh

/-- What a turn does, the operator's or the next one of a refresh. -/
def Scene.after (s : Scene) : Turn → Scene
  | .act a => { s with session.console := s.session.console.doing a }
  | .refresh =>
    match s.phase with
    | .idle =>
      match s.session.ask with
      | (session, .error _) => ⟨session, .idle⟩
      | (session, .ok view) => ⟨session, .asked s.session.clock.now view⟩
    | .asked began view => ⟨s.session.publish view, .published began⟩
    | .published began => ⟨s.session.account began, .idle⟩

def Scene.run (s : Scene) (turns : List Turn) : Scene := turns.foldl Scene.after s

/-- A refresh in whose course nothing else happens takes three turns, or one if it fails. -/
theorem Scene.run_refresh (s : Session) :
    (∃ e, s.refresh.2 = .error e ∧ Scene.run ⟨s, .idle⟩ [.refresh] = ⟨s.refresh.1, .idle⟩)
      ∨ s.refresh.2 = .ok ()
        ∧ Scene.run ⟨s, .idle⟩ [.refresh, .refresh, .refresh] = ⟨s.refresh.1, .idle⟩ := by
  rcases hview : s.console.snapshot with e | view
  · have hask := Session.ask_of_error hview
    exact .inl ⟨e, by simp [Session.refresh, hask], by simp [run, after, Session.refresh, hask]⟩
  · have hask := Session.ask_of_ok hview
    exact .inr ⟨by simp [Session.refresh, hask], by simp [run, after, Session.refresh, hask]⟩

theorem Scene.after_failed (s : Scene) (e : CollectError) (hp : s.phase = .idle)
    (he : s.session.console.snapshot = .error e) :
    s.after .refresh = { s with session.clock := s.session.clock.advance } := by
  simp only [Scene.after, hp, Session.ask_of_error he]

/-- The first step of a refresh only looks. -/
theorem Scene.session_after_idle (s : Scene) (hp : s.phase = .idle) :
    (s.after .refresh).session = { s.session with clock := s.session.clock.advance } := by
  rcases hview : s.session.console.snapshot with e | view
  · rw [s.after_failed e hp hview]
  · simp only [Scene.after, hp, Session.ask_of_ok hview]

theorem Scene.publisher_after (s : Scene) (t : Turn) :
    (s.after t).session.publisher = s.session.publisher
      ∨ t = .refresh ∧ ∃ began view, s.phase = .asked began view := by
  cases t with
  | act a => exact .inl rfl
  | refresh =>
    rcases hp : s.phase with _ | ⟨began, view⟩ | began
    · exact .inl (by rw [s.session_after_idle hp])
    · exact .inr ⟨rfl, began, view, rfl⟩
    · refine .inl ?_
      simp only [Scene.after, hp]
      exact Session.account_publisher

section History

/-- A refresh sees the surface and then publishes what it saw, and in the end it counts. -/
inductive Stage where
  | view
  | count
deriving DecidableEq

/-- When a refresh saw the surface or counted: what had been done by then, and the console. -/
structure Moment where
  stage : Stage
  acts : List Act
  console : Console

structure History where
  acts : List Act := []
  /-- When the refresh that is under way saw the surface. -/
  seen : Option Moment := none
  /-- When refreshes saw what they published and when they counted, the last of these first. -/
  log : List Moment := []

/-- The history after a turn that finds the scene as it is. -/
def History.note (h : History) (s : Scene) : Turn → History
  | .act a => { h with acts := h.acts ++ [a] }
  | .refresh =>
    match s.phase with
    | .idle => { h with seen := some ⟨.view, h.acts, s.session.console⟩ }
    | .asked _ _ => { h with log := h.seen.toList ++ h.log }
    | .published _ => { h with log := ⟨.count, h.acts, s.session.console⟩ :: h.log }

def Scene.history (s : Scene) (h : History) : List Turn → History
  | [] => h
  | t :: ts => (s.after t).history (h.note s t) ts

def Turn.act? : Turn → Option Act
  | .act a => some a
  | .refresh => none

theorem Scene.history_acts :
    ∀ (turns : List Turn) {s : Scene} {h : History},
      (s.history h turns).acts = h.acts ++ turns.filterMap Turn.act?
  | [], _, _ => (List.append_nil _).symm
  | .act a :: ts, _, h => by
    rw [Scene.history, history_acts ts]
    simp [History.note, Turn.act?]
  | .refresh :: ts, s, h => by
    have hnote : (h.note s .refresh).acts = h.acts := by
      unfold History.note
      dsimp only
      split <;> rfl
    rw [Scene.history, history_acts ts, hnote]
    rfl

/-- What was counted last, or what the self metrics told in the beginning. -/
def counted (start : Console) : List Moment → ℕ × ℕ
  | [] => start.gauges
  | ⟨.count, _, console⟩ :: _ => console.counts
  | ⟨.view, _, _⟩ :: log => counted start log

/-- The log up to the last view, that one first. -/
def upToView (log : List Moment) : List Moment := log.dropWhile (·.stage = .count)

/-- A view is what was seen at the first moment of a log, or empty if there is none. -/
def Seen (view : List MetricFamily) : List Moment → Prop
  | [] => view = []
  | m :: _ => m.console.snapshot = .ok view

variable {start : Console} {s : Scene} {h : History} {log : List Moment} {m : Moment}

theorem upToView_view (hm : m.stage = .view) : upToView (m :: log) = m :: log := by
  simp [upToView, hm]

theorem upToView_count (hm : m.stage = .count) : upToView (m :: log) = upToView log := by
  simp [upToView, hm]

theorem counted_view (hm : m.stage = .view) : counted start (m :: log) = counted start log := by
  obtain ⟨_, _, _⟩ := m
  subst hm
  rfl

/-- A moment that comes next after others. By then the operator had done all that was done before
them, and the self metrics told what was counted last. Views and counts take turns. -/
structure Moment.Fits (m : Moment) (start : Console) (log : List Moment) : Prop where
  acts : ∀ e ∈ log, e.acts <+: m.acts
  console : ∃ d, m.console = (start.doings m.acts).traced d (counted start log)
  stage : m.stage = .view ↔ ∀ e ∈ log.head?, e.stage = .count

def Genuine (start : Console) : List Moment → Prop
  | [] => True
  | m :: log => m.Fits start log ∧ Genuine start log

theorem Genuine.of_upToView :
    ∀ {log rest : List Moment}, Genuine start log → upToView log = m :: rest → m.Fits start rest
  | [], _, _, heq => by cases heq
  | e :: log, _, h, heq => by
    rcases he : e.stage
    · rw [upToView_view he] at heq
      obtain ⟨rfl, rfl⟩ := List.cons.inj heq
      exact h.1
    · rw [upToView_count he] at heq
      exact of_upToView h.2 heq

/-- What is served, given the history. -/
structure Serves (start : Console) (s : Scene) (h : History) : Prop where
  log : Genuine start h.log
  past : ∀ m ∈ h.log, m.acts <+: h.acts
  served : Seen s.session.publisher.published (upToView h.log)
  refreshes : s.session.publisher.refreshCount = h.log.countP (·.stage = .view)
  console : ∃ d, s.session.console = (start.doings h.acts).traced d (counted start h.log)

/-- How far the history has come with the refresh that is under way. -/
def Phase.Fits (start : Console) (h : History) : Phase → Prop
  | .idle => ∀ m ∈ h.log.head?, m.stage = .count
  | .asked _ view => ∃ m, h.seen = some m ∧ m.stage = .view ∧ m.Fits start h.log
    ∧ m.acts <+: h.acts ∧ m.console.snapshot = .ok view
  | .published _ => ∃ m ∈ h.log.head?, m.stage = .view

theorem Serves.act (hs : Serves start s h) (hp : s.phase.Fits start h) (a : Act) :
    Serves start (s.after (.act a)) (h.note s (.act a))
      ∧ (s.after (.act a)).phase.Fits start (h.note s (.act a)) := by
  have hext : h.acts <+: h.acts ++ [a] := List.prefix_append _ _
  refine ⟨{ hs with past := fun m hm => (hs.past m hm).trans hext, console := ?_ }, ?_⟩
  · obtain ⟨d, hc⟩ := hs.console
    refine ⟨d, ?_⟩
    simp only [Scene.after, History.note, hc, Console.traced_doing, Console.doings_concat]
  · change s.phase.Fits start (h.note s (.act a))
    rcases hph : s.phase with _ | ⟨began, view⟩ | began <;> rw [hph] at hp
    · exact hp
    · obtain ⟨m, hseen, hm, hfits, hacts, hview⟩ := hp
      exact ⟨m, hseen, hm, hfits, hacts.trans hext, hview⟩
    · exact hp

theorem Serves.refresh (hs : Serves start s h) (hp : s.phase.Fits start h) :
    Serves start (s.after .refresh) (h.note s .refresh)
      ∧ (s.after .refresh).phase.Fits start (h.note s .refresh) := by
  simp only [Scene.after, History.note]
  rcases hph : s.phase with _ | ⟨began, view⟩ | began <;> rw [hph] at hp <;> dsimp only
  case idle =>
    rcases hview : s.session.console.snapshot with e | view
    · rw [Session.ask_of_error hview]
      exact ⟨{ hs with }, hp⟩
    · rw [Session.ask_of_ok hview]
      exact ⟨{ hs with }, _, rfl, rfl, ⟨hs.past, hs.console, iff_of_true rfl hp⟩,
        List.prefix_rfl, hview⟩
  case asked =>
    obtain ⟨m, hseen, hm, hfits, hacts, hview⟩ := hp
    rw [hseen]
    refine ⟨⟨⟨hfits, hs.log⟩, ?_, ?_, ?_, ?_⟩, m, rfl, hm⟩
    · exact List.forall_mem_cons.2 ⟨hacts, hs.past⟩
    · exact (upToView_view hm).symm ▸ hview
    · simp [Session.publish, hm, hs.refreshes]
    · exact (counted_view hm).symm ▸ hs.console
  case published =>
    obtain ⟨v, hv, hstage⟩ := hp
    have hfits : Moment.Fits ⟨.count, h.acts, s.session.console⟩ start h.log := by
      refine ⟨hs.past, hs.console, iff_of_false (by simp) fun hcount => ?_⟩
      rw [hcount v hv] at hstage
      contradiction
    refine ⟨⟨⟨hfits, hs.log⟩, ?_, ?_, ?_, ?_⟩, ?_⟩
    · exact List.forall_mem_cons.2 ⟨List.prefix_rfl, hs.past⟩
    · rw [Session.account_publisher, upToView_count rfl]
      exact hs.served
    · rw [Session.account_publisher]
      simpa using hs.refreshes
    · obtain ⟨d, hc⟩ := Session.account_console s.session began
      obtain ⟨d', hc'⟩ := hs.console
      refine ⟨d, hc.trans ?_⟩
      simp only [counted]
      nth_rewrite 1 [hc']
      exact Console.traced_traced
    · rintro _ ⟨⟩
      rfl

theorem Serves.run :
    ∀ (turns : List Turn) {s : Scene} {h : History}, Serves start s h → s.phase.Fits start h →
      Serves start (s.run turns) (s.history h turns)
  | [], _, _, hs, _ => hs
  | .act a :: ts, _, _, hs, hp => Serves.run ts (hs.act hp a).1 (hs.act hp a).2
  | .refresh :: ts, _, _, hs, hp => Serves.run ts (hs.refresh hp).1 (hs.refresh hp).2

/-- Whatever turns are taken, a session serves nothing until a refresh publishes, and then what the
surface showed when the last refresh that published saw it. No turn but that of publishing changes
this, and a refresh that fails changes nothing else. The self metrics tell what was counted last,
those that are served what had been counted when they were seen. The turns of a refresh are those of
`Session.refresh`. -/
theorem Scene.run_serves (start : Console) (interval : Binary64) (clock : Clock)
    (turns : List Turn) :
    let s := Scene.run ⟨⟨start, { interval := interval }, clock⟩, .idle⟩ turns
    let h := Scene.history ⟨⟨start, { interval := interval }, clock⟩, .idle⟩ {} turns
    h.acts = turns.filterMap Turn.act? ∧ Serves start s h
      ∧ (∀ t, (s.after t).session.publisher = s.session.publisher
        ∨ t = .refresh ∧ ∃ began view, s.phase = .asked began view)
      ∧ (∀ e, s.phase = .idle → s.session.console.snapshot = .error e →
        s.after .refresh = { s with session.clock := s.session.clock.advance })
      ∧ (∀ m, s.session.console.self = some m → (m.families, m.series) = counted start h.log)
      ∧ (∀ v log, upToView h.log = v :: log → ∀ m, v.console.self = some m →
        (m.families, m.series) = counted start log
          ∧ ∀ stem k, .self stem k ∈ v.console.registry.surface.collectors →
            m.expose k ∈ s.session.publisher.published)
      ∧ ∀ t : Session,
        (∃ e, t.refresh.2 = .error e ∧ Scene.run ⟨t, .idle⟩ [.refresh] = ⟨t.refresh.1, .idle⟩)
          ∨ t.refresh.2 = .ok ()
            ∧ Scene.run ⟨t, .idle⟩ [.refresh, .refresh, .refresh] = ⟨t.refresh.1, .idle⟩ := by
  intro s h
  have hserves : Serves start s h := by
    refine Serves.run turns ⟨trivial, ?_, rfl, rfl, start.exists_traced⟩ ?_
    · exact List.forall_mem_nil _
    · exact fun _ hm => absurd hm (Option.not_mem_none _)
  refine ⟨Scene.history_acts turns, hserves, s.publisher_after, s.after_failed, ?_, ?_,
    Scene.run_refresh⟩
  · intro m hm
    obtain ⟨d, hc⟩ := hserves.console
    exact Console.gauges_traced (hc ▸ hm)
  · intro v log hlog m hm
    have hview := hserves.served
    rw [hlog] at hview
    obtain ⟨d, hc⟩ := (hserves.log.of_upToView hlog).console
    refine ⟨Console.gauges_traced (hc ▸ hm), fun stem k hk => ?_⟩
    exact Console.expose_mem_snapshot hview hm hk

/-- A refresh publishes one family of the operator. Another one is begun, and then a collector fails
and the next refresh with it. -/
theorem Scene.run_serves_failing :
    let start : Scene := ⟨⟨.monitored "s_", { interval := .ofNat 1 }, .steady .zero⟩, .idle⟩
    let first : List Turn := [.act (.line "set x = 1")]
    let turns : List Turn := first ++ [.refresh, .refresh, .refresh, .act (.line "set y = 2"),
      .act (.call (.register ⟨.failing [] "odd", id⟩)), .refresh]
    let t := (start.run first).session
    let s := start.run turns
    t.refresh.2 = .ok ()
      ∧ Scene.run ⟨t, .idle⟩ [.refresh, .refresh, .refresh] = ⟨t.refresh.1, .idle⟩
      ∧ (∃ e, s.session.refresh.2 = .error e
        ∧ Scene.run ⟨s.session, .idle⟩ [.refresh] = ⟨s.session.refresh.1, .idle⟩)
      ∧ s.session.publisher.refreshCount = 1
      ∧ s.session.publisher.published.map (·.name) = ["s_commands", "s_command_errors",
        "s_refresh_duration_seconds", "s_families", "s_series", "x"]
      ∧ s.session.console.counts = (2, 2) ∧ s.session.console.gauges = (1, 1) := by
  intro start first turns t s
  obtain ⟨-, hserves, -, -, -, -, hrefresh⟩ :=
    Scene.run_serves (.monitored "s_") (.ofNat 1) (.steady .zero) turns
  -- In the terms of this statement, so that only the kernel has to evaluate the runs.
  have hserves : Serves start.session.console s (start.history {} turns) := hserves
  have hpublishes : t.refresh.2.isOk := by decide +kernel
  have hfails : s.session.refresh.2.isOk = false := by decide +kernel
  obtain ⟨e, he, -⟩ | ⟨hok, hrun⟩ := hrefresh t
  · exact absurd hpublishes (he ▸ Bool.false_ne_true)
  obtain hfailed | ⟨hok', -⟩ := hrefresh s.session
  · refine ⟨hok, hrun, hfailed, hserves.refreshes.trans (by decide +kernel), ?_, ?_, ?_⟩ <;>
      decide +kernel
  · exact absurd hfails (hok' ▸ Bool.noConfusion)

end History

end GaugeConsole
