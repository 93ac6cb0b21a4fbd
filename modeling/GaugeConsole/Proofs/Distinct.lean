import GaugeConsole.Proofs.Exposures
import GaugeConsole.Proofs.Tallies
import Mathlib.Data.Finset.Basic

/-!
# No series is shown twice

Whatever is held and whoever else is on the surface, two samples of one snapshot differ in their
name or in their labels, even if a label without a value counts as none at all
(`Scene.live_distinct`). Two collectors have no name in common, so it comes down to the samples of
one of them: series of a family differ in a label value, children of a counter and buckets of a
histogram in the only label they have.
-/

namespace GaugeConsole

namespace Sample

/-- What a sample is told from others by. -/
def key (s : Sample) : String × Finset (String × String) := (s.name, s.labels.toFinset)

/-- The same for somebody to whom labels without a value are none. -/
def bareKey (s : Sample) : String × Finset (String × String) :=
  (s.name, s.labels.toFinset.filter (·.2 ≠ ""))

end Sample

/-- No two samples have the same name and the same labels, with or without empty ones. -/
structure Distinct (view : List MetricFamily) : Prop where
  keys : ((view.flatMap MetricFamily.samples).map Sample.key).Nodup
  bareKeys : ((view.flatMap MetricFamily.samples).map Sample.bareKey).Nodup

theorem Distinct.of_bareKeys {view : List MetricFamily}
    (h : ((view.flatMap MetricFamily.samples).map Sample.bareKey).Nodup) : Distinct view := by
  refine ⟨.of_map (Prod.map id (Finset.filter (·.2 ≠ ""))) ?_, h⟩
  rw [List.map_map]
  exact h

theorem distinct_singleton {family : MetricFamily}
    (h : (family.samples.map Sample.bareKey).Nodup) : Distinct [family] :=
  .of_bareKeys (by rwa [List.flatMap_singleton])

section Labels

/-- A label value can be told from a set with this label only, an empty one from its being empty. -/
theorem filter_singleton_inj {l k k' : String}
    (h : ({(l, k)} : Finset (String × String)).filter (·.2 ≠ "")
      = ({(l, k')} : Finset (String × String)).filter (·.2 ≠ "")) : k = k' := by
  rw [Finset.filter_singleton, Finset.filter_singleton] at h
  split_ifs at h with hk hk' hk'
  · simpa using h
  · simp at h
  · simp at h
  · exact (not_not.1 hk).trans (not_not.1 hk').symm

theorem nodup_bareKeys_single {α : Type} {as : List α} {key : α → String}
    (h : (as.map key).Nodup) (name label : String) (value : α → Binary64) :
    ((as.map fun a => (⟨name, [(label, key a)], value a⟩ : Sample)).map Sample.bareKey).Nodup := by
  rw [List.map_map]
  refine List.Nodup.map_on ?_ (.of_map _ h)
  intro a ha b hb heq
  have hkey : key a = key b := filter_singleton_inj (congrArg Prod.snd heq)
  exact List.inj_on_of_nodup_map h ha hb hkey

/-- Label values can be told from the labels that they have beside different label names. -/
theorem zip_inj :
    ∀ {ks t u : List String}, ks.Nodup → t.length = ks.length → u.length = ks.length →
      (∀ p : String × String, p.2 ≠ "" → (p ∈ ks.zip t ↔ p ∈ ks.zip u)) → t = u
  | [], t, u, _, ht, hu, _ => by
    rw [List.length_eq_zero_iff.1 ht, List.length_eq_zero_iff.1 hu]
  | k :: ks, [], _, _, ht, _, _ => by simp at ht
  | k :: ks, _ :: _, [], _, _, hu, _ => by simp at hu
  | k :: ks, v :: t, w :: u, hks, ht, hu, h => by
    rw [List.nodup_cons] at hks
    have hk : ∀ x : String, ∀ {r : List String}, (k, x) ∉ ks.zip r := fun x r hx =>
      hks.1 (List.of_mem_zip hx).1
    have hhead : ∀ x : String, x ≠ "" → (x = v ↔ x = w) := by
      intro x hx
      simpa [hk] using h (k, x) hx
    -- an empty value leaves no trace, and is known from there being no other
    have hvw : v = w := by
      by_cases hv : v = ""
      · by_contra hne
        have hw : w ≠ "" := fun hw => hne (hv.trans hw.symm)
        exact hne ((hhead w hw).2 rfl).symm
      · exact (hhead v hv).1 rfl
    have htail : t = u := by
      refine zip_inj hks.2 (Nat.succ.inj ht) (Nat.succ.inj hu) fun p hp => ?_
      have hp' := h p hp
      rw [List.zip_cons_cons, List.zip_cons_cons, List.mem_cons, List.mem_cons] at hp'
      by_cases hpk : p.1 = k
      · obtain ⟨_, x⟩ := p
        subst hpk
        exact iff_of_false (hk x) (hk x)
      · have hne : ∀ x, p ≠ (k, x) := fun x heq => hpk (congrArg Prod.fst heq)
        simpa [hne] using hp'
    rw [hvw, htail]

end Labels

theorem GaugeFamily.Proper.distinct {f : GaugeFamily} {n : String} (h : f.Proper n) :
    Distinct [f.expose] := by
  refine distinct_singleton ?_
  rw [expose, List.map_map]
  refine List.Nodup.map_on ?_ (.of_map Prod.fst f.series.nodup)
  intro e he e' he' heq
  have hlabels := congrArg Prod.snd heq
  have hkey : e.1 = e'.1 := by
    refine zip_inj h.nodup (h.full _ (List.mem_map_of_mem he)) (h.full _ (List.mem_map_of_mem he'))
      fun p hp => ?_
    have hmem := Finset.ext_iff.1 hlabels p
    simpa [Sample.bareKey, hp] using hmem
  exact List.inj_on_of_nodup_map f.series.nodup he he' hkey

namespace Histogram

theorem map_fst_count (x : Binary64) :
    ∀ bs : List (Binary64 × ℕ), (count x bs).map Prod.fst = bs.map Prod.fst
  | [] => rfl
  | (bound, n) :: r => by
    rw [count]
    split_ifs
    · rfl
    · rw [List.map_cons, List.map_cons, map_fst_count x r]

theorem map_fst_cumulative :
    ∀ (below : ℕ) (bs : List (Binary64 × ℕ)), (cumulative below bs).map Prod.fst = bs.map Prod.fst
  | _, [] => rfl
  | below, (bound, n) :: r => by
    rw [cumulative, List.map_cons, List.map_cons, map_fst_cumulative (below + n) r]

/-- The bounds of a histogram as they are written beside its buckets. -/
def boundTexts (h : Histogram) : List String := (h.buckets.map Prod.fst).map Exposition.number

theorem boundTexts_observe {h : Histogram} {x : Binary64} :
    (h.observe x).boundTexts = h.boundTexts := by
  rw [boundTexts, observe, map_fst_count, boundTexts]

theorem nodup_samples {h : Histogram} {name : String} (hb : h.boundTexts.Nodup) :
    ((h.samples name).map Sample.bareKey).Nodup := by
  rw [boundTexts, ← map_fst_cumulative 0, List.map_map] at hb
  have hbuckets := nodup_bareKeys_single hb (name ++ "_bucket") "le" fun b => .ofNat b.2
  rw [samples, List.map_append]
  refine List.nodup_append'.2 ⟨hbuckets, ?_, ?_⟩
  · simp [Sample.bareKey]
  · rw [List.disjoint_left]
    intro key hkey hkey'
    obtain ⟨smp, hsmp, rfl⟩ := List.mem_map.1 hkey
    obtain ⟨b, -, rfl⟩ := List.mem_map.1 hsmp
    simp [Sample.bareKey] at hkey'

end Histogram

namespace SelfMetrics

inductive Use where
  | command (word : String)
  | error (kind : String)
  | duration (seconds : Binary64)
  | active (families series : ℕ)

def used (m : SelfMetrics) : Use → SelfMetrics
  | .command word => m.recordCommand word
  | .error kind => m.recordError kind
  | .duration seconds => m.recordDuration seconds
  | .active families series => m.setActive families series

/-- Self metrics with the names and the bounds that they began with. -/
structure Kept (m : SelfMetrics) (stem : String) : Prop where
  stem : m.stem = stem
  bounds : m.refreshDuration.boundTexts = (Histogram.empty durationBounds).boundTexts

variable {m : SelfMetrics} {stem : String}

theorem kept_start (stem : String) : (start stem).Kept stem := ⟨rfl, rfl⟩

theorem Kept.used (h : m.Kept stem) : ∀ u : Use, (m.used u).Kept stem
  | .command _ | .error _ | .active _ _ => ⟨h.stem, h.bounds⟩
  | .duration _ => ⟨h.stem, Histogram.boundTexts_observe.trans h.bounds⟩

theorem Kept.noted (h : m.Kept stem) (r : Reply) : (m.noted r).Kept stem := ⟨h.stem, h.bounds⟩

theorem nodup_durationBounds : (Histogram.empty durationBounds).boundTexts.Nodup := by
  decide +kernel

theorem Kept.distinct (h : m.Kept stem) (metric : SelfMetric) : Distinct [m.expose metric] := by
  have htally : ∀ {name label : String} (counts : OrderedMap String ℕ),
      ((tallySamples name label counts).map Sample.bareKey).Nodup :=
    fun counts => nodup_bareKeys_single counts.nodup _ _ _
  refine distinct_singleton ?_
  cases metric with
  | commands => exact htally _
  | commandErrors => exact htally _
  | refreshDuration => exact Histogram.nodup_samples (h.bounds ▸ nodup_durationBounds)
  | families => exact List.nodup_singleton _
  | series => exact List.nodup_singleton _

end SelfMetrics

namespace Collector

/-- A collector that is not the registry's belongs to the self metrics, or it shows each series once
and only under names that it claims. -/
def Tidy (own : Option String) : Collector → Prop
  | shell _ _ => True
  | self stem _ => ∀ s ∈ own, stem = s
  | foreign names shown => Distinct shown
    ∧ ∀ family ∈ shown, ∀ smp ∈ family.samples, smp.name ∈ names
  | failing _ _ => True

theorem nodup_foreignBounds : (Histogram.empty foreignBounds).boundTexts.Nodup := by
  decide +kernel

theorem tidy_ofForeign {own : Option String} (kind : MetricKind) (name documentation : String) :
    (ofForeign kind name documentation).Tidy own := by
  have hdistinct (stem : String) : Distinct [exposeForeign kind stem documentation] := by
    refine distinct_singleton ?_
    cases kind with
    | gauge => exact List.nodup_singleton _
    | counter => exact List.nodup_singleton _
    | summary => simp [exposeForeign, Sample.bareKey]
    | histogram => exact Histogram.nodup_samples nodup_foreignBounds
  have hcandid : Registry.Candid {} none (ofForeign kind name documentation) :=
    Registry.candid_ofForeign
  exact ⟨hdistinct _, hcandid⟩

end Collector

namespace Registry

variable {r r' : Registry} {self : Option SelfMetrics} {call : Call}

/-- Each collector on the surface shows every series once and only under its own names. -/
def Sound (r : Registry) (self : Option SelfMetrics) : Prop :=
  ∀ c ∈ r.surface.collectors, r.Candid self c ∧ Distinct (r.shownBy self c)

theorem Orderly.sound_shell (h : r.Orderly) (n : String) (e : ℕ) :
    r.Candid self (.shell n e) ∧ Distinct (r.shownBy self (.shell n e)) := by
  have hshown : r.shownBy self (.shell n e) = []
      ∨ ∃ f : GaugeFamily, f.Proper n ∧ r.shownBy self (.shell n e) = [f.expose] := by
    simp only [shownBy, collect, Except.toOption, Option.getD_some]
    rcases hf : (r.family? n).filter (·.epoch = e) with _ | f
    · exact .inl (by rw [hf]; rfl)
    · exact .inr ⟨f, h (Option.filter_eq_some_iff.1 hf).1, by rw [hf]; rfl⟩
  obtain heq | ⟨f, hf, heq⟩ := hshown
  · rw [Candid, heq]
    exact ⟨List.forall_mem_nil _, .of_bareKeys List.nodup_nil⟩
  · rw [Candid, heq]
    refine ⟨fun family hfamily smp hsmp => ?_, hf.distinct⟩
    obtain rfl := List.mem_singleton.1 hfamily
    obtain ⟨e, -, rfl⟩ := List.mem_map.1 hsmp
    exact List.mem_singleton.2 hf.named

theorem sound_tidy {own : Option String} {c : Collector} (hc : c.Tidy own) (hshell : ¬ c.IsShell)
    (hself : ∀ m ∈ self, ∃ stem ∈ own, m.Kept stem) :
    r.Candid self c ∧ Distinct (r.shownBy self c) := by
  have hnone : Distinct [] := .of_bareKeys List.nodup_nil
  rcases c with ⟨n, e⟩ | ⟨stem, metric⟩ | ⟨names, shown⟩ | ⟨names, message⟩
  · exact absurd trivial hshell
  · rcases self with _ | m
    · exact ⟨List.forall_mem_nil _, hnone⟩
    · obtain ⟨stem', hown, hkept⟩ := hself m rfl
      obtain rfl : stem = m.stem := (hc stem' hown).trans hkept.stem.symm
      exact ⟨candid_self, hkept.distinct metric⟩
  · exact ⟨hc.2, hc.1⟩
  · exact ⟨List.forall_mem_nil _, hnone⟩

/-- Samples of two collectors differ in their names, since each shows only names that it claims. -/
theorem Sound.distinct (h : r.Sound self) (hapart : r.surface.Apart) : Distinct (r.shown self) := by
  refine .of_bareKeys ?_
  rw [shown, List.flatMap_assoc, List.map_flatMap]
  refine List.nodup_flatMap.2 ⟨fun c hc => (h c hc).2.bareKeys, ?_⟩
  refine hapart.imp_of_mem fun {c d} hc hd hclaims => ?_
  have hclaimed : ∀ e ∈ r.surface.collectors, ∀ key,
      key ∈ ((r.shownBy self e).flatMap MetricFamily.samples).map Sample.bareKey →
        key.1 ∈ e.claims := by
    intro e he key hkey
    obtain ⟨smp, hsmp, rfl⟩ := List.mem_map.1 hkey
    obtain ⟨family, hfamily, hsmp⟩ := List.mem_flatMap.1 hsmp
    exact (h e he).1 family hfamily smp hsmp
  exact List.disjoint_left.2 fun key hkc hkd =>
    hclaims _ (hclaimed c hc key hkc) (hclaimed d hd key hkd)

/-- What holds of all collectors of others still does after a call, if it does of one that the call
puts on the surface. -/
theorem Change.outsiders {P : Collector → Prop} (hc : Change r call r')
    (h : ∀ c ∈ r.surface.collectors, ¬ c.IsShell → P c)
    (hcall : ∀ o, call = .register o → P o.1) :
    ∀ c ∈ r'.surface.collectors, ¬ c.IsShell → P c := by
  intro c hmem hshell
  by_cases hreg : ∃ o, call = .register o
  · obtain ⟨o, rfl⟩ := hreg
    cases hc with
    | rest => exact h c hmem hshell
    | hold _ _ _ => exact h c hmem hshell
    | register hs =>
      obtain ⟨-, -, rfl⟩ := Surface.register_eq_ok_iff.1 hs
      rcases List.mem_append.1 hmem with hmem | hmem
      · exact h c hmem hshell
      · exact List.mem_singleton.1 hmem ▸ hcall o rfl
  · exact h c (hc.outsider (fun o ho => hreg ⟨o, ho⟩) hmem hshell) hshell

/-- A registry whose surface shows no series twice, whatever the self metrics tell. -/
structure Clear (r : Registry) (own : Option String) : Prop where
  agrees : r.Agrees
  tidy : ∀ c ∈ r.surface.collectors, ¬ c.IsShell → c.Tidy own

variable {own : Option String}

theorem Clear.after (h : r.Clear own) (hcall : ∀ o, call = .register o → o.1.Tidy own) :
    (r.after call).Clear own := by
  have hchange := h.agrees.orderly.change call
  exact ⟨hchange.agrees h.agrees, hchange.outsiders h.tidy hcall⟩

theorem Clear.run (calls : List Call) (hcalls : ∀ o, Call.register o ∈ calls → o.1.Tidy own)
    (h : r.Clear own) : (r.run calls).Clear own :=
  run_invariant (P := (·.Clear own)) h fun _ hc _ hr => hr.after fun o ho => hcalls o (ho ▸ hc)

theorem Clear.sound (h : r.Clear own) (hself : ∀ m ∈ self, ∃ stem ∈ own, m.Kept stem) :
    r.Sound self := by
  intro c hc
  by_cases hshell : c.IsShell
  · cases c with
    | shell n e => exact h.agrees.orderly.sound_shell n e
    | _ => exact hshell.elim
  · exact sound_tidy (h.tidy c hc hshell) hshell hself

end Registry

/-- What can happen in a session: turns of the operator, of others and of the refreshes, and
somebody's use of the self metrics. -/
inductive Event where
  | turn (t : Turn)
  | use (u : SelfMetrics.Use)

namespace Scene

variable {own : Option String} {s : Scene}

def on (s : Scene) : Event → Scene
  | .turn t => s.after t
  | .use u => { s with session.console.self := s.session.console.self.map (·.used u) }

/-- The scene after events, the first of them first. -/
def live (s : Scene) (events : List Event) : Scene := events.foldl on s

/-- What is served, or is about to be, shows no series twice. -/
structure Clear (s : Scene) (own : Option String) : Prop where
  registry : s.session.console.registry.Clear own
  self : ∀ m ∈ s.session.console.self, ∃ stem ∈ own, m.Kept stem
  published : Distinct s.session.publisher.published
  asked : ∀ began view, s.phase = .asked began view → Distinct view

theorem Clear.snapshot (h : s.Clear own) {view : List MetricFamily}
    (hview : s.session.console.snapshot = .ok view) : Distinct view := by
  obtain ⟨-, rfl⟩ := Registry.snapshot_eq_ok_iff.1 hview
  exact (h.registry.sound h.self).distinct h.registry.agrees.apart

theorem isTidy_of_calls {a : Act} (ha : ∀ c, a = .call (.register c) → c.1.Tidy own) :
    ∀ c, Call.register c ∈ a.calls → c.1.Tidy own := by
  intro c hc
  cases a with
  | call k => exact ha c (congrArg Act.call (List.mem_singleton.1 hc).symm)
  | line text =>
    obtain ⟨command, -, hcommand⟩ := Act.mem_calls_line.1 hc
    cases command <;> cases hcommand

theorem Clear.doing (h : s.Clear own) {a : Act}
    (ha : ∀ c, a = .call (.register c) → c.1.Tidy own) : (s.after (.act a)).Clear own where
  registry := by
    rw [registry_after_act]
    exact Registry.Clear.run _ (isTidy_of_calls ha) h.registry
  self := by
    cases a with
    | call k => exact h.self
    | line text =>
      intro m hm
      simp only [after, Console.doing, Console.self_runLine] at hm
      obtain ⟨m', hm', rfl⟩ := Option.map_eq_some_iff.1 hm
      obtain ⟨stem, hown, hkept⟩ := h.self m' hm'
      exact ⟨stem, hown, hkept.noted _⟩
  published := h.published
  asked := h.asked

theorem Clear.refresh (h : s.Clear own) : (s.after .refresh).Clear own := by
  have hregistry : (s.after .refresh).session.console.registry.Clear own := by
    rw [registry_after_refresh]
    exact h.registry
  rcases hp : s.phase with _ | ⟨began, view⟩ | began
  · rcases hview : s.session.console.snapshot with e | view
    · rw [s.after_failed e hp hview]
      exact { h with }
    · simp only [after, hp, Session.ask_of_ok hview] at hregistry ⊢
      refine ⟨hregistry, h.self, h.published, fun began' view' hasked => ?_⟩
      cases hasked
      exact h.snapshot hview
  · simp only [after, hp] at hregistry ⊢
    exact ⟨hregistry, h.self, h.asked began view hp, by simp⟩
  · simp only [after, hp] at hregistry ⊢
    refine ⟨hregistry, ?_, ?_, by simp⟩
    · intro m hm
      rcases hself : s.session.console.self with _ | m'
      · simp [Session.account, hself] at hm
      · obtain ⟨stem, hown, hkept⟩ := h.self m' hself
        simp only [Session.account, hself] at hm
        obtain rfl := Option.some.inj hm
        exact ⟨stem, hown, (hkept.used (.active _ _)).used (.duration _)⟩
    · rw [Session.account_publisher]
      exact h.published

theorem Clear.using (h : s.Clear own) (u : SelfMetrics.Use) : (s.on (.use u)).Clear own := by
  refine { h with self := fun m hm => ?_ }
  obtain ⟨m', hm', rfl⟩ := Option.map_eq_some_iff.1 hm
  obtain ⟨stem, hown, hkept⟩ := h.self m' hm'
  exact ⟨stem, hown, hkept.used u⟩

theorem Clear.on (h : s.Clear own) :
    ∀ {e : Event}, (∀ c, e = .turn (.act (.call (.register c))) → c.1.Tidy own) →
      (s.on e).Clear own
  | .turn (.act _), he => h.doing fun c hc => he c (hc ▸ rfl)
  | .turn .refresh, _ => h.refresh
  | .use u, _ => h.using u

theorem Clear.live (events : List Event)
    (hevents : ∀ c, .turn (.act (.call (.register c))) ∈ events → c.1.Tidy own)
    (h : s.Clear own) : (s.live events).Clear own :=
  List.foldlRecOn (motive := (·.Clear own)) events Scene.on h fun _ hs _ he =>
    hs.on fun c hc => hevents c (hc ▸ he)

/-- Whatever happens in a session that begins with an empty surface, neither a view of the surface
nor the view that is served shows a series twice, if everybody else's collectors show none twice and
only names that they claim. -/
theorem live_distinct (own : Option String) (interval : Binary64) (clock : Clock)
    (events : List Event)
    (h : ∀ c, .turn (.act (.call (.register c))) ∈ events → c.1.Tidy own) :
    let s := live ⟨⟨{ self := own.map .start }, { interval := interval }, clock⟩, .idle⟩ events
    (∀ view, s.session.console.snapshot = .ok view → Distinct view)
      ∧ Distinct s.session.publisher.published := by
  have hstart : Clear ⟨⟨{ self := own.map .start }, { interval := interval }, clock⟩, .idle⟩
      own := by
    refine ⟨⟨.start .nil (List.forall_mem_nil _), List.forall_mem_nil _⟩, fun m hm => ?_,
      .of_bareKeys List.nodup_nil, by simp⟩
    obtain ⟨stem, hstem, rfl⟩ := Option.map_eq_some_iff.1 hm
    exact ⟨stem, hstem, SelfMetrics.kept_start stem⟩
  have hclear := hstart.live events h
  exact ⟨fun _ => hclear.snapshot, hclear.published⟩

/-- The name of a summary's sum is free for a gauge while the summary is away. The gauge has two
series, one of them with an empty label, and then the summary is refused. -/
theorem live_distinct_crowded :
    let summary : Outsider := ⟨.ofForeign .summary "up" "", id⟩
    let commands : Outsider := ⟨.self "up_" .commands, id⟩
    let duration : Outsider := ⟨.self "up_" .refreshDuration, id⟩
    let up := fun tags : List (String × String) => (⟨"up_sum", .ofList tags⟩ : Metric)
    let acts : List Act := [.call (.register summary), .call (.add (up []) .zero),
      .call (.unregister summary.1), .call (.add (up [("a", "1")]) .zero),
      .call (.add (up []) .zero), .call (.add (up [("a", "")]) .zero), .call (.register summary),
      .call (.register commands), .call (.register duration), .line "help"]
    let events := acts.map (fun a => Event.turn (.act a))
      ++ [.use (.error "odd"), .use (.command ""), .turn .refresh, .turn .refresh]
    let own := some "up_"
    let s := live ⟨⟨{ self := own.map .start }, { interval := .zero }, .steady .zero⟩, .idle⟩ events
    (∀ c, .turn (.act (.call (.register c))) ∈ events → c.1.Tidy own)
      ∧ (s.session.publisher.published.map fun f => (f.name, f.samples.length))
        = [("up_sum", 2), ("up_commands", 2), ("up_refresh_duration_seconds", 12)]
      ∧ Distinct s.session.publisher.published := by
  intro summary commands duration up acts events own
  have htidy : ∀ c, .turn (.act (.call (.register c))) ∈ events → c.1.Tidy own := by
    intro c hc
    have hmem : c = summary ∨ c = commands ∨ c = duration := by
      simpa [events, acts] using hc
    rcases hmem with rfl | rfl | rfl
    · exact Collector.tidy_ofForeign _ _ _
    · exact fun _ hstem => Option.some.inj hstem
    · exact fun _ hstem => Option.some.inj hstem
  refine ⟨htidy, ?_, (live_distinct own .zero (.steady .zero) events htidy).2⟩
  decide +kernel

end Scene

end GaugeConsole
