import GaugeConsole.Proofs.Arrivals
import GaugeConsole.Proofs.Samples
import Mathlib.Data.List.Pairwise

/-!
# The surface shows what is held

As long as nobody else takes a gauge family off the surface, the gauge families there are those that
the registry holds, in the same order, and what they show is what they hold (`Registry.run_exposes`).
So one can read off the surface which series are held and with which values.
-/

namespace GaugeConsole

/-- A name is claimed by one collector only. -/
theorem Surface.Apart.eq_of_claims {s : Surface} (h : s.Apart) {c d : Collector}
    (hc : c ∈ s.collectors) (hd : d ∈ s.collectors) {n : String} (hcn : n ∈ c.claims)
    (hdn : n ∈ d.claims) : c = d := by
  have hsymm : Std.Symm fun c d : Collector => ∀ n ∈ c.claims, n ∉ d.claims :=
    ⟨fun _ _ hcd n hn hn' => hcd n hn' hn⟩
  by_contra hne
  exact List.Pairwise.forall h hc hd hne n hcn hdn

namespace Registry

variable {r r' : Registry} {self : Option SelfMetrics} {call : Call}

/-- The gauge families on the surface are those that are held, in the same order. -/
def Mirrored (r : Registry) : Prop :=
  r.surface.collectors.filter (·.IsShell) = r.families.entries.map (·.2.collector)

theorem Orderly.of_mem (h : r.Orderly) {e : String × GaugeFamily} (he : e ∈ r.families.entries) :
    r.family? e.1 = some e.2 ∧ e.2.Proper e.1 := by
  have hf : r.family? e.1 = some e.2 := OrderedMap.mem_entries_iff.1 he
  exact ⟨hf, h hf⟩

theorem Orderly.nodup_collectors (h : r.Orderly) :
    (r.families.entries.map (·.2.collector)).Nodup := by
  refine .of_map Collector.claims ?_
  have hclaims : (r.families.entries.map (·.2.collector)).map Collector.claims
      = r.families.keys.map ([·]) := by
    rw [OrderedMap.keys, List.map_map, List.map_map]
    exact List.map_congr_left fun e he => congrArg ([·]) (h.of_mem he).2.named
  rw [hclaims]
  exact r.families.nodup.map List.singleton_injective

/-- The collector of a family goes away with the family. -/
theorem Orderly.erase_collector (h : r.Orderly) {n : String} {f : GaugeFamily}
    (hf : r.family? n = some f) :
    (r.families.entries.map (·.2.collector)).erase f.collector
      = (r.forget n).families.entries.map (·.2.collector) := by
  rw [h.nodup_collectors.erase_eq_filter, forget, OrderedMap.entries_erase, List.filter_map]
  refine congrArg _ (List.filter_congr fun e he => ?_)
  by_cases hn : e.1 = n
  · have hsame : e.2 = f := Option.some.inj ((h.of_mem he).1.symm.trans (hn ▸ hf))
    simp [hn, hsame]
  · simpa [hn] using h.collector_ne (h.of_mem he).1 hf hn

/-- A family that is held keeps its place with its collector. -/
theorem collectors_hold {n : String} {f g : GaugeFamily} (hf : r.family? n = some f)
    (hn : g.name = n) (hfg : g.collector = f.collector) :
    (r.hold g).families.entries.map (·.2.collector)
      = r.families.entries.map (·.2.collector) := by
  subst hn
  exact OrderedMap.map_entries_insert (v := g) hf hfg

/-- The collector of a new family comes last. -/
theorem collectors_begin {m : Metric} {v : Binary64} {s : Surface}
    (hf : r.family? m.name = none) :
    ((r.grown s).hold ((r.familyFor m).put m.tags v)).families.entries.map (·.2.collector)
      = r.families.entries.map (·.2.collector) ++ [(r.familyFor m).collector] := by
  have hentries : ((r.grown s).hold ((r.familyFor m).put m.tags v)).families.entries
      = r.families.entries ++ [(m.name, (r.familyFor m).put m.tags v)] :=
    OrderedMap.entries_insert hf
  rw [hentries, List.map_append]
  rfl

theorem Mirrored.change (hm : r.Mirrored) (h : r.Orderly) (hc : Change r call r')
    (hcall : ∀ c, call = .unregister c → c ∈ r.surface.collectors → ¬ c.IsShell) :
    r'.Mirrored := by
  unfold Mirrored at hm ⊢
  cases hc with
  | rest => exact hm
  | hold hf hg hfg => exact hm.trans (collectors_hold hf hg.named hfg).symm
  | begin hf hs =>
    obtain ⟨-, -, rfl⟩ := Surface.register_eq_ok_iff.1 hs
    rw [collectors_begin hf, ← hm]
    exact List.filter_append _ _
  | @forget m f hf =>
    change (r.surface.collectors.erase f.collector).filter _ = _
    rw [← List.erase_filter, hm, h.erase_collector hf]
    rfl
  | @register c s hs =>
    obtain ⟨-, -, rfl⟩ := Surface.register_eq_ok_iff.1 hs
    change (r.surface.collectors ++ [c.1]).filter _ = r.families.entries.map _
    rw [List.filter_append, List.filter_singleton, hm]
    simp [c.2]
  | @unregister c hc =>
    have hshell := hcall c rfl hc
    change (r.surface.collectors.erase c).filter _ = r.families.entries.map _
    rw [← List.erase_filter, List.erase_of_not_mem, hm]
    simp [hshell]

theorem mirrored_run {s : Surface} (hothers : ∀ c ∈ s.collectors, ¬ c.IsShell) (calls : List Call)
    (hkept : ∀ c, c.IsShell → ¬ Released { surface := s } calls c) :
    (run { surface := s } calls).Mirrored := by
  induction calls using List.reverseRecOn with
  | nil => exact List.filter_eq_nil_iff.2 fun c hc => by simpa using hothers c hc
  | append_singleton cs c ih =>
    have ho := (orderly_start s).run cs
    rw [run_append]
    refine Mirrored.change (ih fun d hd => ?_) ho (ho.change c) fun d hd hmem hshell => ?_
    · rintro ⟨pre, post, rfl, hmem⟩
      exact hkept d hd ⟨pre, post ++ [c], by simp, hmem⟩
    · exact hkept d hshell ⟨cs, [], by simp [hd], hmem⟩

theorem Orderly.shownBy_collector (h : r.Orderly) {e : String × GaugeFamily}
    (he : e ∈ r.families.entries) : r.shownBy self e.2.collector = [e.2.expose] := by
  obtain ⟨hf, hp⟩ := h.of_mem he
  rw [← hp.named] at hf
  simp [shownBy, collect, GaugeFamily.collector, hf, Except.toOption]

theorem Mirrored.gauges_eq (hm : r.Mirrored) (h : r.Orderly) :
    r.gauges self = r.families.entries.map (·.2.expose) := by
  rw [gauges, hm, List.flatMap_map, List.map_eq_flatMap]
  exact List.flatMap_congr fun e he => h.shownBy_collector he

theorem Mirrored.shows (hm : r.Mirrored) (h : r.Orderly) :
    List.Forall₂ (fun (e : String × GaugeFamily) shown => e.2.name = e.1 ∧ e.2.Shows shown)
      r.families.entries (r.gauges self) := by
  rw [hm.gauges_eq h, List.forall₂_map_right_iff, List.forall₂_same]
  intro e he
  have hp := (h.of_mem he).2
  exact ⟨hp.named, hp.shows_expose⟩

theorem Mirrored.length_samples (hm : r.Mirrored) (h : r.Orderly) :
    ((r.gauges self).flatMap MetricFamily.samples).length = r.seriesCount := by
  rw [hm.gauges_eq h, List.flatMap_map, List.length_flatMap, seriesCount, OrderedMap.values,
    List.foldr_map]
  induction r.families.entries with
  | nil => rfl
  | cons e es ih =>
    rw [List.map_cons, List.sum_cons, ih, List.foldr_cons]
    simp [GaugeFamily.expose, OrderedMap.size]

theorem Mirrored.mem_samples_iff (hm : r.Mirrored) (h : r.Orderly) {smp : Sample} :
    smp ∈ (r.gauges self).flatMap MetricFamily.samples ↔
      ∃ f t v, r.family? f.name = some f ∧ f.series.get? t = some v
        ∧ smp = ⟨f.name, f.labelNames.zip t, v⟩ := by
  rw [hm.gauges_eq h, List.mem_flatMap]
  constructor
  · rintro ⟨shown, hshown, hsmp⟩
    obtain ⟨e, he, rfl⟩ := List.mem_map.1 hshown
    obtain ⟨⟨t, v⟩, htv, rfl⟩ := List.mem_map.1 hsmp
    obtain ⟨hf, hp⟩ := h.of_mem he
    exact ⟨e.2, t, v, hp.named.symm ▸ hf, OrderedMap.mem_entries_iff.1 htv, rfl⟩
  · rintro ⟨f, t, v, hf, htv, rfl⟩
    refine ⟨f.expose, List.mem_map.2 ⟨(f.name, f), OrderedMap.mem_entries_iff.2 hf, rfl⟩, ?_⟩
    exact List.mem_map.2 ⟨(t, v), OrderedMap.mem_entries_iff.2 htv, rfl⟩

section Metric

variable {m : Metric} {f : GaugeFamily}

/-- A series is held if it is shown, and the other way round. -/
theorem Mirrored.shown_iff (hm : r.Mirrored) (h : r.Orderly) (self : Option SelfMetrics)
    (hf : r.family? m.name = some f) (hkeys : ∀ k, k ∈ m.tags.keys ↔ k ∈ f.labelNames) (v : Binary64) :
    (∃ smp ∈ (r.gauges self).flatMap MetricFamily.samples, smp.name = m.name
        ∧ smp.labels.Perm m.tags.entries ∧ smp.value = v)
      ↔ f.series.get? (f.resolve m.tags) = some v := by
  constructor
  · rintro ⟨smp, hsmp, hn, hperm, rfl⟩
    obtain ⟨g, t, v, hg, htv, rfl⟩ := (hm.mem_samples_iff h).1 hsmp
    have hname : g.name = m.name := hn
    rw [hname, hf] at hg
    obtain rfl := Option.some.inj hg
    have ht : t ∈ f.series.keys := OrderedMap.mem_keys_iff.2 (by rw [htv]; rfl)
    rw [(h hf).resolve_of_perm ht hperm, htv]
  · intro hv
    have hn : f.name = m.name := (h hf).named
    refine ⟨⟨f.name, f.labelNames.zip (f.resolve m.tags), v⟩, ?_, hn, ?_, rfl⟩
    · exact (hm.mem_samples_iff h).2 ⟨f, _, v, hn.symm ▸ hf, hv, rfl⟩
    · exact (h hf).perm_resolve hkeys

/-- The value of a series that is held is what its metric gets. -/
theorem get_iff (hf : r.family? m.name = some f) (v : Binary64) :
    f.series.get? (f.resolve m.tags) = some v ↔
      f.resolve m.tags ∈ f.series.keys ∧ r.get m = .ok v := by
  rw [get, hf, OrderedMap.mem_keys_iff]
  rcases hv : f.series.get? (f.resolve m.tags) with _ | w <;> simp [GaugeFamily.read, hv]

theorem Mirrored.nodup_labels (hm : r.Mirrored) (h : r.Orderly) {smp : Sample}
    (hsmp : smp ∈ (r.gauges self).flatMap MetricFamily.samples) :
    (smp.labels.map Prod.fst).Nodup := by
  obtain ⟨g, t, v, hg, htv, rfl⟩ := (hm.mem_samples_iff h).1 hsmp
  have ht : t ∈ g.series.keys := OrderedMap.mem_keys_iff.2 (by rw [htv]; rfl)
  rw [((h hg).unzip ht).1]
  exact (h hg).nodup

/-- Under a name that is held, the collector of the family shows all samples. -/
theorem Mirrored.mem_gauges (hm : r.Mirrored) (h : r.Agrees) (hf : r.family? m.name = some f)
    (hcandid : ∀ c ∈ r.surface.collectors, ¬ c.IsShell → r.Candid self c) {smp : Sample}
    (hsmp : smp ∈ (r.shown self).flatMap MetricFamily.samples) (hn : smp.name = m.name) :
    smp ∈ (r.gauges self).flatMap MetricFamily.samples := by
  have hmem : f.collector ∈ r.surface.collectors := by
    refine List.mem_of_mem_filter (p := (·.IsShell)) ?_
    rw [hm]
    exact List.mem_map.2 ⟨(m.name, f), OrderedMap.mem_entries_iff.2 hf, rfl⟩
  have hclaim : m.name ∈ f.collector.claims := by
    rw [GaugeFamily.collector, (h.orderly hf).named]
    exact List.mem_singleton_self _
  obtain ⟨family, hfamily, hsmp⟩ := List.mem_flatMap.1 hsmp
  obtain ⟨c, hc, hshown⟩ := List.mem_flatMap.1 hfamily
  have hshell : c.IsShell := by
    by_contra hshell
    have hother := hcandid c hc hshell family hshown smp hsmp
    rw [hn] at hother
    exact hshell (h.apart.eq_of_claims hc hmem hother hclaim ▸ trivial)
  have hfilter : c ∈ r.surface.collectors.filter (·.IsShell) :=
    List.mem_filter.2 ⟨hc, decide_eq_true hshell⟩
  exact List.mem_flatMap.2 ⟨family, List.mem_flatMap.2 ⟨c, hfilter, hshown⟩, hsmp⟩

theorem Mirrored.find?_eq (hm : r.Mirrored) (h : r.Agrees) (hf : r.family? m.name = some f)
    (hkeys : ∀ k, k ∈ m.tags.keys ↔ k ∈ f.labelNames)
    (hcandid : ∀ c ∈ r.surface.collectors, ¬ c.IsShell → r.Candid self c) :
    Exposition.find? (r.shown self) m.name m.tags = f.series.get? (f.resolve m.tags) := by
  have hshown := hm.shown_iff h.orderly self hf hkeys
  rw [Exposition.find?]
  cases hfind : ((r.shown self).flatMap MetricFamily.samples).find?
      (Exposition.isSample m.name m.tags) with
  | none =>
    refine (Option.eq_none_iff_forall_ne_some.2 fun v hv => ?_).symm
    obtain ⟨smp, hsmp, hn, hperm, -⟩ := (hshown v).2 hv
    have hsample := (Exposition.isSample_iff (hm.nodup_labels h.orderly hsmp)).2 ⟨hn, hperm⟩
    have hall : smp ∈ (r.shown self).flatMap MetricFamily.samples :=
      (gauges_sublist.flatMap MetricFamily.samples).subset hsmp
    exact List.find?_eq_none.1 hfind smp hall hsample
  | some smp =>
    have hsample := List.find?_some hfind
    have hn : smp.name = m.name := by
      rw [Exposition.isSample, Bool.and_eq_true] at hsample
      exact of_decide_eq_true hsample.1
    have hsmp := hm.mem_gauges h hf hcandid (List.mem_of_find?_eq_some hfind) hn
    obtain ⟨-, hperm⟩ := (Exposition.isSample_iff (hm.nodup_labels h.orderly hsmp)).1 hsample
    exact ((hshown smp.value).1 ⟨smp, hsmp, hn, hperm, rfl⟩).symm

end Metric

/-- What the surface shows is what the registry holds. -/
structure Exposes (r : Registry) (own : Option SelfMetrics) : Prop where
  /-- The surface can be asked unless a collector of somebody else fails. -/
  snapshot : ∀ view, r.snapshot own = .ok view ↔
    (∀ names e, .failing names e ∉ r.surface.collectors) ∧ view = r.shown own
  sublist : (r.gauges own).Sublist (r.shown own)
  families : List.Forall₂
    (fun (e : String × GaugeFamily) family => e.2.name = e.1 ∧ e.2.Shows family)
    r.families.entries (r.gauges own)
  count : ((r.gauges own).flatMap MetricFamily.samples).length = r.seriesCount
  series : ∀ m f, r.family? m.name = some f → (∀ k, k ∈ m.tags.keys ↔ k ∈ f.labelNames) →
    ∀ v, (∃ smp ∈ (r.gauges own).flatMap MetricFamily.samples, smp.name = m.name
        ∧ smp.labels.Perm m.tags.entries ∧ smp.value = v)
      ↔ f.resolve m.tags ∈ f.series.keys ∧ r.get m = .ok v
  /-- Somebody who asks the surface for a sample gets to see the same, if no other collector fails
  or shows what it does not claim. -/
  sample : (∀ names e, .failing names e ∉ r.surface.collectors) →
    (∀ c ∈ r.surface.collectors, ¬ c.IsShell → r.Candid own c) →
    ∀ m f, r.family? m.name = some f → (∀ k, k ∈ m.tags.keys ↔ k ∈ f.labelNames) →
      ∃ found, r.sample? own m.name m.tags = .ok found
        ∧ ∀ v, found = some v ↔ f.resolve m.tags ∈ f.series.keys ∧ r.get m = .ok v

theorem Mirrored.exposes (hm : r.Mirrored) (h : r.Agrees) : r.Exposes self where
  snapshot _ := snapshot_eq_ok_iff
  sublist := gauges_sublist
  families := hm.shows h.orderly
  count := hm.length_samples h.orderly
  series _ _ hf hkeys v := (hm.shown_iff h.orderly self hf hkeys v).trans (get_iff hf v)
  sample hfails hcandid m f hf hkeys := by
    rw [sample?_eq_find? hfails, hm.find?_eq h hf hkeys hcandid]
    exact ⟨_, rfl, get_iff hf⟩

/-- As long as nobody else takes a gauge family off the surface, it shows the families that are held
and no other, in the order in which they were begun, and each of them shows its series, in the order
in which they were last set without being there. -/
theorem run_exposes (s : Surface) (hs : s.Apart) (hothers : ∀ c ∈ s.collectors, ¬ c.IsShell)
    (self : Option SelfMetrics) (calls : List Call)
    (hkept : ∀ c, c.IsShell → ¬ Released { surface := s } calls c) :
    (run { surface := s } calls).Exposes self
      ∧ Dated { surface := s } calls (·.families.keys)
      ∧ ∀ n, Dated { surface := s } calls (·.seriesOf n) := by
  have hm := mirrored_run hothers calls hkept
  exact ⟨hm.exposes ((Agrees.start hs hothers).run calls), dated_families s calls,
    dated_series s calls⟩

/-- Beside a self metric, a family is begun again behind another one, and somebody else comes and
goes. -/
theorem run_exposes_begun_again :
    let own := SelfMetrics.start "own_"
    let s : Surface := ⟨[.self own.stem .series, .ofForeign .counter "up" ""]⟩
    let x : Metric := ⟨"x", .ofList [("a", "1")]⟩
    let y : Metric := ⟨"y", .empty⟩
    let calls : List Call := [.add y .zero, .add x .zero, .register ⟨.ofForeign .gauge "z" "", id⟩,
      .remove y, .add y .zero, .unregister (.ofForeign .counter "up" ""), .add x (.ofNat 1)]
    s.Apart ∧ (∀ c ∈ s.collectors, ¬ c.IsShell)
      ∧ (∀ c, c.IsShell → ¬ Released { surface := s } calls c)
      ∧ (run { surface := s } calls).families.keys = ["x", "y"]
      ∧ (∃ i j, i < j ∧ Since { surface := s } calls ("x" ∈ ·.families.keys) i
        ∧ Since { surface := s } calls ("y" ∈ ·.families.keys) j)
      ∧ (run { surface := s } calls).sample? own "x" x.tags = .ok (some (.ofNat 1)) := by
  intro own s x y calls
  have hs : s.Apart := by
    unfold Surface.Apart
    decide +kernel
  have hothers : ∀ c ∈ s.collectors, ¬ c.IsShell := by decide
  have hkept : ∀ c, c.IsShell → ¬ Released { surface := s } calls c := by
    rintro c hshell ⟨pre, post, heq, -⟩
    have hmem : Call.unregister c ∈ calls := heq ▸ by simp
    obtain rfl : c = .ofForeign .counter "up" "" := by simpa [calls] using hmem
    exact hshell
  obtain ⟨hexposes, hdated, -⟩ := run_exposes s hs hothers own calls hkept
  have hkeys : (run { surface := s } calls).families.keys = ["x", "y"] := by decide +kernel
  have hordered := hdated.ordered
  rw [hkeys] at hordered
  refine ⟨hs, hothers, hkept, hkeys, List.rel_of_pairwise_cons hordered (by simp), ?_⟩
  have hsurface : (run { surface := s } calls).surface.collectors
      = [.self own.stem .series, .shell "x" 1, .ofForeign .gauge "z" "", .shell "y" 2] := by
    decide +kernel
  have hfamily : (run { surface := s } calls).family? "x"
      = some ⟨"x", ["a"], .ofList [(["1"], .ofNat 1)], 1⟩ := by decide +kernel
  have hfails : ∀ names e,
      .failing names e ∉ (run { surface := s } calls).surface.collectors := by
    simp [hsurface, Collector.ofForeign]
  have hcandid : ∀ c ∈ (run { surface := s } calls).surface.collectors, ¬ c.IsShell →
      (run { surface := s } calls).Candid own c := by
    intro c hc hshell
    rw [hsurface] at hc
    simp only [List.mem_cons, List.not_mem_nil, or_false] at hc
    rcases hc with rfl | rfl | rfl | rfl
    · exact candid_self
    · exact absurd trivial hshell
    · exact candid_ofForeign
    · exact absurd trivial hshell
  obtain ⟨found, hfound, hvalue⟩ := hexposes.sample hfails hcandid x _ hfamily fun k => .rfl
  rw [hfound, (hvalue (.ofNat 1)).2 ⟨?_, ?_⟩]
  · exact List.mem_singleton_self _
  · rw [get, hfamily]
    decide +kernel

end Registry

end GaugeConsole
