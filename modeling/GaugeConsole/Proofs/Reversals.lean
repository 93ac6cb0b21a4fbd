import GaugeConsole.Proofs.Agreement

/-!
# What is taken back

A series that was not there can be added and removed again, and nothing is left of it: the registry
holds the same families and the surface shows the same collectors, all of them in the same order.
It makes no difference whether the series began a family or joined one, nor whether the surface
still has that family. Of two adds to one series only the second counts (`Registry.run_takes_back`).
-/

namespace GaugeConsole

namespace Surface

variable {s s' : Surface} {c : Collector} {n : String} {k : ℕ}

/-- The surface takes a gauge family of a name that there is and that nobody has. -/
theorem register_shell_eq_ok_iff :
    s.register (.shell n k) = .ok s' ↔ n ≠ "" ∧ (∀ c ∈ s.collectors, n ∉ c.claims)
      ∧ s' = ⟨s.collectors ++ [.shell n k]⟩ := by
  have hclaims : (∀ c ∈ s.collectors, ∀ j ∈ c.claims, j ∉ (Collector.shell n k).claims)
      ↔ ∀ c ∈ s.collectors, n ∉ c.claims := by
    simp only [show (Collector.shell n k).claims = [n] from rfl, List.mem_singleton]
    exact ⟨fun h c hc hn => h c hc n hn rfl, fun h c hc j hj hjn => h c hc (hjn ▸ hj)⟩
  rw [register_eq_ok_iff, hclaims]
  simp [Collector.claims]

/-- A collector that has a name is only registered where there is none of the same name, so it is
itself the one that is taken off again. -/
theorem unregister_of_register (hn : n ∈ c.claims) (h : s.register c = .ok s') :
    s'.unregister c = some s := by
  obtain ⟨-, hfree, rfl⟩ := register_eq_ok_iff.1 h
  have hc : c ∉ s.collectors := fun hc => hfree c hc n hn hn
  rw [unregister_of_mem (List.mem_append_right _ (List.mem_singleton_self c)), erase,
    List.erase_append_right _ hc, List.erase_cons_head, List.append_nil]

end Surface

namespace GaugeFamily

variable {f : GaugeFamily} {tags tags' : Tags} {v w : Binary64}

theorem drop_put (h : f.series.get? (f.resolve tags) = none) : (f.put tags v).drop tags = f := by
  rw [drop, resolve_put, put, OrderedMap.erase_insert h]

theorem put_put (h : f.resolve tags' = f.resolve tags) :
    (f.put tags v).put tags' w = f.put tags w := by
  rw [put, resolve_put, h, put, put, OrderedMap.insert_insert]

end GaugeFamily

namespace Registry

variable {r : Registry} {m m' : Metric} {f g : GaugeFamily} {v w : Binary64} {l : Option Lifetime}

theorem hold_hold (h : f.name = g.name) : (r.hold f).hold g = r.hold g := by
  rw [hold, hold, h, OrderedMap.insert_insert, hold]

/-- An add of this metric would make a series: no family has its name and the surface would take
one, or the family that has it is without the series. -/
inductive Vacant (r : Registry) (m : Metric) : Prop
  | free : r.family? m.name = none → m.name ≠ "" →
      (∀ c ∈ r.surface.collectors, m.name ∉ c.claims) → Vacant r m
  | missing {f : GaugeFamily} : r.family? m.name = some f → f.resolve m.tags ∉ f.series.keys →
      Vacant r m

/-- An add and a remove of this metric succeed and leave what there was before. -/
structure TakesBack (r : Registry) (m : Metric) (v : Binary64) : Prop where
  added : ∃ l, (r.add m v).2 = .ok l
  removed : ∃ l, ((r.add m v).1.remove m).2 = .ok l
  families : ((r.add m v).1.remove m).1.families = r.families
  surface : ((r.add m v).1.remove m).1.surface = r.surface

theorem not_mem_keys_iff :
    f.resolve m.tags ∉ f.series.keys ↔ f.series.get? (f.resolve m.tags) = none := by
  simp [OrderedMap.mem_keys_iff]

/-- After a remove the series is not there. -/
theorem Orderly.get?_remove (h : r.Orderly) (hok : (r.remove m).2 = .ok l)
    (hf : (r.remove m).1.family? m.name = some f) : f.series.get? (f.resolve m.tags) = none := by
  obtain ⟨hnone, heq⟩ | ⟨g, hg, hcases⟩ := remove_cases r m
  · rw [heq, hnone] at hf
    cases hf
  obtain ⟨-, heq⟩ | ⟨-, -, -, heq⟩ | ⟨-, -, -, -, heq⟩ | ⟨-, s, -, -, -, heq⟩ := hcases <;>
    rw [heq] at hok hf
  · cases hok
  · rw [family?_hold, if_pos (show m.name = (g.drop m.tags).name from (h hg).named.symm)] at hf
    obtain rfl := Option.some.inj hf
    exact OrderedMap.get?_erase_self
  · cases hok
  · rw [family?_withSurface, family?_forget, if_pos rfl] at hf
    cases hf

/-- The series joins a family that has others, so the family stays when the series goes. -/
theorem Orderly.remove_hold_put (h : r.Orderly) (hf : r.family? m.name = some f)
    (hv : f.series.get? (f.resolve m.tags) = none) :
    (r.hold (f.put m.tags v)).remove m = (r, .ok none) := by
  have hheld : (r.hold (f.put m.tags v)).family? m.name = some (f.put m.tags v) :=
    family?_hold.trans (if_pos ((h hf).put m.tags v).named.symm)
  have hput : (f.put m.tags v).series.get? (f.resolve m.tags) = some v :=
    OrderedMap.get?_insert_self
  have hhold : (r.hold (f.put m.tags v)).hold f = r :=
    (hold_hold (show (f.put m.tags v).name = f.name from rfl)).trans (h.hold_of_family? hf)
  simp [remove, hheld, hput, GaugeFamily.drop_put hv, (h hf).inhabited, hhold]

/-- The last series goes, and its family with it. -/
theorem remove_last {s : Surface} (hf : r.family? m.name = some f)
    (hv : f.series.get? (f.resolve m.tags) = some v) (he : (f.drop m.tags).series.isEmpty)
    (hs : r.surface.unregister f.collector = some s) :
    r.remove m = ((r.forget m.name).withSurface s, .ok (some (.unregistered m.name))) := by
  simp only [remove, hf, hv, he, hs, Option.isNone_some, Bool.false_eq_true, ↓reduceIte]
  rfl

/-- The series begins a family, and the family goes with it. -/
theorem remove_begun {s : Surface} (hf : r.family? m.name = none)
    (hs : r.surface.register (r.familyFor m).collector = .ok s) :
    ((r.grown s).hold ((r.familyFor m).put m.tags v)).remove m
      = ({ r with created := r.created + 1 }, .ok (some (.unregistered m.name))) := by
  have hdrop : ((r.familyFor m).put m.tags v).drop m.tags = r.familyFor m :=
    GaugeFamily.drop_put OrderedMap.get?_empty
  have hsurface : s.unregister (r.familyFor m).collector = some r.surface :=
    Surface.unregister_of_register (List.mem_singleton_self m.name) hs
  have hfamilies : (r.families.insert m.name ((r.familyFor m).put m.tags v)).erase m.name
      = r.families := OrderedMap.erase_insert hf
  have hempty : (((r.familyFor m).put m.tags v).drop m.tags).series.isEmpty = true := by
    rw [hdrop]
    rfl
  rw [remove_last (r := (r.grown s).hold _) (family?_hold.trans (if_pos rfl))
    OrderedMap.get?_insert_self hempty hsurface]
  simp only [forget, withSurface, hold, grown]
  exact congrArg (fun families => (Registry.mk families r.surface (r.created + 1), _)) hfamilies

/-- An add can be taken back if it makes a series, and only then. -/
theorem Orderly.vacant_iff (h : r.Orderly) : r.Vacant m ↔ r.TakesBack m v := by
  obtain ⟨f, hf, heq⟩ | ⟨e, hf, he, heq⟩ | ⟨s, hf, hs, heq⟩ := add_cases r m v
  · constructor
    · intro hvacant
      cases hvacant with
      | free hnone => simp [hf] at hnone
      | missing hsome hkey =>
        obtain rfl := Option.some.inj (hf.symm.trans hsome)
        have hback := h.remove_hold_put (v := v) hf (not_mem_keys_iff.1 hkey)
        constructor <;> simp [heq, hback]
    · intro hback
      obtain ⟨l, hl⟩ := hback.removed
      refine .missing hf (not_mem_keys_iff.2 ((h.after (.add m v)).get?_remove hl ?_))
      exact (congrArg (·.get? m.name) hback.families).trans hf
  · refine iff_of_false (fun hvacant => ?_) fun hback => ?_
    · cases hvacant with
      | free _ hname hclaims =>
        have hok := (Surface.register_shell_eq_ok_iff (k := r.created)).2 ⟨hname, hclaims, rfl⟩
        exact absurd (he.symm.trans hok) nofun
      | missing hsome => simp [hf] at hsome
    · obtain ⟨l, hl⟩ := hback.added
      rw [heq] at hl
      cases hl
  · refine iff_of_true ?_ ?_
    · obtain ⟨hname, hclaims, -⟩ := Surface.register_shell_eq_ok_iff.1 hs
      exact .free hf hname hclaims
    · have hback := remove_begun (v := v) hf hs
      constructor <;> simp [heq, hback]

/-- After an add that succeeded, another one to the same series leaves what it would have left
alone. -/
theorem Orderly.add_add (h : r.Orderly) (hok : (r.add m v).2 = .ok l) (hname : m'.name = m.name)
    (hf : (r.add m v).1.family? m.name = some f) (hresolve : f.resolve m'.tags = f.resolve m.tags) :
    (r.add m v).1.add m' w = ((r.add m w).1, .ok none) ∧ (r.add m w).2 = .ok l := by
  have hheld : ∀ {r : Registry} {g : GaugeFamily}, g.name = m.name →
      (r.hold (g.put m.tags v)).family? m.name = some f →
      (r.hold (g.put m.tags v)).add m' w = (r.hold (g.put m.tags w), .ok none) := by
    intro r g hg hf
    have hsome : (r.hold (g.put m.tags v)).family? m.name = some (g.put m.tags v) :=
      family?_hold.trans (if_pos hg.symm)
    obtain rfl := Option.some.inj (hsome.symm.trans hf)
    have hput : (g.put m.tags v).put m'.tags w = g.put m.tags w := GaugeFamily.put_put hresolve
    have hhold : (r.hold (g.put m.tags v)).hold (g.put m.tags w) = r.hold (g.put m.tags w) :=
      hold_hold rfl
    simp only [add, hname, hsome, hput, hhold]
  obtain ⟨g, hg, heq⟩ | ⟨e, -, -, heq⟩ | ⟨s, hnone, hs, heq⟩ := add_cases r m v <;>
    rw [heq] at hok hf ⊢
  · have hother : r.add m w = (r.hold (g.put m.tags w), .ok none) := by simp only [add, hg]
    rw [hother]
    exact ⟨hheld (h hg).named hf, hok⟩
  · cases hok
  · have hother : r.add m w = ((r.grown s).hold ((r.familyFor m).put m.tags w),
        .ok (some (.registered m.name (sortTexts m.tags.keys)))) := by
      simp only [add, hnone, hs]
      rfl
    rw [hother]
    exact ⟨hheld rfl hf, hok⟩

/-- Whatever was called before, an add and a remove of one metric succeed and leave what there was
before if the add makes a series, and only then. Of two adds that succeed and mean one series, only
the second counts, and it tells nothing that the first one alone would not have told. -/
theorem run_takes_back (s : Surface) (calls : List Call) :
    let r := run { surface := s } calls
    (∀ m v, r.Vacant m ↔ r.TakesBack m v)
      ∧ ∀ m m' v w l f, (r.add m v).2 = .ok l → m'.name = m.name →
        (r.add m v).1.family? m.name = some f → f.resolve m'.tags = f.resolve m.tags →
        (r.add m v).1.add m' w = ((r.add m w).1, .ok none) ∧ (r.add m w).2 = .ok l := by
  intro r
  have ho : r.Orderly := (orderly_start s).run calls
  exact ⟨fun m v => ho.vacant_iff, fun m m' v w l f => ho.add_add⟩

/-- A family was taken off the surface and its name is taken there. A series joins it all the same
and is taken back, and two metrics mean this series. Another name is free and one is taken. -/
theorem run_takes_back_released :
    let calls : List Call := [.add ⟨"x", .ofList [("a", "1")]⟩ .zero, .unregister (.shell "x" 0),
      .register ⟨.ofForeign .gauge "x" "", id⟩]
    let r := run { surface := ⟨[.ofForeign .counter "up" ""]⟩ } calls
    let x : Metric := ⟨"x", .ofList [("c", "3")]⟩
    let v : Binary64 := .ofNat 1
    (r.Vacant x ∧ r.TakesBack x v) ∧ (r.Vacant ⟨"y", x.tags⟩ ∧ r.TakesBack ⟨"y", x.tags⟩ v)
      ∧ ¬ r.Vacant ⟨"up_total", x.tags⟩
      ∧ ((r.add x v).1.family? "x").map (fun f => (f.resolve x.tags, f.resolve ∅))
        = some ([""], [""])
      ∧ (r.add x v).1.add ⟨"x", ∅⟩ .zero = ((r.add x .zero).1, .ok none)
      ∧ (r.add x .zero).2 = .ok none := by
  intro calls r x v
  obtain ⟨hvacant, htwice⟩ := run_takes_back ⟨[.ofForeign .counter "up" ""]⟩ calls
  have hresolved : ((r.add x v).1.family? "x").map (fun f => (f.resolve x.tags, f.resolve ∅))
      = some ([""], [""]) := by decide +kernel
  have hadded : (r.add x v).2 = .ok none := by decide +kernel
  have hx : r.TakesBack x v :=
    ⟨⟨none, hadded⟩, ⟨none, by decide +kernel⟩, by decide +kernel, by decide +kernel⟩
  have hy : r.TakesBack ⟨"y", x.tags⟩ v :=
    ⟨⟨some (.registered "y" ["c"]), by decide +kernel⟩,
      ⟨some (.unregistered "y"), by decide +kernel⟩, by decide +kernel, by decide +kernel⟩
  have htaken : ¬ r.Vacant ⟨"up_total", x.tags⟩ := by
    intro hfree
    obtain ⟨l, hl⟩ := ((hvacant _ v).1 hfree).added
    have herror : (r.add ⟨"up_total", x.tags⟩ v).2
        = .error (.registration "up_total" (.duplicated ["up_total"])) := by decide +kernel
    rw [herror] at hl
    cases hl
  obtain ⟨f, hf, hvalues⟩ := Option.map_eq_some_iff.1 hresolved
  obtain ⟨hnamed, hbare⟩ := Prod.mk.inj hvalues
  exact ⟨⟨(hvacant x v).2 hx, hx⟩, ⟨(hvacant _ v).2 hy, hy⟩, htaken, hresolved,
    htwice x ⟨"x", ∅⟩ v .zero none f hadded rfl hf (hbare.trans hnamed.symm)⟩

end Registry

end GaugeConsole
