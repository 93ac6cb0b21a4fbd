import GaugeConsole.Registry
import Mathlib.Data.List.Basic

/-!
# Calls

What can happen to a registry and its surface: the calls of the operator, and others who put
collectors of their own on the surface and take any collector off it. `Registry.run` makes calls
one after the other.

`Registry.add_cases` and `Registry.remove_cases` list all that a call can come to, the state that it
leaves and its result.
-/

namespace GaugeConsole

namespace Collector

def IsShell : Collector → Prop
  | shell _ _ => True
  | _ => False

end Collector

/-- A collector that no registry made. -/
abbrev Outsider := { c : Collector // ¬ c.IsShell }

inductive Call where
  | add (m : Metric) (value : Binary64)
  | get (m : Metric)
  | remove (m : Metric)
  /-- Somebody else puts a collector on the surface, if it can be registered. -/
  | register (c : Outsider)
  /-- Somebody else takes a collector off the surface, if it is there. -/
  | unregister (c : Collector)

namespace Surface

variable {s s' : Surface} {c : Collector}

theorem claims_iff {n : String} : s.claims n ↔ ∃ d ∈ s.collectors, n ∈ d.claims := by
  simp [claims]

theorem register_eq_ok_iff :
    s.register c = .ok s' ↔ c.claims.head? ≠ some "" ∧
      (∀ d ∈ s.collectors, ∀ n ∈ d.claims, n ∉ c.claims) ∧ s' = ⟨s.collectors ++ [c]⟩ := by
  have hfree : c.claims.filter s.claims = [] ↔
      ∀ d ∈ s.collectors, ∀ n ∈ d.claims, n ∉ c.claims := by
    rw [List.filter_eq_nil_iff]
    simp only [claims_iff, not_exists, not_and]
    exact ⟨fun h d hd n hn hc => h n hc d hd hn, fun h n hc d hd hn => h d hd n hn hc⟩
  rw [← hfree]
  simp only [register]
  split_ifs with h1 h2
  · simp [h1]
  · simp [h2]
  · rw [not_not] at h2
    simp [h1, h2, eq_comm]

/-- The surface without a collector. -/
def erase (s : Surface) (c : Collector) : Surface := ⟨s.collectors.erase c⟩

theorem erase_of_not_mem (h : c ∉ s.collectors) : s.erase c = s := by
  rw [erase, List.erase_of_not_mem h]

theorem unregister_of_mem (h : c ∈ s.collectors) : s.unregister c = some (s.erase c) := if_pos h

theorem unregister_of_not_mem (h : c ∉ s.collectors) : s.unregister c = none := if_neg h

end Surface

namespace Registry

variable {r : Registry} {m : Metric}

@[simp] theorem family?_hold {f : GaugeFamily} {n : String} :
    (r.hold f).family? n = if n = f.name then some f else r.family? n := OrderedMap.get?_insert

/-- The registry with another surface. -/
def withSurface (r : Registry) (s : Surface) : Registry := { r with surface := s }

@[simp] theorem family?_withSurface {s : Surface} {n : String} :
    (r.withSurface s).family? n = r.family? n := rfl

/-- The registry after one more family was put on its surface. -/
def grown (r : Registry) (s : Surface) : Registry :=
  { r with surface := s, created := r.created + 1 }

/-- The registry without the family of a name. -/
def forget (r : Registry) (n : String) : Registry := { r with families := r.families.erase n }

@[simp] theorem family?_forget {n k : String} :
    (r.forget k).family? n = if n = k then none else r.family? n := OrderedMap.get?_erase

section Families

variable {P : String → GaugeFamily → Prop} {n : String} {f g : GaugeFamily}

theorem forall_hold (h : ∀ ⦃n f⦄, r.family? n = some f → P n f) (hg : P g.name g)
    (hf : (r.hold g).family? n = some f) : P n f := by
  rw [family?_hold] at hf
  split_ifs at hf with hn
  · obtain rfl := Option.some.inj hf
    exact hn ▸ hg
  · exact h hf

theorem forall_forget {k : String} (h : ∀ ⦃n f⦄, r.family? n = some f → P n f)
    (hf : (r.forget k).family? n = some f) : P n f := by
  rw [family?_forget] at hf
  split_ifs at hf
  exact h hf

end Families

/-- An add to a family that is held sets a series. Otherwise it is refused by the surface and
changes nothing, or it begins a family with this one series. -/
theorem add_cases (r : Registry) (m : Metric) (v : Binary64) :
    (∃ f, r.family? m.name = some f ∧ r.add m v = (r.hold (f.put m.tags v), .ok none))
      ∨ (∃ e, r.family? m.name = none ∧ r.surface.register (r.familyFor m).collector = .error e
        ∧ r.add m v = (r, .error (.registration m.name e)))
      ∨ (∃ s, r.family? m.name = none ∧ r.surface.register (r.familyFor m).collector = .ok s
        ∧ r.add m v = ((r.grown s).hold ((r.familyFor m).put m.tags v),
          .ok (some (.registered m.name (sortTexts m.tags.keys))))) := by
  unfold add
  rcases hf : r.family? m.name with _ | f
  · rcases hs : r.surface.register (r.familyFor m).collector with e | s
    · exact .inr (.inl ⟨e, rfl, rfl, by simp only [hs]⟩)
    · exact .inr (.inr ⟨s, rfl, rfl, by simp only [hs]; rfl⟩)
  · exact .inl ⟨f, rfl, rfl⟩

/-- A remove under a name that is not held does nothing, and one of a series that is not there
fails and changes nothing. Otherwise it takes the series out, and if that was the last one, the
registry forgets the family, whether or not the surface had it. -/
theorem remove_cases (r : Registry) (m : Metric) :
    (r.family? m.name = none ∧ r.remove m = (r, .ok none))
      ∨ ∃ f, r.family? m.name = some f ∧
        ((f.series.get? (f.resolve m.tags) = none ∧ r.remove m = (r, .error (.seriesNotFound m)))
          ∨ (∃ v, f.series.get? (f.resolve m.tags) = some v ∧ (f.drop m.tags).series.isEmpty = false
            ∧ r.remove m = (r.hold (f.drop m.tags), .ok none))
          ∨ (∃ v, f.series.get? (f.resolve m.tags) = some v ∧ (f.drop m.tags).series.isEmpty
            ∧ r.surface.unregister f.collector = none
            ∧ r.remove m = (r.forget m.name, .error (.unregistration m.name)))
          ∨ (∃ v s, f.series.get? (f.resolve m.tags) = some v ∧ (f.drop m.tags).series.isEmpty
            ∧ r.surface.unregister f.collector = some s
            ∧ r.remove m = ((r.forget m.name).withSurface s,
              .ok (some (.unregistered m.name))))) := by
  unfold remove
  rcases hf : r.family? m.name with _ | f
  · exact .inl ⟨rfl, rfl⟩
  refine .inr ⟨f, rfl, ?_⟩
  simp only []
  rcases hv : f.series.get? (f.resolve m.tags) with _ | v
  · exact .inl ⟨rfl, rfl⟩
  simp only [Option.isNone_some, Bool.false_eq_true, ↓reduceIte]
  rcases he : (f.drop m.tags).series.isEmpty with _ | _
  · exact .inr (.inl ⟨v, rfl, rfl, rfl⟩)
  rcases hs : r.surface.unregister f.collector with _ | s
  · exact .inr (.inr (.inl ⟨v, rfl, rfl, rfl, rfl⟩))
  · exact .inr (.inr (.inr ⟨v, s, rfl, rfl, rfl, rfl⟩))

/-- The registry after a call. -/
def after (r : Registry) : Call → Registry
  | .add m value => (r.add m value).1
  | .get _ => r
  | .remove m => (r.remove m).1
  | .register c => r.withSurface ((r.surface.register c).toOption.getD r.surface)
  | .unregister c => r.withSurface ((r.surface.unregister c).getD r.surface)

/-- The registry after calls, the first of them first. -/
def run (r : Registry) (calls : List Call) : Registry := calls.foldl after r

@[simp] theorem run_nil : r.run [] = r := rfl

@[simp] theorem run_cons {c : Call} {cs : List Call} : r.run (c :: cs) = (r.after c).run cs := rfl

@[simp] theorem run_append {as bs : List Call} : r.run (as ++ bs) = (r.run as).run bs :=
  List.foldl_append

/-- What each call keeps, a run keeps. -/
theorem run_invariant {P : Registry → Prop} {calls : List Call} (h : P r)
    (hafter : ∀ c ∈ calls, ∀ r : Registry, P r → P (r.after c)) : P (r.run calls) :=
  List.foldlRecOn calls after h fun r hr c hc => hafter c hc r hr

end Registry

end GaugeConsole
