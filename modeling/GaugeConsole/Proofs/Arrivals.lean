import GaugeConsole.Proofs.Epochs

/-!
# In the order of arrival

Families stand in the order in which their names were last taken up, and the series of a family in
the order in which they were last set without being there (`Registry.dated_families`,
`Registry.dated_series`). A call leaves what is there in its order and puts no more than one thing
behind it. To set a value that is there, moves nothing.
-/

namespace GaugeConsole

/-- Things were taken out, or a new one was put behind the others. -/
def Shifts {α : Type} (before after : List α) : Prop :=
  after.Sublist before ∨ ∃ a ∉ before, after = before ++ [a]

theorem Shifts.refl {α : Type} (as : List α) : Shifts as as := .inl (.refl as)

namespace OrderedMap

variable {κ ν : Type} [DecidableEq κ] {m : OrderedMap κ ν} {k : κ} {v : ν}

theorem shifts_insert : Shifts m.keys (m.insert k v).keys := by
  rcases keys_insert (m := m) (k := k) (v := v) with heq | ⟨hk, heq⟩
  · rw [heq]
    exact .refl _
  · exact .inr ⟨k, hk, heq⟩

theorem shifts_erase : Shifts m.keys (m.erase k).keys := .inl keys_erase

end OrderedMap

namespace Registry

variable {κ : Type} {keys : Registry → List κ} {r r' : Registry} {calls : List Call} {c : Call}
  {P : Registry → Prop} {i : ℕ} {n : String}

/-- From one call on something is so all along, and before that call it is not. The index is that of
the call. -/
def Since (r : Registry) (calls : List Call) (P : Registry → Prop) (i : ℕ) : Prop :=
  i < calls.length ∧ ¬ P (r.run (calls.take i))
    ∧ ∀ j, i < j → j ≤ calls.length → P (r.run (calls.take j))

theorem Since.concat (h : r.Since calls P i) (hp : P (r.run (calls ++ [c]))) :
    r.Since (calls ++ [c]) P i := by
  obtain ⟨hi, hbefore, hafter⟩ := h
  refine ⟨?_, ?_, fun j hij hj => ?_⟩
  · rw [List.length_append]
    omega
  · rwa [List.take_append_of_le_length hi.le]
  · by_cases hlast : j ≤ calls.length
    · rw [List.take_append_of_le_length hlast]
      exact hafter j hij hlast
    · rwa [List.take_of_length_le (by rw [List.length_append, List.length_singleton]; omega)]

theorem since_concat (hbefore : ¬ P (r.run calls)) (hp : P (r.run (calls ++ [c]))) :
    r.Since (calls ++ [c]) P calls.length := by
  refine ⟨by simp, by rwa [List.take_left], fun j hij hj => ?_⟩
  rwa [List.take_of_length_le (by rw [List.length_append, List.length_singleton]; omega)]

/-- One key is there for longer than another. -/
def Older (r : Registry) (calls : List Call) (keys : Registry → List κ) (a b : κ) : Prop :=
  ∃ i j, i < j ∧ r.Since calls (a ∈ keys ·) i ∧ r.Since calls (b ∈ keys ·) j

/-- Keys are there since certain calls, and those that are there for longer come first. -/
structure Dated (r : Registry) (calls : List Call) (keys : Registry → List κ) : Prop where
  since : ∀ a ∈ keys (r.run calls), ∃ i, r.Since calls (a ∈ keys ·) i
  ordered : (keys (r.run calls)).Pairwise (r.Older calls keys)

/-- Keys that are there after one more call are there since the same calls as before. -/
theorem Dated.keep (h : r.Dated calls keys) {as : List κ} (hsub : as.Sublist (keys (r.run calls)))
    (hmem : ∀ a ∈ as, a ∈ keys (r.run (calls ++ [c]))) :
    (∀ a ∈ as, ∃ i < calls.length, r.Since (calls ++ [c]) (a ∈ keys ·) i)
      ∧ as.Pairwise (r.Older (calls ++ [c]) keys) := by
  refine ⟨fun a ha => ?_, (h.ordered.sublist hsub).imp_of_mem ?_⟩
  · obtain ⟨i, hi⟩ := h.since a (hsub.subset ha)
    exact ⟨i, hi.1, hi.concat (hmem a ha)⟩
  · rintro a b ha hb ⟨i, j, hij, hi, hj⟩
    exact ⟨i, j, hij, hi.concat (hmem a ha), hj.concat (hmem b hb)⟩

theorem Dated.concat (h : r.Dated calls keys)
    (hc : Shifts (keys (r.run calls)) (keys (r.run (calls ++ [c])))) :
    r.Dated (calls ++ [c]) keys := by
  rcases hc with hsub | ⟨a, hnew, heq⟩
  · obtain ⟨hsince, hordered⟩ := h.keep hsub fun _ => id
    refine ⟨fun b hb => ?_, hordered⟩
    obtain ⟨i, -, hi⟩ := hsince b hb
    exact ⟨i, hi⟩
  · have hmem : ∀ b, b ∈ keys (r.run (calls ++ [c])) ↔ b ∈ keys (r.run calls) ∨ b = a := by
      intro b
      rw [heq, List.mem_append, List.mem_singleton]
    obtain ⟨hsince, hordered⟩ := h.keep (.refl _) fun b hb => (hmem b).2 (.inl hb)
    have hlast : r.Since (calls ++ [c]) (a ∈ keys ·) calls.length :=
      since_concat hnew ((hmem a).2 (.inr rfl))
    refine ⟨fun b hb => ?_, ?_⟩
    · obtain hb | rfl := (hmem b).1 hb
      · obtain ⟨i, -, hi⟩ := hsince b hb
        exact ⟨i, hi⟩
      · exact ⟨_, hlast⟩
    · rw [heq]
      refine List.pairwise_append.2 ⟨hordered, List.pairwise_singleton _ _, fun b hb d hd => ?_⟩
      rw [List.mem_singleton] at hd
      subst hd
      obtain ⟨i, hlt, hi⟩ := hsince b hb
      exact ⟨i, _, hlt, hi, hlast⟩

theorem dated_run (hstart : keys r = [])
    (h : ∀ calls c, Shifts (keys (r.run calls)) (keys ((r.run calls).after c)))
    (calls : List Call) : r.Dated calls keys := by
  induction calls using List.reverseRecOn with
  | nil => exact ⟨by simp [hstart], by simp [hstart]⟩
  | append_singleton cs c ih =>
    refine ih.concat ?_
    rw [run_append]
    exact h cs c

theorem Change.shifts_families (hc : Change r c r') :
    Shifts r.families.keys r'.families.keys := by
  cases hc with
  | hold _ _ _ => exact OrderedMap.shifts_insert
  | begin _ _ => exact OrderedMap.shifts_insert
  | forget _ => exact OrderedMap.shifts_erase
  | _ => exact .refl _

/-- The label values of the series that are held under a name. -/
def seriesOf (r : Registry) (n : String) : List (List String) :=
  ((r.family? n).map (·.series.keys)).getD []

theorem seriesOf_some {f : GaugeFamily} (hf : r.family? n = some f) :
    r.seriesOf n = f.series.keys := by
  rw [seriesOf, hf]
  rfl

theorem seriesOf_none (hf : r.family? n = none) : r.seriesOf n = [] := by
  rw [seriesOf, hf]
  rfl

theorem seriesOf_congr (hf : r'.family? n = r.family? n) : r'.seriesOf n = r.seriesOf n := by
  rw [seriesOf, hf, seriesOf]

theorem Orderly.shifts_series_add (ho : r.Orderly) (m : Metric) (v : Binary64) :
    Shifts (r.seriesOf m.name) ((r.add m v).1.seriesOf m.name) := by
  obtain ⟨f, hf, heq⟩ | ⟨e, -, -, heq⟩ | ⟨s, hf, -, heq⟩ := add_cases r m v <;> rw [heq]
  · have hput : (r.hold (f.put m.tags v)).family? m.name = some (f.put m.tags v) :=
      family?_hold.trans (if_pos ((ho hf).put m.tags v).named.symm)
    rw [seriesOf_some hf, seriesOf_some hput]
    exact OrderedMap.shifts_insert
  · exact .refl _
  · have hbegin : ((r.grown s).hold ((r.familyFor m).put m.tags v)).family? m.name
        = some ((r.familyFor m).put m.tags v) := family?_hold.trans (if_pos rfl)
    rw [seriesOf_none hf, seriesOf_some hbegin]
    exact OrderedMap.shifts_insert

theorem Orderly.shifts_series_remove (ho : r.Orderly) (m : Metric) :
    Shifts (r.seriesOf m.name) ((r.remove m).1.seriesOf m.name) := by
  obtain ⟨-, heq⟩ | ⟨f, hf, hcases⟩ := remove_cases r m
  · rw [heq]
    exact .refl _
  have hforget : (r.forget m.name).seriesOf m.name = [] := seriesOf_none (by simp)
  have hempty : Shifts (r.seriesOf m.name) [] := .inl (List.nil_sublist _)
  obtain ⟨-, heq⟩ | ⟨v, -, he, heq⟩ | ⟨v, -, -, -, heq⟩ | ⟨v, s, -, -, -, heq⟩ := hcases <;>
    rw [heq]
  · exact .refl _
  · have hdrop : (r.hold (f.drop m.tags)).family? m.name = some (f.drop m.tags) :=
      family?_hold.trans (if_pos ((ho hf).drop he).named.symm)
    rw [seriesOf_some hf, seriesOf_some hdrop]
    exact OrderedMap.shifts_erase
  · exact hforget ▸ hempty
  · exact hforget ▸ hempty

theorem Orderly.shifts_series (ho : r.Orderly) (n : String) :
    ∀ c : Call, Shifts (r.seriesOf n) ((r.after c).seriesOf n)
  | .add m v => by
    by_cases hn : n = m.name
    · exact hn ▸ ho.shifts_series_add m v
    · exact seriesOf_congr (ho.family?_add_of_ne v hn) ▸ .refl _
  | .remove m => by
    by_cases hn : n = m.name
    · exact hn ▸ ho.shifts_series_remove m
    · exact seriesOf_congr (ho.family?_remove_of_ne hn) ▸ .refl _
  | .get _ | .register _ | .unregister _ => .refl _

variable (s : Surface) (calls : List Call)

theorem dated_families : Dated { surface := s } calls (·.families.keys) := by
  refine dated_run rfl (fun cs c => ?_) calls
  exact (((orderly_start s).run cs).change c).shifts_families

theorem dated_series (n : String) : Dated { surface := s } calls (·.seriesOf n) := by
  refine dated_run rfl (fun cs c => ?_) calls
  exact ((orderly_start s).run cs).shifts_series n c

end Registry

end GaugeConsole
