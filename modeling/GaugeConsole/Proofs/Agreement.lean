import GaugeConsole.Proofs.Calls
import Mathlib.Data.List.Induction
import Mathlib.Data.List.Nodup
import Mathlib.Data.String.Basic

/-!
# The registry and its surface agree

After any calls, a gauge family on the surface is the one that the registry holds under its name
(`Registry.Agrees`). The other way round it need not be so, but a family that is held and not on
the surface was taken off it by somebody else (`Registry.run_agrees`).

A call changes the registry and the surface one after the other and can stop in between. It only
does so when the surface would not let go of a family that it did not have.
-/

namespace GaugeConsole

/-- Sorted by different keys, the keys go up. -/
theorem pairwise_mergeSort_lt {α : Type} (key : α → String) {as : List α}
    (h : (as.map key).Nodup) :
    (as.mergeSort fun a b => decide (key a ≤ key b)).Pairwise fun a b => key a < key b := by
  have hsorted : (as.mergeSort fun a b => decide (key a ≤ key b)).Pairwise
      fun a b => decide (key a ≤ key b) = true :=
    List.pairwise_mergeSort (fun a b c => by simpa using le_trans)
      (fun a b => by simpa using le_total (key a) (key b)) as
  have hnodup : ((as.mergeSort fun a b => decide (key a ≤ key b)).map key).Nodup :=
    ((List.mergeSort_perm _ _).map key).nodup_iff.2 h
  exact hsorted.imp₂ (fun _ _ hle hne => lt_of_le_of_ne (by simpa using hle) hne)
    (List.pairwise_map.1 hnodup)

theorem sortTexts_pairwise {texts : List String} (h : texts.Nodup) :
    (sortTexts texts).Pairwise (· < ·) :=
  pairwise_mergeSort_lt id (by simpa using h)

/-- Sorted, the same texts stand in the same order. -/
theorem sortTexts_congr {as bs : List String} (ha : as.Nodup) (hb : bs.Nodup)
    (h : ∀ t, t ∈ as ↔ t ∈ bs) : sortTexts as = sortTexts bs := by
  have hperm : (sortTexts as).Perm (sortTexts bs) :=
    (List.mergeSort_perm _ _).trans
      (((List.perm_ext_iff_of_nodup ha hb).2 h).trans (List.mergeSort_perm _ _).symm)
  exact hperm.eq_of_pairwise (fun _ _ _ _ hlt hgt => absurd hlt hgt.asymm) (sortTexts_pairwise ha)
    (sortTexts_pairwise hb)

namespace GaugeFamily

variable {f : GaugeFamily} {n : String}

/-- What a family is like that is held under a name. -/
structure Proper (f : GaugeFamily) (n : String) : Prop where
  named : f.name = n
  sorted : f.labelNames.Pairwise (· < ·)
  inhabited : f.series.isEmpty = false
  full : ∀ t ∈ f.series.keys, t.length = f.labelNames.length

theorem resolve_length (tags : Tags) : (f.resolve tags).length = f.labelNames.length := by
  simp [resolve]

theorem resolve_eq_iff {tags tags' : Tags} :
    f.resolve tags = f.resolve tags'
      ↔ ∀ k ∈ f.labelNames, (tags.get? k).getD "" = (tags'.get? k).getD "" :=
  List.map_inj_left

@[simp] theorem resolve_put {tags tags' : Tags} {v : Binary64} :
    (f.put tags v).resolve tags' = f.resolve tags' := rfl

theorem read_put {tags tags' : Tags} {v : Binary64} :
    (f.put tags v).read tags' = if f.resolve tags' = f.resolve tags then v else f.read tags' := by
  simp only [read, resolve_put]
  simp only [put, OrderedMap.get?_insert]
  split_ifs <;> rfl

theorem proper_put {tags : Tags} {v : Binary64} (hn : f.name = n)
    (hs : f.labelNames.Pairwise (· < ·))
    (hk : ∀ t ∈ f.series.keys, t.length = f.labelNames.length) : (f.put tags v).Proper n where
  named := hn
  sorted := hs
  inhabited := by
    refine Bool.eq_false_iff.2 fun he => ?_
    have := OrderedMap.isEmpty_iff.1 he (f.resolve tags)
    simp [put] at this
  full := by
    intro t ht
    rcases Entries.mem_keys_insert.1 ht with rfl | ht
    · exact resolve_length tags
    · exact hk t ht

theorem Proper.put (h : f.Proper n) (tags : Tags) (v : Binary64) : (f.put tags v).Proper n :=
  proper_put h.named h.sorted h.full

theorem Proper.drop (h : f.Proper n) {tags : Tags}
    (he : (f.drop tags).series.isEmpty = false) : (f.drop tags).Proper n where
  named := h.named
  sorted := h.sorted
  inhabited := he
  full := fun t ht => h.full t (Entries.mem_keys_erase ht)

end GaugeFamily

namespace Surface

/-- No two collectors claim a common name. -/
def Apart (s : Surface) : Prop :=
  s.collectors.Pairwise fun c d => ∀ n ∈ c.claims, n ∉ d.claims

variable {s s' : Surface} {c : Collector}

theorem Apart.register (h : s.Apart) (hs : s.register c = .ok s') : s'.Apart := by
  obtain ⟨-, hfree, rfl⟩ := register_eq_ok_iff.1 hs
  refine List.pairwise_append.2 ⟨h, by simp, ?_⟩
  intro d hd e he n hn
  rw [List.mem_singleton] at he
  subst he
  exact hfree d hd n hn

theorem Apart.erase (h : s.Apart) : (s.erase c).Apart := h.sublist List.erase_sublist

/-- A gauge family is registered only once. -/
theorem Apart.count_shell {n : String} {e : ℕ} (h : s.Apart)
    (hc : .shell n e ∈ s.collectors) : s.collectors.count (.shell n e) = 1 := by
  refine le_antisymm ?_ (List.count_pos_iff.2 hc)
  by_contra hlt
  have htwo : [Collector.shell n e, .shell n e].Sublist s.collectors :=
    List.replicate_sublist_iff.2 (by omega : 2 ≤ s.collectors.count (.shell n e))
  have hpair := h.sublist htwo
  simp [Collector.claims] at hpair

theorem Apart.not_mem_erase {n : String} {e : ℕ} (h : s.Apart) :
    .shell n e ∉ (s.erase (.shell n e)).collectors := by
  intro hmem
  have hc : .shell n e ∈ s.collectors := List.mem_of_mem_erase hmem
  have hpos := List.count_pos_iff.2 hmem
  rw [Surface.erase, List.count_erase_self, h.count_shell hc] at hpos
  exact absurd hpos (lt_irrefl 0)

end Surface

namespace Registry

variable {r r' : Registry} {call : Call}

/-- Families are held under their own names and are as they should be. -/
def Orderly (r : Registry) : Prop := ∀ ⦃n f⦄, r.family? n = some f → f.Proper n

/-- What a call can do to a registry and its surface. -/
inductive Change (r : Registry) : Call → Registry → Prop
  | rest {call : Call} : Change r call r
  | hold {call : Call} {n : String} {f g : GaugeFamily} : r.family? n = some f → g.Proper n →
      g.collector = f.collector → Change r call (r.hold g)
  | begin {m : Metric} {v : Binary64} {s : Surface} : r.family? m.name = none →
      r.surface.register (r.familyFor m).collector = .ok s →
      Change r (.add m v) ((r.grown s).hold ((r.familyFor m).put m.tags v))
  | forget {m : Metric} {f : GaugeFamily} : r.family? m.name = some f →
      Change r (.remove m) ((r.forget m.name).withSurface (r.surface.erase f.collector))
  | register {c : Outsider} {s : Surface} : r.surface.register c = .ok s →
      Change r (.register c) (r.withSurface s)
  | unregister {c : Collector} : c ∈ r.surface.collectors →
      Change r (.unregister c) (r.withSurface (r.surface.erase c))

theorem Orderly.change (h : r.Orderly) (call : Call) : Change r call (r.after call) := by
  cases call with
  | add m v =>
    simp only [Registry.after]
    obtain ⟨f, hf, heq⟩ | ⟨e, -, -, heq⟩ | ⟨s, hf, hs, heq⟩ := add_cases r m v <;> rw [heq]
    · exact .hold hf ((h hf).put m.tags v) rfl
    · exact .rest
    · exact .begin hf hs
  | get m => exact .rest
  | remove m =>
    simp only [Registry.after]
    obtain ⟨-, heq⟩ | ⟨f, hf, hcases⟩ := remove_cases r m
    · rw [heq]
      exact .rest
    obtain ⟨-, heq⟩ | ⟨v, -, he, heq⟩ | ⟨v, -, -, hs, heq⟩ | ⟨v, s, -, -, hs, heq⟩ := hcases <;>
      rw [heq]
    · exact .rest
    · exact .hold hf ((h hf).drop he) rfl
    · have hc : f.collector ∉ r.surface.collectors := fun hc => by
        rw [Surface.unregister_of_mem hc] at hs
        contradiction
      have hforget := Change.forget hf
      rwa [Surface.erase_of_not_mem hc] at hforget
    · by_cases hc : f.collector ∈ r.surface.collectors
      · rw [Surface.unregister_of_mem hc] at hs
        obtain rfl := Option.some.inj hs
        exact .forget hf
      · rw [Surface.unregister_of_not_mem hc] at hs
        contradiction
  | register c =>
    simp only [Registry.after]
    rcases hs : r.surface.register c with e | s
    · exact .rest
    · exact .register hs
  | unregister c =>
    simp only [Registry.after]
    by_cases hc : c ∈ r.surface.collectors
    · rw [Surface.unregister_of_mem hc]
      exact .unregister hc
    · rw [Surface.unregister_of_not_mem hc]
      exact .rest

theorem proper_familyFor (r : Registry) (m : Metric) (v : Binary64) :
    ((r.familyFor m).put m.tags v).Proper m.name :=
  GaugeFamily.proper_put rfl (sortTexts_pairwise m.tags.nodup)
    fun _ ht => absurd ht List.not_mem_nil

theorem Orderly.hold (h : r.Orderly) {n : String} {g : GaugeFamily} (hg : g.Proper n) :
    (r.hold g).Orderly := fun _ _ => forall_hold h (by rwa [hg.named])

theorem Orderly.hold_of_family? (h : r.Orderly) {n : String} {f : GaugeFamily}
    (hf : r.family? n = some f) : r.hold f = r := by
  have hfamilies : r.families.get? f.name = some f := (h hf).named ▸ hf
  rw [Registry.hold, OrderedMap.insert_of_get? hfamilies]

/-- An add that does not fail sets a series of the family that is held, or of a new one. -/
theorem Orderly.family?_add (h : r.Orderly) {m : Metric} {v : Binary64} {l : Option Lifetime}
    (hok : (r.add m v).2 = .ok l) :
    ∃ f, (r.add m v).1.family? m.name = some (f.put m.tags v)
      ∧ (r.family? m.name = some f ∨ r.family? m.name = none ∧ f = r.familyFor m) := by
  obtain ⟨f, hf, heq⟩ | ⟨e, -, -, heq⟩ | ⟨s, hf, -, heq⟩ := add_cases r m v <;> rw [heq] at hok ⊢
  · exact ⟨f, family?_hold.trans (if_pos ((h hf).put m.tags v).named.symm), .inl hf⟩
  · cases hok
  · exact ⟨_, family?_hold.trans (if_pos rfl), .inr ⟨hf, rfl⟩⟩

/-- A collector that no registry made came onto the surface by itself. -/
theorem Change.outsider (hc : Change r call r') (hcall : ∀ c, call ≠ .register c) {c : Collector}
    (hmem : c ∈ r'.surface.collectors) (hshell : ¬ c.IsShell) : c ∈ r.surface.collectors := by
  cases hc with
  | rest => exact hmem
  | hold _ _ _ => exact hmem
  | begin hf hs =>
    obtain ⟨-, -, rfl⟩ := Surface.register_eq_ok_iff.1 hs
    rcases List.mem_append.1 hmem with hmem | hmem
    · exact hmem
    · rw [List.mem_singleton.1 hmem] at hshell
      exact absurd trivial hshell
  | forget _ => exact List.mem_of_mem_erase hmem
  | register hs => exact absurd rfl (hcall _)
  | unregister _ => exact List.mem_of_mem_erase hmem

theorem Change.orderly (hc : Change r call r') (h : r.Orderly) : r'.Orderly := by
  cases hc with
  | hold hf hg _ => exact h.hold hg
  | @begin m v s hf hs => exact Orderly.hold (r := r.grown s) h (proper_familyFor r m v)
  | forget hf => exact fun _ _ => forall_forget h
  | _ => exact h

theorem orderly_start (s : Surface) : ({ surface := s } : Registry).Orderly := by
  intro n f hf
  cases hf

theorem Orderly.after (h : r.Orderly) (call : Call) : (r.after call).Orderly :=
  (h.change call).orderly h

theorem Orderly.run (calls : List Call) (h : r.Orderly) : (r.run calls).Orderly :=
  run_invariant h fun c _ _ hr => hr.after c

/-- Two families that are held under different names have different collectors. -/
theorem Orderly.collector_ne (h : r.Orderly) {n k : String} {f g : GaugeFamily}
    (hf : r.family? n = some f) (hg : r.family? k = some g) (hne : n ≠ k) :
    f.collector ≠ g.collector := by
  intro heq
  simp only [GaugeFamily.collector, Collector.shell.injEq] at heq
  exact hne ((h hf).named ▸ (h hg).named ▸ heq.1)

/-- What the registry holds and what the surface shows belong together. -/
structure Agrees (r : Registry) : Prop where
  orderly : r.Orderly
  apart : r.surface.Apart
  /-- A gauge family on the surface is the one that is held under its name. -/
  held : ∀ c ∈ r.surface.collectors, c.IsShell → ∃ n f, r.family? n = some f ∧ c = f.collector
  /-- The next family will not be taken for one that is held. -/
  aged : ∀ ⦃n f⦄, r.family? n = some f → f.epoch < r.created

theorem Agrees.hold (h : r.Agrees) {n : String} {f g : GaugeFamily} (hf : r.family? n = some f)
    (hp : g.Proper n) (hc : g.collector = f.collector) : (r.hold g).Agrees := by
  obtain rfl := hp.named
  have he : g.epoch = f.epoch := by
    simp only [GaugeFamily.collector, Collector.shell.injEq] at hc
    exact hc.2
  refine { h with
    orderly := h.orderly.hold hp
    aged := fun _ _ => forall_hold h.aged (he ▸ h.aged hf)
    held := ?_ }
  intro c hcs hshell
  obtain ⟨k, f', hf', rfl⟩ := h.held c hcs hshell
  by_cases hk : k = g.name
  · rw [hk, hf, Option.some.injEq] at hf'
    subst hf'
    exact ⟨g.name, g, by simp, hc.symm⟩
  · exact ⟨k, f', by simp [hk, hf'], rfl⟩

theorem Agrees.begin (h : r.Agrees) {m : Metric} {v : Binary64} {s : Surface}
    (hf : r.family? m.name = none) (hs : r.surface.register (r.familyFor m).collector = .ok s) :
    ((r.grown s).hold ((r.familyFor m).put m.tags v)).Agrees := by
  have hnew := proper_familyFor r m v
  refine { orderly := ?_, apart := h.apart.register hs, held := ?_, aged := ?_ }
  · exact Orderly.hold (r := r.grown s) h.orderly hnew
  · intro c hc hshell
    obtain ⟨-, -, rfl⟩ := Surface.register_eq_ok_iff.1 hs
    rcases List.mem_append.1 hc with hc | hc
    · obtain ⟨k, f, hk, rfl⟩ := h.held c hc hshell
      have hne : k ≠ m.name := by
        rintro rfl
        rw [hf] at hk
        contradiction
      exact ⟨k, f, family?_hold.trans ((if_neg (hnew.named ▸ hne)).trans hk), rfl⟩
    · exact ⟨m.name, _, family?_hold.trans (if_pos hnew.named.symm), List.mem_singleton.1 hc⟩
  · exact fun _ _ => forall_hold (P := fun _ f => f.epoch < r.created + 1)
      (fun _ _ hk => Nat.lt_succ_of_lt (h.aged hk)) (Nat.lt_succ_self r.created)

/-- A family goes away, whether or not the surface has it. -/
theorem Agrees.forget (h : r.Agrees) {n : String} {f : GaugeFamily} (hf : r.family? n = some f) :
    ((r.forget n).withSurface (r.surface.erase f.collector)).Agrees := by
  refine {
    orderly := fun _ _ => forall_forget h.orderly
    apart := h.apart.erase
    held := ?_
    aged := fun _ _ => forall_forget h.aged }
  intro c hc hshell
  obtain ⟨k, g, hg, rfl⟩ := h.held c (List.mem_of_mem_erase hc) hshell
  have hne : k ≠ n := by
    rintro rfl
    rw [hf, Option.some.injEq] at hg
    subst hg
    exact h.apart.not_mem_erase hc
  exact ⟨k, g, family?_forget.trans ((if_neg hne).trans hg), rfl⟩

theorem Change.agrees (hc : Change r call r') (h : r.Agrees) : r'.Agrees := by
  cases hc with
  | rest => exact h
  | hold hf hg hfg => exact h.hold hf hg hfg
  | begin hf hs => exact h.begin hf hs
  | forget hf => exact h.forget hf
  | @register c s hs =>
    refine { h with apart := h.apart.register hs, held := ?_ }
    intro d hd hshell
    obtain ⟨-, -, rfl⟩ := Surface.register_eq_ok_iff.1 hs
    rcases List.mem_append.1 hd with hd | hd
    · exact h.held d hd hshell
    · rw [List.mem_singleton.1 hd] at hshell
      exact absurd hshell c.2
  | unregister hc =>
    exact { h with
      apart := h.apart.erase
      held := fun d hd => h.held d (List.mem_of_mem_erase hd) }

theorem Agrees.run (calls : List Call) (h : r.Agrees) : (r.run calls).Agrees :=
  run_invariant h fun c _ _ hr => (hr.orderly.change c).agrees hr

theorem Agrees.start {s : Surface} (hs : s.Apart) (hothers : ∀ c ∈ s.collectors, ¬ c.IsShell) :
    ({ surface := s } : Registry).Agrees := by
  refine ⟨orderly_start s, hs, fun c hc hshell => absurd hshell (hothers c hc), ?_⟩
  intro n f hf
  cases hf

section Release

/-- Every family that is held is on the surface, those with some collectors excepted. -/
def ShownBut (r : Registry) (P : Collector → Prop) : Prop :=
  ∀ ⦃n f⦄, r.family? n = some f → f.collector ∈ r.surface.collectors ∨ P f.collector

variable {P : Collector → Prop}

/-- After a call, the only new exception is a family that somebody else took off the surface. -/
theorem Change.shownBut (hc : Change r call r') (h : r.Orderly) (hs : r.ShownBut P) :
    r'.ShownBut fun c => P c ∨ call = .unregister c ∧ c ∈ r.surface.collectors := by
  intro n f hf
  rw [← or_assoc]
  cases hc with
  | rest => exact .inl (hs hf)
  | hold hf' hg hfg =>
    refine .inl (forall_hold hs ?_ hf)
    exact hfg ▸ hs hf'
  | begin hnone hreg =>
    obtain ⟨-, -, rfl⟩ := Surface.register_eq_ok_iff.1 hreg
    refine .inl (forall_hold (P := fun _ f => f.collector ∈ _ ∨ P f.collector) (fun _ _ hk => ?_)
      ?_ hf)
    · exact (hs hk).imp_left (List.mem_append_left _)
    · exact .inl (List.mem_append_right _ List.mem_cons_self)
  | forget hg =>
    rw [family?_withSurface, family?_forget] at hf
    split_ifs at hf with hn
    refine .inl ((hs hf).imp_left fun hc => ?_)
    exact (List.mem_erase_of_ne (h.collector_ne hf hg hn)).2 hc
  | register hreg =>
    obtain ⟨-, -, rfl⟩ := Surface.register_eq_ok_iff.1 hreg
    exact .inl ((hs hf).imp_left (List.mem_append_left _))
  | @unregister c hc =>
    by_cases hfc : f.collector = c
    · exact .inr ⟨by rw [hfc], hfc ▸ hc⟩
    · exact .inl ((hs hf).imp_left (List.mem_erase_of_ne hfc).2)

/-- In the course of calls somebody else took a collector off the surface. -/
def Released (r : Registry) (calls : List Call) (c : Collector) : Prop :=
  ∃ pre post, calls = pre ++ .unregister c :: post ∧ c ∈ (r.run pre).surface.collectors

theorem Orderly.shownBut_run (h : r.Orderly) (hs : ∀ n, r.family? n = none) (calls : List Call) :
    (r.run calls).ShownBut (r.Released calls) := by
  induction calls using List.reverseRecOn with
  | nil =>
    intro n f hf
    rw [run_nil, hs] at hf
    contradiction
  | append_singleton cs c ih =>
    intro n f hf
    have ho := h.run cs
    rw [run_append] at hf ⊢
    refine ((ho.change c).shownBut ho ih hf).imp_right ?_
    rintro (⟨pre, post, rfl, hc⟩ | ⟨rfl, hc⟩)
    · exact ⟨pre, post ++ [c], by simp, hc⟩
    · exact ⟨cs, [], rfl, hc⟩

end Release

/-- A registry that begins with a surface on which others have collectors agrees with it after any
calls. Each gauge family is on it once, and each that is held is on it unless somebody else took
it off. -/
theorem run_agrees (s : Surface) (hs : s.Apart) (hothers : ∀ c ∈ s.collectors, ¬ c.IsShell)
    (calls : List Call) :
    (run { surface := s } calls).Agrees
      ∧ (∀ c ∈ (run { surface := s } calls).surface.collectors, c.IsShell →
        (run { surface := s } calls).surface.collectors.count c = 1)
      ∧ ∀ n f, (run { surface := s } calls).family? n = some f →
        f.collector ∈ (run { surface := s } calls).surface.collectors
          ∨ Released { surface := s } calls f.collector := by
  have hstart : ({ surface := s } : Registry).Agrees := .start hs hothers
  refine ⟨hstart.run calls, fun c hc hshell => ?_, fun n f hf => ?_⟩
  · obtain ⟨n, f, -, rfl⟩ := (hstart.run calls).held c hc hshell
    exact (hstart.run calls).apart.count_shell hc
  · exact (orderly_start s).shownBut_run (fun _ => rfl) calls hf

/-- Somebody else takes a family off the surface and takes over its name. -/
theorem run_agrees_taken_over :
    let s : Surface := ⟨[.failing ["up"] "down"]⟩
    let calls : List Call := [.add ⟨"x", .empty⟩ .zero, .register ⟨.foreign ["x"] [], id⟩,
      .unregister (.shell "x" 0), .register ⟨.foreign ["x"] [], id⟩, .add ⟨"x", .empty⟩ .zero]
    s.Apart ∧ (∀ c ∈ s.collectors, ¬ c.IsShell)
      ∧ (run { surface := s } calls).surface = ⟨[.failing ["up"] "down", .foreign ["x"] []]⟩
      ∧ ((run { surface := s } calls).family? "x").map (·.collector) = some (.shell "x" 0)
      ∧ Released { surface := s } calls (.shell "x" 0) := by
  intro s calls
  have hs : s.Apart := List.pairwise_singleton _ _
  have hothers : ∀ c ∈ s.collectors, ¬ c.IsShell := by
    intro c hc
    rw [List.mem_singleton.1 hc]
    exact id
  have hsurface : (run { surface := s } calls).surface
      = ⟨[.failing ["up"] "down", .foreign ["x"] []]⟩ := by decide +kernel
  have hheld : ((run { surface := s } calls).family? "x").map (·.collector)
      = some (.shell "x" 0) := by decide +kernel
  refine ⟨hs, hothers, hsurface, hheld, ?_⟩
  obtain ⟨f, hf, hc⟩ := Option.map_eq_some_iff.1 hheld
  have hshown := (run_agrees s hs hothers calls).2.2 "x" f hf
  rw [hc, hsurface] at hshown
  exact hshown.resolve_left (by decide)

end Registry

end GaugeConsole
