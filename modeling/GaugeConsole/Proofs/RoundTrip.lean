import GaugeConsole.Command.Written
import GaugeConsole.Proofs.Epochs
import GaugeConsole.Proofs.Failures
import GaugeConsole.Proofs.Reading

/-!
# What is set is what is got

A line that sets a series, in whatever way it is written, sets what later lines get, until another
one writes under the same name (`Console.get_of_set`). Of the tags only those count that the family
has as labels: a line gets the series if it agrees on them, and if it does not, the line that set the
series makes no difference to it.
-/

namespace GaugeConsole

open Grammar

theorem OrderedMap.get?_ofList_perm {κ ν : Type} [DecidableEq κ] {m : OrderedMap κ ν}
    {ps : List (κ × ν)} (h : ps.Perm m.entries) (k : κ) : (ofList ps).get? k = m.get? k := by
  rw [get?_ofList]
  cases hp : ps.reverse.find? (·.1 = k) with
  | none =>
    have hk : k ∉ m.entries.map Prod.fst := by
      intro hk
      obtain ⟨p, hp', rfl⟩ := List.mem_map.1 ((h.map Prod.fst).mem_iff.2 hk)
      have hnone := List.find?_eq_none.1 hp p (List.mem_reverse.2 hp')
      simp at hnone
    exact (Entries.get?_eq_none_iff.2 hk).symm
  | some p =>
    obtain rfl : p.1 = k := by simpa using List.find?_some hp
    have hmem : p ∈ m.entries := h.mem_iff.1 (List.mem_reverse.1 (List.mem_of_find?_eq_some hp))
    exact (mem_entries_iff.1 hmem).symm

namespace WrittenTag

theorem quoted_escape : ∀ s : List Char, Quoted (s.flatMap escape) s
  | [] => .nil
  | c :: s => by
    rw [List.flatMap_cons]
    by_cases hq : c = '"'
    · subst hq
      exact .quote (quoted_escape s)
    by_cases hb : c = '\\'
    · subst hb
      exact .backslash (quoted_escape s)
    · rw [escape, if_neg (by simp [hq, hb])]
      exact .plain hq hb (quoted_escape s)

variable {t : WrittenTag} {ts : List WrittenTag}

theorem pair_text (hk : Word t.tag.1) (hb : Blanks t.before ∧ Blanks t.behind) :
    Pair t.text t.tag := by
  have hne : t.tag.1.toList ≠ [] := by simpa using hk.2
  have hpair := Pair.parts hk.1 hne hb.1 hb.2 (quoted_escape t.tag.2.toList)
  rwa [String.ofList_toList, String.ofList_toList] at hpair

theorem pairs_texts :
    ∀ {ts : List WrittenTag}, ts ≠ [] → (∀ t ∈ ts, Word t.tag.1) →
      (∀ t ∈ ts, Blanks t.before ∧ Blanks t.behind) → Pairs (texts ts) (ts.map tag)
  | [], hne, _, _ => absurd rfl hne
  | [t], _, hk, hb => .one (pair_text (hk t List.mem_cons_self) (hb t List.mem_cons_self))
  | t :: t' :: ts, _, hk, hb =>
    .more (pair_text (hk t List.mem_cons_self) (hb t List.mem_cons_self))
      (pairs_texts (List.cons_ne_nil t' ts) (fun u hu => hk u (List.mem_cons_of_mem t hu))
        fun u hu => hb u (List.mem_cons_of_mem t hu))

end WrittenTag

/-- A metric's text says the metric, if not with its tags in the same order. -/
theorem Metric.Written.named {m : Metric} {s : List Char} (h : m.Written s) (hm : m.Lettered) :
    ∃ tags : Tags, Named s ⟨m.name, tags⟩ ∧ ∀ k, tags.get? k = m.tags.get? k := by
  have hne : m.name.toList ≠ [] := by simpa using hm.name.2
  have hnamed : ∀ {t : List Char} {tags : Tags}, Bracketed t tags →
      Named (m.name.toList ++ t) ⟨m.name, tags⟩ := fun ht => by
    have hparts := Named.parts hm.name.1 hne ht
    rwa [String.ofList_toList] at hparts
  cases h with
  | bare hempty =>
    have hbare := hnamed .missing
    rw [List.append_nil] at hbare
    refine ⟨_, hbare, fun k => ?_⟩
    rw [OrderedMap.get?_empty, OrderedMap.get?, hempty, Entries.get?]
  | @tagged ts hperm hblanks =>
    rw [List.append_assoc]
    by_cases hts : ts = []
    · subst hts
      refine ⟨_, hnamed .empty, fun k => ?_⟩
      rw [OrderedMap.get?_empty, OrderedMap.get?, List.perm_nil.1 hperm.symm, Entries.get?]
    · have hkeys : ∀ t ∈ ts, Word t.tag.1 := by
        intro t ht
        have htag : t.tag ∈ m.tags.entries := hperm.mem_iff.1 (List.mem_map_of_mem ht)
        exact hm.keys _ (List.mem_map_of_mem htag)
      exact ⟨_, hnamed (.pairs (WrittenTag.pairs_texts hts hkeys hblanks)),
        OrderedMap.get?_ofList_perm hperm⟩

/-- The name under which a command may change something. -/
def Command.target? : Command → Option String
  | .set m _ => some m.name
  | .del m => some m.name
  | .get _ | .help | .exit => none

namespace Console

variable {c : Console} {line n : String}

/-- What is held under a name is left alone by lines that do not write under it. -/
theorem family?_runLine (ho : c.registry.Orderly)
    (h : ∀ command, Command.read line = .ok (some command) → command.target? ≠ some n) :
    (c.runLine line).1.registry.family? n = c.registry.family? n := by
  rcases hread : Command.read line with e | _ | command
  · rw [runLine_of_error hread]
    rfl
  · rw [runLine_of_none hread]
  rw [runLine_of_some hread, registry_execute]
  have hne := h command hread
  cases command with
  | set m v => exact ho.family?_add_of_ne v fun heq => hne (congrArg some heq.symm)
  | del m => exact ho.family?_remove_of_ne fun heq => hne (congrArg some heq.symm)
  | get m => rfl
  | help => rfl
  | exit => rfl

theorem family?_doings :
    ∀ {lines : List String} {c : Console}, c.registry.Orderly →
      (∀ line ∈ lines, ∀ command, Command.read line = .ok (some command) →
        command.target? ≠ some n) →
      (c.doings (lines.map .line)).registry.family? n = c.registry.family? n
  | [], _, _, _ => rfl
  | line :: lines, c, ho, h => by
    have hnext : (c.runLine line).1.registry.Orderly := by
      rw [registry_runLine]
      exact ho.run _
    change ((c.runLine line).1.doings (lines.map .line)).registry.family? n = _
    rw [family?_doings hnext fun l hl => h l (List.mem_cons_of_mem line hl),
      family?_runLine ho (h line List.mem_cons_self)]

theorem runLine_get {m : Metric} {f : GaugeFamily} (hread : Command.read line = .ok (some (.get m)))
    (hf : c.registry.family? m.name = some f) :
    (c.runLine line).2.1 = .output (f.read m.tags).concise := by
  rw [runLine_of_some hread]
  have hget : ((c.recordCommand (Command.get m).word).registry).get m = .ok (f.read m.tags) := by
    change c.registry.get m = _
    rw [Registry.get, hf]
  simp only [execute, hget]

/-- A line that sets a series without failing writes into the family that is held, or a new one. -/
theorem family?_runLine_set (ho : c.registry.Orderly) {m : Metric} {v : Binary64}
    (hread : Command.read line = .ok (some (.set m v))) (hok : (c.runLine line).2.1.error? = none) :
    ∃ f, (c.runLine line).1.registry.family? m.name = some (f.put m.tags v)
      ∧ (c.registry.family? m.name = some f
        ∨ c.registry.family? m.name = none ∧ f = c.registry.familyFor m) := by
  rw [registry_runLine, Act.calls_line hread]
  rcases hstep : (c.registry.add m v).2 with e | l
  · have herror : (c.runLine line).2.1.error? = some e.message :=
      error?_runLine.2 (.inr ⟨_, e, hread, Registry.add_eq_error_iff.1 hstep, rfl⟩)
    rw [hok] at herror
    contradiction
  · exact ho.family?_add hstep

theorem read_set {m : Metric} (hm : m.Lettered) {g s a b t : List Char} (hs : m.Written s)
    (hg : Blanks g) (hne : g ≠ []) (ha : Blanks a) (hb : Blanks b) {l : Literal} (ht : Numeral t l) :
    ∃ tags : Tags, (∀ k, tags.get? k = m.tags.get? k)
      ∧ Command.read (String.ofList ("set".toList ++ g ++ s ++ a ++ '=' :: b ++ t))
        = .ok (some (.set ⟨m.name, tags⟩ l.value)) := by
  obtain ⟨tags, hnamed, htags⟩ := hs.named hm
  refine ⟨tags, htags, Command.read_eq_some_iff.2 ?_⟩
  rw [String.toList_ofList]
  exact .set hg hne hnamed ha hb ht

theorem read_get {m : Metric} (hm : m.Lettered) {g s : List Char} (hs : m.Written s)
    (hg : Blanks g) (hne : g ≠ []) :
    ∃ tags : Tags, (∀ k, tags.get? k = m.tags.get? k)
      ∧ Command.read (String.ofList ("get".toList ++ g ++ s))
        = .ok (some (.get ⟨m.name, tags⟩)) := by
  obtain ⟨tags, hnamed, htags⟩ := hs.named hm
  refine ⟨tags, htags, Command.read_eq_some_iff.2 ?_⟩
  rw [String.toList_ofList]
  exact .get hg hne hnamed

/-- After a line that sets a series, and others that do not write under its name, a line that gets a
metric of that name shows the value if the metric agrees with the series on the family's labels. If
it does not and the name was held before, the line shows what it would show without the first. -/
theorem get_of_set (surface : Surface) (self : Option SelfMetrics) (publisher : Publisher)
    (clock : Clock) (turns : List Turn) (m : Metric) (hm : m.Lettered) (g s a b t : List Char)
    (hs : m.Written s) (hg : Blanks g) (hne : g ≠ []) (ha : Blanks a) (hb : Blanks b) (l : Literal)
    (ht : Numeral t l) (lines : List String)
    (hlines : ∀ line ∈ lines, ∀ command, Command.read line = .ok (some command) →
      command.target? ≠ some m.name) :
    let c := (Scene.run ⟨⟨{ registry := { surface := surface }, self := self }, publisher, clock⟩,
      .idle⟩ turns).session.console
    let set := String.ofList ("set".toList ++ g ++ s ++ a ++ '=' :: b ++ t)
    (c.runLine set).2.1.error? = none →
      ∃ f, (c.runLine set).1.registry.family? m.name = some f
        ∧ ∀ (m' : Metric) (g' s' : List Char), m'.Lettered → m'.name = m.name → m'.Written s' →
          Blanks g' → g' ≠ [] →
          let get := String.ofList ("get".toList ++ g' ++ s')
          let shown := (((c.runLine set).1.doings (lines.map .line)).runLine get).2.1
          ((∀ k ∈ f.labelNames, (m'.tags.get? k).getD "" = (m.tags.get? k).getD "") →
            shown = .output l.value.concise)
          ∧ ((∃ k ∈ f.labelNames, (m'.tags.get? k).getD "" ≠ (m.tags.get? k).getD "") →
            (c.registry.family? m.name).isSome →
            ∃ text, shown = .output text
              ∧ ((c.doings (lines.map .line)).runLine get).2.1 = .output text) := by
  intro c set hok
  have ho : c.registry.Orderly := by
    rw [Scene.registry_run]
    exact (Registry.orderly_start surface).run _
  obtain ⟨tags, htags, hread⟩ := read_set hm hs hg hne ha hb ht
  obtain ⟨f, hf, hbefore⟩ := family?_runLine_set ho hread hok
  refine ⟨f.put tags l.value, hf, fun m' g' s' hm' hname hs' hg' hne' => ?_⟩
  intro get shown
  obtain ⟨tags', htags', hread'⟩ := read_get hm' hs' hg' hne'
  rw [hname] at hread'
  have hset : (c.runLine set).1.registry.Orderly := by
    rw [registry_runLine]
    exact ho.run _
  have hshown : shown = .output ((f.put tags l.value).read tags').concise :=
    runLine_get hread' ((family?_doings hset hlines).trans hf)
  have hagree : f.resolve tags' = f.resolve tags ↔
      ∀ k ∈ f.labelNames, (m'.tags.get? k).getD "" = (m.tags.get? k).getD "" := by
    rw [GaugeFamily.resolve_eq_iff]
    simp only [htags, htags']
  refine ⟨fun h => ?_, ?_⟩
  · rw [hshown, GaugeFamily.read_put, if_pos (hagree.2 h)]
  · rintro ⟨k, hk, hdiff⟩ hheld
    have hf' : c.registry.family? m.name = some f :=
      hbefore.resolve_right fun hnone => Option.isSome_iff_ne_none.1 hheld hnone.1
    have hne : f.resolve tags' ≠ f.resolve tags := fun heq => hdiff (hagree.1 heq k hk)
    refine ⟨(f.read tags').concise, ?_, ?_⟩
    · rw [hshown, GaugeFamily.read_put, if_neg hne]
    · exact runLine_get hread' ((family?_doings ho hlines).trans hf')

/-- A value with a quote and a backslash is set over another series and got after other lines. -/
theorem get_of_set_escaped :
    let turns : List Turn := [.act (.line "set x[a=\"0\"] = 1")]
    let m : Metric := ⟨"x", .ofList [("a", "\"\\")]⟩
    let lines := ["set y = 2", "del z", "get x", "what"]
    let c := (Scene.run ⟨⟨{ registry := { surface := {} }, self := none }, { interval := .zero },
      .steady .zero⟩, .idle⟩ turns).session.console
    let set := "set  x[a = \"\\\"\\\\\"] =5"
    m.Lettered
      ∧ (∀ line ∈ lines, ∀ command, Command.read line = .ok (some command) →
        command.target? ≠ some m.name)
      ∧ (c.runLine set).2.1.error? = none
      ∧ (((c.runLine set).1.doings (lines.map .line)).runLine "get x[a=\"\\\"\\\\\"]").2.1
        = .output "5" := by
  intro turns m lines c set
  have hletters : Letters "x".toList ∧ Letters "a".toList := by simp [Letters]
  have hm : m.Lettered := ⟨⟨hletters.1, by simp [m]⟩, fun k hk => by
    obtain rfl : k = "a" := by simpa using (show k ∈ ["a"] from hk)
    exact ⟨hletters.2, by simp⟩⟩
  have hlines : ∀ line ∈ lines, ∀ command, Command.read line = .ok (some command) →
      command.target? ≠ some m.name := by
    have htargets : ∀ line ∈ lines,
        (Command.read line).toOption.join.bind Command.target? ≠ some m.name := by
      decide +kernel
    intro line hl command hread
    have hne := htargets line hl
    rwa [hread] at hne
  have hok : (c.runLine set).2.1.error? = none := by decide +kernel
  have hblank : Blanks [' '] := by simp [Blanks]
  have hnone : Blanks [] := by simp [Blanks]
  have hs : m.Written (m.name.toList
      ++ '[' :: WrittenTag.texts [⟨("a", "\"\\"), [' '], [' ']⟩] ++ [']']) :=
    .tagged .rfl (by simp [hblank])
  have hs' : m.Written (m.name.toList
      ++ '[' :: WrittenTag.texts [⟨("a", "\"\\"), [], []⟩] ++ [']']) :=
    .tagged .rfl (by simp [hnone])
  have ht : Numeral ['5'] ⟨false, ['5'], [], 0⟩ :=
    .parts (s := []) (m := ['5']) (p := []) .none (.whole (by simp [Digits]) (by simp)) .none
  have hset := get_of_set {} none { interval := .zero } (.steady .zero) turns m hm
    [' ', ' '] _ [' '] [] ['5'] hs (by simp [Blanks]) (by simp) hblank hnone _ ht lines hlines
  have hsetText : String.ofList ("set".toList ++ [' ', ' ']
      ++ (m.name.toList ++ '[' :: WrittenTag.texts [⟨("a", "\"\\"), [' '], [' ']⟩] ++ [']'])
      ++ [' '] ++ '=' :: [] ++ ['5']) = set := by decide +kernel
  have hgetText : String.ofList ("get".toList ++ [' ']
      ++ (m.name.toList ++ '[' :: WrittenTag.texts [⟨("a", "\"\\"), [], []⟩] ++ [']']))
      = "get x[a=\"\\\"\\\\\"]" := by decide +kernel
  rw [hsetText] at hset
  obtain ⟨f, -, hget⟩ := hset hok
  have hshown := (hget m [' '] _ hm rfl hs' hblank (by simp)).1 fun _ _ => rfl
  rw [hgetText] at hshown
  refine ⟨hm, hlines, hok, ?_⟩
  rw [hshown]
  decide +kernel

end Console

end GaugeConsole
