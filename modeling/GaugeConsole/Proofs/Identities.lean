import GaugeConsole.Command.Written
import GaugeConsole.Proofs.Aliases
import GaugeConsole.Proofs.Reading
import Mathlib.Data.List.Infix

/-!
# What the printed identity tells

The printed identity of a metric does not depend on the order in which its tags were given. The
other way round, a name and keys of letters can be read off it, and so can the values as long as
none of them holds what looks like a further tag: a comma, letters and an equals sign
(`Metric.identity_unique`). A value is printed as it is, so other commas in it, equals signs and
brackets do no harm: where a value ends, there is a further tag or the last bracket.
-/

namespace GaugeConsole

open Grammar

/-- Somewhere in a text there are a comma, one or more letters behind it and then an equals sign. -/
def HoldsTag (s : List Char) : Prop :=
  ∃ a k b, s = a ++ ',' :: (k ++ '=' :: b) ∧ Letters k ∧ k ≠ []

theorem HoldsTag.append_left {s : List Char} (h : HoldsTag s) (a : List Char) :
    HoldsTag (a ++ s) := by
  obtain ⟨a', k, b, rfl, hk, hne⟩ := h
  exact ⟨a ++ a', k, b, by rw [List.append_assoc], hk, hne⟩

theorem holdsTag_iff {s : List Char} : HoldsTag s ↔ ∃ r ∈ s.tails, r.head? = some ','
    ∧ r.tail.takeWhile isLetter ≠ [] ∧ (r.tail.dropWhile isLetter).head? = some '=' := by
  constructor
  · rintro ⟨a, k, b, rfl, hk, hne⟩
    have hstop : Stops isLetter ('=' :: b) := stops_cons.2 (by decide)
    refine ⟨_, (List.mem_tails _ _).2 (List.suffix_append _ _), rfl, ?_, ?_⟩
    · rwa [List.tail_cons, takeWhile_append (letters_iff.1 hk) hstop]
    · rw [List.tail_cons, dropWhile_append (letters_iff.1 hk) hstop]
      rfl
  · rintro ⟨r, hr, hcomma, hne, hequals⟩
    obtain ⟨a, rfl⟩ := (List.mem_tails _ _).1 hr
    obtain ⟨t, rfl⟩ := List.head?_eq_some_iff.1 hcomma
    obtain ⟨b, hb⟩ := List.head?_eq_some_iff.1 hequals
    refine ⟨a, t.takeWhile isLetter, b, ?_, letters_iff.2 fun _ => List.mem_takeWhile_imp, hne⟩
    rw [← hb, List.tail_cons, List.takeWhile_append_dropWhile]

instance (s : List Char) : Decidable (HoldsTag s) := decidable_of_iff _ holdsTag_iff.symm

namespace Metric

/-! ## The text of tags -/

def tagText (t : String × String) : List Char := t.1.toList ++ '=' :: t.2.toList

/-- The text of tags that stand behind another one. -/
def behind (ts : List (String × String)) : List Char := ts.flatMap fun t => ',' :: tagText t

variable {t u : String × String} {ts us : List (String × String)} {v w a : List Char}

theorem behind_cons :
    behind (t :: ts) = ',' :: (t.1.toList ++ '=' :: (t.2.toList ++ behind ts)) := by
  simp [behind, tagText]

theorem head_behind : ∀ c ∈ (behind ts).head?, c = ',' := by
  rcases ts with _ | ⟨t, ts⟩
  · simp [behind]
  · simp [behind_cons, eq_comm]

/-- The letters of a key end at the first equals sign. -/
theorem key_inj {k k' r r' : List Char} (hk : Letters k) (hk' : Letters k')
    (h : k ++ '=' :: r = k' ++ '=' :: r') : k = k' ∧ r = r' := by
  have hstop : ∀ r, Stops isLetter ('=' :: r) := fun r => stops_cons.2 (by decide)
  have hkeys := congrArg (List.takeWhile isLetter) h
  have hrests := congrArg (List.dropWhile isLetter) h
  rw [takeWhile_append (letters_iff.1 hk) (hstop r),
    takeWhile_append (letters_iff.1 hk') (hstop r')] at hkeys
  rw [dropWhile_append (letters_iff.1 hk) (hstop r),
    dropWhile_append (letters_iff.1 hk') (hstop r')] at hrests
  exact ⟨hkeys, List.tail_eq_of_cons_eq hrests⟩

/-- What could be taken away in front of tags, so that there are tags left, holds one of them. -/
theorem eq_nil_of_behind (hts : ∀ t ∈ ts, Word t.1) (h : behind ts = a ++ behind us)
    (ha : ¬ HoldsTag a) : a = [] := by
  rcases ts with _ | ⟨t, ts⟩
  · exact (List.append_eq_nil_iff.1 h.symm).1
  rcases a with _ | ⟨c, a⟩
  · rfl
  exfalso
  obtain ⟨hletters, hne⟩ := hts t List.mem_cons_self
  rw [behind_cons, List.cons_append, List.cons.injEq] at h
  obtain ⟨rfl, h⟩ := h
  rcases List.append_eq_append_iff.1 h with ⟨s, rfl, hs⟩ | ⟨s, hkey, hs⟩
  · -- the key is taken away as a whole, and its equals sign with it
    rcases s with _ | ⟨d, s⟩
    · exact absurd (head_behind '=' (by rw [← List.nil_append (behind us), ← hs]; rfl)) (by decide)
    · obtain rfl := (List.cons.inj hs).1
      exact ha ⟨[], _, s, rfl, hletters, by simpa using hne⟩
  · -- what is left begins inside the key or at its equals sign
    rcases s with _ | ⟨d, s⟩
    · exact absurd (head_behind '=' (by rw [hs]; rfl)) (by decide)
    · have hcomma : d = ',' := head_behind d (by rw [hs]; rfl)
      have hletter := hletters d (by rw [hkey]; simp)
      rw [hcomma] at hletter
      exact absurd hletter (by decide)

/-- A value without tags in it ends where the tags behind it begin. -/
theorem value_inj (hv : ¬ HoldsTag v) (hw : ¬ HoldsTag w) (hts : ∀ t ∈ ts, Word t.1)
    (hus : ∀ t ∈ us, Word t.1) (h : v ++ behind ts = w ++ behind us) :
    v = w ∧ behind ts = behind us := by
  rcases List.append_eq_append_iff.1 h with ⟨a, rfl, ha⟩ | ⟨a, rfl, ha⟩
  · obtain rfl := eq_nil_of_behind hts ha fun hold => hw (hold.append_left v)
    exact ⟨(List.append_nil v).symm, ha⟩
  · obtain rfl := eq_nil_of_behind hus ha fun hold => hv (hold.append_left w)
    exact ⟨List.append_nil w, ha.symm⟩

theorem behind_inj : ∀ {ts us : List (String × String)},
    (∀ t ∈ ts, Word t.1 ∧ ¬ HoldsTag t.2.toList) → (∀ t ∈ us, Word t.1 ∧ ¬ HoldsTag t.2.toList) →
      behind ts = behind us → ts = us
  | [], [], _, _, _ => rfl
  | [], u :: us, _, _, h => by simp [behind] at h
  | t :: ts, [], _, _, h => by simp [behind] at h
  | (k, v) :: ts, (k', v') :: us, hts, hus, h => by
    rw [List.forall_mem_cons] at hts hus
    rw [behind_cons, behind_cons, List.cons.injEq] at h
    obtain ⟨hkey, hrest⟩ := key_inj hts.1.1.1 hus.1.1.1 h.2
    obtain ⟨hvalue, hbehind⟩ := value_inj hts.1.2 hus.1.2 (fun t ht => (hts.2 t ht).1)
      (fun t ht => (hus.2 t ht).1) hrest
    obtain rfl : k = k' := String.toList_injective hkey
    obtain rfl : v = v' := String.toList_injective hvalue
    rw [behind_inj hts.2 hus.2 hbehind]

/-! ## The identity -/

variable {m m' : Metric}

theorem mem_sortedTags {k x : String} : (k, x) ∈ m.sortedTags ↔ m.tags.get? k = some x := by
  have hkey : k ∈ sortTexts m.tags.keys ↔ (m.tags.get? k).isSome :=
    (List.mergeSort_perm _ _).mem_iff.trans OrderedMap.mem_keys_iff
  rw [sortedTags, List.mem_map]
  constructor
  · rintro ⟨k', hk', heq⟩
    obtain ⟨rfl, rfl⟩ := Prod.mk.inj heq
    obtain ⟨x, hx⟩ := Option.isSome_iff_exists.1 (hkey.1 hk')
    simp [hx]
  · intro hx
    exact ⟨k, hkey.2 (by simp [hx]), by simp [hx]⟩

theorem get?_eq_of_sortedTags (h : m.sortedTags = m'.sortedTags) (k : String) :
    m.tags.get? k = m'.tags.get? k := by
  ext x
  rw [← mem_sortedTags, ← mem_sortedTags, h]

/-- Keys go up, so none but the first one can be empty. -/
theorem ne_empty_of_sortedTags (h : m.sortedTags = t :: ts) : ∀ u ∈ ts, u.1 ≠ "" := by
  intro u hu hempty
  have hkeys : sortTexts m.tags.keys = (t :: ts).map Prod.fst := by
    rw [← h, sortedTags, List.map_map]
    exact (List.map_id _).symm
  have hlt := hkeys ▸ sortTexts_pairwise m.tags.nodup
  rw [List.map_cons, List.pairwise_cons] at hlt
  have hfirst := hlt.1 u.1 (List.mem_map_of_mem hu)
  rw [hempty, String.lt_iff_toList_lt] at hfirst
  exact List.not_lt_nil _ hfirst

/-- The tags in their brackets, if there are any. -/
def bracketed (m : Metric) : List Char :=
  match m.sortedTags with
  | [] => []
  | t :: ts => '[' :: (tagText t ++ behind ts ++ [']'])

theorem intercalate_comma (l : List Char) : ∀ ls : List (List Char),
    [','].intercalate (l :: ls) = l ++ ls.flatMap (',' :: ·)
  | [] => by simp
  | l' :: ls => by
    rw [List.intercalate_cons_cons, intercalate_comma l' ls]
    simp

theorem toList_labelKey (h : m.sortedTags = t :: ts) :
    m.labelKey.toList = tagText t ++ behind ts := by
  have htext : ∀ u : String × String, (u.1 ++ "=" ++ u.2).toList = tagText u := by simp [tagText]
  rw [labelKey, String.toList_intercalate, h, List.map_map, List.map_cons]
  change [','].intercalate ((t.1 ++ "=" ++ t.2).toList :: _) = _
  rw [intercalate_comma, htext, List.flatMap_map, behind]
  exact congrArg _ (List.flatMap_congr fun u _ => congrArg _ (htext u))

theorem toList_identity (m : Metric) : m.identity.toList = m.name.toList ++ m.bracketed := by
  have hempty : m.tags.isEmpty ↔ m.sortedTags = [] := by
    simp only [OrderedMap.isEmpty_iff, List.eq_nil_iff_forall_not_mem, Prod.forall, mem_sortedTags,
      Option.eq_none_iff_forall_ne_some, ne_eq]
  rw [identity, bracketed]
  rcases h : m.sortedTags with _ | ⟨t, ts⟩
  · simp [hempty.2 h]
  · have htags : ¬ m.tags.isEmpty := by simp [hempty, h]
    simp [htags, toList_labelKey h]

theorem stops_bracketed (m : Metric) : Stops isLetter m.bracketed := by
  rw [bracketed]
  split
  · exact stops_nil _
  · exact stops_cons.2 (by decide)

/-- Values that hold no tags come out of the brackets as they went in. -/
theorem sortedTags_inj (hkeys : ∀ k ∈ m.tags.keys, Letters k.toList)
    (hkeys' : ∀ k ∈ m'.tags.keys, Letters k.toList)
    (hvalues : ∀ x ∈ m.tags.values, ¬ HoldsTag x.toList)
    (hvalues' : ∀ x ∈ m'.tags.values, ¬ HoldsTag x.toList) (h : m.bracketed = m'.bracketed) :
    m.sortedTags = m'.sortedTags := by
  have hclear : ∀ {m : Metric}, (∀ k ∈ m.tags.keys, Letters k.toList) →
      (∀ x ∈ m.tags.values, ¬ HoldsTag x.toList) →
      ∀ t ∈ m.sortedTags, Letters t.1.toList ∧ ¬ HoldsTag t.2.toList := by
    intro m hkeys hvalues t ht
    have hentry := OrderedMap.mem_entries_iff.2 (mem_sortedTags.1 ht)
    exact ⟨hkeys _ (List.mem_map_of_mem hentry), hvalues _ (List.mem_map_of_mem hentry)⟩
  have hts := hclear hkeys hvalues
  have hus := hclear hkeys' hvalues'
  rw [bracketed, bracketed] at h
  rcases hm : m.sortedTags with _ | ⟨⟨k, x⟩, ts⟩ <;>
    rcases hm' : m'.sortedTags with _ | ⟨⟨k', x'⟩, us⟩ <;>
    simp only [hm, hm', List.cons.injEq, true_and, List.append_cancel_right_eq, reduceCtorEq] at h
  · rfl
  rw [hm, List.forall_mem_cons] at hts
  rw [hm', List.forall_mem_cons] at hus
  rw [tagText, tagText, List.append_assoc, List.append_assoc] at h
  have hword := ne_empty_of_sortedTags hm
  have hword' := ne_empty_of_sortedTags hm'
  obtain ⟨hkey, hrest⟩ := key_inj hts.1.1 hus.1.1 h
  obtain ⟨hvalue, hbehind⟩ := value_inj hts.1.2 hus.1.2
    (fun t ht => ⟨(hts.2 t ht).1, hword t ht⟩) (fun t ht => ⟨(hus.2 t ht).1, hword' t ht⟩) hrest
  obtain rfl : k = k' := String.toList_injective hkey
  obtain rfl : x = x' := String.toList_injective hvalue
  rw [behind_inj (fun t ht => ⟨⟨(hts.2 t ht).1, hword t ht⟩, (hts.2 t ht).2⟩)
    (fun t ht => ⟨⟨(hus.2 t ht).1, hword' t ht⟩, (hus.2 t ht).2⟩) hbehind]

/-- Metrics of letters with the same name and the same tags are printed alike, whatever the order of
the tags; and metrics that are printed alike have the same name and the same tags, if no value of
theirs holds a comma with letters and an equals sign behind it. -/
theorem identity_unique (hname : Letters m.name.toList) (hname' : Letters m'.name.toList)
    (hkeys : ∀ k ∈ m.tags.keys, Letters k.toList)
    (hkeys' : ∀ k ∈ m'.tags.keys, Letters k.toList) :
    (m.name = m'.name → (∀ k, m.tags.get? k = m'.tags.get? k) →
      m.labelKey = m'.labelKey ∧ m.identity = m'.identity)
    ∧ ((∀ x ∈ m.tags.values, ¬ HoldsTag x.toList) → (∀ x ∈ m'.tags.values, ¬ HoldsTag x.toList) →
      m.identity = m'.identity → m.name = m'.name ∧ ∀ k, m.tags.get? k = m'.tags.get? k) := by
  refine ⟨fun hn htags => ?_, fun hvalues hvalues' h => ?_⟩
  · have hsame : m.Same m' := ⟨hn, OrderedMap.perm_iff.2 htags⟩
    exact ⟨hsame.labelKey_eq, hsame.identity_eq⟩
  · have htext := congrArg String.toList h
    rw [toList_identity, toList_identity] at htext
    have hnames := congrArg (List.takeWhile isLetter) htext
    have hbrackets := congrArg (List.dropWhile isLetter) htext
    rw [takeWhile_append (letters_iff.1 hname) m.stops_bracketed,
      takeWhile_append (letters_iff.1 hname') m'.stops_bracketed] at hnames
    rw [dropWhile_append (letters_iff.1 hname) m.stops_bracketed,
      dropWhile_append (letters_iff.1 hname') m'.stops_bracketed] at hbrackets
    exact ⟨String.toList_injective hnames,
      get?_eq_of_sortedTags (sortedTags_inj hkeys hkeys' hvalues hvalues' hbrackets)⟩

/-- Values with commas, equals signs and brackets, and an empty one. With a tag in a value another
metric can be printed alike. -/
theorem identity_unique_commas :
    let m : Metric := ⟨"x", .ofList [("b", ",]="), ("a", "1,2=3,"), ("c", "")]⟩
    let m' : Metric := ⟨"x", .ofList [("c", ""), ("a", "1,2=3,"), ("b", ",]=")]⟩
    let held : Metric := ⟨"x", .ofList [("a", "1,b=2")]⟩
    let split : Metric := ⟨"x", .ofList [("a", "1"), ("b", "2")]⟩
    m.identity = m'.identity ∧ (∀ k, m.tags.get? k = m'.tags.get? k)
      ∧ held.identity = split.identity ∧ HoldsTag "1,b=2".toList := by
  intro m m' held split
  have hname : Letters m.name.toList := by simp [m, Letters]
  have hname' : Letters m'.name.toList := by simp [m', Letters]
  have hkeys : ∀ k ∈ m.tags.keys, Letters k.toList := by
    simp only [letters_iff, ← List.all_eq_true]
    decide +kernel
  have hkeys' : ∀ k ∈ m'.tags.keys, Letters k.toList := by
    simp only [letters_iff, ← List.all_eq_true]
    decide +kernel
  have hvalues : ∀ x ∈ m.tags.values, ¬ HoldsTag x.toList := by decide +kernel
  have hvalues' : ∀ x ∈ m'.tags.values, ¬ HoldsTag x.toList := by decide +kernel
  obtain ⟨hprinted, htold⟩ := identity_unique hname hname' hkeys hkeys'
  have halike : m.identity = m'.identity :=
    (hprinted rfl (OrderedMap.perm_iff.1 (by decide +kernel))).2
  have hheld : held.identity = split.identity := by
    have hsorted : sortTexts split.tags.keys = ["a", "b"] :=
      List.mergeSort_of_pairwise (by decide +kernel)
    apply String.toList_injective
    rw [toList_identity, toList_identity, bracketed, bracketed, sortedTags, sortedTags, hsorted]
    decide +kernel
  exact ⟨halike, (htold hvalues hvalues' halike).2, hheld, by decide +kernel⟩

end Metric

end GaugeConsole
