import SegmentQuery.Document.Query
import SegmentQuery.Proofs.Document.Arrangement
import SegmentQuery.Proofs.Json.Reading

namespace SegmentQuery

open Json

namespace Filter

def kind : Filter → Kind
  | condition _ => .condition
  | group .. => .group

/-- The members of a filter that may be missing, with the values that they have then. -/
def defaults : List (String × Json) :=
  [("value", .string ""), ("value2", .string ""), ("values", .array []), ("children", .array [])]

/-- The members of an object of a kind. -/
def withKind (kind : Kind) (members : List (String × Json)) : List (String × Json) :=
  ("type", .string kind.text) :: members

/-- The members of a group behind its kind. -/
def groupMembers (id : UInt64) (k : Connector) (children : List Json) : List (String × Json) :=
  [("id", .natural id), ("connector", .string k.text), ("children", .array children)]

end Filter

mutual

/-- The object has the members of the filter in any order, possibly without empty ones, and with others of unknown
keys. -/
inductive Filter.DescribedBy : Filter → Json → Prop where
  | condition {c : Condition} {ms : List (String × Json)}
      (h : Rearranges Filter.defaults (Filter.withKind .condition c.members) ms) :
      Filter.DescribedBy (.condition c) (.object ms)
  | group {id : UInt64} {k : Connector} {children : List Filter} {items : List Json} {ms : List (String × Json)}
      (hchildren : Filters.DescribedBy children items)
      (h : Rearranges Filter.defaults (Filter.withKind .group (Filter.groupMembers id k items)) ms) :
      Filter.DescribedBy (.group id k children) (.object ms)

/-- Each object describes the filter in its place. -/
inductive Filters.DescribedBy : List Filter → List Json → Prop where
  | nil : Filters.DescribedBy [] []
  | cons {f : Filter} {rest : List Filter} {j : Json} {items : List Json} (h : Filter.DescribedBy f j)
      (hrest : Filters.DescribedBy rest items) : Filters.DescribedBy (f :: rest) (j :: items)

end

mutual

/-- A filter is described as it is written. -/
theorem Filter.describedBy_toJson : ∀ f : Filter, f.DescribedBy f.toJson
  | .condition _ => .condition (.refl _ _)
  | .group _ _ children => .group (Filters.describedBy_toJson children) (.refl _ _)

theorem Filters.describedBy_toJson : ∀ items : List Filter, Filters.DescribedBy items (Filters.toJson items)
  | [] => .nil
  | f :: rest => .cons (Filter.describedBy_toJson f) (Filters.describedBy_toJson rest)

end

/-- Filters and the objects that describe them, in pairs. -/
theorem Filters.DescribedBy.exists_pairs {items : List Filter} {js : List Json} (h : Filters.DescribedBy items js) :
    ∃ pairs : List (Filter × Json), pairs.map Prod.fst = items ∧ pairs.map Prod.snd = js ∧
      ∀ pair ∈ pairs, pair.1.DescribedBy pair.2 := by
  cases h with
  | nil => exact ⟨[], rfl, rfl, by simp⟩
  | @cons f rest j js h hrest =>
    obtain ⟨pairs, rfl, rfl, hpairs⟩ := hrest.exists_pairs
    exact ⟨(f, j) :: pairs, rfl, rfl, List.forall_mem_cons.mpr ⟨h, hpairs⟩⟩

theorem Json.plain_ofTexts (texts : List String) : (Json.ofTexts texts).Plain := by
  rw [ofTexts, Plain, allPlain_iff]
  simp [Plain]

mutual

theorem Filter.plain_toJson : ∀ f : Filter, f.toJson.Plain
  | .condition c => by
    simp [Filter.toJson, Condition.members, Plain, PlainMembers, plain_ofTexts]
  | .group id k children => by
    simp [Filter.toJson, Plain, PlainMembers, Filters.plain_toJson children]

theorem Filters.plain_toJson : ∀ items : List Filter, AllPlain (Filters.toJson items)
  | [] => trivial
  | f :: rest => ⟨Filter.plain_toJson f, Filters.plain_toJson rest⟩

end

theorem Json.texts?_ofTexts (texts : List String) : (Json.ofTexts texts).texts? = some texts := by
  rw [ofTexts, texts?]
  induction texts with
  | nil => rfl
  | cons text rest ih => simp [text?, ih]

theorem Condition.ofMembers?_of_rearranges {c : Condition} {ms : List (String × Json)}
    (h : Rearranges Filter.defaults (Filter.withKind .condition c.members) ms) : ofMembers? ms = some c := by
  have hid : required "id" ms = some (.natural c.id) := h.required_eq rfl (by decide)
  have hfield : required "field" ms = some (.string c.field) := h.required_eq rfl (by decide)
  have hoperator : required "operator" ms = some (.string c.operator.text) := h.required_eq rfl (by decide)
  obtain ⟨value, hvalue, hreadValue⟩ : ∃ found, Json.optional "value" ms = some found ∧
      orDefault "" text? found = text? (.string c.value) :=
    h.exists_optional rfl (by simp [Filter.defaults, text?])
  obtain ⟨upper, hupper, hreadUpper⟩ : ∃ found, Json.optional "value2" ms = some found ∧
      orDefault "" text? found = text? (.string c.upper) :=
    h.exists_optional rfl (by simp [Filter.defaults, text?])
  obtain ⟨values, hvalues, hreadValues⟩ : ∃ found, Json.optional "values" ms = some found ∧
      orDefault [] texts? found = texts? (.ofTexts c.values) :=
    h.exists_optional rfl (by simp +contextual [Filter.defaults, ofTexts, texts?])
  simp [ofMembers?, hid, hfield, hoperator, hvalue, hupper, hvalues, ofValues?, natural?, text?, named?,
    Operator.ofText?_text, hreadValue, hreadUpper, hreadValues, texts?_ofTexts]

theorem Filters.childReadings_eq_map (ms : List (String × Json)) :
    childReadings ms = (valuesOf "children" ms).map Filters.ofJson? := by
  induction ms with
  | nil => rfl
  | cons m rest ih =>
    by_cases hkey : m.1 = "children" <;> simp [childReadings, valuesOf, hkey, ih]

namespace Filter

/-- From the members of a group the group is made again, if its children are. -/
theorem ofMembers?_of_rearranges_group {id : UInt64} {k : Connector} {children : List Filter} {items : List Json}
    {ms : List (String × Json)} (hitems : Filters.ofItems? items = some children)
    (h : Rearranges defaults (withKind .group (groupMembers id k items)) ms) :
    ofMembers? .group ms = some (.group id k children) := by
  have hid : required "id" ms = some (.natural id) := h.required_eq rfl (by decide)
  have hconnector : required "connector" ms = some (.string k.text) := h.required_eq rfl (by decide)
  have hchildren : onlyReading (Filters.childReadings ms) = some children := by
    rw [Filters.childReadings_eq_map]
    have hwritten : valuesOf "children" (withKind .group (groupMembers id k items)) = [.array items] := rfl
    rcases h.valuesOf_eq hwritten with hvalues | ⟨hvalues, hdefault⟩
    · rw [hvalues]
      exact hitems
    · obtain rfl : items = [] := by simpa [defaults] using hdefault
      rw [hvalues]
      exact hitems
  simp [ofMembers?, ofReadings?, hid, hconnector, hchildren, groupOf?, natural?, named?, Connector.ofText?_text]

/-- The kind of an object is the value of one of its members, and the members make a filter of this kind. -/
theorem ofJson?_of_valuesOf {k : Kind} {ms : List (String × Json)} (h : valuesOf "type" ms = [.string k.text]) :
    ofJson? (.object ms) = ofMembers? k ms := by
  have hkind : (required "type" ms).bind Kind.ofJson? = some k := by
    rw [required, Json.optional, h]
    exact Kind.ofText?_text k
  rw [ofJson?, hkind]
  rfl

/-- A value that describes a filter is an object of the kind of the filter. -/
theorem DescribedBy.exists_object {f : Filter} {j : Json} (h : f.DescribedBy j) :
    ∃ ms, j = .object ms ∧ valuesOf "type" ms = [.string f.kind.text] := by
  cases h with
  | condition h => exact ⟨_, rfl, h.valuesOf_eq_singleton rfl (by decide)⟩
  | group _ h => exact ⟨_, rfl, h.valuesOf_eq_singleton rfl (by decide)⟩

end Filter

mutual

/-- A filter is made of every value that describes it. -/
theorem Filter.ofJson?_of_describedBy : ∀ {f : Filter} {j : Json}, f.DescribedBy j → Filter.ofJson? j = some f
  | _, _, .condition h => by
    rw [Filter.ofJson?_of_valuesOf (k := .condition) (h.valuesOf_eq_singleton rfl (by decide))]
    exact congrArg (Option.map Filter.condition) (Condition.ofMembers?_of_rearranges h)
  | _, _, .group hchildren h => by
    rw [Filter.ofJson?_of_valuesOf (k := .group) (h.valuesOf_eq_singleton rfl (by decide))]
    exact Filter.ofMembers?_of_rearranges_group (Filters.ofItems?_of_describedBy hchildren) h

theorem Filters.ofItems?_of_describedBy : ∀ {items : List Filter} {js : List Json},
    Filters.DescribedBy items js → Filters.ofItems? js = some items
  | _, _, .nil => rfl
  | _, _, .cons h hrest => by
    simp [Filters.ofItems?, Filter.ofJson?_of_describedBy h, Filters.ofItems?_of_describedBy hrest]

end

namespace Filter

/-- The kind of a filter is none of the members that describe it. -/
theorem ofMembers?_append_type (k : Kind) (v : Json) (before after : List (String × Json)) :
    ofMembers? k (before ++ ("type", v) :: after) = ofMembers? k (before ++ after) := by
  have hvalues {key : String} (hkey : "type" ≠ key) :
      valuesOf key (before ++ ("type", v) :: after) = valuesOf key (before ++ after) := by
    simp [valuesOf, hkey]
  have hoptional {key : String} (hkey : "type" ≠ key) :
      Json.optional key (before ++ ("type", v) :: after) = Json.optional key (before ++ after) := by
    rw [Json.optional, hvalues hkey, Json.optional]
  cases k <;> simp [ofMembers?, ofReadings?, Condition.ofMembers?, required, hoptional, Filters.childReadings_eq_map,
    hvalues]

end Filter

namespace Document

open Json.Reader

/-- Behind the kind of a filter or before it, the other members are taken as they are. -/
theorem filterMember_of_ne {key : String} (h : key ≠ "type") (st : Option Filter.Kind × List (String × Json)) :
    filterMember st key = (afterColon (anything .kept filterDepth)).map fun v => (st.1, (key, v) :: st.2) := by
  unfold filterMember
  split
  · exact absurd rfl h
  · exact absurd rfl h
  · rfl

theorem foldl_taken (kind : Option Filter.Kind) (members taken : List (String × Json)) :
    members.foldl (fun st m => (st.1, m :: st.2)) (kind, taken) = (kind, members.reverse ++ taken) := by
  induction members generalizing taken with
  | nil => rfl
  | cons m rest ih => rw [List.foldl_cons, ih, List.reverse_cons, List.append_assoc, List.singleton_append]

/-- The members of a filter are read with its kind among them. -/
theorem reads_filter {k : Filter.Kind} {before after : List (String × Json)} (hbefore : ∀ m ∈ before, m.1 ≠ "type")
    (hafter : ∀ m ∈ after, m.1 ≠ "type") {texts : List (List Char)}
    (htexts : List.Forall₂ (MemberSpelledBy .kept) (before ++ ("type", .string k.text) :: after) texts)
    (taken : List (String × Json)) :
    Reads (fun st => (key .kept).andThen (filterMember st)) (none, taken) texts
      (accept (memberDepths (before ++ after) ≤ filterDepth) (some k, (before ++ after).reverse ++ taken)) := by
  -- By induction on the members in front of the kind; what has been taken of them comes first.
  induction before generalizing taken texts with
  | nil =>
    obtain ⟨cs, others, hcs, hothers, rfl⟩ := List.forall₂_cons_left_iff.mp htexts
    have hkind : ((key .kept).andThen (filterMember (none, taken))).Gives cs (.ok (some k, taken)) :=
      gives_member (f := fun kind => (some kind, taken)) rfl (fun _ hvs => gives_name k.ofText?_text hvs) hcs
    have hmembers := reads_members filterMember (fun st m => (st.1, m :: st.2))
      (fun m hm st => filterMember_of_ne (hafter m hm) st) (gives_anything_members after filterDepth) hothers
      (some k, taken)
    rw [foldl_taken] at hmembers
    exact .cons (starts_of_memberSpelledBy hcs) hkind hmembers
  | cons m before ih =>
    obtain ⟨cs, others, hcs, hothers, rfl⟩ := List.forall₂_cons_left_iff.mp htexts
    obtain ⟨hm, hbefore⟩ := List.forall_mem_cons.mp hbefore
    have hmember := gives_member (filterMember_of_ne hm (none, taken))
      (fun _ hvs => gives_anything m.2 filterDepth hvs) hcs
    rw [accept_map] at hmember
    have hothers := ih hbefore hothers (m :: taken)
    have hdepth : memberDepths (m :: before ++ after) ≤ filterDepth ↔
        m.2.depth ≤ filterDepth ∧ memberDepths (before ++ after) ≤ filterDepth := by
      rw [List.cons_append, memberDepths, Nat.max_le]
    rw [accept_congr hdepth, List.cons_append, List.reverse_cons, List.append_assoc, List.singleton_append]
    exact .cons_accept (starts_of_memberSpelledBy hcs) hmember hothers

/-- A filter is read from every text of an object that describes it, if the object is not too deep. -/
theorem gives_filter {f : Filter} {j : Json} {cs : List Char} (h : f.DescribedBy j) (hcs : j.SpelledBy .kept cs) :
    filter.Gives cs (accept (j.depth ≤ filterDepth + 1) f) := by
  obtain ⟨ms, rfl, htype⟩ := h.exists_object
  have hmembers := Filter.ofJson?_of_describedBy h
  rw [Filter.ofJson?_of_valuesOf htype] at hmembers
  -- The kind stands somewhere among the members. It is read on its own, and the filter is made of the others.
  obtain ⟨before, after, rfl, hbefore, hafter⟩ := exists_append_of_valuesOf htype
  rw [Filter.ofMembers?_append_type] at hmembers
  obtain ⟨texts, htexts, hcs⟩ := hcs
  have hreads := reads_filter hbefore hafter (membersSpelledBy_iff.mp htexts) []
  have hmade : (some f.kind).bind (fun kind => Filter.ofMembers? kind ((before ++ after).reverse ++ []).reverse) =
      some f := by
    rwa [List.append_nil, List.reverse_reverse]
  have hobject : ((Reader.object .kept filterMember (none, [])).fit fun read =>
      read.1.bind fun kind => Filter.ofMembers? kind read.2.reverse).Gives cs
        (accept (memberDepths (before ++ after) ≤ filterDepth) f) :=
    (gives_enclosed (by decide) (.inr rfl) hreads hcs).fit_accept hmade
  have hdepth : (Json.object (before ++ ("type", .string f.kind.text) :: after)).depth ≤ filterDepth + 1 ↔
      memberDepths (before ++ after) ≤ filterDepth := by
    rw [Json.depth, Nat.succ_le_succ_iff, memberDepths_le_iff, memberDepths_le_iff, List.forall_mem_append,
      List.forall_mem_cons, List.forall_mem_append]
    exact and_congr_right fun _ => and_iff_right (Nat.zero_le _)
  rw [accept_congr hdepth]
  exact gives_byNext_enclose (by decide) hcs hobject

end Document

end SegmentQuery
