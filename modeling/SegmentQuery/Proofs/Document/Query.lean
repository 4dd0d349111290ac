import SegmentQuery.Proofs.Document.Filter

namespace SegmentQuery

open Json

namespace Document

open Json.Reader

/-- A member for each key of a query. -/
def members (value : Key → Json) : List (String × Json) := Key.all.map fun key => (key.text, value key)

namespace Key

/-- The value of a member of a query whose filters are described by the given values. -/
def valueWith (q : Query) (items : List Json) : Key → Json
  | .items => .array items
  | key => key.valueIn q

/-- A query with one member taken from another query. -/
def copy (q r : Query) : Key → Query
  | columnOrder => { r with columnOrder := q.columnOrder }
  | selected => { r with selected := q.selected }
  | connector => { r with connector := q.connector }
  | items => { r with items := q.items }
  | sortField => { r with sortField := q.sortField }
  | direction => { r with direction := q.direction }
  | limit => { r with limit := q.limit }

theorem mem_all (key : Key) : key ∈ all := by
  cases key <;> decide

theorem text_of_ofText? {s : String} {key : Key} (h : ofText? s = some key) : key.text = s := by
  simpa using List.find?_some h

theorem valuesOf_members (value : Key → Json) (key : Key) : valuesOf key.text (members value) = [value key] := by
  cases key <;> rfl

theorem mem_members_iff {value : Key → Json} {m : String × Json} :
    m ∈ members value ↔ ∃ key : Key, m = (key.text, value key) := by
  simp [members, mem_all, eq_comm]

theorem plain_valueIn (q : Query) (key : Key) : (key.valueIn q).Plain := by
  cases key with
  | columnOrder | selected => exact plain_ofTexts _
  | items => exact Filters.plain_toJson q.items
  | connector | sortField | direction | limit => trivial

end Key

theorem depth_ofTexts (texts : List String) : (ofTexts texts).depth = 1 := by
  have hscalars : depths (texts.map Json.string) ≤ 0 := depths_le_iff.mpr (by simp [Json.depth])
  rw [ofTexts, Json.depth, Nat.le_zero.mp hscalars]

end Document

/-- The object has the members of the query in any order, with its filters described in their order, possibly without
members that are as in the query for everything, and with others of unknown keys. -/
def Query.DescribedBy (q : Query) (j : Json) : Prop :=
  ∃ items ms, Filters.DescribedBy q.items items ∧ j = .object ms ∧
    Rearranges (Document.members (Document.Key.valueIn .everything))
      (Document.members (Document.Key.valueWith q items)) ms

theorem Query.describedBy_toJson (q : Query) : q.DescribedBy q.toJson :=
  ⟨Filters.toJson q.items, _, Filters.describedBy_toJson q.items, rfl, .refl _ _⟩

namespace Document

open Json.Reader

/-- A list of names is read as it is. -/
theorem gives_names {names : List String} {cs : List Char} (hcs : (ofTexts names).SpelledBy .kept cs) :
    (list Reader.text).Gives cs (.ok names) := by
  obtain ⟨texts, htexts, hcs⟩ := hcs
  have hnames := List.forall₂_map_left_iff.mp (itemsSpelledBy_iff.mp htexts)
  have hentries : List.Forall₂ (fun name cs => Starts cs ∧ Reader.text.Gives cs (accept True name)) names texts :=
    hnames.imp fun name cs hname => ⟨starts_of_spelledBy hname, gives_text hname⟩
  have hlist := gives_list (f := id) hentries hcs
  rwa [List.map_id, accept_of fun _ _ => trivial] at hlist

/-- A list of filters is read from the objects that describe them, if none of these is too deep. -/
theorem gives_filters {fs : List Filter} {items : List Json} {cs : List Char} (h : Filters.DescribedBy fs items)
    (hcs : (Json.array items).SpelledBy .kept cs) :
    (list filter).Gives cs (accept ((Json.array items).depth + 1 ≤ depthLimit) fs) := by
  obtain ⟨pairs, rfl, rfl, hpairs⟩ := h.exists_pairs
  obtain ⟨texts, htexts, hcs⟩ := hcs
  have htexts := List.forall₂_map_left_iff.mp (itemsSpelledBy_iff.mp htexts)
  have hentries : List.Forall₂
      (fun pair cs => Starts cs ∧ filter.Gives cs (accept (pair.2.depth ≤ filterDepth + 1) pair.1)) pairs texts :=
    ((List.forall₂_and_left _ _).mpr ⟨hpairs, htexts⟩).imp fun pair cs ⟨hpair, hcs⟩ =>
      ⟨starts_of_spelledBy hcs, gives_filter hpair hcs⟩
  have hdepth : (Json.array (pairs.map Prod.snd)).depth + 1 ≤ depthLimit ↔
      ∀ pair ∈ pairs, pair.2.depth ≤ filterDepth + 1 := by
    have hitems : depths (pairs.map Prod.snd) ≤ filterDepth + 1 ↔ ∀ pair ∈ pairs, pair.2.depth ≤ filterDepth + 1 := by
      rw [depths_le_iff, List.forall_mem_map]
    rw [← hitems, Json.depth, filterDepth, depthLimit]
    omega
  rw [accept_congr hdepth]
  exact gives_list (f := Prod.fst) hentries hcs

/-- Only the filters of a query can be too deep. -/
theorem Key.depth_valueWith_le (q : Query) (items : List Json) (key : Key) (h : key ≠ .items) :
    (key.valueWith q items).depth + 1 ≤ depthLimit := by
  have hdepth : (key.valueWith q items).depth ≤ 1 := by
    cases key with
    | columnOrder | selected => exact Nat.le_of_eq (depth_ofTexts _)
    | connector | sortField | direction | limit => exact Nat.zero_le 1
    | items => exact absurd rfl h
  exact Nat.le_trans (Nat.succ_le_succ hdepth) (by decide)

/-- The value of a member is read as it is if it is not too deep. -/
theorem Key.gives_value {q : Query} {items : List Json} (hitems : Filters.DescribedBy q.items items) (r : Query)
    (key : Key) {cs : List Char} (hcs : (key.valueWith q items).SpelledBy .kept cs) :
    (key.value r).Gives cs (accept ((key.valueWith q items).depth + 1 ≤ depthLimit) (key.copy q r)) := by
  cases key with
  | items =>
    have hfilters := (gives_filters hitems hcs).map fun items => { r with items }
    rwa [accept_map] at hfilters
  | columnOrder =>
    rw [accept_of (depth_valueWith_le q items .columnOrder nofun)]
    exact (gives_names hcs).map fun names => { r with columnOrder := names }
  | selected =>
    have hnames := (gives_names hcs).map fun names => { r with selected := .ofList names }
    rw [Except.map, ColumnSet.ofList_names] at hnames
    rwa [accept_of (depth_valueWith_le q items .selected nofun)]
  | connector =>
    rw [accept_of (depth_valueWith_le q items .connector nofun)]
    exact (gives_choice q.connector.ofText?_text hcs).map fun connector => { r with connector }
  | sortField =>
    rw [accept_of (depth_valueWith_le q items .sortField nofun)]
    exact (gives_text hcs).map fun sortField => { r with sortField }
  | direction =>
    rw [accept_of (depth_valueWith_le q items .direction nofun)]
    exact (gives_choice q.direction.ofText?_text hcs).map fun direction => { r with direction }
  | limit =>
    rw [accept_of (depth_valueWith_le q items .limit nofun)]
    exact (gives_natural hcs).map fun limit => { r with limit }

/-- A member of a query that is not there already is read as it is if it is not too deep. -/
theorem gives_queryMember {q : Query} {items : List Json} (hitems : Filters.DescribedBy q.items items) (r : Query)
    {key : Key} {seen : List Key} (hkey : key ∉ seen) {cs : List Char}
    (hcs : MemberSpelledBy .kept (key.text, key.valueWith q items) cs) :
    ((Reader.key .kept).andThen (queryMember (seen, r))).Gives cs
      (accept ((key.valueWith q items).depth + 1 ≤ depthLimit) (key :: seen, key.copy q r)) := by
  have hmember : queryMember (seen, r) key.text = (afterColon (key.value r)).map fun q => (key :: seen, q) := by
    simp only [queryMember, Key.ofText?_text, if_neg hkey]
  have hvalue := gives_member hmember (fun _ hvs => key.gives_value hitems r hvs) hcs
  rwa [accept_map] at hvalue

/-- A member with an unknown key is passed over. -/
theorem gives_unknown {m : String × Json} (hm : Key.ofText? m.1 = none) (read : List Key × Query) {cs : List Char}
    (hcs : MemberSpelledBy .kept m cs) : ((Reader.key .kept).andThen (queryMember read)).Gives cs (.ok read) := by
  have hmember : queryMember read m.1 = (afterColon skip).map fun _ => read := by
    simp only [queryMember, hm]
  exact gives_member (f := fun _ => read) hmember (fun _ hvs => gives_skip hvs) hcs

/-- The known keys of some members. -/
def knownKeys (ms : List (String × Json)) : List Key := ms.filterMap fun m => Key.ofText? m.1

/-- Members of a query are read one after the other, each with its value in the query, if no known key is repeated. -/
theorem reads_query {q : Query} {items : List Json} (hitems : Filters.DescribedBy q.items items)
    {ms : List (String × Json)} {texts : List (List Char)}
    (hms : ∀ m ∈ ms, ∀ key, Key.ofText? m.1 = some key → m.2 = key.valueWith q items)
    (htexts : List.Forall₂ (MemberSpelledBy .kept) ms texts) (seen : List Key) (r : Query)
    (hnodup : (knownKeys ms).Nodup) (hseen : ∀ key ∈ knownKeys ms, key ∉ seen) :
    Reads (fun st => (Reader.key .kept).andThen (queryMember st)) (seen, r) texts
      (accept (∀ m ∈ ms, (Key.ofText? m.1).isSome = true → m.2.depth + 1 ≤ depthLimit)
        ((knownKeys ms).reverse ++ seen, (knownKeys ms).foldl (fun r key => key.copy q r) r)) := by
  induction htexts generalizing seen r with
  | nil => exact .nil _
  | @cons m cs ms texts hcs htexts ih =>
    obtain ⟨hvalue, hvalues⟩ := List.forall_mem_cons.mp hms
    have hstarts := starts_of_memberSpelledBy hcs
    rw [accept_congr List.forall_mem_cons]
    cases hkey : Key.ofText? m.1 with
    | none =>
      have hkeys : knownKeys (m :: ms) = knownKeys ms := List.filterMap_cons_none hkey
      rw [hkeys] at hnodup hseen ⊢
      rw [accept_congr (and_iff_right nofun)]
      exact .cons hstarts (gives_unknown hkey _ hcs) (ih hvalues seen r hnodup hseen)
    | some key =>
      have hkeys : knownKeys (m :: ms) = key :: knownKeys ms := List.filterMap_cons_some hkey
      rw [hkeys] at hnodup hseen ⊢
      obtain ⟨hnot, hnodup⟩ := List.nodup_cons.mp hnodup
      obtain ⟨hunseen, hseen⟩ := List.forall_mem_cons.mp hseen
      obtain rfl : m = (key.text, key.valueWith q items) := Prod.ext (Key.text_of_ofText? hkey).symm (hvalue key hkey)
      have hothers : ∀ k ∈ knownKeys ms, k ∉ key :: seen := by
        intro k hk hmem
        rcases List.mem_cons.mp hmem with rfl | hmem
        · exact hnot hk
        · exact hseen k hk hmem
      have hdepth : ((some key).isSome = true → (key.valueWith q items).depth + 1 ≤ depthLimit) ↔
          (key.valueWith q items).depth + 1 ≤ depthLimit := forall_prop_of_true rfl
      rw [accept_congr (and_congr_left fun _ => hdepth), List.reverse_cons, List.append_assoc]
      exact .cons_accept hstarts (gives_queryMember hitems r hunseen hcs)
        (ih hvalues (key :: seen) (key.copy q r) hnodup hothers)

namespace Key

/-- With all its members taken from a query, any other query is that query. -/
theorem foldl_copy (q r : Query) : all.foldl (fun r key => key.copy q r) r = q := by
  simp only [all, List.foldl_cons, List.foldl_nil, copy]

theorem copy_copy (q r : Query) (key : Key) : key.copy q (key.copy q r) = key.copy q r := by
  cases key <;> rfl

theorem copy_comm (q r : Query) (key other : Key) :
    key.copy q (other.copy q r) = other.copy q (key.copy q r) := by
  cases key <;> cases other <;> rfl

/-- A member that is taken from a query is there in the end, and so is one that was there from the beginning. -/
theorem copy_foldl {q : Query} {key : Key} (keys : List Key) (r : Query) (h : key ∈ keys ∨ key.copy q r = r) :
    key.copy q (keys.foldl (fun r key => key.copy q r) r) = keys.foldl (fun r key => key.copy q r) r := by
  induction keys generalizing r with
  | nil => exact h.resolve_left List.not_mem_nil
  | cons other keys ih =>
    rw [List.foldl_cons]
    apply ih
    rcases h with hmem | hsame
    · rcases List.mem_cons.mp hmem with rfl | hmem
      · exact .inr (copy_copy q r _)
      · exact .inl hmem
    · exact .inr (by rw [copy_comm, hsame])

theorem eq_of_copy {q r : Query} (h : ∀ key : Key, key.copy q r = r) : r = q := by
  have hall := foldl_copy q r
  simpa only [all, List.foldl_cons, List.foldl_nil, h] using hall

/-- A member that is as in the query for everything does not have to be taken. -/
theorem copy_everything {q : Query} {items : List Json} (hitems : Filters.DescribedBy q.items items) {key : Key}
    (h : key.valueWith q items = key.valueIn .everything) : key.copy q .everything = .everything := by
  have htexts {names others : List String} (h : ofTexts names = ofTexts others) : names = others := by
    have htexts := congrArg texts? h
    rw [texts?_ofTexts, texts?_ofTexts] at htexts
    exact Option.some.inj htexts
  cases key with
  | columnOrder =>
    have horder : q.columnOrder = Query.everything.columnOrder := htexts h
    rw [copy, horder]
  | selected =>
    have hselected : q.selected = Query.everything.selected := ColumnSet.ext (htexts h)
    rw [copy, hselected]
  | connector =>
    have hconnector := congrArg Connector.ofText? (Json.string.inj h)
    rw [Connector.ofText?_text, Connector.ofText?_text] at hconnector
    rw [copy, Option.some.inj hconnector]
  | items =>
    obtain rfl : items = [] := Json.array.inj h
    have hnone : q.items = Query.everything.items := by
      cases hq : q.items with
      | nil => rfl
      | cons f rest =>
        rw [hq] at hitems
        cases hitems
    rw [copy, hnone]
  | sortField =>
    have hfield : q.sortField = Query.everything.sortField := Json.string.inj h
    rw [copy, hfield]
  | direction =>
    have hdirection := congrArg Direction.ofText? (Json.string.inj h)
    rw [Direction.ofText?_text, Direction.ofText?_text] at hdirection
    rw [copy, Option.some.inj hdirection]
  | limit =>
    have hlimit : q.limit = Query.everything.limit := Json.natural.inj h
    rw [copy, hlimit]

end Key

section

variable {defaults ms : List (String × Json)} {value : Key → Json}

theorem ofText?_eq_none {s : String} (h : s ∉ (members value).map Prod.fst) : Key.ofText? s = none := by
  cases hkey : Key.ofText? s with
  | none => rfl
  | some key =>
    exact absurd (List.mem_map.mpr ⟨_, Key.mem_members_iff.mpr ⟨key, rfl⟩, Key.text_of_ofText? hkey⟩) h

/-- In an arrangement of members, every known key has its value. -/
theorem value_eq_of_mem (h : Rearranges defaults (members value) ms) {m : String × Json} (hm : m ∈ ms) {key : Key}
    (hkey : Key.ofText? m.1 = some key) : m.2 = value key := by
  obtain ⟨omitted, added, -, hadded, hms⟩ := h
  rcases List.mem_append.mp (hms.subset (List.mem_append_left omitted hm)) with hwritten | hm
  · obtain ⟨other, rfl⟩ := Key.mem_members_iff.mp hwritten
    rw [Key.ofText?_text] at hkey
    rw [Option.some.inj hkey]
  · rw [ofText?_eq_none (hadded m hm)] at hkey
    cases hkey

/-- In an arrangement of members, no known key is repeated. -/
theorem nodup_knownKeys (h : Rearranges defaults (members value) ms) : (knownKeys ms).Nodup := by
  obtain ⟨omitted, added, -, hadded, hms⟩ := h
  have hwritten : knownKeys (members value) = Key.all := rfl
  have hnone : knownKeys added = [] := List.filterMap_eq_nil_iff.mpr fun m hm => ofText?_eq_none (hadded m hm)
  have hkeys : (knownKeys ms ++ knownKeys omitted).Perm (knownKeys (members value) ++ knownKeys added) := by
    have hperm := hms.filterMap fun m => Key.ofText? m.1
    rwa [List.filterMap_append, List.filterMap_append] at hperm
  rw [hwritten, hnone, List.append_nil] at hkeys
  exact (List.nodup_append.mp (hkeys.nodup_iff.mpr (by decide))).1

end

/-- A reader can follow an object exactly if each of its values leaves one level for it. -/
theorem depth_le_depthLimit_iff {ms : List (String × Json)} :
    (Json.object ms).depth ≤ depthLimit ↔ ∀ m ∈ ms, m.2.depth + 1 ≤ depthLimit := by
  have hsucc (n : Nat) : n + 1 ≤ depthLimit ↔ n ≤ depthLimit - 1 := Nat.succ_le_succ_iff
  simp only [Json.depth, hsucc, memberDepths_le_iff]

/-- A query is read from every text of an object that describes it, if its members are not too deep. -/
theorem gives_query {q : Query} {ms : List (String × Json)} (h : q.DescribedBy (.object ms)) {cs : List Char}
    (hcs : (Json.object ms).SpelledBy .kept cs) :
    query.Gives cs (accept (∀ m ∈ ms, (Key.ofText? m.1).isSome = true → m.2.depth + 1 ≤ depthLimit) q) := by
  obtain ⟨items, _, hitems, hobject, hms⟩ := h
  cases hobject
  obtain ⟨texts, htexts, hcs⟩ := hcs
  have hreads := reads_query hitems (fun m hm key hkey => value_eq_of_mem hms hm hkey) (membersSpelledBy_iff.mp htexts)
    [] .everything (nodup_knownKeys hms) (by simp)
  -- Every member has been read, or it is missing and as in the query for everything, with which reading starts.
  have hcopy : (knownKeys ms).foldl (fun r key => key.copy q r) .everything = q := by
    refine Key.eq_of_copy fun key => Key.copy_foldl _ _ ?_
    rcases hms.valuesOf_eq (Key.valuesOf_members _ key) with hvalues | ⟨-, hdefault⟩
    · have hmem := mem_valuesOf_iff.mp (List.mem_of_mem_head? (by rw [hvalues]; rfl))
      exact .inl (List.mem_filterMap.mpr ⟨_, hmem, Key.ofText?_text key⟩)
    · have hdefault := mem_valuesOf_iff.mpr hdefault
      rw [Key.valuesOf_members, List.mem_singleton] at hdefault
      exact .inr (Key.copy_everything hitems hdefault)
  rw [hcopy] at hreads
  have hmembers := (gives_enclosed (by decide : isBlank '{' = false) (.inr rfl) hreads hcs).map (·.2)
  rw [accept_map] at hmembers
  exact gives_byNext_enclose (by decide) hcs hmembers

end Document

namespace Query

theorem plain_toJson (q : Query) : q.toJson.Plain := by
  rw [toJson, Plain, plainMembers_iff]
  simp [Document.Key.plain_valueIn]

theorem deepest_document (q : Query) (layout : Layout) : Json.deepest (q.document layout) = q.toJson.depth :=
  deepest_text q.plain_toJson layout

/-- A document is read back if it is not too deep, with any blanks behind it. -/
theorem ofDocument_append_blanks (q : Query) (layout : Layout) {blanks : List Char}
    (hblanks : blanks.all isBlank = true) :
    ofDocument (q.document layout ++ String.ofList blanks) = accept (q.toJson.depth ≤ Document.depthLimit) q := by
  have hdepth : q.toJson.depth ≤ Document.depthLimit ↔
      ∀ m ∈ Document.members (Document.Key.valueIn q), (Document.Key.ofText? m.1).isSome = true →
        m.2.depth + 1 ≤ Document.depthLimit := by
    refine Document.depth_le_depthLimit_iff.trans (forall₂_congr fun m hm => ?_)
    obtain ⟨key, rfl⟩ := Document.Key.mem_members_iff.mp hm
    simp only [Document.Key.ofText?_text, Option.isSome_some, forall_const]
  rw [accept_congr hdepth]
  exact Reader.whole_of_hasText (fun _ => Document.gives_query q.describedBy_toJson)
    (hasText_append_blanks q.plain_toJson layout hblanks)

/-- A document is read as the query that has been written, if it has at most 127 arrays and objects open at any point,
and else it is refused; in both layouts alike. -/
theorem ofDocument_document (q : Query) :
    (∀ layout, ofDocument (q.document layout) =
      if Json.deepest (q.document layout) ≤ Document.depthLimit then .ok q else .error .malformed) ∧
    ofDocument (q.document .compact) = ofDocument (q.document .indented) := by
  have hread (layout : Layout) : ofDocument (q.document layout) = accept (q.toJson.depth ≤ Document.depthLimit) q := by
    have hdocument := ofDocument_append_blanks q layout (rfl : [].all isBlank = true)
    rwa [String.ofList_nil, String.append_empty] at hdocument
  refine ⟨fun layout => ?_, (hread .compact).trans (hread .indented).symm⟩
  rw [hread, deepest_document, accept]

/-- A query is read from every text of an object that describes it, if a reader can follow all arrays and objects in it:
whatever the order of the members, of the query as of its filters, where the kind of a filter may come last; with any
blanks between them; and also if members with default values are missing or members with unknown keys are added. -/
theorem ofDocument_of_describedBy {q : Query} {j : Json} {text : String} (h : q.DescribedBy j)
    (hdepth : j.depth ≤ Document.depthLimit) (htext : j.HasText text) : ofDocument text = .ok q := by
  obtain ⟨ms, rfl⟩ : ∃ ms, j = .object ms := by
    obtain ⟨_, ms, -, hobject, -⟩ := h
    exact ⟨ms, hobject⟩
  have hknown : ∀ m ∈ ms, (Document.Key.ofText? m.1).isSome = true → m.2.depth + 1 ≤ Document.depthLimit :=
    fun m hm _ => Document.depth_le_depthLimit_iff.mp hdepth m hm
  rw [← accept_of hknown q]
  exact Reader.whole_of_hasText (fun _ => Document.gives_query h) htext

/-- Members from the last one to the first, so that kinds of filters come last, without some that have default values,
and with notes that nobody knows. -/
theorem ofDocument_of_describedBy_reversed :
    let condition : Json := .object [("type", .string "condition"), ("id", .natural 3), ("field", .string "ItemName"),
      ("operator", .string "=")].reverse
    let group : Json := .object [("type", .string "group"), ("id", .natural 2), ("connector", .string "OR"),
      ("children", .array [condition]), ("note", .null)].reverse
    let query : Json := .object [("items", .array [group]), ("order_by_field", .string ""),
      ("order_by_dir", .string "ASC"), ("limit", .natural 5), ("note", .array [.bool true, .object []])].reverse
    ofDocument (query.text .indented) = .ok { everything with
      items := [.group 2 .or [.condition ⟨3, "ItemName", .compare .eq, "", "", []⟩]], limit := 5 } := by
  intro condition group query
  have hcondition : Filter.DescribedBy (.condition ⟨3, "ItemName", .compare .eq, "", "", []⟩) condition := by
    refine .condition ⟨[("value", .string ""), ("value2", .string ""), ("values", .array [])], [], ?_, by simp, ?_⟩
    · simp [Filter.defaults]
    · exact (List.reverse_perm _).append_right _
  have hgroup : Filter.DescribedBy (.group 2 .or [.condition ⟨3, "ItemName", .compare .eq, "", "", []⟩]) group := by
    refine .group (.cons hcondition .nil) ⟨[], [("note", .null)], by simp, ?_, ?_⟩
    · simp [Filter.withKind, Filter.groupMembers]
    · rw [List.append_nil]
      exact List.reverse_perm _
  have hquery : DescribedBy { everything with
      items := [.group 2 .or [.condition ⟨3, "ItemName", .compare .eq, "", "", []⟩]], limit := 5 } query := by
    refine ⟨[group], _, .cons hgroup .nil, rfl, (Document.members (Document.Key.valueIn .everything)).take 3,
      [("note", .array [.bool true, .object []])], List.take_subset _ _, ?_, ?_⟩
    · simp [Document.members, Document.Key.all, Document.Key.text]
    · exact ((List.reverse_perm _).append_right _).trans List.perm_append_comm
  have hplain : query.Plain := by
    simp [query, group, condition, Plain, PlainMembers, AllPlain]
  have htext := hasText_append_blanks hplain .indented (rfl : [].all isBlank = true)
  rw [String.ofList_nil, String.append_empty] at htext
  exact ofDocument_of_describedBy hquery (by decide) htext

end Query

end SegmentQuery
