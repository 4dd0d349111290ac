import SegmentQuery.Proofs.Filter.Place
import SegmentQuery.Proofs.Filter.Slots
import SegmentQuery.Query.Text

namespace SegmentQuery

mutual

theorem Filter.text?_anonymous : ∀ f : Filter, f.anonymous.text? = f.text?
  | .condition _ => rfl
  | .group _ k children => by rw [Filter.anonymous, Filter.text?, Filter.text?, Filters.texts_anonymous children]

theorem Filters.texts_anonymous : ∀ items : List Filter, Filters.texts (Filters.anonymous items) = Filters.texts items
  | [] => rfl
  | f :: rest => by
    rw [Filters.anonymous, Filters.texts, Filters.texts, Filter.text?_anonymous f, Filters.texts_anonymous rest]

end

/-- Filters that differ in their ids only have the same texts. -/
theorem Filters.texts_eq_of_anonymous {items more : List Filter} (h : anonymous items = anonymous more) :
    texts items = texts more := by
  rw [← texts_anonymous items, h, texts_anonymous more]

/-- What a condition holds in other slots than those that its operator uses does not show. -/
theorem Condition.text_reassigned (op : Operator) (c : Condition) :
    (c.reassigned op).text = { c with operator := op }.text := by
  cases op <;> rfl

theorem Filters.texts_append (items more : List Filter) : texts (items ++ more) = texts items ++ texts more := by
  induction items with
  | nil => rfl
  | cons f rest ih => rw [List.cons_append, texts, texts, ih, List.append_assoc]

/-- Filters with the same text can stand in for each other. -/
theorem Place.texts_fill_congr (p : Place) {f g : Filter} (h : f.text? = g.text?) :
    Filters.texts (p.fill [f]) = Filters.texts (p.fill [g]) := by
  induction p with
  | between before after => simp only [fill, Filters.texts_append, Filters.texts, h]
  | inside before gid k p after ih => simp only [fill, Filters.texts_append, Filters.texts, Filter.text?, ih]

/-- The text of a query shows no more of its filters than their texts. -/
theorem Query.text_withItems {q : Query} {items more : List Filter} (h : Filters.texts items = Filters.texts more) :
    text { q with items } = text { q with items := more } := by
  rw [text, text, clauses, clauses, filterText?, filterText?, h]
  rfl

end SegmentQuery
