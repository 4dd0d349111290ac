import Mathlib.Data.List.Basic
import SegmentQuery.Json.Layout

namespace SegmentQuery.Json

/-- Where a point of a text is: outside of all strings, in a string, or in a string behind a backslash. -/
inductive Place where
  | outside
  | inString
  | escaped
  deriving Repr, DecidableEq

/-- A point of a text: how many arrays and objects are open, and where it is. -/
structure Point where
  opened : Nat
  place : Place
  deriving Repr, DecidableEq

namespace Point

/-- The point behind one more character. -/
def next (p : Point) (c : Char) : Point :=
  match p.place with
  | .outside =>
    if c = '[' ∨ c = '{' then { p with opened := p.opened + 1 }
    else if c = ']' ∨ c = '}' then { p with opened := p.opened - 1 }
    else if c = '"' then { p with place := .inString }
    else p
  | .inString =>
    if c = '\\' then { p with place := .escaped }
    else if c = '"' then { p with place := .outside }
    else p
  | .escaped => { p with place := .inString }

/-- The most arrays and objects that are open at a point, or at one behind it. -/
def deepest (p : Point) : List Char → Nat
  | [] => p.opened
  | c :: cs => max p.opened ((p.next c).deepest cs)

theorem opened_le_deepest (p : Point) (cs : List Char) : p.opened ≤ p.deepest cs := by
  cases cs with
  | nil => exact Nat.le_refl _
  | cons c cs => exact Nat.le_max_left _ _

theorem deepest_append (p : Point) (cs ds : List Char) :
    p.deepest (cs ++ ds) = max (p.deepest cs) ((cs.foldl next p).deepest ds) := by
  induction cs generalizing p with
  | nil => exact (Nat.max_eq_right (opened_le_deepest p ds)).symm
  | cons c cs ih => rw [List.cons_append, deepest, deepest, ih, List.foldl_cons, Nat.max_assoc]

end Point

/-- The most arrays and objects that are open at a point of a text. -/
def deepest (text : String) : Nat := (⟨0, .outside⟩ : Point).deepest text.toList

/-- A stretch of a text that ends where it starts, and in between has a given number of further arrays and objects open
at once. -/
structure Spans (place : Place) (cs : List Char) (depth : Nat) : Prop where
  returns : ∀ n, cs.foldl Point.next ⟨n, place⟩ = ⟨n, place⟩
  deepest : ∀ n, (⟨n, place⟩ : Point).deepest cs = n + depth

namespace Spans

variable {place : Place} {cs ds : List Char} {m n : Nat}

theorem nil : Spans place [] 0 := ⟨fun _ => rfl, fun _ => rfl⟩

theorem append (hcs : Spans place cs m) (hds : Spans place ds n) : Spans place (cs ++ ds) (max m n) where
  returns k := by rw [List.foldl_append, hcs.returns, hds.returns]
  deepest k := by rw [Point.deepest_append, hcs.returns, hcs.deepest, hds.deepest, Nat.add_max_add_left]

/-- A character that changes nothing. -/
theorem cons {c : Char} (hc : ∀ k, Point.next ⟨k, place⟩ c = ⟨k, place⟩) (hcs : Spans place cs n) :
    Spans place (c :: cs) n where
  returns k := by rw [List.foldl_cons, hc, hcs.returns]
  deepest k := by rw [Point.deepest, hc, hcs.deepest, Nat.max_eq_right (Nat.le_add_right ..)]

theorem append_zero (hcs : Spans place cs m) (hds : Spans place ds 0) : Spans place (cs ++ ds) m := by
  simpa using hcs.append hds

/-- A stretch between two characters, the second of which takes back what the first one changes. -/
theorem between {inner : Place} {first last : Char} (more : Nat)
    (hfirst : ∀ k, Point.next ⟨k, place⟩ first = ⟨k + more, inner⟩)
    (hlast : ∀ k, Point.next ⟨k + more, inner⟩ last = ⟨k, place⟩) (hcs : Spans inner cs n) :
    Spans place (first :: cs ++ [last]) (n + more) where
  returns k := by
    rw [List.cons_append, List.foldl_cons, hfirst, List.foldl_append, hcs.returns, List.foldl_cons, hlast,
      List.foldl_nil]
  deepest k := by
    have hend : Point.deepest ⟨k + more, inner⟩ [last] = k + more := by
      rw [Point.deepest, hlast]
      exact Nat.max_eq_left (Nat.le_add_right k more)
    have hwhole : Point.deepest ⟨k, place⟩ (first :: cs ++ [last]) = max k (max (k + more + n) (k + more)) := by
      rw [List.cons_append, Point.deepest, hfirst, Point.deepest_append, hcs.returns, hcs.deepest, hend]
    rw [hwhole]
    omega

theorem brackets {opening close : Char} (hopening : opening = '[' ∨ opening = '{') (hclose : close = ']' ∨ close = '}')
    (hcs : Spans .outside cs n) : Spans .outside (opening :: cs ++ [close]) (n + 1) := by
  refine .between 1 (fun k => if_pos hopening) (fun k => ?_) hcs
  rcases hclose with rfl | rfl <;> rfl

end Spans

/-- A character that is no bracket and no quotation mark. -/
def isPlain (c : Char) : Bool := !(['[', '{', ']', '}', '"'].contains c)

theorem spans_of_isPlain {cs : List Char} (h : cs.all isPlain = true) : Spans .outside cs 0 := by
  induction cs with
  | nil => exact .nil
  | cons c cs ih =>
    obtain ⟨hc, hcs⟩ := Bool.and_eq_true_iff.mp h
    have hplain : c ≠ '[' ∧ c ≠ '{' ∧ c ≠ ']' ∧ c ≠ '}' ∧ c ≠ '"' := by simpa [isPlain] using hc
    exact .cons (fun k => by simp [Point.next, hplain]) (ih hcs)

/-- A digit is none of some other characters. -/
theorem not_mem_of_isDigit {c : Char} (h : c.isDigit = true) {others : List Char}
    (hothers : others.all (fun d => !d.isDigit) = true) : c ∉ others := by
  intro hmem
  have hnot := List.all_eq_true.mp hothers c hmem
  simp [h] at hnot

theorem spans_toDigits (n : Nat) : Spans .outside (Nat.toDigits 10 n) 0 := by
  refine spans_of_isPlain (List.all_eq_true.mpr fun c hc => ?_)
  have hdigit : c.isDigit = true := Nat.isDigit_of_mem_toDigits (by decide) (by decide) hc
  rw [isPlain, Bool.not_eq_true', List.contains_eq_mem, decide_eq_false_iff_not]
  exact not_mem_of_isDigit hdigit (by decide)

theorem spans_lineBreak (layout : Layout) (depth : Nat) : Spans .outside (layout.lineBreak depth) 0 := by
  apply spans_of_isPlain
  cases layout with
  | compact => rfl
  | indented =>
    have hblank : isPlain ' ' = true := by decide
    have hnewline : isPlain '\n' = true := by decide
    simp [Layout.lineBreak, hblank, hnewline]

theorem spans_colon (layout : Layout) : Spans .outside layout.colon 0 := by
  cases layout <;> exact spans_of_isPlain rfl

theorem spans_inString {cs : List Char} (h : ∀ c ∈ cs, c ≠ '\\' ∧ c ≠ '"') : Spans .inString cs 0 := by
  induction cs with
  | nil => exact .nil
  | cons c cs ih =>
    obtain ⟨hc, hcs⟩ := List.forall_mem_cons.mp h
    exact .cons (fun k => by simp [Point.next, hc]) (ih hcs)

/-- A backslash and what it stands before. -/
theorem spans_backslash (c : Char) : Spans .inString ['\\', c] 0 where
  returns _ := rfl
  deepest n := by simp [Point.deepest, Point.next]

theorem spans_escaped (c : Char) : Spans .inString (Quoted.escaped c) 0 := by
  unfold Quoted.escaped
  split
  case h_8 hquote hbackslash _ _ _ _ _ =>
    split
    · have hdigits : ∀ d ∈ ['0', '0', Nat.digitChar (c.toNat / 16), Nat.digitChar (c.toNat % 16)],
          d ≠ '\\' ∧ d ≠ '"' := by
        simp
      exact (spans_backslash 'u').append_zero (spans_inString hdigits)
    · exact spans_inString (by simpa using ⟨hbackslash, hquote⟩)
  all_goals exact spans_backslash _

theorem spans_flatMap_escaped (cs : List Char) : Spans .inString (cs.flatMap Quoted.escaped) 0 := by
  induction cs with
  | nil => exact .nil
  | cons c cs ih => exact (spans_escaped c).append_zero ih

theorem spans_encode (s : String) : Spans .outside (Quoted.encode s) 0 :=
  .between 0 (fun _ => rfl) (fun _ => rfl) (spans_flatMap_escaped s.toList)

/-- Stretches of a text, with a given number of further arrays and objects open at once in one of them at least. -/
inductive AllSpan : List (List Char) → Nat → Prop where
  | nil : AllSpan [] 0
  | cons {cs : List Char} {rest : List (List Char)} {m n : Nat} (hcs : Spans .outside cs m) (hrest : AllSpan rest n) :
      AllSpan (cs :: rest) (max m n)

theorem AllSpan.enclose {entries : List (List Char)} {n : Nat} (h : AllSpan entries n) (layout : Layout) (depth : Nat)
    {opening close : Char} (hopening : opening = '[' ∨ opening = '{') (hclose : close = ']' ∨ close = '}') :
    Spans .outside (layout.enclose depth opening close entries) (n + 1) := by
  have hbreak := spans_lineBreak layout
  have hothers {others : List (List Char)} {n : Nat} (h : AllSpan others n) :
      Spans .outside (layout.following depth others) n := by
    induction h with
    | nil => exact hbreak depth
    | cons hcs _ ih =>
      have hcomma : Spans .outside (',' :: layout.lineBreak (depth + 1)) 0 := .cons (fun _ => rfl) (hbreak _)
      have hentry := hcomma.append hcs
      rw [Nat.zero_max] at hentry
      exact hentry.append ih
  cases h with
  | nil => exact .brackets hopening hclose .nil
  | cons hcs hrest =>
    have hentry := (hbreak (depth + 1)).append hcs
    rw [Nat.zero_max] at hentry
    rw [Layout.enclose_cons]
    exact .brackets hopening hclose (hentry.append (hothers hrest))

mutual

/-- The most arrays and objects inside one another. -/
def depth : Json → Nat
  | array items => depths items + 1
  | object members => memberDepths members + 1
  | _ => 0

/-- The depth of the deepest of the items of an array. -/
def depths : List Json → Nat
  | [] => 0
  | item :: rest => max item.depth (depths rest)

/-- The depth of the deepest value of the members of an object. -/
def memberDepths : List (String × Json) → Nat
  | [] => 0
  | (_, value) :: rest => max value.depth (memberDepths rest)

end

theorem depths_le_iff {items : List Json} {n : Nat} : depths items ≤ n ↔ ∀ item ∈ items, item.depth ≤ n := by
  induction items with
  | nil => simp [depths]
  | cons item rest ih => rw [depths, Nat.max_le, ih, List.forall_mem_cons]

theorem memberDepths_le_iff {members : List (String × Json)} {n : Nat} :
    memberDepths members ≤ n ↔ ∀ m ∈ members, m.2.depth ≤ n := by
  induction members with
  | nil => simp [memberDepths]
  | cons m rest ih => rw [memberDepths, Nat.max_le, ih, List.forall_mem_cons]

mutual

/-- A value with no numbers in it but whole ones of at most 64 bits. -/
def Plain : Json → Prop
  | numeral _ => False
  | array items => AllPlain items
  | object members => PlainMembers members
  | _ => True

def AllPlain : List Json → Prop
  | [] => True
  | item :: rest => item.Plain ∧ AllPlain rest

def PlainMembers : List (String × Json) → Prop
  | [] => True
  | (_, value) :: rest => value.Plain ∧ PlainMembers rest

end

theorem allPlain_iff {items : List Json} : AllPlain items ↔ ∀ item ∈ items, item.Plain := by
  induction items with
  | nil => simp [AllPlain]
  | cons item rest ih => rw [AllPlain, ih, List.forall_mem_cons]

theorem plainMembers_iff {members : List (String × Json)} : PlainMembers members ↔ ∀ m ∈ members, m.2.Plain := by
  induction members with
  | nil => simp [PlainMembers]
  | cons m rest ih => rw [PlainMembers, ih, List.forall_mem_cons]

mutual

theorem spans_write (layout : Layout) : ∀ (j : Json), j.Plain → ∀ depth, Spans .outside (j.write layout depth) j.depth
  | .null, _, _ => spans_of_isPlain rfl
  | .bool b, _, _ => by cases b <;> exact spans_of_isPlain rfl
  | .natural n, _, _ => spans_toDigits n.toNat
  | .string s, _, _ => spans_encode s
  | .array items, h, depth =>
    (allSpan_writeItems layout items h (depth + 1)).enclose layout depth (.inl rfl) (.inl rfl)
  | .object members, h, depth =>
    (allSpan_writeMembers layout members h (depth + 1)).enclose layout depth (.inr rfl) (.inr rfl)

theorem allSpan_writeItems (layout : Layout) : ∀ (items : List Json), AllPlain items →
    ∀ depth, AllSpan (writeItems layout depth items) (depths items)
  | [], _, _ => .nil
  | item :: rest, h, depth => .cons (spans_write layout item h.1 depth) (allSpan_writeItems layout rest h.2 depth)

theorem allSpan_writeMembers (layout : Layout) : ∀ (members : List (String × Json)), PlainMembers members →
    ∀ depth, AllSpan (writeMembers layout depth members) (memberDepths members)
  | [], _, _ => .nil
  | (key, value) :: rest, h, depth => by
    have hmember := ((spans_encode key).append_zero (spans_colon layout)).append (spans_write layout value h.1 depth)
    rw [Nat.zero_max] at hmember
    exact .cons hmember (allSpan_writeMembers layout rest h.2 depth)

end

/-- In the text of a value, as many arrays and objects are open at once as the value is deep. -/
theorem deepest_text {j : Json} (h : j.Plain) (layout : Layout) : deepest (j.text layout) = j.depth := by
  rw [deepest, text, String.toList_ofList, (spans_write layout j h 0).deepest, Nat.zero_add]

end SegmentQuery.Json
