import Mathlib.Data.List.Forall2
import SegmentQuery.Json.Reader
import SegmentQuery.Proofs.Json.Nesting

namespace SegmentQuery.Json

namespace Quoted

/-- Four hexadecimal digits, and the number that they make. -/
inductive IsCodeUnit : List Char → Nat → Prop where
  | intro {a b c d : Char} {p q r s : Nat} (ha : hexValue? a = some p) (hb : hexValue? b = some q)
      (hc : hexValue? c = some r) (hd : hexValue? d = some s) :
      IsCodeUnit [a, b, c, d] (((p * 16 + q) * 16 + r) * 16 + s)

/-- The characters of a string, and a text for them. In a string that is passed over, a surrogate is a character of its
own. -/
inductive Spells (care : Care) : List Char → List Char → Prop where
  | nil : Spells care [] []
  | plain {c : Char} {s cs : List Char} (hquote : c ≠ '"') (hbackslash : c ≠ '\\') (hcontrol : 0x20 ≤ c.toNat)
      (hs : Spells care s cs) : Spells care (c :: s) (c :: cs)
  | letter {l c : Char} {s cs : List Char} (hl : lettered? l = some c) (hs : Spells care s cs) :
      Spells care (c :: s) ('\\' :: l :: cs)
  | unit {n : Nat} {digits s cs : List Char} (hdigits : IsCodeUnit digits n)
      (hn : care = .kept → isLeading n = false ∧ isTrailing n = false) (hs : Spells care s cs) :
      Spells care (Char.ofNat n :: s) ('\\' :: 'u' :: (digits ++ cs))
  | pair {m n : Nat} {first second s cs : List Char} (hcare : care = .kept) (hfirst : IsCodeUnit first m)
      (hm : isLeading m = true) (hsecond : IsCodeUnit second n) (hn : isTrailing n = true) (hs : Spells care s cs) :
      Spells care (paired m n :: s) ('\\' :: 'u' :: (first ++ '\\' :: 'u' :: (second ++ cs)))

/-- A string, and a text for it between quotation marks. -/
def Encodes (care : Care) (s : String) (cs : List Char) : Prop :=
  ∃ inner, Spells care s.toList inner ∧ cs = '"' :: inner ++ ['"']

theorem hexValue?_digitChar : ∀ n < 16, hexValue? (Nat.digitChar n) = some n := by decide

/-- The digits of a control character make its number, which is no surrogate. -/
theorem spells_control {care : Care} {c : Char} {s cs : List Char} (hc : c.toNat < 0x20) (hs : Spells care s cs) :
    Spells care (c :: s)
      ('\\' :: 'u' :: (['0', '0', Nat.digitChar (c.toNat / 16), Nat.digitChar (c.toNat % 16)] ++ cs)) := by
  have hunit : IsCodeUnit ['0', '0', Nat.digitChar (c.toNat / 16), Nat.digitChar (c.toNat % 16)] c.toNat := by
    have hzero : hexValue? '0' = some 0 := by decide
    have hdigits := IsCodeUnit.intro hzero hzero (hexValue?_digitChar (c.toNat / 16) (by omega))
      (hexValue?_digitChar (c.toNat % 16) (by omega))
    have hvalue : ((0 * 16 + 0) * 16 + c.toNat / 16) * 16 + c.toNat % 16 = c.toNat := by omega
    rwa [hvalue] at hdigits
  have hsurrogate : isLeading c.toNat = false ∧ isTrailing c.toNat = false := by
    simp only [isLeading, isTrailing, Bool.and_eq_false_imp, decide_eq_true_eq, decide_eq_false_iff_not]
    omega
  have hspells := Spells.unit hunit (fun _ => hsurrogate) hs
  rwa [Char.ofNat_toNat] at hspells

theorem spells_escaped {care : Care} (c : Char) {s cs : List Char} (hs : Spells care s cs) :
    Spells care (c :: s) (escaped c ++ cs) := by
  unfold escaped
  split
  case h_8 hquote hbackslash _ _ _ _ _ =>
    split
    · next hcontrol => exact spells_control hcontrol hs
    · next hcontrol => exact .plain hquote hbackslash (Nat.le_of_not_lt hcontrol) hs
  all_goals exact .letter rfl hs

theorem encodes_encode (care : Care) (s : String) : Encodes care s (encode s) := by
  refine ⟨s.toList.flatMap escaped, ?_, rfl⟩
  induction s.toList with
  | nil => exact .nil
  | cons c cs ih => exact spells_escaped c ih

/-- A string that is read where it is kept can be passed over. -/
theorem Spells.exists_skipped {s cs : List Char} (h : Spells .kept s cs) : ∃ s', Spells .skipped s' cs := by
  induction h with
  | nil => exact ⟨[], .nil⟩
  | plain hquote hbackslash hcontrol _ ih =>
    obtain ⟨s', hs'⟩ := ih
    exact ⟨_, .plain hquote hbackslash hcontrol hs'⟩
  | letter hl _ ih =>
    obtain ⟨s', hs'⟩ := ih
    exact ⟨_, .letter hl hs'⟩
  | unit hdigits _ _ ih =>
    obtain ⟨s', hs'⟩ := ih
    exact ⟨_, .unit hdigits nofun hs'⟩
  | pair _ hfirst _ hsecond _ _ ih =>
    obtain ⟨s', hs'⟩ := ih
    exact ⟨_, .unit hfirst nofun (.unit hsecond nofun hs')⟩

theorem Encodes.exists_skipped {s : String} {cs : List Char} (h : Encodes .kept s cs) :
    ∃ s', Encodes .skipped s' cs := by
  obtain ⟨inner, hspells, rfl⟩ := h
  obtain ⟨s', hs'⟩ := hspells.exists_skipped
  exact ⟨String.ofList s', inner, by rwa [String.toList_ofList], rfl⟩

end Quoted

/-- What stands behind the first entry, before the closing bracket: a comma and each other entry, with any blanks around
them. -/
inductive Follow : List (List Char) → List Char → Prop where
  | nil {blanks : List Char} (hblanks : blanks.all isBlank = true) : Follow [] blanks
  | cons {before behind cs rest : List Char} {others : List (List Char)} (hbefore : before.all isBlank = true)
      (hbehind : behind.all isBlank = true) (hrest : Follow others rest) :
      Follow (cs :: others) (before ++ ',' :: (behind ++ (cs ++ rest)))

/-- Entries between two brackets, with any blanks around them. -/
inductive Enclose (opening close : Char) : List (List Char) → List Char → Prop where
  | nil {blanks : List Char} (hblanks : blanks.all isBlank = true) :
      Enclose opening close [] (opening :: blanks ++ [close])
  | cons {blanks cs rest : List Char} {others : List (List Char)} (hblanks : blanks.all isBlank = true)
      (hrest : Follow others rest) : Enclose opening close (cs :: others) (opening :: (blanks ++ cs ++ rest) ++ [close])

/-- A text for a key and one of some texts, with a colon between them and any blanks around that. -/
def Joins (care : Care) (key : String) (texts : List Char → Prop) (cs : List Char) : Prop :=
  ∃ before behind ks vs : List Char, before.all isBlank = true ∧ behind.all isBlank = true ∧
    Quoted.Encodes care key ks ∧ texts vs ∧ cs = ks ++ (before ++ ':' :: (behind ++ vs))

theorem all_isBlank_lineBreak (layout : Layout) (depth : Nat) : (layout.lineBreak depth).all isBlank = true := by
  cases layout with
  | compact => rfl
  | indented =>
    have hblank : isBlank ' ' = true := by decide
    have hnewline : isBlank '\n' = true := by decide
    simp [Layout.lineBreak, hblank, hnewline]

theorem follow_following (layout : Layout) (depth : Nat) (others : List (List Char)) :
    Follow others (layout.following depth others) := by
  induction others with
  | nil => exact .nil (all_isBlank_lineBreak layout depth)
  | cons cs others ih =>
    have hfollow := @Follow.cons [] _ cs _ _ rfl (all_isBlank_lineBreak layout (depth + 1)) ih
    simpa [Layout.following] using hfollow

theorem enclose_enclose (layout : Layout) (depth : Nat) (opening close : Char) (entries : List (List Char)) :
    Enclose opening close entries (layout.enclose depth opening close entries) := by
  cases entries with
  | nil => exact @Enclose.nil opening close [] rfl
  | cons first others =>
    rw [Layout.enclose_cons]
    exact .cons (all_isBlank_lineBreak layout _) (follow_following layout depth others)

theorem joins_colon (care : Care) (layout : Layout) (key : String) {texts : List Char → Prop} {vs : List Char}
    (hvs : texts vs) : Joins care key texts (Quoted.encode key ++ layout.colon ++ vs) := by
  have hkey := Quoted.encodes_encode care key
  cases layout with
  | compact => exact ⟨[], [], _, vs, rfl, rfl, hkey, hvs, by simp [Layout.colon]⟩
  | indented => exact ⟨[], [' '], _, vs, rfl, by decide, hkey, hvs, by simp [Layout.colon]⟩

mutual

/-- A value and a text for it. Numbers other than whole ones of at most 64 bits are left out. -/
def SpelledBy (care : Care) : Json → List Char → Prop
  | null, cs => cs = ['n', 'u', 'l', 'l']
  | bool true, cs => cs = ['t', 'r', 'u', 'e']
  | bool false, cs => cs = ['f', 'a', 'l', 's', 'e']
  | natural n, cs => cs = Nat.toDigits 10 n.toNat
  | numeral _, _ => False
  | string s, cs => Quoted.Encodes care s cs
  | array items, cs => ∃ entries, ItemsSpelledBy care items entries ∧ Enclose '[' ']' entries cs
  | object members, cs => ∃ entries, MembersSpelledBy care members entries ∧ Enclose '{' '}' entries cs

/-- The items of an array, and a text for each of them. -/
def ItemsSpelledBy (care : Care) : List Json → List (List Char) → Prop
  | [], entries => entries = []
  | item :: rest, entries =>
    ∃ cs others, SpelledBy care item cs ∧ ItemsSpelledBy care rest others ∧ entries = cs :: others

/-- The members of an object, and a text for each of them. -/
def MembersSpelledBy (care : Care) : List (String × Json) → List (List Char) → Prop
  | [], entries => entries = []
  | (key, value) :: rest, entries =>
    ∃ cs others, Joins care key (SpelledBy care value) cs ∧ MembersSpelledBy care rest others ∧ entries = cs :: others

end

/-- A member of an object and a text for it. -/
def MemberSpelledBy (care : Care) (m : String × Json) : List Char → Prop := Joins care m.1 (m.2.SpelledBy care)

section

variable {care : Care} {entries : List (List Char)}

theorem itemsSpelledBy_iff {items : List Json} :
    ItemsSpelledBy care items entries ↔ List.Forall₂ (SpelledBy care) items entries := by
  induction items generalizing entries with
  | nil => rw [ItemsSpelledBy, List.forall₂_nil_left_iff]
  | cons item rest ih => simp only [ItemsSpelledBy, ih, List.forall₂_cons_left_iff]

theorem membersSpelledBy_iff {members : List (String × Json)} :
    MembersSpelledBy care members entries ↔ List.Forall₂ (MemberSpelledBy care) members entries := by
  induction members generalizing entries with
  | nil => rw [MembersSpelledBy, List.forall₂_nil_left_iff]
  | cons m rest ih => simp only [MembersSpelledBy, ih, List.forall₂_cons_left_iff, MemberSpelledBy]

end

mutual

/-- The text of a value in either layout is a text for it. -/
theorem spelledBy_write (care : Care) (layout : Layout) : ∀ (j : Json), j.Plain → ∀ depth,
    j.SpelledBy care (j.write layout depth)
  | .null, _, _ => rfl
  | .bool true, _, _ => rfl
  | .bool false, _, _ => rfl
  | .natural _, _, _ => rfl
  | .string s, _, _ => Quoted.encodes_encode care s
  | .array items, h, depth =>
    ⟨_, itemsSpelledBy_writeItems care layout items h (depth + 1), enclose_enclose layout depth ..⟩
  | .object members, h, depth =>
    ⟨_, membersSpelledBy_writeMembers care layout members h (depth + 1), enclose_enclose layout depth ..⟩

theorem itemsSpelledBy_writeItems (care : Care) (layout : Layout) : ∀ (items : List Json), AllPlain items → ∀ depth,
    ItemsSpelledBy care items (writeItems layout depth items)
  | [], _, _ => rfl
  | item :: rest, h, depth =>
    ⟨_, _, spelledBy_write care layout item h.1 depth, itemsSpelledBy_writeItems care layout rest h.2 depth, rfl⟩

theorem membersSpelledBy_writeMembers (care : Care) (layout : Layout) : ∀ (members : List (String × Json)),
    PlainMembers members → ∀ depth, MembersSpelledBy care members (writeMembers layout depth members)
  | [], _, _ => rfl
  | (key, value) :: rest, h, depth =>
    ⟨_, _, joins_colon care layout key (spelledBy_write care layout value h.1 depth),
      membersSpelledBy_writeMembers care layout rest h.2 depth, rfl⟩

end

/-- A whole text of a value, with any blanks around it. -/
def HasText (j : Json) (text : String) : Prop :=
  ∃ before cs after : List Char, before.all isBlank = true ∧ after.all isBlank = true ∧ j.SpelledBy .kept cs ∧
    text = String.ofList (before ++ cs ++ after)

theorem hasText_append_blanks {j : Json} (h : j.Plain) (layout : Layout) {blanks : List Char}
    (hblanks : blanks.all isBlank = true) : j.HasText (j.text layout ++ String.ofList blanks) :=
  ⟨[], _, blanks, rfl, hblanks, spelledBy_write .kept layout j h 0, by
    rw [text, ← String.ofList_append, List.nil_append]⟩

mutual

/-- A text that is read where it is kept can be passed over. -/
theorem SpelledBy.exists_skipped : ∀ {j : Json} {cs : List Char}, j.SpelledBy .kept cs →
    ∃ j' : Json, j'.SpelledBy .skipped cs
  | .null, _, h => ⟨.null, h⟩
  | .bool true, _, h => ⟨.bool true, h⟩
  | .bool false, _, h => ⟨.bool false, h⟩
  | .natural n, _, h => ⟨.natural n, h⟩
  | .string _, _, h => by
    obtain ⟨s', hs'⟩ := Quoted.Encodes.exists_skipped h
    exact ⟨.string s', hs'⟩
  | .array items, _, h => by
    obtain ⟨entries, hentries, hcs⟩ := h
    obtain ⟨items', hitems'⟩ := ItemsSpelledBy.exists_skipped hentries
    exact ⟨.array items', entries, hitems', hcs⟩
  | .object members, _, h => by
    obtain ⟨entries, hentries, hcs⟩ := h
    obtain ⟨members', hmembers'⟩ := MembersSpelledBy.exists_skipped hentries
    exact ⟨.object members', entries, hmembers', hcs⟩

theorem ItemsSpelledBy.exists_skipped : ∀ {items : List Json} {entries : List (List Char)},
    ItemsSpelledBy .kept items entries → ∃ items', ItemsSpelledBy .skipped items' entries
  | [], _, h => ⟨[], h⟩
  | item :: rest, _, h => by
    obtain ⟨cs, others, hcs, hothers, rfl⟩ := h
    obtain ⟨item', hitem'⟩ := SpelledBy.exists_skipped hcs
    obtain ⟨rest', hrest'⟩ := ItemsSpelledBy.exists_skipped hothers
    exact ⟨item' :: rest', cs, others, hitem', hrest', rfl⟩

theorem MembersSpelledBy.exists_skipped : ∀ {members : List (String × Json)} {entries : List (List Char)},
    MembersSpelledBy .kept members entries → ∃ members', MembersSpelledBy .skipped members' entries
  | [], _, h => ⟨[], h⟩
  | (key, value) :: rest, _, h => by
    obtain ⟨_, others, ⟨before, behind, ks, vs, hbefore, hbehind, hks, hvs, rfl⟩, hothers, rfl⟩ := h
    obtain ⟨key', hkey'⟩ := hks.exists_skipped
    obtain ⟨value', hvalue'⟩ := SpelledBy.exists_skipped hvs
    obtain ⟨rest', hrest'⟩ := MembersSpelledBy.exists_skipped hothers
    exact ⟨(key', value') :: rest', _, others, ⟨before, behind, ks, vs, hbefore, hbehind, hkey', hvalue', rfl⟩, hrest',
      rfl⟩

end

theorem Follow.length_le {others : List (List Char)} {rest : List Char} (h : Follow others rest) :
    ∀ cs ∈ others, cs.length ≤ rest.length := by
  induction h with
  | nil => simp
  | cons _ _ _ ih =>
    refine List.forall_mem_cons.mpr ⟨?_, fun cs hcs => ?_⟩
    · simp only [List.length_append, List.length_cons]
      omega
    · have hle := ih cs hcs
      simp only [List.length_append, List.length_cons]
      omega

/-- No entry is longer than what stands between the brackets. -/
theorem Enclose.exists_inner {opening close : Char} {entries : List (List Char)} {cs : List Char}
    (h : Enclose opening close entries cs) :
    ∃ inner, cs = opening :: inner ++ [close] ∧ ∀ entry ∈ entries, entry.length ≤ inner.length := by
  cases h with
  | nil => exact ⟨_, rfl, by simp⟩
  | cons _ hrest =>
    refine ⟨_, rfl, List.forall_mem_cons.mpr ⟨?_, fun entry hentry => ?_⟩⟩
    · simp only [List.length_append]
      omega
    · have hle := hrest.length_le entry hentry
      simp only [List.length_append]
      omega

mutual

/-- A value is not deeper than its text is long. -/
theorem SpelledBy.depth_le {care : Care} : ∀ {j : Json} {cs : List Char}, j.SpelledBy care cs → j.depth ≤ cs.length
  | .null, _, _ | .bool _, _, _ | .natural _, _, _ | .numeral _, _, _ | .string _, _, _ => Nat.zero_le _
  | .array items, _, h => by
    obtain ⟨entries, hentries, hcs⟩ := h
    obtain ⟨inner, rfl, hle⟩ := hcs.exists_inner
    have hdepth := ItemsSpelledBy.depths_le hentries hle
    simp only [depth, List.length_append, List.length_cons]
    omega
  | .object members, _, h => by
    obtain ⟨entries, hentries, hcs⟩ := h
    obtain ⟨inner, rfl, hle⟩ := hcs.exists_inner
    have hdepth := MembersSpelledBy.memberDepths_le hentries hle
    simp only [depth, List.length_append, List.length_cons]
    omega

theorem ItemsSpelledBy.depths_le {care : Care} {n : Nat} : ∀ {items : List Json} {entries : List (List Char)},
    ItemsSpelledBy care items entries → (∀ entry ∈ entries, entry.length ≤ n) → depths items ≤ n
  | [], _, _, _ => Nat.zero_le _
  | item :: rest, _, h, hle => by
    obtain ⟨cs, others, hcs, hothers, rfl⟩ := h
    obtain ⟨hfirst, hrest⟩ := List.forall_mem_cons.mp hle
    exact Nat.max_le.mpr ⟨Nat.le_trans (SpelledBy.depth_le hcs) hfirst, ItemsSpelledBy.depths_le hothers hrest⟩

theorem MembersSpelledBy.memberDepths_le {care : Care} {n : Nat} :
    ∀ {members : List (String × Json)} {entries : List (List Char)},
      MembersSpelledBy care members entries → (∀ entry ∈ entries, entry.length ≤ n) → memberDepths members ≤ n
  | [], _, _, _ => Nat.zero_le _
  | (_, value) :: rest, _, h, hle => by
    obtain ⟨_, others, ⟨before, behind, ks, vs, -, -, -, hvs, rfl⟩, hothers, rfl⟩ := h
    obtain ⟨hfirst, hrest⟩ := List.forall_mem_cons.mp hle
    have hvalue := SpelledBy.depth_le hvs
    simp only [List.length_append, List.length_cons] at hfirst
    exact Nat.max_le.mpr ⟨by omega, MembersSpelledBy.memberDepths_le hothers hrest⟩

end

end SegmentQuery.Json
