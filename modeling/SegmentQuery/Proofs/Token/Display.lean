import SegmentQuery.Proofs.Token.Spelling

namespace SegmentQuery.Token

/-- The display texts of tokens, with a space between each and the next. -/
def spaced (ts : List Token) : String := " ".intercalate (ts.map display)

/-- The display texts of lexable tokens, one after the other, spell those tokens. -/
theorem spells_spaced {ts : List Token} (h : ∀ t ∈ ts, t.Lexable) : Spells (spaced ts) ts := by
  cases ts with
  | nil =>
    intro rest _
    rfl
  | cons t ts =>
    obtain ⟨ht, hts⟩ := List.forall_mem_cons.mp h
    have hrest : List.Forall₂ (fun text u => Spells text [u]) (ts.map display) ts := by
      rw [List.forall₂_map_left_iff, List.forall₂_same]
      exact fun u hu => spells_display (hts u hu)
    have htokens := Spells.intercalate separates_space (fun u => [u]) (spells_display ht) hrest
    simpa [spaced] using htokens

/-- Every token of a text is lexable. A list of tokens is lexable exactly if it is scanned from its own display texts
with spaces between them; so the tokens of every text are scanned from theirs. -/
theorem lexable_iff_scan_spaced (text : String) (ts : List Token) :
    (∀ t ∈ scan text.toList, t.Lexable) ∧
      ((∀ t ∈ ts, t.Lexable) ↔ scan (spaced ts).toList = ts) ∧
      scan (spaced (scan text.toList)).toList = scan text.toList := by
  have hlexable : ∀ t ∈ scan text.toList, t.Lexable := fun t => lexable_of_mem_scan
  refine ⟨hlexable, ⟨fun h => (spells_spaced h).scan_eq, fun hscan t ht => ?_⟩, (spells_spaced hlexable).scan_eq⟩
  rw [← hscan] at ht
  exact lexable_of_mem_scan ht

/-- Signs that would be one sign without the space, a number that ends in a point in front of another number, a name
that starts with a reserved word, and a text with a quote and a reserved word in it. -/
theorem lexable_iff_scan_spaced_of_signs :
    spaced [.comparison .lt, .comparison .eq, .number "-1.", .number "5", .identifier "NOTE", .keyword .NOT,
        .string "it's AND"] = "< = -1. 5 NOTE NOT 'it''s AND'" ∧
      scan "< = -1. 5 NOTE NOT 'it''s AND'".toList = [.comparison .lt, .comparison .eq, .number "-1.", .number "5",
        .identifier "NOTE", .keyword .NOT, .string "it's AND"] := by
  have hshown : spaced [.comparison .lt, .comparison .eq, .number "-1.", .number "5", .identifier "NOTE",
      .keyword .NOT, .string "it's AND"] = "< = -1. 5 NOTE NOT 'it''s AND'" := by decide +kernel
  have hpoint : IsUnsigned (['1'] ++ '.' :: []) := .point (by decide) rfl rfl
  have hwhole : IsUnsigned ['5'] := .whole (by decide) rfl
  have hname : Lexable (.identifier "NOTE") := (by decide : isName "NOTE" = true)
  refine ⟨hshown, ?_⟩
  rw [← hshown]
  refine (lexable_iff_scan_spaced "" _).2.1.mp ?_
  simp only [List.forall_mem_cons]
  exact ⟨trivial, trivial, .negative hpoint, .unsigned hwhole, hname, trivial, trivial, by simp⟩

end SegmentQuery.Token
