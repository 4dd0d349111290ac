import Mathlib.Data.List.Forall2
import SegmentQuery.Proofs.Token.Lexable

namespace SegmentQuery.Token

/-- A character that goes on with no token. -/
def isBreak (c : Char) : Bool := c == ' ' || c == '\n' || c == ',' || c == ')'

/-- A text that is scanned to given tokens, whatever follows it. -/
def Leads (text : String) (tokens : List Token) : Prop :=
  ∀ rest, scan (text.toList ++ rest) = tokens ++ scan rest

/-- A text that is scanned to given tokens, if a break follows it. -/
def Spells (text : String) (tokens : List Token) : Prop :=
  ∀ rest : List Char, (∀ c ∈ rest.head?, isBreak c = true) → scan (text.toList ++ rest) = tokens ++ scan rest

/-- A text that starts with a break and is scanned to given tokens, whatever follows it. -/
structure Separates (text : String) (tokens : List Token) : Prop where
  leads : Leads text tokens
  breaks : ∃ c rest, text.toList = c :: rest ∧ isBreak c = true

private theorem classes_of_isBreak {c : Char} (h : isBreak c = true) :
    isWordChar c = false ∧ c.isDigit = false ∧ c ≠ '.' ∧ c ≠ '\'' ∧ c ≠ '=' := by
  simp only [isBreak, Bool.or_eq_true, beq_iff_eq] at h
  rcases h with ((rfl | rfl) | rfl) | rfl <;> decide

/-- A break goes on with no token. -/
theorem endsBefore_of_isBreak (t : Token) {rest : List Char} (h : ∀ c ∈ rest.head?, isBreak c = true) :
    t.EndsBefore rest := by
  cases rest with
  | nil =>
    cases t with
    | comparison c => cases c <;> simp [EndsBefore]
    | _ => simp [EndsBefore]
  | cons c rest =>
    obtain ⟨hword, hdigit, hpoint, hquote, hequals⟩ := classes_of_isBreak (h c rfl)
    cases t with
    | comparison k => cases k <;> simp [EndsBefore, hequals]
    | _ => simp [EndsBefore, hword, hdigit, hpoint, hquote]

theorem spells_display {t : Token} (ht : t.Lexable) : Spells t.display [t] := by
  intro rest hrest
  exact scan_display ht (endsBefore_of_isBreak t hrest)

theorem Spells.scan_eq {text : String} {tokens : List Token} (h : Spells text tokens) :
    scan text.toList = tokens := by
  simpa [scan_nil] using h [] (by simp)

theorem Leads.spells {text : String} {tokens : List Token} (h : Leads text tokens) : Spells text tokens :=
  fun rest _ => h rest

theorem Leads.append {a b : String} {ts us : List Token} (ha : Leads a ts) (hb : Leads b us) :
    Leads (a ++ b) (ts ++ us) := by
  intro rest
  rw [String.toList_append, List.append_assoc, ha, hb, List.append_assoc]

theorem Leads.append_spells {a b : String} {ts us : List Token} (ha : Leads a ts) (hb : Spells b us) :
    Spells (a ++ b) (ts ++ us) := by
  intro rest hrest
  rw [String.toList_append, List.append_assoc, ha, hb rest hrest, List.append_assoc]

theorem Spells.append {a sep : String} {ts seps : List Token} (ha : Spells a ts) (hsep : Separates sep seps) :
    Leads (a ++ sep) (ts ++ seps) := by
  intro rest
  obtain ⟨c, cs, hc, hbreak⟩ := hsep.breaks
  rw [String.toList_append, List.append_assoc, ha (sep.toList ++ rest) (by simp [hc, hbreak]), hsep.leads,
    List.append_assoc]

/-- Two texts with a separator between them. -/
theorem Spells.separate {a sep b : String} {ts seps us : List Token} (ha : Spells a ts)
    (hsep : Separates sep seps) (hb : Spells b us) : Spells (a ++ sep ++ b) (ts ++ seps ++ us) :=
  (ha.append hsep).append_spells hb

/-- Any number of texts with a separator between each and the next. -/
theorem Spells.intercalate {α : Type} {sep : String} {seps : List Token} (hsep : Separates sep seps)
    (tokens : α → List Token) {text : String} {x : α} {texts : List String} {xs : List α}
    (hfirst : Spells text (tokens x)) (hrest : List.Forall₂ (fun text x => Spells text (tokens x)) texts xs) :
    Spells (sep.intercalate (text :: texts)) (tokens x ++ xs.flatMap fun x => seps ++ tokens x) := by
  induction hrest generalizing text x with
  | nil => simpa using hfirst
  | cons hsecond _ ih =>
    rw [String.intercalate_cons_cons, List.flatMap_cons, List.append_assoc, ← List.append_assoc]
    exact hfirst.separate hsep (ih hsecond)

/-- Texts that spell given tokens, each text a part of them. -/
def SpellInParts (texts : List String) (tokens : List Token) : Prop :=
  ∃ parts, List.Forall₂ Spells texts parts ∧ parts.flatten = tokens

theorem SpellInParts.nil : SpellInParts [] [] := ⟨[], .nil, rfl⟩

theorem Spells.inParts {text : String} {tokens : List Token} (h : Spells text tokens) : SpellInParts [text] tokens :=
  ⟨[tokens], .cons h .nil, by simp⟩

theorem SpellInParts.append {texts more : List String} {ts us : List Token} (h : SpellInParts texts ts)
    (h' : SpellInParts more us) : SpellInParts (texts ++ more) (ts ++ us) := by
  obtain ⟨parts, hparts, rfl⟩ := h
  obtain ⟨rest, hrest, rfl⟩ := h'
  exact ⟨parts ++ rest, List.rel_append hparts hrest, by simp⟩

theorem leads_space : Leads " " [] := fun rest => scan_blank (by decide) rest

theorem separates_space : Separates " " [] := ⟨leads_space, ' ', [], rfl, rfl⟩

theorem separates_newline : Separates "\n" [] := ⟨fun rest => scan_blank (by decide) rest, '\n', [], rfl, rfl⟩

/-- Texts on lines of their own. -/
theorem Spells.lines {text : String} {ts us : List Token} {texts : List String} (hfirst : Spells text ts)
    (hrest : SpellInParts texts us) : Spells ("\n".intercalate (text :: texts)) (ts ++ us) := by
  obtain ⟨parts, hparts, rfl⟩ := hrest
  have h := Spells.intercalate separates_newline id hfirst hparts
  simpa [List.flatMap_def] using h

/-- A reserved word between spaces. -/
theorem separates_keyword (k : Keyword) : Separates (" " ++ k.text ++ " ") [.keyword k] := by
  have hword : Spells k.text [.keyword k] := spells_display (t := .keyword k) trivial
  refine ⟨?_, ' ', k.text.toList ++ [' '], by simp, rfl⟩
  rw [String.append_assoc]
  exact leads_space.append (hword.append separates_space)

/-- A reserved word and a space. -/
theorem leads_keyword (k : Keyword) : Leads (k.text ++ " ") [.keyword k] :=
  (spells_display (t := .keyword k) trivial).append separates_space

theorem separates_comma : Separates ", " [.comma] := by
  refine ⟨fun rest => ?_, ',', [' '], rfl, rfl⟩
  have hcomma : scan (',' :: ' ' :: rest) = .comma :: scan (' ' :: rest) := scan_display (t := .comma) trivial trivial
  have hspace : scan (' ' :: rest) = scan rest := scan_blank (by decide) rest
  rw [hspace] at hcomma
  exact hcomma

theorem leads_leftParen : Leads "(" [.leftParen] := fun _ => scan_display (t := .leftParen) trivial trivial

theorem separates_leftParen : Separates " (" [.leftParen] :=
  ⟨leads_space.append leads_leftParen, ' ', ['('], rfl, rfl⟩

theorem separates_rightParen : Separates ")" [.rightParen] :=
  ⟨fun _ => scan_display (t := .rightParen) trivial trivial, ')', [], rfl, rfl⟩

/-- A text between parentheses. -/
theorem Spells.parens {text : String} {tokens : List Token} (h : Spells text tokens) :
    Spells ("(" ++ text ++ ")") (.leftParen :: tokens ++ [.rightParen]) := by
  simpa [String.append_assoc] using leads_leftParen.append_spells (h.append separates_rightParen).spells

end SegmentQuery.Token
