import SegmentQuery.Json.Value
import SegmentQuery.Proofs.Json.Scalar

namespace SegmentQuery.Json

/-- A value that is read if `p` holds, and else malformed. -/
def accept {α : Type} (p : Prop) [Decidable p] (a : α) : Except Failure α := if p then .ok a else .error .malformed

theorem accept_map {α β : Type} (p : Prop) [Decidable p] (a : α) (f : α → β) :
    (accept p a).map f = accept p (f a) := by
  unfold accept
  split <;> rfl

theorem accept_of {α : Type} {p : Prop} [Decidable p] (hp : p) (a : α) : accept p a = .ok a := if_pos hp

theorem accept_congr {α : Type} {p q : Prop} [Decidable p] [Decidable q] (h : p ↔ q) (a : α) :
    accept p a = accept q a := by
  simp only [accept, h]

/-- A text whose first character is no blank and closes nothing. -/
def Starts (cs : List Char) : Prop := ∃ c rest, cs = c :: rest ∧ isBlank c = false ∧ c ≠ ']' ∧ c ≠ '}'

theorem skipBlanks_append {blanks : List Char} (hblanks : blanks.all isBlank = true) {c : Char} (hc : isBlank c = false)
    (cs : List Char) : skipBlanks (blanks ++ c :: cs) = c :: cs :=
  Token.dropWhile_append hblanks (by simpa using hc)

theorem ends_of_isBlank {blanks : List Char} (h : blanks.all isBlank = true) : Ends blanks := by
  refine ends_of_mem [' ', '\t', '\n', '\r'] (by decide) fun c hc => ?_
  have hblank := List.all_eq_true.mp h c (List.mem_of_mem_head? hc)
  simpa [isBlank, or_assoc] using hblank

namespace Reader

variable {α β σ : Type}

/-- What a reader gives for a text, with any blanks before it and anything behind it that does not go on with it. -/
def Gives (r : Reader α) (cs : List Char) (result : Except Failure α) : Prop :=
  ∀ blanks rest, blanks.all isBlank = true → Ends rest →
    r.run (blanks ++ (cs ++ rest)) = result.map fun a => (a, rest)

/-- What a reader takes off the front of a text, with any blanks before it and anything behind it. -/
def Takes (r : Reader α) (cs : List Char) (a : α) : Prop :=
  ∀ blanks rest, blanks.all isBlank = true → r.run (blanks ++ (cs ++ rest)) = .ok (a, rest)

theorem Takes.gives {r : Reader α} {cs : List Char} {a : α} (h : r.Takes cs a) : r.Gives cs (.ok a) :=
  fun blanks rest hblanks _ => h blanks rest hblanks

section

variable {r : Reader α} {cs ds : List Char} {a : α}

theorem gives_fail (e : Failure) : (fail e : Reader α).Gives cs (.error e) := fun _ _ _ _ => rfl

theorem Gives.run {result : Except Failure α} (h : r.Gives cs result) {rest : List Char} (hrest : Ends rest) :
    r.run (cs ++ rest) = result.map fun a => (a, rest) := h [] rest rfl hrest

theorem gives_byNext {choose : Char → Reader α} {c : Char} {result : Except Failure α} (hc : isBlank c = false)
    (h : (choose c).Gives (c :: cs) result) : (byNext choose).Gives (c :: cs) result := by
  intro blanks rest hblanks hrest
  simp only [byNext, List.cons_append, skipBlanks_append hblanks hc]
  exact h.run hrest

theorem Gives.fit {f : α → Option β} {b : β} (h : r.Gives cs (.ok a)) (hf : f a = some b) :
    (r.fit f).Gives cs (.ok b) := by
  intro blanks rest hblanks hrest
  simp only [Reader.fit, h blanks rest hblanks hrest, Except.map, Read.andThen, hf]

theorem Gives.fit_error {f : α → Option β} {e : Failure} (h : r.Gives cs (.error e)) :
    (r.fit f).Gives cs (.error e) := by
  intro blanks rest hblanks hrest
  simp only [Reader.fit, h blanks rest hblanks hrest, Except.map, Read.andThen]

theorem Gives.map {result : Except Failure α} (h : r.Gives cs result) (f : α → β) :
    (r.map f).Gives cs (result.map f) := by
  cases result with
  | ok a => exact h.fit rfl
  | error e => exact h.fit_error

theorem Gives.fit_accept {f : α → Option β} {b : β} {p : Prop} [Decidable p] (h : r.Gives cs (accept p a))
    (hf : f a = some b) : (r.fit f).Gives cs (accept p b) := by
  unfold accept at h ⊢
  split at h <;> rename_i hp
  · rw [if_pos hp]
    exact h.fit hf
  · rw [if_neg hp]
    exact h.fit_error

theorem Takes.andThen {next : α → Reader β} {result : Except Failure β} (h : r.Takes cs a)
    (hnext : (next a).Gives ds result) : (r.andThen next).Gives (cs ++ ds) result := by
  intro blanks rest hblanks hrest
  simp only [Reader.andThen, List.append_assoc, h blanks (ds ++ rest) hblanks, Read.andThen]
  exact hnext.run hrest

/-- Blanks before a text do not count. -/
theorem Gives.blanks {blanks : List Char} {result : Except Failure α} (hblanks : blanks.all isBlank = true)
    (h : r.Gives cs result) : r.Gives (blanks ++ cs) result := by
  intro more rest hmore hrest
  rw [List.append_assoc, ← List.append_assoc]
  exact h (more ++ blanks) rest (by simp [hmore, hblanks]) hrest

end

theorem takes_sign {c : Char} (hc : isBlank c = false) : (sign c).Takes [c] () := by
  intro blanks rest hblanks
  simp [sign, skipBlanks_append hblanks hc]

theorem gives_afterColon {r : Reader α} {blanks cs : List Char} {result : Except Failure α}
    (hblanks : blanks.all isBlank = true) (h : r.Gives cs result) :
    (afterColon r).Gives (':' :: (blanks ++ cs)) result := by
  have hcolon : (sign ':').Takes [':'] () := takes_sign (by decide)
  exact hcolon.andThen (h.blanks hblanks)

/-- What comes of reading the texts of entries one after the other. -/
inductive Reads (entry : σ → Reader σ) : σ → List (List Char) → Except Failure σ → Prop where
  | nil (st : σ) : Reads entry st [] (.ok st)
  | cons {st st' : σ} {cs : List Char} {others : List (List Char)} {result : Except Failure σ} (hcs : Starts cs)
      (h : (entry st).Gives cs (.ok st')) (hothers : Reads entry st' others result) :
      Reads entry st (cs :: others) result
  | stop {st : σ} {cs : List Char} {others : List (List Char)} {e : Failure} (hcs : Starts cs)
      (h : (entry st).Gives cs (.error e)) : Reads entry st (cs :: others) (.error e)

section

variable {entry : σ → Reader σ} {close : Char} {st : σ}

theorem entries_closed {first : Bool} {cs rest : List Char} (h : next close first cs = .ok (.closed rest)) :
    entries close entry first st cs = .ok (st, rest) := by
  rw [entries]
  split <;> next heq => cases h.symm.trans heq <;> rfl

theorem entries_entry {first : Bool} {cs ds : List Char} (h : next close first cs = .ok (.entry ds)) :
    entries close entry first st cs =
      ((entry st).run ds).andThen fun st' rest => entries close entry false st' rest := by
  rw [entries]
  split
  · next heq => cases h.symm.trans heq
  · next heq => cases h.symm.trans heq
  · next heq =>
    cases h.symm.trans heq
    split <;> next hrun => rw [hrun, Read.andThen]

variable {blanks cs rest : List Char}

theorem next_first (hclose : close = ']' ∨ close = '}') (hblanks : blanks.all isBlank = true) (hcs : Starts cs) :
    next close true (blanks ++ (cs ++ rest)) = .ok (.entry (cs ++ rest)) := by
  obtain ⟨c, cs, rfl, hc, hbracket, hbrace⟩ := hcs
  have hne : c ≠ close := by rcases hclose with rfl | rfl <;> assumption
  simp [next, skipBlanks_append hblanks hc, hne]

theorem next_comma {before : List Char} (hclose : close = ']' ∨ close = '}') (hbefore : before.all isBlank = true)
    (hblanks : blanks.all isBlank = true) (hcs : Starts cs) :
    next close false (before ++ ',' :: (blanks ++ (cs ++ rest))) = .ok (.entry (cs ++ rest)) := by
  obtain ⟨c, cs, rfl, hc, hbracket, hbrace⟩ := hcs
  have hne : c ≠ close := by rcases hclose with rfl | rfl <;> assumption
  have hcomma : ',' ≠ close := by rcases hclose with rfl | rfl <;> decide
  simp [next, skipBlanks_append hbefore (by decide : isBlank ',' = false), skipBlanks_append hblanks hc, hne, hcomma]

theorem next_close {first : Bool} (hclose : close = ']' ∨ close = '}') (hblanks : blanks.all isBlank = true) :
    next close first (blanks ++ close :: rest) = .ok (.closed rest) := by
  have hblank : isBlank close = false := by rcases hclose with rfl | rfl <;> decide
  simp [next, skipBlanks_append hblanks hblank]

/-- No number goes on behind blanks and a character that is in no number. -/
theorem ends_append {c : Char} (hblanks : blanks.all isBlank = true) (hc : c ∈ [',', ']', '}']) :
    Ends (blanks ++ c :: rest) := by
  cases blanks with
  | nil =>
    refine ends_of_mem [',', ']', '}'] (by decide) fun d hd => ?_
    cases hd
    exact hc
  | cons d blanks => exact fun e he => ends_of_isBlank hblanks e he

/-- No number goes on behind an entry. -/
theorem ends_of_follow {others : List (List Char)} (h : Follow others cs) (hclose : close = ']' ∨ close = '}')
    (rest : List Char) : Ends (cs ++ close :: rest) := by
  cases h with
  | nil hblanks => exact ends_append hblanks (by rcases hclose with rfl | rfl <;> decide)
  | cons hbefore =>
    rw [List.append_assoc, List.cons_append]
    exact ends_append hbefore (by decide)

/-- Entries behind the first one are read to the closing bracket. -/
theorem entries_of_reads {others : List (List Char)} {result : Except Failure σ} (hclose : close = ']' ∨ close = '}')
    (h : Reads entry st others result) (hcs : Follow others cs) (rest : List Char) :
    entries close entry false st (cs ++ close :: rest) = result.map fun st => (st, rest) := by
  induction h generalizing cs with
  | nil st =>
    cases hcs with
    | nil hblanks => exact entries_closed (next_close hclose hblanks)
  | cons hstarts h _ ih =>
    cases hcs with
    | cons hbefore hbehind hrest =>
      simp only [List.append_assoc, List.cons_append]
      rw [entries_entry (next_comma hclose hbefore hbehind hstarts), h.run (ends_of_follow hrest hclose rest)]
      exact ih hrest
  | stop hstarts h =>
    cases hcs with
    | cons hbefore hbehind hrest =>
      simp only [List.append_assoc, List.cons_append]
      rw [entries_entry (next_comma hclose hbefore hbehind hstarts), h.run (ends_of_follow hrest hclose rest)]
      rfl

/-- What stands between two brackets is read entry by entry. -/
theorem gives_enclosed {opening : Char} {texts : List (List Char)} {result : Except Failure σ}
    (hopening : isBlank opening = false) (hclose : close = ']' ∨ close = '}') (h : Reads entry st texts result)
    (hcs : Enclose opening close texts cs) : (enclosed opening close entry st).Gives cs result := by
  intro blanks rest hblanks _
  have hrun (body : List Char) :
      (enclosed opening close entry st).run (blanks ++ ((opening :: body ++ [close]) ++ rest)) =
        entries close entry true st (body ++ close :: rest) := by
    have hsign := takes_sign hopening blanks (body ++ close :: rest) hblanks
    rw [List.singleton_append] at hsign
    simp only [enclosed, List.cons_append, List.append_assoc, List.nil_append, hsign, Read.andThen]
  cases h with
  | nil =>
    cases hcs with
    | nil hinner =>
      rw [hrun]
      exact entries_closed (next_close hclose hinner)
  | cons hstarts h hothers =>
    cases hcs with
    | cons hinner hrest =>
      rw [hrun, List.append_assoc, List.append_assoc, entries_entry (next_first hclose hinner hstarts),
        h.run (ends_of_follow hrest hclose rest)]
      exact entries_of_reads hclose hothers hrest rest
  | stop hstarts h =>
    cases hcs with
    | cons hinner hrest =>
      rw [hrun, List.append_assoc, List.append_assoc, entries_entry (next_first hclose hinner hstarts),
        h.run (ends_of_follow hrest hclose rest)]
      rfl

end

/-- A first entry that is read or malformed, and others behind it. -/
theorem Reads.cons_accept {entry : σ → Reader σ} {st st' last : σ} {cs : List Char} {others : List (List Char)}
    {p q : Prop} [Decidable p] [Decidable q] (hcs : Starts cs) (h : (entry st).Gives cs (accept p st'))
    (hothers : Reads entry st' others (accept q last)) : Reads entry st (cs :: others) (accept (p ∧ q) last) := by
  by_cases hp : p
  · rw [accept_of hp] at h
    rw [accept_congr (and_iff_right hp)]
    exact .cons hcs h hothers
  · rw [accept, if_neg hp] at h
    rw [accept, if_neg fun hboth => hp hboth.1]
    exact .stop hcs h

/-- Entries that are each read or malformed, and put to what has been read before. -/
theorem reads_of_forall₂ {entry : σ → Reader σ} {put : σ → α → σ} {p : α → Prop} [DecidablePred p] {xs : List α}
    {texts : List (List Char)}
    (h : List.Forall₂ (fun x cs => Starts cs ∧ ∀ st, (entry st).Gives cs (accept (p x) (put st x))) xs texts) (st : σ) :
    Reads entry st texts (accept (∀ x ∈ xs, p x) (xs.foldl put st)) := by
  induction h generalizing st with
  | nil => exact .nil st
  | cons hx _ ih =>
    rw [accept_congr List.forall_mem_cons]
    exact .cons_accept hx.1 (hx.2 st) (ih _)

/-- An array whose items are each read or malformed. -/
theorem gives_array {ι : Type} {item : Reader α} {f : ι → α} {p : ι → Prop} [DecidablePred p] {xs : List ι}
    {texts : List (List Char)} {cs : List Char}
    (h : List.Forall₂ (fun x cs => Starts cs ∧ item.Gives cs (accept (p x) (f x))) xs texts)
    (hcs : Enclose '[' ']' texts cs) : (array item).Gives cs (accept (∀ x ∈ xs, p x) (xs.map f)) := by
  have hreads : Reads (fun items => (· :: items) <$> item) [] texts
      (accept (∀ x ∈ xs, p x) ((xs.map f).foldl (fun items x => x :: items) [])) := by
    rw [List.foldl_map]
    refine reads_of_forall₂ (h.imp fun x cs hx => ⟨hx.1, fun items => ?_⟩) []
    have hitem := hx.2.map (· :: items)
    rwa [accept_map] at hitem
  have hitems := (gives_enclosed (by decide : isBlank '[' = false) (.inl rfl) hreads hcs).map List.reverse
  rwa [accept_map, List.foldl_flip_cons_eq_append', List.append_nil, List.reverse_reverse] at hitems

variable {care : Care} {cs : List Char}

theorem takes_word (first : Char) (others : List Char) (hfirst : isBlank first = false) :
    (word first others).Takes (first :: others) () := by
  intro blanks rest hblanks
  have hexactly : exactly others (others ++ rest) = .ok ((), rest) := by
    induction others with
    | nil => rfl
    | cons c cs ih => simp [exactly, ih]
  have hsign := takes_sign hfirst blanks (others ++ rest) hblanks
  rw [List.singleton_append] at hsign
  simp only [word, List.cons_append, hsign, Read.andThen, hexactly]

theorem takes_string {s : String} (h : Quoted.Encodes care s cs) : (string care).Takes cs s := by
  obtain ⟨inner, hspells, rfl⟩ := h
  intro blanks rest hblanks
  have hquote : isBlank '"' = false := by decide
  have hsign := takes_sign hquote blanks (inner ++ '"' :: rest) hblanks
  rw [List.singleton_append] at hsign
  simp [string, hsign, Read.andThen, Read.withValue, Quoted.read_of_spells hspells]

theorem takes_key {s : String} (h : Quoted.Encodes care s cs) : (key care).Takes cs s := by
  intro blanks rest hblanks
  have hquote : isBlank '"' = false := by decide
  have hstring := takes_string h [] rest rfl
  obtain ⟨inner, -, rfl⟩ := h
  simp only [List.nil_append, List.cons_append] at hstring
  simp only [key, byNext, List.cons_append, skipBlanks_append hblanks hquote, if_true, hstring]

/-- A digit is no blank, and starts nothing but a number. -/
theorem isBlank_of_isDigit {d : Char} (hd : d.isDigit = true) :
    isBlank d = false ∧ d ∉ [']', '}', 'n', 't', 'f', '"'] := by
  have hblanks : d ∉ [' ', '\t', '\n', '\r'] := not_mem_of_isDigit hd (by decide)
  exact ⟨by simpa [isBlank, and_assoc] using hblanks, not_mem_of_isDigit hd (by decide)⟩

theorem exists_digit (n : Nat) : ∃ d ds, Nat.toDigits 10 n = d :: ds ∧ d.isDigit = true := by
  obtain ⟨d, ds, hds⟩ := List.exists_cons_of_ne_nil (@Nat.toDigits_ne_nil n 10)
  exact ⟨d, ds, hds, Nat.isDigit_of_mem_toDigits (by decide) (by decide) (hds ▸ List.mem_cons_self)⟩

theorem gives_number (care : Care) (n : UInt64) :
    (number care).Gives (Nat.toDigits 10 n.toNat) (.ok (.natural n)) := by
  intro blanks rest hblanks hrest
  obtain ⟨d, ds, hds, hd⟩ := exists_digit n.toNat
  have hread := Numeral.read_toDigits care n hrest
  rw [hds, List.cons_append] at hread
  simp only [number, hds, List.cons_append, skipBlanks_append hblanks (isBlank_of_isDigit hd).1, hread]
  rfl

/-- A scalar is read as what it is, by the reader for scalars that start with its first character. -/
theorem exists_scalar? {j : Json} (hdepth : j.depth = 0) (hcs : j.SpelledBy care cs) :
    ∃ c tail r, cs = c :: tail ∧ Starts (c :: tail) ∧ scalar? care c = some r ∧ r.Gives (c :: tail) (.ok j) := by
  cases j with
  | null =>
    have hword := (takes_word 'n' ['u', 'l', 'l'] (by decide)).gives.map fun _ => Json.null
    exact ⟨_, _, _, hcs, ⟨_, _, rfl, by decide⟩, rfl, hword⟩
  | bool b =>
    cases b with
    | false =>
      have hword := (takes_word 'f' ['a', 'l', 's', 'e'] (by decide)).gives.map fun _ => Json.bool false
      exact ⟨_, _, _, hcs, ⟨_, _, rfl, by decide⟩, rfl, hword⟩
    | true =>
      have hword := (takes_word 't' ['r', 'u', 'e'] (by decide)).gives.map fun _ => Json.bool true
      exact ⟨_, _, _, hcs, ⟨_, _, rfl, by decide⟩, rfl, hword⟩
  | natural n =>
    obtain ⟨d, ds, hds, hd⟩ := exists_digit n.toNat
    obtain ⟨hblank, hothers⟩ := isBlank_of_isDigit hd
    simp only [List.mem_cons, not_or] at hothers
    have hnumber := gives_number care n
    rw [hds] at hnumber
    have hscalar : scalar? care d = some (number care) := by simp [scalar?, hothers, hd]
    exact ⟨d, ds, number care, hcs.trans hds, ⟨d, ds, rfl, hblank, by simp [hothers]⟩, hscalar, hnumber⟩
  | string s =>
    have hstring := (takes_string hcs).gives.map Json.string
    obtain ⟨inner, -, rfl⟩ := hcs
    exact ⟨_, _, _, rfl, ⟨_, _, rfl, by decide⟩, rfl, hstring⟩
  | numeral n => cases hcs
  | array items => cases hdepth
  | object members => cases hdepth

/-- What can be made of a scalar is read. -/
theorem gives_fitting {f : Json → Option α} {j : Json} {a : α} (hdepth : j.depth = 0) (hf : f j = some a)
    (hcs : j.SpelledBy .kept cs) : (fitting f).Gives cs (.ok a) := by
  obtain ⟨c, tail, r, rfl, ⟨_, _, hcons, hblank, -⟩, hscalar, hr⟩ := exists_scalar? hdepth hcs
  cases hcons
  refine gives_byNext hblank ?_
  simp only [hscalar]
  exact hr.fit hf

theorem gives_text {s : String} (hcs : (Json.string s).SpelledBy .kept cs) : text.Gives cs (.ok s) :=
  gives_fitting (f := text?) rfl rfl hcs

theorem gives_natural {n : UInt64} (hcs : (Json.natural n).SpelledBy .kept cs) : natural.Gives cs (.ok n) :=
  gives_fitting (f := natural?) rfl rfl hcs

theorem gives_name {ofText? : String → Option α} {s : String} {a : α} (h : ofText? s = some a)
    (hcs : (Json.string s).SpelledBy .kept cs) : (name ofText?).Gives cs (.ok a) :=
  gives_fitting (j := .string s) rfl h hcs

theorem gives_choice {ofText? : String → Option α} {s : String} {a : α} (h : ofText? s = some a)
    (hcs : (Json.string s).SpelledBy .kept cs) : (choice ofText?).Gives cs (.ok a) := by
  have hname := gives_name h hcs
  obtain ⟨inner, -, rfl⟩ := hcs
  exact gives_byNext (by decide) hname

/-- What stands between two brackets is read by what its opening bracket calls for. -/
theorem gives_byNext_enclose {choose : Char → Reader α} {opening close : Char} {result : Except Failure α}
    {texts : List (List Char)} (hopening : isBlank opening = false) (hcs : Enclose opening close texts cs)
    (h : (choose opening).Gives cs result) : (byNext choose).Gives cs result := by
  obtain ⟨inner, rfl, -⟩ := hcs.exists_inner
  exact gives_byNext hopening h

/-- Every text of a value starts with a character that is no blank and closes nothing. -/
theorem starts_of_spelledBy {j : Json} (hcs : j.SpelledBy care cs) : Starts cs := by
  have hscalar (hdepth : j.depth = 0) : Starts cs := by
    obtain ⟨c, tail, r, rfl, hstarts, -⟩ := exists_scalar? hdepth hcs
    exact hstarts
  cases j with
  | array items =>
    obtain ⟨texts, -, hcs⟩ := hcs
    obtain ⟨inner, rfl, -⟩ := hcs.exists_inner
    exact ⟨'[', _, rfl, by decide⟩
  | object members =>
    obtain ⟨texts, -, hcs⟩ := hcs
    obtain ⟨inner, rfl, -⟩ := hcs.exists_inner
    exact ⟨'{', _, rfl, by decide⟩
  | null | bool b | natural n | numeral n | string s => exact hscalar rfl

/-- A scalar is read as what it is, at any depth. -/
theorem gives_anything_scalar {j : Json} (hdepth : j.depth = 0) (limit : Nat) (hcs : j.SpelledBy care cs) :
    (anything care limit).Gives cs (accept (j.depth ≤ limit) j) := by
  obtain ⟨c, tail, r, rfl, ⟨_, _, hcons, hblank, -⟩, hscalar, hr⟩ := exists_scalar? hdepth hcs
  cases hcons
  have hvalue (inner : Option (Reader Json)) : (value care inner).Gives (c :: tail) (.ok j) := by
    refine gives_byNext hblank ?_
    cases inner <;> simpa only [hscalar] using hr
  rw [accept_of (by omega)]
  cases limit <;> exact hvalue _

/-- The text of a member starts with its key. -/
theorem starts_of_memberSpelledBy {m : String × Json} (hcs : MemberSpelledBy care m cs) : Starts cs := by
  obtain ⟨before, behind, ks, vs, -, -, ⟨inner, -, rfl⟩, -, rfl⟩ := hcs
  exact ⟨'"', _, rfl, by decide⟩

/-- A key is read, and then the value behind its colon. -/
theorem gives_member {key : String} {texts : List Char → Prop} {next : String → Reader β} {r : Reader α} {f : α → β}
    {result : Except Failure α} (hnext : next key = (afterColon r).map f) (hr : ∀ vs, texts vs → r.Gives vs result)
    (hcs : Joins care key texts cs) : ((Reader.key care).andThen next).Gives cs (result.map f) := by
  obtain ⟨before, behind, ks, vs, hbefore, hbehind, hks, hvs, rfl⟩ := hcs
  have hvalue := ((gives_afterColon hbehind (hr vs hvs)).blanks hbefore).map f
  rw [← hnext] at hvalue
  exact (takes_key hks).andThen hvalue

/-- Members whose values are each read if they are not too deep, and put with their keys to what has been read
before. -/
theorem reads_members (member : σ → String → Reader σ) (put : σ → String × Json → σ) {inner : Reader Json} {limit : Nat}
    {members : List (String × Json)} {texts : List (List Char)}
    (hmember : ∀ m ∈ members, ∀ st, member st m.1 = (afterColon inner).map fun v => put st (m.1, v))
    (hinner : ∀ m ∈ members, ∀ vs, m.2.SpelledBy care vs → inner.Gives vs (accept (m.2.depth ≤ limit) m.2))
    (htexts : List.Forall₂ (MemberSpelledBy care) members texts) (st : σ) :
    Reads (fun st => (key care).andThen (member st)) st texts
      (accept (memberDepths members ≤ limit) (members.foldl put st)) := by
  rw [accept_congr memberDepths_le_iff]
  refine reads_of_forall₂ ?_ st
  have hall := (List.forall₂_and_left _ _).mpr ⟨fun m hm => And.intro (hmember m hm) (hinner m hm), htexts⟩
  refine hall.imp fun m cs ⟨⟨hmember, hinner⟩, hcs⟩ => ⟨starts_of_memberSpelledBy hcs, fun st => ?_⟩
  have hgives := gives_member (hmember st) hinner hcs
  rwa [accept_map] at hgives

mutual

/-- A value is read from each of its texts, if it is not too deep. -/
theorem gives_anything : ∀ (j : Json) (limit : Nat) {cs : List Char}, j.SpelledBy care cs →
    (anything care limit).Gives cs (accept (j.depth ≤ limit) j)
  | .array items, limit, _, hcs => by
    obtain ⟨texts, htexts, hcs⟩ := hcs
    cases limit with
    | zero => exact gives_byNext_enclose (by decide) hcs (gives_fail _)
    | succ limit =>
      have hitems := gives_array (f := id) (gives_anything_items items limit htexts) hcs
      rw [List.map_id, accept_congr depths_le_iff.symm] at hitems
      have harray := hitems.map Json.array
      rw [accept_map, accept_congr Nat.succ_le_succ_iff.symm] at harray
      exact gives_byNext_enclose (by decide) hcs harray
  | .object members, limit, _, hcs => by
    obtain ⟨texts, htexts, hcs⟩ := hcs
    cases limit with
    | zero => exact gives_byNext_enclose (by decide) hcs (gives_fail _)
    | succ limit =>
      have hreads := reads_members
        (fun members key => (fun v => (key, v) :: members) <$> afterColon (anything care limit))
        (fun members m => m :: members) (fun _ _ _ => rfl)
        (gives_anything_members members limit) (membersSpelledBy_iff.mp htexts) []
      have hmembers := (gives_enclosed (by decide : isBlank '{' = false) (.inr rfl) hreads hcs).map
        fun members => Json.object members.reverse
      rw [accept_map, List.foldl_flip_cons_eq_append', List.append_nil, List.reverse_reverse,
        accept_congr Nat.succ_le_succ_iff.symm] at hmembers
      exact gives_byNext_enclose (by decide) hcs hmembers
  | .null, limit, _, hcs => gives_anything_scalar rfl limit hcs
  | .bool _, limit, _, hcs => gives_anything_scalar rfl limit hcs
  | .natural _, limit, _, hcs => gives_anything_scalar rfl limit hcs
  | .numeral _, limit, _, hcs => gives_anything_scalar rfl limit hcs
  | .string _, limit, _, hcs => gives_anything_scalar rfl limit hcs

theorem gives_anything_items : ∀ (items : List Json) (limit : Nat) {texts : List (List Char)},
    ItemsSpelledBy care items texts →
      List.Forall₂ (fun item cs => Starts cs ∧ (anything care limit).Gives cs (accept (item.depth ≤ limit) item))
        items texts
  | [], _, _, h => by
    cases h
    exact .nil
  | item :: rest, limit, _, h => by
    obtain ⟨cs, others, hcs, hothers, rfl⟩ := h
    exact .cons ⟨starts_of_spelledBy hcs, gives_anything item limit hcs⟩ (gives_anything_items rest limit hothers)

theorem gives_anything_members : ∀ (members : List (String × Json)) (limit : Nat), ∀ m ∈ members, ∀ vs,
    m.2.SpelledBy care vs → (anything care limit).Gives vs (accept (m.2.depth ≤ limit) m.2)
  | [], _ => by simp
  | (_, value) :: rest, limit =>
    List.forall_mem_cons.mpr ⟨fun _ hvs => gives_anything value limit hvs, gives_anything_members rest limit⟩

end

/-- A value is passed over, however deep it is. -/
theorem gives_skip {j : Json} (hcs : j.SpelledBy .kept cs) : skip.Gives cs (.ok ()) := by
  -- Where surrogates need no partner the same text may be that of another value, but it is passed over as a whole.
  obtain ⟨j', hj'⟩ := hcs.exists_skipped
  intro blanks rest hblanks hrest
  have hdepth : j'.depth ≤ (blanks ++ (cs ++ rest)).length := by
    have hle := hj'.depth_le
    simp only [List.length_append]
    omega
  have hread := gives_anything j' (blanks ++ (cs ++ rest)).length hj' blanks rest hblanks hrest
  rw [accept_of hdepth] at hread
  simp only [skip, hread, Except.map, Read.withValue, Read.andThen]

/-- A list whose items are each read or malformed. -/
theorem gives_list {ι : Type} {item : Reader α} {f : ι → α} {p : ι → Prop} [DecidablePred p] {xs : List ι}
    {texts : List (List Char)}
    (h : List.Forall₂ (fun x cs => Starts cs ∧ item.Gives cs (accept (p x) (f x))) xs texts)
    (hcs : Enclose '[' ']' texts cs) : (list item).Gives cs (accept (∀ x ∈ xs, p x) (xs.map f)) :=
  gives_byNext_enclose (by decide) hcs (gives_array h hcs)

/-- A whole text of a value is read as what its reader gives for each of its texts. -/
theorem whole_of_hasText {r : Reader α} {j : Json} {text : String} {result : Except Failure α}
    (h : ∀ cs, j.SpelledBy .kept cs → r.Gives cs result) (htext : j.HasText text) : r.whole text = result := by
  obtain ⟨before, cs, after, hbefore, hafter, hcs, rfl⟩ := htext
  have hskip : skipBlanks after = [] := by
    have hdrop := Token.dropWhile_append hafter (by simp : ∀ c ∈ [].head?, isBlank c = false)
    rwa [List.append_nil] at hdrop
  rw [Reader.whole, String.toList_ofList, ((h cs hcs).blanks hbefore).run (ends_of_isBlank hafter)]
  cases result with
  | ok a => simp [Except.map, hskip]
  | error e => rfl

end Reader

end SegmentQuery.Json
