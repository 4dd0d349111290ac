import SegmentQuery.Json.Numeral
import SegmentQuery.Json.Quoted

namespace SegmentQuery.Json

/-- The blanks of JSON: space, tab, line feed and carriage return. -/
def isBlank (c : Char) : Bool := c = ' ' || c = '\t' || c = '\n' || c = '\r'

def skipBlanks (cs : List Char) : List Char := cs.dropWhile isBlank

theorem length_skipBlanks_le (cs : List Char) : (skipBlanks cs).length ≤ cs.length :=
  (List.dropWhile_suffix isBlank).length_le

/-- A reader of values of type `α`. It takes something off the front of a text and never leaves all of it, so whatever
reads one thing after another comes to an end. -/
structure Reader (α : Type) where
  run : List Char → Read α
  shortens : ∀ {cs rest a}, run cs = .ok (a, rest) → rest.length < cs.length

namespace Reader

variable {α β σ : Type}

theorem within (r : Reader α) (cs : List Char) : (r.run cs).Within cs.length :=
  fun _ _ h => Nat.le_of_lt (r.shortens h)

/-- Refuses every text. -/
def fail (e : Failure) : Reader α := ⟨fun _ => .error e, fun h => nomatch h⟩

/-- Decides by the next character, which stays where it is, what to read. -/
def byNext (choose : Char → Reader α) : Reader α where
  run cs :=
    match skipBlanks cs with
    | [] => .error .cutShort
    | c :: rest => (choose c).run (c :: rest)
  shortens {cs _ _} h := by
    have hle := length_skipBlanks_le cs
    split at h
    · cases h
    · next c rest heq =>
      rw [heq] at hle
      exact Nat.lt_of_lt_of_le ((choose c).shortens h) hle

/-- Takes the next character, if it is the given one. -/
def sign (c : Char) : Reader Unit where
  run cs :=
    match skipBlanks cs with
    | [] => .error .cutShort
    | d :: rest => if d = c then .ok ((), rest) else .error .malformed
  shortens {cs _ _} h := by
    have hle := length_skipBlanks_le cs
    split at h
    · cases h
    · next d rest heq =>
      rw [heq, List.length_cons] at hle
      split at h <;> cases h
      exact hle

/-- Reads one thing, and then another that depends on it. -/
def andThen (r : Reader α) (next : α → Reader β) : Reader β where
  run cs := (r.run cs).andThen fun a rest => (next a).run rest
  shortens {cs _ _} h := by
    unfold Read.andThen at h
    split at h
    · cases h
    · next heq =>
      have h₁ := r.shortens heq
      have h₂ := (next _).shortens h
      omega

/-- Makes something of what is read, or refuses it. -/
def fit (r : Reader α) (f : α → Option β) : Reader β where
  run cs := (r.run cs).andThen fun a rest =>
    match f a with
    | some b => .ok (b, rest)
    | none => .error .unfit
  shortens {cs _ _} h := by
    unfold Read.andThen at h
    split at h
    · cases h
    · next heq =>
      have := r.shortens heq
      dsimp only at h
      split at h <;> cases h
      exact this

/-- Makes something of what is read. -/
def map (f : α → β) (r : Reader α) : Reader β := r.fit fun a => some (f a)

instance : Functor Reader := ⟨map, fun b r => map (fun _ => b) r⟩

/-- Takes the given characters, one after the other. -/
def exactly : List Char → List Char → Read Unit
  | [], cs => .ok ((), cs)
  | _ :: _, [] => .error .cutShort
  | w :: ws, c :: cs => if c = w then exactly ws cs else .error .malformed

theorem within_exactly (ws cs : List Char) : (exactly ws cs).Within cs.length := by
  fun_induction exactly ws cs with
  | case1 => exact .ok (Nat.le_refl _)
  | case2 => exact .error _
  | case3 _ _ _ ih => exact ih.mono (by simp)
  | case4 => exact .error _

/-- Reads a word that starts with `first`. -/
def word (first : Char) (others : List Char) : Reader Unit where
  run cs := ((sign first).run cs).andThen fun _ rest => exactly others rest
  shortens {cs _ _} h := by
    unfold Read.andThen at h
    split at h
    · cases h
    · next heq =>
      have h₁ := (sign first).shortens heq
      have h₂ := within_exactly _ _ _ _ h
      omega

/-- Reads a string. -/
def string (care : Care) : Reader String where
  run cs := ((sign '"').run cs).andThen fun _ rest => (Quoted.read care rest).withValue String.ofList
  shortens {cs _ _} h := by
    unfold Read.andThen at h
    split at h
    · cases h
    · next heq =>
      have h₁ := (sign '"').shortens heq
      have h₂ := (Quoted.within_read care _).withValue _ _ h
      omega

/-- Reads a number. -/
def number (care : Care) : Reader Json where
  run cs := Numeral.read care (skipBlanks cs)
  shortens {cs _ _} h := Nat.lt_of_lt_of_le (Numeral.length_lt_of_read h) (length_skipBlanks_le cs)

/-- What comes next between two brackets. -/
inductive Next where
  /-- The closing bracket, with what follows it. -/
  | closed (rest : List Char)
  /-- An entry, at the front of a text. -/
  | entry (cs : List Char)

/-- Looks for the next entry, or the closing bracket. There is a comma before every entry but the first, and none
before the bracket. -/
def next (close : Char) (first : Bool) (cs : List Char) : Except Failure Next :=
  match skipBlanks cs with
  | [] => .error .cutShort
  | c :: rest =>
    if c = close then .ok (.closed rest)
    else if first then .ok (.entry (c :: rest))
    else if c = ',' then
      match skipBlanks rest with
      | [] => .error .cutShort
      | d :: rest => if d = close then .error .malformed else .ok (.entry (d :: rest))
    else .error .malformed

theorem length_lt_of_next_closed {close : Char} {first : Bool} {cs rest : List Char}
    (h : next close first cs = .ok (.closed rest)) : rest.length < cs.length := by
  have hle := length_skipBlanks_le cs
  unfold next at h
  split at h
  · cases h
  · next heq =>
    rw [heq, List.length_cons] at hle
    split at h
    · cases h
      omega
    · split at h
      · cases h
      · split at h
        · split at h
          · cases h
          · split at h <;> cases h
        · cases h

theorem length_le_of_next_entry {close : Char} {first : Bool} {cs rest : List Char}
    (h : next close first cs = .ok (.entry rest)) : rest.length ≤ cs.length := by
  have hle := length_skipBlanks_le cs
  unfold next at h
  split at h
  · cases h
  · next c cs' heq =>
    rw [heq, List.length_cons] at hle
    split at h
    · cases h
    · split at h
      · cases h
        simpa using hle
      · split at h
        · have hle' := length_skipBlanks_le cs'
          split at h
          · cases h
          · next d rest' heq' =>
            rw [heq', List.length_cons] at hle'
            split at h <;> cases h
            simp only [List.length_cons]
            omega
        · cases h

/-- Reads entries to the closing bracket. What has been read so far decides how an entry is read. -/
def entries (close : Char) (entry : σ → Reader σ) (first : Bool) (st : σ) (cs : List Char) : Read σ :=
  match _h : next close first cs with
  | .error e => .error e
  | .ok (.closed rest) => .ok (st, rest)
  | .ok (.entry cs') =>
    match _h' : (entry st).run cs' with
    | .error e => .error e
    | .ok (st', rest) => entries close entry false st' rest
termination_by cs.length
decreasing_by
  have := length_le_of_next_entry _h
  have := (entry st).shortens _h'
  omega

theorem within_entries (close : Char) (entry : σ → Reader σ) (first : Bool) (st : σ) (cs : List Char) :
    (entries close entry first st cs).Within cs.length := by
  fun_induction entries close entry first st cs with
  | case1 => exact .error _
  | case2 _ _ _ _ h => exact .ok (Nat.le_of_lt (length_lt_of_next_closed h))
  | case3 => exact .error _
  | case4 _ st _ _ h _ _ h' ih =>
    have := length_le_of_next_entry h
    have := (entry st).shortens h'
    exact ih.mono (by omega)

/-- Reads what stands between two brackets. -/
def enclosed (opening close : Char) (entry : σ → Reader σ) (init : σ) : Reader σ where
  run cs := ((sign opening).run cs).andThen fun _ rest => entries close entry true init rest
  shortens {cs _ _} h := by
    unfold Read.andThen at h
    split at h
    · cases h
    · next heq =>
      have h₁ := (sign opening).shortens heq
      have h₂ := within_entries _ _ _ _ _ _ _ h
      omega

/-- Reads the items of an array. -/
def array (item : Reader α) : Reader (List α) :=
  List.reverse <$> enclosed '[' ']' (fun items => (· :: items) <$> item) []

/-- Reads the key of a member. -/
def key (care : Care) : Reader String := byNext fun c => if c = '"' then string care else fail .malformed

/-- Reads the value of a member, after its key. -/
def afterColon (r : Reader α) : Reader α := (sign ':').andThen fun _ => r

/-- Reads the members of an object. A key decides how the rest of its member is read. -/
def object (care : Care) (member : σ → String → Reader σ) (init : σ) : Reader σ :=
  enclosed '{' '}' (fun st => (key care).andThen (member st)) init

/-- Reads items of different kinds in their order, to the closing bracket. The last ones may be missing, but there is
nothing after them. -/
def itemsInOrder : List (σ → Reader σ) → Bool → σ → List Char → Read σ
  | [], _, st, cs => (sign ']').run cs |>.withValue fun _ => st
  | item :: others, first, st, cs =>
    match next ']' first cs with
    | .error e => .error e
    | .ok (.closed rest) => .ok (st, rest)
    | .ok (.entry cs) => ((item st).run cs).andThen fun st rest => itemsInOrder others false st rest

theorem within_itemsInOrder (items : List (σ → Reader σ)) (first : Bool) (st : σ) (cs : List Char) :
    (itemsInOrder items first st cs).Within cs.length := by
  induction items generalizing first st cs with
  | nil => exact ((sign ']').within cs).withValue
  | cons item others ih =>
    unfold itemsInOrder
    split
    · exact .error _
    · next h => exact .ok (Nat.le_of_lt (length_lt_of_next_closed h))
    · next h =>
      have := length_le_of_next_entry h
      exact (((item st).within _).mono this).andThen fun _ rest hle => (ih false _ rest).mono hle

/-- Reads an array of items of different kinds. -/
def tuple (items : List (σ → Reader σ)) (init : σ) : Reader σ where
  run cs := ((sign '[').run cs).andThen fun _ rest => itemsInOrder items true init rest
  shortens {cs _ _} h := by
    unfold Read.andThen at h
    split at h
    · cases h
    · next heq =>
      have h₁ := (sign '[').shortens heq
      have h₂ := within_itemsInOrder _ _ _ _ _ _ h
      omega

end Reader

end SegmentQuery.Json
