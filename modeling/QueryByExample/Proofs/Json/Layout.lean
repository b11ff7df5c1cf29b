/-
Texts of values in any layout, and how they are read.

Both styles of writing are layouts: they differ in the spaces between tokens
alone (`spell_dense`, `spell_indented`). A text without numbers is read back
as the value that it was written from if the value nests no deeper than the
reader goes, and is refused if it nests deeper (`readsBack`).
-/
import QueryByExample.Json.Writer
import QueryByExample.Proofs.Json.Nesting

namespace QueryByExample.Json

/-- Where spaces stand: before an item and before a closing bracket, by the
level of the line, and after a colon. -/
structure Layout where
  gap : Nat → List Char
  afterColon : List Char
  gap_isSpace (level : Nat) : (gap level).all isSpace = true
  afterColon_isSpace : afterColon.all isSpace = true

namespace Layout

def dense : Layout := ⟨fun _ => [], [], fun _ => rfl, rfl⟩

def indented : Layout where
  gap := newLine
  afterColon := [' ']
  gap_isSpace level := by
    have hspace : isSpace ' ' = true := rfl
    simp only [newLine, List.all_cons, List.all_replicate, hspace]
    simp [isSpace]
  afterColon_isSpace := rfl

end Layout

mutual

/-- A value in a layout; everything but lists is written one way. -/
def spell (l : Layout) (level : Nat) : Json → List Char
  | .array (item :: rest) =>
    '[' :: l.gap (level + 1) ++ item.spell l (level + 1) ++ spellItems l level rest
  | .object ((key, value) :: rest) =>
    '\x7b' :: l.gap (level + 1) ++ (quote key ++ ':' :: l.afterColon ++ value.spell l (level + 1))
      ++ spellMembers l level rest
  | value => value.compact

def spellItems (l : Layout) (level : Nat) : List Json → List Char
  | [] => l.gap level ++ [']']
  | item :: rest => ',' :: l.gap (level + 1) ++ item.spell l (level + 1) ++ spellItems l level rest

def spellMembers (l : Layout) (level : Nat) : List (String × Json) → List Char
  | [] => l.gap level ++ ['\x7d']
  | (key, value) :: rest =>
    ',' :: l.gap (level + 1) ++ (quote key ++ ':' :: l.afterColon ++ value.spell l (level + 1))
      ++ spellMembers l level rest

end

/-! ## The two styles -/

mutual

theorem spell_dense (level : Nat) : (v : Json) → v.spell .dense level = v.compact
  | .array [] | .object [] | .null | .bool _ | .int _ | .double _ | .string _ => by simp only [spell]
  | .array (item :: rest) => by
    rw [spell, compact, spell_dense (level + 1) item, spellItems_dense level rest]
    rfl
  | .object ((key, value) :: rest) => by
    rw [spell, compact, spell_dense (level + 1) value, spellMembers_dense level rest]
    simp [Layout.dense]

theorem spellItems_dense (level : Nat) : (items : List Json) → spellItems .dense level items = compactItems items
  | [] => rfl
  | item :: rest => by
    rw [spellItems, compactItems, spell_dense (level + 1) item, spellItems_dense level rest]
    rfl

theorem spellMembers_dense (level : Nat) :
    (members : List (String × Json)) → spellMembers .dense level members = compactMembers members
  | [] => rfl
  | (key, value) :: rest => by
    rw [spellMembers, compactMembers, spell_dense (level + 1) value, spellMembers_dense level rest]
    simp [Layout.dense]

end

mutual

theorem spell_indented (level : Nat) : (v : Json) → v.spell .indented level = v.pretty level
  | .array [] | .object [] | .null | .bool _ | .int _ | .double _ | .string _ => by simp only [spell, pretty]
  | .array (item :: rest) => by
    rw [spell, pretty, spell_indented (level + 1) item, spellItems_indented level rest]
    rfl
  | .object ((key, value) :: rest) => by
    rw [spell, pretty, spell_indented (level + 1) value, spellMembers_indented level rest]
    simp [Layout.indented]

theorem spellItems_indented (level : Nat) :
    (items : List Json) → spellItems .indented level items = prettyItems level items
  | [] => rfl
  | item :: rest => by
    rw [spellItems, prettyItems, spell_indented (level + 1) item, spellItems_indented level rest]
    rfl

theorem spellMembers_indented (level : Nat) :
    (members : List (String × Json)) → spellMembers .indented level members = prettyMembers level members
  | [] => rfl
  | (key, value) :: rest => by
    rw [spellMembers, prettyMembers, spell_indented (level + 1) value, spellMembers_indented level rest]
    simp [Layout.indented]

end

/-! ## Spaces and strings -/

theorem skipSpaces_append {space : List Char} (h : space.all isSpace = true) (cs : List Char) :
    skipSpaces (space ++ cs) = skipSpaces cs :=
  List.dropWhile_append_of_pos (List.all_eq_true.1 h)

theorem skipSpaces_cons {c : Char} (h : isSpace c = false) (cs : List Char) : skipSpaces (c :: cs) = c :: cs :=
  List.dropWhile_cons_of_neg (by simp [h])

/-- A character that stands for itself. -/
theorem stringBody?_cons {c : Char} (hquote : c ≠ '"') (hslash : c ≠ '\\') (hcontrol : ¬ c < ' ')
    (cs : List Char) : stringBody? (c :: cs) = (stringBody? cs).map fun (body, rest) => (c :: body, rest) := by
  rw [stringBody?]
  · rw [if_neg (by simp [hslash, hcontrol])]
    cases stringBody? cs <;> rfl
  all_goals simp [hquote, hslash]

/-- A character by its letter after a backslash. -/
theorem stringBody?_letter {letter c : Char} (h : escaped? letter = some c) (cs : List Char) :
    stringBody? ('\\' :: letter :: cs) = (stringBody? cs).map fun (body, rest) => (c :: body, rest) := by
  have hu : letter ≠ 'u' := fun heq => by
    rw [heq] at h
    cases h
  rw [stringBody?]
  · rw [h, Option.bind_eq_bind, Option.bind_some]
    cases stringBody? cs <;> rfl
  · intro _ _ _ _ _ heq
    exact absurd heq hu

theorem codeUnit?_digitChar {n : Nat} (h : n < 32) :
    codeUnit? '0' '0' (n / 16).digitChar (n % 16).digitChar = some n := by
  have hzero : hexValue? '0' = some 0 := rfl
  rw [codeUnit?, hzero, hexValue?_digitChar (n / 16) (by omega), hexValue?_digitChar (n % 16) (by omega)]
  simp only [Option.bind_eq_bind, Option.bind_some, Option.pure_def, Option.some.injEq]
  omega

/-- A control character by its code. -/
theorem stringBody?_code {c : Char} (h : c < ' ') (cs : List Char) :
    stringBody? ('\\' :: 'u' :: '0' :: '0' :: (c.toNat / 16).digitChar :: (c.toNat % 16).digitChar :: cs) =
      (stringBody? cs).map fun (body, rest) => (c :: body, rest) := by
  have hlt : c.toNat < 32 := h
  have hhigh : isHighSurrogate c.toNat = false := by simp [isHighSurrogate]; omega
  have hlow : isLowSurrogate c.toNat = false := by simp [isLowSurrogate]; omega
  rw [stringBody?, codeUnit?_digitChar hlt]
  simp only [Option.bind_eq_bind, Option.bind_some, hhigh, hlow, Bool.false_eq_true, if_false, Char.ofNat_toNat]
  cases stringBody? cs <;> rfl

theorem stringBody?_escape (c : Char) (cs : List Char) :
    stringBody? (escape c ++ cs) = (stringBody? cs).map fun (body, rest) => (c :: body, rest) := by
  by_cases hletter : c ∈ ['"', '\\', '\x08', '\x0c', '\n', '\r', '\t']
  · simp only [List.mem_cons, List.not_mem_nil, or_false] at hletter
    rcases hletter with rfl | rfl | rfl | rfl | rfl | rfl | rfl <;> exact stringBody?_letter rfl cs
  · simp only [List.mem_cons, List.not_mem_nil, or_false, not_or] at hletter
    by_cases hcontrol : c < ' '
    · simpa [escape, hletter, hcontrol] using stringBody?_code hcontrol cs
    · simpa [escape, hletter, hcontrol] using stringBody?_cons hletter.1 hletter.2.1 hcontrol cs

theorem stringBody?_quote (s : String) (rest : List Char) :
    stringBody? (s.toList.flatMap escape ++ '"' :: rest) = some (s.toList, rest) := by
  induction s.toList with
  | nil => simp [stringBody?]
  | cons c cs ih => rw [List.flatMap_cons, List.append_assoc, stringBody?_escape, ih]; rfl

/-! ## Lists -/

section Items
variable {α : Type} {item : Reader α} {close : Char} {text : α → List Char} {fits : α → Bool}
  {gap last : List Char} {xs : List α}

/-- Items behind commas, and the closing bracket. -/
def listed (gap last : List Char) (close : Char) (text : α → List Char) (xs : List α) : List Char :=
  xs.flatMap (fun x => ',' :: gap ++ text x) ++ last ++ [close]

theorem length_le_listed : xs.length ≤ (listed gap last close text xs).length := by
  induction xs with
  | nil => exact Nat.zero_le _
  | cons x xs ih =>
    simp only [listed, List.flatMap_cons, List.length_append, List.length_cons] at ih ⊢
    omega

/-- How a reader of items goes about those of a list: it passes over spaces,
and reads the items that fit and no others. -/
structure ReadsItems (item : Reader α) (close : Char) (text : α → List Char) (fits : α → Bool) (xs : List α) :
    Prop where
  spaces {space : List Char} (h : space.all isSpace = true) (cs : List Char) : item (space ++ cs) = item cs
  starts {x : α} (hx : x ∈ xs) : ∃ c t, text x = c :: t ∧ isSpace c = false ∧ c ≠ close
  read {x : α} (hx : x ∈ xs) (rest : List Char) : item (text x ++ rest) = if fits x then some (x, rest) else none

theorem ReadsItems.tail {x : α} (h : ReadsItems item close text fits (x :: xs)) : ReadsItems item close text fits xs :=
  ⟨h.spaces, fun hx => h.starts (List.mem_cons_of_mem _ hx), fun hx => h.read (List.mem_cons_of_mem _ hx)⟩

/-- Of a list, the first item and the others have to fit. -/
theorem bind_items?_eq (more : Reader (List α)) {x : α} {cs rest : List Char}
    (h : more cs = if xs.all fits then some (xs, rest) else none) :
    ((if fits x then some (x, cs) else none) >>= fun first : α × List Char =>
        more first.2 >>= fun others : List α × List Char => pure (first.1 :: others.1, others.2)) =
      if fits x && xs.all fits then some (x :: xs, rest) else none := by
  cases hx : fits x with
  | false => rfl
  | true =>
    simp only [if_true, Option.bind_eq_bind, Option.bind_some, h, Bool.true_and]
    cases xs.all fits <;> rfl

variable (hgap : gap.all isSpace = true) (hlast : last.all isSpace = true) (hclose : isSpace close = false)
include hgap hlast hclose

theorem moreItems?_listed (hcomma : close ≠ ',') (h : ReadsItems item close text fits xs) (rounds : Nat)
    (hrounds : xs.length < rounds) (rest : List Char) :
    moreItems? item close rounds (listed gap last close text xs ++ rest) =
      if xs.all fits then some (xs, rest) else none := by
  induction xs generalizing rounds with
  | nil =>
    obtain ⟨rounds, rfl⟩ : ∃ n, rounds = n + 1 := ⟨rounds - 1, by omega⟩
    simp only [listed, List.flatMap_nil, List.nil_append, List.append_assoc, List.cons_append, moreItems?,
      skipSpaces_append hlast, skipSpaces_cons hclose, if_true, List.all_nil]
  | cons x xs ih =>
    obtain ⟨rounds, rfl⟩ : ∃ n, rounds = n + 1 := ⟨rounds - 1, by omega⟩
    have hspace : isSpace ',' = false := rfl
    have hrest := ih h.tail rounds (by simpa using hrounds)
    have hitem := h.read List.mem_cons_self (listed gap last close text xs ++ rest)
    simp only [listed, List.append_assoc, List.cons_append, List.nil_append] at hrest hitem
    simp only [listed, List.flatMap_cons, List.append_assoc, List.cons_append, List.nil_append, moreItems?,
      skipSpaces_cons hspace, hcomma.symm, if_true, if_false, h.spaces hgap, hitem, List.all_cons]
    exact bind_items?_eq (moreItems? item close rounds) hrest

theorem items?_listed (hcomma : close ≠ ',') {x : α} (h : ReadsItems item close text fits (x :: xs))
    (rest : List Char) : items? item close (gap ++ text x ++ listed gap last close text xs ++ rest) =
      if (x :: xs).all fits then some (x :: xs, rest) else none := by
  obtain ⟨c, t, htext, hspace, hne⟩ := h.starts List.mem_cons_self
  have hitem := h.read List.mem_cons_self (listed gap last close text xs ++ rest)
  have hlength : xs.length ≤ (listed gap last close text xs).length := length_le_listed
  have hrounds : xs.length < (listed gap last close text xs ++ rest).length + 1 := by
    rw [List.length_append]
    omega
  have hmore := moreItems?_listed hgap hlast hclose hcomma h.tail _ hrounds rest
  rw [htext, List.cons_append] at hitem
  simp only [items?, htext, List.append_assoc, skipSpaces_append hgap, List.cons_append, skipSpaces_cons hspace,
    hne, if_false, hitem, List.all_cons]
  exact bind_items?_eq (fun cs => moreItems? item close (cs.length + 1) cs) hmore

end Items

/-! ## Values -/

mutual

/-- No number is in the value. -/
def isNumberFree : Json → Bool
  | .int _ | .double _ => false
  | .array items => allNumberFree items
  | .object members => membersNumberFree members
  | .null | .bool _ | .string _ => true

def allNumberFree : List Json → Bool
  | [] => true
  | item :: rest => item.isNumberFree && allNumberFree rest

def membersNumberFree : List (String × Json) → Bool
  | [] => true
  | (_, value) :: rest => value.isNumberFree && membersNumberFree rest

end

theorem value?_spaces (depth : Nat) {space : List Char} (h : space.all isSpace = true) (cs : List Char) :
    value? depth (space ++ cs) = value? depth cs := by
  unfold value?
  rw [skipSpaces_append h]

theorem member?_spaces (value : Reader Json) {space : List Char} (h : space.all isSpace = true) (cs : List Char) :
    member? value (space ++ cs) = member? value cs := by
  rw [member?, member?, skipSpaces_append h]

theorem value?_string (depth : Nat) (s : String) (rest : List Char) :
    value? depth (quote s ++ rest) = some (.string s, rest) := by
  have hspace : isSpace '"' = false := rfl
  unfold value? quote
  simp only [List.cons_append, List.append_assoc, List.nil_append, skipSpaces_cons hspace, stringBody?_quote,
    Option.bind_eq_bind, Option.bind_some, String.ofList_toList]
  cases depth <;> rfl

theorem value?_array (depth : Nat) (cs : List Char) : value? (depth + 1) ('[' :: cs) =
    (items? (value? depth) ']' cs).map fun (items, rest) => (.array items, rest) := by
  change ((items? (value? depth) ']' cs).bind fun (items, rest) => some (array items, rest)) = _
  cases items? (value? depth) ']' cs <;> rfl

theorem value?_object (depth : Nat) (cs : List Char) : value? (depth + 1) ('\x7b' :: cs) =
    (items? (member? (value? depth)) '\x7d' cs).map fun (members, rest) => (.object members, rest) := by
  change ((items? (member? (value? depth)) '\x7d' cs).bind fun (members, rest) => some (object members, rest)) = _
  cases items? (member? (value? depth)) '\x7d' cs <;> rfl

/-! ## Reading a text back -/

section Spell
variable (l : Layout) (level : Nat)

/-- A member of an object in a layout. -/
def spellMember : String × Json → List Char
  | (key, value) => quote key ++ ':' :: l.afterColon ++ value.spell l (level + 1)

theorem spellItems_eq (items : List Json) : spellItems l level items =
    listed (l.gap (level + 1)) (l.gap level) ']' (·.spell l (level + 1)) items := by
  induction items with
  | nil => rfl
  | cons item rest ih => simp [spellItems, ih, listed]

theorem spell_array_cons (item : Json) (items : List Json) : (array (item :: items)).spell l level =
    '[' :: (l.gap (level + 1) ++ item.spell l (level + 1) ++
      listed (l.gap (level + 1)) (l.gap level) ']' (·.spell l (level + 1)) items) := by
  rw [spell, spellItems_eq]
  rfl

theorem spellMembers_eq (members : List (String × Json)) : spellMembers l level members =
    listed (l.gap (level + 1)) (l.gap level) '\x7d' (spellMember l level) members := by
  induction members with
  | nil => rfl
  | cons m rest ih => simp [spellMembers, ih, listed, spellMember]

theorem spell_object_cons (m : String × Json) (members : List (String × Json)) :
    (object (m :: members)).spell l level =
      '\x7b' :: (l.gap (level + 1) ++ spellMember l level m ++
        listed (l.gap (level + 1)) (l.gap level) '\x7d' (spellMember l level) members) := by
  rw [spell, spellMembers_eq]
  rfl

/-- The text of a value without numbers starts with none of the characters
that stand between values. -/
theorem spell_starts {v : Json} (h : v.isNumberFree = true) :
    ∃ c t, v.spell l level = c :: t ∧ isSpace c = false ∧ c ≠ ']' := by
  cases v with
  | null => exact ⟨'n', _, rfl, rfl, by decide⟩
  | bool b =>
    cases b with
    | false => exact ⟨'f', _, rfl, rfl, by decide⟩
    | true => exact ⟨'t', _, rfl, rfl, by decide⟩
  | int n => cases h
  | double x => cases h
  | string s => exact ⟨'"', _, rfl, rfl, by decide⟩
  | array items => cases items <;> exact ⟨'[', _, rfl, rfl, by decide⟩
  | object members => cases members <;> exact ⟨'\x7b', _, rfl, rfl, by decide⟩

/-- The value is read back from its text in any layout, unless it nests too deep. -/
def ReadsBack (v : Json) : Prop :=
  ∀ (l : Layout) (level depth : Nat) (rest : List Char),
    value? depth (v.spell l level ++ rest) = if v.nesting ≤ depth then some (v, rest) else none

theorem readsItems_value? (depth : Nat) {items : List Json}
    (h : ∀ item ∈ items, item.isNumberFree = true ∧ item.ReadsBack) :
    ReadsItems (value? depth) ']' (·.spell l (level + 1)) (·.nesting ≤ depth) items where
  spaces := value?_spaces depth
  starts hx := spell_starts l (level + 1) (h _ hx).1
  read hx rest := by simpa using (h _ hx).2 l (level + 1) depth rest

theorem readsItems_member? (depth : Nat) {members : List (String × Json)} (h : ∀ m ∈ members, m.2.ReadsBack) :
    ReadsItems (member? (value? depth)) '\x7d' (spellMember l level) (·.2.nesting ≤ depth) members where
  spaces := member?_spaces (value? depth)
  starts hx := ⟨'"', _, rfl, rfl, by decide⟩
  read := by
    rintro ⟨key, value⟩ hx rest
    have hvalue := h _ hx l (level + 1) depth rest
    have hquote : isSpace '"' = false := rfl
    have hcolon : isSpace ':' = false := rfl
    simp only [member?, spellMember, quote, List.cons_append, List.append_assoc, List.nil_append,
      skipSpaces_cons hquote, stringBody?_quote, Option.bind_eq_bind, Option.bind_some, skipSpaces_cons hcolon,
      value?_spaces depth l.afterColon_isSpace, hvalue, String.ofList_toList]
    by_cases hfits : value.nesting ≤ depth <;> simp [hfits]

end Spell

theorem readsBack_string (s : String) : (string s).ReadsBack := by
  intro l level depth rest
  have hnesting : (string s).nesting = 0 := rfl
  rw [hnesting, if_pos (Nat.zero_le _)]
  exact value?_string depth s rest

theorem readsBack_array {items : List Json} (h : ∀ item ∈ items, item.isNumberFree = true ∧ item.ReadsBack) :
    (array items).ReadsBack := by
  intro l level depth rest
  cases depth with
  | zero => cases items <;> rfl
  | succ depth =>
    have hfits : (array items).nesting ≤ depth + 1 ↔ items.all (fun v => v.nesting ≤ depth) = true := by
      rw [nesting, Nat.succ_le_succ_iff, itemsNesting_le_iff]
      simp
    simp only [hfits]
    cases items with
    | nil => rfl
    | cons item items =>
      have hclose : isSpace ']' = false := rfl
      have hread := items?_listed (l.gap_isSpace (level + 1)) (l.gap_isSpace level) hclose (by decide)
        (readsItems_value? l level depth h) rest
      rw [spell_array_cons, List.cons_append, value?_array, hread]
      split <;> rfl

theorem readsBack_object {members : List (String × Json)} (h : ∀ m ∈ members, m.2.ReadsBack) :
    (object members).ReadsBack := by
  intro l level depth rest
  cases depth with
  | zero => cases members <;> rfl
  | succ depth =>
    have hfits : (object members).nesting ≤ depth + 1 ↔ members.all (fun m => m.2.nesting ≤ depth) = true := by
      rw [nesting, Nat.succ_le_succ_iff, membersNesting_le_iff]
      simp
    simp only [hfits]
    cases members with
    | nil => rfl
    | cons m members =>
      have hclose : isSpace '\x7d' = false := rfl
      have hread := items?_listed (l.gap_isSpace (level + 1)) (l.gap_isSpace level) hclose (by decide)
        (readsItems_member? l level depth h) rest
      rw [spell_object_cons, List.cons_append, value?_object, hread]
      split <;> rfl

mutual

theorem readsBack : (v : Json) → v.isNumberFree = true → v.ReadsBack
  | .null, _ => fun l level depth rest => by cases depth <;> rfl
  | .bool b, _ => fun l level depth rest => by cases depth <;> cases b <;> rfl
  | .string s, _ => readsBack_string s
  | .array items, h => readsBack_array (readsBackItems items h)
  | .object members, h => readsBack_object (readsBackMembers members h)

theorem readsBackItems : (items : List Json) → allNumberFree items = true →
    ∀ item ∈ items, item.isNumberFree = true ∧ item.ReadsBack
  | [], _ => by simp
  | item :: rest, h => by
    rw [allNumberFree, Bool.and_eq_true] at h
    exact List.forall_mem_cons.2 ⟨⟨h.1, readsBack item h.1⟩, readsBackItems rest h.2⟩

theorem readsBackMembers : (members : List (String × Json)) → membersNumberFree members = true →
    ∀ m ∈ members, m.2.ReadsBack
  | [], _ => by simp
  | (key, value) :: rest, h => by
    rw [membersNumberFree, Bool.and_eq_true] at h
    exact List.forall_mem_cons.2 ⟨readsBack value h.1, readsBackMembers rest h.2⟩

end

/-- A text in either style is read back whole, unless the value nests too deep. -/
theorem readFirst?_text {v : Json} (h : v.isNumberFree = true) (isPretty : Bool) :
    readFirst? (if isPretty then v.prettyText else v.compactText) =
      if v.nesting ≤ nestingLimit then some (v, []) else none := by
  have hindented := readsBack v h .indented 0 nestingLimit []
  have hdense := readsBack v h .dense 0 nestingLimit []
  rw [List.append_nil, spell_indented] at hindented
  rw [List.append_nil, spell_dense] at hdense
  cases isPretty with
  | true => rwa [if_pos rfl, readFirst?, prettyText, String.toList_ofList]
  | false => rwa [if_neg Bool.false_ne_true, readFirst?, compactText, String.toList_ofList]

end QueryByExample.Json
