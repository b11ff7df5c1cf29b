/-
Texts of the grammar and what the reader makes of them, part by part.

An operand is given by what it does: with depth enough it is read as its body,
whatever comes after it, unless that continues it. All other parts are built
from operands as the grammar says, by `Joined` and `Listed`, and the facts
here lift the reading of operands to them, up to whole steps (`IsStep.read`).
-/
import Mathlib.Data.List.Forall2
import QueryByExample.Proofs.Path.Reader

namespace QueryByExample.Reading

theorem after?_append (literal rest : List Char) : after? literal (literal ++ rest) = some rest := by
  induction literal with
  | nil => rfl
  | cons l literal ih => simpa [after?] using ih

theorem takeWhile_append_stop {p : Char → Bool} {cs rest : List Char} (h : cs.all p = true)
    (hrest : rest.head?.all (!p ·) = true) :
    (cs ++ rest).takeWhile p = cs ∧ (cs ++ rest).dropWhile p = rest := by
  induction cs with
  | nil => cases rest <;> simp_all
  | cons c cs ih =>
    simp only [List.all_cons, Bool.and_eq_true] at h
    simp [h.1, ih h.2]

/-- A name is read up to a literal that could not go on with it. -/
theorem nameBefore?_append {s : String} (h : isName s = true) (literal : List Char)
    (hliteral : literal.head?.any (!isNameChar ·) = true) (rest : List Char) :
    nameBefore? literal (s.toList ++ (literal ++ rest)) = some (s, rest) := by
  simp only [isName, Bool.and_eq_true, Bool.not_eq_true', List.isEmpty_eq_false_iff] at h
  have hhead : (literal ++ rest).head?.all (!isNameChar ·) = true := by
    cases literal <;> simp_all
  obtain ⟨htake, hdrop⟩ := takeWhile_append_stop h.2 hhead
  have hname : name? (s.toList ++ (literal ++ rest)) = some (s, literal ++ rest) := by
    simp only [name?, htake, hdrop]
    split
    · next hnil => exact absurd hnil h.1
    · simp [String.ofList_toList]
  simp only [nameBefore?, hname, Option.bind_eq_bind, Option.bind_some, after?_append]
  rfl

/-- A value as it stands between quotes. -/
def escaped (value : List Char) : List Char :=
  value.flatMap fun c => if c = '\'' ∨ c = '\\' then ['\\', c] else [c]

theorem quoted?_escaped (value rest : List Char) :
    quoted? (escaped value ++ '\'' :: rest) = some (value, rest) := by
  induction value with
  | nil => simp [escaped, quoted?]
  | cons c cs ih =>
    simp only [escaped, List.flatMap_cons] at ih ⊢
    by_cases h : c = '\'' ∨ c = '\\'
    · simp only [h, if_true, List.cons_append, List.nil_append, quoted?, ih]
      rfl
    · simp only [h, if_false, List.cons_append, List.nil_append]
      simp only [not_or] at h
      rw [quoted?]
      · simp only [ih]
        rfl
      · exact h.1
      · intro d _ hd
        exact absurd hd h.2

/-- Texts of parts, one after the other. -/
inductive Listed (part : List Char → α → Prop) : List Char → List α → Prop
  | nil : Listed part [] []
  | cons {t x u xs} : part t x → Listed part u xs → Listed part (t ++ u) (x :: xs)

theorem Listed.single {part : List Char → α → Prop} {t x} (h : part t x) : Listed part t [x] := by
  simpa using Listed.cons h .nil

theorem Listed.append {part : List Char → α → Prop} {t u xs ys} (h : Listed part t xs)
    (h' : Listed part u ys) : Listed part (t ++ u) (xs ++ ys) := by
  induction h with
  | nil => exact h'
  | cons hp _ ih => simpa using Listed.cons hp ih

/-- Texts of parts with separators between them, and the parts put together. -/
inductive Joined (separator : List Char) (join : α → α → α) (part : List Char → α → Prop) :
    List Char → α → Prop
  | one {t x} : part t x → Joined separator join part t x
  | more {t x u y} : part t x → Joined separator join part u y →
      Joined separator join part (t ++ separator ++ u) (join x y)

theorem Joined.append {separator : List Char} {join : α → α → α} {part : List Char → α → Prop}
    (assoc : ∀ x y z, join (join x y) z = join x (join y z)) {t x u y}
    (h : Joined separator join part t x) (h' : Joined separator join part u y) :
    Joined separator join part (t ++ separator ++ u) (join x y) := by
  induction h with
  | one hp => exact .more hp h'
  | more hp _ ih =>
    rw [assoc]
    simpa [List.append_assoc] using Joined.more hp ih

/-- Such texts with separators between them, where `all` puts together what
they are. -/
theorem Joined.intercalate {separator : List Char} {join : α → α → α} {part : List Char → α → Prop}
    (assoc : ∀ x y z, join (join x y) z = join x (join y z)) (all : List α → α) (hone : ∀ x, all [x] = x)
    (hmore : ∀ x y xs, all (x :: y :: xs) = join x (all (y :: xs))) {ts : List (List Char)} {xs : List α}
    (h : List.Forall₂ (Joined separator join part) ts xs) (hne : ts ≠ []) :
    Joined separator join part (List.intercalate separator ts) (all xs) := by
  induction h with
  | nil => exact absurd rfl hne
  | @cons t x ts xs hp hps ih =>
    cases hps with
    | nil =>
      rw [hone, List.intercalate_singleton]
      exact hp
    | @cons u y ts xs hq hps =>
      rw [hmore, List.intercalate_cons_cons]
      exact hp.append assoc (ih (by simp))

/-- None of the characters comes next. -/
def NotNext (cs : List Char) (rest : List Char) : Prop :=
  ∀ c ∈ cs, rest.head? ≠ some c

@[simp] theorem notNext_nil (cs : List Char) : NotNext cs [] := by
  simp [NotNext]

@[simp] theorem notNext_cons {cs rest : List Char} {c : Char} : NotNext cs (c :: rest) ↔ c ∉ cs := by
  simp only [NotNext, List.head?_cons, ne_eq, Option.some.injEq]
  exact ⟨fun h hc => h c hc rfl, fun h d hd hcd => h (hcd ▸ hd)⟩

theorem NotNext.mono {cs ds rest : List Char} (h : NotNext cs rest) (hsub : ds ⊆ cs) :
    NotNext ds rest :=
  fun c hc => h c (hsub hc)

theorem Listed.read {part : List Char → α → Prop} {starts : List Char} {reader : Reader α}
    (stop : List Char → Prop) (bound : Nat)
    (hpart : ∀ t x rest, part t x → t.length ≤ bound → stop rest → reader (t ++ rest) = some (x, rest))
    (hstarts : ∀ t x, part t x → ∃ c u, t = c :: u ∧ c ∈ starts)
    (hstop : ∀ c rest, c ∈ starts → stop (c :: rest)) {t xs} (h : Listed part t xs) :
    ∀ rounds rest, t.length ≤ bound → t.length < rounds → stop rest → NotNext starts rest →
      many? starts reader rounds (t ++ rest) = some (xs, rest) := by
  induction h with
  | nil =>
    intro rounds rest _ hr _ hnext
    obtain ⟨rounds, rfl⟩ : ∃ k, rounds = k + 1 := ⟨rounds - 1, by omega⟩
    cases rest with
    | nil => rfl
    | cons c rest =>
      simp [many?, notNext_cons.1 hnext]
  | @cons t x u xs hp hl ih =>
    intro rounds rest hb hr hrest hnext
    obtain ⟨rounds, rfl⟩ : ∃ k, rounds = k + 1 := ⟨rounds - 1, by omega⟩
    simp only [List.length_append] at hb hr
    obtain ⟨c, t', rfl, hc⟩ := hstarts t x hp
    -- What follows the first part is the next part, or else the rest.
    have hstop' : stop (u ++ rest) := by
      cases hl with
      | nil => exact hrest
      | cons hp' _ =>
        obtain ⟨d, v, rfl, hd⟩ := hstarts _ _ hp'
        exact hstop _ _ hd
    have hfirst := hpart _ _ (u ++ rest) hp (by omega) hstop'
    have hothers := ih rounds rest (by omega) (by simp only [List.length_cons] at hr; omega) hrest hnext
    simp only [List.cons_append] at hfirst
    simp only [List.cons_append, List.append_assoc, many?, hc, if_true, hfirst, Option.bind_eq_bind,
      Option.bind_some, hothers]
    rfl

theorem Joined.read {separator : List Char} {join : α → α → α} {part : List Char → α → Prop}
    {reader : Reader α} (stop : List Char → Prop) (bound : Nat)
    (hpart : ∀ t x rest, part t x → t.length ≤ bound → stop rest → reader (t ++ rest) = some (x, rest))
    (hsep : separator ≠ []) (hstop : ∀ rest, stop (separator ++ rest)) {t x}
    (h : Joined separator join part t x) :
    ∀ rounds rest, t.length ≤ bound → t.length < rounds → stop rest → after? separator rest = none →
      joined? separator join reader rounds (t ++ rest) = some (x, rest) := by
  have hlen := List.length_pos_iff.2 hsep
  induction h with
  | one hp =>
    intro rounds rest hb hr hrest hnext
    obtain ⟨rounds, rfl⟩ : ∃ k, rounds = k + 1 := ⟨rounds - 1, by omega⟩
    simp only [joined?, hpart _ _ rest hp hb hrest, Option.bind_eq_bind, Option.bind_some, hnext]
    rfl
  | @more t x u y hp _ ih =>
    intro rounds rest hb hr hrest hnext
    obtain ⟨rounds, rfl⟩ : ∃ k, rounds = k + 1 := ⟨rounds - 1, by omega⟩
    simp only [List.length_append] at hb hr
    have hfirst := hpart _ _ (separator ++ (u ++ rest)) hp (by omega) (hstop _)
    have hothers := ih rounds rest (by omega) (by omega) hrest hnext
    simp only [List.append_assoc, joined?, hfirst, Option.bind_eq_bind, Option.bind_some,
      after?_append, hothers]
    rfl

/-- Nothing comes next that would continue an operand: only the items of its
last step and further steps could. -/
def Ends (rest : List Char) : Prop := NotNext ['[', '?', '/'] rest

section Taken
variable {α : Type} {operand : Nat → Reader α} {and or : α → α → α} {t : List Char} {x : α}

/-- A text that a reader of operands takes: with depth enough it is read as
`x`, whatever comes after it, unless that continues it. -/
def TakenAs (operand : Nat → Reader α) (t : List Char) (x : α) : Prop :=
  ∀ depth rest, t.length ≤ depth → Ends rest → operand depth (t ++ rest) = some (x, rest)

theorem Joined.readAnd (h : Joined " and ".toList and (TakenAs operand) t x) (depth : Nat) (rest : List Char)
    (hd : t.length ≤ depth) (hrest : Ends rest) (hnext : after? " and ".toList rest = none) :
    joined? " and ".toList and (operand depth) ((t ++ rest).length + 1) (t ++ rest) = some (x, rest) := by
  refine Joined.read Ends depth ?_ (by decide) ?_ h _ rest hd ?_ hrest hnext
  · exact fun t x rest hp hl hr => hp depth rest hl hr
  · exact fun rest => by simp [Ends]
  · simp only [List.length_append]; omega

theorem Joined.readOr (h : Joined " or ".toList or (Joined " and ".toList and (TakenAs operand)) t x) (depth : Nat)
    (rest : List Char) (hd : t.length ≤ depth) (hrest : Ends rest) (hand : after? " and ".toList rest = none)
    (hor : after? " or ".toList rest = none) :
    joined? " or ".toList or (fun cs => joined? " and ".toList and (operand depth) (cs.length + 1) cs)
      ((t ++ rest).length + 1) (t ++ rest) = some (x, rest) := by
  refine Joined.read (fun rest => Ends rest ∧ after? " and ".toList rest = none) depth
    ?_ (by decide) ?_ h _ rest hd ?_ ⟨hrest, hand⟩ hor
  · exact fun t x rest hp hl hr => hp.readAnd depth rest hl hr.1 hr.2
  · exact fun rest => by simp [Ends, after?]
  · simp only [List.length_append]; omega

end Taken

/-- A text that is read as an operand. -/
def IsOperand (t : List Char) (b : Body) : Prop :=
  ∀ depth rest, t.length ≤ depth → Ends rest → operand? depth (t ++ rest) = some (b, rest)

def IsConjunction : List Char → Body → Prop := Joined " and ".toList .and IsOperand

def IsDisjunction : List Char → Body → Prop := Joined " or ".toList .or IsConjunction

def IsItem (t : List Char) : Item → Prop
  | .body b => ∃ u, t = '[' :: u ++ [']'] ∧ IsDisjunction u b
  | .mark => t = ['?']

/-- A step without its continuations. -/
structure IsSegment (t : List Char) (s : Segment) : Prop where
  tag : isName s.tag = true
  items : ∃ u, t = s.tag.toList ++ "()".toList ++ u ∧ Listed IsItem u s.items

structure IsRelated (t : List Char) (s : Segment) : Prop where
  relation : ∃ name u, s.relation = some name ∧ isName name = true ∧
    t = '/' :: (name.toList ++ "::".toList ++ u) ∧ IsSegment u s

/-- A bracket that closes a body comes next. -/
def Closes (rest : List Char) : Prop := ∃ cs, rest = ')' :: cs ∨ rest = ']' :: cs

/-- What comes after a body continues none of its parts. -/
theorem Closes.ends {rest : List Char} (h : Closes rest) :
    Ends rest ∧ after? " and ".toList rest = none ∧ after? " or ".toList rest = none := by
  obtain ⟨cs, rfl | rfl⟩ := h <;> simp [Ends, after?]

theorem IsDisjunction.read {t b} (h : IsDisjunction t b) (depth : Nat) (rest : List Char)
    (hd : t.length ≤ depth) (hrest : Closes rest) :
    disjunction? (operand? depth) (t ++ rest) = some (b, rest) :=
  have ⟨hends, hand, hor⟩ := hrest.ends
  Joined.readOr h depth rest hd hends hand hor

theorem IsItem.starts {t i} (h : IsItem t i) : ∃ c u, t = c :: u ∧ c ∈ ['[', '?'] := by
  cases i with
  | body b =>
    obtain ⟨u, rfl, -⟩ := h
    exact ⟨'[', u ++ [']'], rfl, by simp⟩
  | mark => exact ⟨'?', [], h, by simp⟩

theorem IsItem.read {t i} (h : IsItem t i) (depth : Nat) (rest : List Char) (hd : t.length ≤ depth) :
    item? (disjunction? (operand? depth)) (t ++ rest) = some (i, rest) := by
  cases i with
  | body b =>
    obtain ⟨u, rfl, hu⟩ := h
    simp only [List.cons_append, List.length_cons, List.length_append] at hd
    have hbody := hu.read depth (']' :: rest) (by omega) ⟨rest, .inr rfl⟩
    simp only [List.cons_append, List.append_assoc, List.nil_append, item?, hbody,
      Option.bind_eq_bind, Option.bind_some]
    rfl
  | mark =>
    obtain rfl : t = ['?'] := h
    rfl

theorem IsSegment.read {t s} (h : IsSegment t s) (depth : Nat) (rest : List Char)
    (hd : t.length ≤ depth) (hrest : NotNext ['[', '?'] rest) :
    segment? (disjunction? (operand? depth)) s.relation (t ++ rest) = some (s, rest) := by
  obtain ⟨htag, u, rfl, hu⟩ := h
  simp only [List.length_append] at hd
  have hitems := Listed.read (fun _ => True) depth
    (fun t i rest hi hl _ => IsItem.read hi depth rest hl) (fun t i hi => IsItem.starts hi)
    (fun _ _ _ => trivial) hu ((u ++ rest).length + 1) rest (by omega)
    (by simp only [List.length_append]; omega) trivial hrest
  simp only [segment?, List.append_assoc, nameBefore?_append htag "()".toList (by decide), Option.bind_eq_bind,
    Option.bind_some, hitems]
  cases s
  rfl

theorem IsRelated.starts {t s} (h : IsRelated t s) : ∃ c u, t = c :: u ∧ c ∈ ['/'] := by
  obtain ⟨name, u, -, -, rfl, -⟩ := h
  exact ⟨'/', _, rfl, by simp⟩

theorem IsRelated.read {t s} (h : IsRelated t s) (depth : Nat) (rest : List Char)
    (hd : t.length ≤ depth + 1) (hrest : NotNext ['[', '?'] rest) :
    related? (disjunction? (operand? depth)) (t ++ rest) = some (s, rest) := by
  obtain ⟨name, u, hrel, hname, rfl, hu⟩ := h
  simp only [List.length_cons, List.length_append] at hd
  have hseg := hu.read depth rest (by omega) hrest
  rw [hrel] at hseg
  simp only [related?, List.cons_append, List.append_assoc, after?, if_true, Option.bind_eq_bind,
    Option.bind_some, nameBefore?_append hname "::".toList (by decide), hseg]

/-- Steps behind relations, as long as there are any. -/
theorem IsRelated.readAll {t ss} (h : Listed IsRelated t ss) (depth : Nat) (rest : List Char)
    (hd : t.length ≤ depth + 1) (hrest : Ends rest) :
    continuations? (disjunction? (operand? depth)) (t ++ rest) = some (ss, rest) := by
  refine Listed.read (NotNext ['[', '?']) (depth + 1)
    (fun t s rest hs hl hr => IsRelated.read hs depth rest hl hr) (fun t s hs => IsRelated.starts hs)
    ?_ h _ rest hd ?_ (hrest.mono (by simp)) (hrest.mono (by simp))
  · intro c rest hc
    obtain rfl : c = '/' := by simpa using hc
    simp
  · simp only [List.length_append]; omega

/-- A step with its continuations, and the relation that leads to it. -/
inductive IsStep : Option String → List Char → List Segment → Prop
  | mk {t u first others} : IsSegment t first → Listed IsRelated u others →
      IsStep first.relation (t ++ u) (first :: others)

theorem IsStep.related {name : String} {t ss} (h : IsStep (some name) t ss) (hname : isName name = true) :
    Listed IsRelated ('/' :: (name.toList ++ "::".toList ++ t)) ss := by
  generalize hrel : some name = relation at h
  cases h with
  | @mk t u first others hfirst hothers =>
    simpa using Listed.cons (⟨name, t, hrel.symm, hname, rfl, hfirst⟩ : IsRelated _ first) hothers

/-- The text of a step is one whole step, and is read as its segments. -/
theorem IsStep.read {t ss} (h : IsStep none t ss) : read? (String.ofList t) = some ss := by
  generalize hrel : none = relation at h
  cases h with
  | @mk t u first others hfirst hothers =>
    have hnext : NotNext ['[', '?'] u := by
      cases hothers with
      | nil => simp
      | cons hr _ =>
        obtain ⟨c, v, rfl, hc⟩ := hr.starts
        obtain rfl : c = '/' := by simpa using hc
        simp
    have hseg := hfirst.read (t ++ u).length u (by simp) hnext
    have hcont := IsRelated.readAll hothers (t ++ u).length []
      (by simp only [List.length_append]; omega) (by simp [Ends])
    rw [← hrel] at hseg
    rw [List.append_nil] at hcont
    simp only [read?, String.length_ofList, String.toList_ofList, step?, hseg, hcont,
      Option.bind_eq_bind, Option.bind_some]
    rfl

theorem IsOperand.equals {name : String} (h : isName name = true) (value : List Char) :
    IsOperand ('@' :: name.toList ++ "='".toList ++ escaped value ++ ['\''])
      (.equals name (String.ofList value)) := by
  intro depth rest hd _
  obtain ⟨depth, rfl⟩ : ∃ k, depth = k + 1 := ⟨depth - 1, by simp at hd; omega⟩
  simp only [operand?, List.cons_append, List.append_assoc, nameBefore?_append h "='".toList (by decide),
    List.nil_append, Option.bind_eq_bind, Option.bind_some, quoted?_escaped]
  rfl

theorem IsOperand.path {t ss} (h : Listed IsRelated ('/' :: t) ss) : IsOperand ('/' :: t) (.path ss) := by
  intro depth rest hd hrest
  obtain ⟨depth, rfl⟩ : ∃ k, depth = k + 1 := ⟨depth - 1, by simp at hd; omega⟩
  have hall := IsRelated.readAll h depth rest hd hrest
  simp only [List.cons_append] at hall
  simp only [List.cons_append, operand?, hall, Option.bind_eq_bind, Option.bind_some]
  rfl

theorem IsOperand.negated {t b} (h : IsOperand t b) : IsOperand ("not ".toList ++ t) (.negated b) := by
  intro depth rest hd hrest
  obtain ⟨depth, rfl⟩ : ∃ k, depth = k + 1 := ⟨depth - 1, by simp at hd; omega⟩
  have hb := h depth rest (by simp at hd; omega) hrest
  rw [operand?]
  · simp only [List.append_assoc, after?_append, Option.bind_eq_bind, Option.bind_some, hb]
    rfl
  all_goals simp

theorem IsDisjunction.parens {t b} (h : IsDisjunction t b) : IsOperand ('(' :: t ++ [')']) b := by
  intro depth rest hd _
  obtain ⟨depth, rfl⟩ : ∃ k, depth = k + 1 := ⟨depth - 1, by simp at hd; omega⟩
  simp only [List.cons_append, List.length_cons, List.length_append] at hd
  have hbody := h.read depth (')' :: rest) (by omega) ⟨rest, .inl rfl⟩
  simp only [List.cons_append, List.append_assoc, List.nil_append, operand?, hbody,
    Option.bind_eq_bind, Option.bind_some]
  rfl

end QueryByExample.Reading
