/-
Marks in the texts of predicates.

An optional predicate is written as its operand and a mark, and directly nested
ones share their mark. A conjunction is written as its operands, one after the
other, and they keep their marks. So where the last of them ends in a mark and
the conjunction is optional, two marks come in a row. There is no other way to
come to two marks outside of quoted values (`Predicate.text_hasDoubleMark_iff`).
-/
import QueryByExample.Example.Basic
import QueryByExample.Proofs.Enriched.Constraints
import QueryByExample.Proofs.Path.Bodies

namespace QueryByExample

/-! ## Texts with two marks in a row -/

namespace Bracketed
open Reading (escaped)

/-- All quoted values are closed. -/
def IsClosed (t : List Char) : Prop := ∃ u, Unquoted t u

/-- Two marks come in a row, outside of quoted values. -/
def HasDoubleMark (t : List Char) : Prop :=
  ∃ before after, IsClosed before ∧ t = before ++ '?' :: '?' :: after

variable {t u : List Char} {ts : List (List Char)}

theorem IsQuotable.quoting {v : List Char} (h : IsQuotable v) (rest : List Char) :
    (v ++ '\'' :: rest).foldl Quoting.after .inside = rest.foldl Quoting.after .outside := by
  induction h with
  | nil => rfl
  | plain hquote hbackslash _ ih =>
    rw [List.cons_append, List.foldl_cons, Quoting.after, if_neg hbackslash, if_neg hquote, ih]
  | escaped _ ih => exact ih

theorem Unquoted.quoting (h : Unquoted t u) : t.foldl Quoting.after .outside = .outside := by
  induction h with
  | nil => rfl
  | plain hc _ ih => rw [List.foldl_cons, Quoting.after, if_neg hc, ih]
  | quoted hv _ ih => rw [List.foldl_cons, Quoting.after, if_pos rfl, hv.quoting, ih]

theorem isClosed_iff : IsClosed t ↔ t.foldl Quoting.after .outside = .outside :=
  ⟨fun ⟨_, h⟩ => h.quoting, exists_continues⟩

theorem IsBalanced.isClosed (h : IsBalanced t) : IsClosed t :=
  isClosed_iff.2 (quoting_of_scan? h)

theorem isClosed_of_quote_not_mem (h : '\'' ∉ t) : IsClosed t := by
  refine ⟨t, ?_⟩
  induction t with
  | nil => exact .nil
  | cons c t ih =>
    rw [List.mem_cons, not_or] at h
    exact .plain (Ne.symm h.1) (ih h.2)

theorem IsClosed.append_iff (h : IsClosed t) : IsClosed (t ++ u) ↔ IsClosed u := by
  rw [isClosed_iff, isClosed_iff, List.foldl_append, isClosed_iff.1 h]

theorem IsClosed.append_mark_iff : IsClosed (t ++ ['?']) ↔ IsClosed t := by
  rw [isClosed_iff, isClosed_iff, List.foldl_append]
  cases t.foldl Quoting.after .outside <;> decide

theorem not_hasDoubleMark_of_mark_not_mem (h : '?' ∉ t) : ¬ HasDoubleMark t := by
  rintro ⟨before, after, -, rfl⟩
  simp at h

@[simp] theorem not_hasDoubleMark_nil : ¬ HasDoubleMark [] :=
  not_hasDoubleMark_of_mark_not_mem List.not_mem_nil

/-- Two marks are in the one text or in the other, or the texts meet in them. -/
theorem hasDoubleMark_append (ht : IsClosed t) : HasDoubleMark (t ++ u) ↔
    HasDoubleMark t ∨ (t.getLast? = some '?' ∧ u.head? = some '?') ∨ HasDoubleMark u := by
  constructor
  · rintro ⟨before, after, hbefore, htext⟩
    rcases List.append_eq_append_iff.1 htext with ⟨more, rfl, rfl⟩ | ⟨more, rfl, hmore⟩
    · exact .inr (.inr ⟨more, after, ht.append_iff.1 hbefore, rfl⟩)
    match more, hmore with
    | [], hmore => exact .inr (.inr ⟨[], after, ⟨[], .nil⟩, hmore.symm⟩)
    | [c], hmore =>
      obtain ⟨rfl, hu⟩ := List.cons.inj hmore
      have htail : '?' :: after = u := hu
      exact .inr (.inl ⟨by simp, by rw [← htail, List.head?_cons]⟩)
    | c :: d :: more, hmore =>
      obtain ⟨rfl, hrest⟩ := List.cons.inj hmore
      obtain ⟨rfl, -⟩ := List.cons.inj hrest
      exact .inl ⟨before, more, hbefore, rfl⟩
  · rintro (⟨before, after, hbefore, rfl⟩ | ⟨hlast, hhead⟩ | ⟨before, after, hbefore, rfl⟩)
    · exact ⟨before, after ++ u, hbefore, by simp⟩
    · obtain ⟨before, rfl⟩ := List.getLast?_eq_some_iff.1 hlast
      obtain ⟨after, rfl⟩ := List.head?_eq_some_iff.1 hhead
      exact ⟨before, after, IsClosed.append_mark_iff.1 ht, by simp⟩
    · exact ⟨t ++ before, after, ht.append_iff.2 hbefore, by simp⟩

/-- A mark is the second one behind a text that ends in a mark. -/
theorem hasDoubleMark_append_mark (ht : IsClosed t) :
    HasDoubleMark (t ++ ['?']) ↔ HasDoubleMark t ∨ t.getLast? = some '?' := by
  have hsingle : ¬ HasDoubleMark ['?'] := by
    rintro ⟨before, after, -, htext⟩
    have hlength := congrArg List.length htext
    simp only [List.length_append, List.length_cons, List.length_nil] at hlength
    omega
  rw [hasDoubleMark_append ht]
  simp [hsingle]

theorem hasDoubleMark_append_of_head (ht : IsClosed t) (hu : u.head? ≠ some '?') :
    HasDoubleMark (t ++ u) ↔ HasDoubleMark t ∨ HasDoubleMark u := by
  rw [hasDoubleMark_append ht]
  simp [hu]

/-- A text without marks or quotes adds nothing before another text. -/
theorem hasDoubleMark_literal_append {literal : List Char} (hquote : '\'' ∉ literal) (hmark : '?' ∉ literal) :
    HasDoubleMark (literal ++ t) ↔ HasDoubleMark t := by
  have hlast : literal.getLast? ≠ some '?' := fun h => hmark (List.mem_of_getLast? h)
  rw [hasDoubleMark_append (isClosed_of_quote_not_mem hquote)]
  simp [hlast, not_hasDoubleMark_of_mark_not_mem hmark]

/-- Behind another text it is enough that there is no mark. -/
theorem hasDoubleMark_append_literal {literal : List Char} (ht : IsClosed t) (hmark : '?' ∉ literal) :
    HasDoubleMark (t ++ literal) ↔ HasDoubleMark t := by
  have hhead : literal.head? ≠ some '?' := fun h => hmark (List.mem_of_head? h)
  rw [hasDoubleMark_append_of_head ht hhead]
  simp [not_hasDoubleMark_of_mark_not_mem hmark]

theorem hasDoubleMark_between {opening closing : List Char} (hquote : '\'' ∉ opening) (hmark : '?' ∉ opening)
    (hclosing : '?' ∉ closing) (ht : IsClosed t) : HasDoubleMark (opening ++ t ++ closing) ↔ HasDoubleMark t := by
  have hclosed : IsClosed (opening ++ t) := (isClosed_of_quote_not_mem hquote).append_iff.2 ht
  rw [hasDoubleMark_append_literal hclosed hclosing, hasDoubleMark_literal_append hquote hmark]

/-- A quoted value is not closed before its end. -/
theorem IsQuotable.eq_nil_of_closed {v before rest : List Char} (h : IsQuotable v)
    (htext : v ++ ['\''] = before ++ rest) (hbefore : before.foldl Quoting.after .inside = .outside) : rest = [] := by
  induction h generalizing before with
  | nil =>
    cases before with
    | nil => cases hbefore
    | cons c before => exact (List.append_eq_nil_iff.1 (List.cons.inj htext).2.symm).2
  | plain hquote hbackslash _ ih =>
    cases before with
    | nil => cases hbefore
    | cons c before =>
      obtain ⟨rfl, hrest⟩ := List.cons.inj htext
      rw [List.foldl_cons, Quoting.after, if_neg hbackslash, if_neg hquote] at hbefore
      exact ih hrest hbefore
  | escaped _ ih =>
    cases before with
    | nil => cases hbefore
    | cons c before =>
      obtain ⟨rfl, hrest⟩ := List.cons.inj htext
      cases before with
      | nil => cases hbefore
      | cons d before => exact ih (List.cons.inj hrest).2 hbefore

theorem isQuotable_escaped (value : List Char) : IsQuotable (escaped value) := by
  induction value with
  | nil => exact .nil
  | cons c value ih =>
    rw [escaped, List.flatMap_cons]
    by_cases h : c = '\'' ∨ c = '\\'
    · rw [if_pos h]
      exact .escaped ih
    · rw [if_neg h]
      rw [not_or] at h
      exact .plain h.1 h.2 ih

/-- Marks in a quoted value are not outside of it. -/
theorem not_hasDoubleMark_quoted {v : List Char} (h : IsQuotable v) : ¬ HasDoubleMark ('\'' :: v ++ ['\'']) := by
  rintro ⟨before, after, hbefore, htext⟩
  rw [isClosed_iff] at hbefore
  cases before with
  | nil => exact absurd (List.cons.inj htext).1 (by decide)
  | cons c before =>
    obtain ⟨rfl, hrest⟩ := List.cons.inj htext
    cases h.eq_nil_of_closed hrest hbefore

/-- Texts one after the other, none of which starts with a mark. -/
theorem hasDoubleMark_flatten (h : ∀ t ∈ ts, IsClosed t ∧ t.head? ≠ some '?') :
    ts.flatten.head? ≠ some '?' ∧ (HasDoubleMark ts.flatten ↔ ∃ t ∈ ts, HasDoubleMark t) := by
  induction ts with
  | nil => simp
  | cons t ts ih =>
    rw [List.forall_mem_cons] at h
    obtain ⟨⟨hclosed, hhead⟩, hothers⟩ := h
    obtain ⟨hrest, hmarks⟩ := ih hothers
    rw [List.flatten_cons]
    refine ⟨?_, ?_⟩
    · rw [List.head?_append]
      cases hfirst : t.head? with
      | none => exact hrest
      | some c => rwa [hfirst] at hhead
    · rw [hasDoubleMark_append_of_head hclosed hrest, hmarks, List.exists_mem_cons_iff]

theorem hasDoubleMark_intercalate {separator : List Char} (hquote : '\'' ∉ separator) (hmark : '?' ∉ separator)
    (hne : separator ≠ []) (h : ∀ t ∈ ts, IsClosed t) :
    HasDoubleMark (List.intercalate separator ts) ↔ ∃ t ∈ ts, HasDoubleMark t := by
  induction ts with
  | nil => simp
  | cons t ts ih =>
    rw [List.forall_mem_cons] at h
    cases ts with
    | nil => simp
    | cons u ts =>
      have hhead : (separator ++ List.intercalate separator (u :: ts)).head? ≠ some '?' := by
        rw [List.head?_append_of_ne_nil _ hne]
        exact fun hhead => hmark (List.mem_of_head? hhead)
      rw [List.intercalate_cons_cons, List.append_assoc, hasDoubleMark_append_of_head h.1 hhead,
        hasDoubleMark_literal_append hquote hmark, ih h.2]
      simp only [List.exists_mem_cons_iff]

end Bracketed

open Bracketed
open Reading (escaped isName isNameChar)

/-! ## Predicates written with two marks -/

mutual

/-- On a step the text ends in a mark. -/
def Predicate.endsMarked : Predicate → Bool
  | .optional _ => true
  | .every ps => Predicate.lastEndsMarked ps
  | _ => false

def Predicate.lastEndsMarked : List Predicate → Bool
  | [] => false
  | p :: rest => if rest.isEmpty then p.endsMarked else Predicate.lastEndsMarked rest

end

/-- A conjunction, the last operand of which brings a mark of its own. -/
def Predicate.isMarkedGroup : Predicate → Bool
  | .every ps => Predicate.lastEndsMarked ps
  | _ => false

mutual

/-- A marked group is made optional in the step or in one to which it leads. -/
def Step.marksTwice : Step → Bool
  | ⟨_, predicates, matched⟩ => Predicate.anyMarksTwice true predicates || Relation.anyMarksTwice matched

def Relation.marksTwice : Relation → Bool
  | ⟨_, step⟩ => step.marksTwice

def Relation.anyMarksTwice : List Relation → Bool
  | [] => false
  | r :: rest => r.marksTwice || Relation.anyMarksTwice rest

/-- The same for a predicate, on a step or inside another predicate, where
optionality has no text. -/
def Predicate.marksTwice (onStep : Bool) : Predicate → Bool
  | .equals _ _ => false
  | .related r => r.marksTwice
  | .negated p => p.marksTwice false
  | .either p q => p.marksTwice false || q.marksTwice false
  | .every ps => Predicate.anyMarksTwice onStep ps
  | .optional p => onStep && p.isMarkedGroup || p.marksTwice onStep
  | .custom _ => false

def Predicate.anyMarksTwice (onStep : Bool) : List Predicate → Bool
  | [] => false
  | p :: rest => p.marksTwice onStep || Predicate.anyMarksTwice onStep rest

end

theorem Predicate.anyMarksTwice_eq (onStep : Bool) (ps : List Predicate) :
    anyMarksTwice onStep ps = ps.any (marksTwice onStep) := by
  induction ps with
  | nil => rfl
  | cons p ps ih => rw [anyMarksTwice, List.any_cons, ih]

theorem Predicate.writtenAll_eq (ps : List Predicate) : writtenAll ps = ps.map written := by
  induction ps with
  | nil => rfl
  | cons p ps ih => rw [writtenAll, List.map_cons, ih]

theorem not_mem_of_isName {s : String} {c : Char} (h : isName s = true) (hc : isNameChar c = false) :
    c ∉ s.toList := by
  intro hmem
  rw [isName, Bool.and_eq_true] at h
  rw [List.all_eq_true.1 h.2 c hmem] at hc
  cases hc

/-- A name between punctuation adds nothing before a text. -/
theorem hasDoubleMark_name_append {name : String} (h : isName name = true) (opening closing t : List Char)
    (hquote : '\'' ∉ opening ++ closing) (hmark : '?' ∉ opening ++ closing) :
    HasDoubleMark (opening ++ name.toList ++ closing ++ t) ↔ HasDoubleMark t := by
  have hname : '\'' ∉ name.toList ∧ '?' ∉ name.toList :=
    ⟨not_mem_of_isName h (by decide), not_mem_of_isName h (by decide)⟩
  simp only [List.mem_append, not_or] at hquote hmark
  exact hasDoubleMark_literal_append (by simp [hquote, hname]) (by simp [hmark, hname])

namespace PredicateText
variable {p q : PredicateText}

theorem hasDoubleMark_enclosed {body : List Char} (h : IsBalanced body) :
    HasDoubleMark ('[' :: body ++ [']']) ↔ HasDoubleMark body :=
  hasDoubleMark_between (by decide : '\'' ∉ ['[']) (by decide) (by decide) h.isClosed

theorem hasDoubleMark_operand (h : p.Balanced) (held : List Binding) :
    HasDoubleMark (p.operand held) ↔ HasDoubleMark p.body := by
  rw [operand]
  split
  · rfl
  · exact hasDoubleMark_between (by decide : '\'' ∉ ['(']) (by decide) (by decide) h.body.isClosed

theorem not_hasDoubleMark_equals {name : String} (h : isName name = true) (value : Scalar) :
    ¬ HasDoubleMark (equals name value).body := by
  have hbody : (equals name value).body =
      ['@'] ++ name.toList ++ ['='] ++ ('\'' :: escaped value.text ++ ['\'']) := by
    simp [equals, bracketed, escaped]
  rw [hbody, hasDoubleMark_name_append h ['@'] ['='] _ (by decide) (by decide)]
  exact not_hasDoubleMark_quoted (isQuotable_escaped value.text)

theorem hasDoubleMark_negated (h : p.Balanced) : HasDoubleMark p.negated.body ↔ HasDoubleMark p.body :=
  (hasDoubleMark_literal_append (by decide) (by decide)).trans (hasDoubleMark_operand h _)

theorem hasDoubleMark_either (hp : p.Balanced) (hq : q.Balanced) :
    HasDoubleMark (p.either q).body ↔ HasDoubleMark p.body ∨ HasDoubleMark q.body := by
  change HasDoubleMark (p.operand _ ++ " or ".toList ++ q.operand _) ↔ _
  rw [List.append_assoc, hasDoubleMark_append_of_head (hp.operand _).isClosed (by simp),
    hasDoubleMark_literal_append (by decide) (by decide), hasDoubleMark_operand hp, hasDoubleMark_operand hq]

variable {ps : List PredicateText}

theorem hasDoubleMark_every (h : ∀ p ∈ ps, p.Balanced) :
    HasDoubleMark (every ps).body ↔ ∃ p ∈ ps, HasDoubleMark p.body := by
  have hclosed : ∀ t ∈ ps.map (·.operand [.tight, .conjunction]), IsClosed t :=
    List.forall_mem_map.2 fun p hp => ((h p hp).operand _).isClosed
  refine (hasDoubleMark_intercalate (by decide) (by decide) (by decide) hclosed).trans ?_
  simp only [List.mem_map, exists_exists_and_eq_and]
  exact exists_congr fun p => and_congr_right fun hp => hasDoubleMark_operand (h p hp) _

theorem hasDoubleMark_every_onStep (h : ∀ p ∈ ps, p.Balanced) (hhead : ∀ p ∈ ps, p.onStep.head? = some '[') :
    HasDoubleMark (every ps).onStep ↔ ∃ p ∈ ps, HasDoubleMark p.onStep := by
  have hitems : ∀ t ∈ ps.map (·.onStep), IsClosed t ∧ t.head? ≠ some '?' :=
    List.forall_mem_map.2 fun p hp => ⟨(h p hp).onStep.isClosed, by simp [hhead p hp]⟩
  refine (hasDoubleMark_flatten hitems).2.trans ?_
  simp only [List.mem_map, exists_exists_and_eq_and]

end PredicateText

/-! ## The marks of plain predicates -/

/-- What there is to know of the marks in the text of a predicate. -/
structure Predicate.HasMarks (p : Predicate) : Prop where
  body : HasDoubleMark p.written.body ↔ p.marksTwice false = true
  onStep : HasDoubleMark p.written.onStep ↔ p.marksTwice true = true
  last : p.written.onStep.getLast? = some '?' ↔ p.endsMarked = true
  unmarked : HasDoubleMark p.written.unmarked ∨ p.written.unmarked.getLast? = some '?' ↔
    (p.isMarkedGroup || p.marksTwice true) = true
  head : p.written.onStep.head? = some '['
  unmarkedHead : p.written.unmarked.head? = some '['

namespace Predicate.HasMarks
variable {p : Predicate} {ps : List Predicate}

theorem of_bracketed {binding : Binding} {body : List Char} (hwritten : p.written = .bracketed binding body)
    (hbody : IsBalanced body) (hmarks : HasDoubleMark body ↔ p.marksTwice false = true)
    (hplace : p.marksTwice true = p.marksTwice false) (hends : p.endsMarked = false)
    (hgroup : p.isMarkedGroup = false) : p.HasMarks := by
  have honStep : HasDoubleMark p.written.onStep ↔ p.marksTwice true = true := by
    rw [hwritten, hplace, ← hmarks]
    exact PredicateText.hasDoubleMark_enclosed hbody
  have hlast : p.written.onStep.getLast? = some ']' := by
    rw [hwritten]
    exact List.getLast?_concat
  have hsame : p.written.unmarked = p.written.onStep := by
    rw [hwritten]
    rfl
  have hhead : p.written.onStep.head? = some '[' := by
    rw [hwritten]
    rfl
  constructor
  case body =>
    rw [hwritten]
    exact hmarks
  case onStep => exact honStep
  case last => simp [hlast, hends]
  case unmarked => simp [hsame, honStep, hlast, hgroup]
  case head => exact hhead
  case unmarkedHead => rw [hsame, hhead]

/-- The mark is a second one behind a marked group. -/
theorem optional (hbalanced : p.written.Balanced) (h : p.HasMarks) : (Predicate.optional p).HasMarks := by
  have hgroup : (p.isMarkedGroup || p.marksTwice true) = (Predicate.optional p).marksTwice true := by
    rw [Predicate.marksTwice, Bool.true_and]
  constructor
  case body =>
    rw [Predicate.marksTwice, Bool.false_and, Bool.false_or]
    exact h.body
  case onStep =>
    rw [← hgroup, ← h.unmarked]
    exact hasDoubleMark_append_mark hbalanced.unmarked.isClosed
  case last => simp [Predicate.written, PredicateText.optional, Predicate.endsMarked]
  case unmarked =>
    change _ ↔ (false || (Predicate.optional p).marksTwice true) = true
    rw [← hgroup, Bool.false_or]
    exact h.unmarked
  case head =>
    change (p.written.unmarked ++ ['?']).head? = _
    rw [List.head?_append, h.unmarkedHead, Option.some_or]
  case unmarkedHead => exact h.unmarkedHead

theorem last_of_all (h : ∀ p ∈ ps, p.HasMarks) :
    (ps.flatMap (·.written.onStep)).getLast? = some '?' ↔ Predicate.lastEndsMarked ps = true := by
  induction ps with
  | nil => simp [Predicate.lastEndsMarked]
  | cons p ps ih =>
    rw [List.forall_mem_cons] at h
    rw [List.flatMap_cons, Predicate.lastEndsMarked]
    cases ps with
    | nil => simpa using h.1.last
    | cons q ps =>
      have hne : (q :: ps).flatMap (·.written.onStep) ≠ [] := fun hnil => by
        have hhead := (h.2 q List.mem_cons_self).head
        rw [List.flatMap_cons, List.append_eq_nil_iff] at hnil
        rw [hnil.1] at hhead
        cases hhead
      rw [List.getLast?_append_of_ne_nil _ hne]
      exact ih h.2

theorem onStep_of_all (hbalanced : ∀ t ∈ writtenAll ps, t.Balanced) (h : ∀ p ∈ ps, p.HasMarks) :
    HasDoubleMark ((writtenAll ps).flatMap (·.onStep)) ↔ anyMarksTwice true ps = true := by
  rw [writtenAll_eq] at hbalanced ⊢
  have hhead : ∀ t ∈ ps.map written, t.onStep.head? = some '[' := List.forall_mem_map.2 fun p hp => (h p hp).head
  rw [anyMarksTwice_eq, List.any_eq_true]
  refine (PredicateText.hasDoubleMark_every_onStep hbalanced hhead).trans ?_
  simp only [List.mem_map, exists_exists_and_eq_and]
  exact exists_congr fun p => and_congr_right fun hp => (h p hp).onStep

theorem body_of_all (hbalanced : ∀ t ∈ writtenAll ps, t.Balanced) (h : ∀ p ∈ ps, p.HasMarks) :
    HasDoubleMark (PredicateText.every (writtenAll ps)).body ↔ anyMarksTwice false ps = true := by
  rw [writtenAll_eq] at hbalanced ⊢
  rw [anyMarksTwice_eq, List.any_eq_true, PredicateText.hasDoubleMark_every hbalanced]
  simp only [List.mem_map, exists_exists_and_eq_and]
  exact exists_congr fun p => and_congr_right fun hp => (h p hp).body

theorem every (hbalanced : ∀ t ∈ writtenAll ps, t.Balanced) (h : ∀ p ∈ ps, p.HasMarks) (hne : ps ≠ []) :
    (Predicate.every ps).HasMarks := by
  have honStep : HasDoubleMark (Predicate.every ps).written.onStep ↔ (Predicate.every ps).marksTwice true = true := by
    rw [Predicate.marksTwice]
    exact onStep_of_all hbalanced h
  have hlast : (Predicate.every ps).written.onStep.getLast? = some '?' ↔ Predicate.lastEndsMarked ps = true := by
    rw [Predicate.written, PredicateText.every, writtenAll_eq, List.flatMap_map]
    exact last_of_all h
  have hhead : (Predicate.every ps).written.onStep.head? = some '[' := by
    cases ps with
    | nil => exact absurd rfl hne
    | cons p ps =>
      rw [Predicate.written, PredicateText.every, writtenAll, List.flatMap_cons, List.head?_append,
        (h p List.mem_cons_self).head, Option.some_or]
  constructor
  case body =>
    rw [Predicate.marksTwice]
    exact body_of_all hbalanced h
  case onStep => exact honStep
  case last => rw [hlast, Predicate.endsMarked]
  case unmarked =>
    rw [Bool.or_eq_true, or_comm (a := (Predicate.every ps).isMarkedGroup = true)]
    exact or_congr honStep hlast
  case head => exact hhead
  case unmarkedHead => exact hhead

end Predicate.HasMarks

theorem Relation.continuations_head (rs : List Relation) : (continuations rs).head? ≠ some '?' := by
  cases rs <;> simp [continuations]

mutual

theorem Step.hasDoubleMark_iff : (s : Step) → s.isPlain = true → (HasDoubleMark s.chars ↔ s.marksTwice = true)
  | ⟨tag, predicates, matched⟩, h => by
    simp only [Step.isPlain, Bool.and_eq_true] at h
    obtain ⟨⟨htag, hpredicates⟩, hmatched⟩ := h
    have hbalanced := Predicate.allBalanced predicates hpredicates
    have hclosed : IsClosed ((Predicate.writtenAll predicates).flatMap (·.onStep)) :=
      (IsBalanced.flatMap fun t ht => (hbalanced t ht).onStep).isClosed
    rw [Step.chars, List.append_assoc, Step.marksTwice, Bool.or_eq_true]
    refine (hasDoubleMark_name_append htag [] "()".toList _ (by decide) (by decide)).trans ?_
    rw [hasDoubleMark_append_of_head hclosed (Relation.continuations_head matched)]
    exact or_congr (Predicate.HasMarks.onStep_of_all hbalanced (Predicate.allHaveMarks predicates hpredicates))
      (Relation.hasDoubleMark_continuations matched hmatched)

theorem Relation.hasDoubleMark_iff : (r : Relation) → r.isPlain = true →
    (HasDoubleMark ('/' :: r.chars) ↔ r.marksTwice = true)
  | ⟨name, step⟩, h => by
    simp only [Relation.isPlain, Bool.and_eq_true] at h
    rw [Relation.marksTwice, ← Step.hasDoubleMark_iff step h.2]
    exact hasDoubleMark_name_append h.1 ['/'] "::".toList step.chars (by decide) (by decide)

theorem Relation.hasDoubleMark_continuations : (rs : List Relation) → Relation.allPlain rs = true →
    (HasDoubleMark (Relation.continuations rs) ↔ Relation.anyMarksTwice rs = true)
  | [], _ => by
    simp [Relation.anyMarksTwice, Relation.continuations, not_hasDoubleMark_of_mark_not_mem]
  | r :: rest, h => by
    simp only [Relation.allPlain, Bool.and_eq_true] at h
    rw [Relation.continuations, Relation.anyMarksTwice, Bool.or_eq_true,
      hasDoubleMark_append_of_head (Relation.isBalanced r h.1).isClosed (Relation.continuations_head rest)]
    exact or_congr (Relation.hasDoubleMark_iff r h.1) (Relation.hasDoubleMark_continuations rest h.2)

theorem Predicate.hasMarks : (p : Predicate) → p.isPlain = true → p.HasMarks
  | .equals name value, h => by
    have hbalanced := Predicate.isBalanced (.equals name value) h
    refine .of_bracketed rfl hbalanced.body ?_ rfl rfl rfl
    rw [Predicate.marksTwice, Bool.false_eq_true, iff_false]
    exact PredicateText.not_hasDoubleMark_equals h value
  | .related r, h =>
    .of_bracketed rfl (Relation.isBalanced r h) (Relation.hasDoubleMark_iff r h) rfl rfl rfl
  | .negated p, h => by
    have hbalanced := Predicate.isBalanced p h
    refine .of_bracketed rfl hbalanced.negated.body ?_ rfl rfl rfl
    exact (PredicateText.hasDoubleMark_negated hbalanced).trans (Predicate.hasMarks p h).body
  | .either p q, h => by
    simp only [Predicate.isPlain, Bool.and_eq_true] at h
    have hp := Predicate.isBalanced p h.1
    have hq := Predicate.isBalanced q h.2
    refine .of_bracketed rfl (hp.either hq).body ?_ rfl rfl rfl
    rw [Predicate.marksTwice, Bool.or_eq_true]
    exact (PredicateText.hasDoubleMark_either hp hq).trans
      (or_congr (Predicate.hasMarks p h.1).body (Predicate.hasMarks q h.2).body)
  | .every ps, h => by
    simp only [Predicate.isPlain, Bool.and_eq_true, Bool.not_eq_true', List.isEmpty_eq_false_iff] at h
    exact .every (Predicate.allBalanced ps h.2) (Predicate.allHaveMarks ps h.2) h.1
  | .optional p, h => .optional (Predicate.isBalanced p h) (Predicate.hasMarks p h)
  | .custom _, h => by cases h

theorem Predicate.allHaveMarks : (ps : List Predicate) → Predicate.allPlain ps = true → ∀ p ∈ ps, p.HasMarks
  | [], _ => by simp
  | p :: rest, h => by
    simp only [Predicate.allPlain, Bool.and_eq_true] at h
    exact List.forall_mem_cons.2 ⟨Predicate.hasMarks p h.1, Predicate.allHaveMarks rest h.2⟩

end

/-- **Two marks come in a row where a marked group is optional, and nowhere
else.** On a step, the text of a predicate has two marks in a row outside of
quoted values exactly when some conjunction in it, or in a step to which it
leads, is optional on its step and brings a mark of its own at its end. -/
theorem Predicate.text_hasDoubleMark_iff (p : Predicate) (h : p.isPlain = true) :
    HasDoubleMark p.text.toList ↔ p.marksTwice true = true := by
  rw [Predicate.text, String.toList_ofList]
  exact (Predicate.hasMarks p h).onStep

/-- The marked group is in the step to which the predicate leads, behind marks
that are part of a value. -/
theorem Predicate.text_hasDoubleMark_iff_nested :
    HasDoubleMark (Predicate.negated (.related ⟨"repo", ⟨"Repo", [.equals "name" (.string "why??"),
      .optional (.optional (.every [.equals "a" (.int 1), .every [.optional (.equals "b" (.int 2))]]))],
      []⟩⟩)).text.toList ∧
    ¬ HasDoubleMark (Predicate.negated (.related ⟨"repo", ⟨"Repo", [.equals "name" (.string "why??"),
      .optional (.optional (.every [.optional (.equals "b" (.int 2)), .equals "a" (.int 1)]))],
      []⟩⟩)).text.toList := by
  constructor
  · exact (Predicate.text_hasDoubleMark_iff _ (by decide)).2 (by decide)
  · rw [Predicate.text_hasDoubleMark_iff _ (by decide)]
    decide

/-- A change to an enriched build that sets one property and adds an optional
one. -/
def withOptional (build : Enriched Example) : Enriched Example :=
  let withProperty := { build with base := build.base.set "a" (.scalar (.string "1")) }
  match withProperty.optional (·.set "b" (.scalar (.string "2"))) with
  | .ok enriched => enriched
  | .error _ => build

/-- What `optional` makes of it has two marks. -/
theorem Predicate.optional_group_marked_twice :
    let group : Predicate := .every [.equals "a" (.string "1"), .optional (.equals "b" (.string "2"))]
    let build := Enriched.of (Enriched.of (Example.ofTag "Build"))
    build.optional withOptional = .ok (build.addPredicate (.optional group)) ∧
      (Predicate.optional group).isPlain = true ∧
      (Predicate.optional group).text = "[@a='1'][@b='2']??" ∧
      HasDoubleMark (Predicate.optional group).text.toList := by
  refine ⟨by cbv, by decide, by decide, ?_⟩
  exact ⟨"[@a='1'][@b='2']".toList, [], isClosed_iff.2 (by decide), by decide⟩

end QueryByExample
