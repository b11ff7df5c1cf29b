/-
Which texts are sequences of bracketed predicates.

Without its quoted values a body has brackets that balance: no beginning of it
closes more than it opens, and the whole closes as many as it opens
(`IsBody`). A sequence is such bodies in brackets, with blanks around them. A
text is a sequence in one way at most (`Decomposes.unique`), and raw text comes
to the bodies of that one way, or to itself where there is none
(`bodies_decomposition`).
-/
import QueryByExample.Proofs.Path.Brackets
import QueryByExample.Proofs.Path.Offsets

namespace QueryByExample.Bracketed

/-- What can stand between two quotes: a backslash with the character behind
it, whatever that is, and any other character but a quote. -/
inductive IsQuotable : List Char → Prop
  | nil : IsQuotable []
  | plain {c : Char} {t : List Char} : c ≠ '\'' → c ≠ '\\' → IsQuotable t → IsQuotable (c :: t)
  | escaped {c : Char} {t : List Char} : IsQuotable t → IsQuotable ('\\' :: c :: t)

/-- A text, all of whose quoted values are closed, and the characters that it
has outside of them. -/
inductive Unquoted : List Char → List Char → Prop
  | nil : Unquoted [] []
  | plain {c : Char} {t u : List Char} : c ≠ '\'' → Unquoted t u → Unquoted (c :: t) (c :: u)
  | quoted {v t u : List Char} : IsQuotable v → Unquoted t u → Unquoted ('\'' :: (v ++ '\'' :: t)) u

/-- With `depth` brackets open before, none closes that was not opened. -/
def NeverCloses (depth : Nat) (u : List Char) : Prop :=
  ∀ v, v <+: u → v.count ']' ≤ depth + v.count '['

/-- Outside of quoted values the brackets balance, and the last quoted value
is closed. -/
def IsBody (t : List Char) : Prop :=
  ∃ u, Unquoted t u ∧ NeverCloses 0 u ∧ u.count '[' = u.count ']'

section Quoted
variable {t u v : List Char}

theorem IsQuotable.scan? (h : IsQuotable v) (depth : Nat) (rest : List Char) :
    Bracketed.scan? .inside depth (v ++ '\'' :: rest) = Bracketed.scan? .outside depth rest := by
  induction h with
  | nil => exact scan?_quoted rfl
  | plain hquote hbackslash _ ih =>
    rw [List.cons_append, scan?_quoted rfl, Quoting.after, if_neg hbackslash, if_neg hquote, ih]
  | escaped _ ih =>
    rw [List.cons_append, List.cons_append, scan?_quoted rfl, scan?_quoted rfl]
    exact ih

theorem covers_outside_of_ne {c : Char} (h : c ≠ '\'') : Quoting.covers .outside c = false := by
  simp [Quoting.covers, h]

/-- A scan passes over quoted values. -/
theorem Unquoted.scan? (h : Unquoted t u) (depth : Nat) :
    Bracketed.scan? .outside depth t = Bracketed.scan? .outside depth u := by
  induction h generalizing depth with
  | nil => rfl
  | plain hc _ ih =>
    simp only [Bracketed.scan?.eq_def _ _ (_ :: _), covers_outside_of_ne hc, Bool.false_eq_true, if_false, ih]
  | quoted hv _ ih => rw [scan?_quoted rfl, Quoting.after, if_pos rfl, hv.scan?, ih]

theorem Unquoted.quote_not_mem (h : Unquoted t u) : '\'' ∉ u := by
  induction h with
  | nil => exact List.not_mem_nil
  | plain hc _ ih => exact List.not_mem_cons_of_ne_of_not_mem hc.symm ih
  | quoted _ _ ih => exact ih

/-- What is outside of quoted values in the rest of a text, where the part
before it ended with that quoting. -/
def Continues : Quoting → List Char → List Char → Prop
  | .outside, t, u => Unquoted t u
  | .inside, t, u => ∃ v rest, t = v ++ '\'' :: rest ∧ IsQuotable v ∧ Unquoted rest u
  | .escaped, t, u => ∃ c v rest, t = c :: (v ++ '\'' :: rest) ∧ IsQuotable v ∧ Unquoted rest u

/-- Where the quoting ends outside, every quoted value is closed. -/
theorem exists_continues {q : Quoting} (h : t.foldl Quoting.after q = .outside) : ∃ u, Continues q t u := by
  induction t generalizing q with
  | nil =>
    obtain rfl : q = .outside := h
    exact ⟨[], .nil⟩
  | cons c t ih =>
    obtain ⟨u, hu⟩ := ih (q := q.after c) h
    cases q with
    | outside =>
      by_cases hquote : c = '\''
      · subst hquote
        obtain ⟨v, rest, rfl, hv, hrest⟩ := hu
        exact ⟨u, .quoted hv hrest⟩
      · rw [Quoting.after, if_neg hquote] at hu
        exact ⟨c :: u, .plain hquote hu⟩
    | inside =>
      by_cases hbackslash : c = '\\'
      · subst hbackslash
        obtain ⟨d, v, rest, rfl, hv, hrest⟩ := hu
        exact ⟨u, '\\' :: d :: v, rest, rfl, .escaped hv, hrest⟩
      rw [Quoting.after, if_neg hbackslash] at hu
      by_cases hquote : c = '\''
      · rw [if_pos hquote] at hu
        exact ⟨u, [], t, by rw [hquote]; rfl, .nil, hu⟩
      · rw [if_neg hquote] at hu
        obtain ⟨v, rest, rfl, hv, hrest⟩ := hu
        exact ⟨u, c :: v, rest, rfl, .plain hquote hbackslash hv, hrest⟩
    | escaped =>
      obtain ⟨v, rest, rfl, hv, hrest⟩ := hu
      exact ⟨u, c, v, rest, rfl, hv, hrest⟩

end Quoted

theorem neverCloses_cons {depth : Nat} {c : Char} {u : List Char} : NeverCloses depth (c :: u) ↔
    ∀ v, v <+: u → (c :: v).count ']' ≤ depth + (c :: v).count '[' := by
  constructor
  · exact fun h v hv => h (c :: v) (List.cons_prefix_cons.2 ⟨rfl, hv⟩)
  · intro h v hv
    cases v with
    | nil => exact Nat.zero_le _
    | cons d v =>
      obtain ⟨rfl, hv'⟩ := List.cons_prefix_cons.1 hv
      exact h v hv'

theorem scan?_eq_some_iff_counts {depth depth' : Nat} {u : List Char} (hu : '\'' ∉ u) :
    Bracketed.scan? .outside depth u = some (.outside, depth') ↔
      NeverCloses depth u ∧ depth + u.count '[' = depth' + u.count ']' := by
  induction u generalizing depth with
  | nil =>
    have hnil : NeverCloses depth [] := fun v hv => by
      rw [List.prefix_nil.1 hv]
      exact Nat.zero_le _
    simp [Bracketed.scan?, hnil]
  | cons c u ih =>
    simp only [List.mem_cons, not_or] at hu
    have hcovers : Quoting.covers .outside c = false := covers_outside_of_ne (Ne.symm hu.1)
    rw [neverCloses_cons]
    by_cases hopening : c = '['
    · subst hopening
      rw [scan?_opening hcovers, ih hu.2]
      simp only [NeverCloses, List.count_cons_self, List.count_cons_of_ne (show '[' ≠ ']' by decide)]
      refine and_congr (forall₂_congr fun v _ => ?_) ?_ <;> omega
    by_cases hclosing : c = ']'
    · subst hclosing
      cases depth with
      | zero =>
        rw [scan?_closing hcovers]
        simp only [reduceCtorEq, false_iff, not_and_or]
        exact .inl fun h => absurd (h [] List.nil_prefix) (by decide)
      | succ depth =>
        rw [scan?_closing_inner hcovers, ih hu.2]
        simp only [NeverCloses, List.count_cons_self, List.count_cons_of_ne (show ']' ≠ '[' by decide)]
        refine and_congr (forall₂_congr fun v _ => ?_) ?_ <;> omega
    · rw [scan?_plain hcovers hopening hclosing, ih hu.2]
      simp only [NeverCloses, List.count_cons_of_ne hopening, List.count_cons_of_ne hclosing]

theorem isBody_iff {t : List Char} : IsBody t ↔ IsBalanced t := by
  constructor
  · rintro ⟨u, hu, hcloses, hcount⟩
    rw [IsBalanced, hu.scan?, scan?_eq_some_iff_counts hu.quote_not_mem]
    exact ⟨hcloses, by omega⟩
  · intro h
    obtain ⟨u, hu⟩ := exists_continues (quoting_of_scan? h)
    change Unquoted t u at hu
    rw [IsBalanced, hu.scan?, scan?_eq_some_iff_counts hu.quote_not_mem] at h
    exact ⟨u, hu, h.1, by omega⟩

/-- Bodies in brackets, each with the blanks behind it. -/
def groupsText (groups : List (List Char × List Char)) : List Char :=
  groups.flatMap fun (body, blanks) => '[' :: (body ++ ']' :: blanks)

/-- The text is blanks and then these groups. -/
structure Decomposes (text blanks : List Char) (groups : List (List Char × List Char)) : Prop where
  text_eq : text = blanks ++ groupsText groups
  blanks : blanks.all isBlank = true
  groups : ∀ g ∈ groups, IsBody g.1 ∧ g.2.all isBlank = true

theorem groupsText_cons (body blanks : List Char) (groups : List (List Char × List Char)) :
    groupsText ((body, blanks) :: groups) = '[' :: (body ++ ']' :: (blanks ++ groupsText groups)) := by
  simp [groupsText]

namespace Decomposes
variable {text blanks body : List Char} {groups : List (List Char × List Char)}

theorem nil : Decomposes [] [] [] := ⟨rfl, rfl, by simp⟩

theorem consBlank {c : Char} (hc : isBlank c = true) (h : Decomposes text blanks groups) :
    Decomposes (c :: text) (c :: blanks) groups :=
  ⟨by rw [h.text_eq, List.cons_append], by rw [List.all_cons, hc, h.blanks, Bool.and_self], h.groups⟩

theorem consGroup (hbody : IsBody body) (h : Decomposes text blanks groups) :
    Decomposes ('[' :: (body ++ ']' :: text)) [] ((body, blanks) :: groups) where
  text_eq := by rw [List.nil_append, groupsText_cons, h.text_eq]
  blanks := rfl
  groups := List.forall_mem_cons.2 ⟨⟨hbody, h.blanks⟩, h.groups⟩

/-- What is left behind the first group is decomposed too. -/
theorem tail {after : List Char} (h : Decomposes text blanks ((body, after) :: groups)) :
    Decomposes (after ++ groupsText groups) after groups :=
  have hgroups := List.forall_mem_cons.1 h.groups
  ⟨rfl, hgroups.1.2, hgroups.2⟩

/-- The first blanks are all those that the text starts with. -/
theorem blanks_eq (h : Decomposes text blanks groups) :
    blanks = text.takeWhile isBlank ∧ groupsText groups = text.dropWhile isBlank := by
  have hstop : (groupsText groups).head?.all (!isBlank ·) = true := by
    cases groups with
    | nil => rfl
    | cons g groups =>
      rw [groupsText_cons, List.head?_cons]
      decide
  obtain ⟨htake, hdrop⟩ := Reading.takeWhile_append_stop h.blanks hstop
  rw [h.text_eq, htake, hdrop]
  exact ⟨rfl, rfl⟩

end Decomposes

theorem IsBalanced.not_closes {t u : List Char} (h : IsBalanced t) : ¬ IsBalanced (t ++ ']' :: u) := by
  rw [IsBalanced, scan?_append, h, Option.bind_some, scan?_closing rfl]
  exact (Option.some_ne_none _).symm

/-- A body ends where its bracket closes, so it is known from the text. -/
theorem IsBalanced.unique {body body' rest rest' : List Char} (h : IsBalanced body) (h' : IsBalanced body')
    (heq : body ++ ']' :: rest = body' ++ ']' :: rest') : body = body' ∧ rest = rest' := by
  rcases List.append_eq_append_iff.1 heq with ⟨more, rfl, hmore⟩ | ⟨more, rfl, hmore⟩
  · cases more with
    | nil => exact ⟨(List.append_nil _).symm, (List.cons.inj hmore).2⟩
    | cons c more =>
      obtain ⟨rfl, -⟩ := List.cons.inj hmore
      exact absurd h' h.not_closes
  · cases more with
    | nil => exact ⟨List.append_nil _, (List.cons.inj hmore).2.symm⟩
    | cons c more =>
      obtain ⟨rfl, -⟩ := List.cons.inj hmore
      exact absurd h h'.not_closes

/-- A text is a sequence in one way at most. -/
theorem Decomposes.unique {text blanks blanks' : List Char} {groups groups' : List (List Char × List Char)}
    (h : Decomposes text blanks groups) (h' : Decomposes text blanks' groups') :
    blanks' = blanks ∧ groups' = groups := by
  have htext : groupsText groups' = groupsText groups := h'.blanks_eq.2.trans h.blanks_eq.2.symm
  refine ⟨h'.blanks_eq.1.trans h.blanks_eq.1.symm, ?_⟩
  induction groups generalizing text blanks blanks' groups' with
  | nil =>
    cases groups' with
    | nil => rfl
    | cons g groups' => cases htext
  | cons g groups ih =>
    cases groups' with
    | nil => cases htext
    | cons g' groups' =>
      obtain ⟨body, after⟩ := g
      obtain ⟨body', after'⟩ := g'
      rw [groupsText_cons, groupsText_cons] at htext
      have hbody : IsBalanced body := isBody_iff.1 (h.groups _ List.mem_cons_self).1
      have hbody' : IsBalanced body' := isBody_iff.1 (h'.groups _ List.mem_cons_self).1
      obtain ⟨rfl, hrest⟩ := hbody'.unique hbody (List.cons.inj htext).2
      have htail := h'.tail
      rw [hrest] at htail
      rw [ih h.tail htail (htail.blanks_eq.2.trans h.tail.blanks_eq.2.symm),
        htail.blanks_eq.1.trans h.tail.blanks_eq.1.symm]

theorem sequence?_blanks {blanks : List Char} (h : blanks.all isBlank = true) (rest : List Char) :
    sequence? (blanks ++ rest) = sequence? rest := by
  induction blanks with
  | nil => rfl
  | cons c blanks ih =>
    simp only [List.all_cons, Bool.and_eq_true] at h
    have hopening : c ≠ '[' := by
      rintro rfl
      exact absurd h.1 (by decide)
    rw [List.cons_append, sequence?, if_neg hopening, if_pos h.1, ih h.2]

theorem Decomposes.sequence?_eq {text blanks : List Char} {groups : List (List Char × List Char)}
    (h : Decomposes text blanks groups) : sequence? text = some (groups.map (·.1)) := by
  induction groups generalizing text blanks with
  | nil =>
    rw [h.text_eq, sequence?_blanks h.blanks]
    rfl
  | cons g groups ih =>
    obtain ⟨body, after⟩ := g
    have hbody : IsBalanced body := isBody_iff.1 (h.groups _ List.mem_cons_self).1
    rw [h.text_eq, sequence?_blanks h.blanks, groupsText_cons]
    exact (sequence?_enclosed hbody _).trans (by rw [ih h.tail]; rfl)

/-- A reader that is inside of a predicate reads on to where its body ends. -/
theorem exists_of_body? {q : Quoting} {depth : Nat} {seen text : List Char} {bodies : List (List Char)}
    (h : body? q depth seen text = some bodies) : ∃ more rest others, text = more ++ ']' :: rest ∧
      scan? q depth more = some (.outside, 0) ∧ sequence? rest = some others ∧
      bodies = (seen.reverse ++ more) :: others := by
  induction text generalizing q depth seen with
  | nil => cases h
  | cons c text ih =>
    by_cases hcovers : q.covers c = true
    · rw [body?_quoted hcovers] at h
      obtain ⟨more, rest, others, rfl, hscan, hothers, rfl⟩ := ih h
      exact ⟨c :: more, rest, others, rfl, by rw [scan?_quoted hcovers, hscan], hothers, by simp⟩
    rw [Bool.not_eq_true] at hcovers
    by_cases hopening : c = '['
    · subst hopening
      rw [body?_opening hcovers] at h
      obtain ⟨more, rest, others, rfl, hscan, hothers, rfl⟩ := ih h
      exact ⟨'[' :: more, rest, others, rfl, by rw [scan?_opening hcovers, hscan], hothers, by simp⟩
    by_cases hclosing : c = ']'
    · subst hclosing
      cases depth with
      | zero =>
        obtain rfl : q = .outside := Quoting.eq_outside_of_not_covers hcovers
        rw [body?_closing hcovers, Option.map_eq_some_iff] at h
        obtain ⟨others, hothers, rfl⟩ := h
        exact ⟨[], text, others, rfl, rfl, hothers, by simp⟩
      | succ depth =>
        rw [body?_closing_inner hcovers] at h
        obtain ⟨more, rest, others, rfl, hscan, hothers, rfl⟩ := ih h
        exact ⟨']' :: more, rest, others, rfl, by rw [scan?_closing_inner hcovers, hscan], hothers, by simp⟩
    · rw [body?_plain hcovers hopening hclosing] at h
      obtain ⟨more, rest, others, rfl, hscan, hothers, rfl⟩ := ih h
      exact ⟨c :: more, rest, others, rfl, by rw [scan?_plain hcovers hopening hclosing, hscan], hothers, by simp⟩

theorem exists_decomposes (text : List Char) {bodies : List (List Char)} (h : sequence? text = some bodies) :
    ∃ blanks groups, Decomposes text blanks groups ∧ groups.map (·.1) = bodies := by
  cases text with
  | nil =>
    obtain rfl : [] = bodies := Option.some.inj h
    exact ⟨[], [], .nil, rfl⟩
  | cons c text =>
    rw [sequence?] at h
    split at h
    next hopening =>
      obtain ⟨body, rest, others, htext, hscan, hothers, rfl⟩ := exists_of_body? h
      have hshorter : rest.length < text.length + 1 := by
        rw [htext, List.length_append, List.length_cons]
        omega
      obtain ⟨blanks, groups, hrest, rfl⟩ := exists_decomposes rest hothers
      rw [hopening, htext]
      exact ⟨[], (body, blanks) :: groups, hrest.consGroup (isBody_iff.2 hscan), rfl⟩
    next =>
      split at h
      next hblank =>
        obtain ⟨blanks, groups, htext, hgroups⟩ := exists_decomposes text h
        exact ⟨c :: blanks, groups, htext.consBlank hblank, hgroups⟩
      next => cases h
termination_by text.length

theorem sequence?_eq_some_iff {text : List Char} {bodies : List (List Char)} : sequence? text = some bodies ↔
    ∃ blanks groups, Decomposes text blanks groups ∧ groups.map (·.1) = bodies :=
  ⟨exists_decomposes text, fun ⟨_, _, h, hbodies⟩ => hbodies ▸ h.sequence?_eq⟩

/-- **Raw text comes to the bodies of its brackets.** Where it is blanks,
bodies in brackets and blanks between and behind them, at least one body, it is
so in one way only and its bodies are these. Any other text is one body, whole.
And it makes no difference to cut the bodies out of the text by their offsets:
no cut falls inside of a character and no count of brackets below zero. -/
theorem bodies_decomposition (text : List Char) :
    (∀ blanks groups, groups ≠ [] → Decomposes text blanks groups →
      bodies text = groups.map (·.1) ∧
        ∀ blanks' groups', Decomposes text blanks' groups' → blanks' = blanks ∧ groups' = groups) ∧
    ((∀ blanks groups, groups ≠ [] → ¬ Decomposes text blanks groups) → bodies text = [text]) ∧
    scanBodies text = .ok (bodies text) := by
  refine ⟨fun blanks groups hne h => ⟨?_, fun _ _ h' => h.unique h'⟩, fun hnone => ?_, scanBodies_eq text⟩
  · rw [bodies, h.sequence?_eq]
    cases groups with
    | nil => exact absurd rfl hne
    | cons g groups => rfl
  · rw [bodies]
    split
    next body others hsequence =>
      obtain ⟨blanks, groups, h, hgroups⟩ := sequence?_eq_some_iff.1 hsequence
      refine absurd h (hnone blanks groups ?_)
      rintro rfl
      cases hgroups
    next => rfl

/-- A bracket in a quoted value, behind an escaped quote, and brackets inside of
a body. -/
theorem bodies_decomposition_quoted :
    bodies " [@a='x\\']'] \u00a0[/r::É()[@b='1']]".toList = ["@a='x\\']'".toList, "/r::É()[@b='1']".toList] := by
  have hdecomposes : Decomposes " [@a='x\\']'] \u00a0[/r::É()[@b='1']]".toList [' ']
      [("@a='x\\']'".toList, " \u00a0".toList), ("/r::É()[@b='1']".toList, [])] := by
    refine ⟨by decide, by decide, ?_⟩
    simp only [List.forall_mem_cons, List.not_mem_nil, false_imp_iff, implies_true, and_true]
    exact ⟨⟨isBody_iff.2 rfl, by decide⟩, isBody_iff.2 rfl, rfl⟩
  exact ((bodies_decomposition _).1 _ _ (List.cons_ne_nil _ _) hdecomposes).1

end QueryByExample.Bracketed
