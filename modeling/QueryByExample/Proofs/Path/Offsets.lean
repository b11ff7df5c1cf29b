/-
Cutting the bodies out of raw predicate text by byte offsets.

A scan of UTF-8 text in one pass counts the brackets that are open, remembers
at which offset the body that it is in started, and cuts the body out where its
bracket closes. Two things could go wrong: an offset could fall inside of a
character, and the count could go below zero. Neither ever does, and the scan
comes to the bodies of the text (`scanBodies_eq`).
-/
import QueryByExample.Proofs.Path.Brackets

namespace QueryByExample.Bracketed

@[simp] def byteSize : List Char → Nat
  | [] => 0
  | c :: cs => c.utf8Size + byteSize cs

@[simp] theorem byteSize_append (cs ds : List Char) : byteSize (cs ++ ds) = byteSize cs + byteSize ds := by
  induction cs with
  | nil => simp
  | cons c cs ih => simp [ih, Nat.add_assoc]

/-- The text before a byte offset and the text after it; nothing if the offset
falls inside of a character or behind the end. -/
def splitAt? : Nat → List Char → Option (List Char × List Char)
  | 0, cs => some ([], cs)
  | _ + 1, [] => none
  | offset + 1, c :: cs =>
    if c.utf8Size ≤ offset + 1 then
      (splitAt? (offset + 1 - c.utf8Size) cs).map fun (before, after) => (c :: before, after)
    else none

/-- The text between two byte offsets, if both are between characters and in
this order. -/
def cut? (start stop : Nat) (cs : List Char) : Option (List Char) :=
  if start ≤ stop then do
    let (before, _) ← splitAt? stop cs
    let (_, between) ← splitAt? start before
    return between
  else none

theorem splitAt?_append (cs ds : List Char) : splitAt? (byteSize cs) (cs ++ ds) = some (cs, ds) := by
  induction cs with
  | nil => rw [byteSize, List.nil_append, splitAt?]
  | cons c cs ih =>
    have hpos := c.utf8Size_pos
    obtain ⟨offset, hoffset⟩ : ∃ offset, c.utf8Size + byteSize cs = offset + 1 :=
      ⟨c.utf8Size + byteSize cs - 1, by omega⟩
    have hrest : offset + 1 - c.utf8Size = byteSize cs := by omega
    rw [byteSize, List.cons_append, hoffset, splitAt?, if_pos (by omega), hrest, ih, Option.map_some]

theorem cut?_append (before between after : List Char) :
    cut? (byteSize before) (byteSize (before ++ between)) (before ++ between ++ after) = some between := by
  have hle : byteSize before ≤ byteSize (before ++ between) := by
    rw [byteSize_append]
    omega
  rw [cut?, if_pos hle, splitAt?_append]
  simp only [Option.bind_eq_bind, Option.bind_some, splitAt?_append]
  rfl

inductive Fault where
  /-- A cut at an offset inside of a character, or behind the end. -/
  | boundary
  /-- A count below zero. -/
  | underflow

def cut (start stop : Nat) (cs : List Char) : Except Fault (List Char) :=
  match cut? start stop cs with
  | some between => .ok between
  | none => .error .boundary

def decrement : Nat → Except Fault Nat
  | 0 => .error .underflow
  | n + 1 => .ok n

structure Scan where
  /-- The bodies that have been cut out. -/
  found : List (List Char)
  /-- How many brackets are open. -/
  depth : Nat
  /-- Where the body starts that the scan is in, or the last one that it was in. -/
  start : Nat
  quoting : Quoting

namespace Scan

/-- The scan behind one more character, which stands at that offset; nothing
if the text is no sequence of bracketed predicates. -/
def step (text : List Char) (s : Scan) (offset : Nat) (c : Char) : Except Fault (Option Scan) := do
  if s.quoting.covers c then
    return if s.depth = 0 then none else some { s with quoting := s.quoting.after c }
  else if c = '[' then
    return some { s with depth := s.depth + 1, start := if s.depth = 0 then offset + 1 else s.start }
  else if c = ']' ∧ 0 < s.depth then
    let depth ← decrement s.depth
    if depth = 0 then
      let body ← cut s.start offset text
      return some { s with depth, found := s.found ++ [body] }
    else return some { s with depth }
  else if s.depth = 0 ∧ !isBlank c then return none
  else return some s

/-- The scan behind all characters from that offset on. -/
def run (text : List Char) : Scan → Nat → List Char → Except Fault (Option Scan)
  | s, _, [] => return some s
  | s, offset, c :: rest => do
    match ← s.step text offset c with
    | some next => run text next (offset + c.utf8Size) rest
    | none => return none

/-- What has been found, if the text ends outside of all brackets and quotes. -/
def found? (s : Scan) : Option (List (List Char)) :=
  if s.depth = 0 ∧ s.quoting = .outside then some s.found else none

end Scan

/-- The bodies of raw predicate text, cut out of it by their offsets. -/
def scanBodies (text : List Char) : Except Fault (List (List Char)) := do
  let last ← Scan.run text ⟨[], 0, 0, .outside⟩ 0 text
  match last.bind Scan.found? with
  | some (body :: rest) => return body :: rest
  | _ => return [text]

namespace Scan
variable {text : List Char}

/-- The scan ends, with these bodies if with any. -/
def EndsWith (r : Except Fault (Option Scan)) (bodies : Option (List (List Char))) : Prop :=
  ∃ last, r = .ok last ∧ last.bind found? = bodies

theorem run_cons_of_step {s next : Scan} {offset : Nat} {c : Char} {rest : List Char}
    (h : s.step text offset c = .ok (some next)) :
    run text s offset (c :: rest) = run text next (offset + c.utf8Size) rest := by
  rw [run, h]
  rfl

theorem endsWith_none_of_step {s : Scan} {offset : Nat} {c : Char} {rest : List Char}
    (h : s.step text offset c = .ok none) : EndsWith (run text s offset (c :: rest)) none := by
  rw [run, h]
  exact ⟨none, rfl, rfl⟩

-- One character, between the brackets and in them.
section Step
variable {found : List (List Char)} {start offset depth : Nat} {c : Char} {q : Quoting}

/-- Where the first bracket opens, a body starts. -/
theorem step_opening : step text ⟨found, 0, start, .outside⟩ offset '[' =
    .ok (some ⟨found, 1, offset + 1, .outside⟩) := rfl

theorem step_between (h : c ≠ '[') : step text ⟨found, 0, start, .outside⟩ offset c =
    .ok (if isBlank c then some ⟨found, 0, start, .outside⟩ else none) := by
  have hquote : isBlank '\'' = false := by decide
  by_cases hc : c = '\''
  · subst hc
    rw [if_neg (by simp [hquote])]
    rfl
  · have hcovers : Quoting.covers .outside c = false := by simp [Quoting.covers, hc]
    simp only [step, hcovers, Bool.false_eq_true, if_false, h, Nat.lt_irrefl, and_false, true_and]
    cases isBlank c <;> rfl

theorem step_quoted (h : q.covers c = true) : step text ⟨found, depth + 1, start, q⟩ offset c =
    .ok (some ⟨found, depth + 1, start, q.after c⟩) := by
  simp only [step, h, if_true]
  rfl

theorem step_opening_inner (h : q.covers '[' = false) : step text ⟨found, depth + 1, start, q⟩ offset '[' =
    .ok (some ⟨found, depth + 2, start, q⟩) := by
  simp only [step, h, Bool.false_eq_true, if_false]
  rfl

theorem step_plain (h : q.covers c = false) (hopening : c ≠ '[') (hclosing : c ≠ ']') :
    step text ⟨found, depth + 1, start, q⟩ offset c = .ok (some ⟨found, depth + 1, start, q⟩) := by
  simp only [step, h, Bool.false_eq_true, if_false, hopening, hclosing, false_and, Nat.succ_ne_zero]
  rfl

theorem step_closing_inner (h : q.covers ']' = false) : step text ⟨found, depth + 2, start, q⟩ offset ']' =
    .ok (some ⟨found, depth + 1, start, q⟩) := by
  simp only [step, h, Bool.false_eq_true, if_false]
  rfl

/-- Where the last bracket closes, the body is cut out of the text. -/
theorem step_closing {before body rest : List Char} (htext : text = before ++ body ++ rest) :
    step text ⟨found, 1, byteSize before, .outside⟩ (byteSize (before ++ body)) ']' =
      .ok (some ⟨found ++ [body], 0, byteSize before, .outside⟩) := by
  have hcut : cut (byteSize before) (byteSize (before ++ body)) text = .ok body := by
    rw [cut, htext, cut?_append]
  change (cut (byteSize before) (byteSize (before ++ body)) text >>= fun body => _) = _
  rw [hcut]
  rfl

end Step

mutual

/-- Between the brackets the scan goes on as the reader does. -/
theorem run_between (rest : List Char) (found : List (List Char)) (start : Nat) (done : List Char)
    (htext : text = done ++ rest) :
    EndsWith (run text ⟨found, 0, start, .outside⟩ (byteSize done) rest) ((sequence? rest).map (found ++ ·)) := by
  cases rest with
  | nil =>
    rw [sequence?, Option.map_some, List.append_nil]
    exact ⟨_, rfl, rfl⟩
  | cons c rest =>
    have hnext : text = (done ++ [c]) ++ rest := by rw [htext, List.append_assoc, List.singleton_append]
    have hoffset : byteSize done + c.utf8Size = byteSize (done ++ [c]) := by simp
    by_cases hopening : c = '['
    · subst hopening
      have hstart : byteSize done + 1 = byteSize (done ++ ['[']) := hoffset
      rw [sequence?, if_pos rfl, run_cons_of_step step_opening, hoffset, hstart]
      have hwithin := run_within rest found .outside 0 (done ++ ['[']) [] (by simpa using hnext)
      rw [List.reverse_nil, List.append_nil] at hwithin
      exact hwithin
    · have hstep : step text ⟨found, 0, start, .outside⟩ (byteSize done) c = _ := step_between hopening
      rw [sequence?, if_neg hopening]
      by_cases hblank : isBlank c = true
      · rw [if_pos hblank] at hstep ⊢
        rw [run_cons_of_step hstep, hoffset]
        exact run_between rest found start (done ++ [c]) hnext
      · rw [if_neg hblank] at hstep ⊢
        exact endsWith_none_of_step hstep

/-- Inside of brackets it does too, and knows where the body started. -/
theorem run_within (rest : List Char) (found : List (List Char)) (q : Quoting) (depth : Nat)
    (before seen : List Char) (htext : text = before ++ seen.reverse ++ rest) :
    EndsWith (run text ⟨found, depth + 1, byteSize before, q⟩ (byteSize (before ++ seen.reverse)) rest)
      ((body? q depth seen rest).map (found ++ ·)) := by
  cases rest with
  | nil =>
    rw [body?]
    exact ⟨_, rfl, rfl⟩
  | cons c rest =>
    have hnext : text = before ++ (c :: seen).reverse ++ rest := by
      rw [htext, List.reverse_cons, List.append_assoc, List.append_assoc, List.append_assoc, List.singleton_append]
    have hoffset : byteSize (before ++ seen.reverse) + c.utf8Size = byteSize (before ++ (c :: seen).reverse) := by
      simp [Nat.add_assoc]
    by_cases hquoted : q.covers c = true
    · rw [body?_quoted hquoted, run_cons_of_step (step_quoted hquoted), hoffset]
      exact run_within rest found (q.after c) depth before (c :: seen) hnext
    rw [Bool.not_eq_true] at hquoted
    by_cases hopening : c = '['
    · subst hopening
      rw [body?_opening hquoted, run_cons_of_step (step_opening_inner hquoted), hoffset]
      exact run_within rest found q (depth + 1) before ('[' :: seen) hnext
    by_cases hclosing : c = ']'
    · subst hclosing
      cases depth with
      | zero =>
        obtain rfl : q = .outside := Quoting.eq_outside_of_not_covers hquoted
        have hbetween := run_between rest (found ++ [seen.reverse]) (byteSize before)
          (before ++ (']' :: seen).reverse) hnext
        rw [body?_closing hquoted, run_cons_of_step (step_closing htext), hoffset, Option.map_map]
        simpa [Function.comp_def] using hbetween
      | succ depth =>
        rw [body?_closing_inner hquoted, run_cons_of_step (step_closing_inner hquoted), hoffset]
        exact run_within rest found q depth before (']' :: seen) hnext
    · rw [body?_plain hquoted hopening hclosing, run_cons_of_step (step_plain hquoted hopening hclosing), hoffset]
      exact run_within rest found q depth before (c :: seen) hnext

end

end Scan

/-- No cut misses and no count goes below zero: the scan comes to the bodies
of the text. -/
theorem scanBodies_eq (text : List Char) : scanBodies text = .ok (bodies text) := by
  obtain ⟨last, hrun, hlast⟩ := Scan.run_between text [] 0 [] rfl
  have hfound : last.bind Scan.found? = sequence? text := by
    rw [hlast]
    cases sequence? text <;> rfl
  rw [byteSize, List.nil_append] at hrun
  simp only [scanBodies, hrun, bind, Except.bind, hfound, bodies]
  cases sequence? text with
  | none => rfl
  | some found => cases found <;> rfl

end QueryByExample.Bracketed
